import Mathlib.Data.Finset.Basic
import BpftimeBenchmark.Fuse.Passthrough
import BpftimeBenchmark.Lib.Ownership
import BpftimeBenchmark.Lib.Transition

/-!
The file descriptors of `passthrough.c`. FUSE serves requests on any number of threads; an
open file is known to the kernel by the descriptor that `open` or `create` has left in
`fi->fh`, and FUSE asks for its release once, when no request on it is under way. The
operations on paths that open nothing are left out, as is what is read and written.
-/

namespace BpftimeBenchmark.Fuse.Handles

open Transition Ownership

abbrev Fd := Nat

abbrev Worker := Nat

/-- An open file as the kernel knows it. -/
abbrev Handle := Nat

inductive Access where
  | readOnly
  | writeOnly
  | readWrite
  deriving DecidableEq

/-- The calls on a descriptor. -/
inductive Kind where
  | read
  | write
  | fsync
  | fdatasync
  | close
  deriving DecidableEq

def Access.permits : Access → Kind → Bool
  | .writeOnly, .read | .readOnly, .write => false
  | _, _ => true

/-- What a descriptor refers to. `id` counts the calls that have opened something. -/
structure Description where
  id : Nat
  access : Access
  deriving DecidableEq

/-- `fh` is `fi->fh`, and `asked` the access with which the file was opened. `opened` and
`created` are history variables; `users` are the threads at work on a request for it. -/
structure File where
  fh : Fd
  asked : Access
  opened : Description
  created : Bool
  users : Finset Worker

/-- Where a thread is: before or after the call that opens something, at work on an open
file, or before the call that closes it. -/
inductive Task where
  | idle
  | open (asked : Access)
  | create (asked : Access)
  | opened (fd : Fd) (asked : Access) (d : Description) (created : Bool)
  | opendir
  | readdir (fd : Fd) (d : Description)
  | io (h : Handle) (fd : Fd) (kind : Kind)
  | close (fd : Fd) (d : Description) (created : Bool)
  deriving DecidableEq

/-- A call on a descriptor: what the one who calls has opened, what the descriptor refers to
when it is called, and whether that was a wrong descriptor. -/
structure Call where
  kind : Kind
  opened : Description
  created : Bool
  found : Option Description
  badFd : Bool
  deriving DecidableEq

structure State where
  table : Fd → Option Description
  opens : Nat
  files : Handle → Option File
  task : Worker → Task
  calls : List Call

/-- `succeeds` and `fails` are the answer to a call that opens something, `run` lets any
other call go on, and `reply` makes a file of what has been opened. -/
inductive Label where
  | open (w : Worker) (path : List UInt8) (asked : Access)
  | create (w : Worker) (path : List UInt8) (asked : Access)
  | readdir (w : Worker) (path : List UInt8)
  | io (w : Worker) (h : Handle) (kind : Kind)
  | release (w : Worker) (h : Handle)
  | succeeds (w : Worker) (fd : Fd)
  | fails (w : Worker)
  | run (w : Worker)
  | reply (w : Worker) (h : Handle)

def State.setTask (s : State) (w : Worker) (t : Task) : State :=
  { s with task := Function.update s.task w t }

/-- A request on a path starts unless it is refused at once; `open` and `readdir` check the
path. -/
def State.request (s : State) (rootdir path : List UInt8) (w : Worker) (checked : Bool)
    (t : Task) : Option State :=
  if s.task w = .idle ∧ (joined rootdir path).length < pathMax then
    if checked && blocked (joined rootdir path) then some s else some (s.setTask w t)
  else none

/-- Whether the call fails with `EBADF`. -/
def badFd (found : Option Description) (kind : Kind) : Bool :=
  match found with
  | none => true
  | some d => !d.access.permits kind

/-- A call on a descriptor with what it finds there. -/
def State.call (s : State) (kind : Kind) (fd : Fd) (opened : Description) (created : Bool) :
    State :=
  let found := s.table fd
  { s with calls := s.calls ++ [⟨kind, opened, created, found, badFd found kind⟩] }

/-- The descriptor is free again. -/
def State.closed (s : State) (fd : Fd) (opened : Description) (created : Bool) : State :=
  { s.call .close fd opened created with table := Function.update s.table fd none }

/-- A new descriptor; `create` opens for writing, whatever was asked. -/
def State.opened (s : State) (fd : Fd) (access : Access) : State :=
  { s with
    table := Function.update s.table fd (some ⟨s.opens, access⟩)
    opens := s.opens + 1 }

def step (rootdir : List UInt8) (s : State) : Label → Option State
  | .open w path asked => s.request rootdir path w true (.open asked)
  | .create w path asked => s.request rootdir path w false (.create asked)
  | .readdir w path => s.request rootdir path w true .opendir
  | .io w h kind =>
      match s.files h with
      | none => none
      | some f =>
          if s.task w = .idle ∧ kind ≠ .close ∧ f.asked.permits kind then
            some
              { s.setTask w (.io h f.fh kind) with
                files := Function.update s.files h (some { f with users := insert w f.users }) }
          else none
  | .release w h =>
      match s.files h with
      | none => none
      | some f =>
          if s.task w = .idle ∧ f.users = ∅ then
            some
              { s.setTask w (.close f.fh f.opened f.created) with
                files := Function.update s.files h none }
          else none
  | .succeeds w fd =>
      if s.table fd = none then
        match s.task w with
        | .open asked =>
            some ((s.opened fd asked).setTask w (.opened fd asked ⟨s.opens, asked⟩ false))
        | .create asked =>
            some ((s.opened fd .writeOnly).setTask w
              (.opened fd asked ⟨s.opens, .writeOnly⟩ true))
        | .opendir =>
            some ((s.opened fd .readOnly).setTask w (.readdir fd ⟨s.opens, .readOnly⟩))
        | _ => none
      else none
  | .fails w =>
      match s.task w with
      | .open _ | .create _ | .opendir => some (s.setTask w .idle)
      | _ => none
  | .run w =>
      match s.task w with
      | .io h fd kind =>
          (s.files h).map fun f =>
            { (s.call kind fd f.opened f.created).setTask w .idle with
              files := Function.update s.files h (some { f with users := f.users.erase w }) }
      | .readdir fd d => some ((s.closed fd d false).setTask w .idle)
      | .close fd d created => some ((s.closed fd d created).setTask w .idle)
      | _ => none
  | .reply w h =>
      match s.task w with
      | .opened fd asked d created =>
          if s.files h = none then
            some
              { s.setTask w .idle with
                files := Function.update s.files h (some ⟨fd, asked, d, created, ∅⟩) }
          else none
      | _ => none

def start : State where
  table := fun _ => none
  opens := 0
  files := fun _ => none
  task := fun _ => .idle
  calls := []

def system (rootdir : List UInt8) : System State Label where
  start := fun s => s = start
  step := step rootdir

/-- Who holds a descriptor: an open file, or a thread between its calls. -/
inductive Owner where
  | file (h : Handle)
  | worker (w : Worker)

def Task.holds : Task → Option (Fd × Description)
  | .opened fd _ d _ | .readdir fd d | .close fd d _ => some (fd, d)
  | .idle | .open _ | .create _ | .opendir | .io _ _ _ => none

def State.holds (s : State) : Owner → Option (Fd × Description)
  | .file h => (s.files h).map fun f => (f.fh, f.opened)
  | .worker w => (s.task w).holds

/-- The access a descriptor was opened with. -/
def granted (asked : Access) (created : Bool) : Access :=
  if created then .writeOnly else asked

def Task.Granted : Task → Prop
  | .opened _ asked d created => d.access = granted asked created
  | _ => True

/-- A call acts on what its own `open` has opened, and the descriptor is wrong for it exactly
if that is a file to be created and the call a `read`. -/
structure Call.Sound (c : Call) : Prop where
  found : c.found = some c.opened
  badFd : c.badFd = true ↔ c.created = true ∧ c.kind = .read

structure Orderly (s : State) : Prop where
  owned : Owned s.table s.holds
  users : ∀ w h fd kind, s.task w = .io h fd kind → ∃ f, s.files h = some f ∧ f.fh = fd ∧
    w ∈ f.users ∧ f.asked.permits kind = true
  files : ∀ h f, s.files h = some f → f.opened.access = granted f.asked f.created
  tasks : ∀ w, (s.task w).Granted
  calls : ∀ c ∈ s.calls, c.Sound

section Step

variable {s s' : State} {rootdir : List UInt8}

theorem orderly_start : Orderly start where
  owned := owned_empty.congr fun o => by cases o <;> rfl
  users := fun w h fd kind hw => by cases hw
  files := fun h f hf => by cases hf
  tasks := fun w => trivial
  calls := fun c hc => by cases hc

theorem granted_setTask {w : Worker} {t : Task} (h : ∀ v, (s.task v).Granted)
    (ht : t.Granted) (v : Worker) : (Function.update s.task w t v).Granted := by
  by_cases hv : v = w
  · subst hv
    rwa [Function.update_self]
  · rw [Function.update_of_ne hv]
    exact h v

/-- Who uses a file does not matter for what it may do. -/
theorem granted_users {k j : Handle} {f g : File} {users : Finset Worker}
    (h : ∀ h f, s.files h = some f → f.opened.access = granted f.asked f.created)
    (hf : s.files k = some f)
    (hg : Function.update s.files k (some { f with users := users }) j = some g) :
    g.opened.access = granted g.asked g.created := by
  by_cases hj : j = k
  · subst hj
    rw [Function.update_self] at hg
    cases hg
    exact h j f hf
  · rw [Function.update_of_ne hj] at hg
    exact h j g hg

/-- A thread takes up a task that needs no descriptor, or gives such a task up. -/
theorem Orderly.setTask {w : Worker} {t : Task} (h : Orderly s)
    (hbefore : (s.task w).holds = none) (hafter : t.holds = none)
    (hio : ∀ h fd kind, t ≠ .io h fd kind) : Orderly (s.setTask w t) where
  owned := h.owned.congr fun o => by
    cases o with
    | file k => rfl
    | worker v =>
        by_cases hv : v = w
        · subst hv
          simp [State.holds, State.setTask, hafter, hbefore]
        · simp [State.holds, State.setTask, Function.update_of_ne hv]
  users := by
    intro v k fd kind hv
    by_cases hvw : v = w
    · subst hvw
      simp only [State.setTask, Function.update_self] at hv
      exact absurd hv (hio k fd kind)
    · simp only [State.setTask, Function.update_of_ne hvw] at hv
      exact h.users v k fd kind hv
  files := h.files
  tasks := granted_setTask h.tasks (by cases t <;> trivial)
  calls := h.calls

theorem Orderly.request {w : Worker} {path : List UInt8} {checked : Bool} {t : Task}
    (h : Orderly s) (ht : t.holds = none) (hio : ∀ h fd kind, t ≠ .io h fd kind)
    (hstep : s.request rootdir path w checked t = some s') : Orderly s' := by
  unfold State.request at hstep
  split at hstep
  · rename_i hidle
    split at hstep
    · cases hstep
      exact h
    · cases hstep
      exact h.setTask (by rw [hidle.1]; rfl) ht hio
  · cases hstep

/-- A call that opens something gives its thread a new descriptor. -/
theorem Orderly.opened {w : Worker} {fd : Fd} {access : Access} {t : Task} (h : Orderly s)
    (hfree : s.table fd = none) (hbefore : (s.task w).holds = none)
    (hafter : t.holds = some (fd, ⟨s.opens, access⟩)) (hgranted : t.Granted) :
    Orderly ((s.opened fd access).setTask w t) where
  owned := by
    have hidle : s.holds (.worker w) = none := hbefore
    apply h.owned.acquire hfree hidle
    · simpa [State.holds, State.setTask] using hafter
    · intro o ho
      cases o with
      | file k => rfl
      | worker v =>
          have hv : v ≠ w := fun hv => ho (by rw [hv])
          simp [State.holds, State.setTask, State.opened, Function.update_of_ne hv]
  users := by
    intro v k fd' kind hv
    by_cases hvw : v = w
    · subst hvw
      simp only [State.setTask, Function.update_self] at hv
      rw [hv] at hafter
      cases hafter
    · simp only [State.setTask, Function.update_of_ne hvw] at hv
      exact h.users v k fd' kind hv
  files := h.files
  tasks := granted_setTask h.tasks hgranted
  calls := h.calls

/-- A thread that holds a descriptor closes it. -/
theorem Orderly.closed {w : Worker} {fd : Fd} {d : Description} {created : Bool}
    (h : Orderly s) (hholds : (s.task w).holds = some (fd, d)) :
    Orderly ((s.closed fd d created).setTask w .idle) where
  owned := by
    have hold : s.holds (.worker w) = some (fd, d) := hholds
    apply h.owned.release hold
    · simp [State.holds, State.setTask, Task.holds]
    · intro o ho
      cases o with
      | file k => rfl
      | worker v =>
          have hv : v ≠ w := fun hv => ho (by rw [hv])
          simp [State.holds, State.setTask, State.closed, State.call, Function.update_of_ne hv]
  users := by
    intro v k fd' kind hv
    by_cases hvw : v = w
    · subst hvw
      simp only [State.setTask, Function.update_self] at hv
      cases hv
    · simp only [State.setTask, Function.update_of_ne hvw] at hv
      exact h.users v k fd' kind hv
  files := h.files
  tasks := granted_setTask h.tasks trivial
  calls := by
    intro c hc
    rcases List.mem_append.mp hc with hold | hnew
    · exact h.calls c hold
    · have hfound : s.table fd = some d := h.owned.live (.worker w) fd d hholds
      rw [List.mem_singleton.mp hnew, hfound]
      constructor
      · rfl
      · show badFd (some d) .close = true ↔ created = true ∧ Kind.close = .read
        rw [badFd]
        cases d.access <;> simp [Access.permits]

/-- A request on an open file; the file is in use until the request is answered. -/
theorem Orderly.io {w : Worker} {k : Handle} {f : File} {kind : Kind} (h : Orderly s)
    (hf : s.files k = some f) (hidle : s.task w = .idle) (hpermits : f.asked.permits kind) :
    Orderly
      { s.setTask w (.io k f.fh kind) with
        files := Function.update s.files k (some { f with users := insert w f.users }) } where
  owned := h.owned.congr fun o => by
    cases o with
    | file j =>
        by_cases hj : j = k
        · subst hj
          simp [State.holds, hf]
        · simp [State.holds, Function.update_of_ne hj]
    | worker v =>
        by_cases hv : v = w
        · subst hv
          simp [State.holds, State.setTask, Task.holds, hidle]
        · simp [State.holds, State.setTask, Function.update_of_ne hv]
  users := by
    intro v j fd kind' hv
    by_cases hvw : v = w
    · subst hvw
      simp only [State.setTask, Function.update_self] at hv
      cases hv
      exact ⟨_, Function.update_self .., rfl, Finset.mem_insert_self _ _, hpermits⟩
    · simp only [State.setTask, Function.update_of_ne hvw] at hv
      obtain ⟨g, hg, hfd, hmem, hkind⟩ := h.users v j fd kind' hv
      by_cases hj : j = k
      · subst hj
        obtain rfl := Option.some.inj (hf.symm.trans hg)
        exact ⟨_, Function.update_self .., hfd, Finset.mem_insert_of_mem hmem, hkind⟩
      · exact ⟨g, by simpa only [Function.update_of_ne hj] using hg, hfd, hmem, hkind⟩
  files := fun _ _ hg => granted_users h.files hf hg
  tasks := granted_setTask h.tasks trivial
  calls := h.calls

/-- The call of such a request, after which the thread is no user of the file. -/
theorem Orderly.call {w : Worker} {k : Handle} {fd : Fd} {kind : Kind} {f : File}
    (h : Orderly s) (htask : s.task w = .io k fd kind) (hf : s.files k = some f) :
    Orderly
      { (s.call kind fd f.opened f.created).setTask w .idle with
        files := Function.update s.files k (some { f with users := f.users.erase w }) } where
  owned := h.owned.congr fun o => by
    cases o with
    | file j =>
        by_cases hj : j = k
        · subst hj
          simp [State.holds, hf]
        · simp [State.holds, Function.update_of_ne hj]
    | worker v =>
        by_cases hv : v = w
        · subst hv
          simp [State.holds, State.setTask, Task.holds, htask]
        · simp [State.holds, State.setTask, State.call, Function.update_of_ne hv]
  users := by
    intro v j fd' kind' hv
    by_cases hvw : v = w
    · subst hvw
      simp only [State.setTask, Function.update_self] at hv
      cases hv
    · simp only [State.setTask, Function.update_of_ne hvw] at hv
      obtain ⟨g, hg, hfd, hmem, hkind⟩ := h.users v j fd' kind' hv
      by_cases hj : j = k
      · subst hj
        obtain rfl := Option.some.inj (hf.symm.trans hg)
        exact ⟨_, Function.update_self .., hfd, Finset.mem_erase.mpr ⟨hvw, hmem⟩, hkind⟩
      · exact ⟨g, by simpa only [Function.update_of_ne hj] using hg, hfd, hmem, hkind⟩
  files := fun _ _ hg => granted_users h.files hf hg
  tasks := granted_setTask h.tasks trivial
  calls := by
    intro c hc
    rcases List.mem_append.mp hc with hold | hnew
    · exact h.calls c hold
    · obtain ⟨g, hg, rfl, -, hpermits⟩ := h.users w k fd kind htask
      obtain rfl := Option.some.inj (hf.symm.trans hg)
      have hfound : s.table f.fh = some f.opened :=
        h.owned.live (.file k) f.fh f.opened (by simp [State.holds, hf])
      have hgranted := h.files k f hf
      rw [List.mem_singleton.mp hnew, hfound]
      constructor
      · rfl
      · show badFd (some f.opened) kind = true ↔ f.created = true ∧ kind = .read
        rw [badFd, hgranted]
        cases f.created with
        | true => cases kind <;> simp [granted, Access.permits]
        | false => simp [granted, hpermits]

/-- An open file is released: its descriptor goes to the thread that closes it. -/
theorem Orderly.release {w : Worker} {k : Handle} {f : File} (h : Orderly s)
    (hf : s.files k = some f) (hidle : s.task w = .idle) (hunused : f.users = ∅) :
    Orderly
      { s.setTask w (.close f.fh f.opened f.created) with
        files := Function.update s.files k none } where
  owned := by
    have hold : s.holds (.file k) = some (f.fh, f.opened) := by simp [State.holds, hf]
    have hnone : s.holds (.worker w) = none := by simp [State.holds, hidle, Task.holds]
    apply h.owned.transfer hold hnone
    · simp [State.holds]
    · simp [State.holds, State.setTask, Task.holds]
    · intro o hfile hworker
      cases o with
      | file j =>
          have hj : j ≠ k := fun hj => hfile (by rw [hj])
          simp [State.holds, Function.update_of_ne hj]
      | worker v =>
          have hv : v ≠ w := fun hv => hworker (by rw [hv])
          simp [State.holds, State.setTask, Function.update_of_ne hv]
  users := by
    intro v j fd kind hv
    by_cases hvw : v = w
    · subst hvw
      simp only [State.setTask, Function.update_self] at hv
      cases hv
    · simp only [State.setTask, Function.update_of_ne hvw] at hv
      obtain ⟨g, hg, hfd, hmem, hkind⟩ := h.users v j fd kind hv
      have hj : j ≠ k := by
        rintro rfl
        obtain rfl := Option.some.inj (hf.symm.trans hg)
        rw [hunused] at hmem
        exact absurd hmem (Finset.notMem_empty v)
      exact ⟨g, by simpa only [Function.update_of_ne hj] using hg, hfd, hmem, hkind⟩
  files := by
    intro j g hg
    by_cases hj : j = k
    · subst hj
      simp only [Function.update_self] at hg
      cases hg
    · simp only [Function.update_of_ne hj] at hg
      exact h.files j g hg
  tasks := granted_setTask h.tasks trivial
  calls := h.calls

/-- What a thread has opened becomes a file of the kernel. -/
theorem Orderly.reply {w : Worker} {k : Handle} {fd : Fd} {asked : Access} {d : Description}
    {created : Bool} (h : Orderly s) (htask : s.task w = .opened fd asked d created)
    (hfree : s.files k = none) :
    Orderly
      { s.setTask w .idle with
        files := Function.update s.files k (some ⟨fd, asked, d, created, ∅⟩) } where
  owned := by
    have hold : s.holds (.worker w) = some (fd, d) := by simp [State.holds, htask, Task.holds]
    have hnone : s.holds (.file k) = none := by simp [State.holds, hfree]
    apply h.owned.transfer hold hnone
    · simp [State.holds, State.setTask, Task.holds]
    · simp [State.holds]
    · intro o hworker hfile
      cases o with
      | file j =>
          have hj : j ≠ k := fun hj => hfile (by rw [hj])
          simp [State.holds, Function.update_of_ne hj]
      | worker v =>
          have hv : v ≠ w := fun hv => hworker (by rw [hv])
          simp [State.holds, State.setTask, Function.update_of_ne hv]
  users := by
    intro v j fd' kind hv
    by_cases hvw : v = w
    · subst hvw
      simp only [State.setTask, Function.update_self] at hv
      cases hv
    · simp only [State.setTask, Function.update_of_ne hvw] at hv
      obtain ⟨g, hg, hfd, hmem, hkind⟩ := h.users v j fd' kind hv
      have hj : j ≠ k := by
        rintro rfl
        rw [hfree] at hg
        cases hg
      exact ⟨g, by simpa only [Function.update_of_ne hj] using hg, hfd, hmem, hkind⟩
  files := by
    intro j g hg
    by_cases hj : j = k
    · subst hj
      simp only [Function.update_self] at hg
      cases hg
      have hgranted := h.tasks w
      rw [htask] at hgranted
      exact hgranted
    · simp only [Function.update_of_ne hj] at hg
      exact h.files j g hg
  tasks := granted_setTask h.tasks trivial
  calls := h.calls

theorem Orderly.step {l : Label} (h : Orderly s) (hstep : Handles.step rootdir s l = some s') :
    Orderly s' := by
  cases l with
  | «open» w path asked => exact h.request rfl (by simp) hstep
  | create w path asked => exact h.request rfl (by simp) hstep
  | readdir w path => exact h.request rfl (by simp) hstep
  | io w k kind =>
      simp only [Handles.step] at hstep
      split at hstep
      · cases hstep
      rename_i f hf
      split at hstep
      · rename_i hio
        cases hstep
        exact h.io hf hio.1 hio.2.2
      · cases hstep
  | release w k =>
      simp only [Handles.step] at hstep
      split at hstep
      · cases hstep
      rename_i f hf
      split at hstep
      · rename_i hrelease
        cases hstep
        exact h.release hf hrelease.1 hrelease.2
      · cases hstep
  | succeeds w fd =>
      simp only [Handles.step] at hstep
      split at hstep
      swap
      · cases hstep
      rename_i hfree
      split at hstep
      · rename_i asked htask
        cases hstep
        exact h.opened hfree (by rw [htask]; rfl) rfl rfl
      · rename_i asked htask
        cases hstep
        exact h.opened hfree (by rw [htask]; rfl) rfl rfl
      · rename_i htask
        cases hstep
        exact h.opened hfree (by rw [htask]; rfl) rfl trivial
      · cases hstep
  | fails w =>
      simp only [Handles.step] at hstep
      split at hstep
      · rename_i asked htask
        cases hstep
        exact h.setTask (by rw [htask]; rfl) rfl (by simp)
      · rename_i asked htask
        cases hstep
        exact h.setTask (by rw [htask]; rfl) rfl (by simp)
      · rename_i htask
        cases hstep
        exact h.setTask (by rw [htask]; rfl) rfl (by simp)
      · cases hstep
  | run w =>
      simp only [Handles.step] at hstep
      split at hstep
      · rename_i k fd kind htask
        obtain ⟨f, hf, rfl⟩ := Option.map_eq_some_iff.mp hstep
        exact h.call htask hf
      · rename_i fd d htask
        cases hstep
        exact h.closed (by rw [htask]; rfl)
      · rename_i fd d created htask
        cases hstep
        exact h.closed (by rw [htask]; rfl)
      · cases hstep
  | reply w k =>
      simp only [Handles.step] at hstep
      split at hstep
      · rename_i fd asked d created htask
        split at hstep
        · rename_i hfree
          cases hstep
          exact h.reply htask hfree
        · cases hstep
      · cases hstep

theorem orderly_of_run (h : Reachable (system rootdir) s) : Orderly s := by
  apply RunsUnder.invariant ?_ ?_ h
  · rintro s rfl
    exact orderly_start
  · intro s l s' hs _ hstep
    exact hs.step hstep

end Step

section

variable {rootdir : List UInt8} {s : State}

/-- However the requests interleave and whichever descriptors are used again: a call for an
open file acts on what its own `open` or `create` has opened, and fails with `EBADF` exactly
when it is a `read` of a file that was opened by `create`. -/
theorem calls_own (h : Reachable (system rootdir) s) :
    ∀ c ∈ s.calls, c.found = some c.opened ∧
      (c.badFd = true ↔ c.created = true ∧ c.kind = .read) :=
  fun c hc => ⟨((orderly_of_run h).calls c hc).found, ((orderly_of_run h).calls c hc).badFd⟩

/-- A file is created for reading and writing, read, and released; the next one gets the
same descriptor and is read as well. -/
def createAndRead : List Label :=
  [.create 0 [97] .readWrite, .succeeds 0 5, .reply 0 0, .io 1 0 .read, .run 1,
    .release 0 0, .run 0, .open 1 [98] .readOnly, .succeeds 1 5, .reply 1 0,
    .io 0 0 .read, .run 0]

theorem calls_own_createAndRead : ∃ s : State,
    s.calls.map (fun c => (c.kind, c.opened.id, c.badFd)) =
        [(.read, 0, true), (.close, 0, false), (.read, 1, false)] ∧
      ∀ c ∈ s.calls, c.found = some c.opened ∧
        (c.badFd = true ↔ c.created = true ∧ c.kind = .read) := by
  have hrun : (exec (system [slash]) start createAndRead).map
      (fun s => s.calls.map (fun c => (c.kind, c.opened.id, c.badFd))) =
        some [(.read, 0, true), (.close, 0, false), (.read, 1, false)] := by decide +kernel
  obtain ⟨s, hs, hcalls⟩ := Option.map_eq_some_iff.mp hrun
  exact ⟨s, hcalls, calls_own (Reachable.exec createAndRead (.start rfl) hs)⟩

/-- When no request is under way, the descriptors in use are those of the open files, each
of one of them: none is lost, and none is shared. -/
theorem descriptors_of_files (h : Reachable (system rootdir) s)
    (hidle : ∀ w, s.task w = .idle) :
    (∀ fd d, s.table fd = some d ↔
        ∃ k f, s.files k = some f ∧ f.fh = fd ∧ f.opened = d) ∧
      ∀ k k' f f', s.files k = some f → s.files k' = some f' → f.fh = f'.fh → k = k' := by
  have howned := (orderly_of_run h).owned
  have hholds : ∀ k f, s.files k = some f → s.holds (.file k) = some (f.fh, f.opened) := by
    intro k f hf
    simp [State.holds, hf]
  constructor
  · intro fd d
    constructor
    · intro hfd
      obtain ⟨o, ho⟩ := howned.covered fd d hfd
      cases o with
      | file k =>
          obtain ⟨f, hf, heq⟩ := Option.map_eq_some_iff.mp ho
          obtain ⟨hfh, hopened⟩ := Prod.mk.inj heq
          exact ⟨k, f, hf, hfh, hopened⟩
      | worker w =>
          simp only [State.holds, hidle w, Task.holds] at ho
          cases ho
    · rintro ⟨k, f, hf, rfl, rfl⟩
      exact howned.live (.file k) f.fh f.opened (hholds k f hf)
  · intro k k' f f' hf hf' hfh
    have hk' := hholds k' f' hf'
    rw [← hfh] at hk'
    have hsame := howned.unique (.file k) (.file k') f.fh f.opened f'.opened (hholds k f hf) hk'
    exact Owner.file.inj hsame

/-- One file is open. -/
theorem descriptors_of_files_oneOpen : ∃ s : State, s.table 5 = some ⟨0, .readOnly⟩ ∧
    (∀ fd d, s.table fd = some d ↔
        ∃ k f, s.files k = some f ∧ f.fh = fd ∧ f.opened = d) ∧
      ∀ k k' f f', s.files k = some f → s.files k' = some f' → f.fh = f'.fh → k = k' := by
  have hrun : ∃ s, exec (system [slash]) start
      [.open 0 [98] .readOnly, .succeeds 0 5, .reply 0 7] = some s ∧
        s.table 5 = some ⟨0, .readOnly⟩ ∧ ∀ w, s.task w = .idle := by
    exact ⟨_, rfl, rfl, fun w => by simp [State.setTask, State.opened, start]⟩
  obtain ⟨s, hs, htable, hidle⟩ := hrun
  exact ⟨s, htable, descriptors_of_files (Reachable.exec _ (.start rfl) hs) hidle⟩

end

end BpftimeBenchmark.Fuse.Handles
