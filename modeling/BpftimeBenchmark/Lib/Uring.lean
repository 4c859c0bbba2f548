import Mathlib.Data.List.Basic
import Mathlib.Data.List.Perm.Basic

/-!
A submission ring as io_uring documents it. Entries are queued by the program
and handed over together; the kernel takes handed-over entries in any order and
posts a completion for each; the program consumes completions one at a time.
An entry either executes at once or is in progress for a while. Identifiers are
not reused, so an entry can be followed through the ring.
-/

namespace BpftimeBenchmark.Uring

structure Slot (α : Type) where
  id : Nat
  val : α

/-- `α` is what is queued, `β` what is in progress, `γ` what is completed. -/
structure Ring (α β γ : Type) where
  queued : List (Slot α)
  submitted : List (Slot α)
  running : List (Slot β)
  completed : List (Slot γ)

namespace Ring

variable {α β γ : Type}

def empty : Ring α β γ := ⟨[], [], [], []⟩

def prepare (r : Ring α β γ) (e : Slot α) : Ring α β γ :=
  { r with queued := r.queued ++ [e] }

def submit (r : Ring α β γ) : Ring α β γ :=
  { r with queued := [], submitted := r.submitted ++ r.queued }

/-- The entry at `i` executes and completes. -/
def execute (r : Ring α β γ) (i : Nat) (c : Slot γ) : Ring α β γ :=
  { r with submitted := r.submitted.eraseIdx i, completed := r.completed ++ [c] }

/-- The entry at `i` starts to execute. -/
def begin (r : Ring α β γ) (i : Nat) (b : Slot β) : Ring α β γ :=
  { r with submitted := r.submitted.eraseIdx i, running := r.running ++ [b] }

/-- The operation in progress at `i` completes. -/
def finish (r : Ring α β γ) (i : Nat) (c : Slot γ) : Ring α β γ :=
  { r with running := r.running.eraseIdx i, completed := r.completed ++ [c] }

/-- Waits for a completion and consumes it. -/
def seen (r : Ring α β γ) : Option (Ring α β γ) :=
  match r.completed with
  | [] => none
  | _ :: rest => some { r with completed := rest }

/-- Entries handed over whose completion has not been consumed. -/
def outstanding (r : Ring α β γ) : Nat :=
  r.submitted.length + r.running.length + r.completed.length

/-- The entry `id` has been queued and has not completed. -/
def InFlight (r : Ring α β γ) (id : Nat) : Prop :=
  (∃ e ∈ r.queued, e.id = id) ∨ (∃ e ∈ r.submitted, e.id = id) ∨
    ∃ b ∈ r.running, b.id = id

variable {r t : Ring α β γ} {i id : Nat}

theorem seen_cases (h : r.seen = some t) :
    ∃ c, r.completed = c :: t.completed ∧ t.queued = r.queued ∧
      t.submitted = r.submitted ∧ t.running = r.running := by
  unfold seen at h
  split at h
  · cases h
  · rename_i c rest hcompleted
    cases h
    exact ⟨c, hcompleted, rfl, rfl, rfl⟩

@[simp] theorem outstanding_prepare (r : Ring α β γ) (e : Slot α) :
    (r.prepare e).outstanding = r.outstanding := rfl

theorem outstanding_submit (r : Ring α β γ) :
    r.submit.outstanding = r.outstanding + r.queued.length := by
  simp only [outstanding, submit, List.length_append]
  omega

theorem length_eraseIdx_of_getElem? {δ : Type} {l : List δ} {a : δ}
    (h : l[i]? = some a) : (l.eraseIdx i).length + 1 = l.length := by
  have hi := (List.getElem?_eq_some_iff.mp h).1
  rw [List.length_eraseIdx_of_lt hi]
  omega

theorem outstanding_execute {e : Slot α} (h : r.submitted[i]? = some e) (c : Slot γ) :
    (r.execute i c).outstanding = r.outstanding := by
  have hlen := length_eraseIdx_of_getElem? h
  simp only [outstanding, execute, List.length_append, List.length_singleton]
  omega

theorem outstanding_begin {e : Slot α} (h : r.submitted[i]? = some e) (b : Slot β) :
    (r.begin i b).outstanding = r.outstanding := by
  have hlen := length_eraseIdx_of_getElem? h
  simp only [outstanding, begin, List.length_append, List.length_singleton]
  omega

theorem outstanding_finish {b : Slot β} (h : r.running[i]? = some b) (c : Slot γ) :
    (r.finish i c).outstanding = r.outstanding := by
  have hlen := length_eraseIdx_of_getElem? h
  simp only [outstanding, finish, List.length_append, List.length_singleton]
  omega

theorem outstanding_seen (h : r.seen = some t) :
    r.outstanding = t.outstanding + 1 := by
  obtain ⟨c, hcompleted, -, hsubmitted, hrunning⟩ := seen_cases h
  simp only [outstanding, hcompleted, hsubmitted, hrunning, List.length_cons]
  omega

/-- Removing one element keeps all others. -/
theorem mem_eraseIdx_or_eq {δ : Type} {l : List δ} {a x : δ} (h : l[i]? = some a)
    (hx : x ∈ l) : x = a ∨ x ∈ l.eraseIdx i := by
  induction l generalizing i with
  | nil => cases hx
  | cons b rest ih =>
      cases i with
      | zero =>
          cases h
          exact List.mem_cons.mp hx
      | succ i =>
          rcases List.mem_cons.mp hx with rfl | hrest
          · exact Or.inr (List.mem_cons_self)
          · rcases ih h hrest with heq | hmem
            · exact Or.inl heq
            · exact Or.inr (List.mem_cons_of_mem _ hmem)

/-- Taking an element out of a list whose earlier elements contribute nothing. -/
theorem flatMap_eraseIdx {α β : Type} {f : α → List β} {l : List α} {i : Nat} {a : α}
    (h : l[i]? = some a) (hbefore : ∀ x ∈ l.take i, f x = []) :
    l.flatMap f = f a ++ (l.eraseIdx i).flatMap f := by
  induction l generalizing i with
  | nil => cases h
  | cons b rest ih =>
      cases i with
      | zero =>
          cases h
          rfl
      | succ i =>
          have hb : f b = [] := hbefore b (by simp)
          have hrest := ih h (fun x hx => hbefore x (by simp [hx]))
          simp only [List.flatMap_cons, List.eraseIdx_cons_succ, hb, hrest,
            List.nil_append]

/-- An element that contributes nothing can go from anywhere. -/
theorem flatMap_eraseIdx_nil {α β : Type} {f : α → List β} {l : List α} {i : Nat} {a : α}
    (h : l[i]? = some a) (ha : f a = []) :
    l.flatMap f = (l.eraseIdx i).flatMap f := by
  induction l generalizing i with
  | nil => cases h
  | cons b rest ih =>
      cases i with
      | zero =>
          cases h
          simp [ha]
      | succ i =>
          simp only [List.flatMap_cons, List.eraseIdx_cons_succ, ih h]

theorem inFlight_prepare {e : Slot α} :
    (r.prepare e).InFlight id ↔ r.InFlight id ∨ e.id = id := by
  simp only [InFlight, prepare, List.mem_append, List.mem_singleton]
  grind

theorem inFlight_submit : r.submit.InFlight id ↔ r.InFlight id := by
  simp only [InFlight, submit, List.mem_append]
  grind

theorem inFlight_seen (h : r.seen = some t) : t.InFlight id ↔ r.InFlight id := by
  obtain ⟨c, -, hqueued, hsubmitted, hrunning⟩ := seen_cases h
  simp only [InFlight, hqueued, hsubmitted, hrunning]

/-- The other entries stay in flight when one executes. -/
theorem inFlight_execute {e : Slot α} (h : r.submitted[i]? = some e) (c : Slot γ)
    (hid : r.InFlight id) : e.id = id ∨ (r.execute i c).InFlight id := by
  rcases hid with hqueued | ⟨x, hx, hxid⟩ | hrunning
  · exact Or.inr (Or.inl hqueued)
  · rcases mem_eraseIdx_or_eq h hx with rfl | hmem
    · exact Or.inl hxid
    · exact Or.inr (Or.inr (Or.inl ⟨x, hmem, hxid⟩))
  · exact Or.inr (Or.inr (Or.inr hrunning))

theorem inFlight_begin {e : Slot α} (h : r.submitted[i]? = some e) {b : Slot β}
    (hb : b.id = e.id) (hid : r.InFlight id) : (r.begin i b).InFlight id := by
  rcases hid with hqueued | ⟨x, hx, hxid⟩ | ⟨x, hx, hxid⟩
  · exact Or.inl hqueued
  · rcases mem_eraseIdx_or_eq h hx with rfl | hmem
    · exact Or.inr (Or.inr ⟨b, List.mem_append_right _ (List.mem_singleton.mpr rfl),
        hb.trans hxid⟩)
    · exact Or.inr (Or.inl ⟨x, hmem, hxid⟩)
  · exact Or.inr (Or.inr ⟨x, List.mem_append_left _ hx, hxid⟩)

theorem inFlight_finish {b : Slot β} (h : r.running[i]? = some b) (c : Slot γ)
    (hid : r.InFlight id) : b.id = id ∨ (r.finish i c).InFlight id := by
  rcases hid with hqueued | hsubmitted | ⟨x, hx, hxid⟩
  · exact Or.inr (Or.inl hqueued)
  · exact Or.inr (Or.inr (Or.inl hsubmitted))
  · rcases mem_eraseIdx_or_eq h hx with rfl | hmem
    · exact Or.inl hxid
    · exact Or.inr (Or.inr (Or.inr ⟨x, hmem, hxid⟩))

theorem submitted_of_quiet (hquiet : r.outstanding = 0) : r.submitted = [] := by
  apply List.eq_nil_of_length_eq_zero
  simp only [outstanding] at hquiet
  omega

/-- With nothing queued and nothing outstanding, every entry has completed. -/
theorem not_inFlight_of_quiet (hqueued : r.queued = []) (hquiet : r.outstanding = 0) :
    ¬ r.InFlight id := by
  have hrunning : r.running = [] := by
    apply List.eq_nil_of_length_eq_zero
    simp only [outstanding] at hquiet
    omega
  simp [InFlight, hqueued, submitted_of_quiet hquiet, hrunning]

/-- The entries in flight, each by its identifier. -/
def ids (r : Ring α β γ) : List Nat :=
  r.queued.map (·.id) ++ r.submitted.map (·.id) ++ r.running.map (·.id)

theorem mem_ids : id ∈ r.ids ↔ r.InFlight id := by
  simp only [ids, InFlight, List.mem_append, List.mem_map, or_assoc]

theorem map_perm_eraseIdx {δ ε : Type} (f : δ → ε) {l : List δ} {a : δ}
    (h : l[i]? = some a) : (l.map f).Perm (f a :: (l.eraseIdx i).map f) := by
  obtain ⟨hi, rfl⟩ := List.getElem?_eq_some_iff.mp h
  exact ((List.getElem_cons_eraseIdx_perm hi).map f).symm

theorem ids_prepare (r : Ring α β γ) (e : Slot α) :
    (r.prepare e).ids.Perm (e.id :: r.ids) := by
  simp only [ids, prepare, List.map_append, List.map_cons, List.map_nil, List.append_assoc,
    List.singleton_append]
  exact List.perm_middle

theorem ids_submit (r : Ring α β γ) : r.submit.ids.Perm r.ids := by
  simp only [ids, submit, List.map_append, List.map_nil, List.nil_append]
  exact List.perm_append_comm.append_right _

theorem ids_seen (h : r.seen = some t) : t.ids = r.ids := by
  obtain ⟨c, -, hqueued, hsubmitted, hrunning⟩ := seen_cases h
  simp only [ids, hqueued, hsubmitted, hrunning]

/-- Taking the submitted entry at `i` away takes its identifier away once. -/
theorem ids_perm_taken {e : Slot α} (h : r.submitted[i]? = some e) :
    r.ids.Perm (e.id :: (r.queued.map (·.id) ++ (r.submitted.eraseIdx i).map (·.id) ++
      r.running.map (·.id))) := by
  have hout := (map_perm_eraseIdx (fun x : Slot α => x.id) h).append_left
    (r.queued.map (·.id))
  exact (hout.trans List.perm_middle).append_right _

theorem ids_execute {e : Slot α} (h : r.submitted[i]? = some e) (c : Slot γ) :
    r.ids.Perm (e.id :: (r.execute i c).ids) :=
  ids_perm_taken h

theorem ids_begin {e : Slot α} (h : r.submitted[i]? = some e) {b : Slot β}
    (hb : b.id = e.id) : (r.begin i b).ids.Perm r.ids := by
  refine List.Perm.trans ?_ (ids_perm_taken h).symm
  rw [← hb]
  simp only [ids, begin, List.map_append, List.map_cons, List.map_nil, ← List.append_assoc]
  exact List.perm_append_singleton _ _

theorem ids_finish {b : Slot β} (h : r.running[i]? = some b) (c : Slot γ) :
    r.ids.Perm (b.id :: (r.finish i c).ids) := by
  have hout := (map_perm_eraseIdx (fun x : Slot β => x.id) h).append_left
    (r.queued.map (·.id) ++ r.submitted.map (·.id))
  exact hout.trans List.perm_middle

end Ring

/-- The two numbers that decide whether a helper call can go through. -/
structure Tally where
  queued : Nat
  outstanding : Nat
  deriving DecidableEq

inductive Command where
  | prepare
  | submit
  | wait
  deriving DecidableEq

/-- Disciplined use of a ring with `slots` entries: nothing is queued while a
completion is owed, the queue does not overflow, and a wait has something to
wait for. -/
def Tally.apply (slots : Nat) (n : Tally) : Command → Option Tally
  | .prepare =>
      if n.outstanding = 0 ∧ n.queued < slots then some ⟨n.queued + 1, 0⟩ else none
  | .submit => some ⟨0, n.outstanding + n.queued⟩
  | .wait => if 0 < n.outstanding then some ⟨n.queued, n.outstanding - 1⟩ else none

theorem Tally.apply_prepare {slots : Nat} {n m : Tally}
    (h : n.apply slots .prepare = some m) :
    n.outstanding = 0 ∧ n.queued < slots ∧ m = ⟨n.queued + 1, 0⟩ := by
  simp only [apply] at h
  split at h
  · rename_i hidle
    cases h
    exact ⟨hidle.1, hidle.2, rfl⟩
  · cases h

theorem Tally.apply_wait {slots : Nat} {n m : Tally} (h : n.apply slots .wait = some m) :
    0 < n.outstanding ∧ m = ⟨n.queued, n.outstanding - 1⟩ := by
  simp only [apply] at h
  split at h
  · rename_i howed
    cases h
    exact ⟨howed, rfl⟩
  · cases h

/-- The tally after a list of commands, if all of them are disciplined. -/
def Tally.run (slots : Nat) : Tally → List Command → Option Tally
  | n, [] => some n
  | n, c :: rest => (n.apply slots c).bind (Tally.run slots · rest)

/-- Each wait of a disciplined list consumes one of the completions owed. -/
theorem Tally.run_waits {slots k : Nat} {n m : Tally}
    (h : n.run slots (List.replicate k .wait) = some m) :
    n.outstanding = m.outstanding + k := by
  induction k generalizing n with
  | zero =>
      cases h
      rfl
  | succ k ih =>
      obtain ⟨n', happly, hrest⟩ := Option.bind_eq_some_iff.mp h
      obtain ⟨howed, rfl⟩ := Tally.apply_wait happly
      have hfewer : n.outstanding - 1 = m.outstanding + k := ih hrest
      omega

namespace Ring

variable {α β γ : Type} {r t : Ring α β γ} {slots i : Nat} {n : Tally}

def tally (r : Ring α β γ) : Tally := ⟨r.queued.length, r.outstanding⟩

/-- The tally follows the ring through every helper call. -/
theorem tally_prepare (e : Slot α) (h : r.tally.apply slots .prepare = some n) :
    (r.prepare e).tally = n := by
  simp only [Tally.apply] at h
  split at h
  · rename_i hidle
    cases h
    rw [tally, outstanding_prepare, show r.outstanding = 0 from hidle.1]
    simp [tally, prepare]
  · cases h

theorem tally_submit (h : r.tally.apply slots .submit = some n) :
    r.submit.tally = n := by
  cases h
  rw [tally, outstanding_submit]
  rfl

theorem tally_seen (hseen : r.seen = some t)
    (h : r.tally.apply slots .wait = some n) : t.tally = n := by
  have hout := outstanding_seen hseen
  obtain ⟨c, -, hqueued, -, -⟩ := seen_cases hseen
  simp only [Tally.apply] at h
  split at h
  · cases h
    simp only [tally, hqueued, hout]
    rfl
  · cases h

/-- What the kernel does on its own leaves the tally alone. -/
theorem tally_execute {e : Slot α} (h : r.submitted[i]? = some e) (c : Slot γ) :
    (r.execute i c).tally = r.tally := by
  rw [tally, outstanding_execute h]
  rfl

theorem tally_begin {e : Slot α} (h : r.submitted[i]? = some e) (b : Slot β) :
    (r.begin i b).tally = r.tally := by
  rw [tally, outstanding_begin h]
  rfl

theorem tally_finish {b : Slot β} (h : r.running[i]? = some b) (c : Slot γ) :
    (r.finish i c).tally = r.tally := by
  rw [tally, outstanding_finish h]
  rfl

end Ring

end BpftimeBenchmark.Uring
