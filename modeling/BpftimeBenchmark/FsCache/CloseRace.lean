import BpftimeBenchmark.FsCache.Descriptors

/-!
`open`, `openat` and `close` on several threads. `close` drops the mapping in
its enter handler, before the kernel releases the descriptor; `open` records it
in its exit handler, after the kernel has handed it out. A mapping outlives its
descriptor exactly when these two windows overlap for one descriptor.
-/

namespace BpftimeBenchmark.FsCache

open Transition

/-- Only `open`, `openat` and `close` are called. -/
def OpensAndCloses (_ : World FdTables) : Label → Prop
  | .enter _ call => call.opensOrCloses = true
  | _ => True

instance (w : World FdTables) : (l : Label) → Decidable (OpensAndCloses w l)
  | .enter _ call => inferInstanceAs (Decidable (call.opensOrCloses = true))
  | .kernel _ _ _ | .leave _ _ _ | .store _ _ _ => inferInstanceAs (Decidable True)

/-- Some thread of the process has been given `fd` by `open` or `openat`, and
its exit handler has not run yet. -/
def OpenPending (w : World FdTables) (pid : U32) (fd : CInt) : Prop :=
  ∃ id call, tgid id = pid ∧ call.opens = true ∧ w.phase id = .returned call fd

/-- Some thread of the process is inside `close(fd)`, between its enter handler
and the kernel. -/
def ClosePending (w : World FdTables) (pid : U32) (fd : CInt) : Prop :=
  ∃ id, tgid id = pid ∧ w.phase id = .entered (.close fd)

/-- No `close` enters while its descriptor awaits the exit handler of the open
that returned it, and no open returns a descriptor that a `close` is about to
release. -/
def WindowsApart (w : World FdTables) : Label → Prop
  | .enter task (.close fd) => ¬ OpenPending w task.pid fd
  | .kernel task call resp =>
      call.opens = true → ¬ ClosePending w task.pid resp.ret
  | _ => True

/-- Every recorded descriptor is open. -/
def RecordedOpen (w : World FdTables) : Prop :=
  ∀ pid fd data, w.maps.pathOf pid fd = some data → (pid, fd) ∈ w.kernel.files

def Phase.call : Phase → Option Syscall
  | .idle => none
  | .entered call => some call
  | .returned call _ => some call

structure CloseInv (w : World FdTables) : Prop where
  recorded : ∀ pid fd data, w.maps.pathOf pid fd = some data →
    (pid, fd) ∈ w.kernel.files ∧ fd.msb = false
  calls : ∀ id call, (w.phase id).call = some call → call.opensOrCloses = true
  opened : ∀ pid fd, OpenPending w pid fd → fd.msb = false →
    (pid, fd) ∈ w.kernel.files
  closing : ∀ pid fd, ClosePending w pid fd → fd.msb = false →
    w.maps.pathOf pid fd = none ∧ ¬ OpenPending w pid fd

variable {realpath : List UInt8 → CharArray nameMax} {w t : World FdTables}

theorem closeInv_attached (h : Attached w) : CloseInv w := by
  constructor
  · intro pid fd data hpath
    simp [Maps.pathOf, h.dirFdMap] at hpath
  · intro id call hphase
    simp [h.phase, Phase.call] at hphase
  · rintro pid fd ⟨id, call, -, -, hphase⟩
    simp [h.phase] at hphase
  · rintro pid fd ⟨id, -, hphase⟩
    simp [h.phase] at hphase

/-- A thread that is not at the exit of an open contributes nothing to
`OpenPending`. -/
theorem openPending_of_update {pid : U32} {fd : CInt} {id : U64} {p : Phase}
    (hphase : t.phase = Function.update w.phase id p)
    (hp : ∀ call, call.opens = true → p ≠ .returned call fd)
    (h : OpenPending t pid fd) : OpenPending w pid fd := by
  obtain ⟨id', call, hpid, hopens, hreturned⟩ := h
  by_cases hid : id' = id
  · subst hid
    rw [hphase, Function.update_self] at hreturned
    exact absurd hreturned (hp call hopens)
  · rw [hphase, Function.update_of_ne hid] at hreturned
    exact ⟨id', call, hpid, hopens, hreturned⟩

theorem closePending_of_update {pid : U32} {fd : CInt} {id : U64} {p : Phase}
    (hphase : t.phase = Function.update w.phase id p)
    (hp : p ≠ .entered (.close fd))
    (h : ClosePending t pid fd) : ClosePending w pid fd := by
  obtain ⟨id', hpid, hentered⟩ := h
  by_cases hid : id' = id
  · subst hid
    rw [hphase, Function.update_self] at hentered
    exact absurd hentered hp
  · rw [hphase, Function.update_of_ne hid] at hentered
    exact ⟨id', hpid, hentered⟩

theorem calls_of_update {id : U64} {p : Phase}
    (hphase : t.phase = Function.update w.phase id p)
    (hp : ∀ call, p.call = some call → call.opensOrCloses = true)
    (h : ∀ id call, (w.phase id).call = some call → call.opensOrCloses = true) :
    ∀ id call, (t.phase id).call = some call → call.opensOrCloses = true := by
  intro id' call hcall
  by_cases hid : id' = id
  · subst hid
    rw [hphase, Function.update_self] at hcall
    exact hp call hcall
  · rw [hphase, Function.update_of_ne hid] at hcall
    exact h id' call hcall

/-- A step that adds no mapping, keeps the tables and starts neither window
keeps the invariant. -/
theorem closeInv_of_quiet (hi : CloseInv w)
    (hpath : ∀ pid fd, t.maps.pathOf pid fd = w.maps.pathOf pid fd)
    (hfiles : t.kernel.files = w.kernel.files)
    (hcalls : ∀ id call, (t.phase id).call = some call → call.opensOrCloses = true)
    (hopen : ∀ pid fd, OpenPending t pid fd → fd.msb = false → OpenPending w pid fd)
    (hclose : ∀ pid fd, ClosePending t pid fd → ClosePending w pid fd) :
    CloseInv t := by
  constructor
  · intro pid fd data hdata
    rw [hpath] at hdata
    rw [hfiles]
    exact hi.recorded pid fd data hdata
  · exact hcalls
  · intro pid fd hpending hsign
    rw [hfiles]
    exact hi.opened pid fd (hopen pid fd hpending hsign) hsign
  · intro pid fd hpending hsign
    obtain ⟨hnone, hno⟩ := hi.closing pid fd (hclose pid fd hpending) hsign
    rw [hpath]
    exact ⟨hnone, fun h => hno (hopen pid fd h hsign)⟩

theorem closeInv_enter_opens {task : Task} {call : Syscall} (hi : CloseInv w)
    (hopens : call.opens = true) (hcall : call.opensOrCloses = true) :
    CloseInv (w.enter task call) := by
  have hpath : ∀ pid fd,
      (w.enter task call).maps.pathOf pid fd = w.maps.pathOf pid fd := by
    intro pid fd
    rw [enter_maps, pathOf_enterHandler_opens hopens]
  have hfiles : (w.enter task call).kernel.files = w.kernel.files := by
    rw [enter_kernel]
  rcases enter_cases w task call with ⟨ret, -, hphase, -⟩ | ⟨-, hphase, -⟩
  · apply closeInv_of_quiet hi hpath hfiles
    · rw [hphase]
      exact hi.calls
    · intro pid fd h _
      simpa only [OpenPending, hphase] using h
    · intro pid fd h
      simpa only [ClosePending, hphase] using h
  · apply closeInv_of_quiet hi hpath hfiles
    · refine calls_of_update hphase ?_ hi.calls
      intro call' h
      cases h
      exact hcall
    · intro pid fd h _
      exact openPending_of_update hphase (by intro _ _ h; cases h) h
    · intro pid fd h
      refine closePending_of_update hphase ?_ h
      rintro ⟨rfl⟩
      cases hopens

theorem closeInv_enter_close {task : Task} {fd : CInt} (hi : CloseInv w)
    (hapart : ¬ OpenPending w task.pid fd) :
    CloseInv (w.enter task (.close fd)) := by
  have hphase : (w.enter task (.close fd)).phase =
      Function.update w.phase task.pidTgid (.entered (.close fd)) := rfl
  have hmaps : (w.enter task (.close fd)).maps = clearDirDataFd task fd w.maps := rfl
  have hopen : ∀ pid fd', OpenPending (w.enter task (.close fd)) pid fd' →
      OpenPending w pid fd' := by
    intro pid fd' h
    exact openPending_of_update hphase (by intro _ _ h; cases h) h
  constructor
  · intro pid fd' data hdata
    rw [hmaps] at hdata
    exact hi.recorded pid fd' data (pathOf_of_clearDirDataFd hdata)
  · refine calls_of_update hphase ?_ hi.calls
    intro call h
    cases h
    rfl
  · intro pid fd' hpending hsign
    exact hi.opened pid fd' (hopen pid fd' hpending) hsign
  · rintro pid fd' ⟨id, hpid, hentered⟩ hsign
    by_cases hid : id = task.pidTgid
    · subst hid
      rw [hphase, Function.update_self] at hentered
      cases hentered
      obtain rfl : task.pid = pid := hpid
      rw [hmaps]
      exact ⟨pathOf_clearDirDataFd_self task w.maps hsign,
        fun h => hapart (hopen _ _ h)⟩
    · rw [hphase, Function.update_of_ne hid] at hentered
      obtain ⟨hnone, hno⟩ := hi.closing pid fd' ⟨id, hpid, hentered⟩ hsign
      refine ⟨?_, fun h => hno (hopen _ _ h)⟩
      rw [hmaps]
      cases hdata : (clearDirDataFd task fd w.maps).pathOf pid fd' with
      | none => rfl
      | some data =>
          rw [pathOf_of_clearDirDataFd hdata] at hnone
          cases hnone

theorem closeInv_serve_opens {task : Task} {call : Syscall} {resp : Response}
    {k : FdTables} (hi : CloseInv w) (hopens : call.opens = true)
    (hentered : w.phase task.pidTgid = .entered call)
    (hexec : fdExec w.kernel task call resp = some k)
    (hapart : ¬ ClosePending w task.pid resp.ret) :
    CloseInv (w.serve task call resp k) := by
  have hphase : (w.serve task call resp k).phase =
      Function.update w.phase task.pidTgid (.returned call resp.ret) := rfl
  have hclose : ∀ pid fd, ClosePending (w.serve task call resp k) pid fd →
      ClosePending w pid fd := by
    intro pid fd h
    exact closePending_of_update hphase (by intro h; cases h) h
  have hcalls : ∀ id call', ((w.serve task call resp k).phase id).call = some call' →
      call'.opensOrCloses = true := by
    refine calls_of_update hphase ?_ hi.calls
    intro call' h
    cases h
    exact hi.calls task.pidTgid call (by rw [hentered]; rfl)
  -- A pending descriptor is an old one, or the one the kernel returns now.
  have hopen : ∀ pid fd, OpenPending (w.serve task call resp k) pid fd →
      OpenPending w pid fd ∨ (pid = task.pid ∧ fd = resp.ret) := by
    rintro pid fd ⟨id, call', hpid, hopens', hreturned⟩
    by_cases hid : id = task.pidTgid
    · subst hid
      rw [hphase, Function.update_self] at hreturned
      cases hreturned
      exact Or.inr ⟨hpid.symm, rfl⟩
    · rw [hphase, Function.update_of_ne hid] at hreturned
      exact Or.inl ⟨id, call', hpid, hopens', hreturned⟩
  obtain ⟨name, hname⟩ := Option.isSome_iff_exists.mp hopens
  have hinstall := (exec_name hname).symm.trans hexec
  rcases install_cases hinstall with ⟨hneg, rfl⟩ | ⟨hnonneg, hfresh, rfl⟩
  · refine closeInv_of_quiet hi (fun _ _ => rfl) rfl hcalls ?_ hclose
    intro pid fd h hsign
    rcases hopen pid fd h with hold | ⟨-, rfl⟩
    · exact hold
    · exact absurd hneg (msb_false_iff.mp hsign)
  · constructor
    · intro pid fd data hdata
      obtain ⟨hmem, hsign⟩ := hi.recorded pid fd data hdata
      exact ⟨Finmap.mem_insert.mpr (Or.inr hmem), hsign⟩
    · exact hcalls
    · intro pid fd h hsign
      apply Finmap.mem_insert.mpr
      rcases hopen pid fd h with hold | ⟨rfl, rfl⟩
      · exact Or.inr (hi.opened pid fd hold hsign)
      · exact Or.inl rfl
    · intro pid fd h hsign
      have hold := hclose pid fd h
      obtain ⟨hnone, hno⟩ := hi.closing pid fd hold hsign
      refine ⟨hnone, ?_⟩
      intro hpending
      rcases hopen pid fd hpending with hpending | ⟨rfl, rfl⟩
      · exact hno hpending
      · exact hapart hold

theorem closeInv_serve_close {task : Task} {fd : CInt} {resp : Response}
    {k : FdTables} (hi : CloseInv w)
    (hentered : w.phase task.pidTgid = .entered (.close fd))
    (hexec : fdExec w.kernel task (.close fd) resp = some k) :
    CloseInv (w.serve task (.close fd) resp k) := by
  have hphase : (w.serve task (.close fd) resp k).phase =
      Function.update w.phase task.pidTgid (.returned (.close fd) resp.ret) := rfl
  have hclosing : ClosePending w task.pid fd := ⟨task.pidTgid, rfl, hentered⟩
  have hopen : ∀ pid fd', OpenPending (w.serve task (.close fd) resp k) pid fd' →
      OpenPending w pid fd' := by
    intro pid fd' h
    refine openPending_of_update hphase ?_ h
    intro call hopens heq
    cases heq
    cases hopens
  obtain ⟨hfiles, -⟩ := exec_close hexec
  have hkept : ∀ pid fd', (pid, fd') ∈ w.kernel.files →
      ¬ (pid = task.pid ∧ fd' = fd) → (pid, fd') ∈ k.files := by
    intro pid fd' hmem hne
    rw [hfiles]
    refine Finmap.mem_erase.mpr ⟨?_, hmem⟩
    intro heq
    exact hne ⟨congrArg Prod.fst heq, congrArg Prod.snd heq⟩
  constructor
  · intro pid fd' data hdata
    obtain ⟨hmem, hsign⟩ := hi.recorded pid fd' data hdata
    refine ⟨hkept pid fd' hmem ?_, hsign⟩
    rintro ⟨rfl, rfl⟩
    have hnone := (hi.closing task.pid fd' hclosing hsign).1
    rw [serve_maps, hnone] at hdata
    cases hdata
  · refine calls_of_update hphase ?_ hi.calls
    intro call h
    cases h
    rfl
  · intro pid fd' h hsign
    apply hkept pid fd' (hi.opened pid fd' (hopen pid fd' h) hsign)
    rintro ⟨rfl, rfl⟩
    exact (hi.closing task.pid fd' hclosing hsign).2 (hopen task.pid fd' h)
  · intro pid fd' h hsign
    have hold : ClosePending w pid fd' :=
      closePending_of_update hphase (by intro h; cases h) h
    obtain ⟨hnone, hno⟩ := hi.closing pid fd' hold hsign
    exact ⟨hnone, fun hpending => hno (hopen pid fd' hpending)⟩

theorem closeInv_leave_opens {task : Task} {call : Syscall} {ret : CInt}
    (hi : CloseInv w) (hopens : call.opens = true)
    (hreturned : w.phase task.pidTgid = .returned call ret) :
    CloseInv (w.leave (fdKernel realpath) task call ret) := by
  have hphase : (w.leave (fdKernel realpath) task call ret).phase =
      Function.update w.phase task.pidTgid .idle := rfl
  have hpending : OpenPending w task.pid ret :=
    ⟨task.pidTgid, call, rfl, hopens, hreturned⟩
  have hopen : ∀ pid fd, OpenPending (w.leave (fdKernel realpath) task call ret) pid fd →
      OpenPending w pid fd := by
    intro pid fd h
    exact openPending_of_update hphase (by intro _ _ h; cases h) h
  have hpath : ∀ pid fd data,
      (w.leave (fdKernel realpath) task call ret).maps.pathOf pid fd = some data →
      w.maps.pathOf pid fd = some data ∨
        (pid = task.pid ∧ fd = ret ∧ ¬ ret.toInt < 0) := by
    intro pid fd data hdata
    simp only [World.leave, exitHandler_opens hopens] at hdata
    exact pathOf_traceExit hdata
  constructor
  · intro pid fd data hdata
    rcases hpath pid fd data hdata with hold | ⟨rfl, rfl, hnonneg⟩
    · exact hi.recorded pid fd data hold
    · have hsign : fd.msb = false := msb_false_iff.mpr hnonneg
      exact ⟨hi.opened task.pid fd hpending hsign, hsign⟩
  · refine calls_of_update hphase ?_ hi.calls
    intro call' h
    cases h
  · intro pid fd h hsign
    exact hi.opened pid fd (hopen pid fd h) hsign
  · intro pid fd h hsign
    have hold : ClosePending w pid fd :=
      closePending_of_update hphase (by intro h; cases h) h
    obtain ⟨hnone, hno⟩ := hi.closing pid fd hold hsign
    refine ⟨?_, fun h => hno (hopen pid fd h)⟩
    cases hdata : (w.leave (fdKernel realpath) task call ret).maps.pathOf pid fd with
    | none => rfl
    | some data =>
        rcases hpath pid fd data hdata with hprior | ⟨rfl, rfl, -⟩
        · rw [hprior] at hnone
          cases hnone
        · exact absurd hpending hno

theorem closeInv_leave_close {task : Task} {fd ret : CInt} (hi : CloseInv w) :
    CloseInv (w.leave (fdKernel realpath) task (.close fd) ret) := by
  have hphase : (w.leave (fdKernel realpath) task (.close fd) ret).phase =
      Function.update w.phase task.pidTgid .idle := rfl
  refine closeInv_of_quiet hi (fun _ _ => rfl) rfl ?_ ?_ ?_
  · refine calls_of_update hphase ?_ hi.calls
    intro call h
    cases h
  · intro pid fd' h _
    exact openPending_of_update hphase (by intro _ _ h; cases h) h
  · intro pid fd' h
    exact closePending_of_update hphase (by intro h; cases h) h

theorem closeInv_step {l : Label} (hi : CloseInv w)
    (hok : OpensAndCloses w l ∧ WindowsApart w l)
    (hstep : step (fdKernel realpath) w l = some t) : CloseInv t := by
  obtain ⟨hcalls, hapart⟩ := hok
  cases stepResult_of_step hstep with
  | @enter task call hidle =>
      rcases opens_or_close hcalls with hopens | ⟨fd, rfl⟩
      · exact closeInv_enter_opens hi hopens hcalls
      · exact closeInv_enter_close hi hapart
  | @kernel task call resp k hentered hexec =>
      have hcall : call.opensOrCloses = true :=
        hi.calls task.pidTgid call (by rw [hentered]; rfl)
      rcases opens_or_close hcall with hopens | ⟨fd, rfl⟩
      · exact closeInv_serve_opens hi hopens hentered hexec (hapart hopens)
      · exact closeInv_serve_close hi hentered hexec
  | @leave task call ret hreturned =>
      have hcall : call.opensOrCloses = true :=
        hi.calls task.pidTgid call (by rw [hreturned]; rfl)
      rcases opens_or_close hcall with hopens | ⟨fd, rfl⟩
      · exact closeInv_leave_opens hi hopens hreturned
      · exact closeInv_leave_close hi
  | store =>
      exact closeInv_of_quiet hi (fun _ _ => rfl) rfl hi.calls
        (fun _ _ h _ => h) (fun _ _ h => h)

/-- While the windows of `open` and `close` stay apart, every recorded
descriptor is open, in particular whenever no syscall is in flight. -/
theorem recorded_open_of_windowsApart
    (h : RunsUnder (system (fdKernel realpath) Attached)
      (fun w l => OpensAndCloses w l ∧ WindowsApart w l) w) : RecordedOpen w := by
  have hi : CloseInv w := h.invariant (fun _ hstart => closeInv_attached hstart)
    (fun _ _ _ hi hok hstep => closeInv_step hi hok hstep)
  intro pid fd data hdata
  exact (hi.recorded pid fd data hdata).1

def openTmp : Syscall := .openPath [116, 109, 112] 0

/-- The kernel returns 3 to one thread; another one closes 3 before the exit
handler of the first has run. -/
def lateExit : List Label :=
  [.enter firstThread openTmp, .kernel firstThread openTmp ⟨3, []⟩,
    .enter secondThread (.close 3), .kernel secondThread (.close 3) ⟨0, []⟩,
    .leave secondThread (.close 3) 0, .leave firstThread openTmp 3]

theorem late_exit_records_closed :
    ∃ w, RunsUnder (system (fdKernel plainPath) Attached) OpensAndCloses w ∧
      (∀ id, w.phase id = .idle) ∧ ¬ RecordedOpen w := by
  have hrun : (exec (system (fdKernel plainPath) Attached) (loadedWorld ∅) lateExit).map
      (fun w => (w.phase firstThread.pidTgid, w.phase secondThread.pidTgid,
        (w.maps.pathOf 1 3).isSome, decide ((1, 3) ∈ w.kernel.files))) =
      some (.idle, .idle, true, false) := by decide +kernel
  obtain ⟨w, hw, hend⟩ := Option.map_eq_some_iff.mp hrun
  simp only [Prod.mk.injEq] at hend
  obtain ⟨hfirstIdle, hsecondIdle, hentry, hgone⟩ := hend
  refine ⟨w, ?_, ?_, ?_⟩
  · refine RunsUnder.exec lateExit (.start (attached_loadedWorld ∅)) ?_ hw
    apply along_of_labels
    intro l hl s
    simp only [lateExit, List.mem_cons, List.not_mem_nil, or_false] at hl
    rcases hl with rfl | rfl | rfl | rfl | rfl | rfl <;> first | rfl | trivial
  · intro id
    by_cases hfirst : id = firstThread.pidTgid
    · rw [hfirst, hfirstIdle]
    by_cases hsecond : id = secondThread.pidTgid
    · rw [hsecond, hsecondIdle]
    rw [phase_of_exec lateExit hw]
    · rfl
    · intro l hl
      simp only [lateExit, List.mem_cons, List.not_mem_nil, or_false] at hl
      rcases hl with rfl | rfl | rfl | rfl | rfl | rfl <;>
        simpa [Label.thread, eq_comm] using by assumption
  · intro hrecorded
    obtain ⟨data, hdata⟩ := Option.isSome_iff_exists.mp hentry
    exact of_decide_eq_false hgone (hrecorded 1 3 data hdata)

/-- `WindowsApart` where only these threads are in a call. -/
def apartAmong (ids : List U64) (w : World FdTables) : Label → Bool
  | .enter task (.close fd) => ids.all fun id => match w.phase id with
      | .returned call ret => !(tgid id == task.pid && call.opens && ret == fd)
      | _ => true
  | .kernel task call resp => !call.opens || ids.all fun id => match w.phase id with
      | .entered (.close fd) => !(tgid id == task.pid && fd == resp.ret)
      | _ => true
  | _ => true

theorem windowsApart_of_apartAmong {ids : List U64} {l : Label}
    (hidle : ∀ id ∉ ids, w.phase id = .idle) (h : apartAmong ids w l = true) :
    WindowsApart w l := by
  have hmem : ∀ id, w.phase id ≠ .idle → id ∈ ids := by
    intro id hbusy
    by_contra hid
    exact hbusy (hidle id hid)
  cases l with
  | enter task call =>
      cases call with
      | close fd =>
          rintro ⟨id, call, hpid, hopens, hreturned⟩
          have hid := List.all_eq_true.mp h id (hmem id (by simp [hreturned]))
          simp [hreturned, hpid, hopens] at hid
      | _ => trivial
  | kernel task call resp =>
      rintro hopens ⟨id, hpid, hentered⟩
      rw [apartAmong, hopens, Bool.not_true, Bool.false_or] at h
      have hid := List.all_eq_true.mp h id (hmem id (by simp [hentered]))
      simp [hentered, hpid] at hid
  | leave task call ret => trivial
  | store pid addr byte => trivial

theorem along_windowsApart {ids : List U64} {schedule : List Label}
    (hids : ∀ l ∈ schedule, ∀ id ∉ ids, l.thread ≠ some id)
    (hidle : ∀ id ∉ ids, w.phase id = .idle)
    (h : Along (system (fdKernel realpath) Attached)
      (fun w l => OpensAndCloses w l ∧ apartAmong ids w l = true) w schedule) :
    Along (system (fdKernel realpath) Attached)
      (fun w l => OpensAndCloses w l ∧ WindowsApart w l) w schedule := by
  induction schedule generalizing w with
  | nil => trivial
  | cons l rest ih =>
      obtain ⟨⟨hcalls, hapart⟩, hrest⟩ := h
      refine ⟨⟨hcalls, windowsApart_of_apartAmong hidle hapart⟩, fun next hnext => ?_⟩
      refine ih (fun m hm => hids m (List.mem_cons_of_mem _ hm)) ?_ (hrest next hnext)
      intro id hid
      have hstep : step (fdKernel realpath) w l = some next := hnext
      rw [phase_of_step hstep (hids l List.mem_cons_self id hid), hidle id hid]

/-- One thread opens 3, and another closes it while the first opens 4; then the other opens
3 again. -/
def reopened : List Label :=
  [.enter firstThread openTmp, .kernel firstThread openTmp ⟨3, []⟩,
    .leave firstThread openTmp 3,
    .enter secondThread (.close 3), .enter firstThread openTmp,
    .kernel firstThread openTmp ⟨4, []⟩, .kernel secondThread (.close 3) ⟨0, []⟩,
    .leave firstThread openTmp 4, .leave secondThread (.close 3) 0,
    .enter secondThread openTmp, .kernel secondThread openTmp ⟨3, []⟩,
    .leave secondThread openTmp 3]

theorem recorded_open_of_windowsApart_reopened :
    ∃ w, exec (system (fdKernel plainPath) Attached) (loadedWorld ∅) reopened = some w ∧
      (w.maps.pathOf 1 3).isSome ∧ (w.maps.pathOf 1 4).isSome ∧ RecordedOpen w := by
  have hrun : (exec (system (fdKernel plainPath) Attached) (loadedWorld ∅) reopened).map
      (fun w => (w.maps.pathOf 1 3).isSome && (w.maps.pathOf 1 4).isSome) = some true := by
    decide +kernel
  obtain ⟨w, hw, hentries⟩ := Option.map_eq_some_iff.mp hrun
  obtain ⟨hthree, hfour⟩ := Bool.and_eq_true_iff.mp hentries
  have hthreads : ∀ l ∈ reopened,
      l.thread = some firstThread.pidTgid ∨ l.thread = some secondThread.pidTgid := by
    decide +kernel
  have halong : Along (system (fdKernel plainPath) Attached)
      (fun w l => OpensAndCloses w l ∧
        apartAmong [firstThread.pidTgid, secondThread.pidTgid] w l = true)
      (loadedWorld ∅) reopened := by decide +kernel
  refine ⟨w, hw, hthree, hfour, @recorded_open_of_windowsApart plainPath w ?_⟩
  refine RunsUnder.exec reopened (.start (attached_loadedWorld ∅)) ?_ hw
  refine along_windowsApart ?_ (fun _ _ => rfl) halong
  intro l hl id hid hthread
  rcases hthreads l hl with hfirst | hsecond
  · rw [hfirst, Option.some.injEq] at hthread
    exact hid (by simp [← hthread])
  · rw [hsecond, Option.some.injEq] at hthread
    exact hid (by simp [← hthread])

end BpftimeBenchmark.FsCache
