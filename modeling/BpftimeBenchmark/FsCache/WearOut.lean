import BpftimeBenchmark.FsCache.Effects
import BpftimeBenchmark.FsCache.Filter

/-!
The records of `open_args_start` are never deleted. A thread that has once
opened a file keeps its slot, so the map fills with threads that are long gone,
and from then on the opens of new threads are not tracked.
-/

namespace BpftimeBenchmark.FsCache

open Transition

variable {σ : Type}

/-- What is live fits the maps: at most as many threads are inside a hooked
syscall, and at most as many descriptors are open, as a map has slots. -/
structure LiveFits (w : World FdTables) : Prop where
  threads : ∃ ids : Finset U64, ids.card ≤ maxEntries ∧
    ∀ id, w.phase id ≠ .idle → id ∈ ids
  descriptors : w.kernel.files.keys.card ≤ maxEntries

/-- The step is taken while everything live fits, and leads to such a state. -/
def StaysLive (realpath : List UInt8 → CharArray nameMax) (w : World FdTables)
    (l : Label) : Prop :=
  LiveFits w ∧ ∀ t, step (fdKernel realpath) w l = some t → LiveFits t

/-- An open that enters finds a slot for its record, unless the filter refuses
it, and one that succeeds finds a slot for its descriptor. -/
def SlotsLeft (w : World σ) : Label → Prop
  | .enter task call => call.opens = true →
      (enterHandler task call w.maps (w.mem task.pid)).2.2 = none →
      w.maps.openArgsStart.HasRoom task.pidTgid
  | .leave task call ret => call.opens = true → ¬ ret.toInt < 0 →
      w.maps.dirFdMap.HasRoom (pfdKey task.pid ret)
  | _ => True

/-- A thread between the two handlers of an open has its record. -/
def OpensRecorded (w : World σ) : Prop :=
  ∀ id call, (w.phase id = .entered call ∨ ∃ ret, w.phase id = .returned call ret) →
    call.opens = true → (w.maps.openArgsStart.lookup id).isSome

theorem openArgs_update_isSome {m : Maps} {task : Task} {args : OpenArgs} {id : U64}
    (h : (m.openArgsStart.lookup id).isSome) :
    ((storeOpenArgs task args m).openArgsStart.lookup id).isSome := by
  rcases BoundedMap.lookup_update_cases m.openArgsStart task.pidTgid id args with
    hkept | ⟨-, -, hnew⟩
  · simp only [storeOpenArgs, hkept]
    exact h
  · simp only [storeOpenArgs, hnew]
    rfl

/-- No handler deletes a record. -/
theorem openArgs_enterHandler {task : Task} {call : Syscall} {m : Maps} {mem : Memory}
    {id : U64} (h : (m.openArgsStart.lookup id).isSome) :
    ((enterHandler task call m mem).1.openArgsStart.lookup id).isSome := by
  have heffect := enterHandler_effect task call m mem
  generalize (enterHandler task call m mem).1 = m' at heffect ⊢
  cases heffect with
  | opened hopens => exact openArgs_update_isSome h
  | _ => exact h

theorem openArgs_exitHandler {getAbsPath : List UInt8 → CharArray nameMax}
    (task : Task) (call : Syscall) (ret : CInt) (m : Maps) (mem : Memory) :
    (exitHandler getAbsPath task call ret m mem).openArgsStart = m.openArgsStart := by
  have heffect := exitHandler_effect getAbsPath task call ret m mem
  generalize exitHandler getAbsPath task call ret m mem = m' at heffect ⊢
  cases heffect with
  | recorded data hrecords hret => exact openArgs_setDirFdData _ _ _ _
  | _ => rfl

/-- The entering thread of an open that is let through has its record, if the
map had a slot for it. -/
theorem openArgs_enter_self {task : Task} {call : Syscall} {m : Maps} {mem : Memory}
    (hopens : call.opens = true) (hpass : (enterHandler task call m mem).2.2 = none)
    (hroom : m.openArgsStart.HasRoom task.pidTgid) :
    ((enterHandler task call m mem).1.openArgsStart.lookup task.pidTgid).isSome := by
  obtain ⟨name, hname⟩ := Option.isSome_iff_exists.mp hopens
  rcases enterHandler_name hname with ⟨hover, -⟩ | ⟨-, flags, hmaps⟩
  · rw [hover] at hpass
    cases hpass
  · have hrecord := BoundedMap.lookup_update_self
      (⟨CharArray.probeReadStr nameMax name, 0, flags⟩ : OpenArgs) hroom
    rw [hmaps]
    exact Option.isSome_iff_exists.mpr ⟨_, hrecord⟩

theorem opensRecorded_step {K : Kernel σ} {w t : World σ} {l : Label}
    (hi : OpensRecorded w) (hok : SlotsLeft w l) (h : step K w l = some t) :
    OpensRecorded t := by
  cases stepResult_of_step h with
  | @enter task call hidle =>
      intro id call' hinside hopens
      rw [enter_maps]
      rcases enter_cases w task call with ⟨ret, -, hphase, -⟩ | ⟨hpass, hphase, -⟩
      · rw [hphase] at hinside
        exact openArgs_enterHandler (hi id call' hinside hopens)
      · rw [hphase] at hinside
        by_cases hid : id = task.pidTgid
        · subst hid
          have hcall : call = call' := by
            simpa using hinside
          subst hcall
          exact openArgs_enter_self hopens hpass (hok hopens hpass)
        · rw [Function.update_of_ne hid] at hinside
          exact openArgs_enterHandler (hi id call' hinside hopens)
  | @kernel task call resp k hentered hexec =>
      intro id call' hinside hopens
      by_cases hid : id = task.pidTgid
      · subst hid
        have hcall : call = call' := by
          simpa [World.serve] using hinside
        subst hcall
        exact hi task.pidTgid call (Or.inl hentered) hopens
      · simp only [World.serve, Function.update_of_ne hid] at hinside
        exact hi id call' hinside hopens
  | @leave task call ret hreturned =>
      intro id call' hinside hopens
      simp only [World.leave, openArgs_exitHandler]
      by_cases hid : id = task.pidTgid
      · subst hid
        simp [World.leave] at hinside
      · simp only [World.leave, Function.update_of_ne hid] at hinside
        exact hi id call' hinside hopens
  | store => exact hi

theorem opensRecorded_of_slotsLeft {K : Kernel σ} {w : World σ}
    (h : RunsUnder (system K Attached) SlotsLeft w) : OpensRecorded w := by
  apply h.invariant
  · rintro s hattached id call (hphase | ⟨ret, hphase⟩)
    · rw [hattached.phase] at hphase
      cases hphase
    · rw [hattached.phase] at hphase
      cases hphase
  · intro s l t hi hok hstep
    exact opensRecorded_step hi hok hstep

/-- In every run in which opens find their slots, a successful `open` or
`openat` leaves an entry for its descriptor. -/
theorem tracked_of_slotsLeft {K : Kernel σ} {w t : World σ} {task : Task}
    {call : Syscall} {ret : CInt} (h : RunsUnder (system K Attached) SlotsLeft w)
    (hok : SlotsLeft w (.leave task call ret)) (hopens : call.opens = true)
    (hret : ¬ ret.toInt < 0) (ht : step K w (.leave task call ret) = some t) :
    (t.maps.pathOf task.pid ret).isSome := by
  cases stepResult_of_step ht with
  | leave hreturned =>
    have hinside := opensRecorded_of_slotsLeft h task.pidTgid call
      (Or.inr ⟨ret, hreturned⟩) hopens
    obtain ⟨args, hargs⟩ := Option.isSome_iff_exists.mp hinside
    simp only [World.leave, exitHandler_opens hopens, traceExit, hargs, if_neg hret]
    rw [pathOf_setDirFdData_self _ (hok hopens hret)]
    rfl

instance SlotsLeft.decidable : ∀ (w : World σ) (l : Label), Decidable (SlotsLeft w l)
  | w, .enter task call => inferInstanceAs (Decidable (call.opens = true →
      (enterHandler task call w.maps (w.mem task.pid)).2.2 = none →
      w.maps.openArgsStart.HasRoom task.pidTgid))
  | w, .leave task call ret => inferInstanceAs (Decidable (call.opens = true →
      ¬ ret.toInt < 0 → w.maps.dirFdMap.HasRoom (pfdKey task.pid ret)))
  | _, .kernel _ _ _ => isTrue trivial
  | _, .store _ _ _ => isTrue trivial

def openVisit : Syscall := .openPath [116, 109, 112] 0

/-- One thread opens `tmp` as 3, a second process is refused a blacklisted name, and
another thread closes 3. It then opens a name that does not exist while the first is
about to return from opening `tmp` again. -/
def opening : List Label :=
  [.enter firstThread openVisit, .kernel firstThread openVisit ⟨3, []⟩,
    .enter rootThread (.openPath archPath 0), .leave firstThread openVisit 3,
    .enter secondThread (.close 3), .kernel secondThread (.close 3) ⟨0, []⟩,
    .leave secondThread (.close 3) 0, .enter firstThread openVisit,
    .enter secondThread (.openPath [110] 0), .kernel firstThread openVisit ⟨3, []⟩,
    .kernel secondThread (.openPath [110] 0) ⟨-2, []⟩,
    .leave secondThread (.openPath [110] 0) (-2)]

theorem tracked_of_slotsLeft_opening :
    ∃ w t : World FdTables,
      exec (system (fdKernel plainPath) Attached) (loadedWorld ∅) opening = some w ∧
      w.maps.pathOf firstThread.pid 3 = none ∧
      step (fdKernel plainPath) w (.leave firstThread openVisit 3) = some t ∧
      (t.maps.pathOf firstThread.pid 3).isSome := by
  have hrun : (exec (system (fdKernel plainPath) Attached) (loadedWorld ∅)
      opening).map (fun w =>
        (w.maps.pathOf firstThread.pid 3,
          decide (SlotsLeft w (.leave firstThread openVisit 3)),
          (step (fdKernel plainPath) w (.leave firstThread openVisit 3)).isSome)) =
      some (none, true, true) := by decide +kernel
  obtain ⟨w, hw, hend⟩ := Option.map_eq_some_iff.mp hrun
  simp only [Prod.mk.injEq, decide_eq_true_eq] at hend
  obtain ⟨huntracked, hok, hstep⟩ := hend
  obtain ⟨t, ht⟩ := Option.isSome_iff_exists.mp hstep
  have halong : Along (system (fdKernel plainPath) Attached) SlotsLeft (loadedWorld ∅)
      opening := by decide +kernel
  have hguarded : RunsUnder (system (fdKernel plainPath) Attached) SlotsLeft w :=
    .exec opening (.start (attached_loadedWorld ∅)) halong hw
  exact ⟨w, t, hw, huntracked, ht, tracked_of_slotsLeft hguarded hok rfl (by decide) ht⟩

/-- The threads of process 1, each of which makes one short visit. -/
def visitor (n : Nat) : Task := ⟨BitVec.ofNat 64 (2 ^ 32 + n), 1000, 1000⟩

theorem visitor_inj {n j : Nat} (hn : n ≤ maxEntries) (hj : j ≤ maxEntries)
    (h : (visitor n).pidTgid = (visitor j).pidTgid) : n = j := by
  have hlargeN : n ≤ 10240 := hn
  have hlargeJ : j ≤ 10240 := hj
  have heq := congrArg BitVec.toNat h
  simp only [visitor, BitVec.toNat_ofNat] at heq
  omega

def visitRecord : OpenArgs := ⟨CharArray.probeReadStr nameMax [116, 109, 112], 0, 0⟩

/-- The state between two visits after `n` threads have come and gone. Nothing
is live, but their records are all there. -/
structure Worn (n : Nat) (w : World FdTables) : Prop where
  idle : ∀ id, w.phase id = .idle
  closed : w.kernel.files = ∅
  untracked : ∀ key, w.maps.dirFdMap.lookup key = none
  unfiltered : w.maps.openFileFilter.lookup 1000 = none
  records : w.maps.openArgsStart.size = n
  fresh : ∀ j, n ≤ j → j ≤ maxEntries →
    w.maps.openArgsStart.lookup (visitor j).pidTgid = none

abbrev LiveRun (w : World FdTables) : Prop :=
  RunsUnder (system (fdKernel plainPath) Attached) (StaysLive plainPath) w

theorem liveFits_of_one {w : World FdTables} (id : U64)
    (hphase : ∀ id', id' ≠ id → w.phase id' = .idle)
    (hfiles : w.kernel.files.keys.card ≤ 1) : LiveFits w := by
  constructor
  · refine ⟨{id}, by simp [maxEntries], ?_⟩
    intro id' hbusy
    by_contra hother
    exact hbusy (hphase id' (by simpa using hother))
  · exact hfiles.trans (by simp [maxEntries])

theorem idle_of_update {w t : World FdTables} {id : U64} {p : Phase}
    (hidle : ∀ id, w.phase id = .idle) (hphase : t.phase = Function.update w.phase id p)
    (id' : U64) (hne : id' ≠ id) : t.phase id' = .idle := by
  rw [hphase, Function.update_of_ne hne]
  exact hidle id'

/-- Where the only busy thread leaves, all are idle as before. -/
theorem phase_after_leave {w t : World FdTables} {task : Task} {call : Syscall}
    {ret : CInt} {p : Phase} (hidle : ∀ id, w.phase id = .idle)
    (hphase : t.phase = Function.update w.phase task.pidTgid p) :
    (t.leave (fdKernel plainPath) task call ret).phase = w.phase := by
  simp only [World.leave, hphase, Function.update_idem]
  rw [← hidle task.pidTgid]
  exact Function.update_eq_self _ _

theorem liveRun_step {w t : World FdTables} {l : Label} (h : LiveRun w)
    (hw : LiveFits w) (ht : LiveFits t) (hstep : step (fdKernel plainPath) w l = some t) :
    LiveRun t := by
  refine .step h ⟨hw, ?_⟩ hstep
  intro t' ht'
  rw [hstep] at ht'
  cases ht'
  exact ht

theorem enterHandler_visit {n : Nat} {m : Maps} (mem : Memory)
    (hfilter : m.openFileFilter.lookup 1000 = none) :
    enterHandler (visitor n) openVisit m mem =
      (storeOpenArgs (visitor n) visitRecord m, mem, none) := by
  have hkey : filterKey (visitor n) = 1000 := by
    simp [filterKey, bpfGetCurrentUidGid, visitor]
  have hallowed : m.denied (filterKey (visitor n)) [116, 109, 112] = false := by
    simp only [Maps.denied, hkey, hfilter]
  simp only [enterHandler, openVisit, sysEnterOpen_eq, hallowed]
  rfl

/-- The state in which the visitor's open has returned descriptor 3. -/
structure Visiting (n : Nat) (w t : World FdTables) : Prop where
  phase : t.phase = Function.update w.phase (visitor n).pidTgid (.returned openVisit 3)
  maps : t.maps = storeOpenArgs (visitor n) visitRecord w.maps
  files : t.kernel.files =
    (∅ : Finmap (fun _ : U32 × U32 => OpenedAs)).insert ((visitor n).pid, 3)
      ⟨w.kernel.cwd (visitor n).pid, [116, 109, 112]⟩

theorem Worn.liveFits {n : Nat} {w : World FdTables} (hw : Worn n w) : LiveFits w := by
  apply liveFits_of_one 0
  · intro id _
    exact hw.idle id
  · simp [hw.closed]

theorem Visiting.liveFits {n : Nat} {w t : World FdTables} (hw : Worn n w)
    (ht : Visiting n w t) : LiveFits t := by
  apply liveFits_of_one (visitor n).pidTgid (idle_of_update hw.idle ht.phase)
  rw [ht.files, BoundedMap.keys_insert]
  simp

theorem visit_opens {n : Nat} {w : World FdTables} (hw : Worn n w) (h : LiveRun w) :
    ∃ t, LiveRun t ∧ Visiting n w t := by
  have hpass := enterHandler_visit (n := n) (w.mem (visitor n).pid) hw.unfiltered
  have henter := enter_pass hpass
  have hlive : LiveFits (w.enter (visitor n) openVisit) := by
    apply liveFits_of_one (visitor n).pidTgid (idle_of_update hw.idle (by rw [henter]))
    rw [henter]
    simp [hw.closed]
  have hentered : LiveRun (w.enter (visitor n) openVisit) := by
    apply liveRun_step h hw.liveFits hlive (l := .enter (visitor n) openVisit)
    simp only [step, hw.idle, if_true]
  let k : FdTables :=
    { w.kernel with
      files := w.kernel.files.insert ((visitor n).pid, 3)
        ⟨w.kernel.cwd (visitor n).pid, [116, 109, 112]⟩ }
  have hserved : Visiting n w
      ((w.enter (visitor n) openVisit).serve (visitor n) openVisit ⟨3, []⟩ k) := by
    constructor
    · simp only [World.serve, henter, Function.update_idem]
    · simp only [World.serve, henter]
    · simp only [World.serve, k, hw.closed]
  refine ⟨_, ?_, hserved⟩
  apply liveRun_step hentered hlive (hserved.liveFits hw)
    (l := .kernel (visitor n) openVisit ⟨3, []⟩)
  have hphase : (w.enter (visitor n) openVisit).phase (visitor n).pidTgid =
      .entered openVisit := by
    rw [henter]
    exact Function.update_self _ _ _
  have hexec : (fdKernel plainPath).exec (w.enter (visitor n) openVisit).kernel
      (visitor n) openVisit ⟨3, []⟩ = some k := by
    rw [enter_kernel]
    simp [fdKernel, fdExec, openVisit, FdTables.install, hw.closed, k,
      Finmap.notMem_empty]
  simp only [step, hphase, if_true, hexec, Option.map_some]

/-- After the visit the descriptor is closed and its entry gone, but the record
of the thread stays. -/
theorem worn_after_visit {n : Nat} {w u : World FdTables} (hw : Worn n w)
    (hn : n < maxEntries) (data : DirFdData) (hphase : u.phase = w.phase)
    (hfiles : u.kernel.files = ∅)
    (hmaps : u.maps = clearDirDataFd (visitor n) 3
      (setDirFdData (visitor n) 3 data
        (storeOpenArgs (visitor n) visitRecord w.maps))) : Worn (n + 1) u where
  idle id := by rw [hphase, hw.idle]
  closed := hfiles
  untracked key := by
    rw [hmaps, setDirFdData_eq]
    by_contra hsome
    obtain ⟨data', hdata⟩ := Option.ne_none_iff_exists'.mp hsome
    obtain ⟨hne, hdata⟩ := BoundedMap.lookup_delete_some hdata
    rw [makePfd_signExtend] at hne
    have hold := (BoundedMap.lookup_update_ne data hne).symm.trans hdata
    rw [storeOpenArgs, hw.untracked] at hold
    cases hold
  unfiltered := by
    rw [hmaps, setDirFdData_eq]
    exact hw.unfiltered
  records := by
    have hnew : (w.maps.openArgsStart.update (visitor n).pidTgid visitRecord).size =
        w.maps.openArgsStart.size + 1 := by
      apply BoundedMap.size_update_new visitRecord (hw.fresh n le_rfl hn.le)
      rw [hw.records]
      exact hn
    rw [hw.records] at hnew
    rw [hmaps, setDirFdData_eq]
    exact hnew
  fresh j hj hlarge := by
    have hne : (visitor j).pidTgid ≠ (visitor n).pidTgid := by
      intro h
      have hsame := visitor_inj hlarge hn.le h
      omega
    rw [hmaps, setDirFdData_eq]
    exact (BoundedMap.lookup_update_ne visitRecord hne).trans
      (hw.fresh j (by omega) hlarge)

theorem visit_returns {n : Nat} {w t : World FdTables} (hw : Worn n w)
    (hn : n < maxEntries) (h : LiveRun t) (ht : Visiting n w t) :
    ∃ u data, LiveRun u ∧ u.phase = w.phase ∧ u.kernel = t.kernel ∧
      u.maps = setDirFdData (visitor n) 3 data
        (storeOpenArgs (visitor n) visitRecord w.maps) := by
  have hroom : w.maps.openArgsStart.HasRoom (visitor n).pidTgid := by
    apply BoundedMap.hasRoom_of_size_lt
    rw [hw.records]
    exact hn
  have hphase : (t.leave (fdKernel plainPath) (visitor n) openVisit 3).phase =
      w.phase := phase_after_leave hw.idle ht.phase
  have hfits : LiveFits (t.leave (fdKernel plainPath) (visitor n) openVisit 3) := by
    apply liveFits_of_one 0
    · intro id _
      rw [hphase, hw.idle]
    · rw [leave_kernel, ht.files, BoundedMap.keys_insert]
      simp
  refine ⟨_, ⟨(fdKernel plainPath).getAbsPath t.kernel (visitor n).pid
    visitRecord.fname.cstr⟩, ?_, hphase, leave_kernel _ _ _ _ _, ?_⟩
  · apply liveRun_step h (ht.liveFits hw) hfits (l := .leave (visitor n) openVisit 3)
    simp only [step, ht.phase, Function.update_self, if_true]
  · simp only [World.leave]
    rw [exitHandler_opens rfl, ht.maps, traceExit_store hroom, if_neg (by decide)]

/-- The kernel has closed the descriptor of the visitor. -/
structure Closing (n : Nat) (u t : World FdTables) : Prop where
  phase : t.phase =
    Function.update u.phase (visitor n).pidTgid (.returned (.close 3) 0)
  maps : t.maps = clearDirDataFd (visitor n) 3 u.maps
  files : t.kernel.files = ∅

theorem Closing.liveFits {n : Nat} {u t : World FdTables}
    (hidle : ∀ id, u.phase id = .idle) (ht : Closing n u t) : LiveFits t := by
  apply liveFits_of_one (visitor n).pidTgid (idle_of_update hidle ht.phase)
  simp [ht.files]

theorem visit_closing {n : Nat} {u : World FdTables} (h : LiveRun u)
    (hidle : ∀ id, u.phase id = .idle)
    (hfiles : u.kernel.files.keys = {((visitor n).pid, 3)}) :
    ∃ t, LiveRun t ∧ Closing n u t := by
  have hfits : LiveFits u := liveFits_of_one 0 (fun id _ => hidle id) (by simp [hfiles])
  have henter : u.enter (visitor n) (.close 3) =
      { u with
        maps := sysEnterClose (visitor n) 3 u.maps
        mem := Function.update u.mem (visitor n).pid (u.mem (visitor n).pid)
        phase := Function.update u.phase (visitor n).pidTgid (.entered (.close 3)) } :=
    enter_pass rfl
  have hfits₁ : LiveFits (u.enter (visitor n) (.close 3)) := by
    apply liveFits_of_one (visitor n).pidTgid (idle_of_update hidle (by rw [henter]))
    rw [enter_kernel, hfiles]
    simp
  have hrun₁ : LiveRun (u.enter (visitor n) (.close 3)) := by
    apply liveRun_step h hfits hfits₁ (l := .enter (visitor n) (.close 3))
    simp only [step, hidle, if_true]
  let k : FdTables :=
    { u.kernel with files := u.kernel.files.erase ((visitor n).pid, 3) }
  have hnone : k.files = ∅ := by
    apply Finmap.ext_lookup
    intro x
    rw [Finmap.lookup_empty, Finmap.lookup_eq_none, ← Finmap.mem_keys,
      Finmap.keys_erase, hfiles]
    simp
  have hserved : Closing n u
      ((u.enter (visitor n) (.close 3)).serve (visitor n) (.close 3) ⟨0, []⟩ k) := by
    constructor
    · simp only [World.serve, henter, Function.update_idem]
    · simp only [World.serve, henter, sysEnterClose]
    · exact hnone
  refine ⟨_, ?_, hserved⟩
  apply liveRun_step hrun₁ hfits₁ (hserved.liveFits hidle)
    (l := .kernel (visitor n) (.close 3) ⟨0, []⟩)
  have hphase₁ : (u.enter (visitor n) (.close 3)).phase (visitor n).pidTgid =
      .entered (.close 3) := by
    rw [henter]
    exact Function.update_self _ _ _
  have hexec : (fdKernel plainPath).exec (u.enter (visitor n) (.close 3)).kernel
      (visitor n) (.close 3) ⟨0, []⟩ = some k := by
    have hopen : ((visitor n).pid, (3 : CInt)) ∈ u.kernel.files := by
      rw [← Finmap.mem_keys, hfiles]
      exact Finset.mem_singleton_self _
    rw [enter_kernel]
    simp only [fdKernel, fdExec, if_pos hopen, k]
  simp only [step, hphase₁, if_true, hexec, Option.map_some]

theorem visit_closes {n : Nat} {w u : World FdTables} {data : DirFdData}
    (hw : Worn n w) (hn : n < maxEntries) (h : LiveRun u) (hphase : u.phase = w.phase)
    (hfiles : u.kernel.files.keys = {((visitor n).pid, 3)})
    (hmaps : u.maps = setDirFdData (visitor n) 3 data
      (storeOpenArgs (visitor n) visitRecord w.maps)) :
    ∃ v, LiveRun v ∧ Worn (n + 1) v := by
  have hidle : ∀ id, u.phase id = .idle := by
    intro id
    rw [hphase, hw.idle]
  obtain ⟨t, hrun, ht⟩ := visit_closing h hidle hfiles
  have hworn : Worn (n + 1) (t.leave (fdKernel plainPath) (visitor n) (.close 3) 0) := by
    apply worn_after_visit hw hn data ((phase_after_leave hidle ht.phase).trans hphase)
    · rw [leave_kernel, ht.files]
    · simp only [World.leave, exitHandler, ht.maps, hmaps]
  refine ⟨_, ?_, hworn⟩
  apply liveRun_step hrun (ht.liveFits hidle) hworn.liveFits
    (l := .leave (visitor n) (.close 3) 0)
  simp only [step, ht.phase, Function.update_self, if_true]

theorem worn_loadedWorld : Worn 0 (loadedWorld ∅) where
  idle _ := rfl
  closed := rfl
  untracked key := BoundedMap.lookup_empty key
  unfiltered := by
    have hother : (1000 : U32) ≠ 0 := by decide
    exact (BoundedMap.lookup_update_ne installedFilter hother).trans
      (BoundedMap.lookup_empty _)
  records := by simp [loadedWorld, Maps.loaded, Maps.empty, BoundedMap.empty,
    BoundedMap.size]
  fresh j _ _ := BoundedMap.lookup_empty _

/-- Threads may come and go until the map of records is full. -/
theorem exists_worn (n : Nat) (hn : n ≤ maxEntries) :
    ∃ w, LiveRun w ∧ Worn n w := by
  induction n with
  | zero => exact ⟨_, .start (attached_loadedWorld ∅), worn_loadedWorld⟩
  | succ n ih =>
      obtain ⟨w, hrun, hw⟩ := ih (by omega)
      obtain ⟨t, htrun, ht⟩ := visit_opens hw hrun
      obtain ⟨u, data, hurun, hphase, hkernel, hmaps⟩ := visit_returns hw hn htrun ht
      apply visit_closes hw hn hurun hphase _ hmaps
      rw [hkernel, ht.files, BoundedMap.keys_insert]
      simp

/-- After as many threads as `open_args_start` has slots, one at a time, the
open of the next one succeeds and is not tracked. -/
theorem next_thread_untracked :
    ∃ w t task call, RunsUnder (system (fdKernel plainPath) Attached)
        (StaysLive plainPath) w ∧
      StaysLive plainPath w (.leave task call 3) ∧ call.opens = true ∧
      step (fdKernel plainPath) w (.leave task call 3) = some t ∧
      t.maps.pathOf task.pid 3 = none := by
  obtain ⟨w, hrun, hw⟩ := exists_worn maxEntries le_rfl
  obtain ⟨t, htrun, ht⟩ := visit_opens hw hrun
  have hfull : ¬ w.maps.openArgsStart.HasRoom (visitor maxEntries).pidTgid := by
    apply BoundedMap.not_hasRoom_iff.mpr
    exact ⟨hw.fresh maxEntries le_rfl le_rfl, hw.records.ge⟩
  have hmaps : (t.leave (fdKernel plainPath) (visitor maxEntries) openVisit 3).maps =
      w.maps := by
    simp only [World.leave]
    rw [exitHandler_opens rfl, ht.maps, traceExit_full hfull]
  have hidle : ∀ id, (t.leave (fdKernel plainPath) (visitor maxEntries) openVisit
      3).phase id = .idle := by
    intro id
    rw [phase_after_leave hw.idle ht.phase]
    exact hw.idle id
  have hstep : step (fdKernel plainPath) t (.leave (visitor maxEntries) openVisit 3) =
      some (t.leave (fdKernel plainPath) (visitor maxEntries) openVisit 3) := by
    simp only [step, ht.phase, Function.update_self, if_true]
  refine ⟨t, _, visitor maxEntries, openVisit, htrun, ⟨ht.liveFits hw, ?_⟩, rfl, hstep,
    ?_⟩
  · intro t' ht'
    rw [hstep] at ht'
    cases ht'
    apply liveFits_of_one 0
    · intro id _
      exact hidle id
    · rw [leave_kernel, ht.files, BoundedMap.keys_insert]
      simp
  · rw [hmaps]
    exact hw.untracked _

end BpftimeBenchmark.FsCache
