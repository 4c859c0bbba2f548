import BpftimeBenchmark.FsCache.Effects

/-!
Processes do not see each other in `dir_fd_map`. The accessors widen the
descriptor differently: a `close` of a negative descriptor deletes under the
process half `0xffffffff`. What keeps it from the entries of that process is
that only non-negative descriptors are ever stored.
-/

namespace BpftimeBenchmark.FsCache

open Transition

variable {σ : Type}

/-- Every stored key packs a process and a non-negative descriptor. -/
def StoredNonneg (m : Maps) : Prop :=
  ∀ key data, m.dirFdMap.lookup key = some data →
    ∃ (pid : U32) (fd : CInt), fd.msb = false ∧ key = pfdKey pid fd

theorem storedNonneg_pathOf {m : Maps} (hs : StoredNonneg m) {pid fd : U32}
    {data : DirFdData} (h : m.pathOf pid fd = some data) : fd.msb = false := by
  obtain ⟨pid', fd', hsign, hkey⟩ := hs _ data h
  obtain ⟨-, rfl⟩ := pfdKey_inj.mp hkey
  exact hsign

theorem storedNonneg_set {task : Task} {fd : U32} {data : DirFdData} {m : Maps}
    (hs : StoredNonneg m) (hsign : fd.msb = false) :
    StoredNonneg (setDirFdData task fd data m) := by
  intro key data' h
  rw [setDirFdData_eq] at h
  rcases BoundedMap.lookup_update_cases m.dirFdMap (pfdKey task.pid fd) key data with
    hkept | ⟨hkey, -, -⟩
  · exact hs key data' (hkept.symm.trans h)
  · exact ⟨task.pid, fd, hsign, hkey⟩

theorem storedNonneg_clear {task : Task} {fd : CInt} {m : Maps}
    (hs : StoredNonneg m) : StoredNonneg (clearDirDataFd task fd m) := by
  intro key data h
  exact hs key data (BoundedMap.lookup_delete_some h).2

/-- Of the enter handlers only that of `close` touches `dir_fd_map`. -/
theorem dirFdMap_enterHandler (task : Task) (call : Syscall) (m : Maps)
    (mem : Memory) :
    (enterHandler task call m mem).1.dirFdMap = m.dirFdMap ∨
      ∃ fd, call = .close fd := by
  have heffect := enterHandler_effect task call m mem
  generalize (enterHandler task call m mem).1 = m' at heffect ⊢
  cases heffect with
  | closed => exact Or.inr ⟨_, rfl⟩
  | _ => exact Or.inl rfl

/-- An exit handler leaves `dir_fd_map` alone or records the non-negative
descriptor its call returned. -/
theorem dirFdMap_exitHandler (getAbsPath : List UInt8 → CharArray nameMax)
    (task : Task) (call : Syscall) (ret : CInt) (m : Maps) (mem : Memory) :
    (exitHandler getAbsPath task call ret m mem).dirFdMap = m.dirFdMap ∨
      ret.msb = false ∧ ∃ data, exitHandler getAbsPath task call ret m mem =
        setDirFdData task ret data m := by
  have heffect := exitHandler_effect getAbsPath task call ret m mem
  generalize exitHandler getAbsPath task call ret m mem = m' at heffect ⊢
  cases heffect with
  | same => exact Or.inl rfl
  | recorded data hrecords hret => exact Or.inr ⟨msb_false_iff.mpr hret, data, rfl⟩
  | filled hret hargs hpath habsent hroom => exact Or.inl rfl

theorem storedNonneg_of_eq {m m' : Maps} (hs : StoredNonneg m)
    (h : m'.dirFdMap = m.dirFdMap) : StoredNonneg m' := by
  intro key data hdata
  rw [h] at hdata
  exact hs key data hdata

theorem storedNonneg_step {K : Kernel σ} {w t : World σ} {l : Label}
    (hs : StoredNonneg w.maps) (h : step K w l = some t) : StoredNonneg t.maps := by
  cases stepResult_of_step h with
  | @enter task call hidle =>
      rw [enter_maps]
      rcases dirFdMap_enterHandler task call w.maps (w.mem task.pid) with
        hsame | ⟨fd, rfl⟩
      · exact storedNonneg_of_eq hs hsame
      · exact storedNonneg_clear hs
  | kernel hentered hexec => exact hs
  | @leave task call ret hreturned =>
      rcases dirFdMap_exitHandler (K.getAbsPath w.kernel task.pid) task call ret
        w.maps (w.mem task.pid) with hsame | ⟨hsign, data, hset⟩
      · exact storedNonneg_of_eq hs hsame
      · simp only [World.leave, hset]
        exact storedNonneg_set hs hsign
  | store => exact hs

theorem storedNonneg_of_reachable {K : Kernel σ} {w : World σ}
    (h : Reachable (system K Attached) w) : StoredNonneg w.maps := by
  refine @RunsUnder.invariant _ _ _ _ (fun w => StoredNonneg w.maps) ?_ ?_ _ h
  · intro s hattached key data hdata
    simp [hattached.dirFdMap] at hdata
  · intro s l t hs _ hstep
    exact storedNonneg_step hs hstep

/-- Every other process finds its descriptors as before. -/
def KeepsOthers (task : Task) (m m' : Maps) : Prop :=
  ∀ (other : Task) (fd : U32), other.pid ≠ task.pid →
    getDirFdData other fd m' = getDirFdData other fd m

/-- What a handler run by any thread with any arguments leaves alone, and how
the keys of the accessors relate. -/
structure Isolated (m : Maps) : Prop where
  enter : ∀ task call mem, KeepsOthers task m (enterHandler task call m mem).1
  exit : ∀ getAbsPath task call ret mem,
    KeepsOthers task m (exitHandler getAbsPath task call ret m mem)
  closeNegative : ∀ (task : Task) (fd : CInt) (mem : Memory), fd.toInt < 0 →
    (enterHandler task (.close fd) m mem).1 = m
  keyAgrees : ∀ pid fd, (m.pathOf pid fd).isSome →
    makePfd pid (fd.signExtend 64) = makePfd pid (fd.setWidth 64)
  clearApart : ∀ pid fd pid' fd', (m.pathOf pid' fd').isSome →
    makePfd pid (fd.signExtend 64) = makePfd pid' (fd'.setWidth 64) →
      pid = pid' ∧ fd = fd'

theorem keepsOthers_of_eq {task : Task} {m m' : Maps}
    (h : m'.dirFdMap = m.dirFdMap) : KeepsOthers task m m' := by
  intro other fd _
  rw [getDirFdData_eq, getDirFdData_eq, Maps.pathOf, Maps.pathOf, h]

theorem keepsOthers_set (task : Task) (fd : U32) (data : DirFdData) (m : Maps) :
    KeepsOthers task m (setDirFdData task fd data m) := by
  intro other fd' hother
  rw [getDirFdData_eq, getDirFdData_eq]
  exact pathOf_setDirFdData_ne data (fun h => hother h.1)

/-- A descriptor with the sign bit set has no entry before and none after. -/
theorem keepsOthers_clear {task : Task} {fd : CInt} {m : Maps}
    (hs : StoredNonneg m) : KeepsOthers task m (clearDirDataFd task fd m) := by
  intro other fd' hother
  rw [getDirFdData_eq, getDirFdData_eq]
  cases hsign : fd'.msb with
  | false => exact pathOf_clearDirDataFd_ne task m hsign (fun h => hother h.1)
  | true =>
      have hempty : m.pathOf other.pid fd' = none := by
        by_contra hsome
        obtain ⟨data, hdata⟩ := Option.ne_none_iff_exists'.mp hsome
        rw [storedNonneg_pathOf hs hdata] at hsign
        cases hsign
      rw [hempty]
      by_contra hsome
      obtain ⟨data, hdata⟩ := Option.ne_none_iff_exists'.mp hsome
      rw [pathOf_of_clearDirDataFd hdata] at hempty
      cases hempty

/-- The key of `close` is that of a stored descriptor only if both its parts
are. -/
theorem clearKey_stored {m : Maps} (hs : StoredNonneg m) {pid : U32} {fd : CInt}
    {pid' fd' : U32} (hstored : (m.pathOf pid' fd').isSome)
    (hkey : makePfd pid (fd.signExtend 64) = pfdKey pid' fd') :
    pid = pid' ∧ fd = fd' := by
  obtain ⟨data, hdata⟩ := Option.isSome_iff_exists.mp hstored
  rw [makePfd_signExtend] at hkey
  obtain ⟨hpid, rfl⟩ := pfdKey_inj.mp hkey
  rw [storedNonneg_pathOf hs hdata] at hpid
  exact ⟨hpid, rfl⟩

theorem clearDirDataFd_negative {task : Task} {fd : CInt} {m : Maps}
    (hs : StoredNonneg m) (hneg : fd.toInt < 0) : clearDirDataFd task fd m = m := by
  suffices hsame : m.dirFdMap.delete (makePfd task.pid (fd.signExtend 64)) =
      m.dirFdMap by rw [clearDirDataFd, hsame]
  apply BoundedMap.ext_entries
  apply Finmap.ext_lookup
  intro key
  by_cases hkey : key = makePfd task.pid (fd.signExtend 64)
  · subst hkey
    have habsent : m.dirFdMap.lookup (makePfd task.pid (fd.signExtend 64)) = none := by
      by_contra hsome
      obtain ⟨data, hdata⟩ := Option.ne_none_iff_exists'.mp hsome
      obtain ⟨pid, fd', hsign, hpfd⟩ := hs _ data hdata
      rw [hpfd] at hdata
      obtain ⟨-, rfl⟩ :=
        clearKey_stored hs (Option.isSome_iff_exists.mpr ⟨data, hdata⟩) hpfd
      exact msb_false_iff.mp hsign hneg
    exact (BoundedMap.lookup_delete_self _ _).trans habsent.symm
  · exact BoundedMap.lookup_delete_ne hkey

theorem isolated_of_storedNonneg {m : Maps} (hs : StoredNonneg m) : Isolated m where
  enter task call mem := by
    rcases dirFdMap_enterHandler task call m mem with hsame | ⟨fd, rfl⟩
    · exact keepsOthers_of_eq hsame
    · exact keepsOthers_clear hs
  exit getAbsPath task call ret mem := by
    rcases dirFdMap_exitHandler getAbsPath task call ret m mem with
      hsame | ⟨-, data, hset⟩
    · exact keepsOthers_of_eq hsame
    · rw [hset]
      exact keepsOthers_set task ret data m
  closeNegative task fd mem hneg := clearDirDataFd_negative hs hneg
  keyAgrees pid fd hstored := by
    obtain ⟨data, hdata⟩ := Option.isSome_iff_exists.mp hstored
    rw [makePfd_signExtend, storedNonneg_pathOf hs hdata]
    rfl
  clearApart pid fd pid' fd' hstored hkey := clearKey_stored hs hstored hkey

/-- In every reachable state each handler keeps to the entries of its own
process, and the packed key tells all processes and descriptors apart. -/
theorem isolated_of_reachable {K : Kernel σ} {w : World σ}
    (h : Reachable (system K Attached) w) :
    Isolated w.maps ∧ ∀ pid fd pid' fd' : U32,
      makePfd pid (fd.setWidth 64) = makePfd pid' (fd'.setWidth 64) →
        pid = pid' ∧ fd = fd' := by
  refine ⟨isolated_of_storedNonneg (storedNonneg_of_reachable h), ?_⟩
  intro pid fd pid' fd' hkey
  exact pfdKey_inj.mp hkey

/-- Process 1 opens `/d` as descriptor 5. -/
def openAsFive : List Label :=
  [.enter firstThread (.openPath [47, 100] 0),
    .kernel firstThread (.openPath [47, 100] 0) ⟨5, []⟩,
    .leave firstThread (.openPath [47, 100] 0) 5]

/-- With an entry stored, a `close(-1)` of any process leaves it in place. -/
theorem isolated_of_reachable_openAsFive :
    ∃ w, Reachable (system (fdKernel plainPath) Attached) w ∧
      (w.maps.pathOf 1 5).isSome ∧ Isolated w.maps ∧
      ∀ task mem, (enterHandler task (.close (-1)) w.maps mem).1 = w.maps := by
  have hrun : (exec (system (fdKernel plainPath) Attached) (loadedWorld ∅)
      openAsFive).map (fun w => (w.maps.pathOf 1 5).isSome) = some true := by
    decide +kernel
  obtain ⟨w, hw, hend⟩ := Option.map_eq_some_iff.mp hrun
  have hreach : Reachable (system (fdKernel plainPath) Attached) w :=
    Reachable.exec openAsFive (.start (attached_loadedWorld ∅)) hw
  have hisolated := (isolated_of_reachable hreach).1
  refine ⟨w, hreach, hend, hisolated, ?_⟩
  intro task mem
  exact hisolated.closeNegative task (-1) mem (by decide)

end BpftimeBenchmark.FsCache
