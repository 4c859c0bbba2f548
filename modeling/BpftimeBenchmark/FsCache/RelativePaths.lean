import BpftimeBenchmark.FsCache.Descriptors

/-!
The path recorded for an `openat` relative to a recorded directory. Neither
handler joins the directory's path and the name (the call that would is
commented out in `sys_enter_openat`), so the name is resolved against the
current directory of the process.
-/

namespace BpftimeBenchmark.FsCache

open Transition

variable {realpath : List UInt8 → CharArray nameMax}

/-- The path of `name` in the directory recorded as `dir`. -/
def pathIn (realpath : List UInt8 → CharArray nameMax) (dir : DirFdData)
    (name : List UInt8) : DirFdData :=
  ⟨realpath (dir.dirPath.cstr ++ slash :: name)⟩

/-- The path `trace_exit` computes from the stored copy of `name`. -/
def resolvedPath (realpath : List UInt8 → CharArray nameMax) (w : World FdTables)
    (task : Task) (name : List UInt8) : DirFdData :=
  ⟨absPath realpath (w.kernel.cwd task.pid)
    (CharArray.probeReadStr nameMax name).cstr⟩

/-- After `openat(dirfd, name)` the map files `fd` under `path`, and so does
every listing that a `getdents64` on `fd` adds to the cache. -/
structure FiledUnder (realpath : List UInt8 → CharArray nameMax) (w : World FdTables)
    (pid : U32) (fd : CInt) (path : DirFdData) : Prop where
  recorded : w.maps.pathOf pid fd = some path
  cached : ∀ task dirp count resp t key, task.pid = pid →
    complete (fdKernel realpath) w task (.getdents64 fd dirp count) resp = some t →
    w.maps.getdents64CacheMap.lookup key = none →
    t.maps.getdents64CacheMap.lookup key ≠ none → key = path

/-- The name resolves to the same path from the current directory as from the
directory, and both maps have a slot for it. Without a slot for its record the
call leaves the old entry of the descriptor. -/
def ResolvesAlike (realpath : List UInt8 → CharArray nameMax) (w : World FdTables)
    (task : Task) (dir : DirFdData) (name : List UInt8) (fd : CInt) : Prop :=
  if w.maps.openArgsStart.HasRoom task.pidTgid then
    w.maps.dirFdMap.HasRoom (pfdKey task.pid fd) ∧
      resolvedPath realpath w task name = pathIn realpath dir name
  else w.maps.pathOf task.pid fd = some (pathIn realpath dir name)

theorem filedUnder_of_recorded {w : World FdTables} {pid : U32} {fd : CInt}
    {path : DirFdData} (hrecorded : w.maps.pathOf pid fd = some path) :
    FiledUnder realpath w pid fd path := by
  refine ⟨hrecorded, ?_⟩
  rintro task dirp count resp t key rfl ht hold hnew
  obtain ⟨-, -, hcase⟩ := complete_cases ht
  simp only [enterHandler] at hcase
  rcases sysEnterGetdents64_cases task fd dirp count w.maps (w.mem task.pid) with
    ⟨hnone, -⟩ | ⟨path', buf, hpath, -, -, henter⟩ |
    ⟨path', buf, hpath, -, -, henter⟩ | ⟨path', hpath, -, henter⟩
  · rw [hnone] at hrecorded
    cases hrecorded
  · rw [henter] at hcase
    rcases hcase with ⟨ret, -, -, hmaps⟩ | ⟨hover, -⟩
    · rw [hmaps] at hnew
      rw [lookup_cachePut_new hold hnew]
      exact Option.some.inj (hpath.symm.trans hrecorded)
    · cases hover
  · rw [henter] at hcase
    rcases hcase with ⟨ret, -, -, hmaps⟩ | ⟨hover, -⟩
    · rw [hmaps] at hnew
      rw [lookup_cachePut_new hold hnew]
      exact Option.some.inj (hpath.symm.trans hrecorded)
    · cases hover
  · rw [henter] at hcase
    rcases hcase with ⟨ret, hover, -⟩ | ⟨-, -, hmaps⟩
    · cases hover
    rw [hmaps] at hnew
    simp only [exitHandler] at hnew
    rcases sysExitGetdents64_eq task resp.ret
        (storeGetdentsArgs task ⟨fd, dirp, count⟩ w.maps)
        (kernelWrite (.getdents64 fd dirp count) resp.data (w.mem task.pid)) with
      hsame | ⟨args, path'', -, hargs, hfiled, -, -, hfill⟩
    · rw [hsame] at hnew
      exact absurd hold hnew
    · have hown : args = ⟨fd, dirp, count⟩ := BoundedMap.eq_of_lookup_update hargs
      subst hown
      have hpath'' : path'' = path := Option.some.inj (hfiled.symm.trans hrecorded)
      rw [hfill] at hnew
      rw [← hpath'']
      exact lookup_cachePut_new (m := storeGetdentsArgs task _ w.maps) hold hnew

/-- What an `openat` that succeeds leaves in the maps: the entry of the resolved
copy, if its record found a slot. -/
theorem maps_of_openat {w t : World FdTables} {task : Task} {dirfd flags : CInt}
    {name : List UInt8} {resp : Response}
    (hallowed : (sysEnterOpenat task dirfd name flags w.maps).2 = none)
    (hret : ¬ resp.ret.toInt < 0)
    (h : complete (fdKernel realpath) w task (.openat dirfd name flags) resp = some t) :
    t.maps =
      if w.maps.openArgsStart.HasRoom task.pidTgid then
        setDirFdData task resp.ret (resolvedPath realpath w task name)
          (storeOpenArgs task ⟨CharArray.probeReadStr nameMax name, 0, flags⟩ w.maps)
      else w.maps := by
  obtain ⟨-, -, hcase⟩ := complete_cases h
  have henter : sysEnterOpenat task dirfd name flags w.maps =
      (storeOpenArgs task ⟨CharArray.probeReadStr nameMax name, 0, flags⟩ w.maps,
        none) := by
    rw [sysEnterOpenat_eq] at hallowed ⊢
    split at hallowed
    · cases hallowed
    · rename_i hpassed
      rw [if_neg hpassed]
  simp only [enterHandler, henter] at hcase
  rcases hcase with ⟨ret, hover, -⟩ | ⟨-, hexec, hmaps⟩
  · cases hover
  rw [hmaps, exitHandler_opens rfl]
  have hinstall : w.kernel.install task.pid resp.ret ⟨w.kernel.cwd task.pid, name⟩ =
      some t.kernel := hexec
  have hcwd : t.kernel.cwd = w.kernel.cwd := by
    rcases install_cases hinstall with ⟨-, hkernel⟩ | ⟨-, -, hkernel⟩ <;> rw [hkernel]
  split
  · rename_i hroom
    rw [traceExit_store hroom, if_neg hret, resolvedPath, ← hcwd]
    rfl
  · rename_i hfull
    exact traceExit_full hfull

theorem filedUnder_iff {w t : World FdTables} {task : Task} {dirfd flags : CInt}
    {name : List UInt8} {resp : Response} (dir : DirFdData)
    (hallowed : (sysEnterOpenat task dirfd name flags w.maps).2 = none)
    (hret : ¬ resp.ret.toInt < 0)
    (h : complete (fdKernel realpath) w task (.openat dirfd name flags) resp = some t) :
    FiledUnder realpath t task.pid resp.ret (pathIn realpath dir name) ↔
      ResolvesAlike realpath w task dir name resp.ret := by
  have hmaps := maps_of_openat hallowed hret h
  have hrecorded : FiledUnder realpath t task.pid resp.ret (pathIn realpath dir name) ↔
      t.maps.pathOf task.pid resp.ret = some (pathIn realpath dir name) :=
    ⟨FiledUnder.recorded, filedUnder_of_recorded⟩
  rw [hrecorded, hmaps, ResolvesAlike]
  split
  · by_cases hslot : w.maps.dirFdMap.HasRoom (pfdKey task.pid resp.ret)
    · have hset := @pathOf_setDirFdData_self task resp.ret
        (storeOpenArgs task ⟨CharArray.probeReadStr nameMax name, 0, flags⟩ w.maps)
        (resolvedPath realpath w task name) hslot
      rw [hset]
      constructor
      · intro heq
        exact ⟨hslot, Option.some.inj heq⟩
      · rintro ⟨-, heq⟩
        rw [heq]
    · have hset := @pathOf_setDirFdData_full task resp.ret
        (storeOpenArgs task ⟨CharArray.probeReadStr nameMax name, 0, flags⟩ w.maps)
        (resolvedPath realpath w task name) hslot
      rw [hset]
      constructor
      · intro heq
        cases heq
      · rintro ⟨hroom, -⟩
        exact absurd hroom hslot
  · exact Iff.rfl

/-- The new descriptor is filed under the path of the name in the directory that
`dirfd` was recorded with before the call. -/
def RespectsDirfd (realpath : List UInt8 → CharArray nameMax) (w t : World FdTables)
    (task : Task) (dirfd : CInt) (name : List UInt8) (fd : CInt) : Prop :=
  ∀ dir, w.maps.pathOf task.pid dirfd = some dir →
    FiledUnder realpath t task.pid fd (pathIn realpath dir name)

/-- An `openat` respects its recorded `dirfd` exactly when the name leads to the
same place from the current directory. -/
theorem respectsDirfd_iff {w t : World FdTables} {task : Task} {dirfd flags : CInt}
    {name : List UInt8} {resp : Response}
    (hallowed : (sysEnterOpenat task dirfd name flags w.maps).2 = none)
    (hret : ¬ resp.ret.toInt < 0)
    (h : complete (fdKernel realpath) w task (.openat dirfd name flags) resp = some t) :
    RespectsDirfd realpath w t task dirfd name resp.ret ↔
      ∀ dir, w.maps.pathOf task.pid dirfd = some dir →
        ResolvesAlike realpath w task dir name resp.ret := by
  constructor
  · intro hrespects dir hdir
    exact (filedUnder_iff dir hallowed hret h).mp (hrespects dir hdir)
  · intro halike dir hdir
    exact (filedUnder_iff dir hallowed hret h).mpr (halike dir hdir)

/-- The firstThread opens the directory `dir` as descriptor 5 and moves to `/a`. -/
def walk (dir : List UInt8) : List Label :=
  [.enter firstThread (.openPath dir 0), .kernel firstThread (.openPath dir 0) ⟨5, []⟩,
    .leave firstThread (.openPath dir 0) 5,
    .enter firstThread (.chdir [47, 97]), .kernel firstThread (.chdir [47, 97]) ⟨0, []⟩,
    .leave firstThread (.chdir [47, 97]) 0]

/-- `openat(5, "x")` with 5 recorded as `/d` is filed under `/a/x`. -/
theorem relative_openat_ignores_dirfd :
    ∃ w t, Reachable (system (fdKernel plainPath) Attached) w ∧
      (sysEnterOpenat firstThread 5 [120] 0 w.maps).2 = none ∧
      complete (fdKernel plainPath) w firstThread (.openat 5 [120] 0) ⟨6, []⟩ = some t ∧
      ¬ RespectsDirfd plainPath w t firstThread 5 [120] 6 := by
  have hrun : (exec (system (fdKernel plainPath) Attached) (loadedWorld ∅)
      (walk [47, 100])).map (fun w =>
        ((sysEnterOpenat firstThread 5 [120] 0 w.maps).2,
          (w.maps.pathOf 1 5).map (pathIn plainPath · [120]),
          (complete (fdKernel plainPath) w firstThread (.openat 5 [120] 0) ⟨6, []⟩).map
            (fun t => t.maps.pathOf 1 6))) =
      some (none, some ⟨plainPath [47, 100, 47, 120]⟩,
        some (some ⟨plainPath [47, 97, 47, 120]⟩)) := by decide +kernel
  obtain ⟨w, hw, hend⟩ := Option.map_eq_some_iff.mp hrun
  simp only [Prod.mk.injEq] at hend
  obtain ⟨hallowed, hdir, hopen⟩ := hend
  obtain ⟨t, ht, hfiled⟩ := Option.map_eq_some_iff.mp hopen
  obtain ⟨dir, hdir, hpath⟩ := Option.map_eq_some_iff.mp hdir
  refine ⟨w, t, Reachable.exec (walk [47, 100]) (.start (attached_loadedWorld ∅)) hw,
    hallowed, ht, ?_⟩
  intro hrespects
  have hrecorded := (hrespects dir hdir).recorded
  rw [hpath] at hrecorded
  have heq := hfiled.symm.trans hrecorded
  revert heq
  decide +kernel

/-- From inside the directory itself the name leads to the right place. -/
theorem respectsDirfd_iff_inside :
    ∃ w t, RespectsDirfd plainPath w t firstThread 5 [120] 6 ∧
      (t.maps.pathOf 1 6).isSome := by
  have hrun : (exec (system (fdKernel plainPath) Attached) (loadedWorld ∅)
      (walk [47, 97])).map (fun w =>
        ((sysEnterOpenat firstThread 5 [120] 0 w.maps).2, w.maps.pathOf 1 5,
          decide (w.maps.openArgsStart.HasRoom firstThread.pidTgid ∧
            w.maps.dirFdMap.HasRoom (pfdKey 1 6)),
          resolvedPath plainPath w firstThread [120],
          (complete (fdKernel plainPath) w firstThread (.openat 5 [120] 0) ⟨6, []⟩).map
            (fun t => (t.maps.pathOf 1 6).isSome))) =
      some (none, some ⟨plainPath [47, 97]⟩, true, ⟨plainPath [47, 97, 47, 120]⟩,
        some true) := by decide +kernel
  obtain ⟨w, hw, hend⟩ := Option.map_eq_some_iff.mp hrun
  simp only [Prod.mk.injEq, decide_eq_true_eq] at hend
  obtain ⟨hallowed, hdir, ⟨hroom, hslot⟩, hresolved, hopen⟩ := hend
  obtain ⟨t, ht, hentry⟩ := Option.map_eq_some_iff.mp hopen
  refine ⟨w, t, (respectsDirfd_iff hallowed (by decide) ht).mpr ?_, hentry⟩
  intro dir hdir'
  have hsame : dir = ⟨plainPath [47, 97]⟩ := Option.some.inj (hdir'.symm.trans hdir)
  rw [ResolvesAlike, if_pos hroom, hsame, hresolved]
  refine ⟨hslot, ?_⟩
  decide +kernel

end BpftimeBenchmark.FsCache
