import BpftimeBenchmark.FsCache.Cache

/-!
Duplicated descriptors. The enter handler of `fcntl` stores the arguments of an
`F_DUPFD` in `fcntl_args_start`, and no handler ever reads them. The exit handler
takes the descriptor from the thread's record in `getdents64_args_start`, and
runs for every command.
-/

namespace BpftimeBenchmark.FsCache

open Transition

variable {σ : Type}

/-- The path the exit handler of `fcntl` finds: that of the descriptor in the
thread's last `getdents64` record. -/
def Maps.listedPath (m : Maps) (task : Task) : Option DirFdData :=
  (m.getdents64ArgsStart.lookup task.pidTgid).bind
    (fun args => m.pathOf task.pid args.fd)

/-- What it files under the descriptor the kernel returned. -/
def Maps.filedFor (m : Maps) (task : Task) (ret : CInt) : Option DirFdData :=
  if m.dirFdMap.HasRoom (pfdKey task.pid ret) then m.listedPath task else none

/-- Only the returned descriptor changes, it gets the path of the duplicated one,
and nothing changes unless the command duplicates. -/
structure DuplicatesOnly (m m' : Maps) (task : Task) (fd cmd ret : CInt) : Prop where
  elsewhere : ∀ key, key ≠ pfdKey task.pid ret →
    m'.dirFdMap.lookup key = m.dirFdMap.lookup key
  copied : cmd = fDupfd → ∀ path, m.pathOf task.pid fd = some path →
    m'.pathOf task.pid ret = some path
  untouched : cmd ≠ fDupfd → ∀ key, m'.dirFdMap.lookup key = m.dirFdMap.lookup key

/-- The record happens to name the path of the duplicated descriptor, or one
the returned descriptor has anyway. -/
def FilesRight (m : Maps) (task : Task) (fd cmd ret : CInt) : Prop :=
  if cmd = fDupfd then
    ∀ path, m.pathOf task.pid fd = some path →
      m.filedFor task ret = some path ∨
        m.filedFor task ret = none ∧ m.pathOf task.pid ret = some path
  else
    ∀ path, m.filedFor task ret = some path → m.pathOf task.pid ret = some path

theorem sysExitFcntl_eq {task : Task} {ret : CInt} {m : Maps} (hret : 0 ≤ ret.toInt) :
    sysExitFcntl task ret m =
      match m.listedPath task with
      | some path => setDirFdData task ret path m
      | none => m := by
  have hnonneg : ¬ ret.toInt < 0 := by omega
  simp only [sysExitFcntl, hnonneg, if_false, Maps.listedPath]
  cases hargs : m.getdents64ArgsStart.lookup task.pidTgid with
  | none => simp
  | some args =>
      cases hpath : m.pathOf task.pid args.fd <;> simp [getDirFdData_eq, hpath]

/-- What a complete `fcntl` leaves in `dir_fd_map`. -/
theorem lookup_sysExitFcntl {task : Task} {ret : CInt} {m : Maps}
    (hret : 0 ≤ ret.toInt) (key : U64) :
    (sysExitFcntl task ret m).dirFdMap.lookup key =
      if key = pfdKey task.pid ret then
        (m.filedFor task ret).or (m.dirFdMap.lookup key)
      else m.dirFdMap.lookup key := by
  rw [sysExitFcntl_eq hret]
  by_cases hkey : key = pfdKey task.pid ret
  · subst hkey
    by_cases hroom : m.dirFdMap.HasRoom (pfdKey task.pid ret)
    · cases hlisted : m.listedPath task with
      | none => simp [Maps.filedFor, hroom, hlisted]
      | some path =>
          simp only [Maps.filedFor, hroom, hlisted, if_true, Option.some_or]
          rw [setDirFdData_eq]
          exact BoundedMap.lookup_update_self path hroom
    · cases hlisted : m.listedPath task with
      | none => simp [Maps.filedFor, hroom]
      | some path =>
          simp only [Maps.filedFor, hroom, if_false, if_true, Option.none_or]
          rw [setDirFdData_eq, BoundedMap.update_of_full path hroom]
  · rw [if_neg hkey]
    cases m.listedPath task with
    | none => rfl
    | some path =>
        simp only [setDirFdData_eq]
        exact BoundedMap.lookup_update_ne path hkey

/-- The enter handler of `fcntl` changes nothing that its exit handler reads. -/
theorem complete_fcntl {K : Kernel σ} {w t : World σ} {task : Task} {fd cmd : CInt}
    {resp : Response} (h : complete K w task (.fcntl fd cmd) resp = some t) :
    ∃ m, m.dirFdMap = w.maps.dirFdMap ∧
      m.getdents64ArgsStart = w.maps.getdents64ArgsStart ∧
      t.maps = sysExitFcntl task resp.ret m := by
  obtain ⟨-, -, ⟨ret, hover, -⟩ | ⟨-, -, hmaps⟩⟩ := complete_cases h
  · cases hover
  · refine ⟨sysEnterFcntl task fd cmd w.maps, ?_, ?_, hmaps⟩ <;>
      · unfold sysEnterFcntl
        split <;> rfl

/-- A complete successful `fcntl` files its result under the path of the thread's
last `getdents64` record. -/
theorem lookup_complete_fcntl {K : Kernel σ} {w t : World σ} {task : Task}
    {fd cmd : CInt} {resp : Response}
    (h : complete K w task (.fcntl fd cmd) resp = some t)
    (hret : 0 ≤ resp.ret.toInt) (key : U64) :
    t.maps.dirFdMap.lookup key =
      if key = pfdKey task.pid resp.ret then
        (w.maps.filedFor task resp.ret).or (w.maps.dirFdMap.lookup key)
      else w.maps.dirFdMap.lookup key := by
  obtain ⟨m, hdirs, hargs, hmaps⟩ := complete_fcntl h
  have hfiled : m.filedFor task resp.ret = w.maps.filedFor task resp.ret := by
    simp only [Maps.filedFor, Maps.listedPath, Maps.pathOf, hdirs, hargs]
  rw [hmaps, lookup_sysExitFcntl hret, hfiled, hdirs]

/-- A complete successful `fcntl` tracks the duplicate, and nothing else, exactly
if the thread's last `getdents64` record makes it. -/
theorem duplicatesOnly_iff {K : Kernel σ} {w t : World σ} {task : Task}
    {fd cmd : CInt} {resp : Response}
    (h : complete K w task (.fcntl fd cmd) resp = some t)
    (hret : 0 ≤ resp.ret.toInt) :
    DuplicatesOnly w.maps t.maps task fd cmd resp.ret ↔
      FilesRight w.maps task fd cmd resp.ret := by
  have hlookup := lookup_complete_fcntl h hret
  have hafter : t.maps.pathOf task.pid resp.ret =
      (w.maps.filedFor task resp.ret).or (w.maps.pathOf task.pid resp.ret) := by
    rw [Maps.pathOf, hlookup, if_pos rfl]
    rfl
  unfold FilesRight
  split
  · rename_i hcmd
    constructor
    · intro hright path hpath
      have hcopied := hright.copied hcmd path hpath
      rw [hafter] at hcopied
      exact Option.or_eq_some_iff.mp hcopied
    · intro hright
      refine ⟨fun key hkey => by rw [hlookup, if_neg hkey], ?_, ?_⟩
      · intro _ path hpath
        rw [hafter]
        exact Option.or_eq_some_iff.mpr (hright path hpath)
      · intro hother
        exact absurd hcmd hother
  · rename_i hcmd
    constructor
    · intro hright path hpath
      have hsame := hright.untouched hcmd (pfdKey task.pid resp.ret)
      rw [hlookup, if_pos rfl, hpath, Option.some_or] at hsame
      exact hsame.symm
    · intro hright
      refine ⟨fun key hkey => by rw [hlookup, if_neg hkey], ?_, ?_⟩
      · intro hdup
        exact absurd hdup hcmd
      · intro _ key
        rw [hlookup]
        split
        · rename_i hkey
          subst hkey
          cases hfile : w.maps.filedFor task resp.ret with
          | none => rfl
          | some path =>
              rw [Option.some_or]
              exact (hright path hfile).symm
        · rfl

/-- After the first listing: `F_DUPFD` on the listed descriptor, which returns 5,
and `F_GETFD` on it, which returns 1. -/
theorem fcntl_after_listing :
    ∃ w t u, Reachable (system (fdKernel plainPath) Attached) w ∧
      complete (fdKernel plainPath) w firstThread (.fcntl 3 0) ⟨5, []⟩ = some t ∧
      complete (fdKernel plainPath) w firstThread (.fcntl 3 1) ⟨1, []⟩ = some u ∧
      w.maps.pathOf 1 3 = some ⟨plainPath [47, 100]⟩ ∧
      w.maps.filedFor firstThread 5 = some ⟨plainPath [47, 100]⟩ ∧
      w.maps.pathOf 1 1 = none ∧ u.maps.pathOf 1 1 ≠ none := by
  have hrun : (exec (system (fdKernel plainPath) Attached) (loadedWorld ∅)
      (firstListing ++ [.leave firstThread (.getdents64 3 4096 2048) 24])).bind
        (fun w => (complete (fdKernel plainPath) w firstThread (.fcntl 3 0) ⟨5, []⟩).bind
          (fun _ => (complete (fdKernel plainPath) w firstThread (.fcntl 3 1)
            ⟨1, []⟩).map (fun u => decide
              (w.maps.pathOf 1 3 = some ⟨plainPath [47, 100]⟩ ∧
                w.maps.filedFor firstThread 5 = some ⟨plainPath [47, 100]⟩ ∧
                w.maps.pathOf 1 1 = none ∧ u.maps.pathOf 1 1 ≠ none)))) =
      some true := by decide +kernel
  obtain ⟨w, hw, hend⟩ := Option.bind_eq_some_iff.mp hrun
  obtain ⟨t, ht, hend⟩ := Option.bind_eq_some_iff.mp hend
  obtain ⟨u, hu, hend⟩ := Option.map_eq_some_iff.mp hend
  have hreach : Reachable (system (fdKernel plainPath) Attached) w :=
    Reachable.exec _ (.start (attached_loadedWorld ∅)) hw
  exact ⟨w, t, u, hreach, ht, hu, of_decide_eq_true hend⟩

/-- The duplicate of the descriptor listed last is tracked. -/
theorem duplicatesOnly_iff_listed :
    ∃ (w t : World FdTables), (w.maps.pathOf 1 3).isSome ∧
      DuplicatesOnly w.maps t.maps firstThread 3 fDupfd 5 := by
  obtain ⟨w, t, -, -, ht, -, hpath, hfiled, -, -⟩ := fcntl_after_listing
  refine ⟨w, t, by rw [hpath]; rfl, (duplicatesOnly_iff ht (by decide)).mpr ?_⟩
  intro path hsource
  have heq := Option.some.inj (hpath.symm.trans hsource)
  subst heq
  exact Or.inl hfiled

/-- Asking for the flags of a descriptor gives descriptor 1 its path. -/
theorem getfd_recorded_as_duplicate :
    ∃ w t, Reachable (system (fdKernel plainPath) Attached) w ∧
      complete (fdKernel plainPath) w firstThread (.fcntl 3 1) ⟨1, []⟩ = some t ∧
      ¬ DuplicatesOnly w.maps t.maps firstThread 3 1 1 := by
  obtain ⟨w, -, u, hreach, -, hu, -, -, hbefore, hafter⟩ := fcntl_after_listing
  refine ⟨w, u, hreach, hu, ?_⟩
  intro hright
  exact hafter ((hright.untouched (by decide) _).trans hbefore)

end BpftimeBenchmark.FsCache
