import BpftimeBenchmark.FsCache.Descriptors
import BpftimeBenchmark.FsCache.Filter

/-!
The descriptor tracker when syscalls run one after another. As long as the maps
have room for the threads and the descriptors in use, `dir_fd_map` agrees with
the kernel's tables after every call, and the path it holds is the one
`bpftime_get_abs_path` gives for the name passed to the open. That helper
resolves a relative name against the current directory, also for `openat`.
-/

namespace BpftimeBenchmark.FsCache

open Transition

variable {realpath : List UInt8 → CharArray nameMax}

def OpenedAs.path (realpath : List UInt8 → CharArray nameMax) (o : OpenedAs) :
    DirFdData :=
  ⟨absPath realpath o.cwd o.name⟩

/-- The tracker knows exactly the open descriptors, each under the path of the
name it was opened with. -/
def Simulates (realpath : List UInt8 → CharArray nameMax) (w : World FdTables) : Prop :=
  ∀ pid fd, w.maps.pathOf pid fd =
    (w.kernel.files.lookup (pid, fd)).map (OpenedAs.path realpath)

/-- `threads` are the threads that have made a call so far. -/
structure Session where
  world : World FdTables
  threads : Finset U64

structure Call where
  task : Task
  call : Syscall
  resp : Response

def sessionStep (realpath : List UInt8 → CharArray nameMax) (s : Session) (c : Call) :
    Option Session :=
  (complete (fdKernel realpath) s.world c.task c.call c.resp).map
    (fun w => ⟨w, insert c.task.pidTgid s.threads⟩)

def sessionSystem (realpath : List UInt8 → CharArray nameMax) :
    System Session Call where
  start s := Attached s.world ∧ s.world.kernel.files = ∅ ∧ s.threads = ∅
  step := sessionStep realpath

/-- Complete `open`, `openat` and `close` calls (and changes of directory) with
C strings shorter than the arrays, while no map has to refuse an entry. -/
structure InScope (realpath : List UInt8 → CharArray nameMax) (s : Session) (c : Call) :
    Prop where
  call : c.call.opensOrCloses = true ∨ ∃ dir, c.call = .chdir dir
  name : ∀ name ∈ c.call.name, 0 ∉ name ∧ name.length < nameMax
  threads : (insert c.task.pidTgid s.threads).card < maxEntries
  files : ∀ t ∈ sessionStep realpath s c, t.world.kernel.files.keys.card < maxEntries

structure SessionInv (realpath : List UInt8 → CharArray nameMax) (s : Session) :
    Prop where
  simulates : Simulates realpath s.world
  sign : ∀ pid fd, (pid, fd) ∈ s.world.kernel.files → fd.msb = false
  keys : ∀ k data, s.world.maps.dirFdMap.lookup k = some data →
    ∃ pid fd, k = pfdKey pid fd
  records : ∀ id args, s.world.maps.openArgsStart.lookup id = some args →
    id ∈ s.threads

theorem sessionInv_start {s : Session} (h : (sessionSystem realpath).start s) :
    SessionInv realpath s := by
  obtain ⟨hattached, hfiles, -⟩ := h
  constructor
  · intro pid fd
    simp [Maps.pathOf, hattached.dirFdMap, hfiles]
  · intro pid fd hmem
    rw [hfiles] at hmem
    exact absurd hmem Finmap.notMem_empty
  · intro k data hdata
    simp [hattached.dirFdMap] at hdata
  · intro id args hargs
    simp [hattached.openArgsStart] at hargs

/-- The map holds no more entries than descriptors are open. -/
theorem SessionInv.size_le {s : Session} (hi : SessionInv realpath s) :
    s.world.maps.dirFdMap.size ≤ s.world.kernel.files.keys.card := by
  have hkeys : ∀ k data, s.world.maps.dirFdMap.lookup k = some data →
      k ∈ s.world.kernel.files.keys.image (fun p => pfdKey p.1 p.2) := by
    intro k data hdata
    obtain ⟨pid, fd, rfl⟩ := hi.keys k data hdata
    have hlookup : (s.world.kernel.files.lookup (pid, fd)).map (OpenedAs.path realpath) =
        some data := (hi.simulates pid fd).symm.trans hdata
    obtain ⟨o, ho, -⟩ := Option.map_eq_some_iff.mp hlookup
    apply Finset.mem_image.mpr
    exact ⟨(pid, fd), Finmap.mem_keys.mpr (Finmap.mem_of_lookup_eq_some ho), rfl⟩
  exact (BoundedMap.size_le_of_keys hkeys).trans Finset.card_image_le

theorem SessionInv.hasRoom_record {s : Session} (hi : SessionInv realpath s) (id : U64)
    (hthreads : (insert id s.threads).card < maxEntries) :
    s.world.maps.openArgsStart.HasRoom id := by
  apply BoundedMap.hasRoom_of_size_lt
  have hsize : s.world.maps.openArgsStart.size ≤ s.threads.card :=
    BoundedMap.size_le_of_keys hi.records
  have hgrow : s.threads.card ≤ (insert id s.threads).card :=
    Finset.card_le_card (Finset.subset_insert _ _)
  exact lt_of_le_of_lt (hsize.trans hgrow) hthreads

theorem records_storeOpenArgs {task : Task} {args : OpenArgs} {m : Maps}
    {threads : Finset U64}
    (h : ∀ id args, m.openArgsStart.lookup id = some args → id ∈ threads) :
    ∀ id args', (storeOpenArgs task args m).openArgsStart.lookup id = some args' →
      id ∈ insert task.pidTgid threads := by
  intro id args' hargs
  rcases BoundedMap.lookup_update_cases m.openArgsStart task.pidTgid id args with
    hkept | ⟨rfl, -, -⟩
  · exact Finset.mem_insert_of_mem (h id args' (hkept ▸ hargs))
  · exact Finset.mem_insert_self _ _

/-- A call after which the map, the tables and the paths are as before. -/
theorem sessionInv_of_same {s t : Session} (hi : SessionInv realpath s)
    (hmap : t.world.maps.dirFdMap = s.world.maps.dirFdMap)
    (hfiles : t.world.kernel.files = s.world.kernel.files)
    (hrecords : ∀ id args, t.world.maps.openArgsStart.lookup id = some args →
      id ∈ t.threads) : SessionInv realpath t := by
  constructor
  · intro pid fd
    rw [Maps.pathOf, hmap, hfiles]
    exact hi.simulates pid fd
  · rw [hfiles]
    exact hi.sign
  · rw [hmap]
    exact hi.keys
  · exact hrecords

/-- A successful open puts the same path into the map and into the table. -/
theorem simulates_set {k : FdTables} {m : Maps} {task : Task} {ret : CInt}
    {opened : OpenedAs}
    (h : ∀ pid fd, m.pathOf pid fd =
      (k.files.lookup (pid, fd)).map (OpenedAs.path realpath))
    (hroom : m.dirFdMap.HasRoom (pfdKey task.pid ret)) (pid fd : U32) :
    (setDirFdData task ret (opened.path realpath) m).pathOf pid fd =
      ((k.files.insert (task.pid, ret) opened).lookup (pid, fd)).map
        (OpenedAs.path realpath) := by
  by_cases hsame : pid = task.pid ∧ fd = ret
  · obtain ⟨rfl, rfl⟩ := hsame
    rw [pathOf_setDirFdData_self _ hroom, Finmap.lookup_insert]
    rfl
  · have hne : (pid, fd) ≠ (task.pid, ret) := by
      intro heq
      exact hsame ⟨congrArg Prod.fst heq, congrArg Prod.snd heq⟩
    rw [pathOf_setDirFdData_ne _ hsame, Finmap.lookup_insert_of_ne _ hne]
    exact h pid fd

/-- `close` removes the descriptor from both sides. A negative descriptor is in
neither. -/
theorem simulates_clear {k : FdTables} {m : Maps} {task : Task} {fd : CInt}
    (h : ∀ pid fd, m.pathOf pid fd =
      (k.files.lookup (pid, fd)).map (OpenedAs.path realpath))
    (hsign : ∀ pid fd, (pid, fd) ∈ k.files → fd.msb = false) (pid fd' : U32) :
    (clearDirDataFd task fd m).pathOf pid fd' =
      ((k.files.erase (task.pid, fd)).lookup (pid, fd')).map
        (OpenedAs.path realpath) := by
  cases hneg : fd'.msb with
  | true =>
      have hclosed : (pid, fd') ∉ k.files := by
        intro hmem
        rw [hsign pid fd' hmem] at hneg
        cases hneg
      have herased : (pid, fd') ∉ k.files.erase (task.pid, fd) := by
        intro hmem
        exact hclosed (Finmap.mem_erase.mp hmem).2
      rw [Finmap.lookup_eq_none.mpr herased, Option.map_none]
      cases hdata : (clearDirDataFd task fd m).pathOf pid fd' with
      | none => rfl
      | some data =>
          have hold := pathOf_of_clearDirDataFd hdata
          rw [h pid fd', Finmap.lookup_eq_none.mpr hclosed] at hold
          cases hold
  | false =>
      by_cases hsame : pid = task.pid ∧ fd' = fd
      · obtain ⟨rfl, rfl⟩ := hsame
        rw [pathOf_clearDirDataFd_self task m hneg, Finmap.lookup_erase]
        rfl
      · have hne : (pid, fd') ≠ (task.pid, fd) := by
          intro heq
          exact hsame ⟨congrArg Prod.fst heq, congrArg Prod.snd heq⟩
        rw [pathOf_clearDirDataFd_ne task m hneg hsame, Finmap.lookup_erase_ne hne]
        exact h pid fd'

theorem key_of_setDirFdData {m : Maps} {task : Task} {fd : U32}
    {data data' : DirFdData} {k : U64}
    (h : (setDirFdData task fd data m).dirFdMap.lookup k = some data') :
    m.dirFdMap.lookup k = some data' ∨ k = pfdKey task.pid fd := by
  rw [setDirFdData_eq] at h
  rcases BoundedMap.lookup_update_cases m.dirFdMap (pfdKey task.pid fd) k data with
    hkept | ⟨hkey, -, -⟩
  · exact Or.inl (hkept.symm.trans h)
  · exact Or.inr hkey

theorem hasRoom_install {s : Session} {pid : U32} {fd : CInt} {opened : OpenedAs}
    (hi : SessionInv realpath s) (hfresh : (pid, fd) ∉ s.world.kernel.files)
    (hfew : (s.world.kernel.files.insert (pid, fd) opened).keys.card < maxEntries) :
    s.world.maps.dirFdMap.HasRoom (pfdKey pid fd) := by
  apply BoundedMap.hasRoom_of_size_lt
  have hkey : (pid, fd) ∉ s.world.kernel.files.keys := by
    intro h
    exact hfresh (Finmap.mem_keys.mp h)
  rw [BoundedMap.keys_insert, Finset.card_insert_of_notMem hkey] at hfew
  have hsize := hi.size_le
  omega

/-- A recorded open: the descriptor enters the table and the map with one path. -/
theorem sessionInv_record {s : Session} {w : World FdTables} {task : Task} {ret : CInt}
    {args : OpenArgs} {opened : OpenedAs} (hi : SessionInv realpath s)
    (hnonneg : ¬ ret.toInt < 0) (hfresh : (task.pid, ret) ∉ s.world.kernel.files)
    (hfiles : w.kernel.files = s.world.kernel.files.insert (task.pid, ret) opened)
    (hfew : w.kernel.files.keys.card < maxEntries)
    (hmaps : w.maps = setDirFdData task ret (opened.path realpath)
      (storeOpenArgs task args s.world.maps)) :
    SessionInv realpath ⟨w, insert task.pidTgid s.threads⟩ := by
  rw [hfiles] at hfew
  have hslot := hasRoom_install hi hfresh hfew
  have hbefore : ∀ pid fd, (storeOpenArgs task args s.world.maps).pathOf pid fd =
      (s.world.kernel.files.lookup (pid, fd)).map (OpenedAs.path realpath) :=
    hi.simulates
  constructor
  · intro pid fd
    rw [hmaps, hfiles]
    exact simulates_set hbefore hslot pid fd
  · intro pid fd hmem
    rw [hfiles] at hmem
    rcases Finmap.mem_insert.mp hmem with heq | hold
    · cases heq
      exact msb_false_iff.mpr hnonneg
    · exact hi.sign pid fd hold
  · intro k data hlookup
    rw [hmaps] at hlookup
    rcases key_of_setDirFdData hlookup with hold | hkey
    · exact hi.keys k data hold
    · exact ⟨_, _, hkey⟩
  · rw [hmaps, setDirFdData_eq]
    exact records_storeOpenArgs hi.records

theorem sessionInv_open {s t : Session} {c : Call} {name : List UInt8}
    (hi : SessionInv realpath s) (hscope : InScope realpath s c)
    (hname : c.call.name = some name) (hstep : sessionStep realpath s c = some t) :
    SessionInv realpath t := by
  have hfew := hscope.files t hstep
  obtain ⟨w, hw, rfl⟩ := Option.map_eq_some_iff.mp hstep
  obtain ⟨-, -, hcase⟩ := complete_cases hw
  obtain ⟨hnul, hlen⟩ := hscope.name name hname
  have hroom := hi.hasRoom_record c.task.pidTgid hscope.threads
  rcases @enterHandler_name c.task c.call s.world.maps (s.world.mem c.task.pid) name
      hname with ⟨hover, hmaps⟩ | ⟨hover, flags, hmaps⟩
  · rw [hover] at hcase
    rcases hcase with ⟨ret, -, hkernel, hafter⟩ | ⟨hnone, -⟩
    · rw [hmaps] at hafter
      refine sessionInv_of_same hi (by rw [hafter]) (by rw [hkernel]) ?_
      intro id args h
      rw [hafter] at h
      exact Finset.mem_insert_of_mem (hi.records id args h)
    · cases hnone
  rw [hover] at hcase
  rcases hcase with ⟨ret, hsome, -⟩ | ⟨-, hexec, hafter⟩
  · cases hsome
  have hopens : c.call.opens = true := by
    rw [Syscall.opens, hname]
    rfl
  have hcopy : (CharArray.probeReadStr nameMax name).cstr = name :=
    CharArray.cstr_probeReadStr hnul hlen
  rw [exitHandler_opens hopens, hmaps, traceExit_store hroom, hcopy] at hafter
  have hrecords := @records_storeOpenArgs c.task
    ⟨CharArray.probeReadStr nameMax name, 0, flags⟩ _ _ hi.records
  have hinstall : s.world.kernel.install c.task.pid c.resp.ret
      ⟨s.world.kernel.cwd c.task.pid, name⟩ = some w.kernel :=
    (exec_name hname).symm.trans hexec
  rcases install_cases hinstall with ⟨hneg, hkernel⟩ | ⟨hnonneg, hfresh, hkernel⟩
  · rw [if_pos hneg] at hafter
    refine sessionInv_of_same hi (by rw [hafter]; rfl) (by rw [hkernel]) ?_
    rw [hafter]
    exact hrecords
  rw [if_neg hnonneg] at hafter
  -- The name is resolved in the directory the kernel had when it opened.
  have hcwd : w.kernel.cwd = s.world.kernel.cwd := by rw [hkernel]
  have hdata : (⟨(fdKernel realpath).getAbsPath w.kernel c.task.pid name⟩ : DirFdData) =
      OpenedAs.path realpath ⟨s.world.kernel.cwd c.task.pid, name⟩ := by
    rw [← hcwd]
    rfl
  rw [hdata] at hafter
  exact sessionInv_record hi hnonneg hfresh (by rw [hkernel]) hfew hafter

theorem sessionInv_close {s t : Session} {c : Call} {fd : CInt}
    (hi : SessionInv realpath s) (hcall : c.call = .close fd)
    (hstep : sessionStep realpath s c = some t) : SessionInv realpath t := by
  obtain ⟨w, hw, rfl⟩ := Option.map_eq_some_iff.mp hstep
  obtain ⟨-, -, hcase⟩ := complete_cases hw
  rw [hcall] at hcase
  rcases hcase with ⟨ret, hover, -⟩ | ⟨-, hexec, hafter⟩
  · cases hover
  have hmaps : w.maps = clearDirDataFd c.task fd s.world.maps := hafter
  obtain ⟨hfiles, -⟩ := exec_close hexec
  constructor
  · intro pid fd'
    rw [hmaps, hfiles]
    exact simulates_clear hi.simulates hi.sign pid fd'
  · intro pid fd' hmem
    rw [hfiles] at hmem
    exact hi.sign pid fd' (Finmap.mem_erase.mp hmem).2
  · intro k data hlookup
    rw [hmaps] at hlookup
    exact hi.keys k data (BoundedMap.lookup_delete_some hlookup).2
  · intro id args h
    rw [hmaps] at h
    exact Finset.mem_insert_of_mem (hi.records id args h)

theorem exec_chdir {k k' : FdTables} {task : Task} {dir : List UInt8}
    {resp : Response} (h : fdExec k task (.chdir dir) resp = some k') :
    k'.files = k.files := by
  simp only [fdExec] at h
  split at h
  · cases h
    rfl
  · split at h
    · cases h
      rfl
    · cases h

theorem sessionInv_chdir {s t : Session} {c : Call} {dir : List UInt8}
    (hi : SessionInv realpath s) (hcall : c.call = .chdir dir)
    (hstep : sessionStep realpath s c = some t) : SessionInv realpath t := by
  obtain ⟨w, hw, rfl⟩ := Option.map_eq_some_iff.mp hstep
  obtain ⟨-, -, hcase⟩ := complete_cases hw
  rw [hcall] at hcase
  rcases hcase with ⟨ret, hover, -⟩ | ⟨-, hexec, hafter⟩
  · cases hover
  have hmaps : w.maps = s.world.maps := hafter
  refine sessionInv_of_same hi (by rw [hmaps]) (exec_chdir hexec) ?_
  intro id args h
  rw [hmaps] at h
  exact Finset.mem_insert_of_mem (hi.records id args h)

theorem sessionInv_step {s t : Session} {c : Call} (hi : SessionInv realpath s)
    (hscope : InScope realpath s c) (hstep : sessionStep realpath s c = some t) :
    SessionInv realpath t := by
  rcases hscope.call with hcall | ⟨dir, hcall⟩
  · rcases opens_or_close hcall with hopens | ⟨fd, hclose⟩
    · obtain ⟨name, hname⟩ := Option.isSome_iff_exists.mp hopens
      exact sessionInv_open hi hscope hname hstep
    · exact sessionInv_close hi hclose hstep
  · exact sessionInv_chdir hi hcall hstep

/-- After every call the tracker and the kernel's tables agree. -/
theorem simulates_of_session {s : Session}
    (h : RunsUnder (sessionSystem realpath) (InScope realpath) s) :
    Simulates realpath s.world := by
  have hi : SessionInv realpath s := h.invariant
    (fun _ hstart => sessionInv_start hstart)
    (fun _ _ _ hi hscope hstep => sessionInv_step hi hscope hstep)
  exact hi.simulates

instance Syscall.decidableChdir : ∀ call : Syscall, Decidable (∃ dir, call = .chdir dir)
  | .chdir dir => isTrue ⟨dir, rfl⟩
  | .openPath _ _ | .openat _ _ _ | .close _ | .fcntl _ _ | .getdents64 _ _ _ =>
      isFalse (fun ⟨_, h⟩ => by cases h)

instance InScope.decidable (s : Session) (c : Call) : Decidable (InScope realpath s c) :=
  decidable_of_iff
    ((c.call.opensOrCloses = true ∨ ∃ dir, c.call = .chdir dir) ∧
      (∀ name ∈ c.call.name, 0 ∉ name ∧ name.length < nameMax) ∧
      (insert c.task.pidTgid s.threads).card < maxEntries ∧
      ∀ t ∈ sessionStep realpath s c, t.world.kernel.files.keys.card < maxEntries)
    ⟨fun ⟨hcall, hname, hthreads, hfiles⟩ => ⟨hcall, hname, hthreads, hfiles⟩,
      fun h => ⟨h.call, h.name, h.threads, h.files⟩⟩

/-- Two processes open `tmp`, each as its descriptor 3. The second is refused a
blacklisted name and the first one that does not exist. The first changes its
directory, closes 3 and opens `tmp` again. -/
def reopening : List Call :=
  [⟨firstThread, .openat 7 [116, 109, 112] 0, ⟨3, []⟩⟩,
    ⟨rootThread, .openPath archPath 0, ⟨0, []⟩⟩,
    ⟨secondThread, .openPath [110] 0, ⟨-2, []⟩⟩,
    ⟨rootThread, .openPath [116, 109, 112] 0, ⟨3, []⟩⟩,
    ⟨secondThread, .chdir [47, 97], ⟨0, []⟩⟩,
    ⟨secondThread, .close 3, ⟨0, []⟩⟩,
    ⟨firstThread, .openPath [116, 109, 112] 0, ⟨3, []⟩⟩]

theorem simulates_of_session_reopening :
    ∃ s : Session,
      exec (sessionSystem plainPath) ⟨loadedWorld ∅, ∅⟩ reopening = some s ∧
      s.world.kernel.files.keys = {(1, 3), (2, 3)} ∧
      s.world.maps.pathOf 1 3 = some (OpenedAs.path plainPath ⟨[47, 97], [116, 109, 112]⟩) ∧
      Simulates plainPath s.world := by
  have hrun : (exec (sessionSystem plainPath) ⟨loadedWorld ∅, ∅⟩ reopening).map
      (fun s => (s.world.kernel.files.keys, s.world.maps.pathOf 1 3)) =
      some ({(1, 3), (2, 3)},
        some (OpenedAs.path plainPath ⟨[47, 97], [116, 109, 112]⟩)) := by decide +kernel
  obtain ⟨s, hs, hend⟩ := Option.map_eq_some_iff.mp hrun
  obtain ⟨hfiles, hpath⟩ := Prod.mk.inj hend
  have halong : Along (sessionSystem plainPath) (InScope plainPath) ⟨loadedWorld ∅, ∅⟩
      reopening := by decide +kernel
  have hstart : (sessionSystem plainPath).start ⟨loadedWorld ∅, ∅⟩ :=
    ⟨attached_loadedWorld ∅, rfl, rfl⟩
  exact ⟨s, hs, hfiles, hpath,
    simulates_of_session (RunsUnder.exec reopening (.start hstart) halong hs)⟩

end BpftimeBenchmark.FsCache
