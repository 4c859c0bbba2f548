import BpftimeBenchmark.FsCache.Maps

/-!
The tracepoint handlers of `fs-cache.bpf.c` as functions on the maps. A handler
that calls `bpf_override_return` yields the overriding value; the syscall then
reaches neither the kernel nor its exit handler. `bpftime_get_abs_path` belongs
to bpftime and is an argument of the exit handlers that call it.
-/

namespace BpftimeBenchmark.FsCache

open CString

/-- The bound handed to `bpf_strncmp`, after its conversion to `__u32`. -/
def OpenArgs.cmpLen (e : OpenArgs) : Nat :=
  if e.fnameLen.toInt > nameMax then nameMax else e.fnameLen.toNat

/-- `bpf_strncmp(e->fname, cmpLen, s) == 0`. A negative `fname_len` lets the
comparison run to the first NUL; past the array lies the zero padding of the
map value. -/
def OpenArgs.denies (e : OpenArgs) (s : List UInt8) : Bool :=
  strncmp e.fname.bytes s e.cmpLen = 0

/-- The variable the source calls `uid`. -/
def filterKey (task : Task) : U32 :=
  (bpfGetCurrentUidGid task >>> 32).setWidth 32

def storeOpenArgs (task : Task) (args : OpenArgs) (m : Maps) : Maps :=
  { m with openArgsStart := m.openArgsStart.update task.pidTgid args }

def sysEnterOpen (task : Task) (name : List UInt8) (flags : CInt) (m : Maps) :
    Maps × Option CInt :=
  let uid := filterKey task
  let args : OpenArgs := ⟨CharArray.probeReadStr nameMax name, 0, flags⟩
  match m.openFileFilter.lookup uid with
  | some uidOpenData =>
      if uidOpenData.denies name then (m, some (-1))
      else (storeOpenArgs task args m, none)
  | none => (storeOpenArgs task args m, none)

/-- The filter test compares the bounded copy. An unrecorded `dirfd` returns
before the test. -/
def sysEnterOpenat (task : Task) (fd : CInt) (name : List UInt8) (flags : CInt)
    (m : Maps) : Maps × Option CInt :=
  let args : OpenArgs := ⟨CharArray.probeReadStr nameMax name, 0, flags⟩
  if fd ≠ atFdcwd ∧ getDirFdData task fd m = none then
    (storeOpenArgs task args m, none)
  else
    let uid := filterKey task
    match m.openFileFilter.lookup uid with
    | some uidOpenData =>
        if uidOpenData.denies args.fname.bytes then (m, some (-1))
        else (storeOpenArgs task args m, none)
    | none => (storeOpenArgs task args m, none)

/-- `sys_exit_open` and `sys_exit_openat`. -/
def traceExit (getAbsPath : List UInt8 → CharArray nameMax) (task : Task)
    (ret : CInt) (m : Maps) : Maps :=
  match m.openArgsStart.lookup task.pidTgid with
  | none => m
  | some ap =>
      if ret.toInt < 0 then m
      else setDirFdData task ret ⟨getAbsPath ap.fname.cstr⟩ m

def sysEnterClose (task : Task) (fd : CInt) (m : Maps) : Maps :=
  clearDirDataFd task fd m

def Maps.cachePut (m : Maps) (key : DirFdData) (buf : Getdents64Buffer) : Maps :=
  { m with getdents64CacheMap := m.getdents64CacheMap.update key buf }

def storeGetdentsArgs (task : Task) (args : GetdentsArgs) (m : Maps) : Maps :=
  { m with getdents64ArgsStart := m.getdents64ArgsStart.update task.pidTgid args }

/-- `DENTS_BUF_SIZE > count ? count : DENTS_BUF_SIZE`. -/
def servedLen (count : U32) : Nat :=
  if dentsBufSize > count.toNat then count.toNat else dentsBufSize

def sysEnterGetdents64 (task : Task) (fd : CInt) (dirp : Nat) (count : U32)
    (m : Maps) (mem : Memory) : Maps × Memory × Option CInt :=
  match getDirFdData task fd m with
  | none => (m, mem, none)
  | some dirData =>
      match m.getdents64CacheMap.lookup dirData with
      | some buf =>
          if task.pidTgid = buf.lastPidTgid then
            (m.cachePut dirData { buf with lastPidTgid := 0 }, mem, some 0)
          else
            (m.cachePut dirData { buf with lastPidTgid := task.pidTgid },
              mem.write dirp (buf.buf.bytes.take (servedLen count)),
              some buf.nread)
      | none =>
          (storeGetdentsArgs task ⟨fd, dirp, count⟩ m, mem, none)

def sysExitGetdents64 (task : Task) (ret : CInt) (m : Maps) (mem : Memory) : Maps :=
  if ret.toInt < 0 then m
  else
    match m.getdents64ArgsStart.lookup task.pidTgid with
    | none => m
    | some args =>
        match getDirFdData task args.fd m with
        | none => m
        | some dirData =>
            match m.getdents64CacheMap.lookup dirData with
            | some _ => m
            | none =>
                let m' := m.cachePut dirData emptyBuf
                match m'.getdents64CacheMap.lookup dirData with
                | none => m'
                | some _ =>
                    m'.cachePut dirData
                      { nread := ret
                        lastPidTgid := task.pidTgid
                        buf := CharArray.probeRead dentsBufSize mem args.dirp }

def sysEnterFcntl (task : Task) (fd cmd : CInt) (m : Maps) : Maps :=
  if cmd ≠ fDupfd then m
  else
    { m with fcntlArgsStart := m.fcntlArgsStart.update task.pidTgid ⟨fd, cmd⟩ }

/-- The lookup goes to `getdents64_args_start`, not to `fcntl_args_start`. -/
def sysExitFcntl (task : Task) (ret : CInt) (m : Maps) : Maps :=
  if ret.toInt < 0 then m
  else
    match m.getdents64ArgsStart.lookup task.pidTgid with
    | none => m
    | some args =>
        match getDirFdData task args.fd m with
        | none => m
        | some dirData => setDirFdData task ret dirData m

/-- The entry `main` of `fs-cache.c` installs, for uid 0. -/
def installedFilter : OpenArgs where
  fname := CharArray.probeReadStr nameMax
    (['f', 'u', 's', 'e', '/', 'd', 'a', 't', 'a', '/', 'a', 'r', 'c', 'h', '/'].map
      (fun c => UInt8.ofNat c.toNat))
  fnameLen := 15
  flags := 0

def Maps.loaded : Maps :=
  { Maps.empty with openFileFilter := BoundedMap.empty.update 0 installedFilter }

/-- The verdict of the filter entry stored under `key` on the bytes `s`. -/
def Maps.denied (m : Maps) (key : U32) (s : List UInt8) : Bool :=
  match m.openFileFilter.lookup key with
  | some e => e.denies s
  | none => false

/-- `openat` never consults the filter on these descriptors. -/
def unfiltered (task : Task) (fd : CInt) (m : Maps) : Bool :=
  fd ≠ atFdcwd ∧ getDirFdData task fd m = none

theorem sysEnterOpen_eq (task : Task) (name : List UInt8) (flags : CInt) (m : Maps) :
    sysEnterOpen task name flags m =
      if m.denied (filterKey task) name then (m, some (-1))
      else (storeOpenArgs task ⟨CharArray.probeReadStr nameMax name, 0, flags⟩ m,
        none) := by
  unfold sysEnterOpen Maps.denied
  cases hfilter : m.openFileFilter.lookup (filterKey task) <;> simp [hfilter]

theorem sysEnterOpenat_eq (task : Task) (fd : CInt) (name : List UInt8)
    (flags : CInt) (m : Maps) :
    sysEnterOpenat task fd name flags m =
      if !unfiltered task fd m &&
          m.denied (filterKey task) (CharArray.probeReadStr nameMax name).bytes then
        (m, some (-1))
      else (storeOpenArgs task ⟨CharArray.probeReadStr nameMax name, 0, flags⟩ m,
        none) := by
  unfold sysEnterOpenat
  by_cases hfree : fd ≠ atFdcwd ∧ getDirFdData task fd m = none
  · simp [hfree, unfiltered]
  · rw [if_neg hfree]
    have hchecked : unfiltered task fd m = false := by
      simpa [unfiltered] using hfree
    simp only [hchecked, Maps.denied]
    cases hfilter : m.openFileFilter.lookup (filterKey task) <;> simp

/-- An open whose record is stored ends with the path of its own name under the
returned descriptor, or with nothing changed when the kernel failed. -/
theorem traceExit_store {getAbsPath : List UInt8 → CharArray nameMax} {task : Task}
    {args : OpenArgs} {m : Maps} {ret : CInt}
    (hroom : m.openArgsStart.HasRoom task.pidTgid) :
    traceExit getAbsPath task ret (storeOpenArgs task args m) =
      if ret.toInt < 0 then storeOpenArgs task args m
      else setDirFdData task ret ⟨getAbsPath args.fname.cstr⟩
        (storeOpenArgs task args m) := by
  have hrecord : (storeOpenArgs task args m).openArgsStart.lookup task.pidTgid =
      some args := BoundedMap.lookup_update_self args hroom
  simp only [traceExit, hrecord]

/-- Without a slot for its record an open that returns leaves the maps alone. -/
theorem traceExit_full {getAbsPath : List UInt8 → CharArray nameMax} {task : Task}
    {args : OpenArgs} {m : Maps} {ret : CInt}
    (hfull : ¬ m.openArgsStart.HasRoom task.pidTgid) :
    traceExit getAbsPath task ret (storeOpenArgs task args m) = m := by
  have hkept : storeOpenArgs task args m = m := by
    simp only [storeOpenArgs, BoundedMap.update_of_full _ hfull]
  rw [hkept]
  simp only [traceExit, (BoundedMap.not_hasRoom_iff.mp hfull).1]

theorem cachePut_cachePut (m : Maps) (path : DirFdData) (a b : Getdents64Buffer) :
    (m.cachePut path a).cachePut path b = m.cachePut path b := by
  simp only [Maps.cachePut, BoundedMap.update_update]

theorem lookup_cachePut_new {m : Maps} {path key : DirFdData} {buf : Getdents64Buffer}
    (hold : m.getdents64CacheMap.lookup key = none)
    (hnew : (m.cachePut path buf).getdents64CacheMap.lookup key ≠ none) :
    key = path := by
  rcases BoundedMap.lookup_update_cases m.getdents64CacheMap path key buf with
    hkept | ⟨hkey, -, -⟩
  · exact absurd (hkept.trans hold) hnew
  · exact hkey

section

variable {task : Task} {fd : CInt} {m : Maps} {path : DirFdData}
  {buf : Getdents64Buffer} (dirp : Nat) (count : U32) (mem : Memory)

theorem sysEnterGetdents64_unrecorded (hpath : m.pathOf task.pid fd = none) :
    sysEnterGetdents64 task fd dirp count m mem = (m, mem, none) := by
  simp [sysEnterGetdents64, getDirFdData_eq, hpath]

theorem sysEnterGetdents64_marked (hpath : m.pathOf task.pid fd = some path)
    (hbuf : m.getdents64CacheMap.lookup path = some buf)
    (hlast : task.pidTgid = buf.lastPidTgid) :
    sysEnterGetdents64 task fd dirp count m mem =
      (m.cachePut path { buf with lastPidTgid := 0 }, mem, some 0) := by
  simp [sysEnterGetdents64, getDirFdData_eq, hpath, hbuf, hlast]

theorem sysEnterGetdents64_served (hpath : m.pathOf task.pid fd = some path)
    (hbuf : m.getdents64CacheMap.lookup path = some buf)
    (hlast : task.pidTgid ≠ buf.lastPidTgid) :
    sysEnterGetdents64 task fd dirp count m mem =
      (m.cachePut path { buf with lastPidTgid := task.pidTgid },
        mem.write dirp (buf.buf.bytes.take (servedLen count)), some buf.nread) := by
  simp [sysEnterGetdents64, getDirFdData_eq, hpath, hbuf, hlast]

theorem sysEnterGetdents64_missed (hpath : m.pathOf task.pid fd = some path)
    (habsent : m.getdents64CacheMap.lookup path = none) :
    sysEnterGetdents64 task fd dirp count m mem =
      (storeGetdentsArgs task ⟨fd, dirp, count⟩ m, mem, none) := by
  simp [sysEnterGetdents64, getDirFdData_eq, hpath, habsent]

end

/-- The enter handler of `getdents64` caches nothing new, and lets the call
through only for a descriptor without a path or with an uncached one. -/
theorem sysEnterGetdents64_cases (task : Task) (fd : CInt) (dirp : Nat) (count : U32)
    (m : Maps) (mem : Memory) :
    (m.pathOf task.pid fd = none ∧
      sysEnterGetdents64 task fd dirp count m mem = (m, mem, none)) ∨
    (∃ path buf, m.pathOf task.pid fd = some path ∧
      m.getdents64CacheMap.lookup path = some buf ∧
      task.pidTgid = buf.lastPidTgid ∧
      sysEnterGetdents64 task fd dirp count m mem =
        (m.cachePut path { buf with lastPidTgid := 0 }, mem, some 0)) ∨
    (∃ path buf, m.pathOf task.pid fd = some path ∧
      m.getdents64CacheMap.lookup path = some buf ∧
      task.pidTgid ≠ buf.lastPidTgid ∧
      sysEnterGetdents64 task fd dirp count m mem =
        (m.cachePut path { buf with lastPidTgid := task.pidTgid },
          mem.write dirp (buf.buf.bytes.take (servedLen count)), some buf.nread)) ∨
    (∃ path, m.pathOf task.pid fd = some path ∧
      m.getdents64CacheMap.lookup path = none ∧
      sysEnterGetdents64 task fd dirp count m mem =
        (storeGetdentsArgs task ⟨fd, dirp, count⟩ m, mem, none)) := by
  cases hpath : m.pathOf task.pid fd with
  | none => exact Or.inl ⟨rfl, sysEnterGetdents64_unrecorded dirp count mem hpath⟩
  | some path =>
      cases hcache : m.getdents64CacheMap.lookup path with
      | none =>
          exact Or.inr (Or.inr (Or.inr ⟨path, rfl, hcache,
            sysEnterGetdents64_missed dirp count mem hpath hcache⟩))
      | some buf =>
          by_cases hlast : task.pidTgid = buf.lastPidTgid
          · exact Or.inr (Or.inl ⟨path, buf, rfl, hcache, hlast,
              sysEnterGetdents64_marked dirp count mem hpath hcache hlast⟩)
          · exact Or.inr (Or.inr (Or.inl ⟨path, buf, rfl, hcache, hlast,
              sysEnterGetdents64_served dirp count mem hpath hcache hlast⟩))

theorem sysExitGetdents64_unrecorded {task : Task} {ret : CInt} {m : Maps}
    {mem : Memory} (hargs : m.getdents64ArgsStart.lookup task.pidTgid = none) :
    sysExitGetdents64 task ret m mem = m := by
  simp [sysExitGetdents64, hargs]

theorem sysExitGetdents64_cached {task : Task} {ret : CInt} {m : Maps} {mem : Memory}
    {args : GetdentsArgs} {path : DirFdData} {buf : Getdents64Buffer}
    (hargs : m.getdents64ArgsStart.lookup task.pidTgid = some args)
    (hpath : m.pathOf task.pid args.fd = some path)
    (hbuf : m.getdents64CacheMap.lookup path = some buf) :
    sysExitGetdents64 task ret m mem = m := by
  simp [sysExitGetdents64, hargs, getDirFdData_eq, hpath, hbuf]

theorem sysExitGetdents64_fill {task : Task} {ret : CInt} {m : Maps} (mem : Memory)
    {args : GetdentsArgs} {path : DirFdData} (hret : ¬ ret.toInt < 0)
    (hargs : m.getdents64ArgsStart.lookup task.pidTgid = some args)
    (hpath : m.pathOf task.pid args.fd = some path)
    (habsent : m.getdents64CacheMap.lookup path = none)
    (hroom : m.getdents64CacheMap.HasRoom path) :
    sysExitGetdents64 task ret m mem = m.cachePut path
      ⟨ret, task.pidTgid, CharArray.probeRead dentsBufSize mem args.dirp⟩ := by
  have hfill : (m.cachePut path emptyBuf).getdents64CacheMap.lookup path =
      some emptyBuf := BoundedMap.lookup_update_self _ hroom
  simp [sysExitGetdents64, hret, hargs, getDirFdData_eq, hpath, habsent, hfill,
    cachePut_cachePut]

/-- The fill path in one step: an absent path is cached if the map has room. -/
theorem sysExitGetdents64_eq (task : Task) (ret : CInt) (m : Maps) (mem : Memory) :
    sysExitGetdents64 task ret m mem = m ∨
      ∃ args path,
        0 ≤ ret.toInt ∧
        m.getdents64ArgsStart.lookup task.pidTgid = some args ∧
        m.pathOf task.pid args.fd = some path ∧
        m.getdents64CacheMap.lookup path = none ∧
        m.getdents64CacheMap.HasRoom path ∧
        sysExitGetdents64 task ret m mem = m.cachePut path
          ⟨ret, task.pidTgid, CharArray.probeRead dentsBufSize mem args.dirp⟩ := by
  by_cases hret : ret.toInt < 0
  · exact Or.inl (by simp [sysExitGetdents64, hret])
  cases hargs : m.getdents64ArgsStart.lookup task.pidTgid with
  | none => exact Or.inl (sysExitGetdents64_unrecorded hargs)
  | some args =>
      cases hpath : m.pathOf task.pid args.fd with
      | none =>
          apply Or.inl
          simp [sysExitGetdents64, hargs, getDirFdData_eq, hpath]
      | some path =>
          cases hcache : m.getdents64CacheMap.lookup path with
          | some buf => exact Or.inl (sysExitGetdents64_cached hargs hpath hcache)
          | none =>
              by_cases hroom : m.getdents64CacheMap.HasRoom path
              · refine Or.inr ⟨args, path, by omega, rfl, hpath, hcache, hroom, ?_⟩
                exact sysExitGetdents64_fill mem hret hargs hpath hcache hroom
              · have hkept : m.cachePut path emptyBuf = m := by
                  simp [Maps.cachePut, BoundedMap.update_of_full _ hroom]
                apply Or.inl
                simp [sysExitGetdents64, hargs, getDirFdData_eq, hpath, hcache, hkept]

end BpftimeBenchmark.FsCache
