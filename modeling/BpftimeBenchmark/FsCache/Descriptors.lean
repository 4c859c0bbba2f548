import BpftimeBenchmark.FsCache.System

/-!
The descriptor tracker against the kernel's descriptor tables. The kernel of
this module remembers, for each open descriptor of each process, the name it
was opened with and the directory that name was relative to. A new descriptor
is one that is not open, and `close` releases an open descriptor whatever it
returns.
-/

namespace BpftimeBenchmark.FsCache

open Transition

structure OpenedAs where
  cwd : List UInt8
  name : List UInt8
  deriving DecidableEq

structure FdTables where
  files : Finmap (fun _ : U32 × U32 => OpenedAs)
  cwd : U32 → List UInt8

def slash : UInt8 := 47

/-- `bpftime_get_abs_path`: a relative name is taken from the current directory
of the process, and `realpath` makes the result canonical. -/
def absPath (realpath : List UInt8 → CharArray nameMax) (cwd name : List UInt8) :
    CharArray nameMax :=
  if name.head? = some slash then realpath name else realpath (cwd ++ slash :: name)

/-- A call that may create a descriptor: it fails, or returns a fresh one. -/
def FdTables.install (k : FdTables) (pid : U32) (ret : CInt) (opened : OpenedAs) :
    Option FdTables :=
  if ret.toInt < 0 then some k
  else if (pid, ret) ∈ k.files then none
  else some { k with files := k.files.insert (pid, ret) opened }

def fDupfdCloexec : CInt := 1030

def fdExec (k : FdTables) (task : Task) (call : Syscall) (resp : Response) :
    Option FdTables :=
  match call with
  | .openPath name _ => k.install task.pid resp.ret ⟨k.cwd task.pid, name⟩
  | .openat _ name _ => k.install task.pid resp.ret ⟨k.cwd task.pid, name⟩
  | .close fd =>
      if (task.pid, fd) ∈ k.files then
        some { k with files := k.files.erase (task.pid, fd) }
      else if resp.ret.toInt < 0 then some k
      else none
  | .fcntl fd cmd =>
      if cmd = fDupfd ∨ cmd = fDupfdCloexec then
        match k.files.lookup (task.pid, fd) with
        | some opened => k.install task.pid resp.ret opened
        | none => if resp.ret.toInt < 0 then some k else none
      else some k
  | .getdents64 fd _ count =>
      if resp.ret.toInt < 0 then
        if resp.data = [] then some k else none
      else if (task.pid, fd) ∈ k.files ∧ resp.data.length = resp.ret.toNat ∧
          resp.ret.toNat ≤ count.toNat then some k
      else none
  | .chdir dir =>
      if resp.ret = 0 then
        some { k with cwd := Function.update k.cwd task.pid dir }
      else if resp.ret.toInt < 0 then some k
      else none

def fdKernel (realpath : List UInt8 → CharArray nameMax) : Kernel FdTables where
  exec := fdExec
  getAbsPath k pid name := absPath realpath (k.cwd pid) name

/-- The name a call opens. -/
def Syscall.name : Syscall → Option (List UInt8)
  | .openPath name _ => some name
  | .openat _ name _ => some name
  | _ => none

def Syscall.opens (call : Syscall) : Bool := call.name.isSome

def Syscall.opensOrCloses : Syscall → Bool
  | .openPath _ _ => true
  | .openat _ _ _ => true
  | .close _ => true
  | _ => false

theorem opens_or_close {call : Syscall} (h : call.opensOrCloses = true) :
    call.opens = true ∨ ∃ fd, call = .close fd := by
  cases call with
  | close fd => exact Or.inr ⟨fd, rfl⟩
  | openPath name flags => exact Or.inl rfl
  | openat dirfd name flags => exact Or.inl rfl
  | _ => cases h

theorem msb_false_iff {ret : CInt} : ret.msb = false ↔ ¬ ret.toInt < 0 := by
  rw [BitVec.msb_eq_toInt]
  simp

theorem install_cases {k k' : FdTables} {pid : U32} {ret : CInt} {opened : OpenedAs}
    (h : k.install pid ret opened = some k') :
    (ret.toInt < 0 ∧ k' = k) ∨
      (¬ ret.toInt < 0 ∧ (pid, ret) ∉ k.files ∧
        k' = { k with files := k.files.insert (pid, ret) opened }) := by
  unfold FdTables.install at h
  split at h
  · rename_i hneg
    exact Or.inl ⟨hneg, (Option.some.inj h).symm⟩
  · rename_i hneg
    split at h
    · cases h
    · rename_i hfresh
      exact Or.inr ⟨hneg, hfresh, (Option.some.inj h).symm⟩

theorem exec_name {k : FdTables} {task : Task} {call : Syscall} {resp : Response}
    {name : List UInt8} (hname : call.name = some name) :
    fdExec k task call resp =
      k.install task.pid resp.ret ⟨k.cwd task.pid, name⟩ := by
  cases call <;> cases hname <;> rfl

theorem exec_close {k k' : FdTables} {task : Task} {fd : CInt} {resp : Response}
    (h : fdExec k task (.close fd) resp = some k') :
    k'.files = k.files.erase (task.pid, fd) ∧ k'.cwd = k.cwd := by
  simp only [fdExec] at h
  split at h
  · cases h
    exact ⟨rfl, rfl⟩
  · rename_i hclosed
    split at h
    · cases h
      refine ⟨?_, rfl⟩
      apply Finmap.ext_lookup
      intro x
      by_cases hx : x = (task.pid, fd)
      · subst hx
        rw [Finmap.lookup_erase, Finmap.lookup_eq_none.mpr hclosed]
      · rw [Finmap.lookup_erase_ne hx]
    · cases h

/-- The enter handlers of `open` and `openat` either refuse and change nothing,
or store a copy of the name for the exit handler. -/
theorem enterHandler_name {task : Task} {call : Syscall} {m : Maps} {mem : Memory}
    {name : List UInt8} (hname : call.name = some name) :
    ((enterHandler task call m mem).2.2 = some (-1) ∧
      (enterHandler task call m mem).1 = m) ∨
    ((enterHandler task call m mem).2.2 = none ∧ ∃ flags,
      (enterHandler task call m mem).1 =
        storeOpenArgs task ⟨CharArray.probeReadStr nameMax name, 0, flags⟩ m) := by
  cases call with
  | openPath name' flags =>
      cases hname
      simp only [enterHandler, sysEnterOpen_eq]
      split
      · exact Or.inl ⟨rfl, rfl⟩
      · exact Or.inr ⟨rfl, flags, rfl⟩
  | openat dirfd name' flags =>
      cases hname
      simp only [enterHandler, sysEnterOpenat_eq]
      split
      · exact Or.inl ⟨rfl, rfl⟩
      · exact Or.inr ⟨rfl, flags, rfl⟩
  | _ => cases hname

/-- Opening leaves the tracked paths alone until the exit handler runs. -/
theorem pathOf_enterHandler_opens {task : Task} {call : Syscall} {m : Maps}
    {mem : Memory} (hopens : call.opens = true) (pid fd : U32) :
    (enterHandler task call m mem).1.pathOf pid fd = m.pathOf pid fd := by
  obtain ⟨name, hname⟩ := Option.isSome_iff_exists.mp hopens
  rcases enterHandler_name hname with ⟨-, hmaps⟩ | ⟨-, flags, hmaps⟩ <;> rw [hmaps]
  rfl

theorem exitHandler_opens {getAbsPath : List UInt8 → CharArray nameMax} {task : Task}
    {call : Syscall} {ret : CInt} {m : Maps} {mem : Memory}
    (hopens : call.opens = true) :
    exitHandler getAbsPath task call ret m mem = traceExit getAbsPath task ret m := by
  cases call with
  | openPath name flags => rfl
  | openat dirfd name flags => rfl
  | _ => cases hopens

/-- The exit handler records at most the descriptor that was returned. -/
theorem pathOf_traceExit {getAbsPath : List UInt8 → CharArray nameMax} {task : Task}
    {ret : CInt} {m : Maps} {pid fd : U32} {data : DirFdData}
    (h : (traceExit getAbsPath task ret m).pathOf pid fd = some data) :
    m.pathOf pid fd = some data ∨
      (pid = task.pid ∧ fd = ret ∧ ¬ ret.toInt < 0) := by
  unfold traceExit at h
  split at h
  · exact Or.inl h
  · split at h
    · exact Or.inl h
    · rename_i hret
      by_cases hsame : pid = task.pid ∧ fd = ret
      · exact Or.inr ⟨hsame.1, hsame.2, hret⟩
      · rw [pathOf_setDirFdData_ne _ hsame] at h
        exact Or.inl h

/-- A file system without links and dots: every absolute name is canonical. -/
def plainPath : List UInt8 → CharArray nameMax := CharArray.probeReadStr nameMax

/-- The loader has installed its filter, every process sits in `/` and has the
descriptors `files` open from before. -/
def loadedWorld (files : Finmap (fun _ : U32 × U32 => OpenedAs)) : World FdTables where
  maps := Maps.loaded
  kernel := ⟨files, fun _ => [slash]⟩
  mem _ _ := 0
  phase _ := .idle
  listed _ := none
  replies := []

/-- Two threads of process 1. -/
def firstThread : Task := ⟨0x100000001, 1000, 1000⟩
def secondThread : Task := ⟨0x100000002, 1000, 1000⟩

/-- A thread of process 2 in group 0, for which the loader has stored its filter. -/
def rootThread : Task := ⟨0x200000001, 0, 0⟩

theorem attached_loadedWorld (files : Finmap (fun _ : U32 × U32 => OpenedAs)) :
    Attached (loadedWorld files) :=
  ⟨rfl, rfl, rfl, rfl, rfl, fun _ => rfl, rfl⟩

end BpftimeBenchmark.FsCache
