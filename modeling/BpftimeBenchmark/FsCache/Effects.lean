import BpftimeBenchmark.FsCache.Descriptors

/-!
What a handler can do to the maps, said once. Every handler changes at most one
of the six maps, and at most one key of it.
-/

namespace BpftimeBenchmark.FsCache

open Transition

variable {σ : Type}

/-- Everything an enter handler can do to the maps. -/
inductive EnterEffect (task : Task) (m : Maps) : Syscall → Maps → Prop where
  | same {call : Syscall} : EnterEffect task m call m
  | opened {call : Syscall} {args : OpenArgs} (hopens : call.opens = true) :
      EnterEffect task m call (storeOpenArgs task args m)
  | closed {fd : CInt} : EnterEffect task m (.close fd) (clearDirDataFd task fd m)
  | duplicates {fd cmd : CInt} : EnterEffect task m (.fcntl fd cmd)
      { m with fcntlArgsStart := m.fcntlArgsStart.update task.pidTgid ⟨fd, cmd⟩ }
  | marked {fd : CInt} {dirp : Nat} {count : U32} {path : DirFdData}
      {buf : Getdents64Buffer} (id : U64)
      (hpath : m.pathOf task.pid fd = some path)
      (hbuf : m.getdents64CacheMap.lookup path = some buf) :
      EnterEffect task m (.getdents64 fd dirp count)
        (m.cachePut path { buf with lastPidTgid := id })
  | missed {fd : CInt} {dirp : Nat} {count : U32} {path : DirFdData}
      (hpath : m.pathOf task.pid fd = some path)
      (habsent : m.getdents64CacheMap.lookup path = none) :
      EnterEffect task m (.getdents64 fd dirp count)
        (storeGetdentsArgs task ⟨fd, dirp, count⟩ m)

theorem enterHandler_effect (task : Task) (call : Syscall) (m : Maps) (mem : Memory) :
    EnterEffect task m call (enterHandler task call m mem).1 := by
  cases call with
  | openPath name flags =>
      simp only [enterHandler, sysEnterOpen_eq]
      split
      · exact .same
      · exact .opened rfl
  | openat dirfd name flags =>
      simp only [enterHandler, sysEnterOpenat_eq]
      split
      · exact .same
      · exact .opened rfl
  | close fd => exact .closed
  | fcntl fd cmd =>
      simp only [enterHandler, sysEnterFcntl]
      split
      · exact .same
      · exact .duplicates
  | getdents64 fd dirp count =>
      simp only [enterHandler]
      rcases sysEnterGetdents64_cases task fd dirp count m mem with
        ⟨-, henter⟩ | ⟨path, buf, hpath, hbuf, -, henter⟩ |
        ⟨path, buf, hpath, hbuf, -, henter⟩ | ⟨path, hpath, habsent, henter⟩
      · rw [henter]
        exact .same
      · rw [henter]
        exact .marked 0 hpath hbuf
      · rw [henter]
        exact .marked task.pidTgid hpath hbuf
      · rw [henter]
        exact .missed hpath habsent
  | chdir dir => exact .same

/-- The calls whose exit handler records a descriptor. -/
def Syscall.records : Syscall → Bool
  | .openPath _ _ => true
  | .openat _ _ _ => true
  | .fcntl _ _ => true
  | _ => false

/-- Everything an exit handler can do to the maps. -/
inductive ExitEffect (task : Task) (ret : CInt) (m : Maps) (mem : Memory) :
    Syscall → Maps → Prop where
  | same {call : Syscall} : ExitEffect task ret m mem call m
  | recorded {call : Syscall} (data : DirFdData) (hrecords : call.records = true)
      (hret : ¬ ret.toInt < 0) :
      ExitEffect task ret m mem call (setDirFdData task ret data m)
  | filled {fd : CInt} {dirp : Nat} {count : U32} {args : GetdentsArgs}
      {path : DirFdData} (hret : 0 ≤ ret.toInt)
      (hargs : m.getdents64ArgsStart.lookup task.pidTgid = some args)
      (hpath : m.pathOf task.pid args.fd = some path)
      (habsent : m.getdents64CacheMap.lookup path = none)
      (hroom : m.getdents64CacheMap.HasRoom path) :
      ExitEffect task ret m mem (.getdents64 fd dirp count)
        (m.cachePut path ⟨ret, task.pidTgid,
          CharArray.probeRead dentsBufSize mem args.dirp⟩)

theorem traceExit_effect {getAbsPath : List UInt8 → CharArray nameMax} {task : Task}
    {call : Syscall} {ret : CInt} {m : Maps} {mem : Memory}
    (hrecords : call.records = true) :
    ExitEffect task ret m mem call (traceExit getAbsPath task ret m) := by
  unfold traceExit
  split
  · exact .same
  · split
    · exact .same
    · rename_i hret
      exact .recorded _ hrecords hret

theorem exitHandler_effect (getAbsPath : List UInt8 → CharArray nameMax) (task : Task)
    (call : Syscall) (ret : CInt) (m : Maps) (mem : Memory) :
    ExitEffect task ret m mem call (exitHandler getAbsPath task call ret m mem) := by
  cases call with
  | openPath name flags => exact traceExit_effect rfl
  | openat dirfd name flags => exact traceExit_effect rfl
  | close fd => exact .same
  | fcntl fd cmd =>
      simp only [exitHandler, sysExitFcntl]
      split
      · exact .same
      · rename_i hret
        split
        · exact .same
        · split
          · exact .same
          · exact .recorded _ rfl hret
  | getdents64 fd dirp count =>
      simp only [exitHandler]
      rcases sysExitGetdents64_eq task ret m mem with
        hsame | ⟨args, path, hret, hargs, hpath, habsent, hroom, hfill⟩
      · rw [hsame]
        exact .same
      · rw [hfill]
        exact .filled hret hargs hpath habsent hroom
  | chdir dir => exact .same

@[simp] theorem cache_setDirFdData (task : Task) (fd : U32) (data : DirFdData)
    (m : Maps) :
    (setDirFdData task fd data m).getdents64CacheMap = m.getdents64CacheMap := by
  rw [setDirFdData_eq]

@[simp] theorem openArgs_setDirFdData (task : Task) (fd : U32) (data : DirFdData)
    (m : Maps) : (setDirFdData task fd data m).openArgsStart = m.openArgsStart := by
  rw [setDirFdData_eq]

@[simp] theorem getdentsArgs_setDirFdData (task : Task) (fd : U32) (data : DirFdData)
    (m : Maps) :
    (setDirFdData task fd data m).getdents64ArgsStart = m.getdents64ArgsStart := by
  rw [setDirFdData_eq]

/-- A call other than `getdents64` touches neither its records nor the cache. -/
theorem enterHandler_other {call : Syscall} (task : Task) (m : Maps) (mem : Memory)
    (hcall : ∀ fd dirp count, call ≠ .getdents64 fd dirp count) :
    (enterHandler task call m mem).1.getdents64ArgsStart = m.getdents64ArgsStart ∧
      (enterHandler task call m mem).1.getdents64CacheMap = m.getdents64CacheMap := by
  have heffect := enterHandler_effect task call m mem
  generalize (enterHandler task call m mem).1 = m' at heffect ⊢
  cases heffect with
  | marked id hpath hbuf => exact absurd rfl (hcall _ _ _)
  | missed hpath habsent => exact absurd rfl (hcall _ _ _)
  | _ => exact ⟨rfl, rfl⟩

theorem exitHandler_other {call : Syscall}
    (getAbsPath : List UInt8 → CharArray nameMax) (task : Task) (ret : CInt) (m : Maps)
    (mem : Memory) (hcall : ∀ fd dirp count, call ≠ .getdents64 fd dirp count) :
    (exitHandler getAbsPath task call ret m mem).getdents64ArgsStart =
        m.getdents64ArgsStart ∧
      (exitHandler getAbsPath task call ret m mem).getdents64CacheMap =
        m.getdents64CacheMap := by
  have heffect := exitHandler_effect getAbsPath task call ret m mem
  generalize exitHandler getAbsPath task call ret m mem = m' at heffect ⊢
  cases heffect with
  | same => exact ⟨rfl, rfl⟩
  | recorded data hrecords hret => simp
  | filled hret hargs hpath habsent hroom => exact absurd rfl (hcall _ _ _)

/-- `getdents64` leaves the tracked paths alone. -/
theorem dirFdMap_enterHandler_getdents64 (task : Task) (fd : CInt) (dirp : Nat)
    (count : U32) (m : Maps) (mem : Memory) :
    (enterHandler task (.getdents64 fd dirp count) m mem).1.dirFdMap = m.dirFdMap := by
  have heffect := enterHandler_effect task (.getdents64 fd dirp count) m mem
  generalize (enterHandler task (.getdents64 fd dirp count) m mem).1 = m' at heffect ⊢
  cases heffect <;> rfl

theorem dirFdMap_exitHandler_getdents64 (getAbsPath : List UInt8 → CharArray nameMax)
    (task : Task) (fd : CInt) (dirp : Nat) (count : U32) (ret : CInt) (m : Maps)
    (mem : Memory) :
    (exitHandler getAbsPath task (.getdents64 fd dirp count) ret m mem).dirFdMap =
      m.dirFdMap := by
  have heffect :=
    exitHandler_effect getAbsPath task (.getdents64 fd dirp count) ret m mem
  generalize exitHandler getAbsPath task (.getdents64 fd dirp count) ret m mem = m'
    at heffect ⊢
  cases heffect with
  | recorded data hrecords hret => cases hrecords
  | _ => rfl

/-- Only `getdents64` is recorded as a reply. -/
theorem replyOf_other {task : Task} {call : Syscall} {ret : CInt} {listed : Option DirFdData}
    {m : Maps} {mem : Memory}
    (hcall : ∀ fd dirp count, call ≠ .getdents64 fd dirp count) :
    replyOf m mem task call ret listed = [] := by
  cases call with
  | getdents64 fd dirp count => exact absurd rfl (hcall fd dirp count)
  | _ => rfl

end BpftimeBenchmark.FsCache
