import Mathlib.Data.BitVec
import BpftimeBenchmark.Lib.BoundedMap
import BpftimeBenchmark.Lib.CString

/-!
The records and the six maps of `fs-cache.bpf.c` and `fs-cache.h`, the packed
`pid`/`fd` key and its three accessors. A C `int` is a 32-bit vector whose sign
is read with `toInt`; an unsigned comparison is the order of `BitVec`.
-/

namespace BpftimeBenchmark.FsCache

abbrev U32 := BitVec 32
abbrev U64 := BitVec 64
abbrev CInt := BitVec 32

abbrev nameMax : Nat := 255
abbrev dentsBufSize : Nat := 2048
abbrev maxEntries : Nat := 10240
def atFdcwd : CInt := BitVec.ofInt 32 (-100)
def fDupfd : CInt := 0

structure DirFdData where
  dirPath : CharArray nameMax
  deriving DecidableEq

structure OpenArgs where
  fname : CharArray nameMax
  fnameLen : CInt
  flags : CInt
  deriving DecidableEq

structure Getdents64Buffer where
  nread : CInt
  lastPidTgid : U64
  buf : CharArray dentsBufSize
  deriving DecidableEq

structure GetdentsArgs where
  fd : CInt
  dirp : Nat
  count : U32
  deriving DecidableEq

structure FcntlArgs where
  fd : CInt
  cmd : CInt
  deriving DecidableEq

def emptyBuf : Getdents64Buffer := ⟨0, 0, CharArray.zeros dentsBufSize⟩

structure Maps where
  dirFdMap : BoundedMap U64 DirFdData maxEntries
  openArgsStart : BoundedMap U64 OpenArgs maxEntries
  openFileFilter : BoundedMap U32 OpenArgs maxEntries
  getdents64CacheMap : BoundedMap DirFdData Getdents64Buffer maxEntries
  getdents64ArgsStart : BoundedMap U64 GetdentsArgs maxEntries
  fcntlArgsStart : BoundedMap U64 FcntlArgs maxEntries

def Maps.empty : Maps := ⟨.empty, .empty, .empty, .empty, .empty, .empty⟩

/-- What the helpers tell a handler about the thread it runs on. -/
structure Task where
  pidTgid : U64
  uid : U32
  gid : U32
  deriving DecidableEq

/-- `bpf_get_current_pid_tgid() >> 32`, kept in a `u32`. -/
def tgid (id : U64) : U32 := (id >>> 32).setWidth 32

def Task.pid (task : Task) : U32 := tgid task.pidTgid

/-- The kernel helper packs the group id above the user id. -/
def bpfGetCurrentUidGid (task : Task) : U64 :=
  task.gid.setWidth 64 <<< 32 ||| task.uid.setWidth 64

/-- The macro widens `fd` from whatever type its user passes, so the caller
states the widened value. -/
def makePfd (pid : U32) (fd : U64) : U64 := pid.setWidth 64 <<< 32 ||| fd

def setDirFdData (task : Task) (fd : U32) (data : DirFdData) (m : Maps) : Maps :=
  if fd < 0 then m
  else
    { m with
      dirFdMap := m.dirFdMap.update (makePfd task.pid (fd.setWidth 64)) data }

def getDirFdData (task : Task) (fd : U32) (m : Maps) : Option DirFdData :=
  if fd < 0 then none
  else m.dirFdMap.lookup (makePfd task.pid (fd.setWidth 64))

def clearDirDataFd (task : Task) (fd : CInt) (m : Maps) : Maps :=
  { m with dirFdMap := m.dirFdMap.delete (makePfd task.pid (fd.signExtend 64)) }

/-- The key under which `setDirFdData` and `getDirFdData` file a descriptor. -/
def pfdKey (pid fd : U32) : U64 := makePfd pid (fd.setWidth 64)

theorem pfdKey_pid (pid fd : U32) : (pfdKey pid fd >>> 32).setWidth 32 = pid := by
  apply BitVec.eq_of_getLsbD_eq
  intro i hi
  simp [pfdKey, makePfd]
  grind

theorem pfdKey_fd (pid fd : U32) : (pfdKey pid fd).setWidth 32 = fd := by
  apply BitVec.eq_of_getLsbD_eq
  intro i hi
  simp [pfdKey, makePfd]

/-- The packed key separates processes and descriptors. -/
theorem pfdKey_inj {pid pid' fd fd' : U32} :
    pfdKey pid fd = pfdKey pid' fd' ↔ pid = pid' ∧ fd = fd' := by
  constructor
  · intro h
    constructor
    · rw [← pfdKey_pid pid fd, h, pfdKey_pid]
    · rw [← pfdKey_fd pid fd, h, pfdKey_fd]
  · rintro ⟨rfl, rfl⟩
    rfl

/-- `close` sign-extends its descriptor: the key is the usual one for a
non-negative `fd`, and has the process half of pid `0xffffffff` otherwise. -/
theorem makePfd_signExtend (pid : U32) (fd : CInt) :
    makePfd pid (fd.signExtend 64) =
      pfdKey (if fd.msb then BitVec.allOnes 32 else pid) fd := by
  apply BitVec.eq_of_getLsbD_eq
  intro i hi
  by_cases hlow : i < 32
  · simp [pfdKey, makePfd, BitVec.getElem_signExtend, hlow, hi]
  · have hhigh : fd.getLsbD i = false := BitVec.getLsbD_of_ge fd i (by omega)
    have hindex : i - 32 < 32 := by omega
    cases hmsb : fd.msb <;>
      simp [pfdKey, makePfd, BitVec.getElem_signExtend, hlow, hi, hhigh, hmsb,
        hindex, -BitVec.reduceAllOnes]

/-- What `getDirFdData` finds for descriptor `fd` of process `pid`. -/
def Maps.pathOf (m : Maps) (pid fd : U32) : Option DirFdData :=
  m.dirFdMap.lookup (pfdKey pid fd)

/-- The test `fd < 0` on an unsigned descriptor is never true. -/
theorem getDirFdData_eq (task : Task) (fd : U32) (m : Maps) :
    getDirFdData task fd m = m.pathOf task.pid fd := by
  simp [getDirFdData, Maps.pathOf, pfdKey]

theorem setDirFdData_eq (task : Task) (fd : U32) (data : DirFdData) (m : Maps) :
    setDirFdData task fd data m =
      { m with dirFdMap := m.dirFdMap.update (pfdKey task.pid fd) data } := by
  simp [setDirFdData, pfdKey]

theorem pathOf_setDirFdData_self {task : Task} {fd : U32} {m : Maps}
    (data : DirFdData) (hroom : m.dirFdMap.HasRoom (pfdKey task.pid fd)) :
    (setDirFdData task fd data m).pathOf task.pid fd = some data := by
  rw [setDirFdData_eq]
  exact BoundedMap.lookup_update_self data hroom

theorem pathOf_setDirFdData_full {task : Task} {fd : U32} {m : Maps}
    (data : DirFdData) (hfull : ¬ m.dirFdMap.HasRoom (pfdKey task.pid fd)) :
    (setDirFdData task fd data m).pathOf task.pid fd = none := by
  rw [setDirFdData_eq, BoundedMap.update_of_full data hfull]
  exact (BoundedMap.not_hasRoom_iff.mp hfull).1

theorem pathOf_setDirFdData_ne {task : Task} {fd pid fd' : U32} {m : Maps}
    (data : DirFdData) (hne : ¬ (pid = task.pid ∧ fd' = fd)) :
    (setDirFdData task fd data m).pathOf pid fd' = m.pathOf pid fd' := by
  rw [setDirFdData_eq]
  exact BoundedMap.lookup_update_ne data (fun h => hne (pfdKey_inj.mp h))

theorem pathOf_clearDirDataFd_self (task : Task) {fd : CInt} (m : Maps)
    (hsign : fd.msb = false) :
    (clearDirDataFd task fd m).pathOf task.pid fd = none := by
  simp only [clearDirDataFd, makePfd_signExtend, hsign]
  exact BoundedMap.lookup_delete_self _ _

/-- Clearing never touches another non-negative descriptor, whatever the sign
of the one that is closed. -/
theorem pathOf_clearDirDataFd_ne (task : Task) {fd : CInt} {pid fd' : U32}
    (m : Maps) (hsign : fd'.msb = false) (hne : ¬ (pid = task.pid ∧ fd' = fd)) :
    (clearDirDataFd task fd m).pathOf pid fd' = m.pathOf pid fd' := by
  simp only [clearDirDataFd, makePfd_signExtend]
  apply BoundedMap.lookup_delete_ne
  intro h
  obtain ⟨hpid, hfd⟩ := pfdKey_inj.mp h
  subst hfd
  rw [hsign] at hpid
  exact hne ⟨hpid, rfl⟩

theorem pathOf_of_clearDirDataFd {task : Task} {fd : CInt} {pid fd' : U32}
    {m : Maps} {data : DirFdData}
    (h : (clearDirDataFd task fd m).pathOf pid fd' = some data) :
    m.pathOf pid fd' = some data :=
  (BoundedMap.lookup_delete_some h).2

end BpftimeBenchmark.FsCache
