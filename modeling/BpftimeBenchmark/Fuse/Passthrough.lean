import BpftimeBenchmark.Lib.CString

/-!
`passthrough.c`: a file system that passes each operation on to the directory it
was started with, and refuses access to one directory of the kernel sources. The
operations that take a path build the full path in a buffer of `PATH_MAX` bytes
and do not check its length; three of them compare it with the refused one.
-/

namespace BpftimeBenchmark.Fuse

open CString

def pathMax : Nat := 4096

def eacces : Int := 13

def slash : UInt8 := 47

/-- `/home/yunwei/linux/arch`. -/
def blockedDir : List UInt8 :=
  ['/', 'h', 'o', 'm', 'e', '/', 'y', 'u', 'n', 'w', 'e', 'i', '/', 'l', 'i', 'n', 'u',
    'x', '/', 'a', 'r', 'c', 'h'].map (fun c => UInt8.ofNat c.toNat)

inductive OpType where
  | fullPath
  | getattr
  | readdir
  | open
  | create
  | read
  | write
  | truncate
  | flush
  | release
  | fsync
  deriving DecidableEq

/-- `rootdir` comes from `realpath`, which never yields an empty string. -/
structure PassthroughState where
  rootdir : List UInt8
  rootdir_ne : rootdir ≠ []
  opCounts : OpType → Nat

def incrementOpCount (op : OpType) (state : PassthroughState) : PassthroughState :=
  { state with opCounts := Function.update state.opCounts op (state.opCounts op + 1) }

/-- What `full_path` copies together. -/
def joined (rootdir path : List UInt8) : List UInt8 :=
  let relPath := if byteAt path 0 = slash then path.tail else path
  let fpath := if byteAt rootdir (rootdir.length - 1) ≠ slash then rootdir ++ [slash]
    else rootdir
  fpath ++ relPath

/-- A path that does not fit overruns the buffer, and what happens then is not
defined. -/
def fullPath (path : List UInt8) (state : PassthroughState) :
    Option (PassthroughState × List UInt8) :=
  let state := incrementOpCount .fullPath state
  let fpath := joined state.rootdir path
  if fpath.length < pathMax then some (state, fpath) else none

/-- Calls into the underlying file system. -/
inductive SysCall where
  | lstat (path : List UInt8)
  | opendir (path : List UInt8)
  | readdir
  | closedir
  | open (path : List UInt8) (flags : Int) (mode : Nat)
  | truncate (path : List UInt8) (size : Int)

structure Dirent where
  ino : Nat
  name : List UInt8
  type : Nat

/-- What `readdir` hands to `filler`: a name and a `stat` with two fields set. -/
structure Filled where
  name : List UInt8
  ino : Nat
  mode : Nat

def Dirent.filled (de : Dirent) : Filled := ⟨de.name, de.ino, de.type <<< 12⟩

/-- The underlying file system, with the `errno` of what fails. -/
structure Underlying (Stat : Type) where
  lstat : List UInt8 → Except Int Stat
  opendir : List UInt8 → Except Int (List Dirent)
  «open» : List UInt8 → Int → Nat → Except Int Int
  truncate : List UInt8 → Int → Except Int Unit

/-- What an operation does once it has its path: the calls it makes and what the
decisive one returned. -/
structure Attempt (α : Type) where
  calls : List SysCall
  result : Except Int α

/-- The value FUSE is given, and what the operation has stored for it. -/
structure Outcome (α : Type) where
  state : PassthroughState
  calls : List SysCall
  ret : Int
  out : Option α

def Attempt.outcome {α : Type} (state : PassthroughState) (a : Attempt α) : Outcome α :=
  match a.result with
  | .ok out => ⟨state, a.calls, 0, some out⟩
  | .error errno => ⟨state, a.calls, -errno, none⟩

def blocked (fpath : List UInt8) : Bool := strncmp fpath blockedDir 23 = 0

/-- Every operation on a path counts itself, builds the full path and makes its
calls. Some check the path first. -/
def onPath {α : Type} (op : OpType) (checked : Bool) (path : List UInt8)
    (body : List UInt8 → Attempt α) (state : PassthroughState) : Option (Outcome α) :=
  let state := incrementOpCount op state
  match fullPath path state with
  | none => none
  | some (state, fpath) =>
      if checked && blocked fpath then some ⟨state, [], -eacces, none⟩
      else some ((body fpath).outcome state)

variable {Stat : Type}

def passthroughGetattr (os : Underlying Stat) (path : List UInt8) :
    PassthroughState → Option (Outcome Stat) :=
  onPath .getattr true path (fun fpath => ⟨[.lstat fpath], os.lstat fpath⟩)

/-- The loop of `passthrough_readdir`, until the directory ends or the buffer of
`filler` is full. -/
def fillLoop (filler : List Filled → Filled → Bool) (buf : List Filled) :
    List Dirent → List Filled × List SysCall
  | [] => (buf, [.readdir])
  | de :: rest =>
      if filler buf de.filled then (buf, [.readdir])
      else
        let (buf, calls) := fillLoop filler (buf ++ [de.filled]) rest
        (buf, .readdir :: calls)

def passthroughReaddir (os : Underlying Stat) (path : List UInt8)
    (filler : List Filled → Filled → Bool) :
    PassthroughState → Option (Outcome (List Filled)) :=
  onPath .readdir true path (fun fpath =>
    match os.opendir fpath with
    | .error errno => ⟨[.opendir fpath], .error errno⟩
    | .ok entries =>
        let (buf, reads) := fillLoop filler [] entries
        ⟨.opendir fpath :: reads ++ [.closedir], .ok buf⟩)

def passthroughOpen (os : Underlying Stat) (path : List UInt8) (flags : Int) :
    PassthroughState → Option (Outcome Int) :=
  onPath .open true path (fun fpath => ⟨[.open fpath flags 0], os.open fpath flags 0⟩)

/-- `O_CREAT | O_WRONLY | O_TRUNC`. -/
def createFlags : Int := 0o1101

def passthroughCreate (os : Underlying Stat) (path : List UInt8) (mode : Nat) :
    PassthroughState → Option (Outcome Int) :=
  onPath .create false path (fun fpath =>
    ⟨[.open fpath createFlags mode], os.open fpath createFlags mode⟩)

def passthroughTruncate (os : Underlying Stat) (path : List UInt8) (size : Int) :
    PassthroughState → Option (Outcome Unit) :=
  onPath .truncate false path (fun fpath =>
    ⟨[.truncate fpath size], os.truncate fpath size⟩)

/-- The operations that take a path, with their arguments. -/
inductive Request where
  | getattr (path : List UInt8)
  | readdir (path : List UInt8) (filler : List Filled → Filled → Bool)
  | open (path : List UInt8) (flags : Int)
  | create (path : List UInt8) (mode : Nat)
  | truncate (path : List UInt8) (size : Int)

def Request.path : Request → List UInt8
  | .getattr path | .readdir path _ | .open path _ | .create path _ | .truncate path _ =>
      path

/-- The operations that compare their path with the refused directory. -/
def Request.checks : Request → Bool
  | .getattr _ | .readdir _ _ | .open _ _ => true
  | .create _ _ | .truncate _ _ => false

/-- The return value and the calls of the operation. -/
def perform (os : Underlying Stat) (state : PassthroughState) :
    Request → Option (Int × List SysCall)
  | .getattr path => (passthroughGetattr os path state).map (fun o => (o.ret, o.calls))
  | .readdir path filler =>
      (passthroughReaddir os path filler state).map (fun o => (o.ret, o.calls))
  | .open path flags => (passthroughOpen os path flags state).map (fun o => (o.ret, o.calls))
  | .create path mode =>
      (passthroughCreate os path mode state).map (fun o => (o.ret, o.calls))
  | .truncate path size =>
      (passthroughTruncate os path size state).map (fun o => (o.ret, o.calls))

/-- The refused directory itself and what lies below it. -/
def Below (fpath : List UInt8) : Prop :=
  fpath = blockedDir ∨ blockedDir ++ [slash] <+: fpath

/-- The operation is refused, with no call into the underlying file system, for
what lies in the directory and for nothing else. -/
def BlocksExactly (os : Underlying Stat) (state : PassthroughState) (r : Request) : Prop :=
  ∃ ret calls, perform os state r = some (ret, calls) ∧
    ((ret = -eacces ∧ calls = []) ↔ Below (joined state.rootdir r.path))

/-- The name of something else continues the name of the directory. -/
def Sibling (fpath : List UInt8) : Prop :=
  ∃ c rest, c ≠ slash ∧ fpath = blockedDir ++ c :: rest

theorem blocked_iff (fpath : List UInt8) : blocked fpath ↔ blockedDir <+: fpath := by
  have hlength : blockedDir.length = 23 := rfl
  rw [blocked, decide_eq_true_iff, ← hlength]
  exact strncmp_pattern_iff (by decide)

theorem blocked_iff_below_or_sibling (fpath : List UInt8) :
    blocked fpath ↔ Below fpath ∨ Sibling fpath := by
  rw [blocked_iff]
  constructor
  · rintro ⟨rest, rfl⟩
    cases rest with
    | nil => exact Or.inl (Or.inl (List.append_nil _))
    | cons c rest =>
        by_cases hslash : c = slash
        · exact Or.inl (Or.inr ⟨rest, by rw [hslash, List.append_assoc]; rfl⟩)
        · exact Or.inr ⟨c, rest, hslash, rfl⟩
  · rintro ((rfl | hbelow) | ⟨c, rest, -, rfl⟩)
    · exact List.prefix_refl _
    · exact (List.prefix_append _ _).trans hbelow
    · exact List.prefix_append _ _

theorem not_sibling_of_below {fpath : List UInt8} (h : Below fpath) : ¬ Sibling fpath := by
  rintro ⟨c, rest, hne, rfl⟩
  rcases h with heq | ⟨tail, htail⟩
  · simp at heq
  · rw [List.append_assoc, List.append_cancel_left_eq] at htail
    exact hne (List.cons.inj htail).1.symm

/-- An operation whose path fits either is refused by its check or makes a call. -/
theorem onPath_cases {α : Type} (op : OpType) (checked : Bool) {path : List UInt8}
    {body : List UInt8 → Attempt α} {state : PassthroughState}
    (hbody : ∀ fpath, (body fpath).calls ≠ [])
    (hfits : (joined state.rootdir path).length < pathMax) :
    ∃ o, onPath op checked path body state = some o ∧
      ((o.ret = -eacces ∧ o.calls = []) ↔
        (checked && blocked (joined state.rootdir path)) = true) := by
  have hpath : fullPath path (incrementOpCount op state) =
      some (incrementOpCount .fullPath (incrementOpCount op state),
        joined state.rootdir path) := if_pos hfits
  rw [onPath, hpath]
  by_cases hrefused : (checked && blocked (joined state.rootdir path)) = true
  · exact ⟨_, if_pos hrefused, iff_of_true ⟨rfl, rfl⟩ hrefused⟩
  · refine ⟨_, if_neg hrefused, iff_of_false ?_ hrefused⟩
    rintro ⟨-, hcalls⟩
    refine hbody (joined state.rootdir path) ?_
    rw [← hcalls, Attempt.outcome]
    split <;> rfl

theorem onPath_overrun {α : Type} {op : OpType} {checked : Bool} {path : List UInt8}
    {body : List UInt8 → Attempt α} {state : PassthroughState}
    (hlong : ¬ (joined state.rootdir path).length < pathMax) :
    onPath op checked path body state = none := by
  have hpath : fullPath path (incrementOpCount op state) = none := if_neg hlong
  rw [onPath, hpath]

theorem perform_overrun {os : Underlying Stat} {state : PassthroughState} {r : Request}
    (hlong : ¬ (joined state.rootdir r.path).length < pathMax) :
    perform os state r = none := by
  cases r <;> exact Option.map_eq_none_iff.mpr (onPath_overrun hlong)

/-- What all five operations have in common. -/
theorem perform_cases (os : Underlying Stat) {state : PassthroughState} {r : Request}
    (hfits : (joined state.rootdir r.path).length < pathMax) :
    ∃ ret calls, perform os state r = some (ret, calls) ∧
      ((ret = -eacces ∧ calls = []) ↔
        (r.checks && blocked (joined state.rootdir r.path)) = true) := by
  have hgoal : ∀ {α : Type} {op : OpType} {body : List UInt8 → Attempt α},
      perform os state r =
        (onPath op r.checks r.path body state).map (fun o => (o.ret, o.calls)) →
      (∀ fpath, (body fpath).calls ≠ []) →
      ∃ ret calls, perform os state r = some (ret, calls) ∧
        ((ret = -eacces ∧ calls = []) ↔
          (r.checks && blocked (joined state.rootdir r.path)) = true) := by
    intro α op body hperform hbody
    obtain ⟨o, ho, hiff⟩ := onPath_cases op r.checks hbody hfits
    exact ⟨o.ret, o.calls, by rw [hperform, ho]; rfl, hiff⟩
  cases r with
  | getattr path => exact hgoal rfl (by simp)
  | «open» path flags => exact hgoal rfl (by simp)
  | create path mode => exact hgoal rfl (by simp)
  | truncate path size => exact hgoal rfl (by simp)
  | readdir path filler =>
      refine hgoal rfl ?_
      intro fpath
      cases hdir : os.opendir fpath <;> simp

/-- For a path that fits the buffer, an operation that checks it goes wrong on the
longer names beside the directory, and one that does not goes wrong inside. -/
theorem blocksExactly_iff (os : Underlying Stat) (state : PassthroughState) (r : Request) :
    BlocksExactly os state r ↔
      (joined state.rootdir r.path).length < pathMax ∧
        (if r.checks then ¬ Sibling (joined state.rootdir r.path)
          else ¬ Below (joined state.rootdir r.path)) := by
  by_cases hfits : (joined state.rootdir r.path).length < pathMax
  · obtain ⟨ret, calls, hperform, hrefused⟩ := perform_cases os hfits
    have hexact : BlocksExactly os state r ↔
        ((r.checks && blocked (joined state.rootdir r.path)) = true ↔
          Below (joined state.rootdir r.path)) := by
      rw [← hrefused]
      constructor
      · rintro ⟨ret', calls', hperform', hiff⟩
        obtain ⟨rfl, rfl⟩ := Prod.mk.inj (Option.some.inj (hperform.symm.trans hperform'))
        exact hiff
      · exact fun hiff => ⟨ret, calls, hperform, hiff⟩
    rw [hexact]
    cases r.checks with
    | false => simp [hfits]
    | true =>
        rw [Bool.true_and, if_pos rfl, blocked_iff_below_or_sibling]
        constructor
        · intro hiff
          refine ⟨hfits, fun hsibling => ?_⟩
          exact not_sibling_of_below (hiff.mp (Or.inr hsibling)) hsibling
        · exact fun h => ⟨fun hblocked => hblocked.resolve_right h.2, Or.inl⟩
  · constructor
    · rintro ⟨ret, calls, hperform, -⟩
      rw [perform_overrun hfits] at hperform
      cases hperform
    · exact fun h => absurd h.1 hfits

/-- Started on `/home/yunwei/linux`, over a file system where everything works. -/
def linuxState : PassthroughState where
  rootdir := ['/', 'h', 'o', 'm', 'e', '/', 'y', 'u', 'n', 'w', 'e', 'i', '/', 'l', 'i',
    'n', 'u', 'x'].map (fun c => UInt8.ofNat c.toNat)
  rootdir_ne := by simp
  opCounts _ := 0

def everyCallSucceeds : Underlying Unit where
  lstat _ := .ok ()
  opendir _ := .ok []
  «open» _ _ _ := .ok 3
  truncate _ _ := .ok ()

/-- `/arch/Kconfig` and `/archive`. -/
def kconfig : List UInt8 :=
  ['/', 'a', 'r', 'c', 'h', '/', 'K', 'c', 'o', 'n', 'f', 'i', 'g'].map
    (fun c => UInt8.ofNat c.toNat)

def archive : List UInt8 :=
  ['/', 'a', 'r', 'c', 'h', 'i', 'v', 'e'].map (fun c => UInt8.ofNat c.toNat)

/-- `truncate` reaches a file below the directory, and `open` is refused a file
beside it. -/
theorem blocked_directory_leaks :
    ¬ BlocksExactly everyCallSucceeds linuxState (.truncate kconfig 0) ∧
      ¬ BlocksExactly everyCallSucceeds linuxState (.open archive 0) := by
  constructor
  · rintro ⟨ret, calls, hperform, hiff⟩
    have hrun : (perform everyCallSucceeds linuxState (.truncate kconfig 0)).map
        (fun r => r.2.length) = some 1 := by decide
    have hbelow : Below (joined linuxState.rootdir kconfig) := Or.inr (by decide)
    rw [hperform, (hiff.mpr hbelow).2] at hrun
    cases hrun
  · rintro ⟨ret, calls, hperform, hiff⟩
    have hrun : (perform everyCallSucceeds linuxState (.open archive 0)).map
        (fun r => (r.1, r.2.length)) = some (-eacces, 0) := by decide
    rw [hperform] at hrun
    obtain ⟨hret, hcalls⟩ := Prod.mk.inj (Option.some.inj hrun)
    have hbelow := hiff.mp ⟨hret, List.eq_nil_of_length_eq_zero hcalls⟩
    have hsibling : Sibling (joined linuxState.rootdir archive) :=
      ⟨105, archive.drop 6, by decide, by decide⟩
    exact not_sibling_of_below hbelow hsibling

end BpftimeBenchmark.Fuse
