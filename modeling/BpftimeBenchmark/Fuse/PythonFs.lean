import BpftimeBenchmark.Fuse.Passthrough
import BpftimeBenchmark.Lib.Atomic
import BpftimeBenchmark.Lib.OpenFiles

/-!
`passthrough.py` is the same file system as `passthrough.c`, in Python. FUSE gives it one
request at a time, as `nothreads=True` asks, and answers with the `errno` of an `OSError`;
it gives those of `passthrough.c` to any number of threads. Both are taken to be started on
one directory, with the same descriptors free. What `getattr` answers is compared by what
both give, the times apart; `readdir` and the counts of the operations are left out.
-/

namespace BpftimeBenchmark.Fuse.PythonFs

open CString OpenFiles Transition

/-- A path as FUSE builds it from names: one slash in front. -/
structure FusePath where
  names : List UInt8
  relative : names.head? ≠ some slash

def FusePath.bytes (path : FusePath) : List UInt8 := slash :: path.names

inductive Request where
  | getattr (path : FusePath)
  | open (path : FusePath) (flags : Int)
  | create (path : FusePath) (mode : Nat)
  | read (fh : Fd) (size offset : Nat)
  | write (fh : Fd) (buf : List UInt8) (offset : Nat)
  | truncate (path : FusePath) (length : Nat)
  | flush (fh : Fd)
  | release (fh : Fd)
  | fsync (fh : Fd) (datasync : Bool)

/-- The keys that `getattr` takes over in Python, but for the times. -/
structure Attrs where
  stGid : Nat
  stMode : Nat
  stNlink : Nat
  stSize : Nat
  stUid : Nat
  deriving DecidableEq

def attrsOf (st : Stat) : Attrs where
  stGid := st.inode.gid
  stMode := st.inode.mode
  stNlink := st.inode.nlink
  stSize := st.size
  stUid := st.inode.uid

inductive Reply where
  | failed (errno : Int)
  | done
  | attrs (a : Attrs)
  | opened (fh : Fd)
  | bytes (buf : List UInt8)
  | count (size : Nat)
  deriving DecidableEq

/-- A call whose value or `errno` is the answer. -/
def finish {α : Type} (answer : α → Reply) (c : Sys α) (k : Kernel) : Kernel × Reply :=
  match c k with
  | (.ok a, k) => (k, answer a)
  | (.error errno, k) => (k, .failed errno)

variable (vol : Volume) (state : PassthroughState)
  (list : List UInt8 → Except Int (List Dirent))

/-! ### The file system in C -/

/-- The calls of `passthrough.c` on the files as they are. -/
def underlying (k : Kernel) : Underlying Stat where
  lstat path := (lstat vol path k).1
  opendir := list
  «open» path flags mode := (openFile vol path flags mode k).1.map Int.ofNat
  truncate path size := (truncate vol path size.toNat k).1

def afterCall (k : Kernel) : SysCall → Kernel
  | .open path flags mode => (openFile vol path flags mode k).2
  | .truncate path size => (truncate vol path size.toNat k).2
  | .lstat _ | .opendir _ | .readdir | .closedir => k

/-- What an operation on a path answers, and what its calls leave. -/
def answered {α : Type} (answer : α → Reply) (k : Kernel) (o : Outcome α) :
    Kernel × Reply :=
  (o.calls.foldl (afterCall vol) k,
    match o.out with
    | some a => answer a
    | none => .failed (-o.ret))

def passthroughRead (fh : Fd) (size offset : Nat) : Sys (List UInt8) :=
  pread fh size offset

def passthroughWrite (fh : Fd) (buf : List UInt8) (offset : Nat) : Sys Nat :=
  pwrite vol fh buf offset

/-- What `close` answers is dropped. -/
def passthroughRelease (fh : Fd) : Sys Unit := fun k => (.ok (), (close fh k).2)

def passthroughFlush : Sys Unit := pure ()

def passthroughFsync (fh : Fd) (isdatasync : Bool) : Sys Unit :=
  fsync vol fh isdatasync

/-- Of the whole `struct stat` that `getattr` fills in, the answer shows what Python gives
too. -/
def serveC (k : Kernel) : Request → Option (Kernel × Reply)
  | .getattr path =>
      (passthroughGetattr (underlying vol list k) path.bytes state).map
        (answered vol (fun st => .attrs (attrsOf st)) k)
  | .open path flags =>
      (passthroughOpen (underlying vol list k) path.bytes flags state).map
        (answered vol (fun fh => .opened fh.toNat) k)
  | .create path mode =>
      (passthroughCreate (underlying vol list k) path.bytes mode state).map
        (answered vol (fun fh => .opened fh.toNat) k)
  | .truncate path length =>
      (passthroughTruncate (underlying vol list k) path.bytes length state).map
        (answered vol (fun _ => .done) k)
  | .read fh size offset => some (finish .bytes (passthroughRead fh size offset) k)
  | .write fh buf offset => some (finish .count (passthroughWrite vol fh buf offset) k)
  | .flush _ => some (finish (fun _ => .done) passthroughFlush k)
  | .release fh => some (finish (fun _ => .done) (passthroughRelease fh) k)
  | .fsync fh datasync =>
      some (finish (fun _ => .done) (passthroughFsync vol fh datasync) k)

/-! ### The file system in Python -/

def osPathJoin (a b : List UInt8) : List UInt8 :=
  if b.head? = some slash then b
  else if a = [] ∨ a.getLast? = some slash then a ++ b
  else a ++ slash :: b

/-- `_full_path`; `rootdir` is `self.root`. -/
def fullPath (rootdir part : List UInt8) : List UInt8 :=
  osPathJoin rootdir (if part.head? = some slash then part.tail else part)

/-- `full_path.startswith("/home/yunwei/linux/arch")`. -/
def unlessBlocked {α : Type} (path : List UInt8) (c : Sys α) : Sys α :=
  if blockedDir.isPrefixOf path then throw eacces else c

def getattr (rootdir path : List UInt8) : Sys Attrs :=
  unlessBlocked (fullPath rootdir path) do
    let st ← lstat vol (fullPath rootdir path)
    return attrsOf st

def «open» (rootdir path : List UInt8) (flags : Int) : Sys Fd :=
  unlessBlocked (fullPath rootdir path) (openFile vol (fullPath rootdir path) flags 0o777)

/-- `os.O_WRONLY | os.O_CREAT`. -/
def writeCreate : Int := 0o101

def create (rootdir path : List UInt8) (mode : Nat) : Sys Fd :=
  openFile vol (fullPath rootdir path) writeCreate mode

def read (fh : Fd) (length offset : Nat) : Sys (List UInt8) := do
  let _ ← lseek vol fh offset
  OpenFiles.read fh length

def write (fh : Fd) (buf : List UInt8) (offset : Nat) : Sys Nat := do
  let _ ← lseek vol fh offset
  OpenFiles.write vol fh buf

/-- `open(full_path, "r+")`, which is `O_RDWR`; the file is closed whatever happens. -/
def truncate (rootdir path : List UInt8) (length : Nat) : Sys Unit := do
  let f ← openFile vol (fullPath rootdir path) 2 0o666
  fun k => ((ftruncate vol f length k).1, (close f (ftruncate vol f length k).2).2)

def flush (fh : Fd) : Sys Unit := OpenFiles.fsync vol fh false

def release (fh : Fd) : Sys Unit := close fh

/-- `fdatasync` is not used. -/
def fsync (fh : Fd) (_fdatasync : Bool) : Sys Unit := flush vol fh

def serve (k : Kernel) : Request → Kernel × Reply
  | .getattr path => finish .attrs (getattr vol state.rootdir path.bytes) k
  | .open path flags => finish .opened («open» vol state.rootdir path.bytes flags) k
  | .create path mode => finish .opened (create vol state.rootdir path.bytes mode) k
  | .truncate path length =>
      finish (fun _ => .done) (truncate vol state.rootdir path.bytes length) k
  | .read fh size offset => finish .bytes (read vol fh size offset) k
  | .write fh buf offset => finish .count (write vol fh buf offset) k
  | .flush fh => finish (fun _ => .done) (flush vol fh) k
  | .release fh => finish (fun _ => .done) (release fh) k
  | .fsync fh datasync => finish (fun _ => .done) (fsync vol fh datasync) k

/-! ### What becomes of a request -/

/-- The path that both file systems make. -/
abbrev full (path : FusePath) : List UInt8 := joined state.rootdir path.bytes

def Fits (path : FusePath) : Prop := (full state path).length < pathMax

theorem fullPath_eq (path : FusePath) :
    fullPath state.rootdir path.bytes = full state path := by
  have hlast : byteAt state.rootdir (state.rootdir.length - 1) = slash ↔
      state.rootdir.getLast? = some slash := by
    have hlt : state.rootdir.length - 1 < state.rootdir.length := by
      have := List.length_pos_iff.mpr state.rootdir_ne
      omega
    rw [byteAt, List.getD_eq_getElem _ _ hlt, List.getLast?_eq_getElem?,
      List.getElem?_eq_getElem hlt, Option.some.injEq]
  have hpart : fullPath state.rootdir path.bytes = osPathJoin state.rootdir path.names := rfl
  have hjoined : full state path =
      (if byteAt state.rootdir (state.rootdir.length - 1) ≠ slash then
        state.rootdir ++ [slash] else state.rootdir) ++ path.names := rfl
  rw [hpart, hjoined, osPathJoin, if_neg path.relative]
  by_cases hslash : state.rootdir.getLast? = some slash
  · rw [if_pos (Or.inr hslash), if_neg (not_not.mpr (hlast.mpr hslash))]
  · rw [if_neg (not_or.mpr ⟨state.rootdir_ne, hslash⟩), if_pos (mt hlast.mp hslash)]
    simp

/-- What is left to see of an answer: not where the descriptors are. -/
def shown (s : Kernel × Reply) : Kernel × Reply := (s.1.rewound, s.2)

variable {vol state list} {k : Kernel}

theorem finish_apply {α : Type} (answer : α → Reply) (c : Sys α) (k : Kernel) :
    finish answer c k =
      ((c k).2, match (c k).1 with | .ok a => answer a | .error errno => .failed errno) := by
  rw [finish]
  split <;> rename_i h <;> rw [h]

/-- Calls that do the same, positions aside, are answered alike. -/
theorem finish_same {α : Type} {c c' : Sys α} (h : SameAside k c c') (answer : α → Reply) :
    finish answer c' k.rewound = shown (finish answer c k) := by
  unfold SameAside at h
  simp only [shown, finish_apply, h]

theorem finish_map {α β : Type} (answer : β → Reply) (f : α → β) (c : Sys α) (k : Kernel) :
    finish answer (do let a ← c; return f a) k = finish (fun a => answer (f a)) c k := by
  rw [finish_apply, finish_apply, bind_apply]
  cases (c k).1 <;> rfl

theorem finish_unlessBlocked {α : Type} (answer : α → Reply) (path : List UInt8) (c : Sys α)
    (k : Kernel) :
    finish answer (unlessBlocked path c) k =
      if blocked path then (k, .failed eacces) else finish answer c k := by
  have hblocked : blocked path = blockedDir.isPrefixOf path := by
    rw [Bool.eq_iff_iff, blocked_iff, List.isPrefixOf_iff_prefix]
  rw [unlessBlocked, hblocked]
  split <;> rfl

/-- An operation of `passthrough.c` that makes one call on its path. -/
theorem onPath_answered {α β : Type} {op : OpType} {checked : Bool} {path : FusePath}
    {body : List UInt8 → Attempt α} {answer : α → Reply} {answer' : β → Reply} {c : Sys β}
    (hcalls : (body (full state path)).calls.foldl (afterCall vol) k = (c k).2)
    (hresult : (match (body (full state path)).result with
      | .ok a => answer a
      | .error errno => .failed errno) =
        match (c k).1 with
        | .ok b => answer' b
        | .error errno => .failed errno)
    (hfits : Fits state path) :
    (onPath op checked path.bytes body state).map (answered vol answer k) =
      some (if checked && blocked (full state path) then (k, .failed eacces)
        else finish answer' c k) := by
  have hpath : Fuse.fullPath path.bytes (incrementOpCount op state) =
      some (incrementOpCount .fullPath (incrementOpCount op state), full state path) :=
    if_pos hfits
  rw [onPath, hpath]
  by_cases hblocked : (checked && blocked (full state path)) = true
  · simp only [hblocked, if_true, Option.map_some, answered]
    simp
  · simp only [hblocked, Bool.false_eq_true, if_false, Option.map_some, answered, finish_apply]
    rw [← hresult, ← hcalls, Attempt.outcome]
    cases (body (full state path)).result <;> simp

theorem onPath_long {α : Type} {op : OpType} {checked : Bool} {path : FusePath}
    {body : List UInt8 → Attempt α} {answer : α → Reply} (hlong : ¬ Fits state path) :
    (onPath op checked path.bytes body state).map (answered vol answer k) = none := by
  rw [onPath_overrun hlong]
  rfl

theorem serveC_getattr {path : FusePath} (hfits : Fits state path) :
    serveC vol state list k (.getattr path) =
      some (finish (fun st => .attrs (attrsOf st))
        (unlessBlocked (full state path) (lstat vol (full state path))) k) := by
  have hlstat : (lstat vol (full state path) k).2 = k := by
    unfold lstat
    split <;> rfl
  rw [finish_unlessBlocked]
  exact onPath_answered hlstat.symm rfl hfits

theorem serveC_open {path : FusePath} (flags : Int) (hfits : Fits state path) :
    serveC vol state list k (.open path flags) =
      some (finish .opened
        (unlessBlocked (full state path) (openFile vol (full state path) flags 0)) k) := by
  rw [finish_unlessBlocked]
  apply onPath_answered rfl _ hfits
  simp only [underlying]
  cases (openFile vol (full state path) flags 0 k).1 <;> rfl

theorem serveC_create {path : FusePath} (mode : Nat) (hfits : Fits state path) :
    serveC vol state list k (.create path mode) =
      some (finish .opened (openFile vol (full state path) createFlags mode) k) := by
  apply onPath_answered rfl _ hfits
  simp only [underlying]
  cases (openFile vol (full state path) createFlags mode k).1 <;> rfl

theorem serveC_truncate {path : FusePath} (length : Nat) (hfits : Fits state path) :
    serveC vol state list k (.truncate path length) =
      some (finish (fun _ => .done) (OpenFiles.truncate vol (full state path) length) k) :=
  onPath_answered rfl rfl hfits

/-! ### When both do the same -/

/-- Why `open(full_path, "r+")` fails, if so. -/
def reopenRefusal (vol : Volume) (k : Kernel) (path : List UInt8) : Option Int :=
  if k.lowest vol = none then some emfile else k.refusal vol path .readWrite

/-- Why the file cannot be that long, if so. -/
def sizeRefusal (vol : Volume) (k : Kernel) (path : List UInt8) (length : Nat) : Option Int :=
  match k.names path with
  | .ok ino => if vol.maxBytes ino < length then some efbig else none
  | .error _ => none

/-- The request does not show which of the two file systems serves it: its path fits the
buffer, a file that it creates is new or empty, its offset is not behind where the file may
end, and so on. -/
def Alike (vol : Volume) (state : PassthroughState) (k : Kernel) : Request → Prop
  | .getattr path => Fits state path
  | .open path flags =>
      Fits state path ∧
        ¬ (blocked (full state path) = false ∧ creates flags = true ∧
          k.Makes vol (full state path))
  | .create path _ =>
      Fits state path ∧
        ∀ ino, k.Opens vol (full state path) .writeOnly ino → k.contents ino = []
  | .truncate path length =>
      Fits state path ∧
        (reopenRefusal vol k (full state path)).or (sizeRefusal vol k (full state path) length) =
          (k.refusal vol (full state path) .writeOnly).or
            (sizeRefusal vol k (full state path) length)
  | .read fh _ offset => ∀ d, k.table fh = some d → offset ≤ vol.maxBytes d.ino
  | .write fh buf offset =>
      ∀ d, k.table fh = some d → offset ≤ vol.maxBytes d.ino ∨
        d.access ≠ .readOnly ∧
          vol.accepts k.contents d.ino (d.target k offset) buf.length = .error einval
  | .flush fh => ∃ d, k.table fh = some d ∧ vol.syncs k.contents d.ino false = .ok ()
  | .release fh => k.table fh ≠ none
  | .fsync fh datasync =>
      ∀ d, k.table fh = some d → datasync = true →
        vol.syncs k.contents d.ino true = vol.syncs k.contents d.ino false

theorem same_getattr (path : FusePath) :
    some (shown (serve vol state k (.getattr path))) =
      serveC vol state list k.rewound (.getattr path) ↔ Alike vol state k (.getattr path) := by
  by_cases hfits : Fits state path
  · rw [serveC_getattr hfits, finish_unlessBlocked, finish_same (lstat_rewound vol k _)]
    rw [serve, getattr, fullPath_eq, finish_unlessBlocked, finish_map]
    refine iff_of_true ?_ hfits
    split <;> rfl
  · have hnone : serveC vol state list k.rewound (.getattr path) = none := onPath_long hfits
    simp [hnone, Alike, hfits]

/-- What is not served in C is not alike. -/
theorem same_of_long {r : Request} (hnone : serveC vol state list k.rewound r = none)
    (hnot : ¬ Alike vol state k r) :
    some (shown (serve vol state k r)) = serveC vol state list k.rewound r ↔
      Alike vol state k r := by
  simp [hnone, hnot]

theorem same_open (path : FusePath) (flags : Int) :
    some (shown (serve vol state k (.open path flags))) =
      serveC vol state list k.rewound (.open path flags) ↔
        Alike vol state k (.open path flags) := by
  by_cases hfits : Fits state path
  · rw [serveC_open flags hfits, finish_unlessBlocked, finish_same (openFile_rewound vol k _ _ _)]
    rw [serve, «open», fullPath_eq, finish_unlessBlocked, Option.some.injEq]
    cases hblocked : blocked (full state path) with
    | true => exact iff_of_true rfl ⟨hfits, fun h => by simp [hblocked] at h⟩
    | false =>
        simp only [Bool.false_eq_true, if_false, Alike, hfits, hblocked, true_and]
        constructor
        · rintro hsame ⟨hcreates, hmakes⟩
          -- the modes of the new file tell them apart
          have hmodes := congrArg (fun s => (s.1.inodes k.inos).mode) hsame
          simp only [shown, finish_apply, rewound_inodes,
            openFile_made vol hcreates hmakes] at hmodes
          cases hmodes
        · intro hnot
          simp only [finish_apply, openFile_mode vol hnot 0o777 0]
  · exact same_of_long (onPath_long hfits) (fun h => hfits h.1)

theorem same_create (path : FusePath) (mode : Nat) :
    some (shown (serve vol state k (.create path mode))) =
      serveC vol state list k.rewound (.create path mode) ↔
        Alike vol state k (.create path mode) := by
  by_cases hfits : Fits state path
  · rw [serveC_create mode hfits, finish_same (openFile_rewound vol k _ _ _)]
    rw [serve, create, fullPath_eq, Option.some.injEq]
    have haccess : access writeCreate = .writeOnly := by decide
    constructor
    · intro hsame
      refine ⟨hfits, fun ino hopens => ?_⟩
      -- `passthrough.c` has emptied the file
      have hcontents := congrArg (fun s => s.1.contents ino) hsame
      simp only [shown, finish_apply, rewound_contents] at hcontents
      have hpython : k.Opens vol (full state path) (access writeCreate) ino := by rwa [haccess]
      have hc : k.Opens vol (full state path) (access createFlags) ino := hopens
      rw [openFile_contents vol hpython, openFile_contents vol hc] at hcontents
      simpa [show truncates createFlags = true by decide,
        show truncates writeCreate = false by decide] using hcontents
    · rintro ⟨-, hempty⟩
      have hsame : openFile vol (full state path) writeCreate mode k =
          openFile vol (full state path) createFlags mode k :=
        openFile_truncates vol (by decide) (by decide) (by decide) (by rwa [haccess]) mode
      simp only [finish_apply, hsame]
  · exact same_of_long (onPath_long hfits) (fun h => hfits h.1)

theorem truncate_refused {path : FusePath} {errno : Int}
    (h : reopenRefusal vol k (full state path) = some errno) (length : Nat) :
    truncate vol state.rootdir path.bytes length k = (.error errno, k) := by
  have hopen : openFile vol (full state path) 2 0o666 k = (.error errno, k) := by
    cases hfree : k.lowest vol with
    | none =>
        rw [reopenRefusal, if_pos hfree, Option.some.injEq] at h
        simp [openFile, hfree, h]
    | some fd =>
        rw [reopenRefusal, if_neg (by simp [hfree])] at h
        have haccess : access 2 = .readWrite := by decide
        have hcreates : creates 2 = false := by decide
        cases hname : k.names (full state path) <;>
          simp_all [openFile, Kernel.refusal]
  rw [truncate, fullPath_eq, bind_apply, hopen]

theorem truncate_done {path : FusePath}
    (h : reopenRefusal vol k (full state path) = none) (length : Nat) :
    ∃ ino, k.names (full state path) = .ok ino ∧
      truncate vol state.rootdir path.bytes length k = resize vol ino length k := by
  cases hfree : k.lowest vol with
  | none => simp [reopenRefusal, hfree] at h
  | some fd =>
      rw [reopenRefusal, if_neg (by simp [hfree])] at h
      cases hname : k.names (full state path) with
      | error errno => simp [Kernel.refusal, hname] at h
      | ok ino =>
          have hmay : vol.denied ino .readWrite = none := by simpa [Kernel.refusal, hname] using h
          have hopen : openFile vol (full state path) 2 0o666 k =
              (.ok fd, k.install fd (some ⟨ino, .readWrite, false, 0⟩)) := by
            have haccess : access 2 = .readWrite := by decide
            have htruncates : truncates 2 = false := by decide
            have happends : appends 2 = false := by decide
            simp [openFile, hfree, hname, haccess, hmay, htruncates, happends]
          refine ⟨ino, rfl, ?_⟩
          rw [truncate, fullPath_eq, bind_apply, hopen]
          have hthere : (k.install fd (some ⟨ino, .readWrite, false, 0⟩)).table fd =
              some ⟨ino, .readWrite, false, 0⟩ := Function.update_self ..
          have hresized : ftruncate vol fd length
              (k.install fd (some ⟨ino, .readWrite, false, 0⟩)) =
                ((resize vol ino length k).1, (resize vol ino length k).2.install fd
                  (some ⟨ino, .readWrite, false, 0⟩)) := by
            simp only [ftruncate, hthere]
            exact resize_install vol ino length fd _
          have hclosed : close fd ((resize vol ino length k).2.install fd
              (some ⟨ino, .readWrite, false, 0⟩)) = (.ok (), (resize vol ino length k).2) := by
            have hfree' : (resize vol ino length k).2.table fd = none := by
              rw [resize_table]
              exact table_of_lowest vol hfree
            simp only [close, Kernel.install, Function.update_self]
            exact congrArg (Prod.mk _) (install_none hfree' _)
          simp only [hresized, hclosed]
          rfl

theorem same_truncate (path : FusePath) (length : Nat) :
    some (shown (serve vol state k (.truncate path length))) =
      serveC vol state list k.rewound (.truncate path length) ↔
        Alike vol state k (.truncate path length) := by
  by_cases hfits : Fits state path
  · rw [serveC_truncate length hfits, finish_same (truncate_rewound vol k _ _)]
    rw [serve, Option.some.injEq]
    simp only [Alike, hfits, true_and]
    cases hpython : reopenRefusal vol k (full state path) with
    | some errno =>
        simp only [finish_apply, truncate_refused hpython]
        cases hc : k.refusal vol (full state path) .writeOnly with
        | some errno' =>
            rw [truncate_of_refusal vol hc]
            simp [shown]
        | none =>
            obtain ⟨ino, hname, hdone⟩ := truncate_of_not_refusal vol hc length
            by_cases hsize : vol.maxBytes ino < length <;>
              simp [hdone, resize, sizeRefusal, hname, hsize, shown]
    | none =>
        obtain ⟨ino, hname, hdone⟩ := truncate_done hpython length
        simp only [finish_apply, hdone]
        cases hc : k.refusal vol (full state path) .writeOnly with
        | some errno =>
            rw [truncate_of_refusal vol hc]
            by_cases hsize : vol.maxBytes ino < length <;>
              simp [resize, sizeRefusal, hname, hsize, shown]
        | none =>
            obtain ⟨ino', hname', hdone'⟩ := truncate_of_not_refusal vol hc length
            obtain rfl : ino = ino' := Except.ok.inj (hname.symm.trans hname')
            simp [hdone']
  · exact same_of_long (onPath_long hfits) (fun h => hfits h.1)

theorem same_flush (fh : Fd) :
    some (shown (serve vol state k (.flush fh))) = serveC vol state list k.rewound (.flush fh) ↔
      Alike vol state k (.flush fh) := by
  have hc : serveC vol state list k.rewound (.flush fh) = some (k.rewound, .done) := rfl
  rw [hc, serve, Option.some.injEq, finish_apply]
  cases hfd : k.table fh with
  | none => simp [flush, OpenFiles.fsync, hfd, Alike, shown]
  | some d =>
      cases hsync : vol.syncs k.contents d.ino false <;>
        simp [flush, OpenFiles.fsync, hfd, hsync, Alike, shown]

theorem same_release (fh : Fd) :
    some (shown (serve vol state k (.release fh))) =
      serveC vol state list k.rewound (.release fh) ↔ Alike vol state k (.release fh) := by
  have hc : serveC vol state list k.rewound (.release fh) =
      some ((close fh k).2.rewound, .done) := by
    rw [serveC, finish_apply, passthroughRelease, close_rewound k fh]
  rw [hc, serve, Option.some.injEq, finish_apply]
  cases hfd : k.table fh <;> simp [release, close, hfd, Alike, shown]

theorem same_fsync (fh : Fd) (datasync : Bool) :
    some (shown (serve vol state k (.fsync fh datasync))) =
      serveC vol state list k.rewound (.fsync fh datasync) ↔
        Alike vol state k (.fsync fh datasync) := by
  rw [serveC, passthroughFsync, finish_same (fsync_rewound vol k fh datasync)]
  rw [serve, Option.some.injEq, finish_apply, finish_apply]
  cases hfd : k.table fh with
  | none => simp [fsync, flush, OpenFiles.fsync, hfd, Alike]
  | some d =>
      cases datasync with
      | false => simp [fsync, flush, OpenFiles.fsync, hfd, Alike]
      | true =>
          cases hdata : vol.syncs k.contents d.ino true <;>
            cases hall : vol.syncs k.contents d.ino false <;>
            simp [fsync, flush, OpenFiles.fsync, hfd, hdata, hall, Alike, shown, eq_comm]

/-- Behind where the file may end the `lseek` fails in Python. -/
theorem serve_seeked {α : Type} {fh : Fd} {d : Description} {offset : Nat}
    (hfd : k.table fh = some d) (hoffset : ¬ offset ≤ vol.maxBytes d.ino) (answer : α → Reply)
    (c : Sys α) :
    shown (finish answer (do let _ ← lseek vol fh offset; c) k) =
      (k.rewound, .failed einval) := by
  rw [finish_apply, seek_refused vol hfd (Nat.not_le.mp hoffset)]
  rfl

theorem same_read (fh : Fd) (size offset : Nat) :
    some (shown (serve vol state k (.read fh size offset))) =
      serveC vol state list k.rewound (.read fh size offset) ↔
        Alike vol state k (.read fh size offset) := by
  constructor
  · intro hsame d hfd
    by_contra hoffset
    rw [serve, read, serve_seeked hfd hoffset, serveC, finish_apply, passthroughRead,
      Option.some.injEq] at hsame
    have hanswer := congrArg Prod.snd hsame
    have hnot := pread_ne_einval fh size offset k.rewound
    cases hpread : (pread fh size offset k.rewound).1 with
    | ok bytes => simp [hpread] at hanswer
    | error errno =>
        simp only [hpread, Reply.failed.injEq] at hanswer
        exact hnot (by rw [hpread, hanswer])
  · intro hoffset
    rw [serveC, passthroughRead, finish_same (seek_read vol hoffset size)]
    rfl

theorem same_write (fh : Fd) (buf : List UInt8) (offset : Nat) :
    some (shown (serve vol state k (.write fh buf offset))) =
      serveC vol state list k.rewound (.write fh buf offset) ↔
        Alike vol state k (.write fh buf offset) := by
  by_cases hall : ∀ d, k.table fh = some d → offset ≤ vol.maxBytes d.ino
  · rw [serveC, passthroughWrite, finish_same (seek_write vol hall buf)]
    exact iff_of_true rfl fun d hfd => .inl (hall d hfd)
  · push Not at hall
    obtain ⟨d, hfd, hoffset⟩ := hall
    rw [serve, write, serve_seeked hfd (Nat.not_le.mpr hoffset), serveC, finish_apply,
      passthroughWrite, Option.some.injEq]
    have halike : Alike vol state k (.write fh buf offset) ↔ d.access ≠ .readOnly ∧
        vol.accepts k.contents d.ino (d.target k offset) buf.length = .error einval := by
      simp [Alike, hfd, Nat.not_le.mpr hoffset]
    have hrewound : k.rewound.table fh = some d.rewound := by rw [rewound_table, hfd]; rfl
    rw [halike]
    constructor
    · intro hsame
      have hanswer := congrArg Prod.snd hsame
      cases hpwrite : (pwrite vol fh buf offset k.rewound).1 with
      | ok n => simp [hpwrite] at hanswer
      | error errno =>
          simp only [hpwrite, Reply.failed.injEq] at hanswer
          subst hanswer
          obtain ⟨d', hfd', haccess, haccepts⟩ := accepts_of_einval vol hpwrite
          obtain rfl : d' = d.rewound := Option.some.inj (hfd'.symm.trans hrewound)
          exact ⟨haccess, haccepts⟩
    · rintro ⟨haccess, haccepts⟩
      have haccess' : d.rewound.access ≠ .readOnly := haccess
      have haccepts' : vol.accepts k.rewound.contents d.rewound.ino
          (d.rewound.target k.rewound offset) buf.length = .error einval := haccepts
      rw [pwrite_of_refused vol hrewound haccess' haccepts']

/-- Both serve a request alike under exactly this condition. -/
theorem same_iff (r : Request) :
    some (shown (serve vol state k r)) = serveC vol state list k.rewound r ↔
      Alike vol state k r := by
  cases r with
  | getattr path => exact same_getattr path
  | «open» path flags => exact same_open path flags
  | create path mode => exact same_create path mode
  | truncate path length => exact same_truncate path length
  | flush fh => exact same_flush fh
  | release fh => exact same_release fh
  | fsync fh datasync => exact same_fsync fh datasync
  | read fh size offset => exact same_read fh size offset
  | write fh buf offset => exact same_write fh buf offset

/-! ### Whole runs -/

/-- `passthrough.py`, with the requests so far and their answers. -/
def python (vol : Volume) (state : PassthroughState) :
    System (Kernel × List (Request × Reply)) Request :=
  Atomic.serial (fun k r => some (serve vol state k r))

/-- `passthrough.c`, one request at a time. -/
def inTurn (vol : Volume) (state : PassthroughState)
    (list : List UInt8 → Except Int (List Dirent)) :
    System (Kernel × List (Request × Reply)) Request :=
  Atomic.serial (serveC vol state list)

/-- `passthrough.c`, with a thread for every request. -/
def threaded (vol : Volume) (state : PassthroughState)
    (list : List UInt8 → Except Int (List Dirent)) (k : Kernel) :
    System (Atomic.State Kernel Request Reply Nat) (Atomic.Label Request Nat) :=
  Atomic.system (serveC vol state list) k

def view (s : Kernel × List (Request × Reply)) : Kernel × List (Request × Reply) :=
  (s.1.rewound, s.2)

theorem step_view_iff (s : Kernel × List (Request × Reply)) (r : Request) :
    ((python vol state).step s r).map view = (inTurn vol state list).step (view s) r ↔
      Alike vol state s.1 r := by
  rw [← @same_iff vol state list]
  simp only [python, inTurn, Atomic.serial, view, shown, Option.map_some]
  cases serveC vol state list s.1.rewound r <;> simp [Prod.ext_iff]

/-- Nothing is refused. -/
def openVolume : Volume where
  denied _ _ := none
  uncreatable _ := none
  owner _ := (1000, 1000)
  accepts _ _ _ size := .ok size
  syncs _ _ _ := .ok ()
  storage _ _ := ⟨1, 0, 4096, 8⟩
  maxBytes _ := 4294967296
  limit := 8

/-- `/n` is a file of three bytes. -/
def notes : FusePath := ⟨[110], by decide⟩

def oneFile : Kernel where
  names path := if path = notes.bytes then .ok 0 else .error enoent
  inodes _ := ⟨0o644, 1, 1000, 1000⟩
  contents _ := [1, 2, 3]
  inos := 1
  table _ := none

def onRoot : PassthroughState := ⟨[slash], by simp, fun _ => 0⟩

/-- Two threads open the file and look at it, then one writes to it while the other reads. -/
def twoAtOnce : List (Atomic.Label Request Nat) :=
  [.call 0 (.open notes 2), .call 1 (.getattr notes), .act 1, .act 0, .reply 0, .reply 1,
    .call 0 (.write 0 [9] 1), .call 1 (.read 0 2 1), .act 1, .act 0]

end BpftimeBenchmark.Fuse.PythonFs
