import Mathlib.Logic.Function.Basic

/-!
Regular files and the descriptors of one process: `open`, the calls at an offset, those
at the position of a descriptor, `truncate`, `fsync` and `close`. A volume says which of
them it refuses. Seeking and then reading or writing does what the call at that offset
does, except for the position that it leaves behind (`seek_read`, `seek_write`), as long as
the offset is one that a file may have.
-/

namespace BpftimeBenchmark.OpenFiles

abbrev Path := List UInt8

abbrev Ino := Nat

abbrev Fd := Nat

def enoent : Int := 2

def ebadf : Int := 9

def einval : Int := 22

def emfile : Int := 24

def efbig : Int := 27

inductive Access where
  | readOnly
  | writeOnly
  | readWrite
  deriving DecidableEq

/-- `O_ACCMODE`, `O_CREAT`, `O_TRUNC` and `O_APPEND` of the flags of `open`. -/
def access (flags : Int) : Access :=
  match flags.toNat % 4 with
  | 0 => .readOnly
  | 1 => .writeOnly
  | _ => .readWrite

def creates (flags : Int) : Bool := flags.toNat.testBit 6

def truncates (flags : Int) : Bool := flags.toNat.testBit 9

def appends (flags : Int) : Bool := flags.toNat.testBit 10

/-- Where a file is kept. -/
structure Storage where
  dev : Nat
  rdev : Nat
  blksize : Nat
  blocks : Nat
  deriving DecidableEq

/-- What does not change: who may open and create what, who owns what is created, how much
of a write at an offset is taken when the files are as they are, whether they can be synced
(the `Bool`: only their data), where they are kept, how long they may get (`s_maxbytes`),
and how many descriptors there are. -/
structure Volume where
  denied : Ino → Access → Option Int
  uncreatable : Path → Option Int
  owner : Path → Nat × Nat
  accepts : (Ino → List UInt8) → Ino → Nat → Nat → Except Int Nat
  syncs : (Ino → List UInt8) → Ino → Bool → Except Int Unit
  storage : (Ino → List UInt8) → Ino → Storage
  maxBytes : Ino → Nat
  limit : Nat

structure Inode where
  mode : Nat
  nlink : Nat
  uid : Nat
  gid : Nat
  deriving DecidableEq

structure Description where
  ino : Ino
  access : Access
  append : Bool
  pos : Nat
  deriving DecidableEq

structure Kernel where
  names : Path → Except Int Ino
  inodes : Ino → Inode
  contents : Ino → List UInt8
  inos : Nat
  table : Fd → Option Description

/-- A call returns a value or fails with its `errno`; what it has changed stays. -/
abbrev Sys := ExceptT Int (StateM Kernel)

/-- What `lstat` finds, the times apart. -/
structure Stat where
  ino : Ino
  inode : Inode
  size : Nat
  storage : Storage
  deriving DecidableEq

/-- The bytes of a file from an offset on. -/
def slice (data : List UInt8) (offset size : Nat) : List UInt8 :=
  (data.drop offset).take size

/-- A file of the given size: cut, or filled up with zeros. -/
def resized (data : List UInt8) (size : Nat) : List UInt8 :=
  (data ++ List.replicate (size - data.length) 0).take size

/-- Bytes put over those of a file; writing nothing does not fill it up. -/
def patched (data : List UInt8) (offset : Nat) : List UInt8 → List UInt8
  | [] => data
  | bytes => resized data offset ++ bytes ++ data.drop (offset + bytes.length)

variable (vol : Volume)

/-- The lowest free descriptor. -/
def Kernel.lowest (k : Kernel) : Option Fd :=
  (List.range vol.limit).find? (fun fd => (k.table fd).isNone)

def Kernel.store (k : Kernel) (ino : Ino) (data : List UInt8) : Kernel :=
  { k with contents := Function.update k.contents ino data }

def Kernel.install (k : Kernel) (fd : Fd) (d : Option Description) : Kernel :=
  { k with table := Function.update k.table fd d }

/-- An empty file under a new name. -/
def Kernel.make (k : Kernel) (path : Path) (mode : Nat) : Kernel :=
  { k with
    names := Function.update k.names path (.ok k.inos)
    inodes := Function.update k.inodes k.inos
      ⟨mode, 1, (vol.owner path).1, (vol.owner path).2⟩
    contents := Function.update k.contents k.inos []
    inos := k.inos + 1 }

/-- Why a file cannot be opened, if so. -/
def Kernel.refusal (k : Kernel) (path : Path) (a : Access) : Option Int :=
  match k.names path with
  | .error errno => some errno
  | .ok ino => vol.denied ino a

/-- Opening the path with this access opens the file. -/
def Kernel.Opens (k : Kernel) (path : Path) (a : Access) (ino : Ino) : Prop :=
  k.lowest vol ≠ none ∧ k.names path = .ok ino ∧ vol.denied ino a = none

/-- An `open` that may would make a new file. -/
def Kernel.Makes (k : Kernel) (path : Path) : Prop :=
  k.lowest vol ≠ none ∧ k.names path = .error enoent ∧ vol.uncreatable path = none

def lstat (path : Path) : Sys Stat := fun k =>
  match k.names path with
  | .error errno => (.error errno, k)
  | .ok ino =>
      (.ok ⟨ino, k.inodes ino, (k.contents ino).length, vol.storage k.contents ino⟩, k)

/-- The descriptor is chosen first. -/
def openFile (path : Path) (flags : Int) (mode : Nat) : Sys Fd := fun k =>
  match k.lowest vol with
  | none => (.error emfile, k)
  | some fd =>
      match k.names path with
      | .ok ino =>
          match vol.denied ino (access flags) with
          | some errno => (.error errno, k)
          | none =>
              let k := if truncates flags then k.store ino [] else k
              (.ok fd, k.install fd (some ⟨ino, access flags, appends flags, 0⟩))
      | .error errno =>
          if errno = enoent ∧ creates flags then
            match vol.uncreatable path with
            | some errno => (.error errno, k)
            | none =>
                (.ok fd, (k.make vol path mode).install fd
                  (some ⟨k.inos, access flags, appends flags, 0⟩))
          else (.error errno, k)

def resize (ino : Ino) (size : Nat) : Sys Unit := fun k =>
  if vol.maxBytes ino < size then (.error efbig, k)
  else (.ok (), k.store ino (resized (k.contents ino) size))

def truncate (path : Path) (size : Nat) : Sys Unit := fun k =>
  match k.names path with
  | .error errno => (.error errno, k)
  | .ok ino =>
      match vol.denied ino .writeOnly with
      | some errno => (.error errno, k)
      | none => resize vol ino size k

def ftruncate (fd : Fd) (size : Nat) : Sys Unit := fun k =>
  match k.table fd with
  | none => (.error ebadf, k)
  | some d =>
      if d.access = .readOnly then (.error einval, k) else resize vol d.ino size k

def pread (fd : Fd) (size offset : Nat) : Sys (List UInt8) := fun k =>
  match k.table fd with
  | none => (.error ebadf, k)
  | some d =>
      if d.access = .writeOnly then (.error ebadf, k)
      else (.ok (slice (k.contents d.ino) offset size), k)

/-- There is no seeking behind where a file may end, though there is reading. -/
def lseek (fd : Fd) (offset : Nat) : Sys Nat := fun k =>
  match k.table fd with
  | none => (.error ebadf, k)
  | some d =>
      if vol.maxBytes d.ino < offset then (.error einval, k)
      else (.ok offset, k.install fd (some { d with pos := offset }))

def read (fd : Fd) (size : Nat) : Sys (List UInt8) := fun k =>
  match k.table fd with
  | none => (.error ebadf, k)
  | some d =>
      if d.access = .writeOnly then (.error ebadf, k)
      else
        let bytes := slice (k.contents d.ino) d.pos size
        (.ok bytes, k.install fd (some { d with pos := d.pos + bytes.length }))

/-- Where a write goes: to the end of a file that is appended to, whatever the offset. -/
def Description.target (d : Description) (k : Kernel) (offset : Nat) : Nat :=
  if d.append then (k.contents d.ino).length else offset

def pwrite (fd : Fd) (bytes : List UInt8) (offset : Nat) : Sys Nat := fun k =>
  match k.table fd with
  | none => (.error ebadf, k)
  | some d =>
      if d.access = .readOnly then (.error ebadf, k)
      else
        match vol.accepts k.contents d.ino (d.target k offset) bytes.length with
        | .error errno => (.error errno, k)
        | .ok n =>
            let taken := bytes.take n
            (.ok taken.length,
              k.store d.ino (patched (k.contents d.ino) (d.target k offset) taken))

def write (fd : Fd) (bytes : List UInt8) : Sys Nat := fun k =>
  match k.table fd with
  | none => (.error ebadf, k)
  | some d =>
      if d.access = .readOnly then (.error ebadf, k)
      else
        match vol.accepts k.contents d.ino (d.target k d.pos) bytes.length with
        | .error errno => (.error errno, k)
        | .ok n =>
            let taken := bytes.take n
            let k' := k.store d.ino (patched (k.contents d.ino) (d.target k d.pos) taken)
            (.ok taken.length,
              k'.install fd (some { d with pos := d.target k d.pos + taken.length }))

/-- `fsync`, or `fdatasync` for the data only. -/
def fsync (fd : Fd) (dataOnly : Bool) : Sys Unit := fun k =>
  match k.table fd with
  | none => (.error ebadf, k)
  | some d => (vol.syncs k.contents d.ino dataOnly, k)

def close (fd : Fd) : Sys Unit := fun k =>
  match k.table fd with
  | none => (.error ebadf, k)
  | some _ => (.ok (), k.install fd none)

/-- Reading does not fail for its offset. -/
theorem pread_ne_einval (fd : Fd) (size offset : Nat) (k : Kernel) :
    (pread fd size offset k).1 ≠ .error einval := by
  unfold pread
  split
  · simp [ebadf, einval]
  · split <;> simp [ebadf, einval]

theorem pwrite_of_refused {fd : Fd} {d : Description} {bytes : List UInt8} {offset : Nat}
    {k : Kernel} {errno : Int} (hfd : k.table fd = some d) (haccess : d.access ≠ .readOnly)
    (haccepts : vol.accepts k.contents d.ino (d.target k offset) bytes.length = .error errno) :
    pwrite vol fd bytes offset k = (.error errno, k) := by
  simp [pwrite, hfd, haccess, haccepts]

theorem accepts_of_einval {fd : Fd} {bytes : List UInt8} {offset : Nat} {k : Kernel}
    (h : (pwrite vol fd bytes offset k).1 = .error einval) :
    ∃ d, k.table fd = some d ∧ d.access ≠ .readOnly ∧
      vol.accepts k.contents d.ino (d.target k offset) bytes.length = .error einval := by
  unfold pwrite at h
  split at h
  · simp [ebadf, einval] at h
  · rename_i d hfd
    split at h
    · simp [ebadf, einval] at h
    · rename_i haccess
      split at h
      · rename_i errno haccepts
        exact ⟨d, hfd, haccess, haccepts.trans h⟩
      · cases h

/-- One call after another. -/
theorem bind_apply {α β : Type} (c : Sys α) (f : α → Sys β) (k : Kernel) :
    (c >>= f) k =
      match (c k).1 with
      | .ok a => f a (c k).2
      | .error errno => (.error errno, (c k).2) := by
  have hbind : (c >>= f) k = ExceptT.bindCont f (c k).1 (c k).2 := rfl
  rw [hbind]
  rcases c k with ⟨_ | _, _⟩ <;> rfl

theorem table_of_lowest {k : Kernel} {fd : Fd} (h : k.lowest vol = some fd) :
    k.table fd = none := by
  simpa using List.find?_some h

/-- A descriptor that is closed again. -/
theorem install_none {k : Kernel} {fd : Fd} (h : k.table fd = none)
    (d : Option Description) : (k.install fd d).install fd none = k := by
  simp [Kernel.install, ← h]

theorem store_same {k : Kernel} {ino : Ino} {data : List UInt8} (h : k.contents ino = data) :
    k.store ino data = k := by
  simp [Kernel.store, ← h]

theorem truncate_of_refusal {k : Kernel} {path : Path} {errno : Int}
    (h : k.refusal vol path .writeOnly = some errno) (size : Nat) :
    truncate vol path size k = (.error errno, k) := by
  cases hname : k.names path <;> simp_all [Kernel.refusal, truncate]

theorem truncate_of_not_refusal {k : Kernel} {path : Path}
    (h : k.refusal vol path .writeOnly = none) (size : Nat) :
    ∃ ino, k.names path = .ok ino ∧ truncate vol path size k = resize vol ino size k := by
  cases hname : k.names path <;> simp_all [Kernel.refusal, truncate]

/-- Descriptors do not matter for it. -/
theorem resize_install {k : Kernel} (ino : Ino) (size : Nat) (fd : Fd)
    (d : Option Description) :
    resize vol ino size (k.install fd d) =
      ((resize vol ino size k).1, (resize vol ino size k).2.install fd d) := by
  unfold resize
  split <;> rfl

theorem resize_table (k : Kernel) (ino : Ino) (size : Nat) :
    (resize vol ino size k).2.table = k.table := by
  unfold resize
  split <;> rfl

/-- The mode only matters for a file that is made. -/
theorem openFile_mode {k : Kernel} {path : Path} {flags : Int}
    (h : ¬ (creates flags = true ∧ k.Makes vol path)) (mode mode' : Nat) :
    openFile vol path flags mode k = openFile vol path flags mode' k := by
  unfold openFile
  split
  · rfl
  · rename_i fd hfd
    split
    · rfl
    · rename_i errno hname
      split
      · rename_i hcreates
        split
        · rfl
        · rename_i hmay
          refine absurd ⟨hcreates.2, ?_, ?_, hmay⟩ h
          · simp [hfd]
          · rw [hname, hcreates.1]
      · rfl

theorem openFile_made {k : Kernel} {path : Path} {flags : Int} (hcreates : creates flags = true)
    (hmakes : k.Makes vol path) (mode : Nat) :
    ((openFile vol path flags mode k).2.inodes k.inos).mode = mode := by
  obtain ⟨hfree, hname, hmay⟩ := hmakes
  obtain ⟨fd, hfd⟩ := Option.ne_none_iff_exists'.mp hfree
  simp [openFile, hfd, hname, hcreates, hmay, Kernel.install, Kernel.make]

/-- `O_TRUNC` only matters for a file that is there and has contents. -/
theorem openFile_truncates {k : Kernel} {path : Path} {flags flags' : Int}
    (haccess : access flags = access flags') (hcreates : creates flags = creates flags')
    (happends : appends flags = appends flags')
    (hempty : ∀ ino, k.Opens vol path (access flags) ino → k.contents ino = []) (mode : Nat) :
    openFile vol path flags mode k = openFile vol path flags' mode k := by
  have hstore : ∀ ino, k.Opens vol path (access flags) ino → k.store ino [] = k :=
    fun ino hopens => store_same (hempty ino hopens)
  unfold openFile
  rw [← haccess, ← hcreates, ← happends]
  split
  · rfl
  · rename_i fd hfd
    split
    · rename_i ino hname
      split
      · rfl
      · rename_i hmay
        have hopens : k.Opens vol path (access flags) ino := ⟨by simp [hfd], hname, hmay⟩
        simp only [hstore ino hopens, ite_self]
    · rfl

theorem openFile_contents {k : Kernel} {path : Path} {flags : Int} {ino : Ino}
    (hopens : k.Opens vol path (access flags) ino) (mode : Nat) :
    (openFile vol path flags mode k).2.contents ino =
      if truncates flags then [] else k.contents ino := by
  obtain ⟨hfree, hname, hmay⟩ := hopens
  obtain ⟨fd, hfd⟩ := Option.ne_none_iff_exists'.mp hfree
  simp only [openFile, hfd, hname, hmay]
  split <;> simp [Kernel.install, Kernel.store]

/-! ### Positions -/

def Description.rewound (d : Description) : Description :=
  { d with pos := 0 }

/-- The same files and descriptors, each descriptor at its start. -/
def Kernel.rewound (k : Kernel) : Kernel :=
  { k with table := fun fd => (k.table fd).map Description.rewound }

/-- Both calls do the same here, positions aside: what the one does is what the other does
where all descriptors are at their start. -/
def SameAside {α : Type} (k : Kernel) (c c' : Sys α) : Prop :=
  c' k.rewound = ((c k).1, (c k).2.rewound)

@[simp] theorem rewound_names (k : Kernel) : k.rewound.names = k.names := rfl

@[simp] theorem rewound_inodes (k : Kernel) : k.rewound.inodes = k.inodes := rfl

@[simp] theorem rewound_contents (k : Kernel) : k.rewound.contents = k.contents := rfl

@[simp] theorem rewound_table (k : Kernel) (fd : Fd) :
    k.rewound.table fd = (k.table fd).map Description.rewound := rfl

@[simp] theorem rewound_lowest (k : Kernel) : k.rewound.lowest vol = k.lowest vol := by
  simp [Kernel.lowest]

theorem rewound_install (k : Kernel) (fd : Fd) (d : Option Description) :
    (k.install fd d).rewound = k.rewound.install fd (d.map Description.rewound) := by
  have htable : ∀ fd', (k.install fd d).rewound.table fd' =
      (k.rewound.install fd (d.map Description.rewound)).table fd' := by
    intro fd'
    by_cases heq : fd' = fd
    · subst heq
      simp [Kernel.install]
    · simp [Kernel.install, heq]
  simp only [Kernel.rewound, Kernel.install] at htable ⊢
  congr 1
  exact funext htable

/-- A descriptor that only moves stays what it was, positions aside. -/
theorem rewound_moved {k : Kernel} {fd : Fd} {d : Description} (hfd : k.table fd = some d)
    (pos : Nat) : (k.install fd (some { d with pos := pos })).rewound = k.rewound := by
  rw [rewound_install]
  have hsame : k.rewound.table fd = some d.rewound := by rw [rewound_table, hfd]; rfl
  simp only [Kernel.install, Option.map_some]
  rw [show Description.rewound { d with pos := pos } = d.rewound from rfl, ← hsame,
    Function.update_eq_self]

theorem lstat_rewound (k : Kernel) (path : Path) :
    SameAside k (lstat vol path) (lstat vol path) := by
  simp only [SameAside, lstat, rewound_names]
  split <;> rfl

theorem openFile_rewound (k : Kernel) (path : Path) (flags : Int) (mode : Nat) :
    SameAside k (openFile vol path flags mode) (openFile vol path flags mode) := by
  simp only [SameAside, openFile, rewound_lowest, rewound_names]
  split
  · rfl
  · split
    · split
      · rfl
      · rw [rewound_install]
        split <;> rfl
    · split
      · split
        · rfl
        · rw [rewound_install]
          rfl
      · rfl

theorem resize_rewound (k : Kernel) (ino : Ino) (size : Nat) :
    SameAside k (resize vol ino size) (resize vol ino size) := by
  unfold SameAside resize
  split <;> rfl

theorem truncate_rewound (k : Kernel) (path : Path) (size : Nat) :
    SameAside k (truncate vol path size) (truncate vol path size) := by
  simp only [SameAside, truncate, rewound_names]
  split
  · rfl
  · split
    · rfl
    · exact resize_rewound vol k _ size

theorem fsync_rewound (k : Kernel) (fd : Fd) (dataOnly : Bool) :
    SameAside k (fsync vol fd dataOnly) (fsync vol fd dataOnly) := by
  simp only [SameAside, fsync, rewound_table]
  cases k.table fd <;> rfl

theorem close_rewound (k : Kernel) (fd : Fd) : SameAside k (close fd) (close fd) := by
  simp only [SameAside, close, rewound_table]
  cases k.table fd with
  | none => rfl
  | some d => exact congrArg (Prod.mk (Except.ok ())) (rewound_install k fd none).symm

theorem lseek_apply {k : Kernel} {fd : Fd} {d : Description} (hfd : k.table fd = some d)
    {offset : Nat} (hoffset : offset ≤ vol.maxBytes d.ino) :
    lseek vol fd offset k = (.ok offset, k.install fd (some { d with pos := offset })) := by
  simp [lseek, hfd, Nat.not_lt.mpr hoffset]

/-- What comes after an `lseek` that is refused is not done. -/
theorem seek_refused {α : Type} {k : Kernel} {fd : Fd} {d : Description}
    (hfd : k.table fd = some d) {offset : Nat} (hoffset : vol.maxBytes d.ino < offset)
    (c : Sys α) : (do let _ ← lseek vol fd offset; c) k = (.error einval, k) := by
  simp [bind_apply, lseek, hfd, hoffset]

/-- `lseek` and then `read` is `pread`. -/
theorem seek_read {k : Kernel} {fd : Fd} {offset : Nat}
    (h : ∀ d, k.table fd = some d → offset ≤ vol.maxBytes d.ino) (size : Nat) :
    SameAside k (do let _ ← lseek vol fd offset; read fd size) (pread fd size offset) := by
  unfold SameAside
  cases hfd : k.table fd with
  | none => simp [bind_apply, lseek, pread, hfd]
  | some d =>
      have hmoved := rewound_moved hfd offset
      have hthere : (k.install fd (some { d with pos := offset })).table fd =
          some { d with pos := offset } := Function.update_self ..
      have hagain := rewound_moved hthere
        (offset + (slice (k.contents d.ino) offset size).length)
      rw [bind_apply, lseek_apply vol hfd (h d hfd)]
      simp only [read, hthere, pread, rewound_table, hfd, Option.map_some,
        Description.rewound, rewound_contents]
      split
      · rw [hmoved]
      · rw [← hmoved, ← hagain]
        rfl

/-- `lseek` and then `write` is `pwrite`. -/
theorem seek_write {k : Kernel} {fd : Fd} {offset : Nat}
    (h : ∀ d, k.table fd = some d → offset ≤ vol.maxBytes d.ino) (bytes : List UInt8) :
    SameAside k (do let _ ← lseek vol fd offset; write vol fd bytes)
      (pwrite vol fd bytes offset) := by
  unfold SameAside
  cases hfd : k.table fd with
  | none => simp [bind_apply, lseek, pwrite, hfd]
  | some d =>
      have hmoved := rewound_moved hfd offset
      have hthere : (k.install fd (some { d with pos := offset })).table fd =
          some { d with pos := offset } := Function.update_self ..
      have hstore : ∀ data pos,
          (((k.install fd (some { d with pos := offset })).store d.ino data).install fd
            (some { d with pos := pos })).rewound = k.rewound.store d.ino data := by
        intro data pos
        have hstill : ((k.install fd (some { d with pos := offset })).store d.ino data).table
            fd = some { d with pos := offset } := hthere
        rw [← hmoved]
        exact rewound_moved hstill pos
      rw [bind_apply, lseek_apply vol hfd (h d hfd)]
      simp only [write, hthere, pwrite, rewound_table, hfd, Option.map_some,
        Description.rewound, rewound_contents, Description.target]
      split
      · rw [hmoved]
      · cases htaken : vol.accepts k.contents d.ino
          (if d.append then (k.contents d.ino).length else offset) bytes.length with
        | error errno => simp [Kernel.install, htaken, ← hmoved]
        | ok n =>
            have hcontents : ∀ d', (k.install fd d').contents = k.contents := fun _ => rfl
            simp only [hcontents, htaken, hstore]

end BpftimeBenchmark.OpenFiles
