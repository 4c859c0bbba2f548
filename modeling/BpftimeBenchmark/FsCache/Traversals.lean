import BpftimeBenchmark.FsCache.Cache

/-!
One thread listing one directory over and over. The kernel hands out a listing in
chunks, one for each `getdents64`, and then 0. The cache has room for one chunk
and answers the call after it with 0, so it is transparent exactly to
directories whose listing is at most one chunk.
-/

namespace BpftimeBenchmark.FsCache

open Transition

/-- A reader's loop: it repeats a call until that returns 0 and keeps the bytes
of the calls before. -/
inductive Listed {S : Type} (call : S → CInt × List UInt8 → S → Prop) :
    S → List (List UInt8) → S → Prop where
  | done {s t : S} {bytes : List UInt8} : call s (0, bytes) t → Listed call s [] t
  | more {s t u : S} {ret : CInt} {bytes : List UInt8} {rest : List (List UInt8)} :
      call s (ret, bytes) t → ret ≠ 0 → Listed call t rest u →
        Listed call s (bytes :: rest) u

section

variable {S : Type} {call : S → CInt × List UInt8 → S → Prop} {s t u : S} {ret : CInt}
  {bytes : List UInt8} {chunks : List (List UInt8)}

/-- A call with one outcome, which is the end. -/
theorem listed_end (hcall : ∀ o v, call s o v ↔ o = (0, bytes) ∧ v = t) :
    Listed call s chunks u ↔ chunks = [] ∧ u = t := by
  constructor
  · intro h
    cases h with
    | done hdone => exact ⟨rfl, ((hcall _ _).mp hdone).2⟩
    | more hmore hne _ => exact absurd (congrArg Prod.fst ((hcall _ _).mp hmore).1) hne
  · rintro ⟨rfl, rfl⟩
    exact .done ((hcall _ _).mpr ⟨rfl, rfl⟩)

/-- A call with one outcome, which is a chunk. -/
theorem listed_chunk (hcall : ∀ o v, call s o v ↔ o = (ret, bytes) ∧ v = t)
    (hret : ret ≠ 0) :
    Listed call s chunks u ↔ ∃ rest, chunks = bytes :: rest ∧ Listed call t rest u := by
  constructor
  · intro h
    cases h with
    | done hdone =>
        exact absurd (congrArg Prod.fst ((hcall _ _).mp hdone).1).symm hret
    | more hmore hne hrest =>
        obtain ⟨hout, rfl⟩ := (hcall _ _).mp hmore
        cases hout
        exact ⟨_, rfl, hrest⟩
  · rintro ⟨rest, rfl, hrest⟩
    exact .more ((hcall _ _).mpr ⟨rfl, rfl⟩) hret hrest

end

/-- A directory, the chunks in which the kernel lists it for buffers of `count`
bytes, and the thread that lists it. No thread of a process has id 0. -/
structure Directory where
  name : List UInt8
  realpath : List UInt8 → CharArray nameMax
  chunks : List (List UInt8)
  reader : Task
  count : U32
  nonempty : ∀ c ∈ chunks, c ≠ []
  fits : ∀ c ∈ chunks, c.length ≤ count.toNat ∧ c.length ≤ dentsBufSize
  thread : reader.pidTgid ≠ 0

namespace Directory

variable (D : Directory)

/-- What is left to list on each open descriptor. -/
abbrev Remaining := U32 × U32 → Option (List (List UInt8))

/-- The kernel's next answer, given what is left. -/
def next : List (List UInt8) → CInt × List UInt8
  | [] => (0, [])
  | c :: _ => (BitVec.ofNat 32 c.length, c)

/-- The kernel around this directory: opening it fails or returns a descriptor
that was closed, and each `getdents64` returns the next chunk. -/
def exec (k : Remaining) (task : Task) (call : Syscall) (resp : Response) :
    Option Remaining :=
  match call with
  | .openPath name _ =>
      if resp.ret.toInt < 0 then some k
      else if name = D.name ∧ k (task.pid, resp.ret) = none then
        some (Function.update k (task.pid, resp.ret) (some D.chunks))
      else none
  | .getdents64 fd _ _ =>
      match k (task.pid, fd) with
      | some rem =>
          if (resp.ret, resp.data) = next rem then
            some (Function.update k (task.pid, fd) (some rem.tail))
          else none
      | none => none
  | .close fd => some (Function.update k (task.pid, fd) none)
  | _ => none

def kernel : Kernel Remaining := ⟨D.exec, fun _ _ name => D.realpath name⟩

/-- The path the descriptors of the directory are recorded with. -/
def path : DirFdData := ⟨D.realpath (CharArray.probeReadStr nameMax D.name).cstr⟩

/-- One `getdents64` of the reader without fs-cache. -/
def native (fd : CInt) (dirp : Nat) (k : Remaining) (out : CInt × List UInt8)
    (k' : Remaining) : Prop :=
  ∃ resp, D.exec k D.reader (.getdents64 fd dirp D.count) resp = some k' ∧
    out = (resp.ret, resp.data)

/-- The same with the handlers attached: the value it returns and that many
bytes of the buffer. -/
def hooked (fd : CInt) (dirp : Nat) (w : World Remaining) (out : CInt × List UInt8)
    (t : World Remaining) : Prop :=
  ∃ resp r, complete D.kernel w D.reader (.getdents64 fd dirp D.count) resp = some t ∧
    t.replies = w.replies ++ [r] ∧ out = (r.ret, r.bytes.bytes.take r.ret.toNat)

/-- The reader opens the directory as `fd`. -/
def Opens (w : World Remaining) (fd : CInt) (v : World Remaining) : Prop :=
  0 ≤ fd.toInt ∧ ∃ flags, complete D.kernel w D.reader (.openPath D.name flags)
    ⟨fd, []⟩ = some v

/-- States between the traversals of a reader that may open the directory. It
closes its descriptors at any later time or never. -/
inductive Visited : World Remaining → Prop where
  | start {w : World Remaining} : Attached w →
      w.maps.denied (filterKey D.reader) D.name = false → Visited w
  | traverse {w v t : World Remaining} {fd : CInt} {dirp : Nat}
      {chunks : List (List UInt8)} : Visited w → D.Opens w fd v →
      Listed (D.hooked fd dirp) v chunks t → Visited t
  | close {w t : World Remaining} {fd : CInt} {resp : Response} : Visited w →
      complete D.kernel w D.reader (.close fd) resp = some t → Visited t

/-- Whenever the reader has opened the directory, what it goes on to receive is
what it would receive without fs-cache, and it receives something. -/
def Transparent : Prop :=
  ∀ w v fd dirp, D.Visited w → D.Opens w fd v → ∀ chunks,
    (∃ t, Listed (D.hooked fd dirp) v chunks t) ↔
      ∃ k, Listed (D.native fd dirp) v.kernel chunks k

variable {D} {fd : CInt} {dirp : Nat} {w v t : World Remaining}

theorem ofNat_length_ne_zero {c : List UInt8} (hc : c ∈ D.chunks) :
    BitVec.ofNat 32 c.length ≠ 0 := by
  have hpos := List.length_pos_of_ne_nil (D.nonempty c hc)
  have hsize : c.length ≤ 2048 := (D.fits c hc).2
  intro h
  have hnat := congrArg BitVec.toNat h
  simp only [BitVec.toNat_ofNat, BitVec.ofNat_eq_ofNat] at hnat
  omega

theorem toNat_ofNat_length {c : List UInt8} (hc : c ∈ D.chunks) :
    (BitVec.ofNat 32 c.length).toNat = c.length := by
  have hsize : c.length ≤ 2048 := (D.fits c hc).2
  rw [BitVec.toNat_ofNat]
  omega

theorem toInt_ofNat_length {c : List UInt8} (hc : c ∈ D.chunks) :
    ¬ (BitVec.ofNat 32 c.length).toInt < 0 := by
  have hsize : c.length ≤ 2048 := (D.fits c hc).2
  rw [← msb_false_iff, BitVec.msb_eq_decide, toNat_ofNat_length hc]
  simp
  omega

theorem exec_getdents64 {k k' : Remaining} {count : U32} {resp : Response}
    {rem : List (List UInt8)} (hk : k (D.reader.pid, fd) = some rem) :
    D.exec k D.reader (.getdents64 fd dirp count) resp = some k' ↔
      (resp.ret, resp.data) = next rem ∧
        k' = Function.update k (D.reader.pid, fd) (some rem.tail) := by
  simp only [exec, hk]
  split
  · rename_i hresp
    simp [hresp, eq_comm]
  · rename_i hresp
    simp [hresp]

theorem native_iff {k k' : Remaining} {out : CInt × List UInt8}
    {rem : List (List UInt8)} (hk : k (D.reader.pid, fd) = some rem) :
    D.native fd dirp k out k' ↔
      out = next rem ∧ k' = Function.update k (D.reader.pid, fd) (some rem.tail) := by
  constructor
  · rintro ⟨resp, hstep, rfl⟩
    exact (exec_getdents64 hk).mp hstep
  · rintro ⟨rfl, hk'⟩
    exact ⟨⟨(next rem).1, (next rem).2⟩, (exec_getdents64 hk).mpr ⟨rfl, hk'⟩, rfl⟩

/-- Without the handlers the reader receives what is left on its descriptor. -/
theorem native_listed (rem : List (List UInt8)) {k : Remaining}
    {chunks : List (List UInt8)} (hsub : ∀ c ∈ rem, c ∈ D.chunks)
    (hk : k (D.reader.pid, fd) = some rem) :
    (∃ k', Listed (D.native fd dirp) k chunks k') ↔ chunks = rem := by
  have hcall : ∀ o v, D.native fd dirp k o v ↔ o = next rem ∧
      v = Function.update k (D.reader.pid, fd) (some rem.tail) := fun _ _ => native_iff hk
  induction rem generalizing k chunks with
  | nil => simp [listed_end hcall]
  | cons c rest ih =>
      have hrest : ∀ x ∈ rest, x ∈ D.chunks := fun x hx => hsub x (by simp [hx])
      have hleft : Function.update k (D.reader.pid, fd) (some rest) (D.reader.pid, fd) =
          some rest := Function.update_self _ _ _
      simp only [listed_chunk hcall (ofNat_length_ne_zero (hsub c (by simp)))]
      constructor
      · rintro ⟨k', later, rfl, hlater⟩
        rw [(ih hrest hleft (fun _ _ => native_iff hleft)).mp ⟨k', hlater⟩]
      · rintro rfl
        obtain ⟨k', hk'⟩ := (ih hrest hleft (fun _ _ => native_iff hleft)).mpr rfl
        exact ⟨k', rest, rfl, hk'⟩

/-- The outcome of one call through fs-cache: what the reader gets, and the maps
and the kernel afterwards. -/
def Outcome (w : World Remaining) (fd : CInt) (dirp : Nat) (out : CInt × List UInt8)
    (m : Maps) (k : Remaining) (t : World Remaining) : Prop :=
  (∀ o v, D.hooked fd dirp w o v ↔ o = out ∧ v = t) ∧
    t.maps = m ∧ t.kernel = k ∧ t.phase = w.phase

theorem hooked_iff {r : Reply} (hreplies : t.replies = w.replies ++ [r])
    (hsome : ∃ resp, complete D.kernel w D.reader (.getdents64 fd dirp D.count) resp =
      some t)
    (honly : ∀ resp v, complete D.kernel w D.reader (.getdents64 fd dirp D.count) resp =
      some v → v = t) (o : CInt × List UInt8) (v : World Remaining) :
    D.hooked fd dirp w o v ↔ o = (r.ret, r.bytes.bytes.take r.ret.toNat) ∧ v = t := by
  constructor
  · rintro ⟨resp, r', hrun, hlast, rfl⟩
    have hv := honly resp v hrun
    subst hv
    have hr : [r'] = [r] := List.append_cancel_left (hlast.symm.trans hreplies)
    cases hr
    exact ⟨rfl, rfl⟩
  · rintro ⟨rfl, rfl⟩
    obtain ⟨resp, hrun⟩ := hsome
    exact ⟨resp, r, hrun, hreplies, rfl⟩

/-- A call that the enter handler answers. -/
theorem outcome_override {m : Maps} {mem : Memory} {ret : CInt}
    (hidle : w.phase D.reader.pidTgid = .idle)
    (h : enterHandler D.reader (.getdents64 fd dirp D.count) w.maps
      (w.mem D.reader.pid) = (m, mem, some ret)) :
    D.Outcome w fd dirp (ret, (CharArray.probeRead dentsBufSize mem
      dirp).bytes.take ret.toNat) m w.kernel
      (w.answered D.reader (.getdents64 fd dirp D.count) m mem ret) := by
  have hrun := complete_override (K := D.kernel) hidle h
  refine ⟨?_, rfl, rfl, rfl⟩
  refine hooked_iff (r := ⟨D.reader, fd, dirp, ret, none, _, _⟩) rfl
    ⟨⟨0, []⟩, hrun _⟩ ?_
  intro resp v hv
  exact (Option.some.inj ((hrun resp).symm.trans hv)).symm

theorem next_length {rem : List (List UInt8)} (hsub : ∀ c ∈ rem, c ∈ D.chunks) :
    (next rem).1.toNat = (next rem).2.length ∧ (next rem).2.length ≤ dentsBufSize ∧
      (next rem).2.length ≤ D.count.toNat ∧ ¬ (next rem).1.toInt < 0 := by
  cases rem with
  | nil => exact ⟨rfl, Nat.zero_le _, Nat.zero_le _, by decide⟩
  | cons c rest =>
      have hc := hsub c (by simp)
      exact ⟨toNat_ofNat_length hc, (D.fits c hc).2, (D.fits c hc).1,
        toInt_ofNat_length hc⟩

/-- The reader's memory after the kernel has copied out its answer. -/
def copied (D : Directory) (w : World Remaining) (dirp : Nat) (rem : List (List UInt8)) : Memory :=
  (w.mem D.reader.pid).write dirp (next rem).2

theorem read_copied {rem : List (List UInt8)} (hsub : ∀ c ∈ rem, c ∈ D.chunks) :
    (CharArray.probeRead dentsBufSize (D.copied w dirp rem) dirp).bytes.take
      (next rem).2.length = (next rem).2 :=
  CharArray.take_probeRead (next_length hsub).2.1 (fun _ hi => Memory.write_inside hi)

/-- A call that the kernel answers. -/
theorem outcome_pass {m : Maps} {rem : List (List UInt8)}
    (hidle : w.phase D.reader.pidTgid = .idle)
    (h : enterHandler D.reader (.getdents64 fd dirp D.count) w.maps
      (w.mem D.reader.pid) = (m, w.mem D.reader.pid, none))
    (hsub : ∀ c ∈ rem, c ∈ D.chunks) (hk : w.kernel (D.reader.pid, fd) = some rem) :
    ∃ t, D.Outcome w fd dirp (next rem)
      (sysExitGetdents64 D.reader (next rem).1 m (D.copied w dirp rem))
      (Function.update w.kernel (D.reader.pid, fd) (some rem.tail)) t := by
  have hrun := complete_pass (K := D.kernel) hidle h
  have hreplies : (w.finished D.kernel D.reader (.getdents64 fd dirp D.count) m
      (w.mem D.reader.pid) ⟨(next rem).1, (next rem).2⟩
      (Function.update w.kernel (D.reader.pid, fd) (some rem.tail))).replies = w.replies ++
        [⟨D.reader, fd, dirp, (next rem).1, m.pathOf D.reader.pid fd, m.pathOf D.reader.pid fd,
          CharArray.probeRead dentsBufSize (D.copied w dirp rem) dirp⟩] := rfl
  refine ⟨w.finished D.kernel D.reader (.getdents64 fd dirp D.count) m
    (w.mem D.reader.pid) ⟨(next rem).1, (next rem).2⟩
    (Function.update w.kernel (D.reader.pid, fd) (some rem.tail)), ?_, rfl, rfl, rfl⟩
  intro o v
  rw [hooked_iff hreplies, (next_length hsub).1, read_copied hsub]
  · refine ⟨⟨(next rem).1, (next rem).2⟩, ?_⟩
    have hexec : D.exec w.kernel D.reader (.getdents64 fd dirp D.count)
        ⟨(next rem).1, (next rem).2⟩ = some (Function.update w.kernel
          (D.reader.pid, fd) (some rem.tail)) := (exec_getdents64 hk).mpr ⟨rfl, rfl⟩
    rw [hrun]
    exact Option.map_eq_some_iff.mpr ⟨_, hexec, rfl⟩
  · intro resp u hu
    rw [hrun] at hu
    obtain ⟨k, hanswer, rfl⟩ := Option.map_eq_some_iff.mp hu
    have hexec : D.exec w.kernel D.reader (.getdents64 fd dirp D.count) resp = some k :=
      hanswer
    obtain ⟨hresp, rfl⟩ := (exec_getdents64 hk).mp hexec
    rw [← hresp]

variable (D) in
/-- What holds of the reader between two of its calls. -/
structure Between (w : World Remaining) : Prop where
  idle : w.phase D.reader.pidTgid = .idle
  allowed : w.maps.denied (filterKey D.reader) D.name = false
  paths : ∀ pid fd path, w.maps.pathOf pid fd = some path → path = D.path
  record : w.maps.openArgsStart.HasRoom D.reader.pidTgid

variable (D) in
/-- The directory has not been listed, and nothing stops the first listing from
being cached. -/
def Unlisted (m : Maps) : Prop :=
  m.getdents64CacheMap.lookup D.path = none ∧ m.getdents64CacheMap.HasRoom D.path ∧
    m.getdents64ArgsStart.HasRoom D.reader.pidTgid

variable (D) in
/-- The entry holds the first answer of the kernel. -/
def Holds (buf : Getdents64Buffer) : Prop :=
  buf.nread = (next D.chunks).1 ∧
    buf.buf.bytes.take (next D.chunks).2.length = (next D.chunks).2

variable (D) in
/-- The directory is cached, and the reader's next call is not taken for the one
that ends a listing. -/
def Cached (m : Maps) : Prop :=
  ∃ buf, m.getdents64CacheMap.lookup D.path = some buf ∧ D.Holds buf ∧
    (D.chunks ≠ [] → buf.lastPidTgid ≠ D.reader.pidTgid)

theorem Between.of_same (h : D.Between w) (hphase : t.phase = w.phase)
    (hdirs : t.maps.dirFdMap = w.maps.dirFdMap)
    (hfilter : t.maps.openFileFilter = w.maps.openFileFilter)
    (hopen : t.maps.openArgsStart = w.maps.openArgsStart) : D.Between t where
  idle := by rw [hphase, h.idle]
  allowed := by simpa only [Maps.denied, hfilter] using h.allowed
  paths pid fd path hpath := by
    rw [Maps.pathOf, hdirs] at hpath
    exact h.paths pid fd path hpath
  record := by rw [hopen]; exact h.record

theorem Between.outcome {out : CInt × List UInt8} {k : Remaining} (h : D.Between w)
    {m : Maps} (hout : D.Outcome w fd dirp out m k t)
    (hdirs : m.dirFdMap = w.maps.dirFdMap)
    (hfilter : m.openFileFilter = w.maps.openFileFilter)
    (hopen : m.openArgsStart = w.maps.openArgsStart) : D.Between t := by
  obtain ⟨-, rfl, -, hphase⟩ := hout
  exact h.of_same hphase hdirs hfilter hopen

theorem lookup_cachePut_self {m : Maps} {path : DirFdData} {buf : Getdents64Buffer}
    (buf' : Getdents64Buffer) (h : m.getdents64CacheMap.lookup path = some buf) :
    (m.cachePut path buf').getdents64CacheMap.lookup path = some buf' :=
  BoundedMap.lookup_update_self buf' (BoundedMap.hasRoom_of_lookup h)

/-- The call after a chunk: the entry names the reader, who gets 0. -/
theorem listed_marked (dirp : Nat) {buf : Getdents64Buffer} (h : D.Between w)
    (hpath : w.maps.pathOf D.reader.pid fd = some D.path)
    (hbuf : w.maps.getdents64CacheMap.lookup D.path = some buf) (hholds : D.Holds buf)
    (hlast : D.reader.pidTgid = buf.lastPidTgid) :
    ∃ t, (∀ chunks v, Listed (D.hooked fd dirp) w chunks v ↔ chunks = [] ∧ v = t) ∧
      D.Between t ∧ D.Cached t.maps := by
  have hout := outcome_override h.idle
    (sysEnterGetdents64_marked dirp D.count (w.mem D.reader.pid) hpath hbuf hlast)
  refine ⟨_, fun chunks v => listed_end hout.1, h.outcome hout rfl rfl rfl, ?_⟩
  refine ⟨_, lookup_cachePut_self _ hbuf, hholds, ?_⟩
  intro _
  exact D.thread.symm

/-- After the first answer, with the entry naming the reader: the traversal is
over, or its next call is. -/
theorem listed_first {m : Maps} {k : Remaining} {buf : Getdents64Buffer}
    (hout : D.Outcome w fd dirp (next D.chunks) m k t) (h : D.Between t)
    (hpath : m.pathOf D.reader.pid fd = some D.path)
    (hbuf : m.getdents64CacheMap.lookup D.path = some buf) (hholds : D.Holds buf)
    (hlast : D.reader.pidTgid = buf.lastPidTgid) :
    ∃ t', (∀ chunks v, Listed (D.hooked fd dirp) w chunks v ↔
        chunks = D.chunks.take 1 ∧ v = t') ∧ D.Between t' ∧ D.Cached t'.maps := by
  obtain ⟨hcall, rfl, -, -⟩ := hout
  cases hchunks : D.chunks with
  | nil =>
      rw [hchunks] at hcall
      refine ⟨t, fun chunks v => listed_end hcall, h, buf, hbuf, hholds, ?_⟩
      intro hne
      exact absurd hchunks hne
  | cons c rest =>
      have hc : c ∈ D.chunks := by simp [hchunks]
      rw [hchunks] at hcall
      obtain ⟨t', ht', hbetween, hcached⟩ := listed_marked dirp h hpath hbuf
        hholds hlast
      refine ⟨t', fun chunks v => ?_, hbetween, hcached⟩
      rw [listed_chunk hcall (ofNat_length_ne_zero hc)]
      simp [ht']

/-- A traversal of the cached directory on a recorded descriptor. -/
theorem listed_cached (dirp : Nat) (h : D.Between w) (hcached : D.Cached w.maps)
    (hpath : w.maps.pathOf D.reader.pid fd = some D.path) :
    ∃ t, (∀ chunks v, Listed (D.hooked fd dirp) w chunks v ↔
        chunks = D.chunks.take 1 ∧ v = t) ∧ D.Between t ∧ D.Cached t.maps := by
  obtain ⟨buf, hbuf, hholds, hunmarked⟩ := hcached
  by_cases hlast : D.reader.pidTgid = buf.lastPidTgid
  · have hempty : D.chunks = [] := by
      by_contra hne
      exact hunmarked hne hlast.symm
    obtain ⟨t, ht⟩ := listed_marked dirp h hpath hbuf hholds hlast
    refine ⟨t, ?_⟩
    rw [hempty]
    exact ht
  · have hsub : ∀ c ∈ D.chunks, c ∈ D.chunks := fun _ hc => hc
    obtain ⟨hnread, hsize, hcount, -⟩ := next_length hsub
    have hout := outcome_override h.idle
      (sysEnterGetdents64_served dirp D.count (w.mem D.reader.pid) hpath hbuf hlast)
    have hserved : (next D.chunks).2.length ≤ servedLen D.count := by
      unfold servedLen
      split <;> assumption
    have hread : (CharArray.probeRead dentsBufSize ((w.mem D.reader.pid).write dirp
        (buf.buf.bytes.take (servedLen D.count))) dirp).bytes.take buf.nread.toNat =
          (next D.chunks).2 := by
      rw [hholds.1, hnread]
      refine CharArray.take_probeRead hsize (fun i hi => ?_)
      have hinside : i < (buf.buf.bytes.take (servedLen D.count)).length := by
        rw [List.length_take, buf.buf.length_eq]
        omega
      rw [Memory.write_inside hinside, ← hholds.2]
      simp [CString.byteAt, hi, hi.trans_le hserved]
    have hnext : (buf.nread, (next D.chunks).2) = next D.chunks := by rw [hholds.1]
    rw [hread, hnext] at hout
    exact listed_first hout (h.outcome hout rfl rfl rfl) hpath
      (lookup_cachePut_self { buf with lastPidTgid := D.reader.pidTgid } hbuf) hholds rfl

/-- The first traversal. -/
theorem listed_unlisted (dirp : Nat) (h : D.Between w) (hunlisted : D.Unlisted w.maps)
    (hpath : w.maps.pathOf D.reader.pid fd = some D.path)
    (hk : w.kernel (D.reader.pid, fd) = some D.chunks) :
    ∃ t, (∀ chunks v, Listed (D.hooked fd dirp) w chunks v ↔
        chunks = D.chunks.take 1 ∧ v = t) ∧ D.Between t ∧ D.Cached t.maps := by
  obtain ⟨habsent, hroom, hargs⟩ := hunlisted
  have hsub : ∀ c ∈ D.chunks, c ∈ D.chunks := fun _ hc => hc
  obtain ⟨t, hout⟩ := outcome_pass h.idle
    (sysEnterGetdents64_missed dirp D.count (w.mem D.reader.pid) hpath habsent) hsub hk
  have hrecord : (storeGetdentsArgs D.reader ⟨fd, dirp, D.count⟩
      w.maps).getdents64ArgsStart.lookup D.reader.pidTgid = some ⟨fd, dirp, D.count⟩ :=
    BoundedMap.lookup_update_self _ hargs
  have hfill := sysExitGetdents64_fill (D.copied w dirp D.chunks)
    (next_length hsub).2.2.2 hrecord hpath habsent hroom
  rw [hfill] at hout
  exact listed_first hout (h.outcome hout rfl rfl rfl) hpath
    (BoundedMap.lookup_update_self _ hroom) ⟨rfl, read_copied hsub⟩ rfl

/-- With the directory cached no exit handler fills anything. -/
theorem sysExitGetdents64_of_cached (h : D.Between w) (hcached : D.Cached w.maps)
    (ret : CInt) (mem : Memory) : sysExitGetdents64 D.reader ret w.maps mem = w.maps := by
  rcases sysExitGetdents64_eq D.reader ret w.maps mem with
    hsame | ⟨args, path, -, -, hpath, habsent, -, -⟩
  · exact hsame
  · obtain ⟨buf, hbuf, -⟩ := hcached
    rw [h.paths _ _ _ hpath, hbuf] at habsent
    cases habsent

/-- On a descriptor that could not be recorded the kernel answers every call. -/
theorem listed_unrecorded (dirp : Nat) (rem : List (List UInt8)) (h : D.Between w)
    (hcached : D.Cached w.maps) (hpath : w.maps.pathOf D.reader.pid fd = none)
    (hsub : ∀ c ∈ rem, c ∈ D.chunks) (hk : w.kernel (D.reader.pid, fd) = some rem) :
    ∃ t, (∀ chunks v, Listed (D.hooked fd dirp) w chunks v ↔ chunks = rem ∧ v = t) ∧
      D.Between t ∧ D.Cached t.maps := by
  induction rem generalizing w with
  | nil =>
      obtain ⟨t, hout⟩ := outcome_pass h.idle
        (sysEnterGetdents64_unrecorded dirp D.count (w.mem D.reader.pid) hpath) hsub hk
      rw [sysExitGetdents64_of_cached h hcached] at hout
      refine ⟨t, fun chunks v => listed_end hout.1, h.outcome hout rfl rfl rfl, ?_⟩
      rw [hout.2.1]
      exact hcached
  | cons c rest ih =>
      obtain ⟨t, hout⟩ := outcome_pass h.idle
        (sysEnterGetdents64_unrecorded dirp D.count (w.mem D.reader.pid) hpath) hsub hk
      rw [sysExitGetdents64_of_cached h hcached] at hout
      have hbetween : D.Between t := h.outcome hout rfl rfl rfl
      obtain ⟨hcall, hmaps, hkernel, -⟩ := hout
      rw [← hmaps] at hcached hpath
      have hleft : t.kernel (D.reader.pid, fd) = some rest := by
        rw [hkernel]
        exact Function.update_self _ _ _
      obtain ⟨u, hu, hlater⟩ := ih hbetween hcached hpath
        (fun x hx => hsub x (by simp [hx])) hleft
      refine ⟨u, fun chunks v => ?_, hlater⟩
      rw [listed_chunk hcall (ofNat_length_ne_zero (hsub c (by simp)))]
      simp [hu]

/-- What the reader has left behind when it opens the directory once more. -/
structure VisitedInv (w : World Remaining) : Prop where
  between : D.Between w
  stage : D.Unlisted w.maps ∧ (∀ key, w.maps.dirFdMap.lookup key = none) ∨
    D.Cached w.maps

/-- Opening files the new descriptor under the path of the directory, unless
`dir_fd_map` is full. -/
theorem opens_eq (h : D.Between w) (hopen : D.Opens w fd v) :
    v.phase = w.phase ∧ v.kernel (D.reader.pid, fd) = some D.chunks ∧
      ∃ args, v.maps =
        setDirFdData D.reader fd D.path (storeOpenArgs D.reader args w.maps) := by
  obtain ⟨hret, flags, hrun⟩ := hopen
  have hneg : ¬ fd.toInt < 0 := by omega
  have henter : enterHandler D.reader (.openPath D.name flags) w.maps
      (w.mem D.reader.pid) = (storeOpenArgs D.reader
        ⟨CharArray.probeReadStr nameMax D.name, 0, flags⟩ w.maps,
          w.mem D.reader.pid, none) := by
    simp [enterHandler, sysEnterOpen_eq, h.allowed]
  rw [complete_pass h.idle henter] at hrun
  obtain ⟨k, hexec, rfl⟩ := Option.map_eq_some_iff.mp hrun
  have hkernel : D.exec w.kernel D.reader (.openPath D.name flags) ⟨fd, []⟩ = some k :=
    hexec
  simp only [exec, hneg, if_false, true_and] at hkernel
  split at hkernel
  · cases hkernel
    refine ⟨rfl, Function.update_self _ _ _,
      ⟨CharArray.probeReadStr nameMax D.name, 0, flags⟩, ?_⟩
    exact (traceExit_store h.record).trans (if_neg hneg)
  · cases hkernel

theorem Between.opens (h : D.Between w) (hopen : D.Opens w fd v) : D.Between v := by
  obtain ⟨hphase, -, args, hmaps⟩ := opens_eq h hopen
  refine ⟨by rw [hphase, h.idle], ?_, ?_, ?_⟩
  · rw [hmaps, setDirFdData_eq]
    exact h.allowed
  · intro pid fd' path hpath
    rw [hmaps] at hpath
    by_cases hsame : pid = D.reader.pid ∧ fd' = fd
    · obtain ⟨rfl, rfl⟩ := hsame
      rw [Maps.pathOf, setDirFdData_eq] at hpath
      exact BoundedMap.eq_of_lookup_update hpath
    · rw [pathOf_setDirFdData_ne _ hsame] at hpath
      exact h.paths pid fd' path hpath
  · rw [hmaps, openArgs_setDirFdData]
    exact BoundedMap.hasRoom_of_lookup (BoundedMap.lookup_update_self args h.record)

/-- A traversal has one outcome: the first chunk alone, or on an unrecorded
descriptor the whole listing. It leaves the directory cached. -/
theorem VisitedInv.traversal (h : D.VisitedInv w) (hopen : D.Opens w fd v)
    (dirp : Nat) :
    ∃ got t, (∀ chunks u, Listed (D.hooked fd dirp) v chunks u ↔
        chunks = got ∧ u = t) ∧
      (got = D.chunks.take 1 ∨ got = D.chunks ∧ D.Cached w.maps) ∧
      D.Between t ∧ D.Cached t.maps := by
  have hbetween := h.between.opens hopen
  obtain ⟨-, hk, args, hmaps⟩ := opens_eq h.between hopen
  have hcache : v.maps.getdents64CacheMap = w.maps.getdents64CacheMap := by
    rw [hmaps, cache_setDirFdData]
    rfl
  have hrecords : v.maps.getdents64ArgsStart = w.maps.getdents64ArgsStart := by
    rw [hmaps, getdentsArgs_setDirFdData]
    rfl
  by_cases hroom : (storeOpenArgs D.reader args w.maps).dirFdMap.HasRoom
      (pfdKey D.reader.pid fd)
  · have hpath : v.maps.pathOf D.reader.pid fd = some D.path := by
      rw [hmaps]
      exact pathOf_setDirFdData_self _ hroom
    refine ⟨D.chunks.take 1, ?_⟩
    rcases h.stage with ⟨hunlisted, -⟩ | hcached
    · have hstill : D.Unlisted v.maps := by
        rw [Unlisted, hcache, hrecords]
        exact hunlisted
      obtain ⟨t, ht, hafter⟩ := listed_unlisted dirp hbetween hstill hpath hk
      exact ⟨t, ht, Or.inl rfl, hafter⟩
    · have hstill : D.Cached v.maps := by
        rw [Cached, hcache]
        exact hcached
      obtain ⟨t, ht, hafter⟩ := listed_cached dirp hbetween hstill hpath
      exact ⟨t, ht, Or.inl rfl, hafter⟩
  · have hpath : v.maps.pathOf D.reader.pid fd = none := by
      rw [hmaps]
      exact pathOf_setDirFdData_full _ hroom
    rcases h.stage with ⟨-, hnone⟩ | hcached
    · have hsize : w.maps.dirFdMap.size ≤ (∅ : Finset U64).card := by
        apply BoundedMap.size_le_of_keys
        intro key data hdata
        rw [hnone] at hdata
        cases hdata
      refine absurd (BoundedMap.hasRoom_of_size_lt ?_) hroom
      exact lt_of_le_of_lt hsize (by decide)
    · have hstill : D.Cached v.maps := by
        rw [Cached, hcache]
        exact hcached
      obtain ⟨t, ht, hafter⟩ := listed_unrecorded dirp D.chunks hbetween hstill
        hpath (fun _ hc => hc) hk
      exact ⟨D.chunks, t, ht, Or.inr ⟨rfl, hcached⟩, hafter⟩

theorem visitedInv_close {resp : Response} (h : D.VisitedInv w)
    (hrun : complete D.kernel w D.reader (.close fd) resp = some t) : D.VisitedInv t := by
  have henter : enterHandler D.reader (.close fd) w.maps (w.mem D.reader.pid) =
      (clearDirDataFd D.reader fd w.maps, w.mem D.reader.pid, none) := rfl
  rw [complete_pass h.between.idle henter] at hrun
  obtain ⟨k, -, rfl⟩ := Option.map_eq_some_iff.mp hrun
  refine ⟨⟨h.between.idle, h.between.allowed, ?_, h.between.record⟩, ?_⟩
  · intro pid fd' path hpath
    exact h.between.paths pid fd' path (pathOf_of_clearDirDataFd hpath)
  · rcases h.stage with ⟨hunlisted, hnone⟩ | hcached
    · refine Or.inl ⟨hunlisted, fun key => ?_⟩
      by_contra hsome
      obtain ⟨data, hdata⟩ := Option.ne_none_iff_exists'.mp hsome
      have hbefore := (BoundedMap.lookup_delete_some hdata).2
      rw [hnone] at hbefore
      cases hbefore
    · exact Or.inr hcached

theorem visitedInv_of_visited (h : D.Visited w) : D.VisitedInv w := by
  induction h with
  | @start w hattached hallowed =>
      refine ⟨⟨hattached.phase _, hallowed, ?_, ?_⟩, Or.inl ⟨⟨?_, ?_, ?_⟩, ?_⟩⟩
      · intro pid fd path hpath
        simp [Maps.pathOf, hattached.dirFdMap] at hpath
      · rw [hattached.openArgsStart]
        exact BoundedMap.hasRoom_of_size_lt (by decide)
      · simp [hattached.getdents64CacheMap]
      · rw [hattached.getdents64CacheMap]
        exact BoundedMap.hasRoom_of_size_lt (by decide)
      · rw [hattached.getdents64ArgsStart]
        exact BoundedMap.hasRoom_of_size_lt (by decide)
      · intro key
        simp [hattached.dirFdMap]
  | traverse _ hopen hlisted ih =>
      obtain ⟨got, t, ht, -, hbetween, hcached⟩ := ih.traversal hopen _
      obtain ⟨-, rfl⟩ := (ht _ _).mp hlisted
      exact ⟨hbetween, Or.inr hcached⟩
  | close _ hrun ih => exact visitedInv_close ih hrun

/-- The reader before it has done anything. -/
def fresh : World Remaining where
  maps := Maps.empty
  kernel _ := none
  mem _ _ := 0
  phase _ := .idle
  listed _ := none
  replies := []

theorem visited_fresh : D.Visited fresh :=
  .start ⟨rfl, rfl, rfl, rfl, rfl, fun _ => rfl, rfl⟩ (by
    simp [fresh, Maps.denied, Maps.empty])

theorem opens_fresh : ∃ v, D.Opens fresh 3 v := by
  have henter : enterHandler D.reader (.openPath D.name 0) Maps.empty (fun _ => 0) =
      (storeOpenArgs D.reader ⟨CharArray.probeReadStr nameMax D.name, 0, 0⟩ Maps.empty,
        fun _ => 0, none) := by
    simp [enterHandler, sysEnterOpen_eq, Maps.denied, Maps.empty]
  have hrun := complete_pass (K := D.kernel) (w := fresh) rfl henter ⟨3, []⟩
  have hexec : D.kernel.exec (fresh.kernel) D.reader (.openPath D.name 0) ⟨3, []⟩ =
      some (Function.update (fun _ => none) (D.reader.pid, 3) (some D.chunks)) := by
    simp [kernel, exec, fresh]
  rw [hexec] at hrun
  exact ⟨_, by decide, 0, hrun⟩

/-- What a transparent cache hands to the very first traversal. -/
theorem take_of_transparent (h : D.Transparent) : D.chunks.take 1 = D.chunks := by
  obtain ⟨v, hopen⟩ := opens_fresh (D := D)
  have hvisited := visited_fresh (D := D)
  have hinv := visitedInv_of_visited hvisited
  obtain ⟨got, t, ht, hgot, -⟩ := hinv.traversal hopen 0
  obtain ⟨-, hk, -⟩ := opens_eq hinv.between hopen
  have hsame := (h fresh v 3 0 hvisited hopen got).mp ⟨t, (ht got t).mpr ⟨rfl, rfl⟩⟩
  rw [native_listed D.chunks (fun _ hc => hc) hk] at hsame
  rcases hgot with hfirst | ⟨-, buf, hbuf, -⟩
  · rw [← hfirst, hsame]
  · simp [fresh, Maps.empty] at hbuf

/-- A single reader notices nothing of fs-cache, on any traversal, exactly if the
listing is at most one chunk. -/
theorem transparent_iff (D : Directory) : D.Transparent ↔ D.chunks.length ≤ 1 := by
  constructor
  · intro h
    rw [← take_of_transparent h]
    exact List.length_take_le 1 D.chunks
  · intro hlength w v fd dirp hvisited hopen chunks
    have hinv := visitedInv_of_visited hvisited
    obtain ⟨got, t, ht, hgot, -⟩ := hinv.traversal hopen dirp
    obtain ⟨-, hk, -⟩ := opens_eq hinv.between hopen
    have hall : got = D.chunks := by
      rcases hgot with hfirst | ⟨hall, -⟩
      · rw [hfirst, List.take_of_length_le hlength]
      · exact hall
    rw [native_listed D.chunks (fun _ hc => hc) hk, ← hall]
    constructor
    · rintro ⟨u, hu⟩
      exact ((ht chunks u).mp hu).1
    · rintro rfl
      exact ⟨t, (ht _ _).mpr ⟨rfl, rfl⟩⟩

/-- A directory that takes two calls to list. -/
def twoChunks : Directory where
  name := [47, 100]
  realpath := plainPath
  chunks := [[1], [2]]
  reader := firstThread
  count := 2048
  nonempty := by decide
  fits := by decide
  thread := by decide

/-- Its second chunk is lost. -/
theorem twoChunks_not_transparent : ¬ twoChunks.Transparent := by
  intro h
  have hlost := take_of_transparent h
  revert hlost
  decide

end Directory

end BpftimeBenchmark.FsCache
