import BpftimeBenchmark.FsCache.Descriptors

/-!
Several threads listing one directory. Each repeats `getdents64` on a descriptor
of its own until it gets 0, and the whole listing is one chunk. The cache keeps
a single `last_pid_tgid` for the directory: the thread it names gets 0 next, and
every other thread gets the chunk, also one that has received it already.
-/

namespace BpftimeBenchmark.FsCache

open Transition

structure Reader where
  id : U64
  fd : CInt
  dirp : Nat
  count : U32
  deriving DecidableEq

def Reader.pid (r : Reader) : U32 := tgid r.id

def Reader.call (r : Reader) : Syscall := .getdents64 r.fd r.dirp r.count

def Reader.args (r : Reader) : GetdentsArgs := ⟨r.fd, r.dirp, r.count⟩

/-- A directory whose listing is one chunk that fits every reader's buffer.
Threads, descriptors and the buffers of one process are the readers' own. -/
structure Listing where
  path : DirFdData
  chunk : List UInt8
  readers : List Reader
  nonempty : 1 ≤ chunk.length
  fits : ∀ r ∈ readers, chunk.length ≤ r.count.toNat ∧ chunk.length ≤ dentsBufSize
  ids : ∀ r ∈ readers, r.id ≠ 0
  threads : ∀ r ∈ readers, ∀ s ∈ readers, r.id = s.id → r = s
  descriptors : ∀ r ∈ readers, ∀ s ∈ readers, r.pid = s.pid → r.fd = s.fd → r = s
  buffers : ∀ r ∈ readers, ∀ s ∈ readers, r.pid = s.pid → r ≠ s →
    r.dirp + r.count.toNat ≤ s.dirp ∨ s.dirp + s.count.toNat ≤ r.dirp

namespace Listing

variable (L : Listing)

def nread : CInt := BitVec.ofNat 32 L.chunk.length

/-- The kernel gives each descriptor the chunk once and then 0. Its state is the
set of descriptors at their end. -/
def exec (drained : Finset (U32 × U32)) (task : Task) (call : Syscall)
    (resp : Response) : Option (Finset (U32 × U32)) :=
  match call with
  | .getdents64 fd _ _ =>
      if (task.pid, fd) ∈ drained then
        if resp.ret = 0 ∧ resp.data = [] then some drained else none
      else if resp.ret = L.nread ∧ resp.data = L.chunk then
        some (insert (task.pid, fd) drained)
      else none
  | _ => none

def kernel : Kernel (Finset (U32 × U32)) := ⟨L.exec, fun _ _ _ => CharArray.zeros nameMax⟩

abbrev State := World (Finset (U32 × U32))

/-- Every reader's descriptor is recorded with the path and not read from yet.
An entry for the path may be there from earlier readers. -/
structure Ready (w : State) : Prop where
  paths : ∀ r ∈ L.readers, w.maps.pathOf r.pid r.fd = some L.path
  cached : ∀ buf, w.maps.getdents64CacheMap.lookup L.path = some buf →
    buf.nread = L.nread ∧ buf.buf.bytes.take L.chunk.length = L.chunk ∧
      ∀ r ∈ L.readers, buf.lastPidTgid ≠ r.id
  room : w.maps.getdents64CacheMap.HasRoom L.path
  unread : ∀ r ∈ L.readers, (r.pid, r.fd) ∉ w.kernel
  phase : ∀ id, w.phase id = .idle
  replies : w.replies = []

/-- The results of the reader's calls so far: the value returned and as many
bytes of its buffer. -/
def received (w : State) (r : Reader) : List (CInt × List UInt8) :=
  (w.replies.filter (fun x => x.task.pidTgid = r.id)).map
    (fun x => (x.ret, x.bytes.bytes.take x.ret.toNat))

def whole : CInt × List UInt8 := (L.nread, L.chunk)

def ending : CInt × List UInt8 := (0, [])

/-- Only the readers call, each until it has received 0, and the program writes
nothing into their buffers. -/
def Reads (w : State) : Label → Prop
  | .enter task call =>
      ∃ r ∈ L.readers, r.id = task.pidTgid ∧ call = r.call ∧ ending ∉ received w r
  | .store pid p _ =>
      ∀ r ∈ L.readers, r.pid = pid → p < r.dirp ∨ r.dirp + r.count.toNat ≤ p
  | _ => True

/-- When a reader that has the listing calls again and the path is cached, no
other reader has taken the mark in between. -/
def MarkKept (w : State) : Label → Prop
  | .enter task _ =>
      ∀ r ∈ L.readers, r.id = task.pidTgid → received w r ≠ [] →
        ∀ buf ∈ w.maps.getdents64CacheMap.lookup L.path, buf.lastPidTgid = r.id
  | _ => True

instance (w : State) : ∀ l, Decidable (L.Reads w l)
  | .enter task call => inferInstanceAs (Decidable
      (∃ r ∈ L.readers, r.id = task.pidTgid ∧ call = r.call ∧ ending ∉ received w r))
  | .kernel _ _ _ => isTrue trivial
  | .leave _ _ _ => isTrue trivial
  | .store pid p _ => inferInstanceAs (Decidable
      (∀ r ∈ L.readers, r.pid = pid → p < r.dirp ∨ r.dirp + r.count.toNat ≤ p))

instance (w : State) : ∀ l, Decidable (L.MarkKept w l)
  | .enter task _ => inferInstanceAs (Decidable
      (∀ r ∈ L.readers, r.id = task.pidTgid → received w r ≠ [] →
        ∀ buf ∈ w.maps.getdents64CacheMap.lookup L.path, buf.lastPidTgid = r.id))
  | .kernel _ _ _ => isTrue trivial
  | .leave _ _ _ => isTrue trivial
  | .store _ _ _ => isTrue trivial

/-- No reader gets anything but the chunk and then 0, and one that has not got
both is never stuck. -/
structure ListedOnce (w : State) : Prop where
  once : ∀ r ∈ L.readers, received w r <+: [L.whole, ending]
  progress : ∀ r ∈ L.readers, received w r ≠ [L.whole, ending] →
    ∃ l t, l.thread = some r.id ∧ step L.kernel w l = some t

def Cached (w : State) : Prop :=
  ∃ buf, w.maps.getdents64CacheMap.lookup L.path = some buf

/-- `getdents64_args_start` is full and has no record of the reader's thread. -/
def Blocked (w : State) (r : Reader) : Prop :=
  ¬ w.maps.getdents64ArgsStart.HasRoom r.id

def Recorded (w : State) (r : Reader) : Prop :=
  w.maps.getdents64ArgsStart.lookup r.id = some r.args ∨ Blocked w r

def ChunkAt (w : State) (r : Reader) : Prop :=
  ∀ i < L.chunk.length, w.mem r.pid (r.dirp + i) = CString.byteAt L.chunk i

/-- Where a reader stands: before, in and after its first call that reaches the
kernel, then the same for its last call, which reaches the kernel only if its
record could not be stored. -/
inductive ReaderState (w : State) (r : Reader) : Prop where
  | fresh (hphase : w.phase r.id = .idle) (hgot : received w r = [])
      (hfd : (r.pid, r.fd) ∉ w.kernel)
  | asking (hphase : w.phase r.id = .entered r.call) (hgot : received w r = [])
      (hfd : (r.pid, r.fd) ∉ w.kernel) (hrecord : Recorded w r)
  | answered (hphase : w.phase r.id = .returned r.call L.nread)
      (hgot : received w r = []) (hfd : (r.pid, r.fd) ∈ w.kernel)
      (hrecord : Recorded w r) (hmem : L.ChunkAt w r)
  | listed (hphase : w.phase r.id = .idle) (hgot : received w r = [L.whole])
      (hnext : L.Cached w ∨ (Blocked w r ∧ (r.pid, r.fd) ∈ w.kernel))
  | askingEnd (hphase : w.phase r.id = .entered r.call)
      (hgot : received w r = [L.whole]) (hblocked : Blocked w r)
      (hfd : (r.pid, r.fd) ∈ w.kernel)
  | answeredEnd (hphase : w.phase r.id = .returned r.call 0)
      (hgot : received w r = [L.whole]) (hblocked : Blocked w r)
  | done (hphase : w.phase r.id = .idle) (hgot : received w r = [L.whole, ending])

/-- The mark names no reader, or one that is about to receive 0. -/
def MarkOf (w : State) (r : Reader) : Prop :=
  w.phase r.id = .idle ∧ received w r = [L.whole]

structure ReadersInv (w : State) : Prop where
  paths : ∀ r ∈ L.readers, w.maps.pathOf r.pid r.fd = some L.path
  room : w.maps.getdents64CacheMap.HasRoom L.path
  cached : ∀ buf, w.maps.getdents64CacheMap.lookup L.path = some buf →
    buf.nread = L.nread ∧ buf.buf.bytes.take L.chunk.length = L.chunk ∧
      ∀ r ∈ L.readers, buf.lastPidTgid = r.id → L.MarkOf w r
  readers : ∀ r ∈ L.readers, L.ReaderState w r
  others : ∀ id, w.phase id ≠ .idle → ∃ r ∈ L.readers, r.id = id

/-- A step of reader `r`, as the other readers see it. -/
structure OnlyMoves (r : Reader) (w t : State) : Prop where
  phase : ∀ id, id ≠ r.id → t.phase id = w.phase id
  received : ∀ s, s.id ≠ r.id → received t s = received w s
  descriptor : ∀ s ∈ L.readers, s ≠ r →
    ((s.pid, s.fd) ∈ t.kernel ↔ (s.pid, s.fd) ∈ w.kernel)
  record : ∀ s : Reader, s.id ≠ r.id →
    t.maps.getdents64ArgsStart.lookup s.id = w.maps.getdents64ArgsStart.lookup s.id
  blocked : ∀ s, Blocked w s → Blocked t s
  cached : L.Cached w → L.Cached t
  mem : ∀ s ∈ L.readers, s ≠ r → L.ChunkAt w s → L.ChunkAt t s

variable {L} {w t : State} {r s : Reader}

theorem received_append {x : Reply} (hreplies : t.replies = w.replies ++ [x])
    (hid : x.task.pidTgid = r.id) :
    received t r = received w r ++ [(x.ret, x.bytes.bytes.take x.ret.toNat)] := by
  simp [received, hreplies, hid]

theorem received_append_ne {x : Reply} (hreplies : t.replies = w.replies ++ [x])
    (hid : x.task.pidTgid ≠ r.id) : received t r = received w r := by
  simp [received, hreplies, hid]

theorem id_ne (hr : r ∈ L.readers) (hs : s ∈ L.readers) (hne : s ≠ r) :
    s.id ≠ r.id :=
  fun h => hne (L.threads s hs r hr h)

theorem Recorded.of_onlyMoves (h : Recorded w s) (hmove : L.OnlyMoves r w t)
    (hid : s.id ≠ r.id) : Recorded t s := by
  rcases h with hown | hblocked
  · exact Or.inl ((hmove.record s hid).trans hown)
  · exact Or.inr (hmove.blocked s hblocked)

/-- The other readers stay where they stand. -/
theorem ReaderState.of_onlyMoves (h : L.ReaderState w s) (hmove : L.OnlyMoves r w t)
    (hr : r ∈ L.readers) (hs : s ∈ L.readers) (hne : s ≠ r) : L.ReaderState t s := by
  have hid := id_ne hr hs hne
  have hphase := hmove.phase s.id hid
  have hgot := hmove.received s hid
  have hfd := hmove.descriptor s hs hne
  cases h with
  | fresh p g d => exact .fresh (hphase.trans p) (hgot.trans g) (mt hfd.mp d)
  | asking p g d c =>
      exact .asking (hphase.trans p) (hgot.trans g) (mt hfd.mp d)
        (c.of_onlyMoves hmove hid)
  | answered p g d c m =>
      exact .answered (hphase.trans p) (hgot.trans g) (hfd.mpr d)
        (c.of_onlyMoves hmove hid) (hmove.mem s hs hne m)
  | listed p g n =>
      refine .listed (hphase.trans p) (hgot.trans g) ?_
      rcases n with hcached | ⟨hblocked, hend⟩
      · exact Or.inl (hmove.cached hcached)
      · exact Or.inr ⟨hmove.blocked s hblocked, hfd.mpr hend⟩
  | askingEnd p g b d =>
      exact .askingEnd (hphase.trans p) (hgot.trans g) (hmove.blocked s b) (hfd.mpr d)
  | answeredEnd p g b =>
      exact .answeredEnd (hphase.trans p) (hgot.trans g) (hmove.blocked s b)
  | done p g => exact .done (hphase.trans p) (hgot.trans g)

/-- What a step of reader `r` has to show. An entry found afterwards is either
the one from before or one whose mark names `r` or nobody. -/
theorem ReadersInv.of_move (hi : L.ReadersInv w) (hr : r ∈ L.readers)
    (hmove : L.OnlyMoves r w t)
    (hpaths : ∀ pid fd, t.maps.pathOf pid fd = w.maps.pathOf pid fd)
    (hroom : t.maps.getdents64CacheMap.HasRoom L.path)
    (hself : L.ReaderState t r)
    (hmark : ∀ buf, t.maps.getdents64CacheMap.lookup L.path = some buf →
      buf.nread = L.nread ∧ buf.buf.bytes.take L.chunk.length = L.chunk ∧
        (buf.lastPidTgid = r.id → L.MarkOf t r) ∧
        ∀ s ∈ L.readers, s ≠ r → buf.lastPidTgid = s.id → L.MarkOf w s) :
    L.ReadersInv t := by
  constructor
  · intro s hs
    rw [hpaths]
    exact hi.paths s hs
  · exact hroom
  · intro buf hbuf
    obtain ⟨hnread, hbytes, hself', hother⟩ := hmark buf hbuf
    refine ⟨hnread, hbytes, ?_⟩
    intro s hs hlast
    by_cases hsame : s = r
    · subst hsame
      exact hself' hlast
    · obtain ⟨hidle, hgot⟩ := hother s hs hsame hlast
      have hid := id_ne hr hs hsame
      exact ⟨(hmove.phase s.id hid).trans hidle, (hmove.received s hid).trans hgot⟩
  · intro s hs
    by_cases hsame : s = r
    · subst hsame
      exact hself
    · exact (hi.readers s hs).of_onlyMoves hmove hr hs hsame
  · intro id hbusy
    by_cases hid : id = r.id
    · exact ⟨r, hr, hid.symm⟩
    · rw [hmove.phase id hid] at hbusy
      exact hi.others id hbusy

/-- A write into the buffer of one reader leaves the other buffers alone. -/
theorem chunkAt_of_write {data : List UInt8} (hr : r ∈ L.readers) (hs : s ∈ L.readers)
    (hne : s ≠ r) (hlen : data.length ≤ r.count.toNat)
    (hmem : t.mem = Function.update w.mem r.pid ((w.mem r.pid).write r.dirp data))
    (h : L.ChunkAt w s) : L.ChunkAt t s := by
  intro i hi
  rw [hmem]
  by_cases hpid : s.pid = r.pid
  · have hapart := L.buffers r hr s hs hpid.symm hne.symm
    have hfits := (L.fits s hs).1
    have hbyte := h i hi
    rw [hpid] at hbyte ⊢
    rw [Function.update_self, Memory.write_outside (by omega)]
    exact hbyte
  · rw [Function.update_of_ne hpid]
    exact h i hi

theorem nread_toNat (hr : r ∈ L.readers) : L.nread.toNat = L.chunk.length := by
  have hfits := (L.fits r hr).2
  have hsize : dentsBufSize = 2048 := rfl
  simp only [nread, BitVec.toNat_ofNat]
  omega

theorem nread_nonneg (hr : r ∈ L.readers) : ¬ L.nread.toInt < 0 := by
  have hfits := (L.fits r hr).2
  have hsize : dentsBufSize = 2048 := rfl
  have hnat := nread_toNat hr
  rw [BitVec.toInt_eq_toNat_cond]
  split <;> omega

theorem lookup_cachePut_path {m : Maps} (hroom : m.getdents64CacheMap.HasRoom L.path)
    (buf : Getdents64Buffer) :
    (m.cachePut L.path buf).getdents64CacheMap.lookup L.path = some buf :=
  BoundedMap.lookup_update_self buf hroom

theorem cached_cachePut {buf : Getdents64Buffer}
    (hroom : w.maps.getdents64CacheMap.HasRoom L.path)
    (hmaps : t.maps = w.maps.cachePut L.path buf) : L.Cached t := by
  rw [Cached, hmaps]
  exact ⟨buf, lookup_cachePut_path hroom buf⟩

/-- A step that rewrites the entry of the path and ends a call of `r`. -/
theorem onlyMoves_cachePut {buf : Getdents64Buffer} {x : Reply}
    (hroom : w.maps.getdents64CacheMap.HasRoom L.path)
    (hmaps : t.maps = w.maps.cachePut L.path buf) (hkernel : t.kernel = w.kernel)
    (hphase : ∀ id, id ≠ r.id → t.phase id = w.phase id)
    (hreplies : t.replies = w.replies ++ [x]) (hx : x.task.pidTgid = r.id)
    (hmem : ∀ s ∈ L.readers, s ≠ r → L.ChunkAt w s → L.ChunkAt t s) :
    L.OnlyMoves r w t := by
  refine ⟨hphase, ?_, ?_, ?_, ?_, ?_, hmem⟩
  · intro s hne
    exact received_append_ne hreplies (fun h => hne (h.symm.trans hx))
  · intro s _ _
    rw [hkernel]
  · intro s _
    rw [hmaps]
    rfl
  · intro s hblocked
    rw [Blocked, hmaps]
    exact hblocked
  · intro _
    exact cached_cachePut hroom hmaps

/-- A step of `r` may rewrite the entry if the new mark is nobody's or its own. -/
theorem ReadersInv.of_put {buf : Getdents64Buffer} (hi : L.ReadersInv w)
    (hr : r ∈ L.readers) (hmove : L.OnlyMoves r w t)
    (hmaps : t.maps = w.maps.cachePut L.path buf) (hnread : buf.nread = L.nread)
    (hbytes : buf.buf.bytes.take L.chunk.length = L.chunk) (hself : L.ReaderState t r)
    (hmark : ∀ s ∈ L.readers, buf.lastPidTgid = s.id → s = r ∧ L.MarkOf t r) :
    L.ReadersInv t := by
  have hentry := lookup_cachePut_path hi.room buf
  rw [← hmaps] at hentry
  refine hi.of_move hr hmove (fun pid fd => by rw [hmaps]; rfl)
    (BoundedMap.hasRoom_of_lookup hentry) hself ?_
  intro buf' hbuf'
  obtain rfl := Option.some.inj (hentry.symm.trans hbuf')
  refine ⟨hnread, hbytes, fun hlast => (hmark r hr hlast).2, ?_⟩
  intro s hs hne hlast
  exact absurd (hmark s hs hlast).1 hne

/-- The reader named by the mark is sent away with 0. -/
theorem readersInv_skip {buf : Getdents64Buffer} {x : Reply} (hi : L.ReadersInv w)
    (hr : r ∈ L.readers) (hbuf : w.maps.getdents64CacheMap.lookup L.path = some buf)
    (hlast : buf.lastPidTgid = r.id)
    (hmaps : t.maps = w.maps.cachePut L.path { buf with lastPidTgid := 0 })
    (hmem : t.mem = w.mem) (hkernel : t.kernel = w.kernel) (hphase : t.phase = w.phase)
    (hreplies : t.replies = w.replies ++ [x]) (hx : x.task.pidTgid = r.id)
    (hret : x.ret = 0) : L.ReadersInv t := by
  obtain ⟨hnread, hbytes, hmarked⟩ := hi.cached buf hbuf
  obtain ⟨hidle, hgot⟩ := hmarked r hr hlast
  have hmove : L.OnlyMoves r w t := by
    apply onlyMoves_cachePut hi.room hmaps hkernel (by simp [hphase]) hreplies hx
    intro s _ _ h
    rw [ChunkAt, hmem]
    exact h
  refine hi.of_put hr hmove hmaps hnread hbytes ?_ ?_
  · refine .done (by rw [hphase]; exact hidle) ?_
    rw [received_append hreplies hx, hgot, hret]
    rfl
  · intro s hs hzero
    exact absurd hzero.symm (L.ids s hs)

/-- A reader without the listing is handed the cached chunk. -/
theorem readersInv_serve {buf : Getdents64Buffer} {x : Reply} (hi : L.ReadersInv w)
    (hr : r ∈ L.readers) (hbuf : w.maps.getdents64CacheMap.lookup L.path = some buf)
    (hidle : w.phase r.id = .idle) (hgot : received w r = [])
    (hmaps : t.maps = w.maps.cachePut L.path { buf with lastPidTgid := r.id })
    (hmem : t.mem = Function.update w.mem r.pid
      ((w.mem r.pid).write r.dirp (buf.buf.bytes.take (servedLen r.count))))
    (hkernel : t.kernel = w.kernel) (hphase : t.phase = w.phase)
    (hreplies : t.replies = w.replies ++ [x]) (hx : x.task.pidTgid = r.id)
    (hret : x.ret = buf.nread)
    (hseen : x.bytes = CharArray.probeRead dentsBufSize (t.mem r.pid) r.dirp) :
    L.ReadersInv t := by
  obtain ⟨hnread, hbytes, -⟩ := hi.cached buf hbuf
  obtain ⟨hcount, hsize⟩ := L.fits r hr
  have hserved : L.chunk.length ≤ servedLen r.count ∧
      servedLen r.count ≤ r.count.toNat := by
    unfold servedLen
    split <;> omega
  have hmove : L.OnlyMoves r w t := by
    apply onlyMoves_cachePut hi.room hmaps hkernel (by simp [hphase]) hreplies hx
    intro s hs hne h
    refine chunkAt_of_write hr hs hne ?_ hmem h
    exact (List.length_take_le _ _).trans hserved.2
  have hchunk : L.ChunkAt t r := by
    intro i hin
    have hlen : i < (buf.buf.bytes.take (servedLen r.count)).length := by
      rw [List.length_take, buf.buf.length_eq]
      omega
    rw [hmem, Function.update_self, Memory.write_inside hlen]
    have hi' : i < (buf.buf.bytes.take L.chunk.length).length := by
      rw [hbytes]
      exact hin
    have hbyte : CString.byteAt (buf.buf.bytes.take (servedLen r.count)) i =
        CString.byteAt (buf.buf.bytes.take L.chunk.length) i := by
      simp [CString.byteAt, hin, lt_of_lt_of_le hin hserved.1]
    rw [hbyte, hbytes]
  have hlisted : received t r = [L.whole] := by
    rw [received_append hreplies hx, hgot, hret, hnread, hseen, nread_toNat hr,
      CharArray.take_probeRead hsize hchunk]
    rfl
  have hidle' : t.phase r.id = .idle := by
    rw [hphase]
    exact hidle
  apply hi.of_put hr hmove hmaps hnread hbytes
  · exact .listed hidle' hlisted (Or.inl (cached_cachePut hi.room hmaps))
  · intro s hs hsame
    exact ⟨L.threads s hs r hr hsame.symm, hidle', hlisted⟩

theorem blocked_storeGetdentsArgs {task : Task} {args : GetdentsArgs} {s : Reader}
    (hmaps : t.maps = storeGetdentsArgs task args w.maps) (h : Blocked w s) :
    Blocked t s := by
  rw [Blocked, hmaps]
  exact BoundedMap.not_hasRoom_update _ _ h

/-- A call on the uncached path stores its record, if it can, and goes on to the
kernel. -/
theorem readersInv_miss {task : Task} (hi : L.ReadersInv w) (hr : r ∈ L.readers)
    (hid : task.pidTgid = r.id) (hidle : w.phase r.id = .idle)
    (hopen : ending ∉ received w r)
    (habsent : w.maps.getdents64CacheMap.lookup L.path = none)
    (hmaps : t.maps = storeGetdentsArgs task r.args w.maps) (hmem : t.mem = w.mem)
    (hkernel : t.kernel = w.kernel) (hreplies : t.replies = w.replies)
    (hphase : t.phase = Function.update w.phase r.id (.entered r.call)) :
    L.ReadersInv t := by
  have hgot : ∀ s, received t s = received w s := by
    intro s
    rw [received, hreplies]
    rfl
  have hcache : t.maps.getdents64CacheMap = w.maps.getdents64CacheMap := by
    rw [hmaps]
    rfl
  have hmove : L.OnlyMoves r w t := by
    refine ⟨?_, fun s _ => hgot s, ?_, ?_, ?_, ?_, ?_⟩
    · intro id hne
      rw [hphase, Function.update_of_ne hne]
    · intro s _ _
      rw [hkernel]
    · intro s hne
      rw [hmaps]
      exact BoundedMap.lookup_update_ne _ (hid ▸ hne)
    · intro s hblocked
      exact blocked_storeGetdentsArgs hmaps hblocked
    · rw [Cached, Cached, hcache]
      exact id
    · intro s _ _ h
      rw [ChunkAt, hmem]
      exact h
  have hentered : t.phase r.id = .entered r.call := by
    rw [hphase, Function.update_self]
  refine hi.of_move hr hmove (fun pid fd => by rw [hmaps]; rfl) (hcache ▸ hi.room) ?_ ?_
  · cases hi.readers r hr with
    | fresh p g d =>
        refine .asking hentered ((hgot r).trans g) (hkernel ▸ d) ?_
        by_cases hroom : w.maps.getdents64ArgsStart.HasRoom r.id
        · apply Or.inl
          rw [hmaps, ← hid]
          exact BoundedMap.lookup_update_self _ (hid ▸ hroom)
        · exact Or.inr (blocked_storeGetdentsArgs hmaps hroom)
    | listed p g n =>
        rcases n with ⟨buf, hbuf⟩ | ⟨hblocked, hend⟩
        · rw [habsent] at hbuf
          cases hbuf
        · exact .askingEnd hentered ((hgot r).trans g)
            (blocked_storeGetdentsArgs hmaps hblocked) (hkernel ▸ hend)
    | done p g =>
        rw [g] at hopen
        simp at hopen
    | asking p | answered p | askingEnd p | answeredEnd p =>
        rw [hidle] at p
        cases p
  · intro buf hbuf
    rw [hcache, habsent] at hbuf
    cases hbuf

theorem readersInv_enter {task : Task} (hi : L.ReadersInv w) (hr : r ∈ L.readers)
    (hid : r.id = task.pidTgid) (hidle : w.phase task.pidTgid = .idle)
    (hopen : ending ∉ received w r)
    (hkept : received w r ≠ [] →
      ∀ buf ∈ w.maps.getdents64CacheMap.lookup L.path, buf.lastPidTgid = r.id) :
    L.ReadersInv (w.enter task r.call) := by
  have hpid : task.pid = r.pid := by
    rw [Reader.pid, hid]
    rfl
  have hpath := hi.paths r hr
  rw [← hpid] at hpath
  rw [← hid] at hidle
  rcases sysEnterGetdents64_cases task r.fd r.dirp r.count w.maps (w.mem task.pid) with
    ⟨hnone, -⟩ | ⟨path, buf, hpath', hbuf, hlast, henter⟩ |
    ⟨path, buf, hpath', hbuf, hlast, henter⟩ | ⟨path, hpath', habsent, henter⟩
  · rw [hnone] at hpath
    cases hpath
  · obtain rfl := Option.some.inj (hpath.symm.trans hpath')
    rw [@enter_override _ w task r.call _ _ _ henter]
    exact readersInv_skip hi hr hbuf (hlast.symm.trans hid.symm) rfl
      (Function.update_eq_self _ _) rfl rfl rfl hid.symm rfl
  · obtain rfl := Option.some.inj (hpath.symm.trans hpath')
    have hgot : received w r = [] := by
      by_contra hgot
      exact hlast ((hid.symm.trans (hkept hgot buf hbuf).symm))
    rw [@enter_override _ w task r.call _ _ _ henter]
    refine readersInv_serve hi hr hbuf hidle hgot ?_ ?_ rfl rfl rfl hid.symm rfl ?_
    · rw [hid]
    · rw [← hpid]
    · rw [← hpid]
      exact (congrArg (CharArray.probeRead dentsBufSize · r.dirp)
        (Function.update_self _ _ _)).symm
  · obtain rfl := Option.some.inj (hpath.symm.trans hpath')
    rw [@enter_pass _ w task r.call _ _ henter]
    refine readersInv_miss hi hr hid.symm hidle hopen habsent rfl
      (Function.update_eq_self _ _) rfl rfl ?_
    rw [hid]

/-- A reader inside a call is not the one the mark names, so a step of its that
leaves the cache alone keeps all marks. -/
theorem ReadersInv.marks_of_busy (hi : L.ReadersInv w) (hr : r ∈ L.readers)
    (hbusy : w.phase r.id ≠ .idle)
    (hcache : t.maps.getdents64CacheMap = w.maps.getdents64CacheMap)
    (buf : Getdents64Buffer)
    (hbuf : t.maps.getdents64CacheMap.lookup L.path = some buf) :
    buf.nread = L.nread ∧ buf.buf.bytes.take L.chunk.length = L.chunk ∧
      (buf.lastPidTgid = r.id → L.MarkOf t r) ∧
      ∀ s ∈ L.readers, s ≠ r → buf.lastPidTgid = s.id → L.MarkOf w s := by
  rw [hcache] at hbuf
  obtain ⟨hnread, hbytes, hmarked⟩ := hi.cached buf hbuf
  refine ⟨hnread, hbytes, ?_, fun s hs _ => hmarked s hs⟩
  intro hlast
  exact absurd (hmarked r hr hlast).1 hbusy

theorem exec_call (drained : Finset (U32 × U32)) (task : Task) (r : Reader)
    (resp : Response) :
    L.exec drained task r.call resp =
      if (task.pid, r.fd) ∈ drained then
        if resp.ret = 0 ∧ resp.data = [] then some drained else none
      else if resp.ret = L.nread ∧ resp.data = L.chunk then
        some (insert (task.pid, r.fd) drained)
      else none := rfl

theorem exec_cases {drained k : Finset (U32 × U32)} {task : Task} {resp : Response}
    (h : L.exec drained task r.call resp = some k) :
    ((task.pid, r.fd) ∈ drained ∧ resp.ret = 0 ∧ resp.data = [] ∧ k = drained) ∨
      ((task.pid, r.fd) ∉ drained ∧ resp.ret = L.nread ∧ resp.data = L.chunk ∧
        k = insert (task.pid, r.fd) drained) := by
  rw [exec_call] at h
  split at h
  · rename_i hend
    split at h
    · rename_i hresp
      cases h
      exact Or.inl ⟨hend, hresp.1, hresp.2, rfl⟩
    · cases h
  · rename_i hend
    split at h
    · rename_i hresp
      cases h
      exact Or.inr ⟨hend, hresp.1, hresp.2, rfl⟩
    · cases h

/-- The kernel's part of a call touches one buffer and one descriptor. -/
theorem onlyMoves_serve {task : Task} {resp : Response} {k : Finset (U32 × U32)}
    (hr : r ∈ L.readers) (hid : r.id = task.pidTgid)
    (hlen : resp.data.length ≤ r.count.toNat)
    (hfds : ∀ s ∈ L.readers, s ≠ r → ((s.pid, s.fd) ∈ k ↔ (s.pid, s.fd) ∈ w.kernel)) :
    L.OnlyMoves r w (w.serve task r.call resp k) := by
  have hpid : task.pid = r.pid := by
    rw [Reader.pid, hid]
    rfl
  refine ⟨?_, fun _ _ => rfl, hfds, fun _ _ => rfl, fun _ => id, id, ?_⟩
  · intro id hne
    exact Function.update_of_ne (hid ▸ hne) _ _
  · intro s hs hne h
    refine chunkAt_of_write hr hs hne hlen ?_ h
    rw [← hpid]
    rfl

theorem readersInv_serve_kernel {task : Task} {resp : Response}
    {k : Finset (U32 × U32)} (hi : L.ReadersInv w) (hr : r ∈ L.readers)
    (hid : r.id = task.pidTgid) (hentered : w.phase r.id = .entered r.call)
    (hexec : L.exec w.kernel task r.call resp = some k) :
    L.ReadersInv (w.serve task r.call resp k) := by
  have hpid : task.pid = r.pid := by
    rw [Reader.pid, hid]
    rfl
  have hbusy : w.phase r.id ≠ .idle := by
    rw [hentered]
    intro h
    cases h
  have hcases := exec_cases hexec
  rw [hpid] at hcases
  have hphase : (w.serve task r.call resp k).phase r.id = .returned r.call resp.ret := by
    rw [hid]
    exact Function.update_self _ _ _
  rcases hcases with ⟨hend, hret, hdata, rfl⟩ | ⟨hend, hret, hdata, rfl⟩
  · have hmove := @onlyMoves_serve L w r task resp w.kernel hr hid
      (by rw [hdata]; exact Nat.zero_le _) (fun _ _ _ => Iff.rfl)
    refine hi.of_move hr hmove (fun _ _ => rfl) hi.room ?_
      (hi.marks_of_busy hr hbusy rfl)
    rw [hret] at hphase
    cases hi.readers r hr with
    | asking p g d c => exact absurd hend d
    | askingEnd p g b d => exact .answeredEnd hphase g b
    | fresh p | answered p | listed p | answeredEnd p | done p =>
        rw [hentered] at p
        cases p
  · have hfits := (L.fits r hr).1
    have hmove := @onlyMoves_serve L w r task resp (insert (r.pid, r.fd) w.kernel) hr hid
      (by rw [hdata]; exact hfits) (by
        intro s hs hne
        have hother : (s.pid, s.fd) ≠ (r.pid, r.fd) := by
          intro heq
          exact hne (L.descriptors s hs r hr (congrArg Prod.fst heq)
            (congrArg Prod.snd heq))
        simp [hother])
    refine hi.of_move hr hmove (fun _ _ => rfl) hi.room ?_
      (hi.marks_of_busy hr hbusy rfl)
    rw [hret] at hphase
    cases hi.readers r hr with
    | asking p g d c =>
        refine .answered hphase g (Finset.mem_insert_self _ _) c ?_
        intro i hin
        have hmem : (w.serve task r.call resp (insert (r.pid, r.fd) w.kernel)).mem r.pid =
            (w.mem r.pid).write r.dirp L.chunk := by
          rw [← hpid, ← hdata]
          exact Function.update_self _ _ _
        rw [hmem, Memory.write_inside hin]
    | askingEnd p g b d => exact absurd d hend
    | fresh p | answered p | listed p | answeredEnd p | done p =>
        rw [hentered] at p
        cases p

theorem leave_maps {task : Task} {ret : CInt} :
    (w.leave L.kernel task r.call ret).maps =
      sysExitGetdents64 task ret w.maps (w.mem task.pid) := rfl

/-- A call that returns without touching the maps. -/
theorem onlyMoves_leave_same {task : Task} {ret : CInt} (hid : r.id = task.pidTgid)
    (hsame : (w.leave L.kernel task r.call ret).maps = w.maps) :
    L.OnlyMoves r w (w.leave L.kernel task r.call ret) := by
  refine ⟨?_, ?_, fun _ _ _ => Iff.rfl, ?_, ?_, ?_, fun _ _ _ => id⟩
  · intro id hne
    exact Function.update_of_ne (hid ▸ hne) _ _
  · intro s hne
    exact received_append_ne rfl (fun h => hne (h.symm.trans hid.symm))
  · intro s _
    rw [hsame]
  · intro s hblocked
    rw [Blocked, hsame]
    exact hblocked
  · rw [Cached, Cached, hsame]
    exact id

/-- The first call of a reader returns: the listing is cached now, unless the
record of the call could not be stored. -/
theorem readersInv_leave_listing {task : Task} (hi : L.ReadersInv w)
    (hr : r ∈ L.readers) (hid : r.id = task.pidTgid)
    (hreturned : w.phase r.id = .returned r.call L.nread) (hgot : received w r = [])
    (hfd : (r.pid, r.fd) ∈ w.kernel) (hrecord : Recorded w r) (hmem : L.ChunkAt w r) :
    L.ReadersInv (w.leave L.kernel task r.call L.nread) := by
  have hpid : task.pid = r.pid := by
    rw [Reader.pid, hid]
    rfl
  obtain ⟨-, hsize⟩ := L.fits r hr
  have hbusy : w.phase r.id ≠ .idle := by
    rw [hreturned]
    intro h
    cases h
  have hidle : (w.leave L.kernel task r.call L.nread).phase r.id = .idle := by
    rw [hid]
    exact Function.update_self _ _ _
  have hlisted : received (w.leave L.kernel task r.call L.nread) r = [L.whole] := by
    rw [received_append rfl hid.symm, hgot]
    simp only [List.nil_append, nread_toNat hr, hpid]
    rw [CharArray.take_probeRead hsize hmem]
    rfl
  have hunchanged : (w.leave L.kernel task r.call L.nread).maps = w.maps →
      L.Cached w ∨ (Blocked w r ∧ (r.pid, r.fd) ∈ w.kernel) →
      L.ReadersInv (w.leave L.kernel task r.call L.nread) := by
    intro hsame hnext
    have hcache := congrArg Maps.getdents64CacheMap hsame
    refine hi.of_move hr (onlyMoves_leave_same hid hsame) (fun _ _ => by rw [hsame])
      (hcache ▸ hi.room) (.listed hidle hlisted ?_) (hi.marks_of_busy hr hbusy hcache)
    rw [Cached, Blocked, hsame]
    exact hnext
  rcases hrecord with hown | hblocked
  · rw [hid] at hown
    have hpath := hi.paths r hr
    rw [← hpid] at hpath
    cases hbuf : w.maps.getdents64CacheMap.lookup L.path with
    | some buf =>
        have hsame : (w.leave L.kernel task r.call L.nread).maps = w.maps := by
          rw [leave_maps, sysExitGetdents64_cached hown hpath hbuf]
        exact hunchanged hsame (Or.inl ⟨buf, hbuf⟩)
    | none =>
        have hmaps : (w.leave L.kernel task r.call L.nread).maps =
            w.maps.cachePut L.path ⟨L.nread, r.id,
              CharArray.probeRead dentsBufSize (w.mem r.pid) r.dirp⟩ := by
          rw [leave_maps, ← hpid, hid,
            sysExitGetdents64_fill _ (nread_nonneg hr) hown hpath hbuf hi.room]
          rfl
        have hmove : L.OnlyMoves r w (w.leave L.kernel task r.call L.nread) :=
          onlyMoves_cachePut hi.room hmaps rfl
            (fun id hne => Function.update_of_ne (hid ▸ hne) _ _) rfl hid.symm
            (fun _ _ _ h => h)
        apply hi.of_put hr hmove hmaps rfl (CharArray.take_probeRead hsize hmem)
        · exact .listed hidle hlisted (Or.inl (cached_cachePut hi.room hmaps))
        · intro s hs hsame
          exact ⟨L.threads s hs r hr hsame.symm, hidle, hlisted⟩
  · have hnone := (BoundedMap.not_hasRoom_iff.mp hblocked).1
    rw [hid] at hnone
    have hsame : (w.leave L.kernel task r.call L.nread).maps = w.maps := by
      rw [leave_maps, sysExitGetdents64_unrecorded hnone]
    exact hunchanged hsame (Or.inr ⟨hblocked, hfd⟩)

theorem readersInv_leave_end {task : Task} (hi : L.ReadersInv w) (hr : r ∈ L.readers)
    (hid : r.id = task.pidTgid) (hreturned : w.phase r.id = .returned r.call 0)
    (hgot : received w r = [L.whole]) (hblocked : Blocked w r) :
    L.ReadersInv (w.leave L.kernel task r.call 0) := by
  have hnone := (BoundedMap.not_hasRoom_iff.mp hblocked).1
  rw [hid] at hnone
  have hsame : (w.leave L.kernel task r.call 0).maps = w.maps := by
    rw [leave_maps, sysExitGetdents64_unrecorded hnone]
  have hbusy : w.phase r.id ≠ .idle := by
    rw [hreturned]
    intro h
    cases h
  have hcache := congrArg Maps.getdents64CacheMap hsame
  refine hi.of_move hr (onlyMoves_leave_same hid hsame) (fun _ _ => by rw [hsame])
    (hcache ▸ hi.room) (.done ?_ ?_) (hi.marks_of_busy hr hbusy hcache)
  · rw [hid]
    exact Function.update_self _ _ _
  · rw [received_append rfl hid.symm, hgot]
    rfl

/-- A write outside the buffers. -/
theorem readersInv_store {pid : U32} {p : Nat} {b : UInt8} (hi : L.ReadersInv w)
    (houtside : ∀ r ∈ L.readers, r.pid = pid → p < r.dirp ∨ r.dirp + r.count.toNat ≤ p) :
    L.ReadersInv (w.poke pid p b) := by
  refine ⟨hi.paths, hi.room, hi.cached, ?_, hi.others⟩
  intro r hr
  have hkept : L.ChunkAt w r → L.ChunkAt (w.poke pid p b) r := by
    intro h i hin
    have hfits := (L.fits r hr).1
    by_cases hpid : r.pid = pid
    · have hout := houtside r hr hpid
      have hne : r.dirp + i ≠ p := by omega
      subst hpid
      simp only [World.poke, Function.update_self, Function.update_of_ne hne]
      exact h i hin
    · simp only [World.poke, Function.update_of_ne hpid]
      exact h i hin
  cases hi.readers r hr with
  | fresh p g d => exact .fresh p g d
  | asking p g d c => exact .asking p g d c
  | answered p g d c m => exact .answered p g d c (hkept m)
  | listed p g n => exact .listed p g n
  | askingEnd p g b d => exact .askingEnd p g b d
  | answeredEnd p g b => exact .answeredEnd p g b
  | done p g => exact .done p g

theorem readersInv_ready (h : L.Ready w) : L.ReadersInv w := by
  have hgot : ∀ r, received w r = [] := by
    intro r
    rw [received, h.replies]
    rfl
  constructor
  · exact h.paths
  · exact h.room
  · intro buf hbuf
    obtain ⟨hnread, hbytes, hunmarked⟩ := h.cached buf hbuf
    exact ⟨hnread, hbytes, fun r hr hlast => absurd hlast (hunmarked r hr)⟩
  · intro r hr
    exact .fresh (h.phase r.id) (hgot r) (h.unread r hr)
  · intro id hbusy
    exact absurd (h.phase id) hbusy

/-- A reader in the kernel asks for one of its two calls. -/
theorem ReaderState.of_entered {call : Syscall} (h : L.ReaderState w r)
    (hentered : w.phase r.id = .entered call) : call = r.call := by
  cases h with
  | asking p | askingEnd p =>
      rw [hentered] at p
      exact Phase.entered.inj p
  | fresh p | answered p | listed p | answeredEnd p | done p =>
      rw [hentered] at p
      cases p

theorem readersInv_leave {task : Task} {call : Syscall} {ret : CInt}
    (hi : L.ReadersInv w) (hr : r ∈ L.readers) (hid : r.id = task.pidTgid)
    (hreturned : w.phase r.id = .returned call ret) :
    L.ReadersInv (w.leave L.kernel task call ret) := by
  cases hi.readers r hr with
  | answered p g d c m =>
      obtain ⟨rfl, rfl⟩ := Phase.returned.inj (hreturned.symm.trans p)
      exact readersInv_leave_listing hi hr hid p g d c m
  | answeredEnd p g b =>
      obtain ⟨rfl, rfl⟩ := Phase.returned.inj (hreturned.symm.trans p)
      exact readersInv_leave_end hi hr hid p g b
  | fresh p | asking p | listed p | askingEnd p | done p =>
      rw [hreturned] at p
      cases p

theorem readersInv_step {l : Label} (hi : L.ReadersInv w)
    (hok : L.Reads w l ∧ L.MarkKept w l) (hstep : step L.kernel w l = some t) :
    L.ReadersInv t := by
  obtain ⟨hreads, hkept⟩ := hok
  cases stepResult_of_step hstep with
  | @enter task call hidle =>
      obtain ⟨r, hr, hid, rfl, hopen⟩ := hreads
      exact readersInv_enter hi hr hid hidle hopen (hkept r hr hid)
  | @kernel task call resp k hentered hexec =>
      obtain ⟨r, hr, hid⟩ := hi.others task.pidTgid (by rw [hentered]; intro h; cases h)
      rw [← hid] at hentered
      obtain rfl := (hi.readers r hr).of_entered hentered
      exact readersInv_serve_kernel hi hr hid hentered hexec
  | @leave task call ret hreturned =>
      obtain ⟨r, hr, hid⟩ := hi.others task.pidTgid (by rw [hreturned]; intro h; cases h)
      rw [← hid] at hreturned
      exact readersInv_leave hi hr hid hreturned
  | store => exact readersInv_store hi hreads

theorem ReaderState.once (h : L.ReaderState w r) : received w r <+: [L.whole, ending] := by
  cases h with
  | fresh _ g | asking _ g | answered _ g =>
      rw [g]
      exact List.nil_prefix
  | listed _ g | askingEnd _ g | answeredEnd _ g =>
      rw [g]
      exact ⟨[ending], rfl⟩
  | done _ g => rw [g]

/-- Whatever part of a call comes next can be taken. -/
theorem ReaderState.progress (h : L.ReaderState w r) :
    ∃ l t, l.thread = some r.id ∧ step L.kernel w l = some t := by
  have henter : w.phase r.id = .idle →
      ∃ l t, l.thread = some r.id ∧ step L.kernel w l = some t :=
    fun hidle => ⟨.enter ⟨r.id, 0, 0⟩ r.call, _, rfl, if_pos hidle⟩
  have hserve : ∀ resp k, w.phase r.id = .entered r.call →
      L.exec w.kernel ⟨r.id, 0, 0⟩ r.call resp = some k →
      ∃ l t, l.thread = some r.id ∧ step L.kernel w l = some t := by
    intro resp k hentered hexec
    refine ⟨.kernel ⟨r.id, 0, 0⟩ r.call resp, w.serve ⟨r.id, 0, 0⟩ r.call resp k, rfl,
      ?_⟩
    simp only [step]
    rw [if_pos hentered]
    exact congrArg (Option.map _) hexec
  have hleave : ∀ ret, w.phase r.id = .returned r.call ret →
      ∃ l t, l.thread = some r.id ∧ step L.kernel w l = some t :=
    fun ret hreturned => ⟨.leave ⟨r.id, 0, 0⟩ r.call ret, _, rfl, if_pos hreturned⟩
  cases h with
  | fresh p | listed p | done p => exact henter p
  | asking p g d c =>
      apply hserve ⟨L.nread, L.chunk⟩ (insert (r.pid, r.fd) w.kernel) p
      have hfd : (Task.pid ⟨r.id, 0, 0⟩, r.fd) ∉ w.kernel := d
      rw [exec_call, if_neg hfd, if_pos ⟨rfl, rfl⟩]
      rfl
  | askingEnd p g b d =>
      apply hserve ⟨0, []⟩ w.kernel p
      have hfd : (Task.pid ⟨r.id, 0, 0⟩, r.fd) ∈ w.kernel := d
      rw [exec_call, if_pos hfd, if_pos ⟨rfl, rfl⟩]
  | answered p | answeredEnd p => exact hleave _ p

/-- As long as no reader takes the mark of another one that has yet to receive
its 0, each is handed the listing once and then 0. -/
theorem listedOnce_of_markKept
    (h : RunsUnder (system L.kernel L.Ready) (fun w l => L.Reads w l ∧ L.MarkKept w l) w) :
    L.ListedOnce w := by
  have hi : L.ReadersInv w := h.invariant (fun _ hready => readersInv_ready hready)
    (fun _ _ _ hi hok hstep => readersInv_step hi hok hstep)
  exact ⟨fun r hr => (hi.readers r hr).once, fun r hr _ => (hi.readers r hr).progress⟩

def reader1 : Reader := ⟨firstThread.pidTgid, 3, 4096, 2048⟩
def reader2 : Reader := ⟨secondThread.pidTgid, 4, 8192, 2048⟩

/-- Two threads of process 1 that list `/d`. -/
def twoReaders : Listing where
  path := ⟨plainPath [47, 100]⟩
  chunk := [1, 2]
  readers := [reader1, reader2]
  nonempty := by decide
  fits := by decide
  ids := by decide
  threads := by decide
  descriptors := by decide
  buffers := by decide

def readyWorld : State where
  maps := setDirFdData firstThread 3 twoReaders.path
    (setDirFdData firstThread 4 twoReaders.path Maps.loaded)
  kernel := ∅
  mem _ _ := 0
  phase _ := .idle
  listed _ := none
  replies := []

theorem twoReaders_ready : twoReaders.Ready readyWorld where
  paths := by decide +kernel
  cached := by
    have habsent : readyWorld.maps.getdents64CacheMap.lookup twoReaders.path = none := by
      decide +kernel
    intro buf hbuf
    rw [habsent] at hbuf
    cases hbuf
  room := by decide +kernel
  unread := by decide
  phase _ := rfl
  replies := rfl

/-- The first reader fills the cache; its mark is taken by the second reader
before it comes back for its 0. -/
def markTaken : List Label :=
  [.enter firstThread reader1.call, .kernel firstThread reader1.call ⟨2, [1, 2]⟩,
    .leave firstThread reader1.call 2, .enter secondThread reader2.call,
    .enter firstThread reader1.call]

/-- The first reader is handed the listing twice. -/
theorem mark_taken_lists_twice :
    ∃ w, RunsUnder (system twoReaders.kernel twoReaders.Ready) twoReaders.Reads w ∧
      ¬ twoReaders.ListedOnce w := by
  have halong : Along (system twoReaders.kernel twoReaders.Ready) twoReaders.Reads
      readyWorld markTaken := by decide +kernel
  have hrun : (Transition.exec (system twoReaders.kernel twoReaders.Ready) readyWorld
      markTaken).map (received · reader1) =
      some [twoReaders.whole, twoReaders.whole] := by decide +kernel
  obtain ⟨w, hw, hgot⟩ := Option.map_eq_some_iff.mp hrun
  refine ⟨w, .exec markTaken (.start twoReaders_ready) halong hw, ?_⟩
  intro hlisted
  have hpre := hlisted.once reader1 (List.mem_cons_self)
  rw [hgot] at hpre
  revert hpre
  decide

/-- The second reader starts when the first one has received its 0. -/
def oneByOne : List Label :=
  [.enter firstThread reader1.call, .kernel firstThread reader1.call ⟨2, [1, 2]⟩,
    .leave firstThread reader1.call 2, .enter firstThread reader1.call,
    .enter secondThread reader2.call]

theorem listedOnce_of_markKept_oneByOne :
    ∃ w, received w reader2 = [twoReaders.whole] ∧ twoReaders.ListedOnce w := by
  have halong : Along (system twoReaders.kernel twoReaders.Ready)
      (fun w l => twoReaders.Reads w l ∧ twoReaders.MarkKept w l)
      readyWorld oneByOne := by decide +kernel
  have hrun : (Transition.exec (system twoReaders.kernel twoReaders.Ready) readyWorld
      oneByOne).map (received · reader2) = some [twoReaders.whole] := by decide +kernel
  obtain ⟨w, hw, hgot⟩ := Option.map_eq_some_iff.mp hrun
  exact ⟨w, hgot, listedOnce_of_markKept
    (.exec oneByOne (.start twoReaders_ready) halong hw)⟩

end Listing

end BpftimeBenchmark.FsCache
