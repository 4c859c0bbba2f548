import BpftimeBenchmark.FsCache.Cache

/-!
What `getdents64` is answered with once its path is cached. An entry is written
once and serves every later call, whoever makes it. The length it returns is
that of the call that filled it, the bytes it copies are bounded by the count of
the call it answers and by the size of the buffer.
-/

namespace BpftimeBenchmark.FsCache

open Transition

variable {σ : Type}

/-- Every entry of `m` is still in `m'`, with the same length and bytes. -/
def Maps.CacheKept (m m' : Maps) : Prop :=
  ∀ path buf, m.getdents64CacheMap.lookup path = some buf →
    ∃ later, m'.getdents64CacheMap.lookup path = some later ∧
      later.nread = buf.nread ∧ later.buf = buf.buf

theorem cacheKept_of_eq {m m' : Maps}
    (h : m'.getdents64CacheMap = m.getdents64CacheMap) : m.CacheKept m' := by
  intro path buf hbuf
  rw [h]
  exact ⟨buf, hbuf, rfl, rfl⟩

theorem Maps.CacheKept.trans {a b c : Maps} (hab : a.CacheKept b)
    (hbc : b.CacheKept c) : a.CacheKept c := by
  intro path buf hbuf
  obtain ⟨mid, hmid, hnread, hbytes⟩ := hab path buf hbuf
  obtain ⟨later, hlater, hnread', hbytes'⟩ := hbc path mid hmid
  exact ⟨later, hlater, hnread'.trans hnread, hbytes'.trans hbytes⟩

theorem cacheKept_mark {m : Maps} {path : DirFdData} {buf : Getdents64Buffer}
    (hbuf : m.getdents64CacheMap.lookup path = some buf) (id : U64) :
    m.CacheKept (m.cachePut path { buf with lastPidTgid := id }) := by
  intro path' buf' hbuf'
  rcases BoundedMap.lookup_update_cases m.getdents64CacheMap path path'
      { buf with lastPidTgid := id } with hkept | ⟨rfl, -, hnew⟩
  · exact ⟨buf', hkept.trans hbuf', rfl, rfl⟩
  · have heq := Option.some.inj (hbuf.symm.trans hbuf')
    subst heq
    exact ⟨_, hnew, rfl, rfl⟩

/-- A fill finds its path absent, so it replaces no entry. -/
theorem cacheKept_fill {m : Maps} {path : DirFdData} {buf : Getdents64Buffer}
    (habsent : m.getdents64CacheMap.lookup path = none) :
    m.CacheKept (m.cachePut path buf) := by
  intro path' buf' hbuf'
  have hne : path' ≠ path := by
    rintro rfl
    rw [habsent] at hbuf'
    cases hbuf'
  exact ⟨buf', (BoundedMap.lookup_update_ne buf hne).trans hbuf', rfl, rfl⟩

theorem cacheKept_enterHandler (task : Task) (call : Syscall) (m : Maps)
    (mem : Memory) : m.CacheKept (enterHandler task call m mem).1 := by
  have heffect := enterHandler_effect task call m mem
  generalize (enterHandler task call m mem).1 = m' at heffect ⊢
  cases heffect with
  | marked id hpath hbuf => exact cacheKept_mark hbuf id
  | _ => exact cacheKept_of_eq rfl

theorem cacheKept_exitHandler (getAbsPath : List UInt8 → CharArray nameMax)
    (task : Task) (call : Syscall) (ret : CInt) (m : Maps) (mem : Memory) :
    m.CacheKept (exitHandler getAbsPath task call ret m mem) := by
  have heffect := exitHandler_effect getAbsPath task call ret m mem
  generalize exitHandler getAbsPath task call ret m mem = m' at heffect ⊢
  cases heffect with
  | same => exact cacheKept_of_eq rfl
  | recorded data hrecords hret => exact cacheKept_of_eq (cache_setDirFdData _ _ _ _)
  | filled hret hargs hpath habsent hroom => exact cacheKept_fill habsent

theorem cacheKept_step {K : Kernel σ} {w t : World σ} {l : Label}
    (h : step K w l = some t) : w.maps.CacheKept t.maps := by
  cases stepResult_of_step h with
  | @enter task call _ =>
      rw [enter_maps]
      exact cacheKept_enterHandler task call w.maps (w.mem task.pid)
  | kernel _ _ => exact cacheKept_of_eq rfl
  | @leave task call ret _ =>
      exact cacheKept_exitHandler _ task call ret w.maps (w.mem task.pid)
  | store => exact cacheKept_of_eq rfl

theorem cacheKept_of_exec {K : Kernel σ} {start : World σ → Prop} {w t : World σ}
    (schedule : List Label) (h : exec (system K start) w schedule = some t) :
    w.maps.CacheKept t.maps := by
  induction schedule generalizing w with
  | nil =>
      cases h
      exact cacheKept_of_eq rfl
  | cons l rest ih =>
      obtain ⟨next, hnext, hrest⟩ := Option.bind_eq_some_iff.mp h
      exact (cacheKept_step (K := K) hnext).trans (ih hrest)

/-- The entry `buf` answers a `getdents64` on `fd`, and not with its end mark. -/
structure ServedFrom (w : World σ) (task : Task) (fd : CInt) (path : DirFdData)
    (buf : Getdents64Buffer) : Prop where
  recorded : w.maps.pathOf task.pid fd = some path
  cached : w.maps.getdents64CacheMap.lookup path = some buf
  unmarked : task.pidTgid ≠ buf.lastPidTgid

/-- What the enter handler of `getdents64` returns in the kernel's place. -/
def World.answer (w : World σ) (task : Task) (fd : CInt) (dirp : Nat) (count : U32) :
    Option CInt :=
  (enterHandler task (.getdents64 fd dirp count) w.maps (w.mem task.pid)).2.2

/-- The byte at offset `i` of the caller's buffer once the handler is done. -/
def World.received (w : World σ) (task : Task) (fd : CInt) (dirp : Nat) (count : U32)
    (i : Nat) : UInt8 :=
  (w.enter task (.getdents64 fd dirp count)).mem task.pid (dirp + i)

section

variable {w : World σ} {task : Task} {fd : CInt} {path : DirFdData}
  {buf : Getdents64Buffer} (h : ServedFrom w task fd path buf) (dirp : Nat)
  (count : U32)
include h

theorem ServedFrom.handler (mem : Memory) :
    enterHandler task (.getdents64 fd dirp count) w.maps mem =
      (w.maps.cachePut path { buf with lastPidTgid := task.pidTgid },
        mem.write dirp (buf.buf.bytes.take (servedLen count)), some buf.nread) :=
  sysEnterGetdents64_served dirp count mem h.recorded h.cached h.unmarked

theorem ServedFrom.answer_eq : w.answer task fd dirp count = some buf.nread := by
  rw [World.answer, h.handler]

theorem ServedFrom.received_eq {i : Nat} (hi : i < servedLen count) :
    w.received task fd dirp count i = CString.byteAt buf.buf.bytes i := by
  have hlen : servedLen count ≤ dentsBufSize := by
    unfold servedLen
    split <;> omega
  have htake : i < (buf.buf.bytes.take (servedLen count)).length := by
    rw [List.length_take, buf.buf.length_eq]
    omega
  rw [World.received, enter_mem, h.handler, Function.update_self]
  simp only [Memory.write_inside htake]
  simp [CString.byteAt, hi]

end

/-- The cache between two states of a run: no entry is lost or altered, and two
calls it answers for one path get one return value and the same bytes, as far as
either of them has any copied. -/
structure WriteOnce (w t : World σ) : Prop where
  kept : w.maps.CacheKept t.maps
  answers : ∀ (path : DirFdData) (task task' : Task) (fd fd' : CInt)
    (buf buf' : Getdents64Buffer) (dirp dirp' : Nat) (count count' : U32),
    ServedFrom w task fd path buf → ServedFrom t task' fd' path buf' →
      (∃ ret, w.answer task fd dirp count = some ret ∧
        t.answer task' fd' dirp' count' = some ret) ∧
      ∀ i < min (servedLen count) (servedLen count'),
        w.received task fd dirp count i = t.received task' fd' dirp' count' i

/-- Whatever the threads do between two states, the cache is only ever added
to. -/
theorem writeOnce_of_exec {K : Kernel σ} {w t : World σ} (schedule : List Label)
    (h : exec (system K Attached) w schedule = some t) : WriteOnce w t := by
  have hkept := cacheKept_of_exec schedule h
  refine ⟨hkept, ?_⟩
  intro path task task' fd fd' buf buf' dirp dirp' count count' hfirst hsecond
  obtain ⟨later, hlater, hnread, hbytes⟩ := hkept path buf hfirst.cached
  have heq := Option.some.inj (hlater.symm.trans hsecond.cached)
  subst heq
  constructor
  · refine ⟨buf.nread, hfirst.answer_eq dirp count, ?_⟩
    rw [hsecond.answer_eq dirp' count', hnread]
  · intro i hi
    have hi' := lt_min_iff.mp hi
    rw [hfirst.received_eq dirp count hi'.1, hsecond.received_eq dirp' count' hi'.2,
      hbytes]

/-- The second thread reads the entry of the first listing into 8 bytes, and
then the first thread into 2048. -/
theorem writeOnce_of_exec_firstListing :
    ∃ w t : World FdTables, Reachable (system (fdKernel plainPath) Attached) w ∧
      WriteOnce w t ∧
      (∃ ret, w.answer secondThread 3 8192 8 = some ret ∧
        t.answer firstThread 3 4096 2048 = some ret) ∧
      w.received secondThread 3 8192 8 7 = t.received firstThread 3 4096 2048 7 := by
  obtain ⟨v, w, hv, hw, -, hidle, hpath, buf, hbuf, -, hlast⟩ := firstListing_run
  have hreach : Reachable (system (fdKernel plainPath) Attached) w :=
    .step (Reachable.exec firstListing (.start (attached_loadedWorld ∅)) hv) trivial hw
  have hfirst : ServedFrom w secondThread 3 ⟨plainPath [47, 100]⟩ buf :=
    ⟨hpath, hbuf, by rw [hlast]; decide⟩
  have hmaps := enter_maps w secondThread (.getdents64 3 8192 8)
  rw [hfirst.handler] at hmaps
  have hsecond : ServedFrom (w.enter secondThread (.getdents64 3 8192 8)) firstThread 3
      ⟨plainPath [47, 100]⟩ { buf with lastPidTgid := secondThread.pidTgid } := by
    have hother : firstThread.pidTgid ≠ secondThread.pidTgid := by decide
    refine ⟨?_, ?_, hother⟩
    · rw [hmaps]
      exact hpath
    · rw [hmaps]
      exact BoundedMap.lookup_update_self _ (BoundedMap.hasRoom_of_lookup hbuf)
  have honce : WriteOnce w (w.enter secondThread (.getdents64 3 8192 8)) :=
    @writeOnce_of_exec _ (fdKernel plainPath) _ _ [.enter secondThread (.getdents64 3 8192 8)]
      (by simp [exec, system, step, hidle])
  obtain ⟨hret, hbytes⟩ := honce.answers _ _ _ _ _ _ _ 8192 4096 8 2048 hfirst hsecond
  exact ⟨w, _, hreach, honce, hret, hbytes 7 (by decide)⟩

/-- A call about to fill an entry returned no more than its buffer holds, and
one about to be served asks for at least the length of the entry. -/
def Fitting (w : World σ) : Label → Prop
  | .enter task (.getdents64 fd _ count) =>
      ∀ path buf, ServedFrom w task fd path buf → buf.nread.toInt ≤ count.toNat
  | .leave task (.getdents64 _ _ _) ret =>
      ∀ args path, w.maps.getdents64ArgsStart.lookup task.pidTgid = some args →
        w.maps.pathOf task.pid args.fd = some path →
        w.maps.getdents64CacheMap.lookup path = none →
        w.maps.getdents64CacheMap.HasRoom path → ret.toInt ≤ dentsBufSize
  | _ => True

/-- What the enter handler returns in the kernel's place lies between 0 and what
the caller's buffer and the entry hold, and that many bytes are copied. -/
def Delivered (w : World σ) (task : Task) (fd : CInt) (dirp : Nat) (count : U32) :
    Prop :=
  ∀ ret, w.answer task fd dirp count = some ret →
    0 ≤ ret.toInt ∧ ret.toInt ≤ min (count.toNat : Int) dentsBufSize ∧
      ∀ path buf, w.maps.pathOf task.pid fd = some path →
        w.maps.getdents64CacheMap.lookup path = some buf → ∀ i < ret.toInt.toNat,
          w.received task fd dirp count i = CString.byteAt buf.buf.bytes i

/-- No entry claims more bytes than it has. -/
def EntriesFit (m : Maps) : Prop :=
  ∀ path buf, m.getdents64CacheMap.lookup path = some buf →
    0 ≤ buf.nread.toInt ∧ buf.nread.toInt ≤ dentsBufSize

theorem entriesFit_of_cacheFrom {m m' : Maps} (h : EntriesFit m)
    (hcache : m.CacheFrom m') : EntriesFit m' := by
  intro path buf hbuf
  obtain ⟨prior, hprior, hnread, -⟩ := hcache path buf hbuf
  rw [← hnread]
  exact h path prior hprior

theorem entriesFit_step {K : Kernel σ} {w t : World σ} {l : Label}
    (h : EntriesFit w.maps) (hok : Fitting w l) (hstep : step K w l = some t) :
    EntriesFit t.maps := by
  cases stepResult_of_step hstep with
  | @enter task call _ =>
      rw [enter_maps]
      exact entriesFit_of_cacheFrom h (cacheFrom_enterHandler task call _ _)
  | kernel _ _ => exact h
  | @leave task call ret _ =>
      simp only [World.leave]
      have heffect := exitHandler_effect (K.getAbsPath w.kernel task.pid) task call ret
        w.maps (w.mem task.pid)
      generalize exitHandler (K.getAbsPath w.kernel task.pid) task call ret
        w.maps (w.mem task.pid) = m' at heffect ⊢
      cases heffect with
      | same => exact h
      | recorded data _ _ =>
          exact entriesFit_of_cacheFrom h (cacheFrom_of_eq (cache_setDirFdData _ _ _ _))
      | @filled _ _ _ args path hret hargs hpath habsent hroom =>
          intro path' buf hbuf
          rcases BoundedMap.lookup_update_cases w.maps.getdents64CacheMap path path'
              ⟨ret, task.pidTgid,
                CharArray.probeRead dentsBufSize (w.mem task.pid) args.dirp⟩ with
            hkept | ⟨-, -, hnew⟩
          · exact h path' buf (hkept.symm.trans hbuf)
          · have heq := Option.some.inj (hnew.symm.trans hbuf)
            subst heq
            exact ⟨hret, hok args path hargs hpath habsent hroom⟩
  | store => exact h

theorem entriesFit_of_fitting {K : Kernel σ} {w : World σ}
    (h : RunsUnder (system K Attached) Fitting w) : EntriesFit w.maps := by
  refine @RunsUnder.invariant _ _ _ _ (fun w => EntriesFit w.maps) ?_ ?_ _ h
  · intro s hattached path buf hbuf
    simp [hattached.getdents64CacheMap] at hbuf
  · intro s l t hs hok hstep
    exact entriesFit_step hs hok hstep

/-- A call that is served gets the entry's length and as many of its bytes. -/
theorem ServedFrom.delivered {w : World σ} {task : Task} {fd : CInt}
    {path : DirFdData} {buf : Getdents64Buffer} (h : ServedFrom w task fd path buf)
    (dirp : Nat) {count : U32} (hfit : EntriesFit w.maps)
    (hcount : buf.nread.toInt ≤ count.toNat) : Delivered w task fd dirp count := by
  intro ret hret
  have heq := Option.some.inj ((h.answer_eq dirp count).symm.trans hret)
  subst heq
  obtain ⟨hnonneg, hsize⟩ := hfit path buf h.cached
  refine ⟨hnonneg, le_min hcount hsize, ?_⟩
  intro path' buf' hpath hbuf i hi
  have hsame := Option.some.inj (h.recorded.symm.trans hpath)
  subst hsame
  have hentry := Option.some.inj (h.cached.symm.trans hbuf)
  subst hentry
  apply h.received_eq
  unfold servedLen
  split <;> omega

/-- In every run in which no kernel call overfills an entry and no reader asks
for less than an entry's length, a served reply claims what it delivered. -/
theorem delivered_of_fitting {K : Kernel σ} {w : World σ} {task : Task} {fd : CInt}
    {dirp : Nat} {count : U32} (h : RunsUnder (system K Attached) Fitting w)
    (hok : Fitting w (.enter task (.getdents64 fd dirp count))) :
    Delivered w task fd dirp count := by
  rcases sysEnterGetdents64_cases task fd dirp count w.maps (w.mem task.pid) with
    ⟨-, henter⟩ | ⟨path, buf, -, -, -, henter⟩ |
    ⟨path, buf, hpath, hbuf, hlast, -⟩ | ⟨path, -, -, henter⟩
  · intro ret hret
    simp [World.answer, enterHandler, henter] at hret
  · intro ret hret
    have hzero : ret = 0 := by
      simpa [World.answer, enterHandler, henter] using hret.symm
    subst hzero
    simp
  · have hserved : ServedFrom w task fd path buf := ⟨hpath, hbuf, hlast⟩
    exact hserved.delivered dirp (entriesFit_of_fitting h) (hok path buf hserved)
  · intro ret hret
    simp [World.answer, enterHandler, henter] at hret

theorem delivered_of_fitting_firstListing :
    ∃ w : World FdTables, w.answer secondThread 3 8192 2048 = some 24 ∧
      Delivered w secondThread 3 8192 2048 := by
  obtain ⟨v, w, hv, hw, hargs, -, hpath, buf, hbuf, hnread, hlast⟩ := firstListing_run
  have hserved : ServedFrom w secondThread 3 ⟨plainPath [47, 100]⟩ buf :=
    ⟨hpath, hbuf, by rw [hlast]; decide⟩
  refine ⟨w, by rw [hserved.answer_eq, hnread],
    @delivered_of_fitting _ (fdKernel plainPath) w secondThread 3 8192 2048
      (.step (.exec firstListing (.start (attached_loadedWorld ∅)) ?_ hv) ?_ hw) ?_⟩
  · refine ⟨trivial, fun a ha => ⟨trivial, fun b hb => ⟨trivial, fun c hc =>
      ⟨?_, fun _ _ => ⟨trivial, fun _ _ => trivial⟩⟩⟩⟩⟩
    intro path' buf' h
    have hrun : RunsUnder (system (fdKernel plainPath) Attached) Fitting c :=
      .step (.step (.step (.start (attached_loadedWorld ∅)) (by trivial) ha)
        (by trivial) hb) (by trivial) hc
    exact (entriesFit_of_fitting hrun path' buf' h.cached).2
  · intro _ _ _ _ _ _
    decide
  · intro path' buf' h
    have heq := Option.some.inj (hserved.recorded.symm.trans h.recorded)
    subst heq
    have hentry := Option.some.inj (hbuf.symm.trans h.cached)
    subst hentry
    rw [hnread]
    decide

/-- The second thread offers 8 bytes and is told that it got 24. -/
theorem short_reader_overtold :
    ∃ w : World FdTables, Reachable (system (fdKernel plainPath) Attached) w ∧
      ¬ Delivered w secondThread 3 8192 8 := by
  obtain ⟨v, w, hv, hw, -, -, hpath, buf, hbuf, hnread, hlast⟩ := firstListing_run
  refine ⟨w, .step (Reachable.exec firstListing (.start (attached_loadedWorld ∅)) hv)
    trivial hw, ?_⟩
  intro hdelivered
  have hserved : ServedFrom w secondThread 3 ⟨plainPath [47, 100]⟩ buf :=
    ⟨hpath, hbuf, by rw [hlast]; decide⟩
  have hbound := (hdelivered buf.nread (hserved.answer_eq 8192 8)).2.1
  rw [hnread] at hbound
  revert hbound
  decide

end BpftimeBenchmark.FsCache
