import BpftimeBenchmark.FsCache.Effects

/-!
Where the entries of `getdents64_cache_map` come from. The exit handler takes
descriptor and buffer from the record the thread's last tracked call left, and
nothing deletes that record. A call on a descriptor without a path stores no
record of its own, so its result can be filed under the path, and with the
bytes, of an earlier call that failed. It also looks the path up again, after
the call, when another thread may have given the descriptor away.
-/

namespace BpftimeBenchmark.FsCache

open Transition

variable {σ : Type}

/-- Each entry is the result of one completed kernel call: the returned length
and the caller's buffer, under the path its own descriptor had in that call. -/
def CacheFaithful (w : World σ) : Prop :=
  ∀ path buf, w.maps.getdents64CacheMap.lookup path = some buf →
    ∃ r ∈ w.replies, r.listed = some path ∧ r.ret = buf.nread ∧ r.bytes = buf.buf

/-- A `getdents64` about to fill an entry finds a record of its own buffer, and
the path of the entry is the one that its descriptor had in the kernel. -/
def OwnRecord (w : World σ) : Label → Prop
  | .leave task (.getdents64 _ dirp _) ret =>
      ∀ args path, 0 ≤ ret.toInt →
        w.maps.getdents64ArgsStart.lookup task.pidTgid = some args →
        w.maps.pathOf task.pid args.fd = some path →
        w.maps.getdents64CacheMap.lookup path = none →
        w.maps.getdents64CacheMap.HasRoom path →
        args.dirp = dirp ∧ w.listed task.pidTgid = some path
  | _ => True

/-- Every entry of `m` was in `old` with the same length and bytes. -/
def Maps.CacheFrom (old m : Maps) : Prop :=
  ∀ path buf, m.getdents64CacheMap.lookup path = some buf →
    ∃ prior, old.getdents64CacheMap.lookup path = some prior ∧
      prior.nread = buf.nread ∧ prior.buf = buf.buf

theorem cacheFrom_of_eq {old m : Maps}
    (h : m.getdents64CacheMap = old.getdents64CacheMap) : old.CacheFrom m := by
  intro path buf hbuf
  rw [h] at hbuf
  exact ⟨buf, hbuf, rfl, rfl⟩

/-- Rewriting the end-of-directory mark of an entry keeps length and bytes. -/
theorem cacheFrom_mark {m : Maps} {path : DirFdData} {buf : Getdents64Buffer}
    (hbuf : m.getdents64CacheMap.lookup path = some buf) (id : U64) :
    m.CacheFrom (m.cachePut path { buf with lastPidTgid := id }) := by
  intro path' buf' hbuf'
  rcases BoundedMap.lookup_update_cases m.getdents64CacheMap path path'
      { buf with lastPidTgid := id } with hkept | ⟨rfl, -, hnew⟩
  · exact ⟨buf', hkept.symm.trans hbuf', rfl, rfl⟩
  · have heq := Option.some.inj (hnew.symm.trans hbuf')
    subst heq
    exact ⟨buf, hbuf, rfl, rfl⟩

theorem cacheFrom_enterHandler (task : Task) (call : Syscall) (m : Maps)
    (mem : Memory) : m.CacheFrom (enterHandler task call m mem).1 := by
  have heffect := enterHandler_effect task call m mem
  generalize (enterHandler task call m mem).1 = m' at heffect ⊢
  cases heffect with
  | marked id hpath hbuf => exact cacheFrom_mark hbuf id
  | _ => exact cacheFrom_of_eq rfl

/-- Only the exit handler of `getdents64` fills the cache. -/
theorem cacheFrom_exitHandler {getAbsPath : List UInt8 → CharArray nameMax}
    {task : Task} {call : Syscall} (ret : CInt) (m : Maps) (mem : Memory)
    (hcall : ∀ fd dirp count, call ≠ .getdents64 fd dirp count) :
    m.CacheFrom (exitHandler getAbsPath task call ret m mem) :=
  cacheFrom_of_eq (exitHandler_other getAbsPath task ret m mem hcall).2

/-- Entries that were there before stay accounted for. -/
theorem CacheFaithful.of_cacheFrom {w t : World σ} (h : CacheFaithful w)
    (hcache : w.maps.CacheFrom t.maps) (hreplies : w.replies ⊆ t.replies) :
    CacheFaithful t := by
  intro path buf hbuf
  obtain ⟨prior, hprior, hnread, hbytes⟩ := hcache path buf hbuf
  obtain ⟨r, hr, hlisted, hret, hdata⟩ := h path prior hprior
  exact ⟨r, hreplies hr, hlisted, hret.trans hnread, hdata.trans hbytes⟩

theorem replies_subset_enter (w : World σ) (task : Task) (call : Syscall) :
    w.replies ⊆ (w.enter task call).replies := by
  rcases enter_cases w task call with ⟨ret, -, -, hreplies⟩ | ⟨-, -, hreplies⟩
  · rw [hreplies]
    exact List.subset_append_left _ _
  · rw [hreplies]
    exact List.Subset.refl _

/-- The fill step: the new entry is the reply that ends in this very step. -/
theorem cacheFaithful_leave_getdents64 {K : Kernel σ} {w : World σ} {task : Task}
    {fd : CInt} {dirp : Nat} {count : U32} {ret : CInt} (h : CacheFaithful w)
    (hown : OwnRecord w (.leave task (.getdents64 fd dirp count) ret)) :
    CacheFaithful (w.leave K task (.getdents64 fd dirp count) ret) := by
  have hreplies : w.replies ⊆ (w.leave K task (.getdents64 fd dirp count) ret).replies :=
    List.subset_append_left _ _
  rcases sysExitGetdents64_eq task ret w.maps (w.mem task.pid) with
    hsame | ⟨args, path, hret, hargs, hpath, habsent, hroom, hfill⟩
  · exact h.of_cacheFrom (cacheFrom_of_eq (congrArg Maps.getdents64CacheMap hsame))
      hreplies
  obtain ⟨hdirp, hlisted⟩ := hown args path hret hargs hpath habsent hroom
  have hmaps : (w.leave K task (.getdents64 fd dirp count) ret).maps =
      w.maps.cachePut path ⟨ret, task.pidTgid,
        CharArray.probeRead dentsBufSize (w.mem task.pid) args.dirp⟩ := hfill
  intro path' buf hbuf
  rw [hmaps] at hbuf
  rcases BoundedMap.lookup_update_cases w.maps.getdents64CacheMap path path'
      ⟨ret, task.pidTgid, CharArray.probeRead dentsBufSize (w.mem task.pid) args.dirp⟩
    with hkept | ⟨rfl, -, hnew⟩
  · obtain ⟨r, hr, hrest⟩ := h path' buf (hkept.symm.trans hbuf)
    exact ⟨r, hreplies hr, hrest⟩
  · have heq := Option.some.inj (hnew.symm.trans hbuf)
    subst heq
    refine ⟨⟨task, fd, dirp, ret, w.listed task.pidTgid, w.maps.pathOf task.pid fd,
      CharArray.probeRead dentsBufSize (w.mem task.pid) dirp⟩, ?_, hlisted, rfl, ?_⟩
    · exact List.mem_append_right _ (List.mem_singleton.mpr rfl)
    · rw [← hdirp]

theorem cacheFaithful_step {K : Kernel σ} {w t : World σ} {l : Label}
    (h : CacheFaithful w) (hown : OwnRecord w l) (hstep : step K w l = some t) :
    CacheFaithful t := by
  cases stepResult_of_step hstep with
  | @enter task call _ =>
      refine h.of_cacheFrom ?_ (replies_subset_enter w task call)
      rw [enter_maps]
      exact cacheFrom_enterHandler task call w.maps (w.mem task.pid)
  | kernel _ _ => exact h.of_cacheFrom (cacheFrom_of_eq rfl) (List.Subset.refl _)
  | @leave task call ret _ =>
      by_cases hcall : ∃ fd dirp count, call = .getdents64 fd dirp count
      · obtain ⟨fd, dirp, count, rfl⟩ := hcall
        exact cacheFaithful_leave_getdents64 h hown
      · refine h.of_cacheFrom ?_ (List.subset_append_left _ _)
        apply cacheFrom_exitHandler
        intro fd dirp count heq
        exact hcall ⟨fd, dirp, count, heq⟩
  | store => exact h.of_cacheFrom (cacheFrom_of_eq rfl) (List.Subset.refl _)

/-- While every fill uses its own call's buffer and path, the cache holds nothing
but results of kernel calls on the path they are filed under. -/
theorem cacheFaithful_of_ownRecord {K : Kernel σ} {w : World σ}
    (h : RunsUnder (system K Attached) OwnRecord w) : CacheFaithful w := by
  refine h.invariant ?_ (fun _ _ _ h hown hstep => cacheFaithful_step h hown hstep)
  intro w hstart path buf hbuf
  rw [hstart.getdents64CacheMap, BoundedMap.lookup_empty] at hbuf
  cases hbuf

/-- Descriptor 7 of process 1 was open before the programs were attached. -/
def openBefore : Finmap (fun _ : U32 × U32 => OpenedAs) :=
  Finmap.singleton (1, 7) ⟨[slash], [118]⟩

def openDir : Syscall := .openPath [47, 100] 0

/-- A listing of `/d` fails; the next call lists the unrecorded descriptor. -/
def staleRecord : List Label :=
  [.enter firstThread openDir, .kernel firstThread openDir ⟨3, []⟩,
    .leave firstThread openDir 3,
    .enter firstThread (.getdents64 3 4096 2048),
    .kernel firstThread (.getdents64 3 4096 2048) ⟨BitVec.ofInt 32 (-5), []⟩,
    .leave firstThread (.getdents64 3 4096 2048) (BitVec.ofInt 32 (-5)),
    .enter firstThread (.getdents64 7 8192 2048),
    .kernel firstThread (.getdents64 7 8192 2048) ⟨24, List.replicate 24 1⟩,
    .leave firstThread (.getdents64 7 8192 2048) 24]

def openOther : Syscall := .openPath [47, 101] 0

/-- While a listing of `/d` is in flight, a second thread closes the descriptor
and gets it again for `/e`. -/
def movedDescriptor : List Label :=
  [.enter firstThread openDir, .kernel firstThread openDir ⟨3, []⟩,
    .leave firstThread openDir 3,
    .enter firstThread (.getdents64 3 4096 2048),
    .kernel firstThread (.getdents64 3 4096 2048) ⟨24, List.replicate 24 1⟩,
    .enter secondThread (.close 3), .kernel secondThread (.close 3) ⟨0, []⟩,
    .leave secondThread (.close 3) 0,
    .enter secondThread openOther, .kernel secondThread openOther ⟨3, []⟩,
    .leave secondThread openOther 3,
    .leave firstThread (.getdents64 3 4096 2048) 24]

/-- A run is refuted by an entry whose length no call on its path returned. -/
theorem not_cacheFaithful_of_run {schedule : List Label}
    {files : Finmap (fun _ : U32 × U32 => OpenedAs)} {path : DirFdData} {nread : CInt}
    {calls : List (CInt × Option DirFdData)}
    (hrun : (exec (system (fdKernel plainPath) Attached) (loadedWorld files)
      schedule).map (fun w =>
        ((w.maps.getdents64CacheMap.lookup path).map (·.nread),
          w.replies.map (fun r => (r.ret, r.listed)))) = some (some nread, calls))
    (hforeign : (nread, some path) ∉ calls) :
    ∃ w, exec (system (fdKernel plainPath) Attached) (loadedWorld files) schedule =
        some w ∧
      Reachable (system (fdKernel plainPath) Attached) w ∧ ¬ CacheFaithful w := by
  obtain ⟨w, hw, hend⟩ := Option.map_eq_some_iff.mp hrun
  simp only [Prod.mk.injEq] at hend
  obtain ⟨hentry, hcalls⟩ := hend
  refine ⟨w, hw, Reachable.exec schedule (.start (attached_loadedWorld files)) hw, ?_⟩
  intro hfaithful
  obtain ⟨buf, hbuf, hnread⟩ := Option.map_eq_some_iff.mp hentry
  obtain ⟨r, hr, hlisted, hret, -⟩ := hfaithful _ buf hbuf
  have hmem : (r.ret, r.listed) ∈ w.replies.map (fun r => (r.ret, r.listed)) :=
    List.mem_map_of_mem hr
  rw [hcalls, hret, hnread, hlisted] at hmem
  exact hforeign hmem

/-- In the first run a listing is cached for `/d`, where no call ever succeeded;
in the second one the listing of `/d` is cached for `/e`. -/
theorem stale_record_fills_cache :
    (∃ w, exec (system (fdKernel plainPath) Attached) (loadedWorld openBefore)
        staleRecord = some w ∧
      Reachable (system (fdKernel plainPath) Attached) w ∧ ¬ CacheFaithful w) ∧
    ∃ w, exec (system (fdKernel plainPath) Attached) (loadedWorld ∅)
        movedDescriptor = some w ∧
      Reachable (system (fdKernel plainPath) Attached) w ∧ ¬ CacheFaithful w := by
  constructor
  · exact @not_cacheFaithful_of_run _ _ ⟨plainPath [47, 100]⟩ 24
      [(BitVec.ofInt 32 (-5), some ⟨plainPath [47, 100]⟩), (24, none)]
      (by decide +kernel) (by decide +kernel)
  · exact @not_cacheFaithful_of_run _ _ ⟨plainPath [47, 101]⟩ 24
      [(24, some ⟨plainPath [47, 100]⟩)] (by decide +kernel) (by decide +kernel)

/-- The same directory listed once, successfully. -/
def firstListing : List Label :=
  [.enter firstThread openDir, .kernel firstThread openDir ⟨3, []⟩,
    .leave firstThread openDir 3,
    .enter firstThread (.getdents64 3 4096 2048),
    .kernel firstThread (.getdents64 3 4096 2048) ⟨24, List.replicate 24 1⟩]

/-- Where that listing leads, and what its exit handler finds and files. -/
theorem firstListing_run :
    ∃ v w, exec (system (fdKernel plainPath) Attached) (loadedWorld ∅) firstListing =
        some v ∧
      (system (fdKernel plainPath) Attached).step v
        (.leave firstThread (.getdents64 3 4096 2048) 24) = some w ∧
      v.maps.getdents64ArgsStart.lookup firstThread.pidTgid = some ⟨3, 4096, 2048⟩ ∧
      w.phase secondThread.pidTgid = .idle ∧
      w.maps.pathOf 1 3 = some ⟨plainPath [47, 100]⟩ ∧
      ∃ buf, w.maps.getdents64CacheMap.lookup ⟨plainPath [47, 100]⟩ = some buf ∧
        buf.nread = 24 ∧ buf.lastPidTgid = firstThread.pidTgid := by
  have hrun : (exec (system (fdKernel plainPath) Attached) (loadedWorld ∅)
      firstListing).bind (fun v =>
        ((system (fdKernel plainPath) Attached).step v
          (.leave firstThread (.getdents64 3 4096 2048) 24)).map (fun w => decide
            (v.maps.getdents64ArgsStart.lookup firstThread.pidTgid =
                some ⟨3, 4096, 2048⟩ ∧
              w.phase secondThread.pidTgid = .idle ∧
              w.maps.pathOf 1 3 = some ⟨plainPath [47, 100]⟩ ∧
              (w.maps.getdents64CacheMap.lookup ⟨plainPath [47, 100]⟩).map
                (fun buf => (buf.nread, buf.lastPidTgid)) =
                  some (24, firstThread.pidTgid)))) = some true := by decide +kernel
  obtain ⟨v, hv, hend⟩ := Option.bind_eq_some_iff.mp hrun
  obtain ⟨w, hw, hend⟩ := Option.map_eq_some_iff.mp hend
  obtain ⟨hargs, hphase, hpath, hentry⟩ := of_decide_eq_true hend
  obtain ⟨buf, hbuf, hfields⟩ := Option.map_eq_some_iff.mp hentry
  simp only [Prod.mk.injEq] at hfields
  exact ⟨v, w, hv, hw, hargs, hphase, hpath, buf, hbuf, hfields.1, hfields.2⟩

/-- The listing is executed on the path that the descriptor still has after it. -/
theorem firstListing_listed {v : World FdTables}
    (hv : exec (system (fdKernel plainPath) Attached) (loadedWorld ∅) firstListing =
      some v) :
    v.listed firstThread.pidTgid = v.maps.pathOf 1 3 := by
  have hrun : (exec (system (fdKernel plainPath) Attached) (loadedWorld ∅)
      firstListing).map (fun v => decide
        (v.listed firstThread.pidTgid = v.maps.pathOf 1 3)) = some true := by
    decide +kernel
  rw [hv] at hrun
  exact of_decide_eq_true (Option.some.inj hrun)

theorem cacheFaithful_of_ownRecord_firstListing :
    ∃ w : World FdTables,
      (w.maps.getdents64CacheMap.lookup ⟨plainPath [47, 100]⟩).isSome ∧
        CacheFaithful w := by
  obtain ⟨v, w, hv, hw, hargs, -, -, buf, hbuf, -, -⟩ := firstListing_run
  refine ⟨w, Option.isSome_iff_exists.mpr ⟨buf, hbuf⟩,
    @cacheFaithful_of_ownRecord _ (fdKernel plainPath) w
      (.step (.exec firstListing (.start (attached_loadedWorld ∅)) ?_ hv) ?_ hw)⟩
  · apply along_of_labels
    intro l hl s
    simp only [firstListing, List.mem_cons, List.not_mem_nil, or_false] at hl
    rcases hl with rfl | rfl | rfl | rfl | rfl <;> trivial
  · intro args path _ hfound hpath _ _
    obtain rfl := Option.some.inj (hargs.symm.trans hfound)
    exact ⟨rfl, (firstListing_listed hv).trans hpath⟩

end BpftimeBenchmark.FsCache
