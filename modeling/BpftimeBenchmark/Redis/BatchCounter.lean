import BpftimeBenchmark.Redis.BatchOrder
import BpftimeBenchmark.Redis.Progress

/-!
The counter of `batch_process` and the ring it stands for. The counter decides
when a batch is submitted and how often the handler waits, so the calls come to
their end because it is exact.
-/

namespace BpftimeBenchmark.Redis

open Uring Transition

variable {w t : World} {l : Label}

/-- `current_count` is the length of the queue, a batch is submitted when it has
49 entries, and each of its waits has a completion to come, so no call blocks. -/
structure BatchCounted (w : World) : Prop where
  counted : w.frame = none →
    w.global = w.ring.queued.length ∧ 0 ≤ w.global ∧ w.global ≤ 48
  reaped : w.frame = none → w.ring.outstanding = 0
  room : ∀ s ∈ w.code.head?, ∀ op, s.op = some op → w.ring.queued.length < 49
  fits : w.ring.queued.length ≤ 49
  flush : w.code.head? = some .ioUringSubmit → w.ring.queued.length = 49
  owed : w.code.head? = some .ioUringWaitAndSeen → 0 < w.ring.outstanding
  unblocked : Unblocked batchProcess w

/-- A submission that is still ahead is followed by 49 waits, and until then
nothing is owed. -/
def FlushAhead (w : World) : Prop :=
  ∀ rest, .ioUringSubmit :: rest <:+ w.code →
    w.ring.outstanding = 0 ∧ rest.filterMap Stmt.command = List.replicate 49 .wait

structure CounterInv (w : World) : Prop where
  accounted : Accounted w
  batch : ∃ base, BatchFrom base w
  flush : FlushAhead w
  fits : w.ring.queued.length ≤ 49

theorem counterInv_attached (h : Attached w) : CounterInv w where
  accounted := accounted_attached h
  batch := ⟨0, batchFrom_attached h⟩
  flush := by
    intro rest hrest
    rw [World.code, h.frame] at hrest
    cases List.suffix_nil.mp hrest
  fits := by simp [h.ring, Ring.empty]

/-- Where the handler of an intercepted call submits. -/
theorem flush_batched {c : Nat} {op : Op} {result : Int} {rest : List Stmt} (hc : c < 49)
    (h : .ioUringSubmit :: rest <:+ batched c op.queue result) :
    rest.filterMap Stmt.command = List.replicate 49 .wait := by
  have hqueue : Stmt.ioUringSubmit ≠ op.queue := by
    cases op <;> simp [Op.queue]
  by_cases hfew : (c : Int) < patchSize
  · rw [batched, if_pos hfew] at h
    have hmem := h.subset List.mem_cons_self
    simp [hqueue] at hmem
  · rw [patchSize] at hfew
    obtain rfl : c = 48 := by omega
    have hmem : ∀ waits, Stmt.ioUringSubmit ∉
        List.replicate waits Stmt.ioUringWaitAndSeen ++
          [.assign 0, .bpfOverrideReturn result] := by
      simp
    rw [batched, if_neg (by decide)] at h
    simp only [List.cons_append, List.nil_append, List.suffix_cons_iff,
      List.cons.injEq, hqueue, false_and, false_or, reduceCtorEq, true_and] at h
    rcases h with hrest | hlater
    · rw [hrest]
      simp [Stmt.command]
    · exact absurd (hlater.subset List.mem_cons_self) (hmem _)

theorem flushAhead_call {call : Call} (hbatch : ∃ base, BatchFrom base w)
    (hidle : w.frame = none) : FlushAhead (w.call batchProcess call) := by
  obtain ⟨base, hfrom⟩ := hbatch
  have hquiet := hfrom.quiet hidle
  obtain ⟨c, hsettles, hc, -⟩ := hfrom
  rw [settles_idle 49 hidle] at hsettles
  have hglobal : w.global = c := congrArg Prod.fst (Option.some.inj hsettles)
  intro rest hrest
  refine ⟨hquiet, ?_⟩
  cases call with
  | start =>
      have hmem : Stmt.ioUringSubmit ∈ [Stmt.ioUringInitGlobal] :=
        hrest.subset List.mem_cons_self
      simp at hmem
  | io op =>
      have hrest : .ioUringSubmit :: rest <:+ batchHook w.global (.io op) := hrest
      rw [batchHook_io, hglobal] at hrest
      exact flush_batched hc hrest

/-- A statement other than the submission queues at most, and the submission is
the last of its kind. -/
theorem flushAhead_stmt {f : Frame} {s : Stmt} {rest : List Stmt} (h : FlushAhead w)
    (hframe : w.frame = some f) (hcode : f.code = s :: rest)
    (hexec : ExecResult w { f with code := rest } s t) : FlushAhead t := by
  obtain ⟨v, ht⟩ := exec_frame hexec
  have hwcode : w.code = s :: rest := (code_of_frame hframe).trans hcode
  have htcode : t.code = rest := code_of_frame ht
  have hlater : ∀ later, .ioUringSubmit :: later <:+ t.code →
      w.ring.outstanding = 0 ∧
        later.filterMap Stmt.command = List.replicate 49 .wait := by
    intro later hlater
    rw [htcode] at hlater
    exact h later (hwcode ▸ hlater.trans (List.suffix_cons s rest))
  intro later hsuffix
  obtain ⟨hquiet, hwaits⟩ := hlater later hsuffix
  refine ⟨?_, hwaits⟩
  cases hexec with
  | init => rfl
  | queue hop => exact hquiet
  | submit =>
      have hrest := (h rest (hwcode ▸ List.suffix_refl _)).2
      have hmem : Command.submit ∈ rest.filterMap Stmt.command :=
        List.mem_filterMap.mpr
          ⟨.ioUringSubmit, htcode ▸ hsuffix.subset List.mem_cons_self, rfl⟩
      rw [hrest] at hmem
      cases (List.mem_replicate.mp hmem).2
  | seen hseen =>
      have hout := Ring.outstanding_seen hseen
      omega
  | assign | override => exact hquiet

theorem flushAhead_of_same (h : FlushAhead w) (hcode : t.code = w.code)
    (hout : t.ring.outstanding = w.ring.outstanding) : FlushAhead t := by
  intro rest hrest
  rw [hcode] at hrest
  rw [hout]
  exact h rest hrest

theorem flushAhead_step (h : FlushAhead w) (hbatch : ∃ base, BatchFrom base w)
    (hstep : step batchProcess w l = some t) : FlushAhead t := by
  cases stepResult_of_step hstep with
  | call hidle => exact flushAhead_call hbatch hidle
  | stmt hframe hcode hexec => exact flushAhead_stmt h hframe hcode hexec
  | @ret f hframe hcode =>
      refine flushAhead_of_same h ?_ (by rw [return_ring])
      rw [World.code, return_frame, code_of_frame hframe, hcode]
  | execute hentry hop hres =>
      exact flushAhead_of_same h rfl (Ring.outstanding_execute hentry _)
  | begin hentry hop =>
      exact flushAhead_of_same h rfl (Ring.outstanding_begin hentry _)
  | finish hrunning hres =>
      exact flushAhead_of_same h rfl (Ring.outstanding_finish hrunning _)
  | store hidle => exact flushAhead_of_same h rfl rfl

theorem fits_step (hbatch : ∃ base, BatchFrom base w) (hfits : w.ring.queued.length ≤ 49)
    (hstep : step batchProcess w l = some t) : t.ring.queued.length ≤ 49 := by
  cases stepResult_of_step hstep with
  | @stmt f s rest t hframe hcode hexec =>
      cases hexec with
      | queue hop =>
          obtain ⟨base, c, hsettles, -⟩ := hbatch
          have hroom := (settles_queue hframe hcode hop hsettles).2
          simp only [Ring.prepare, List.length_append, List.length_singleton]
          omega
      | seen hseen =>
          obtain ⟨c, -, hqueued, -⟩ := Ring.seen_cases hseen
          simp only [hqueued]
          exact hfits
      | init | submit => exact Nat.zero_le _
      | assign | override => exact hfits
  | ret hframe hcode =>
      rw [return_ring]
      exact hfits
  | call _ | execute _ _ _ | begin _ _ | finish _ _ | store _ => exact hfits

theorem counterInv_step (hi : CounterInv w) (hok : StartsFirst w l)
    (hstep : step batchProcess w l = some t) : CounterInv t where
  accounted := accounted_step hi.accounted hok hstep
  batch := batchFrom_step hi.accounted hi.batch hstep
  flush := flushAhead_step hi.flush hi.batch hstep
  fits := fits_step hi.batch hi.fits hstep

theorem frame_of_head {s : Stmt} (h : w.code.head? = some s) :
    ∃ f rest, w.frame = some f ∧ f.code = s :: rest := by
  unfold World.code at h
  split at h
  · cases h
  · rename_i f hframe
    obtain ⟨rest, hcode⟩ := List.head?_eq_some_iff.mp h
    exact ⟨f, rest, hframe, hcode⟩

/-- A handler that will settle waits only for what is owed. -/
theorem settles_wait {slots : Nat} {r : Int × Tally} (h : w.settles slots = some r)
    (hnext : w.code.head? = some .ioUringWaitAndSeen) : 0 < w.ring.outstanding := by
  obtain ⟨rest, hcode⟩ := List.head?_eq_some_iff.mp hnext
  obtain ⟨n, hrun, -⟩ := Option.map_eq_some_iff.mp h
  rw [hcode, List.filterMap_cons_some (f := Stmt.command) rfl] at hrun
  obtain ⟨n', happly, -⟩ := Option.bind_eq_some_iff.mp hrun
  exact (Tally.apply_wait happly).1

/-- The batch has as many entries as there are waits after its submission. -/
theorem queued_of_flush {slots waits : Nat} {g : Int} {n : Tally} {rest : List Stmt}
    (h : w.settles slots = some (g, n)) (hcode : w.code = .ioUringSubmit :: rest)
    (hquiet : w.ring.outstanding = 0) (hsettled : n.outstanding = 0)
    (hwaits : rest.filterMap Stmt.command = List.replicate waits .wait) :
    w.ring.queued.length = waits := by
  obtain ⟨m, hrun, hend⟩ := Option.map_eq_some_iff.mp h
  obtain ⟨-, rfl⟩ := Prod.mk.inj hend
  rw [hcode, List.filterMap_cons_some (f := Stmt.command) rfl, hwaits] at hrun
  obtain ⟨n', happly, hrest⟩ := Option.bind_eq_some_iff.mp hrun
  obtain rfl := Option.some.inj happly
  have hcount : w.ring.outstanding + w.ring.queued.length = m.outstanding + waits :=
    Tally.run_waits hrest
  omega

theorem batchCounted_of_inv (hi : CounterInv w) : BatchCounted w := by
  obtain ⟨base, hfrom⟩ := hi.batch
  have hquiet := fun hidle => hfrom.quiet hidle
  obtain ⟨c, hsettles, hc, -⟩ := hfrom
  have howed := settles_wait hsettles
  constructor
  · intro hidle
    rw [settles_idle 49 hidle] at hsettles
    obtain ⟨hglobal, htally⟩ := Prod.mk.inj (Option.some.inj hsettles)
    have hqueued : w.ring.queued.length = c := congrArg Tally.queued htally
    omega
  · exact hquiet
  · intro s hs op hop
    obtain ⟨f, rest, hframe, hcode⟩ := frame_of_head hs
    exact (settles_queue hframe hcode hop hsettles).2
  · exact hi.fits
  · intro hnext
    obtain ⟨rest, hcode⟩ := List.head?_eq_some_iff.mp hnext
    obtain ⟨hnone, hwaits⟩ := hi.flush rest (hcode ▸ List.suffix_refl _)
    exact queued_of_flush hsettles hcode hnone rfl hwaits
  · exact howed
  · exact unblocked_of_owed howed

/-- In every run of intercepted writes and fdatasync calls, in any mix, the
counter is the length of the queue. -/
theorem batchCounted_of_run (h : RunsUnder (system batchProcess) StartsFirst w) :
    BatchCounted w := by
  apply batchCounted_of_inv
  exact h.invariant (fun _ hstart => counterInv_attached hstart)
    (fun _ _ _ hi hok hstep => counterInv_step hi hok hstep)

theorem batchCounted_of_run_oneBatch :
    ∃ w, w.frame.isNone ∧ w.global = 0 ∧ (w.disk.content 3).length = 200 ∧
      BatchCounted w := by
  obtain ⟨w, hrun, hidle, hzero, hlength⟩ := oneBatch_run
  exact ⟨w, hidle, hzero, hlength, batchCounted_of_run (hrun.mono fun _ _ h => h.1)⟩

end BpftimeBenchmark.Redis
