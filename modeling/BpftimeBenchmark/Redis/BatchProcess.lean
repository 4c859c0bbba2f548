import BpftimeBenchmark.Redis.Accounting

/-!
`batch_process`: writes and fdatasync calls are queued, and every 49th call
submits the batch and waits until all of it has completed. A batch has an odd
number of entries, so one of two alternating calls at its start is an fsync,
which covers all earlier batches in whatever order the batch is executed.
-/

namespace BpftimeBenchmark.Redis

open Uring Transition

def patchSize : Int := 48

/-- Both handlers queue their entry, count it and return success. From
`patch_size` on the counted entries are submitted and waited for. -/
def batched (currentCount : Int) (queue : Stmt) (result : Int) : List Stmt :=
  if currentCount < patchSize then
    [queue, .assign (currentCount + 1), .bpfOverrideReturn result]
  else
    [queue, .assign (currentCount + 1), .ioUringSubmit] ++
      List.replicate (currentCount + 1).toNat .ioUringWaitAndSeen ++
      [.assign 0, .bpfOverrideReturn result]

def batchWrite (currentCount : Int) (fd : Fd) (buf n : Nat) : List Stmt :=
  batched currentCount (.ioUringSubmitWrite fd buf n) n

def batchFsync (currentCount : Int) (fd : Fd) : List Stmt :=
  batched currentCount (.ioUringSubmitFsync fd) 0

/-- The statement that queues a given operation. -/
def Op.queue : Op → Stmt
  | .write fd buf n => .ioUringSubmitWrite fd buf n
  | .fsync fd => .ioUringSubmitFsync fd

theorem queue_op (op : Op) : op.queue.op = some op := by
  cases op <;> rfl

def batchHook (currentCount : Int) : Call → List Stmt
  | .start => [.ioUringInitGlobal]
  | .io (.write fd buf n) => batchWrite currentCount fd buf n
  | .io (.fsync fd) => batchFsync currentCount fd

theorem batchHook_io (currentCount : Int) (op : Op) :
    batchHook currentCount (.io op) = batched currentCount op.queue op.full := by
  cases op <;> rfl

theorem mem_batched {g : Int} {queue s : Stmt} {result : Int}
    (h : s ∈ batched g queue result) :
    s = queue ∨ s.op = none ∧ s ≠ .ioUringInitGlobal := by
  unfold batched at h
  split at h
  · simp only [List.mem_cons, List.not_mem_nil, or_false] at h
    rcases h with rfl | rfl | rfl
    · exact Or.inl rfl
    · exact Or.inr ⟨rfl, by simp⟩
    · exact Or.inr ⟨rfl, by simp⟩
  · simp only [List.mem_append, List.mem_cons, List.mem_replicate, List.not_mem_nil,
      or_false] at h
    rcases h with ((rfl | rfl | rfl) | ⟨-, rfl⟩) | rfl | rfl
    · exact Or.inl rfl
    · exact Or.inr ⟨rfl, by simp⟩
    · exact Or.inr ⟨rfl, by simp⟩
    · exact Or.inr ⟨rfl, by simp⟩
    · exact Or.inr ⟨rfl, by simp⟩
    · exact Or.inr ⟨rfl, by simp⟩

def batchProcess : Program where
  hook := batchHook
  own g call s op hs hop := by
    cases call with
    | start =>
        obtain rfl := List.mem_singleton.mp hs
        cases hop
    | io o =>
        rw [batchHook_io] at hs
        rcases mem_batched hs with rfl | ⟨hnone, -⟩
        · rw [queue_op] at hop
          rw [Option.some.inj hop]
        · rw [hnone] at hop
          cases hop
  setup g call hs := by
    cases call with
    | start => rfl
    | io o =>
        rw [batchHook_io] at hs
        rcases mem_batched hs with h | ⟨-, hne⟩
        · cases o <;> cases h
        · exact absurd rfl hne
  setupOnly g s hs := by
    obtain rfl := List.mem_singleton.mp hs
    rfl

theorem batchProcess_handles : batchProcess.Handles := by
  intro g op
  refine Or.inl ⟨op.queue, ?_, op, queue_op op⟩
  have hmem : op.queue ∈ batched g op.queue op.full := by
    unfold batched
    split <;> simp
  rw [← batchHook_io] at hmem
  exact hmem

/-- The batch that began with call `base`: its entries are queued, or the handler
that completes it is running. -/
def BatchFrom (base : Nat) (w : World) : Prop :=
  ∃ c : Nat, w.settles 49 = some ((c : Int), ⟨c, 0⟩) ∧ c < 49 ∧
    (w.calls.length = base + c ∨
      (c = 0 ∧ w.calls.length = base + 49 ∧ w.frame ≠ none))

variable {base : Nat} {w t : World} {l : Label}

theorem batchFrom_attached (h : Attached w) : BatchFrom 0 w := by
  refine ⟨0, ?_, by omega, Or.inl (by simp [h.calls])⟩
  rw [settles_idle 49 h.frame, h.global, h.ring]
  rfl

theorem command_queue (op : Op) : op.queue.command = some .prepare := by
  cases op <;> rfl

/-- Up to 48 queued entries one more is queued; with 48 queued the handler
empties the ring. -/
theorem settles_batched {c : Nat} (hc : c < 49) (op : Op) (result : Int) :
    ((Tally.run 49 ⟨c, 0⟩ ((batched c op.queue result).filterMap Stmt.command)).map
      (fun n => (finalGlobal c (batched c op.queue result), n))) =
        if c < 48 then some (((c + 1 : Nat) : Int), ⟨c + 1, 0⟩) else some (0, ⟨0, 0⟩) := by
  by_cases hfew : c < 48
  · have hpatch : (c : Int) < patchSize := by
      rw [patchSize]
      omega
    rw [if_pos hfew, batched, if_pos hpatch, List.filterMap_cons_some (command_queue op)]
    have happly : Tally.apply 49 ⟨c, 0⟩ .prepare = some ⟨c + 1, 0⟩ := by
      simp [Tally.apply, hc]
    simp only [Tally.run, happly, Option.bind_some]
    cases op <;> rfl
  · have hc' : c = 48 := by omega
    subst hc'
    cases op <;> rfl

theorem BatchFrom.empty (h : BatchFrom base w) :
    ∀ r, w.settles 49 = some r → w.calls = [] → r.2 = ⟨0, 0⟩ := by
  obtain ⟨c, hsettles, -, hcount⟩ := h
  intro r hr hempty
  obtain rfl := Option.some.inj (hsettles.symm.trans hr)
  rw [hempty] at hcount
  have hzero : c = 0 := by
    rcases hcount with hcount | ⟨hzero, -⟩
    · simp only [List.length_nil] at hcount
      omega
    · exact hzero
  rw [hzero]

/-- Between calls nothing is outstanding, and the counter counts the queue. -/
theorem BatchFrom.quiet (h : BatchFrom base w) (hidle : w.frame = none) :
    w.ring.outstanding = 0 := by
  obtain ⟨c, hsettles, -, -⟩ := h
  rw [settles_idle 49 hidle] at hsettles
  exact congrArg (fun r => r.2.outstanding) (Option.some.inj hsettles)

theorem BatchFrom.queued (h : BatchFrom base w) (hidle : w.frame = none)
    (hzero : w.global = 0) : w.ring.queued = [] := by
  obtain ⟨c, hsettles, -, -⟩ := h
  rw [settles_idle 49 hidle] at hsettles
  obtain ⟨hglobal, htally⟩ := Prod.mk.inj (Option.some.inj hsettles)
  have hlen : w.ring.queued.length = c := congrArg Tally.queued htally
  apply List.eq_nil_of_length_eq_zero
  omega

/-- A new call joins the batch, or is the one that completes it. -/
theorem batchFrom_io {op : Op} (h : BatchFrom base w) (hidle : w.frame = none) :
    BatchFrom base (w.call batchProcess (.io op)) := by
  obtain ⟨c, hsettles, hc, hcount⟩ := h
  rw [settles_idle 49 hidle] at hsettles
  obtain ⟨hglobal, htally⟩ := Prod.mk.inj (Option.some.inj hsettles)
  have hlen : (w.call batchProcess (.io op)).calls.length = w.calls.length + 1 := by
    simp [World.call, Call.issued]
  have hbase : w.calls.length = base + c := by
    rcases hcount with hcount | ⟨-, -, hbusy⟩
    · exact hcount
    · exact absurd hidle hbusy
  have hnext : (w.call batchProcess (.io op)).settles 49 =
      if c < 48 then some (((c + 1 : Nat) : Int), ⟨c + 1, 0⟩) else some (0, ⟨0, 0⟩) := by
    rw [← settles_batched hc op op.full, ← hglobal, ← batchHook_io, ← htally]
    rfl
  by_cases hfew : c < 48
  · rw [if_pos hfew] at hnext
    exact ⟨c + 1, hnext, by omega, Or.inl (by omega)⟩
  · rw [if_neg hfew] at hnext
    refine ⟨0, hnext, by omega, Or.inr ⟨rfl, by omega, ?_⟩⟩
    intro hnone
    cases hnone

theorem batchFrom_start (h : BatchFrom base w) (hidle : w.frame = none) :
    BatchFrom base (w.call batchProcess .start) := by
  obtain ⟨c, hsettles, hc, hcount⟩ := h
  have hcalls : (w.call batchProcess .start).calls = w.calls := by
    simp [World.call, Call.issued]
  refine ⟨c, ?_, hc, ?_⟩
  · rw [settles_idle 49 hidle] at hsettles
    exact hsettles
  · rw [hcalls]
    rcases hcount with hcount | ⟨-, -, hbusy⟩
    · exact Or.inl hcount
    · exact absurd hidle hbusy

/-- Between two calls the batch stays, until the handler that completed it
returns with the ring empty. -/
theorem batchFrom_between (hi : Accounted w) (h : BatchFrom base w)
    (hcall : ∀ call, l ≠ .call call) (hstep : step batchProcess w l = some t) :
    BatchFrom base t ∨ (t.frame = none ∧ t.ring.queued = [] ∧ t.ring.outstanding = 0 ∧
      t.calls.length = base + 49 ∧ BatchFrom (base + 49) t) := by
  have hempty := h.empty
  obtain ⟨c, hsettles, hc, hcount⟩ := h
  have hnext := settles_step hi (hempty _ hsettles) hsettles hcall hstep
  have hcalls := calls_of_not_call hcall hstep
  rcases hcount with hcount | ⟨rfl, hcount, hbusy⟩
  · exact Or.inl ⟨c, hnext, hc, Or.inl (hcalls ▸ hcount)⟩
  · cases hframe : t.frame with
    | some f =>
        refine Or.inl ⟨0, hnext, hc, Or.inr ⟨rfl, hcalls ▸ hcount, ?_⟩⟩
        rw [hframe]
        intro hnone
        cases hnone
    | none =>
        have hidle := hnext
        rw [settles_idle 49 hframe] at hidle
        have htally : t.ring.tally = ⟨0, 0⟩ := congrArg Prod.snd (Option.some.inj hidle)
        simp only [Ring.tally, Tally.mk.injEq] at htally
        refine Or.inr ⟨rfl, List.eq_nil_of_length_eq_zero htally.1, htally.2,
          hcalls ▸ hcount, 0, hnext, hc, Or.inl ?_⟩
        rw [hcalls, hcount]

/-- Writes and fdatasync calls on the file `fd` take turns. -/
def Alternates (fd : Fd) (w : World) : Label → Prop
  | .call .start => w.calls = []
  | .call (.io op) => op.fd = fd ∧ ∀ c ∈ w.calls.getLast?, c.op.isFsync ≠ op.isFsync
  | _ => True

instance (fd : Fd) (w : World) : ∀ l, Decidable (Alternates fd w l)
  | .call .start => inferInstanceAs (Decidable (w.calls = []))
  | .call (.io op) => inferInstanceAs (Decidable
      (op.fd = fd ∧ ∀ c ∈ w.calls.getLast?, c.op.isFsync ≠ op.isFsync))
  | .tick | .execute _ _ | .begin _ | .finish _ _ | .store _ _ => isTrue trivial

/-- Every write whose call has returned is durable, unless it is one of the last
97 calls that have. -/
def BoundedLoss (fd : Fd) (w : World) : Prop :=
  ∀ j, w.IsWrite fd j → j + 97 < w.returns.length → j ∈ w.disk.durable

/-- `d` bounds the durable writes. It lags at most one batch behind the current
one, whose fsyncs protect all that came before it. -/
structure LossInv (fd : Fd) (base d : Nat) (w : World) : Prop where
  accounted : Accounted w
  placed : Placed w
  oneFd : OneFd fd w
  alternate : ∀ j c c', w.calls[j]? = some c → w.calls[j + 1]? = some c' →
    c.op.isFsync ≠ c'.op.isFsync
  lag : base ≤ d + 49
  durable : ∀ j < d, w.IsWrite fd j → j ∈ w.disk.durable
  protects : ∀ i, base ≤ i → Protects fd base i w

variable {fd : Fd} {d : Nat}

theorem lossInv_attached (h : Attached w) : LossInv fd 0 0 w where
  accounted := accounted_attached h
  placed := placed_attached h
  oneFd := by
    intro c hc
    rw [h.calls] at hc
    cases hc
  alternate := by
    intro j c c' hc
    simp [h.calls] at hc
  lag := by omega
  durable := by
    intro j hj
    omega
  protects := by
    intro i _
    refine ⟨by intro j hj; omega, ?_, ?_⟩
    · intro s hs
      rw [h.ring] at hs
      cases hs
    · intro hsynced
      rw [h.synced] at hsynced
      cases hsynced

theorem Alternates.startsFirst (h : Alternates fd w l) : StartsFirst w l := by
  cases l with
  | call call =>
      cases call with
      | start => exact h
      | io op => trivial
  | _ => trivial

theorem isWrite_congr (hcalls : t.calls = w.calls) {j : Nat} :
    t.IsWrite fd j ↔ w.IsWrite fd j := by
  rw [World.IsWrite, World.IsWrite, hcalls]

theorem BatchFrom.le_calls (h : BatchFrom base w) : base ≤ w.calls.length := by
  obtain ⟨c, -, -, hcount | ⟨-, hcount, -⟩⟩ := h <;> omega

/-- A batch of 49 alternating calls contains an fsync. -/
theorem exists_fsync (hi : LossInv fd base d w) (hlen : w.calls.length = base + 49) :
    ∃ i fd' bytes, base ≤ i ∧ w.calls[i]? = some ⟨.fsync fd', bytes⟩ := by
  have hfirst := List.getElem?_eq_getElem (by omega : base < w.calls.length)
  have hsecond := List.getElem?_eq_getElem (by omega : base + 1 < w.calls.length)
  have hdiffer := hi.alternate base _ _ hfirst hsecond
  rcases hop : w.calls[base].op with ⟨fd', buf, n⟩ | fd'
  · rcases hop' : w.calls[base + 1].op with ⟨fd'', buf', n'⟩ | fd''
    · rw [hop, hop'] at hdiffer
      exact absurd rfl hdiffer
    · refine ⟨base + 1, fd'', w.calls[base + 1].bytes, by omega, ?_⟩
      rw [hsecond, ← hop']
  · refine ⟨base, fd', w.calls[base].bytes, le_refl _, ?_⟩
    rw [hfirst, ← hop]

/-- When a batch is done, one of its fsyncs has made all earlier writes durable
and its own writes are in the file. -/
theorem lossInv_advance (hi : LossInv fd base d w) (hidle : w.frame = none)
    (hqueued : w.ring.queued = []) (hquiet : w.ring.outstanding = 0)
    (hlen : w.calls.length = base + 49) : LossInv fd (base + 49) base w := by
  have hdone : ∀ j c, w.calls[j]? = some c → w.Finished j c.op := by
    intro j c hc
    apply hi.placed.finished hqueued hquiet hc
    intro _ f hf
    rw [hidle] at hf
    cases hf
  obtain ⟨i, fd', bytes, hbase, hc⟩ := exists_fsync hi hlen
  have hsynced : i ∈ w.disk.synced := hdone i _ hc
  refine ⟨hi.accounted, hi.placed, hi.oneFd, hi.alternate, by omega, ?_, ?_⟩
  · intro j hj hwrite
    exact (hi.protects i hbase).durable hsynced j hj hwrite
  · intro k hk
    refine protects_of_written ?_ (Ring.not_inFlight_of_quiet hqueued hquiet) ?_
    · rintro j - ⟨buf, n, bytes', hc'⟩
      exact hdone j _ hc'
    · intro hsynced'
      have hlt := hi.accounted.synced k hsynced'
      omega

theorem lossInv_between (hi : LossInv fd base d w) (hbatch : BatchFrom base w)
    (hok : Alternates fd w l) (hsucceeds : Succeeds w l)
    (hcall : ∀ call, l ≠ .call call) (hstep : step batchProcess w l = some t) :
    LossInv fd base d t := by
  have hcalls := calls_of_not_call hcall hstep
  constructor
  · exact accounted_step hi.accounted hok.startsFirst hstep
  · exact placed_step batchProcess_handles hi.accounted hi.placed hsucceeds hstep
  · rw [OneFd, hcalls]
    exact hi.oneFd
  · rw [hcalls]
    exact hi.alternate
  · exact hi.lag
  · intro j hj hwrite
    exact (grows_step hstep).durable (hi.durable j hj ((isWrite_congr hcalls).mp hwrite))
  · intro i hbase
    exact protects_step hi.accounted hi.oneFd (hi.protects i hbase) hbatch.le_calls hstep

theorem lossInv_call {call : Call} (hi : LossInv fd base d w) (hbatch : BatchFrom base w)
    (hlag : d ≤ w.calls.length) (hok : Alternates fd w (.call call))
    (hidle : w.frame = none) : LossInv fd base d (w.call batchProcess call) := by
  have hpre : w.calls <+: (w.call batchProcess call).calls := List.prefix_append _ _
  have hstep : step batchProcess w (.call call) = some (w.call batchProcess call) := by
    simp [step, hidle]
  constructor
  · exact accounted_call hi.accounted hok.startsFirst hidle
  · exact placed_call hi.placed batchProcess_handles hidle
  · cases call with
    | start =>
        intro c hc
        exact hi.oneFd c ((List.mem_append.mp hc).resolve_right List.not_mem_nil)
    | io op => exact oneFd_call hi.oneFd hok.1
  · intro j c c' hc hc'
    cases call with
    | start =>
        simp only [World.call, Call.issued, List.append_nil] at hc hc'
        exact hi.alternate j c c' hc hc'
    | io op =>
        rcases getElem?_concat_cases hc' with hold' | ⟨hj, rfl⟩
        · have hlt := length_of_getElem? hold'
          have hold : w.calls[j]? = some c := by
            rw [← hc]
            exact (List.getElem?_append_left (by omega)).symm
          exact hi.alternate j c c' hold hold'
        · have hold : w.calls[j]? = some c := by
            rw [← hc]
            exact (List.getElem?_append_left (by omega)).symm
          apply hok.2 c
          rw [List.getLast?_eq_getElem?, ← hj, Nat.add_sub_cancel]
          exact hold
  · exact hi.lag
  · intro j hj hwrite
    exact hi.durable j hj (isWrite_of_extends hpre (by omega) hwrite)
  · intro i hbase
    exact protects_step hi.accounted hi.oneFd (hi.protects i hbase) hbatch.le_calls hstep

/-- The invariant of a run: some batch is current, and the writes of all but the
last batch before it are durable. -/
def LossBounded (fd : Fd) (w : World) : Prop :=
  ∃ base d, LossInv fd base d w ∧ BatchFrom base w ∧ d ≤ base

theorem lossBounded_step (h : LossBounded fd w) (hok : Alternates fd w l ∧ Succeeds w l)
    (hstep : step batchProcess w l = some t) : LossBounded fd t := by
  obtain ⟨base, d, hi, hbatch, hd⟩ := h
  rcases call_or_between hstep with ⟨call, rfl, hidle, rfl⟩ | hbetween
  · have hnext := lossInv_call hi hbatch (hd.trans hbatch.le_calls) hok.1 hidle
    cases call with
    | start => exact ⟨base, d, hnext, batchFrom_start hbatch hidle, hd⟩
    | io op => exact ⟨base, d, hnext, batchFrom_io hbatch hidle, hd⟩
  · have hnext := lossInv_between hi hbatch hok.1 hok.2 hbetween hstep
    rcases batchFrom_between hi.accounted hbatch hbetween hstep with
      hsame | ⟨hidle, hqueued, hquiet, hlen, hfresh⟩
    · exact ⟨base, d, hnext, hsame, hd⟩
    · exact ⟨base + 49, base, lossInv_advance hnext hidle hqueued hquiet hlen, hfresh,
        by omega⟩

/-- A crash of a server with alternating calls loses none but the last 97. -/
theorem boundedLoss_of_alternates
    (h : RunsUnder (system batchProcess) (fun w l => Alternates fd w l ∧ Succeeds w l) w) :
    BoundedLoss fd w := by
  have hinv : LossBounded fd w := h.invariant
    (fun _ hstart => ⟨0, 0, lossInv_attached hstart, batchFrom_attached hstart, le_refl _⟩)
    (fun _ _ _ hinv hok hstep => lossBounded_step hinv hok hstep)
  obtain ⟨base, d, hi, ⟨c, -, hc, hcount⟩, -⟩ := hinv
  have hreturns := hi.accounted.returns
  have hlag := hi.lag
  intro j hwrite hold
  refine hi.durable j ?_ hwrite
  rcases hcount with hcount | ⟨-, hcount, hbusy⟩
  · omega
  · -- The call that completes the batch has not returned.
    have hin : w.inCall = 1 := by
      cases hframe : w.frame with
      | none => exact absurd hframe hbusy
      | some f =>
          rcases f with ⟨call, code, result⟩
          cases call with
          | start =>
              have hempty := hi.accounted.start _ hframe rfl
              simp [hempty] at hcount
          | io op => rw [World.inCall, hframe]
    omega

/-- Even calls write, each from a buffer of its own, and odd calls sync. -/
def turn (j : Nat) : Call :=
  if j % 2 = 0 then .io (.write 3 (64 + 8 * j) 8) else .io (.fsync 3)

def kernelTurn (j : Nat) : List Label :=
  if j % 2 = 0 then [.execute 0 8] else [.begin 0, .finish 0 0]

def setup : List Label := [.call .start, .tick, .tick]

/-- 48 calls that are queued and one whose handler flushes. -/
def batchCalls (first : Nat) : List Label :=
  (List.range 48).flatMap (fun k => .call (turn (first + k)) :: List.replicate 4 .tick) ++
    .call (turn (first + 48)) :: List.replicate 3 .tick

/-- The kernel executes the batch in order. -/
def batchOf (first : Nat) : List Label :=
  batchCalls first ++ (List.range 49).flatMap (fun k => kernelTurn (first + k)) ++
    List.replicate 52 .tick

theorem boundedLoss_of_alternates_twoBatches :
    ∃ w, w.returns.length = 98 ∧ 0 ∈ w.disk.durable ∧ BoundedLoss 3 w := by
  have halong : Along (system batchProcess) (fun w l => Alternates 3 w l ∧ Succeeds w l)
      freshWorld (setup ++ batchOf 0 ++ batchOf 49) := by decide +kernel
  have hrun : (Transition.exec (system batchProcess) freshWorld
      (setup ++ batchOf 0 ++ batchOf 49)).map
      (fun w => (w.returns.length, decide (0 ∈ w.disk.durable))) = some (98, true) := by
    decide +kernel
  obtain ⟨w, hw, hend⟩ := Option.map_eq_some_iff.mp hrun
  simp only [Prod.mk.injEq, decide_eq_true_eq] at hend
  obtain ⟨hreturns, hdurable⟩ := hend
  refine ⟨w, hreturns, hdurable, boundedLoss_of_alternates ?_⟩
  exact .exec _ (.start attached_freshWorld) halong hw

end BpftimeBenchmark.Redis
