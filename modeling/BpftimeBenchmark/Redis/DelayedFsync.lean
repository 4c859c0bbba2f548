import BpftimeBenchmark.Redis.Accounting

/-!
`delayed-fsync`: each `fdatasync` waits for the fsync of the one before it and
submits its own. The counter is -1 until the first fsync is submitted and 0 from
then on. The fsync of an update has completed when the next but one `fdatasync`
is made, so a crash costs at most two updates.
-/

namespace BpftimeBenchmark.Redis

open Uring Transition

def startConfig : List Stmt := [.ioUringInitGlobal, .assign (-1)]

def startFsync (successfulWritebackCount : Int) (fd : Fd) : List Stmt :=
  (if successfulWritebackCount = 0 then [.ioUringWaitAndSeen] else []) ++
    [.assign 0, .ioUringSubmitFsync fd, .ioUringSubmit, .bpfOverrideReturn 0]

theorem mem_startFsync {g : Int} {fd : Fd} {s : Stmt} (h : s ∈ startFsync g fd) :
    s = .ioUringWaitAndSeen ∨ s = .assign 0 ∨ s = .ioUringSubmitFsync fd ∨
      s = .ioUringSubmit ∨ s = .bpfOverrideReturn 0 := by
  unfold startFsync at h
  split at h <;> simp at h <;> tauto

/-- Writes are not intercepted. -/
def delayedHook (successfulWritebackCount : Int) : Call → List Stmt
  | .start => startConfig
  | .io (.write _ _ _) => []
  | .io (.fsync fd) => startFsync successfulWritebackCount fd

theorem delayedHook_op {g : Int} {call : Call} {s : Stmt} {op : Op}
    (hs : s ∈ delayedHook g call) (hop : s.op = some op) :
    call = .io op ∧ op.isFsync := by
  cases call with
  | start =>
      simp only [delayedHook, startConfig, List.mem_cons, List.not_mem_nil,
        or_false] at hs
      rcases hs with rfl | rfl <;> cases hop
  | io o =>
      cases o with
      | write fd buf n => cases hs
      | fsync fd =>
          rcases mem_startFsync hs with rfl | rfl | rfl | rfl | rfl <;> cases hop
          exact ⟨rfl, rfl⟩

def delayedFsync : Program where
  hook := delayedHook
  own _ _ _ _ hs hop := (delayedHook_op hs hop).1
  setup g call hs := by
    cases call with
    | start => rfl
    | io o =>
        cases o with
        | write fd buf n => cases hs
        | fsync fd => rcases mem_startFsync hs with h | h | h | h | h <;> cases h
  setupOnly g s hs := by
    simp only [delayedHook, startConfig, List.mem_cons, List.not_mem_nil, or_false] at hs
    rcases hs with rfl | rfl <;> rfl

/-- One start, then updates of the file `fd`: a write and an fdatasync each. -/
def Updates (fd : Fd) (w : World) : Label → Prop
  | .call .start => w.inits = 0 ∧ w.calls = []
  | .call (.io (.write fd' _ _)) => w.inits = 1 ∧ fd' = fd ∧ w.calls.length % 2 = 0
  | .call (.io (.fsync fd')) => w.inits = 1 ∧ fd' = fd ∧ w.calls.length % 2 = 1
  | _ => True

instance (fd : Fd) (w : World) : ∀ l, Decidable (Updates fd w l)
  | .call .start => inferInstanceAs (Decidable (w.inits = 0 ∧ w.calls = []))
  | .call (.io (.write fd' _ _)) =>
      inferInstanceAs (Decidable (w.inits = 1 ∧ fd' = fd ∧ w.calls.length % 2 = 0))
  | .call (.io (.fsync fd')) =>
      inferInstanceAs (Decidable (w.inits = 1 ∧ fd' = fd ∧ w.calls.length % 2 = 1))
  | .tick | .execute _ _ | .begin _ | .finish _ _ | .store _ _ => isTrue trivial

def World.IsFsync (w : World) (j : Nat) : Prop :=
  ∃ fd bytes, w.calls[j]? = some ⟨.fsync fd, bytes⟩

/-- A write that two later writes have followed is durable. When an fdatasync
has returned, those before it have completed and at most one is outstanding. -/
structure LosesAtMostTwo (fd : Fd) (w : World) : Prop where
  durable : ∀ j j₁ j₂, j < j₁ → j₁ < j₂ → w.IsWrite fd j → w.IsWrite fd j₁ →
    w.IsWrite fd j₂ → j ∈ w.disk.durable
  completed : ∀ i j, i < j → w.IsFsync i → w.IsFsync j → j < w.returns.length →
    i ∈ w.disk.synced
  outstanding : w.frame = none → w.ring.queued = [] ∧ w.ring.outstanding ≤ 1

/-- Where the running handler will end: before the first fdatasync the counter
is -1 and the ring empty, from then on it is 0 with one fsync outstanding. -/
def Ends (w : World) (r : Int × Tally) : Prop :=
  (w.calls.length ≤ 1 ∧ r.2 = ⟨0, 0⟩ ∧ (r.1 = -1 ∨ (w.frame = none ∧ w.inits = 0))) ∨
    (2 ≤ w.calls.length ∧ r = (0, ⟨0, 1⟩))

structure DelayedInv (fd : Fd) (w : World) : Prop where
  accounted : Accounted w
  placed : Placed w
  oneFd : OneFd fd w
  alternate : ∀ j c, w.calls[j]? = some c →
    (j % 2 = 0 ∧ ∃ buf n, c.op = .write fd buf n) ∨ (j % 2 = 1 ∧ c.op = .fsync fd)
  onlyFsyncs : QueuesOnly (fun op => op.isFsync) w
  protects : ∀ i, w.IsFsync i → Protects fd i i w
  earlier : ∀ i j, j < i → w.IsFsync i → w.IsFsync j →
    j ∈ w.disk.synced ∨ (i + 1 = w.calls.length ∧ ∃ f ∈ w.frame, f.Unqueued)
  settled : ∃ r, w.settles 1 = some r ∧ Ends w r

variable {fd : Fd} {w t : World} {l : Label}

theorem delayedInv_attached (h : Attached w) : DelayedInv fd w where
  accounted := accounted_attached h
  placed := placed_attached h
  oneFd := by
    intro c hc
    rw [h.calls] at hc
    cases hc
  alternate := by
    intro j c hc
    simp [h.calls] at hc
  onlyFsyncs := queuesOnly_attached h
  protects := by
    rintro i ⟨fd', bytes, hc⟩
    simp [h.calls] at hc
  earlier := by
    rintro i j - ⟨fd', bytes, hc⟩
    simp [h.calls] at hc
  settled := by
    refine ⟨_, settles_idle 1 h.frame, Or.inl ⟨?_, ?_, Or.inr ⟨h.frame, h.inits⟩⟩⟩
    · simp [h.calls]
    · rw [h.ring]
      rfl

theorem Updates.startsFirst (h : Updates fd w l) : StartsFirst w l := by
  cases l with
  | call call =>
      cases call with
      | start => exact h.2
      | io op => trivial
  | _ => trivial

theorem delayedFsync_handles : delayedFsync.Handles := by
  intro g op
  cases op with
  | write fd buf n => exact Or.inr ⟨rfl, fun v hv => by cases hv⟩
  | fsync fd =>
      refine Or.inl ⟨.ioUringSubmitFsync fd, ?_, _, rfl⟩
      exact List.mem_append_right _ (by simp)

theorem isFsync_congr (hcalls : t.calls = w.calls) {j : Nat} :
    t.IsFsync j ↔ w.IsFsync j := by
  rw [World.IsFsync, World.IsFsync, hcalls]

theorem World.IsFsync.lt {j : Nat} (h : w.IsFsync j) : j < w.calls.length := by
  obtain ⟨fd', bytes, hc⟩ := h
  exact length_of_getElem? hc

/-- The fsync of a call is queued when the ring is empty, so the earlier ones
have completed by then. -/
theorem earlier_step (hi : DelayedInv fd w) (hcall : ∀ call, l ≠ .call call)
    (hstep : step delayedFsync w l = some t) {i j : Nat} (hj : j < i)
    (hi' : w.IsFsync i) (hj' : w.IsFsync j) :
    j ∈ t.disk.synced ∨ (i + 1 = t.calls.length ∧ ∃ f ∈ t.frame, f.Unqueued) := by
  have hgrows := grows_step hstep
  rw [calls_of_not_call hcall hstep]
  rcases hi.earlier i j hj hi' hj' with hdone | ⟨hlast, f, hf, hunqueued⟩
  · exact Or.inl (hgrows.synced hdone)
  cases stepResult_of_step hstep with
  | @call call hidle => exact absurd rfl (hcall call)
  | @stmt g s rest _ hframe hcode hexec =>
      obtain rfl := Option.some.inj (hframe.symm.trans hf)
      obtain ⟨v, hv⟩ := exec_frame hexec
      rcases unqueued_rest hcode hunqueued v with ⟨op, hop⟩ | hrest
      · obtain ⟨r, hsettles, -⟩ := hi.settled
        obtain ⟨hquiet, hfew⟩ := settles_queue hframe hcode hop hsettles
        have hqueued : w.ring.queued = [] := List.eq_nil_of_length_eq_zero (by omega)
        obtain ⟨fd', bytes, hc⟩ := hj'
        have hfinished := hi.placed.finished hqueued hquiet hc (by omega)
        exact Or.inl (hgrows.synced hfinished)
      · exact Or.inr ⟨hlast, _, hv, hrest⟩
  | @ret g hframe hcode =>
      obtain rfl := Option.some.inj (hframe.symm.trans hf)
      obtain ⟨x, hx, -⟩ := hunqueued
      rw [hcode] at hx
      cases hx
  | execute _ _ _ | begin _ _ | finish _ _ | store _ =>
      exact Or.inr ⟨hlast, f, hf, hunqueued⟩

theorem Ends.step {r : Int × Tally} (h : Ends w r) (hcall : ∀ call, l ≠ .call call)
    (hstep : step delayedFsync w l = some t) : Ends t r := by
  rw [Ends, calls_of_not_call hcall hstep]
  rcases h with ⟨hfew, htally, hglobal⟩ | hlater
  · refine Or.inl ⟨hfew, htally, ?_⟩
    rcases hglobal with hglobal | ⟨hidle, hinits⟩
    · exact Or.inl hglobal
    · cases stepResult_of_step hstep with
      | @call call _ => exact absurd rfl (hcall call)
      | stmt hframe _ _ | ret hframe _ =>
          rw [hidle] at hframe
          cases hframe
      | execute _ _ _ | begin _ _ | finish _ _ | store _ => exact Or.inr ⟨hidle, hinits⟩
  · exact Or.inr hlater

theorem Ends.empty {r : Int × Tally} (h : Ends w r) (hcalls : w.calls = []) :
    r.2 = ⟨0, 0⟩ := by
  rcases h with ⟨-, htally, -⟩ | ⟨htwo, -⟩
  · exact htally
  · simp [hcalls] at htwo

/-- The steps between two calls. -/
theorem delayedInv_step_between (hi : DelayedInv fd w) (hok : Updates fd w l)
    (hsucceeds : Succeeds w l) (hcall : ∀ call, l ≠ .call call)
    (hstep : step delayedFsync w l = some t) : DelayedInv fd t := by
  have hcalls := calls_of_not_call hcall hstep
  constructor
  · exact accounted_step hi.accounted hok.startsFirst hstep
  · exact placed_step delayedFsync_handles hi.accounted hi.placed hsucceeds hstep
  · rw [OneFd, hcalls]
    exact hi.oneFd
  · rw [hcalls]
    exact hi.alternate
  · exact queuesOnly_step (fun _ _ _ _ hs hop => (delayedHook_op hs hop).2)
      hi.onlyFsyncs hstep
  · intro i hfsync
    have hfsync := (isFsync_congr hcalls).mp hfsync
    exact protects_step hi.accounted hi.oneFd (hi.protects i hfsync) hfsync.lt.le hstep
  · intro i j hj hi' hj'
    exact earlier_step hi hcall hstep hj ((isFsync_congr hcalls).mp hi')
      ((isFsync_congr hcalls).mp hj')
  · obtain ⟨r, hsettles, hends⟩ := hi.settled
    exact ⟨r, settles_step hi.accounted hends.empty hsettles hcall hstep,
      hends.step hcall hstep⟩

/-- Between calls the ring and the counter are where the last handler ended. -/
theorem DelayedInv.idle (hi : DelayedInv fd w) (hidle : w.frame = none) :
    Ends w (w.global, w.ring.tally) := by
  obtain ⟨r, hsettles, hends⟩ := hi.settled
  rw [settles_idle 1 hidle] at hsettles
  obtain rfl := Option.some.inj hsettles
  exact hends

/-- Between calls every write so far has reached the file. -/
theorem DelayedInv.written (hi : DelayedInv fd w) (hidle : w.frame = none) {j : Nat}
    (hwrite : w.IsWrite fd j) : (j, fd) ∈ w.disk.written := by
  obtain ⟨buf, n, bytes, hc⟩ := hwrite
  rcases hi.placed j _ hc with hdone | hflight | ⟨-, f, hf, -⟩
  · exact hdone
  · have hnot : ∀ e, e ∈ w.ring.queued ∨ e ∈ w.ring.submitted → e.id ≠ j := by
      rintro e he rfl
      obtain ⟨bytes', hc'⟩ := hi.accounted.entry e he
      have hfsync := hi.onlyFsyncs.entries e he
      have hop : e.val = .write fd buf n :=
        congrArg Issued.op (Option.some.inj (hc'.symm.trans hc))
      rw [hop] at hfsync
      cases hfsync
    rcases hflight with ⟨e, he, hid⟩ | ⟨e, he, hid⟩ | ⟨s, hs, rfl⟩
    · exact absurd hid (hnot e (Or.inl he))
    · exact absurd hid (hnot e (Or.inr he))
    · obtain ⟨bytes', hc'⟩ := hi.accounted.sync s hs
      rw [hc] at hc'
      cases hc'
  · rw [hidle] at hf
    cases hf

/-- From either state between calls a `start_fsync` ends with its own fsync
outstanding. -/
theorem settles_startFsync (hends : Ends w (w.global, w.ring.tally))
    (hinits : w.inits = 1) :
    (w.ring.tally.run 1 ((startFsync w.global fd).filterMap Stmt.command)).map
      (fun n => (finalGlobal w.global (startFsync w.global fd), n)) =
        some (0, ⟨0, 1⟩) := by
  rcases hends with ⟨-, htally, hglobal | ⟨-, hnone⟩⟩ | ⟨-, hrest⟩
  · have htally : w.ring.tally = ⟨0, 0⟩ := htally
    have hglobal : w.global = -1 := hglobal
    rw [htally, hglobal]
    rfl
  · omega
  · have htally : w.ring.tally = ⟨0, 1⟩ := congrArg Prod.snd hrest
    have hglobal : w.global = 0 := congrArg Prod.fst hrest
    rw [htally, hglobal]
    rfl

theorem delayedInv_start (hi : DelayedInv fd w) (hidle : w.frame = none)
    (hempty : w.calls = []) : DelayedInv fd (w.call delayedFsync .start) := by
  have hcalls : (w.call delayedFsync .start).calls = [] := by
    simp [World.call, Call.issued, hempty]
  have hstep : step delayedFsync w (.call .start) =
      some (w.call delayedFsync .start) := by simp [step, hidle]
  constructor
  · exact accounted_call hi.accounted hempty hidle
  · exact placed_call hi.placed delayedFsync_handles hidle
  · rw [OneFd, hcalls]
    simp
  · rw [hcalls]
    simp
  · exact queuesOnly_step (fun _ _ _ _ hs hop => (delayedHook_op hs hop).2)
      hi.onlyFsyncs hstep
  · rintro i ⟨fd', bytes, hc⟩
    simp [hcalls] at hc
  · rintro i j - ⟨fd', bytes, hc⟩
    simp [hcalls] at hc
  · have htally : w.ring.tally = ⟨0, 0⟩ := (hi.idle hidle).empty hempty
    refine ⟨(-1, ⟨0, 0⟩), ?_, Or.inl ⟨by simp [hcalls], rfl, Or.inl rfl⟩⟩
    have hring : (w.call delayedFsync .start).ring.tally = ⟨0, 0⟩ := htally
    rw [World.settles, hring]
    rfl

theorem isFsync_call {op : Op} {i : Nat} (h : (w.call delayedFsync (.io op)).IsFsync i) :
    w.IsFsync i ∨ (i = w.calls.length ∧ ∃ fd', op = .fsync fd') := by
  obtain ⟨fd', bytes, hc⟩ := h
  rcases getElem?_concat_cases hc with hold | ⟨hi, hnew⟩
  · exact Or.inl ⟨fd', bytes, hold⟩
  · exact Or.inr ⟨hi, fd', (congrArg Issued.op hnew).symm⟩

theorem length_call (op : Op) :
    (w.call delayedFsync (.io op)).calls.length = w.calls.length + 1 := by
  simp [World.call, Call.issued]

/-- Between calls all earlier fsyncs have completed, and that of a new call has
yet to be queued. -/
theorem earlier_call {op : Op} (hi : DelayedInv fd w) (hidle : w.frame = none) {i j : Nat}
    (hj : j < i) (hi' : (w.call delayedFsync (.io op)).IsFsync i)
    (hj' : (w.call delayedFsync (.io op)).IsFsync j) :
    j ∈ w.disk.synced ∨ (i + 1 = (w.call delayedFsync (.io op)).calls.length ∧
      ∃ f ∈ (w.call delayedFsync (.io op)).frame, f.Unqueued) := by
  have hlt := hi'.lt
  rw [length_call] at hlt ⊢
  rcases isFsync_call hj' with hold' | ⟨rfl, -⟩
  · rcases isFsync_call hi' with hold | ⟨rfl, fd', rfl⟩
    · rcases hi.earlier i j hj hold hold' with hdone | ⟨-, f, hf, -⟩
      · exact Or.inl hdone
      · rw [hidle] at hf
        cases hf
    · refine Or.inr ⟨rfl, _, rfl, .ioUringSubmitFsync fd', ?_, _, rfl⟩
      exact List.mem_append_right _ (by simp)
  · omega

theorem settled_call {op : Op} (hi : DelayedInv fd w)
    (hok : Updates fd w (.call (.io op))) (hidle : w.frame = none) :
    ∃ r, (w.call delayedFsync (.io op)).settles 1 = some r ∧
      Ends (w.call delayedFsync (.io op)) r := by
  have hends := hi.idle hidle
  cases op with
  | write fd' buf n =>
      refine ⟨(w.global, w.ring.tally), rfl, ?_⟩
      obtain ⟨hinits, -, hparity⟩ := hok
      rw [Ends, length_call]
      rcases hends with ⟨hfew, htally, hglobal | ⟨-, hnone⟩⟩ | ⟨htwo, hrest⟩
      · exact Or.inl ⟨by omega, htally, Or.inl hglobal⟩
      · omega
      · exact Or.inr ⟨by omega, hrest⟩
  | fsync fd' =>
      obtain ⟨hinits, -, hparity⟩ := hok
      have hsettles := @settles_startFsync fd' w hends hinits
      refine ⟨(0, ⟨0, 1⟩), hsettles, Or.inr ⟨?_, rfl⟩⟩
      rw [length_call]
      omega

theorem delayedInv_io {op : Op} (hi : DelayedInv fd w)
    (hok : Updates fd w (.call (.io op))) (hidle : w.frame = none) :
    DelayedInv fd (w.call delayedFsync (.io op)) := by
  have hpre : w.calls <+: (w.call delayedFsync (.io op)).calls := List.prefix_append _ _
  have hstep : step delayedFsync w (.call (.io op)) =
      some (w.call delayedFsync (.io op)) := by simp [step, hidle]
  have hnew : ∀ i, w.calls.length ≤ i → ¬ w.ring.InFlight i ∧ i ∉ w.disk.synced := by
    intro i hlen
    refine ⟨?_, fun hsynced => ?_⟩
    · intro hflight
      have hlt := hi.accounted.lt_of_inFlight hflight
      omega
    · have hlt := hi.accounted.synced i hsynced
      omega
  constructor
  · exact accounted_call hi.accounted hok.startsFirst hidle
  · exact placed_call hi.placed delayedFsync_handles hidle
  · apply oneFd_call hi.oneFd
    cases op with
    | write fd' buf n => exact hok.2.1
    | fsync fd' => exact hok.2.1
  · intro j c hc
    rcases getElem?_concat_cases hc with hold | ⟨rfl, rfl⟩
    · exact hi.alternate j c hold
    · cases op with
      | write fd' buf n =>
          obtain ⟨-, rfl, hparity⟩ := hok
          exact Or.inl ⟨hparity, buf, n, rfl⟩
      | fsync fd' =>
          obtain ⟨-, rfl, hparity⟩ := hok
          exact Or.inr ⟨hparity, rfl⟩
  · exact queuesOnly_step (fun _ _ _ _ hs hop => (delayedHook_op hs hop).2)
      hi.onlyFsyncs hstep
  · intro i hfsync
    rcases isFsync_call hfsync with hold | ⟨rfl, -⟩
    · exact protects_step hi.accounted hi.oneFd (hi.protects i hold) hold.lt.le hstep
    · obtain ⟨hfresh, hunsynced⟩ := hnew w.calls.length (le_refl _)
      refine protects_of_written ?_ hfresh hunsynced
      intro j hj hwrite
      exact hi.written hidle (isWrite_of_extends hpre hj hwrite)
  · intro i j hj hi' hj'
    exact earlier_call hi hidle hj hi' hj'
  · exact settled_call hi hok hidle

theorem delayedInv_step (hi : DelayedInv fd w) (hok : Updates fd w l ∧ Succeeds w l)
    (hstep : step delayedFsync w l = some t) : DelayedInv fd t := by
  rcases call_or_between hstep with ⟨call, rfl, hidle, rfl⟩ | hbetween
  · cases call with
    | start => exact delayedInv_start hi hidle hok.1.2
    | io op => exact delayedInv_io hi hok.1 hidle
  · exact delayedInv_step_between hi hok.1 hok.2 hbetween hstep

theorem DelayedInv.isWrite_even (hi : DelayedInv fd w) {j : Nat}
    (h : w.IsWrite fd j) : j % 2 = 0 := by
  obtain ⟨buf, n, bytes, hc⟩ := h
  rcases hi.alternate j _ hc with ⟨heven, -⟩ | ⟨-, hop⟩
  · exact heven
  · cases hop

theorem DelayedInv.isFsync_odd (hi : DelayedInv fd w) {j : Nat} (hodd : j % 2 = 1)
    (hlt : j < w.calls.length) : w.IsFsync j := by
  have hc := List.getElem?_eq_getElem hlt
  rcases hi.alternate j _ hc with ⟨heven, -⟩ | ⟨-, hop⟩
  · omega
  · refine ⟨fd, w.calls[j].bytes, ?_⟩
    rw [hc, ← hop]

theorem DelayedInv.completed (hi : DelayedInv fd w) {i j : Nat} (hij : i < j)
    (hi' : w.IsFsync i) (hj' : w.IsFsync j) (hreturned : j < w.returns.length) :
    i ∈ w.disk.synced := by
  rcases hi.earlier j i hij hj' hi' with hdone | ⟨hlast, f, hf, -⟩
  · exact hdone
  · -- The last call has not returned while a frame is there.
    have hreturns := hi.accounted.returns
    cases hcall : f.call with
    | start =>
        have hempty := hi.accounted.start f hf hcall
        simp [hempty] at hlast
    | io op =>
        have hin : w.inCall = 1 := by
          rw [World.inCall, Option.mem_def.mp hf]
          rcases f with ⟨call, code, result⟩
          cases hcall
          rfl
        omega

/-- Delayed fsync loses at most the last two updates. -/
theorem losesAtMostTwo_of_updates
    (h : RunsUnder (system delayedFsync) (fun w l => Updates fd w l ∧ Succeeds w l) w) :
    LosesAtMostTwo fd w := by
  have hi : DelayedInv fd w := h.invariant (fun _ hstart => delayedInv_attached hstart)
    (fun _ _ _ hi hok hstep => delayedInv_step hi hok hstep)
  have hreturns := hi.accounted.returns
  have hcalls : w.calls.length ≤ w.returns.length + 1 := by
    have hin : w.inCall ≤ 1 := by
      unfold World.inCall
      split <;> omega
    omega
  constructor
  · intro j j₁ j₂ hj₁ hj₂ hwrite hwrite₁ hwrite₂
    have heven := hi.isWrite_even hwrite
    have heven₁ := hi.isWrite_even hwrite₁
    have heven₂ := hi.isWrite_even hwrite₂
    have hlt : j₂ < w.calls.length := by
      obtain ⟨buf, n, bytes, hc⟩ := hwrite₂
      exact length_of_getElem? hc
    have hfsync : w.IsFsync (j + 1) := hi.isFsync_odd (by omega) (by omega)
    have hnext : w.IsFsync (j + 3) := hi.isFsync_odd (by omega) (by omega)
    have hdone : j + 1 ∈ w.disk.synced :=
      hi.completed (by omega) hfsync hnext (by omega)
    exact (hi.protects (j + 1) hfsync).durable hdone j (by omega) hwrite
  · intro i j hij hi' hj' hreturned
    exact hi.completed hij hi' hj' hreturned
  · intro hidle
    rcases hi.idle hidle with ⟨-, htally, -⟩ | ⟨-, hrest⟩
    · have htally : w.ring.tally = ⟨0, 0⟩ := htally
      simp only [Ring.tally, Tally.mk.injEq] at htally
      exact ⟨List.eq_nil_of_length_eq_zero htally.1, by omega⟩
    · have htally : w.ring.tally = ⟨0, 1⟩ := congrArg Prod.snd hrest
      simp only [Ring.tally, Tally.mk.injEq] at htally
      exact ⟨List.eq_nil_of_length_eq_zero htally.1, by omega⟩

/-- One update: the append, the intercepted fdatasync with `ticks` statements and
its return, and the kernel's work on the fsync. -/
def update (ticks : Nat) : List Label :=
  [.call (.io (.write 3 64 8)), .tick, .call (.io (.fsync 3))] ++
    List.replicate ticks .tick ++ [.begin 0, .finish 0 0]

/-- Two updates and the append of a third. -/
def twoUpdates : List Label :=
  [.call .start, .tick, .tick, .tick] ++ update 5 ++ update 6 ++
    [.call (.io (.write 3 64 8)), .tick]

theorem losesAtMostTwo_of_updates_twoUpdates :
    ∃ w, w.calls.length = 5 ∧ 0 ∈ w.disk.durable ∧ LosesAtMostTwo 3 w := by
  have halong : Along (system delayedFsync) (fun w l => Updates 3 w l ∧ Succeeds w l)
      freshWorld twoUpdates := by decide +kernel
  have hrun : (Transition.exec (system delayedFsync) freshWorld twoUpdates).map
      (fun w => (w.calls.length, w.disk.durable)) = some (5, [0, 0, 2]) := by
    decide +kernel
  obtain ⟨w, hw, hend⟩ := Option.map_eq_some_iff.mp hrun
  simp only [Prod.mk.injEq] at hend
  obtain ⟨hcalls, hdurable⟩ := hend
  refine ⟨w, hcalls, by simp [hdurable], losesAtMostTwo_of_updates ?_⟩
  exact .exec twoUpdates (.start attached_freshWorld) halong hw

end BpftimeBenchmark.Redis
