import BpftimeBenchmark.Bench.Syscount

/-!
The accounting of `syscount-nginx/benchmark.py` when no signal arrives: which
runs are counted exactly once, as valid or as failed for one reason.
-/

namespace BpftimeBenchmark.Bench.Syscount

open Scripts Script

/-- `syscount` has not ended by itself within its timeout. -/
def hangs : Call → Bool
  | ⟨.act (.wait (.tracer _) .own), .error .timeoutExpired⟩ => true
  | _ => false

/-- `nginx.conf` was asked for and is not there. -/
def confMissing : Call → Bool
  | ⟨.ask (.pathExists .nginxConf), false⟩ => true
  | _ => false

/-- The calls whose answers decide how often a run is counted. -/
def decisive : Op → Bool
  | .ask (.pathExists .nginxConf) => true
  | .act (.wait (.tracer _) .own) => true
  | _ => false

theorem not_decisive_of_housekeeping {op : Op} (h : op.housekeeping = true) :
    decisive op = false := by
  unfold decisive
  split
  · cases h
  · cases h
  · rfl

theorem not_hangs {c : Call} (h : decisive c.1 = false) : hangs c = false := by
  unfold hangs
  split
  · cases h
  · rfl

theorem not_confMissing {c : Call} (h : decisive c.1 = false) : confMissing c = false := by
  unfold confMissing
  split
  · cases h
  · rfl

/-- What happens beside the accounting: no decisive call, and of the variables
only processes are set. -/
def beside : Footprint Op Vars where
  calls := fun op => decisive op = false
  assigns := fun f => ∃ proc value, f = fun v => v.setProc proc value

theorem beside_setProc (proc : Proc) (value : Bool) :
    beside.assigns fun v => v.setProc proc value :=
  ⟨proc, value, rfl⟩

def Stats.failedOnce (stats : Stats) (reason : Reason) : Stats :=
  { stats with failedAttempts := stats.failedAttempts + 1 }.addReason reason

/-- One more valid run, or one more failed one with one more failure of one
reason. -/
def CountedOnce (st st' : Stats) : Prop :=
  (st'.validRuns = st.validRuns + 1 ∧ st'.failedAttempts = st.failedAttempts ∧
      st'.reasons = st.reasons) ∨
    (st'.validRuns = st.validRuns ∧ st'.failedAttempts = st.failedAttempts + 1 ∧
      ∃ reason, st'.reasons = (st.addReason reason).reasons)

def Stats.total (st : Stats) : Nat := st.validRuns + st.failedAttempts

theorem CountedOnce.total {st st' : Stats} (h : CountedOnce st st') :
    st'.total = st.total + 1 := by
  unfold Stats.total
  rcases h with ⟨hv, hf, _⟩ | ⟨hv, hf, _⟩ <;> omega

theorem countedOnce_failedOnce (st : Stats) (reason : Reason) :
    CountedOnce st (st.failedOnce reason) :=
  .inr ⟨rfl, rfl, reason, rfl⟩

def statsOf (leg : Leg) (k : PyMachine State) : Stats := k.state.runStats leg

/-- The calls from `k₀` to `k` without a decisive answer. -/
def CalmCalls (k₀ k : PyMachine State) : Prop :=
  ∃ added, k.calls = k₀.calls ++ added ∧
    ∀ c ∈ added, hangs c = false ∧ confMissing c = false

theorem CalmCalls.refl (k : PyMachine State) : CalmCalls k k := ⟨[], by simp, by simp⟩

theorem CalmCalls.answered {k₀ k : PyMachine State} (h : CalmCalls k₀ k) {op : Op}
    {r : op.Reply} (hhangs : hangs ⟨op, r⟩ = false) (hconf : confMissing ⟨op, r⟩ = false) :
    CalmCalls k₀ (k.answered op r) := by
  obtain ⟨added, hadded, hall⟩ := h
  refine ⟨added ++ [⟨op, r⟩], by simp [Machine.answered, hadded], fun c hc => ?_⟩
  rcases List.mem_append.mp hc with hc | hc
  · exact hall c hc
  · obtain rfl := List.mem_singleton.mp hc
    exact ⟨hhangs, hconf⟩

/-- The run that started at `k₀` is not counted yet and has no throughput;
`logs` says whether its trace logs are open. -/
structure Uncounted (leg : Leg) (logs : Bool) (k₀ k : PyMachine State) : Prop where
  stats : statsOf leg k = statsOf leg k₀
  traceFiles : k.vars.traceFiles = logs
  reqPerSec : k.vars.reqPerSec = none
  calls : CalmCalls k₀ k

theorem quiet_uncounted (leg : Leg) (logs : Bool) (k₀ : PyMachine State) :
    Quiet beside (Uncounted leg logs k₀) where
  tick := fun _ h => ⟨h.stats, h.traceFiles, h.reqPerSec, h.calls⟩
  answered := fun _ _ _ hop h => ⟨h.stats, h.traceFiles, h.reqPerSec,
    h.calls.answered (not_hangs hop) (not_confMissing hop)⟩
  assigned := by
    rintro k _ ⟨proc, value, rfl⟩ h
    exact ⟨h.stats, h.traceFiles, h.reqPerSec, h.calls⟩

/-- The `try` statement is over: the run is counted as failed, or it has a
throughput and its trace logs are open. -/
structure Tried (leg : Leg) (k₀ k : PyMachine State) : Prop where
  outcome : (∃ reason, statsOf leg k = (statsOf leg k₀).failedOnce reason ∧
      k.vars.reqPerSec = none) ∨
    (statsOf leg k = statsOf leg k₀ ∧ k.vars.reqPerSec.isSome = true ∧
      k.vars.traceFiles = true)
  calls : CalmCalls k₀ k

/-- `syscount` has ended since `k₀`; if it hung, the run was counted for it. -/
def Waited (leg : Leg) (k₀ k : PyMachine State) : Prop :=
  ∃ added, k.calls = k₀.calls ++ added ∧ (∀ c ∈ added, confMissing c = false) ∧
    statsOf leg k =
      if added.any hangs then (statsOf leg k₀).failedOnce .timeouts else statsOf leg k₀

theorem Waited.refl (leg : Leg) (k : PyMachine State) : Waited leg k k :=
  ⟨[], by simp, by simp, rfl⟩

theorem quiet_waited (leg : Leg) (k₀ : PyMachine State) : Quiet beside (Waited leg k₀) where
  tick := fun _ h => h
  answered := by
    rintro k op r hop ⟨added, hadded, hall, hstats⟩
    refine ⟨added ++ [⟨op, r⟩], by simp [Machine.answered, hadded], fun c hc => ?_, ?_⟩
    · rcases List.mem_append.mp hc with hc | hc
      · exact hall c hc
      · obtain rfl := List.mem_singleton.mp hc
        exact not_confMissing hop
    · have hcalm : hangs ⟨op, r⟩ = false := not_hangs hop
      have hsame : statsOf leg (k.answered op r) = statsOf leg k := rfl
      have hany : (added ++ [(⟨op, r⟩ : Σ op, Op.Reply op)]).any hangs = added.any hangs := by
        rw [List.any_append, List.any_cons, hcalm, List.any_nil, Bool.or_false, Bool.or_false]
      rw [hsame, hstats, hany]
  assigned := fun _ _ _ h => h

/-- The end of a traced run that reached its `finally` at `k`. -/
def Finished (leg : Leg) (k k' : PyMachine State) : Prop :=
  (k.vars.traceFiles = false ∧ k'.calls = k.calls ∧ statsOf leg k' = statsOf leg k) ∨
    (k.vars.traceFiles = true ∧ ∃ k₁, Waited leg k k₁ ∧ k'.calls = k₁.calls ∧
      ((k.vars.reqPerSec = none ∧ statsOf leg k' = statsOf leg k₁) ∨
        (k.vars.reqPerSec.isSome = true ∧ CountedOnce (statsOf leg k₁) (statsOf leg k'))))

theorem quiet_tried (leg : Leg) (k₀ : PyMachine State) : Quiet beside (Tried leg k₀) where
  tick := fun _ h => ⟨h.outcome, h.calls⟩
  answered := fun _ _ _ hop h => ⟨h.outcome,
    h.calls.answered (not_hangs hop) (not_confMissing hop)⟩
  assigned := by
    rintro k _ ⟨proc, value, rfl⟩ h
    exact ⟨h.outcome, h.calls⟩

/-- A run of bpftime that found no `nginx.conf`. -/
structure Missed (leg : Leg) (k₀ k : PyMachine State) : Prop where
  stats : statsOf leg k = statsOf leg k₀
  traceFiles : k.vars.traceFiles = false
  calls : ∃ added, k.calls = k₀.calls ++ added ∧ added.any confMissing = true

theorem quiet_missed (leg : Leg) (k₀ : PyMachine State) :
    Quiet beside (Missed leg k₀) where
  tick := fun _ h => ⟨h.stats, h.traceFiles, h.calls⟩
  answered := by
    intro k op r _ h
    obtain ⟨added, hadded, hany⟩ := h.calls
    refine ⟨h.stats, h.traceFiles, added ++ [⟨op, r⟩], ?_, ?_⟩
    · simp [Machine.answered, hadded]
    · rw [List.any_append, hany, Bool.true_or]
  assigned := by
    rintro k _ ⟨proc, value, rfl⟩ h
    exact ⟨h.stats, h.traceFiles, h.calls⟩

/-- The run from `k₀` to `k` is counted once exactly if it did not miss
`nginx.conf` and `syscount` did not hang. -/
def Settled (leg : Leg) (k₀ k : PyMachine State) : Prop :=
  ∃ added, k.calls = k₀.calls ++ added ∧
    (CountedOnce (statsOf leg k₀) (statsOf leg k) ↔
      added.any confMissing = false ∧ added.any hangs = false)

theorem quiet_settled (leg : Leg) (k₀ : PyMachine State) : Quiet beside (Settled leg k₀) where
  tick := fun _ h => h
  answered := by
    rintro k op r hop ⟨added, hadded, hiff⟩
    refine ⟨added ++ [⟨op, r⟩], by simp [Machine.answered, hadded], ?_⟩
    have hsame : statsOf leg (k.answered op r) = statsOf leg k := rfl
    rw [hsame, hiff, List.any_append, List.any_append]
    simp [not_hangs (c := ⟨op, r⟩) hop, not_confMissing (c := ⟨op, r⟩) hop]
  assigned := fun _ _ _ h => h

theorem not_countedOnce_of_eq {st st' : Stats} (h : st' = st) : ¬CountedOnce st st' := by
  intro hcounted
  have htotal := hcounted.total
  rw [h] at htotal
  omega

theorem not_countedOnce_of_two {st st₁ st' : Stats} (h : CountedOnce st st₁)
    (h' : CountedOnce st₁ st') : ¬CountedOnce st st' := by
  intro hcounted
  have htotal := hcounted.total
  have htwice := h'.total
  rw [h.total] at htwice
  omega

theorem Missed.settled {leg : Leg} {k₀ k k' : PyMachine State} (h : Missed leg k₀ k)
    (hfinished : Finished leg k k') : Settled leg k₀ k' := by
  obtain ⟨added, hadded, hany⟩ := h.calls
  rcases hfinished with ⟨_, hcalls, hstats⟩ | ⟨hlogs, _⟩
  · refine ⟨added, hcalls.trans hadded, ?_⟩
    rw [hany]
    simpa using not_countedOnce_of_eq (hstats.trans h.stats)
  · rw [h.traceFiles] at hlogs
    cases hlogs

theorem Tried.settled {leg : Leg} {k₀ k k' : PyMachine State} (h : Tried leg k₀ k)
    (hfinished : Finished leg k k') : Settled leg k₀ k' := by
  obtain ⟨before, hbefore, hcalm⟩ := h.calls
  have hnone : before.any confMissing = false :=
    List.any_eq_false.mpr fun c hc => by simp [(hcalm c hc).2]
  have hquiet : before.any hangs = false :=
    List.any_eq_false.mpr fun c hc => by simp [(hcalm c hc).1]
  rcases hfinished with ⟨hlogs, hcalls, hstats⟩ | ⟨_, k₁, hwaited, hcalls, hend⟩
  · refine ⟨before, hcalls.trans hbefore, ?_⟩
    rcases h.outcome with ⟨reason, hfailed, _⟩ | ⟨_, _, hopen⟩
    · rw [hstats, hfailed]
      simp [hnone, hquiet, countedOnce_failedOnce]
    · rw [hlogs] at hopen
      cases hopen
  · obtain ⟨added, hadded, hall, hwait⟩ := hwaited
    have hpresent : added.any confMissing = false :=
      List.any_eq_false.mpr fun c hc => by simp [hall c hc]
    refine ⟨before ++ added, ?_, ?_⟩
    · rw [hcalls, hadded, hbefore, List.append_assoc]
    rw [List.any_append, List.any_append, hnone, hquiet, hpresent]
    simp only [Bool.or_false, Bool.false_or, true_and]
    rcases h.outcome with ⟨reason, hfailed, hvalue⟩ | ⟨hsame, hvalue, _⟩
    · -- the run was counted in its `try` statement
      rcases hend with ⟨_, hstats⟩ | ⟨hsome, _⟩
      · rw [hstats, hwait, hfailed]
        cases added.any hangs with
        | true =>
            simpa using not_countedOnce_of_two (countedOnce_failedOnce _ reason)
              (countedOnce_failedOnce _ .timeouts)
        | false => simpa using countedOnce_failedOnce _ reason
      · rw [hvalue] at hsome
        cases hsome
    · -- the run is counted in its `finally` block
      rcases hend with ⟨hnovalue, _⟩ | ⟨_, hcounted⟩
      · rw [hnovalue] at hvalue
        cases hvalue
      · rw [hwait, hsame] at hcounted
        cases hhangs : added.any hangs with
        | true =>
            rw [hhangs] at hcounted
            simpa using not_countedOnce_of_two (countedOnce_failedOnce _ .timeouts) hcounted
        | false =>
            rw [hhangs] at hcounted
            simpa using hcounted

section Undisturbed

variable {ρ : Type} {env : PyEnv} (henv : env.Undisturbed)

include henv

theorem wp_markFailed {leg : Leg} {reason : Reason} {k : PyMachine State}
    {Q : Unit → PyMachine State → Prop} {X : Exit Exc ρ → PyMachine State → Prop}
    (h : ∀ k', statsOf leg k' = (statsOf leg k).failedOnce reason → k'.vars = k.vars →
      k'.calls = k.calls → Q () k') :
    wp env (markFailed leg reason) Q X k := by
  refine wp_bind (wp_update_of henv (wp_update_of henv (h _ ?_ rfl rfl)))
  simp [statsOf, Machine.updated, State.setStats, Stats.failedOnce]

theorem wp_record {leg : Leg} {v : ℚ} {k : PyMachine State}
    {Q : Unit → PyMachine State → Prop} {X : Exit Exc ρ → PyMachine State → Prop}
    (h : ∀ k', CountedOnce (statsOf leg k) (statsOf leg k') → k'.calls = k.calls → Q () k') :
    wp env (record leg v) Q X k := by
  refine wp_bind (wp_update_of henv (wp_update_of henv (h _ (.inl ⟨?_, ?_, ?_⟩) rfl))) <;>
    simp [statsOf, Machine.updated, State.setStats, State.addResult]

/-- A run that is marked as failed is over with its `try` statement. -/
theorem wp_failsRun {leg : Leg} {reason : Reason} {logs : Bool} {k₀ k : PyMachine State}
    {Q : Unit → PyMachine State → Prop} {X : Exit Exc ρ → PyMachine State → Prop}
    (hk : Uncounted leg logs k₀ k) (h : ∀ k', Tried leg k₀ k' → Q () k') :
    wp env (markFailed leg reason) Q X k := by
  refine wp_markFailed henv fun k' hstats hvars hcalls => h k' ⟨.inl ⟨reason, ?_, ?_⟩, ?_⟩
  · rw [hstats, hk.stats]
  · rw [hvars, hk.reqPerSec]
  · obtain ⟨added, hadded, hall⟩ := hk.calls
    exact ⟨added, hcalls.trans hadded, hall⟩

/-- The exits of the `try` block of a run. -/
def runExit (leg : Leg) (k₀ : PyMachine State) : Exit Exc ρ → PyMachine State → Prop
  | .raise e => fun k => e.ordinary = true ∧ ∃ logs, Uncounted leg logs k₀ k
  | .ret _ => fun _ => False
  | .brk => fun _ => False
  | .cont => Tried leg k₀

theorem wp_measureTraced {leg : Leg} {mode : Mode} {k₀ k : PyMachine State}
    (hk : Uncounted leg false k₀ k) :
    wp env (measureTraced leg mode : Py State ρ Unit) (fun _ => Tried leg k₀)
      (runExit leg k₀) k := by
  have hquiet (logs : Bool) := quiet_uncounted leg logs k₀
  have hraise (logs : Bool) (e : Exc) (k : PyMachine State) (he : e.ordinary = true)
      (hk : Uncounted leg logs k₀ k) : runExit (ρ := ρ) leg k₀ (.raise e) k := ⟨he, logs, hk⟩
  refine wp_bind ((tame_act henv rfl).use (hquiet false) hk (fun _ k hk => ?_) (hraise false))
  refine wp_bind (wp_assign_of henv (wp_bind ?_))
  have hopen : Uncounted leg true k₀ (k.assigned fun v => { v with traceFiles := true }) :=
    ⟨hk.stats, rfl, hk.reqPerSec, hk.calls⟩
  refine (tame_popen henv rfl (beside_setProc _ true)).use (hquiet true) hopen
    (fun _ k hk => wp_bind ?_) (hraise true)
  refine (silent_ask henv rfl).use (hquiet true) hk fun _ k hk => wp_bind ?_
  refine (silent_ask henv rfl).use (hquiet true) hk fun _ k hk => wp_bind (wp_when ?_ ?_)
  · intro _
    exact wp_bind (wp_failsRun henv hk fun k' hk' => wp_cont hk')
  intro _
  refine wp_bind ((tame_act henv rfl).use (hquiet true) hk (fun result k hk => ?_)
    (hraise true))
  refine wp_bind (wp_when ?_ ?_)
  · intro _
    exact wp_bind (wp_failsRun henv hk fun k' hk' => wp_cont hk')
  intro _
  refine wp_bind (wp_assign_of henv ?_)
  cases hvalue : throughput result.stdout with
  | none =>
      refine wp_when (fun _ => ?_) (fun hne => absurd rfl hne)
      exact wp_failsRun henv ⟨hk.stats, hk.traceFiles, rfl, hk.calls⟩ fun _ hk' => hk'
  | some v =>
      refine wp_when (fun hnone => ?_) (fun _ => ?_)
      · cases hnone
      · exact ⟨.inr ⟨hk.stats, rfl, hk.traceFiles⟩, hk.calls⟩

/-- Handling an exception counts the run as failed. -/
theorem wp_handled {leg : Leg} {k₀ k : PyMachine State} {body : Py State ρ Unit}
    (other : PyMachine State → Prop) (h : wp env body (fun _ => Tried leg k₀)
      (fun x k => runExit leg k₀ x k ∨ (x = .cont ∧ other k)) k) :
    wp env (Script.tryExcept body
      (onTimeout (markFailed leg .timeouts) (markFailed leg .exceptions)))
      (fun _ => Tried leg k₀) (fun x k => x = .cont ∧ (Tried leg k₀ k ∨ other k)) k := by
  refine @wp_tryExcept _ _ _ _ _ _ _ _ _ _ _ _ _
    (fun e k => e.ordinary = true ∧ ∃ logs, Uncounted leg logs k₀ k) ?_ ?_
  · refine wp_mono h (fun _ _ hq => hq) fun x k hx => ?_
    cases x with
    | raise e =>
        rcases hx with hx | ⟨hx, _⟩
        · exact hx
        · cases hx
    | ret v =>
        rcases hx with hx | ⟨hx, _⟩
        · exact hx.elim
        · cases hx
    | brk =>
        rcases hx with hx | ⟨hx, _⟩
        · exact hx.elim
        · cases hx
    | cont =>
        rcases hx with hx | ⟨_, hx⟩
        · exact ⟨rfl, .inl hx⟩
        · exact ⟨rfl, .inr hx⟩
  · rintro e k ⟨he, logs, hk⟩
    cases e with
    | timeoutExpired => exact wp_failsRun henv hk fun _ hk' => hk'
    | other => exact wp_failsRun henv hk fun _ hk' => hk'
    | keyboardInterrupt => cases he
    | systemExit code => cases he

theorem wp_awaitSyscount {leg : Leg} {mode : Mode} {k : PyMachine State} :
    wp env (awaitSyscount leg mode : Py State ρ (Option Int)) (fun _ => Waited leg k)
      (onlyRaise (fun _ _ => True)) k := by
  have hquiet := quiet_waited leg k
  refine wp_bind (@wp_tryExcept _ _ _ _ _ _ _ _ _ _ _ _ _
    (fun e k' => e = .timeoutExpired →
      ∃ added, k'.calls = k.calls ++ added ∧ (∀ c ∈ added, confMissing c = false) ∧
        added.any hangs = true ∧ statsOf leg k' = statsOf leg k) ?_ ?_)
  · refine wp_act henv (fun r => ?_) (fun f => ?_)
    · refine (silent_ask henv rfl).use hquiet ?_ fun _ k' hk' => hk'
      exact ⟨[⟨.act (.wait (.tracer mode) .own), .ok r⟩], rfl, by simp [confMissing],
        by simp [hangs]; rfl⟩
    · intro he
      cases f with
      | other => cases he
      | timeoutExpired =>
          exact ⟨[⟨.act (.wait (.tracer mode) .own), .error .timeoutExpired⟩], rfl,
            by simp [confMissing], by simp [hangs], rfl⟩
  · intro e k₁ hk₁
    cases e with
    | other => trivial
    | keyboardInterrupt => trivial
    | systemExit code => trivial
    | timeoutExpired =>
        obtain ⟨added, hadded, hall, hhung, hstats⟩ := hk₁ rfl
        have hraise (e : Exc) (k' : PyMachine State) (_ : e.ordinary = true)
            (_ : Waited leg k k') : onlyRaise (ρ := ρ) (fun _ (_ : PyMachine State) => True)
              (.raise e) k' := trivial
        refine wp_bind (wp_markFailed henv fun k₂ hstats₂ _ hcalls₂ => ?_)
        have hk₂ : Waited leg k k₂ := by
          refine ⟨added, hcalls₂.trans hadded, hall, ?_⟩
          rw [hstats₂, hstats, hhung]
          rfl
        have hpoll (k' : PyMachine State) (hk' : Waited leg k k') :
            wp env (ask (.poll (.tracer mode)) : Py State ρ (Option Int))
              (fun _ => Waited leg k) (onlyRaise (fun _ _ => True)) k' :=
          (silent_ask henv rfl).use hquiet hk' fun _ _ hk' => hk'
        refine wp_bind ((tame_act henv rfl).use hquiet hk₂ (fun _ k₃ hk₃ => ?_) hraise)
        refine @wp_tryExcept _ _ _ _ _ _ _ _ _ _ _ _ _ (fun _ => Waited leg k) ?_ ?_
        · exact (tame_act henv rfl).use hquiet hk₃ (fun _ k' hk' => hpoll k' hk')
            fun _ _ _ hk' => hk'
        · intro e k₄ hk₄
          cases e with
          | other => trivial
          | keyboardInterrupt => trivial
          | systemExit code => trivial
          | timeoutExpired =>
              refine wp_bind ((tame_act henv rfl).use hquiet hk₄ (fun _ k₅ hk₅ => ?_) hraise)
              exact (tame_act henv rfl).use hquiet hk₅ (fun _ k' hk' => hpoll k' hk') hraise

theorem wp_terminateAndSummarize {leg : Leg} {mode : Mode} {i : Nat} {require : Bool}
    {k : PyMachine State} :
    wp env (terminateAndSummarizeSyscount leg mode i require : Py State ρ Summary)
      (fun _ => Waited leg k) (onlyRaise (fun _ _ => True)) k := by
  have hquiet := quiet_waited leg k
  -- the logs are closed and summarized however `syscount` ended
  have hclose {returncode : Option Int} {k' : PyMachine State} (hk' : Waited leg k k') :
      wp env (do
        act (.closeTraceLogs mode)
        summarizeSyscountLog leg mode i returncode require : Py State ρ Summary)
        (fun _ => Waited leg k) (onlyRaise (fun _ _ => True)) k' := by
    refine wp_bind ((tame_act henv rfl).use hquiet hk' (fun _ k₁ hk₁ => ?_)
      fun _ _ _ _ => trivial)
    exact wp_summarizeSyscountLog hquiet (fun _ => not_decisive_of_housekeeping) hk₁
      (fun _ _ hk₂ => hk₂) fun _ _ _ => trivial
  have hawait : wp env (awaitIfStarted leg mode : Py State ρ (Option Int))
      (fun _ => Waited leg k) (onlyRaise (fun _ _ => True)) k := by
    refine wp_bind (wp_bind (wp_vars (wp_pure ?_)))
    split
    · exact wp_awaitSyscount henv
    · exact wp_pure (Waited.refl leg k)
  exact wp_bind (wp_mono hawait (fun _ _ hk' => hclose hk') fun _ _ hx => hx)

theorem wp_finishTraced {leg : Leg} {mode : Mode} {i : Nat} {require : Bool}
    {k : PyMachine State} :
    wp env (finishTraced leg mode i require : Py State ρ Unit) (fun _ => Finished leg k)
      (onlyRaise (fun _ _ => True)) k := by
  refine wp_bind (wp_vars (wp_when (fun hlogs => ?_) (fun hlogs => ?_)))
  · refine wp_bind (wp_mono (wp_terminateAndSummarize henv) (fun summary k₁ hk₁ => ?_)
      fun _ _ hx => hx)
    cases hvalue : k.vars.reqPerSec with
    | none => exact wp_pure (.inr ⟨hlogs, k₁, hk₁, rfl, .inl ⟨hvalue, rfl⟩⟩)
    | some v =>
        have hsome : k.vars.reqPerSec.isSome = true := by rw [hvalue]; rfl
        cases summary.traceSuccess with
        | true =>
            exact wp_record henv fun k' hcounted hcalls =>
              .inr ⟨hlogs, k₁, hk₁, hcalls, .inr ⟨hsome, hcounted⟩⟩
        | false =>
            refine wp_markFailed henv fun k' hstats _ hcalls =>
              .inr ⟨hlogs, k₁, hk₁, hcalls, .inr ⟨hsome, ?_⟩⟩
            rw [hstats]
            exact countedOnce_failedOnce _ _
  · exact .inl ⟨by simpa using hlogs, rfl, rfl⟩

theorem wp_clearRun (leg : Leg) {mode : Mode} {k₀ k : PyMachine State}
    {Q : Unit → PyMachine State → Prop} {X : Exit Exc ρ → PyMachine State → Prop}
    (hstats : statsOf leg k = statsOf leg k₀) (hcalls : CalmCalls k₀ k)
    (h : ∀ k', Uncounted leg false k₀ k' → Q () k') : wp env (clearRun mode) Q X k := by
  refine wp_bind (wp_assign_of henv (wp_bind (wp_assign_of henv (wp_assign_of henv ?_))))
  exact h _ ⟨hstats, rfl, rfl, hcalls⟩

/-- The exits of a run that does not miss a count: `continue`, or an exception
that escapes the `finally` block. -/
def settledExit (leg : Leg) (k₀ : PyMachine State) : Exit Exc ρ → PyMachine State → Prop
  | .raise _ => fun _ => True
  | .ret _ => fun _ => False
  | .brk => fun _ => False
  | .cont => Settled leg k₀

omit henv in
theorem settledExit_of_raise {leg : Leg} {k₀ k : PyMachine State} {x : Exit Exc ρ}
    (hx : onlyRaise (fun _ _ => True) x k) : settledExit leg k₀ x k := by
  cases x with
  | raise e => trivial
  | ret v => exact hx.elim
  | brk => exact hx.elim
  | cont => exact hx.elim

theorem wp_kernelRun {targetPid : Bool} {nginxPid : Option Text} (i : Nat)
    (hpid : nginxPid.getD [] ≠ []) (k : PyMachine State) :
    wp env (kernelRun targetPid nginxPid i : Py State ρ Unit)
      (fun _ => Settled (kernelLeg targetPid) k) (settledExit (kernelLeg targetPid) k) k := by
  refine wp_bind (wp_when (fun hnone => absurd hnone hpid) fun _ => wp_bind ?_)
  refine wp_clearRun henv (kernelLeg targetPid) rfl (CalmCalls.refl k) fun k₁ hk₁ => ?_
  refine wp_tryFinally (wp_mono (wp_handled henv (fun _ => False)
    (wp_mono (wp_measureTraced henv hk₁) (fun _ _ hq => hq) fun _ _ hx => .inl hx)) ?_ ?_)
  · intro _ k₂ hk₂
    exact wp_mono (wp_finishTraced henv) (fun _ _ hk₃ => hk₂.settled hk₃)
      fun _ _ hx => settledExit_of_raise hx
  · rintro x k₂ ⟨rfl, hk₂⟩
    exact wp_mono (wp_finishTraced henv) (fun _ _ hk₃ => (hk₂.resolve_right id).settled hk₃)
      fun _ _ hx => settledExit_of_raise hx

theorem wp_startUserbpf {targetPid : Bool} {k₀ k : PyMachine State}
    {Q : Unit → PyMachine State → Prop} {X : Exit Exc ρ → PyMachine State → Prop}
    (hk : Uncounted (userbpfLeg targetPid) false k₀ k)
    (hQ : ∀ k', Uncounted (userbpfLeg targetPid) false k₀ k' → Q () k')
    (hX : ∀ x k', runExit (userbpfLeg targetPid) k₀ x k' ∨
      (x = .cont ∧ Missed (userbpfLeg targetPid) k₀ k') → X x k') :
    wp env (startUserbpf (userbpfLeg targetPid) targetPid) Q X k := by
  have hA (op : Op) (hop : op.housekeeping = true) : beside.calls op :=
    not_decisive_of_housekeeping hop
  have hquiet := quiet_uncounted (userbpfLeg targetPid) false k₀
  have hraise (e : Exc) (k : PyMachine State) (he : e.ordinary = true)
      (hk : Uncounted (userbpfLeg targetPid) false k₀ k) : X (.raise e) k :=
    hX _ _ (.inl ⟨he, false, hk⟩)
  have hfails {reason : Reason} {k : PyMachine State}
      (hk : Uncounted (userbpfLeg targetPid) false k₀ k) {Q : Unit → PyMachine State → Prop} :
      wp env (do
        markFailed (userbpfLeg targetPid) reason
        Script.cont : Py State ρ Unit) Q X k :=
    wp_bind (wp_failsRun henv hk fun k' hk' => wp_cont (hX _ _ (.inl hk')))
  refine wp_bind (wp_call (fun e he => by simp [henv k.clock] at he) fun _ => ?_)
  cases env.answer k.clock (.ask (.pathExists .nginxConf)) with
  | false =>
      refine wp_bind (wp_when (fun _ => wp_cont (hX _ _ (.inr ⟨rfl, ?_⟩))) fun hne => ?_)
      · obtain ⟨added, hadded, _⟩ := hk.calls
        refine ⟨hk.stats, hk.traceFiles,
          added ++ [⟨.ask (.pathExists .nginxConf), false⟩], ?_, ?_⟩
        · simp [Machine.answered, hadded]
        · simp [confMissing]
      · exact absurd rfl hne
  | true =>
      refine wp_bind (wp_when (fun hfalse => absurd hfalse (by decide)) fun _ => wp_bind ?_)
      have hk : Uncounted (userbpfLeg targetPid) false k₀
          (k.answered (.ask (.pathExists .nginxConf)) true) :=
        ⟨hk.stats, hk.traceFiles, hk.reqPerSec, hk.calls.answered rfl rfl⟩
      refine (tame_act henv rfl).use hquiet hk (fun _ k hk => wp_bind ?_) hraise
      refine (silent_ignoring (tame_act henv rfl)).use hquiet hk fun _ k hk => wp_bind ?_
      refine (tame_act henv rfl).use hquiet hk (fun _ k hk => wp_bind ?_) hraise
      refine (tame_popen henv rfl (beside_setProc _ true)).use hquiet hk
        (fun _ k hk => wp_bind ?_) hraise
      refine (silent_ask henv rfl).use hquiet hk fun _ k hk => wp_bind ?_
      refine (silent_ask henv rfl).use hquiet hk fun _ k hk => wp_bind (wp_when ?_ ?_)
      · intro _
        have hreport : Tame env beside (reportNginxExit : Py State ρ Unit) :=
          steady_reportNginxExit (channel_onlyRaise henv _) hA fun f _ => f.exc_ordinary
        exact wp_bind (hreport.use hquiet hk (fun _ k hk => hfails hk) hraise)
      intro _
      refine wp_bind ((tame_act henv rfl).use hquiet hk (fun _ k hk => wp_bind (wp_when ?_ ?_))
        hraise)
      · intro _
        exact hfails hk
      intro _
      refine wp_bind ((tame_act henv rfl).use hquiet hk (fun _ k hk => ?_) hraise)
      exact (tame_act henv rfl).use hquiet hk (fun _ k hk => hQ k hk) hraise

theorem wp_userbpfFinally {leg : Leg} {i : Nat} {k₀ k : PyMachine State}
    (hk : Tried leg k₀ k ∨ Missed leg k₀ k) :
    wp env (userbpfFinally leg i : Py State ρ Unit) (fun _ => Settled leg k₀)
      (onlyRaise (fun _ _ => True)) k := by
  have hquiet := (quiet_tried leg k₀).or (quiet_missed leg k₀)
  have hA (op : Op) (hop : op.housekeeping = true) : beside.calls op :=
    not_decisive_of_housekeeping hop
  refine wp_bind ((silent_ignoring ?_).use hquiet hk fun _ k hk => wp_bind ?_)
  · refine steady_bind tame_holds fun _ => steady_ite ?_ steady_pure
    exact steady_bind (tame_act henv rfl) fun _ => tame_act henv rfl
  · refine wp_mono (wp_finishTraced henv) (fun _ k' hk' => ?_) fun _ _ hx => hx
    refine (silent_cleanupProcesses henv hA).use (quiet_settled leg k₀) ?_ fun _ _ hk => hk
    exact hk.elim (fun htried => htried.settled hk') fun hmissed => hmissed.settled hk'

theorem wp_userbpfRun (targetPid : Bool) (i : Nat) (k : PyMachine State) :
    wp env (userbpfRun targetPid i : Py State ρ Unit)
      (fun _ => Settled (userbpfLeg targetPid) k) (settledExit (userbpfLeg targetPid) k)
      k := by
  refine wp_bind (wp_assign_of henv (wp_bind ?_))
  have hcalls : CalmCalls k (k.assigned fun v => v.setProc .nginx false) := CalmCalls.refl k
  have hstats : statsOf (userbpfLeg targetPid)
      (k.assigned fun v => v.setProc .nginx false) = statsOf (userbpfLeg targetPid) k := rfl
  refine wp_clearRun henv (userbpfLeg targetPid) hstats hcalls fun k₁ hk₁ => ?_
  refine wp_tryFinally (wp_mono (wp_handled henv (Missed (userbpfLeg targetPid) k)
    (wp_bind (wp_startUserbpf henv hk₁
      (fun k' hk' => wp_mono (wp_measureTraced henv hk') (fun _ _ hq => hq)
        fun _ _ hx => .inl hx) fun _ _ hx => hx))) ?_ ?_)
  · intro _ k₂ hk₂
    exact wp_mono (wp_userbpfFinally henv (.inl hk₂)) (fun _ _ hk₃ => hk₃)
      fun _ _ hx => settledExit_of_raise hx
  · rintro x k₂ ⟨rfl, hk₂⟩
    exact wp_mono (wp_userbpfFinally henv hk₂) (fun _ _ hk₃ => hk₃)
      fun _ _ hx => settledExit_of_raise hx

theorem wp_nativeRun (i : Nat) (k : PyMachine State) :
    wp env (nativeRun i : Py State ρ Unit) (fun _ => Settled .native k)
      (settledExit .native k) k := by
  have hquiet := quiet_aside beside k
  have hsettled {k' : PyMachine State} (hcalls : CalmCalls k k')
      (hcounted : CountedOnce (statsOf .native k) (statsOf .native k')) :
      Settled .native k k' := by
    obtain ⟨added, hadded, hall⟩ := hcalls
    refine ⟨added, hadded, iff_of_true hcounted ⟨?_, ?_⟩⟩
    · exact List.any_eq_false.mpr fun c hc => by simp [(hall c hc).2]
    · exact List.any_eq_false.mpr fun c hc => by simp [(hall c hc).1]
  have hfails {reason : Reason} {k₁ : PyMachine State} (hk₁ : CalmCalls k k₁)
      (hstats : statsOf .native k₁ = statsOf .native k) {Q : Unit → PyMachine State → Prop}
      {X : Exit Exc ρ → PyMachine State → Prop} (h : ∀ k', Settled .native k k' → Q () k') :
      wp env (markFailed .native reason : Py State ρ Unit) Q X k₁ := by
    refine wp_markFailed henv fun k' hk' _ hcalls => h k' (hsettled ?_ ?_)
    · obtain ⟨added, hadded, hall⟩ := hk₁
      exact ⟨added, hcalls.trans hadded, hall⟩
    · rw [hk', hstats]
      exact countedOnce_failedOnce _ _
  have hcalm (r : Except Failure Completed) :
      CalmCalls k (k.answered (.act (.run .wrk)) r) :=
    (CalmCalls.refl k).answered rfl rfl
  refine @wp_tryExcept _ _ _ _ _ _ _ _ _ _ _ _ _
    (fun e k₁ => e.ordinary = true ∧ CalmCalls k k₁ ∧
      statsOf .native k₁ = statsOf .native k) ?_ ?_
  · refine wp_bind (wp_act henv (fun result => ?_) fun f => ?_)
    · refine wp_bind (wp_when (fun _ => ?_) fun _ => ?_)
      · exact wp_bind (hfails (hcalm _) rfl fun k' hk' => wp_cont hk')
      · cases throughput result.stdout with
        | none => exact hfails (hcalm _) rfl fun k' hk' => hk'
        | some v =>
            refine wp_record henv fun k' hcounted hcalls => hsettled ?_ hcounted
            obtain ⟨added, hadded, hall⟩ := hcalm (.ok result)
            exact ⟨added, hcalls.trans hadded, hall⟩
    · exact ⟨f.exc_ordinary, hcalm _, rfl⟩
  · rintro e k₁ ⟨he, hcalls, hstats⟩
    cases e with
    | timeoutExpired => exact hfails hcalls hstats fun k' hk' => hk'
    | other => exact hfails hcalls hstats fun k' hk' => hk'
    | keyboardInterrupt => cases he
    | systemExit code => cases he

end Undisturbed

/-- The loop of a leg, which knows nginx's PID if it runs in the kernel. -/
def legRuns (cfg : Config) (nginxPid : Option Text) : Leg → Py State Unit Unit
  | .native => nativeRuns cfg
  | .kernelTargeted => kernelRuns cfg true nginxPid
  | .kernelUntargeted => kernelRuns cfg false nginxPid
  | .userbpfTargeted => userbpfRuns cfg true
  | .userbpfUntargeted => userbpfRuns cfg false

def legRun (nginxPid : Option Text) : Leg → Nat → Py State Unit Unit
  | .native => nativeRun
  | .kernelTargeted => kernelRun true nginxPid
  | .kernelUntargeted => kernelRun false nginxPid
  | .userbpfTargeted => userbpfRun true
  | .userbpfUntargeted => userbpfRun false

def Leg.isKernel : Leg → Bool
  | .native => false
  | .kernelTargeted => true
  | .kernelUntargeted => true
  | .userbpfTargeted => false
  | .userbpfUntargeted => false

/-- What a run must meet with to be counted once, where `calls` are its calls
with their answers. -/
def Accountable (leg : Leg) (nginxPid : Option Text) (calls : List Call) : Prop :=
  (leg.isKernel = true → nginxPid.getD [] ≠ []) ∧ calls.any confMissing = false ∧
    calls.any hangs = false

/-- The machine after `i` runs of the loop that is entered at `k`. -/
def runsAfter (nginxPid : Option Text) (leg : Leg) (env : PyEnv) (k : PyMachine State)
    (i : Nat) : PyMachine State :=
  afterRounds (legRun nginxPid leg) env k i

/-- The calls of run `i` with their answers. -/
def callsOfRun (nginxPid : Option Text) (leg : Leg) (env : PyEnv) (k : PyMachine State)
    (i : Nat) : List Call :=
  (runsAfter nginxPid leg env k (i + 1)).calls.drop
    (runsAfter nginxPid leg env k i).calls.length

theorem legRuns_eq (cfg : Config) (nginxPid : Option Text) (leg : Leg) :
    legRuns cfg nginxPid leg =
      (do
        let _ ← Script.forRange cfg.numRuns.toNat (legRun nginxPid leg) :
        Py State Unit Unit) := by
  cases leg <;> rfl

/-- How a run ends in which no exception escapes. -/
def RunEnd (nginxPid : Option Text) (leg : Leg) (k k' : PyMachine State) : Prop :=
  ∃ added, k'.calls = k.calls ++ added ∧
    (CountedOnce (statsOf leg k) (statsOf leg k') ↔ Accountable leg nginxPid added)

theorem Settled.runEnd {leg : Leg} {nginxPid : Option Text} {k k' : PyMachine State}
    (h : Settled leg k k') (hpid : leg.isKernel = true → nginxPid.getD [] ≠ []) :
    RunEnd nginxPid leg k k' := by
  obtain ⟨added, hadded, hiff⟩ := h
  exact ⟨added, hadded, hiff.trans (and_iff_right hpid).symm⟩

theorem runEnd_of_unknown {leg : Leg} {nginxPid : Option Text} (k : PyMachine State)
    (hleg : leg.isKernel = true) (hpid : nginxPid.getD [] = []) :
    RunEnd nginxPid leg k k :=
  ⟨[], by simp, iff_of_false (not_countedOnce_of_eq rfl) fun h => h.1 hleg hpid⟩

theorem wp_legRun {env : PyEnv} (henv : env.Undisturbed) (nginxPid : Option Text) (leg : Leg)
    (i : Nat) (k : PyMachine State) :
    wp env (legRun nginxPid leg i) (fun _ => RunEnd nginxPid leg k)
      (fun x k' => (x = .cont ∧ RunEnd nginxPid leg k k') ∨ ∃ e, x = .raise e) k := by
  have hexit {leg : Leg} (hpid : leg.isKernel = true → nginxPid.getD [] ≠ [])
      {m : Py State Unit Unit}
      (h : wp env m (fun _ => Settled leg k) (settledExit leg k) k) :
      wp env m (fun _ => RunEnd nginxPid leg k)
        (fun x k' => (x = .cont ∧ RunEnd nginxPid leg k k') ∨ ∃ e, x = .raise e) k := by
    refine wp_mono h (fun _ k' hk' => hk'.runEnd hpid) fun x k' hx => ?_
    cases x with
    | raise e => exact .inr ⟨e, rfl⟩
    | ret v => exact hx.elim
    | brk => exact hx.elim
    | cont => exact .inl ⟨rfl, Settled.runEnd hx hpid⟩
  have hkernel (targetPid : Bool) : wp env
      (kernelRun targetPid nginxPid i : Py State Unit Unit)
      (fun _ => RunEnd nginxPid (kernelLeg targetPid) k)
      (fun x k' => (x = .cont ∧ RunEnd nginxPid (kernelLeg targetPid) k k') ∨
        ∃ e, x = .raise e) k := by
    by_cases hpid : nginxPid.getD [] = []
    · refine wp_bind (wp_when (fun _ => wp_cont (.inl ⟨rfl, ?_⟩)) fun hne => absurd hpid hne)
      exact runEnd_of_unknown k (by cases targetPid <;> rfl) hpid
    · exact hexit (fun _ => hpid) (wp_kernelRun henv i hpid k)
  cases leg with
  | native => exact hexit (fun h => absurd h (by decide)) (wp_nativeRun henv i k)
  | kernelTargeted => exact hkernel true
  | kernelUntargeted => exact hkernel false
  | userbpfTargeted =>
      exact hexit (fun h => absurd h (by decide)) (wp_userbpfRun henv true i k)
  | userbpfUntargeted =>
      exact hexit (fun h => absurd h (by decide)) (wp_userbpfRun henv false i k)

/-- A loop that has finished has gone through all its runs. -/
theorem legRuns_ok {cfg : Config} {nginxPid : Option Text} {leg : Leg} {env : PyEnv}
    (henv : env.Undisturbed) {k k' : PyMachine State}
    (h : legRuns cfg nginxPid leg env k = (.ok (), k')) :
    (∀ i < cfg.numRuns.toNat, RunEnd nginxPid leg (runsAfter nginxPid leg env k i)
      (runsAfter nginxPid leg env k (i + 1))) ∧
    k' = runsAfter nginxPid leg env k cfg.numRuns.toNat := by
  have hnobreak : wp env (Script.forRange cfg.numRuns.toNat (legRun nginxPid leg))
      (fun go _ => go = true) (fun _ _ => True) k := by
    refine @wp_forRange _ _ _ _ _ _ env k _ (legRun nginxPid leg) (fun _ _ => True)
      (fun go _ => go = true) _ ?_ (fun _ _ => rfl) trivial
    intro i k₁ _ _
    refine wp_mono (wp_legRun henv nginxPid leg i k₁) (fun _ _ _ => trivial) fun x k₂ hx => ?_
    rcases hx with ⟨rfl, _⟩ | ⟨e, rfl⟩
    · trivial
    · trivial
  have hloop : Script.forRange cfg.numRuns.toNat (legRun nginxPid leg) env k =
      (.ok true, k') := by
    rw [legRuns_eq] at h
    change Script.bind _ _ env k = _ at h
    unfold Script.bind at h
    unfold wp at hnobreak
    split at h
    · rename_i go k₁ hm
      rw [hm] at hnobreak
      subst hnobreak
      cases h
      exact hm
    · cases h
  obtain ⟨hgo, hend⟩ := forRange_ok_iff.mp hloop
  refine ⟨fun i hi => ?_, hend⟩
  have hrun := wp_and (wp_and (wp_legRun henv nginxPid leg i _) (hgo i hi)) wp_end
  unfold wp at hrun
  split at hrun
  · rename_i k₁ hm
    obtain ⟨⟨hrun, _⟩, hk₁⟩ := hrun
    rw [hk₁] at hrun
    exact hrun
  · rename_i x k₁ hm
    obtain ⟨⟨hrun, rfl⟩, hk₁⟩ := hrun
    rcases hrun with ⟨_, hrun⟩ | ⟨e, he⟩
    · rw [hk₁] at hrun
      exact hrun
    · cases he

theorem total_of_countedOnce {nginxPid : Option Text} {leg : Leg} {env : PyEnv}
    {k : PyMachine State} (n : Nat)
    (h : ∀ i < n, CountedOnce (statsOf leg (runsAfter nginxPid leg env k i))
      (statsOf leg (runsAfter nginxPid leg env k (i + 1)))) :
    (statsOf leg (runsAfter nginxPid leg env k n)).total = (statsOf leg k).total + n := by
  induction n with
  | zero => rfl
  | succ n ih =>
      have hbefore := ih fun i hi => h i (by omega)
      have hlast := (h n (by omega)).total
      omega

/-- When the loop of a leg has finished, its runs are counted once each, and
make up `NUM_RUNS`, exactly if `NUM_RUNS` is not negative and every run meets
with what it must. -/
theorem counted_once_iff (cfg : Config) (nginxPid : Option Text) (leg : Leg) (env : PyEnv)
    (henv : env.Undisturbed) (k k' : PyMachine State)
    (hfinished : legRuns cfg nginxPid leg env k = (.ok (), k')) :
    (((statsOf leg k').total : Int) = (statsOf leg k).total + cfg.numRuns ∧
        ∀ i < cfg.numRuns.toNat, CountedOnce (statsOf leg (runsAfter nginxPid leg env k i))
          (statsOf leg (runsAfter nginxPid leg env k (i + 1)))) ↔
      (0 ≤ cfg.numRuns ∧
        ∀ i < cfg.numRuns.toNat,
          Accountable leg nginxPid (callsOfRun nginxPid leg env k i)) := by
  obtain ⟨hruns, rfl⟩ := legRuns_ok henv hfinished
  have hiff (i : Nat) (hi : i < cfg.numRuns.toNat) :
      CountedOnce (statsOf leg (runsAfter nginxPid leg env k i))
        (statsOf leg (runsAfter nginxPid leg env k (i + 1))) ↔
      Accountable leg nginxPid (callsOfRun nginxPid leg env k i) := by
    obtain ⟨added, hadded, hiff⟩ := hruns i hi
    unfold callsOfRun
    rw [hadded, List.drop_left]
    exact hiff
  constructor
  · rintro ⟨htotal, hcounted⟩
    have hsum := total_of_countedOnce cfg.numRuns.toNat hcounted
    exact ⟨by omega, fun i hi => (hiff i hi).mp (hcounted i hi)⟩
  · rintro ⟨hpositive, haccountable⟩
    have hcounted (i : Nat) (hi : i < cfg.numRuns.toNat) :=
      (hiff i hi).mpr (haccountable i hi)
    have hsum := total_of_countedOnce cfg.numRuns.toNat hcounted
    exact ⟨by omega, hcounted⟩

def countedTrace : Text := "Tracing syscalls\nSYSCALL COUNT\nread 12".toList

/-- Everything works. -/
def smoothEnv : PyEnv where
  answer := fun _ => smoothReply countedTrace
  interrupt := fun _ => none

/-- Everything works, except that `syscount` does not end by itself. -/
def hungEnv : PyEnv where
  answer := fun _ op =>
    match op with
    | .act (.wait (.tracer _) .own) => .error .timeoutExpired
    | op => smoothReply countedTrace op
  interrupt := fun _ => none

def twoRuns : Config := ⟨2, false, false⟩

/-- In the kernel leg of a benchmark that works, both runs are counted once. -/
theorem counted_once_iff_smooth :
    ∃ k', legRuns twoRuns (some "7".toList) .kernelTargeted smoothEnv start = (.ok (), k') ∧
      ((statsOf .kernelTargeted k').total : Int) =
        (statsOf .kernelTargeted start).total + twoRuns.numRuns := by
  have hfinished := eq_ok_of_toOption (b := ())
    (r := legRuns twoRuns (some "7".toList) .kernelTargeted smoothEnv start) (by decide +kernel)
  refine ⟨_, hfinished, ?_⟩
  refine ((counted_once_iff twoRuns (some "7".toList) .kernelTargeted smoothEnv
    (fun _ => rfl) start _ hfinished).mpr ⟨by decide, fun i hi => ?_⟩).1
  have hcalls : ∀ i < 2, (callsOfRun (some "7".toList) .kernelTargeted smoothEnv start i).any
      confMissing = false ∧ (callsOfRun (some "7".toList) .kernelTargeted smoothEnv start
        i).any hangs = false := by
    decide +kernel
  exact ⟨fun _ => by decide, hcalls i hi⟩

/-- A run in which `syscount` hangs is counted as failed and as valid, in the
leg's loop and in the whole program. -/
theorem hung_run_counted_twice :
    ¬(∀ cfg nginxPid leg env k k', env.Undisturbed →
        legRuns cfg nginxPid leg env k = (.ok (), k') → 0 ≤ cfg.numRuns →
        ((statsOf leg k').total : Int) = (statsOf leg k).total + cfg.numRuns) ∧
      (statsOf .kernelTargeted (main (ρ := Unit) twoRuns hungEnv start).2).validRuns = 2 ∧
      (statsOf .kernelTargeted (main (ρ := Unit) twoRuns hungEnv start).2).failedAttempts =
        2 := by
  refine ⟨fun h => ?_, by decide +kernel, by decide +kernel⟩
  have hfinished := eq_ok_of_toOption (b := ())
    (r := legRuns twoRuns (some "7".toList) .kernelTargeted hungEnv start) (by decide +kernel)
  have htotal := h _ _ _ _ _ _ (fun _ => rfl) hfinished (by decide)
  revert htotal
  decide +kernel

end BpftimeBenchmark.Bench.Syscount
