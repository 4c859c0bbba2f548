import BpftimeBenchmark.Bench.SavedResults
import Mathlib.Algebra.GroupWithZero.Nat

/-!
The accounting of `ssl-nginx/benchmark.py` when no signal arrives: the counters
of a leg against its samples after every run and attempt, and the attempts of a
bpftime phase against its runs.
-/

namespace BpftimeBenchmark.Bench.SslNginx

open Scripts Script

def allReasons : List Reason :=
  [.timeouts, .parseFailures, .wrkFailures, .readinessFailures, .attachFailures,
    .exceptions]

def Stats.reasonTotal (stats : Stats) : Nat :=
  (allReasons.map (fun r => (stats.reasons r).getD 0)).sum

structure Balanced (s : State) (leg : Leg) : Prop where
  valid : (s.runStats leg).validRuns = (s.results leg).length
  failed : (s.runStats leg).failedAttempts = (s.runStats leg).reasonTotal
  counters : ∀ r, ((s.runStats leg).reasons r).isSome = leg.counts r

def State.failedOnce (s : State) (leg : Leg) (reason : Reason) : State :=
  s.setStats leg fun st =>
    { st with failedAttempts := st.failedAttempts + 1 }.addReason reason

def State.recorded (s : State) (leg : Leg) (v : ℚ) : State :=
  (s.addResult leg v).setStats leg fun st => { st with validRuns := st.validRuns + 1 }

theorem Stats.reasonTotal_addReason {stats : Stats} {reason : Reason}
    (h : (stats.reasons reason).isSome = true) :
    (stats.addReason reason).reasonTotal = stats.reasonTotal + 1 := by
  obtain ⟨n, hn⟩ := Option.isSome_iff_exists.mp h
  cases reason <;>
    simp [Stats.reasonTotal, Stats.addReason, allReasons, hn] <;>
    omega

theorem Stats.addReason_of_absent {stats : Stats} {reason : Reason}
    (h : (stats.reasons reason).isSome = false) : stats.addReason reason = stats := by
  have hnone : stats.reasons reason = none := by simpa using h
  unfold Stats.addReason
  have hsame : (fun r => if r = reason then (stats.reasons r).map (· + 1)
      else stats.reasons r) = stats.reasons := by
    funext r
    split
    · subst r
      simp [hnone]
    · rfl
  rw [hsame]

/-- What does not touch a leg leaves its accounts alone. -/
theorem Balanced.untouched {s s' : State} {leg : Leg} (h : Balanced s leg)
    (hstats : s'.runStats leg = s.runStats leg) (hresults : s'.results leg = s.results leg) :
    Balanced s' leg where
  valid := by rw [hstats, hresults, h.valid]
  failed := by rw [hstats, h.failed]
  counters := by rw [hstats]; exact h.counters

theorem Balanced.failedOnce {s : State} {leg : Leg} (h : Balanced s leg) {l : Leg}
    {reason : Reason} (hcounts : l.counts reason = true) :
    Balanced (s.failedOnce l reason) leg := by
  by_cases hl : leg = l
  · subst hl
    have hpresent : ((s.runStats leg).reasons reason).isSome = true := by
      rw [h.counters, hcounts]
    refine ⟨?_, ?_, ?_⟩
    · simpa [State.failedOnce, State.setStats, Stats.addReason] using h.valid
    · have htotal := @Stats.reasonTotal_addReason
        { s.runStats leg with failedAttempts := (s.runStats leg).failedAttempts + 1 }
        reason hpresent
      have hfailed := h.failed
      simp only [State.failedOnce, State.setStats, if_true, htotal]
      simp only [Stats.addReason, hfailed]
      rfl
    · intro r
      have hr := h.counters r
      simp only [State.failedOnce, State.setStats, if_true, Stats.addReason]
      split
      · simpa using hr
      · exact hr
  · exact h.untouched (if_neg hl) rfl

theorem Balanced.recorded {s : State} {leg : Leg} (h : Balanced s leg) (l : Leg) (v : ℚ) :
    Balanced (s.recorded l v) leg := by
  by_cases hl : leg = l
  · subst hl
    refine ⟨?_, ?_, ?_⟩
    · simpa [State.recorded, State.setStats, State.addResult] using h.valid
    · simpa [State.recorded, State.setStats, State.addResult, Stats.reasonTotal]
        using h.failed
    · simpa [State.recorded, State.setStats, State.addResult] using h.counters
  · exact h.untouched (if_neg hl) (if_neg hl)

theorem Balanced.addRetry {s : State} {leg : Leg} (h : Balanced s leg) (l : Leg) :
    Balanced (s.setStats l addRetry) leg := by
  by_cases hl : leg = l
  · subst hl
    refine ⟨?_, ?_, ?_⟩
    · simpa [State.setStats, SslNginx.addRetry] using h.valid
    · simpa [State.setStats, SslNginx.addRetry, Stats.reasonTotal] using h.failed
    · simpa [State.setStats, SslNginx.addRetry] using h.counters
  · exact h.untouched (if_neg hl) rfl

theorem Balanced.addTrace {s : State} {leg : Leg} (h : Balanced s leg) (l : Leg)
    (summary : Summary) : Balanced (s.addTrace l summary) leg :=
  h.untouched rfl rfl

theorem Balanced.setTargets {s : State} {leg : Leg} (h : Balanced s leg) (cfg : Config) :
    Balanced (setTargets cfg s) leg :=
  ⟨h.valid, h.failed, h.counters⟩

theorem balanced_initial (cfg : Config) (leg : Leg) : Balanced (initial cfg) leg := by
  refine ⟨rfl, ?_, fun _ => rfl⟩
  cases leg <;> rfl

/-- The counters add up now and at every mark. -/
structure Booked (k : PyMachine State) : Prop where
  now : ∀ leg, Balanced k.state leg
  marks : ∀ s ∈ k.rounds, ∀ leg, Balanced s leg

theorem quiet_booked (A : Footprint Op Vars) : Quiet A Booked where
  tick := fun _ h => ⟨h.now, h.marks⟩
  answered := fun _ _ _ _ h => ⟨h.now, h.marks⟩
  assigned := fun _ _ _ h => ⟨h.now, h.marks⟩

theorem Booked.marked {k : PyMachine State} (h : Booked k) : Booked k.marked := by
  refine ⟨h.now, fun s hs => ?_⟩
  rcases List.mem_append.mp hs with hs | hs
  · exact h.marks s hs
  · obtain rfl := List.mem_singleton.mp hs
    exact h.now

/-- The state is `s` now and no mark was set since `k`. -/
structure Becomes (k : PyMachine State) (s : State) (k' : PyMachine State) : Prop where
  state : k'.state = s
  rounds : k'.rounds = k.rounds

theorem Booked.becomes {k k' : PyMachine State} {s : State} (h : Booked k)
    (hs : ∀ leg, Balanced s leg) (hk' : Becomes k s k') : Booked k' := by
  refine ⟨fun leg => ?_, fun t ht => ?_⟩
  · rw [hk'.state]
    exact hs leg
  · rw [hk'.rounds] at ht
    exact h.marks t ht

section Undisturbed

variable {ρ : Type} {env : PyEnv} (henv : env.Undisturbed)

include henv

theorem wp_markFailed {leg : Leg} {reason : Reason} {k : PyMachine State}
    {Q : Unit → PyMachine State → Prop} {X : Exit Exc ρ → PyMachine State → Prop}
    (h : ∀ k', Becomes k (k.state.failedOnce leg reason) k' → Q () k') :
    wp env (markFailed leg reason) Q X k := by
  refine wp_bind (wp_update_of henv (wp_bind (wp_read (wp_when ?_ ?_))))
  · intro _
    refine wp_update_of henv (h _ ⟨?_, rfl⟩)
    simp only [Machine.updated, State.failedOnce, State.setStats]
    congr 1
    funext l
    split <;> rfl
  · intro habsent
    refine h _ ⟨?_, rfl⟩
    simp only [Machine.updated, State.setStats, if_true] at habsent ⊢
    simp only [State.failedOnce, State.setStats]
    congr 1
    funext l
    split
    · subst l
      rw [Stats.addReason_of_absent]
      simpa using habsent
    · rfl

theorem wp_record {leg : Leg} {v : ℚ} {k : PyMachine State}
    {Q : Unit → PyMachine State → Prop} {X : Exit Exc ρ → PyMachine State → Prop}
    (h : ∀ k', Becomes k (k.state.recorded leg v) k' → Q () k') :
    wp env (record leg v) Q X k :=
  wp_bind (wp_update_of henv (wp_update_of henv (h _ ⟨rfl, rfl⟩)))

theorem booked_leg (leg : Leg) : KeepsLeg env Booked leg where
  quiet := quiet_booked _
  failed := fun _ hreason _ hk => wp_markFailed henv fun _ hk' =>
    hk.becomes (fun l => (hk.now l).failedOnce hreason) hk'
  recorded := fun v _ _ hk => wp_record henv fun _ hk' =>
    hk.becomes (fun l => (hk.now l).recorded leg v) hk'
  marked := fun _ hk => hk.marked

theorem booked_benchRunner (cfg : Config) (leg : Leg) :
    Maintains env Booked (benchRunner cfg leg : Py State ρ Unit) := by
  refine KeepsLeg.benchRunner (booked_leg henv) (fun leg _ summary hk => ?_)
    (fun k hk => ?_) cfg leg
  · exact hk.becomes (fun l => (hk.now l).addTrace leg summary) ⟨rfl, rfl⟩
  · exact hk.becomes (fun l => (hk.now l).addRetry .bpftimeSslsniff) ⟨rfl, rfl⟩

theorem booked_main (cfg : Config) : Maintains env Booked (main cfg : Py State ρ Unit) := by
  refine maintains_main (quiet_booked _) cfg (fun k hk => ?_) (booked_benchRunner henv cfg)
  exact hk.becomes (fun l => (hk.now l).setTargets cfg) ⟨rfl, rfl⟩

end Undisturbed

theorem booked_start (cfg : Config) : Booked (start cfg) :=
  ⟨balanced_initial cfg, by simp [start]⟩

/-- What the counters of bpftime have gained between two states. -/
structure Adds (s s' : State) (valid failed retries : Nat) : Prop where
  validRuns : (s'.runStats .bpftimeSslsniff).validRuns =
    (s.runStats .bpftimeSslsniff).validRuns + valid
  failedAttempts : (s'.runStats .bpftimeSslsniff).failedAttempts =
    (s.runStats .bpftimeSslsniff).failedAttempts + failed
  retryAttempts : (s'.runStats .bpftimeSslsniff).retryAttempts =
    (s.runStats .bpftimeSslsniff).retryAttempts + retries
  samples : (s'.results .bpftimeSslsniff).length =
    (s.results .bpftimeSslsniff).length + valid

theorem Adds.refl (s : State) : Adds s s 0 0 0 := ⟨rfl, rfl, rfl, rfl⟩

theorem Adds.trans {s s₁ s₂ : State} {v f r v' f' r' : Nat} (h : Adds s s₁ v f r)
    (h' : Adds s₁ s₂ v' f' r') : Adds s s₂ (v + v') (f + f') (r + r') where
  validRuns := by rw [h'.validRuns, h.validRuns, Nat.add_assoc]
  failedAttempts := by rw [h'.failedAttempts, h.failedAttempts, Nat.add_assoc]
  retryAttempts := by rw [h'.retryAttempts, h.retryAttempts, Nat.add_assoc]
  samples := by rw [h'.samples, h.samples, Nat.add_assoc]

theorem adds_failedOnce (s : State) (reason : Reason) :
    Adds s (s.failedOnce .bpftimeSslsniff reason) 0 1 0 := by
  constructor <;> simp [State.failedOnce, State.setStats, Stats.addReason]

theorem adds_recorded (s : State) (v : ℚ) :
    Adds s (s.recorded .bpftimeSslsniff v) 1 0 0 := by
  constructor <;> simp [State.recorded, State.setStats, State.addResult]

theorem adds_addRetry (s : State) :
    Adds s (s.setStats .bpftimeSslsniff addRetry) 0 0 1 := by
  constructor <;> simp [State.setStats, addRetry]

theorem adds_addTrace (s : State) (leg : Leg) (summary : Summary) :
    Adds s (s.addTrace leg summary) 0 0 0 := ⟨rfl, rfl, rfl, rfl⟩

def failedAt (k : PyMachine State) : Nat :=
  (k.state.runStats .bpftimeSslsniff).failedAttempts

/-- The machine after `j` attempts of the run that starts at `k`. -/
def attemptsAfter (env : PyEnv) (k : PyMachine State) (j : Nat) : PyMachine State :=
  afterRounds (ρ := Unit) bpftimeAttempt env k j

/-- Attempt `j` of the run that starts at `k` ends in a failure. -/
def AttemptFails (env : PyEnv) (k : PyMachine State) (j : Nat) : Prop :=
  failedAt (attemptsAfter env k (j + 1)) = failedAt (attemptsAfter env k j) + 1

def AllFail (cfg : Config) (env : PyEnv) (k : PyMachine State) : Prop :=
  ∀ j < (cfg.bpftimeRetries + 1).toNat, AttemptFails env k j

/-- A run of which all attempts failed, or which recorded one sample after some
failures. Each attempt but the first is a retry. -/
def RunEnd (cfg : Config) (env : PyEnv) (k k' : PyMachine State) : Prop :=
  (AllFail cfg env k ∧
      Adds k.state k'.state 0 (cfg.bpftimeRetries.toNat + 1) cfg.bpftimeRetries.toNat) ∨
    (¬AllFail cfg env k ∧ ∃ a ≤ cfg.bpftimeRetries.toNat, Adds k.state k'.state 1 a a)

/-- The machine after `i` runs of the phase. -/
def runsAfter (cfg : Config) (env : PyEnv) (k : PyMachine State) (i : Nat) :
    PyMachine State :=
  afterRounds (ρ := Unit) (bpftimeRun cfg) env k i

section Attempts

variable {env : PyEnv} (henv : env.Undisturbed)

/-- The leg has one failure more than at `k`. -/
def FailsOnce (leg : Leg) (k : PyMachine State) (k' : PyMachine State) : Prop :=
  ∃ reason, Becomes k (k.state.failedOnce leg reason) k'

def RecordsOnce (leg : Leg) (k : PyMachine State) (k' : PyMachine State) : Prop :=
  ∃ v, Becomes k (k.state.recorded leg v) k'

/-- How an attempt may leave its `try` block: having failed by `continue`,
having recorded a sample by `break`. -/
def tryExit (leg : Leg) (k : PyMachine State) : Exit Exc Unit → PyMachine State → Prop
  | .raise e => fun k' => e.ordinary = true ∧ Becomes k k.state k'
  | .ret _ => fun _ => False
  | .brk => RecordsOnce leg k
  | .cont => FailsOnce leg k

theorem Aside.becomes {A : Footprint Op Vars} {k k' : PyMachine State} (h : Aside A k k') :
    Becomes k k.state k' :=
  ⟨h.state, h.rounds⟩

theorem Becomes.trans {k k₁ k₂ : PyMachine State} {s : State}
    (h : Becomes k k.state k₁) (h' : Becomes k₁ s k₂) : Becomes k s k₂ :=
  ⟨h'.state, h'.rounds.trans h.rounds⟩

include henv

theorem wp_fails {leg : Leg} {reason : Reason} {A : Footprint Op Vars} {k₀ k : PyMachine State}
    {Q : Unit → PyMachine State → Prop} {X : Exit Exc Unit → PyMachine State → Prop}
    (hk : Aside A k₀ k) (h : ∀ k', FailsOnce leg k₀ k' → Q () k') :
    wp env (markFailed leg reason) Q X k := by
  refine wp_markFailed henv fun k' hk' => h k' ⟨reason, ?_⟩
  rw [hk.state] at hk'
  exact (Aside.becomes hk).trans hk'

theorem tame_waitForNginxReady {ρ : Type} {A : Footprint Op Vars} {proc : Proc}
    (hA : ∀ op, op.housekeeping = true → A.calls op) :
    Tame env A (waitForNginxReady proc : Py State ρ Bool) :=
  steady_waitForNginxReady (channel_onlyRaise henv _) hA fun _ f => f.exc_ordinary

theorem wp_measure {leg : Leg} {A : Footprint Op Vars} {next : Py State Unit Unit}
    {k₀ k : PyMachine State} {Q : Unit → PyMachine State → Prop}
    {X : Exit Exc Unit → PyMachine State → Prop}
    (hA : A.calls (.act (.run .wrk))) (hk : Aside A k₀ k)
    (hraise : ∀ e k', e.ordinary = true → Aside A k₀ k' → X (.raise e) k')
    (hcont : ∀ k', FailsOnce leg k₀ k' → X .cont k')
    (hfails : ∀ k', FailsOnce leg k₀ k' → Q () k')
    (hnext : ∀ k', RecordsOnce leg k₀ k' → wp env next Q X k') :
    wp env (measure leg next) Q X k := by
  refine wp_bind ((tame_act henv hA).aside hk (fun result k hk => wp_bind (wp_when ?_ ?_))
    hraise)
  · intro _
    exact wp_bind (wp_fails henv hk fun k' hk' => wp_cont (hcont k' hk'))
  · intro _
    cases throughput result.stdout with
    | some v =>
        refine wp_bind (wp_record henv fun k' hk' => hnext k' ⟨v, ?_⟩)
        rw [hk.state] at hk'
        exact (Aside.becomes hk).trans hk'
    | none => exact wp_fails henv hk hfails

theorem wp_bpftimeTry (k₀ : PyMachine State) :
    wp env (bpftimeTry : Py State Unit Unit)
      (fun _ => FailsOnce .bpftimeSslsniff k₀) (tryExit .bpftimeSslsniff k₀) k₀ := by
  have hraise (e : Exc) (k : PyMachine State) (he : e.ordinary = true)
      (hk : Aside Footprint.all k₀ k) : tryExit .bpftimeSslsniff k₀ (.raise e) k :=
    ⟨he, Aside.becomes hk⟩
  have hk := Aside.refl Footprint.all k₀
  refine wp_bind ((tame_popen henv trivial trivial).aside hk (fun _ k hk => wp_bind ?_) hraise)
  refine (silent_ask henv trivial).aside hk fun _ k hk => wp_bind ?_
  refine (silent_ask henv trivial).aside hk fun _ k hk => wp_bind (wp_when ?_ ?_)
  · intro _
    exact wp_bind (wp_fails henv hk fun k' hk' => wp_cont hk')
  intro _
  refine wp_bind ((tame_popen henv trivial trivial).aside hk (fun _ k hk => wp_bind ?_) hraise)
  refine (silent_ask henv trivial).aside hk fun _ k hk => wp_bind ?_
  refine (tame_waitForNginxReady henv fun _ _ => trivial).aside hk
    (fun _ k hk => wp_bind (wp_when ?_ ?_)) hraise
  · intro _
    exact wp_bind (wp_fails henv hk fun k' hk' => wp_cont hk')
  · intro _
    exact wp_measure henv trivial hk hraise (fun _ hk' => hk') (fun _ hk' => hk')
      fun _ hk' => wp_brk hk'

/-- An attempt is the first of its run or counts as a retry. -/
def retriesOf (attempt : Nat) : Nat := if attempt = 0 then 0 else 1

/-- An attempt is over with `continue`, having failed, or with `break`, having
recorded a sample. -/
def attemptExit (k : PyMachine State) (attempt : Nat) :
    Exit Exc Unit → PyMachine State → Prop
  | .raise _ => fun _ => False
  | .ret _ => fun _ => False
  | .brk => fun k' => Adds k.state k'.state 1 0 (retriesOf attempt)
  | .cont => fun k' => Adds k.state k'.state 0 1 (retriesOf attempt)

/-- The cleanup after an attempt neither raises nor touches the record. -/
theorem silent_bpftimeFinally : Silent env Footprint.all (bpftimeFinally : Py State Unit Unit) := by
  refine steady_bind (silent_ignoring ?_) fun _ => ?_
  · refine steady_bind tame_holds fun _ => steady_ite ?_ steady_pure
    exact steady_bind (tame_act henv trivial) fun _ => tame_act henv trivial
  · refine steady_bind (silent_terminateProcess henv fun _ _ => trivial) fun _ => ?_
    exact silent_cleanupProcesses henv fun _ _ => trivial

omit henv in
theorem FailsOnce.adds {k k' : PyMachine State} (h : FailsOnce .bpftimeSslsniff k k') :
    Adds k.state k'.state 0 1 0 := by
  obtain ⟨reason, h⟩ := h
  rw [h.state]
  exact adds_failedOnce k.state reason

omit henv in
theorem RecordsOnce.adds {k k' : PyMachine State} (h : RecordsOnce .bpftimeSslsniff k k') :
    Adds k.state k'.state 1 0 0 := by
  obtain ⟨v, h⟩ := h
  rw [h.state]
  exact adds_recorded k.state v

/-- The `try` block of an attempt with its handlers: it fails once or records a
sample. -/
theorem wp_bpftimeTried (k : PyMachine State) :
    wp env (Script.tryExcept bpftimeTry
        (onTimeout (markFailed .bpftimeSslsniff .timeouts)
          (markFailed .bpftimeSslsniff .exceptions)) : Py State Unit Unit)
      (fun _ => FailsOnce .bpftimeSslsniff k)
      (raising (fun _ _ => False) (tryExit .bpftimeSslsniff k)) k := by
  refine @wp_tryExcept _ _ _ _ _ _ _ _ _ _ _ _ _
    (fun e k' => e.ordinary = true ∧ Becomes k k.state k') ?_ ?_
  · refine wp_mono (wp_bpftimeTry henv k) (fun _ _ h => h) fun x k' hx => ?_
    cases x <;> exact hx
  · intro e k' hk'
    have hfails (reason : Reason) : wp env
        (markFailed .bpftimeSslsniff reason : Py State Unit Unit)
        (fun _ => FailsOnce .bpftimeSslsniff k)
        (raising (fun _ _ => False) (tryExit .bpftimeSslsniff k)) k' := by
      refine wp_markFailed henv fun k'' hk'' => ⟨reason, ?_⟩
      rw [hk'.2.state] at hk''
      exact hk'.2.trans hk''
    cases e with
    | timeoutExpired => exact hfails .timeouts
    | other => exact hfails .exceptions
    | keyboardInterrupt => exact absurd hk'.1 (by decide)
    | systemExit code => exact absurd hk'.1 (by simp [Exc.ordinary])

/-- The attempt after its retry has been counted. -/
theorem wp_bpftimeCounted {attempt : Nat} {k k₁ : PyMachine State}
    (hk₁ : Adds k.state k₁.state 0 0 (retriesOf attempt)) :
    wp env (do
      setProc .nginx false
      setProc (.tracer .userspace) false
      Script.tryFinally
        (Script.tryExcept bpftimeTry
          (onTimeout (markFailed .bpftimeSslsniff .timeouts)
            (markFailed .bpftimeSslsniff .exceptions)))
        bpftimeFinally : Py State Unit Unit)
      (fun _ k' => Adds k.state k'.state 0 1 (retriesOf attempt))
      (attemptExit k attempt) k₁ := by
  refine wp_bind ((silent_setProc henv trivial).aside (Aside.refl Footprint.all k₁) ?_)
  refine fun _ k₂ hk₂ => wp_bind ((silent_setProc henv trivial).aside hk₂ fun _ k₃ hk₃ => ?_)
  have hbefore : Adds k.state k₃.state 0 0 (retriesOf attempt) := by
    rw [hk₃.state]
    exact hk₁
  refine wp_tryFinally (wp_mono (wp_bpftimeTried henv k₃) ?_ ?_)
  · intro _ k' hk'
    refine (silent_bpftimeFinally henv).aside (Aside.refl _ k') fun _ k'' hk'' => ?_
    rw [hk''.state]
    simpa using hbefore.trans hk'.adds
  · intro x k' hx
    refine (silent_bpftimeFinally henv).aside (Aside.refl _ k') fun _ k'' hk'' => ?_
    cases x with
    | raise e => exact hx
    | ret v => exact hx
    | brk =>
        have hadds := hbefore.trans (RecordsOnce.adds hx)
        simpa [attemptExit, hk''.state] using hadds
    | cont =>
        have hadds := hbefore.trans (FailsOnce.adds hx)
        simpa [attemptExit, hk''.state] using hadds

theorem wp_bpftimeAttempt (attempt : Nat) (k : PyMachine State) :
    wp env (bpftimeAttempt attempt : Py State Unit Unit)
      (fun _ k' => Adds k.state k'.state 0 1 (retriesOf attempt))
      (attemptExit k attempt) k := by
  refine wp_bind (wp_when (fun hne => ?_) (fun heq => ?_))
  · refine wp_update_of henv (wp_bpftimeCounted henv ?_)
    have hretry : Adds k.state (k.state.setStats .bpftimeSslsniff addRetry) 0 0
        (retriesOf attempt) := by
      simpa [retriesOf, hne] using adds_addRetry k.state
    exact hretry
  · refine wp_bpftimeCounted henv ?_
    have hzero : attempt = 0 := by simpa using heq
    simpa [retriesOf, hzero] using Adds.refl k.state

omit henv in
theorem roundSucceeds {j : Nat} {k₁ k₂ : PyMachine State}
    (h : Adds k₁.state k₂.state 1 0 (retriesOf j)) :
    failedAt k₂ ≠ failedAt k₁ + 1 := by
  have hfailed := h.failedAttempts
  simp only [failedAt]
  omega

theorem wp_bpftimeRun {cfg : Config} (hretries : 0 ≤ cfg.bpftimeRetries) (i : Nat)
    (k : PyMachine State) :
    wp env (bpftimeRun cfg i : Py State Unit Unit) (fun _ => RunEnd cfg env k)
      (fun _ _ => False) k := by
  have hattempts : (cfg.bpftimeRetries + 1).toNat = cfg.bpftimeRetries.toNat + 1 := by
    omega
  refine wp_bind (wp_mono (@wp_forRange _ _ _ _ _ _ env k (fun _ _ => False) bpftimeAttempt
    (fun j k' => k' = attemptsAfter env k j ∧
      (∀ i < j, AttemptFails env k i) ∧ Adds k.state k'.state 0 j (j - 1))
    (fun _ => RunEnd cfg env k) _ ?_ ?_ ?_)
    (fun _ _ h => wp_pure h) (fun _ _ h => h))
  · rintro j k₁ hj ⟨rfl, hfailed, hadds⟩
    have hretry : j - 1 + retriesOf j = j := by
      unfold retriesOf
      split <;> omega
    -- what holds when the attempt has failed, by either way
    have hnext {k₂ : PyMachine State}
        (hstep : Adds (attemptsAfter env k j).state k₂.state 0 1 (retriesOf j))
        (hend : k₂ = (bpftimeAttempt (ρ := Unit) j env (attemptsAfter env k j)).2) :
        k₂.marked = attemptsAfter env k (j + 1) ∧
          (∀ i < j + 1, AttemptFails env k i) ∧
          Adds k.state k₂.marked.state 0 (j + 1) (j + 1 - 1) := by
      have hat : k₂.marked = attemptsAfter env k (j + 1) := by
        rw [hend]
        rfl
      refine ⟨hat, fun i hi => ?_, ?_⟩
      · rcases Nat.lt_succ_iff_lt_or_eq.mp hi with hlt | rfl
        · exact hfailed i hlt
        · unfold AttemptFails
          rw [← hat]
          exact hstep.failedAttempts
      · have hsum := hadds.trans hstep
        rw [hretry] at hsum
        simpa using hsum
    refine wp_mono (wp_and (wp_bpftimeAttempt henv j _) wp_end) ?_ ?_
    · rintro _ k₂ ⟨hstep, hend⟩
      exact hnext hstep hend
    · rintro x k₂ ⟨hx, hend⟩
      cases x with
      | raise e => exact hx
      | ret v => exact hx
      | cont => exact hnext hx hend
      | brk =>
          refine .inr ⟨fun hall => ?_, j, by omega, ?_⟩
          · have hfails := hall j hj
            unfold AttemptFails at hfails
            have hat : k₂.marked = attemptsAfter env k (j + 1) := by
              rw [hend]
              rfl
            rw [← hat] at hfails
            exact roundSucceeds hx hfails
          · have hsum := hadds.trans hx
            rw [hretry] at hsum
            simpa using hsum
  · rintro k₁ ⟨_, hfailed, hadds⟩
    refine .inl ⟨hfailed, ?_⟩
    rw [hattempts] at hadds
    simpa using hadds
  · exact ⟨rfl, fun i hi => by omega, Adds.refl k.state⟩

theorem runEnd_afterRounds {cfg : Config} (hretries : 0 ≤ cfg.bpftimeRetries)
    (k : PyMachine State) (i : Nat) :
    RunEnd cfg env (runsAfter cfg env k i) (runsAfter cfg env k (i + 1)) := by
  have hrun := wp_and (wp_bpftimeRun henv hretries i (runsAfter cfg env k i)) wp_end
  have hboth : wp env (bpftimeRun cfg i : Py State Unit Unit)
      (fun _ _ => RunEnd cfg env (runsAfter cfg env k i) (runsAfter cfg env k (i + 1)))
      (fun _ _ => RunEnd cfg env (runsAfter cfg env k i) (runsAfter cfg env k (i + 1)))
      (runsAfter cfg env k i) := by
    refine wp_mono hrun (fun _ k' h => ?_) (fun _ _ h => h.1.elim)
    rw [h.2] at h
    exact h.1
  unfold wp at hboth
  split at hboth
  · exact hboth
  · exact hboth

/-- The runs of a phase, with each run closing as `RunEnd` says. -/
theorem runs_add {cfg : Config} (hretries : 0 ≤ cfg.bpftimeRetries) (k : PyMachine State)
    (n : Nat) :
    ∃ valid failed retries, Adds k.state (runsAfter cfg env k n).state valid failed retries ∧
      valid + failed = n + retries ∧ valid ≤ n ∧
      (valid < n ↔ ∃ i < n, AllFail cfg env (runsAfter cfg env k i)) := by
  induction n with
  | zero => exact ⟨0, 0, 0, Adds.refl k.state, rfl, le_rfl, by simp⟩
  | succ n ih =>
      obtain ⟨valid, failed, retries, hadds, hsum, hle, hiff⟩ := ih
      rcases runEnd_afterRounds henv hretries k n with ⟨hall, hrun⟩ | ⟨hsome, a, ha, hrun⟩
      · refine ⟨_, _, _, hadds.trans hrun, by omega, by omega, ?_⟩
        refine ⟨fun _ => ⟨n, by omega, hall⟩, fun _ => by omega⟩
      · refine ⟨_, _, _, hadds.trans hrun, by omega, by omega, ?_⟩
        constructor
        · intro hlt
          obtain ⟨i, hi, hfails⟩ := hiff.mp (by omega)
          exact ⟨i, by omega, hfails⟩
        · rintro ⟨i, hi, hfails⟩
          rcases Nat.lt_succ_iff_lt_or_eq.mp hi with hlt | rfl
          · have hbefore := hiff.mpr ⟨i, hlt, hfails⟩
            omega
          · exact absurd hfails hsome

theorem bpftimeRuns_eq {cfg : Config} (hretries : 0 ≤ cfg.bpftimeRetries)
    (k : PyMachine State) :
    bpftimeRuns cfg env k =
      ((.ok () : Except (Exit Exc Unit) Unit), runsAfter cfg env k cfg.numRuns.toNat) := by
  have hloop : Script.forRange cfg.numRuns.toNat (bpftimeRun cfg) env k =
      ((.ok true : Except (Exit Exc Unit) Bool), runsAfter cfg env k cfg.numRuns.toNat) := by
    refine forRange_ok_iff.mpr ⟨fun i _ => ?_, rfl⟩
    exact wp_mono (wp_bpftimeRun henv hretries i _) (fun _ _ _ => trivial)
      (fun _ _ h => h.elim)
  show Script.bind _ _ env k = _
  unfold Script.bind
  rw [hloop]
  rfl

/-- A preflight that goes on to the runs has counted nothing. -/
theorem adds_bpftimePreflight {k k₁ : PyMachine State}
    (h : bpftimePreflight env k = (.ok (), k₁)) : Adds k.state k₁.state 0 0 0 := by
  have hquiet : Quiet Footprint.all fun k' : PyMachine State =>
      Adds k.state k'.state 0 0 0 :=
    ⟨fun _ hk => hk, fun _ _ _ _ hk => hk, fun _ _ _ hk => hk⟩
  have hadded (k' : PyMachine State) (summary : Summary) (hk : Adds k.state k'.state 0 0 0) :
      Adds k.state (k'.state.addTrace .bpftimeSslsniff summary) 0 0 0 :=
    hk.trans (adds_addTrace k'.state .bpftimeSslsniff summary)
  have htrace : KeepsTrace (fun k' => Adds k.state k'.state 0 0 0)
      (fun k' => Adds k.state k'.state 0 0 0) .bpftimeSslsniff :=
    ⟨hquiet, hquiet, fun _ hk => hk, hadded, fun k' summary hk _ => hadded k' summary hk⟩
  have hfailed (reason : Reason) (_ : Leg.bpftimeSslsniff.counts reason = true)
      (k' : PyMachine State) (_ : Adds k.state k'.state 0 0 0) :
      wp env (markFailed .bpftimeSslsniff reason : Py State Unit Unit) (fun _ _ => True)
        (fun _ _ => True) k' :=
    wp_markFailed henv fun _ _ => trivial
  have hwp := htrace.bpftimePreflight rfl (Quiet.const _ True) (fun _ _ => trivial)
    hfailed (Adds.refl k.state)
  unfold wp at hwp
  rw [h] at hwp
  exact hwp

end Attempts

/-- `main` up to the preflight of a bpftime phase that comes after `earlier`, with whether
its loop has not been left before. -/
def uptoPreflight (cfg : Config) (earlier : List Text) : Py State Unit Bool := do
  Script.update (setTargets cfg)
  mainChecks
  let on ← Script.forEach earlier (runPhase cfg)
  bpftimeChecks
  pure on

/-- `main` after a phase that `later` follows. -/
def afterPhase (cfg : Config) (later : List Text) : Py State Unit Unit := do
  let _ ← Script.forEach later (runPhase cfg)
  saveAndCheck cfg

/-- A bpftime phase that is traced to its end is one of `main`, which goes on after it. -/
theorem mainBody_of_traced {cfg : Config} {env : PyEnv} {earlier later : List Text} {name : Text}
    {k₀ k k₁ : PyMachine State} (horder : cfg.benchOrder = earlier ++ name :: later)
    (hname : benchResultKeys name = some .bpftimeSslsniff)
    (hupto : uptoPreflight cfg earlier env k₀ = (.ok true, k))
    (htraced : bpftimeTraced cfg env k = (.ok (), k₁)) :
    mainBody cfg env k₀ = afterPhase cfg later env k₁ := by
  obtain ⟨_, ka, hupdate, hupto⟩ := ok_of_bind hupto
  obtain ⟨_, kb, hchecks, hupto⟩ := ok_of_bind hupto
  obtain ⟨on, kc, hloop, hupto⟩ := ok_of_bind hupto
  obtain ⟨_, kd, hphase, hend⟩ := ok_of_bind hupto
  cases hend
  have hrunner : (runPhase cfg name : Py State Unit Unit) env kc = (.ok (), k₁) := by
    rw [runPhase, hname]
    exact func_of_ok ((bind_of_ok hphase).trans htraced)
  have hround : (Script.forEach (name :: later) (runPhase cfg) : Py State Unit Bool) env kc =
      Script.forEach later (runPhase cfg) env k₁ :=
    (bind_of_ok (round_of_ok hrunner)).trans rfl
  have hphases : (Script.forEach cfg.benchOrder (runPhase cfg) : Py State Unit Bool) env kb =
      Script.forEach later (runPhase cfg) env k₁ := by
    rw [horder, forEach_append]
    exact (bind_of_ok hloop).trans hround
  rw [mainBody_eq, phases, bind_assoc, bind_of_ok hupdate, bind_assoc, bind_of_ok hchecks,
    runPhases, bind_assoc, afterPhase]
  show Script.bind _ _ env kb = Script.bind _ _ env k₁
  unfold Script.bind
  rw [hphases]
  rfl

/-- The counters of bpftime are as they were at the start. -/
def Unused (k : PyMachine State) : Prop := Adds (initial ⟨0, 0, []⟩) k.state 0 0 0

theorem quiet_unused : Quiet Footprint.all Unused :=
  ⟨fun _ hk => hk, fun _ _ _ _ hk => hk, fun _ _ _ hk => hk⟩

theorem keepsLeg_unused {env : PyEnv} {leg : Leg} (hleg : Leg.bpftimeSslsniff ≠ leg) :
    KeepsLeg env Unused leg where
  quiet := quiet_unused
  failed := by
    intro reason _
    refine maintains_markFailed quiet_unused fun k f hk => ?_
    constructor <;> simp [Machine.updated, State.setStats, hleg, hk.validRuns,
      hk.failedAttempts, hk.retryAttempts, hk.samples]
  recorded := by
    intro v _
    refine maintains_bind (maintains_update quiet_unused fun k hk => ?_) fun _ =>
      maintains_update quiet_unused fun k hk => ?_
    all_goals
      constructor <;> simp [Machine.updated, State.setStats, State.addResult, hleg,
        hk.validRuns, hk.failedAttempts, hk.retryAttempts, hk.samples]
  marked := fun _ hk => hk

/-- The phases of the other legs leave the counters of bpftime alone. -/
theorem maintains_unused {env : PyEnv} {leg : Leg} (cfg : Config)
    (hleg : Leg.bpftimeSslsniff ≠ leg) :
    Maintains env Unused (benchRunner cfg leg : Py State Unit Unit) := by
  have htrace : KeepsTrace Unused Unused leg :=
    ⟨quiet_unused, quiet_unused, fun _ hk => hk,
      fun k summary hk => hk.trans (adds_addTrace k.state leg summary),
      fun k summary hk _ => hk.trans (adds_addTrace k.state leg summary)⟩
  cases leg with
  | baseline =>
      refine maintains_runBaseline quiet_unused cfg ?_
      exact maintains_baselineRuns (keepsLeg_unused hleg) cfg
  | kernelSslsniff =>
      refine maintains_runKernelSslsniff quiet_unused cfg ?_
      exact htrace.kernelTraced cfg rfl ((keepsLeg_unused hleg).failed _ rfl)
        (keepsLeg_unused hleg)
  | bpftimeSslsniff => exact absurd rfl hleg

theorem unused_uptoPreflight {cfg : Config} {env : PyEnv} {earlier : List Text}
    {k : PyMachine State}
    (hfirst : ∀ name ∈ earlier, benchResultKeys name ≠ some .bpftimeSslsniff)
    (hk : uptoPreflight cfg earlier env (start cfg) = (.ok true, k)) : Unused k := by
  have hupto : Maintains env Unused (uptoPreflight cfg earlier) := by
    refine maintains_bind (maintains_update quiet_unused fun k hk => ?_) fun _ => ?_
    · exact ⟨hk.validRuns, hk.failedAttempts, hk.retryAttempts, hk.samples⟩
    refine maintains_bind (maintains_checkEnvironment quiet_unused fun _ => trivial)
      fun _ => ?_
    refine maintains_bind (maintains_forEach fun name hname => ?_) fun _ =>
      maintains_bind (maintains_bpftimeChecks quiet_unused) fun _ => maintains_pure
    unfold runPhase
    cases hkey : benchResultKeys name with
    | none => exact maintains_raise
    | some leg =>
        refine maintains_unused _ fun hleg => hfirst name hname ?_
        rw [hkey, hleg]
  have hend := hupto.at_end (k := start cfg) ⟨rfl, rfl, rfl, rfl⟩
  rw [hk] at hend
  exact hend

/-- The counters of bpftime add up: its valid runs and failed attempts are the
runs of one phase and its retries, and runs are missing where all attempts failed. -/
structure Totals (cfg : Config) (s : State) (allFailed : Prop) : Prop where
  attempts : ((s.runStats .bpftimeSslsniff).validRuns : Int) +
    (s.runStats .bpftimeSslsniff).failedAttempts =
      cfg.numRuns + (s.runStats .bpftimeSslsniff).retryAttempts
  missing : ((s.runStats .bpftimeSslsniff).validRuns : Int) < cfg.numRuns ↔ allFailed

/-- What one phase adds is all there is while the counters were unused before. -/
theorem totals_of_adds {cfg : Config} {s : State} {valid failed retries : Nat} {allFailed : Prop}
    (hadds : Adds (initial ⟨0, 0, []⟩) s valid failed retries)
    (hattempts : (valid : Int) + failed = cfg.numRuns + retries)
    (hmissing : (valid : Int) < cfg.numRuns ↔ allFailed) : Totals cfg s allFailed := by
  have hvalid := hadds.validRuns
  have hfailed := hadds.failedAttempts
  have hretried := hadds.retryAttempts
  simp only [initial, initialStats, Nat.zero_add] at hvalid hfailed hretried
  constructor
  · rw [hvalid, hfailed, hretried]
    exact hattempts
  · rw [hvalid]
    exact hmissing

/-- Run accounting of `ssl-nginx` when no signal arrives. At every mark, that is
after every run and attempt, a leg's valid runs are its samples and its failed
attempts the sum of its counters of failures. A bpftime phase whose preflight
passes goes through all its runs, and what it adds to the counters of its leg
adds up. Where it is one of `main`, `main` goes on from there, and after the first
bpftime phase the counters themselves add up. -/
theorem accounting_exact (cfg : Config) (env : PyEnv) (henv : env.Undisturbed)
    (hruns : 0 ≤ cfg.numRuns) (hretries : 0 ≤ cfg.bpftimeRetries) :
    (∀ s ∈ (main (ρ := Unit) cfg env (start cfg)).2.rounds, ∀ leg,
      (s.runStats leg).validRuns = (s.results leg).length ∧
        (s.runStats leg).failedAttempts = (s.runStats leg).reasonTotal) ∧
    ∀ k k₁, bpftimePreflight env k = (.ok (), k₁) →
      bpftimeTraced cfg env k = (.ok (), runsAfter cfg env k₁ cfg.numRuns.toNat) ∧
      (∀ i, ((runsAfter cfg env k₁ (i + 1)).state.results .bpftimeSslsniff).length ≤
        ((runsAfter cfg env k₁ i).state.results .bpftimeSslsniff).length + 1) ∧
      (∃ valid failed retries : Nat,
        Adds k.state (runsAfter cfg env k₁ cfg.numRuns.toNat).state valid failed retries ∧
        (valid : Int) + failed = cfg.numRuns + retries ∧
        ((valid : Int) < cfg.numRuns ↔
          ∃ i < cfg.numRuns.toNat, AllFail cfg env (runsAfter cfg env k₁ i))) ∧
      ∀ earlier name later, cfg.benchOrder = earlier ++ name :: later →
        benchResultKeys name = some .bpftimeSslsniff →
        uptoPreflight cfg earlier env (start cfg) = (.ok true, k) →
        mainBody cfg env (start cfg) =
          afterPhase cfg later env (runsAfter cfg env k₁ cfg.numRuns.toNat) ∧
        ((∀ name ∈ earlier, benchResultKeys name ≠ some .bpftimeSslsniff) →
          Totals cfg (runsAfter cfg env k₁ cfg.numRuns.toNat).state
            (∃ i < cfg.numRuns.toNat, AllFail cfg env (runsAfter cfg env k₁ i))) := by
  refine ⟨fun s hs leg => ?_, fun k k₁ hpre => ?_⟩
  · have hend : Booked (main (ρ := Unit) cfg env (start cfg)).2 :=
      (booked_main henv cfg).at_end (booked_start cfg)
    exact ⟨(hend.marks s hs leg).valid, (hend.marks s hs leg).failed⟩
  obtain ⟨valid, failed, retries, hadds, hsum, _, hiff⟩ :=
    runs_add henv hretries k₁ cfg.numRuns.toNat
  have hfrom := (adds_bpftimePreflight henv hpre).trans hadds
  simp only [Nat.zero_add] at hfrom
  have hn : (cfg.numRuns.toNat : Int) = cfg.numRuns := Int.toNat_of_nonneg hruns
  have hattempts : (valid : Int) + failed = cfg.numRuns + retries := by
    rw [← hn]
    exact_mod_cast hsum
  have hmissing : (valid : Int) < cfg.numRuns ↔
      ∃ i < cfg.numRuns.toNat, AllFail cfg env (runsAfter cfg env k₁ i) := by
    rw [← hiff, ← hn]
    exact Int.ofNat_lt
  have htraced : bpftimeTraced cfg env k = (.ok (), runsAfter cfg env k₁ cfg.numRuns.toNat) :=
    (bind_of_ok hpre).trans (bpftimeRuns_eq henv hretries k₁)
  refine ⟨htraced, fun i => ?_, ⟨valid, failed, retries, hfrom, hattempts, hmissing⟩, ?_⟩
  · rcases runEnd_afterRounds henv hretries k₁ i with ⟨_, hrun⟩ | ⟨_, a, _, hrun⟩
    · exact hrun.samples.le.trans (by omega)
    · exact hrun.samples.le
  · intro earlier name later horder hname hupto
    refine ⟨mainBody_of_traced horder hname hupto htraced, fun hfirst => ?_⟩
    have htotal := Adds.trans (unused_uptoPreflight hfirst hupto) hfrom
    simp only [Nat.zero_add] at htotal
    exact totals_of_adds htotal hattempts hmissing

def effectiveTrace : Text := "OpenSSL path: libssl.so\nHANDSHAKE".toList

/-- Everything works, except that `wrk` fails early on. -/
def lateWrk : PyEnv where
  answer := fun n op =>
    match op with
    | .act (.run .wrk) => .ok ⟨if n < 80 then 1 else 0, "Requests/sec: 20.5".toList, []⟩
    | op => smoothReply effectiveTrace op
  interrupt := fun _ => none

/-- Everything works. -/
def smooth : PyEnv where
  answer := fun _ op => smoothReply effectiveTrace op
  interrupt := fun _ => none

def namedTwice : Config := ⟨1, 0, ["bpftime".toList, "bpftime".toList]⟩

/-- The state before the second of its phases, and after the preflight. -/
def secondPhase : PyMachine State :=
  (uptoPreflight namedTwice ["bpftime".toList] smooth (start namedTwice)).2

def secondTraced : PyMachine State := (bpftimePreflight smooth secondPhase).2

/-- The second phase ends with two valid runs, of one run and no retry. -/
theorem totals_off_after_second_phase :
    smooth.Undisturbed ∧
    uptoPreflight namedTwice ["bpftime".toList] smooth (start namedTwice) =
      (.ok true, secondPhase) ∧
    bpftimePreflight smooth secondPhase = (.ok (), secondTraced) ∧
    ¬ Totals namedTwice
      (runsAfter namedTwice smooth secondTraced namedTwice.numRuns.toNat).state
      (∃ i < namedTwice.numRuns.toNat,
        AllFail namedTwice smooth (runsAfter namedTwice smooth secondTraced i)) := by
  refine ⟨fun _ => rfl, eq_ok_of_toOption (by decide +kernel),
    eq_ok_of_toOption (by decide +kernel), ?_⟩
  intro htotals
  have hoff : ((runsAfter namedTwice smooth secondTraced
      namedTwice.numRuns.toNat).state.runStats .bpftimeSslsniff).validRuns = 2 ∧
    ((runsAfter namedTwice smooth secondTraced
      namedTwice.numRuns.toNat).state.runStats .bpftimeSslsniff).failedAttempts = 0 ∧
    ((runsAfter namedTwice smooth secondTraced
      namedTwice.numRuns.toNat).state.runStats .bpftimeSslsniff).retryAttempts = 0 := by
    decide +kernel
  obtain ⟨hvalid, hfailed, hretries⟩ := hoff
  have hattempts := htotals.attempts
  rw [hvalid, hfailed, hretries] at hattempts
  revert hattempts
  decide

def oneRetry : Config := ⟨1, 1, ["bpftime".toList]⟩

/-- The state before the phase of `main`, and after its preflight. -/
def firstPhase : PyMachine State := (uptoPreflight oneRetry [] lateWrk (start oneRetry)).2

def firstTraced : PyMachine State := (bpftimePreflight lateWrk firstPhase).2

/-- The first attempt fails and the second one records a sample. -/
theorem accounting_exact_oneRetry :
    Totals oneRetry (runsAfter oneRetry lateWrk firstTraced oneRetry.numRuns.toNat).state
      (∃ i < oneRetry.numRuns.toNat,
        AllFail oneRetry lateWrk (runsAfter oneRetry lateWrk firstTraced i)) ∧
    ((runsAfter oneRetry lateWrk firstTraced
      oneRetry.numRuns.toNat).state.runStats .bpftimeSslsniff).retryAttempts = 1 := by
  have hupto : uptoPreflight oneRetry [] lateWrk (start oneRetry) = (.ok true, firstPhase) :=
    eq_ok_of_toOption (by decide +kernel)
  have hpre : bpftimePreflight lateWrk firstPhase = (.ok (), firstTraced) :=
    eq_ok_of_toOption (by decide +kernel)
  have h := (accounting_exact oneRetry lateWrk (fun _ => rfl) (by decide) (by decide)).2 _ _ hpre
  have hmain := h.2.2.2 [] "bpftime".toList [] rfl (by decide) hupto
  refine ⟨hmain.2 fun name hname => ?_, by decide +kernel⟩
  exact absurd hname List.not_mem_nil

end BpftimeBenchmark.Bench.SslNginx
