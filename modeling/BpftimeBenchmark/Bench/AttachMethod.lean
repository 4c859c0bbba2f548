import BpftimeBenchmark.Bench.SyscallRules

/-!
Where the samples of `userspace_syscall` come from. The runs through the command
`bpftime` come first; the runs with `LD_PRELOAD` are made only if these have left no
sample.
-/

namespace BpftimeBenchmark.Bench.Syscall

open Scripts Script

/-- The sample that a call gives, if it is a run of this command. -/
def sampleOf (command : Command) : Call → Option ℚ
  | ⟨.act (.run c), .ok result⟩ =>
      if c = command ∧ result.returncode = 0 then avgTime result.stdout else none
  | _ => none

def isRunOf (command : Command) : Call → Bool
  | ⟨.act (.run c), _⟩ => c = command
  | _ => false

def samplesOf (command : Command) (calls : List Call) : List ℚ :=
  calls.filterMap (sampleOf command)

/-- How often the calls run this command. -/
def runsOf (command : Command) (calls : List Call) : Nat := calls.countP (isRunOf command)

/-- A signal is Ctrl+C, the only one that raises in a script without handlers. -/
def CtrlC (env : PyEnv) : Prop := ∀ n e, env.interrupt n = some e → e = .keyboardInterrupt

/-- What `except Exception` catches. -/
def caught : Exc → Bool
  | .timeoutExpired => true
  | .other => true
  | .keyboardInterrupt => false
  | .systemExit _ => false

/-- What the calls tell about the two methods. -/
structure Ledger where
  byCommand : List ℚ
  byPreload : List ℚ
  preloadRuns : Nat

def ledger (calls : List Call) : Ledger :=
  ⟨samplesOf .bpftimeStart calls, samplesOf .victimWithAgent calls,
    runsOf .victimWithAgent calls⟩

def Ledger.add (l : Ledger) (c : Call) : Ledger :=
  ⟨l.byCommand ++ (sampleOf .bpftimeStart c).toList,
    l.byPreload ++ (sampleOf .victimWithAgent c).toList,
    l.preloadRuns + if isRunOf .victimWithAgent c then 1 else 0⟩

theorem ledger_concat (calls : List Call) (c : Call) :
    ledger (calls ++ [c]) = (ledger calls).add c := by
  have hsamples : ∀ command,
      samplesOf command (calls ++ [c]) =
        samplesOf command calls ++ (sampleOf command c).toList := by
    intro command
    rw [samplesOf, List.filterMap_append]
    cases h : sampleOf command c <;> simp [samplesOf, h]
  simp [ledger, Ledger.add, hsamples, runsOf, List.countP_append, List.countP_singleton]

theorem Ledger.add_unmeasured (l : Ledger) {op : Op} (h : op.unmeasured = true) (r : op.Reply) :
    l.add ⟨op, r⟩ = l := by
  have hsample : ∀ command, command = .bpftimeStart ∨ command = .victimWithAgent →
      sampleOf command ⟨op, r⟩ = none := by
    intro command hcommand
    unfold sampleOf
    split
    · rename_i c result heq
      cases heq
      rw [if_neg]
      rintro ⟨rfl, -⟩
      rcases hcommand with rfl | rfl <;> cases h
    · rfl
  have hrun : isRunOf .victimWithAgent ⟨op, r⟩ = false := by
    unfold isRunOf
    split
    · rename_i c result heq
      cases heq
      rw [decide_eq_false_iff_not]
      rintro rfl
      cases h
    · rfl
  simp [Ledger.add, hsample .bpftimeStart (Or.inl rfl),
    hsample .victimWithAgent (Or.inr rfl), hrun]

/-- `P` holds of the samples and of what the calls since `old` tell. -/
def Since (old : List Call) (P : List ℚ → Ledger → Prop) (k : PyMachine) : Prop :=
  ∃ new, k.calls = old ++ new ∧ P (k.state.results .userspaceSyscall) (ledger new)

variable {host : Host} {env : PyEnv} {ρ : Type} {old : List Call}
  {P P' : List ℚ → Ledger → Prop} {k : PyMachine}

theorem Since.mono (h : Since old P k) (himp : ∀ s l, P s l → P' s l) : Since old P' k := by
  obtain ⟨new, hnew, hP⟩ := h
  exact ⟨new, hnew, himp _ _ hP⟩

theorem Since.answered (h : Since old P k) {op : Op} {r : op.Reply}
    (himp : ∀ l, P (k.state.results .userspaceSyscall) l →
      P' (k.state.results .userspaceSyscall) (l.add ⟨op, r⟩)) :
    Since old P' (k.answered op r) := by
  obtain ⟨new, hnew, hP⟩ := h
  refine ⟨new ++ [⟨op, r⟩], ?_, ?_⟩
  · show k.calls ++ [⟨op, r⟩] = old ++ (new ++ [⟨op, r⟩])
    rw [hnew, List.append_assoc]
  · rw [ledger_concat]
    exact himp _ hP

theorem bystander_since : Bystander host env unmeasured (Since old P) := by
  refine bystander_of_results ⟨?_, ?_, ?_⟩ ?_ ?_
  · exact fun _ hk => hk
  · intro k op r hop hk
    refine hk.answered fun l hl => ?_
    rwa [l.add_unmeasured hop]
  · exact fun _ _ _ hk => hk
  · rintro k f hf ⟨new, hnew, hP⟩
    refine ⟨new, hnew, ?_⟩
    show P ((f k.state).results .userspaceSyscall) (ledger new)
    rwa [hf]
  · exact fun _ hk => hk

/-- After `i` runs through the command. -/
def ByCommand (i : Nat) (samples : List ℚ) (l : Ledger) : Prop :=
  samples = l.byCommand ∧ l.byPreload = [] ∧ l.preloadRuns = 0 ∧ samples.length ≤ i

/-- After `i` runs with `LD_PRELOAD`. -/
def ByPreload (i : Nat) (samples : List ℚ) (l : Ledger) : Prop :=
  l.byCommand = [] ∧ samples = l.byPreload ∧ samples.length ≤ i

/-- No method has left a sample. -/
def Untried (samples : List ℚ) (l : Ledger) : Prop := ByCommand 0 samples l

/-- All samples come from one method. -/
def OneMethod (numRuns : Nat) (samples : List ℚ) (l : Ledger) : Prop :=
  ByCommand numRuns samples l ∨ ByPreload numRuns samples l

/-- As before, where a signal may have come between a run and its sample. -/
def OneMethodCut (numRuns : Nat) (samples : List ℚ) (l : Ledger) : Prop :=
  samples.length ≤ numRuns ∧
    (samples.Sublist l.byCommand ∧ l.byPreload = [] ∧ l.preloadRuns = 0 ∨
      l.byCommand = [] ∧ samples.Sublist l.byPreload)

theorem OneMethod.cut {n : Nat} {samples : List ℚ} {l : Ledger} (h : OneMethod n samples l) :
    OneMethodCut n samples l := by
  rcases h with ⟨hsamples, hpreload, hruns, hlength⟩ | ⟨hcommand, hsamples, hlength⟩
  · exact ⟨hlength, Or.inl ⟨hsamples ▸ List.Sublist.refl _, hpreload, hruns⟩⟩
  · exact ⟨hlength, Or.inr ⟨hcommand, hsamples ▸ List.Sublist.refl _⟩⟩

theorem ByCommand.mono {i j : Nat} {samples : List ℚ} {l : Ledger} (h : ByCommand i samples l)
    (hij : i ≤ j) : ByCommand j samples l := ⟨h.1, h.2.1, h.2.2.1, h.2.2.2.trans hij⟩

theorem ByPreload.mono {i j : Nat} {samples : List ℚ} {l : Ledger} (h : ByPreload i samples l)
    (hij : i ≤ j) : ByPreload j samples l := ⟨h.1, h.2.1, h.2.2.trans hij⟩

theorem Untried.byPreload {samples : List ℚ} {l : Ledger} (h : Untried samples l) :
    ByPreload 0 samples l := by
  obtain ⟨hsamples, hpreload, -, hlength⟩ := h
  obtain rfl : samples = [] := List.length_eq_zero_iff.mp (Nat.le_zero.mp hlength)
  exact ⟨hsamples.symm, hpreload.symm, hlength⟩

theorem ByCommand.untried {i : Nat} {samples : List ℚ} {l : Ledger} (h : ByCommand i samples l)
    (hempty : samples = []) : Untried samples l := by
  subst hempty
  exact ⟨h.1, h.2.1, h.2.2.1, Nat.le_refl _⟩

/-- The exits that come with `P`, but for the exceptions that nothing catches, which
come with `P'`. -/
def leaves (old : List Call) (P P' : List ℚ → Ledger → Prop) :
    Exit Exc ρ → PyMachine → Prop
  | .raise e, k => Since old P' k ∧ caught e = false
  | .ret _, k => Since old P k
  | .brk, k => Since old P k
  | .cont, k => Since old P k

/-- The exceptions inside a `try` block, of which some are caught. -/
def throws (old : List Call) (P P' : List ℚ → Ledger → Prop) (e : Exc) (k : PyMachine) : Prop :=
  Since old P' k ∧ (caught e = true → Since old P k)

theorem throws_of {e : Exc} (h : Since old P k) (himp : ∀ s l, P s l → P' s l) :
    throws old P P' e k := ⟨h.mono himp, fun _ => h⟩

theorem throws_uncaught {e : Exc} (h : Since old P' k) (he : caught e = false) :
    throws old P P' e k :=
  ⟨h, fun hcaught => by rw [he] at hcaught; cases hcaught⟩

theorem CtrlC.uncaught (hsignals : CtrlC env) {n : Nat} {e : Exc}
    (he : env.interrupt n = some e) : caught e = false := by
  rw [hsignals n e he]
  rfl

/-- A call that is no measured run, with what may follow. -/
theorem wp_actSince {action : Act} {Q : action.Result → PyMachine → Prop}
    {X : Exit Exc ρ → PyMachine → Prop} (hsignals : CtrlC env)
    (hop : (Op.act action).unmeasured = true) (himp : ∀ s l, P s l → P' s l)
    (hk : Since old P k) (hQ : ∀ r k', Since old P k' → Q r k')
    (hX : ∀ e k', throws old P P' e k' → X (.raise e) k') :
    wp env (act action : Py ρ action.Result) Q X k := by
  have hsame : ∀ r, Since old P (k.answered (.act action) r) := fun r =>
    hk.answered fun l hl => by rwa [l.add_unmeasured hop]
  refine wp_act (fun e he => hX e _ ?_) (fun r _ => hQ r _ (hsame _)) fun f _ => hX _ _ ?_
  · exact throws_uncaught (hk.mono himp) (hsignals.uncaught he)
  · exact throws_of (hsame _) himp

theorem wp_askSince {query : Query} {Q : query.Answer → PyMachine → Prop}
    {X : Exit Exc ρ → PyMachine → Prop} (hsignals : CtrlC env) (himp : ∀ s l, P s l → P' s l)
    (hk : Since old P k) (hQ : ∀ r k', Since old P k' → Q r k')
    (hX : ∀ e k', Since old P' k' → caught e = false → X (.raise e) k') :
    wp env (ask query : Py ρ query.Answer) Q X k := by
  refine wp_call (fun e he => hX e _ (hk.mono himp) (hsignals.uncaught he)) fun _ => ?_
  exact hQ _ _ (hk.answered fun l hl => by rwa [l.add_unmeasured rfl])

/-- Where the inner exits lead in a `try` block around them. -/
theorem raising_of_leaves {P₁ P₂ : List ℚ → Ledger → Prop} {x : Exit Exc ρ}
    (h : leaves old P P' x k) (himp : ∀ s l, P s l → P₂ s l) :
    raising (throws old P₁ P') (leaves old P₂ P') x k := by
  cases x with
  | raise e => exact throws_uncaught h.1 h.2
  | ret v => exact Since.mono h himp
  | brk => exact Since.mono h himp
  | cont => exact Since.mono h himp

theorem leaves_mono {P₂ : List ℚ → Ledger → Prop} {x : Exit Exc ρ}
    (h : leaves old P P' x k) (himp : ∀ s l, P s l → P₂ s l) : leaves old P₂ P' x k := by
  cases x with
  | raise e => exact h
  | ret v => exact Since.mono h himp
  | brk => exact Since.mono h himp
  | cont => exact Since.mono h himp

/-- `except Exception` runs its handler on what is caught and lets the rest pass. -/
theorem wp_tryException {α : Type} {m handler : Py ρ α} {Q : α → PyMachine → Prop}
    {X : Exit Exc ρ → PyMachine → Prop} {R : Exc → PyMachine → Prop}
    (hbody : wp env m Q (raising R X) k)
    (hcaught : ∀ e k', R e k' → caught e = true → wp env handler Q X k')
    (hpass : ∀ e k', R e k' → caught e = false → X (.raise e) k') :
    wp env (tryExcept m (onException handler)) Q X k := by
  refine wp_tryExcept hbody fun e k' he => ?_
  cases e with
  | timeoutExpired => exact hcaught _ k' he rfl
  | other => exact hcaught _ k' he rfl
  | keyboardInterrupt => exact hpass _ k' he rfl
  | systemExit code => exact hpass _ k' he rfl

/-- `cleanup_processes` lets out signals only. -/
theorem cleanup_raises (hsignals : CtrlC env) :
    wp env (cleanupProcesses host : Py ρ Unit) (fun _ _ => True)
      (fun x _ => ∀ e, x = .raise e → caught e = false) k := by
  have hany {X : Exit Exc ρ → PyMachine → Prop} {m : Py ρ Unit} {k : PyMachine}
      (hX : ∀ x k', (∀ e, x ≠ .raise e) → X x k') :
      wp env m (fun _ _ => True) (raising (fun _ _ => True) X) k := by
    unfold wp
    split
    · trivial
    · rename_i x k' _
      cases x with
      | raise e => trivial
      | ret v => exact hX _ k' fun e he => by cases he
      | brk => exact hX _ k' fun e he => by cases he
      | cont => exact hX _ k' fun e he => by cases he
  have hlast {Q : Prop} (hQ : Q) {k : PyMachine} :
      wp env (update (fun s => { s with cleanupInProgress := false }) : Py ρ Unit)
        (fun _ _ => Q) (fun x _ => ∀ e, x = .raise e → caught e = false) k := by
    refine wp_update (fun e he e' heq => ?_) fun _ => hQ
    cases heq
    rw [hsignals _ _ he]
    rfl
  refine wp_bind (wp_read (wp_when (fun _ => wp_tryFinally ?_) fun _ => trivial))
  refine wp_mono (@wp_tryException _ _ _ _ _ _ (fun _ _ => True)
    (fun x _ => ∀ e, x = .raise e → caught e = false) (fun _ _ => True) ?_ ?_ ?_)
    (fun _ _ h => hlast h) fun x _ hx => hlast hx
  · exact hany fun x _ hx e he => absurd he (hx e)
  · exact fun _ _ _ _ => wp_pure trivial
  · intro e _ _ he e' heq
    cases heq
    exact he

theorem wp_cleanup (hsignals : CtrlC env) (h : Since old P k) (himp : ∀ s l, P s l → P' s l) :
    wp env (cleanupProcesses host : Py ρ Unit) (fun _ => Since old P) (leaves old P P') k := by
  have hbystander : Bystander host env unmeasured (Since old P) := bystander_since
  refine wp_mono (wp_and (hbystander.cleanup ρ k h) (cleanup_raises hsignals))
    (fun _ _ hk => hk.1) ?_
  rintro x k' ⟨hk', hx⟩
  cases x with
  | raise e => exact ⟨hk'.mono himp, hx e rfl⟩
  | ret v => exact hk'
  | brk => exact hk'
  | cont => exact hk'

/-- The handler that cleans up after an exception. -/
theorem wp_tryCleanup (hsignals : CtrlC env) (himp : ∀ s l, P s l → P' s l) {m : Py ρ Unit}
    (hbody : wp env m (fun _ => Since old P)
      (raising (throws old P P') (leaves old P P')) k) :
    wp env (tryExcept m (onException (cleanupProcesses host))) (fun _ => Since old P)
      (leaves old P P') k := by
  refine wp_tryException hbody (fun e k' he hcaught => ?_) fun e k' he hpass => ⟨he.1, hpass⟩
  exact wp_cleanup hsignals (he.2 hcaught) himp

/-- One more run of the command, with its sample if it gives one. -/
theorem wp_runLeg {P : Nat → List ℚ → Ledger → Prop} {command : Command}
    (hsignals : CtrlC env) (himp : ∀ s l, P host.numRuns s l → P' s l)
    (hmono : ∀ i j s l, i ≤ j → P i s l → P j s l)
    (hnone : ∀ i s l r, P i s l → sampleOf command ⟨.act (.run command), r⟩ = none →
      P (i + 1) s (l.add ⟨.act (.run command), r⟩))
    (hsome : ∀ i s l r v, P i s l → sampleOf command ⟨.act (.run command), r⟩ = some v →
      P (i + 1) (s ++ [v]) (l.add ⟨.act (.run command), r⟩))
    (hcut : ∀ s l r, P host.numRuns s l → P' s (l.add ⟨.act (.run command), r⟩))
    (hk : Since old (P 0) k) :
    wp env (runLeg host .userspaceSyscall command : Py ρ Unit)
      (fun _ => Since old (P host.numRuns)) (leaves old (P host.numRuns) P') k := by
  refine wp_bind (@wp_forRange _ _ _ _ _ _ env k _ _ (fun i => Since old (P i))
    (fun _ => Since old (P host.numRuns)) _ (fun i k hi hk => ?_) (fun _ hk => hk) hk)
  refine wp_mono (Q := fun _ => Since old (P (i + 1))) (X := leaves old (P (i + 1)) P') ?_
    (fun _ _ h => h) fun x k' hx => ?_
  · have hnext : ∀ s l, P (i + 1) s l → P' s l := fun s l h => himp s l (hmono _ _ s l hi h)
    refine wp_tryCleanup hsignals hnext (wp_bind (wp_act ?_ ?_ ?_))
    · intro e he
      refine throws_uncaught (hk.mono fun s l h => ?_) (hsignals.uncaught he)
      exact hnext s l (hmono i _ s l (by omega) h)
    · intro result hresult
      have hplain (h : sampleOf command ⟨.act (.run command), .ok result⟩ = none) :
          Since old (P (i + 1)) (k.answered (.act (.run command)) (.ok result)) :=
        hk.answered fun l hl => hnone i _ l _ hl h
      refine wp_bind (wp_when (fun hcode => wp_cont (hplain ?_)) fun hcode => ?_)
      · exact if_neg fun h => hcode h.2
      · have hsample : sampleOf command ⟨.act (.run command), .ok result⟩ =
            avgTime result.stdout := if_pos ⟨rfl, not_not.mp hcode⟩
        cases htime : avgTime result.stdout with
        | none => exact wp_pure (hplain (hsample.trans htime))
        | some v =>
            refine wp_update (fun e he => ?_) fun _ => ?_
            · refine throws_uncaught (hk.answered fun l hl => ?_) (hsignals.uncaught he)
              exact hcut _ l _ (hmono i _ _ l (by omega) hl)
            · obtain ⟨new, hnew, hP⟩ := hk
              refine ⟨new ++ [⟨.act (.run command), .ok result⟩], ?_, ?_⟩
              · show k.calls ++ _ = _
                rw [hnew, List.append_assoc]
              · rw [ledger_concat]
                exact hsome i _ _ _ v hP (hsample.trans htime)
    · intro f hf
      exact throws_of (hk.answered fun l hl => hnone i _ l _ hl rfl) hnext
  · have hall : Since old (P (i + 1)) k' → Since old (P host.numRuns) k' :=
      fun h => h.mono fun s l => hmono _ _ s l hi
    cases x with
    | raise e => exact hx
    | ret v => exact hall hx
    | brk => exact hall hx
    | cont => exact hx

theorem sampleOf_ne {c command : Command} (h : c ≠ command)
    (r : Except Failure Completed) : sampleOf command ⟨.act (.run c), r⟩ = none := by
  cases r with
  | ok result => exact if_neg fun hc => h hc.1
  | error f => rfl

theorem add_bpftimeStart (l : Ledger) (r : Except Failure Completed) :
    l.add ⟨.act (.run .bpftimeStart), r⟩ =
      { l with byCommand :=
          l.byCommand ++ (sampleOf .bpftimeStart ⟨.act (.run .bpftimeStart), r⟩).toList } := by
  simp [Ledger.add, sampleOf_ne, isRunOf]

theorem add_victimWithAgent (l : Ledger) (r : Except Failure Completed) :
    l.add ⟨.act (.run .victimWithAgent), r⟩ =
      { l with
        byPreload :=
          l.byPreload ++ (sampleOf .victimWithAgent ⟨.act (.run .victimWithAgent), r⟩).toList
        preloadRuns := l.preloadRuns + 1 } := by
  simp [Ledger.add, sampleOf_ne, isRunOf]

theorem wp_commandRuns (hsignals : CtrlC env) (hk : Since old Untried k) :
    wp env (runLeg host .userspaceSyscall .bpftimeStart : Py ρ Unit)
      (fun _ => Since old (ByCommand host.numRuns))
      (leaves old (ByCommand host.numRuns) (OneMethodCut host.numRuns)) k := by
  refine wp_runLeg hsignals (fun s l h => OneMethod.cut (Or.inl h))
    (fun i j s l hij h => h.mono hij) ?_ ?_ ?_ hk
  · rintro i s l r ⟨hsamples, hpreload, hruns, hlength⟩ hsample
    rw [add_bpftimeStart, hsample]
    exact ⟨by simpa using hsamples, hpreload, hruns, Nat.le_succ_of_le hlength⟩
  · rintro i s l r v ⟨hsamples, hpreload, hruns, hlength⟩ hsample
    rw [add_bpftimeStart, hsample]
    refine ⟨by simpa using hsamples, hpreload, hruns, ?_⟩
    rw [List.length_append]
    exact Nat.succ_le_succ hlength
  · rintro s l r ⟨hsamples, hpreload, hruns, hlength⟩
    rw [add_bpftimeStart]
    exact ⟨hlength, Or.inl ⟨hsamples ▸ List.sublist_append_left _ _, hpreload, hruns⟩⟩

theorem wp_preloadRuns (hsignals : CtrlC env) (hk : Since old (ByPreload 0) k) :
    wp env (runLeg host .userspaceSyscall .victimWithAgent : Py ρ Unit)
      (fun _ => Since old (ByPreload host.numRuns))
      (leaves old (ByPreload host.numRuns) (OneMethodCut host.numRuns)) k := by
  refine wp_runLeg hsignals (fun s l h => OneMethod.cut (Or.inr h))
    (fun i j s l hij h => h.mono hij) ?_ ?_ ?_ hk
  · rintro i s l r ⟨hcommand, hsamples, hlength⟩ hsample
    rw [add_victimWithAgent, hsample]
    exact ⟨hcommand, by simpa using hsamples, Nat.le_succ_of_le hlength⟩
  · rintro i s l r v ⟨hcommand, hsamples, hlength⟩ hsample
    rw [add_victimWithAgent, hsample]
    refine ⟨hcommand, by simpa using hsamples, ?_⟩
    rw [List.length_append]
    exact Nat.succ_le_succ hlength
  · rintro s l r ⟨hcommand, hsamples, hlength⟩
    rw [add_victimWithAgent]
    exact ⟨hlength, Or.inr ⟨hcommand, hsamples ▸ List.sublist_append_left _ _⟩⟩

theorem Untried.oneMethod {n : Nat} {samples : List ℚ} {l : Ledger} (h : Untried samples l) :
    OneMethod n samples l := Or.inl (h.mono (Nat.zero_le n))

/-- The first method falls through only if it has left no sample. -/
theorem wp_bpftimeMethod (hsignals : CtrlC env) (hk : Since old Untried k) :
    wp env (bpftimeMethod host) (fun _ => Since old Untried)
      (leaves old (OneMethod host.numRuns) (OneMethodCut host.numRuns)) k := by
  have huntried : ∀ s l, Untried s l → OneMethodCut host.numRuns s l :=
    fun s l h => (Untried.oneMethod h).cut
  have hcommand : ∀ s l, ByCommand host.numRuns s l → OneMethod host.numRuns s l :=
    fun s l h => Or.inl h
  have hcut : ∀ s l, ByCommand host.numRuns s l → OneMethodCut host.numRuns s l :=
    fun s l h => (hcommand s l h).cut
  refine @wp_tryException _ _ _ _ _ _ _ _ (throws old Untried (OneMethodCut host.numRuns)) ?_
    (fun e k' he hcaught => ?_) fun e k' he hpass => ⟨he.1, hpass⟩
  · refine wp_bind (wp_actSince hsignals rfl huntried hk (fun loadResult k₁ hk₁ => ?_)
      fun _ _ he => he)
    refine wp_when (fun _ => ?_) fun _ => hk₁
    refine wp_bind (wp_askSince hsignals huntried hk₁ (fun _ k₂ hk₂ => ?_)
      fun _ _ => throws_uncaught)
    refine wp_bind (wp_mono (wp_commandRuns hsignals hk₂) (fun _ k₃ hk₃ => ?_)
      fun x _ hx => raising_of_leaves hx hcommand)
    refine wp_bind (wp_mono (wp_tryCleanup hsignals hcut ?_) (fun _ k₄ hk₄ => ?_)
      fun x _ hx => raising_of_leaves hx hcommand)
    · refine wp_bind (wp_actSince hsignals rfl hcut hk₃ (fun unloadResult k₄ hk₄ => ?_)
        fun _ _ he => he)
      refine wp_when (fun _ => ?_) fun _ => hk₄
      exact wp_mono (wp_cleanup hsignals hk₄ hcut) (fun _ _ h => h)
        fun x _ hx => raising_of_leaves hx fun _ _ h => h
    · refine wp_bind (wp_read (wp_when (fun _ => wp_ret (hk₄.mono hcommand)) fun hempty => ?_))
      obtain ⟨new, hnew, hP⟩ := hk₄
      exact ⟨new, hnew, hP.untried (not_not.mp hempty)⟩
  · exact wp_mono (wp_cleanup hsignals (he.2 hcaught) huntried) (fun _ _ h => h)
      fun x _ hx => leaves_mono hx fun s l h => h.oneMethod

theorem wp_preloadMethod (hsignals : CtrlC env) (hk : Since old Untried k) :
    wp env (preloadMethod host) (fun _ => Since old (OneMethod host.numRuns))
      (leaves old (OneMethod host.numRuns) (OneMethodCut host.numRuns)) k := by
  have hmethod : ∀ s l, ByPreload 0 s l → OneMethod host.numRuns s l :=
    fun s l h => Or.inr (h.mono (Nat.zero_le _))
  have hcut : ∀ s l, ByPreload 0 s l → OneMethodCut host.numRuns s l :=
    fun s l h => (hmethod s l h).cut
  have hask {path : Path} {k : PyMachine} {f : Unit → Py Unit Unit}
      (hk : Since old (ByPreload 0) k)
      (hnext : ∀ k', Since old (ByPreload 0) k' →
        wp env (f ()) (fun _ => Since old (OneMethod host.numRuns))
          (leaves old (OneMethod host.numRuns) (OneMethodCut host.numRuns)) k') :
      wp env (do
        let found ← ask (.pathExists path)
        let u ← Script.when (found = false) (Script.ret ())
        f u : Py Unit Unit) (fun _ => Since old (OneMethod host.numRuns))
        (leaves old (OneMethod host.numRuns) (OneMethodCut host.numRuns)) k := by
    refine wp_bind (wp_askSince hsignals hcut hk (fun found k' hk' => wp_bind ?_)
      fun _ _ h he => ⟨h, he⟩)
    exact wp_when (fun _ => wp_ret (hk'.mono hmethod)) fun _ => hnext k' hk'
  refine hask (hk.mono fun s l h => h.byPreload) fun k₁ hk₁ => ?_
  refine hask hk₁ fun k₂ hk₂ => hask hk₂ fun k₃ hk₃ => ?_
  refine @wp_tryException _ _ _ _ _ _ _ _
    (throws old (OneMethod host.numRuns) (OneMethodCut host.numRuns)) ?_
    (fun e k' he hcaught => wp_pure (he.2 hcaught)) fun e k' he hpass => ⟨he.1, hpass⟩
  have hthrows {e : Exc} {k' : PyMachine}
      (h : throws old (ByPreload 0) (OneMethodCut host.numRuns) e k') :
      throws old (OneMethod host.numRuns) (OneMethodCut host.numRuns) e k' :=
    ⟨h.1, fun hcaught => (h.2 hcaught).mono hmethod⟩
  have hserver : wp env (startServer .preloaded : Py Unit Unit)
      (fun _ => Since old (ByPreload 0))
      (raising (throws old (OneMethod host.numRuns) (OneMethodCut host.numRuns))
        (leaves old (OneMethod host.numRuns) (OneMethodCut host.numRuns))) k₃ := by
    refine wp_bind (wp_actSince hsignals rfl hcut hk₃ (fun pid k₄ hk₄ => ?_)
      fun _ _ h => hthrows h)
    have hsignal {k : PyMachine} {e : Exc} (he : env.interrupt k.clock = some e)
        (hk : Since old (ByPreload 0) k) :
        throws old (OneMethod host.numRuns) (OneMethodCut host.numRuns) e k.tick :=
      throws_uncaught (hk.mono hcut) (hsignals.uncaught he)
    refine wp_bind (wp_assign (fun e he => hsignal he hk₄) fun _ => ?_)
    exact wp_update (fun e he => hsignal he hk₄) fun _ => hk₄
  refine wp_bind (wp_mono hserver (fun _ k₄ hk₄ => ?_) fun _ _ hx => hx)
  refine wp_bind (wp_askSince hsignals hcut hk₄ (fun _ k₅ hk₅ => ?_) fun _ _ => throws_uncaught)
  refine wp_bind (wp_askSince hsignals hcut hk₅ (fun code k₆ hk₆ => ?_) fun _ _ => throws_uncaught)
  refine wp_bind (wp_when (fun _ => wp_ret (hk₆.mono hmethod)) fun _ => ?_)
  refine wp_bind (wp_askSince hsignals hcut hk₆ (fun _ k₇ hk₇ => ?_) fun _ _ => throws_uncaught)
  exact wp_mono (wp_preloadRuns hsignals hk₇) (fun _ k₈ hk₈ => hk₈.mono fun _ _ h => Or.inr h)
    fun x _ hx => raising_of_leaves hx fun _ _ h => Or.inr h

/-- The script does not end a function by `return`. -/
abbrev NoReturn (env : PyEnv) {α : Type} (m : Py ρ α) : Prop :=
  Confined env (fun _ _ => True) False m

section NoReturn

variable {α : Type}

theorem noReturn_ask {query : Query} : NoReturn env (ask query : Py ρ query.Answer) :=
  keeps_call (fun _ _ _ _ => trivial) (Quiet.const Footprint.all True) trivial

theorem noReturn_act {action : Act} : NoReturn env (act action : Py ρ action.Result) :=
  keeps_act (Quiet.const Footprint.all True) trivial fun _ _ _ => trivial

theorem noReturn_update {f : State → State} : NoReturn env (update f : Py ρ Unit) :=
  keeps_update (fun _ _ _ _ => trivial) fun _ _ => trivial

theorem noReturn_tryExcept {m : Py ρ α} {handler : Exc → Option (Py ρ α)}
    (hbody : NoReturn env m) (hhandler : ∀ e h, handler e = some h → NoReturn env h) :
    NoReturn env (tryExcept m handler) := by
  refine confined_tryExcept hbody fun e k _ => ?_
  split
  · rename_i h heq
    exact hhandler e h heq
  · trivial

theorem noReturn_tryException {m handler : Py ρ α} (hbody : NoReturn env m)
    (hhandler : NoReturn env handler) : NoReturn env (tryExcept m (onException handler)) :=
  noReturn_tryExcept hbody fun _ _ heq => eq_of_onException heq ▸ hhandler

theorem noReturn_tryAny {m handler : Py ρ α} (hbody : NoReturn env m)
    (hhandler : NoReturn env handler) : NoReturn env (tryExcept m (onAny handler)) := by
  refine noReturn_tryExcept hbody fun e h heq => ?_
  obtain rfl := Option.some.inj heq
  exact hhandler

theorem noReturn_forEach {β : Type} {items : List β} {body : β → Py ρ Unit}
    (h : ∀ a, NoReturn env (body a)) : NoReturn env (forEach items body) :=
  keeps_mono (raises_forEach fun a _ => h a) leaving_of_onlyRaise

theorem noReturn_cleanupProcesses : NoReturn env (cleanupProcesses host : Py ρ Unit) := by
  refine keeps_bind keeps_read fun s => keeps_when fun _ => ?_
  refine confined_tryFinally (Y := fun _ _ => True) ?_ noReturn_update fun _ k _ =>
    wp_mono (noReturn_update k trivial) (fun _ _ _ => trivial) fun _ _ hx => hx
  refine noReturn_tryException ?_ keeps_pure
  refine keeps_bind noReturn_update fun _ => keeps_bind noReturn_update fun _ => ?_
  refine keeps_bind ?_ fun _ => keeps_bind ?_ fun _ => noReturn_ask
  · refine noReturn_tryAny ?_ keeps_pure
    exact keeps_bind noReturn_act fun parentPid => noReturn_update
  · refine keeps_bind (noReturn_forEach fun tool => ?_) fun _ => keeps_pure
    refine noReturn_tryException (keeps_bind noReturn_act fun result => ?_) keeps_pure
    refine keeps_bind (noReturn_forEach fun pid => ?_) fun _ => keeps_pure
    refine noReturn_tryException ?_ keeps_pure
    refine keeps_bind (keeps_intOf fun _ _ _ => trivial) fun pidInt => ?_
    refine keeps_bind keeps_read fun s => keeps_when fun _ => ?_
    refine keeps_bind noReturn_act fun result => ?_
    refine keeps_bind (keeps_when fun _ => confined_cont) fun _ => ?_
    exact keeps_bind noReturn_act fun _ => keeps_pure

/-- The `finally` block of `run_userspace_syscall`. -/
theorem noReturn_lastBlock : NoReturn env (do
    ifRunning (tryExcept stopServer (onException (pure ())))
    cleanupProcesses host : Py ρ Unit) := by
  refine keeps_bind (keeps_bind keeps_vars fun syscallProc => keeps_when fun _ => ?_)
    fun _ => noReturn_cleanupProcesses
  refine keeps_bind noReturn_ask fun code => keeps_when fun _ => ?_
  refine noReturn_tryException (keeps_bind noReturn_act fun _ => ?_) keeps_pure
  exact noReturn_tryAny noReturn_act noReturn_act

end NoReturn

/-- However the function leaves, the samples are from one method; where it returns, no
sample is missing either. -/
theorem wp_runUserspaceSyscall (hsignals : CtrlC env) (hk : Since old Untried k) :
    wp env (runUserspaceSyscall host : Py ρ Unit) (fun _ => Since old (OneMethod host.numRuns))
      (fun _ => Since old (OneMethodCut host.numRuns)) k := by
  let M := Since old (OneMethod host.numRuns)
  let C := Since old (OneMethodCut host.numRuns)
  let X : Exit Exc Unit → PyMachine → Prop := funcExit (fun _ => M) fun (_ : Exit Exc ρ) => C
  have hcut : ∀ s l, Untried s l → OneMethodCut host.numRuns s l :=
    fun s l h => (Untried.oneMethod h).cut
  have hexit {x : Exit Exc Unit} {k : PyMachine} (hk : M k) : X x k := by
    cases x with
    | ret v => exact hk
    | raise e | brk | cont => exact hk.mono fun _ _ h => h.cut
  -- after the methods have returned the block keeps what they have established
  have hreturned : Maintains env M (do
      ifRunning (tryExcept stopServer (onException (pure ())))
      cleanupProcesses host : Py Unit Unit) := bystander_since.lastBlock
  have hraised {x : Exit Exc Unit} (hx : ∀ v, x ≠ .ret v) {k : PyMachine} (hk : C k) :
      wp env (do
        ifRunning (tryExcept stopServer (onException (pure ())))
        cleanupProcesses host : Py Unit Unit) (fun _ => X x) X k := by
    refine wp_mono (wp_and (bystander_since.lastBlock k hk) (noReturn_lastBlock k trivial)) ?_ ?_
    · intro _ k' hk'
      cases x with
      | ret v => exact absurd rfl (hx v)
      | raise e | brk | cont => exact hk'.1
    · intro x k' hk'
      cases x with
      | ret v => exact hk'.2.elim
      | raise e | brk | cont => exact hk'.1
  refine wp_func (wp_bind (wp_assign (fun e he => hk.mono hcut) fun _ => wp_tryFinally ?_))
  refine wp_mono (?_ : wp env _ (fun _ => M)
    (leaves old (OneMethod host.numRuns) (OneMethodCut host.numRuns)) _) ?_ ?_
  · refine wp_bind (wp_askSince hsignals hcut hk (fun found k₁ hk₁ => ?_) fun _ _ h he => ⟨h, he⟩)
    refine wp_bind (wp_mono (wp_when (Q := fun _ => Since old Untried)
      (fun _ => wp_bpftimeMethod hsignals hk₁) fun _ => hk₁) (fun _ k₂ hk₂ => ?_) fun _ _ h => h)
    exact wp_preloadMethod hsignals hk₂
  · exact fun _ k' hk' => wp_mono (hreturned k' hk') (fun _ _ h => h) fun _ _ h => hexit h
  · intro x k' hx
    cases x with
    | raise e => exact hraised (by simp) hx.1
    | ret v => exact wp_mono (hreturned k' hx) (fun _ _ h => h) fun _ _ h => hexit h
    | brk | cont => exact hraised (by simp) (Since.mono hx fun _ _ h => h.cut)

/-- `run_userspace_syscall` returns with at most `NUM_RUNS` samples, all of one method,
and the runs with `LD_PRELOAD` are made only if the command has left no sample. -/
theorem samples_of_one_method (hsignals : CtrlC env) {k k' : PyMachine}
    (hempty : k.state.results .userspaceSyscall = [])
    (h : (runUserspaceSyscall host : Py ρ Unit) env k = (.ok (), k')) :
    ∃ new, k'.calls = k.calls ++ new ∧
      (k'.state.results .userspaceSyscall).length ≤ host.numRuns ∧
      (k'.state.results .userspaceSyscall = samplesOf .bpftimeStart new ∨
        k'.state.results .userspaceSyscall = samplesOf .victimWithAgent new) ∧
      (0 < runsOf .victimWithAgent new → samplesOf .bpftimeStart new = []) := by
  have hk : Since k.calls Untried k :=
    ⟨[], (List.append_nil _).symm, hempty, rfl, rfl, by rw [hempty]; exact Nat.le_refl 0⟩
  have hwp : wp env (runUserspaceSyscall host : Py ρ Unit)
      (fun _ => Since k.calls (OneMethod host.numRuns))
      (fun _ => Since k.calls (OneMethodCut host.numRuns)) k :=
    wp_runUserspaceSyscall hsignals hk
  unfold wp at hwp
  rw [h] at hwp
  obtain ⟨new, hnew, hmethod⟩ := hwp
  refine ⟨new, hnew, hmethod.cut.1, ?_⟩
  rcases hmethod with ⟨hsamples, -, hruns, -⟩ | ⟨hcommand, hsamples, -⟩
  · exact ⟨Or.inl hsamples, fun hpos => absurd hruns (Nat.ne_of_gt hpos)⟩
  · exact ⟨Or.inr hsamples, fun _ => hcommand⟩

/-- `bpftime` is there and measures once. -/
def commandEnv : PyEnv where
  answer := fun _ op =>
    match op with
    | .ask .isRoot => true
    | .ask (.pathExists _) => true
    | .ask .poll => none
    | .ask .isArm => false
    | .ask .sleep => ()
    | .act (.run .bpftimeStart) => .ok ⟨0, "Average time usage 1.5ns\n".toList, []⟩
    | .act (.run .bpftimeLoad) => .ok ⟨0, [], []⟩
    | .act _ => .error .other
  interrupt := fun _ => none

theorem samples_of_one_method_command :
    let host : Host := ⟨10, by decide, "benchmark.py".toList, 1⟩
    let k := ((runUserspaceSyscall host : Py Unit Unit) commandEnv start).2
    ∃ new, k.calls = start.calls ++ new ∧
      (k.state.results .userspaceSyscall).length ≤ host.numRuns ∧
      (k.state.results .userspaceSyscall = samplesOf .bpftimeStart new ∨
        k.state.results .userspaceSyscall = samplesOf .victimWithAgent new) ∧
      (0 < runsOf .victimWithAgent new → samplesOf .bpftimeStart new = []) :=
  @samples_of_one_method ⟨10, by decide, "benchmark.py".toList, 1⟩ commandEnv Unit
    (fun _ _ he => by cases he) start _ rfl (eq_ok_of_toOption (by decide +kernel))

/-- Up to `run_userspace_syscall` neither method has been tried, so what holds of one
call holds of the whole run of the script. -/
theorem program_one_method (hsignals : CtrlC env) (fuel : Nat) :
    Since [] (OneMethodCut host.numRuns) (program host fuel env start).2 := by
  have h : Bystander host env unmeasured (Since [] Untried) := bystander_since
  have hP : Bystander host env unmeasured (Since [] (OneMethodCut host.numRuns)) :=
    bystander_since
  have himp : ∀ k, Since [] Untried k → Since [] (OneMethodCut host.numRuns) k :=
    fun k hk => hk.mono fun s l hl => (Untried.oneMethod hl).cut
  have hleg {leg : Leg} (hleg : Leg.userspaceSyscall ≠ leg) :
      Maintains env (Since [] Untried) (runLeg host leg .victim : Py Bool Unit) := by
    refine h.runLeg rfl fun k output v _ hk => ?_
    obtain ⟨new, hnew, hP⟩ := hk
    refine ⟨new, hnew, ?_⟩
    show Untried (Function.update k.state.results leg _ .userspaceSyscall) (ledger new)
    rwa [Function.update_of_ne hleg]
  have hstart : Since [] Untried start := ⟨[], rfl, rfl, rfl, rfl, Nat.le_refl 0⟩
  have hinit : wp env (initSafePids host fuel : Py Bool Bool) (fun _ => Since [] Untried)
      (fun _ => Since [] (OneMethodCut host.numRuns)) start := by
    refine wp_mono (maintains_initSafePids h.plain h.quiet ?_ start hstart) (fun _ _ hk => hk)
      fun _ k hk => himp k hk
    exact fun k pid hk => hk
  refine hP.program hinit fun ended k hk => h.afterInit hP himp (fun k hk => ?_) hk
  refine h.mainBody hP himp (hleg (by decide)) (hleg (by decide)) (fun k hk => ?_) hk
  exact wp_mono (wp_runUserspaceSyscall hsignals hk) (fun _ _ hk => hk.mono fun _ _ h => h.cut)
    fun _ _ hk => hk

end BpftimeBenchmark.Bench.Syscall
