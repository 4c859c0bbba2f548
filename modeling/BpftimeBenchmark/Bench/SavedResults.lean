import BpftimeBenchmark.Bench.ExitStatus

/-!
Whether `ssl-nginx/benchmark.py` writes what it has measured. The samples are in
memory until `main` is through with its phases, so whatever ends `main` among them
loses the samples of the phases before.
-/

namespace BpftimeBenchmark.Bench.SslNginx

open Scripts Script

/-- `main` up to the end of its loop. -/
def phases (cfg : Config) : Py State Unit Unit := do
  Script.update (setTargets cfg)
  mainChecks
  runPhases cfg

/-- `main` after its loop. -/
def saveAndCheck (cfg : Config) : Py State Unit Unit := do
  act .writeResults
  let s ← Script.read
  Script.when (benchmarkFailed cfg s = true) (Script.raise (.systemExit 1))

theorem mainBody_eq (cfg : Config) :
    mainBody cfg = phases cfg >>= fun _ => saveAndCheck cfg := by
  unfold phases
  rw [bind_assoc, mainBody]
  simp only [bind_assoc]
  rfl

def Recorded (s : State) : Prop := ∃ leg, s.results leg ≠ []

/-- The results have been written, right after the phases and with every sample
there is at `k`. -/
def Saved (cfg : Config) (env : PyEnv) (k : PyMachine State) : Prop :=
  ∃ k', phases cfg env (start cfg) = (.ok (), k') ∧
    k'.calls ++ [⟨.act .writeResults, .ok ()⟩] <+: k.calls ∧
    k'.state.results = k.state.results

def Escaped (k : PyMachine State) : Prop := ∃ c ∈ k.calls, escapes c = true

def NoSamples (k : PyMachine State) : Prop := ∀ leg, k.state.results leg = []

section Quiet

variable {A : Footprint Op Vars}

theorem quiet_escaped : Quiet A Escaped where
  tick := fun _ hk => hk
  answered := fun _ _ _ _ ⟨c, hc, h⟩ => ⟨c, List.mem_append_left _ hc, h⟩
  assigned := fun _ _ _ hk => hk

theorem quiet_noSamples : Quiet A NoSamples where
  tick := fun _ hk => hk
  answered := fun _ _ _ _ hk => hk
  assigned := fun _ _ _ hk => hk

theorem quiet_saved (cfg : Config) (env : PyEnv) : Quiet A (Saved cfg env) where
  tick := fun _ hk => hk
  answered := fun _ _ _ _ ⟨k', hrun, hcalls, hsame⟩ =>
    ⟨k', hrun, hcalls.trans (List.prefix_append _ _), hsame⟩
  assigned := fun _ _ _ hk => hk

end Quiet

theorem takes_escaped : Takes escapes fun _ => Escaped where
  quiet := fun _ _ => quiet_escaped
  answered := fun h => ⟨_, List.mem_append_right _ (List.mem_singleton_self _), h⟩

/-- What a run without a signal comes to when its phases are known. -/
def Kept (cfg : Config) (env : PyEnv) (k : PyMachine State) : Prop :=
  NoSamples k ∨ Escaped k ∨ Saved cfg env k

theorem quiet_kept (cfg : Config) (env : PyEnv) : Quiet Footprint.all (Kept cfg env) :=
  quiet_noSamples.or (quiet_escaped.or (quiet_saved cfg env))

section Undisturbed

variable {cfg : Config} {env : PyEnv} (henv : env.Undisturbed)
  (hknown : ∀ name ∈ cfg.benchOrder, (benchResultKeys name).isSome = true)

include henv hknown

theorem wp_phases :
    wp env (phases cfg) (fun _ _ => True) (fun _ k => NoSamples k ∨ Escaped k) (start cfg) := by
  have hchecks : Maintains env NoSamples mainChecks :=
    maintains_checkEnvironment (quiet_noSamples (A := Footprint.all)) fun _ => trivial
  have hrun : Keeps env (fun _ => True) (onlyRaise fun _ => Escaped)
      (runPhases cfg : Py State Unit Unit) := by
    refine taken_runPhases henv takes_escaped cfg fun name hname hnone => ?_
    have hsome := hknown name hname
    rw [hnone] at hsome
    cases hsome
  refine wp_bind (wp_update_of henv (wp_bind ?_))
  refine wp_mono (hchecks _ fun _ => rfl) (fun _ k _ => ?_) fun _ _ hk => .inl hk
  refine wp_mono (hrun k trivial) (fun _ _ hk => hk) fun x k hx => .inr ?_
  cases x with
  | raise e => exact hx
  | ret v => exact hx.elim
  | brk => exact hx.elim
  | cont => exact hx.elim

theorem kept_mainBody :
    wp env (mainBody cfg) (fun _ => Kept cfg env) (fun _ => Kept cfg env) (start cfg) := by
  rw [mainBody_eq]
  refine wp_bind (wp_mono (wp_and (wp_phases henv hknown) wp_outcome) ?_ ?_)
  · rintro _ k ⟨_, hrun⟩
    refine wp_bind (wp_act henv (fun _ => ?_) fun f => .inr (.inl (takes_escaped.answered rfl)))
    have hsaved : Kept cfg env (k.answered (.act .writeResults) (.ok ())) :=
      .inr (.inr ⟨k, hrun, List.prefix_rfl, rfl⟩)
    exact wp_bind (wp_read (wp_when (fun _ => wp_raise hsaved) fun _ => hsaved))
  · rintro x k ⟨hx, _⟩
    exact hx.imp_right .inl

/-- Neither the handlers of `main` nor its cleanup loses what was saved. -/
theorem kept_main :
    wp env (main cfg : Py State Unit Unit) (fun _ => Kept cfg env) (fun _ => Kept cfg env)
      (start cfg) := by
  have hclean : Maintains env (Kept cfg env) (cleanupProcesses : Py State Unit Unit) :=
    free_cleanupProcesses.maintains (quiet_kept cfg env)
  have hexit (x : Exit Exc Unit) (k : PyMachine State) (hk : Kept cfg env k) :
      funcExit (fun _ => Kept cfg env) (fun _ : Exit Exc Unit => Kept cfg env) x k := by
    cases x <;> exact hk
  refine wp_func (wp_tryFinally (wp_mono (Q := fun _ => Kept cfg env)
    (X := fun _ => Kept cfg env) ?_ ?_ ?_))
  · refine wp_tryExcept (R := fun _ => Kept cfg env) ?_ fun e k hk => ?_
    · refine wp_mono (kept_mainBody henv hknown) (fun _ _ hk => hk) fun x k hk => ?_
      cases x <;> exact hk
    · cases e with
      | timeoutExpired => exact wp_pure hk
      | other => exact wp_pure hk
      | keyboardInterrupt => exact wp_raise hk
      | systemExit code => exact hk
  · exact fun _ k hk => wp_mono (hclean k hk) (fun _ _ hk => hk) hexit
  · exact fun x k hk => wp_mono (hclean k hk) (fun _ k hk => hexit x k hk) hexit

end Undisturbed

def unknownPhase : Config := ⟨1, 0, ["baseline".toList, "bogus".toList]⟩

def wroteResults : Call → Bool
  | ⟨.act .writeResults, .ok _⟩ => true
  | _ => false

theorem Saved.wroteResults {cfg : Config} {env : PyEnv} {k : PyMachine State}
    (h : Saved cfg env k) : k.calls.any wroteResults = true := by
  obtain ⟨k', _, hcalls, _⟩ := h
  have hsave : (⟨.act .writeResults, .ok ()⟩ : Call) ∈ k.calls :=
    hcalls.subset (List.mem_append_right _ (List.mem_singleton_self _))
  exact List.any_eq_true.mpr ⟨_, hsave, rfl⟩

/-- The run has a sample that it did not save. -/
def SampleLost (cfg : Config) (env : PyEnv) : Prop :=
  Recorded (main (ρ := Unit) cfg env (start cfg)).2.state ∧
    ¬Saved cfg env (main (ρ := Unit) cfg env (start cfg)).2

end BpftimeBenchmark.Bench.SslNginx
