import BpftimeBenchmark.Bench.SafePids

/-!
Whom the cleanup of `syscall/benchmark.py` spares. It adds to the set first and then
kills outside of it; a server is in the set before any cleanup can come, unless a
signal strikes in between; and nothing takes a pid out of the set.
-/

namespace BpftimeBenchmark.Bench.Syscall

open Scripts Script

/-- `Popen` answers with this pid at some tick, and a signal comes at one of the two
ticks after it, in which the rest of the line and the line that adds the pid run. -/
def CutOff (env : PyEnv) (pid : Int) : Prop :=
  ∃ n server, env.answer n (.act (.popen server)) = .ok pid ∧
    ((env.interrupt (n + 1)).isSome ∨ (env.interrupt (n + 2)).isSome)

/-- No kill on the record went to a guarded pid or to a server started before it. -/
def KillsSpare (guarded : Int → Prop) (env : PyEnv) (calls : List Call) : Prop :=
  ∀ before c, before ++ [c] <+: calls → ∀ t, killed c = some t →
    ∃ p, Text.int t = some p ∧ ¬ guarded p ∧
      ∀ d ∈ before, started d = some p → CutOff env p

/-- A cleanup from `k` has come to `k'`, and all its kills went outside the set. -/
structure CleanedUp (host : Host) (k k' : PyMachine) : Prop where
  grows : k.state.safePids ⊆ k'.state.safePids
  calls : CallsSince (fun c => started c = none ∧
    ∀ t, killed c = some t → host.pid ∈ k'.state.safePids ∧
      ∃ p, Text.int t = some p ∧ p ∉ k'.state.safePids) k k'

variable {host : Host} {env : PyEnv} {ps : Int → Except Failure Completed} {space : Finset Int}
  {ρ : Type}

theorem CleanedUp.refl (k : PyMachine) : CleanedUp host k k :=
  ⟨Finset.Subset.refl _, CallsSince.refl _ k⟩

theorem quiet_cleanedUp (k : PyMachine) : Quiet harmless (CleanedUp host k) where
  tick := fun _ h => ⟨h.grows, h.calls⟩
  answered := by
    intro k' op r hop h
    refine ⟨h.grows, h.calls.answered ⟨started_of_harmless hop r, fun t ht => ?_⟩⟩
    rw [killed_of_harmless hop r] at ht
    cases ht
  assigned := fun _ _ _ h => ⟨h.grows, h.calls⟩

/-- Before the first kill: the set may still grow. -/
structure Preparing (k k' : PyMachine) : Prop where
  grows : k.state.safePids ⊆ k'.state.safePids
  calls : CallsSince (fun c => started c = none ∧ killed c = none) k k'

theorem Preparing.refl (k : PyMachine) : Preparing k k :=
  ⟨Finset.Subset.refl _, CallsSince.refl _ k⟩

theorem Preparing.updated {k k' : PyMachine} (h : Preparing k k') {f : State → State}
    (hf : k'.state.safePids ⊆ (f k'.state).safePids) : Preparing k (k'.updated f) :=
  ⟨h.grows.trans hf, h.calls⟩

theorem Preparing.cleanedUp {k k' : PyMachine} (h : Preparing k k') : CleanedUp host k k' := by
  obtain ⟨new, hnew, hall⟩ := h.calls
  refine ⟨h.grows, new, hnew, fun c hc => ⟨(hall c hc).1, fun t ht => ?_⟩⟩
  rw [(hall c hc).2] at ht
  cases ht

theorem quiet_preparing (k : PyMachine) : Quiet harmless (Preparing k) where
  tick := fun _ h => ⟨h.grows, h.calls⟩
  answered := fun _ _ r hop h =>
    ⟨h.grows, h.calls.answered ⟨started_of_harmless hop r, killed_of_harmless hop r⟩⟩
  assigned := fun _ _ _ h => ⟨h.grows, h.calls⟩

/-- From the first `pgrep` on the script itself is in the set. -/
def Sweeping (host : Host) (k k' : PyMachine) : Prop :=
  CleanedUp host k k' ∧ host.pid ∈ k'.state.safePids

theorem quiet_safe (A : Footprint Op Vars) (P : Finset Int → Prop) :
    Quiet A (fun k : PyMachine => P k.state.safePids) where
  tick := fun _ hk => hk
  answered := fun _ _ _ _ hk => hk
  assigned := fun _ _ _ hk => hk

theorem quiet_sweeping (k : PyMachine) : Quiet harmless (Sweeping host k) :=
  (quiet_cleanedUp k).and (quiet_safe _ fun safe => host.pid ∈ safe)

/-- The kill goes to a pid that was found outside the set. -/
theorem maintains_sudoKill9 {k : PyMachine} {pid : Text} {pidInt : Int}
    (hint : Text.int pid = some pidInt) :
    Maintains env (fun k' => Sweeping host k k' ∧ pidInt ∉ k'.state.safePids)
      (act (.run (.sudoKill9 pid)) : Py ρ Completed) := by
  have hstep : ∀ (k' : PyMachine) r, Sweeping host k k' ∧ pidInt ∉ k'.state.safePids →
      Sweeping host k (k'.answered (.act (.run (.sudoKill9 pid))) r) ∧
        pidInt ∉ k'.state.safePids := by
    intro k' r h
    refine ⟨⟨⟨h.1.1.grows, h.1.1.calls.answered ⟨rfl, fun t ht => ?_⟩⟩, h.1.2⟩, h.2⟩
    obtain rfl : pid = t := Option.some.inj ht
    exact ⟨h.1.2, pidInt, hint, h.2⟩
  intro k' hk'
  refine wp_act (fun e _ => ?_) (fun r _ => hstep k' (.ok r) hk') fun f _ => hstep k' (.error f) hk'
  exact ⟨(quiet_sweeping k).tick k' hk'.1, hk'.2⟩

theorem maintains_killUnlessScript {k : PyMachine} {pid : Text} {pidInt : Int}
    (hint : Text.int pid = some pidInt) :
    Maintains env (fun k' => Sweeping host k k' ∧ pidInt ∉ k'.state.safePids)
      (killUnlessScript host pid : Py ρ Unit) := by
  refine maintains_bind (maintains_act (A := harmless) ?_ rfl) fun result => ?_
  · exact (quiet_sweeping k).and (quiet_safe _ fun safe => pidInt ∉ safe)
  · refine maintains_bind (maintains_when maintains_cont) fun _ => ?_
    exact maintains_bind (maintains_sudoKill9 hint) fun _ => maintains_pure

theorem maintains_killFound {k : PyMachine} {found : List Text} :
    Maintains env (Sweeping host k) (killFound host found : Py ρ Unit) := by
  refine maintains_bind (maintains_forEach fun pid _ => ?_) fun _ => maintains_pure
  refine maintains_tryException (fun k' hk' => wp_bind ?_) maintains_pure
  unfold intOf
  cases hint : Text.int pid with
  | none => exact wp_raise hk'
  | some pidInt =>
      refine wp_pure (wp_bind (wp_read (wp_when (fun hnot => ?_) fun _ => hk')))
      exact wp_mono (maintains_killUnlessScript hint k' ⟨hk', hnot⟩) (fun _ _ h => h.1)
        fun _ _ h => h.1

theorem maintains_sweep {k : PyMachine} :
    Maintains env (Sweeping host k) (sweep host : Py ρ Unit) := by
  refine maintains_bind (maintains_forEach fun tool _ => ?_) fun _ => maintains_pure
  refine maintains_tryException ?_ maintains_pure
  exact maintains_bind (maintains_act (quiet_sweeping k) rfl) fun _ => maintains_killFound

theorem maintains_addParent {k : PyMachine} :
    Maintains env (fun k' => Preparing k k' ∧ host.pid ∈ k'.state.safePids)
      (addParent : Py ρ Unit) := by
  have hquiet : Quiet harmless fun k' : PyMachine =>
      Preparing k k' ∧ host.pid ∈ k'.state.safePids :=
    (quiet_preparing k).and (quiet_safe _ fun safe => host.pid ∈ safe)
  refine maintains_tryAny (maintains_bind (maintains_act hquiet rfl) fun parentPid => ?_)
    maintains_pure
  refine keeps_addSafe hquiet (fun k' pid hk' => ?_) fun _ _ hk' => hk'
  exact ⟨hk'.1.updated (Finset.subset_insert _ _), Finset.mem_insert_of_mem hk'.2⟩

/-- Whatever the state is and whatever `pgrep` finds, a cleanup kills outside the set. -/
theorem wp_cleanupProcesses (k : PyMachine) :
    wp env (cleanupProcesses host : Py ρ Unit) (fun _ => CleanedUp host k)
      (fun _ => CleanedUp host k) k := by
  refine wp_bind (wp_read (wp_when (fun _ => ?_) fun _ => CleanedUp.refl k))
  refine ends_tryFinally (ends_tryExcept ?_ ?_) ?_
  · let k₁ := k.updated fun s => { s with cleanupInProgress := true }
    have hfirst : Preparing k k₁ := (Preparing.refl k).updated (Finset.Subset.refl _)
    refine wp_bind (wp_update (fun _ _ => (quiet_cleanedUp k).tick k (CleanedUp.refl k))
      fun _ => ?_)
    refine wp_bind (wp_update (fun _ _ => (quiet_cleanedUp k).tick k₁ hfirst.cleanedUp)
      fun _ => ?_)
    have hown : Preparing k (k₁.updated fun s => s.addSafe host.pid) ∧
        host.pid ∈ (k₁.updated fun s => s.addSafe host.pid).state.safePids :=
      ⟨hfirst.updated (Finset.subset_insert _ _), Finset.mem_insert_self _ _⟩
    refine wp_bind (wp_mono (maintains_addParent _ hown) (fun _ k₂ hk₂ => ?_)
      fun _ _ h => h.1.cleanedUp)
    refine wp_bind (wp_mono (maintains_sweep k₂ ⟨hk₂.1.cleanedUp, hk₂.2⟩) (fun _ k₃ hk₃ => ?_)
      fun _ _ h => h.1)
    exact maintains_ask (quiet_cleanedUp k) rfl k₃ hk₃.1
  · exact fun _ _ heq => eq_of_onException heq ▸ maintains_pure
  · exact maintains_update (quiet_cleanedUp k) fun _ h => ⟨h.grows, h.calls⟩

/-- What holds between any two calls of the script outside `init_safe_pids` and
`startServer`. -/
structure Guarded (host : Host) (env : PyEnv) (guarded : Int → Prop) (k : PyMachine) : Prop where
  safe : ∀ p, guarded p → p ∈ k.state.safePids
  servers : ∀ c ∈ k.calls, ∀ p, started c = some p → p ∈ k.state.safePids ∨ CutOff env p
  spared : KillsSpare (fun p => p = host.pid ∨ guarded p) env k.calls

theorem KillsSpare.concat {guarded : Int → Prop} {calls : List Call} {c : Call}
    (h : KillsSpare guarded env calls)
    (hc : ∀ t, killed c = some t → ∃ p, Text.int t = some p ∧ ¬ guarded p ∧
      ∀ d ∈ calls, started d = some p → CutOff env p) :
    KillsSpare guarded env (calls ++ [c]) := by
  intro before c' hprefix t ht
  rcases List.prefix_concat_iff.mp hprefix with heq | hold
  · obtain ⟨rfl, hlast⟩ := List.append_inj' heq rfl
    obtain rfl := List.singleton_inj.mp hlast
    exact hc t ht
  · exact h before c' hold t ht

/-- The new calls have started nothing and killed outside what was guarded. -/
theorem KillsSpare.append {guarded : Int → Prop} {calls new : List Call}
    (h : KillsSpare guarded env calls)
    (hnew : ∀ c ∈ new, started c = none ∧ ∀ t, killed c = some t →
      ∃ p, Text.int t = some p ∧ ¬ guarded p ∧
        ∀ d ∈ calls, started d = some p → CutOff env p) :
    KillsSpare guarded env (calls ++ new) := by
  induction new using List.reverseRecOn with
  | nil => simpa using h
  | append_singleton new c ih =>
      rw [← List.append_assoc]
      refine KillsSpare.concat (ih fun c hc => hnew c (List.mem_append_left _ hc)) fun t ht => ?_
      obtain ⟨p, hint, hguarded, hservers⟩ := (hnew c (by simp)).2 t ht
      refine ⟨p, hint, hguarded, fun d hd hstart => ?_⟩
      rcases List.mem_append.mp hd with hold | hd
      · exact hservers d hold hstart
      · rw [(hnew d (List.mem_append_left _ hd)).1] at hstart
        cases hstart

section Guarded

variable {guarded : Int → Prop} {k k' : PyMachine}

theorem Guarded.cleanedUp (h : Guarded host env guarded k) (hk' : CleanedUp host k k') :
    Guarded host env guarded k' := by
  obtain ⟨new, hnew, hall⟩ := hk'.calls
  refine ⟨fun p hp => hk'.grows (h.safe p hp), fun c hc p hp => ?_, ?_⟩
  · rw [hnew] at hc
    rcases List.mem_append.mp hc with hc | hc
    · exact (h.servers c hc p hp).imp_left fun hmem => hk'.grows hmem
    · rw [(hall c hc).1] at hp
      cases hp
  · rw [hnew]
    refine h.spared.append fun c hc => ⟨(hall c hc).1, fun t ht => ?_⟩
    obtain ⟨hown, p, hint, hout⟩ := (hall c hc).2 t ht
    refine ⟨p, hint, ?_, fun d hd hp => ?_⟩
    · rintro (rfl | hp)
      · exact hout hown
      · exact hout (hk'.grows (h.safe p hp))
    · exact (h.servers d hd p hp).resolve_left fun hmem => hout (hk'.grows hmem)

/-- A call that neither kills nor leaves a server outside the set. -/
theorem Guarded.answered (h : Guarded host env guarded k) {op : Op} {r : op.Reply}
    (hkilled : killed ⟨op, r⟩ = none)
    (hstarted : ∀ p, started ⟨op, r⟩ = some p → p ∈ k.state.safePids ∨ CutOff env p) :
    Guarded host env guarded (k.answered op r) := by
  refine ⟨h.safe, fun c hc p hp => ?_, h.spared.concat fun t ht => ?_⟩
  · rcases List.mem_append.mp hc with hc | hc
    · exact h.servers c hc p hp
    · obtain rfl := List.mem_singleton.mp hc
      exact hstarted p hp
  · rw [hkilled] at ht
    cases ht

theorem quiet_guarded : Quiet harmless (Guarded host env guarded) where
  tick := fun _ h => ⟨h.safe, h.servers, h.spared⟩
  answered := by
    intro k op r hop h
    refine h.answered (killed_of_harmless hop r) fun p hp => ?_
    rw [started_of_harmless hop r] at hp
    cases hp
  assigned := fun _ _ _ h => ⟨h.safe, h.servers, h.spared⟩

theorem Guarded.updated (h : Guarded host env guarded k) {f : State → State}
    (hf : k.state.safePids ⊆ (f k.state).safePids) : Guarded host env guarded (k.updated f) where
  safe := fun p hp => hf (h.safe p hp)
  servers := fun c hc p hp => (h.servers c hc p hp).imp_left fun hmem => hf hmem
  spared := h.spared

theorem maintains_cleanupProcesses :
    Maintains env (Guarded host env guarded) (cleanupProcesses host : Py ρ Unit) :=
  fun k hk => wp_mono (wp_cleanupProcesses k) (fun _ _ h => hk.cleanedUp h)
    fun _ _ h => hk.cleanedUp h

/-- The server is in the set when its start is over, unless it was cut off. -/
theorem maintains_startServer {server : Server} :
    Maintains env (Guarded host env guarded) (startServer server : Py ρ Unit) := by
  intro k hk
  refine wp_bind (wp_act (fun _ _ => quiet_guarded.tick k hk) (fun pid hpid => ?_) fun f _ => ?_)
  · have hcut (h : (env.interrupt (k.clock + 1)).isSome ∨ (env.interrupt (k.clock + 2)).isSome) :
        Guarded host env guarded (k.answered (.act (.popen server)) (.ok pid)) := by
      refine hk.answered rfl fun p hp => Or.inr ?_
      obtain rfl : pid = p := Option.some.inj hp
      exact ⟨k.clock, server, hpid, h⟩
    refine wp_bind (wp_assign (fun e he => ?_) fun _ => wp_update (fun e he => ?_) fun _ => ?_)
    · exact quiet_guarded.tick _ (hcut (Or.inl (Option.isSome_of_eq_some he)))
    · have h := hcut (Or.inr (Option.isSome_of_eq_some he))
      exact ⟨h.safe, h.servers, h.spared⟩
    · have hmem : ∀ p, started ⟨.act (.popen server), .ok pid⟩ = some p →
          p ∈ insert pid k.state.safePids ∨ CutOff env p := by
        intro p hp
        obtain rfl : pid = p := Option.some.inj hp
        exact Or.inl (Finset.mem_insert_self _ _)
      have hadded : Guarded host env guarded (k.updated fun s => s.addSafe pid) :=
        hk.updated (Finset.subset_insert _ _)
      have h := hadded.answered rfl hmem
      exact ⟨h.safe, h.servers, h.spared⟩
  · exact hk.answered rfl fun p hp => by cases hp

theorem bystander_guarded :
    Bystander host env harmless (Guarded host env guarded) where
  plain := harmless_of_plain
  assigns := fun _ => trivial
  quiet := quiet_guarded
  marked := fun _ h => ⟨h.safe, h.servers, h.spared⟩
  cleanup := fun _ => maintains_cleanupProcesses
  server := fun _ _ => maintains_startServer

theorem maintains_runLeg {leg : Leg} {command : Command}
    (hcommand : (Op.act (.run command)).harmless = true) :
    Maintains env (Guarded host env guarded) (runLeg host leg command : Py ρ Unit) :=
  bystander_guarded.runLeg hcommand fun _ _ _ _ h => h.updated (Finset.Subset.refl _)

/-- `main` after `init_safe_pids`. -/
theorem maintains_afterInit {ended : Bool} :
    Maintains env (Guarded host env guarded) (afterInit host ended) := by
  have h : Bystander host env harmless (Guarded host env guarded) := bystander_guarded
  refine fun k hk => h.afterInit h (fun _ hk => hk) (fun k hk => ?_) hk
  refine h.mainBody h (fun _ hk => hk) (maintains_runLeg rfl) (maintains_runLeg rfl) ?_ hk
  exact h.runUserspaceSyscall (maintains_runLeg rfl) (maintains_runLeg rfl)

theorem Guarded.of_preparing (h : Preparing start k)
    (hsafe : ∀ p, guarded p → p ∈ k.state.safePids) : Guarded host env guarded k := by
  obtain ⟨new, hnew, hall⟩ := h.calls
  rw [show start.calls = [] from rfl, List.nil_append] at hnew
  refine ⟨hsafe, fun c hc p hp => ?_, fun before c hprefix t ht => ?_⟩
  · rw [hnew] at hc
    rw [(hall c hc).1] at hp
    cases hp
  · have hc : c ∈ new := by
      rw [← hnew]
      exact hprefix.subset (by simp)
    rw [(hall c hc).2] at ht
    cases ht

end Guarded

/-- What is reached from the script, unless a signal came before `init_safe_pids` was
over. -/
def Launcher (host : Host) (env : PyEnv) (ps : Int → Except Failure Completed) (fuel : Nat)
    (p : Int) : Prop :=
  ¬ Struck env ((initSafePids host fuel : Py Bool Bool) env start).2 ∧ Reached ps host.pid p

theorem guarded_initSafePids
    (hps : ∀ n pid, env.answer n (.act (.run (.parentOf pid))) = ps pid)
    (hspace : ∀ p q, parentIn ps p = some q → q ≠ 0 → q ∈ space) {fuel : Nat}
    (hfuel : space.card + 1 < fuel) :
    wp env (initSafePids host fuel : Py Bool Bool)
      (fun _ => Guarded host env (Launcher host env ps fuel))
      (fun _ => Guarded host env (Launcher host env ps fuel)) start := by
  have hcalls : Maintains env (Preparing start) (initSafePids host fuel : Py Bool Bool) :=
    maintains_initSafePids harmless_of_plain (quiet_preparing start)
      fun k pid h => h.updated (Finset.subset_insert _ _)
  refine wp_mono (wp_and (wp_and wp_end (hcalls start (Preparing.refl start)))
    (wp_initSafePids hps hspace hfuel rfl)) ?_ ?_
  · rintro ended k ⟨⟨hend, hprep⟩, -, hcovered⟩
    refine Guarded.of_preparing hprep fun p hp => ?_
    rw [Launcher, ← hend] at hp
    exact hcovered.reached.resolve_left hp.1 p hp.2
  · rintro x k ⟨⟨hend, hprep⟩, hstruck⟩
    refine Guarded.of_preparing hprep fun p hp => ?_
    rw [Launcher, ← hend] at hp
    exact absurd hstruck hp.1

theorem guarded_program
    (hps : ∀ n pid, env.answer n (.act (.run (.parentOf pid))) = ps pid)
    (hspace : ∀ p q, parentIn ps p = some q → q ≠ 0 → q ∈ space) {fuel : Nat}
    (hfuel : space.card + 1 < fuel) :
    Guarded host env (Launcher host env ps fuel) (program host fuel env start).2 :=
  bystander_guarded.program (guarded_initSafePids hps hspace hfuel)
    fun _ k hk => maintains_afterInit k hk

/-- For every parent relation and all outcomes of all calls: `init_safe_pids` ends with
the set covered; every cleanup kills outside the set only; and in no run does a kill
go to the script, to what launched it, or to a server that was started before. -/
theorem spares_launchers
    (hps : ∀ n pid, env.answer n (.act (.run (.parentOf pid))) = ps pid)
    (hspace : ∀ p q, parentIn ps p = some q → q ≠ 0 → q ∈ space) {fuel : Nat}
    (hfuel : space.card + 1 < fuel) :
    wp env (initSafePids host fuel : Py Bool Bool)
      (fun ended k => ended = true ∧ Covered host env ps k) (fun _ => Struck env) start ∧
    (∀ k : PyMachine, CleanedUp host k ((cleanupProcesses host : Py Bool Unit) env k).2) ∧
    KillsSpare (fun p => p = host.pid ∨ Launcher host env ps fuel p) env
      (program host fuel env start).2.calls :=
  ⟨wp_initSafePids hps hspace hfuel rfl, fun k => at_end (wp_cleanupProcesses k),
    (guarded_program hps hspace hfuel).spared⟩

/-- Three processes, each the parent of the one before it. -/
def cycle (pid : Int) : Except Failure Completed :=
  if pid = 10 then .ok ⟨0, " 7\n".toList, []⟩
  else if pid = 7 then .ok ⟨0, " 1\n".toList, []⟩
  else if pid = 1 then .ok ⟨0, "10\n".toList, []⟩
  else .error .other

/-- `pgrep` finds two of the three and a victim. -/
def cycleEnv : PyEnv where
  answer := fun _ op =>
    match op with
    | .ask .isRoot => true
    | .ask (.pathExists _) => false
    | .ask .poll => none
    | .ask .isArm => true
    | .ask .sleep => ()
    | .act (.run (.parentOf pid)) => cycle pid
    | .act (.run (.pgrep .victim)) => .ok ⟨0, "7\n10\n25\n".toList, []⟩
    | .act (.run (.commandOf _)) => .ok ⟨0, "victim\n".toList, []⟩
    | .act _ => .error .other
  interrupt := fun _ => none

theorem parentIn_cycle {p q : Int} (h : parentIn cycle p = some q) :
    q ∈ ({10, 7, 1} : Finset Int) := by
  by_cases h10 : p = 10
  · have hq : parentIn cycle 10 = some 7 := by decide +kernel
    rw [h10, hq] at h
    obtain rfl := Option.some.inj h
    decide
  by_cases h7 : p = 7
  · have hq : parentIn cycle 7 = some 1 := by decide +kernel
    rw [h7, hq] at h
    obtain rfl := Option.some.inj h
    decide
  by_cases h1 : p = 1
  · have hq : parentIn cycle 1 = some 10 := by decide +kernel
    rw [h1, hq] at h
    obtain rfl := Option.some.inj h
    decide
  · simp [parentIn, cycle, h10, h7, h1] at h

theorem spares_launchers_cycle :
    KillsSpare (fun p => p = 10 ∨
        Launcher ⟨10, by decide, "benchmark.py".toList, 1⟩ cycleEnv cycle 5 p) cycleEnv
      (program ⟨10, by decide, "benchmark.py".toList, 1⟩ 5 cycleEnv start).2.calls :=
  (@spares_launchers ⟨10, by decide, "benchmark.py".toList, 1⟩ cycleEnv cycle {10, 7, 1}
    (fun _ _ => rfl) (fun _ _ h _ => parentIn_cycle h) 5 (by decide)).2.2

end BpftimeBenchmark.Bench.Syscall
