import BpftimeBenchmark.Bench.SyscallRules
import Mathlib.Data.Finset.Card

/-!
`init_safe_pids` of `syscall/benchmark.py`. The walk over the ancestors ends since the
set that it fills grows, and leaves the set closed under parents, whatever `ps`
reports; what is added later is added only.
-/

namespace BpftimeBenchmark.Bench.Syscall

open Scripts Script

/-- The pid that a call of `sudo kill -9` was given. -/
def killed : Call → Option Text
  | ⟨.act (.run (.sudoKill9 pid)), _⟩ => some pid
  | _ => none

/-- The pid of the server that a call has started. -/
def started : Call → Option Int
  | ⟨.act (.popen _), .ok pid⟩ => some pid
  | _ => none

/-- The parent that the lookups report for a pid; a failed one reports none. -/
def parentIn (ps : Int → Except Failure Completed) (pid : Int) : Option Int :=
  match ps pid with
  | .ok result =>
      let parentOutput := Text.strip result.stdout
      if parentOutput ≠ [] then Text.int parentOutput else some 0
  | .error _ => none

/-- What is reached by following parents until zero or a failed lookup. -/
inductive Reached (ps : Int → Except Failure Completed) (pid : Int) : Int → Prop
  | own : Reached ps pid pid
  | parent {p q : Int} (hp : Reached ps pid p) (h : parentIn ps p = some q) (hq : q ≠ 0) :
      Reached ps pid q

/-- A signal has come. -/
def Struck (env : PyEnv) (k : PyMachine) : Prop := ∃ n < k.clock, (env.interrupt n).isSome

variable {host : Host} {env : PyEnv} {ps : Int → Except Failure Completed} {space : Finset Int}
  {ρ : Type}

/-- Every reported parent is in the set, or is the pid to be added next. -/
def ClosedBut (ps : Int → Except Failure Completed) (safe : Finset Int) (next : Int) : Prop :=
  ∀ p ∈ safe, ∀ q, parentIn ps p = some q → q ≠ 0 → q ∈ safe ∨ q = next

theorem ClosedBut.add {safe : Finset Int} {pid next : Int} (h : ClosedBut ps safe pid)
    (hnext : ∀ q, parentIn ps pid = some q → q ≠ 0 → q = next) :
    ClosedBut ps (insert pid safe) next := by
  intro p hp q hq hzero
  rcases Finset.mem_insert.mp hp with rfl | hp
  · exact Or.inr (hnext q hq hzero)
  · left
    rcases h p hp q hq hzero with hmem | rfl
    · exact Finset.mem_insert_of_mem hmem
    · exact Finset.mem_insert_self q safe

/-- A closed set that holds the script holds what is reached from it. -/
theorem mem_of_reached {safe : Finset Int} {pid : Int} (hpid : pid ∈ safe)
    (h : ClosedBut ps safe 0) {p : Int} (hp : Reached ps pid p) : p ∈ safe := by
  induction hp with
  | own => exact hpid
  | parent _ hq hzero ih => exact (h _ ih _ hq hzero).resolve_right hzero

theorem Struck.mono {k k' : PyMachine} (h : Struck env k) (hclock : k.clock ≤ k'.clock) :
    Struck env k' := by
  obtain ⟨n, hn, hinterrupt⟩ := h
  exact ⟨n, hn.trans_le hclock, hinterrupt⟩

theorem struck_tick {k : PyMachine} {e : Exc} (h : env.interrupt k.clock = some e) :
    Struck env k.tick := ⟨k.clock, Nat.lt_succ_self _, by rw [h]; rfl⟩

/-- The lookup answers what the relation says, unless a signal strikes. -/
theorem wp_lookupParent (hps : ∀ n pid, env.answer n (.act (.run (.parentOf pid))) = ps pid)
    {pid : Int} {k : PyMachine} {X : Exit Exc ρ → PyMachine → Prop} :
    wp env (lookupParent pid : Py ρ (Option Int)) (fun parent k' =>
      k'.state = k.state ∧ k.clock ≤ k'.clock ∧
        match parent with
        | some q => parentIn ps pid = some q
        | none => Struck env k' ∨ parentIn ps pid = none) X k := by
  let R : Exc → PyMachine → Prop := fun _ k' =>
    k'.state = k.state ∧ k.clock ≤ k'.clock ∧ (Struck env k' ∨ parentIn ps pid = none)
  refine @wp_tryExcept _ _ _ _ _ _ _ _ _ _ _ _ _ R ?_ fun e k' h => wp_pure h
  refine wp_bind (wp_act ?_ ?_ ?_)
  · exact fun e he => ⟨rfl, Nat.le_succ _, Or.inl (struck_tick he)⟩
  · intro result hr
    have hparent : parentIn ps pid =
        if Text.strip result.stdout ≠ [] then Text.int (Text.strip result.stdout) else some 0 := by
      rw [hps] at hr
      rw [parentIn, hr]
    refine wp_bind ?_
    unfold parentFrom
    by_cases hout : Text.strip result.stdout = []
    · rw [if_neg (not_not.mpr hout)] at hparent
      simp only [hout, ne_eq, not_true_eq_false, if_false]
      exact wp_pure (wp_pure ⟨rfl, Nat.le_succ _, hparent⟩)
    · rw [if_pos hout] at hparent
      simp only [ne_eq, hout, not_false_eq_true, if_true, intOf]
      cases hint : Text.int (Text.strip result.stdout) with
      | some n =>
          rw [hint] at hparent
          exact wp_pure (wp_pure ⟨rfl, Nat.le_succ _, hparent⟩)
      | none =>
          rw [hint] at hparent
          exact wp_raise ⟨rfl, Nat.le_succ _, Or.inr hparent⟩
  · intro f hf
    have hparent : parentIn ps pid = none := by
      rw [hps] at hf
      rw [parentIn, hf]
    exact ⟨rfl, Nat.le_succ _, Or.inr hparent⟩

/-- The loop of `init_safe_pids` before it takes up `currentPid`. -/
structure Walking (host : Host) (env : PyEnv) (ps : Int → Except Failure Completed)
    (currentPid : Int) (k : PyMachine) : Prop where
  own : host.pid ∈ k.state.safePids ∨ currentPid = host.pid
  closed : Struck env k ∨ ClosedBut ps k.state.safePids currentPid

/-- The set holds the script and, unless a signal came, all that is reached from it. -/
structure Covered (host : Host) (env : PyEnv) (ps : Int → Except Failure Completed)
    (k : PyMachine) : Prop where
  own : host.pid ∈ k.state.safePids
  reached : Struck env k ∨ ∀ p, Reached ps host.pid p → p ∈ k.state.safePids

theorem Walking.covered {k : PyMachine} (h : Walking host env ps 0 k) : Covered host env ps k := by
  have hown : host.pid ∈ k.state.safePids :=
    h.own.resolve_right fun hzero => host.pid_pos.ne hzero
  exact ⟨hown, h.closed.imp_right fun hclosed _ hp => mem_of_reached hown hclosed hp⟩

/-- The loop ends where the pid is zero or in the set. -/
theorem Walking.ended {currentPid : Int} {k : PyMachine} (h : Walking host env ps currentPid k)
    (hend : currentPid = 0 ∨ currentPid ∈ k.state.safePids) : Walking host env ps 0 k := by
  rcases hend with rfl | hmem
  · exact h
  · refine ⟨Or.inl (h.own.elim id fun heq => heq ▸ hmem), h.closed.imp_right fun hclosed => ?_⟩
    intro p hp q hq hzero
    rcases hclosed p hp q hq hzero with hq | rfl
    · exact Or.inl hq
    · exact Or.inl hmem

theorem Walking.step {currentPid next : Int} {k k' : PyMachine}
    (h : Walking host env ps currentPid k) (hstate : k'.state = k.state.addSafe currentPid)
    (hclock : k.clock ≤ k'.clock)
    (hnext : Struck env k' ∨ ∀ q, parentIn ps currentPid = some q → q ≠ 0 → q = next) :
    Walking host env ps next k' := by
  have hsafe : k'.state.safePids = insert currentPid k.state.safePids := by rw [hstate]; rfl
  constructor
  · left
    rw [hsafe, Finset.mem_insert]
    exact h.own.elim Or.inr fun heq => Or.inl heq.symm
  · rcases hnext with hstruck | hnext
    · exact Or.inl hstruck
    · rw [hsafe]
      exact h.closed.imp (fun hstruck => hstruck.mono hclock) fun hclosed => hclosed.add hnext

/-- The walk ends since each round takes a pid that is not in the set yet. -/
theorem wp_addAncestors
    (hps : ∀ n pid, env.answer n (.act (.run (.parentOf pid))) = ps pid)
    (hspace : ∀ p q, parentIn ps p = some q → q ≠ 0 → q ∈ space)
    {fuel : Nat} {currentPid : Int} {k : PyMachine} (h : Walking host env ps currentPid k)
    (hpid : currentPid ≠ 0 → currentPid ∈ insert host.pid space)
    (hfuel : (insert host.pid space \ k.state.safePids).card < fuel) :
    wp env (addAncestors fuel currentPid : Py ρ Bool)
      (fun ended k' => ended = true ∧ Covered host env ps k') (fun _ => Struck env) k := by
  induction fuel generalizing currentPid k with
  | zero => omega
  | succ fuel ih =>
      refine wp_bind (wp_read ?_)
      split
      · rename_i hend
        exact wp_pure ⟨rfl, (h.ended hend).covered⟩
      · rename_i hgo
        obtain ⟨hzero, hnew⟩ := not_or.mp hgo
        have hcard : (insert host.pid space \ insert currentPid k.state.safePids).card < fuel := by
          have hmem : currentPid ∈ insert host.pid space \ k.state.safePids :=
            Finset.mem_sdiff.mpr ⟨hpid hzero, hnew⟩
          have hless := Finset.card_erase_lt_of_mem hmem
          rw [← Finset.sdiff_insert] at hless
          omega
        refine wp_bind (wp_update (fun e he => struck_tick he) fun _ => ?_)
        refine wp_bind (wp_mono (wp_lookupParent hps) ?_ fun _ _ hx => hx)
        rintro (_ | q) k' ⟨hstate, hclock, hparent⟩
        · have hdone : Walking host env ps 0 k' :=
            h.step hstate (Nat.le_of_succ_le hclock) (hparent.imp_right fun hnone q hq => by
              rw [hnone] at hq
              cases hq)
          exact wp_pure ⟨rfl, hdone.covered⟩
        · refine ih ?_ (fun hq => Finset.mem_insert_of_mem (hspace _ q hparent hq)) ?_
          · refine h.step hstate (Nat.le_of_succ_le hclock) (Or.inr fun q' hq' _ => ?_)
            rw [hparent] at hq'
            exact (Option.some.inj hq').symm
          · rw [hstate]
            exact hcard

/-- All but the kill of the cleanup and the start of a server. -/
def Op.harmless : Op → Bool
  | .act (.popen _) => false
  | .act (.run (.sudoKill9 _)) => false
  | _ => true

def harmless : Footprint Op Vars := ⟨fun op => op.harmless = true, fun _ => True⟩

theorem killed_of_harmless {op : Op} (h : op.harmless = true) (r : op.Reply) :
    killed ⟨op, r⟩ = none := by
  unfold killed
  split
  · rename_i heq
    cases heq
    cases h
  · rfl

theorem started_of_harmless {op : Op} (h : op.harmless = true) (r : op.Reply) :
    started ⟨op, r⟩ = none := by
  unfold started
  split
  · rename_i heq
    cases heq
    cases h
  · rfl

theorem harmless_of_plain (op : Op) (h : op.plain = true) : harmless.calls op := by
  show op.harmless = true
  unfold Op.harmless
  split <;> first | rfl | cases h

theorem Covered.grows {k k' : PyMachine} (h : Covered host env ps k)
    (hsafe : k.state.safePids ⊆ k'.state.safePids) (hclock : k.clock ≤ k'.clock) :
    Covered host env ps k' where
  own := hsafe h.own
  reached := h.reached.imp (fun hstruck => hstruck.mono hclock)
    fun hreached p hp => hsafe (hreached p hp)

theorem quiet_covered : Quiet harmless (Covered host env ps) where
  tick := fun _ h => h.grows (Finset.Subset.refl _) (Nat.le_succ _)
  answered := fun _ _ _ _ h => h.grows (Finset.Subset.refl _) (Nat.le_succ _)
  assigned := fun _ _ _ h => h.grows (Finset.Subset.refl _) (Nat.le_succ _)

theorem Covered.addSafe {k : PyMachine} {pid : Int} (h : Covered host env ps k) :
    Covered host env ps (k.updated (fun s => s.addSafe pid)) :=
  h.grows (Finset.subset_insert _ _) (Nat.le_succ _)

/-- `init_safe_pids` comes to its end with the set covered, or a signal has come. -/
theorem wp_initSafePids
    (hps : ∀ n pid, env.answer n (.act (.run (.parentOf pid))) = ps pid)
    (hspace : ∀ p q, parentIn ps p = some q → q ≠ 0 → q ∈ space) {fuel : Nat}
    (hfuel : space.card + 1 < fuel) {k : PyMachine} (hk : k.state.safePids = ∅) :
    wp env (initSafePids host fuel : Py ρ Bool)
      (fun ended k' => ended = true ∧ Covered host env ps k') (fun _ => Struck env) k := by
  have hwalking : Walking host env ps host.pid k := by
    refine ⟨Or.inr rfl, Or.inr fun p hp => ?_⟩
    rw [hk] at hp
    exact absurd hp (Finset.notMem_empty p)
  have hcard : (insert host.pid space \ k.state.safePids).card < fuel := by
    rw [hk, Finset.sdiff_empty]
    exact (Finset.card_insert_le _ _).trans_lt hfuel
  have hadd : ∀ (k : PyMachine) pid, Covered host env ps k →
      Covered host env ps (k.updated (fun s => s.addSafe pid)) := fun _ _ h => h.addSafe
  refine wp_bind (wp_mono (wp_addAncestors hps hspace hwalking
    (fun _ => Finset.mem_insert_self _ _) hcard) ?_ fun _ _ hstruck => hstruck)
  rintro ended k₁ ⟨hended, hk₁⟩
  refine wp_bind (wp_mono (keeps_addGroup harmless_of_plain quiet_covered hadd k₁ hk₁)
    (fun _ k₂ hk₂ => ?_) fun _ _ hx => hx)
  refine wp_bind (wp_mono (keeps_addScripts harmless_of_plain quiet_covered hadd k₂ hk₂)
    (fun _ k₃ hk₃ => ?_) fun _ _ hx => hx)
  exact wp_pure ⟨hended, hk₃⟩

end BpftimeBenchmark.Bench.Syscall
