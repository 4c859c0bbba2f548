import BpftimeBenchmark.Lib.Script

/-!
Invariants of scripts. A script keeps an invariant when it ends in the invariant
wherever it runs to its end, and in what its exits ask for wherever it leaves. A
steady script keeps every invariant that speaks only of the record, so one
statement about a helper serves every claim about its callers.
-/

namespace BpftimeBenchmark.Scripts

variable {Op : Type} {Reply : Op → Type} {σ ν ε ρ α β : Type}

/-- The calls and assignments a script may make. -/
structure Footprint (Op ν : Type) where
  calls : Op → Prop
  assigns : (ν → ν) → Prop

def Footprint.all : Footprint Op ν := ⟨fun _ => True, fun _ => True⟩

/-- What the calls and assignments that `A` admits and the interrupts do not
disturb. -/
structure Quiet (A : Footprint Op ν) (inv : Machine Op Reply σ ν → Prop) : Prop where
  tick : ∀ k, inv k → inv k.tick
  answered : ∀ k op (r : Reply op), A.calls op → inv k → inv (k.answered op r)
  assigned : ∀ k (f : ν → ν), A.assigns f → inv k → inv (k.assigned f)

theorem Quiet.and {A : Footprint Op ν} {inv inv' : Machine Op Reply σ ν → Prop}
    (h : Quiet A inv) (h' : Quiet A inv') : Quiet A (fun k => inv k ∧ inv' k) where
  tick := fun k hk => ⟨h.tick k hk.1, h'.tick k hk.2⟩
  answered := fun k op r hop hk => ⟨h.answered k op r hop hk.1, h'.answered k op r hop hk.2⟩
  assigned := fun k f hf hk => ⟨h.assigned k f hf hk.1, h'.assigned k f hf hk.2⟩

theorem Quiet.or {A : Footprint Op ν} {inv inv' : Machine Op Reply σ ν → Prop}
    (h : Quiet A inv) (h' : Quiet A inv') : Quiet A (fun k => inv k ∨ inv' k) where
  tick := fun k hk => hk.imp (h.tick k) (h'.tick k)
  answered := fun k op r hop hk => hk.imp (h.answered k op r hop) (h'.answered k op r hop)
  assigned := fun k f hf hk => hk.imp (h.assigned k f hf) (h'.assigned k f hf)

theorem Quiet.const (A : Footprint Op ν) (p : Prop) :
    Quiet A (fun _ : Machine Op Reply σ ν => p) where
  tick := fun _ hk => hk
  answered := fun _ _ _ _ hk => hk
  assigned := fun _ _ _ hk => hk

theorem Quiet.history (A : Footprint Op ν) (p : List σ → Prop) :
    Quiet A (fun k : Machine Op Reply σ ν => p k.history) where
  tick := fun _ hk => hk
  answered := fun _ _ _ _ hk => hk
  assigned := fun _ _ _ hk => hk

/-- Every state so far has the property. -/
def Always (p : σ → Prop) (k : Machine Op Reply σ ν) : Prop := ∀ s ∈ k.history, p s

theorem quiet_always (A : Footprint Op ν) (p : σ → Prop) :
    Quiet A (Always p : Machine Op Reply σ ν → Prop) :=
  Quiet.history A fun history => ∀ s ∈ history, p s

theorem Always.state {p : σ → Prop} {k : Machine Op Reply σ ν} (h : Always p k) : p k.state :=
  h k.state (List.mem_append_right _ (List.mem_singleton_self _))

theorem Always.updated {p : σ → Prop} {k : Machine Op Reply σ ν} (h : Always p k) {f : σ → σ}
    (hf : p (f k.state)) : Always p (k.updated f) := by
  intro s hs
  rw [Machine.history_updated] at hs
  rcases List.mem_append.mp hs with hs | hs
  · exact h s hs
  · exact List.mem_singleton.mp hs ▸ hf

theorem Always.performed {p : σ → Prop} {k : Machine Op Reply σ ν} (h : Always p k) {op : Op}
    (r : Reply op) {f : σ → σ} (hf : p (f k.state)) : Always p (k.performed op r f) := by
  intro s hs
  rw [Machine.history_performed] at hs
  rcases List.mem_append.mp hs with hs | hs
  · exact h s hs
  · exact List.mem_singleton.mp hs ▸ hf

/-- `k` comes after `k₀`, and `P` holds of the calls in between. -/
def CallsSince (P : (Σ op, Reply op) → Prop) (k₀ k : Machine Op Reply σ ν) : Prop :=
  ∃ added, k.calls = k₀.calls ++ added ∧ ∀ c ∈ added, P c

theorem CallsSince.refl (P : (Σ op, Reply op) → Prop) (k : Machine Op Reply σ ν) :
    CallsSince P k k := ⟨[], by simp, by simp⟩

theorem CallsSince.answered {P : (Σ op, Reply op) → Prop} {k₀ k : Machine Op Reply σ ν}
    (h : CallsSince P k₀ k) {op : Op} {r : Reply op} (hcall : P ⟨op, r⟩) :
    CallsSince P k₀ (k.answered op r) := by
  obtain ⟨added, hadded, hall⟩ := h
  refine ⟨added ++ [⟨op, r⟩], by simp [Machine.answered, hadded], fun c hc => ?_⟩
  rcases List.mem_append.mp hc with hc | hc
  · exact hall c hc
  · obtain rfl := List.mem_singleton.mp hc
    exact hcall

/-- `k` comes after `k₀` with the record of states and marks unchanged. -/
structure Aside (A : Footprint Op ν) (k₀ k : Machine Op Reply σ ν) : Prop where
  state : k.state = k₀.state
  past : k.past = k₀.past
  rounds : k.rounds = k₀.rounds
  calls : ∃ added, k.calls = k₀.calls ++ added ∧ ∀ c ∈ added, A.calls c.1

theorem Aside.refl (A : Footprint Op ν) (k : Machine Op Reply σ ν) : Aside A k k :=
  ⟨rfl, rfl, rfl, CallsSince.refl (fun c => A.calls c.1) k⟩

theorem quiet_aside (A : Footprint Op ν) (k₀ : Machine Op Reply σ ν) :
    Quiet A (Aside A k₀) where
  tick := fun _ h => ⟨h.state, h.past, h.rounds, h.calls⟩
  answered := by
    intro k op r hop h
    have hcalls : CallsSince (fun c => A.calls c.1) k₀ k := h.calls
    exact ⟨h.state, h.past, h.rounds, hcalls.answered hop⟩
  assigned := fun _ _ _ h => ⟨h.state, h.past, h.rounds, h.calls⟩

namespace Script

variable {env : Env Op Reply ε} {A : Footprint Op ν}
  {inv : Machine Op Reply σ ν → Prop} {m : Script Op Reply σ ν ε ρ α}
  {X X' : Exit ε ρ → Machine Op Reply σ ν → Prop}

/-- The exits of a script that can only raise. -/
def onlyRaise (E : ε → Machine Op Reply σ ν → Prop) :
    Exit ε ρ → Machine Op Reply σ ν → Prop
  | .raise e => E e
  | .ret _ => fun _ => False
  | .brk => fun _ => False
  | .cont => fun _ => False

def Keeps (env : Env Op Reply ε) (inv : Machine Op Reply σ ν → Prop)
    (X : Exit ε ρ → Machine Op Reply σ ν → Prop) (m : Script Op Reply σ ν ε ρ α) : Prop :=
  ∀ k, inv k → wp env m (fun _ => inv) X k

theorem onlyRaise_imp {E : ε → Machine Op Reply σ ν → Prop}
    (h : ∀ e k, E e k → X (.raise e) k) (x : Exit ε ρ) (k : Machine Op Reply σ ν)
    (hx : onlyRaise E x k) : X x k := by
  cases x with
  | raise e => exact h e k hx
  | ret v => exact hx.elim
  | brk => exact hx.elim
  | cont => exact hx.elim

/-- What the first part establishes, the second starts from. -/
theorem wp_seq {k : Machine Op Reply σ ν} {P : α → Machine Op Reply σ ν → Prop}
    {Q : β → Machine Op Reply σ ν → Prop} {f : α → Script Op Reply σ ν ε ρ β}
    (h : wp env m P X k) (hf : ∀ a k', P a k' → wp env (f a) Q X k') :
    wp env (m >>= f) Q X k :=
  wp_bind (wp_mono h hf fun _ _ hx => hx)

/-- Where an interrupt strikes, it may leave. -/
def Interrupted (env : Env Op Reply ε) (inv : Machine Op Reply σ ν → Prop)
    (X : Exit ε ρ → Machine Op Reply σ ν → Prop) : Prop :=
  ∀ k e, env.interrupt k.clock = some e → inv k → X (.raise e) k.tick

section Always

variable {p : σ → Prop} {k : Machine Op Reply σ ν}

/-- A call after which the state has the property, whatever the answer. Where the script is
interrupted instead, it is as it was. -/
theorem wp_perform_always {op : Op} {f : Reply op → σ → σ}
    {Q : Reply op → Machine Op Reply σ ν → Prop} (h : Always p k)
    (hf : ∀ r, p (f r k.state))
    (hraise : ∀ e k', ¬ env.Undisturbed → Always p k' → k'.state = k.state → X (.raise e) k')
    (hanswer : ∀ r k', Always p k' → k'.state = f r k.state → Q r k') :
    wp env (perform op f) Q X k := by
  apply wp_perform
  · intro e he
    exact hraise e k.tick (fun henv => by simp [henv k.clock] at he) h rfl
  · intro r
    exact hanswer r _ (h.performed r (hf r)) rfl

theorem wp_call_always {op : Op} {Q : Reply op → Machine Op Reply σ ν → Prop} (h : Always p k)
    (hraise : ∀ e k', ¬ env.Undisturbed → Always p k' → k'.state = k.state → X (.raise e) k')
    (hanswer : ∀ r k', Always p k' → k'.state = k.state → Q r k') :
    wp env (call op) Q X k := by
  apply wp_call
  · intro e he
    exact hraise e k.tick (fun henv => by simp [henv k.clock] at he) h rfl
  · intro _
    exact hanswer _ _ h rfl

theorem wp_update_always {f : σ → σ} {Q : Unit → Machine Op Reply σ ν → Prop}
    (h : Always p k) (hf : p (f k.state))
    (hraise : ∀ e k', ¬ env.Undisturbed → Always p k' → k'.state = k.state → X (.raise e) k')
    (hupdate : ∀ k', Always p k' → k'.state = f k.state → Q () k') :
    wp env (update f) Q X k := by
  apply wp_update
  · intro e he
    exact hraise e k.tick (fun henv => by simp [henv k.clock] at he) h rfl
  · intro _
    exact hupdate _ (h.updated hf) rfl

end Always

theorem keeps_pure {a : α} : Keeps env inv X (pure a) := fun _ hk => wp_pure hk

theorem keeps_raise {e : ε} (h : ∀ k, inv k → X (.raise e) k) :
    Keeps env inv X (raise e : Script Op Reply σ ν ε ρ α) := fun k hk => wp_raise (h k hk)

theorem keeps_ret {v : ρ} (h : ∀ k, inv k → X (.ret v) k) :
    Keeps env inv X (ret v : Script Op Reply σ ν ε ρ α) := fun k hk => wp_ret (h k hk)

theorem keeps_brk (h : ∀ k, inv k → X .brk k) :
    Keeps env inv X (brk : Script Op Reply σ ν ε ρ α) := fun k hk => wp_brk (h k hk)

theorem keeps_cont (h : ∀ k, inv k → X .cont k) :
    Keeps env inv X (cont : Script Op Reply σ ν ε ρ α) := fun k hk => wp_cont (h k hk)

theorem keeps_read : Keeps env inv X (read : Script Op Reply σ ν ε ρ σ) :=
  fun _ hk => wp_read hk

theorem keeps_vars : Keeps env inv X (vars : Script Op Reply σ ν ε ρ ν) :=
  fun _ hk => wp_vars hk

theorem keeps_bind {f : α → Script Op Reply σ ν ε ρ β} (h : Keeps env inv X m)
    (hf : ∀ a, Keeps env inv X (f a)) : Keeps env inv X (m >>= f) := by
  intro k hk
  apply wp_bind
  exact wp_mono (h k hk) (fun a k' hk' => hf a k' hk') (fun _ _ hx => hx)

theorem keeps_ite {c : Prop} [Decidable c] {m' : Script Op Reply σ ν ε ρ α}
    (h : c → Keeps env inv X m) (h' : ¬c → Keeps env inv X m') :
    Keeps env inv X (if c then m else m') := by
  split
  · exact h ‹_›
  · exact h' ‹_›

theorem keeps_when {c : Prop} [Decidable c] {m : Script Op Reply σ ν ε ρ Unit}
    (h : c → Keeps env inv X m) : Keeps env inv X (when c m) :=
  keeps_ite h fun _ => keeps_pure

theorem keeps_call {op : Op} (hint : Interrupted env inv X) (hquiet : Quiet A inv)
    (hop : A.calls op) : Keeps env inv X (call op : Script Op Reply σ ν ε ρ (Reply op)) := by
  intro k hk
  apply wp_call
  · intro e he
    exact hint k e he hk
  · intro _
    exact hquiet.answered k op _ hop hk

theorem keeps_assign {f : ν → ν} (hint : Interrupted env inv X) (hquiet : Quiet A inv)
    (hf : A.assigns f) :
    Keeps env inv X (assign f : Script Op Reply σ ν ε ρ Unit) := by
  intro k hk
  apply wp_assign
  · intro e he
    exact hint k e he hk
  · intro _
    exact hquiet.assigned k f hf hk

theorem keeps_update {f : σ → σ} (hint : Interrupted env inv X)
    (h : ∀ k, inv k → inv (k.updated f)) :
    Keeps env inv X (update f : Script Op Reply σ ν ε ρ Unit) := by
  intro k hk
  apply wp_update
  · intro e he
    exact hint k e he hk
  · intro _
    exact h k hk

theorem keeps_mono (h : Keeps env inv X m) (hX : ∀ x k, X x k → X' x k) :
    Keeps env inv X' m :=
  fun k hk => wp_mono (h k hk) (fun _ _ hq => hq) hX

theorem keeps_tryExcept {handler : ε → Option (Script Op Reply σ ν ε ρ α)}
    {E : ε → Machine Op Reply σ ν → Prop} (hbody : Keeps env inv (raising E X) m)
    (hhandler : ∀ e k, E e k →
      match handler e with
      | some h => wp env h (fun _ => inv) X k
      | none => X (.raise e) k) :
    Keeps env inv X (tryExcept m handler) := by
  intro k hk
  exact wp_tryExcept (hbody k hk) hhandler

theorem keeps_tryFinally {final : Script Op Reply σ ν ε ρ Unit}
    {Y : Exit ε ρ → Machine Op Reply σ ν → Prop} (hbody : Keeps env inv Y m)
    (hfinal : Keeps env inv X final)
    (hexit : ∀ x k, Y x k → wp env final (fun _ => X x) X k) :
    Keeps env inv X (tryFinally m final) := by
  intro k hk
  refine wp_tryFinally (wp_mono (hbody k hk) (fun a k' hk' => ?_) hexit)
  exact hfinal k' hk'

theorem keeps_func {body : Script Op Reply σ ν ε α α}
    {X : Exit ε ρ → Machine Op Reply σ ν → Prop}
    (h : Keeps env inv (funcExit (fun _ => inv) X) body) :
    Keeps env inv X (func body : Script Op Reply σ ν ε ρ α) := by
  intro k hk
  exact wp_func (h k hk)

theorem keeps_forEach {body : β → Script Op Reply σ ν ε ρ Unit} {items : List β}
    (h : ∀ a ∈ items, Keeps env inv (roundExit (fun _ => inv) X) (body a)) :
    Keeps env inv X (forEach items body) := by
  induction items with
  | nil => exact keeps_pure
  | cons a rest ih =>
      refine keeps_bind (fun k hk => wp_round (h a (by simp) k hk)) fun go => ?_
      refine keeps_ite (fun _ => ?_) (fun _ => keeps_pure)
      exact ih (fun b hb => h b (by simp [hb]))

theorem keeps_forFrom {body : Nat → Script Op Reply σ ν ε ρ Unit}
    (h : ∀ i, Keeps env inv (roundExit (fun _ => inv) X) (body i)) (i n : Nat) :
    Keeps env inv X (forFrom body i n) := by
  induction n generalizing i with
  | zero => exact keeps_pure
  | succ n ih =>
      refine keeps_bind (fun k hk => wp_round (h i k hk)) fun go => ?_
      exact keeps_ite (fun _ => ih (i + 1)) (fun _ => keeps_pure)

/-- The exits `Y` put up with what happens outside the record, interrupts
included. -/
structure Channel (env : Env Op Reply ε) (A : Footprint Op ν)
    (Y : Exit ε ρ → Machine Op Reply σ ν → Prop) : Prop where
  quiet : ∀ x, Quiet A (Y x)
  interrupt : ∀ (k : Machine Op Reply σ ν) e,
    env.interrupt k.clock = some e → Y (.raise e) k.tick

/-- The script leaves the record alone, asks only what `A` admits, and leaves
only as `Y` says. -/
def Steady (env : Env Op Reply ε) (A : Footprint Op ν)
    (Y : Exit ε ρ → Machine Op Reply σ ν → Prop) (m : Script Op Reply σ ν ε ρ α) : Prop :=
  ∀ inv, Quiet A inv → Keeps env inv (fun x k => Y x k ∧ inv k) m

section Steady

variable {Y : Exit ε ρ → Machine Op Reply σ ν → Prop}

theorem Channel.of_undisturbed (henv : env.Undisturbed) (hY : ∀ x, Quiet A (Y x)) :
    Channel env A Y :=
  ⟨hY, fun k e he => by simp [henv k.clock] at he⟩

theorem quiet_onlyRaise (A : Footprint Op ν) (p : ε → Prop) (x : Exit ε ρ) :
    Quiet A (onlyRaise (fun e (_ : Machine Op Reply σ ν) => p e) x) := by
  cases x with
  | raise e => exact Quiet.const A (p e)
  | ret v => exact Quiet.const A False
  | brk => exact Quiet.const A False
  | cont => exact Quiet.const A False

theorem channel_onlyRaise (henv : env.Undisturbed) (p : ε → Prop) :
    Channel env A
      (onlyRaise (fun e _ => p e) : Exit ε ρ → Machine Op Reply σ ν → Prop) :=
  Channel.of_undisturbed henv (quiet_onlyRaise A p)

theorem channel_true :
    Channel env A
      (onlyRaise (fun _ _ => True) : Exit ε ρ → Machine Op Reply σ ν → Prop) :=
  ⟨quiet_onlyRaise A fun _ => True, fun _ _ _ => trivial⟩

theorem Channel.interrupted (hchannel : Channel env A Y) (hquiet : Quiet A inv) :
    Interrupted env inv (fun x k => Y x k ∧ inv k) :=
  fun k e he hk => ⟨hchannel.interrupt k e he, hquiet.tick k hk⟩

theorem Channel.raising (hchannel : Channel env A Y)
    {E : ε → Machine Op Reply σ ν → Prop} (hE : ∀ e, Quiet A (E e))
    (hint : ∀ (k : Machine Op Reply σ ν) e,
      env.interrupt k.clock = some e → E e k.tick) :
    Channel env A (Script.raising E Y) where
  quiet := by
    intro x
    cases x with
    | raise e => exact hE e
    | ret v => exact hchannel.quiet _
    | brk => exact hchannel.quiet _
    | cont => exact hchannel.quiet _
  interrupt := hint

theorem Channel.func (hchannel : Channel env A Y) :
    Channel env A (funcExit (fun _ _ => True) Y : Exit ε α → Machine Op Reply σ ν → Prop) where
  quiet := by
    intro x
    cases x with
    | raise e => exact hchannel.quiet _
    | ret v => exact Quiet.const A True
    | brk => exact hchannel.quiet _
    | cont => exact hchannel.quiet _
  interrupt := hchannel.interrupt

theorem Channel.round (hchannel : Channel env A Y) :
    Channel env A (roundExit (fun _ _ => True) Y) where
  quiet := by
    intro x
    cases x with
    | raise e => exact hchannel.quiet _
    | ret v => exact hchannel.quiet _
    | brk => exact Quiet.const A True
    | cont => exact Quiet.const A True
  interrupt := hchannel.interrupt

theorem steady_pure {a : α} : Steady env A Y (pure a : Script Op Reply σ ν ε ρ α) :=
  fun _ _ => keeps_pure

theorem steady_raise {e : ε} (h : ∀ k, Y (.raise e) k) :
    Steady env A Y (raise e : Script Op Reply σ ν ε ρ α) :=
  fun _ _ => keeps_raise fun k hk => ⟨h k, hk⟩

theorem steady_ret {v : ρ} (h : ∀ k, Y (.ret v) k) :
    Steady env A Y (ret v : Script Op Reply σ ν ε ρ α) :=
  fun _ _ => keeps_ret fun k hk => ⟨h k, hk⟩

theorem steady_vars : Steady env A Y (vars : Script Op Reply σ ν ε ρ ν) :=
  fun _ _ => keeps_vars

theorem steady_bind {f : α → Script Op Reply σ ν ε ρ β} (h : Steady env A Y m)
    (hf : ∀ a, Steady env A Y (f a)) : Steady env A Y (m >>= f) :=
  fun inv hq => keeps_bind (h inv hq) (fun a => hf a inv hq)

theorem steady_ite {c : Prop} [Decidable c] {m' : Script Op Reply σ ν ε ρ α}
    (h : Steady env A Y m) (h' : Steady env A Y m') :
    Steady env A Y (if c then m else m') :=
  fun inv hq => keeps_ite (fun _ => h inv hq) (fun _ => h' inv hq)

theorem steady_when {c : Prop} [Decidable c] {m : Script Op Reply σ ν ε ρ Unit}
    (h : Steady env A Y m) : Steady env A Y (when c m) :=
  steady_ite h steady_pure

theorem steady_call {op : Op} (hchannel : Channel env A Y) (hop : A.calls op) :
    Steady env A Y (call op : Script Op Reply σ ν ε ρ (Reply op)) :=
  fun _ hq => keeps_call (hchannel.interrupted hq) hq hop

theorem steady_assign {f : ν → ν} (hchannel : Channel env A Y) (hf : A.assigns f) :
    Steady env A Y (assign f : Script Op Reply σ ν ε ρ Unit) :=
  fun _ hq => keeps_assign (hchannel.interrupted hq) hq hf

theorem steady_tryExcept {handler : ε → Option (Script Op Reply σ ν ε ρ α)}
    {E : ε → Machine Op Reply σ ν → Prop} (hbody : Steady env A (raising E Y) m)
    (hhandler : ∀ e,
      match handler e with
      | some h => Steady env A Y h
      | none => ∀ k, E e k → Y (.raise e) k) :
    Steady env A Y (tryExcept m handler) := by
  intro inv hq
  refine @keeps_tryExcept _ _ _ _ _ _ _ env inv m _ handler (fun e k => E e k ∧ inv k) ?_ ?_
  · refine keeps_mono (hbody inv hq) fun x k hx => ?_
    cases x <;> exact hx
  · intro e k hk
    have hcase := hhandler e
    cases hh : handler e with
    | none =>
        simp only [hh] at hcase
        exact ⟨hcase k hk.1, hk.2⟩
    | some h =>
        simp only [hh] at hcase
        exact hcase inv hq k hk.2

theorem steady_func {body : Script Op Reply σ ν ε α α}
    (h : Steady env A (funcExit (fun _ _ => True) Y) body) :
    Steady env A Y (func body : Script Op Reply σ ν ε ρ α) := by
  intro inv hq
  refine keeps_func (keeps_mono (h inv hq) fun x k hx => ?_)
  cases x with
  | raise e => exact hx
  | ret v => exact hx.2
  | brk => exact hx
  | cont => exact hx

theorem steady_forEach {body : β → Script Op Reply σ ν ε ρ Unit} {items : List β}
    (h : ∀ a ∈ items, Steady env A (roundExit (fun _ _ => True) Y) (body a)) :
    Steady env A Y (forEach items body) := by
  intro inv hq
  refine keeps_forEach fun a ha => keeps_mono (h a ha inv hq) fun x k hx => ?_
  cases x with
  | raise e => exact hx
  | ret v => exact hx
  | brk => exact hx.2
  | cont => exact hx.2

theorem steady_forFrom {body : Nat → Script Op Reply σ ν ε ρ Unit} {i n : Nat}
    (h : ∀ i, Steady env A (roundExit (fun _ _ => True) Y) (body i)) :
    Steady env A Y (forFrom body i n) := by
  intro inv hq
  refine keeps_forFrom (fun i => keeps_mono (h i inv hq) fun x k hx => ?_) i n
  cases x with
  | raise e => exact hx
  | ret v => exact hx
  | brk => exact hx.2
  | cont => exact hx.2

end Steady

/-- How a steady script that can only raise is used in a proof. -/
theorem Steady.use {E : ε → Machine Op Reply σ ν → Prop}
    (h : Steady env A (onlyRaise E) m) {k : Machine Op Reply σ ν}
    {Q : α → Machine Op Reply σ ν → Prop} (hquiet : Quiet A inv) (hk : inv k)
    (hQ : ∀ a k', inv k' → Q a k')
    (hX : ∀ e k', E e k' → inv k' → X (.raise e) k') : wp env m Q X k := by
  refine wp_mono (h inv hquiet k hk) hQ ?_
  intro x k' hx
  cases x with
  | raise e => exact hX e k' hx.1 hx.2
  | ret v => exact hx.1.elim
  | brk => exact hx.1.elim
  | cont => exact hx.1.elim

/-- The script ends in the invariant however it leaves. -/
def Maintains (env : Env Op Reply ε) (inv : Machine Op Reply σ ν → Prop)
    (m : Script Op Reply σ ν ε ρ α) : Prop :=
  Keeps env inv (fun _ => inv) m

section Maintains

theorem Maintains.at_end (h : Maintains env inv m) {k : Machine Op Reply σ ν} (hk : inv k) :
    inv (m env k).2 :=
  Script.at_end (h k hk)

theorem Steady.maintains {Y : Exit ε ρ → Machine Op Reply σ ν → Prop}
    (h : Steady env A Y m) (hquiet : Quiet A inv) : Maintains env inv m :=
  keeps_mono (h inv hquiet) fun _ _ hx => hx.2

theorem maintains_pure {a : α} : Maintains env inv (pure a : Script Op Reply σ ν ε ρ α) :=
  keeps_pure

theorem maintains_raise {e : ε} :
    Maintains env inv (raise e : Script Op Reply σ ν ε ρ α) :=
  keeps_raise fun _ hk => hk

theorem maintains_ret {v : ρ} : Maintains env inv (ret v : Script Op Reply σ ν ε ρ α) :=
  keeps_ret fun _ hk => hk

theorem maintains_brk : Maintains env inv (brk : Script Op Reply σ ν ε ρ α) :=
  keeps_brk fun _ hk => hk

theorem maintains_cont : Maintains env inv (cont : Script Op Reply σ ν ε ρ α) :=
  keeps_cont fun _ hk => hk

theorem maintains_read : Maintains env inv (read : Script Op Reply σ ν ε ρ σ) :=
  keeps_read

theorem maintains_bind {f : α → Script Op Reply σ ν ε ρ β} (h : Maintains env inv m)
    (hf : ∀ a, Maintains env inv (f a)) : Maintains env inv (m >>= f) :=
  keeps_bind h hf

theorem maintains_ite {c : Prop} [Decidable c] {m' : Script Op Reply σ ν ε ρ α}
    (h : Maintains env inv m) (h' : Maintains env inv m') :
    Maintains env inv (if c then m else m') :=
  keeps_ite (fun _ => h) (fun _ => h')

theorem maintains_when {c : Prop} [Decidable c] {m : Script Op Reply σ ν ε ρ Unit}
    (h : Maintains env inv m) : Maintains env inv (when c m) :=
  keeps_when fun _ => h

theorem maintains_update {f : σ → σ} (hquiet : Quiet A inv)
    (h : ∀ k, inv k → inv (k.updated f)) :
    Maintains env inv (update f : Script Op Reply σ ν ε ρ Unit) :=
  keeps_update (fun k _ _ hk => hquiet.tick k hk) h

/-- `P` holds wherever the body ends, and the handlers keep it. -/
theorem ends_tryExcept {P : Machine Op Reply σ ν → Prop} {k : Machine Op Reply σ ν}
    {handler : ε → Option (Script Op Reply σ ν ε ρ α)}
    (hbody : wp env m (fun _ => P) (fun _ => P) k)
    (hhandler : ∀ e h, handler e = some h → Maintains env P h) :
    wp env (tryExcept m handler) (fun _ => P) (fun _ => P) k := by
  refine @wp_tryExcept _ _ _ _ _ _ _ _ _ _ _ _ _ (fun _ => P) ?_ ?_
  · refine wp_mono hbody (fun _ _ hq => hq) fun x k' hx => ?_
    cases x <;> exact hx
  · intro e k' hk'
    cases hh : handler e with
    | none => exact hk'
    | some h => exact hhandler e h hh k' hk'

theorem maintains_tryExcept {handler : ε → Option (Script Op Reply σ ν ε ρ α)}
    (hbody : Maintains env inv m)
    (hhandler : ∀ e h, handler e = some h → Maintains env inv h) :
    Maintains env inv (tryExcept m handler) :=
  fun k hk => ends_tryExcept (hbody k hk) hhandler

theorem ends_tryFinally {P : Machine Op Reply σ ν → Prop} {k : Machine Op Reply σ ν}
    {final : Script Op Reply σ ν ε ρ Unit} (hbody : wp env m (fun _ => P) (fun _ => P) k)
    (hfinal : Maintains env P final) :
    wp env (tryFinally m final) (fun _ => P) (fun _ => P) k :=
  wp_tryFinally (wp_mono hbody (fun _ k' hk' => hfinal k' hk') fun _ k' hk' => hfinal k' hk')

theorem maintains_tryFinally {final : Script Op Reply σ ν ε ρ Unit}
    (hbody : Maintains env inv m) (hfinal : Maintains env inv final) :
    Maintains env inv (tryFinally m final) :=
  fun k hk => ends_tryFinally (hbody k hk) hfinal

theorem maintains_func {body : Script Op Reply σ ν ε α α} (h : Maintains env inv body) :
    Maintains env inv (func body : Script Op Reply σ ν ε ρ α) := by
  refine keeps_func (keeps_mono h fun x k hx => ?_)
  cases x <;> exact hx

theorem maintains_forEach {body : β → Script Op Reply σ ν ε ρ Unit} {items : List β}
    (h : ∀ a ∈ items, Maintains env inv (body a)) :
    Maintains env inv (forEach items body) := by
  refine keeps_forEach fun a ha => keeps_mono (h a ha) fun x k hx => ?_
  cases x <;> exact hx

theorem maintains_forFrom {body : Nat → Script Op Reply σ ν ε ρ Unit} {i n : Nat}
    (h : ∀ i, Maintains env inv (body i)) : Maintains env inv (forFrom body i n) := by
  refine keeps_forFrom (fun i => keeps_mono (h i) fun x k hx => ?_) i n
  cases x <;> exact hx

theorem maintains_forRange {n : Nat} {body : Nat → Script Op Reply σ ν ε ρ Unit}
    (h : ∀ i, Maintains env inv (body i)) (hmark : ∀ k, inv k → inv k.marked) :
    Maintains env inv (forRange n body) := by
  refine maintains_forFrom fun i k hk => wp_marking (wp_mono (h i k hk) ?_ ?_)
  · exact fun _ k' hk' => hmark k' hk'
  · exact fun _ k' hk' => hmark k' hk'

end Maintains

/-- The exits of a script that raises as `E` says; `returns` says whether it may
leave by `ret`. -/
def leaving (E : ε → Machine Op Reply σ ν → Prop) (returns : Prop) :
    Exit ε ρ → Machine Op Reply σ ν → Prop
  | .raise e => E e
  | .ret _ => fun _ => returns
  | .brk => fun _ => True
  | .cont => fun _ => True

/-- Of its exits only the exceptions matter, and perhaps `ret`. -/
abbrev Confined (env : Env Op Reply ε) (E : ε → Machine Op Reply σ ν → Prop) (returns : Prop)
    (m : Script Op Reply σ ν ε ρ α) : Prop :=
  Keeps env (fun _ => True) (leaving E returns) m

section Confined

variable {E Y : ε → Machine Op Reply σ ν → Prop} {returns : Prop}

theorem Confined.mono (h : Confined env Y returns m) (hE : ∀ e k, Y e k → E e k) :
    Confined env E returns m := by
  refine keeps_mono h fun x k hx => ?_
  cases x with
  | raise e => exact hE e k hx
  | ret v => exact hx
  | brk => trivial
  | cont => trivial

theorem leaving_of_onlyRaise (x : Exit ε ρ) (k : Machine Op Reply σ ν)
    (hx : onlyRaise E x k) : leaving E returns x k := by
  cases x with
  | raise e => exact hx
  | ret v => exact hx.elim
  | brk => trivial
  | cont => trivial

theorem Steady.confined (h : Steady env A (onlyRaise Y) m) (hE : ∀ e k, Y e k → E e k) :
    Confined env E returns m :=
  fun _ hk => h.use (Quiet.const A True) hk (fun _ _ _ => trivial) fun e k he _ => hE e k he

theorem confined_ret {v : ρ} :
    Confined env E True (ret v : Script Op Reply σ ν ε ρ α) :=
  keeps_ret fun _ _ => trivial

theorem confined_brk : Confined env E returns (brk : Script Op Reply σ ν ε ρ α) :=
  keeps_brk fun _ _ => trivial

theorem confined_cont : Confined env E returns (cont : Script Op Reply σ ν ε ρ α) :=
  keeps_cont fun _ _ => trivial

theorem confined_update (henv : env.Undisturbed) {f : σ → σ} :
    Confined env E returns (update f : Script Op Reply σ ν ε ρ Unit) :=
  fun _ _ => wp_update_of henv trivial

theorem confined_assign (henv : env.Undisturbed) {f : ν → ν} :
    Confined env E returns (assign f : Script Op Reply σ ν ε ρ Unit) :=
  fun _ _ => wp_assign_of henv trivial

theorem confined_tryExcept {handler : ε → Option (Script Op Reply σ ν ε ρ α)}
    (hbody : Confined env Y returns m)
    (hhandler : ∀ e k, Y e k →
      match handler e with
      | some h => Confined env E returns h
      | none => E e k) : Confined env E returns (tryExcept m handler) := by
  refine @keeps_tryExcept _ _ _ _ _ _ _ env _ m _ handler Y ?_ fun e k he => ?_
  · refine keeps_mono hbody fun x k hx => ?_
    cases x <;> exact hx
  · have hcase := hhandler e k he
    cases hh : handler e with
    | none =>
        rw [hh] at hcase
        exact hcase
    | some h =>
        rw [hh] at hcase
        exact hcase k trivial

/-- What the body raises is to survive the final block. -/
theorem confined_tryFinally {final : Script Op Reply σ ν ε ρ Unit}
    (hbody : Confined env Y returns m) (hfinal : Confined env E returns final)
    (hsurvive : ∀ e k, Y e k → wp env final (fun _ => E e) (leaving E returns) k) :
    Confined env E returns (tryFinally m final) := by
  refine keeps_tryFinally hbody hfinal fun x k hx => ?_
  cases x with
  | raise e => exact hsurvive e k hx
  | ret v => exact wp_mono (hfinal k trivial) (fun _ _ _ => hx) fun _ _ hx => hx
  | brk => exact wp_mono (hfinal k trivial) (fun _ _ _ => trivial) fun _ _ hx => hx
  | cont => exact wp_mono (hfinal k trivial) (fun _ _ _ => trivial) fun _ _ hx => hx

theorem confined_func {body : Script Op Reply σ ν ε α α} (h : Confined env E True body) :
    Confined env E returns (func body : Script Op Reply σ ν ε ρ α) := by
  refine keeps_func (keeps_mono h fun x k hx => ?_)
  cases x <;> exact hx

/-- A loop takes what its rounds do with `brk` and `cont`. -/
theorem raises_forEach {body : β → Script Op Reply σ ν ε ρ Unit} {items : List β}
    (h : ∀ a ∈ items, Confined env E False (body a)) :
    Keeps env (fun _ => True) (onlyRaise E) (forEach items body) := by
  refine keeps_forEach fun a ha => keeps_mono (h a ha) fun x k hx => ?_
  cases x <;> exact hx

theorem confined_forRange {n : Nat} {body : Nat → Script Op Reply σ ν ε ρ Unit}
    (h : ∀ i, Confined env E returns (body i))
    (hmark : ∀ e k, E e k → E e k.marked) : Confined env E returns (forRange n body) := by
  refine keeps_forFrom (fun i k hk => wp_marking (wp_mono (h i k hk) ?_ ?_)) 0 n
  · exact fun _ _ hk => hk
  · intro x k hx
    cases x with
    | raise e => exact hmark e k hx
    | ret v => exact hx
    | brk => trivial
    | cont => trivial

end Confined

/-- The machine after `i` rounds of a marked loop that goes on. -/
def afterRounds (body : Nat → Script Op Reply σ ν ε ρ Unit) (env : Env Op Reply ε)
    (k : Machine Op Reply σ ν) : Nat → Machine Op Reply σ ν
  | 0 => k
  | i + 1 => (marking (body i) env (afterRounds body env k i)).2

/-- The round ends normally or by `continue`. -/
def GoesOn (body : Script Op Reply σ ν ε ρ Unit) (env : Env Op Reply ε)
    (k : Machine Op Reply σ ν) : Prop :=
  wp env body (fun _ _ => True) (fun x _ => x = .cont) k

theorem round_marking_iff {body : Script Op Reply σ ν ε ρ Unit}
    {k : Machine Op Reply σ ν} :
    (∃ k', round (marking body) env k = (.ok true, k')) ↔ GoesOn body env k := by
  unfold GoesOn wp round marking
  rcases body env k with ⟨_ | _, k'⟩
  · rename_i x
    cases x <;> simp
  · simp

theorem round_marking_eq {body : Script Op Reply σ ν ε ρ Unit}
    {k k' : Machine Op Reply σ ν} (h : round (marking body) env k = (.ok true, k')) :
    k' = (marking body env k).2 := by
  unfold round marking at h
  unfold marking
  rcases hb : body env k with ⟨_ | _, k₁⟩
  · rename_i x
    cases x <;> simp_all
  · simp_all

theorem forFrom_ok_iff {body : Nat → Script Op Reply σ ν ε ρ Unit}
    {k k' : Machine Op Reply σ ν} (i n : Nat) :
    forFrom (fun i => marking (body i)) i n env (afterRounds body env k i) =
        (.ok true, k') ↔
      (∀ j, i ≤ j → j < i + n → GoesOn (body j) env (afterRounds body env k j)) ∧
        k' = afterRounds body env k (i + n) := by
  induction n generalizing i with
  | zero =>
      have hpure : forFrom (fun i => marking (body i)) i 0 env (afterRounds body env k i) =
          (.ok true, afterRounds body env k i) := rfl
      rw [hpure]
      constructor
      · intro h
        cases h
        exact ⟨fun j _ _ => by omega, rfl⟩
      · rintro ⟨_, rfl⟩
        rfl
  | succ n ih =>
      have hstep : forFrom (fun i => marking (body i)) i (n + 1) env
          (afterRounds body env k i) =
            Script.bind (round (marking (body i)))
              (fun go => if go then forFrom (fun i => marking (body i)) (i + 1) n
                else pure false) env (afterRounds body env k i) := rfl
      rw [hstep]
      unfold Script.bind
      by_cases hgo : GoesOn (body i) env (afterRounds body env k i)
      · obtain ⟨k₁, hk₁⟩ := round_marking_iff.mpr hgo
        obtain rfl : k₁ = afterRounds body env k (i + 1) := round_marking_eq hk₁
        simp only [hk₁, if_true]
        rw [ih (i + 1), show i + 1 + n = i + (n + 1) by omega]
        refine and_congr_left fun _ => ⟨fun h j hij hj => ?_, fun h j hij hj => ?_⟩
        · rcases Nat.eq_or_lt_of_le hij with rfl | hlt
          · exact hgo
          · exact h j hlt (by omega)
        · exact h j (by omega) (by omega)
      · constructor
        · intro h
          rcases hr : round (marking (body i)) env (afterRounds body env k i) with ⟨r, k₁⟩
          rw [hr] at h
          rcases r with x | go
          · cases h
          · cases go with
            | true => exact absurd (round_marking_iff.mp ⟨k₁, hr⟩) hgo
            | false => cases h
        · intro h
          exact absurd (h.1 i (by omega) (by omega)) hgo

/-- A marked loop runs to its end if and only if every round goes on. -/
theorem forRange_ok_iff {body : Nat → Script Op Reply σ ν ε ρ Unit} {n : Nat}
    {k k' : Machine Op Reply σ ν} :
    forRange n body env k = (.ok true, k') ↔
      (∀ i < n, GoesOn (body i) env (afterRounds body env k i)) ∧
        k' = afterRounds body env k n := by
  refine Iff.trans (@forFrom_ok_iff _ _ _ _ _ _ env body k k' 0 n) ?_
  simp

end Script

end BpftimeBenchmark.Scripts
