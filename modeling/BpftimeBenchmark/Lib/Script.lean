import Mathlib.Logic.Basic

/-!
Imperative scripts with exceptions. A script keeps a state and variables, asks
its environment for the outcome of every call, and may be interrupted by an
exception before any call, update or assignment. The statements that leave their
place (`raise`, `return`, `break`, `continue`) are exits, which `try`
statements, loops and function boundaries take up.

What a script did is on the record: the calls with their answers, the states it
has gone through, and the states at the places it marks. Variables are not.
-/

namespace BpftimeBenchmark.Scripts

structure Env (Op : Type) (Reply : Op → Type) (ε : Type) where
  answer : Nat → (op : Op) → Reply op
  interrupt : Nat → Option ε

def Env.Undisturbed {Op : Type} {Reply : Op → Type} {ε : Type}
    (env : Env Op Reply ε) : Prop :=
  ∀ n, env.interrupt n = none

/-- `clock` counts the calls, updates and assignments. `past` holds the states
before the present one and `rounds` the marked ones. -/
structure Machine (Op : Type) (Reply : Op → Type) (σ ν : Type) where
  state : σ
  vars : ν
  clock : Nat
  calls : List (Σ op, Reply op)
  past : List σ
  rounds : List σ

namespace Machine

variable {Op : Type} {Reply : Op → Type} {σ ν : Type}

def tick (k : Machine Op Reply σ ν) : Machine Op Reply σ ν :=
  { k with clock := k.clock + 1 }

def answered (k : Machine Op Reply σ ν) (op : Op) (r : Reply op) : Machine Op Reply σ ν :=
  { k with clock := k.clock + 1, calls := k.calls ++ [⟨op, r⟩] }

def updated (k : Machine Op Reply σ ν) (f : σ → σ) : Machine Op Reply σ ν :=
  { k with state := f k.state, clock := k.clock + 1, past := k.past ++ [k.state] }

def performed (k : Machine Op Reply σ ν) (op : Op) (r : Reply op) (f : σ → σ) :
    Machine Op Reply σ ν :=
  { k with
    state := f k.state
    clock := k.clock + 1
    calls := k.calls ++ [⟨op, r⟩]
    past := k.past ++ [k.state] }

def assigned (k : Machine Op Reply σ ν) (f : ν → ν) : Machine Op Reply σ ν :=
  { k with vars := f k.vars, clock := k.clock + 1 }

def marked (k : Machine Op Reply σ ν) : Machine Op Reply σ ν :=
  { k with rounds := k.rounds ++ [k.state] }

@[simp] theorem marked_state (k : Machine Op Reply σ ν) : k.marked.state = k.state := rfl

/-- All states so far, the present one last. -/
def history (k : Machine Op Reply σ ν) : List σ := k.past ++ [k.state]

@[simp] theorem history_performed (k : Machine Op Reply σ ν) (op : Op) (r : Reply op)
    (f : σ → σ) : (k.performed op r f).history = k.history ++ [f k.state] := rfl

@[simp] theorem history_updated (k : Machine Op Reply σ ν) (f : σ → σ) :
    (k.updated f).history = k.history ++ [f k.state] := rfl

end Machine

inductive Exit (ε ρ : Type) where
  | raise (e : ε)
  | ret (v : ρ)
  | brk
  | cont

def Script (Op : Type) (Reply : Op → Type) (σ ν ε ρ α : Type) : Type :=
  Env Op Reply ε → Machine Op Reply σ ν → Except (Exit ε ρ) α × Machine Op Reply σ ν

namespace Script

variable {Op : Type} {Reply : Op → Type} {σ ν ε ρ α β : Type}

def exit (x : Exit ε ρ) : Script Op Reply σ ν ε ρ α := fun _ k => (.error x, k)

def bind (m : Script Op Reply σ ν ε ρ α) (f : α → Script Op Reply σ ν ε ρ β) :
    Script Op Reply σ ν ε ρ β := fun env k =>
  match m env k with
  | (.ok a, k') => f a env k'
  | (.error x, k') => (.error x, k')

instance : Monad (Script Op Reply σ ν ε ρ) where
  pure a := fun _ k => (.ok a, k)
  bind := bind

theorem bind_assoc {γ : Type} (m : Script Op Reply σ ν ε ρ α) (f : α → Script Op Reply σ ν ε ρ β)
    (g : β → Script Op Reply σ ν ε ρ γ) : (m >>= f) >>= g = m >>= fun a => f a >>= g := by
  funext env k
  show bind (bind m f) g env k = bind m (fun a => bind (f a) g) env k
  simp only [bind]
  rcases m env k with ⟨_ | _, _⟩ <;> rfl

theorem bind_of_ok {m : Script Op Reply σ ν ε ρ α} {f : α → Script Op Reply σ ν ε ρ β}
    {env : Env Op Reply ε} {k k' : Machine Op Reply σ ν} {a : α} (h : m env k = (.ok a, k')) :
    (m >>= f) env k = f a env k' := by
  show bind m f env k = _
  rw [bind, h]

theorem ok_of_bind {m : Script Op Reply σ ν ε ρ α} {f : α → Script Op Reply σ ν ε ρ β}
    {env : Env Op Reply ε} {k k' : Machine Op Reply σ ν} {b : β}
    (h : (m >>= f) env k = (.ok b, k')) :
    ∃ a k₁, m env k = (.ok a, k₁) ∧ f a env k₁ = (.ok b, k') := by
  rcases hm : m env k with ⟨x | a, k₁⟩
  · have herror : (m >>= f) env k = (.error x, k₁) := by
      show bind m f env k = _
      rw [bind, hm]
    rw [herror] at h
    cases h
  · exact ⟨a, k₁, rfl, (bind_of_ok hm).symm.trans h⟩

def raise (e : ε) : Script Op Reply σ ν ε ρ α := exit (.raise e)

def ret (v : ρ) : Script Op Reply σ ν ε ρ α := exit (.ret v)

def brk : Script Op Reply σ ν ε ρ α := exit .brk

def cont : Script Op Reply σ ν ε ρ α := exit .cont

def call (op : Op) : Script Op Reply σ ν ε ρ (Reply op) := fun env k =>
  match env.interrupt k.clock with
  | some e => (.error (.raise e), k.tick)
  | none => (.ok (env.answer k.clock op), k.answered op (env.answer k.clock op))

def update (f : σ → σ) : Script Op Reply σ ν ε ρ Unit := fun env k =>
  match env.interrupt k.clock with
  | some e => (.error (.raise e), k.tick)
  | none => (.ok (), k.updated f)

/-- A call that changes the state at once, as its answer says. -/
def perform (op : Op) (f : Reply op → σ → σ) : Script Op Reply σ ν ε ρ (Reply op) :=
  fun env k =>
    match env.interrupt k.clock with
    | some e => (.error (.raise e), k.tick)
    | none =>
        let r := env.answer k.clock op
        (.ok r, k.performed op r (f r))

def assign (f : ν → ν) : Script Op Reply σ ν ε ρ Unit := fun env k =>
  match env.interrupt k.clock with
  | some e => (.error (.raise e), k.tick)
  | none => (.ok (), k.assigned f)

def read : Script Op Reply σ ν ε ρ σ := fun _ k => (.ok k.state, k)

def vars : Script Op Reply σ ν ε ρ ν := fun _ k => (.ok k.vars, k)

/-- An `if` without an `else`. -/
def when (c : Prop) [Decidable c] (m : Script Op Reply σ ν ε ρ Unit) :
    Script Op Reply σ ν ε ρ Unit :=
  if c then m else pure ()

/-- The state in which `body` ends is marked. -/
def marking (body : Script Op Reply σ ν ε ρ α) : Script Op Reply σ ν ε ρ α := fun env k =>
  ((body env k).1, (body env k).2.marked)

/-- `handler` says which exceptions it takes. -/
def tryExcept (body : Script Op Reply σ ν ε ρ α)
    (handler : ε → Option (Script Op Reply σ ν ε ρ α)) : Script Op Reply σ ν ε ρ α :=
  fun env k =>
    match body env k with
    | (.error (.raise e), k') =>
        match handler e with
        | some h => h env k'
        | none => (.error (.raise e), k')
    | r => r

/-- `final` runs however `body` ends, and prevails if it does not run to its
end. -/
def tryFinally (body : Script Op Reply σ ν ε ρ α) (final : Script Op Reply σ ν ε ρ Unit) :
    Script Op Reply σ ν ε ρ α := fun env k =>
  match body env k with
  | (r, k') =>
      match final env k' with
      | (.ok (), k'') => (r, k'')
      | (.error x, k'') => (.error x, k'')

/-- One round of a loop: whether it goes on. -/
def round (body : Script Op Reply σ ν ε ρ Unit) : Script Op Reply σ ν ε ρ Bool :=
  fun env k =>
    match body env k with
    | (.ok (), k') => (.ok true, k')
    | (.error .cont, k') => (.ok true, k')
    | (.error .brk, k') => (.ok false, k')
    | (.error x, k') => (.error x, k')

/-- The answer is whether the loop ran to its end, which decides its `else`. -/
def forEach (items : List β) (body : β → Script Op Reply σ ν ε ρ Unit) :
    Script Op Reply σ ν ε ρ Bool :=
  match items with
  | [] => pure true
  | a :: rest => do
      if ← round (body a) then forEach rest body else pure false

theorem forEach_append (items later : List β) (body : β → Script Op Reply σ ν ε ρ Unit) :
    forEach (items ++ later) body = (do
      if ← forEach items body then forEach later body else pure false) := by
  induction items with
  | nil => rfl
  | cons a rest ih =>
      rw [List.cons_append, forEach, forEach, bind_assoc, ih]
      congr 1
      funext on
      cases on <;> rfl

/-- `n` rounds from round `i` on. -/
def forFrom (body : Nat → Script Op Reply σ ν ε ρ Unit) :
    Nat → Nat → Script Op Reply σ ν ε ρ Bool
  | _, 0 => pure true
  | i, n + 1 => do
      if ← round (body i) then forFrom body (i + 1) n else pure false

/-- A loop over `range(n)` whose rounds are marked. -/
def forRange (n : Nat) (body : Nat → Script Op Reply σ ν ε ρ Unit) :
    Script Op Reply σ ν ε ρ Bool :=
  forFrom (fun i => marking (body i)) 0 n

/-- A call of a function of the script. -/
def func (body : Script Op Reply σ ν ε α α) : Script Op Reply σ ν ε ρ α := fun env k =>
  match body env k with
  | (.ok a, k') => (.ok a, k')
  | (.error (.ret a), k') => (.ok a, k')
  | (.error (.raise e), k') => (.error (.raise e), k')
  | (.error .brk, k') => (.error .brk, k')
  | (.error .cont, k') => (.error .cont, k')

theorem func_of_ok {body : Script Op Reply σ ν ε α α} {env : Env Op Reply ε}
    {k k' : Machine Op Reply σ ν} {a : α} (h : body env k = (.ok a, k')) :
    (func body : Script Op Reply σ ν ε ρ α) env k = (.ok a, k') := by
  rw [func, h]

theorem round_of_ok {body : Script Op Reply σ ν ε ρ Unit} {env : Env Op Reply ε}
    {k k' : Machine Op Reply σ ν} (h : body env k = (.ok (), k')) :
    round body env k = (.ok true, k') := by
  rw [round, h]

/-- A script that ends without an exit, from the outcome alone. -/
theorem eq_ok_of_toOption {α β : Type} {b : β} {r : Except (Exit ε ρ) β × α}
    (h : r.1.toOption = some b) : r = (.ok b, r.2) := by
  obtain ⟨r, k⟩ := r
  cases r with
  | ok =>
      cases h
      rfl
  | error x => cases h

/-- From `k` the script runs to its end with `Q` or leaves with `X`. -/
def wp (env : Env Op Reply ε) (m : Script Op Reply σ ν ε ρ α)
    (Q : α → Machine Op Reply σ ν → Prop) (X : Exit ε ρ → Machine Op Reply σ ν → Prop)
    (k : Machine Op Reply σ ν) : Prop :=
  match m env k with
  | (.ok a, k') => Q a k'
  | (.error x, k') => X x k'

variable {env : Env Op Reply ε} {k : Machine Op Reply σ ν}
  {m : Script Op Reply σ ν ε ρ α} {Q Q' : α → Machine Op Reply σ ν → Prop}
  {X X' : Exit ε ρ → Machine Op Reply σ ν → Prop}

theorem wp_pure {a : α} (h : Q a k) : wp env (pure a) Q X k := h

theorem wp_raise {e : ε} (h : X (.raise e) k) : wp env (raise e) Q X k := h

theorem wp_ret {v : ρ} (h : X (.ret v) k) : wp env (ret v) Q X k := h

theorem wp_brk (h : X .brk k) : wp env brk Q X k := h

theorem wp_cont (h : X .cont k) : wp env cont Q X k := h

theorem wp_read {Q : σ → Machine Op Reply σ ν → Prop} (h : Q k.state k) :
    wp env read Q X k := h

theorem wp_vars {Q : ν → Machine Op Reply σ ν → Prop} (h : Q k.vars k) :
    wp env vars Q X k := h

theorem wp_mono (h : wp env m Q X k) (hQ : ∀ a k', Q a k' → Q' a k')
    (hX : ∀ x k', X x k' → X' x k') : wp env m Q' X' k := by
  unfold wp at h ⊢
  split at h
  · exact hQ _ _ h
  · exact hX _ _ h

theorem wp_and (h : wp env m Q X k) (h' : wp env m Q' X' k) :
    wp env m (fun a k' => Q a k' ∧ Q' a k') (fun x k' => X x k' ∧ X' x k') k := by
  unfold wp at h h' ⊢
  split
  · rename_i hm
    rw [hm] at h h'
    exact ⟨h, h'⟩
  · rename_i hm
    rw [hm] at h h'
    exact ⟨h, h'⟩

/-- What the script does from `k`. -/
theorem wp_outcome :
    wp env m (fun a k' => m env k = (.ok a, k')) (fun x k' => m env k = (.error x, k')) k := by
  unfold wp
  split <;> assumption

/-- Where the script ends up. -/
theorem wp_end : wp env m (fun _ k' => k' = (m env k).2) (fun _ k' => k' = (m env k).2) k :=
  wp_mono wp_outcome (fun _ _ h => by rw [h]) (fun _ _ h => by rw [h])

theorem at_end {P : Machine Op Reply σ ν → Prop} (h : wp env m (fun _ => P) (fun _ => P) k) :
    P (m env k).2 := by
  unfold wp at h
  split at h <;> rename_i hm <;> rw [hm] <;> exact h

theorem wp_when {c : Prop} [Decidable c] {m : Script Op Reply σ ν ε ρ Unit}
    {Q : Unit → Machine Op Reply σ ν → Prop} (h : c → wp env m Q X k)
    (h' : ¬c → Q () k) : wp env (when c m) Q X k := by
  unfold when
  split
  · exact h ‹_›
  · exact wp_pure (h' ‹_›)

theorem wp_bind {f : α → Script Op Reply σ ν ε ρ β} {Q : β → Machine Op Reply σ ν → Prop}
    (h : wp env m (fun a => wp env (f a) Q X) X k) : wp env (m >>= f) Q X k := by
  unfold wp at h
  show wp env (bind m f) Q X k
  unfold wp bind
  split at h
  · exact h
  · exact h

theorem wp_call {op : Op} {Q : Reply op → Machine Op Reply σ ν → Prop}
    (hraise : ∀ e, env.interrupt k.clock = some e → X (.raise e) k.tick)
    (hanswer : env.interrupt k.clock = none →
      Q (env.answer k.clock op) (k.answered op (env.answer k.clock op))) :
    wp env (call op) Q X k := by
  unfold wp call
  cases hi : env.interrupt k.clock with
  | none => exact hanswer hi
  | some e => exact hraise e hi

theorem wp_update {f : σ → σ} {Q : Unit → Machine Op Reply σ ν → Prop}
    (hraise : ∀ e, env.interrupt k.clock = some e → X (.raise e) k.tick)
    (hupdate : env.interrupt k.clock = none → Q () (k.updated f)) :
    wp env (update f) Q X k := by
  unfold wp update
  cases hi : env.interrupt k.clock with
  | none => exact hupdate hi
  | some e => exact hraise e hi

theorem wp_perform {op : Op} {f : Reply op → σ → σ}
    {Q : Reply op → Machine Op Reply σ ν → Prop}
    (hraise : ∀ e, env.interrupt k.clock = some e → X (.raise e) k.tick)
    (hanswer : ∀ r, Q r (k.performed op r (f r))) : wp env (perform op f) Q X k := by
  unfold wp perform
  cases hi : env.interrupt k.clock with
  | none => exact hanswer _
  | some e => exact hraise e hi

theorem wp_update_of {f : σ → σ} {Q : Unit → Machine Op Reply σ ν → Prop}
    (henv : env.Undisturbed) (h : Q () (k.updated f)) : wp env (update f) Q X k :=
  wp_update (fun e he => by simp [henv k.clock] at he) fun _ => h

theorem wp_assign {f : ν → ν} {Q : Unit → Machine Op Reply σ ν → Prop}
    (hraise : ∀ e, env.interrupt k.clock = some e → X (.raise e) k.tick)
    (hassign : env.interrupt k.clock = none → Q () (k.assigned f)) :
    wp env (assign f) Q X k := by
  unfold wp assign
  cases hi : env.interrupt k.clock with
  | none => exact hassign hi
  | some e => exact hraise e hi

theorem wp_assign_of {f : ν → ν} {Q : Unit → Machine Op Reply σ ν → Prop}
    (henv : env.Undisturbed) (h : Q () (k.assigned f)) : wp env (assign f) Q X k :=
  wp_assign (fun e he => by simp [henv k.clock] at he) fun _ => h

theorem wp_marking (h : wp env m (fun a k' => Q a k'.marked) (fun x k' => X x k'.marked) k) :
    wp env (marking m) Q X k := by
  unfold wp at h
  unfold wp marking
  split at h
  · rename_i a k' hm
    simp only [hm]
    exact h
  · rename_i x k' hm
    simp only [hm]
    exact h

/-- The exits of `X` with another demand on exceptions. -/
def raising (E : ε → Machine Op Reply σ ν → Prop)
    (X : Exit ε ρ → Machine Op Reply σ ν → Prop) :
    Exit ε ρ → Machine Op Reply σ ν → Prop
  | .raise e => E e
  | .ret v => X (.ret v)
  | .brk => X .brk
  | .cont => X .cont

/-- The exits inside a function body, where `ret` gives the value. -/
def funcExit (Q : α → Machine Op Reply σ ν → Prop)
    (X : Exit ε ρ → Machine Op Reply σ ν → Prop) :
    Exit ε α → Machine Op Reply σ ν → Prop
  | .ret a => Q a
  | .raise e => X (.raise e)
  | .brk => X .brk
  | .cont => X .cont

theorem wp_tryExcept {handler : ε → Option (Script Op Reply σ ν ε ρ α)}
    {R : ε → Machine Op Reply σ ν → Prop}
    (hbody : wp env m Q (raising R X) k)
    (hhandler : ∀ e k', R e k' →
      match handler e with
      | some h => wp env h Q X k'
      | none => X (.raise e) k') :
    wp env (tryExcept m handler) Q X k := by
  unfold wp at hbody
  unfold wp tryExcept
  split at hbody
  · rename_i a k' hm
    rw [hm]
    exact hbody
  · rename_i x k' hm
    rw [hm]
    cases x with
    | raise e =>
        have hcase := hhandler e k' hbody
        cases hh : handler e with
        | none =>
            rw [hh] at hcase
            simp only [hh]
            exact hcase
        | some h =>
            rw [hh] at hcase
            simp only [hh]
            exact hcase
    | ret v => exact hbody
    | brk => exact hbody
    | cont => exact hbody

theorem wp_tryFinally {final : Script Op Reply σ ν ε ρ Unit}
    (h : wp env m (fun a => wp env final (fun _ => Q a) X)
      (fun x => wp env final (fun _ => X x) X) k) :
    wp env (tryFinally m final) Q X k := by
  unfold wp at h
  unfold wp tryFinally
  split at h
  · rename_i a k' hm
    rw [hm]
    cases hf : final env k' with
    | mk r k'' =>
        rw [hf] at h
        cases r <;>
          simp only [hf] <;>
          exact h
  · rename_i x k' hm
    rw [hm]
    cases hf : final env k' with
    | mk r k'' =>
        rw [hf] at h
        cases r <;>
          simp only [hf] <;>
          exact h

theorem wp_func {body : Script Op Reply σ ν ε α α}
    (h : wp env body Q (funcExit Q X) k) : wp env (func body) Q X k := by
  unfold wp at h
  unfold wp func
  split at h
  · rename_i a k' hm
    rw [hm]
    exact h
  · rename_i x k' hm
    rw [hm]
    cases x <;> exact h

/-- The exits inside the body of a loop: `brk` and `cont` end the round only. -/
def roundExit (Q : Bool → Machine Op Reply σ ν → Prop)
    (X : Exit ε ρ → Machine Op Reply σ ν → Prop) :
    Exit ε ρ → Machine Op Reply σ ν → Prop
  | .cont => Q true
  | .brk => Q false
  | .raise e => X (.raise e)
  | .ret v => X (.ret v)

theorem wp_round {body : Script Op Reply σ ν ε ρ Unit}
    {Q : Bool → Machine Op Reply σ ν → Prop}
    (h : wp env body (fun _ => Q true) (roundExit Q X) k) : wp env (round body) Q X k := by
  unfold wp at h
  unfold wp round
  split at h
  · rename_i a k' hm
    rw [hm]
    exact h
  · rename_i x k' hm
    rw [hm]
    cases x <;> exact h

/-- The invariant rule: `inv` speaks of the items still to come. -/
theorem wp_forEach {body : β → Script Op Reply σ ν ε ρ Unit}
    {inv : List β → Machine Op Reply σ ν → Prop} {Q : Bool → Machine Op Reply σ ν → Prop}
    (hround : ∀ a rest k, inv (a :: rest) k →
      wp env (body a) (fun _ => inv rest)
        (roundExit (fun go => if go then inv rest else Q false) X) k)
    (hend : ∀ k, inv [] k → Q true k) (items : List β) (h : inv items k) :
    wp env (forEach items body) Q X k := by
  induction items generalizing k with
  | nil => exact wp_pure (hend k h)
  | cons a rest ih =>
      apply wp_bind
      apply wp_round
      apply wp_mono (hround a rest k h)
      · intro _ k' hk'
        exact ih hk'
      · intro x k' hk'
        cases x with
        | cont => exact ih hk'
        | brk => exact hk'
        | raise e => exact hk'
        | ret v => exact hk'

/-- The invariant rule of a marked loop: `inv i` holds before round `i`. -/
theorem wp_forFrom {body : Nat → Script Op Reply σ ν ε ρ Unit}
    {inv : Nat → Machine Op Reply σ ν → Prop} {Q : Bool → Machine Op Reply σ ν → Prop}
    {last : Nat}
    (hround : ∀ i k, i < last → inv i k →
      wp env (body i) (fun _ => inv (i + 1))
        (roundExit (fun go => if go then inv (i + 1) else Q false) X) k)
    (hend : ∀ k, inv last k → Q true k) (i n : Nat) (hlast : i + n = last)
    (h : inv i k) : wp env (forFrom body i n) Q X k := by
  induction n generalizing i k with
  | zero =>
      obtain rfl : i = last := by omega
      exact wp_pure (hend k h)
  | succ n ih =>
      apply wp_bind
      apply wp_round
      apply wp_mono (hround i k (by omega) h)
      · intro _ k' hk'
        exact ih (i + 1) (by omega) hk'
      · intro x k' hk'
        cases x with
        | cont => exact ih (i + 1) (by omega) hk'
        | brk => exact hk'
        | raise e => exact hk'
        | ret v => exact hk'

theorem wp_forRange {body : Nat → Script Op Reply σ ν ε ρ Unit}
    {inv : Nat → Machine Op Reply σ ν → Prop} {Q : Bool → Machine Op Reply σ ν → Prop}
    {n : Nat}
    (hround : ∀ i k, i < n → inv i k →
      wp env (body i) (fun _ k' => inv (i + 1) k'.marked)
        (fun x k' =>
          roundExit (fun go => if go then inv (i + 1) else Q false) X x k'.marked) k)
    (hend : ∀ k, inv n k → Q true k) (h : inv 0 k) :
    wp env (forRange n body) Q X k := by
  refine wp_forFrom (fun i k hi hk => ?_) hend 0 n (by omega) h
  exact wp_marking (hround i k hi hk)

end Script

end BpftimeBenchmark.Scripts
