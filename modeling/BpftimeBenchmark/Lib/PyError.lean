import Mathlib.Data.Rat.Defs

/-!
The exceptions of Python that the modelled code can raise, computations that raise
none and come to a value with a property, and loops of which no turn raises.
-/

namespace BpftimeBenchmark

/-- What the modelled code can raise. -/
inductive PyError where
  | keyError
  | indexError
  | valueError
  | zeroDivisionError
  deriving DecidableEq, Repr

theorem ok_bind {ε α β : Type} (a : α) (f : α → Except ε β) : (Except.ok a >>= f) = f a := rfl

/-- The computation raises nothing, and its value has the property. -/
def Returns {ε α : Type} (x : Except ε α) (P : α → Prop) : Prop := ∃ a, x = .ok a ∧ P a

section Returns

variable {ε α β : Type} {x : Except ε α} {P P' : α → Prop} {Q : β → Prop}

theorem returns_ok {a : α} (h : P a) : Returns (.ok a : Except ε α) P := ⟨a, rfl, h⟩

theorem returns_bind {f : α → Except ε β} (h : Returns x P) (hf : ∀ a, P a → Returns (f a) Q) :
    Returns (x >>= f) Q := by
  obtain ⟨a, rfl, ha⟩ := h
  exact hf a ha

theorem returns_mono (h : Returns x P) (himp : ∀ a, P a → P' a) : Returns x P' := by
  obtain ⟨a, hx, ha⟩ := h
  exact ⟨a, hx, himp a ha⟩

theorem returns_ite {c : Prop} [Decidable c] {y : Except ε α} (h : c → Returns x P)
    (h' : ¬c → Returns y P) : Returns (if c then x else y) P := by
  split
  · exact h ‹_›
  · exact h' ‹_›

/-- The computation comes to a value with the property if the condition holds, and otherwise
raises something. -/
def ReturnsIff (x : Except ε α) (c : Prop) (P : α → Prop) : Prop :=
  (c → Returns x P) ∧ (¬c → ∃ e, x = .error e)

theorem returnsIff_of_returns (h : Returns x P) : ReturnsIff x True P :=
  ⟨fun _ => h, fun hfalse => absurd trivial hfalse⟩

theorem ReturnsIff.congr {c c' : Prop} (h : ReturnsIff x c P) (hc : c ↔ c') :
    ReturnsIff x c' P := propext hc ▸ h

theorem returnsIff_bind {f : α → Except ε β} {c c' : Prop} (h : ReturnsIff x c P)
    (hf : ∀ a, P a → ReturnsIff (f a) c' Q) : ReturnsIff (x >>= f) (c ∧ c') Q := by
  constructor
  · rintro ⟨hc, hc'⟩
    exact returns_bind (h.1 hc) fun a ha => (hf a ha).1 hc'
  · intro hnot
    by_cases hc : c
    · obtain ⟨a, rfl, ha⟩ := h.1 hc
      exact (hf a ha).2 fun hc' => hnot ⟨hc, hc'⟩
    · obtain ⟨e, rfl⟩ := h.2 hc
      exact ⟨e, rfl⟩

/-- The invariant rule for a loop. -/
theorem returns_foldlM {step : β → α → Except ε β} {l : List α}
    (h : ∀ b, ∀ a ∈ l, Q b → Returns (step b a) Q) {b : β} (hb : Q b) :
    Returns (l.foldlM step b) Q := by
  induction l generalizing b with
  | nil => exact returns_ok hb
  | cons a rest ih =>
      rw [List.foldlM_cons]
      refine returns_bind (h b a List.mem_cons_self hb) fun b' hb' => ?_
      exact ih (fun b a ha => h b a (List.mem_cons_of_mem _ ha)) hb'

theorem returns_mapM {f : α → Except ε β} {l : List α} (h : ∀ a ∈ l, Returns (f a) Q) :
    Returns (l.mapM f) (fun l' => ∀ b ∈ l', Q b) := by
  induction l with
  | nil => exact returns_ok fun b hb => absurd hb List.not_mem_nil
  | cons a rest ih =>
      rw [List.mapM_cons]
      refine returns_bind (h a List.mem_cons_self) fun b hb => ?_
      refine returns_bind (ih fun a ha => h a (List.mem_cons_of_mem _ ha)) fun l' hl' => ?_
      exact returns_ok (List.forall_mem_cons.mpr ⟨hb, hl'⟩)

end Returns

/-- A loop of which no turn raises. -/
theorem foldlM_ok {α β : Type} {step : β → α → Except PyError β} {next : β → α → β}
    {l : List α} (h : ∀ b, ∀ a ∈ l, step b a = .ok (next b a)) (b : β) :
    l.foldlM step b = .ok (l.foldl next b) := by
  induction l generalizing b with
  | nil => rfl
  | cons a rest ih =>
      rw [List.foldlM_cons, h b a List.mem_cons_self]
      exact ih (fun b a ha => h b a (List.mem_cons_of_mem _ ha)) (next b a)

theorem mapM_ok {α β : Type} {f : α → Except PyError β} {g : α → β} {l : List α}
    (h : ∀ a ∈ l, f a = .ok (g a)) : l.mapM f = .ok (l.map g) := by
  induction l with
  | nil => rfl
  | cons a rest ih =>
      rw [List.mapM_cons, h a List.mem_cons_self, ih fun b hb => h b (List.mem_cons_of_mem _ hb)]
      rfl

/-- `a / b`. -/
def divide (a b : ℚ) : Except PyError ℚ :=
  if b = 0 then .error .zeroDivisionError else .ok (a / b)

theorem divide_of_ne_zero {b : ℚ} (h : b ≠ 0) (a : ℚ) : divide a b = .ok (a / b) :=
  if_neg h

def orValueError {α : Type} : Option α → Except PyError α
  | some a => .ok a
  | none => .error .valueError

theorem orValueError_ok {α : Type} {x : Option α} {default : α} (h : x ≠ none) :
    orValueError x = .ok (x.getD default) := by
  cases x with
  | none => exact absurd rfl h
  | some a => rfl

end BpftimeBenchmark
