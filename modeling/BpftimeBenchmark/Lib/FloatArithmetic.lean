import BpftimeBenchmark.Lib.Float
import BpftimeBenchmark.Lib.PyError

/-!
Arithmetic and comparison of floats with infinities and `nan`, and the loops of `sum`,
`max` and `min` over them. Finite numbers are exact.
-/

namespace BpftimeBenchmark.PyFloat

def add : PyFloat → PyFloat → PyFloat
  | .nan, _ | _, .nan => .nan
  | .infinite s, .infinite t => if s = t then .infinite s else .nan
  | .infinite s, .finite _ | .finite _, .infinite s => .infinite s
  | .finite p, .finite q => .finite (p + q)

def sub : PyFloat → PyFloat → PyFloat
  | .nan, _ | _, .nan => .nan
  | .infinite s, .infinite t => if s = t then .nan else .infinite s
  | .infinite s, .finite _ => .infinite s
  | .finite _, .infinite s => .infinite (!s)
  | .finite p, .finite q => .finite (p - q)

/-- `x ** 2`. -/
def square : PyFloat → PyFloat
  | .nan => .nan
  | .infinite _ => .infinite false
  | .finite q => .finite (q ^ 2)

def divided : PyFloat → Nat → PyFloat
  | .finite q, n => .finite (q / n)
  | x, _ => x

/-- `x / n` for an integer that is not negative. -/
def divide (x : PyFloat) (n : Nat) : Except PyError PyFloat :=
  if n = 0 then .error .zeroDivisionError else .ok (x.divided n)

/-- `x / y`. There is one zero. -/
def quotient (x y : PyFloat) : Except PyError PyFloat :=
  if y = .finite 0 then .error .zeroDivisionError
  else .ok (match x, y with
    | .nan, _ | _, .nan | .infinite _, .infinite _ => .nan
    | .infinite s, .finite q => .infinite (s != decide (q < 0))
    | .finite _, .infinite _ => .finite 0
    | .finite p, .finite q => .finite (p / q))

/-- `x < y`. -/
def lt : PyFloat → PyFloat → Bool
  | .nan, _ | _, .nan => false
  | .infinite s, .infinite t => s && !t
  | .infinite s, .finite _ => s
  | .finite _, .infinite t => !t
  | .finite p, .finite q => decide (p < q)

/-- `sum(v)`. -/
def sum (v : List PyFloat) : PyFloat := v.foldl add (.finite 0)

/-- The loop of `max` and `min`, which keep the first of two where neither is better. -/
def bestFrom (better : PyFloat → PyFloat → Bool) (best : PyFloat) (v : List PyFloat) : PyFloat :=
  v.foldl (fun best x => if better x best then x else best) best

/-- `max(v)`. -/
def greatest : List PyFloat → Except PyError PyFloat
  | [] => .error .valueError
  | x :: rest => .ok (bestFrom (fun a b => b.lt a) x rest)

/-- `min(v)`. -/
def least : List PyFloat → Except PyError PyFloat
  | [] => .error .valueError
  | x :: rest => .ok (bestFrom lt x rest)

def IsFinite (x : PyFloat) : Prop := ∃ q, x = .finite q

variable {v : List PyFloat}

/-- What a sum says about its terms. -/
def SumOf (v : List PyFloat) : PyFloat → Prop
  | .nan => .nan ∈ v ∨ (.infinite true ∈ v ∧ .infinite false ∈ v)
  | .infinite s => .nan ∉ v ∧ .infinite s ∈ v ∧ .infinite (!s) ∉ v
  | .finite _ => ∀ x ∈ v, x.IsFinite

theorem IsFinite.ne_infinite {x : PyFloat} (h : x.IsFinite) (s : Bool) : .infinite s ≠ x := by
  rintro rfl
  obtain ⟨q, hq⟩ := h
  cases hq

theorem IsFinite.ne_nan {x : PyFloat} (h : x.IsFinite) : .nan ≠ x := by
  rintro rfl
  obtain ⟨q, hq⟩ := h
  cases hq

theorem sumOf_add {total : PyFloat} (h : SumOf v total) (x : PyFloat) :
    SumOf (v ++ [x]) (total.add x) := by
  cases total with
  | nan =>
      cases x <;> exact h.imp (List.mem_append_left _)
        fun hs => ⟨List.mem_append_left _ hs.1, List.mem_append_left _ hs.2⟩
  | infinite s =>
      obtain ⟨hnan, hmem, hother⟩ := h
      cases x with
      | nan => exact .inl (by simp)
      | infinite t => cases s <;> cases t <;> simp_all [SumOf, add]
      | finite q => exact ⟨by simp [hnan], by simp [hmem], by simp [hother]⟩
  | finite p =>
      have hnan : .nan ∉ v := fun hmem => (h _ hmem).ne_nan rfl
      have hinfinite (s : Bool) : .infinite s ∉ v := fun hmem => (h _ hmem).ne_infinite s rfl
      cases x with
      | nan => exact .inl (by simp)
      | infinite t => exact ⟨by simp [hnan], by simp, by simp [hinfinite]⟩
      | finite q =>
          intro y hy
          rcases List.mem_append.mp hy with hmem | hlast
          · exact h y hmem
          · exact ⟨q, List.mem_singleton.mp hlast⟩

theorem sumOf_sum (v : List PyFloat) : SumOf v (sum v) := by
  induction v using List.reverseRecOn with
  | nil => exact fun x hx => absurd hx List.not_mem_nil
  | append_singleton v x ih =>
      rw [sum, List.foldl_append]
      exact sumOf_add ih x

theorem sum_map_finite (q : List ℚ) : sum (q.map .finite) = .finite q.sum := by
  have hfrom (p : ℚ) : (q.map .finite).foldl add (.finite p) = .finite (p + q.sum) := by
    induction q generalizing p with
    | nil => simp
    | cons a rest ih =>
        rw [List.map_cons, List.foldl_cons, List.sum_cons, ← add_assoc]
        exact ih (p + a)
  rw [sum, hfrom, zero_add]

theorem sum_eq_infinite {s : Bool} :
    sum v = .infinite s ↔ .nan ∉ v ∧ .infinite s ∈ v ∧ .infinite (!s) ∉ v := by
  have hsum := sumOf_sum v
  generalize sum v = total at hsum
  cases total with
  | nan => cases s <;> simp_all [SumOf] <;> tauto
  | infinite t => cases s <;> cases t <;> simp_all [SumOf]
  | finite q =>
      simp only [reduceCtorEq, false_iff, not_and]
      exact fun _ hmem => absurd rfl ((hsum _ hmem).ne_infinite s)

theorem sum_eq_nan :
    sum v = .nan ↔ .nan ∈ v ∨ (.infinite true ∈ v ∧ .infinite false ∈ v) := by
  have hsum := sumOf_sum v
  generalize sum v = total at hsum
  cases total with
  | nan => exact ⟨fun _ => hsum, fun _ => rfl⟩
  | infinite t => cases t <;> simp_all [SumOf]
  | finite q =>
      simp only [reduceCtorEq, false_iff, not_or, not_and]
      exact ⟨fun hmem => (hsum _ hmem).ne_nan rfl,
        fun hmem => absurd rfl ((hsum _ hmem).ne_infinite true)⟩

theorem mem_map_square_infinite {s : Bool} :
    .infinite s ∈ v.map square ↔ s = false ∧ ∃ t, .infinite t ∈ v := by
  simp only [List.mem_map]
  constructor
  · rintro ⟨x, hx, hsquare⟩
    cases x with
    | nan => cases hsquare
    | infinite t =>
        cases hsquare
        exact ⟨rfl, t, hx⟩
    | finite q => cases hsquare
  · rintro ⟨rfl, t, ht⟩
    exact ⟨_, ht, rfl⟩

theorem mem_map_square_nan : .nan ∈ v.map square ↔ .nan ∈ v := by
  simp only [List.mem_map]
  constructor
  · rintro ⟨x, hx, hsquare⟩
    cases x with
    | nan => exact hx
    | infinite t => cases hsquare
    | finite q => cases hsquare
  · exact fun h => ⟨_, h, rfl⟩

theorem lt_irrefl (x : PyFloat) : x.lt x = false := by
  cases x <;> simp [lt]

theorem lt_of_lt_of_not_lt {a b c : PyFloat} (hab : a.lt b = true) (hac : a.lt c = false) :
    b.lt c = false := by
  cases a <;> cases b <;> cases c <;> simp_all [lt]
  exact hac.trans hab.le

theorem lt_of_not_lt_of_lt {a b c : PyFloat} (hba : b.lt a = true) (hca : c.lt a = false) :
    c.lt b = false := by
  cases a <;> cases b <;> cases c <;> simp_all [lt]
  exact hba.le.trans hca

section Best

variable {better : PyFloat → PyFloat → Bool} (hirrefl : ∀ x, better x x = false)
  (hbetter : ∀ {a b c}, better b a = true → better c a = false → better c b = false)

include hirrefl hbetter

/-- The loop ends with an item than which none is better. -/
theorem bestFrom_spec (best : PyFloat) (v : List PyFloat) :
    bestFrom better best v ∈ best :: v ∧
      ∀ x ∈ best :: v, better x (bestFrom better best v) = false := by
  induction v using List.reverseRecOn with
  | nil => simp [bestFrom, hirrefl]
  | append_singleton v y ih =>
      obtain ⟨hmem, hbest⟩ := ih
      have hstep : bestFrom better best (v ++ [y]) =
          if better y (bestFrom better best v) then y else bestFrom better best v := by
        rw [bestFrom, List.foldl_append]
        rfl
      rw [hstep, ← List.cons_append]
      split
      · rename_i hy
        refine ⟨by simp, fun x hx => ?_⟩
        rcases List.mem_append.mp hx with hx | hx
        · exact hbetter hy (hbest x hx)
        · rw [List.mem_singleton.mp hx, hirrefl]
      · rename_i hy
        refine ⟨List.mem_append_left _ hmem, fun x hx => ?_⟩
        rcases List.mem_append.mp hx with hx | hx
        · exact hbest x hx
        · rw [List.mem_singleton.mp hx]
          exact Bool.eq_false_iff.mpr hy

end Best

/-- No value is greater than the maximum, whatever is `nan`. -/
theorem greatest_spec (h : v ≠ []) :
    ∃ m, greatest v = .ok m ∧ m ∈ v ∧ ∀ x ∈ v, m.lt x = false := by
  cases v with
  | nil => exact absurd rfl h
  | cons x rest =>
      have hbest := @bestFrom_spec (fun a b => b.lt a) lt_irrefl lt_of_lt_of_not_lt x rest
      exact ⟨_, rfl, hbest⟩

theorem least_spec (h : v ≠ []) :
    ∃ m, least v = .ok m ∧ m ∈ v ∧ ∀ x ∈ v, x.lt m = false := by
  cases v with
  | nil => exact absurd rfl h
  | cons x rest => exact ⟨_, rfl, bestFrom_spec lt_irrefl lt_of_not_lt_of_lt x rest⟩

end BpftimeBenchmark.PyFloat
