import Mathlib.Algebra.BigOperators.Group.List.Basic
import Mathlib.Algebra.Order.BigOperators.Group.List
import Mathlib.Algebra.Order.Field.Basic
import Mathlib.Tactic.Ring

/-!
The mean of a list and the mean square less the square of the mean, which is the
mean squared deviation and lies between zero and the product of the distances of
the mean from a lower and an upper bound.
-/

namespace BpftimeBenchmark.Averages

section Field

variable {K : Type} [Field K]

def mean (v : List K) : K := v.sum / v.length

/-- The mean square less the square of the mean. -/
def spread (v : List K) : K := (v.map (· ^ 2)).sum / v.length - mean v ^ 2

theorem sum_map_sub (v : List K) (a : K) :
    (v.map (· - a)).sum = v.sum - v.length * a := by
  induction v with
  | nil => simp
  | cons x v ih =>
      simp only [List.map_cons, List.sum_cons, ih, List.length_cons, Nat.cast_add, Nat.cast_one]
      ring

theorem sum_map_sq_sub (v : List K) (a : K) :
    (v.map fun x => (x - a) ^ 2).sum =
      (v.map (· ^ 2)).sum - 2 * a * v.sum + v.length * a ^ 2 := by
  induction v with
  | nil => simp
  | cons x v ih =>
      simp only [List.map_cons, List.sum_cons, ih, List.length_cons, Nat.cast_add, Nat.cast_one]
      ring

/-- The products of the distances from two bounds. -/
theorem sum_map_bounds (v : List K) (a b : K) :
    (v.map fun x => (b - x) * (x - a)).sum =
      (a + b) * v.sum - (v.map (· ^ 2)).sum - v.length * (a * b) := by
  induction v with
  | nil => simp
  | cons x v ih =>
      simp only [List.map_cons, List.sum_cons, ih, List.length_cons, Nat.cast_add, Nat.cast_one]
      ring

variable [CharZero K]

theorem length_ne_zero {v : List K} (h : v ≠ []) : (v.length : K) ≠ 0 :=
  Nat.cast_ne_zero.mpr (List.length_pos_iff.mpr h).ne'

theorem length_mul_mean {v : List K} (h : v ≠ []) : v.length * mean v = v.sum :=
  mul_div_cancel₀ _ (length_ne_zero h)

/-- The one-pass formula is the mean squared deviation. -/
theorem spread_eq {v : List K} (h : v ≠ []) :
    spread v = mean (v.map fun x => (x - mean v) ^ 2) := by
  have hn := length_ne_zero h
  have hsum := length_mul_mean h
  rw [mean, List.length_map, sum_map_sq_sub, ← hsum, spread, div_sub' hn]
  congr 1
  ring

theorem length_mul_spread {v : List K} (h : v ≠ []) :
    v.length * spread v = (v.map fun x => (x - mean v) ^ 2).sum := by
  rw [spread_eq h, mean, List.length_map, mul_div_cancel₀ _ (length_ne_zero h)]

theorem mean_shift {v : List K} (h : v ≠ []) (c : K) :
    mean (v.map (· + c)) = mean v + c := by
  have hsum := sum_map_sub v (-c)
  simp only [sub_neg_eq_add] at hsum
  rw [mean, List.length_map, hsum, mean, div_add' _ _ _ (length_ne_zero h)]
  congr 1
  ring

/-- A constant that is added to every value does not change the spread. -/
theorem spread_shift {v : List K} (h : v ≠ []) (c : K) :
    spread (v.map (· + c)) = spread v := by
  have hne : v.map (· + c) ≠ [] := by simpa using h
  rw [spread_eq hne, spread_eq h, mean_shift h, List.map_map]
  congr 1
  apply List.map_congr_left
  intro x _
  simp only [Function.comp_apply]
  ring

end Field

section Ordered

variable {K : Type} [Field K] [LinearOrder K] [IsStrictOrderedRing K] {v : List K}

theorem length_pos_cast (h : v ≠ []) : 0 < (v.length : K) :=
  Nat.cast_pos.mpr (List.length_pos_iff.mpr h)

theorem le_mean (h : v ≠ []) {a : K} (ha : ∀ x ∈ v, a ≤ x) : a ≤ mean v := by
  have hsum := List.card_nsmul_le_sum v a ha
  rw [nsmul_eq_mul] at hsum
  rwa [mean, le_div_iff₀ (length_pos_cast h), mul_comm]

theorem mean_le (h : v ≠ []) {b : K} (hb : ∀ x ∈ v, x ≤ b) : mean v ≤ b := by
  have hsum := List.sum_le_card_nsmul v b hb
  rw [nsmul_eq_mul] at hsum
  rwa [mean, div_le_iff₀ (length_pos_cast h), mul_comm]

theorem spread_nonneg (h : v ≠ []) : 0 ≤ spread v := by
  have hsum : 0 ≤ (v.map fun x => (x - mean v) ^ 2).sum := by
    apply List.sum_nonneg
    intro y hy
    obtain ⟨x, -, rfl⟩ := List.mem_map.mp hy
    exact sq_nonneg _
  rw [← length_mul_spread h] at hsum
  exact nonneg_of_mul_nonneg_right hsum (length_pos_cast h)

theorem mean_of_forall_eq (h : v ≠ []) {a : K} (ha : ∀ x ∈ v, x = a) : mean v = a :=
  le_antisymm (mean_le h fun x hx => (ha x hx).le) (le_mean h fun x hx => (ha x hx).ge)

/-- Values without spread are all the same. -/
theorem spread_eq_zero_iff (h : v ≠ []) :
    spread v = 0 ↔ ∀ x ∈ v, ∀ y ∈ v, x = y := by
  constructor
  · intro hzero
    have hmean : ∀ x ∈ v, x = mean v := by
      have hsum : (v.map fun x => (x - mean v) ^ 2).sum = 0 := by
        rw [← length_mul_spread h, hzero, mul_zero]
      have hnonneg : ∀ y ∈ v.map fun x => (x - mean v) ^ 2, 0 ≤ y := by
        intro y hy
        obtain ⟨x, -, rfl⟩ := List.mem_map.mp hy
        exact sq_nonneg _
      intro x hx
      have hle := List.single_le_sum hnonneg _ (List.mem_map_of_mem hx)
      rw [hsum] at hle
      have hsq := le_antisymm hle (sq_nonneg (x - mean v))
      exact sub_eq_zero.mp (pow_eq_zero_iff two_ne_zero |>.mp hsq)
    intro x hx y hy
    rw [hmean x hx, hmean y hy]
  · intro hall
    obtain ⟨a, ha⟩ := List.exists_mem_of_ne_nil v h
    have hmean := mean_of_forall_eq h fun x hx => hall x hx a ha
    have hzero : v.map (fun x => (x - mean v) ^ 2) = v.map (fun _ => (0 : K)) := by
      apply List.map_congr_left
      intro x hx
      rw [hmean, hall x hx a ha, sub_self]
      ring
    rw [spread_eq h, hzero, mean]
    simp

/-- The spread of values between two bounds. -/
theorem spread_le (h : v ≠ []) {a b : K} (hv : ∀ x ∈ v, a ≤ x ∧ x ≤ b) :
    spread v ≤ (b - mean v) * (mean v - a) := by
  have hsum : 0 ≤ (v.map fun x => (b - x) * (x - a)).sum := by
    apply List.sum_nonneg
    intro y hy
    obtain ⟨x, hx, rfl⟩ := List.mem_map.mp hy
    exact mul_nonneg (sub_nonneg.mpr (hv x hx).2) (sub_nonneg.mpr (hv x hx).1)
  have hsq : (v.map (· ^ 2)).sum = v.length * (spread v + mean v ^ 2) := by
    rw [spread, sub_add_cancel, mul_div_cancel₀ _ (length_ne_zero h)]
  rw [sum_map_bounds, hsq, ← length_mul_mean h] at hsum
  have hfactor : 0 ≤ (v.length : K) * ((b - mean v) * (mean v - a) - spread v) := by
    calc (0 : K) ≤ _ := hsum
      _ = _ := by ring
  exact sub_nonneg.mp (nonneg_of_mul_nonneg_right hfactor (length_pos_cast h))

end Ordered

end BpftimeBenchmark.Averages
