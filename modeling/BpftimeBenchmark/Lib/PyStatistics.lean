import BpftimeBenchmark.Lib.Binary64
import BpftimeBenchmark.Lib.Mean
import BpftimeBenchmark.Lib.PyError
import Mathlib.Algebra.Order.Ring.Rat

/-!
The functions of Python's `statistics` and the built-in `min` and `max`, whatever the
numbers are rounded to. Each of them raises where it is given too few values.
-/

namespace BpftimeBenchmark.PyStatistics

/-- `values[i]`. -/
def item (values : List ℚ) (i : Nat) : Except PyError ℚ :=
  match values[i]? with
  | some v => .ok v
  | none => .error .indexError

theorem item_ok {values : List ℚ} {i : Nat} (h : i < values.length) (default : ℚ) :
    item values i = .ok (values.getD i default) := by
  rw [item, List.getD_eq_getElem?_getD, List.getElem?_eq_getElem h]
  rfl

variable (N : Rounding)

/-- The mean is taken as an exact fraction first. -/
def mean (values : List ℚ) : Except PyError ℚ :=
  if values = [] then .error .valueError else .ok (N.nearest (Averages.mean values))

def sorted (values : List ℚ) : List ℚ := values.mergeSort (fun v w => decide (v ≤ w))

def median (values : List ℚ) : Except PyError ℚ :=
  let data := sorted values
  let half := data.length / 2
  if data.length = 0 then .error .valueError
  else if data.length % 2 = 1 then item data half
  else do
    let low ← item data (half - 1)
    let high ← item data half
    let middle ← divide (N.nearest (low + high)) 2
    pure (N.nearest middle)

/-- The median of values that are there. -/
def medianOf (values : List ℚ) : ℚ :=
  let data := sorted values
  let half := data.length / 2
  if data.length % 2 = 1 then data.getD half 0
  else N.nearest (N.nearest (data.getD (half - 1) 0 + data.getD half 0) / 2)

/-- A standard deviation, by its square. -/
structure Deviation where
  square : ℚ
  nonneg : 0 ≤ square

instance : Zero Deviation := ⟨⟨0, le_rfl⟩⟩

/-- The squares of the distances from the mean, over one less than their number. -/
def variance (values : List ℚ) : ℚ :=
  (values.map fun v => (v - Averages.mean values) ^ 2).sum / (values.length - 1)

theorem variance_nonneg {values : List ℚ} (h : 1 ≤ values.length) : 0 ≤ variance values := by
  apply div_nonneg
  · apply List.sum_nonneg
    intro v hv
    obtain ⟨w, -, rfl⟩ := List.mem_map.mp hv
    exact sq_nonneg _
  · rw [sub_nonneg]
    exact_mod_cast h

def stdev (values : List ℚ) : Except PyError Deviation :=
  if h : 1 < values.length then .ok ⟨variance values, variance_nonneg h.le⟩
  else .error .valueError

/-- The deviation of values that are enough, else zero. -/
def deviationOf (values : List ℚ) : Deviation :=
  if h : 1 < values.length then ⟨variance values, variance_nonneg h.le⟩ else 0

def minimum (values : List ℚ) : Except PyError ℚ := orValueError values.min?

def maximum (values : List ℚ) : Except PyError ℚ := orValueError values.max?

section Enough

variable {values : List ℚ} (h : values ≠ [])

include h

theorem mean_ok : mean N values = .ok (N.nearest (Averages.mean values)) := if_neg h

theorem median_ok : median N values = .ok (medianOf N values) := by
  have hlength : 0 < (sorted values).length := by
    rw [sorted, List.length_mergeSort]
    exact List.length_pos_iff.mpr h
  rw [median, medianOf, if_neg hlength.ne']
  split
  · exact item_ok (by omega) 0
  · rw [item_ok (by omega) 0, item_ok (by omega) 0]
    simp only [ok_bind, divide_of_ne_zero two_ne_zero]
    rfl

theorem minimum_ok : minimum values = .ok (values.min?.getD 0) := orValueError_ok (by simpa)

theorem maximum_ok : maximum values = .ok (values.max?.getD 0) := orValueError_ok (by simpa)

theorem mean_pos (hpos : ∀ v ∈ values, 0 < v) : 0 < Averages.mean values :=
  div_pos (List.sum_pos values hpos h) (Averages.length_pos_cast h)

end Enough

theorem stdev_ok {values : List ℚ} (h : 1 < values.length) :
    stdev values = .ok (deviationOf values) := by
  rw [stdev, deviationOf, dif_pos h, dif_pos h]

end BpftimeBenchmark.PyStatistics
