import BpftimeBenchmark.Lib.Decimal
import Mathlib.Algebra.Order.Field.Power
import Mathlib.Data.Int.Log

/-!
Binary floats of double precision by their values: the float nearest to a number, and
the one nearest to a square root. Exponents are bounded below and not above, so that no
result is too large.
-/

namespace BpftimeBenchmark

namespace Binary64

/-- The distance of the floats around a number: they have 53 bits, and none is finer than
the smallest one. -/
def quantum (q : ℚ) : ℚ := 2 ^ max (Int.log 2 |q| - 52) (-1074)

theorem quantum_pos (q : ℚ) : 0 < quantum q := zpow_pos (by norm_num) _

/-- The float nearest to a number, and of two the even one. -/
def nearest (q : ℚ) : ℚ := Text.roundEven (q / quantum q) * quantum q

theorem nearest_nonneg {q : ℚ} (h : 0 ≤ q) : 0 ≤ nearest q := by
  have hscaled : 0 ≤ q / quantum q := div_nonneg h (quantum_pos q).le
  exact mul_nonneg (Int.cast_nonneg (Text.roundEven_nonneg hscaled)) (quantum_pos q).le

/-- The float nearest to a square root. At least 59 bits of the root are taken, and where it
goes on after them, half of the last one stands for the rest: no midpoint of two floats is
between it and the root. -/
def root (v : ℚ) : ℚ :=
  let places := Nat.log2 v.den + 60
  let bits : ℚ := Nat.sqrt ⌊v * 4 ^ places⌋.toNat
  nearest ((if bits ^ 2 = v * 4 ^ places then bits else bits + 1 / 2) / 2 ^ places)

end Binary64

/-- The numbers of a program: what stands for the exact result of an operation, and for a
square root. -/
structure Rounding where
  nearest : ℚ → ℚ
  root : ℚ → ℚ
  nearest_nonneg : ∀ {q : ℚ}, 0 ≤ q → 0 ≤ nearest q

namespace Rounding

def binary64 : Rounding := ⟨Binary64.nearest, Binary64.root, Binary64.nearest_nonneg⟩

example : Text.fixedTwo (binary64.nearest (267 / 100 + 1 / 200)) = "2.67".toList := by
  decide +kernel

/-- A square root in hundredths, rounded. -/
def sqrtHundredths (v : ℚ) : Nat :=
  let doubled := Nat.sqrt ⌊4 * (v * 10000)⌋.toNat
  if doubled % 2 = 0 then doubled / 2
  else if (doubled : ℚ) ^ 2 = 4 * (v * 10000) ∧ doubled / 2 % 2 = 0 then doubled / 2
  else doubled / 2 + 1

/-- Exact numbers, and roots with the two decimals that are printed of them. -/
def exact : Rounding := ⟨id, fun v => sqrtHundredths v / 100, id⟩

end Rounding

end BpftimeBenchmark
