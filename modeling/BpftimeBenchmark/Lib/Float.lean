import BpftimeBenchmark.Lib.Decimal
import BpftimeBenchmark.Lib.Lines

/-!
`int` and `float` of a text as Python documents them, with exact numbers, and the
numerals that C prints for `%lf`.
-/

namespace BpftimeBenchmark

/-- What `float` returns. -/
inductive PyFloat where
  | finite (q : ℚ)
  | infinite (negative : Bool)
  | nan
  deriving DecidableEq

namespace Text

/-- An underscore may stand between two digits. -/
def withoutUnderscores (afterDigit : Bool) : Text → Option Text
  | [] => some []
  | c :: rest =>
      if c = '_' then
        if afterDigit && rest.head?.any isDecimal then withoutUnderscores false rest else none
      else (withoutUnderscores (isDecimal c) rest).map (c :: ·)

def splitSign : Text → Bool × Text
  | [] => (false, [])
  | c :: rest =>
      if c = '-' then (true, rest) else if c = '+' then (false, rest) else (false, c :: rest)

/-- `int(s)`; without a value it raises a `ValueError`. -/
def int (s : Text) : Option Int :=
  (withoutUnderscores false (strip s)).bind fun t =>
    let digits := (splitSign t).2
    if digits ≠ [] ∧ digits.all isDecimal then
      some (if (splitSign t).1 then -digitsValue digits else digitsValue digits)
    else none

/-- The power of ten that an exponent stands for. -/
def power (s : Text) : Option ℚ :=
  match s with
  | [] => some 1
  | c :: rest =>
      let digits := (splitSign rest).2
      if (c = 'e' ∨ c = 'E') ∧ digits ≠ [] ∧ digits.all isDecimal then
        some (if (splitSign rest).1 then 1 / 10 ^ digitsValue digits
          else 10 ^ digitsValue digits)
      else none

/-- The digits after a point, and what follows them. -/
def fractionPart : Text → Text × Text
  | [] => ([], [])
  | c :: rest =>
      if c = '.' then (rest.takeWhile isDecimal, rest.dropWhile isDecimal) else ([], c :: rest)

def magnitude (s : Text) : Option ℚ :=
  let whole := s.takeWhile isDecimal
  let (fraction, rest) := fractionPart (s.dropWhile isDecimal)
  if whole = [] ∧ fraction = [] then none
  else
    (power rest).map
      ((digitsValue whole + digitsValue fraction / 10 ^ fraction.length : ℚ) * ·)

def unsignedFloat (negative : Bool) (s : Text) : Option PyFloat :=
  let name := s.map Char.toLower
  if name = "inf".toList ∨ name = "infinity".toList then some (.infinite negative)
  else if name = "nan".toList then some .nan
  else (magnitude s).map fun q => .finite (if negative then -q else q)

/-- `float(s)`; without a value it raises a `ValueError`. -/
def float (s : Text) : Option PyFloat :=
  (withoutUnderscores false (strip s)).bind fun t =>
    unsignedFloat (splitSign t).1 (splitSign t).2

/-- The last `k` decimal digits of a number. -/
def places : Nat → Nat → Text
  | 0, _ => []
  | k + 1, n => places k (n / 10) ++ [Nat.digitChar (n % 10)]

end Text

/-- A `double` as `%lf` shows it, rounded to six decimals. -/
inductive Lf where
  | finite (negative : Bool) (millionths : Nat)
  | infinite (negative : Bool)
  | nan (negative : Bool)
  deriving DecidableEq

namespace Lf

def isNegative : Lf → Bool
  | .finite negative _ | .infinite negative | .nan negative => negative

def unsigned : Lf → Text
  | .finite _ n => Text.ofNat (n / 1000000) ++ '.' :: Text.places 6 n
  | .infinite _ => "inf".toList
  | .nan _ => "nan".toList

def print (t : Lf) : Text := if t.isNegative then '-' :: t.unsigned else t.unsigned

def value : Lf → PyFloat
  | .finite negative n => .finite (if negative then -(n / 10 ^ 6) else n / 10 ^ 6)
  | .infinite negative => .infinite negative
  | .nan _ => .nan

end Lf

namespace Text

theorem length_places (k n : Nat) : (places k n).length = k := by
  induction k generalizing n with
  | zero => rfl
  | succ k ih => simp [places, ih]

theorem isDigit_of_mem_places {k n : Nat} {c : Char} (h : c ∈ places k n) :
    c.isDigit = true := by
  induction k generalizing n with
  | zero => cases h
  | succ k ih =>
      rcases List.mem_append.mp h with hmem | hmem
      · exact ih hmem
      · rw [List.mem_singleton.mp hmem]
        simp [Nat.mod_lt]

theorem digitsValue_places (k n : Nat) : digitsValue (places k n) = n % 10 ^ k := by
  have hdigit : ∀ d < 10, digitValue (Nat.digitChar d) = some d := by decide
  induction k generalizing n with
  | zero => simp [places, digitsValue, Nat.mod_one]
  | succ k ih =>
      have hlast := hdigit (n % 10) (Nat.mod_lt n (by decide))
      have hinit := ih (n / 10)
      rw [digitsValue] at hinit ⊢
      rw [places, List.foldl_append, List.foldl_cons, List.foldl_nil, hinit, hlast,
        Option.getD_some, Nat.pow_succ', Nat.mod_mul, Nat.add_comm]

theorem not_space_of_isDigit {c : Char} (h : c.isDigit = true) : isSpace c = false := by
  cases hspace : isSpace c with
  | false => rfl
  | true =>
      have hdecimal := isDecimal_of_isSpace hspace
      rw [isDecimal_of_isDigit h] at hdecimal
      cases hdecimal

theorem ofNat_ne_nil (n : Nat) : ofNat n ≠ [] := Nat.toDigits_ne_nil

theorem ne_of_isDigit {c d : Char} (h : c.isDigit = true) (hd : d.isDigit = false) : c ≠ d := by
  rintro rfl
  rw [h] at hd
  cases hd

theorem splitSign_of_isDigit {s : Text} (h : ∀ c ∈ s, c.isDigit = true) :
    splitSign s = (false, s) := by
  cases s with
  | nil => rfl
  | cons c rest =>
      have hc := h c List.mem_cons_self
      rw [splitSign, if_neg (ne_of_isDigit hc (by decide)), if_neg (ne_of_isDigit hc (by decide))]

theorem withoutUnderscores_of_not_mem {s : Text} (h : '_' ∉ s) (afterDigit : Bool) :
    withoutUnderscores afterDigit s = some s := by
  induction s generalizing afterDigit with
  | nil => rfl
  | cons c rest ih =>
      rw [List.mem_cons, not_or] at h
      rw [withoutUnderscores, if_neg (Ne.symm h.1), ih h.2]
      rfl

/-- `int` reads back what `str` prints. -/
theorem int_ofNat (n : Nat) : int (ofNat n) = some (n : Int) := by
  have hdigits : ∀ c ∈ ofNat n, c.isDigit = true := fun c hc => isDigit_of_mem_ofNat hc
  have hunderscore : '_' ∉ ofNat n := fun h => ne_of_isDigit (hdigits _ h) (by decide) rfl
  have hall : (ofNat n).all isDecimal = true :=
    List.all_eq_true.mpr fun c hc => isDecimal_of_mem_ofNat hc
  rw [int, strip_of_not_space (fun c hc => not_space_of_isDigit (hdigits c hc)),
    withoutUnderscores_of_not_mem hunderscore]
  simp only [Option.bind_some, splitSign_of_isDigit hdigits]
  rw [if_pos ⟨ofNat_ne_nil n, hall⟩, if_neg (by simp), digitsValue_ofNat]

/-- Digits, a point and digits are read as the number they stand for. -/
theorem magnitude_decimal {whole fraction : Text} (hne : whole ≠ [])
    (hwhole : ∀ c ∈ whole, isDecimal c = true) (hfraction : ∀ c ∈ fraction, isDecimal c = true) :
    magnitude (whole ++ '.' :: fraction) =
      some (digitsValue whole + digitsValue fraction / 10 ^ fraction.length : ℚ) := by
  have htake : fraction.takeWhile isDecimal = fraction :=
    List.takeWhile_eq_self_iff.mpr hfraction
  have hdrop : fraction.dropWhile isDecimal = [] := List.dropWhile_eq_nil_iff.mpr hfraction
  simp only [magnitude, takeWhile_append_all hwhole isDecimal_point,
    dropWhile_append_all hwhole isDecimal_point, fractionPart, if_true, htake, hdrop, power,
    Option.map_some, mul_one]
  rw [if_neg (fun h => hne h.1)]

end Text

namespace Lf

/-- The characters of a numeral. -/
theorem mem_unsigned {t : Lf} {c : Char} (h : c ∈ t.unsigned) :
    c.isDigit = true ∨ c ∈ ['.', 'i', 'n', 'f', 'a'] := by
  cases t with
  | finite negative n =>
      rcases List.mem_append.mp h with hmem | hmem
      · exact Or.inl (Text.isDigit_of_mem_ofNat hmem)
      · rcases List.mem_cons.mp hmem with rfl | hmem
        · exact Or.inr (by decide)
        · exact Or.inl (Text.isDigit_of_mem_places hmem)
  | infinite negative =>
      have hall : "inf".toList.all (['.', 'i', 'n', 'f', 'a'].contains ·) = true := by
        decide +kernel
      exact Or.inr (List.contains_iff_mem.mp (List.all_eq_true.mp hall c h))
  | nan negative =>
      have hall : "nan".toList.all (['.', 'i', 'n', 'f', 'a'].contains ·) = true := by
        decide +kernel
      exact Or.inr (List.contains_iff_mem.mp (List.all_eq_true.mp hall c h))

theorem mem_print {t : Lf} {c : Char} (h : c ∈ t.print) :
    c.isDigit = true ∨ c ∈ ['-', '.', 'i', 'n', 'f', 'a'] := by
  have hwider : c ∈ t.unsigned → c.isDigit = true ∨ c ∈ ['-', '.', 'i', 'n', 'f', 'a'] :=
    fun hmem => (mem_unsigned hmem).imp_right (List.mem_cons_of_mem _)
  unfold print at h
  split at h
  · rcases List.mem_cons.mp h with rfl | hmem
    · exact Or.inr List.mem_cons_self
    · exact hwider hmem
  · exact hwider h

theorem print_not_space {t : Lf} {c : Char} (h : c ∈ t.print) : Text.isSpace c = false := by
  rcases mem_print h with hdigit | hother
  · exact Text.not_space_of_isDigit hdigit
  · exact Text.not_space_of_all (by decide) c hother

theorem underscore_not_mem_print (t : Lf) : '_' ∉ t.print := by
  intro h
  rcases mem_print h with hdigit | hother
  · revert hdigit
    decide
  · revert hother
    decide

theorem unsigned_ne_nil (t : Lf) : t.unsigned ≠ [] := by
  cases t with
  | finite negative n => simp [unsigned]
  | infinite negative => simp [unsigned]
  | nan negative => simp [unsigned]

theorem print_ne_nil (t : Lf) : t.print ≠ [] := by
  unfold print
  split
  · simp
  · exact unsigned_ne_nil t

theorem splitSign_print (t : Lf) : Text.splitSign t.print = (t.isNegative, t.unsigned) := by
  unfold print
  cases hsign : t.isNegative with
  | true => rfl
  | false =>
      cases hunsigned : t.unsigned with
      | nil => exact absurd hunsigned (unsigned_ne_nil t)
      | cons c rest =>
          have hc : c ∈ t.unsigned := hunsigned ▸ List.mem_cons_self
          have hne : c ≠ '-' ∧ c ≠ '+' := by
            rcases mem_unsigned hc with hdigit | hother
            · constructor <;> rintro rfl <;> revert hdigit <;> decide
            · constructor <;> rintro rfl <;> revert hother <;> decide
          simp [Text.splitSign, hne.1, hne.2]

theorem magnitude_finite (n : Nat) :
    Text.magnitude (Text.ofNat (n / 1000000) ++ '.' :: Text.places 6 n) =
      some ((n : ℚ) / 10 ^ 6) := by
  have hsplit : (n : ℚ) = (n / 1000000 : Nat) * 10 ^ 6 + (n % 10 ^ 6 : Nat) := by
    have hnat : n = n / 1000000 * 1000000 + n % 1000000 := by omega
    calc (n : ℚ) = ((n / 1000000 * 1000000 + n % 1000000 : Nat) : ℚ) := by rw [← hnat]
      _ = _ := by norm_num
  rw [Text.magnitude_decimal (Text.ofNat_ne_nil _)
    (fun c hc => Text.isDecimal_of_mem_ofNat hc)
    (fun c hc => Text.isDecimal_of_isDigit (Text.isDigit_of_mem_places hc)),
    Text.digitsValue_ofNat, Text.digitsValue_places, Text.length_places]
  congr 1
  rw [eq_div_iff (by norm_num), add_mul, div_mul_cancel₀ _ (by norm_num)]
  exact hsplit.symm

theorem unsignedFloat_unsigned (t : Lf) :
    Text.unsignedFloat t.isNegative t.unsigned = some t.value := by
  cases t with
  | finite negative n =>
      have hpoint : '.' ∈ (unsigned (.finite negative n)).map Char.toLower :=
        List.mem_map.mpr ⟨'.', by simp [unsigned], by decide⟩
      have hnames : ∀ name ∈ ["inf".toList, "infinity".toList, "nan".toList],
          '.' ∉ name := by decide +kernel
      have hother : ∀ name ∈ ["inf".toList, "infinity".toList, "nan".toList],
          (unsigned (.finite negative n)).map Char.toLower ≠ name := by
        intro name hname heq
        exact hnames name hname (heq ▸ hpoint)
      simp only [List.forall_mem_cons, List.not_mem_nil, IsEmpty.forall_iff, implies_true,
        and_true] at hother
      rw [Text.unsignedFloat, if_neg (not_or.mpr ⟨hother.1, hother.2.1⟩), if_neg hother.2.2,
        unsigned, magnitude_finite]
      rfl
  | infinite negative => rfl
  | nan negative => rfl

/-- `float` reads back what `%lf` prints. -/
theorem float_print (t : Lf) : Text.float t.print = some t.value := by
  rw [Text.float, Text.strip_of_not_space (fun c hc => print_not_space hc),
    Text.withoutUnderscores_of_not_mem (underscore_not_mem_print t)]
  simp only [Option.bind_some, splitSign_print]
  exact unsignedFloat_unsigned t

end Lf

end BpftimeBenchmark
