import BpftimeBenchmark.Lib.Pattern
import Mathlib.Algebra.Order.Floor.Ring
import Mathlib.Data.List.TakeWhile
import Mathlib.Data.Nat.Sqrt
import Mathlib.Data.Rat.Floor

/-!
Numbers as Python prints them, and how the pattern `\s+(\d+\.\d+)` reads a number
back. Numbers are exact, and rounding is to the nearest and, halfway, to the even
neighbour.
-/

namespace BpftimeBenchmark

namespace Text

def ofNat (n : Nat) : Text := Nat.toDigits 10 n

def ofInt (n : Int) : Text := if n < 0 then '-' :: ofNat n.natAbs else ofNat n.natAbs

def roundEven (q : ℚ) : Int :=
  let low := ⌊q⌋
  if q - low < 1 / 2 then low
  else if 1 / 2 < q - low then low + 1
  else if low % 2 = 0 then low
  else low + 1

theorem roundEven_nonneg {q : ℚ} (h : 0 ≤ q) : 0 ≤ roundEven q := by
  have hlow : 0 ≤ ⌊q⌋ := Int.floor_nonneg.mpr h
  simp only [roundEven]
  split_ifs <;> omega

/-- The absolute value in hundredths. -/
def hundredths (q : ℚ) : Nat := (roundEven (|q| * 100)).toNat

def twoDigits (n : Nat) : Text := [Nat.digitChar (n / 10 % 10), Nat.digitChar (n % 10)]

/-- A number of hundredths with two decimals. -/
def ofHundredths (n : Nat) : Text := ofNat (n / 100) ++ '.' :: twoDigits (n % 100)

def signed (q : ℚ) (magnitude : Text) : Text := if q < 0 then '-' :: magnitude else magnitude

/-- The format `.2f`. -/
def fixedTwo (q : ℚ) : Text := signed q (ofHundredths (hundredths q))

/-- `repr(round(q, 2))`: no zero at the end but right after the point. -/
def reprRounded (q : ℚ) : Text :=
  let n := hundredths q
  let fraction :=
    if n % 10 = 0 then [Nat.digitChar (n / 10 % 10)] else twoDigits (n % 100)
  signed q (ofNat (n / 100) ++ '.' :: fraction)

/-- `part.join(items)`. -/
def join (part : Text) : List Text → Text
  | [] => []
  | [s] => s
  | s :: rest => s ++ part ++ join part rest

theorem digitValue_of_isDigit {c : Char} (h : c.isDigit = true) :
    digitValue c = some (c.toNat - 48) := by
  have hrange : 48 ≤ c.toNat ∧ c.toNat ≤ 57 := by
    simp only [Char.isDigit, Bool.and_eq_true, decide_eq_true_eq, ge_iff_le,
      UInt32.le_iff_toNat_le] at h
    exact h
  have hfound : zeros.find? (fun z => z ≤ c.toNat && c.toNat < z + 10) = some 48 := by
    unfold zeros
    rw [List.find?_cons_of_pos]
    simp only [Bool.and_eq_true, decide_eq_true_eq]
    omega
  rw [digitValue, hfound]
  rfl

theorem isDecimal_of_isDigit {c : Char} (h : c.isDigit = true) : isDecimal c = true := by
  rw [isDecimal, digitValue_of_isDigit h, Option.isSome_some]

theorem isDigit_of_mem_ofNat {n : Nat} {c : Char} (h : c ∈ ofNat n) : c.isDigit = true :=
  Nat.isDigit_of_mem_toDigits (by decide) (by decide) h

theorem digitsValue_eq_ofDigitChars {s : Text} (h : ∀ c ∈ s, c.isDigit = true) :
    digitsValue s = Nat.ofDigitChars 10 s 0 := by
  unfold digitsValue
  rw [Nat.ofDigitChars_eq_foldl]
  refine List.foldl_ext _ _ _ fun n c hc => ?_
  rw [digitValue_of_isDigit (h c hc)]
  rfl

theorem digitsValue_ofNat (n : Nat) : digitsValue (ofNat n) = n := by
  rw [digitsValue_eq_ofDigitChars fun c hc => isDigit_of_mem_ofNat hc]
  exact Nat.ofDigitChars_ten_toDigits

theorem isDigit_of_mem_twoDigits {n : Nat} {c : Char} (h : c ∈ twoDigits n) :
    c.isDigit = true := by
  simp only [twoDigits, List.mem_cons, List.not_mem_nil, or_false] at h
  rcases h with rfl | rfl <;> simp [Nat.mod_lt]

theorem digitsValue_twoDigits {n : Nat} (h : n < 100) : digitsValue (twoDigits n) = n := by
  rw [digitsValue_eq_ofDigitChars fun c hc => isDigit_of_mem_twoDigits hc, twoDigits,
    Nat.ofDigitChars_cons_digitChar_of_lt_ten (by omega),
    Nat.ofDigitChars_cons_digitChar_of_lt_ten (by omega), Nat.ofDigitChars_nil]
  omega

theorem isDecimal_of_mem_ofNat {n : Nat} {c : Char} (h : c ∈ ofNat n) : isDecimal c = true :=
  isDecimal_of_isDigit (isDigit_of_mem_ofNat h)

theorem isDecimal_of_mem_twoDigits {n : Nat} {c : Char} (h : c ∈ twoDigits n) :
    isDecimal c = true :=
  isDecimal_of_isDigit (isDigit_of_mem_twoDigits h)

theorem isDecimal_point : isDecimal '.' = false := by decide

theorem isDecimal_newline : isDecimal '\n' = false := by decide

/-- White space is not a digit. -/
theorem isDecimal_of_isSpace {c : Char} (h : isSpace c = true) : isDecimal c = false := by
  have hall : ∀ n ∈ [0x9, 0xa, 0xb, 0xc, 0xd, 0x1c, 0x1d, 0x1e, 0x1f, 0x20, 0x85, 0xa0, 0x1680,
      0x2000, 0x2001, 0x2002, 0x2003, 0x2004, 0x2005, 0x2006, 0x2007, 0x2008, 0x2009, 0x200a,
      0x2028, 0x2029, 0x202f, 0x205f, 0x3000],
      zeros.find? (fun z => z ≤ n && n < z + 10) = none := by
    decide +kernel
  have hnone := hall c.toNat (by simpa [isSpace] using h)
  rw [isDecimal, digitValue, hnone]
  rfl

/-- Digits, a point and digits, at the start of a text. -/
def readDecimal (s : Text) : Option Text :=
  match s.takeWhile isDecimal, s.dropWhile isDecimal with
  | [], _ => none
  | _ :: _, [] => none
  | d :: whole, c :: rest =>
      if c = '.' then
        match rest.takeWhile isDecimal with
        | [] => none
        | e :: fraction => some (d :: whole ++ '.' :: e :: fraction)
      else none

/-- The same after white space. -/
def readNumber : Text → Option Text
  | [] => none
  | c :: rest => if isSpace c then readDecimal (rest.dropWhile isSpace) else none

theorem takeWhile_append_stop {p : Char → Bool} {c : Char} (h : p c = false) (s t : Text) :
    (s ++ c :: t).takeWhile p = s.takeWhile p := by
  induction s with
  | nil => simp [h]
  | cons d s ih =>
      rw [List.cons_append, List.takeWhile_cons, List.takeWhile_cons, ih]

theorem dropWhile_append_stop {p : Char → Bool} {c : Char} (h : p c = false) (s t : Text) :
    (s ++ c :: t).dropWhile p = s.dropWhile p ++ c :: t := by
  induction s with
  | nil => simp [h]
  | cons d s ih =>
      rw [List.cons_append, List.dropWhile_cons, List.dropWhile_cons, ih]
      split <;> rfl

theorem readDecimal_append_newline (s t : Text) :
    readDecimal (s ++ '\n' :: t) = readDecimal s := by
  unfold readDecimal
  rw [takeWhile_append_stop isDecimal_newline, dropWhile_append_stop isDecimal_newline]
  cases s.takeWhile isDecimal with
  | nil => rfl
  | cons d whole =>
      cases s.dropWhile isDecimal with
      | nil => rfl
      | cons c rest =>
          simp only [List.cons_append]
          rw [takeWhile_append_stop isDecimal_newline]

/-- A number is not read across the end of a line that is followed by another kind of
character. -/
theorem readNumber_append_newline {c : Char} (hspace : isSpace c = false)
    (hdecimal : isDecimal c = false) (s t : Text) :
    readNumber (s ++ '\n' :: c :: t) = readNumber s := by
  have hstop : readDecimal (c :: t) = none := by
    unfold readDecimal
    rw [List.takeWhile_cons, hdecimal]
    rfl
  cases s with
  | nil =>
      show (if isSpace '\n' then readDecimal ((c :: t).dropWhile isSpace) else none) = none
      rw [if_pos (by decide), List.dropWhile_cons, hspace]
      exact hstop
  | cons d s =>
      show (if isSpace d then readDecimal ((s ++ '\n' :: c :: t).dropWhile isSpace) else none) =
        if isSpace d then readDecimal (s.dropWhile isSpace) else none
      split
      · by_cases hs : s.dropWhile isSpace = []
        · have hall : ∀ x ∈ s ++ ['\n'], isSpace x = true := by
            intro x hx
            rcases List.mem_append.mp hx with hx | hx
            · exact List.dropWhile_eq_nil_iff.mp hs x hx
            · obtain rfl := List.mem_singleton.mp hx
              decide
          rw [hs, show s ++ '\n' :: c :: t = (s ++ ['\n']) ++ c :: t by simp,
            dropWhile_append_stop hspace, List.dropWhile_eq_nil_iff.mpr hall]
          exact hstop
        · have hsplit : (s ++ '\n' :: c :: t).dropWhile isSpace =
              s.dropWhile isSpace ++ '\n' :: c :: t := by
            rw [List.dropWhile_append, if_neg (by simpa using hs)]
          rw [hsplit, readDecimal_append_newline]
      · rfl

theorem takeWhile_append_all {p : Char → Bool} {s : Text} (hs : ∀ c ∈ s, p c = true) {c : Char}
    (hc : p c = false) (t : Text) : (s ++ c :: t).takeWhile p = s := by
  rw [takeWhile_append_stop hc, List.takeWhile_eq_self_iff.mpr hs]

theorem dropWhile_append_all {p : Char → Bool} {s : Text} (hs : ∀ c ∈ s, p c = true) {c : Char}
    (hc : p c = false) (t : Text) : (s ++ c :: t).dropWhile p = c :: t := by
  rw [dropWhile_append_stop hc, List.dropWhile_eq_nil_iff.mpr hs, List.nil_append]

/-- What is printed with two decimals is read back. -/
theorem readDecimal_ofHundredths (n : Nat) :
    readDecimal (ofHundredths n) = some (ofHundredths n) := by
  have hwhole : ∀ c ∈ ofNat (n / 100), isDecimal c = true := fun _ hc => isDecimal_of_mem_ofNat hc
  have hfraction : (twoDigits (n % 100)).takeWhile isDecimal = twoDigits (n % 100) :=
    List.takeWhile_eq_self_iff.mpr fun _ hc => isDecimal_of_mem_twoDigits hc
  unfold readDecimal ofHundredths
  rw [takeWhile_append_all hwhole isDecimal_point, dropWhile_append_all hwhole isDecimal_point]
  cases hdigits : ofNat (n / 100) with
  | nil => exact absurd hdigits Nat.toDigits_ne_nil
  | cons d whole =>
      simp only [hfraction]
      rfl

theorem readNumber_ofHundredths (n : Nat) (t : Text) :
    readNumber ("   ".toList ++ ofHundredths n ++ '\n' :: t) = some (ofHundredths n) := by
  have hfirst : (ofHundredths n ++ '\n' :: t).dropWhile isSpace = ofHundredths n ++ '\n' :: t := by
    unfold ofHundredths
    cases hdigits : ofNat (n / 100) with
    | nil => exact absurd hdigits Nat.toDigits_ne_nil
    | cons d whole =>
        have hd : isDecimal d = true := isDecimal_of_mem_ofNat (n := n / 100) (by simp [hdigits])
        have hspace : isSpace d = false := by
          cases hd' : isSpace d with
          | false => rfl
          | true =>
              rw [isDecimal_of_isSpace hd'] at hd
              cases hd
        rw [List.cons_append, List.cons_append, List.dropWhile_cons, hspace]
        rfl
  show readDecimal ((ofHundredths n ++ '\n' :: t).dropWhile isSpace) = _
  rw [hfirst, readDecimal_append_newline, readDecimal_ofHundredths]

/-- The value of what is printed with two decimals. -/
theorem decimalValue_ofHundredths (n : Nat) : decimalValue (ofHundredths n) = n / 100 := by
  have hwhole : ∀ c ∈ ofNat (n / 100), isDecimal c = true := fun _ hc => isDecimal_of_mem_ofNat hc
  unfold decimalValue ofHundredths
  simp only [takeWhile_append_all hwhole isDecimal_point,
    dropWhile_append_all hwhole isDecimal_point, List.drop_succ_cons, List.drop_zero,
    digitsValue_ofNat, digitsValue_twoDigits (Nat.mod_lt n (by decide : 0 < 100))]
  have hlength : (twoDigits (n % 100)).length = 2 := rfl
  have hn : n = 100 * (n / 100) + n % 100 := (Nat.div_add_mod n 100).symm
  have hcast : (n : ℚ) = 100 * ((n / 100 : Nat) : ℚ) + ((n % 100 : Nat) : ℚ) := by
    exact_mod_cast hn
  rw [hlength, hcast]
  ring

end Text

namespace Pattern

variable {α : Type}

/-- A repetition after which no character of its class can come has one way to go. -/
theorem greedy_eq_dropWhile {p : Char → Bool} {next : Text → Option α}
    (h : ∀ c rest, p c = true → next (c :: rest) = none) (s : Text) :
    greedy p next s = next (s.dropWhile p) := by
  induction s with
  | nil => rfl
  | cons c s ih =>
      rw [greedy, List.dropWhile_cons]
      cases hc : p c with
      | true =>
          simp only [if_true, ih, h c s hc]
          cases next (s.dropWhile p) <;> rfl
      | false => rfl

/-- So has one after which anything can come. -/
theorem greedy_eq_of_isSome {p : Char → Bool} {next : Text → Option α}
    (h : ∀ s, (next s).isSome = true) (s : Text) : greedy p next s = next (s.dropWhile p) := by
  induction s with
  | nil => rfl
  | cons c s ih =>
      rw [greedy, List.dropWhile_cons]
      cases hc : p c with
      | true =>
          obtain ⟨a, ha⟩ := Option.isSome_iff_exists.mp (h (s.dropWhile p))
          simp only [if_true, ih, ha]
      | false => rfl

/-- The end of `decimalGroup`, from its point on. -/
def pointGroup : Pattern :=
  [.one (· == '.'), .one Text.isDecimal, .many Text.isDecimal, .closeGroup]

theorem run_pointGroup (opened group s : Text) :
    run pointGroup opened group s =
      match s with
      | [] => none
      | c :: rest =>
          if c = '.' then
            match rest.takeWhile Text.isDecimal with
            | [] => none
            | _ :: _ =>
                some (opened.take (opened.length - (rest.dropWhile Text.isDecimal).length))
          else none := by
  cases s with
  | nil => rfl
  | cons c rest =>
      show (if c == '.' then run [.one Text.isDecimal, .many Text.isDecimal, .closeGroup]
        opened group rest else none) = _
      simp only [beq_iff_eq]
      split
      · cases rest with
        | nil => rfl
        | cons d rest =>
            show (if Text.isDecimal d then greedy Text.isDecimal (run [.closeGroup] opened group)
              rest else none) = _
            rw [List.takeWhile_cons, List.dropWhile_cons]
            cases Text.isDecimal d with
            | true => exact greedy_eq_of_isSome (fun _ => rfl) rest
            | false => rfl
      · rfl

theorem run_decimalGroup (opened group s : Text) :
    run decimalGroup opened group s = Text.readDecimal s := by
  cases s with
  | nil => rfl
  | cons c s =>
      show (if Text.isDecimal c then greedy Text.isDecimal (run pointGroup (c :: s) group) s
        else none) = _
      unfold Text.readDecimal
      rw [List.takeWhile_cons, List.dropWhile_cons]
      cases hc : Text.isDecimal c with
      | false => rfl
      | true =>
          have hpoint (d : Char) (rest : Text) (hd : Text.isDecimal d = true) :
              run pointGroup (c :: s) group (d :: rest) = none := by
            have hne : d ≠ '.' := by
              rintro rfl
              rw [Text.isDecimal_point] at hd
              cases hd
            rw [run_pointGroup]
            exact if_neg hne
          simp only [if_true, greedy_eq_dropWhile hpoint, run_pointGroup]
          cases hrest : s.dropWhile Text.isDecimal with
          | nil => rfl
          | cons d rest =>
              simp only
              split
              · rename_i hd
                cases hfraction : rest.takeWhile Text.isDecimal with
                | nil => rfl
                | cons e fraction =>
                    -- the group is what comes before the rest of the text
                    have hs : s = s.takeWhile Text.isDecimal ++
                        '.' :: (e :: fraction ++ rest.dropWhile Text.isDecimal) := by
                      calc s = s.takeWhile Text.isDecimal ++ s.dropWhile Text.isDecimal :=
                            List.takeWhile_append_dropWhile.symm
                        _ = _ := by
                            rw [hrest, hd, ← hfraction, List.takeWhile_append_dropWhile]
                    have happend : c :: s = (c :: s.takeWhile Text.isDecimal ++
                        '.' :: e :: fraction) ++ rest.dropWhile Text.isDecimal := by
                      calc c :: s = c :: (s.takeWhile Text.isDecimal ++
                            '.' :: (e :: fraction ++ rest.dropWhile Text.isDecimal)) :=
                            congrArg (c :: ·) hs
                        _ = _ := by simp
                    simp only
                    rw [happend, List.length_append, Nat.add_sub_cancel, List.take_left]
              · rfl

/-- `\s+(\d+\.\d+)` has one way to go. -/
theorem run_number (opened group s : Text) :
    run (spaces ++ decimalGroup) opened group s = Text.readNumber s := by
  cases s with
  | nil => rfl
  | cons c s =>
      show (if Text.isSpace c then greedy Text.isSpace (run decimalGroup opened group) s
        else none) = _
      have hspace (d : Char) (rest : Text) (hd : Text.isSpace d = true) :
          run decimalGroup opened group (d :: rest) = none := by
        rw [run_decimalGroup, Text.readDecimal, List.takeWhile_cons,
          Text.isDecimal_of_isSpace hd]
        rfl
      rw [greedy_eq_dropWhile hspace, run_decimalGroup]
      rfl

end Pattern

end BpftimeBenchmark
