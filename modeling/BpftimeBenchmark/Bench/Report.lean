import BpftimeBenchmark.Lib.Dict
import BpftimeBenchmark.Lib.PyStatistics

/-!
What the reports of the three harnesses have in common: the formats of their numbers,
the measures of the samples of a leg, and the changes from one average to another, in
numbers that are rounded in any way.
-/

namespace BpftimeBenchmark

namespace Text

/-- The format `+.2f`. -/
def plusTwo (q : ℚ) : Text := if q < 0 then fixedTwo q else '+' :: fixedTwo q

/-- The format `.2f` of the negative, which for zero is a negative zero. -/
def negatedTwo (q : ℚ) : Text := if q = 0 then '-' :: fixedTwo q else fixedTwo (-q)

/-- A comma after every third of the digits, which come from the last on. -/
def commas : Text → Text
  | a :: b :: c :: d :: rest => a :: b :: c :: ',' :: commas (d :: rest)
  | digits => digits

/-- The format `,.2f`. -/
def groupedTwo (q : ℚ) : Text :=
  let n := hundredths q
  signed q ((commas (ofNat (n / 100)).reverse).reverse ++ '.' :: twoDigits (n % 100))

example : groupedTwo (1234567 + 1 / 2) = "1,234,567.50".toList := by decide +kernel

end Text

namespace Bench.Report

open PyStatistics

/-- What the reports say about the samples of a leg. -/
structure Measures where
  avg : ℚ
  median : ℚ
  stdev : Deviation
  minVal : ℚ
  maxVal : ℚ

variable (N : Rounding)

/-- `statistics.stdev(values) if len(values) > 1 else 0`. -/
def stdevOrZero (values : List ℚ) : Except PyError Deviation :=
  if 1 < values.length then stdev values else pure 0

/-- The measures of the two nginx harnesses. -/
def measures (values : List ℚ) : Except PyError Measures := do
  let avg ← mean N values
  let median ← median N values
  let stdev ← stdevOrZero values
  let minVal ← minimum values
  let maxVal ← maximum values
  pure ⟨avg, median, stdev, minVal, maxVal⟩

/-- The median and the deviation of the syscall harness, which takes the one sample for
its median. -/
def medianAndStdev (values : List ℚ) : Except PyError (ℚ × Deviation) :=
  if 1 < values.length then do
    let median ← median N values
    let stdev ← stdev values
    pure (median, stdev)
  else do
    let median ← item values 0
    pure (median, 0)

/-- The measures of the syscall harness. -/
def measuresOrFirst (values : List ℚ) : Except PyError Measures := do
  let avg ← mean N values
  let spread ← medianAndStdev N values
  let minVal ← minimum values
  let maxVal ← maximum values
  pure ⟨avg, spread.1, spread.2, minVal, maxVal⟩

/-- `(difference / before) * 100`. -/
def percentage (difference before : ℚ) : Except PyError ℚ := do
  let ratio ← divide (N.nearest difference) before
  pure (N.nearest (N.nearest ratio * 100))

/-- `((after - before) / before) * 100`. -/
def change (before after : ℚ) : Except PyError ℚ := percentage N (after - before) before

/-- `((before - after) / before) * 100`. -/
def decrease (before after : ℚ) : Except PyError ℚ := percentage N (before - after) before

/-- What is printed of the legs beside the first, if the first has an average. -/
def comparedWith (first heading : Text) (compare : ℚ → ℚ → Except PyError ℚ)
    (line : Text → ℚ → Text) (avgs : Dict Text ℚ) : Except PyError (List Text) :=
  if first ∈ avgs then do
    let firstAvg ← avgs.get first
    let lines ← (avgs.entries.filter fun e => e.1 ≠ first).mapM fun e => do
      let impact ← compare firstAvg e.2
      pure (line e.1 impact)
    pure (heading :: lines)
  else pure []

/-- The change from one average to another, if there are both. -/
def changeBetween (avgs : Dict Text ℚ) (first second : Text) : Except PyError (Option ℚ) :=
  if first ∈ avgs ∧ second ∈ avgs then do
    let firstAvg ← avgs.get first
    let secondAvg ← avgs.get second
    let comparison ← change N firstAvg secondAvg
    pure (some comparison)
  else pure none

/-- `[round(x, 2) for x in values]`. -/
def runsText (values : List ℚ) : Text :=
  "[".toList ++ (Text.join ", ".toList (values.map Text.reprRounded) ++ "]".toList)

/-- The format `.2f` of a deviation. -/
def deviationTwo (d : Deviation) : Text :=
  Text.fixedTwo (N.root d.square)

def meanLine (avg : ℚ) : Text :=
  "  Requests/sec (mean):".toList ++ ("   ".toList ++ Text.fixedTwo avg)

def otherLines (m : Measures) (values : List ℚ) : List Text :=
  ["  Requests/sec (median): ".toList ++ Text.fixedTwo m.median,
    "  Standard deviation:    ".toList ++ deviationTwo N m.stdev,
    "  Min:                   ".toList ++ Text.fixedTwo m.minVal,
    "  Max:                   ".toList ++ Text.fixedTwo m.maxVal,
    "  All runs:              ".toList ++ runsText values]

/-- What the two nginx harnesses print of the measures and the samples. -/
def requestLines (m : Measures) (values : List ℚ) : List Text :=
  meanLine m.avg :: otherLines N m values

/-- The measures of samples that are there. -/
def measuresOf (values : List ℚ) : Measures where
  avg := N.nearest (Averages.mean values)
  median := medianOf N values
  stdev := deviationOf values
  minVal := values.min?.getD 0
  maxVal := values.max?.getD 0

def percentageOf (difference before : ℚ) : ℚ :=
  N.nearest (N.nearest (N.nearest difference / before) * 100)

/-- All samples of all legs are positive. -/
def AllPositive {ι : Type} (results : ι → List ℚ) : Prop := ∀ leg, ∀ v ∈ results leg, 0 < v

/-- A positive sample may be added. -/
theorem AllPositive.add {ι : Type} {results results' : ι → List ℚ} (h : AllPositive results)
    {v : ℚ} (hv : 0 < v) (hadd : ∀ leg, ∀ w ∈ results' leg, w ∈ results leg ∨ w = v) :
    AllPositive results' :=
  fun leg w hw => (hadd leg w hw).elim (h leg w) fun heq => heq ▸ hv

/-- The same of `results` by test name. -/
def Positive (results : Dict Text (List ℚ)) : Prop :=
  results.All fun values => ∀ v ∈ values, 0 < v

theorem AllPositive.tabulate {ι : Type} {results : ι → List ℚ} (h : AllPositive results)
    {legs : List ι} {key : ι → Text} {hkeys : (legs.map key).Nodup} :
    Positive (Dict.tabulate legs key hkeys results) :=
  Dict.all_tabulate fun leg _ => h leg

section Enough

variable {values : List ℚ} (h : values ≠ [])

include h

theorem measures_ok : measures N values = .ok (measuresOf N values) := by
  rw [measures, mean_ok N h, median_ok N h, minimum_ok h, maximum_ok h]
  have hstdev : stdevOrZero values = .ok (deviationOf values) := by
    unfold stdevOrZero
    split
    · exact stdev_ok ‹_›
    · rw [deviationOf, dif_neg ‹_›]
      rfl
  simp only [ok_bind, hstdev]
  rfl

theorem returns_medianAndStdev : Returns (medianAndStdev N values) (fun _ => True) := by
  refine returns_ite (fun hmore => ?_) fun _ => ?_
  · refine returns_bind (P := fun _ => True) ⟨_, median_ok N h, trivial⟩ fun median _ => ?_
    exact returns_bind (P := fun _ => True) ⟨_, stdev_ok hmore, trivial⟩
      fun stdev _ => returns_ok trivial
  · refine returns_bind (P := fun _ => True) ?_ fun median _ => returns_ok trivial
    exact ⟨_, item_ok (List.length_pos_iff.mpr h) 0, trivial⟩

theorem returns_measuresOrFirst :
    Returns (measuresOrFirst N values) (fun m => m.avg = N.nearest (Averages.mean values)) := by
  refine returns_bind ⟨_, mean_ok N h, rfl⟩ fun avg havg => ?_
  refine returns_bind (returns_medianAndStdev N h) fun spread _ => ?_
  refine returns_bind (P := fun _ => True) ⟨_, minimum_ok h, trivial⟩ fun minVal _ => ?_
  exact returns_bind (P := fun _ => True) ⟨_, maximum_ok h, trivial⟩
    fun maxVal _ => returns_ok havg.symm

end Enough

/-- The leg is there and has samples. -/
def Sampled (results : Dict Text (List ℚ)) (name : Text) : Prop :=
  ∃ values, results.get name = .ok values ∧ values ≠ []

/-- The average of a leg with samples is positive. -/
theorem Sampled.returns_mean {results : Dict Text (List ℚ)} {name : Text}
    (hname : Sampled results name) (h : Positive results) {α : Type}
    {f : ℚ → Except PyError α} {Q : α → Prop} (hf : ∀ avg, 0 < avg → Returns (f avg) Q) :
    Returns (results.get name >>= fun values => mean .exact values >>= f) Q := by
  obtain ⟨values, hget, hne⟩ := hname
  refine returns_bind (P := fun found => found = values) ⟨values, hget, rfl⟩ ?_
  rintro _ rfl
  exact returns_bind ⟨_, mean_ok .exact hne, mean_pos hne (h.of_get hget)⟩ hf

section Changes

variable {before : ℚ} (difference : ℚ)

theorem percentage_ok (h : before ≠ 0) :
    percentage N difference before = .ok (percentageOf N difference before) := by
  rw [percentage, divide_of_ne_zero h]
  rfl

theorem returns_percentage (h : 0 < before) :
    Returns (percentage N difference before) (fun _ => True) :=
  ⟨_, percentage_ok N difference h.ne', trivial⟩

theorem returns_change (h : 0 < before) (after : ℚ) :
    Returns (change N before after) (fun _ => True) := returns_percentage N _ h

theorem returns_decrease (h : 0 < before) (after : ℚ) :
    Returns (decrease N before after) (fun _ => True) := returns_percentage N _ h

end Changes

section Averages

variable {avgs : Dict Text ℚ} (h : avgs.All (0 < ·))

include h

theorem returns_comparedWith (first heading : Text) {compare : ℚ → ℚ → Except PyError ℚ}
    (hcompare : ∀ {before : ℚ}, 0 < before → ∀ after,
      Returns (compare before after) (fun _ => True)) (line : Text → ℚ → Text) :
    Returns (comparedWith first heading compare line avgs) (fun _ => True) := by
  refine returns_ite (fun hfirst => ?_) fun _ => returns_ok trivial
  refine returns_bind (h.returns_get hfirst) fun firstAvg hpos => ?_
  refine returns_bind (returns_mapM (Q := fun _ => True) fun e _ => ?_)
    fun lines _ => returns_ok trivial
  exact returns_bind (hcompare hpos e.2) fun impact _ => returns_ok trivial

theorem returns_changeBetween (first second : Text) :
    Returns (changeBetween N avgs first second) (fun _ => True) := by
  refine returns_ite (fun hboth => ?_) fun _ => returns_ok trivial
  refine returns_bind (h.returns_get hboth.1) fun firstAvg hpos => ?_
  refine returns_bind (h.returns_get hboth.2) fun secondAvg _ => ?_
  exact returns_bind (returns_change N hpos secondAvg) fun comparison _ => returns_ok trivial

end Averages

end Bench.Report

end BpftimeBenchmark
