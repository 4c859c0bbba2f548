import BpftimeBenchmark.Bench.Statistics
import BpftimeBenchmark.Lib.Labels
import Mathlib.Algebra.Order.BigOperators.Group.List

/-!
What `run_benchmark` of `ssl-nginx/draw_figture.py` makes of the output of a run of
`benchmark.py`: the samples of the JSON file, or else what a search in the printed
statistics finds. The file system is a parameter, and so is `sum`, which adds floats in
another way since Python 3.12.
-/

namespace BpftimeBenchmark.Bench.Figure

open SslNginx Pattern Report

/-- `\S`. -/
def notSpace (c : Char) : Bool := !Text.isSpace c

def digits : Pattern := [.one Text.isDecimal, .many Text.isDecimal]

/-- `Results saved to\s+(\S+benchmark_results_\d+_\d+\.json)`. -/
def savedPattern : Pattern :=
  literal "Results saved to".toList ++ spaces ++
    [.openGroup, .one notSpace, .many notSpace] ++ literal "benchmark_results_".toList ++
    digits ++ literal "_".toList ++ digits ++ literal ".json".toList ++ [.closeGroup]

def meanPattern : Pattern :=
  literalFold "Requests/sec (mean):".toList ++ (spaces ++ decimalGroup)

/-- The title of a leg, then anything, then a mean. -/
def legPattern (testType : Leg) : Pattern :=
  literalFold (title testType ++ ":".toList) ++ .manyLazy (fun _ => true) :: meanPattern

/-- The lists of the JSON file that the output names, which are empty if none is loaded. -/
def innerResults (load : Text → Option (Leg → List ℚ)) (output : Text) : Leg → List ℚ :=
  ((savedPattern.search output).bind load).getD fun _ => []

variable (N : Rounding) (sum : List ℚ → ℚ)

/-- `sum(values) / len(values)`. -/
def listMean (values : List ℚ) : ℚ := N.nearest (sum values / values.length)

/-- `float` of what the group has matched. -/
def readFloat (s : Text) : ℚ := N.nearest (Text.decimalValue s)

def runBenchmark (load : Text → Option (Leg → List ℚ)) (output : Text) (testType : Leg) :
    Option ℚ :=
  let values := innerResults load output testType
  if values = [] then ((legPattern testType).search output).map (readFloat N)
  else some (listMean N sum values)

/-- The mean that is shown first. -/
def shownMean (s : Text) : Option ℚ := (meanPattern.search s).map (readFloat N)

variable {N sum}

def titleStem (leg : Leg) : List (Char → Bool) := (title leg).map sameFold

/-- What comes after the title of the leg. -/
def afterTitle (leg : Leg) (s : Text) : Option Text := afterLabel (titleStem leg) s

def meanStem : List (Char → Bool) := "Requests/sec (mean)".toList.map sameFold

theorem literalFold_colon (s : Text) (tail : Pattern) :
    literalFold (s ++ ":".toList) ++ tail =
      labelPattern (s.map sameFold) (sameFold ':') tail := by
  simp [literalFold, labelPattern]

theorem meanPattern_eq :
    meanPattern = labelPattern meanStem (sameFold ':') (spaces ++ decimalGroup) := by
  have htext : "Requests/sec (mean):".toList = "Requests/sec (mean)".toList ++ ":".toList := by
    decide
  rw [meanPattern, htext, literalFold_colon]
  rfl

theorem legPattern_eq (leg : Leg) :
    legPattern leg =
      labelPattern (titleStem leg) (sameFold ':') (.manyLazy (fun _ => true) :: meanPattern) :=
  literalFold_colon _ _

/-- What the searches look for: the titles of the legs and the label of a mean. -/
def stems : List (List (Char → Bool)) :=
  [titleStem .baseline, titleStem .kernelSslsniff, titleStem .bpftimeSslsniff, meanStem]

theorem titleStem_mem (leg : Leg) : titleStem leg ∈ stems := by
  cases leg <;> simp [stems]

theorem meanStem_mem : meanStem ∈ stems := by simp [stems]

theorem stems_reject : ∀ stem ∈ stems, ∀ p ∈ stem, p ':' = false ∧ p '\n' = false := by
  decide +kernel

theorem search_legPattern (leg : Leg) (s : Text) :
    (legPattern leg).search s = (afterTitle leg s).bind meanPattern.search := by
  rw [legPattern_eq]
  exact search_afterLabel (stems_reject _ (titleStem_mem leg)) sameFold_colon s

/-- The number after a label of a mean. -/
def meanAt (label : Text × Text) : Option Text :=
  if endsWith meanStem label.1 then Text.readNumber label.2 else none

theorem shownMean_labels (s : Text) :
    shownMean N s = ((labels s).findSome? meanAt).map (readFloat N) := by
  rw [shownMean, meanPattern_eq, search_labels (stems_reject _ meanStem_mem) sameFold_colon]
  simp only [run_number]
  rfl

/-- No label of the text ends with the stem. -/
def Passes (stem : List (Char → Bool)) (s : Text) : Prop :=
  ∀ label ∈ (labels s).map Prod.fst, endsWith stem label = false

instance (stem : List (Char → Bool)) (s : Text) : Decidable (Passes stem s) :=
  inferInstanceAs (Decidable (∀ label ∈ (labels s).map Prod.fst, endsWith stem label = false))

/-- A text in which none of the searches finds its label. -/
def Plain (s : Text) : Prop := ∀ stem ∈ stems, Passes stem s

instance (s : Text) : Decidable (Plain s) :=
  inferInstanceAs (Decidable (∀ stem ∈ stems, Passes stem s))

theorem Passes.append {stem : List (Char → Bool)} {s t : Text} (hs : Passes stem s)
    (ht : Smooth t) : Passes stem (s ++ t) := by
  intro label hlabel
  rw [map_fst_labels_append ht] at hlabel
  exact hs label hlabel

theorem Plain.append {s t : Text} (hs : Plain s) (ht : Smooth t) : Plain (s ++ t) :=
  fun stem hstem => (hs stem hstem).append ht

theorem smooth_of_digits {s : Text} (h : ∀ c ∈ s, c.isDigit = true) : Smooth s := by
  intro c hc
  have hdigit := h c hc
  constructor
  · rintro rfl
    revert hdigit
    decide
  · rintro rfl
    revert hdigit
    decide

theorem smooth_ofNat (n : Nat) : Smooth (Text.ofNat n) :=
  smooth_of_digits fun _ hc => Text.isDigit_of_mem_ofNat hc

theorem smooth_twoDigits (n : Nat) : Smooth (Text.twoDigits n) :=
  smooth_of_digits fun _ hc => Text.isDigit_of_mem_twoDigits hc

theorem smooth_cons {c : Char} {s : Text} (hc : c ≠ ':' ∧ c ≠ '\n') (hs : Smooth s) :
    Smooth (c :: s) := by
  intro d hd
  rcases List.mem_cons.mp hd with rfl | hd
  · exact hc
  · exact hs d hd

theorem smooth_ofInt (n : Int) : Smooth (Text.ofInt n) := by
  unfold Text.ofInt
  split
  · exact smooth_cons (by decide) (smooth_ofNat _)
  · exact smooth_ofNat _

theorem smooth_ofHundredths (n : Nat) : Smooth (Text.ofHundredths n) :=
  smooth_append (smooth_ofNat _) (smooth_cons (by decide) (smooth_twoDigits _))

theorem smooth_signed (q : ℚ) {s : Text} (hs : Smooth s) : Smooth (Text.signed q s) := by
  unfold Text.signed
  split
  · exact smooth_cons (by decide) hs
  · exact hs

theorem smooth_fixedTwo (q : ℚ) : Smooth (Text.fixedTwo q) :=
  smooth_signed q (smooth_ofHundredths _)

theorem smooth_reprRounded (q : ℚ) : Smooth (Text.reprRounded q) := by
  refine smooth_signed q (smooth_append (smooth_ofNat _) (smooth_cons (by decide) ?_))
  split
  · intro c hc
    refine smooth_twoDigits (Text.hundredths q) c ?_
    rw [List.mem_singleton.mp hc]
    exact List.mem_cons_self ..
  · exact smooth_twoDigits _

theorem smooth_join {part : Text} (hpart : Smooth part) {items : List Text}
    (hitems : ∀ s ∈ items, Smooth s) : Smooth (Text.join part items) := by
  induction items with
  | nil => exact fun c hc => nomatch hc
  | cons s rest ih =>
      have hrest := ih fun t ht => hitems t (List.mem_cons_of_mem s ht)
      have hs := hitems s (List.mem_cons_self ..)
      cases rest with
      | nil => exact hs
      | cons t rest => exact smooth_append (smooth_append hs hpart) hrest

theorem smooth_breakdown {stats : Stats} {s : Text} (hs : s ∈ breakdown stats) : Smooth s := by
  obtain ⟨r, hr, rfl⟩ := List.mem_map.mp hs
  have hname : ∀ r ∈ failureReasons, Smooth r.2 := by decide
  have hmem := hname r (List.mem_of_mem_filter hr)
  exact smooth_append (smooth_append hmem (by decide)) (smooth_ofNat _)

/-- What the lines of a section start with, the title and the mean apart. -/
theorem plain_sectionTexts :
    (Plain "  Valid runs:            ".toList ∧ Plain "  Failed attempts:       ".toList ∧
      Plain "  Failure breakdown:     ".toList ∧ Plain "  Retry attempts:        ".toList) ∧
    Plain "  Requests/sec (median): ".toList ∧ Plain "  Standard deviation:    ".toList ∧
      Plain "  Min:                   ".toList ∧ Plain "  Max:                   ".toList ∧
      Plain "  All runs:              ".toList := by
  decide +kernel

/-- What the other lines start with. -/
theorem plain_summaryTexts :
    (Plain "\nKernel sslsniff performance impact: ".toList ∧
      Plain "bpftime sslsniff performance impact: ".toList ∧
      Plain "bpftime improvement over kernel: ".toList) ∧
    Plain "\nTrace observability:".toList ∧
    ∀ leg, leg ≠ .baseline →
      Plain ("  ".toList ++ testName leg ++ ": no trace preflight".toList) ∧
        Plain ("  ".toList ++ testName leg ++ ":".toList) := by
  refine ⟨by decide +kernel, by decide +kernel, fun leg hleg => ?_⟩
  cases leg with
  | baseline => exact absurd rfl hleg
  | kernelSslsniff => decide +kernel
  | bpftimeSslsniff => decide +kernel

/-- A title has its own leg's title only, and no mean. -/
theorem titleLine_labels :
    (∀ leg leg', afterTitle leg (titleLine leg') = if leg = leg' then some [] else none) ∧
      ∀ leg, Passes meanStem (titleLine leg) := by
  constructor
  · intro leg leg'
    cases leg <;> cases leg' <;> decide +kernel
  · intro leg
    cases leg <;> decide +kernel

/-- The label of a mean is not a title. -/
theorem meanLabel_eq :
    "  Requests/sec (mean):".toList = "  Requests/sec (mean)".toList ++ [':'] ∧
      endsWith meanStem "  Requests/sec (mean)".toList = true ∧
      ∀ leg, Passes (titleStem leg) "  Requests/sec (mean):".toList := by
  refine ⟨by decide +kernel, by decide +kernel, fun leg => ?_⟩
  cases leg <;> decide +kernel

theorem plain_of_smooth {s : Text} (h : Smooth s) : Plain s := by
  intro stem _ label hlabel
  rw [labels, labelsFrom_smooth h] at hlabel
  cases hlabel

theorem plain_countLines {stats : Stats} {line : Text} (h : line ∈ countLines stats) :
    Plain line := by
  obtain ⟨hvalid, hfailed, hbreakdown, hretry⟩ := plain_sectionTexts.1
  simp only [countLines, List.mem_append, List.mem_cons, List.not_mem_nil, or_false] at h
  rcases h with ((rfl | rfl) | h) | h
  · refine hvalid.append ?_
    exact smooth_append (smooth_append (smooth_ofNat _) (by decide)) (smooth_ofInt _)
  · exact hfailed.append (smooth_ofNat _)
  · split at h
    · cases h
    · obtain rfl := List.mem_singleton.mp h
      exact hbreakdown.append (smooth_join (by decide) fun s hs => smooth_breakdown hs)
  · split at h
    · cases h
    · obtain rfl := List.mem_singleton.mp h
      exact hretry.append (smooth_ofNat _)

theorem plain_otherLines {m : Measures} {values : List ℚ} {line : Text}
    (h : line ∈ otherLines N m values) : Plain line := by
  obtain ⟨hmedian, hdeviation, hmin, hmax, hall⟩ := plain_sectionTexts.2
  simp only [otherLines, List.mem_cons, List.not_mem_nil, or_false] at h
  rcases h with rfl | rfl | rfl | rfl | rfl
  · exact hmedian.append (smooth_fixedTwo _)
  · exact hdeviation.append (smooth_fixedTwo _)
  · exact hmin.append (smooth_fixedTwo _)
  · exact hmax.append (smooth_fixedTwo _)
  · refine hall.append (smooth_append (by decide) (smooth_append ?_ (by decide)))
    refine smooth_join (by decide) fun s hs => ?_
    obtain ⟨v, _, rfl⟩ := List.mem_map.mp hs
    exact smooth_reprRounded v

theorem plain_comparisonLine {s : State} {first second : Leg} {difference : ℚ → ℚ → ℚ}
    {show' : ℚ → Text} (hplain : ∀ v, Plain (show' v)) {line : Text}
    (h : line ∈ comparisonLine N s first second difference show') : Plain line := by
  unfold comparisonLine at h
  split at h
  · obtain rfl := List.mem_singleton.mp h
    exact hplain _
  · cases h

theorem plain_comparisonLines {s : State} {line : Text} (h : line ∈ comparisonLines N s) :
    Plain line := by
  obtain ⟨hkernel, hbpftime, himprovement⟩ := plain_summaryTexts.1
  simp only [comparisonLines, List.mem_append] at h
  rcases h with (h | h) | h
  · refine plain_comparisonLine (fun v => hkernel.append ?_) h
    exact smooth_append (smooth_fixedTwo v) (by decide)
  · refine plain_comparisonLine (fun v => hbpftime.append ?_) h
    exact smooth_append (smooth_fixedTwo v) (by decide)
  · refine plain_comparisonLine (fun v => himprovement.append ?_) h
    exact smooth_append (smooth_fixedTwo v) (by decide)

theorem plain_traceLine (s : State) {leg : Leg} (hleg : leg ≠ .baseline) :
    Plain (traceLine s leg) := by
  obtain ⟨hnone, hname⟩ := plain_summaryTexts.2.2 leg hleg
  unfold traceLine
  dsimp only
  split
  · exact hnone
  · refine hname.append ?_
    refine smooth_append (smooth_append ?_ (by decide)) (smooth_ofNat _)
    exact smooth_append (smooth_append (smooth_append (by decide) (smooth_ofNat _)) (by decide))
      (smooth_ofNat _)

theorem labels_println (line t : Text) :
    labels (println line ++ t) =
      (labels line).map (fun l => (l.1, l.2 ++ '\n' :: t)) ++ labels t := by
  rw [println, List.append_assoc]
  exact labels_append_newline line t

theorem afterTitle_println (leg : Leg) (line t : Text) :
    afterTitle leg (println line ++ t) =
      ((afterTitle leg line).map (· ++ '\n' :: t)).or (afterTitle leg t) := by
  rw [println, List.append_assoc]
  exact afterLabel_append_newline (titleStem leg) line t

theorem Passes.afterTitle {leg : Leg} {line : Text} (h : Passes (titleStem leg) line) :
    afterTitle leg line = none := by
  have hnone : (labels line).find? (fun l => endsWith (titleStem leg) l.1) = none := by
    refine List.find?_eq_none.mpr fun l hl => ?_
    rw [h l.1 (List.mem_map_of_mem hl)]
    decide
  rw [Figure.afterTitle, afterLabel, hnone]
  rfl

/-- Lines without a mean are passed over. -/
theorem Passes.shownMean {line : Text} (h : Passes meanStem line) (t : Text) :
    shownMean N (println line ++ t) = shownMean N t := by
  rw [shownMean_labels, shownMean_labels, labels_println, List.findSome?_append]
  have hnone : ((labels line).map fun l => (l.1, l.2 ++ '\n' :: t)).findSome? meanAt = none := by
    refine List.findSome?_eq_none_iff.mpr fun l hl => ?_
    obtain ⟨l', hl', rfl⟩ := List.mem_map.mp hl
    rw [meanAt, h l'.1 (List.mem_map_of_mem hl')]
    rfl
  rw [hnone, Option.none_or]

theorem printed_cons (line : Text) (lines : List Text) (t : Text) :
    printed (line :: lines) ++ t = println line ++ (printed lines ++ t) := by
  rw [printed, List.flatMap_cons, List.append_assoc, ← printed]

theorem printed_append (lines lines' : List Text) (t : Text) :
    printed (lines ++ lines') ++ t = printed lines ++ (printed lines' ++ t) := by
  rw [printed, List.flatMap_append, List.append_assoc, ← printed, ← printed]

theorem shownMean_printed {lines : List Text} (h : ∀ line ∈ lines, Passes meanStem line)
    (t : Text) : shownMean N (printed lines ++ t) = shownMean N t := by
  induction lines with
  | nil => rfl
  | cons line lines ih =>
      rw [printed_cons, (h line (List.mem_cons_self ..)).shownMean]
      exact ih fun l hl => h l (List.mem_cons_of_mem line hl)

theorem afterTitle_printed {leg : Leg} {lines : List Text}
    (h : ∀ line ∈ lines, Passes (titleStem leg) line) (t : Text) :
    afterTitle leg (printed lines ++ t) = afterTitle leg t := by
  induction lines with
  | nil => rfl
  | cons line lines ih =>
      rw [printed_cons, afterTitle_println, (h line (List.mem_cons_self ..)).afterTitle]
      exact ih fun l hl => h l (List.mem_cons_of_mem line hl)

/-- The mean as the statistics show it. -/
def roundedMean (N : Rounding) (values : List ℚ) : ℚ :=
  N.nearest (Text.hundredths (N.nearest (Averages.mean values)) / 100)

/-- What the statistics show as the mean of a leg. -/
def shown (N : Rounding) (s : State) (leg : Leg) : Option ℚ :=
  if s.results leg = [] then none else some (roundedMean N (s.results leg))

/-- The lines of a section after its title. -/
def bodyLines (N : Rounding) (s : State) (leg : Leg) : List Text :=
  countLines (s.runStats leg) ++ valueLines N (s.results leg)

theorem mean_nonneg {values : List ℚ} (h : ∀ v ∈ values, 0 ≤ v) :
    0 ≤ N.nearest (Averages.mean values) :=
  N.nearest_nonneg (div_nonneg (List.sum_nonneg h) (Nat.cast_nonneg _))

theorem fixedTwo_of_nonneg {q : ℚ} (h : 0 ≤ q) :
    Text.fixedTwo q = Text.ofHundredths (Text.hundredths q) := by
  rw [Text.fixedTwo, Text.signed, if_neg (not_lt.mpr h)]

/-- A line that is a label and what comes after it. -/
theorem labels_line {label rest : Text} (hlabel : Smooth label) (hrest : Smooth rest) :
    labels (label ++ ':' :: rest) = [(label, rest)] := by
  rw [labels, labelsFrom_label hlabel, labels, labelsFrom_smooth hrest, List.nil_append]

theorem shownMean_line {label rest number t : Text} (hlabel : Smooth label) (hrest : Smooth rest)
    (hends : endsWith meanStem label = true)
    (hread : Text.readNumber (rest ++ '\n' :: t) = some number) :
    shownMean N (println (label ++ ':' :: rest) ++ t) = some (readFloat N number) := by
  rw [shownMean_labels, labels_println, labels_line hlabel hrest, List.map_singleton,
    List.singleton_append, List.findSome?_cons, meanAt, if_pos hends, hread, Option.map_some]

theorem meanLine_eq (avg : ℚ) :
    meanLine avg =
      "  Requests/sec (mean)".toList ++ ':' :: ("   ".toList ++ Text.fixedTwo avg) := by
  unfold meanLine
  rw [meanLabel_eq.1, List.append_assoc, List.singleton_append]

theorem shownMean_meanLine {values : List ℚ} (h : ∀ v ∈ values, 0 ≤ v) (t : Text) :
    shownMean N (println (meanLine (measuresOf N values).avg) ++ t) =
      some (roundedMean N values) := by
  have hlabel : Smooth "  Requests/sec (mean)".toList := by decide
  have hblanks : Smooth "   ".toList := by decide
  have hnonneg : 0 ≤ (measuresOf N values).avg := mean_nonneg h
  have hread := Text.readNumber_ofHundredths (Text.hundredths (measuresOf N values).avg) t
  rw [← fixedTwo_of_nonneg hnonneg] at hread
  rw [meanLine_eq, shownMean_line hlabel (smooth_append hblanks (smooth_fixedTwo _))
    meanLabel_eq.2.1 hread, fixedTwo_of_nonneg hnonneg, readFloat,
    Text.decimalValue_ofHundredths]
  rfl

theorem shownMean_bodyLines {s : State} {leg : Leg} (h : ∀ v ∈ s.results leg, 0 ≤ v)
    (t : Text) :
    shownMean N (printed (bodyLines N s leg) ++ t) =
      (shown N s leg).or (shownMean N t) := by
  rw [bodyLines, printed_append,
    shownMean_printed fun line hline => plain_countLines hline _ meanStem_mem, valueLines, shown]
  split
  · rw [Option.none_or]
    refine shownMean_printed (fun line hline => ?_) t
    obtain rfl := List.mem_singleton.mp hline
    exact plain_of_smooth (by decide) _ meanStem_mem
  · rw [requestLines, printed_cons, shownMean_meanLine h, Option.some_or]

theorem passes_bodyLines {s : State} {leg title : Leg} {line : Text}
    (h : line ∈ bodyLines N s leg) : Passes (titleStem title) line := by
  rcases List.mem_append.mp h with h | h
  · exact plain_countLines h _ (titleStem_mem title)
  · unfold valueLines at h
    split at h
    · obtain rfl := List.mem_singleton.mp h
      exact plain_of_smooth (by decide) _ (titleStem_mem title)
    · rcases List.mem_cons.mp h with rfl | h
      · exact (meanLabel_eq.2.2 title).append (smooth_append (by decide) (smooth_fixedTwo _))
      · exact plain_otherLines h _ (titleStem_mem title)

theorem shownMean_sections {s : State} (h : ∀ leg, ∀ v ∈ s.results leg, 0 ≤ v)
    (legs : List Leg) (t : Text) :
    shownMean N (printed (legs.flatMap (sectionLines N s)) ++ t) =
      (legs.findSome? (shown N s)).or (shownMean N t) := by
  induction legs with
  | nil => rfl
  | cons leg legs ih =>
      have htitle := titleLine_labels.2 leg
      rw [List.flatMap_cons, printed_append, sectionLines, printed_cons, htitle.shownMean,
        ← bodyLines, shownMean_bodyLines (h leg), ih, List.findSome?_cons]
      cases shown N s leg <;> rfl

theorem afterTitle_sections {s : State} {leg : Leg} {earlier : List Leg} (hleg : leg ∉ earlier)
    (later : List Leg) (t : Text) :
    afterTitle leg (printed ((earlier ++ leg :: later).flatMap (sectionLines N s)) ++ t) =
      some ('\n' :: (printed (bodyLines N s leg) ++
        (printed (later.flatMap (sectionLines N s)) ++ t))) := by
  induction earlier with
  | nil =>
      rw [List.nil_append, List.flatMap_cons, printed_append, sectionLines, printed_cons,
        afterTitle_println, titleLine_labels.1, if_pos rfl]
      rfl
  | cons first earlier ih =>
      have hfirst : leg ≠ first := fun heq => hleg (heq ▸ List.mem_cons_self ..)
      rw [List.cons_append, List.flatMap_cons, printed_append, sectionLines, printed_cons,
        afterTitle_println, titleLine_labels.1, if_neg hfirst, ← bodyLines,
        afterTitle_printed fun line hline => passes_bodyLines hline]
      exact ih fun hmem => hleg (List.mem_cons_of_mem first hmem)

theorem shownMean_newline (t : Text) : shownMean N ('\n' :: t) = shownMean N t := by
  rw [shownMean_labels, shownMean_labels]
  rfl

/-- A number never goes on after a line break that no blank follows. -/
theorem shownMean_append_newline {c : Char} (hspace : Text.isSpace c = false)
    (hdigit : Text.isDecimal c = false) (rest t : Text) :
    shownMean N (rest ++ '\n' :: c :: t) = (shownMean N rest).or (shownMean N (c :: t)) := by
  rw [shownMean_labels, shownMean_labels, shownMean_labels, labels_append_newline,
    List.findSome?_append, List.findSome?_map, Option.map_or]
  have hsame : (meanAt ∘ fun l => (l.1, l.2 ++ '\n' :: c :: t)) = meanAt := by
    funext l
    rw [Function.comp_apply, meanAt, meanAt, Text.readNumber_append_newline hspace hdigit]
  rw [hsame]

def headLines (numRuns : Int) : List Text :=
  ["=== Benchmark Results ===".toList,
    "Each configuration run ".toList ++ (Text.ofInt numRuns ++ " times".toList)]

def lastLines (N : Rounding) (s : State) : List Text :=
  comparisonLines N s ++
    ["\nTrace observability:".toList, traceLine s .kernelSslsniff, traceLine s .bpftimeSslsniff]

/-- The statistics start with a line break and a line that starts with `=`. -/
theorem printStatistics_eq (numRuns : Int) (s : State) (t : Text) :
    printStatistics N numRuns s ++ t =
      '\n' :: (printed (headLines numRuns) ++
        (printed (legOrder.flatMap (sectionLines N s)) ++ (printed (lastLines N s) ++ t))) := by
  rw [← printed_append, ← printed_append]
  have htitle : "\n=== Benchmark Results ===".toList =
      '\n' :: "=== Benchmark Results ===".toList := by decide
  unfold printStatistics statisticsLines headLines lastLines
  rw [htitle]
  simp [printed, println]

theorem plain_headLines {numRuns : Int} {line : Text} (h : line ∈ headLines numRuns) :
    Plain line := by
  simp only [headLines, List.mem_cons, List.not_mem_nil, or_false] at h
  rcases h with rfl | rfl
  · exact plain_of_smooth (by decide)
  · exact plain_of_smooth (smooth_append (by decide) (smooth_append (smooth_ofInt _) (by decide)))

theorem plain_lastLines {s : State} {line : Text} (h : line ∈ lastLines N s) : Plain line := by
  simp only [lastLines, List.mem_append, List.mem_cons, List.not_mem_nil, or_false] at h
  rcases h with h | rfl | rfl | rfl
  · exact plain_comparisonLines h
  · exact plain_summaryTexts.2.1
  · exact plain_traceLine s (by decide)
  · exact plain_traceLine s (by decide)

/-- The legs whose sections come after that of a leg. -/
def laterLegs : Leg → List Leg
  | .baseline => [.kernelSslsniff, .bpftimeSslsniff]
  | .kernelSslsniff => [.bpftimeSslsniff]
  | .bpftimeSslsniff => []

theorem legOrder_split (leg : Leg) :
    ∃ earlier, legOrder = earlier ++ leg :: laterLegs leg ∧ leg ∉ earlier := by
  cases leg with
  | baseline => exact ⟨[], rfl, by decide⟩
  | kernelSslsniff => exact ⟨[.baseline], rfl, by decide⟩
  | bpftimeSslsniff => exact ⟨[.baseline, .kernelSslsniff], rfl, by decide⟩

theorem afterTitle_newline (leg : Leg) (t : Text) : afterTitle leg ('\n' :: t) = afterTitle leg t :=
  rfl

theorem afterTitle_printStatistics (leg : Leg) (numRuns : Int) (s : State) (after : Text) :
    afterTitle leg (printStatistics N numRuns s ++ after) =
      some ('\n' :: (printed (bodyLines N s leg) ++
        (printed ((laterLegs leg).flatMap (sectionLines N s)) ++
          (printed (lastLines N s) ++ after)))) := by
  obtain ⟨earlier, horder, hleg⟩ := legOrder_split leg
  rw [printStatistics_eq, afterTitle_newline,
    afterTitle_printed fun line hline => plain_headLines hline _ (titleStem_mem leg), horder,
    afterTitle_sections hleg]

/-- A title in the text before the statistics is what is found first. -/
theorem afterTitle_output (leg : Leg) (numRuns : Int) (s : State) (before after : Text) :
    afterTitle leg (before ++ (printStatistics N numRuns s ++ after)) =
      ((afterTitle leg before).map (· ++ (printStatistics N numRuns s ++ after))).or
        (afterTitle leg (printStatistics N numRuns s ++ after)) := by
  rw [printStatistics_eq, afterTitle_newline]
  exact afterLabel_append_newline (titleStem leg) before _

section Output

variable {s : State} (hpos : ∀ leg, ∀ v ∈ s.results leg, 0 ≤ v)

include hpos

theorem shownMean_last (legs : List Leg) (after : Text) :
    shownMean N (printed (legs.flatMap (sectionLines N s)) ++ (printed (lastLines N s) ++ after)) =
      (legs.findSome? (shown N s)).or (shownMean N after) := by
  rw [shownMean_sections hpos,
    shownMean_printed fun line hline => plain_lastLines hline _ meanStem_mem]

theorem shownMean_output (numRuns : Int) (rest after : Text) :
    shownMean N (rest ++ (printStatistics N numRuns s ++ after)) =
      (shownMean N rest).or ((legOrder.findSome? (shown N s)).or (shownMean N after)) := by
  have hhead : ∀ t, shownMean N (printed (headLines numRuns) ++ t) = shownMean N t :=
    shownMean_printed fun line hline => plain_headLines hline _ meanStem_mem
  have hfirst : ∃ t, printed (headLines numRuns) = '=' :: t := ⟨_, rfl⟩
  obtain ⟨t, ht⟩ := hfirst
  rw [printStatistics_eq, ht, List.cons_append,
    shownMean_append_newline (by decide) (by decide), ← List.cons_append, ← ht, hhead,
    shownMean_last hpos]

/-- What the search for a leg finds in the output. -/
theorem search_output (leg : Leg) (numRuns : Int) (before after : Text) :
    ((legPattern leg).search (before ++ (printStatistics N numRuns s ++ after))).map
        (readFloat N) =
      match afterTitle leg before with
      | none => ((leg :: laterLegs leg).findSome? (shown N s)).or (shownMean N after)
      | some rest =>
          (shownMean N rest).or ((legOrder.findSome? (shown N s)).or (shownMean N after)) := by
  rw [search_legPattern, afterTitle_output, afterTitle_printStatistics]
  cases afterTitle leg before with
  | none =>
      rw [Option.map_none, Option.none_or, Option.bind_some, ← shownMean, shownMean_newline,
        shownMean_bodyLines (hpos leg), shownMean_last hpos, List.findSome?_cons]
      cases shown N s leg <;> rfl
  | some rest =>
      rw [Option.map_some, Option.some_or, Option.bind_some, ← shownMean, shownMean_output hpos]

end Output

/-- A mean of the values: the sum over the number, the mean of the `statistics` module, or
this one with the decimals that are printed. -/
def MeanOf (N : Rounding) (sum : List ℚ → ℚ) (values : List ℚ) (v : ℚ) : Prop :=
  v = listMean N sum values ∨ v = N.nearest (Averages.mean values) ∨ v = roundedMean N values

/-- The result for a leg with these samples: a mean of them, or nothing if there are none. -/
def Faithful (N : Rounding) (sum : List ℚ → ℚ) (values : List ℚ) (result : Option ℚ) : Prop :=
  (values = [] → result = none) ∧
    (values ≠ [] → ∃ v, result = some v ∧ MeanOf N sum values v)

/-- What is shown first after a title in the text before the statistics. -/
def firstMean (N : Rounding) (s : State) (rest : Text) : Option ℚ :=
  (shownMean N rest).or
    ((legOrder.find? fun leg => s.results leg ≠ []).map fun leg =>
      roundedMean N (s.results leg))

/-- The printed output says of the leg what its samples do. Where the title is not shown
before the statistics, a leg without samples must be followed by such legs only. -/
def Readable (N : Rounding) (sum : List ℚ → ℚ) (s : State) (before after : Text) (leg : Leg) :
    Prop :=
  match afterTitle leg before with
  | none =>
      s.results leg = [] →
        (∀ later ∈ laterLegs leg, s.results later = []) ∧ shownMean N after = none
  | some rest =>
      if s.results leg = [] then
        shownMean N rest = none ∧ (∀ any, s.results any = []) ∧ shownMean N after = none
      else ∀ v, firstMean N s rest = some v → MeanOf N sum (s.results leg) v

/-- A list that is loaded for the leg has a mean of its samples, or else the output is
readable. -/
def Told (N : Rounding) (sum : List ℚ → ℚ) (s : State) (loaded : List ℚ) (before after : Text)
    (leg : Leg) : Prop :=
  if loaded = [] then Readable N sum s before after leg
  else s.results leg ≠ [] ∧ MeanOf N sum (s.results leg) (listMean N sum loaded)

/-- The list of the run's own file tells of a leg with samples. -/
theorem told_own {s : State} {leg : Leg} (h : s.results leg ≠ []) (before after : Text) :
    Told N sum s (s.results leg) before after leg := by
  rw [Told, if_neg h]
  exact ⟨h, .inl rfl⟩

theorem findSome?_shown (s : State) (legs : List Leg) :
    legs.findSome? (shown N s) =
      (legs.find? fun leg => s.results leg ≠ []).map fun leg =>
        roundedMean N (s.results leg) := by
  induction legs with
  | nil => rfl
  | cons leg legs ih =>
      rw [List.findSome?_cons, List.find?_cons, shown]
      by_cases hempty : s.results leg = []
      · simpa [hempty] using ih
      · simp [hempty]

theorem findSome?_shown_eq_none {s : State} {legs : List Leg} :
    legs.findSome? (shown N s) = none ↔ ∀ leg ∈ legs, s.results leg = [] := by
  rw [List.findSome?_eq_none_iff]
  refine forall₂_congr fun leg _ => ?_
  unfold shown
  split
  · exact iff_of_true rfl ‹_›
  · exact iff_of_false (by simp) ‹_›

theorem mem_legOrder (leg : Leg) : leg ∈ legOrder := by cases leg <;> decide

theorem faithful_of_empty {values : List ℚ} (h : values = []) (result : Option ℚ) :
    Faithful N sum values result ↔ result = none :=
  ⟨fun hfaithful => hfaithful.1 h, fun hnone => ⟨fun _ => hnone, fun hne => absurd h hne⟩⟩

theorem faithful_of_sampled {values : List ℚ} (h : values ≠ []) (result : Option ℚ) :
    Faithful N sum values result ↔ ∃ v, result = some v ∧ MeanOf N sum values v :=
  ⟨fun hfaithful => hfaithful.2 h, fun hmean => ⟨fun hempty => absurd hempty h, fun _ => hmean⟩⟩

/-- The printed output is read faithfully exactly where it is readable. -/
theorem faithful_search_iff {s : State} (hpos : ∀ leg, ∀ v ∈ s.results leg, 0 ≤ v) (leg : Leg)
    (numRuns : Int) (before after : Text) :
    Faithful N sum (s.results leg)
        (((legPattern leg).search (before ++ (printStatistics N numRuns s ++ after))).map
          (readFloat N)) ↔
      Readable N sum s before after leg := by
  rw [search_output hpos, Readable]
  cases afterTitle leg before with
  | none =>
      dsimp only
      rw [List.findSome?_cons]
      by_cases hempty : s.results leg = []
      · rw [faithful_of_empty hempty, shown, if_pos hempty, Option.or_eq_none_iff,
          findSome?_shown_eq_none]
        exact ⟨fun h _ => h, fun h => h hempty⟩
      · rw [faithful_of_sampled hempty, shown, if_neg hempty]
        refine iff_of_true ⟨_, rfl, .inr (.inr rfl)⟩ fun h => absurd h hempty
  | some rest =>
      dsimp only
      by_cases hempty : s.results leg = []
      · rw [faithful_of_empty hempty, if_pos hempty, Option.or_eq_none_iff,
          Option.or_eq_none_iff, findSome?_shown_eq_none]
        have hall : (∀ any ∈ legOrder, s.results any = []) ↔ ∀ any, s.results any = [] :=
          ⟨fun h any => h any (mem_legOrder any), fun h any _ => h any⟩
        rw [hall]
      · -- some leg is sampled, so what comes after the statistics is not reached
        obtain ⟨v, hv⟩ : ∃ v, firstMean N s rest = some v := by
          refine Option.ne_none_iff_exists'.mp fun hnone => ?_
          rw [firstMean, ← findSome?_shown, Option.or_eq_none_iff, findSome?_shown_eq_none] at hnone
          exact hempty (hnone.2 leg (mem_legOrder leg))
        rw [faithful_of_sampled hempty, if_neg hempty, ← Option.or_assoc, findSome?_shown,
          ← firstMean, hv, Option.some_or]
        constructor
        · rintro ⟨w, hw, hmean⟩ u hu
          rw [Option.some.inj hu.symm, Option.some.inj hw]
          exact hmean
        · exact fun h => ⟨v, rfl, h v rfl⟩

/-- The figure is faithful exactly where of every leg a list that is loaded tells what its
samples do, or else the output. -/
theorem figure_faithful (N : Rounding) (sum : List ℚ → ℚ) (load : Text → Option (Leg → List ℚ))
    (numRuns : Int) (s : State) (before after : Text)
    (hpos : ∀ leg, ∀ v ∈ s.results leg, 0 ≤ v) :
    (∀ leg, Faithful N sum (s.results leg)
        (runBenchmark N sum load (before ++ (printStatistics N numRuns s ++ after)) leg)) ↔
      ∀ leg, Told N sum s
        (innerResults load (before ++ (printStatistics N numRuns s ++ after)) leg)
        before after leg := by
  refine forall_congr' fun leg => ?_
  rw [runBenchmark, Told]
  by_cases hloaded :
      innerResults load (before ++ (printStatistics N numRuns s ++ after)) leg = []
  · rw [if_pos hloaded, ← faithful_search_iff hpos leg numRuns before after, if_pos hloaded]
  · rw [if_neg hloaded, if_neg hloaded]
    by_cases hempty : s.results leg = []
    · rw [faithful_of_empty hempty]
      exact iff_of_false (by simp) fun h => h.1 hempty
    · rw [faithful_of_sampled hempty, and_iff_right hempty]
      constructor
      · rintro ⟨v, hv, hmean⟩
        rwa [Option.some.inj hv]
      · exact fun hmean => ⟨_, rfl, hmean⟩

def debugLine : Text := "[DEBUG] Starting benchmark script\n".toList

def savedName : Text := "benchmark/ssl-nginx/benchmark_results_20250101_120000.json".toList

def savedLine : Text := "\nResults saved to ".toList ++ savedName ++ "\n".toList

/-- The file that the run has written. -/
def savedFile (s : State) (path : Text) : Option (Leg → List ℚ) :=
  if path = savedName then some s.results else none

/-- One run of each leg of the order, with these throughputs. -/
def onceEach (samples : List (Leg × ℚ)) : State :=
  samples.foldl (fun s sample =>
      (s.addResult sample.1 sample.2).setStats sample.1 fun st =>
        { st with validRuns := st.validRuns + 1 })
    (initial ⟨1, 0, []⟩)

def allSampled : State :=
  onceEach [(.baseline, 61 / 2), (.kernelSslsniff, 41 / 2), (.bpftimeSslsniff, 51 / 2)]

/-- Every leg has a sample. Its mean is shown whether the file of the run is loaded or only
the output is there. -/
theorem figure_faithful_allSampled :
    (∀ leg, innerResults (savedFile allSampled)
        (debugLine ++ (printStatistics .binary64 1 allSampled ++ savedLine)) leg =
          allSampled.results leg ∧ allSampled.results leg ≠ []) ∧
      (∀ leg, Faithful .binary64 List.sum (allSampled.results leg)
        (runBenchmark .binary64 List.sum (savedFile allSampled)
          (debugLine ++ (printStatistics .binary64 1 allSampled ++ savedLine)) leg)) ∧
      ∀ leg, Faithful .binary64 List.sum (allSampled.results leg)
        (runBenchmark .binary64 List.sum (fun _ => none)
          (debugLine ++ (printStatistics .binary64 1 allSampled ++ savedLine)) leg) := by
  have hsampled : ∀ leg, allSampled.results leg ≠ [] := by
    intro leg
    cases leg <;> decide +kernel
  have hpos : ∀ leg, ∀ v ∈ allSampled.results leg, 0 ≤ v := by
    intro leg
    cases leg <;> decide +kernel
  have hfound : savedPattern.search
      (debugLine ++ (printStatistics .binary64 1 allSampled ++ savedLine)) = some savedName := by
    decide +kernel
  have hloaded : ∀ leg, innerResults (savedFile allSampled)
      (debugLine ++ (printStatistics .binary64 1 allSampled ++ savedLine)) leg =
        allSampled.results leg := by
    intro leg
    rw [innerResults, hfound]
    rfl
  refine ⟨fun leg => ⟨hloaded leg, hsampled leg⟩,
    (figure_faithful .binary64 List.sum (savedFile allSampled) 1 allSampled debugLine savedLine
      hpos).mpr fun leg => ?_,
    (figure_faithful .binary64 List.sum (fun _ => none) 1 allSampled debugLine savedLine
      hpos).mpr fun leg => ?_⟩
  · rw [hloaded leg]
    exact told_own (hsampled leg) debugLine savedLine
  · have htitle : afterTitle leg debugLine = none := by cases leg <;> decide +kernel
    have hnone : innerResults (fun _ => none)
        (debugLine ++ (printStatistics .binary64 1 allSampled ++ savedLine)) leg = [] := by
      simp [innerResults]
    rw [Told, if_pos hnone, Readable, htitle]
    exact fun hempty => absurd hempty (hsampled leg)

/-- The order `kernel` alone. -/
def kernelOnly : State := onceEach [(.kernelSslsniff, 41 / 2)]

/-- The baseline has no samples, and the figure shows the mean of the kernel leg for it,
whether the file is loaded or not. -/
theorem baseline_shows_kernel :
    (kernelOnly.results .baseline = [] ∧
        runBenchmark .binary64 List.sum (fun _ => none) (printStatistics .binary64 1 kernelOnly)
          .baseline = some (41 / 2) ∧
      innerResults (savedFile kernelOnly) (printStatistics .binary64 1 kernelOnly ++ savedLine)
          .kernelSslsniff = [41 / 2] ∧
        runBenchmark .binary64 List.sum (savedFile kernelOnly)
          (printStatistics .binary64 1 kernelOnly ++ savedLine) .baseline = some (41 / 2)) ∧
      ¬Faithful .binary64 List.sum (kernelOnly.results .baseline)
        (runBenchmark .binary64 List.sum (fun _ => none) (printStatistics .binary64 1 kernelOnly)
          .baseline) ∧
      ¬Faithful .binary64 List.sum (kernelOnly.results .baseline)
        (runBenchmark .binary64 List.sum (savedFile kernelOnly)
          (printStatistics .binary64 1 kernelOnly ++ savedLine) .baseline) := by
  have hshown :
      kernelOnly.results .baseline = [] ∧
        runBenchmark .binary64 List.sum (fun _ => none) (printStatistics .binary64 1 kernelOnly)
          .baseline = some (41 / 2) ∧
      innerResults (savedFile kernelOnly) (printStatistics .binary64 1 kernelOnly ++ savedLine)
          .kernelSslsniff = [41 / 2] ∧
        runBenchmark .binary64 List.sum (savedFile kernelOnly)
          (printStatistics .binary64 1 kernelOnly ++ savedLine) .baseline = some (41 / 2) := by
    decide +kernel
  have ⟨hempty, hprinted, _, hloaded⟩ := hshown
  refine ⟨hshown, fun h => ?_, fun h => ?_⟩
  · rw [hprinted] at h
    cases h.1 hempty
  · rw [hloaded] at h
    cases h.1 hempty

end BpftimeBenchmark.Bench.Figure
