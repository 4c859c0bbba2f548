import BpftimeBenchmark.Bench.Statistics

/-!
`print_statistics` of `ssl-nginx/benchmark.py` with what it may raise. Where no mean is
zero it raises nothing and prints what `printStatistics` says.
-/

namespace BpftimeBenchmark.Bench.SslNginx

open Report PyStatistics

theorem nodup_testNames : (legOrder.map testName).Nodup := by decide +kernel

/-- `results`. -/
def resultsOf (s : State) : Dict Text (List ℚ) :=
  Dict.tabulate legOrder testName nodup_testNames s.results

/-- `run_stats`. -/
def runStatsOf (s : State) : Dict Text Stats :=
  Dict.tabulate legOrder testName nodup_testNames s.runStats

theorem nodup_tracedNames : ([Leg.kernelSslsniff, .bpftimeSslsniff].map testName).Nodup := by
  decide +kernel

/-- `trace_observability`. -/
def traceObservabilityOf (s : State) : Dict Text (List Summary) :=
  Dict.tabulate [.kernelSslsniff, .bpftimeSslsniff] testName nodup_tracedNames
    s.traceObservability

variable (N : Rounding)

/-- One turn of the loop of `print_statistics`. -/
def printLeg (runStats : Dict Text Stats) (e : Text × List ℚ) : Except PyError (List Text) := do
  let stats ← runStats.get e.1
  let head := ("\n".toList ++ Text.title (Text.replaceChar '_' ' ' e.1) ++ ":".toList) ::
    countLines stats
  if e.2 = [] then pure (head ++ ["  No valid results".toList])
  else do
    let m ← measures N e.2
    pure (head ++ requestLines N m e.2)

/-- `results[first] and results[second]`. -/
def bothSampled (results : Dict Text (List ℚ)) (first second : Text) : Except PyError Bool := do
  let values ← results.get first
  if values = [] then pure false
  else do
    let values ← results.get second
    pure (decide (values ≠ []))

/-- The change from one leg to the other, if both have samples. -/
def compareLegs (results : Dict Text (List ℚ)) (first second : Text)
    (compare : ℚ → ℚ → Except PyError ℚ) (line : ℚ → Text) : Except PyError (List Text) := do
  let sampled ← bothSampled results first second
  if sampled = true then do
    let firstValues ← results.get first
    let firstAvg ← PyStatistics.mean N firstValues
    let secondValues ← results.get second
    let secondAvg ← PyStatistics.mean N secondValues
    let impact ← compare firstAvg secondAvg
    pure [line impact]
  else pure []

def printTrace (e : Text × List Summary) : Text :=
  if e.2 = [] then "  ".toList ++ e.1 ++ ": no trace preflight".toList
  else
    let totalEvents := (e.2.map (·.eventCount)).sum
    let attachOk := e.2.countP (·.attachSuccess)
    "  ".toList ++ e.1 ++ ":".toList ++
      (" attach_success=".toList ++ Text.ofNat attachOk ++ "/".toList ++
        Text.ofNat e.2.length ++ " events=".toList ++ Text.ofNat totalEvents)

/-- What is printed. -/
def printStatisticsOrRaise (numRuns : Int) (results : Dict Text (List ℚ))
    (runStats : Dict Text Stats) (traceObservability : Dict Text (List Summary)) :
    Except PyError (List Text) := do
  let sections ← results.entries.mapM (printLeg N runStats)
  let kernelImpact ← compareLegs N results (testName .baseline) (testName .kernelSslsniff)
    (Report.decrease N) kernelImpactLine
  let bpftimeImpact ← compareLegs N results (testName .baseline) (testName .bpftimeSslsniff)
    (Report.decrease N) bpftimeImpactLine
  let gain ← compareLegs N results (testName .kernelSslsniff) (testName .bpftimeSslsniff)
    (Report.change N) improvementLine
  pure (["\n=== Benchmark Results ===".toList,
    "Each configuration run ".toList ++ (Text.ofInt numRuns ++ " times".toList)] ++
    sections.flatten ++ (kernelImpact ++ bpftimeImpact ++ gain) ++
    "\nTrace observability:".toList :: traceObservability.entries.map printTrace)

section Returns

variable {N} {s : State}

theorem mem_legOrder (leg : Leg) : leg ∈ legOrder := by cases leg <;> simp [legOrder]

theorem get_resultsOf (s : State) (leg : Leg) :
    (resultsOf s).get (testName leg) = .ok (s.results leg) :=
  Dict.get_eq_ok.mpr (Dict.get?_tabulate (mem_legOrder leg))

theorem get_runStatsOf (s : State) (leg : Leg) :
    (runStatsOf s).get (testName leg) = .ok (s.runStats leg) :=
  Dict.get_eq_ok.mpr (Dict.get?_tabulate (mem_legOrder leg))

theorem printLeg_ok (s : State) (leg : Leg) :
    printLeg N (runStatsOf s) (testName leg, s.results leg) = .ok (sectionLines N s leg) := by
  unfold printLeg sectionLines valueLines
  rw [get_runStatsOf, ok_bind]
  by_cases hsamples : s.results leg = []
  · rw [if_pos hsamples, if_pos hsamples]
    rfl
  · rw [if_neg hsamples, if_neg hsamples, measures_ok N hsamples]
    rfl

theorem bothSampled_ok (s : State) (first second : Leg) :
    bothSampled (resultsOf s) (testName first) (testName second) =
      .ok (decide (s.results first ≠ [] ∧ s.results second ≠ [])) := by
  unfold bothSampled
  rw [get_resultsOf, get_resultsOf, ok_bind, ok_bind]
  by_cases hfirst : s.results first = []
  · rw [if_pos hfirst, decide_eq_false fun hboth => hboth.1 hfirst]
    rfl
  · rw [if_neg hfirst, decide_eq_decide.mpr (and_iff_right hfirst)]
    rfl

theorem compareLegs_ok {first : Leg}
    (hmean : s.results first ≠ [] → meanOf N s first ≠ 0) (second : Leg)
    (difference : ℚ → ℚ → ℚ) (line : ℚ → Text) :
    compareLegs N (resultsOf s) (testName first) (testName second)
        (fun before after => percentage N (difference before after) before) line =
      .ok (comparisonLine N s first second difference line) := by
  unfold compareLegs comparisonLine
  rw [bothSampled_ok, ok_bind]
  by_cases hboth : s.results first ≠ [] ∧ s.results second ≠ []
  · rw [if_pos (decide_eq_true hboth), if_pos hboth, get_resultsOf, get_resultsOf, ok_bind,
      mean_ok N hboth.1, ok_bind, ok_bind, mean_ok N hboth.2, ok_bind, ← meanOf, ← meanOf]
    simp only [percentage_ok N _ (hmean hboth.1)]
    rfl
  · rw [if_neg (by simpa using hboth), if_neg hboth]
    rfl

/-- Samples whose mean is not zero are printed. -/
theorem printStatisticsOrRaise_ok (numRuns : Int)
    (hmean : ∀ leg, s.results leg ≠ [] → meanOf N s leg ≠ 0) :
    printStatisticsOrRaise N numRuns (resultsOf s) (runStatsOf s) (traceObservabilityOf s) =
      .ok (statisticsLines N numRuns s) := by
  have hsections : (resultsOf s).entries.mapM (printLeg N (runStatsOf s)) =
      .ok (legOrder.map (sectionLines N s)) := by
    rw [resultsOf, Dict.tabulate, List.mapM_map]
    exact mapM_ok fun leg _ => printLeg_ok s leg
  have htrace : (traceObservabilityOf s).entries.map printTrace =
      [traceLine s .kernelSslsniff, traceLine s .bpftimeSslsniff] := rfl
  have hdecrease {first second : Leg} (line : ℚ → Text) :
      compareLegs N (resultsOf s) (testName first) (testName second) (Report.decrease N) line =
        .ok (comparisonLine N s first second (· - ·) line) :=
    compareLegs_ok (hmean first) second (· - ·) line
  have hchange {first second : Leg} (line : ℚ → Text) :
      compareLegs N (resultsOf s) (testName first) (testName second) (Report.change N) line =
        .ok (comparisonLine N s first second (fun before after => after - before) line) :=
    compareLegs_ok (hmean first) second (fun before after => after - before) line
  unfold printStatisticsOrRaise statisticsLines comparisonLines
  rw [hsections, ok_bind, hdecrease, ok_bind, hdecrease, ok_bind, hchange, ok_bind, htrace,
    List.flatMap_def]
  rfl

end Returns

end BpftimeBenchmark.Bench.SslNginx
