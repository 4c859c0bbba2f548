import BpftimeBenchmark.Bench.Report
import BpftimeBenchmark.Bench.Syscount

/-!
`print_statistics` and `generate_report` of `syscount-nginx/benchmark.py`, which raise
nothing where all samples are positive. The report looks up averages and comparisons
by name; which of them there are depends on which legs have samples.
-/

namespace BpftimeBenchmark.Bench.Syscount

open Report PyStatistics

/-- The keys of `results` and `run_stats`. -/
def testName : Leg → Text
  | .native => "native".toList
  | .kernelTargeted => "kernel_targeted".toList
  | .kernelUntargeted => "kernel_untargeted".toList
  | .userbpfTargeted => "userbpf_targeted".toList
  | .userbpfUntargeted => "userbpf_untargeted".toList

theorem nodup_testNames : (allLegs.map testName).Nodup := by decide +kernel

/-- `results`. -/
def resultsOf (s : State) : Dict Text (List ℚ) :=
  Dict.tabulate allLegs testName nodup_testNames s.results

/-- `run_stats`. -/
def runStatsOf (s : State) : Dict Text Stats :=
  Dict.tabulate allLegs testName nodup_testNames s.runStats

def tracedLegs : List Leg :=
  [.kernelTargeted, .kernelUntargeted, .userbpfTargeted, .userbpfUntargeted]

theorem nodup_tracedNames : (tracedLegs.map testName).Nodup := by decide +kernel

/-- `trace_observability`. -/
def traceObservabilityOf (s : State) : Dict Text (List Summary) :=
  Dict.tabulate tracedLegs testName nodup_tracedNames s.traceObservability

def formattedName : Leg → Text
  | .native => "Native (No tracing)".toList
  | .kernelTargeted => "Kernel syscount (targeting nginx)".toList
  | .kernelUntargeted => "Kernel syscount (not targeting nginx)".toList
  | .userbpfTargeted => "UserBPF syscount (targeting nginx)".toList
  | .userbpfUntargeted => "UserBPF syscount (not targeting nginx)".toList

def nameMap : Dict Text Text := Dict.tabulate allLegs testName nodup_testNames formattedName

/-- `name_map.get(test_name, test_name)`. -/
def shownName (test : Text) : Text := (nameMap.get? test).getD test

def failureReasons : List (Reason × Text) :=
  [(.traceFailures, "trace_failures".toList), (.wrkFailures, "wrk_failures".toList),
    (.parseFailures, "parse_failures".toList), (.timeouts, "timeouts".toList),
    (.exceptions, "exceptions".toList)]

def breakdown (stats : Stats) : List Text :=
  (failureReasons.filter fun r => stats.reasons r.1 ≠ 0).map fun r =>
    r.2 ++ "=".toList ++ Text.ofNat (stats.reasons r.1)

/-- What the settings bring into the reports. `targetRuns` is `NUM_RUNS` before
`--test`. -/
structure Settings where
  numRuns : Int
  targetRuns : Int
  traceLogRoot : Text
  testUrl : Text

variable (settings : Settings)

def countLines (stats : Stats) : List Text :=
  ["  Valid runs:            ".toList ++ Text.ofNat stats.validRuns ++ "/".toList ++
      Text.ofInt settings.targetRuns,
    "  Failed attempts:       ".toList ++ Text.ofNat stats.failedAttempts] ++
  if breakdown stats = [] then []
  else ["  Failure breakdown:     ".toList ++ Text.join ", ".toList (breakdown stats)]

/-- One turn of the loop of `print_statistics`, with `avgs` and what is printed. Nothing
sets a `skip_reason`, which is empty. -/
def printLeg (runStats : Dict Text Stats) (acc : Dict Text ℚ × List Text)
    (e : Text × List ℚ) : Except PyError (Dict Text ℚ × List Text) := do
  let stats ← runStats.get e.1
  let head := acc.2 ++ ["\n".toList ++ shownName e.1 ++ ":".toList]
  if stats.skipped = true then pure (acc.1, head ++ ["  Skipped:               ".toList])
  else if e.2 = [] then
    pure (acc.1, head ++ countLines settings stats ++ ["  No valid results".toList])
  else do
    let m ← measures .exact e.2
    pure (acc.1.set e.1 m.avg, head ++ countLines settings stats ++ requestLines .exact m e.2)

def impactLines (avgs : Dict Text ℚ) : Except PyError (List Text) :=
  comparedWith (testName .native) "\n=== Performance Impact Compared to Native ===".toList
    (decrease .exact)
    (fun test impact =>
      shownName test ++ ": ".toList ++ Text.fixedTwo impact ++ "% decrease".toList) avgs

def traceLine (e : Text × List Summary) : Text :=
  if e.2 = [] then "  ".toList ++ e.1 ++ ": no trace logs".toList
  else
    "  ".toList ++ e.1 ++ ": trace_success=".toList ++
      Text.ofNat (e.2.countP (·.traceSuccess)) ++ "/".toList ++ Text.ofNat e.2.length ++
      " count_rows=".toList ++ Text.ofNat (e.2.map (·.countRows)).sum ++ " logs=".toList ++
      settings.traceLogRoot

/-- `avgs` and what is printed. -/
def printStatistics (results : Dict Text (List ℚ)) (runStats : Dict Text Stats)
    (traceObservability : Dict Text (List Summary)) :
    Except PyError (Dict Text ℚ × List Text) := do
  let acc ← results.entries.foldlM (printLeg settings runStats) (Dict.empty, [])
  let impact ← impactLines acc.1
  let targeted ← changeBetween .exact acc.1 (testName .kernelTargeted)
    (testName .userbpfTargeted)
  let untargeted ← changeBetween .exact acc.1 (testName .kernelUntargeted)
    (testName .userbpfUntargeted)
  pure (acc.1,
    ["\n=== Benchmark Results ===".toList,
      "Each configuration run ".toList ++ Text.ofInt settings.numRuns ++ " times".toList] ++
    acc.2 ++ impact ++
    (targeted.toList.map fun v =>
      "\nUserBPF improvement over kernel (targeted): ".toList ++ Text.fixedTwo v ++
        "%".toList) ++
    (untargeted.toList.map fun v =>
      "UserBPF improvement over kernel (not targeting nginx): ".toList ++ Text.fixedTwo v ++
        "%".toList) ++
    "\nTrace observability:".toList :: traceObservability.entries.map (traceLine settings))

def compareWithNative (avgs : Dict Text ℚ) : Except PyError (Dict Text ℚ) :=
  if testName .native ∈ avgs then do
    let nativeAvg ← avgs.get (testName .native)
    (avgs.entries.filter fun e => e.1 ≠ testName .native).foldlM (fun comparisons e => do
      let impact ← change .exact nativeAvg e.2
      pure (comparisons.set (e.1 ++ "_vs_native".toList) impact)) Dict.empty
  else pure Dict.empty

/-- `comparisons[key] = v`, if there is a value. -/
def setIfSome (comparisons : Dict Text ℚ) (key : Text) (v : Option ℚ) : Dict Text ℚ :=
  v.elim comparisons (comparisons.set key)

/-- `comparisons` of `generate_report`. -/
def comparisonsOf (avgs : Dict Text ℚ) : Except PyError (Dict Text ℚ) := do
  let comparisons ← compareWithNative avgs
  let targeted ← changeBetween .exact avgs (testName .kernelTargeted) (testName .userbpfTargeted)
  let untargeted ← changeBetween .exact avgs (testName .kernelUntargeted)
    (testName .userbpfUntargeted)
  pure (setIfSome (setIfSome comparisons "userbpf_vs_kernel_targeted".toList targeted)
    "userbpf_vs_kernel_untargeted".toList untargeted)

/-- `comparisons.get(key, 0)`. -/
def comparisonOrZero (comparisons : Dict Text ℚ) (key : Text) : ℚ := (comparisons.get? key).getD 0

/-- A cell of the table: a comparison, or a dash. -/
def cell (comparisons : Dict Text ℚ) : Option Text → Text
  | some key => Text.plusTwo (comparisonOrZero comparisons key) ++ "%".toList
  | none => "-".toList

/-- The row of a leg, if it has an average. -/
def tableRow (avgs comparisons : Dict Text ℚ) (name : Text) (vsNative vsKernel : Option Text) :
    Except PyError (List Text) :=
  if name ∈ avgs then do
    let shown ← nameMap.get name
    let avg ← avgs.get name
    pure ["| ".toList ++ shown ++ " | ".toList ++ Text.groupedTwo avg ++ " | ".toList ++
      cell comparisons vsNative ++ " | ".toList ++ cell comparisons vsKernel ++ " |".toList]
  else pure []

def tableRows (avgs comparisons : Dict Text ℚ) : Except PyError (List Text) := do
  let native ← tableRow avgs comparisons (testName .native) none none
  let kernelTargeted ← tableRow avgs comparisons (testName .kernelTargeted)
    (some "kernel_targeted_vs_native".toList) none
  let kernelUntargeted ← tableRow avgs comparisons (testName .kernelUntargeted)
    (some "kernel_untargeted_vs_native".toList) none
  let userbpfTargeted ← tableRow avgs comparisons (testName .userbpfTargeted)
    (some "userbpf_targeted_vs_native".toList) (some "userbpf_vs_kernel_targeted".toList)
  let userbpfUntargeted ← tableRow avgs comparisons (testName .userbpfUntargeted)
    (some "userbpf_untargeted_vs_native".toList) (some "userbpf_vs_kernel_untargeted".toList)
  pure (native ++ kernelTargeted ++ kernelUntargeted ++ userbpfTargeted ++ userbpfUntargeted)

def nativeFindings (comparisons : Dict Text ℚ) : List Text :=
  if ["kernel_targeted_vs_native".toList, "kernel_untargeted_vs_native".toList,
      "userbpf_targeted_vs_native".toList, "userbpf_untargeted_vs_native".toList].all
      fun key => decide (0 < comparisonOrZero comparisons key) then
    ["   - All tracing methods outperformed the native baseline.".toList,
      ("   - This unexpected result might be due to caching effects or statistical " ++
        "variation.").toList,
      ("   - In a more robust test with more runs, we would typically expect some " ++
        "performance penalty for tracing.").toList]
  else
    ["   - There's a mixed performance impact when comparing with the native baseline.".toList]

/-- What is found of userBPF and the kernel, if they are compared. -/
def kernelFinding (comparisons : Dict Text ℚ) (key opening : Text) :
    Except PyError (List Text) :=
  if key ∈ comparisons then do
    let comparison ← comparisons.get key
    pure ["   - ".toList ++ opening ++ ", UserBPF showed ".toList ++
      if 0 < comparison then
        Text.fixedTwo comparison ++
          "% better performance than the kernel equivalent.".toList
      else
        Text.negatedTwo comparison ++
          "% worse performance than the kernel equivalent.".toList]
  else pure []

/-- What is found of the two modes of a tracer, if both have an average. -/
def modeFinding (avgs : Dict Text ℚ) (targeted untargeted opening : Text) :
    Except PyError (List Text) := do
  let difference ← changeBetween .exact avgs targeted untargeted
  pure (difference.toList.map fun v =>
    "   - For ".toList ++ opening ++
      if 0 < v then
        ", the not-targeting-nginx mode performed ".toList ++ Text.fixedTwo v ++
          "% better than targeted mode.".toList
      else
        ", the targeted mode performed ".toList ++ Text.negatedTwo v ++
          "% better than not-targeting-nginx mode.".toList)

def openingLines (timestamp : Text) : List Text :=
  ["# Benchmark Report: syscount-nginx Performance Analysis".toList, [],
    "## Overview".toList,
    ("This report analyzes the performance of nginx under different syscall counting " ++
      "methods, comparing native execution (no tracing), kernel-based syscount (targeting " ++
      "nginx and not targeting nginx), and bpftime's userspace BPF implementation (targeting " ++
      "nginx and not targeting nginx).").toList, [],
    "## Test Environment".toList,
    "- **Test Date**: ".toList ++ timestamp.take 4 ++ "-".toList ++
      (timestamp.drop 4).take 2 ++ "-".toList ++ (timestamp.drop 6).take 2,
    "- **Benchmark Tool**: wrk (`".toList ++ settings.testUrl ++
      "`, concurrency: 10, duration: 10s)".toList,
    "- **Number of Runs**: ".toList ++ Text.ofInt settings.numRuns, [],
    "## Performance Results".toList, [],
    "| Configuration | Requests/sec | % vs Native | % vs Kernel (same targeting) |".toList,
    "|---------------|--------------|-------------|------------------------------|".toList]

def closingLines (resultFilename : Text) : List Text :=
  [[], "## Conclusion".toList, [],
    ("The benchmark results demonstrate that bpftime's userspace BPF implementation " ++
      "provides performance characteristics that differ from traditional kernel-based " ++
      "syscount for syscall tracing.").toList, [],
    ("This data suggests that userspace BPF may offer benefits for observability tools that " ++
      "need to monitor production systems with minimal overhead.").toList, [],
    "## Recommendations".toList, [],
    ("1. **Extend testing with more runs**: Multiple benchmark runs with different loads " ++
      "would provide more statistical confidence.").toList, [],
    ("2. **Profile resource usage**: Adding CPU, memory, and I/O metrics would provide " ++
      "deeper insights into the efficiency differences.").toList, [],
    ("3. **Test with varied workloads**: Different nginx configurations and request " ++
      "patterns could reveal performance characteristics under various conditions.").toList, [],
    "## Raw Data".toList, [],
    "The raw benchmark data is available in the JSON file: `".toList ++ resultFilename ++
      "`".toList, [],
    "![Benchmark Results](benchmark_chart.png)".toList]

/-- The text of the report. -/
def generateReport (avgs : Dict Text ℚ) (resultFilename timestamp : Text) :
    Except PyError Text := do
  let comparisons ← comparisonsOf avgs
  let rows ← tableRows avgs comparisons
  let targeted ← kernelFinding comparisons "userbpf_vs_kernel_targeted".toList
    "When targeting nginx specifically".toList
  let untargeted ← kernelFinding comparisons "userbpf_vs_kernel_untargeted".toList
    "When not targeting nginx".toList
  let kernelModes ← modeFinding avgs (testName .kernelTargeted) (testName .kernelUntargeted)
    "kernel-based tracing".toList
  let userbpfModes ← modeFinding avgs (testName .userbpfTargeted) (testName .userbpfUntargeted)
    "UserBPF".toList
  pure (Text.join ['\n'] (openingLines settings timestamp ++ rows ++
    [[], "## Key Findings".toList, [],
      "1. **Performance Comparison with Native Baseline**".toList] ++
    nativeFindings comparisons ++ [[], "2. **UserBPF vs Kernel-based syscount**".toList] ++
    targeted ++ untargeted ++ [[], "3. **Targeted vs. Untargeted Performance**".toList] ++
    kernelModes ++ userbpfModes ++ closingLines resultFilename))

section Positive

variable (settings : Settings) {results : Dict Text (List ℚ)} {runStats : Dict Text Stats}
  {avgs : Dict Text ℚ}

/-- The averages so far are positive. -/
theorem returns_printLeg {acc : Dict Text ℚ × List Text} {e : Text × List ℚ}
    (hstats : e.1 ∈ runStats) (he : ∀ v ∈ e.2, 0 < v) (h : acc.1.All (0 < ·)) :
    Returns (printLeg settings runStats acc e) (fun acc => acc.1.All (0 < ·)) := by
  obtain ⟨stats, hget⟩ := Dict.mem_iff_get?.mp hstats
  refine returns_bind (P := fun _ => True) ⟨stats, Dict.get_eq_ok.mpr hget, trivial⟩
    fun stats _ => ?_
  refine returns_ite (fun _ => returns_ok h) fun _ => ?_
  refine returns_ite (fun _ => returns_ok h) fun hsamples => ?_
  refine returns_bind (P := fun m => m.avg = Averages.mean e.2)
    ⟨_, measures_ok .exact hsamples, rfl⟩ fun m hm => returns_ok ?_
  exact h.set e.1 (hm ▸ mean_pos hsamples he)

/-- The averages that are handed on are positive. -/
theorem returns_printStatistics (traceObservability : Dict Text (List Summary))
    (hstats : ∀ name ∈ results, name ∈ runStats) (h : Positive results) :
    Returns (printStatistics settings results runStats traceObservability)
      (fun printed => printed.1.All (0 < ·)) := by
  refine returns_bind (P := fun acc => acc.1.All (0 < ·))
    (returns_foldlM (fun acc e he hacc => ?_) (Dict.all_empty _)) fun acc hacc => ?_
  · exact returns_printLeg settings (hstats e.1 (List.mem_map_of_mem he)) (h e he) hacc
  refine returns_bind (returns_comparedWith hacc _ _ (returns_decrease .exact) _) fun impact _ => ?_
  refine returns_bind (returns_changeBetween .exact hacc _ _) fun targeted _ => ?_
  exact returns_bind (returns_changeBetween .exact hacc _ _) fun untargeted _ => returns_ok hacc

theorem returns_compareWithNative (h : avgs.All (0 < ·)) :
    Returns (compareWithNative avgs) (fun _ => True) := by
  refine returns_ite (fun hnative => ?_) fun _ => returns_ok trivial
  refine returns_bind (h.returns_get hnative) fun nativeAvg hpos => ?_
  refine returns_foldlM (Q := fun _ => True) (fun comparisons e _ _ => ?_) trivial
  exact returns_bind (returns_change .exact hpos e.2) fun impact _ => returns_ok trivial

theorem returns_comparisonsOf (h : avgs.All (0 < ·)) :
    Returns (comparisonsOf avgs) (fun _ => True) := by
  refine returns_bind (returns_compareWithNative h) fun comparisons _ => ?_
  refine returns_bind (returns_changeBetween .exact h _ _) fun targeted _ => ?_
  exact returns_bind (returns_changeBetween .exact h _ _) fun untargeted _ => returns_ok trivial

theorem returns_nameMap (leg : Leg) :
    Returns (nameMap.get (testName leg)) (fun shown => shown = formattedName leg) := by
  have hleg : leg ∈ allLegs := by cases leg <;> simp [allLegs]
  exact ⟨_, Dict.get_eq_ok.mpr (Dict.get?_tabulate hleg), rfl⟩

theorem returns_tableRow (h : avgs.All (0 < ·)) (comparisons : Dict Text ℚ) (leg : Leg)
    (vsNative vsKernel : Option Text) :
    Returns (tableRow avgs comparisons (testName leg) vsNative vsKernel) (fun _ => True) := by
  refine returns_ite (fun hname => ?_) fun _ => returns_ok trivial
  refine returns_bind (returns_nameMap leg) fun shown _ => ?_
  exact returns_bind (h.returns_get hname) fun avg _ => returns_ok trivial

theorem returns_tableRows (h : avgs.All (0 < ·)) (comparisons : Dict Text ℚ) :
    Returns (tableRows avgs comparisons) (fun _ => True) := by
  refine returns_bind (returns_tableRow h _ .native _ _) fun native _ => ?_
  refine returns_bind (returns_tableRow h _ .kernelTargeted _ _) fun kernelTargeted _ => ?_
  refine returns_bind (returns_tableRow h _ .kernelUntargeted _ _) fun kernelUntargeted _ => ?_
  refine returns_bind (returns_tableRow h _ .userbpfTargeted _ _) fun userbpfTargeted _ => ?_
  exact returns_bind (returns_tableRow h _ .userbpfUntargeted _ _)
    fun userbpfUntargeted _ => returns_ok trivial

theorem returns_kernelFinding (comparisons : Dict Text ℚ) (key opening : Text) :
    Returns (kernelFinding comparisons key opening) (fun _ => True) := by
  refine returns_ite (fun hkey => ?_) fun _ => returns_ok trivial
  obtain ⟨v, hv⟩ := Dict.mem_iff_get?.mp hkey
  exact returns_bind (P := fun _ => True) ⟨v, Dict.get_eq_ok.mpr hv, trivial⟩
    fun comparison _ => returns_ok trivial

theorem returns_modeFinding (h : avgs.All (0 < ·)) (targeted untargeted opening : Text) :
    Returns (modeFinding avgs targeted untargeted opening) (fun _ => True) :=
  returns_bind (returns_changeBetween .exact h _ _) fun _ _ => returns_ok trivial

/-- Positive averages make a report, whichever legs have one. -/
theorem returns_generateReport (h : avgs.All (0 < ·)) (resultFilename timestamp : Text) :
    Returns (generateReport settings avgs resultFilename timestamp) (fun _ => True) := by
  refine returns_bind (returns_comparisonsOf h) fun comparisons _ => ?_
  refine returns_bind (returns_tableRows h comparisons) fun rows _ => ?_
  refine returns_bind (returns_kernelFinding _ _ _) fun targeted _ => ?_
  refine returns_bind (returns_kernelFinding _ _ _) fun untargeted _ => ?_
  refine returns_bind (returns_modeFinding h _ _ _) fun kernelModes _ => ?_
  exact returns_bind (returns_modeFinding h _ _ _) fun userbpfModes _ => returns_ok trivial

end Positive

section Runs

open Scripts Script

variable {env : PyEnv}

/-- Every call, and the assignments that bring no throughput. -/
def lasting : Footprint Op Vars :=
  ⟨fun _ => True, fun f => ∀ v, (f v).reqPerSec = v.reqPerSec ∨ (f v).reqPerSec = none⟩

/-- Every sample so far is positive, and so is the throughput read last. -/
structure PositiveSamples (k : PyMachine State) : Prop where
  samples : Always (fun s => AllPositive s.results) k
  reqPerSec : ∀ v, k.vars.reqPerSec = some v → 0 < v

theorem quiet_positiveSamples : Quiet lasting PositiveSamples where
  tick := fun _ hk => ⟨hk.samples, hk.reqPerSec⟩
  answered := fun _ _ _ _ hk => ⟨hk.samples, hk.reqPerSec⟩
  assigned := by
    intro k f hf hk
    refine ⟨hk.samples, fun v hv => ?_⟩
    rcases hf k.vars with hsame | hnone
    · exact hk.reqPerSec v (hsame ▸ hv)
    · exact absurd (hnone.symm.trans hv) (by simp)

theorem PositiveSamples.updated {k : PyMachine State} (h : PositiveSamples k)
    {f : State → State}
    (hf : AllPositive k.state.results → AllPositive (f k.state).results) :
    PositiveSamples (k.updated f) :=
  ⟨h.samples.updated (hf h.samples.state), h.reqPerSec⟩

theorem allPositive_addResult {s : State} (h : AllPositive s.results) (leg : Leg) {v : ℚ}
    (hv : 0 < v) : AllPositive (s.addResult leg v).results := by
  refine h.add hv fun leg' w hw => ?_
  dsimp only [State.addResult] at hw
  split at hw
  · exact (List.mem_append.mp hw).imp_right List.mem_singleton.mp
  · exact .inl hw

theorem positiveSamples_markFailed (leg : Leg) (reason : Reason) :
    Maintains env PositiveSamples (markFailed leg reason : Py State Unit Unit) :=
  maintains_bind (maintains_update quiet_positiveSamples fun _ hk => hk.updated id)
    fun _ => maintains_update quiet_positiveSamples fun _ hk => hk.updated id

theorem positiveSamples_record (leg : Leg) {v : ℚ} (hv : 0 < v) :
    Maintains env PositiveSamples (record leg v : Py State Unit Unit) :=
  maintains_bind (maintains_update quiet_positiveSamples fun _ hk =>
    hk.updated fun hs => allPositive_addResult hs leg hv)
    fun _ => maintains_update quiet_positiveSamples fun _ hk => hk.updated id

/-- The throughput of the run is recorded if the trace is effective. -/
theorem positiveSamples_finishTraced (leg : Leg) (mode : Mode) (i : Nat) (require : Bool) :
    Maintains env PositiveSamples (finishTraced leg mode i require : Py State Unit Unit) := by
  intro k hk
  have hvars := hk.reqPerSec
  refine wp_bind (wp_vars (wp_when (fun _ => wp_bind ?_) fun _ => hk))
  have hsummary : Maintains env PositiveSamples
      (terminateAndSummarizeSyscount leg mode i require : Py State Unit Summary) := by
    refine maintains_bind (maintains_awaitIfStarted quiet_positiveSamples (fun _ => trivial)
      positiveSamples_markFailed) fun returncode => ?_
    refine maintains_bind ((steady_act channel_true trivial fun _ _ => trivial).maintains
      quiet_positiveSamples) fun _ k hk => ?_
    exact wp_summarizeSyscountLog quiet_positiveSamples (fun _ _ => trivial) hk
      (fun _ _ hk => hk.updated id) fun _ _ hk => hk
  refine wp_mono (hsummary k hk) (fun summary k' hk' => ?_) fun _ _ hk' => hk'
  split
  · rename_i v hv
    split
    · exact positiveSamples_record leg (hvars v hv) k' hk'
    · exact positiveSamples_markFailed leg _ k' hk'
  · exact hk'

theorem keepsRecord_positiveSamples : KeepsRecord env lasting PositiveSamples where
  calls := fun _ => trivial
  assigns := fun _ hf => hf
  quiet := quiet_positiveSamples
  measured := fun _ _ hk => ⟨hk.samples, fun _ hv => throughput_pos hv⟩
  marked := fun _ hk => ⟨hk.samples, hk.reqPerSec⟩
  failed := positiveSamples_markFailed
  recorded := fun _ hv => positiveSamples_record .native hv
  finished := positiveSamples_finishTraced

/-- In every state of every run the samples are positive. -/
theorem positiveSamples_main (cfg : Config) (env : PyEnv) :
    PositiveSamples (main (ρ := Unit) cfg env start).2 := by
  refine (keepsRecord_positiveSamples.main cfg).at_end ⟨fun s hs leg v hv => ?_, fun v hv => ?_⟩
  · obtain rfl := List.mem_singleton.mp hs
    cases hv
  · cases hv

end Runs

end BpftimeBenchmark.Bench.Syscount
