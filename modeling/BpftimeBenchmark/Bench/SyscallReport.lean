import BpftimeBenchmark.Bench.Report
import BpftimeBenchmark.Bench.SyscallRules

/-!
`print_statistics` and `save_results` of `syscall/benchmark.py`, which raise nothing
where all samples are positive. Of what is saved, the time and the system are left
out.
-/

namespace BpftimeBenchmark.Bench.Syscall

open Report PyStatistics

/-- The keys of `results`. -/
def testName : Leg → Text
  | .native => "native".toList
  | .kernelTracepoint => "kernel_tracepoint".toList
  | .userspaceSyscall => "userspace_syscall".toList

def legOrder : List Leg := [.native, .kernelTracepoint, .userspaceSyscall]

theorem nodup_testNames : (legOrder.map testName).Nodup := by decide +kernel

/-- `results`. -/
def resultsOf (s : State) : Dict Text (List ℚ) :=
  Dict.tabulate legOrder testName nodup_testNames s.results

def formattedName : Leg → Text
  | .native => "Native (No tracing)".toList
  | .kernelTracepoint => "Kernel Tracepoint Syscall".toList
  | .userspaceSyscall => "Userspace BPF Syscall".toList

def nameMap : Dict Text Text := Dict.tabulate legOrder testName nodup_testNames formattedName

/-- `name_map.get(test_name, test_name)`. -/
def shownName (test : Text) : Text := (nameMap.get? test).getD test

def measureLines (m : Measures) (values : List ℚ) : List Text :=
  ["  Average time usage (mean):   ".toList ++ Text.fixedTwo m.avg ++ " ns".toList,
    "  Average time usage (median): ".toList ++ Text.fixedTwo m.median ++ " ns".toList,
    "  Standard deviation:          ".toList ++ deviationTwo .exact m.stdev,
    "  Min:                         ".toList ++ Text.fixedTwo m.minVal ++ " ns".toList,
    "  Max:                         ".toList ++ Text.fixedTwo m.maxVal ++ " ns".toList,
    "  All runs:                    ".toList ++ runsText values]

/-- One turn of the loop of `print_statistics`, with `avgs` and what is printed. -/
def printLeg (acc : Dict Text ℚ × List Text) (e : Text × List ℚ) :
    Except PyError (Dict Text ℚ × List Text) :=
  if e.2 = [] then
    pure (acc.1, acc.2 ++ ["\n".toList ++ shownName e.1 ++ ": No valid results".toList])
  else do
    let m ← measuresOrFirst .exact e.2
    pure (acc.1.set e.1 m.avg,
      acc.2 ++ ["\n".toList ++ shownName e.1 ++ ":".toList] ++ measureLines m e.2)

def overheadLines (avgs : Dict Text ℚ) : Except PyError (List Text) :=
  comparedWith (testName .native) "\n=== Overhead Compared to Native ===".toList (change .exact)
    (fun test impact =>
      shownName test ++ ": ".toList ++ Text.fixedTwo impact ++ "% increase".toList) avgs

def kernelLines (avgs : Dict Text ℚ) : Except PyError (List Text) := do
  let comparison ← changeBetween .exact avgs (testName .kernelTracepoint)
    (testName .userspaceSyscall)
  pure (comparison.toList.map fun v =>
    "\nUserspace BPF syscall has ".toList ++ Text.fixedTwo |v| ++
      if 0 < v then "% more overhead than kernel tracepoint".toList
      else "% less overhead than kernel tracepoint".toList)

def printStatistics (numRuns : Nat) (results : Dict Text (List ℚ)) :
    Except PyError (List Text) := do
  let acc ← results.entries.foldlM printLeg (Dict.empty, [])
  let overhead ← overheadLines acc.1
  let kernel ← kernelLines acc.1
  pure (["\n=== Benchmark Results ===".toList,
    "Each configuration run ".toList ++ Text.ofNat numRuns ++ " times".toList] ++
    acc.2 ++ overhead ++ kernel)

/-- What `save_results` says about a leg. -/
inductive Detail where
  | noData
  | measured (m : Measures) (rawValues : List ℚ)

inductive Comparison where
  | overheadPercent (overhead : ℚ)
  | differencePercent (difference : ℚ)

/-- `result_obj`, in which there are comparisons or not. -/
structure ResultObj where
  runs : Nat
  results : Dict Text Detail
  comparisons : Option (Dict Text Comparison)

/-- `result_obj["comparisons"][key] = comparison`. -/
def ResultObj.compare (obj : ResultObj) (key : Text) (comparison : Comparison) :
    Except PyError ResultObj :=
  match obj.comparisons with
  | some comparisons => .ok { obj with comparisons := some (comparisons.set key comparison) }
  | none => .error .keyError

def addDetail (obj : ResultObj) (e : Text × List ℚ) : Except PyError ResultObj :=
  if e.2 = [] then pure { obj with results := obj.results.set e.1 .noData }
  else do
    let m ← measuresOrFirst .exact e.2
    pure { obj with results := obj.results.set e.1 (.measured m e.2) }

/-- `name in results and results[name]`. -/
def hasSamples (results : Dict Text (List ℚ)) (name : Text) : Except PyError Bool :=
  if name ∈ results then do
    let values ← results.get name
    pure (decide (values ≠ []))
  else pure false

def compareWithNative (nativeAvg : ℚ) (obj : ResultObj) (e : Text × List ℚ) :
    Except PyError ResultObj := do
  let avg ← mean .exact e.2
  let overhead ← change .exact nativeAvg avg
  obj.compare (e.1 ++ "_vs_native".toList) (.overheadPercent overhead)

def compareWithKernel (results : Dict Text (List ℚ)) (obj : ResultObj) :
    Except PyError ResultObj := do
  let kernel ← hasSamples results (testName .kernelTracepoint)
  let userspace ← hasSamples results (testName .userspaceSyscall)
  if kernel = true ∧ userspace = true then do
    let kernelValues ← results.get (testName .kernelTracepoint)
    let kernelAvg ← mean .exact kernelValues
    let userbpfValues ← results.get (testName .userspaceSyscall)
    let userbpfAvg ← mean .exact userbpfValues
    let difference ← change .exact kernelAvg userbpfAvg
    obj.compare "userspace_vs_kernel".toList (.differencePercent difference)
  else pure obj

def addComparisons (results : Dict Text (List ℚ)) (obj : ResultObj) :
    Except PyError ResultObj := do
  let native ← hasSamples results (testName .native)
  if testName .native ∈ obj.results ∧ native = true then do
    let nativeValues ← results.get (testName .native)
    let nativeAvg ← mean .exact nativeValues
    let compared ← (results.entries.filter fun e => e.1 ≠ testName .native ∧ e.2 ≠ []).foldlM
      (compareWithNative nativeAvg) { obj with comparisons := some Dict.empty }
    compareWithKernel results compared
  else pure obj

/-- The `try` block of `save_results` up to the file. -/
def saveResults (numRuns : Nat) (results : Dict Text (List ℚ)) : Except PyError ResultObj := do
  let detailed ← results.entries.foldlM addDetail ⟨numRuns, Dict.empty, none⟩
  addComparisons results detailed

section Positive

variable {results : Dict Text (List ℚ)}

/-- The averages so far are positive. -/
theorem returns_printLeg {acc : Dict Text ℚ × List Text} {e : Text × List ℚ}
    (he : ∀ v ∈ e.2, 0 < v) (h : acc.1.All (0 < ·)) :
    Returns (printLeg acc e) (fun acc => acc.1.All (0 < ·)) := by
  refine returns_ite (fun _ => returns_ok h) fun hsamples => ?_
  refine returns_bind (returns_measuresOrFirst .exact hsamples) fun m hm => returns_ok ?_
  have hpos : 0 < Rounding.exact.nearest (Averages.mean e.2) := mean_pos hsamples he
  exact h.set e.1 (hm ▸ hpos)

theorem returns_printStatistics (numRuns : Nat) (h : Positive results) :
    Returns (printStatistics numRuns results) (fun _ => True) := by
  refine returns_bind (P := fun acc => acc.1.All (0 < ·))
    (returns_foldlM (fun acc e he hacc => returns_printLeg (h e he) hacc)
      (Dict.all_empty _)) fun acc hacc => ?_
  refine returns_bind (returns_comparedWith hacc _ _ (returns_change .exact) _) fun overhead _ => ?_
  have hkernel : Returns (kernelLines acc.1) (fun _ => True) :=
    returns_bind (returns_changeBetween .exact hacc _ _) fun _ _ => returns_ok trivial
  exact returns_bind hkernel fun kernel _ => returns_ok trivial

theorem returns_addDetail (obj : ResultObj) (e : Text × List ℚ) :
    Returns (addDetail obj e) (fun _ => True) := by
  refine returns_ite (fun _ => returns_ok trivial) fun hsamples => ?_
  exact returns_bind (returns_measuresOrFirst .exact hsamples) fun m _ => returns_ok trivial

/-- A leg that is said to have samples has them. -/
theorem returns_hasSamples (results : Dict Text (List ℚ)) (name : Text) :
    Returns (hasSamples results name) (fun b => b = true → Sampled results name) := by
  refine returns_ite (fun hname => ?_) fun _ => returns_ok fun h => by cases h
  obtain ⟨values, hvalues⟩ := Dict.mem_iff_get?.mp hname
  have hget := Dict.get_eq_ok.mpr hvalues
  refine returns_bind (P := fun found => found = values) ⟨values, hget, rfl⟩ fun found hfound => ?_
  exact returns_ok fun hne => ⟨values, hget, hfound ▸ of_decide_eq_true hne⟩

theorem returns_compare {obj : ResultObj} (h : obj.comparisons.isSome = true) (key : Text)
    (comparison : Comparison) :
    Returns (obj.compare key comparison) (fun obj => obj.comparisons.isSome = true) := by
  obtain ⟨comparisons, hsome⟩ := Option.isSome_iff_exists.mp h
  rw [ResultObj.compare, hsome]
  exact returns_ok rfl

theorem returns_compareWithNative {nativeAvg : ℚ} (hpos : 0 < nativeAvg) {obj : ResultObj}
    (h : obj.comparisons.isSome = true) {e : Text × List ℚ} (he : e.2 ≠ []) :
    Returns (compareWithNative nativeAvg obj e) (fun obj => obj.comparisons.isSome = true) := by
  refine returns_bind (P := fun _ => True) ⟨_, mean_ok .exact he, trivial⟩ fun avg _ => ?_
  refine returns_bind (returns_change .exact hpos avg) fun overhead _ => ?_
  exact returns_compare h _ _

theorem returns_compareWithKernel (h : Positive results) {obj : ResultObj}
    (hobj : obj.comparisons.isSome = true) :
    Returns (compareWithKernel results obj) (fun _ => True) := by
  refine returns_bind (returns_hasSamples results _) fun kernel hkernel => ?_
  refine returns_bind (returns_hasSamples results _) fun userspace huserspace => ?_
  refine returns_ite (fun hboth => ?_) fun _ => returns_ok trivial
  refine (hkernel hboth.1).returns_mean h fun kernelAvg hpos => ?_
  refine (huserspace hboth.2).returns_mean h fun userbpfAvg _ => ?_
  refine returns_bind (returns_change .exact hpos userbpfAvg) fun difference _ => ?_
  exact returns_mono (returns_compare hobj _ _) fun _ _ => trivial

theorem returns_addComparisons (h : Positive results) (obj : ResultObj) :
    Returns (addComparisons results obj) (fun _ => True) := by
  refine returns_bind (returns_hasSamples results _) fun native hnative => ?_
  refine returns_ite (fun hboth => ?_) fun _ => returns_ok trivial
  refine (hnative hboth.2).returns_mean h fun nativeAvg hpos => ?_
  refine returns_bind (P := fun obj => obj.comparisons.isSome = true)
    (returns_foldlM (fun obj e he hobj => ?_) rfl) fun compared hcompared => ?_
  · have hsamples := of_decide_eq_true (List.mem_filter.mp he).2
    exact returns_compareWithNative hpos hobj hsamples.2
  · exact returns_compareWithKernel h hcompared

theorem returns_saveResults (numRuns : Nat) (h : Positive results) :
    Returns (saveResults numRuns results) (fun _ => True) :=
  returns_bind (P := fun _ => True)
    (returns_foldlM (fun obj e _ _ => returns_addDetail obj e) trivial)
    fun detailed _ => returns_addComparisons h detailed

end Positive

section Runs

open Scripts Script

variable {host : Host} {env : PyEnv} {A : Footprint Op Vars}

theorem avgTime_pos {output : Text} {v : ℚ} (h : avgTime output = some v) : 0 < v := by
  have hbound : 1 / 2 ^ 1075 < v := of_decide_eq_true (Option.filter_eq_some_iff.mp h).2
  exact lt_trans (by positivity) hbound

theorem allPositive_addResult {s : State} (h : AllPositive s.results) (leg : Leg) {v : ℚ}
    (hv : 0 < v) : AllPositive (s.addResult leg v).results := by
  refine h.add hv fun leg' w hw => ?_
  dsimp only [State.addResult] at hw
  by_cases hleg : leg' = leg
  · subst hleg
    rw [Function.update_self] at hw
    exact (List.mem_append.mp hw).imp_right List.mem_singleton.mp
  · rw [Function.update_of_ne hleg] at hw
    exact .inl hw

/-- Every sample so far is positive. -/
def PositiveSamples : PyMachine → Prop := Always fun s => AllPositive s.results

theorem PositiveSamples.updated {k : PyMachine} (h : PositiveSamples k) {f : State → State}
    (hf : AllPositive k.state.results → AllPositive (f k.state).results) :
    PositiveSamples (k.updated f) :=
  Always.updated h (hf (Always.state h))

theorem bystander_positiveSamples : Bystander host env Footprint.all PositiveSamples := by
  have h : Bystander host env unmeasured PositiveSamples :=
    bystander_of_results (quiet_always _ _)
      (fun k f hf hk => hk.updated fun hs => hf k.state ▸ hs) fun _ hk => hk
  exact ⟨fun _ _ => trivial, fun _ => trivial, quiet_always _ _, h.marked, h.cleanup, h.server⟩

/-- In every state of every run the samples are positive. -/
theorem positiveSamples_program (host : Host) (env : PyEnv) (fuel : Nat) :
    PositiveSamples (program host fuel env start).2 := by
  have h : Bystander host env Footprint.all PositiveSamples := bystander_positiveSamples
  have hleg {ρ : Type} (leg : Leg) (command : Command) :
      Maintains env PositiveSamples (runLeg host leg command : Py ρ Unit) :=
    h.runLeg trivial fun k _ _ htime hk =>
      hk.updated fun hs => allPositive_addResult hs leg (avgTime_pos htime)
  have hstart : PositiveSamples start := by
    intro s hs leg v hv
    obtain rfl := List.mem_singleton.mp hs
    cases hv
  have hinit : wp env (initSafePids host fuel : Py Bool Bool) (fun _ => PositiveSamples)
      (fun _ => PositiveSamples) start :=
    maintains_initSafePids h.plain h.quiet (fun k pid hk => hk.updated id) start hstart
  refine h.program hinit fun ended k hk => h.afterInit h (fun _ hk => hk) (fun k hk => ?_) hk
  exact h.mainBody h (fun _ hk => hk) (hleg _ _) (hleg _ _)
    (h.runUserspaceSyscall (hleg _ _) (hleg _ _)) hk

end Runs

end BpftimeBenchmark.Bench.Syscall
