import BpftimeBenchmark.Micro.FloatStatistics
import BpftimeBenchmark.Micro.MergedRuns
import BpftimeBenchmark.Micro.VictimOutput

/-!
The two micro-benchmark suites from what their victims print to the results they save:
the legs of `uprobe/benchmark.py` and `mpk/benchmark.py` and `main` of both. Starting and
stopping the servers is left out.
-/

namespace BpftimeBenchmark.Micro

open Text

inductive SuiteError where
  | raised (e : PyError)
  | attributeError
  | typeError

def raise {α : Type} (x : Except PyError α) : Except SuiteError α := x.mapError .raised

def elapseTime : Text := "avg function elapse time:".toList

/-- `l[-n]` for a positive `n`. -/
def itemFromEnd {α : Type} (l : List α) (n : Nat) : Except PyError α :=
  if n ≤ l.length then item l (l.length - n) else .error .indexError

def handleEmbedVictimOut (i : Text) : Except PyError PyFloat :=
  match (splitLines i).find? (startsWith · elapseTime) with
  | some line => do
      let field ← itemFromEnd (words line) 2
      floatOf field
  | none => .ok (.infinite false)

/-- The loop of the two uprobe legs over the outputs of the victim. -/
def collectUprobe (outputs : List Text) :
    Except PyError (Option (Dict Text (List PyFloat))) :=
  outputs.foldlM (fun result victimOut => do
    let curr ← Uprobe.parseVictimOutput victimOut
    uprobeMerge result curr) none

/-- A leg, which has no dictionary where there was no run. -/
def uprobeLeg (sqrt : ℚ → ℚ) (outputs : List Text) :
    Except SuiteError (Dict Text FloatSummary) := do
  match ← raise (collectUprobe outputs) with
  | none => .error .attributeError
  | some result => raise (Uprobe.handleResult (floats sqrt) result)

def runUserspaceUprobeTest (sqrt : ℚ → ℚ) (outputs : List Text) :
    Except SuiteError (Dict Text FloatSummary) := uprobeLeg sqrt outputs

def runKernelUprobeTest (sqrt : ℚ → ℚ) (outputs : List Text) :
    Except SuiteError (Dict Text FloatSummary) := uprobeLeg sqrt outputs

def embedName : Text := "embed".toList

def runEmbedVmTest (sqrt : ℚ → ℚ) (outputs : List Text) :
    Except SuiteError (Dict Text FloatSummary) := do
  let times ← raise (outputs.mapM handleEmbedVictimOut)
  raise (Uprobe.handleResult (floats sqrt) (Dict.empty.set embedName times))

/-- The loop of the two mpk legs over the outputs of the victim. -/
def collectMpk (outputs : List Text) : Except PyError (Dict Text (List PyFloat)) :=
  outputs.foldlM (fun result victimOut => do
    let curr ← Mpk.parseVictimOutput victimOut
    mpkMerge result curr) Dict.empty

def mpkLeg (sqrt : ℚ → ℚ) (outputs : List Text) : Except SuiteError (Dict Text FloatSummary) := do
  let result ← raise (collectMpk outputs)
  raise (Mpk.handleResult (floats sqrt) result)

def runMpkTest (sqrt : ℚ → ℚ) (outputs : List Text) :
    Except SuiteError (Dict Text FloatSummary) := mpkLeg sqrt outputs

def runStandardTest (sqrt : ℚ → ℚ) (outputs : List Text) :
    Except SuiteError (Dict Text FloatSummary) := mpkLeg sqrt outputs

/-- What stands under the name of a benchmark. -/
inductive Metrics where
  | message (text : Text)
  | numbers (s : FloatSummary)

/-- `out`, without `benchmark_info`. -/
structure Uprobe.Out where
  kernelUprobe : Dict Text Metrics
  userspaceUprobe : Dict Text Metrics
  embed : Dict Text Metrics

def skippedLeg : Dict Text Metrics :=
  Dict.empty.set "skipped".toList (.message "No sudo privileges".toList)

/-- What the kernel leg adds to the results, run or not. -/
def kernelLeg (sqrt : ℚ → ℚ) (runKernel : Bool) (outputs : List Text) :
    Except SuiteError (Dict Text Metrics) :=
  if runKernel then do
    let k ← runKernelUprobeTest sqrt outputs
    return k.mapValues .numbers
  else return skippedLeg

/-- What the victims of a suite print in each run. -/
def printedBy (numRuns : Int) (output : Nat → Text) : List Text :=
  (List.range numRuns.toNat).map output

/-- `main` of `uprobe/benchmark.py` up to `out`. -/
def Uprobe.main (sqrt : ℚ → ℚ) (runKernel : Bool) (numRuns : Int)
    (kernel userspace embed : Nat → Text) : Except SuiteError Uprobe.Out := do
  let k ← kernelLeg sqrt runKernel (printedBy numRuns kernel)
  let u ← runUserspaceUprobeTest sqrt (printedBy numRuns userspace)
  let e ← runEmbedVmTest sqrt (printedBy numRuns embed)
  return ⟨k, u.mapValues .numbers, e.mapValues .numbers⟩

/-- `results` of `mpk/benchmark.py`, without `benchmark_info`. -/
structure Mpk.Out where
  mpk : Dict Text FloatSummary
  standard : Dict Text FloatSummary

/-- `main` of `mpk/benchmark.py` up to `results`. -/
def Mpk.main (sqrt : ℚ → ℚ) (iterations : Int) (mpk standard : Nat → Text) :
    Except SuiteError Mpk.Out := do
  let mpkResults ← runMpkTest sqrt (printedBy iterations mpk)
  let standardResults ← runStandardTest sqrt (printedBy iterations standard)
  return ⟨mpkResults, standardResults⟩

/-- A run of `test` that is not cut off. -/
structure VictimRun where
  parts : List Part
  tail : Text
  plain : contains tail benchmarking = false

def VictimRun.output (run : VictimRun) : Text := printed run.parts ++ run.tail

/-- The last time of each benchmark. -/
def VictimRun.times (run : VictimRun) : Dict Text PyFloat := setAll Dict.empty (records run.parts)

/-- They are the times by which the parser is specified. -/
theorem VictimRun.lastTimes (run : VictimRun) : LastTimes (records run.parts) run.times :=
  lastTimes_setAll lastTimes_empty (records run.parts)

theorem VictimRun.parse (run : VictimRun) :
    Uprobe.parseVictimOutput run.output = .ok run.times ∧
      Mpk.parseVictimOutput run.output = .ok run.times :=
  parse_of_reads (reads_printed run.plain run.parts)

namespace Embed

def iterLine (iter : Int) : Text := "a[b] + c for ".toList ++ (ofInt iter ++ " times".toList)

/-- What `get_elapsed_time` prints; the nanoseconds are less than a second. -/
def elapsedLine (seconds : Int) (nanoseconds : Nat) : Text :=
  "Elapsed time: ".toList ++ (ofInt seconds ++ '.' :: (places 9 nanoseconds ++
    " seconds".toList))

def avgLine (time : Lf) : Text := elapseTime ++ ' ' :: (time.print ++ ' ' :: "ns".toList)

/-- `do_benchmark_userspace` of `test_embed.c`. -/
def doBenchmarkUserspace (iter seconds : Int) (nanoseconds : Nat) (time : Lf) : Text :=
  iterLine iter ++ '\n' ::
    (elapsedLine seconds nanoseconds ++ '\n' :: (avgLine time ++ '\n' :: ['\n']))

end Embed

/-- No line begins with the label of the time. -/
def Silent (s : Text) : Prop := ∀ l ∈ splitLines s, startsWith l elapseTime = false

/-- A run of the victim with the embedded VM: it ends before it has measured, or it prints its
time after some whole lines. -/
inductive EmbedRun where
  | failed (output : Text) (silent : Silent output)
  | measured (before : Text) (silent : Silent before)
      (ended : before = [] ∨ before.getLast? = some '\n')
      (iter seconds : Int) (nanoseconds : Nat) (time : Lf) (after : Text)

def EmbedRun.output : EmbedRun → Text
  | .failed output _ => output
  | .measured before _ _ iter seconds nanoseconds time after =>
      before ++ (Embed.doBenchmarkUserspace iter seconds nanoseconds time ++ after)

def EmbedRun.time : EmbedRun → PyFloat
  | .failed .. => .infinite false
  | .measured _ _ _ _ _ _ time _ => time.value

theorem elapseTime_eq :
    elapseTime = ['a', 'v', 'g', ' ', 'f', 'u', 'n', 'c', 't', 'i', 'o', 'n', ' ', 'e', 'l', 'a',
      'p', 's', 'e', ' ', 't', 'i', 'm', 'e', ':'] := by
  decide +kernel

theorem find?_silent {s : Text} (h : Silent s) (lines : List Text) :
    (splitLines s ++ lines).find? (startsWith · elapseTime) =
      lines.find? (startsWith · elapseTime) := by
  rw [List.find?_append, List.find?_eq_none.mpr, Option.none_or]
  intro l hl
  simp [h l hl]

namespace Embed

theorem oneLine_iterLine (iter : Int) : OneLine (iterLine iter) :=
  OneLine.append (by decide +kernel) ((oneLine_ofInt iter).append (by decide +kernel))

theorem oneLine_places (k n : Nat) : OneLine (places k n) :=
  OneLine.of_not_space fun _ hc => not_space_of_isDigit (isDigit_of_mem_places hc)

theorem oneLine_elapsedLine (seconds : Int) (nanoseconds : Nat) :
    OneLine (elapsedLine seconds nanoseconds) := by
  refine OneLine.append (by decide +kernel) ((oneLine_ofInt seconds).append ?_)
  refine OneLine.append (s := ['.']) (by decide) ((oneLine_places 9 nanoseconds).append ?_)
  decide +kernel

theorem oneLine_avgLine (time : Lf) : OneLine (avgLine time) := by
  refine OneLine.append (by decide +kernel) (OneLine.append (s := [' ']) (by decide) ?_)
  refine (OneLine.of_not_space fun c hc => Lf.print_not_space hc).append ?_
  exact OneLine.append (s := [' ']) (by decide) (by decide +kernel)

theorem startsWith_iterLine (iter : Int) : startsWith (iterLine iter) elapseTime = false := by
  rw [elapseTime_eq]
  rfl

theorem startsWith_elapsedLine (seconds : Int) (nanoseconds : Nat) :
    startsWith (elapsedLine seconds nanoseconds) elapseTime = false := by
  rw [elapseTime_eq]
  rfl

theorem startsWith_avgLine (time : Lf) : startsWith (avgLine time) elapseTime = true :=
  startsWith_iff.mpr (List.prefix_append _ _)

theorem find?_doBenchmarkUserspace (iter seconds : Int) (nanoseconds : Nat) (time : Lf)
    (after : Text) :
    (splitLines (doBenchmarkUserspace iter seconds nanoseconds time ++ after)).find?
      (startsWith · elapseTime) = some (avgLine time) := by
  have htext : doBenchmarkUserspace iter seconds nanoseconds time ++ after =
      iterLine iter ++ '\n' :: (elapsedLine seconds nanoseconds ++ '\n' ::
        (avgLine time ++ '\n' :: ('\n' :: after))) := by
    simp [doBenchmarkUserspace]
  rw [htext, splitLines_line (oneLine_iterLine iter),
    splitLines_line (oneLine_elapsedLine seconds nanoseconds),
    splitLines_line (oneLine_avgLine time), List.find?_cons, startsWith_iterLine,
    List.find?_cons, startsWith_elapsedLine, List.find?_cons, startsWith_avgLine]

/-- The word before the last is the time. -/
theorem itemFromEnd_avgLine (time : Lf) :
    itemFromEnd (words (avgLine time)) 2 = .ok time.print := by
  have hns : words "ns".toList = ["ns".toList] := by decide +kernel
  rw [avgLine, words_append isSpace_blank, words_append isSpace_blank, hns,
    words_word (Lf.print_ne_nil _) (fun _ hc => Lf.print_not_space hc), itemFromEnd,
    if_pos (by simp), item]
  simp

end Embed

/-- The time comes through, and a run that fails counts as infinite. -/
theorem handleEmbedVictimOut_output (run : EmbedRun) :
    handleEmbedVictimOut run.output = .ok run.time := by
  cases run with
  | failed output silent =>
      have hnone := find?_silent silent []
      rw [List.append_nil] at hnone
      rw [handleEmbedVictimOut, EmbedRun.output, hnone]
      rfl
  | measured before silent ended iter seconds nanoseconds time after =>
      have hlines : (splitLines (EmbedRun.measured before silent ended iter seconds nanoseconds
          time after).output).find? (startsWith · elapseTime) = some (Embed.avgLine time) := by
        rw [EmbedRun.output]
        rcases ended with hempty | hnewline
        · rw [hempty, List.nil_append, Embed.find?_doBenchmarkUserspace]
        · rw [splitLines_append hnewline, find?_silent silent,
            Embed.find?_doBenchmarkUserspace]
      rw [handleEmbedVictimOut, hlines]
      simp only [Embed.itemFromEnd_avgLine, ok_bind, floatOf, Lf.float_print]
      rfl

/-- What the victim reports in each run. -/
def timesOf (numRuns : Int) (victim : Nat → VictimRun) : List (Dict Text PyFloat) :=
  (List.range numRuns.toNat).map fun i => (victim i).times

def embedTimes (numRuns : Int) (victim : Nat → EmbedRun) : List PyFloat :=
  (List.range numRuns.toNat).map fun i => (victim i).time

/-- The first run is there. -/
theorem pos_of_firstNamesAll {numRuns : Int} {victim : Nat → VictimRun}
    (h : FirstNamesAll (timesOf numRuns victim)) : 0 < numRuns := by
  by_contra hle
  have hzero : numRuns.toNat = 0 := Int.toNat_of_nonpos (not_lt.mp hle)
  rw [timesOf, hzero] at h
  exact h

/-- The results of a leg: each benchmark of any run, with all its times. -/
structure LegOf (sqrt : ℚ → ℚ) (runs : List (Dict Text PyFloat)) (leg : Dict Text FloatSummary) :
    Prop where
  names : ∀ k, k ∈ leg ↔ ∃ run ∈ runs, k ∈ run
  summaries : ∀ k s, leg.get? k = some s → SummaryOf sqrt (reported runs k) s

variable {sqrt : ℚ → ℚ} {runs : List (Dict Text PyFloat)}

theorem reported_ne_nil {k : Text} (h : ∃ run ∈ runs, k ∈ run) : reported runs k ≠ [] := by
  obtain ⟨run, hrun, hk⟩ := h
  obtain ⟨v, hv⟩ := Dict.mem_iff_get?.mp hk
  exact List.ne_nil_of_mem (List.mem_filterMap.mpr ⟨run, hrun, hv⟩)

theorem collected_all (runs : List (Dict Text PyFloat)) :
    Collected runs (runs.foldl absorb Dict.empty) := collected_foldl collected_empty runs

theorem legOf_collected (sqrt : ℚ → ℚ) {d : Dict Text (List PyFloat)} (h : Collected runs d) :
    ∃ leg, Uprobe.handleResult (floats sqrt) d = .ok leg ∧
      Mpk.handleResult (floats sqrt) d = .ok leg ∧ LegOf sqrt runs leg := by
  obtain ⟨summary, hsummary, hhandle⟩ := handleResult_floats sqrt
  have hreported : ∀ k v, d.get? k = some v → v = reported runs k ∧ v ≠ [] := by
    intro k v hv
    have hk : k ∈ d := Dict.mem_iff_get?.mpr ⟨v, hv⟩
    rw [h.values k hk, Option.some.injEq] at hv
    exact ⟨hv.symm, hv ▸ reported_ne_nil ((h.names k).mp hk)⟩
  obtain ⟨huprobe, hmpk⟩ := hhandle d fun k v hv => (hreported k v hv).2
  refine ⟨_, huprobe, hmpk, fun k => ?_, fun k s hs => ?_⟩
  · rw [Dict.mem_mapValues, h.names]
  · rw [Dict.get?_mapValues, Option.map_eq_some_iff] at hs
    obtain ⟨v, hv, rfl⟩ := hs
    obtain ⟨rfl, hne⟩ := hreported k v hv
    exact hsummary _ hne

theorem collectUprobe_printed (numRuns : Int) (victim : Nat → VictimRun) :
    collectUprobe (printedBy numRuns fun i => (victim i).output) =
      userspaceUprobeResult (timesOf numRuns victim) := by
  rw [collectUprobe, userspaceUprobeResult, printedBy, timesOf, List.foldlM_map, List.foldlM_map]
  simp only [(VictimRun.parse _).1, ok_bind]

theorem collectMpk_printed (numRuns : Int) (victim : Nat → VictimRun) :
    collectMpk (printedBy numRuns fun i => (victim i).output) =
      mpkResult (timesOf numRuns victim) := by
  rw [collectMpk, mpkResult, printedBy, timesOf, List.foldlM_map, List.foldlM_map]
  simp only [(VictimRun.parse _).2, ok_bind]

theorem raise_ok {α : Type} {x : Except PyError α} {a : α} (h : x = .ok a) :
    raise x = .ok a := by
  rw [h]
  rfl

/-- A uprobe leg ends exactly if there is a first run and it reports every name. -/
theorem uprobeLeg_printed (sqrt : ℚ → ℚ) (numRuns : Int) (victim : Nat → VictimRun) :
    ReturnsIff (uprobeLeg sqrt (printedBy numRuns fun i => (victim i).output))
      (FirstNamesAll (timesOf numRuns victim)) (LegOf sqrt (timesOf numRuns victim)) := by
  rw [uprobeLeg, collectUprobe_printed]
  constructor
  · intro h
    obtain ⟨leg, hleg, -, hof⟩ := legOf_collected sqrt (collected_all (timesOf numRuns victim))
    rw [userspaceUprobeResult_of_namesAll h]
    exact ⟨leg, raise_ok hleg, hof⟩
  · intro h
    cases hresult : userspaceUprobeResult (timesOf numRuns victim) with
    | error e => exact ⟨_, rfl⟩
    | ok result =>
        cases result with
        | none => exact ⟨_, rfl⟩
        | some d => exact absurd (namesAll_of_userspaceUprobeResult hresult) h

/-- A leg of the mpk suite ends whatever names the runs report. -/
theorem mpkLeg_printed (sqrt : ℚ → ℚ) (numRuns : Int) (victim : Nat → VictimRun) :
    Returns (mpkLeg sqrt (printedBy numRuns fun i => (victim i).output))
      (LegOf sqrt (timesOf numRuns victim)) := by
  obtain ⟨leg, -, hleg, hof⟩ := legOf_collected sqrt (collected_all (timesOf numRuns victim))
  rw [mpkLeg, collectMpk_printed, mpkResult_eq]
  exact ⟨leg, raise_ok hleg, hof⟩

/-- The leg of the embedded VM ends if there is a run. -/
theorem runEmbedVmTest_printed (sqrt : ℚ → ℚ) {numRuns : Int} (h : 0 < numRuns)
    (victim : Nat → EmbedRun) :
    Returns (runEmbedVmTest sqrt (printedBy numRuns fun i => (victim i).output)) fun leg =>
      ∃ s, leg = Dict.empty.set embedName s ∧ SummaryOf sqrt (embedTimes numRuns victim) s := by
  have htimes : (printedBy numRuns fun i => (victim i).output).mapM handleEmbedVictimOut =
      .ok (embedTimes numRuns victim) := by
    rw [printedBy, embedTimes, List.mapM_map]
    exact mapM_ok fun i _ => handleEmbedVictimOut_output (victim i)
  have hne : embedTimes numRuns victim ≠ [] := by
    simpa [embedTimes] using h
  obtain ⟨summary, hsummary, hhandle⟩ := handleResult_floats sqrt
  obtain ⟨hresult, -⟩ := hhandle (Dict.empty.set embedName (embedTimes numRuns victim))
    fun k v hv => by
      rw [Dict.get?_set, Dict.get?_empty] at hv
      split at hv
      · exact Option.some.inj hv ▸ hne
      · cases hv
  rw [runEmbedVmTest, htimes]
  exact ⟨_, raise_ok hresult, summary (embedTimes numRuns victim), rfl, hsummary _ hne⟩

section Mains

variable (runKernel : Bool) (numRuns : Int) (kernel userspace : Nat → VictimRun)
  (embed : Nat → EmbedRun)

/-- What the kernel leg adds to the results of the uprobe suite. -/
def KernelLegOf (sqrt : ℚ → ℚ) (k : Dict Text Metrics) : Prop :=
  if runKernel then
    ∃ leg, k = leg.mapValues .numbers ∧ LegOf sqrt (timesOf numRuns kernel) leg
  else k = skippedLeg

/-- What `main` of the uprobe suite hands to the report. -/
structure Uprobe.OutOf (sqrt : ℚ → ℚ) (out : Uprobe.Out) : Prop where
  kernelUprobe : KernelLegOf runKernel numRuns kernel sqrt out.kernelUprobe
  userspaceUprobe : ∃ leg, out.userspaceUprobe = leg.mapValues .numbers ∧
    LegOf sqrt (timesOf numRuns userspace) leg
  embed : ∃ s, out.embed = Dict.empty.set embedName (.numbers s) ∧
    SummaryOf sqrt (embedTimes numRuns embed) s

theorem kernelLeg_printed (sqrt : ℚ → ℚ) :
    ReturnsIff (kernelLeg sqrt runKernel (printedBy numRuns fun i => (kernel i).output))
      (runKernel = true → FirstNamesAll (timesOf numRuns kernel))
      (KernelLegOf runKernel numRuns kernel sqrt) := by
  cases runKernel with
  | false =>
      have hskipped : Returns (kernelLeg sqrt false (printedBy numRuns fun i =>
          (kernel i).output)) (KernelLegOf false numRuns kernel sqrt) := returns_ok rfl
      exact (returnsIff_of_returns hskipped).congr (by simp)
  | true =>
      have hleg := returnsIff_bind (uprobeLeg_printed sqrt numRuns kernel)
        (Q := KernelLegOf true numRuns kernel sqrt)
        fun leg hleg => returnsIff_of_returns (returns_ok ⟨leg, rfl, hleg⟩)
      exact hleg.congr (by simp)

/-- From what the victims print to the results: the uprobe suite comes to them exactly if
in both legs there is a first run and it reports every name, and then they are the true
statistics of all printed times. -/
theorem uprobe_main_printed (sqrt : ℚ → ℚ) :
    ReturnsIff
      (Uprobe.main sqrt runKernel numRuns (fun i => (kernel i).output)
        (fun i => (userspace i).output) (fun i => (embed i).output))
      ((runKernel = true → FirstNamesAll (timesOf numRuns kernel)) ∧
        FirstNamesAll (timesOf numRuns userspace))
      (Uprobe.OutOf runKernel numRuns kernel userspace embed sqrt) := by
  refine returnsIff_bind (kernelLeg_printed runKernel numRuns kernel sqrt) fun k hk => ?_
  have huserspace : ReturnsIff (runUserspaceUprobeTest sqrt (printedBy numRuns fun i =>
      (userspace i).output)) (FirstNamesAll (timesOf numRuns userspace))
      (fun leg => 0 < numRuns ∧ LegOf sqrt (timesOf numRuns userspace) leg) := by
    obtain ⟨hends, hfails⟩ := uprobeLeg_printed sqrt numRuns userspace
    exact ⟨fun h => returns_mono (hends h) fun leg hleg => ⟨pos_of_firstNamesAll h, hleg⟩, hfails⟩
  refine (returnsIff_bind huserspace fun u hu => returnsIff_of_returns ?_).congr (by rw [and_true])
  refine returns_bind (runEmbedVmTest_printed sqrt hu.1 embed) fun e he => ?_
  obtain ⟨s, rfl, hs⟩ := he
  exact ⟨_, rfl, hk, ⟨u, rfl, hu.2⟩, s, rfl, hs⟩

/-- The mpk suite comes to its results whatever names the runs report. -/
theorem mpk_main_printed (sqrt : ℚ → ℚ) (mpk standard : Nat → VictimRun) :
    Returns (Mpk.main sqrt numRuns (fun i => (mpk i).output) (fun i => (standard i).output))
      fun results => LegOf sqrt (timesOf numRuns mpk) results.mpk ∧
        LegOf sqrt (timesOf numRuns standard) results.standard := by
  refine returns_bind (mpkLeg_printed sqrt numRuns mpk) fun mpkResults hmpk => ?_
  refine returns_bind (mpkLeg_printed sqrt numRuns standard) fun standardResults hstandard => ?_
  exact ⟨_, rfl, hmpk, hstandard⟩

end Mains

end BpftimeBenchmark.Micro
