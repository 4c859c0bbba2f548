import BpftimeBenchmark.Lib.TextOrder
import BpftimeBenchmark.Micro.Suites

/-!
`generate_markdown_report` of `uprobe/benchmark.py`: the rows of its tables and its note
about failures, from what the victims of the suite printed.
-/

namespace BpftimeBenchmark.Micro.Uprobe

open Text

/-- The format `.2f`. -/
def two : PyFloat → Text
  | .finite q => fixedTwo q
  | .infinite negative => if negative then "-inf".toList else "inf".toList
  | .nan => "nan".toList

def twoOrSign (x : PyFloat) : Text := if x = .infinite false then "∞".toList else two x

/-- `env_info`. -/
structure EnvInfo where
  os : Text
  cpu : Text
  memory : Text
  date : Text
  python : Text

/-- `benchmark_info`. -/
structure BenchmarkInfo where
  numRuns : Int
  timestamp : Text
  totalDurationSeconds : PyFloat

def row (cells : List Text) : Text :=
  "| ".toList ++ (join " | ".toList cells ++ " |".toList)

def heading (env : EnvInfo) : List Text :=
  ["# BPFtime Uprobe Benchmark Results\n".toList,
    "*Generated on ".toList ++ env.date ++ "*\n".toList,
    "## Environment\n".toList,
    "- **OS:** ".toList ++ env.os,
    "- **CPU:** ".toList ++ env.cpu,
    "- **Memory:** ".toList ++ env.memory,
    "- **Python:** ".toList ++ env.python,
    "\n## Summary\n".toList,
    "This benchmark compares three different eBPF execution environments:".toList,
    "- **Kernel Uprobe**: Traditional kernel-based eBPF uprobes".toList,
    "- **Userspace Uprobe**: BPFtime's userspace implementation of uprobes".toList,
    "- **Embedded VM**: BPFtime's embedded eBPF VM".toList,
    "\n*Times shown in nanoseconds (ns) - lower is better*\n".toList]

def summaryHeading : List Text :=
  ["### Core Uprobe Performance Summary\n".toList,
    "| Operation | Kernel Uprobe | Userspace Uprobe | Speedup |".toList,
    "|-----------|---------------|------------------|---------|".toList]

def uprobeTests : List Text :=
  ["__bench_uprobe".toList, "__bench_uretprobe".toList, "__bench_uprobe_uretprobe".toList]

/-- `results_json[category][test]["avg"]`. -/
def avgOf (leg : Dict Text Metrics) (test : Text) : Except SuiteError PyFloat := do
  match ← raise (leg.get test) with
  | .numbers s => return s.avg
  | .message _ => .error .typeError

def speedup (kernelAvg userAvg : PyFloat) : Except SuiteError Text :=
  if (PyFloat.finite 0).lt userAvg then do
    let speedup ← raise (kernelAvg.quotient userAvg)
    return two speedup ++ "x".toList
  else return "N/A".toList

def summaryRows (out : Out) (test : Text) : Except SuiteError (List Text) :=
  if test ∈ out.kernelUprobe ∧ test ∈ out.userspaceUprobe then do
    let kernelAvg ← avgOf out.kernelUprobe test
    let userAvg ← avgOf out.userspaceUprobe test
    let speedup ← speedup kernelAvg userAvg
    return [row [test, two kernelAvg, two userAvg, speedup]]
  else return []

def detailHeading : List Text :=
  ["\n### Kernel vs Userspace eBPF Detailed Comparison\n".toList,
    "| Operation | Environment | Min (ns) | Max (ns) | Avg (ns) | Std Dev |".toList,
    "|-----------|-------------|----------|----------|----------|---------|".toList]

inductive Environment where
  | kernel
  | userspace
  deriving DecidableEq

def Environment.shown : Environment → Text
  | .kernel => "Kernel".toList
  | .userspace => "Userspace".toList

def Out.leg (out : Out) : Environment → Dict Text Metrics
  | .kernel => out.kernelUprobe
  | .userspace => out.userspaceUprobe

def sortedOperations (out : Out) : List Text :=
  sortedSet (out.kernelUprobe.keys ++ out.userspaceUprobe.keys)

def numberCells (s : FloatSummary) : List Text :=
  [twoOrSign s.min, twoOrSign s.max, twoOrSign s.avg, two s.stdDev]

/-- What one turn of the inner loop adds; a message has no row. -/
def detailRow (out : Out) (op : Text) (env : Environment) : List Text :=
  match (out.leg env).get? op with
  | some (.numbers s) => [row (op :: env.shown :: numberCells s)]
  | _ => []

def detailRows (out : Out) : List Text :=
  (sortedOperations out).flatMap fun op =>
    [Environment.kernel, .userspace].flatMap fun env => detailRow out op env

def embedHeading : List Text :=
  ["\n### Embedded VM Performance\n".toList,
    "| Operation | Min (ns) | Max (ns) | Avg (ns) | Std Dev |".toList,
    "|-----------|----------|----------|----------|---------|".toList]

def embedRow : Text × Metrics → List Text
  | (op, .numbers s) => [row (op :: numberCells s)]
  | (_, .message _) => []

def metadata (info : BenchmarkInfo) : List Text :=
  ["\n## Benchmark Metadata\n".toList,
    "- **Number of runs:** ".toList ++ ofInt info.numRuns,
    "- **Timestamp:** ".toList ++ info.timestamp,
    "- **Total duration:** ".toList ++ two info.totalDurationSeconds ++ " seconds\n".toList]

def failureNote : Text :=
  ("⚠️ The embedded VM benchmark reported infinity values, " ++
    "which indicates failures or timeouts.").toList

def isInfinite : Metrics → Bool
  | .numbers s => s.avg = .infinite false
  | .message _ => false

def notes (embed : Dict Text Metrics) : List Text :=
  if embed.values.any isInfinite then ["\n## Notes\n".toList, failureNote] else []

/-- `generate_markdown_report` up to the file, line by line. -/
def generateMarkdownReport (env : EnvInfo) (info : BenchmarkInfo) (out : Out) :
    Except SuiteError (List Text) := do
  let summary ← uprobeTests.mapM (summaryRows out)
  return heading env ++ summaryHeading ++ summary.flatten ++ detailHeading ++ detailRows out ++
    embedHeading ++ out.embed.entries.flatMap embedRow ++ metadata info ++ notes out.embed

/-- The report of the suite from what its victims print. -/
def reportOfSuite (sqrt : ℚ → ℚ) (env : EnvInfo) (timestamp : Text) (duration : PyFloat)
    (runKernel : Bool) (numRuns : Int) (kernel userspace embed : Nat → Text) :
    Except SuiteError (List Text) := do
  let out ← main sqrt runKernel numRuns kernel userspace embed
  generateMarkdownReport env ⟨numRuns, timestamp, duration⟩ out

/-- The line begins in another way than the note. -/
def unmarked (l : Text) : Bool := decide (l.head? ≠ some '⚠')

theorem unmarked_heading (env : EnvInfo) : (heading env).all unmarked = true := rfl

theorem unmarked_metadata (info : BenchmarkInfo) : (metadata info).all unmarked = true := rfl

theorem unmarked_headings :
    (summaryHeading ++ detailHeading ++ embedHeading).all unmarked = true := by
  decide +kernel

theorem unmarked_failureNote : unmarked failureNote = false := by decide +kernel

theorem unmarked_detailRow (out : Out) (op : Text) (env : Environment) :
    (detailRow out op env).all unmarked = true := by
  unfold detailRow
  split <;> rfl

theorem returns_avgOf {leg : Dict Text Metrics} {test : Text} {s : FloatSummary}
    (h : leg.get? test = some (.numbers s)) : Returns (avgOf leg test) fun _ => True := by
  rw [avgOf, Dict.get_eq_ok.mpr h]
  exact ⟨_, rfl, trivial⟩

/-- Only an average above zero is divided by. -/
theorem returns_speedup (kernelAvg userAvg : PyFloat) :
    Returns (speedup kernelAvg userAvg) fun _ => True := by
  refine returns_ite (fun hpos => ?_) fun _ => returns_ok trivial
  have hne : userAvg ≠ .finite 0 := by
    rintro rfl
    cases hpos
  unfold PyFloat.quotient
  rw [if_neg hne]
  exact ⟨_, rfl, trivial⟩

section Report

variable {sqrt : ℚ → ℚ} {runKernel : Bool} {numRuns : Int} {kernel userspace : Nat → VictimRun}
  {embed : Nat → EmbedRun} {out : Out}

/-- The runs behind the rows of an environment. -/
def runsOf (runKernel : Bool) (numRuns : Int) (kernel userspace : Nat → VictimRun) :
    Environment → List (Dict Text PyFloat)
  | .kernel => if runKernel then timesOf numRuns kernel else []
  | .userspace => timesOf numRuns userspace

/-- The numbers of a leg are those of its runs. -/
structure NumbersOf (sqrt : ℚ → ℚ) (runs : List (Dict Text PyFloat)) (leg : Dict Text Metrics) :
    Prop where
  complete : ∀ op, (∃ run ∈ runs, op ∈ run) → ∃ s, leg.get? op = some (.numbers s)
  sound : ∀ op s, leg.get? op = some (.numbers s) →
    (∃ run ∈ runs, op ∈ run) ∧ SummaryOf sqrt (reported runs op) s

theorem numbersOf_mapValues {runs : List (Dict Text PyFloat)} {leg : Dict Text FloatSummary}
    (h : LegOf sqrt runs leg) : NumbersOf sqrt runs (leg.mapValues .numbers) where
  complete op hop := by
    obtain ⟨s, hs⟩ := Dict.mem_iff_get?.mp ((h.names op).mpr hop)
    exact ⟨s, by rw [Dict.get?_mapValues, hs, Option.map_some]⟩
  sound op s hs := by
    rw [Dict.get?_mapValues, Option.map_eq_some_iff] at hs
    obtain ⟨s', hs', heq⟩ := hs
    cases heq
    exact ⟨(h.names op).mp (Dict.mem_iff_get?.mpr ⟨s, hs'⟩), h.summaries op s hs'⟩

theorem get?_skippedLeg {op : Text} {m : Metrics} (h : skippedLeg.get? op = some m) :
    op = "skipped".toList ∧ ∃ text, m = .message text := by
  rw [skippedLeg, Dict.get?_set] at h
  split at h
  · exact ⟨‹_›, _, (Option.some.inj h).symm⟩
  · cases h

/-- A leg has the numbers of its runs, or it is the one that was skipped. -/
theorem OutOf.leg_cases (h : OutOf runKernel numRuns kernel userspace embed sqrt out)
    (env : Environment) :
    (∃ leg, out.leg env = leg.mapValues .numbers ∧
      LegOf sqrt (runsOf runKernel numRuns kernel userspace env) leg) ∨
    (out.leg env = skippedLeg ∧ runsOf runKernel numRuns kernel userspace env = []) := by
  cases env with
  | kernel =>
      have hleg := h.kernelUprobe
      cases runKernel with
      | false => exact .inr ⟨hleg, rfl⟩
      | true => exact .inl hleg
  | userspace => exact .inl h.userspaceUprobe

theorem OutOf.numbersOf (h : OutOf runKernel numRuns kernel userspace embed sqrt out)
    (env : Environment) :
    NumbersOf sqrt (runsOf runKernel numRuns kernel userspace env) (out.leg env) := by
  rcases h.leg_cases env with ⟨leg, heq, hof⟩ | ⟨heq, hruns⟩
  · rw [heq]
    exact numbersOf_mapValues hof
  · rw [heq, hruns]
    refine ⟨fun op hop => ?_, fun op s hs => ?_⟩
    · obtain ⟨run, hrun, -⟩ := hop
      cases hrun
    · obtain ⟨-, text, hmessage⟩ := get?_skippedLeg hs
      cases hmessage

theorem OutOf.numbers (h : OutOf runKernel numRuns kernel userspace embed sqrt out)
    (env : Environment) {op : Text} (hop : op ∈ out.leg env) (hne : op ≠ "skipped".toList) :
    ∃ s, (out.leg env).get? op = some (.numbers s) := by
  obtain ⟨m, hm⟩ := Dict.mem_iff_get?.mp hop
  rcases h.leg_cases env with ⟨leg, heq, -⟩ | ⟨heq, -⟩
  · rw [heq, Dict.get?_mapValues] at hm
    obtain ⟨s, hs, -⟩ := Option.map_eq_some_iff.mp hm
    exact ⟨s, by rw [heq, Dict.get?_mapValues, hs, Option.map_some]⟩
  · rw [heq] at hm
    exact absurd (get?_skippedLeg hm).1 hne

theorem returns_summaryRows (h : OutOf runKernel numRuns kernel userspace embed sqrt out)
    {test : Text} (htest : test ∈ uprobeTests) :
    Returns (summaryRows out test) fun rows => rows.all unmarked = true := by
  have hne : test ≠ "skipped".toList := by
    have htests : ∀ test ∈ uprobeTests, test ≠ "skipped".toList := by decide +kernel
    exact htests test htest
  refine returns_ite (fun hboth => ?_) fun _ => returns_ok rfl
  obtain ⟨k, hk⟩ := h.numbers .kernel hboth.1 hne
  obtain ⟨u, hu⟩ := h.numbers .userspace hboth.2 hne
  refine returns_bind (returns_avgOf hk) fun kernelAvg _ => ?_
  refine returns_bind (returns_avgOf hu) fun userAvg _ => ?_
  exact returns_bind (returns_speedup kernelAvg userAvg) fun _ _ => returns_ok rfl

/-- Of the lines of the report only the note itself begins as it does. -/
theorem failureNote_mem_iff (h : OutOf runKernel numRuns kernel userspace embed sqrt out)
    (env : EnvInfo) (info : BenchmarkInfo) {summary : List (List Text)}
    (hsummary : ∀ rows ∈ summary, rows.all unmarked = true) :
    failureNote ∈ heading env ++ summaryHeading ++ summary.flatten ++ detailHeading ++
        detailRows out ++ embedHeading ++ out.embed.entries.flatMap embedRow ++ metadata info ++
        notes out.embed ↔ failureNote ∈ notes out.embed := by
  have hlines {lines : List Text} (hall : lines.all unmarked = true) : failureNote ∉ lines := by
    intro hmem
    have hnote := List.all_eq_true.mp hall _ hmem
    rw [unmarked_failureNote] at hnote
    cases hnote
  have hheadings := unmarked_headings
  simp only [List.all_append, Bool.and_eq_true] at hheadings
  have hflat : summary.flatten.all unmarked = true := by
    rw [List.all_flatten]
    exact List.all_eq_true.mpr hsummary
  have hdetail : (detailRows out).all unmarked = true := by
    simp [detailRows, List.all_flatMap, unmarked_detailRow]
  have hembed : (out.embed.entries.flatMap embedRow).all unmarked = true := by
    obtain ⟨s, hs, -⟩ := h.embed
    rw [hs]
    rfl
  simp only [List.mem_append, hlines (unmarked_heading env), hlines hheadings.1.1, hlines hflat,
    hlines hheadings.1.2, hlines hdetail, hlines hheadings.2, hlines hembed,
    hlines (unmarked_metadata info), false_or]

theorem failureNote_mem_notes {s : FloatSummary} :
    failureNote ∈ notes (Dict.empty.set embedName (.numbers s)) ↔ s.avg = .infinite false := by
  have hvalues : (Dict.empty.set embedName (Metrics.numbers s)).values.any isInfinite =
      decide (s.avg = .infinite false) := Bool.or_false _
  rw [notes, hvalues]
  by_cases havg : s.avg = .infinite false
  · simp [havg]
  · simp [havg]

/-- A row of the detailed table. -/
structure Row where
  op : Text
  env : Environment
  summary : FloatSummary

def Row.text (r : Row) : Text := row (r.op :: r.env.shown :: numberCells r.summary)

/-- Rows go by the benchmark, and the kernel stands before the userspace. -/
def Row.Before (a b : Row) : Prop :=
  (a.op ≠ b.op ∧ precedes a.op b.op = true) ∨
    (a.op = b.op ∧ a.env = .kernel ∧ b.env = .userspace)

/-- One row for each benchmark that the runs of an environment report, in order. -/
structure RowsOf (sqrt : ℚ → ℚ) (runs : Environment → List (Dict Text PyFloat))
    (rows : List Row) : Prop where
  sorted : rows.Pairwise Row.Before
  complete : ∀ op env, (∃ run ∈ runs env, op ∈ run) → ∃ r ∈ rows, r.op = op ∧ r.env = env
  sound : ∀ r ∈ rows, (∃ run ∈ runs r.env, r.op ∈ run) ∧
    SummaryOf sqrt (reported (runs r.env) r.op) r.summary

def rowsFor (out : Out) (op : Text) (env : Environment) : List Row :=
  match (out.leg env).get? op with
  | some (.numbers s) => [⟨op, env, s⟩]
  | _ => []

def rows (out : Out) : List Row :=
  (sortedOperations out).flatMap fun op =>
    [Environment.kernel, .userspace].flatMap fun env => rowsFor out op env

theorem mem_rowsFor {op : Text} {env : Environment} {r : Row} :
    r ∈ rowsFor out op env ↔
      r.op = op ∧ r.env = env ∧ (out.leg env).get? op = some (.numbers r.summary) := by
  unfold rowsFor
  split
  · rename_i s hs
    rw [List.mem_singleton, hs]
    constructor
    · rintro rfl
      exact ⟨rfl, rfl, rfl⟩
    · obtain ⟨op', env', s'⟩ := r
      rintro ⟨rfl, rfl, heq⟩
      cases heq
      rfl
  · rename_i hother
    constructor
    · exact fun hr => absurd hr List.not_mem_nil
    · rintro ⟨-, -, hs⟩
      exact absurd hs (hother _)

theorem detailRows_eq (out : Out) : detailRows out = (rows out).map Row.text := by
  have hfor (op : Text) (env : Environment) :
      detailRow out op env = (rowsFor out op env).map Row.text := by
    unfold detailRow rowsFor
    split <;> rfl
  simp only [detailRows, rows, List.map_flatMap, hfor]

theorem mem_sortedOperations {op : Text} {env : Environment} (h : op ∈ out.leg env) :
    op ∈ sortedOperations out := by
  refine mem_sortedSet.mpr (List.mem_append.mpr ?_)
  cases env with
  | kernel => exact .inl h
  | userspace => exact .inr h

theorem mem_rows {r : Row} :
    r ∈ rows out ↔ (out.leg r.env).get? r.op = some (.numbers r.summary) := by
  simp only [rows, List.mem_flatMap, mem_rowsFor]
  constructor
  · rintro ⟨op, -, env, -, rfl, rfl, hr⟩
    exact hr
  · intro hr
    refine ⟨r.op, mem_sortedOperations (Dict.mem_iff_get?.mpr ⟨_, hr⟩), r.env, ?_, rfl, rfl, hr⟩
    cases r.env <;> simp

theorem pairwise_rowsFor (op : Text) (env : Environment) (R : Row → Row → Prop) :
    (rowsFor out op env).Pairwise R := by
  unfold rowsFor
  split
  · exact List.pairwise_singleton _ _
  · exact List.Pairwise.nil

theorem pairwise_rows (out : Out) : (rows out).Pairwise Row.Before := by
  refine List.pairwise_flatMap.mpr ⟨fun op _ => List.pairwise_flatMap.mpr
    ⟨fun env _ => pairwise_rowsFor op env _, ?_⟩, ?_⟩
  · refine List.pairwise_pair.mpr fun a ha b hb => ?_
    obtain ⟨haop, haenv, -⟩ := mem_rowsFor.mp ha
    obtain ⟨hbop, hbenv, -⟩ := mem_rowsFor.mp hb
    exact .inr ⟨haop.trans hbop.symm, haenv, hbenv⟩
  · refine (pairwise_sortedSet _).imp fun {op op'} hop a ha b hb => ?_
    simp only [List.mem_flatMap, mem_rowsFor] at ha hb
    obtain ⟨-, -, haop, -⟩ := ha
    obtain ⟨-, -, hbop, -⟩ := hb
    exact .inl ⟨haop ▸ hbop ▸ hop.1, haop ▸ hbop ▸ hop.2⟩

theorem rowsOf_rows (h : OutOf runKernel numRuns kernel userspace embed sqrt out) :
    RowsOf sqrt (runsOf runKernel numRuns kernel userspace) (rows out) where
  sorted := pairwise_rows out
  complete op env hop := by
    obtain ⟨s, hs⟩ := (h.numbersOf env).complete op hop
    exact ⟨⟨op, env, s⟩, mem_rows.mpr hs, rfl, rfl⟩
  sound r hr := (h.numbersOf r.env).sound r.op r.summary (mem_rows.mp hr)

/-- What the report says about the runs. -/
structure ReportOf (sqrt : ℚ → ℚ) (runs : Environment → List (Dict Text PyFloat))
    (embedTimes : List PyFloat) (md : List Text) : Prop where
  rows : ∃ rows before after, RowsOf sqrt runs rows ∧
    md = before ++ (detailHeading ++ rows.map Row.text ++ embedHeading) ++ after
  embedRow : ∃ s, SummaryOf sqrt embedTimes s ∧ row (embedName :: numberCells s) ∈ md
  note : failureNote ∈ md ↔
    .nan ∉ embedTimes ∧ .infinite false ∈ embedTimes ∧ .infinite true ∉ embedTimes

theorem returns_report (h : OutOf runKernel numRuns kernel userspace embed sqrt out)
    (env : EnvInfo) (info : BenchmarkInfo) :
    Returns (generateMarkdownReport env info out)
      (ReportOf sqrt (runsOf runKernel numRuns kernel userspace) (embedTimes numRuns embed)) := by
  refine returns_bind (returns_mapM fun test htest => returns_summaryRows h htest)
    fun summary hsummary => returns_ok ?_
  obtain ⟨s, hembed, hs⟩ := h.embed
  refine ⟨⟨rows out, heading env ++ summaryHeading ++ summary.flatten,
    out.embed.entries.flatMap embedRow ++ metadata info ++ notes out.embed, rowsOf_rows h, ?_⟩,
    ⟨s, hs, ?_⟩, ?_⟩
  · rw [← detailRows_eq]
    simp
  · have hrow : out.embed.entries.flatMap embedRow = [row (embedName :: numberCells s)] := by
      rw [hembed]
      rfl
    simp [hrow]
  · rw [failureNote_mem_iff h env info hsummary, hembed, failureNote_mem_notes]
    exact hs.infinite false

end Report

/-- From what the victims print to the report: it is written exactly if in both legs there is
a first run and it reports every name. It has one row for each benchmark of an environment,
in order, with the statistics of all printed times, and it notes failures exactly if a run of
the embedded VM gave no time, or an infinite one, and none is `nan` or infinitely negative. -/
theorem report_of_suite (sqrt : ℚ → ℚ) (env : EnvInfo) (timestamp : Text) (duration : PyFloat)
    (runKernel : Bool) (numRuns : Int) (kernel userspace : Nat → VictimRun)
    (embed : Nat → EmbedRun) :
    ReturnsIff
      (reportOfSuite sqrt env timestamp duration runKernel numRuns (fun i => (kernel i).output)
        (fun i => (userspace i).output) (fun i => (embed i).output))
      ((runKernel = true → FirstNamesAll (timesOf numRuns kernel)) ∧
        FirstNamesAll (timesOf numRuns userspace))
      (ReportOf sqrt (runsOf runKernel numRuns kernel userspace) (embedTimes numRuns embed)) := by
  have hsuite := returnsIff_bind
    (uprobe_main_printed runKernel numRuns kernel userspace embed sqrt) fun out hout =>
      returnsIff_of_returns (returns_report hout env ⟨numRuns, timestamp, duration⟩)
  exact hsuite.congr (by rw [and_true])

end BpftimeBenchmark.Micro.Uprobe
