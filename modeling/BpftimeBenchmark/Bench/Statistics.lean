import BpftimeBenchmark.Bench.Report
import BpftimeBenchmark.Bench.SslNginx

/-!
What `print_statistics` of `ssl-nginx/benchmark.py` prints, in numbers that are rounded
in any way.
-/

namespace BpftimeBenchmark

namespace Text

/-- `str.replace` of one character. -/
def replaceChar (old new : Char) (s : Text) : Text := s.map fun c => if c = old then new else c

def titleFrom (inWord : Bool) : Text → Text
  | [] => []
  | c :: s => (if inWord then c.toLower else c.toUpper) :: titleFrom c.isAlpha s

/-- `str.title`, for text in ASCII. -/
def title (s : Text) : Text := titleFrom false s

end Text

namespace Bench.SslNginx

open Report

/-- The keys of `results` and `run_stats`. -/
def testName : Leg → Text
  | .baseline => "baseline".toList
  | .kernelSslsniff => "kernel_sslsniff".toList
  | .bpftimeSslsniff => "bpftime_sslsniff".toList

def title (leg : Leg) : Text := Text.title (Text.replaceChar '_' ' ' (testName leg))

def failureReasons : List (Reason × Text) :=
  [(.timeouts, "timeouts".toList), (.parseFailures, "parse_failures".toList),
    (.wrkFailures, "wrk_failures".toList), (.readinessFailures, "readiness_failures".toList),
    (.attachFailures, "attach_failures".toList), (.exceptions, "exceptions".toList)]

def println (line : Text) : Text := line ++ ['\n']

def printed (lines : List Text) : Text := lines.flatMap println

def titleLine (leg : Leg) : Text := "\n".toList ++ title leg ++ ":".toList

def breakdown (stats : Stats) : List Text :=
  (failureReasons.filter fun r => (stats.reasons r.1).getD 0 ≠ 0).map fun r =>
    r.2 ++ "=".toList ++ Text.ofNat ((stats.reasons r.1).getD 0)

def countLines (stats : Stats) : List Text :=
  ["  Valid runs:            ".toList ++ (Text.ofNat stats.validRuns ++ "/".toList ++
      Text.ofInt stats.targetRuns),
    "  Failed attempts:       ".toList ++ Text.ofNat stats.failedAttempts] ++
  (if breakdown stats = [] then []
    else ["  Failure breakdown:     ".toList ++ Text.join ", ".toList (breakdown stats)]) ++
  (if stats.retryAttempts = 0 then []
    else ["  Retry attempts:        ".toList ++ Text.ofNat stats.retryAttempts])

variable (N : Rounding)

def valueLines (values : List ℚ) : List Text :=
  if values = [] then ["  No valid results".toList]
  else requestLines N (measuresOf N values) values

def sectionLines (s : State) (leg : Leg) : List Text :=
  titleLine leg :: (countLines (s.runStats leg) ++ valueLines N (s.results leg))

def meanOf (s : State) (leg : Leg) : ℚ := N.nearest (Averages.mean (s.results leg))

/-- A comparison of two legs, if both have samples. -/
def comparisonLine (s : State) (first second : Leg) (difference : ℚ → ℚ → ℚ)
    (line : ℚ → Text) : List Text :=
  if s.results first ≠ [] ∧ s.results second ≠ [] then
    [line (percentageOf N (difference (meanOf N s first) (meanOf N s second))
      (meanOf N s first))]
  else []

def kernelImpactLine (v : ℚ) : Text :=
  "\nKernel sslsniff performance impact: ".toList ++ (Text.fixedTwo v ++ "% decrease".toList)

def bpftimeImpactLine (v : ℚ) : Text :=
  "bpftime sslsniff performance impact: ".toList ++ (Text.fixedTwo v ++ "% decrease".toList)

def improvementLine (v : ℚ) : Text :=
  "bpftime improvement over kernel: ".toList ++ (Text.fixedTwo v ++ "%".toList)

def comparisonLines (s : State) : List Text :=
  comparisonLine N s .baseline .kernelSslsniff (· - ·) kernelImpactLine ++
  comparisonLine N s .baseline .bpftimeSslsniff (· - ·) bpftimeImpactLine ++
  comparisonLine N s .kernelSslsniff .bpftimeSslsniff (fun kernel bpftime => bpftime - kernel)
    improvementLine

def traceLine (s : State) (leg : Leg) : Text :=
  let summaries := s.traceObservability leg
  if summaries = [] then "  ".toList ++ testName leg ++ ": no trace preflight".toList
  else
    let totalEvents := (summaries.map (·.eventCount)).sum
    let attachOk := summaries.countP (·.attachSuccess)
    "  ".toList ++ testName leg ++ ":".toList ++
      (" attach_success=".toList ++ Text.ofNat attachOk ++ "/".toList ++
        Text.ofNat summaries.length ++ " events=".toList ++ Text.ofNat totalEvents)

def legOrder : List Leg := [.baseline, .kernelSslsniff, .bpftimeSslsniff]

def statisticsLines (numRuns : Int) (s : State) : List Text :=
  ["\n=== Benchmark Results ===".toList,
    "Each configuration run ".toList ++ (Text.ofInt numRuns ++ " times".toList)] ++
  legOrder.flatMap (sectionLines N s) ++ comparisonLines N s ++
  ["\nTrace observability:".toList, traceLine s .kernelSslsniff, traceLine s .bpftimeSslsniff]

def printStatistics (numRuns : Int) (s : State) : Text := printed (statisticsLines N numRuns s)

end Bench.SslNginx

end BpftimeBenchmark
