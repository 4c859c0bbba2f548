import BpftimeBenchmark.Bench.Processes

/-!
The harness `ssl-nginx/benchmark.py`: nginx with TLS under `wrk`, alone, with
`sslsniff` in the kernel and with `sslsniff` under bpftime. The command lines
and what is only printed or saved are left out.
-/

namespace BpftimeBenchmark.Bench.SslNginx

open Scripts

inductive Leg where
  | baseline
  | kernelSslsniff
  | bpftimeSslsniff
  deriving DecidableEq

/-- The keys of `run_stats` that count failures. -/
inductive Reason where
  | timeouts
  | parseFailures
  | wrkFailures
  | readinessFailures
  | attachFailures
  | exceptions
  deriving DecidableEq

/-- A leg has only some of the counters of failures; the others are absent. Only
bpftime has retries, which are read with default zero. -/
structure Stats where
  targetRuns : Int
  validRuns : Nat
  failedAttempts : Nat
  reasons : Reason → Option Nat
  retryAttempts : Nat

structure Summary where
  eventCount : Nat
  attachMarkers : List Text
  attachStarted : Bool
  attachSuccess : Bool

structure State where
  results : Leg → List ℚ
  runStats : Leg → Stats
  traceObservability : Leg → List Summary

/-- The settings, with `NUM_RUNS` as `--test` leaves it. -/
structure Config where
  numRuns : Int
  bpftimeRetries : Int
  benchOrder : List Text

def initialReasons : Leg → Reason → Option Nat
  | .baseline, .readinessFailures => none
  | .baseline, .attachFailures => none
  | .kernelSslsniff, .readinessFailures => none
  | _, _ => some 0

def initialStats (cfg : Config) (leg : Leg) : Stats where
  targetRuns := cfg.numRuns
  validRuns := 0
  failedAttempts := 0
  reasons := initialReasons leg
  retryAttempts := 0

def initial (cfg : Config) : State where
  results := fun _ => []
  runStats := initialStats cfg
  traceObservability := fun _ => []

def State.setStats (s : State) (leg : Leg) (f : Stats → Stats) : State :=
  { s with runStats := fun l => if l = leg then f (s.runStats l) else s.runStats l }

def Stats.addReason (stats : Stats) (reason : Reason) : Stats :=
  { stats with reasons := fun r =>
      if r = reason then (stats.reasons r).map (· + 1) else stats.reasons r }

def State.addResult (s : State) (leg : Leg) (v : ℚ) : State :=
  { s with results := fun l => if l = leg then s.results l ++ [v] else s.results l }

def State.addTrace (s : State) (leg : Leg) (summary : Summary) : State :=
  { s with traceObservability := fun l =>
      if l = leg then s.traceObservability l ++ [summary] else s.traceObservability l }

variable {ρ : Type}

def markValid (testName : Leg) : Py State ρ Unit :=
  Script.update fun s =>
    s.setStats testName fun st => { st with validRuns := st.validRuns + 1 }

def markFailed (testName : Leg) (reason : Reason) : Py State ρ Unit := do
  Script.update fun s =>
    s.setStats testName fun st => { st with failedAttempts := st.failedAttempts + 1 }
  let s ← Script.read
  Script.when ((s.runStats testName).reasons reason).isSome do
    Script.update fun s => s.setStats testName fun st => st.addReason reason

def isEvent (line : Text) : Bool :=
  Text.startsWith line "READ/RECV".toList || Text.startsWith line "WRITE/SEND".toList ||
    Text.startsWith line "HANDSHAKE".toList

def attachTexts : List Text :=
  ["OpenSSL path:".toList, "GnuTLS path:".toList, "NSS path:".toList]

def hardErrorTexts : List Text :=
  ["no program attached".toList, "failed to open perf buffer".toList, "ERROR:".toList,
    "Error:".toList]

def traceSummary (stdout stderr : Text) : Summary :=
  let attachMarkers := attachTexts.filter (fun marker => stdout.contains marker)
  let hardErrorMarkers := hardErrorTexts.filter
    (fun marker => stdout.contains marker || stderr.contains marker)
  { eventCount := (Text.splitLines stdout).countP isEvent
    attachMarkers := attachMarkers
    attachStarted := !attachMarkers.isEmpty
    attachSuccess := !attachMarkers.isEmpty && hardErrorMarkers.isEmpty }

/-- What `collect_trace_preflight` appends when something went wrong. -/
def noTrace : Summary where
  eventCount := 0
  attachMarkers := []
  attachStarted := false
  attachSuccess := false

def appendTrace (testName : Leg) (summary : Summary) : Py State ρ Summary := do
  Script.update fun s => s.addTrace testName summary
  pure summary

def summarizeTraceOutput (testName : Leg) (output : Text × Text) : Py State ρ Summary :=
  appendTrace testName (traceSummary output.1 output.2)

def collectTracePreflight (testName : Leg) : Py State ρ Summary := Script.func do
  setProc .traceCheck false
  Script.tryExcept (do
    popen .traceCheck
    ask .sleep
    let ended ← ask (.poll .traceCheck)
    Script.when ended.isSome do
      let output ← act (.communicate .traceCheck)
      let summary ← summarizeTraceOutput testName output
      Script.ret summary
    let _ ← act (.run (.curlTrace .traceCheck))
    terminateProcess .traceCheck
    let output ← act (.communicate .traceCheck)
    summarizeTraceOutput testName output)
    (onException do
      terminateProcess .traceCheck
      let started ← holds .traceCheck
      Script.when started do
        let _ ← ask (.poll .traceCheck)
      appendTrace testName noTrace)

def traceIsEffective (summary : Summary) : Bool :=
  summary.attachSuccess && decide (0 < summary.eventCount)

def waitForNginxReady (proc : Proc) : Py State ρ Bool := Script.func do
  let rounds ← ask .readyRounds
  let _ ← Script.forFrom (fun _ => do
    let ended ← ask (.poll proc)
    Script.when ended.isSome do
      let _ ← act (.communicate proc)
      Script.ret false
    Script.tryExcept (do
      let curlCheck ← act (.run .curlStatus)
      Script.when (Text.strip curlCheck.stdout = "200".toList) (Script.ret true))
      (onException (pure ()))
    ask .sleep) 0 rounds
  pure false

def record (testName : Leg) (reqPerSec : ℚ) : Py State ρ Unit := do
  Script.update fun s => s.addResult testName reqPerSec
  markValid testName

/-- One run of `wrk` and what is made of it; `next` follows a sample. -/
def measure (testName : Leg) (next : Py State ρ Unit) : Py State ρ Unit := do
  let result ← act (.run .wrk)
  Script.when (result.returncode ≠ 0) do
    markFailed testName .wrkFailures
    Script.cont
  match throughput result.stdout with
  | some reqPerSec => do
      record testName reqPerSec
      next
  | none => markFailed testName .parseFailures

/-- The start of a function that runs nginx throughout. -/
def startNginx : Py State Unit Unit := do
  popen .nginx
  ask .sleep
  let ended ← ask (.poll .nginx)
  Script.when ended.isSome do
    let output ← act (.communicate .nginx)
    Script.when (output.1 ≠ []) (act .decode)
    Script.when (output.2 ≠ []) (act .decode)
    Script.ret ()

def baselineRun (_ : Nat) : Py State ρ Unit :=
  Script.tryExcept (measure .baseline (pure ()))
    (onTimeout (markFailed .baseline .timeouts) (markFailed .baseline .exceptions))

def baselineRuns (cfg : Config) : Py State ρ Unit := do
  let _ ← Script.forRange cfg.numRuns.toNat baselineRun

def runBaseline (cfg : Config) : Py State ρ Unit := Script.func do
  enterFunction
  cleanupProcesses
  removeAccessLog
  let _ ← checkCommandExists false .nginx
  act .getcwd
  let _ ← ask (.pathExists .nginxConf)
  let present ← ask (.pathExists .nginxConf)
  Script.when (present = false) (Script.ret ())
  act (.abspath .nginxConf)
  Script.tryFinally
    (Script.tryExcept (do
      startNginx
      ignoring do
        let _ ← act (.run .curlStatus)
      baselineRuns cfg)
      (onException (pure ())))
    terminateNginx

def kernelRun (_ : Nat) : Py State ρ Unit := do
  setProc (.tracer .kernel) false
  Script.tryFinally
    (Script.tryExcept (do
      popen (.tracer .kernel)
      ask .sleep
      let ended ← ask (.poll (.tracer .kernel))
      Script.when ended.isSome do
        markFailed .kernelSslsniff .attachFailures
        Script.cont
      measure .kernelSslsniff (pure ()))
      (onTimeout (markFailed .kernelSslsniff .timeouts)
        (markFailed .kernelSslsniff .exceptions)))
    (do
      terminateProcess (.tracer .kernel)
      let _ ← act (.run .sudoPkillTracer)
      ask .sleep)

def kernelRuns (cfg : Config) : Py State ρ Unit := do
  let _ ← Script.forRange cfg.numRuns.toNat kernelRun

/-- The preflight of `run_kernel_sslsniff` and its runs. -/
def kernelTraced (cfg : Config) : Py State Unit Unit := do
  let summary ← collectTracePreflight .kernelSslsniff
  let _ ← act (.run .sudoPkillTracer)
  Script.when (traceIsEffective summary = false) do
    markFailed .kernelSslsniff .attachFailures
    Script.ret ()
  kernelRuns cfg

def runKernelSslsniff (cfg : Config) : Py State ρ Unit := Script.func do
  enterFunction
  cleanupProcesses
  removeAccessLog
  let found ← checkFileExists .tracer
  Script.when (found = false) (Script.ret ())
  let present ← ask (.pathExists .nginxConf)
  Script.when (present = false) (Script.ret ())
  act (.abspath .nginxConf)
  Script.tryFinally
    (Script.tryExcept (do
      startNginx
      kernelTraced cfg)
      (onException (pure ())))
    terminateNginx

/-- The preflight of `run_bpftime_sslsniff`, whose `return`s leave that
function. -/
def bpftimePreflight : Py State Unit Unit :=
  Script.tryFinally (do
    popen .preflightTracer
    ask .sleep
    let ended ← ask (.poll .preflightTracer)
    Script.when ended.isSome do
      let output ← act (.communicate .preflightTracer)
      let _ ← summarizeTraceOutput .bpftimeSslsniff output
      markFailed .bpftimeSslsniff .attachFailures
      Script.ret ()
    popen .preflightNginx
    ask .sleep
    let ready ← waitForNginxReady .preflightNginx
    Script.when (ready = false) do
      markFailed .bpftimeSslsniff .readinessFailures
      Script.ret ()
    let _ ← act (.run (.curlTrace .preflightTracer))
    terminateProcess .preflightTracer
    let output ← act (.communicate .preflightTracer)
    let summary ← summarizeTraceOutput .bpftimeSslsniff output
    Script.when (traceIsEffective summary = false) do
      markFailed .bpftimeSslsniff .attachFailures
      Script.ret ())
    (do
      terminateProcess .preflightNginx
      terminateProcess .preflightTracer
      cleanupProcesses)

def addRetry (stats : Stats) : Stats :=
  { stats with retryAttempts := stats.retryAttempts + 1 }

/-- The `try` block of an attempt, whose `finally` is `bpftimeFinally`. -/
def bpftimeTry : Py State ρ Unit := do
  popen (.tracer .userspace)
  ask .sleep
  let ended ← ask (.poll (.tracer .userspace))
  Script.when ended.isSome do
    markFailed .bpftimeSslsniff .attachFailures
    Script.cont
  popen .nginx
  ask .sleep
  let ready ← waitForNginxReady .nginx
  Script.when (ready = false) do
    markFailed .bpftimeSslsniff .readinessFailures
    Script.cont
  measure .bpftimeSslsniff Script.brk

def bpftimeFinally : Py State ρ Unit := do
  ignoring do
    if ← holds .nginx then
      act (.terminate .nginx)
      act (.wait .nginx .afterTerminate)
  terminateProcess (.tracer .userspace)
  cleanupProcesses

def bpftimeAttempt (attempt : Nat) : Py State ρ Unit := do
  Script.when (attempt ≠ 0) do
    Script.update fun s => s.setStats .bpftimeSslsniff addRetry
  setProc .nginx false
  setProc (.tracer .userspace) false
  Script.tryFinally
    (Script.tryExcept bpftimeTry
      (onTimeout (markFailed .bpftimeSslsniff .timeouts)
        (markFailed .bpftimeSslsniff .exceptions)))
    bpftimeFinally

def bpftimeRun (cfg : Config) (_ : Nat) : Py State ρ Unit := do
  let _ ← Script.forRange (cfg.bpftimeRetries + 1).toNat bpftimeAttempt

def bpftimeRuns (cfg : Config) : Py State ρ Unit := do
  let _ ← Script.forRange cfg.numRuns.toNat (bpftimeRun cfg)

/-- The preflight of `run_bpftime_sslsniff` and its runs. -/
def bpftimeTraced (cfg : Config) : Py State Unit Unit := do
  bpftimePreflight
  bpftimeRuns cfg

/-- The start of `run_bpftime_sslsniff`, whose `return`s leave that function. -/
def bpftimeChecks : Py State Unit Unit := do
  enterFunction
  cleanupProcesses
  removeAccessLog
  let found ← checkFileExists .tracer
  Script.when (found = false) (Script.ret ())
  let found ← checkFileExists .agent
  Script.when (found = false) (Script.ret ())
  let found ← checkFileExists .syscallServer
  Script.when (found = false) (Script.ret ())
  let present ← ask (.pathExists .nginxConf)
  Script.when (present = false) (Script.ret ())
  act (.abspath .nginxConf)

def runBpftimeSslsniff (cfg : Config) : Py State ρ Unit := Script.func do
  bpftimeChecks
  bpftimeTraced cfg

/-- `BENCH_RESULT_KEYS`; `bench_runners` has the same keys. -/
def benchResultKeys (name : Text) : Option Leg :=
  if name = "baseline".toList then some .baseline
  else if name = "kernel".toList then some .kernelSslsniff
  else if name = "kernel_sslsniff".toList then some .kernelSslsniff
  else if name = "bpftime".toList then some .bpftimeSslsniff
  else if name = "bpftime_sslsniff".toList then some .bpftimeSslsniff
  else none

def benchRunner (cfg : Config) : Leg → Py State ρ Unit
  | .baseline => runBaseline cfg
  | .kernelSslsniff => runKernelSslsniff cfg
  | .bpftimeSslsniff => runBpftimeSslsniff cfg

def activeResultKeys (cfg : Config) : List Leg := cfg.benchOrder.filterMap benchResultKeys

def benchmarkFailed (cfg : Config) (s : State) : Bool :=
  [Leg.baseline, .kernelSslsniff, .bpftimeSslsniff].any fun leg =>
    decide (leg ∈ activeResultKeys cfg) &&
      decide (((s.runStats leg).validRuns : Int) < (s.runStats leg).targetRuns)

def setTargets (cfg : Config) (s : State) : State :=
  { s with runStats := fun leg => { s.runStats leg with targetRuns := cfg.numRuns } }

def runPhase (cfg : Config) (benchName : Text) : Py State ρ Unit :=
  match benchResultKeys benchName with
  | none => Script.raise (.systemExit 1)
  | some leg => benchRunner cfg leg

def runPhases (cfg : Config) : Py State ρ Unit := do
  let _ ← Script.forEach cfg.benchOrder (runPhase cfg)

def mainChecks : Py State Unit Unit := checkEnvironment false

def mainBody (cfg : Config) : Py State Unit Unit := do
  Script.update (setTargets cfg)
  mainChecks
  runPhases cfg
  act .writeResults
  let s ← Script.read
  Script.when (benchmarkFailed cfg s = true) (Script.raise (.systemExit 1))

def main (cfg : Config) : Py State ρ Unit := Script.func do
  Script.tryFinally
    (Script.tryExcept (mainBody cfg)
      (onInterrupt (Script.raise (.systemExit 130)) (pure ())))
    cleanupProcesses

def start (cfg : Config) : PyMachine State where
  state := initial cfg
  vars := Vars.unset
  clock := 0
  calls := []
  past := []
  rounds := []

theorem steady_waitForNginxReady {env : PyEnv} {A : Footprint Op Vars}
    {Y : Exit Exc ρ → PyMachine State → Prop} {proc : Proc}
    (hchannel : Script.Channel env A Y) (hA : ∀ op, op.housekeeping = true → A.calls op)
    (hfail : ∀ (k : PyMachine State) f,
      Y (.raise f.exc) (k.answered (.act (.communicate proc)) (.error f))) :
    Script.Steady env A Y (waitForNginxReady proc) := by
  have hfunc := @Script.Channel.func _ _ _ _ _ _ Bool _ _ _ hchannel
  refine Script.steady_func (Script.steady_bind (steady_ask hfunc (hA _ rfl)) fun rounds => ?_)
  refine Script.steady_bind (Script.steady_forFrom fun _ => ?_) fun _ => Script.steady_pure
  have hround := hfunc.round
  refine Script.steady_bind (steady_ask hround (hA _ rfl)) fun ended => ?_
  refine Script.steady_bind (Script.steady_when ?_) fun _ => ?_
  · refine Script.steady_bind (steady_act hround (hA _ rfl) hfail) fun _ => ?_
    exact Script.steady_ret fun _ => trivial
  · refine Script.steady_bind (steady_onException ?_ Script.steady_pure) fun _ =>
      steady_ask hround (hA _ rfl)
    refine Script.steady_bind (steady_act (channel_patient hround) (hA _ rfl) ?_) fun _ => ?_
    · exact fun _ f => patient_tolerates f _
    · exact Script.steady_when (Script.steady_ret fun _ => trivial)

/-- The leg counts failures for this reason. -/
def Leg.counts (leg : Leg) (reason : Reason) : Bool := (initialReasons leg reason).isSome

section Maintains

open Script

variable {env : PyEnv} {inv : PyMachine State → Prop}

theorem maintains_markFailed (hquiet : Quiet Footprint.all inv) {leg : Leg} {reason : Reason}
    (h : ∀ k f, inv k → inv (k.updated fun s => s.setStats leg f)) :
    Maintains env inv (markFailed leg reason : Py State ρ Unit) := by
  refine maintains_bind (maintains_update hquiet fun k hk => h k _ hk) fun _ => ?_
  refine maintains_bind maintains_read fun _ => maintains_when ?_
  exact maintains_update hquiet fun k hk => h k _ hk

/-- What a leg enters into the record keeps the invariant. -/
structure KeepsLeg (env : PyEnv) (inv : PyMachine State → Prop) (leg : Leg) : Prop where
  quiet : Quiet Footprint.all inv
  failed : ∀ reason, leg.counts reason = true →
    Maintains env inv (markFailed leg reason : Py State Unit Unit)
  recorded : ∀ v, 0 < v → Maintains env inv (record leg v : Py State Unit Unit)
  marked : ∀ k, inv k → inv k.marked

theorem KeepsLeg.measure {leg : Leg} (h : KeepsLeg env inv leg) {next : Py State Unit Unit}
    (hnext : Maintains env inv next) : Maintains env inv (measure leg next) := by
  refine maintains_bind (free_act.maintains h.quiet) fun result => ?_
  refine maintains_bind (maintains_when ?_) fun _ => ?_
  · refine maintains_bind (h.failed _ ?_) fun _ => maintains_cont
    cases leg <;> rfl
  · cases hvalue : throughput result.stdout with
    | some v => exact maintains_bind (h.recorded v (throughput_pos hvalue)) fun _ => hnext
    | none =>
        refine h.failed _ ?_
        cases leg <;> rfl

theorem KeepsLeg.onTimeout {leg : Leg} (h : KeepsLeg env inv leg) (e : Exc)
    (handler : Py State Unit Unit)
    (he : onTimeout (markFailed leg .timeouts) (markFailed leg .exceptions) e =
      some handler) : Maintains env inv handler := by
  cases e with
  | timeoutExpired =>
      cases he
      exact h.failed _ (by cases leg <;> rfl)
  | other =>
      cases he
      exact h.failed _ (by cases leg <;> rfl)
  | keyboardInterrupt => cases he
  | systemExit code => cases he

theorem KeepsLeg.forRange {leg : Leg} (h : KeepsLeg env inv leg) {n : Nat}
    {body : Nat → Py State Unit Unit} (hbody : ∀ i, Maintains env inv (body i)) :
    Maintains env inv (do let _ ← Script.forRange n body) :=
  maintains_bind (maintains_forRange hbody h.marked) fun _ => maintains_pure

theorem maintains_baselineRuns (h : KeepsLeg env inv .baseline) (cfg : Config) :
    Maintains env inv (baselineRuns cfg : Py State Unit Unit) :=
  h.forRange fun _ => maintains_tryExcept (h.measure maintains_pure) h.onTimeout

theorem maintains_kernelRuns (h : KeepsLeg env inv .kernelSslsniff) (cfg : Config) :
    Maintains env inv (kernelRuns cfg : Py State Unit Unit) := by
  refine h.forRange fun _ => ?_
  refine maintains_bind (free_setProc.maintains h.quiet) fun _ => ?_
  refine maintains_tryFinally (maintains_tryExcept ?_ h.onTimeout) ?_
  · refine maintains_bind (free_popen.maintains h.quiet) fun _ => ?_
    refine maintains_bind (free_ask.maintains h.quiet) fun _ => ?_
    refine maintains_bind (free_ask.maintains h.quiet) fun _ => ?_
    refine maintains_bind (maintains_when ?_) fun _ => h.measure maintains_pure
    exact maintains_bind (h.failed _ rfl) fun _ => maintains_cont
  · refine maintains_bind (free_terminateProcess.maintains h.quiet) fun _ => ?_
    exact maintains_bind (free_act.maintains h.quiet) fun _ => free_ask.maintains h.quiet

theorem free_waitForNginxReady {proc : Proc} :
    Free env (waitForNginxReady proc : Py State ρ Bool) :=
  steady_waitForNginxReady channel_true (fun _ _ => trivial) fun _ _ => trivial

theorem maintains_bpftimeRuns (h : KeepsLeg env inv .bpftimeSslsniff)
    (hretry : ∀ k, inv k → inv (k.updated fun s => s.setStats .bpftimeSslsniff addRetry))
    (cfg : Config) : Maintains env inv (bpftimeRuns cfg : Py State Unit Unit) := by
  refine h.forRange fun _ => h.forRange fun _ => ?_
  refine maintains_bind (maintains_when (maintains_update h.quiet hretry)) fun _ => ?_
  refine maintains_bind (free_setProc.maintains h.quiet) fun _ => ?_
  refine maintains_bind (free_setProc.maintains h.quiet) fun _ => ?_
  refine maintains_tryFinally (maintains_tryExcept ?_ h.onTimeout) ?_
  · refine maintains_bind (free_popen.maintains h.quiet) fun _ => ?_
    refine maintains_bind (free_ask.maintains h.quiet) fun _ => ?_
    refine maintains_bind (free_ask.maintains h.quiet) fun _ => ?_
    refine maintains_bind (maintains_when ?_) fun _ => ?_
    · exact maintains_bind (h.failed _ rfl) fun _ => maintains_cont
    refine maintains_bind (free_popen.maintains h.quiet) fun _ => ?_
    refine maintains_bind (free_ask.maintains h.quiet) fun _ => ?_
    refine maintains_bind (free_waitForNginxReady.maintains h.quiet) fun _ => ?_
    refine maintains_bind (maintains_when ?_) fun _ => h.measure maintains_brk
    exact maintains_bind (h.failed _ rfl) fun _ => maintains_cont
  · refine maintains_bind (maintains_ignoring ?_) fun _ => ?_
    · refine maintains_bind (free_holds.maintains h.quiet) fun _ => ?_
      refine maintains_ite (maintains_bind (free_act.maintains h.quiet) fun _ => ?_)
        maintains_pure
      exact free_act.maintains h.quiet
    · refine maintains_bind (free_terminateProcess.maintains h.quiet) fun _ => ?_
      exact free_cleanupProcesses.maintains h.quiet

/-- What the preflight of a leg enters keeps the invariant, and a trace that is
effective makes it the invariant `traced` of the leg's runs. -/
structure KeepsTrace (inv traced : PyMachine State → Prop) (leg : Leg) : Prop where
  quiet : Quiet Footprint.all inv
  tracedQuiet : Quiet Footprint.all traced
  weaker : ∀ k, traced k → inv k
  added : ∀ k summary, inv k → inv (k.updated fun s => s.addTrace leg summary)
  effective : ∀ k summary, inv k → traceIsEffective summary = true →
    traced (k.updated fun s => s.addTrace leg summary)

section KeepsTrace

variable {traced : PyMachine State → Prop} {leg : Leg} (h : KeepsTrace inv traced leg)

include h

theorem KeepsTrace.appendTrace {summary : Summary} {k : PyMachine State}
    {Q : Summary → PyMachine State → Prop} {X : Exit Exc ρ → PyMachine State → Prop}
    (hk : inv k)
    (hQ : ∀ a k', inv k' → (traceIsEffective a = true → traced k') → Q a k')
    (hX : ∀ e k', inv k' → X (.raise e) k') : wp env (appendTrace leg summary) Q X k := by
  refine wp_bind (wp_update (fun _ _ => hX _ _ (h.quiet.tick k hk)) fun _ => wp_pure ?_)
  exact hQ _ _ (h.added k summary hk) (h.effective k summary hk)

theorem KeepsTrace.collectTracePreflight {k : PyMachine State}
    {Q : Summary → PyMachine State → Prop} {X : Exit Exc ρ → PyMachine State → Prop}
    (hk : inv k)
    (hQ : ∀ a k', inv k' → (traceIsEffective a = true → traced k') → Q a k')
    (hX : ∀ e k', inv k' → X (.raise e) k') :
    wp env (collectTracePreflight leg) Q X k := by
  refine wp_func (wp_bind (free_setProc.use h.quiet hk (fun _ k hk => ?_) hX))
  refine @wp_tryExcept _ _ _ _ _ _ _ _ _ _ _ _ _ (fun _ => inv) (wp_bind ?_) ?_
  · refine free_popen.use h.quiet hk (fun _ k hk => wp_bind ?_) (fun _ _ hk => hk)
    refine free_ask.use h.quiet hk (fun _ k hk => wp_bind ?_) (fun _ _ hk => hk)
    refine free_ask.use h.quiet hk (fun _ k hk => wp_bind (wp_when ?_ ?_)) (fun _ _ hk => hk)
    · intro _
      refine wp_bind (free_act.use h.quiet hk (fun _ k hk => wp_bind ?_) (fun _ _ hk => hk))
      exact h.appendTrace hk (fun a k hk ht => wp_ret (hQ a k hk ht)) (fun _ _ hk => hk)
    · intro _
      refine wp_bind (free_act.use h.quiet hk (fun _ k hk => wp_bind ?_) (fun _ _ hk => hk))
      refine free_terminateProcess.use h.quiet hk (fun _ k hk => wp_bind ?_) (fun _ _ hk => hk)
      refine free_act.use h.quiet hk (fun _ k hk => ?_) (fun _ _ hk => hk)
      exact h.appendTrace hk hQ (fun _ _ hk => hk)
  · intro e k hk
    -- an exception leaves a trace without events
    have hhandler : wp env (do
        terminateProcess .traceCheck
        let started ← holds .traceCheck
        Script.when started do
          let _ ← ask (.poll .traceCheck)
        SslNginx.appendTrace leg noTrace : Py State Summary Summary) Q
          (funcExit Q X) k := by
      refine wp_bind (free_terminateProcess.use h.quiet hk (fun _ k hk => wp_bind ?_) hX)
      refine free_holds.use h.quiet hk (fun _ k hk => wp_bind (wp_when ?_ ?_)) hX
      · intro _
        refine wp_bind (free_ask.use h.quiet hk (fun _ k hk => wp_pure ?_) hX)
        exact h.appendTrace hk hQ hX
      · intro _
        exact h.appendTrace hk hQ hX
    cases e with
    | timeoutExpired => exact hhandler
    | other => exact hhandler
    | keyboardInterrupt => exact hX _ k hk
    | systemExit code => exact hX _ k hk

theorem KeepsTrace.kernelTraced (cfg : Config) (hleg : leg = .kernelSslsniff)
    (hfailed : Maintains env inv (markFailed leg .attachFailures : Py State Unit Unit))
    (hruns : KeepsLeg env traced leg) : Maintains env inv (kernelTraced cfg) := by
  subst hleg
  intro k hk
  refine wp_bind (h.collectTracePreflight hk (fun summary k hk ht => wp_bind ?_)
    (fun _ _ hk => hk))
  cases heff : traceIsEffective summary with
  | true =>
      refine free_act.use h.tracedQuiet (ht heff) (fun _ k hk => wp_bind (wp_when ?_ ?_))
        (fun _ k hk => h.weaker k hk)
      · intro hfalse
        cases hfalse
      · intro _
        exact wp_mono (maintains_kernelRuns hruns cfg k hk) (fun _ k hk => h.weaker k hk)
          (fun _ k hk => h.weaker k hk)
  | false =>
      refine free_act.use h.quiet hk (fun _ k hk => wp_bind (wp_when ?_ ?_))
        (fun _ _ hk => hk)
      · intro _
        exact wp_bind (wp_mono (hfailed k hk) (fun _ _ hk => wp_ret hk) (fun _ _ hk => hk))
      · intro hne
        exact absurd rfl hne

/-- Where the preflight goes on to the runs, the trace was effective; where it
returns, `out` holds. -/
theorem KeepsTrace.bpftimePreflight {out : PyMachine State → Prop}
    (hleg : leg = .bpftimeSslsniff) (hquiet : Quiet Footprint.all out)
    (hout : ∀ k, inv k → out k)
    (hfailed : ∀ reason, leg.counts reason = true → ∀ k, inv k →
      wp env (markFailed leg reason : Py State Unit Unit) (fun _ => out) (fun _ => out) k)
    {k : PyMachine State} (hk : inv k) :
    wp env bpftimePreflight (fun _ => traced) (fun _ => out) k := by
  subst hleg
  have hfinal {inv' : PyMachine State → Prop} (hquiet : Quiet Footprint.all inv') :
      Maintains env inv' (do
        terminateProcess .preflightNginx
        terminateProcess .preflightTracer
        cleanupProcesses : Py State Unit Unit) := by
    refine maintains_bind (free_terminateProcess.maintains hquiet) fun _ => ?_
    refine maintains_bind (free_terminateProcess.maintains hquiet) fun _ => ?_
    exact free_cleanupProcesses.maintains hquiet
  have hreturn {reason : Reason} (hreason : Leg.bpftimeSslsniff.counts reason = true)
      {Q : Unit → PyMachine State → Prop} {k : PyMachine State} (hk : inv k) :
      wp env (do
        markFailed .bpftimeSslsniff reason
        Script.ret () : Py State Unit Unit) Q (fun _ => out) k :=
    wp_bind (wp_mono (hfailed reason hreason k hk) (fun _ _ hk => wp_ret hk)
      (fun _ _ hk => hk))
  have hraise (e : Exc) (k : PyMachine State) (hk : inv k) : out k := hout k hk
  refine wp_tryFinally (wp_mono (Q := fun _ => traced) (X := fun _ => out) (wp_bind ?_) ?_ ?_)
  · refine free_popen.use h.quiet hk (fun _ k hk => wp_bind ?_) hraise
    refine free_ask.use h.quiet hk (fun _ k hk => wp_bind ?_) hraise
    refine free_ask.use h.quiet hk (fun _ k hk => wp_bind (wp_when ?_ ?_)) hraise
    · intro _
      refine wp_bind (free_act.use h.quiet hk (fun _ k hk => wp_bind ?_) hraise)
      exact h.appendTrace hk (fun _ _ hk _ => hreturn rfl hk) hraise
    intro _
    refine wp_bind (free_popen.use h.quiet hk (fun _ k hk => wp_bind ?_) hraise)
    refine free_ask.use h.quiet hk (fun _ k hk => wp_bind ?_) hraise
    refine free_waitForNginxReady.use h.quiet hk (fun _ k hk => wp_bind (wp_when ?_ ?_))
      hraise
    · intro _
      exact hreturn rfl hk
    intro _
    refine wp_bind (free_act.use h.quiet hk (fun _ k hk => wp_bind ?_) hraise)
    refine free_terminateProcess.use h.quiet hk (fun _ k hk => wp_bind ?_) hraise
    refine free_act.use h.quiet hk (fun _ k hk => wp_bind ?_) hraise
    refine h.appendTrace hk (fun summary k hk ht => wp_when ?_ ?_) hraise
    · intro _
      exact hreturn rfl hk
    · intro heff
      exact ht (by simpa using heff)
  · intro _ k hk
    exact wp_mono (hfinal h.tracedQuiet k hk) (fun _ _ hk => hk)
      (fun _ k hk => hout k (h.weaker k hk))
  · intro _ k hk
    exact hfinal hquiet k hk

theorem KeepsTrace.bpftimeTraced (cfg : Config) (hleg : leg = .bpftimeSslsniff)
    (hfailed : ∀ reason, leg.counts reason = true →
      Maintains env inv (markFailed leg reason : Py State Unit Unit))
    (hruns : KeepsLeg env traced leg)
    (hretry : ∀ k, traced k → traced (k.updated fun s => s.setStats leg addRetry)) :
    Maintains env inv (bpftimeTraced cfg) := by
  intro k hk
  refine wp_bind (wp_mono (h.bpftimePreflight hleg h.quiet (fun _ hk => hk) hfailed hk)
    (fun _ k hk => ?_) (fun _ _ hk => hk))
  subst hleg
  exact wp_mono (maintains_bpftimeRuns hruns hretry cfg k hk) (fun _ k hk => h.weaker k hk)
    (fun _ k hk => h.weaker k hk)

end KeepsTrace

variable (hquiet : Quiet Footprint.all inv)

include hquiet

theorem maintains_startNginx : Maintains env inv startNginx := by
  refine maintains_bind (free_popen.maintains hquiet) fun _ => ?_
  refine maintains_bind (free_ask.maintains hquiet) fun _ => ?_
  refine maintains_bind (free_ask.maintains hquiet) fun _ => maintains_when ?_
  refine maintains_bind (free_act.maintains hquiet) fun _ => ?_
  refine maintains_bind (maintains_when (free_act.maintains hquiet)) fun _ => ?_
  exact maintains_bind (maintains_when (free_act.maintains hquiet)) fun _ => maintains_ret

theorem maintains_runBaseline (cfg : Config)
    (hruns : Maintains env inv (baselineRuns cfg : Py State Unit Unit)) :
    Maintains env inv (runBaseline cfg : Py State ρ Unit) := by
  refine maintains_func ?_
  refine maintains_bind (free_enterFunction.maintains hquiet) fun _ => ?_
  refine maintains_bind (free_cleanupProcesses.maintains hquiet) fun _ => ?_
  refine maintains_bind (free_removeAccessLog.maintains hquiet) fun _ => ?_
  refine maintains_bind (free_checkCommandExists.maintains hquiet) fun _ => ?_
  refine maintains_bind (free_act.maintains hquiet) fun _ => ?_
  refine maintains_bind (free_ask.maintains hquiet) fun _ => ?_
  refine maintains_bind (free_ask.maintains hquiet) fun _ => ?_
  refine maintains_bind (maintains_when maintains_ret) fun _ => ?_
  refine maintains_bind (free_act.maintains hquiet) fun _ => ?_
  refine maintains_tryFinally (maintains_ignoring ?_) (free_terminateNginx.maintains hquiet)
  refine maintains_bind (maintains_startNginx hquiet) fun _ => ?_
  refine maintains_bind (maintains_ignoring ?_) fun _ => hruns
  exact maintains_bind (free_act.maintains hquiet) fun _ => maintains_pure

theorem maintains_runKernelSslsniff (cfg : Config)
    (htraced : Maintains env inv (kernelTraced cfg)) :
    Maintains env inv (runKernelSslsniff cfg : Py State ρ Unit) := by
  refine maintains_func ?_
  refine maintains_bind (free_enterFunction.maintains hquiet) fun _ => ?_
  refine maintains_bind (free_cleanupProcesses.maintains hquiet) fun _ => ?_
  refine maintains_bind (free_removeAccessLog.maintains hquiet) fun _ => ?_
  refine maintains_bind (free_checkFileExists.maintains hquiet) fun _ => ?_
  refine maintains_bind (maintains_when maintains_ret) fun _ => ?_
  refine maintains_bind (free_ask.maintains hquiet) fun _ => ?_
  refine maintains_bind (maintains_when maintains_ret) fun _ => ?_
  refine maintains_bind (free_act.maintains hquiet) fun _ => ?_
  refine maintains_tryFinally (maintains_ignoring ?_) (free_terminateNginx.maintains hquiet)
  exact maintains_bind (maintains_startNginx hquiet) fun _ => htraced

theorem maintains_bpftimeChecks : Maintains env inv bpftimeChecks := by
  refine maintains_bind (free_enterFunction.maintains hquiet) fun _ => ?_
  refine maintains_bind (free_cleanupProcesses.maintains hquiet) fun _ => ?_
  refine maintains_bind (free_removeAccessLog.maintains hquiet) fun _ => ?_
  refine maintains_bind (free_checkFileExists.maintains hquiet) fun _ => ?_
  refine maintains_bind (maintains_when maintains_ret) fun _ => ?_
  refine maintains_bind (free_checkFileExists.maintains hquiet) fun _ => ?_
  refine maintains_bind (maintains_when maintains_ret) fun _ => ?_
  refine maintains_bind (free_checkFileExists.maintains hquiet) fun _ => ?_
  refine maintains_bind (maintains_when maintains_ret) fun _ => ?_
  refine maintains_bind (free_ask.maintains hquiet) fun _ => ?_
  exact maintains_bind (maintains_when maintains_ret) fun _ => free_act.maintains hquiet

theorem maintains_runBpftimeSslsniff (cfg : Config)
    (htraced : Maintains env inv (bpftimeTraced cfg)) :
    Maintains env inv (runBpftimeSslsniff cfg : Py State ρ Unit) :=
  maintains_func (maintains_bind (maintains_bpftimeChecks hquiet) fun _ => htraced)

/-- The program keeps what its legs keep. -/
theorem maintains_main (cfg : Config)
    (htargets : ∀ k, inv k → inv (k.updated (setTargets cfg)))
    (hleg : ∀ leg, Maintains env inv (benchRunner cfg leg : Py State Unit Unit)) :
    Maintains env inv (main cfg : Py State ρ Unit) := by
  refine maintains_func ?_
  refine maintains_tryFinally (maintains_tryExcept ?_ ?_)
    (free_cleanupProcesses.maintains hquiet)
  · refine maintains_bind (maintains_update hquiet htargets) fun _ => ?_
    refine maintains_bind (maintains_checkEnvironment hquiet fun _ => trivial) fun _ => ?_
    refine maintains_bind ?_ fun _ => ?_
    · refine maintains_bind (maintains_forEach fun name _ => ?_) fun _ => maintains_pure
      unfold runPhase
      cases benchResultKeys name with
      | none => exact maintains_raise
      | some leg => exact hleg leg
    · refine maintains_bind (free_act.maintains hquiet) fun _ => ?_
      exact maintains_bind maintains_read fun _ => maintains_when maintains_raise
  · intro e handler he
    cases e <;> cases he
    · exact maintains_pure
    · exact maintains_pure
    · exact maintains_raise

omit hquiet in
/-- An invariant that does not depend on traces is kept by every leg. -/
theorem KeepsLeg.benchRunner (hleg : ∀ leg, KeepsLeg env inv leg)
    (hadded : ∀ leg k summary, inv k → inv (k.updated fun s => s.addTrace leg summary))
    (hretry : ∀ k, inv k → inv (k.updated fun s => s.setStats .bpftimeSslsniff addRetry))
    (cfg : Config) (leg : Leg) : Maintains env inv (benchRunner cfg leg : Py State ρ Unit) := by
  have hquiet := (hleg leg).quiet
  have htrace (leg : Leg) : KeepsTrace inv inv leg :=
    ⟨hquiet, hquiet, fun _ hk => hk, hadded leg, fun k summary hk _ => hadded leg k summary hk⟩
  cases leg with
  | baseline =>
      exact maintains_runBaseline hquiet cfg (maintains_baselineRuns (hleg _) cfg)
  | kernelSslsniff =>
      refine maintains_runKernelSslsniff hquiet cfg ?_
      exact (htrace _).kernelTraced cfg rfl ((hleg _).failed _ rfl) (hleg _)
  | bpftimeSslsniff =>
      refine maintains_runBpftimeSslsniff hquiet cfg ?_
      exact (htrace _).bpftimeTraced cfg rfl (hleg _).failed (hleg _) hretry

end Maintains

section Positive

open Script

/-- Every sample so far is positive. -/
def Positive (k : PyMachine State) : Prop :=
  ∀ s ∈ k.history, ∀ leg, ∀ v ∈ s.results leg, 0 < v

theorem quiet_positive : Quiet Footprint.all Positive := quiet_always _ _

theorem Positive.updated {k : PyMachine State} (h : Positive k) {f : State → State}
    (hf : ∀ leg, ∀ v ∈ (f k.state).results leg, v ∈ k.state.results leg ∨ 0 < v) :
    Positive (k.updated f) :=
  Always.updated h fun leg v hv => (hf leg v hv).elim (Always.state h leg v) id

theorem Positive.frame {k : PyMachine State} (h : Positive k) {f : State → State}
    (hf : (f k.state).results = k.state.results) : Positive (k.updated f) :=
  h.updated fun _ _ hv => .inl (hf ▸ hv)

theorem keepsLeg_positive {env : PyEnv} (leg : Leg) : KeepsLeg env Positive leg where
  quiet := quiet_positive
  failed := fun _ _ => maintains_markFailed quiet_positive fun _ _ hk => hk.frame rfl
  recorded := by
    intro v hv
    refine maintains_bind (maintains_update quiet_positive fun k hk => ?_) fun _ => ?_
    · refine hk.updated fun leg' w hw => ?_
      unfold State.addResult at hw
      dsimp only at hw
      split at hw
      · rcases List.mem_append.mp hw with hw | hw
        · exact .inl hw
        · exact .inr (List.mem_singleton.mp hw ▸ hv)
      · exact .inl hw
    · exact maintains_update quiet_positive fun _ hk => hk.frame rfl
  marked := fun _ hk => hk

/-- In every state of every run the samples are positive. -/
theorem positive_samples (cfg : Config) (env : PyEnv) :
    ∀ s ∈ (main (ρ := Unit) cfg env (start cfg)).2.history, ∀ leg, ∀ v ∈ s.results leg, 0 < v := by
  have hmain : Maintains env Positive (main cfg : Py State Unit Unit) :=
    maintains_main quiet_positive cfg (fun _ hk => hk.frame rfl)
      (KeepsLeg.benchRunner keepsLeg_positive (fun _ _ _ hk => hk.frame rfl)
        (fun _ hk => hk.frame rfl) cfg)
  refine hmain.at_end fun s hs leg v hv => ?_
  obtain rfl : s = initial cfg := by simpa [Machine.history, start] using hs
  cases hv

end Positive

end BpftimeBenchmark.Bench.SslNginx
