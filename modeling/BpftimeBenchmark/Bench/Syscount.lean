import BpftimeBenchmark.Bench.Processes

/-!
The harness `syscount-nginx/benchmark.py`: nginx under `wrk` without tracing,
with `syscount` in the kernel and with `syscount` under bpftime, each of the two
aimed at nginx or at another process. The command lines and what is only printed
or saved are left out.
-/

namespace BpftimeBenchmark.Bench.Syscount

open Scripts

inductive Leg where
  | native
  | kernelTargeted
  | kernelUntargeted
  | userbpfTargeted
  | userbpfUntargeted
  deriving DecidableEq

inductive Reason where
  | traceFailures
  | wrkFailures
  | parseFailures
  | timeouts
  | exceptions
  deriving DecidableEq

structure Stats where
  validRuns : Nat
  failedAttempts : Nat
  reasons : Reason → Nat
  skipped : Bool

structure Summary where
  run : Nat
  returncode : Option Int
  started : Bool
  requireCounts : Bool
  countRows : Nat
  traceSuccess : Bool
  errorMarkers : List Text

structure State where
  results : Leg → List ℚ
  runStats : Leg → Stats
  traceObservability : Leg → List Summary

/-- The settings, with `NUM_RUNS` as `--test` leaves it. `nginxByPath` says that
`NGINX_BIN` is a path. -/
structure Config where
  numRuns : Int
  nginxByPath : Bool
  allowMissingUserbpf : Bool

def initial : State where
  results := fun _ => []
  runStats := fun _ => ⟨0, 0, fun _ => 0, false⟩
  traceObservability := fun _ => []

def State.setStats (s : State) (leg : Leg) (f : Stats → Stats) : State :=
  { s with runStats := fun l => if l = leg then f (s.runStats l) else s.runStats l }

def Stats.addReason (stats : Stats) (reason : Reason) : Stats :=
  { stats with reasons := fun r =>
      if r = reason then stats.reasons r + 1 else stats.reasons r }

def State.addResult (s : State) (leg : Leg) (v : ℚ) : State :=
  { s with results := fun l => if l = leg then s.results l ++ [v] else s.results l }

def State.addTrace (s : State) (leg : Leg) (summary : Summary) : State :=
  { s with traceObservability := fun l =>
      if l = leg then s.traceObservability l ++ [summary] else s.traceObservability l }

variable {ρ : Type}

def markValid (testName : Leg) : Py State ρ Unit :=
  Script.update fun s =>
    s.setStats testName fun st => { st with validRuns := st.validRuns + 1 }

/-- Every leg has a counter for every reason. -/
def markFailed (testName : Leg) (reason : Reason) : Py State ρ Unit := do
  Script.update fun s =>
    s.setStats testName fun st => { st with failedAttempts := st.failedAttempts + 1 }
  Script.update fun s => s.setStats testName fun st => st.addReason reason

def record (testName : Leg) (reqPerSec : ℚ) : Py State ρ Unit := do
  Script.update fun s => s.addResult testName reqPerSec
  markValid testName

def hardErrorTexts : List Text :=
  ["failed to open BPF object".toList, "failed to load BPF object".toList,
    "failed to attach sys_exit program".toList, "failed to attach sys_enter programs".toList,
    "libbpf: failed".toList, "ERROR:".toList, "Error:".toList]

/-- The rows of the tables of counts. A table starts with its heading and ends
with an empty line. -/
def countRows (inCountTable : Bool) : List Text → Nat
  | [] => 0
  | line :: rest =>
      let stripped := Text.strip line
      if stripped = [] then countRows false rest
      else if stripped.contains "COUNT".toList &&
          (stripped.contains "SYSCALL".toList || stripped.contains "PID".toList) then
        countRows true rest
      else if inCountTable && (Text.words stripped).getLast?.any Text.isDigit then
        countRows inCountTable rest + 1
      else countRows inCountTable rest

def logSummary (run : Nat) (stdout stderr : Text) (returncode : Option Int)
    (requireCounts : Bool) : Summary :=
  let hardErrorMarkers := hardErrorTexts.filter
    (fun marker => Text.contains stdout marker || Text.contains stderr marker)
  let rows := countRows false (Text.splitLines stdout)
  let started := Text.contains stdout "Tracing syscalls".toList
  { run := run
    returncode := returncode
    started := started
    requireCounts := requireCounts
    countRows := rows
    traceSuccess := started && hardErrorMarkers.isEmpty &&
      (!requireCounts || decide (0 < rows))
    errorMarkers := hardErrorMarkers }

def readLog (path : Path) : Py State ρ Text := do
  let present ← ask (.pathExists path)
  if present = true then act (.readText path) else pure []

def statLog (path : Path) : Py State ρ Unit := do
  let present ← ask (.pathExists path)
  Script.when (present = true) (act (.stat path))

def appendTrace (testName : Leg) (summary : Summary) : Py State ρ Summary := do
  Script.update fun s => s.addTrace testName summary
  pure summary

def summarizeSyscountLog (testName : Leg) (mode : Mode) (runIndex : Nat)
    (returncode : Option Int) (requireCounts : Bool) : Py State ρ Summary := do
  let stdoutText ← readLog (.traceStdout mode)
  let stderrText ← readLog (.traceStderr mode)
  statLog (.traceStdout mode)
  statLog (.traceStderr mode)
  appendTrace testName (logSummary (runIndex + 1) stdoutText stderrText returncode requireCounts)

/-- `except subprocess.TimeoutExpired` alone. -/
def onTimeoutOnly {α : Type} (handler : Py State ρ α) : Exc → Option (Py State ρ α)
  | .timeoutExpired => some handler
  | .other => none
  | .keyboardInterrupt => none
  | .systemExit _ => none

/-- The end of `syscount`, waited for and if need be brought about. -/
def awaitSyscount (testName : Leg) (mode : Mode) : Py State ρ (Option Int) := do
  Script.tryExcept (act (.wait (.tracer mode) .own)) (onTimeoutOnly do
    markFailed testName .timeouts
    act (.terminate (.tracer mode))
    Script.tryExcept (act (.wait (.tracer mode) .afterTerminate)) (onTimeoutOnly do
      act (.kill (.tracer mode))
      act (.wait (.tracer mode) .afterKill)))
  ask (.poll (.tracer mode))

/-- Without a process there is nothing to wait for. -/
def awaitIfStarted (testName : Leg) (mode : Mode) : Py State ρ (Option Int) := do
  let started ← holds (.tracer mode)
  if started = true then awaitSyscount testName mode else pure none

def terminateAndSummarizeSyscount (testName : Leg) (mode : Mode) (runIndex : Nat)
    (requireCounts : Bool) : Py State ρ Summary := do
  let returncode ← awaitIfStarted testName mode
  act (.closeTraceLogs mode)
  summarizeSyscountLog testName mode runIndex returncode requireCounts

def prepareNginxDirectories : Py State ρ Unit := ignoring (act .makeLogsDirectory)

/-- The exit of nginx is reported with its output. -/
def reportNginxExit : Py State ρ Unit := do
  let output ← act (.communicate .nginx)
  Script.when (output.1 ≠ []) (act .decode)
  Script.when (output.2 ≠ []) (act .decode)

/-- Whether nginx runs, and its PID if `pgrep` has been asked for it. -/
def startNginx (cfg : Config) : Py State ρ (Bool × Option Text) := Script.func do
  cleanupProcesses
  removeAccessLog
  let _ ← checkCommandExists cfg.nginxByPath .nginx
  act .getcwd
  let _ ← ask (.pathExists .nginxConf)
  let present ← ask (.pathExists .nginxConf)
  Script.when (present = false) (Script.ret (false, none))
  act (.abspath .nginxConf)
  prepareNginxDirectories
  Script.tryExcept (do
    popen .nginx
    ask .sleep
    let ended ← ask (.poll .nginx)
    Script.when ended.isSome do
      reportNginxExit
      Script.ret (false, none)
    Script.tryExcept (do
      let _ ← act (.run .curlStatus)
      let found ← act (.run .pgrepNginxCommand)
      pure (true, some (Text.strip found.stdout)))
      (onException (pure (true, none))))
    (onException (pure (false, none)))

/-- The cleanup of a function that was given its nginx by `start_nginx`. -/
def stopNginx : Py State ρ Unit := do
  let started ← holds .nginx
  Script.when (started = true) terminateNginx

def nativeRun (_ : Nat) : Py State ρ Unit :=
  Script.tryExcept (do
    let result ← act (.run .wrk)
    Script.when (result.returncode ≠ 0) do
      markFailed .native .wrkFailures
      Script.cont
    match throughput result.stdout with
    | some reqPerSec => record .native reqPerSec
    | none => markFailed .native .parseFailures)
    (onTimeout (markFailed .native .timeouts) (markFailed .native .exceptions))

def nativeRuns (cfg : Config) : Py State ρ Unit := do
  let _ ← Script.forRange cfg.numRuns.toNat nativeRun

def runNative (cfg : Config) : Py State ρ Unit := Script.func do
  enterFunction
  let nginx ← startNginx cfg
  setProc .nginx nginx.1
  Script.when (nginx.1 = false) (Script.ret ())
  Script.tryFinally (Script.tryExcept (nativeRuns cfg) (onException (pure ()))) stopNginx

/-- The start of a run: no process, no logs, no throughput. -/
def clearRun (mode : Mode) : Py State ρ Unit := do
  setProc (.tracer mode) false
  Script.assign fun v => { v with traceFiles := false }
  Script.assign fun v => { v with reqPerSec := none }

/-- What the `try` blocks of the traced runs have in common: `syscount`, then
`wrk`. -/
def measureTraced (testName : Leg) (mode : Mode) : Py State ρ Unit := do
  act (.openTraceLogs mode)
  Script.assign fun v => { v with traceFiles := true }
  popen (.tracer mode)
  ask .sleep
  let ended ← ask (.poll (.tracer mode))
  Script.when ended.isSome do
    markFailed testName .traceFailures
    Script.cont
  let result ← act (.run .wrk)
  Script.when (result.returncode ≠ 0) do
    markFailed testName .wrkFailures
    Script.cont
  let reqPerSec := throughput result.stdout
  Script.assign fun v => { v with reqPerSec := reqPerSec }
  Script.when (reqPerSec = none) (markFailed testName .parseFailures)

/-- What their `finally` blocks have in common: the trace, and the sample if the
trace is effective. -/
def finishTraced (testName : Leg) (mode : Mode) (runIndex : Nat) (requireCounts : Bool) :
    Py State ρ Unit := do
  let v ← Script.vars
  Script.when (v.traceFiles = true) do
    let summary ← terminateAndSummarizeSyscount testName mode runIndex requireCounts
    match v.reqPerSec with
    | some reqPerSec =>
        if summary.traceSuccess = true then record testName reqPerSec
        else markFailed testName .traceFailures
    | none => pure ()

def kernelLeg (targetPid : Bool) : Leg :=
  if targetPid then .kernelTargeted else .kernelUntargeted

def userbpfLeg (targetPid : Bool) : Leg :=
  if targetPid then .userbpfTargeted else .userbpfUntargeted

def kernelRun (targetPid : Bool) (nginxPid : Option Text) (i : Nat) : Py State ρ Unit := do
  Script.when (nginxPid.getD [] = []) Script.cont
  clearRun .kernel
  Script.tryFinally
    (Script.tryExcept (measureTraced (kernelLeg targetPid) .kernel)
      (onTimeout (markFailed (kernelLeg targetPid) .timeouts)
        (markFailed (kernelLeg targetPid) .exceptions)))
    (finishTraced (kernelLeg targetPid) .kernel i targetPid)

def kernelRuns (cfg : Config) (targetPid : Bool) (nginxPid : Option Text) :
    Py State ρ Unit := do
  let _ ← Script.forRange cfg.numRuns.toNat (kernelRun targetPid nginxPid)

def runKernelSyscount (cfg : Config) (targetPid : Bool) : Py State ρ Unit := Script.func do
  enterFunction
  let nginx ← startNginx cfg
  setProc .nginx nginx.1
  Script.when (nginx.1 = false) (Script.ret ())
  let found ← checkFileExists .tracer
  Script.when (found = false) (Script.ret ())
  Script.tryFinally
    (Script.tryExcept (kernelRuns cfg targetPid nginx.2) (onException (pure ())))
    stopNginx

/-- The `try` block of `userbpfRun` up to the trace logs. -/
def startUserbpf (testName : Leg) (targetPid : Bool) : Py State ρ Unit := do
  let present ← ask (.pathExists .nginxConf)
  Script.when (present = false) Script.cont
  act (.triedAbspath .nginxConf)
  prepareNginxDirectories
  act (.triedAbspath .agent)
  popen .nginx
  ask .sleep
  let ended ← ask (.poll .nginx)
  Script.when ended.isSome do
    reportNginxExit
    markFailed testName .exceptions
    Script.cont
  let found ← act (.run .pgrepNginxCommand)
  Script.when (targetPid = true ∧ Text.strip found.stdout = []) do
    markFailed testName .exceptions
    Script.cont
  act (.triedAbspath .syscallServer)
  act (.triedAbspath .tracer)

def userbpfFinally (testName : Leg) (i : Nat) : Py State ρ Unit := do
  ignoring do
    if ← holds .nginx then
      act (.terminate .nginx)
      act (.wait .nginx .afterTerminate)
  finishTraced testName .userspace i false
  cleanupProcesses

def userbpfRun (targetPid : Bool) (i : Nat) : Py State ρ Unit := do
  setProc .nginx false
  clearRun .userspace
  Script.tryFinally
    (Script.tryExcept (do
      startUserbpf (userbpfLeg targetPid) targetPid
      measureTraced (userbpfLeg targetPid) .userspace)
      (onTimeout (markFailed (userbpfLeg targetPid) .timeouts)
        (markFailed (userbpfLeg targetPid) .exceptions)))
    (userbpfFinally (userbpfLeg targetPid) i)

def userbpfRuns (cfg : Config) (targetPid : Bool) : Py State ρ Unit := do
  let _ ← Script.forRange cfg.numRuns.toNat (userbpfRun targetPid)

def runUserbpfSyscount (cfg : Config) (targetPid : Bool) : Py State ρ Unit := Script.func do
  enterFunction
  let found ← checkFileExists .tracer
  Script.when (found = false) (Script.ret ())
  let found ← checkFileExists .agent
  Script.when (found = false) (Script.ret ())
  let found ← checkFileExists .syscallServer
  Script.when (found = false) (Script.ret ())
  userbpfRuns cfg targetPid

def allLegs : List Leg :=
  [.native, .kernelTargeted, .kernelUntargeted, .userbpfTargeted, .userbpfUntargeted]

/-- Whether the name of the leg starts with `userbpf_`. -/
def Leg.isUserbpf : Leg → Bool
  | .native => false
  | .kernelTargeted => false
  | .kernelUntargeted => false
  | .userbpfTargeted => true
  | .userbpfUntargeted => true

def missingResults (cfg : Config) (s : State) : List Leg :=
  allLegs.filter fun leg =>
    (s.results leg).isEmpty && !(s.runStats leg).skipped &&
      !(cfg.allowMissingUserbpf && leg.isUserbpf)

def mainChecks (cfg : Config) : Py State Unit Unit := checkEnvironment cfg.nginxByPath

def runLegs (cfg : Config) : Py State ρ Unit := do
  runNative cfg
  runKernelSyscount cfg true
  runKernelSyscount cfg false
  runUserbpfSyscount cfg true
  runUserbpfSyscount cfg false

/-- The chart is left out, since its function catches what it raises. -/
def mainBody (cfg : Config) : Py State Unit Unit := do
  mainChecks cfg
  runLegs cfg
  act .writeResults
  act .writeReport
  let s ← Script.read
  Script.when (missingResults cfg s ≠ []) (Script.raise (.systemExit 1))

def main (cfg : Config) : Py State ρ Unit := Script.func do
  Script.tryFinally
    (Script.tryExcept (mainBody cfg) (onInterrupt (pure ()) (pure ())))
    cleanupProcesses

def start : PyMachine State where
  state := initial
  vars := Vars.unset
  clock := 0
  calls := []
  past := []
  rounds := []

section Steady

open Script

variable {α : Type} {env : PyEnv} {A : Footprint Op Vars}
  {Y : Exit Exc ρ → PyMachine State → Prop}
  (hchannel : Channel env A Y) (hA : ∀ op, op.housekeeping = true → A.calls op)

include hchannel hA

theorem steady_readLog {mode : Mode} {path : Path}
    (hpath : path = .traceStdout mode ∨ path = .traceStderr mode)
    (hfail : ∀ (k : PyMachine State) f,
      Y (.raise f.exc) (k.answered (.act (.readText path)) (.error f))) :
    Steady env A Y (readLog path) := by
  refine steady_bind (steady_ask hchannel (hA _ ?_)) fun _ => steady_ite ?_ steady_pure
  · rcases hpath with rfl | rfl <;> rfl
  · exact steady_act hchannel (hA _ rfl) hfail

theorem steady_statLog {mode : Mode} {path : Path}
    (hpath : path = .traceStdout mode ∨ path = .traceStderr mode)
    (hfail : ∀ (k : PyMachine State) f,
      Y (.raise f.exc) (k.answered (.act (.stat path)) (.error f))) :
    Steady env A Y (statLog path) := by
  refine steady_bind (steady_ask hchannel (hA _ ?_)) fun _ => steady_when ?_
  · rcases hpath with rfl | rfl <;> rfl
  · exact steady_act hchannel (hA _ rfl) hfail

theorem steady_prepareNginxDirectories : Steady env A Y prepareNginxDirectories :=
  steady_ignoring (steady_act (channel_patient hchannel) (hA _ rfl)
    fun _ f => patient_tolerates f _)

theorem steady_reportNginxExit (hfail : ∀ f k, Y (.raise (Failure.exc f)) k) :
    Steady env A Y reportNginxExit := by
  refine steady_bind (steady_act hchannel (hA _ rfl) fun _ f => hfail f _) fun _ => ?_
  refine steady_bind (steady_when ?_) fun _ => steady_when ?_
  · exact steady_act hchannel (hA _ rfl) fun _ f => hfail f _
  · exact steady_act hchannel (hA _ rfl) fun _ f => hfail f _

theorem steady_stopNginx : Steady env A Y stopNginx :=
  steady_bind steady_holds fun _ => steady_when (steady_terminateNginx hchannel hA)

theorem steady_startNginx {cfg : Config} (hconf : A.calls (.ask (.pathExists .nginxConf)))
    (hset : A.assigns fun v => v.setProc .nginx true)
    (hgetcwd : ∀ (k : PyMachine State) f,
      Y (.raise f.exc) (k.answered (.act .getcwd) (.error f)))
    (habspath : ∀ (k : PyMachine State) path f,
      Y (.raise f.exc) (k.answered (.act (.abspath path)) (.error f))) :
    Steady env A Y (startNginx cfg) := by
  have hfunc := @Channel.func _ _ _ _ _ _ (Bool × Option Text) _ _ _ hchannel
  have hin := channel_patient hfunc
  refine steady_func (steady_bind (steady_cleanupProcesses hfunc hA) fun _ => ?_)
  refine steady_bind (steady_removeAccessLog hfunc hA habspath) fun _ => ?_
  refine steady_bind (steady_checkCommandExists hfunc hA (hA _ rfl)) fun _ => ?_
  refine steady_bind (steady_act hfunc (hA _ rfl) hgetcwd) fun _ => ?_
  refine steady_bind (steady_ask hfunc hconf) fun _ => ?_
  refine steady_bind (steady_ask hfunc hconf) fun _ => ?_
  refine steady_bind (steady_when (steady_ret fun _ => trivial)) fun _ => ?_
  refine steady_bind (steady_act hfunc (hA _ rfl) fun k => habspath k _) fun _ => ?_
  refine steady_bind (steady_prepareNginxDirectories hfunc hA) fun _ => ?_
  refine steady_onException ?_ steady_pure
  refine steady_bind (steady_popen hin (hA _ rfl) hset fun _ f => patient_tolerates f _)
    fun _ => ?_
  refine steady_bind (steady_ask hin (hA _ rfl)) fun _ => ?_
  refine steady_bind (steady_ask hin (hA _ rfl)) fun _ => ?_
  refine steady_bind (steady_when ?_) fun _ => ?_
  · refine steady_bind (steady_reportNginxExit hin hA patient_tolerates) fun _ => ?_
    exact steady_ret fun _ => trivial
  · refine steady_onException ?_ steady_pure
    have hinner := channel_patient hin
    refine steady_bind (steady_act hinner (hA _ rfl) fun _ f => patient_tolerates f _)
      fun _ => ?_
    refine steady_bind (steady_act hinner (hA _ rfl) fun _ f => patient_tolerates f _)
      fun _ => steady_pure

end Steady

section Maintains

open Script

variable {env : PyEnv} {inv : PyMachine State → Prop}

/-- What the runs enter into the record keeps the invariant. -/
structure KeepsRuns (env : PyEnv) (inv : PyMachine State → Prop) : Prop where
  quiet : Quiet Footprint.all inv
  marked : ∀ k, inv k → inv k.marked
  failed : ∀ leg reason, Maintains env inv (markFailed leg reason : Py State Unit Unit)
  recorded : ∀ v, Maintains env inv (record .native v : Py State Unit Unit)
  finished : ∀ leg mode i require,
    Maintains env inv (finishTraced leg mode i require : Py State Unit Unit)

/-- What the runs do keeps the invariant. Every call is admitted, and every assignment
but that of a throughput. -/
structure KeepsRecord (env : PyEnv) (A : Footprint Op Vars) (inv : PyMachine State → Prop) :
    Prop where
  calls : ∀ op, A.calls op
  assigns : ∀ f, (∀ v, (f v).reqPerSec = v.reqPerSec ∨ (f v).reqPerSec = none) → A.assigns f
  quiet : Quiet A inv
  measured : ∀ k output, inv k →
    inv (k.assigned fun v => { v with reqPerSec := throughput output })
  marked : ∀ k, inv k → inv k.marked
  failed : ∀ leg reason, Maintains env inv (markFailed leg reason : Py State Unit Unit)
  recorded : ∀ v, 0 < v → Maintains env inv (record .native v : Py State Unit Unit)
  finished : ∀ leg mode i require,
    Maintains env inv (finishTraced leg mode i require : Py State Unit Unit)

theorem KeepsRuns.record (h : KeepsRuns env inv) : KeepsRecord env Footprint.all inv where
  calls := fun _ => trivial
  assigns := fun _ _ => trivial
  quiet := h.quiet
  measured := fun k _ hk => h.quiet.assigned k _ trivial hk
  marked := h.marked
  failed := h.failed
  recorded := fun v _ => h.recorded v
  finished := h.finished

theorem maintains_awaitIfStarted {A : Footprint Op Vars} (hquiet : Quiet A inv)
    (hcalls : ∀ op, A.calls op)
    (hfailed : ∀ leg reason, Maintains env inv (markFailed leg reason : Py State ρ Unit))
    {leg : Leg} {mode : Mode} :
    Maintains env inv (awaitIfStarted leg mode : Py State ρ (Option Int)) := by
  have hact (action : Act) : Maintains env inv (act action : Py State ρ action.Result) :=
    (steady_act channel_true (hcalls _) fun _ _ => trivial).maintains hquiet
  refine maintains_bind (maintains_bind keeps_vars fun _ => maintains_pure) fun _ => ?_
  refine maintains_ite ?_ maintains_pure
  refine maintains_bind (maintains_tryExcept (hact _) ?_)
    fun _ => (steady_ask channel_true (hcalls _)).maintains hquiet
  intro e handler he
  cases e <;> cases he
  refine maintains_bind (hfailed _ _) fun _ => ?_
  refine maintains_bind (hact _) fun _ => ?_
  refine maintains_tryExcept (hact _) fun e handler he => ?_
  cases e <;> cases he
  exact maintains_bind (hact _) fun _ => hact _

namespace KeepsRecord

variable {A : Footprint Op Vars} (h : KeepsRecord env A inv)

include h

theorem act {action : Act} : Maintains env inv (act action : Py State ρ action.Result) :=
  (steady_act channel_true (h.calls _) fun _ _ => trivial).maintains h.quiet

theorem ask {query : Query} : Maintains env inv (ask query : Py State ρ query.Answer) :=
  (steady_ask channel_true (h.calls _)).maintains h.quiet

theorem assign {f : Vars → Vars}
    (hf : ∀ v, (f v).reqPerSec = v.reqPerSec ∨ (f v).reqPerSec = none) :
    Maintains env inv (Script.assign f : Py State ρ Unit) :=
  (steady_assign channel_true (h.assigns f hf)).maintains h.quiet

theorem setProc {proc : Proc} {value : Bool} :
    Maintains env inv (setProc proc value : Py State ρ Unit) :=
  h.assign fun _ => .inl rfl

theorem enterFunction : Maintains env inv (enterFunction : Py State ρ Unit) :=
  h.assign fun _ => .inr rfl

theorem popen {proc : Proc} : Maintains env inv (popen proc : Py State ρ Unit) :=
  (steady_popen channel_true (h.calls _) (h.assigns _ fun _ => .inl rfl)
    fun _ _ => trivial).maintains h.quiet

theorem checkFileExists {path : Path} :
    Maintains env inv (checkFileExists path : Py State ρ Bool) :=
  (steady_checkFileExists channel_true (fun _ _ => h.calls _) (h.calls _)
    fun _ _ _ => trivial).maintains h.quiet

theorem cleanupProcesses : Maintains env inv (cleanupProcesses : Py State ρ Unit) :=
  (steady_cleanupProcesses channel_true fun _ _ => h.calls _).maintains h.quiet

theorem prepareNginxDirectories :
    Maintains env inv (prepareNginxDirectories : Py State ρ Unit) :=
  (steady_prepareNginxDirectories channel_true fun _ _ => h.calls _).maintains h.quiet

theorem reportNginxExit : Maintains env inv (reportNginxExit : Py State ρ Unit) :=
  (steady_reportNginxExit channel_true (fun _ _ => h.calls _) fun _ _ => trivial).maintains
    h.quiet

theorem startNginx {cfg : Config} :
    Maintains env inv (startNginx cfg : Py State ρ (Bool × Option Text)) :=
  (steady_startNginx channel_true (fun _ _ => h.calls _) (h.calls _)
    (h.assigns _ fun _ => .inl rfl) (fun _ _ => trivial) fun _ _ _ => trivial).maintains h.quiet

theorem stopNginx : Maintains env inv (stopNginx : Py State ρ Unit) :=
  (steady_stopNginx channel_true fun _ _ => h.calls _).maintains h.quiet

theorem onTimeout {leg : Leg} (e : Exc) (handler : Py State Unit Unit)
    (he : onTimeout (markFailed leg .timeouts) (markFailed leg .exceptions) e =
      some handler) : Maintains env inv handler := by
  cases e with
  | timeoutExpired =>
      cases he
      exact h.failed _ _
  | other =>
      cases he
      exact h.failed _ _
  | keyboardInterrupt => cases he
  | systemExit code => cases he

theorem fails {leg : Leg} {reason : Reason} :
    Maintains env inv (do
      markFailed leg reason
      Script.cont : Py State Unit Unit) :=
  maintains_bind (h.failed _ _) fun _ => maintains_cont

theorem clearRun {mode : Mode} : Maintains env inv (clearRun mode : Py State Unit Unit) := by
  refine maintains_bind h.setProc fun _ => ?_
  exact maintains_bind (h.assign fun _ => .inl rfl) fun _ => h.assign fun _ => .inr rfl

theorem measureTraced {leg : Leg} {mode : Mode} :
    Maintains env inv (measureTraced leg mode : Py State Unit Unit) := by
  refine maintains_bind h.act fun _ => ?_
  refine maintains_bind (h.assign fun _ => .inl rfl) fun _ => ?_
  refine maintains_bind h.popen fun _ => ?_
  refine maintains_bind h.ask fun _ => ?_
  refine maintains_bind h.ask fun _ => ?_
  refine maintains_bind (maintains_when h.fails) fun _ => ?_
  refine maintains_bind h.act fun result => ?_
  refine maintains_bind (maintains_when h.fails) fun _ => ?_
  refine maintains_bind (fun k hk => ?_) fun _ => maintains_when (h.failed _ _)
  exact wp_assign (fun _ _ => h.quiet.tick k hk) fun _ => h.measured k result.stdout hk

theorem nativeRuns (cfg : Config) :
    Maintains env inv (nativeRuns cfg : Py State Unit Unit) := by
  refine maintains_bind (maintains_forRange (fun _ => ?_) h.marked) fun _ => maintains_pure
  refine maintains_tryExcept ?_ h.onTimeout
  refine maintains_bind h.act fun result => ?_
  refine maintains_bind (maintains_when h.fails) fun _ => ?_
  cases hvalue : throughput result.stdout with
  | some v => exact h.recorded v (throughput_pos hvalue)
  | none => exact h.failed _ _

theorem kernelRuns (cfg : Config) (targetPid : Bool) (nginxPid : Option Text) :
    Maintains env inv (kernelRuns cfg targetPid nginxPid : Py State Unit Unit) := by
  refine maintains_bind (maintains_forRange (fun _ => ?_) h.marked) fun _ => maintains_pure
  refine maintains_bind (maintains_when maintains_cont) fun _ => ?_
  refine maintains_bind h.clearRun fun _ => ?_
  refine maintains_tryFinally ?_ (h.finished _ _ _ _)
  exact maintains_tryExcept h.measureTraced h.onTimeout

theorem startUserbpf {leg : Leg} {targetPid : Bool} :
    Maintains env inv (startUserbpf leg targetPid : Py State Unit Unit) := by
  refine maintains_bind h.ask fun _ => ?_
  refine maintains_bind (maintains_when maintains_cont) fun _ => ?_
  refine maintains_bind h.act fun _ => ?_
  refine maintains_bind h.prepareNginxDirectories fun _ => ?_
  refine maintains_bind h.act fun _ => ?_
  refine maintains_bind h.popen fun _ => ?_
  refine maintains_bind h.ask fun _ => ?_
  refine maintains_bind h.ask fun _ => ?_
  refine maintains_bind (maintains_when ?_) fun _ => ?_
  · exact maintains_bind h.reportNginxExit fun _ => h.fails
  refine maintains_bind h.act fun _ => ?_
  refine maintains_bind (maintains_when h.fails) fun _ => ?_
  exact maintains_bind h.act fun _ => h.act

theorem userbpfRuns (cfg : Config) (targetPid : Bool) :
    Maintains env inv (userbpfRuns cfg targetPid : Py State Unit Unit) := by
  refine maintains_bind (maintains_forRange (fun _ => ?_) h.marked) fun _ => maintains_pure
  refine maintains_bind h.setProc fun _ => ?_
  refine maintains_bind h.clearRun fun _ => ?_
  refine maintains_tryFinally (maintains_tryExcept ?_ h.onTimeout) ?_
  · exact maintains_bind h.startUserbpf fun _ => h.measureTraced
  · refine maintains_bind (maintains_ignoring ?_) fun _ => ?_
    · refine maintains_bind (maintains_bind keeps_vars fun _ => maintains_pure) fun _ => ?_
      exact maintains_ite (maintains_bind h.act fun _ => h.act) maintains_pure
    · exact maintains_bind (h.finished _ _ _ _) fun _ => h.cleanupProcesses

theorem runNative (cfg : Config) : Maintains env inv (runNative cfg : Py State ρ Unit) := by
  refine maintains_func ?_
  refine maintains_bind h.enterFunction fun _ => ?_
  refine maintains_bind h.startNginx fun _ => ?_
  refine maintains_bind h.setProc fun _ => ?_
  refine maintains_bind (maintains_when maintains_ret) fun _ => ?_
  exact maintains_tryFinally (maintains_ignoring (h.nativeRuns cfg)) h.stopNginx

theorem runKernelSyscount (cfg : Config) (targetPid : Bool) :
    Maintains env inv (runKernelSyscount cfg targetPid : Py State ρ Unit) := by
  refine maintains_func ?_
  refine maintains_bind h.enterFunction fun _ => ?_
  refine maintains_bind h.startNginx fun nginx => ?_
  refine maintains_bind h.setProc fun _ => ?_
  refine maintains_bind (maintains_when maintains_ret) fun _ => ?_
  refine maintains_bind h.checkFileExists fun _ => ?_
  refine maintains_bind (maintains_when maintains_ret) fun _ => ?_
  exact maintains_tryFinally (maintains_ignoring (h.kernelRuns cfg targetPid nginx.2))
    h.stopNginx

theorem runUserbpfSyscount (cfg : Config) (targetPid : Bool) :
    Maintains env inv (runUserbpfSyscount cfg targetPid : Py State ρ Unit) := by
  refine maintains_func ?_
  refine maintains_bind h.enterFunction fun _ => ?_
  refine maintains_bind h.checkFileExists fun _ => ?_
  refine maintains_bind (maintains_when maintains_ret) fun _ => ?_
  refine maintains_bind h.checkFileExists fun _ => ?_
  refine maintains_bind (maintains_when maintains_ret) fun _ => ?_
  refine maintains_bind h.checkFileExists fun _ => ?_
  refine maintains_bind (maintains_when maintains_ret) fun _ => ?_
  exact h.userbpfRuns cfg targetPid

/-- The program keeps what its runs keep. -/
theorem main (cfg : Config) : Maintains env inv (main cfg : Py State ρ Unit) := by
  refine maintains_func ?_
  refine maintains_tryFinally (maintains_tryExcept ?_ ?_) h.cleanupProcesses
  · refine maintains_bind (maintains_checkEnvironment h.quiet h.calls) fun _ => ?_
    refine maintains_bind ?_ fun _ => ?_
    · refine maintains_bind (h.runNative cfg) fun _ => ?_
      refine maintains_bind (h.runKernelSyscount cfg true) fun _ => ?_
      refine maintains_bind (h.runKernelSyscount cfg false) fun _ => ?_
      refine maintains_bind (h.runUserbpfSyscount cfg true) fun _ => ?_
      exact h.runUserbpfSyscount cfg false
    · refine maintains_bind h.act fun _ => ?_
      refine maintains_bind h.act fun _ => ?_
      exact maintains_bind maintains_read fun _ => maintains_when maintains_raise
  · intro e handler he
    cases e <;> cases he <;> exact maintains_pure

end KeepsRecord

theorem KeepsRuns.main (h : KeepsRuns env inv) (cfg : Config) :
    Maintains env inv (main cfg : Py State ρ Unit) :=
  h.record.main cfg

end Maintains

section Summaries

open Script

variable {env : PyEnv} {A : Footprint Op Vars} {inv : PyMachine State → Prop}

/-- A trace is summarized once its logs have been read. -/
theorem wp_summarizeSyscountLog (hquiet : Quiet A inv)
    (hA : ∀ op, op.housekeeping = true → A.calls op) {leg : Leg} {mode : Mode} {i : Nat}
    {returncode : Option Int} {require : Bool} {k : PyMachine State}
    {Q : Summary → PyMachine State → Prop} {X : Exit Exc ρ → PyMachine State → Prop}
    (hk : inv k)
    (hadded : ∀ summary k', inv k' → Q summary (k'.updated fun s => s.addTrace leg summary))
    (hX : ∀ e k', inv k' → X (.raise e) k') :
    wp env (summarizeSyscountLog leg mode i returncode require) Q X k := by
  have hchannel := @channel_true Op Op.Reply State Vars Exc ρ env A
  have hraise (e : Exc) (k' : PyMachine State) (_ : True) (hk' : inv k') :
      X (.raise e) k' := hX e k' hk'
  refine wp_bind ((steady_readLog hchannel hA (.inl rfl) fun _ _ => trivial).use hquiet hk
    (fun _ k hk => wp_bind ?_) hraise)
  refine (steady_readLog hchannel hA (.inr rfl) fun _ _ => trivial).use hquiet hk
    (fun _ k hk => wp_bind ?_) hraise
  refine (steady_statLog hchannel hA (.inl rfl) fun _ _ => trivial).use hquiet hk
    (fun _ k hk => wp_bind ?_) hraise
  refine (steady_statLog hchannel hA (.inr rfl) fun _ _ => trivial).use hquiet hk
    (fun _ k hk => wp_bind ?_) hraise
  exact wp_update (fun e _ => hX e _ (hquiet.tick k hk)) fun _ => wp_pure (hadded _ k hk)

end Summaries

end BpftimeBenchmark.Bench.Syscount
