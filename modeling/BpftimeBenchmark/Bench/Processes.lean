import BpftimeBenchmark.Lib.ScriptRules
import BpftimeBenchmark.Lib.Pattern
import Mathlib.Algebra.Order.Ring.Rat

/-!
What the benchmark scripts `ssl-nginx/benchmark.py` and
`syscount-nginx/benchmark.py` do to the outside world, and the helper functions
the two files share. A query always has an answer; an act may raise. Output to
the terminal is left out and never fails. A signal may arrive before any query,
act or assignment, and its handler raises `SystemExit(0)`.
-/

namespace BpftimeBenchmark.Bench

open Scripts

inductive Exc where
  | timeoutExpired
  | other
  | keyboardInterrupt
  | systemExit (code : Nat)
  deriving DecidableEq

/-- Where the tracer's programs run: the kernel or bpftime. -/
inductive Mode where
  | kernel
  | userspace
  deriving DecidableEq

/-- The variables of the scripts that hold a process. The tracer is `sslsniff`
or `syscount`; `traceCheck` is the process of `collect_trace_preflight`. -/
inductive Proc where
  | nginx
  | tracer (mode : Mode)
  | preflightNginx
  | preflightTracer
  | traceCheck
  deriving DecidableEq

inductive Tool where
  | nginx
  | wrk
  deriving DecidableEq

inductive Command where
  | which (tool : Tool)
  | curlStatus
  | curlTrace (proc : Proc)
  | wrk
  | pgrepNginx
  | pgrepTracer
  | pgrepNginxCommand
  | kill (pid : Text)
  | sudoKill (pid : Text)
  | kill9 (pid : Text)
  | sudoKill9 (pid : Text)
  | sudoPkillTracer
  deriving DecidableEq

inductive Path where
  | accessLog
  | nginxConf
  | tracer
  | agent
  | syscallServer
  | script
  | commonNginx (i : Nat)
  | traceStdout (mode : Mode)
  | traceStderr (mode : Mode)
  deriving DecidableEq

/-- What a process is waited for to do: end by itself, or after a signal. -/
inductive Wait where
  | own
  | afterTerminate
  | afterKill
  deriving DecidableEq

inductive Query where
  | pathExists (path : Path)
  | nginxExecutable
  | poll (proc : Proc)
  | readyRounds
  | inScriptDirectory
  | sleep
  deriving DecidableEq

/-- `readyRounds` is how often a loop up to a deadline runs. -/
@[reducible] def Query.Answer : Query → Type
  | .pathExists _ => Bool
  | .nginxExecutable => Bool
  | .poll _ => Option Int
  | .readyRounds => Nat
  | .inScriptDirectory => Bool
  | .sleep => Unit

/-- `triedAbspath` is `os.path.abspath` inside the `try` of a bpftime run. -/
inductive Act where
  | getcwd
  | abspath (path : Path)
  | triedAbspath (path : Path)
  | remove (path : Path)
  | makeLogsDirectory
  | chdir
  | run (command : Command)
  | popen (proc : Proc)
  | communicate (proc : Proc)
  | decode
  | wait (proc : Proc) (wait : Wait)
  | terminate (proc : Proc)
  | kill (proc : Proc)
  | openTraceLogs (mode : Mode)
  | closeTraceLogs (mode : Mode)
  | readText (path : Path)
  | stat (path : Path)
  | writeResults
  | writeReport
  deriving DecidableEq

structure Completed where
  returncode : Int
  stdout : Text
  stderr : Text

@[reducible] def Act.Result : Act → Type
  | .run _ => Completed
  | .communicate _ => Text × Text
  | .readText _ => Text
  | _ => Unit

inductive Op where
  | ask (query : Query)
  | act (action : Act)
  deriving DecidableEq

inductive Failure where
  | timeoutExpired
  | other
  deriving DecidableEq

@[reducible] def Op.Reply : Op → Type
  | .ask query => query.Answer
  | .act action => Except Failure action.Result

abbrev Call := Σ op : Op, op.Reply

def Failure.exc : Failure → Exc
  | .timeoutExpired => .timeoutExpired
  | .other => .other

/-- The variables of the function that is running: which of the process
variables hold a process, whether the trace logs are open, and the throughput
read last. -/
structure Vars where
  procs : Proc → Bool
  traceFiles : Bool
  reqPerSec : Option ℚ

/-- Nothing is bound, or everything is `None`. -/
def Vars.unset : Vars where
  procs := fun _ => false
  traceFiles := false
  reqPerSec := none

def Vars.setProc (v : Vars) (proc : Proc) (value : Bool) : Vars :=
  { v with procs := fun p => if p = proc then value else v.procs p }

abbrev PyEnv := Env Op Op.Reply Exc

abbrev PyMachine (σ : Type) := Machine Op Op.Reply σ Vars

abbrev Py (σ ρ α : Type) := Script Op Op.Reply σ Vars Exc ρ α

section Helpers

variable {σ ρ α : Type}

def ask (query : Query) : Py σ ρ query.Answer := Script.call (Op.ask query)

def settle (reply : Except Failure α) : Py σ ρ α :=
  match reply with
  | .ok r => pure r
  | .error f => Script.raise f.exc

def act (action : Act) : Py σ ρ action.Result := do
  let reply ← Script.call (Op.act action)
  settle reply

/-- `except Exception`. -/
def onException (handler : Py σ ρ α) : Exc → Option (Py σ ρ α)
  | .timeoutExpired => some handler
  | .other => some handler
  | .keyboardInterrupt => none
  | .systemExit _ => none

/-- A bare `except`. -/
def onAny (handler : Py σ ρ α) : Exc → Option (Py σ ρ α) :=
  fun _ => some handler

/-- `except subprocess.TimeoutExpired` and then `except Exception`. -/
def onTimeout (timedOut handler : Py σ ρ α) : Exc → Option (Py σ ρ α)
  | .timeoutExpired => some timedOut
  | .other => some handler
  | .keyboardInterrupt => none
  | .systemExit _ => none

/-- `except KeyboardInterrupt` and then `except Exception`. -/
def onInterrupt (interrupted handler : Py σ ρ α) : Exc → Option (Py σ ρ α)
  | .keyboardInterrupt => some interrupted
  | .timeoutExpired => some handler
  | .other => some handler
  | .systemExit _ => none

def ignoring (body : Py σ ρ Unit) : Py σ ρ Unit :=
  Script.tryExcept body (onException (pure ()))

def enterFunction : Py σ ρ Unit := Script.assign (fun _ => Vars.unset)

def setProc (proc : Proc) (value : Bool) : Py σ ρ Unit :=
  Script.assign (fun v => v.setProc proc value)

def holds (proc : Proc) : Py σ ρ Bool := do
  let v ← Script.vars
  pure (v.procs proc)

def popen (proc : Proc) : Py σ ρ Unit := do
  act (.popen proc)
  setProc proc true

/-- A method of a process; on an unset variable it raises. -/
def method (proc : Proc) (action : Act) : Py σ ρ action.Result := do
  if ← holds proc then act action else Script.raise .other

def terminateProcess (proc : Proc) : Py σ ρ Unit := do
  if ← holds proc then
    Script.tryExcept (do act (.terminate proc); act (.wait proc .afterTerminate))
      (onException (ignoring do act (.kill proc); act (.wait proc .afterKill)))

/-- The end of a function that runs nginx throughout. -/
def terminateNginx : Py σ ρ Unit :=
  Script.tryExcept (do
    method .nginx (.terminate .nginx)
    method .nginx (.wait .nginx .afterTerminate))
    (onException (Script.tryExcept (method .nginx (.kill .nginx)) (onAny (pure ()))))

def removeAccessLog : Py σ ρ Unit := do
  act (.abspath .accessLog)
  ignoring do
    if ← ask (.pathExists .accessLog) then
      act (.remove .accessLog)

def checkFileExists (path : Path) : Py σ ρ Bool := do
  act (.abspath path)
  ask (.pathExists path)

def commonPaths : List Path :=
  [.commonNginx 0, .commonNginx 1, .commonNginx 2, .commonNginx 3]

/-- `byPath` says that the command is given as a path. -/
def checkCommandExists (byPath : Bool) (cmd : Tool) : Py σ ρ Bool :=
  Script.func <| Script.tryExcept (do
    Script.when byPath do
      let found ← ask .nginxExecutable
      Script.ret found
    let result ← act (.run (.which cmd))
    Script.when (result.returncode ≠ 0 ∧ cmd = .nginx) do
      let _ ← Script.forEach commonPaths fun path => do
        if ← ask (.pathExists path) then
          Script.ret true
    pure (decide (result.returncode = 0)))
    (onException (pure false))

/-- The checks at the start of both `main` functions, whose `return`s leave them. -/
def checkEnvironment (byPath : Bool) : Py σ Unit Unit := do
  act .getcwd
  let nginxInstalled ← checkCommandExists byPath .nginx
  Script.when (nginxInstalled = false) (Script.ret ())
  let present ← ask (.pathExists .nginxConf)
  Script.when (present = false) do
    act (.abspath .script)
    let inScriptDirectory ← ask .inScriptDirectory
    Script.when (inScriptDirectory = true) do
      act .chdir
      act .getcwd
  let _ ← checkFileExists .agent
  let _ ← checkFileExists .syscallServer
  let _ ← checkFileExists .tracer
  let present ← ask (.pathExists .nginxConf)
  Script.when (present = false) (Script.ret ())
  let wrkInstalled ← checkCommandExists false .wrk
  Script.when (wrkInstalled = false) (Script.ret ())

def pids (result : Completed) : List Text := Text.words (Text.strip result.stdout)

def killEach (found : List Text) (killing : Text → Command) : Py σ ρ Unit := do
  let _ ← Script.forEach found fun pid => ignoring do
    let _ ← act (.run (killing pid))

/-- The tracer may belong to root, so a second attempt goes through `sudo`. -/
def killEachSudo (found : List Text) (killing asRoot : Text → Command) : Py σ ρ Unit := do
  let _ ← Script.forEach found fun pid =>
    Script.tryExcept (do let _ ← act (.run (killing pid)))
      (onException (ignoring do let _ ← act (.run (asRoot pid))))

def cleanupProcesses : Py σ ρ Unit := ignoring do
  let nginxPids ← act (.run .pgrepNginx)
  let tracerPids ← act (.run .pgrepTracer)
  killEach (pids nginxPids) .kill
  killEachSudo (pids tracerPids) .kill .sudoKill
  ask .sleep
  let remainingNginxPids ← act (.run .pgrepNginx)
  let remainingTracerPids ← act (.run .pgrepTracer)
  killEach (pids remainingNginxPids) .kill9
  killEachSudo (pids remainingTracerPids) .kill9 .sudoKill9

/-- `Requests/sec:\s+(\d+\.\d+)`. -/
def requestsPattern : Pattern :=
  Pattern.literal "Requests/sec:".toList ++ Pattern.spaces ++ Pattern.decimalGroup

def parseWrkOutput (output : Text) : Option ℚ :=
  (requestsPattern.search output).map Text.decimalValue

/-- What `if req_per_sec` takes for a value: `float` rounds what is at most half
the least positive number to zero. -/
def throughput (output : Text) : Option ℚ :=
  (parseWrkOutput output).filter (fun v => 1 / 2 ^ 1075 < v)

theorem throughput_pos {output : Text} {v : ℚ} (h : throughput output = some v) : 0 < v := by
  have hleast : (0 : ℚ) < 1 / 2 ^ 1075 := by decide +kernel
  exact hleast.trans (of_decide_eq_true (Option.filter_eq_some_iff.mp h).2)

end Helpers

def Exc.ordinary : Exc → Bool
  | .timeoutExpired => true
  | .other => true
  | .keyboardInterrupt => false
  | .systemExit _ => false

theorem Failure.exc_ordinary (f : Failure) : f.exc.ordinary = true := by
  cases f <;> rfl

/-- What the helpers ask: neither for `wrk` and `nginx.conf`, nor for the tracer
to end by itself. -/
def Op.housekeeping : Op → Bool
  | .ask (.pathExists .nginxConf) => false
  | .act (.run (.which .wrk)) => false
  | .act (.run .wrk) => false
  | .act (.wait (.tracer _) .own) => false
  | _ => true

section Steady

open Script

variable {σ ρ α : Type} {env : PyEnv} {A : Footprint Op Vars}
  {Y : Exit Exc ρ → PyMachine σ → Prop}

/-- The exits in the body of a `try` that catches `Exception`. -/
def patient (Y : Exit Exc ρ → PyMachine σ → Prop) : Exit Exc ρ → PyMachine σ → Prop :=
  raising (fun e k => e.ordinary = true ∨ Y (.raise e) k) Y

theorem patient_tolerates (f : Failure) (k : PyMachine σ) :
    patient Y (.raise f.exc) k :=
  .inl f.exc_ordinary

theorem channel_patient (hchannel : Channel env A Y) :
    Channel env A (patient Y) := by
  refine hchannel.raising (fun e => ?_) (fun k e he => ?_)
  · exact (Quiet.const A _).or (hchannel.quiet _)
  · exact .inr (hchannel.interrupt k e he)

theorem steady_ask {query : Query} (hchannel : Channel env A Y) (hop : A.calls (.ask query)) :
    Steady env A Y (ask query) :=
  steady_call hchannel hop

theorem steady_act {action : Act} (hchannel : Channel env A Y) (hop : A.calls (.act action))
    (hfail : ∀ (k : PyMachine σ) f,
      Y (.raise f.exc) (k.answered (.act action) (.error f))) :
    Steady env A Y (act action) := by
  intro inv hq k hk
  refine wp_bind (wp_call (fun e he => ?_) (fun _ => ?_))
  · exact ⟨hchannel.interrupt k e he, hq.tick k hk⟩
  · have hinv := hq.answered k _ (env.answer k.clock (.act action)) hop hk
    cases hr : env.answer k.clock (.act action) with
    | ok r =>
        rw [hr] at hinv
        exact wp_pure hinv
    | error f =>
        rw [hr] at hinv
        exact wp_raise ⟨hfail k f, hinv⟩

theorem steady_onException {body handler : Py σ ρ α}
    (hbody : Steady env A (patient Y) body) (hhandler : Steady env A Y handler) :
    Steady env A Y (tryExcept body (onException handler)) := by
  refine steady_tryExcept hbody fun e => ?_
  cases e with
  | timeoutExpired => exact hhandler
  | other => exact hhandler
  | keyboardInterrupt => exact fun k hk => hk.resolve_left (by decide)
  | systemExit code => exact fun k hk => hk.resolve_left (by simp [Exc.ordinary])

theorem steady_ignoring {body : Py σ ρ Unit} (h : Steady env A (patient Y) body) :
    Steady env A Y (ignoring body) :=
  steady_onException h steady_pure

theorem steady_holds {proc : Proc} : Steady env A Y (holds proc) :=
  steady_bind steady_vars fun _ => steady_pure

theorem steady_popen {proc : Proc} (hchannel : Channel env A Y)
    (hop : A.calls (.act (.popen proc)))
    (hset : A.assigns fun v => v.setProc proc true)
    (hfail : ∀ (k : PyMachine σ) f,
      Y (.raise f.exc) (k.answered (.act (.popen proc)) (.error f))) :
    Steady env A Y (popen proc) :=
  steady_bind (steady_act hchannel hop hfail) fun _ => steady_assign hchannel hset

theorem steady_method {proc : Proc} {action : Act} (hchannel : Channel env A Y)
    (hop : A.calls (.act action)) (hfail : ∀ f k, Y (.raise (Failure.exc f)) k) :
    Steady env A Y (method proc action) := by
  refine steady_bind steady_holds fun _ => steady_ite ?_ ?_
  · exact steady_act hchannel hop (fun _ f => hfail f _)
  · exact steady_raise (hfail .other)

theorem steady_killEach {found : List Text} {killing : Text → Command}
    (hchannel : Channel env A Y) (hop : ∀ pid, A.calls (.act (.run (killing pid)))) :
    Steady env A Y (killEach found killing) := by
  have hin := channel_patient hchannel.round
  refine steady_bind (steady_forEach fun pid _ => steady_ignoring ?_) fun _ => steady_pure
  exact steady_bind (steady_act hin (hop pid) fun _ f => patient_tolerates f _)
    fun _ => steady_pure

theorem steady_killEachSudo {found : List Text} {killing asRoot : Text → Command}
    (hchannel : Channel env A Y) (hop : ∀ pid, A.calls (.act (.run (killing pid))))
    (hroot : ∀ pid, A.calls (.act (.run (asRoot pid)))) :
    Steady env A Y (killEachSudo found killing asRoot) := by
  have hin := channel_patient hchannel.round
  refine steady_bind (steady_forEach fun pid _ => steady_onException ?_ ?_) fun _ => steady_pure
  · exact steady_bind (steady_act hin (hop pid) fun _ f => patient_tolerates f _)
      fun _ => steady_pure
  · refine steady_ignoring ?_
    exact steady_bind (steady_act hin (hroot pid) fun _ f => patient_tolerates f _)
      fun _ => steady_pure

section Housekeeping

variable (hchannel : Channel env A Y) (hA : ∀ op, op.housekeeping = true → A.calls op)

include hchannel hA

theorem steady_terminateProcess {proc : Proc} :
    Steady env A Y (terminateProcess proc) := by
  refine steady_bind steady_holds fun _ => steady_ite (steady_onException ?_ ?_) steady_pure
  · have hin := channel_patient hchannel
    refine steady_bind (steady_act hin (hA _ rfl) fun _ f => patient_tolerates f _) fun _ => ?_
    exact steady_act hin (hA _ (by cases proc <;> rfl)) fun _ f => patient_tolerates f _
  · have hin := channel_patient hchannel
    refine steady_ignoring ?_
    refine steady_bind (steady_act hin (hA _ rfl) fun _ f => patient_tolerates f _) fun _ => ?_
    exact steady_act hin (hA _ (by cases proc <;> rfl)) fun _ f => patient_tolerates f _

theorem steady_removeAccessLog
    (habspath : ∀ (k : PyMachine σ) path f,
      Y (.raise f.exc) (k.answered (.act (.abspath path)) (.error f))) :
    Steady env A Y removeAccessLog := by
  have hin := channel_patient hchannel
  refine steady_bind (steady_act hchannel (hA _ rfl) fun k => habspath k _) fun _ => ?_
  refine steady_ignoring (steady_bind (steady_ask hin (hA _ rfl)) fun _ => ?_)
  exact steady_ite (steady_act hin (hA _ rfl) fun _ f => patient_tolerates f _) steady_pure

theorem steady_checkFileExists {path : Path}
    (hpath : A.calls (.ask (.pathExists path)))
    (habspath : ∀ (k : PyMachine σ) path f,
      Y (.raise f.exc) (k.answered (.act (.abspath path)) (.error f))) :
    Steady env A Y (checkFileExists path) :=
  steady_bind (steady_act hchannel (hA _ rfl) fun k => habspath k _) fun _ =>
    steady_ask hchannel hpath

theorem steady_cleanupProcesses : Steady env A Y cleanupProcesses := by
  have hin := channel_patient hchannel
  refine steady_ignoring ?_
  refine steady_bind (steady_act hin (hA _ rfl) fun _ f => patient_tolerates f _) fun _ => ?_
  refine steady_bind (steady_act hin (hA _ rfl) fun _ f => patient_tolerates f _) fun _ => ?_
  refine steady_bind (steady_killEach hin fun _ => hA _ rfl) fun _ => ?_
  refine steady_bind (steady_killEachSudo hin (fun _ => hA _ rfl) fun _ => hA _ rfl)
    fun _ => ?_
  refine steady_bind (steady_ask hin (hA _ rfl)) fun _ => ?_
  refine steady_bind (steady_act hin (hA _ rfl) fun _ f => patient_tolerates f _) fun _ => ?_
  refine steady_bind (steady_act hin (hA _ rfl) fun _ f => patient_tolerates f _) fun _ => ?_
  refine steady_bind (steady_killEach hin fun _ => hA _ rfl) fun _ => ?_
  exact steady_killEachSudo hin (fun _ => hA _ rfl) fun _ => hA _ rfl

theorem steady_checkCommandExists {byPath : Bool} {cmd : Tool}
    (hop : A.calls (.act (.run (.which cmd)))) :
    Steady env A Y (checkCommandExists byPath cmd) := by
  have hin := channel_patient (@Channel.func _ _ _ _ _ _ Bool _ _ _ hchannel)
  refine steady_func (steady_onException ?_ steady_pure)
  refine steady_bind (steady_when ?_) fun _ => ?_
  · exact steady_bind (steady_ask hin (hA _ rfl)) fun _ => steady_ret fun _ => trivial
  · refine steady_bind (steady_act hin hop fun _ f => patient_tolerates f _) fun _ => ?_
    refine steady_bind (steady_when ?_) fun _ => steady_pure
    refine steady_bind (steady_forEach fun path hpath => ?_) fun _ => steady_pure
    have hcommon : A.calls (.ask (.pathExists path)) := by
      refine hA _ ?_
      simp only [commonPaths, List.mem_cons, List.not_mem_nil, or_false] at hpath
      rcases hpath with rfl | rfl | rfl | rfl <;> rfl
    refine steady_bind (steady_ask hin.round hcommon) fun _ => ?_
    exact steady_ite (steady_ret fun _ => trivial) steady_pure

end Housekeeping

theorem steady_onAny {body handler : Py σ ρ α} (hbody :
      Steady env A (raising (fun _ _ => True) Y) body)
    (hhandler : Steady env A Y handler) :
    Steady env A Y (tryExcept body (onAny handler)) :=
  steady_tryExcept hbody fun _ => hhandler

theorem steady_terminateNginx (hchannel : Channel env A Y)
    (hA : ∀ op, op.housekeeping = true → A.calls op) : Steady env A Y terminateNginx := by
  have hin := channel_patient hchannel
  refine steady_onException ?_ (steady_onAny ?_ steady_pure)
  · refine steady_bind (steady_method hin (hA _ rfl) patient_tolerates) fun _ => ?_
    exact steady_method hin (hA _ rfl) patient_tolerates
  · refine steady_method (hchannel.raising (fun _ => Quiet.const A True) ?_) (hA _ rfl) ?_
    · exact fun _ _ _ => trivial
    · exact fun _ _ => trivial

end Steady

/-- Steady, with any call and any exception. -/
def Free {σ ρ α : Type} (env : PyEnv) (m : Py σ ρ α) : Prop :=
  Script.Steady env Footprint.all (Script.onlyRaise (fun _ _ => True)) m

section Free

open Script

variable {σ ρ α : Type} {env : PyEnv}

theorem Free.maintains {inv : PyMachine σ → Prop} {m : Py σ ρ α} (h : Free env m)
    (hquiet : Quiet Footprint.all inv) : Maintains env inv m :=
  Steady.maintains h hquiet

theorem Free.use {inv : PyMachine σ → Prop} {m : Py σ ρ α} (h : Free env m)
    (hquiet : Quiet Footprint.all inv) {k : PyMachine σ} (hk : inv k)
    {Q : α → PyMachine σ → Prop} {X : Exit Exc ρ → PyMachine σ → Prop}
    (hQ : ∀ a k', inv k' → Q a k') (hX : ∀ e k', inv k' → X (.raise e) k') :
    wp env m Q X k :=
  Steady.use h hquiet hk hQ fun e k' _ hk' => hX e k' hk'

theorem maintains_ignoring {inv : PyMachine σ → Prop} {body : Py σ ρ Unit}
    (h : Maintains env inv body) :
    Maintains env inv (ignoring body) := by
  refine maintains_tryExcept h fun e handler he => ?_
  cases e <;> cases he <;> exact maintains_pure

theorem free_ask {query : Query} : Free env (ask query : Py σ ρ query.Answer) :=
  steady_ask channel_true trivial

theorem free_act {action : Act} : Free env (act action : Py σ ρ action.Result) :=
  steady_act channel_true trivial fun _ _ => trivial

theorem free_enterFunction : Free env (enterFunction : Py σ ρ Unit) :=
  steady_assign channel_true trivial

theorem free_setProc {proc : Proc} {value : Bool} :
    Free env (setProc proc value : Py σ ρ Unit) :=
  steady_assign channel_true trivial

theorem free_holds {proc : Proc} : Free env (holds proc : Py σ ρ Bool) := steady_holds

theorem free_popen {proc : Proc} : Free env (popen proc : Py σ ρ Unit) :=
  steady_popen channel_true trivial trivial fun _ _ => trivial

theorem free_terminateProcess {proc : Proc} :
    Free env (terminateProcess proc : Py σ ρ Unit) :=
  steady_terminateProcess channel_true fun _ _ => trivial

theorem free_terminateNginx : Free env (terminateNginx : Py σ ρ Unit) :=
  steady_terminateNginx channel_true fun _ _ => trivial

theorem free_removeAccessLog : Free env (removeAccessLog : Py σ ρ Unit) :=
  steady_removeAccessLog channel_true (fun _ _ => trivial) fun _ _ _ => trivial

theorem free_checkFileExists {path : Path} :
    Free env (checkFileExists path : Py σ ρ Bool) :=
  steady_checkFileExists channel_true (fun _ _ => trivial) trivial fun _ _ _ => trivial

theorem free_checkCommandExists {byPath : Bool} {cmd : Tool} :
    Free env (checkCommandExists byPath cmd : Py σ ρ Bool) :=
  steady_checkCommandExists channel_true (fun _ _ => trivial) trivial

theorem free_cleanupProcesses : Free env (cleanupProcesses : Py σ ρ Unit) :=
  steady_cleanupProcesses channel_true fun _ _ => trivial

end Free

section CheckEnvironment

open Script

variable {σ : Type} {env : PyEnv} {A : Footprint Op Vars} {inv : PyMachine σ → Prop}

theorem maintains_checkEnvironment (hquiet : Quiet A inv) (hcalls : ∀ op, A.calls op)
    {byPath : Bool} : Maintains env inv (checkEnvironment byPath) := by
  have hact (action : Act) : Maintains env inv (act action : Py σ Unit action.Result) :=
    (steady_act channel_true (hcalls _) fun _ _ => trivial).maintains hquiet
  have hask (query : Query) : Maintains env inv (ask query : Py σ Unit query.Answer) :=
    (steady_ask channel_true (hcalls _)).maintains hquiet
  have hcommand {byPath : Bool} {tool : Tool} :
      Maintains env inv (checkCommandExists byPath tool : Py σ Unit Bool) :=
    (steady_checkCommandExists channel_true (fun _ _ => hcalls _) (hcalls _)).maintains hquiet
  have hfile {path : Path} : Maintains env inv (checkFileExists path : Py σ Unit Bool) :=
    (steady_checkFileExists channel_true (fun _ _ => hcalls _) (hcalls _)
      fun _ _ _ => trivial).maintains hquiet
  refine maintains_bind (hact _) fun _ => ?_
  refine maintains_bind hcommand fun _ => ?_
  refine maintains_bind (maintains_when maintains_ret) fun _ => ?_
  refine maintains_bind (hask _) fun _ => ?_
  refine maintains_bind (maintains_when ?_) fun _ => ?_
  · refine maintains_bind (hact _) fun _ => ?_
    refine maintains_bind (hask _) fun _ => maintains_when ?_
    exact maintains_bind (hact _) fun _ => hact _
  · refine maintains_bind hfile fun _ => ?_
    refine maintains_bind hfile fun _ => ?_
    refine maintains_bind hfile fun _ => ?_
    refine maintains_bind (hask _) fun _ => ?_
    refine maintains_bind (maintains_when maintains_ret) fun _ => ?_
    refine maintains_bind hcommand fun _ => ?_
    exact maintains_when maintains_ret

end CheckEnvironment

/-- Steady, raising at most what `except Exception` catches. -/
def Tame {σ ρ α : Type} (env : PyEnv) (A : Footprint Op Vars) (m : Py σ ρ α) : Prop :=
  Script.Steady env A (Script.onlyRaise (fun e _ => e.ordinary = true)) m

/-- Steady, and runs to its end. -/
def Silent {σ ρ α : Type} (env : PyEnv) (A : Footprint Op Vars) (m : Py σ ρ α) : Prop :=
  Script.Steady env A (Script.onlyRaise (fun _ _ => False)) m

section Undisturbed

open Script

variable {σ ρ α : Type} {env : PyEnv} {A : Footprint Op Vars}

theorem Tame.use {m : Py σ ρ α} (h : Tame env A m) {inv : PyMachine σ → Prop}
    (hquiet : Quiet A inv) {k : PyMachine σ} {Q : α → PyMachine σ → Prop}
    {X : Exit Exc ρ → PyMachine σ → Prop} (hk : inv k) (hQ : ∀ a k', inv k' → Q a k')
    (hX : ∀ e k', e.ordinary = true → inv k' → X (.raise e) k') : wp env m Q X k :=
  Steady.use h hquiet hk hQ hX

theorem Tame.aside {m : Py σ ρ α} (h : Tame env A m) {k₀ k : PyMachine σ}
    {Q : α → PyMachine σ → Prop} {X : Exit Exc ρ → PyMachine σ → Prop}
    (hk : Aside A k₀ k) (hQ : ∀ a k', Aside A k₀ k' → Q a k')
    (hX : ∀ e k', e.ordinary = true → Aside A k₀ k' → X (.raise e) k') :
    wp env m Q X k :=
  h.use (quiet_aside A k₀) hk hQ hX

theorem Silent.use {m : Py σ ρ α} (h : Silent env A m) {inv : PyMachine σ → Prop}
    (hquiet : Quiet A inv) {k : PyMachine σ} {Q : α → PyMachine σ → Prop}
    {X : Exit Exc ρ → PyMachine σ → Prop} (hk : inv k)
    (hQ : ∀ a k', inv k' → Q a k') : wp env m Q X k :=
  Steady.use h hquiet hk hQ fun _ _ hfalse _ => hfalse.elim

theorem Silent.aside {m : Py σ ρ α} (h : Silent env A m) {k₀ k : PyMachine σ}
    {Q : α → PyMachine σ → Prop} {X : Exit Exc ρ → PyMachine σ → Prop}
    (hk : Aside A k₀ k) (hQ : ∀ a k', Aside A k₀ k' → Q a k') : wp env m Q X k :=
  h.use (quiet_aside A k₀) hk hQ

variable (henv : env.Undisturbed)

include henv

theorem wp_act {action : Act} {k : PyMachine σ} {Q : action.Result → PyMachine σ → Prop}
    {X : Exit Exc ρ → PyMachine σ → Prop}
    (hok : ∀ r, Q r (k.answered (.act action) (.ok r)))
    (herror : ∀ f, X (.raise f.exc) (k.answered (.act action) (.error f))) :
    wp env (act action) Q X k := by
  refine wp_bind (wp_call (fun e he => ?_) (fun _ => ?_))
  · simp [henv k.clock] at he
  · cases env.answer k.clock (.act action) with
    | ok r => exact wp_pure (hok r)
    | error f => exact wp_raise (herror f)

theorem wp_ask {query : Query} {k : PyMachine σ} {Q : query.Answer → PyMachine σ → Prop}
    {X : Exit Exc ρ → PyMachine σ → Prop}
    (h : ∀ r, Q r (k.answered (.ask query) r)) : wp env (ask query) Q X k :=
  wp_call (fun e he => by simp [henv k.clock] at he) fun _ => h _

theorem tame_act {action : Act} (hop : A.calls (.act action)) :
    Tame env A (act action : Py σ ρ action.Result) :=
  steady_act (channel_onlyRaise henv _) hop fun _ f => f.exc_ordinary

theorem tame_popen {proc : Proc} (hop : A.calls (.act (.popen proc)))
    (hset : A.assigns fun v => v.setProc proc true) :
    Tame env A (popen proc : Py σ ρ Unit) :=
  steady_popen (channel_onlyRaise henv _) hop hset fun _ f => f.exc_ordinary

theorem silent_ask {query : Query} (hop : A.calls (.ask query)) :
    Silent env A (ask query : Py σ ρ query.Answer) :=
  steady_ask (channel_onlyRaise henv _) hop

theorem silent_setProc {proc : Proc} {value : Bool}
    (hset : A.assigns fun v => v.setProc proc value) :
    Silent env A (setProc proc value : Py σ ρ Unit) :=
  steady_assign (channel_onlyRaise henv _) hset

theorem silent_terminateProcess (hA : ∀ op, op.housekeeping = true → A.calls op) {proc : Proc} :
    Silent env A (terminateProcess proc : Py σ ρ Unit) :=
  steady_terminateProcess (channel_onlyRaise henv _) hA

theorem silent_cleanupProcesses (hA : ∀ op, op.housekeeping = true → A.calls op) :
    Silent env A (cleanupProcesses : Py σ ρ Unit) :=
  steady_cleanupProcesses (channel_onlyRaise henv _) hA

omit henv in
theorem tame_holds {proc : Proc} : Tame env A (holds proc : Py σ ρ Bool) := steady_holds

omit henv in
/-- What is tame never gets through a handler of `Exception`. -/
theorem silent_ignoring {body : Py σ ρ Unit} (h : Tame env A body) :
    Silent env A (ignoring body) := by
  refine steady_ignoring fun inv hq => keeps_mono (h inv hq) fun x k hx => ?_
  cases x with
  | raise e => exact ⟨.inl hx.1, hx.2⟩
  | ret v => exact hx
  | brk => exact hx
  | cont => exact hx

end Undisturbed

/-- The answers of a machine on which everything works and the tracer prints
`trace`. -/
def smoothReply (trace : Text) : (op : Op) → op.Reply
  | .ask (.pathExists _) => true
  | .ask .nginxExecutable => true
  | .ask (.poll _) => none
  | .ask .readyRounds => (1 : Nat)
  | .ask .inScriptDirectory => true
  | .ask .sleep => ()
  | .act (.run .wrk) => .ok ⟨0, "Requests/sec: 20.5".toList, []⟩
  | .act (.run .curlStatus) => .ok ⟨0, "200".toList, []⟩
  | .act (.run .pgrepNginxCommand) => .ok ⟨0, "7".toList, []⟩
  | .act (.run _) => .ok ⟨0, [], []⟩
  | .act (.communicate _) => .ok (trace, [])
  | .act (.readText _) => .ok trace
  | .act .getcwd => .ok ()
  | .act (.abspath _) => .ok ()
  | .act (.triedAbspath _) => .ok ()
  | .act (.remove _) => .ok ()
  | .act .makeLogsDirectory => .ok ()
  | .act .chdir => .ok ()
  | .act (.popen _) => .ok ()
  | .act .decode => .ok ()
  | .act (.wait _ _) => .ok ()
  | .act (.terminate _) => .ok ()
  | .act (.kill _) => .ok ()
  | .act (.openTraceLogs _) => .ok ()
  | .act (.closeTraceLogs _) => .ok ()
  | .act (.stat _) => .ok ()
  | .act .writeResults => .ok ()
  | .act .writeReport => .ok ()

end BpftimeBenchmark.Bench
