import BpftimeBenchmark.Bench.Processes
import BpftimeBenchmark.Lib.Float
import Mathlib.Data.Finset.Insert

/-!
`syscall/benchmark.py`: the three legs, the cleanup between them, and the set of
pids that the cleanup spares. An act may raise, and an interrupt may come before
any query, act or assignment. Output to the terminal is left out and never fails.
-/

namespace BpftimeBenchmark.Bench.Syscall

open Scripts

/-- A program, by the base name that `pgrep -x` is given. -/
inductive Tool where
  | victim
  | syscall
  | bpftime
  deriving DecidableEq

/-- The commands that `subprocess.run` is given: the four of the cleanup, those of
`init_safe_pids`, and those of the legs. -/
inductive Command where
  | parentOf (pid : Int)
  | pgrepScript
  | pgrep (tool : Tool)
  | commandOf (pid : Text)
  | sudoKill9 (pid : Text)
  | victim
  | victimWithAgent
  | bpftimeLoad
  | bpftimeStart
  | bpftimeUnload
  deriving DecidableEq

inductive Path where
  | bpftime
  | syscallServer
  | agent
  | agentTransformer
  deriving DecidableEq

/-- The server of the kernel leg, or the one with `LD_PRELOAD`. -/
inductive Server where
  | kernel
  | preloaded
  deriving DecidableEq

inductive Query where
  | isRoot
  | pathExists (path : Path)
  | poll
  | isArm
  | sleep
  deriving DecidableEq

@[reducible] def Query.Answer : Query → Type
  | .isRoot => Bool
  | .pathExists _ => Bool
  | .poll => Option Int
  | .isArm => Bool
  | .sleep => Unit

inductive Act where
  | getpgid
  | getppid
  | run (command : Command)
  | popen (server : Server)
  | terminate
  | wait
  | kill
  | execSudo
  | printStatistics
  | saveResults
  | saveMarkdownResults
  deriving DecidableEq

@[reducible] def Act.Result : Act → Type
  | .getpgid => Int
  | .getppid => Int
  | .run _ => Completed
  | .popen _ => Int
  | _ => Unit

inductive Op where
  | ask (query : Query)
  | act (action : Act)
  deriving DecidableEq

@[reducible] def Op.Reply : Op → Type
  | .ask query => query.Answer
  | .act action => Except Failure action.Result

abbrev Call := Σ op : Op, op.Reply

/-- The keys of `results`. -/
inductive Leg where
  | native
  | kernelTracepoint
  | userspaceSyscall
  deriving DecidableEq

structure State where
  safePids : Finset Int
  cleanupInProgress : Bool
  results : Leg → List ℚ

def State.addSafe (s : State) (pid : Int) : State := { s with safePids := insert pid s.safePids }

def State.addResult (s : State) (leg : Leg) (v : ℚ) : State :=
  { s with results := Function.update s.results leg (s.results leg ++ [v]) }

/-- `syscall_proc`, by its pid. -/
abbrev Vars := Option Int

abbrev PyEnv := Env Op Op.Reply Exc

abbrev PyMachine := Machine Op Op.Reply State Vars

abbrev Py (ρ α : Type) := Script Op Op.Reply State Vars Exc ρ α

/-- The process of the script: its pid, the base name it was started by, and
`NUM_RUNS`. -/
structure Host where
  pid : Int
  pid_pos : 0 < pid
  scriptName : Text
  numRuns : Nat

section Helpers

variable {ρ α : Type}

def ask (query : Query) : Py ρ query.Answer := Script.call (Op.ask query)

def settle (reply : Except Failure α) : Py ρ α :=
  match reply with
  | .ok r => pure r
  | .error f => Script.raise f.exc

def act (action : Act) : Py ρ action.Result := do
  let reply ← Script.call (Op.act action)
  settle reply

/-- `except Exception`. -/
def onException (handler : Py ρ α) : Exc → Option (Py ρ α)
  | .timeoutExpired => some handler
  | .other => some handler
  | .keyboardInterrupt => none
  | .systemExit _ => none

/-- A bare `except`. -/
def onAny (handler : Py ρ α) : Exc → Option (Py ρ α) := fun _ => some handler

/-- `except KeyboardInterrupt` and `except Exception` with nothing to do. -/
def onInterrupt (handler : Py ρ α) : Exc → Option (Py ρ α)
  | .systemExit _ => none
  | _ => some handler

def addSafe (pid : Int) : Py ρ Unit := Script.update (fun s => s.addSafe pid)

/-- `int(s)`, which may raise. -/
def intOf (s : Text) : Py ρ Int :=
  match Text.int s with
  | some n => pure n
  | none => Script.raise .other

end Helpers

variable {ρ : Type} (host : Host)

/-- The process that `ps` reports as the parent, or zero. -/
def parentFrom (result : Completed) : Py ρ Int :=
  let parentOutput := Text.strip result.stdout
  if parentOutput ≠ [] then intOf parentOutput else pure 0

/-- The `try` block of the loop of `init_safe_pids`; `none` stands for the `break` of
its bare `except`. -/
def lookupParent (currentPid : Int) : Py ρ (Option Int) :=
  Script.tryExcept (do
    let result ← act (.run (.parentOf currentPid))
    let parent ← parentFrom result
    pure (some parent)) (onAny (pure none))

/-- The `while` loop of `init_safe_pids`; without fuel the answer is `false`. -/
def addAncestors : Nat → Int → Py ρ Bool
  | 0, _ => pure false
  | fuel + 1, currentPid => do
      let s ← Script.read
      if currentPid = 0 ∨ currentPid ∈ s.safePids then pure true
      else do
        addSafe currentPid
        let parent ← lookupParent currentPid
        match parent with
        | some pid => addAncestors fuel pid
        | none => pure true

/-- The process group of the shell. -/
def addGroup : Py ρ Unit :=
  Script.tryExcept (do
    let pgid ← act .getpgid
    addSafe pgid) (onAny (pure ()))

/-- The Python processes with the name of the script. -/
def addScripts : Py ρ Unit :=
  Script.tryExcept (do
    let pythonProcs ← act (.run .pgrepScript)
    let _ ← Script.forEach (Text.words (Text.strip pythonProcs.stdout)) fun pid =>
      Script.tryExcept (do
        let n ← intOf pid
        addSafe n) (onAny (pure ()))) (onAny (pure ()))

def initSafePids (fuel : Nat) : Py ρ Bool := do
  let ended ← addAncestors fuel host.pid
  addGroup
  addScripts
  pure ended

/-- The kill of `cleanup_processes`, which skips what looks like the script. -/
def killUnlessScript (pid : Text) : Py ρ Unit := do
  let result ← act (.run (.commandOf pid))
  let procCmd := Text.strip result.stdout
  Script.when (Text.contains procCmd host.scriptName ∧
    Text.contains procCmd "python".toList) Script.cont
  let _ ← act (.run (.sudoKill9 pid))

/-- The loop of `cleanup_processes` over the pids that one `pgrep` has found. -/
def killFound (found : List Text) : Py ρ Unit := do
  let _ ← Script.forEach found fun pid =>
    Script.tryExcept (do
      let pidInt ← intOf pid
      let s ← Script.read
      Script.when (pidInt ∉ s.safePids) (killUnlessScript host pid)) (onException (pure ()))

def addParent : Py ρ Unit :=
  Script.tryExcept (do
    let parentPid ← act .getppid
    addSafe parentPid) (onAny (pure ()))

/-- The loop over `pgrep_cmds`. -/
def sweep : Py ρ Unit := do
  let _ ← Script.forEach [Tool.victim, .syscall, .bpftime] fun tool =>
    Script.tryExcept (do
      let result ← act (.run (.pgrep tool))
      killFound host (Text.words (Text.strip result.stdout))) (onException (pure ()))

def cleanupProcesses : Py ρ Unit := do
  let s ← Script.read
  Script.when (s.cleanupInProgress = false) <| Script.tryFinally
    (Script.tryExcept (do
      Script.update (fun s => { s with cleanupInProgress := true })
      addSafe host.pid
      addParent
      sweep host
      ask .sleep) (onException (pure ())))
    (Script.update (fun s => { s with cleanupInProgress := false }))

/-- `Average time usage\s+(\d+\.\d+)ns`. -/
def averagePattern : Pattern :=
  Pattern.literal "Average time usage".toList ++ Pattern.spaces ++ Pattern.decimalGroup ++
    Pattern.literal "ns".toList

/-- `parse_victim_output`, and what `if avg_time` takes for a value: `float` rounds
what is at most half the least positive number to zero. -/
def avgTime (output : Text) : Option ℚ :=
  ((averagePattern.search output).map Text.decimalValue).filter (fun v => 1 / 2 ^ 1075 < v)

/-- The loop over the runs of a leg. -/
def runLeg (leg : Leg) (command : Command) : Py ρ Unit := do
  let _ ← Script.forRange host.numRuns fun _ =>
    Script.tryExcept (do
      let result ← act (.run command)
      Script.when (result.returncode ≠ 0) Script.cont
      match avgTime result.stdout with
      | some v => Script.update (fun s => s.addResult leg v)
      | none => pure ()) (onException (cleanupProcesses host))

def runNative : Py ρ Unit := runLeg host .native .victim

/-- `syscall_proc` is started and its pid is added to the set. -/
def startServer (server : Server) : Py ρ Unit := do
  let pid ← act (.popen server)
  Script.assign (fun _ => some pid)
  addSafe pid

/-- `stop` runs if the server of the leg still does. -/
def ifRunning (stop : Py ρ Unit) : Py ρ Unit := do
  let syscallProc ← Script.vars
  Script.when (syscallProc ≠ none) do
    let code ← ask .poll
    Script.when (code = none) stop

def stopServer : Py ρ Unit := do
  act .terminate
  Script.tryExcept (act .wait) (onAny (act .kill))

def runKernelTracepoint : Py ρ Unit := do
  Script.assign (fun _ => none)
  Script.tryFinally (do
    startServer .kernel
    ask .sleep
    runLeg host .kernelTracepoint .victim) (do
    ifRunning stopServer
    cleanupProcesses host)

/-- The runs through the command `bpftime`, whose `return` leaves the leg. -/
def bpftimeMethod : Py Unit Unit :=
  Script.tryExcept (do
    let loadResult ← act (.run .bpftimeLoad)
    Script.when (loadResult.returncode = 0) do
      ask .sleep
      runLeg host .userspaceSyscall .bpftimeStart
      Script.tryExcept (do
        let unloadResult ← act (.run .bpftimeUnload)
        Script.when (unloadResult.returncode ≠ 0) (cleanupProcesses host))
        (onException (cleanupProcesses host))
      let s ← Script.read
      Script.when (s.results .userspaceSyscall ≠ []) (Script.ret ()))
    (onException (cleanupProcesses host))

def preloadMethod : Py Unit Unit := do
  let server ← ask (.pathExists .syscallServer)
  Script.when (server = false) (Script.ret ())
  let agent ← ask (.pathExists .agent)
  Script.when (agent = false) (Script.ret ())
  let transformer ← ask (.pathExists .agentTransformer)
  Script.when (transformer = false) (Script.ret ())
  Script.tryExcept (do
    startServer .preloaded
    ask .sleep
    let code ← ask .poll
    Script.when (code ≠ none) (Script.ret ())
    ask .sleep
    runLeg host .userspaceSyscall .victimWithAgent) (onException (pure ()))

def runUserspaceSyscall : Py ρ Unit := Script.func do
  Script.assign (fun _ => none)
  Script.tryFinally (do
    let found ← ask (.pathExists .bpftime)
    Script.when (found = true) (bpftimeMethod host)
    preloadMethod host) (do
    ifRunning (Script.tryExcept stopServer (onException (pure ())))
    cleanupProcesses host)

/-- The `try` block of `main`. -/
def mainBody : Py ρ Unit := do
  runNative host
  cleanupProcesses host
  runKernelTracepoint host
  cleanupProcesses host
  let arm ← ask .isArm
  Script.when (arm = false) (runUserspaceSyscall host)
  cleanupProcesses host
  act .printStatistics
  act .saveResults
  act .saveMarkdownResults

/-- `main` from the check for `sudo` on; `ended` is the answer of `initSafePids`. -/
def afterInit (ended : Bool) : Py Bool Bool := do
  Script.when (ended = false) (Script.ret false)
  let root ← ask .isRoot
  Script.when (root = false) do
    act .execSudo
    Script.ret true
  cleanupProcesses host
  Script.tryFinally (Script.tryExcept (mainBody host) (onInterrupt (pure ())))
    (cleanupProcesses host)
  pure true

/-- The answer is `false` if the loop of `init_safe_pids` ran out of fuel. -/
def main (fuel : Nat) : Py Bool Bool := do
  let ended ← initSafePids host fuel
  afterInit host ended

/-- What runs when the file is started. -/
def program (fuel : Nat) : Py Bool Bool :=
  Script.tryExcept (Script.func (main host fuel)) (onException (do
    Script.tryExcept (cleanupProcesses host) (onAny (pure ()))
    pure true))

def start : PyMachine where
  state := ⟨∅, false, fun _ => []⟩
  vars := none
  clock := 0
  calls := []
  past := []
  rounds := []

end BpftimeBenchmark.Bench.Syscall
