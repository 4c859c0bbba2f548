import BpftimeBenchmark.Lib.Float
import BpftimeBenchmark.Lib.ScriptRules
import BpftimeBenchmark.Redis.Config

/-!
The sweep of `redis-durability-tuning/benchmark.py`: for each mode `redis.conf` is
rewritten, Redis started, `redis-benchmark` run and Redis stopped, whatever has been raised
in between. Every call may fail, and Ctrl+C may come before any of them. Output to the
terminal is left out.
-/

namespace BpftimeBenchmark.Redis.Sweep

open Scripts Config Text

inductive Exc where
  | raised (e : PyError)
  | failed
  | keyboardInterrupt
  deriving DecidableEq

abbrev Environ := List (Text × Text)

/-- The arguments of `run_benchmark`. -/
structure Options where
  clients : Int
  requests : Int
  test : Text
  dataSize : Int
  deriving DecidableEq

inductive Act where
  | openConf
  | openTemp
  | rename
  | make (dir : Text)
  | popen
  | popenShell (environ : Environ)
  | redisBenchmark (options : Options)
  deriving DecidableEq

/-- A shell may run Redis as a process of its own, apart from the one that can be
terminated. -/
@[reducible] def Act.Result : Act → Type
  | .popenShell _ => Bool
  | .redisBenchmark _ => Text
  | _ => Unit

inductive Op where
  | act (action : Act)
  | writeTemp (content : Text)
  | makefileExists (dir : Text)
  | sleep
  | terminate (pid : Nat)
  | wait (pid : Nat)
  deriving DecidableEq

/-- A write that fails has written some of its text. -/
@[reducible] def Op.Reply : Op → Type
  | .act action => Except Exc action.Result
  | .writeTemp _ => Except (Exc × Nat) Unit
  | .makefileExists _ => Bool
  | .sleep | .terminate _ | .wait _ => Unit

/-- A server that has been started: with which file and environment, whether it runs apart
from the process that the script knows, and whether it is known to have ended. -/
structure Server where
  conf : Text
  environ : Option Environ
  apart : Bool
  ended : Bool
  deriving DecidableEq

structure Benchmark where
  opsPerSec : PyFloat
  avgLatencyMs : PyFloat
  minLatencyMs : PyFloat
  maxLatencyMs : PyFloat
  deriving DecidableEq

structure Entry where
  description : Text
  benchmark : Dict Text Benchmark
  deriving DecidableEq

/-- A run of `redis-benchmark`: the servers started so far, as they are then, and the
output. -/
structure Measurement where
  servers : List Server
  stdout : Text
  deriving DecidableEq

/-- `redisProcess` is the place of the server among those started. `measured` is a history
variable. -/
structure State where
  files : Files
  servers : List Server
  redisProcess : Option Nat
  results : Dict Text Entry
  measured : List Measurement

def State.running (s : State) : List Server := s.servers.filter (!·.ended)

def State.start (s : State) (environ : Option Environ) (apart : Bool) : State :=
  { s with servers := s.servers ++ [⟨s.files.redisConf, environ, apart, false⟩] }

/-- The process has ended, and with it the server unless that runs apart. -/
def State.reap (s : State) (pid : Nat) : State :=
  { s with servers := s.servers.modify pid fun v => { v with ended := !v.apart } }

/-- An entry of `CONFIGS["custom"]`. -/
structure Custom where
  dir : Text
  env : Environ
  description : Text
  deriving DecidableEq

/-- The names of `CONFIGS["standard"]` and their descriptions. -/
def standardModes : List (Text × Text) :=
  [("no-aof".toList, "Standard Redis with no AOF".toList),
    ("everysec".toList, "Standard Redis with fsync every second".toList),
    ("alwayson".toList, "Standard Redis with fsync for every write".toList)]

/-- `CONFIGS["custom"]`. -/
def customModes : Dict Text Custom where
  entries :=
    [("iouring-batch-10".toList, ⟨"poc-iouring-minimal".toList,
        [("BATCH_SIZE".toList, "10".toList)], "io_uring with batch size 10".toList⟩),
      ("iouring-batch-100".toList, ⟨"poc-iouring-minimal".toList,
        [("BATCH_SIZE".toList, "100".toList)], "io_uring with batch size 100".toList⟩),
      ("iouring-batch-1000".toList, ⟨"poc-iouring-minimal".toList,
        [("BATCH_SIZE".toList, "1000".toList)], "io_uring with batch size 1000".toList⟩),
      ("delayed-fsync".toList, ⟨"delayed-fsync".toList, [],
        "Delayed fsync approach".toList⟩),
      ("fsync-fast-notify".toList, ⟨"fsync-fast-notify".toList, [],
        "Fast-path optimization for fsync".toList⟩)]
  nodup := by decide +kernel

abbrev PyEnv := Env Op Op.Reply Exc

abbrev PyMachine := Machine Op Op.Reply State Unit

abbrev Py (ρ α : Type) := Script Op Op.Reply State Unit Exc ρ α

variable {ρ α : Type}

def settle (reply : Except Exc α) : Py ρ α :=
  match reply with
  | .ok a => pure a
  | .error e => Script.raise e

/-- What an action does, which does nothing when it fails. -/
def ifOk (effect : α → State → State) (reply : Except Exc α) (s : State) : State :=
  match reply with
  | .ok a => effect a s
  | .error _ => s

def act (action : Act) (effect : action.Result → State → State) : Py ρ action.Result := do
  let reply ← Script.perform (Op.act action) (ifOk effect)
  settle reply

/-- A step of the script itself, which may raise. -/
def compute (value : Except PyError α) : Py ρ α :=
  match value with
  | .ok a => pure a
  | .error e => Script.raise (.raised e)

def State.setTemp (s : State) (content : Text) : State :=
  { s with files := { s.files with redisConfTmp := some content } }

def State.write (content : Text) (reply : Except (Exc × Nat) Unit) (s : State) : State :=
  match reply with
  | .ok () => s.setTemp content
  | .error (_, n) => s.setTemp (content.take n)

def updateConfig (configMods : List Text) : Py ρ Unit := do
  act .openConf fun _ s => s
  let s ← Script.read
  let configContent := (readLines s.files.redisConf).map commentOut
  let temp := configContent.flatten ++ (configMods.map (· ++ ['\n'])).flatten
  act .openTemp fun _ s => s.setTemp []
  let written ← Script.perform (Op.writeTemp temp) (State.write temp)
  settle (written.mapError Prod.fst)
  act .rename fun _ s => { s with files := Config.rename s.files }

def bindProcess : Py ρ Unit :=
  Script.update fun s => { s with redisProcess := some (s.servers.length - 1) }

def popen : Py ρ Unit := do
  act .popen fun _ s => s.start none false
  bindProcess

def popenShell (environ : Environ) : Py ρ Unit := do
  let _ ← act (.popenShell environ) fun apart s => s.start (some environ) apart
  bindProcess

/-- The branches of `start_redis`, once the file is written. -/
def launch (configName : Text) : Py ρ Unit :=
  if startsWith configName "standard:".toList then popen
  else do
    let configDetails ← compute (customModes.get configName)
    let present ← Script.call (Op.makefileExists configDetails.dir)
    Script.when (present = true) do
      act (.make configDetails.dir) fun _ s => s
    popenShell configDetails.env

def startRedis (configName : Text) : Py ρ Unit := do
  let configMods ← compute (Config.startRedis configName)
  updateConfig configMods
  launch configName
  Script.call Op.sleep

def stopRedis : Py ρ Unit := do
  let s ← Script.read
  match s.redisProcess with
  | none => pure ()
  | some pid => do
      Script.call (Op.terminate pid)
      Script.perform (Op.wait pid) fun _ s => s.reap pid

/-- `part.strip('"')`. -/
def unquote (part : Text) : Text :=
  ((part.dropWhile (· = '"')).reverse.dropWhile (· = '"')).reverse

/-- One line of the CSV output. -/
def readLine (data : Dict Text Benchmark) (line : Text) :
    Except PyError (Dict Text Benchmark) :=
  match line.splitOn ',' with
  | testName :: ops :: avg :: low :: high :: _ => do
      let opsPerSec ← orValueError (float (unquote ops))
      let avgLatencyMs ← orValueError (float (unquote avg))
      let minLatencyMs ← orValueError (float (unquote low))
      let maxLatencyMs ← orValueError (float (unquote high))
      return data.set (unquote testName) ⟨opsPerSec, avgLatencyMs, minLatencyMs, maxLatencyMs⟩
  | _ => .ok data

/-- The second half of `run_benchmark`. -/
def parseOutput (stdout : Text) : Except PyError (Dict Text Benchmark) :=
  (((strip stdout).splitOn '\n').drop 1).foldlM readLine Dict.empty

def State.measure (stdout : Text) (s : State) : State :=
  { s with measured := s.measured ++ [⟨s.servers, stdout⟩] }

def runBenchmark (options : Options) : Py ρ (Dict Text Benchmark) := do
  let stdout ← act (.redisBenchmark options) State.measure
  compute (parseOutput stdout)

def benchmarkMode (options : Options) (configName description : Text) : Py ρ Unit :=
  Script.tryFinally (do
    startRedis configName
    let benchmark ← runBenchmark options
    Script.update fun s =>
      { s with results := s.results.set configName ⟨description, benchmark⟩ })
    stopRedis

/-- The modes in the order of the two loops, with their descriptions. -/
def modes : List (Text × Text) :=
  standardModes.map (fun m => ("standard:".toList ++ m.1, m.2)) ++
    customModes.entries.map (fun m => (m.1, m.2.description))

def benchmarkAll (options : Options) : Py ρ (Dict Text Entry) := do
  Script.update fun s => { s with results := Dict.empty }
  let _ ← Script.forEach standardModes fun m =>
    benchmarkMode options ("standard:".toList ++ m.1) m.2
  let _ ← Script.forEach customModes.entries fun m =>
    benchmarkMode options m.1 m.2.description
  let s ← Script.read
  pure s.results

/-- A new `RedisBenchmark` where these are the files. -/
def start (files : Files) : PyMachine where
  state := ⟨files, [], none, Dict.empty, []⟩
  vars := ()
  clock := 0
  calls := []
  past := []
  rounds := []

/-- The file is the first one, or what whole calls of `update_config` have made of it. -/
def Whole (conf₀ conf : Text) : Prop :=
  ∃ ms, (∀ m ∈ ms, Word m) ∧ conf = (updates ms ⟨conf₀, none⟩).redisConf

/-- The file is made of whole lines. -/
def Lined (conf : Text) : Prop := '\r' ∉ conf ∧ conf.getLast? = some '\n'

/-- The server was started for this mode, with its environment, and, if the first file is made
of whole lines, with its directive as the only one in force. -/
def Server.IsOf (conf₀ : Text) (v : Server) (configName : Text) : Prop :=
  (∃ m, Config.startRedis configName = .ok [directive m] ∧
    (Lined conf₀ → (readLines v.conf).filter isDirective = [directiveLine m])) ∧
  v.environ = (customModes.get? configName).map Custom.env

/-- The server that `redis-benchmark` reaches: the eldest that runs has the port, and one
started later finds it taken. -/
def Measurement.reached (e : Measurement) : Option Server := e.servers.find? (!·.ended)

/-- The mode was measured after its own server was started and before this was stopped; of
the servers before only those that run apart have not ended. -/
def Measurement.IsOf (conf₀ : Text) (e : Measurement) (configName : Text) : Prop :=
  ∃ front own, e.servers = front ++ [own] ∧ (∀ v ∈ front, v.ended = !v.apart) ∧
    own.ended = false ∧ own.IsOf conf₀ configName

def names : List Text := modes.map Prod.fst

/-- What holds at any moment of a sweep. -/
structure Sound (conf₀ : Text) (s : State) : Prop where
  whole : Whole conf₀ s.files.redisConf
  alone : s.servers.countP (fun v => !v.ended && !v.apart) ≤ 1
  measured : ∃ done, done <+: names ∧
    List.Forall₂ (fun name e => e.IsOf conf₀ name) done s.measured

/-- Every server has ended, except those that run apart. -/
def Stopped (s : State) : Prop := ∀ v ∈ s.servers, v.ended = !v.apart

/-- The server of this mode runs, and the script knows it. -/
def Running (conf₀ configName : Text) (s : State) : Prop :=
  ∃ front own, s.servers = front ++ [own] ∧ (∀ v ∈ front, v.ended = !v.apart) ∧
    own.ended = false ∧ own.IsOf conf₀ configName ∧ s.redisProcess = some front.length

/-- The effect of `stop_redis`. -/
def State.stop (s : State) : State :=
  match s.redisProcess with
  | none => s
  | some pid => s.reap pid

theorem names_eq : names = sweep := by decide +kernel

theorem nodup_names : names.Nodup := by decide +kernel

/-- `CONFIGS["custom"]` has the names that do not start with `standard:`. -/
theorem get?_of_mem {configName : Text} (h : configName ∈ names) :
    (customModes.get? configName).isSome = !startsWith configName "standard:".toList := by
  have hall : names.all (fun configName => (customModes.get? configName).isSome ==
      !startsWith configName "standard:".toList) = true := by decide +kernel
  exact beq_iff_eq.mp (List.all_eq_true.mp hall configName h)

section Modify

variable {β : Type} {f : β → β} {a : β}

theorem mem_modify {l : List β} {i : Nat} (h : a ∈ l.modify i f) :
    a ∈ l ∨ ∃ b ∈ l, a = f b := by
  induction l generalizing i with
  | nil => simp at h
  | cons b rest ih =>
      cases i with
      | zero =>
          rw [List.modify_zero_cons] at h
          rcases List.mem_cons.mp h with rfl | h
          · exact Or.inr ⟨b, List.mem_cons_self, rfl⟩
          · exact Or.inl (List.mem_cons_of_mem b h)
      | succ i =>
          rw [List.modify_succ_cons] at h
          rcases List.mem_cons.mp h with rfl | h
          · exact Or.inl List.mem_cons_self
          · rcases ih h with h | ⟨c, hc, rfl⟩
            · exact Or.inl (List.mem_cons_of_mem b h)
            · exact Or.inr ⟨c, List.mem_cons_of_mem b hc, rfl⟩

theorem modify_last (l : List β) (a : β) :
    (l ++ [a]).modify l.length f = l ++ [f a] := by
  induction l with
  | nil => rfl
  | cons b rest ih => simp [ih]

theorem countP_modify_le {q : β → Bool} (h : ∀ b, q (f b) = true → q b = true) (l : List β)
    (i : Nat) : (l.modify i f).countP q ≤ l.countP q := by
  induction l generalizing i with
  | nil => simp
  | cons b rest ih =>
      cases i with
      | zero =>
          have hb := h b
          rw [List.modify_zero_cons, List.countP_cons, List.countP_cons]
          split <;> split <;> first | omega | simp_all
      | succ i =>
          have hrest := ih i
          rw [List.modify_succ_cons, List.countP_cons, List.countP_cons]
          omega

end Modify

section Files

variable {conf₀ conf : Text}

theorem whole_start (conf₀ : Text) : Whole conf₀ conf₀ := ⟨[], by simp, rfl⟩

theorem whole_updateConfig {files : Files} {m : Text} (h : Whole conf₀ files.redisConf)
    (hm : Word m) : Whole conf₀ (Config.updateConfig [directive m] files).redisConf := by
  obtain ⟨ms, hms, hconf⟩ := h
  refine ⟨ms ++ [m], ?_, ?_⟩
  · intro w hw
    rcases List.mem_append.mp hw with hw | hw
    · exact hms w hw
    · rwa [List.mem_singleton.mp hw]
  · have hstep : (updates (ms ++ [m]) ⟨conf₀, none⟩).redisConf =
        (Config.updateConfig [directive m] (updates ms ⟨conf₀, none⟩)).redisConf := by
      simp [updates]
    rw [hstep]
    simp only [Config.updateConfig, Config.rename, hconf]

theorem inForce_updateConfig (hlined : Lined conf₀) {files : Files} {m : Text}
    (h : Whole conf₀ files.redisConf) (hm : Word m) :
    (readLines (Config.updateConfig [directive m] files).redisConf).filter isDirective =
      [directiveLine m] := by
  obtain ⟨ms, hms, hconf⟩ := h
  have hwords : ∀ w ∈ ms ++ [m], Word w := by
    intro w hw
    rcases List.mem_append.mp hw with hw | hw
    · exact hms w hw
    · rwa [List.mem_singleton.mp hw]
  have hstep : (Config.updateConfig [directive m] files).redisConf =
      (updates (ms ++ [m]) ⟨conf₀, none⟩).redisConf := by
    simp [updates, Config.updateConfig, Config.rename, hconf]
  rw [hstep, readLines_updates none hlined.1 hlined.2 hwords, filter_isDirective _ hm]

end Files

section Servers

variable {s : State} {conf₀ : Text}

theorem stopped_reap (h : Stopped s) (pid : Nat) : Stopped (s.reap pid) := by
  intro v hv
  rcases mem_modify hv with hv | ⟨u, hu, rfl⟩
  · exact h v hv
  · rfl

theorem stop_measured : s.stop.measured = s.measured := by
  unfold State.stop
  split <;> rfl

theorem stop_results : s.stop.results = s.results := by
  unfold State.stop
  split <;> rfl

theorem stopped_stop (h : Stopped s) : Stopped s.stop := by
  unfold State.stop
  split
  · exact h
  · exact stopped_reap h _

/-- Whoever runs is stopped. -/
theorem Running.stopped_stop {configName : Text} (h : Running conf₀ configName s) :
    Stopped s.stop := by
  obtain ⟨front, own, hservers, hfront, -, -, hprocess⟩ := h
  intro v hv
  rw [State.stop, hprocess] at hv
  simp only [State.reap, hservers, modify_last] at hv
  rcases List.mem_append.mp hv with hv | hv
  · exact hfront v hv
  · rw [List.mem_singleton.mp hv]

theorem alone_of_stopped (h : Stopped s) :
    s.servers.countP (fun v => !v.ended && !v.apart) = 0 := by
  rw [List.countP_eq_zero]
  intro v hv
  simp [h v hv]

theorem Sound.reap (h : Sound conf₀ s) (pid : Nat) : Sound conf₀ (s.reap pid) where
  whole := h.whole
  alone := (countP_modify_le (fun v hv => by simp at hv ⊢) _ _).trans h.alone
  measured := h.measured

end Servers

section Specs

open Script

variable {env : PyEnv} {k : PyMachine} {X : Exit Exc ρ → PyMachine → Prop} {conf₀ : Text}
  {p : State → Prop}

theorem wp_settle {reply : Except Exc α} {Q : α → PyMachine → Prop}
    (hok : ∀ a, reply = .ok a → Q a k) (herror : ∀ e, reply = .error e → X (.raise e) k) :
    wp env (settle reply) Q X k := by
  cases reply with
  | ok a => exact wp_pure (hok a rfl)
  | error e => exact wp_raise (herror e rfl)

theorem wp_compute {value : Except PyError α} {Q : α → PyMachine → Prop}
    (hok : ∀ a, value = .ok a → Q a k)
    (herror : ∀ e, value = .error e → X (.raise (.raised e)) k) :
    wp env (compute value) Q X k := by
  cases value with
  | ok a => exact wp_pure (hok a rfl)
  | error e => exact wp_raise (herror e rfl)

/-- An action either does what it does, or raises and leaves everything as it is. -/
theorem wp_act {action : Act} {effect : action.Result → State → State}
    {Q : action.Result → PyMachine → Prop} (h : Always p k)
    (heffect : ∀ a, p (effect a k.state))
    (hraise : ∀ e k', Always p k' → k'.state = k.state → X (.raise e) k')
    (hanswer : ∀ a k', Always p k' → k'.state = effect a k.state → Q a k') :
    wp env (act action effect) Q X k := by
  apply wp_bind
  apply wp_perform_always h
  · rintro (e | a)
    · exact h.state
    · exact heffect a
  · intro e k' _ hk' hstate
    exact hraise e k' hk' hstate
  · rintro (e | a) k' hk' hstate
    · exact wp_raise (hraise e k' hk' hstate)
    · exact wp_pure (hanswer a k' hk' hstate)

theorem Sound.setTemp {s : State} (h : Sound conf₀ s) (content : Text) :
    Sound conf₀ (s.setTemp content) :=
  ⟨h.whole, h.alone, h.measured⟩

/-- However it ends, `update_config` leaves the file whole and all else as it was. -/
theorem updateConfig_spec {m : Text} (hm : Word m) (h : Always (Sound conf₀) k) :
    wp env (updateConfig [directive m] : Py ρ Unit)
      (fun _ k' => Always (Sound conf₀) k' ∧
        k'.state = { k.state with
          files := Config.updateConfig [directive m] k.state.files })
      (onlyRaise fun _ k' => Always (Sound conf₀) k' ∧
        ∃ files, k'.state = { k.state with files := files }) k := by
  have hsame : k.state = { k.state with files := k.state.files } := rfl
  apply wp_bind
  apply wp_act h (fun _ => h.state)
  · intro e k' hk' hstate
    exact ⟨hk', _, hstate.trans hsame⟩
  intro _ k₁ hk₁ hstate₁
  apply wp_bind
  apply wp_read
  rw [hstate₁]
  apply wp_bind
  apply wp_act hk₁ (fun _ => hk₁.state.setTemp [])
  · intro e k' hk' hstate
    exact ⟨hk', _, (hstate.trans hstate₁).trans hsame⟩
  intro _ k₂ hk₂ hstate₂
  rw [hstate₁] at hstate₂
  apply wp_bind
  apply wp_perform_always hk₂
  · rintro (⟨e, n⟩ | _)
    · exact hk₂.state.setTemp _
    · exact hk₂.state.setTemp _
  · intro e k' _ hk' hstate
    exact ⟨hk', _, hstate.trans hstate₂⟩
  intro reply k₃ hk₃ hstate₃
  apply wp_bind
  apply wp_settle
  · rintro ⟨⟩ hreply
    cases reply with
    | error e => cases hreply
    | ok _ =>
        have hwritten : k₃.state = k.state.setTemp
            (((readLines k.state.files.redisConf).map commentOut).flatten ++
              ([directive m].map (· ++ ['\n'])).flatten) := by
          rw [hstate₃, hstate₂]
          rfl
        have hrenamed : ({ k₃.state with files := Config.rename k₃.state.files } : State) =
            { k.state with files := Config.updateConfig [directive m] k.state.files } := by
          rw [hwritten]
          rfl
        apply wp_act hk₃
        · intro _
          rw [hrenamed]
          exact ⟨whole_updateConfig h.state.whole hm, h.state.alone, h.state.measured⟩
        · intro e k' hk' hstate
          exact ⟨hk', _, hstate.trans hwritten⟩
        · intro _ k' hk' hstate
          exact ⟨hk', hstate.trans hrenamed⟩
  · intro e hreply
    cases reply with
    | error e =>
        have hfiles : k₃.state = { k.state with files := k₃.state.files } := by
          rw [hstate₃, hstate₂]
          rfl
        exact ⟨hk₃, _, hfiles⟩
    | ok _ => cases hreply

/-- A new server beside none but those that run apart. -/
theorem Sound.start {s : State} (h : Sound conf₀ s) (hstopped : Stopped s)
    (environ : Option Environ) (apart : Bool) : Sound conf₀ (s.start environ apart) where
  whole := h.whole
  alone := by
    rw [State.start, List.countP_append, alone_of_stopped hstopped, Nat.zero_add]
    exact List.countP_le_length
  measured := h.measured

/-- Before and after a mode is under way, and wherever it is left. -/
def Left (env : PyEnv) (conf₀ : Text) : Exit Exc ρ → PyMachine → Prop :=
  onlyRaise fun _ k => Always (Sound conf₀) k ∧ (env.Undisturbed → Stopped k.state.stop)

/-- The server of the mode has been started, and nothing else is new. -/
structure Launched (conf₀ configName : Text) (s : State) (k : PyMachine) : Prop where
  always : Always (Sound conf₀) k
  running : Running conf₀ configName k.state
  measured : k.state.measured = s.measured
  results : k.state.results = s.results

/-- The two ways to start a server: it runs for the mode and is known to the script. A
server that does not start leaves all others stopped, and only an interrupt leaves one that
the script does not know. -/
theorem started_spec {action : Act} {effect : action.Result → State → State}
    {environ : Option Environ} {apart : action.Result → Bool} {configName : Text}
    (heffect : ∀ a s, effect a s = s.start environ (apart a)) (h : Always (Sound conf₀) k)
    (hstopped : Stopped k.state)
    (hown : ∀ b, Server.IsOf conf₀ ⟨k.state.files.redisConf, environ, b, false⟩ configName) :
    wp env (do let _ ← act action effect; bindProcess : Py ρ Unit)
      (fun _ => Launched conf₀ configName k.state) (Left env conf₀) k := by
  apply wp_bind
  apply wp_act h
  · intro a
    rw [heffect]
    exact h.state.start hstopped environ _
  · intro e k' hk' hstate
    exact ⟨hk', fun _ => hstate ▸ stopped_stop hstopped⟩
  intro a k₁ hk₁ hstate₁
  rw [heffect] at hstate₁
  have hbound : Sound conf₀
      { k₁.state with redisProcess := some (k₁.state.servers.length - 1) } :=
    ⟨hk₁.state.whole, hk₁.state.alone, hk₁.state.measured⟩
  apply wp_update_always hk₁ hbound
  · intro e k' hdisturbed hk' _
    exact ⟨hk', fun henv => absurd henv hdisturbed⟩
  intro k' hk' hstate
  rw [hstate₁] at hstate
  have hrunning : Running conf₀ configName k'.state :=
    ⟨k.state.servers, _, by rw [hstate]; rfl, hstopped, rfl, hown (apart a),
      by rw [hstate]; simp [State.start]⟩
  exact ⟨hk', hrunning, by rw [hstate]; rfl, by rw [hstate]; rfl⟩

theorem launch_spec {configName : Text} (hname : configName ∈ names)
    (h : Always (Sound conf₀) k) (hstopped : Stopped k.state)
    (hmode : ∃ m, Config.startRedis configName = .ok [directive m] ∧
      (Lined conf₀ →
        (readLines k.state.files.redisConf).filter isDirective = [directiveLine m])) :
    wp env (launch configName : Py ρ Unit) (fun _ => Launched conf₀ configName k.state)
      (Left env conf₀) k := by
  have hcustom := get?_of_mem hname
  unfold launch
  split
  · rename_i hstandard
    rw [hstandard, Bool.not_true, Option.isSome_eq_false_iff, Option.isNone_iff_eq_none] at hcustom
    apply started_spec (fun _ _ => rfl) h hstopped
    exact fun b => ⟨hmode, by rw [hcustom]; rfl⟩
  · rename_i hstandard
    rw [Bool.eq_false_of_not_eq_true hstandard, Bool.not_false,
      Option.isSome_iff_exists] at hcustom
    obtain ⟨details, hdetails⟩ := hcustom
    apply wp_bind
    apply wp_compute
    swap
    · intro e he
      rw [Dict.get_eq_ok.mpr hdetails] at he
      cases he
    intro configDetails hget
    obtain rfl : configDetails = details :=
      Except.ok.inj (hget.symm.trans (Dict.get_eq_ok.mpr hdetails))
    apply wp_bind
    apply wp_call_always h
    · exact fun e k' _ hk' hstate => ⟨hk', fun _ => hstate ▸ stopped_stop hstopped⟩
    intro present k₁ hk₁ hstate₁
    have hlaunch : ∀ k', Always (Sound conf₀) k' → k'.state = k.state →
        wp env (popenShell configDetails.env : Py ρ Unit)
          (fun _ => Launched conf₀ configName k.state) (Left env conf₀) k' := by
      intro k' hk' hstate
      rw [← hstate] at hstopped hmode ⊢
      apply started_spec (fun _ _ => rfl) hk' hstopped
      exact fun b => ⟨hmode, by rw [hdetails]; rfl⟩
    apply wp_bind
    apply wp_when
    · intro _
      apply wp_act hk₁ (fun _ => hk₁.state)
      · exact fun e k' hk' hstate =>
          ⟨hk', fun _ => (hstate.trans hstate₁) ▸ stopped_stop hstopped⟩
      · exact fun _ k' hk' hstate => hlaunch k' hk' (hstate.trans hstate₁)
    · exact fun _ => hlaunch k₁ hk₁ hstate₁

/-- `stop_redis` does all of it unless it is interrupted. -/
theorem stopRedis_spec (h : Always (Sound conf₀) k) :
    wp env (stopRedis : Py ρ Unit)
      (fun _ k' => Always (Sound conf₀) k' ∧ k'.state = k.state.stop)
      (onlyRaise fun _ k' => Always (Sound conf₀) k' ∧ ¬ env.Undisturbed) k := by
  apply wp_bind
  apply wp_read
  cases hprocess : k.state.redisProcess with
  | none =>
      apply wp_pure
      exact ⟨h, by rw [State.stop, hprocess]⟩
  | some pid =>
      apply wp_bind
      apply wp_call_always h
      · exact fun e k' hdisturbed hk' _ => ⟨hk', hdisturbed⟩
      intro _ k₁ hk₁ hstate₁
      apply wp_perform_always hk₁
      · exact fun _ => hk₁.state.reap pid
      · exact fun e k' hdisturbed hk' _ => ⟨hk', hdisturbed⟩
      intro _ k' hk' hstate
      exact ⟨hk', by rw [hstate, hstate₁, State.stop, hprocess]⟩

/-- What the rounds before have left: no server, and an entry for each mode, which is what
was parsed of its measurement. -/
structure Between (conf₀ : Text) (done : List (Text × Text)) (s : State) : Prop where
  stopped : Stopped s
  measured : List.Forall₂ (fun name e => e.IsOf conf₀ name) (done.map Prod.fst) s.measured
  described : s.results.entries.map (fun e => (e.1, e.2.description)) = done
  parsed : List.Forall₂ (fun e r => parseOutput e.stdout = .ok r.2.benchmark) s.measured
    s.results.entries

/-- The mode of the next round has no entry yet. -/
theorem Between.not_mem {configName description : Text} {done rest : List (Text × Text)}
    {s : State} (h : Between conf₀ done s)
    (hmodes : modes = done ++ (configName, description) :: rest) : configName ∉ s.results := by
  have hkeys : s.results.keys = done.map Prod.fst := by
    rw [Dict.keys, ← h.described, List.map_map]
    rfl
  have hnodup := nodup_names
  rw [names, hmodes, List.map_append] at hnodup
  rw [Dict.mem_keys, hkeys]
  exact fun hmem => (List.nodup_append.mp hnodup).2.2 _ hmem _ List.mem_cons_self rfl

/-- One round more, whose server has been stopped again. -/
theorem Between.concat {configName description : Text} {done : List (Text × Text)}
    {s t : State} {e : Measurement} {benchmark : Dict Text Benchmark} (h : Between conf₀ done s)
    (hnew : configName ∉ s.results) (hstopped : Stopped t) (hof : e.IsOf conf₀ configName)
    (hparsed : parseOutput e.stdout = .ok benchmark) (hmeasured : t.measured = s.measured ++ [e])
    (hresults : t.results = s.results.set configName ⟨description, benchmark⟩) :
    Between conf₀ (done ++ [(configName, description)]) t := by
  have hentries : t.results.entries =
      s.results.entries ++ [(configName, ⟨description, benchmark⟩)] := by
    rw [hresults, Dict.entries_set_of_not_mem hnew]
  refine ⟨hstopped, ?_, ?_, ?_⟩
  · rw [hmeasured, List.map_append]
    exact List.rel_append h.measured (.cons hof .nil)
  · rw [hentries, List.map_append, h.described]
    rfl
  · rw [hmeasured, hentries]
    exact List.rel_append h.parsed (.cons hparsed .nil)

/-- A server is measured as the one of its mode. -/
theorem isOf_of_running {configName : Text} {s : State} (h : Running conf₀ configName s)
    (stdout : Text) : Measurement.IsOf conf₀ ⟨s.servers, stdout⟩ configName := by
  obtain ⟨front, own, hservers, hfront, hown, hof, -⟩ := h
  exact ⟨front, own, hservers, hfront, hown, hof⟩

/-- The mode's own server is reached, unless an elder one runs apart. -/
theorem Measurement.IsOf.reached {e : Measurement} {configName : Text}
    (h : e.IsOf conf₀ configName) :
    e.reached = (e.servers.dropLast.find? (·.apart)).or e.servers.getLast? := by
  obtain ⟨front, own, hservers, hfront, hown, -⟩ := h
  have hapart : front.find? (!·.ended) = front.find? (·.apart) := by
    rw [← List.head?_filter, ← List.head?_filter]
    congr 1
    apply List.filter_congr
    intro v hv
    rw [hfront v hv, Bool.not_not]
  rw [Measurement.reached, hservers, List.find?_append, hapart, List.dropLast_concat,
    List.getLast?_concat]
  simp [hown]

theorem Sound.measure {s : State} (h : Sound conf₀ s) {done : List Text} {configName : Text}
    (hmeasured : List.Forall₂ (fun name e => e.IsOf conf₀ name) done s.measured)
    (htaken : done ++ [configName] <+: names) (hrunning : Running conf₀ configName s)
    (stdout : Text) : Sound conf₀ (s.measure stdout) :=
  ⟨h.whole, h.alone, _, htaken,
    List.rel_append hmeasured (.cons (isOf_of_running hrunning stdout) .nil)⟩

/-- What a mode has measured, and what was made of it. -/
structure Parsed (conf₀ configName : Text) (s : State) (benchmark : Dict Text Benchmark)
    (k : PyMachine) : Prop where
  always : Always (Sound conf₀) k
  running : Running conf₀ configName k.state
  measured : ∃ stdout, parseOutput stdout = .ok benchmark ∧
    k.state.measured = s.measured ++ [⟨s.servers, stdout⟩]
  results : k.state.results = s.results

theorem runBenchmark_spec {options : Options} {done : List Text} {configName : Text}
    (h : Always (Sound conf₀) k)
    (hmeasured : List.Forall₂ (fun name e => e.IsOf conf₀ name) done k.state.measured)
    (htaken : done ++ [configName] <+: names) (hrunning : Running conf₀ configName k.state) :
    wp env (runBenchmark options : Py ρ (Dict Text Benchmark))
      (Parsed conf₀ configName k.state) (Left env conf₀) k := by
  apply wp_bind
  apply wp_act h
  · exact fun stdout => h.state.measure hmeasured htaken hrunning stdout
  · exact fun e k' hk' hstate => ⟨hk', fun _ => hstate ▸ hrunning.stopped_stop⟩
  intro stdout k' hk' hstate
  have hrunning' : Running conf₀ configName k'.state := by
    rw [hstate]
    exact hrunning
  apply wp_compute
  · intro benchmark hparsed
    exact ⟨hk', hrunning', ⟨stdout, hparsed, by rw [hstate]; rfl⟩, by rw [hstate]; rfl⟩
  · exact fun e _ => ⟨hk', fun _ => hrunning'.stopped_stop⟩

theorem startRedis_spec {configName : Text} (hname : configName ∈ names)
    (h : Always (Sound conf₀) k) (hstopped : Stopped k.state) :
    wp env (startRedis configName : Py ρ Unit) (fun _ => Launched conf₀ configName k.state)
      (Left env conf₀) k := by
  obtain ⟨m, hm, hmods⟩ := startRedis_sweep (names_eq ▸ hname)
  apply wp_bind
  apply wp_compute
  swap
  · intro e he
    rw [hmods] at he
    cases he
  intro configMods hconfigMods
  obtain rfl : configMods = [directive m] := Except.ok.inj (hconfigMods.symm.trans hmods)
  apply wp_bind
  apply wp_mono (updateConfig_spec hm h)
  swap
  · apply onlyRaise_imp
    rintro e k' ⟨hk', files, hstate⟩
    have hstopped' : Stopped k'.state := by
      rw [hstate]
      exact hstopped
    exact ⟨hk', fun _ => stopped_stop hstopped'⟩
  rintro _ k₁ ⟨hk₁, hstate₁⟩
  have hstopped₁ : Stopped k₁.state := by
    rw [hstate₁]
    exact hstopped
  have hforce : Lined conf₀ →
      (readLines k₁.state.files.redisConf).filter isDirective = [directiveLine m] := by
    rw [hstate₁]
    exact fun hlined => inForce_updateConfig hlined h.state.whole hm
  apply wp_seq (launch_spec hname hk₁ hstopped₁ ⟨m, hmods, hforce⟩)
  intro _ k₂ hk₂
  apply wp_call_always hk₂.always
  · intro e k' hdisturbed hk' _
    exact ⟨hk', fun henv => absurd henv hdisturbed⟩
  intro _ k' hk' hstate
  exact ⟨hk', hstate ▸ hk₂.running, by rw [hstate, hk₂.measured, hstate₁],
    by rw [hstate, hk₂.results, hstate₁]⟩

theorem benchmarkMode_spec {options : Options} {configName description : Text}
    {done rest : List (Text × Text)} (hmodes : modes = done ++ (configName, description) :: rest)
    (h : Always (Sound conf₀) k) (hbetween : Between conf₀ done k.state) :
    wp env (benchmarkMode options configName description : Py ρ Unit)
      (fun _ k' => Always (Sound conf₀) k' ∧
        Between conf₀ (done ++ [(configName, description)]) k'.state)
      (onlyRaise fun _ k' => Always (Sound conf₀) k' ∧
        (env.Undisturbed → Stopped k'.state)) k := by
  have hnames : names = done.map Prod.fst ++ configName :: rest.map Prod.fst := by
    rw [names, hmodes, List.map_append, List.map_cons]
  have hname : configName ∈ names := by
    rw [hnames]
    exact List.mem_append_right _ List.mem_cons_self
  have htaken : done.map Prod.fst ++ [configName] <+: names :=
    ⟨rest.map Prod.fst, by rw [hnames, List.append_assoc]; rfl⟩
  -- the body of the `try`, which leaves a server that `stop_redis` knows
  have hbody : wp env (do
      startRedis configName
      let benchmark ← runBenchmark options
      Script.update fun s =>
        { s with results := s.results.set configName ⟨description, benchmark⟩ } : Py ρ Unit)
      (fun _ k' => Always (Sound conf₀) k' ∧ Running conf₀ configName k'.state ∧
        ∃ e benchmark, e.IsOf conf₀ configName ∧ parseOutput e.stdout = .ok benchmark ∧
          k'.state.measured = k.state.measured ++ [e] ∧
          k'.state.results = k.state.results.set configName ⟨description, benchmark⟩)
      (Left env conf₀) k := by
    apply wp_seq (startRedis_spec hname h hbetween.stopped)
    intro _ k₁ hk₁
    have hmeasured := hbetween.measured
    rw [← hk₁.measured] at hmeasured
    apply wp_seq (runBenchmark_spec hk₁.always hmeasured htaken hk₁.running)
    intro benchmark k₂ hk₂
    obtain ⟨stdout, hparsed, hmeasured₂⟩ := hk₂.measured
    have hsound := hk₂.always.state
    apply wp_update_always hk₂.always ⟨hsound.whole, hsound.alone, hsound.measured⟩
    · exact fun e k' hdisturbed hk' _ => ⟨hk', fun henv => absurd henv hdisturbed⟩
    intro k' hk' hstate
    have hrunning : Running conf₀ configName k'.state := by
      rw [hstate]
      exact hk₂.running
    exact ⟨hk', hrunning, _, benchmark, isOf_of_running hk₁.running stdout, hparsed,
      by rw [hstate]; exact hmeasured₂.trans (by rw [hk₁.measured]),
      by rw [hstate]; simp only [hk₂.results, hk₁.results]⟩
  apply wp_tryFinally
  apply wp_mono hbody
  · rintro _ k₁ ⟨hk₁, hrunning, e, benchmark, hof, hparsed, hmeasured, hresults⟩
    apply wp_mono (stopRedis_spec hk₁)
    · rintro _ k' ⟨hk', hstate⟩
      have hstopped : Stopped k'.state := hstate ▸ hrunning.stopped_stop
      refine ⟨hk', hbetween.concat (hbetween.not_mem hmodes) hstopped hof hparsed ?_ ?_⟩
      · rw [hstate, stop_measured, hmeasured]
      · rw [hstate, stop_results, hresults]
    · exact onlyRaise_imp fun e k' hx => ⟨hx.1, fun henv => absurd henv hx.2⟩
  · intro x k₁ hx
    cases x with
    | raise e =>
        apply wp_mono (stopRedis_spec hx.1)
        · rintro _ k' ⟨hk', hstate⟩
          exact ⟨hk', fun henv => hstate ▸ hx.2 henv⟩
        · exact onlyRaise_imp fun e k' hx => ⟨hx.1, fun henv => absurd henv hx.2⟩
    | ret v | brk | cont => exact hx.elim

theorem loop_spec {options : Options} {ι : Type} (items : List ι) (mode : ι → Text × Text)
    {done rest : List (Text × Text)} (hmodes : modes = done ++ items.map mode ++ rest)
    (h : Always (Sound conf₀) k) (hbetween : Between conf₀ done k.state) :
    wp env (forEach items (fun m => benchmarkMode options (mode m).1 (mode m).2) : Py ρ Bool)
      (fun _ k' => Always (Sound conf₀) k' ∧ Between conf₀ (done ++ items.map mode) k'.state)
      (onlyRaise fun _ k' => Always (Sound conf₀) k' ∧
        (env.Undisturbed → Stopped k'.state)) k := by
  let inv (left : List ι) (k' : PyMachine) : Prop := Always (Sound conf₀) k' ∧
    ∃ before, before ++ left.map mode = done ++ items.map mode ∧ Between conf₀ before k'.state
  have hinv : inv items k := ⟨h, done, rfl, hbetween⟩
  apply @wp_forEach _ _ _ _ _ _ _ env k _ _ inv
  · rintro m left k₁ ⟨hk₁, before, hbefore, hbetween₁⟩
    have hround : modes = before ++ ((mode m).1, (mode m).2) :: (left.map mode ++ rest) := by
      rw [hmodes, ← hbefore]
      simp
    apply wp_mono (benchmarkMode_spec hround hk₁ hbetween₁)
    · rintro _ k' ⟨hk', hbetween'⟩
      exact ⟨hk', _, by rw [← hbefore]; simp, hbetween'⟩
    · exact onlyRaise_imp fun e k' hx => hx
  · rintro k' ⟨hk', before, hbefore, hbetween'⟩
    rw [List.map_nil, List.append_nil] at hbefore
    exact ⟨hk', hbefore ▸ hbetween'⟩
  · exact hinv

theorem benchmarkAll_spec (options : Options) (tmp : Option Text) :
    wp env (benchmarkAll options : Py ρ (Dict Text Entry))
      (fun results k' => Always (Sound conf₀) k' ∧ Between conf₀ modes k'.state ∧
        results = k'.state.results)
      (onlyRaise fun _ k' => Always (Sound conf₀) k' ∧
        (env.Undisturbed → Stopped k'.state)) (start ⟨conf₀, tmp⟩) := by
  have hstart : Sound conf₀ (start ⟨conf₀, tmp⟩).state :=
    ⟨whole_start conf₀, Nat.zero_le 1, [], List.nil_prefix, .nil⟩
  have halways : Always (Sound conf₀) (start ⟨conf₀, tmp⟩) := by
    intro s hs
    rw [List.mem_singleton.mp hs]
    exact hstart
  have hstopped : Stopped (start ⟨conf₀, tmp⟩).state := fun v hv => by cases hv
  apply wp_bind
  apply wp_update_always halways ⟨hstart.whole, hstart.alone, hstart.measured⟩
  · exact fun e k' hdisturbed hk' _ => ⟨hk', fun henv => absurd henv hdisturbed⟩
  intro k₁ hk₁ hstate₁
  have hbetween₁ : Between conf₀ [] k₁.state := by
    rw [hstate₁]
    exact ⟨hstopped, .nil, rfl, .nil⟩
  apply wp_seq (loop_spec standardModes
    (fun m => ("standard:".toList ++ m.1, m.2)) rfl hk₁ hbetween₁)
  rintro _ k₂ ⟨hk₂, hbetween₂⟩
  apply wp_seq (loop_spec customModes.entries
    (fun m => (m.1, m.2.description)) (List.append_nil _).symm hk₂ hbetween₂)
  rintro _ k₃ ⟨hk₃, hbetween₃⟩
  exact ⟨hk₃, hbetween₃, rfl⟩

end Specs

section

variable {conf₀ : Text} {env : PyEnv}

/-- Whatever fails and wherever the sweep is interrupted: at any moment `redis.conf` is the
first file or what whole updates have made of it, at most one server is not known to have
ended that could be stopped, and each mode so far was measured after its own server was
started, last of all, and before this was stopped. -/
theorem sound_of_sweep (conf₀ : Text) (env : PyEnv) (options : Options) (tmp : Option Text) :
    ∀ s ∈ ((benchmarkAll options : Py Unit _) env (start ⟨conf₀, tmp⟩)).2.history,
      Sound conf₀ s := by
  apply Script.at_end (P := Always (Sound conf₀))
  apply Script.wp_mono (benchmarkAll_spec options tmp)
  · exact fun _ _ h => h.1
  · exact Script.onlyRaise_imp fun e k' hx => hx.1

/-- Every call succeeds, and `redis-benchmark` prints this. -/
def succeeding (apart : Bool) (stdout : Text) : PyEnv where
  answer := fun _ op =>
    match op with
    | .act (.redisBenchmark _) => .ok stdout
    | .act (.popenShell _) => .ok apart
    | .act .openConf | .act .openTemp | .act .rename | .act (.make _) | .act .popen => .ok ()
    | .writeTemp _ => .ok ()
    | .makefileExists _ => true
    | .sleep | .terminate _ | .wait _ => ()
  interrupt := fun _ => none

/-- The defaults of the command line. -/
def defaults : Options := ⟨50, 100000, "set".toList, 100⟩

/-- The sweep of a file with one line, where `redis-benchmark` prints this. -/
def sweepOf (apart : Bool) (stdout : Text) :=
  (benchmarkAll defaults : Py Unit _) (succeeding apart stdout)
    (start ⟨"appendfsync no\n".toList, none⟩)

/-- The row of one test. -/
def oneTest : Text := "\"test\",\"rps\"\n\"SET\",\"9.5\",\"1\",\"1\",\"2\"\n".toList

/-- A sweep that ends at its first output, which has no number. -/
theorem sound_of_sweep_noNumber :
    (sweepOf false "test\nSET,?,0,0,0".toList).2.state.measured.length = 1 ∧
      ∀ s ∈ (sweepOf false "test\nSET,?,0,0,0".toList).2.history,
        Sound "appendfsync no\n".toList s :=
  ⟨by decide +kernel, sound_of_sweep _ _ _ _⟩

/-- However a sweep ends that no interrupt cuts short, with an exception of any call too, no
server is left but those that run apart from the shell that is terminated. -/
theorem stopped_of_sweep (henv : env.Undisturbed) (conf₀ : Text) (options : Options)
    (tmp : Option Text) :
    ((benchmarkAll options : Py Unit _) env (start ⟨conf₀, tmp⟩)).2.state.running =
      ((benchmarkAll options : Py Unit _) env
        (start ⟨conf₀, tmp⟩)).2.state.servers.filter (·.apart) := by
  have hstopped : Stopped
      ((benchmarkAll options : Py Unit _) env (start ⟨conf₀, tmp⟩)).2.state := by
    apply Script.at_end (P := fun k => Stopped k.state)
    apply Script.wp_mono (benchmarkAll_spec options tmp)
    · exact fun _ _ h => h.2.1.stopped
    · exact Script.onlyRaise_imp fun e k' hx => hx.2 henv
  apply List.filter_congr
  intro v hv
  rw [hstopped v hv, Bool.not_not]

/-- The shells run all five servers of the custom modes apart. -/
theorem stopped_of_sweep_apart :
    (sweepOf true oneTest).2.state.running.length = 5 ∧
      (sweepOf true oneTest).2.state.running =
        (sweepOf true oneTest).2.state.servers.filter (·.apart) := by
  constructor
  · decide +kernel
  · rw [sweepOf]
    exact stopped_of_sweep (fun _ => rfl) _ _ _

/-- A sweep that returns has measured every mode after its own server was started and before
this was stopped, reached this one unless an elder one runs apart, and returns for each mode
in its order what was parsed of its output. -/
theorem results_of_sweep {options : Options} {tmp : Option Text} {results : Dict Text Entry}
    {k : PyMachine}
    (h : (benchmarkAll options : Py Unit _) env (start ⟨conf₀, tmp⟩) = (.ok results, k)) :
    results.entries.map (fun e => (e.1, e.2.description)) = modes ∧
      List.Forall₂ (fun name e => e.IsOf conf₀ name ∧
        e.reached = (e.servers.dropLast.find? (·.apart)).or e.servers.getLast?)
        sweep k.state.measured ∧
      List.Forall₂ (fun e r => parseOutput e.stdout = .ok r.2.benchmark) k.state.measured
        results.entries := by
  have hspec := @benchmarkAll_spec Unit env conf₀ options tmp
  rw [Script.wp, h] at hspec
  obtain ⟨-, hbetween, rfl⟩ := hspec
  refine ⟨hbetween.described, ?_, hbetween.parsed⟩
  rw [← names_eq]
  exact hbetween.measured.imp fun _ _ hof => ⟨hof, hof.reached⟩

/-- The shells run their servers apart, and the first of these is the one that is reached from
then on. -/
theorem results_of_sweep_apart : ∃ results k, sweepOf true oneTest = (.ok results, k) ∧
    results.entries.map (fun e => (e.1, e.2.description)) = modes ∧
    List.Forall₂ (fun name e => e.IsOf "appendfsync no\n".toList name ∧
      e.reached = (e.servers.dropLast.find? (·.apart)).or e.servers.getLast?)
      sweep k.state.measured ∧
    k.state.measured.map (fun e => e.servers.findIdx (!·.ended)) = [0, 1, 2, 3, 3, 3, 3, 3] := by
  have hok : (sweepOf true oneTest).1.isOk = true := by decide +kernel
  have hreached : (sweepOf true oneTest).2.state.measured.map
      (fun e => e.servers.findIdx (!·.ended)) = [0, 1, 2, 3, 3, 3, 3, 3] := by decide +kernel
  rcases hsweep : sweepOf true oneTest with ⟨_ | results, k⟩
  · rw [hsweep] at hok
    cases hok
  · rw [hsweep] at hreached
    obtain ⟨hmodes, hmeasured, -⟩ := results_of_sweep hsweep
    exact ⟨results, k, rfl, hmodes, hmeasured, hreached⟩

end

end BpftimeBenchmark.Redis.Sweep
