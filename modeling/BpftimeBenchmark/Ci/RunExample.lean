import Mathlib.Data.List.Infix
import Mathlib.Logic.Function.Basic
import BpftimeBenchmark.Lib.Text
import BpftimeBenchmark.Lib.Transition

/-!
`run_example.py`, which decides whether an example works. It starts the example
and its victim, has a task read the lines of each, and waits for an expected
text. Everything runs on one event loop, so a task runs from one `await` to the
next, and what happens in between comes in any order. The environment chooses
the lines, which waits expire and which calls on the processes fail. A line is
read when `readline` returns it to one of the two tasks; what `communicate`
takes from the pipes in the end is shown to nobody.
-/

namespace BpftimeBenchmark.Ci

open Transition

/-- `main` is given five arguments; the other three say what to start. -/
structure Args where
  executable : Text
  expectedStr : Text

def serverStartSignal : Text := "bpftime-syscall-server started".toList

def errorMark : Text := "[error]".toList

def Args.bashreadlinePatch (args : Args) : Bool :=
  Text.contains args.executable "readline".toList

/-- The three `asyncio.Event`s. -/
inductive Event where
  | shouldExit
  | serverStarted
  | expectedStr
  deriving DecidableEq

/-- A task that runs `handle_stdout`. -/
inductive Monitor where
  | absent
  | running
  | finished
  | failed
  deriving DecidableEq

/-- The bytes of a text in UTF-8. -/
def encode (s : Text) : List UInt8 := s.flatMap String.utf8EncodeChar

/-- What `readline` returns: the bytes of a text, or bytes of no text. -/
inductive Line where
  | text (s : Text)
  | undecodable (raw : List UInt8) (h : ∀ s, encode s ≠ raw)

/-- `decode`; `none` is its exception. -/
def Line.decode : Line → Option Text
  | .text s => some s
  | .undecodable _ _ => none

def Line.contains : Line → Text → Bool
  | .text s, part => Text.contains s part
  | .undecodable raw _, part => decide (encode part <:+: raw)

/-- What a task finds when its `asyncio.wait` returns: a line, with whether it
has been told to stop and whether the output is at its end; an exception of
`readline`; or nothing but the notice to stop. -/
inductive Turn where
  | line (line : Line) (notified eof : Bool)
  | raised
  | notified

/-- `callback_all`: the events to set and the texts that set them. -/
def handleCallbacks (callbackAll : List (Event × Text)) (s : Text) (events : Event → Bool) :
    Event → Bool :=
  callbackAll.foldl
    (fun events callback =>
      if Text.contains s callback.2 then Function.update events callback.1 true else events)
    events

/-- One turn of the loop of `handle_stdout`, with what becomes of the events and
of the task. It is told to stop only when `should_exit` is set. -/
def handleStdout (callbackAll : List (Event × Text)) (checkError : Bool)
    (events : Event → Bool) : Turn → Option ((Event → Bool) × Monitor)
  | .line line notified eof =>
      if notified && !events .shouldExit then none
      else
        match line.decode with
        | none => some (events, .failed)
        | some s =>
            let monitor :=
              if checkError && Text.contains s errorMark then .failed
              else if notified || eof then .finished
              else .running
            some (handleCallbacks callbackAll s events, monitor)
  | .raised => some (events, .failed)
  | .notified => if events .shouldExit then some (events, .finished) else none

/-- Where `main` is. From `sendSignals` on it is in the `finally` block, and
`raised` tells whether an exception has brought it there. -/
inductive Phase where
  | startServer
  | waitStarted
  | sleep
  | startAgent
  | waitExpected
  | sendSignals (raised : Bool)
  | gatherOutputs (raised : Bool)
  | communicate (raised : Bool)
  | ended (raised : Bool)
  deriving DecidableEq

/-- `serverLines` and `agentLines` are history variables. -/
structure Script where
  phase : Phase
  events : Event → Bool
  serverOut : Monitor
  agentOut : Monitor
  serverLines : List Line
  agentLines : List Line

/-- An exception that leaves `main` makes the interpreter exit with 1. -/
def Script.exitStatus (s : Script) : Option Nat :=
  match s.phase with
  | .ended raised => some (if raised then 1 else 0)
  | _ => none

inductive Label where
  | spawn (ok : Bool)
  | wake
  | timeout
  | signals (ok : Bool)
  | gather
  | communicated
  | server (turn : Turn)
  | agent (turn : Turn)

def Script.finally (s : Script) (raised : Bool) : Script :=
  { s with
    phase := .sendSignals raised
    events := Function.update s.events .shouldExit true }

def Args.serverCallbacks (args : Args) : List (Event × Text) :=
  [(.serverStarted, serverStartSignal), (.expectedStr, args.expectedStr)]

def Args.agentCallbacks (args : Args) : List (Event × Text) :=
  [(.expectedStr, args.expectedStr)]

/-- The line that a turn has read. -/
def Turn.lines : Turn → List Line
  | .line l _ _ => [l]
  | .raised | .notified => []

def Script.serverTurn (args : Args) (s : Script) (turn : Turn) : Option Script :=
  if s.serverOut = .running ∧ s.exitStatus = none then
    (handleStdout args.serverCallbacks false s.events turn).map (fun r =>
      { s with
        events := r.1
        serverOut := r.2
        serverLines := s.serverLines ++ turn.lines })
  else none

def Script.agentTurn (args : Args) (s : Script) (turn : Turn) : Option Script :=
  if s.agentOut = .running ∧ s.exitStatus = none then
    (handleStdout args.agentCallbacks true s.events turn).map (fun r =>
      { s with
        events := r.1
        agentOut := r.2
        agentLines := s.agentLines ++ turn.lines })
  else none

/-- The next stretch of `main`. In the `finally` block every exception is caught
and printed: of a process that is gone or was never started, and of a task that
`gather` finds failed. -/
def Script.main (args : Args) (s : Script) : Label → Option Script
  | .spawn ok =>
      match s.phase with
      | .startServer =>
          if ok then some { s with phase := .waitStarted, serverOut := .running }
          else some (s.finally true)
      | .startAgent =>
          if !ok then some (s.finally true)
          else if args.bashreadlinePatch then
            some ({ s with agentOut := .running }.finally false)
          else some { s with phase := .waitExpected, agentOut := .running }
      | _ => none
  | .wake =>
      match s.phase with
      | .waitStarted => if s.events .serverStarted then some { s with phase := .sleep } else none
      | .sleep => some { s with phase := .startAgent }
      | .waitExpected => if s.events .expectedStr then some (s.finally false) else none
      | _ => none
  | .timeout =>
      match s.phase with
      | .waitStarted | .waitExpected => some (s.finally true)
      | _ => none
  | .signals ok =>
      match s.phase with
      | .sendSignals raised =>
          if !ok then some { s with phase := .ended raised }
          else if s.serverOut = .absent ∨ s.agentOut = .absent then none
          else some { s with phase := .gatherOutputs raised }
      | _ => none
  | .gather =>
      match s.phase with
      | .gatherOutputs raised =>
          if s.serverOut = .failed ∨ s.agentOut = .failed then
            some { s with phase := .ended raised }
          else if s.serverOut = .finished ∧ s.agentOut = .finished then
            some { s with phase := .communicate raised }
          else none
      | _ => none
  | .communicated =>
      match s.phase with
      | .communicate raised => some { s with phase := .ended raised }
      | _ => none
  | .server _ | .agent _ => none

def step (args : Args) (s : Script) : Label → Option Script
  | .server turn => s.serverTurn args turn
  | .agent turn => s.agentTurn args turn
  | l => s.main args l

structure Fresh (s : Script) : Prop where
  phase : s.phase = .startServer
  events : ∀ e, s.events e = false
  serverOut : s.serverOut = .absent
  agentOut : s.agentOut = .absent
  serverLines : s.serverLines = []
  agentLines : s.agentLines = []

def system (args : Args) : System Script Label := ⟨Fresh, step args⟩

/-- Exit status 0 means that the expected text was read from one of the processes
and no error from the agent. -/
def SoundCheck (args : Args) (s : Script) : Prop :=
  s.exitStatus = some 0 → args.bashreadlinePatch = false →
    (∃ line ∈ s.serverLines ++ s.agentLines,
      line.contains args.expectedStr = true) ∧
      ∀ line ∈ s.agentLines, line.contains errorMark = false

/-- Whether the `finally` block was reached, and how. -/
def Phase.raised : Phase → Option Bool
  | .sendSignals raised | .gatherOutputs raised | .communicate raised | .ended raised =>
      some raised
  | .startServer | .waitStarted | .sleep | .startAgent | .waitExpected => none

/-- The agent has not been started. -/
def Phase.early : Phase → Bool
  | .startServer | .waitStarted | .sleep | .startAgent => true
  | _ => false

/-- The line sets the event for the expected text. -/
def Args.expectedIn (args : Args) (line : Line) : Bool :=
  line.decode.any (Text.contains · args.expectedStr)

/-- An error of the agent is not read in one run with the expected text: not
after it or in the same line, and not before it. -/
def ErrorApart (args : Args) (s : Script) : Label → Prop
  | .agent (.line line _ _) => line.contains errorMark = true →
      s.events .expectedStr = false ∧ args.expectedIn line = false
  | .server (.line line _ _) => args.expectedIn line = true →
      ∀ x ∈ s.agentLines, x.contains errorMark = false
  | _ => True

instance (args : Args) (s : Script) : ∀ l, Decidable (ErrorApart args s l)
  | .agent (.line line _ _) => inferInstanceAs (Decidable
      (line.contains errorMark = true →
        s.events .expectedStr = false ∧ args.expectedIn line = false))
  | .server (.line line _ _) => inferInstanceAs (Decidable
      (args.expectedIn line = true → ∀ x ∈ s.agentLines, x.contains errorMark = false))
  | .agent .raised | .agent .notified | .server .raised | .server .notified | .spawn _
  | .wake | .timeout | .signals _ | .gather | .communicated => isTrue trivial

/-- Once an exception has been raised the lines make no difference. -/
def VerdictKept (args : Args) (s : Script) (l : Label) : Prop :=
  s.phase.raised = some true ∨ ErrorApart args s l

instance (args : Args) (s : Script) (l : Label) : Decidable (VerdictKept args s l) :=
  inferInstanceAs (Decidable (s.phase.raised = some true ∨ ErrorApart args s l))

variable {args : Args} {s t : Script} {l : Label}

/-- Everything a stretch of `main` can do. -/
inductive MainResult (args : Args) (s : Script) : Script → Prop where
  | server (hphase : s.phase = .startServer) :
      MainResult args s { s with phase := .waitStarted, serverOut := .running }
  | early {p : Phase} (hfrom : s.phase.early) (hto : p.early) :
      MainResult args s { s with phase := p }
  | raise : MainResult args s (s.finally true)
  | readline (hphase : s.phase = .startAgent) (hpatch : args.bashreadlinePatch = true) :
      MainResult args s ({ s with agentOut := .running }.finally false)
  | agent (hphase : s.phase = .startAgent) :
      MainResult args s { s with phase := .waitExpected, agentOut := .running }
  | expected (hphase : s.phase = .waitExpected) (hset : s.events .expectedStr = true) :
      MainResult args s (s.finally false)
  | close {p : Phase} {raised : Bool} (hfrom : s.phase.raised = some raised)
      (hto : p.raised = some raised) : MainResult args s { s with phase := p }

theorem mainResult_spawn {ok : Bool} (h : s.main args (.spawn ok) = some t) :
    MainResult args s t := by
  simp only [Script.main] at h
  split at h
  · rename_i hphase
    split at h
    · cases h
      exact .server hphase
    · cases h
      exact .raise
  · rename_i hphase
    split at h
    · cases h
      exact .raise
    · split at h
      · rename_i hpatch
        cases h
        exact .readline hphase hpatch
      · cases h
        exact .agent hphase
  · cases h

theorem mainResult_wake (h : s.main args .wake = some t) : MainResult args s t := by
  simp only [Script.main] at h
  split at h
  · rename_i hphase
    split at h
    · cases h
      exact .early (by rw [hphase]; rfl) rfl
    · cases h
  · rename_i hphase
    cases h
    exact .early (by rw [hphase]; rfl) rfl
  · rename_i hphase
    split at h
    · rename_i hset
      cases h
      exact .expected hphase hset
    · cases h
  · cases h

theorem mainResult_timeout (h : s.main args .timeout = some t) : MainResult args s t := by
  simp only [Script.main] at h
  split at h
  · cases h
    exact .raise
  · cases h
    exact .raise
  · cases h

/-- The `finally` block keeps the exception it was entered with. -/
theorem mainResult_close (hl : (∃ ok, l = .signals ok) ∨ l = .gather ∨ l = .communicated)
    (h : s.main args l = some t) : MainResult args s t := by
  have hclose : ∀ {p : Phase} {raised : Bool}, s.phase.raised = some raised →
      p.raised = some raised → some { s with phase := p } = some t →
      MainResult args s t := by
    rintro p raised hfrom hto ⟨rfl⟩
    exact .close hfrom hto
  rcases hl with ⟨ok, rfl⟩ | rfl | rfl
  all_goals
    simp only [Script.main] at h
    split at h
    on_goal 2 => cases h
    rename_i raised hphase
    have hfrom : s.phase.raised = some raised := by rw [hphase]; rfl
  · split at h
    · exact hclose hfrom rfl h
    · split at h
      · cases h
      · exact hclose hfrom rfl h
  · split at h
    · exact hclose hfrom rfl h
    · split at h
      · exact hclose hfrom rfl h
      · cases h
  · exact hclose hfrom rfl h

theorem handleCallbacks_iff {callbackAll : List (Event × Text)} {line : Text}
    {events : Event → Bool} {e : Event} :
    handleCallbacks callbackAll line events e = true ↔
      events e = true ∨ ∃ c ∈ callbackAll, c.1 = e ∧ Text.contains line c.2 = true := by
  induction callbackAll generalizing events with
  | nil => simp [handleCallbacks]
  | cons c rest ih =>
      have hcons : handleCallbacks (c :: rest) line events =
          handleCallbacks rest line (if Text.contains line c.2 then
            Function.update events c.1 true else events) := rfl
      rw [hcons, ih]
      by_cases hcontains : Text.contains line c.2 = true
      · by_cases he : e = c.1
        · subst he
          simp [hcontains]
        · simp [hcontains, Function.update_of_ne he, Ne.symm he]
      · simp [hcontains]

/-- Both tasks set the event for the expected text on every text that has it. -/
theorem expected_set {callbackAll : List (Event × Text)} {text : Text}
    {events : Event → Bool}
    (hcallbacks : callbackAll = args.serverCallbacks ∨ callbackAll = args.agentCallbacks) :
    handleCallbacks callbackAll text events .expectedStr = true ↔
      events .expectedStr = true ∨ Text.contains text args.expectedStr = true := by
  rw [handleCallbacks_iff]
  rcases hcallbacks with rfl | rfl <;>
    simp [Args.serverCallbacks, Args.agentCallbacks]

theorem contains_of_expectedIn {line : Line} (h : args.expectedIn line = true) :
    line.contains args.expectedStr = true := by
  cases line with
  | text s => exact h
  | undecodable raw hraw => cases h

/-- What a turn with a line does to the event for the expected text, and that the task
of the agent does not survive an error or a line that cannot be decoded. -/
theorem handleStdout_line {callbackAll : List (Event × Text)} {checkError : Bool}
    {events : Event → Bool} {line : Line} {notified eof : Bool} {r : (Event → Bool) × Monitor}
    (hcallbacks : callbackAll = args.serverCallbacks ∨ callbackAll = args.agentCallbacks)
    (h : handleStdout callbackAll checkError events (.line line notified eof) = some r) :
    (r.1 .expectedStr = true ↔ events .expectedStr = true ∨ args.expectedIn line = true) ∧
      (r.2 ≠ .failed → (checkError && line.contains errorMark) = false) := by
  simp only [handleStdout] at h
  split at h
  · cases h
  cases line with
  | text s =>
      cases h
      refine ⟨expected_set hcallbacks, fun hfailed => ?_⟩
      by_contra herror
      rw [Bool.not_eq_false] at herror
      exact hfailed (if_pos herror)
  | undecodable raw hraw =>
      cases h
      exact ⟨by simp [Args.expectedIn, Line.decode], fun hfailed => absurd rfl hfailed⟩

theorem handleStdout_noLine {callbackAll : List (Event × Text)} {checkError : Bool}
    {events : Event → Bool} {turn : Turn} {r : (Event → Bool) × Monitor}
    (hlines : turn.lines = [])
    (h : handleStdout callbackAll checkError events turn = some r) : r.1 = events := by
  cases turn with
  | line line notified eof => cases hlines
  | raised =>
      cases h
      rfl
  | notified =>
      simp only [handleStdout] at h
      split at h
      · cases h
        rfl
      · cases h

theorem Turn.line_or_noLine (turn : Turn) :
    (∃ line notified eof, turn = .line line notified eof) ∨ turn.lines = [] := by
  cases turn with
  | line line notified eof => exact Or.inl ⟨line, notified, eof, rfl⟩
  | raised => exact Or.inr rfl
  | notified => exact Or.inr rfl

/-- An error that was read has ended the agent's task, and in a run that can still
succeed it was not read beside the expected text. -/
structure VerdictInv (args : Args) (s : Script) : Prop where
  heard : s.events .expectedStr = true →
    ∃ line ∈ s.serverLines ++ s.agentLines, line.contains args.expectedStr = true
  early : s.phase.early → s.agentOut = .absent ∧ s.agentLines = []
  alive : s.agentOut ≠ .failed →
    ∀ line ∈ s.agentLines, line.contains errorMark = false
  passed : s.phase.raised = some false →
    args.bashreadlinePatch = true ∨ s.events .expectedStr = true
  apart : s.phase.raised ≠ some true → s.events .expectedStr = true →
    ∀ line ∈ s.agentLines, line.contains errorMark = false

theorem verdictInv_fresh (h : Fresh s) : VerdictInv args s := by
  constructor <;> simp [h.phase, h.events, h.agentOut, h.agentLines, Phase.raised]

/-- What `main` leaves alone. -/
theorem VerdictInv.of_main (hi : VerdictInv args s)
    (hserver : t.serverLines = s.serverLines) (hagent : t.agentLines = s.agentLines)
    (hexpected : t.events .expectedStr = s.events .expectedStr)
    (hearly : t.phase.early → s.phase.early ∧ t.agentOut = s.agentOut)
    (hout : t.agentOut ≠ .failed → s.agentOut ≠ .failed)
    (hpassed : t.phase.raised = some false →
      args.bashreadlinePatch = true ∨ s.events .expectedStr = true)
    (hraised : t.phase.raised ≠ some true → s.phase.raised ≠ some true) :
    VerdictInv args t := by
  constructor
  · rw [hserver, hagent, hexpected]
    exact hi.heard
  · intro h
    obtain ⟨hs, hsame⟩ := hearly h
    rw [hsame, hagent]
    exact hi.early hs
  · rw [hagent]
    exact fun h => hi.alive (hout h)
  · rw [hexpected]
    exact hpassed
  · rw [hexpected, hagent]
    exact fun h => hi.apart (hraised h)

theorem finally_expected (s : Script) (raised : Bool) :
    (s.finally raised).events .expectedStr = s.events .expectedStr := by
  simp [Script.finally]

theorem raised_of_early (h : s.phase.early) : s.phase.raised = none := by
  revert h
  cases s.phase <;> simp [Phase.early, Phase.raised]

theorem verdictInv_main (hi : VerdictInv args s) (h : MainResult args s t) :
    VerdictInv args t := by
  have hnew : s.phase.early → s.agentOut ≠ .failed := by
    intro hearly
    rw [(hi.early hearly).1]
    decide
  have hopen : s.phase.early → s.phase.raised ≠ some true := by
    intro hearly
    rw [raised_of_early hearly]
    decide
  cases h with
  | server hphase =>
      have hearly : s.phase.early := by rw [hphase]; rfl
      exact hi.of_main rfl rfl rfl (fun _ => ⟨hearly, rfl⟩) id nofun
        (fun _ => hopen hearly)
  | early hfrom hto =>
      refine hi.of_main rfl rfl rfl (fun _ => ⟨hfrom, rfl⟩) id ?_ (fun _ => hopen hfrom)
      intro hpassed
      have hnone := raised_of_early (s := { s with phase := _ }) hto
      rw [hnone] at hpassed
      cases hpassed
  | raise =>
      refine hi.of_main rfl rfl (finally_expected s true) nofun id nofun ?_
      exact fun h => absurd rfl h
  | readline hphase hpatch =>
      have hearly : s.phase.early := by rw [hphase]; rfl
      exact hi.of_main rfl rfl (finally_expected _ false) nofun (fun _ => hnew hearly)
        (fun _ => Or.inl hpatch) (fun _ => hopen hearly)
  | agent hphase =>
      have hearly : s.phase.early := by rw [hphase]; rfl
      exact hi.of_main rfl rfl rfl nofun (fun _ => hnew hearly) nofun
        (fun _ => hopen hearly)
  | expected hphase hset =>
      refine hi.of_main rfl rfl (finally_expected s false) nofun id
        (fun _ => Or.inr hset) ?_
      rw [hphase]
      exact fun _ => nofun
  | @close p raised hfrom hto =>
      refine hi.of_main rfl rfl rfl ?_ id ?_ ?_
      · intro hearly
        have hnone := raised_of_early (s := { s with phase := p }) hearly
        cases hto.symm.trans hnone
      · intro hpassed
        exact hi.passed (hfrom.trans (hto.symm.trans hpassed))
      · intro hraised hfailed
        exact hraised (hto.trans (hfrom.symm.trans hfailed))

/-- Another line is read, and the event was set before or is set by it. -/
theorem VerdictInv.heard_line (hi : VerdictInv args s) {lines : List Line} {line : Line}
    (hold : s.serverLines ++ s.agentLines ⊆ lines) (hnew : line ∈ lines)
    (h : s.events .expectedStr = true ∨ args.expectedIn line = true) :
    ∃ x ∈ lines, x.contains args.expectedStr = true := by
  rcases h with hbefore | hexpected
  · obtain ⟨x, hx, hcontains⟩ := hi.heard hbefore
    exact ⟨x, hold hx, hcontains⟩
  · exact ⟨line, hnew, contains_of_expectedIn hexpected⟩

theorem verdictInv_server {turn : Turn} (hi : VerdictInv args s)
    (hok : VerdictKept args s (.server turn)) (h : s.serverTurn args turn = some t) :
    VerdictInv args t := by
  unfold Script.serverTurn at h
  split at h
  · obtain ⟨r, hr, rfl⟩ := Option.map_eq_some_iff.mp h
    rcases turn.line_or_noLine with ⟨line, notified, eof, rfl⟩ | hlines
    · obtain ⟨hset, -⟩ := handleStdout_line (Or.inl rfl) hr
      refine ⟨?_, hi.early, hi.alive, ?_, ?_⟩
      · intro hexpected
        refine hi.heard_line (fun x hx => ?_) (by simp [Turn.lines]) (hset.mp hexpected)
        simp only [List.mem_append] at hx ⊢
        tauto
      · intro hpassed
        exact (hi.passed hpassed).imp_right fun hold => hset.mpr (Or.inl hold)
      · intro hraised hexpected
        rcases hset.mp hexpected with hold | hnew
        · exact hi.apart hraised hold
        · exact (hok.resolve_left hraised) hnew
    · have hevents := handleStdout_noLine hlines hr
      refine ⟨?_, hi.early, hi.alive, ?_, ?_⟩ <;> simp only [hlines, List.append_nil, hevents]
      · exact hi.heard
      · exact hi.passed
      · exact hi.apart
  · cases h

theorem verdictInv_agent {turn : Turn} (hi : VerdictInv args s)
    (hok : VerdictKept args s (.agent turn)) (h : s.agentTurn args turn = some t) :
    VerdictInv args t := by
  unfold Script.agentTurn at h
  split at h
  · rename_i hrunning
    obtain ⟨r, hr, rfl⟩ := Option.map_eq_some_iff.mp h
    have hlate : ¬ s.phase.early := by
      intro hearly
      rw [(hi.early hearly).1] at hrunning
      cases hrunning.1
    have hclean : ∀ line ∈ s.agentLines, line.contains errorMark = false := by
      apply hi.alive
      rw [hrunning.1]
      decide
    rcases turn.line_or_noLine with ⟨line, notified, eof, rfl⟩ | hlines
    · obtain ⟨hset, hfailed⟩ := handleStdout_line (Or.inr rfl) hr
      have hall : line.contains errorMark = false →
          ∀ x ∈ s.agentLines ++ [line], x.contains errorMark = false := by
        intro hline x hx
        rcases List.mem_append.mp hx with hold | hnew
        · exact hclean x hold
        · obtain rfl := List.mem_singleton.mp hnew
          exact hline
      refine ⟨?_, fun hearly => absurd hearly hlate, ?_, ?_, ?_⟩
      · intro hexpected
        refine hi.heard_line (fun x hx => ?_) (by simp [Turn.lines]) (hset.mp hexpected)
        simp only [List.mem_append] at hx ⊢
        tauto
      · intro halive
        exact hall (by simpa using hfailed halive)
      · intro hpassed
        exact (hi.passed hpassed).imp_right fun hold => hset.mpr (Or.inl hold)
      · intro hraised hexpected
        apply hall
        by_contra herror
        obtain ⟨hunset, hno⟩ := (hok.resolve_left hraised) (by simpa using herror)
        rcases hset.mp hexpected with hold | hnew
        · rw [hunset] at hold
          cases hold
        · rw [hno] at hnew
          cases hnew
    · have hevents := handleStdout_noLine hlines hr
      refine ⟨?_, fun hearly => absurd hearly hlate, ?_, ?_, ?_⟩ <;>
        simp only [hlines, List.append_nil, hevents]
      · exact hi.heard
      · exact fun _ => hclean
      · exact hi.passed
      · exact hi.apart
  · cases h

theorem verdictInv_step (hi : VerdictInv args s) (hok : VerdictKept args s l)
    (h : step args s l = some t) : VerdictInv args t := by
  cases l with
  | server turn => exact verdictInv_server hi hok h
  | agent turn => exact verdictInv_agent hi hok h
  | spawn ok => exact verdictInv_main hi (mainResult_spawn h)
  | wake => exact verdictInv_main hi (mainResult_wake h)
  | timeout => exact verdictInv_main hi (mainResult_timeout h)
  | signals ok => exact verdictInv_main hi (mainResult_close (Or.inl ⟨ok, rfl⟩) h)
  | gather => exact verdictInv_main hi (mainResult_close (Or.inr (Or.inl rfl)) h)
  | communicated => exact verdictInv_main hi (mainResult_close (Or.inr (Or.inr rfl)) h)

theorem soundCheck_of_inv (hi : VerdictInv args s) : SoundCheck args s := by
  intro hstatus hpatch
  have hphase : s.phase.raised = some false := by
    unfold Script.exitStatus at hstatus
    split at hstatus
    · rename_i raised hended
      rw [hended]
      cases raised
      · rfl
      · cases hstatus
    · cases hstatus
  have hset : s.events .expectedStr = true := by
    rcases hi.passed hphase with hread | hset
    · rw [hpatch] at hread
      cases hread
    · exact hset
  refine ⟨hi.heard hset, hi.apart ?_ hset⟩
  rw [hphase]
  decide

/-- In every run in which the two are not read together, the exit status tells
the truth. -/
theorem soundCheck_of_verdictKept
    (h : RunsUnder (system args) (VerdictKept args) s) : SoundCheck args s := by
  apply soundCheck_of_inv
  exact h.invariant (fun _ hfresh => verdictInv_fresh hfresh)
    (fun _ _ _ hi hok hstep => verdictInv_step hi hok hstep)

/-- Before anything is started. -/
def freshScript : Script := ⟨.startServer, fun _ => false, .absent, .absent, [], []⟩

theorem fresh_freshScript : Fresh freshScript :=
  ⟨rfl, fun _ => rfl, rfl, rfl, rfl, rfl⟩

def malloc : Args := ⟨"example/malloc/malloc".toList, "malloc calls".toList⟩

/-- The server is started and the agent after it. -/
def bothStarted : List Label :=
  [.spawn true, .server (.line (.text (serverStartSignal ++ ['\n'])) false false), .wake, .wake,
    .spawn true]

/-- The agent reports an error after the server has printed what is expected. -/
def errorAfterwards : List Label :=
  bothStarted ++
    [.server (.line (.text "malloc calls: 3\n".toList) false false),
      .agent (.line (.text "[error] no shared memory\n".toList) false false), .wake,
      .signals true, .gather]

/-- The task of the agent fails, and `main` does not take notice. -/
theorem error_of_agent_is_swallowed :
    ∃ s, Reachable (system malloc) s ∧ ¬ SoundCheck malloc s := by
  have hrun : (exec (system malloc) freshScript errorAfterwards).map
      (fun s => (s.exitStatus, malloc.bashreadlinePatch,
        s.agentLines.any (Line.contains · errorMark))) = some (some 0, false, true) := by
    decide +kernel
  obtain ⟨s, hs, hend⟩ := Option.map_eq_some_iff.mp hrun
  simp only [Prod.mk.injEq] at hend
  obtain ⟨hstatus, hpatch, herror⟩ := hend
  obtain ⟨line, hline, hcontains⟩ := List.any_eq_true.mp herror
  refine ⟨s, Reachable.exec errorAfterwards (.start fresh_freshScript) hs, ?_⟩
  intro hsound
  rw [(hsound hstatus hpatch).2 line hline] at hcontains
  cases hcontains

def noError : List Label :=
  bothStarted ++
    [.agent (.line (.text "malloc calls: 3\n".toList) false false), .wake, .signals true,
      .server .notified, .agent (.line (.text []) true true), .gather, .communicated]

theorem soundCheck_of_verdictKept_noError :
    ∃ s, s.exitStatus = some 0 ∧ SoundCheck malloc s := by
  have hrun : (exec (system malloc) freshScript noError).map
      (fun s => s.exitStatus) = some (some 0) := by decide +kernel
  have halong : Along (system malloc) (VerdictKept malloc) freshScript noError := by
    decide +kernel
  obtain ⟨s, hs, hend⟩ := Option.map_eq_some_iff.mp hrun
  exact ⟨s, hend, soundCheck_of_verdictKept
    (.exec noError (.start fresh_freshScript) halong hs)⟩

end BpftimeBenchmark.Ci
