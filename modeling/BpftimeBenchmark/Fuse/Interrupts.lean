import BpftimeBenchmark.Fuse.Passthrough
import BpftimeBenchmark.Lib.Transition

/-!
The lock of `passthrough.c` and Ctrl+C. The threads of FUSE count their operations under
the lock, a thread prints the counts under it, and the handler of SIGINT takes it once
more on the thread that the signal comes to. A thread without a signal never waits for
itself; one that the signal finds inside the lock does.
-/

namespace BpftimeBenchmark.Fuse.Interrupts

open Transition

inductive Thread where
  | worker (id : Nat)
  | printer
  deriving DecidableEq

/-- What a thread does, as far as the lock and the counts are concerned. `work` is
anything that takes no part in it. -/
inductive Stmt where
  | lock
  | unlock
  | count (op : OpType)
  | report (op : OpType)
  | stop
  | work
  | sleepWhile (secondsLeft : Nat)
  | whileRunning
  deriving DecidableEq

def incrementOpCount (op : OpType) : List Stmt := [.lock, .count op, .unlock]

/-- The operations that build the full path. -/
def takesPath : OpType → Bool
  | .getattr | .readdir | .open | .create | .truncate => true
  | .fullPath | .read | .write | .flush | .release | .fsync => false

/-- An operation of the file system. -/
def operation (op : OpType) : List Stmt :=
  incrementOpCount op ++ (if takesPath op then incrementOpCount .fullPath else []) ++ [.work]

/-- `op_names`, in its order. -/
def opNames : List OpType :=
  [.fullPath, .getattr, .readdir, .open, .create, .read, .write, .truncate, .flush,
    .release, .fsync]

/-- The counts are printed under the lock. -/
def reports : List Stmt := .lock :: opNames.map .report ++ [.unlock]

/-- One round of the loop of `print_op_counts`. -/
def printOpCounts : List Stmt := .work :: reports ++ [.sleepWhile 100]

/-- While the file system is mounted `global_state` and `mountpoint` are set. -/
def handleSigint : List Stmt := .work :: .stop :: reports ++ [.work]

/-- `frame` is what a thread has left to do and `handler` what the handler of SIGINT has,
where it runs. `owner` is who holds the lock. A count is an `int`. -/
structure State where
  owner : Option Thread
  running : Bool
  opCounts : OpType → BitVec 32
  printed : List (OpType × Int)
  frame : Thread → List Stmt
  handler : Thread → Option (List Stmt)

inductive Label where
  | run (t : Thread)
  | operation (id : Nat) (op : OpType)
  | sigint (t : Thread)

/-- What the thread does next: the handler runs before it goes on. -/
def State.code (s : State) (t : Thread) : List Stmt := (s.handler t).getD (s.frame t)

/-- The thread goes on with `code`; the handler that has come to its end is left. -/
def State.goOn (s : State) (t : Thread) (code : List Stmt) : State :=
  if (s.handler t).isSome then
    { s with handler := Function.update s.handler t (if code = [] then none else some code) }
  else { s with frame := Function.update s.frame t code }

/-- A statement of a thread; who waits for the lock does not run. -/
def exec (s : State) (t : Thread) (rest : List Stmt) : Stmt → Option State
  | .lock => if s.owner = none then some { s.goOn t rest with owner := some t } else none
  | .unlock => some { s.goOn t rest with owner := none }
  | .count op =>
      some { s.goOn t rest with opCounts := Function.update s.opCounts op (s.opCounts op + 1) }
  | .report op =>
      if 0 < (s.opCounts op).toInt then
        some { s.goOn t rest with printed := s.printed ++ [(op, (s.opCounts op).toInt)] }
      else some (s.goOn t rest)
  | .stop => some { s.goOn t rest with running := false }
  | .work => some (s.goOn t rest)
  | .sleepWhile secondsLeft =>
      if s.running && decide (0 < secondsLeft) then
        some (s.goOn t (.sleepWhile (secondsLeft - 1) :: rest))
      else some (s.goOn t rest)
  | .whileRunning =>
      if s.running then some (s.goOn t (printOpCounts ++ .whileRunning :: rest))
      else some (s.goOn t rest)

/-- SIGINT is blocked while its handler runs. -/
def step (s : State) : Label → Option State
  | .run t =>
      match s.code t with
      | [] => none
      | stmt :: rest => exec s t rest stmt
  | .operation id op =>
      if s.handler (.worker id) = none ∧ s.frame (.worker id) = [] then
        some { s with frame := Function.update s.frame (.worker id) (operation op) }
      else none
  | .sigint t =>
      if s.handler t = none then
        some { s with handler := Function.update s.handler t (some handleSigint) }
      else none

def start : State where
  owner := none
  running := true
  opCounts := fun _ => 0
  printed := []
  frame := fun t => if t = .printer then [.whileRunning] else []
  handler := fun _ => none

def system : System State Label where
  start := fun s => s = start
  step := step

/-- The thread waits for the lock that it holds. -/
def Wedged (s : State) (t : Thread) : Prop :=
  (s.code t).head? = some .lock ∧ s.owner = some t

/-- No SIGINT is delivered to the thread that holds the lock. -/
def OutsideLock (s : State) : Label → Prop
  | .run _ => True
  | .operation _ _ => True
  | .sigint t => s.owner ≠ some t

instance (s : State) : ∀ l, Decidable (OutsideLock s l)
  | .run _ => isTrue trivial
  | .operation _ _ => isTrue trivial
  | .sigint t => inferInstanceAs (Decidable (s.owner ≠ some t))

/-- Code that takes and leaves the lock in turns, from inside it if `held`. -/
def balanced : Bool → List Stmt → Bool
  | held, [] => !held
  | held, .lock :: rest => !held && balanced true rest
  | held, .unlock :: rest => held && balanced false rest
  | held, .whileRunning :: rest => !held && balanced false rest
  | held, _ :: rest => balanced held rest

theorem balanced_append {held : Bool} {code rest : List Stmt} (hcode : balanced held code = true)
    (hrest : balanced false rest = true) : balanced held (code ++ rest) = true := by
  induction code generalizing held with
  | nil =>
      obtain rfl : held = false := by simpa [balanced] using hcode
      exact hrest
  | cons stmt code ih =>
      cases stmt with
      | lock | unlock | whileRunning =>
          simp only [balanced, Bool.and_eq_true] at hcode
          simp [balanced, hcode.1, ih hcode.2]
      | count op | report op | stop | work | sleepWhile secondsLeft => exact ih hcode

theorem balanced_operation (op : OpType) : balanced false (operation op) = true := by
  cases op <;> rfl

theorem balanced_handleSigint : balanced false handleSigint = true := by decide

theorem balanced_printOpCounts : balanced false printOpCounts = true := by decide

/-- A thread holds the lock exactly inside one of its critical sections, and the handler
never runs inside one of the thread's own. -/
structure Orderly (s : State) : Prop where
  code : ∀ t, balanced (decide (s.owner = some t)) (s.code t) = true
  frame : ∀ t, s.handler t ≠ none → balanced false (s.frame t) = true

theorem orderly_start : Orderly start where
  code := by
    intro t
    cases t <;> rfl
  frame := fun _ h => absurd rfl h

theorem Orderly.not_wedged {s : State} (h : Orderly s) (t : Thread) : ¬ Wedged s t := by
  rintro ⟨hlock, howner⟩
  have hcode := h.code t
  cases hs : s.code t with
  | nil =>
      rw [hs] at hlock
      cases hlock
  | cons stmt rest =>
      rw [hs] at hlock hcode
      obtain rfl := Option.some.inj hlock
      simp [balanced, howner] at hcode

/-- The thread has done a statement and the lock is not taken from or given to another. -/
theorem Orderly.goOn {s s' : State} (h : Orderly s) {t : Thread} {code : List Stmt}
    (hframe : s'.frame = (s.goOn t code).frame) (hhandler : s'.handler = (s.goOn t code).handler)
    (hcode : balanced (decide (s'.owner = some t)) code = true)
    (hothers : ∀ u, u ≠ t → (s'.owner = some u ↔ s.owner = some u)) : Orderly s' := by
  unfold State.goOn at hframe hhandler
  by_cases hin : (s.handler t).isSome = true
  · simp only [hin, if_true] at hframe hhandler
    have hmain : balanced false (s.frame t) = true := h.frame t (Option.isSome_iff_ne_none.mp hin)
    constructor
    · intro u
      by_cases hu : u = t
      · subst hu
        rw [State.code, hhandler, hframe, Function.update_self]
        split
        · -- the handler returns, and has left the lock
          rename_i hnil
          subst hnil
          have hheld : decide (s'.owner = some u) = false := by simpa [balanced] using hcode
          rw [hheld]
          exact hmain
        · exact hcode
      · rw [State.code, hhandler, hframe, Function.update_of_ne hu]
        simp only [hothers u hu]
        exact h.code u
    · intro u hu
      rw [hframe]
      by_cases heq : u = t
      · rw [heq]
        exact hmain
      · rw [hhandler, Function.update_of_ne heq] at hu
        exact h.frame u hu
  · simp only [hin, if_false, Bool.false_eq_true] at hframe hhandler
    have hnone : s.handler t = none := by simpa using hin
    constructor
    · intro u
      rw [State.code, hhandler, hframe]
      by_cases hu : u = t
      · subst hu
        rw [hnone, Function.update_self]
        exact hcode
      · rw [Function.update_of_ne hu]
        simp only [hothers u hu]
        exact h.code u
    · intro u hu
      rw [hhandler] at hu
      have heq : u ≠ t := fun heq => hu (heq ▸ hnone)
      rw [hframe, Function.update_of_ne heq]
      exact h.frame u hu

theorem Orderly.exec {s s' : State} (h : Orderly s) {t : Thread} {stmt : Stmt}
    {rest : List Stmt} (hcode : s.code t = stmt :: rest)
    (hexec : Interrupts.exec s t rest stmt = some s') : Orderly s' := by
  have hnow := h.code t
  rw [hcode] at hnow
  -- a statement that leaves the lock as it is
  have hsame {s' : State} {code : List Stmt} (howner : s'.owner = s.owner)
      (hframe : s'.frame = (s.goOn t code).frame)
      (hhandler : s'.handler = (s.goOn t code).handler)
      (hbalanced : balanced (decide (s.owner = some t)) code = true) : Orderly s' :=
    h.goOn hframe hhandler (by rw [howner]; exact hbalanced) fun u _ => by rw [howner]
  have howner {code : List Stmt} : (s.goOn t code).owner = s.owner := by
    unfold State.goOn
    split <;> rfl
  cases stmt with
  | lock =>
      simp only [Interrupts.exec] at hexec
      split at hexec
      · rename_i hfree
        cases hexec
        refine h.goOn rfl rfl ?_ fun u hu => ?_
        · rw [balanced, Bool.and_eq_true] at hnow
          simpa using hnow.2
        · rw [hfree]
          constructor
          · intro heq
            exact absurd (Option.some.inj heq).symm hu
          · intro heq
            cases heq
      · cases hexec
  | unlock =>
      cases hexec
      rw [balanced, Bool.and_eq_true, decide_eq_true_eq] at hnow
      refine h.goOn rfl rfl (by simpa using hnow.2) fun u hu => ?_
      rw [hnow.1]
      constructor
      · intro heq
        cases heq
      · intro heq
        exact absurd (Option.some.inj heq).symm hu
  | count op =>
      cases hexec
      exact hsame howner rfl rfl hnow
  | report op =>
      simp only [Interrupts.exec] at hexec
      split at hexec <;> cases hexec <;> exact hsame howner rfl rfl hnow
  | stop | work =>
      cases hexec
      exact hsame howner rfl rfl hnow
  | sleepWhile secondsLeft =>
      simp only [Interrupts.exec] at hexec
      split at hexec <;> cases hexec <;> exact hsame howner rfl rfl hnow
  | whileRunning =>
      rw [balanced, Bool.and_eq_true, Bool.not_eq_true'] at hnow
      simp only [Interrupts.exec] at hexec
      split at hexec <;> cases hexec <;> refine hsame howner rfl rfl ?_
      · rw [hnow.1]
        exact balanced_append balanced_printOpCounts (by simpa [balanced] using hnow.2)
      · rw [hnow.1]
        exact hnow.2

theorem Orderly.step {s s' : State} {l : Label} (h : Orderly s) (hok : OutsideLock s l)
    (hstep : Interrupts.step s l = some s') : Orderly s' := by
  cases l with
  | run t =>
      simp only [Interrupts.step] at hstep
      split at hstep
      · cases hstep
      · rename_i hcode
        exact h.exec hcode hstep
  | operation id op =>
      simp only [Interrupts.step] at hstep
      split at hstep
      · rename_i hidle
        cases hstep
        have hcode : s.code (.worker id) = [] := by rw [State.code, hidle.1]; exact hidle.2
        have hout : decide (s.owner = some (.worker id)) = false := by
          have hnow := h.code (.worker id)
          rw [hcode] at hnow
          simpa [balanced] using hnow
        refine @Orderly.goOn _ _ h (.worker id) (operation op) ?_ ?_ ?_ fun _ _ => Iff.rfl
        · simp [State.goOn, hidle.1]
        · simp [State.goOn, hidle.1]
        · rw [hout]
          exact balanced_operation op
      · cases hstep
  | sigint t =>
      simp only [Interrupts.step] at hstep
      split at hstep
      · rename_i hnone
        cases hstep
        have hout : decide (s.owner = some t) = false := decide_eq_false hok
        have hmain : balanced false (s.frame t) = true := by
          have hnow := h.code t
          rwa [State.code, hnone, hout] at hnow
        constructor
        · intro u
          by_cases hu : u = t
          · subst hu
            simp only [State.code, Function.update_self, Option.getD_some, hout]
            exact balanced_handleSigint
          · simp only [State.code, Function.update_of_ne hu]
            exact h.code u
        · intro u hu
          by_cases heq : u = t
          · rw [heq]
            exact hmain
          · simp only [Function.update_of_ne heq] at hu
            exact h.frame u hu
      · cases hstep

/-- In every run in which no SIGINT is delivered to the thread that holds the lock, no
thread ever waits for a lock of its own. -/
theorem never_wedged {s : State} (h : RunsUnder system OutsideLock s) (t : Thread) :
    ¬ Wedged s t := by
  have horderly : Orderly s := by
    refine h.invariant ?_ fun s l s' hs hok hstep => hs.step hok hstep
    rintro s rfl
    exact orderly_start
  exact horderly.not_wedged t

/-- A worker takes the lock while the printing thread is interrupted. -/
theorem never_wedged_interrupted :
    ∃ s, RunsUnder system OutsideLock s ∧ s.owner = some (.worker 0) ∧
      s.handler .printer = some handleSigint ∧ ∀ t, ¬ Wedged s t := by
  have hrun : RunsUnder system OutsideLock _ := RunsUnder.exec
    [.operation 0 .read, .sigint .printer, .run (.worker 0)] (.start rfl) (by decide) rfl
  exact ⟨_, hrun, rfl, rfl, never_wedged hrun⟩

/-- A SIGINT that finds its thread inside the lock wedges it, wherever that is. -/
theorem wedged_of_inside {s : State} {t : Thread} (howner : s.owner = some t)
    (hhandler : s.handler t = none) :
    ∃ s', Transition.exec system s [.sigint t, .run t, .run t] = some s' ∧ Wedged s' t := by
  let handling (code : List Stmt) : State :=
    { s with handler := Function.update s.handler t (some code) }
  have hsigint : step s (.sigint t) = some (handling handleSigint) := if_pos hhandler
  have hwork : step (handling handleSigint) (.run t) =
      some (handling (.stop :: reports ++ [.work])) := by
    simp [handling, handleSigint, step, State.code, exec, State.goOn]
  have hstop : step (handling (.stop :: reports ++ [.work])) (.run t) =
      some { handling (reports ++ [.work]) with running := false } := by
    simp [handling, reports, step, State.code, exec, State.goOn]
  refine ⟨{ handling (reports ++ [.work]) with running := false }, ?_, ?_, howner⟩
  · simp only [Transition.exec, system, hsigint, hwork, hstop, Option.bind_some]
  · simp [handling, State.code, reports]

/-- A worker is interrupted while it counts a `read`. -/
theorem wedged_worker : ∃ s t, Reachable system s ∧ Wedged s t := by
  refine ⟨_, .worker 0, Reachable.exec [.operation 0 .read, .run (.worker 0),
    .sigint (.worker 0), .run (.worker 0), .run (.worker 0)] (.start rfl) rfl, rfl, rfl⟩

end BpftimeBenchmark.Fuse.Interrupts
