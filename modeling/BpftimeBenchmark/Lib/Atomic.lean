import Mathlib.Logic.Function.Basic
import BpftimeBenchmark.Lib.Transition

/-!
An object that any number of workers serve. A worker takes a request, acts on the object
at one moment, and answers. The history of these moments is a run of the object that
serves one request at a time (`serial_of_run`), and every answer has been made since its
request was taken (`answered_of_run`).
-/

namespace BpftimeBenchmark.Atomic

open Transition

/-- `since` is the length of the history when the request was taken. -/
inductive Task (Req Rep : Type*) where
  | idle
  | called (r : Req) (since : Nat)
  | answered (r : Req) (a : Rep) (since : Nat)

structure State (S Req Rep W : Type*) where
  object : S
  task : W → Task Req Rep
  history : List (Req × Rep)

inductive Label (Req W : Type*) where
  | call (w : W) (r : Req)
  | act (w : W)
  | reply (w : W)

variable {S Req Rep W : Type*} [DecidableEq W]

/-- `serve` is undefined where the object has no behaviour for a request. -/
def step (serve : S → Req → Option (S × Rep)) (s : State S Req Rep W) :
    Label Req W → Option (State S Req Rep W)
  | .call w r =>
      match s.task w with
      | .idle =>
          some { s with task := Function.update s.task w (.called r s.history.length) }
      | _ => none
  | .act w =>
      match s.task w with
      | .called r since =>
          (serve s.object r).map fun (object, a) =>
            { object := object
              task := Function.update s.task w (.answered r a since)
              history := s.history ++ [(r, a)] }
      | _ => none
  | .reply w =>
      match s.task w with
      | .answered _ _ _ => some { s with task := Function.update s.task w .idle }
      | _ => none

def start (object : S) : State S Req Rep W where
  object := object
  task := fun _ => .idle
  history := []

def system (serve : S → Req → Option (S × Rep)) (object : S) :
    System (State S Req Rep W) (Label Req W) where
  start := fun s => s = start object
  step := step serve

/-- The object that serves one request at a time. -/
def serial (serve : S → Req → Option (S × Rep)) : System (S × List (Req × Rep)) Req where
  start := fun s => s.2 = []
  step := fun s r => (serve s.1 r).map fun (object, a) => (object, s.2 ++ [(r, a)])

variable {serve : S → Req → Option (S × Rep)} {object : S} {s t : State S Req Rep W}

/-- A step leaves object and history alone, or serves the request of a worker. -/
theorem step_cases {l : Label Req W} (hstep : step serve s l = some t) :
    (t.object = s.object ∧ t.history = s.history) ∨
      ∃ r a, serve s.object r = some (t.object, a) ∧ t.history = s.history ++ [(r, a)] := by
  cases l with
  | call w r =>
      cases htask : s.task w with
      | idle =>
          simp only [step, htask, Option.some.injEq] at hstep
          subst hstep
          exact Or.inl ⟨rfl, rfl⟩
      | called | answered => simp [step, htask] at hstep
  | act w =>
      cases htask : s.task w with
      | called r since =>
          simp only [step, htask, Option.map_eq_some_iff] at hstep
          obtain ⟨⟨o, a⟩, hserve, rfl⟩ := hstep
          exact Or.inr ⟨r, a, hserve, rfl⟩
      | idle | answered => simp [step, htask] at hstep
  | reply w =>
      cases htask : s.task w with
      | answered r a since =>
          simp only [step, htask, Option.some.injEq] at hstep
          subst hstep
          exact Or.inl ⟨rfl, rfl⟩
      | idle | called => simp [step, htask] at hstep

theorem serial_of_run (h : Reachable (system serve object) s) :
    exec (serial serve) (object, []) (s.history.map Prod.fst) =
      some (s.object, s.history) := by
  induction h with
  | start hs =>
      cases hs
      rfl
  | step _ _ hstep ih =>
      rcases step_cases hstep with ⟨hobject, hhistory⟩ | ⟨r, a, hserve, hhistory⟩
      · rw [hobject, hhistory]
        exact ih
      · rw [hhistory, List.map_append, List.map_singleton, exec_concat, ih]
        simp [serial, hserve]

/-- What a task knows of the history. -/
def Task.Known (history : List (Req × Rep)) : Task Req Rep → Prop
  | .idle => True
  | .called _ since => since ≤ history.length
  | .answered r a since => ∃ i, since ≤ i ∧ history[i]? = some (r, a)

theorem Task.Known.append {history : List (Req × Rep)} {task : Task Req Rep}
    (h : task.Known history) (new : List (Req × Rep)) : task.Known (history ++ new) := by
  cases task with
  | idle => trivial
  | called r since =>
      have hsince : since ≤ history.length := h
      change since ≤ (history ++ new).length
      rw [List.length_append]
      omega
  | answered r a since =>
      obtain ⟨i, hsince, hi⟩ := h
      have hlt : i < history.length := (List.getElem?_eq_some_iff.mp hi).1
      exact ⟨i, hsince, by rw [List.getElem?_append_left hlt, hi]⟩

/-- The worker of a label has a new task; the others know what they knew. -/
theorem known_update {task : W → Task Req Rep} {history : List (Req × Rep)}
    (h : ∀ w, (task w).Known history) {new : Task Req Rep} (hnew : new.Known history) (w : W) :
    ∀ v, (Function.update task w new v).Known history := by
  intro v
  by_cases hv : v = w
  · subst hv
    rwa [Function.update_self]
  · rw [Function.update_of_ne hv]
    exact h v

theorem known_of_step {l : Label Req W} (h : ∀ w, (s.task w).Known s.history)
    (hstep : step serve s l = some t) : ∀ w, (t.task w).Known t.history := by
  cases l with
  | call w r =>
      cases htask : s.task w with
      | idle =>
          simp only [step, htask, Option.some.injEq] at hstep
          subst hstep
          exact known_update h (Nat.le_refl _) w
      | called | answered => simp [step, htask] at hstep
  | act w =>
      cases htask : s.task w with
      | called r since =>
          simp only [step, htask, Option.map_eq_some_iff] at hstep
          obtain ⟨⟨o, a⟩, hserve, rfl⟩ := hstep
          have hsince : since ≤ s.history.length := by
            have hknown := h w
            rwa [htask] at hknown
          have hmade : (Task.answered r a since).Known (s.history ++ [(r, a)]) :=
            ⟨s.history.length, hsince, by simp⟩
          exact known_update (fun v => (h v).append _) hmade w
      | idle | answered => simp [step, htask] at hstep
  | reply w =>
      cases htask : s.task w with
      | answered r a since =>
          simp only [step, htask, Option.some.injEq] at hstep
          subst hstep
          have hidle : (Task.idle : Task Req Rep).Known s.history := trivial
          exact known_update h hidle w
      | idle | called => simp [step, htask] at hstep

theorem known_of_run (h : Reachable (system serve object) s) :
    ∀ w, (s.task w).Known s.history := by
  induction h with
  | start hs =>
      cases hs
      exact fun _ => trivial
  | step _ _ hstep ih => exact known_of_step ih hstep

theorem answered_of_run (h : Reachable (system serve object) s) {w : W} {r : Req} {a : Rep}
    {since : Nat} (htask : s.task w = .answered r a since) :
    ∃ i, since ≤ i ∧ s.history[i]? = some (r, a) := by
  have hknown := known_of_run h w
  rwa [htask] at hknown

end BpftimeBenchmark.Atomic
