import Mathlib.Logic.Basic

/-!
Labelled transition systems with a partial step function. A label carries
everything the environment chooses, so a schedule is a list of labels and can
be executed. Runs may be guarded by a condition on the state before a step and
the label taken there; an unguarded run is the case where the condition is
`True`.
-/

namespace BpftimeBenchmark.Transition

structure System (S L : Type*) where
  start : S → Prop
  step : S → L → Option S

variable {S L : Type*}

/-- States reached from a start state by steps which all satisfy `ok` in the
state they are taken in. -/
inductive RunsUnder (sys : System S L) (ok : S → L → Prop) : S → Prop where
  | start {s : S} : sys.start s → RunsUnder sys ok s
  | step {s t : S} {l : L} : RunsUnder sys ok s → ok s l →
      sys.step s l = some t → RunsUnder sys ok t

def Reachable (sys : System S L) : S → Prop :=
  RunsUnder sys (fun _ _ => True)

/-- The invariant rule: what holds at the start and is kept by every permitted
step holds after every permitted run. -/
theorem RunsUnder.invariant {sys : System S L} {ok : S → L → Prop}
    {inv : S → Prop} (hstart : ∀ s, sys.start s → inv s)
    (hstep : ∀ s l t, inv s → ok s l → sys.step s l = some t → inv t)
    {s : S} (h : RunsUnder sys ok s) : inv s := by
  induction h with
  | start hs => exact hstart _ hs
  | step _ hok hs ih => exact hstep _ _ _ ih hok hs

theorem RunsUnder.mono {sys : System S L} {ok ok' : S → L → Prop}
    (himp : ∀ s l, ok s l → ok' s l) {s : S} (h : RunsUnder sys ok s) :
    RunsUnder sys ok' s := by
  induction h with
  | start hs => exact .start hs
  | step _ hok hs ih => exact .step ih (himp _ _ hok) hs

def exec (sys : System S L) : S → List L → Option S
  | s, [] => some s
  | s, l :: rest => (sys.step s l).bind (exec sys · rest)

/-- One step more at the end. -/
theorem exec_concat (sys : System S L) (s : S) (schedule : List L) (l : L) :
    exec sys s (schedule ++ [l]) = (exec sys s schedule).bind (sys.step · l) := by
  induction schedule generalizing s with
  | nil => cases h : sys.step s l <;> simp [exec, h]
  | cons m rest ih =>
      cases h : sys.step s m with
      | none => simp [exec, h]
      | some t => simpa [exec, h] using ih t

/-- If every step out of a busy state brings a measure down, a schedule that is
longer than the measure passes through a state that is not busy. -/
theorem exec_reaches {sys : System S L} {busy : S → Prop} {measure : S → Nat}
    (hless : ∀ s l t, busy s → sys.step s l = some t → measure t < measure s)
    {s u : S} {schedule : List L} (hexec : exec sys s schedule = some u)
    (hlong : measure s < schedule.length) :
    ∃ k t, exec sys s (schedule.take k) = some t ∧ ¬ busy t := by
  induction schedule generalizing s with
  | nil => simp at hlong
  | cons l rest ih =>
      by_cases hbusy : busy s
      · obtain ⟨next, hnext, hrest⟩ := Option.bind_eq_some_iff.mp hexec
        have hdown := hless s l next hbusy hnext
        simp only [List.length_cons] at hlong
        obtain ⟨k, t, ht, hidle⟩ := ih hrest (by omega)
        exact ⟨k + 1, t, by simp [exec, hnext, ht], hidle⟩
      · exact ⟨0, s, rfl, hbusy⟩

/-- If every step brings a measure down, the measure bounds the length of the runs. -/
theorem exec_bounded {sys : System S L} (measure : S → Nat)
    (hless : ∀ s l t, sys.step s l = some t → measure t < measure s)
    {s t : S} (schedule : List L) (hexec : exec sys s schedule = some t) :
    schedule.length + measure t ≤ measure s := by
  induction schedule generalizing s with
  | nil =>
      cases hexec
      simp
  | cons l rest ih =>
      obtain ⟨next, hnext, hrest⟩ := Option.bind_eq_some_iff.mp hexec
      have hdown := hless s l next hnext
      have hlater := ih hrest
      rw [List.length_cons]
      omega

/-- The guard holds at every step that `exec` takes along the schedule. -/
def Along (sys : System S L) (ok : S → L → Prop) : S → List L → Prop
  | _, [] => True
  | s, l :: rest => ok s l ∧ ∀ t ∈ sys.step s l, Along sys ok t rest

instance Along.decidable {sys : System S L} {ok : S → L → Prop}
    [∀ s l, Decidable (ok s l)] :
    ∀ (s : S) (schedule : List L), Decidable (Along sys ok s schedule)
  | _, [] => isTrue trivial
  | s, l :: rest =>
      have : ∀ t, Decidable (Along sys ok t rest) := fun t => Along.decidable t rest
      inferInstanceAs (Decidable (ok s l ∧ ∀ t ∈ sys.step s l, Along sys ok t rest))

theorem RunsUnder.exec {sys : System S L} {ok : S → L → Prop} {s t : S}
    (schedule : List L) (h : RunsUnder sys ok s)
    (halong : Along sys ok s schedule)
    (hexec : Transition.exec sys s schedule = some t) :
    RunsUnder sys ok t := by
  induction schedule generalizing s with
  | nil =>
      cases hexec
      exact h
  | cons l rest ih =>
      obtain ⟨next, hnext, hrest⟩ := Option.bind_eq_some_iff.mp hexec
      exact ih (.step h halong.1 hnext) (halong.2 next hnext) hrest

/-- A guard on labels alone is checked on the schedule. -/
theorem along_of_labels {sys : System S L} {ok : S → L → Prop}
    {schedule : List L} (h : ∀ l ∈ schedule, ∀ s, ok s l) (s : S) :
    Along sys ok s schedule := by
  induction schedule generalizing s with
  | nil => trivial
  | cons l rest ih =>
      refine ⟨h l (by simp) s, fun next _ => ?_⟩
      exact ih (fun m hm => h m (by simp [hm])) next

/-- A schedule that executes reaches a reachable state. -/
theorem Reachable.exec {sys : System S L} {s t : S} (schedule : List L)
    (h : Reachable sys s) (hexec : Transition.exec sys s schedule = some t) :
    Reachable sys t :=
  RunsUnder.exec schedule h (along_of_labels (fun _ _ _ => trivial) s) hexec

/-- A map of the states under which two systems agree at exactly the steps that meet a
guard: a schedule looks the same in both, at every moment, if and only if the guard
holds at every step taken along it. -/
theorem exec_map_iff {T : Type*} {sys : System S L} {sys' : System T L}
    {ok : S → L → Prop} (f : S → T)
    (hagree : ∀ s l, (sys.step s l).map f = sys'.step (f s) l ↔ ok s l)
    (s : S) (schedule : List L) :
    (∀ k, (exec sys s (schedule.take k)).map f = exec sys' (f s) (schedule.take k)) ↔
      Along sys ok s schedule := by
  induction schedule generalizing s with
  | nil => exact ⟨fun _ => trivial, fun _ k => by simp [exec]⟩
  | cons l rest ih =>
      constructor
      · intro h
        have hfirst : (sys.step s l).map f = sys'.step (f s) l := by
          simpa [exec] using h 1
        refine ⟨(hagree s l).mp hfirst, fun t ht => (ih t).mp fun k => ?_⟩
        have hnext : sys.step s l = some t := ht
        have hk := h (k + 1)
        rw [hnext, Option.map_some] at hfirst
        rw [List.take_succ_cons, exec, exec, hnext, ← hfirst] at hk
        exact hk
      · rintro ⟨hok, hrest⟩ k
        have hfirst := (hagree s l).mpr hok
        cases k with
        | zero => rfl
        | succ k =>
            rw [List.take_succ_cons, exec, exec, ← hfirst]
            cases hstep : sys.step s l with
            | none => rfl
            | some t => exact (ih t).mpr (hrest t hstep) k

/-- What no label of a schedule touches is as it was when the schedule is done. -/
theorem exec_frame {V : Type*} {sys : System S L} {touches : L → Prop} (view : S → V)
    (hframe : ∀ s l t, sys.step s l = some t → ¬ touches l → view t = view s)
    {s t : S} (schedule : List L) (hexec : exec sys s schedule = some t)
    (hfree : ∀ l ∈ schedule, ¬ touches l) : view t = view s := by
  induction schedule generalizing s with
  | nil =>
      cases hexec
      rfl
  | cons l rest ih =>
      obtain ⟨next, hnext, hrest⟩ := Option.bind_eq_some_iff.mp hexec
      rw [ih hrest (fun m hm => hfree m (by simp [hm]))]
      exact hframe s l next hnext (hfree l (by simp))

end BpftimeBenchmark.Transition
