import Mathlib.Algebra.Ring.Nat
import Mathlib.Logic.Function.Iterate
import BpftimeBenchmark.Lib.Transition

/-!
The NVBit tool of `nvbit_vec_add.cu`. NVBit calls it when a host thread enters a call of the
CUDA driver and when it leaves it. The tool takes a mutex at the entry of the launches it
knows and leaves it at their exit, after it has waited for the device: no two of their
kernels run at once. The calls it puts into a kernel are those of `nvbit_timing_funcs.cu`,
where the stores are commented out.
-/

namespace BpftimeBenchmark.Gpu.Nvbit

open Transition

abbrev Thread := Nat

/-- A `CUfunction`. -/
abbrev Func := Nat

/-- The callback ids; `other` stands for all that the tool does not look at. -/
inductive Cbid where
  | cuLaunch
  | cuLaunchKernelPtsz
  | cuLaunchGrid
  | cuLaunchGridAsync
  | cuLaunchKernel
  | other
  deriving DecidableEq

def Cbid.handled : Cbid → Bool
  | .cuLaunch | .cuLaunchKernelPtsz | .cuLaunchGrid | .cuLaunchGridAsync | .cuLaunchKernel =>
      true
  | .other => false

/-- What a host thread does next. The tool's part begins with `lock` and ends with `unlock`;
`launch` between them is the driver's, and `plainLaunch` is a launch without the tool. -/
inductive Pc where
  | idle
  | lock (f : Func)
  | instrument (f : Func)
  | enable (f : Func)
  | clearStart (f : Func)
  | clearEnd (f : Func)
  | launch (f : Func)
  | synchronize
  | count
  | addTime
  | unlock
  | plainLaunch (f : Func)
  deriving DecidableEq

/-- The thread has the mutex. -/
def Pc.inside : Pc → Bool
  | .idle | .lock _ | .plainLaunch _ => false
  | _ => true

/-- A kernel on the device: `calls` is how often each of the two calls is in it. Its threads
are one here: the first instruction of one of them is as good as that of another.
`launcher` is the host thread that launched it and is a history variable. -/
structure Kernel where
  launcher : Thread
  func : Func
  calls : Nat
  started : Bool
  deriving DecidableEq

/-- `inserted` counts what `nvbit_insert_call` has put into a function, at its first and
at its last instruction alike. `returned` counts the launches that have come back through
the tool and is a history variable. -/
structure State where
  mutex : Option Thread
  alreadyInstrumented : List Func
  inserted : Func → Nat
  enabled : Func → Bool
  kernelStartTime : Nat
  kernelEndTime : Nat
  kernelCount : Nat
  totalExecTimeNs : Nat
  printed : List Nat
  pc : Thread → Pc
  kernels : List Kernel
  returned : Nat

/-- `refuse` is a launch that the driver fails; `begin` and `finish` are the first and the
last instruction of a kernel. -/
inductive Label where
  | call (t : Thread) (cbid : Cbid) (f : Func)
  | run (t : Thread)
  | refuse (t : Thread)
  | begin (i : Nat) (clock : Nat)
  | finish (i : Nat) (clock : Nat)

/-- `record_start_time` and `record_end_time` of the device: what they store is a comment. -/
def recordTime (_clock : Nat) (time : Nat) : Nat := time

def State.goOn (s : State) (t : Thread) (pc : Pc) : State :=
  { s with pc := Function.update s.pc t pc }

/-- `instrument_function_if_needed`: a function is looked at once, and one without
instructions is left as it is. -/
def State.instrument (s : State) (instrs : Func → Nat) (f : Func) : State :=
  if f ∈ s.alreadyInstrumented then s
  else
    { s with
      alreadyInstrumented := f :: s.alreadyInstrumented
      inserted := if instrs f = 0 then s.inserted
        else Function.update s.inserted f (s.inserted f + 1) }

def State.addKernel (s : State) (t : Thread) (f : Func) : State :=
  { s with
    kernels := s.kernels ++ [⟨t, f, if s.enabled f then s.inserted f else 0, false⟩] }

/-- The times are those of `uint64_t`. -/
def State.addTime (s : State) : State :=
  if s.kernelStartTime < s.kernelEndTime then
    { s with
      totalExecTimeNs :=
        (s.totalExecTimeNs + (s.kernelEndTime - s.kernelStartTime)) % 2 ^ 64
      printed := s.printed ++ [s.kernelEndTime - s.kernelStartTime] }
  else s

def run (instrs : Func → Nat) (s : State) (t : Thread) : Pc → Option State
  | .idle => none
  | .lock f =>
      if s.mutex = none then some ({ s with mutex := some t }.goOn t (.instrument f)) else none
  | .instrument f => some ((s.instrument instrs f).goOn t (.enable f))
  | .enable f =>
      some ({ s with enabled := Function.update s.enabled f true }.goOn t (.clearStart f))
  | .clearStart f => some ({ s with kernelStartTime := 0 }.goOn t (.clearEnd f))
  | .clearEnd f => some ({ s with kernelEndTime := 0 }.goOn t (.launch f))
  | .launch f => some ((s.addKernel t f).goOn t .synchronize)
  | .synchronize => if s.kernels = [] then some (s.goOn t .count) else none
  | .count =>
      some ({ s with kernelCount := (s.kernelCount + 1) % 2 ^ 32 }.goOn t .addTime)
  | .addTime => some (s.addTime.goOn t .unlock)
  | .unlock => some ({ s with mutex := none, returned := s.returned + 1 }.goOn t .idle)
  | .plainLaunch f => some ((s.addKernel t f).goOn t .idle)

def State.begin (s : State) (i clock : Nat) : Option State :=
  match s.kernels[i]? with
  | none => none
  | some κ =>
      if κ.started then none
      else
        some { s with
          kernels := s.kernels.set i { κ with started := true }
          kernelStartTime := (recordTime clock)^[κ.calls] s.kernelStartTime }

def State.finish (s : State) (i clock : Nat) : Option State :=
  match s.kernels[i]? with
  | none => none
  | some κ =>
      if κ.started then
        some { s with
          kernels := s.kernels.eraseIdx i
          kernelEndTime := (recordTime clock)^[κ.calls] s.kernelEndTime }
      else none

def step (instrs : Func → Nat) (s : State) : Label → Option State
  | .call t cbid f =>
      if s.pc t = .idle then
        some (s.goOn t (if cbid.handled then .lock f else .plainLaunch f))
      else none
  | .run t => run instrs s t (s.pc t)
  | .refuse t =>
      match s.pc t with
      | .launch _ => some (s.goOn t .synchronize)
      | .plainLaunch _ => some (s.goOn t .idle)
      | _ => none
  | .begin i clock => s.begin i clock
  | .finish i clock => s.finish i clock

def start : State where
  mutex := none
  alreadyInstrumented := []
  inserted := fun _ => 0
  enabled := fun _ => false
  kernelStartTime := 0
  kernelEndTime := 0
  kernelCount := 0
  totalExecTimeNs := 0
  printed := []
  pc := fun _ => .idle
  kernels := []
  returned := 0

def system (instrs : Func → Nat) : System State Label where
  start := fun s => s = start
  step := step instrs

/-- What a statement of a thread does to the rest of the state, and where it leads. -/
inductive Does (instrs : Func → Nat) (s : State) (t : Thread) : Pc → State → Pc → Prop where
  | lock (f : Func) : s.mutex = none →
      Does instrs s t (.lock f) { s with mutex := some t } (.instrument f)
  | instrument (f : Func) : Does instrs s t (.instrument f) (s.instrument instrs f) (.enable f)
  | enable (f : Func) :
      Does instrs s t (.enable f) { s with enabled := Function.update s.enabled f true }
        (.clearStart f)
  | clearStart (f : Func) :
      Does instrs s t (.clearStart f) { s with kernelStartTime := 0 } (.clearEnd f)
  | clearEnd (f : Func) :
      Does instrs s t (.clearEnd f) { s with kernelEndTime := 0 } (.launch f)
  | launch (f : Func) : Does instrs s t (.launch f) (s.addKernel t f) .synchronize
  | synchronize : s.kernels = [] → Does instrs s t .synchronize s .count
  | count :
      Does instrs s t .count { s with kernelCount := (s.kernelCount + 1) % 2 ^ 32 } .addTime
  | addTime : Does instrs s t .addTime s.addTime .unlock
  | unlock :
      Does instrs s t .unlock { s with mutex := none, returned := s.returned + 1 } .idle
  | plainLaunch (f : Func) : Does instrs s t (.plainLaunch f) (s.addKernel t f) .idle

/-! ### The mutex -/

variable {instrs : Func → Nat} {s s' : State} {t : Thread} {pc pc' : Pc}

theorem does_of_run (hrun : run instrs s t pc = some s') :
    ∃ s'' pc', Does instrs s t pc s'' pc' ∧ s' = s''.goOn t pc' := by
  cases pc with
  | idle => cases hrun
  | lock f =>
      simp only [run, Option.ite_none_right_eq_some, Option.some.injEq] at hrun
      exact ⟨_, _, .lock f hrun.1, hrun.2.symm⟩
  | synchronize =>
      simp only [run, Option.ite_none_right_eq_some, Option.some.injEq] at hrun
      exact ⟨_, _, .synchronize hrun.1, hrun.2.symm⟩
  | instrument f => exact ⟨_, _, .instrument f, (Option.some.inj hrun).symm⟩
  | enable f => exact ⟨_, _, .enable f, (Option.some.inj hrun).symm⟩
  | clearStart f => exact ⟨_, _, .clearStart f, (Option.some.inj hrun).symm⟩
  | clearEnd f => exact ⟨_, _, .clearEnd f, (Option.some.inj hrun).symm⟩
  | launch f => exact ⟨_, _, .launch f, (Option.some.inj hrun).symm⟩
  | count => exact ⟨_, _, .count, (Option.some.inj hrun).symm⟩
  | addTime => exact ⟨_, _, .addTime, (Option.some.inj hrun).symm⟩
  | unlock => exact ⟨_, _, .unlock, (Option.some.inj hrun).symm⟩
  | plainLaunch f => exact ⟨_, _, .plainLaunch f, (Option.some.inj hrun).symm⟩

@[simp] theorem goOn_pc_self (pc : Pc) : (s.goOn t pc).pc t = pc :=
  Function.update_self ..

@[simp] theorem goOn_pc_of_ne {u : Thread} (h : u ≠ t) (pc : Pc) :
    (s.goOn t pc).pc u = s.pc u :=
  Function.update_of_ne h ..

def Held (s : State) : Prop :=
  ∀ t, (s.pc t).inside = true ↔ s.mutex = some t

theorem instrument_pc (f : Func) : (s.instrument instrs f).pc = s.pc := by
  unfold State.instrument
  split <;> rfl

theorem instrument_mutex (f : Func) : (s.instrument instrs f).mutex = s.mutex := by
  unfold State.instrument
  split <;> rfl

theorem instrument_kernels (f : Func) : (s.instrument instrs f).kernels = s.kernels := by
  unfold State.instrument
  split <;> rfl

theorem addTime_of_zero (h : s.kernelEndTime = 0) : s.addTime = s := by
  simp [State.addTime, h]

theorem addTime_pc : s.addTime.pc = s.pc := by
  unfold State.addTime
  split <;> rfl

theorem addTime_mutex : s.addTime.mutex = s.mutex := by
  unfold State.addTime
  split <;> rfl

theorem addTime_kernels : s.addTime.kernels = s.kernels := by
  unfold State.addTime
  split <;> rfl

/-- A thread goes on, inside the mutex or outside. -/
theorem Held.goOn (h : Held s) {pc : Pc} (hpc : s'.pc = s.pc) (hmutex : s'.mutex = s.mutex)
    (hinside : pc.inside = (s.pc t).inside) : Held (s'.goOn t pc) := by
  intro u
  by_cases hu : u = t
  · subst hu
    simp only [State.goOn, Function.update_self, hinside, hmutex]
    exact h u
  · simp only [State.goOn, Function.update_of_ne hu, hpc, hmutex]
    exact h u

/-- A thread takes the mutex or leaves it. -/
theorem Held.pass (h : Held s) {pc : Pc} (hpc : s'.pc = s.pc)
    (howner : s.mutex = if pc.inside then none else some t)
    (hmutex : s'.mutex = if pc.inside then some t else none) : Held (s'.goOn t pc) := by
  intro u
  by_cases hu : u = t
  · subst hu
    simp only [State.goOn, Function.update_self, hmutex]
    cases pc.inside <;> simp
  · simp only [State.goOn, Function.update_of_ne hu, hpc, hmutex]
    have hout := h u
    rw [howner] at hout
    cases hpc : pc.inside <;> simp [hpc, Ne.symm hu] at hout ⊢ <;> simpa using hout

theorem Held.does (h : Held s) (hdoes : Does instrs s t (s.pc t) s' pc') :
    Held (s'.goOn t pc') := by
  have hin := (h t).mp
  generalize hpc : s.pc t = pc at hdoes hin
  cases hdoes with
  | lock f hfree => exact h.pass rfl hfree rfl
  | unlock => exact h.pass rfl (hin rfl) rfl
  | instrument f =>
      exact h.goOn (instrument_pc f) (instrument_mutex f) (by rw [hpc]; rfl)
  | addTime => exact h.goOn addTime_pc addTime_mutex (by rw [hpc]; rfl)
  | enable | clearStart | clearEnd | launch | synchronize | count | plainLaunch =>
      exact h.goOn rfl rfl (by rw [hpc]; rfl)

/-- A kernel on the device changes nothing but what is on the device. -/
theorem device_step {l : Label} (hstep : Nvbit.step instrs s l = some s')
    (hlabel : (∃ i clock, l = .begin i clock) ∨ ∃ i clock, l = .finish i clock) :
    ∃ kernels, s' = { s with kernels := kernels } ∧ kernels.length ≤ s.kernels.length ∧
      ∀ κ ∈ kernels, ∃ κ' ∈ s.kernels,
        κ.launcher = κ'.launcher ∧ κ.func = κ'.func ∧ κ.calls = κ'.calls := by
  have hrecord : ∀ clock n time, (recordTime clock)^[n] time = time :=
    fun clock n time => congrFun (Function.iterate_id n) time
  rcases hlabel with ⟨i, clock, rfl⟩ | ⟨i, clock, rfl⟩
  · change s.begin i clock = some s' at hstep
    cases hi : s.kernels[i]? with
    | none => simp [State.begin, hi] at hstep
    | some κ =>
        simp only [State.begin, hi, hrecord, Option.ite_none_left_eq_some,
          Option.some.injEq] at hstep
        obtain ⟨-, rfl⟩ := hstep
        refine ⟨_, rfl, Nat.le_of_eq (List.length_set ..), fun κ' hκ' => ?_⟩
        rcases List.mem_or_eq_of_mem_set hκ' with hold | rfl
        · exact ⟨κ', hold, rfl, rfl, rfl⟩
        · exact ⟨κ, List.mem_of_getElem? hi, rfl, rfl, rfl⟩
  · change s.finish i clock = some s' at hstep
    cases hi : s.kernels[i]? with
    | none => simp [State.finish, hi] at hstep
    | some κ =>
        simp only [State.finish, hi, hrecord, Option.ite_none_right_eq_some,
          Option.some.injEq] at hstep
        obtain ⟨-, rfl⟩ := hstep
        refine ⟨_, rfl, ?_, fun κ' hκ' => ?_⟩
        · exact (List.length_eraseIdx_le ..)
        · exact ⟨κ', List.mem_of_mem_eraseIdx hκ', rfl, rfl, rfl⟩

/-- What a step does: a call begins, a thread or a kernel goes on, or the driver refuses. -/
theorem step_cases {l : Label} (hstep : Nvbit.step instrs s l = some s') :
    (∃ t cbid f, l = .call t cbid f ∧ s.pc t = .idle ∧
        s' = s.goOn t (if cbid.handled then .lock f else .plainLaunch f)) ∨
      (∃ t s'' pc, Does instrs s t (s.pc t) s'' pc ∧ s' = s''.goOn t pc) ∨
      (∃ t f, s.pc t = .launch f ∧ s' = s.goOn t .synchronize) ∨
      (∃ t f, s.pc t = .plainLaunch f ∧ s' = s.goOn t .idle) ∨
      ∃ kernels, s' = { s with kernels := kernels } ∧ kernels.length ≤ s.kernels.length ∧
        ∀ κ ∈ kernels, ∃ κ' ∈ s.kernels,
        κ.launcher = κ'.launcher ∧ κ.func = κ'.func ∧ κ.calls = κ'.calls := by
  cases l with
  | call t cbid f =>
      simp only [Nvbit.step, Option.ite_none_right_eq_some, Option.some.injEq] at hstep
      exact Or.inl ⟨t, cbid, f, rfl, hstep.1, hstep.2.symm⟩
  | run t => exact Or.inr (Or.inl ⟨t, does_of_run hstep⟩)
  | refuse t =>
      cases hpc : s.pc t with
      | launch f =>
          simp only [Nvbit.step, hpc, Option.some.injEq] at hstep
          exact Or.inr (Or.inr (Or.inl ⟨t, f, hpc, hstep.symm⟩))
      | plainLaunch f =>
          simp only [Nvbit.step, hpc, Option.some.injEq] at hstep
          exact Or.inr (Or.inr (Or.inr (Or.inl ⟨t, f, hpc, hstep.symm⟩)))
      | _ => simp [Nvbit.step, hpc] at hstep
  | begin i clock =>
      exact Or.inr (Or.inr (Or.inr (Or.inr (device_step hstep (Or.inl ⟨i, clock, rfl⟩)))))
  | finish i clock =>
      exact Or.inr (Or.inr (Or.inr (Or.inr (device_step hstep (Or.inr ⟨i, clock, rfl⟩)))))

theorem Held.step {l : Label} (h : Held s) (hstep : Nvbit.step instrs s l = some s') :
    Held s' := by
  rcases step_cases hstep with ⟨t, cbid, f, -, hidle, rfl⟩ | ⟨t, s'', pc, hdoes, rfl⟩ |
    ⟨t, f, hpc, rfl⟩ | ⟨t, f, hpc, rfl⟩ | ⟨kernels, rfl, -⟩
  · apply h.goOn rfl rfl
    rw [hidle]
    cases cbid.handled <;> rfl
  · exact h.does hdoes
  · exact h.goOn rfl rfl (by rw [hpc]; rfl)
  · exact h.goOn rfl rfl (by rw [hpc]; rfl)
  · exact h

/-! ### The times -/

/-- The device stores no time, so nothing is ever added up. -/
structure Quiet (s : State) : Prop where
  startTime : s.kernelStartTime = 0
  endTime : s.kernelEndTime = 0
  total : s.totalExecTimeNs = 0
  printed : s.printed = []

theorem Quiet.instrument (h : Quiet s) (f : Func) : Quiet (s.instrument instrs f) := by
  unfold State.instrument
  split
  · exact h
  · exact ⟨h.startTime, h.endTime, h.total, h.printed⟩

theorem Quiet.goOn (h : Quiet s) (pc : Pc) : Quiet (s.goOn t pc) :=
  ⟨h.startTime, h.endTime, h.total, h.printed⟩

theorem Quiet.does (h : Quiet s) (hdoes : Does instrs s t pc s' pc') : Quiet s' := by
  cases hdoes with
  | instrument f => exact h.instrument f
  | clearStart => exact ⟨rfl, h.endTime, h.total, h.printed⟩
  | clearEnd => exact ⟨h.startTime, rfl, h.total, h.printed⟩
  | addTime =>
      rw [addTime_of_zero h.endTime]
      exact h
  | lock | enable | launch | synchronize | count | unlock | plainLaunch =>
      exact ⟨h.startTime, h.endTime, h.total, h.printed⟩

theorem Quiet.step {l : Label} (h : Quiet s) (hstep : Nvbit.step instrs s l = some s') :
    Quiet s' := by
  rcases step_cases hstep with ⟨t, cbid, f, -, -, rfl⟩ | ⟨t, s'', pc, hdoes, rfl⟩ | ⟨t, f, -, rfl⟩ |
    ⟨t, f, -, rfl⟩ | ⟨kernels, rfl, -⟩
  · exact h.goOn _
  · exact (h.does hdoes).goOn pc
  · exact h.goOn _
  · exact h.goOn _
  · exact ⟨h.startTime, h.endTime, h.total, h.printed⟩

/-! ### The count -/

/-- The launch is counted and has not returned. -/
def Pc.counted : Pc → Nat
  | .addTime | .unlock => 1
  | _ => 0

def State.counted (s : State) : Nat :=
  match s.mutex with
  | none => 0
  | some t => (s.pc t).counted

def Counted (s : State) : Prop :=
  s.kernelCount = (s.returned + s.counted) % 2 ^ 32

theorem counted_goOn {pc : Pc} (hpc : s'.pc = s.pc)
    (hmutex : s'.mutex = s.mutex) (hcounted : pc.counted = (s.pc t).counted) :
    (s'.goOn t pc).counted = s.counted := by
  simp only [State.counted, State.goOn, hmutex, hpc]
  cases s.mutex with
  | none => rfl
  | some u =>
      by_cases hu : u = t
      · subst hu
        simp [hcounted]
      · simp [hu]

theorem Counted.goOn (h : Counted s) {pc : Pc} (hpc : s'.pc = s.pc)
    (hmutex : s'.mutex = s.mutex) (hcount : s'.kernelCount = s.kernelCount)
    (hreturned : s'.returned = s.returned) (hcounted : pc.counted = (s.pc t).counted) :
    Counted (s'.goOn t pc) := by
  have hsame := counted_goOn hpc hmutex hcounted
  rw [Counted, hsame]
  exact hcount.trans (h.trans (by rw [← hreturned]; rfl))

theorem Counted.does (h : Counted s) (hheld : Held s)
    (hdoes : Does instrs s t (s.pc t) s' pc') : Counted (s'.goOn t pc') := by
  have howner := (hheld t).mp
  -- the holder's own count
  have hholder : ∀ {pc}, s.pc t = pc → s.mutex = some t →
      s.kernelCount = (s.returned + pc.counted) % 2 ^ 32 := by
    rintro pc rfl hmutex
    rw [h, State.counted, hmutex]
  generalize hpc : s.pc t = pc at hdoes howner
  cases hdoes with
  | lock f hfree =>
      have hbefore : s.kernelCount = s.returned % 2 ^ 32 := by
        rw [h, State.counted, hfree, Nat.add_zero]
      simpa [Counted, State.counted, State.goOn, Pc.counted] using hbefore
  | count =>
      have hbefore := hholder hpc (howner rfl)
      simp only [Pc.counted] at hbefore
      simp only [Counted, State.counted, State.goOn, howner rfl, Function.update_self,
        Pc.counted]
      omega
  | unlock =>
      have hbefore := hholder hpc (howner rfl)
      simpa [Counted, State.counted, State.goOn, Pc.counted] using hbefore
  | instrument f =>
      apply h.goOn (instrument_pc f) (instrument_mutex f) _ _ (by rw [hpc]; rfl)
      all_goals
        unfold State.instrument
        split <;> rfl
  | addTime =>
      apply h.goOn addTime_pc addTime_mutex _ _ (by rw [hpc]; rfl)
      all_goals
        unfold State.addTime
        split <;> rfl
  | enable | clearStart | clearEnd | launch | synchronize | plainLaunch =>
      exact h.goOn rfl rfl rfl rfl (by rw [hpc]; rfl)

theorem Counted.step {l : Label} (h : Counted s) (hheld : Held s)
    (hstep : Nvbit.step instrs s l = some s') : Counted s' := by
  rcases step_cases hstep with ⟨t, cbid, f, -, hidle, rfl⟩ | ⟨t, s'', pc, hdoes, rfl⟩ |
    ⟨t, f, hpc, rfl⟩ | ⟨t, f, hpc, rfl⟩ | ⟨kernels, rfl, -⟩
  · apply h.goOn rfl rfl rfl rfl
    rw [hidle]
    cases cbid.handled <;> rfl
  · exact h.does hheld hdoes
  · exact h.goOn rfl rfl rfl rfl (by rw [hpc]; rfl)
  · exact h.goOn rfl rfl rfl rfl (by rw [hpc]; rfl)
  · exact h

/-! ### What is put into the functions -/

/-- What has been done for the function by now. -/
def Pc.Ready (s : State) : Pc → Prop
  | .enable f => f ∈ s.alreadyInstrumented
  | .clearStart f | .clearEnd f | .launch f =>
      f ∈ s.alreadyInstrumented ∧ s.enabled f = true
  | _ => True

/-- How often each call is in a function that has been looked at. -/
def once (instrs : Func → Nat) (f : Func) : Nat := if instrs f = 0 then 0 else 1

structure Instrumented (instrs : Func → Nat) (s : State) : Prop where
  inserted : ∀ f, s.inserted f = if f ∈ s.alreadyInstrumented then once instrs f else 0
  ready : ∀ t, (s.pc t).Ready s

theorem Pc.Ready.mono {pc : Pc} (h : pc.Ready s)
    (hinstrumented : ∀ f ∈ s.alreadyInstrumented, f ∈ s'.alreadyInstrumented)
    (henabled : ∀ f, s.enabled f = true → s'.enabled f = true) : pc.Ready s' := by
  cases pc with
  | enable f => exact hinstrumented f h
  | clearStart f | clearEnd f | launch f => exact ⟨hinstrumented f h.1, henabled f h.2⟩
  | _ => trivial

theorem Instrumented.goOn (h : Instrumented instrs s) {pc : Pc} (hpc : s'.pc = s.pc)
    (hinserted : ∀ f, s'.inserted f = if f ∈ s'.alreadyInstrumented then once instrs f else 0)
    (hinstrumented : ∀ f ∈ s.alreadyInstrumented, f ∈ s'.alreadyInstrumented)
    (henabled : ∀ f, s.enabled f = true → s'.enabled f = true) (hready : pc.Ready s') :
    Instrumented instrs (s'.goOn t pc) where
  inserted := hinserted
  ready := by
    intro u
    by_cases hu : u = t
    · subst hu
      rw [goOn_pc_self]
      exact hready.mono (fun _ hf => hf) (fun _ hf => hf)
    · rw [goOn_pc_of_ne hu, hpc]
      exact (h.ready u).mono hinstrumented henabled

theorem Instrumented.instrument (h : Instrumented instrs s) (f : Func) :
    (∀ g, (s.instrument instrs f).inserted g =
        if g ∈ (s.instrument instrs f).alreadyInstrumented then once instrs g else 0) ∧
      f ∈ (s.instrument instrs f).alreadyInstrumented ∧
        (∀ g ∈ s.alreadyInstrumented, g ∈ (s.instrument instrs f).alreadyInstrumented) ∧
          (s.instrument instrs f).enabled = s.enabled := by
  by_cases hf : f ∈ s.alreadyInstrumented
  · rw [State.instrument, if_pos hf]
    exact ⟨h.inserted, hf, fun _ hg => hg, rfl⟩
  · rw [State.instrument, if_neg hf]
    refine ⟨fun g => ?_, List.mem_cons_self, fun g hg => List.mem_cons_of_mem f hg, rfl⟩
    have hbefore := h.inserted g
    by_cases hg : g = f
    · subst hg
      rw [if_neg hf] at hbefore
      by_cases hempty : instrs g = 0 <;> simp [hempty, once, hbefore]
    · by_cases hempty : instrs f = 0 <;> simp [hempty, hg, hbefore]

theorem Instrumented.does (h : Instrumented instrs s)
    (hdoes : Does instrs s t (s.pc t) s' pc') : Instrumented instrs (s'.goOn t pc') := by
  have hready := h.ready t
  generalize s.pc t = pc at hdoes hready
  cases hdoes with
  | instrument f =>
      obtain ⟨hinserted, hmem, hgrows, henabled⟩ := h.instrument f
      exact h.goOn (instrument_pc f) hinserted hgrows (fun g hg => by rwa [henabled]) hmem
  | enable f =>
      have hgrows : ∀ g, s.enabled g = true → Function.update s.enabled f true g = true := by
        intro g hg
        by_cases hgf : g = f
        · rw [hgf, Function.update_self]
        · rwa [Function.update_of_ne hgf]
      exact h.goOn rfl h.inserted (fun _ hf => hf) hgrows ⟨hready, Function.update_self ..⟩
  | clearStart | clearEnd =>
      exact h.goOn rfl h.inserted (fun _ hf => hf) (fun _ hf => hf) hready
  | addTime =>
      unfold State.addTime
      split <;> exact h.goOn rfl h.inserted (fun _ hf => hf) (fun _ hf => hf) trivial
  | lock | launch | synchronize | count | unlock | plainLaunch =>
      exact h.goOn rfl h.inserted (fun _ hf => hf) (fun _ hf => hf) trivial

theorem Instrumented.step {l : Label} (h : Instrumented instrs s)
    (hstep : Nvbit.step instrs s l = some s') : Instrumented instrs s' := by
  rcases step_cases hstep with ⟨t, cbid, f, -, -, rfl⟩ | ⟨t, s'', pc, hdoes, rfl⟩ | ⟨t, f, -, rfl⟩ |
    ⟨t, f, -, rfl⟩ | ⟨kernels, rfl, -⟩
  · apply h.goOn rfl h.inserted (fun _ hf => hf) (fun _ hf => hf)
    cases cbid.handled <;> trivial
  · exact h.does hdoes
  · exact h.goOn rfl h.inserted (fun _ hf => hf) (fun _ hf => hf) trivial
  · exact h.goOn rfl h.inserted (fun _ hf => hf) (fun _ hf => hf) trivial
  · exact ⟨h.inserted, fun t => (h.ready t).mono (fun _ hf => hf) (fun _ hf => hf)⟩

/-! ### What is on the device -/

/-- Every launch is one that the tool looks at. -/
def Handled (_ : State) : Label → Prop
  | .call _ cbid _ => cbid.handled = true
  | _ => True

instance (s : State) : ∀ l, Decidable (Handled s l)
  | .call _ cbid _ => inferInstanceAs (Decidable (cbid.handled = true))
  | .run _ | .refuse _ | .begin _ _ | .finish _ _ => isTrue trivial

/-- A kernel is on the device only while its launcher waits for it. -/
structure Alone (instrs : Func → Nat) (s : State) : Prop where
  handled : ∀ t f, s.pc t ≠ .plainLaunch f
  one : s.kernels.length ≤ 1
  waited : ∀ κ ∈ s.kernels, s.pc κ.launcher = .synchronize
  calls : ∀ κ ∈ s.kernels, κ.calls = once instrs κ.func

theorem Alone.goOn (h : Alone instrs s) {pc : Pc} (hpc : s'.pc = s.pc)
    (hkernels : s'.kernels = s.kernels) (hwaits : s.pc t = .synchronize → s.kernels = [])
    (hpcs : ∀ f, pc ≠ .plainLaunch f) : Alone instrs (s'.goOn t pc) where
  handled := by
    intro u f
    by_cases hu : u = t
    · subst hu
      rw [goOn_pc_self]
      exact hpcs f
    · rw [goOn_pc_of_ne hu, hpc]
      exact h.handled u f
  one := by
    rw [State.goOn, hkernels]
    exact h.one
  waited := by
    intro κ hκ
    rw [State.goOn, hkernels] at hκ
    have hother : κ.launcher ≠ t := by
      intro heq
      rw [hwaits (heq ▸ h.waited κ hκ)] at hκ
      cases hκ
    rw [goOn_pc_of_ne hother, hpc]
    exact h.waited κ hκ
  calls := by
    rw [State.goOn, hkernels]
    exact h.calls

/-- The thread that launches has the device for itself. -/
theorem Alone.empty (h : Alone instrs s) (hheld : Held s) {f : Func}
    (hpc : s.pc t = .launch f) : s.kernels = [] := by
  by_contra hne
  obtain ⟨κ, hκ⟩ := List.exists_mem_of_ne_nil _ hne
  have hu := h.waited κ hκ
  have hlauncher : s.mutex = some t := (hheld t).mp (by rw [hpc]; rfl)
  have hwaiter : s.mutex = some κ.launcher := (hheld κ.launcher).mp (by rw [hu]; rfl)
  obtain rfl := Option.some.inj (hlauncher.symm.trans hwaiter)
  rw [hpc] at hu
  cases hu

theorem Alone.does (h : Alone instrs s) (hheld : Held s) (hin : Instrumented instrs s)
    (hdoes : Does instrs s t (s.pc t) s' pc') : Alone instrs (s'.goOn t pc') := by
  have hready := hin.ready t
  generalize hpc : s.pc t = pc at hdoes hready
  cases hdoes with
  | plainLaunch f => exact absurd hpc (h.handled t f)
  | synchronize hdone => exact h.goOn rfl rfl (fun _ => hdone) (by simp)
  | instrument f =>
      exact h.goOn (instrument_pc f) (instrument_kernels f) (by simp [hpc]) (by simp)
  | addTime => exact h.goOn addTime_pc addTime_kernels (by simp [hpc]) (by simp)
  | launch f =>
      have hcalls : s.inserted f = once instrs f := by rw [hin.inserted, if_pos hready.1]
      have hadded : ((s.addKernel t f).goOn t .synchronize).kernels =
          [⟨t, f, once instrs f, false⟩] := by
        simp [State.goOn, State.addKernel, h.empty hheld hpc, hready.2, hcalls]
      constructor
      · intro u g
        by_cases hu : u = t
        · subst hu
          simp
        · rw [goOn_pc_of_ne hu]
          exact h.handled u g
      · simp [hadded]
      · simp [hadded]
      · simp [hadded]
  | lock | enable | clearStart | clearEnd | count | unlock =>
      exact h.goOn rfl rfl (by simp [hpc]) (by simp)

theorem Alone.step {l : Label} (h : Alone instrs s) (hheld : Held s)
    (hin : Instrumented instrs s) (hhandled : Handled s l)
    (hstep : Nvbit.step instrs s l = some s') : Alone instrs s' := by
  rcases step_cases hstep with ⟨t, cbid, f, rfl, hidle, rfl⟩ | ⟨t, s'', pc, hdoes, rfl⟩ |
    ⟨t, f, hpc, rfl⟩ | ⟨t, f, hpc, rfl⟩ | ⟨kernels, rfl, hlength, hold⟩
  · have hknown : cbid.handled = true := hhandled
    rw [hknown, if_pos rfl]
    exact h.goOn rfl rfl (by simp [hidle]) (by simp)
  · exact h.does hheld hin hdoes
  · exact h.goOn rfl rfl (by simp [hpc]) (by simp)
  · exact absurd hpc (h.handled t f)
  · constructor
    · exact h.handled
    · exact Nat.le_trans hlength h.one
    · intro κ hκ
      obtain ⟨κ', hκ', hlauncher, -⟩ := hold κ hκ
      rw [hlauncher]
      exact h.waited κ' hκ'
    · intro κ hκ
      obtain ⟨κ', hκ', -, hfunc, hcalls⟩ := hold κ hκ
      rw [hcalls, hfunc]
      exact h.calls κ' hκ'

/-! ### Whole runs -/

structure Sound (instrs : Func → Nat) (s : State) : Prop where
  held : Held s
  quiet : Quiet s
  counted : Counted s
  instrumented : Instrumented instrs s

theorem sound_start (instrs : Func → Nat) : Sound instrs start where
  held := by simp [Held, start, Pc.inside]
  quiet := ⟨rfl, rfl, rfl, rfl⟩
  counted := rfl
  instrumented := ⟨by simp [start], fun _ => trivial⟩

theorem Sound.step {l : Label} (h : Sound instrs s)
    (hstep : Nvbit.step instrs s l = some s') : Sound instrs s' where
  held := h.held.step hstep
  quiet := h.quiet.step hstep
  counted := h.counted.step h.held hstep
  instrumented := h.instrumented.step hstep

theorem sound_of_run (h : Reachable (system instrs) s) : Sound instrs s := by
  apply RunsUnder.invariant _ _ h
  · rintro s rfl
    exact sound_start instrs
  · exact fun _ _ _ hs _ hstep => hs.step hstep

/-- Who has the mutex can go on, or the device can. -/
theorem exists_step (h : Held s) (hbusy : (∃ t, s.pc t ≠ .idle) ∨ s.kernels ≠ []) :
    ∃ l, (∀ t cbid f, l ≠ .call t cbid f) ∧ (Nvbit.step instrs s l).isSome := by
  cases hkernels : s.kernels with
  | cons κ rest =>
      cases hstarted : κ.started with
      | false =>
          refine ⟨.begin 0 0, by simp, ?_⟩
          simp [Nvbit.step, State.begin, hkernels, hstarted]
      | true =>
          refine ⟨.finish 0 0, by simp, ?_⟩
          simp [Nvbit.step, State.finish, hkernels, hstarted]
  | nil =>
      have hthread : ∃ t, s.pc t ≠ .idle := hbusy.resolve_right (not_not.mpr hkernels)
      cases howner : s.mutex with
      | some u =>
          have hinside := (h u).mpr howner
          refine ⟨.run u, by simp, ?_⟩
          cases hpc : s.pc u <;> simp_all [Nvbit.step, Nvbit.run, Pc.inside]
      | none =>
          obtain ⟨t, ht⟩ := hthread
          have houtside : ¬ (s.pc t).inside = true := fun hin => by
            have hmutex := (h t).mp hin
            rw [howner] at hmutex
            cases hmutex
          refine ⟨.run t, by simp, ?_⟩
          cases hpc : s.pc t <;> simp_all [Nvbit.step, Nvbit.run, Pc.inside]

/-- What `nvbit_at_term` prints, in every run: the time is always zero, and when no launch
is under way the count is that of the launches that have come back, as far as it fits. Each
function has got its calls at most once, and launches never block each other for good. -/
theorem summary_of_run (h : Reachable (system instrs) s) :
    (s.totalExecTimeNs = 0 ∧ s.printed = []) ∧
      (s.mutex = none → s.kernelCount = s.returned % 2 ^ 32) ∧
      (∀ f, s.inserted f ≤ 1) ∧
      ((∃ t, s.pc t ≠ .idle) ∨ s.kernels ≠ [] →
        ∃ l, (∀ t cbid f, l ≠ .call t cbid f) ∧ (step instrs s l).isSome) := by
  have hsound := sound_of_run h
  refine ⟨⟨hsound.quiet.total, hsound.quiet.printed⟩, fun hfree => ?_, fun f => ?_,
    exists_step hsound.held⟩
  · have hcount := hsound.counted
    rwa [Counted, State.counted, hfree] at hcount
  · rw [hsound.instrumented.inserted, once]
    split
    · split <;> omega
    · omega

def nineInstrs : Func → Nat := fun _ => 9

/-- The driver refuses the launch, and it counts all the same. -/
theorem summary_of_run_refused : ∃ s : State, s.kernelCount = 1 ∧
    (s.totalExecTimeNs = 0 ∧ s.printed = []) ∧
      (s.mutex = none → s.kernelCount = s.returned % 2 ^ 32) ∧
      (∀ f, s.inserted f ≤ 1) ∧
      ((∃ t, s.pc t ≠ .idle) ∨ s.kernels ≠ [] →
        ∃ l, (∀ t cbid f, l ≠ .call t cbid f) ∧ (step nineInstrs s l).isSome) := by
  have hrun : (exec (system nineInstrs) start
      [.call 0 .cuLaunchKernel 7, .run 0, .run 0, .run 0, .run 0, .run 0, .refuse 0, .run 0,
        .run 0]).map State.kernelCount = some 1 := by decide +kernel
  obtain ⟨s, hs, hcount⟩ := Option.map_eq_some_iff.mp hrun
  exact ⟨s, hcount, summary_of_run (Reachable.exec _ (.start rfl) hs)⟩

/-- What the mutex is for: as long as all launches are of the kinds that the tool looks
at, at most one kernel is on the device, its launcher has the mutex and waits for it, and
it has one call at each end unless it has no instructions. -/
theorem one_kernel_of_run (h : RunsUnder (system instrs) Handled s) :
    s.kernels.length ≤ 1 ∧ ∀ κ ∈ s.kernels,
      (s.mutex = some κ.launcher ∧ s.pc κ.launcher = .synchronize) ∧
        κ.calls = if instrs κ.func = 0 then 0 else 1 := by
  have hboth : Sound instrs s ∧ Alone instrs s := by
    apply RunsUnder.invariant _ _ h
    · rintro s rfl
      exact ⟨sound_start instrs, by simp [start], by simp [start], by simp [start],
        by simp [start]⟩
    · exact fun _ _ _ hs hok hstep =>
        ⟨hs.1.step hstep, hs.2.step hs.1.held hs.1.instrumented hok hstep⟩
  obtain ⟨hsound, halone⟩ := hboth
  refine ⟨halone.one, fun κ hκ => ⟨?_, halone.calls κ hκ⟩⟩
  have hwaits := halone.waited κ hκ
  exact ⟨(hsound.held κ.launcher).mp (by rw [hwaits]; rfl), hwaits⟩

/-- Two threads launch at once; the kernel of one of them runs. -/
def twoLaunches : List Label :=
  [.call 0 .cuLaunchKernel 7, .call 1 .cuLaunch 7, .run 1, .run 1, .run 1, .run 1, .run 1,
    .run 1, .begin 0 40]

theorem one_kernel_of_run_twoLaunches : ∃ s : State, s.kernels = [⟨1, 7, 1, true⟩] ∧
    s.kernels.length ≤ 1 ∧ ∀ κ ∈ s.kernels,
      (s.mutex = some κ.launcher ∧ s.pc κ.launcher = .synchronize) ∧
        κ.calls = if nineInstrs κ.func = 0 then 0 else 1 := by
  have hrun : (exec (system nineInstrs) start twoLaunches).map State.kernels =
      some [⟨1, 7, 1, true⟩] := by decide +kernel
  have hhandled : Along (system nineInstrs) Handled start twoLaunches := by decide +kernel
  obtain ⟨s, hs, hkernels⟩ := Option.map_eq_some_iff.mp hrun
  exact ⟨s, hkernels, one_kernel_of_run
    (RunsUnder.exec twoLaunches (.start rfl) hhandled hs)⟩

end BpftimeBenchmark.Gpu.Nvbit
