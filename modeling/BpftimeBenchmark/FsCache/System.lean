import Mathlib.Logic.Function.Basic
import BpftimeBenchmark.Lib.Transition
import BpftimeBenchmark.FsCache.Handlers

/-!
Threads making hooked syscalls while `fs-cache.bpf.c` is attached. A syscall
has three atomic parts, the enter handler, the kernel's effect and the exit
handler, and the parts of different threads interleave freely. A syscall that
the enter handler overrides returns at once and has no further part. What the
kernel does, and what `bpftime_get_abs_path` answers in a kernel state, is a
parameter.
-/

namespace BpftimeBenchmark.FsCache

open Transition

/-- `open(2)` is `openPath`. The unhooked `chdir` changes what relative names
mean. -/
inductive Syscall where
  | openPath (name : List UInt8) (flags : CInt)
  | openat (dirfd : CInt) (name : List UInt8) (flags : CInt)
  | close (fd : CInt)
  | fcntl (fd cmd : CInt)
  | getdents64 (fd : CInt) (dirp : Nat) (count : U32)
  | chdir (dir : List UInt8)
  deriving DecidableEq

/-- The kernel's answer: the return value and the bytes it copied out. -/
structure Response where
  ret : CInt
  data : List UInt8

structure Kernel (σ : Type) where
  exec : σ → Task → Syscall → Response → Option σ
  getAbsPath : σ → U32 → List UInt8 → CharArray nameMax

inductive Phase where
  | idle
  | entered (call : Syscall)
  | returned (call : Syscall) (ret : CInt)
  deriving DecidableEq

/-- One `getdents64` as its caller saw it: what it returned, which path the
descriptor had and what the buffer held then. `listed` is the path that the
descriptor had when the kernel executed the call, if it did. -/
structure Reply where
  task : Task
  fd : CInt
  dirp : Nat
  ret : CInt
  listed : Option DirFdData
  path : Option DirFdData
  bytes : CharArray dentsBufSize

/-- `listed` (for each thread the path of the descriptor that its last call was
executed on) and `replies` are history variables that no handler reads. -/
structure World (σ : Type) where
  maps : Maps
  kernel : σ
  mem : U32 → Memory
  phase : U64 → Phase
  listed : U64 → Option DirFdData
  replies : List Reply

variable {σ : Type}

def enterHandler (task : Task) (call : Syscall) (m : Maps) (mem : Memory) :
    Maps × Memory × Option CInt :=
  match call with
  | .openPath name flags =>
      let r := sysEnterOpen task name flags m
      (r.1, mem, r.2)
  | .openat dirfd name flags =>
      let r := sysEnterOpenat task dirfd name flags m
      (r.1, mem, r.2)
  | .close fd => (sysEnterClose task fd m, mem, none)
  | .fcntl fd cmd => (sysEnterFcntl task fd cmd m, mem, none)
  | .getdents64 fd dirp count => sysEnterGetdents64 task fd dirp count m mem
  | .chdir _ => (m, mem, none)

def exitHandler (getAbsPath : List UInt8 → CharArray nameMax) (task : Task)
    (call : Syscall) (ret : CInt) (m : Maps) (mem : Memory) : Maps :=
  match call with
  | .openPath _ _ => traceExit getAbsPath task ret m
  | .openat _ _ _ => traceExit getAbsPath task ret m
  | .close _ => m
  | .fcntl _ _ => sysExitFcntl task ret m
  | .getdents64 _ _ _ => sysExitGetdents64 task ret m mem
  | .chdir _ => m

def kernelWrite (call : Syscall) (data : List UInt8) (mem : Memory) : Memory :=
  match call with
  | .getdents64 _ dirp _ => mem.write dirp data
  | _ => mem

/-- The recorded path of the descriptor that a call lists. -/
def listedPath (m : Maps) (task : Task) : Syscall → Option DirFdData
  | .getdents64 fd _ _ => m.pathOf task.pid fd
  | _ => none

def replyOf (m : Maps) (mem : Memory) (task : Task) (call : Syscall) (ret : CInt)
    (listed : Option DirFdData) : List Reply :=
  match call with
  | .getdents64 fd dirp _ =>
      [⟨task, fd, dirp, ret, listed, m.pathOf task.pid fd,
        CharArray.probeRead dentsBufSize mem dirp⟩]
  | _ => []

def World.enter (w : World σ) (task : Task) (call : Syscall) : World σ :=
  let r := enterHandler task call w.maps (w.mem task.pid)
  let w' := { w with maps := r.1, mem := Function.update w.mem task.pid r.2.1 }
  match r.2.2 with
  | some ret =>
      { w' with replies := w.replies ++ replyOf r.1 r.2.1 task call ret none }
  | none =>
      { w' with phase := Function.update w.phase task.pidTgid (.entered call) }

def World.serve (w : World σ) (task : Task) (call : Syscall) (resp : Response)
    (k : σ) : World σ :=
  { w with
    kernel := k
    mem := Function.update w.mem task.pid
      (kernelWrite call resp.data (w.mem task.pid))
    phase := Function.update w.phase task.pidTgid (.returned call resp.ret)
    listed := Function.update w.listed task.pidTgid (listedPath w.maps task call) }

def World.leave (K : Kernel σ) (w : World σ) (task : Task) (call : Syscall)
    (ret : CInt) : World σ :=
  { w with
    maps := exitHandler (K.getAbsPath w.kernel task.pid) task call ret w.maps
      (w.mem task.pid)
    phase := Function.update w.phase task.pidTgid .idle
    replies := w.replies ++
      replyOf w.maps (w.mem task.pid) task call ret (w.listed task.pidTgid) }

def World.poke (w : World σ) (pid : U32) (p : Nat) (b : UInt8) : World σ :=
  { w with mem := Function.update w.mem pid (Function.update (w.mem pid) p b) }

/-- `store` is a write by the program itself into its own memory. -/
inductive Label where
  | enter (task : Task) (call : Syscall)
  | kernel (task : Task) (call : Syscall) (resp : Response)
  | leave (task : Task) (call : Syscall) (ret : CInt)
  | store (pid : U32) (p : Nat) (b : UInt8)

def step (K : Kernel σ) (w : World σ) : Label → Option (World σ)
  | .enter task call =>
      if w.phase task.pidTgid = .idle then some (w.enter task call) else none
  | .kernel task call resp =>
      if w.phase task.pidTgid = .entered call then
        (K.exec w.kernel task call resp).map (w.serve task call resp)
      else none
  | .leave task call ret =>
      if w.phase task.pidTgid = .returned call ret then
        some (w.leave K task call ret)
      else none
  | .store pid p b => some (w.poke pid p b)

def system (K : Kernel σ) (start : World σ → Prop) : System (World σ) Label :=
  ⟨start, step K⟩

/-- Everything one step of the system can do. -/
inductive StepResult (K : Kernel σ) (w : World σ) : Label → World σ → Prop where
  | enter {task : Task} {call : Syscall} (hidle : w.phase task.pidTgid = .idle) :
      StepResult K w (.enter task call) (w.enter task call)
  | kernel {task : Task} {call : Syscall} {resp : Response} {k : σ}
      (hentered : w.phase task.pidTgid = .entered call)
      (hexec : K.exec w.kernel task call resp = some k) :
      StepResult K w (.kernel task call resp) (w.serve task call resp k)
  | leave {task : Task} {call : Syscall} {ret : CInt}
      (hreturned : w.phase task.pidTgid = .returned call ret) :
      StepResult K w (.leave task call ret) (w.leave K task call ret)
  | store {pid : U32} {p : Nat} {b : UInt8} :
      StepResult K w (.store pid p b) (w.poke pid p b)

theorem stepResult_of_step {K : Kernel σ} {w t : World σ} {l : Label}
    (h : step K w l = some t) : StepResult K w l t := by
  cases l with
  | enter task call =>
      simp only [step] at h
      split at h
      · rename_i hidle
        cases h
        exact .enter hidle
      · cases h
  | kernel task call resp =>
      simp only [step] at h
      split at h
      · rename_i hentered
        obtain ⟨k, hexec, rfl⟩ := Option.map_eq_some_iff.mp h
        exact .kernel hentered hexec
      · cases h
  | leave task call ret =>
      simp only [step] at h
      split at h
      · rename_i hreturned
        cases h
        exact .leave hreturned
      · cases h
  | store pid p b =>
      cases h
      exact .store

theorem StepResult.of_system {K : Kernel σ} {start : World σ → Prop} {w t : World σ}
    {l : Label} (h : (system K start).step w l = some t) : StepResult K w l t :=
  stepResult_of_step h

/-- A call that the enter handler overrides ends in a reply. -/
theorem enter_override {w : World σ} {task : Task} {call : Syscall} {m : Maps}
    {mem : Memory} {ret : CInt}
    (h : enterHandler task call w.maps (w.mem task.pid) = (m, mem, some ret)) :
    w.enter task call =
      { w with
        maps := m
        mem := Function.update w.mem task.pid mem
        replies := w.replies ++ replyOf m mem task call ret none } := by
  simp only [World.enter, h]

/-- A call that it lets through waits for the kernel. -/
theorem enter_pass {w : World σ} {task : Task} {call : Syscall} {m : Maps}
    {mem : Memory}
    (h : enterHandler task call w.maps (w.mem task.pid) = (m, mem, none)) :
    w.enter task call =
      { w with
        maps := m
        mem := Function.update w.mem task.pid mem
        phase := Function.update w.phase task.pidTgid (.entered call) } := by
  simp only [World.enter, h]

/-- An enter handler either overrides the call, which then ends in a reply, or
lets it through to the kernel. -/
theorem enter_cases (w : World σ) (task : Task) (call : Syscall) :
    (∃ ret, (enterHandler task call w.maps (w.mem task.pid)).2.2 = some ret ∧
      (w.enter task call).phase = w.phase ∧
      (w.enter task call).replies = w.replies ++
        replyOf (w.enter task call).maps ((w.enter task call).mem task.pid)
          task call ret none) ∨
    ((enterHandler task call w.maps (w.mem task.pid)).2.2 = none ∧
      (w.enter task call).phase =
        Function.update w.phase task.pidTgid (.entered call) ∧
      (w.enter task call).replies = w.replies) := by
  unfold World.enter
  cases hover : (enterHandler task call w.maps (w.mem task.pid)).2.2 with
  | some ret => exact Or.inl ⟨ret, rfl, by simp [hover], by simp [hover]⟩
  | none => exact Or.inr ⟨rfl, by simp [hover], by simp [hover]⟩

@[simp] theorem enter_maps (w : World σ) (task : Task) (call : Syscall) :
    (w.enter task call).maps =
      (enterHandler task call w.maps (w.mem task.pid)).1 := by
  unfold World.enter
  cases hover : (enterHandler task call w.maps (w.mem task.pid)).2.2 <;> simp [hover]

@[simp] theorem enter_mem (w : World σ) (task : Task) (call : Syscall) :
    (w.enter task call).mem = Function.update w.mem task.pid
      (enterHandler task call w.maps (w.mem task.pid)).2.1 := by
  unfold World.enter
  cases hover : (enterHandler task call w.maps (w.mem task.pid)).2.2 <;> simp [hover]

@[simp] theorem enter_kernel (w : World σ) (task : Task) (call : Syscall) :
    (w.enter task call).kernel = w.kernel := by
  unfold World.enter
  cases hover : (enterHandler task call w.maps (w.mem task.pid)).2.2 <;> simp [hover]

@[simp] theorem serve_maps (w : World σ) (task : Task) (call : Syscall)
    (resp : Response) (k : σ) : (w.serve task call resp k).maps = w.maps := rfl

@[simp] theorem serve_replies (w : World σ) (task : Task) (call : Syscall)
    (resp : Response) (k : σ) : (w.serve task call resp k).replies = w.replies := rfl

@[simp] theorem serve_kernel (w : World σ) (task : Task) (call : Syscall)
    (resp : Response) (k : σ) : (w.serve task call resp k).kernel = k := rfl

@[simp] theorem leave_mem (K : Kernel σ) (w : World σ) (task : Task)
    (call : Syscall) (ret : CInt) : (w.leave K task call ret).mem = w.mem := rfl

@[simp] theorem leave_kernel (K : Kernel σ) (w : World σ) (task : Task)
    (call : Syscall) (ret : CInt) : (w.leave K task call ret).kernel = w.kernel := rfl

def Label.thread : Label → Option U64
  | .enter task _ => some task.pidTgid
  | .kernel task _ _ => some task.pidTgid
  | .leave task _ _ => some task.pidTgid
  | .store _ _ _ => none

/-- A step moves no thread but its own. -/
theorem phase_of_step {K : Kernel σ} {w t : World σ} {l : Label} {id : U64}
    (h : step K w l = some t) (hid : l.thread ≠ some id) : t.phase id = w.phase id := by
  cases stepResult_of_step h with
  | @enter task call hidle =>
      have hne : id ≠ task.pidTgid := fun h => hid (by rw [h]; rfl)
      rcases enter_cases w task call with ⟨ret, -, hphase, -⟩ | ⟨-, hphase, -⟩
      · rw [hphase]
      · rw [hphase, Function.update_of_ne hne]
  | @kernel task call resp k hentered hexec =>
      have hne : id ≠ task.pidTgid := fun h => hid (by rw [h]; rfl)
      exact Function.update_of_ne hne _ _
  | @leave task call ret hreturned =>
      have hne : id ≠ task.pidTgid := fun h => hid (by rw [h]; rfl)
      exact Function.update_of_ne hne _ _
  | store => rfl

theorem phase_of_exec {K : Kernel σ} {start : World σ → Prop} {w t : World σ}
    {id : U64} (schedule : List Label) (h : exec (system K start) w schedule = some t)
    (hid : ∀ l ∈ schedule, l.thread ≠ some id) : t.phase id = w.phase id := by
  induction schedule generalizing w with
  | nil =>
      cases h
      rfl
  | cons l rest ih =>
      obtain ⟨next, hnext, hrest⟩ := Option.bind_eq_some_iff.mp h
      rw [ih hrest (fun m hm => hid m (by simp [hm]))]
      exact phase_of_step (K := K) hnext (hid l (by simp))

/-- The state in which the programs are attached: no syscall is hooked halfway
and the loader has written at most the filter. -/
structure Attached (w : World σ) : Prop where
  dirFdMap : w.maps.dirFdMap = .empty
  openArgsStart : w.maps.openArgsStart = .empty
  getdents64CacheMap : w.maps.getdents64CacheMap = .empty
  getdents64ArgsStart : w.maps.getdents64ArgsStart = .empty
  fcntlArgsStart : w.maps.fcntlArgsStart = .empty
  phase : ∀ id, w.phase id = .idle
  replies : w.replies = []

/-- The parts of one syscall, executed without interruption. -/
def callLabels (w : World σ) (task : Task) (call : Syscall) (resp : Response) :
    List Label :=
  match (enterHandler task call w.maps (w.mem task.pid)).2.2 with
  | some _ => [.enter task call]
  | none => [.enter task call, .kernel task call resp, .leave task call resp.ret]

def complete (K : Kernel σ) (w : World σ) (task : Task) (call : Syscall)
    (resp : Response) : Option (World σ) :=
  exec (system K Attached) w (callLabels w task call resp)

/-- The state after a syscall the enter handler answered with `ret`. -/
def World.answered (w : World σ) (task : Task) (call : Syscall) (m : Maps)
    (mem : Memory) (ret : CInt) : World σ :=
  { w with
    maps := m
    mem := Function.update w.mem task.pid mem
    replies := w.replies ++ replyOf m mem task call ret none }

/-- The state after one that the kernel answered in state `k`, the enter handler
having left the maps `m` and the memory `mem`. -/
def World.finished (K : Kernel σ) (w : World σ) (task : Task) (call : Syscall)
    (m : Maps) (mem : Memory) (resp : Response) (k : σ) : World σ :=
  { w with
    maps := exitHandler (K.getAbsPath k task.pid) task call resp.ret m
      (kernelWrite call resp.data mem)
    kernel := k
    mem := Function.update w.mem task.pid (kernelWrite call resp.data mem)
    listed := Function.update w.listed task.pidTgid (listedPath m task call)
    replies := w.replies ++
      replyOf m (kernelWrite call resp.data mem) task call resp.ret
        (listedPath m task call) }

/-- An overridden syscall is its enter handler. -/
theorem complete_override {K : Kernel σ} {w : World σ} {task : Task} {call : Syscall}
    {m : Maps} {mem : Memory} {ret : CInt} (hidle : w.phase task.pidTgid = .idle)
    (h : enterHandler task call w.maps (w.mem task.pid) = (m, mem, some ret))
    (resp : Response) :
    complete K w task call resp = some (w.answered task call m mem ret) := by
  simp only [complete, callLabels, h, exec, system, step, hidle, if_true,
    Option.bind_some, enter_override h, World.answered]

/-- One that is let through runs to its end if the kernel can answer so. -/
theorem complete_pass {K : Kernel σ} {w : World σ} {task : Task} {call : Syscall}
    {m : Maps} {mem : Memory} (hidle : w.phase task.pidTgid = .idle)
    (h : enterHandler task call w.maps (w.mem task.pid) = (m, mem, none))
    (resp : Response) :
    complete K w task call resp =
      (K.exec w.kernel task call resp).map (w.finished K task call m mem resp) := by
  have hphase : Function.update w.phase task.pidTgid .idle = w.phase := by
    rw [← hidle]
    exact Function.update_eq_self _ _
  cases hexec : K.exec w.kernel task call resp with
  | none => simp [complete, callLabels, h, exec, system, step, hidle, enter_pass h, hexec]
  | some k =>
      simp [complete, callLabels, h, exec, system, step, hidle, enter_pass h, hexec,
        World.serve, World.leave, World.finished, hphase]

/-- What an uninterrupted syscall leaves behind: either the enter handler
overrode it, or the kernel answered and the exit handler ran on the maps the
enter handler left. -/
theorem complete_cases {K : Kernel σ} {w t : World σ} {task : Task} {call : Syscall}
    {resp : Response} (h : complete K w task call resp = some t) :
    w.phase task.pidTgid = .idle ∧ t.phase = w.phase ∧
    ((∃ ret, (enterHandler task call w.maps (w.mem task.pid)).2.2 = some ret ∧
        t.kernel = w.kernel ∧
        t.maps = (enterHandler task call w.maps (w.mem task.pid)).1) ∨
      ((enterHandler task call w.maps (w.mem task.pid)).2.2 = none ∧
        K.exec w.kernel task call resp = some t.kernel ∧
        t.maps = exitHandler (K.getAbsPath t.kernel task.pid) task call resp.ret
          (enterHandler task call w.maps (w.mem task.pid)).1
          (kernelWrite call resp.data
            (enterHandler task call w.maps (w.mem task.pid)).2.1))) := by
  have hidle : w.phase task.pidTgid = .idle := by
    unfold complete callLabels at h
    split at h
    · obtain ⟨u, hu, -⟩ := Option.bind_eq_some_iff.mp h
      cases StepResult.of_system hu with
      | enter hidle => exact hidle
    · obtain ⟨u, hu, -⟩ := Option.bind_eq_some_iff.mp h
      cases StepResult.of_system hu with
      | enter hidle => exact hidle
  rcases hhandler : enterHandler task call w.maps (w.mem task.pid) with ⟨m, mem, ret⟩
  cases ret with
  | some ret =>
      rw [complete_override hidle hhandler] at h
      cases h
      exact ⟨hidle, rfl, Or.inl ⟨ret, rfl, rfl, rfl⟩⟩
  | none =>
      rw [complete_pass hidle hhandler] at h
      obtain ⟨k, hexec, rfl⟩ := Option.map_eq_some_iff.mp h
      exact ⟨hidle, rfl, Or.inr ⟨rfl, hexec, rfl⟩⟩

end BpftimeBenchmark.FsCache
