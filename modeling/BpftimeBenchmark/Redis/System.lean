import Mathlib.Logic.Function.Basic
import BpftimeBenchmark.Lib.Transition
import BpftimeBenchmark.Lib.CString
import BpftimeBenchmark.Lib.Uring

/-!
Redis with one of the durability programs attached. The program intercepts the
server's writes to its append-only file and its `fdatasync` calls and drives one
io_uring through bpftime's helpers. A handler is the list of the statements it
executes; each is one step, and between any two steps the kernel may work on
submitted entries. One call is intercepted at a time. A call that no handler
overrides goes on to the kernel itself.

The kernel reads a buffer when it executes the entry, an fsync covers the writes
to its file that had been executed when it started, and a crash keeps exactly
the writes that a completed fsync covers.
-/

namespace BpftimeBenchmark.Redis

open Uring

abbrev Fd := Int

inductive Op where
  | write (fd : Fd) (buf n : Nat)
  | fsync (fd : Fd)
  deriving DecidableEq

def Op.fd : Op → Fd
  | .write fd _ _ => fd
  | .fsync fd => fd

def Op.isFsync : Op → Bool
  | .write _ _ _ => false
  | .fsync _ => true

/-- What the operation returns on full success. -/
def Op.full : Op → Int
  | .write _ _ n => n
  | .fsync _ => 0

/-- `start` is the function at which the program sets its ring up. -/
inductive Call where
  | start
  | io (op : Op)
  deriving DecidableEq

/-- The statements of the handlers, under the names of the helpers they call.
`assign` sets the program's one global counter. -/
inductive Stmt where
  | ioUringInitGlobal
  | ioUringSubmitWrite (fd : Fd) (buf n : Nat)
  | ioUringSubmitFsync (fd : Fd)
  | ioUringSubmit
  | ioUringWaitAndSeen
  | assign (v : Int)
  | bpfOverrideReturn (v : Int)
  deriving DecidableEq

/-- The operation a statement queues. -/
def Stmt.op : Stmt → Option Op
  | .ioUringSubmitWrite fd buf n => some (.write fd buf n)
  | .ioUringSubmitFsync fd => some (.fsync fd)
  | _ => none

/-- What a statement does to the ring, once it is set up. -/
def Stmt.command : Stmt → Option Command
  | .ioUringSubmitWrite _ _ _ => some .prepare
  | .ioUringSubmitFsync _ => some .prepare
  | .ioUringSubmit => some .submit
  | .ioUringWaitAndSeen => some .wait
  | _ => none

/-- A handler sees the global counter and its call. It queues no operation but
the one it was called for, and the start handler, and no other, does nothing but
set the ring up. -/
structure Program where
  hook : Int → Call → List Stmt
  own : ∀ g call s op, s ∈ hook g call → s.op = some op → call = .io op
  setup : ∀ g call, .ioUringInitGlobal ∈ hook g call → call = .start
  setupOnly : ∀ g s, s ∈ hook g .start → s.command = none

/-- `covers` are the writes that had been executed when the fsync started. -/
structure Sync where
  fd : Fd
  covers : List Nat

/-- `content` is what has been appended to each file since the program was
attached. `written`, `synced` and `durable` name operations by the number of
their call. -/
structure Disk where
  content : Fd → List UInt8
  written : List (Nat × Fd)
  synced : List Nat
  durable : List Nat

def Disk.writtenTo (d : Disk) (fd : Fd) : List Nat :=
  (d.written.filter (fun p => p.2 = fd)).map (·.1)

/-- A write of `bytes` that returned `res`. -/
def Disk.append (d : Disk) (id : Nat) (fd : Fd) (bytes : List UInt8) (res : Int) :
    Disk :=
  if res < 0 then d
  else
    { d with
      content := Function.update d.content fd (d.content fd ++ bytes.take res.toNat)
      written := d.written ++ [(id, fd)] }

/-- An fsync that returned `res`. -/
def Disk.sync (d : Disk) (id : Nat) (covers : List Nat) (res : Int) : Disk :=
  if res < 0 then d
  else { d with synced := d.synced ++ [id], durable := d.durable ++ covers }

/-- An intercepted call with what the buffer held when it was made. -/
structure Issued where
  op : Op
  bytes : List UInt8
  deriving DecidableEq

structure Frame where
  call : Call
  code : List Stmt
  result : Option Int

/-- `inits` counts the calls of `io_uring_init_global`; `calls` and `returns`
are history variables. -/
structure World where
  global : Int
  inits : Nat
  ring : Ring Op Sync Int
  mem : Memory
  disk : Disk
  frame : Option Frame
  calls : List Issued
  returns : List Int

def Op.bytes (mem : Memory) : Op → List UInt8
  | .write _ buf n => mem.read buf n
  | .fsync _ => []

def Call.issued (mem : Memory) : Call → List Issued
  | .start => []
  | .io op => [⟨op, op.bytes mem⟩]

def World.call (P : Program) (w : World) (call : Call) : World :=
  { w with
    frame := some ⟨call, P.hook w.global call, none⟩
    calls := w.calls ++ call.issued w.mem }

/-- The entry of a call carries the number of the call. -/
def World.entry (w : World) (op : Op) : Slot Op := ⟨w.calls.length - 1, op⟩

def World.exec (w : World) (f : Frame) : Stmt → Option World
  | .ioUringInitGlobal =>
      some { w with ring := .empty, inits := w.inits + 1, frame := some f }
  | .ioUringSubmitWrite fd buf n =>
      some { w with ring := w.ring.prepare (w.entry (.write fd buf n)), frame := some f }
  | .ioUringSubmitFsync fd =>
      some { w with ring := w.ring.prepare (w.entry (.fsync fd)), frame := some f }
  | .ioUringSubmit => some { w with ring := w.ring.submit, frame := some f }
  | .ioUringWaitAndSeen =>
      w.ring.seen.map (fun r => { w with ring := r, frame := some f })
  | .assign v => some { w with global := v, frame := some f }
  | .bpfOverrideReturn v => some { w with frame := some { f with result := some v } }

/-- The call reaches the kernel and succeeds there. -/
def World.native (w : World) (op : Op) : Disk :=
  match op with
  | .write fd buf n => w.disk.append (w.calls.length - 1) fd (w.mem.read buf n) n
  | .fsync fd => w.disk.sync (w.calls.length - 1) (w.disk.writtenTo fd) 0

def World.return (w : World) (f : Frame) : World :=
  match f.call with
  | .start => { w with frame := none }
  | .io op =>
      match f.result with
      | some v => { w with frame := none, returns := w.returns ++ [v] }
      | none =>
          { w with
            frame := none
            disk := w.native op
            returns := w.returns ++ [op.full] }

/-- The kernel executes the write at position `i` of the submitted entries. -/
def World.execute (w : World) (i : Nat) (e : Slot Op) (fd : Fd) (buf n : Nat)
    (res : Int) : World :=
  { w with
    ring := w.ring.execute i ⟨e.id, res⟩
    disk := w.disk.append e.id fd (w.mem.read buf n) res }

def World.begin (w : World) (i : Nat) (e : Slot Op) (fd : Fd) : World :=
  { w with ring := w.ring.begin i ⟨e.id, fd, w.disk.writtenTo fd⟩ }

def World.finish (w : World) (i : Nat) (s : Slot Sync) (res : Int) : World :=
  { w with
    ring := w.ring.finish i ⟨s.id, res⟩
    disk := w.disk.sync s.id s.val.covers res }

/-- `tick` is the next statement of the handler, or the return of its call.
`store` is the server writing its own memory between two calls. -/
inductive Label where
  | call (call : Call)
  | tick
  | execute (i : Nat) (res : Int)
  | begin (i : Nat)
  | finish (i : Nat) (res : Int)
  | store (p : Nat) (b : UInt8)

def step (P : Program) (w : World) : Label → Option World
  | .call call => if w.frame.isSome then none else some (w.call P call)
  | .tick =>
      match w.frame with
      | none => none
      | some f =>
          match f.code with
          | [] => some (w.return f)
          | s :: rest => w.exec { f with code := rest } s
  | .execute i res =>
      match w.ring.submitted[i]? with
      | some ⟨id, .write fd buf n⟩ =>
          if res ≤ n then some (w.execute i ⟨id, .write fd buf n⟩ fd buf n res) else none
      | _ => none
  | .begin i =>
      match w.ring.submitted[i]? with
      | some ⟨id, .fsync fd⟩ => some (w.begin i ⟨id, .fsync fd⟩ fd)
      | _ => none
  | .finish i res =>
      match w.ring.running[i]? with
      | some s => if res ≤ 0 then some (w.finish i s res) else none
      | none => none
  | .store p b =>
      if w.frame.isSome then none
      else some { w with mem := Function.update w.mem p b }

/-- The program is attached before the server has set anything up. -/
structure Attached (w : World) : Prop where
  global : w.global = 0
  inits : w.inits = 0
  ring : w.ring = .empty
  content : w.disk.content = fun _ => []
  written : w.disk.written = []
  synced : w.disk.synced = []
  durable : w.disk.durable = []
  frame : w.frame = none
  calls : w.calls = []
  returns : w.returns = []

def system (P : Program) : Transition.System World Label := ⟨Attached, step P⟩

/-- Everything one statement can do. The two helpers that queue an operation
differ in nothing but the operation. -/
inductive ExecResult (w : World) (f : Frame) : Stmt → World → Prop where
  | init : ExecResult w f .ioUringInitGlobal
      { w with ring := .empty, inits := w.inits + 1, frame := some f }
  | queue {s : Stmt} {op : Op} (hop : s.op = some op) :
      ExecResult w f s { w with ring := w.ring.prepare (w.entry op), frame := some f }
  | submit : ExecResult w f .ioUringSubmit
      { w with ring := w.ring.submit, frame := some f }
  | seen {r : Ring Op Sync Int} (hseen : w.ring.seen = some r) :
      ExecResult w f .ioUringWaitAndSeen { w with ring := r, frame := some f }
  | assign {v : Int} :
      ExecResult w f (.assign v) { w with global := v, frame := some f }
  | override {v : Int} :
      ExecResult w f (.bpfOverrideReturn v)
        { w with frame := some { f with result := some v } }

theorem execResult_of_exec {w t : World} {f : Frame} {s : Stmt}
    (h : w.exec f s = some t) : ExecResult w f s t := by
  cases s with
  | ioUringInitGlobal =>
      cases h
      exact .init
  | ioUringSubmitWrite fd buf n =>
      cases h
      exact .queue rfl
  | ioUringSubmitFsync fd =>
      cases h
      exact .queue rfl
  | ioUringSubmit =>
      cases h
      exact .submit
  | ioUringWaitAndSeen =>
      obtain ⟨r, hseen, rfl⟩ := Option.map_eq_some_iff.mp h
      exact .seen hseen
  | assign v =>
      cases h
      exact .assign
  | bpfOverrideReturn v =>
      cases h
      exact .override

/-- Everything one step of the system can do. -/
inductive StepResult (P : Program) (w : World) : Label → World → Prop where
  | call {call : Call} (hidle : w.frame = none) :
      StepResult P w (.call call) (w.call P call)
  | stmt {f : Frame} {s : Stmt} {rest : List Stmt} {t : World}
      (hframe : w.frame = some f) (hcode : f.code = s :: rest)
      (hexec : ExecResult w { f with code := rest } s t) :
      StepResult P w .tick t
  | ret {f : Frame} (hframe : w.frame = some f) (hcode : f.code = []) :
      StepResult P w .tick (w.return f)
  | execute {i : Nat} {res : Int} {e : Slot Op} {fd : Fd} {buf n : Nat}
      (hentry : w.ring.submitted[i]? = some e) (hop : e.val = .write fd buf n)
      (hres : res ≤ n) :
      StepResult P w (.execute i res) (w.execute i e fd buf n res)
  | begin {i : Nat} {e : Slot Op} {fd : Fd}
      (hentry : w.ring.submitted[i]? = some e) (hop : e.val = .fsync fd) :
      StepResult P w (.begin i) (w.begin i e fd)
  | finish {i : Nat} {res : Int} {s : Slot Sync}
      (hrunning : w.ring.running[i]? = some s) (hres : res ≤ 0) :
      StepResult P w (.finish i res) (w.finish i s res)
  | store {p : Nat} {b : UInt8} (hidle : w.frame = none) :
      StepResult P w (.store p b) { w with mem := Function.update w.mem p b }

theorem frame_eq_none {w : World} (h : ¬ w.frame.isSome = true) : w.frame = none := by
  cases hframe : w.frame with
  | none => rfl
  | some f =>
      rw [hframe] at h
      exact absurd rfl h

theorem stepResult_of_step {P : Program} {w t : World} {l : Label}
    (h : step P w l = some t) : StepResult P w l t := by
  cases l with
  | call call =>
      simp only [step] at h
      split at h
      · cases h
      · rename_i hidle
        cases h
        exact .call (frame_eq_none hidle)
  | tick =>
      simp only [step] at h
      split at h
      · cases h
      · rename_i f hframe
        split at h
        · rename_i hcode
          cases h
          exact .ret hframe hcode
        · rename_i s rest hcode
          exact .stmt hframe hcode (execResult_of_exec h)
  | execute i res =>
      simp only [step] at h
      split at h
      · rename_i id fd buf n hentry
        split at h
        · rename_i hres
          cases h
          exact .execute hentry rfl hres
        · cases h
      · cases h
  | begin i =>
      simp only [step] at h
      split at h
      · rename_i id fd hentry
        cases h
        exact .begin hentry rfl
      · cases h
  | finish i res =>
      simp only [step] at h
      split at h
      · rename_i s hrunning
        split at h
        · rename_i hres
          cases h
          exact .finish hrunning hres
        · cases h
      · cases h
  | store p b =>
      simp only [step] at h
      split at h
      · cases h
      · rename_i hidle
        cases h
        exact .store (frame_eq_none hidle)

/-- Every operation the kernel executes succeeds in full. -/
def Succeeds (w : World) : Label → Prop
  | .execute i res => ∀ e ∈ w.ring.submitted[i]?, res = e.val.full
  | .finish _ res => res = 0
  | _ => True

instance (w : World) : ∀ l, Decidable (Succeeds w l)
  | .execute i res =>
      inferInstanceAs (Decidable (∀ e ∈ w.ring.submitted[i]?, res = e.val.full))
  | .finish _ res => inferInstanceAs (Decidable (res = 0))
  | .call _ | .tick | .begin _ | .store _ _ => isTrue trivial

/-- Nothing has happened yet. -/
def freshWorld : World where
  global := 0
  inits := 0
  ring := .empty
  mem _ := 0
  disk := ⟨fun _ => [], [], [], []⟩
  frame := none
  calls := []
  returns := []

theorem attached_freshWorld : Attached freshWorld :=
  ⟨rfl, rfl, rfl, rfl, rfl, rfl, rfl, rfl, rfl, rfl⟩

end BpftimeBenchmark.Redis
