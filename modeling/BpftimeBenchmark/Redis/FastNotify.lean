import BpftimeBenchmark.Redis.Accounting

/-!
`fsync-fast-notify`: each hooked call submits its operation and waits for a
completion before it reports success. One ring serves all threads, and nothing
ties the completion that a wait consumes to the operation its thread submitted.
-/

namespace BpftimeBenchmark.Redis

open Uring Transition

/-- Both handlers submit their entry and wait. -/
def notified (queue : Stmt) (result : Int) : List Stmt :=
  [queue, .ioUringSubmit, .ioUringWaitAndSeen, .bpfOverrideReturn result]

def fastHook : Call → List Stmt
  | .start => [.ioUringInitGlobal]
  | .io (.write fd buf n) => notified (.ioUringSubmitWrite fd buf n) n
  | .io (.fsync fd) => notified (.ioUringSubmitFsync fd) 0

theorem fastHook_io (op : Op) :
    ∃ queue, queue.op = some op ∧ fastHook (.io op) = notified queue op.full := by
  cases op with
  | write fd buf n => exact ⟨.ioUringSubmitWrite fd buf n, rfl, rfl⟩
  | fsync fd => exact ⟨.ioUringSubmitFsync fd, rfl, rfl⟩

theorem mem_notified {queue s : Stmt} {result : Int} (h : s ∈ notified queue result) :
    s = queue ∨ s.op = none ∧ s ≠ .ioUringInitGlobal := by
  simp only [notified, List.mem_cons, List.not_mem_nil, or_false] at h
  rcases h with rfl | rfl | rfl | rfl
  · exact Or.inl rfl
  · exact Or.inr ⟨rfl, by simp⟩
  · exact Or.inr ⟨rfl, by simp⟩
  · exact Or.inr ⟨rfl, by simp⟩

/-- The program keeps no counter. -/
def fsyncFastNotify : Program where
  hook _ call := fastHook call
  own _ call s op hs hop := by
    cases call with
    | start =>
        obtain rfl := List.mem_singleton.mp hs
        cases hop
    | io o =>
        obtain ⟨queue, hqueue, hhook⟩ := fastHook_io o
        rw [hhook] at hs
        rcases mem_notified hs with rfl | ⟨hnone, -⟩
        · rw [hqueue] at hop
          rw [Option.some.inj hop]
        · rw [hnone] at hop
          cases hop
  setup _ call hs := by
    cases call with
    | start => rfl
    | io o =>
        obtain ⟨queue, hqueue, hhook⟩ := fastHook_io o
        rw [hhook] at hs
        rcases mem_notified hs with rfl | ⟨-, hne⟩
        · cases hqueue
        · exact absurd rfl hne
  setupOnly _ s hs := by
    obtain rfl := List.mem_singleton.mp hs
    rfl

/-- A thread inside a hooked call, with the number of the call. -/
structure Thread where
  id : Nat
  op : Op
  code : List Stmt
  result : Option Int

/-- The server's threads and their one ring, which has been set up. `done` and
`returned` record the calls whose operation has completed and those that have
returned. -/
structure Threads (τ : Type) where
  ring : Ring Op Unit Int
  running : τ → Option Thread
  issued : Nat
  done : List Nat
  returned : List Nat

variable {τ : Type} [DecidableEq τ]

def Threads.call (w : Threads τ) (thread : τ) (op : Op) : Threads τ :=
  { w with
    running := Function.update w.running thread
      (some ⟨w.issued, op, fsyncFastNotify.hook 0 (.io op), none⟩)
    issued := w.issued + 1 }

/-- The ring after a statement of a thread. A wait takes whichever completion is
first, and waits while there is none. -/
def Thread.ringAfter (f : Thread) (r : Ring Op Unit Int) :
    Stmt → Option (Ring Op Unit Int)
  | .ioUringInitGlobal => some .empty
  | .ioUringSubmitWrite fd buf n => some (r.prepare ⟨f.id, .write fd buf n⟩)
  | .ioUringSubmitFsync fd => some (r.prepare ⟨f.id, .fsync fd⟩)
  | .ioUringSubmit => some r.submit
  | .ioUringWaitAndSeen => r.seen
  | .assign _ => some r
  | .bpfOverrideReturn _ => some r

def Thread.resultAfter (f : Thread) : Stmt → Option Int
  | .bpfOverrideReturn v => some v
  | _ => f.result

def Threads.exec (w : Threads τ) (thread : τ) (f : Thread) (s : Stmt)
    (rest : List Stmt) : Option (Threads τ) :=
  (f.ringAfter w.ring s).map (fun r =>
    { w with
      ring := r
      running := Function.update w.running thread
        (some { f with code := rest, result := f.resultAfter s }) })

def Threads.return (w : Threads τ) (thread : τ) (f : Thread) : Threads τ :=
  { w with
    running := Function.update w.running thread none
    returned := w.returned ++ [f.id] }

/-- The kernel completes the operation at position `i` of the submitted ones. -/
def Threads.complete (w : Threads τ) (i : Nat) (e : Slot Op) (res : Int) : Threads τ :=
  { w with ring := w.ring.execute i ⟨e.id, res⟩, done := w.done ++ [e.id] }

inductive ThreadLabel (τ : Type) where
  | call (thread : τ) (op : Op)
  | tick (thread : τ)
  | complete (i : Nat) (res : Int)

def threadStep (w : Threads τ) : ThreadLabel τ → Option (Threads τ)
  | .call thread op =>
      if (w.running thread).isSome then none else some (w.call thread op)
  | .tick thread =>
      match w.running thread with
      | none => none
      | some f =>
          match f.code with
          | [] => some (w.return thread f)
          | s :: rest => w.exec thread f s rest
  | .complete i res =>
      match w.ring.submitted[i]? with
      | some e => some (w.complete i e res)
      | none => none

structure Quiet (w : Threads τ) : Prop where
  ring : w.ring = .empty
  running : ∀ thread, w.running thread = none
  done : w.done = []
  returned : w.returned = []

def threadSystem (τ : Type) [DecidableEq τ] : System (Threads τ) (ThreadLabel τ) :=
  ⟨Quiet, threadStep⟩

inductive ThreadResult (w : Threads τ) : ThreadLabel τ → Threads τ → Prop where
  | call {thread : τ} {op : Op} (hidle : w.running thread = none) :
      ThreadResult w (.call thread op) (w.call thread op)
  | stmt {thread : τ} {f : Thread} {s : Stmt} {rest : List Stmt}
      {r : Ring Op Unit Int} (hrunning : w.running thread = some f)
      (hcode : f.code = s :: rest) (hring : f.ringAfter w.ring s = some r) :
      ThreadResult w (.tick thread)
        { w with
          ring := r
          running := Function.update w.running thread
            (some { f with code := rest, result := f.resultAfter s }) }
  | ret {thread : τ} {f : Thread} (hrunning : w.running thread = some f)
      (hcode : f.code = []) : ThreadResult w (.tick thread) (w.return thread f)
  | complete {i : Nat} {res : Int} {e : Slot Op}
      (hentry : w.ring.submitted[i]? = some e) :
      ThreadResult w (.complete i res) (w.complete i e res)

theorem threadResult_of_step {w t : Threads τ} {l : ThreadLabel τ}
    (h : threadStep w l = some t) : ThreadResult w l t := by
  cases l with
  | call thread op =>
      simp only [threadStep] at h
      split at h
      · cases h
      · rename_i hidle
        cases h
        exact .call (by simpa using hidle)
  | tick thread =>
      simp only [threadStep] at h
      split at h
      · cases h
      · rename_i f hrunning
        split at h
        · rename_i hcode
          cases h
          exact .ret hrunning hcode
        · rename_i s rest hcode
          obtain ⟨r, hring, rfl⟩ := Option.map_eq_some_iff.mp h
          exact .stmt hrunning hcode hring
  | complete i res =>
      simp only [threadStep] at h
      split at h
      · rename_i e hentry
        cases h
        exact .complete hentry
      · cases h

/-- A wait consumes the completion of the operation its own thread submitted. -/
def OwnFirst (w : Threads τ) : ThreadLabel τ → Prop
  | .tick thread => ∀ f ∈ w.running thread, f.code.head? = some .ioUringWaitAndSeen →
      ∀ c ∈ w.ring.completed.head?, c.id = f.id
  | _ => True

/-- Every hooked call that has returned was synchronous. -/
def Synchronous (w : Threads τ) : Prop := ∀ id ∈ w.returned, id ∈ w.done

/-- A thread that has passed its wait has its operation completed. -/
structure SynchronousInv (w : Threads τ) : Prop where
  completed : ∀ c ∈ w.ring.completed, c.id ∈ w.done
  waited : ∀ thread, ∀ f ∈ w.running thread,
    .ioUringWaitAndSeen ∈ f.code ∨ f.id ∈ w.done
  returned : Synchronous w

variable {w t : Threads τ} {l : ThreadLabel τ}

omit [DecidableEq τ] in
theorem synchronousInv_quiet (h : Quiet w) : SynchronousInv w := by
  constructor
  · simp [h.ring, Ring.empty]
  · simp [h.running]
  · simp [Synchronous, h.returned]

theorem completed_ringAfter {f : Thread} {r r' : Ring Op Unit Int} {s : Stmt}
    (h : f.ringAfter r s = some r') : r'.completed ⊆ r.completed := by
  cases s with
  | ioUringInitGlobal =>
      cases h
      exact List.nil_subset _
  | ioUringWaitAndSeen =>
      obtain ⟨c, hcompleted, -, -, -⟩ := Ring.seen_cases h
      rw [hcompleted]
      exact List.subset_cons_self _ _
  | ioUringSubmitWrite fd buf n | ioUringSubmitFsync fd | ioUringSubmit | assign v
  | bpfOverrideReturn v =>
      cases h
      exact List.Subset.refl _

/-- A thread after a step of one thread is that one or as before. -/
theorem running_update {thread other : τ} {g : Option Thread} {f : Thread}
    (h : f ∈ Function.update w.running thread g other) :
    f ∈ g ∨ f ∈ w.running other := by
  by_cases hthread : other = thread
  · subst hthread
    rw [Function.update_self] at h
    exact Or.inl h
  · rw [Function.update_of_ne hthread] at h
    exact Or.inr h

omit [DecidableEq τ] in
/-- A thread that takes its own completion in its wait has its operation completed. -/
theorem waited_stmt {thread : τ} {f : Thread} {s : Stmt} {rest : List Stmt}
    {r : Ring Op Unit Int} (hi : SynchronousInv w) (hok : OwnFirst w (.tick thread))
    (hrunning : w.running thread = some f) (hcode : f.code = s :: rest)
    (hring : f.ringAfter w.ring s = some r) :
    .ioUringWaitAndSeen ∈ rest ∨ f.id ∈ w.done := by
  rcases hi.waited thread f hrunning with hwaits | hdone
  · rw [hcode] at hwaits
    rcases List.mem_cons.mp hwaits with rfl | hrest
    · obtain ⟨c, hcompleted, -, -, -⟩ := Ring.seen_cases hring
      have hown := hok f hrunning (by rw [hcode]; rfl) c (by rw [hcompleted]; rfl)
      right
      rw [← hown]
      apply hi.completed
      rw [hcompleted]
      exact List.mem_cons_self
    · exact Or.inl hrest
  · exact Or.inr hdone

theorem synchronousInv_step (hi : SynchronousInv w) (hok : OwnFirst w l)
    (h : threadStep w l = some t) : SynchronousInv t := by
  cases threadResult_of_step h with
  | @call thread op hidle =>
      obtain ⟨queue, hqueue, hhook⟩ := fastHook_io op
      refine ⟨hi.completed, ?_, hi.returned⟩
      intro other f hf
      rcases running_update hf with hnew | hbefore
      · obtain rfl := Option.mem_some_iff.mp hnew
        left
        simp [fsyncFastNotify, hhook, notified]
      · exact hi.waited other f hbefore
  | @stmt thread f s rest r hrunning hcode hring =>
      have hsubset := completed_ringAfter hring
      have hwaited := waited_stmt hi hok hrunning hcode hring
      refine ⟨fun c hc => hi.completed c (hsubset hc), ?_, hi.returned⟩
      intro other g hg
      rcases running_update hg with hnew | hbefore
      · obtain rfl := Option.mem_some_iff.mp hnew
        exact hwaited
      · exact hi.waited other g hbefore
  | @ret thread f hrunning hcode =>
      refine ⟨hi.completed, ?_, ?_⟩
      · intro other g hg
        rcases running_update hg with hnew | hbefore
        · cases hnew
        · exact hi.waited other g hbefore
      · intro id hid
        rcases List.mem_append.mp hid with hold | hnew
        · exact hi.returned id hold
        · obtain rfl := List.mem_singleton.mp hnew
          rcases hi.waited thread f hrunning with hwaits | hdone
          · rw [hcode] at hwaits
            cases hwaits
          · exact hdone
  | @complete i res e hentry =>
      refine ⟨?_, ?_, ?_⟩
      · intro c hc
        rcases List.mem_append.mp hc with hold | hnew
        · exact List.mem_append_left _ (hi.completed c hold)
        · obtain rfl := List.mem_singleton.mp hnew
          exact List.mem_append_right _ (List.mem_singleton.mpr rfl)
      · intro thread f hf
        exact (hi.waited thread f hf).imp_right (List.mem_append_left _)
      · intro id hid
        exact List.mem_append_left _ (hi.returned id hid)

/-- In every run in which each wait takes the completion of its own thread,
every hooked call that has returned has its operation completed. -/
theorem synchronous_of_ownFirst (h : RunsUnder (threadSystem τ) OwnFirst w) :
    Synchronous w := by
  have hinv : SynchronousInv w := by
    apply h.invariant
    · exact fun s hs => synchronousInv_quiet hs
    · exact fun s l t hi hok hstep => synchronousInv_step hi hok hstep
  exact hinv.returned

instance (w : Threads τ) : ∀ l, Decidable (OwnFirst w l)
  | .tick thread =>
      inferInstanceAs (Decidable (∀ f ∈ w.running thread,
        f.code.head? = some .ioUringWaitAndSeen →
          ∀ c ∈ w.ring.completed.head?, c.id = f.id))
  | .call _ _ | .complete _ _ => isTrue trivial

def quietThreads (τ : Type) : Threads τ := ⟨.empty, fun _ => none, 0, [], []⟩

theorem quiet_quietThreads (τ : Type) : Quiet (quietThreads τ) :=
  ⟨rfl, fun _ => rfl, rfl, rfl⟩

/-- A write and an fdatasync of two threads are submitted, and the write
completes. -/
def crossed : List (ThreadLabel Bool) :=
  [.call false (.write 3 64 8), .call true (.fsync 3), .tick false, .tick false,
    .tick true, .tick true, .complete 0 8, .tick true, .tick true, .tick true]

/-- The fdatasync returns on the completion of the other thread's write, with
its own operation still in the ring. -/
theorem crossed_not_synchronous :
    ∃ w, Reachable (threadSystem Bool) w ∧ ¬ Synchronous w := by
  have hrun : (exec (threadSystem Bool) (quietThreads Bool) crossed).map
      (fun w => (w.returned, w.done)) = some ([1], [0]) := by decide +kernel
  obtain ⟨w, hw, hend⟩ := Option.map_eq_some_iff.mp hrun
  simp only [Prod.mk.injEq] at hend
  obtain ⟨hreturned, hdone⟩ := hend
  refine ⟨w, Reachable.exec crossed (.start (quiet_quietThreads Bool)) hw, ?_⟩
  intro hsync
  have hmem := hsync 1 (by rw [hreturned]; exact List.mem_cons_self)
  rw [hdone] at hmem
  revert hmem
  decide

def inTurn : List (ThreadLabel Bool) :=
  [.call false (.write 3 64 8), .call true (.fsync 3), .tick false, .tick false,
    .complete 0 8, .tick true, .tick true, .tick false, .complete 0 0, .tick true,
    .tick false, .tick false, .tick true, .tick true]

theorem synchronous_of_ownFirst_inTurn :
    ∃ w : Threads Bool, w.returned = [0, 1] ∧ Synchronous w := by
  have hrun : (exec (threadSystem Bool) (quietThreads Bool) inTurn).map
      (fun w => w.returned) = some [0, 1] := by decide +kernel
  obtain ⟨w, hw, hend⟩ := Option.map_eq_some_iff.mp hrun
  have halong : Along (threadSystem Bool) OwnFirst (quietThreads Bool) inTurn := by
    decide +kernel
  exact ⟨w, hend, synchronous_of_ownFirst
    (.exec inTurn (.start (quiet_quietThreads Bool)) halong hw)⟩

end BpftimeBenchmark.Redis
