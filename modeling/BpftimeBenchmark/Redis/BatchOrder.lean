import BpftimeBenchmark.Redis.BatchProcess

/-!
What `batch_process` writes. A queued entry holds a pointer, and up to 49 of
them wait while the server goes on using its buffers. The bytes that reach a
file are those of the intercepted calls in order if the buffers are left alone
until the flush and the writes of one file are executed in the order in which
they were queued.
-/

namespace BpftimeBenchmark.Redis

open Uring Transition

/-- What the operation appends to `fd` if it is executed now. -/
def Op.bytesTo (mem : Memory) (fd : Fd) : Op → List UInt8
  | .write fd' buf n => if fd' = fd then mem.read buf n else []
  | .fsync _ => []

def Stmt.bytesTo (mem : Memory) (fd : Fd) (s : Stmt) : List UInt8 :=
  match s.op with
  | some op => op.bytesTo mem fd
  | none => []

/-- What plain `write(2)` appended to `fd` in this call. -/
def Issued.bytesTo (fd : Fd) (c : Issued) : List UInt8 :=
  match c.op with
  | .write fd' _ _ => if fd' = fd then c.bytes else []
  | .fsync _ => []

def plainContent (fd : Fd) (calls : List Issued) : List UInt8 :=
  calls.flatMap (Issued.bytesTo fd)

/-- After a flush each file holds what the calls so far would have written. -/
def SameBytes (w : World) : Prop :=
  w.frame = none → w.global = 0 → ∀ fd, w.disk.content fd = plainContent fd w.calls

/-- The address belongs to the buffer of the operation. -/
def Op.reads (p : Nat) : Op → Bool
  | .write _ buf n => buf ≤ p ∧ p < buf + n
  | .fsync _ => false

def Op.writesTo : Op → Option Fd
  | .write fd _ _ => some fd
  | .fsync _ => none

/-- The server changes no byte of a buffer that a queued write points to. -/
def BuffersKept (w : World) : Label → Prop
  | .store p b => ∀ e ∈ w.ring.queued, e.val.reads p → w.mem p = b
  | _ => True

instance (w : World) : ∀ l, Decidable (BuffersKept w l)
  | .store p b =>
      inferInstanceAs (Decidable (∀ e ∈ w.ring.queued, e.val.reads p → w.mem p = b))
  | .call _ | .tick | .execute _ _ | .begin _ | .finish _ _ => isTrue trivial

/-- The kernel executes no write before an earlier one to the same file. -/
def InOrder (w : World) : Label → Prop
  | .execute i _ => ∀ e ∈ w.ring.submitted.take i, ∀ e' ∈ w.ring.submitted[i]?,
      e.val.writesTo ≠ e'.val.writesTo
  | _ => True

instance (w : World) : ∀ l, Decidable (InOrder w l)
  | .execute i _ => inferInstanceAs (Decidable
      (∀ e ∈ w.ring.submitted.take i, ∀ e' ∈ w.ring.submitted[i]?,
        e.val.writesTo ≠ e'.val.writesTo))
  | .call _ | .tick | .begin _ | .finish _ _ | .store _ _ => isTrue trivial

/-- The kernel executes every write in full. -/
def InFull (w : World) : Label → Prop
  | .execute i res => ∀ e ∈ w.ring.submitted[i]?, res = e.val.full
  | _ => True

instance (w : World) : ∀ l, Decidable (InFull w l)
  | .execute i res =>
      inferInstanceAs (Decidable (∀ e ∈ w.ring.submitted[i]?, res = e.val.full))
  | .call _ | .tick | .begin _ | .finish _ _ | .store _ _ => isTrue trivial

/-- The bytes for `fd` that are still on their way, in the order of their calls. -/
def World.owed (w : World) (fd : Fd) : List UInt8 :=
  (w.ring.submitted ++ w.ring.queued).flatMap (fun e => e.val.bytesTo w.mem fd) ++
    w.code.flatMap (Stmt.bytesTo w.mem fd)

/-- The handler has overridden its call or is going to. -/
def Frame.Overrides (f : Frame) : Prop :=
  f.result ≠ none ∨ ∃ v, .bpfOverrideReturn v ∈ f.code

/-- The files and what is on its way to them make up what plain writes would have
produced. -/
structure OrderInv (w : World) : Prop where
  accounted : Accounted w
  batch : ∃ base, BatchFrom base w
  overrides : ∀ f ∈ w.frame, ∀ op, f.call = .io op → f.Overrides
  content : ∀ fd, w.disk.content fd ++ w.owed fd = plainContent fd w.calls

variable {P : Program} {w t : World} {l : Label} {fd : Fd}

theorem orderInv_attached (h : Attached w) : OrderInv w where
  accounted := accounted_attached h
  batch := ⟨0, batchFrom_attached h⟩
  overrides := by
    intro f hf
    rw [h.frame] at hf
    cases hf
  content := by
    intro fd
    simp [World.owed, World.code, h.frame, h.ring, h.content, h.calls, plainContent,
      Ring.empty]

theorem batched_bytesTo (g : Int) (op : Op) (result : Int) (mem : Memory) :
    (batched g op.queue result).flatMap (Stmt.bytesTo mem fd) = op.bytesTo mem fd := by
  have hwaits : ∀ k, (List.replicate k Stmt.ioUringWaitAndSeen).flatMap
      (Stmt.bytesTo mem fd) = [] := by
    intro k
    apply List.flatMap_eq_nil_iff.mpr
    intro s hs
    obtain rfl := (List.mem_replicate.mp hs).2
    rfl
  have hqueue : Stmt.bytesTo mem fd op.queue = op.bytesTo mem fd := by
    rw [Stmt.bytesTo, queue_op]
  have hassign : ∀ v, Stmt.bytesTo mem fd (.assign v) = [] := fun _ => rfl
  have hoverride : ∀ v, Stmt.bytesTo mem fd (.bpfOverrideReturn v) = [] := fun _ => rfl
  have hsubmit : Stmt.bytesTo mem fd .ioUringSubmit = [] := rfl
  unfold batched
  split <;> simp [hwaits, hqueue, hassign, hoverride, hsubmit]

theorem override_mem_batched (g : Int) (queue : Stmt) (result : Int) :
    .bpfOverrideReturn result ∈ batched g queue result := by
  unfold batched
  split <;> simp

theorem issued_bytesTo (op : Op) (mem : Memory) :
    Issued.bytesTo fd ⟨op, op.bytes mem⟩ = op.bytesTo mem fd := by
  cases op <;> rfl

theorem bytesTo_update {mem : Memory} {p : Nat} {b : UInt8} {op : Op}
    (h : op.reads p → mem p = b) :
    op.bytesTo (Function.update mem p b) fd = op.bytesTo mem fd := by
  cases op with
  | fsync fd' => rfl
  | write fd' buf n =>
      simp only [Op.bytesTo]
      rw [Memory.read_update]
      intro hlow hhigh
      exact h (by simp [Op.reads, hlow, hhigh])

theorem return_mem (f : Frame) : (w.return f).mem = w.mem := by
  unfold World.return
  cases f.call with
  | start => rfl
  | io op => cases f.result <;> rfl

theorem code_of_frame {f : Frame} (h : w.frame = some f) : w.code = f.code := by
  rw [World.code, h]

/-- Before the first call nothing is on its way. -/
theorem ring_of_no_calls (hi : Accounted w) (hcalls : w.calls = []) :
    w.ring.submitted = [] ∧ w.ring.queued = [] := by
  constructor
  · apply List.eq_nil_iff_forall_not_mem.mpr
    intro e he
    have hlt := hi.lt_of_inFlight (Or.inr (Or.inl ⟨e, he, rfl⟩))
    simp [hcalls] at hlt
  · apply List.eq_nil_iff_forall_not_mem.mpr
    intro e he
    have hlt := hi.lt_of_inFlight (Or.inl ⟨e, he, rfl⟩)
    simp [hcalls] at hlt

/-- A statement moves bytes along or leaves them where they are. -/
theorem content_stmt {f : Frame} {s : Stmt} {rest : List Stmt} (hi : Accounted w)
    (hframe : w.frame = some f) (hcode : f.code = s :: rest)
    (hexec : ExecResult w { f with code := rest } s t) :
    t.disk.content fd ++ t.owed fd = w.disk.content fd ++ w.owed fd := by
  have hwcode : w.code = s :: rest := (code_of_frame hframe).trans hcode
  rw [exec_disk hexec, World.owed, World.owed, hwcode, List.flatMap_cons]
  cases hexec with
  | init =>
      have hstart := hi.setup f hframe (hcode ▸ List.mem_cons_self)
      obtain ⟨hsubmitted, hqueued⟩ := ring_of_no_calls hi (hi.start f hframe hstart)
      simp [hsubmitted, hqueued, World.code, Ring.empty, Stmt.bytesTo, Stmt.op]
  | @queue _ op hop =>
      have hbytes : Stmt.bytesTo w.mem fd s = op.bytesTo w.mem fd := by
        rw [Stmt.bytesTo, hop]
      simp [hbytes, World.code, Ring.prepare, World.entry]
  | submit => simp [World.code, Ring.submit, Stmt.bytesTo, Stmt.op]
  | seen hseen =>
      obtain ⟨c, -, hqueued, hsubmitted, -⟩ := Ring.seen_cases hseen
      simp [World.code, hqueued, hsubmitted, Stmt.bytesTo, Stmt.op]
  | assign => simp [World.code, Stmt.bytesTo, Stmt.op]
  | override => simp [World.code, Stmt.bytesTo, Stmt.op]

/-- No intercepted call of this program reaches the kernel by itself. -/
theorem returnDisk_of_overrides {f : Frame} (hi : OrderInv w) (hframe : w.frame = some f)
    (hcode : f.code = []) : w.returnDisk f = w.disk := by
  unfold World.returnDisk
  cases hcall : f.call with
  | start => rfl
  | io op =>
      rcases hi.overrides f hframe op hcall with hresult | ⟨v, hv⟩
      · cases hr : f.result with
        | none => exact absurd hr hresult
        | some v => rfl
      · rw [hcode] at hv
        cases hv

/-- The handler of a new call has its statements ahead of it. -/
theorem call_owed {call : Call} (hidle : w.frame = none) :
    (w.call P call).owed fd =
      w.owed fd ++ (P.hook w.global call).flatMap (Stmt.bytesTo w.mem fd) := by
  have hwcode : w.code = [] := by rw [World.code, hidle]
  rw [World.owed, World.owed, hwcode, List.flatMap_nil, List.append_nil]
  rfl

theorem call_plainContent (op : Op) :
    plainContent fd (w.call P (.io op)).calls =
      plainContent fd w.calls ++ op.bytesTo w.mem fd := by
  simp only [World.call, Call.issued, plainContent, List.flatMap_append, List.flatMap_cons,
    List.flatMap_nil, List.append_nil, issued_bytesTo]

/-- A handler that sets the ring up has no bytes to move. -/
theorem content_start (hidle : w.frame = none) (hhook : P.hook w.global .start =
    [.ioUringInitGlobal]) :
    (w.call P .start).owed fd = w.owed fd ∧
      plainContent fd (w.call P .start).calls = plainContent fd w.calls := by
  rw [call_owed hidle, hhook]
  simp [World.call, Call.issued, Stmt.bytesTo, Stmt.op]

theorem content_call {call : Call} (hi : OrderInv w) (hidle : w.frame = none) :
    (w.call batchProcess call).disk.content fd ++ (w.call batchProcess call).owed fd =
      plainContent fd (w.call batchProcess call).calls := by
  have hcontent := hi.content fd
  cases call with
  | start =>
      obtain ⟨howed, hplain⟩ := @content_start batchProcess _ fd hidle rfl
      rw [howed, hplain]
      exact hcontent
  | io op =>
      have hhook : batchProcess.hook w.global (.io op) =
          batched w.global op.queue op.full := batchHook_io w.global op
      rw [call_plainContent, call_owed hidle, hhook, batched_bytesTo, ← List.append_assoc]
      exact congrArg (· ++ op.bytesTo w.mem fd) hcontent

/-- The executed write is the first of its file, and its buffer is as it was. -/
theorem content_execute {i : Nat} {e : Slot Op} {fd' : Fd} {buf n : Nat}
    (hentry : w.ring.submitted[i]? = some e) (hop : e.val = .write fd' buf n)
    (horder : ∀ x ∈ w.ring.submitted.take i, x.val.writesTo ≠ e.val.writesTo) :
    (w.execute i e fd' buf n n).disk.content fd ++ (w.execute i e fd' buf n n).owed fd =
      w.disk.content fd ++ w.owed fd := by
  have hdisk : (w.execute i e fd' buf n n).disk.content =
      Function.update w.disk.content fd' (w.disk.content fd' ++ w.mem.read buf n) := by
    have hlen : (w.mem.read buf n).length = n := by simp [Memory.read]
    have htake : (w.mem.read buf n).take ((n : Int)).toNat = w.mem.read buf n := by
      rw [Int.toNat_natCast]
      exact List.take_of_length_le hlen.le
    have hnonneg : ¬ (n : Int) < 0 := by omega
    simp only [World.execute, Disk.append, if_neg hnonneg, htake]
  have hring : (w.execute i e fd' buf n n).owed fd =
      (w.ring.submitted.eraseIdx i).flatMap (fun x => x.val.bytesTo w.mem fd) ++
        w.ring.queued.flatMap (fun x => x.val.bytesTo w.mem fd) ++
        w.code.flatMap (Stmt.bytesTo w.mem fd) := by
    simp only [World.owed, World.execute, Ring.execute, World.code, List.flatMap_append]
  rw [hdisk, hring, World.owed, List.flatMap_append]
  by_cases hfd : fd' = fd
  · subst hfd
    have hbytes : e.val.bytesTo w.mem fd' = w.mem.read buf n := by
      rw [hop]
      exact if_pos rfl
    have hbefore : ∀ x ∈ w.ring.submitted.take i, x.val.bytesTo w.mem fd' = [] := by
      intro x hx
      have hne := horder x hx
      rw [hop] at hne
      cases hxop : x.val with
      | fsync fd'' => rfl
      | write fd'' buf' n' =>
          rw [hxop] at hne
          exact if_neg (fun h => hne (by rw [h]; rfl))
    rw [Ring.flatMap_eraseIdx hentry hbefore, hbytes, Function.update_self]
    simp only [List.append_assoc]
  · have hbytes : e.val.bytesTo w.mem fd = [] := by
      rw [hop]
      exact if_neg hfd
    rw [Ring.flatMap_eraseIdx_nil hentry hbytes, Function.update_of_ne (Ne.symm hfd)]

/-- A changed byte is in no buffer that is still to be read. -/
theorem content_store {p : Nat} {b : UInt8} (hquiet : w.ring.outstanding = 0)
    (hidle : w.frame = none) (hkept : BuffersKept w (.store p b)) :
    World.owed { w with mem := Function.update w.mem p b } fd = w.owed fd := by
  have hsubmitted := Ring.submitted_of_quiet hquiet
  have hqueued : w.ring.queued.flatMap
      (fun e => e.val.bytesTo (Function.update w.mem p b) fd) =
        w.ring.queued.flatMap (fun e => e.val.bytesTo w.mem fd) := by
    apply List.flatMap_congr
    intro e he
    exact bytesTo_update (hkept e he)
  simp only [World.owed, World.code, hidle, hsubmitted, List.nil_append, hqueued,
    List.flatMap_nil]

theorem content_begin {i : Nat} {e : Slot Op} {fd' : Fd}
    (hentry : w.ring.submitted[i]? = some e) (hop : e.val = .fsync fd') :
    (w.begin i e fd').owed fd = w.owed fd := by
  have hbytes : e.val.bytesTo w.mem fd = [] := by
    rw [hop]
    rfl
  rw [World.owed, World.owed, List.flatMap_append, List.flatMap_append,
    Ring.flatMap_eraseIdx_nil hentry hbytes]
  rfl

theorem sync_content (d : Disk) (id : Nat) (covers : List Nat) (res : Int) :
    (d.sync id covers res).content = d.content := by
  unfold Disk.sync
  split <;> rfl

/-- What the kernel and the server's stores do changes no byte that is on its way. -/
theorem content_kernel (hquiet : w.frame = none → w.ring.outstanding = 0)
    (hok : BuffersKept w l ∧ InOrder w l ∧ InFull w l) (hcall : ∀ call, l ≠ .call call)
    (htick : l ≠ .tick) (hstep : step P w l = some t) :
    t.disk.content fd ++ t.owed fd = w.disk.content fd ++ w.owed fd := by
  obtain ⟨hkept, horder, hfull⟩ := hok
  cases stepResult_of_step hstep with
  | @call call hidle => exact absurd rfl (hcall call)
  | stmt | ret => exact absurd rfl htick
  | @execute i res e fd' buf n hentry hop hres =>
      have hres : res = n := by
        rw [hfull e hentry, hop]
        rfl
      subst hres
      exact content_execute hentry hop (fun x hx => horder x hx e hentry)
  | begin hentry hop =>
      rw [content_begin hentry hop]
      rfl
  | @finish i res s hrunning hres =>
      have hdisk : (w.finish i s res).disk.content = w.disk.content := sync_content _ _ _ _
      rw [hdisk]
      rfl
  | store hidle =>
      rw [content_store (hquiet hidle) hidle hkept]

theorem return_owed {f : Frame} (hframe : w.frame = some f) (hcode : f.code = []) :
    (w.return f).owed fd = w.owed fd := by
  simp only [World.owed, World.code, return_ring, return_mem, return_frame, hframe, hcode]

/-- No step loses, changes or reorders a byte. -/
theorem content_step (hi : OrderInv w)
    (hok : BuffersKept w l ∧ InOrder w l ∧ InFull w l)
    (hstep : step batchProcess w l = some t) :
    t.disk.content fd ++ t.owed fd = plainContent fd t.calls := by
  have hquiet : w.frame = none → w.ring.outstanding = 0 := by
    obtain ⟨base, hbatch⟩ := hi.batch
    exact hbatch.quiet
  cases stepResult_of_step hstep with
  | call hidle => exact content_call hi hidle
  | stmt hframe hcode hexec =>
      rw [content_stmt hi.accounted hframe hcode hexec, hi.content fd, exec_calls hexec]
  | @ret f hframe hcode =>
      rw [return_disk, returnDisk_of_overrides hi hframe hcode, return_owed hframe hcode,
        return_calls]
      exact hi.content fd
  | execute | begin | finish | store =>
      rw [content_kernel hquiet hok (by simp) (by simp) hstep]
      exact hi.content fd

theorem overrides_stmt {f : Frame} {s : Stmt} {rest : List Stmt} (h : f.Overrides)
    (hcode : f.code = s :: rest) (hexec : ExecResult w { f with code := rest } s t) :
    ∀ g ∈ t.frame, g.Overrides := by
  have hkeep : (∀ v, s ≠ .bpfOverrideReturn v) →
      Frame.Overrides { f with code := rest } := by
    intro hs
    rcases h with hresult | ⟨v, hv⟩
    · exact Or.inl hresult
    · rw [hcode] at hv
      rcases List.mem_cons.mp hv with heq | hrest
      · exact absurd heq.symm (hs v)
      · exact Or.inr ⟨v, hrest⟩
  cases hexec with
  | @override v =>
      rintro g ⟨rfl⟩
      exact Or.inl (by simp)
  | queue hop =>
      rintro g ⟨rfl⟩
      apply hkeep
      rintro v rfl
      cases hop
  | init | submit | seen _ | assign =>
      rintro g ⟨rfl⟩
      exact hkeep (by simp)

theorem overrides_step (hi : OrderInv w) (hstep : step batchProcess w l = some t) :
    ∀ f ∈ t.frame, ∀ op, f.call = .io op → f.Overrides := by
  cases stepResult_of_step hstep with
  | call hidle =>
      rintro f ⟨rfl⟩ op rfl
      refine Or.inr ⟨op.full, ?_⟩
      have hmem := override_mem_batched w.global op.queue op.full
      rw [← batchHook_io] at hmem
      exact hmem
  | @stmt f s rest t hframe hcode hexec =>
      intro g hg op hop
      obtain ⟨v, hv⟩ := exec_frame hexec
      obtain rfl := Option.some.inj (hv.symm.trans hg)
      exact overrides_stmt (hi.overrides f hframe op hop) hcode hexec _ hg
  | @ret f hframe hcode =>
      rw [return_frame]
      rintro g ⟨⟩
  | execute | begin | finish | store => exact hi.overrides

theorem batchFrom_step (hi : Accounted w) (hbatch : ∃ base, BatchFrom base w)
    (hstep : step batchProcess w l = some t) : ∃ base, BatchFrom base t := by
  obtain ⟨base, hbatch⟩ := hbatch
  rcases call_or_between hstep with ⟨call, rfl, hidle, rfl⟩ | hbetween
  · cases call with
    | start => exact ⟨base, batchFrom_start hbatch hidle⟩
    | io op => exact ⟨base, batchFrom_io hbatch hidle⟩
  · rcases batchFrom_between hi hbatch hbetween hstep with hsame | ⟨-, -, -, -, hfresh⟩
    · exact ⟨base, hsame⟩
    · exact ⟨base + 49, hfresh⟩

theorem orderInv_step (hi : OrderInv w)
    (hok : StartsFirst w l ∧ BuffersKept w l ∧ InOrder w l ∧ InFull w l)
    (hstep : step batchProcess w l = some t) : OrderInv t where
  accounted := accounted_step hi.accounted hok.1 hstep
  batch := batchFrom_step hi.accounted hi.batch hstep
  overrides := overrides_step hi hstep
  content _ := content_step hi hok.2 hstep

/-- One batch of alternating writes and fsyncs, executed in order. -/
theorem oneBatch_run :
    ∃ w, RunsUnder (system batchProcess)
      (fun w l => StartsFirst w l ∧ BuffersKept w l ∧ InOrder w l ∧ InFull w l) w ∧
      w.frame.isNone ∧ w.global = 0 ∧ (w.disk.content 3).length = 200 := by
  have halong : Along (system batchProcess)
      (fun w l => StartsFirst w l ∧ BuffersKept w l ∧ InOrder w l ∧ InFull w l)
      freshWorld (setup ++ .store 64 1 :: batchOf 0) := by decide +kernel
  have hrun : (Transition.exec (system batchProcess) freshWorld
      (setup ++ .store 64 1 :: batchOf 0)).map
      (fun w => (w.frame.isNone, w.global, (w.disk.content 3).length)) =
        some (true, 0, 200) := by decide +kernel
  obtain ⟨w, hw, hend⟩ := Option.map_eq_some_iff.mp hrun
  simp only [Prod.mk.injEq] at hend
  obtain ⟨hidle, hzero, hlength⟩ := hend
  exact ⟨w, .exec _ (.start attached_freshWorld) halong hw, hidle, hzero, hlength⟩

/-- Buffers that are left alone and writes executed in order make the batches
invisible in the files. -/
theorem sameBytes_of_ordered
    (h : RunsUnder (system batchProcess)
      (fun w l => StartsFirst w l ∧ BuffersKept w l ∧ InOrder w l ∧ InFull w l) w) :
    SameBytes w := by
  have hinv : OrderInv w := h.invariant (fun _ hstart => orderInv_attached hstart)
    (fun _ _ _ hi hok hstep => orderInv_step hi hok hstep)
  intro hidle hzero fd
  obtain ⟨base, hbatch⟩ := hinv.batch
  have howed : w.owed fd = [] := by
    simp [World.owed, World.code, hidle, hbatch.queued hidle hzero,
      Ring.submitted_of_quiet (hbatch.quiet hidle)]
  have hcontent := hinv.content fd
  rw [howed, List.append_nil] at hcontent
  exact hcontent

theorem sameBytes_of_ordered_oneBatch :
    ∃ w, w.frame.isNone ∧ w.global = 0 ∧ (w.disk.content 3).length = 200 ∧ SameBytes w := by
  obtain ⟨w, hrun, hidle, hzero, hlength⟩ := oneBatch_run
  exact ⟨w, hidle, hzero, hlength, sameBytes_of_ordered hrun⟩

/-- The first buffer is used again before the batch is full. -/
def bufferReused : List Label :=
  setup ++ (batchOf 0).take 5 ++ .store 64 1 :: (batchOf 0).drop 5

/-- The kernel executes the second write of the batch before the first. -/
def secondWriteFirst : List Label :=
  setup ++ .store 64 1 :: batchCalls 0 ++
    .execute 2 8 :: kernelTurn 0 ++ kernelTurn 1 ++
    (List.range 46).flatMap (fun k => kernelTurn (3 + k)) ++ List.replicate 52 .tick

/-- Neither half of the condition can be left out. -/
theorem batches_change_bytes :
    (∃ w, RunsUnder (system batchProcess)
      (fun w l => StartsFirst w l ∧ InOrder w l ∧ Succeeds w l) w ∧ ¬ SameBytes w) ∧
    ∃ w, RunsUnder (system batchProcess)
      (fun w l => StartsFirst w l ∧ BuffersKept w l ∧ Succeeds w l) w ∧
        ¬ SameBytes w := by
  have hdiffer : ∀ w : World, (w.frame.isNone, w.global,
      decide (w.disk.content 3 = plainContent 3 w.calls)) = (true, 0, false) →
        ¬ SameBytes w := by
    intro w hend hsame
    simp only [Prod.mk.injEq, Option.isNone_iff_eq_none, decide_eq_false_iff_not] at hend
    exact hend.2.2 (hsame hend.1 hend.2.1 3)
  constructor
  · have halong : Along (system batchProcess)
        (fun w l => StartsFirst w l ∧ InOrder w l ∧ Succeeds w l)
        freshWorld bufferReused := by decide +kernel
    have hrun : (Transition.exec (system batchProcess) freshWorld bufferReused).map
        (fun w => (w.frame.isNone, w.global,
          decide (w.disk.content 3 = plainContent 3 w.calls))) =
          some (true, 0, false) := by decide +kernel
    obtain ⟨w, hw, hend⟩ := Option.map_eq_some_iff.mp hrun
    exact ⟨w, .exec _ (.start attached_freshWorld) halong hw, hdiffer w hend⟩
  · have halong : Along (system batchProcess)
        (fun w l => StartsFirst w l ∧ BuffersKept w l ∧ Succeeds w l)
        freshWorld secondWriteFirst := by decide +kernel
    have hrun : (Transition.exec (system batchProcess) freshWorld secondWriteFirst).map
        (fun w => (w.frame.isNone, w.global,
          decide (w.disk.content 3 = plainContent 3 w.calls))) =
          some (true, 0, false) := by decide +kernel
    obtain ⟨w, hw, hend⟩ := Option.map_eq_some_iff.mp hrun
    exact ⟨w, .exec _ (.start attached_freshWorld) halong hw, hdiffer w hend⟩

end BpftimeBenchmark.Redis
