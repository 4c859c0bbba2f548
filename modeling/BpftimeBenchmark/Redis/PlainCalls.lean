import BpftimeBenchmark.Redis.FastNotify
import BpftimeBenchmark.Redis.Progress

/-!
With one caller `fsync-fast-notify` is plain `write(2)` and `fdatasync(2)`. Each
handler passes its operation through the ring by itself, so between calls the
ring is empty and the disk is that of a machine that executes every call at
once.
-/

namespace BpftimeBenchmark.Redis

open Uring Transition

/-- The disk and what the calls so far have returned. -/
structure Plain where
  disk : Disk
  returns : List Int

/-- The system call itself, as the kernel executes it at once and with success. -/
def Plain.exec (p : Plain) (c : Issued) : Plain where
  disk :=
    match c.op with
    | .write fd _ n => p.disk.append p.returns.length fd c.bytes n
    | .fsync fd => p.disk.sync p.returns.length (p.disk.writtenTo fd) 0
  returns := p.returns ++ [c.op.full]

/-- The calls one after another, on files to which nothing has been appended. -/
def plainRun (calls : List Issued) : Plain :=
  calls.foldl Plain.exec ⟨⟨fun _ => [], [], [], []⟩, []⟩

theorem plainRun_concat (before : List Issued) (c : Issued) :
    plainRun (before ++ [c]) = (plainRun before).exec c := by
  simp [plainRun]

theorem foldl_exec_returns (p : Plain) (calls : List Issued) :
    (calls.foldl Plain.exec p).returns.length = p.returns.length + calls.length := by
  induction calls generalizing p with
  | nil => rfl
  | cons c rest ih =>
      rw [List.foldl_cons, ih]
      simp only [Plain.exec, List.length_append, List.length_cons, List.length_nil]
      omega

theorem plainRun_returns (calls : List Issued) :
    (plainRun calls).returns.length = calls.length := by
  rw [plainRun, foldl_exec_returns]
  simp

/-- A wait finds at most the completion of its own operation, which is on its
way. When no call is handled the ring is empty, and the world is where plain
calls would have brought it. -/
structure PlainCalls (w : World) : Prop where
  own : w.code.head? = some .ioUringWaitAndSeen →
    w.ring.outstanding = 1 ∧ ∀ c ∈ w.ring.completed, c.id + 1 = w.calls.length
  empty : w.frame = none → w.ring.queued = [] ∧ w.ring.outstanding = 0
  disk : w.frame = none → w.disk = (plainRun w.calls).disk
  returns : w.frame = none → w.returns = (plainRun w.calls).returns
  unblocked : Unblocked fsyncFastNotify w

variable {w t : World} {l : Label}

/-- How far the operation of the handled call has come. -/
inductive Stage (w : World) (before : Plain) (c : Issued) :
    List Stmt → Option Int → Prop where
  | called {queue : Stmt} (hqueue : queue.op = some c.op) (hring : w.ring = .empty)
      (hdisk : w.disk = before.disk) :
      Stage w before c
        [queue, .ioUringSubmit, .ioUringWaitAndSeen, .bpfOverrideReturn c.op.full] none
  | queued (hring : w.ring = ⟨[w.entry c.op], [], [], []⟩) (hdisk : w.disk = before.disk) :
      Stage w before c
        [.ioUringSubmit, .ioUringWaitAndSeen, .bpfOverrideReturn c.op.full] none
  | submitted (hring : w.ring = ⟨[], [w.entry c.op], [], []⟩)
      (hdisk : w.disk = before.disk) :
      Stage w before c [.ioUringWaitAndSeen, .bpfOverrideReturn c.op.full] none
  | running {fd : Fd} (hop : c.op = .fsync fd)
      (hring : w.ring =
        ⟨[], [], [⟨w.calls.length - 1, fd, before.disk.writtenTo fd⟩], []⟩)
      (hdisk : w.disk = before.disk) :
      Stage w before c [.ioUringWaitAndSeen, .bpfOverrideReturn c.op.full] none
  | completed {res : Int} (hring : w.ring = ⟨[], [], [], [⟨w.calls.length - 1, res⟩]⟩)
      (hdisk : w.disk = (before.exec c).disk) :
      Stage w before c [.ioUringWaitAndSeen, .bpfOverrideReturn c.op.full] none
  | reaped (hring : w.ring = .empty) (hdisk : w.disk = (before.exec c).disk) :
      Stage w before c [.bpfOverrideReturn c.op.full] none
  | overridden (hring : w.ring = .empty) (hdisk : w.disk = (before.exec c).disk) :
      Stage w before c [] (some c.op.full)

/-- The invariant: every call but the one that is handled has been executed at
once. -/
inductive OneAtATime (w : World) : Prop where
  | idle (hframe : w.frame = none) (hring : w.ring = .empty)
      (hplain : plainRun w.calls = ⟨w.disk, w.returns⟩)
  | start {f : Frame} (hframe : w.frame = some f) (hcall : f.call = .start)
      (hcode : ∀ s ∈ f.code, s = .ioUringInitGlobal) (hring : w.ring = .empty)
      (hplain : plainRun w.calls = ⟨w.disk, w.returns⟩)
  | io {f : Frame} {before : List Issued} {op : Op} (hframe : w.frame = some f)
      (hcall : f.call = .io op) (hcalls : w.calls = before ++ [⟨op, op.bytes w.mem⟩])
      (hreturns : w.returns = (plainRun before).returns)
      (hstage : Stage w (plainRun before) ⟨op, op.bytes w.mem⟩ f.code f.result)

variable {before : Plain} {c : Issued} {code : List Stmt} {result : Option Int}

theorem stage_stmt {f : Frame} {s : Stmt} {rest : List Stmt}
    (hstage : Stage w before c f.code f.result) (hcode : f.code = s :: rest)
    (hexec : ExecResult w { f with code := rest } s t) :
    ∃ g, t.frame = some g ∧ g.call = f.call ∧ Stage t before c g.code g.result := by
  rcases f with ⟨call, code, result⟩
  have hcode : code = s :: rest := hcode
  subst hcode
  cases hstage with
  | called hqueue hring hdisk =>
      cases hexec with
      | @queue _ op hop =>
          obtain rfl := Option.some.inj (hqueue.symm.trans hop)
          refine ⟨_, rfl, rfl, .queued ?_ hdisk⟩
          simp only [Ring.prepare, hring, Ring.empty, List.nil_append]
          rfl
      | init | submit | seen _ | assign | override => cases hqueue
  | queued hring hdisk =>
      cases hexec with
      | submit =>
          refine ⟨_, rfl, rfl, .submitted ?_ hdisk⟩
          simp only [Ring.submit, hring, List.nil_append]
          rfl
      | queue hop => cases hop
  | submitted hring hdisk | running _ hring hdisk =>
      cases hexec with
      | seen hseen => simp [Ring.seen, hring] at hseen
      | queue hop => cases hop
  | completed hring hdisk =>
      cases hexec with
      | seen hseen =>
          refine ⟨_, rfl, rfl, .reaped ?_ hdisk⟩
          rw [Ring.seen, hring] at hseen
          exact (Option.some.inj hseen).symm
      | queue hop => cases hop
  | reaped hring hdisk =>
      cases hexec with
      | override => exact ⟨_, rfl, rfl, .overridden hring hdisk⟩
      | queue hop => cases hop

/-- The kernel finds the operation of the handled call, and no other. -/
theorem Stage.of_submitted {i : Nat} {e : Slot Op} (h : Stage w before c code result)
    (hentry : w.ring.submitted[i]? = some e) :
    i = 0 ∧ e = w.entry c.op ∧ w.ring = ⟨[], [e], [], []⟩ ∧ w.disk = before.disk ∧
      code = [.ioUringWaitAndSeen, .bpfOverrideReturn c.op.full] ∧ result = none := by
  cases h with
  | submitted hring hdisk =>
      rw [hring] at hentry
      obtain ⟨rfl, rfl⟩ : i = 0 ∧ w.entry c.op = e := by
        simpa [List.getElem?_singleton] using hentry
      exact ⟨rfl, rfl, hring, hdisk, rfl, rfl⟩
  | called _ hring | queued hring | running _ hring | completed hring | reaped hring
  | overridden hring => simp [hring, Ring.empty] at hentry

theorem Stage.of_running {i : Nat} {s : Slot Sync} (h : Stage w before c code result)
    (hentry : w.ring.running[i]? = some s) :
    ∃ fd, c.op = .fsync fd ∧ i = 0 ∧
      s = ⟨w.calls.length - 1, fd, before.disk.writtenTo fd⟩ ∧
      w.ring = ⟨[], [], [s], []⟩ ∧ w.disk = before.disk ∧
      code = [.ioUringWaitAndSeen, .bpfOverrideReturn c.op.full] ∧ result = none := by
  cases h with
  | @running fd hop hring hdisk =>
      rw [hring] at hentry
      obtain ⟨rfl, rfl⟩ : i = 0 ∧
          (⟨w.calls.length - 1, fd, before.disk.writtenTo fd⟩ : Slot Sync) = s := by
        simpa [List.getElem?_singleton] using hentry
      exact ⟨fd, hop, rfl, rfl, hring, hdisk, rfl, rfl⟩
  | called _ hring | queued hring | submitted hring | completed hring | reaped hring
  | overridden hring => simp [hring, Ring.empty] at hentry

/-- A write that succeeds in full appends what the call was given. -/
theorem stage_execute {i : Nat} {e : Slot Op} {fd : Fd} {buf n : Nat}
    (h : Stage w before c code result) (hentry : w.ring.submitted[i]? = some e)
    (hop : e.val = .write fd buf n) (hid : w.calls.length - 1 = before.returns.length)
    (hbytes : c.bytes = c.op.bytes w.mem) :
    Stage (w.execute i e fd buf n n) before c code result := by
  obtain ⟨rfl, rfl, hring, hdisk, rfl, rfl⟩ := h.of_submitted hentry
  have hcop : c.op = .write fd buf n := hop
  have hposted : (w.execute 0 (w.entry c.op) fd buf n n).ring =
      ⟨[], [], [], [⟨w.calls.length - 1, n⟩]⟩ := by
    simp only [World.execute, Ring.execute, hring, List.eraseIdx_cons_zero,
      List.nil_append]
    rfl
  refine .completed hposted ?_
  rw [hcop] at hbytes
  simp only [World.execute, World.entry, Plain.exec, hcop, hbytes, hid, hdisk]
  rfl

theorem stage_begin {i : Nat} {e : Slot Op} {fd : Fd} (h : Stage w before c code result)
    (hentry : w.ring.submitted[i]? = some e) (hop : e.val = .fsync fd) :
    Stage (w.begin i e fd) before c code result := by
  obtain ⟨rfl, rfl, hring, hdisk, rfl, rfl⟩ := h.of_submitted hentry
  have hcop : c.op = .fsync fd := hop
  refine .running hcop ?_ hdisk
  simp only [World.begin, Ring.begin, hring, hdisk, List.eraseIdx_cons_zero,
    List.nil_append]
  rfl

/-- An fsync that succeeds makes durable what had been written to the file. -/
theorem stage_finish {i : Nat} {s : Slot Sync} (h : Stage w before c code result)
    (hentry : w.ring.running[i]? = some s)
    (hid : w.calls.length - 1 = before.returns.length) :
    Stage (w.finish i s 0) before c code result := by
  obtain ⟨fd, hcop, rfl, rfl, hring, hdisk, rfl, rfl⟩ := h.of_running hentry
  have hposted : (w.ring.finish 0 ⟨w.calls.length - 1, (0 : Int)⟩) =
      ⟨[], [], [], [⟨w.calls.length - 1, 0⟩]⟩ := by
    simp only [Ring.finish, hring, List.eraseIdx_cons_zero, List.nil_append]
  refine .completed hposted ?_
  simp only [World.finish, Plain.exec, hcop, hid, hdisk]

theorem oneAtATime_call {call : Call} (hring : w.ring = .empty)
    (hplain : plainRun w.calls = ⟨w.disk, w.returns⟩) :
    OneAtATime (w.call fsyncFastNotify call) := by
  cases call with
  | start =>
      have hcalls : (w.call fsyncFastNotify .start).calls = w.calls := List.append_nil _
      refine .start rfl rfl ?_ hring (hcalls ▸ hplain)
      intro s hs
      exact List.mem_singleton.mp hs
  | io op =>
      refine .io rfl rfl rfl (congrArg Plain.returns hplain).symm ?_
      have hdisk := (congrArg Plain.disk hplain).symm
      obtain ⟨queue, hqueue, hhook⟩ := fastHook_io op
      have hcode : fsyncFastNotify.hook w.global (.io op) = notified queue op.full := hhook
      simp only [World.call, hcode]
      exact .called hqueue hring hdisk

theorem oneAtATime_return {f : Frame} (h : OneAtATime w) (hframe : w.frame = some f)
    (hcode : f.code = []) : OneAtATime (w.return f) := by
  cases h with
  | idle hidle => simp [hidle] at hframe
  | @start f' hframe' hcall hinit hring hplain =>
      obtain rfl := Option.some.inj (hframe'.symm.trans hframe)
      have hreturn : w.return f' = { w with frame := none } := by
        rw [World.return, hcall]
      rw [hreturn]
      exact .idle rfl hring hplain
  | @io f' before op hframe' hcall hcalls hreturns hstage =>
      obtain rfl := Option.some.inj (hframe'.symm.trans hframe)
      rw [hcode] at hstage
      generalize hresult : f'.result = result at hstage
      cases hstage with
      | overridden hring hdisk =>
          have hreturn : w.return f' =
              { w with frame := none, returns := w.returns ++ [op.full] } := by
            rw [World.return, hcall, hresult]
          rw [hreturn]
          refine .idle rfl hring ?_
          rw [hcalls, plainRun_concat, hdisk, hreturns]
          rfl

theorem oneAtATime_step (h : OneAtATime w) (hok : Succeeds w l)
    (hstep : step fsyncFastNotify w l = some t) : OneAtATime t := by
  have hresult := stepResult_of_step hstep
  cases h with
  | idle hidle hring hplain =>
      cases hresult with
      | call => exact oneAtATime_call hring hplain
      | stmt hframe | ret hframe => simp [hidle] at hframe
      | execute hentry | begin hentry => simp [hring, Ring.empty] at hentry
      | finish hrunning => simp [hring, Ring.empty] at hrunning
      | store => exact .idle hidle hring hplain
  | @start f hframe hcall hinit hring hplain =>
      cases hresult with
      | call hidle | store hidle => simp [hidle] at hframe
      | @stmt f' s rest t hframe' hcode hexec =>
          obtain rfl := Option.some.inj (hframe'.symm.trans hframe)
          obtain rfl := hinit s (hcode ▸ List.mem_cons_self)
          cases hexec with
          | init =>
              refine .start rfl hcall ?_ rfl hplain
              exact fun s hs => hinit s (hcode ▸ List.mem_cons_of_mem _ hs)
          | queue hop => cases hop
      | ret hframe' hcode =>
          exact oneAtATime_return (.start hframe hcall hinit hring hplain) hframe' hcode
      | execute hentry | begin hentry => simp [hring, Ring.empty] at hentry
      | finish hrunning => simp [hring, Ring.empty] at hrunning
  | @io f before op hframe hcall hcalls hreturns hstage =>
      have hid : w.calls.length - 1 = (plainRun before).returns.length := by
        rw [plainRun_returns, hcalls]
        simp
      cases hresult with
      | call hidle | store hidle => simp [hidle] at hframe
      | @stmt f' s rest t hframe' hcode hexec =>
          obtain rfl := Option.some.inj (hframe'.symm.trans hframe)
          obtain ⟨g, hg, hgcall, hgstage⟩ := stage_stmt hstage hcode hexec
          have hmem : t.mem = w.mem := by
            cases hexec <;> rfl
          have hcalls : t.calls = before ++ [⟨op, op.bytes t.mem⟩] := by
            rw [exec_calls hexec, hmem, hcalls]
          refine .io hg (hgcall.trans hcall) hcalls ?_ ?_
          · rw [exec_returns hexec, hreturns]
          · rw [hmem]
            exact hgstage
      | ret hframe' hcode =>
          exact oneAtATime_return (.io hframe hcall hcalls hreturns hstage) hframe' hcode
      | @execute i res e fd buf n hentry hop hres =>
          have hfull : res = n := by
            rw [hok e hentry, hop]
            rfl
          subst hfull
          exact .io hframe hcall hcalls hreturns (stage_execute hstage hentry hop hid rfl)
      | begin hentry hop =>
          exact .io hframe hcall hcalls hreturns (stage_begin hstage hentry hop)
      | @finish i res s hrunning hres =>
          have hzero : res = 0 := hok
          subst hzero
          exact .io hframe hcall hcalls hreturns (stage_finish hstage hrunning hid)

theorem oneAtATime_attached (h : Attached w) : OneAtATime w := by
  refine .idle h.frame h.ring ?_
  rw [h.calls, h.returns]
  have hdisk : w.disk = ⟨fun _ => [], [], [], []⟩ := by
    rcases hd : w.disk with ⟨content, written, synced, durable⟩
    have hcontent := h.content
    have hwritten := h.written
    have hsynced := h.synced
    have hdurable := h.durable
    simp only [hd] at hcontent hwritten hsynced hdurable
    rw [hcontent, hwritten, hsynced, hdurable]
  rw [hdisk]
  rfl

theorem Stage.own (h : Stage w before c code result)
    (hnext : code.head? = some .ioUringWaitAndSeen) (hcalls : w.calls ≠ []) :
    w.ring.outstanding = 1 ∧ ∀ e ∈ w.ring.completed, e.id + 1 = w.calls.length := by
  have hlen : w.calls.length - 1 + 1 = w.calls.length := by
    have hpos := List.length_pos_iff.mpr hcalls
    omega
  cases h with
  | called hqueue =>
      obtain rfl := Option.some.inj hnext
      cases hqueue
  | queued | reaped | overridden => cases hnext
  | submitted hring | running _ hring =>
      rw [hring]
      exact ⟨rfl, by simp⟩
  | completed hring =>
      rw [hring]
      refine ⟨rfl, ?_⟩
      intro e he
      obtain rfl := List.mem_singleton.mp he
      exact hlen

theorem plainCalls_of_oneAtATime (h : OneAtATime w) : PlainCalls w := by
  have hown : w.code.head? = some .ioUringWaitAndSeen →
      w.ring.outstanding = 1 ∧ ∀ c ∈ w.ring.completed, c.id + 1 = w.calls.length := by
    intro hnext
    cases h with
    | idle hidle => simp [World.code, hidle] at hnext
    | @start f hframe hcall hinit =>
        rw [World.code, hframe] at hnext
        cases hinit _ (List.mem_of_mem_head? hnext)
    | @io f before op hframe hcall hcalls hreturns hstage =>
        rw [World.code, hframe] at hnext
        exact hstage.own hnext (by simp [hcalls])
  have hidle : w.frame = none →
      w.ring = .empty ∧ plainRun w.calls = ⟨w.disk, w.returns⟩ := by
    intro hnone
    cases h with
    | idle _ hring hplain => exact ⟨hring, hplain⟩
    | start hframe | io hframe => simp [hnone] at hframe
  constructor
  · exact hown
  · intro hnone
    rw [(hidle hnone).1]
    exact ⟨rfl, rfl⟩
  · intro hnone
    rw [(hidle hnone).2]
  · intro hnone
    rw [(hidle hnone).2]
  · exact unblocked_of_owed fun hnext => by
      have hone := (hown hnext).1
      omega

/-- In every run in which each submitted operation succeeds, the calls have
between them exactly the effects of `write(2)` and `fdatasync(2)`. -/
theorem plainCalls_of_run (h : RunsUnder (system fsyncFastNotify) Succeeds w) :
    PlainCalls w := by
  apply plainCalls_of_oneAtATime
  exact h.invariant (fun _ hstart => oneAtATime_attached hstart)
    (fun _ _ _ hi hok hstep => oneAtATime_step hi hok hstep)

/-- A write of eight bytes and an fsync, each at a pace of the kernel's own. -/
def writeThenSync : List Label :=
  [.call .start, .tick, .tick, .store 64 1, .call (.io (.write 3 64 8)), .tick, .tick,
    .execute 0 8, .tick, .tick, .tick, .call (.io (.fsync 3)), .tick, .tick, .begin 0,
    .finish 0 0, .tick, .tick, .tick]

theorem plainCalls_of_run_writeThenSync :
    ∃ w, w.returns = [8, 0] ∧ w.disk.durable = [0] ∧ PlainCalls w := by
  have hrun : (exec (system fsyncFastNotify) freshWorld writeThenSync).map
      (fun w => (w.returns, w.disk.durable)) = some ([8, 0], [0]) := by decide
  have halong : Along (system fsyncFastNotify) Succeeds freshWorld writeThenSync := by
    decide
  obtain ⟨w, hw, hend⟩ := Option.map_eq_some_iff.mp hrun
  obtain ⟨hreturns, hdurable⟩ := Prod.mk.inj hend
  exact ⟨w, hreturns, hdurable, plainCalls_of_run
    (.exec writeThenSync (.start attached_freshWorld) halong hw)⟩

end BpftimeBenchmark.Redis
