import BpftimeBenchmark.Redis.BatchOrder

/-!
`poc-iouring-minimal`: the five-byte writes and the fsync calls of its test
program are batched as in `batch_process`, and a write of any other size goes on
to libc at once. Such a write overtakes what is queued for its file.
-/

namespace BpftimeBenchmark.Redis

open Uring Transition

def pocWrite (currentCount : Int) (fd : Fd) (buf n : Nat) : List Stmt :=
  if n = 5 then batched currentCount (.ioUringSubmitWrite fd buf n) 5 else []

def pocFsync (currentCount : Int) (fd : Fd) : List Stmt :=
  batched currentCount (.ioUringSubmitFsync fd) 0

def pocHook (currentCount : Int) : Call → List Stmt
  | .start => [.ioUringInitGlobal]
  | .io (.write fd buf n) => pocWrite currentCount fd buf n
  | .io (.fsync fd) => pocFsync currentCount fd

/-- The handler takes the operation over. -/
def Op.isTaken : Op → Bool
  | .write _ _ n => n = 5
  | .fsync _ => true

theorem pocHook_io (currentCount : Int) (op : Op) :
    pocHook currentCount (.io op) =
      if op.isTaken then batched currentCount op.queue op.full else [] := by
  cases op with
  | fsync fd => rfl
  | write fd buf n =>
      simp only [pocHook, pocWrite, Op.isTaken, decide_eq_true_eq]
      split
      · rename_i h
        rw [h]
        rfl
      · rfl

theorem mem_pocHook {g : Int} {op : Op} {s : Stmt} (h : s ∈ pocHook g (.io op)) :
    s = op.queue ∨ s.op = none ∧ s ≠ .ioUringInitGlobal := by
  rw [pocHook_io] at h
  split at h
  · exact mem_batched h
  · cases h

def pocIouringMinimal : Program where
  hook := pocHook
  own g call s op hs hop := by
    cases call with
    | start =>
        obtain rfl := List.mem_singleton.mp hs
        cases hop
    | io o =>
        rcases mem_pocHook hs with rfl | ⟨hnone, -⟩
        · rw [queue_op] at hop
          rw [Option.some.inj hop]
        · rw [hnone] at hop
          cases hop
  setup g call hs := by
    cases call with
    | start => rfl
    | io o =>
        rcases mem_pocHook hs with h | ⟨-, hne⟩
        · cases o <;> cases h
        · exact absurd rfl hne
  setupOnly g s hs := by
    obtain rfl := List.mem_singleton.mp hs
    rfl

/-- What has reached a file is the beginning of what the calls asked for. -/
def InCallOrder (w : World) : Prop :=
  ∀ fd, w.disk.content fd <+: plainContent fd w.calls

/-- No write that the handler passes on finds one to its file in the queue. -/
def NoOvertaking (w : World) : Label → Prop
  | .call (.io (.write fd _ n)) =>
      n ≠ 5 → n ≠ 0 → ∀ e ∈ w.ring.queued, e.val.writesTo ≠ some fd
  | _ => True

instance (w : World) : ∀ l, Decidable (NoOvertaking w l)
  | .call (.io (.write fd _ n)) => inferInstanceAs (Decidable
      (n ≠ 5 → n ≠ 0 → ∀ e ∈ w.ring.queued, e.val.writesTo ≠ some fd))
  | .call (.io (.fsync _)) | .call .start | .tick | .execute _ _ | .begin _ | .finish _ _
  | .store _ _ => isTrue trivial

/-- The bytes of a call that has been passed on and has not returned. -/
def World.passing (w : World) (fd : Fd) : List UInt8 :=
  match w.frame with
  | some ⟨.io op, [], none⟩ => op.bytesTo w.mem fd
  | _ => []

/-- The counter counts the queue, and the running handler will leave it so. -/
def Batching (w : World) : Prop :=
  ∃ c : Nat, w.settles 49 = some ((c : Int), ⟨c, 0⟩) ∧ c < 49 ∧ c ≤ w.calls.length

/-- A call is taken over, or passed on to a file to which nothing is owed. -/
def Frame.Routed (w : World) (f : Frame) : Prop :=
  f.Overrides ∨ f.result = none ∧ f.code = [] ∧
    ∀ fd, w.passing fd = [] ∨ w.owed fd = []

structure PassInv (w : World) : Prop where
  accounted : Accounted w
  batching : Batching w
  routed : ∀ f ∈ w.frame, ∀ op, f.call = .io op → f.Routed w
  content : ∀ fd, w.disk.content fd ++ w.owed fd ++ w.passing fd = plainContent fd w.calls

variable {P : Program} {w t : World} {l : Label} {fd : Fd}

theorem settles_of_code (slots : Nat) (h : w.code = []) :
    w.settles slots = some (w.global, w.ring.tally) := by
  rw [World.settles, h]
  rfl

theorem Batching.quiet (h : Batching w) (hcode : w.code = []) : w.ring.outstanding = 0 := by
  obtain ⟨c, hsettles, -, -⟩ := h
  rw [settles_of_code 49 hcode] at hsettles
  exact congrArg (fun r => r.2.outstanding) (Option.some.inj hsettles)

theorem code_of_idle (h : w.frame = none) : w.code = [] := by
  rw [World.code, h]

theorem passing_idle (h : w.frame = none) : w.passing fd = [] := by
  rw [World.passing, h]

theorem passing_of_overrides
    (h : ∀ f ∈ w.frame, ∀ op, f.call = .io op → f.Overrides) : w.passing fd = [] := by
  unfold World.passing
  split
  · rename_i op hframe
    rcases h _ hframe op rfl with hresult | ⟨v, hv⟩
    · exact absurd rfl hresult
    · cases hv
  · rfl

theorem passInv_attached (h : Attached w) : PassInv w where
  accounted := accounted_attached h
  batching := by
    refine ⟨0, ?_, by omega, by omega⟩
    rw [settles_idle 49 h.frame, h.global, h.ring]
    rfl
  routed := by
    intro f hf
    rw [h.frame] at hf
    cases hf
  content := by
    intro fd
    rw [passing_idle h.frame, List.append_nil]
    exact (orderInv_attached h).content fd

/-- A new call is queued, completes its batch or leaves the ring alone. -/
theorem batching_call {call : Call} (h : Batching w) (hidle : w.frame = none) :
    Batching (w.call pocIouringMinimal call) := by
  obtain ⟨c, hsettles, hc, hcount⟩ := h
  have hmore : c ≤ (w.call pocIouringMinimal call).calls.length := by
    simp only [World.call, List.length_append]
    omega
  have hsame : (pocHook w.global call).filterMap Stmt.command = [] →
      finalGlobal w.global (pocHook w.global call) = w.global →
      (w.call pocIouringMinimal call).settles 49 = some ((c : Int), ⟨c, 0⟩) := by
    intro hcommands hfinal
    have hnext : (w.call pocIouringMinimal call).settles 49 =
        (w.ring.tally.run 49 ((pocHook w.global call).filterMap Stmt.command)).map
          (fun n => (finalGlobal w.global (pocHook w.global call), n)) := rfl
    rw [hnext, hcommands, hfinal, ← hsettles, settles_idle 49 hidle]
    rfl
  cases call with
  | start => exact ⟨c, hsame rfl rfl, hc, hmore⟩
  | io op =>
      by_cases htaken : op.isTaken
      · rw [settles_idle 49 hidle] at hsettles
        obtain ⟨hglobal, htally⟩ := Prod.mk.inj (Option.some.inj hsettles)
        have hnext : (w.call pocIouringMinimal (.io op)).settles 49 =
            if c < 48 then some (((c + 1 : Nat) : Int), ⟨c + 1, 0⟩)
            else some (0, ⟨0, 0⟩) := by
          have hhook : pocHook w.global (.io op) = batched w.global op.queue op.full := by
            rw [pocHook_io, if_pos htaken]
          rw [← settles_batched hc op op.full, ← hglobal, ← htally, ← hhook]
          rfl
        by_cases hfew : c < 48
        · rw [if_pos hfew] at hnext
          refine ⟨c + 1, hnext, by omega, ?_⟩
          simp only [World.call, Call.issued, List.length_append, List.length_singleton]
          omega
        · rw [if_neg hfew] at hnext
          exact ⟨0, hnext, by omega, by omega⟩
      · have hpass : pocHook w.global (.io op) = [] := by
          rw [pocHook_io, if_neg htaken]
        refine ⟨c, hsame ?_ ?_, hc, hmore⟩ <;> rw [hpass] <;> rfl

theorem batching_step (hi : Accounted w) (h : Batching w)
    (hstep : step pocIouringMinimal w l = some t) : Batching t := by
  rcases call_or_between hstep with ⟨call, rfl, hidle, rfl⟩ | hbetween
  · exact batching_call h hidle
  · obtain ⟨c, hsettles, hc, hcount⟩ := h
    refine ⟨c, settles_step hi ?_ hsettles hbetween hstep, hc, ?_⟩
    · intro hempty
      rw [hempty, List.length_nil] at hcount
      rw [Nat.le_zero.mp hcount]
    · rw [calls_of_not_call hbetween hstep]
      exact hcount

/-- A call that is passed on finds nothing of its file in the ring. -/
theorem owed_of_noOvertaking {buf n : Nat} (hi : PassInv w) (hidle : w.frame = none)
    (hok : NoOvertaking w (.call (.io (.write fd buf n)))) (hfive : n ≠ 5) (hzero : n ≠ 0) :
    w.owed fd = [] := by
  have hcode := code_of_idle hidle
  have hsubmitted := Ring.submitted_of_quiet (hi.batching.quiet hcode)
  rw [World.owed, hcode, hsubmitted]
  simp only [List.nil_append, List.flatMap_nil, List.append_nil]
  apply List.flatMap_eq_nil_iff.mpr
  intro e he
  have hother := hok hfive hzero e he
  cases hop : e.val with
  | fsync fd' => rfl
  | write fd' buf' n' =>
      rw [hop] at hother
      exact if_neg (fun h => hother (by rw [h]; rfl))

theorem routed_call {op : Op} (hi : PassInv w) (hidle : w.frame = none)
    (hok : NoOvertaking w (.call (.io op))) :
    Frame.Routed (w.call pocIouringMinimal (.io op))
      ⟨.io op, pocHook w.global (.io op), none⟩ := by
  by_cases htaken : op.isTaken
  · refine Or.inl (Or.inr ⟨op.full, ?_⟩)
    rw [pocHook_io, if_pos htaken]
    exact override_mem_batched _ _ _
  · have hpass : pocIouringMinimal.hook w.global (.io op) = [] := by
      show pocHook w.global (.io op) = []
      rw [pocHook_io, if_neg htaken]
    refine Or.inr ⟨rfl, hpass, ?_⟩
    intro fd
    have hpassing : (w.call pocIouringMinimal (.io op)).passing fd = op.bytesTo w.mem fd := by
      rw [World.passing, World.call, hpass]
    rw [hpassing, call_owed hidle, hpass, List.flatMap_nil, List.append_nil]
    cases op with
    | fsync fd' => exact absurd rfl htaken
    | write fd' buf n =>
        by_cases hfd : fd' = fd
        · subst hfd
          by_cases hzero : n = 0
          · subst hzero
            exact Or.inl (by simp [Op.bytesTo, Memory.read])
          · refine Or.inr (owed_of_noOvertaking hi hidle hok ?_ hzero)
            intro hfive
            exact htaken (by simp [Op.isTaken, hfive])
        · exact Or.inl (if_neg hfd)

theorem pass_content_call {call : Call} (hi : PassInv w) (hidle : w.frame = none) :
    (w.call pocIouringMinimal call).disk.content fd ++
        (w.call pocIouringMinimal call).owed fd ++
        (w.call pocIouringMinimal call).passing fd =
      plainContent fd (w.call pocIouringMinimal call).calls := by
  have hcontent := hi.content fd
  rw [passing_idle hidle, List.append_nil] at hcontent
  have hdisk : (w.call pocIouringMinimal call).disk = w.disk := rfl
  rw [hdisk, call_owed hidle]
  cases call with
  | start =>
      obtain ⟨howed, hplain⟩ := @content_start pocIouringMinimal _ fd hidle rfl
      rw [call_owed hidle] at howed
      have hpassing : (w.call pocIouringMinimal .start).passing fd = [] := rfl
      rw [howed, hplain, hpassing, List.append_nil]
      exact hcontent
  | io op =>
      have hhook : pocIouringMinimal.hook w.global (.io op) =
          if op.isTaken then batched w.global op.queue op.full else [] := pocHook_io w.global op
      rw [call_plainContent, ← hcontent]
      by_cases htaken : op.isTaken
      · rw [if_pos htaken] at hhook
        have hpassing : (w.call pocIouringMinimal (.io op)).passing fd = [] := by
          apply passing_of_overrides
          rintro f ⟨rfl⟩ o -
          refine Or.inr ⟨op.full, ?_⟩
          rw [hhook]
          exact override_mem_batched _ _ _
        rw [hhook, batched_bytesTo, hpassing]
        simp only [List.append_assoc, List.append_nil]
      · rw [if_neg htaken] at hhook
        have hpassing : (w.call pocIouringMinimal (.io op)).passing fd =
            op.bytesTo w.mem fd := by
          rw [World.passing, World.call, hhook]
        rw [hhook, hpassing, List.flatMap_nil, List.append_nil]

theorem native_content (op : Op) :
    (w.native op).content fd = w.disk.content fd ++ op.bytesTo w.mem fd := by
  cases op with
  | fsync fd' =>
      rw [World.native, sync_content]
      simp [Op.bytesTo]
  | write fd' buf n =>
      have hnonneg : ¬ (n : Int) < 0 := by omega
      have htake : (w.mem.read buf n).take ((n : Int)).toNat = w.mem.read buf n := by
        rw [Int.toNat_natCast]
        exact List.take_of_length_le (by simp [Memory.read])
      simp only [World.native, Disk.append, if_neg hnonneg, htake, Op.bytesTo]
      by_cases hfd : fd' = fd
      · subst hfd
        rw [Function.update_self, if_pos rfl]
      · rw [Function.update_of_ne (Ne.symm hfd), if_neg hfd, List.append_nil]

/-- A call that was passed on puts its bytes where those of its file belong. -/
theorem pass_content_return {f : Frame} (hi : PassInv w) (hframe : w.frame = some f)
    (hcode : f.code = []) :
    (w.return f).disk.content fd ++ (w.return f).owed fd ++ (w.return f).passing fd =
      plainContent fd (w.return f).calls := by
  have hcontent := hi.content fd
  rw [return_disk, return_owed hframe hcode, passing_idle (return_frame f), return_calls,
    List.append_nil]
  rcases f with ⟨call, code, result⟩
  obtain rfl : code = [] := hcode
  cases call with
  | start =>
      have hpassing : w.passing fd = [] := by rw [World.passing, hframe]
      rw [hpassing, List.append_nil] at hcontent
      exact hcontent
  | io op =>
      cases result with
      | some v =>
          have hpassing : w.passing fd = [] := by rw [World.passing, hframe]
          rw [hpassing, List.append_nil] at hcontent
          exact hcontent
      | none =>
          have hpassing : w.passing fd = op.bytesTo w.mem fd := by
            rw [World.passing, hframe]
          rcases hi.routed _ hframe op rfl with (hresult | ⟨v, hv⟩) | ⟨-, -, hfree⟩
          · exact absurd rfl hresult
          · cases hv
          · show (w.native op).content fd ++ w.owed fd = plainContent fd w.calls
            rw [native_content, ← hpassing, ← hcontent]
            rcases hfree fd with hnone | hnone <;> rw [hnone] <;> simp

theorem passing_congr (hframe : t.frame = w.frame) (hmem : t.mem = w.mem) :
    t.passing fd = w.passing fd := by
  rw [World.passing, World.passing, hframe, hmem]

/-- Only a call that is taken over has statements to execute. -/
theorem overrides_of_code {f : Frame} {s : Stmt} {rest : List Stmt} (hi : PassInv w)
    (hframe : w.frame = some f) (hcode : f.code = s :: rest) :
    ∀ op, f.call = .io op → f.Overrides := by
  intro op hop
  rcases hi.routed f hframe op hop with hoverrides | ⟨-, hnil, -⟩
  · exact hoverrides
  · rw [hcode] at hnil
    cases hnil

theorem overrides_of_stmt {f : Frame} {s : Stmt} {rest : List Stmt} (hi : PassInv w)
    (hframe : w.frame = some f) (hcode : f.code = s :: rest)
    (hexec : ExecResult w { f with code := rest } s t) :
    ∀ g ∈ t.frame, ∀ op, g.call = .io op → g.Overrides := by
  intro g hg op hop
  obtain ⟨v, hv⟩ := exec_frame hexec
  obtain rfl := Option.some.inj (hv.symm.trans hg)
  exact overrides_stmt (overrides_of_code hi hframe hcode op hop) hcode hexec _ hg

/-- While a call is passed on the ring is at rest, so the kernel leaves what is
owed to each file as it is. -/
theorem routed_kernel (hi : PassInv w) (hframe : t.frame = w.frame) (hmem : t.mem = w.mem)
    (hcode : w.code = [] → ∀ fd, t.owed fd = w.owed fd) :
    ∀ f ∈ t.frame, ∀ op, f.call = .io op → f.Routed t := by
  intro f hf op hop
  rw [hframe] at hf
  rcases hi.routed f hf op hop with hoverrides | ⟨hresult, hnil, hfree⟩
  · exact Or.inl hoverrides
  · refine Or.inr ⟨hresult, hnil, ?_⟩
    intro fd
    rw [passing_congr hframe hmem, hcode ((code_of_frame hf).trans hnil)]
    exact hfree fd

theorem not_submitted_of_code {i : Nat} {e : Slot Op} (hi : PassInv w)
    (hentry : w.ring.submitted[i]? = some e) : w.code ≠ [] := by
  intro hcode
  rw [Ring.submitted_of_quiet (hi.batching.quiet hcode)] at hentry
  cases hentry

theorem routed_step (hi : PassInv w) (hok : NoOvertaking w l)
    (hstep : step pocIouringMinimal w l = some t) :
    ∀ f ∈ t.frame, ∀ op, f.call = .io op → f.Routed t := by
  cases stepResult_of_step hstep with
  | call hidle =>
      rintro f ⟨rfl⟩ op rfl
      exact routed_call hi hidle hok
  | stmt hframe hcode hexec =>
      intro g hg op hop
      exact Or.inl (overrides_of_stmt hi hframe hcode hexec g hg op hop)
  | @ret f hframe hcode =>
      rw [return_frame]
      rintro g ⟨⟩
  | execute hentry hop hres =>
      exact routed_kernel hi rfl rfl
        (fun hcode => absurd hcode (not_submitted_of_code hi hentry))
  | begin hentry hop =>
      exact routed_kernel hi rfl rfl
        (fun hcode => absurd hcode (not_submitted_of_code hi hentry))
  | finish => exact routed_kernel hi rfl rfl (fun _ _ => rfl)
  | store hidle =>
      intro f hf
      rw [hidle] at hf
      cases hf

theorem pass_content_step (hi : PassInv w)
    (hok : BuffersKept w l ∧ InOrder w l ∧ InFull w l)
    (hstep : step pocIouringMinimal w l = some t) :
    t.disk.content fd ++ t.owed fd ++ t.passing fd = plainContent fd t.calls := by
  have hcontent := hi.content fd
  have hquiet : w.frame = none → w.ring.outstanding = 0 :=
    fun hidle => hi.batching.quiet (code_of_idle hidle)
  cases stepResult_of_step hstep with
  | call hidle => exact pass_content_call hi hidle
  | @stmt f s rest _ hframe hcode hexec =>
      have hpassing : w.passing fd = [] := by
        apply passing_of_overrides
        intro g hg
        obtain rfl := Option.some.inj (hframe.symm.trans hg)
        exact overrides_of_code hi hframe hcode
      rw [content_stmt hi.accounted hframe hcode hexec, exec_calls hexec, ← hcontent,
        hpassing, passing_of_overrides (overrides_of_stmt hi hframe hcode hexec)]
  | ret hframe hcode => exact pass_content_return hi hframe hcode
  | execute | begin | finish =>
      rw [content_kernel hquiet hok (by simp) (by simp) hstep, passing_congr rfl rfl]
      exact hcontent
  | store hidle =>
      rw [content_kernel hquiet hok (by simp) (by simp) hstep, ← hcontent, passing_idle hidle]
      exact congrArg (w.disk.content fd ++ w.owed fd ++ ·) (passing_idle hidle)

theorem passInv_step (hi : PassInv w)
    (hok : StartsFirst w l ∧ BuffersKept w l ∧ InOrder w l ∧ InFull w l ∧ NoOvertaking w l)
    (hstep : step pocIouringMinimal w l = some t) : PassInv t where
  accounted := accounted_step hi.accounted hok.1 hstep
  batching := batching_step hi.accounted hi.batching hstep
  routed := routed_step hi hok.2.2.2.2 hstep
  content _ := pass_content_step hi ⟨hok.2.1, hok.2.2.1, hok.2.2.2.1⟩ hstep

/-- As long as no write is passed on past a queued one to its file, every file
grows in the order of the calls. -/
theorem inCallOrder_of_noOvertaking
    (h : RunsUnder (system pocIouringMinimal)
      (fun w l => StartsFirst w l ∧ BuffersKept w l ∧ InOrder w l ∧ InFull w l ∧
        NoOvertaking w l) w) :
    InCallOrder w := by
  have hinv : PassInv w := h.invariant (fun _ hstart => passInv_attached hstart)
    (fun _ _ _ hi hok hstep => passInv_step hi hok hstep)
  intro fd
  rw [← hinv.content fd, List.append_assoc]
  exact List.prefix_append _ _

/-- Five bytes are queued for one file, three go to another at once, 48 fsyncs
complete the batch, and two bytes follow the five. -/
def mixedSizes : List Label :=
  setup ++ .store 64 1 :: .call (.io (.write 3 64 5)) :: List.replicate 4 .tick ++
    [.call (.io (.write 4 80 3)), .tick] ++
    (List.range 47).flatMap (fun _ => .call (.io (.fsync 3)) :: List.replicate 4 .tick) ++
    .call (.io (.fsync 3)) :: List.replicate 3 .tick ++
    .execute 0 5 :: (List.range 48).flatMap (fun _ => [.begin 0, .finish 0 0]) ++
    List.replicate 52 .tick ++ [.call (.io (.write 3 64 2)), .tick]

theorem inCallOrder_of_noOvertaking_mixedSizes :
    ∃ w, (w.disk.content 3, w.disk.content 4) = ([1, 0, 0, 0, 0, 1, 0], [0, 0, 0]) ∧
      InCallOrder w := by
  have halong : Along (system pocIouringMinimal)
      (fun w l => StartsFirst w l ∧ BuffersKept w l ∧ InOrder w l ∧ InFull w l ∧
        NoOvertaking w l) freshWorld mixedSizes := by decide +kernel
  have hrun : (Transition.exec (system pocIouringMinimal) freshWorld mixedSizes).map
      (fun w => (w.disk.content 3, w.disk.content 4)) =
        some ([1, 0, 0, 0, 0, 1, 0], [0, 0, 0]) := by decide +kernel
  obtain ⟨w, hw, hend⟩ := Option.map_eq_some_iff.mp hrun
  exact ⟨w, hend, inCallOrder_of_noOvertaking
    (.exec _ (.start attached_freshWorld) halong hw)⟩

/-- Five bytes are queued, and three for the same file go on to the kernel. -/
def shortWriteOvertakes : List Label :=
  setup ++ .store 64 1 :: .call (.io (.write 3 64 5)) :: List.replicate 4 .tick ++
    [.call (.io (.write 3 80 3)), .tick]

/-- Without that condition a file can hold a later write and lack an earlier one. -/
theorem writes_overtake :
    ∃ w, RunsUnder (system pocIouringMinimal)
      (fun w l => StartsFirst w l ∧ BuffersKept w l ∧ InOrder w l ∧ InFull w l) w ∧
      ¬ InCallOrder w := by
  have halong : Along (system pocIouringMinimal)
      (fun w l => StartsFirst w l ∧ BuffersKept w l ∧ InOrder w l ∧ InFull w l)
      freshWorld shortWriteOvertakes := by decide +kernel
  have hrun : (Transition.exec (system pocIouringMinimal) freshWorld
      shortWriteOvertakes).map
      (fun w => decide (w.disk.content 3 <+: plainContent 3 w.calls)) = some false := by
    decide +kernel
  obtain ⟨w, hw, hend⟩ := Option.map_eq_some_iff.mp hrun
  refine ⟨w, .exec _ (.start attached_freshWorld) halong hw, ?_⟩
  intro horder
  exact of_decide_eq_false hend (horder 3)

end BpftimeBenchmark.Redis
