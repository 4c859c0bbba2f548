import BpftimeBenchmark.Redis.System

/-!
What holds of every durability program. Each entry of the ring is the operation
of the call whose number it carries, an operation is in the ring until it is
done, and an fsync that starts after certain writes have been executed makes
them durable when it completes.
-/

namespace BpftimeBenchmark.Redis

open Uring

variable {P : Program} {w t : World} {l : Label}

/-- The ring is set up before the first write or fsync. -/
def StartsFirst (w : World) : Label → Prop
  | .call .start => w.calls = []
  | _ => True

instance (w : World) : ∀ l, Decidable (StartsFirst w l)
  | .call .start => inferInstanceAs (Decidable (w.calls = []))
  | .call (.io _) | .tick | .execute _ _ | .begin _ | .finish _ _ | .store _ _ =>
      isTrue trivial

/-- The number of calls between their interception and their return. -/
def World.inCall (w : World) : Nat :=
  match w.frame with
  | some ⟨.io _, _, _⟩ => 1
  | _ => 0

structure Accounted (w : World) : Prop where
  entry : ∀ e, e ∈ w.ring.queued ∨ e ∈ w.ring.submitted →
    ∃ bytes, w.calls[e.id]? = some ⟨e.val, bytes⟩
  sync : ∀ s ∈ w.ring.running, ∃ bytes, w.calls[s.id]? = some ⟨.fsync s.val.fd, bytes⟩
  synced : ∀ i ∈ w.disk.synced, i < w.calls.length
  current : ∀ f ∈ w.frame, ∀ op, f.call = .io op →
    ∃ bytes, w.calls[w.calls.length - 1]? = some ⟨op, bytes⟩
  own : ∀ f ∈ w.frame, ∀ s ∈ f.code, ∀ op, s.op = some op → f.call = .io op
  setup : ∀ f ∈ w.frame, .ioUringInitGlobal ∈ f.code → f.call = .start
  start : ∀ f ∈ w.frame, f.call = .start → w.calls = []
  setupOnly : ∀ f ∈ w.frame, f.call = .start → ∀ s ∈ f.code, s.command = none
  returns : w.returns.length + w.inCall = w.calls.length

theorem accounted_attached (h : Attached w) : Accounted w := by
  constructor <;>
    simp [h.ring, h.synced, h.frame, Ring.empty, World.inCall, h.returns, h.calls]

theorem length_of_getElem? {δ : Type} {l : List δ} {i : Nat} {a : δ}
    (h : l[i]? = some a) : i < l.length :=
  (List.getElem?_eq_some_iff.mp h).1

theorem getElem?_of_extends {δ : Type} {l m : List δ} {i : Nat} {a : δ}
    (hpre : l <+: m) (h : l[i]? = some a) : m[i]? = some a := by
  obtain ⟨rest, rfl⟩ := hpre
  rw [List.getElem?_append_left (length_of_getElem? h)]
  exact h

theorem Accounted.lt_of_inFlight {i : Nat} (hi : Accounted w) (h : w.ring.InFlight i) :
    i < w.calls.length := by
  rcases h with ⟨e, he, rfl⟩ | ⟨e, he, rfl⟩ | ⟨s, hs, rfl⟩
  · obtain ⟨bytes, hc⟩ := hi.entry e (Or.inl he)
    exact length_of_getElem? hc
  · obtain ⟨bytes, hc⟩ := hi.entry e (Or.inr he)
    exact length_of_getElem? hc
  · obtain ⟨bytes, hc⟩ := hi.sync s hs
    exact length_of_getElem? hc

/-- What the kernel and the server's own stores leave alone. -/
theorem Accounted.of_same (hi : Accounted w) (hcalls : t.calls = w.calls)
    (hframe : t.frame = w.frame) (hreturns : t.returns = w.returns)
    (hentry : ∀ e, e ∈ t.ring.queued ∨ e ∈ t.ring.submitted →
      e ∈ w.ring.queued ∨ e ∈ w.ring.submitted)
    (hsync : ∀ s ∈ t.ring.running, ∃ bytes,
      w.calls[s.id]? = some ⟨.fsync s.val.fd, bytes⟩)
    (hsynced : ∀ i ∈ t.disk.synced, i < w.calls.length) : Accounted t := by
  constructor
  · intro e he
    rw [hcalls]
    exact hi.entry e (hentry e he)
  · rw [hcalls]
    exact hsync
  · rw [hcalls]
    exact hsynced
  · rw [hcalls, hframe]
    exact hi.current
  · rw [hframe]
    exact hi.own
  · rw [hframe]
    exact hi.setup
  · rw [hcalls, hframe]
    exact hi.start
  · rw [hframe]
    exact hi.setupOnly
  · rw [hreturns, World.inCall, hframe, hcalls]
    exact hi.returns

theorem synced_sync {d : Disk} {id i : Nat} {covers : List Nat} {res : Int}
    (h : i ∈ (d.sync id covers res).synced) : i ∈ d.synced ∨ i = id := by
  unfold Disk.sync at h
  split at h
  · exact Or.inl h
  · rcases List.mem_append.mp h with hold | hnew
    · exact Or.inl hold
    · exact Or.inr (List.mem_singleton.mp hnew)

theorem synced_append (d : Disk) (id : Nat) (fd : Fd) (bytes : List UInt8) (res : Int) :
    (d.append id fd bytes res).synced = d.synced := by
  unfold Disk.append
  split <;> rfl

theorem call_inCall {call : Call} (hidle : w.frame = none)
    (h : w.returns.length + w.inCall = w.calls.length) :
    (w.call P call).returns.length + (w.call P call).inCall =
      (w.call P call).calls.length := by
  simp only [World.inCall, hidle] at h
  cases call <;> simp [World.call, World.inCall, Call.issued, ← h]

theorem accounted_call {call : Call} (hi : Accounted w)
    (hstart : StartsFirst w (.call call)) (hidle : w.frame = none) :
    Accounted (w.call P call) := by
  have hpre : w.calls <+: (w.call P call).calls := List.prefix_append _ _
  constructor
  · intro e he
    obtain ⟨bytes, hbytes⟩ := hi.entry e he
    exact ⟨bytes, getElem?_of_extends hpre hbytes⟩
  · intro s hs
    obtain ⟨bytes, hbytes⟩ := hi.sync s hs
    exact ⟨bytes, getElem?_of_extends hpre hbytes⟩
  · intro i hsynced
    exact lt_of_lt_of_le (hi.synced i hsynced) hpre.length_le
  · rintro f ⟨rfl⟩ op hop
    have hcall : call = .io op := hop
    subst hcall
    exact ⟨op.bytes w.mem, by simp [World.call, Call.issued]⟩
  · rintro f ⟨rfl⟩ s hs op hop
    exact P.own w.global call s op hs hop
  · rintro f ⟨rfl⟩ hinit
    exact P.setup w.global call hinit
  · rintro f ⟨rfl⟩ hcall
    have hcall : call = .start := hcall
    subst hcall
    have hempty : w.calls = [] := hstart
    simp [World.call, Call.issued, hempty]
  · rintro f ⟨rfl⟩ hcall s hs
    have hcall : call = .start := hcall
    subst hcall
    exact P.setupOnly w.global s hs
  · exact call_inCall hidle hi.returns

theorem exec_disk {f : Frame} {s : Stmt} (h : ExecResult w f s t) :
    t.disk = w.disk := by
  cases h <;> rfl

theorem exec_calls {f : Frame} {s : Stmt} (h : ExecResult w f s t) :
    t.calls = w.calls := by
  cases h <;> rfl

theorem exec_returns {f : Frame} {s : Stmt} (h : ExecResult w f s t) :
    t.returns = w.returns := by
  cases h <;> rfl

theorem exec_frame {f : Frame} {s : Stmt} (h : ExecResult w f s t) :
    ∃ v, t.frame = some { f with result := v } := by
  cases h with
  | @override v => exact ⟨some v, rfl⟩
  | init | queue _ | submit | seen _ | assign => exact ⟨f.result, rfl⟩

theorem exec_inCall {f : Frame} {s : Stmt} {rest : List Stmt} (hframe : w.frame = some f)
    (hexec : ExecResult w { f with code := rest } s t) : t.inCall = w.inCall := by
  obtain ⟨v, ht⟩ := exec_frame hexec
  rcases f with ⟨call, code, result⟩
  simp only [World.inCall, ht, hframe]
  cases call <;> rfl

/-- A statement takes itself off the frame; the entries decide the rest. -/
theorem Accounted.of_stmt {f : Frame} {s : Stmt} {rest : List Stmt} (hi : Accounted w)
    (hframe : w.frame = some f) (hcode : f.code = s :: rest)
    (hexec : ExecResult w { f with code := rest } s t)
    (hentry : ∀ e, e ∈ t.ring.queued ∨ e ∈ t.ring.submitted →
      ∃ bytes, w.calls[e.id]? = some ⟨e.val, bytes⟩)
    (hsync : ∀ x ∈ t.ring.running, x ∈ w.ring.running) : Accounted t := by
  have hrest : ∀ x, x ∈ rest → x ∈ f.code := by
    intro x hx
    rw [hcode]
    exact List.mem_cons_of_mem _ hx
  have hcalls := exec_calls hexec
  obtain ⟨v, ht⟩ := exec_frame hexec
  constructor
  · rw [hcalls]
    exact hentry
  · rw [hcalls]
    exact fun x hx => hi.sync x (hsync x hx)
  · rw [hcalls, exec_disk hexec]
    exact hi.synced
  · rw [hcalls, ht]
    rintro g ⟨rfl⟩
    exact hi.current f hframe
  · rw [ht]
    rintro g ⟨rfl⟩ x hx
    exact hi.own f hframe x (hrest x hx)
  · rw [ht]
    rintro g ⟨rfl⟩ hx
    exact hi.setup f hframe (hrest _ hx)
  · rw [hcalls, ht]
    rintro g ⟨rfl⟩
    exact hi.start f hframe
  · rw [ht]
    rintro g ⟨rfl⟩ hcall x hx
    exact hi.setupOnly f hframe hcall x (hrest x hx)
  · rw [exec_returns hexec, hcalls, exec_inCall hframe hexec]
    exact hi.returns

theorem accounted_stmt {f : Frame} {s : Stmt} {rest : List Stmt} (hi : Accounted w)
    (hframe : w.frame = some f) (hcode : f.code = s :: rest)
    (hexec : ExecResult w { f with code := rest } s t) : Accounted t := by
  have hof := hi.of_stmt hframe hcode hexec
  cases hexec with
  | init =>
      apply hof
      · intro e he
        simp [Ring.empty] at he
      · intro x hx
        cases hx
  | @queue _ op hop =>
      apply hof
      · have hcall : f.call = .io op :=
          hi.own f hframe s (hcode ▸ List.mem_cons_self) op hop
        rintro e (hqueued | hsubmitted)
        · rcases List.mem_append.mp hqueued with hold | hnew
          · exact hi.entry e (Or.inl hold)
          · obtain rfl := List.mem_singleton.mp hnew
            exact hi.current f hframe op hcall
        · exact hi.entry e (Or.inr hsubmitted)
      · exact fun _ hx => hx
  | submit =>
      apply hof
      · rintro e (hqueued | hsubmitted)
        · cases hqueued
        · rcases List.mem_append.mp hsubmitted with hold | hnew
          · exact hi.entry e (Or.inr hold)
          · exact hi.entry e (Or.inl hnew)
      · exact fun _ hx => hx
  | seen hseen =>
      obtain ⟨c, -, hqueued, hsubmitted, hrunning⟩ := Ring.seen_cases hseen
      apply hof
      · intro e he
        rw [hqueued, hsubmitted] at he
        exact hi.entry e he
      · intro x hx
        rw [← hrunning]
        exact hx
  | assign | override => exact hof hi.entry (fun _ hx => hx)

/-- The disk after the call of a frame that has no statements left. -/
def World.returnDisk (w : World) (f : Frame) : Disk :=
  match f.call, f.result with
  | .io op, none => w.native op
  | _, _ => w.disk

theorem return_disk (f : Frame) : (w.return f).disk = w.returnDisk f := by
  unfold World.return World.returnDisk
  cases f.call with
  | start => rfl
  | io op => cases f.result <;> rfl

theorem return_frame (f : Frame) : (w.return f).frame = none := by
  unfold World.return
  cases f.call with
  | start => rfl
  | io op => cases f.result <;> rfl

theorem return_calls (f : Frame) : (w.return f).calls = w.calls := by
  unfold World.return
  cases f.call with
  | start => rfl
  | io op => cases f.result <;> rfl

theorem return_ring (f : Frame) : (w.return f).ring = w.ring := by
  unfold World.return
  cases f.call with
  | start => rfl
  | io op => cases f.result <;> rfl

/-- A call in flight turns into a return. -/
theorem return_inCall {f : Frame} (hframe : w.frame = some f) :
    (w.return f).returns.length + (w.return f).inCall = w.returns.length + w.inCall := by
  rcases f with ⟨call, code, result⟩
  cases call with
  | start => simp [World.inCall, hframe, World.return]
  | io op => cases result <;> simp [World.inCall, hframe, World.return]

theorem accounted_return {f : Frame} (hi : Accounted w) (hframe : w.frame = some f) :
    Accounted (w.return f) := by
  constructor
  · rw [return_ring, return_calls]
    exact hi.entry
  · rw [return_ring, return_calls]
    exact hi.sync
  · rw [return_disk, return_calls, World.returnDisk]
    cases hcall : f.call with
    | start => exact hi.synced
    | io op =>
        cases f.result with
        | some v => exact hi.synced
        | none =>
            obtain ⟨bytes, hbytes⟩ := hi.current f hframe op hcall
            have hlast := length_of_getElem? hbytes
            intro i hsynced
            cases op with
            | write fd buf n =>
                have hsynced : i ∈ (w.native (.write fd buf n)).synced := hsynced
                simp only [World.native, synced_append] at hsynced
                exact hi.synced i hsynced
            | fsync fd =>
                rcases synced_sync hsynced with hold | rfl
                · exact hi.synced i hold
                · exact hlast
  · rw [return_frame]
    rintro g ⟨⟩
  · rw [return_frame]
    rintro g ⟨⟩
  · rw [return_frame]
    rintro g ⟨⟩
  · rw [return_frame]
    rintro g ⟨⟩
  · rw [return_frame]
    rintro g ⟨⟩
  · rw [return_calls, return_inCall hframe]
    exact hi.returns

theorem accounted_step (hi : Accounted w) (hstart : StartsFirst w l)
    (hstep : step P w l = some t) : Accounted t := by
  cases stepResult_of_step hstep with
  | call hidle => exact accounted_call hi hstart hidle
  | stmt hframe hcode hexec => exact accounted_stmt hi hframe hcode hexec
  | ret hframe hcode => exact accounted_return hi hframe
  | @execute i res e fd buf n hentry hop hres =>
      refine hi.of_same rfl rfl rfl ?_ hi.sync ?_
      · rintro x (hqueued | hsubmitted)
        · exact Or.inl hqueued
        · exact Or.inr (List.eraseIdx_subset hsubmitted)
      · intro j hsynced
        simp only [World.execute, synced_append] at hsynced
        exact hi.synced j hsynced
  | @begin i e fd hentry hop =>
      refine hi.of_same rfl rfl rfl ?_ ?_ hi.synced
      · rintro x (hqueued | hsubmitted)
        · exact Or.inl hqueued
        · exact Or.inr (List.eraseIdx_subset hsubmitted)
      · intro s hs
        rcases List.mem_append.mp hs with hold | hnew
        · exact hi.sync s hold
        · obtain rfl := List.mem_singleton.mp hnew
          rw [← hop]
          exact hi.entry e (Or.inr (List.mem_of_getElem? hentry))
  | @finish i res s hrunning hres =>
      refine hi.of_same rfl rfl rfl (fun _ h => h) ?_ ?_
      · intro x hx
        exact hi.sync x (List.eraseIdx_subset hx)
      · intro j hsynced
        rcases synced_sync hsynced with hold | rfl
        · exact hi.synced j hold
        · obtain ⟨bytes, hbytes⟩ := hi.sync s (List.mem_of_getElem? hrunning)
          exact length_of_getElem? hbytes
  | store hidle => exact hi.of_same rfl rfl rfl (fun _ h => h) hi.sync hi.synced

/-- A disk forgets nothing. -/
structure Disk.Grows (d d' : Disk) : Prop where
  written : d.written ⊆ d'.written
  synced : d.synced ⊆ d'.synced
  durable : d.durable ⊆ d'.durable

theorem Disk.Grows.refl (d : Disk) : d.Grows d :=
  ⟨List.Subset.refl _, List.Subset.refl _, List.Subset.refl _⟩

theorem grows_append (d : Disk) (id : Nat) (fd : Fd) (bytes : List UInt8) (res : Int) :
    d.Grows (d.append id fd bytes res) := by
  unfold Disk.append
  split
  · exact .refl d
  · exact ⟨List.subset_append_left _ _, List.Subset.refl _, List.Subset.refl _⟩

theorem grows_sync (d : Disk) (id : Nat) (covers : List Nat) (res : Int) :
    d.Grows (d.sync id covers res) := by
  unfold Disk.sync
  split
  · exact .refl d
  · exact ⟨List.Subset.refl _, List.subset_append_left _ _, List.subset_append_left _ _⟩

theorem grows_native (op : Op) : w.disk.Grows (w.native op) := by
  cases op with
  | write fd buf n => exact grows_append _ _ _ _ _
  | fsync fd => exact grows_sync _ _ _ _

theorem grows_return (f : Frame) : w.disk.Grows (w.return f).disk := by
  rw [return_disk, World.returnDisk]
  split
  · exact grows_native _
  · exact .refl _

theorem grows_step (hstep : step P w l = some t) : w.disk.Grows t.disk := by
  cases stepResult_of_step hstep with
  | call hidle => exact .refl _
  | stmt hframe hcode hexec =>
      rw [exec_disk hexec]
      exact .refl _
  | @ret f hframe hcode => exact grows_return f
  | execute hentry hop hres => exact grows_append _ _ _ _ _
  | begin hentry hop => exact .refl _
  | finish hrunning hres => exact grows_sync _ _ _ _
  | store hidle => exact .refl _

theorem calls_step (hstep : step P w l = some t) : w.calls <+: t.calls := by
  cases stepResult_of_step hstep with
  | call hidle => exact List.prefix_append _ _
  | stmt hframe hcode hexec =>
      simp only [exec_calls hexec, List.prefix_refl]
  | @ret f hframe hcode =>
      simp only [return_calls, List.prefix_refl]
  | execute _ _ _ | begin _ _ | finish _ _ | store _ => exact List.prefix_refl _

theorem getElem?_concat_cases {δ : Type} {l : List δ} {a c : δ} {j : Nat}
    (h : (l ++ [a])[j]? = some c) : l[j]? = some c ∨ (j = l.length ∧ c = a) := by
  by_cases hold : j < l.length
  · rw [List.getElem?_append_left hold] at h
    exact Or.inl h
  · have hlt := length_of_getElem? h
    simp only [List.length_append, List.length_singleton] at hlt
    have hj : j = l.length := by omega
    subst hj
    simp at h
    exact Or.inr ⟨rfl, h.symm⟩

theorem calls_of_not_call (hcall : ∀ call, l ≠ .call call) (hstep : step P w l = some t) :
    t.calls = w.calls := by
  cases stepResult_of_step hstep with
  | @call call hidle => exact absurd rfl (hcall call)
  | stmt hframe hcode hexec => exact exec_calls hexec
  | @ret f hframe hcode => exact return_calls f
  | execute _ _ _ | begin _ _ | finish _ _ | store _ => rfl

/-- Every step is a new call or leaves the calls as they are. -/
theorem call_or_between (hstep : step P w l = some t) :
    (∃ call, l = .call call ∧ w.frame = none ∧ t = w.call P call) ∨
      ∀ call, l ≠ .call call := by
  cases stepResult_of_step hstep with
  | @call call hidle => exact Or.inl ⟨call, rfl, hidle, rfl⟩
  | stmt _ _ _ | ret _ _ | execute _ _ _ | begin _ _ | finish _ _ | store _ =>
      exact Or.inr (fun _ h => by cases h)

/-- The operation of call `j` has been executed. -/
def World.Finished (w : World) (j : Nat) : Op → Prop
  | .write fd _ _ => (j, fd) ∈ w.disk.written
  | .fsync _ => j ∈ w.disk.synced

theorem World.Finished.mono {j : Nat} {op : Op} (hgrows : w.disk.Grows t.disk)
    (h : w.Finished j op) : t.Finished j op := by
  cases op with
  | write fd buf n => exact hgrows.written h
  | fsync fd => exact hgrows.synced h

/-- The frame has yet to queue its operation. -/
def Frame.Unqueued (f : Frame) : Prop :=
  ∃ s ∈ f.code, ∃ op, s.op = some op

/-- The frame has yet to queue its operation, or leaves it to the kernel. -/
def Frame.Open (f : Frame) : Prop :=
  f.Unqueued ∨ (f.result = none ∧ ∀ v, .bpfOverrideReturn v ∉ f.code)

/-- No operation is lost: that of a call is done, or in the ring, or the frame
of the call still has to deal with it. -/
def Placed (w : World) : Prop :=
  ∀ j c, w.calls[j]? = some c → w.Finished j c.op ∨ w.ring.InFlight j ∨
    (j + 1 = w.calls.length ∧ ∃ f ∈ w.frame, f.Open)

/-- The handlers queue the operation of each call or let it through. -/
def Program.Handles (P : Program) : Prop :=
  ∀ g op, Frame.Open ⟨.io op, P.hook g (.io op), none⟩

theorem placed_attached (h : Attached w) : Placed w := by
  intro j c hc
  simp [h.calls] at hc

theorem placed_call {call : Call} (hplaced : Placed w) (hhandles : P.Handles)
    (hidle : w.frame = none) : Placed (w.call P call) := by
  have hold : ∀ j c, w.calls[j]? = some c →
      (w.call P call).Finished j c.op ∨ (w.call P call).ring.InFlight j := by
    intro j c hc
    rcases hplaced j c hc with hfinished | hflight | ⟨-, f, hf, -⟩
    · exact Or.inl hfinished
    · exact Or.inr hflight
    · rw [hidle] at hf
      cases hf
  intro j c hc
  cases call with
  | start =>
      simp only [World.call, Call.issued, List.append_nil] at hc
      exact (hold j c hc).imp_right Or.inl
  | io op =>
      rcases getElem?_concat_cases hc with hc' | ⟨hj, -⟩
      · exact (hold j c hc').imp_right Or.inl
      · refine Or.inr (Or.inr ⟨?_, _, rfl, hhandles w.global op⟩)
        simp [World.call, Call.issued, hj]

theorem unqueued_rest {f : Frame} {s : Stmt} {rest : List Stmt}
    (hcode : f.code = s :: rest) (h : f.Unqueued) (v : Option Int) :
    (∃ op, s.op = some op) ∨ Frame.Unqueued { f with code := rest, result := v } := by
  obtain ⟨x, hx, hop⟩ := h
  rw [hcode] at hx
  rcases List.mem_cons.mp hx with rfl | hrest
  · exact Or.inl hop
  · exact Or.inr ⟨x, hrest, hop⟩

/-- A frame stays open until it queues its operation. -/
theorem open_rest {f : Frame} {s : Stmt} {rest : List Stmt} (hcode : f.code = s :: rest)
    (hexec : ExecResult w { f with code := rest } s t) (hopen : f.Open) :
    (∃ op, s.op = some op) ∨ ∃ g ∈ t.frame, g.Open := by
  rcases hopen with hunqueued | ⟨hresult, hno⟩
  · rcases unqueued_rest hcode hunqueued f.result with hop | hrest
    · exact Or.inl hop
    · right
      cases hexec with
      | override => exact ⟨_, rfl, Or.inl hrest⟩
      | init | queue _ | submit | seen _ | assign => exact ⟨_, rfl, Or.inl hrest⟩
  · have hno' : ∀ v, .bpfOverrideReturn v ∉ rest := by
      intro v hv
      exact hno v (hcode ▸ List.mem_cons_of_mem _ hv)
    cases hexec with
    | override => exact absurd (hcode ▸ List.mem_cons_self) (hno _)
    | queue hop => exact Or.inl ⟨_, hop⟩
    | init | submit | seen _ | assign => exact Or.inr ⟨_, rfl, Or.inr ⟨hresult, hno'⟩⟩

/-- The statement that queues an operation puts it into the ring. -/
theorem inFlight_queue {f : Frame} {s : Stmt} {op : Op} (hexec : ExecResult w f s t)
    (hop : s.op = some op) : t.ring.InFlight (w.calls.length - 1) := by
  cases hexec with
  | queue _ => exact Ring.inFlight_prepare.mpr (Or.inr rfl)
  | init | submit | seen _ | assign | override => cases hop

theorem placed_stmt {f : Frame} {s : Stmt} {rest : List Stmt} (hi : Accounted w)
    (hplaced : Placed w) (hframe : w.frame = some f) (hcode : f.code = s :: rest)
    (hexec : ExecResult w { f with code := rest } s t) : Placed t := by
  intro j c hc
  rw [exec_calls hexec] at hc
  have hfinished : w.Finished j c.op → t.Finished j c.op :=
    fun h => h.mono (exec_disk hexec ▸ .refl _)
  have hlen : t.calls.length = w.calls.length := by rw [exec_calls hexec]
  rw [hlen]
  rcases hplaced j c hc with hdone | hflight | ⟨hlast, g, hg, hopen⟩
  · exact Or.inl (hfinished hdone)
  · cases hexec with
    | init =>
        have hstart := hi.setup f hframe (hcode ▸ List.mem_cons_self)
        rw [hi.start f hframe hstart] at hc
        cases hc
    | queue hop => exact Or.inr (Or.inl (Ring.inFlight_prepare.mpr (Or.inl hflight)))
    | submit => exact Or.inr (Or.inl (Ring.inFlight_submit.mpr hflight))
    | seen hseen => exact Or.inr (Or.inl ((Ring.inFlight_seen hseen).mpr hflight))
    | assign | override => exact Or.inr (Or.inl hflight)
  · obtain rfl := Option.some.inj (hframe.symm.trans hg)
    rcases open_rest hcode hexec hopen with ⟨op, hop⟩ | hstill
    · have hj : w.calls.length - 1 = j := by omega
      exact Or.inr (Or.inl (hj ▸ inFlight_queue hexec hop))
    · exact Or.inr (Or.inr ⟨hlast, hstill⟩)

theorem written_append {d : Disk} {id : Nat} {fd : Fd} {bytes : List UInt8} {res : Int}
    (hres : ¬ res < 0) : (id, fd) ∈ (d.append id fd bytes res).written := by
  rw [Disk.append, if_neg hres]
  exact List.mem_append_right _ (List.mem_singleton.mpr rfl)

theorem synced_sync_self {d : Disk} {id : Nat} {covers : List Nat} {res : Int}
    (hres : ¬ res < 0) : id ∈ (d.sync id covers res).synced := by
  rw [Disk.sync, if_neg hres]
  exact List.mem_append_right _ (List.mem_singleton.mpr rfl)

theorem finished_native {op : Op} (hdisk : t.disk = w.native op) :
    t.Finished (w.calls.length - 1) op := by
  cases op with
  | write fd buf n =>
      rw [World.Finished, hdisk]
      exact written_append (by omega)
  | fsync fd =>
      rw [World.Finished, hdisk]
      exact synced_sync_self (by omega)

theorem placed_return {f : Frame} (hi : Accounted w) (hplaced : Placed w)
    (hframe : w.frame = some f) (hcode : f.code = []) : Placed (w.return f) := by
  intro j c hc
  rw [return_calls] at hc
  rw [return_ring]
  rcases hplaced j c hc with hdone | hflight | ⟨hlast, g, hg, hopen⟩
  · exact Or.inl (hdone.mono (grows_return f))
  · exact Or.inr (Or.inl hflight)
  obtain rfl := Option.some.inj (hframe.symm.trans hg)
  rcases hopen with ⟨x, hx, -⟩ | ⟨hresult, -⟩
  · rw [hcode] at hx
    cases hx
  cases hcall : f.call with
  | start =>
      rw [hi.start f hframe hcall] at hc
      cases hc
  | io op =>
      obtain ⟨bytes, hbytes⟩ := hi.current f hframe op hcall
      have hj : w.calls.length - 1 = j := by omega
      rw [hj] at hbytes
      obtain rfl := Option.some.inj (hbytes.symm.trans hc)
      have hdisk : (w.return f).disk = w.native op := by
        rw [return_disk, World.returnDisk, hcall, hresult]
      have hfinished := finished_native hdisk
      rw [hj] at hfinished
      exact Or.inl hfinished

/-- A kernel step takes at most one operation out of the ring, and finishes it. -/
theorem placed_kernel (hplaced : Placed w) (hgrows : w.disk.Grows t.disk)
    (hcalls : t.calls = w.calls) (hframe : t.frame = w.frame)
    (hring : ∀ j c, w.calls[j]? = some c → w.ring.InFlight j →
      t.Finished j c.op ∨ t.ring.InFlight j) : Placed t := by
  intro j c hc
  rw [hcalls] at hc
  rw [hcalls, hframe]
  rcases hplaced j c hc with hdone | hflight | hopen
  · exact Or.inl (hdone.mono hgrows)
  · rcases hring j c hc hflight with hdone | hstill
    · exact Or.inl hdone
    · exact Or.inr (Or.inl hstill)
  · exact Or.inr (Or.inr hopen)

theorem placed_step (hhandles : P.Handles) (hi : Accounted w) (hplaced : Placed w)
    (hok : Succeeds w l) (hstep : step P w l = some t) : Placed t := by
  have hgrows := grows_step hstep
  cases stepResult_of_step hstep with
  | call hidle => exact placed_call hplaced hhandles hidle
  | stmt hframe hcode hexec => exact placed_stmt hi hplaced hframe hcode hexec
  | ret hframe hcode => exact placed_return hi hplaced hframe hcode
  | @execute i res e fd buf n hentry hop hres =>
      apply placed_kernel hplaced hgrows rfl rfl
      intro j c hc hflight
      rcases Ring.inFlight_execute hentry ⟨e.id, res⟩ hflight with rfl | hstill
      · obtain ⟨bytes, hbytes⟩ := hi.entry e (Or.inr (List.mem_of_getElem? hentry))
        obtain rfl := Option.some.inj (hbytes.symm.trans hc)
        have hfull : res = n := by
          rw [hok e hentry, hop]
          rfl
        apply Or.inl
        simp only [hop]
        exact written_append (by omega)
      · exact Or.inr hstill
  | @begin i e fd hentry hop =>
      apply placed_kernel hplaced hgrows rfl rfl
      intro j c hc hflight
      exact Or.inr (Ring.inFlight_begin hentry rfl hflight)
  | @finish i res s hrunning hres =>
      apply placed_kernel hplaced hgrows rfl rfl
      intro j c hc hflight
      rcases Ring.inFlight_finish hrunning ⟨s.id, res⟩ hflight with rfl | hstill
      · obtain ⟨bytes, hbytes⟩ := hi.sync s (List.mem_of_getElem? hrunning)
        obtain rfl := Option.some.inj (hbytes.symm.trans hc)
        have hzero : res = 0 := hok
        exact Or.inl (synced_sync_self (by omega))
      · exact Or.inr hstill
  | store hidle => exact placed_kernel hplaced hgrows rfl rfl (fun _ _ _ h => Or.inr h)

/-- Once the ring is quiet, all operations but that of an open frame are done. -/
theorem Placed.finished {j : Nat} {c : Issued} (hplaced : Placed w)
    (hqueued : w.ring.queued = []) (hquiet : w.ring.outstanding = 0)
    (hc : w.calls[j]? = some c)
    (hclosed : j + 1 = w.calls.length → ∀ f ∈ w.frame, ¬ f.Open) :
    w.Finished j c.op := by
  rcases hplaced j c hc with hdone | hflight | ⟨hlast, f, hf, hopen⟩
  · exact hdone
  · exact absurd hflight (Ring.not_inFlight_of_quiet hqueued hquiet)
  · exact absurd hopen (hclosed hlast f hf)

/-- Only operations with the property `Q` get into the ring. -/
structure QueuesOnly (Q : Op → Prop) (w : World) : Prop where
  entries : ∀ e, e ∈ w.ring.queued ∨ e ∈ w.ring.submitted → Q e.val
  code : ∀ f ∈ w.frame, ∀ s ∈ f.code, ∀ op, s.op = some op → Q op

theorem queuesOnly_attached {Q : Op → Prop} (h : Attached w) : QueuesOnly Q w := by
  constructor <;> simp [h.ring, h.frame, Ring.empty]

theorem queuesOnly_stmt {Q : Op → Prop} {f : Frame} {s : Stmt} {rest : List Stmt}
    (hq : QueuesOnly Q w) (hframe : w.frame = some f) (hcode : f.code = s :: rest)
    (hexec : ExecResult w { f with code := rest } s t) : QueuesOnly Q t := by
  have hrest : ∀ x ∈ rest, ∀ op, x.op = some op → Q op := by
    intro x hx
    exact hq.code f hframe x (hcode ▸ List.mem_cons_of_mem _ hx)
  have hcodeOf : ∀ g ∈ t.frame, ∀ x ∈ g.code, ∀ op, x.op = some op → Q op := by
    cases hexec <;>
      · rintro g ⟨rfl⟩
        exact hrest
  refine ⟨?_, hcodeOf⟩
  cases hexec with
  | init =>
      rintro e (he | he) <;> cases he
  | @queue _ op hop =>
      rintro e (hqueued | hsubmitted)
      · rcases List.mem_append.mp hqueued with hold | hnew
        · exact hq.entries e (Or.inl hold)
        · obtain rfl := List.mem_singleton.mp hnew
          exact hq.code f hframe s (hcode ▸ List.mem_cons_self) op hop
      · exact hq.entries e (Or.inr hsubmitted)
  | submit =>
      rintro e (hqueued | hsubmitted)
      · cases hqueued
      · exact hq.entries e (List.mem_append.mp hsubmitted).symm
  | seen hseen =>
      obtain ⟨c, -, hqueued, hsubmitted, -⟩ := Ring.seen_cases hseen
      intro e he
      rw [hqueued, hsubmitted] at he
      exact hq.entries e he
  | assign | override => exact hq.entries

theorem queuesOnly_step {Q : Op → Prop}
    (hprogram : ∀ g call s op, s ∈ P.hook g call → s.op = some op → Q op)
    (hq : QueuesOnly Q w) (hstep : step P w l = some t) : QueuesOnly Q t := by
  cases stepResult_of_step hstep with
  | @call call hidle =>
      refine ⟨hq.entries, ?_⟩
      rintro f ⟨rfl⟩ s hs op hop
      exact hprogram w.global call s op hs hop
  | stmt hframe hcode hexec => exact queuesOnly_stmt hq hframe hcode hexec
  | @ret f hframe hcode =>
      refine ⟨?_, ?_⟩
      · rw [return_ring]
        exact hq.entries
      · rw [return_frame]
        rintro g ⟨⟩
  | execute hentry hop hres =>
      exact ⟨fun x hx => hq.entries x (hx.imp_right (fun h => List.eraseIdx_subset h)), hq.code⟩
  | begin hentry hop =>
      exact ⟨fun x hx => hq.entries x (hx.imp_right (fun h => List.eraseIdx_subset h)), hq.code⟩
  | finish hrunning hres => exact ⟨hq.entries, hq.code⟩
  | store hidle => exact ⟨hq.entries, hq.code⟩

def World.IsWrite (w : World) (fd : Fd) (j : Nat) : Prop :=
  ∃ buf n bytes, w.calls[j]? = some ⟨.write fd buf n, bytes⟩

/-- All calls so far are on one descriptor. -/
def OneFd (fd : Fd) (w : World) : Prop :=
  ∀ c ∈ w.calls, c.op.fd = fd

theorem oneFd_call {fd : Fd} {op : Op} (h : OneFd fd w) (hop : op.fd = fd) :
    OneFd fd (w.call P (.io op)) := by
  intro c hc
  rcases List.mem_append.mp hc with hold | hnew
  · exact h c hold
  · obtain rfl := List.mem_singleton.mp hnew
    exact hop

/-- Fsync `i` protects the writes below `m`: they were executed before it
starts, so they are durable once it has completed. -/
structure Protects (fd : Fd) (m i : Nat) (w : World) : Prop where
  written : ∀ j < m, w.IsWrite fd j → (j, fd) ∈ w.disk.written
  running : ∀ s ∈ w.ring.running, s.id = i → ∀ j < m, w.IsWrite fd j → j ∈ s.val.covers
  durable : i ∈ w.disk.synced → ∀ j < m, w.IsWrite fd j → j ∈ w.disk.durable

theorem isWrite_of_extends {fd : Fd} {j : Nat} (hpre : w.calls <+: t.calls)
    (hj : j < w.calls.length) (h : t.IsWrite fd j) : w.IsWrite fd j := by
  obtain ⟨buf, n, bytes, hc⟩ := h
  obtain ⟨rest, hrest⟩ := hpre
  refine ⟨buf, n, bytes, ?_⟩
  rw [← hrest, List.getElem?_append_left hj] at hc
  exact hc

theorem mem_writtenTo {d : Disk} {j : Nat} {fd : Fd} (h : (j, fd) ∈ d.written) :
    j ∈ d.writtenTo fd := by
  refine List.mem_map.mpr ⟨(j, fd), ?_, rfl⟩
  exact List.mem_filter.mpr ⟨h, by simp⟩

theorem durable_sync {d : Disk} {id j : Nat} {covers : List Nat} {res : Int}
    (hid : id ∈ (d.sync id covers res).synced) (hold : id ∉ d.synced)
    (hj : j ∈ covers) : j ∈ (d.sync id covers res).durable := by
  unfold Disk.sync at hid ⊢
  split at hid
  · exact absurd hid hold
  · rename_i hres
    rw [if_neg hres]
    exact List.mem_append_right _ hj

theorem Protects.of_step {fd : Fd} {m i : Nat} (h : Protects fd m i w)
    (hm : m ≤ w.calls.length) (hgrows : w.disk.Grows t.disk)
    (hcalls : w.calls <+: t.calls)
    (hrunning : ∀ s ∈ t.ring.running, s ∈ w.ring.running ∨
      (s.id = i → ∀ j < m, w.IsWrite fd j → j ∈ s.val.covers))
    (hsynced : i ∈ t.disk.synced → i ∈ w.disk.synced ∨
      ∀ j < m, w.IsWrite fd j → j ∈ t.disk.durable) : Protects fd m i t := by
  have hback : ∀ j < m, t.IsWrite fd j → w.IsWrite fd j := by
    intro j hj
    exact isWrite_of_extends hcalls (lt_of_lt_of_le hj hm)
  constructor
  · intro j hj hwrite
    exact hgrows.written (h.written j hj (hback j hj hwrite))
  · intro s hs hid j hj hwrite
    rcases hrunning s hs with hold | hnew
    · exact h.running s hold hid j hj (hback j hj hwrite)
    · exact hnew hid j hj (hback j hj hwrite)
  · intro hdone j hj hwrite
    rcases hsynced hdone with hold | hnew
    · exact hgrows.durable (h.durable hold j hj (hback j hj hwrite))
    · exact hnew j hj (hback j hj hwrite)

theorem protects_return {fd : Fd} {m i : Nat} {f : Frame} (hi : Accounted w)
    (hfd : OneFd fd w) (h : Protects fd m i w) (hm : m ≤ w.calls.length)
    (hframe : w.frame = some f) : Protects fd m i (w.return f) := by
  have hpre : w.calls <+: (w.return f).calls := by
    simp only [return_calls, List.prefix_refl]
  refine h.of_step hm (grows_return f) hpre ?_ ?_
  · rw [return_ring]
    exact fun s hs => Or.inl hs
  rw [return_disk, World.returnDisk]
  cases hcall : f.call with
  | start => exact Or.inl
  | io op =>
      cases f.result with
      | some v => exact Or.inl
      | none =>
          obtain ⟨bytes, hbytes⟩ := hi.current f hframe op hcall
          have hopfd := hfd _ (List.mem_of_getElem? hbytes)
          cases op with
          | write fd' buf n =>
              intro hsynced
              have hsynced : i ∈ (w.native (.write fd' buf n)).synced := hsynced
              simp only [World.native, synced_append] at hsynced
              exact Or.inl hsynced
          | fsync fd' =>
              have hsame : fd' = fd := hopfd
              subst hsame
              intro hsynced
              by_cases hold : i ∈ w.disk.synced
              · exact Or.inl hold
              · apply Or.inr
                intro j hj hwrite
                have hnew : i = w.calls.length - 1 :=
                  (synced_sync hsynced).resolve_left hold
                subst hnew
                exact durable_sync hsynced hold (mem_writtenTo (h.written j hj hwrite))

/-- Protection lasts through every step. -/
theorem protects_step {fd : Fd} {m i : Nat} (hi : Accounted w) (hfd : OneFd fd w)
    (h : Protects fd m i w) (hm : m ≤ w.calls.length) (hstep : step P w l = some t) :
    Protects fd m i t := by
  have hgrows := grows_step hstep
  have hcalls := calls_step hstep
  cases stepResult_of_step hstep with
  | call hidle => exact h.of_step hm hgrows hcalls (fun _ hs => Or.inl hs) Or.inl
  | stmt hframe hcode hexec =>
      refine h.of_step hm hgrows hcalls ?_ ?_
      · intro s hs
        cases hexec with
        | init => cases hs
        | queue _ | submit | assign | override => exact Or.inl hs
        | seen hseen =>
            obtain ⟨c, -, -, -, hrunning⟩ := Ring.seen_cases hseen
            rw [hrunning] at hs
            exact Or.inl hs
      · rw [exec_disk hexec]
        exact Or.inl
  | ret hframe hcode => exact protects_return hi hfd h hm hframe
  | @execute k res e fd' buf n hentry hop hres =>
      apply h.of_step hm hgrows hcalls (fun _ hs => Or.inl hs)
      intro hsynced
      simp only [World.execute, synced_append] at hsynced
      exact Or.inl hsynced
  | @begin k e fd' hentry hop =>
      refine h.of_step hm hgrows hcalls ?_ Or.inl
      intro s hs
      rcases List.mem_append.mp hs with hold | hnew
      · exact Or.inl hold
      · obtain rfl := List.mem_singleton.mp hnew
        apply Or.inr
        intro _ j hj hwrite
        obtain ⟨bytes, hbytes⟩ := hi.entry e (Or.inr (List.mem_of_getElem? hentry))
        have hsame := hfd _ (List.mem_of_getElem? hbytes)
        rw [hop] at hsame
        have hsame : fd' = fd := hsame
        subst hsame
        exact mem_writtenTo (h.written j hj hwrite)
  | @finish k res s hrunning hres =>
      apply h.of_step hm hgrows hcalls (fun _ hx => Or.inl (List.eraseIdx_subset hx))
      intro hsynced
      by_cases hold : i ∈ w.disk.synced
      · exact Or.inl hold
      · apply Or.inr
        intro j hj hwrite
        have hid : i = s.id := (synced_sync hsynced).resolve_left hold
        subst hid
        exact durable_sync hsynced hold
          (h.running s (List.mem_of_getElem? hrunning) rfl j hj hwrite)
  | store hidle => exact h.of_step hm hgrows hcalls (fun _ hs => Or.inl hs) Or.inl

/-- An fsync whose call has not been made yet protects whatever is written. -/
theorem protects_of_written {fd : Fd} {m i : Nat}
    (hwritten : ∀ j < m, w.IsWrite fd j → (j, fd) ∈ w.disk.written)
    (hfresh : ¬ w.ring.InFlight i) (hnew : i ∉ w.disk.synced) : Protects fd m i w := by
  refine ⟨hwritten, ?_, fun h => absurd h hnew⟩
  intro s hs hid
  exact absurd (Or.inr (Or.inr ⟨s, hs, hid⟩)) hfresh

def World.code (w : World) : List Stmt :=
  match w.frame with
  | none => []
  | some f => f.code

def finalGlobal (g : Int) (code : List Stmt) : Int :=
  code.foldl (fun g s => match s with | .assign v => v | _ => g) g

/-- The counter and the tally with which the running handler will end, if it
uses the ring with discipline. Between calls these are the present ones. -/
def World.settles (slots : Nat) (w : World) : Option (Int × Tally) :=
  (w.ring.tally.run slots (w.code.filterMap Stmt.command)).map
    (fun n => (finalGlobal w.global w.code, n))

theorem settles_idle (slots : Nat) (h : w.frame = none) :
    w.settles slots = some (w.global, w.ring.tally) := by
  simp only [World.settles, World.code, h]
  rfl

theorem command_of_op {s : Stmt} {op : Op} (h : s.op = some op) :
    s.command = some .prepare ∧ ∀ v, s ≠ .assign v := by
  cases s with
  | ioUringSubmitWrite fd buf n => exact ⟨rfl, by simp⟩
  | ioUringSubmitFsync fd => exact ⟨rfl, by simp⟩
  | _ => cases h

/-- Each statement brings the handler closer to the same end. -/
theorem settles_stmt {slots : Nat} {f : Frame} {s : Stmt} {rest : List Stmt}
    {r : Int × Tally} (hi : Accounted w) (hframe : w.frame = some f)
    (hcode : f.code = s :: rest) (hexec : ExecResult w { f with code := rest } s t)
    (hempty : w.calls = [] → r.2 = ⟨0, 0⟩) (h : w.settles slots = some r) :
    t.settles slots = some r := by
  have hwcode : w.code = s :: rest := by rw [World.code, hframe, ← hcode]
  obtain ⟨n, hrun, rfl⟩ := Option.map_eq_some_iff.mp h
  rw [hwcode] at hrun ⊢
  have hgoal : ∀ g : Int, t.global = g → t.code = rest →
      finalGlobal w.global (s :: rest) = finalGlobal g rest →
      t.ring.tally.run slots (rest.filterMap Stmt.command) = some n →
      t.settles slots = some (finalGlobal w.global (s :: rest), n) := by
    rintro g rfl htcode hfinal hrest
    rw [World.settles, htcode, hrest, hfinal]
    rfl
  have hstep : ∀ c : Command, s.command = some c → ∃ n',
      w.ring.tally.apply slots c = some n' ∧
        n'.run slots (rest.filterMap Stmt.command) = some n := by
    intro c hc
    rw [List.filterMap_cons_some hc] at hrun
    exact Option.bind_eq_some_iff.mp hrun
  have hskip : s.command = none →
      w.ring.tally.run slots (rest.filterMap Stmt.command) = some n := by
    intro hc
    rw [List.filterMap_cons_none hc] at hrun
    exact hrun
  cases hexec with
  | init =>
      apply hgoal w.global rfl rfl rfl
      have hstart := hi.setup f hframe (hcode ▸ List.mem_cons_self)
      have hnone : rest.filterMap Stmt.command = [] := by
        apply List.filterMap_eq_nil_iff.mpr
        intro x hx
        exact hi.setupOnly f hframe hstart x (hcode ▸ List.mem_cons_of_mem _ hx)
      have hzero : n = ⟨0, 0⟩ := hempty (hi.start f hframe hstart)
      rw [hnone, hzero]
      rfl
  | queue hop =>
      obtain ⟨hcommand, hassign⟩ := command_of_op hop
      obtain ⟨n', happly, hrest⟩ := hstep _ hcommand
      refine hgoal w.global rfl rfl ?_ ?_
      · cases s <;> first | rfl | exact absurd rfl (hassign _)
      · rw [Ring.tally_prepare _ happly]
        exact hrest
  | submit =>
      obtain ⟨n', happly, hrest⟩ := hstep _ rfl
      apply hgoal w.global rfl rfl rfl
      rw [Ring.tally_submit happly]
      exact hrest
  | seen hseen =>
      obtain ⟨n', happly, hrest⟩ := hstep _ rfl
      apply hgoal w.global rfl rfl rfl
      rw [Ring.tally_seen hseen happly]
      exact hrest
  | @assign v => exact hgoal v rfl rfl rfl (hskip rfl)
  | override => exact hgoal w.global rfl rfl rfl (hskip rfl)

/-- A handler that will settle queues its operation on a ring that owes nothing
and has a free slot. -/
theorem settles_queue {slots : Nat} {f : Frame} {s : Stmt} {rest : List Stmt} {op : Op}
    {r : Int × Tally} (hframe : w.frame = some f) (hcode : f.code = s :: rest)
    (hop : s.op = some op) (h : w.settles slots = some r) :
    w.ring.outstanding = 0 ∧ w.ring.queued.length < slots := by
  have hwcode : w.code = s :: rest := by rw [World.code, hframe, ← hcode]
  obtain ⟨n, hrun, -⟩ := Option.map_eq_some_iff.mp h
  rw [hwcode, List.filterMap_cons_some (command_of_op hop).1] at hrun
  obtain ⟨n', happly, -⟩ := Option.bind_eq_some_iff.mp hrun
  simp only [Tally.apply] at happly
  split at happly
  · assumption
  · cases happly

/-- Only a new call changes where the handler will end. -/
theorem settles_step {slots : Nat} {r : Int × Tally} (hi : Accounted w)
    (hempty : w.calls = [] → r.2 = ⟨0, 0⟩) (h : w.settles slots = some r)
    (hcall : ∀ call, l ≠ .call call) (hstep : step P w l = some t) :
    t.settles slots = some r := by
  have hsame : ∀ u : World, u.code = w.code → u.global = w.global →
      u.ring.tally = w.ring.tally → u.settles slots = some r := by
    intro u hcode hglobal htally
    rw [World.settles, hcode, hglobal, htally]
    exact h
  cases stepResult_of_step hstep with
  | @call call hidle => exact absurd rfl (hcall call)
  | stmt hframe hcode hexec => exact settles_stmt hi hframe hcode hexec hempty h
  | @ret f hframe hcode =>
      refine hsame _ ?_ ?_ (by rw [return_ring])
      · simp only [World.code, return_frame, hframe, hcode]
      · unfold World.return
        cases f.call with
        | start => rfl
        | io op => cases f.result <;> rfl
  | execute hentry hop hres => exact hsame _ rfl rfl (Ring.tally_execute hentry _)
  | begin hentry hop => exact hsame _ rfl rfl (Ring.tally_begin hentry _)
  | finish hrunning hres => exact hsame _ rfl rfl (Ring.tally_finish hrunning _)
  | store hidle => exact hsame _ rfl rfl rfl

end BpftimeBenchmark.Redis
