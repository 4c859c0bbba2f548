import Mathlib.Data.List.Nodup
import BpftimeBenchmark.Redis.DelayedFsync
import BpftimeBenchmark.Redis.FastNotify
import BpftimeBenchmark.Redis.PocMinimal

/-!
What becomes of the operations that the durability programs take over. Each has a place:
it is due to its frame, in the ring, or on the disk. Along every run the place is at most
one, and exactly one as long as the kernel's operations succeed, so nothing is written
twice and nothing is dropped, whichever of the programs is attached.
-/

namespace BpftimeBenchmark.Redis

open Uring Transition

variable {P : Program} {w t : World} {l : Label}

def Stmt.overrides : Stmt → Bool
  | .bpfOverrideReturn _ => true
  | _ => false

/-- The call of the frame will go on to the kernel. -/
def Frame.passes (f : Frame) : Bool :=
  f.result.isNone && f.code.all (!·.overrides)

/-- How often the frame has yet to hand its operation to the ring or to the kernel. -/
def Frame.due (f : Frame) : Nat :=
  match f.call with
  | .start => 0
  | .io _ => (f.code.filterMap Stmt.op).length + if f.passes then 1 else 0

def World.due (w : World) (j : Nat) : Nat :=
  if j + 1 = w.calls.length then w.frame.elim 0 Frame.due else 0

/-- The calls whose operation has been performed, in the kernel's order for each kind. -/
def Disk.performed (d : Disk) : List Nat :=
  d.written.map (·.1) ++ d.synced

/-- In how many places the operation of call `j` is. -/
def World.places (w : World) (j : Nat) : Nat :=
  (w.ring.ids ++ w.disk.performed).count j + w.due j

/-- The handlers take each operation over once, or let it through once. -/
def Program.Once (P : Program) : Prop :=
  ∀ g op, Frame.due ⟨.io op, P.hook g (.io op), none⟩ = 1

theorem due_idle (hidle : w.frame = none) (j : Nat) : w.due j = 0 := by
  simp [World.due, hidle]

/-- Nothing has a place that has not been called. -/
theorem places_of_idle (hidle : w.frame = none) (j : Nat) :
    w.places j = (w.ring.ids ++ w.disk.performed).count j := by
  rw [World.places, due_idle hidle, Nat.add_zero]

theorem performed_append_of_neg {d : Disk} {id : Nat} {fd : Fd} {bytes : List UInt8}
    {res : Int} (hres : res < 0) :
    (d.append id fd bytes res).performed = d.performed := by
  rw [Disk.append, if_pos hres]

theorem performed_append {d : Disk} {id : Nat} {fd : Fd} {bytes : List UInt8} {res : Int}
    (hres : ¬ res < 0) :
    (d.append id fd bytes res).performed.Perm (id :: d.performed) := by
  rw [Disk.append, if_neg hres]
  simp only [Disk.performed, List.map_append, List.map_cons, List.map_nil,
    List.append_assoc, List.singleton_append]
  exact List.perm_middle

theorem performed_sync_of_neg {d : Disk} {id : Nat} {covers : List Nat} {res : Int}
    (hres : res < 0) : (d.sync id covers res).performed = d.performed := by
  rw [Disk.sync, if_pos hres]

theorem performed_sync {d : Disk} {id : Nat} {covers : List Nat} {res : Int}
    (hres : ¬ res < 0) :
    (d.sync id covers res).performed.Perm (id :: d.performed) := by
  rw [Disk.sync, if_neg hres]
  simp only [Disk.performed, ← List.append_assoc]
  exact List.perm_append_singleton _ _

theorem performed_native (op : Op) :
    (w.native op).performed.Perm ((w.calls.length - 1) :: w.disk.performed) := by
  cases op with
  | write fd buf n => exact performed_append (by omega)
  | fsync fd => exact performed_sync (by omega)

theorem overrides_of_op {s : Stmt} {op : Op} (hop : s.op = some op) : s.overrides = false := by
  cases s with
  | ioUringSubmitWrite fd buf n => rfl
  | ioUringSubmitFsync fd => rfl
  | _ => cases hop

/-- Queueing the operation is what was due. -/
theorem due_queue {f : Frame} {s : Stmt} {rest : List Stmt} {op op' : Op}
    (hcall : f.call = .io op') (hcode : f.code = s :: rest) (hop : s.op = some op) :
    f.due = Frame.due { f with code := rest } + 1 := by
  have hpasses : f.passes = Frame.passes { f with code := rest } := by
    simp [Frame.passes, hcode, overrides_of_op hop]
  simp only [Frame.due, hcall, hpasses]
  rw [hcode, List.filterMap_cons_some hop, List.length_cons]
  omega

/-- A statement that neither queues nor overrides leaves the rest as due as it was. -/
theorem due_skip {f : Frame} {s : Stmt} {rest : List Stmt} (hcode : f.code = s :: rest)
    (hop : s.op = none) (hover : s.overrides = false) :
    f.due = Frame.due { f with code := rest } := by
  have hpasses : f.passes = Frame.passes { f with code := rest } := by
    simp [Frame.passes, hcode, hover]
  have hlen : f.code.filterMap Stmt.op = rest.filterMap Stmt.op := by
    rw [hcode, List.filterMap_cons_none hop]
  simp only [Frame.due, hpasses, hlen]

/-- A call that is about to be overridden was not going to the kernel before either. -/
theorem due_override {f : Frame} {v : Int} {rest : List Stmt}
    (hcode : f.code = .bpfOverrideReturn v :: rest) :
    f.due = Frame.due { f with code := rest, result := some v } := by
  have hbefore : f.passes = false := by
    simp [Frame.passes, hcode, Stmt.overrides]
  have hafter : Frame.passes { f with code := rest, result := some v } = false := by
    simp [Frame.passes]
  have hlen : f.code.filterMap Stmt.op = rest.filterMap Stmt.op := by
    rw [hcode, List.filterMap_cons_none rfl]
  simp only [Frame.due, hbefore, hafter, hlen]

theorem due_of_frame {f : Frame} (hframe : w.frame = some f) (j : Nat) :
    w.due j = if j + 1 = w.calls.length then f.due else 0 := by
  rw [World.due, hframe]
  rfl

/-- What the ring, the disk and the frame contribute decides the places. -/
theorem places_congr {j : Nat} (hids : t.ring.ids.count j = w.ring.ids.count j)
    (hperformed : t.disk.performed = w.disk.performed) (hdue : t.due j = w.due j) :
    t.places j = w.places j := by
  simp only [World.places, List.count_append, hids, hperformed, hdue]

theorem count_cons_nat (a j : Nat) (rest : List Nat) :
    (a :: rest).count j = rest.count j + if a = j then 1 else 0 := by
  rw [List.count_cons]
  simp

/-- A statement moves operations between places and adds or takes none. -/
theorem places_stmt {f : Frame} {s : Stmt} {rest : List Stmt} (hi : Accounted w)
    (hframe : w.frame = some f) (hcode : f.code = s :: rest)
    (hexec : ExecResult w { f with code := rest } s t) (j : Nat) :
    t.places j = w.places j := by
  have hdue := due_of_frame hframe j
  cases hexec with
  | init =>
      have hcalls : w.calls = [] :=
        hi.start f hframe (hi.setup f hframe (hcode ▸ List.mem_cons_self))
      have hnone : w.ring.ids = [] := by
        apply List.eq_nil_iff_forall_not_mem.mpr
        intro i hmem
        have hlt := hi.lt_of_inFlight (Ring.mem_ids.mp hmem)
        simp [hcalls] at hlt
      apply places_congr
      · rw [hnone]
        rfl
      · rfl
      · simp [World.due, hcalls]
  | @queue _ op hop =>
      have hcall : f.call = .io op := hi.own f hframe s (hcode ▸ List.mem_cons_self) op hop
      obtain ⟨bytes, hbytes⟩ := hi.current f hframe op hcall
      have hlast := length_of_getElem? hbytes
      have hids := (Ring.ids_prepare w.ring (w.entry op)).count_eq j
      rw [count_cons_nat, show (w.entry op).id = w.calls.length - 1 from rfl] at hids
      simp only [World.places, List.count_append, hdue, hids, due_queue hcall hcode hop]
      simp only [World.due, Option.elim_some]
      by_cases hj : j + 1 = w.calls.length
      · rw [if_pos hj, if_pos hj, if_pos (by omega)]
        omega
      · rw [if_neg hj, if_neg hj, if_neg (by omega)]
        omega
  | submit =>
      apply places_congr
      · exact (Ring.ids_submit w.ring).count_eq j
      · rfl
      · rw [hdue, due_skip hcode rfl rfl]
        rfl
  | seen hseen =>
      apply places_congr
      · exact congrArg (List.count j) (Ring.ids_seen hseen)
      · rfl
      · rw [hdue, due_skip hcode rfl rfl]
        rfl
  | assign =>
      apply places_congr
      · rfl
      · rfl
      · rw [hdue, due_skip hcode rfl rfl]
        rfl
  | override =>
      apply places_congr
      · rfl
      · rfl
      · rw [hdue, due_override hcode]
        rfl

/-- The return of a call that was not taken over hands its operation to the kernel. -/
theorem places_return {f : Frame} (hi : Accounted w) (hframe : w.frame = some f)
    (hcode : f.code = []) (j : Nat) : (w.return f).places j = w.places j := by
  have hdue := due_of_frame hframe j
  rw [World.places, due_idle (return_frame f), return_ring, return_disk, World.returnDisk]
  simp only [World.places, List.count_append, Nat.add_zero, hdue]
  cases hcall : f.call with
  | start => simp [Frame.due, hcall]
  | io op =>
      obtain ⟨bytes, hbytes⟩ := hi.current f hframe op hcall
      have hlast := length_of_getElem? hbytes
      cases hresult : f.result with
      | some v => simp [Frame.due, Frame.passes, hcall, hcode, hresult]
      | none =>
          have hcount := (performed_native (w := w) op).count_eq j
          rw [count_cons_nat] at hcount
          simp only [hcount, Frame.due, Frame.passes, hcall, hcode, hresult]
          by_cases hj : j + 1 = w.calls.length
          · rw [if_pos hj, if_pos (by omega)]
            simp
            omega
          · rw [if_neg hj, if_neg (by omega)]
            omega

/-- An operation that the kernel takes out of the ring and performs. -/
theorem places_performed {id : Nat} (hcalls : t.calls = w.calls) (hframe : t.frame = w.frame)
    (hids : w.ring.ids.Perm (id :: t.ring.ids))
    (hdisk : t.disk.performed.Perm (id :: w.disk.performed)) (j : Nat) :
    t.places j = w.places j := by
  have hdue : t.due j = w.due j := by rw [World.due, World.due, hcalls, hframe]
  have hout := hids.count_eq j
  have hadded := hdisk.count_eq j
  rw [count_cons_nat] at hout hadded
  simp only [World.places, List.count_append, hdue, hout, hadded]
  omega

/-- One that it takes out and fails. -/
theorem places_failed {id : Nat} (hcalls : t.calls = w.calls) (hframe : t.frame = w.frame)
    (hids : w.ring.ids.Perm (id :: t.ring.ids))
    (hdisk : t.disk.performed = w.disk.performed) (j : Nat) :
    t.places j ≤ w.places j := by
  have hdue : t.due j = w.due j := by rw [World.due, World.due, hcalls, hframe]
  have hout := hids.count_eq j
  rw [count_cons_nat] at hout
  simp only [World.places, List.count_append, hdue, hout, hdisk]
  omega

/-- Between two calls no operation gets a second place, and it loses its only one if the
kernel fails it and in no other way. -/
theorem places_step (hi : Accounted w) (hcall : ∀ call, l ≠ .call call)
    (hstep : step P w l = some t) (j : Nat) :
    t.places j ≤ w.places j ∧ (Succeeds w l → t.places j = w.places j) := by
  cases stepResult_of_step hstep with
  | @call call hidle => exact absurd rfl (hcall call)
  | stmt hframe hcode hexec =>
      have heq := places_stmt hi hframe hcode hexec j
      exact ⟨heq.le, fun _ => heq⟩
  | ret hframe hcode =>
      have heq := places_return hi hframe hcode j
      exact ⟨heq.le, fun _ => heq⟩
  | @execute i res e fd buf n hentry hop hres =>
      have hids := Ring.ids_execute hentry (⟨e.id, res⟩ : Slot Int)
      by_cases hneg : res < 0
      · refine ⟨places_failed (w := w) (t := w.execute i e fd buf n res) rfl rfl hids
          (performed_append_of_neg hneg) j, ?_⟩
        intro hok
        have hfull := hok e hentry
        rw [hop] at hfull
        simp only [Op.full] at hfull
        omega
      · have heq := places_performed (w := w) (t := w.execute i e fd buf n res) rfl rfl hids
          (performed_append hneg) j
        exact ⟨heq.le, fun _ => heq⟩
  | @begin i e fd hentry hop =>
      have heq : (w.begin i e fd).places j = w.places j :=
        places_congr ((Ring.ids_begin hentry rfl).count_eq j) rfl rfl
      exact ⟨heq.le, fun _ => heq⟩
  | @finish i res s hrunning hres =>
      have hids := Ring.ids_finish hrunning (⟨s.id, res⟩ : Slot Int)
      by_cases hneg : res < 0
      · refine ⟨places_failed (w := w) (t := w.finish i s res) rfl rfl hids
          (performed_sync_of_neg hneg) j, ?_⟩
        intro hok
        have hzero : res = 0 := hok
        omega
      · have heq := places_performed (w := w) (t := w.finish i s res) rfl rfl hids
          (performed_sync hneg) j
        exact ⟨heq.le, fun _ => heq⟩
  | store hidle => exact ⟨le_refl _, fun _ => rfl⟩

def World.called (w : World) (j : Nat) : Nat := if j < w.calls.length then 1 else 0

/-- A new call gets its one place with its frame. -/
theorem places_call (honce : P.Once) (hidle : w.frame = none) (call : Call) (j : Nat) :
    (w.call P call).places j + w.called j = w.places j + (w.call P call).called j := by
  have hledger : (w.call P call).ring.ids ++ (w.call P call).disk.performed =
      w.ring.ids ++ w.disk.performed := rfl
  rw [World.places, hledger, places_of_idle hidle,
    due_of_frame (w := w.call P call) (f := ⟨call, P.hook w.global call, none⟩) rfl]
  cases call with
  | start => simp [Frame.due, World.called, World.call, Call.issued]
  | io op =>
      have hlen : (w.call P (.io op)).calls.length = w.calls.length + 1 := by
        simp [World.call, Call.issued]
      rw [honce w.global op]
      simp only [World.called, hlen]
      by_cases hj : j = w.calls.length
      · subst hj
        simp
      · rw [if_neg (by omega)]
        by_cases hlt : j < w.calls.length
        · rw [if_pos hlt, if_pos (by omega)]
        · rw [if_neg hlt, if_neg (by omega)]

theorem called_of_not_call (hcall : ∀ call, l ≠ .call call) (hstep : step P w l = some t)
    (j : Nat) : t.called j = w.called j := by
  rw [World.called, calls_of_not_call hcall hstep, World.called]

/-- The kernel performed what the calls asked for: a write of the file it was on as a
write, an fsync as an fsync. -/
structure Genuine (w : World) : Prop where
  written : ∀ j fd, (j, fd) ∈ w.disk.written → w.IsWrite fd j
  synced : ∀ j, j ∈ w.disk.synced → w.IsFsync j

theorem Genuine.of_calls (h : Genuine w) (hcalls : w.calls <+: t.calls)
    (hwritten : ∀ j fd, (j, fd) ∈ t.disk.written →
      (j, fd) ∈ w.disk.written ∨ t.IsWrite fd j)
    (hsynced : ∀ j, j ∈ t.disk.synced → j ∈ w.disk.synced ∨ t.IsFsync j) : Genuine t := by
  constructor
  · intro j fd hj
    rcases hwritten j fd hj with hold | hnew
    · obtain ⟨buf, n, bytes, hc⟩ := h.written j fd hold
      exact ⟨buf, n, bytes, getElem?_of_extends hcalls hc⟩
    · exact hnew
  · intro j hj
    rcases hsynced j hj with hold | hnew
    · obtain ⟨fd, bytes, hc⟩ := h.synced j hold
      exact ⟨fd, bytes, getElem?_of_extends hcalls hc⟩
    · exact hnew

theorem written_append_cases {d : Disk} {id j : Nat} {fd fd' : Fd} {bytes : List UInt8}
    {res : Int} (h : (j, fd') ∈ (d.append id fd bytes res).written) :
    (j, fd') ∈ d.written ∨ j = id ∧ fd' = fd := by
  unfold Disk.append at h
  split at h
  · exact Or.inl h
  · rcases List.mem_append.mp h with hold | hnew
    · exact Or.inl hold
    · exact Or.inr (Prod.mk.inj (List.mem_singleton.mp hnew))

theorem written_sync (d : Disk) (id : Nat) (covers : List Nat) (res : Int) :
    (d.sync id covers res).written = d.written := by
  unfold Disk.sync
  split <;> rfl

theorem genuine_return {f : Frame} (hi : Accounted w) (h : Genuine w)
    (hframe : w.frame = some f) : Genuine (w.return f) := by
  have hcalls : w.calls <+: (w.return f).calls := by
    simp only [return_calls, List.prefix_refl]
  apply h.of_calls hcalls
  · intro j fd hj
    rw [return_disk, World.returnDisk] at hj
    split at hj
    · rename_i op hcall _
      obtain ⟨bytes, hbytes⟩ := hi.current f hframe op hcall
      cases op with
      | write fd' buf n =>
          rcases written_append_cases hj with hold | ⟨rfl, rfl⟩
          · exact Or.inl hold
          · exact Or.inr ⟨buf, n, bytes, by rw [return_calls, hbytes]⟩
      | fsync fd' =>
          rw [World.native, written_sync] at hj
          exact Or.inl hj
    · exact Or.inl hj
  · intro j hj
    rw [return_disk, World.returnDisk] at hj
    split at hj
    · rename_i op hcall _
      obtain ⟨bytes, hbytes⟩ := hi.current f hframe op hcall
      cases op with
      | write fd' buf n =>
          rw [World.native, synced_append] at hj
          exact Or.inl hj
      | fsync fd' =>
          rcases synced_sync hj with hold | rfl
          · exact Or.inl hold
          · exact Or.inr ⟨fd', bytes, by rw [return_calls, hbytes]⟩
    · exact Or.inl hj

theorem genuine_step (hi : Accounted w) (h : Genuine w) (hstep : step P w l = some t) :
    Genuine t := by
  have hcalls := calls_step hstep
  cases stepResult_of_step hstep with
  | call hidle => exact h.of_calls hcalls (fun _ _ hj => Or.inl hj) (fun _ hj => Or.inl hj)
  | stmt hframe hcode hexec =>
      apply h.of_calls hcalls
      · intro j fd hj
        rw [exec_disk hexec] at hj
        exact Or.inl hj
      · intro j hj
        rw [exec_disk hexec] at hj
        exact Or.inl hj
  | ret hframe hcode => exact genuine_return hi h hframe
  | @execute i res e fd buf n hentry hop hres =>
      apply h.of_calls hcalls
      · intro j fd' hj
        rcases written_append_cases hj with hold | ⟨rfl, rfl⟩
        · exact Or.inl hold
        · obtain ⟨bytes, hbytes⟩ := hi.entry e (Or.inr (List.mem_of_getElem? hentry))
          rw [hop] at hbytes
          exact Or.inr ⟨buf, n, bytes, hbytes⟩
      · intro j hj
        simp only [World.execute, synced_append] at hj
        exact Or.inl hj
  | begin hentry hop =>
      exact h.of_calls hcalls (fun _ _ hj => Or.inl hj) (fun _ hj => Or.inl hj)
  | @finish i res s hrunning hres =>
      apply h.of_calls hcalls
      · intro j fd hj
        simp only [World.finish, written_sync] at hj
        exact Or.inl hj
      · intro j hj
        rcases synced_sync hj with hold | rfl
        · exact Or.inl hold
        · obtain ⟨bytes, hbytes⟩ := hi.sync s (List.mem_of_getElem? hrunning)
          exact Or.inr ⟨s.val.fd, bytes, hbytes⟩
  | store hidle => exact h.of_calls hcalls (fun _ _ hj => Or.inl hj) (fun _ hj => Or.inl hj)

theorem genuine_attached (h : Attached w) : Genuine w := by
  constructor <;> simp [h.written, h.synced]

/-- No operation has two places, and none that has not been called has one. -/
structure AtMostOnce (w : World) : Prop where
  accounted : Accounted w
  genuine : Genuine w
  places : ∀ j, w.places j ≤ w.called j

theorem places_attached (h : Attached w) (j : Nat) : w.places j = 0 := by
  rw [places_of_idle h.frame]
  simp [h.ring, Ring.empty, Ring.ids, Disk.performed, h.written, h.synced]

theorem atMostOnce_of_startsFirst (honce : P.Once)
    (h : RunsUnder (system P) StartsFirst w) : AtMostOnce w := by
  refine h.invariant ?_ ?_
  · intro w hattached
    exact ⟨accounted_attached hattached, genuine_attached hattached,
      fun j => by simp [places_attached hattached j]⟩
  · intro w l t hw hstart hstep
    have haccounted := accounted_step hw.accounted hstart hstep
    have hgenuine := genuine_step hw.accounted hw.genuine hstep
    rcases call_or_between hstep with ⟨call, rfl, hidle, rfl⟩ | hcall
    · refine ⟨haccounted, hgenuine, fun j => ?_⟩
      have hplaces := places_call honce hidle call j
      have hbound := hw.places j
      omega
    · refine ⟨haccounted, hgenuine, fun j => ?_⟩
      rw [called_of_not_call hcall hstep]
      exact (places_step hw.accounted hcall hstep j).1.trans (hw.places j)

/-- Every operation that has been called has a place, and only one. -/
structure Conserved (w : World) : Prop where
  accounted : Accounted w
  genuine : Genuine w
  places : ∀ j, w.places j = w.called j

theorem conserved_of_succeeds (honce : P.Once)
    (h : RunsUnder (system P) (fun w l => StartsFirst w l ∧ Succeeds w l) w) :
    Conserved w := by
  refine h.invariant ?_ ?_
  · intro w hattached
    refine ⟨accounted_attached hattached, genuine_attached hattached, fun j => ?_⟩
    simp [places_attached hattached j, World.called, hattached.calls]
  · rintro w l t hw ⟨hstart, hok⟩ hstep
    have haccounted := accounted_step hw.accounted hstart hstep
    have hgenuine := genuine_step hw.accounted hw.genuine hstep
    rcases call_or_between hstep with ⟨call, rfl, hidle, rfl⟩ | hcall
    · refine ⟨haccounted, hgenuine, fun j => ?_⟩
      have hnew := places_call honce hidle call j
      have hold := hw.places j
      omega
    · refine ⟨haccounted, hgenuine, fun j => ?_⟩
      rw [called_of_not_call hcall hstep, (places_step hw.accounted hcall hstep j).2 hok]
      exact hw.places j

theorem due_batched (g : Int) (op : Op) :
    Frame.due ⟨.io op, batched g op.queue op.full, none⟩ = 1 := by
  have hqueue := queue_op op
  unfold batched
  split
  · rw [due_queue rfl rfl hqueue]
    simp [Frame.due, Frame.passes, Stmt.op, Stmt.overrides]
  · simp only [List.cons_append]
    rw [due_queue rfl rfl hqueue]
    simp [Frame.due, Frame.passes, Stmt.op, Stmt.overrides]
    rintro s (⟨-, rfl⟩ | rfl | rfl) <;> rfl

theorem batchProcess_once : batchProcess.Once := by
  intro g op
  rw [show batchProcess.hook g (.io op) = batched g op.queue op.full from batchHook_io g op]
  exact due_batched g op

theorem pocIouringMinimal_once : pocIouringMinimal.Once := by
  intro g op
  have hhook : pocIouringMinimal.hook g (.io op) =
      if op.isTaken then batched g op.queue op.full else [] := pocHook_io g op
  rw [hhook]
  split
  · exact due_batched g op
  · rfl

theorem delayedFsync_once : delayedFsync.Once := by
  intro g op
  cases op with
  | write fd buf n => rfl
  | fsync fd =>
      have hhook : delayedFsync.hook g (.io (.fsync fd)) = startFsync g fd := rfl
      rw [hhook, startFsync]
      split <;> rfl

theorem fsyncFastNotify_once : fsyncFastNotify.Once := by
  intro g op
  cases op with
  | write fd buf n => rfl
  | fsync fd => rfl

def durabilityPrograms : List Program :=
  [batchProcess, pocIouringMinimal, delayedFsync, fsyncFastNotify]

theorem durabilityPrograms_once (hP : P ∈ durabilityPrograms) : P.Once := by
  simp only [durabilityPrograms, List.mem_cons, List.not_mem_nil, or_false] at hP
  rcases hP with rfl | rfl | rfl | rfl
  · exact batchProcess_once
  · exact pocIouringMinimal_once
  · exact delayedFsync_once
  · exact fsyncFastNotify_once

/-- Under each of the programs, and whatever operations fail, none is performed twice or
is still in the ring once performed, and what was performed was asked for. -/
theorem performed_nodup (hP : P ∈ durabilityPrograms)
    (h : RunsUnder (system P) StartsFirst w) :
    (w.ring.ids ++ w.disk.performed).Nodup ∧ Genuine w := by
  have hinv := atMostOnce_of_startsFirst (durabilityPrograms_once hP) h
  refine ⟨?_, hinv.genuine⟩
  rw [List.nodup_iff_count_le_one]
  intro j
  have hplaces := hinv.places j
  have hcalled : w.called j ≤ 1 := by
    unfold World.called
    split <;> omega
  simp only [World.places] at hplaces
  omega

theorem performed_nodup_twoUpdates :
    ∃ w, w.disk.performed = [0, 2, 4, 1, 3] ∧
      (w.ring.ids ++ w.disk.performed).Nodup ∧ Genuine w := by
  have halong : Along (system delayedFsync) StartsFirst freshWorld twoUpdates := by
    decide +kernel
  have hrun : (Transition.exec (system delayedFsync) freshWorld twoUpdates).map
      (fun w => w.disk.performed) = some [0, 2, 4, 1, 3] := by decide +kernel
  obtain ⟨w, hw, hend⟩ := Option.map_eq_some_iff.mp hrun
  exact ⟨w, hend, performed_nodup (P := delayedFsync) (by simp [durabilityPrograms])
    (.exec twoUpdates (.start attached_freshWorld) halong hw)⟩

/-- When the kernel's operations succeed none is lost either: between two calls, the
operations in the ring and those performed are together all that have been called. -/
theorem performed_perm (hP : P ∈ durabilityPrograms)
    (h : RunsUnder (system P) (fun w l => StartsFirst w l ∧ Succeeds w l) w)
    (hidle : w.frame = none) :
    (w.ring.ids ++ w.disk.performed).Perm (List.range w.calls.length) ∧ Genuine w := by
  have hinv := conserved_of_succeeds (durabilityPrograms_once hP) h
  refine ⟨List.perm_iff_count.mpr fun j => ?_, hinv.genuine⟩
  rw [← places_of_idle hidle, hinv.places j, List.count_range]
  rfl

theorem performed_perm_twoUpdates :
    ∃ w, w.calls.length = 5 ∧
      (w.ring.ids ++ w.disk.performed).Perm (List.range 5) ∧ Genuine w := by
  have halong : Along (system delayedFsync) (fun w l => StartsFirst w l ∧ Succeeds w l)
      freshWorld twoUpdates := by decide +kernel
  have hrun : (Transition.exec (system delayedFsync) freshWorld twoUpdates).map
      (fun w => (w.calls.length, w.frame.isSome)) = some (5, false) := by decide +kernel
  obtain ⟨w, hw, hend⟩ := Option.map_eq_some_iff.mp hrun
  obtain ⟨hcalls, hframe⟩ := Prod.mk.inj hend
  refine ⟨w, hcalls, ?_⟩
  rw [← hcalls]
  exact performed_perm (P := delayedFsync) (by simp [durabilityPrograms])
    (.exec twoUpdates (.start attached_freshWorld) halong hw) (by simpa using hframe)

end BpftimeBenchmark.Redis
