import BpftimeBenchmark.Redis.BatchProcess
import BpftimeBenchmark.Redis.DelayedFsync
import BpftimeBenchmark.Redis.FastNotify

/-!
What the server learns of failed operations. Every handler overrides its call
with full success; the results that the completions carry are consumed without
being looked at.
-/

namespace BpftimeBenchmark.Redis

open Uring Transition

/-- The numbers of the calls whose operation has failed or fallen short. -/
structure Audited where
  world : World
  failed : List Nat

def failure (w : World) : Label → List Nat
  | .execute i res =>
      match w.ring.submitted[i]? with
      | some e => if res = e.val.full then [] else [e.id]
      | none => []
  | .finish i res =>
      match w.ring.running[i]? with
      | some s => if res = 0 then [] else [s.id]
      | none => []
  | _ => []

def audited (P : Program) : System Audited Label where
  start x := Attached x.world ∧ x.failed = []
  step x l := (step P x.world l).map (fun t => ⟨t, x.failed ++ failure x.world l⟩)

/-- In some continuation the call `id`, or one after it, returns something other
than full success. -/
def Reported (P : Program) (x : Audited) (id : Nat) : Prop :=
  ∃ schedule t, exec (system P) x.world schedule = some t ∧
    ∃ j c v, id ≤ j ∧ t.calls[j]? = some c ∧ t.returns[j]? = some v ∧ v ≠ c.op.full

def HidesNothing (P : Program) (x : Audited) : Prop :=
  ∀ id ∈ x.failed, Reported P x id

/-- The handlers override with full success only. -/
def Program.Acknowledges (P : Program) : Prop :=
  ∀ g call v, .bpfOverrideReturn v ∈ P.hook g call → ∃ op, call = .io op ∧ v = op.full

structure Acknowledged (w : World) : Prop where
  returns : w.returns.length + w.inCall = w.calls.length
  current : ∀ f ∈ w.frame, ∀ op, f.call = .io op →
    ∃ bytes, w.calls[w.calls.length - 1]? = some ⟨op, bytes⟩
  code : ∀ f ∈ w.frame, ∀ v, .bpfOverrideReturn v ∈ f.code →
    ∃ op, f.call = .io op ∧ v = op.full
  result : ∀ f ∈ w.frame, ∀ v, f.result = some v → ∃ op, f.call = .io op ∧ v = op.full
  full : ∀ (j : Nat) (c : Issued) (v : Int), w.calls[j]? = some c →
    w.returns[j]? = some v → v = c.op.full

variable {P : Program} {w t : World} {l : Label}

theorem acknowledged_attached (h : Attached w) : Acknowledged w := by
  constructor <;> simp [h.frame, h.calls, h.returns, World.inCall]

theorem Acknowledged.of_same (hi : Acknowledged w) (hcalls : t.calls = w.calls)
    (hframe : t.frame = w.frame) (hreturns : t.returns = w.returns) :
    Acknowledged t := by
  constructor
  · rw [hreturns, World.inCall, hframe, hcalls]
    exact hi.returns
  · rw [hcalls, hframe]
    exact hi.current
  · rw [hframe]
    exact hi.code
  · rw [hframe]
    exact hi.result
  · rw [hcalls, hreturns]
    exact hi.full

theorem acknowledged_call {call : Call} (hack : P.Acknowledges) (hi : Acknowledged w)
    (hidle : w.frame = none) : Acknowledged (w.call P call) := by
  have hreturns := hi.returns
  simp only [World.inCall, hidle] at hreturns
  constructor
  · exact call_inCall hidle hi.returns
  · rintro f ⟨rfl⟩ op hop
    have hcall : call = .io op := hop
    subst hcall
    exact ⟨op.bytes w.mem, by simp [World.call, Call.issued]⟩
  · rintro f ⟨rfl⟩ v hv
    exact hack w.global call v hv
  · rintro f ⟨rfl⟩ v hv
    cases hv
  · intro j c v hc hv
    have hv : w.returns[j]? = some v := hv
    have hold : j < w.calls.length := by
      rw [← hreturns]
      exact length_of_getElem? hv
    have hcalls : (w.call P call).calls[j]? = w.calls[j]? :=
      List.getElem?_append_left hold
    rw [hcalls] at hc
    exact hi.full j c v hc hv

theorem acknowledged_stmt {f : Frame} {s : Stmt} {rest : List Stmt}
    (hi : Acknowledged w) (hframe : w.frame = some f) (hcode : f.code = s :: rest)
    (hexec : ExecResult w { f with code := rest } s t) : Acknowledged t := by
  have hcalls := exec_calls hexec
  have hreturns := exec_returns hexec
  obtain ⟨v, hv⟩ := exec_frame hexec
  constructor
  · rw [hreturns, hcalls, exec_inCall hframe hexec]
    exact hi.returns
  · rw [hcalls, hv]
    rintro g ⟨rfl⟩
    exact hi.current f hframe
  · rw [hv]
    rintro g ⟨rfl⟩ u hu
    exact hi.code f hframe u (hcode ▸ List.mem_cons_of_mem _ hu)
  · intro g hg u hu
    cases hexec with
    | override =>
        cases hg
        cases hu
        exact hi.code f hframe _ (hcode ▸ List.mem_cons_self)
    | init | queue _ | submit | seen _ | assign =>
        cases hg
        exact hi.result f hframe u hu
  · rw [hcalls, hreturns]
    exact hi.full

theorem acknowledged_return {f : Frame} (hi : Acknowledged w)
    (hframe : w.frame = some f) : Acknowledged (w.return f) := by
  have hreturns := hi.returns
  refine ⟨?_, ?_, ?_, ?_, ?_⟩
  · rw [return_calls, return_inCall hframe]
    exact hreturns
  · simp [return_frame]
  · simp [return_frame]
  · simp [return_frame]
  · intro j c v hc hv
    rw [return_calls] at hc
    cases hcall : f.call with
    | start =>
        simp only [World.return, hcall] at hv
        exact hi.full j c v hc hv
    | io op =>
        obtain ⟨bytes, hlast⟩ := hi.current f hframe op hcall
        have hlen : w.calls.length = w.returns.length + 1 := by
          rcases f with ⟨call, code, result⟩
          cases hcall
          rw [← hreturns]
          simp [World.inCall, hframe]
        have hnew : ∀ u, u = op.full → (w.returns ++ [u])[j]? = some v →
            v = c.op.full := by
          intro u hu hget
          rcases getElem?_concat_cases hget with hold | ⟨rfl, rfl⟩
          · exact hi.full j c v hc hold
          · have hindex : w.calls.length - 1 = w.returns.length := by omega
            rw [hindex, hc] at hlast
            cases hlast
            exact hu
        cases hresult : f.result with
        | none =>
            simp only [World.return, hcall, hresult] at hv
            exact hnew op.full rfl hv
        | some u =>
            simp only [World.return, hcall, hresult] at hv
            obtain ⟨op', hcall', hu⟩ := hi.result f hframe u hresult
            rw [hcall] at hcall'
            cases hcall'
            exact hnew u hu hv

theorem acknowledged_step (hack : P.Acknowledges) (hi : Acknowledged w)
    (h : step P w l = some t) : Acknowledged t := by
  cases stepResult_of_step h with
  | call hidle => exact acknowledged_call hack hi hidle
  | stmt hframe hcode hexec => exact acknowledged_stmt hi hframe hcode hexec
  | ret hframe hcode => exact acknowledged_return hi hframe
  | execute _ _ _ | begin _ _ | finish _ _ | store _ => exact hi.of_same rfl rfl rfl

theorem acknowledged_exec (hack : P.Acknowledges) (schedule : List Label)
    (hi : Acknowledged w) (h : exec (system P) w schedule = some t) :
    Acknowledged t := by
  induction schedule generalizing w with
  | nil =>
      cases h
      exact hi
  | cons l rest ih =>
      obtain ⟨next, hnext, hrest⟩ := Option.bind_eq_some_iff.mp h
      exact ih (acknowledged_step hack hi hnext) hrest

theorem acknowledged_audited {x : Audited} (hack : P.Acknowledges)
    (h : Reachable (audited P) x) : Acknowledged x.world := by
  refine @RunsUnder.invariant _ _ _ _ (fun x => Acknowledged x.world) ?_ ?_ _ h
  · exact fun s hs => acknowledged_attached hs.1
  · intro s l y hi _ hstep
    obtain ⟨t, ht, rfl⟩ := Option.map_eq_some_iff.mp hstep
    exact acknowledged_step hack hi ht

/-- Under such a program no failure is ever reported. -/
theorem not_reported {x : Audited} (hack : P.Acknowledges)
    (h : Reachable (audited P) x) (id : Nat) : ¬ Reported P x id := by
  rintro ⟨schedule, t, ht, j, c, v, -, hc, hv, hne⟩
  exact hne ((acknowledged_exec hack schedule (acknowledged_audited hack h) ht).full
    j c v hc hv)

theorem batchProcess_acknowledges : batchProcess.Acknowledges := by
  intro g call v hv
  cases call with
  | start => cases List.mem_singleton.mp hv
  | io op =>
      have hv : .bpfOverrideReturn v ∈ batched g op.queue op.full := by
        rw [← batchHook_io]
        exact hv
      refine ⟨op, rfl, ?_⟩
      unfold batched at hv
      split at hv <;> cases op <;> simpa [Op.queue] using hv

theorem delayedFsync_acknowledges : delayedFsync.Acknowledges := by
  intro g call v hv
  cases call with
  | start => simp [delayedFsync, delayedHook, startConfig] at hv
  | io op =>
      cases op with
      | write fd buf n => cases hv
      | fsync fd =>
          refine ⟨.fsync fd, rfl, ?_⟩
          rcases mem_startFsync hv with h | h | h | h | h <;> cases h
          rfl

theorem fsyncFastNotify_acknowledges : fsyncFastNotify.Acknowledges := by
  intro g call v hv
  cases call with
  | start => cases List.mem_singleton.mp hv
  | io op =>
      refine ⟨op, rfl, ?_⟩
      cases op <;> simpa [fsyncFastNotify, fastHook, notified, Op.full] using hv

/-- For each of the three programs and in every run: failures are reported to
the server exactly when there are none. -/
theorem hidesNothing_iff (x : Audited) :
    ∀ P ∈ [batchProcess, delayedFsync, fsyncFastNotify], Reachable (audited P) x →
      (HidesNothing P x ↔ x.failed = []) := by
  intro P hP h
  have hack : P.Acknowledges := by
    simp only [List.mem_cons, List.not_mem_nil, or_false] at hP
    rcases hP with rfl | rfl | rfl
    · exact batchProcess_acknowledges
    · exact delayedFsync_acknowledges
    · exact fsyncFastNotify_acknowledges
  constructor
  · intro hhides
    apply List.eq_nil_iff_forall_not_mem.mpr
    intro id hid
    exact not_reported hack h id (hhides id hid)
  · intro hnone id hid
    rw [hnone] at hid
    cases hid

def freshAudit : Audited := ⟨freshWorld, []⟩

/-- The first write meets a full disk. -/
def diskFull : List Label :=
  [.call .start, .tick, .tick, .call (.io (.write 3 64 8)), .tick, .tick,
    .execute 0 (-28), .tick, .tick, .tick]

/-- The write that failed with `ENOSPC` has returned 8, and nothing that follows
can tell. -/
theorem enospc_is_hidden :
    ∃ x, Reachable (audited fsyncFastNotify) x ∧ x.failed = [0] ∧
      x.world.returns = [8] ∧ ¬ HidesNothing fsyncFastNotify x := by
  have hrun : (exec (audited fsyncFastNotify) freshAudit diskFull).map
      (fun x => (x.failed, x.world.returns)) = some ([0], [8]) := by decide +kernel
  obtain ⟨x, hx, hend⟩ := Option.map_eq_some_iff.mp hrun
  simp only [Prod.mk.injEq] at hend
  obtain ⟨hfailed, hreturns⟩ := hend
  have hreach : Reachable (audited fsyncFastNotify) x :=
    Reachable.exec diskFull (.start ⟨attached_freshWorld, rfl⟩) hx
  refine ⟨x, hreach, hfailed, hreturns, ?_⟩
  intro hhides
  apply not_reported fsyncFastNotify_acknowledges hreach 0
  apply hhides
  rw [hfailed]
  exact List.mem_singleton.mpr rfl

/-- The same write on a disk with room. -/
theorem hidesNothing_iff_room :
    ∃ x, x.world.returns = [8] ∧ HidesNothing fsyncFastNotify x := by
  have hrun : (exec (audited fsyncFastNotify) freshAudit
      [.call .start, .tick, .tick, .call (.io (.write 3 64 8)), .tick, .tick,
        .execute 0 8, .tick, .tick, .tick]).map
      (fun x => (x.failed, x.world.returns)) = some ([], [8]) := by decide +kernel
  obtain ⟨x, hx, hend⟩ := Option.map_eq_some_iff.mp hrun
  simp only [Prod.mk.injEq] at hend
  have hreach : Reachable (audited fsyncFastNotify) x :=
    Reachable.exec _ (.start ⟨attached_freshWorld, rfl⟩) hx
  exact ⟨x, hend.2, (hidesNothing_iff x fsyncFastNotify (by simp) hreach).mpr hend.1⟩

end BpftimeBenchmark.Redis
