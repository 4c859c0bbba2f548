import BpftimeBenchmark.Redis.DelayedFsync

/-!
When `start_fsync` of `delayed-fsync` waits. The counter decides: it is 0 before
any `start_config`, -1 after each and 0 after each `start_fsync`. Two counts of
the run beside the world tell what has been submitted and what has been reaped.
-/

namespace BpftimeBenchmark.Redis

open Uring Transition

structure Watched where
  world : World
  submitted : Nat
  reaped : Nat

def Watched.after (x : Watched) (t : World) : Label → Watched
  | .tick =>
      match x.world.code with
      | .ioUringSubmit :: _ =>
          ⟨t, x.submitted + x.world.ring.queued.length, x.reaped⟩
      | .ioUringWaitAndSeen :: _ => ⟨t, x.submitted, x.reaped + 1⟩
      | _ => ⟨t, x.submitted, x.reaped⟩
  | _ => ⟨t, x.submitted, x.reaped⟩

def watched (P : Program) : System Watched Label where
  start x := Attached x.world ∧ x.submitted = 0 ∧ x.reaped = 0
  step x l := (step P x.world l).map (fun t => x.after t l)

/-- A wait that is about to be made has an fsync to wait for, and between calls
at most one is left unreaped. -/
structure WaitsForOne (x : Watched) : Prop where
  owed : x.world.code.head? = some .ioUringWaitAndSeen → x.reaped < x.submitted
  atMostOne : x.world.frame = none → x.submitted ≤ x.reaped + 1

/-- A `start_fsync` comes after a `start_config`, and after no other one that
itself comes after a `start_fsync`. -/
def Configured (x : Watched) : Label → Prop
  | .call (.io (.fsync _)) => 0 < x.world.inits ∧ (x.world.global = -1 → x.submitted = 0)
  | _ => True

instance (x : Watched) : ∀ l, Decidable (Configured x l)
  | .call (.io (.fsync _)) =>
      inferInstanceAs (Decidable
        (0 < x.world.inits ∧ (x.world.global = -1 → x.submitted = 0)))
  | .call .start | .call (.io (.write _ _ _)) | .tick | .execute _ _ | .begin _
  | .finish _ _ | .store _ _ => isTrue trivial

/-- What is queued, and what of all that was submitted is not reaped. -/
def Watched.tally (x : Watched) : Tally :=
  ⟨x.world.ring.queued.length, x.submitted - x.reaped⟩

def Watched.settles (x : Watched) : Option (Int × Tally) :=
  (x.tally.run 1 (x.world.code.filterMap Stmt.command)).map
    (fun n => (finalGlobal x.world.global x.world.code, n))

/-- Where a handler ends: with the counter at 0 one fsync is unreaped, unless
nothing has been called yet. -/
def Rests (x : Watched) (r : Int × Tally) : Prop :=
  r.2.queued = 0 ∧ r.2.outstanding ≤ 1 ∧
    (r.1 = -1 ∨ (r.1 = 0 ∧ r.2.outstanding = 1) ∨
      (x.world.inits = 0 ∧ x.world.code = []))

structure WaitInv (x : Watched) : Prop where
  reaped : x.reaped ≤ x.submitted
  setup : ∀ f ∈ x.world.frame, .ioUringInitGlobal ∈ f.code → f.call = .start
  starting : ∀ f ∈ x.world.frame, f.call = .start → x.world.ring.queued = []
  setupOnly : ∀ f ∈ x.world.frame, f.call = .start → ∀ s ∈ f.code, s.command = none
  settled : ∃ r, x.settles = some r ∧ Rests x r

variable {x y : Watched} {w t : World} {l : Label}

theorem waitInv_attached (hw : Attached x.world) (hsubmitted : x.submitted = 0)
    (hreaped : x.reaped = 0) : WaitInv x := by
  have hcode : x.world.code = [] := by
    rw [World.code, hw.frame]
  refine ⟨by omega, by simp [hw.frame], by simp [hw.frame], by simp [hw.frame],
    (0, ⟨0, 0⟩), ?_, rfl, by simp, Or.inr (Or.inr ⟨hw.inits, hcode⟩)⟩
  rw [Watched.settles, Watched.tally, hcode, hw.ring, hsubmitted, hreaped, hw.global]
  rfl

/-- A step that leaves the frame and the queue alone keeps the invariant. -/
theorem WaitInv.of_same (hi : WaitInv x) (hframe : t.frame = x.world.frame)
    (hglobal : t.global = x.world.global) (hinits : t.inits = x.world.inits)
    (hqueued : t.ring.queued = x.world.ring.queued) :
    WaitInv ⟨t, x.submitted, x.reaped⟩ := by
  have hcode : t.code = x.world.code := by
    rw [World.code, World.code, hframe]
  obtain ⟨r, hsettles, hrests⟩ := hi.settled
  refine ⟨hi.reaped, ?_, ?_, ?_, r, ?_, ?_⟩
  · rw [hframe]
    exact hi.setup
  · rw [hframe, hqueued]
    exact hi.starting
  · rw [hframe]
    exact hi.setupOnly
  · rw [← hsettles, Watched.settles, Watched.settles, Watched.tally, Watched.tally,
      hcode, hqueued, hglobal]
  · rw [Rests, hinits, hcode]
    exact hrests

/-- Between calls the counter and the tally are where the last handler ended. -/
theorem WaitInv.idle (hi : WaitInv x) (hidle : x.world.frame = none) :
    Rests x (x.world.global, x.tally) := by
  obtain ⟨r, hsettles, hrests⟩ := hi.settled
  have hcode : x.world.code = [] := by
    rw [World.code, hidle]
  rw [Watched.settles, hcode] at hsettles
  obtain rfl := Option.some.inj hsettles
  exact hrests

theorem settles_called {call : Call} {r : Int × Tally}
    (h : (x.tally.run 1 ((delayedHook x.world.global call).filterMap Stmt.command)).map
      (fun n => (finalGlobal x.world.global (delayedHook x.world.global call), n)) =
        some r) :
    Watched.settles ⟨x.world.call delayedFsync call, x.submitted, x.reaped⟩ = some r := h

theorem waitInv_call {call : Call} (hi : WaitInv x) (hok : Configured x (.call call))
    (hidle : x.world.frame = none) :
    WaitInv ⟨x.world.call delayedFsync call, x.submitted, x.reaped⟩ := by
  obtain ⟨hqueued, hfew, hcase⟩ := hi.idle hidle
  have hempty : x.world.ring.queued = [] := List.eq_nil_of_length_eq_zero hqueued
  have htally : x.tally = ⟨0, x.tally.outstanding⟩ := by
    rw [← hqueued]
  refine ⟨hi.reaped, ?_, ?_, ?_, ?_⟩
  · rintro f ⟨rfl⟩ hinit
    exact delayedFsync.setup x.world.global call hinit
  · rintro f ⟨rfl⟩ -
    exact hempty
  · rintro f ⟨rfl⟩ hcall s hs
    have hcall : call = .start := hcall
    subst hcall
    exact delayedFsync.setupOnly x.world.global s hs
  · cases call with
    | start =>
        refine ⟨(-1, x.tally), settles_called ?_, hqueued, hfew, Or.inl rfl⟩
        rfl
    | io op =>
        cases op with
        | write fd buf n =>
            refine ⟨(x.world.global, x.tally), settles_called ?_, hqueued, hfew, ?_⟩
            · rfl
            · rcases hcase with hconfig | hlater | ⟨hinits, -⟩
              · exact Or.inl hconfig
              · exact Or.inr (Or.inl hlater)
              · exact Or.inr (Or.inr ⟨hinits, rfl⟩)
        | fsync fd =>
            obtain ⟨hinits, hfirst⟩ := hok
            refine ⟨(0, ⟨0, 1⟩), settles_called ?_, rfl, le_rfl, Or.inr (Or.inl ⟨rfl, rfl⟩)⟩
            rcases hcase with hconfig | ⟨hglobal, hone⟩ | ⟨hnone, -⟩
            · have hglobal : x.world.global = -1 := hconfig
              have hzero : x.tally.outstanding = 0 := by
                simp only [Watched.tally, hfirst hglobal]
                omega
              rw [htally, hzero, hglobal]
              rfl
            · have hglobal : x.world.global = 0 := hglobal
              have hone : x.tally.outstanding = 1 := hone
              rw [htally, hone, hglobal]
              rfl
            · omega

/-- What is left of a handler settles as it was going to. -/
theorem WaitInv.left {s : Stmt} {rest : List Stmt} (hi : WaitInv x)
    (hcode : x.world.code = s :: rest) :
    ∃ n, x.tally.run 1 ((s :: rest).filterMap Stmt.command) = some n ∧
      n.queued = 0 ∧ n.outstanding ≤ 1 ∧
      (finalGlobal x.world.global (s :: rest) = -1 ∨
        (finalGlobal x.world.global (s :: rest) = 0 ∧ n.outstanding = 1)) := by
  obtain ⟨r, hsettles, hqueued, hfew, hcase⟩ := hi.settled
  obtain ⟨n, hrun, rfl⟩ := Option.map_eq_some_iff.mp hsettles
  rw [hcode] at hrun hcase
  refine ⟨n, hrun, hqueued, hfew, ?_⟩
  rcases hcase with hconfig | hlater | ⟨-, hnone⟩
  · exact Or.inl hconfig
  · exact Or.inr hlater
  · cases hnone

/-- After a statement: the frame has the rest, which is to settle as before. -/
theorem WaitInv.of_stmt {f : Frame} {s : Stmt} {rest : List Stmt} {n : Tally}
    {v : Option Int} {submitted reaped : Nat} (hi : WaitInv x)
    (hframe : x.world.frame = some f) (hcode : f.code = s :: rest)
    (htframe : t.frame = some { f with code := rest, result := v })
    (hle : reaped ≤ submitted) (hstart : f.call = .start → t.ring.queued = [])
    (hqueued : n.queued = 0) (hfew : n.outstanding ≤ 1)
    (hends : finalGlobal t.global rest = -1 ∨
      (finalGlobal t.global rest = 0 ∧ n.outstanding = 1))
    (hrun : Tally.run 1 ⟨t.ring.queued.length, submitted - reaped⟩
      (rest.filterMap Stmt.command) = some n) : WaitInv ⟨t, submitted, reaped⟩ := by
  have hrest : ∀ u, u ∈ rest → u ∈ f.code := by
    intro u hu
    rw [hcode]
    exact List.mem_cons_of_mem _ hu
  have htcode : t.code = rest := by
    rw [World.code, htframe]
  refine ⟨hle, ?_, ?_, ?_, (finalGlobal t.global rest, n), ?_, hqueued, hfew, ?_⟩
  · simp only [htframe]
    rintro g ⟨rfl⟩ hinit
    exact hi.setup f hframe (hrest _ hinit)
  · simp only [htframe]
    rintro g ⟨rfl⟩
    exact hstart
  · simp only [htframe]
    rintro g ⟨rfl⟩ hcall u hu
    exact hi.setupOnly f hframe hcall u (hrest u hu)
  · simp only [Watched.settles, Watched.tally, htcode, hrun, Option.map_some]
  · rcases hends with hconfig | hlater
    · exact Or.inl hconfig
    · exact Or.inr (Or.inl hlater)

theorem waitInv_stmt {f : Frame} {s : Stmt} {rest : List Stmt} (hi : WaitInv x)
    (hframe : x.world.frame = some f) (hcode : f.code = s :: rest)
    (hexec : ExecResult x.world { f with code := rest } s t) :
    WaitInv (x.after t .tick) := by
  have hwcode : x.world.code = s :: rest := by
    rw [World.code, hframe, ← hcode]
  obtain ⟨v, htframe⟩ := exec_frame hexec
  obtain ⟨n, hrun, hqueued, hfew, hends⟩ := hi.left hwcode
  have hgoal : ∀ submitted reaped : Nat, reaped ≤ submitted →
      (f.call = .start → t.ring.queued = []) →
      finalGlobal t.global rest = finalGlobal x.world.global (s :: rest) →
      Tally.run 1 ⟨t.ring.queued.length, submitted - reaped⟩
        (rest.filterMap Stmt.command) = some n →
      WaitInv ⟨t, submitted, reaped⟩ := by
    intro submitted reaped hle hstart hglobal
    exact hi.of_stmt hframe hcode htframe hle hstart hqueued hfew (by rw [hglobal]; exact hends)
  have hstep : ∀ c : Command, s.command = some c → ∃ n',
      x.tally.apply 1 c = some n' ∧
        n'.run 1 (rest.filterMap Stmt.command) = some n := by
    intro c hc
    rw [List.filterMap_cons_some hc] at hrun
    exact Option.bind_eq_some_iff.mp hrun
  have hstart : ∀ c : Command, s.command = some c → f.call ≠ .start := by
    intro c hc hcall
    rw [hi.setupOnly f hframe hcall s (hcode ▸ List.mem_cons_self)] at hc
    cases hc
  have hlength : x.reaped ≤ x.submitted := hi.reaped
  cases hexec with
  | init =>
      simp only [Watched.after, hwcode]
      apply hgoal _ _ hlength (fun _ => rfl) rfl
      have hcall := hi.setup f hframe (hcode ▸ List.mem_cons_self)
      have hempty := hi.starting f hframe hcall
      rw [List.filterMap_cons_none rfl, Watched.tally, hempty] at hrun
      exact hrun
  | queue hop =>
      obtain ⟨hcommand, hassign⟩ := command_of_op hop
      obtain ⟨n', happly, hrun'⟩ := hstep _ hcommand
      obtain ⟨hzero, -, rfl⟩ := Tally.apply_prepare happly
      have hzero : x.submitted - x.reaped = 0 := hzero
      have hafter : ∀ u, x.after u .tick = ⟨u, x.submitted, x.reaped⟩ := by
        intro u
        simp only [Watched.after, hwcode]
        cases s <;> first | rfl | cases hop
      rw [hafter]
      apply hgoal _ _ hlength (fun hcall => absurd hcall (hstart _ hcommand))
      · cases s <;> first | rfl | exact absurd rfl (hassign _)
      · rw [hzero]
        simp only [Ring.prepare, List.length_append, List.length_singleton]
        exact hrun'
  | submit =>
      obtain ⟨n', happly, hrun'⟩ := hstep _ rfl
      cases happly
      simp only [Watched.after, hwcode]
      apply hgoal _ _ (by omega) (fun hcall => absurd hcall (hstart _ rfl)) rfl
      rw [Nat.sub_add_comm hlength]
      exact hrun'
  | seen hseen =>
      obtain ⟨c, -, hqueue, -, -⟩ := Ring.seen_cases hseen
      obtain ⟨n', happly, hrun'⟩ := hstep _ rfl
      obtain ⟨howed, rfl⟩ := Tally.apply_wait happly
      have howed : 0 < x.submitted - x.reaped := howed
      simp only [Watched.after, hwcode]
      apply hgoal _ _ (by omega) (fun hcall => absurd hcall (hstart _ rfl)) rfl
      rw [hqueue, ← Nat.sub_sub]
      exact hrun'
  | assign | override =>
      simp only [Watched.after, hwcode]
      apply hgoal _ _ hlength (fun hcall => hi.starting f hframe hcall) rfl
      rw [List.filterMap_cons_none rfl] at hrun
      exact hrun

theorem waitInv_step (hi : WaitInv x) (hok : Configured x l)
    (h : (watched delayedFsync).step x l = some y) : WaitInv y := by
  obtain ⟨t, ht, rfl⟩ := Option.map_eq_some_iff.mp h
  cases stepResult_of_step ht with
  | call hidle => exact waitInv_call hi hok hidle
  | stmt hframe hcode hexec => exact waitInv_stmt hi hframe hcode hexec
  | @ret f hframe hcode =>
      have hwcode : x.world.code = [] := by
        rw [World.code, hframe, ← hcode]
      have htcode : (x.world.return f).code = [] := by
        rw [World.code, return_frame]
      have hkept : (x.world.return f).global = x.world.global ∧
          (x.world.return f).inits = x.world.inits := by
        unfold World.return
        cases f.call with
        | start => exact ⟨rfl, rfl⟩
        | io op => cases f.result <;> exact ⟨rfl, rfl⟩
      obtain ⟨r, hsettles, hrests⟩ := hi.settled
      simp only [Watched.after, hwcode]
      refine ⟨hi.reaped, by simp [return_frame], by simp [return_frame],
        by simp [return_frame], r, ?_, ?_⟩
      · rw [← hsettles, Watched.settles, Watched.settles, Watched.tally, Watched.tally,
          return_ring, hkept.1, htcode, hwcode]
      · simp only [Rests, hkept.2, htcode]
        simp only [Rests, hwcode] at hrests
        exact hrests
  | execute _ _ _ | begin _ _ | finish _ _ => exact hi.of_same rfl rfl rfl rfl
  | store _ => exact hi.of_same rfl rfl rfl rfl

/-- In every run in which `start_fsync` finds the program configured, it waits
only for an fsync that is there and leaves one behind. -/
theorem waitsForOne_of_configured (h : RunsUnder (watched delayedFsync) Configured x) :
    WaitsForOne x := by
  have hinv : WaitInv x := by
    apply h.invariant
    · rintro s ⟨hw, hsubmitted, hreaped⟩
      exact waitInv_attached hw hsubmitted hreaped
    · exact fun s l t hi hok hstep => waitInv_step hi hok hstep
  obtain ⟨r, hsettles, hrests⟩ := hinv.settled
  constructor
  · intro hnext
    obtain ⟨rest, hcode⟩ : ∃ rest, x.world.code = .ioUringWaitAndSeen :: rest := by
      cases hcode : x.world.code with
      | nil => simp [hcode] at hnext
      | cons s rest =>
          rw [hcode] at hnext
          cases hnext
          exact ⟨rest, rfl⟩
    obtain ⟨n, hrun, -⟩ := Option.map_eq_some_iff.mp hsettles
    rw [hcode] at hrun
    obtain ⟨n', happly, -⟩ := Option.bind_eq_some_iff.mp hrun
    have howed : 0 < x.submitted - x.reaped := (Tally.apply_wait happly).1
    omega
  · intro hidle
    have hfew := (hinv.idle hidle).2.1
    simp only [Watched.tally] at hfew
    omega

def freshWatched : Watched := ⟨freshWorld, 0, 0⟩

theorem start_freshWatched : (watched delayedFsync).start freshWatched :=
  ⟨attached_freshWorld, rfl, rfl⟩

/-- One call with its handler, `n` steps. -/
def handled (call : Call) (n : Nat) : List Label :=
  .call call :: List.replicate n .tick

/-- `start_config` runs again after a `start_fsync`, and another one follows. -/
def configuredTwice : List Label :=
  handled .start 3 ++ handled (.io (.fsync 3)) 5 ++ handled .start 3 ++
    handled (.io (.fsync 3)) 5

/-- A first `start_fsync` without a `start_config` is about to wait with nothing
submitted; after a second `start_config` two fsyncs are left unreaped. -/
theorem waits_for_nothing :
    (∃ x, Reachable (watched delayedFsync) x ∧
      x.world.code.head? = some .ioUringWaitAndSeen ∧ x.submitted = 0 ∧
        ¬ WaitsForOne x) ∧
    ∃ x, Reachable (watched delayedFsync) x ∧ x.world.code = [] ∧
      x.submitted = 2 ∧ x.reaped = 0 ∧ ¬ WaitsForOne x := by
  have hfirst : (exec (watched delayedFsync) freshWatched
      (handled (.io (.fsync 3)) 0)).map (fun x => (x.world.code.head?, x.submitted)) =
      some (some .ioUringWaitAndSeen, 0) := by decide +kernel
  have hagain : (exec (watched delayedFsync) freshWatched configuredTwice).map
      (fun x => (x.world.frame.isNone, x.submitted, x.reaped)) = some (true, 2, 0) := by
    decide +kernel
  obtain ⟨x, hx, hend⟩ := Option.map_eq_some_iff.mp hfirst
  simp only [Prod.mk.injEq] at hend
  obtain ⟨y, hy, hend'⟩ := Option.map_eq_some_iff.mp hagain
  simp only [Prod.mk.injEq] at hend'
  obtain ⟨hidle, hsubmitted, hreaped⟩ := hend'
  have hidle : y.world.frame = none := Option.isNone_iff_eq_none.mp hidle
  obtain ⟨hnext, hnone⟩ := hend
  refine ⟨⟨x, Reachable.exec _ (.start start_freshWatched) hx, hnext, hnone, ?_⟩,
    y, Reachable.exec _ (.start start_freshWatched) hy, ?_, hsubmitted, hreaped, ?_⟩
  · intro hwaits
    have howed := hwaits.owed hnext
    omega
  · rw [World.code, hidle]
  · intro hwaits
    have hfew := hwaits.atMostOne hidle
    omega

/-- One `start_config`, then two `start_fsync`, the second of which waits. -/
def configuredOnce : List Label :=
  handled .start 3 ++ handled (.io (.fsync 3)) 5 ++
    [.begin 0, .finish 0 0] ++ handled (.io (.fsync 3)) 6

theorem waitsForOne_of_configured_once :
    ∃ x, x.submitted = 2 ∧ x.reaped = 1 ∧ WaitsForOne x := by
  have hrun : (exec (watched delayedFsync) freshWatched configuredOnce).map
      (fun x => (x.submitted, x.reaped)) = some (2, 1) := by decide +kernel
  have halong : Along (watched delayedFsync) Configured freshWatched configuredOnce := by
    decide +kernel
  obtain ⟨x, hx, hend⟩ := Option.map_eq_some_iff.mp hrun
  simp only [Prod.mk.injEq] at hend
  exact ⟨x, hend.1, hend.2, waitsForOne_of_configured
    (.exec configuredOnce (.start start_freshWatched) halong hx)⟩

end BpftimeBenchmark.Redis
