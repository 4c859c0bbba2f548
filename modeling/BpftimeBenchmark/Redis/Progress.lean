import BpftimeBenchmark.Redis.Accounting

/-!
A call that is being handled comes to its end. Whatever is done next, by the
handler or by the kernel, there is less left to do, and something can be done
unless the handler waits for a completion that nothing will post.
-/

namespace BpftimeBenchmark.Redis

open Uring Transition

variable {P : Program} {w t : World} {l : Label}

/-- A bound on the steps until the call returns: statements count three, entries
two until they execute, and an operation in progress one. -/
def World.work (w : World) : Nat :=
  match w.frame with
  | none => 0
  | some f =>
      3 * f.code.length + 2 * (w.ring.queued.length + w.ring.submitted.length) +
        w.ring.running.length + 1

theorem work_of_frame {f : Frame} (h : w.frame = some f) :
    w.work = 3 * f.code.length + 2 * (w.ring.queued.length + w.ring.submitted.length) +
      w.ring.running.length + 1 := by
  rw [World.work, h]

theorem work_stmt {f : Frame} {s : Stmt} {rest : List Stmt} (hframe : w.frame = some f)
    (hcode : f.code = s :: rest) (hexec : ExecResult w { f with code := rest } s t) :
    t.work < w.work := by
  obtain ⟨v, ht⟩ := exec_frame hexec
  rw [work_of_frame hframe, work_of_frame ht, hcode]
  cases hexec with
  | init =>
      simp only [Ring.empty, List.length_nil, List.length_cons]
      omega
  | queue hop =>
      simp only [Ring.prepare, List.length_append, List.length_cons, List.length_nil]
      omega
  | submit =>
      simp only [Ring.submit, List.length_append, List.length_cons, List.length_nil]
      omega
  | seen hseen =>
      obtain ⟨c, -, hqueued, hsubmitted, hrunning⟩ := Ring.seen_cases hseen
      simp only [hqueued, hsubmitted, hrunning, List.length_cons]
      omega
  | assign | override =>
      simp only [List.length_cons]
      omega

/-- Every step taken while a call is handled brings its return closer. -/
theorem work_step (hbusy : w.frame ≠ none) (hstep : step P w l = some t) :
    t.work < w.work := by
  obtain ⟨f, hframe⟩ := Option.ne_none_iff_exists'.mp hbusy
  cases stepResult_of_step hstep with
  | call hidle | store hidle => exact absurd hidle hbusy
  | stmt hframe' hcode hexec => exact work_stmt hframe' hcode hexec
  | ret hframe' hcode =>
      rw [work_of_frame hframe, World.work, return_frame]
      exact Nat.succ_pos _
  | @execute i res e fd buf n hentry hop hres =>
      have hlen := Ring.length_eraseIdx_of_getElem? hentry
      rw [work_of_frame hframe, work_of_frame (w := w.execute i e fd buf n res) hframe]
      simp only [World.execute, Ring.execute]
      omega
  | @begin i e fd hentry hop =>
      have hlen := Ring.length_eraseIdx_of_getElem? hentry
      rw [work_of_frame hframe, work_of_frame (w := w.begin i e fd) hframe]
      simp only [World.begin, Ring.begin, List.length_append, List.length_singleton]
      omega
  | @finish i res s hrunning hres =>
      have hlen := Ring.length_eraseIdx_of_getElem? hrunning
      rw [work_of_frame hframe, work_of_frame (w := w.finish i s res) hframe]
      simp only [World.finish, Ring.finish]
      omega

/-- A kernel that lets every operation succeed can work towards a completion
while something is outstanding. -/
theorem reap_or_kernel (howed : 0 < w.ring.outstanding) :
    (∃ r, w.ring.seen = some r) ∨ ∃ l t, Succeeds w l ∧ step P w l = some t := by
  cases hcompleted : w.ring.completed with
  | cons c rest =>
      left
      apply Option.isSome_iff_exists.mp
      simp [Ring.seen, hcompleted]
  | nil =>
      right
      cases hrunning : w.ring.running with
      | cons s rest =>
          have hstep : (step P w (.finish 0 0)).isSome := by
            simp [step, hrunning]
          obtain ⟨t, ht⟩ := Option.isSome_iff_exists.mp hstep
          exact ⟨.finish 0 0, t, rfl, ht⟩
      | nil =>
          cases hsubmitted : w.ring.submitted with
          | nil =>
              simp only [Ring.outstanding, hcompleted, hrunning, hsubmitted,
                List.length_nil] at howed
              omega
          | cons e rest =>
              rcases e with ⟨id, ⟨fd, buf, n⟩ | fd⟩
              · have hstep : (step P w (.execute 0 n)).isSome := by
                  simp [step, hsubmitted]
                obtain ⟨t, ht⟩ := Option.isSome_iff_exists.mp hstep
                refine ⟨.execute 0 n, t, ?_, ht⟩
                simp [Succeeds, hsubmitted, Op.full]
              · have hstep : (step P w (.begin 0)).isSome := by
                  simp [step, hsubmitted]
                obtain ⟨t, ht⟩ := Option.isSome_iff_exists.mp hstep
                exact ⟨.begin 0, t, trivial, ht⟩

/-- The call that is handled comes to its end: while it is handled something can
be done, and a schedule of more than `work` steps reaches its return. -/
structure Unblocked (P : Program) (w : World) : Prop where
  enabled : w.frame ≠ none → ∃ l t, Succeeds w l ∧ step P w l = some t
  returns : ∀ schedule u, exec (system P) w schedule = some u →
    w.work < schedule.length →
    ∃ k t, exec (system P) w (schedule.take k) = some t ∧ t.frame = none

theorem returns_of_long {u : World} {schedule : List Label}
    (hexec : exec (system P) w schedule = some u) (hlong : w.work < schedule.length) :
    ∃ k t, exec (system P) w (schedule.take k) = some t ∧ t.frame = none := by
  have hless : ∀ w l t, w.frame ≠ none → (system P).step w l = some t →
      t.work < w.work := fun _ _ _ hbusy hstep => work_step hbusy hstep
  obtain ⟨k, t, ht, hidle⟩ := exec_reaches hless hexec hlong
  exact ⟨k, t, ht, not_not.mp hidle⟩

/-- A call whose waits have something to wait for does not block. -/
theorem unblocked_of_owed
    (howed : w.code.head? = some .ioUringWaitAndSeen → 0 < w.ring.outstanding) :
    Unblocked P w := by
  refine ⟨?_, fun _ _ hexec hlong => returns_of_long hexec hlong⟩
  intro hbusy
  obtain ⟨f, hframe⟩ := Option.ne_none_iff_exists'.mp hbusy
  have htick : (step P w .tick).isSome → ∃ l t, Succeeds w l ∧ step P w l = some t := by
    intro h
    obtain ⟨t, ht⟩ := Option.isSome_iff_exists.mp h
    exact ⟨.tick, t, trivial, ht⟩
  cases hcode : f.code with
  | nil =>
      apply htick
      simp [step, hframe, hcode]
  | cons s rest =>
      cases s with
      | ioUringWaitAndSeen =>
          have hnext : w.code.head? = some .ioUringWaitAndSeen := by
            rw [World.code, hframe]
            simp [hcode]
          rcases reap_or_kernel (P := P) (howed hnext) with ⟨r, hseen⟩ | hkernel
          · apply htick
            simp [step, hframe, hcode, World.exec, hseen]
          · exact hkernel
      | _ =>
          apply htick
          simp [step, hframe, hcode, World.exec]

end BpftimeBenchmark.Redis
