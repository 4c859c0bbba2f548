import Mathlib.Algebra.BigOperators.Group.Finset.Basic
import BpftimeBenchmark.Fuse.Interrupts

/-!
What the counts of `passthrough.c` are worth. However the threads interleave and wherever
a SIGINT strikes, each operation that has been started is counted once or is about to be.
A report, which is several statements, shows the counts of one moment, since the lock is
held from the first to the last of them.
-/

namespace BpftimeBenchmark.Fuse.Interrupts

open Transition

/-- How often the operation of a label counts `op`: once as itself, and once for the full
path. -/
def Label.starts (op : OpType) : Label → Nat
  | .operation _ op' =>
      (if op' = op then 1 else 0) + if op = .fullPath ∧ takesPath op' then 1 else 0
  | .run _ => 0
  | .sigint _ => 0

def started (op : OpType) : List Label → Nat
  | [] => 0
  | l :: rest => l.starts op + started op rest

/-- The counts of `op` that the workers `ids` are about to make. -/
def State.uncounted (s : State) (op : OpType) (ids : Finset Nat) : Nat :=
  ∑ id ∈ ids, (s.frame (.worker id)).count (.count op)

/-- No other worker is inside an operation. -/
def State.BusyIn (s : State) (ids : Finset Nat) : Prop :=
  ∀ id, id ∉ ids → s.frame (.worker id) = []

def Label.OperatesIn (ids : Finset Nat) : Label → Prop
  | .operation id _ => id ∈ ids
  | .run _ => True
  | .sigint _ => True

/-- Only the operations count: neither the handler nor the printing thread does. -/
structure OnlyWorkersCount (s : State) : Prop where
  handler : ∀ t code, s.handler t = some code → ∀ op, .count op ∉ code
  printer : ∀ op, .count op ∉ s.frame .printer

theorem count_operation (op op' : OpType) :
    (operation op').count (.count op) =
      (if op' = op then 1 else 0) + if op = .fullPath ∧ takesPath op' then 1 else 0 := by
  cases op <;> cases op' <;> rfl

theorem count_not_mem_handleSigint (op : OpType) : .count op ∉ handleSigint := by
  cases op <;> decide

theorem count_not_mem_printOpCounts (op : OpType) : .count op ∉ printOpCounts := by
  cases op <;> decide

theorem onlyWorkersCount_start : OnlyWorkersCount start where
  handler := by
    intro t code h
    cases h
  printer := by
    intro op h
    cases List.mem_singleton.mp h

/-- What a thread goes on with is what the handler or the frame holds then. -/
theorem goOn_cases (s : State) (t : Thread) (code : List Stmt) :
    (∃ old, s.handler t = some old ∧ (s.goOn t code).frame = s.frame ∧
      (s.goOn t code).handler =
        Function.update s.handler t (if code = [] then none else some code)) ∨
    (s.handler t = none ∧ (s.goOn t code).handler = s.handler ∧
      (s.goOn t code).frame = Function.update s.frame t code) := by
  unfold State.goOn
  cases hhandler : s.handler t with
  | none => exact Or.inr ⟨rfl, by simp, by simp⟩
  | some old => exact Or.inl ⟨old, rfl, by simp, by simp⟩

/-- What a thread has left to do after a statement in front of `rest`. -/
inductive Leaves (rest : List Stmt) : Stmt → List Stmt → Prop where
  | rest {stmt : Stmt} : Leaves rest stmt rest
  | asleep {secondsLeft : Nat} :
      Leaves rest (.sleepWhile secondsLeft) (.sleepWhile (secondsLeft - 1) :: rest)
  | again : Leaves rest .whileRunning (printOpCounts ++ .whileRunning :: rest)

def Stmt.prints (opCounts : OpType → BitVec 32) : Stmt → List (OpType × Int)
  | .report op => if 0 < (opCounts op).toInt then [(op, (opCounts op).toInt)] else []
  | _ => []

def Stmt.ownerAfter (t : Thread) (owner : Option Thread) : Stmt → Option Thread
  | .lock => some t
  | .unlock => none
  | _ => owner

/-- Everything one statement can do, but to `running`. -/
structure Executed (s : State) (t : Thread) (stmt : Stmt) (code : List Stmt) (s' : State) :
    Prop where
  free : stmt = .lock → s.owner = none
  owner : s'.owner = stmt.ownerAfter t s.owner
  frame : s'.frame = (s.goOn t code).frame
  handler : s'.handler = (s.goOn t code).handler
  counts : ∀ op, s'.opCounts op = if stmt = .count op then s.opCounts op + 1 else s.opCounts op
  printed : s'.printed = s.printed ++ stmt.prints s.opCounts

/-- A statement that goes on and changes nothing else. -/
theorem executed_goOn {s s' : State} {t : Thread} {stmt : Stmt} (code : List Stmt)
    (howner : s'.owner = s.owner) (hframe : s'.frame = (s.goOn t code).frame)
    (hhandler : s'.handler = (s.goOn t code).handler) (hcounts : s'.opCounts = s.opCounts)
    (hprinted : s'.printed = s.printed) (hlock : stmt.ownerAfter t s.owner = s.owner)
    (hcount : ∀ op, stmt ≠ .count op) (hprints : stmt.prints s.opCounts = [])
    (hfree : stmt ≠ .lock) : Executed s t stmt code s' where
  free := fun h => absurd h hfree
  owner := by rw [howner, hlock]
  frame := hframe
  handler := hhandler
  counts := fun op => by rw [hcounts, if_neg (hcount op)]
  printed := by rw [hprinted, hprints, List.append_nil]

theorem executed_of_exec {s s' : State} {t : Thread} {stmt : Stmt} {rest : List Stmt}
    (h : exec s t rest stmt = some s') :
    ∃ code, Leaves rest stmt code ∧ Executed s t stmt code s' := by
  have howner (code : List Stmt) : (s.goOn t code).owner = s.owner := by
    unfold State.goOn
    split <;> rfl
  have hcounts (code : List Stmt) : (s.goOn t code).opCounts = s.opCounts := by
    unfold State.goOn
    split <;> rfl
  have hprinted (code : List Stmt) : (s.goOn t code).printed = s.printed := by
    unfold State.goOn
    split <;> rfl
  cases stmt with
  | lock =>
      simp only [exec] at h
      split at h
      · rename_i hfree
        cases h
        exact ⟨rest, .rest, fun _ => hfree, rfl, rfl, rfl, fun op => by simp [hcounts],
          by simp [hprinted, Stmt.prints]⟩
      · cases h
  | unlock =>
      cases h
      exact ⟨rest, .rest, by simp, rfl, rfl, rfl, fun op => by simp [hcounts],
        by simp [hprinted, Stmt.prints]⟩
  | count op' =>
      cases h
      refine ⟨rest, .rest, by simp, howner rest, rfl, rfl, fun op => ?_,
        by simp [hprinted, Stmt.prints]⟩
      by_cases hop : op = op'
      · subst hop
        simp
      · have hne : ¬ op' = op := fun heq => hop heq.symm
        simp [Function.update_of_ne hop, hne]
  | report op' =>
      simp only [exec] at h
      split at h
      · rename_i hpos
        cases h
        exact ⟨rest, .rest, by simp, howner rest, rfl, rfl, fun op => by simp [hcounts],
          by simp [Stmt.prints, hpos]⟩
      · rename_i hzero
        cases h
        exact ⟨rest, .rest, by simp, howner rest, rfl, rfl, fun op => by simp [hcounts],
          by simp [hprinted, Stmt.prints, hzero]⟩
  | stop | work =>
      cases h
      exact ⟨rest, .rest, executed_goOn rest (howner rest) rfl rfl (hcounts rest)
        (hprinted rest) rfl (by simp) rfl (by simp)⟩
  | sleepWhile secondsLeft =>
      simp only [exec] at h
      split at h <;> cases h
      · exact ⟨_, .asleep, executed_goOn _ (howner _) rfl rfl (hcounts _) (hprinted _) rfl
          (by simp) rfl (by simp)⟩
      · exact ⟨rest, .rest, executed_goOn rest (howner rest) rfl rfl (hcounts rest)
          (hprinted rest) rfl (by simp) rfl (by simp)⟩
  | whileRunning =>
      simp only [exec] at h
      split at h <;> cases h
      · exact ⟨_, .again, executed_goOn _ (howner _) rfl rfl (hcounts _) (hprinted _) rfl
          (by simp) rfl (by simp)⟩
      · exact ⟨rest, .rest, executed_goOn rest (howner rest) rfl rfl (hcounts rest)
          (hprinted rest) rfl (by simp) rfl (by simp)⟩

/-- No statement brings counts with it. -/
theorem Leaves.count_eq {rest code : List Stmt} {stmt : Stmt} (h : Leaves rest stmt code)
    (op : OpType) : code.count (.count op) = rest.count (.count op) := by
  cases h with
  | rest => rfl
  | asleep => simp
  | again =>
      rw [List.count_append, List.count_eq_zero.mpr (count_not_mem_printOpCounts op),
        Nat.zero_add]
      simp

/-- The counts still to be made change with the frame of one worker. -/
theorem uncounted_of_one {s s' : State} {id : Nat} {ids : Finset Nat} (hid : id ∈ ids)
    (hothers : ∀ u, u ≠ id → s'.frame (.worker u) = s.frame (.worker u)) (op : OpType) :
    s'.uncounted op ids + (s.frame (.worker id)).count (.count op) =
      s.uncounted op ids + (s'.frame (.worker id)).count (.count op) := by
  have hrest : ∑ u ∈ ids.erase id, (s'.frame (.worker u)).count (.count op) =
      ∑ u ∈ ids.erase id, (s.frame (.worker u)).count (.count op) := by
    apply Finset.sum_congr rfl
    intro u hu
    rw [hothers u (Finset.ne_of_mem_erase hu)]
  rw [State.uncounted, State.uncounted, ← Finset.add_sum_erase _ _ hid,
    ← Finset.add_sum_erase _ _ hid, hrest]
  omega

theorem uncounted_congr {s s' : State} {ids : Finset Nat}
    (h : ∀ u, s'.frame (.worker u) = s.frame (.worker u)) (op : OpType) :
    s'.uncounted op ids = s.uncounted op ids := by
  simp only [State.uncounted, h]

/-- The counts that have been made and those still to be made are `total` together. -/
def State.Tallies (s : State) (op : OpType) (ids : Finset Nat) (total : Nat) : Prop :=
  ∃ made, s.opCounts op = BitVec.ofNat 32 made ∧ made + s.uncounted op ids = total

/-- One statement of a thread: what it counts is no longer to be counted. -/
theorem counted_of_run {s s' : State} {t : Thread} {stmt : Stmt} {rest : List Stmt}
    {ids : Finset Nat} (honly : OnlyWorkersCount s) (hbusy : s.BusyIn ids)
    (hcode : s.code t = stmt :: rest) (h : exec s t rest stmt = some s') {op : OpType}
    {total : Nat} (htotal : s.Tallies op ids total) : s'.Tallies op ids total := by
  obtain ⟨code, hleaves, hexec⟩ := executed_of_exec h
  obtain ⟨made, hmade, hsum⟩ := htotal
  have hframe := hexec.frame
  have hcounts := hexec.counts op
  have hsame (hstmt : stmt ≠ .count op) (huncounted : s'.uncounted op ids = s.uncounted op ids) :
      s'.Tallies op ids total := by
    refine ⟨made, ?_, by rw [huncounted, hsum]⟩
    rw [hcounts, if_neg hstmt, hmade]
  rcases goOn_cases s t code with ⟨old, hhandler, hsameFrame, -⟩ | ⟨hhandler, -, hupdate⟩
  · -- the handler runs: it counts nothing, and the frames stay
    have hold : old = stmt :: rest := by
      rw [State.code, hhandler] at hcode
      exact hcode
    refine hsame ?_ (uncounted_congr (fun u => by rw [hframe, hsameFrame]) op)
    rintro rfl
    exact honly.handler t old hhandler op (hold ▸ List.mem_cons_self)
  · have hold : s.frame t = stmt :: rest := by
      rw [State.code, hhandler] at hcode
      exact hcode
    cases t with
    | printer =>
        refine hsame ?_ (uncounted_congr
          (fun u => by rw [hframe, hupdate, Function.update_of_ne (by simp)]) op)
        rintro rfl
        exact honly.printer op (hold ▸ List.mem_cons_self)
    | worker id =>
        have hid : id ∈ ids := by
          by_contra hout
          rw [hbusy id hout] at hold
          cases hold
        have hothers : ∀ u, u ≠ .worker id → s'.frame u = s.frame u := by
          intro u hu
          rw [hframe, hupdate, Function.update_of_ne hu]
        have hone := uncounted_of_one hid (fun u hu => hothers (.worker u) (by simpa using hu)) op
        rw [hframe, hupdate, Function.update_self, hleaves.count_eq, hold, List.count_cons] at hone
        simp only [beq_iff_eq] at hone
        by_cases hstmt : stmt = .count op
        · rw [if_pos hstmt] at hone hcounts
          refine ⟨made + 1, ?_, by omega⟩
          rw [hcounts, hmade, BitVec.ofNat_add]
          rfl
        · rw [if_neg hstmt] at hone
          exact hsame hstmt (by omega)

theorem not_mem_of_count {code rest : List Stmt} {op : OpType}
    (hcount : code.count (.count op) = rest.count (.count op)) (h : .count op ∉ rest) :
    .count op ∉ code :=
  List.count_eq_zero.mp (hcount.trans (List.count_eq_zero.mpr h))

theorem OnlyWorkersCount.run {s s' : State} {t : Thread} {stmt : Stmt} {rest : List Stmt}
    (honly : OnlyWorkersCount s) (hcode : s.code t = stmt :: rest)
    (h : exec s t rest stmt = some s') : OnlyWorkersCount s' := by
  obtain ⟨code, hleaves, hexec⟩ := executed_of_exec h
  have hframe := hexec.frame
  rcases goOn_cases s t code with ⟨old, hhandler, hsame, hupdate⟩ | ⟨hhandler, hsame, hupdate⟩
  · have hold : old = stmt :: rest := by
      rw [State.code, hhandler] at hcode
      exact hcode
    constructor
    · intro u c hc op
      rw [hexec.handler, hupdate] at hc
      by_cases hu : u = t
      · subst hu
        rw [Function.update_self] at hc
        split at hc
        · cases hc
        · cases hc
          refine not_mem_of_count (hleaves.count_eq op) fun hmem => ?_
          exact honly.handler u old hhandler op (hold ▸ List.mem_cons_of_mem _ hmem)
      · rw [Function.update_of_ne hu] at hc
        exact honly.handler u c hc op
    · intro op
      rw [hframe, hsame]
      exact honly.printer op
  · have hold : s.frame t = stmt :: rest := by
      rw [State.code, hhandler] at hcode
      exact hcode
    constructor
    · intro u c hc op
      rw [hexec.handler, hsame] at hc
      exact honly.handler u c hc op
    · intro op
      rw [hframe, hupdate]
      by_cases ht : t = .printer
      · subst ht
        rw [Function.update_self]
        refine not_mem_of_count (hleaves.count_eq op) fun hmem => ?_
        exact honly.printer op (hold ▸ List.mem_cons_of_mem _ hmem)
      · rw [Function.update_of_ne (Ne.symm ht)]
        exact honly.printer op

/-- A thread that runs was busy before. -/
theorem BusyIn.run {s s' : State} {t : Thread} {stmt : Stmt} {rest : List Stmt}
    {ids : Finset Nat} (hbusy : s.BusyIn ids) (hcode : s.code t = stmt :: rest)
    (h : exec s t rest stmt = some s') : s'.BusyIn ids := by
  obtain ⟨code, -, hexec⟩ := executed_of_exec h
  intro id hid
  rw [hexec.frame]
  rcases goOn_cases s t code with ⟨old, -, hsame, -⟩ | ⟨hhandler, -, hupdate⟩
  · rw [hsame]
    exact hbusy id hid
  · have hne : .worker id ≠ t := by
      rintro rfl
      rw [State.code, hhandler, Option.getD_none, hbusy id hid] at hcode
      cases hcode
    rw [hupdate, Function.update_of_ne hne]
    exact hbusy id hid

/-- One step: what an operation adds it adds to the counts to be made. -/
theorem counted_step {s s' : State} {l : Label} {ids : Finset Nat}
    (honly : OnlyWorkersCount s) (hbusy : s.BusyIn ids) (hl : l.OperatesIn ids)
    (h : step s l = some s') :
    OnlyWorkersCount s' ∧ s'.BusyIn ids ∧
      ∀ op total, s.Tallies op ids total → s'.Tallies op ids (total + l.starts op) := by
  cases l with
  | run t =>
      simp only [step] at h
      split at h
      · cases h
      · rename_i stmt rest hcode
        exact ⟨honly.run hcode h, BusyIn.run hbusy hcode h,
          fun op total htotal => counted_of_run honly hbusy hcode h htotal⟩
  | operation id op' =>
      simp only [step] at h
      split at h
      · rename_i hidle
        cases h
        refine ⟨⟨honly.handler, fun op => ?_⟩, fun u hu => ?_, fun op total htotal => ?_⟩
        · simp only [ne_eq, reduceCtorEq, not_false_eq_true, Function.update_of_ne]
          exact honly.printer op
        · have hne : u ≠ id := fun heq => hu (heq ▸ hl)
          simpa [Function.update_of_ne, hne] using hbusy u hu
        · have hone := @uncounted_of_one s
            { s with frame := Function.update s.frame (.worker id) (operation op') } id ids hl
            (fun u hu => by simp [Function.update_of_ne, hu]) op
          simp only [hidle.2, Function.update_self, count_operation, List.count_nil] at hone
          obtain ⟨made, hmade, hsum⟩ := htotal
          refine ⟨made, hmade, ?_⟩
          simp only [Label.starts]
          omega
      · cases h
  | sigint t =>
      simp only [step] at h
      split at h
      · cases h
        refine ⟨⟨fun u c hc op => ?_, honly.printer⟩, hbusy, fun op total htotal => htotal⟩
        by_cases hu : u = t
        · subst hu
          simp only [Function.update_self, Option.some.injEq] at hc
          subst hc
          exact count_not_mem_handleSigint op
        · simp only [Function.update_of_ne hu] at hc
          exact honly.handler u c hc op
      · cases h

theorem counted_of_exec {s s' : State} {ids : Finset Nat} (honly : OnlyWorkersCount s)
    (hbusy : s.BusyIn ids) (schedule : List Label) (hids : ∀ l ∈ schedule, l.OperatesIn ids)
    (h : Transition.exec system s schedule = some s') {op : OpType} {total : Nat}
    (htotal : s.Tallies op ids total) : s'.Tallies op ids (total + started op schedule) := by
  induction schedule generalizing s total with
  | nil =>
      cases h
      exact htotal
  | cons l rest ih =>
      obtain ⟨next, hnext, hrest⟩ := Option.bind_eq_some_iff.mp h
      obtain ⟨honly', hbusy', hstep⟩ := counted_step honly hbusy (hids l (by simp)) hnext
      have hlater := ih honly' hbusy' (fun m hm => hids m (by simp [hm])) hrest
        (hstep op total htotal)
      rwa [Nat.add_assoc] at hlater

/-- The workers that a schedule has operate. -/
def operators (schedule : List Label) : Finset Nat :=
  (schedule.filterMap fun l => match l with
    | .operation id _ => some id
    | _ => none).toFinset

theorem operatesIn_operators {schedule : List Label} {l : Label} (hl : l ∈ schedule) :
    l.OperatesIn (operators schedule) := by
  cases l with
  | operation id op =>
      refine List.mem_toFinset.mpr (List.mem_filterMap.mpr ⟨.operation id op, hl, rfl⟩)
  | run t | sigint t => trivial

/-- In every run, whatever the SIGINTs do, no count is lost and none is made twice: with
the counts that the busy workers are about to make, each counter stands at the number of
operations started that count there, as long as an `int` holds it. -/
theorem counted_of_run_from_start {s : State} (schedule : List Label)
    (h : Transition.exec system start schedule = some s) {ids : Finset Nat}
    (hbusy : s.BusyIn ids) (op : OpType) (hfits : started op schedule < 2 ^ 31) :
    (s.opCounts op).toInt + s.uncounted op ids = started op schedule := by
  have hidle : start.BusyIn (ids ∪ operators schedule) := fun id _ => by simp [start]
  have hzero : start.Tallies op (ids ∪ operators schedule) 0 :=
    ⟨0, rfl, by simp [State.uncounted, start]⟩
  have hids : ∀ l ∈ schedule, l.OperatesIn (ids ∪ operators schedule) := by
    intro l hl
    have hop := operatesIn_operators hl
    cases l with
    | operation id op' => exact Finset.mem_union_right _ hop
    | run t | sigint t => trivial
  obtain ⟨made, hmade, hsum⟩ :=
    counted_of_exec onlyWorkersCount_start hidle schedule hids h hzero
  have hsame : s.uncounted op ids = s.uncounted op (ids ∪ operators schedule) := by
    refine Finset.sum_subset Finset.subset_union_left fun id _ hid => ?_
    rw [hbusy id hid]
    rfl
  have hint : (s.opCounts op).toInt = made := by
    rw [hmade, BitVec.toInt_ofNat', Int.bmod_eq_of_le (by omega) (by omega)]
  omega

/-- Two operations start and one of them is interrupted while it counts. -/
def interruptedCount : List Label :=
  [.operation 0 .read, .operation 1 .open, .run (.worker 0), .sigint (.worker 0),
    .run (.worker 0)]

theorem counted_of_run_from_start_interrupted :
    ∃ s, Transition.exec system start interruptedCount = some s ∧
      (s.opCounts .read).toInt + s.uncounted .read {0, 1} = 1 := by
  refine ⟨_, rfl, counted_of_run_from_start interruptedCount rfl ?_ .read (by decide)⟩
  intro id hid
  have hne : id ≠ 0 ∧ id ≠ 1 := by simpa using hid
  simp [start, State.goOn, Function.update_of_ne, hne.1, hne.2]

/-- The next statement on the lock, if there is one, leaves it. -/
def unlocksNext : List Stmt → Bool
  | [] => false
  | .unlock :: _ => true
  | .lock :: _ => false
  | .whileRunning :: _ => false
  | _ :: rest => unlocksNext rest

/-- Counts are made and printed in front of an `unlock`. -/
def shielded : List Stmt → Bool
  | [] => true
  | .count _ :: rest => unlocksNext rest && shielded rest
  | .report _ :: rest => unlocksNext rest && shielded rest
  | _ :: rest => shielded rest

theorem shielded_tail {stmt : Stmt} {rest : List Stmt} (h : shielded (stmt :: rest) = true) :
    shielded rest = true := by
  cases stmt with
  | count op | report op => exact (Bool.and_eq_true _ _ ▸ h : _ ∧ _).2
  | lock | unlock | stop | work | sleepWhile secondsLeft | whileRunning => exact h

theorem shielded_printOpCounts {rest : List Stmt} (h : shielded rest = true) :
    shielded (printOpCounts ++ .whileRunning :: rest) = true := by
  simpa [printOpCounts, reports, opNames, shielded, unlocksNext] using h

theorem shielded_operation (op : OpType) : shielded (operation op) = true := by
  cases op <;> rfl

theorem shielded_handleSigint : shielded handleSigint = true := by decide

theorem Leaves.shielded_eq {rest code : List Stmt} {stmt : Stmt} (h : Leaves rest stmt code)
    (hshielded : shielded (stmt :: rest) = true) : shielded code = true := by
  have hrest := shielded_tail hshielded
  cases h with
  | rest => exact hrest
  | asleep => exact hrest
  | again => exact shielded_printOpCounts hrest

/-- Code that is outside the lock does not begin with a count. -/
theorem unlocksNext_balanced {rest : List Stmt} (h : unlocksNext rest = true) :
    balanced false rest = false := by
  induction rest with
  | nil => cases h
  | cons stmt rest ih =>
      cases stmt with
      | unlock => rfl
      | lock | whileRunning => cases h
      | count op | report op | stop | work | sleepWhile secondsLeft => exact ih h

theorem outside_of_balanced {stmt : Stmt} {rest : List Stmt}
    (hbalanced : balanced false (stmt :: rest) = true)
    (hshielded : shielded (stmt :: rest) = true) :
    stmt ≠ .unlock ∧ (∀ op, stmt ≠ .count op) ∧ ∀ op, stmt ≠ .report op := by
  have hinside (hunlocks : unlocksNext rest = true) : balanced false rest ≠ true := by
    rw [unlocksNext_balanced hunlocks]
    exact Bool.false_ne_true
  refine ⟨?_, ?_, ?_⟩
  · rintro rfl
    cases hbalanced
  · rintro op rfl
    exact hinside (Bool.and_eq_true _ _ ▸ hshielded : _ ∧ _).1 hbalanced
  · rintro op rfl
    exact hinside (Bool.and_eq_true _ _ ▸ hshielded : _ ∧ _).1 hbalanced

/-- All code counts and prints under the lock. -/
structure Shielded (s : State) : Prop where
  frame : ∀ t, shielded (s.frame t) = true
  handler : ∀ t code, s.handler t = some code → shielded code = true

theorem Shielded.code {s : State} (h : Shielded s) (t : Thread) :
    shielded (s.code t) = true := by
  rw [State.code]
  cases hhandler : s.handler t with
  | none => exact h.frame t
  | some code => exact h.handler t code hhandler

theorem shielded_start : Shielded start where
  frame := by
    intro t
    cases t <;> rfl
  handler := by
    intro t code h
    cases h

theorem Shielded.run {s s' : State} {t : Thread} {stmt : Stmt} {rest : List Stmt}
    (h : Shielded s) (hcode : s.code t = stmt :: rest)
    (hexec : Interrupts.exec s t rest stmt = some s') : Shielded s' := by
  obtain ⟨code, hleaves, hexec⟩ := executed_of_exec hexec
  have hnew : shielded code = true := hleaves.shielded_eq (hcode ▸ h.code t)
  rcases goOn_cases s t code with ⟨old, hhandler, hsame, hupdate⟩ | ⟨hhandler, hsame, hupdate⟩
  · constructor
    · intro u
      rw [hexec.frame, hsame]
      exact h.frame u
    · intro u c hc
      rw [hexec.handler, hupdate] at hc
      by_cases hu : u = t
      · subst hu
        rw [Function.update_self] at hc
        split at hc
        · cases hc
        · cases hc
          exact hnew
      · rw [Function.update_of_ne hu] at hc
        exact h.handler u c hc
  · constructor
    · intro u
      rw [hexec.frame, hupdate]
      by_cases hu : u = t
      · subst hu
        rw [Function.update_self]
        exact hnew
      · rw [Function.update_of_ne hu]
        exact h.frame u
    · intro u c hc
      rw [hexec.handler, hsame] at hc
      exact h.handler u c hc

theorem Shielded.step {s s' : State} {l : Label} (h : Shielded s)
    (hstep : Interrupts.step s l = some s') : Shielded s' := by
  cases l with
  | run t =>
      simp only [Interrupts.step] at hstep
      split at hstep
      · cases hstep
      · rename_i hcode
        exact h.run hcode hstep
  | operation id op =>
      simp only [Interrupts.step] at hstep
      split at hstep
      · cases hstep
        refine ⟨fun u => ?_, h.handler⟩
        by_cases hu : u = .worker id
        · subst hu
          simp only [Function.update_self]
          exact shielded_operation op
        · simp only [Function.update_of_ne hu]
          exact h.frame u
      · cases hstep
  | sigint t =>
      simp only [Interrupts.step] at hstep
      split at hstep
      · cases hstep
        refine ⟨h.frame, fun u c hc => ?_⟩
        by_cases hu : u = t
        · subst hu
          simp only [Function.update_self, Option.some.injEq] at hc
          subst hc
          exact shielded_handleSigint
        · simp only [Function.update_of_ne hu] at hc
          exact h.handler u c hc
      · cases hstep

/-- What a report of `ops` prints when the counts are `opCounts`. -/
def snapshot (opCounts : OpType → BitVec 32) (ops : List OpType) : List (OpType × Int) :=
  ops.flatMap fun op => (Stmt.report op).prints opCounts

/-- No SIGINT strikes inside the lock, and the lock is held by `t`. -/
def HeldBy (t : Thread) (s : State) (l : Label) : Prop :=
  OutsideLock s l ∧ s.owner = some t

instance (t : Thread) (s : State) (l : Label) : Decidable (HeldBy t s l) :=
  inferInstanceAs (Decidable (OutsideLock s l ∧ s.owner = some t))

/-- Code of one thread is not touched by another that goes on. -/
theorem code_goOn_of_ne {s : State} {t u : Thread} (hne : t ≠ u) (code : List Stmt) :
    (s.goOn u code).code t = s.code t := by
  rcases goOn_cases s u code with ⟨old, -, hframe, hhandler⟩ | ⟨-, hhandler, hframe⟩
  · rw [State.code, State.code, hframe, hhandler, Function.update_of_ne hne]
  · rw [State.code, State.code, hframe, hhandler, Function.update_of_ne hne]

theorem code_goOn_self {s : State} {t : Thread} {code : List Stmt} (hcode : code ≠ []) :
    (s.goOn t code).code t = code := by
  rcases goOn_cases s t code with ⟨old, -, hframe, hhandler⟩ | ⟨hnone, hhandler, hframe⟩
  · rw [State.code, hhandler, Function.update_self, if_neg hcode, Option.getD_some]
  · rw [State.code, hhandler, hnone, hframe, Function.update_self, Option.getD_none]

/-- While a thread is inside the lock, a step of anything else leaves the lock, the counts,
the output and the code of the thread as they are. -/
theorem step_beside_holder {s s' : State} {t : Thread} {l : Label} (horderly : Orderly s)
    (hshielded : Shielded s) (hok : HeldBy t s l) (hl : l ≠ .run t)
    (hbusy : s.code t ≠ []) (hstep : step s l = some s') :
    s'.owner = some t ∧ s'.code t = s.code t ∧ s'.opCounts = s.opCounts ∧
      s'.printed = s.printed := by
  obtain ⟨hout, howner⟩ := hok
  cases l with
  | run u =>
      have hne : t ≠ u := fun heq => hl (heq ▸ rfl)
      simp only [step] at hstep
      split at hstep
      · cases hstep
      · rename_i stmt rest hcode
        obtain ⟨code, -, hexec⟩ := executed_of_exec hstep
        have hbalanced : balanced false (stmt :: rest) = true := by
          have hnow := horderly.code u
          rw [hcode, howner] at hnow
          simpa [hne] using hnow
        obtain ⟨hunlock, hcount, hreport⟩ :=
          outside_of_balanced hbalanced (hcode ▸ hshielded.code u)
        have hlock : stmt ≠ .lock := by
          intro heq
          have hfree := hexec.free heq
          rw [howner] at hfree
          cases hfree
        have hcodes : s'.code t = (s.goOn u code).code t := by
          rw [State.code, State.code, hexec.frame, hexec.handler]
        refine ⟨?_, by rw [hcodes, code_goOn_of_ne hne], ?_, ?_⟩
        · rw [hexec.owner, ← howner]
          cases stmt <;> first | rfl | exact absurd rfl hlock | exact absurd rfl hunlock
        · funext op
          rw [hexec.counts, if_neg (hcount op)]
        · rw [hexec.printed]
          cases stmt <;> first | exact List.append_nil _ | exact absurd rfl (hreport _)
  | operation id op =>
      simp only [step] at hstep
      split at hstep
      · rename_i hidle
        cases hstep
        have hne : t ≠ .worker id := by
          rintro rfl
          apply hbusy
          rw [State.code, hidle.1]
          exact hidle.2
        refine ⟨howner, ?_, rfl, rfl⟩
        simp only [State.code, Function.update_of_ne hne]
      · cases hstep
  | sigint u =>
      simp only [step] at hstep
      split at hstep
      · cases hstep
        have hne : t ≠ u := fun heq => hout (heq ▸ howner)
        refine ⟨howner, ?_, rfl, rfl⟩
        simp only [State.code, Function.update_of_ne hne]
      · cases hstep

/-- From inside a report to the release of the lock, what is left of it is printed as the
counts are now, whatever else runs meanwhile. -/
theorem printed_of_held {s s' : State} {t : Thread} {ops : List OpType} {rest : List Stmt}
    (horderly : Orderly s) (hshielded : Shielded s)
    (hcode : s.code t = ops.map .report ++ .unlock :: rest) (howner : s.owner = some t)
    (schedule : List Label) (hexec : Transition.exec system s schedule = some s')
    (halong : Along system (HeldBy t) s schedule) (hdone : s'.owner ≠ some t) :
    s'.opCounts = s.opCounts ∧ s'.printed = s.printed ++ snapshot s.opCounts ops := by
  induction schedule generalizing s ops with
  | nil =>
      cases hexec
      exact absurd howner hdone
  | cons l remaining ih =>
      obtain ⟨next, hnext, hrest⟩ := Option.bind_eq_some_iff.mp hexec
      have horderly' := horderly.step halong.1.1 hnext
      have hshielded' := hshielded.step hnext
      have halong' := halong.2 next hnext
      by_cases hl : l = .run t
      · subst hl
        cases ops with
        | nil =>
            -- the report ends, and with it the stretch in which the lock is held
            have hrun : exec s t rest .unlock = some next := by
              simpa [system, step, hcode] using hnext
            obtain ⟨code, -, hunlock⟩ := executed_of_exec hrun
            have hfree : next.owner = none := hunlock.owner
            cases remaining with
            | nil =>
                cases hrest
                refine ⟨funext fun op => ?_, ?_⟩
                · simpa using hunlock.counts op
                · simpa [snapshot, Stmt.prints] using hunlock.printed
            | cons m more =>
                have hheld := halong'.1.2
                rw [hfree] at hheld
                cases hheld
        | cons op ops =>
            have hrun : exec s t (ops.map .report ++ .unlock :: rest) (.report op) =
                some next := by
              simpa [system, step, hcode] using hnext
            obtain ⟨code, hleaves, hreport⟩ := executed_of_exec hrun
            cases hleaves with
            | rest =>
                have hcounts : next.opCounts = s.opCounts := by
                  funext op'
                  simpa using hreport.counts op'
                have hnextCode : next.code t = ops.map .report ++ .unlock :: rest := by
                  rw [State.code, hreport.frame, hreport.handler, ← State.code]
                  exact code_goOn_self (by simp)
                obtain ⟨hsame, hprinted⟩ := ih horderly' hshielded' hnextCode
                  (hreport.owner.trans howner) hrest halong'
                refine ⟨hsame.trans hcounts, ?_⟩
                rw [hprinted, hreport.printed, hcounts, List.append_assoc]
                rfl
      · obtain ⟨howner', hcode', hcounts, hprinted⟩ :=
          step_beside_holder horderly hshielded halong.1 hl (by simp [hcode]) hnext
        obtain ⟨hsame, hprinted'⟩ :=
          ih horderly' hshielded' (hcode'.trans hcode) howner' hrest halong'
        rw [hcounts] at hsame hprinted'
        rw [hprinted] at hprinted'
        exact ⟨hsame, hprinted'⟩

/-- Each report, of the printing thread or of the handler, shows the counts of one moment:
those at which it took the lock. -/
theorem report_atomic {s s' : State} {t : Thread} {rest : List Stmt}
    (hreach : RunsUnder system OutsideLock s)
    (hcode : s.code t = opNames.map .report ++ .unlock :: rest) (howner : s.owner = some t)
    (schedule : List Label) (hexec : Transition.exec system s schedule = some s')
    (halong : Along system (HeldBy t) s schedule) (hdone : s'.owner ≠ some t) :
    s'.opCounts = s.opCounts ∧ s'.printed = s.printed ++ snapshot s.opCounts opNames := by
  have hinv : Orderly s ∧ Shielded s := by
    refine @RunsUnder.invariant _ _ _ _ (fun s => Orderly s ∧ Shielded s) ?_ ?_ _ hreach
    · rintro s rfl
      exact ⟨orderly_start, shielded_start⟩
    · rintro s l s' ⟨horderly, hshielded⟩ hok hstep
      exact ⟨horderly.step hok hstep, hshielded.step hstep⟩
  exact printed_of_held hinv.1 hinv.2 hcode howner schedule hexec halong hdone

/-- A `read` is counted, and the printing thread takes the lock. -/
def reportBegins : List Label :=
  [.operation 0 .read, .run (.worker 0), .run (.worker 0), .run (.worker 0), .run .printer,
    .run .printer, .run .printer]

/-- An operation starts while the report is printed. -/
def reportEnds : List Label := .operation 1 .open :: List.replicate 12 (.run .printer)

theorem report_atomic_oneRead :
    ∃ s s', Transition.exec system start reportBegins = some s ∧
      Transition.exec system s reportEnds = some s' ∧ s'.printed = [(.read, 1)] := by
  have hrun : RunsUnder system OutsideLock _ :=
    RunsUnder.exec reportBegins (.start rfl) (by decide) rfl
  refine ⟨_, _, rfl, rfl, ?_⟩
  exact (report_atomic (t := .printer) hrun rfl rfl reportEnds rfl (by decide)
    (by decide)).2

end BpftimeBenchmark.Fuse.Interrupts
