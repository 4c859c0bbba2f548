import BpftimeBenchmark.Lib.Text

/-!
`handle_stdout` of the two micro benchmarks, which prints what a server prints until
it is told to stop. At the end of the stream `readline` returns the empty text again and
again: the one copy leaves its loop there, the other goes on.
-/

namespace BpftimeBenchmark.Micro

/-- What one `asyncio.wait` reports of its two tasks, and whether the stream is known to
be at its end when the turn is over. -/
structure Turn where
  notified : Bool
  readline : Bool
  ended : Bool

/-- The turns of the loop, where the stream has `n` lines. An event that is set stays
set. After the last line `readline` comes back at the end of the stream only, and
there at once. -/
structure Schedule (n : Nat) where
  turns : Nat → Turn
  waited : ∀ i, (turns i).notified = true ∨ (turns i).readline = true
  stays_set : ∀ i, (turns i).notified = true → (turns (i + 1)).notified = true
  at_end : ∀ i, n ≤ i → (turns i).readline = true → (turns i).ended = true
  stays_ended : ∀ i, (turns i).ended = true → (turns (i + 1)).ended = true
  at_once : ∀ i, (turns i).ended = true → (turns (i + 1)).readline = true

/-- The arguments of `handle_stdout` beside the stream and the event. -/
structure Options where
  title : Text
  callback : Option Text
  logOutput : Bool

/-- The lines still to come, `output_lines`, and whether the event of the callback is
set. -/
structure Monitor where
  lines : List Text
  outputLines : List Text
  called : Bool

/-- What the loop does with the empty text. -/
inductive OnEmpty where
  | brk
  | cont
  deriving DecidableEq

def Monitor.take (options : Options) (m : Monitor) (s : Text) : Monitor where
  lines := m.lines.tail
  outputLines :=
    if options.logOutput then m.outputLines ++ [options.title ++ ": ".toList ++ Text.strip s]
    else m.outputLines
  called := m.called || options.callback.any (Text.contains s)

/-- One turn of the loop: whether it goes on. -/
def turn (onEmpty : OnEmpty) (options : Options) (t : Turn) (m : Monitor) : Bool × Monitor :=
  let s := m.lines.headD []
  let empty := t.readline && s.isEmpty
  if empty && onEmpty = .brk then (false, m)
  else if empty && onEmpty = .cont then (true, m)
  else
    let m := if t.readline then m.take options s else m
    if t.notified then (false, m)
    else if t.ended && m.lines.isEmpty then (false, m)
    else (true, m)

/-- The loop from turn `i` on; `none` if it is not over after `fuel` turns. -/
def handleStdout (onEmpty : OnEmpty) (options : Options) (turns : Nat → Turn) :
    Nat → Nat → Monitor → Option Monitor
  | 0, _, _ => none
  | fuel + 1, i, m =>
      match turn onEmpty options (turns i) m with
      | (false, m) => some m
      | (true, m) => handleStdout onEmpty options turns fuel (i + 1) m

def Uprobe.handleStdout : Options → (Nat → Turn) → Nat → Nat → Monitor → Option Monitor :=
  Micro.handleStdout .brk

def Mpk.handleStdout : Options → (Nat → Turn) → Nat → Nat → Monitor → Option Monitor :=
  Micro.handleStdout .cont

/-- From turn `i` on: the event is reported while the stream still has lines, or the end
of the stream is known when its last line, the `n`-th, has been read, or the wait after
it reports the event alone. -/
def TimelyStop (i n : Nat) (turns : Nat → Turn) : Prop :=
  (∃ j, i ≤ j ∧ j < n ∧ (turns j).notified = true) ∨
    (i < n ∧ (turns (n - 1)).ended = true) ∨ (turns n).readline = false

variable {onEmpty : OnEmpty} {options : Options} {turns : Nat → Turn} {m : Monitor} {i : Nat}

/-- A turn that reads a line. -/
theorem turn_line (onEmpty : OnEmpty) (options : Options) (t : Turn) {line : Text}
    {rest : List Text} (hline : line ≠ [])
    (hlines : m.lines = line :: rest) (hread : t.readline = true) :
    turn onEmpty options t m =
      (!(t.notified || (t.ended && rest.isEmpty)), m.take options line) := by
  have hempty : line.isEmpty = false := by simpa using hline
  have hrest : (m.take options line).lines = rest := by rw [Monitor.take, hlines]; rfl
  unfold turn
  simp only [hlines, List.headD_cons, hread, hempty, Bool.and_false, Bool.false_and,
    Bool.false_eq_true, if_false, if_true, hrest]
  cases t.notified with
  | true => rfl
  | false => cases t.ended && rest.isEmpty <;> rfl

/-- A turn that does not read, which the event ends. -/
theorem turn_notified (t : Turn) (hread : t.readline = false) (hnotified : t.notified = true) :
    turn onEmpty options t m = (false, m) := by
  simp [turn, hread, hnotified]

theorem turn_end (t : Turn) (hlines : m.lines = []) (hread : t.readline = true) :
    turn onEmpty options t m = (decide (onEmpty = .cont), m) := by
  cases onEmpty <;> simp [turn, hlines, hread]

/-- The lines that a stream delivers, of which `readline` makes no empty text. -/
def Lines (lines : List Text) : Prop := ∀ l ∈ lines, l ≠ []

/-- A wait that reports the event alone ends the loop. -/
theorem handleStdout_notified (hwaited : (turns i).notified = true ∨ (turns i).readline = true)
    (hread : (turns i).readline = false) (fuel : Nat) :
    handleStdout onEmpty options turns (fuel + 1) i m = some m := by
  have hnotified : (turns i).notified = true :=
    hwaited.resolve_right (by rw [hread]; exact Bool.false_ne_true)
  rw [handleStdout, turn_notified _ hread hnotified]

/-- After a line the loop is over, or goes on with the lines that are left. -/
theorem handleStdout_line (options : Options) {line : Text} {rest : List Text}
    (hline : line ≠ []) (hlines : m.lines = line :: rest) (hread : (turns i).readline = true)
    (fuel : Nat) :
    handleStdout onEmpty options turns (fuel + 1) i m =
      if (turns i).notified || ((turns i).ended && rest.isEmpty) then some (m.take options line)
      else handleStdout onEmpty options turns fuel (i + 1) (m.take options line) := by
  rw [handleStdout, turn_line onEmpty options (turns i) hline hlines hread]
  cases (turns i).notified || ((turns i).ended && rest.isEmpty) <;> rfl

theorem lines_take (options : Options) {line : Text} {rest : List Text}
    (hlines : m.lines = line :: rest) : (m.take options line).lines = rest := by
  rw [Monitor.take, hlines]
  rfl

theorem uprobe_stops (options : Options)
    (hwaited : ∀ i, (turns i).notified = true ∨ (turns i).readline = true) {lines : List Text}
    (hlines : Lines lines) (hm : m.lines = lines) :
    ∃ out, Uprobe.handleStdout options turns (lines.length + 1) i m = some out := by
  induction lines generalizing m i with
  | nil =>
      cases hread : (turns i).readline with
      | false => exact ⟨m, handleStdout_notified (hwaited i) hread _⟩
      | true =>
          refine ⟨m, ?_⟩
          rw [Uprobe.handleStdout, List.length_nil, handleStdout, turn_end _ hm hread]
          rfl
  | cons line rest ih =>
      cases hread : (turns i).readline with
      | false => exact ⟨m, handleStdout_notified (hwaited i) hread _⟩
      | true =>
          rw [Uprobe.handleStdout, List.length_cons,
            handleStdout_line options (hlines line List.mem_cons_self) hm hread]
          split
          · exact ⟨_, rfl⟩
          · exact ih (fun l hl => hlines l (List.mem_cons_of_mem _ hl)) (lines_take options hm)

/-- At the end of the stream the loop of `mpk` reads the empty text for ever. -/
theorem mpk_spins (hread : ∀ j, i ≤ j → (turns j).readline = true) (hm : m.lines = [])
    (fuel : Nat) : Mpk.handleStdout options turns fuel i m = none := by
  induction fuel generalizing i with
  | zero => rfl
  | succ fuel ih =>
      rw [Mpk.handleStdout, handleStdout, turn_end _ hm (hread i (Nat.le_refl i))]
      exact ih fun j hj => hread j (Nat.le_of_succ_le hj)

/-- What a turn that reads a line and goes on leaves of the condition. -/
theorem timelyStop_succ {n : Nat} (hi : i < n) (hnotified : (turns i).notified = false)
    (hended : i + 1 = n → (turns i).ended = false) :
    TimelyStop (i + 1) n turns ↔ TimelyStop i n turns := by
  refine or_congr ?_ (or_congr ?_ Iff.rfl)
  · constructor
    · rintro ⟨j, hj, hjn, hset⟩
      exact ⟨j, Nat.le_of_succ_le hj, hjn, hset⟩
    · rintro ⟨j, hj, hjn, hset⟩
      rcases Nat.eq_or_lt_of_le hj with rfl | hlt
      · rw [hnotified] at hset
        cases hset
      · exact ⟨j, hlt, hjn, hset⟩
  · refine and_congr_left fun hset => ⟨fun _ => hi, fun _ => ?_⟩
    rcases Nat.eq_or_lt_of_le (Nat.succ_le_of_lt hi) with rfl | hlt
    · rw [show i.succ - 1 = i from rfl, hended rfl] at hset
      cases hset
    · exact hlt

/-- A turn that ends the loop after a line is in time. -/
theorem timelyStop_of_stop {rest : List Text}
    (hstop : ((turns i).notified || ((turns i).ended && rest.isEmpty)) = true) :
    TimelyStop i (i + 1 + rest.length) turns := by
  rcases Bool.or_eq_true_iff.mp hstop with hset | hset
  · exact Or.inl ⟨i, Nat.le_refl i, by omega, hset⟩
  · obtain ⟨hended, hempty⟩ := Bool.and_eq_true_iff.mp hset
    rw [List.isEmpty_iff.mp hempty]
    exact Or.inr (Or.inl ⟨Nat.lt_succ_self i, hended⟩)

/-- A turn that goes on after a line leaves the condition as it is. -/
theorem timelyStop_of_goOn {rest : List Text}
    (hgoOn : ((turns i).notified || ((turns i).ended && rest.isEmpty)) = false) :
    TimelyStop (i + 1) (i + 1 + rest.length) turns ↔
      TimelyStop i (i + 1 + rest.length) turns := by
  rw [Bool.or_eq_false_iff] at hgoOn
  refine timelyStop_succ (by omega) hgoOn.1 fun hlast => ?_
  have hempty : rest = [] := List.length_eq_zero_iff.mp (by omega)
  have hset := hgoOn.2
  rwa [hempty, List.isEmpty_nil, Bool.and_true] at hset

/-- Where the condition holds the loop of `mpk` is over in time, and elsewhere never. -/
theorem mpk_stops_or_spins (options : Options)
    (hwaited : ∀ i, (turns i).notified = true ∨ (turns i).readline = true) {lines : List Text}
    (hlines : Lines lines) (hm : m.lines = lines)
    (hrest : (turns (i + lines.length)).readline = true →
      ∀ j, i + lines.length ≤ j → (turns j).readline = true) :
    (TimelyStop i (i + lines.length) turns →
      ∃ out, Mpk.handleStdout options turns (lines.length + 1) i m = some out) ∧
    (¬ TimelyStop i (i + lines.length) turns →
      ∀ fuel, Mpk.handleStdout options turns fuel i m = none) := by
  induction lines generalizing m i with
  | nil =>
      cases hread : (turns i).readline with
      | false =>
          refine ⟨fun _ => ⟨m, ?_⟩, fun hnot => absurd (Or.inr (Or.inr hread)) hnot⟩
          exact handleStdout_notified (hwaited i) hread _
      | true =>
          refine ⟨?_, fun _ => mpk_spins (hrest hread) hm⟩
          rintro (⟨j, hj, hjn, -⟩ | ⟨hlt, -⟩ | hset)
          · exact absurd hjn (Nat.not_lt.mpr hj)
          · exact absurd hlt (Nat.lt_irrefl i)
          · have hset' : (turns i).readline = false := hset
            rw [hread] at hset'
            cases hset'
  | cons line rest ih =>
      have hlast : i + (line :: rest).length = i + 1 + rest.length := by
        rw [List.length_cons]
        omega
      rw [hlast] at hrest ⊢
      cases hread : (turns i).readline with
      | false =>
          have hnotified : (turns i).notified = true :=
            (hwaited i).resolve_right (by rw [hread]; exact Bool.false_ne_true)
          have htimely : TimelyStop i (i + 1 + rest.length) turns :=
            timelyStop_of_stop (Bool.or_eq_true_iff.mpr (Or.inl hnotified))
          refine ⟨fun _ => ⟨m, ?_⟩, fun hnot => absurd htimely hnot⟩
          exact handleStdout_notified (hwaited i) hread _
      | true =>
          have hturn := @handleStdout_line .cont turns m i options _ _
            (hlines line List.mem_cons_self) hm hread
          cases hstop : (turns i).notified || ((turns i).ended && rest.isEmpty) with
          | true =>
              rw [hstop] at hturn
              exact ⟨fun _ => ⟨_, hturn _⟩, fun hnot => absurd (timelyStop_of_stop hstop) hnot⟩
          | false =>
              rw [hstop] at hturn
              have htail := ih (fun l hl => hlines l (List.mem_cons_of_mem _ hl))
                (lines_take options hm) hrest
              rw [timelyStop_of_goOn hstop] at htail
              refine ⟨fun htimely => ?_, fun hnot fuel => ?_⟩
              · obtain ⟨out, hout⟩ := htail.1 htimely
                exact ⟨out, (hturn _).trans hout⟩
              · cases fuel with
                | zero => rfl
                | succ fuel => exact (hturn fuel).trans (htail.2 hnot fuel)

theorem Schedule.readline_from {n : Nat} (s : Schedule n)
    (h : (s.turns n).readline = true) (j : Nat) (hj : n ≤ j) :
    (s.turns j).readline = true := by
  have hended : ∀ j, n ≤ j → (s.turns j).ended = true := by
    intro j hj
    induction hj with
    | refl => exact s.at_end n (Nat.le_refl n) h
    | step _ ih => exact s.stays_ended _ ih
  rcases Nat.eq_or_lt_of_le hj with rfl | hlt
  · exact h
  · obtain ⟨j, rfl⟩ := Nat.exists_eq_succ_of_ne_zero (Nat.ne_of_gt (Nat.zero_lt_of_lt hlt))
    exact s.at_once j (hended j (Nat.le_of_lt_succ hlt))

/-- The two monitors are over after one turn more than there are lines if and only if
the event or the end of the stream shows in time; the one of `uprobe` always is, and
the one of `mpk` never ends where they do not. -/
theorem monitors_stop_iff {lines : List Text} (hlines : Lines lines)
    (s : Schedule lines.length) (options : Options) :
    (((∃ out, Uprobe.handleStdout options s.turns (lines.length + 1) 0 ⟨lines, [], false⟩ =
          some out) ∧
        ∃ out, Mpk.handleStdout options s.turns (lines.length + 1) 0 ⟨lines, [], false⟩ =
          some out) ↔ TimelyStop 0 lines.length s.turns) ∧
      (¬ TimelyStop 0 lines.length s.turns →
        ∀ fuel, Mpk.handleStdout options s.turns fuel 0 ⟨lines, [], false⟩ = none) := by
  have huprobe := uprobe_stops (m := ⟨lines, [], false⟩) (i := 0) options s.waited hlines rfl
  have hmpk := mpk_stops_or_spins (m := ⟨lines, [], false⟩) (i := 0) options s.waited hlines rfl
  rw [Nat.zero_add] at hmpk
  replace hmpk := hmpk s.readline_from
  refine ⟨⟨?_, fun htimely => ⟨huprobe, hmpk.1 htimely⟩⟩, hmpk.2⟩
  rintro ⟨-, out, hout⟩
  by_contra hnot
  rw [hmpk.2 hnot] at hout
  cases hout

/-- The event is reported with the second of two lines. -/
def stoppedServer : Schedule 2 where
  turns i := ⟨decide (1 ≤ i), true, decide (2 ≤ i)⟩
  waited := by simp
  stays_set := by simp
  at_end := by simp
  stays_ended := by
    intro i hi
    have hle : 2 ≤ i := of_decide_eq_true hi
    exact decide_eq_true (Nat.le_succ_of_le hle)
  at_once := by simp

theorem monitors_stop_iff_stopped :
    (∃ out, Uprobe.handleStdout ⟨"SERVER".toList, none, true⟩ stoppedServer.turns 3 0
        ⟨["ready\n".toList, "served\n".toList], [], false⟩ = some out) ∧
      ∃ out, Mpk.handleStdout ⟨"SERVER".toList, none, true⟩ stoppedServer.turns 3 0
        ⟨["ready\n".toList, "served\n".toList], [], false⟩ = some out := by
  have hlines : Lines ["ready\n".toList, "served\n".toList] := by
    intro l hl
    simp only [List.mem_cons, List.not_mem_nil, or_false] at hl
    rcases hl with rfl | rfl <;> decide
  have htimely : TimelyStop 0 2 stoppedServer.turns :=
    Or.inl ⟨1, Nat.zero_le 1, Nat.lt_succ_self 1, rfl⟩
  exact (monitors_stop_iff hlines stoppedServer ⟨"SERVER".toList, none, true⟩).1.mpr htimely

/-- The server prints one line and dies; the end of the stream and the event come
together. -/
def deadServer : Schedule 1 where
  turns i := if i = 0 then ⟨false, true, false⟩ else ⟨true, true, true⟩
  waited := by intro i; split <;> simp
  stays_set := by intro i; split <;> simp
  at_end := by intro i hi; rw [if_neg (Nat.ne_of_gt hi)]; simp
  stays_ended := by intro i; split <;> simp
  at_once := by intro i; split <;> simp

/-- `await server_stdout_task` does not return. -/
theorem monitor_of_dead_server :
    ¬ ∃ fuel out, Mpk.handleStdout ⟨"SERVER".toList, none, true⟩ deadServer.turns fuel 0
      ⟨["ready\n".toList], [], false⟩ = some out := by
  have hlines : Lines ["ready\n".toList] := by
    intro l hl
    rw [List.mem_singleton.mp hl]
    decide
  have hlate : ¬ TimelyStop 0 1 deadServer.turns := by
    rintro (⟨j, -, hj, hset⟩ | ⟨-, hset⟩ | hset)
    · obtain rfl : j = 0 := Nat.lt_one_iff.mp hj
      cases hset
    · cases hset
    · cases hset
  rintro ⟨fuel, out, hout⟩
  rw [(mpk_stops_or_spins (i := 0) _ deadServer.waited hlines rfl
    deadServer.readline_from).2 hlate fuel] at hout
  cases hout

end BpftimeBenchmark.Micro
