import BpftimeBenchmark.Micro.VictimOutput

/-!
The output of a victim that dies while it prints. The parser looks for the time of
every header it finds and takes whatever numeral stands there, so a cut between the
word of a header and the end of its time line is not noticed or stops the suite.
-/

namespace BpftimeBenchmark.Micro

open Text

/-- The header line and the time line without what ends the latter. -/
def recordLines (r : Record) : Text := r.header ++ '\n' :: r.timeLine

/-- The records whose two lines are both among the first `n` characters. -/
def completeIn : List Part → Nat → List Record
  | [], _ => []
  | .noise b :: rest, n => completeIn rest (n - b.text.length)
  | .record r :: rest, n =>
      if (recordLines r).length ≤ n then
        r :: completeIn rest (n - (doBenchmarkUserspace r).length)
      else []

/-- The record that the first `n` characters break off in, and how many of its
characters are there. -/
def cutIn : List Part → Nat → Option (Record × Nat)
  | [], _ => none
  | .noise b :: rest, n => if n < b.text.length then none else cutIn rest (n - b.text.length)
  | .record r :: rest, n =>
      if n < (recordLines r).length then some (r, n)
      else cutIn rest (n - (doBenchmarkUserspace r).length)

/-- Where the time begins. -/
def Record.timeStart (r : Record) : Nat := r.header.length + averageTimeUsage.length + 2

def lastTime (records : List Record) (name : Text) : Option PyFloat :=
  (records.reverse.find? (fun r => r.name = name)).map (·.time.value)

/-- The complete records are returned, and nothing else. -/
def SurvivesCut (parts : List Part) (n : Nat) : Prop :=
  ∃ d, Uprobe.parseVictimOutput ((printed parts).take n) = .ok d ∧
    Mpk.parseVictimOutput ((printed parts).take n) = .ok d ∧
    LastTimes (completeIn parts n) d

/-- No record is cut after its first word, or what is there of its time happens to be
the number last reported under the same name. -/
def HarmlessCut (parts : List Part) (n : Nat) : Prop :=
  ∀ cut ∈ cutIn parts n, cut.2 < benchmarking.length ∨
    ∃ v, float (cut.1.time.print.take (cut.2 - cut.1.timeStart)) = some v ∧
      lastTime (completeIn parts n) cut.1.name = some v

/-- What the loop makes of the first `k` characters of a record. -/
def cutResult (r : Record) (k : Nat) (d : Dict Text PyFloat) :
    Except PyError (Dict Text PyFloat) :=
  if k < benchmarking.length then .ok d
  else if k ≤ r.timeStart then .error .indexError
  else
    match float (r.time.print.take (k - r.timeStart)) with
    | none => .error .valueError
    | some v => .ok (d.set r.name v)

def outcome : List Part → Nat → Dict Text PyFloat → Except PyError (Dict Text PyFloat)
  | [], _, d => .ok d
  | .noise b :: rest, n, d =>
      if n < b.text.length then .ok d else outcome rest (n - b.text.length) d
  | .record r :: rest, n, d =>
      if n < (recordLines r).length then cutResult r n d
      else outcome rest (n - (doBenchmarkUserspace r).length) (d.set r.name r.time.value)

variable {d : Dict Text PyFloat} {result : Except PyError (Dict Text PyFloat)} {k n : Nat}

theorem length_benchmarking : benchmarking.length = 12 := by rw [benchmarking_eq]; rfl

theorem length_averageTimeUsage : averageTimeUsage.length = 18 := by
  rw [averageTimeUsage_eq]; rfl

theorem unindented_take {l : Text} (h : l.head?.all (fun c => !isSpace c) = true) (k : Nat) :
    Unindented [l.take k] := by
  apply unindented_line
  cases l with
  | nil => simp
  | cons c rest =>
      cases k with
      | zero => rfl
      | succ k => exact h

theorem reads_line {l : Text} (hl : OneLine l) (h : Unindented [l])
    (hresult : readLines [l] d = result) : Reads l d result := by
  by_cases hnil : l = []
  · have hlines : splitLines l = [] := by rw [hnil]; rfl
    have hblank : startsWith l benchmarking = false := startsWith_blank (by simp [hnil])
    rw [readLines_skip hblank] at hresult
    exact ⟨by rw [hlines]; simp [Unindented], by rw [hlines]; exact hresult⟩
  · have hlines : splitLines l = [l] := by rw [splitLines_oneLine hl, if_neg hnil]
    exact ⟨by rw [hlines]; exact h, by rw [hlines]; exact hresult⟩

theorem head_header (r : Record) : r.header.head?.all (fun c => !isSpace c) = true := by
  rw [Record.header, benchmarking_eq]
  rfl

theorem head_timeLine (r : Record) : r.timeLine.head?.all (fun c => !isSpace c) = true := by
  rw [Record.timeLine, averageTimeUsage_eq]
  rfl

/-- Inside the header line. -/
theorem reads_header_take (r : Record) (k : Nat) :
    Reads (r.header.take k) d
      (if k < benchmarking.length then .ok d else .error .indexError) := by
  refine reads_line ((oneLine_header r).take k) (unindented_take (head_header r) k) ?_
  rw [readLines]
  by_cases hk : k < benchmarking.length
  · have hstart : startsWith (r.header.take k) benchmarking = false := by
      rw [Bool.eq_false_iff]
      intro hstart
      have hlen := (startsWith_iff.mp hstart).length_le
      rw [List.length_take] at hlen
      omega
    rw [if_pos hk, hstart]
    rfl
  · have hstart : startsWith (r.header.take k) benchmarking = true := by
      rw [startsWith_iff]
      exact List.prefix_take_iff.mpr ⟨startsWith_iff.mp (startsWith_header r), by omega⟩
    rw [if_neg hk, if_pos hstart]

theorem getElem?_words_averageTime_take (k : Nat) :
    (words (averageTimeUsage.take k))[3]? = none := by
  have hall : ∀ j ≤ 18, (words (averageTimeUsage.take j)).length ≤ 3 := by
    rw [averageTimeUsage_eq]
    decide
  have htake : averageTimeUsage.take k = averageTimeUsage.take (min k 18) := by
    rw [← length_averageTimeUsage, List.take_eq_take_min]
  rw [htake]
  exact List.getElem?_eq_none (hall _ (Nat.min_le_right k 18))

/-- A numeral of which at least one character is there is a word, however much of it. -/
theorem words_numeral_take {t : Text} (hplain : ∀ c ∈ t, isSpace c = false) (hne : t ≠ [])
    (rest : Text) {m : Nat} (hm : 0 < m) :
    (words ((t ++ ' ' :: rest).take m))[0]? = some (t.take m) := by
  have htake : t.take m ≠ [] := by
    rw [ne_eq, List.take_eq_nil_iff, not_or]
    exact ⟨by omega, hne⟩
  have hword := words_word htake (fun c hc => hplain c (List.mem_of_mem_take hc))
  rw [List.take_append]
  rcases Nat.lt_or_ge t.length m with hlong | hshort
  · obtain ⟨j, hj⟩ : ∃ j, m - t.length = j + 1 := ⟨m - t.length - 1, by omega⟩
    rw [hj, List.take_succ_cons, words_append isSpace_blank, hword]
    rfl
  · rw [Nat.sub_eq_zero_of_le hshort, List.take_zero, List.append_nil, hword]
    rfl

/-- What the loop takes for the time when the time line is cut. -/
theorem getElem?_words_timeLine_take (r : Record) (j : Nat) :
    (words (r.timeLine.take j))[3]? =
      if j ≤ 19 then none else some (r.time.print.take (j - 19)) := by
  rw [Record.timeLine, List.take_append, length_averageTimeUsage]
  rcases Nat.lt_or_ge 18 j with hlong | hshort
  · obtain ⟨i, rfl⟩ : ∃ i, j = 18 + (i + 1) := ⟨j - 19, by omega⟩
    rw [List.take_of_length_le (by rw [length_averageTimeUsage]; omega), Nat.add_sub_cancel_left,
      List.take_succ_cons, getElem?_words_averageTime]
    rcases Nat.eq_zero_or_pos i with hzero | hpos
    · rw [hzero]
      rfl
    · rw [words_numeral_take (fun c hc => Lf.print_not_space hc) (Lf.print_ne_nil _) _ hpos,
        if_neg (by omega), show 18 + (i + 1) - 19 = i by omega]
  · rw [Nat.sub_eq_zero_of_le hshort, List.take_zero, List.append_nil,
      getElem?_words_averageTime_take, if_pos (by omega)]

theorem length_header_ge (r : Record) : benchmarking.length ≤ r.header.length :=
  (startsWith_iff.mp (startsWith_header r)).length_le

/-- A header and what there is of the line after it. -/
theorem reads_header_line (r : Record) {l : Text} (hl : OneLine l) (h : Unindented [l]) :
    Reads (r.header ++ '\n' :: l) d
      (match (words l)[3]? with
      | none => .error .indexError
      | some field =>
          match float field with
          | none => .error .valueError
          | some v => .ok (d.set r.name v)) := by
  by_cases hnil : l = []
  · have hlines : splitLines (r.header ++ '\n' :: l) = [r.header] := by
      rw [splitLines_line (oneLine_header r), hnil]
      rfl
    refine ⟨hlines ▸ unindented_header r, ?_⟩
    rw [hlines, readLines, if_pos (startsWith_header r), hnil]
    rfl
  · have hlines : splitLines (r.header ++ '\n' :: l) = [r.header] ++ [l] := by
      rw [splitLines_line (oneLine_header r), splitLines_oneLine hl, if_neg hnil]
      rfl
    refine ⟨hlines ▸ unindented_append (unindented_header r) h, ?_⟩
    rw [hlines, List.singleton_append, readLines_header]
    rfl

/-- Inside the two lines of a record. -/
theorem reads_recordLines_take (r : Record) (k : Nat) :
    Reads ((recordLines r).take k) d (cutResult r k d) := by
  have hheader := length_header_ge r
  rcases Nat.lt_or_ge r.header.length k with hlong | hshort
  · obtain ⟨j, rfl⟩ : ∃ j, k = r.header.length + (j + 1) :=
      ⟨k - r.header.length - 1, by omega⟩
    have htext : (recordLines r).take (r.header.length + (j + 1)) =
        r.header ++ '\n' :: r.timeLine.take j := by
      rw [recordLines, List.take_length_add_append, List.take_succ_cons]
    have hreads := reads_header_line (d := d) r ((oneLine_timeLine r).take j)
      (unindented_take (head_timeLine r) j)
    have hstart : r.header.length + (j + 1) - r.timeStart = j - 19 := by
      rw [Record.timeStart, length_averageTimeUsage]
      omega
    rw [getElem?_words_timeLine_take] at hreads
    rw [htext, cutResult, if_neg (by omega), hstart]
    by_cases hj : j ≤ 19
    · rw [if_pos hj] at hreads
      rwa [if_pos (by omega)]
    · rw [if_neg hj] at hreads
      rwa [if_neg (by omega)]
  · have htext : (recordLines r).take k = r.header.take k := by
      rw [recordLines, List.take_append_of_le_length hshort]
    have hreads := reads_header_take (d := d) r k
    rw [htext, cutResult]
    split
    · rename_i hfew
      rwa [if_pos hfew] at hreads
    · rename_i hmany
      rw [if_neg hmany] at hreads
      rwa [if_pos (by rw [Record.timeStart]; omega)]

theorem completeIn_zero (parts : List Part) : completeIn parts 0 = [] := by
  induction parts with
  | nil => rfl
  | cons part rest ih =>
      cases part with
      | noise b => rwa [completeIn, Nat.zero_sub]
      | record r =>
          rw [completeIn, if_neg]
          simp [recordLines]

theorem outcome_zero (parts : List Part) : outcome parts 0 d = .ok d := by
  induction parts with
  | nil => rfl
  | cons part rest ih =>
      cases part with
      | noise b =>
          rw [outcome, Nat.zero_sub]
          split
          · rfl
          · exact ih
      | record r =>
          have hpos : 0 < (recordLines r).length := by simp [recordLines]
          rw [outcome, if_pos hpos, cutResult, if_pos (by rw [length_benchmarking]; omega)]

theorem contains_take {s : Text} (h : contains s benchmarking = false) (n : Nat) :
    contains (s.take n) benchmarking = false := by
  rw [Bool.eq_false_iff] at h ⊢
  intro htake
  exact h (contains_iff.mpr
    ((contains_iff.mp htake).trans (List.take_prefix n s).isInfix))

theorem reads_of_concat {c : Char} (hc : isSpace c = true) {s : Text}
    (h : Reads (s ++ [c]) d result) : Reads s d result where
  unindented := unindented_of_concat hc h.unindented
  lines := by rw [← readLines_concat hc, h.lines]

theorem doBenchmarkUserspace_eq (r : Record) :
    doBenchmarkUserspace r = recordLines r ++ ['\n', '\n'] := by
  simp [doBenchmarkUserspace, recordLines]

theorem length_doBenchmarkUserspace (r : Record) :
    (doBenchmarkUserspace r).length = (recordLines r).length + 2 := by
  rw [doBenchmarkUserspace_eq, List.length_append]
  rfl

/-- Both lines are there; what ends the second need not be. -/
theorem reads_record_take (r : Record) (hlines : (recordLines r).length ≤ n)
    (htext : n < (doBenchmarkUserspace r).length) :
    Reads ((doBenchmarkUserspace r).take n) d (.ok (d.set r.name r.time.value)) := by
  have hnewline : isSpace '\n' = true := by decide
  have hwhole : Reads (recordLines r ++ ['\n', '\n']) d
      (.ok (d.set r.name r.time.value)) := by
    have hreads := reads_record (s := []) r (reads_plain (d := d.set r.name r.time.value) rfl)
    rwa [List.append_nil, doBenchmarkUserspace_eq] at hreads
  have hone : Reads (recordLines r ++ ['\n']) d (.ok (d.set r.name r.time.value)) :=
    reads_of_concat hnewline (by rwa [List.append_assoc])
  rw [length_doBenchmarkUserspace] at htext
  obtain ⟨m, rfl⟩ := Nat.exists_eq_add_of_le hlines
  rw [doBenchmarkUserspace_eq, List.take_length_add_append]
  have hm : m = 0 ∨ m = 1 := by omega
  rcases hm with rfl | rfl
  · rw [List.take_zero, List.append_nil]
    exact reads_of_concat hnewline hone
  · exact hone

/-- The last record that is there at all. -/
theorem reads_record_cut (r : Record) (h : n < (doBenchmarkUserspace r).length) :
    Reads ((doBenchmarkUserspace r).take n) d
      (if n < (recordLines r).length then cutResult r n d
        else .ok (d.set r.name r.time.value)) := by
  split
  · rename_i hcut
    have htake : (doBenchmarkUserspace r).take n = (recordLines r).take n := by
      rw [doBenchmarkUserspace_eq, List.take_append_of_le_length hcut.le]
    rw [htake]
    exact reads_recordLines_take r n
  · rename_i hlines
    exact reads_record_take r (Nat.le_of_not_lt hlines) h

theorem outcome_record_cut {r : Record} {rest : List Part}
    (h : n < (doBenchmarkUserspace r).length) :
    outcome (.record r :: rest) n d =
      if n < (recordLines r).length then cutResult r n d
        else .ok (d.set r.name r.time.value) := by
  rw [outcome, Nat.sub_eq_zero_of_le h.le, outcome_zero]

/-- What the loop makes of an output that is cut after `n` characters. -/
theorem reads_take (parts : List Part) (n : Nat) (d : Dict Text PyFloat) :
    Reads ((printed parts).take n) d (outcome parts n d) := by
  induction parts generalizing n d with
  | nil =>
      rw [printed, List.flatMap_nil, List.take_nil]
      exact reads_plain rfl
  | cons part rest ih =>
      have htext : (printed (part :: rest)).take n =
          part.text.take n ++ (printed rest).take (n - part.text.length) := by
        rw [printed, List.flatMap_cons, List.take_append]
        rfl
      have hshort : n < part.text.length →
          part.text.take n ++ (printed rest).take (n - part.text.length) =
            part.text.take n := by
        intro h
        rw [Nat.sub_eq_zero_of_le h.le, List.take_zero, List.append_nil]
      rw [htext]
      cases part with
      | noise b =>
          rw [outcome]
          split
          · rename_i h
            rw [hshort h]
            exact reads_plain (contains_take b.plain n)
          · rename_i h
            show Reads (b.text.take n ++ _) d _
            rw [List.take_of_length_le (Nat.le_of_not_lt h)]
            exact reads_noise b (ih _ d)
      | record r =>
          rcases Nat.lt_or_ge n (doBenchmarkUserspace r).length with hcut | hwhole
          · rw [hshort hcut, outcome_record_cut hcut]
            exact reads_record_cut r hcut
          · have hlines : ¬ n < (recordLines r).length := by
              rw [length_doBenchmarkUserspace] at hwhole
              omega
            rw [outcome, if_neg hlines]
            show Reads ((doBenchmarkUserspace r).take n ++ _) d _
            rw [List.take_of_length_le hwhole]
            exact reads_record r (ih _ _)

/-- The complete records are read, then the one that is cut. -/
theorem outcome_eq (parts : List Part) (n : Nat) (d : Dict Text PyFloat) :
    outcome parts n d =
      match cutIn parts n with
      | none => .ok (setAll d (completeIn parts n))
      | some cut => cutResult cut.1 cut.2 (setAll d (completeIn parts n)) := by
  induction parts generalizing n d with
  | nil => rfl
  | cons part rest ih =>
      cases part with
      | noise b =>
          rw [outcome, cutIn, completeIn]
          split
          · rename_i h
            rw [Nat.sub_eq_zero_of_le h.le, completeIn_zero]
            rfl
          · exact ih _ d
      | record r =>
          rw [outcome, cutIn, completeIn]
          split
          · rename_i h
            rw [if_neg (by omega)]
            rfl
          · rename_i h
            rw [if_pos (by omega)]
            exact ih _ _

theorem parse_take (parts : List Part) (n : Nat) :
    Uprobe.parseVictimOutput ((printed parts).take n) = outcome parts n Dict.empty ∧
      Mpk.parseVictimOutput ((printed parts).take n) = outcome parts n Dict.empty :=
  parse_of_reads (reads_take parts n Dict.empty)

theorem lastTimes_completeIn (parts : List Part) (n : Nat) :
    LastTimes (completeIn parts n) (setAll Dict.empty (completeIn parts n)) :=
  lastTimes_setAll lastTimes_empty (completeIn parts n)

theorem survivesCut_iff_outcome (parts : List Part) (n : Nat) :
    SurvivesCut parts n ↔
      outcome parts n Dict.empty = .ok (setAll Dict.empty (completeIn parts n)) := by
  obtain ⟨huprobe, hmpk⟩ := parse_take parts n
  constructor
  · rintro ⟨d, hd, -, hlast⟩
    rw [← huprobe, hd, hlast.unique (lastTimes_completeIn parts n)]
  · intro h
    exact ⟨_, huprobe.trans h, hmpk.trans h, lastTimes_completeIn parts n⟩

theorem float_nil : float [] = none := by decide +kernel

/-- A record that is cut changes nothing exactly if it is not begun or repeats the
last time of its name. -/
theorem cutResult_eq_ok {r : Record} {k : Nat} {d : Dict Text PyFloat} :
    cutResult r k d = .ok d ↔ k < benchmarking.length ∨
      ∃ v, float (r.time.print.take (k - r.timeStart)) = some v ∧ d.get? r.name = some v := by
  unfold cutResult
  by_cases hfew : k < benchmarking.length
  · simp [hfew]
  · rw [if_neg hfew]
    by_cases hstart : k ≤ r.timeStart
    · rw [if_pos hstart, Nat.sub_eq_zero_of_le hstart, List.take_zero, float_nil]
      simp [hfew]
    · rw [if_neg hstart]
      cases hfloat : float (r.time.print.take (k - r.timeStart)) with
      | none => simp [hfew]
      | some v =>
          simp only [Except.ok.injEq, Option.some.injEq, exists_eq_left', hfew, false_or]
          constructor
          · intro hsame
            rw [← hsame, Dict.get?_set_self]
          · exact Dict.set_eq_self

/-- A cut output loses nothing but its unfinished record exactly if the cut is
harmless. -/
theorem survivesCut_iff (parts : List Part) (n : Nat) :
    SurvivesCut parts n ↔ HarmlessCut parts n := by
  rw [survivesCut_iff_outcome, outcome_eq, HarmlessCut]
  cases cutIn parts n with
  | none => simp
  | some cut =>
      have hlast := (lastTimes_completeIn parts n).times cut.1.name
      simp only [Option.mem_some_iff, forall_eq']
      rw [cutResult_eq_ok, hlast]
      rfl

/-- Cut after its first word a record stops the suite, and cut within its time it is
reported with another time. -/
theorem cut_output :
    ¬ SurvivesCut [.record (benchRead 12345678)] 12 ∧
      ¬ SurvivesCut [.record (benchRead 12345678)] 60 := by
  have houtcomes : outcome [.record (benchRead 12345678)] 12 Dict.empty = .error .indexError ∧
      outcome [.record (benchRead 12345678)] 60 Dict.empty =
        .ok (Dict.empty.set "__bench_read".toList (.finite 12)) ∧
      (completeIn [.record (benchRead 12345678)] 60).isEmpty := by
    decide +kernel
  obtain ⟨hraises, hshort, hnone⟩ := houtcomes
  rw [survivesCut_iff_outcome, survivesCut_iff_outcome, hraises, hshort,
    List.isEmpty_iff.mp hnone]
  constructor
  · intro h
    cases h
  · intro h
    have hkeys := congrArg Dict.keys (Except.ok.inj h)
    rw [Dict.keys_set] at hkeys
    cases hkeys

end BpftimeBenchmark.Micro
