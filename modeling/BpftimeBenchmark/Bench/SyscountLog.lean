import BpftimeBenchmark.Bench.Syscount
import BpftimeBenchmark.Lib.Lines

/-!
The verdict on a log of `syscount` that is read in two parts. The rows are counted by a
machine that every empty line resets; the markers and the heading of the trace are
parts of one line.
-/

namespace BpftimeBenchmark.Bench.Syscount

open Text

/-- A text that is empty or ends in a newline. -/
def Whole (s : Text) : Prop := s = [] ∨ s.getLast? = some '\n'

theorem contains_append {s part : Text} (hs : Whole s) (hpart : '\n' ∉ part) (t : Text) :
    contains (s ++ t) part = (contains s part || contains t part) := by
  rw [Bool.eq_iff_iff, Bool.or_eq_true, contains_iff, contains_iff, contains_iff]
  rcases hs with rfl | hs
  · exact ⟨Or.inr, fun h => h.elim (fun hnil => hnil.trans (List.nil_prefix.isInfix)) id⟩
  · obtain ⟨u, rfl⟩ := List.getLast?_eq_some_iff.mp hs
    rw [List.append_assoc, List.singleton_append, infix_append_cons hpart,
      infix_append_cons hpart]
    constructor
    · exact Or.imp_left Or.inl
    · rintro ((hu | hnil) | ht)
      · exact Or.inl hu
      · exact Or.inr (hnil.trans (List.nil_prefix.isInfix))
      · exact Or.inr ht

theorem splitLines_whole {s : Text} (hs : Whole s) (t : Text) :
    splitLines (s ++ t) = splitLines s ++ splitLines t := by
  rcases hs with rfl | hs
  · rfl
  · exact splitLines_append hs t

theorem countRows_blank {blank : Text} (h : strip blank = []) (inCountTable : Bool)
    (lines rest : List Text) :
    countRows inCountTable (lines ++ blank :: rest) =
      countRows inCountTable (lines ++ [blank]) + countRows false rest := by
  induction lines generalizing inCountTable with
  | nil => simp [countRows, h]
  | cons line lines ih =>
      simp only [List.cons_append, countRows, ih]
      split
      · rfl
      · split
        · rfl
        · split
          · omega
          · rfl

/-- After an empty line the machine is where it starts. -/
theorem countRows_append {lines : List Text} (h : ∀ l ∈ lines.getLast?, strip l = [])
    (rest : List Text) :
    countRows false (lines ++ rest) = countRows false lines + countRows false rest := by
  induction lines using List.reverseRecOn with
  | nil => simp [countRows]
  | append_singleton lines blank =>
      rw [List.append_assoc, List.singleton_append]
      exact countRows_blank (h blank (by simp)) false lines rest

/-- No marker can arise across the seam. -/
theorem newline_not_mem_marker {marker : Text} (h : marker ∈ hardErrorTexts) :
    '\n' ∉ marker := by
  have hall : hardErrorTexts.all (fun marker => marker.all (fun c => c ≠ '\n')) = true := by
    decide +kernel
  intro hmem
  have hne := List.all_eq_true.mp (List.all_eq_true.mp hall marker h) '\n' hmem
  exact of_decide_eq_true hne rfl

theorem mem_errorMarkers {run : Nat} {a c marker : Text} {returncode : Option Int}
    {requireCounts : Bool} :
    marker ∈ (logSummary run a c returncode requireCounts).errorMarkers ↔
      marker ∈ hardErrorTexts ∧ (contains a marker = true ∨ contains c marker = true) := by
  rw [logSummary, List.mem_filter, Bool.or_eq_true]

theorem traceSuccess_iff {run : Nat} {a c : Text} {returncode : Option Int}
    {requireCounts : Bool} :
    let s := logSummary run a c returncode requireCounts
    s.traceSuccess = true ↔
      s.started = true ∧ s.errorMarkers = [] ∧ (requireCounts = true → 0 < s.countRows) := by
  simp only [logSummary, Bool.and_eq_true, List.isEmpty_iff, and_assoc, Bool.or_eq_true,
    Bool.not_eq_true', decide_eq_true_eq]
  cases requireCounts <;> simp

/-- What a log and its continuation report together, where the log ends with an empty
line: the rows add up, and the markers are those of either part. Once a hard error is
logged nothing makes the trace a success again; without one nothing makes it a failure. -/
theorem logSummary_append {a b c d : Text} (ha : Whole a) (hc : Whole c)
    (hblank : ∀ l ∈ (splitLines a).getLast?, strip l = []) (run : Nat)
    (returncode : Option Int) (requireCounts : Bool) :
    let first := logSummary run a c returncode requireCounts
    let second := logSummary run b d returncode requireCounts
    let both := logSummary run (a ++ b) (c ++ d) returncode requireCounts
    both.countRows = first.countRows + second.countRows ∧
      both.started = (first.started || second.started) ∧
      both.errorMarkers = hardErrorTexts.filter
        (fun marker => marker ∈ first.errorMarkers ∨ marker ∈ second.errorMarkers) ∧
      (first.errorMarkers ≠ [] → both.traceSuccess = false) ∧
      (second.errorMarkers = [] → first.traceSuccess = true → both.traceSuccess = true) := by
  intro first second both
  have hrows : both.countRows = first.countRows + second.countRows := by
    show countRows false (splitLines (a ++ b)) = _
    rw [splitLines_whole ha, countRows_append hblank]
    rfl
  have hstarted : both.started = (first.started || second.started) :=
    contains_append ha (by decide +kernel) b
  have hmarkers : both.errorMarkers = hardErrorTexts.filter
      (fun marker => marker ∈ first.errorMarkers ∨ marker ∈ second.errorMarkers) := by
    refine List.filter_congr fun marker hmarker => ?_
    have hline := newline_not_mem_marker hmarker
    rw [contains_append ha hline, contains_append hc hline, Bool.eq_iff_iff, decide_eq_true_eq,
      mem_errorMarkers, mem_errorMarkers]
    simp only [hmarker, true_and, Bool.or_eq_true]
    exact or_or_or_comm
  refine ⟨hrows, hstarted, hmarkers, fun herror => ?_, fun hsecond hfirst => ?_⟩
  · obtain ⟨marker, hmarker⟩ := List.exists_mem_of_ne_nil _ herror
    have hboth : marker ∈ both.errorMarkers := by
      rw [hmarkers, List.mem_filter]
      exact ⟨(mem_errorMarkers.mp hmarker).1, decide_eq_true (Or.inl hmarker)⟩
    rw [Bool.eq_false_iff]
    intro hsuccess
    have hnil := (traceSuccess_iff.mp hsuccess).2.1
    exact absurd hboth (hnil ▸ List.not_mem_nil)
  · obtain ⟨hfirstStarted, hfirstMarkers, hfirstRows⟩ := traceSuccess_iff.mp hfirst
    refine traceSuccess_iff.mpr ⟨?_, ?_, fun hrequire => ?_⟩
    · rw [hstarted, hfirstStarted]
      rfl
    · rw [hmarkers, hfirstMarkers, hsecond]
      exact List.filter_eq_nil_iff.mpr (by simp)
    · rw [hrows]
      exact Nat.add_pos_left (hfirstRows hrequire) _

theorem logSummary_append_rows :
    let first := logSummary 1 "Tracing syscalls\nPID COUNT\n7 3\n\n".toList [] none true
    let second := logSummary 1 "8 4\n".toList "ERROR: lost\n".toList none true
    let both := logSummary 1
      ("Tracing syscalls\nPID COUNT\n7 3\n\n".toList ++ "8 4\n".toList)
      ([] ++ "ERROR: lost\n".toList) none true
    both.countRows = first.countRows + second.countRows ∧
      both.started = (first.started || second.started) ∧
      both.errorMarkers = hardErrorTexts.filter
        (fun marker => marker ∈ first.errorMarkers ∨ marker ∈ second.errorMarkers) ∧
      (first.errorMarkers ≠ [] → both.traceSuccess = false) ∧
      (second.errorMarkers = [] → first.traceSuccess = true → both.traceSuccess = true) :=
  logSummary_append (Or.inr (by decide +kernel)) (Or.inl rfl)
    (by
      have hlast : (splitLines "Tracing syscalls\nPID COUNT\n7 3\n\n".toList).getLast? =
          some [] := by decide +kernel
      intro l hl
      rw [hlast] at hl
      obtain rfl := Option.some.inj hl
      rfl) 1 none true

end BpftimeBenchmark.Bench.Syscount
