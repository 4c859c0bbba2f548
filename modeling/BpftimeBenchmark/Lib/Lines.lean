import Mathlib.Data.List.Induction
import Mathlib.Data.List.TakeWhile
import BpftimeBenchmark.Lib.Text

/-!
The lines and the words of a text that is put together from parts, what white
space at either end of it changes, and the lines of a file.
-/

namespace BpftimeBenchmark.Text

theorem isSpace_of_isLineBreak {c : Char} (h : isLineBreak c = true) : isSpace c = true := by
  have hmem : ∀ n ∈ [0xa, 0xb, 0xc, 0xd, 0x1c, 0x1d, 0x1e, 0x85, 0x2028, 0x2029],
      [0x9, 0xa, 0xb, 0xc, 0xd, 0x1c, 0x1d, 0x1e, 0x1f, 0x20, 0x85, 0xa0, 0x1680, 0x2000,
        0x2001, 0x2002, 0x2003, 0x2004, 0x2005, 0x2006, 0x2007, 0x2008, 0x2009, 0x200a,
        0x2028, 0x2029, 0x202f, 0x205f, 0x3000].contains n = true := by decide
  exact hmem c.toNat (List.contains_iff_mem.mp h)

theorem isLineBreak_of_not_isSpace {c : Char} (h : isSpace c = false) :
    isLineBreak c = false := by
  cases hbreak : isLineBreak c with
  | false => rfl
  | true =>
      rw [isSpace_of_isLineBreak hbreak] at h
      cases h

theorem not_space_of_all {s : Text} (h : s.all (fun c => !isSpace c) = true) :
    ∀ c ∈ s, isSpace c = false := by
  simpa [List.all_eq_true] using h

/-- A text of one line. -/
def OneLine (s : Text) : Prop := ∀ c ∈ s, isLineBreak c = false

instance (s : Text) : Decidable (OneLine s) :=
  List.decidableBAll (fun c => isLineBreak c = false) s

theorem OneLine.append {s t : Text} (hs : OneLine s) (ht : OneLine t) : OneLine (s ++ t) := by
  intro c hc
  exact (List.mem_append.mp hc).elim (hs c) (ht c)

theorem OneLine.of_not_space {s : Text} (h : ∀ c ∈ s, isSpace c = false) : OneLine s :=
  fun c hc => isLineBreak_of_not_isSpace (h c hc)

theorem OneLine.take {s : Text} (h : OneLine s) (n : Nat) : OneLine (s.take n) :=
  fun c hc => h c (List.mem_of_mem_take hc)

theorem linesFrom_oneLine {s : Text} (h : OneLine s) (line t : Text) :
    linesFrom line false (s ++ t) = linesFrom (line ++ s) false t := by
  induction s generalizing line with
  | nil => simp
  | cons c rest ih =>
      have hc : isLineBreak c = false := h c List.mem_cons_self
      have hrest : OneLine rest := fun d hd => h d (List.mem_cons_of_mem _ hd)
      simp only [List.cons_append, linesFrom, Bool.false_and, Bool.false_eq_true, if_false, hc]
      rw [ih hrest]
      simp

theorem splitLines_oneLine {s : Text} (h : OneLine s) :
    splitLines s = if s = [] then [] else [s] := by
  have hlines := linesFrom_oneLine h [] []
  rw [List.append_nil, List.nil_append] at hlines
  rw [splitLines, hlines, linesFrom]
  cases s <;> rfl

theorem splitLines_line {s : Text} (h : OneLine s) (t : Text) :
    splitLines (s ++ '\n' :: t) = s :: splitLines t := by
  rw [splitLines, linesFrom_oneLine h]
  rfl

/-- After a newline the lines start afresh. -/
theorem linesFrom_append_newline (s t : Text) (line : Text) (afterReturn : Bool)
    (hline : afterReturn = true → line = []) :
    linesFrom line afterReturn (s ++ '\n' :: t) =
      linesFrom line afterReturn (s ++ ['\n']) ++ splitLines t := by
  induction s generalizing line afterReturn with
  | nil =>
      cases afterReturn with
      | true =>
          rw [hline rfl]
          rfl
      | false => rfl
  | cons c rest ih =>
      simp only [List.cons_append, linesFrom]
      split
      · rename_i hskip
        rw [ih line false (by simp)]
      · split
        · rw [ih [] _ (fun _ => rfl), List.cons_append]
        · rw [ih _ false (by simp)]

theorem splitLines_append {b : Text} (h : b.getLast? = some '\n') (t : Text) :
    splitLines (b ++ t) = splitLines b ++ splitLines t := by
  obtain ⟨s, rfl⟩ := List.getLast?_eq_some_iff.mp h
  rw [List.append_assoc, List.singleton_append, splitLines,
    linesFrom_append_newline s t [] false (fun _ => rfl)]
  rfl

theorem contains_iff {s part : Text} : contains s part = true ↔ part <:+: s := by
  induction s with
  | nil =>
      rw [contains, Bool.or_false, List.isPrefixOf_iff_prefix, List.prefix_nil, List.infix_nil]
  | cons c rest ih =>
      rw [contains, Bool.or_eq_true, List.isPrefixOf_iff_prefix, ih, List.infix_cons_iff]

/-- A part that does not hold the separator lies on one side of it. -/
theorem infix_append_cons {α : Type} {a : α} {u t part : List α} (h : a ∉ part) :
    part <:+: u ++ a :: t ↔ part <:+: u ∨ part <:+: t := by
  constructor
  · rintro ⟨x, y, heq⟩
    rcases List.append_eq_append_iff.mp heq with ⟨as, hu, -⟩ | ⟨bs, hx, ht⟩
    · exact Or.inl ⟨x, as, hu.symm⟩
    · cases bs with
      | nil => exact Or.inl ⟨x, [], by rw [hx, List.append_nil, List.append_nil]⟩
      | cons b bs =>
          obtain ⟨rfl, rfl⟩ := List.cons.inj ht
          rcases List.append_eq_append_iff.mp hx with ⟨as, -, hpart⟩ | ⟨cs, -, hcs⟩
          · exact absurd (hpart ▸ List.mem_append_right _ List.mem_cons_self) h
          · cases cs with
            | nil =>
                have hmem : a ∈ [] ++ part := hcs ▸ List.mem_cons_self
                exact absurd hmem h
            | cons c cs =>
                obtain ⟨-, rfl⟩ := List.cons.inj hcs
                exact Or.inr ⟨cs, y, rfl⟩
  · rintro (hu | ht)
    · exact hu.trans (List.prefix_append u _).isInfix
    · exact ht.trans ((List.suffix_cons a t).trans (List.suffix_append u _)).isInfix

theorem startsWith_iff {s part : Text} : startsWith s part = true ↔ part <+: s :=
  List.isPrefixOf_iff_prefix

theorem mem_linesFrom {line s l : Text} {afterReturn : Bool}
    (hline : afterReturn = true → line = []) (h : l ∈ linesFrom line afterReturn s) :
    l <:+: line ++ s := by
  induction s generalizing line afterReturn with
  | nil =>
      unfold linesFrom at h
      split at h
      · cases h
      · rw [List.mem_singleton.mp h]
        exact (List.prefix_append line []).isInfix
  | cons c rest ih =>
      have hrest : rest <:+: line ++ c :: rest :=
        ((List.suffix_cons c rest).trans (List.suffix_append line _)).isInfix
      unfold linesFrom at h
      split at h
      · rename_i hskip
        have hnil : line = [] := hline (Bool.and_eq_true_iff.mp hskip).1
        have hinfix := ih (by simp) h
        rw [hnil, List.nil_append] at hinfix
        exact hinfix.trans hrest
      · split at h
        · rcases List.mem_cons.mp h with rfl | hmem
          · exact (List.prefix_append _ _).isInfix
          · exact (ih (fun _ => rfl) hmem).trans hrest
        · have hinfix := ih (by simp) h
          rwa [List.append_assoc, List.singleton_append] at hinfix

theorem infix_of_mem_splitLines {s l : Text} (h : l ∈ splitLines s) : l <:+: s :=
  mem_linesFrom (by simp) h

/-- A part that the text does not contain starts no line of it. -/
theorem not_startsWith_of_not_contains {s part l : Text} (h : contains s part = false)
    (hl : l ∈ splitLines s) : startsWith l part = false := by
  cases hstart : startsWith l part with
  | false => rfl
  | true =>
      have hinfix := (startsWith_iff.mp hstart).isInfix.trans (infix_of_mem_splitLines hl)
      rw [contains_iff.mpr hinfix] at h
      cases h

/-- What a further character at the end can do to the lines of a text. -/
inductive LinesConcat (c : Char) (lines : List Text) : List Text → Prop
  | same : LinesConcat c lines lines
  | blank {b : Text} (hb : ∀ d ∈ b, isSpace d = true) : LinesConcat c lines (lines ++ [b])
  | longer {before : List Text} {l : Text} (h : lines = before ++ [l]) :
      LinesConcat c lines (before ++ [l ++ [c]])

theorem LinesConcat.cons {c : Char} {lines lines' : List Text} (l : Text)
    (h : LinesConcat c lines lines') : LinesConcat c (l :: lines) (l :: lines') := by
  cases h with
  | same => exact .same
  | blank hb => exact .blank hb
  | @longer before l' h =>
      subst h
      exact @LinesConcat.longer c _ (l :: before) l' rfl

theorem linesFrom_concat {c : Char} (hc : isSpace c = true) (s line : Text)
    (afterReturn : Bool) (hline : afterReturn = true → line = []) :
    LinesConcat c (linesFrom line afterReturn s) (linesFrom line afterReturn (s ++ [c])) := by
  induction s generalizing line afterReturn with
  | nil =>
      simp only [List.nil_append, linesFrom]
      by_cases hskip : (afterReturn && decide (c = '\n')) = true
      · rw [if_pos hskip, hline (Bool.and_eq_true_iff.mp hskip).1]
        exact .same
      · rw [if_neg hskip]
        cases line with
        | nil =>
            by_cases hbreak : isLineBreak c = true
            · rw [if_pos hbreak]
              exact @LinesConcat.blank c [] [] (by simp)
            · rw [if_neg hbreak]
              exact @LinesConcat.blank c [] [c] (by simpa using hc)
        | cons d l =>
            by_cases hbreak : isLineBreak c = true
            · rw [if_pos hbreak]
              exact .same
            · rw [if_neg hbreak]
              exact @LinesConcat.longer c _ [] (d :: l) rfl
  | cons d rest ih =>
      simp only [List.cons_append, linesFrom]
      split
      · exact ih _ _ (by simp)
      · split
        · exact (ih _ _ (fun _ => rfl)).cons line
        · exact ih _ _ (by simp)

theorem splitLines_concat {c : Char} (hc : isSpace c = true) (s : Text) :
    LinesConcat c (splitLines s) (splitLines (s ++ [c])) :=
  linesFrom_concat hc s [] false (by simp)

/-- What a further character at the beginning can do to the lines of a text. -/
inductive LinesCons (c : Char) (lines : List Text) : List Text → Prop
  | same : LinesCons c lines lines
  | blank {b : Text} (hb : ∀ d ∈ b, isSpace d = true) : LinesCons c lines (b :: lines)
  | longer {l : Text} {rest : List Text} (h : lines = l :: rest) :
      LinesCons c lines ((c :: l) :: rest)

theorem linesFrom_cons (c : Char) (s line : Text) :
    (linesFrom line false s = [] ∧ linesFrom (c :: line) false s = [[c]]) ∨
      ∃ l rest, linesFrom line false s = l :: rest ∧
        linesFrom (c :: line) false s = (c :: l) :: rest := by
  induction s generalizing line with
  | nil =>
      cases line with
      | nil => exact Or.inl ⟨rfl, rfl⟩
      | cons d l => exact Or.inr ⟨d :: l, [], rfl, rfl⟩
  | cons d rest ih =>
      simp only [linesFrom, Bool.false_and, Bool.false_eq_true, if_false]
      by_cases hbreak : isLineBreak d = true
      · rw [if_pos hbreak, if_pos hbreak]
        exact Or.inr ⟨line, _, rfl, rfl⟩
      · rw [if_neg hbreak, if_neg hbreak]
        exact ih (line ++ [d])

/-- A newline after a carriage return belongs to it. -/
theorem linesFrom_afterReturn (s : Text) :
    linesFrom [] true s = splitLines s ∨ splitLines s = [] :: linesFrom [] true s := by
  cases s with
  | nil => exact Or.inl rfl
  | cons d rest =>
      by_cases hd : d = '\n'
      · subst hd
        exact Or.inr rfl
      · left
        simp [splitLines, linesFrom, hd]

theorem splitLines_cons {c : Char} (hc : isSpace c = true) (s : Text) :
    LinesCons c (splitLines s) (splitLines (c :: s)) := by
  by_cases hbreak : isLineBreak c = true
  · have hcons : splitLines (c :: s) = [] :: linesFrom [] (c = '\r') s := by
      simp [splitLines, linesFrom, hbreak]
    rw [hcons]
    by_cases hreturn : c = '\r'
    · rw [decide_eq_true hreturn]
      rcases linesFrom_afterReturn s with hsame | hsame
      · rw [hsame]
        exact .blank (b := []) (by simp)
      · rw [← hsame]
        exact .same
    · rw [decide_eq_false hreturn]
      exact .blank (b := []) (by simp)
  · have hcons : splitLines (c :: s) = linesFrom [c] false s := by
      simp [splitLines, linesFrom, hbreak]
    rw [hcons]
    rcases linesFrom_cons c s [] with ⟨hnil, hone⟩ | ⟨l, rest, hlines, hlonger⟩
    · rw [hone, splitLines, hnil]
      exact .blank (b := [c]) (by simpa using hc)
    · rw [hlonger]
      exact .longer hlines

theorem wordsFrom_concat {c : Char} (hc : isSpace c = true) (s word : Text) :
    wordsFrom word (s ++ [c]) = wordsFrom word s := by
  induction s generalizing word with
  | nil => cases word <;> simp [wordsFrom, hc]
  | cons d rest ih =>
      simp only [List.cons_append, wordsFrom, ih]

theorem words_concat {c : Char} (hc : isSpace c = true) (s : Text) :
    words (s ++ [c]) = words s := wordsFrom_concat hc s []

theorem words_cons {c : Char} (hc : isSpace c = true) (s : Text) : words (c :: s) = words s := by
  simp [words, wordsFrom, hc]

theorem words_blank {s : Text} (h : ∀ c ∈ s, isSpace c = true) : words s = [] := by
  induction s with
  | nil => rfl
  | cons c rest ih =>
      rw [words_cons (h c List.mem_cons_self)]
      exact ih fun d hd => h d (List.mem_cons_of_mem _ hd)

theorem wordsFrom_word {w : Text} (hw : ∀ c ∈ w, isSpace c = false) (word t : Text) :
    wordsFrom word (w ++ t) = wordsFrom (word ++ w) t := by
  induction w generalizing word with
  | nil => simp
  | cons c rest ih =>
      have hc := hw c List.mem_cons_self
      have hrest : ∀ d ∈ rest, isSpace d = false := fun d hd => hw d (List.mem_cons_of_mem _ hd)
      simp only [List.cons_append, wordsFrom, hc, Bool.false_eq_true, if_false, ih hrest]
      simp

/-- White space separates the words before it from those after it. -/
theorem words_append {c : Char} (hc : isSpace c = true) (s t : Text) :
    words (s ++ c :: t) = words s ++ words t := by
  have hfrom : ∀ word, wordsFrom word (s ++ c :: t) = wordsFrom word s ++ words t := by
    induction s with
    | nil =>
        intro word
        cases word <;> simp [wordsFrom, hc, words]
    | cons d rest ih =>
        intro word
        simp only [List.cons_append, wordsFrom, ih]
        split
        · split <;> rfl
        · rfl
  exact hfrom []

theorem words_word {w : Text} (hne : w ≠ []) (hw : ∀ c ∈ w, isSpace c = false) :
    words w = [w] := by
  have hwords := wordsFrom_word hw [] []
  rw [List.append_nil, List.nil_append] at hwords
  rw [words, hwords, wordsFrom, if_neg (by simpa using hne)]

/-- White space at the end goes, and nothing else where neither end has any. -/
theorem strip_append_blank {s blank : Text} (hfirst : ∀ c ∈ s.head?, isSpace c = false)
    (hlast : ∀ c ∈ s.getLast?, isSpace c = false) (hblank : ∀ c ∈ blank, isSpace c = true) :
    strip (s ++ blank) = s := by
  have hnil : blank.reverse.dropWhile isSpace = [] :=
    List.dropWhile_eq_nil_iff.mpr fun c hc => hblank c (List.mem_reverse.mp hc)
  have hleft : (s ++ blank).dropWhile isSpace = s ++ (if s = [] then [] else blank) := by
    cases s with
    | nil => exact List.dropWhile_eq_nil_iff.mpr hblank
    | cons c rest =>
        rw [List.cons_append, List.dropWhile_cons, hfirst c rfl]
        rfl
  have hright : s.reverse.dropWhile isSpace = s.reverse := by
    cases hs : s.reverse with
    | nil => rfl
    | cons c rest =>
        have hc : s.getLast? = some c := by
          rw [List.getLast?_eq_head?_reverse, hs]
          rfl
        rw [List.dropWhile_cons, hlast c hc]
        rfl
  rw [strip, hleft]
  split
  · rename_i hs
    subst hs
    rfl
  · rw [List.reverse_append, List.dropWhile_append, hnil, List.isEmpty_nil, if_pos rfl, hright,
      List.reverse_reverse]

theorem strip_of_not_space {s : Text} (h : ∀ c ∈ s, isSpace c = false) : strip s = s := by
  have hblank : ∀ c ∈ ([] : Text), isSpace c = true := by simp
  have hstrip := strip_append_blank (fun c hc => h c (List.mem_of_mem_head? hc))
    (fun c hc => h c (List.mem_of_mem_getLast? hc)) hblank
  rwa [List.append_nil] at hstrip

/-- A property of texts that white space at either end does not affect is not
affected by `strip`. -/
theorem strip_induction {motive : Text → Prop} (s : Text) (h : motive (strip s))
    (hcons : ∀ c t, isSpace c = true → motive t → motive (c :: t))
    (hconcat : ∀ c t, isSpace c = true → motive t → motive (t ++ [c])) : motive s := by
  have hright : ∀ t : Text, motive ((t.reverse.dropWhile isSpace).reverse) → motive t := by
    intro t
    induction t using List.reverseRecOn with
    | nil => exact id
    | append_singleton t c ih =>
        rw [List.reverse_append, List.reverse_singleton, List.singleton_append,
          List.dropWhile_cons]
        split
        · rename_i hc
          intro ht
          exact hconcat c t hc (ih ht)
        · simp
  have hleft : ∀ t : Text, motive (t.dropWhile isSpace) → motive t := by
    intro t
    induction t with
    | nil => exact id
    | cons c t ih =>
        rw [List.dropWhile_cons]
        split
        · rename_i hc
          intro ht
          exact hcons c t hc (ih ht)
        · exact id
  exact hleft s (hright _ h)

theorem isSpace_of_strip_eq_nil {s : Text} (h : strip s = []) : ∀ c ∈ s, isSpace c = true := by
  refine strip_induction (motive := fun t => ∀ c ∈ t, isSpace c = true) s ?_ ?_ ?_
  · rw [h]
    simp
  · intro c t hc ht d hd
    rcases List.mem_cons.mp hd with rfl | hd
    · exact hc
    · exact ht d hd
  · intro c t hc ht d hd
    rcases List.mem_append.mp hd with hd | hd
    · exact ht d hd
    · rw [List.mem_singleton.mp hd]
      exact hc

/-- What a file opened as text reads for its line ends. -/
def newlinesFrom (afterReturn : Bool) : Text → Text
  | [] => []
  | c :: rest =>
      if c = '\r' then '\n' :: newlinesFrom true rest
      else if afterReturn && c = '\n' then newlinesFrom false rest
      else c :: newlinesFrom false rest

def readLinesFrom (line : Text) : Text → List Text
  | [] => if line.isEmpty then [] else [line]
  | c :: rest =>
      if c = '\n' then (line ++ [c]) :: readLinesFrom [] rest
      else readLinesFrom (line ++ [c]) rest

/-- `readlines` of a file with this text: a line keeps its newline. -/
def readLines (s : Text) : List Text := readLinesFrom [] (newlinesFrom false s)

theorem newlinesFrom_of_not_mem {s : Text} (h : '\r' ∉ s) : newlinesFrom false s = s := by
  induction s with
  | nil => rfl
  | cons c rest ih =>
      rw [List.mem_cons, not_or] at h
      rw [newlinesFrom, if_neg (Ne.symm h.1), if_neg (by simp), ih h.2]

theorem newlinesFrom_append {c : Char} {t : Text} (hreturn : '\r' ∉ c :: t) (hc : c ≠ '\n')
    (s : Text) (afterReturn : Bool) :
    newlinesFrom afterReturn (s ++ c :: t) = newlinesFrom afterReturn s ++ c :: t := by
  induction s generalizing afterReturn with
  | nil =>
      rw [List.mem_cons, not_or] at hreturn
      simp only [List.nil_append, newlinesFrom, if_neg (Ne.symm hreturn.1), hc, decide_false,
        Bool.and_false, Bool.false_eq_true, if_false, newlinesFrom_of_not_mem hreturn.2]
  | cons d rest ih =>
      simp only [List.cons_append, newlinesFrom, ih]
      split
      · rfl
      · split <;> rfl

theorem readLinesFrom_newline (s t line : Text) :
    readLinesFrom line (s ++ '\n' :: t) =
      readLinesFrom line (s ++ ['\n']) ++ readLinesFrom [] t := by
  induction s generalizing line with
  | nil => simp [readLinesFrom]
  | cons c rest ih =>
      simp only [List.cons_append, readLinesFrom]
      split
      · rw [ih, List.cons_append]
      · exact ih _

theorem readLinesFrom_line {s : Text} (h : '\n' ∉ s) (t line : Text) :
    readLinesFrom line (s ++ '\n' :: t) = (line ++ s ++ ['\n']) :: readLinesFrom [] t := by
  induction s generalizing line with
  | nil => simp [readLinesFrom]
  | cons c rest ih =>
      rw [List.mem_cons, not_or] at h
      rw [List.cons_append, readLinesFrom, if_neg (Ne.symm h.1), ih h.2]
      simp

/-- A line of a file with its newline. -/
def FileLine (l : Text) : Prop := ∃ s, '\n' ∉ s ∧ '\r' ∉ s ∧ l = s ++ ['\n']

theorem FileLine.append {s l : Text} (hnewline : '\n' ∉ s) (hreturn : '\r' ∉ s)
    (h : FileLine l) : FileLine (s ++ l) := by
  obtain ⟨t, ht, hr, rfl⟩ := h
  refine ⟨s ++ t, ?_, ?_, (List.append_assoc _ _ _).symm⟩
  · rw [List.mem_append, not_or]
    exact ⟨hnewline, ht⟩
  · rw [List.mem_append, not_or]
    exact ⟨hreturn, hr⟩

/-- The lines written to a file are the lines read from it. -/
theorem readLines_flatten {ls : List Text} (h : ∀ l ∈ ls, FileLine l) :
    readLines ls.flatten = ls := by
  have hreturn : '\r' ∉ ls.flatten := by
    intro hmem
    obtain ⟨l, hl, hc⟩ := List.mem_flatten.mp hmem
    obtain ⟨s, -, hr, rfl⟩ := h l hl
    rcases List.mem_append.mp hc with hc | hc
    · exact hr hc
    · exact absurd hc (by decide)
  rw [readLines, newlinesFrom_of_not_mem hreturn]
  clear hreturn
  induction ls with
  | nil => rfl
  | cons l rest ih =>
      obtain ⟨s, hs, -, rfl⟩ := h l List.mem_cons_self
      rw [List.flatten_cons, List.append_assoc, List.singleton_append, readLinesFrom_line hs,
        ih fun l hl => h l (List.mem_cons_of_mem _ hl), List.nil_append]

/-- A text that ends in a newline is a list of lines. -/
theorem exists_fileLines {s : Text} (hreturn : '\r' ∉ s) (hend : s.getLast? = some '\n') :
    ∃ ls, ls ≠ [] ∧ (∀ l ∈ ls, FileLine l) ∧ s = ls.flatten := by
  induction s with
  | nil => cases hend
  | cons c rest ih =>
      rw [List.mem_cons, not_or] at hreturn
      by_cases hrest : rest = []
      · subst hrest
        obtain rfl : c = '\n' := by simpa using hend
        exact ⟨[['\n']], by simp, by simpa using ⟨[], by simp, by simp, rfl⟩, rfl⟩
      · have hlast : rest.getLast? = some '\n' := by
          rwa [List.getLast?_cons_of_ne_nil hrest] at hend
        obtain ⟨ls, hne, hlines, rfl⟩ := ih hreturn.2 hlast
        by_cases hc : c = '\n'
        · subst hc
          refine ⟨['\n'] :: ls, by simp, ?_, rfl⟩
          intro l hl
          rcases List.mem_cons.mp hl with rfl | hl
          · exact ⟨[], by simp, by simp, rfl⟩
          · exact hlines l hl
        · obtain ⟨l, ls', rfl⟩ := List.exists_cons_of_ne_nil hne
          refine ⟨(c :: l) :: ls', by simp, ?_, rfl⟩
          intro l' hl'
          rcases List.mem_cons.mp hl' with rfl | hl'
          · exact (hlines l List.mem_cons_self).append (s := [c]) (by simpa using Ne.symm hc)
              (by simpa using hreturn.1)
          · exact hlines l' (List.mem_cons_of_mem _ hl')

/-- White space at the end of a text that does not begin with any goes. -/
theorem strip_cons {c : Char} (hc : isSpace c = false) (s : Text) :
    ∃ t, strip (c :: s) = c :: t := by
  have hleft : (c :: s).dropWhile isSpace = c :: s := by
    rw [List.dropWhile_cons, hc]
    rfl
  have hprefix : ((c :: s).reverse.dropWhile isSpace).reverse <+: c :: s := by
    rw [← List.reverse_suffix, List.reverse_reverse]
    exact List.dropWhile_suffix _
  rw [strip, hleft]
  rcases List.prefix_cons_iff.mp hprefix with hnil | ⟨t, ht, -⟩
  · rw [List.reverse_eq_nil_iff, List.dropWhile_eq_nil_iff] at hnil
    have hspace := hnil c (by simp)
    rw [hc] at hspace
    cases hspace
  · exact ⟨t, ht⟩

end BpftimeBenchmark.Text
