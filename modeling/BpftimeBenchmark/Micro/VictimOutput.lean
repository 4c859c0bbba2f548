import BpftimeBenchmark.Lib.Dict
import BpftimeBenchmark.Lib.Float
import BpftimeBenchmark.Lib.Lines

/-!
What `do_benchmark_userspace` of `test.c` prints and what `parse_victim_output`
makes of it. The output of the victim also holds the lines of the runtime that is
loaded into it.
-/

namespace BpftimeBenchmark.Micro

open Text

/-- `l[i]`. -/
def item {α : Type} (l : List α) (i : Nat) : Except PyError α :=
  match l[i]? with
  | some a => .ok a
  | none => .error .indexError

def benchmarking : Text := "Benchmarking".toList

theorem benchmarking_eq :
    benchmarking = ['B', 'e', 'n', 'c', 'h', 'm', 'a', 'r', 'k', 'i', 'n', 'g'] := by
  decide +kernel

/-- `float(s)`. -/
def floatOf (s : Text) : Except PyError PyFloat := orValueError (float s)

/-- The loop of `parse_victim_output` from line `i` on. -/
def parseLoop (lines : List Text) (i : Nat) (result : Dict Text PyFloat) :
    Except PyError (Dict Text PyFloat) :=
  if h : i < lines.length then
    if startsWith lines[i] benchmarking then do
      let name ← item (words lines[i]) 1
      let nextLine ← item lines (i + 1)
      let field ← item (words nextLine) 3
      let timeUsage ← floatOf field
      parseLoop lines (i + 2) (result.set name timeUsage)
    else parseLoop lines (i + 1) result
  else .ok result
termination_by lines.length - i

/-- `parse_victim_output` of `uprobe/benchmark.py`. -/
def Uprobe.parseVictimOutput (v : Text) : Except PyError (Dict Text PyFloat) :=
  parseLoop (splitLines (strip v)) 0 Dict.empty

/-- `parse_victim_output` of `mpk/benchmark.py`. -/
def Mpk.parseVictimOutput (v : Text) : Except PyError (Dict Text PyFloat) :=
  parseLoop (splitLines (strip v)) 0 Dict.empty

/-- A benchmark of one function in one thread. The names are those of functions. -/
structure Record where
  name : Text
  id : Int
  time : Lf
  iter : Int
  named : name ≠ []
  plain : ∀ c ∈ name, isSpace c = false

def Record.header (r : Record) : Text :=
  benchmarking ++ ' ' :: (r.name ++ ' ' :: ("in thread ".toList ++ ofInt r.id))

/-- What stands between the time and the end of its line. -/
def Record.afterTime (r : Record) : Text :=
  "ns, iter ".toList ++ (ofInt r.iter ++ " times".toList)

def averageTimeUsage : Text := "Average time usage".toList

def Record.timeLine (r : Record) : Text :=
  averageTimeUsage ++ ' ' :: (r.time.print ++ ' ' :: r.afterTime)

/-- `do_benchmark_userspace`. -/
def doBenchmarkUserspace (r : Record) : Text :=
  r.header ++ '\n' :: (r.timeLine ++ '\n' :: ['\n'])

/-- Whole lines without the word. -/
structure Noise where
  text : Text
  plain : contains text benchmarking = false
  ended : text = [] ∨ text.getLast? = some '\n'

inductive Part where
  | noise (b : Noise)
  | record (r : Record)

def Part.text : Part → Text
  | .noise b => b.text
  | .record r => doBenchmarkUserspace r

def Part.record? : Part → Option Record
  | .noise _ => none
  | .record r => some r

def printed (parts : List Part) : Text := parts.flatMap Part.text

def records (parts : List Part) : List Record := parts.filterMap Part.record?

/-- The names in the order in which they first appear, each with the time of its
last record. -/
structure LastTimes (records : List Record) (d : Dict Text PyFloat) : Prop where
  names : d.keys = (records.map (·.name)).eraseDups
  times : ∀ k, d.get? k = (records.reverse.find? (fun r => r.name = k)).map (·.time.value)

def setAll (d : Dict Text PyFloat) (records : List Record) : Dict Text PyFloat :=
  records.foldl (fun d r => d.set r.name r.time.value) d

theorem eraseDups_concat {α : Type} [BEq α] [LawfulBEq α] (l : List α) (a : α) :
    (l ++ [a]).eraseDups = l.eraseDups ++ if l.elem a then [] else [a] := by
  rw [List.eraseDups_append, List.removeAll, List.filter_singleton]
  cases l.elem a <;> rfl

theorem lastTimes_concat {records : List Record} {d : Dict Text PyFloat}
    (h : LastTimes records d) (r : Record) :
    LastTimes (records ++ [r]) (d.set r.name r.time.value) where
  names := by
    rw [Dict.keys_set, h.names, List.map_append, List.map_singleton, eraseDups_concat]
    by_cases hmem : r.name ∈ records.map (·.name)
    · rw [if_pos (List.mem_eraseDups.mpr hmem), List.elem_eq_true_of_mem hmem]
      simp
    · rw [if_neg (fun hdup => hmem (List.mem_eraseDups.mp hdup)), if_neg]
      rw [List.elem_iff]
      exact hmem
  times k := by
    rw [Dict.get?_set, List.reverse_append, List.reverse_singleton, List.singleton_append,
      List.find?_cons]
    by_cases hk : k = r.name
    · simp [hk]
    · rw [if_neg hk, h.times]
      simp [Ne.symm hk]

theorem lastTimes_setAll {before : List Record} {d : Dict Text PyFloat}
    (h : LastTimes before d) (rest : List Record) :
    LastTimes (before ++ rest) (setAll d rest) := by
  induction rest generalizing before d with
  | nil => simpa [setAll] using h
  | cons r rest ih =>
      have hnext := ih (lastTimes_concat h r)
      rwa [List.append_assoc] at hnext

theorem lastTimes_empty : LastTimes [] Dict.empty := ⟨rfl, fun _ => rfl⟩

/-- Only the names, their order and their times matter. -/
theorem LastTimes.unique {records : List Record} {d e : Dict Text PyFloat}
    (hd : LastTimes records d) (he : LastTimes records e) : d = e :=
  Dict.ext_get? (hd.names.trans he.names.symm) fun k => (hd.times k).trans (he.times k).symm

/-- What the loop does with the lines that are left. -/
def readLines : List Text → Dict Text PyFloat → Except PyError (Dict Text PyFloat)
  | [], result => .ok result
  | [line], result => if startsWith line benchmarking then .error .indexError else .ok result
  | line :: nextLine :: rest, result =>
      if startsWith line benchmarking then do
        let name ← item (words line) 1
        let field ← item (words nextLine) 3
        let timeUsage ← floatOf field
        readLines rest (result.set name timeUsage)
      else readLines (nextLine :: rest) result

theorem item_getElem {α : Type} {l : List α} {i : Nat} (h : i < l.length) :
    item l i = .ok l[i] := by
  rw [item, List.getElem?_eq_getElem h]

theorem item_of_length_le {α : Type} {l : List α} {i : Nat} (h : l.length ≤ i) :
    item l i = .error .indexError := by
  rw [item, List.getElem?_eq_none h]

theorem item_cases {α : Type} (l : List α) (i : Nat) :
    (∃ a, item l i = .ok a) ∨ item l i = .error .indexError := by
  rcases Nat.lt_or_ge i l.length with h | h
  · exact Or.inl ⟨_, item_getElem h⟩
  · exact Or.inr (item_of_length_le h)

theorem parseLoop_eq (lines : List Text) (i : Nat) (result : Dict Text PyFloat) :
    parseLoop lines i result = readLines (lines.drop i) result := by
  induction i, result using parseLoop.induct lines with
  | case1 i result h hstart ih =>
      rw [parseLoop, dif_pos h, if_pos hstart, List.drop_eq_getElem_cons h]
      rcases Nat.lt_or_ge (i + 1) lines.length with hnext | hnext
      · rw [item_getElem hnext, List.drop_eq_getElem_cons hnext, readLines, if_pos hstart]
        simp only [bind, Except.bind, ih]
      · rw [item_of_length_le hnext, List.drop_of_length_le hnext, readLines, if_pos hstart]
        rcases item_cases (words lines[i]) 1 with ⟨name, hname⟩ | hname <;> rw [hname] <;> rfl
  | case2 i result h hstart ih =>
      rw [parseLoop, dif_pos h, if_neg hstart, ih, List.drop_eq_getElem_cons h]
      rcases Nat.lt_or_ge (i + 1) lines.length with hnext | hnext
      · rw [List.drop_eq_getElem_cons hnext, readLines, if_neg hstart]
      · rw [List.drop_of_length_le hnext, readLines, readLines, if_neg hstart]
  | case3 i result h =>
      rw [parseLoop, dif_neg h, List.drop_of_length_le (by omega), readLines]

/-- A line that does not begin a record is skipped. -/
theorem readLines_skip {line : Text} (h : startsWith line benchmarking = false)
    (rest : List Text) (d : Dict Text PyFloat) :
    readLines (line :: rest) d = readLines rest d := by
  cases rest with
  | nil => simp [readLines, h]
  | cons nextLine rest => simp [readLines, h]

theorem readLines_skip_all {lines : List Text}
    (h : ∀ line ∈ lines, startsWith line benchmarking = false) (rest : List Text)
    (d : Dict Text PyFloat) : readLines (lines ++ rest) d = readLines rest d := by
  induction lines with
  | nil => rfl
  | cons line lines ih =>
      rw [List.cons_append, readLines_skip (h line List.mem_cons_self),
        ih fun l hl => h l (List.mem_cons_of_mem _ hl)]

/-- To the loop a line is its words and whether it begins a record. -/
structure SameLine (l l' : Text) : Prop where
  start : startsWith l' benchmarking = startsWith l benchmarking
  words : words l' = words l

theorem readLines_last {l l' : Text} (h : SameLine l l') (before : List Text)
    (d : Dict Text PyFloat) : readLines (before ++ [l']) d = readLines (before ++ [l]) d := by
  induction before using List.twoStepInduction generalizing d with
  | nil => simp only [List.nil_append, readLines, h.start]
  | singleton line =>
      simp only [List.singleton_append, readLines, h.start, h.words]
  | cons_cons line nextLine rest ih ihRest =>
      simp only [List.cons_append, readLines, ih]
      split
      · rfl
      · exact ihRest nextLine d

theorem eq_of_startsWith {l : Text} (h : startsWith l benchmarking = true) :
    ∃ rest, l = 'B' :: rest := by
  rw [startsWith_iff, benchmarking_eq] at h
  obtain ⟨rest, rfl⟩ := h
  exact ⟨_, rfl⟩

theorem startsWith_space {c : Char} (hc : isSpace c = true) (l : Text) :
    startsWith (c :: l) benchmarking = false := by
  rw [Bool.eq_false_iff]
  intro h
  obtain ⟨rest, heq⟩ := eq_of_startsWith h
  cases heq
  exact absurd hc (by decide)

theorem startsWith_blank {b : Text} (hb : ∀ c ∈ b, isSpace c = true) :
    startsWith b benchmarking = false := by
  cases b with
  | nil =>
      rw [startsWith, benchmarking_eq]
      rfl
  | cons c rest => exact startsWith_space (hb c List.mem_cons_self) rest

theorem readLines_blank {b : Text} (hb : ∀ c ∈ b, isSpace c = true) (lines : List Text)
    (d : Dict Text PyFloat) : readLines (lines ++ [b]) d = readLines lines d := by
  have hstart := startsWith_blank hb
  induction lines using List.twoStepInduction generalizing d with
  | nil => exact readLines_skip hstart [] d
  | singleton line =>
      simp only [List.singleton_append, readLines, hstart, words_blank hb]
      split
      · have hnone : item ([] : List Text) 3 = .error .indexError := rfl
        rw [hnone]
        rcases item_cases (words line) 1 with ⟨name, hname⟩ | hname <;> rw [hname] <;> rfl
      · rfl
  | cons_cons line nextLine rest ih ihRest =>
      simp only [List.cons_append, readLines, ih]
      split
      · rfl
      · exact ihRest nextLine d

theorem sameLine_concat {c : Char} (hc : isSpace c = true) (l : Text) :
    SameLine l (l ++ [c]) where
  start := by
    rw [Bool.eq_iff_iff, startsWith_iff, startsWith_iff]
    constructor
    · intro h
      rcases List.prefix_concat_iff.mp h with heq | hstart
      · have hlast : benchmarking.getLast? = some c := by rw [heq]; simp
        rw [benchmarking_eq] at hlast
        cases hlast
        exact absurd hc (by decide)
      · exact hstart
    · intro h
      exact h.trans (List.prefix_append l [c])
  words := words_concat hc l

/-- White space at the end of the output changes nothing. -/
theorem readLines_concat {c : Char} (hc : isSpace c = true) (s : Text)
    (d : Dict Text PyFloat) :
    readLines (splitLines (s ++ [c])) d = readLines (splitLines s) d := by
  have hlines := splitLines_concat hc s
  generalize splitLines (s ++ [c]) = lines at hlines ⊢
  cases hlines with
  | same => rfl
  | blank hb => exact readLines_blank hb _ d
  | longer h =>
      rw [h]
      exact readLines_last (sameLine_concat hc _) _ d

/-- No line begins a record after white space. -/
def Unindented (lines : List Text) : Prop :=
  ∀ l ∈ lines, startsWith (l.dropWhile isSpace) benchmarking = true →
    startsWith l benchmarking = true

theorem unindented_of_concat {c : Char} {s : Text} (hc : isSpace c = true)
    (h : Unindented (splitLines (s ++ [c]))) : Unindented (splitLines s) := by
  have hlines := splitLines_concat hc s
  generalize splitLines (s ++ [c]) = lines at hlines h
  cases hlines with
  | same => exact h
  | blank hb => exact fun l hl => h l (List.mem_append_left _ hl)
  | @longer before l hsplit =>
      rw [hsplit]
      intro l' hl' hstart
      rcases List.mem_append.mp hl' with hbefore | hlast
      · exact h l' (List.mem_append_left _ hbefore) hstart
      · rw [List.mem_singleton.mp hlast] at hstart ⊢
        rw [← (sameLine_concat hc l).start]
        apply h (l ++ [c]) (by simp)
        obtain ⟨tail, htail⟩ := eq_of_startsWith hstart
        rw [List.dropWhile_append, htail, List.isEmpty_cons, if_neg Bool.false_ne_true,
          (sameLine_concat hc _).start, ← htail]
        exact hstart

theorem unindented_of_cons {c : Char} {s : Text} (hc : isSpace c = true)
    (h : Unindented (splitLines (c :: s))) :
    Unindented (splitLines s) ∧
      ∀ d, readLines (splitLines (c :: s)) d = readLines (splitLines s) d := by
  have hlines := splitLines_cons hc s
  generalize splitLines (c :: s) = lines at hlines h ⊢
  cases hlines with
  | same => exact ⟨h, fun _ => rfl⟩
  | @blank b hb =>
      refine ⟨fun l hl => h l (List.mem_cons_of_mem _ hl), fun d => ?_⟩
      exact readLines_skip (startsWith_blank hb) _ d
  | @longer l rest hsplit =>
      have hindented := startsWith_space hc l
      have hdrop : startsWith (l.dropWhile isSpace) benchmarking = false := by
        have hline := h (c :: l) List.mem_cons_self
        rw [List.dropWhile_cons, if_pos hc, hindented] at hline
        exact Bool.eq_false_iff.mpr fun hl => Bool.false_ne_true (hline hl)
      have hstart : startsWith l benchmarking = false := by
        rw [Bool.eq_false_iff]
        intro hl
        obtain ⟨tail, rfl⟩ := eq_of_startsWith hl
        have hB : isSpace 'B' = false := by decide
        rw [List.dropWhile_cons, hB, if_neg Bool.false_ne_true, hl] at hdrop
        cases hdrop
      rw [hsplit]
      constructor
      · intro l' hl' hstart'
        rcases List.mem_cons.mp hl' with rfl | hrest
        · rw [hdrop] at hstart'
          cases hstart'
        · exact h l' (List.mem_cons_of_mem _ hrest) hstart'
      · intro d
        rw [readLines_skip hindented, readLines_skip hstart]

/-- `strip` changes nothing unless it moves a record to the start of a line. -/
theorem readLines_strip {s : Text} (h : Unindented (splitLines s)) (d : Dict Text PyFloat) :
    readLines (splitLines (strip s)) d = readLines (splitLines s) d := by
  refine strip_induction (motive := fun t => Unindented (splitLines t) →
    readLines (splitLines (strip s)) d = readLines (splitLines t) d) s (fun _ => rfl) ?_ ?_ h
  · intro c t hc ih ht
    obtain ⟨hrest, hsame⟩ := unindented_of_cons hc ht
    rw [ih hrest, hsame]
  · intro c t hc ih ht
    rw [ih (unindented_of_concat hc ht), readLines_concat hc]

/-- The output is read with a given result, at either end of it or in the middle. -/
structure Reads (s : Text) (d : Dict Text PyFloat)
    (result : Except PyError (Dict Text PyFloat)) : Prop where
  unindented : Unindented (splitLines s)
  lines : readLines (splitLines s) d = result

theorem parse_of_reads {s : Text} {result : Except PyError (Dict Text PyFloat)}
    (h : Reads s Dict.empty result) :
    Uprobe.parseVictimOutput s = result ∧ Mpk.parseVictimOutput s = result := by
  have hparse : parseLoop (splitLines (strip s)) 0 Dict.empty = result := by
    rw [parseLoop_eq, List.drop_zero, readLines_strip h.unindented, h.lines]
  exact ⟨hparse, hparse⟩

theorem unindented_append {lines rest : List Text} (h : Unindented lines)
    (hrest : Unindented rest) : Unindented (lines ++ rest) := by
  intro l hl
  rcases List.mem_append.mp hl with hleft | hright
  · exact h l hleft
  · exact hrest l hright

/-- A line without the word, wherever white space is cut off. -/
theorem unindented_of_not_contains {s : Text} (h : contains s benchmarking = false) :
    Unindented (splitLines s) := by
  intro l hl hstart
  have hstart := startsWith_iff.mp hstart
  have hinfix : benchmarking <:+: s :=
    (hstart.isInfix.trans (List.dropWhile_suffix isSpace).isInfix).trans
      (infix_of_mem_splitLines hl)
  rw [contains_iff.mpr hinfix] at h
  cases h

variable {s : Text} {d : Dict Text PyFloat} {result : Except PyError (Dict Text PyFloat)}

theorem reads_plain (h : contains s benchmarking = false) : Reads s d (.ok d) where
  unindented := unindented_of_not_contains h
  lines := by
    have hskip := readLines_skip_all (fun l hl => not_startsWith_of_not_contains h hl) [] d
    rwa [List.append_nil] at hskip

theorem reads_noise (b : Noise) (h : Reads s d result) : Reads (b.text ++ s) d result := by
  rcases b.ended with hempty | hnewline
  · rw [hempty]
    exact h
  · constructor
    · rw [splitLines_append hnewline]
      exact unindented_append (unindented_of_not_contains b.plain) h.unindented
    · rw [splitLines_append hnewline,
        readLines_skip_all (fun l hl => not_startsWith_of_not_contains b.plain hl), h.lines]

theorem oneLine_ofInt (n : Int) : OneLine (ofInt n) := by
  have hdigits : ∀ m, OneLine (ofNat m) := fun m c hc =>
    isLineBreak_of_not_isSpace (Text.not_space_of_isDigit (isDigit_of_mem_ofNat hc))
  unfold ofInt
  split
  · exact OneLine.append (s := ['-']) (by decide) (hdigits _)
  · exact hdigits _

theorem oneLine_header (r : Record) : OneLine r.header := by
  refine OneLine.append (by decide +kernel) (OneLine.append (s := [' ']) (by decide) ?_)
  refine (OneLine.of_not_space r.plain).append (OneLine.append (s := [' ']) (by decide) ?_)
  exact OneLine.append (s := "in thread ".toList) (by decide +kernel) (oneLine_ofInt r.id)

theorem oneLine_afterTime (r : Record) : OneLine r.afterTime :=
  OneLine.append (by decide +kernel) ((oneLine_ofInt r.iter).append (by decide +kernel))

theorem oneLine_timeLine (r : Record) : OneLine r.timeLine := by
  refine OneLine.append (by decide +kernel) (OneLine.append (s := [' ']) (by decide) ?_)
  refine (OneLine.of_not_space fun c hc => Lf.print_not_space hc).append ?_
  exact OneLine.append (s := [' ']) (by decide) (oneLine_afterTime r)

theorem isSpace_blank : isSpace ' ' = true := by decide

theorem averageTimeUsage_eq :
    averageTimeUsage = ['A', 'v', 'e', 'r', 'a', 'g', 'e', ' ', 't', 'i', 'm', 'e', ' ', 'u', 's',
      'a', 'g', 'e'] := by
  decide +kernel

theorem words_header (r : Record) :
    words r.header = benchmarking :: r.name :: words ("in thread ".toList ++ ofInt r.id) := by
  have hne : benchmarking ≠ [] := by simp [benchmarking_eq]
  have hplain : ∀ c ∈ benchmarking, isSpace c = false := by
    rw [benchmarking_eq]
    exact not_space_of_all (by decide)
  rw [Record.header, words_append isSpace_blank, words_word hne hplain,
    words_append isSpace_blank, words_word r.named r.plain]
  rfl

theorem length_words_averageTimeUsage : (words averageTimeUsage).length = 3 := by
  rw [averageTimeUsage_eq]
  decide

theorem startsWith_header (r : Record) : startsWith r.header benchmarking = true :=
  startsWith_iff.mpr (List.prefix_append _ _)

theorem unindented_line {l : Text} (h : l.head?.all (fun c => !isSpace c) = true) :
    Unindented [l] := by
  intro l' hl' hstart
  rw [List.mem_singleton.mp hl'] at hstart ⊢
  cases l with
  | nil => exact hstart
  | cons c rest =>
      have hc : isSpace c = false := by simpa using h
      rwa [List.dropWhile_cons, hc, if_neg Bool.false_ne_true] at hstart

theorem splitLines_record (r : Record) (s : Text) :
    splitLines (doBenchmarkUserspace r ++ s) =
      [r.header, r.timeLine, []] ++ splitLines s := by
  have htext : doBenchmarkUserspace r ++ s =
      r.header ++ '\n' :: (r.timeLine ++ '\n' :: ([] ++ '\n' :: s)) := by
    simp [doBenchmarkUserspace]
  rw [htext, splitLines_line (oneLine_header r), splitLines_line (oneLine_timeLine r),
    splitLines_line (by decide)]
  rfl

/-- A header and the line after it, which need not be complete. -/
theorem readLines_header (r : Record) (nextLine : Text) (rest : List Text) :
    readLines (r.header :: nextLine :: rest) d =
      match (words nextLine)[3]? with
      | none => .error .indexError
      | some field =>
          match float field with
          | none => .error .valueError
          | some v => readLines rest (d.set r.name v) := by
  have hname : item (words r.header) 1 = .ok r.name := by
    rw [words_header]
    rfl
  rw [readLines, if_pos (startsWith_header r), hname, item]
  simp only [bind, Except.bind]
  cases (words nextLine)[3]? with
  | none => rfl
  | some field =>
      simp only [floatOf]
      cases float field <;> rfl

/-- The fourth word of a time line is the first one after its label. -/
theorem getElem?_words_averageTime (t : Text) :
    (words (averageTimeUsage ++ ' ' :: t))[3]? = (words t)[0]? := by
  rw [words_append isSpace_blank,
    List.getElem?_append_right (by rw [length_words_averageTimeUsage]),
    length_words_averageTimeUsage]

theorem words_time (r : Record) : words (r.time.print ++ ' ' :: r.afterTime) =
    r.time.print :: words r.afterTime := by
  rw [words_append isSpace_blank,
    words_word (Lf.print_ne_nil _) (fun _ hc => Lf.print_not_space hc)]
  rfl

theorem readLines_record (r : Record) (rest : List Text) :
    readLines (r.header :: r.timeLine :: rest) d =
      readLines rest (d.set r.name r.time.value) := by
  rw [readLines_header, Record.timeLine, getElem?_words_averageTime, words_time]
  simp only [List.getElem?_cons_zero, Lf.float_print]

theorem unindented_header (r : Record) : Unindented [r.header] := by
  apply unindented_line
  rw [Record.header, benchmarking_eq]
  rfl

theorem unindented_timeLine (r : Record) : Unindented [r.timeLine] := by
  apply unindented_line
  rw [Record.timeLine, averageTimeUsage_eq]
  rfl

theorem reads_record (r : Record) (h : Reads s (d.set r.name r.time.value) result) :
    Reads (doBenchmarkUserspace r ++ s) d result := by
  constructor
  · rw [splitLines_record]
    refine unindented_append ?_ h.unindented
    exact unindented_append (unindented_header r)
      (unindented_append (unindented_timeLine r) (unindented_line rfl))
  · rw [splitLines_record]
    have hblank : startsWith [] benchmarking = false := startsWith_blank (by simp)
    show readLines (r.header :: r.timeLine :: ([] :: splitLines s)) d = result
    rw [readLines_record, readLines_skip hblank, h.lines]

theorem reads_printed {tail : Text} (htail : contains tail benchmarking = false)
    (parts : List Part) : Reads (printed parts ++ tail) d (.ok (setAll d (records parts))) := by
  induction parts generalizing d with
  | nil => exact reads_plain htail
  | cons part parts ih =>
      have htext : printed (part :: parts) ++ tail = part.text ++ (printed parts ++ tail) := by
        simp [printed]
      rw [htext]
      cases part with
      | noise b => exact reads_noise b ih
      | record r => exact reads_record r ih

/-- Whatever else the victim prints, the parser returns the names of the records and
the last time of each. -/
theorem parse_printed (parts : List Part) (tail : Text)
    (htail : contains tail benchmarking = false) :
    ∃ d, Uprobe.parseVictimOutput (printed parts ++ tail) = .ok d ∧
      Mpk.parseVictimOutput (printed parts ++ tail) = .ok d ∧ LastTimes (records parts) d := by
  obtain ⟨huprobe, hmpk⟩ := parse_of_reads (reads_printed (d := Dict.empty) htail parts)
  exact ⟨_, huprobe, hmpk, lastTimes_setAll lastTimes_empty (records parts)⟩

/-- A run of `__bench_read` in thread 1. -/
def benchRead (millionths : Nat) : Record :=
  ⟨"__bench_read".toList, 1, .finite false millionths, 100000, by decide +kernel,
    not_space_of_all (by decide +kernel)⟩

theorem parse_printed_twice :
    ∃ d, Uprobe.parseVictimOutput (printed [.record (benchRead 1500000),
        .record (benchRead 2500000)] ++ "exiting".toList) = .ok d ∧
      Mpk.parseVictimOutput (printed [.record (benchRead 1500000),
        .record (benchRead 2500000)] ++ "exiting".toList) = .ok d ∧
      LastTimes (records [.record (benchRead 1500000), .record (benchRead 2500000)]) d :=
  parse_printed _ _ (by decide +kernel)

end BpftimeBenchmark.Micro
