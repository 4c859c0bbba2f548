import BpftimeBenchmark.Lib.Pattern
import Mathlib.Data.List.Basic

/-!
Searching a text of lines for a label, a line's part up to a colon. A pattern that
starts with a stem and a colon can match only where the stem ends a label, so what a
search finds is decided by the list of the labels.
-/

namespace BpftimeBenchmark.Pattern

/-- The characters are of these classes, one by one. -/
def fits : List (Char → Bool) → Text → Bool
  | [], [] => true
  | p :: stem, c :: s => p c && fits stem s
  | _, _ => false

def endsWith (stem : List (Char → Bool)) : Text → Bool
  | [] => fits stem []
  | c :: s => fits stem (c :: s) || endsWith stem s

/-- The labels of a text with what comes after their colons. A label starts after the
last colon or line break; `line` is what there is of it already. -/
def labelsFrom (line : Text) : Text → List (Text × Text)
  | [] => []
  | c :: s =>
      if c = ':' then (line, s) :: labelsFrom [] s
      else if c = '\n' then labelsFrom [] s
      else labelsFrom (line ++ [c]) s

def labels (s : Text) : List (Text × Text) := labelsFrom [] s

/-- Neither colons nor line breaks. -/
def Smooth (s : Text) : Prop := ∀ c ∈ s, c ≠ ':' ∧ c ≠ '\n'

/-- A stem and a colon, and then whatever `tail` asks for. -/
def labelPattern (stem : List (Char → Bool)) (colon : Char → Bool) (tail : Pattern) : Pattern :=
  stem.map .one ++ .one colon :: tail

theorem labelsFrom_append_newline (line s t : Text) :
    labelsFrom line (s ++ '\n' :: t) =
      (labelsFrom line s).map (fun l => (l.1, l.2 ++ '\n' :: t)) ++ labels t := by
  induction s generalizing line with
  | nil => rfl
  | cons c s ih =>
      rw [List.cons_append, labelsFrom, labelsFrom]
      split
      · rw [ih, List.map_cons, List.cons_append]
      · split
        · exact ih []
        · exact ih _

theorem labels_append_newline (s t : Text) :
    labels (s ++ '\n' :: t) =
      (labels s).map (fun l => (l.1, l.2 ++ '\n' :: t)) ++ labels t :=
  labelsFrom_append_newline [] s t

theorem labelsFrom_smooth {s : Text} (h : Smooth s) (line : Text) : labelsFrom line s = [] := by
  induction s generalizing line with
  | nil => rfl
  | cons c s ih =>
      obtain ⟨hcolon, hbreak⟩ := h c (List.mem_cons_self ..)
      rw [labelsFrom, if_neg hcolon, if_neg hbreak]
      exact ih (fun d hd => h d (List.mem_cons_of_mem c hd)) _

theorem labelsFrom_label {s : Text} (h : Smooth s) (line t : Text) :
    labelsFrom line (s ++ ':' :: t) = (line ++ s, t) :: labels t := by
  induction s generalizing line with
  | nil =>
      rw [List.append_nil]
      rfl
  | cons c s ih =>
      obtain ⟨hcolon, hbreak⟩ := h c (List.mem_cons_self ..)
      rw [List.cons_append, labelsFrom, if_neg hcolon, if_neg hbreak,
        ih fun d hd => h d (List.mem_cons_of_mem c hd)]
      simp

/-- What comes after a later label is the end of what comes after an earlier one. -/
theorem pairwise_labelsFrom (line s : Text) :
    (labelsFrom line s).Pairwise (fun l l' => l'.2 <:+ l.2) ∧
      ∀ l ∈ labelsFrom line s, l.2 <:+ s := by
  induction s generalizing line with
  | nil => exact ⟨.nil, by simp [labelsFrom]⟩
  | cons c s ih =>
      rw [labelsFrom]
      split
      · refine ⟨List.Pairwise.cons (ih []).2 (ih []).1, fun l hl => ?_⟩
        rcases List.mem_cons.mp hl with rfl | hl
        · exact List.suffix_cons c s
        · exact ((ih []).2 l hl).trans (List.suffix_cons c s)
      · split
        · exact ⟨(ih []).1, fun l hl => ((ih []).2 l hl).trans (List.suffix_cons c s)⟩
        · exact ⟨(ih _).1, fun l hl => ((ih _).2 l hl).trans (List.suffix_cons c s)⟩

/-- Smooth text adds no label. -/
theorem map_fst_labels_append {p : Text} (h : Smooth p) (s : Text) :
    (labels (s ++ p)).map Prod.fst = (labels s).map Prod.fst := by
  suffices hfrom : ∀ line, (labelsFrom line (s ++ p)).map Prod.fst =
      (labelsFrom line s).map Prod.fst from hfrom []
  induction s with
  | nil =>
      intro line
      rw [List.nil_append, labelsFrom_smooth h]
      rfl
  | cons c s ih =>
      intro line
      rw [List.cons_append, labelsFrom, labelsFrom]
      split
      · rw [List.map_cons, List.map_cons, ih]
      · split
        · exact ih []
        · exact ih _

theorem smooth_append {s t : Text} (hs : Smooth s) (ht : Smooth t) : Smooth (s ++ t) := by
  intro c hc
  rcases List.mem_append.mp hc with hc | hc
  · exact hs c hc
  · exact ht c hc

instance (s : Text) : Decidable (Smooth s) :=
  List.decidableBAll (fun c => c ≠ ':' ∧ c ≠ '\n') s

/-- What comes after the first label that ends with the stem. -/
def afterLabel (stem : List (Char → Bool)) (s : Text) : Option Text :=
  ((labels s).find? (fun l => endsWith stem l.1)).map Prod.snd

theorem afterLabel_append_newline (stem : List (Char → Bool)) (s t : Text) :
    afterLabel stem (s ++ '\n' :: t) =
      ((afterLabel stem s).map (· ++ '\n' :: t)).or (afterLabel stem t) := by
  unfold afterLabel
  rw [labels_append_newline, List.find?_append, List.find?_map, Function.comp_def]
  cases (labels s).find? (fun l => endsWith stem l.1) <;> rfl

/-- A lazy run of arbitrary characters is a search. -/
theorem run_manyLazy (pattern : Pattern) (s : Text) :
    run (.manyLazy (fun _ => true) :: pattern) [] [] s = search pattern s := by
  show reluctant (fun _ => true) (run pattern [] []) s = search pattern s
  induction s with
  | nil =>
      rw [search, matchHere, reluctant]
      cases run pattern [] [] [] <;> rfl
  | cons c s ih =>
      rw [search, matchHere, reluctant, ih]
      cases run pattern [] [] (c :: s) <;> rfl

theorem search_isSome_of_suffix {pattern : Pattern} {s t : Text} (h : t <:+ s)
    (ht : (search pattern t).isSome = true) : (search pattern s).isSome = true := by
  induction s with
  | nil =>
      obtain rfl := List.suffix_nil.mp h
      exact ht
  | cons c s ih =>
      rcases List.suffix_cons_iff.mp h with rfl | h
      · exact ht
      · rw [search]
        cases pattern.matchHere (c :: s) with
        | some group => rfl
        | none => exact ih h

section Label

variable {stem : List (Char → Bool)} {colon : Char → Bool} {tail : Pattern}
  (hstem : ∀ p ∈ stem, p ':' = false ∧ p '\n' = false)
  (hcolon : ∀ c, colon c = true ↔ c = ':')

include hstem hcolon

variable (tail) in
/-- A match has to get to the first colon, and no line break can come before it. -/
theorem run_labelPattern {a : Text} (ha : Smooth a) (opened group b : Text) :
    run (labelPattern stem colon tail) opened group (a ++ ':' :: b) =
        (if fits stem a then run tail opened group b else none) ∧
      run (labelPattern stem colon tail) opened group (a ++ '\n' :: b) = none ∧
      run (labelPattern stem colon tail) opened group a = none := by
  unfold labelPattern
  have hyes : colon ':' = true := (hcolon _).mpr rfl
  have hno {c : Char} (hc : c ≠ ':') : colon c = false := by
    cases h : colon c with
    | false => rfl
    | true => exact absurd ((hcolon c).mp h) hc
  induction stem generalizing a with
  | nil =>
      cases a with
      | nil => simp [run, fits, hyes, hno]
      | cons c a => simp [run, fits, hno (ha c (by simp)).1]
  | cons p stem ih =>
      obtain ⟨hp, hp'⟩ := hstem p (by simp)
      cases a with
      | nil => simp [run, fits, hp, hp']
      | cons c a =>
          have hrest := ih (fun q hq => hstem q (by simp [hq]))
            (a := a) (fun d hd => ha d (by simp [hd]))
          by_cases hpc : p c = true
          · simpa [run, fits, hpc] using hrest
          · simp [run, fits, hpc]

theorem search_colon {a : Text} (ha : Smooth a) (b : Text) :
    search (labelPattern stem colon tail) (a ++ ':' :: b) =
      (if endsWith stem a then run tail [] [] b else none).or
        (search (labelPattern stem colon tail) b) := by
  induction a with
  | nil =>
      have hrun := (run_labelPattern tail hstem hcolon (a := []) (by simp [Smooth]) [] [] b).1
      rw [List.nil_append] at hrun ⊢
      rw [search, matchHere, hrun, endsWith]
      cases (if fits stem [] then run tail [] [] b else none) <;> rfl
  | cons c a ih =>
      have hrun := (run_labelPattern tail hstem hcolon ha [] [] b).1
      rw [List.cons_append] at hrun ⊢
      rw [search, matchHere, hrun, endsWith, ih fun d hd => ha d (by simp [hd])]
      cases fits stem (c :: a) <;> cases run tail [] [] b <;> simp

theorem search_newline {a : Text} (ha : Smooth a) (b : Text) :
    search (labelPattern stem colon tail) (a ++ '\n' :: b) =
      search (labelPattern stem colon tail) b := by
  induction a with
  | nil =>
      have hrun := (run_labelPattern tail hstem hcolon (a := []) (by simp [Smooth]) [] [] b).2.1
      rw [List.nil_append] at hrun ⊢
      rw [search, matchHere, hrun]
  | cons c a ih =>
      have hrun := (run_labelPattern tail hstem hcolon ha [] [] b).2.1
      rw [List.cons_append] at hrun ⊢
      rw [search, matchHere, hrun]
      exact ih fun d hd => ha d (by simp [hd])

theorem search_smooth {a : Text} (ha : Smooth a) :
    search (labelPattern stem colon tail) a = none := by
  induction a with
  | nil =>
      have hrun := (run_labelPattern tail hstem hcolon ha [] [] []).2.2
      rw [search, matchHere, hrun]
  | cons c a ih =>
      have hrun := (run_labelPattern tail hstem hcolon ha [] [] []).2.2
      rw [search, matchHere, hrun]
      exact ih fun d hd => ha d (by simp [hd])

theorem search_labelsFrom {line : Text} (hline : Smooth line) (s : Text) :
    search (labelPattern stem colon tail) (line ++ s) =
      (labelsFrom line s).findSome?
        (fun l => if endsWith stem l.1 then run tail [] [] l.2 else none) := by
  have hempty : Smooth [] := by simp [Smooth]
  induction s generalizing line with
  | nil =>
      rw [List.append_nil, search_smooth hstem hcolon hline]
      rfl
  | cons c s ih =>
      rw [labelsFrom]
      split
      · rename_i hc
        have hrest := ih hempty
        rw [List.nil_append] at hrest
        rw [hc, search_colon hstem hcolon hline, hrest, List.findSome?_cons]
        cases (if endsWith stem line then run tail [] [] s else none) <;> rfl
      · split
        · rename_i hc
          rw [hc, search_newline hstem hcolon hline]
          exact ih hempty
        · rename_i hc hb
          have hnext : Smooth (line ++ [c]) := by
            intro d hd
            rcases List.mem_append.mp hd with hd | hd
            · exact hline d hd
            · obtain rfl := List.mem_singleton.mp hd
              exact ⟨hc, hb⟩
          rw [← ih hnext]
          simp

/-- What a search finds, from the labels. -/
theorem search_labels (s : Text) :
    search (labelPattern stem colon tail) s =
      (labels s).findSome?
        (fun l => if endsWith stem l.1 then run tail [] [] l.2 else none) :=
  search_labelsFrom hstem hcolon (show Smooth [] by simp [Smooth]) s

/-- Where anything may come between a label and the rest of a pattern, the first label
decides. -/
theorem search_afterLabel {pattern : Pattern} (s : Text) :
    search (labelPattern stem colon (.manyLazy (fun _ => true) :: pattern)) s =
      (afterLabel stem s).bind (search pattern) := by
  rw [search_labels hstem hcolon, afterLabel]
  have hpairs := (pairwise_labelsFrom [] s).1
  rw [← labels] at hpairs
  generalize labels s = found at hpairs ⊢
  induction found with
  | nil => rfl
  | cons l ls ih =>
      obtain ⟨hlater, hpairs⟩ := List.pairwise_cons.mp hpairs
      rw [List.findSome?_cons, List.find?_cons, run_manyLazy]
      cases hl : endsWith stem l.1 with
      | false => simpa using ih hpairs
      | true =>
          simp only [if_true, Option.map_some, Option.bind_some]
          cases hfound : search pattern l.2 with
          | some group => rfl
          | none =>
              -- a later label finds no more
              refine List.findSome?_eq_none_iff.mpr fun l' hl' => ?_
              rw [run_manyLazy]
              split
              · cases hlast : search pattern l'.2 with
                | none => rfl
                | some group =>
                    have hsome := search_isSome_of_suffix (hlater l' hl') (by rw [hlast]; rfl)
                    rw [hfound] at hsome
                    cases hsome
              · rfl

omit hstem hcolon in
theorem sameFold_colon (c : Char) : sameFold ':' c = true ↔ c = ':' := by
  simp [sameFold]

end Label

end BpftimeBenchmark.Pattern
