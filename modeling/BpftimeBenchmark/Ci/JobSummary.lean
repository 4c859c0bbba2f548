import Mathlib.Algebra.Order.Ring.Int
import Mathlib.Data.List.Induction
import BpftimeBenchmark.Lib.Text

/-!
The loop of `bench-core.yml` that renders the collected result files in the job summary.
It charges a budget by bytes, at most 20000 for a file, and prints by lines, so what it
writes is bounded where no file has more than 20000 bytes in the lines that are
printed of it.
-/

namespace BpftimeBenchmark.Ci

/-- A result file, by its path below `$OUT/files` and its bytes. -/
structure ResultFile where
  name : Text
  content : List UInt8

/-- What is written to the summary: text of the script, or bytes of a file. -/
inductive Piece where
  | markup (text : Text)
  | content (bytes : List UInt8)

structure JobSummary where
  budget : Int
  found : Bool
  out : List Piece

def newline : UInt8 := 10

/-- `head -n`. -/
def head : Nat → List UInt8 → List UInt8
  | 0, _ => []
  | _ + 1, [] => []
  | n + 1, c :: rest => if c = newline then c :: head n rest else c :: head (n + 1) rest

/-- `wc -l`. -/
def lineCount (bytes : List UInt8) : Nat := bytes.count newline

def hasExtension (extension : Text) (f : ResultFile) : Bool := extension.isSuffixOf f.name

def ResultFile.size (f : ResultFile) : Nat := f.content.length

/-- A JSON file that is not small. -/
def skipped (f : ResultFile) : Bool := hasExtension ".json".toList f && decide (4096 < f.size)

def charge (f : ResultFile) : Nat := if 20000 < f.size then 20000 else f.size

/-- How many lines of the file are printed. -/
def linesShown (f : ResultFile) : Nat := if hasExtension ".md".toList f then 200 else 60

def shown (f : ResultFile) : List UInt8 := head (linesShown f) f.content

def truncatedNote (f : ResultFile) : List Piece :=
  if lineCount f.content ≤ linesShown f then []
  else if hasExtension ".md".toList f then
    [.markup "_... truncated; full report is in the artifact_\n".toList]
  else [.markup "... (truncated; full file in the artifact)\n".toList]

def fence (f : ResultFile) : List Piece :=
  if hasExtension ".md".toList f then [] else [.markup "```\n".toList]

/-- What a turn of the loop prints of the file. -/
def rendered (f : ResultFile) : List Piece :=
  [.markup ("<details open><summary><b>".toList ++ f.name ++ "</b> (".toList ++
      (toString f.size).toList ++ " bytes)</summary>\n\n".toList)] ++
    fence f ++ [.content (shown f)] ++ truncatedNote f ++ fence f ++
    [.markup "</details>\n\n".toList]

/-- One turn of the loop. -/
def render (s : JobSummary) (f : ResultFile) : JobSummary :=
  if skipped f then s
  else if s.budget ≤ 0 then { s with found := true }
  else
    { budget := s.budget - charge f
      found := true
      out := s.out ++ rendered f }

/-- The loop over the files, in the order of their names. -/
def renderAll (files : List ResultFile) : JobSummary := files.foldl render ⟨800000, false, []⟩

/-- The loop and the two notes after it. -/
def publishResults (files : List ResultFile) : List Piece :=
  let s := renderAll files
  s.out ++
    (if 0 < s.budget then []
      else [.markup
        "_summary size budget reached; remaining files are in the artifact_\n".toList]) ++
    (if s.found then []
      else [.markup
        "_this suite produced no result files; its output is in the run log below_\n".toList])

def Piece.contentBytes : Piece → Nat
  | .markup _ => 0
  | .content bytes => bytes.length

/-- The bytes of file content in what is written. -/
def contentBytes (out : List Piece) : Nat := (out.map Piece.contentBytes).sum

/-- What the files charge the budget with as long as it lasts. -/
def charges (files : List ResultFile) : Nat :=
  ((files.filter (fun f => !skipped f)).map charge).sum

/-- Every file whose turn comes within the budget has at most 20000 bytes in its first
60 lines, or 200 of Markdown. -/
def ShortLines (files : List ResultFile) : Prop :=
  ∀ before f after, files = before ++ f :: after → skipped f = false →
    charges before < 800000 → (shown f).length ≤ 20000

/-- In every turn of the loop what is printed of the file is charged. -/
def Charged (files : List ResultFile) : Prop :=
  ∀ before f after, files = before ++ f :: after →
    (contentBytes (render (renderAll before) f).out : Int) - contentBytes (renderAll before).out ≤
      (renderAll before).budget - (render (renderAll before) f).budget

@[simp] theorem contentBytes_append (out out' : List Piece) :
    contentBytes (out ++ out') = contentBytes out + contentBytes out' := by
  simp [contentBytes]

theorem contentBytes_rendered (f : ResultFile) :
    contentBytes (rendered f) = (shown f).length := by
  have hfence : contentBytes (fence f) = 0 := by
    unfold fence
    split <;> rfl
  have hnote : contentBytes (truncatedNote f) = 0 := by
    unfold truncatedNote
    split
    · rfl
    · split <;> rfl
  have hmarkup (text : Text) : contentBytes [.markup text] = 0 := rfl
  have hcontent : contentBytes [.content (shown f)] = (shown f).length := Nat.add_zero _
  unfold rendered
  simp only [contentBytes_append, hfence, hnote, hmarkup, hcontent, Nat.zero_add, Nat.add_zero]

theorem length_head_le (n : Nat) (bytes : List UInt8) : (head n bytes).length ≤ bytes.length := by
  fun_induction head n bytes with
  | case1 => simp
  | case2 => simp
  | case3 n rest ih => simpa using ih
  | case4 n c rest hc ih => simpa using ih

theorem renderAll_concat (files : List ResultFile) (f : ResultFile) :
    renderAll (files ++ [f]) = render (renderAll files) f := by
  simp [renderAll]

theorem charges_concat (files : List ResultFile) (f : ResultFile) :
    charges (files ++ [f]) = charges files + if skipped f then 0 else charge f := by
  cases h : skipped f <;> simp [charges, h]

/-- The budget is what the charges have left of it, as long as they have left
anything. -/
theorem budget_renderAll (files : List ResultFile) :
    (charges files < 800000 ∧ (renderAll files).budget = 800000 - charges files) ∨
      (800000 ≤ charges files ∧ (renderAll files).budget ≤ 0) := by
  induction files using List.reverseRecOn with
  | nil => exact Or.inl ⟨by decide, rfl⟩
  | append_singleton files f ih =>
      rw [renderAll_concat, charges_concat]
      unfold render
      cases hskipped : skipped f with
      | true => simpa using ih
      | false =>
          simp only [Bool.false_eq_true, if_false]
          split
          · dsimp only
            omega
          · dsimp only
            omega

theorem budget_pos_iff (files : List ResultFile) :
    0 < (renderAll files).budget ↔ charges files < 800000 := by
  rcases budget_renderAll files with h | h <;> omega

theorem shown_le_charge_iff (f : ResultFile) :
    (shown f).length ≤ charge f ↔ (shown f).length ≤ 20000 := by
  have hsize : (shown f).length ≤ f.size := length_head_le _ _
  unfold charge
  split <;> omega

/-- A turn prints and charges a file, or does neither. -/
theorem render_cases (s : JobSummary) (f : ResultFile) :
    ((skipped f = true ∨ s.budget ≤ 0) ∧ (render s f).budget = s.budget ∧
        (render s f).out = s.out) ∨
      (skipped f = false ∧ 0 < s.budget ∧ (render s f).budget = s.budget - charge f ∧
        contentBytes (render s f).out = contentBytes s.out + (shown f).length) := by
  unfold render
  cases hskipped : skipped f with
  | true => simp
  | false =>
      simp only [Bool.false_eq_true, if_false, false_or, true_and]
      split
      · rename_i hspent
        exact Or.inl ⟨hspent, rfl, rfl⟩
      · rename_i hleft
        exact Or.inr ⟨not_le.mp hleft, rfl, by rw [contentBytes_append, contentBytes_rendered]⟩

theorem charged_iff (files : List ResultFile) : Charged files ↔ ShortLines files := by
  constructor
  · intro h before f after hsplit hskipped hbudget
    have hturn := h before f after hsplit
    have hpos := (budget_pos_iff before).mpr hbudget
    rcases render_cases (renderAll before) f with ⟨hnot, -, -⟩ | ⟨-, -, hcharge, hout⟩
    · rcases hnot with hskip | hspent
      · rw [hskipped] at hskip
        cases hskip
      · omega
    · rw [hcharge, hout] at hturn
      rw [← shown_le_charge_iff]
      omega
  · intro h before f after hsplit
    rcases render_cases (renderAll before) f with
      ⟨-, hcharge, hout⟩ | ⟨hskipped, hpos, hcharge, hout⟩
    · rw [hcharge, hout]
      omega
    · have hshort := h before f after hsplit hskipped ((budget_pos_iff before).mp hpos)
      rw [← shown_le_charge_iff] at hshort
      rw [hcharge, hout]
      omega

/-- What is printed is charged, and the last charge comes within the budget. -/
theorem contentBytes_renderAll {files : List ResultFile} (h : ShortLines files) :
    (contentBytes (renderAll files).out : Int) ≤ 800000 - (renderAll files).budget ∧
      -20000 < (renderAll files).budget := by
  induction files using List.reverseRecOn with
  | nil => decide
  | append_singleton files f ih =>
      have hbefore : ShortLines files := by
        intro before g after hsplit
        exact h before g (after ++ [f]) (by rw [hsplit, List.append_assoc, List.cons_append])
      obtain ⟨hbytes, hbudget⟩ := ih hbefore
      rw [renderAll_concat]
      rcases render_cases (renderAll files) f with
        ⟨-, hcharge, hout⟩ | ⟨hskipped, hpos, hcharge, hout⟩
      · rw [hcharge, hout]
        exact ⟨hbytes, hbudget⟩
      · have hshort := h files f [] rfl hskipped ((budget_pos_iff files).mp hpos)
        rw [← shown_le_charge_iff] at hshort
        have hmost : charge f ≤ 20000 := by
          unfold charge
          split <;> omega
        rw [hcharge, hout]
        omega

theorem contentBytes_publishResults (files : List ResultFile) :
    contentBytes (publishResults files) = contentBytes (renderAll files).out := by
  have hnote {c : Prop} [Decidable c] (text : Text) :
      contentBytes (if c then [] else [.markup text]) = 0 := by
    split <;> rfl
  unfold publishResults
  simp only [contentBytes_append, hnote, Nat.add_zero]

/-- The summary keeps to its budget, with every file charged for what is printed of it,
if and only if no file that comes within the budget has more than 20000 bytes in the
lines that are printed. -/
theorem within_budget_iff (files : List ResultFile) :
    (contentBytes (publishResults files) ≤ 820000 ∧ Charged files) ↔ ShortLines files := by
  rw [charged_iff, contentBytes_publishResults]
  refine ⟨And.right, fun h => ⟨?_, h⟩⟩
  obtain ⟨hbytes, hbudget⟩ := contentBytes_renderAll h
  omega

theorem head_of_no_newline {bytes : List UInt8} (h : newline ∉ bytes) (n : Nat) :
    head (n + 1) bytes = bytes := by
  induction bytes with
  | nil => rfl
  | cons c rest ih =>
      rw [List.mem_cons, not_or] at h
      rw [head, if_neg (Ne.symm h.1), ih h.2]

/-- A log of one line of two million bytes, more than a summary may have. -/
def oneLongLine : ResultFile := ⟨"run.txt".toList, List.replicate 2000000 65⟩

theorem summary_of_long_line :
    contentBytes (publishResults [oneLongLine]) = 2000000 ∧ ¬ Charged [oneLongLine] := by
  have hjson : hasExtension ".json".toList oneLongLine = false := by decide +kernel
  have hmarkdown : hasExtension ".md".toList oneLongLine = false := by decide +kernel
  have hshown : (shown oneLongLine).length = 2000000 := by
    have hline : newline ∉ oneLongLine.content := by
      intro hmem
      have hbyte := (List.mem_replicate.mp hmem).2
      cases hbyte
    rw [shown, linesShown, hmarkdown, if_neg Bool.false_ne_true, head_of_no_newline hline]
    exact List.length_replicate
  have hskipped : skipped oneLongLine = false := by rw [skipped, hjson, Bool.false_and]
  constructor
  · rw [contentBytes_publishResults]
    rcases render_cases (renderAll []) oneLongLine with ⟨hnot, -, -⟩ | ⟨-, -, -, hout⟩
    · rcases hnot with hskip | hspent
      · rw [hskipped] at hskip
        cases hskip
      · exact absurd hspent (by decide)
    · rw [hshown] at hout
      exact hout
  · rw [charged_iff]
    intro hshort
    have hlong := hshort [] oneLongLine [] rfl hskipped (by decide)
    rw [hshown] at hlong
    exact absurd hlong (by decide)

end BpftimeBenchmark.Ci
