import BpftimeBenchmark.Lib.Float
import BpftimeBenchmark.Lib.PyError

/-!
The table that deepflow's `run.py` prints after its tests, and how
`collect_data.py` reads it from the file that the output was sent to.
-/

namespace BpftimeBenchmark.Deepflow

open Text

variable {ν : Type}

def pad (s : Text) (n : Nat) : Text :=
  if s.length < n then s ++ List.replicate (n - s.length) ' ' else s

def sizeName (size : Nat) : Text :=
  if size ≥ 1024 then ofNat (size / 1024) ++ [' ', 'K', 'B'] else ofNat size ++ [' ', 'B']

/-- What `main` writes for one data size, with `str` for the text of a number. -/
def row (str : ν → Text) (size : Nat) (v : ν × ν) : Text :=
  '|' :: (pad (sizeName size) 11 ++ '|' :: (pad (str v.1) 14 ++
    '|' :: (pad (str v.2 ++ ['M', 'B']) 14 ++ ['|', '\n'])))

def titles : Text := "| Data Size | Requests/sec | Transfer/sec |\n".toList

def rule : Text := "|-----------|--------------|--------------|\n".toList

/-- What `buf` holds in the end. -/
def table (str : ν → Text) (sizes : List Nat) (out : List (ν × ν)) : Text :=
  titles ++ (rule ++ (sizes.zip out).flatMap (fun e => row str e.1 e.2))

/-- The output of `main`, which ends with the table. -/
def output (str : ν → Text) (before : Text) (sizes : List Nat) (out : List (ν × ν)) : Text :=
  before ++ (table str sizes out ++ ['\n'])

structure Record (ν : Type) where
  size : Int
  request : ν
  transfer : ν
  deriving DecidableEq

/-- The loop that pops the blank lines at the end. -/
def popBlank (lines : List Text) : Except PyError (List Text) :=
  match lines.reverse.dropWhile (fun l => decide (strip l = [])) with
  | [] => .error .indexError
  | kept => .ok kept.reverse

/-- `s[:-2]`. -/
def withoutTwo (s : Text) : Text := s.take (s.length - 2)

def parseRow (float : Text → Option ν) (sec : Text) : Except PyError (Record ν) :=
  match (((withoutTwo sec).drop 1).splitOn '|').map strip with
  | [a, b, c] => do
      let size ← orValueError (int (strip (withoutTwo a)))
      let req ← orValueError (float b)
      let trans ← orValueError (float (withoutTwo c))
      return ⟨size, req, trans⟩
  | _ => .error .valueError

/-- `parse_file` of a file with this text, with `float` for the number of a text. -/
def parseFile (float : Text → Option ν) (content : Text) :
    Except PyError (List (Record ν)) := do
  let lines ← popBlank (readLines content)
  (lines.drop (lines.length - 6)).mapM (parseRow float)

/-- A numeral as `str` prints it: nothing in it that the table is cut at. -/
def Unbroken (s : Text) : Prop := ∀ c ∈ s, c ≠ '|' ∧ isSpace c = false

instance (s : Text) : Decidable (Unbroken s) :=
  List.decidableBAll (fun c => c ≠ '|' ∧ isSpace c = false) s

variable {str : ν → Text} {float : Text → Option ν}

theorem unbroken_ofNat (n : Nat) : Unbroken (ofNat n) := by
  intro c hc
  have hdigit := isDigit_of_mem_ofNat hc
  exact ⟨ne_of_isDigit hdigit (by decide), not_space_of_isDigit hdigit⟩

theorem withoutTwo_append (s : Text) (c d : Char) : withoutTwo (s ++ [c, d]) = s := by
  rw [withoutTwo, List.length_append]
  exact List.take_left

theorem mem_pad {s : Text} {n : Nat} {c : Char} (h : c ∈ pad s n) : c ∈ s ∨ c = ' ' := by
  unfold pad at h
  split at h
  · exact (List.mem_append.mp h).imp_right List.eq_of_mem_replicate
  · exact Or.inl h

theorem strip_pad {s : Text} (hfirst : ∀ c ∈ s.head?, isSpace c = false)
    (hlast : ∀ c ∈ s.getLast?, isSpace c = false) (n : Nat) : strip (pad s n) = s := by
  unfold pad
  split
  · refine strip_append_blank hfirst hlast fun c hc => ?_
    rw [List.eq_of_mem_replicate hc]
    decide
  · have hblank : ∀ c ∈ ([] : Text), isSpace c = true := by simp
    have hstrip := strip_append_blank hfirst hlast hblank
    rwa [List.append_nil] at hstrip

theorem strip_pad_unbroken {s : Text} (h : Unbroken s) (n : Nat) : strip (pad s n) = s :=
  strip_pad (fun c hc => (h c (List.mem_of_mem_head? hc)).2)
    (fun c hc => (h c (List.mem_of_mem_getLast? hc)).2) n

theorem Unbroken.megabytes {s : Text} (h : Unbroken s) : Unbroken (s ++ ['M', 'B']) := by
  intro c hc
  rcases List.mem_append.mp hc with hs | hunit
  · exact h c hs
  · have hunbroken : Unbroken ['M', 'B'] := by decide
    exact hunbroken c hunit

theorem sizeName_kilobytes {k : Nat} (hk : 0 < k) :
    sizeName (1024 * k) = ofNat k ++ [' ', 'K', 'B'] := by
  rw [sizeName, if_pos (by omega), Nat.mul_div_cancel_left k (by decide)]

theorem strip_sizeName {k : Nat} (hk : 0 < k) (n : Nat) :
    strip (pad (sizeName (1024 * k)) n) = ofNat k ++ [' ', 'K', 'B'] := by
  rw [sizeName_kilobytes hk]
  refine strip_pad ?_ ?_ n
  · cases hname : ofNat k with
    | nil => exact absurd hname (ofNat_ne_nil k)
    | cons d rest =>
        intro e he
        obtain rfl := Option.some.inj he
        exact (unbroken_ofNat k d (hname ▸ List.mem_cons_self)).2
  · intro d hd
    rw [List.getLast?_append] at hd
    obtain rfl := Option.some.inj hd
    decide

theorem bar_not_mem_pad {s : Text} (h : '|' ∉ s) (n : Nat) : '|' ∉ pad s n := by
  intro hmem
  rcases mem_pad hmem with hs | hspace
  · exact h hs
  · cases hspace

theorem bar_not_mem_sizeName (size : Nat) : '|' ∉ sizeName size := by
  have hdigits : ∀ n, '|' ∉ ofNat n := fun n h => (unbroken_ofNat n '|' h).1 rfl
  unfold sizeName
  split <;> simp [hdigits]

theorem splitOn_columns {a b c : Text} (ha : '|' ∉ a) (hb : '|' ∉ b) (hc : '|' ∉ c) :
    (a ++ '|' :: (b ++ '|' :: c)).splitOn '|' = [a, b, c] := by
  have hbars : ∀ l ∈ [a, b, c], '|' ∉ l := by simp [ha, hb, hc]
  have hjoined := List.splitOn_intercalate '|' hbars (by simp)
  simpa [List.intercalate] using hjoined

/-- A row is read back as the record it was made from. -/
theorem parseRow_row {k : Nat} (hk : 0 < k) {v : ν × ν}
    (hreq : float (str v.1) = some v.1) (htrans : float (str v.2) = some v.2)
    (hreqText : Unbroken (str v.1)) (htransText : Unbroken (str v.2)) :
    parseRow float (row str (1024 * k) v) = .ok ⟨k, v.1, v.2⟩ := by
  have hbar : ∀ s, Unbroken s → '|' ∉ s := fun s hs h => (hs '|' h).1 rfl
  have hmiddle : (withoutTwo (row str (1024 * k) v)).drop 1 =
      pad (sizeName (1024 * k)) 11 ++ '|' :: (pad (str v.1) 14 ++
        '|' :: pad (str v.2 ++ ['M', 'B']) 14) := by
    have hrow : row str (1024 * k) v = ('|' :: (pad (sizeName (1024 * k)) 11 ++
        '|' :: (pad (str v.1) 14 ++ '|' :: pad (str v.2 ++ ['M', 'B']) 14))) ++ ['|', '\n'] := by
      simp [row]
    rw [hrow, withoutTwo_append]
    rfl
  have hcolumns := splitOn_columns (bar_not_mem_pad (bar_not_mem_sizeName (1024 * k)) 11)
    (bar_not_mem_pad (hbar _ hreqText) 14) (bar_not_mem_pad (hbar _ htransText.megabytes) 14)
  have hsize : int (strip (withoutTwo (ofNat k ++ [' ', 'K', 'B']))) = some (k : Int) := by
    have hunit : ofNat k ++ [' ', 'K', 'B'] = (ofNat k ++ [' ']) ++ ['K', 'B'] := by simp
    have hblank : strip (ofNat k ++ [' ']) = ofNat k :=
      strip_append_blank (fun c hc => (unbroken_ofNat k c (List.mem_of_mem_head? hc)).2)
        (fun c hc => (unbroken_ofNat k c (List.mem_of_mem_getLast? hc)).2)
        fun c hc => by rw [List.mem_singleton.mp hc]; decide
    rw [hunit, withoutTwo_append, hblank, int_ofNat]
  unfold parseRow
  rw [hmiddle, hcolumns]
  simp only [List.map_cons, List.map_nil, strip_sizeName hk, strip_pad_unbroken hreqText,
    strip_pad_unbroken htransText.megabytes, withoutTwo_append, hsize, hreq, htrans]
  rfl

/-- A line of the table without its newline. -/
def Plain (s : Text) : Prop := ∀ c ∈ s, c ≠ '\n' ∧ c ≠ '\r'

instance (s : Text) : Decidable (Plain s) :=
  List.decidableBAll (fun c => c ≠ '\n' ∧ c ≠ '\r') s

theorem Plain.append {s t : Text} (hs : Plain s) (ht : Plain t) : Plain (s ++ t) := by
  intro c hc
  exact (List.mem_append.mp hc).elim (hs c) (ht c)

theorem Unbroken.plain {s : Text} (h : Unbroken s) : Plain s := by
  intro c hc
  have hspace := (h c hc).2
  constructor <;> rintro rfl <;> revert hspace <;> decide

theorem Plain.pad {s : Text} (h : Plain s) (n : Nat) : Plain (pad s n) := by
  intro c hc
  rcases mem_pad hc with hs | rfl
  · exact h c hs
  · decide

theorem plain_sizeName (size : Nat) : Plain (sizeName size) := by
  unfold sizeName
  split
  · exact (unbroken_ofNat _).plain.append (by decide)
  · exact (unbroken_ofNat _).plain.append (by decide)

/-- A line of the table. -/
def TableLine (l : Text) : Prop := ∃ body, l = '|' :: body ++ ['\n'] ∧ Plain ('|' :: body)

theorem tableLine_row (size : Nat) {v : ν × ν} (hreq : Unbroken (str v.1))
    (htrans : Unbroken (str v.2)) : TableLine (row str size v) := by
  have hbar : Plain ['|'] := by decide
  refine ⟨pad (sizeName size) 11 ++ '|' :: (pad (str v.1) 14 ++
    '|' :: (pad (str v.2 ++ ['M', 'B']) 14 ++ ['|'])), by simp [row], ?_⟩
  exact hbar.append (((plain_sizeName size).pad 11).append (hbar.append
    ((hreq.plain.pad 14).append (hbar.append ((htrans.megabytes.plain.pad 14).append hbar)))))

theorem readLinesFrom_table {ls : List Text} (h : ∀ l ∈ ls, TableLine l) :
    readLinesFrom [] (ls.flatten ++ ['\n']) = ls ++ [['\n']] := by
  induction ls with
  | nil => rfl
  | cons l rest ih =>
      obtain ⟨body, rfl, hplain⟩ := h l List.mem_cons_self
      have hnewline : '\n' ∉ '|' :: body := fun hmem => (hplain _ hmem).1 rfl
      have hsplit : (('|' :: body ++ ['\n']) :: rest).flatten ++ ['\n'] =
          ('|' :: body) ++ '\n' :: (rest.flatten ++ ['\n']) := by simp
      rw [hsplit, readLinesFrom_line hnewline, ih fun l hl => h l (List.mem_cons_of_mem _ hl)]
      rfl

/-- The first line may continue what was printed before it; the others are lines of
the file. -/
theorem readLines_table (before : Text) {first : Text} {rest : List Text}
    (hfirst : TableLine first) (hrest : ∀ l ∈ rest, TableLine l) :
    ∃ lines, readLines (before ++ ((first ++ rest.flatten) ++ ['\n'])) =
      lines ++ (rest ++ [['\n']]) := by
  obtain ⟨body, rfl, hplain⟩ := hfirst
  have hreturn : '\r' ∉ '|' :: (body ++ '\n' :: (rest.flatten ++ ['\n'])) := by
    have hlines : ∀ l ∈ rest, '\r' ∉ l := by
      intro l hl
      obtain ⟨b, rfl, hb⟩ := hrest l hl
      intro hmem
      rcases List.mem_append.mp hmem with hmem | hmem
      · exact (hb _ hmem).2 rfl
      · simp at hmem
    have hbody : '\r' ∉ '|' :: body := fun hmem => (hplain _ hmem).2 rfl
    intro hmem
    simp only [List.mem_cons, List.mem_append, List.mem_flatten, List.not_mem_nil,
      or_false] at hmem hbody
    rcases hmem with hmem | hmem | hmem | ⟨l, hl, hmem⟩ | hmem
    · exact hbody (Or.inl hmem)
    · exact hbody (Or.inr hmem)
    · revert hmem
      decide
    · exact hlines l hl hmem
    · revert hmem
      decide
  refine ⟨readLinesFrom [] (newlinesFrom false before ++ '|' :: body ++ ['\n']), ?_⟩
  calc readLines (before ++ (('|' :: body ++ ['\n'] ++ rest.flatten) ++ ['\n']))
      = readLinesFrom [] (newlinesFrom false
          (before ++ '|' :: (body ++ '\n' :: (rest.flatten ++ ['\n'])))) := by
        simp [readLines]
    _ = readLinesFrom [] ((newlinesFrom false before ++ '|' :: body) ++
          '\n' :: (rest.flatten ++ ['\n'])) := by
        rw [newlinesFrom_append hreturn (by decide)]
        simp
    _ = _ := by
        rw [readLinesFrom_newline, readLinesFrom_table hrest]

theorem TableLine.strip_ne_nil {l : Text} (h : TableLine l) : strip l ≠ [] := by
  obtain ⟨body, rfl, -⟩ := h
  intro hnil
  have hbar := isSpace_of_strip_eq_nil hnil '|' List.mem_cons_self
  revert hbar
  decide

theorem popBlank_table {lines rows : List Text} (hne : rows ≠ [])
    (hrows : ∀ l ∈ rows, TableLine l) :
    popBlank (lines ++ (rows ++ [['\n']])) = .ok (lines ++ rows) := by
  obtain ⟨init, last, rfl⟩ := (List.eq_nil_or_concat rows).resolve_left hne
  have hlast : strip last ≠ [] := (hrows last (by simp)).strip_ne_nil
  have hnewline : strip ['\n'] = [] := by decide
  have hreverse : (lines ++ (init ++ [last] ++ [['\n']])).reverse =
      ['\n'] :: last :: (init.reverse ++ lines.reverse) := by simp
  rw [popBlank, List.concat_eq_append, hreverse,
    List.dropWhile_cons_of_pos (by simpa using hnewline),
    List.dropWhile_cons_of_neg (by simpa using hlast)]
  simp

/-- What `main` prints is read back, whatever was printed before. -/
theorem parseFile_output (before : Text) (sizes : List Nat) (out : List (ν × ν))
    (hsizes : sizes.length = 6) (hout : out.length = 6)
    (hmultiple : ∀ size ∈ sizes, 0 < size ∧ 1024 ∣ size)
    (hfloat : ∀ v ∈ out, float (str v.1) = some v.1 ∧ float (str v.2) = some v.2)
    (hstr : ∀ v ∈ out, Unbroken (str v.1) ∧ Unbroken (str v.2)) :
    parseFile float (output str before sizes out) =
      .ok ((sizes.zip out).map (fun e => ⟨(e.1 / 1024 : Nat), e.2.1, e.2.2⟩)) := by
  have hlength : (sizes.zip out).length = 6 := by rw [List.length_zip, hsizes, hout, min_self]
  have hlines : ∀ l ∈ (sizes.zip out).map (fun e => row str e.1 e.2), TableLine l := by
    intro l hl
    obtain ⟨e, he, rfl⟩ := List.mem_map.mp hl
    obtain ⟨hreq, htrans⟩ := hstr e.2 (List.of_mem_zip he).2
    exact tableLine_row e.1 hreq htrans
  have htitles : TableLine titles :=
    ⟨" Data Size | Requests/sec | Transfer/sec |".toList, by decide +kernel, by decide +kernel⟩
  have hrule : TableLine rule :=
    ⟨"-----------|--------------|--------------|".toList, by decide +kernel, by decide +kernel⟩
  have hrow : ∀ e ∈ sizes.zip out, parseRow float (row str e.1 e.2) =
      .ok ⟨(e.1 / 1024 : Nat), e.2.1, e.2.2⟩ := by
    rintro ⟨size, v⟩ he
    obtain ⟨hsize, hv⟩ := List.of_mem_zip he
    obtain ⟨hpos, k, rfl⟩ := hmultiple size hsize
    rw [parseRow_row (by omega) (hfloat v hv).1 (hfloat v hv).2 (hstr v hv).1 (hstr v hv).2,
      Nat.mul_div_cancel_left k (by decide)]
  have hrest : ∀ l ∈ rule :: (sizes.zip out).map (fun e => row str e.1 e.2), TableLine l :=
    List.forall_mem_cons.mpr ⟨hrule, hlines⟩
  obtain ⟨lines, hread⟩ := readLines_table before htitles hrest
  have hkept : lines ++ rule :: (sizes.zip out).map (fun e => row str e.1 e.2) =
      (lines ++ [rule]) ++ (sizes.zip out).map (fun e => row str e.1 e.2) := by simp
  have hcontent : output str before sizes out = before ++ ((titles ++
      (rule :: (sizes.zip out).map (fun e => row str e.1 e.2)).flatten) ++ ['\n']) := by
    rw [output, table, List.flatMap_def, List.flatten_cons]
  have hsix : (lines ++ [rule] ++ (sizes.zip out).map (fun e => row str e.1 e.2)).length - 6 =
      (lines ++ [rule]).length := by
    rw [List.length_append, List.length_map, hlength, Nat.add_sub_cancel]
  rw [parseFile, hcontent, hread, popBlank_table (by simp) hrest, hkept]
  show (List.drop _ _).mapM _ = _
  rw [hsix, List.drop_left, List.mapM_map]
  exact mapM_ok hrow

/-- `float` where it returns a finite number. -/
def finiteFloat (s : Text) : Option ℚ :=
  match Text.float s with
  | some (.finite q) => some q
  | _ => none

/-- Six results, the last of them wider than its column. -/
def results : List (ℚ × ℚ) :=
  [(1523 / 4, 3 / 2), (2000, 4), (75 / 2, 1 / 10), (9 / 4, 0), (3, 51 / 5),
    (123456789012345 + 1 / 2, 123456789012)]

theorem parseFile_output_six :
    parseFile finiteFloat (output reprRounded "use https False\r".toList
        [1024, 2048, 4096, 16384, 131072, 262144] results) =
      .ok (([1024, 2048, 4096, 16384, 131072, 262144].zip results).map
        (fun e => ⟨(e.1 / 1024 : Nat), e.2.1, e.2.2⟩)) :=
  parseFile_output _ _ _ rfl rfl (by decide) (by decide +kernel)
    (by decide +kernel)

end BpftimeBenchmark.Deepflow
