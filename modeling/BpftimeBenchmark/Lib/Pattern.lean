import BpftimeBenchmark.Lib.Text

/-!
Regular expressions that are a sequence of classes of characters, each taken
once or repeated, with one group. Matching tries the ways a repetition can go
in the order of preference of a backtracking matcher, and a search tries the
starting points from the left.
-/

namespace BpftimeBenchmark

inductive Piece where
  | one (p : Char → Bool)
  | many (p : Char → Bool)
  | manyLazy (p : Char → Bool)
  | openGroup
  | closeGroup

abbrev Pattern := List Piece

namespace Pattern

variable {α : Type}

/-- As many characters of the class as possible, then fewer. -/
def greedy (p : Char → Bool) (next : Text → Option α) : Text → Option α
  | [] => next []
  | c :: rest =>
      match if p c then greedy p next rest else none with
      | some a => some a
      | none => next (c :: rest)

/-- As few characters of the class as possible, then more. -/
def reluctant (p : Char → Bool) (next : Text → Option α) : Text → Option α
  | [] => next []
  | c :: rest =>
      match next (c :: rest) with
      | some a => some a
      | none => if p c then reluctant p next rest else none

/-- What the group has taken when the whole pattern matches at the start of a
text. `opened` is the text where the group was opened. -/
def run : Pattern → Text → Text → Text → Option Text
  | [], _, group, _ => some group
  | .one p :: rest, opened, group, s =>
      match s with
      | [] => none
      | c :: s' => if p c then run rest opened group s' else none
  | .many p :: rest, opened, group, s => greedy p (run rest opened group) s
  | .manyLazy p :: rest, opened, group, s => reluctant p (run rest opened group) s
  | .openGroup :: rest, _, group, s => run rest s group s
  | .closeGroup :: rest, opened, _, s =>
      run rest opened (opened.take (opened.length - s.length)) s

/-- `re.match` with the text of the group. -/
def matchHere (pattern : Pattern) (s : Text) : Option Text := run pattern [] [] s

/-- `re.search` with the text of the group. -/
def search (pattern : Pattern) (s : Text) : Option Text :=
  match pattern.matchHere s with
  | some group => some group
  | none =>
      match s with
      | [] => none
      | _ :: rest => search pattern rest

/-- A text taken literally. -/
def literal (s : Text) : Pattern := s.map (fun c => .one (· == c))

/-- What `re.IGNORECASE` takes for a letter besides its two cases. -/
def specialCases : Char → List Char
  | 'i' => ['\u0130', '\u0131']
  | 'k' => ['\u212a']
  | 's' => ['\u017f']
  | _ => []

/-- `c` passes for `p`, a character of ASCII, under `re.IGNORECASE`. -/
def sameFold (p c : Char) : Bool :=
  c == p || (p.isAlpha &&
    (c == p.toLower || c == p.toUpper || (specialCases p.toLower).contains c))

/-- A text taken literally under `re.IGNORECASE`. -/
def literalFold (s : Text) : Pattern := s.map (fun c => .one (sameFold c))

/-- `\s+`. -/
def spaces : Pattern := [.one Text.isSpace, .many Text.isSpace]

/-- `(\d+\.\d+)`. -/
def decimalGroup : Pattern :=
  [.openGroup, .one Text.isDecimal, .many Text.isDecimal, .one (· == '.'),
    .one Text.isDecimal, .many Text.isDecimal, .closeGroup]

end Pattern

end BpftimeBenchmark
