import Mathlib.Data.List.Basic
import Mathlib.Data.Rat.Defs

/-!
Text as a list of characters, with Python's classes of characters and the
methods of `str` that cut a text up.
-/

namespace BpftimeBenchmark

abbrev Text := List Char

namespace Text

/-- The zeros of the decimal digits, which come in blocks of ten. -/
def zeros : List Nat :=
  [0x30, 0x660, 0x6f0, 0x7c0, 0x966, 0x9e6, 0xa66, 0xae6, 0xb66, 0xbe6, 0xc66, 0xce6,
    0xd66, 0xde6, 0xe50, 0xed0, 0xf20, 0x1040, 0x1090, 0x17e0, 0x1810, 0x1946, 0x19d0,
    0x1a80, 0x1a90, 0x1b50, 0x1bb0, 0x1c40, 0x1c50, 0xa620, 0xa8d0, 0xa900, 0xa9d0,
    0xa9f0, 0xaa50, 0xabf0, 0xff10, 0x104a0, 0x10d30, 0x11066, 0x110f0, 0x11136,
    0x111d0, 0x112f0, 0x11450, 0x114d0, 0x11650, 0x116c0, 0x11730, 0x118e0, 0x11950,
    0x11c50, 0x11d50, 0x11da0, 0x16a60, 0x16ac0, 0x16b50, 0x1d7ce, 0x1d7d8, 0x1d7e2,
    0x1d7ec, 0x1d7f6, 0x1e140, 0x1e2f0, 0x1e950, 0x1fbf0]

/-- The value of a decimal digit, the `\d` of a pattern. -/
def digitValue (c : Char) : Option Nat :=
  (zeros.find? (fun z => z ≤ c.toNat && c.toNat < z + 10)).map (c.toNat - ·)

def isDecimal (c : Char) : Bool := (digitValue c).isSome

/-- Superscripts and the like, which are digits but not decimal ones. -/
def otherDigits : List (Nat × Nat) :=
  [(0xb2, 0xb3), (0xb9, 0xb9), (0x1369, 0x1371), (0x19da, 0x19da), (0x2070, 0x2070),
    (0x2074, 0x2079), (0x2080, 0x2089), (0x2460, 0x2468), (0x2474, 0x247c),
    (0x2488, 0x2490), (0x24ea, 0x24ea), (0x24f5, 0x24fd), (0x24ff, 0x24ff),
    (0x2776, 0x277e), (0x2780, 0x2788), (0x278a, 0x2792), (0x10a40, 0x10a43),
    (0x10e60, 0x10e68), (0x11052, 0x1105a), (0x1f100, 0x1f10a)]

def isDigitChar (c : Char) : Bool :=
  isDecimal c || otherDigits.any (fun r => r.1 ≤ c.toNat && c.toNat ≤ r.2)

/-- `str.isdigit`. -/
def isDigit (s : Text) : Bool := !s.isEmpty && s.all isDigitChar

/-- The white space of `strip`, `split` and the pattern `\s`. -/
def isSpace (c : Char) : Bool :=
  [0x9, 0xa, 0xb, 0xc, 0xd, 0x1c, 0x1d, 0x1e, 0x1f, 0x20, 0x85, 0xa0, 0x1680, 0x2000,
    0x2001, 0x2002, 0x2003, 0x2004, 0x2005, 0x2006, 0x2007, 0x2008, 0x2009, 0x200a,
    0x2028, 0x2029, 0x202f, 0x205f, 0x3000].contains c.toNat

def isLineBreak (c : Char) : Bool :=
  [0xa, 0xb, 0xc, 0xd, 0x1c, 0x1d, 0x1e, 0x85, 0x2028, 0x2029].contains c.toNat

/-- `part in s`. -/
def contains (s part : Text) : Bool :=
  part.isPrefixOf s ||
    match s with
    | [] => false
    | _ :: rest => contains rest part

def startsWith (s part : Text) : Bool := part.isPrefixOf s

/-- The lines of a text: the one being read, whether a line break has just been
a carriage return, and the rest. -/
def linesFrom (line : Text) (afterReturn : Bool) : Text → List Text
  | [] => if line.isEmpty then [] else [line]
  | c :: rest =>
      if afterReturn && c = '\n' then linesFrom line false rest
      else if isLineBreak c then line :: linesFrom [] (c = '\r') rest
      else linesFrom (line ++ [c]) false rest

/-- `str.splitlines`: a line break ends a line and is not part of it. -/
def splitLines (s : Text) : List Text := linesFrom [] false s

def strip (s : Text) : Text :=
  ((s.dropWhile isSpace).reverse.dropWhile isSpace).reverse

/-- The words of a text, of which `word` is being read. -/
def wordsFrom (word : Text) : Text → List Text
  | [] => if word.isEmpty then [] else [word]
  | c :: rest =>
      if isSpace c then
        if word.isEmpty then wordsFrom [] rest else word :: wordsFrom [] rest
      else wordsFrom (word ++ [c]) rest

/-- `str.split` without an argument. -/
def words (s : Text) : List Text := wordsFrom [] s

def digitsValue (s : Text) : Nat :=
  s.foldl (fun n c => 10 * n + (digitValue c).getD 0) 0

/-- What `float` reads from digits, a point and digits, as an exact number. -/
def decimalValue (s : Text) : ℚ :=
  let whole := s.takeWhile isDecimal
  let fraction := (s.dropWhile isDecimal).drop 1
  digitsValue whole + digitsValue fraction / 10 ^ fraction.length

end Text

end BpftimeBenchmark
