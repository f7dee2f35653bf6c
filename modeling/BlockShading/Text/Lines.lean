import BlockShading.Extent
import BlockShading.Text.Bytes

/-!
# Lines of a text

A line ends after a line feed, a carriage return, the two of them together, a vertical tab, a form
feed, or one of the characters U+0085, U+2028 and U+2029. The break belongs to the line it ends,
and a text that ends in a break has one more, empty line. A `LineIndex` keeps a text beside its
lines and where they begin; offsets past the end count as the end, and lines past the last one begin
there.
-/

namespace BlockShading.Text

/-- Whether a line ends after this character. -/
def isBreak (c : Char) : Bool :=
  c == '\n' || c == '\r' || c == '\x0b' || c == '\x0c' || c == '\u0085' || c == '\u2028' ||
    c == '\u2029'

def consLine (c : Char) : List (List Char) → List (List Char)
  | [] => [[c]]
  | line :: rest => (c :: line) :: rest

def splitLines : List Char → List (List Char)
  | [] => [[]]
  | '\r' :: '\n' :: rest => ['\r', '\n'] :: splitLines rest
  | c :: rest => if isBreak c then [c] :: splitLines rest else consLine c (splitLines rest)

def lineStarts (start : Nat) : List (List Char) → List Nat
  | [] => []
  | line :: rest => start :: lineStarts (start + byteLength line) rest

/-- The number of leading offsets in a list that are not after the given one. -/
def startsUpTo (offset : Nat) : List Nat → Nat
  | [] => 0
  | start :: rest => if offset < start then 0 else startsUpTo offset rest + 1

end BlockShading.Text

namespace BlockShading

open Text

/-- A text together with its lines, where they begin, and the number of its bytes. -/
structure LineIndex where
  text : List Char
  lines : List (List Char)
  starts : List Nat
  size : Nat
  lines_eq : lines = splitLines text
  starts_eq : starts = lineStarts 0 lines
  size_eq : size = byteLength text

namespace LineIndex

def ofString (s : String) : LineIndex where
  text := s.toList
  lines := splitLines s.toList
  starts := lineStarts 0 (splitLines s.toList)
  size := byteLength s.toList
  lines_eq := rfl
  starts_eq := rfl
  size_eq := rfl

def lineCount (index : LineIndex) : Nat := index.lines.length

/-- The line that holds a byte offset: the last one that does not begin after it. -/
def lineOf (index : LineIndex) (offset : Nat) : Nat := startsUpTo offset (index.starts.drop 1)

def startOf (index : LineIndex) (line : Nat) : Nat := index.starts[line]?.getD index.size

/-- The characters of a line with its break; none past the last line. -/
def lineChars (index : LineIndex) (line : Nat) : List Char := index.lines[line]?.getD []

def lineBytes (index : LineIndex) (line : Nat) : List UInt8 := bytes (index.lineChars line)

/-- The width of the character at an offset, zero at the end. -/
def widthAt (index : LineIndex) (offset : Nat) : Nat := Text.widthAt index.text offset

/-- Line and column of an offset, both counted from zero, the column in bytes. -/
def position (index : LineIndex) (offset : Nat) : Nat × Nat :=
  let line := index.lineOf offset
  (line, min offset index.size - index.startOf line)

end LineIndex

end BlockShading
