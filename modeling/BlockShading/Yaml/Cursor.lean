import BlockShading.Text.Bytes

/-!
# Reading positions in YAML text

A `Cursor` is what is left of a text, with the line and column reached and the number of bytes
passed; the column counts characters. It also keeps a bound on the steps of any loop over what is
left. A line ends at a line feed, a carriage return, both together,
U+0085, U+2028 or U+2029; all but the last two are read as a line feed. A character that may not
occur in YAML at all makes the whole text unreadable.
-/

namespace BlockShading.Yaml

def isAllowed (c : Char) : Bool :=
  let n := c.toNat
  n == 9 || n == 10 || n == 13 || (0x20 ≤ n && n ≤ 0x7E) || n == 0x85 ||
    (0xA0 ≤ n && n ≤ 0xD7FF) || (0xE000 ≤ n && n ≤ 0xFFFD) || (0x10000 ≤ n && n ≤ 0x10FFFF)

def isBreak (c : Char) : Bool :=
  c == '\n' || c == '\r' || c == '\u0085' || c == '\u2028' || c == '\u2029'

def isSpace (c : Char) : Bool := c == ' ' || c == '\t'

/-- Whether a character may be part of the name of an anchor or a tag handle. -/
def isNameChar (c : Char) : Bool := c.isAlphanum || c == '_' || c == '-'

structure Cursor where
  rest : List Char
  line : Nat
  column : Nat
  index : Nat
  /-- More than the number of characters in the whole text. -/
  bound : Nat
  deriving Repr

namespace Cursor

def start (cs : List Char) : Cursor := ⟨cs, 0, 0, 0, cs.length + 1⟩

def ahead? (cur : Cursor) (n : Nat) : Option Char := cur.rest[n]?

def next? (cur : Cursor) : Option Char := cur.rest.head?

def isAt (cur : Cursor) (c : Char) : Bool := cur.next? == some c

/-- Whether the text ends some places ahead, or goes on with white space there. -/
def gapAhead (cur : Cursor) (n : Nat) : Bool :=
  match cur.ahead? n with
  | none => true
  | some c => isSpace c || isBreak c

def atBreak (cur : Cursor) : Bool := cur.next?.any isBreak

def atSpace (cur : Cursor) : Bool := cur.next?.any isSpace

def atLineEnd (cur : Cursor) : Bool := cur.rest.isEmpty || cur.atBreak

def skip (cur : Cursor) : Cursor :=
  match cur.rest with
  | [] => cur
  | c :: rest =>
    { cur with rest := rest, column := cur.column + 1, index := cur.index + c.utf8Size }

def skipBy (cur : Cursor) (n : Nat) : Cursor :=
  { cur with
    rest := cur.rest.drop n
    column := cur.column + n
    index := cur.index + Text.byteLength (cur.rest.take n) }

def newLine (cur : Cursor) (rest : List Char) (width : Nat) : Cursor :=
  { cur with rest := rest, line := cur.line + 1, column := 0, index := cur.index + width }

def lineBreak (cur : Cursor) : List Char × Cursor :=
  match cur.rest with
  | '\r' :: '\n' :: rest => (['\n'], cur.newLine rest 2)
  | c :: rest =>
    if isBreak c then
      (if c = '\u2028' ∨ c = '\u2029' then [c] else ['\n'], cur.newLine rest c.utf8Size)
    else ([], cur)
  | [] => ([], cur)

def takeWhile (cur : Cursor) (p : Char → Bool) : List Char × Cursor :=
  let taken := cur.rest.takeWhile p
  (taken, cur.skipBy taken.length)

def skipWhile (cur : Cursor) (p : Char → Bool) : Cursor := (cur.takeWhile p).2

def skipComment (cur : Cursor) : Cursor :=
  let cur := cur.skipWhile isSpace
  if cur.isAt '#' then cur.skipWhile fun c => !isBreak c else cur

/-- Whether the line begins with three of the given character and nothing attached to them. -/
def atMarker (cur : Cursor) (c : Char) : Bool :=
  cur.column == 0 && cur.rest.take 3 == [c, c, c] && cur.gapAhead 3

def atDocumentMarker (cur : Cursor) : Bool := cur.atMarker '-' || cur.atMarker '.'

end Cursor

end BlockShading.Yaml
