import BlockShading.Log.Pattern.Flags
import BlockShading.Text.Digits

/-!
# Atoms of a pattern

The smallest parts of a pattern are characters and escapes. Which of them may be used depends on
the flags: where classes are made of bytes, nothing may match a part of a character, and where they
are made of characters, the edges of words are refused.
-/

namespace BlockShading.Log.Pattern

inductive Atom where
  /-- A character; `isByte` says that it is given as a byte, by two digits. -/
  | char (value : Char) (isByte : Bool)
  /-- The digits, the blanks or the characters of words, or all but those. -/
  | kind (negated : Bool)
  /-- The characters of a general category. -/
  | category
  /-- The beginning or the end of the text. -/
  | textEdge
  /-- The edge of a word. -/
  | wordEdge
  deriving DecidableEq, Repr

def isAscii (c : Char) : Bool := c.toNat < 128

namespace Atom

def isPart (flags : Flags) : Atom → Bool
  | char value isByte => flags.unicode || !isByte || isAscii value
  | kind negated => flags.unicode || !negated
  | category => flags.unicode
  | textEdge => true
  | wordEdge => !flags.unicode

def isMember (flags : Flags) : Atom → Bool
  | char value _ => flags.unicode || isAscii value
  | kind negated => flags.unicode || !negated
  | category => flags.unicode
  | textEdge => false
  | wordEdge => false

end Atom

def codeDigits? : Char → Option Nat
  | 'x' => some 2
  | 'u' => some 4
  | 'U' => some 8
  | _ => none

def control? : Char → Option Char
  | 'a' => some '\x07'
  | 'f' => some '\x0c'
  | 't' => some '\t'
  | 'n' => some '\n'
  | 'r' => some '\r'
  | 'v' => some '\x0b'
  | _ => none

/-- Whether a character that is neither letter nor digit may be escaped to stand for itself. -/
def isEscapable (c : Char) : Bool := isAscii c && !c.isAlphanum && c != '<' && c != '>'

def hexDigits? (flags : Flags) : Nat → List Char → Option (List Char × List Char)
  | 0, cs => some ([], cs)
  | count + 1, cs =>
    match flags.skip cs with
    | [] => none
    | c :: rest =>
      if (Text.digitValue? c).isSome then
        (hexDigits? flags count rest).map fun (digits, after) => (c :: digits, after)
      else none

def codePoint? (flags : Flags) (count : Nat) (cs : List Char) : Option (Char × List Char) :=
  (hexDigits? flags count cs).bind fun (digits, after) =>
    (Text.number? 16 digits).bind fun value =>
      if value.isValidChar then some (Char.ofNat value, after) else none

/-- Passes the letter that names a general category. -/
def afterCategory? (flags : Flags) (cs : List Char) : Option (List Char) :=
  match flags.skip cs with
  | [] => none
  | name :: rest => if "CLMNPSZ".toList.contains name.toUpper then some rest else none

def escape? (flags : Flags) : List Char → Option (Atom × List Char)
  | [] => none
  | c :: rest =>
    match codeDigits? c with
    | some count =>
      (codePoint? flags count rest).map fun (value, after) => (.char value (c == 'x'), after)
    | none =>
      if "dsw".toList.contains c then some (.kind false, rest)
      else if "DSW".toList.contains c then some (.kind true, rest)
      else if c = 'p' ∨ c = 'P' then
        (afterCategory? flags rest).map fun after => (.category, after)
      else if c = 'A' ∨ c = 'z' then some (.textEdge, rest)
      else if "bB<>".toList.contains c then some (.wordEdge, rest)
      else if isEscapable c then some (.char c false, rest)
      else (control? c).map fun control => (.char control false, rest)

end BlockShading.Log.Pattern
