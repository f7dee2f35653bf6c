import BlockShading.Text.Words

/-!
# Flags of a pattern

A pattern may set flags, for a group or for the rest of the group it is in. Two of them matter for
its form: one lets blanks and comments stand between its parts, and the other says whether its
classes are made of characters or of single bytes.
-/

namespace BlockShading.Log.Pattern

/-- The flags in force at a place of a pattern, as far as they matter for its form. -/
structure Flags where
  /-- Whether blanks and comments are passed over. -/
  spaced : Bool
  /-- Whether classes are made of characters. Otherwise whatever might match a part of a character
  is refused. -/
  unicode : Bool
  deriving DecidableEq, Repr

namespace Flags

def initial : Flags := ⟨false, true⟩

/-- Whether letters may set flags: each of them at most once, and at most one hyphen, which does not
end them. -/
def areLetters (letters : List Char) : Bool :=
  letters.all ("imsUuRx-".toList.contains ·) && letters.Nodup && letters.getLast? != some '-'

/-- The value that letters give to a flag: those before a hyphen set it, and those after it clear
it. -/
def settle (letters : List Char) (letter : Char) (before : Bool) : Bool :=
  if letters.contains letter then (letters.takeWhile (· != '-')).contains letter else before

def set (flags : Flags) (letters : List Char) : Flags :=
  ⟨settle letters 'x' flags.spaced, settle letters 'u' flags.unicode⟩

/-- Passes blanks and comments. A comment goes from a number sign to the end of its line;
`inComment` says whether the text begins inside one. -/
def dropBlanks (inComment : Bool) : List Char → List Char
  | [] => []
  | c :: rest =>
    if inComment then dropBlanks (c != '\n') rest
    else if c = '#' then dropBlanks true rest
    else if Text.isBlank c then dropBlanks false rest
    else c :: rest

def skip (flags : Flags) (cs : List Char) : List Char :=
  if flags.spaced then dropBlanks false cs else cs

/-- The first character that is neither blank nor a number sign; a second number sign counts. -/
def firstMark? (seenSign : Bool) : List Char → Option Char
  | [] => none
  | c :: rest =>
    if Text.isBlank c then firstMark? seenSign rest
    else if c = '#' && !seenSign then firstMark? true rest
    else some c

/-- The character by which a hyphen in a class is judged. Comments are not passed over for it: what
stands in the comment is what counts. -/
def afterHyphen? (flags : Flags) (cs : List Char) : Option Char :=
  if flags.spaced then firstMark? false cs else cs.head?

end Flags

end BlockShading.Log.Pattern
