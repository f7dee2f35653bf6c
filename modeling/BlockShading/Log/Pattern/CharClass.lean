import BlockShading.Log.Pattern.Atom
import BlockShading.Log.Pattern.Parts

/-!
# Character classes of a pattern

A class stands between brackets. It holds characters, ranges, named classes and further classes in
brackets, and may be combined with others by a doubled `&`, `-` or `~`. At its beginning hyphens
stand for themselves, and so does a closing bracket that comes first.
-/

namespace BlockShading.Log.Pattern

structure Bracket where
  /-- The height of what stands before the last operator, if there is one. -/
  left : Option Nat
  /-- The members since then. -/
  members : Parts
  /-- Whether nothing but hyphens has been read. -/
  isFresh : Bool
  deriving DecidableEq, Repr

namespace Bracket

def opened : Bracket := ⟨none, .none, true⟩

def add (bracket : Bracket) (height : Nat) : Bracket :=
  { bracket with members := bracket.members.add height, isFresh := false }

def combine (bracket : Bracket) : Bracket :=
  ⟨some (joined bracket.left bracket.members.total), .none, false⟩

def height (bracket : Bracket) : Nat := joined bracket.left bracket.members.total + 1

/-- The class after a character that stands for itself only because it is at the beginning. -/
def addFirst? (bracket : Bracket) (c : Char) : Option Bracket :=
  if bracket.isFresh && c == '-' then
    some { bracket with members := bracket.members.add 0 }
  else if bracket.isFresh && c == ']' && bracket.members.count == 0 then some (bracket.add 0)
  else none

end Bracket

def afterCaret? (flags : Flags) (cs : List Char) : Option (List Char) :=
  match flags.skip cs with
  | '^' :: rest => if flags.unicode then some rest else none
  | rest => some rest

def member? (flags : Flags) : List Char → Option (Atom × List Char)
  | [] => none
  | '\x5c' :: rest => escape? flags rest
  | c :: rest => some (.char c false, rest)

/-- Whether two atoms are the ends of a range: characters in order. -/
def areEnds : Atom → Atom → Bool
  | .char first _, .char last _ => first.toNat ≤ last.toNat
  | _, _ => false

/-- Passes a member of a class or a range of them. A hyphen makes no range if the class ends after
it or another hyphen follows. -/
def afterRange? (flags : Flags) (cs : List Char) : Option (List Char) :=
  (member? flags cs).bind fun (first, rest) =>
    if first.isMember flags then
      match flags.skip rest with
      | '-' :: more =>
        if [some ']', some '-'].contains (flags.afterHyphen? more) then some ('-' :: more)
        else
          (member? flags (flags.skip more)).bind fun (last, after) =>
            if last.isMember flags && areEnds first last then some after else none
      | after => some after
    else none

def classNames : List String :=
  ["alnum", "alpha", "ascii", "blank", "cntrl", "digit", "graph", "lower", "print", "punct",
    "space", "upper", "word", "xdigit"]

/-- Reads a class named between colons, after its opening bracket: whether it is negated, and the
rest. -/
def named? : List Char → Option (Bool × List Char)
  | ':' :: rest =>
    let negated := rest.head? == some '^'
    let unsigned := if negated then rest.tail else rest
    let name := unsigned.takeWhile (· != ':')
    match unsigned.drop name.length with
    | ':' :: ']' :: after =>
      if classNames.contains (String.ofList name) then some (negated, after) else none
    | _ => none
  | _ => none

def isOperator (c : Char) : Bool := c == '&' || c == '-' || c == '~'

/-- Reads a class up to its end, `outer` being the classes around it: its height, and the rest. -/
def class? (flags : Flags) : Nat → Bracket → List Bracket → List Char → Option (Nat × List Char)
  | 0, _, _, _ => none
  | fuel + 1, bracket, outer, cs =>
    match flags.skip cs with
    | [] => none
    | c :: rest =>
      match bracket.addFirst? c with
      | some begun => class? flags fuel begun outer rest
      | none =>
        if c = ']' then
          match outer with
          | [] => some (bracket.height, rest)
          | next :: more => class? flags fuel (next.add bracket.height) more rest
        else if c = '[' then
          match named? rest with
          | some (negated, after) =>
            if flags.unicode || !negated then class? flags fuel (bracket.add 0) outer after
            else none
          | none =>
            (afterCaret? flags rest).bind (class? flags fuel .opened (bracket :: outer))
        else if isOperator c && rest.head? == some c then
          class? flags fuel bracket.combine outer rest.tail
        else (afterRange? flags (c :: rest)).bind (class? flags fuel (bracket.add 0) outer)

/-- Reads a class after its opening bracket: its height, and the rest. -/
def charClass? (flags : Flags) (cs : List Char) : Option (Nat × List Char) :=
  (afterCaret? flags cs).bind (class? flags (cs.length + 1) .opened [])

end BlockShading.Log.Pattern
