import BlockShading.Log.Pattern.Flags
import BlockShading.Log.Pattern.Parts
import BlockShading.Text.Alphanumeric

/-!
# Groups of a pattern

A group stands between parentheses. It may have a name or flags of its own; parentheses with flags
and nothing else are no group but set flags from there on.
-/

namespace BlockShading.Log.Pattern

inductive Opening where
  /-- A group, with its name if it has one, and the flags in it. -/
  | group (name : Option (List Char)) (flags : Flags)
  /-- Flags for the rest of the group around. -/
  | setting (flags : Flags)
  deriving DecidableEq, Repr

def isGroupName : List Char → Bool
  | [] => false
  | c :: rest =>
    (c == '_' || Text.isAlphabetic c) &&
      rest.all fun d => d == '_' || d == '.' || d == '[' || d == ']' || Text.isAlphanumeric d

def groupName? (cs : List Char) : Option (List Char × List Char) :=
  let name := cs.takeWhile (· != '>')
  match cs.drop name.length with
  | _ :: rest => if isGroupName name then some (name, rest) else none
  | [] => none

def groupFlags? (flags : Flags) (cs : List Char) : Option (Opening × List Char) :=
  let letters := cs.takeWhile fun c => c != ':' && c != ')'
  if Flags.areLetters letters then
    match cs.drop letters.length with
    | [] => none
    | ':' :: rest => some (.group none (flags.set letters), rest)
    | _ :: rest => if letters.isEmpty then none else some (.setting (flags.set letters), rest)
  else none

def opening? (flags : Flags) (cs : List Char) : Option (Opening × List Char) :=
  match flags.skip cs with
  | '?' :: 'P' :: '<' :: rest =>
    (groupName? rest).map fun (name, after) => (.group (some name) flags, after)
  | '?' :: '<' :: rest =>
    (groupName? rest).map fun (name, after) => (.group (some name) flags, after)
  | '?' :: rest => groupFlags? flags rest
  | rest => some (.group none flags, rest)

structure Level where
  /-- The flags in force. -/
  flags : Flags
  /-- The height of the branches before the last bar, if there is one. -/
  branches : Option Nat
  /-- The parts since then. -/
  parts : Parts
  /-- The height of the last part, if it may be repeated. -/
  last : Option Nat
  deriving DecidableEq, Repr

namespace Level

def opened (flags : Flags) : Level := ⟨flags, none, .none, none⟩

def add (level : Level) (height : Nat) : Level :=
  { level with parts := level.parts.add height, last := some height }

/-- The group with flags for its rest. They count as a part, but not as one to be repeated. -/
def setFlags (level : Level) (flags : Flags) : Level :=
  { level with flags := flags, parts := level.parts.add 0, last := none }

def repeatLast? (level : Level) : Option Level :=
  level.last.map fun height =>
    { level with parts := level.parts.raise (height + 1), last := some (height + 1) }

def branch (level : Level) : Level :=
  let height := max (level.branches.getD 0) level.parts.total
  { level with branches := some height, parts := .none, last := none }

def height (level : Level) : Nat := joined level.branches level.parts.total

end Level

end BlockShading.Log.Pattern
