import BlockShading.Log.Pattern.CharClass
import BlockShading.Log.Pattern.Group

/-!
# Value patterns

The value that a directive asks of a field is a number, a truth value or a pattern. Only whether a
pattern is well formed matters here: its groups and classes are closed, whatever is repeated is
there, every escape is one, no two groups have one name, nothing is used that the flags forbid, and
it has no more levels than are allowed. Counted repetitions and classes named in braces do not
occur, since a brace ends the field.
-/

namespace BlockShading.Log.Pattern

structure Reader where
  /-- The innermost group. -/
  level : Level
  /-- The groups around it. -/
  outer : List Level
  /-- The names of groups so far. -/
  names : List (List Char)
  deriving DecidableEq, Repr

namespace Reader

def initial : Reader := ⟨.opened .initial, [], []⟩

def add (reader : Reader) (height : Nat) : Reader :=
  { reader with level := reader.level.add height }

/-- The reader after what an opening parenthesis begins; a name must be new. -/
def open? (reader : Reader) : Opening → Option Reader
  | .setting flags => some { reader with level := reader.level.setFlags flags }
  | .group name flags =>
    if name.any reader.names.contains then none
    else some ⟨.opened flags, reader.level :: reader.outer, name.toList ++ reader.names⟩

def close? (reader : Reader) : Option Reader :=
  match reader.outer with
  | [] => none
  | next :: more =>
    some { reader with level := next.add (reader.level.height + 1), outer := more }

def isRepetition (c : Char) : Bool := c == '?' || c == '*' || c == '+'

def afterLazy : List Char → List Char
  | '?' :: rest => rest
  | rest => rest

def step? (reader : Reader) (c : Char) (rest : List Char) : Option (Reader × List Char) :=
  let flags := reader.level.flags
  if c = '(' then
    (opening? flags rest).bind fun (opening, after) => (reader.open? opening).map (·, after)
  else if c = ')' then reader.close?.map (·, rest)
  else if c = '|' then some ({ reader with level := reader.level.branch }, rest)
  else if c = '[' then
    (charClass? flags rest).map fun (height, after) => (reader.add height, after)
  else if isRepetition c then
    reader.level.repeatLast?.map fun level => ({ reader with level := level }, afterLazy rest)
  else if c = '\x7b' then none
  else if c = '\x5c' then
    (escape? flags rest).bind fun (atom, after) =>
      if atom.isPart flags then some (reader.add 0, after) else none
  else if c = '.' && !flags.unicode then none
  else some (reader.add 0, rest)

def height? : Nat → Reader → List Char → Option Nat
  | 0, _, _ => none
  | fuel + 1, reader, cs =>
    match reader.level.flags.skip cs with
    | [] => if reader.outer.isEmpty then some reader.level.height else none
    | c :: rest => (reader.step? c rest).bind fun (next, after) => height? fuel next after

end Reader

def isWellFormed (cs : List Char) : Bool :=
  (Reader.initial.height? (cs.length + 1) cs).any (· ≤ maxHeight)

/-- Whether a text is a number, which needs no pattern even if it begins with a plus sign. -/
def isNumber (cs : List Char) : Bool :=
  (Text.decimal? cs).isSome ||
    ["inf", "infinity", "nan"].contains (String.ofList ((Text.dropSign cs).map Char.toLower))

/-- Whether a text may be the value that a directive asks for. -/
def isValue (cs : List Char) : Bool := isNumber cs || isWellFormed cs

end BlockShading.Log.Pattern
