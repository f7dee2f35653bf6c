import BlockShading.Yaml.Node

/-!
# Values of YAML nodes

How a node is read where a text, an optional text, a truth value, a number or a record is wanted.
Only plain scalars are read as anything but a text; a block scalar is, too, if its tag says so.
-/

namespace BlockShading.Yaml

def isNullWord (text : String) : Bool :=
  text == "null" || text == "Null" || text == "NULL" || text == "~"

def boolWord? : String → Option Bool
  | "true" => some true
  | "True" => some true
  | "TRUE" => some true
  | "false" => some false
  | "False" => some false
  | "FALSE" => some false
  | _ => none

/-- Whether a text is a zero with more digits after it, behind an optional sign. -/
def hasLeadingZero (cs : List Char) : Bool :=
  match Text.dropSign cs with
  | '0' :: next :: rest => (next :: rest).all Char.isDigit
  | _ => false

def naturalWord? (text : String) : Option Nat :=
  let cs := text.toList
  let unsigned := Text.dropPlus cs
  let based := match unsigned with
    | '0' :: 'x' :: rest => Text.number? 16 rest
    | '0' :: 'o' :: rest => Text.number? 8 rest
    | '0' :: 'b' :: rest => Text.number? 2 rest
    | _ => none
  if based.isSome then based
  else if hasLeadingZero cs then none
  else Text.number? 10 unsigned

def standardTag (name : String) : String := "tag:yaml.org,2002:" ++ name

namespace Document

variable (document : Document)

def text? (node : Node) : Option String :=
  match document.follow node with
  | .scalar _ _ text => some text
  | _ => none

def typedText? (type : String) (node : Node) : Option String :=
  match document.follow node with
  | .scalar .plain _ text => some text
  | .scalar .literal (some tag) text => if tag = standardTag type then some text else none
  | _ => none

/-- The text of a node, or no text where it is left empty or says so; `none` if it is neither. -/
def optionalText? (node : Node) : Option (Option String) :=
  match document.follow node with
  | .scalar .plain (some tag) text =>
    if tag = standardTag "null" then (if isNullWord text then some none else none)
    else some (some text)
  | .scalar .plain none text => if text = "" ∨ isNullWord text then some none else some (some text)
  | .scalar _ _ text => some (some text)
  | _ => none

def bool? (node : Node) : Option Bool := (document.typedText? "bool" node).bind boolWord?

def word32? (node : Node) : Option Nat :=
  ((document.typedText? "int" node).bind naturalWord?).bind fun n =>
    if n ≤ 4294967295 then some n else none

/-- The fields of a record by name. A mapping whose keys are all scalars is one, and an empty plain
scalar is a record without fields. -/
def fields? (node : Node) : Option (List (String × Node)) :=
  match document.follow node with
  | .mapping entries => entries.mapM fun (key, value) => (document.text? key).map (·, value)
  | .scalar .plain _ text => if text = "" then some [] else none
  | _ => none

/-- The value of a field that may be absent but must not occur twice. -/
def field? (fields : List (String × Node)) (name : String) : Option (Option Node) :=
  match fields.filter fun entry => entry.1 == name with
  | [] => some none
  | [entry] => some (some entry.2)
  | _ => none

end Document

end BlockShading.Yaml
