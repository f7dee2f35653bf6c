import BlockShading.Text.Words

/-!
# File paths

A path is kept as it was written. Its segments are the texts between slashes; its steps are the
segments that mean something: empty segments and inner `.` are dropped, as are slashes at the end.
The file name is the last step if that step is a name, and the extension is what follows the last
dot of the file name, unless that dot is also its first character.
-/

namespace BlockShading

open Text

structure Path where
  text : String
  deriving DecidableEq, Repr, Inhabited

namespace Path

inductive Step where
  /-- The root directory. -/
  | root
  /-- The current directory, only as the first step. -/
  | here
  /-- The parent directory. -/
  | up
  /-- An entry of a directory. -/
  | name (text : String)
  deriving DecidableEq, Repr

def segments (path : Path) : List String := (splitOn '/' path.text.toList).map String.ofList

def isAbsolute (path : Path) : Bool := path.text.toList.head? == some '/'

/-- The step that a segment stands for, if any. -/
def stepOf? (segment : String) : Option Step :=
  if segment = "" ∨ segment = "." then none
  else if segment = ".." then some .up
  else some (.name segment)

def steps (path : Path) : List Step :=
  let rest := path.segments.filterMap stepOf?
  if path.isAbsolute then .root :: rest
  else if path.segments.head? = some "." then .here :: rest
  else rest

def fileName? (path : Path) : Option String :=
  match path.steps.getLast? with
  | some (.name text) => some text
  | _ => none

/-- Cuts a file name at its last dot into stem and extension. -/
def splitName (name : String) : String × Option String :=
  let cs := name.toList
  let tail := (cs.reverse.takeWhile (· != '.')).reverse
  let stem := cs.take (cs.length - tail.length - 1)
  if cs.contains '.' && !stem.isEmpty then (String.ofList stem, some (String.ofList tail))
  else (name, none)

def extension? (path : Path) : Option String := path.fileName?.bind fun name => (splitName name).2

/-- Whether the segment at an index means something: it is a step, or a dot at the beginning. -/
def isStepAt (index : Nat) (segment : String) : Bool :=
  (stepOf? segment).isSome || (index == 0 && segment == ".")

def upTo (path : Path) (index : Nat) : Path :=
  ⟨String.intercalate "/" (path.segments.take (index + 1))⟩

/-- The paths above a path, the nearest first: one for each step before the last, and the root
directory of an absolute path. -/
def above (path : Path) : List Path :=
  let ends := (path.segments.zipIdx.filter fun (segment, index) => isStepAt index segment).map (·.2)
  ends.dropLast.reverse.map path.upTo ++
    if path.isAbsolute && !ends.isEmpty then [⟨"/"⟩] else []

def join (base : Path) (child : String) : Path :=
  if child.toList.head? = some '/' then ⟨child⟩
  else if base.text = "" ∨ base.text.toList.getLast? = some '/' then ⟨base.text ++ child⟩
  else ⟨base.text ++ "/" ++ child⟩

end Path

end BlockShading
