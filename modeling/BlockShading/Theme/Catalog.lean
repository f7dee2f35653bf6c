import BlockShading.Log
import BlockShading.Theme.Basic

/-!
# Theme catalogs

Themes come from a directory of the user and from the built-in ones. Loading a name looks for a
file of that name with the extension `yaml` first. Listing goes through the files with the
extension `yaml` or `yml` in the order of their names, one entry for each stem, and then through
the built-in themes whose name has not occurred. The title of a listed file is what follows `name:`
on the first line that begins so; the file is not read as YAML for it.
-/

namespace BlockShading

inductive ThemeSource where
  | user
  | builtin
  deriving DecidableEq, Repr

structure ThemeEntry where
  id : String
  title : String
  source : ThemeSource
  deriving DecidableEq, Repr

namespace Theme

def ofFile (tree : FileTree) (path : Path) : Except ThemeError Theme :=
  match tree.readText path with
  | .error cause => .error (.unreadable path cause)
  | .ok text => ofYaml text

def userFile (directory : Path) (id : String) : Path := directory.join (id ++ ".yaml")

/-- Loads a theme by name: the file of the user if there is one, else the built-in theme. -/
def load (tree : FileTree) (directory : Path) (id : String) : Logged (Except ThemeError Theme) :=
  let path := userFile directory id
  if tree.has path then
    ⟨ofFile tree path, [Log.note .info .themes s!"Loading user theme from {path.text}"]⟩
  else ⟨builtin id, [Log.note .info .themes s!"Loading builtin theme: {id}"]⟩

/-- The title on a line that begins with `name:`, white space and quotes around it removed. -/
def titleOnLine? (line : List Char) : Option String :=
  (Text.after? "name:".toList (Text.trim line)).map fun value =>
    String.ofList
      (Text.trimBoth (· == '\x27') (Text.trimBoth (· == '\x22') (Text.trim value)))

def title? (text : String) : Option String :=
  (Text.splitOn '\n' text.toList).findSome? titleOnLine?

def isListed (name : String) : Bool :=
  match (Path.splitName name).2 with
  | some extension => extension == "yaml" || extension == "yml"
  | none => false

def stemOf (name : String) : String := (Path.splitName name).1

def listedFiles (tree : FileTree) (directory : Path) : List String :=
  match tree.readDir directory with
  | .error _ => []
  | .ok entries =>
    ((entries.map Entry.name).filter isListed).mergeSort fun x y =>
      Text.precedes x.toList y.toList

def userEntry (tree : FileTree) (directory : Path) (name : String) : ThemeEntry :=
  let id := stemOf name
  let title := match tree.readText (directory.join name) with
    | .ok text => (title? text).getD id
    | .error _ => id
  ⟨id, title, .user⟩

def firstOfEach : List String → List ThemeEntry → List ThemeEntry
  | _, [] => []
  | seen, entry :: rest =>
    if seen.contains entry.id then firstOfEach seen rest
    else entry :: firstOfEach (entry.id :: seen) rest

/-- Every theme that may be loaded: those of the user, then the built-in ones. -/
def list (tree : FileTree) (directory : Path) : List ThemeEntry :=
  firstOfEach [] <|
    (listedFiles tree directory).map (userEntry tree directory) ++
    builtins.map fun (id, theme) => ⟨id, theme.name, .builtin⟩

end Theme

end BlockShading
