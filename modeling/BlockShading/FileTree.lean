import BlockShading.RawPath

/-!
# File trees

A file tree is the root directory with everything below it, as a value, and the place of the
working directory in it. A path is followed from the root if it is absolute and else from the
working directory: `.` and empty segments stay in a directory, `..` goes back to the directory
above, and a name leads to an entry. Every operation that cannot be carried out names its cause: a
fault in the text of the path comes first, then what stands in the way of its directory, and then
what is at its end.

Names in the tree are texts. What is at a path that is no text is kept beside the tree, by the bytes
of the path.
-/

namespace BlockShading

/-- What a file holds: a text, or bytes that are not the encoding of one. -/
inductive Content where
  | text (value : String)
  | binary (bytes : List UInt8)
  deriving DecidableEq, Repr, Inhabited

inductive Entry where
  | file (name : String) (content : Content)
  | dir (name : String) (entries : List Entry)
  deriving Repr, Inhabited

inductive FileError where
  | notFound
  | alreadyExists
  | notDirectory
  | isDirectory
  | tooLong
  | zeroCharacter
  | notText
  deriving DecidableEq, Repr

/-- The entries of the root directory, the names that lead to the working directory, and what is at
paths that are no texts. -/
structure FileTree where
  entries : List Entry
  here : List String
  strays : List (RawPath × Entry) := []
  deriving Repr, Inhabited

namespace FileError

def message : FileError → String
  | notFound => "No such file or directory (os error 2)"
  | alreadyExists => "File exists (os error 17)"
  | notDirectory => "Not a directory (os error 20)"
  | isDirectory => "Is a directory (os error 21)"
  | tooLong => "File name too long (os error 36)"
  | zeroCharacter => "file name contained an unexpected NUL byte"
  | notText => "stream did not contain valid UTF-8"

end FileError

namespace Content

def ofBytes (bytes : List UInt8) : Content :=
  match String.fromUTF8? (ByteArray.mk bytes.toArray) with
  | some value => text value
  | none => binary bytes

end Content

namespace Entry

def name : Entry → String
  | file name _ => name
  | dir name _ => name

def isDir : Entry → Bool
  | file _ _ => false
  | dir _ _ => true

def readText : Entry → Except FileError String
  | dir _ _ => .error .isDirectory
  | file _ (.binary _) => .error .notText
  | file _ (.text value) => .ok value

/-- Finds the entry that a list of names leads to, starting in a directory. -/
def find? (entries : List Entry) : List String → Option Entry
  | [] => none
  | [last] => entries.find? fun e => e.name == last
  | next :: rest =>
    match entries.find? fun e => e.name == next with
    | some (dir _ inner) => find? inner rest
    | _ => none

def insert (entry : Entry) : List Entry → List Entry
  | [] => [entry]
  | e :: rest => if e.name = entry.name then entry :: rest else e :: insert entry rest

def insertAt (entry : Entry) : List String → List Entry → List Entry
  | [], entries => insert entry entries
  | next :: rest, entries => entries.map fun e =>
    match e with
    | dir name inner => if name = next then dir name (insertAt entry rest inner) else e
    | file _ _ => e

end Entry

namespace FileTree

def nested : List String → List Entry
  | [] => []
  | name :: rest => [.dir name (nested rest)]

def workingIn (place : List String) : FileTree := { entries := nested place, here := place }

/-- The entry at a place given by names from the root, which is a directory itself. -/
def entryAt? (tree : FileTree) : List String → Option Entry
  | [] => some (.dir "" tree.entries)
  | names => Entry.find? tree.entries names

def isLongName (name : String) : Bool := 255 < Text.byteLength name.toList

/-- What is wrong with the text of a path, whatever there is: a character of value zero, 4096 bytes
or more, or nothing at all. -/
def fault? (path : Path) : Option FileError :=
  if path.text.toList.contains '\x00' then some .zeroCharacter
  else if 4096 ≤ Text.byteLength path.text.toList then some .tooLong
  else if path.text = "" then some .notFound
  else none

def follow (tree : FileTree) (place : List String) : List String → Except FileError (List String)
  | [] => .ok place
  | segment :: rest =>
    match tree.entryAt? place with
    | none => .error .notFound
    | some (.file _ _) => .error .notDirectory
    | some (.dir _ _) =>
      if segment = "" ∨ segment = "." then tree.follow place rest
      else if segment = ".." then tree.follow place.dropLast rest
      else if isLongName segment then .error .tooLong
      else
        match tree.entryAt? (place ++ [segment]) with
        | none => .error .notFound
        | some _ => tree.follow (place ++ [segment]) rest

def origin (tree : FileTree) (path : Path) : List String :=
  if path.isAbsolute then [] else tree.here

def locate (tree : FileTree) (path : Path) : Except FileError (List String) :=
  match fault? path with
  | some fault => .error fault
  | none => tree.follow (tree.origin path) path.segments

def entry (tree : FileTree) (path : Path) : Except FileError Entry :=
  match tree.locate path with
  | .error e => .error e
  | .ok place =>
    match tree.entryAt? place with
    | some found => .ok found
    | none => .error .notFound

def has (tree : FileTree) (path : Path) : Bool := (tree.entry path).isOk

def hasDir (tree : FileTree) (path : Path) : Bool :=
  match tree.entry path with
  | .ok found => found.isDir
  | .error _ => false

def readText (tree : FileTree) (path : Path) : Except FileError String :=
  match tree.entry path with
  | .error e => .error e
  | .ok found => found.readText

def readFile (tree : FileTree) (file : RawPath) : Except FileError String :=
  match file.path? with
  | some path => tree.readText path
  | none =>
    if file.bytes.contains 0 then .error .zeroCharacter
    else if 4096 ≤ file.bytes.length then .error .tooLong
    else
      match tree.strays.lookup file with
      | some found => found.readText
      | none => .error .notFound

@[simp] theorem readFile_ofPath (tree : FileTree) (path : Path) :
    tree.readFile (.ofPath path) = tree.readText path := by
  rw [readFile, RawPath.path?_ofPath]

def readDir (tree : FileTree) (path : Path) : Except FileError (List Entry) :=
  match tree.entry path with
  | .error e => .error e
  | .ok (.file _ _) => .error .notDirectory
  | .ok (.dir _ entries) => .ok entries

structure Ending where
  /-- The place of the directory. -/
  place : List String
  /-- The last segment; empty for the root directory. -/
  last : String
  /-- Whether slashes follow it. -/
  closed : Bool

/-- Follows a path up to its last segment, which must be in a directory. -/
def ending (tree : FileTree) (path : Path) : Except FileError Ending :=
  match fault? path with
  | some fault => .error fault
  | none =>
    let kept := (path.segments.reverse.dropWhile (· == "")).reverse
    match tree.follow (tree.origin path) kept.dropLast with
    | .error e => .error e
    | .ok place =>
      match tree.entryAt? place with
      | some (.dir _ _) =>
        .ok ⟨place, kept.getLast?.getD "", kept.length < path.segments.length⟩
      | some (.file _ _) => .error .notDirectory
      | none => .error .notFound

/-- Whether an ending is not a name but leads to a directory that is there already. -/
def Ending.isFixed (ending : Ending) : Bool :=
  ending.last = "" || ending.last = "." || ending.last = ".."

def entryAtEnding? (tree : FileTree) (ending : Ending) : Option Entry :=
  tree.entryAt? (ending.place ++ [ending.last])

def put (tree : FileTree) (place : List String) (entry : Entry) : FileTree :=
  { tree with entries := Entry.insertAt entry place tree.entries }

def makeDir (tree : FileTree) (path : Path) : Except FileError FileTree :=
  match tree.ending path with
  | .error e => .error e
  | .ok ending =>
    if ending.isFixed then .error .alreadyExists
    else if isLongName ending.last then .error .tooLong
    else if (tree.entryAtEnding? ending).isSome then .error .alreadyExists
    else .ok (tree.put ending.place (.dir ending.last []))

/-- Makes the first of some directories, where each is in the next one, and the others where they
are missing. What was made before a failure stays. -/
def makeNested (tree : FileTree) : List Path → Except FileError Unit × FileTree
  | [] => (.ok (), tree)
  | path :: outer =>
    match tree.makeDir path with
    | .ok made => (.ok (), made)
    | .error .notFound =>
      match tree.makeNested outer with
      | (.error e, reached) => (.error e, reached)
      | (.ok (), reached) =>
        match reached.makeDir path with
        | .ok made => (.ok (), made)
        | .error e => (if reached.hasDir path then .ok () else .error e, reached)
    | .error e => (if tree.hasDir path then .ok () else .error e, tree)

def makeDirs (tree : FileTree) (path : Path) : Except FileError Unit × FileTree :=
  if path.text = "" then (.ok (), tree) else tree.makeNested (path :: path.above)

/-- Makes the directory that holds the end of a path, and those above it. -/
def makeParents (tree : FileTree) (path : Path) : Except FileError Unit × FileTree :=
  tree.makeNested path.above

def write (tree : FileTree) (path : Path) (content : Content) : Except FileError FileTree :=
  match tree.ending path with
  | .error e => .error e
  | .ok ending =>
    if ending.isFixed || ending.closed then .error .isDirectory
    else if isLongName ending.last then .error .tooLong
    else
      match tree.entryAtEnding? ending with
      | some (.dir _ _) => .error .isDirectory
      | _ => .ok (tree.put ending.place (.file ending.last content))

/-- Writes a file after making the directories above it. What was made before a failure stays. -/
def writeWithParents (tree : FileTree) (path : Path) (content : Content) :
    Except FileError Unit × FileTree :=
  match tree.makeParents path with
  | (.error e, made) => (.error e, made)
  | (.ok (), made) =>
    match made.write path content with
    | .error e => (.error e, made)
    | .ok written => (.ok (), written)

end FileTree

end BlockShading
