import BlockShading.Command.Run
import BlockShading.ParseTree.Rows

/-!
# The command

Reads from the disk what a run looks at, runs the command on it, and prints what it answers. The
parse tree of a source is taken from the file beside it whose name has `.rows` added.
-/

namespace BlockShading.Command

structure Gathered where
  files : FileTree
  /-- The parse trees by the text of their source. -/
  trees : List (String × ParseTree)

namespace Gathered

def addFile (gathered : Gathered) (path : Path) (content : Content) (rows : Option String) :
    Gathered where
  files := (gathered.files.writeWithParents path content).2
  trees :=
    match content, rows.bind ParseTree.ofText? with
    | .text source, some tree => (source, tree) :: gathered.trees
    | _, _ => gathered.trees

def addDir (gathered : Gathered) (path : Path) : Gathered :=
  { gathered with files := (gathered.files.makeDirs path).2 }

def readRows (path : Path) : IO (Option String) := do
  let beside := (← IO.currentDir) / (path.text ++ ".rows")
  if ← beside.pathExists then return some (← IO.FS.readFile beside) else return none

def readOne (gathered : Gathered) (path : Path) : IO Gathered := do
  let place := (← IO.currentDir) / path.text
  if ← place.isDir then return gathered.addDir path
  else if ← place.pathExists then
    let content := Content.ofBytes (← IO.FS.readBinFile place).toList
    return gathered.addFile path content (← readRows path)
  else return gathered

/-- Reads what a path leads to, with all that is below it, and what stands in its way. -/
def read (gathered : Gathered) (path : Path) : IO Gathered := do
  let mut gathered ← path.above.reverse.foldlM readOne gathered
  let mut left := [path]
  repeat
    match left with
    | [] => break
    | next :: rest =>
      gathered ← gathered.readOne next
      let place := (← IO.currentDir) / next.text
      let below ← if ← place.isDir then place.readDir else pure #[]
      left := below.toList.map (fun entry => next.join entry.fileName) ++ rest
  return gathered

end Gathered

/-- The paths that a run looks at: those of the arguments, and the settings of the user. -/
def pathsRead (environment : Environment) (args : List String) : List Path :=
  match Arguments.parse args with
  | .ok parsed => parsed.paths ++ environment.configDir?.toList
  | .error _ => []

def gather (environment : Environment) (args : List String) : IO World := do
  let here : Path := ⟨(← IO.currentDir).toString⟩
  let files := FileTree.workingIn (here.segments.filter (· != ""))
  let gathered ← (pathsRead environment args).foldlM Gathered.read ⟨files, []⟩
  return ⟨gathered.files, environment, fun source => gathered.trees.lookup source⟩

def makeLogs (environment : Environment) : IO Unit :=
  match environment.logsDir? with
  | some logs => try IO.FS.createDirAll logs.text catch _ => pure ()
  | none => pure ()

def Outcome.print (outcome : Outcome) : IO Unit := do
  IO.print outcome.stdout
  for line in outcome.stderr do
    IO.eprintln line

end BlockShading.Command

open BlockShading BlockShading.Command

def main (args : List String) : IO UInt32 := do
  let environment : Environment := ⟨← IO.getEnv "XDG_CONFIG_HOME", ← IO.getEnv "HOME"⟩
  let setting ← IO.getEnv "RUST_LOG"
  let world ← gather environment args
  if (Log.Filter.ofSetting? setting).isSome then
    makeLogs environment
  let outcome := run world setting args
  outcome.print
  return outcome.exit.toUInt32
