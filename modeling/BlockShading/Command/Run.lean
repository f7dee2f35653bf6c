import BlockShading.Command.Output
import BlockShading.Command.Plan
import BlockShading.Log.Filter
import BlockShading.ParseTree.Lower

/-!
# Running the command

A run is a function of the arguments, the environment, the files and a parser. Files are shaded
one after the other; the first that cannot be read, made into a tree or printed ends the run, and
what was printed up to there stays. A file without syntax trees is passed over with a warning.
-/

namespace BlockShading.Command

/-- What ends a run early: what was attempted, and why it failed. -/
structure Failure where
  attempt : String
  cause : Option String
  deriving DecidableEq, Repr

/-- What a run works with: the files, and the parse tree of each source that has one. -/
structure World where
  files : FileTree
  environment : Environment
  parse : String → Option ParseTree

structure Job where
  world : World
  palette : Palette
  indentGuides : Bool
  format : Format

structure Outcome where
  exit : Nat
  stdout : String
  stderr : List String
  deriving DecidableEq, Repr

namespace Failure

def lines (failure : Failure) : List String :=
  ("Error: " ++ failure.attempt) ::
  match failure.cause with
  | none => []
  | some cause =>
    "" :: "Caused by:" ::
      (Text.splitOn '\n' cause.toList).map fun line => "    " ++ String.ofList line

end Failure

def Job.treeOf (job : Job) (source : String) : Logged (Except String SyntaxTree) :=
  match job.world.parse source with
  | none => Logged.quiet (.error "parser produced no tree")
  | some tree =>
    let lowered := tree.lowerLogged source
    ⟨lowered.value.mapError TreeError.message, lowered.events⟩

/-- What is printed for a source with its tree, and the failure if it breaks off. -/
def Job.shade (job : Job) (file : RawPath) (source : String) (tree : SyntaxTree) :
    Logged (String × Option Failure) :=
  let lines := LineIndex.ofString source
  let state := Pass.annotate ⟨tree, job.palette, ⟨lines, job.indentGuides⟩⟩
  let decorations := state.decorations.toList
  let printed := match job.format with
    | .text => (textOutput file.shown lines decorations, none)
    | .json => jsonOutput file decorations state.report.violations.length
  ⟨(printed.1, printed.2.map fun error => ⟨error.message, none⟩), state.events.toList⟩

def Job.annotateFile (job : Job) (file : RawPath) : Logged (String × Option Failure) :=
  let language := Language.ofPath file.shown
  if language.hasTrees then
    match job.world.files.readFile file with
    | .error cause =>
      Logged.quiet ("", some ⟨s!"Failed to read {file.text}", some cause.message⟩)
    | .ok source => do
      match ← job.treeOf source with
      | .error cause => return ("", some ⟨s!"Failed to parse {file.text}", some cause⟩)
      | .ok tree => job.shade file source tree
  else
    ⟨("", none), [Log.note .warn .command
      s!"Skipping {file.text}: no syntax trees for {language.displayName}"]⟩

/-- What is printed for files in order, up to the first failure. -/
def Job.annotateFiles (job : Job) : List RawPath → Logged (String × Option Failure)
  | [] => Logged.quiet ("", none)
  | file :: rest => do
    let (output, failure) ← job.annotateFile file
    match failure with
    | some failure => return (output, some failure)
    | none =>
      let (more, failure) ← job.annotateFiles rest
      return (output ++ more, failure)

def World.loadTheme (world : World) (id : String) : Logged (Except ThemeError Theme) :=
  match world.environment.themesDir? with
  | some directory => Theme.load world.files directory id
  | none => Logged.quiet (Theme.builtin id)

def World.themes (world : World) : List ThemeEntry :=
  Theme.list world.files (world.environment.themesDir?.getD ⟨""⟩)

/-- Carries out a plan: what is printed, and the failure that ended it. -/
def World.perform (world : World) (plan : Plan) : Logged (String × Option Failure) :=
  match plan.mode with
  | .listThemes => Logged.quiet (String.join (world.themes.map (endLine ∘ themeLine)), none)
  | .annotate files => do
    match ← world.loadTheme plan.theme with
    | .error cause =>
      return ("", some ⟨s!"Failed to load theme '{plan.theme}'", some cause.message⟩)
    | .ok theme =>
      let palette := Palette.make (plan.background.getD theme.background) theme.blocks
      Job.annotateFiles ⟨world, palette, plan.indentGuides, plan.format⟩ files

def World.act (world : World) (args : Arguments) : Logged (String × Option Failure) := do
  let settings ← Settings.load world.environment world.files
  match Plan.make args settings world.files with
  | .error e => return ("", some ⟨e.message, none⟩)
  | .ok plan => world.perform plan

/-- The files once the directory of log files has been made, and a note if it could not be; nothing
if no file can be opened in it. -/
def World.prepare? (world : World) : Option (World × List String) :=
  match world.environment.makeLogsDir world.files with
  | (.ok logs, made) =>
    if Environment.canLogIn logs then some ({ world with files := made }, []) else none
  | (.error e, made) =>
    some ({ world with files := made }, ["blocktint: file logging disabled: " ++ e.message])

def Outcome.aborted : Outcome := ⟨101, "", []⟩

def usageOutcome (notes : List String) : UsageError → Outcome
  | .displayHelp => ⟨0, helpText, notes⟩
  | .displayVersion => ⟨0, versionText, notes⟩
  | _ => ⟨2, "", notes ++ ["error: invalid arguments", "", "For more information, try '--help'."]⟩

/-- Acts on arguments, showing the events that pass the filter. -/
def World.run (world : World) (filter : Log.Filter) (notes args : List String) : Outcome :=
  match Arguments.parse args with
  | .error e => usageOutcome notes e
  | .ok args =>
    let result := world.act args
    let shown := (result.events.filter filter.shows).map Log.Event.line
    match result.value.2 with
    | none => ⟨0, result.value.1, notes ++ shown⟩
    | some failure => ⟨1, result.value.1, notes ++ shown ++ failure.lines⟩

/-- Runs the command. The log is set up before the arguments are looked at: `setting` says which
events are shown. -/
def run (world : World) (setting : Option String) (args : List String) : Outcome :=
  match Log.Filter.ofSetting? setting, world.prepare? with
  | some filter, some (world, notes) => world.run filter notes args
  | _, _ => .aborted

end BlockShading.Command
