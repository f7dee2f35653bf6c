import BlockShading.Command.Arguments
import BlockShading.FileTree
import BlockShading.Language
import BlockShading.Settings.Basic
import BlockShading.Color

/-!
# What the command is to do

The arguments and the settings together say what to do. A path that is no directory is taken as it
is. A directory stands for the files below it that can be shaded, in the order of their paths
compared step by step.
-/

namespace BlockShading.Command

inductive Mode where
  | listThemes
  | annotate (files : List RawPath)
  deriving DecidableEq, Repr

structure Plan where
  mode : Mode
  theme : String
  /-- Replaces the background of the theme. -/
  background : Option Color
  format : Format
  indentGuides : Bool
  deriving DecidableEq, Repr

inductive PlanError where
  | background (cause : ColorError)
  | noInput
  deriving DecidableEq, Repr

namespace PlanError

def message : PlanError → String
  | background cause => s!"--background: {cause.message}"
  | noInput => "No input files"

end PlanError

def found (path : Path) : List Path := if (Language.ofPath path).hasTrees then [path] else []

mutual

/-- The files to shade at an entry that stands at the given path. A directory whose path is too long
to be followed is taken for a file. -/
def filesAt (path : Path) : Entry → List Path
  | .file _ _ => found path
  | .dir _ entries =>
    if (FileTree.fault? path).isNone then
      ((filesBelow path entries).mergeSort fun x y =>
        Text.precedes x.1.toList y.1.toList).flatMap (·.2)
    else found path

/-- The files to shade at each entry of a directory, with the name of the entry. -/
def filesBelow (path : Path) : List Entry → List (String × List Path)
  | [] => []
  | entry :: rest => (entry.name, filesAt (path.join entry.name) entry) :: filesBelow path rest

end

def expand (tree : FileTree) (path : Path) : List Path :=
  match tree.entry path with
  | .ok (.dir name entries) => filesAt path (.dir name entries)
  | _ => [path]

def readBackground (args : Arguments) : Except PlanError (Option Color) :=
  match args.background with
  | none => .ok none
  | some text =>
    match Color.ofHex text with
    | .error cause => .error (.background cause)
    | .ok color => .ok (some color)

namespace Plan

def make (args : Arguments) (settings : Settings) (tree : FileTree) : Except PlanError Plan :=
  match readBackground args with
  | .error e => .error e
  | .ok background =>
    if !args.listThemes && args.paths.isEmpty then .error .noInput
    else .ok {
      mode :=
        if args.listThemes then .listThemes
        else .annotate ((args.paths.flatMap (expand tree)).map .ofPath)
      theme := args.theme.getD settings.theme
      background := background
      format := args.format.getD .text
      indentGuides := settings.indentGuides && !args.noIndentGuides }

end Plan

end BlockShading.Command
