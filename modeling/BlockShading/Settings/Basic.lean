import BlockShading.Log
import BlockShading.Settings.Location
import BlockShading.Yaml.Writer

/-!
# Settings

The settings are the theme to use and whether indentation is shaded. They are read from a file that
may leave out either, and any problem with the file gives the default settings. They are written so
that reading gives them back.
-/

namespace BlockShading

structure Settings where
  theme : String
  indentGuides : Bool
  deriving DecidableEq, Repr

inductive SaveError where
  | noDirectory
  | directory (cause : FileError)
  | file (path : Path) (cause : FileError)
  deriving DecidableEq, Repr

namespace SaveError

def message : SaveError → String
  | noDirectory => "No config directory available"
  | directory cause => s!"Failed to create config directory: {cause.message}"
  | file path cause => s!"Failed to write config to {path.text}: {cause.message}"

end SaveError

namespace Settings

open Yaml

def default : Settings := ⟨"default-dark", true⟩

def ofDocument? (document : Document) : Option Settings := do
  let fields ← document.fields? document.root
  let theme ← Document.field? fields "theme"
  let guides ← Document.field? fields "indent_guides"
  some {
    theme := ← match theme with
      | none => some default.theme
      | some node => document.text? node
    indentGuides := ← match guides with
      | none => some default.indentGuides
      | some node => document.bool? node }

def ofYaml? (text : String) : Option Settings := (document? text).bind ofDocument?

def toYaml (settings : Settings) : String :=
  "theme: " ++ writeText settings.theme ++ "indent_guides: " ++ writeBool settings.indentGuides

/-- Loads settings from a file; the default ones if there is any problem. -/
def loadFrom (tree : FileTree) (path : Path) : Logged Settings :=
  let told (settings : Settings) (level : Log.Level) (message : String) : Logged Settings :=
    ⟨settings, [Log.note level .settings message]⟩
  if tree.has path then
    match tree.readText path with
    | .error cause =>
      told default .warn s!"Failed to read config at {path.text}: {cause.message}"
    | .ok text =>
      match ofYaml? text with
      | some settings => told settings .info s!"Loaded config from {path.text}"
      | none => told default .warn s!"Failed to parse config at {path.text}: malformed"
  else told default .debug s!"Config file not found at {path.text}, using defaults"

def load (env : Environment) (tree : FileTree) : Logged Settings :=
  match env.configFile? with
  | some path => loadFrom tree path
  | none => ⟨default, [Log.note .debug .settings "No config directory available, using defaults"]⟩

/-- Saves settings to a file, making its directory where it is missing. Whatever was made before a
failure stays. -/
def saveTo (settings : Settings) (tree : FileTree) (path : Path) :
    Logged (Except SaveError Unit × FileTree) :=
  match tree.makeParents path with
  | (.error cause, made) => Logged.quiet (.error (.directory cause), made)
  | (.ok (), made) =>
    match made.write path (.text settings.toYaml) with
    | .error cause => Logged.quiet (.error (.file path cause), made)
    | .ok written =>
      ⟨(.ok (), written), [Log.note .info .settings s!"Saved config to {path.text}"]⟩

def save (settings : Settings) (env : Environment) (tree : FileTree) :
    Logged (Except SaveError Unit × FileTree) :=
  match env.configFile? with
  | some path => settings.saveTo tree path
  | none => Logged.quiet (.error .noDirectory, tree)

end Settings

end BlockShading
