import BlockShading.FileTree
import BlockShading.Palette
import BlockShading.Yaml.Value

/-!
# Themes

A theme names a background and may replace the stock color of any category. `ThemeData` is a theme
as it is written, its colors still texts; `Theme.ofData` reads them, the categories in their order
and the background last, and names the first that is not a color.
-/

namespace BlockShading

structure ThemeData where
  version : Nat
  name : String
  author : Option String
  description : Option String
  background : String
  blocks : PerCategory (Option String)
  deriving DecidableEq, Repr

structure Theme where
  name : String
  background : Color
  blocks : PerCategory Color
  deriving DecidableEq, Repr

inductive ThemeError where
  /-- The text is not YAML, or not a theme. -/
  | malformed
  /-- The color of a category is not one. -/
  | block (category : Category) (cause : ColorError)
  /-- The background is not a color. -/
  | background (cause : ColorError)
  /-- There is no theme of this name. -/
  | unknown (id : String)
  /-- The file cannot be read. -/
  | unreadable (path : Path) (cause : FileError)
  deriving DecidableEq, Repr

namespace ThemeError

def message : ThemeError → String
  | malformed => "YAML parse error"
  | block category cause => s!"blocks.{category.name}: {cause.message}"
  | background cause => s!"editor.background: {cause.message}"
  | unknown id => s!"Unknown theme id: {id}"
  | unreadable path cause => s!"Failed to read theme file {path.text}: {cause.message}"

end ThemeError

namespace ThemeData

open Yaml

def required? {α : Type} (fields : List (String × Yaml.Node)) (name : String)
    (read : Yaml.Node → Option α) : Option α :=
  (Document.field? fields name).bind fun value => value.bind read

def optional? {α : Type} (fields : List (String × Yaml.Node)) (name : String) (absent : α)
    (read : Yaml.Node → Option α) : Option α :=
  (Document.field? fields name).bind fun value =>
    match value with
    | none => some absent
    | some node => read node

def blocks? (document : Document) (node : Yaml.Node) : Option (PerCategory (Option String)) := do
  let fields ← document.fields? node
  let color (category : Category) : Option (Option String) :=
    optional? fields category.name none document.optionalText?
  some {
    importDecl := ← color .importDecl
    method := ← color .method
    statement := ← color .statement
    classDecl := ← color .classDecl
    condition := ← color .condition }

def background? (document : Document) (node : Yaml.Node) : Option String := do
  let fields ← document.fields? node
  required? fields "background" document.text?

def ofDocument? (document : Document) : Option ThemeData := do
  let fields ← document.fields? document.root
  some {
    version := ← required? fields "version" document.word32?
    name := ← required? fields "name" document.text?
    author := ← optional? fields "author" none document.optionalText?
    description := ← optional? fields "description" none document.optionalText?
    background := ← required? fields "editor" (background? document)
    blocks := ← optional? fields "blocks" (PerCategory.ofFn fun _ => none) (blocks? document) }

def ofYaml? (text : String) : Option ThemeData := (document? text).bind ofDocument?

end ThemeData

namespace Theme

def readBlock (data : ThemeData) (blocks : PerCategory Color) (category : Category) :
    Except ThemeError (PerCategory Color) :=
  match data.blocks.get category with
  | none => .ok blocks
  | some text =>
    match Color.ofHex text with
    | .error cause => .error (.block category cause)
    | .ok color => .ok (blocks.set category color)

def ofData (data : ThemeData) : Except ThemeError Theme :=
  match Category.all.foldlM (readBlock data) Category.baseColors with
  | .error e => .error e
  | .ok blocks =>
    match Color.ofHex data.background with
    | .error cause => .error (.background cause)
    | .ok background => .ok ⟨data.name, background, blocks⟩

def ofYaml (text : String) : Except ThemeError Theme :=
  match ThemeData.ofYaml? text with
  | none => .error .malformed
  | some data => ofData data

def palette (theme : Theme) : Palette := Palette.make theme.background theme.blocks

def defaultDark : Theme := ⟨"Default Dark", ⟨0x1E, 0x1E, 0x1E, 0xFF⟩, Category.baseColors⟩

/-- The light theme. The stock color of imports is almost invisible on white, so it is
replaced. -/
def defaultLight : Theme :=
  ⟨"Default Light", ⟨0xFF, 0xFF, 0xFF, 0xFF⟩,
    Category.baseColors.set .importDecl ⟨0xB0, 0xB8, 0xB4, 0x4D⟩⟩

def defaultDarkText : String :=
  Text.ofLines [
    "version: 1",
    "name: \"Default Dark\"",
    "author: \"blocktint\"",
    "description: \"Dark editor background with the stock block colors\"",
    "",
    "editor:",
    "  background: \"#1E1E1E\""]

def defaultLightText : String :=
  Text.ofLines [
    "version: 1",
    "name: \"Default Light\"",
    "author: \"blocktint\"",
    "description: \"Light editor background with the stock block colors\"",
    "",
    "editor:",
    "  background: \"#FFFFFF\"",
    "",
    "# Slightly stronger import tint; the stock one is almost invisible on white",
    "blocks:",
    "  import: \"#B0B8B44D\""]

def builtinTexts : List (String × String) :=
  [("default-dark", defaultDarkText), ("default-light", defaultLightText)]

/-- The themes that are always there, by name: what `builtinTexts` says. -/
def builtins : List (String × Theme) :=
  [("default-dark", defaultDark), ("default-light", defaultLight)]

def builtin (id : String) : Except ThemeError Theme :=
  match builtins.lookup id with
  | some theme => .ok theme
  | none => .error (.unknown id)

end Theme

end BlockShading
