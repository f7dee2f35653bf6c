import BlockShading.Command.Arguments
import BlockShading.Decoration.Pass
import BlockShading.Theme.Catalog

/-!
# Output of the command

Decorations are printed one to a line, with positions counted from one, or as one line of JSON for
each file. JSON has no place for a path that is no text: the line ends where the path should stand.
Themes are listed in columns.
-/

namespace BlockShading.Command

def endLine (text : String) : String := text ++ "\n"

/-- A position as it is printed, line and column counted from one. -/
def positionText (lines : LineIndex) (offset : Nat) : String :=
  let (line, column) := lines.position offset
  s!"{line + 1}:{column + 1}"

def decorationLine (path : Path) (lines : LineIndex) (d : Decoration) : String :=
  let first := positionText lines d.extent.start
  let last := positionText lines d.extent.stop
  s!"{path.text}:{first}-{last} {d.category.name} {d.color.toHex}"

def textOutput (path : Path) (lines : LineIndex) (decorations : List Decoration) : String :=
  String.join (decorations.map fun d => endLine (decorationLine path lines d))

def lowerDigit (value : Nat) : Char :=
  if value < 10 then Char.ofNat ('0'.toNat + value) else Char.ofNat ('a'.toNat + (value - 10))

def jsonChar (c : Char) : List Char :=
  match c with
  | '\x22' => ['\x5c', '\x22']
  | '\x5c' => ['\x5c', '\x5c']
  | '\x08' => ['\x5c', 'b']
  | '\x0c' => ['\x5c', 'f']
  | '\n' => ['\x5c', 'n']
  | '\r' => ['\x5c', 'r']
  | '\t' => ['\x5c', 't']
  | _ =>
    if c.toNat < 32 then
      ['\x5c', 'u', '0', '0', lowerDigit (c.toNat / 16), lowerDigit (c.toNat % 16)]
    else [c]

def jsonString (text : String) : String :=
  String.ofList ('\x22' :: text.toList.flatMap jsonChar ++ ['\x22'])

def jsonObject (fields : List (String × String)) : String :=
  let members := fields.map fun (key, value) => jsonString key ++ ":" ++ value
  "\x7b" ++ String.intercalate "," members ++ "\x7d"

def jsonBool (value : Bool) : String := if value then "true" else "false"

def decorationJson (d : Decoration) : String :=
  jsonObject [
    ("range", jsonObject [("start", toString d.extent.start), ("end", toString d.extent.stop)]),
    ("color", jsonString d.color.toHex),
    ("category", jsonString d.category.name),
    ("style", jsonObject [("boxed", jsonBool d.style.boxed), ("bold", jsonBool d.style.bold)])]

inductive OutputError where
  | strayPath
  deriving DecidableEq, Repr

def OutputError.message : OutputError → String
  | strayPath => "path contains invalid UTF-8 characters"

/-- What is printed of a line of JSON before a path that has no place in it. -/
def brokenLine : String := "\x7b" ++ jsonString "path" ++ ":"

/-- The decorations of a file in JSON, with the number of skipped nodes. -/
def jsonOutput (file : RawPath) (decorations : List Decoration) (skipped : Nat) :
    String × Option OutputError :=
  match file.path? with
  | none => (brokenLine, some .strayPath)
  | some path =>
    (endLine <| jsonObject [
      ("path", jsonString path.text),
      ("decorations",
        "[" ++ String.intercalate "," (decorations.map decorationJson) ++ "]"),
      ("skipped", toString skipped)], none)

def sourceWord : ThemeSource → String
  | .user => "user"
  | .builtin => "builtin"

/-- A listed theme: its name, its title and where it comes from, in columns. -/
def themeLine (entry : ThemeEntry) : String :=
  s!"{Text.padRight 20 entry.id} {Text.padRight 24 entry.title} {sourceWord entry.source}"

def versionText : String := "blocktint 0.1.0\n"

def helpText : String := String.join <| [
  "Block-level background tints for Java sources",
  "",
  "Usage: blocktint [OPTIONS] [PATHS]...",
  "",
  "Arguments:",
  "  [PATHS]...  Java files or directories to annotate",
  "",
  "Options:",
  "  -t, --theme <ID>        Theme id (overrides config.yaml)",
  "  -b, --background <HEX>  Editor background as #RRGGBB (overrides the theme's)",
  "  -f, --format <FORMAT>   Output format [default: text] [possible values: text, json]",
  "      --list-themes       List available themes and exit",
  "      --no-indent-guides  Don't decorate leading whitespace inside if-blocks",
  "  -h, --help              Print help",
  "  -V, --version           Print version"].map endLine

end BlockShading.Command
