import BlockShading.Path

/-!
# Command-line arguments

Arguments are read from left to right. An option takes its value from the same argument or from the
next one, which must not look like an option itself; everything after `--` is a path. A value is
only looked at when the next option or the next path begins, so a later unknown option is reported
before an earlier bad value.
-/

namespace BlockShading.Command

inductive Format where
  | text
  | json
  deriving DecidableEq, Repr

inductive UsageError where
  | invalidValue
  | argumentConflict
  | unknownArgument
  | tooManyValues
  | displayHelp
  | displayVersion
  deriving DecidableEq, Repr

inductive OptionName where
  | theme
  | background
  | format
  deriving DecidableEq, Repr

inductive FlagName where
  | listThemes
  | noIndentGuides
  | help
  | version
  deriving DecidableEq, Repr

structure Arguments where
  paths : List Path := []
  theme : Option String := none
  background : Option String := none
  format : Option Format := none
  listThemes : Bool := false
  noIndentGuides : Bool := false
  deriving DecidableEq, Repr

inductive Pending where
  | nothing
  | option (name : OptionName) (value : Option String)
  | paths (values : List String)
  deriving DecidableEq, Repr

structure Parse where
  read : Arguments
  pending : Pending

namespace Format

def ofName? : String → Option Format
  | "text" => some text
  | "json" => some json
  | _ => none

end Format

namespace Parse

/-- Sets an option, which must not be set already. -/
def assign (read : Arguments) (name : OptionName) (value : String) :
    Except UsageError Arguments :=
  match name with
  | .theme =>
    if read.theme.isSome then .error .argumentConflict else .ok { read with theme := some value }
  | .background =>
    if read.background.isSome then .error .argumentConflict
    else .ok { read with background := some value }
  | .format =>
    if read.format.isSome then .error .argumentConflict
    else
      match Format.ofName? value with
      | some format => .ok { read with format := some format }
      | none => .error .invalidValue

/-- Looks at what is pending. An option needs a value, and no path may be empty. -/
def resolve (parse : Parse) : Except UsageError Arguments :=
  match parse.pending with
  | .nothing => .ok parse.read
  | .option _ none => .error .invalidValue
  | .option name (some value) => assign parse.read name value
  | .paths values =>
    if values.contains "" then .error .invalidValue
    else .ok { parse.read with paths := parse.read.paths ++ values.map Path.mk }

/-- Reads an option, with its value if that stands in the same argument. -/
def option (parse : Parse) (name : OptionName) (attached : Option String) :
    Except UsageError Parse := do
  let read ← parse.resolve
  match attached with
  | some value => return ⟨← assign read name value, .nothing⟩
  | none => return ⟨read, .option name none⟩

def flag (parse : Parse) (name : FlagName) : Except UsageError Parse := do
  let read ← parse.resolve
  match name with
  | .help => throw .displayHelp
  | .version => throw .displayVersion
  | .listThemes =>
    if read.listThemes then throw .argumentConflict
    return ⟨{ read with listThemes := true }, .nothing⟩
  | .noIndentGuides =>
    if read.noIndentGuides then throw .argumentConflict
    return ⟨{ read with noIndentGuides := true }, .nothing⟩

def path (parse : Parse) (text : String) : Except UsageError Parse :=
  match parse.pending with
  | .paths values => .ok { parse with pending := .paths (values ++ [text]) }
  | _ => parse.resolve.map fun read => ⟨read, .paths [text]⟩

def longName? : String → Option (OptionName ⊕ FlagName)
  | "theme" => some (.inl .theme)
  | "background" => some (.inl .background)
  | "format" => some (.inl .format)
  | "list-themes" => some (.inr .listThemes)
  | "no-indent-guides" => some (.inr .noIndentGuides)
  | "help" => some (.inr .help)
  | "version" => some (.inr .version)
  | _ => none

def shortName? : Char → Option (OptionName ⊕ FlagName)
  | 't' => some (.inl .theme)
  | 'b' => some (.inl .background)
  | 'f' => some (.inl .format)
  | 'h' => some (.inr .help)
  | 'V' => some (.inr .version)
  | _ => none

/-- Reads an argument that begins with two hyphens, given what follows them. -/
def long (parse : Parse) (text : List Char) : Except UsageError Parse :=
  let name := text.takeWhile (· != '=')
  let attached := if name.length < text.length then
      some (String.ofList (text.drop (name.length + 1)))
    else none
  match longName? (String.ofList name) with
  | none => .error .unknownArgument
  | some (.inl name) => parse.option name attached
  | some (.inr name) => if attached.isSome then .error .tooManyValues else parse.flag name

/-- Reads an argument that begins with one hyphen, given what follows it: flags of one letter, the
last of which may be an option with the rest as its value. -/
def short (parse : Parse) : List Char → Except UsageError Parse
  | [] => .ok parse
  | c :: rest =>
    match shortName? c with
    | none => .error .unknownArgument
    | some (.inr name) =>
      match parse.flag name with
      | .error e => .error e
      | .ok next => next.short rest
    | some (.inl name) =>
      parse.option name <|
        match rest with
        | [] => none
        | '=' :: value => some (String.ofList value)
        | value => some (String.ofList value)

/-- Reads an argument that is a value of the option before it, or a path. -/
def plain (parse : Parse) (text : String) : Except UsageError Parse :=
  match parse.pending with
  | .option name none => .ok { parse with pending := .option name (some text) }
  | _ => parse.path text

def all (onlyPaths : Bool) (parse : Parse) : List String → Except UsageError Arguments
  | [] => parse.resolve
  | text :: rest =>
    if onlyPaths then (parse.path text).bind fun next => all true next rest
    else
      match text.toList with
      | ['-', '-'] => all true parse rest
      | '-' :: '-' :: name => (parse.long name).bind fun next => all false next rest
      | '-' :: c :: names => (parse.short (c :: names)).bind fun next => all false next rest
      | _ => (parse.plain text).bind fun next => all false next rest

end Parse

namespace Arguments

def parse (args : List String) : Except UsageError Arguments := Parse.all false ⟨{}, .nothing⟩ args

end Arguments

end BlockShading.Command
