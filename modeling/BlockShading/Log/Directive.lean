import BlockShading.Log
import BlockShading.Log.Pattern
import BlockShading.Text.Bytes
import BlockShading.Text.Words

/-!
# Directives of a log filter

A directive is `target[span{field=value}]=level`, where every part may be left out. It is read by
going through its characters once. White space around a directive is not gone through, but the
parts are cut from the text with the white space in it: a directive with blanks in front of it is
therefore cut too early and applies to nothing, or cannot be cut at all because a character stands
in the way.
-/

namespace BlockShading.Log

/-- The least severe level that is shown; `none` shows nothing. -/
abbrev Threshold := Option Level

structure FieldTest where
  name : List Char
  value : Option (List Char)
  deriving DecidableEq, Repr

/-- A threshold for events: those whose origin begins with a text, inside a span, with a field. -/
structure Directive where
  scope : Option (List Char)
  span : Option (List Char)
  field : Option FieldTest
  threshold : Threshold
  deriving DecidableEq, Repr

inductive DirectiveError where
  /-- It is none. -/
  | malformed
  /-- A part of it would have to be cut inside a character. -/
  | insideCharacter
  deriving DecidableEq, Repr

/-- How far a directive has been read. The numbers are byte offsets at which a part begins. -/
inductive Progress where
  | start
  /-- In a word that is a level or a scope. -/
  | word (first : Nat)
  | span (first : Nat)
  | field (first : Nat)
  /-- After the brace that closes a field. -/
  | fieldEnd
  /-- After the bracket that closes a span. -/
  | spanEnd
  | level (first : Nat)
  deriving DecidableEq, Repr

namespace Threshold

def ofNumber? : Nat → Option Threshold
  | 0 => some none
  | 1 => some (some .error)
  | 2 => some (some .warn)
  | 3 => some (some .info)
  | 4 => some (some .debug)
  | 5 => some (some .trace)
  | _ => none

def ofWord? (word : List Char) : Option Threshold :=
  match String.ofList (word.map Char.toLower) with
  | "off" => some none
  | "error" => some (some .error)
  | "warn" => some (some .warn)
  | "info" => some (some .info)
  | "debug" => some (some .debug)
  | "trace" => some (some .trace)
  | _ => none

def ofText? (text : List Char) : Option Threshold :=
  if text.all Char.isAlpha then ofWord? text
  else (Text.number? 10 (Text.dropPlus text)).bind ofNumber?

end Threshold

namespace FieldTest

/-- Reads a condition on a field: its name, and after an equals sign its value. What follows a
second equals sign is passed over. -/
def ofText? (text : List Char) : Option FieldTest :=
  match Text.splitOn '=' text with
  | name :: value :: _ => if Pattern.isValue value then some ⟨name, some value⟩ else none
  | [name] => some ⟨name, none⟩
  | [] => none

end FieldTest

namespace Directive

def everything : Directive := ⟨none, none, none, some .trace⟩

def mayBegin (c : Char) : Bool := c == '-' || c == ':' || c == '_' || Text.isAlphanumeric c

def cut (text : List Char) (first offset : Nat) : Except DirectiveError (List Char) :=
  match Text.slice? text first offset with
  | some part => .ok part
  | none => .error .insideCharacter

/-- Goes on by the character at a byte offset; parts that end there are cut from `text`. -/
def step (text : List Char) (offset : Nat) (c : Char) :
    Progress × Directive → Except DirectiveError (Progress × Directive)
  | (.start, read) =>
    if c = '[' then .ok (.span (offset + 1), read)
    else if mayBegin c then .ok (.word offset, read)
    else .error .malformed
  | (.word first, read) =>
    if c = '=' ∨ c = '[' then
      (cut text first offset).map fun scope =>
        (if c = '=' then .level (offset + 1) else .span (offset + 1),
          { read with scope := some scope })
    else .ok (.word first, read)
  | (.span first, read) =>
    if c = ']' then
      (cut text first offset).map fun span => (.spanEnd, { read with span := some span })
    else if c = '\x7b' then
      (cut text first offset).map fun span =>
        (.field (offset + 1), { read with span := if span = [] then none else some span })
    else .ok (.span first, read)
  | (.field first, read) =>
    if c = '\x7d' then
      (cut text first offset).bind fun field =>
        match FieldTest.ofText? field with
        | some test =>
          if field = [] then .error .malformed
          else .ok (.fieldEnd, { read with field := some test })
        | none => .error .malformed
    else .ok (.field first, read)
  | (.fieldEnd, read) => if c = ']' then .ok (.spanEnd, read) else .error .malformed
  | (.spanEnd, read) => if c = '=' then .ok (.level (offset + 1), read) else .error .malformed
  | (.level first, read) => .ok (.level first, read)

/-- Goes through characters, the first of which stands at a byte offset. -/
def steps (text : List Char) : List Char → Nat → Progress × Directive →
    Except DirectiveError (Progress × Directive)
  | [], _, state => .ok state
  | c :: rest, offset, state =>
    (step text offset c state).bind (steps text rest (offset + c.utf8Size))

/-- Ends a directive. A word on its own is a level, or else a scope in which everything is shown;
a level that is left out shows everything. -/
def finish (text : List Char) : Progress × Directive → Except DirectiveError Directive
  | (.word first, read) =>
    (cut text first (Text.byteLength text)).map fun word =>
      match Threshold.ofText? word with
      | some threshold => { read with threshold := threshold }
      | none => { read with scope := some word }
  | (.level first, read) =>
    (cut text first (Text.byteLength text)).bind fun level =>
      if level = [] then .ok read
      else
        match Threshold.ofText? level with
        | some threshold => .ok { read with threshold := threshold }
        | none => .error .malformed
  | (.spanEnd, read) => .ok read
  | _ => .error .malformed

def ofText (text : List Char) : Except DirectiveError Directive :=
  (steps text (Text.trim text) 0 (.start, everything)).bind (finish text)

/-- Whether a directive is about events at all: not those inside a span, nor those with a certain
value, since no event here is inside a span. -/
def isAboutEvents (directive : Directive) : Bool :=
  directive.span.isNone && directive.field.all (·.value.isNone)

def applies (directive : Directive) (event : Event) : Bool :=
  directive.isAboutEvents &&
    directive.scope.all (·.isPrefixOf event.origin.name.toList) &&
    directive.field.all fun test => event.fields.contains (String.ofList test.name)

/-- How long the scope is; a directive without one is the least specific. -/
def scopeRank (directive : Directive) : Nat :=
  match directive.scope with
  | none => 0
  | some scope => Text.byteLength scope + 1

/-- Whether the field of one directive comes before that of another or equals it. A directive
without a field comes first. -/
def fieldPrecedes (x y : Directive) : Bool :=
  match x.field, y.field with
  | none, _ => true
  | some _, none => false
  | some f, some g => Text.precedes f.name g.name

/-- Whether the first directive gives way to the second where both apply: it is not more specific,
that is, it has no longer scope, and with scopes of one length no later field. -/
def yields (x y : Directive) : Bool :=
  if x.scopeRank = y.scopeRank then fieldPrecedes x y else x.scopeRank < y.scopeRank

end Directive

end BlockShading.Log
