import BlockShading.Log.Directive

/-!
# Which events are shown

A filter is a list of directives. Of the directives that apply to an event the most specific one
counts, and of equally specific ones the last. An event to which none applies is not shown.
-/

namespace BlockShading.Log

abbrev Filter := List Directive

namespace Filter

def fromLevel (level : Level) : Filter := [{ Directive.everything with threshold := some level }]

/-- Reads directives with commas between them; only errors are shown if there are none. -/
def ofText (text : String) : Except DirectiveError Filter :=
  (((Text.splitOn ',' text.toList).filter (· != [])).mapM Directive.ofText).map fun filter =>
    if filter.isEmpty then fromLevel .error else filter

def warnings : Filter := fromLevel .warn

/-- The filter that a text asks for; warnings and errors if there is none or it makes no sense. A
text that would have to be cut inside a character gives no filter at all. -/
def ofSetting? (text : Option String) : Option Filter :=
  match text.map ofText with
  | none => some warnings
  | some (.ok filter) => some filter
  | some (.error .malformed) => some warnings
  | some (.error .insideCharacter) => none

/-- The directive that counts out of one chosen before and the next one. -/
def choose (chosen : Option Directive) (next : Directive) : Option Directive :=
  match chosen with
  | some directive => if directive.yields next then some next else chosen
  | none => some next

def directiveFor? (filter : Filter) (event : Event) : Option Directive :=
  (filter.filter (·.applies event)).foldl choose none

def shows (filter : Filter) (event : Event) : Bool :=
  match filter.directiveFor? event with
  | some directive => directive.threshold.any fun level => level.rank ≤ event.level.rank
  | none => false

end Filter

end BlockShading.Log
