/-!
# Log events

What happens along the way is told in events, each with a severity and the part of the program it
comes from. A `Logged` value carries the events told while it was computed, in order; computing
further appends. Characters of a message that could control a terminal are spelled out when the
event is shown.
-/

namespace BlockShading

namespace Log

inductive Level where
  | trace
  | debug
  | info
  | warn
  | error
  deriving DecidableEq, Repr

inductive Origin where
  | command
  | settings
  | themes
  | session
  | lowering
  | pass
  deriving DecidableEq, Repr

/-- One thing told about a run: a message, and values that go with it under their names. -/
structure Event where
  level : Level
  origin : Origin
  message : String
  details : List (String × String)
  deriving DecidableEq, Repr

namespace Level

def name : Level → String
  | trace => "TRACE"
  | debug => "DEBUG"
  | info => "INFO"
  | warn => "WARN"
  | error => "ERROR"

/-- The rank of a level; a threshold lets through every level of at least its rank. -/
def rank : Level → Nat
  | trace => 0
  | debug => 1
  | info => 2
  | warn => 3
  | error => 4

end Level

namespace Origin

def path : Origin → List String
  | command => ["blocktint"]
  | settings => ["blocktint", "config"]
  | themes => ["blocktint", "theme"]
  | session => ["blocktint", "theme_state"]
  | lowering => ["blocktint", "tree", "java"]
  | pass => ["blocktint", "dispatch"]

def name (origin : Origin) : String := String.intercalate "::" origin.path

end Origin

def note (level : Level) (origin : Origin) (message : String) : Event :=
  ⟨level, origin, message, []⟩

/-- Whether a character could control a terminal. Line breaks and tabs are let through. -/
def isControl (c : Char) : Bool :=
  c == '\x07' || c == '\x08' || c == '\x0c' || c == '\x1b' || c == '\x7f' ||
    (0x80 ≤ c.toNat && c.toNat ≤ 0x9F)

/-- How a character is spelled out: by two hexadecimal digits, or from U+0080 on in braces. -/
def spelled (c : Char) : List Char :=
  let digits := Nat.toDigits 16 c.toNat
  if c.toNat < 0x80 then '\x5c' :: 'x' :: List.replicate (2 - digits.length) '0' ++ digits
  else '\x5c' :: 'u' :: '\x7b' :: digits ++ ['\x7d']

def printable (text : String) : String :=
  String.ofList (text.toList.flatMap fun c => if isControl c then spelled c else [c])

namespace Event

def fields (event : Event) : List String := "message" :: event.details.map Prod.fst

def line (event : Event) : String :=
  let details := event.details.map fun (name, value) => s!" {name}={value}"
  s!"{event.level.name} {event.origin.name}: {printable event.message}" ++ String.join details

end Event

end Log

/-- A value with the events told on the way to it. -/
structure Logged (α : Type) where
  value : α
  events : List Log.Event
  deriving Repr

namespace Logged

variable {α β : Type}

def quiet (value : α) : Logged α := ⟨value, []⟩

/-- Continues with the value and appends what the continuation tells. -/
def andThen (x : Logged α) (f : α → Logged β) : Logged β :=
  let y := f x.value
  ⟨y.value, x.events ++ y.events⟩

instance : Monad Logged where
  pure := quiet
  bind := andThen

def tell (level : Log.Level) (origin : Log.Origin) (message : String) : Logged Unit :=
  ⟨(), [Log.note level origin message]⟩

@[simp] theorem value_pure (a : α) : (pure a : Logged α).value = a := rfl

@[simp] theorem events_pure (a : α) : (pure a : Logged α).events = [] := rfl

@[simp] theorem value_bind (x : Logged α) (f : α → Logged β) :
    (x >>= f).value = (f x.value).value := rfl

@[simp] theorem events_bind (x : Logged α) (f : α → Logged β) :
    (x >>= f).events = x.events ++ (f x.value).events := rfl

end Logged

end BlockShading
