/-!
# Colors and their hexadecimal form

A `Color` has four channels of eight bits; an `Rgb` is an opaque color ready to be drawn.
Colors are written `#RRGGBB` when opaque and `#RRGGBBAA` otherwise. Reading is more lenient
than writing: any number of leading `#` may stand in front, digits may have either case, and a
pair of characters may also be a plus sign and one digit.
-/

namespace BlockShading

structure Color where
  r : UInt8
  g : UInt8
  b : UInt8
  a : UInt8
  deriving DecidableEq, Repr, Inhabited

structure Rgb where
  r : UInt8
  g : UInt8
  b : UInt8
  deriving DecidableEq, Repr, Inhabited

inductive ColorError where
  /-- The text has the wrong length or holds a character outside ASCII. -/
  | format (text : String)
  /-- The length fits, but some pair of characters is not a channel. -/
  | digit
  deriving DecidableEq, Repr

namespace ColorError

def message : ColorError → String
  | format text => "Invalid color format: " ++ text
  | digit => "invalid digit found in string"

end ColorError

namespace Hex

def digit? (c : Char) : Option UInt8 :=
  if '0' ≤ c ∧ c ≤ '9' then some (c.toNat - '0'.toNat).toUInt8
  else if 'a' ≤ c ∧ c ≤ 'f' then some (c.toNat - 'a'.toNat + 10).toUInt8
  else if 'A' ≤ c ∧ c ≤ 'F' then some (c.toNat - 'A'.toNat + 10).toUInt8
  else none

/-- The channel that two characters stand for: two digits, or a plus sign and one digit. -/
def channel? (high low : Char) : Option UInt8 :=
  if high = '+' then digit? low
  else (digit? high).bind fun h => (digit? low).map fun l => h * 16 + l

def channels? : List Char → Option (List UInt8)
  | [] => some []
  | [_] => none
  | high :: low :: rest =>
    (channel? high low).bind fun value => (channels? rest).map (value :: ·)

/-- The upper-case digit of a value below sixteen. -/
def upperDigit (value : Nat) : Char :=
  if value < 10 then Char.ofNat ('0'.toNat + value) else Char.ofNat ('A'.toNat + (value - 10))

def pair (value : UInt8) : List Char :=
  [upperDigit (value.toNat / 16), upperDigit (value.toNat % 16)]

end Hex

namespace Color

def opaqueOf (r g b : UInt8) : Color := ⟨r, g, b, 255⟩

def isAscii (cs : List Char) : Bool := cs.all fun c => c.toNat < 128

/-- Reads a color from its digits, with or without leading `#`. -/
def ofHex (text : String) : Except ColorError Color :=
  let digits := text.toList.dropWhile (· == '#')
  if !isAscii digits then .error (.format text)
  else if digits.length = 6 ∨ digits.length = 8 then
    match Hex.channels? digits with
    | some [r, g, b] => .ok (opaqueOf r g b)
    | some [r, g, b, a] => .ok ⟨r, g, b, a⟩
    | _ => .error .digit
  else .error (.format text)

/-- Writes `#RRGGBB` for an opaque color and `#RRGGBBAA` for any other. -/
def toHex (c : Color) : String :=
  String.ofList <| '#' :: (Hex.pair c.r ++ Hex.pair c.g ++ Hex.pair c.b ++
    if c.a = 255 then [] else Hex.pair c.a)

end Color

namespace Rgb

def toColor (c : Rgb) : Color := Color.opaqueOf c.r c.g c.b

def toHex (c : Rgb) : String :=
  String.ofList ('#' :: (Hex.pair c.r ++ Hex.pair c.g ++ Hex.pair c.b))

end Rgb

end BlockShading
