import BlockShading.Yaml.Value

/-!
# Writing YAML scalars

A text is written plain where that reads back as the same text, in single quotes where a plain
scalar would be read as something else, in double quotes where it holds characters that need an
escape, and as a block of lines where it holds line feeds.
-/

namespace BlockShading.Yaml

def isPrintable (c : Char) : Bool :=
  let n := c.toNat
  n == 10 || (0x20 ≤ n && n ≤ 0x7E) || (0xA0 ≤ n && n ≤ 0xD7FF) ||
    (0xE000 ≤ n && n ≤ 0xFFFD && n != 0xFEFF) || 0x10000 ≤ n

/-- Whether a decimal fraction is below the least number that no double holds. -/
def isFiniteDecimal (digits : List Char) (scale : Int) : Bool :=
  let significant := digits.dropWhile (· == '0')
  let magnitude := (significant.length : Int) + scale
  if significant.isEmpty || magnitude < 300 then true
  else if 400 < magnitude then false
  else
    let value := (Text.number? 10 significant).getD 0
    let bound := (Nat.pow 2 54 - 1) * Nat.pow 2 970
    value * Nat.pow 10 scale.toNat < bound * Nat.pow 10 (-scale).toNat

def isFloatWord (text : String) : Bool :=
  let cs := text.toList
  let unsigned := Text.dropPlus cs
  let doubleSign := match cs with
    | '+' :: c :: _ => c == '+' || c == '-'
    | _ => false
  let special := [".inf", ".Inf", ".INF"].contains (String.ofList unsigned) ||
    ["-.inf", "-.Inf", "-.INF", ".nan", ".NaN", ".NAN"].contains text
  !doubleSign && (special ||
    match Text.decimal? unsigned with
    | some (digits, scale) => isFiniteDecimal digits scale
    | none => false)

def isIntegerWord (text : String) : Bool :=
  match text.toList with
  | '-' :: '0' :: 'x' :: rest => (Text.number? 16 rest).any (· ≤ Nat.pow 2 127)
  | '-' :: '0' :: 'o' :: rest => (Text.number? 8 rest).any (· ≤ Nat.pow 2 127)
  | '-' :: '0' :: 'b' :: rest => (Text.number? 2 rest).any (· ≤ Nat.pow 2 127)
  | '-' :: rest =>
    !hasLeadingZero text.toList && (Text.number? 10 rest).any (· ≤ Nat.pow 2 127)
  | _ => (naturalWord? text).any (· < Nat.pow 2 128)

/-- Whether a plain scalar with this text would be read as something other than a text. -/
def isAmbiguous (text : String) : Bool :=
  text == "" || isNullWord text || (boolWord? text).isSome || isIntegerWord text ||
    hasLeadingZero text.toList || isFloatWord text

/-- Whether the character after the first of a text is white space or missing. -/
def gapSecond : List Char → Bool
  | _ :: c :: _ => isSpace c || isBreak c
  | _ => true

/-- Whether the first character, or the first three, would be taken for an indicator. -/
def beginsAsIndicator (cs : List Char) : Bool :=
  match cs with
  | [] => false
  | c :: _ =>
    "#,[]\x7b\x7d&*!|>\x27\x22%@\x60".toList.contains c ||
      ((c == '?' || c == ':' || c == '-') && gapSecond cs) ||
      cs.take 3 == ['-', '-', '-'] || cs.take 3 == ['.', '.', '.']

/-- Whether a colon before white space, or a number sign after it, would end a plain scalar. -/
def endsPlain : List Char → Bool
  | [] => false
  | c :: rest =>
    (match rest with
      | [] => false
      | d :: _ => (d == ':' && gapSecond rest) || ((isSpace c || isBreak c) && d == '#')) ||
    endsPlain rest

def adjacent (p q : Char → Bool) : List Char → Bool
  | c :: d :: rest => (p c && q d) || adjacent p q (d :: rest)
  | _ => false

def atEnds (p : Char → Bool) (cs : List Char) : Bool := cs.head?.any p || cs.getLast?.any p

def plainAllowed (cs : List Char) : Bool :=
  !(atEnds (fun c => c == ' ' || isBreak c) cs || cs.any isBreak || !cs.all isPrintable ||
    beginsAsIndicator cs || endsPlain cs)

def singleAllowed (cs : List Char) : Bool :=
  cs.all isPrintable && !adjacent isBreak (· == ' ') cs && !adjacent (· == ' ') isBreak cs

def literalAllowed (cs : List Char) : Bool :=
  cs.all isPrintable && !adjacent (· == ' ') isBreak cs && cs.getLast? != some ' '

def styleOf (text : String) : Style :=
  let cs := text.toList
  if cs.contains '\n' then (if literalAllowed cs then .literal else .double)
  else if !isAmbiguous text && plainAllowed cs then .plain
  else if singleAllowed cs then .single
  else .double

def paddedHex (width value : Nat) : List Char :=
  let digits := (Nat.toDigits 16 value).map Char.toUpper
  List.replicate (width - digits.length) '0' ++ digits

def escaped (c : Char) : List Char :=
  let n := c.toNat
  if isPrintable c && !isBreak c && c != '\x22' && c != '\x5c' then [c]
  else '\x5c' ::
    match c with
    | '\x00' => ['0']
    | '\x07' => ['a']
    | '\x08' => ['b']
    | '\t' => ['t']
    | '\n' => ['n']
    | '\x0b' => ['v']
    | '\x0c' => ['f']
    | '\r' => ['r']
    | '\x1b' => ['e']
    | '\x22' => ['\x22']
    | '\x5c' => ['\x5c']
    | '\u0085' => ['N']
    | '\u00a0' => ['_']
    | '\u2028' => ['L']
    | '\u2029' => ['P']
    | _ =>
      if n ≤ 0xFF then 'x' :: paddedHex 2 n
      else if n ≤ 0xFFFF then 'u' :: paddedHex 4 n
      else 'U' :: paddedHex 8 n

/-- Lines of a block begin with two blanks; `fresh` says whether one begins here. -/
def indented : Bool → List Char → List Char
  | _, [] => []
  | fresh, c :: rest =>
    if isBreak c then c :: indented true rest
    else (if fresh then [' ', ' ', c] else [c]) ++ indented false rest

/-- The text inside single quotes; what follows a break is indented by two blanks. -/
def singleQuoted : Bool → List Char → List Char
  | broken, [] => if broken then [' ', ' '] else []
  | broken, c :: rest =>
    if isBreak c then c :: singleQuoted true rest
    else (if broken then [' ', ' '] else []) ++
      (if c = '\x27' then ['\x27', '\x27'] else [c]) ++ singleQuoted false rest

/-- What stands after the bar of a block: its indentation if the first line could hide it, and what
becomes of the breaks at its end. -/
def literalHeader (cs : List Char) : List Char :=
  (if cs.head?.any fun c => c == ' ' || isBreak c then ['2'] else []) ++
  match cs.reverse with
  | last :: before :: _ =>
    if !isBreak last then ['-'] else if isBreak before then ['+'] else []
  | [last] => if isBreak last then ['+'] else ['-']
  | [] => ['-']

def writeText (text : String) : String :=
  let cs := text.toList
  String.ofList <|
    match styleOf text with
    | .plain => cs ++ ['\n']
    | .single => '\x27' :: singleQuoted false cs ++ ['\x27', '\n']
    | .double => '\x22' :: cs.flatMap escaped ++ ['\x22', '\n']
    | _ => '|' :: literalHeader cs ++ ('\n' :: indented true cs) ++
        (if cs.getLast?.any isBreak then [] else ['\n'])

def writeBool (value : Bool) : String := if value then "true\n" else "false\n"

end BlockShading.Yaml
