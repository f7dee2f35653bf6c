import BlockShading.Text.Digits
import BlockShading.Yaml.Cursor

/-!
# Scalars of YAML text

The four ways of writing a scalar: plain, in single or double quotes, and as a block of lines that
are kept (`|`) or folded (`>`). White space inside a plain or quoted scalar is kept within a line;
a single line break becomes a space, and of several breaks the first is dropped.
-/

namespace BlockShading.Yaml

inductive Style where
  | plain
  | single
  | double
  | literal
  | folded
  deriving DecidableEq, Repr

structure Gap where
  /-- Blanks of the line before any break, the last first. -/
  blanks : List Char
  /-- The first line break. -/
  lead : List Char
  /-- The line breaks after the first, the last of them first. -/
  trail : List Char
  /-- Whether a line has ended. -/
  broken : Bool

namespace Gap

def none : Gap := ⟨[], [], [], false⟩

def text (gap : Gap) : List Char :=
  if gap.broken then
    if gap.lead = ['\n'] then (if gap.trail = [] then [' '] else gap.trail.reverse)
    else gap.lead ++ gap.trail.reverse
  else gap.blanks.reverse

/-- Reads white space; a tab before column `indent` on a later line is an error. -/
def read (indent : Nat) : Nat → Gap → Cursor → Option (Gap × Cursor)
  | 0, _, _ => Option.none
  | fuel + 1, gap, cur =>
    match cur.next? with
    | Option.none => some (gap, cur)
    | some c =>
      if isSpace c then
        if gap.broken then
          if c = '\t' ∧ cur.column < indent then Option.none else read indent fuel gap cur.skip
        else read indent fuel { gap with blanks := c :: gap.blanks } cur.skip
      else if isBreak c then
        let (kept, after) := cur.lineBreak
        if gap.broken then read indent fuel { gap with trail := kept ++ gap.trail } after
        else read indent fuel ⟨[], kept, gap.trail, true⟩ after
      else some (gap, cur)

end Gap

/-- Indicators of flow collections, which end a plain scalar inside one. -/
def isFlowIndicator (c : Char) : Bool :=
  c == ',' || c == '[' || c == ']' || c == '\x7b' || c == '\x7d'

/-- Reads the characters of a plain scalar up to white space or an indicator. -/
def plainWord (flow : Bool) : Nat → Cursor → Option (List Char × Cursor)
  | 0, _ => none
  | fuel + 1, cur =>
    match cur.next? with
    | none => some ([], cur)
    | some c =>
      if isSpace c || isBreak c then some ([], cur)
      else if flow && c == ':' && (cur.ahead? 1).any (fun d => isFlowIndicator d || d == '?') then
        none
      else if (c == ':' && cur.gapAhead 1) || (flow && isFlowIndicator c) then some ([], cur)
      else (plainWord flow fuel cur.skip).map fun (word, after) => (c :: word, after)

/-- Continues a plain scalar after a gap. The text is kept with its last character first. The second
part of the result says whether the scalar was followed by a line break. -/
def plainRest (flow : Bool) (indent : Nat) :
    Nat → List Char → Gap → Cursor → Option (List Char × Bool × Cursor)
  | 0, _, _, _ => none
  | fuel + 1, text, gap, cur =>
    if cur.atDocumentMarker || cur.isAt '#' then some (text, gap.broken, cur)
    else do
      let (word, cur) ← plainWord flow cur.bound cur
      let (text, gap) :=
        if word.isEmpty then (text, gap) else ((gap.text ++ word).reverse ++ text, Gap.none)
      if cur.atSpace || cur.atBreak then
        let (gap, cur) ← Gap.read indent cur.bound gap cur
        if !flow && cur.column < indent then some (text, gap.broken, cur)
        else plainRest flow indent fuel text gap cur
      else some (text, gap.broken, cur)

/-- Reads a plain scalar; outside flow collections its lines begin at column `indent` or later. -/
def plainScalar (flow : Bool) (indent : Nat) (cur : Cursor) : Option (List Char × Bool × Cursor) :=
  (plainRest flow indent cur.bound [] Gap.none cur).map fun (text, after) => (text.reverse, after)

def simpleEscape? : Char → Option Char
  | '0' => some '\x00'
  | 'a' => some '\x07'
  | 'b' => some '\x08'
  | 't' => some '\t'
  | '\t' => some '\t'
  | 'n' => some '\n'
  | 'v' => some '\x0b'
  | 'f' => some '\x0c'
  | 'r' => some '\r'
  | 'e' => some '\x1b'
  | ' ' => some ' '
  | '\x22' => some '\x22'
  | '/' => some '/'
  | '\x5c' => some '\x5c'
  | 'N' => some '\u0085'
  | '_' => some '\u00a0'
  | 'L' => some '\u2028'
  | 'P' => some '\u2029'
  | _ => none

def escapeDigits? : Char → Option Nat
  | 'x' => some 2
  | 'u' => some 4
  | 'U' => some 8
  | _ => none

def escape? (cur : Cursor) : Option (Char × Cursor) := do
  let letter ← cur.ahead? 1
  match escapeDigits? letter with
  | some count =>
    let digits := (cur.rest.drop 2).take count
    let value ← Text.number? 16 digits
    if digits.length = count ∧ value.isValidChar then
      some (Char.ofNat value, cur.skipBy (2 + count))
    else none
  | none => (simpleEscape? letter).map fun c => (c, cur.skipBy 2)

/-- Reads the characters of a quoted scalar up to white space or the closing quote. The flag of the
result says whether a backslash at the end of the line ended them. -/
def quotedWord (single : Bool) : Nat → Cursor → Option (List Char × Bool × Cursor)
  | 0, _ => none
  | fuel + 1, cur =>
    match cur.next? with
    | none => some ([], false, cur)
    | some c =>
      if isSpace c || isBreak c then some ([], false, cur)
      else if single && c == '\x27' && cur.ahead? 1 == some '\x27' then
        (quotedWord single fuel (cur.skipBy 2)).map fun (word, after) => ('\x27' :: word, after)
      else if c == (if single then '\x27' else '\x22') then some ([], false, cur)
      else if !single && c == '\x5c' then
        if (cur.ahead? 1).any isBreak then some ([], true, cur.skip.lineBreak.2)
        else do
          let (char, cur) ← escape? cur
          (quotedWord single fuel cur).map fun (word, after) => (char :: word, after)
      else (quotedWord single fuel cur.skip).map fun (word, after) => (c :: word, after)

/-- Continues a quoted scalar, whose text is kept with its last character first. -/
def quotedRest (single : Bool) : Nat → List Char → Cursor → Option (List Char × Cursor)
  | 0, _, _ => none
  | fuel + 1, text, cur =>
    if cur.atDocumentMarker || cur.rest.isEmpty then none
    else do
      let (word, joined, cur) ← quotedWord single cur.bound cur
      let text := word.reverse ++ text
      if cur.isAt (if single then '\x27' else '\x22') then some (text, cur.skip)
      else
        let (gap, cur) ← Gap.read 0 cur.bound { Gap.none with broken := joined } cur
        quotedRest single fuel (gap.text.reverse ++ text) cur

def quotedScalar (single : Bool) (cur : Cursor) : Option (List Char × Cursor) :=
  (quotedRest single cur.bound [] cur.skip).map fun (text, after) => (text.reverse, after)

/-- What happens to the line breaks at the end of a block scalar. -/
inductive Chomping where
  | strip
  | clip
  | keep
  deriving DecidableEq, Repr

def chomping? (cur : Cursor) : Option (Chomping × Cursor) :=
  if cur.isAt '+' then some (.keep, cur.skip)
  else if cur.isAt '-' then some (.strip, cur.skip)
  else none

/-- Reads the indentation of a block scalar, if given; zero is an error. -/
def indentHint? (cur : Cursor) : Option (Nat × Cursor) :=
  match cur.next? with
  | some c =>
    if c.isDigit then if c = '0' then none else some (c.toNat - '0'.toNat, cur.skip)
    else some (0, cur)
  | none => some (0, cur)

/-- Reads what stands after the indicator of a block scalar, in either order. -/
def blockHeader (cur : Cursor) : Option (Chomping × Nat × Cursor) :=
  match chomping? cur with
  | some (chomping, cur) => (indentHint? cur).map fun (hint, cur) => (chomping, hint, cur)
  | none => (indentHint? cur).map fun (hint, cur) =>
    match if hint = 0 then none else chomping? cur with
    | some (chomping, cur) => (chomping, hint, cur)
    | none => (.clip, hint, cur)

/-- Passes indentation and empty lines before a line of a block scalar, `widest` being the widest
indentation so far and `breaks` the breaks so far, the last first. An `indent` of zero is not yet
known. -/
def blockBreaks (indent : Nat) : Nat → Nat → List Char → Cursor → Option (Nat × List Char × Cursor)
  | 0, _, _, _ => none
  | fuel + 1, widest, breaks, cur =>
    let blanks := (cur.rest.takeWhile (· == ' ')).length
    let cur := cur.skipBy (if indent = 0 then blanks else min blanks (indent - cur.column))
    let widest := max widest cur.column
    if (indent = 0 ∨ cur.column < indent) ∧ cur.isAt '\t' then none
    else if cur.atBreak then
      let (kept, cur) := cur.lineBreak
      blockBreaks indent fuel widest (kept ++ breaks) cur
    else some (widest, breaks.reverse, cur)

/-- Reads the lines of a block scalar into a text with its last character first. `lead` is the break
before the current line, `trail` the empty lines after it, and `blank` says whether the line before
began with a blank. -/
def blockLines (folded : Bool) (indent : Nat) : Nat → List Char → List Char → List Char → Bool →
    Cursor → Option (List Char × List Char × List Char × Cursor)
  | 0, _, _, _, _, _ => none
  | fuel + 1, text, lead, trail, blank, cur =>
    if cur.column = indent ∧ !cur.rest.isEmpty then do
      let starts := cur.atSpace
      let joint :=
        if folded && lead == ['\n'] && !blank && !starts then (if trail = [] then [' '] else [])
        else lead
      let (line, cur) := cur.takeWhile fun c => !isBreak c
      let (lead', cur) := cur.lineBreak
      let (_, trail', cur) ← blockBreaks indent cur.bound 0 [] cur
      let text := (joint ++ trail ++ line).reverse ++ text
      blockLines folded indent fuel text lead' trail' starts cur
    else some (text, lead, trail, cur)

/-- Reads a block scalar, the cursor being at its indicator; `parent` is the indentation of the
block around it, if there is one. -/
def blockScalar (folded : Bool) (parent : Option Nat) (cur : Cursor) :
    Option (List Char × Cursor) := do
  let (chomping, hint, cur) ← blockHeader cur.skip
  let cur := cur.skipComment
  if !cur.atLineEnd then none
  else
    let cur := cur.lineBreak.2
    let given := if hint = 0 then 0 else parent.getD 0 + hint
    let (widest, breaks, cur) ← blockBreaks given cur.bound 0 [] cur
    let least := (parent.map (· + 1)).getD 0
    let indent := if given = 0 then max (max widest least) 1 else given
    let (text, lead, trail, cur) ←
      blockLines folded indent cur.bound [] [] breaks false cur
    let text := if chomping = .strip then text.reverse else text.reverse ++ lead
    some (if chomping = .keep then text ++ trail else text, cur)

end BlockShading.Yaml
