import BlockShading.Yaml.Scalar

/-!
# Tokens of YAML text

The tokens say where blocks begin and end, which follows from indentation, and which scalars are
keys, which is known only when a colon follows. A place where a key may begin is therefore kept as
a candidate until it is used or given up: a key must end on its line and within 1024 bytes.
-/

namespace BlockShading.Yaml

inductive Token where
  | version (major minor : Nat)
  | tagHandle (handle expansion : String)
  | documentStart
  | documentEnd
  | blockSequence
  | blockMapping
  | blockEnd
  | flowSequence
  | flowSequenceEnd
  | flowMapping
  | flowMappingEnd
  | blockEntry
  | flowEntry
  | key
  | value
  | reference (name : String)
  | anchor (name : String)
  | tag (handle suffix : String)
  | scalar (style : Style) (text : String)
  deriving DecidableEq, Repr

/-- A place where a key may have begun. -/
structure Candidate where
  /-- Whether a key must begin here. -/
  required : Bool
  /-- The number of tokens before it. -/
  position : Nat
  line : Nat
  column : Nat
  index : Nat
  deriving Repr

structure Reader where
  cursor : Cursor
  /-- The tokens so far, the latest first. -/
  emitted : List Token
  /-- The number of tokens so far. -/
  count : Nat
  /-- Whether a key may begin here. -/
  keyAllowed : Bool
  /-- The candidate of each open flow collection, the innermost first, and of the block last. -/
  candidates : List (Option Candidate)
  /-- The indentation of each open block, the innermost first. -/
  indents : List Nat

namespace Reader

def start (cs : List Char) : Reader := ⟨Cursor.start cs, [], 0, true, [none], []⟩

def inFlow (s : Reader) : Bool := !(s.candidates.drop 1).isEmpty

def indent? (s : Reader) : Option Nat := s.indents.head?

def emit (s : Reader) (token : Token) : Reader :=
  { s with emitted := token :: s.emitted, count := s.count + 1 }

def emitAt (s : Reader) (position : Nat) (token : Token) : Reader :=
  let later := s.count - position
  { s with
    emitted := s.emitted.take later ++ token :: s.emitted.drop later
    count := s.count + 1 }

/-- Gives up the innermost candidate; an error if a key must begin there. -/
def dropCandidate (s : Reader) : Option Reader :=
  match s.candidates with
  | some c :: rest => if c.required then none else some { s with candidates := none :: rest }
  | _ => some s

def saveCandidate (s : Reader) : Option Reader :=
  if s.keyAllowed then do
    let required := !s.inFlow && s.indent? == some s.cursor.column
    let s ← s.dropCandidate
    let here : Candidate :=
      ⟨required, s.count, s.cursor.line, s.cursor.column, s.cursor.index⟩
    some { s with candidates := some here :: s.candidates.drop 1 }
  else some s

def dropStale (s : Reader) : Option Reader := do
  let kept ← s.candidates.mapM fun candidate =>
    match candidate with
    | none => some none
    | some c =>
      if c.line < s.cursor.line ∨ c.index + 1024 < s.cursor.index then
        if c.required then none else some none
      else some (some c)
  some { s with candidates := kept }

/-- Opens a block at a column that is further right than the innermost one, by the given step. -/
def openBlock (s : Reader) (column : Nat) (add : Reader → Reader) : Reader :=
  let deeper := match s.indent? with
    | none => true
    | some indent => indent < column
  if !s.inFlow && deeper then { add s with indents := column :: s.indents } else s

/-- Closes the blocks that are further right than a column; all of them for `none`. -/
def closeBlocks (s : Reader) (column : Option Nat) : Reader :=
  if s.inFlow then s
  else
    let isOpen (indent : Nat) : Bool := match column with
      | none => true
      | some c => c < indent
    let closed := s.indents.takeWhile isOpen
    { s with
      emitted := List.replicate closed.length .blockEnd ++ s.emitted
      count := s.count + closed.length
      indents := s.indents.drop closed.length }

def skipGap : Nat → Reader → Reader
  | 0, s => s
  | fuel + 1, s =>
    let cur := if s.cursor.column = 0 ∧ s.cursor.isAt '\ufeff' then s.cursor.skip else s.cursor
    let tabs := s.inFlow || !s.keyAllowed
    let cur := cur.skipWhile fun c => c == ' ' || (tabs && c == '\t')
    let cur := if cur.isAt '#' then cur.skipWhile fun c => !isBreak c else cur
    if cur.atBreak then
      skipGap fuel { s with cursor := cur.lineBreak.2, keyAllowed := s.keyAllowed || !s.inFlow }
    else { s with cursor := cur }

def indicator (s : Reader) (width : Nat) (token : Token) : Reader :=
  { s with cursor := s.cursor.skipBy width }.emit token

/-- Characters of a tag besides letters, digits, underscore and hyphen. -/
def isTagChar (c : Char) : Bool := ";/?:@&=+$.!~*\x27()%".toList.contains c

/-- Reads a byte written as a percent sign and two hexadecimal digits. -/
def octet? (cur : Cursor) : Option (Nat × Cursor) :=
  match cur.rest with
  | '%' :: high :: low :: _ => (Text.number? 16 [high, low]).map fun value => (value, cur.skipBy 3)
  | _ => none

/-- The number of bytes that follow the given first byte of a character. -/
def followers? (octet : Nat) : Option Nat :=
  if octet < 0x80 then some 0
  else if octet < 0xC0 then none
  else if octet < 0xE0 then some 1
  else if octet < 0xF0 then some 2
  else if octet < 0xF8 then some 3
  else none

def laterOctets? : Nat → Cursor → Option (List Nat × Cursor)
  | 0, cur => some ([], cur)
  | count + 1, cur => do
    let (octet, cur) ← octet? cur
    if octet / 64 = 2 then
      let (others, cur) ← laterOctets? count cur
      some (octet :: others, cur)
    else none

def octets? (cur : Cursor) : Option (List Nat × Cursor) := do
  let (octet, cur) ← octet? cur
  let (others, cur) ← laterOctets? (← followers? octet) cur
  some (octet :: others, cur)

/-- Reads the rest of a tag; inside angle brackets more characters are allowed. A written byte
stands for the character of its value. -/
def tagText (verbatim : Bool) : Nat → Cursor → Option (List Char × Cursor)
  | 0, _ => none
  | fuel + 1, cur =>
    match cur.next? with
    | none => some ([], cur)
    | some c =>
      if c = '%' then do
        let (octets, cur) ← octets? cur
        let (text, after) ← tagText verbatim fuel cur
        some (octets.map Char.ofNat ++ text, after)
      else if isNameChar c || isTagChar c || (verbatim && (c == ',' || c == '[' || c == ']')) then
        (tagText verbatim fuel cur.skip).map fun (text, after) => (c :: text, after)
      else some ([], cur)

def tagHandle (cur : Cursor) : Option (List Char × Cursor) :=
  if cur.isAt '!' then
    let (name, cur) := cur.skip.takeWhile isNameChar
    if cur.isAt '!' then some ('!' :: name ++ ['!'], cur.skip) else some ('!' :: name, cur)
  else none

/-- A text up to its first character of value zero, which ends a tag. -/
def cutTag (text : List Char) : List Char := text.takeWhile (· != '\x00')

/-- Reads a tag as handle and suffix, the cursor being at its exclamation mark. -/
def readTag (cur : Cursor) : Option (String × String × Cursor) := do
  if cur.ahead? 1 = some '<' then
    let (text, cur) ← tagText true cur.bound (cur.skipBy 2)
    if text.isEmpty ∨ !cur.isAt '>' then none else some ("", String.ofList (cutTag text), cur.skip)
  else
    let (handle, cur) ← tagHandle cur
    let (text, cur) ← tagText false cur.bound cur
    if 1 < handle.length ∧ handle.getLast? = some '!' then
      if text.isEmpty then none
      else some (String.ofList handle, String.ofList (cutTag text), cur)
    else
      let suffix := cutTag (handle.drop 1 ++ text)
      if suffix.isEmpty then some ("", "!", cur) else some ("!", String.ofList suffix, cur)

def fetchTag (s : Reader) : Option Reader := do
  let s ← s.saveCandidate
  let (handle, suffix, cur) ← readTag s.cursor
  if cur.gapAhead 0 || (s.inFlow && cur.isAt ',') then
    some ({ s with cursor := cur, keyAllowed := false }.emit (.tag handle suffix))
  else none

def number (cur : Cursor) : Option (Nat × Cursor) :=
  let (digits, cur) := cur.takeWhile Char.isDigit
  if digits.isEmpty ∨ 9 < digits.length then none
  else some (digits.foldl (fun n d => n * 10 + (d.toNat - '0'.toNat)) 0, cur)

def directive (name : String) (cur : Cursor) : Option (Token × Cursor) := do
  let cur := cur.skipWhile isSpace
  match name with
  | "YAML" =>
    let (major, cur) ← number cur
    if cur.isAt '.' then
      let (minor, cur) ← number cur.skip
      some (.version major minor, cur)
    else none
  | "TAG" =>
    let (handle, cur) ← tagHandle cur
    if handle ≠ ['!'] ∧ handle.getLast? ≠ some '!' ∨ !cur.atSpace then none
    else
      let (text, cur) ← tagText true cur.bound (cur.skipWhile isSpace)
      if text.isEmpty ∨ !cur.gapAhead 0 then none
      else some (.tagHandle (String.ofList handle) (String.ofList (cutTag text)), cur)
  | _ => none

def fetchDirective (s : Reader) : Option Reader := do
  let s ← (s.closeBlocks none).dropCandidate
  let (name, cur) := s.cursor.skip.takeWhile isNameChar
  if name.isEmpty ∨ !cur.gapAhead 0 then none
  else
    let (token, cur) ← directive (String.ofList name) cur
    let cur := cur.skipComment
    if cur.atLineEnd then
      some ({ s with cursor := cur.lineBreak.2, keyAllowed := false }.emit token)
    else none

def fetchMarker (s : Reader) (token : Token) : Option Reader := do
  let s ← (s.closeBlocks none).dropCandidate
  some ({ s with keyAllowed := false }.indicator 3 token)

def fetchFlowStart (s : Reader) (token : Token) : Option Reader := do
  let s ← s.saveCandidate
  some ({ s with candidates := none :: s.candidates, keyAllowed := true }.indicator 1 token)

def fetchFlowEnd (s : Reader) (token : Token) : Option Reader := do
  let s ← s.dropCandidate
  let candidates := if s.inFlow then s.candidates.drop 1 else s.candidates
  some ({ s with candidates := candidates, keyAllowed := false }.indicator 1 token)

def fetchFlowEntry (s : Reader) : Option Reader := do
  let s ← s.dropCandidate
  some ({ s with keyAllowed := true }.indicator 1 .flowEntry)

def fetchBlockEntry (s : Reader) : Option Reader := do
  if !s.inFlow && !s.keyAllowed then none
  else
    let s := s.openBlock s.cursor.column (·.emit .blockSequence)
    let s ← s.dropCandidate
    some ({ s with keyAllowed := true }.indicator 1 .blockEntry)

def fetchKey (s : Reader) : Option Reader := do
  if !s.inFlow && !s.keyAllowed then none
  else
    let s := s.openBlock s.cursor.column (·.emit .blockMapping)
    let s ← s.dropCandidate
    some ({ s with keyAllowed := !s.inFlow }.indicator 1 .key)

/-- Reads the colon of a value. The candidate before it, if there is one, turns out to be a key. -/
def fetchValue (s : Reader) : Option Reader :=
  match s.candidates with
  | some c :: rest =>
    let s := s.emitAt c.position .key
    let s := s.openBlock c.column (·.emitAt c.position .blockMapping)
    some ({ s with candidates := none :: rest, keyAllowed := false }.indicator 1 .value)
  | _ =>
    if !s.inFlow && !s.keyAllowed then none
    else
      let s := s.openBlock s.cursor.column (·.emit .blockMapping)
      some ({ s with keyAllowed := !s.inFlow }.indicator 1 .value)

def fetchName (s : Reader) (make : String → Token) : Option Reader := do
  let s ← s.saveCandidate
  let (name, cur) := s.cursor.skip.takeWhile isNameChar
  let ends := cur.gapAhead 0 || cur.next?.any fun c => "?:,]\x7d%@\x60".toList.contains c
  if name.isEmpty || !ends then none
  else some ({ s with cursor := cur, keyAllowed := false }.emit (make (String.ofList name)))

def fetchBlockScalar (s : Reader) (style : Style) : Option Reader := do
  let s ← s.dropCandidate
  let (text, cur) ← blockScalar (style == .folded) s.indent? s.cursor
  some ({ s with cursor := cur, keyAllowed := true }.emit (.scalar style (String.ofList text)))

def fetchQuoted (s : Reader) (style : Style) : Option Reader := do
  let s ← s.saveCandidate
  let (text, cur) ← quotedScalar (style == .single) s.cursor
  some ({ s with cursor := cur, keyAllowed := false }.emit (.scalar style (String.ofList text)))

def fetchPlain (s : Reader) : Option Reader := do
  let s ← s.saveCandidate
  let indent := (s.indent?.map (· + 1)).getD 0
  let (text, broken, cur) ← plainScalar s.inFlow indent s.cursor
  some ({ s with cursor := cur, keyAllowed := broken }.emit (.scalar .plain (String.ofList text)))

def plainStarts (s : Reader) (c : Char) : Bool :=
  !("-?:,[]\x7b\x7d#&*!|>\x27\x22%@\x60".toList.contains c) && !isSpace c ||
    (c == '-' && !(s.cursor.ahead? 1).any isSpace) ||
    (!s.inFlow && (c == '?' || c == ':') && !s.cursor.gapAhead 1)

def fetch (s : Reader) (c : Char) : Option Reader :=
  let cur := s.cursor
  if cur.column = 0 ∧ c = '%' then s.fetchDirective
  else if cur.atMarker '-' then s.fetchMarker .documentStart
  else if cur.atMarker '.' then s.fetchMarker .documentEnd
  else if c = '[' then s.fetchFlowStart .flowSequence
  else if c = '\x7b' then s.fetchFlowStart .flowMapping
  else if c = ']' then s.fetchFlowEnd .flowSequenceEnd
  else if c = '\x7d' then s.fetchFlowEnd .flowMappingEnd
  else if c = ',' then s.fetchFlowEntry
  else if c = '-' ∧ cur.gapAhead 1 then s.fetchBlockEntry
  else if c = '?' ∧ (s.inFlow || cur.gapAhead 1) then s.fetchKey
  else if c = ':' ∧ (s.inFlow || cur.gapAhead 1) then s.fetchValue
  else if c = '*' then s.fetchName .reference
  else if c = '&' then s.fetchName .anchor
  else if c = '!' then s.fetchTag
  else if c = '|' ∧ !s.inFlow then s.fetchBlockScalar .literal
  else if c = '>' ∧ !s.inFlow then s.fetchBlockScalar .folded
  else if c = '\x27' then s.fetchQuoted .single
  else if c = '\x22' then s.fetchQuoted .double
  else if s.plainStarts c then s.fetchPlain
  else none

/-- Reads all tokens; each one takes at least one character. -/
def readAll : Nat → Reader → Option (List Token)
  | 0, _ => none
  | fuel + 1, s => do
    let s ← (s.skipGap s.cursor.bound).dropStale
    let s := s.closeBlocks (some s.cursor.column)
    match s.cursor.next? with
    | none => (s.closeBlocks none).dropCandidate.map (·.emitted.reverse)
    | some c =>
      let s ← s.fetch c
      readAll fuel s

end Reader

/-- The tokens of a text, or `none` if it is not YAML. -/
def tokens? (text : String) : Option (List Token) :=
  let cs := text.toList
  if cs.all isAllowed then Reader.readAll (cs.length + 2) (Reader.start cs) else none

theorem tokens?_ofList (cs : List Char) :
    tokens? (String.ofList cs) =
      if cs.all isAllowed then Reader.readAll (cs.length + 2) (Reader.start cs) else none := by
  unfold tokens?
  rw [String.toList_ofList]

end BlockShading.Yaml
