import BlockShading.Yaml.Token

/-!
# Documents of YAML tokens

The tokens of a text make up one document: a node that is a scalar, a sequence, a mapping, or a
reference to a named node. A name stands for a number, which is that of the different names before
it; a name that is given again gets a new number, which the next new name then shares. A reference
is kept as the number that its name stands for at that point, and means the last node in the
document that began under that number. A text without tokens is an empty node, and a text with
more than one document is refused.
-/

namespace BlockShading.Yaml

inductive Node where
  | scalar (style : Style) (tag : Option String) (text : String)
  | sequence (items : List Node)
  | mapping (entries : List (Node × Node))
  /-- The named node with a number. -/
  | reference (number : Nat)
  deriving Inhabited

structure Names where
  /-- The number that each name stands for. -/
  numbers : List (String × Nat)
  /-- The number under which each named node began, the latest first. -/
  begun : List Nat
  /-- The finished nodes by the count of those that began before them. -/
  nodes : List (Nat × Node)

/-- A document: its top node and its named nodes. -/
structure Document where
  root : Node
  named : List (Nat × Node)

namespace Names

def none : Names := ⟨[], [], []⟩

def count (names : Names) : Nat := names.begun.length

def enter (names : Names) (name : String) : Names :=
  let number := names.numbers.length
  { names with
    numbers := (name, number) :: names.numbers.filter fun entry => entry.1 != name
    begun := number :: names.begun }

/-- Keeps the node that began after the given count of others. -/
def keep (names : Names) (place : Nat) (node : Node) : Names :=
  { names with nodes := (place, node) :: names.nodes }

def byNumber (names : Names) : List (Nat × Node) :=
  (names.begun.reverse.zipIdx.filterMap fun (number, place) =>
    (names.nodes.lookup place).map (number, ·)).reverse

end Names

namespace Node

def empty : Node := scalar .plain none ""

def standardHandles : List (String × String) :=
  [("!", "!"), ("!!", "tag:yaml.org,2002:")]

def fullTag? (handles : List (String × String)) (handle suffix : String) : Option String :=
  if handle = "" then some suffix else (handles.lookup handle).map (· ++ suffix)

structure Properties where
  name : Option String
  tag : Option String

def properties? (handles : List (String × String)) :
    List Token → Option (Properties × List Token)
  | .anchor name :: .tag handle suffix :: rest =>
    (fullTag? handles handle suffix).map fun tag => (⟨some name, some tag⟩, rest)
  | .tag handle suffix :: .anchor name :: rest =>
    (fullTag? handles handle suffix).map fun tag => (⟨some name, some tag⟩, rest)
  | .anchor name :: rest => some (⟨some name, none⟩, rest)
  | .tag handle suffix :: rest =>
    (fullTag? handles handle suffix).map fun tag => (⟨none, some tag⟩, rest)
  | rest => some (⟨none, none⟩, rest)

/-- Whether the next token is one of the given ones, or the tokens are used up. -/
def stopsAt (ends : List Token) : List Token → Bool
  | [] => true
  | token :: _ => ends.contains token

def prepend (item : Node) : Node → Node
  | sequence items => sequence (item :: items)
  | other => other

def prependEntry (key value : Node) : Node → Node
  | mapping entries => mapping ((key, value) :: entries)
  | other => other

/-- The tokens after the comma that stands between two entries; the first entry has none. -/
def afterComma? (first : Bool) (tokens : List Token) : Option (List Token) :=
  if first then some tokens
  else
    match tokens with
    | .flowEntry :: rest => some rest
    | _ => none

/-- The node where only a name or a tag is given: an empty scalar, if there is either. -/
def bare? (properties : Properties) (tokens : List Token) (names : Names) :
    Option (Node × List Token × Names) :=
  if properties.name.isSome || properties.tag.isSome then
    some (scalar .plain properties.tag "", tokens, names)
  else none

/-- A node together with the tokens that follow it and the names known there. -/
abbrev Step := Node × List Token × Names

mutual

/-- Reads a node. In a block, sequences and mappings may begin by indentation; `compact` says that
a sequence may also begin without any. -/
def read (handles : List (String × String)) (block compact : Bool) :
    Nat → List Token → Names → Option Step
  | 0, _, _ => none
  | fuel + 1, tokens, names =>
    match tokens with
    | .reference name :: rest =>
      (names.numbers.lookup name).map fun number => (reference number, rest, names)
    | _ => do
      let (properties, tokens) ← properties? handles tokens
      let place := names.count
      let inner := match properties.name with
        | some name => names.enter name
        | none => names
      let (node, rest, after) ←
        match tokens with
        | .scalar style text :: rest => some (scalar style properties.tag text, rest, inner)
        | .flowSequence :: rest => readFlowItems handles true fuel rest inner
        | .flowMapping :: rest => readFlowEntries handles true fuel rest inner
        | .blockSequence :: rest =>
          if block then readItems handles fuel rest inner
          else bare? properties tokens inner
        | .blockMapping :: rest =>
          if block then readEntries handles fuel rest inner
          else bare? properties tokens inner
        | .blockEntry :: _ =>
          if compact then readCompactItems handles fuel tokens inner
          else bare? properties tokens inner
        | _ => bare? properties tokens inner
      match properties.name with
      | some _ => some (node, rest, after.keep place node)
      | none => some (node, rest, after)

/-- Reads a node, or an empty one if one of the given tokens comes first. -/
def readUnless (handles : List (String × String)) (block compact : Bool) (ends : List Token) :
    Nat → List Token → Names → Option Step
  | 0, _, _ => none
  | fuel + 1, tokens, names =>
    if stopsAt ends tokens then some (empty, tokens, names)
    else read handles block compact fuel tokens names

def readItems (handles : List (String × String)) : Nat → List Token → Names → Option Step
  | 0, _, _ => none
  | fuel + 1, tokens, names =>
    match tokens with
    | .blockEnd :: rest => some (sequence [], rest, names)
    | .blockEntry :: rest => do
      let (item, rest, names) ←
        readUnless handles true false [.blockEntry, .blockEnd] fuel rest names
      let (others, rest, names) ← readItems handles fuel rest names
      some (prepend item others, rest, names)
    | _ => none

def readCompactItems (handles : List (String × String)) : Nat → List Token → Names → Option Step
  | 0, _, _ => none
  | fuel + 1, tokens, names =>
    match tokens with
    | .blockEntry :: rest => do
      let (item, rest, names) ←
        readUnless handles true false [.blockEntry, .key, .value, .blockEnd] fuel rest names
      let (others, rest, names) ← readCompactItems handles fuel rest names
      some (prepend item others, rest, names)
    | _ => some (sequence [], tokens, names)

def readEntries (handles : List (String × String)) : Nat → List Token → Names → Option Step
  | 0, _, _ => none
  | fuel + 1, tokens, names =>
    match tokens with
    | .blockEnd :: rest => some (mapping [], rest, names)
    | .key :: rest => do
      let ends := [.key, .value, .blockEnd]
      let (key, rest, names) ← readUnless handles true true ends fuel rest names
      let (value, rest, names) ← readValue handles true ends fuel rest names
      let (others, rest, names) ← readEntries handles fuel rest names
      some (prependEntry key value others, rest, names)
    | _ => none

def readValue (handles : List (String × String)) (block : Bool) (ends : List Token) :
    Nat → List Token → Names → Option Step
  | 0, _, _ => none
  | fuel + 1, tokens, names =>
    match tokens with
    | .value :: rest => readUnless handles block block ends fuel rest names
    | _ => some (empty, tokens, names)

/-- Reads the items of a flow sequence up to its end; an item may be a single entry of a
mapping. -/
def readFlowItems (handles : List (String × String)) (first : Bool) :
    Nat → List Token → Names → Option Step
  | 0, _, _ => none
  | fuel + 1, tokens, names =>
    match tokens with
    | .flowSequenceEnd :: rest => some (sequence [], rest, names)
    | _ => do
      let tokens ← afterComma? first tokens
      match tokens with
      | .flowSequenceEnd :: rest => some (sequence [], rest, names)
      | .key :: rest =>
        let (key, rest, names) ←
          if stopsAt [.value, .flowEntry, .flowSequenceEnd] rest then
            some (empty, rest.drop 1, names)
          else read handles false false fuel rest names
        let (value, rest, names) ←
          readValue handles false [.flowEntry, .flowSequenceEnd] fuel rest names
        let (others, rest, names) ← readFlowItems handles false fuel rest names
        some (prepend (mapping [(key, value)]) others, rest, names)
      | _ =>
        let (item, rest, names) ← read handles false false fuel tokens names
        let (others, rest, names) ← readFlowItems handles false fuel rest names
        some (prepend item others, rest, names)

def readFlowEntries (handles : List (String × String)) (first : Bool) :
    Nat → List Token → Names → Option Step
  | 0, _, _ => none
  | fuel + 1, tokens, names =>
    match tokens with
    | .flowMappingEnd :: rest => some (mapping [], rest, names)
    | _ => do
      let tokens ← afterComma? first tokens
      match tokens with
      | .flowMappingEnd :: rest => some (mapping [], rest, names)
      | .key :: rest =>
        let (key, rest, names) ←
          readUnless handles false false [.value, .flowEntry, .flowMappingEnd] fuel rest names
        let (value, rest, names) ←
          readValue handles false [.flowEntry, .flowMappingEnd] fuel rest names
        let (others, rest, names) ← readFlowEntries handles false fuel rest names
        some (prependEntry key value others, rest, names)
      | _ =>
        let (key, rest, names) ← read handles false false fuel tokens names
        let (others, rest, names) ← readFlowEntries handles false fuel rest names
        some (prependEntry key empty others, rest, names)

end

end Node

namespace Document

/-- Reads the declarations in front of a document: at most one version, which must be 1.1 or 1.2,
and handles of tags, each at most once. -/
def declarations? : List Token → Bool → List (String × String) →
    Option (List (String × String) × List Token)
  | .version major minor :: rest, versioned, handles =>
    if versioned ∨ major ≠ 1 ∨ (minor ≠ 1 ∧ minor ≠ 2) then none
    else declarations? rest true handles
  | .tagHandle handle expansion :: rest, versioned, handles =>
    if (handles.lookup handle).isSome then none
    else declarations? rest versioned ((handle, expansion) :: handles)
  | rest, _, handles => some (handles ++ Node.standardHandles, rest)

/-- The single document that tokens make up. Declarations alone are none. -/
def ofTokens? (tokens : List Token) : Option Document := do
  let fuel := 4 * tokens.length + 8
  let (handles, body) ← declarations? tokens false []
  let declared := body.length < tokens.length
  let (root, rest, names) ←
    match body with
    | [] => if declared then none else some (Node.empty, [], Names.none)
    | .documentStart :: content =>
      let ends := [.documentStart, .documentEnd]
      if (content.head?.map fun token =>
          match token with
          | .version _ _ => true
          | .tagHandle _ _ => true
          | _ => false) = some true then some (Node.empty, content, Names.none)
      else Node.readUnless handles true false ends fuel content Names.none
    | content =>
      if declared then none else Node.read handles true false fuel content Names.none
  if (rest.dropWhile (· == .documentEnd)).isEmpty then some ⟨root, names.byNumber⟩ else none

/-- The node that a node stands for: itself, or the one it refers to. -/
def follow (document : Document) : Node → Node
  | .reference number => (document.named.lookup number).getD Node.empty
  | node => node

end Document

def document? (text : String) : Option Document := (tokens? text).bind Document.ofTokens?

end BlockShading.Yaml
