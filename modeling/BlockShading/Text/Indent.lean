import BlockShading.Text.Lines

/-!
# Indentation

The indentation of a line is its leading run of space and tab bytes. `LineIndex.measure` gives it
for every line from the one that holds the start of an extent to the one that holds its end.
-/

namespace BlockShading.LineIndex

def isIndent (byte : UInt8) : Bool := byte == 32 || byte == 9

/-- The leading blanks of a line; an empty extent at its start if there are none. -/
def indentOf (index : LineIndex) (line : Nat) : Extent :=
  let start := index.startOf line
  ⟨start, start + ((index.lineBytes line).takeWhile isIndent).length⟩

/-- The indentation of each line from one that holds the start to one that holds the end. -/
def measure (index : LineIndex) (extent : Extent) : List Extent :=
  let first := index.lineOf extent.start
  let last := index.lineOf extent.stop
  (List.range' first (last + 1 - first)).map index.indentOf

end BlockShading.LineIndex
