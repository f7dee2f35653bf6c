import BlockShading.ParseTree.Basic
import BlockShading.Text.Words

/-!
# Parse trees as text

A parse tree is written one row a line, the root first and every row before those below it. A line
holds the depth of the row, its flags, its first byte, the byte after its last one, its kind and,
if it has one, its field, with a blank between any two. The flags are the sum of 1 for a named row,
2 for an extra one and 4 for a missing one.
-/

namespace BlockShading.ParseTree

def rowOfWords? (depth flags start stop kind : String) (field : Option String) :
    Option (Nat × Row) := do
  let depth ← depth.toNat?
  let flags ← flags.toNat?
  let start ← start.toNat?
  let stop ← stop.toNat?
  some (depth, {
    kind := kind
    field := field
    named := flags % 2 == 1
    extra := flags / 2 % 2 == 1
    missing := flags / 4 % 2 == 1
    start := start
    stop := stop })

def rowOfLine? (line : List Char) : Option (Nat × Row) :=
  match (Text.splitOn ' ' line).map String.ofList with
  | [depth, flags, start, stop, kind] => rowOfWords? depth flags start stop kind none
  | [depth, flags, start, stop, kind, field] => rowOfWords? depth flags start stop kind (some field)
  | _ => none

def ofText? (text : String) : Option ParseTree :=
  (((Text.splitOn '\n' text.toList).filter (· != [])).mapM rowOfLine?).bind ofRows?

end BlockShading.ParseTree
