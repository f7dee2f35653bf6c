/-!
# Byte offsets in a text

A text is a list of characters, and positions in it are counted in the bytes of its UTF-8
encoding. The functions here answer questions about byte offsets without leaving the characters:
the width of the character at an offset, and the part of a text between two offsets when both
fall on character boundaries.
-/

namespace BlockShading.Text

def byteLength : List Char → Nat
  | [] => 0
  | c :: rest => c.utf8Size + byteLength rest

def bytes (cs : List Char) : List UInt8 := cs.flatMap String.utf8EncodeChar

/-- The number of bytes of the character that covers an offset, and zero past the end. -/
def widthAt : List Char → Nat → Nat
  | [], _ => 0
  | c :: rest, offset =>
    if offset < c.utf8Size then c.utf8Size else widthAt rest (offset - c.utf8Size)

/-- What is left after the first `count` bytes, if a character ends there. -/
def dropBytes? : List Char → Nat → Option (List Char)
  | cs, 0 => some cs
  | [], _ + 1 => none
  | c :: rest, count =>
    if c.utf8Size ≤ count then dropBytes? rest (count - c.utf8Size) else none

/-- The characters of the first `count` bytes, if a character ends there. -/
def takeBytes? : List Char → Nat → Option (List Char)
  | _, 0 => some []
  | [], _ + 1 => none
  | c :: rest, count =>
    if c.utf8Size ≤ count then (takeBytes? rest (count - c.utf8Size)).map (c :: ·) else none

/-- The part from one offset to another, if both are character boundaries in order. -/
def slice? (cs : List Char) (start stop : Nat) : Option (List Char) :=
  if start ≤ stop then (dropBytes? cs start).bind (takeBytes? · (stop - start)) else none

@[simp] theorem byteLength_nil : byteLength [] = 0 := rfl

@[simp] theorem byteLength_cons (c : Char) (cs : List Char) :
    byteLength (c :: cs) = c.utf8Size + byteLength cs := rfl

@[simp] theorem byteLength_append (xs ys : List Char) :
    byteLength (xs ++ ys) = byteLength xs + byteLength ys := by
  induction xs with
  | nil => simp
  | cons c rest ih => simp [ih, Nat.add_assoc]

/-- A string occupies as many bytes as its characters together. -/
theorem utf8ByteSize_eq_byteLength (s : String) : s.utf8ByteSize = byteLength s.toList := by
  have ofList (cs : List Char) : (String.ofList cs).utf8ByteSize = byteLength cs := by
    induction cs with
    | nil => rfl
    | cons c rest ih => simp [String.ofList_cons, ih]
  rw [← ofList, String.ofList_toList]

end BlockShading.Text
