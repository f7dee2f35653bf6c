import BlockShading.Path
import BlockShading.Text.Decode

/-!
# Paths as the system has them

The system knows a path by its bytes, which need not encode a text. Where such a path is shown, each
fault in its encoding is shown as U+FFFD, which is no part of an extension that matters.
-/

namespace BlockShading

structure RawPath where
  bytes : List UInt8
  deriving DecidableEq, Repr

namespace RawPath

def ofPath (path : Path) : RawPath := ⟨Text.bytes path.text.toList⟩

def shown (file : RawPath) : Path :=
  ⟨String.ofList ((Text.decode file.bytes).map fun c => c.getD '\ufffd')⟩

def path? (file : RawPath) : Option Path :=
  if (Text.decode file.bytes).all Option.isSome then some file.shown else none

def text (file : RawPath) : String := file.shown.text

@[simp] theorem shown_ofPath (path : Path) : (ofPath path).shown = path := by
  simp [shown, ofPath, Text.decode_bytes, Function.comp_def]

@[simp] theorem path?_ofPath (path : Path) : (ofPath path).path? = some path := by
  have hall : (Text.decode (ofPath path).bytes).all Option.isSome = true := by
    simp [ofPath, Text.decode_bytes]
  rw [RawPath.path?, if_pos hall, shown_ofPath]

end RawPath

end BlockShading
