import BlockShading.Text.Bytes

/-!
# Bytes read as text

Bytes are read as UTF-8, one after the other. The bytes of a character that is not finished, because
the next byte is not one of its bytes or there is none, count as one fault together, and so does a
byte with which no character begins. `decode_bytes` says that a text is read back from its bytes.
-/

namespace BlockShading.Text

/-- A character of which some bytes have been read: how many are owed, the bounds of the next one,
and the bits so far. -/
structure Begun where
  owed : Nat
  low : Nat
  high : Nat
  code : Nat

/-- What the first byte of a character says. No character is encoded in more bytes than it needs,
and none is a surrogate or beyond the last code point, which bounds the second byte. -/
def begin? (byte : Nat) : Option Begun :=
  if byte < 0x80 then some ⟨0, 0x80, 0xBF, byte⟩
  else if 0xC2 ≤ byte ∧ byte ≤ 0xDF then some ⟨1, 0x80, 0xBF, byte - 0xC0⟩
  else if 0xE0 ≤ byte ∧ byte ≤ 0xEF then
    some ⟨2, if byte = 0xE0 then 0xA0 else 0x80, if byte = 0xED then 0x9F else 0xBF, byte - 0xE0⟩
  else if 0xF0 ≤ byte ∧ byte ≤ 0xF4 then
    some ⟨3, if byte = 0xF0 then 0x90 else 0x80, if byte = 0xF4 then 0x8F else 0xBF, byte - 0xF0⟩
  else none

def Begun.next? (begun : Begun) (byte : Nat) : Option Begun :=
  if begun.low ≤ byte ∧ byte ≤ begun.high then
    some ⟨begun.owed - 1, 0x80, 0xBF, begun.code * 64 + (byte - 0x80)⟩
  else none

/-- What has been read when a character is finished, and what is begun when it is not. -/
def Begun.settle (begun : Begun) : List (Option Char) × Option Begun :=
  if begun.owed = 0 then ([some (Char.ofNat begun.code)], none) else ([], some begun)

def start (byte : Nat) : List (Option Char) × Option Begun :=
  match begin? byte with
  | some begun => begun.settle
  | none => ([none], none)

/-- Reads one byte. A byte that does not go on with what is begun begins something itself. -/
def step (begun : Option Begun) (byte : Nat) : List (Option Char) × Option Begun :=
  match begun with
  | none => start byte
  | some unfinished =>
    match unfinished.next? byte with
    | some more => more.settle
    | none => (none :: (start byte).1, (start byte).2)

def decodeFrom (begun : Option Begun) : List UInt8 → List (Option Char)
  | [] => if begun.isSome then [none] else []
  | byte :: rest =>
    (step begun byte.toNat).1 ++ decodeFrom (step begun byte.toNat).2 rest

/-- The characters that bytes encode, with `none` for each fault. -/
def decode (encoded : List UInt8) : List (Option Char) := decodeFrom none encoded

theorem toNat_ofNat_of_lt {n : Nat} (h : n < 256) : (UInt8.ofNat n).toNat = n := by
  rw [UInt8.toNat_ofNat']
  omega

variable {n v owed low high code : Nat} {begun : Begun} {rest : List UInt8}

theorem begin?_two (hlow : 2 ≤ n) (hhigh : n < 32) :
    begin? (n + 192) = some ⟨1, 0x80, 0xBF, n⟩ := by
  rw [begin?, if_neg (by omega), if_pos (by omega), Nat.add_sub_cancel]

theorem begin?_three (h : n < 16) : begin? (n + 224) =
    some ⟨2, if n = 0 then 0xA0 else 0x80, if n = 13 then 0x9F else 0xBF, n⟩ := by
  rw [begin?, if_neg (by omega), if_neg (by omega), if_pos (by omega), Nat.add_sub_cancel]
  simp

theorem begin?_four (h : n < 5) : begin? (n + 240) =
    some ⟨3, if n = 0 then 0x90 else 0x80, if n = 4 then 0x8F else 0xBF, n⟩ := by
  rw [begin?, if_neg (by omega), if_neg (by omega), if_neg (by omega), if_pos (by omega),
    Nat.add_sub_cancel]
  simp

theorem decodeFrom_first (h : begin? n = some begun) (howed : begun.owed ≠ 0) (hn : n < 256) :
    decodeFrom none (UInt8.ofNat n :: rest) = decodeFrom (some begun) rest := by
  rw [decodeFrom, toNat_ofNat_of_lt hn]
  simp [step, start, h, Begun.settle, howed]

theorem decodeFrom_more (hn : n < 64) (hlow : low ≤ n + 128) (hhigh : n + 128 ≤ high) :
    decodeFrom (some ⟨owed + 2, low, high, code⟩) (UInt8.ofNat (n + 128) :: rest) =
      decodeFrom (some ⟨owed + 1, 0x80, 0xBF, code * 64 + n⟩) rest := by
  rw [decodeFrom, toNat_ofNat_of_lt (by omega)]
  simp [step, Begun.next?, Begun.settle, hlow, hhigh]

theorem decodeFrom_last (hn : n < 64) (hlow : low ≤ n + 128) (hhigh : n + 128 ≤ high) :
    decodeFrom (some ⟨1, low, high, code⟩) (UInt8.ofNat (n + 128) :: rest) =
      some (Char.ofNat (code * 64 + n)) :: decodeFrom none rest := by
  rw [decodeFrom, toNat_ofNat_of_lt (by omega)]
  simp [step, Begun.next?, Begun.settle, hlow, hhigh]

theorem toNat_ofNat_of_valid (h : v < 0xD800 ∨ 0xDFFF < v ∧ v < 0x110000) :
    (Char.ofNat v).val.toNat = v := by
  rw [Char.ofNat, dif_pos h]
  rfl

theorem encode_one (h : v < 0x80) : String.utf8EncodeChar (Char.ofNat v) = [UInt8.ofNat v] := by
  rw [String.utf8EncodeChar, toNat_ofNat_of_valid (by omega), if_pos (by omega)]

theorem encode_two (hlow : 0x80 ≤ v) (hhigh : v < 0x800) :
    String.utf8EncodeChar (Char.ofNat v) =
      [UInt8.ofNat (v / 64 + 192), UInt8.ofNat (v % 64 + 128)] := by
  have hfirst : v / 64 % 32 = v / 64 := by omega
  rw [String.utf8EncodeChar, toNat_ofNat_of_valid (by omega), if_neg (by omega),
    if_pos (by omega), hfirst]

theorem encode_three (hlow : 0x800 ≤ v) (hhigh : v < 0x10000) (h : v < 0xD800 ∨ 0xDFFF < v) :
    String.utf8EncodeChar (Char.ofNat v) =
      [UInt8.ofNat (v / 4096 + 224), UInt8.ofNat (v / 64 % 64 + 128),
        UInt8.ofNat (v % 64 + 128)] := by
  have hfirst : v / 4096 % 16 = v / 4096 := by omega
  rw [String.utf8EncodeChar, toNat_ofNat_of_valid (by omega), if_neg (by omega),
    if_neg (by omega), if_pos (by omega), hfirst]

theorem encode_four (hlow : 0x10000 ≤ v) (hhigh : v < 0x110000) :
    String.utf8EncodeChar (Char.ofNat v) =
      [UInt8.ofNat (v / 262144 + 240), UInt8.ofNat (v / 4096 % 64 + 128),
        UInt8.ofNat (v / 64 % 64 + 128), UInt8.ofNat (v % 64 + 128)] := by
  have hfirst : v / 262144 % 8 = v / 262144 := by omega
  rw [String.utf8EncodeChar, toNat_ofNat_of_valid (by omega), if_neg (by omega),
    if_neg (by omega), if_neg (by omega), hfirst]

/-- A character is read back from its bytes. -/
theorem decodeFrom_encodeChar (c : Char) (rest : List UInt8) :
    decodeFrom none (String.utf8EncodeChar c ++ rest) = some c :: decodeFrom none rest := by
  have hvalid : c.toNat < 0xD800 ∨ 0xDFFF < c.toNat ∧ c.toNat < 0x110000 := c.valid
  rw [← Char.ofNat_toNat c]
  generalize c.toNat = v at *
  by_cases hone : v < 0x80
  · have hbegin : begin? v = some ⟨0, 0x80, 0xBF, v⟩ := by rw [begin?, if_pos hone]
    rw [encode_one hone, List.singleton_append, decodeFrom, toNat_ofNat_of_lt (by omega)]
    simp [step, start, hbegin, Begun.settle]
  by_cases htwo : v < 0x800
  · have hcode : v / 64 * 64 + v % 64 = v := by omega
    rw [encode_two (by omega) htwo, List.cons_append,
      decodeFrom_first (begin?_two (by omega) (by omega)) Nat.one_ne_zero (by omega),
      List.cons_append, decodeFrom_last (by omega) (by omega) (by omega), hcode, List.nil_append]
  by_cases hthree : v < 0x10000
  · have hcode : (v / 4096 * 64 + v / 64 % 64) * 64 + v % 64 = v := by omega
    rw [encode_three (by omega) hthree (by omega), List.cons_append,
      decodeFrom_first (begin?_three (by omega)) (Nat.succ_ne_zero 1) (by omega),
      List.cons_append, decodeFrom_more (by omega) (by split <;> omega) (by split <;> omega),
      List.cons_append, decodeFrom_last (by omega) (by omega) (by omega), hcode, List.nil_append]
  · have hcode : ((v / 262144 * 64 + v / 4096 % 64) * 64 + v / 64 % 64) * 64 + v % 64 = v := by
      omega
    rw [encode_four (by omega) (by omega), List.cons_append,
      decodeFrom_first (begin?_four (by omega)) (Nat.succ_ne_zero 2) (by omega),
      List.cons_append, decodeFrom_more (by omega) (by split <;> omega) (by split <;> omega),
      List.cons_append, decodeFrom_more (by omega) (by omega) (by omega),
      List.cons_append, decodeFrom_last (by omega) (by omega) (by omega), hcode, List.nil_append]

theorem decode_bytes (cs : List Char) : decode (bytes cs) = cs.map some := by
  induction cs with
  | nil => rfl
  | cons c cs ih =>
    rw [List.map_cons, ← ih]
    exact decodeFrom_encodeChar c (bytes cs)

/-- Two bytes of a character of three are one fault, and bytes of a surrogate are three. -/
example : decode [0x41, 0xE2, 0x82, 0x42, 0xED, 0xA0, 0x80] =
    [some 'A', none, some 'B', none, none, none] := by
  decide

end BlockShading.Text
