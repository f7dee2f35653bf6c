import BlockShading.RawPath
import Mathlib.Data.List.Basic

/-!
# Bytes without a fault

What has been read of a character are the first bytes of every character that can still come of it.
So each character that is read is the one that its bytes encode. Main statement: bytes are read
without a fault exactly if they are the bytes of a text, and a path has a text exactly if its bytes
are those of the text.
-/

namespace BlockShading

namespace Text

variable {byte : UInt8} {front encoded : List UInt8} {begun more : Begun}

/-- With as many bytes as are owed, what has been read encodes one character. -/
structure Begun.Completes (front : List UInt8) (begun : Begun) : Prop where
  low : 0x80 ≤ begun.low
  high : begun.high ≤ 0xBF
  encodes : ∀ values : List Nat, values.length = begun.owed → (∀ n ∈ values, n < 64) →
    (∀ n ∈ values.head?, begun.low ≤ n + 128 ∧ n + 128 ≤ begun.high) →
      front ++ values.map (fun n => UInt8.ofNat (n + 128)) =
        String.utf8EncodeChar (Char.ofNat (values.foldl (fun code n => code * 64 + n) begun.code))

theorem completes_of_begin? (h : begin? byte.toNat = some begun) : begun.Completes [byte] := by
  have hbyte {n : Nat} (hn : n = byte.toNat) : UInt8.ofNat n = byte := by
    rw [hn, UInt8.ofNat_toNat]
  unfold begin? at h
  split at h
  · next hone =>
    cases h
    refine ⟨Nat.le_refl _, Nat.le_refl _, fun values hlength _ _ => ?_⟩
    rw [List.eq_nil_of_length_eq_zero hlength, List.foldl_nil, encode_one hone, hbyte rfl]
    rfl
  split at h
  · next htwo =>
    cases h
    refine ⟨Nat.le_refl _, Nat.le_refl _, fun values hlength hvalues _ => ?_⟩
    obtain ⟨a, rfl⟩ := List.length_eq_one_iff.mp hlength
    have ha : a < 64 := by simpa using hvalues
    simp only [List.foldl_cons, List.foldl_nil]
    generalize hv : (byte.toNat - 0xC0) * 64 + a = v
    have hlast : v % 64 = a := by omega
    rw [encode_two (by omega) (by omega), hbyte (by omega), hlast]
    rfl
  split at h
  · next hthree =>
    cases h
    refine ⟨by dsimp only; split <;> omega, by dsimp only; split <;> omega,
      fun values hlength hvalues hhead => ?_⟩
    obtain ⟨a, b, rfl⟩ := List.length_eq_two.mp hlength
    obtain ⟨ha, hb⟩ : a < 64 ∧ b < 64 := by simpa using hvalues
    obtain ⟨hlow, hhigh⟩ := hhead a rfl
    dsimp only at hlow hhigh
    simp only [List.foldl_cons, List.foldl_nil]
    generalize hv : ((byte.toNat - 0xE0) * 64 + a) * 64 + b = v
    have hleast : 0x800 ≤ v := by split at hlow <;> omega
    have hvalid : v < 0xD800 ∨ 0xDFFF < v := by split at hhigh <;> omega
    have hmiddle : v / 64 % 64 = a := by omega
    have hlast : v % 64 = b := by omega
    rw [encode_three hleast (by omega) hvalid, hbyte (by omega), hmiddle, hlast]
    rfl
  split at h
  · next hfour =>
    cases h
    refine ⟨by dsimp only; split <;> omega, by dsimp only; split <;> omega,
      fun values hlength hvalues hhead => ?_⟩
    obtain ⟨a, b, c, rfl⟩ := List.length_eq_three.mp hlength
    obtain ⟨ha, hb, hc⟩ : a < 64 ∧ b < 64 ∧ c < 64 := by simpa using hvalues
    obtain ⟨hlow, hhigh⟩ := hhead a rfl
    dsimp only at hlow hhigh
    simp only [List.foldl_cons, List.foldl_nil]
    generalize hv : (((byte.toNat - 0xF0) * 64 + a) * 64 + b) * 64 + c = v
    have hleast : 0x10000 ≤ v := by split at hlow <;> omega
    have hmost : v < 0x110000 := by split at hhigh <;> omega
    have hsecond : v / 4096 % 64 = a := by omega
    have hthird : v / 64 % 64 = b := by omega
    have hlast : v % 64 = c := by omega
    rw [encode_four hleast hmost, hbyte (by omega), hsecond, hthird, hlast]
    rfl
  · cases h

theorem Begun.Completes.next (h : begun.Completes front) (howed : begun.owed ≠ 0)
    (hnext : begun.next? byte.toNat = some more) : more.Completes (front ++ [byte]) := by
  have hlow := h.low
  have hhigh := h.high
  unfold Begun.next? at hnext
  split at hnext
  · next hbounds =>
    cases hnext
    refine ⟨Nat.le_refl _, Nat.le_refl _, fun values hlength hvalues _ => ?_⟩
    have hlonger : ((byte.toNat - 0x80) :: values).length = begun.owed := by
      dsimp only at hlength
      rw [List.length_cons]
      omega
    have hbyte : UInt8.ofNat (byte.toNat - 0x80 + 128) = byte := by
      rw [Nat.sub_add_cancel (by omega), UInt8.ofNat_toNat]
    have hhead : ∀ n ∈ ((byte.toNat - 0x80) :: values).head?,
        begun.low ≤ n + 128 ∧ n + 128 ≤ begun.high := by
      intro n hn
      rw [List.head?_cons, Option.mem_some] at hn
      omega
    have hsame := h.encodes ((byte.toNat - 0x80) :: values) hlonger
      (List.forall_mem_cons.mpr ⟨by omega, hvalues⟩) hhead
    rw [List.map_cons, hbyte, List.foldl_cons] at hsame
    rw [List.append_assoc]
    exact hsame
  · cases hnext

/-- What has been read since the last character that is finished. -/
def Stands (front : List UInt8) : Option Begun → Prop
  | none => front = []
  | some begun => begun.owed ≠ 0 ∧ begun.Completes front

theorem Begun.Completes.settle (h : begun.Completes front) :
    ∃ cs left, front = bytes cs ++ left ∧ Stands left begun.settle.2 := by
  unfold Begun.settle
  split
  · next hdone =>
    have hfront := h.encodes [] hdone.symm (by simp) (by simp)
    exact ⟨[Char.ofNat begun.code], [], by simpa [bytes] using hfront, rfl⟩
  · next howed => exact ⟨[], front, rfl, howed, h⟩

/-- A byte that is read without a fault goes on with what has been read. -/
theorem stands_step {state : Option Begun} (h : Stands front state)
    (hclean : ∀ c ∈ (step state byte.toNat).1, c.isSome = true) :
    ∃ cs left, front ++ [byte] = bytes cs ++ left ∧ Stands left (step state byte.toNat).2 := by
  cases state with
  | none =>
    cases h
    simp only [step, start] at hclean ⊢
    cases hbegin : begin? byte.toNat with
    | none => simp [hbegin] at hclean
    | some begun => exact (completes_of_begin? hbegin).settle
  | some begun =>
    simp only [step] at hclean ⊢
    cases hnext : begun.next? byte.toNat with
    | none => simp [hnext] at hclean
    | some more => exact (h.2.next h.1 hnext).settle

theorem exists_bytes_of_decodeFrom {state : Option Begun} (h : Stands front state)
    (hclean : ∀ c ∈ decodeFrom state encoded, c.isSome = true) :
    ∃ cs, front ++ encoded = bytes cs := by
  induction encoded generalizing front state with
  | nil =>
    cases state with
    | none =>
      cases h
      exact ⟨[], rfl⟩
    | some begun => simp [decodeFrom] at hclean
  | cons byte rest ih =>
    rw [decodeFrom, List.forall_mem_append] at hclean
    obtain ⟨cs, left, hread, hleft⟩ := stands_step h hclean.1
    obtain ⟨others, hothers⟩ := ih hleft hclean.2
    refine ⟨cs ++ others, ?_⟩
    calc front ++ byte :: rest = front ++ [byte] ++ rest := by simp
      _ = bytes cs ++ (left ++ rest) := by rw [hread, List.append_assoc]
      _ = bytes (cs ++ others) := by rw [hothers, bytes, bytes, bytes, List.flatMap_append]

/-- Bytes are read without a fault exactly if they are those of a text. -/
theorem decode_clean_iff :
    (decode encoded).all Option.isSome = true ↔ ∃ cs, encoded = bytes cs := by
  constructor
  · intro hclean
    have hnone : Stands [] none := rfl
    exact exists_bytes_of_decodeFrom hnone (List.all_eq_true.mp hclean)
  · rintro ⟨cs, rfl⟩
    simp [decode_bytes]

end Text

namespace RawPath

variable {file : RawPath} {path : Path}

/-- A path has a text exactly if its bytes are those of the text. -/
theorem path?_eq_some_iff : file.path? = some path ↔ file = ofPath path := by
  constructor
  · intro h
    by_cases hclean : (Text.decode file.bytes).all Option.isSome = true
    · obtain ⟨cs, hbytes⟩ := Text.decode_clean_iff.mp hclean
      have hfile : file = ofPath ⟨String.ofList cs⟩ := by
        rw [ofPath, String.toList_ofList, ← hbytes]
      rw [hfile, path?_ofPath] at h
      rw [hfile, Option.some.inj h]
    · rw [path?, if_neg hclean] at h
      cases h
  · rintro rfl
    exact path?_ofPath path

theorem isSome_path?_iff : file.path?.isSome = true ↔ ∃ path, file = ofPath path := by
  simp only [Option.isSome_iff_exists, path?_eq_some_iff]

end RawPath

end BlockShading
