import BlockShading.Color

/-!
# Written channels

A channel is written as two digits, which read back give the channel. So a written color, whatever
follows it, tells the color.
-/

namespace BlockShading

namespace Hex

theorem digit?_upperDigit {d : Nat} (hd : d < 16) : digit? (upperDigit d) = some d.toUInt8 := by
  revert d
  decide

theorem upperDigit_ne_plus {d : Nat} (hd : d < 16) : upperDigit d ≠ '+' := by
  revert d
  decide

/-- The two digits of a channel stand for it. -/
theorem channel?_pair (value : UInt8) :
    channel? (upperDigit (value.toNat / 16)) (upperDigit (value.toNat % 16)) = some value := by
  have hlt := value.toNat_lt
  have hhigh : value.toNat / 16 < 16 := by omega
  have hlow : value.toNat % 16 < 16 := by omega
  rw [channel?, if_neg (upperDigit_ne_plus hhigh), digit?_upperDigit hhigh, digit?_upperDigit hlow]
  simp only [Option.bind_some, Option.map_some, Option.some.injEq, ← UInt8.toNat_inj]
  simp
  omega

theorem pair_append_inj {v w : UInt8} {x y : List Char} :
    pair v ++ x = pair w ++ y ↔ v = w ∧ x = y := by
  constructor
  · intro h
    simp only [pair, List.cons_append, List.nil_append, List.cons.injEq] at h
    obtain ⟨hhigh, hlow, hrest⟩ := h
    have hread := channel?_pair v
    rw [hhigh, hlow, channel?_pair] at hread
    exact ⟨(Option.some.inj hread).symm, hrest⟩
  · rintro ⟨rfl, rfl⟩
    rfl

end Hex

theorem Rgb.toHex_append_inj {c d : Rgb} {x y : List Char} :
    c.toHex.toList ++ x = d.toHex.toList ++ y ↔ c = d ∧ x = y := by
  cases c
  cases d
  simp [toHex, Hex.pair_append_inj, and_assoc]

end BlockShading
