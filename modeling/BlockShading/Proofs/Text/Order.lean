import BlockShading.Text.Bytes
import BlockShading.Text.Words
import Mathlib.Data.List.Lex
import Mathlib.Tactic.SplitIfs

/-!
# The order of texts

Texts are compared character by character, and a text comes before those it is the beginning of.
`Text.precedes` decides this order, which is total. Main statement: it is also the order of the bytes
of the texts.
-/

namespace BlockShading.Text

theorem precedes_append (xs ys zs : List Char) :
    precedes (xs ++ ys) (xs ++ zs) = precedes ys zs := by
  induction xs with
  | nil => rfl
  | cons x xs ih => simpa [precedes] using ih

theorem precedes_total (xs ys : List Char) : precedes xs ys || precedes ys xs := by
  induction xs generalizing ys with
  | nil => simp [precedes]
  | cons x xs ih =>
    cases ys with
    | nil => simp [precedes]
    | cons y ys =>
      unfold precedes
      by_cases hlt : x.toNat < y.toNat
      · simp [hlt]
      by_cases hgt : y.toNat < x.toNat
      · simp [hgt]
      · simpa [hlt, hgt] using ih ys

theorem precedes_trans (xs ys zs : List Char) (hxy : precedes xs ys) (hyz : precedes ys zs) :
    precedes xs zs := by
  induction xs generalizing ys zs with
  | nil => rfl
  | cons x xs ih =>
    cases ys with
    | nil => cases hxy
    | cons y ys =>
      cases zs with
      | nil => cases hyz
      | cons z zs =>
        unfold precedes at hxy hyz ⊢
        by_cases hlt : x.toNat < z.toNat
        · simp [hlt]
        have hxz : x.toNat = z.toNat ∧ x.toNat = y.toNat := by grind
        obtain ⟨hz, hy⟩ := hxz
        simp only [hz, ← hy, Nat.lt_irrefl, if_false] at hxy hyz ⊢
        exact ih ys zs hxy hyz

/-- Of two different texts the one that precedes the other is the lesser. -/
theorem lt_of_precedes {xs ys : List Char} (h : precedes xs ys = true) (hne : xs ≠ ys) :
    xs < ys := by
  induction xs generalizing ys with
  | nil =>
    cases ys with
    | nil => exact absurd rfl hne
    | cons y ys => exact List.Lex.nil
  | cons x xs ih =>
    cases ys with
    | nil => cases h
    | cons y ys =>
      unfold precedes at h
      by_cases hlt : x.toNat < y.toNat
      · exact List.Lex.rel hlt
      by_cases hgt : y.toNat < x.toNat
      · rw [if_neg hlt, if_pos hgt] at h
        cases h
      rw [if_neg hlt, if_neg hgt] at h
      have hxy : x = y := Char.toNat_inj.mp (by omega)
      subst hxy
      exact List.Lex.cons (ih h fun heq => hne (by rw [heq]))

/-- Encoded characters compare like the characters, whatever follows them. -/
theorem utf8EncodeChar_append_lt {c d : Char} (h : c < d) (xs ys : List UInt8) :
    String.utf8EncodeChar c ++ xs < String.utf8EncodeChar d ++ ys := by
  have hlt : c.val.toNat < d.val.toNat := h
  have hvalid : d.val.toNat < 0x110000 := by
    have := d.valid
    simp only [UInt32.isValidChar, Nat.isValidChar] at this
    omega
  have hbyte : ∀ n < 256, (UInt8.ofNat n).toNat = n := fun n hn => UInt8.toNat_ofNat_of_lt hn
  have htwice : ∀ n, n / 4096 = n / 64 / 64 := fun n => by omega
  have hthrice : ∀ n, n / 262144 = n / 64 / 64 / 64 := fun n => by omega
  simp only [String.utf8EncodeChar]
  generalize c.val.toNat = v at *
  generalize d.val.toNat = w at *
  -- The first byte grows with the number of bytes; equally many are digits in base 64.
  split_ifs
  all_goals
    simp (disch := omega) only [List.cons_append, List.nil_append, List.cons_lt_cons_iff,
      UInt8.lt_iff_toNat_lt, ← UInt8.toNat_inj, hbyte, htwice, hthrice]
    omega

theorem bytes_lt_of_lt {xs ys : List Char} (h : xs < ys) : bytes xs < bytes ys := by
  induction h with
  | @nil y ys =>
    obtain ⟨byte, rest, hbytes⟩ :=
      List.exists_cons_of_ne_nil (String.utf8EncodeChar_ne_nil (c := y))
    rw [bytes, bytes, List.flatMap_cons, hbytes]
    exact List.Lex.nil
  | rel h => exact utf8EncodeChar_append_lt h _ _
  | cons _ ih => exact List.Lex.append_left _ ih _

/-- Of two different texts the one that precedes the other has the lesser bytes. -/
theorem bytes_lt_of_precedes {xs ys : List Char} (h : precedes xs ys = true) (hne : xs ≠ ys) :
    bytes xs < bytes ys :=
  bytes_lt_of_lt (lt_of_precedes h hne)

end BlockShading.Text
