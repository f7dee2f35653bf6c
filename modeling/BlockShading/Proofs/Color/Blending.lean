import BlockShading.Blend
import BlockShading.Proofs.Rounding

/-!
# Blended channels are nearest integers

A channel is blended in nine rounded steps. Each step adds to the distance from the exact value at
most what it is rounded by, counted in grains of `2 ^ -24`; the sum stays below `1 / 510`, and the
exact mean of two channels is never closer than that to the middle between two integers. So the
channel that is drawn is the integer nearest to the exact mean, which is a division of natural
numbers, and order and extremes follow from it.
-/

namespace BlockShading

inductive Primary where
  | red
  | green
  | blue
  deriving DecidableEq, Repr

def Color.part (color : Color) : Primary → UInt8
  | .red => color.r
  | .green => color.g
  | .blue => color.b

def Rgb.part (rgb : Rgb) : Primary → UInt8
  | .red => rgb.r
  | .green => rgb.g
  | .blue => rgb.b

namespace Blend

def mean (value background opacity : UInt8) : ℚ :=
  (value.toNat * opacity.toNat + background.toNat * (255 - opacity.toNat)) / 255

/-- The value of a channel before it is restricted to the interval from zero to 255. -/
def unclamped (value background opacity : UInt8) : ℚ :=
  round (round (round (round (unit value * unit opacity) +
    round (unit background * round (1 - unit opacity))) * 255) + 1 / 2)

theorem weighted_eq_clamp (value background opacity : UInt8) :
    weighted value background opacity = clamp (unclamped value background opacity) := by
  have hhalf : mkRat 1 2 = (1 : ℚ) / 2 := by norm_num
  simp only [weighted, unclamped, hhalf]

/-- By how much a value up to one may be off after it is rounded. -/
def grain : ℚ := 1 / 2 ^ 24

/-- A computed value that is not negative and off by at most some grains. -/
structure Near (exact computed grains : ℚ) : Prop where
  nonneg : 0 ≤ computed
  close : |computed - exact| ≤ grains * grain

namespace Near

variable {x y u v m n k : ℚ}

theorem le (h : Near x y n) : y ≤ x + n * grain := by
  linarith [(abs_le.mp h.close).2]

/-- Rounding a value adds as many grains as the value is large. -/
theorem round (h : Near x y n) (hm : y ≤ m) : Near x (Blend.round y) (n + m) where
  nonneg := Rounding.toDigits_nonneg 24 h.nonneg
  close := by
    have hround : |Blend.round y - y| ≤ m * grain := by
      calc |Blend.round y - y| ≤ y / 2 ^ 24 := Rounding.abs_toDigits_sub_le 24 h.nonneg
        _ ≤ m / 2 ^ 24 := by gcongr
        _ = m * grain := by rw [grain, mul_one_div]
    calc |Blend.round y - x| ≤ |Blend.round y - y| + |y - x| := abs_sub_le _ _ _
      _ ≤ m * grain + n * grain := add_le_add hround h.close
      _ = (n + m) * grain := by ring

theorem add (h : Near x y n) (h' : Near u v k) : Near (x + u) (y + v) (n + k) where
  nonneg := add_nonneg h.nonneg h'.nonneg
  close := by
    calc |y + v - (x + u)| = |(y - x) + (v - u)| := by rw [add_sub_add_comm]
      _ ≤ |y - x| + |v - u| := abs_add_le _ _
      _ ≤ n * grain + k * grain := add_le_add h.close h'.close
      _ = (n + k) * grain := by ring

/-- In a product each error counts as much as the other factor is large. -/
theorem mul (h : Near x y n) (h' : Near u v k) (hx : |x| ≤ 1) (hv : v ≤ m) :
    Near (x * u) (y * v) (n * m + k) where
  nonneg := mul_nonneg h.nonneg h'.nonneg
  close := by
    have hsplit : y * v - x * u = (y - x) * v + x * (v - u) := by ring
    calc |y * v - x * u| ≤ |(y - x) * v| + |x * (v - u)| := by
          rw [hsplit]
          exact abs_add_le _ _
      _ = |y - x| * v + |x| * |v - u| := by rw [abs_mul, abs_mul, abs_of_nonneg h'.nonneg]
      _ ≤ n * grain * m + 1 * (k * grain) := by
          gcongr
          · exact h'.nonneg
          · exact (abs_nonneg _).trans h.close
          · exact h.close
          · exact h'.close
      _ = (n * m + k) * grain := by ring

end Near

/-- The mean of two channels, 255 times as large. -/
def weight (value background opacity : UInt8) : Nat :=
  value.toNat * opacity.toNat + background.toNat * (255 - opacity.toNat)

theorem mean_eq_weight_div (value background opacity : UInt8) :
    mean value background opacity = weight value background opacity / 255 := by
  have hopacity : opacity.toNat ≤ 255 := Nat.le_of_lt_succ opacity.toNat_lt
  simp only [mean, weight, Nat.cast_add, Nat.cast_mul, Nat.cast_sub hopacity, Nat.cast_ofNat]

theorem weight_le (value background opacity : UInt8) :
    weight value background opacity ≤ 255 * 255 := by
  have hopacity : opacity.toNat ≤ 255 := Nat.le_of_lt_succ opacity.toNat_lt
  have hvalue : value.toNat ≤ 255 := Nat.le_of_lt_succ value.toNat_lt
  have hbackground : background.toNat ≤ 255 := Nat.le_of_lt_succ background.toNat_lt
  have hfirst := Nat.mul_le_mul_right opacity.toNat hvalue
  have hsecond := Nat.mul_le_mul_right (255 - opacity.toNat) hbackground
  unfold weight
  omega

theorem mean_nonneg (value background opacity : UInt8) : 0 ≤ mean value background opacity := by
  rw [mean_eq_weight_div]
  positivity

theorem mean_le (value background opacity : UInt8) : mean value background opacity ≤ 255 := by
  have hweight : (weight value background opacity : ℚ) ≤ 255 * 255 := by
    exact_mod_cast weight_le value background opacity
  rw [mean_eq_weight_div]
  linarith

def fraction (value : UInt8) : ℚ := value.toNat / 255

theorem fraction_nonneg (value : UInt8) : 0 ≤ fraction value := by
  unfold fraction
  positivity

theorem fraction_le_one (value : UInt8) : fraction value ≤ 1 := by
  have hvalue : (value.toNat : ℚ) ≤ 255 := by exact_mod_cast Nat.le_of_lt_succ value.toNat_lt
  unfold fraction
  linarith

theorem abs_fraction_le (value : UInt8) : |fraction value| ≤ 1 :=
  abs_le.mpr ⟨by linarith [fraction_nonneg value], fraction_le_one value⟩

theorem near_unit (value : UInt8) : Near (fraction value) (unit value) 1 := by
  have hexact : Near (fraction value) (fraction value) 0 := ⟨fraction_nonneg value, by simp⟩
  have hround := hexact.round (fraction_le_one value)
  rwa [zero_add] at hround

/-- Rounding does not lead out of the scale: its end is kept, and all else is far enough away. -/
theorem unit_le_one (value : UInt8) : unit value ≤ 1 := by
  by_cases hfull : value = 255
  · subst hfull
    decide +kernel
  · have hlt : value.toNat ≤ 254 := by
      have hne : value.toNat ≠ 255 := fun h => hfull (UInt8.toNat_inj.mp h)
      have := value.toNat_lt
      omega
    have hvalue : (value.toNat : ℚ) ≤ 254 := by exact_mod_cast hlt
    have hnear := (near_unit value).le
    unfold fraction grain at hnear
    linarith

theorem near_rest (opacity : UInt8) :
    Near (1 - fraction opacity) (round (1 - unit opacity)) 2 := by
  have hclose := (near_unit opacity).close
  have hrest : Near (1 - fraction opacity) (1 - unit opacity) 1 := by
    refine ⟨by linarith [unit_le_one opacity], ?_⟩
    rwa [sub_sub_sub_cancel_left, abs_sub_comm]
  have hround := hrest.round (m := 1) (by linarith [(near_unit opacity).nonneg])
  norm_num at hround
  exact hround

theorem near_sum (value background opacity : UInt8) :
    Near (mean value background opacity / 255)
      (round (round (unit value * unit opacity) +
        round (unit background * round (1 - unit opacity)))) 11 := by
  have hopaque : Near (fraction value * fraction opacity)
      (round (unit value * unit opacity)) 3 := by
    have hmul := (near_unit value).mul (near_unit opacity) (abs_fraction_le value)
      (unit_le_one opacity)
    have hle : unit value * unit opacity ≤ 1 :=
      mul_le_one₀ (unit_le_one value) (near_unit opacity).nonneg (unit_le_one opacity)
    have hround := hmul.round hle
    norm_num at hround
    exact hround
  have hclear : Near (fraction background * (1 - fraction opacity))
      (round (unit background * round (1 - unit opacity))) 6 := by
    have hrest : round (1 - unit opacity) ≤ 2 := by
      have hle := (near_rest opacity).le
      have hfraction := fraction_nonneg opacity
      unfold grain at hle
      linarith
    have hmul := (near_unit background).mul (near_rest opacity) (abs_fraction_le background) hrest
    have hle : unit background * round (1 - unit opacity) ≤ 1 * 2 :=
      mul_le_mul (unit_le_one background) hrest (near_rest opacity).nonneg one_pos.le
    have hround := hmul.round hle
    norm_num at hround
    exact hround
  have hexact : mean value background opacity / 255 =
      fraction value * fraction opacity + fraction background * (1 - fraction opacity) := by
    unfold mean fraction
    ring
  have hsum := hopaque.add hclear
  rw [← hexact] at hsum
  have hle : round (unit value * unit opacity) +
      round (unit background * round (1 - unit opacity)) ≤ 2 := by
    have hnear := hsum.le
    have hmean := mean_le value background opacity
    unfold grain at hnear
    linarith
  have hround := hsum.round hle
  norm_num at hround
  exact hround

/-- All roundings together are off by less than the distance of the exact value from the middle
between two integers. -/
theorem abs_unclamped_sub_lt (value background opacity : UInt8) :
    |unclamped value background opacity - (mean value background opacity + 1 / 2)| < 1 / 510 := by
  have hmean := mean_le value background opacity
  have hexact : |mean value background opacity / 255| ≤ 1 := by
    rw [abs_le]
    constructor <;> linarith [mean_nonneg value background opacity]
  have hscale : Near 255 255 0 := ⟨by norm_num, by norm_num⟩
  have hhalf : Near (1 / 2) (1 / 2) 0 := ⟨by norm_num, by norm_num⟩
  have hscaled := (near_sum value background opacity).mul hscale hexact le_rfl
  rw [div_mul_cancel₀ _ (by norm_num)] at hscaled
  have hscaledle := hscaled.le
  have hrounded := hscaled.round (m := 256) (by unfold grain at hscaledle; linarith)
  have hraised := hrounded.add hhalf
  have hraisedle := hraised.le
  have hround := (hraised.round (m := 257) (by unfold grain at hraisedle; linarith)).close
  calc |unclamped value background opacity - (mean value background opacity + 1 / 2)|
      ≤ (11 * 255 + 0 + 256 + 0 + 257) * grain := hround
    _ < 1 / 510 := by
      unfold grain
      norm_num

/-- The nearest integer lies strictly between the middles around the mean, since an odd number is
divided by an even one. -/
theorem floor_unclamped (value background opacity : UInt8) :
    (unclamped value background opacity).floor =
      ((2 * weight value background opacity + 255) / 510 : Nat) := by
  have hclose := abs_lt.mp (abs_unclamped_sub_lt value background opacity)
  rw [mean_eq_weight_div] at hclose
  set w := weight value background opacity
  obtain ⟨hlow, hhigh⟩ : 510 * ((2 * w + 255) / 510) + 1 ≤ 2 * w + 255 ∧
      2 * w + 255 + 1 ≤ 510 * ((2 * w + 255) / 510 + 1) := by omega
  have hlow' : (510 * ((2 * w + 255) / 510 : Nat) + 1 : ℚ) ≤ 2 * w + 255 := by exact_mod_cast hlow
  have hhigh' : (2 * w + 255 + 1 : ℚ) ≤ 510 * ((2 * w + 255) / 510 + 1 : Nat) := by
    exact_mod_cast hhigh
  rw [Nat.cast_add, Nat.cast_one] at hhigh'
  change ⌊unclamped value background opacity⌋ = _
  rw [Int.floor_eq_iff, Int.cast_natCast]
  constructor <;> linarith

theorem floor_clamp {q : ℚ} (hlow : 0 ≤ q.floor) (hhigh : q.floor ≤ 255) :
    (clamp q).floor = q.floor := by
  unfold clamp
  split_ifs with hneg hlarge
  · have : q.floor < 0 := Int.floor_lt.mpr (by exact_mod_cast hneg)
    omega
  · have : 255 ≤ q.floor := Int.le_floor.mpr (by exact_mod_cast hlarge.le)
    have hfloor : Rat.floor 255 = 255 := rfl
    omega
  · rfl

theorem floor_weighted (value background opacity : UInt8) :
    (weighted value background opacity).floor =
      ((2 * weight value background opacity + 255) / 510 : Nat) := by
  have hle := weight_le value background opacity
  have hfloor := floor_unclamped value background opacity
  rw [weighted_eq_clamp, floor_clamp (by omega) (by omega), hfloor]

/-- A channel is drawn as the exact mean, rounded by a division of natural numbers. -/
theorem toNat_channel (value background opacity : UInt8) :
    (channel value background opacity).toNat =
      (2 * weight value background opacity + 255) / 510 := by
  have hle := weight_le value background opacity
  rw [channel, floor_weighted]
  simp
  omega

theorem weight_mono_left {value value' : UInt8} (background opacity : UInt8)
    (h : value ≤ value') :
    weight value background opacity ≤ weight value' background opacity :=
  Nat.add_le_add_right (Nat.mul_le_mul_right _ (UInt8.le_iff_toNat_le.mp h)) _

theorem weight_mono_right {background background' : UInt8} (value opacity : UInt8)
    (h : background ≤ background') :
    weight value background opacity ≤ weight value background' opacity :=
  Nat.add_le_add_left (Nat.mul_le_mul_right _ (UInt8.le_iff_toNat_le.mp h)) _

theorem channel_le_channel {value value' background background' opacity opacity' : UInt8}
    (h : weight value background opacity ≤ weight value' background' opacity') :
    channel value background opacity ≤ channel value' background' opacity' := by
  rw [UInt8.le_iff_toNat_le, toNat_channel, toNat_channel]
  omega

/-- Drawn over itself a channel stays as it is. -/
theorem channel_self (value opacity : UInt8) : channel value value opacity = value := by
  have hopacity : opacity.toNat ≤ 255 := Nat.le_of_lt_succ opacity.toNat_lt
  have hweight : weight value value opacity = value.toNat * 255 := by
    rw [weight, ← Nat.mul_add, Nat.add_sub_cancel' hopacity]
  rw [← UInt8.toNat_inj, toNat_channel, hweight]
  omega

theorem channel_between (value background opacity : UInt8) :
    min value.toNat background.toNat ≤ (channel value background opacity).toNat ∧
      (channel value background opacity).toNat ≤ max value.toNat background.toNat := by
  rcases Nat.le_total value.toNat background.toNat with h | h
  · have hle := UInt8.le_iff_toNat_le.mpr h
    have hlow := channel_le_channel (weight_mono_right value opacity hle)
    have hhigh := channel_le_channel (weight_mono_left background opacity hle)
    rw [channel_self, UInt8.le_iff_toNat_le] at hlow hhigh
    omega
  · have hle := UInt8.le_iff_toNat_le.mpr h
    have hlow := channel_le_channel (weight_mono_left background opacity hle)
    have hhigh := channel_le_channel (weight_mono_right value opacity hle)
    rw [channel_self, UInt8.le_iff_toNat_le] at hlow hhigh
    omega

theorem channel_clear (value background : UInt8) : channel value background 0 = background := by
  rw [← UInt8.toNat_inj, toNat_channel]
  simp [weight]
  omega

theorem channel_solid (value background : UInt8) : channel value background 255 = value := by
  rw [← UInt8.toNat_inj, toNat_channel]
  simp [weight]
  omega

theorem abs_channel_sub_mean_lt (value background opacity : UInt8) :
    |((channel value background opacity).toNat : ℚ) - mean value background opacity| < 1 / 2 := by
  rw [toNat_channel, mean_eq_weight_div, abs_lt]
  set w := weight value background opacity
  have hlow : 510 * ((2 * w + 255) / 510) < 2 * w + 255 := by omega
  have hhigh : 2 * w + 255 < 510 * ((2 * w + 255) / 510) + 510 := by omega
  have hlow' : (510 * ((2 * w + 255) / 510 : Nat) : ℚ) < 2 * w + 255 := by exact_mod_cast hlow
  have hhigh' : (2 * w + 255 : ℚ) < 510 * ((2 * w + 255) / 510 : Nat) + 510 := by
    exact_mod_cast hhigh
  constructor <;> linarith

/-- An integer less than a half away from a value is nearer to it than all others. -/
theorem abs_sub_lt_abs_sub {m n : ℤ} {q : ℚ} (hm : |(m : ℚ) - q| < 1 / 2) (hne : n ≠ m) :
    |(m : ℚ) - q| < |(n : ℚ) - q| := by
  have hone : (1 : ℚ) ≤ |(n : ℚ) - m| := by exact_mod_cast Int.one_le_abs (sub_ne_zero.mpr hne)
  have htriangle := abs_sub_le (n : ℚ) q m
  rw [abs_sub_comm q] at htriangle
  linarith

end Blend

namespace Color

theorem part_blendOver (color background : Color) (p : Primary) :
    (color.blendOver background).part p =
      Blend.channel (color.part p) (background.part p) color.a := by
  cases p <;> rfl

/-- Every channel of a color drawn over a background is the one integer nearest to the exact mean,
never half-way between two. It lies between the two channels, grows with each of them, and is one
of them at the extremes of opacity; restricting and narrowing change nothing about it. -/
theorem blendOver_nearest (color background : Color) (p : Primary) :
    let drawn := (color.blendOver background).part p
    let exact := Blend.mean (color.part p) (background.part p) color.a
    (∀ n : ℤ, n ≠ drawn.toNat → |(drawn.toNat : ℚ) - exact| < |(n : ℚ) - exact|) ∧
      |(drawn.toNat : ℚ) - exact| < 1 / 2 ∧
      (min (color.part p).toNat (background.part p).toNat ≤ drawn.toNat ∧
        drawn.toNat ≤ max (color.part p).toNat (background.part p).toNat) ∧
      (∀ other : Color, other.a = color.a → color.part p ≤ other.part p →
        drawn ≤ (other.blendOver background).part p) ∧
      (∀ other : Color, background.part p ≤ other.part p →
        drawn ≤ (color.blendOver other).part p) ∧
      (color.a = 0 → drawn = background.part p) ∧
      (color.a = 255 → drawn = color.part p) ∧
      (Blend.unclamped (color.part p) (background.part p) color.a).floor = drawn.toNat ∧
      (Blend.weighted (color.part p) (background.part p) color.a).floor = drawn.toNat := by
  intro drawn exact
  have hdrawn : drawn = Blend.channel (color.part p) (background.part p) color.a :=
    part_blendOver color background p
  have hnear : |(drawn.toNat : ℚ) - exact| < 1 / 2 := by
    rw [hdrawn]
    exact Blend.abs_channel_sub_mean_lt _ _ _
  refine ⟨fun n hn => Blend.abs_sub_lt_abs_sub (m := drawn.toNat) hnear hn, hnear, ?_, ?_, ?_, ?_, ?_,
    ?_, ?_⟩
  · rw [hdrawn]
    exact Blend.channel_between _ _ _
  · intro other hopacity hle
    rw [hdrawn, part_blendOver, hopacity]
    exact Blend.channel_le_channel (Blend.weight_mono_left _ _ hle)
  · intro other hle
    rw [hdrawn, part_blendOver]
    exact Blend.channel_le_channel (Blend.weight_mono_right _ _ hle)
  · intro hclear
    rw [hdrawn, hclear, Blend.channel_clear]
  · intro hsolid
    rw [hdrawn, hsolid, Blend.channel_solid]
  · rw [hdrawn, Blend.floor_unclamped, Blend.toNat_channel]
  · rw [hdrawn, Blend.floor_weighted, Blend.toNat_channel]

/-- The exact means are 44.8, 19.4 and 26.6. -/
example : Color.blendOver ⟨0xE0, 0x61, 0x85, 0x33⟩ ⟨0, 0, 0, 0xFF⟩ = ⟨45, 19, 27⟩ := by
  decide +kernel

end Color

end BlockShading
