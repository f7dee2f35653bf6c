/-!
# Rounding rationals to a number of binary digits

A positive rational lies between two neighbouring multiples of a power of two that have a given
number of significant binary digits. `Rounding.toDigits` picks the nearer one, and of two equally
near ones the one whose last digit is zero. Arithmetic in a binary format without overflow or
underflow is exact arithmetic followed by this rounding after every step.
-/

namespace BlockShading.Rounding

def powerOfTwo : Int → Rat
  | .ofNat n => ((Nat.shiftLeft 1 n : Nat) : Rat)
  | .negSucc n => mkRat 1 (Nat.shiftLeft 1 (n + 1))

/-- The nearest integer; of two equally near ones, the even one. -/
def nearestEven (q : Rat) : Int :=
  let low := q.floor
  let rest := q - (low : Rat)
  if rest < mkRat 1 2 then low
  else if mkRat 1 2 < rest then low + 1
  else if low % 2 = 0 then low else low + 1

/-- The exponent of the leading binary digit of a positive rational. -/
def exponent (q : Rat) : Int :=
  let guess : Int := (q.num.natAbs.log2 : Int) - (q.den.log2 : Int)
  if powerOfTwo guess ≤ q then guess else guess - 1

/-- Rounds a rational that is not negative to `digits` significant binary digits. -/
def toDigits (digits : Nat) (q : Rat) : Rat :=
  if q ≤ 0 then 0
  else
    let unit := powerOfTwo (exponent q + 1 - (digits : Int))
    (nearestEven (q / unit) : Rat) * unit

end BlockShading.Rounding
