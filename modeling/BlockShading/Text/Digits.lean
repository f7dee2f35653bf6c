/-!
# Numbers in texts

The values of digits in a base up to sixteen, and the parts of a decimal fraction with an optional
sign and an optional power of ten.
-/

namespace BlockShading.Text

def digitValue? (c : Char) : Option Nat :=
  if '0' ≤ c ∧ c ≤ '9' then some (c.toNat - '0'.toNat)
  else if 'a' ≤ c ∧ c ≤ 'f' then some (c.toNat - 'a'.toNat + 10)
  else if 'A' ≤ c ∧ c ≤ 'F' then some (c.toNat - 'A'.toNat + 10)
  else none

/-- The value of digits in a base up to sixteen; at least one is needed. -/
def number? (base : Nat) (digits : List Char) : Option Nat :=
  if digits.isEmpty then none
  else digits.foldlM (fun value c =>
    (digitValue? c).bind fun d => if d < base then some (value * base + d) else none) 0

def dropPlus : List Char → List Char
  | '+' :: rest => rest
  | cs => cs

def dropSign : List Char → List Char
  | '-' :: rest => rest
  | '+' :: rest => rest
  | cs => cs

/-- Splits a decimal fraction into its digits and the exponent of the last one; `none` if the text
is not a decimal fraction. -/
def decimal? (cs : List Char) : Option (List Char × Int) :=
  let unsigned := dropSign cs
  let whole := unsigned.takeWhile Char.isDigit
  let afterWhole := unsigned.drop whole.length
  let fraction := match afterWhole with
    | '.' :: rest => rest.takeWhile Char.isDigit
    | _ => []
  let afterFraction := match afterWhole with
    | '.' :: rest => rest.drop fraction.length
    | rest => rest
  let digits := whole ++ fraction
  let scale := -(fraction.length : Int)
  if digits.isEmpty then none
  else
    match afterFraction with
    | [] => some (digits, scale)
    | mark :: rest =>
      if mark = 'e' ∨ mark = 'E' then
        match rest with
        | '-' :: power => (number? 10 power).map fun n => (digits, scale - (n : Int))
        | '+' :: power => (number? 10 power).map fun n => (digits, scale + (n : Int))
        | power => (number? 10 power).map fun n => (digits, scale + (n : Int))
      else none

end BlockShading.Text
