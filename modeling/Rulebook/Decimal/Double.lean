/-!
# Binary floating-point numbers

A `Double` is a sign, a mantissa and a power of two, so every operation on it is arithmetic on
`Nat` and rounds in one place.  `ofRatio?` gives the double nearest to a fraction, a tie going to
the even mantissa; it has no answer where the nearest number would be infinite.

A double that `ofRatio?` makes is *normal*: its mantissa has exactly 53 bits, or fewer with the
least exponent.  Each finite value then has one form, except that zero has two signs.
-/

namespace Rulebook

/-- The power of a whole exponent that is not negative, and 1 for a negative one.  A power is the
fraction of `power base e` and `power base (-e)`. -/
def power (base : Nat) (e : Int) : Nat := Nat.pow base e.toNat

/-- The finite number `±mantissa · 2 ^ exponent`. -/
structure Double where
  /-- Whether the number stands below zero, or is the negative zero. -/
  negative : Bool
  /-- The digits, as a whole number. -/
  mantissa : Nat
  /-- The power of two that the mantissa is multiplied by. -/
  exponent : Int
  deriving DecidableEq, Repr, Inhabited

namespace Double

/-- The least exponent of a double. -/
def minExponent : Int := -1074

/-- The greatest exponent of a double. -/
def maxExponent : Int := 971

/-- The least mantissa of 53 bits. -/
def leastFull : Nat := power 2 52

/-- The form that rounding gives: 53 bits, or the least exponent. -/
def IsNormal (x : Double) : Prop :=
  x.mantissa < 2 * leastFull ∧ minExponent ≤ x.exponent ∧ x.exponent ≤ maxExponent ∧
    (leastFull ≤ x.mantissa ∨ x.exponent = minExponent)

instance (x : Double) : Decidable x.IsNormal := by unfold IsNormal; infer_instance

/-- Zero with a sign. -/
def zero (negative : Bool) : Double := ⟨negative, 0, minExponent⟩

/-- Whether the number is one of the two zeros. -/
def isZero (x : Double) : Bool := x.mantissa = 0

/-- Two doubles are equal as numbers: the zeros do not differ. -/
instance : BEq Double := ⟨fun x y => decide (x = y) || (x.isZero && y.isZero)⟩

/-- The whole number nearest to `num / den`; a tie goes to the even one. -/
def roundDiv (num den : Nat) : Nat :=
  let quotient := num / den
  let rest := num % den
  if 2 * rest < den ∨ (2 * rest = den ∧ quotient % 2 = 0) then quotient else quotient + 1

/-- The exponent at which `num / den` has a mantissa of 53 bits. -/
def exponentOf (num den : Nat) : Int :=
  let guess : Int := num.log2 - den.log2 - 52
  let short := num * power 2 (-guess) < den * power 2 guess * leastFull
  if short then guess - 1 else guess

/-- The double nearest to `±num / den`, unless that is infinite. -/
def ofRatio? (negative : Bool) (num den : Nat) : Option Double :=
  if num = 0 then some (zero negative)
  else
    let exponent := max (exponentOf num den) minExponent
    let mantissa := roundDiv (num * power 2 (-exponent)) (den * power 2 exponent)
    let rounded : Double :=
      if mantissa = 2 * leastFull then ⟨negative, leastFull, exponent + 1⟩
      else ⟨negative, mantissa, exponent⟩
    if rounded.exponent ≤ maxExponent then some rounded else none

/-- The product of two doubles, rounded. -/
def mul? (x y : Double) : Option Double :=
  let exponent := x.exponent + y.exponent
  ofRatio? (x.negative != y.negative) (x.mantissa * y.mantissa * power 2 exponent)
    (power 2 (-exponent))

/-- The quotient of two doubles, rounded; `y` is not zero. -/
def div? (x y : Double) : Option Double :=
  let exponent := x.exponent - y.exponent
  ofRatio? (x.negative != y.negative) (x.mantissa * power 2 exponent)
    (y.mantissa * power 2 (-exponent))

/-- The double nearest to `10 ^ n`, for `n` up to 308. -/
def powerOfTen (n : Nat) : Double := (ofRatio? false (power 10 n) 1).getD (zero false)

end Double

end Rulebook
