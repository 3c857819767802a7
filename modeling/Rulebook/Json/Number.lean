import Rulebook.Decimal.Shortest

/-!
# JSON numbers

A number is whole or a double.  Which of the two is decided by how it is written: without fraction
and exponent it is whole if it fits 64 bits, unsigned or signed, and a double otherwise; with
either it is a double, so `1` and `1.0` are different numbers.  The text `-0` is the double of
that name.

A double is read from at most 64 bits of digits: further digits only move the point.  The digits
are rounded to a double first and then scaled by a power of ten, which is rounded as well, so the
result may differ from the nearest double in its last bit.
-/

namespace Rulebook

/-- A JSON number. -/
inductive Json.Number where
  /-- A whole number of 64 bits. -/
  | whole (n : Int)
  /-- A floating-point number. -/
  | double (x : Double)
  deriving DecidableEq, Repr, Inhabited

namespace Json.Number

/-- Numbers are equal when they are of one form and of one value. -/
instance : BEq Number where
  beq
    | whole m, whole n => decide (m = n)
    | double x, double y => x == y
    | _, _ => false

/-- A number as it is written. -/
structure Spelling where
  /-- Whether a minus sign stands in front. -/
  negative : Bool
  /-- The digits before the point. -/
  integer : List Nat
  /-- The digits behind the point, if there is one. -/
  fraction : Option (List Nat)
  /-- The power of ten behind the letter `e`, if there is one. -/
  exponent : Option Int

/-- The first number that does not fit 64 bits. -/
def significandLimit : Nat := 18446744073709551616

/-- Takes up digits while the significand fits; answers it with the digits left over. -/
def takeDigits (significand : Nat) : List Nat → Nat × List Nat
  | [] => (significand, [])
  | d :: rest =>
    if significand * 10 + d < significandLimit then takeDigits (significand * 10 + d) rest
    else (significand, d :: rest)

/-- The greatest power of ten that a double is scaled by at once. -/
def scaleLimit : Nat := 308

/-- Divides by `10 ^ n`, in steps that a double can hold. -/
def divideByTens (x : Double) (n : Nat) : Option Double :=
  if _ : n ≤ scaleLimit then x.div? (Double.powerOfTen n)
  else if x.isZero then some x
  else
    match x.div? (Double.powerOfTen scaleLimit) with
    | some y => divideByTens y (n - scaleLimit)
    | none => none
termination_by n
decreasing_by simp only [scaleLimit] at *; omega

/-- The double `significand · 10 ^ tens`, unless it is too great. -/
def scaled? (negative : Bool) (significand : Nat) (tens : Int) : Option Double := do
  let x ← Double.ofRatio? negative significand 1
  if x.isZero then some x
  else if tens < 0 then divideByTens x tens.natAbs
  else if tens.natAbs ≤ scaleLimit then x.mul? (Double.powerOfTen tens.natAbs)
  else none

/-- The value of a list of decimal digits. -/
def ofDigits (digits : List Nat) : Nat := digits.foldl (fun n d => n * 10 + d) 0

/-- Reads a number as a double. -/
def Spelling.double? (s : Spelling) : Option Double :=
  let (head, unread) := takeDigits 0 s.integer
  let fraction := s.fraction.getD []
  let (significand, unreadFraction) := takeDigits head fraction
  let places : Int := fraction.length - unreadFraction.length
  scaled? s.negative significand (unread.length - places + s.exponent.getD 0)

/-- The number that is written, unless it is a double too great to hold. -/
def Spelling.number? (s : Spelling) : Option Number :=
  let n := ofDigits s.integer
  if s.fraction.isSome || s.exponent.isSome then s.double?.map .double
  else if !s.negative && n < significandLimit then some (.whole n)
  else if s.negative && n ≠ 0 && n ≤ significandLimit / 2 then some (.whole (-n))
  else s.double?.map .double

/-- Doubles are written positionally from `1e-5` on and below `1e16`. -/
def layout : Decimal.Layout := ⟨-5, 16⟩

/-- How a number is written. -/
def text : Number → String
  | whole n => toString n
  | double x => Decimal.write layout x

end Json.Number

end Rulebook
