import Rulebook.Decimal.Double

/-!
# The shortest decimal of a double

The decimals that read back as a double are those of an interval around it, whose ends belong to
it when the mantissa is even.  `shortest` finds the coarsest grid `10 ^ k` with a point in that
interval.  Only the two neighbours of the double on a grid can be the nearest such point; of two
that both lie in the interval it takes the nearer, and of two equally near the even one.

Everything is compared in whole numbers: `decimal · 10 ^ k` and `binary · 2 ^ e` are brought to
a common denominator first.
-/

namespace Rulebook.Decimal

/-- How `decimal · 10 ^ tens` compares with `binary · 2 ^ twos`. -/
def compareScaled (decimal : Nat) (tens : Int) (binary : Nat) (twos : Int) : Ordering :=
  compare (decimal * power 10 tens * power 2 (-twos))
    (binary * power 2 twos * power 10 (-tens))

/-- The interval of reals that round to `mantissa · 2 ^ exponent`, in quarters of a unit in the
last place: below a power of two the numbers lie twice as dense. -/
structure Interval where
  /-- Four times the mantissa less the distance to the lower end. -/
  low : Nat
  /-- Four times the mantissa. -/
  middle : Nat
  /-- Four times the mantissa and the distance to the upper end. -/
  high : Nat
  /-- The power of two of a quarter. -/
  twos : Int
  /-- Whether the ends belong to the interval. -/
  closed : Bool

/-- The interval of a double. -/
def Interval.ofDouble (x : Double) : Interval where
  low := 4 * x.mantissa -
    (if x.mantissa = Double.leastFull ∧ Double.minExponent < x.exponent then 1 else 2)
  middle := 4 * x.mantissa
  high := 4 * x.mantissa + 2
  twos := x.exponent - 2
  closed := x.mantissa % 2 = 0

/-- Whether `decimal · 10 ^ tens` lies in the interval. -/
def Interval.holds (i : Interval) (decimal : Nat) (tens : Int) : Bool :=
  let below := compareScaled decimal tens i.low i.twos
  let above := compareScaled decimal tens i.high i.twos
  (below = .gt || (i.closed && below = .eq)) && (above = .lt || (i.closed && above = .eq))

/-- The greatest point of the grid `10 ^ tens` that is not above the middle. -/
def Interval.floorOn (i : Interval) (tens : Int) : Nat :=
  (i.middle * power 2 i.twos * power 10 (-tens)) / (power 10 tens * power 2 (-i.twos))

/-- Of the two neighbours `n` and `n + 1` of the middle, the nearer; of two equally near, the even
one. -/
def Interval.nearer (i : Interval) (n : Nat) (tens : Int) : Nat :=
  match compareScaled (2 * n + 1) tens (2 * i.middle) i.twos with
  | .lt => n + 1
  | .gt => n
  | .eq => if n % 2 = 0 then n else n + 1

/-- The point that the grid `10 ^ tens` has in the interval, if any. -/
def Interval.pointOn? (i : Interval) (tens : Int) : Option Nat :=
  let n := i.floorOn tens
  match i.holds n tens, i.holds (n + 1) tens with
  | true, true => some (i.nearer n tens)
  | true, false => some n
  | false, true => some (n + 1)
  | false, false => none

/-- Walks from the grid `10 ^ tens` to finer ones until one has a point. -/
def Interval.search (i : Interval) : Nat → Int → Option (Nat × Int)
  | 0, _ => none
  | grids + 1, tens =>
    match i.pointOn? tens with
    | some n => some (n, tens)
    | none => i.search grids (tens - 1)

/-- The exact decimal `n · 10 ^ k` of `mantissa · 2 ^ exponent`. -/
def exact (x : Double) : Nat × Int :=
  if 0 ≤ x.exponent then (x.mantissa * power 2 x.exponent, 0)
  else (x.mantissa * power 5 (-x.exponent), x.exponent)

/-- The coarsest grid that a double can lie on. -/
def coarsest : Int := 309

/-- How many grids are tried: seventeen digits are enough for the least double, whose first digit
stands at `10 ^ -324`. -/
def gridCount : Nat := 660

/-- The decimal `n · 10 ^ k` with the fewest digits that reads back as `x`, less its sign.  Where
the search ends without a point, the exact decimal is taken. -/
def shortest (x : Double) : Nat × Int :=
  ((Interval.ofDouble x).search gridCount coarsest).getD (exact x)

/-- When a number is written with a point in its place. -/
structure Layout where
  /-- The least power of ten of a first digit that is written positionally. -/
  leastPlain : Int
  /-- The first power of ten that is written with an exponent again. -/
  firstLarge : Int

/-- The digits of `n · 10 ^ k` with the point in its place, and at least one digit on either
side. -/
def positional (n : Nat) (k : Int) : String :=
  let digits := Nat.toDigits 10 n
  if 0 ≤ k then String.ofList (digits ++ List.replicate k.toNat '0') ++ ".0"
  else
    let places := (-k).toNat
    let padded := List.replicate (places + 1 - digits.length) '0' ++ digits
    String.ofList (padded.take (padded.length - places)) ++ "." ++
      String.ofList (padded.drop (padded.length - places))

/-- The digits of `n · 10 ^ k` with one digit before the point and an exponent behind, which has
a sign and no padding. -/
def scientific (n : Nat) (k : Int) : String :=
  let digits := Nat.toDigits 10 n
  let place := k + (digits.length - 1)
  let fraction := if digits.tail.isEmpty then "" else "." ++ String.ofList digits.tail
  String.ofList (digits.take 1) ++ fraction ++ "e" ++ (if place < 0 then "-" else "+") ++
    toString place.natAbs

/-- Writes a double with the digits of `shortest`. -/
def write (layout : Layout) (x : Double) : String :=
  let sign := if x.negative then "-" else ""
  if x.isZero then sign ++ "0.0"
  else
    let (n, k) := shortest x
    let place := k + ((Nat.toDigits 10 n).length - 1)
    if layout.leastPlain ≤ place ∧ place < layout.firstLarge then sign ++ positional n k
    else sign ++ scientific n k

end Rulebook.Decimal
