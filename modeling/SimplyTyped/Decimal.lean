/-!
# Decimals

Among the reals that round to a given double, `Interval.shortest` picks a decimal
with as few significant digits as possible, and among those the one nearest to the
double itself; of two equally near ones it takes the one with an even last digit.

The search goes over the grids of multiples of `10 ^ k`, from coarse to fine.
If a grid has a point in the interval of reals that round to the double, then
one of the two grid points next to the double is in it, so only these two are
tried. Everything is exact arithmetic on natural numbers.

The digits of a decimal are then fixed; where the point goes and when a power of
ten is split off is a matter of `Layout`.
-/

namespace SimplyTyped

/-- The decimal `0.d₁d₂…dₙ · 10 ^ point`, given by its digits. -/
structure Decimal where
  digits : List Char
  point : Int
  deriving DecidableEq, Repr

namespace Decimal

/-- The decimal `count · 10 ^ k`, without trailing zeros. -/
def ofGrid (count : Nat) (k : Int) : Decimal :=
  let digits := Nat.toDigits 10 count
  ⟨(digits.reverse.dropWhile (· == '0')).reverse, digits.length + k⟩

/-! ### The shortest decimal of a double -/

/-- The reals that round to one positive double, measured in units of
    `2 ^ exponent`: from `low` to `high`, around the double's own `value`. The
    two ends round to the double as well iff the interval is `closed`. -/
structure Interval where
  low : Nat
  value : Nat
  high : Nat
  exponent : Int
  closed : Bool
  deriving Repr

namespace Interval

/-- The interval of `mantissa · 2 ^ exponent`. Its ends lie half-way to the
    neighbouring doubles, so quarter units measure all three points. -/
def around (mantissa : Nat) (exponent : Int) (narrowBelow : Bool) : Interval where
  low := 4 * mantissa - (if narrowBelow then 1 else 2)
  value := 4 * mantissa
  high := 4 * mantissa + 2
  exponent := exponent - 2
  closed := mantissa % 2 == 0

/-- How many times `10 ^ k` goes into one unit of the interval, as a numerator. -/
def scaleNum (i : Interval) (k : Int) : Nat := Nat.pow 2 i.exponent.toNat * Nat.pow 10 (-k).toNat

/-- The denominator that belongs to `scaleNum`. -/
def scaleDen (i : Interval) (k : Int) : Nat := Nat.pow 2 (-i.exponent).toNat * Nat.pow 10 k.toNat

/-- Whether `count · 10 ^ k` lies in the interval. -/
def contains (i : Interval) (k : Int) (count : Nat) : Bool :=
  let low := i.low * i.scaleNum k
  let point := count * i.scaleDen k
  let high := i.high * i.scaleNum k
  if i.closed then low ≤ point && point ≤ high else low < point && point < high

/-- How many whole multiples of `10 ^ k` fit below the value. -/
def below (i : Interval) (k : Int) : Nat := i.value * i.scaleNum k / i.scaleDen k

/-- The multiple of `10 ^ k` nearest to the value; half-way, the even one. -/
def nearest (i : Interval) (k : Int) : Nat :=
  let below := i.below k
  let twice := 2 * (i.value * i.scaleNum k)
  let middle := (2 * below + 1) * i.scaleDen k
  if twice < middle then below
  else if middle < twice then below + 1
  else below + below % 2

/-- The multiple of `10 ^ k` in the interval that is nearest to the value, if
    there is one. -/
def onGrid? (i : Interval) (k : Int) : Option Nat :=
  let below := i.below k
  match i.contains k below, i.contains k (below + 1) with
  | true, true => some (i.nearest k)
  | true, false => some below
  | false, true => some (below + 1)
  | false, false => none

/-- A grid so fine that every positive double spans many of its points. -/
def finestGrid : Int := -340

/-- The position of the value's leading digit: the value is below `10 ^ point`
    and at least a tenth of that. -/
def point (i : Interval) : Int :=
  (i.below finestGrid).repr.length + finestGrid

/-- Seventeen significant digits tell any two doubles apart. -/
def enoughDigits : Nat := 17

/-- The shortest decimal in the interval, and of those the one nearest to the
    value. -/
def shortest (i : Interval) : Decimal :=
  let point := i.point
  let hit? := (List.range enoughDigits).findSome? fun (shorter : Nat) =>
    let k := point - (shorter + 1)
    (i.onGrid? k).map fun count => ofGrid count k
  let finest := point - enoughDigits
  hit?.getD (ofGrid (i.nearest finest) finest)

end Interval

/-! ### Writing a decimal out -/

/-- How decimals are written. A decimal `d.ddd · 10 ^ e` is written without a
    power of ten when `leastPositional ≤ e < pastPositional`; otherwise the
    power is written with its sign and at least `exponentWidth` digits. -/
structure Layout where
  leastPositional : Int
  pastPositional : Int
  exponentWidth : Nat

namespace Layout

def zeros (n : Nat) : List Char := List.replicate n '0'

/-- Without a power of ten. There is always a digit on each side of the point. -/
def positional (d : Decimal) : List Char :=
  let whole := d.point.toNat
  if d.point ≤ 0 then ['0', '.'] ++ zeros (-d.point).toNat ++ d.digits
  else if whole < d.digits.length then d.digits.take whole ++ ['.'] ++ d.digits.drop whole
  else d.digits ++ zeros (whole - d.digits.length) ++ ['.', '0']

/-- With a power of ten. The point stands after the first digit and is left out
    when no digit follows it. -/
def scientific (width : Nat) (d : Decimal) : List Char :=
  let exponent := d.point - 1
  let power := Nat.toDigits 10 exponent.natAbs
  let rest := d.digits.drop 1
  d.digits.take 1 ++ (if rest.isEmpty then [] else '.' :: rest)
    ++ ['e', if exponent < 0 then '-' else '+'] ++ zeros (width - power.length) ++ power

def text (layout : Layout) (d : Decimal) : String :=
  let exponent := d.point - 1
  String.ofList <|
    if layout.leastPositional ≤ exponent && exponent < layout.pastPositional then positional d
    else scientific layout.exponentWidth d

end Layout

end Decimal

end SimplyTyped
