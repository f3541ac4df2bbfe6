import SimplyTyped.Decimal

/-!
# Numerals

A numeral is an integer of any size or a double. `Numeral.text` writes it, and
`Numeral.alike` compares two numerals by what they stand for, exactly: an
integer and a double are alike when they are the same number, the two zeros are
alike, and a not-a-number is alike to nothing, not even itself.

A double is kept as its 64 bits: one for the sign, eleven for the exponent,
fifty-two for the fraction. `Binary64.reading` says what the bits stand for. No
floating-point operation is used, so two doubles are the same value of this
type exactly when they have the same bits.
-/

namespace SimplyTyped

/-! ### Doubles by their bits -/

/-- A double-precision number, given by its bits. -/
structure Binary64 where
  bits : UInt64
  deriving DecidableEq, Repr, Inhabited

namespace Binary64

/-- What the bits of a double stand for. A finite one is
    `± mantissa · 2 ^ exponent`, and zero keeps its sign. -/
inductive Reading where
  | nan
  | infinite (negative : Bool)
  | finite (negative : Bool) (mantissa : Nat) (exponent : Int)
  deriving DecidableEq, Repr

def negative (x : Binary64) : Bool := x.bits.toNat / Nat.pow 2 63 % 2 == 1

def exponentField (x : Binary64) : Nat := x.bits.toNat / Nat.pow 2 52 % Nat.pow 2 11

def fraction (x : Binary64) : Nat := x.bits.toNat % Nat.pow 2 52

/-- Reads the bits. An exponent field of all ones marks infinities and
    not-a-numbers; one of zero marks the subnormals, which have no hidden bit
    and share the exponent of the smallest normal numbers. -/
def reading (x : Binary64) : Reading :=
  if x.exponentField = 2047 then
    if x.fraction = 0 then .infinite x.negative else .nan
  else if x.exponentField = 0 then .finite x.negative x.fraction (-1074)
  else .finite x.negative (x.fraction + Nat.pow 2 52) (x.exponentField - 1075)

/-- Whether the next double towards zero is only half as far away as the next
    one away from zero. This happens at the powers of two, except the smallest
    normal one, below which the spacing stays the same. -/
def narrowBelow (x : Binary64) : Bool := x.fraction == 0 && 1 < x.exponentField

end Binary64

/-! ### Numerals -/

inductive Numeral where
  | int (value : Int)
  | double (value : Binary64)
  deriving DecidableEq, Repr

namespace Numeral

/-! ### Text -/

/-- Doubles from `10 ^ -4` to below `10 ^ 16` are written without a power of
    ten; a power has at least two digits. -/
def layout : Decimal.Layout := ⟨-4, 16, 2⟩

def signed (negative : Bool) (magnitude : String) : String :=
  if negative then "-" ++ magnitude else magnitude

/-- The text of a numeral: plain digits for an integer, the shortest decimal
    that reads back for a double, and words for what is not a finite number. An
    integer is written in full, however long it is: the limit that a host can set
    on the number of digits is left out. -/
def text : Numeral → String
  | int value => signed (value < 0) value.natAbs.repr
  | double value =>
    match value.reading with
    | .nan => "nan"
    | .infinite negative => signed negative "inf"
    | .finite negative mantissa exponent =>
      signed negative <|
        if mantissa = 0 then "0.0"
        else layout.text
          (Decimal.Interval.around mantissa exponent value.narrowBelow).shortest

/-! ### Comparison by value -/

/-- What a numeral stands for. -/
inductive Value where
  | nan
  | infinite (negative : Bool)
  | dyadic (mantissa exponent : Int)
  deriving DecidableEq, Repr

/-- Whether two values are the same number: `m · 2 ^ p = n · 2 ^ q` for finite
    ones, compared after both are brought to the smaller exponent. -/
def Value.same : Value → Value → Bool
  | dyadic m p, dyadic n q =>
    m * Int.pow 2 (p - min p q).toNat == n * Int.pow 2 (q - min p q).toNat
  | infinite negative, infinite negative' => negative == negative'
  | _, _ => false

def value : Numeral → Value
  | int value => .dyadic value 0
  | double value =>
    match value.reading with
    | .nan => .nan
    | .infinite negative => .infinite negative
    | .finite negative mantissa exponent =>
      .dyadic (if negative then -mantissa else mantissa) exponent

def alike (m n : Numeral) : Bool := m.value.same n.value

end Numeral

end SimplyTyped
