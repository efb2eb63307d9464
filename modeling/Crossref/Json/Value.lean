import Crossref.Text

/-! JSON values. Numbers are kept as decimals and compared as the nearest binary numbers of double
precision. -/

set_option autoImplicit false

namespace Crossref

/-- A decimal number: digits as an integer, times a power of ten. -/
structure Decimal where
  negative : Bool
  digits : Nat
  exponent : Int
deriving DecidableEq

namespace Decimal

/-- The greatest power of ten that is looked at; beyond it a number is too large or vanishes. -/
def exponentLimit : Nat := 400

/-- The quotient of two numbers, rounded to the nearest integer, with a half going to the even
neighbour. -/
def roundDiv (numerator denominator : Nat) : Nat :=
  let quotient := numerator / denominator
  let twice := 2 * (numerator % denominator)
  if twice < denominator || (twice = denominator && quotient % 2 = 0) then quotient
  else quotient + 1

/-- The nearest number of double precision to a positive quotient, as an integer of about 53 bits
and a power of two. -/
def nearestDouble (numerator denominator : Nat) : Nat × Int :=
  let high := Nat.log2 numerator
  let low := Nat.log2 denominator
  let borrow : Int := if numerator <<< low < denominator <<< high then 1 else 0
  let power := max (-1074) ((high : Int) - low - 52 - borrow)
  (roundDiv (numerator <<< (-power).toNat) (denominator <<< power.toNat), power)

/-- The absolute value of a number at double precision as a quotient, or `none` if it is too large
for that precision. -/
def double? (number : Decimal) : Option (Nat × Nat) :=
  let size : Int := (Nat.toDigits 10 number.digits).length + number.exponent
  if number.digits = 0 || size < -exponentLimit then some (0, 1)
  else if exponentLimit < size then none
  else
    let numerator := number.digits * Nat.pow 10 number.exponent.toNat
    let denominator := Nat.pow 10 (-number.exponent).toNat
    let (bits, power) := nearestDouble numerator denominator
    if 1 <<< 1024 ≤ bits <<< power.toNat then none
    else some (bits <<< power.toNat, 1 <<< (-power).toNat)

def isInteger (number : Decimal) : Bool :=
  number.double?.any fun (numerator, denominator) => numerator % denominator = 0

def isBelowOne (number : Decimal) : Bool :=
  number.double?.any fun (numerator, denominator) => number.negative || numerator < denominator

/-- The natural number that an integer is at double precision; a negative one counts as zero. -/
def toNat (number : Decimal) : Nat :=
  match number.double? with
  | some (numerator, denominator) => if number.negative then 0 else numerator / denominator
  | none => 0

end Decimal

inductive Json where
  | null
  | bool (value : Bool)
  | number (value : Decimal)
  | string (value : Text)
  | array (items : List Json)
  | object (members : List (Text × Json))

end Crossref
