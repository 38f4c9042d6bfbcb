/-! # Binary fractions of 53 digits

Decimal fractions are stored as the nearest number with a mantissa of at most 53 binary digits
and a limited exponent.

* `Decimal` is a fraction as it is written, digits with a power of ten.
* `Binary.nearest` rounds a positive fraction; a half goes to the even neighbour.
* `Decimal.toBinary?` rounds a decimal, unless it is too large.
-/

namespace TypeRules

/-- A decimal fraction without a sign: `digits * 10 ^ exponent`. -/
structure Decimal where
  digits : Nat
  exponent : Int
  deriving DecidableEq, Repr

/-- A binary fraction without a sign: `mantissa * 2 ^ exponent`. -/
structure Binary where
  mantissa : Nat
  exponent : Int
  deriving DecidableEq, Repr

namespace Binary

/-- The quotient, rounded to the nearest number; a half goes to the even neighbour. -/
def roundDiv (num den : Nat) : Nat :=
  let q := num / den
  let r := num % den
  if 2 * r < den then q
  else if den < 2 * r then q + 1
  else if q % 2 = 0 then q
  else q + 1

/-- `num / den * 2 ^ k` as a fraction. -/
def scale (num den : Nat) (k : Int) : Nat × Nat :=
  if 0 ≤ k then (num * Nat.pow 2 k.toNat, den) else (num, den * Nat.pow 2 (-k).toNat)

/-- The largest `e` with `2 ^ e ≤ num / den`, for positive numbers. -/
def log2 (num den : Nat) : Int :=
  let e : Int := (num.log2 : Int) - den.log2
  let (n, d) := scale num den (-e)
  if n < d then e - 1 else e

/-- The nearest binary fraction of 53 digits, with exponents from -1074 on. -/
def nearest (num den : Nat) : Binary :=
  let exponent := max (log2 num den - 52) (-1074)
  let (n, d) := scale num den (-exponent)
  let mantissa := roundDiv n d
  -- Rounding up can carry into one more digit.
  if mantissa = Nat.pow 2 53 then ⟨Nat.pow 2 52, exponent + 1⟩ else ⟨mantissa, exponent⟩

/-- Whether the exponent is beyond the range of stored numbers. -/
def isTooLarge (b : Binary) : Bool := 971 < b.exponent

end Binary

/-- The nearest stored number; nothing if the decimal is too large for one. -/
def Decimal.toBinary? (d : Decimal) : Option Binary :=
  let leading : Int := (Nat.toDigits 10 d.digits).length + d.exponent
  -- Far outside of the range the power of ten is not needed.
  if d.digits = 0 || leading < -330 then some ⟨0, 0⟩
  else if 310 < leading then none
  else
    let (num, den) :=
      if 0 ≤ d.exponent then (d.digits * Nat.pow 10 d.exponent.toNat, 1)
      else (d.digits, Nat.pow 10 (-d.exponent).toNat)
    let b := Binary.nearest num den
    if b.isTooLarge then none else some b

end TypeRules
