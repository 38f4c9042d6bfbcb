import TypeRules.Decimal.Binary

/-! # The shortest decimal of a stored number

A stored number is shown by the fewest decimal digits that read back as the same number, and
of several such decimals by the nearest one.

* `Binary.readsBack` decides whether a decimal on a grid reads back.
* `Binary.shortest` selects the decimal.
* `Decimal.text` lays it out.
-/

namespace TypeRules

namespace Binary

def toFraction (b : Binary) : Nat × Nat := scale b.mantissa 1 b.exponent

/-- A multiple of a power of ten as a fraction. -/
def gridPoint (n : Nat) (k : Int) : Nat × Nat :=
  if 0 ≤ k then (n * Nat.pow 10 k.toNat, 1) else (n, Nat.pow 10 (-k).toNat)

/-- Whether a fraction is no larger than another one. -/
def fractionLe (x y : Nat × Nat) : Bool := x.1 * y.2 ≤ y.1 * x.2

/-- Whether a decimal on a grid rounds to the number: it lies between the halves to both
neighbours, which count if the mantissa is even. -/
def readsBack (b : Binary) (n : Nat) (k : Int) : Bool :=
  let point := gridPoint n k
  let below :=
    -- Below a power of two the stored numbers lie twice as close.
    if b.mantissa = Nat.pow 2 52 && -1074 < b.exponent then
      scale (4 * b.mantissa - 1) 1 (b.exponent - 2)
    else scale (2 * b.mantissa - 1) 1 (b.exponent - 1)
  let above := scale (2 * b.mantissa + 1) 1 (b.exponent - 1)
  if b.mantissa % 2 = 0 then fractionLe below point && fractionLe point above
  else !fractionLe point below && !fractionLe above point

/-- The largest `e` with `10 ^ e ≤ b`, for a positive number, by looking downwards. -/
def log10 (b : Binary) : Int :=
  (((List.range 640).map fun (i : Nat) => (309 : Int) - (i : Int)).find? fun e =>
    fractionLe (gridPoint 1 e) b.toFraction).getD 0

/-- The decimal on a grid that reads back, if one of the two neighbours of the number does;
the nearer one if both do. -/
def onGrid? (b : Binary) (k : Int) : Option Decimal :=
  let (num, den) := b.toFraction
  let (gridNum, gridDen) := gridPoint 1 k
  let lower := (num * gridDen) / (den * gridNum)
  let nearer := roundDiv (num * gridDen) (den * gridNum)
  -- The nearer neighbour may read back where the other one does not.
  if b.readsBack nearer k then some ⟨nearer, k⟩
  else if b.readsBack lower k then some ⟨lower, k⟩
  else if b.readsBack (lower + 1) k then some ⟨lower + 1, k⟩
  else none

def stripZeros (fuel : Nat) (d : Decimal) : Decimal :=
  match fuel with
  | 0 => d
  | fuel + 1 =>
    if d.digits ≠ 0 && d.digits % 10 = 0 then stripZeros fuel ⟨d.digits / 10, d.exponent + 1⟩
    else d

/-- The shortest decimal that reads back: with one digit, or else with two, and so on; with
seventeen digits one always does. -/
def shortest (b : Binary) : Decimal :=
  if b.mantissa = 0 then ⟨0, 0⟩
  else
    let leading := b.log10
    let found := (List.range 17).findSome? fun (i : Nat) => b.onGrid? (leading - (i : Int))
    stripZeros 20 (found.getD ⟨b.mantissa, 0⟩)

end Binary

/-- A decimal as it is shown: with a point if its leading digit is not far from it, and with an
exponent otherwise. -/
def Decimal.text (d : Decimal) : String :=
  if d.digits = 0 then "0.0"
  else
    let digits := Nat.toDigits 10 d.digits
    let point : Int := digits.length + d.exponent
    if 0 ≤ d.exponent && point ≤ 16 then
      String.ofList (digits ++ List.replicate d.exponent.toNat '0') ++ ".0"
    else if 0 < point && point ≤ 16 then
      String.ofList (digits.take point.toNat ++ '.' :: digits.drop point.toNat)
    else if -5 < point && point ≤ 0 then
      "0." ++ String.ofList (List.replicate (-point).toNat '0' ++ digits)
    else
      match digits with
      | [digit] => String.ofList [digit] ++ "e" ++ toString (point - 1)
      | digit :: rest => String.ofList (digit :: '.' :: rest) ++ "e" ++ toString (point - 1)
      | [] => ""

end TypeRules
