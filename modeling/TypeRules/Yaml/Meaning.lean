import TypeRules.Decimal.Shortest
import TypeRules.Yaml.Node

/-! # The meaning of scalars

A scalar without quotes stands for nothing, a truth value, a number or a text, depending on
how it is written.  One in quotes is a text.  A tag of a common kind asks for a meaning of that
kind.

* `Meaning.ofPlain` gives the meaning of a scalar without quotes.
* `Meaning.ofScalar?` gives the meaning of any scalar.
-/

namespace TypeRules.Yaml

inductive Meaning where
  | null
  | bool (value : Bool)
  | integer (value : Int)
  | fraction (text : String)
  /-- An integer beyond the range of stored numbers. -/
  | outOfRange
  | text (text : String)
  deriving DecidableEq, Repr

/-! ## Truth values -/

def boolOf? (text : String) : Option Bool :=
  if ["true", "True", "TRUE"].contains text then some true
  else if ["false", "False", "FALSE"].contains text then some false
  else none

/-! ## Integers -/

/-- The base of a number by its beginning, and the text behind that. -/
def baseOf : List Char → Nat × List Char
  | '0' :: 'x' :: rest => (16, rest)
  | '0' :: 'o' :: rest => (8, rest)
  | '0' :: 'b' :: rest => (2, rest)
  | cs => (10, cs)

def signOf : List Char → Option Bool × List Char
  | '+' :: rest => (some false, rest)
  | '-' :: rest => (some true, rest)
  | cs => (none, cs)

/-- Digits with zeros in front are a text. -/
def hasLeadingZero (cs : List Char) : Bool :=
  match (signOf cs).2 with
  | '0' :: c :: rest => (c :: rest).all Char.isDigit
  | _ => false

/-- The value of an integer, which may have a sign and a base. -/
def integerOf? (cs : List Char) : Option Int := do
  let (sign, rest) := signOf cs
  let (base, digits) := baseOf rest
  if base = 10 && hasLeadingZero cs then none
  let n ← digitsOf? base digits
  return if sign = some true then -(n : Int) else n

/-! ## Fractions -/

/-- The exponent of a decimal: none, or `e` with digits that may have a sign. -/
def exponentOf? : List Char → Option Int
  | [] => some 0
  | c :: rest =>
    if c == 'e' || c == 'E' then do
      let (sign, digits) := signOf rest
      let n ← digitsOf? 10 digits
      return if sign = some true then -(n : Int) else n
    else none

/-- The value of a decimal without a sign: digits with at most one point, of which there is
at least one digit, and an exponent. -/
def decimalOf? (cs : List Char) : Option Decimal := do
  let whole := cs.takeWhile Char.isDigit
  let rest := cs.drop whole.length
  let (parts, rest) := match rest with
    | '.' :: rest => (rest.takeWhile Char.isDigit, rest.dropWhile Char.isDigit)
    | rest => ([], rest)
  let digits ← digitsOf? 10 (whole ++ parts)
  let exponent ← exponentOf? rest
  return ⟨digits, exponent - parts.length⟩

/-- The text as a fraction that is shown, if it reads as one. -/
def fractionOf? (cs : List Char) : Option String := do
  let (sign, rest) := signOf cs
  let mark := if sign = some true then "-" else ""
  if [".inf", ".Inf", ".INF"].contains (String.ofList rest) then return mark ++ ".inf"
  if [".nan", ".NaN", ".NAN"].contains (String.ofList cs) then return ".nan"
  let decimal ← decimalOf? rest
  let binary ← decimal.toBinary?
  return mark ++ binary.shortest.text

/-! ## Scalars -/

/-- The meaning of an integer.  Numbers of up to 128 bits are integers, but only those of 64 bits
are stored; anything beyond is no integer. -/
def Meaning.ofInteger? (n : Int) : Option Meaning :=
  if -Int.pow 2 63 ≤ n && n < Int.pow 2 64 then some (integer n)
  else if -Int.pow 2 127 ≤ n && n < Int.pow 2 128 then some outOfRange
  else none

def Meaning.ofPlain (raw : String) : Meaning :=
  if raw = "" || nullWords.contains raw then null
  else
    match boolOf? raw, (integerOf? raw.toList).bind ofInteger? with
    | some value, _ => bool value
    | none, some number => number
    | none, none =>
      if hasLeadingZero raw.toList then text raw
      else
        match fractionOf? raw.toList with
        | some shown => fraction shown
        | none => text raw

/-- The meaning of a scalar by its text, its style and its tag; nothing if the text does not fit
the tag. -/
def Meaning.ofScalar? (raw : String) (style : Style) (tag : Option Tag) : Option Meaning :=
  match tag with
  | some .null => if nullWords.contains raw then some null else none
  | some .bool => (boolOf? raw).map bool
  | some .integer => (integerOf? raw.toList).bind ofInteger?
  | some .fraction => (fractionOf? raw.toList).map fraction
  | some .text => some (text raw)
  -- A name of its own says nothing about the scalar.
  | _ => some (if style = .plain then ofPlain raw else text raw)

end TypeRules.Yaml
