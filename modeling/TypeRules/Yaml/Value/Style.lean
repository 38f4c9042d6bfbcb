import TypeRules.Yaml.Value

/-! # The style of a written text

A text goes without quotes where it still reads back as the same text, and in a literal block
if it has several lines.  What does not fit into that style goes into quotes.

* `Features` are the properties of a text that the choice depends on.
* `Style.ofText` is the style of a text.
-/

namespace TypeRules.Yaml

/-! ## Characters -/

def isAnyBreak (c : Char) : Bool := isBreak c || c == '\r' || c == '\u0085'

/-- The text ends here, or a space or any break follows. -/
def atAnyGap : List Char → Bool
  | [] => true
  | c :: _ => isSpace c || isAnyBreak c

/-- A character that only an escape can stand for. -/
def isSpecial (c : Char) : Bool :=
  let n := c.toNat
  !(n == 0xA || (0x20 ≤ n && n ≤ 0x7E) || (0xA0 ≤ n && n ≤ 0xD7FF) ||
    (0xE000 ≤ n && n ≤ 0xFFFD && n != 0xFEFF) || 0x10000 ≤ n)

/-! ## Texts -/

/-- Whether neighbouring characters of a text are of two classes. -/
def hasPair (first second : Char → Bool) : List Char → Bool
  | a :: b :: rest => (first a && second b) || hasPair first second (b :: rest)
  | _ => false

/-- Whether some place behind a character of a text begins a sign of a block. -/
def hasSignBehind : List Char → Bool
  | [] => false
  | c :: rest =>
    (match rest with
      | ':' :: behind => atAnyGap behind
      | '#' :: _ => isSpace c || isAnyBreak c
      | _ => false) || hasSignBehind rest

/-- Whether a text has signs that mean something else outside of quotes. -/
def hasSigns (cs : List Char) : Bool :=
  match cs with
  | [] => false
  | c :: rest =>
    ["---".toList, "...".toList].contains (cs.take 3) || isIndicator c ||
      (['-', '?', ':'].contains c && atAnyGap rest) || hasSignBehind cs

/-- The properties of a text that its style depends on. -/
structure Features where
  /-- There are signs that mean something else outside of quotes. -/
  signs : Bool
  broken : Bool
  /-- A blank or break is at the beginning or end. -/
  openEnded : Bool
  blankEnd : Bool
  blankBehindBreak : Bool
  /-- Only an escape can stand for a part of the text. -/
  special : Bool

namespace Features

def ofText (cs : List Char) : Features where
  signs := hasSigns cs
  broken := cs.any isAnyBreak
  openEnded := (cs.head?.toList ++ cs.getLast?.toList).any fun c => c == ' ' || isAnyBreak c
  blankEnd := cs.getLast? == some ' '
  blankBehindBreak := hasPair isAnyBreak (· == ' ') cs
  special := cs.any isSpecial || hasPair (· == ' ') isAnyBreak cs

def allowsPlain (f : Features) : Bool :=
  !f.signs && !f.broken && !f.openEnded && !f.special

/-- Whether the text can go into single quotes. -/
def allowsSingleQuoted (f : Features) : Bool := !f.blankBehindBreak && !f.special

/-- Whether the text can go into a literal block. -/
def allowsLiteral (f : Features) : Bool := !f.blankEnd && !f.special

end Features

/-- Whether a text would be something else without quotes, or a number for some readers. -/
def readsOtherwise (text : String) : Bool :=
  match Meaning.ofPlain text with
  | .text _ => hasLeadingZero text.toList
  | _ => true

/-- The style of a text.  A key in front of a colon stays on its line. -/
def Style.ofText (isKey : Bool) (text : String) : Style :=
  let f := Features.ofText text.toList
  let quoted := if f.allowsSingleQuoted then singleQuoted else doubleQuoted
  if isKey && f.broken then doubleQuoted
  else if text.toList.contains '\n' then
    if f.allowsLiteral then literal else doubleQuoted
  else if readsOtherwise text || !f.allowsPlain then quoted
  else plain

end TypeRules.Yaml
