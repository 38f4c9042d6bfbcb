/-! # Places in a YAML text

The characters of a YAML text fall into a few classes, and their places are counted in bytes,
lines and columns.  The breaks of all systems are made alike beforehand, so that a break is a
single character.

* `prepare?` checks the characters of a text and makes its breaks alike.
* `Mark` is a place in the text; `Mark.next` is the place behind a character.
-/

namespace TypeRules.Yaml

/-! ## Classes of characters -/

/-- A line break, once all breaks are alike. -/
def isBreak (c : Char) : Bool := c == '\n' || c == '\u2028' || c == '\u2029'

/-- A character that separates words on a line. -/
def isSpace (c : Char) : Bool := c == ' ' || c == '\t'

/-- The text ends here, or a space or break follows. -/
def atGap : List Char → Bool
  | [] => true
  | c :: _ => isSpace c || isBreak c

/-- A character with a meaning of its own, which does not begin a plain scalar. -/
def isIndicator (c : Char) : Bool :=
  [',', '[', ']', '\x7b', '\x7d', '#', '&', '*', '!', '|', '>', '\'', '"', '%', '@',
    '\x60'].contains c

/-- A character of the names of anchors, handles and directives. -/
def isNameChar (c : Char) : Bool := c.isAlphanum || c == '_' || c == '-'

/-- A character that may stand in a YAML text. -/
def isPrintable (c : Char) : Bool :=
  let n := c.toNat
  n == 9 || n == 0xA || n == 0xD || (0x20 ≤ n && n ≤ 0x7E) || n == 0x85 ||
    (0xA0 ≤ n && n ≤ 0xD7FF) || (0xE000 ≤ n && n ≤ 0xFFFD) || 0x10000 ≤ n

/-- Turns carriage returns, alone or with a line feed, and next-line characters into line
feeds. -/
def alikeBreaks : List Char → List Char
  | [] => []
  | '\r' :: '\n' :: cs => '\n' :: alikeBreaks cs
  | c :: cs => (if c == '\r' || c == '\u0085' then '\n' else c) :: alikeBreaks cs

/-- The text with its breaks alike, if all its characters may stand in a YAML text. -/
def prepare? (cs : List Char) : Option (List Char) :=
  if cs.all isPrintable then some (alikeBreaks cs) else none

/-! ## Places -/

/-- A place in a text: the bytes before it, the lines before its line, and the characters
before it on that line. -/
structure Mark where
  offset : Nat
  line : Nat
  column : Nat
  deriving DecidableEq, Repr

namespace Mark

def start : Mark := ⟨0, 0, 0⟩

def next (m : Mark) (c : Char) : Mark :=
  if isBreak c then ⟨m.offset + c.utf8Size, m.line + 1, 0⟩
  else ⟨m.offset + c.utf8Size, m.line, m.column + 1⟩

def advance (m : Mark) (cs : List Char) : Mark := cs.foldl next m

end Mark

/-- Whether a line that marks the beginning or the end of a document begins here. -/
def isDocumentMark (cs : List Char) : Bool :=
  match cs with
  | a :: b :: c :: rest => a == b && b == c && (a == '-' || a == '.') && atGap rest
  | _ => false

end TypeRules.Yaml
