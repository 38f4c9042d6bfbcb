import TypeRules.Yaml.Value.Style

/-! # Pages

A page is a YAML text in the making.  Signs and words go behind each other with a space between
them where one is needed, and lines are indented below what they belong to.

* `Page` is the text so far, with what the next step must know of its last line.
* `Page.sign`, `Page.startLine` write signs and begin lines.
* `Page.tag`, `Page.text` write tags and texts, the latter in their style.
-/

namespace TypeRules.Yaml

/-- A text in the making: its characters backwards, those of its last line counted, whether the
last of them makes a space needless, and whether a sign that comes next stands at the
indentation of its line. -/
structure Page where
  written : List Char
  column : Nat
  spaced : Bool
  indented : Bool

namespace Page

/-! ## Lines and signs -/

def blank : Page := ⟨[], 0, true, true⟩

def content (p : Page) : String := String.ofList p.written.reverse

def put (p : Page) (c : Char) : Page :=
  { p with
    written := c :: p.written
    column := if isBreak c then 0 else p.column + 1 }

/-- The page with more characters on its line. -/
def putAll (p : Page) (cs : List Char) : Page := cs.foldl put p

def space (p : Page) : Page := if p.spaced then p else p.put ' '

def word (p : Page) (cs : List Char) : Page :=
  { p.space.putAll cs with spaced := false, indented := false }

/-- A sign behind a space.  What comes behind it on its line is as if it were indented. -/
def sign (p : Page) (c : Char) : Page := { p.space.put c with spaced := false }

def mark (p : Page) (cs : List Char) : Page :=
  { p.putAll cs with spaced := false, indented := false }

/-- Goes on at an indentation, on a new line unless the last one has not reached it yet. -/
def startLine (p : Page) (indent : Nat) : Page :=
  let p :=
    if !p.indented || indent < p.column || (p.column == indent && !p.spaced) then p.put '\n'
    else p
  { p.putAll (List.replicate (indent - p.column) ' ') with spaced := true, indented := true }

/-! ## Tags -/

/-- The code of a character of a tag that needs no escape. -/
def isPlainTagChar (n : Nat) : Bool :=
  n < 128 && isTagChar true (Char.ofNat n) && n != '!'.toNat

/-- Hexadecimal digits of a number, at least so many. -/
def hexText (width n : Nat) : List Char :=
  let digits := (Nat.toDigits 16 n).map Char.toUpper
  List.replicate (width - digits.length) '0' ++ digits

def tagByte (byte : UInt8) : List Char :=
  let n := byte.toNat
  if isPlainTagChar n then [Char.ofNat n] else '%' :: hexText 2 n

/-- The text of a tag behind its sign.  A name that begins with the sign shares it. -/
def tagName (name : String) : List Char :=
  match (Value.bareName name).toList with
  | '!' :: rest => rest
  | cs => cs

/-- A tag.  Without a name it has to be written in full. -/
def tag (p : Page) (name : String) : Page :=
  match tagName name with
  | [] => p.word "!<%21>".toList
  | cs => p.word ('!' :: (bytesOf cs).flatMap tagByte)

/-! ## Quotes -/

def escapeLetters : List (Nat × Char) :=
  [(0, '0'), (7, 'a'), (8, 'b'), (9, 't'), (10, 'n'), (11, 'v'), (12, 'f'), (13, 'r'), (27, 'e'),
   (34, '"'), (92, '\\'), (0x85, 'N'), (0x2028, 'L'), (0x2029, 'P')]

def doubleQuotedChar (c : Char) : List Char :=
  match escapeLetters.lookup c.toNat with
  | some letter => ['\\', letter]
  | none =>
    if !isSpecial c then [c]
    else if c.toNat < 0x100 then '\\' :: 'x' :: hexText 2 c.toNat
    else if c.toNat < 0x10000 then '\\' :: 'u' :: hexText 4 c.toNat
    else '\\' :: 'U' :: hexText 8 c.toNat

def doubleQuoted (p : Page) (cs : List Char) : Page :=
  p.word ('"' :: cs.flatMap doubleQuotedChar ++ ['"'])

/-- Writes the lines of a text, each at the indentation, with every character in its form.
`fresh` tells whether a line has to begin. -/
def lines (form : Char → List Char) (indent : Nat) (p : Page) (fresh : Bool) :
    List Char → Page × Bool
  | [] => (p, fresh)
  | c :: rest =>
    if isBreak c then lines form indent { p.put c with indented := true } true rest
    else
      let p := if fresh then p.startLine indent else p
      lines form indent { p.putAll (form c) with indented := false } false rest

/-- Characters between single quotes.  A break is followed by the indentation. -/
def singleQuoted (p : Page) (indent : Nat) (cs : List Char) : Page :=
  let form := fun c => if c == '\'' then [c, c] else [c]
  let (p, fresh) := (p.word ['\'']).lines form indent false cs
  (if fresh then p.startLine indent else p).mark ['\'']

/-! ## Literal blocks -/

/-- The signs in front of a literal block.  They tell its indentation if the text begins with a
blank or break, and how it ends unless with a single break. -/
def literalSigns (cs : List Char) : List Char :=
  let indentation := if cs.head?.any fun c => c == ' ' || isBreak c then ['2'] else []
  let ending :=
    match cs.reverse with
    | [] => ['-']
    | c :: rest =>
      if !isBreak c then ['-']
      else if rest.isEmpty || rest.head?.any isBreak then ['+']
      else []
  '|' :: indentation ++ ending

def literal (p : Page) (indent : Nat) (cs : List Char) : Page :=
  let p := (p.word (literalSigns cs)).put '\n'
  ({ p with spaced := true, indented := true }.lines (fun c => [c]) indent true cs).1

/-! ## Texts -/

def text (p : Page) (isKey : Bool) (indent : Nat) (text : String) : Page :=
  match Style.ofText isKey text with
  | .plain => p.word text.toList
  | .singleQuoted => p.singleQuoted indent text.toList
  | .doubleQuoted => p.doubleQuoted text.toList
  | .literal | .folded => p.literal indent text.toList

end Page

end TypeRules.Yaml
