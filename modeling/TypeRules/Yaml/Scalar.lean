import TypeRules.Yaml.Mark

/-! # Scalars of a YAML text

The five ways to write a scalar (`Style`), each read to the place where it ends.

* `Scanned.plain?` — without quotes,
* `Scanned.quoted?` — in single or double quotes,
* `Scanned.block?` — as a block of indented lines, kept or folded.

In all but kept blocks a single line break reads as a space, and each further one as a line
feed; `Gap` collects what stands between two words until it is known how it reads.
-/

namespace TypeRules.Yaml

inductive Style where
  | plain
  | singleQuoted
  | doubleQuoted
  | literal
  /-- A block whose single line breaks read as spaces. -/
  | folded
  deriving DecidableEq, Repr

/-- A scalar that was read: its text, the place behind it, the text from there on, and whether
the reading went over to a new line. -/
structure Scanned where
  text : List Char
  mark : Mark
  rest : List Char
  newLine : Bool

/-! ## Gaps between words -/

/-- The spaces and breaks since the last word of a scalar.  Once there is a break, spaces do
not count. -/
structure Gap where
  spaces : List Char
  broken : Bool
  first : Option Char
  further : List Char

namespace Gap

def none : Gap := ⟨[], false, Option.none, []⟩

/-- A break that was hidden by a backslash. -/
def hidden : Gap := ⟨[], true, Option.none, []⟩

/-- Whether there is nothing since the last word. -/
def isNone (g : Gap) : Bool := g.spaces.isEmpty && !g.broken

/-- The gap with one more space or break. -/
def push (g : Gap) (c : Char) : Gap :=
  if isBreak c then
    if g.broken then { g with further := g.further ++ [c] } else ⟨[], true, some c, []⟩
  else if g.broken then g
  else { g with spaces := g.spaces ++ [c] }

/-- How the gap reads before a further word. -/
def text (g : Gap) : List Char :=
  if g.broken then
    match g.first with
    | some '\n' => if g.further.isEmpty then [' '] else g.further
    | first => first.toList ++ g.further
  else g.spaces

end Gap

/-! ## Plain scalars -/

/-- Whether a plain scalar ends before this character. -/
def endsPlain (flow : Bool) (c : Char) (rest : List Char) : Bool :=
  (c == ':' && atGap rest) || (flow && [',', '[', ']', '\x7b', '\x7d'].contains c)

/-- A colon that is glued to the end of an entry of a flow collection is an error. -/
def gluedColon (flow : Bool) (c : Char) (rest : List Char) : Bool :=
  flow && c == ':' &&
    match rest with
    | d :: _ => [',', '?', '[', ']', '\x7b', '\x7d'].contains d
    | [] => false

/-- Reads on in a plain scalar.  `done` is what was read, backwards; lines that go on must be
indented by `margin`, unless inside of a flow collection. -/
def plainFrom? (flow : Bool) (margin : Int) (done : List Char) (gap : Gap) (mark : Mark) :
    List Char → Option Scanned
  | [] => some ⟨done.reverse, mark, [], gap.broken⟩
  | c :: rest =>
    if isSpace c || isBreak c then
      -- A tab may not stand where a further line is indented.
      if c == '\t' && gap.broken && (mark.column : Int) < margin then none
      else plainFrom? flow margin done (gap.push c) (mark.next c) rest
    -- Only behind a gap can indentation, a document mark or a comment end the scalar.
    else if !gap.isNone &&
        ((!flow && (mark.column : Int) < margin) ||
          (mark.column == 0 && isDocumentMark (c :: rest)) || c == '#') then
      some ⟨done.reverse, mark, c :: rest, gap.broken⟩
    else if gluedColon flow c rest then none
    else if endsPlain flow c rest then some ⟨done.reverse, mark, c :: rest, gap.broken⟩
    else plainFrom? flow margin (c :: (gap.text.reverse ++ done)) Gap.none (mark.next c) rest

def Scanned.plain? (flow : Bool) (margin : Int) (mark : Mark) (cs : List Char) : Option Scanned :=
  plainFrom? flow margin [] Gap.none mark cs

/-! ## Quoted scalars -/

/-- What a character behind a backslash stands for. -/
def escaped? (c : Char) : Option Char :=
  match c with
  | '0' => some '\x00'
  | 'a' => some '\x07'
  | 'b' => some '\x08'
  | 't' => some '\t'
  | '\t' => some '\t'
  | 'n' => some '\n'
  | 'v' => some '\x0b'
  | 'f' => some '\x0c'
  | 'r' => some '\r'
  | 'e' => some '\x1b'
  | ' ' => some ' '
  | '"' => some '"'
  | '/' => some '/'
  | '\\' => some '\\'
  | 'N' => some '\u0085'
  | '_' => some '\u00a0'
  | 'L' => some '\u2028'
  | 'P' => some '\u2029'
  | _ => none

def escapeDigits? (c : Char) : Option Nat :=
  match c with
  | 'x' => some 2
  | 'u' => some 4
  | 'U' => some 8
  | _ => none

def hexValue? (c : Char) : Option Nat :=
  if c.isDigit then some (c.toNat - '0'.toNat)
  else if 'a' ≤ c && c ≤ 'f' then some (c.toNat - 'a'.toNat + 10)
  else if 'A' ≤ c && c ≤ 'F' then some (c.toNat - 'A'.toNat + 10)
  else none

/-- The value of digits of a base, of which there is at least one. -/
def digitsOf? (base : Nat) (cs : List Char) : Option Nat :=
  if cs.isEmpty then none
  else
    cs.foldlM
      (fun value c => do
        let d ← hexValue? c
        if d < base then some (value * base + d) else none)
      0

def charOfCode? (n : Nat) : Option Char :=
  if n.isValidChar then some (Char.ofNat n) else none

/-- Reads on in a quoted scalar.  `code` is a numeric escape in the making: the digits to come
and the value of those before. -/
def quotedFrom? (quote : Char) (done : List Char) (gap : Gap) (code : Option (Nat × Nat))
    (mark : Mark) : List Char → Option Scanned
  | [] => none
  | c :: rest =>
    match code with
    | some (digits, value) =>
      match hexValue? c with
      | none => none
      | some d =>
        let value := value * 16 + d
        -- The last digit completes the escape.
        if digits ≤ 1 then
          match charOfCode? value with
          | none => none
          | some e => quotedFrom? quote (e :: done) Gap.none none (mark.next c) rest
        else quotedFrom? quote done Gap.none (some (digits - 1, value)) (mark.next c) rest
    | none =>
      if isSpace c || isBreak c then
        quotedFrom? quote done (gap.push c) none (mark.next c) rest
      else if mark.column == 0 && isDocumentMark (c :: rest) then none
      else
        let done := gap.text.reverse ++ done
        let mark := mark.next c
        if c == quote then
          match rest with
          | '\'' :: rest =>
            -- Two single quotes stand for one.
            if quote == '\'' then
              quotedFrom? quote ('\'' :: done) Gap.none none (mark.next '\'') rest
            else some ⟨done.reverse, mark, '\'' :: rest, false⟩
          | rest => some ⟨done.reverse, mark, rest, false⟩
        else if quote == '"' && c == '\\' then
          match rest with
          | [] => none
          | e :: rest =>
            -- A backslash hides the break behind it.
            if isBreak e then quotedFrom? quote done Gap.hidden none (mark.next e) rest
            else
              match escapeDigits? e, escaped? e with
              | some digits, _ => quotedFrom? quote done Gap.none (some (digits, 0)) (mark.next e) rest
              | none, some d => quotedFrom? quote (d :: done) Gap.none none (mark.next e) rest
              | none, none => none
        else quotedFrom? quote (c :: done) Gap.none none mark rest

/-- Reads a quoted scalar from behind its opening quote. -/
def Scanned.quoted? (quote : Char) (mark : Mark) (cs : List Char) : Option Scanned :=
  quotedFrom? quote [] Gap.none none mark cs

/-! ## Block scalars -/

/-- What happens to the line breaks at the end of a block. -/
inductive Chomping where
  | strip
  | clip
  | keep
  deriving DecidableEq, Repr

/-- A line with the break that ends it; the last line of a text has none. -/
abbrev Line := List Char × Option Char

def linesOf : List Char → List Line
  | [] => [([], none)]
  | c :: cs =>
    if isBreak c then ([], some c) :: linesOf cs
    else
      match linesOf cs with
      | [] => [([c], none)]
      | (line, ending) :: rest => (c :: line, ending) :: rest

def textOfLines (lines : List Line) : List Char :=
  lines.flatMap fun (line, ending) => line ++ ending.toList

/-- The number of blanks at the front of a line. -/
def blanksOf (line : List Char) : Nat := (line.takeWhile (· == ' ')).length

/-- The indentation of a block, judged by its first line that is not empty and the empty ones
before it; at least `least`.  A tab in the place of indentation is an error. -/
def blockIndent? (least widest : Nat) : List Line → Option Nat
  | [] => some (max widest least)
  | (line, ending) :: rest =>
    let n := blanksOf line
    let widest := max widest n
    match line.drop n, ending with
    -- A line of nothing but blanks can widen the indentation.
    | [], some _ => blockIndent? least widest rest
    | [], none => some (max widest least)
    | c :: _, _ => if c == '\t' then none else some (max widest least)

/-- The state of a block: the text so far backwards, the break behind its last line, the breaks
behind that, and whether the last line began with a space. -/
structure Block where
  done : List Char
  leading : Option Char
  trailing : List Char
  spaced : Bool

/-- The text with the breaks before a further line.  In a folded block a single break between
two lines that do not begin with a space reads as a space. -/
def Block.joined (literal : Bool) (b : Block) (spaced : Bool) : List Char :=
  if !literal && b.leading == some '\n' && !b.spaced && !spaced then
    if b.trailing.isEmpty then ' ' :: b.done else b.trailing.reverse ++ b.done
  else b.trailing.reverse ++ b.leading.toList ++ b.done

/-- Reads the lines of a block up to the first that is less indented; gives the state at the
end and the lines from there on, whose first is cut at the place of the end. -/
def blockLines? (literal : Bool) (indent : Nat) (b : Block) : List Line → Option (Block × List Line)
  | [] => some (b, [])
  | (line, ending) :: rest =>
    let n := min (blanksOf line) indent
    match line.drop n with
    | [] =>
      match ending with
      | some c => blockLines? literal indent { b with trailing := b.trailing ++ [c] } rest
      | none => some (b, [([], none)])
    | c :: cs =>
      if n < indent then
        -- A line that is less indented is not part of the block.
        if c == '\t' then none else some (b, (c :: cs, ending) :: rest)
      else
        blockLines? literal indent
          ⟨(c :: cs).reverse ++ b.joined literal (isSpace c), ending, [], isSpace c⟩ rest

def Block.text (b : Block) (chomping : Chomping) : List Char :=
  b.done.reverse ++
    (match chomping with
      | .strip => []
      | .clip => b.leading.toList
      | .keep => b.leading.toList ++ b.trailing)

/-- The head of a block: how its end is chomped, an explicit indentation, and the text behind
the line of the head. -/
structure BlockHead where
  chomping : Chomping
  indent : Option Nat
  rest : List Char

def chompingOf? : List Char → Option (Chomping × List Char)
  | '+' :: rest => some (.keep, rest)
  | '-' :: rest => some (.strip, rest)
  | _ => none

def indentOf? : List Char → Option (Nat × List Char)
  | c :: rest =>
    if c.isDigit then some (c.toNat - '0'.toNat, rest) else none
  | [] => none

/-- Drops the rest of a line that may have nothing more than a comment, and its break. -/
def endOfLine? (cs : List Char) : Option (List Char) :=
  let cs := cs.dropWhile isSpace
  let cs := if cs.head? = some '#' then cs.dropWhile fun c => !isBreak c else cs
  match cs with
  | [] => some []
  | c :: rest => if isBreak c then some rest else none

/-- Reads the head of a block, in which sign and indentation may come in either order. -/
def blockHead? (cs : List Char) : Option BlockHead :=
  let (chomping, indent, cs) :=
    match chompingOf? cs with
    | some (chomping, cs) =>
      match indentOf? cs with
      | some (n, cs) => (chomping, some n, cs)
      | none => (chomping, none, cs)
    | none =>
      match indentOf? cs with
      | some (n, cs) =>
        match chompingOf? cs with
        | some (chomping, cs) => (chomping, some n, cs)
        | none => (.clip, some n, cs)
      | none => (.clip, none, cs)
  if indent = some 0 then none
  else (endOfLine? cs).map fun rest => ⟨chomping, indent, rest⟩

/-- Reads a block scalar from behind its indicator, inside of a collection that is indented by
`parent`, which is negative outside of all. -/
def Scanned.block? (literal : Bool) (parent : Int) (mark : Mark) (cs : List Char) :
    Option Scanned := do
  let head ← blockHead? cs
  let lines := linesOf head.rest
  let indent ←
    match head.indent with
    -- An explicit indentation adds to that of the collection around the block.
    | some n => some (if 0 ≤ parent then parent.toNat + n else n)
    | none => blockIndent? (max (parent + 1).toNat 1) 0 lines
  let (block, remaining) ← blockLines? literal indent ⟨[], none, [], false⟩ lines
  let rest := textOfLines remaining
  return ⟨block.text head.chomping, mark.advance (cs.take (cs.length - rest.length)), rest, true⟩

end TypeRules.Yaml
