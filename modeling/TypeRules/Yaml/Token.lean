import TypeRules.Yaml.Directive

/-! # Tokens of a YAML text

A YAML text is a sequence of scalars and signs; the beginnings and ends of indented
collections count as signs, although nothing is written for them.

* `Token` enumerates scalars and signs.
* `Scan` is the state between two tokens.  A colon makes a key of what stands before it on
  its line; therefore the places where such a key may have begun are kept (`KeyStart`).
* `Token.ofText` gives the tokens of a text up to its end, or up to the first fault in it.
-/

namespace TypeRules.Yaml

/-- A scalar or sign of a YAML text. -/
inductive Token where
  | documentStart
  | documentEnd
  | directive (directive : Directive)
  | blockSequence
  | blockMapping
  | blockEnd
  | flowSequence
  | flowSequenceEnd
  | flowMapping
  | flowMappingEnd
  | flowEntry
  | blockEntry
  | key
  | value
  | anchor (name : String)
  | alias (name : String)
  | tag (spelling : TagSpelling)
  | scalar (text : String) (style : Style)
  | textEnd
  deriving DecidableEq, Repr

/-! ## Between two tokens -/

/-- A place where a key may have begun: whether it must turn out to be one, the number of
tokens before it, and the place. -/
structure KeyStart where
  required : Bool
  tokens : Nat
  mark : Mark
  deriving Repr

/-- The state between two tokens: the place and the text from there on, the tokens so far, the
indentation of the open collections (the innermost one apart), whether a key may begin here,
and where keys may have begun, for the innermost flow collection first. -/
structure Scan where
  mark : Mark
  rest : List Char
  tokens : Array Token
  indent : Int
  outer : List Int
  keyAllowed : Bool
  keys : List (Option KeyStart)

namespace Scan

/-- The state at the beginning of a text. -/
def start (cs : List Char) : Scan := ⟨Mark.start, cs, #[], -1, [], true, [none]⟩

/-- Whether the place is inside of a flow collection. -/
def inFlow (s : Scan) : Bool := 1 < s.keys.length

def push (s : Scan) (token : Token) : Scan := { s with tokens := s.tokens.push token }

def skip (s : Scan) (n : Nat) : Scan :=
  { s with mark := s.mark.advance (s.rest.take n), rest := s.rest.drop n }

/-- The state with a sign of some characters read. -/
def sign (s : Scan) (n : Nat) (token : Token) : Scan := (s.skip n).push token

/-- The place behind spaces, comments and breaks.  In front of a possible key a tab does not
count as a space.  A byte order mark may begin a line, and takes up a column of it.  A break
outside of flow collections allows a key. -/
def gapFrom (flow comment keyAllowed : Bool) (mark : Mark) :
    List Char → Mark × List Char × Bool
  | [] => (mark, [], keyAllowed)
  | c :: rest =>
    if isBreak c then gapFrom flow false (keyAllowed || !flow) (mark.next c) rest
    else if comment || c == '#' then gapFrom flow true keyAllowed (mark.next c) rest
    else if c == ' ' || (c == '\t' && (flow || !keyAllowed)) ||
        (c == '\ufeff' && mark.column == 0) then
      gapFrom flow false keyAllowed (mark.next c) rest
    else (mark, c :: rest, keyAllowed)

def skipGap (s : Scan) : Scan :=
  let (mark, rest, keyAllowed) := gapFrom s.inFlow false s.keyAllowed s.mark s.rest
  { s with mark, rest, keyAllowed }

/-! ## Keys -/

/-- A place for a key is out of reach on a later line, and after 1024 bytes. -/
def KeyStart.isStale (k : KeyStart) (mark : Mark) : Bool :=
  k.mark.line < mark.line || k.mark.offset + 1024 < mark.offset

/-- Gives up places for keys that are out of reach; one that must be a key is an error. -/
def dropStale? (s : Scan) : Option Scan := do
  let keys ← s.keys.mapM fun key =>
    match key with
    | some k => if KeyStart.isStale k s.mark then if k.required then none else some none else some (some k)
    | none => some none
  return { s with keys }

/-- Gives up the innermost place for a key; one that must be a key is an error. -/
def dropKey? (s : Scan) : Option Scan :=
  match s.keys with
  | some k :: keys => if k.required then none else some { s with keys := none :: keys }
  | _ => some s

/-- Notes the place as one for a key, if a key may begin here. -/
def noteKey? (s : Scan) : Option Scan :=
  if s.keyAllowed then do
    let s ← s.dropKey?
    -- At the indentation of an open mapping nothing but a key can begin.
    let key := ⟨!s.inFlow && s.indent == (s.mark.column : Int), s.tokens.size, s.mark⟩
    return { s with keys := some key :: s.keys.tail }
  else some s

/-! ## Indentation -/

/-- Opens a collection at a column, unless one is open there; its sign is put in front of the
tokens from `position` on. -/
def enter (s : Scan) (column position : Nat) (token : Token) : Scan :=
  if !s.inFlow && s.indent < (column : Int) then
    { s with
      outer := s.indent :: s.outer
      indent := column
      tokens := s.tokens.insertIdxIfInBounds position token }
  else s

/-- Closes the collections that are indented by more than a column, which are given from the
innermost one on. -/
def closeFrom (column : Int) (tokens : Array Token) (indent : Int) :
    List Int → Array Token × Int × List Int
  | [] => (tokens, indent, [])
  | next :: outer =>
    if column < indent then closeFrom column (tokens.push .blockEnd) next outer
    else (tokens, indent, next :: outer)

/-- Closes the collections that are indented by more than a column. -/
def close (s : Scan) (column : Int) : Scan :=
  if s.inFlow then s
  else
    let (tokens, indent, outer) := closeFrom column s.tokens s.indent s.outer
    { s with tokens, indent, outer }

/-! ## One token -/

def scalar (s : Scan) (style : Style) (scanned : Scanned) (keyAllowed : Bool) : Scan :=
  { s with mark := scanned.mark, rest := scanned.rest, keyAllowed }.push
    (.scalar (String.ofList scanned.text) style)

/-- Whether an anchor may end before this text. -/
def endsAnchor : List Char → Bool
  | [] => true
  | c :: rest =>
    atGap (c :: rest) || ['?', ':', ',', ']', '\x7d', '%', '@', '\x60'].contains c

/-- Reads the name of an anchor or alias. -/
def anchor? (s : Scan) (token : String → Token) : Option Scan := do
  let s ← s.noteKey?
  let name := s.rest.tail.takeWhile isNameChar
  let rest := s.rest.tail.drop name.length
  if name.isEmpty || !endsAnchor rest then none
  else return { (s.sign (1 + name.length) (token (String.ofList name))) with keyAllowed := false }

/-- Reads a tag.  Only a gap can end it, or a comma inside of a flow collection. -/
def tag? (s : Scan) : Option Scan := do
  let s ← s.noteKey?
  let (spelling, rest) ← TagSpelling.read? s.rest
  if !atGap rest && !(s.inFlow && rest.head? == some ',') then none
  else
    return { (s.sign (s.rest.length - rest.length) (.tag spelling)) with keyAllowed := false }

def directive? (s : Scan) : Option Scan := do
  let s ← (s.close (-1)).dropKey?
  let (directive, rest) ← Directive.read? s.rest.tail
  return { (s.sign (s.rest.length - rest.length) (.directive directive)) with keyAllowed := false }

/-- Reads the line that begins or ends a document. -/
def documentMark? (s : Scan) (token : Token) : Option Scan := do
  let s ← (s.close (-1)).dropKey?
  return { (s.sign 3 token) with keyAllowed := false }

def openFlow? (s : Scan) (token : Token) : Option Scan := do
  let s ← s.noteKey?
  return { (s.sign 1 token) with keys := none :: s.keys, keyAllowed := true }

/-- Closes a flow collection; outside of any the sign stays without effect on the nesting. -/
def closeFlow? (s : Scan) (token : Token) : Option Scan := do
  let s ← s.dropKey?
  return { (s.sign 1 token) with
    keys := if s.inFlow then s.keys.tail else s.keys
    keyAllowed := false }

def flowEntry? (s : Scan) : Option Scan := do
  let s ← s.dropKey?
  return { (s.sign 1 .flowEntry) with keyAllowed := true }

/-- Reads the sign of an entry of an indented sequence. -/
def blockEntry? (s : Scan) : Option Scan := do
  let s ←
    if s.inFlow then some s
    -- The sign of the sequence comes in front of that of its first item.
    else if s.keyAllowed then some ((s.push .blockEntry).enter s.mark.column s.tokens.size .blockSequence)
    else none
  let s := if s.inFlow then s.push .blockEntry else s
  let s ← s.dropKey?
  return { (s.skip 1) with keyAllowed := true }

def explicitKey? (s : Scan) : Option Scan := do
  if !s.inFlow && !s.keyAllowed then none
  let s := (s.push .key).enter s.mark.column s.tokens.size .blockMapping
  let s ← s.dropKey?
  return { (s.skip 1) with keyAllowed := !s.inFlow }

/-- Reads the sign of a value.  What stands before it from the last place for a key on becomes
a key. -/
def value? (s : Scan) : Option Scan :=
  match s.keys with
  | some k :: keys =>
    -- The mapping opens where its first key begins, so its sign comes in front of the key.
    let s := { s with tokens := s.tokens.insertIdxIfInBounds k.tokens .key, keys := none :: keys }
    let s := s.enter k.mark.column k.tokens .blockMapping
    some { (s.sign 1 .value) with keyAllowed := false }
  | _ =>
    if !s.inFlow && !s.keyAllowed then none
    else
      let s := (s.push .value).enter s.mark.column s.tokens.size .blockMapping
      some { (s.skip 1) with keyAllowed := !s.inFlow }

def block? (s : Scan) (literal : Bool) : Option Scan := do
  let s ← s.dropKey?
  let scanned ← Scanned.block? literal s.indent (s.mark.advance (s.rest.take 1)) s.rest.tail
  return s.scalar (if literal then .literal else .folded) scanned true

def quoted? (s : Scan) (quote : Char) : Option Scan := do
  let s ← s.noteKey?
  let scanned ← Scanned.quoted? quote (s.mark.advance (s.rest.take 1)) s.rest.tail
  return s.scalar (if quote == '\'' then .singleQuoted else .doubleQuoted) scanned false

def plain? (s : Scan) : Option Scan := do
  let s ← s.noteKey?
  let scanned ← Scanned.plain? s.inFlow (s.indent + 1) s.mark s.rest
  return s.scalar .plain scanned scanned.newLine

/-- Whether a plain scalar may begin with this character. -/
def beginsPlain (flow : Bool) (c : Char) (rest : List Char) : Bool :=
  if c == '-' then
    match rest with
    | d :: _ => !isSpace d
    | [] => true
  else if c == '?' || c == ':' then !flow && !atGap rest
  else
    !isSpace c && !isIndicator c

/-- Reads the token that begins here, where neither a space nor the end of the text is. -/
def token? (s : Scan) : Option Scan :=
  match s.rest with
  | [] => none
  | c :: rest =>
    -- Directives and document marks count only at the beginning of a line.
    if s.mark.column == 0 && c == '%' then s.directive?
    else if s.mark.column == 0 && isDocumentMark s.rest then
      s.documentMark? (if c == '-' then .documentStart else .documentEnd)
    else
      match c with
      | '[' => s.openFlow? .flowSequence
      | '\x7b' => s.openFlow? .flowMapping
      | ']' => s.closeFlow? .flowSequenceEnd
      | '\x7d' => s.closeFlow? .flowMappingEnd
      | ',' => s.flowEntry?
      | '*' => s.anchor? .alias
      | '&' => s.anchor? .anchor
      | '!' => s.tag?
      | '\'' => s.quoted? '\''
      | '"' => s.quoted? '"'
      | _ =>
        if c == '-' && atGap rest then s.blockEntry?
        else if c == '?' && (s.inFlow || atGap rest) then s.explicitKey?
        else if c == ':' && (s.inFlow || atGap rest) then s.value?
        else if c == '|' && !s.inFlow then s.block? true
        else if c == '>' && !s.inFlow then s.block? false
        else if beginsPlain s.inFlow c rest then s.plain?
        else none

/-- The state at the end of the text. -/
def finish? (s : Scan) : Option Scan := do
  let s ← (s.close (-1)).dropKey?
  return s.push .textEnd

/-- The tokens that are settled: none from a place on that may still turn out to be a key. -/
def settled (s : Scan) : List Token :=
  let limit := s.keys.foldl (fun n key => match key with
    | some k => min n k.tokens
    | none => n) s.tokens.size
  (s.tokens.toList).take limit

/-- Reads tokens up to the end of the text or to the first fault. -/
def run (s : Scan) : List Token :=
  match s.skipGap.dropStale? with
  | none => s.settled
  | some t =>
    let t := t.close t.mark.column
    if t.rest.isEmpty then
      match t.finish? with
      | none => t.settled
      | some t => t.tokens.toList
    else
      match t.token? with
      | none => t.settled
      -- A step that took up no text would be repeated without end.
      | some u => if u.rest.length < s.rest.length then run u else u.settled
termination_by s.rest.length

end Scan

/-- The tokens of a text; without `textEnd` at the end if the text has a fault. -/
def Token.ofText (cs : List Char) : List Token :=
  match prepare? cs with
  | none => []
  | some cs => (Scan.start cs).run

end TypeRules.Yaml
