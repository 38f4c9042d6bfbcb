import TypeRules.Yaml.Tag

/-! # Directives

A line with a percent sign in front of a document says how to read it: which version of YAML
it is written in, or what a handle of tags stands for.

* `Directive.read?` reads a directive.
* `Directive.handles?` gives the handles of a document with some directives, if these are in
  order.
-/

namespace TypeRules.Yaml

/-- A line that says how to read a document. -/
inductive Directive where
  | version (major minor : Nat)
  | handle (name : String) (front : Bytes)
  deriving DecidableEq, Repr

namespace Directive

/-! ## Reading -/

/-- Reads a number of a version, which has up to nine digits. -/
def number? (cs : List Char) : Option (Nat × List Char) :=
  let digits := cs.takeWhile Char.isDigit
  if digits.length ≤ 9 then (digitsOf? 10 digits).map fun n => (n, cs.drop digits.length)
  else none

def version? (cs : List Char) : Option (Directive × List Char) := do
  let (major, rest) ← number? cs
  match rest with
  | '.' :: rest =>
    let (minor, rest) ← number? rest
    return (version major minor, rest)
  | _ => none

/-- Reads the name of a handle: the sign of a tag, or a word between two of them. -/
def handleName? : List Char → Option (String × List Char)
  | '!' :: rest =>
    let word := rest.takeWhile isNameChar
    match rest.drop word.length with
    | '!' :: rest => some (String.ofList ('!' :: word ++ ['!']), rest)
    | rest => if word.isEmpty then some ("!", rest) else none
  | _ => none

/-- Reads a handle and what it stands for. -/
def handle? (cs : List Char) : Option (Directive × List Char) := do
  let (name, rest) ← handleName? cs
  if !rest.head?.any isSpace then none
  let (front, rest) ← someTagBytes? true (rest.dropWhile isSpace)
  if atGap rest then return (handle name (untilZero front), rest) else none

/-- Reads a directive from behind its percent sign; gives also the text behind its line. -/
def read? (cs : List Char) : Option (Directive × List Char) := do
  let name := cs.takeWhile isNameChar
  let rest := cs.drop name.length
  if !atGap rest then none
  let content := rest.dropWhile isSpace
  let (directive, rest) ←
    if name = "YAML".toList then version? content
    else if name = "TAG".toList then handle? content
    else none
  return (directive, ← endOfLine? rest)

/-! ## Handles of a document -/

/-- The versions of YAML that a document can be written in. -/
def knownVersions : List (Nat × Nat) := [(1, 1), (1, 2)]

def handles (directives : List Directive) : Handles :=
  directives.filterMap fun directive => match directive with
    | handle name front => some (name, front)
    | version _ _ => none

def versions (directives : List Directive) : List (Nat × Nat) :=
  directives.filterMap fun directive => match directive with
    | version major minor => some (major, minor)
    | handle _ _ => none

/-- The handles of a document.  Its directives may set one version, which must be known, and
each handle once. -/
def handles? (directives : List Directive) : Option Handles :=
  let names := (handles directives).map Prod.fst
  if (versions directives).length ≤ 1 && (versions directives).all knownVersions.contains &&
      names.eraseDups.length == names.length then
    some (handles directives ++ Handles.standard)
  else none

end Directive

end TypeRules.Yaml
