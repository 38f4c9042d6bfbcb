import TypeRules.Yaml.Scalar

/-! # Tags

A tag in front of a node says what kind of value the node is.  It is spelled in full, or as a
handle with a suffix; what the handle stands for is up to the document.  Bytes that are not
allowed in a tag can be escaped, also bytes that are no text.

* `TagSpelling.read?` reads a tag as it is spelled.
* `Handles` tell what handles stand for, and `TagSpelling.resolve?` applies them.
* `Tag.ofBytes` gives the meaning of a tag in full.
-/

namespace TypeRules.Yaml

/-! ## Bytes of tags -/

abbrev Bytes := List UInt8

def bytesOf (cs : List Char) : Bytes := (String.ofList cs).toUTF8.data.toList

def untilZero (bytes : Bytes) : Bytes := bytes.takeWhile (· ≠ 0)

/-- A character that stands for itself in a tag.  Signs of flow collections are allowed only in
tags that are written in full. -/
def isTagChar (full : Bool) (c : Char) : Bool :=
  isNameChar c ||
    [';', '/', '?', ':', '@', '&', '=', '+', '$', '.', '!', '~', '*', '\'', '(', ')'].contains c ||
    (full && [',', '[', ']'].contains c)

/-- How many bytes of a character come behind its first byte. -/
def furtherBytes? (byte : Nat) : Option Nat :=
  if byte < 0x80 then some 0
  else if byte < 0xC0 then none
  else if byte < 0xE0 then some 1
  else if byte < 0xF0 then some 2
  else if byte < 0xF8 then some 3
  else none

/-- Reads the bytes of a tag up to the first character that does not belong to it.  `due` is the
number of bytes that an escaped character still lacks; they must be escaped, too. -/
def tagBytes? (full : Bool) (due : Nat) : List Char → Option (Bytes × List Char)
  | '%' :: high :: low :: rest => do
    let byte := 16 * (← hexValue? high) + (← hexValue? low)
    let due ←
      if due = 0 then furtherBytes? byte
      else if 0x80 ≤ byte && byte < 0xC0 then some (due - 1)
      else none
    let (bytes, rest) ← tagBytes? full due rest
    return (UInt8.ofNat byte :: bytes, rest)
  | c :: rest =>
    if c == '%' || 0 < due then none
    else if isTagChar full c then do
      let (bytes, rest) ← tagBytes? full 0 rest
      return (UInt8.ofNat c.toNat :: bytes, rest)
    else some ([], c :: rest)
  | [] => if due = 0 then some ([], []) else none

/-- Reads bytes of a tag, of which there must be some. -/
def someTagBytes? (full : Bool) (cs : List Char) : Option (Bytes × List Char) :=
  (tagBytes? full 0 cs).filter fun (bytes, _) => !bytes.isEmpty

/-! ## Spelling -/

/-- A tag as it is spelled: its handle and the rest.  A tag in full has an empty handle. -/
structure TagSpelling where
  handle : String
  suffix : Bytes
  deriving DecidableEq, Repr

/-- Reads a tag as it is spelled; gives also the text behind it. -/
def TagSpelling.read? : List Char → Option (TagSpelling × List Char)
  | '!' :: '<' :: rest => do
    let (suffix, rest) ← someTagBytes? true rest
    match rest with
    | '>' :: rest => return (⟨"", untilZero suffix⟩, rest)
    | _ => none
  | '!' :: rest =>
    let word := rest.takeWhile isNameChar
    match rest.drop word.length with
    | '!' :: rest => do
      let (suffix, rest) ← someTagBytes? false rest
      return (⟨String.ofList ('!' :: word ++ ['!']), untilZero suffix⟩, rest)
    | rest => do
      let (bytes, rest) ← tagBytes? false 0 rest
      let suffix := untilZero (bytesOf word ++ bytes)
      -- The sign of a tag alone is a tag in full.
      return (if suffix.isEmpty then ⟨"", bytesOf ['!']⟩ else ⟨"!", suffix⟩, rest)
  | _ => none

/-! ## Meaning -/

inductive Tag where
  /-- A kind of value that has a name of its own. -/
  | named (name : String)
  /-- A kind of value whose name is no text. -/
  | illegible
  | null
  | bool
  | integer
  | fraction
  /-- Any other tag, with which a scalar is a text. -/
  | text
  deriving DecidableEq, Repr

/-- What the tags of common kinds begin with. -/
def commonTags : String := "tag:yaml.org,2002:"

/-- The tags of the common kinds other than texts. -/
def Tag.common : List (String × Tag) :=
  [(commonTags ++ "null", null), (commonTags ++ "bool", bool), (commonTags ++ "int", integer),
   (commonTags ++ "float", fraction)]

/-- The meaning of a tag in full.  What begins with the sign of a tag is a name, which does not
contain the sign, unless it is nothing else. -/
def Tag.ofBytes (bytes : Bytes) : Tag :=
  if bytes.head? = some 33 then
    let name := if bytes.tail.isEmpty then bytes else bytes.tail
    match String.fromUTF8? ⟨name.toArray⟩ with
    | some name => named name
    | none => illegible
  else
    match common.find? fun (name, _) => bytesOf name.toList = bytes with
    | some (_, tag) => tag
    | none => text

/-! ## Handles -/

/-- What handles stand for, with the one that counts first. -/
abbrev Handles := List (String × Bytes)

/-- The handles of every document, unless it sets them anew. -/
def Handles.standard : Handles :=
  [("!", bytesOf ['!']), ("!!", bytesOf commonTags.toList)]

/-- The meaning of a tag; nothing if its handle is not known. -/
def TagSpelling.resolve? (t : TagSpelling) (handles : Handles) : Option Tag :=
  if t.handle = "" then some (.ofBytes t.suffix)
  else (handles.lookup t.handle).map fun front => .ofBytes (front ++ t.suffix)

end TypeRules.Yaml
