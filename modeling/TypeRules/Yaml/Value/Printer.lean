import TypeRules.Yaml.Value.Page

/-! # Writing YAML values

A value is written in indented lines, with a tag in front of what it belongs to.  A sequence
that is the value of a key goes at the indentation of the key, unless a sign or tag stands
between them.

* `Value.write` writes a value to a page.
* `Value.isWritable` tells which values can be written, and `Value.written?` is the text of
  such a value.
-/

namespace TypeRules.Yaml

/-- The text of a scalar that is no text itself. -/
def Meaning.word : Meaning → String
  | null => "null"
  | bool value => if value then "true" else "false"
  | integer value => toString value
  | fraction shown => shown
  | outOfRange => ""
  | text value => value

def Page.scalar (p : Page) (isKey : Bool) (indent : Nat) : Meaning → Page
  | .text value => p.text isKey indent value
  | meaning => p.word meaning.word.toList

namespace Value

/-! ## Keys -/

/-- The bytes of a value that fits on a line in front of a colon. -/
def lineSize? : Value → Option Nat
  | scalar (.text text) => if text.toList.any isAnyBreak then none else some text.utf8ByteSize
  | scalar meaning => some meaning.word.utf8ByteSize
  | sequence items => if items.isEmpty then some 0 else none
  | mapping entries => if entries.isEmpty then some 0 else none
  | tagged name value => value.lineSize?.map (· + 1 + (bytesOf (Page.tagName name)).length)

/-- Whether the value can stand in front of a colon. -/
def isSimpleKey (v : Value) : Bool := v.lineSize?.any (· ≤ 128)

/-! ## Collections -/

/-- Where a value stands: the indentation of the collection around it, if there is one, and
whether it belongs to a mapping, or is a key in front of a colon. -/
structure Place where
  outer : Option Nat
  inMapping : Bool
  isKey : Bool

namespace Place

/-- The indentation of further lines of a scalar. -/
def scalarIndent (place : Place) : Nat := (place.outer.getD 0) + 2

def mappingIndent (place : Place) : Nat := (place.outer.map (· + 2)).getD 0

/-- The indentation of a sequence on a page. -/
def sequenceIndent (place : Place) (p : Page) : Nat :=
  -- Behind a colon or tag the items can go below the key itself.
  if place.inMapping && !p.indented then place.outer.getD 0 else place.mappingIndent

end Place

mutual

def write (place : Place) (p : Page) : Value → Page
  | scalar meaning => p.scalar place.isKey place.scalarIndent meaning
  | sequence [] => p.word "[]".toList
  | sequence (item :: items) => writeItems (place.sequenceIndent p) p (item :: items)
  | mapping [] => p.word "\x7b\x7d".toList
  | mapping (entry :: entries) => writeEntries place.mappingIndent p (entry :: entries)
  | tagged name value => write place (p.tag name) value

def writeItems (indent : Nat) (p : Page) : List Value → Page
  | [] => p
  | item :: items =>
    writeItems indent (write ⟨some indent, false, false⟩ ((p.startLine indent).sign '-') item) items

/-- Writes the entries of a mapping.  A key that is too long or has several lines is a value
behind a sign of its own. -/
def writeEntries (indent : Nat) (p : Page) : List (Value × Value) → Page
  | [] => p
  | (key, value) :: entries =>
    let p := p.startLine indent
    let p :=
      if key.isSimpleKey then (write ⟨some indent, true, true⟩ p key).mark [':']
      else ((write ⟨some indent, true, false⟩ (p.sign '?') key).startLine indent).sign ':'
    writeEntries indent (write ⟨some indent, true, false⟩ p value) entries

end

/-! ## Whole values -/

/-- Whether a value looks like a tag in front of a value, when it is the only key of a mapping. -/
def looksLikeTag : Value → Bool
  | mapping entries => entries.length == 1
  | tagged _ _ => true
  | _ => false

/-- Whether some entries are a single one with a key that looks like a tag. -/
def hasTagKey : List (Value × Value) → Bool
  | [(key, _)] => key.looksLikeTag
  | _ => false

mutual

/-- Whether the value can be written.  A mapping of a single entry cannot be told from a tagged
value if its key looks like a tag, unless it has a tag itself. -/
def isWritable : Value → Bool
  | scalar _ => true
  | sequence items => allWritable items
  | mapping entries => !hasTagKey entries && entriesWritable entries
  | tagged _ (mapping entries) => entriesWritable entries
  | tagged _ value => value.isWritable

def allWritable : List Value → Bool
  | [] => true
  | item :: items => item.isWritable && allWritable items

/-- Whether the keys and values of several entries can be written. -/
def entriesWritable : List (Value × Value) → Bool
  | [] => true
  | (key, value) :: entries => key.isWritable && value.isWritable && entriesWritable entries

end

/-- The text of a value, if it can be written. -/
def written? (v : Value) : Option String :=
  if v.isWritable then some (write ⟨none, false, false⟩ Page.blank v).content else none

end Value

end TypeRules.Yaml
