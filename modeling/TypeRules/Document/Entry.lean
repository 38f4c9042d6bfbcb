import TypeRules.Document
import TypeRules.Document.Field

/-! # Reading entries

The entries of the lists of a block.  Entries about types and responses are mappings with
known keys.  An entry about a parameter tells by its keys which of the four alternatives it
is; there scalars have their meaning, and only texts count as texts, and nothing can have a tag
that is a name.

* `Entry.read` reads an entry with a certain key for its rule.
* `readUntagged` reads a value whose keys or meaning tell what it is.
* `ParameterEntry.ofValue?` tries the alternatives in order.
* `ruleTexts` reads the rules of an extension, which may be a single one.
-/

namespace TypeRules

open Yaml

/-! ## Entries with known keys -/

/-- An entry before it is known to have a rule. -/
structure Draft where
  rule : Option String
  generics : List String

def Draft.keys (ruleKey : String) (depth : Nat) : List (Key Draft) :=
  [.of ruleKey Field.text fun rule draft => { draft with rule := some rule },
   .of "generics" (Field.items (fun _ => Field.text) depth) fun generics draft =>
    { draft with generics }]

/-- Reads an entry whose rule is under the given key. -/
def Entry.read (ruleKey : String) : Reader Entry := fun depth node => do
  let draft ← Key.readAll (Draft.keys ruleKey) ⟨none, []⟩ depth node
  match draft.rule with
  | some rule => return ⟨rule, draft.generics⟩
  | none => .refuse

/-! ## Alternatives -/

/-- Reads a value without tags as the first alternative that fits. -/
def readUntagged {α : Type} (alternatives : Value → Option α) : Reader α := fun depth node => do
  let value ← Reading.ofOption (Value.ofNode? depth node)
  match alternatives value with
  | some result => if value.isUntagged then return result else .refuse
  | none => .refuse

/-- The key of an entry: one of a list of names, or its number in the list.  An outer nothing
is for values that are no keys at all, an inner one for other names. -/
def keyOf? (names : List String) : Value → Option (Option String)
  | .scalar (.text name) => some (names.find? (· == name))
  | .scalar (.integer n) => if n < 0 then none else some names[n.toNat]?
  | _ => none

/-- The values of the known keys among some entries; nothing if a known key occurs twice, or
if a key is no key. -/
def known? (names : List String) :
    List (Value × Value) → List (String × Value) → Option (List (String × Value))
  | [], found => some found
  | (key, value) :: rest, found => do
    match ← keyOf? names key with
    | none => known? names rest found
    | some name =>
      if (found.lookup name).isSome then none else known? names rest ((name, value) :: found)

/-- The type arguments among known keys, which may be left out. -/
def genericsOf? (found : List (String × Value)) : Option (List String) :=
  match found.lookup "generics" with
  | some value => value.texts?
  | none => some []

/-- An entry with a rule under the given key. -/
def entryOf? (ruleKey : String) : Value → Option Entry
  | .mapping entries => do
    let found ← known? [ruleKey, "generics"] entries []
    let rule ← (← found.lookup ruleKey).text?
    let generics ← genericsOf? found
    return ⟨rule, generics⟩
  | _ => none

/-- An entry without keys: a rule, and type arguments behind it. -/
def bareEntryOf? : Value → Option Entry
  | .sequence [rule] => rule.text?.map fun rule => ⟨rule, []⟩
  | .sequence [rule, generics] => do
    let rule ← rule.text?
    let generics ← generics.texts?
    return ⟨rule, generics⟩
  | _ => none

def dropOf? : Value → Option String
  | .mapping entries => do
    let found ← known? ["drop"] entries []
    (← found.lookup "drop").text?
  | _ => none

namespace ParameterEntry

def ofValue? (value : Value) : Option ParameterEntry :=
  ((entryOf? "name" value).map name).orElse fun _ =>
  ((entryOf? "add" value).map add).orElse fun _ =>
  ((dropOf? value).map drop).orElse fun _ =>
  ((entryOf? "type" value).map type).orElse fun _ =>
  (bareEntryOf? value).map type

def read : Reader ParameterEntry := readUntagged ofValue?

end ParameterEntry

/-- Reads a single rule text or a list of them. -/
def ruleTexts : Reader (List String) :=
  readUntagged fun value => (value.text?.map fun rule => [rule]).orElse fun _ => value.texts?

end TypeRules
