import TypeRules.Error
import TypeRules.Yaml.Meaning

/-! # Reading fields

How the values of known keys are read from a YAML tree.  What is there is read in the order
in which it is written, so that of two faults the first one counts.

* `Field.text`, `Field.optional`, `Field.truth` read scalars, `Field.items` reads lists.
* `Field.entries` reads mappings whose keys are texts of their own.
* `Key` is a known key, and `Key.readAll` reads a mapping with known keys.

The depth is the number of collections that may still be opened inside of each other.  Aliases
are followed where something is read, so that one that is not read may stand for anything.
-/

namespace TypeRules

open Yaml

/-- The shape of a document is not the expected one. -/
def Error.shape : Error := .document none

/-- Reading, which can fail and uses up aliases. -/
abbrev Reading := StateT Aliases (Except Error)

/-- A way to read a value at a depth. -/
abbrev Reader (α : Type) := Nat → Node → Reading α

/-- Something read without a reason why it may fail. -/
def Reading.ofOption {α : Type} (read : StateT Aliases Option α) : Reading α := fun aliases =>
  match read aliases with
  | some result => .ok result
  | none => .error .shape

/-- Something that is not of the expected shape. -/
def Reading.refuse {α : Type} : Reading α := throw .shape

namespace Field

def follow (node : Node) : Reading Node := .ofOption node.follow?

/-! ## Scalars -/

/-- The text of any scalar, as it is written. -/
def text (node : Node) : Reading String := do
  match ← follow node with
  | .scalar raw _ _ => return raw
  | _ => .refuse

/-- Whether a value is missing: one that is not written, or an explicit null.  A tag makes it a
value, unless it is the tag of nulls, which allows nothing else. -/
def isMissing? : Node → Option Bool
  | .scalar raw .plain tag =>
    match tag with
    | none => some (raw == "" || nullWords.contains raw)
    | some .null => if nullWords.contains raw then some true else none
    | some _ => some false
  | _ => some false

def optional {α : Type} (read : Node → Reading α) (node : Node) : Reading (Option α) := do
  let node ← follow node
  match isMissing? node with
  | some true => return none
  | some false => return some (← read node)
  | none => .refuse

/-- A truth value, without quotes, or in a block with a tag for that. -/
def truth (node : Node) : Reading Bool := do
  match ← follow node with
  | .scalar raw style tag =>
    match boolOf? raw with
    | some value =>
      if style = .plain || (style = .literal && tag = some .bool) then return value else .refuse
    | none => .refuse
  | _ => .refuse

def word {α : Type} (read : String → Except UnknownWord α) (node : Node) : Reading α := do
  let raw ← text node
  StateT.lift ((read raw).mapError fun unknown => .document (some unknown))

/-- The name of one of a few choices: the text of a scalar, or the tag of a null. -/
def choice {α : Type} (name : α → String) (choices : List α) (node : Node) : Reading α := do
  let node ← follow node
  let raw ←
    match node.tag? with
    | some (.named tag) => if node.isNull then pure tag else .refuse
    | _ => text node
  match choices.find? fun choice => name choice == raw with
  | some choice => return choice
  | none => .refuse

/-! ## Collections -/

/-- The items of a list; a value that is not written is the list without items. -/
def items {α : Type} (read : Reader α) : Reader (List α) := fun depth node => do
  match depth, ← follow node with
  | depth + 1, .sequence _ nodes => nodes.mapM (read depth)
  | _, node => if node.isEmpty then return [] else .refuse

/-- The list with the value of a key, which takes the place of an earlier one. -/
def put {α : Type} (key : String) (value : α) : List (String × α) → List (String × α)
  | [] => [(key, value)]
  | (k, v) :: rest => if k = key then (key, value) :: rest else (k, v) :: put key value rest

def putAll {α : Type} (read : Node → Reading α) :
    List (Node × Node) → List (String × α) → Reading (List (String × α))
  | [], found => return found
  | (key, node) :: rest, found => do
    let key ← text key
    let value ← read node
    putAll read rest (put key value found)

/-- The entries of a mapping with any keys; a value that is not written is the mapping
without entries. -/
def entries {α : Type} (read : Reader α) : Reader (List (String × α)) := fun depth node => do
  match depth, ← follow node with
  | depth + 1, .mapping _ nodes => putAll (read depth) nodes []
  | _, node => if node.isEmpty then return [] else .refuse

end Field

/-! ## Mappings with known keys -/

/-- A known key: its name, and how its value adds to what was read before. -/
structure Key (α : Type) where
  name : String
  read : Node → Reading (α → α)

namespace Key

/-- A key whose value is put into place by a setter. -/
def of {α β : Type} (name : String) (read : Node → Reading β) (set : β → α → α) : Key α :=
  ⟨name, fun node => return set (← read node)⟩

/-- Reads entries one after the other.  A known key may occur once; the values of other keys
have no faults. -/
def readEntries {α : Type} (keys : List (Key α)) :
    List (Node × Node) → List String → α → Reading α
  | [], _, value => return value
  | (name, node) :: rest, seen, value => do
    let name ← Field.text name
    match keys.find? fun key => key.name == name with
    -- The value of an unknown key is not read, but the text must be sound there.
    | none => if node.isWhole then readEntries keys rest seen value else .refuse
    | some key =>
      if seen.contains name then .refuse
      else do
        let change ← key.read node
        readEntries keys rest (name :: seen) (change value)

/-- Reads a mapping with known keys; a value that is not written is the mapping without
entries. -/
def readAll {α : Type} (keys : Nat → List (Key α)) (start : α) : Reader α := fun depth node => do
  match depth, ← Field.follow node with
  | depth + 1, .mapping _ nodes => readEntries (keys depth) nodes [] start
  | _, node => if node.isEmpty then return start else .refuse

end Key

end TypeRules
