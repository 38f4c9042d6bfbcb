import TypeRules.Yaml.Meaning

/-! # YAML values

A value is a tree without faults and aliases in which every scalar has its meaning.  Tags that
are names stay with their values.

* `Value.ofNode?` takes the meaning of a node, unless it is nested too deeply.
* `Value.same` compares values.
* `Value.isDistinct` tells whether no mapping in the value has a key twice.
-/

namespace TypeRules.Yaml

inductive Value where
  | scalar (meaning : Meaning)
  | sequence (items : List Value)
  | mapping (entries : List (Value × Value))
  | tagged (name : String) (value : Value)
  deriving Repr, Inhabited

/-! ## The value of a node -/

/-- The meaning of a scalar that can be stored. -/
def Meaning.stored? : Meaning → Option Meaning
  | outOfRange => none
  | meaning => some meaning

namespace Value

/-- Puts the tag of a node in front of its value, if it is a name. -/
def withTag (tag : Option Tag) (value : Value) : Value :=
  match tag with
  | some (.named name) => tagged name value
  | _ => value

def ofScalar? (raw : String) (style : Style) (tag : Option Tag) : Option Value :=
  ((Meaning.ofScalar? raw style tag).bind Meaning.stored?).map fun meaning =>
    withTag tag (scalar meaning)

/-- The value of a node with at most so many collections inside of each other.  An alias has the
value of the node that it stands for. -/
def ofNode? : Nat → Node → StateT Aliases Option Value
  | 0, n => do
    match ← n.follow? with
    | .scalar raw style tag => StateT.lift (ofScalar? raw style tag)
    | _ => failure
  | depth + 1, n => do
    -- Not the alias but the depth makes an end of a node that contains itself.
    match ← n.follow? with
    | .scalar raw style tag => StateT.lift (ofScalar? raw style tag)
    | .sequence tag items => return withTag tag (sequence (← items.mapM (ofNode? depth)))
    | .mapping tag entries =>
      let entries ← entries.mapM fun (key, value) =>
        return (← ofNode? depth key, ← ofNode? depth value)
      return withTag tag (mapping entries)
    | _ => failure

/-! ## Comparing values -/

/-- The name of a tag without a further sign of a tag in front. -/
def bareName (name : String) : String :=
  match name.toList with
  | ['!'] => "!"
  | '!' :: rest => String.ofList rest
  | _ => name

end Value

/-- Whether two scalars mean the same.  There is one zero, with or without a sign. -/
def Meaning.same : Meaning → Meaning → Bool
  | fraction a, fraction b => a == b || (["0.0", "-0.0"].contains a && ["0.0", "-0.0"].contains b)
  | a, b => a == b

namespace Value

mutual

/-- Whether two values are the same.  The order of entries does not matter. -/
def same : Value → Value → Bool
  | scalar a, scalar b => a.same b
  | sequence a, sequence b => allSame a b
  | mapping a, mapping b => a.length == b.length && allFound a b
  | tagged a value, tagged b other => bareName a == bareName b && value.same other
  | _, _ => false

/-- Whether two lists have the same values in the same order. -/
def allSame : List Value → List Value → Bool
  | [], [] => true
  | a :: items, b :: others => a.same b && allSame items others
  | _, _ => false

/-- Whether each of some entries is among others. -/
def allFound : List (Value × Value) → List (Value × Value) → Bool
  | [], _ => true
  | (key, value) :: entries, others =>
    (others.any fun (k, v) => key.same k && value.same v) && allFound entries others

end

/-- Whether no two of some keys are the same. -/
def keysDistinct : List Value → Bool
  | [] => true
  | key :: keys => !keys.any key.same && keysDistinct keys

mutual

/-- Whether no mapping in the value has a key twice. -/
def isDistinct : Value → Bool
  | scalar _ => true
  | sequence items => allDistinct items
  | mapping entries => entriesDistinct entries && keysDistinct (entries.map Prod.fst)
  | tagged _ value => value.isDistinct

/-- Whether several values have no mapping with a key twice. -/
def allDistinct : List Value → Bool
  | [] => true
  | item :: items => item.isDistinct && allDistinct items

/-- Whether the keys and values of several entries have no mapping with a key twice. -/
def entriesDistinct : List (Value × Value) → Bool
  | [] => true
  | (key, value) :: entries => key.isDistinct && value.isDistinct && entriesDistinct entries

end

/-! ## Texts -/

mutual

/-- Whether there is no tag in the value. -/
def isUntagged : Value → Bool
  | scalar _ => true
  | sequence items => allUntagged items
  | mapping entries => entriesUntagged entries
  | tagged _ _ => false

/-- Whether there is no tag in several values. -/
def allUntagged : List Value → Bool
  | [] => true
  | item :: items => item.isUntagged && allUntagged items

/-- Whether there is no tag in several entries. -/
def entriesUntagged : List (Value × Value) → Bool
  | [] => true
  | (key, value) :: entries => key.isUntagged && value.isUntagged && entriesUntagged entries

end

/-- The text of a value that is one. -/
def text? : Value → Option String
  | scalar (.text text) => some text
  | _ => none

/-- The texts of a list that has only texts. -/
def texts? : Value → Option (List String)
  | sequence items => items.mapM text?
  | _ => none

end Value

end TypeRules.Yaml
