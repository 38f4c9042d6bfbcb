import TypeRules.TypeRef

/-! # Data types

The types that generated code is written with: a type of its own, a collection, or a wrapper
around another data type.

* `DataType.typeName` writes a data type with simple names.
* `DataType.mentions` lists the qualified names that this text relies on, and
  `DataType.imports` gives them in order and without repeats.
-/

namespace TypeRules

open Text

/-! ## Names -/

/-- A simple name with its package, which may be empty. -/
structure QualifiedName where
  name : String
  package : String
  deriving DecidableEq, Repr, Inhabited

namespace QualifiedName

/-- A dotted name, cut at its last dot. -/
def ofText (text : String) : QualifiedName := ⟨TypeRef.simpleOf text, TypeRef.packageOf text⟩

/-- The name in full, if there is a package to import it from. -/
def mentions (q : QualifiedName) : List String :=
  if q.package = "" then [] else [q.package ++ "." ++ q.name]

end QualifiedName

/-! ## Arguments of wrappers -/

/-- A type argument of a wrapper, as configured. -/
inductive GenericType where
  | mk (id : QualifiedName) (args : List GenericType)
  deriving BEq, Repr, Inhabited

namespace GenericType

mutual

def decEq : (s t : GenericType) → Decidable (s = t)
  | mk n as, mk m bs =>
    if hn : n = m then
      match decEqArgs as bs with
      | isTrue h => isTrue (by rw [hn, h])
      | isFalse h => isFalse (by intro hc; injection hc with _ hc; exact h hc)
    else isFalse (by intro hc; injection hc with hc; exact hn hc)

def decEqArgs : (as bs : List GenericType) → Decidable (as = bs)
  | [], [] => isTrue rfl
  | [], _ :: _ => isFalse (by simp)
  | _ :: _, [] => isFalse (by simp)
  | a :: as, b :: bs =>
    match decEq a b, decEqArgs as bs with
    | isTrue h, isTrue hs => isTrue (by rw [h, hs])
    | isFalse h, _ => isFalse (by simp [h])
    | _, isFalse hs => isFalse (by simp [hs])

end

instance : DecidableEq GenericType := decEq

mutual

def typeName : GenericType → String
  | mk id [] => id.name
  | mk id (a :: as) => id.name ++ "<" ++ ", ".intercalate (typeNames (a :: as)) ++ ">"

def typeNames : List GenericType → List String
  | [] => []
  | a :: as => a.typeName :: typeNames as

end

mutual

/-- The qualified names in the argument; the wildcard has none, not even below it. -/
def mentions : GenericType → List String
  | mk id args => if id.name = wildcardName then [] else id.mentions ++ mentionsOf args

def mentionsOf : List GenericType → List String
  | [] => []
  | a :: as => a.mentions ++ mentionsOf as

end

end GenericType

/-! ## Data types -/

inductive DataType where
  | simple (id : QualifiedName)
  | collection (id : QualifiedName) (item : DataType)
  | mapped (id : QualifiedName) (item : DataType) (multi : Bool)
  | single (id : QualifiedName) (inner : DataType)
  /-- An envelope of a response; a replacement hides what is in it. -/
  | result (id : QualifiedName) (inner : DataType) (generics : List GenericType)
      (replacement : Bool)
  /-- A wrapper of a value that may be null. -/
  | nullable (id : QualifiedName) (inner : DataType) (initial : Option String)
  /-- No content; inside of an envelope it is written as an object type. -/
  | noContent (boxed : Bool)
  deriving DecidableEq, Repr, Inhabited

namespace DataType

/-- The name and package of the outermost type. -/
def id : DataType → QualifiedName
  | simple id => id
  | collection id _ => id
  | mapped id _ _ => id
  | single id _ => id
  | result id _ _ _ => id
  | nullable id _ _ => id
  | noContent boxed => if boxed then ⟨"Void", "java.lang"⟩ else ⟨"void", ""⟩

def item? : DataType → Option DataType
  | collection _ item => some item
  | mapped _ item _ => some item
  | _ => none

/-- The data type with simple names.  Of the arguments of an envelope only the first is
written; it takes the content as its own argument. -/
def typeName : DataType → String
  | simple id => id.name
  | collection id item => id.name ++ "<" ++ item.typeName ++ ">"
  | mapped id item _ => id.name ++ "<" ++ item.typeName ++ ">"
  | single id inner => id.name ++ "<" ++ inner.typeName ++ ">"
  | result id inner generics replacement =>
    if replacement then id.name
    else
      match generics with
      | [] => id.name ++ "<" ++ inner.typeName ++ ">"
      | generic :: _ => id.name ++ "<" ++ generic.typeName ++ "<" ++ inner.typeName ++ ">>"
  | nullable id inner _ => id.name ++ "<" ++ inner.typeName ++ ">"
  | noContent boxed => (noContent boxed).id.name

/-- The qualified names to import, in the order of the type. -/
def mentions : DataType → List String
  | simple id => id.mentions
  | collection id item => id.mentions ++ item.mentions
  | mapped id item _ => id.mentions ++ item.mentions
  | single id inner => id.mentions ++ inner.mentions
  | result id inner generics replacement =>
    id.mentions ++
      (if replacement then [] else inner.mentions ++ GenericType.mentionsOf generics)
  | nullable id inner _ => id.mentions ++ inner.mentions
  | noContent _ => []

/-- A name at its place in an ascending list, unless it is there already. -/
def insertName (name : String) : List String → List String
  | [] => [name]
  | first :: rest =>
    if name < first then name :: first :: rest
    else if name = first then first :: rest
    else first :: insertName name rest

/-- Names in ascending order of code points, without repeats. -/
def nameSet (names : List String) : List String := names.foldr insertName []

/-- The qualified names to import, in ascending order and without repeats. -/
def imports (d : DataType) : List String := nameSet d.mentions

end DataType

end TypeRules
