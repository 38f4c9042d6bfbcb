import TypeRules.HttpMethod
import TypeRules.Source

/-! # Queries

A `Query` holds the facts about the thing that a rule is looked for: where it stands, what it
is called and which type it has.  Every fact may be missing.

* `Query.withType` takes type and format from one text.
* `Query.text` describes the facts that are there.
-/

namespace TypeRules

structure Query where
  path : Option String
  method : Option HttpMethod
  name : Option String
  contentType : Option String
  type : Option String
  format : Option String
  primitive : Bool
  array : Bool
  allowObject : Bool
  deriving DecidableEq, Repr

namespace Query

def empty : Query := ⟨none, none, none, none, none, none, false, false, false⟩

instance : Inhabited Query := ⟨empty⟩

/-! ## Adding facts -/

def withPath (q : Query) (path : String) : Query := { q with path := some path }

def withMethod (q : Query) (method : HttpMethod) : Query := { q with method := some method }

/-- The name of the schema, property or parameter. -/
def withName (q : Query) (name : String) : Query := { q with name := some name }

def withContentType (q : Query) (contentType : String) : Query :=
  { q with contentType := some contentType }

/-- The type, and the format or its absence, from `type:format`. -/
def withType (q : Query) (text : String) : Query :=
  let source := Source.read text.toList
  { q with type := some source.name, format := source.format }

def withFormat (q : Query) (format : String) : Query := { q with format := some format }

def withPrimitive (q : Query) : Query := { q with primitive := true }

def withArray (q : Query) : Query := { q with array := true }

def withObject (q : Query) : Query := { q with allowObject := true }

/-! ## Text -/

/-- A word for one fact in front of the quoted fact. -/
def quote (word text : String) : String := word ++ "'" ++ text ++ "'"

/-- The letters of the flags that are set. -/
def flags (q : Query) : String :=
  (if q.primitive then "P" else "") ++ (if q.array then "A" else "") ++
    (if q.allowObject then "O" else "")

/-- The facts, each as it is shown.  A method counts only together with its path, and a
format only together with its type. -/
def parts (q : Query) : List String :=
  (q.name.map (quote "name: ")).toList ++
  (q.path.map fun path =>
    quote ("path: " ++ (q.method.map fun m => m.text ++ " ").getD "") path).toList ++
  (q.contentType.map (quote "content-type: ")).toList ++
  (q.type.map fun type => quote "type: " (Source.textOf (some type) q.format)).toList ++
  (if q.flags = "" then [] else ["(" ++ q.flags ++ ")"])

def text (q : Query) : String := " ".intercalate q.parts

end Query

end TypeRules
