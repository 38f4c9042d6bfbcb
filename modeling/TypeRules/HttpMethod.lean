import TypeRules.Error

/-! # HTTP methods

The methods an endpoint can have.  Rule documents write them in lower case and in the order
of `HttpMethod.all`; texts meant for people write them in upper case.
-/

namespace TypeRules

inductive HttpMethod where
  | get
  | put
  | post
  | delete
  | options
  | head
  | patch
  | trace
  deriving DecidableEq, Repr, Inhabited

namespace HttpMethod

/-- All methods, in the order in which they appear in a rule document. -/
def all : List HttpMethod := [get, put, post, delete, options, head, patch, trace]

/-- The name of the method in rule documents. -/
def name : HttpMethod → String
  | get => "get"
  | put => "put"
  | post => "post"
  | delete => "delete"
  | options => "options"
  | head => "head"
  | patch => "patch"
  | trace => "trace"

def text (m : HttpMethod) : String := m.name.toUpper

theorem mem_all (m : HttpMethod) : m ∈ all := by cases m <;> decide

/-- The method of a name, in any ASCII case. -/
def read? (word : String) : Option HttpMethod := all.find? fun m => m.name == word.toLower

/-- The method of a name, or the complaint that there is none. -/
def read (word : String) : Except Error HttpMethod :=
  match read? word with
  | some m => .ok m
  | none => .error (.unknownWord (.method word))

end HttpMethod

end TypeRules
