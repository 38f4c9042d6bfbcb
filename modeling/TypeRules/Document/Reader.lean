import TypeRules.Document.Entry

/-! # Reading documents

A document is a YAML mapping with known keys; so are the blocks in it, which can be nested.
Keys that are not known are ignored.

* `Block.read` reads a block.
* `Document.ofText` reads a document.
-/

namespace TypeRules

open Yaml

/-! ## Blocks -/

namespace Block

def mapClauses (change : Clauses → Clauses) : Block → Block
  | mk clauses paths extensions methods => mk (change clauses) paths extensions methods

def setPaths (paths : List (String × Block)) : Block → Block
  | mk clauses _ extensions methods => mk clauses paths extensions methods

def setExtensions (extensions : List (String × List String)) : Block → Block
  | mk clauses paths _ methods => mk clauses paths extensions methods

/-- The block with the block of a method, unless that is missing. -/
def addMethod (method : HttpMethod) (inner : Option Block) : Block → Block
  | mk clauses paths extensions methods =>
    mk clauses paths extensions (methods ++ (inner.map fun inner => (method, inner)).toList)

/-- A key whose value becomes part of the clauses. -/
def clauseKey {β : Type} (name : String) (read : Node → Reading β)
    (set : β → Clauses → Clauses) : Key Block :=
  .of name read fun value => mapClauses (set value)

def clauseKeys (depth : Nat) : List (Key Block) :=
  [clauseKey "result" (Field.optional Field.text) fun result c => { c with result },
   clauseKey "result-style" (Field.optional (Field.word ResultStyle.read))
     fun resultStyle c => { c with resultStyle },
   clauseKey "result-status" (Field.optional Field.truth)
     fun resultStatus c => { c with resultStatus },
   clauseKey "single" (Field.optional Field.text) fun single c => { c with single },
   clauseKey "multi" (Field.optional Field.text) fun multi c => { c with multi },
   clauseKey "null" (Field.optional Field.text) fun nullable c => { c with nullable },
   clauseKey "body-style" (Field.optional (Field.word BodyStyle.read))
     fun bodyStyle c => { c with bodyStyle },
   clauseKey "exclude" Field.truth fun exclude c => { c with exclude },
   clauseKey "types" (Field.items (Entry.read "type") depth) fun types c => { c with types },
   clauseKey "schemas" (Field.items (Entry.read "type") depth)
     fun schemas c => { c with schemas },
   clauseKey "parameters" (Field.items ParameterEntry.read depth)
     fun parameters c => { c with parameters },
   clauseKey "responses" (Field.items (Entry.read "content") depth)
     fun responses c => { c with responses }]

/-- All keys of a block, with a way to read the blocks of paths and one to read the blocks
of methods. -/
def keys (paths : Node → Reading (List (String × Block)))
    (inner : Node → Reading Block) (depth : Nat) : List (Key Block) :=
  clauseKeys depth ++
    [.of "paths" paths setPaths,
     .of "extensions" (Field.entries ruleTexts depth) setExtensions] ++
    HttpMethod.all.map fun method =>
      .of method.name (Field.optional inner) (addMethod method)

/-- Reads a block.  A block of a path is two collections further inside, a block of a method
one. -/
def read : Reader Block
  | 0 => Key.readAll (fun _ => []) empty 0
  | 1 =>
    Key.readAll (keys (Field.entries (fun _ => read 0) 0) (read 0)) empty 1
  | depth + 2 =>
    Key.readAll
      (keys (Field.entries (fun _ => read depth) (depth + 1)) (read (depth + 1))) empty
      (depth + 2)

end Block

/-! ## Documents -/

namespace Document

/-- Options before they are part of a document. -/
structure Preferences where
  packageName : Option String
  modelSuffix : Option String

def Preferences.keys : List (Key Preferences) :=
  [.of "package-name" (Field.optional Field.text) fun packageName p => { p with packageName },
   .of "model-name-suffix" (Field.optional Field.text)
     fun modelSuffix p => { p with modelSuffix }]

def tracingKeys : List (Key Tracing) :=
  [.of "mapping" Field.truth fun enabled t => { t with enabled },
   .of "mapping-target" (Field.choice TraceTarget.text [.logger, .stdout])
     fun target t => { t with target }]

def readVersion (depth : Nat) (node : Node) : Reading Value := do
  let value ← Reading.ofOption (Value.ofNode? depth node)
  if value.isDistinct then return value else .refuse

def versionKey : String := "openapi-processor-mapping"

/-- The key of the version in former times. -/
def formerVersionKey : String := "openapi-processor-spring"

def keys (depth : Nat) : List (Key Document) :=
  [.of versionKey (Field.optional (readVersion depth)) fun version d => { d with version },
   .of formerVersionKey (Field.optional (readVersion depth))
     fun formerVersion d => { d with formerVersion },
   .of "options" (Key.readAll (fun _ => Preferences.keys) ⟨none, none⟩ depth)
     fun p d => { d with packageName := p.packageName, modelSuffix := p.modelSuffix },
   .of "logging" (Key.readAll (fun _ => tracingKeys) .off depth)
     fun tracing d => { d with tracing },
   .of "map" (Block.read depth) fun map d => { d with map }]

/-- The number of collections that can be inside of each other. -/
def maxDepth : Nat := 128

def ofText (text : String) : Except Error Document := do
  let yaml := Yaml.Document.ofText text
  let (document, _) ← Key.readAll keys Document.empty maxDepth yaml.root yaml.aliases
  if yaml.sound then return document else throw .shape

end Document

end TypeRules
