import TypeRules.CommandLine.Words
import TypeRules.Question

/-! # Commands

The program checks a document or resolves a question about it.

* `Command` is a command with all that belongs to it.
* `Invocation.read` reads a command line.
-/

namespace TypeRules.CommandLine

inductive Command where
  /-- Load a document and tell what is in it. -/
  | check (source : String)
  /-- Answer a request, in JSON or in lines of text. -/
  | resolve (source : String) (request : Request) (json : Bool)

/-- A command, and whether lookups are traced whatever the document says. -/
structure Invocation where
  traced : Bool
  command : Command

/-! ## Options -/

/-- The flag for traces, which goes with every command. -/
def traceSpec : Spec := .flag "trace"

def helpSpec : Spec := ⟨"help", some 'h', .stop .help, fun _ => true⟩

def versionSpec : Spec := ⟨"version", some 'V', .stop .version, fun _ => true⟩

def sourceSpec : Spec := ⟨"mapping", some 'm', .one, fun _ => true⟩

def checkSpecs : List Spec := [sourceSpec, traceSpec, helpSpec]

def resolveSpecs : List Spec :=
  [sourceSpec, .one "path", ⟨"method", none, .one, fun word => (HttpMethod.read? word).isSome⟩,
   .one "name", .one "type", .one "content-type", .flag "primitive", .flag "array",
   .flag "allow-object", .one "extension", ⟨"value", none, .many, fun _ => true⟩, .flag "json",
   traceSpec, helpSpec]

def frontSpecs : List Spec := [traceSpec, helpSpec, versionSpec]

/-! ## Reading -/

def Given.query (g : Given) : Query :=
  let q := Query.empty
  let q := (g.value? "path").elim q q.withPath
  let q := ((g.value? "method").bind HttpMethod.read?).elim q q.withMethod
  let q := (g.value? "name").elim q q.withName
  let q := (g.value? "type").elim q q.withType
  let q := (g.value? "content-type").elim q q.withContentType
  let q := if g.has "primitive" then q.withPrimitive else q
  let q := if g.has "array" then q.withArray else q
  if g.has "allow-object" then q.withObject else q

/-- The source that was given, or the preset one. -/
def Given.source (g : Given) (preset : Option String) : Except Stop String :=
  match (g.value? "mapping").orElse fun _ => preset with
  | some source => .ok source
  | none => .error .misuse

/-- Reads what follows the word for a check. -/
def readCheck (preset : Option String) (words : List String) :
    Except Stop (Bool × Command) := do
  let given ← readWords checkSpecs [] none words .nothing
  return (given.has "trace", .check (← given.source preset))

/-- Reads what follows the word for a resolution: one operand is the name of a question. -/
def readResolve (preset : Option String) (words : List String) :
    Except Stop (Bool × Command) := do
  let given ←
    readWords resolveSpecs [fun word => (Question.ofName? word).isSome] none words .nothing
  let source ← given.source preset
  match given.operands.head?.bind Question.ofName? with
  | none => throw .misuse
  | some question =>
    return (given.has "trace",
      .resolve source
        ⟨question, given.query, given.value? "extension", given.values "value"⟩
        (given.has "json"))

/-- Reads what follows the word for help: at most the name of a command. -/
def readHelp (words : List String) : Stop :=
  match words with
  | [] => .help
  | [word] => if ["check", "resolve", "help"].contains word then .help else .misuse
  | _ => .misuse

/-- Reads a command line.  Options come before the command or behind it; a preset source
counts if the command line has none. -/
def Invocation.readFrom (preset : Option String) : List String → Given → Except Stop Invocation
  | [], _ => .error .misuse
  | word :: rest, given =>
    match word with
    | "check" => do
      let (traced, command) ← readCheck preset rest
      return ⟨given.has "trace" || traced, command⟩
    | "resolve" => do
      let (traced, command) ← readResolve preset rest
      return ⟨given.has "trace" || traced, command⟩
    | "help" => .error (readHelp rest)
    | word => do
      let (given, _) ← readOption frontSpecs given (Word.ofText word)
      readFrom preset rest given

/-- Reads a command line from its first word on. -/
def Invocation.read (preset : Option String) (words : List String) : Except Stop Invocation :=
  readFrom preset words .nothing

end TypeRules.CommandLine
