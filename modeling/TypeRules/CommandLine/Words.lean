import TypeRules.Text.Cut

/-! # Words of a command line

The words behind a command are options and operands.  An option has a long name, as in
`--name`, and possibly a letter, as in `-n`; its value is the next word, or is attached to it
as in `--name=value`, `-n=value` or `-nvalue`.  Behind `--` all words are operands.

* `Spec` describes an option.
* `readWords` reads words from left to right and stops at the first fault.
-/

namespace TypeRules.CommandLine

open Text

inductive Stop where
  | misuse
  | help
  | version
  deriving DecidableEq, Repr

/-- How often an option is given, and whether it takes values. -/
inductive Arity where
  | flag
  | one
  | many
  | stop (reason : Stop)
  deriving DecidableEq, Repr

structure Spec where
  name : String
  letter : Option Char
  arity : Arity
  accepts : String → Bool

namespace Spec

def flag (name : String) : Spec := ⟨name, none, .flag, fun _ => true⟩

def one (name : String) : Spec := ⟨name, none, .one, fun _ => true⟩

def takesValue (s : Spec) : Bool := s.arity == .one || s.arity == .many

end Spec

/-- What has been read: the options with their values, latest first, and the operands. -/
structure Given where
  options : List (String × String)
  operands : List String

namespace Given

def nothing : Given := ⟨[], []⟩

def has (g : Given) (name : String) : Bool := (g.options.lookup name).isSome

def value? (g : Given) (name : String) : Option String := g.options.lookup name

/-- The values of an option, in the order in which they were given. -/
def values (g : Given) (name : String) : List String :=
  (g.options.filterMap fun entry => if entry.1 = name then some entry.2 else none).reverse

/-- One more option, which may end the reading. -/
def add (g : Given) (s : Spec) (value : String) : Except Stop Given :=
  match s.arity with
  | .stop reason => .error reason
  | arity =>
    -- Only an option with many values can be repeated.
    if !s.accepts value || (g.has s.name && arity != .many) then .error .misuse
    else .ok { g with options := (s.name, value) :: g.options }

/-- One more operand; every place for an operand accepts certain words. -/
def addOperand (places : List (String → Bool)) (g : Given) (word : String) :
    Except Stop Given :=
  match places[g.operands.length]? with
  | none => .error .misuse
  | some accepts =>
    if accepts word then .ok { g with operands := g.operands ++ [word] } else .error .misuse

end Given

/-! ## Reading -/

inductive Word where
  | separator
  /-- A long name, with an attached value or without one. -/
  | long (name : String) (value : Option String)
  | letters (cs : List Char)
  | operand
  deriving DecidableEq, Repr

/-- Tells options from other words by their dashes; a single dash is not an option. -/
def Word.ofText (word : String) : Word :=
  match word.toList with
  | ['-', '-'] => separator
  | '-' :: '-' :: cs =>
    match cutAt? (· == '=') cs with
    | some (name, value) => long (String.ofList name) (some (String.ofList value))
    | none => long (String.ofList cs) none
  | '-' :: c :: cs => letters (c :: cs)
  | _ => operand

/-- Reads options by their letters.  What follows the letter of an option with values is its
value; if nothing follows, the option still wants a value. -/
def readLetters (specs : List Spec) : List Char → Given → Except Stop (Given × Option Spec)
  | [], given => .ok (given, none)
  | c :: cs, given =>
    match specs.find? fun spec => spec.letter == some c with
    | none => .error .misuse
    | some spec =>
      if spec.takesValue then
        if cs.isEmpty then .ok (given, some spec)
        else (given.add spec (String.ofList ((withoutPrefix? ['='] cs).getD cs))).map (·, none)
      else do readLetters specs cs (← given.add spec "")

def readOption (specs : List Spec) (given : Given) :
    Word → Except Stop (Given × Option Spec)
  | .long name value =>
    match specs.find? fun spec => spec.name == name with
    | none => .error .misuse
    | some spec =>
      match spec.takesValue, value with
      | true, some value => (given.add spec value).map (·, none)
      | true, none => .ok (given, some spec)
      | false, some _ => .error .misuse
      | false, none => (given.add spec "").map (·, none)
  | .letters cs => readLetters specs cs given
  | _ => .error .misuse

/-- Reads words.  An option that wants a value takes the next word, unless that looks like an
option itself. -/
def readWords (specs : List Spec) (places : List (String → Bool)) :
    Option Spec → List String → Given → Except Stop Given
  | none, [], given => .ok given
  | some _, [], _ => .error .misuse
  | wanting, word :: rest, given =>
    match Word.ofText word, wanting with
    | .operand, some spec => do readWords specs places none rest (← given.add spec word)
    | .operand, none => do readWords specs places none rest (← given.addOperand places word)
    | _, some _ => .error .misuse
    -- Behind the separator every word is an operand, dashes or not.
    | .separator, none => rest.foldlM (Given.addOperand places) given
    | option, none => do
      let (given, wanting) ← readOption specs given option
      readWords specs places wanting rest given

end TypeRules.CommandLine
