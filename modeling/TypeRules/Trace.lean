import TypeRules.HttpMethod
import TypeRules.Text.Blank

/-! # Traces

A lookup can record every rule it looks at.  The record is a tree: containers for scopes and
for the lists in them, and leaves for rules and settings.

* `Step.within` goes to a place in the tree, opening containers that are not there yet.
* `Recording` is a record in the making, if one is wanted at all; `Recorder` is a
  computation that adds to it, such as `filterRecorded`.
* `Trace.lines` shows a finished record.  A line is marked with `+` if something in it or
  below it matched, and containers without any leaf are left out.
-/

namespace TypeRules

/-! ## Trees -/

inductive Container where
  | global
  | endpoint (path : String)
  | method (method : HttpMethod)
  | types
  | schemas
  | parameters (detail : String)
  | responses
  | extension (name : String)
  deriving DecidableEq, Repr

/-- The name of a container as it is shown. -/
def Container.text : Container → String
  | global => "global"
  | endpoint path => path
  | method m => m.text
  | types => "types"
  | schemas => "schemas"
  | parameters detail => "parameters (" ++ detail ++ ")"
  | responses => "responses"
  | extension name => name

inductive Step where
  /-- A rule or setting that was looked at. -/
  | leaf (text : String) (matched : Bool)
  /-- A scope or list, with what was looked at in it. -/
  | node (container : Container) (steps : List Step)
  deriving Repr

namespace Step

/-- Changes the steps of the first container of a kind, or of a new one behind all others. -/
def inside (c : Container) (change : List Step → List Step) : List Step → List Step
  | [] => [node c (change [])]
  | node d steps :: rest =>
    if d = c then node d (change steps) :: rest else node d steps :: inside c change rest
  | leaf text matched :: rest => leaf text matched :: inside c change rest

/-- Changes the steps at a place, which is given by the containers on the way to it. -/
def within : List Container → (List Step → List Step) → List Step → List Step
  | [], change => change
  | c :: place, change => inside c (within place change)

def add (place : List Container) (leaves : List Step) (steps : List Step) : List Step :=
  within place (· ++ leaves) steps

mutual

/-- Whether something in the node or below it matched. -/
def isMatch : Step → Bool
  | leaf _ matched => matched
  | node _ steps => anyMatch steps

/-- Whether one of several nodes is a match. -/
def anyMatch : List Step → Bool
  | [] => false
  | step :: steps => step.isMatch || anyMatch steps

end

mutual

/-- Whether the node is a leaf or has one below it. -/
def hasLeaf : Step → Bool
  | leaf _ _ => true
  | node _ steps => anyLeaf steps

/-- Whether one of several nodes has a leaf. -/
def anyLeaf : List Step → Bool
  | [] => false
  | step :: steps => step.hasLeaf || anyLeaf steps

end

def mark (matched : Bool) : String := if matched then "+  " else "-  "

mutual

/-- The lines of a node behind an indentation. -/
def lines (indent : String) : Step → List String
  | leaf text matched => [indent ++ mark matched ++ text]
  | node c steps =>
    if anyLeaf steps then
      (indent ++ mark (anyMatch steps) ++ c.text) :: linesOf (indent ++ "  ") steps
    else []

def linesOf (indent : String) : List Step → List String
  | [] => []
  | step :: steps => step.lines indent ++ linesOf indent steps

end

end Step

/-! ## Recording -/

/-- A record in the making; nothing if none is wanted. -/
abbrev Recording := Option (List Step)

/-- A computation that may add to a record. -/
abbrev Recorder := StateM Recording

/-- Adds leaves at a place to the record, if one is wanted. -/
def Recording.add (recording : Recording) (place : List Container) (leaves : List Step) :
    Recording :=
  recording.map (Step.add place leaves)

def record (place : List Container) (leaves : List Step) : Recorder Unit :=
  modify fun recording => recording.add place leaves

/-- The items that pass a test; every item is recorded with its verdict. -/
def filterRecorded {α : Type} (place : List Container) (text : α → String) (accepts : α → Bool) :
    List α → Recorder (List α)
  | [] => return []
  | item :: items => do
    record place [.leaf (text item) (accepts item)]
    let others ← filterRecorded place text accepts items
    return if accepts item then item :: others else others

/-! ## Finished traces -/

/-- The record of one lookup: what was looked for, the query, and the steps. -/
structure Trace where
  title : String
  query : String
  steps : List Step
  deriving Repr

def Trace.lines (t : Trace) : List String :=
  String.ofList (Text.trimEnd (t.title ++ " " ++ t.query).toList) ::
    (if Step.anyLeaf t.steps then Step.linesOf "  " t.steps else ["  " ++ Step.mark false ++ "no mappings"])

end TypeRules
