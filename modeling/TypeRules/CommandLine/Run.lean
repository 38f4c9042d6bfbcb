import TypeRules.CommandLine.Command
import TypeRules.Loading
import TypeRules.Summary

/-! # Running commands

What a command prints, and with which code it ends: zero, one if it failed, two if the command
line could not be read.

* `runCheck` and `runResolve` run a command on a loaded document.
* `run` runs a command line, given the contents of files.
-/

namespace TypeRules.CommandLine

/-- The outcome of a run: lines for the output, lines for the log, and the code. -/
structure Outcome where
  output : List String
  log : List String
  code : Nat
  deriving DecidableEq, Repr

def versionLine : String := "typemap-cli 0.1.0"

def runCheck (loading : Loading) : Outcome :=
  let log := loading.notices.map Notice.text
  let result := loading.result.bind fun config => config.elim (.error .noDocument) .ok
  match result with
  | .error error => ⟨["Checking mapping..."], log ++ [error.message], 1⟩
  | .ok config => ⟨"Checking mapping..." :: config.summary ++ ["Mapping is valid."], log, 0⟩

/-- The lines that show what was found for a request. -/
def showFindings (request : Request) (json : Bool) (findings : List Finding) : List String :=
  if json then (Json.array (findings.map Finding.json)).lines
  else if findings.isEmpty then ["no mapping found for (" ++ request.query.text ++ ")"]
  else findings.map Finding.text

/-- Answers a request.  Without a document there are no rules and the default options; a trace
comes before the answer. -/
def runResolve (loading : Loading) (request : Request) (json traced : Bool) : Outcome :=
  let log := loading.notices.map Notice.text
  match loading.result with
  | .error error => ⟨[], log ++ [error.message], 1⟩
  | .ok config =>
    let config := config.getD Config.empty
    let tracing := config.options.tracing
    let options := { config.options with
      tracing := { tracing with enabled := tracing.enabled || traced } }
    let answer := Config.answer { config with options } request
    let trace := (answer.trace.map Trace.lines).getD []
    let (shown, log) :=
      match tracing.target with
      | .stdout => (trace, log)
      | .logger => ([], log ++ trace)
    match answer.value with
    | .error error => ⟨shown, log ++ [error.message], 1⟩
    | .ok findings => ⟨shown ++ showFindings request json findings, log, 0⟩

def Command.source : Command → String
  | check source => source
  | resolve source _ _ => source

def Invocation.run (invocation : Invocation) (loading : Loading) : Outcome :=
  match invocation.command with
  | .check _ => runCheck loading
  | .resolve _ request json => runResolve loading request json invocation.traced

/-- The outcome of a command line without a command. -/
def Stop.outcome : Stop → Outcome
  | misuse => ⟨[], ["unexpected arguments; commands are 'check' and 'resolve'"], 2⟩
  | help => ⟨["Commands: check, resolve"], [], 0⟩
  | version => ⟨[versionLine], [], 0⟩

/-- Runs a command line, given a preset source and the contents of files. -/
def run (content : String → Except FileFault String) (preset : Option String)
    (words : List String) : Outcome :=
  match Invocation.read preset words with
  | .error stop => stop.outcome
  | .ok invocation => invocation.run (load content invocation.command.source)

end TypeRules.CommandLine
