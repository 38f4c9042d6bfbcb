import TypeRules.CommandLine.Run

/-! # The program

Reads the command line, the environment and at most one file, and prints the outcome.
-/

namespace TypeRules.CommandLine

/-- The name of the environment variable with the preset source. -/
def presetName : String := "TYPEMAP_MAPPING"

/-- The content of a file, or why there is none. -/
def readContent (name : String) : IO (Except FileFault String) := do
  try
    let bytes ← IO.FS.readBinFile name
    return (String.fromUTF8? bytes).elim (.error .notUtf8) .ok
  catch _ => return .error .notFound

/-- Loads a source, reading its file if it names one. -/
def loadSource (source : String) : IO Loading := do
  match Origin.ofSource source with
  | .file name =>
    let content ← readContent name
    return load (fun _ => content) source
  | _ => return load (fun _ => .error .notFound) source

/-- Runs a command line and prints its outcome; gives the code to end with. -/
def runProgram (words : List String) : IO UInt32 := do
  let outcome ← match Invocation.read (← IO.getEnv presetName) words with
    | .error stop => pure stop.outcome
    | .ok invocation => do
      let loading ← loadSource invocation.command.source
      pure (invocation.run loading)
  for line in outcome.log do
    IO.eprintln line
  for line in outcome.output do
    IO.println line
  return outcome.code.toUInt32

end TypeRules.CommandLine

def main (words : List String) : IO UInt32 := TypeRules.CommandLine.runProgram words
