import TypeRules.Document.Reader
import TypeRules.Document.Repository
import TypeRules.Document.Version

/-! # Loading

A configuration is loaded from a source, which is a document itself or the name of a file
with one.

* `Origin.ofSource` tells which.
* `Loading.ofText` loads a document: it is read as a whole, then its version is checked, then
  its rules are made.
* `load` loads a source, given the contents of files.
-/

namespace TypeRules

open Text

/-! ## Sources -/

inductive Origin where
  | nowhere
  | file (name : String)
  | inline (text : String)
  deriving DecidableEq, Repr

def fileEnds : List (List Char) := [".yaml".toList, ".yml".toList]

/-- What a source means; blanks around it do not count. -/
def Origin.ofSource (source : String) : Origin :=
  let text := trim source.toList
  if text.isEmpty then nowhere
  else if fileEnds.any (·.isSuffixOf text) then file (String.ofList text)
  else inline (String.ofList text)

/-! ## Loading -/

/-- The outcome of loading: the remarks on the way, and the configuration or an error.  A
blank document is none. -/
structure Loading where
  notices : List Notice
  result : Except Error (Option Config)

namespace Loading

def nothing : Loading := ⟨[], .ok none⟩

def failed (error : Error) : Loading := ⟨[], .error error⟩

def ofDocument (d : Document) : Loading :=
  match d.checkVersion with
  | .error error => ⟨d.versionNotices, .error error⟩
  | .ok () =>
    ⟨d.versionNotices ++ d.optionNotices ++ d.map.notices, d.config.map some⟩

def ofText (text : String) : Loading :=
  if (trim text.toList).isEmpty then nothing
  else
    match Document.ofText text with
    | .error error => failed error
    | .ok document => ofDocument document

end Loading

/-- Loads a source, given the contents of files. -/
def load (content : String → Except FileFault String) (source : String) : Loading :=
  match Origin.ofSource source with
  | .nowhere => .nothing
  | .inline text => .ofText text
  | .file name =>
    match content name with
    | .error fault => .failed (.file fault)
    | .ok text => .ofText text

end TypeRules
