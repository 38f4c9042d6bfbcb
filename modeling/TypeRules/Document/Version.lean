import TypeRules.Document
import TypeRules.Document.Notice
import TypeRules.Error
import TypeRules.Text.Blank
import TypeRules.Text.Cut
import TypeRules.Yaml.Value.Printer

/-! # Versions of documents

A document has to tell the version of the format it is written in.  A version is a `v` with a
major number, and possibly a point and a minor number behind it.

* `majorVersion?` reads a version.
* `Document.checkVersion` accepts versions from `minVersion` on.
-/

namespace TypeRules

open Text

/-! ## Reading a version -/

/-- The bound of version numbers, which are stored in 32 bits. -/
def numberBound : Nat := 4294967296

/-- A number: digits, with a plus in front or without one, below the bound. -/
def versionNumber? (cs : List Char) : Option Nat :=
  let digits := (withoutPrefix? ['+'] cs).getD cs
  if digits.isEmpty || !digits.all Char.isDigit then none
  else
    let n := digits.foldl (fun n c => 10 * n + (c.toNat - '0'.toNat)) 0
    if n < numberBound then some n else none

def majorVersion? (version : String) : Option Nat := do
  let numbers ← withoutPrefix? ['v'] version.toList
  match cutAt? (· == '.') numbers with
  | none => versionNumber? numbers
  | some (major, minor) =>
    let _ ← versionNumber? minor
    versionNumber? major

/-- A version as it is shown; one that cannot be written is shown as nothing. -/
def versionText (version : Yaml.Value) : String :=
  trimString ((version.text?.orElse fun _ => version.written?).getD "")

/-! ## Checking a document -/

def minVersion : Nat := 2

def isSupported (version : String) : Bool :=
  (majorVersion? version).any fun major => minVersion ≤ major

namespace Document

/-- The text of the version; the key of former times counts only without the current one. -/
def versionText? (d : Document) : Option String :=
  (d.version.orElse fun _ => d.formerVersion).map versionText

/-- Accepts a document that has a supported version. -/
def checkVersion (d : Document) : Except Error Unit :=
  match d.versionText? with
  | none => .error .missingVersion
  | some version => if isSupported version then .ok () else .error (.unsupportedVersion version)

def versionNotices (d : Document) : List Notice :=
  (if d.version.isNone && d.formerVersion.isSome then [.formerVersionKey] else []) ++
    match d.checkVersion with
    | .error (.unsupportedVersion version) => [.unsupportedVersion version]
    | _ => []

end Document

end TypeRules
