import Mathlib.Data.Nat.Digits.Defs
import TypeRules.Document.Version
import TypeRules.Proofs.Text.Cut

/-! # The language of versions

A version is read by taking its letter away, cutting at the first point and reading both sides as
numbers of 32 bits.

* `VersionNumber` and `VersionText` say which texts are numbers and versions, and which number they
  stand for.
* `majorVersion?_eq_some_iff` — these texts are read, with this major number, and no others.
* `checkVersion_iff` — a document is accepted if its version is in the language and not too old.  A
  version under the key of former times does not make up for a bad one under the current key.
-/

namespace TypeRules

open Text

/-! ## Numbers -/

/-- The number that decimal digits denote.  The first digit counts most. -/
def decimalOf (digits : List Char) : Nat :=
  Nat.ofDigits 10 (digits.reverse.map fun c => c.toNat - '0'.toNat)

/-- ASCII digits, with a plus in front or without one, for a number of 32 bits. -/
inductive VersionNumber : List Char → Nat → Prop where
  | mk {sign digits : List Char} (hsign : sign = [] ∨ sign = ['+']) (hne : digits ≠ [])
      (hdigits : ∀ c ∈ digits, c.isDigit = true) (hbound : decimalOf digits < 2 ^ 32) :
      VersionNumber (sign ++ digits) (decimalOf digits)

theorem foldl_digits_eq_decimalOf (digits : List Char) :
    digits.foldl (fun n c => 10 * n + (c.toNat - '0'.toNat)) 0 = decimalOf digits := by
  rw [decimalOf, Nat.ofDigits_eq_foldr, List.foldr_map, List.foldr_reverse]
  simp only [Nat.cast_id, Nat.add_comm]

/-- The digits are all of the text, unless a plus is in front of them. -/
def digitsOf (cs : List Char) : List Char := (withoutPrefix? ['+'] cs).getD cs

theorem exists_sign_append_digitsOf (cs : List Char) :
    ∃ sign, (sign = [] ∨ sign = ['+']) ∧ cs = sign ++ digitsOf cs := by
  rw [digitsOf]
  cases hplus : withoutPrefix? ['+'] cs with
  | none => exact ⟨[], .inl rfl, rfl⟩
  | some digits => exact ⟨['+'], .inr rfl, eq_of_withoutPrefix? hplus⟩

theorem digitsOf_append {sign digits : List Char} (hsign : sign = [] ∨ sign = ['+'])
    (hdigits : ∀ c ∈ digits, c.isDigit = true) : digitsOf (sign ++ digits) = digits := by
  rcases hsign with rfl | rfl
  · rw [digitsOf]
    cases hplus : withoutPrefix? ['+'] digits with
    | none => rw [List.nil_append, hplus, Option.getD_none]
    | some rest =>
      rw [eq_of_withoutPrefix? hplus] at hdigits
      exact absurd (hdigits '+' List.mem_cons_self) (by decide)
  · rw [digitsOf, withoutPrefix?_append]
    rfl

theorem versionNumber?_eq_some_iff {cs : List Char} {n : Nat} :
    versionNumber? cs = some n ↔
      (digitsOf cs ≠ [] ∧ ∀ c ∈ digitsOf cs, c.isDigit = true) ∧
        decimalOf (digitsOf cs) < 2 ^ 32 ∧ decimalOf (digitsOf cs) = n := by
  have hbound : numberBound = 2 ^ 32 := rfl
  rw [versionNumber?, ← digitsOf]
  simp only [foldl_digits_eq_decimalOf, hbound, Bool.or_eq_true, List.isEmpty_iff,
    Bool.not_eq_true', Bool.eq_false_iff, ne_eq, List.all_eq_true]
  split
  · next hbad => grind
  · next hgood => grind

theorem versionNumber_iff {cs : List Char} {n : Nat} :
    versionNumber? cs = some n ↔ VersionNumber cs n := by
  rw [versionNumber?_eq_some_iff]
  constructor
  · rintro ⟨⟨hne, hdigits⟩, hbound, rfl⟩
    obtain ⟨sign, hsign, hcs⟩ := exists_sign_append_digitsOf cs
    have hnumber := VersionNumber.mk hsign hne hdigits hbound
    rwa [← hcs] at hnumber
  · rintro ⟨hsign, hne, hdigits, hbound⟩
    rw [digitsOf_append hsign hdigits]
    exact ⟨⟨hne, hdigits⟩, hbound, rfl⟩

theorem VersionNumber.point_not_mem {cs : List Char} {n : Nat} (h : VersionNumber cs n) :
    ∀ c ∈ cs, (c == '.') = false := by
  obtain ⟨hsign, -, hdigits, -⟩ := h
  intro c hc
  rw [beq_eq_false_iff_ne]
  rintro rfl
  rcases List.mem_append.1 hc with hc | hc
  · rcases hsign with rfl | rfl
    · cases hc
    · exact absurd hc (by decide)
  · exact absurd (hdigits '.' hc) (by decide)

/-! ## Versions -/

/-- A letter and a major number, and possibly a point and a minor number behind them.  The version
stands for its major number. -/
inductive VersionText : List Char → Nat → Prop where
  | major {major : List Char} {n : Nat} (h : VersionNumber major n) : VersionText ('v' :: major) n
  | minor {major minor : List Char} {n m : Nat} (h : VersionNumber major n)
      (hminor : VersionNumber minor m) : VersionText ('v' :: (major ++ '.' :: minor)) n

theorem majorVersion?_eq_some_iff {version : String} {n : Nat} :
    majorVersion? version = some n ↔ VersionText version.toList n := by
  rw [majorVersion?]
  constructor
  · intro h
    obtain ⟨numbers, hletter, h⟩ := Option.bind_eq_some_iff.1 h
    rw [eq_of_withoutPrefix? hletter]
    split at h
    · exact .major (versionNumber_iff.1 h)
    · next major minor hcut =>
      obtain ⟨m, hminor, h⟩ := Option.bind_eq_some_iff.1 h
      obtain ⟨c, hc, rfl, -⟩ := eq_of_cutAt? hcut
      obtain rfl : c = '.' := by simpa using hc
      exact .minor (versionNumber_iff.1 h) (versionNumber_iff.1 hminor)
  · intro h
    have hletter (numbers : List Char) : withoutPrefix? ['v'] ('v' :: numbers) = some numbers :=
      withoutPrefix?_append ['v'] numbers
    generalize version.toList = cs at h
    cases h with
    | @major major n h =>
      have hcut := cutAt?_eq_none_iff.2 h.point_not_mem
      simp only [hletter, Option.bind_eq_bind, Option.bind_some, hcut]
      exact versionNumber_iff.2 h
    | @minor major minor n m h hminor =>
      have hcut := cutAt?_append_cons h.point_not_mem (c := '.') rfl minor
      simp only [hletter, Option.bind_eq_bind, Option.bind_some, hcut, versionNumber_iff.2 hminor]
      exact versionNumber_iff.2 h

/-- A version of the language that is not too old. -/
def SupportedVersion (version : String) : Prop := ∃ n, VersionText version.toList n ∧ 2 ≤ n

theorem isSupported_iff {version : String} :
    isSupported version = true ↔ SupportedVersion version := by
  rw [isSupported, Option.any_eq_true]
  refine exists_congr fun n => ?_
  rw [majorVersion?_eq_some_iff, decide_eq_true_iff]
  rfl

instance (version : String) : Decidable (SupportedVersion version) :=
  decidable_of_iff _ isSupported_iff

/-! ## Main result -/

/-- Errors about the version of a document. -/
def Error.IsMappingFormat : Error → Prop
  | missingVersion => True
  | unsupportedVersion _ => True
  | _ => False

namespace Document

variable {d : Document} {version : Yaml.Value}

theorem checkVersion_of_versionText? {text : String} (h : d.versionText? = some text) :
    d.checkVersion = if isSupported text then .ok () else .error (.unsupportedVersion text) := by
  rw [checkVersion, h]

/-- The version that counts is the one under the current key.  Only a document without it is asked
for the one under the key of former times. -/
inductive HasVersion (d : Document) (version : Yaml.Value) : Prop where
  | current (h : d.version = some version)
  | former (hnone : d.version = none) (h : d.formerVersion = some version)

theorem HasVersion.versionText?_eq (h : d.HasVersion version) :
    d.versionText? = some (versionText version) := by
  cases h with
  | current h => rw [versionText?, h]; rfl
  | former hnone h => rw [versionText?, hnone, h]; rfl

theorem isMappingFormat_of_checkVersion {e : Error} (h : d.checkVersion = .error e) :
    e.IsMappingFormat := by
  rw [checkVersion] at h
  split at h
  · cases h
    trivial
  · split at h
    · cases h
    · cases h
      trivial

/-- A document is accepted exactly if the text of its version, without blanks around it, is in the
language and has a major number from 2 on.  Every other document is refused for its version. -/
theorem checkVersion_iff (d : Document) :
    (∀ version, d.HasVersion version →
      (d.checkVersion = .ok () ↔ SupportedVersion (versionText version)) ∧
      (¬ SupportedVersion (versionText version) →
        d.checkVersion = .error (.unsupportedVersion (versionText version)))) ∧
    (∀ text, versionText (.scalar (.text text)) = trimString text) ∧
    (d.version = none → d.formerVersion = none → d.checkVersion = .error .missingVersion) ∧
    (d.version ≠ none → ∀ former,
      { d with formerVersion := former }.checkVersion = d.checkVersion) ∧
    ∀ e, d.checkVersion = .error e → e.IsMappingFormat := by
  refine ⟨fun version hversion => ?_, fun text => rfl, fun hnone hformer => ?_,
    fun hsome former => ?_, fun e => isMappingFormat_of_checkVersion⟩
  · rw [checkVersion_of_versionText? hversion.versionText?_eq, ← isSupported_iff]
    cases isSupported (versionText version) <;> simp
  · rw [checkVersion, versionText?, hnone, hformer]
    rfl
  · obtain ⟨version, hversion⟩ := Option.ne_none_iff_exists'.1 hsome
    rw [checkVersion, checkVersion, versionText?, versionText?, hversion]
    rfl

/-- A version with signs and zeros, and one whose major number has more than 32 bits. -/
theorem checkVersion_signedAndStale :
    let signed : Document := { Document.empty with
      version := some (.scalar (.text " v+0002.+007 ")) }
    let stale : Document := { Document.empty with
      version := some (.scalar (.text "v4294967296")),
      formerVersion := some (.scalar (.text "v8")) }
    signed.HasVersion (.scalar (.text " v+0002.+007 ")) ∧ signed.checkVersion = .ok () ∧
      stale.HasVersion (.scalar (.text "v4294967296")) ∧
      stale.checkVersion = .error (.unsupportedVersion "v4294967296") := by
  intro signed stale
  have hsigned : signed.HasVersion (.scalar (.text " v+0002.+007 ")) := .current rfl
  have hstale : stale.HasVersion (.scalar (.text "v4294967296")) := .current rfl
  have haccepted := ((checkVersion_iff signed).1 _ hsigned).1.2 (by decide)
  have hrefused := ((checkVersion_iff stale).1 _ hstale).2 (by decide)
  exact ⟨hsigned, haccepted, hstale, hrefused⟩

end Document

end TypeRules
