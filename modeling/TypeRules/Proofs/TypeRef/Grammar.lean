import Mathlib.Logic.ExistsUnique
import TypeRules.Proofs.Except
import TypeRules.Proofs.Text.Trim
import TypeRules.Proofs.TypeRef.Name
import TypeRules.TypeRef.Reader

/-! # The grammar of references

A reference is a name, or a name with references in angle brackets and commas between them, and
blanks may stand around every name and every bracket.

* `TypeRef.Derives` is this grammar, with the tree that a derivation stands for.
* `read_eq_ok_iff_derives` — the reader accepts what the grammar derives, with the same tree, and
  refuses everything else with a fault about brackets or names.

The reader does not follow the grammar: it opens the first bracket, wants the last character to
be its partner, and cuts what is between at commas in the open.  The non-trivial ingredient is
`Derives.balanced`: every derivable text is balanced and has no comma in the open, so the cuts of
the reader are the commas of the derivation.
-/

namespace TypeRules

open Text

namespace TypeRef

/-! ## The grammar -/

/-- The texts of references, with the trees they stand for. -/
inductive Derives : List Char → TypeRef → Prop where
  | name {l name r : List Char} (hl : Blanks l) (hname : TypeName name) (hr : Blanks r) :
      Derives (l ++ name ++ r) (.ofName (String.ofList name))
  | generic {l name m r : List Char} {args : List (List Char × TypeRef)} (hl : Blanks l)
      (hname : TypeName name) (hm : Blanks m) (hne : args ≠ [])
      (hargs : ∀ arg ∈ args, Derives arg.1 arg.2) (hr : Blanks r) :
      Derives (l ++ name ++ m ++ '<' :: (joinWith [','] (args.map Prod.fst) ++ '>' :: r))
        (.mk (String.ofList name) (args.map Prod.snd))

/-! ## Reading step by step -/

theorem readName_eq_ok_iff {cs : List Char} {n : String} :
    readName cs = .ok n ↔ TypeName (trim cs) ∧ String.ofList (trim cs) = n := by
  rw [readName, ← isTypeName_iff]
  cases h : isTypeName (trim cs) <;> simp

theorem readName_eq_error {cs : List Char} {fault : ReadFault}
    (h : readName cs = .error fault) : ∃ n, fault = .invalidTypeName n := by
  rw [readName] at h
  split at h
  · cases h
  · cases h
    exact ⟨_, rfl⟩

theorem read_of_no_angle {cs : List Char} (h : cutAt? (· == '<') (trim cs) = none) :
    read cs = (readName cs).map ofName := by
  rw [read]
  split
  · rfl
  · next hopen => simp [h] at hopen

theorem read_of_unclosed {cs name rest : List Char}
    (hopen : cutAt? (· == '<') (trim cs) = some (name, rest))
    (hclose : withoutSuffix? ['>'] rest = none) : read cs = .error .unbalancedGenerics := by
  rw [read]
  split
  · next hcut => simp [hopen] at hcut
  · next hcut =>
    rw [hopen] at hcut
    cases hcut
    split
    · rfl
    · next hclose' => simp [hclose] at hclose'

theorem read_of_brackets {cs name rest inner : List Char}
    (hopen : cutAt? (· == '<') (trim cs) = some (name, rest))
    (hclose : withoutSuffix? ['>'] rest = some inner) :
    read cs = (splitTop ',' inner).mapM read >>= fun args =>
      readName name >>= fun name => .ok (mk name args) := by
  have hargs : ((splitTop ',' inner).attach.mapM fun arg => read arg.val) =
      (splitTop ',' inner).mapM read := by
    rw [List.mapM_subtype (g := read) fun _ _ => rfl, List.unattach_attach]
  rw [read]
  split
  · next hcut => simp [hopen] at hcut
  · next hcut =>
    rw [hopen] at hcut
    cases hcut
    split
    · next hclose' => simp [hclose] at hclose'
    · next hclose' =>
      rw [hclose] at hclose'
      cases hclose'
      rw [← hargs]
      rfl

theorem read_eq_of_trim_eq {cs ds : List Char} (h : trim cs = trim ds) : read cs = read ds := by
  have hname : readName cs = readName ds := by rw [readName, readName, h]
  cases hopen : cutAt? (· == '<') (trim cs) with
  | none => rw [read_of_no_angle hopen, read_of_no_angle (by rwa [← h]), hname]
  | some cut =>
    cases hclose : withoutSuffix? ['>'] cut.2 with
    | none => rw [read_of_unclosed hopen hclose, read_of_unclosed (by rwa [← h]) hclose]
    | some inner => rw [read_of_brackets hopen hclose, read_of_brackets (by rwa [← h]) hclose]

/-! ## Derivable texts under a scan -/

def isPlainChar (c : Char) : Bool := isBlank c || isNameChar c

theorem isQuiet_of_isPlainChar {c : Char} (h : isPlainChar c = true) : isQuiet c = true := by
  rcases Bool.or_eq_true_iff.1 h with h | h
  · exact isQuiet_of_isBlank h
  · exact isQuiet_of_isNameChar h

theorem isPlainChar_of_mem {l name r : List Char} (hl : Blanks l) (hname : TypeName name)
    (hr : Blanks r) : ∀ c ∈ l ++ name ++ r, isPlainChar c = true := by
  intro c hc
  rw [List.append_assoc] at hc
  rcases List.mem_append.1 hc with hc | hc
  · simp [isPlainChar, hl c hc]
  · rcases List.mem_append.1 hc with hc | hc
    · simp [isPlainChar, hname.isNameChar c hc]
    · simp [isPlainChar, hr c hc]

theorem angles_append (inner r : List Char) :
    '<' :: (inner ++ '>' :: r) = '<' :: (inner ++ ['>']) ++ r := by
  simp

theorem Derives.balanced {cs : List Char} {t : TypeRef} (h : Derives cs t) :
    Balanced cs ∧ ∀ c ∈ Nesting.top.exposed cs, isPlainChar c = true := by
  induction h with
  | @name l name r hl hname hr =>
    have hplain := isPlainChar_of_mem hl hname hr
    exact ⟨balanced_of_isQuiet fun c hc => isQuiet_of_isPlainChar (hplain c hc),
      fun c hc => hplain c (Nesting.mem_of_mem_exposed hc)⟩
  | @generic l name m r args hl hname hm hne hargs hr ih =>
    have hplain := isPlainChar_of_mem hl hname hm
    have hfront : Balanced (l ++ name ++ m) :=
      balanced_of_isQuiet fun c hc => isQuiet_of_isPlainChar (hplain c hc)
    have hcomma : Balanced [','] := balanced_of_isQuiet (List.all_eq_true.1 rfl)
    have hinner : Balanced (joinWith [','] (args.map Prod.fst)) :=
      hcomma.joinWith fun piece hpiece => by
        obtain ⟨arg, harg, rfl⟩ := List.mem_map.1 hpiece
        exact (ih arg harg).1
    rw [angles_append]
    refine ⟨hfront.append (hinner.angles.append hr.balanced), fun c hc => ?_⟩
    rw [hfront.exposed_append, hinner.angles.exposed_append, Nesting.top, exposed_angles hinner 0,
      List.nil_append] at hc
    rcases List.mem_append.1 hc with hc | hc
    · exact hplain c (Nesting.mem_of_mem_exposed hc)
    · simp [isPlainChar, hr c (Nesting.mem_of_mem_exposed hc)]

theorem Derives.comma_not_mem {cs : List Char} {t : TypeRef} (h : Derives cs t) :
    ',' ∉ Nesting.top.exposed cs := by
  intro hc
  exact absurd (h.balanced.2 _ hc) (by decide +kernel)

theorem Derives.isPlainChar_of_args_eq_nil {cs : List Char} {t : TypeRef} (h : Derives cs t)
    (hargs : t.args = []) : ∀ c ∈ cs, isPlainChar c = true := by
  cases h with
  | name hl hname hr => exact isPlainChar_of_mem hl hname hr
  | generic _ _ _ hne => exact absurd (List.map_eq_nil_iff.1 hargs) hne

theorem Derives.not_blanks {cs : List Char} {t : TypeRef} (h : Derives cs t) : ¬ Blanks cs := by
  intro hblanks
  cases h with
  | name _ hname _ =>
    obtain ⟨c, name, rfl⟩ := List.exists_cons_of_ne_nil hname.ne_nil
    have hc := isBlank_of_isNameChar (hname.isNameChar c List.mem_cons_self)
    rw [hblanks c (by simp)] at hc
    cases hc
  | generic => exact absurd (hblanks '<' (by simp)) (by decide)

theorem Derives.typeName_of_args_eq_nil {cs : List Char} {t : TypeRef} (h : Derives cs t)
    (hargs : t.args = []) (hcs : Trimmed cs) : TypeName cs := by
  cases h with
  | name hl hname hr => rwa [← trim_eq_self hcs, trim_blanks_around hl hr hname.trimmed]
  | generic _ _ _ hne => exact absurd (List.map_eq_nil_iff.1 hargs) hne

/-- Besides names and blanks there are only brackets and commas in a derivable text. -/
theorem Derives.isPlainChar_or_of_mem {cs : List Char} {t : TypeRef} (h : Derives cs t) :
    ∀ c ∈ cs, isPlainChar c = true ∨ c ∈ ['<', ',', '>'] := by
  induction h with
  | name hl hname hr =>
    intro c hc
    exact .inl (isPlainChar_of_mem hl hname hr c hc)
  | @generic l name m r args hl hname hm hne hargs hr ih =>
    intro c hc
    simp only [List.mem_append, List.mem_cons] at hc
    rcases hc with hc | rfl | hc | rfl | hc
    · exact .inl (isPlainChar_of_mem hl hname hm c (by simpa [or_assoc] using hc))
    · exact .inr List.mem_cons_self
    · rcases mem_joinWith hc with hc | ⟨piece, hpiece, hc⟩
      · rw [List.mem_singleton.1 hc]
        exact .inr (by decide)
      · obtain ⟨arg, harg, rfl⟩ := List.mem_map.1 hpiece
        exact ih arg harg c hc
    · exact .inr (by decide)
    · exact .inl (by simp [isPlainChar, hr c hc])

/-! ## What the grammar derives is read -/

theorem ne_angle_of_isPlainChar {cs : List Char} (h : ∀ c ∈ cs, isPlainChar c = true) :
    ∀ c ∈ cs, (c == '<') = false := by
  intro c hc
  rw [beq_eq_false_iff_ne]
  rintro rfl
  exact absurd (isQuiet_of_isPlainChar (h _ hc)) (by decide)

theorem trimmed_generic {name : List Char} (hname : TypeName name) (cs : List Char) :
    Trimmed (name ++ (cs ++ ['>'])) := by
  constructor
  · intro c hc
    obtain ⟨first, others, hcons⟩ := List.exists_cons_of_ne_nil hname.ne_nil
    refine hname.trimmed.1 c ?_
    rw [hcons] at hc ⊢
    exact hc
  · intro c hc
    rw [← List.append_assoc, List.getLast?_concat] at hc
    cases hc
    rfl

theorem read_of_derives {cs : List Char} {t : TypeRef} (h : Derives cs t) : read cs = .ok t := by
  induction h with
  | @name l name r hl hname hr =>
    have htrim : trim (l ++ name ++ r) = name := trim_blanks_around hl hr hname.trimmed
    have hplain := isPlainChar_of_mem blanks_nil hname blanks_nil
    rw [List.nil_append, List.append_nil] at hplain
    have hopen : cutAt? (· == '<') (trim (l ++ name ++ r)) = none := by
      rw [htrim, cutAt?_eq_none_iff]
      exact ne_angle_of_isPlainChar hplain
    have hread : readName (l ++ name ++ r) = .ok (String.ofList name) :=
      readName_eq_ok_iff.2 ⟨by rwa [htrim], by rw [htrim]⟩
    rw [read_of_no_angle hopen, hread]
    rfl
  | @generic l name m r args hl hname hm hne hargs hr ih =>
    have htrim : trim (l ++ name ++ m ++ '<' :: (joinWith [','] (args.map Prod.fst) ++ '>' :: r)) =
        name ++ m ++ '<' :: (joinWith [','] (args.map Prod.fst) ++ ['>']) := by
      have hsplit : l ++ name ++ m ++ '<' :: (joinWith [','] (args.map Prod.fst) ++ '>' :: r) =
          l ++ (name ++ (m ++ '<' :: joinWith [','] (args.map Prod.fst) ++ ['>'])) ++ r := by
        simp
      rw [hsplit, trim_blanks_around hl hr (trimmed_generic hname _)]
      simp
    have hplain := isPlainChar_of_mem blanks_nil hname hm
    rw [List.nil_append] at hplain
    have hopen := cutAt?_append_cons (ne_angle_of_isPlainChar hplain) (c := '<') rfl
      (joinWith [','] (args.map Prod.fst) ++ ['>'])
    rw [← htrim] at hopen
    -- Arguments have no comma in the open, so the cuts are the commas between them.
    have hcuts : splitTop ',' (joinWith [','] (args.map Prod.fst)) = args.map Prod.fst :=
      splitTop_joinWith rfl (by simpa using hne) fun piece hpiece => by
        obtain ⟨arg, harg, rfl⟩ := List.mem_map.1 hpiece
        exact ⟨(hargs arg harg).balanced.1, (hargs arg harg).comma_not_mem⟩
    have hmapM : (args.map Prod.fst).mapM read = .ok (args.map Prod.snd) :=
      mapM_eq_ok_iff_pairs.2 ⟨args, rfl, rfl, ih⟩
    have hread : readName (name ++ m) = .ok (String.ofList name) := by
      have htrimName : trim (name ++ m) = name := by
        rw [trim_append_blanks hm, trim_eq_self hname.trimmed]
      exact readName_eq_ok_iff.2 ⟨by rwa [htrimName], by rw [htrimName]⟩
    rw [read_of_brackets hopen (withoutSuffix?_append _ _), hcuts, hmapM]
    exact bind_eq_ok_iff.2 ⟨_, rfl, bind_eq_ok_iff.2 ⟨_, hread, rfl⟩⟩

/-! ## What is read is derivable -/

theorem derives_of_read {cs : List Char} {t : TypeRef} (h : read cs = .ok t) : Derives cs t := by
  obtain ⟨l, r, hl, hr, hcs⟩ := exists_blanks_around_trim cs
  cases hopen : cutAt? (· == '<') (trim cs) with
  | none =>
    rw [read_of_no_angle hopen] at h
    cases hname : readName cs with
    | error fault => rw [hname] at h; cases h
    | ok name =>
      rw [hname] at h
      cases h
      obtain ⟨hpattern, rfl⟩ := readName_eq_ok_iff.1 hname
      have hderives := Derives.name hl hpattern hr
      rwa [← hcs] at hderives
  | some cut =>
    obtain ⟨front, rest⟩ := cut
    cases hclose : withoutSuffix? ['>'] rest with
    | none => rw [read_of_unclosed hopen hclose] at h; cases h
    | some inner =>
      rw [read_of_brackets hopen hclose] at h
      obtain ⟨args, hargs, h⟩ := bind_eq_ok_iff.1 h
      obtain ⟨name, hname, h⟩ := bind_eq_ok_iff.1 h
      cases h
      obtain ⟨hpattern, rfl⟩ := readName_eq_ok_iff.1 hname
      obtain ⟨pairs, hfst, rfl, hpairs⟩ := mapM_eq_ok_iff_pairs.1 hargs
      obtain ⟨c, hc, htrim, -⟩ := eq_of_cutAt? hopen
      obtain rfl : c = '<' := by simpa using hc
      obtain ⟨l', m, hl', hm, hfront⟩ := exists_blanks_around_trim front
      have hne : pairs ≠ [] := by
        rintro rfl
        exact splitTop_ne_nil ',' inner hfst.symm
      have hderives : ∀ pair ∈ pairs, Derives pair.1 pair.2 := by
        intro pair hpair
        have hmem : pair.1 ∈ splitTop ',' inner := hfst ▸ List.mem_map_of_mem hpair
        have hshorter := length_lt_of_mem_args hopen hclose hmem
        exact derives_of_read (hpairs pair hpair)
      have hgeneric := Derives.generic (hl.append hl') hpattern hm hne hderives hr
      rw [hfst, joinWith_splitTop] at hgeneric
      have htext : cs = l ++ l' ++ trim front ++ m ++ '<' :: (inner ++ '>' :: r) :=
        calc cs = l ++ trim cs ++ r := hcs
          _ = l ++ (front ++ '<' :: (inner ++ ['>'])) ++ r := by
            rw [htrim, eq_of_withoutSuffix? hclose]
          _ = l ++ ((l' ++ trim front ++ m) ++ '<' :: (inner ++ ['>'])) ++ r := by rw [← hfront]
          _ = l ++ l' ++ trim front ++ m ++ '<' :: (inner ++ '>' :: r) := by simp
      rw [htext]
      exact hgeneric
termination_by cs.length

/-! ## Refusals -/

/-- The reasons for refusing a reference. -/
inductive RefusalFault : ReadFault → Prop where
  | unbalanced : RefusalFault .unbalancedGenerics
  | badName (n : String) : RefusalFault (.invalidTypeName n)

theorem refusalFault_of_readName {cs : List Char} {fault : ReadFault}
    (h : readName cs = .error fault) : RefusalFault fault := by
  obtain ⟨n, rfl⟩ := readName_eq_error h
  exact .badName n

theorem refusalFault_of_read {cs : List Char} {fault : ReadFault} (h : read cs = .error fault) :
    RefusalFault fault := by
  cases hopen : cutAt? (· == '<') (trim cs) with
  | none =>
    rw [read_of_no_angle hopen] at h
    cases hname : readName cs with
    | error fault' =>
      rw [hname] at h
      cases h
      exact refusalFault_of_readName hname
    | ok name => rw [hname] at h; cases h
  | some cut =>
    obtain ⟨front, rest⟩ := cut
    cases hclose : withoutSuffix? ['>'] rest with
    | none =>
      rw [read_of_unclosed hopen hclose] at h
      cases h
      exact .unbalanced
    | some inner =>
      rw [read_of_brackets hopen hclose] at h
      -- Arguments come first, and the name is read once all of them are.
      rcases bind_eq_error_iff.1 h with h | ⟨args, -, h⟩
      · obtain ⟨arg, hmem, harg⟩ := mapM_eq_error h
        have hshorter := length_lt_of_mem_args hopen hclose hmem
        exact refusalFault_of_read harg
      · rcases bind_eq_error_iff.1 h with h | ⟨name, -, h⟩
        · exact refusalFault_of_readName h
        · cases h
termination_by cs.length

theorem prefix_message_unreadable (rule : String) (fault : ReadFault) :
    "Bad Mapping: ".toList <+: (Error.unreadable rule fault).message.toList := by
  have hmessage : (Error.unreadable rule fault).message =
      "Bad Mapping: failed to parse mapping '" ++ rule ++ "': " ++ fault.text := rfl
  have hstart : "Bad Mapping: failed to parse mapping '" =
      "Bad Mapping: " ++ "failed to parse mapping '" := by decide
  rw [hmessage, hstart, String.append_assoc, String.append_assoc, String.append_assoc,
    String.toList_append]
  exact List.prefix_append _ _

/-! ## Main result -/

/-- The reader accepts exactly what the grammar derives, and gives the tree of the derivation,
of which there is only one.  Every other text is refused with a bad mapping. -/
theorem read_eq_ok_iff_derives (cs : List Char) :
    (∀ t, read cs = .ok t ↔ Derives cs t) ∧
    ((∃! t, Derives cs t) ∨
      (¬ ∃ t, Derives cs t) ∧ ∃ fault, read cs = .error fault ∧ RefusalFault fault ∧
        ∀ rule, "Bad Mapping: ".toList <+: (Error.unreadable rule fault).message.toList) := by
  refine ⟨fun t => ⟨derives_of_read, read_of_derives⟩, ?_⟩
  cases h : read cs with
  | ok t =>
    refine .inl ⟨t, derives_of_read h, fun u hu => ?_⟩
    have hread := read_of_derives hu
    rw [h] at hread
    cases hread
    rfl
  | error fault =>
    refine .inr ⟨?_, fault, rfl, refusalFault_of_read h,
      fun rule => prefix_message_unreadable rule fault⟩
    rintro ⟨t, ht⟩
    rw [read_of_derives ht] at h
    cases h

/-- The brackets are balanced, but the inner ones have no name in front of them. -/
example : read "A<<B>>".toList = .error (.invalidTypeName "") := by cbv

end TypeRef

end TypeRules
