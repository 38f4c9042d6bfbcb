import Mathlib.Data.List.Chain
import TypeRules.Proofs.DataType.Pieces
import TypeRules.Proofs.Lookup.Tracing
import TypeRules.Proofs.TypeRef.Dotted

/-! # Texts of data types as references

The text of a data type is read as a reference again, with simple names.  There is one exception:
an envelope writes its content behind its first argument, and if this has arguments itself, one
name has two lists of arguments.

* `DataType.Flat` — there is no such envelope.
* `DataType.derives_typeName` — then the text is in the grammar of references.
* `TypeRef.Derives.apart` — in this grammar no bracket is opened directly behind one that is
  closed, which happens in all other texts (`DataType.infix_typeName`).
* `Config.Wraps.wellNamed` — under fitting options a wrapper keeps names valid.
* `read_typeName_wrapAll` is the statement about types in configured wrappers.
-/

namespace TypeRules

open Text

/-! ## Texts in the grammar -/

/-- All names of types among the pieces are valid. -/
def Piece.WellNamed (pieces : List Piece) : Prop :=
  ∀ id covered, .type id covered ∈ pieces → TypeName id.name.toList

theorem Piece.wellNamed_around {front argument : List Piece} :
    WellNamed (around front argument) ↔ WellNamed front ∧ WellNamed argument := by
  simp [WellNamed, around, or_imp, forall_and]

theorem Piece.wellNamed_type {id : QualifiedName} {covered : Bool} :
    WellNamed [.type id covered] ↔ TypeName id.name.toList := by
  simp [WellNamed]

theorem Piece.typeName_head {id : QualifiedName} {covered : Bool}
    (h : WellNamed [head id covered]) : TypeName id.name.toList := by
  rw [head] at h
  split at h
  · next hwildcard =>
    rw [hwildcard]
    exact .wildcard
  · exact wellNamed_type.1 h

def GenericType.id : GenericType → QualifiedName
  | mk id _ => id

namespace DataType

/-- The type with simple names.  The content of an envelope is an argument of its first argument,
if there is one. -/
def outline : DataType → TypeRef
  | simple id => .ofName id.name
  | collection id item => .mk id.name [item.outline]
  | mapped id item _ => .mk id.name [item.outline]
  | single id inner => .mk id.name [inner.outline]
  | result id inner generics replacement =>
    if replacement then .ofName id.name
    else
      match generics with
      | [] => .mk id.name [inner.outline]
      | generic :: _ => .mk id.name [.mk generic.id.name [inner.outline]]
  | nullable id inner _ => .mk id.name [inner.outline]
  | noContent boxed => .ofName (noContent boxed).id.name

/-- No envelope has a first argument with arguments. -/
def Flat (t : DataType) : Prop := ∀ args ∈ t.envelopes, ∀ a ∈ args.head?, a.args = []

end DataType

namespace TypeRef

theorem derives_ofName {name : String} (h : TypeName name.toList) :
    Derives name.toList (.ofName name) := by
  have hderives := Derives.name blanks_nil h blanks_nil
  rwa [List.nil_append, List.append_nil, String.ofList_toList] at hderives

theorem derives_around {name : String} (h : TypeName name.toList) {cs : List Char} {t : TypeRef}
    (ht : Derives cs t) : Derives (name.toList ++ '<' :: (cs ++ ['>'])) (.mk name [t]) := by
  have hderives := Derives.generic blanks_nil h blanks_nil (List.cons_ne_nil (cs, t) [])
    (by simpa using ht) blanks_nil
  simpa [String.ofList_toList] using hderives

end TypeRef

open TypeRef (derives_ofName derives_around)

namespace DataType

theorem derives_wrapper {id : QualifiedName} {argument : List Piece} {cs : List Char} {t : TypeRef}
    (hnames : Piece.WellNamed (Piece.around [.type id false] argument))
    (ht : Piece.WellNamed argument → TypeRef.Derives cs t) :
    TypeRef.Derives (id.name.toList ++ '<' :: (cs ++ ['>'])) (.mk id.name [t]) := by
  obtain ⟨hname, hargument⟩ := Piece.wellNamed_around.1 hnames
  exact derives_around (Piece.wellNamed_type.1 hname) (ht hargument)

theorem derives_typeName {t : DataType} (hnames : Piece.WellNamed t.pieces) (hflat : t.Flat) :
    TypeRef.Derives t.typeName.toList t.outline := by
  induction t with
  | simple id => exact derives_ofName (Piece.wellNamed_type.1 hnames)
  | collection id item ih =>
    have hderives := derives_wrapper hnames fun hinner => ih hinner hflat
    simpa [typeName, outline] using hderives
  | mapped id item multi ih =>
    have hderives := derives_wrapper hnames fun hinner => ih hinner hflat
    simpa [typeName, outline] using hderives
  | single id inner ih =>
    have hderives := derives_wrapper hnames fun hinner => ih hinner hflat
    simpa [typeName, outline] using hderives
  | result id inner generics replacement ih =>
    cases replacement with
    | true => exact derives_ofName (Piece.wellNamed_type.1 hnames)
    | false =>
      have hinner : inner.Flat := fun args hargs => hflat args (List.mem_cons_of_mem _ hargs)
      cases generics with
      | nil =>
        have hderives := derives_wrapper hnames fun hcontent => ih hcontent hinner
        simpa [typeName, outline] using hderives
      | cons generic others =>
        obtain ⟨gid, gargs⟩ := generic
        obtain rfl : gargs = [] := hflat _ List.mem_cons_self _ rfl
        have hderives := derives_wrapper hnames fun hargument => by
          obtain ⟨hgeneric, hcontent⟩ := Piece.wellNamed_around.1 hargument
          exact derives_around (Piece.typeName_head hgeneric) (ih hcontent hinner)
        simpa [typeName, outline, GenericType.typeName, GenericType.id] using hderives
  | nullable id inner initial ih =>
    have hderives := derives_wrapper hnames fun hinner => ih hinner hflat
    simpa [typeName, outline] using hderives
  | noContent boxed =>
    refine derives_ofName (isTypeName_iff.1 ?_)
    cases boxed <;> decide +kernel

end DataType

/-! ## Texts outside of the grammar -/

/-- No bracket is opened directly behind one that is closed. -/
def Apart (cs : List Char) : Prop := cs.IsChain fun c d => ¬ (c = '>' ∧ d = '<')

theorem Apart.cons {c : Char} {cs : List Char} (hc : c ≠ '>') (h : Apart cs) : Apart (c :: cs) :=
  List.isChain_cons.2 ⟨fun _ _ hangles => hc hangles.1, h⟩

theorem apart_of_not_mem {cs : List Char} (h : '>' ∉ cs) : Apart cs := by
  induction cs with
  | nil => exact List.isChain_nil
  | cons c cs ih =>
    rw [List.mem_cons, not_or] at h
    exact .cons (Ne.symm h.1) (ih h.2)

theorem Apart.append {cs ds : List Char} (hcs : Apart cs) (hds : Apart ds)
    (h : '>' ∉ cs ∨ '<' ∉ ds.head?) : Apart (cs ++ ds) := by
  refine List.isChain_append.2 ⟨hcs, hds, fun c hc d hd hangles => ?_⟩
  obtain ⟨rfl, rfl⟩ := hangles
  rcases h with h | h
  · exact h (List.mem_of_mem_getLast? hc)
  · exact h hd

theorem Apart.joinWith {pieces : List (List Char)} (h : ∀ piece ∈ pieces, Apart piece) :
    Apart (joinWith [','] pieces) := by
  induction pieces with
  | nil => exact List.isChain_nil
  | cons piece pieces ih =>
    have hpiece := h piece List.mem_cons_self
    have hpieces := ih fun p hp => h p (List.mem_cons_of_mem _ hp)
    by_cases hnil : pieces = []
    · rwa [hnil, joinWith_singleton]
    · rw [joinWith_cons _ _ hnil, List.append_assoc]
      exact hpiece.append (.cons (by decide) hpieces) (.inr (by simp))

theorem TypeRef.Derives.apart {cs : List Char} {t : TypeRef} (h : Derives cs t) : Apart cs := by
  have hplain : ∀ {ds : List Char}, (∀ c ∈ ds, isPlainChar c = true) → '>' ∉ ds ∧ '<' ∉ ds := by
    intro ds hds
    exact ⟨fun hmem => absurd (hds _ hmem) (by decide +kernel),
      fun hmem => absurd (hds _ hmem) (by decide +kernel)⟩
  induction h with
  | name hl hname hr => exact apart_of_not_mem (hplain (isPlainChar_of_mem hl hname hr)).1
  | @generic l name m r args hl hname hm hne hargs hr ih =>
    obtain ⟨hfront, -⟩ := hplain (isPlainChar_of_mem hl hname hm)
    have hblanks : ∀ c ∈ r, isPlainChar c = true := fun c hc => by simp [isPlainChar, hr c hc]
    have hinner : Apart (Text.joinWith [','] (args.map Prod.fst)) := by
      refine .joinWith fun piece hpiece => ?_
      obtain ⟨arg, harg, rfl⟩ := List.mem_map.1 hpiece
      exact ih arg harg
    have hback : Apart (['>'] ++ r) := by
      obtain ⟨hclosing, hopening⟩ := hplain hblanks
      have hsingle : Apart ['>'] := List.isChain_singleton _
      exact hsingle.append (apart_of_not_mem hclosing)
        (.inr fun hmem => hopening (List.mem_of_mem_head? hmem))
    have hrest := hinner.append hback (.inr (by simp))
    exact (apart_of_not_mem hfront).append (.cons (by decide) hrest) (.inl hfront)

theorem Apart.not_infix {cs : List Char} (h : Apart cs) : ¬ ['>', '<'] <:+: cs := by
  intro hinfix
  have hpair := List.IsChain.infix h hinfix
  exact List.isChain_pair.1 hpair ⟨rfl, rfl⟩

theorem GenericType.suffix_typeName {a : GenericType} (h : a.args ≠ []) :
    ['>'] <:+ a.typeName.toList := by
  obtain ⟨id, args⟩ := a
  obtain ⟨arg, args, rfl⟩ := List.exists_cons_of_ne_nil h
  rw [typeName, String.toList_append]
  exact List.suffix_append _ _

namespace DataType

theorem infix_around (name : String) (inner : DataType) :
    inner.typeName.toList <:+: (name ++ "<" ++ inner.typeName ++ ">").toList :=
  ⟨name.toList ++ ['<'], ['>'], by simp⟩

theorem flat_result_iff {id : QualifiedName} {inner : DataType} {generics : List GenericType} :
    (result id inner generics false).Flat ↔ (∀ a ∈ generics.head?, a.args = []) ∧ inner.Flat :=
  List.forall_mem_cons

theorem flat_of_envelopes_eq_nil {t : DataType} (h : t.envelopes = []) : t.Flat := by
  rw [Flat, h]
  exact List.forall_mem_nil _

theorem infix_typeName {t : DataType} (h : ¬ t.Flat) : ['>', '<'] <:+: t.typeName.toList := by
  induction t with
  | simple id => exact absurd (flat_of_envelopes_eq_nil rfl) h
  | collection id item ih => exact (ih h).trans (infix_around id.name item)
  | mapped id item multi ih => exact (ih h).trans (infix_around id.name item)
  | single id inner ih => exact (ih h).trans (infix_around id.name inner)
  | result id inner generics replacement ih =>
    cases replacement with
    | true => exact absurd (flat_of_envelopes_eq_nil rfl) h
    | false =>
      rw [flat_result_iff, not_and_or] at h
      cases generics with
      | nil => exact (ih (h.resolve_left (by simp))).trans (infix_around id.name inner)
      | cons generic others =>
        rcases h with h | h
        · have hargs : generic.args ≠ [] := by simpa using h
          obtain ⟨front, hfront⟩ := generic.suffix_typeName hargs
          refine ⟨id.name.toList ++ '<' :: front, inner.typeName.toList ++ ['>', '>'], ?_⟩
          simp [typeName, ← hfront]
        · refine (ih h).trans ⟨id.name.toList ++ '<' :: (generic.typeName.toList ++ ['<']),
            ['>', '>'], ?_⟩
          simp [typeName]
  | nullable id inner initial ih => exact (ih h).trans (infix_around id.name inner)
  | noContent boxed => exact absurd (flat_of_envelopes_eq_nil rfl) h

end DataType

/-! ## Names under wrappers -/

theorem Piece.wellNamed_head (id : QualifiedName) (h : TypeName id.name.toList) (covered : Bool) :
    WellNamed [head id covered] := by
  rw [head]
  split
  · simp [WellNamed]
  · exact wellNamed_type.2 h

theorem Piece.wellNamed_intercalate {text : String} {lists : List (List Piece)}
    (h : ∀ list ∈ lists, WellNamed list) : WellNamed ([sign text].intercalate lists) := by
  intro id covered hmem
  obtain ⟨list, hlist, _, hpiece, rfl⟩ :=
    (exists_mem_intercalate (P := fun p => p = .type id covered) (by simp)).1 ⟨_, hmem, rfl⟩
  exact h list hlist id covered hpiece

theorem TypeRef.WellNamed.of_mem_args {t arg : TypeRef} (h : t.WellNamed) (harg : arg ∈ t.args) :
    arg.WellNamed := by
  cases h with
  | mk _ hargs => exact hargs arg harg

theorem Options.Fitting.wellNamed_generic {o : Options} (ho : o.Fitting) {t : TypeRef}
    (h : t.WellNamed) (covered : Bool) : Piece.WellNamed ((o.generic t).pieces covered) := by
  induction t using TypeRef.induct generalizing covered with
  | mk name args ih =>
    obtain ⟨hname, hargs⟩ := h
    have hgeneric := ho.typeName_genericName hname
    have hhead := Piece.wellNamed_head ⟨o.genericName name, TypeRef.packageOf name⟩ hgeneric covered
    cases args with
    | nil =>
      rw [generic, genericsOf, GenericType.pieces]
      exact hhead
    | cons arg args =>
      rw [generic, genericsOf, GenericType.pieces, ← genericsOf, GenericType.argPieces_eq_map,
        genericsOf_eq_map, List.map_map]
      refine Piece.wellNamed_around.2 ⟨hhead, Piece.wellNamed_intercalate fun list hlist => ?_⟩
      obtain ⟨t, ht, rfl⟩ := List.mem_map.1 hlist
      exact ih t ht (hargs t ht) _

namespace DataType

theorem wellNamed_boxed {t : DataType} (h : Piece.WellNamed t.pieces) :
    Piece.WellNamed t.boxed.pieces := by
  cases t with
  | noContent _ => simp [DataType.boxed, pieces, Piece.WellNamed]
  | _ => exact h

theorem wellNamed_result {id : QualifiedName} {inner : DataType} {generics : List GenericType}
    {replacement : Bool} (hname : Piece.WellNamed [.type id false])
    (hinner : Piece.WellNamed inner.pieces)
    (hgenerics : ∀ a ∈ generics, Piece.WellNamed (a.pieces false)) :
    Piece.WellNamed (result id inner generics replacement).pieces := by
  cases replacement with
  | true => exact hname
  | false =>
    cases generics with
    | nil => exact Piece.wellNamed_around.2 ⟨hname, hinner⟩
    | cons generic others =>
      have hgeneric := hgenerics generic List.mem_cons_self
      exact Piece.wellNamed_around.2 ⟨hname, Piece.wellNamed_around.2 ⟨hgeneric, hinner⟩⟩

theorem wellNamed_of_item? {t item : DataType} (h : t.item? = some item)
    (ht : Piece.WellNamed t.pieces) : Piece.WellNamed item.pieces := by
  cases t with
  | collection id item' => cases h; exact (Piece.wellNamed_around.1 ht).2
  | mapped id item' multi => cases h; exact (Piece.wellNamed_around.1 ht).2
  | _ => cases h

end DataType

theorem Config.Wraps.wellNamed {d : Document} {c : Config} (hc : d.config = .ok c)
    (ho : c.options.Fitting) {q : Query} {w : Wrapper} {t u : DataType} (h : c.Wraps q w t u)
    (ht : Piece.WellNamed t.pieces) : Piece.WellNamed u.pieces := by
  have hlevel := Document.wellFormed_of_config hc
  have hsettle : ∀ {target : TypeRef}, target.WellNamed →
      (target.settle c.options.basePackage).WellNamed := TypeRef.wellNamed_settle ho.package
  have hname : ∀ {target : TypeRef}, target.WellNamed →
      Piece.WellNamed [.type target.wrapperName false] := fun ⟨hname, _⟩ =>
    Piece.wellNamed_type.2 (TypeRef.typeName_simpleOf hname)
  cases h with
  | alone => exact ht
  | @result t r hrule _ =>
    obtain ⟨l, hl, rule, hget, rfl⟩ := exists_of_setting_value hrule
    have htarget := hsettle ((hlevel l hl).result rule hget).target
    refine DataType.wellNamed_result (hname htarget) (DataType.wellNamed_boxed ht) fun a ha => ?_
    rw [Options.generics, Options.genericsOf_eq_map] at ha
    obtain ⟨arg, harg, rfl⟩ := List.mem_map.1 ha
    exact ho.wellNamed_generic (htarget.of_mem_args harg) false
  | single hrule _ =>
    obtain ⟨l, hl, rule, hget, rfl⟩ := exists_of_setting_value hrule
    have htarget := hsettle ((hlevel l hl).single rule hget).wellFormed.target
    exact Piece.wellNamed_around.2 ⟨hname htarget, ht⟩
  | multi hrule _ hitem =>
    obtain ⟨l, hl, rule, hget, rfl⟩ := exists_of_setting_value hrule
    have htarget := hsettle ((hlevel l hl).multi rule hget).wellFormed.target
    exact Piece.wellNamed_around.2 ⟨hname htarget, DataType.wellNamed_of_item? hitem ht⟩
  | nullable hrule =>
    obtain ⟨l, hl, rule, hget, rfl⟩ := exists_of_setting_value hrule
    have htarget := hsettle ((hlevel l hl).nullable rule hget)
    exact Piece.wellNamed_around.2 ⟨hname htarget, ht⟩

/-! ## Main result -/

theorem TypeRef.exists_error_of_not_apart {cs : List Char} (h : ¬ Apart cs) :
    ∃ fault, read cs = .error fault := by
  cases hread : read cs with
  | error fault => exact ⟨fault, rfl⟩
  | ok t => exact absurd (derives_of_read hread).apart h

theorem Options.args_generic (o : Options) (t : TypeRef) :
    (o.generic t).args = o.genericsOf t.args := by
  obtain ⟨name, args⟩ := t
  rfl

/-- Whatever wrappers a document puts around a type with valid names, and for whatever queries: if
the names are still valid, the text of the result is read as its outline, unless it has an envelope
whose first argument has arguments itself.  Then the text is refused.  Fitting options keep names
valid, and an envelope is like that only if the rule for it says so. -/
theorem read_typeName_wrapAll {d : Document} {c : Config} (h : d.config = .ok c) {s : DataType}
    (hs : s.Unwrapped) (hnames : Piece.WellNamed s.pieces) (steps : List (Wrapper × Query)) :
    let t := c.wrapAll steps s
    (c.options.Fitting → Piece.WellNamed t.pieces) ∧
      ((∀ q r, (c.setting .result q).value = some r →
        ∀ a ∈ r.target.args.head?, a.args = []) → t.Flat) ∧
      (Piece.WellNamed t.pieces → t.Flat → TypeRef.read t.typeName.toList = .ok t.outline) ∧
      (¬ t.Flat → ∃ fault, TypeRef.read t.typeName.toList = .error fault) := by
  intro t
  refine ⟨fun ho => ?_, fun hrules args hargs a ha => ?_, fun hwell hflat => ?_, fun hflat => ?_⟩
  · exact Config.wrapAll_induction (fun q w t u hwraps ht => hwraps.wellNamed h ho ht) steps hnames
  · obtain ⟨q, r, hrule, rfl⟩ := c.envelopeArgs_wrapAll steps hs args hargs
    rw [Options.generics, Options.genericsOf_eq_map, List.head?_map] at ha
    obtain ⟨arg, harg, rfl⟩ := Option.map_eq_some_iff.1 ha
    rw [Options.args_generic, hrules q r hrule arg harg]
    rfl
  · exact TypeRef.read_of_derives (DataType.derives_typeName hwell hflat)
  · exact TypeRef.exists_error_of_not_apart fun hapart =>
      hapart.not_infix (DataType.infix_typeName hflat)

/-- An envelope whose first argument has an argument, and below one path one without. -/
def deepArgument : Document :=
  { Document.empty with
    map := .mk { Clauses.empty with
        result := some "io.Wrap<io.Inner<io.Deep>>"
        nullable := some "io.Optional" }
      [("/foo", .mk { Clauses.empty with result := some "io.Wrap<io.Inner>" } [] [] [])] [] [] }

def deepArgumentConfig : Config where
  options := deepArgument.options
  repository :=
    { Repository.empty with
      global := { Level.empty with
        result := some ⟨none, .mk "io.Wrap" [.mk "io.Inner" [.ofName "io.Deep"]]⟩
        nullable := some ⟨.ofName "io.Optional", none⟩ }
      endpoints := [("/foo", ⟨{ Level.empty with
        result := some ⟨none, .mk "io.Wrap" [.ofName "io.Inner"]⟩ }, []⟩)] }

def plainInnerSteps : List (Wrapper × Query) :=
  [(.result, Query.empty.withPath "/foo"), (.nullable, .empty)]

theorem read_typeName_plainInner :
    let s : DataType := .simple ⟨"Foo", "io"⟩
    let t := deepArgumentConfig.wrapAll plainInnerSteps s
    deepArgument.config = .ok deepArgumentConfig ∧ s.Unwrapped ∧ Piece.WellNamed s.pieces ∧
      deepArgumentConfig.options.Fitting ∧ t.Flat ∧
      TypeRef.read t.typeName.toList = .ok t.outline := by
  intro s t
  have hconfig : deepArgument.config = .ok deepArgumentConfig := by decide +kernel
  have hs : s.Unwrapped := .simple _
  have hnames : Piece.WellNamed s.pieces :=
    Piece.wellNamed_type.2 (isTypeName_iff.1 (by decide +kernel))
  have hfitting : deepArgumentConfig.options.Fitting := ⟨by decide +kernel, nofun⟩
  have hflat : t.Flat := by
    have henvelopes : t.envelopes = [[.mk ⟨"Inner", "io"⟩ []]] := by decide +kernel
    simp [DataType.Flat, henvelopes, GenericType.args]
  obtain ⟨hwell, -, hread, -⟩ := read_typeName_wrapAll hconfig hs hnames plainInnerSteps
  exact ⟨hconfig, hs, hnames, hfitting, hflat, hread (hwell hfitting) hflat⟩

/-- With one list of arguments behind the other the text is no reference. -/
theorem read_typeName_deepArgument :
    let t := deepArgumentConfig.wrapAll [(.result, .empty)] (.simple ⟨"Foo", "io"⟩)
    deepArgument.config = .ok deepArgumentConfig ∧ t.typeName = "Wrap<Inner<Deep><Foo>>" ∧
      ∃ fault, TypeRef.read t.typeName.toList = .error fault := by
  intro t
  have htext : t.typeName = "Wrap<Inner<Deep><Foo>>" := by decide +kernel
  refine ⟨by decide +kernel, htext, TypeRef.exists_error_of_not_apart fun hapart => ?_⟩
  rw [htext] at hapart
  exact hapart.not_infix ⟨"Wrap<Inner<Deep".toList, "Foo>>".toList, by decide⟩

end TypeRules
