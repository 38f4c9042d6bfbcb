import TypeRules.Proofs.Wrapper.Step

/-! # What is inside of wrappers

Wrappers go around a type and leave alone what is below it.  Going from a type to its item or to
what it wraps, again and again, one comes to the same end before and after wrapping.

* `DataType.payload` is this end; `DataType.Kept` says that it is the same, except that no content
  may have been boxed.
* `Wrapper.Makes` is what a wrapper may make of a type: the type itself, the type with one node on
  top, or a collection with another name.
* `payload_wrapAll` is the statement about wrappers one after the other.
-/

namespace TypeRules

namespace DataType

/-! ## The innermost type -/

/-- The end of the way down: from a collection to its item, from a wrapper to what it is around. -/
def payload : DataType → DataType
  | simple id => simple id
  | collection _ item => item.payload
  | mapped _ item _ => item.payload
  | single _ inner => inner.payload
  | result _ inner _ _ => inner.payload
  | nullable _ inner _ => inner.payload
  | noContent boxed => noContent boxed

/-- The same type, except that no content may have become the object type. -/
inductive Kept : DataType → DataType → Prop where
  | same (t : DataType) : Kept t t
  | boxed (before : Bool) : Kept (.noContent before) (.noContent true)

theorem Kept.trans {s t u : DataType} (hst : Kept s t) (htu : Kept t u) : Kept s u := by
  cases hst with
  | same => exact htu
  | boxed before =>
    cases htu with
    | same => exact .boxed before
    | boxed => exact .boxed before

end DataType

/-! ## One wrapper -/

/-- What a wrapper may make of a type, for a query. -/
inductive Wrapper.Makes (q : Query) : Wrapper → DataType → DataType → Prop where
  | alone (w : Wrapper) (t : DataType) : Makes q w t t
  | result (id : QualifiedName) (t : DataType) (generics : List GenericType) (replacement : Bool)
      (hcontent : ∀ boxed, t ≠ .noContent boxed) :
      Makes q .result t (.result id t generics replacement)
  /-- Only an envelope changes the type that it is put around, and only if there is no content. -/
  | boxed (id : QualifiedName) (before : Bool) (generics : List GenericType)
      (replacement : Bool) :
      Makes q .result (.noContent before) (.result id (.noContent true) generics replacement)
  | single (id : QualifiedName) (t : DataType) (hvalue : q.array = false) :
      Makes q .single t (.single id t)
  | nullable (id : QualifiedName) (t : DataType) (initial : Option String) :
      Makes q .nullable t (.nullable id t initial)
  | collection (id before : QualifiedName) (item : DataType) (harray : q.array = true) :
      Makes q .multi (.collection before item) (.mapped id item true)
  | mapped (id before : QualifiedName) (item : DataType) (multi : Bool) (harray : q.array = true) :
      Makes q .multi (.mapped before item multi) (.mapped id item true)

theorem Wrapper.makes_envelope (q : Query) (id : QualifiedName) (t : DataType)
    (generics : List GenericType) (replacement : Bool) :
    Makes q .result t (.result id t.boxed generics replacement) := by
  cases t with
  | noContent before => exact .boxed id before generics replacement
  | _ => exact .result id _ generics replacement nofun

theorem wrap_multi_of_array_eq_false (c : Config) {q : Query} (h : q.array = false)
    (t : DataType) : c.wrap .multi q t = t := by
  rw [Config.wrap, h]
  rfl

theorem wrap_single_of_array (c : Config) {q : Query} (h : q.array = true) (t : DataType) :
    c.wrap .single q t = t := by
  rw [Config.wrap, h]
  rfl

theorem Config.makes_wrap (c : Config) (w : Wrapper) (q : Query) (t : DataType) :
    w.Makes q t (c.wrap w q t) := by
  have hwraps := c.wraps_wrap w q t
  -- The rules say nothing about the flag for arrays, on which two of the wrappers depend.
  have hsingle : w = .single → q.array = true → c.wrap w q t = t := by
    rintro rfl harray
    exact wrap_single_of_array c harray t
  have hmulti : w = .multi → q.array = false → c.wrap w q t = t := by
    rintro rfl harray
    exact wrap_multi_of_array_eq_false c harray t
  generalize c.wrap w q t = u at hwraps hsingle hmulti ⊢
  cases hwraps with
  | alone => exact .alone w t
  | result => exact Wrapper.makes_envelope q _ t _ _
  | single =>
    cases harray : q.array with
    | true => rw [hsingle rfl harray]; exact .alone .single t
    | false => exact .single _ t harray
  | multi _ _ hitem =>
    cases harray : q.array with
    | true =>
      cases t with
      | collection before => cases hitem; exact .collection _ before _ harray
      | mapped before _ multi => cases hitem; exact .mapped _ before _ multi harray
      | _ => cases hitem
    | false => rw [hmulti rfl harray]; exact .alone .multi t
  | nullable => exact .nullable _ t _

theorem Wrapper.Makes.kept {q : Query} {w : Wrapper} {t u : DataType} (h : w.Makes q t u) :
    t.payload.Kept u.payload := by
  cases h with
  | boxed _ before => exact .boxed before
  | _ => exact .same _

/-- A collection that was replaced has the items that it had before, so it is replaced by the same
collection again. -/
theorem wrap_multi_twice (c : Config) (q : Query) (t : DataType) :
    c.wrap .multi q (c.wrap .multi q t) = c.wrap .multi q t := by
  have hwraps := c.wraps_wrap .multi q t
  cases harray : q.array with
  | false => exact wrap_multi_of_array_eq_false c harray _
  | true =>
    generalize hu : c.wrap .multi q t = u at hwraps
    cases hwraps with
    | alone => exact hu
    | multi hrule hplain =>
      simp only [Config.wrap, harray, if_true, hrule, DataType.wrapMulti, DataType.item?, hplain]
      rfl

/-! ## Main result -/

/-- Wrappers lose nothing.  However many are put on, the innermost type is that of the beginning,
where no content may have been boxed.  Each wrapper leaves the type alone or puts one node on top
of it; the wrapper for arrays gives a collection another name instead, once for all. -/
theorem payload_wrapAll (c : Config) :
    (∀ steps (t : DataType), t.payload.Kept (c.wrapAll steps t).payload) ∧
      (∀ (w : Wrapper) q t, w.Makes q t (c.wrap w q t)) ∧
      ∀ q t, c.wrap .multi q (c.wrap .multi q t) = c.wrap .multi q t := by
  refine ⟨fun steps t => ?_, c.makes_wrap, wrap_multi_twice c⟩
  induction steps generalizing t with
  | nil => exact .same _
  | cons step steps ih =>
    have hstep := (c.makes_wrap step.1 step.2 t).kept
    exact hstep.trans (ih _)

end TypeRules
