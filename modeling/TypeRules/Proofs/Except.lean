import Mathlib.Data.List.Forall2

/-! # Readings that may fail

A reading gives a result or a reason for refusing.

* `bind_eq_ok_iff`, `bind_eq_error_iff` take readings that follow each other apart.
* A list is read by reading its items from left to right; the first item that is refused decides.
  `mapM_eq_ok_iff_pairs` and `mapM_eq_ok_iff_forall₂` say what it means that all items are read:
  the items and the results can be paired up.  `mapM_eq_error` says what it means that one is
  refused.
* `refusal?` is the reason alone.  In a sequence of readings it is the first reason
  (`refusal?_bind`, `refusal?_mapM`).
* `mapM_keyed_eq_ok_iff`, `refusal?_mapM_keyed` and `mapM_keyed_map` are for lists of values under
  keys.
-/

namespace TypeRules

variable {ε α β κ : Type}

/-! ## One after the other -/

theorem bind_eq_ok_iff {x : Except ε α} {f : α → Except ε β} {b : β} :
    (x >>= f) = .ok b ↔ ∃ a, x = .ok a ∧ f a = .ok b := by
  cases x with
  | error e =>
    constructor
    · intro h; cases h
    · rintro ⟨a, ha, -⟩; cases ha
  | ok a =>
    constructor
    · intro h; exact ⟨a, rfl, h⟩
    · rintro ⟨a', ha, h⟩; cases ha; exact h

theorem bind_eq_error_iff {x : Except ε α} {f : α → Except ε β} {e : ε} :
    (x >>= f) = .error e ↔ x = .error e ∨ ∃ a, x = .ok a ∧ f a = .error e := by
  cases x with
  | error e' =>
    constructor
    · intro h; cases h; exact .inl rfl
    · rintro (h | ⟨a, ha, -⟩)
      · cases h; rfl
      · cases ha
  | ok a =>
    constructor
    · intro h; exact .inr ⟨a, rfl, h⟩
    · rintro (h | ⟨a', ha, h⟩)
      · cases h
      · cases ha; exact h

theorem map_eq_ok_iff {x : Except ε α} {f : α → β} {b : β} :
    x.map f = .ok b ↔ ∃ a, x = .ok a ∧ f a = b := by
  cases x with
  | error e =>
    constructor
    · intro h; cases h
    · rintro ⟨a, ha, -⟩; cases ha
  | ok a =>
    constructor
    · intro h; cases h; exact ⟨a, rfl, rfl⟩
    · rintro ⟨a', ha, rfl⟩; cases ha; rfl

theorem mapError_eq_ok_iff {ε' : Type} {x : Except ε α} {f : ε → ε'} {a : α} :
    x.mapError f = .ok a ↔ x = .ok a := by
  cases x with
  | error e => exact ⟨nofun, nofun⟩
  | ok a' =>
    constructor
    · intro h; cases h; rfl
    · intro h; cases h; rfl

theorem map_eq_error_iff {x : Except ε α} {f : α → β} {e : ε} :
    x.map f = .error e ↔ x = .error e := by
  cases x with
  | error e' =>
    constructor
    · intro h; cases h; rfl
    · intro h; cases h; rfl
  | ok a => exact ⟨nofun, nofun⟩

theorem mapError_eq_error_iff {ε' : Type} {x : Except ε α} {f : ε → ε'} {e : ε'} :
    x.mapError f = .error e ↔ ∃ reason, x = .error reason ∧ f reason = e := by
  cases x with
  | error reason =>
    constructor
    · intro h; cases h; exact ⟨reason, rfl, rfl⟩
    · rintro ⟨reason', h, rfl⟩; cases h; rfl
  | ok a =>
    constructor
    · intro h; cases h
    · rintro ⟨reason, h, -⟩; cases h

/-! ## Lists -/

theorem mapM_cons_ok {f : α → Except ε β} {x : α} {y : β} (h : f x = .ok y) (xs : List α) :
    (x :: xs).mapM f = (xs.mapM f).map (y :: ·) := by
  rw [List.mapM_cons, h]
  cases xs.mapM f <;> rfl

theorem mapM_cons_error {f : α → Except ε β} {x : α} {e : ε} (h : f x = .error e) (xs : List α) :
    (x :: xs).mapM f = .error e := by
  rw [List.mapM_cons, h]
  rfl

theorem mapM_eq_ok_iff_pairs {f : α → Except ε β} {xs : List α} {ys : List β} :
    xs.mapM f = .ok ys ↔
      ∃ pairs : List (α × β), pairs.map Prod.fst = xs ∧ pairs.map Prod.snd = ys ∧
        ∀ pair ∈ pairs, f pair.1 = .ok pair.2 := by
  induction xs generalizing ys with
  | nil =>
    constructor
    · intro h
      cases h
      exact ⟨[], rfl, rfl, fun pair hpair => by cases hpair⟩
    · rintro ⟨pairs, hfst, rfl, -⟩
      obtain rfl : pairs = [] := List.map_eq_nil_iff.1 hfst
      rfl
  | cons x xs ih =>
    constructor
    · intro h
      cases hx : f x with
      | error e => rw [mapM_cons_error hx] at h; cases h
      | ok y =>
        rw [mapM_cons_ok hx] at h
        cases hxs : xs.mapM f with
        | error e => rw [hxs] at h; cases h
        | ok rest =>
          rw [hxs] at h
          cases h
          obtain ⟨pairs, hfst, hsnd, hpairs⟩ := ih.1 hxs
          refine ⟨(x, y) :: pairs, by rw [List.map_cons, hfst], by rw [List.map_cons, hsnd], ?_⟩
          intro pair hpair
          cases hpair with
          | head => exact hx
          | tail _ hpair => exact hpairs pair hpair
    · rintro ⟨pairs, hfst, rfl, hpairs⟩
      cases pairs with
      | nil => cases hfst
      | cons pair pairs =>
        obtain ⟨rfl, hrest⟩ := List.cons.inj hfst
        have hxs := ih.2 ⟨pairs, hrest, rfl, fun p hp => hpairs p (List.mem_cons_of_mem _ hp)⟩
        rw [mapM_cons_ok (hpairs pair List.mem_cons_self), hxs]
        rfl

theorem mapM_eq_ok_iff_forall₂ {f : α → Except ε β} {xs : List α} {ys : List β} :
    xs.mapM f = .ok ys ↔ List.Forall₂ (fun x y => f x = .ok y) xs ys := by
  rw [mapM_eq_ok_iff_pairs]
  constructor
  · rintro ⟨pairs, rfl, rfl, hpairs⟩
    rw [List.forall₂_map_left_iff, List.forall₂_map_right_iff, List.forall₂_same]
    exact hpairs
  · intro h
    induction h with
    | nil => exact ⟨[], rfl, rfl, nofun⟩
    | @cons x y xs ys hxy _ ih =>
      obtain ⟨pairs, rfl, rfl, hpairs⟩ := ih
      exact ⟨(x, y) :: pairs, rfl, rfl, List.forall_mem_cons.2 ⟨hxy, hpairs⟩⟩

theorem exists_ok_of_mapM {f : α → Except ε β} {xs : List α} {ys : List β}
    (h : xs.mapM f = .ok ys) {x : α} (hx : x ∈ xs) : ∃ y, f x = .ok y := by
  obtain ⟨pairs, rfl, -, hpairs⟩ := mapM_eq_ok_iff_pairs.1 h
  obtain ⟨pair, hpair, rfl⟩ := List.mem_map.1 hx
  exact ⟨pair.2, hpairs pair hpair⟩

theorem optionMapM_eq_ok_iff {f : α → Except ε β} {x : Option α} {y : Option β} :
    x.mapM f = .ok y ↔ Option.Rel (fun x y => f x = .ok y) x y := by
  cases x with
  | none =>
    constructor
    · intro h
      cases h
      exact .none
    · intro h
      cases h
      rfl
  | some x =>
    rw [Option.mapM_some]
    constructor
    · intro h
      obtain ⟨b, hb, hy⟩ := bind_eq_ok_iff.1 h
      cases hy
      exact .some hb
    · intro h
      cases h with
      | some h => exact bind_eq_ok_iff.2 ⟨_, h, rfl⟩

/-! ## Refusals -/

/-- The reason of a reading that refuses. -/
def refusal? : Except ε α → Option ε
  | .ok _ => none
  | .error e => some e

theorem refusal?_eq_some_iff {x : Except ε α} {e : ε} : refusal? x = some e ↔ x = .error e := by
  cases x with
  | ok a => exact ⟨nofun, nofun⟩
  | error e' =>
    constructor
    · intro h
      cases h
      rfl
    · rintro h
      cases h
      rfl

theorem refusal?_eq_none_iff {x : Except ε α} : refusal? x = none ↔ ∃ a, x = .ok a := by
  cases x with
  | ok a => exact ⟨fun _ => ⟨a, rfl⟩, fun _ => rfl⟩
  | error e => exact ⟨nofun, nofun⟩

theorem refusal?_bind {x : Except ε α} {f : α → Except ε β} {reason : Option ε}
    (h : ∀ a, refusal? (f a) = reason) : refusal? (x >>= f) = (refusal? x).or reason := by
  cases x with
  | ok a => exact h a
  | error e => rfl

theorem refusal?_optionMapM (f : α → Except ε β) (x : Option α) :
    refusal? (x.mapM f) = x.toList.findSome? fun x => refusal? (f x) := by
  cases x with
  | none => rfl
  | some x =>
    rw [Option.mapM_some, Option.toList_some, List.findSome?_cons, List.findSome?_nil]
    cases f x <;> rfl

theorem refusal?_mapM (f : α → Except ε β) (xs : List α) :
    refusal? (xs.mapM f) = xs.findSome? fun x => refusal? (f x) := by
  induction xs with
  | nil => rfl
  | cons x xs ih =>
    rw [List.findSome?_cons, ← ih]
    cases hx : f x with
    | error e => rw [mapM_cons_error hx]; rfl
    | ok y =>
      rw [mapM_cons_ok hx]
      cases xs.mapM f <;> rfl

theorem optionMapM_eq_error {f : α → Except ε β} {x : Option α} {e : ε}
    (h : x.mapM f = .error e) : ∃ a ∈ x, f a = .error e := by
  rw [← refusal?_eq_some_iff, refusal?_optionMapM] at h
  obtain ⟨a, hmem, ha⟩ := List.exists_of_findSome?_eq_some h
  exact ⟨a, Option.mem_toList.1 hmem, refusal?_eq_some_iff.1 ha⟩

theorem mapM_eq_error {f : α → Except ε β} {xs : List α} {e : ε} (h : xs.mapM f = .error e) :
    ∃ x ∈ xs, f x = .error e := by
  rw [← refusal?_eq_some_iff, refusal?_mapM] at h
  obtain ⟨x, hmem, hx⟩ := List.exists_of_findSome?_eq_some h
  exact ⟨x, hmem, refusal?_eq_some_iff.1 hx⟩

/-! ## Values under keys -/

theorem mapM_keyed_eq_ok_iff {f : α → Except ε β} {xs : List (κ × α)} {ys : List (κ × β)} :
    (xs.mapM fun x => return (x.1, ← f x.2)) = .ok ys ↔
      List.Forall₂ (fun x y => y.1 = x.1 ∧ f x.2 = .ok y.2) xs ys := by
  have hentry : ∀ (x : κ × α) (y : κ × β),
      (do return (x.1, ← f x.2)) = .ok y ↔ y.1 = x.1 ∧ f x.2 = .ok y.2 := by
    intro x y
    rw [bind_eq_ok_iff]
    constructor
    · rintro ⟨b, hb, hy⟩
      cases hy
      exact ⟨rfl, hb⟩
    · rintro ⟨hkey, hx⟩
      exact ⟨y.2, hx, by rw [← hkey]; rfl⟩
  simp only [← hentry]
  exact mapM_eq_ok_iff_forall₂

theorem refusal?_mapM_keyed (f : α → Except ε β) (xs : List (κ × α)) :
    refusal? (xs.mapM fun x => return (x.1, ← f x.2)) =
      xs.findSome? fun x => refusal? (f x.2) := by
  have hentry : ∀ x : κ × α, refusal? (do return (x.1, ← f x.2)) = refusal? (f x.2) := by
    intro x
    have hbind : refusal? (do return (x.1, ← f x.2)) = (refusal? (f x.2)).or none :=
      refusal?_bind fun _ => rfl
    rw [hbind, Option.or_none]
  simp only [refusal?_mapM, hentry]

/-- A reading that does not see a change to the values reads the same. -/
theorem mapM_keyed_map {f : α → Except ε β} {g : α → α} (h : ∀ x, f (g x) = f x)
    (xs : List (κ × α)) :
    ((xs.map fun x => (x.1, g x.2)).mapM fun x => return (x.1, ← f x.2)) =
      xs.mapM fun x => return (x.1, ← f x.2) := by
  rw [List.mapM_map]
  simp only [Function.comp_def, h]

end TypeRules
