import TypeRules.Proofs.Repository.Scopes

/-! # Changing one level

A repository is changed at one scope.  A level that is not there is taken for one that says
nothing, and is there afterwards.

* `changeAt` changes the value under one key.
* `Repository.update` changes the level of a scope; `level?_update_self` and
  `levelOf_update_of_ne` say what becomes of this level and of all others.
* `apply_levelOf_update` — what the change leaves alone at its own level, it leaves alone everywhere.
-/

namespace TypeRules

/-! ## Values under keys -/

section Keys

variable {κ α : Type} [BEq κ] [LawfulBEq κ]

/-- Changes the first value under a key; a new one goes behind all others. -/
def changeAt (key : κ) (change : Option α → α) : List (κ × α) → List (κ × α)
  | [] => [(key, change none)]
  | entry :: rest =>
    if entry.1 == key then (key, change (some entry.2)) :: rest
    else entry :: changeAt key change rest

theorem find?_changeAt_self (key : κ) (change : Option α → α) (entries : List (κ × α)) :
    ((changeAt key change entries).find? fun entry => entry.1 == key).map Prod.snd =
      some (change ((entries.find? fun entry => entry.1 == key).map Prod.snd)) := by
  induction entries with
  | nil => simp [changeAt]
  | cons entry rest ih =>
    by_cases h : (entry.1 == key) = true
    · simp [changeAt, h]
    · simpa [changeAt, List.find?_cons, h] using ih

theorem find?_changeAt_of_ne {key other : κ} (hne : other ≠ key) (change : Option α → α)
    (entries : List (κ × α)) :
    ((changeAt key change entries).find? fun entry => entry.1 == other) =
      entries.find? fun entry => entry.1 == other := by
  induction entries with
  | nil => simp [changeAt, hne.symm]
  | cons entry rest ih =>
    by_cases h : entry.1 = key
    · have hother : (key == other) = false := beq_false_of_ne hne.symm
      simp [changeAt, h, hother]
    · simp [changeAt, List.find?_cons, h, ih]

end Keys

/-! ## Endpoints -/

namespace Endpoint

def empty : Endpoint := ⟨Level.empty, []⟩

/-- The level of a method.  Where the endpoint has none it is the level that says nothing. -/
def levelOf (e : Endpoint) (method : HttpMethod) : Level := (e.method? method).getD Level.empty

/-- The endpoint with a change to the level of a method. -/
def update (e : Endpoint) (method : HttpMethod) (change : Level → Level) : Endpoint :=
  { e with methods := changeAt method (fun l => change (l.getD Level.empty)) e.methods }

theorem method?_update_self (e : Endpoint) (method : HttpMethod) (change : Level → Level) :
    (e.update method change).method? method = some (change (e.levelOf method)) :=
  find?_changeAt_self _ _ _

theorem levelOf_update_of_ne {method other : HttpMethod} (h : other ≠ method) (e : Endpoint)
    (change : Level → Level) : (e.update method change).levelOf other = e.levelOf other :=
  congrArg (fun found => (Option.map Prod.snd found).getD Level.empty)
    (find?_changeAt_of_ne h _ _)

end Endpoint

/-! ## Repositories -/

namespace Repository

/-- The endpoint of a path.  Where the repository has none it is the one that says nothing. -/
def endpointAt (r : Repository) (path : String) : Endpoint :=
  (r.endpoint? path).getD Endpoint.empty

theorem levelOf_path (r : Repository) (path : String) :
    r.levelOf (.path path) = (r.endpointAt path).level := by
  rw [levelOf, level?_path, endpointAt]
  cases r.endpoint? path <;> rfl

theorem levelOf_method (r : Repository) (path : String) (method : HttpMethod) :
    r.levelOf (.method path method) = (r.endpointAt path).levelOf method := by
  rw [levelOf, level?_method, endpointAt]
  cases r.endpoint? path <;> rfl

/-- The repository with a change to the endpoint of a path. -/
def updateEndpoint (r : Repository) (path : String) (change : Endpoint → Endpoint) : Repository :=
  { r with endpoints := changeAt path (fun e => change (e.getD Endpoint.empty)) r.endpoints }

/-- The repository with a change to the level of a scope. -/
def update (r : Repository) (s : Scope) (change : Level → Level) : Repository :=
  match s with
  | .global => { r with global := change r.global }
  | .path path => r.updateEndpoint path fun e => { e with level := change e.level }
  | .method path method => r.updateEndpoint path fun e => e.update method change

theorem endpoint?_updateEndpoint_self (r : Repository) (path : String)
    (change : Endpoint → Endpoint) :
    (r.updateEndpoint path change).endpoint? path = some (change (r.endpointAt path)) :=
  find?_changeAt_self _ _ _

theorem endpointAt_updateEndpoint_self (r : Repository) (path : String)
    (change : Endpoint → Endpoint) :
    (r.updateEndpoint path change).endpointAt path = change (r.endpointAt path) :=
  congrArg (Option.getD · Endpoint.empty) (r.endpoint?_updateEndpoint_self path change)

theorem endpointAt_updateEndpoint_of_ne {path other : String} (h : other ≠ path) (r : Repository)
    (change : Endpoint → Endpoint) :
    (r.updateEndpoint path change).endpointAt other = r.endpointAt other :=
  congrArg (fun found => (Option.map Prod.snd found).getD Endpoint.empty)
    (find?_changeAt_of_ne h _ _)

/-- The level that was changed is there, also if it was not there before. -/
theorem level?_update_self (r : Repository) (s : Scope) (change : Level → Level) :
    (r.update s change).level? s = some (change (r.levelOf s)) := by
  cases s with
  | global => rfl
  | path path =>
    rw [update, level?_path, endpoint?_updateEndpoint_self, levelOf_path]
    rfl
  | method path method =>
    rw [update, level?_method, endpoint?_updateEndpoint_self, levelOf_method]
    exact Endpoint.method?_update_self _ method change

theorem levelOf_update_self (r : Repository) (s : Scope) (change : Level → Level) :
    (r.update s change).levelOf s = change (r.levelOf s) :=
  congrArg (Option.getD · Level.empty) (r.level?_update_self s change)

theorem levelOf_update_of_ne {s t : Scope} (h : t ≠ s) (r : Repository)
    (change : Level → Level) : (r.update s change).levelOf t = r.levelOf t := by
  cases s with
  | global =>
    cases t with
    | global => exact absurd rfl h
    | path | method => rfl
  | path path =>
    cases t with
    | global => rfl
    | path other =>
      have hne : other ≠ path := fun heq => h (congrArg Scope.path heq)
      rw [levelOf_path, levelOf_path, update, endpointAt_updateEndpoint_of_ne hne]
    | method other m =>
      rw [levelOf_method, levelOf_method, update]
      by_cases heq : other = path
      · rw [heq, endpointAt_updateEndpoint_self]; rfl
      · rw [endpointAt_updateEndpoint_of_ne heq]
  | method path method =>
    cases t with
    | global => rfl
    | path other =>
      rw [levelOf_path, levelOf_path, update]
      by_cases heq : other = path
      · rw [heq, endpointAt_updateEndpoint_self]; rfl
      · rw [endpointAt_updateEndpoint_of_ne heq]
    | method other m =>
      rw [levelOf_method, levelOf_method, update]
      by_cases heq : other = path
      · have hne : m ≠ method := fun hm => h (by rw [heq, hm])
        rw [heq, endpointAt_updateEndpoint_self, Endpoint.levelOf_update_of_ne hne]
      · rw [endpointAt_updateEndpoint_of_ne heq]

/-- What a change leaves alone at the level it is made at, it leaves alone at all levels. -/
theorem apply_levelOf_update {α : Type} (f : Level → α) {r : Repository} {s : Scope}
    {change : Level → Level} (h : f (change (r.levelOf s)) = f (r.levelOf s)) (t : Scope) :
    f ((r.update s change).levelOf t) = f (r.levelOf t) := by
  by_cases heq : t = s
  · rw [heq, levelOf_update_self, h]
  · rw [levelOf_update_of_ne heq]

theorem extension_update (r : Repository) (s : Scope) (change : Level → Level) (name : String) :
    (r.update s change).extension name = r.extension name := by
  cases s <;> rfl

end Repository

end TypeRules
