import StudioWeb.Library.UniqueRows
import Mathlib.Data.List.Destutter

/-!
# The compatibility ratchet

The promises of the published contracts, as `compat.rs` keeps them, and `breaks`, what a
set of promises no longer keeps of an accepted one.  A set is listed in its order, and a
map that is collected from it keeps the last entry of a key.
-/

namespace StudioWeb
namespace ApiContract

open List

inductive Fact where
  | route (key : String)
  | request (key field ty : String) (required : Bool)
  | response (key field ty : String) (isOptional : Bool)
  | eventSubject (subjectType : String)
  | event (kind subjectType : String)
  | eventField (kind field : String)
deriving DecidableEq, Ord

structure Break where
  fact : Fact
  why : String
deriving DecidableEq, Ord

structure FactSet where
  facts : List Fact
  sorted : facts.Pairwise fun a b => compare a b = .lt

namespace FactSet

section Reading

variable (s : FactSet)

def routes : List String :=
  s.facts.filterMap fun
    | .route key => some key
    | _ => none

def requests : List ((String × String) × (String × Bool)) :=
  s.facts.filterMap fun
    | .request key field ty required => some ((key, field), (ty, required))
    | _ => none

def responses : List ((String × String) × (String × Bool)) :=
  s.facts.filterMap fun
    | .response key field ty isOptional => some ((key, field), (ty, isOptional))
    | _ => none

def kinds : List (String × String) :=
  s.facts.filterMap fun
    | .event kind subjectType => some (kind, subjectType)
    | _ => none

def request? (key field : String) : Option (String × Bool) := lastEntry s.requests (key, field)

def response? (key field : String) : Option (String × Bool) := lastEntry s.responses (key, field)

def kind? (kind : String) : Option String := lastEntry s.kinds kind

end Reading

section Membership

variable {s : FactSet} {key field ty kind subjectType : String} {flag : Bool}

theorem mem_routes : key ∈ s.routes ↔ .route key ∈ s.facts := by
  simp only [routes, mem_filterMap]
  constructor
  · rintro ⟨fact, hmem, hfact⟩
    cases fact <;> cases hfact
    exact hmem
  · exact fun h => ⟨_, h, rfl⟩

theorem mem_requests :
    ((key, field), (ty, flag)) ∈ s.requests ↔ .request key field ty flag ∈ s.facts := by
  simp only [requests, mem_filterMap]
  constructor
  · rintro ⟨fact, hmem, hfact⟩
    cases fact <;> cases hfact
    exact hmem
  · exact fun h => ⟨_, h, rfl⟩

theorem mem_responses :
    ((key, field), (ty, flag)) ∈ s.responses ↔ .response key field ty flag ∈ s.facts := by
  simp only [responses, mem_filterMap]
  constructor
  · rintro ⟨fact, hmem, hfact⟩
    cases fact <;> cases hfact
    exact hmem
  · exact fun h => ⟨_, h, rfl⟩

theorem mem_kinds : (kind, subjectType) ∈ s.kinds ↔ .event kind subjectType ∈ s.facts := by
  simp only [kinds, mem_filterMap]
  constructor
  · rintro ⟨fact, hmem, hfact⟩
    cases fact <;> cases hfact
    exact hmem
  · exact fun h => ⟨_, h, rfl⟩

theorem mem_of_request? (h : s.request? key field = some (ty, flag)) :
    .request key field ty flag ∈ s.facts :=
  mem_requests.mp (mem_of_lastEntry h)

theorem request?_eq_none_iff :
    s.request? key field = none ↔ ∀ ty flag, .request key field ty flag ∉ s.facts := by
  rw [request?, lastEntry_eq_none_iff]
  simp only [Prod.forall, mem_requests]

theorem exists_request? (h : .request key field ty flag ∈ s.facts) :
    ∃ ty' flag', s.request? key field = some (ty', flag') := by
  obtain ⟨⟨ty', flag'⟩, hlast⟩ := exists_lastEntry (mem_requests.mpr h)
  exact ⟨ty', flag', hlast⟩

theorem mem_of_response? (h : s.response? key field = some (ty, flag)) :
    .response key field ty flag ∈ s.facts :=
  mem_responses.mp (mem_of_lastEntry h)

theorem exists_response? (h : .response key field ty flag ∈ s.facts) :
    ∃ ty' flag', s.response? key field = some (ty', flag') := by
  obtain ⟨⟨ty', flag'⟩, hlast⟩ := exists_lastEntry (mem_responses.mpr h)
  exact ⟨ty', flag', hlast⟩

theorem mem_of_kind? (h : s.kind? kind = some subjectType) : .event kind subjectType ∈ s.facts :=
  mem_kinds.mp (mem_of_lastEntry h)

theorem exists_kind? (h : .event kind subjectType ∈ s.facts) :
    ∃ subjectType', s.kind? kind = some subjectType' :=
  exists_lastEntry (mem_kinds.mpr h)

end Membership

end FactSet

/-- Why a promise is no longer kept, if it is not. -/
def brokenBy (current : FactSet) (fact : Fact) : Option String :=
  match fact with
  | .route key =>
    if key ∈ current.routes then none
    else some "the operation is gone: every caller gets a 404"
  | .request key field ty required =>
    -- the route's own break says it
    if key ∉ current.routes then none
    else
      match current.request? key field with
      | none =>
        if required then
          some "a field callers must send is gone: what they send is now ignored"
        else none
      | some (now, nowRequired) =>
        if now ≠ ty then
          some "the field's type changed: what callers send no longer parses"
        else if nowRequired && !required then
          some "the field became required: callers that leave it out now fail"
        else none
  | .response key field ty isOptional =>
    if key ∉ current.routes then none
    else
      match current.response? key field with
      | none => some "a field of the answer is gone: callers reading it break"
      | some (now, nowOptional) =>
        if now ≠ ty then some "a field of the answer changed type"
        else if nowOptional && !isOptional then
          some "a field of the answer may now be missing"
        else none
  | .eventSubject _ =>
    if fact ∈ current.facts then none
    else some "a subject type is no longer published"
  | .event kind subjectType =>
    match current.kind? kind with
    | none => some "the kind is no longer published: subscribers wait forever"
    | some now =>
      if now ≠ subjectType then some "the kind is about a different subject_type now"
      else none
  | .eventField kind _ =>
    if (current.kind? kind).isSome && !decide (fact ∈ current.facts) then
      some "a documented payload field is gone"
    else none

/-- A required field that was never there is a new demand on every caller the operation
already had. -/
def demandedBy (accepted : FactSet) (fact : Fact) : Option String :=
  match fact with
  | .request key field _ true =>
    if key ∈ accepted.routes ∧ (accepted.request? key field).isNone then
      some "a new required field on an existing operation: every caller now fails"
    else none
  | _ => none

def breakOf (why : Fact → Option String) (fact : Fact) : Option Break :=
  (why fact).map (Break.mk fact)

/-- `sort`, then `dedup`. -/
def sortDedup (xs : List Break) : List Break :=
  (xs.mergeSort fun a b => (compare a b).isLE).destutter (· ≠ ·)

/-- What `current` no longer promises of `accepted`. -/
def breaks (accepted current : FactSet) : List Break :=
  sortDedup (accepted.facts.filterMap (breakOf (brokenBy current)) ++
    current.facts.filterMap (breakOf (demandedBy accepted)))

section Upheld

variable {accepted current : FactSet}

theorem sortDedup_eq_nil_iff {xs : List Break} : sortDedup xs = [] ↔ xs = [] := by
  unfold sortDedup
  rw [destutter_eq_nil]
  constructor
  · intro h
    have hperm := mergeSort_perm xs fun a b => (compare a b).isLE
    rw [h] at hperm
    exact hperm.nil_eq.symm
  · rintro rfl
    exact mergeSort_nil

theorem breakOf_eq_nil_iff {why : Fact → Option String} {facts : List Fact} :
    facts.filterMap (breakOf why) = [] ↔ ∀ fact ∈ facts, why fact = none := by
  rw [filterMap_eq_nil_iff]
  simp [breakOf]

def Upholds (current : FactSet) (fact : Fact) : Prop := brokenBy current fact = none

/-- **Nothing is broken** where every accepted promise is upheld, and no field is demanded
anew. -/
theorem breaks_eq_nil_iff :
    breaks accepted current = [] ↔ (∀ fact ∈ accepted.facts, Upholds current fact) ∧
        ∀ fact ∈ current.facts, demandedBy accepted fact = none := by
  rw [breaks, sortDedup_eq_nil_iff, append_eq_nil_iff, breakOf_eq_nil_iff, breakOf_eq_nil_iff]
  rfl

variable {key field ty kind subjectType : String} {flag : Bool}

theorem upholds_route : Upholds current (.route key) ↔ key ∈ current.routes := by
  simp [Upholds, brokenBy]

theorem upholds_request :
    Upholds current (.request key field ty flag) ↔ (key ∈ current.routes →
        (current.request? key field = none → flag = false) ∧
        ∀ now required, current.request? key field = some (now, required) →
          now = ty ∧ (required = true → flag = true)) := by
  simp only [Upholds, brokenBy]
  by_cases hroute : key ∈ current.routes
  · rw [if_neg (not_not.mpr hroute)]
    cases hrequest : current.request? key field with
    | none => cases flag <;> simp [hroute]
    | some entry =>
      obtain ⟨now, required⟩ := entry
      by_cases hty : now = ty
      · cases flag <;> cases required <;> simp [hroute, hty]
      · simp [hroute, hty]
  · simp [hroute]

theorem upholds_response :
    Upholds current (.response key field ty flag) ↔ (key ∈ current.routes →
        ∃ isOptional, current.response? key field = some (ty, isOptional) ∧
          (isOptional = true → flag = true)) := by
  simp only [Upholds, brokenBy]
  by_cases hroute : key ∈ current.routes
  · rw [if_neg (not_not.mpr hroute)]
    cases hresponse : current.response? key field with
    | none => simp [hroute]
    | some entry =>
      obtain ⟨now, isOptional⟩ := entry
      by_cases hty : now = ty
      · cases flag <;> cases isOptional <;> simp [hroute, hty]
      · simp [hroute, hty]
  · simp [hroute]

theorem upholds_eventSubject :
    Upholds current (.eventSubject subjectType) ↔ .eventSubject subjectType ∈ current.facts := by
  simp [Upholds, brokenBy]

theorem upholds_event :
    Upholds current (.event kind subjectType) ↔ current.kind? kind = some subjectType := by
  simp only [Upholds, brokenBy]
  cases current.kind? kind with
  | none => simp
  | some => simp

theorem upholds_eventField :
    Upholds current (.eventField kind field) ↔
      (current.kind? kind = none ∨ .eventField kind field ∈ current.facts) := by
  simp only [Upholds, brokenBy]
  cases current.kind? kind with
  | none => simp
  | some => simp

theorem demandedBy_eq_none_iff :
    (∀ fact ∈ current.facts, demandedBy accepted fact = none) ↔
      ∀ key field ty, .request key field ty true ∈ current.facts → key ∈ accepted.routes →
        ∃ ty' required, accepted.request? key field = some (ty', required) := by
  constructor
  · intro h key field ty hmem hroute
    have hnone := h _ hmem
    simp only [demandedBy] at hnone
    cases hrequest : accepted.request? key field with
    | none => simp [hroute, hrequest] at hnone
    | some entry => exact ⟨entry.1, entry.2, rfl⟩
  · intro h fact hmem
    cases fact with
    | request key field ty required =>
      cases required with
      | false => rfl
      | true =>
        by_cases hroute : key ∈ accepted.routes
        · obtain ⟨ty', required', hrequest⟩ := h key field ty hmem hroute
          simp [demandedBy, hrequest]
        · simp [demandedBy, hroute]
    | route => rfl
    | response => rfl
    | eventSubject => rfl
    | event => rfl
    | eventField => rfl

end Upheld

end ApiContract
end StudioWeb
