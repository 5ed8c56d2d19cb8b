import StudioWeb.ApiContract.CompatRatchet
import Mathlib.Order.Compare

/-!
# The ratchet over several steps
-/

namespace StudioWeb
namespace ApiContract

open FactSet

variable {A B C : FactSet}

section Order

variable {key field ty : String}

theorem compare_request :
    compare (Fact.request key field ty true) (Fact.request key field ty false) ≠ .lt := by
  have hself : ∀ x : String, compare x x = .eq := fun _ => Std.compare_self
  simp only [compare] at hself
  simp [compare, instOrdFact.ord, hself]

theorem compare_response :
    compare (Fact.response key field ty true) (Fact.response key field ty false) ≠ .lt := by
  have hself : ∀ x : String, compare x x = .eq := fun _ => Std.compare_self
  simp only [compare] at hself
  simp [compare, instOrdFact.ord, hself]

theorem pairwise_requests (s : FactSet) :
    s.requests.Pairwise fun a b =>
      compare (Fact.request a.1.1 a.1.2 a.2.1 a.2.2) (Fact.request b.1.1 b.1.2 b.2.1 b.2.2) =
        .lt := by
  refine s.sorted.filterMap _ ?_
  intro fact fact' hlt a ha b hb
  cases fact <;> cases ha
  cases fact' <;> cases hb
  exact hlt

theorem pairwise_responses (s : FactSet) :
    s.responses.Pairwise fun a b =>
      compare (Fact.response a.1.1 a.1.2 a.2.1 a.2.2)
        (Fact.response b.1.1 b.1.2 b.2.1 b.2.2) = .lt := by
  refine s.sorted.filterMap _ ?_
  intro fact fact' hlt a ha b hb
  cases fact <;> cases ha
  cases fact' <;> cases hb
  exact hlt

theorem request?_ne_false {s : FactSet} (h : .request key field ty true ∈ s.facts) :
    s.request? key field ≠ some (ty, false) := by
  intro hlast
  rcases eq_or_before_of_lastEntry hlast (mem_requests.mpr h) with heq | hsub
  · cases heq
  · have hlt := List.rel_of_pairwise_cons ((pairwise_requests s).sublist hsub)
      (List.mem_singleton_self _)
    exact compare_request hlt

theorem response?_ne_false {s : FactSet} (h : .response key field ty true ∈ s.facts) :
    s.response? key field ≠ some (ty, false) := by
  intro hlast
  rcases eq_or_before_of_lastEntry hlast (mem_responses.mpr h) with heq | hsub
  · cases heq
  · have hlt := List.rel_of_pairwise_cons ((pairwise_responses s).sublist hsub)
      (List.mem_singleton_self _)
    exact compare_response hlt

end Order

structure SaysOneThing (A : FactSet) : Prop where
  requests : ∀ key field ty ty' required required', key ∈ A.routes →
    .request key field ty required ∈ A.facts → .request key field ty' required' ∈ A.facts →
    ty = ty' ∧ required = required'
  responses : ∀ key field ty ty' isOptional isOptional', key ∈ A.routes →
    .response key field ty isOptional ∈ A.facts →
    .response key field ty' isOptional' ∈ A.facts → ty = ty' ∧ isOptional = isOptional'
  kinds : ∀ kind subjectType subjectType', .event kind subjectType ∈ A.facts →
    .event kind subjectType' ∈ A.facts → subjectType = subjectType'

theorem saysOneThing_of_upheld (h : ∀ fact ∈ A.facts, Upholds A fact) : SaysOneThing A := by
  constructor
  · intro key field ty ty' required required' hroute hmem hmem'
    obtain ⟨now, last, hlast⟩ := exists_request? hmem
    obtain ⟨hty, hrequired⟩ := (upholds_request.mp (h _ hmem) hroute).2 now last hlast
    obtain ⟨hty', hrequired'⟩ := (upholds_request.mp (h _ hmem') hroute).2 now last hlast
    subst hty
    subst hty'
    refine ⟨rfl, ?_⟩
    -- were there both, the required one would be the last
    cases required <;> cases required' <;> cases last <;>
      first
        | rfl
        | exact absurd hlast (request?_ne_false hmem)
        | exact absurd hlast (request?_ne_false hmem')
        | exact absurd (hrequired rfl) Bool.false_ne_true
        | exact absurd (hrequired' rfl) Bool.false_ne_true
  · intro key field ty ty' isOptional isOptional' hroute hmem hmem'
    obtain ⟨last, hlast, himp⟩ := upholds_response.mp (h _ hmem) hroute
    obtain ⟨last', hlast', himp'⟩ := upholds_response.mp (h _ hmem') hroute
    rw [hlast] at hlast'
    cases hlast'
    refine ⟨rfl, ?_⟩
    cases isOptional <;> cases isOptional' <;> cases last <;>
      first
        | rfl
        | exact absurd hlast (response?_ne_false hmem)
        | exact absurd hlast (response?_ne_false hmem')
        | exact absurd (himp rfl) Bool.false_ne_true
        | exact absurd (himp' rfl) Bool.false_ne_true
  · intro kind subjectType subjectType' hmem hmem'
    have hkind := upholds_event.mp (h _ hmem)
    rw [upholds_event.mp (h _ hmem')] at hkind
    cases hkind
    rfl

theorem upholds_self {fact : Fact} (h : SaysOneThing A) (hmem : fact ∈ A.facts) :
    Upholds A fact := by
  cases fact with
  | route => exact upholds_route.mpr (mem_routes.mpr hmem)
  | request key field ty required =>
    refine upholds_request.mpr fun hroute => ⟨?_, ?_⟩
    · intro hnone
      exact absurd hmem (request?_eq_none_iff.mp hnone ty required)
    · intro now last hlast
      obtain ⟨rfl, rfl⟩ :=
        h.requests key field now ty last required hroute (mem_of_request? hlast) hmem
      exact ⟨rfl, id⟩
  | response key field ty isOptional =>
    refine upholds_response.mpr fun hroute => ?_
    obtain ⟨now, last, hlast⟩ := exists_response? hmem
    obtain ⟨rfl, rfl⟩ :=
      h.responses key field now ty last isOptional hroute (mem_of_response? hlast) hmem
    exact ⟨last, hlast, id⟩
  | eventSubject => exact upholds_eventSubject.mpr hmem
  | event kind subjectType =>
    obtain ⟨last, hlast⟩ := exists_kind? hmem
    rw [upholds_event, hlast, h.kinds kind last subjectType (mem_of_kind? hlast) hmem]
  | eventField => exact upholds_eventField.mpr (Or.inr hmem)

/-- **A set breaks nothing of itself** exactly when it says one thing of each. -/
theorem breaks_self_iff : breaks A A = [] ↔ SaysOneThing A := by
  rw [breaks_eq_nil_iff]
  constructor
  · exact fun h => saysOneThing_of_upheld h.1
  · intro h
    refine ⟨fun fact hmem => upholds_self h hmem, demandedBy_eq_none_iff.mpr ?_⟩
    exact fun key field ty hmem _ => exists_request? hmem

def Fact.operation? : Fact → Option String
  | .request key _ _ _ => some key
  | .response key _ _ _ => some key
  | _ => none

/-- What is promised first is not lost on the way through the second set. -/
structure NoDetour (A B C : FactSet) : Prop where
  /-- A field that the second set leaves out comes back with its type. -/
  returns : ∀ key field ty required now nowRequired,
    .request key field ty required ∈ A.facts → key ∈ B.routes → key ∈ C.routes →
    B.request? key field = none → C.request? key field = some (now, nowRequired) → now = ty
  /-- A field that callers had to send, and the second set makes optional, stays. -/
  relaxed : ∀ key field ty now, .request key field ty true ∈ A.facts → key ∈ B.routes →
    key ∈ C.routes → B.request? key field = some (now, false) →
    C.request? key field ≠ none
  /-- A field of an operation that the second set lacks, and the third has, is upheld. -/
  operations : ∀ fact ∈ A.facts, ∀ key, fact.operation? = some key → key ∉ B.routes →
    key ∈ C.routes → Upholds C fact
  /-- So is a payload field of a kind. -/
  kinds : ∀ kind field, .eventField kind field ∈ A.facts → B.kind? kind = none →
    Upholds C (.eventField kind field)
  /-- A new demand of the third set does not stand behind an optional line. -/
  hidden : ∀ key field ty, .request key field ty true ∈ C.facts → key ∈ A.routes →
    A.request? key field = none → ∀ now, C.request? key field ≠ some (now, false)

theorem noDetour_of_breaks (hAC : breaks A C = []) : NoDetour A B C := by
  obtain ⟨hupheld, hdemands⟩ := breaks_eq_nil_iff.mp hAC
  constructor
  · intro key field ty required now nowRequired hmem _ hroute _ hlast
    exact ((upholds_request.mp (hupheld _ hmem) hroute).2 now nowRequired hlast).1
  · intro key field ty now hmem _ hroute _ hnone
    exact absurd ((upholds_request.mp (hupheld _ hmem) hroute).1 hnone) Bool.noConfusion
  · exact fun fact hmem _ _ _ _ => hupheld fact hmem
  · exact fun kind field hmem _ => hupheld _ hmem
  · intro key field ty hmem hroute hnone _ _
    obtain ⟨_, _, hsome⟩ := demandedBy_eq_none_iff.mp hdemands key field ty hmem hroute
    rw [hnone] at hsome
    cases hsome

theorem upholds_request_trans {key field ty now : String} {required nowRequired : Bool}
    (hdetour : NoDetour A B C) (hmem : .request key field ty required ∈ A.facts)
    (hB : key ∈ B.routes) (hAB : Upholds B (.request key field ty required))
    (hlast : B.request? key field = some (now, nowRequired))
    (hBC : Upholds C (.request key field now nowRequired)) :
    Upholds C (.request key field ty required) := by
  obtain ⟨hty, himp⟩ := (upholds_request.mp hAB hB).2 now nowRequired hlast
  subst hty
  refine upholds_request.mpr fun hC => ?_
  obtain ⟨hnone, hsome⟩ := upholds_request.mp hBC hC
  constructor
  · intro hgone
    have hfalse := hnone hgone
    subst hfalse
    cases required with
    | false => rfl
    | true => exact absurd hgone (hdetour.relaxed key field now now hmem hB hC hlast)
  · intro now' required' hlast'
    obtain ⟨hty', himp'⟩ := hsome now' required' hlast'
    exact ⟨hty', fun h => himp (himp' h)⟩

theorem upholds_trans {fact : Fact} (hdetour : NoDetour A B C) (hmem : fact ∈ A.facts)
    (hAB : Upholds B fact) (hBC : ∀ fact ∈ B.facts, Upholds C fact)
    (hdemands : ∀ fact ∈ C.facts, demandedBy B fact = none) : Upholds C fact := by
  cases fact with
  | route =>
    refine hBC _ (mem_routes.mp ?_)
    exact upholds_route.mp hAB
  | request key field ty required =>
    by_cases hC : key ∈ C.routes
    · by_cases hB : key ∈ B.routes
      · cases hlast : B.request? key field with
        | some entry =>
          obtain ⟨now, nowRequired⟩ := entry
          exact upholds_request_trans hdetour hmem hB hAB hlast (hBC _ (mem_of_request? hlast))
        | none =>
          have hoptional := (upholds_request.mp hAB hB).1 hlast
          refine upholds_request.mpr fun _ => ⟨fun _ => hoptional, ?_⟩
          intro now nowRequired hnow
          refine ⟨hdetour.returns key field ty required now nowRequired hmem hB hC hlast hnow, ?_⟩
          -- a field that comes back is not demanded
          rintro rfl
          obtain ⟨_, _, hsome⟩ := demandedBy_eq_none_iff.mp hdemands key field now
            (mem_of_request? hnow) hB
          rw [hlast] at hsome
          cases hsome
      · exact hdetour.operations _ hmem key rfl hB hC
    · exact upholds_request.mpr fun h => absurd h hC
  | response key =>
    by_cases hC : key ∈ C.routes
    · by_cases hB : key ∈ B.routes
      · obtain ⟨last, hlast, himp⟩ := upholds_response.mp hAB hB
        obtain ⟨last', hlast', himp'⟩ := upholds_response.mp (hBC _ (mem_of_response? hlast)) hC
        exact upholds_response.mpr fun _ => ⟨last', hlast', fun h => himp (himp' h)⟩
      · exact hdetour.operations _ hmem key rfl hB hC
    · exact upholds_response.mpr fun h => absurd h hC
  | eventSubject => exact hBC _ (upholds_eventSubject.mp hAB)
  | event =>
    exact hBC _ (mem_of_kind? (upholds_event.mp hAB))
  | eventField kind field =>
    rcases upholds_eventField.mp hAB with hnone | hin
    · exact hdetour.kinds kind field hmem hnone
    · exact hBC _ hin

theorem demands_trans (hdetour : NoDetour A B C) (hAB : breaks A B = []) (hBC : breaks B C = []) :
    ∀ fact ∈ C.facts, demandedBy A fact = none := by
  obtain ⟨hupheldB, hdemandsB⟩ := breaks_eq_nil_iff.mp hAB
  obtain ⟨hupheldC, hdemandsC⟩ := breaks_eq_nil_iff.mp hBC
  refine demandedBy_eq_none_iff.mpr ?_
  intro key field ty hmem hroute
  have hB : key ∈ B.routes := upholds_route.mp (hupheldB _ (mem_routes.mp hroute))
  have hC : key ∈ C.routes := upholds_route.mp (hupheldC _ (mem_routes.mp hB))
  obtain ⟨now, nowRequired, hlast⟩ := demandedBy_eq_none_iff.mp hdemandsC key field ty hmem hB
  cases hA : A.request? key field with
  | some entry => exact ⟨entry.1, entry.2, rfl⟩
  | none =>
    exfalso
    have hin := mem_of_request? hlast
    cases nowRequired with
    | true =>
      obtain ⟨_, _, hsome⟩ := demandedBy_eq_none_iff.mp hdemandsB key field now hin hroute
      rw [hA] at hsome
      cases hsome
    | false =>
      obtain ⟨last, lastRequired, hlastC⟩ := exists_request? hmem
      obtain ⟨_, himp⟩ := (upholds_request.mp (hupheldC _ hin) hC).2 last lastRequired hlastC
      cases lastRequired with
      | true => exact absurd (himp rfl) Bool.false_ne_true
      | false => exact hdetour.hidden key field ty hmem hroute hA last hlastC

/-- **Two steps that break nothing** break nothing together exactly where there is no
detour. -/
theorem breaks_trans_iff (hAB : breaks A B = []) (hBC : breaks B C = []) :
    breaks A C = [] ↔ NoDetour A B C := by
  constructor
  · exact noDetour_of_breaks
  · intro hdetour
    obtain ⟨hupheldB, _⟩ := breaks_eq_nil_iff.mp hAB
    obtain ⟨hupheldC, hdemandsC⟩ := breaks_eq_nil_iff.mp hBC
    refine breaks_eq_nil_iff.mpr ⟨?_, demands_trans hdetour hAB hBC⟩
    exact fun fact hmem => upholds_trans hdetour hmem (hupheldB fact hmem) hupheldC hdemandsC

/-- **The ratchet composes** where a set says one thing of each, and there is no detour. -/
theorem ratchet_composes (A B C : FactSet) :
    (breaks A A = [] ↔ SaysOneThing A) ∧
      (breaks A B = [] → breaks B C = [] → (breaks A C = [] ↔ NoDetour A B C)) :=
  ⟨breaks_self_iff, breaks_trans_iff⟩

/-- One operation, with some lines about its fields. -/
private def contract (lines : List Fact)
    (h : (Fact.route "POST /a" :: lines).Pairwise fun a b => compare a b = .lt) : FactSet :=
  ⟨.route "POST /a" :: lines, h⟩

private def bare : FactSet :=
  contract [] (by decide +kernel)

private def demanding : FactSet :=
  contract [.request "POST /a" "x" "String" true] (by decide +kernel)

private def relaxed : FactSet :=
  contract [.request "POST /a" "x" "String" false] (by decide +kernel)

/-- An operation with two answers. -/
private def answering : FactSet :=
  contract [.response "POST /a" "id" "String" false, .response "POST /a" "id" "u32" false]
    (by decide +kernel)

private theorem breaks_of_decided (hupheld : ∀ fact ∈ A.facts, brokenBy B fact = none)
    (hdemands : ∀ fact ∈ B.facts, demandedBy A fact = none) : breaks A B = [] :=
  breaks_eq_nil_iff.mpr ⟨hupheld, hdemands⟩

/-- A field is added, and then stays as it is. -/
theorem ratchet_composes_of_added : breaks bare bare = [] ∧ breaks bare relaxed = [] := by
  obtain ⟨hself, hchain⟩ := ratchet_composes bare relaxed relaxed
  constructor
  · refine hself.mpr ⟨?_, ?_, ?_⟩ <;> simp [bare, contract]
  · refine (hchain (breaks_of_decided ?_ ?_) (breaks_of_decided ?_ ?_)).mpr ⟨?_, ?_, ?_, ?_, ?_⟩
    · decide +kernel
    · decide +kernel
    · decide +kernel
    · decide +kernel
    · simp [bare, contract]
    · simp [bare, contract]
    · simp [bare, contract, Fact.operation?]
    · simp [bare, contract]
    · simp [relaxed, contract]

/-- **A demand is dropped in two steps**: what callers must send becomes optional, and then
is gone; each step is accepted, and both at once are refused.  A set with two answers that
differ breaks itself. -/
theorem demand_is_dropped :
    breaks demanding relaxed = [] ∧ breaks relaxed bare = [] ∧ breaks demanding bare ≠ [] ∧
      breaks answering answering ≠ [] := by
  refine ⟨breaks_of_decided ?_ ?_, breaks_of_decided ?_ ?_, ?_, ?_⟩
  · decide +kernel
  · decide +kernel
  · decide +kernel
  · decide +kernel
  · intro hnone
    have hupheld := (breaks_eq_nil_iff.mp hnone).1 (.request "POST /a" "x" "String" true)
      (by simp [demanding, contract])
    exact absurd hupheld (by unfold Upholds; decide +kernel)
  · intro hnone
    have hupheld := (breaks_eq_nil_iff.mp hnone).1 (.response "POST /a" "id" "String" false)
      (by simp [answering, contract])
    exact absurd hupheld (by unfold Upholds; decide +kernel)

end ApiContract
end StudioWeb
