import StudioWeb.Library.LabelledRuns
import StudioWeb.UserProfile.AliasPolicy
import Mathlib.Logic.Function.Basic

/-!
# Calls that attribute and revoke aliases

The alias rows and the calls of `attribute_alias` and `revoke_alias` about them.  Every
statement of the store is a step, so a call decides on a row that it has read before and
then writes whatever is there.  A statement may fail; the call then answers the error.

A call that has ended is kept with what it answered and with the row that its write found.
-/

namespace StudioWeb
namespace UserProfile

open LabelledRuns Function

/-- A row of `identity_alias`. -/
structure AliasRow where
  key : AliasKey
  userId : Uuid
  confidence : String
  addedAt : Int
deriving DecidableEq

/-- What the policy is asked about. -/
def AliasRow.held (row : AliasRow) : Option Held :=
  (Confidence.parse row.confidence).map fun confidence => ⟨row.userId.text, confidence⟩

inductive AliasOutcome where
  | written
  | writtenOverAProof
  | alreadyHeld
  | refused (message : String)
deriving DecidableEq

inductive AliasError where
  | rejected (message : String)
  /-- A statement of the store failed. -/
  | store
deriving DecidableEq

inductive AliasRequest where
  | attribute (userId : String) (confidence : Confidence)
  | revoke (userId : String)
deriving DecidableEq

/-- What a call awaits. -/
inductive AliasPc where
  /-- The row of the person. -/
  | checkingUser
  /-- The row of the identity. -/
  | finding
  | writing (tookAProof : Bool)
  | deleting
deriving DecidableEq

structure AliasCall where
  request : AliasRequest
  key : AliasKey
  pc : AliasPc
deriving DecidableEq

structure EndedCall where
  request : AliasRequest
  answer : Except AliasError AliasOutcome
  /-- The row that its write or delete found, if it made one. -/
  replaced : Option (Option AliasRow)

structure AliasWorld where
  rows : Uuid → Option AliasRow
  calls : Nat → Option AliasCall
  ended : Nat → Option EndedCall

inductive AliasAction where
  | starts (call : Nat) (request : AliasRequest) (kind externalId : String)
  | checksUser (call : Nat) (found : Bool)
  | finds (call : Nat)
  | writes (call : Nat) (now : Int)
  | deletes (call : Nat)
  | fails (call : Nat)

/-- Where a call starts, once its key is normalized. -/
def AliasRequest.firstPc : AliasRequest → AliasPc
  | .attribute _ _ => .checkingUser
  | .revoke _ => .finding

namespace AliasWorld

section Steps

variable
  -- The row id of a text, a version 5 UUID.
  (v5 : String → Uuid)
  (parseUuid : String → Option Uuid)
  (lowercase : String → String)

/-- The key of the row of an identity. -/
def aliasId (key : AliasKey) : Uuid := v5 (aliasText key)

/-- A call awaits something else. -/
def goto (w : AliasWorld) (call : Nat) (c : AliasCall) : AliasWorld :=
  { w with calls := Function.update w.calls call (some c) }

def finish (w : AliasWorld) (call : Nat) (request : AliasRequest)
    (answer : Except AliasError AliasOutcome) (replaced : Option (Option AliasRow)) : AliasWorld :=
  { w with
    calls := Function.update w.calls call none
    ended := Function.update w.ended call (some ⟨request, answer, replaced⟩) }

def setRow (w : AliasWorld) (id : Uuid) (row : Option AliasRow) : AliasWorld :=
  { w with rows := Function.update w.rows id row }

def starts (w : AliasWorld) (call : Nat) (request : AliasRequest)
    (kind externalId : String) : Option AliasWorld :=
  if (w.calls call).isNone ∧ (w.ended call).isNone then
    match normalizeAlias lowercase kind externalId with
    | .error message => some (w.finish call request (.error (.rejected message)) none)
    | .ok key => some (w.goto call ⟨request, key, request.firstPc⟩)
  else
    none

/-- `get_user`, of the person an attribution is for. -/
def checksUser (w : AliasWorld) (call : Nat) (found : Bool) : Option AliasWorld :=
  match w.calls call with
  | some ⟨.attribute userId confidence, key, .checkingUser⟩ =>
    let request := AliasRequest.attribute userId confidence
    if (parseUuid userId).isNone then
      some (w.finish call request (.error .store) none)
    else if found then
      some (w.goto call ⟨request, key, .finding⟩)
    else
      some (w.finish call request (.error (.rejected s!"user {userId} does not exist")) none)
  | _ => none

def decides (w : AliasWorld) (call : Nat) (userId : String) (confidence : Confidence)
    (key : AliasKey) (held : Option Held) : AliasWorld :=
  let request := AliasRequest.attribute userId confidence
  match UserProfile.decide held userId confidence with
  | .alreadyHeld => w.finish call request (.ok .alreadyHeld) none
  | .refused refusal => w.finish call request (.ok (.refused refusal.message)) none
  | .write => w.goto call ⟨request, key, .writing (displacedAProof held userId)⟩

def decidesRevoke (w : AliasWorld) (call : Nat) (userId : String)
    (key : AliasKey) : Option AliasRow → AliasWorld
  | none => w.finish call (.revoke userId) (.ok .alreadyHeld) none
  | some row =>
    if row.userId.text ≠ userId then
      w.finish call (.revoke userId)
        (.ok (.refused "this external identity is not attributed to you")) none
    else
      w.goto call ⟨.revoke userId, key, .deleting⟩

/-- `find_alias`, up to the next statement. -/
def finds (w : AliasWorld) (call : Nat) : Option AliasWorld :=
  match w.calls call with
  | some ⟨.attribute userId confidence, key, .finding⟩ =>
    some (w.decides call userId confidence key ((w.rows (aliasId v5 key)).bind AliasRow.held))
  | some ⟨.revoke userId, key, .finding⟩ =>
    some (w.decidesRevoke call userId key (w.rows (aliasId v5 key)))
  | _ => none

/-- The row that an upsert leaves: one that was there keeps its identity. -/
def upserted (found : Option AliasRow) (key : AliasKey) (person : Uuid) (confidence : Confidence)
    (now : Int) : AliasRow :=
  match found with
  | some row => ⟨row.key, person, confidence.asStr, now⟩
  | none => ⟨key, person, confidence.asStr, now⟩

def writtenOutcome (tookAProof : Bool) : AliasOutcome :=
  if tookAProof then .writtenOverAProof else .written

/-- `upsert_alias`, and the answer. -/
def writes (w : AliasWorld) (call : Nat) (now : Int) : Option AliasWorld :=
  match w.calls call with
  | some ⟨.attribute userId confidence, key, .writing tookAProof⟩ =>
    let request := AliasRequest.attribute userId confidence
    match parseUuid userId with
    | none => some (w.finish call request (.error .store) none)
    | some person =>
      let found := w.rows (aliasId v5 key)
      some ((w.setRow (aliasId v5 key)
        (some (upserted found key person confidence now))).finish call request
          (.ok (writtenOutcome tookAProof)) (some found))
  | _ => none

/-- `delete_alias`, and the answer. -/
def deletes (w : AliasWorld) (call : Nat) : Option AliasWorld :=
  match w.calls call with
  | some ⟨.revoke userId, key, .deleting⟩ =>
    let found := w.rows (aliasId v5 key)
    some ((w.setRow (aliasId v5 key) none).finish call (.revoke userId) (.ok .written) (some found))
  | _ => none

def fails (w : AliasWorld) (call : Nat) : Option AliasWorld :=
  match w.calls call with
  | some c => some (w.finish call c.request (.error .store) none)
  | none => none

def step (w : AliasWorld) : AliasAction → Option AliasWorld
  | .starts call request kind externalId => w.starts lowercase call request kind externalId
  | .checksUser call found => w.checksUser parseUuid call found
  | .finds call => w.finds v5 call
  | .writes call now => w.writes v5 parseUuid call now
  | .deletes call => w.deletes v5 call
  | .fails call => w.fails call

end Steps

section Lemmas

variable
  {w : AliasWorld}
  {call other : Nat}
  {c : AliasCall}
  {request : AliasRequest}
  {answer : Except AliasError AliasOutcome}
  {replaced : Option (Option AliasRow)}
  {id : Uuid}
  {row : Option AliasRow}

theorem calls_goto {d : AliasCall} (h : (w.goto call c).calls other = some d) :
    (other = call ∧ d = c) ∨ w.calls other = some d := by
  by_cases hother : other = call
  · subst hother
    simp only [goto, update_self, Option.some.injEq] at h
    exact .inl ⟨rfl, h.symm⟩
  · simp only [goto, update_of_ne hother] at h
    exact .inr h

theorem calls_finish {d : AliasCall}
    (h : (w.finish call request answer replaced).calls other = some d) :
    w.calls other = some d := by
  by_cases hother : other = call
  · subst hother
    simp [finish] at h
  · simpa only [finish, update_of_ne hother] using h

theorem ended_finish {e : EndedCall}
    (h : (w.finish call request answer replaced).ended other = some e) :
    e = ⟨request, answer, replaced⟩ ∨ w.ended other = some e := by
  by_cases hother : other = call
  · subst hother
    simp only [finish, update_self, Option.some.injEq] at h
    exact .inl h.symm
  · simp only [finish, update_of_ne hother] at h
    exact .inr h

theorem rows_setRow_of_ne {other : Uuid} (h : other ≠ id) :
    (w.setRow id row).rows other = w.rows other := by
  simp [setRow, h]

@[simp] theorem rows_setRow_self : (w.setRow id row).rows id = row := by
  simp [setRow]

end Lemmas

end AliasWorld

end UserProfile
end StudioWeb
