import StudioWeb.AccessDocuments.Readers
import StudioWeb.Library.LabelledRuns
import StudioWeb.StudioAuthz.Evaluate
import Mathlib.Algebra.Group.Nat.Defs
import Mathlib.Order.Lattice

/-!
# The PDP's copies of access configs

The role path keeps a copy of the access config that it read, with the generation it
sampled before the read, and uses it for ten seconds while the generation is the same.  A
write of an access config that the PDP allows is committed by account-management after it.
Decisions and writes run statement by statement and in between each other.

Account-management resolves a document through the tenants of a `lineage`, nearest first.
The number of statements taken so far tells, of a copy, when it was read, of a decision,
when it began, and of a write, when it was allowed.  The tenants a caller may reach are
not read here, nor is a document resolved for a write that names no organization.
-/

namespace StudioWeb
namespace StudioAuthz

open Scheduler JsonText AccessDocuments

/-- How long an organization's access config is reused by the role path, in milliseconds. -/
def ACCESS_CONFIG_TTL : Nat := 10000

/-- What was read, and after how many statements. -/
structure ConfigCopy where
  read : ConfigRead
  takenAt : Nat
deriving DecidableEq

structure CachedConfig where
  readAt : Nat
  generation : Nat
  copy : ConfigCopy
deriving DecidableEq

/-- Still the answer: young enough, and no allowed write since. -/
def CachedConfig.isFresh (c : CachedConfig) (now generation : Nat) : Bool :=
  c.generation == generation && decide (now - c.readAt < ACCESS_CONFIG_TTL)

/-- What a decision of the role path does next. -/
inductive RolesPc where
  /-- `access_config_generation`. -/
  | sampling
  | looking (generation : Nat)
  | reading (generation : Nat)
  | keeping (generation : Nat) (copy : ConfigCopy)
  /-- `subjects_of_caller`. -/
  | naming (copy : ConfigCopy)
  | decided (copy : ConfigCopy) (decision : RoleDecision)

/-- What the decision of a write does next. -/
inductive WritePc where
  | adminCheck
  | naming
  | reading (subjects : List String)
  | judging (subjects : List String) (read : ConfigRead)

inductive PdpCall where
  | roles (request : EvaluationRequest) (tid : Uuid) (privilege : String) (begun : Nat)
      (pc : RolesPc)
  | writes (request : EvaluationRequest) (organization : Uuid) (pc : WritePc)
  /-- An allowed write that is still to be committed. -/
  | commits (organization : Uuid)

structure AllowedWrite where
  organization : Uuid
  moment : Nat
  generation : Nat
deriving DecidableEq

structure PdpWorld where
  documents : Uuid → Option Json
  generation : Nat
  configs : Uuid → Option CachedConfig
  calls : Nat → Option PdpCall
  now : Nat
  /-- The statements taken so far. -/
  moment : Nat
  allowed : List AllowedWrite

inductive PdpAction where
  | starts (call : Nat) (request : EvaluationRequest)
  | runs (call : Nat)
  /-- A read of an access config answers an error. -/
  | fails (call : Nat)
  | checksAdmin (call : Nat) (admin : Bool)
  | names (call : Nat) (grantKeys : Option (List String))
  | answers (call : Nat)
  | commits (call : Nat) (document : Option Json)
  /-- A change made around the PDP. -/
  | writesAround (organization : Uuid) (document : Option Json)
  | waits (duration : Nat)

namespace PdpWorld

/-- A process that has just started, beside what account-management stores. -/
def started (documents : Uuid → Option Json) (now : Nat) : PdpWorld :=
  ⟨documents, 0, fun _ => none, fun _ => none, now, 0, []⟩

def goto (w : PdpWorld) (call : Nat) (c : PdpCall) : PdpWorld :=
  { w with calls := Function.update w.calls call (some c) }

def finish (w : PdpWorld) (call : Nat) : PdpWorld :=
  { w with calls := Function.update w.calls call none }

def allows (w : PdpWorld) (call : Nat) (organization : Uuid) : PdpWorld :=
  { w.goto call (.commits organization) with
    allowed := ⟨organization, w.moment, w.generation⟩ :: w.allowed }

/-- `ACCESS_CONFIG_GENERATION.fetch_add(1)`. -/
def bumped (w : PdpWorld) : PdpWorld :=
  { w with generation := (w.generation + 1) % 2 ^ 64 }

def keep (w : PdpWorld) (tid : Uuid) (c : CachedConfig) : PdpWorld :=
  { w with configs := Function.update w.configs tid (some c) }

def setDocument (w : PdpWorld) (organization : Uuid) (document : Option Json) : PdpWorld :=
  { w with documents := Function.update w.documents organization document }

/-- The caller's keys, from what `grant_keys_of` answered. -/
def subjectsFor (request : EvaluationRequest) (grantKeys : Option (List String)) : List String :=
  Reads.subjectsOfCaller ⟨none, grantKeys, false, fun _ => .unreadable⟩ request.subject.id.text

section Steps

variable
  (parseUuid : String → Option Uuid)
  (lineage : Uuid → List Uuid)

/-- `resolve_metadata`: the nearest document there is. -/
def resolve (w : PdpWorld) (tid : Uuid) : MetadataRead :=
  match (lineage tid).findSome? w.documents with
  | some value => .found value
  | none => .absent

def starts (w : PdpWorld) (call : Nat) (request : EvaluationRequest) : Option PdpWorld :=
  match w.calls call with
  | some _ => none
  | none =>
    match Plan.forRequest parseUuid request with
    | .deny => some w
    | .clamp _ =>
      if request.isAccessConfigWrite then
        match resourceOwnerTenant parseUuid request with
        | some organization => some (w.allows call organization)
        | none => some w
      else
        some w
    | .accessConfigWrite _ organization =>
      some (w.goto call (.writes request organization .adminCheck))
    | .roles tid privilege =>
      some (w.goto call (.roles request tid privilege w.moment .sampling))

/-- The copy of a tenant's config that may be used under a generation. -/
def hit (w : PdpWorld) (tid : Uuid) (generation : Nat) : Option ConfigCopy :=
  match w.configs tid with
  | some c => if c.isFresh w.now generation then some c.copy else none
  | none => none

def runsRoles (w : PdpWorld) (call : Nat) (request : EvaluationRequest) (tid : Uuid)
    (privilege : String) (begun : Nat) : RolesPc → Option PdpWorld
  | .sampling =>
    some (w.goto call (.roles request tid privilege begun (.looking w.generation)))
  | .looking generation =>
    match w.hit tid generation with
    | some copy => some (w.goto call (.roles request tid privilege begun (.naming copy)))
    | none => some (w.goto call (.roles request tid privilege begun (.reading generation)))
  | .reading generation =>
    let copy : ConfigCopy := ⟨readAccessConfig (w.resolve lineage tid), w.moment⟩
    some (w.goto call (.roles request tid privilege begun (.keeping generation copy)))
  | .keeping generation copy =>
    -- An unreadable answer is never kept.
    let kept :=
      if copy.read = .unreadable then w else w.keep tid ⟨w.now, generation, copy⟩
    some (kept.goto call (.roles request tid privilege begun (.naming copy)))
  | _ => none

def runsWrite (w : PdpWorld) (call : Nat) (request : EvaluationRequest)
    (organization : Uuid) : WritePc → Option PdpWorld
  | .reading subjects =>
    some (w.goto call (.writes request organization
      (.judging subjects (readAccessConfig (w.resolve lineage organization)))))
  | .judging subjects read =>
    if mayWriteAccessConfig subjects read then
      some (w.bumped.allows call organization)
    else
      some (w.finish call)
  | _ => none

def runs (w : PdpWorld) (call : Nat) : Option PdpWorld :=
  match w.calls call with
  | some (.roles request tid privilege begun pc) =>
    w.runsRoles lineage call request tid privilege begun pc
  | some (.writes request organization pc) =>
    w.runsWrite lineage call request organization pc
  | _ => none

def fails (w : PdpWorld) (call : Nat) : Option PdpWorld :=
  match w.calls call with
  | some (.roles request tid privilege begun (.reading generation)) =>
    some (w.goto call (.roles request tid privilege begun
      (.keeping generation ⟨readAccessConfig .failed, w.moment⟩)))
  | some (.writes request organization (.reading subjects)) =>
    some (w.goto call (.writes request organization (.judging subjects (readAccessConfig .failed))))
  | _ => none

def checksAdmin (w : PdpWorld) (call : Nat) (admin : Bool) : Option PdpWorld :=
  match w.calls call with
  | some (.writes request organization .adminCheck) =>
    if admin then
      some (w.allows call organization)
    else
      some (w.goto call (.writes request organization .naming))
  | _ => none

def names (w : PdpWorld) (call : Nat) (grantKeys : Option (List String)) : Option PdpWorld :=
  match w.calls call with
  | some (.roles request tid privilege begun (.naming copy)) =>
    let decision :=
      StudioAuthz.decide parseUuid (subjectsFor request grantKeys) copy.read [] privilege
    some (w.goto call (.roles request tid privilege begun (.decided copy decision)))
  | some (.writes request organization .naming) =>
    some (w.goto call (.writes request organization (.reading (subjectsFor request grantKeys))))
  | _ => none

def answers (w : PdpWorld) (call : Nat) : Option PdpWorld :=
  match w.calls call with
  | some (.roles _ _ _ _ (.decided _ _)) => some (w.finish call)
  | _ => none

def commits (w : PdpWorld) (call : Nat) (document : Option Json) : Option PdpWorld :=
  match w.calls call with
  | some (.commits organization) => some ((w.setDocument organization document).finish call)
  | _ => none

/-- One statement. -/
def takes (w : PdpWorld) : PdpAction → Option PdpWorld
  | .starts call request => w.starts parseUuid call request
  | .runs call => w.runs lineage call
  | .fails call => w.fails call
  | .checksAdmin call admin => w.checksAdmin call admin
  | .names call grantKeys => w.names parseUuid call grantKeys
  | .answers call => w.answers call
  | .commits call document => w.commits call document
  | .writesAround organization document => some (w.setDocument organization document)
  | .waits duration => some { w with now := w.now + duration }

def step (w : PdpWorld) (a : PdpAction) : Option PdpWorld :=
  (w.takes parseUuid lineage a).map fun t => { t with moment := t.moment + 1 }

end Steps

end PdpWorld

end StudioAuthz
end StudioWeb
