import StudioWeb.UserProfile.OwnerGrants
import StudioWeb.UserProfile.SignIns

/-!
# Operations on the memberships of organizations

Putting, removing and leaving memberships, accepted invitations, assignments, creations,
approved requests and merges with their grants, beside the sign-ins and merges of people.
Every read and write of the store and of an organization's access document is a step.  A
statement may fail; the operation then answers the error, or goes on where the source does.

An assignment or a creation begins here with the person that its sign-in answered, an
acceptance with the role of the invitation that it took.  The name of a person and of an
organization in a grant, the connections and the description in the directory are not
here, and the document of an organization is its own.  An organization always has an
active owner: the rule is asked about the room as it would be after a change.
-/

namespace StudioWeb
namespace UserProfile

open LabelledRuns
open StudioAuthz (ROLE_OWNER AccessConfig)

def STATUS_SUSPENDED : String := "suspended"

/-- The states a membership can be in, as the API accepts them. -/
def STATUSES : List String := [STATUS_ACTIVE, STATUS_SUSPENDED]

/-- One person's standing in an organization. -/
structure Member where
  userId : String
  role : String
  status : String
deriving DecidableEq

/-- An owner who can act as one. -/
def Member.isActiveOwner (m : Member) : Bool := m.role == ROLE_OWNER && m.status == STATUS_ACTIVE

/-- What somebody's membership would become. -/
structure Standing where
  role : String
  status : String
deriving DecidableEq

/-- An ordinary active membership. -/
def Standing.active (role : String) : Standing := ⟨role, STATUS_ACTIVE⟩

def Standing.isActiveOwner (s : Standing) : Bool :=
  s.role == ROLE_OWNER && s.status == STATUS_ACTIVE

/-- Why a change to somebody's membership is refused. -/
inductive LeavingRefusal where
  | notAMember
  | lastOwner
  | lastPerson
deriving DecidableEq

def LeavingRefusal.message : LeavingRefusal → String
  | .notAMember => "you are not a member of that organization"
  | .lastOwner =>
    "an organization needs an owner who can act — make somebody else an owner first"
  | .lastPerson =>
    "you are the only person in that organization, so leaving it would mean deleting " ++
      "it — which is a separate, deliberate act"

/-- The room as it would be. -/
def afterwards (members : List Member) (userId : String) (after : Option Standing) : List Member :=
  (members.filter fun m => m.userId != userId) ++
    (after.map fun s => (⟨userId, s.role, s.status⟩ : Member)).toList

/-- May `userId`'s membership become `after`, or end entirely? -/
def mayChange (members : List Member) (userId : String)
    (after : Option Standing) : Except LeavingRefusal Unit :=
  if !(members.any fun m => m.userId == userId) then
    .error .notAMember
  else if (afterwards members userId after).isEmpty then
    .error .lastPerson
  else if !((afterwards members userId after).any Member.isActiveOwner) then
    .error .lastOwner
  else
    .ok ()

section Rule

variable
  {members : List Member}
  {userId : String}
  {after : Option Standing}

/-- What the rule lets pass leaves an active owner. -/
theorem owner_of_mayChange (h : mayChange members userId after = .ok ()) :
    ∃ m ∈ afterwards members userId after, m.isActiveOwner = true := by
  unfold mayChange at h
  split at h
  · cases h
  · split at h
    · cases h
    · split at h
      · cases h
      · next howner =>
        simp only [Bool.not_eq_true', Bool.not_eq_false] at howner
        exact List.any_eq_true.mp howner

theorem notAMember_of_mayChange (h : mayChange members userId after = .error .notAMember) :
    ∀ m ∈ members, m.userId ≠ userId := by
  unfold mayChange at h
  split at h
  · next hnone =>
    intro m hm heq
    simp only [Bool.not_eq_true', List.any_eq_false, beq_iff_eq] at hnone
    exact hnone m hm heq
  · split at h
    · cases h
    · split at h
      · cases h
      · cases h

end Rule

def PLATFORM_ROOT_TENANT_ID : Uuid := ⟨"00000000-0000-0000-0000-000000000001", by decide⟩

def SOURCE_ASSIGNMENT : String := "assignment"
def SOURCE_CREATION : String := "creation"
def SOURCE_INVITATION : String := "invitation"
def SOURCE_REQUEST : String := "request"

def MEMBERSHIP_ROLES : List String := [ROLE_OWNER, "admin", "member"]

def INVITABLE_ROLES : List String := ["member", "admin"]

def MembershipRow.isActiveOwner (row : MembershipRow) : Bool :=
  row.role == ROLE_OWNER && row.status == STATUS_ACTIVE

/-- A change of one membership, by an id as it is spelled; without `after` it ends. -/
structure MembershipChange where
  user : String
  org : Uuid
  after : Option Standing
  source : String
  /-- The owner grant follows the row. -/
  synced : Bool

/-- Whether the grant is given. -/
def MembershipChange.owner (c : MembershipChange) : Bool := c.after.any Standing.isActiveOwner

inductive ChangePc where
  /-- Everybody in the organization, for the rule. -/
  | checking
  | personChecks
  | writing
  | syncLogins
  | syncReads (legacyKeys : List String)
  | syncWrites (legacyKeys : List String) (document : AccessConfig)

inductive GrantsPc where
  /-- The organizations of the source. -/
  | listing
  | merging (orgs : List Uuid)
  | rekeyReads (org : Uuid) (rest : List Uuid)
  | rekeyWrites (org : Uuid) (document : AccessConfig) (rest : List Uuid)

inductive OrgOp where
  | changes (c : MembershipChange) (pc : ChangePc)
  | mergesGrants (fromUser intoUser : String) (pc : GrantsPc)

inductive OrgRequest where
  | put (user org role : String) (status source : Option String)
  | leave (user : String) (org : Uuid)
  | accept (user org : Uuid) (role : String)
  | assign (user org : Uuid) (role : String)
  | create (user org : Uuid)
  | approve (user org : Uuid)
  | merge (fromUser intoUser : String)

structure OrgWorld where
  people : PeopleWorld
  documents : Uuid → Option AccessConfig
  ops : Nat → Option OrgOp
  /-- Some operation answered an error. -/
  failed : Bool

inductive OrgAction where
  /-- A statement of a sign-in, or of the merge of an operation. -/
  | person (a : PeopleAction)
  | starts (op : Nat) (request : OrgRequest)
  | runs (op : Nat)
  | fails (op : Nat)

def PeopleAction.call : PeopleAction → Nat
  | .starts call _ => call
  | .creates call _ => call
  | .links call _ => call
  | .runs call => call
  | .fails call => call

namespace OrgWorld

/-- An operation awaits something else. -/
def goto (w : OrgWorld) (op : Nat) (o : OrgOp) : OrgWorld :=
  { w with ops := Function.update w.ops op (some o) }

def finish (w : OrgWorld) (op : Nat) : OrgWorld :=
  { w with ops := Function.update w.ops op none }

/-- An operation answers an error. -/
def errs (w : OrgWorld) (op : Nat) : OrgWorld :=
  { w.finish op with failed := true }

def setMembership (w : OrgWorld) (user org : Uuid) (row : Option MembershipRow) : OrgWorld :=
  { w with people := { w.people with
      memberships :=
        match row with
        | some row => w.people.memberships.set (user, org) row
        | none => w.people.memberships.erase (user, org) } }

def setDocument (w : OrgWorld) (org : Uuid) (document : AccessConfig) : OrgWorld :=
  { w with documents := Function.update w.documents org (some document) }

/-- `members_of`, as the rule reads them. -/
def room (w : OrgWorld) (org : Uuid) : List Member :=
  (w.people.memberships.entries.filter fun m => m.1.2 = org).map fun m =>
    ⟨m.1.1.text, m.2.role, m.2.status⟩

section Steps

variable
  (v5 : String → Uuid)
  (parseUuid : String → Option Uuid)
  (trim : String → String)
  (firstLoginJoin : Option (Uuid × String))

/-- What a request does first; `none` refuses it. -/
def requested : OrgRequest → Option OrgOp
  | .put user org role status source =>
    match parseUuid org with
    | none => none
    | some id =>
      let standing : Standing := ⟨role, status.getD STATUS_ACTIVE⟩
      if MEMBERSHIP_ROLES.contains role && STATUSES.contains standing.status then
        some (.changes ⟨user, id, some standing, source.getD "manual", true⟩ .checking)
      else
        none
  | .leave user org => some (.changes ⟨user, org, none, "", true⟩ .checking)
  | .accept user org role =>
    if INVITABLE_ROLES.contains role then
      some (.changes ⟨user.text, org, some (.active role), SOURCE_INVITATION, false⟩ .personChecks)
    else
      none
  | .assign user org role =>
    some (.changes ⟨user.text, org, some (.active role), SOURCE_ASSIGNMENT, true⟩ .personChecks)
  | .create user org =>
    some (.changes ⟨user.text, org, some (.active ROLE_OWNER), SOURCE_CREATION, true⟩ .personChecks)
  | .approve user org =>
    some (.changes ⟨user.text, org, some (.active ROLE_OWNER), SOURCE_REQUEST, true⟩ .personChecks)
  | .merge fromUser intoUser => some (.mergesGrants fromUser intoUser .listing)

def starts (w : OrgWorld) (op : Nat) (request : OrgRequest) : Option OrgWorld :=
  match w.ops op with
  | some _ => none
  | none =>
    match requested parseUuid request with
    | some o => some (w.goto op o)
    | none => some w

/-- `may_change_membership`: somebody being added is not a member yet. -/
def checks (w : OrgWorld) (op : Nat) (c : MembershipChange) : OrgWorld :=
  match mayChange (w.room c.org) c.user c.after, c.after with
  | .ok _, some _ => w.goto op (.changes c .personChecks)
  | .ok _, none => w.goto op (.changes c .writing)
  | .error .notAMember, some _ => w.goto op (.changes c .personChecks)
  | .error _, _ => w.finish op

/-- `get_user` of `write_membership`. -/
def checksPerson (w : OrgWorld) (op : Nat) (c : MembershipChange) : OrgWorld :=
  match (parseUuid c.user).bind w.people.users with
  | none => w.errs op
  | some _ => w.goto op (.changes c .writing)

def MembershipChange.row (c : MembershipChange) : Option MembershipRow :=
  c.after.map fun s => ⟨s.role, s.status, c.source⟩

/-- `upsert_membership` or `delete_membership`; a grant never follows a row of the root. -/
def writesMembership (w : OrgWorld) (op : Nat) (c : MembershipChange) : OrgWorld :=
  match parseUuid c.user with
  | none => w.errs op
  | some user =>
    let written := w.setMembership user c.org (MembershipChange.row c)
    if c.synced && c.org != PLATFORM_ROOT_TENANT_ID then
      written.goto op (.changes c .syncLogins)
    else
      written.finish op

/-- The subjects that older grants name a person by. -/
def subjectsOf (w : OrgWorld) (user : Uuid) : List String :=
  (w.people.loginsOf user).map fun l => l.2.subject

/-- `list_logins`. -/
def syncsLogins (w : OrgWorld) (op : Nat) (c : MembershipChange) : OrgWorld :=
  match parseUuid c.user with
  | none => w.errs op
  | some user => w.goto op (.changes c (.syncReads (w.subjectsOf user)))

def documentOf (w : OrgWorld) (org : Uuid) : AccessConfig := (w.documents org).getD freshDocument

def runsChange (w : OrgWorld) (op : Nat) (c : MembershipChange) : ChangePc → OrgWorld
  | .checking => w.checks op c
  | .personChecks => w.checksPerson parseUuid op c
  | .writing => w.writesMembership parseUuid op c
  | .syncLogins => w.syncsLogins parseUuid op c
  | .syncReads legacyKeys =>
    w.goto op (.changes c (.syncWrites legacyKeys (w.documentOf c.org)))
  | .syncWrites legacyKeys document =>
    (w.setDocument c.org (setOwnerGrant document c.org.text c.user legacyKeys c.owner)).finish op

/-- The next organization of a merge's source. -/
def rekeysNext (w : OrgWorld) (op : Nat) (fromUser intoUser : String) : List Uuid → OrgWorld
  | [] => w.finish op
  | org :: rest => w.goto op (.mergesGrants fromUser intoUser (.rekeyReads org rest))

/-- The organizations of the source, and what `merge` checks before its first read. -/
def lists (w : OrgWorld) (op : Nat) (fromUser intoUser : String) : Option OrgWorld :=
  match parseUuid fromUser with
  | none => some (w.errs op)
  | some source =>
    if fromUser = intoUser then
      some (w.errs op)
    else
      let orgs := ((w.people.membershipsOf source).map Prod.fst).filter fun org =>
        org != PLATFORM_ROOT_TENANT_ID
      (w.people.starts op (.merge fromUser intoUser)).map fun people =>
        { w with people := people }.goto op (.mergesGrants fromUser intoUser (.merging orgs))

/-- The key that a grant of the source is given. -/
def mergedKey (fromUser intoUser : String) (subject : String) : Option String :=
  if subject = fromUser then some intoUser else none

def runsGrants (w : OrgWorld) (op : Nat) (fromUser intoUser : String) : GrantsPc → Option OrgWorld
  | .listing => w.lists parseUuid op fromUser intoUser
  | .merging _ => none
  | .rekeyReads org rest =>
    match w.documents org with
    | none => some (w.rekeysNext op fromUser intoUser rest)
    | some document =>
      let rekeyed := rekeyMemberGrants document (mergedKey fromUser intoUser)
      if rekeyed.2 = 0 then
        some (w.rekeysNext op fromUser intoUser rest)
      else
        some (w.goto op (.mergesGrants fromUser intoUser (.rekeyWrites org rekeyed.1 rest)))
  | .rekeyWrites org document rest =>
    some ((w.setDocument org document).rekeysNext op fromUser intoUser rest)

def runs (w : OrgWorld) (op : Nat) : Option OrgWorld :=
  match w.ops op with
  | some (.changes c pc) => some (w.runsChange parseUuid op c pc)
  | some (.mergesGrants fromUser intoUser pc) =>
    w.runsGrants parseUuid op fromUser intoUser pc
  | none => none

/-- The merge of an operation fails by a statement of its own.  The read of `set_owner_grant`
takes every error for an organization without a document. -/
def fails (w : OrgWorld) (op : Nat) : Option OrgWorld :=
  match w.ops op with
  | some (.mergesGrants _ _ (.merging _)) => none
  | some (.changes c (.syncReads legacyKeys)) =>
    some (w.goto op (.changes c (.syncWrites legacyKeys freshDocument)))
  | some _ => some (w.errs op)
  | none => none

/-- A call of `resolve_or_provision` fails, but for the membership of a first login. -/
def signInFails (w : OrgWorld) (call : Nat) : Bool :=
  match w.people.calls call with
  | some (.resolve _ _ (.joinChecks _)) => false
  | some (.resolve _ _ (.joining _)) => false
  | some (.resolve _ _ _) => true
  | _ => false

/-- The merge of a call writes its last row. -/
def endsMerge (w : OrgWorld) : PeopleAction → Bool
  | .runs call =>
    match w.people.calls call with
    | some (.merge _ _ (.tombstoning _)) => true
    | _ => false
  | _ => false

/-- An operation goes on when its merge has ended, or answers its error. -/
def settles (w : OrgWorld) (a : PeopleAction) (people : PeopleWorld) : OrgWorld :=
  let next := { w with people := people }
  match w.ops a.call, people.calls a.call with
  | some (.mergesGrants fromUser intoUser (.merging orgs)), none =>
    if w.endsMerge a then
      next.rekeysNext a.call fromUser intoUser orgs
    else
      next.errs a.call
  | _, _ =>
    match a with
    | .fails call => { next with failed := w.failed || w.signInFails call }
    | _ => next

def person (w : OrgWorld) (a : PeopleAction) : Option OrgWorld :=
  match a with
  | .starts _ (.merge _ _) => none
  | a => (w.people.step v5 parseUuid trim firstLoginJoin a).map (w.settles a)

def step (w : OrgWorld) : OrgAction → Option OrgWorld
  | .person a => w.person v5 parseUuid trim firstLoginJoin a
  | .starts op request => w.starts parseUuid op request
  | .runs op => w.runs parseUuid op
  | .fails op => w.fails op

end Steps

end OrgWorld

end UserProfile
end StudioWeb
