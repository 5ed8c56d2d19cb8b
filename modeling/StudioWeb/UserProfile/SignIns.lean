import StudioWeb.Library.InsertionMap
import StudioWeb.Library.LabelledRuns
import StudioWeb.UserProfile.AliasCalls

/-!
# Sign-ins and merges of people

The rows of people, logins, memberships and aliases, and the calls of
`resolve_or_provision` and `merge` about them.  Every statement of the store is a step.  A
statement may fail; the call then answers the error.

Beside the rows the world keeps what the calls of `resolve_or_provision` answered, and how
many logins merges have moved.  The photo and the description in the directory, which a
merge carries along, are not here, nor is the time of a row's last change.
-/

namespace StudioWeb
namespace UserProfile

open LabelledRuns

/-- A row of `identity_user`. -/
structure UserRow where
  displayName : Option String
  email : Option String
  mergedInto : Option Uuid
deriving DecidableEq

/-- A row of `identity_login`. -/
structure LoginRow where
  provider : String
  subject : String
  userId : Uuid
  verified : Bool
  linkedAt : Int
deriving DecidableEq

/-- A row of `identity_membership`. -/
structure MembershipRow where
  role : String
  status : String
  source : String
deriving DecidableEq

def STATUS_ACTIVE : String := "active"

def SOURCE_FIRST_LOGIN : String := "first_login"

/-- The arguments of `resolve_or_provision`. -/
structure Sighting where
  provider : String
  subject : String
  seedDisplay : Option String
  seedEmail : Option String
  verified : Bool

inductive ResolvePc where
  | finding
  | creating
  | linking (userId : Uuid)
  /-- The person of the membership of a first login. -/
  | joinChecks (userId : Uuid)
  | joining (userId : Uuid)

/-- A merge that has read both people. -/
structure MergePair where
  fromUser : Uuid
  intoUser : Uuid
  source : UserRow
  loginsMoved : Nat

def MergePair.countsLogin (m : MergePair) : MergePair :=
  { m with loginsMoved := m.loginsMoved + 1 }

inductive MergePc where
  | checkingTarget
  | checkingSource (intoUser : Uuid)
  | listingLogins (m : MergePair)
  | movingLogins (m : MergePair) (login : Uuid × LoginRow) (rest : List (Uuid × LoginRow))
  | listingAliases (m : MergePair)
  | movingAliases (m : MergePair) (row : Uuid × AliasRow) (rest : List (Uuid × AliasRow))
  | listingMemberships (m : MergePair)
  /-- The person of the membership that is moved. -/
  | recordChecks
      (m : MergePair) (row : Uuid × MembershipRow) (rest : List (Uuid × MembershipRow))
  | recording
      (m : MergePair) (row : Uuid × MembershipRow) (rest : List (Uuid × MembershipRow))
  | removing
      (m : MergePair) (row : Uuid × MembershipRow) (rest : List (Uuid × MembershipRow))
  | tombstoning (m : MergePair)

namespace MergePc

def nextLogin (m : MergePair) : List (Uuid × LoginRow) → MergePc
  | [] => .listingAliases m
  | login :: rest => .movingLogins m login rest

def nextAlias (m : MergePair) : List (Uuid × AliasRow) → MergePc
  | [] => .listingMemberships m
  | row :: rest => .movingAliases m row rest

def nextMembership (m : MergePair) : List (Uuid × MembershipRow) → MergePc
  | [] => .tombstoning m
  | row :: rest => .recordChecks m row rest

end MergePc

inductive PersonCall where
  | resolve (s : Sighting) (begun : Nat) (pc : ResolvePc)
  | merge (fromUser intoUser : String) (pc : MergePc)

inductive PersonRequest where
  | resolve (s : Sighting)
  | merge (fromUser intoUser : String)

/-- What a call of `resolve_or_provision` answered, and the logins that merges had moved
when it began and when it ended. -/
structure SignInAnswer where
  login : Uuid
  userId : Uuid
  begun : Nat
  ended : Nat
deriving DecidableEq

structure PeopleWorld where
  users : Uuid → Option UserRow
  logins : InsertionMap Uuid LoginRow
  /-- By the person and the organization. -/
  memberships : InsertionMap (Uuid × Uuid) MembershipRow
  aliases : InsertionMap Uuid AliasRow
  calls : Nat → Option PersonCall
  answers : List SignInAnswer
  loginMoves : Nat

inductive PeopleAction where
  | starts (call : Nat) (request : PersonRequest)
  /-- The first write for a person, under a fresh id. -/
  | creates (call : Nat) (userId : Uuid)
  | links (call : Nat) (now : Int)
  /-- Any other statement of a call. -/
  | runs (call : Nat)
  | fails (call : Nat)

inductive ProfileError where
  | rejected (message : String)
  /-- A statement of the store failed. -/
  | store
deriving DecidableEq

section GetProfile

variable (parseUuid : String → Option Uuid)

/-- At most `fuel` turns of the loop of `get_profile`. -/
def getProfileWith (users : Uuid → Option UserRow)
    (userId : String) : Nat → String → Except ProfileError (Option (Uuid × UserRow))
  | 0, _ => .error (.rejected s!"merge chain too deep or cyclic for user {userId}")
  | fuel + 1, current =>
    match parseUuid current with
    | none => .error .store
    | some id =>
      match users id with
      | none => .ok none
      | some row =>
        match row.mergedInto with
        | some into =>
          if into.text ≠ current then
            getProfileWith users userId fuel into.text
          else
            .ok (some (id, row))
        | none => .ok (some (id, row))

/-- Read a profile by user id, following a merge pointer if present. -/
def getProfile (users : Uuid → Option UserRow)
    (userId : String) : Except ProfileError (Option (Uuid × UserRow)) :=
  getProfileWith parseUuid users userId 8 userId

end GetProfile

namespace PeopleWorld

/-- A call awaits something else. -/
def goto (w : PeopleWorld) (call : Nat) (c : PersonCall) : PeopleWorld :=
  { w with calls := Function.update w.calls call (some c) }

def finish (w : PeopleWorld) (call : Nat) : PeopleWorld :=
  { w with calls := Function.update w.calls call none }

/-- A call of `resolve_or_provision` answers a person. -/
def answer (w : PeopleWorld) (call : Nat) (login userId : Uuid) (begun : Nat) : PeopleWorld :=
  { w.finish call with answers := ⟨login, userId, begun, w.loginMoves⟩ :: w.answers }

def setUser (w : PeopleWorld) (id : Uuid) (row : UserRow) : PeopleWorld :=
  { w with users := Function.update w.users id (some row) }

/-- The row that an upsert leaves: one that was there keeps its identity. -/
def upsertedLogin (found : Option LoginRow) (row : LoginRow) : LoginRow :=
  match found with
  | some old => { row with provider := old.provider, subject := old.subject }
  | none => row

theorem upsertedLogin_userId (found : Option LoginRow) (row : LoginRow) :
    (upsertedLogin found row).userId = row.userId := by
  cases found with
  | none => rfl
  | some => rfl

/-- `upsert_login`. -/
def setLogin (w : PeopleWorld) (id : Uuid) (row : LoginRow) : PeopleWorld :=
  { w with logins := w.logins.set id (upsertedLogin (w.logins.get? id) row) }

section Steps

variable
  -- The row id of a text, a version 5 UUID.
  (v5 : String → Uuid)
  (parseUuid : String → Option Uuid)
  -- `str::trim`.
  (trim : String → String)
  -- The organization that a new person joins, and the role there.
  (firstLoginJoin : Option (Uuid × String))

def loginId (s : Sighting) : Uuid := v5 ("login|" ++ s.provider ++ "|" ++ s.subject)

/-- What a new profile is filled with. -/
def seeded (seed : Option String) : Option String := (seed.map trim).filter fun s => !s.isEmpty

def newUser (s : Sighting) : UserRow where
  displayName := seeded trim s.seedDisplay
  email := seeded trim s.seedEmail
  mergedInto := none

def newLogin (s : Sighting) (userId : Uuid) (now : Int) : LoginRow where
  provider := s.provider
  subject := s.subject
  userId := userId
  verified := s.verified
  linkedAt := now

/-- `merge` checks the ids as they are spelled. -/
def starts (w : PeopleWorld) (call : Nat) (request : PersonRequest) : Option PeopleWorld :=
  match w.calls call, request with
  | some _, _ => none
  | none, .resolve s => some (w.goto call (.resolve s w.loginMoves .finding))
  | none, .merge fromUser intoUser =>
    if fromUser = intoUser then
      some w
    else
      some (w.goto call (.merge fromUser intoUser .checkingTarget))

/-- A version 4 UUID is nobody's. -/
def creates (w : PeopleWorld) (call : Nat) (userId : Uuid) : Option PeopleWorld :=
  match w.calls call, w.users userId with
  | some (.resolve s begun .creating), none =>
    some ((w.setUser userId (newUser trim s)).goto call (.resolve s begun (.linking userId)))
  | _, _ => none

/-- The login of a new person. -/
def links (w : PeopleWorld) (call : Nat) (now : Int) : Option PeopleWorld :=
  match w.calls call with
  | some (.resolve s begun (.linking userId)) =>
    let linked := w.setLogin (loginId v5 s) (newLogin s userId now)
    match firstLoginJoin with
    | none => some (linked.answer call (loginId v5 s) userId begun)
    | some _ => some (linked.goto call (.resolve s begun (.joinChecks userId)))
  | _ => none

/-- A statement of `resolve_or_provision` but the writes for a new person. -/
def runsResolve (w : PeopleWorld) (call : Nat) (s : Sighting)
    (begun : Nat) : ResolvePc → Option PeopleWorld
  | .finding =>
    match w.logins.get? (loginId v5 s) with
    | some login => some (w.answer call (loginId v5 s) login.userId begun)
    | none => some (w.goto call (.resolve s begun .creating))
  | .joinChecks userId =>
    if (w.users userId).isSome then
      some (w.goto call (.resolve s begun (.joining userId)))
    else
      some (w.answer call (loginId v5 s) userId begun)
  | .joining userId =>
    match firstLoginJoin with
    | none => none
    | some (org, role) =>
      some ({ w with
        memberships := w.memberships.set (userId, org)
          ⟨role, STATUS_ACTIVE, SOURCE_FIRST_LOGIN⟩ }.answer call (loginId v5 s) userId begun)
  | .creating => none
  | .linking _ => none

def loginsOf (w : PeopleWorld) (user : Uuid) : List (Uuid × LoginRow) :=
  w.logins.entries.filter fun l => l.2.userId = user

def aliasesOf (w : PeopleWorld) (user : Uuid) : List (Uuid × AliasRow) :=
  w.aliases.entries.filter fun a => a.2.userId = user

/-- `memberships_of`, by their organizations. -/
def membershipsOf (w : PeopleWorld) (user : Uuid) : List (Uuid × MembershipRow) :=
  (w.memberships.entries.filter fun m => m.1.1 = user).map fun m => (m.1.2, m.2)

def readsPeople (w : PeopleWorld) (call : Nat)
    (fromUser intoUser : String) : MergePc → Option PeopleWorld
  | .checkingTarget =>
    match parseUuid intoUser with
    | none => some (w.finish call)
    | some into =>
      if (w.users into).isSome then
        some (w.goto call (.merge fromUser intoUser (.checkingSource into)))
      else
        some (w.finish call)
  | .checkingSource into =>
    match parseUuid fromUser with
    | none => some (w.finish call)
    | some source =>
      match w.users source with
      | none => some (w.finish call)
      | some row =>
        some (w.goto call (.merge fromUser intoUser (.listingLogins ⟨source, into, row, 0⟩)))
  | _ => none

def movesLogin (w : PeopleWorld) (m : MergePair) (login : Uuid × LoginRow) : PeopleWorld :=
  { w.setLogin login.1 { login.2 with userId := m.intoUser } with
    loginMoves := w.loginMoves + 1 }

def recordsMembership (w : PeopleWorld) (m : MergePair)
    (row : Uuid × MembershipRow) : PeopleWorld :=
  { w with
    memberships := w.memberships.set (m.intoUser, row.1)
      ⟨row.2.role, STATUS_ACTIVE, row.2.source⟩ }

/-- The source's row as it was read, with the pointer. -/
def tombstone (m : MergePair) : UserRow :=
  { m.source with mergedInto := some m.intoUser }

/-- A statement of a merge that has read both people. -/
def runsMerge (w : PeopleWorld) (call : Nat)
    (goes : MergePc → PersonCall) : MergePc → Option PeopleWorld
  | .listingLogins m =>
    some (w.goto call (goes (.nextLogin m (w.loginsOf m.fromUser))))
  | .movingLogins m login rest =>
    some ((w.movesLogin m login).goto call (goes (.nextLogin m.countsLogin rest)))
  | .listingAliases m =>
    some (w.goto call (goes (.nextAlias m (w.aliasesOf m.fromUser))))
  | .movingAliases m row rest =>
    some ({ w with
      aliases := w.aliases.set row.1 { row.2 with userId := m.intoUser } }.goto call
        (goes (.nextAlias m rest)))
  | .listingMemberships m =>
    some (w.goto call (goes (.nextMembership m (w.membershipsOf m.fromUser))))
  | .recordChecks m row rest =>
    if (w.users m.intoUser).isSome then
      some (w.goto call (goes (.recording m row rest)))
    else
      some (w.finish call)
  | .recording m row rest =>
    some ((w.recordsMembership m row).goto call (goes (.removing m row rest)))
  | .removing m row rest =>
    some ({ w with memberships := w.memberships.erase (m.fromUser, row.1) }.goto call
      (goes (.nextMembership m rest)))
  | .tombstoning m => some ((w.setUser m.fromUser (tombstone m)).finish call)
  | .checkingTarget => none
  | .checkingSource _ => none

def runs (w : PeopleWorld) (call : Nat) : Option PeopleWorld :=
  match w.calls call with
  | some (.resolve s begun pc) => w.runsResolve v5 firstLoginJoin call s begun pc
  | some (.merge fromUser intoUser pc) =>
    (w.readsPeople parseUuid call fromUser intoUser pc).or
      (w.runsMerge call (.merge fromUser intoUser) pc)
  | none => none

def fails (w : PeopleWorld) (call : Nat) : Option PeopleWorld :=
  match w.calls call with
  | some (.resolve s begun (.joinChecks userId)) =>
    some (w.answer call (loginId v5 s) userId begun)
  | some (.resolve s begun (.joining userId)) =>
    some (w.answer call (loginId v5 s) userId begun)
  | some _ => some (w.finish call)
  | none => none

def step (w : PeopleWorld) : PeopleAction → Option PeopleWorld
  | .starts call request => w.starts call request
  | .creates call userId => w.creates trim call userId
  | .links call now => w.links v5 firstLoginJoin call now
  | .runs call => w.runs v5 parseUuid firstLoginJoin call
  | .fails call => w.fails v5 call

end Steps

end PeopleWorld

end UserProfile
end StudioWeb
