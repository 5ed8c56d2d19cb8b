import StudioWeb.Library.InsertionMap
import StudioWeb.Library.RustPrelude
import StudioWeb.Library.SortBy
import Mathlib.Tactic.ByContra

/-!
# Who is in Studio, and what waits for them

The registry of `presence/registry.rs` and the calls of `presence/rest.rs`.  A
heartbeat is three calls of the registry, each under its own lock: it records the
person, takes what waits for them, and counts who is online.  A send checks and posts
under one lock.
-/

namespace StudioWeb
namespace Presence

open Rust List

def HEARTBEAT_MS : Int := 30000

def ONLINE_TTL_MS : Int := 3 * HEARTBEAT_MS

def MAX_LABEL : Nat := 120

def MAX_MESSAGE : Nat := 1000

def MAX_INBOX : Nat := 20

/-- `Presence`. -/
structure PresenceRecord where
  userId : String
  displayName : Option String
  tenantId : String
  place : String
  detail : Option String
  sinceMs : Int
  lastSeenMs : Int
deriving DecidableEq

/-- A word at a time still counts. -/
def fresh (lastSeenMs nowMs : Int) : Bool := nowMs - lastSeenMs < ONLINE_TTL_MS

def PresenceRecord.isOnline (record : PresenceRecord) (nowMs : Int) : Bool :=
  fresh record.lastSeenMs nowMs

def cleanLabel (raw : String) : Option String :=
  let trimmed := trim raw.toList
  if trimmed = [] then none else some (String.ofList (trimmed.take MAX_LABEL))

structure Message where
  id : String
  fromUserId : String
  fromDisplayName : Option String
  text : String
  sentMs : Int
deriving DecidableEq

structure PresenceRegistry where
  people : InsertionMap String PresenceRecord
  inboxes : InsertionMap String (List Message)

/-- `while inbox.len() > MAX_INBOX { inbox.remove(0); }`. -/
def dropOldest : List Message → List Message
  | [] => []
  | message :: rest =>
    if MAX_INBOX < (message :: rest).length then dropOldest rest else message :: rest

/-- The order of the list: the last seen first, then by the user's id. -/
def seenBefore (a b : PresenceRecord) : Bool :=
  b.lastSeenMs < a.lastSeenMs || (b.lastSeenMs == a.lastSeenMs && a.userId < b.userId)

namespace PresenceRegistry

def default : PresenceRegistry where
  people := .empty
  inboxes := .empty

def beat (registry : PresenceRegistry) (userId : String) (displayName : Option String)
    (tenantId : String) (place detail : Option String) (nowMs : Int) :
    PresenceRecord × PresenceRegistry :=
  let sinceMs :=
    match registry.people.get? userId with
    | some previous => if previous.isOnline nowMs then previous.sinceMs else nowMs
    | none => nowMs
  let record : PresenceRecord :=
    { userId := userId
      displayName := displayName
      tenantId := tenantId
      place := place.getD "studio"
      detail := detail
      sinceMs := sinceMs
      lastSeenMs := nowMs }
  (record, { registry with people := registry.people.set userId record })

def online (registry : PresenceRegistry) (nowMs : Int) : List PresenceRecord × PresenceRegistry :=
  let people := registry.people.keepIf fun record => record.isOnline nowMs
  (sortBy seenBefore people.values, { registry with people := people })

def forget (registry : PresenceRegistry) (userId : String) : PresenceRegistry where
  people := registry.people.erase userId
  inboxes := registry.inboxes.erase userId

/-- What waits for somebody, and nothing when nothing was ever left. -/
def inbox (registry : PresenceRegistry) (userId : String) : List Message :=
  (registry.inboxes.get? userId).getD []

def postIfOnline (registry : PresenceRegistry) (toUserId : String) (message : Message)
    (nowMs : Int) : Option Nat × PresenceRegistry :=
  if (registry.people.get? toUserId).any fun record => record.isOnline nowMs then
    let inbox := dropOldest (registry.inbox toUserId ++ [message])
    (some inbox.length, { registry with inboxes := registry.inboxes.set toUserId inbox })
  else
    (none, registry)

def drain (registry : PresenceRegistry) (userId : String) : List Message × PresenceRegistry :=
  (registry.inbox userId, { registry with inboxes := registry.inboxes.erase userId })

end PresenceRegistry

structure HeartbeatRequest where
  displayName : Option String
  place : Option String
  detail : Option String

/-- The first call of `heartbeat`. -/
def heartbeatBeat (registry : PresenceRegistry) (caller tenantId : String) (req : HeartbeatRequest)
    (nowMs : Int) : PresenceRecord × PresenceRegistry :=
  registry.beat caller (req.displayName.bind cleanLabel) tenantId (req.place.bind cleanLabel)
    (req.detail.bind cleanLabel)
    nowMs

structure HeartbeatDto where
  me : PresenceRecord
  messages : List Message
  online : Nat
deriving DecidableEq

structure OnlineListDto where
  items : List PresenceRecord
  total : Nat
  onlineTtlMs : Int
  heartbeatMs : Int

def onlineList (registry : PresenceRegistry) (nowMs : Int) : OnlineListDto × PresenceRegistry :=
  let (items, registry) := registry.online nowMs
  ({ items := items
     total := items.length
     onlineTtlMs := ONLINE_TTL_MS
     heartbeatMs := HEARTBEAT_MS },
    registry)

structure SendNoteRequest where
  toUserId : String
  text : String
  fromDisplayName : Option String

structure SendNoteDto where
  delivered : Bool
  waiting : Nat
deriving DecidableEq

/-- Whom a note is for, and the note: the checks of `send_message`. -/
def noteOf (caller : String) (req : SendNoteRequest) (id : String) (nowMs : Int) :
    Except String (String × Message) :=
  let text := trim req.text.toList
  if text = [] then
    .error "a message needs some text"
  else if MAX_MESSAGE < text.length then
    .error "a message is at most 1000 characters"
  else
    let recipient := trim req.toUserId.toList
    if recipient = [] then
      .error "a message needs a recipient"
    else
      .ok (String.ofList recipient,
        { id := id
          fromUserId := caller
          fromDisplayName := req.fromDisplayName.bind cleanLabel
          text := String.ofList text
          sentMs := nowMs })

def sendNoteDto : Option Nat → SendNoteDto
  | some waiting => { delivered := true, waiting := waiting }
  | none => { delivered := false, waiting := 0 }

section Time

variable {lastSeenMs nowMs laterMs : Int}

/-- Who is heard of in time was heard of in time before. -/
theorem fresh_of_le (hle : nowMs ≤ laterMs) (h : fresh lastSeenMs laterMs = true) :
    fresh lastSeenMs nowMs = true := by
  simp only [fresh, decide_eq_true_eq] at h ⊢
  omega

end Time

section Newest

variable {α : Type}

/-- The last `n` of a list. -/
def newest (n : Nat) (xs : List α) : List α := xs.drop (xs.length - n)

theorem length_newest (n : Nat) (xs : List α) : (newest n xs).length = min n xs.length := by
  unfold newest
  rw [length_drop]
  omega

theorem newest_sublist (n : Nat) (xs : List α) : (newest n xs).Sublist xs := drop_sublist _ _

theorem newest_eq_nil {n : Nat} {xs : List α} (hpos : 0 < n) (h : newest n xs = []) : xs = [] := by
  have hlen := congrArg List.length h
  rw [length_newest, length_nil] at hlen
  apply eq_nil_of_length_eq_zero
  omega

theorem map_newest {β : Type} (f : α → β) (n : Nat) (xs : List α) :
    newest n (xs.map f) = (newest n xs).map f := by
  unfold newest
  rw [map_drop, length_map]

theorem newest_append_newest {n : Nat} (hpos : 0 < n) (xs : List α) (x : α) :
    newest n (newest n xs ++ [x]) = newest n (xs ++ [x]) := by
  unfold newest
  simp only [length_append, length_drop, length_cons, length_nil]
  by_cases hle : xs.length ≤ n
  · have hzero : xs.length - n = 0 := by omega
    simp [hzero]
  · have hdrop : xs.length - (xs.length - n) + 1 - n = 1 := by omega
    have hmore : xs.length + 1 - n = (xs.length - n) + 1 := by omega
    rw [Nat.zero_add, hdrop, hmore]
    rw [drop_append_of_le_length (by rw [length_drop]; omega)]
    rw [drop_append_of_le_length (by omega), drop_drop]

end Newest

theorem dropOldest_eq (inbox : List Message) : dropOldest inbox = newest MAX_INBOX inbox := by
  induction inbox with
  | nil => rfl
  | cons message rest ih =>
    unfold dropOldest
    split
    next hlong =>
      rw [ih]
      have hlen : (message :: rest).length - MAX_INBOX = (rest.length - MAX_INBOX) + 1 := by
        simp only [length_cons] at hlong ⊢
        omega
      unfold newest
      rw [hlen, drop_succ_cons]
    next _ =>
      have hzero : (message :: rest).length - MAX_INBOX = 0 := by omega
      unfold newest
      rw [hzero, drop_zero]

namespace PresenceRegistry

variable {registry : PresenceRegistry} {userId toUserId : String}

variable (people : InsertionMap String PresenceRecord)

theorem inbox_set (messages : List Message) :
    inbox ⟨people, registry.inboxes.set toUserId messages⟩ userId =
      if userId = toUserId then messages else registry.inbox userId := by
  unfold inbox
  rw [InsertionMap.get?_set]
  split <;> rfl

theorem inbox_erase :
    inbox ⟨people, registry.inboxes.erase toUserId⟩ userId =
      if userId = toUserId then [] else registry.inbox userId := by
  unfold inbox
  rw [InsertionMap.get?_erase]
  split <;> rfl

def finds (registry : PresenceRegistry) (userId : String) (nowMs : Int) : Bool :=
  (registry.people.get? userId).any fun record => record.isOnline nowMs

variable (registry : PresenceRegistry)

/-- What a send does, answered or not. -/
theorem postIfOnline_cases (toUserId : String) (message : Message) (nowMs : Int) :
    (registry.finds toUserId nowMs = true ∧ registry.postIfOnline toUserId message nowMs =
        (some (newest MAX_INBOX (registry.inbox toUserId ++ [message])).length,
          { registry with
            inboxes := registry.inboxes.set toUserId
              (newest MAX_INBOX (registry.inbox toUserId ++ [message])) })) ∨
    (registry.finds toUserId nowMs = false ∧
      registry.postIfOnline toUserId message nowMs = (none, registry)) := by
  unfold postIfOnline finds
  rw [dropOldest_eq]
  cases (registry.people.get? toUserId).any fun record => record.isOnline nowMs
  · exact .inr ⟨rfl, rfl⟩
  · exact .inl ⟨rfl, rfl⟩

variable (caller tenantId : String) (req : HeartbeatRequest)

theorem finds_heartbeatBeat (nowMs laterMs : Int) (userId : String) :
    (heartbeatBeat registry caller tenantId req nowMs).2.finds userId laterMs =
      if userId = caller then fresh nowMs laterMs else registry.finds userId laterMs := by
  unfold finds heartbeatBeat beat
  rw [InsertionMap.get?_set]
  split <;> rfl

@[simp] theorem inbox_heartbeatBeat (nowMs : Int) (userId : String) :
    (heartbeatBeat registry caller tenantId req nowMs).2.inbox userId =
      registry.inbox userId := by
  rfl

theorem finds_online {nowMs laterMs : Int} (hle : nowMs ≤ laterMs) (userId : String) :
    (registry.online nowMs).2.finds userId laterMs = registry.finds userId laterMs := by
  unfold finds online
  rw [InsertionMap.get?_keepIf]
  cases registry.people.get? userId with
  | none => rfl
  | some record =>
    cases hnow : record.isOnline nowMs with
    | true => simp [Option.filter, hnow]
    | false =>
      have hlater : record.isOnline laterMs = false := by
        by_contra hfound
        rw [Bool.not_eq_false] at hfound
        have hthen : record.isOnline nowMs = true := fresh_of_le hle hfound
        rw [hnow] at hthen
        cases hthen
      simp [Option.filter, hnow, hlater]

variable (caller userId : String)

theorem finds_forget (nowMs : Int) :
    (registry.forget caller).finds userId nowMs =
      if userId = caller then false else registry.finds userId nowMs := by
  unfold finds forget
  rw [InsertionMap.get?_erase]
  split <;> rfl

theorem inbox_forget :
    (registry.forget caller).inbox userId =
      if userId = caller then [] else registry.inbox userId :=
  inbox_erase _

@[simp] theorem finds_drain (nowMs : Int) :
    (registry.drain caller).2.finds userId nowMs = registry.finds userId nowMs := by
  rfl

theorem inbox_drain :
    (registry.drain caller).2.inbox userId =
      if userId = caller then [] else registry.inbox userId :=
  inbox_erase _

end PresenceRegistry
end Presence
end StudioWeb
