import StudioWeb.Library.SubstringSearch
import StudioWeb.Library.RustPrelude

/-!
# Who may write an alias

An external identity is a kind with an id at a provider, and the store has one row for
it, under a key that is made of their joined text.  `decide` says whether a person may
attribute it to themselves, given the row that exists: only a proof of control displaces
somebody else.  A person's id is written in one way, hyphenated and in lower case, and is read in
several.
-/

namespace StudioWeb
namespace UserProfile

open Rust

def isLowerHex (c : Char) : Bool := c.isDigit || ('a' ≤ c && c ≤ 'f')

/-- The spelling that an id is written in. -/
def isHyphenated (text : String) : Bool :=
  let groups := text.toList.splitOn '-'
  groups.map List.length == [8, 4, 4, 4, 12] && groups.flatten.all isLowerHex

structure Uuid where
  text : String
  hyphenated : isHyphenated text = true
deriving DecidableEq

/-- `Uuid::parse_str` reads an id that was written. -/
def ReadsWritten (parseUuid : String → Option Uuid) : Prop :=
  ∀ id : Uuid, parseUuid id.text = some id

/-- The hyphenated spellings, in either case. -/
def parseHyphenated (text : String) : Option Uuid :=
  if h : isHyphenated text = true then
    some ⟨text, h⟩
  else
    let lowered := String.ofList (text.toList.map Char.toLower)
    if h : isHyphenated lowered = true then
      some ⟨lowered, h⟩
    else
      none

theorem parseHyphenated_readsWritten : ReadsWritten parseHyphenated := by
  intro id
  simp [parseHyphenated, id.hyphenated]

/-- How much an alias attribution is worth. -/
inductive Confidence where
  | suggested
  | claimed
  | confirmed
deriving DecidableEq

namespace Confidence

def strength : Confidence → Nat
  | .suggested => 0
  | .claimed => 1
  | .confirmed => 2

def asStr : Confidence → String
  | .suggested => "suggested"
  | .claimed => "claimed"
  | .confirmed => "confirmed"

/-- Read a stored or requested confidence. -/
def parse (value : String) : Option Confidence :=
  let word := String.ofList ((trim value.toList).map Char.toLower)
  if word = "suggested" then
    some .suggested
  else if word = "claimed" then
    some .claimed
  else if word = "confirmed" then
    some .confirmed
  else
    none

@[simp] theorem parse_asStr (c : Confidence) : parse c.asStr = some c := by
  cases c <;> decide

end Confidence

/-- The alias row that already exists for an external identity. -/
structure Held where
  userId : String
  confidence : Confidence
deriving DecidableEq

/-- Why a write was refused. -/
inductive Refusal where
  | heldByAnother
  | wouldDowngrade
deriving DecidableEq

def Refusal.message : Refusal → String
  | .heldByAnother =>
    "this external identity is already attributed to another user; prove control of " ++
      "it (add a personal connection for the provider) to claim it"
  | .wouldDowngrade =>
    "this external identity is already confirmed for you; a weaker assertion would " ++
      "discard that proof"

inductive Decision where
  | write
  | alreadyHeld
  | refused (refusal : Refusal)
deriving DecidableEq

/-- Decide whether `writer` may attribute an external identity to itself at `incoming`
confidence, given the row that exists now. -/
protected def decide (held : Option Held) (writer : String) (incoming : Confidence) : Decision :=
  match held with
  | none => .write
  | some held =>
    if held.userId = writer then
      match compare incoming.strength held.confidence.strength with
      | .gt => .write
      | .eq => .alreadyHeld
      | .lt => .refused .wouldDowngrade
    else if incoming = .confirmed then
      .write
    else if held.confidence = .suggested ∧ Confidence.claimed.strength ≤ incoming.strength then
      .write
    else
      .refused .heldByAnother

/-- Was an identity taken from someone who had proven it? -/
def displacedAProof (held : Option Held) (writer : String) : Bool :=
  match held with
  | some held => held.userId != writer && held.confidence == .confirmed
  | none => false

def Decision.Refuses (d : Decision) : Prop := ∃ refusal, d = .refused refusal

section Policy

variable
  {holder writer : String}
  {incoming : Confidence}

/-- A confirmed row refuses every write but a confirmed one. -/
theorem refuses_confirmed (hincoming : incoming ≠ .confirmed) :
    (UserProfile.decide (some ⟨holder, .confirmed⟩) writer incoming).Refuses := by
  by_cases hown : holder = writer
  · cases incoming with
    | suggested =>
      exact ⟨.wouldDowngrade, by simp [UserProfile.decide, hown]; rfl⟩
    | claimed =>
      exact ⟨.wouldDowngrade, by simp [UserProfile.decide, hown]; rfl⟩
    | confirmed =>
      exact absurd rfl hincoming
  · exact ⟨.heldByAnother, by simp [UserProfile.decide, hown, hincoming]⟩

/-- A claimed row refuses another person's claim or suggestion. -/
theorem refuses_claimed (hother : holder ≠ writer) (hincoming : incoming ≠ .confirmed) :
    (UserProfile.decide (some ⟨holder, .claimed⟩) writer incoming).Refuses :=
  ⟨.heldByAnother, by simp [UserProfile.decide, hother, hincoming]⟩

end Policy

/-- An external identity, normalized. -/
structure AliasKey where
  kind : String
  externalId : String
deriving DecidableEq

section Keys

-- `str::to_lowercase`.
variable (lowercase : String → String)

def normalizeKey (value : String) : String := lowercase (String.ofList (trim value.toList))

def normalizeAlias (kind externalId : String) : Except String AliasKey :=
  let kind := normalizeKey lowercase kind
  let externalId := normalizeKey lowercase externalId
  if kind.isEmpty || 40 < kind.utf8ByteSize then
    .error "kind must be 1..=40 characters"
  else if externalId.isEmpty || 320 < externalId.utf8ByteSize then
    .error "external_id must be 1..=320 characters"
  else
    .ok ⟨kind, externalId⟩

/-- The text that a row's id is made of. -/
def aliasText (key : AliasKey) : String := "alias|" ++ key.kind ++ "|" ++ key.externalId

/-- Two identities with one joined text. -/
example :
    aliasText ⟨"github|a", "b"⟩ = aliasText ⟨"github", "a|b"⟩ := by
  decide

end Keys

end UserProfile
end StudioWeb
