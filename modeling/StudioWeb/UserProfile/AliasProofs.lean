import StudioWeb.UserProfile.AliasCalls

/-!
# What an alias row is changed by
-/

namespace StudioWeb
namespace UserProfile

open LabelledRuns AliasWorld Option AliasWorld

section AliasProofs

variable
  {v5 : String → Uuid}
  {parseUuid : String → Option Uuid}
  {lowercase : String → String}
  {w t : AliasWorld}
  {a : AliasAction}

/-- What a step can do. -/
inductive AliasChange
    (v5 : String → Uuid) (parseUuid : String → Option Uuid) (lowercase : String → String)
    (w : AliasWorld) (a : AliasAction) :
    AliasWorld → Prop
  | ends
      (call : Nat)
      (request : AliasRequest)
      (answer : Except AliasError AliasOutcome) :
      AliasChange v5 parseUuid lowercase w a (w.finish call request answer none)
  | begins
      (call : Nat)
      (request : AliasRequest)
      (kind externalId : String)
      (key : AliasKey)
      (haction : a = .starts call request kind externalId)
      (hkey : normalizeAlias lowercase kind externalId = .ok key) :
      AliasChange v5 parseUuid lowercase w a (w.goto call ⟨request, key, request.firstPc⟩)
  | goes
      (call : Nat)
      (c : AliasCall)
      (pc : AliasPc)
      (hcall : w.calls call = some c) :
      AliasChange v5 parseUuid lowercase w a (w.goto call ⟨c.request, c.key, pc⟩)
  | writes
      (call : Nat)
      (now : Int)
      (userId : String)
      (confidence : Confidence)
      (key : AliasKey)
      (tookAProof : Bool)
      (person : Uuid)
      (haction : a = .writes call now)
      (hcall : w.calls call = some ⟨.attribute userId confidence, key, .writing tookAProof⟩)
      (hperson : parseUuid userId = some person) :
      AliasChange v5 parseUuid lowercase w a ((w.setRow (aliasId v5 key)
          (some (upserted (w.rows (aliasId v5 key)) key person confidence now))).finish call
            (.attribute userId confidence) (.ok (writtenOutcome tookAProof))
            (some (w.rows (aliasId v5 key))))
  | deletes
      (call : Nat)
      (userId : String)
      (key : AliasKey)
      (haction : a = .deletes call)
      (hcall : w.calls call = some ⟨.revoke userId, key, .deleting⟩) :
      AliasChange v5 parseUuid lowercase w a
        ((w.setRow (aliasId v5 key) none).finish call (.revoke userId)
          (.ok .written) (some (w.rows (aliasId v5 key))))

variable {call : Nat} {request : AliasRequest} {userId : String} {confidence : Confidence}
  {key : AliasKey} {row : Option AliasRow} {c : AliasCall}

theorem change_of_starts {kind externalId : String}
    (h : w.starts lowercase call request kind externalId = some t) :
    AliasChange v5 parseUuid lowercase w (.starts call request kind externalId) t := by
  unfold AliasWorld.starts at h
  split at h
  · split at h
    · cases h
      exact .ends call request _
    · next key hkey =>
      cases h
      exact .begins call request kind externalId key rfl hkey
  · cases h

theorem change_of_checksUser {found : Bool} (h : w.checksUser parseUuid call found = some t) :
    AliasChange v5 parseUuid lowercase w a t := by
  unfold AliasWorld.checksUser at h
  split at h
  · next _ _ _ hcall =>
    simp only at h
    split at h
    · cases h
      exact .ends call _ _
    · cases found with
      | true =>
        cases h
        exact .goes call _ .finding hcall
      | false =>
        cases h
        exact .ends call _ _
  · cases h

theorem change_of_decides {pc : AliasPc} {held : Option Held}
    (hcall : w.calls call = some ⟨.attribute userId confidence, key, pc⟩) :
    AliasChange v5 parseUuid lowercase w a
      (w.decides call userId confidence key held) := by
  unfold decides
  cases hdecide : UserProfile.decide held userId confidence with
  | alreadyHeld =>
    exact .ends call _ _
  | refused =>
    exact .ends call _ _
  | write =>
    exact .goes call _ (.writing (displacedAProof held userId)) hcall

theorem change_of_decidesRevoke {pc : AliasPc} (hcall : w.calls call = some ⟨.revoke userId, key, pc⟩) :
    AliasChange v5 parseUuid lowercase w a
      (w.decidesRevoke call userId key row) := by
  cases row with
  | none =>
    exact .ends call _ _
  | some row =>
    by_cases hown : row.userId.text = userId
    · simp only [decidesRevoke, hown, ne_eq, not_true_eq_false, if_false]
      exact .goes call _ .deleting hcall
    · simp only [decidesRevoke, hown, ne_eq, not_false_eq_true, if_true]
      exact .ends call _ _

/-- **Every step is one of the cases.** -/
theorem alias_change_of_step (h : w.step v5 parseUuid lowercase a = some t) :
    AliasChange v5 parseUuid lowercase w a t := by
  cases a with
  | starts => exact change_of_starts h
  | checksUser => exact change_of_checksUser h
  | finds =>
    simp only [step, AliasWorld.finds] at h
    split at h
    · next hcall =>
      cases h
      exact change_of_decides hcall
    · next hcall =>
      cases h
      exact change_of_decidesRevoke hcall
    · cases h
  | writes call now =>
    simp only [step, AliasWorld.writes] at h
    split at h
    · next userId confidence key tookAProof hcall =>
      cases hperson : parseUuid userId with
      | none =>
        simp only [hperson, some.injEq] at h
        exact h ▸ .ends call _ _
      | some person =>
        simp only [hperson, some.injEq] at h
        exact h ▸ .writes call now userId confidence key tookAProof person rfl hcall hperson
    · cases h
  | deletes call =>
    simp only [step, AliasWorld.deletes] at h
    split at h
    · next userId key hcall =>
      cases h
      exact .deletes call userId key rfl hcall
    · cases h
  | fails call =>
    simp only [step, AliasWorld.fails] at h
    split at h
    · cases h
      exact .ends call _ _
    · cases h

/-- A confirmed write for the identity of a row. -/
def ProvenBy (w : AliasWorld) (a : AliasAction) (row : AliasRow) : Prop :=
  ∃ call now userId tookAProof, a = .writes call now ∧ w.calls call =
        some ⟨.attribute userId .confirmed, row.key, .writing tookAProof⟩

def RevokedBy (w : AliasWorld) (a : AliasAction) (row : AliasRow) : Prop :=
  ∃ call, a = .deletes call ∧ w.calls call = some ⟨.revoke row.userId.text, row.key, .deleting⟩

/-- A write by the person that a row names. -/
def RestatedBy (parseUuid : String → Option Uuid) (w : AliasWorld) (a : AliasAction)
    (row : AliasRow) : Prop :=
  ∃ call now userId confidence tookAProof, a = .writes call now ∧ w.calls call =
        some ⟨.attribute userId confidence, row.key, .writing tookAProof⟩ ∧
      parseUuid userId = some row.userId

/-- A row is changed by no one else than whom its confidence yields to. -/
def KeepsProofs (parseUuid : String → Option Uuid) (w : AliasWorld) (a : AliasAction)
    (t : AliasWorld) : Prop :=
  ∀ id row, w.rows id = some row → t.rows id ≠ some row →
    (row.confidence = Confidence.confirmed.asStr → ProvenBy w a row ∨ RevokedBy w a row) ∧
    (row.confidence = Confidence.claimed.asStr →
      ProvenBy w a row ∨ RevokedBy w a row ∨ RestatedBy parseUuid w a row)

/-- A call says what it did: nothing, where it refused, and that it displaced a proof. -/
structure EndedCall.Honest
    (parseUuid : String → Option Uuid) (e : EndedCall) : Prop where
  wroteNothing :
    (e.answer = .ok .alreadyHeld ∨ ∃ message, e.answer = .ok (.refused message)) → e.replaced = none
  saysProof :
    ∀ userId confidence row, e.request = .attribute userId confidence →
      e.replaced = some (some row) →
      row.confidence = Confidence.confirmed.asStr →
      parseUuid userId ≠ some row.userId →
      e.answer = .ok .writtenOverAProof

/-- Two identities have no row in common. -/
structure SharesNoRow (v5 : String → Uuid) (w : AliasWorld) : Prop where
  ownRow :
    ∀ call c row, w.calls call = some c → w.rows (aliasId v5 c.key) = some row → row.key = c.key
  apart :
    ∀ call other c d, w.calls call = some c → w.calls other = some d →
      aliasId v5 c.key = aliasId v5 d.key →
      c.key = d.key

/-- No other identity in use has the row of `key`. -/
def Unshared (v5 : String → Uuid) (w : AliasWorld) (key : AliasKey) : Prop :=
  (∀ row, w.rows (aliasId v5 key) = some row → row.key = key) ∧
    ∀ call c, w.calls call = some c → aliasId v5 c.key = aliasId v5 key → c.key = key

/-- The policy still allows a write on the row that it finds: it would not refuse it, and
a proof that it displaces is one that the call has seen. -/
def StillAllowed (v5 : String → Uuid) (lowercase : String → String) (w : AliasWorld)
    (a : AliasAction) : Prop :=
  match a with
  | .starts _ _ kind externalId =>
    ∀ key, normalizeAlias lowercase kind externalId = .ok key → Unshared v5 w key
  | .writes call _ =>
    ∀ userId confidence key tookAProof,
      w.calls call = some ⟨.attribute userId confidence, key, .writing tookAProof⟩ →
      let held := (w.rows (aliasId v5 key)).bind AliasRow.held
      ¬ (UserProfile.decide held userId confidence).Refuses ∧
        (displacedAProof held userId = true → tookAProof = true)
  | .deletes call =>
    ∀ userId key row, w.calls call = some ⟨.revoke userId, key, .deleting⟩ →
      w.rows (aliasId v5 key) = some row →
      row.userId.text = userId
  | _ => True

/-- What holds in every state of such a run. -/
structure AliasInv
    (v5 : String → Uuid) (parseUuid : String → Option Uuid) (w : AliasWorld) : Prop where
  sharesNoRow : SharesNoRow v5 w
  honest : ∀ call e, w.ended call = some e → e.Honest parseUuid

theorem honest_of_quiet {answer : Except AliasError AliasOutcome} :
    EndedCall.Honest parseUuid ⟨request, answer, none⟩ := by
  constructor
  · intro _
    rfl
  · intro userId confidence row _ hreplaced
    cases hreplaced

section

variable (h : SharesNoRow v5 w)
include h

theorem SharesNoRow.finish
    {answer : Except AliasError AliasOutcome} {replaced : Option (Option AliasRow)}
    : SharesNoRow v5 (w.finish call request answer replaced) := by
  constructor
  · intro other c row hc hrow
    exact h.ownRow other c row (calls_finish hc) hrow
  · intro one other c d hc hd
    exact h.apart one other c d (calls_finish hc) (calls_finish hd)

theorem SharesNoRow.setRow (hcall : w.calls call = some c)
    (hrow : ∀ r, row = some r → r.key = c.key) :
    SharesNoRow v5 (w.setRow (aliasId v5 c.key) row) := by
  constructor
  · intro other d r hd hr
    by_cases hid : aliasId v5 d.key = aliasId v5 c.key
    · rw [hid, rows_setRow_self] at hr
      rw [hrow r hr]
      exact h.apart call other c d hcall hd hid.symm
    · rw [rows_setRow_of_ne hid] at hr
      exact h.ownRow other d r hd hr
  · exact h.apart

theorem SharesNoRow.goto (hunshared : Unshared v5 w c.key) : SharesNoRow v5 (w.goto call c) := by
  obtain ⟨hrows, hcalls⟩ := hunshared
  constructor
  · intro other d row hd hrow
    rcases calls_goto hd with ⟨_, rfl⟩ | hd
    · exact hrows row hrow
    · exact h.ownRow other d row hd hrow
  · intro one other d e hd he hid
    rcases calls_goto hd with ⟨_, rfl⟩ | hone
    · rcases calls_goto he with ⟨_, rfl⟩ | hother
      · rfl
      · exact (hcalls other e hother hid.symm).symm
    · rcases calls_goto he with ⟨_, rfl⟩ | hother
      · exact hcalls one d hone hid
      · exact h.apart one other d e hone hother hid

theorem SharesNoRow.unshared (hcall : w.calls call = some c) : Unshared v5 w c.key :=
  ⟨fun row hrow => h.ownRow call c row hcall hrow,
    fun other d hd hid => h.apart other call d c hd hcall hid⟩

end

theorem upserted_key {found : Option AliasRow} {person : Uuid} {now : Int} (hfound : ∀ row, found = some row → row.key = key) :
    (upserted found key person confidence now).key = key := by
  cases found with
  | none => rfl
  | some row => exact hfound row rfl

theorem held_of_confidence {row : AliasRow}
    (h : row.confidence = confidence.asStr) : row.held = some ⟨row.userId.text, confidence⟩ := by
  simp [AliasRow.held, h]

theorem honest_of_write {now : Int} {tookAProof : Bool} (hparse : ReadsWritten parseUuid)
    (hallowed : StillAllowed v5 lowercase w (.writes call now))
    (hcall : w.calls call = some ⟨.attribute userId confidence, key, .writing tookAProof⟩) :
    EndedCall.Honest parseUuid ⟨.attribute userId confidence, .ok (writtenOutcome tookAProof),
        some (w.rows (aliasId v5 key))⟩ := by
  constructor
  · rintro (hanswer | ⟨message, hanswer⟩) <;> cases tookAProof <;> cases hanswer
  · rintro _ _ row ⟨rfl, rfl⟩ hfound hconfirmed hother
    have hrow : w.rows (aliasId v5 key) = some row := some.inj hfound
    obtain ⟨_, hproof⟩ := hallowed userId confidence key tookAProof hcall
    have hne : row.userId.text ≠ userId := by
      intro htext
      exact hother (htext ▸ hparse row.userId)
    have htook : tookAProof = true := by
      apply hproof
      simp [hrow, held_of_confidence hconfirmed, displacedAProof, hne]
    rw [htook]
    rfl

/-- Every admitted step keeps the invariant. -/
theorem AliasInv.change (hparse : ReadsWritten parseUuid) (h : AliasInv v5 parseUuid w)
    (hallowed : StillAllowed v5 lowercase w a)
    (hchange : AliasChange v5 parseUuid lowercase w a t) : AliasInv v5 parseUuid t := by
  cases hchange with
  | ends =>
    refine ⟨h.sharesNoRow.finish, ?_⟩
    intro other e he
    rcases ended_finish he with rfl | hended
    · exact honest_of_quiet
    · exact h.honest other e hended
  | begins _ _ _ _ key haction hkey =>
    subst haction
    refine ⟨h.sharesNoRow.goto (hallowed key hkey), ?_⟩
    exact h.honest
  | goes _ c pc hcall =>
    have hunshared := h.sharesNoRow.unshared hcall
    exact ⟨h.sharesNoRow.goto (c := ⟨c.request, c.key, pc⟩) hunshared, h.honest⟩
  | writes call now _ confidence key _ person haction hcall =>
    subst haction
    have hown : ∀ row, w.rows (aliasId v5 key) = some row → row.key = key :=
      fun row hrow => h.sharesNoRow.ownRow call _ row hcall hrow
    have hkey : ∀ r, some (upserted (w.rows (aliasId v5 key)) key person confidence now) = some r →
          r.key = key := by
      rintro r ⟨rfl⟩
      exact upserted_key hown
    refine ⟨(h.sharesNoRow.setRow hcall hkey).finish, ?_⟩
    intro other e he
    rcases ended_finish he with rfl | hended
    · exact honest_of_write hparse hallowed hcall
    · exact h.honest other e hended
  | deletes _ _ key _ hcall =>
    have hkey : ∀ r : AliasRow, none = some r → r.key = key := by
      intro r hr
      cases hr
    refine ⟨(h.sharesNoRow.setRow hcall hkey).finish, ?_⟩
    intro other e he
    rcases ended_finish he with rfl | hended
    · constructor
      · rintro (hanswer | ⟨message, hanswer⟩) <;> cases hanswer
      · intro _ _ _ hrequest
        cases hrequest
    · exact h.honest other e hended

theorem eq_of_changed {id other : Uuid} {r : AliasRow}
    (hrow : w.rows other = some r) (hchanged : (w.setRow id row).rows other ≠ some r) :
    other = id := by
  by_contra hne
  rw [rows_setRow_of_ne hne] at hchanged
  exact hchanged hrow

theorem keepsProofs_of_change (hparse : ReadsWritten parseUuid) (h : AliasInv v5 parseUuid w)
    (hallowed : StillAllowed v5 lowercase w a)
    (hchange : AliasChange v5 parseUuid lowercase w a t) : KeepsProofs parseUuid w a t := by
  intro id row hrow hchanged
  cases hchange with
  | ends =>
    exact absurd hrow hchanged
  | begins =>
    exact absurd hrow hchanged
  | goes =>
    exact absurd hrow hchanged
  | writes call now userId confidence key tookAProof _ haction hcall =>
    subst haction
    have hid : id = aliasId v5 key := eq_of_changed hrow hchanged
    subst hid
    have hkey : row.key = key := h.sharesNoRow.ownRow call _ row hcall hrow
    subst hkey
    obtain ⟨hdecide, _⟩ := hallowed userId confidence row.key tookAProof hcall
    rw [hrow, bind_some] at hdecide
    constructor
    · intro hconfirmed
      rw [held_of_confidence hconfirmed] at hdecide
      have hproof : confidence = .confirmed := by
        by_contra hne
        exact hdecide (refuses_confirmed hne)
      exact .inl ⟨call, now, userId, tookAProof, rfl, hproof ▸ hcall⟩
    · intro hclaimed
      rw [held_of_confidence hclaimed] at hdecide
      by_cases hown : row.userId.text = userId
      · exact .inr (.inr ⟨call, now, userId, confidence, tookAProof, rfl, hcall,
          hown ▸ hparse row.userId⟩)
      · have hproof : confidence = .confirmed := by
          by_contra hne
          exact hdecide (refuses_claimed hown hne)
        exact .inl ⟨call, now, userId, tookAProof, rfl, hproof ▸ hcall⟩
  | deletes call userId key haction hcall =>
    subst haction
    have hid : id = aliasId v5 key := eq_of_changed hrow hchanged
    subst hid
    have hkey : row.key = key := h.sharesNoRow.ownRow call _ row hcall hrow
    subst hkey
    have hown : row.userId.text = userId := hallowed userId row.key row hcall hrow
    have hrevoked : RevokedBy w (.deletes call) row := ⟨call, rfl, hown ▸ hcall⟩
    exact ⟨fun _ => .inr hrevoked, fun _ => .inr (.inl hrevoked)⟩

/-- No call has been made yet; the rows are any. -/
structure AliasWorld.Start (w : AliasWorld) : Prop where
  noCalls : ∀ call, w.calls call = none
  noneEnded : ∀ call, w.ended call = none

theorem AliasWorld.Start.inv (h : w.Start) : AliasInv v5 parseUuid w := by
  refine ⟨⟨?_, ?_⟩, ?_⟩
  · intro call c row hc
    rw [h.noCalls call] at hc
    cases hc
  · intro call other c d hc
    rw [h.noCalls call] at hc
    cases hc
  · intro call e he
    rw [h.noneEnded call] at he
    cases he

end AliasProofs

private def alice : Uuid :=
  ⟨"00000000-0000-0000-0000-00000000000a", by decide⟩

private def bob : Uuid :=
  ⟨"00000000-0000-0000-0000-00000000000b", by decide⟩

/-- The version 5 UUID of the one text that the runs below make. -/
private def rowIds (text : String) : Uuid :=
  if text = "alias|github|alice" then
    ⟨"5929c088-f027-5d1f-ac97-6bda84767c2c", by decide⟩
  else
    ⟨"00000000-0000-5000-8000-000000000000", by decide⟩

private def asciiLower (text : String) : String :=
  String.ofList (text.toList.map Char.toLower)

private abbrev aliasStep : AliasWorld → AliasAction → Option AliasWorld :=
  step rowIds parseHyphenated asciiLower

private def unattributed : AliasWorld where
  rows := fun _ => none
  calls := fun _ => none
  ended := fun _ => none

/-- A call up to its write. -/
private def deciding (call : Nat) (person : Uuid) (confidence : Confidence) : List AliasAction :=
  [.starts call (.attribute person.text confidence) "GitHub" " alice", .checksUser call true,
    .finds call]

private def aloneProof : List AliasAction :=
  deciding 0 alice .confirmed ++ [.writes 0 1]

private theorem stillAllowed_of_noRows {w : AliasWorld} {a : AliasAction}
    (hrows : ∀ id, w.rows id = none) (hcalls : ∀ call request kind externalId,
      a = .starts call request kind externalId → ∀ other, w.calls other = none) :
    StillAllowed rowIds asciiLower w a := by
  cases a with
  | starts call request kind externalId =>
    intro key _
    constructor
    · intro row hrow
      rw [hrows] at hrow
      cases hrow
    · intro other c hc
      rw [hcalls call request kind externalId rfl other] at hc
      cases hc
  | writes =>
    intro userId confidence key tookAProof _
    simp [hrows, UserProfile.decide, Decision.Refuses, displacedAProof]
  | deletes =>
    intro userId key row _ hrow
    rw [hrows] at hrow
    cases hrow
  | checksUser => trivial
  | finds => trivial
  | fails => trivial

/-- Bob decides on his claim, then Alice proves the account, and then Bob writes. -/
private def staleClaim : List AliasAction :=
  deciding 0 bob .claimed ++ deciding 1 alice .confirmed ++ [.writes 1 1, .writes 0 2]

private theorem unattributed_start : unattributed.Start :=
  ⟨fun _ => rfl, fun _ => rfl⟩

private theorem aloneProof_allowed :
    EveryStep aliasStep (fun w a _ => StillAllowed rowIds asciiLower w a)
      unattributed aloneProof := by
  have hfirst : aliasStep unattributed (.starts 0 (.attribute alice.text .confirmed)
      "GitHub" " alice") = some (reached aliasStep unattributed (aloneProof.take 1)) := rfl
  have hsecond : aliasStep (reached aliasStep unattributed (aloneProof.take 1))
      (.checksUser 0 true) = some (reached aliasStep unattributed (aloneProof.take 2)) := rfl
  have hthird : aliasStep (reached aliasStep unattributed (aloneProof.take 2))
      (.finds 0) = some (reached aliasStep unattributed (aloneProof.take 3)) := rfl
  refine (everyStep_cons_iff hfirst).mpr ⟨?_, (everyStep_cons_iff hsecond).mpr
    ⟨trivial, (everyStep_cons_iff hthird).mpr ⟨trivial, ?_⟩⟩⟩
  · exact stillAllowed_of_noRows (fun _ => rfl) (fun _ _ _ _ _ _ => rfl)
  · intro t _
    refine ⟨stillAllowed_of_noRows (fun _ => rfl) ?_, trivial⟩
    intro _ _ _ _ haction
    cases haction

end UserProfile
end StudioWeb
