import StudioWeb.UserProfile.OrgInvariant

/-!
# An organization keeps an active owner
-/

namespace StudioWeb
namespace UserProfile

open LabelledRuns Option
open StudioAuthz (ROLE_OWNER)

/-- A statement that writes neither a membership nor a document. -/
def ChangePc.plain : ChangePc → Bool
  | .writing => false
  | .syncWrites _ _ => false
  | _ => true

namespace OrgWorld

/-- The grant keys of a person hold the organization-wide owner grant. -/
def owns (w : OrgWorld) (user org : Uuid) : Bool :=
  (w.documents org).any fun document => document.owns (w.people.grantKeys user)

def isOwner (w : OrgWorld) (user org : Uuid) : Bool :=
  (w.people.memberships.get? (user, org)).any MembershipRow.isActiveOwner

/-- No operation is in progress. -/
def Idle (w : OrgWorld) : Prop := ∀ op, w.ops op = none

def KeepsOwners (w t : OrgWorld) : Prop :=
  ∀ org, org ≠ PLATFORM_ROOT_TENANT_ID → w.HasOwner org → t.HasOwner org

/-- The grants are with the owners. -/
def Agrees (w : OrgWorld) : Prop :=
  ∀ user org, org ≠ PLATFORM_ROOT_TENANT_ID → w.owns user org = w.isOwner user org

/-- Nothing is in progress, every login names a person that is not merged away, and the
grants are with the owners. -/
structure Settled (w : OrgWorld) : Prop where
  idle : w.Idle
  quiet : ∀ call, w.people.calls call = none
  living :
    ∀ key row, w.people.logins.get? key = some row → w.people.Living row.userId
  agrees : w.Agrees

/-- The rule passes the membership that is written; and while no operation has failed, no
statement gets between a membership and its grant. -/
structure Ruled
    (v5 : String → Uuid) (parseUuid : String → Option Uuid)
    (firstLoginJoin : Option (Uuid × String)) (w : OrgWorld) (a : OrgAction) : Prop where
  rule :
    ∀ m, w.membershipWrite parseUuid firstLoginJoin a = some m → m.org ≠ PLATFORM_ROOT_TENANT_ID →
      w.HasOwner m.org →
      RulePasses w m
  grants : w.failed = false → GrantsFollow v5 parseUuid firstLoginJoin w a

section ActiveOwners

variable
  {v5 : String → Uuid}
  {parseUuid : String → Option Uuid}
  {trim : String → String}
  {firstLoginJoin : Option (Uuid × String)}
  {w t : OrgWorld}
  {a : OrgAction}
  {op : Nat}
  {c : MembershipChange}
  {pc : ChangePc}
  {user org : Uuid}

theorem owns_iff_view : w.owns user org = true ↔ (w.view parseUuid).Owns user org := by
  unfold owns
  cases hdocument : w.documents org with
  | none => simp [OwnerView.Owns, OwnerView.Names, view, hdocument]
  | some =>
    simp only [any_some, owns_iff, OwnerView.Owns, OwnerView.Names, view, hdocument,
      some.injEq, exists_eq_left']

theorem isOwner_iff_view : w.isOwner user org = true ↔ (w.view parseUuid).IsOwner user org := by
  unfold isOwner
  simp only [any_eq_true, OwnerView.IsOwner, view]

theorem keepsOwners_of_step (h : w.step v5 parseUuid trim firstLoginJoin a = some t)
    (hruled : Ruled v5 parseUuid firstLoginJoin w a) : KeepsOwners w t := by
  intro org hroot howner
  refine hasOwner_of_step h ?_ howner
  rintro m hwrite rfl
  exact hruled.rule m hwrite hroot

/-- **Step**: while none has failed, the invariant stays. -/
theorem orgInv_of_step (hinv : w.failed = false → OrgInv v5 parseUuid w)
    (h : w.step v5 parseUuid trim firstLoginJoin a = some t)
    (hruled : Ruled v5 parseUuid firstLoginJoin w a) :
    t.failed = false → OrgInv v5 parseUuid t := by
  intro hgood
  have hbefore : w.failed = false := by
    cases hfailed : w.failed with
    | false => rfl
    | true =>
      rw [failed_of_step hfailed h] at hgood
      cases hgood
  exact (hinv hbefore).preserved (hruled.grants hbefore) h hgood

theorem Settled.inv (h : w.Settled) : OrgInv v5 parseUuid w := by
  have hpending : ∀ n, (w.view parseUuid).pending n = none := by
    intro n
    simp [view, h.idle n]
  have hmerges : ∀ n, (w.view parseUuid).merges n = none := by
    intro n
    simp [view, h.idle n]
  have hmerging : ∀ call m unmoved, ¬ (w.people.view v5).Merges call m unmoved := by
    intro call m unmoved hcall
    simp [PeopleView.Merges, PeopleWorld.view, h.quiet call] at hcall
  refine ⟨?_, ⟨?_, ?_, ?_, ?_, ?_⟩, ?_, ⟨?_, ?_, ?_, ?_, ?_, ?_⟩⟩
  · intro n
    rw [h.idle n, h.quiet n]
    simp [Pairs]
  · intro key row hrow
    exact PeopleWorld.lives_iff.mpr (h.living key row hrow)
  · intro call other m n p q hcall
    exact absurd hcall (hmerging call m p)
  · intro call m unmoved hcall
    exact absurd hcall (hmerging call m unmoved)
  · intro call m hcall
    exact absurd hcall (hmerging call m none)
  · intro call m rest hcall
    exact absurd hcall (hmerging call m (some rest))
  · intro n fromUser intoUser pc source into hop
    rw [h.idle n] at hop
    cases hop
  · intro n user org owner hn
    rw [hpending n] at hn
    cases hn
  · intro n user org owner hn
    rw [hpending n] at hn
    cases hn
  · intro user org hroot
    have hsame := h.agrees user org hroot
    refine .inr (.inr ?_)
    rw [← owns_iff_view, ← isOwner_iff_view, hsame]
  · rintro user org ⟨n, g, hn, _⟩
    rw [hmerges n] at hn
    cases hn
  · intro n k g g' user hn
    rw [hmerges n] at hn
    cases hn
  · intro n g hn
    rw [hmerges n] at hn
    cases hn

theorem ruled_starts {request : OrgRequest} :
    Ruled v5 parseUuid firstLoginJoin w (.starts op request) := by
  refine ⟨by simp [membershipWrite], fun _ => ⟨?_, ?_, ?_, ?_, ?_, ?_, ?_, ?_, ?_, ?_⟩⟩
  all_goals simp

theorem ruled_of_plain (hop : w.ops op = some (.changes c pc)) (hplain : pc.plain = true) :
    Ruled v5 parseUuid firstLoginJoin w (.runs op) := by
  have hwriting : pc ≠ .writing := by
    rintro rfl
    cases hplain
  have hsyncing : ∀ legacyKeys document, pc ≠ .syncWrites legacyKeys document := by
    rintro legacyKeys document rfl
    cases hplain
  refine ⟨?_, fun _ => ⟨by simp, by simp, by simp, by simp, ?_, ?_, ?_, by simp, ?_, ?_⟩⟩
  · intro m hwrite
    simp only [membershipWrite, hop, bind_some, changeWrite] at hwrite
    split at hwrite
    · next heq =>
      cases heq
      exact absurd rfl hwriting
    · cases hwrite
  · rintro other d user ⟨⟩ hother
    cases hop.symm.trans hother
    exact absurd rfl hwriting
  · rintro other d legacyKeys document ⟨⟩ hother
    cases hop.symm.trans hother
    exact absurd rfl (hsyncing _ _)
  · rintro other fromUser intoUser source into ⟨⟩ hother
    cases hop.symm.trans hother
  · rintro other fromUser intoUser org rest source ⟨⟩ hother
    cases hop.symm.trans hother
  · rintro other fromUser intoUser org document rest ⟨⟩ hother
    cases hop.symm.trans hother

/-- A statement that nothing is asked of. -/
def plainAction (w : OrgWorld) : OrgAction → Bool
  | .starts _ _ => true
  | .runs op =>
    match w.ops op with
    | some (.changes _ pc) => pc.plain
    | _ => false
  | _ => false

theorem ruled_of_plainAction (hplain : plainAction w a = true) :
    Ruled v5 parseUuid firstLoginJoin w a := by
  cases a with
  | starts => exact ruled_starts
  | runs =>
    simp only [plainAction] at hplain
    split at hplain
    · next _ _ hop => exact ruled_of_plain hop hplain
    · cases hplain
  | person => cases hplain
  | fails => cases hplain

private def carol : Uuid :=
  ⟨"00000000-0000-0000-0000-00000000000c", by decide⟩

private def dan : Uuid :=
  ⟨"00000000-0000-0000-0000-00000000000d", by decide⟩

private def guild : Uuid :=
  ⟨"00000000-0000-0000-0000-0000000000aa", by decide⟩

/-- Two people, one of whom owns an organization. -/
private def oneOwner : OrgWorld where
  people :=
    { users := fun id => if id = carol ∨ id = dan then some ⟨none, none, none⟩ else none
      logins := InsertionMap.empty
      memberships := InsertionMap.empty.set (carol, guild)
        ⟨ROLE_OWNER, STATUS_ACTIVE, SOURCE_CREATION⟩
      aliases := InsertionMap.empty
      calls := fun _ => none
      answers := []
      loginMoves := 0 }
  documents := fun id =>
    if id = guild then some (setOwnerGrant freshDocument guild.text carol.text [] true) else none
  ops := fun _ => none
  failed := false

private def putsRole (user role : String) (statements : Nat) : List OrgAction :=
  .starts 0 (.put user guild.text role none none) :: List.replicate statements (.runs 0)

private abbrev orgStep : OrgWorld → OrgAction → Option OrgWorld :=
  OrgWorld.step (fun _ => guild) parseHyphenated id none

private theorem grantKeys_oneOwner :
    oneOwner.people.grantKeys user = if user = carol ∨ user = dan then [user.text] else [] := by
  unfold PeopleWorld.grantKeys
  by_cases huser : user = carol ∨ user = dan
  · simp [oneOwner, huser, PeopleWorld.loginsOf, InsertionMap.empty]
  · simp [oneOwner, huser]

private theorem owns_oneOwner : oneOwner.owns user guild = true ↔ user = carol := by
  have hdocument : oneOwner.documents guild =
      some (setOwnerGrant freshDocument guild.text carol.text [] true) := rfl
  have hgrants : ∀ key, OwnerGrant (setOwnerGrant freshDocument guild.text carol.text [] true) key ↔
        key = carol.text := by
    intro key
    rw [ownerGrant_setOwnerGrant]
    simp [OwnerGrant, freshDocument]
  simp only [owns, hdocument, any_some, owns_iff, hgrants, grantKeys_oneOwner]
  constructor
  · rintro ⟨_, hkey, rfl⟩
    split at hkey
    · exact (Uuid.ext_text (List.mem_singleton.mp hkey)).symm
    · cases hkey
  · rintro rfl
    exact ⟨_, by simp, rfl⟩

private theorem oneOwner_settled : oneOwner.Settled := by
  refine ⟨fun _ => rfl, fun _ => rfl, ?_, ?_⟩
  · intro key row hrow
    cases hrow
  · intro user org _
    by_cases horg : org = guild
    · subst horg
      refine Bool.eq_iff_iff.mpr (owns_oneOwner.trans ?_)
      by_cases huser : user = carol
      · subst huser
        exact ⟨fun _ => by decide, fun _ => rfl⟩
      · simp [isOwner, oneOwner, InsertionMap.get?_set, huser]
    · simp [owns, isOwner, oneOwner, horg, InsertionMap.get?_set]

private def beforeWrite : OrgWorld :=
  reached orgStep oneOwner (putsRole dan.text ROLE_OWNER 2)

private def beforeGrant : OrgWorld :=
  reached orgStep oneOwner (putsRole dan.text ROLE_OWNER 5)

private theorem write_ruled :
    Ruled (fun _ => guild) parseHyphenated none beforeWrite (.runs 0) := by
  have hop : beforeWrite.ops 0 = some (.changes
      ⟨dan.text, guild, some (.active ROLE_OWNER), "manual", true⟩ .writing) := rfl
  have hdan : parseHyphenated dan.text = some dan := parseHyphenated_readsWritten dan
  refine ⟨?_, fun _ => ⟨by simp, by simp, by simp, by simp, ?_, ?_, ?_, by simp, ?_, ?_⟩⟩
  · intro m hwrite _ _
    simp only [membershipWrite, hop, bind_some, changeWrite, hdan, map_some,
      some.injEq] at hwrite
    subst hwrite
    exact ⟨by decide, by decide⟩
  · rintro op c user ⟨⟩ hcall huser _
    cases hop.symm.trans hcall
    cases hdan.symm.trans huser
    refine ⟨?_, ?_, by simp⟩
    · rintro ⟨n, g, hmerge, _⟩
      cases n with
      | zero => cases hmerge
      | succ => cases hmerge
    · intro n other hpending
      cases n with
      | zero => cases hpending
      | succ => cases hpending
  · rintro op c legacyKeys document ⟨⟩ hcall
    cases hop.symm.trans hcall
  · rintro op fromUser intoUser source into ⟨⟩ hcall
    cases hop.symm.trans hcall
  · rintro op fromUser intoUser org rest source ⟨⟩ hcall
    cases hop.symm.trans hcall
  · rintro op fromUser intoUser org document rest ⟨⟩ hcall
    cases hop.symm.trans hcall

private theorem grant_ruled :
    Ruled (fun _ => guild) parseHyphenated none beforeGrant (.runs 0) := by
  have hop : beforeGrant.ops 0 = some (.changes
      ⟨dan.text, guild, some (.active ROLE_OWNER), "manual", true⟩
        (.syncWrites [] (oneOwner.documentOf guild))) := rfl
  have hdan : parseHyphenated dan.text = some dan := parseHyphenated_readsWritten dan
  have hkeys : ∀ user, beforeGrant.people.grantKeys user =
      if user = carol ∨ user = dan then [user.text] else [] := by
    intro user
    exact @grantKeys_oneOwner user
  refine ⟨?_, fun _ => ⟨by simp, by simp, by simp, by simp, ?_, ?_, ?_, by simp, ?_, ?_⟩⟩
  · intro m hwrite
    simp [membershipWrite, hop, changeWrite] at hwrite
  · rintro op c user ⟨⟩ hcall
    cases hop.symm.trans hcall
  · rintro op c legacyKeys document ⟨⟩ hcall
    cases hop.symm.trans hcall
    refine ⟨dan, hdan, rfl, by decide, rfl, ?_, ?_⟩
    · intro key
      exact Iff.rfl
    · intro other hne key hkey hsame
      rw [hkeys] at hkey hsame
      split at hkey
      · rw [if_pos (.inr rfl), List.mem_singleton] at hsame
        rw [List.mem_singleton, hsame] at hkey
        exact hne (Uuid.ext_text hkey).symm
      · cases hkey
  · rintro op fromUser intoUser source into ⟨⟩ hcall
    cases hop.symm.trans hcall
  · rintro op fromUser intoUser org rest source ⟨⟩ hcall
    cases hop.symm.trans hcall
  · rintro op fromUser intoUser org document rest ⟨⟩ hcall
    cases hop.symm.trans hcall

private theorem second_ruled :
    EveryStep orgStep (fun w a _ => Ruled (fun _ => guild) parseHyphenated none w a) oneOwner
      (putsRole dan.text ROLE_OWNER 6) := by
  have hchecked : ∀ w a (t : OrgWorld), plainAction w a = true →
      Ruled (fun _ => guild) parseHyphenated none w a :=
    fun w a _ hplain => ruled_of_plainAction hplain
  have hwrite : runActions orgStep oneOwner (putsRole dan.text ROLE_OWNER 2) = some beforeWrite :=
    runActions_reached (by decide)
  have hgrant : runActions orgStep oneOwner (putsRole dan.text ROLE_OWNER 5) = some beforeGrant :=
    runActions_reached (by decide)
  have hwritten : runActions orgStep oneOwner (putsRole dan.text ROLE_OWNER 3) =
      some (reached orgStep oneOwner (putsRole dan.text ROLE_OWNER 3)) :=
    runActions_reached (by decide)
  have hlast : putsRole dan.text ROLE_OWNER 6 = putsRole dan.text ROLE_OWNER 5 ++ [.runs 0] := rfl
  have hthird : putsRole dan.text ROLE_OWNER 5 =
      putsRole dan.text ROLE_OWNER 3 ++ [.runs 0, .runs 0] := rfl
  have hsecond : putsRole dan.text ROLE_OWNER 3 = putsRole dan.text ROLE_OWNER 2 ++ [.runs 0] := rfl
  rw [hlast]
  refine (everyStep_append_iff hgrant).mpr ⟨?_, fun t _ => ⟨grant_ruled, trivial⟩⟩
  rw [hthird]
  refine (everyStep_append_iff hwritten).mpr ⟨?_, EveryStep.of_passes hchecked (by decide)⟩
  rw [hsecond]
  refine (everyStep_append_iff hwrite).mpr ⟨?_, fun t _ => ⟨write_ruled, trivial⟩⟩
  exact EveryStep.of_passes hchecked (by decide)

end ActiveOwners

end OrgWorld

end UserProfile
end StudioWeb
