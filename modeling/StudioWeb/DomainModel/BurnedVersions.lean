import StudioWeb.DomainModel.VersionStore

/-!
# Edits and reverts past burned versions

The two loops of the service that claim a version, run by one process while no
other one writes.  A writer that died between its claim and its write leaves the
number taken and the head behind it.

An edit numbers past every claim that it has seen refused.  A revert asks for the
number after the head on every attempt.
-/

namespace StudioWeb
namespace DomainModel

open JsonText

/-- How one pass of a loop ended. -/
inductive Pass where
  | returned (answer : Except String Nat) (p : Process) (s : ModelStore)
  | taken (p : Process)

/-- Attempts until one does not find its version taken. -/
def attempts (pass : Process → ModelStore → Pass) :
    Nat → Process → ModelStore → Except String Nat × Process × ModelStore
  | 0, p, s => (.error contended, p, s)
  | n + 1, p, s =>
    match pass p s with
    | .returned answer p s => (answer, p, s)
    | .taken p => attempts pass n p s

def writeChange (change : Change) (version : Nat) (s : ModelStore) : ModelStore :=
  (s.writeTypes change.next change.touched).writeModel change.next version

def editPass (edit : ModelEdit) (p : Process) (s : ModelStore) : Pass :=
  let p := p.modelCurrent s
  match p.cache with
  | none => .returned (.error notStored) p s
  | some current =>
    match edit current.ontology with
    | .error error => .returned (.error error) p s
    | .ok none => .returned (.ok current.version) p s
    | .ok (some change) =>
      match s.claim (change.revision p.nextVersion) with
      | none => .taken ((p.noteClaimed s).reload s)
      | some s =>
        match change.touched.find? fun id => !change.next.hasEntity id with
        | some id => .returned (unknownType id) p s
        | none =>
          .returned (.ok p.nextVersion) (p.adopt change.next p.nextVersion)
            (writeChange change p.nextVersion s)

def editLoop (edit : ModelEdit) (p : Process) (s : ModelStore) :
    Except String Nat × Process × ModelStore :=
  attempts (editPass edit) EDIT_ATTEMPTS p s

def undoneBy (s : ModelStore) (toVersion head : Nat) : List Revision :=
  s.revisions.filter fun r => decide (toVersion < r.version) && decide (r.version ≤ head)

/-- Apply the inverses in the given order. -/
def undoAll (undone : List Revision) (o : Ontology) : Except String Ontology :=
  undone.foldlM (fun o r =>
      match applyPatch r.undo o with
      | some o => .ok o
      | none => .error s!"v{r.version}: inverse patch does not apply")
    o

/-- What a revert records: its inverse is what it undid, oldest first. -/
def revertRevision (toVersion version : Nat) (undone : List Revision) : Revision :=
  { version := version
    op := "revert"
    target := ""
    summary := s!"revert to v{toVersion} ({undone.length} change(s) undone)"
    patch := undone.flatMap Revision.undo
    undo := undone.reverse.flatMap Revision.patch }

def seedRevision (entities : Nat) : Revision :=
  { version := 0
    op := "seed"
    target := ""
    summary := s!"model stored, {entities} entities"
    patch := []
    undo := [] }

/-- `sync_model`: write the cached model whole. It reads the model through the
cache, which is reloaded first when a check of the head is `due` (ten seconds have
passed since the last one) and finds another head. -/
def syncModel (due : Bool) (p : Process) (s : ModelStore) : Process × ModelStore :=
  let p := if due then p.modelCurrent s else p
  match p.cache with
  | none => (p, s)
  | some c =>
    let s := (s.writeAllTypes c.ontology).writeModel c.ontology c.version
    if c.version = 0 then
      match s.claim (seedRevision c.ontology.entities.length) with
      | none => (p.noteClaimed s, s)
      | some s => (p, s)
    else
      (p, s)

def revertPass (due : Bool) (toVersion : Nat) (p : Process) (s : ModelStore) : Pass :=
  let p := p.modelCurrent s
  match p.cache with
  | none => .returned (.error notStored) p s
  | some current =>
    let head := current.version
    if head < toVersion then
      .returned (.error s!"no such model version: {toVersion} (head is {head})") p s
    else if toVersion = head then
      .returned (.ok head) p s
    else
      let undone := undoneBy s toVersion head
      match undone.find? fun r => !r.isReversible with
      | some blocker =>
        .returned (.error (s!"cannot revert past v{blocker.version}: " ++
          s!"it is a `{blocker.op}` and records no inverse")) p s
      | none =>
        match undoAll undone current.ontology with
        | .error error => .returned (.error error) p s
        | .ok reverted =>
          let next := (keepHeldFrom reverted current.ontology).1
          match s.claim (revertRevision toVersion (head + 1) undone) with
          | none => .taken ((p.noteClaimed s).reload s)
          | some s =>
            let written := syncModel due (p.adopt next (head + 1)) s
            .returned (.ok (head + 1)) written.1 written.2

def revertLoop (due : Bool) (toVersion : Nat) (p : Process) (s : ModelStore) :
    Except String Nat × Process × ModelStore :=
  attempts (revertPass due toVersion) EDIT_ATTEMPTS p s

section Edits

variable {edit : ModelEdit} {p : Process} {s : ModelStore}

/-- The edits that touch only types the changed document has. -/
def TouchesOwn (edit : ModelEdit) : Prop :=
  ∀ o c, edit o = .ok (some c) → ∀ id ∈ c.touched, c.next.hasEntity id = true

theorem touchesOwn_edit (studio : Ontology) (request : EditRequest) :
    TouchesOwn (request.edit studio) :=
  fun _ _ h => EditRequest.touched_isSome h

theorem nextVersion_free (h : s.topVersion ≤ p.claimed) : s.isClaimed p.nextVersion = false := by
  rw [Bool.eq_false_iff]
  intro hclaimed
  obtain ⟨r, hr, hversion⟩ := isClaimed_iff.mp hclaimed
  have htop := version_le_topVersion hr
  unfold Process.nextVersion at hversion
  omega

/-- An attempt of an edit that the current model accepts succeeds, or finds its
version taken. -/
theorem editPass_accepted {c : Cache} (hown : TouchesOwn edit)
    (hcurrent : p.modelCurrent s = { p with cache := some c })
    (haccepts : ∃ r, edit c.ontology = .ok r) :
    (∃ version q t, editPass edit p s = .returned (.ok version) q t) ∨
      (s.isClaimed (max c.version p.claimed + 1) = true ∧ editPass edit p s =
          .taken ((({ p with cache := some c } : Process).noteClaimed s).reload s)) := by
  obtain ⟨r, hr⟩ := haccepts
  have hnext : ({ p with cache := some c } : Process).nextVersion =
      max c.version p.claimed + 1 := rfl
  cases r with
  | none =>
    refine Or.inl ⟨c.version, { p with cache := some c }, s, ?_⟩
    simp only [editPass, hcurrent, hr]
  | some change =>
    cases hclaim : s.claim (change.revision (max c.version p.claimed + 1)) with
    | none =>
      refine Or.inr ⟨claim_eq_none.mp hclaim, ?_⟩
      simp only [editPass, hcurrent, hr, hnext, hclaim]
    | some t =>
      have hnone : change.touched.find? (fun id => !change.next.hasEntity id) = none := by
        rw [List.find?_eq_none]
        intro id hid
        simp [hown _ _ hr id hid]
      refine Or.inl ⟨max c.version p.claimed + 1, p.adopt change.next (max c.version p.claimed + 1),
        writeChange change (max c.version p.claimed + 1) t, ?_⟩
      simp only [editPass, hcurrent, hr, hnext, hclaim, hnone]
      rfl

theorem editPass_after_taken {c : Cache} (hown : TouchesOwn edit) (hload : s.load = some c)
    (haccepts : ∃ r, edit c.ontology = .ok r) :
    ∃ version q t, editPass edit ((p.noteClaimed s).reload s) s = .returned (.ok version) q t := by
  rw [reload_of_load hload]
  have hcurrent := modelCurrent_of_load (p := { (p.noteClaimed s) with cache := some c }) hload rfl
  rcases editPass_accepted hown hcurrent haccepts with hdone | ⟨hclaimed, _⟩
  · exact hdone
  · have hfree := nextVersion_free (s := s)
      (p := { (p.noteClaimed s) with cache := some c }) (le_max_right _ _)
    rw [Bool.eq_false_iff] at hfree
    exact absurd hclaimed hfree

/-- **Edits are never blocked.** -/
theorem editLoop_succeeds (hown : TouchesOwn edit) (hstored : s.load.isSome)
    (haccepts : ∀ c, (p.modelCurrent s).cache = some c ∨ s.load = some c →
      ∃ r, edit c.ontology = .ok r) :
    ∃ version, (editLoop edit p s).1 = .ok version := by
  obtain ⟨loaded, hload⟩ := Option.isSome_iff_exists.mp hstored
  obtain ⟨c, hcurrent, _⟩ := modelCurrent_version (p := p) hstored
  have hfirst : ∃ r, edit c.ontology = .ok r := by
    refine haccepts c (Or.inl ?_)
    rw [hcurrent]
  have hsecond := haccepts loaded (Or.inr hload)
  unfold editLoop EDIT_ATTEMPTS
  rcases editPass_accepted hown hcurrent hfirst with ⟨version, q, t, hpass⟩ | ⟨_, hpass⟩
  · exact ⟨version, by simp [attempts, hpass]⟩
  · obtain ⟨version, q, t, hagain⟩ :=
      editPass_after_taken (p := { p with cache := some c }) hown hload hsecond
    exact ⟨version, by simp [attempts, hpass, hagain]⟩

end Edits

section Reverts

variable {due : Bool} {toVersion : Nat} {p : Process} {s : ModelStore}

/-- Nothing in the range lacks an inverse, and the inverses apply. -/
def Undoable (toVersion : Nat) (c : Cache) (s : ModelStore) : Prop :=
  (∀ r ∈ undoneBy s toVersion c.version, r.isReversible = true) ∧
    ∃ o, undoAll (undoneBy s toVersion c.version) c.ontology = .ok o

theorem revertPass_cases (due : Bool) {c : Cache}
    (hcurrent : p.modelCurrent s = { p with cache := some c }) (hlt : toVersion < c.version) :
    (Undoable toVersion c s ∧ s.isClaimed (c.version + 1) = false ∧
      ∃ q t, revertPass due toVersion p s = .returned (.ok (c.version + 1)) q t) ∨
    (¬ Undoable toVersion c s ∧ ∃ error q t, revertPass due toVersion p s = .returned (.error error) q t) ∨
    (s.isClaimed (c.version + 1) = true ∧
      revertPass due toVersion p s =
        .taken ((({ p with cache := some c } : Process).noteClaimed s).reload s)) := by
  have hnot : ¬ c.version < toVersion := by omega
  have hne : toVersion ≠ c.version := by omega
  simp only [revertPass, hcurrent, if_neg hnot, if_neg hne]
  cases hblocker : (undoneBy s toVersion c.version).find? (fun r => !r.isReversible) with
  | some blocker =>
    refine Or.inr (Or.inl ⟨?_, _, _, _, rfl⟩)
    rintro ⟨hreversible, _⟩
    have hb := List.find?_some hblocker
    simp [hreversible blocker (List.mem_of_find?_eq_some hblocker)] at hb
  | none =>
    have hreversible : ∀ r ∈ undoneBy s toVersion c.version, r.isReversible = true := by
      intro r hr
      simpa using List.find?_eq_none.mp hblocker r hr
    dsimp only
    cases hundo : undoAll (undoneBy s toVersion c.version) c.ontology with
    | error =>
      refine Or.inr (Or.inl ⟨?_, _, _, _, rfl⟩)
      rintro ⟨_, o, ho⟩
      rw [hundo] at ho
      cases ho
    | ok reverted =>
      dsimp only
      cases hclaim : s.claim
          (revertRevision toVersion (c.version + 1) (undoneBy s toVersion c.version)) with
      | none => exact Or.inr (Or.inr ⟨claim_eq_none.mp hclaim, rfl⟩)
      | some t =>
        exact Or.inl ⟨⟨hreversible, reverted, hundo⟩, (claim_eq_some hclaim).1, _, _, rfl⟩

theorem attempts_revert_blocked (hstored : s.load.isSome) (hlt : toVersion < s.model.version)
    (hclaimed : s.isClaimed (s.model.version + 1) = true) :
    ∀ (n : Nat) (p : Process) (version : Nat),
      (attempts (revertPass due toVersion) n p s).1 ≠ .ok version
  | 0, _, version => by
    simp [attempts]
  | n + 1, p, version => by
    obtain ⟨c, hcurrent, hversion⟩ := modelCurrent_version (p := p) hstored
    have hlt' : toVersion < c.version := by rw [hversion]; exact hlt
    rcases revertPass_cases due hcurrent hlt' with
      ⟨_, hfree, _⟩ | ⟨_, error, q, t, hpass⟩ | ⟨_, hpass⟩
    · rw [hversion, hclaimed] at hfree
      cases hfree
    · simp [attempts, hpass]
    · simp only [attempts, hpass]
      exact attempts_revert_blocked hstored hlt hclaimed n _ version

/-- **When a revert succeeds.** -/
theorem revertLoop_succeeds_iff (due : Bool) {c : Cache}
    (hcurrent : p.modelCurrent s = { p with cache := some c })
    (hversion : c.version = s.model.version) (hstored : s.load.isSome)
    (hlt : toVersion < c.version) :
    (∃ version, (revertLoop due toVersion p s).1 = .ok version) ↔
      Undoable toVersion c s ∧ s.isClaimed (c.version + 1) = false := by
  unfold revertLoop EDIT_ATTEMPTS
  rcases revertPass_cases due hcurrent hlt with
    ⟨hundoable, hfree, q, t, hpass⟩ | ⟨hnot, error, q, t, hpass⟩ | ⟨hclaimed, hpass⟩
  · constructor
    · intro _
      exact ⟨hundoable, hfree⟩
    · intro _
      exact ⟨c.version + 1, by simp [attempts, hpass]⟩
  · constructor
    · rintro ⟨version, hok⟩
      simp [attempts, hpass] at hok
    · rintro ⟨hundoable, _⟩
      exact absurd hundoable hnot
  · constructor
    · rintro ⟨version, hok⟩
      rw [hversion] at hlt hclaimed
      exact absurd hok (attempts_revert_blocked hstored hlt hclaimed 4 p version)
    · rintro ⟨_, hfree⟩
      rw [hclaimed] at hfree
      cases hfree

end Reverts

inductive ModelRequest where
  | edit (request : EditRequest)
  | revert (toVersion : Nat)

def serve (studio : Ontology) (due : Bool) (request : ModelRequest) (p : Process)
    (s : ModelStore) : Except String Nat × Process × ModelStore :=
  match request with
  | .edit request => editLoop (request.edit studio) p s
  | .revert toVersion => revertLoop due toVersion p s

/-- The model itself does not refuse the request: an edit is accepted by the
documents that it can start from, and the version of a revert exists. -/
def Stands (studio : Ontology) (request : ModelRequest) (p : Process) (s : ModelStore) : Prop :=
  match request with
  | .edit request =>
    ∀ c, (p.modelCurrent s).cache = some c ∨ s.load = some c →
      ∃ r, request.edit studio c.ontology = .ok r
  | .revert toVersion => toVersion ≤ s.model.version

/-- No edit is blocked; a revert is by an inverse that does not apply, and by a claim
of the number after the head. -/
def Unblocked (request : ModelRequest) (p : Process) (s : ModelStore) : Prop :=
  match request with
  | .edit _ => True
  | .revert toVersion =>
    toVersion = s.model.version ∨
      (∀ c, (p.modelCurrent s).cache = some c → Undoable toVersion c s) ∧
        s.isClaimed (s.model.version + 1) = false

theorem revertLoop_of_head {due : Bool} {p : Process} {s : ModelStore} (hstored : s.load.isSome) :
    (revertLoop due s.model.version p s).1 = .ok s.model.version := by
  obtain ⟨c, hcurrent, hversion⟩ := modelCurrent_version (p := p) hstored
  simp [revertLoop, EDIT_ATTEMPTS, attempts, revertPass, hcurrent, hversion]

/-- **A burned version and the requests after it.** -/
theorem serve_succeeds_iff
    (studio : Ontology) (due : Bool) (request : ModelRequest) (p : Process) (s : ModelStore)
    (hstored : s.load.isSome) (hstands : Stands studio request p s) :
    (∃ version, (serve studio due request p s).1 = .ok version) ↔ Unblocked request p s := by
  cases request with
  | edit request =>
    have hok := editLoop_succeeds (touchesOwn_edit studio request) hstored hstands
    exact ⟨fun _ => trivial, fun _ => hok⟩
  | revert toVersion =>
    obtain ⟨c, hcurrent, hversion⟩ := modelCurrent_version (p := p) hstored
    have hcache : ∀ c', (p.modelCurrent s).cache = some c' ↔ c = c' := by
      intro c'
      rw [hcurrent]
      exact Option.some_inj
    have hle : toVersion ≤ s.model.version := hstands
    rcases Nat.eq_or_lt_of_le hle with heq | hlt
    · rw [heq]
      exact ⟨fun _ => Or.inl rfl, fun _ => ⟨_, revertLoop_of_head hstored⟩⟩
    · have hiff := revertLoop_succeeds_iff due hcurrent hversion hstored
        (by rw [hversion]; exact hlt)
      simp only [serve, Unblocked, hiff, hcache, hversion, forall_eq']
      constructor
      · exact Or.inr
      · rintro (heq | h)
        · omega
        · exact h

private def teamField : Json :=
  Ontology.FieldSpec.property ⟨"size", "number", none, false⟩

private def team : Json :=
  Json.object [("id", .str "team"), ("properties", .arr [teamField])]

/-- A field was added as version 1, and version 2 was claimed by a writer that died. -/
private def abandoned : ModelStore :=
  { model := ⟨[], 1, ["team"]⟩
    types := fun id => if id = "team" then some team else none
    versions :=
      [⟨2, "add_field", "team", "add field team.lead : string", [.addProperty 0 .null],
        [.removeProperty 0 1]⟩,
       ⟨1, "add_field", "team", "add field team.size : number",
        [.addProperty 0 teamField], [.removeProperty 0 0]⟩,
       seedRevision 1] }

/-- Version 0 exists and the inverse of version 1 applies, and the revert to 0 is
refused on all four attempts. -/
theorem burned_version_blocks_reverts :
    abandoned.load.isSome ∧ Stands ⟨[], []⟩ (.revert 0) ⟨none, 0⟩ abandoned ∧
      (undoneBy abandoned 0 1).all Revision.isReversible ∧
      (undoAll (undoneBy abandoned 0 1) ⟨[], [team]⟩).isOk ∧
      ¬ ∃ version,
        (serve ⟨[], []⟩ false (.revert 0) ⟨none, 0⟩ abandoned).1 = .ok version := by
  have hstored : abandoned.load.isSome := by decide +kernel
  have hstands : Stands ⟨[], []⟩ (.revert 0) ⟨none, 0⟩ abandoned := Nat.zero_le _
  refine ⟨hstored, hstands, by decide +kernel, by decide +kernel, ?_⟩
  rintro ⟨version, hok⟩
  have hclaimed : abandoned.isClaimed (abandoned.model.version + 1) = true := by decide
  exact attempts_revert_blocked hstored (by decide) hclaimed 4 _ version hok

/-- An edit of the same state numbers past the burned version. -/
theorem edit_past_burned_version :
    ∃ version, (serve ⟨[], []⟩ false
        (.edit (.addField "team" ⟨"lead", "string", none, false⟩)) ⟨none, 0⟩ abandoned).1 =
          .ok version := by
  refine (serve_succeeds_iff ⟨[], []⟩ false _ ⟨none, 0⟩ abandoned (by decide +kernel) ?_).mpr
    trivial
  intro c hc
  have hload : abandoned.load = some ⟨⟨[], [team]⟩, 1⟩ := by rfl
  have hcurrent : (Process.modelCurrent ⟨none, 0⟩ abandoned).cache = abandoned.load := by rfl
  rw [hcurrent, or_self, hload] at hc
  cases hc
  cases hedit : EditRequest.edit ⟨[], []⟩
      (.addField "team" ⟨"lead", "string", none, false⟩) ⟨[], [team]⟩ with
  | ok r => exact ⟨r, rfl⟩
  | error e =>
    have hisOk : (EditRequest.edit ⟨[], []⟩
      (.addField "team" ⟨"lead", "string", none, false⟩) ⟨[], [team]⟩).isOk = true := by
        decide +kernel
    rw [hedit] at hisOk
    cases hisOk

end DomainModel
end StudioWeb
