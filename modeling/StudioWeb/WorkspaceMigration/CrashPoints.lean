import StudioWeb.WorkspaceMigration.MigrationService

/-!
# What the migration service keeps at every point

The conditions under which a migration survives, and what then holds of the files and the
journal wherever the service is stopped.

`Kept` is what holds wherever the service may crash; `Rest` is what holds where it runs
nothing.  Between the write of the canonical file and the write of the journal that serves it
neither does, and the conditions ask for no crash there.
-/

namespace StudioWeb
namespace WorkspaceMigration

open CrashPrograms
open CrashPrograms.Program (perform fail)
open WorkspaceConfig (inspectRawToml)

variable (env : Environment)

def ValidText (raw : List Char) : Prop := (inspectRawToml env.workdirInside raw).isSome = true

instance (raw : List Char) : Decidable (ValidText env raw) :=
  inferInstanceAs (Decidable (_ = true))

def World.Valid (w : World) : Prop := w.canonical.any (fun raw => decide (ValidText env raw)) = true

instance (w : World) : Decidable (w.Valid env) :=
  inferInstanceAs (Decidable (_ = true))

def World.phase (w : World) : Option TransactionPhase :=
  w.journal.transaction.map WorkspaceMigrationTransaction.phase

def World.Served (w : World) : Prop :=
  w.journal.modeOverride = some .canonicalShadow ∨
    w.journal.modeOverride = some .canonicalActive ∧ w.activation.isSome = true

instance (w : World) : Decidable w.Served :=
  inferInstanceAs (Decidable (_ ∨ _ ∧ _))

/-- A file was written and is on record as such, but would not be served as a shadow. -/
def World.HalfWay (w : World) : Prop :=
  (w.phase = some .written ∨ w.phase = some .rollbackAvailable) ∧
    w.journal.modeOverride ≠ some .canonicalShadow ∧ w.activation = none ∧ w.Valid env

/-- A file was removed and is not on record as such. -/
def World.HalfBack (w : World) : Prop :=
  (w.phase = some .written ∨ w.phase = some .rollbackAvailable) ∧ w.hand = .nobody

def World.Compared (w : World) : Prop :=
  w.activation.isSome = true ∨ ∀ c, w.journal.comparison = some c → c.madeOf = w.contents

/-- What is asked of others that put a valid canonical file in place. -/
def World.MayBeServed (c : Option Call) (w : World) : Prop :=
  (w.Served ∧ ((∃ id, c = some (.rollbackMigration id)) → w.Valid env)) ∨
    (c = some .applyMigration ∧ w.phase = some .rollbackAvailable ∧ w.activation = none ∧
      ∃ id, w.hand = .ours id)

def conditions : Conditions World FileOp Call Edit where
  crash := fun c w =>
    w.phase ≠ some .pendingWrite ∧ (c = some .applyMigration → ¬ w.HalfWay env) ∧ ¬ w.HalfBack
  edit := fun c e w =>
    (∀ raw, e = .canonical (some raw) → ValidText env raw → w.MayBeServed env c) ∧
      ((∃ acknowledged, c = some (.activateCanonical acknowledged)) → (edit e w).Compared)
  call := fun c w => (∃ acknowledged, c = .activateCanonical acknowledged) → w.Compared
  exec := fun _ op _ => ∀ raw, op = .writeCanonical raw → ValidText env raw

section Invariant

/-- What holds wherever the service may crash. -/
structure Kept (w : World) : Prop where
  served : w.Valid env → w.Served
  good : ∀ a, w.activation = some a → a.compared = a.present
  ours : ∀ id, w.hand = .ours id → ∃ raw t,
    w.canonical = some raw ∧ ValidText env raw ∧ w.journal.transaction = some t ∧
      t.transactionId = id ∧ t.payloadHash = env.sha256 raw ∧
      (t.phase = .rollbackAvailable ∧ t.rollbackAvailable = true ∧
          t.rollbackDeadline.isSome = true ∨
        t.phase = .written ∧ w.journal.modeOverride = some .canonicalShadow)
  phases : ∀ t, w.journal.transaction = some t → t.phase ≠ .pendingWrite ∧
      (t.phase = .written ∨ t.phase = .rollbackAvailable →
        w.hand = .ours t.transactionId ∨ w.hand = .others)

/-- What holds where the service runs nothing: a transaction that is still `written` has lost
its file to others. -/
def Rest (w : World) : Prop := Kept env w ∧ (w.phase = some .written → w.hand = .others)

variable {env}

variable {w : World} {c : Option Call}

theorem World.valid_of_canonical {raw : List Char} (hcanonical : w.canonical = some raw)
    (hraw : ValidText env raw) : w.Valid env := by
  simp [World.Valid, hcanonical, hraw]

theorem World.not_valid_of_missing (hcanonical : w.canonical = none) :
    ¬ w.Valid env := by
  simp [World.Valid, hcanonical]

theorem World.phase_of_transaction {t : WorkspaceMigrationTransaction}
    (h : w.journal.transaction = some t) : w.phase = some t.phase := by
  simp [World.phase, h]

section

variable (h : Kept env w)
include h

theorem Kept.served_of_ours {id : String} (hours : w.hand = .ours id) :
    w.Served := by
  obtain ⟨raw, t, hcanonical, hraw, _⟩ := h.ours id hours
  exact h.served (World.valid_of_canonical hcanonical hraw)

theorem Kept.others_of_missing {t : WorkspaceMigrationTransaction}
    (hcanonical : w.canonical = none) (ht : w.journal.transaction = some t)
    (hphase : t.phase = .written ∨ t.phase = .rollbackAvailable) : w.hand = .others := by
  rcases (h.phases t ht).2 hphase with hours | hothers
  · obtain ⟨raw, _, hsome, _⟩ := h.ours _ hours
    rw [hcanonical] at hsome
    cases hsome
  · exact hothers

theorem Kept.rest_of_missing (hcanonical : w.canonical = none) :
    Rest env w := by
  refine ⟨h, fun hphase => ?_⟩
  cases ht : w.journal.transaction with
  | none =>
    simp [World.phase, ht] at hphase
  | some t =>
    have hwritten : t.phase = .written := by simpa [World.phase, ht] using hphase
    exact h.others_of_missing hcanonical ht (.inl hwritten)

theorem Kept.rest_of_phase (hphase : w.phase ≠ some .written) :
    Rest env w :=
  ⟨h, fun hwritten => absurd hwritten hphase⟩

theorem Kept.served_of_mayBeServed (hmay : w.MayBeServed env c) : w.Served := by
  rcases hmay with ⟨hserved, _⟩ | ⟨_, _, _, id, hours⟩
  · exact hserved
  · exact h.served_of_ours hours

/-- **Others keep what is kept**, whatever call runs. -/
theorem Kept.edited {e : Edit} (he : (conditions env).edit c e w) : Kept env (edit e w) := by
  cases e with
  | canonical content =>
    constructor
    · intro hvalid
      cases content with
      | none =>
        exact absurd hvalid (World.not_valid_of_missing rfl)
      | some raw =>
        have hraw : ValidText env raw := by simpa [World.Valid, edit] using hvalid
        exact h.served_of_mayBeServed (he.1 raw rfl hraw)
    · exact h.good
    · intro id hours
      cases hours
    · intro t ht
      exact ⟨(h.phases t ht).1, fun _ => .inr rfl⟩
  | legacy =>
    exact ⟨h.served, h.good, h.ours, h.phases⟩
  | inline =>
    exact ⟨h.served, h.good, h.ours, h.phases⟩
  | wait =>
    exact ⟨h.served, h.good, h.ours, h.phases⟩

end

/-- Others keep what is at rest. -/
theorem Rest.edited {e : Edit} (h : Rest env w)
    (he : (conditions env).edit c e w) : Rest env (edit e w) := by
  refine ⟨h.1.edited he, ?_⟩
  cases e with
  | canonical =>
    exact fun _ => rfl
  | legacy =>
    exact h.2
  | inline =>
    exact h.2
  | wait =>
    exact h.2

@[simp] theorem edit_journal (e : Edit) (w : World) : (edit e w).journal = w.journal := by
  cases e <;> rfl

@[simp] theorem edit_activation (e : Edit) (w : World) : (edit e w).activation = w.activation := by
  cases e <;> rfl

end Invariant

section Reading

variable {env}
variable {c : Call}
variable {P : World → Prop}
variable {α : Type}
variable {Q : Except String α → World → Prop}
variable {w : World}

/-- What `load` gives of the files. -/
def loaded (env : Environment) (w : World) : WorkspaceConfigLoadResult :=
  match w.canonical with
  | some raw => inspect env raw
  | none => if w.legacy.isSome then .legacy else .missing

/-- A predicate that others keep and that allows a crash. -/
structure Holds (env : Environment) (c : Call) (P : World → Prop) : Prop where
  stable : Stable (service env) (conditions env) c P
  crash : ∀ w, P w → (conditions env).crash (some c) w → Kept env w

section

variable (hP : Holds env c P)
include hP

theorem Holds.perform {op : FileOp} {f : op.Answer → Migration α} (hw : P w)
    (hnext : ∀ t choice, P t → (conditions env).exec c op t →
      Keeps (service env) (conditions env) (Kept env) c Q
        (f (answer op choice t).1) (answer op choice t).2) :
    Keeps (service env) (conditions env) (Kept env) c Q (Program.perform op >>= f) w :=
  keeps_perform hP.stable hw hP.crash hnext

/-- `load` keeps what others keep; it gives what was there at its last operation. -/
theorem keeps_load {f : WorkspaceConfigLoadResult → Migration α} (hw : P w)
    (hfail : ∀ t error, P t → t.canonical = none → Q (.error error) t)
    (hnext : ∀ t, P t → Keeps (service env) (conditions env) (Kept env) c Q (f (loaded env t)) t) :
    Keeps (service env) (conditions env) (Kept env) c Q (load env >>= f) w := by
  apply keeps_bind
  apply hP.perform hw
  intro t _ ht _
  show Keeps _ _ _ _ _
    (if t.canonical.isSome then _ else if t.legacy.isSome then _ else _ : Migration _) t
  cases hstat : t.canonical with
  | some =>
    rw [if_pos Option.isSome_some]
    apply hP.perform ht
    intro u _ hu _
    show Keeps _ _ _ _ _ (match u.canonical with | some raw => _ | none => _ : Migration _) u
    cases hraw : u.canonical with
    | some =>
      have hnext := hnext u hu
      rw [loaded, hraw] at hnext
      exact hnext
    | none =>
      exact hfail u _ hu hraw
  | none =>
    have hnext := hnext t ht
    rw [loaded, hstat] at hnext
    rw [if_neg (by simp)]
    by_cases hlegacy : t.legacy.isSome = true
    · simp only [hlegacy, if_true] at hnext ⊢
      exact hnext
    · simp only [hlegacy] at hnext ⊢
      exact hnext

theorem keeps_detectMigrationSource {f : Option SourceCandidate → Migration α}
    (hw : P w) (hfail : ∀ t error, P t → Q (.error error) t)
    (hnext : ∀ t source, P t → Keeps (service env) (conditions env) (Kept env) c Q (f source) t) :
    Keeps (service env) (conditions env) (Kept env) c Q (detectMigrationSource env >>= f) w := by
  apply keeps_bind
  apply hP.perform hw
  intro t _ ht _
  dsimp only [answer]
  cases t.legacy with
  | some =>
    exact hnext t _ ht
  | none =>
    apply hP.perform ht
    intro u _ hu _
    dsimp only [answer]
    cases u.inline with
    | missing =>
      exact hnext u _ hu
    | broken =>
      exact hfail u _ hu
    | plain =>
      exact hnext u _ hu
    | workspace =>
      exact hnext u _ hu

theorem keeps_requireMigrationSource {f : SourceCandidate → Migration α}
    (hw : P w) (hfail : ∀ t error, P t → Q (.error error) t)
    (hnext : ∀ t source, P t → Keeps (service env) (conditions env) (Kept env) c Q (f source) t) :
    Keeps (service env) (conditions env) (Kept env) c Q (requireMigrationSource env >>= f) w := by
  apply keeps_bind
  refine keeps_detectMigrationSource hP hw (fun t error ht => hfail t error ht) ?_
  intro t source ht
  cases source with
  | some source =>
    exact hnext t source ht
  | none =>
    exact hfail t _ ht

theorem keeps_computeStartupState {loadResult : WorkspaceConfigLoadResult}
    {persistedState : WorkspaceMigrationPersistedState}
    {f : WorkspaceMigrationStartupState → Migration α} (hw : P w)
    (hfail : ∀ t error, P t → Q (.error error) t)
    (hnext : ∀ t state, P t → Keeps (service env) (conditions env) (Kept env) c Q (f state) t) :
    Keeps (service env) (conditions env) (Kept env) c Q
      (computeStartupState env loadResult persistedState >>= f) w := by
  apply keeps_bind
  refine keeps_detectMigrationSource hP hw (fun t error ht => hfail t error ht) ?_
  intro t source ht
  exact hnext t _ ht

/-- `refresh` keeps what others keep, and gives the journal. -/
theorem keeps_refresh {j : WorkspaceMigrationPersistedState} (hj : ∀ t, P t → t.journal = j)
    {f : WorkspaceConfigLoadResult × WorkspaceMigrationPersistedState ×
      WorkspaceMigrationStartupState → Migration α}
    (hw : P w) (hfail : ∀ t error, P t → Q (.error error) t) (hnext : ∀ t loadResult state, P t →
      Keeps (service env) (conditions env) (Kept env) c Q (f (loadResult, j, state)) t) :
    Keeps (service env) (conditions env) (Kept env) c Q (refresh env >>= f) w := by
  apply keeps_bind
  refine keeps_load hP hw (fun t error ht _ => hfail t error ht) ?_
  intro t ht
  apply hP.perform ht
  intro u choice hu _
  have hread : (answer .readJournal choice u).1 = j := hj u hu
  rw [hread]
  refine keeps_computeStartupState hP hu (fun t error ht => hfail t error ht) ?_
  intro v state hv
  exact hnext v _ state hv

theorem keeps_report {Q : Except String WorkspaceMigrationStatusResponse → World → Prop}
    {j persistedState : WorkspaceMigrationPersistedState} {loadResult : WorkspaceConfigLoadResult}
    (hj : ∀ t, P t → t.journal = j) (hw : P w) (hend : ∀ t r, P t → Q r t) :
    Keeps (service env) (conditions env) (Kept env) c Q
      (computeStartupState env loadResult persistedState >>= fun _ => getStatus env) w := by
  refine keeps_computeStartupState hP hw (fun t error ht => hend t _ ht) ?_
  intro t _ ht
  refine keeps_refresh hP hj ht (fun t error ht => hend t _ ht) ?_
  intro u _ _ hu
  exact hend u _ hu

end

end Reading

section AtRest

variable {env}
variable {c : Call}
variable {w : World}
variable {j : WorkspaceMigrationPersistedState}

/-- The service runs nothing yet, and its journal is this one. -/
def RestOf (env : Environment) (j : WorkspaceMigrationPersistedState) (w : World) : Prop :=
  Rest env w ∧ w.journal = j

theorem holds_restOf :
    Holds env c (RestOf env j) where
  stable := by
    intro e w hw he
    exact ⟨hw.1.edited he, (edit_journal e w).trans hw.2⟩
  crash := fun w hw _ => hw.1.1

theorem keeps_report_at_rest {persistedState : WorkspaceMigrationPersistedState}
    {loadResult : WorkspaceConfigLoadResult} (hw : RestOf env j w) :
    Keeps (service env) (conditions env) (Kept env) c (fun _ => Rest env)
      (computeStartupState env loadResult persistedState >>= fun _ => getStatus env) w :=
  keeps_report holds_restOf (fun _ ht => ht.2) hw fun _ _ ht => ht.1

variable {s : WorkspaceMigrationPersistedState}

theorem World.activationAfter_false {a : Activation}
    (ha : w.activationAfter s false = some a) : w.activation = some a := by
  simp only [World.activationAfter] at ha
  split at ha
  · cases hw : w.activation with
    | some =>
      rw [hw] at ha
      exact ha
    | none =>
      rw [hw] at ha
      cases ha
  · cases ha

theorem World.served_of_mode
    (hmode : s.modeOverride = w.journal.modeOverride) (hserved : w.Served) :
    World.Served { w with journal := s, activation := w.activationAfter s false } := by
  rcases hserved with hshadow | ⟨hactive, hsome⟩
  · exact .inl (hmode.trans hshadow)
  · refine .inr ⟨hmode.trans hactive, ?_⟩
    obtain ⟨a, ha⟩ := Option.isSome_iff_exists.mp hsome
    simp [World.activationAfter, hmode.trans hactive, ha]

/-- A journal with the same mode and transaction leaves the service at rest. -/
theorem Rest.written (h : Rest env w) (hmode : s.modeOverride = w.journal.modeOverride)
    (htransaction : s.transaction = w.journal.transaction) :
    Rest env { w with journal := s, activation := w.activationAfter s false } := by
  refine ⟨⟨?_, ?_, ?_, ?_⟩, ?_⟩
  · exact fun hvalid => World.served_of_mode hmode (h.1.served hvalid)
  · exact fun a ha => h.1.good a (World.activationAfter_false ha)
  · intro id hours
    obtain ⟨raw, t, hcanonical, hraw, ht, hrest⟩ := h.1.ours id hours
    refine ⟨raw, t, hcanonical, hraw, htransaction.trans ht, ?_⟩
    simp only [hmode]
    exact hrest
  · intro t ht
    exact h.1.phases t (htransaction.symm.trans ht)
  · intro hphase
    refine h.2 ?_
    rw [World.phase, ← htransaction]
    exact hphase

theorem keeps_getStatus (hw : Rest env w) :
    Keeps (service env) (conditions env) (Kept env) c (fun _ => Rest env) (getStatus env) w := by
  refine keeps_refresh (holds_restOf (j := w.journal)) (fun _ ht => ht.2) ⟨hw, rfl⟩
    (fun _ _ ht => ht.1) ?_
  intro t _ _ ht
  exact ht.1

/-- `previewMigration` keeps the service at rest. -/
theorem keeps_previewMigration (hw : Rest env w) :
    Keeps (service env) (conditions env) (Kept env) c (fun _ => Rest env)
      (previewMigration env) w := by
  refine keeps_refresh (holds_restOf (j := w.journal)) (fun _ ht => ht.2) ⟨hw, rfl⟩
    (fun _ _ ht => ht.1) ?_
  intro t loadResult _ ht
  refine keeps_requireMigrationSource holds_restOf ht (fun _ _ ht => ht.1) ?_
  intro u candidate hu
  by_cases hcanonical : loadResult.isCanonical = true
  · simp only [hcanonical, if_true]
    exact hu.1
  · simp only [hcanonical]
    apply holds_restOf.perform hu
    intro v _ hv _
    have hrest := hv.1.written (s :=
        { w.journal with
          preview := some (buildPreview env loadResult candidate)
          comparison := none }) (by rw [hv.2]) (by rw [hv.2])
    exact keeps_report_at_rest ⟨hrest, rfl⟩

/-- `compareShadow` keeps the service at rest. -/
theorem keeps_compareShadow (hw : Rest env w) :
    Keeps (service env) (conditions env) (Kept env) c (fun _ => Rest env)
      (compareShadow env) w := by
  refine keeps_refresh (holds_restOf (j := w.journal)) (fun _ ht => ht.2) ⟨hw, rfl⟩
    (fun _ _ ht => ht.1) ?_
  intro t loadResult _ ht
  refine keeps_requireMigrationSource holds_restOf ht (fun _ _ ht => ht.1) ?_
  intro u candidate hu
  match loadResult with
  | .missing =>
    exact hu.1
  | .legacy =>
    exact hu.1
  | .canonical _ _ none _ =>
    exact hu.1
  | .canonical rawToml revision (some config) diagnostics =>
    apply holds_restOf.perform hu
    intro v _ hv _
    have hrest := hv.1.written (s :=
        { w.journal with
          comparison :=
            some (buildComparison env w.journal candidate rawToml config diagnostics) })
      (by rw [hv.2]) (by rw [hv.2])
    exact keeps_report_at_rest ⟨hrest, rfl⟩

end AtRest

end WorkspaceMigration
end StudioWeb
