import StudioWeb.WorkspaceMigration.CallsKeep
import Mathlib.Data.Char
import Mathlib.Data.List.Lex

/-!
# A migration survives a crash

What is asked of a migration where the service runs nothing: its file is served as a shadow and
can be rolled back, the active mode comes of an activation by a comparison of the files as they
were then, and every transaction that has not ended leads on.
-/

namespace StudioWeb
namespace WorkspaceMigration

open CrashPrograms LabelledRuns Option
open CrashPrograms.Program (alone alone_bind alone_bind_of)

section Purpose

variable (env : Environment)

def servedMode (w : World) : WorkspaceStartupMode :=
  startupMode (loaded env w) w.journal w.sourceFile.isSome

/-- Rolling the transaction back, with no one else at work, removes the file. -/
def RollsBack (w : World) (id : String) : Prop :=
  ∀ choice, ∃ status w', alone answer choice (rollbackMigration env id) w = (.ok status, w') ∧
      w'.canonical = none ∧ w'.phase = some .rolledBack

/-- What is asked of a migration where the service runs nothing. -/
structure Survives (w : World) : Prop where
  /-- A file of the service is served as a shadow until an activation. -/
  shadow : ∀ id, w.hand = .ours id → w.activation = none → w.sourceFile.isSome = true →
    servedMode env w = .canonicalShadow
  /-- A file of the service can be rolled back, until the deadline of its transaction. -/
  rollback : ∀ id, w.hand = .ours id → w.sourceFile.isSome = true →
    ∃ t deadline, w.journal.transaction = some t ∧ t.transactionId = id ∧
      t.rollbackDeadline = some deadline ∧ (w.clock ≤ deadline → RollsBack env w id)
  /-- The active mode comes of an activation by a comparison of what was there. -/
  active : w.sourceFile.isSome = true → servedMode env w = .canonicalActive →
    ∃ a, w.activation = some a ∧ a.compared = a.present
  /-- A transaction has ended, or recovery leads on, or rollback does unless others have
  changed the file. -/
  leadsOn : ∀ t, w.journal.transaction = some t → t.phase = .rolledBack ∨ t.phase = .failed ∨
      t.phase = .written ∧
        (∀ choice, (alone answer choice (initializeService env) w).2.phase ≠ some .written) ∨
      t.phase = .rollbackAvailable ∧ (w.hand = .ours t.transactionId ∨ w.hand = .others)

end Purpose

section Alone

variable {env : Environment}
variable {choice : String}
variable {w : World}

@[simp] theorem alone_statConfigs :
    alone answer choice statConfigs w = (.ok (w.canonical.isSome, w.legacy.isSome), w) := by
  rfl

@[simp] theorem alone_readCanonical :
    alone answer choice readCanonical w = (.ok w.canonical, w) := by
  rfl

@[simp] theorem alone_readLegacy : alone answer choice readLegacy w = (.ok w.legacy, w) := by
  rfl

@[simp] theorem alone_readInline : alone answer choice readInline w = (.ok w.inline, w) := by
  rfl

@[simp] theorem alone_loadPersistedState :
    alone answer choice loadPersistedState w = (.ok w.journal, w) := by
  rfl

@[simp] theorem alone_dateNow : alone answer choice dateNow w = (.ok w.clock, w) := by
  rfl

@[simp] theorem alone_load : alone answer choice (load env) w = (.ok (loaded env w), w) := by
  cases hcanonical : w.canonical with
  | some =>
    simp [load, alone_bind, loaded, hcanonical]
  | none =>
    cases hlegacy : w.legacy <;>
      simp [load, alone_bind, loaded, hcanonical, hlegacy]

theorem alone_detectMigrationSource {file : SourceFile} (h : w.sourceFile = some file) :
    alone answer choice (detectMigrationSource env) w
      = (.ok (some (candidateOf env file)), w) := by
  cases hlegacy : w.legacy with
  | some =>
    simp only [World.sourceFile, hlegacy, some.injEq] at h
    subst h
    simp [detectMigrationSource, alone_bind, hlegacy, candidateOf]
  | none =>
    cases hinline : w.inline with
    | workspace =>
      simp only [World.sourceFile, hlegacy, hinline, some.injEq] at h
      subst h
      simp [detectMigrationSource, alone_bind, hlegacy, hinline, candidateOf]
    | missing =>
      simp [World.sourceFile, hlegacy, hinline] at h
    | broken =>
      simp [World.sourceFile, hlegacy, hinline] at h
    | plain =>
      simp [World.sourceFile, hlegacy, hinline] at h

variable (env choice)

theorem alone_detectMigrationSource_world (w : World) :
    (alone answer choice (detectMigrationSource env) w).2 = w := by
  cases hlegacy : w.legacy with
  | some =>
    simp [detectMigrationSource, alone_bind, hlegacy]
  | none =>
    cases hinline : w.inline <;>
      simp [detectMigrationSource, alone_bind, hlegacy, hinline]

theorem alone_computeStartupState_world {loadResult : WorkspaceConfigLoadResult}
    {persistedState : WorkspaceMigrationPersistedState} :
    (alone answer choice (computeStartupState env loadResult persistedState) w).2 = w := by
  have hworld := alone_detectMigrationSource_world env choice w
  rw [computeStartupState, alone_bind]
  cases hrun : alone answer choice (detectMigrationSource env) w with
  | mk r =>
    rw [hrun] at hworld
    cases r with
    | ok =>
      exact hworld
    | error =>
      exact hworld

theorem alone_computeStartupState (loadResult : WorkspaceConfigLoadResult)
    (persistedState : WorkspaceMigrationPersistedState) (h : w.sourceFile.isSome = true) :
    ∃ state, alone answer choice (computeStartupState env loadResult persistedState) w
      = (.ok state, w) := by
  obtain ⟨file, hfile⟩ := isSome_iff_exists.mp h
  rw [computeStartupState, alone_bind_of (alone_detectMigrationSource hfile)]
  exact ⟨_, rfl⟩

theorem alone_refresh (h : w.sourceFile.isSome = true) :
    ∃ state, alone answer choice (refresh env) w = (.ok (loaded env w, w.journal, state), w) := by
  obtain ⟨state, hstate⟩ := alone_computeStartupState env choice (loaded env w) w.journal h
  refine ⟨state, ?_⟩
  rw [refresh, alone_bind_of alone_load]
  rw [alone_bind_of alone_loadPersistedState, alone_bind_of hstate]
  rfl

theorem alone_getStatus (h : w.sourceFile.isSome = true) :
    ∃ status, alone answer choice (getStatus env) w = (.ok status, w) := by
  obtain ⟨state, hstate⟩ := alone_refresh env choice h
  rw [getStatus, alone_bind_of hstate]
  exact ⟨_, rfl⟩

theorem alone_unlinkWritten {raw : List Char} {t : WorkspaceMigrationTransaction}
    (hsource : w.sourceFile.isSome = true) (hcanonical : w.canonical = some raw)
    (hhash : t.payloadHash = env.sha256 raw) :
    ∃ status w', alone answer choice (unlinkWritten env w.journal t) w = (.ok status, w') ∧
      w'.canonical = none ∧ w'.phase = some .rolledBack := by
  have hrevision : ¬ (loaded env w).revision ≠ some t.payloadHash := by
    rw [loaded, hcanonical, hhash]
    exact fun h => h rfl
  rw [unlinkWritten, alone_bind_of alone_load]
  simp only [if_neg hrevision]
  have hunlink : alone answer choice unlinkCanonical w
      = (.ok true, { w with canonical := none, hand := .nobody }) := by
    have hanswer : answer .unlinkCanonical choice w
        = (true, { w with canonical := none, hand := .nobody }) := by
      simp only [answer, hcanonical]
      rfl
    show ((Except.ok (answer .unlinkCanonical choice w).1 : Except String Bool),
      (answer .unlinkCanonical choice w).2) = _
    rw [hanswer]
  rw [alone_bind_of hunlink]
  simp only [Bool.true_eq_false, if_false]
  let recorded : WorkspaceMigrationPersistedState :=
    { w.journal with
      transaction := some { t with phase := .rolledBack, rollbackAvailable := false } }
  let state : WorkspaceMigrationPersistedState :=
    { recorded with
      modeOverride := some t.modeBefore
      comparison := none }
  let removed : World := { w with canonical := none, hand := .nobody }
  let marked : World :=
    { removed with
      journal := recorded
      activation := removed.activationAfter recorded false }
  let final : World :=
    { marked with
      journal := state
      activation := marked.activationAfter state false }
  have hmarked : alone answer choice
      (writeTransaction w.journal { t with phase := .rolledBack, rollbackAvailable := false })
      removed = (.ok recorded, marked) := rfl
  have hfinal : alone answer choice (persistState state) marked = (.ok (), final) := rfl
  have hthere : final.sourceFile.isSome = true := hsource
  obtain ⟨startup, hstartup⟩ := alone_computeStartupState env choice (loaded env final) state hthere
  obtain ⟨status, hstatus⟩ := alone_getStatus env choice hthere
  rw [alone_bind_of hmarked, alone_bind_of hfinal, alone_bind_of alone_load,
    alone_bind_of hstartup, hstatus]
  exact ⟨status, final, rfl, rfl, rfl⟩

theorem rollsBack_of_available {t : WorkspaceMigrationTransaction} {raw : List Char}
    {deadline : Nat} (hsource : w.sourceFile.isSome = true) (hcanonical : w.canonical = some raw)
    (ht : w.journal.transaction = some t) (hhash : t.payloadHash = env.sha256 raw)
    (havailable : t.rollbackAvailable = true) (hdeadline : t.rollbackDeadline = some deadline)
    (hclock : w.clock ≤ deadline) : RollsBack env w t.transactionId := by
  intro choice
  obtain ⟨state, hstate⟩ := alone_refresh env choice hsource
  obtain ⟨status, w', hrun, hgone⟩ := alone_unlinkWritten env choice hsource hcanonical hhash
  refine ⟨status, w', ?_, hgone⟩
  rw [rollbackMigration, alone_bind_of hstate]
  simp only [ht, ne_eq, not_true_eq_false, if_false, havailable, hdeadline]
  rw [alone_bind_of alone_dateNow, if_neg (by omega)]
  exact hrun

theorem alone_initializeService_phase (hphase : w.phase = some .written) :
    (alone answer choice (initializeService env) w).2.phase ≠ some .written := by
  obtain ⟨t, ht, hwritten⟩ := map_eq_some_iff.mp hphase
  rw [initializeService, alone_bind_of alone_loadPersistedState, alone_bind_of alone_load]
  have hrecovered : ∃ result w',
      alone answer choice (recoverInterruptedTransaction env (loaded env w) w.journal) w
          = (.ok result, w') ∧ w'.phase ≠ some .written := by
    simp only [recoverInterruptedTransaction, ht, hwritten, ne_eq, not_true_eq_false, if_false]
    rw [alone_bind_of alone_load, alone_bind_of alone_dateNow]
    by_cases hsame : (loaded env w).revision = some t.payloadHash
    · rw [if_pos hsame]
      exact ⟨_, _, rfl, fun h => by cases h⟩
    · rw [if_neg hsame]
      exact ⟨_, _, rfl, fun h => by cases h⟩
  obtain ⟨result, w', hrun, hnot⟩ := hrecovered
  rw [alone_bind_of hrun]
  show (alone answer choice (computeStartupState env result.1 result.2) w').2.phase ≠ _
  rw [alone_computeStartupState_world]
  exact hnot

end Alone

section Survival

variable {env : Environment}
variable {w : World}

theorem loaded_of_valid (hvalid : w.Valid env) :
    (loaded env w).isCanonical = true ∧ (loaded env w).isValid = true := by
  cases hcanonical : w.canonical with
  | none =>
    exact absurd hvalid (World.not_valid_of_missing hcanonical)
  | some raw =>
    have hraw : ValidText env raw := by simpa [World.Valid, hcanonical] using hvalid
    rw [loaded, hcanonical]
    exact ⟨rfl, hraw⟩

theorem servedMode_of_shadow (hvalid : w.Valid env) (hsource : w.sourceFile.isSome = true)
    (hmode : w.journal.modeOverride = some .canonicalShadow) :
    servedMode env w = .canonicalShadow := by
  obtain ⟨hcanonical, hloads⟩ := loaded_of_valid hvalid
  simp [servedMode, startupMode, hcanonical, hloads, hsource, hmode]

theorem valid_of_servedMode (hmode : servedMode env w = .canonicalActive) : w.Valid env := by
  cases hcanonical : w.canonical with
  | none =>
    have hnot : (loaded env w).isCanonical = false := by
      rw [loaded, hcanonical]
      by_cases hlegacy : w.legacy.isSome = true
      · simp [hlegacy, WorkspaceConfigLoadResult.isCanonical]
      · simp [hlegacy, WorkspaceConfigLoadResult.isCanonical]
    simp only [servedMode, startupMode, hnot] at hmode
    split at hmode
    · contradiction
    · split at hmode <;> cases hmode
  | some raw =>
    by_cases hraw : ValidText env raw
    · exact World.valid_of_canonical hcanonical hraw
    · have hnot : (loaded env w).isValid = false := by
        rw [loaded, hcanonical]
        exact Bool.eq_false_iff.mpr hraw
      have hcanonical' : (loaded env w).isCanonical = true := by
        rw [loaded, hcanonical]
        rfl
      simp [servedMode, startupMode, hnot, hcanonical'] at hmode

/-- **Where the service is at rest, a migration survives.** -/
theorem rest_survives (h : Rest env w) :
    Survives env w where
  shadow := by
    intro id hours hactivation hsource
    obtain ⟨raw, t, hcanonical, hraw, _⟩ := h.1.ours id hours
    have hvalid := World.valid_of_canonical hcanonical hraw
    rcases h.1.served hvalid with hshadow | ⟨_, hsome⟩
    · exact servedMode_of_shadow hvalid hsource hshadow
    · rw [hactivation] at hsome
      cases hsome
  rollback := by
    intro id hours hsource
    obtain ⟨raw, t, hcanonical, _, ht, hid, hhash, hphase⟩ := h.1.ours id hours
    rcases hphase with ⟨_, havailable, hdeadline⟩ | ⟨hwritten, _⟩
    · obtain ⟨deadline, hdeadline⟩ := isSome_iff_exists.mp hdeadline
      refine ⟨t, deadline, ht, hid, hdeadline, fun hclock => ?_⟩
      subst hid
      exact rollsBack_of_available env hsource hcanonical ht hhash havailable hdeadline hclock
    · have hothers := h.2 (by rw [World.phase_of_transaction ht, hwritten])
      rw [hothers] at hours
      cases hours
  active := by
    intro hsource hmode
    have hvalid := valid_of_servedMode hmode
    rcases h.1.served hvalid with hshadow | ⟨_, hsome⟩
    · rw [servedMode_of_shadow hvalid hsource hshadow] at hmode
      cases hmode
    · obtain ⟨a, ha⟩ := isSome_iff_exists.mp hsome
      exact ⟨a, ha, h.1.good a ha⟩
  leadsOn := by
    intro t ht
    obtain ⟨hnot, hhand⟩ := h.1.phases t ht
    cases hphase : t.phase with
    | pendingWrite =>
      exact absurd hphase hnot
    | written =>
      have hwritten : w.phase = some .written := by
        rw [World.phase_of_transaction ht, hphase]
      exact .inr (.inr (.inl ⟨rfl, fun choice => alone_initializeService_phase env choice hwritten⟩))
    | rollbackAvailable =>
      exact .inr (.inr (.inr ⟨rfl, hhand (.inr hphase)⟩))
    | rolledBack =>
      exact .inl rfl
    | failed =>
      exact .inr (.inl rfl)

theorem World.Untouched.kept (h : w.Untouched) : Kept env w := by
  obtain ⟨hcanonical, hhand, hactivation, hjournal⟩ := h
  refine ⟨fun hvalid => absurd hvalid (World.not_valid_of_missing hcanonical), ?_, ?_, ?_⟩
  · intro a ha
    rw [hactivation] at ha
    cases ha
  · intro id hours
    rw [hhand] at hours
    cases hours
  · intro t ht
    rw [hjournal] at ht
    cases ht

/-- The service before it is started. -/
def stopped (w : World) :
    Machine World FileOp FileOp.Answer String Call WorkspaceMigrationState where
  state := w
  up := false
  running := none

abbrev serve (env : Environment) :=
  CrashPrograms.step (service env)

/-- **A migration survives a crash**, in every run whose steps meet the conditions. -/
theorem migration_survives_crashes (env : Environment) (w : World)
    (events : List (Event String Call Edit))
    (m : Machine World FileOp FileOp.Answer String Call WorkspaceMigrationState)
    (huntouched : w.Untouched)
    (hmeets : EveryStep (serve env) (fun m event _ => Meets (conditions env) m event)
      (stopped w) events)
    (hrun : runActions (serve env) (stopped w) events = some m) (hidle : m.running = none)
    (hup : m.up = true) : Survives env m.state := by
  have hstart : (stopped w).Kept (service env) (conditions env) (Rest env) (Kept env) :=
    huntouched.kept
  have hkept := (guarded env).reached hstart hmeets hrun
  simp only [Machine.Kept, hidle, hup, if_true] at hkept
  exact rest_survives hkept

/-- A workspace with one source in its legacy file. -/
def docsText : List Char := "version = \"1.0\"\n\n[sources.docs]\npath = \"../docs\"\n".toList

/-- The hash of the text that is written. -/
def docsHash : String := "e61cca6fce623c64225f6a7c44cf21cd46b3008686a91fdbd38daea7a6f040ea"

def docsEnvironment : Environment where
  sha256 := fun _ => docsHash
  differenceHash := fun _ => docsHash
  localeLe := fun x y => x.toList ≤ y.toList
  textLe := fun x y => x.toList ≤ y.toList
  workdirInside := fun _ => true
  diagnosticsOf := fun _ => []
  rollbackWindowMs := 3600000

def docsWorld : World where
  canonical := none
  legacy := some docsText
  inline := .missing
  journal := emptyState
  clock := 1785283200000
  hand := .nobody
  activation := none

def operations (n : Nat) : List (Event String Call Edit) := List.replicate n (.exec "txn-1")

/-- The service is started and migrates; it crashes after as many operations, and is started
again. -/
def crashAfter (n : Nat) : List (Event String Call Edit) :=
  .call .initializeService :: operations 3 ++ .finish :: .call .applyMigration ::
    operations n ++ .crash :: .call .initializeService :: operations 4 ++ [.finish]

/-- The legacy file is changed between the comparison and the activation. -/
def staleComparison : List (Event String Call Edit) :=
  .call .initializeService :: operations 3 ++ .finish :: .call .applyMigration ::
    operations 18 ++ .finish :: .call .compareShadow :: operations 11 ++
    .finish :: .edit (.legacy (some "version = \"1.0\"\n\n[sources]\n".toList)) ::
    .call (.activateCanonical none) :: operations 10 ++ [.finish]

/-- The steps of a run without edits and activations meet the conditions. -/
def meetsPlainly (env : Environment)
    (m : Machine World FileOp FileOp.Answer String Call WorkspaceMigrationState) :
    Event String Call Edit → Bool
  | .call (.activateCanonical _) => false
  | .call _ => true
  | .exec _ =>
    match m.running with
    | some (_, .call (.writeCanonical raw) _) => decide (ValidText env raw)
    | _ => true
  | .finish => true
  | .crash =>
    m.state.phase ≠ some .pendingWrite &&
      (m.state.journal.modeOverride = some .canonicalShadow) && m.state.hand ≠ .nobody
  | .edit _ => false

theorem meets_of_meetsPlainly
    {m : Machine World FileOp FileOp.Answer String Call WorkspaceMigrationState}
    {event : Event String Call Edit} (h : meetsPlainly env m event = true) :
    Meets (conditions env) m event := by
  cases event with
  | call =>
    rintro ⟨acknowledged, rfl⟩
    cases h
  | exec =>
    obtain ⟨state, up, running⟩ := m
    match running, h with
    | none, _ =>
      exact trivial
    | some (_, .done _), _ =>
      exact trivial
    | some (_, .fail _), _ =>
      exact trivial
    | some (_, .call (.writeCanonical raw) _), h =>
      intro raw' heq
      cases heq
      exact of_decide_eq_true h
    | some (_, .call .statConfigs _), _ =>
      exact fun _ => nofun
    | some (_, .call .readCanonical _), _ =>
      exact fun _ => nofun
    | some (_, .call .readLegacy _), _ =>
      exact fun _ => nofun
    | some (_, .call .readInline _), _ =>
      exact fun _ => nofun
    | some (_, .call .readJournal _), _ =>
      exact fun _ => nofun
    | some (_, .call (.writeJournal _ _) _), _ =>
      exact fun _ => nofun
    | some (_, .call .unlinkCanonical _), _ =>
      exact fun _ => nofun
    | some (_, .call .dateNow _), _ =>
      exact fun _ => nofun
    | some (_, .call .createTransactionId _), _ =>
      exact fun _ => nofun
  | finish =>
    exact trivial
  | crash =>
    simp only [meetsPlainly, Bool.and_eq_true, decide_eq_true_eq] at h
    obtain ⟨⟨hphase, hmode⟩, hhand⟩ := h
    exact ⟨hphase, fun _ hhalf => hhalf.2.1 hmode, fun hback => hhand hback.2⟩
  | edit =>
    cases h

theorem everyStep_of_meetsPlainly
    {m : Machine World FileOp FileOp.Answer String Call WorkspaceMigrationState}
    {events : List (Event String Call Edit)}
    (h : passes (serve env) (meetsPlainly env) m events = true) :
    EveryStep (serve env) (fun m event _ => Meets (conditions env) m event) m events :=
  @EveryStep.of_passes _ _ (serve env) (fun m event _ => Meets (conditions env) m event)
    (meetsPlainly env) (fun _ _ _ hcheck => meets_of_meetsPlainly hcheck) m events h

/-- A crash after the last write of `applyMigration`. -/
theorem a_migration_survives_a_crash :
    Survives docsEnvironment
      (reached (serve docsEnvironment) (stopped docsWorld) (crashAfter 13)).state :=
  migration_survives_crashes docsEnvironment docsWorld (crashAfter 13)
    (reached (serve docsEnvironment) (stopped docsWorld) (crashAfter 13))
    ⟨rfl, rfl, rfl, rfl⟩
    (everyStep_of_meetsPlainly (by decide +kernel)) (runActions_reached (by decide +kernel))
    (isNone_iff_eq_none.mp (by decide +kernel)) (by decide +kernel)

/-- A run after which something that is asked of a migration is lost. -/
def Loses (events : List (Event String Call Edit)) : Prop :=
  ∃ m, runActions (serve docsEnvironment) (stopped docsWorld) events = some m ∧
    m.running = none ∧ m.up = true ∧ ¬ Survives docsEnvironment m.state

theorem not_survives_of_pending {w : World} (h : w.phase = some .pendingWrite) :
    ¬ Survives env w := by
  intro hsurvives
  obtain ⟨t, ht, hphase⟩ := map_eq_some_iff.mp h
  rcases hsurvives.leadsOn t ht with hback | hfailed | ⟨hwritten, _⟩ | ⟨havailable, _⟩
  · rw [hphase] at hback
    cases hback
  · rw [hphase] at hfailed
    cases hfailed
  · rw [hphase] at hwritten
    cases hwritten
  · rw [hphase] at havailable
    cases havailable

def SourceFile.text : SourceFile → List Char
  | .legacy raw => raw
  | .inline _ => []

def World.activatedStale (w : World) : Bool :=
  w.activation.any fun a =>
    a.compared.source.map SourceFile.text ≠ a.present.source.map SourceFile.text

def World.activeUnasked (env : Environment) (w : World) : Bool :=
  w.sourceFile.isSome && servedMode env w = .canonicalActive &&
    (w.activation.isNone || w.activatedStale)

theorem not_survives_of_unasked {w : World} (h : w.activeUnasked env = true) :
    ¬ Survives env w := by
  intro hsurvives
  simp only [World.activeUnasked, Bool.and_eq_true, decide_eq_true_eq] at h
  obtain ⟨⟨hsource, hmode⟩, hbad⟩ := h
  obtain ⟨a, ha, hgood⟩ := hsurvives.active hsource hmode
  simp [World.activatedStale, ha, hgood] at hbad

/-- A crash before the file is on record, a crash before it is on record as a shadow, and an
activation by a comparison of another text. -/
theorem crashes_and_edits_lose_it :
    Loses (crashAfter 7) ∧ Loses (crashAfter 12) ∧ Loses staleComparison := by
  refine ⟨⟨_, runActions_reached (by decide +kernel), ?_, ?_, ?_⟩,
    ⟨_, runActions_reached (by decide +kernel), ?_, ?_, ?_⟩,
    ⟨_, runActions_reached (by decide +kernel), ?_, ?_, ?_⟩⟩
  · exact isNone_iff_eq_none.mp (by decide +kernel)
  · decide +kernel
  · exact not_survives_of_pending (by decide +kernel)
  · exact isNone_iff_eq_none.mp (by decide +kernel)
  · decide +kernel
  · exact not_survives_of_unasked (by decide +kernel)
  · exact isNone_iff_eq_none.mp (by decide +kernel)
  · decide +kernel
  · exact not_survives_of_unasked (by decide +kernel)

end Survival

end WorkspaceMigration
end StudioWeb
