import StudioWeb.Library.CrashPrograms
import StudioWeb.WorkspaceConfig.CanonicalToml

/-!
# The workspace migration service

`workspace-migration-service.ts`: the calls of the service as programs of file operations, the
journal that carries them from one call to the next, and the mode that a workspace starts in.

A file operation is one step: a file is written beside its place and moved there, so a crash
leaves what was there or what was written.  `config/core.toml` is modelled by what the parser
makes of it.  The `World` also keeps what no file says: whose the canonical file is, and what an
activation went by.
-/

namespace StudioWeb
namespace WorkspaceMigration

open CrashPrograms
open WorkspaceConfig (NativeWorkspaceConfigData InlineWorkspace WorkspaceSourceEntry
  normalizeInlineWorkspaceConfig emptyConfig inspectRawToml renderCanonicalToml sortedEntries)

inductive WorkspaceConfigMode where
  | legacy
  | singleFolder
  | canonicalShadow
  | canonicalActive
deriving DecidableEq

inductive WorkspaceStartupMode where
  | legacy
  | singleFolder
  | canonicalShadow
  | canonicalActive
  | canonicalDiagnostics
deriving DecidableEq

inductive WorkspaceMigrationSourceKind where
  | legacyConfig
  | inlineCore
deriving DecidableEq

inductive WorkspaceMigrationStatus where
  | notNeeded
  | pending
  | recovering
  | completed
  | rolledBack
  | failed
deriving DecidableEq

/-- `WorkspaceDiagnostic`: what a comparison reads of it. -/
structure WorkspaceDiagnostic where
  code : String
  message : String
deriving DecidableEq

inductive TransactionPhase where
  | pendingWrite
  | written
  | rollbackAvailable
  | rolledBack
  | failed
deriving DecidableEq

/-- `WorkspaceMigrationTransaction`, less its paths and its times of change. -/
structure WorkspaceMigrationTransaction where
  transactionId : String
  modeBefore : WorkspaceConfigMode
  sourceKind : WorkspaceMigrationSourceKind
  payloadHash : String
  phase : TransactionPhase
  rollbackDeadline : Option Nat
  rollbackAvailable : Bool
  error : Option String
deriving DecidableEq

/-- `WorkspaceMigrationPreview`, less its paths and the configuration as shown. -/
structure WorkspaceMigrationPreview where
  sourceKind : WorkspaceMigrationSourceKind
  modeBefore : WorkspaceConfigMode
  payloadHash : String
  rawCanonicalToml : List Char
  diagnostics : List WorkspaceDiagnostic

/-- `WorkspaceMigrationDifference`; its message says the same. -/
inductive WorkspaceMigrationDifference where
  | missingInSource (sourceId : String)
  | missingInCanonical (sourceId : String)
  | fieldMismatch (sourceId field legacyValue canonicalValue : String)
  | diagnosticMismatch (message : String)
deriving DecidableEq

/-- `config/core.toml`. -/
inductive InlineCore where
  | missing
  /-- A text that the parser throws at. -/
  | broken (error : String)
  /-- No `workspace` table. -/
  | plain
  | workspace (workspace : InlineWorkspace)

/-- A file that a migration starts from. -/
inductive SourceFile where
  | legacy (raw : List Char)
  | inline (workspace : InlineWorkspace)

/-- The two files of a migration. -/
structure Contents where
  source : Option SourceFile
  canonical : Option (List Char)

/-- `WorkspaceMigrationComparison`, less its paths, with the contents it was made of. -/
structure WorkspaceMigrationComparison where
  clean : Bool
  differenceHash : String
  acknowledgedDifferenceHash : Option String
  sourceKind : WorkspaceMigrationSourceKind
  differences : List WorkspaceMigrationDifference
  diagnostics : List WorkspaceDiagnostic
  madeOf : Contents

structure WorkspaceMigrationPersistedState where
  modeOverride : Option WorkspaceConfigMode
  preview : Option WorkspaceMigrationPreview
  comparison : Option WorkspaceMigrationComparison
  transaction : Option WorkspaceMigrationTransaction

def emptyState : WorkspaceMigrationPersistedState where
  modeOverride := none
  preview := none
  comparison := none
  transaction := none

/-- `SourceCandidate`, with the file it was made of. -/
structure SourceCandidate where
  kind : WorkspaceMigrationSourceKind
  config : NativeWorkspaceConfigData
  diagnostics : List WorkspaceDiagnostic
  file : SourceFile

/-- `WorkspaceConfigLoadResult`; a configuration is there where the state is `valid`. -/
inductive WorkspaceConfigLoadResult where
  | missing
  | legacy
  | canonical
      (rawToml : List Char)
      (revision : String)
      (parsedData : Option NativeWorkspaceConfigData)
      (diagnostics : List WorkspaceDiagnostic)

structure WorkspaceMigrationState where
  mode : WorkspaceConfigMode
  status : WorkspaceMigrationStatus
  transactionId : Option String
  rollbackAvailable : Bool
  rollbackReason : Option String
deriving DecidableEq

structure WorkspaceMigrationStartupState where
  mode : WorkspaceStartupMode
  migration : WorkspaceMigrationState
  diagnostics : List WorkspaceDiagnostic

structure WorkspaceMigrationStatusResponse where
  migration : WorkspaceMigrationState
  diagnostics : List WorkspaceDiagnostic
  preview : Option WorkspaceMigrationPreview
  comparison : Option WorkspaceMigrationComparison

/-- What the service is given: hashes, orders of texts, the diagnostics of a text, the length of
the rollback window. -/
structure Environment where
  sha256 : List Char → String
  /-- `sha256` of the differences as JSON. -/
  differenceHash : List WorkspaceMigrationDifference → String
  localeLe : String → String → Bool
  /-- The order of `sort`. -/
  textLe : String → String → Bool
  workdirInside : String → Bool
  diagnosticsOf : List Char → List WorkspaceDiagnostic
  rollbackWindowMs : Nat

/-- Whose the canonical file is that is there, or was there last. -/
inductive Hand where
  /-- Removed by a rollback, or never there. -/
  | nobody
  /-- Written by the transaction, and left alone since. -/
  | ours (transactionId : String)
  /-- Written, changed or removed by others. -/
  | others
deriving DecidableEq

structure Activation where
  compared : Contents
  present : Contents

/-- The files, the clock, and what no file says. -/
structure World where
  canonical : Option (List Char)
  legacy : Option (List Char)
  inline : InlineCore
  journal : WorkspaceMigrationPersistedState
  clock : Nat
  hand : Hand
  /-- The first activation since the canonical file was written by the service. -/
  activation : Option Activation

/-- The file that a migration would start from. -/
def World.sourceFile (w : World) : Option SourceFile :=
  match w.legacy with
  | some raw => some (.legacy raw)
  | none =>
    match w.inline with
    | .workspace i => some (.inline i)
    | _ => none

def World.contents (w : World) : Contents := ⟨w.sourceFile, w.canonical⟩

/-- The operations of the service. -/
inductive FileOp where
  /-- Whether there is a canonical and a legacy file. -/
  | statConfigs
  | readCanonical
  | readLegacy
  | readInline
  | readJournal
  /-- `persistState`; `activates` marks the write with which an activation succeeds. -/
  | writeJournal (state : WorkspaceMigrationPersistedState) (activates : Bool)
  | writeCanonical (raw : List Char)
  | unlinkCanonical
  | dateNow
  | createTransactionId

/-- What an operation answers; a file is `none` where it is missing. -/
def FileOp.Answer : FileOp → Type
  | .statConfigs => Bool × Bool
  | .readCanonical => Option (List Char)
  | .readLegacy => Option (List Char)
  | .readInline => InlineCore
  | .readJournal => WorkspaceMigrationPersistedState
  | .writeJournal _ _ => Unit
  | .writeCanonical _ => Unit
  | .unlinkCanonical => Bool
  | .dateNow => Nat
  | .createTransactionId => String

/-- The activation in force after a journal was written. -/
def World.activationAfter (w : World) (state : WorkspaceMigrationPersistedState)
    (activates : Bool) : Option Activation :=
  if state.modeOverride = some .canonicalActive then
    match w.activation with
    | some a => some a
    | none => if activates then state.comparison.map fun c => ⟨c.madeOf, w.contents⟩ else none
  else
    none

/-- One operation; a new transaction gets the identifier that was chosen. -/
def answer : (op : FileOp) → String → World → op.Answer × World
  | .statConfigs, _, w => ((w.canonical.isSome, w.legacy.isSome), w)
  | .readCanonical, _, w => (w.canonical, w)
  | .readLegacy, _, w => (w.legacy, w)
  | .readInline, _, w => (w.inline, w)
  | .readJournal, _, w => (w.journal, w)
  | .writeJournal state activates, _, w =>
    ((), { w with journal := state, activation := w.activationAfter state activates })
  | .writeCanonical raw, _, w =>
    ((),
      { w with
        canonical := some raw
        hand :=
          match w.journal.transaction with
          | some t => .ours t.transactionId
          | none => .others
        activation := none })
  | .unlinkCanonical, _, w =>
    match w.canonical with
    | some _ => (true, { w with canonical := none, hand := .nobody })
    | none => (false, w)
  | .dateNow, _, w => (w.clock, w)
  | .createTransactionId, choice, w => (choice, w)

/-- What others do, and the passing of time. -/
inductive Edit where
  | canonical (content : Option (List Char))
  | legacy (content : Option (List Char))
  | inline (content : InlineCore)
  | wait (ms : Nat)

def edit : Edit → World → World
  | .canonical content, w => { w with canonical := content, hand := .others }
  | .legacy content, w => { w with legacy := content }
  | .inline content, w => { w with inline := content }
  | .wait ms, w => { w with clock := w.clock + ms }

section Service

abbrev Migration (α : Type) : Type :=
  Program FileOp FileOp.Answer String α

open Program (perform fail)

abbrev statConfigs : Migration (Bool × Bool) :=
  perform FileOp.statConfigs

abbrev readCanonical : Migration (Option (List Char)) :=
  perform FileOp.readCanonical

abbrev readLegacy : Migration (Option (List Char)) :=
  perform FileOp.readLegacy

abbrev readInline : Migration InlineCore :=
  perform FileOp.readInline

abbrev loadPersistedState : Migration WorkspaceMigrationPersistedState :=
  perform FileOp.readJournal

abbrev writeCanonicalFileAtomically (body : List Char) : Migration Unit :=
  perform (FileOp.writeCanonical body)

/-- `unlink`: whether there was a file. -/
abbrev unlinkCanonical : Migration Bool :=
  perform FileOp.unlinkCanonical

abbrev dateNow : Migration Nat :=
  perform FileOp.dateNow

abbrev createTransactionId : Migration String :=
  perform FileOp.createTransactionId

variable (env : Environment)

/-- `inspectRawToml`, of the canonical file. -/
def inspect (raw : List Char) : WorkspaceConfigLoadResult :=
  .canonical raw (env.sha256 raw) (inspectRawToml env.workdirInside raw) (env.diagnosticsOf raw)

def load : Migration WorkspaceConfigLoadResult := do
  let (canonicalStat, legacyStat) ← statConfigs
  if canonicalStat then
    match ← readCanonical with
    | some raw => pure (inspect env raw)
    | none => fail "ENOENT: no such file or directory"
  else if legacyStat then
    pure .legacy
  else
    pure .missing

def WorkspaceConfigLoadResult.diagnostics : WorkspaceConfigLoadResult → List WorkspaceDiagnostic
  | .missing => [⟨"workspace.config.missing", "Workspace config file was not found."⟩]
  | .legacy =>
    [⟨"workspace.config.legacy_detected",
      "Legacy workspace config detected. Native loading only activates .cf-workspace.toml."⟩]
  | .canonical _ _ _ diagnostics => diagnostics

/-- `detection === 'canonical'`. -/
def WorkspaceConfigLoadResult.isCanonical : WorkspaceConfigLoadResult → Bool
  | .canonical _ _ _ _ => true
  | _ => false

/-- `state === 'valid'`. -/
def WorkspaceConfigLoadResult.isValid : WorkspaceConfigLoadResult → Bool
  | .canonical _ _ parsedData _ => parsedData.isSome
  | _ => false

def WorkspaceConfigLoadResult.revision : WorkspaceConfigLoadResult → Option String
  | .canonical _ revision _ _ => some revision
  | _ => none

def legacyCandidate (raw : List Char) : SourceCandidate :=
  match inspectRawToml env.workdirInside raw with
  | some config => ⟨.legacyConfig, config, [], .legacy raw⟩
  | none => ⟨.legacyConfig, emptyConfig, env.diagnosticsOf raw, .legacy raw⟩

/-- The candidate that a `workspace` table is. -/
def inlineCandidate (i : InlineWorkspace) : SourceCandidate :=
  let config := normalizeInlineWorkspaceConfig i
  let diagnostics :=
    (config.sources.filter fun s => s.2.url.any (· ≠ "")).map fun s =>
      ⟨"workspace.migration.inline_url_unsupported", "Inline workspace source \"" ++ s.1 ++
          "\" cannot use url; move it into .cf-workspace.toml."⟩
  ⟨.inlineCore, config, diagnostics, .inline i⟩

def candidateOf : SourceFile → SourceCandidate
  | .legacy raw => legacyCandidate env raw
  | .inline i => inlineCandidate i

def detectMigrationSource : Migration (Option SourceCandidate) := do
  match ← readLegacy with
  | some raw => pure (some (legacyCandidate env raw))
  | none =>
    match ← readInline with
    | .missing => pure none
    | .broken error => fail error
    | .plain => pure none
    | .workspace i => pure (some (inlineCandidate i))

def requireMigrationSource : Migration SourceCandidate := do
  match ← detectMigrationSource env with
  | some source => pure source
  | none => fail "No legacy workspace migration source is available"

def resolveMigrationStatus (mode : WorkspaceStartupMode)
    (transaction : Option WorkspaceMigrationTransaction) : WorkspaceMigrationStatus :=
  match transaction.map WorkspaceMigrationTransaction.phase with
  | some .rolledBack => .rolledBack
  | some .failed => .failed
  | some .pendingWrite => .recovering
  | some .written => .recovering
  | some .rollbackAvailable => .completed
  | none => if mode = .canonicalActive then .notNeeded else .pending

/-- The mode that `computeStartupState` finds. -/
def startupMode (loadResult : WorkspaceConfigLoadResult)
    (persistedState : WorkspaceMigrationPersistedState) (hasSource : Bool) : WorkspaceStartupMode :=
  if loadResult.isCanonical then
    if loadResult.isValid then
      if persistedState.modeOverride = some .canonicalShadow ∧ hasSource = true then
        .canonicalShadow
      else
        .canonicalActive
    else
      .canonicalDiagnostics
  else if hasSource then
    .legacy
  else
    .singleFolder

def WorkspaceStartupMode.shown : WorkspaceStartupMode → WorkspaceConfigMode
  | .legacy => .legacy
  | .singleFolder => .singleFolder
  | .canonicalShadow => .canonicalShadow
  | .canonicalActive => .canonicalActive
  | .canonicalDiagnostics => .canonicalActive

def computeStartupState (loadResult : WorkspaceConfigLoadResult)
    (persistedState : WorkspaceMigrationPersistedState) :
    Migration WorkspaceMigrationStartupState := do
  let source ← detectMigrationSource env
  let mode := startupMode loadResult persistedState source.isSome
  let transaction := persistedState.transaction
  let rollbackAvailable := (transaction.map fun t => t.rollbackAvailable).getD false
  pure
    { mode := mode
      migration :=
        { mode := mode.shown
          status := resolveMigrationStatus mode transaction
          transactionId := transaction.map fun t => t.transactionId
          rollbackAvailable := rollbackAvailable
          rollbackReason :=
            if rollbackAvailable then none else transaction.bind fun t => t.error }
      diagnostics :=
        loadResult.diagnostics ++
          if loadResult.isCanonical then [] else (source.map fun s => s.diagnostics).getD [] }

/-- `refresh`: what was loaded, the journal and the startup state. -/
def refresh :
    Migration (WorkspaceConfigLoadResult × WorkspaceMigrationPersistedState ×
      WorkspaceMigrationStartupState) := do
  let loadResult ← load env
  let persistedState ← loadPersistedState
  let startupState ← computeStartupState env loadResult persistedState
  pure (loadResult, persistedState, startupState)

def getStatus : Migration WorkspaceMigrationStatusResponse := do
  let (_, persistedState, startupState) ← refresh env
  pure
    { migration := startupState.migration
      diagnostics := startupState.diagnostics
      preview := persistedState.preview
      comparison := persistedState.comparison }

def deriveDefaultMode (loadResult : WorkspaceConfigLoadResult)
    (candidate : Option SourceCandidate) : WorkspaceConfigMode :=
  if loadResult.isCanonical && loadResult.isValid then
    .canonicalActive
  else
    match candidate.map SourceCandidate.kind with
    | some .legacyConfig => .legacy
    | some .inlineCore => .legacy
    | none => .singleFolder

def buildPreview (loadResult : WorkspaceConfigLoadResult) (candidate : SourceCandidate) :
    WorkspaceMigrationPreview :=
  let rawCanonicalToml := renderCanonicalToml env.localeLe candidate.config
  { sourceKind := candidate.kind
    modeBefore := deriveDefaultMode loadResult (some candidate)
    payloadHash := env.sha256 rawCanonicalToml
    rawCanonicalToml := rawCanonicalToml
    diagnostics := candidate.diagnostics ++ env.diagnosticsOf rawCanonicalToml }

def comparedFields : List (String × (WorkspaceSourceEntry → Option String)) :=
  [("path", fun s => s.path), ("url", fun s => s.url), ("branch", fun s => s.branch),
    ("role", fun s => s.role), ("adapter", fun s => s.adapter)]

def sourceDifferences (sourceId : String) :
    Option WorkspaceSourceEntry → Option WorkspaceSourceEntry → List WorkspaceMigrationDifference
  | none, _ => [.missingInSource sourceId]
  | some _, none => [.missingInCanonical sourceId]
  | some legacy, some active =>
    comparedFields.filterMap fun field =>
      let leftValue := (field.2 legacy).getD ""
      let rightValue := (field.2 active).getD ""
      if leftValue ≠ rightValue then
        some (.fieldMismatch sourceId field.1 leftValue rightValue)
      else
        none

/-- The differences that `buildComparison` finds. -/
def differencesOf (candidate : SourceCandidate) (config : NativeWorkspaceConfigData)
    (diagnostics : List WorkspaceDiagnostic) : List WorkspaceMigrationDifference :=
  let legacySources := sortedEntries env.localeLe candidate.config.sources
  let canonicalSources := sortedEntries env.localeLe config.sources
  let allSourceIds :=
    ((legacySources ++ canonicalSources).map Prod.fst).eraseDups.mergeSort env.localeLe
  let diagnosticKeys :=
    (candidate.diagnostics.map (fun d => "legacy:" ++ d.code ++ ":" ++ d.message) ++
      diagnostics.map (fun d => "canonical:" ++ d.code ++ ":" ++ d.message)).mergeSort env.textLe
  (allSourceIds.flatMap fun sourceId =>
      sourceDifferences sourceId (legacySources.lookup sourceId)
        (canonicalSources.lookup sourceId)) ++
    diagnosticKeys.map .diagnosticMismatch

/-- `buildComparison`, of a canonical file that is valid. -/
def buildComparison (persistedState : WorkspaceMigrationPersistedState)
    (candidate : SourceCandidate) (rawToml : List Char) (config : NativeWorkspaceConfigData)
    (diagnostics : List WorkspaceDiagnostic) : WorkspaceMigrationComparison :=
  let differences := differencesOf env candidate config diagnostics
  { clean := differences.isEmpty
    differenceHash := env.differenceHash differences
    acknowledgedDifferenceHash :=
      persistedState.comparison.bind fun c => c.acknowledgedDifferenceHash
    sourceKind := candidate.kind
    differences := differences
    diagnostics := candidate.diagnostics ++ diagnostics
    madeOf := ⟨some candidate.file, some rawToml⟩ }

abbrev persistState (state : WorkspaceMigrationPersistedState) : Migration Unit :=
  perform (FileOp.writeJournal state false)

/-- `persistState`, of an activation. -/
abbrev persistActivation (state : WorkspaceMigrationPersistedState) : Migration Unit :=
  perform (FileOp.writeJournal state true)

/-- `writeTransaction`: the state as it is then. -/
def writeTransaction (state : WorkspaceMigrationPersistedState)
    (transaction : WorkspaceMigrationTransaction) :
    Migration WorkspaceMigrationPersistedState := do
  let next := { state with transaction := some transaction }
  persistState next
  pure next

def previewMigration : Migration WorkspaceMigrationStatusResponse := do
  let (loadResult, persistedState, _) ← refresh env
  let candidate ← requireMigrationSource env
  if loadResult.isCanonical then
    fail "Canonical workspace config already exists and blocks migration preview"
  else
    let state :=
      { persistedState with
        preview := some (buildPreview env loadResult candidate)
        comparison := none }
    persistState state
    let _ ← computeStartupState env loadResult state
    getStatus env

def compareShadow : Migration WorkspaceMigrationStatusResponse := do
  let (loadResult, persistedState, _) ← refresh env
  let candidate ← requireMigrationSource env
  match loadResult with
  | .canonical rawToml _ (some config) diagnostics =>
    let state :=
      { persistedState with
        comparison :=
          some (buildComparison env persistedState candidate rawToml config diagnostics) }
    persistState state
    let _ ← computeStartupState env loadResult state
    getStatus env
  | _ => fail "Canonical shadow compare requires a valid canonical workspace config"

/-- The transaction that `applyMigration` begins with. -/
def pendingTransaction (preview : WorkspaceMigrationPreview) (transactionId : String) :
    WorkspaceMigrationTransaction where
  transactionId := transactionId
  modeBefore := preview.modeBefore
  sourceKind := preview.sourceKind
  payloadHash := preview.payloadHash
  phase := .pendingWrite
  rollbackDeadline := none
  rollbackAvailable := false
  error := none

/-- `applyMigration`, from the file written on: its validation and its end. -/
def validateWritten (preview : WorkspaceMigrationPreview)
    (state : WorkspaceMigrationPersistedState) (transaction : WorkspaceMigrationTransaction) :
    Migration WorkspaceMigrationStatusResponse := do
  let validated ← load env
  let now ← dateNow
  if validated.isValid = false ∨ validated.revision ≠ some preview.payloadHash then
    let failed ← writeTransaction state
      { transaction with
        phase := .failed
        rollbackAvailable := true
        rollbackDeadline := some (now + env.rollbackWindowMs)
        error := some "Canonical workspace config did not validate after migration write" }
    let _ ← computeStartupState env validated failed
    getStatus env
  else
    let kept ← writeTransaction state
      { transaction with
        phase := .rollbackAvailable
        rollbackAvailable := true
        rollbackDeadline := some (now + env.rollbackWindowMs) }
    let shadow :=
      { kept with
        modeOverride := some .canonicalShadow
        preview := some preview
        comparison := none }
    persistState shadow
    let _ ← computeStartupState env validated shadow
    getStatus env

def applyMigration : Migration WorkspaceMigrationStatusResponse := do
  let (loadResult, persistedState, _) ← refresh env
  let candidate ← requireMigrationSource env
  if loadResult.isCanonical then
    fail "Canonical workspace config already exists and blocks migration apply"
  else
    let preview := buildPreview env loadResult candidate
    let transactionId ← createTransactionId
    let pending := pendingTransaction preview transactionId
    let state ← writeTransaction persistedState pending
    writeCanonicalFileAtomically preview.rawCanonicalToml
    let written := { pending with phase := .written }
    let state ← writeTransaction state written
    validateWritten env preview state written

def activateCanonical (acknowledgedDifferenceHash : Option String) :
    Migration WorkspaceMigrationStatusResponse := do
  let (loadResult, persistedState, _) ← refresh env
  if loadResult.isValid = false then
    fail "Canonical activation requires a valid canonical workspace config"
  else
    match persistedState.comparison with
    | none => fail "Canonical activation requires an explicit shadow comparison"
    | some comparison =>
      if comparison.clean = false ∧ some comparison.differenceHash ≠ acknowledgedDifferenceHash then
        fail "Canonical activation requires a clean compare or an acknowledged difference hash"
      else
        let state :=
          { persistedState with
            modeOverride := some .canonicalActive
            comparison :=
              some
                { comparison with
                  acknowledgedDifferenceHash :=
                    if comparison.clean then none else acknowledgedDifferenceHash } }
        persistActivation state
        let _ ← computeStartupState env loadResult state
        getStatus env

/-- `rollbackMigration`, from its checks of the transaction on. -/
def unlinkWritten (persistedState : WorkspaceMigrationPersistedState)
    (transaction : WorkspaceMigrationTransaction) :
    Migration WorkspaceMigrationStatusResponse := do
  let current ← load env
  if current.revision ≠ some transaction.payloadHash then
    fail "Workspace migration rollback is blocked because the canonical config changed externally"
  else if (← unlinkCanonical) = false then
    fail "ENOENT: no such file or directory"
  else
    let rolledBack ← writeTransaction persistedState
      { transaction with
        phase := .rolledBack
        rollbackAvailable := false }
    let state :=
      { rolledBack with
        modeOverride := some transaction.modeBefore
        comparison := none }
    persistState state
    let loadResult ← load env
    let _ ← computeStartupState env loadResult state
    getStatus env

def rollbackMigration (transactionId : String) :
    Migration WorkspaceMigrationStatusResponse := do
  let (_, persistedState, _) ← refresh env
  match persistedState.transaction with
  | none =>
    fail "Workspace migration rollback is blocked because the transaction was not found"
  | some transaction =>
    if transaction.transactionId ≠ transactionId then
      fail "Workspace migration rollback is blocked because the transaction was not found"
    else
      match transaction.rollbackAvailable, transaction.rollbackDeadline with
      | true, some deadline =>
        let now ← dateNow
        if deadline < now then
          fail "Workspace migration rollback is blocked because the rollback window expired"
        else
          unlinkWritten env persistedState transaction
      | _, _ =>
        fail "Workspace migration rollback is blocked because rollback is unavailable"

/-- `recoverInterruptedTransaction`: what is loaded and the journal as they are then. -/
def recoverInterruptedTransaction (loadResult : WorkspaceConfigLoadResult)
    (persistedState : WorkspaceMigrationPersistedState) :
    Migration (WorkspaceConfigLoadResult × WorkspaceMigrationPersistedState) := do
  match persistedState.transaction with
  | none => pure (loadResult, persistedState)
  | some transaction =>
    if transaction.phase ≠ .written then
      pure (loadResult, persistedState)
    else
      let current ← load env
      let now ← dateNow
      if current.revision = some transaction.payloadHash then
        let state ← writeTransaction persistedState
          { transaction with
            phase := .rollbackAvailable
            rollbackAvailable := true
            rollbackDeadline :=
              some (transaction.rollbackDeadline.getD (now + env.rollbackWindowMs)) }
        pure (current, state)
      else
        let state ← writeTransaction persistedState
          { transaction with
            phase := .failed
            rollbackAvailable := false
            rollbackDeadline := some (now + env.rollbackWindowMs)
            error :=
              some "Interrupted migration could not be validated during startup recovery" }
        pure (current, state)

/-- `initialize`. -/
def initializeService : Migration WorkspaceMigrationStartupState := do
  let persistedState ← loadPersistedState
  let loadResult ← load env
  let (loadResult, state) ← recoverInterruptedTransaction env loadResult persistedState
  computeStartupState env loadResult state

end Service

inductive Call where
  | initializeService
  | getStatus
  | previewMigration
  | compareShadow
  | applyMigration
  | activateCanonical (acknowledgedDifferenceHash : Option String)
  | rollbackMigration (transactionId : String)
deriving DecidableEq

def Call.program (env : Environment) : Call → Migration WorkspaceMigrationState
  | .initializeService => do
    let startupState ← WorkspaceMigration.initializeService env
    pure startupState.migration
  | .getStatus => do
    let status ← WorkspaceMigration.getStatus env
    pure status.migration
  | .previewMigration => do
    let status ← WorkspaceMigration.previewMigration env
    pure status.migration
  | .compareShadow => do
    let status ← WorkspaceMigration.compareShadow env
    pure status.migration
  | .applyMigration => do
    let status ← WorkspaceMigration.applyMigration env
    pure status.migration
  | .activateCanonical acknowledgedDifferenceHash => do
    let status ← WorkspaceMigration.activateCanonical env acknowledgedDifferenceHash
    pure status.migration
  | .rollbackMigration transactionId => do
    let status ← WorkspaceMigration.rollbackMigration env transactionId
    pure status.migration

def service (env : Environment) :
    Service World FileOp FileOp.Answer String String Call Edit WorkspaceMigrationState where
  answer := answer
  program := Call.program env
  starts := fun c => c = .initializeService
  edit := edit

/-- A workspace that no migration has touched. -/
def World.Untouched (w : World) : Prop :=
  w.canonical = none ∧ w.hand = .nobody ∧ w.activation = none ∧ w.journal = emptyState

end WorkspaceMigration
end StudioWeb
