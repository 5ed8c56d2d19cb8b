import StudioWeb.Library.JsonText
import StudioWeb.Library.TomlText
import StudioWeb.WorkspaceJobs.SanitizeString

/-!
# The canonical workspace config, and the migration that writes it

`workspace-migration-service.ts`: the text that `renderCanonicalToml` makes of a
configuration, and `applyMigration`, which writes it in place of nothing and validates it
afterwards; and what `workspace-config-service.ts` calls a valid configuration.

How `localeCompare` orders two texts and whether a `resolve.workdir` stays within the
workspace are parameters.  A `workspace` table of `config/core.toml` is modelled where its
parts have the schema's types.
-/

namespace StudioWeb
namespace WorkspaceConfig

open JsonText (renderString)
open WorkspaceJobs (isJsSpace)

structure WorkspaceSourceEntry where
  path : Option String
  adapter : Option String
  role : Option String
  url : Option String
  branch : Option String
deriving DecidableEq

structure WorkspaceTraceabilityConfig where
  crossRepo : Option Bool
  resolveRemoteIds : Option Bool
deriving DecidableEq

structure WorkspaceResolveConfig where
  workdir : Option String
  «namespace» : Option (List (String × String))
deriving DecidableEq

structure WorkspaceValidationConfig where
  allowedContentLanguages : Option (List String)
deriving DecidableEq

/-- `NativeWorkspaceConfigData`; the keys of an object are in the order they were given. -/
structure NativeWorkspaceConfigData where
  version : String
  sources : List (String × WorkspaceSourceEntry)
  traceability : Option WorkspaceTraceabilityConfig
  resolve : Option WorkspaceResolveConfig
  validation : Option WorkspaceValidationConfig
  sourcesOnce : (sources.map Prod.fst).Nodup
  hostsOnce : ∀ r hosts, resolve = some r → r.namespace = some hosts → (hosts.map Prod.fst).Nodup

def SUPPORTED_WORKSPACE_CONFIG_VERSION : String := "1.0"

def emptyConfig : NativeWorkspaceConfigData where
  version := SUPPORTED_WORKSPACE_CONFIG_VERSION
  sources := []
  traceability := none
  resolve := none
  validation := none
  sourcesOnce := .nil
  hostsOnce := nofun

section Schema

open Toml (Value Table)

/-- The schema's types: a field that is there is read as its type. -/
def optionalField {α : Type} (t : Table) (field : String) (read : Value → Option α) :
    Option (Option α) :=
  match t.lookup field with
  | none => some none
  | some v => (read v).map some

def readString : Value → Option String
  | .str s => some s
  | _ => none

def readBool : Value → Option Bool
  | .bool b => some b
  | _ => none

def readTable : Value → Option Table
  | .table t => some t
  | _ => none

def readStrings : Value → Option (List String)
  | .arr items => items.mapM readString
  | _ => none

/-- `additionalProperties: false`. -/
def onlyFields (t : Table) (fields : List String) : Bool := t.all fun e => e.1 ∈ fields

def readSource (v : Value) : Option WorkspaceSourceEntry := do
  let t ← readTable v
  let path ← optionalField t "path" readString
  let adapter ← optionalField t "adapter" readString
  let role ← optionalField t "role" readString
  let url ← optionalField t "url" readString
  let branch ← optionalField t "branch" readString
  if onlyFields t ["path", "adapter", "role", "url", "branch"] then
    some ⟨path, adapter, role, url, branch⟩
  else
    none

def readTraceability (v : Value) : Option WorkspaceTraceabilityConfig := do
  let t ← readTable v
  let crossRepo ← optionalField t "cross_repo" readBool
  let resolveRemoteIds ← optionalField t "resolve_remote_ids" readBool
  if onlyFields t ["cross_repo", "resolve_remote_ids"] then
    some ⟨crossRepo, resolveRemoteIds⟩
  else
    none

def readEntries {α : Type} (read : Value → Option α) (t : Table) : Option (List (String × α)) :=
  t.mapM fun e => (read e.2).map fun a => (e.1, a)

def readResolve (v : Value) : Option WorkspaceResolveConfig := do
  let t ← readTable v
  let workdir ← optionalField t "workdir" readString
  let hosts ← optionalField t "namespace" fun v => (readTable v).bind (readEntries readString)
  if onlyFields t ["workdir", "namespace"] then some ⟨workdir, hosts⟩ else none

def readValidation (v : Value) : Option WorkspaceValidationConfig := do
  let t ← readTable v
  let languages ← optionalField t "allowed_content_languages" readStrings
  if onlyFields t ["allowed_content_languages"] then some ⟨languages⟩ else none

/-- The configuration that a table is, where it has the schema's types; the keys of an object
are distinct. -/
def readConfig (t : Table) : Option NativeWorkspaceConfigData := do
  let version ← (t.lookup "version").bind readString
  let sources ← ((t.lookup "sources").bind readTable).bind (readEntries readSource)
  let traceability ← optionalField t "traceability" readTraceability
  let resolve ← optionalField t "resolve" readResolve
  let validation ← optionalField t "validation" readValidation
  if onlyFields t ["version", "sources", "traceability", "resolve", "validation"] then
    if hsources : (sources.map Prod.fst).Nodup then
      if hhosts : ((resolve.bind fun r => r.namespace).getD []).map Prod.fst |>.Nodup then
        some
          { version := version
            sources := sources
            traceability := traceability
            resolve := resolve
            validation := validation
            sourcesOnce := hsources
            hostsOnce := by
              intro r hosts hr hn
              rw [hr, Option.bind_some, hn] at hhosts
              exact hhosts }
      else
        none
    else
      none
  else
    none

def ROLES : List String := ["artifacts", "codebase", "kits", "full"]

def LANGUAGES : List String := ["en", "ru", "ar", "zh", "ja", "ko", "he", "hi", "th", "ka", "hy"]

/-- A source has a path or a url, a branch only with a url, and no empty text. -/
def WorkspaceSourceEntry.isValid (s : WorkspaceSourceEntry) : Bool :=
  s.path ≠ some "" && s.adapter ≠ some "" && s.url ≠ some "" && s.branch ≠ some "" &&
    s.role.all (· ∈ ROLES) && (s.path.isSome || s.url.isSome) &&
    (s.branch.isNone || s.url.isSome)

variable (workdirInside : String → Bool)

/-- What `inspectRawToml` asks of a configuration of the schema's types. -/
def NativeWorkspaceConfigData.isValid (c : NativeWorkspaceConfigData) : Bool :=
  c.version = SUPPORTED_WORKSPACE_CONFIG_VERSION && c.sources.all (fun s => s.2.isValid) &&
    (c.resolve.bind fun r => r.workdir).all workdirInside &&
    (c.validation.bind fun v => v.allowedContentLanguages).all fun languages =>
      languages ≠ [] && languages.all (· ∈ LANGUAGES)

/-- `inspectRawToml`, of a text that it calls valid. -/
def inspectRawToml (raw : List Char) : Option NativeWorkspaceConfigData :=
  ((Toml.parse raw).bind readConfig).filter fun c => c.isValid workdirInside

end Schema

section Render

-- The order that `localeCompare` puts two texts in.
variable (localeLe : String → String → Bool)

/-- `quote`: `JSON.stringify`. -/
def quote (value : String) : List Char := renderString value

/-- `quoteKey`: a text in which a character of a bare key stands is left as it is. -/
def quoteKey (value : String) : List Char :=
  if value.toList.any Toml.isBareChar then value.toList else quote value

/-- `key = "value"`, where there is a value that is not empty. -/
def textLine (key : String) (value : Option String) : List (List Char) :=
  match value with
  | none => []
  | some v => if v = "" then [] else [key.toList ++ " = ".toList ++ quote v]

/-- `key = true`, where there is a value. -/
def boolLine (key : String) (value : Option Bool) : List (List Char) :=
  match value with
  | none => []
  | some b => [key.toList ++ " = ".toList ++ (if b then "true" else "false").toList]

/-- `Object.entries`, sorted by key. -/
def sortedEntries {α : Type} (entries : List (String × α)) : List (String × α) :=
  entries.mergeSort fun x y => localeLe x.1 y.1

def sourceFields (source : WorkspaceSourceEntry) : List (List Char) :=
  textLine "path" source.path ++ textLine "adapter" source.adapter ++
    textLine "role" source.role ++ textLine "url" source.url ++
    textLine "branch" source.branch

def sourceLines (s : String × WorkspaceSourceEntry) : List (List Char) :=
  ("[sources.".toList ++ s.1.toList ++ [']']) :: (sourceFields s.2 ++ [[]])

def traceabilityLines : Option WorkspaceTraceabilityConfig → List (List Char)
  | none => []
  | some t =>
    "[traceability]".toList :: (boolLine "cross_repo" t.crossRepo ++
      boolLine "resolve_remote_ids" t.resolveRemoteIds ++ [[]])

def hostLine (h : String × String) : List Char := quoteKey h.1 ++ " = ".toList ++ quote h.2

def namespaceLines : Option (List (String × String)) → List (List Char)
  | some (h :: hosts) =>
    [] :: "[resolve.namespace]".toList ::
      ((sortedEntries localeLe (h :: hosts)).map hostLine ++ [[]])
  | _ => [[]]

def resolveLines : Option WorkspaceResolveConfig → List (List Char)
  | none => []
  | some r =>
    "[resolve]".toList :: (textLine "workdir" r.workdir ++ namespaceLines localeLe r.namespace)

def validationLines (v : Option WorkspaceValidationConfig) : List (List Char) :=
  match v.bind fun v => v.allowedContentLanguages with
  | some (l :: languages) =>
    ["[validation]".toList, "allowed_content_languages = [".toList ++
        ", ".toList.intercalate ((l :: languages).map quote) ++ [']'],
      []]
  | _ => []

def canonicalLines (c : NativeWorkspaceConfigData) : List (List Char) :=
  ("version = ".toList ++ quote c.version) :: [] ::
    ((sortedEntries localeLe c.sources).flatMap sourceLines ++
      traceabilityLines c.traceability ++ resolveLines localeLe c.resolve ++
      validationLines c.validation)

/-- `replace(/\n{3,}/gu, '\n\n')`, after some breaks. -/
def foldBreaks : Nat → List Char → List Char
  | _, [] => []
  | breaks, c :: rest =>
    if c = '\n' then
      if breaks < 2 then c :: foldBreaks (breaks + 1) rest else foldBreaks breaks rest
    else
      c :: foldBreaks 0 rest

def trimEnd (text : List Char) : List Char := (text.reverse.dropWhile isJsSpace).reverse

def renderCanonicalToml (c : NativeWorkspaceConfigData) : List Char :=
  trimEnd (foldBreaks 0 (['\n'].intercalate (canonicalLines localeLe c))) ++ ['\n']

end Render

section Migration

/-- A `workspace` table of `config/core.toml`. -/
structure InlineWorkspace where
  version : Option String
  config : NativeWorkspaceConfigData

def normalizeInlineWorkspaceConfig (w : InlineWorkspace) : NativeWorkspaceConfigData :=
  { w.config with
    version :=
      match w.version with
      | some v =>
        if (v.toList.all isJsSpace) then SUPPORTED_WORKSPACE_CONFIG_VERSION else v
      | none => SUPPORTED_WORKSPACE_CONFIG_VERSION }

/-- What `detectMigrationSource` finds. -/
inductive MigrationSource where
  /-- A `.studio-workspace.toml`, with its configuration where the loader calls it valid. -/
  | legacyConfig (config : Option NativeWorkspaceConfigData)
  | inlineCore (workspace : InlineWorkspace)

def MigrationSource.legacy : MigrationSource → Option NativeWorkspaceConfigData
  | .legacyConfig config => config
  | .inlineCore workspace => some (normalizeInlineWorkspaceConfig workspace)

def MigrationSource.candidate (s : MigrationSource) : NativeWorkspaceConfigData :=
  s.legacy.getD emptyConfig

inductive MigrationPhase where
  | pendingWrite
  | written
  | rollbackAvailable
  | failed
deriving DecidableEq

structure MigrationWorkspace where
  canonical : Option (List Char)
  transaction : Option MigrationPhase

/-- The calls of `applyMigration` that may fail. -/
inductive ApplyCall where
  | journalPending
  | writeTemp
  | rename
  | journalWritten
  | load
  | journalEnd
deriving DecidableEq

variable (localeLe : String → String → Bool) (workdirInside : String → Bool)

/-- `applyMigration`, where `fails` is the first call that fails: what it leaves. -/
def applyMigration (source : Option MigrationSource) (fails : Option ApplyCall)
    (w : MigrationWorkspace) : MigrationWorkspace :=
  match source with
  | none => w
  | some s =>
    if w.canonical.isSome then
      w
    else
      let raw := renderCanonicalToml localeLe s.candidate
      let pending := { w with transaction := some .pendingWrite }
      let renamed := { pending with canonical := some raw }
      let written := { renamed with transaction := some .written }
      let phase :=
        if (inspectRawToml workdirInside raw).isSome then
          MigrationPhase.rollbackAvailable
        else
          .failed
      match fails with
      | some .journalPending => w
      | some .writeTemp => pending
      | some .rename => pending
      | some .journalWritten => renamed
      | some .load => written
      | some .journalEnd => written
      | none => { written with transaction := some phase }

end Migration

end WorkspaceConfig
end StudioWeb
