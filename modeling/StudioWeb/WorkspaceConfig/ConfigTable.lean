import Mathlib.Data.List.Nodup
import StudioWeb.WorkspaceConfig.CanonicalText

/-!
# The table that a configuration is

Writing and reading meet here.  What `renderCanonicalToml` writes of a plain configuration is
the table of what it writes of it: the sources and the namespace rules in the order of their
keys, and no field that is empty.  What is read of a configuration's table is the
configuration, where it has a source.
-/

namespace StudioWeb
namespace WorkspaceConfig

open List Option
open Toml (Value Table plain Sections addTable)

/-- A field that may be absent. -/
def optionalEntry (key : String) (value : Option Value) : Table :=
  value.toList.map fun v => (key, v)

def sourceTable (s : WorkspaceSourceEntry) : Table :=
  optionalEntry "path" (s.path.map .str) ++ optionalEntry "adapter" (s.adapter.map .str) ++
    optionalEntry "role" (s.role.map .str) ++ optionalEntry "url" (s.url.map .str) ++
    optionalEntry "branch" (s.branch.map .str)

def traceabilityTable (t : WorkspaceTraceabilityConfig) : Table :=
  optionalEntry "cross_repo" (t.crossRepo.map .bool) ++
    optionalEntry "resolve_remote_ids" (t.resolveRemoteIds.map .bool)

def hostTable (hosts : List (String × String)) : Table := hosts.map fun h => (h.1, .str h.2)

def resolveTable (r : WorkspaceResolveConfig) : Table :=
  optionalEntry "workdir" (r.workdir.map .str) ++
    optionalEntry "namespace" (r.namespace.map fun hosts => .table (hostTable hosts))

def validationTable (v : WorkspaceValidationConfig) : Table :=
  optionalEntry "allowed_content_languages"
    (v.allowedContentLanguages.map fun languages => .arr (languages.map .str))

def sourcesTable (sources : List (String × WorkspaceSourceEntry)) : Table :=
  sources.map fun s => (s.1, .table (sourceTable s.2))

def sourcesValue : List (String × WorkspaceSourceEntry) → Option Value
  | [] => none
  | s :: sources => some (.table (sourcesTable (s :: sources)))

def configTable (c : NativeWorkspaceConfigData) : Table :=
  [("version", .str c.version)] ++ optionalEntry "sources" (sourcesValue c.sources) ++
    (optionalEntry "traceability" (c.traceability.map fun t => .table (traceabilityTable t)) ++
      optionalEntry "resolve" (c.resolve.map fun r => .table (resolveTable r)) ++
      optionalEntry "validation" (c.validation.map fun v => .table (validationTable v)))

variable (k key : String) (value : Option Value)

@[simp] theorem lookup_optionalEntry (rest : Table) :
    (optionalEntry key value ++ rest).lookup k =
      if k = key then value.or (rest.lookup k) else rest.lookup k := by
  cases value with
  | none =>
    change rest.lookup k = _
    split <;> rfl
  | some v =>
    change ((key, v) :: rest).lookup k = _
    rw [lookup_cons]
    split
    · next heq =>
      rw [if_pos (eq_of_beq heq)]
      rfl
    · next hne =>
      rw [if_neg (beq_eq_false_iff_ne.mp hne)]

@[simp] theorem lookup_optionalEntry_last :
    (optionalEntry key value).lookup k = if k = key then value else none := by
  have h := lookup_optionalEntry k key value []
  rw [append_nil, lookup_nil, or_none] at h
  exact h

theorem optionalField_of_lookup
    {α : Type} {t : Table} {field : String} {read : Value → Option α} {write : α → Value}
    {value : Option α} (hlookup : t.lookup field = value.map write)
    (hread : ∀ a, value = some a → read (write a) = some a) :
    optionalField t field read = some value := by
  unfold optionalField
  rw [hlookup]
  cases value with
  | none => rfl
  | some a => exact congrArg (Option.map some) (hread a rfl)

theorem onlyFields_optionalEntry {key : String} {fields : List String} (value : Option Value)
    (h : key ∈ fields) : onlyFields (optionalEntry key value) fields = true := by
  cases value with
  | none => rfl
  | some => exact List.all_eq_true.mpr (by simpa [optionalEntry] using h)

theorem onlyFields_append {t u : Table} {fields : List String} (ht : onlyFields t fields = true)
    (hu : onlyFields u fields = true) : onlyFields (t ++ u) fields = true := by
  unfold onlyFields at ht hu ⊢
  rw [all_append, ht, hu]
  rfl

theorem readSource_sourceTable (s : WorkspaceSourceEntry) :
    readSource (.table (sourceTable s)) = some s := by
  obtain ⟨path, adapter, role, url, branch⟩ := s
  have hfield : ∀ (field : String) (value : Option String),
      (sourceTable ⟨path, adapter, role, url, branch⟩).lookup field = value.map .str →
        optionalField (sourceTable ⟨path, adapter, role, url, branch⟩) field readString =
          some value :=
    fun _ _ hlookup => optionalField_of_lookup hlookup fun _ _ => rfl
  have honly : onlyFields (sourceTable ⟨path, adapter, role, url, branch⟩)
      ["path", "adapter", "role", "url", "branch"] = true := by
    refine onlyFields_append (onlyFields_append (onlyFields_append (onlyFields_append ?_ ?_) ?_)
      ?_) ?_ <;> exact onlyFields_optionalEntry _ (by decide)
  have hpath := hfield "path" path (by simp [sourceTable])
  have hadapter := hfield "adapter" adapter (by simp [sourceTable])
  have hrole := hfield "role" role (by simp [sourceTable])
  have hurl := hfield "url" url (by simp [sourceTable])
  have hbranch := hfield "branch" branch (by simp [sourceTable])
  unfold readSource readTable
  simp only [bind_eq_bind, bind_some, hpath, hadapter, hrole, hurl, hbranch,
    honly, if_true]

theorem readTraceability_traceabilityTable (t : WorkspaceTraceabilityConfig) :
    readTraceability (.table (traceabilityTable t)) = some t := by
  obtain ⟨crossRepo, resolveRemoteIds⟩ := t
  have hcross : optionalField (traceabilityTable ⟨crossRepo, resolveRemoteIds⟩) "cross_repo"
      readBool = some crossRepo :=
    @optionalField_of_lookup _ _ _ _ .bool _ (by simp [traceabilityTable]) fun _ _ => rfl
  have hremote : optionalField (traceabilityTable ⟨crossRepo, resolveRemoteIds⟩)
      "resolve_remote_ids" readBool = some resolveRemoteIds :=
    @optionalField_of_lookup _ _ _ _ .bool _ (by simp [traceabilityTable]) fun _ _ => rfl
  have honly : onlyFields (traceabilityTable ⟨crossRepo, resolveRemoteIds⟩)
      ["cross_repo", "resolve_remote_ids"] = true :=
    onlyFields_append (onlyFields_optionalEntry _ (by decide))
      (onlyFields_optionalEntry _ (by decide))
  unfold readTraceability readTable
  simp only [bind_eq_bind, bind_some, hcross, hremote, honly, if_true]

theorem readEntries_written {α : Type} {read : Value → Option α} {write : α → Value}
    (hread : ∀ a, read (write a) = some a) (entries : List (String × α)) :
    readEntries read (entries.map fun e => (e.1, write e.2)) = some entries := by
  unfold readEntries
  induction entries with
  | nil => rfl
  | cons _ _ ih =>
    rw [map_cons, mapM_cons, ih]
    dsimp only
    rw [hread]
    rfl

theorem readResolve_resolveTable (r : WorkspaceResolveConfig) :
    readResolve (.table (resolveTable r)) = some r := by
  obtain ⟨workdir, hosts⟩ := r
  have hworkdir : optionalField (resolveTable ⟨workdir, hosts⟩) "workdir" readString =
      some workdir :=
    @optionalField_of_lookup _ _ _ _ .str _ (by simp [resolveTable]) fun _ _ => rfl
  have hhosts : optionalField (resolveTable ⟨workdir, hosts⟩) "namespace"
      (fun v => (readTable v).bind (readEntries readString)) = some hosts :=
    @optionalField_of_lookup _ _ _ _ (fun hosts => .table (hostTable hosts)) _
      (by simp [resolveTable]) fun hosts _ =>
        @readEntries_written _ readString .str (fun _ => rfl) hosts
  have honly : onlyFields (resolveTable ⟨workdir, hosts⟩) ["workdir", "namespace"] = true :=
    onlyFields_append (onlyFields_optionalEntry _ (by decide))
      (onlyFields_optionalEntry _ (by decide))
  unfold readResolve
  rw [readTable]
  simp only [bind_eq_bind, bind_some, hworkdir, hhosts, honly, if_true]

theorem readStrings_written (languages : List String) :
    readStrings (.arr (languages.map .str)) = some languages := by
  change (languages.map Value.str).mapM readString = some languages
  induction languages with
  | nil => rfl
  | cons _ _ ih =>
    rw [map_cons, mapM_cons, ih]
    rfl

theorem readValidation_validationTable (v : WorkspaceValidationConfig) :
    readValidation (.table (validationTable v)) = some v := by
  obtain ⟨languages⟩ := v
  have hlanguages : optionalField (validationTable ⟨languages⟩) "allowed_content_languages"
      readStrings = some languages :=
    @optionalField_of_lookup _ _ _ _ (fun languages => .arr (languages.map .str)) _
      (by simp [validationTable]) fun languages _ => readStrings_written languages
  have honly : onlyFields (validationTable ⟨languages⟩) ["allowed_content_languages"] = true :=
    onlyFields_optionalEntry _ (by decide)
  unfold readValidation readTable
  simp only [bind_eq_bind, bind_some, hlanguages, honly, if_true]

theorem sourcesValue_eq {sources : List (String × WorkspaceSourceEntry)} (hne : sources ≠ []) :
    sourcesValue sources = some (.table (sourcesTable sources)) := by
  cases sources with
  | nil => exact absurd rfl hne
  | cons => rfl

theorem readConfig_sourceless {c : NativeWorkspaceConfigData} (h : c.sources = []) :
    readConfig (configTable c) = none := by
  have hlookup : (configTable c).lookup "sources" = none := by
    simp [configTable, h, sourcesValue, lookup_cons]
  unfold readConfig
  rw [hlookup]
  cases ((configTable c).lookup "version").bind readString <;> rfl

theorem readConfig_configTable {c : NativeWorkspaceConfigData} (hne : c.sources ≠ []) :
    readConfig (configTable c) = some c := by
  obtain ⟨version, sources, traceability, resolve, validation, hsources, hhosts⟩ := c
  let c : NativeWorkspaceConfigData :=
    ⟨version, sources, traceability, resolve, validation, hsources, hhosts⟩
  have hversion : ((configTable c).lookup "version").bind readString = some version := by
    simp [c, configTable, readString]
  have hentries : (((configTable c).lookup "sources").bind readTable).bind
      (readEntries readSource) = some sources := by
    have hread := readEntries_written readSource_sourceTable sources
    have hlookup : (configTable c).lookup "sources" = some (.table (sourcesTable sources)) := by
      have hvalue := sourcesValue_eq hne
      dsimp only at hvalue
      simp [c, configTable, lookup_cons, hvalue]
    rw [hlookup]
    exact hread
  have htraceability : optionalField (configTable c) "traceability" readTraceability =
      some traceability :=
    @optionalField_of_lookup _ _ _ _ (fun t => .table (traceabilityTable t)) _
      (by simp [c, configTable, lookup_cons]) fun t _ => readTraceability_traceabilityTable t
  have hresolve : optionalField (configTable c) "resolve" readResolve = some resolve :=
    @optionalField_of_lookup _ _ _ _ (fun r => .table (resolveTable r)) _
      (by simp [c, configTable, lookup_cons]) fun r _ => readResolve_resolveTable r
  have hvalidation : optionalField (configTable c) "validation" readValidation = some validation :=
    @optionalField_of_lookup _ _ _ _ (fun v => .table (validationTable v)) _
      (by simp [c, configTable, lookup_cons]) fun v _ => readValidation_validationTable v
  have honly : onlyFields (configTable c)
      ["version", "sources", "traceability", "resolve", "validation"] = true := by
    refine onlyFields_append (onlyFields_append rfl ?_)
      (onlyFields_append (onlyFields_append ?_ ?_) ?_) <;>
        exact onlyFields_optionalEntry _ (by decide)
  have hnodup : ((resolve.bind fun r => r.namespace).getD []).map Prod.fst |>.Nodup := by
    cases hr : resolve.bind fun r => r.namespace with
    | none => exact .nil
    | some hosts =>
      obtain ⟨r, hresolved, hn⟩ := bind_eq_some_iff.mp hr
      exact hhosts r hosts hresolved hn
  unfold readConfig
  simp only [bind_eq_bind, c, hversion, hentries, htraceability, hresolve, hvalidation,
    honly, bind_some, if_true, dif_pos hsources, dif_pos hnodup]

section Plain

/-- Every text of a source is one that TOML takes as `JSON.stringify` writes it. -/
def WorkspaceSourceEntry.isPlain (s : WorkspaceSourceEntry) : Bool :=
  [s.path, s.adapter, s.role, s.url, s.branch].all fun field => field.all isTomlText

def WorkspaceResolveConfig.isPlain (r : WorkspaceResolveConfig) : Bool :=
  r.workdir.all isTomlText &&
    r.namespace.all fun hosts => hosts.all fun h => isHostKey h.1 && isTomlText h.2

/-- Every key and every text of a configuration is one that TOML takes as it is written. -/
def NativeWorkspaceConfigData.isPlain (c : NativeWorkspaceConfigData) : Bool :=
  isTomlText c.version && c.sources.all (fun s => isBareKey s.1 && s.2.isPlain) &&
    c.resolve.all WorkspaceResolveConfig.isPlain &&
    (c.validation.bind fun v => v.allowedContentLanguages).all fun languages =>
      languages.all isTomlText

/-- A text that is written only where it is not empty. -/
def nonEmpty (value : Option String) : Option String := value.filter fun v => v ≠ ""

def writtenSource (s : WorkspaceSourceEntry) : WorkspaceSourceEntry :=
  ⟨nonEmpty s.path, nonEmpty s.adapter, nonEmpty s.role, nonEmpty s.url, nonEmpty s.branch⟩

variable (localeLe : String → String → Bool)

theorem perm_sortedEntries {α : Type} (entries : List (String × α)) :
    (sortedEntries localeLe entries).Perm entries :=
  mergeSort_perm entries _

def writtenResolve (r : WorkspaceResolveConfig) : WorkspaceResolveConfig :=
  ⟨nonEmpty r.workdir, (r.namespace.filter fun hosts => hosts ≠ []).map (sortedEntries localeLe)⟩

def writtenConfig (c : NativeWorkspaceConfigData) : NativeWorkspaceConfigData where
  version := c.version
  sources := (sortedEntries localeLe c.sources).map fun s => (s.1, writtenSource s.2)
  traceability := c.traceability
  resolve := c.resolve.map (writtenResolve localeLe)
  validation := c.validation.filter fun v => v.allowedContentLanguages.any fun ls => ls ≠ []
  sourcesOnce := by
    have honce := ((perm_sortedEntries localeLe c.sources).map _).nodup_iff.mpr c.sourcesOnce
    rw [List.map_map]
    exact honce
  hostsOnce := by
    intro r hosts hr hhosts
    obtain ⟨r, hresolve, rfl⟩ := map_eq_some_iff.mp hr
    obtain ⟨given, hgiven, rfl⟩ := map_eq_some_iff.mp hhosts
    have honce := c.hostsOnce r given hresolve (filter_eq_some_iff.mp hgiven).1
    exact ((perm_sortedEntries localeLe given).map _).nodup_iff.mpr honce

end Plain

section Writing

def Pairs (texts : List (List Char)) (t : Table) : Prop :=
  List.Forall₂ Reads texts ((plain t).map .pair)

theorem Pairs.append {texts more : List (List Char)} {t u : Table} (ht : Pairs texts t)
    (hu : Pairs more u) : Pairs (texts ++ more) (t ++ u) := by
  unfold Pairs plain at *
  rw [map_append, map_append]
  exact rel_append ht hu

theorem pairs_textLine {key : String} {value : Option String} (hkey : isBareKey key = true)
    (hvalue : value.all isTomlText = true) :
    Pairs (textLine key value) (optionalEntry key ((nonEmpty value).map .str)) := by
  cases value with
  | none => exact .nil
  | some v =>
    by_cases hv : v = ""
    · subst hv
      exact .nil
    · have hkept : nonEmpty (some v) = some v := by simp [nonEmpty, hv]
      rw [hkept]
      unfold textLine
      dsimp only
      rw [if_neg hv]
      exact .cons (reads_text hkey hvalue) .nil

theorem pairs_boolLine {key : String} (value : Option Bool) (hkey : isBareKey key = true) :
    Pairs (boolLine key value) (optionalEntry key (value.map .bool)) := by
  cases value with
  | none => exact .nil
  | some b => exact .cons (reads_bool hkey b) .nil

theorem pairs_hosts {hosts : List (String × String)}
    (h : hosts.all (fun h => isHostKey h.1 && isTomlText h.2) = true) :
    Pairs (hosts.map hostLine) (hostTable hosts) := by
  induction hosts with
  | nil => exact .nil
  | cons _ _ ih =>
    rw [all_cons, Bool.and_eq_true, Bool.and_eq_true] at h
    obtain ⟨⟨hkey, hvalue⟩, hmore⟩ := h
    exact .cons (reads_host hkey hvalue) (ih hmore)

theorem pairs_sourceFields {s : WorkspaceSourceEntry} (hplain : s.isPlain = true) :
    Pairs (sourceFields s) (sourceTable (writtenSource s)) := by
  unfold WorkspaceSourceEntry.isPlain at hplain
  simp only [all_cons, all_nil, Bool.and_true, Bool.and_eq_true] at hplain
  obtain ⟨hpath, hadapter, hrole, hurl, hbranch⟩ := hplain
  refine ((((?_ : Pairs _ _).append ?_).append ?_).append ?_).append ?_
  · exact pairs_textLine (by decide) hpath
  · exact pairs_textLine (by decide) hadapter
  · exact pairs_textLine (by decide) hrole
  · exact pairs_textLine (by decide) hurl
  · exact pairs_textLine (by decide) hbranch

/-- Lines that are some sections of keys that are not dotted. -/
def Writes (texts : List (List Char)) (ss : List (List String × Table)) : Prop :=
  ∃ ls, List.Forall₂ Reads texts ls ∧ Sections ls (ss.map fun s => (s.1, plain s.2))

theorem Writes.nil : Writes [] [] := ⟨[], .nil, Sections.nil⟩

theorem Writes.blank : Writes [[]] [] := ⟨[.blank], .cons reads_blank .nil, Sections.blank⟩

theorem Writes.append {texts more : List (List Char)} {ss tt : List (List String × Table)}
    (hfirst : Writes texts ss) (hsecond : Writes more tt) : Writes (texts ++ more) (ss ++ tt) := by
  obtain ⟨ls, hreads, hsections⟩ := hfirst
  obtain ⟨ms, hmore, hrest⟩ := hsecond
  refine ⟨ls ++ ms, rel_append hreads hmore, ?_⟩
  rw [map_append]
  exact hsections.append hrest

theorem Writes.one {text : List Char} {texts : List (List Char)} {path : List String} {t : Table}
    (hheader : Reads text (.header path)) (hpairs : Pairs texts t) :
    Writes (text :: texts) [(path, t)] :=
  ⟨_, .cons hheader hpairs, Sections.one path (plain t)⟩

theorem Writes.section
    {text : List Char} {texts : List (List Char)} {path : List String} {t : Table}
    (hheader : Reads text (.header path)) (hpairs : Pairs texts t) :
    Writes (text :: (texts ++ [[]])) [(path, t)] :=
  (Writes.one hheader hpairs).append Writes.blank

theorem writes_sources {sources : List (String × WorkspaceSourceEntry)}
    (hplain : sources.all (fun s => isBareKey s.1 && s.2.isPlain) = true) :
    Writes (sources.flatMap sourceLines)
      (sources.map fun s => (["sources", s.1], sourceTable (writtenSource s.2))) := by
  induction sources with
  | nil => exact Writes.nil
  | cons _ _ ih =>
    rw [all_cons, Bool.and_eq_true] at hplain
    obtain ⟨hid, hfields⟩ := Bool.and_eq_true_iff.mp hplain.1
    have hfirst := Writes.section (reads_source hid) (pairs_sourceFields hfields)
    exact hfirst.append (ih hplain.2)

theorem reads_traceability : Reads "[traceability]".toList (.header ["traceability"]) :=
  ⟨forall_mem_of_all (by decide), by simp; decide, readLine_traceability⟩

theorem reads_resolve : Reads "[resolve]".toList (.header ["resolve"]) :=
  ⟨forall_mem_of_all (by decide), by simp; decide, readLine_resolve⟩

theorem reads_namespace : Reads "[resolve.namespace]".toList (.header ["resolve", "namespace"]) :=
  ⟨forall_mem_of_all (by decide), by simp; decide, readLine_namespace⟩

theorem reads_validation : Reads "[validation]".toList (.header ["validation"]) :=
  ⟨forall_mem_of_all (by decide), by simp; decide, readLine_validation⟩

def partSection {α : Type} (name : String) (table : α → Table) (part : Option α) :
    List (List String × Table) :=
  part.toList.map fun a => ([name], table a)

theorem writes_traceability (t : Option WorkspaceTraceabilityConfig) :
    Writes (traceabilityLines t) (partSection "traceability" traceabilityTable t) := by
  cases t with
  | none => exact Writes.nil
  | some t =>
    exact Writes.section reads_traceability ((pairs_boolLine t.crossRepo (by decide)).append
        (pairs_boolLine t.resolveRemoteIds (by decide)))

/-- The sections of where sources are found. -/
def resolveSections (r : Option WorkspaceResolveConfig) : List (List String × Table) :=
  r.toList.flatMap fun r =>
    (["resolve"], optionalEntry "workdir" (r.workdir.map .str)) ::
      r.namespace.toList.map fun hosts => (["resolve", "namespace"], hostTable hosts)

variable (localeLe : String → String → Bool)

theorem writes_resolve {r : Option WorkspaceResolveConfig}
    (hplain : r.all WorkspaceResolveConfig.isPlain = true) :
    Writes (resolveLines localeLe r) (resolveSections (r.map (writtenResolve localeLe))) := by
  cases r with
  | none => exact Writes.nil
  | some r =>
    obtain ⟨workdir, hosts⟩ := r
    obtain ⟨hworkdir, hhosts⟩ := Bool.and_eq_true_iff.mp hplain
    have hpairs := @pairs_textLine "workdir" workdir (by decide) hworkdir
    have hfirst := Writes.section reads_resolve hpairs
    match hosts with
    | none => exact hfirst
    | some [] => exact hfirst
    | some (h :: hosts) =>
      have hsorted : (sortedEntries localeLe (h :: hosts)).all
          (fun h => isHostKey h.1 && isTomlText h.2) = true := by
        rw [(perm_sortedEntries localeLe (h :: hosts)).all_eq]
        exact hhosts
      have hrules := Writes.section reads_namespace (pairs_hosts hsorted)
      have htogether := hfirst.append hrules
      rw [cons_append, append_assoc] at htogether
      exact htogether

theorem writes_validation {v : Option WorkspaceValidationConfig}
    (hplain : (v.bind fun v => v.allowedContentLanguages).all (fun languages =>
      languages.all isTomlText) = true) :
    Writes (validationLines v) (partSection "validation" validationTable
      (v.filter fun v => v.allowedContentLanguages.any fun ls => ls ≠ [])) := by
  match v with
  | none => exact Writes.nil
  | some ⟨none⟩ => exact Writes.nil
  | some ⟨some []⟩ => exact Writes.nil
  | some ⟨some (l :: languages)⟩ =>
    rw [bind_some, all_some] at hplain
    have hpairs : Pairs ["allowed_content_languages = [".toList ++
        ", ".toList.intercalate ((l :: languages).map quote) ++ [']']]
          (validationTable ⟨some (l :: languages)⟩) :=
      .cons (reads_languages (List.all_eq_true.mp hplain)) .nil
    exact Writes.section reads_validation hpairs

def configSections (c : NativeWorkspaceConfigData) : List (List String × Table) :=
  c.sources.map (fun s => (["sources", s.1], sourceTable s.2)) ++
    partSection "traceability" traceabilityTable c.traceability ++ resolveSections c.resolve ++
    partSection "validation" validationTable c.validation

theorem writes_canonical {c : NativeWorkspaceConfigData} (hplain : c.isPlain = true) :
    Writes ((sortedEntries localeLe c.sources).flatMap sourceLines ++
        traceabilityLines c.traceability ++ resolveLines localeLe c.resolve ++
        validationLines c.validation)
      (configSections (writtenConfig localeLe c)) := by
  simp only [NativeWorkspaceConfigData.isPlain, Bool.and_eq_true] at hplain
  obtain ⟨⟨⟨-, hids⟩, hresolve⟩, hvalidation⟩ := hplain
  rw [← (perm_sortedEntries localeLe c.sources).all_eq] at hids
  have hsources := writes_sources hids
  have hwritten : (sortedEntries localeLe c.sources).map
      (fun s => (["sources", s.1], sourceTable (writtenSource s.2))) =
        (writtenConfig localeLe c).sources.map fun s => (["sources", s.1], sourceTable s.2) := by
    unfold writtenConfig
    rw [List.map_map]
    rfl
  rw [hwritten] at hsources
  exact ((hsources.append (writes_traceability c.traceability)).append
    (writes_resolve localeLe hresolve)).append (writes_validation hvalidation)

end Writing

theorem foldlM_partSection {α : Type} {name : String} {t : Table} (table : α → Table)
    (part : Option α) (h : t.lookup name = none) :
    (partSection name table part).foldlM (fun t s => addTable s.1 s.2 t) t =
      some (t ++ optionalEntry name (part.map fun a => .table (table a))) := by
  cases part with
  | none =>
    change some t = some (t ++ [])
    rw [append_nil]
  | some a =>
    change ((addTable [name] (table a) t).bind some) = _
    rw [Toml.addTable_new h]
    rfl

theorem foldlM_resolveSections {t : Table} (r : Option WorkspaceResolveConfig)
    (h : t.lookup "resolve" = none) :
    (resolveSections r).foldlM (fun t s => addTable s.1 s.2 t) t =
      some (t ++ optionalEntry "resolve" (r.map fun r => .table (resolveTable r))) := by
  match r with
  | none =>
    change some t = some (t ++ [])
    rw [append_nil]
  | some ⟨workdir, none⟩ =>
    change ((addTable ["resolve"] (optionalEntry "workdir" (workdir.map .str)) t).bind some) = _
    rw [Toml.addTable_new h]
    change _ = some (t ++ [("resolve", .table (optionalEntry "workdir" (workdir.map .str) ++ []))])
    rw [append_nil]
    rfl
  | some ⟨workdir, some hosts⟩ =>
    have hinner : addTable ["namespace"] (hostTable hosts)
        (optionalEntry "workdir" (workdir.map .str)) =
          some (optionalEntry "workdir" (workdir.map .str) ++
            [("namespace", .table (hostTable hosts))]) :=
      Toml.addTable_new (by simp)
    change ((addTable ["resolve"] (optionalEntry "workdir" (workdir.map .str)) t).bind fun t =>
      (addTable ["resolve", "namespace"] (hostTable hosts) t).bind some) = _
    rw [Toml.addTable_new h, bind_some, Toml.addTable_under h hinner]
    rfl

theorem foldlM_sources {sources : List (String × WorkspaceSourceEntry)} {t : Table}
    (honce : (sources.map Prod.fst).Nodup) (h : t.lookup "sources" = none) :
    (sources.map fun s => (["sources", s.1], sourceTable s.2)).foldlM
        (fun t s => addTable s.1 s.2 t) t =
      some (t ++ optionalEntry "sources" (sourcesValue sources)) := by
  cases sources with
  | nil =>
    change some t = some (t ++ [])
    rw [append_nil]
  | cons s sources =>
    have hmore := @Toml.foldlM_addTable_under "sources" t
      [(s.1, .table (sourceTable s.2))] (sources.map fun s => (s.1, sourceTable s.2)) h
      (by simpa [Function.comp_def] using honce)
    rw [List.map_map, List.map_map] at hmore
    change ((addTable ["sources", s.1] (sourceTable s.2) t).bind fun t =>
      (sources.map fun s => (["sources", s.1], sourceTable s.2)).foldlM
        (fun t s => addTable s.1 s.2 t) t) = _
    rw [Toml.addTable_first h, bind_some]
    exact hmore

theorem foldlM_configSections (c : NativeWorkspaceConfigData) :
    (configSections c).foldlM (fun t s => addTable s.1 s.2 t) [("version", .str c.version)] =
      some (configTable c) := by
  have hsources := @foldlM_sources c.sources [("version", .str c.version)] c.sourcesOnce rfl
  unfold configSections
  rw [foldlM_append, foldlM_append, foldlM_append, hsources]
  simp only [bind_eq_bind, bind_some]
  rw [foldlM_partSection _ _ (by simp [lookup_cons]), bind_some,
    foldlM_resolveSections _ (by simp [lookup_cons]), bind_some,
    foldlM_partSection _ _ (by simp [lookup_cons])]
  simp [configTable]

theorem keys_optionalEntry (key : String) (value : Option Value) :
    ((optionalEntry key value).map Prod.fst).Sublist [key] := by
  cases value with
  | none => exact nil_sublist [key]
  | some => exact List.Sublist.refl [key]

theorem keys_append {t u : Table} {ks ls : List String} (ht : (t.map Prod.fst).Sublist ks)
    (hu : (u.map Prod.fst).Sublist ls) : ((t ++ u).map Prod.fst).Sublist (ks ++ ls) := by
  rw [map_append]
  exact ht.append hu

theorem nodup_sourceTable (s : WorkspaceSourceEntry) : ((sourceTable s).map Prod.fst).Nodup := by
  have hkeys := keys_append (keys_append (keys_append (keys_append
    (keys_optionalEntry "path" (s.path.map .str))
    (keys_optionalEntry "adapter" (s.adapter.map .str)))
    (keys_optionalEntry "role" (s.role.map .str))) (keys_optionalEntry "url" (s.url.map .str)))
    (keys_optionalEntry "branch" (s.branch.map .str))
  exact hkeys.nodup (by decide)

theorem nodup_configSections {c : NativeWorkspaceConfigData} {s : List String × Table}
    (hs : s ∈ configSections c) : (s.2.map Prod.fst).Nodup := by
  simp only [configSections, mem_append, List.mem_map, partSection, resolveSections,
    mem_flatMap, mem_cons, mem_toList] at hs
  rcases hs with ((⟨e, -, rfl⟩ | ⟨t, -, rfl⟩) | ⟨r, hr, rfl | ⟨hosts, hhosts, rfl⟩⟩) | ⟨v, -, rfl⟩
  · exact nodup_sourceTable e.2
  · exact (keys_append (keys_optionalEntry _ _) (keys_optionalEntry _ _)).nodup (by decide)
  · exact (keys_optionalEntry "workdir" _).nodup (by decide)
  · have hkeys : (hostTable hosts).map Prod.fst = hosts.map Prod.fst := by
      unfold hostTable
      rw [List.map_map]
      rfl
    rw [hkeys]
    exact c.hostsOnce r hosts hr hhosts
  · exact (keys_optionalEntry "allowed_content_languages" _).nodup (by decide)

theorem headers_partSection {α : Type} (name : String) (table : α → Table) (part : Option α) :
    ((partSection name table part).map Prod.fst).Sublist [[name]] := by
  cases part with
  | none => exact nil_sublist [[name]]
  | some => exact List.Sublist.refl [[name]]

theorem headers_resolveSections (r : Option WorkspaceResolveConfig) :
    ((resolveSections r).map Prod.fst).Sublist [["resolve"], ["resolve", "namespace"]] := by
  match r with
  | none => exact nil_sublist _
  | some ⟨_, none⟩ => exact (nil_sublist _).cons_cons _
  | some ⟨_, some _⟩ => exact List.Sublist.refl _

theorem nodup_headers (c : NativeWorkspaceConfigData) :
    ((configSections c).map Prod.fst).Nodup := by
  have hsources : ((c.sources.map Prod.fst).map fun id => ["sources", id]).Nodup := by
    refine List.Nodup.map ?_ c.sourcesOnce
    intro id other heq
    exact (List.cons.inj (List.cons.inj heq).2).1
  have hheaders : (c.sources.map fun s => (["sources", s.1], sourceTable s.2)).map Prod.fst =
      (c.sources.map Prod.fst).map fun id => ["sources", id] := by
    rw [List.map_map, List.map_map]
    rfl
  have hparts : ((partSection "traceability" traceabilityTable c.traceability ++
      (resolveSections c.resolve ++
        partSection "validation" validationTable c.validation)).map Prod.fst).Sublist
          ([["traceability"]] ++ ([["resolve"], ["resolve", "namespace"]] ++
            [["validation"]])) := by
    rw [map_append, map_append]
    exact (headers_partSection _ _ _).append
      ((headers_resolveSections c.resolve).append (headers_partSection _ _ _))
  unfold configSections
  rw [append_assoc, append_assoc, map_append, hheaders]
  refine nodup_append.mpr ⟨hsources, hparts.nodup (by decide), ?_⟩
  rintro a ha b hb rfl
  obtain ⟨id, -, rfl⟩ := List.mem_map.mp ha
  have hin := hparts.mem hb
  simp at hin

/-- The text of a plain configuration is the table of what is written of it. -/
theorem parse_renderCanonicalToml
    {localeLe : String → String → Bool} {c : NativeWorkspaceConfigData}
    (hplain : c.isPlain = true) :
    Toml.parse (renderCanonicalToml localeLe c) =
      some (configTable (writtenConfig localeLe c)) := by
  obtain ⟨ls, hreads, hsections⟩ := writes_canonical localeLe hplain
  have hversion : isTomlText c.version = true := by
    simp only [NativeWorkspaceConfigData.isPlain, Bool.and_eq_true] at hplain
    exact hplain.1.1.1
  have hfirst : Reads ("version = ".toList ++ quote c.version)
      (.pair (["version"], .str c.version)) :=
    @reads_text "version" _ (by decide) hversion
  have hall : List.Forall₂ Reads (canonicalLines localeLe c)
      ((plain [("version", .str c.version)]).map .pair ++ .blank :: ls) :=
    .cons hfirst (.cons reads_blank hreads)
  have hblank : Sections (.blank :: ls)
      ((configSections (writtenConfig localeLe c)).map fun s => (s.1, plain s.2)) :=
    Sections.append Sections.blank hsections
  have htext := parse_folded (by unfold canonicalLines; exact cons_ne_nil _ _) hall
  unfold renderCanonicalToml
  rw [htext]
  exact Toml.document_plain hblank (by simp) (fun _ => nodup_configSections)
    (nodup_headers (writtenConfig localeLe c)) (foldlM_configSections (writtenConfig localeLe c))

end WorkspaceConfig
end StudioWeb
