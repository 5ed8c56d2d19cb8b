import StudioWeb.WorkspaceConfig.ConfigTable

/-!
# What a migration keeps

`applyMigration` writes the text of what it could read, and validates it afterwards.  Where
every key and every text is one that TOML takes as it is written, the text is a valid one of
the same configuration exactly when the configuration is valid, has a source and has no field
that is there and empty.  A source that cannot be read is written as an empty configuration,
which is not valid.
-/

namespace StudioWeb
namespace WorkspaceConfig

open List Option NativeWorkspaceConfigData

section Same

/-- The same namespace rules and working directory. -/
structure SameResolve (r s : WorkspaceResolveConfig) : Prop where
  workdir : s.workdir = r.workdir
  rules : Option.Rel List.Perm s.namespace r.namespace

/-- The same configuration; the keys of an object may stand in any order. -/
structure SameConfig (c d : NativeWorkspaceConfigData) : Prop where
  version : d.version = c.version
  sources : d.sources.Perm c.sources
  traceability : d.traceability = c.traceability
  resolve : Option.Rel SameResolve c.resolve d.resolve
  validation : d.validation = c.validation

variable (localeLe : String → String → Bool) (workdirInside : String → Bool)

def Says (raw : List Char) (c : NativeWorkspaceConfigData) : Prop :=
  ∃ d, inspectRawToml workdirInside raw = some d ∧ SameConfig c d

/-- The migration keeps the configuration of its source: the text made of it says it, and
what `applyMigration` leaves in place of nothing, wherever it stops, is nothing or a text
that says it. -/
structure KeepsConfiguration (s : MigrationSource) : Prop where
  rendered : ∀ c, s.legacy = some c → Says workdirInside (renderCanonicalToml localeLe c) c
  applied : ∀ fails w, w.canonical = none → ∀ raw,
    (applyMigration localeLe workdirInside (some s) fails w).canonical = some raw →
      ∃ c, s.legacy = some c ∧ Says workdirInside raw c

/-- Some source, and no field that is there and empty. -/
def NativeWorkspaceConfigData.isWhole (c : NativeWorkspaceConfigData) : Bool :=
  c.sources ≠ [] && c.resolve.all (fun r => r.workdir ≠ some "" && r.namespace ≠ some []) &&
    c.validation.all fun v => v.allowedContentLanguages.isSome

end Same

section Validity

variable {workdirInside : String → Bool}

theorem isValid_same {c d : NativeWorkspaceConfigData} (h : SameConfig c d) :
    d.isValid workdirInside = c.isValid workdirInside := by
  have hworkdir : (d.resolve.bind fun r => r.workdir) = c.resolve.bind fun r => r.workdir := by
    have hrel := h.resolve
    generalize c.resolve = given at hrel ⊢
    generalize d.resolve = written at hrel ⊢
    cases hrel with
    | none => rfl
    | some hsame => exact hsame.workdir
  unfold isValid
  rw [h.version, h.sources.all_eq, h.validation, hworkdir]

theorem nonEmpty_of_ne {value : Option String} (h : value ≠ some "") : nonEmpty value = value := by
  cases value with
  | none => rfl
  | some v =>
    have hv : v ≠ "" := fun heq => h (congrArg some heq)
    simp [nonEmpty, hv]

theorem writtenSource_valid {s : WorkspaceSourceEntry} (h : s.isValid = true) :
    writtenSource s = s := by
  simp only [WorkspaceSourceEntry.isValid, Bool.and_eq_true, decide_eq_true_eq] at h
  obtain ⟨⟨⟨⟨⟨⟨hpath, hadapter⟩, hurl⟩, hbranch⟩, hrole⟩, -⟩, -⟩ := h
  have hroleSome : s.role ≠ some "" := by
    intro heq
    rw [heq] at hrole
    exact absurd hrole (by decide)
  unfold writtenSource
  rw [nonEmpty_of_ne hpath, nonEmpty_of_ne hadapter, nonEmpty_of_ne hroleSome,
    nonEmpty_of_ne hurl, nonEmpty_of_ne hbranch]

variable {localeLe : String → String → Bool}

theorem sameResolve_written_iff (r : WorkspaceResolveConfig) :
    SameResolve r (writtenResolve localeLe r) ↔
      r.workdir ≠ some "" ∧ r.namespace ≠ some [] := by
  constructor
  · rintro ⟨hworkdir, hrules⟩
    constructor
    · intro heq
      unfold writtenResolve at hworkdir
      rw [heq] at hworkdir
      cases hworkdir
    · intro heq
      unfold writtenResolve at hrules
      rw [heq] at hrules
      cases hrules
  · rintro ⟨hworkdir, hrules⟩
    refine ⟨nonEmpty_of_ne hworkdir, ?_⟩
    unfold writtenResolve
    match hhosts : r.namespace with
    | none => exact .none
    | some [] => exact absurd hhosts hrules
    | some (h :: hosts) => exact .some (perm_sortedEntries localeLe (h :: hosts))

theorem same_of_whole {c : NativeWorkspaceConfigData} (hvalid : c.isValid workdirInside = true)
    (hwhole : c.isWhole = true) : SameConfig c (writtenConfig localeLe c) := by
  simp only [isValid, Bool.and_eq_true] at hvalid
  simp only [isWhole, Bool.and_eq_true] at hwhole
  obtain ⟨⟨⟨-, hsources⟩, -⟩, hlanguages⟩ := hvalid
  obtain ⟨⟨-, hresolve⟩, hvalidation⟩ := hwhole
  refine ⟨rfl, ?_, rfl, ?_, ?_⟩
  · have hkept : ∀ s ∈ c.sources, (s.1, writtenSource s.2) = s := by
      intro s hs
      rw [writtenSource_valid (List.all_eq_true.mp hsources s hs)]
    have hperm := (perm_sortedEntries localeLe c.sources).map fun s => (s.1, writtenSource s.2)
    rw [List.map_congr_left hkept, List.map_id'] at hperm
    exact hperm
  · change Option.Rel SameResolve c.resolve (c.resolve.map (writtenResolve localeLe))
    cases hr : c.resolve with
    | none => exact .none
    | some r =>
      rw [hr] at hresolve
      exact .some ((sameResolve_written_iff r).mpr (by simpa using hresolve))
  · change c.validation.filter _ = c.validation
    match hv : c.validation with
    | none => rfl
    | some ⟨none⟩ =>
      rw [hv] at hvalidation
      cases hvalidation
    | some ⟨some []⟩ =>
      rw [hv] at hlanguages
      cases hlanguages
    | some ⟨some (l :: languages)⟩ => rfl

theorem whole_of_same {c : NativeWorkspaceConfigData} (hne : c.sources ≠ [])
    (h : SameConfig c (writtenConfig localeLe c)) : c.isWhole = true := by
  have hresolve : c.resolve.all (fun r => r.workdir ≠ some "" && r.namespace ≠ some []) = true := by
    have hrel : Option.Rel SameResolve c.resolve (c.resolve.map (writtenResolve localeLe)) :=
      h.resolve
    cases hr : c.resolve with
    | none => rfl
    | some r =>
      rw [hr] at hrel
      cases hrel with
      | some hsame => simpa using (sameResolve_written_iff r).mp hsame
  have hvalidation : c.validation.all (fun v => v.allowedContentLanguages.isSome) = true := by
    have hsame : c.validation.filter
        (fun v => v.allowedContentLanguages.any fun ls => ls ≠ []) = c.validation := h.validation
    match hv : c.validation with
    | none => rfl
    | some ⟨some _⟩ => rfl
    | some ⟨none⟩ =>
      rw [hv] at hsame
      cases hsame
  unfold isWhole
  rw [hresolve, hvalidation, decide_eq_true hne]
  rfl

end Validity

section Migration

variable {localeLe : String → String → Bool} {workdirInside : String → Bool}

theorem writtenConfig_sourceless (c : NativeWorkspaceConfigData) :
    (writtenConfig localeLe c).sources = [] ↔ c.sources = [] := by
  change (sortedEntries localeLe c.sources).map _ = [] ↔ c.sources = []
  rw [map_eq_nil_iff, ← length_eq_zero_iff, ← length_eq_zero_iff,
    (perm_sortedEntries localeLe c.sources).length_eq]

/-- What is read of the text of a plain configuration. -/
theorem inspectRawToml_render {c : NativeWorkspaceConfigData} (hplain : c.isPlain = true) :
    inspectRawToml workdirInside (renderCanonicalToml localeLe c) =
      if c.sources = [] then none
      else (some (writtenConfig localeLe c)).filter fun d => d.isValid workdirInside := by
  unfold inspectRawToml
  rw [parse_renderCanonicalToml hplain, bind_some]
  split
  · next hnone =>
    rw [readConfig_sourceless ((writtenConfig_sourceless c).mpr hnone)]
    rfl
  · next hsome =>
    rw [readConfig_configTable fun heq => hsome ((writtenConfig_sourceless c).mp heq)]

theorem says_render_iff {c : NativeWorkspaceConfigData} (hplain : c.isPlain = true) :
    Says workdirInside (renderCanonicalToml localeLe c) c ↔
      c.isValid workdirInside = true ∧ c.isWhole = true := by
  unfold Says
  rw [inspectRawToml_render hplain]
  constructor
  · rintro ⟨d, hread, hsame⟩
    split at hread
    · cases hread
    · next hsome =>
      obtain ⟨hwritten, hvalid⟩ := filter_eq_some_iff.mp hread
      cases hwritten
      rw [isValid_same hsame] at hvalid
      exact ⟨hvalid, whole_of_same hsome hsame⟩
  · rintro ⟨hvalid, hwhole⟩
    have hsame : SameConfig c (writtenConfig localeLe c) := same_of_whole hvalid hwhole
    have hsome : c.sources ≠ [] := by
      simp only [isWhole, Bool.and_eq_true,
        decide_eq_true_eq] at hwhole
      exact hwhole.1.1
    have hwritten : (writtenConfig localeLe c).isValid workdirInside = true := by
      rw [isValid_same hsame, hvalid]
    rw [if_neg hsome]
    exact ⟨writtenConfig localeLe c, filter_eq_some_iff.mpr ⟨rfl, hwritten⟩, hsame⟩

theorem canonical_applyMigration
    {s : MigrationSource} {fails : Option ApplyCall} {w : MigrationWorkspace} {raw : List Char}
    (hnone : w.canonical = none)
    (hleft : (applyMigration localeLe workdirInside (some s) fails w).canonical = some raw) :
    raw = renderCanonicalToml localeLe s.candidate := by
  have hwrite : ¬ w.canonical.isSome = true := by
    rw [hnone]
    exact Bool.false_ne_true
  unfold applyMigration at hleft
  dsimp only at hleft
  rw [if_neg hwrite] at hleft
  split at hleft
  · exact absurd (hnone.symm.trans hleft) nofun
  · exact absurd (hnone.symm.trans hleft) nofun
  · exact absurd (hnone.symm.trans hleft) nofun
  · exact (some.inj hleft).symm
  · exact (some.inj hleft).symm
  · exact (some.inj hleft).symm
  · exact (some.inj hleft).symm

theorem applyMigration_writes (s : MigrationSource) :
    (applyMigration localeLe workdirInside (some s) none ⟨none, none⟩).canonical =
      some (renderCanonicalToml localeLe s.candidate) := by
  rfl

/-- A migration keeps the configuration only of a source that can be read and is valid; and
where every key and text is one that TOML takes as it is written, exactly where the
configuration also has a source and no field that is there and empty. -/
theorem migration_keeps_configuration (localeLe : String → String → Bool)
    (workdirInside : String → Bool) (s : MigrationSource) :
    (KeepsConfiguration localeLe workdirInside s →
      ∃ c, s.legacy = some c ∧ c.isValid workdirInside = true) ∧
    ∀ c, s.legacy = some c → c.isPlain = true → (KeepsConfiguration localeLe workdirInside s ↔
        c.isValid workdirInside = true ∧ c.isWhole = true) := by
  constructor
  · intro hkeeps
    obtain ⟨c, hlegacy, hsays⟩ := hkeeps.applied none ⟨none, none⟩ rfl _ (applyMigration_writes s)
    obtain ⟨d, hread, hsame⟩ := hsays
    have hvalid := (filter_eq_some_iff.mp hread).2
    rw [isValid_same hsame] at hvalid
    exact ⟨c, hlegacy, hvalid⟩
  · intro c hlegacy hplain
    have hcandidate : s.candidate = c := by
      unfold MigrationSource.candidate
      rw [hlegacy]
      rfl
    constructor
    · intro hkeeps
      exact (says_render_iff hplain).mp (hkeeps.rendered c hlegacy)
    · intro hwhole
      have hsays := (@says_render_iff localeLe workdirInside c hplain).mpr hwhole
      constructor
      · intro d hd
        rw [some.inj (hd.symm.trans hlegacy)]
        exact hsays
      · intro fails w hnone raw hleft
        rw [canonical_applyMigration hnone hleft, hcandidate]
        exact ⟨c, hlegacy, hsays⟩

def oneRepository (host : String) : NativeWorkspaceConfigData where
  version := "1.0"
  sources := [("backend", ⟨some "../backend", none, some "codebase", none, none⟩)]
  traceability := none
  resolve := some ⟨some ".", some [(host, "{org}/{repo}")]⟩
  validation := none
  sourcesOnce := nodup_singleton "backend"
  hostsOnce := by
    intro r hosts hr hn
    cases hr
    cases hn
    exact nodup_singleton host

/-- A rule for a host without a dot is carried over. -/
theorem localhost_is_kept :
    KeepsConfiguration (fun a b => a ≤ b) (fun _ => true)
      (.legacyConfig (some (oneRepository "localhost"))) :=
  ((migration_keeps_configuration _ _ _).2 (oneRepository "localhost") rfl (by decide)).mpr
    ⟨by decide, by decide⟩

/-- A host with a dot is written without quotes, where TOML reads two keys. -/
theorem dotted_host_is_lost :
    (oneRepository "gitlab.com").isValid (fun _ => true) = true ∧
      ¬ KeepsConfiguration (fun a b => a ≤ b) (fun _ => true)
        (.legacyConfig (some (oneRepository "gitlab.com"))) := by
  have hsources : sortedEntries (fun a b => a ≤ b) (oneRepository "gitlab.com").sources =
      (oneRepository "gitlab.com").sources := mergeSort_singleton _
  have hhosts : sortedEntries (fun a b => a ≤ b) [("gitlab.com", "{org}/{repo}")] =
      [("gitlab.com", "{org}/{repo}")] := mergeSort_singleton _
  have hlines : canonicalLines (fun a b => a ≤ b) (oneRepository "gitlab.com") =
      ["version = \"1.0\"", "", "[sources.backend]", "path = \"../backend\"",
        "role = \"codebase\"", "", "[resolve]", "workdir = \".\"", "", "[resolve.namespace]",
        "gitlab.com = \"{org}/{repo}\"", ""].map String.toList := by
    unfold canonicalLines
    rw [hsources]
    change _ :: _ :: (_ ++ _ ++ (_ :: (_ ++ (_ :: _ :: ((sortedEntries _ _).map _ ++ _)))) ++ _) = _
    rw [hhosts]
    decide +kernel
  have hinvalid : inspectRawToml (fun _ => true)
      (renderCanonicalToml (fun a b => a ≤ b) (oneRepository "gitlab.com")) = none := by
    unfold renderCanonicalToml
    rw [hlines]
    refine isNone_iff_eq_none.mp ?_
    decide +kernel
  refine ⟨by decide, fun hkeeps => ?_⟩
  obtain ⟨d, hread, -⟩ := hkeeps.rendered (oneRepository "gitlab.com") rfl
  rw [hinvalid] at hread
  cases hread

end Migration

end WorkspaceConfig
end StudioWeb
