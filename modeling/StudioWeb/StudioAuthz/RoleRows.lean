import StudioWeb.StudioAuthz.Evaluate

/-!
# The rows that roles allow

The enforcement point reads an answer as a filter on its rows.  An allowing answer
without constraints filters nothing, unless the request required constraints.  Where a
tenant sits in the tree is the enforcement point's to say.
-/

namespace StudioWeb
namespace StudioAuthz

open Scheduler JsonText List

structure Row where
  ownerTenantId : Uuid
  resourceId : Uuid
deriving DecidableEq

def Row.value (row : Row) : PepProperty → Option Uuid
  | .ownerTenantId => some row.ownerTenantId
  | .resourceId => some row.resourceId
  | .other _ => none

section Rows

-- Whether a tenant is the first one or below it.
variable (subtree : Uuid → Uuid → Prop)

def Predicate.Holds : Predicate → Row → Prop
  | .isIn property values, row =>
    ∃ v ∈ values, row.value property = some v
  | .inTenantSubtree property root, row =>
    ∃ v, row.value property = some v ∧ subtree root v

def EvaluationResponse.Allows (request : EvaluationRequest) (answer : EvaluationResponse)
    (row : Row) : Prop :=
  answer.decision = true ∧
    if answer.constraints = [] then
      request.context.requireConstraints = false
    else
      Admits (Predicate.Holds subtree) (answer.constraints.map Constraint.predicates) row

/-- Whether the clamp has something to filter by. -/
def EvaluationRequest.Filterable (request : EvaluationRequest) : Prop :=
  request.supports .ownerTenantId = true ∨
    request.hierarchy = true ∧ request.supports .resourceId = true

instance (request : EvaluationRequest) : Decidable request.Filterable :=
  inferInstanceAs (Decidable (_ ∨ _))

/-- The row is inside some tenant of `tids`, as far as the PEP can tell. -/
def InTenants (request : EvaluationRequest) (tids : List Uuid) (row : Row) : Prop :=
  (request.supports .ownerTenantId = true ∧ row.ownerTenantId ∈ tids) ∨ request.hierarchy = true ∧
      ((request.supports .ownerTenantId = true ∧ ∃ tid ∈ tids, subtree tid row.ownerTenantId) ∨
        (request.supports .resourceId = true ∧ ∃ tid ∈ tids, subtree tid row.resourceId))

end Rows

section RoleRows

variable
  {subtree : Uuid → Uuid → Prop}
  {request : EvaluationRequest}
  {row : Row}
  {tids tids' : List Uuid}
  {tid : Uuid}
  {reads : Reads}
  {d : RoleDecision}

theorem admits_ownerArm :
    Admits (Predicate.Holds subtree) ((ownerArm request tids).map Constraint.predicates) row ↔
      request.supports .ownerTenantId = true ∧ row.ownerTenantId ∈ tids := by
  by_cases hsupports : request.supports .ownerTenantId = true
  · simp [ownerArm, hsupports, Admits, Predicate.Holds, Row.value]
  · simp [ownerArm, hsupports]

theorem admits_subtreeArms {property : PepProperty} {v : Uuid}
    (hvalue : row.value property = some v) :
    Admits (Predicate.Holds subtree)
        ((subtreeArms request tids property).map Constraint.predicates) row ↔
      request.supports property = true ∧ ∃ tid ∈ tids, subtree tid v := by
  by_cases hsupports : request.supports property = true
  · simp [subtreeArms, hsupports, Admits, Predicate.Holds, hvalue]
  · simp [subtreeArms, hsupports]

theorem admits_tenantConstraints :
    Admits (Predicate.Holds subtree)
        ((tenantConstraints request tids).map Constraint.predicates) row ↔
      InTenants subtree request tids row := by
  have howner : row.value .ownerTenantId = some row.ownerTenantId := rfl
  have hresource : row.value .resourceId = some row.resourceId := rfl
  by_cases hhierarchy : request.hierarchy = true
  · simp [tenantConstraints, hhierarchy, admits_append, admits_ownerArm,
      admits_subtreeArms howner, admits_subtreeArms hresource, InTenants]
  · simp [tenantConstraints, hhierarchy, admits_ownerArm, InTenants]

theorem tenantConstraints_eq_nil (htids : tids ≠ []) :
    tenantConstraints request tids = [] ↔ ¬ request.Filterable := by
  by_cases howner : request.supports .ownerTenantId = true
  · simp [tenantConstraints, ownerArm, howner, EvaluationRequest.Filterable]
  · by_cases hhierarchy : request.hierarchy = true
    · simp [tenantConstraints, ownerArm, subtreeArms, howner, hhierarchy, htids,
        EvaluationRequest.Filterable]
    · simp [tenantConstraints, ownerArm, howner, hhierarchy, EvaluationRequest.Filterable]

/-- The rows of the clamp. -/
theorem allows_tenantClamp (htids : tids ≠ []) :
    (tenantClamp request tids).Allows subtree request row ↔
      if request.Filterable then
        InTenants subtree request tids row
      else
        request.context.requireConstraints = false := by
  by_cases hfilter : request.Filterable
  · have hne : tenantConstraints request tids ≠ [] := by
      intro hnil
      exact (tenantConstraints_eq_nil htids).mp hnil hfilter
    simp [EvaluationResponse.Allows, tenantClamp, hne, hfilter, admits_tenantConstraints]
  · have hnil : tenantConstraints request tids = [] :=
      (tenantConstraints_eq_nil htids).mpr hfilter
    simp [EvaluationResponse.Allows, tenantClamp, hnil, hfilter]

theorem InTenants.mono (hsub : tids ⊆ tids') (h : InTenants subtree request tids row) :
    InTenants subtree request tids' row := by
  rcases h with ⟨howner, hmem⟩ | ⟨hhierarchy, ⟨howner, root, hmem, hroot⟩ |
    ⟨hresource, root, hmem, hroot⟩⟩
  · exact .inl ⟨howner, hsub hmem⟩
  · exact .inr ⟨hhierarchy, .inl ⟨howner, root, hsub hmem, hroot⟩⟩
  · exact .inr ⟨hhierarchy, .inr ⟨hresource, root, hsub hmem, hroot⟩⟩

theorem allows_tenantClamp_mono (htids : tids ≠ []) (hsub : tids ⊆ tids')
    (h : (tenantClamp request tids).Allows subtree request row) :
    (tenantClamp request tids').Allows subtree request row := by
  have htids' : tids' ≠ [] := by
    rintro rfl
    exact htids (eq_nil_of_subset_nil hsub)
  rw [allows_tenantClamp htids] at h
  rw [allows_tenantClamp htids']
  by_cases hfilter : request.Filterable
  · rw [if_pos hfilter] at h ⊢
    exact h.mono hsub
  · rw [if_neg hfilter] at h ⊢
    exact h

theorem subset_extendUnique {into more : List Uuid} : into ⊆ extendUnique into more := by
  induction more generalizing into with
  | nil =>
    exact List.Subset.refl into
  | cons id _ ih =>
    intro v hv
    apply ih
    by_cases hmem : into.contains id = true
    · simpa only [hmem, if_true] using hv
    · simp only [hmem]
      exact mem_append_left _ hv

theorem tid_mem_reachableTenants : tid ∈ reads.reachableTenants tid := by
  cases horgs : reads.organizations with
  | none =>
    simp [Reads.reachableTenants, horgs]
  | some orgs =>
    have hmem : tid ∈ extendUnique [tid] orgs := subset_extendUnique mem_cons_self
    simpa [Reads.reachableTenants, horgs] using hmem

theorem allows_reach_of_own (h : (tenantClamp request [tid]).Allows subtree request row) :
    (tenantClamp request (reads.reachableTenants tid)).Allows subtree request row :=
  allows_tenantClamp_mono (by simp) (by simpa using tid_mem_reachableTenants) h

theorem not_allows_deny : ¬ deny.Allows subtree request row := by
  rintro ⟨hdecision, _⟩
  cases hdecision

theorem allows_narrowed {scopes : List Uuid} (howner : request.supports .ownerTenantId = true) :
    (answerRoles reads request tid (.narrow scopes)).Allows subtree request row ↔
      row.ownerTenantId ∈ scopes ∧
        (tenantClamp request [tid]).Allows subtree request row := by
  have hfilter : request.Filterable := .inl howner
  have hne : tenantConstraints request [tid] ≠ [] := by
    intro hnil
    exact (tenantConstraints_eq_nil (by simp)).mp hnil hfilter
  have harms : ((tenantConstraints request [tid]).map (Constraint.narrowed scopes)).map
          Constraint.predicates = ((tenantConstraints request [tid]).map Constraint.predicates).map
          fun arm => arm ++ [.isIn .ownerTenantId scopes] := by
    simp [Constraint.narrowed]
  have hscopes : Predicate.Holds subtree (.isIn .ownerTenantId scopes) row ↔
        row.ownerTenantId ∈ scopes := by
    simp [Predicate.Holds, Row.value]
  rw [allows_tenantClamp (by simp), if_pos hfilter]
  simp only [EvaluationResponse.Allows, answerRoles, howner, Bool.not_true,
    Bool.false_eq_true, if_false, map_eq_nil_iff, hne, harms, true_and]
  rw [admits_narrowed, admits_tenantConstraints, hscopes, and_comm]

/-- The rows of the role path, by what its decision tells. -/
theorem allows_answerRoles {orgWide : Prop} {inProject : Uuid → Prop}
    (htells : d.Tells orgWide inProject) :
    (answerRoles reads request tid d).Allows subtree request row ↔ (orgWide ∧
        (tenantClamp request (reads.reachableTenants tid)).Allows subtree request row) ∨
      (request.supports .ownerTenantId = true ∧ inProject row.ownerTenantId ∧
        (tenantClamp request [tid]).Allows subtree request row) := by
  cases htells with
  | clamp horg =>
    constructor
    · intro h
      exact .inl ⟨horg, h⟩
    · rintro (⟨_, h⟩ | ⟨_, _, h⟩)
      · exact h
      · exact allows_reach_of_own h
  | deny horg hproject =>
    constructor
    · intro h
      exact absurd h not_allows_deny
    · rintro (⟨h, _⟩ | ⟨_, h, _⟩)
      · exact absurd h horg
      · exact absurd h (hproject row.ownerTenantId)
  | @narrow scopes horg _ hscopes =>
    by_cases howner : request.supports .ownerTenantId = true
    · rw [allows_narrowed howner, hscopes]
      simp [horg, howner]
    · have hdeny : answerRoles reads request tid (.narrow scopes) = deny := by
        simp [answerRoles, howner]
      rw [hdeny]
      simp [not_allows_deny, horg, howner]

theorem allows_clamp_of_answerRoles
    (h : (answerRoles reads request tid d).Allows subtree request row) :
    (tenantClamp request (reads.reachableTenants tid)).Allows subtree request row := by
  cases d with
  | clamp =>
    exact h
  | deny =>
    exact absurd h not_allows_deny
  | narrow scopes =>
    by_cases howner : request.supports .ownerTenantId = true
    · exact allows_reach_of_own ((allows_narrowed howner).mp h).2
    · have hdeny : answerRoles reads request tid (.narrow scopes) = deny := by
        simp [answerRoles, howner]
      rw [hdeny] at h
      exact absurd h not_allows_deny

theorem decision_answerRoles {orgWide : Prop} {inProject : Uuid → Prop}
    (htells : d.Tells orgWide inProject) :
    (answerRoles reads request tid d).decision = true ↔
      orgWide ∨ (request.supports .ownerTenantId = true ∧ ∃ pid, inProject pid) := by
  cases htells with
  | clamp horg =>
    simp [answerRoles, tenantClamp, horg]
  | deny horg hproject =>
    simp [answerRoles, deny, horg, hproject]
  | @narrow _ horg hne hscopes =>
    obtain ⟨pid, hpid⟩ := exists_mem_of_ne_nil _ hne
    have hproject : ∃ pid, inProject pid := ⟨pid, (hscopes pid).mp hpid⟩
    by_cases howner : request.supports .ownerTenantId = true
    · simp [answerRoles, howner, hproject]
    · simp [answerRoles, howner, deny, horg]

section RolePath

variable
  {parseUuid : String → Option Uuid}
  {privilege : String}
  {config config' : Uuid → ConfigRead}
  {cfg cfg' : AccessConfig}

def Reads.withConfig (reads : Reads) (config : Uuid → ConfigRead) : Reads :=
  { reads with accessConfig := config }

variable (reads) in
theorem evaluate_of_roles (hroles : Plan.forRequest parseUuid request = .roles tid privilege) :
    evaluate parseUuid reads request = answerRoles reads request tid (StudioAuthz.decide parseUuid
          (reads.subjectsOfCaller request.subject.id.text)
          (reads.accessConfig tid) [] privilege) := by
  simp [evaluate, hroles]

variable (reads) in
theorem allows_evaluate (hroles : Plan.forRequest parseUuid request = .roles tid privilege)
    (hread : reads.accessConfig tid = .found cfg) (hmodel : cfg.model = "roles") :
    (evaluate parseUuid reads request).Allows subtree request row ↔
      (OrgWide (reads.subjectsOfCaller request.subject.id.text) [] cfg privilege cfg.grants ∧
        (tenantClamp request (reads.reachableTenants tid)).Allows subtree request row) ∨
      (request.supports .ownerTenantId = true ∧
        InProject parseUuid (reads.subjectsOfCaller request.subject.id.text) [] cfg
          privilege cfg.grants row.ownerTenantId ∧
        (tenantClamp request [tid]).Allows subtree request row) := by
  rw [evaluate_of_roles reads hroles, hread]
  exact allows_answerRoles (decide_tells hmodel)

variable (reads) in
theorem evaluate_of_model (hroles : Plan.forRequest parseUuid request = .roles tid privilege)
    (hread : reads.accessConfig tid = .found cfg) (hmodel : cfg.model ≠ "roles") :
    evaluate parseUuid reads request =
      tenantClamp request (reads.reachableTenants tid) := by
  rw [evaluate_of_roles reads hroles, hread, decide_of_model hmodel]
  rfl

section

variable (hroles : Plan.forRequest parseUuid request = .roles tid privilege)
include hroles

section

variable
  (hread : reads.accessConfig tid = .found cfg) (hread' : config' tid = .found cfg')
  (hmodel : cfg'.model = cfg.model) (hdefs : cfg'.roles = cfg.roles)
include hread hread' hmodel hdefs

theorem allows_evaluate_mono
 (hsub : cfg.grants ⊆ cfg'.grants)
    (h : (evaluate parseUuid reads request).Allows subtree request row) :
    (evaluate parseUuid (reads.withConfig config') request).Allows subtree request row := by
  by_cases hon : cfg.model = "roles"
  · rw [allows_evaluate reads hroles hread hon] at h
    rw [allows_evaluate (reads.withConfig config') hroles hread' (hmodel.trans hon)]
    rcases h with ⟨horg, hclamp⟩ | ⟨howner, hproject, hclamp⟩
    · exact .inl ⟨horg.mono hdefs hsub, hclamp⟩
    · exact .inr ⟨howner, hproject.mono hdefs hsub, hclamp⟩
  · have hoff : cfg'.model ≠ "roles" := by
      rw [hmodel]
      exact hon
    rw [evaluate_of_model reads hroles hread hon] at h
    rw [evaluate_of_model (reads.withConfig config') hroles hread' hoff]
    exact h

theorem evaluate_of_perm
 (hperm : cfg.grants.Perm cfg'.grants) :
    (evaluate parseUuid (reads.withConfig config') request).decision =
        (evaluate parseUuid reads request).decision ∧
      ((evaluate parseUuid (reads.withConfig config') request).Allows subtree request row ↔
        (evaluate parseUuid reads request).Allows subtree request row) := by
  refine ⟨?_, ?_, ?_⟩
  · by_cases hon : cfg.model = "roles"
    · rw [Bool.eq_iff_iff, evaluate_of_roles reads hroles, hread,
        evaluate_of_roles (reads.withConfig config') hroles]
      simp only [Reads.withConfig, hread']
      rw [decision_answerRoles (decide_tells hon),
        decision_answerRoles (decide_tells (hmodel.trans hon))]
      simp only [orgWide_perm hdefs hperm, inProject_perm hdefs hperm]
      rfl
    · have hoff : cfg'.model ≠ "roles" := by
        rw [hmodel]
        exact hon
      rw [evaluate_of_model reads hroles hread hon,
        evaluate_of_model (reads.withConfig config') hroles hread' hoff]
      rfl
  · intro h
    have hback : (evaluate parseUuid ((reads.withConfig config').withConfig reads.accessConfig)
          request).Allows subtree request row :=
      allows_evaluate_mono hroles hread' hread hmodel.symm hdefs.symm hperm.symm.subset h
    exact hback
  · exact allows_evaluate_mono hroles hread hread' hmodel hdefs hperm.subset

end

theorem not_allows_of_unreadable (hread : reads.accessConfig tid = .unreadable) :
    ¬ (evaluate parseUuid reads request).Allows subtree request row := by
  rw [evaluate_of_roles reads hroles, hread]
  exact not_allows_deny

theorem allows_evaluate_grants
    (hread : reads.accessConfig tid = .found cfg) (hmodel : cfg.model = "roles") :
    (evaluate parseUuid reads request).Allows subtree request row ↔ ∃ g ∈ cfg.grants,
        g.Confers (reads.subjectsOfCaller request.subject.id.text) [] cfg privilege ∧
          ((g.scopeType = "org" ∧
              (tenantClamp request (reads.reachableTenants tid)).Allows subtree request row) ∨
            (request.supports .ownerTenantId = true ∧ g.scopeType = "project" ∧
              parseUuid g.scopeId = some row.ownerTenantId ∧
              (tenantClamp request [tid]).Allows subtree request row)) := by
  rw [allows_evaluate reads hroles hread hmodel]
  constructor
  · rintro (⟨⟨g, hmem, hconfers, horg⟩, hclamp⟩ |
      ⟨howner, ⟨g, hmem, hconfers, hproject, hpid⟩, hclamp⟩)
    · exact ⟨g, hmem, hconfers, .inl ⟨horg, hclamp⟩⟩
    · exact ⟨g, hmem, hconfers, .inr ⟨howner, hproject, hpid, hclamp⟩⟩
  · rintro ⟨g, hmem, hconfers, ⟨horg, hclamp⟩ | ⟨howner, hproject, hpid, hclamp⟩⟩
    · exact .inl ⟨⟨g, hmem, hconfers, horg⟩, hclamp⟩
    · exact .inr ⟨howner, ⟨g, hmem, hconfers, hproject, hpid⟩, hclamp⟩

end

/-- Roles narrow the clamp, and grants are monotone. -/
theorem grants_narrow_the_clamp
    (hroles : Plan.forRequest parseUuid request = .roles tid privilege) :
    (∀ reads row, (evaluate parseUuid reads request).Allows subtree request row →
        (tenantClamp request (reads.reachableTenants tid)).Allows subtree request row) ∧
    (∀ reads cfg row, reads.accessConfig tid = .found cfg → cfg.model = "roles" →
      ((evaluate parseUuid reads request).Allows subtree request row ↔ ∃ g ∈ cfg.grants,
          g.Confers (reads.subjectsOfCaller request.subject.id.text) [] cfg privilege ∧
            ((g.scopeType = "org" ∧ (tenantClamp request (reads.reachableTenants tid)).Allows
                  subtree request row) ∨
              (request.supports .ownerTenantId = true ∧ g.scopeType = "project" ∧
                parseUuid g.scopeId = some row.ownerTenantId ∧
                (tenantClamp request [tid]).Allows subtree request row)))) ∧
    (∀ reads config' cfg cfg' row, reads.accessConfig tid = .found cfg → config' tid = .found cfg' →
      cfg'.model = cfg.model →
      cfg'.roles = cfg.roles →
      cfg.grants.Perm cfg'.grants →
      (evaluate parseUuid (reads.withConfig config') request).decision =
          (evaluate parseUuid reads request).decision ∧
        ((evaluate parseUuid (reads.withConfig config') request).Allows subtree request row ↔
          (evaluate parseUuid reads request).Allows subtree request row)) ∧
    (∀ reads config' cfg cfg' row, reads.accessConfig tid = .found cfg → config' tid = .found cfg' →
      cfg'.model = cfg.model →
      cfg'.roles = cfg.roles →
      cfg.grants ⊆ cfg'.grants →
      (evaluate parseUuid reads request).Allows subtree request row →
      (evaluate parseUuid (reads.withConfig config') request).Allows subtree request row) ∧
    (∀ reads row, reads.accessConfig tid = .unreadable →
      ¬ (evaluate parseUuid reads request).Allows subtree request row) := by
  refine ⟨?_, ?_, ?_, ?_, ?_⟩
  · intro reads row h
    rw [evaluate_of_roles reads hroles] at h
    exact allows_clamp_of_answerRoles h
  · intro reads cfg row hread hmodel
    exact allows_evaluate_grants hroles hread hmodel
  · intro reads config' cfg cfg' row hread hread' hmodel hdefs hperm
    exact evaluate_of_perm hroles hread hread' hmodel hdefs hperm
  · intro reads config' cfg cfg' row hread hread' hmodel hdefs hsub h
    exact allows_evaluate_mono hroles hread hread' hmodel hdefs hsub h
  · intro reads row hread
    exact not_allows_of_unreadable hroles hread

end RolePath

end RoleRows

/-- The hyphenated spelling that ids are written in. -/
private def hyphenated (text : String) : Option Uuid :=
  let groups := text.toList.splitOn '-'
  if groups.map List.length = [8, 4, 4, 4, 12] ∧
      groups.flatten.all (fun c => c.isDigit || 'a' ≤ c && c ≤ 'f') then
    some ⟨text⟩
  else
    none

private def organization : Uuid :=
  ⟨"00000000-0000-0000-0000-00000000000a"⟩

private def project : Uuid :=
  ⟨"00000000-0000-0000-0000-00000000000b"⟩

private def person : Uuid :=
  ⟨"00000000-0000-0000-0000-00000000000c"⟩

private def domainObject : Uuid :=
  ⟨"00000000-0000-0000-0000-00000000000d"⟩

/-- A read of domain objects, from a PEP that can filter by `properties`. -/
private def objectRead (properties : List PepProperty) : EvaluationRequest where
  subject := ⟨person, []⟩
  action := "read"
  resource := ⟨DOMAIN_OBJECT_RESOURCE, []⟩
  context := {
    tenantContext := some (some organization)
    tokenScopes := []
    requireConstraints := true
    capabilities := [.tenantHierarchy]
    supportedProperties := properties }

private def projectGrant : AccessConfig where
  model := "roles"
  roles := [⟨"viewer", ["domain.view"]⟩]
  grants := [⟨"member", person.text, "viewer", "project", project.text⟩]

private def projectReads : Reads where
  organizations := none
  grantKeys := none
  platformAdmin := false
  accessConfig := fun _ => .found projectGrant

private theorem objectRead_roles (properties : List PepProperty) :
    Plan.forRequest hyphenated (objectRead properties) =
      .roles organization "domain.view" := by
  have hguard : isRecursionGuarded DOMAIN_OBJECT_RESOURCE = false := by decide
  have hnil : organization ≠ nilUuid := by decide
  simp [Plan.forRequest, tenantOf, Plan.forTenant, objectRead, hnil, hguard,
    EvaluationRequest.isGearHeldWrite, EvaluationRequest.isAccessConfigWrite,
    EvaluationRequest.mutatedMetadata, isMutatingMetadataAction, privilegeFor]

private theorem hyphenated_project : hyphenated project.text = some project := by
  decide

private def below (root _tenant : Uuid) : Prop :=
  root = organization

private theorem projectGrant_confers {g : GrantDef} (hmem : g ∈ projectGrant.grants) :
    g.Confers [person.text] [] projectGrant "domain.view" := by
  rw [mem_singleton.mp hmem]
  exact ⟨by decide, by decide⟩

/-- A row of the project is allowed, and one of the organization is not. -/
theorem grants_narrow_the_clamp_of_project :
    (evaluate hyphenated projectReads (objectRead [.ownerTenantId])).Allows below
        (objectRead [.ownerTenantId]) ⟨project, domainObject⟩ ∧
      ¬ (evaluate hyphenated projectReads (objectRead [.ownerTenantId])).Allows below
        (objectRead [.ownerTenantId]) ⟨organization, domainObject⟩ := by
  obtain ⟨_, hrows, _⟩ :=
    @grants_narrow_the_clamp below (objectRead [.ownerTenantId]) organization
      hyphenated "domain.view" (objectRead_roles [.ownerTenantId])
  rw [hrows projectReads projectGrant _ rfl rfl, hrows projectReads projectGrant _ rfl rfl]
  constructor
  · refine ⟨_, mem_cons_self, projectGrant_confers mem_cons_self, ?_⟩
    refine .inr ⟨rfl, rfl, hyphenated_project, ?_⟩
    rw [allows_tenantClamp (by simp), if_pos (by decide)]
    exact .inr ⟨rfl, .inl ⟨rfl, organization, by simp, rfl⟩⟩
  · rintro ⟨g, hmem, _, ⟨horg, _⟩ | ⟨_, _, hpid, _⟩⟩
    · rw [mem_singleton.mp hmem] at horg
      exact absurd horg (by decide)
    · rw [mem_singleton.mp hmem] at hpid
      exact absurd (hpid.symm.trans hyphenated_project) (by decide)

/-- A grant inside a project names its rows, and a PEP that filters by the resource
only is refused them. -/
theorem unfilterable_project_is_refused :
    ¬ ∀ (request : EvaluationRequest) (tid : Uuid) (privilege : String) (reads : Reads)
        (cfg : AccessConfig) (subtree : Uuid → Uuid → Prop) (row : Row),
      Plan.forRequest hyphenated request = .roles tid privilege →
      reads.accessConfig tid = .found cfg →
      cfg.model = "roles" →
      ((evaluate hyphenated reads request).Allows subtree request row ↔ ∃ g ∈ cfg.grants,
          g.Confers (reads.subjectsOfCaller request.subject.id.text) [] cfg privilege ∧
            ((g.scopeType = "org" ∧ (tenantClamp request (reads.reachableTenants tid)).Allows
                  subtree request row) ∨
              (g.scopeType = "project" ∧ hyphenated g.scopeId = some row.ownerTenantId ∧
                (tenantClamp request [tid]).Allows subtree request row))) := by
  intro hclaim
  have hrow := hclaim (objectRead [.resourceId]) organization "domain.view"
    projectReads projectGrant below ⟨project, domainObject⟩ (objectRead_roles [.resourceId]) rfl rfl
  have hclamp : (tenantClamp (objectRead [.resourceId]) [organization]).Allows below
        (objectRead [.resourceId]) ⟨project, domainObject⟩ := by
    rw [allows_tenantClamp (by simp), if_pos (by decide)]
    exact .inr ⟨rfl, .inr ⟨rfl, organization, by simp, rfl⟩⟩
  have hallowed := hrow.mpr ⟨_, mem_cons_self, projectGrant_confers mem_cons_self,
      .inr ⟨rfl, hyphenated_project, hclamp⟩⟩
  rw [allows_evaluate projectReads (objectRead_roles [.resourceId]) rfl rfl] at hallowed
  rcases hallowed with ⟨⟨g, hmem, _, horg⟩, _⟩ | ⟨howner, _⟩
  · rw [mem_singleton.mp hmem] at horg
    exact absurd horg (by decide)
  · cases howner

end StudioAuthz
end StudioWeb
