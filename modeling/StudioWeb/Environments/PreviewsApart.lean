import StudioWeb.Environments.PreviewSweep

/-!
# Removing a preview removes only that preview

A preview has a claim on its namespace while the list says that it is not removed, or while a
sweep holds it.  Where nothing else moves into a namespace with a claim on it, a sweep
deletes a namespace only with the preview it read living there, and nothing else.
-/

namespace StudioWeb
namespace Environments

open LabelledRuns
open Scheduler (Uuid)

namespace PreviewWorld

open List Option ClusterNamespace

section Claims

variable (clusterOf : Uuid → Uuid)

/-- The list says that the preview is not removed, or a sweep holds it. -/
def Claims (s : PreviewWorld) (d : Deployment) : Prop :=
  (d ∈ s.list.items ∧ d.isLivePreview = true) ∨ ∃ sweep pc, s.sweeps sweep = some pc ∧ d ∈ pc.held

/-- A sweep is about to delete the preview's namespace. -/
def Deletes (s : PreviewWorld) (d : Deployment) : Prop :=
  ∃ sweep rest, s.sweeps sweep = some (.deleting d rest)

def LivesAlone (d : Deployment) (ns : ClusterNamespace) : Prop :=
  ns.tenant = some d.id ∧ ns.guests = []

def OnlyClaim (s : PreviewWorld) (d : Deployment) (place : Uuid × String) : Prop :=
  ∀ other, s.Claims other → home clusterOf other = place →
    other.id = d.id ∧ other.projectId = d.projectId

/-- Nothing else moves into a namespace that a preview has a claim on: a preview is not
requested for a namespace that a preview has made, and moves in only where it has the only
claim; a deploy that is no preview makes no namespace that a sweep is about to delete, and
does not install into one that a preview has made and has a claim on. -/
def Apart (s : PreviewWorld) : PreviewAction → Prop
  | .requests reads env project req =>
    ∀ d, reads.requestDeploy env project req = .ok d → d.isLivePreview = true →
      ∀ ns, s.namespaces (home clusterOf d) = some ns → isPreviewNamespace ns d.projectId = false
  | .prepares run =>
    ∀ d connection, s.runs[run]? = some (d, connection) →
      if d.preview.isSome then
        s.OnlyClaim clusterOf d (clusterOf connection, d.namespace)
      else
        s.namespaces (clusterOf connection, d.namespace) = none → ∀ other, s.Deletes other →
            home clusterOf other ≠ (clusterOf connection, d.namespace)
  | .installs run =>
    ∀ d connection, s.runs[run]? = some (d, connection) →
      if d.preview.isSome then
        s.OnlyClaim clusterOf d (clusterOf connection, d.namespace)
      else
        ∀ other, s.Claims other → home clusterOf other = (clusterOf connection, d.namespace) →
            ∀ ns, s.namespaces (clusterOf connection, d.namespace) = some ns →
              isPreviewNamespace ns other.projectId = false
  | _ => True

/-- What a sweep deletes is a namespace where the preview it read lives, and nothing else. -/
def RemovesItsOwn (s : PreviewWorld) : PreviewAction → Prop
  | .deletes sweep =>
    ∀ d rest, s.sweeps sweep = some (.deleting d rest) →
      ∀ ns, s.namespaces (home clusterOf d) = some ns → LivesAlone d ns
  | _ => True

/-- Whoever has a claim on a namespace that is labelled as its project's preview lives there
alone, and what a sweep is about to delete is so labelled. -/
structure Invariant (s : PreviewWorld) : Prop where
  alone : ∀ d, s.Claims d → ∀ ns, s.namespaces (home clusterOf d) = some ns →
    isPreviewNamespace ns d.projectId = true → LivesAlone d ns
  labelled : ∀ d, s.Deletes d → ∀ ns, s.namespaces (home clusterOf d) = some ns →
    isPreviewNamespace ns d.projectId = true

end Claims

section Steps

variable {clusterOf : Uuid → Uuid} {isPast : String → Int → Bool} {s t : PreviewWorld}
variable {d other : Deployment} {place : Uuid × String} {ns made : ClusterNamespace}
variable {sweep : Nat} {pc : SweepPc} {a : PreviewAction}

/-- What a claim is about. -/
def SamePreview (clusterOf : Uuid → Uuid) (d other : Deployment) : Prop :=
  d.id = other.id ∧ d.projectId = other.projectId ∧ home clusterOf d = home clusterOf other

theorem claims_of_deletes (h : s.Deletes d) : s.Claims d := by
  obtain ⟨sweep, rest, hsweep⟩ := h
  exact .inr ⟨sweep, _, hsweep, mem_cons_self⟩

theorem invariant_started (namespaces : Uuid × String → Option ClusterNamespace) :
    Invariant clusterOf (started namespaces) where
  alone := by
    rintro d (⟨hmem, -⟩ | ⟨sweep, pc, hsweep, -⟩)
    · exact absurd hmem not_mem_nil
    · cases hsweep
  labelled := by
    rintro d ⟨sweep, rest, hsweep⟩
    cases hsweep

theorem invariant_of_claims (h : s.Invariant clusterOf) (hnamespaces : t.namespaces = s.namespaces)
    (hclaims : ∀ d, t.Claims d → ∃ other, s.Claims other ∧ SamePreview clusterOf d other)
    (hdeletes : ∀ d, t.Deletes d → s.Deletes d ∨ ∀ ns, s.namespaces (home clusterOf d) = some ns →
        isPreviewNamespace ns d.projectId = true) :
    t.Invariant clusterOf where
  alone := by
    intro d hd ns hns hlabel
    obtain ⟨other, hother, hid, hproject, hhome⟩ := hclaims d hd
    rw [hnamespaces, hhome] at hns
    rw [hproject] at hlabel
    obtain ⟨htenant, hguests⟩ := h.alone other hother ns hns hlabel
    exact ⟨htenant.trans (congrArg some hid.symm), hguests⟩
  labelled := by
    intro d hd ns hns
    rw [hnamespaces] at hns
    rcases hdeletes d hd with hold | hnew
    · exact h.labelled d hold ns hns
    · exact hnew ns hns

variable {pc' : SweepPc}

theorem claims_setSweep (hsweep : s.sweeps sweep = some pc)
    (hheld : ∀ d ∈ pc'.held, d ∈ pc.held ∨ (d ∈ s.list.items ∧ d.isLivePreview = true))
    (h : (s.setSweep sweep pc').Claims d) : s.Claims d := by
  rcases h with h | ⟨k, p, hk, hp⟩
  · exact .inl h
  · by_cases heq : k = sweep
    · rw [heq, sweeps_setSweep_self] at hk
      rw [← some.inj hk] at hp
      rcases hheld d hp with hp | hp
      · exact .inr ⟨sweep, pc, hsweep, hp⟩
      · exact .inl hp
    · rw [sweeps_setSweep_of_ne s pc' heq] at hk
      exact .inr ⟨k, p, hk, hp⟩

theorem deletes_setSweep (h : (s.setSweep sweep pc').Deletes d) :
    s.Deletes d ∨ ∃ rest, pc' = .deleting d rest := by
  obtain ⟨k, rest, hk⟩ := h
  by_cases heq : k = sweep
  · rw [heq, sweeps_setSweep_self] at hk
    exact .inr ⟨rest, some.inj hk⟩
  · rw [sweeps_setSweep_of_ne s pc' heq] at hk
    exact .inl ⟨k, rest, hk⟩

/-- Where a sweep is about to delete nothing. -/
def isIdle : SweepPc → Bool
  | .deleting _ _ => false
  | _ => true

theorem deletes_of_setSweep_idle (hidle : isIdle pc' = true)
    (h : (s.setSweep sweep pc').Deletes d) : s.Deletes d := by
  rcases deletes_setSweep h with hold | ⟨rest, rfl⟩
  · exact hold
  · cases hidle

theorem invariant_setSweep (h : s.Invariant clusterOf)
    (hclaims : ∀ d, (s.setSweep sweep pc').Claims d → s.Claims d) (hidle : isIdle pc' = true) :
    (s.setSweep sweep pc').Invariant clusterOf :=
  invariant_of_claims h rfl (fun d hd => ⟨d, hclaims d hd, rfl, rfl, rfl⟩)
    (fun _ hd => .inl (deletes_of_setSweep_idle hidle hd))

theorem isLivePreview_markRemoval {now : String} {error : Option String}
    (h : (markRemoval now error d).isLivePreview = true) : d.isLivePreview = true := by
  unfold markRemoval Deployment.isLivePreview at *
  cases hpreview : d.preview with
  | none =>
    rw [hpreview] at h
    exact h
  | some =>
    rw [hpreview] at h
    cases error with
    | none => exact absurd h Bool.false_ne_true
    | some => exact h

theorem home_markRemoval (now : String) (error : Option String) :
    home clusterOf (markRemoval now error d) = home clusterOf d := by
  unfold home markRemoval
  cases d.preview with
  | none => rfl
  | some => cases error <;> rfl

theorem claims_recordRemoval {id : Uuid} {now : String} {error : Option String}
    (h : d ∈ (recordRemoval s.list id now error).items) (hlive : d.isLivePreview = true) :
    ∃ other, s.Claims other ∧ SamePreview clusterOf d other := by
  obtain ⟨x, hx, hd⟩ := List.mem_map.mp h
  split at hd
  · subst hd
    exact ⟨x, .inl ⟨hx, isLivePreview_markRemoval hlive⟩, rfl, rfl, home_markRemoval now error⟩
  · subst hd
    exact ⟨x, .inl ⟨hx, hlive⟩, rfl, rfl, rfl⟩

theorem toRemove_live {only : Option Uuid} {now : Int} (h : d ∈ toRemove isPast s.list only now) :
    d ∈ s.list.items ∧ d.isLivePreview = true := by
  obtain ⟨hmem, hcond⟩ := mem_filter.mp h
  refine ⟨hmem, ?_⟩
  cases only with
  | none => exact (Bool.and_eq_true_iff.mp hcond).1
  | some => exact (Bool.and_eq_true_iff.mp hcond).2

theorem invariant_deletes {rest : List Deployment} (h : s.Invariant clusterOf)
    (hsweep : s.sweeps sweep = some (.deleting d rest)) :
    ((s.setNamespace (home clusterOf d) none).setSweep sweep
      (.recording d rest none)).Invariant clusterOf := by
  have hmiddle : (s.setNamespace (home clusterOf d) none).Invariant clusterOf := by
    have hold : ∀ other ns,
        (s.setNamespace (home clusterOf d) none).namespaces (home clusterOf other) = some ns →
          s.namespaces (home clusterOf other) = some ns := by
      intro other ns hns
      by_cases heq : home clusterOf other = home clusterOf d
      · rw [heq, namespaces_setNamespace_self] at hns
        cases hns
      · rwa [namespaces_setNamespace_of_ne s none heq] at hns
    exact ⟨fun other hother ns hns => h.alone other hother ns (hold other ns hns),
      fun other hother ns hns => h.labelled other hother ns (hold other ns hns)⟩
  refine invariant_setSweep hmiddle (fun other hother => ?_) rfl
  refine claims_setSweep (s := s.setNamespace (home clusterOf d) none) hsweep ?_ hother
  intro x hx
  exact .inl (mem_cons_of_mem d hx)

section

variable (h : s.Invariant clusterOf)
include h

theorem invariant_sweepStep (hsweep : s.sweeps sweep = some pc)
    (hstep : sweepStep clusterOf isPast s sweep pc a = some t) : t.Invariant clusterOf := by
  have hgoes : ∀ pc' : SweepPc, (∀ d ∈ pc'.held, d ∈ pc.held) → isIdle pc' = true →
      (s.setSweep sweep pc').Invariant clusterOf := fun pc' hheld hidle =>
    invariant_setSweep h (fun d => claims_setSweep hsweep fun x hx => .inl (hheld x hx)) hidle
  cases a with
  | reads =>
    simp only [sweepStep] at hstep
    split at hstep
    · cases hstep
      refine invariant_setSweep h (fun d => claims_setSweep hsweep fun x hx => .inr ?_) rfl
      exact toRemove_live hx
    · cases hstep
  | looks =>
    simp only [sweepStep] at hstep
    split at hstep
    · next d _ =>
      split at hstep
      · cases hstep
        exact hgoes _ (fun x hx => mem_cons_of_mem d hx) rfl
      · next _ hns =>
        split at hstep
        · next hlabel =>
          cases hstep
          refine invariant_of_claims h rfl (fun x hx => ⟨x, ?_, rfl, rfl, rfl⟩) ?_
          · refine claims_setSweep hsweep ?_ hx
            exact fun y hy => .inl hy
          intro x hx
          rcases deletes_setSweep hx with hx | ⟨rest', heq⟩
          · exact .inl hx
          · cases heq
            refine .inr fun ns' hns' => ?_
            rw [hns] at hns'
            cases hns'
            exact hlabel
        · cases hstep
          exact hgoes _ (fun x hx => mem_cons_of_mem d hx) rfl
    · cases hstep
  | deletes =>
    simp only [sweepStep] at hstep
    split at hstep
    · cases hstep
      exact invariant_deletes h hsweep
    · cases hstep
  | fails =>
    simp only [sweepStep] at hstep
    split at hstep
    · next d _ =>
      cases hstep
      exact hgoes _ (fun x hx => mem_cons_of_mem d hx) rfl
    · next d _ =>
      cases hstep
      exact hgoes _ (fun x hx => mem_cons_of_mem d hx) rfl
    · cases hstep
  | records =>
    simp only [sweepStep] at hstep
    split at hstep
    · next _ rest _ =>
      cases hstep
      refine invariant_of_claims h rfl (fun x hx => ?_) (fun x hx => ?_)
      · rcases hx with ⟨hmem, hlive⟩ | hheld
        · exact claims_recordRemoval hmem hlive
        · have hafter : (s.setSweep sweep (.removing rest)).Claims x := .inr hheld
          refine ⟨x, claims_setSweep hsweep ?_ hafter, rfl, rfl, rfl⟩
          exact fun y hy => .inl hy
      · have hold : (s.setSweep sweep (.removing rest)).Deletes x := hx
        exact .inl (deletes_of_setSweep_idle rfl hold)
    · cases hstep
  | recordFails =>
    simp only [sweepStep] at hstep
    split at hstep
    · next _ _ _ =>
      cases hstep
      exact hgoes _ (fun x hx => hx) rfl
    · cases hstep
  | _ => cases hstep

theorem invariant_setNamespace (halone : ∀ other, s.Claims other → home clusterOf other = place →
      isPreviewNamespace made other.projectId = true → LivesAlone other made)
    (hlabel : ∀ other, s.Deletes other → home clusterOf other = place →
      isPreviewNamespace made other.projectId = true) :
    (s.setNamespace place (some made)).Invariant clusterOf where
  alone := by
    intro other hother ns hns hpreview
    by_cases heq : home clusterOf other = place
    · rw [heq, namespaces_setNamespace_self] at hns
      cases hns
      exact halone other hother heq hpreview
    · rw [namespaces_setNamespace_of_ne s (some made) heq] at hns
      exact h.alone other hother ns hns hpreview
  labelled := by
    intro other hother ns hns
    by_cases heq : home clusterOf other = place
    · rw [heq, namespaces_setNamespace_self] at hns
      cases hns
      exact hlabel other hother heq
    · rw [namespaces_setNamespace_of_ne s (some made) heq] at hns
      exact h.labelled other hother ns hns

theorem invariant_movesIn (honly : s.OnlyClaim clusterOf d place)
    (hns : s.namespaces place = some ns) (htenant : made.tenant = some d.id)
    (hguests : made.guests = ns.guests)
    (hlabels : ∀ project, isPreviewNamespace made project = isPreviewNamespace ns project) :
    (s.setNamespace place (some made)).Invariant clusterOf := by
  refine invariant_setNamespace h (fun other hother heq hpreview => ?_) (fun other hother heq => ?_)
  · rw [hlabels] at hpreview
    rw [← heq] at hns
    obtain ⟨hid, -⟩ := honly other hother heq
    refine ⟨htenant.trans (congrArg some hid.symm), ?_⟩
    rw [hguests]
    exact (h.alone other hother ns hns hpreview).2
  · rw [hlabels]
    rw [← heq] at hns
    exact h.labelled other hother ns hns

theorem invariant_prepares (hpreview : d.preview.isSome = true → s.OnlyClaim clusterOf d place)
    (hother : d.preview.isSome = false → s.namespaces place = none →
      ∀ other, s.Deletes other → home clusterOf other ≠ place)
    (hmake : makeNamespace d (s.namespaces place) = .ok ns) :
    (s.setNamespace place (some (ns.taken d))).Invariant clusterOf := by
  rcases makeNamespace_spec hmake with ⟨hnone, rfl⟩ | hfound
  · cases hd : d.preview.isSome with
    | true =>
      have honly := hpreview hd
      have htaken : ((newNamespace d).taken d).tenant = some d.id := by
        unfold taken
        rw [if_pos hd]
      have hguests : ((newNamespace d).taken d).guests = [] := by
        unfold taken
        rw [if_pos hd]
        rfl
      refine invariant_setNamespace h (fun other hclaim heq _ => ?_) (fun other hdeletes heq => ?_)
      · obtain ⟨hid, -⟩ := honly other hclaim heq
        exact ⟨htaken.trans (congrArg some hid.symm), hguests⟩
      · obtain ⟨-, hproject⟩ := honly other (claims_of_deletes hdeletes) heq
        rw [isPreviewNamespace_taken, hproject, isPreviewNamespace_new, hd]
    | false =>
      refine invariant_setNamespace h (fun other _ _ hlabel => ?_)
        (fun other hdeletes heq => absurd heq (hother hd hnone other hdeletes))
      rw [isPreviewNamespace_taken, isPreviewNamespace_new_of_none hd] at hlabel
      cases hlabel
  · cases hd : d.preview.isSome with
    | true =>
      refine invariant_movesIn h (hpreview hd) hfound ?_ ?_ fun project =>
        isPreviewNamespace_taken ns d project
      · unfold taken
        rw [if_pos hd]
      · unfold taken
        rw [if_pos hd]
    | false =>
      have hsame : ns.taken d = ns := by
        unfold taken
        rw [hd]
        rfl
      rw [hsame]
      refine invariant_setNamespace h (fun other hclaim heq hlabel => ?_)
        (fun other hdeletes heq => ?_)
      · exact h.alone other hclaim ns (heq ▸ hfound) hlabel
      · exact h.labelled other hdeletes ns (heq ▸ hfound)

theorem invariant_installs (hpreview : d.preview.isSome = true → s.OnlyClaim clusterOf d place)
    (hother : d.preview.isSome = false → ∀ other, s.Claims other →
      home clusterOf other = place → isPreviewNamespace ns other.projectId = false)
    (hns : s.namespaces place = some ns) :
    (s.setNamespace place (some (ns.installed d))).Invariant clusterOf := by
  cases hd : d.preview.isSome with
  | true =>
    refine invariant_movesIn h (hpreview hd) hns ?_ ?_ fun project =>
      isPreviewNamespace_installed ns d project
    · unfold installed
      rw [if_pos hd]
    · unfold installed
      rw [if_pos hd]
  | false =>
    refine invariant_setNamespace h (fun other hclaim heq hlabel => ?_)
      (fun other hdeletes heq => ?_)
    · rw [isPreviewNamespace_installed, hother hd other hclaim heq] at hlabel
      cases hlabel
    · rw [isPreviewNamespace_installed]
      exact h.labelled other hdeletes ns (heq ▸ hns)

theorem invariant_uninstalls (hns : s.namespaces place = some ns) :
    (s.setNamespace place (some (ns.uninstalled d))).Invariant clusterOf := by
  refine invariant_setNamespace h (fun other hclaim heq hlabel => ?_) (fun other hdeletes heq => ?_)
  · obtain ⟨htenant, hguests⟩ := h.alone other hclaim ns (heq ▸ hns) hlabel
    refine ⟨htenant, ?_⟩
    unfold uninstalled
    rw [hguests]
    rfl
  · exact h.labelled other hdeletes ns (heq ▸ hns)

theorem invariant_requests
    (hfree : d.isLivePreview = true → ∀ ns, s.namespaces (home clusterOf d) = some ns →
      isPreviewNamespace ns d.projectId = false) :
    Invariant clusterOf { s with list := s.list.record d } where
  alone := by
    rintro other (⟨hmem, hlive⟩ | hheld) ns hns hlabel
    · rcases mem_record hmem with rfl | ⟨hold, -⟩
      · rw [hfree hlive ns hns] at hlabel
        cases hlabel
      · exact h.alone other (.inl ⟨hold, hlive⟩) ns hns hlabel
    · exact h.alone other (.inr hheld) ns hns hlabel
  labelled := h.labelled

end

theorem exists_sweep_of_sweepAt (h : sweepAt clusterOf isPast s sweep a = some t) :
    ∃ pc, s.sweeps sweep = some pc ∧ sweepStep clusterOf isPast s sweep pc a = some t :=
  bind_eq_some_iff.mp h

section

variable (h : s.Invariant clusterOf)
include h

theorem invariant_sweepAt
    (hstep : sweepAt clusterOf isPast s sweep a = some t) : t.Invariant clusterOf := by
  obtain ⟨pc, hsweep, hstep⟩ := exists_sweep_of_sweepAt hstep
  exact invariant_sweepStep h hsweep hstep

theorem invariant_begins {only : Option Uuid} :
    (s.setSweep sweep (.reading only)).Invariant clusterOf := by
  refine invariant_setSweep h (fun d hd => ?_) rfl
  rcases hd with hd | ⟨k, p, hk, hp⟩
  · exact .inl hd
  · by_cases heq : k = sweep
    · rw [heq, sweeps_setSweep_self] at hk
      cases hk
      exact absurd hp not_mem_nil
    · rw [sweeps_setSweep_of_ne s _ heq] at hk
      exact .inr ⟨k, p, hk, hp⟩

omit h in
theorem ok_of_toOption {made : Except String ClusterNamespace} (h : made.toOption = some ns) :
    made = .ok ns := by
  cases made with
  | error => cases h
  | ok => exact congrArg Except.ok (some.inj h)

theorem invariant_runAt {run : Nat} (hapart : s.Apart clusterOf a)
    (ha : a = .prepares run ∨ a = .installs run ∨ a = .uninstalls run)
    (hstep : runAt clusterOf s run a = some t) : t.Invariant clusterOf := by
  obtain ⟨⟨d, connection⟩, hrun, hstep⟩ := bind_eq_some_iff.mp hstep
  rcases ha with rfl | rfl | rfl
  · have hcond := hapart d connection hrun
    simp only [runStep] at hstep
    split at hstep
    · obtain ⟨ns, hmake, rfl⟩ := map_eq_some_iff.mp hstep
      refine invariant_prepares h (fun hd => ?_) (fun hd => ?_) (ok_of_toOption hmake)
      · rw [if_pos hd] at hcond
        exact hcond
      · rw [if_neg (by rw [hd]; exact Bool.false_ne_true)] at hcond
        exact hcond
    · cases hstep
  · have hcond := hapart d connection hrun
    simp only [runStep] at hstep
    split at hstep
    · obtain ⟨ns, hns, rfl⟩ := map_eq_some_iff.mp hstep
      refine invariant_installs h (fun hd => ?_) (fun hd other hclaim heq => ?_) hns
      · rw [if_pos hd] at hcond
        exact hcond
      · rw [if_neg (by rw [hd]; exact Bool.false_ne_true)] at hcond
        exact hcond other hclaim heq ns hns
    · cases hstep
  · simp only [runStep] at hstep
    split at hstep
    · obtain ⟨ns, hns, rfl⟩ := map_eq_some_iff.mp hstep
      exact invariant_uninstalls h hns
    · cases hstep

theorem invariant_step (hapart : s.Apart clusterOf a)
    (hstep : step clusterOf isPast s a = some t) : t.Invariant clusterOf := by
  cases a with
  | requests =>
    simp only [step] at hstep
    split at hstep
    · next d hd =>
      cases hstep
      exact invariant_requests h (hapart d hd)
    · cases hstep
  | queues =>
    obtain ⟨d, _, rfl⟩ := map_eq_some_iff.mp hstep
    exact ⟨h.alone, h.labelled⟩
  | prepares => exact invariant_runAt h hapart (.inl rfl) hstep
  | installs => exact invariant_runAt h hapart (.inr (.inl rfl)) hstep
  | uninstalls => exact invariant_runAt h hapart (.inr (.inr rfl)) hstep
  | sweeps =>
    simp only [step] at hstep
    split at hstep
    · cases hstep
    · cases hstep
      exact invariant_begins h
  | asksRemoval =>
    simp only [step] at hstep
    split at hstep
    · split at hstep
      · cases hstep
      · cases hstep
        exact invariant_begins h
    · cases hstep
  | reads => exact invariant_sweepAt h hstep
  | looks => exact invariant_sweepAt h hstep
  | deletes => exact invariant_sweepAt h hstep
  | fails => exact invariant_sweepAt h hstep
  | records => exact invariant_sweepAt h hstep
  | recordFails => exact invariant_sweepAt h hstep

theorem removesItsOwn_of_invariant : s.RemovesItsOwn clusterOf a := by
  cases a with
  | deletes sweep =>
    intro d rest hsweep ns hns
    have hdeletes : s.Deletes d := ⟨sweep, rest, hsweep⟩
    exact h.alone d (claims_of_deletes hdeletes) ns hns (h.labelled d hdeletes ns hns)
  | _ => trivial

end

end Steps

/-- **Removing a preview removes only that preview**, in every run in which nothing else
moves into a namespace that a preview has a claim on. -/
theorem sweep_removes_only_its_preview (clusterOf : Uuid → Uuid) (isPast : String → Int → Bool)
    (namespaces : Uuid × String → Option ClusterNamespace) (actions : List PreviewAction)
    (hapart : EveryStep (step clusterOf isPast) (fun s a _ => s.Apart clusterOf a)
      (started namespaces) actions) :
    EveryStep (step clusterOf isPast) (fun s a _ => s.RemovesItsOwn clusterOf a)
      (started namespaces) actions := by
  have hpres : ∀ s a t, s.Invariant clusterOf → step clusterOf isPast s a = some t →
      s.Apart clusterOf a → t.Invariant clusterOf :=
    fun s a t h hstep hapart => invariant_step h hapart hstep
  exact EveryStep.of_invariant hpres (fun s a t h _ _ => removesItsOwn_of_invariant h)
    (invariant_started namespaces) hapart

private def onCluster (name pattern : String) (previews : Option PreviewSettings)
    (holds : patternMarks.firstMark <:+: pattern.toList) (named : isDnsLabel name.toList = true)
    (gives : isDnsLabel (patternText pattern "a-project" name) = true) : Environment where
  id := ⟨name⟩
  name := name
  kind := .kubernetes
  connectionId := ⟨"cluster"⟩
  research := none
  registry := "ghcr.io/acme"
  registryConnectionId := some ⟨"registry"⟩
  namespacePattern := pattern
  isProtected := false
  promoteFrom := none
  projects := none
  projectId := none
  previews := previews
  buildNamespace := none
  namespaces := none
  named := named
  holdsProject := holds
  givesNamespace := gives

/-- An environment that takes previews. -/
private def stage : Environment :=
  onCluster "stage" DEFAULT_NAMESPACE_PATTERN (some ⟨"", 24, 3⟩) default_holdsProject (by decide) (by decide)

/-- An environment whose pattern gives the project the namespace of a preview of `stage`. -/
private def beside : Environment :=
  onCluster "beside" "\x7bproject\x7d-stage-pv-x" none (by decide) (by decide) (by decide)

private def deployReads (id : String) (history : DeploymentList) : DeployReads where
  projectName := .ok "Shop"
  slug := .ok "shop"
  assignment := .ok none
  admitted := .ok [stage, beside]
  environmentName := fun _ => none
  list := history
  runs := []
  answered := fun _ => true
  builds := none
  images := none
  checkedChart := fun _ => .error (.invalid "the chart is not base64")
  repository := .ok ()
  savedProductFile := .ok "products/shop/product.gdl"
  expiresAt := fun _ => "2026-01-02T00:00:00Z"
  requestedAt := "2026-01-01T00:00:00Z"
  person := ⟨"ann", some "Ann"⟩
  id := ⟨id⟩
  goesOn := fun _ => .ok []

private def installsChart (environment : String) (preview : Option PreviewAsk) : DeployRequest where
  environmentId := ⟨environment⟩
  profile := "default"
  product := "shop"
  commit := none
  lockHash := none
  build := none
  images := []
  chart := none
  chartRef := some "oci://ghcr.io/acme/shop/charts/shop"
  chartVersion := some "0.1.0"
  action := .install
  redeployOf := none
  preview := preview

private def previewX : DeployRequest :=
  installsChart "stage" (some ⟨some "x", none⟩)

private def chartOf (d : Deployment) : Deployment :=
  { d with chartRef := some ⟨"oci://ghcr.io/acme/shop/charts/shop", "0.1.0", none⟩ }

private def inPreview : Deployment :=
  { chartOf (asked (deployReads "d1" ⟨[]⟩) stage ⟨"shop"⟩ "Shop" previewX "shop"
      "shop-stage-pv-x") with
    preview := some ⟨"x", "2026-01-02T00:00:00Z", none, ⟨"cluster"⟩, none, none, none⟩ }

private def inBeside : Deployment :=
  chartOf (asked (deployReads "d2" ⟨[inPreview]⟩) beside ⟨"shop"⟩ "Shop"
    (installsChart "beside" none) "shop" "shop-stage-pv-x")

private theorem requests_preview :
    (deployReads "d1" ⟨[]⟩).requestDeploy stage ⟨"shop"⟩ previewX = .ok inPreview := by
  decide

private theorem requests_beside :
    (deployReads "d2" ⟨[inPreview]⟩).requestDeploy beside ⟨"shop"⟩
      (installsChart "beside" none) = .ok inBeside := by
  decide

private theorem step_requests
    {clusterOf : Uuid → Uuid} {isPast : String → Int → Bool} {s : PreviewWorld}
    {reads : DeployReads} {env : Environment} {project : Uuid} {req : DeployRequest}
    {d : Deployment} (h : reads.requestDeploy env project req = .ok d) :
    step clusterOf isPast s (.requests reads env project req) =
      some { s with list := s.list.record d } := by
  simp only [step, h]

/-- A preview is asked for, and moves into its namespace. -/
private def previewStart : List PreviewAction :=
  [.requests (deployReads "d1" ⟨[]⟩) stage ⟨"shop"⟩ previewX,
    .queues ⟨"d1"⟩ ⟨"cluster"⟩, .prepares 0, .installs 0]

private def sweepsNow : List PreviewAction :=
  [.sweeps 0, .reads 0 0, .looks 0, .deletes 0]

private def besideToo : List PreviewAction :=
  [.requests (deployReads "d2" ⟨[inPreview]⟩) beside ⟨"shop"⟩ (installsChart "beside" none),
    .queues ⟨"d2"⟩ ⟨"cluster"⟩, .prepares 1, .installs 1]

private theorem onlyClaim_inPreview {s : PreviewWorld} (hlist : s.list = ⟨[inPreview]⟩)
    (hsweeps : s.sweeps = fun _ => none) (place : Uuid × String) :
    s.OnlyClaim id inPreview place := by
  rintro other (⟨hmem, -⟩ | ⟨sweep, pc, hsweep, -⟩) -
  · rw [hlist] at hmem
    rw [mem_singleton.mp hmem]
    exact ⟨rfl, rfl⟩
  · rw [hsweeps] at hsweep
    cases hsweep

/-- An expired preview goes with its namespace. -/
theorem expired_preview_is_deleted :
    EveryStep (step id fun _ _ => true) (fun s a _ => s.RemovesItsOwn id a)
      (started fun _ => none) (previewStart ++ sweepsNow) := by
  refine sweep_removes_only_its_preview id (fun _ _ => true) (fun _ => none)
    (previewStart ++ sweepsNow) ?_
  refine (everyStep_cons_iff (step_requests requests_preview)).mpr ⟨?_, ?_⟩
  · intro d _ _ ns hns
    cases hns
  refine (everyStep_cons_iff rfl).mpr ⟨trivial, ?_⟩
  refine (everyStep_cons_iff rfl).mpr ⟨?_, ?_⟩
  · intro d connection hrun
    cases hrun
    exact onlyClaim_inPreview rfl rfl _
  refine (everyStep_cons_iff rfl).mpr ⟨?_, ?_⟩
  · intro d connection hrun
    cases hrun
    exact onlyClaim_inPreview rfl rfl _
  refine (everyStep_cons_iff rfl).mpr ⟨trivial, ?_⟩
  refine (everyStep_cons_iff rfl).mpr ⟨trivial, ?_⟩
  refine (everyStep_cons_iff rfl).mpr ⟨trivial, ?_⟩
  exact (everyStep_cons_iff rfl).mpr ⟨trivial, trivial⟩

/-- An expired preview goes with what another environment installed into its namespace. -/
theorem other_install_is_deleted :
    ¬ ∀ clusterOf isPast namespaces actions,
      EveryStep (step clusterOf isPast) (fun s a _ => s.RemovesItsOwn clusterOf a)
        (started namespaces) actions := by
  intro hclaim
  have h := hclaim id (fun _ _ => true) (fun _ => none) (previewStart ++ besideToo ++ sweepsNow)
  have h := ((everyStep_cons_iff (step_requests requests_preview)).mp h).2
  have h := ((everyStep_cons_iff rfl).mp h).2
  have h := ((everyStep_cons_iff rfl).mp h).2
  have h := ((everyStep_cons_iff rfl).mp h).2
  have h := ((everyStep_cons_iff (step_requests requests_beside)).mp h).2
  have h := ((everyStep_cons_iff rfl).mp h).2
  have h := ((everyStep_cons_iff rfl).mp h).2
  have h := ((everyStep_cons_iff rfl).mp h).2
  have h := ((everyStep_cons_iff rfl).mp h).2
  have h := ((everyStep_cons_iff rfl).mp h).2
  have h := ((everyStep_cons_iff rfl).mp h).2
  have hlast := ((everyStep_cons_iff rfl).mp h).1
  have hguests := (hlast _ _ rfl _ rfl).2
  cases hguests
end PreviewWorld

end Environments
end StudioWeb
