import StudioWeb.WorkspaceJobs.BatchEnqueue
import StudioWeb.Library.SubstringSearch
import Mathlib.Data.List.Forall2
import Mathlib.Logic.Relation

/-!
# The same batch a second time

A batch call leaves, under the key of each of its sources, the job it answers
with.  A second call with an equal request finds these jobs; it is answered with
them when their scopes are the ones it asks for.

The scope a job is kept with is the sanitized one, and the scope of a request is
not sanitized.  Also the batch id of a request without one is drawn anew in each
call, and it is part of the scope.  Both make the second call fail.
-/

namespace StudioWeb
namespace WorkspaceJobs

open List Option Journal

/-- The texts that `digest('hex')` gives. -/
def IsDigest (key : String) : Prop := ∀ c ∈ key.toList, isHexDigit c = true

def WorkspaceJobScope.sanitize (scope : WorkspaceJobScope) : WorkspaceJobScope :=
  { kind := scope.kind
    batchId := sanitizeString scope.batchId
    sourceId := sanitizeString scope.sourceId
    sourceIds := scope.sourceIds.map sanitizeString
    idempotencyKey := sanitizeString scope.idempotencyKey }

section Records

variable {journal : Journal} {input : SnapshotInput} {eventId : String}

theorem getJob_record {event : WorkspaceJobJournalEvent} (jobId : String) :
    (journal.record event).getJob jobId =
      if jobId = event.job.jobId then some event.job else journal.getJob jobId := by
  exact InsertionMap.get?_set _ _ _ _

theorem indexed_record {event : WorkspaceJobJournalEvent} (key : String) :
    (journal.record event).idempotencyIndex.get? key =
      if key = event.job.idempotencyKey then some event.job
      else journal.idempotencyIndex.get? key := by
  exact InsertionMap.get?_set _ _ _ _

@[simp] theorem nextEvent_jobId : (journal.nextEvent input eventId).job.jobId = input.jobId := by
  rfl

theorem nextEvent_scope :
    (journal.nextEvent input eventId).job.toWorkspaceJobScope =
      input.toWorkspaceJobScope.sanitize := by
  rfl

@[simp] theorem nextEvent_idempotencyKey :
    (journal.nextEvent input eventId).job.idempotencyKey =
      sanitizeString input.idempotencyKey := by
  rfl

end Records

section Writers

/-- One write of the queue: a further snapshot of a job, or the first snapshot of
a job under a key nothing has. -/
def Journal.Writes (journal after : Journal) : Prop :=
  ∃ input eventId snapshot, journal.appendSnapshotSerial input eventId = .ok (snapshot, after) ∧
      ((journal.getJob input.jobId).isSome = true ∨
        journal.idempotencyIndex.get? input.idempotencyKey = none)

def Journal.Later : Journal → Journal → Prop := Relation.ReflTransGen Journal.Writes

/-- A journal the queue has written. -/
def Journal.Reachable (journal : Journal) : Prop := empty.Later journal

variable {journal : Journal}

theorem scope_eq_of_checkScope {input : SnapshotInput} {previous : WorkspaceJobSnapshot} {u : Unit}
    (h : journal.checkScope input = .ok u) (hjob : journal.getJob input.jobId = some previous) :
    previous.toWorkspaceJobScope = input.toWorkspaceJobScope := by
  have hmatch : assertScopeMatch previous.toWorkspaceJobScope
      input.toWorkspaceJobScope = .ok u := by
    simp only [checkScope, hjob] at h
    split at h
    · exact h
    · split_ifs at h
      · obtain ⟨_, _, hmatch⟩ := Rust.bind_eq_ok_iff.mp h
        exact hmatch
      · exact h
  unfold assertScopeMatch at hmatch
  split_ifs at hmatch with hscope
  exact hscope

theorem writes_cases {journal after : Journal} (h : journal.Writes after) :
    ∃ input eventId, after = journal.record (journal.nextEvent input eventId) ∧
      ((∃ previous, journal.getJob input.jobId = some previous ∧
          previous.toWorkspaceJobScope = input.toWorkspaceJobScope) ∨
        (journal.getJob input.jobId = none ∧
          journal.idempotencyIndex.get? input.idempotencyKey = none)) := by
  obtain ⟨input, eventId, snapshot, happend, hwriter⟩ := h
  obtain ⟨_, rfl⟩ := appendSnapshotSerial_eq_ok happend
  refine ⟨input, eventId, rfl, ?_⟩
  cases hjob : journal.getJob input.jobId with
  | none =>
    rw [hjob] at hwriter
    exact Or.inr ⟨rfl, hwriter.resolve_left (by simp)⟩
  | some previous =>
    refine Or.inl ⟨previous, rfl, ?_⟩
    obtain ⟨_, hcheck, _⟩ := Rust.bind_eq_ok_iff.mp happend
    exact scope_eq_of_checkScope hcheck hjob

/-- A digest is the key of one job, whose newest snapshot is under it. -/
structure Journal.Filed (journal : Journal) : Prop where
  indexed : ∀ jobId job, journal.getJob jobId = some job → IsDigest job.idempotencyKey →
      journal.idempotencyIndex.get? job.idempotencyKey = some job
  current : ∀ key job, journal.idempotencyIndex.get? key = some job →
    IsDigest key → journal.getJob job.jobId = some job ∧ job.idempotencyKey = key

theorem filed_empty : empty.Filed := by
  constructor
  · intro jobId job h
    simp [empty, getJob] at h
  · intro key job h
    simp [empty] at h

theorem Journal.Filed.writer_eq {input : SnapshotInput} {job : WorkspaceJobSnapshot}
    (hfiled : journal.Filed) (hwriter : (∃ previous, journal.getJob input.jobId = some previous ∧
        previous.toWorkspaceJobScope = input.toWorkspaceJobScope) ∨
      (journal.getJob input.jobId = none ∧
        journal.idempotencyIndex.get? input.idempotencyKey = none))
    (hkey : IsDigest (sanitizeString input.idempotencyKey))
    (hjob : journal.idempotencyIndex.get? (sanitizeString input.idempotencyKey) = some job) :
    journal.getJob input.jobId = some job := by
  have hraw := eq_of_sanitizeString_hex hkey rfl
  rw [← hraw] at hjob hkey
  obtain ⟨previous, hprevious, hscope⟩ | ⟨_, hnone⟩ := hwriter
  · have hsame : previous.idempotencyKey = input.idempotencyKey :=
      congrArg WorkspaceJobScope.idempotencyKey hscope
    rw [← hsame] at hjob hkey
    have hindexed := hfiled.indexed input.jobId previous hprevious hkey
    rw [hindexed] at hjob
    rw [hprevious, hjob]
  · rw [hnone] at hjob
    cases hjob

theorem filed_writes {journal after : Journal} (hfiled : journal.Filed) (h : journal.Writes after) :
    after.Filed := by
  obtain ⟨input, eventId, rfl, hwriter⟩ := writes_cases h
  constructor
  · intro jobId job hjob hkey
    rw [getJob_record] at hjob
    rw [indexed_record]
    split_ifs at hjob with hid
    · cases hjob
      exact if_pos rfl
    · have hindexed := hfiled.indexed jobId job hjob hkey
      split_ifs with hsame
      · rw [hsame] at hkey hindexed
        have howner := hfiled.writer_eq hwriter hkey hindexed
        have hjobId := jobId_of_getJob howner
        have hjobId' := jobId_of_getJob hjob
        exact absurd (hjobId'.symm.trans hjobId) hid
      · exact hindexed
  · intro key job hindexed hkey
    rw [indexed_record] at hindexed
    rw [getJob_record]
    split_ifs at hindexed with hsame
    · cases hindexed
      exact ⟨if_pos rfl, hsame.symm⟩
    · obtain ⟨hjob, hjobKey⟩ := hfiled.current key job hindexed hkey
      refine ⟨?_, hjobKey⟩
      split_ifs with hid
      · obtain ⟨previous, hprevious, hscope⟩ | ⟨hnone, _⟩ := hwriter
        · rw [nextEvent_jobId] at hid
          rw [hid, hprevious] at hjob
          cases hjob
          have hraw : job.idempotencyKey = input.idempotencyKey :=
            congrArg WorkspaceJobScope.idempotencyKey hscope
          rw [nextEvent_idempotencyKey, ← hraw, hjobKey, sanitizeString_hex hkey] at hsame
          exact absurd rfl hsame
        · rw [nextEvent_jobId] at hid
          rw [hid, hnone] at hjob
          cases hjob
      · exact hjob

theorem filed_later {journal after : Journal} (hfiled : journal.Filed) (h : journal.Later after) :
    after.Filed := by
  induction h with
  | refl => exact hfiled
  | tail _ hwrites ih => exact filed_writes ih hwrites

theorem filed_of_reachable (h : journal.Reachable) : journal.Filed := by
  exact filed_later filed_empty h

end Writers

section Kept

/-- The journal has the job of an id, in its newest state, under the key of a
scope and with that scope. -/
structure Journal.Holds (journal : Journal) (scope : WorkspaceJobScope)
    (job : WorkspaceJobSnapshot) : Prop where
  current : journal.getJob job.jobId = some job
  indexed : journal.idempotencyIndex.get? scope.idempotencyKey = some job
  scope_eq : job.toWorkspaceJobScope = scope

variable {journal after : Journal}

theorem holds_writes {scope : WorkspaceJobScope}
    {job : WorkspaceJobSnapshot} (hkey : IsDigest scope.idempotencyKey)
    (hkept : scope.sanitize = scope) (hfiled : journal.Filed) (hholds : journal.Holds scope job)
    (h : journal.Writes after) : ∃ next, after.Holds scope next ∧ next.jobId = job.jobId := by
  obtain ⟨input, eventId, rfl, hwriter⟩ := writes_cases h
  by_cases hid : job.jobId = input.jobId
  · have howner : journal.getJob input.jobId = some job := by
      rw [← hid]
      exact hholds.current
    have hscope : job.toWorkspaceJobScope = input.toWorkspaceJobScope := by
      obtain ⟨previous, hprevious, hscope⟩ | ⟨hnone, _⟩ := hwriter
      · rw [howner] at hprevious
        cases hprevious
        exact hscope
      · rw [howner] at hnone
        cases hnone
    have hnext : (journal.nextEvent input eventId).job.toWorkspaceJobScope = scope := by
      rw [nextEvent_scope, ← hscope, hholds.scope_eq]
      exact hkept
    refine ⟨(journal.nextEvent input eventId).job, ⟨?_, ?_, hnext⟩, hid.symm⟩
    · rw [getJob_record]
      exact if_pos rfl
    · rw [indexed_record]
      exact if_pos (congrArg WorkspaceJobScope.idempotencyKey hnext).symm
  · refine ⟨job, ⟨?_, ?_, hholds.scope_eq⟩, rfl⟩
    · rw [getJob_record, nextEvent_jobId, if_neg hid]
      exact hholds.current
    · rw [indexed_record, nextEvent_idempotencyKey]
      split_ifs with hsame
      · have hindexed := hholds.indexed
        rw [hsame] at hkey hindexed
        have howner := hfiled.writer_eq hwriter hkey hindexed
        exact absurd (jobId_of_getJob howner) hid
      · exact hholds.indexed

theorem holds_later {scope : WorkspaceJobScope}
    {job : WorkspaceJobSnapshot} (hkey : IsDigest scope.idempotencyKey)
    (hkept : scope.sanitize = scope) (hfiled : journal.Filed) (hholds : journal.Holds scope job)
    (h : journal.Later after) : ∃ next, after.Holds scope next ∧ next.jobId = job.jobId := by
  induction h with
  | refl => exact ⟨job, hholds, rfl⟩
  | tail hlater hwrites ih =>
    obtain ⟨next, hnext, hid⟩ := ih
    obtain ⟨last, hlast, hid'⟩ := holds_writes hkey hkept (filed_later hfiled hlater) hnext hwrites
    exact ⟨last, hlast, hid'.trans hid⟩

theorem batch_writes {batchId : String}
    (hkept : sanitizeString batchId = batchId) (hbatch : (journal.getBatch batchId).isSome = true)
    (h : journal.Writes after) : (after.getBatch batchId).isSome = true := by
  obtain ⟨jobId, job, hjob, hjobBatch⟩ := isSome_getBatch_iff.mp hbatch
  obtain ⟨input, eventId, rfl, hwriter⟩ := writes_cases h
  refine isSome_getBatch_iff.mpr ⟨jobId, ?_⟩
  rw [getJob_record, nextEvent_jobId]
  split_ifs with hid
  · refine ⟨_, rfl, ?_⟩
    rw [hid] at hjob
    obtain ⟨previous, hprevious, hscope⟩ | ⟨hnone, _⟩ := hwriter
    · rw [hprevious] at hjob
      cases hjob
      have hraw : job.batchId = input.batchId := congrArg WorkspaceJobScope.batchId hscope
      show sanitizeString input.batchId = batchId
      rw [← hraw, hjobBatch]
      exact hkept
    · rw [hnone] at hjob
      cases hjob
  · exact ⟨job, hjob, hjobBatch⟩

theorem batch_later {batchId : String}
    (hkept : sanitizeString batchId = batchId) (hbatch : (journal.getBatch batchId).isSome = true)
    (h : journal.Later after) : (after.getBatch batchId).isSome = true := by
  induction h with
  | refl => exact hbatch
  | tail _ hwrites ih => exact batch_writes hkept ih hwrites

end Kept

section Calls

variable {draws : Draws} {sha256 : Sha256} {request : EnqueueWorkspaceBatchRequest}
variable {batchId : String} {journal after : Journal}

def EnqueueWorkspaceBatchRequest.itemScope (request : EnqueueWorkspaceBatchRequest)
    (sha256 : Sha256) (batchId sourceId : String) : WorkspaceJobScope :=
  (request.item sha256 batchId sourceId).scope

theorem isDigest_itemKey (sourceId : String) : IsDigest (request.itemKey sha256 sourceId) := by
  exact sha256.hex_digits _

def EnqueueWorkspaceBatchRequest.Kept (request : EnqueueWorkspaceBatchRequest)
    (batchId : String) : Prop :=
  sanitizeString batchId = batchId ∧
    ∀ sourceId ∈ request.sourceIds, sanitizeString sourceId = sourceId

theorem EnqueueWorkspaceBatchRequest.Kept.itemScope_eq {sourceId : String}
    (h : request.Kept batchId) (hsource : sourceId ∈ request.sourceIds) :
    (request.itemScope sha256 batchId sourceId).sanitize =
      request.itemScope sha256 batchId sourceId := by
  have hkey : sanitizeString (request.itemKey sha256 sourceId) = request.itemKey sha256 sourceId :=
    sanitizeString_hex (isDigest_itemKey sourceId)
  have hsources : request.sourceIds.map sanitizeString = request.sourceIds := by
    calc request.sourceIds.map sanitizeString = request.sourceIds.map id :=
        map_congr_left h.2
      _ = request.sourceIds := List.map_id _
  show WorkspaceJobScope.mk request.kind (sanitizeString batchId)
    (sanitizeString sourceId) (request.sourceIds.map sanitizeString)
    (sanitizeString (request.itemKey sha256 sourceId)) = _
  rw [h.1, h.2 sourceId hsource, hsources, hkey]
  rfl

theorem kept_of_sanitize_eq {sourceId sourceId' : String}
    (h : (request.itemScope sha256 batchId sourceId).sanitize =
      request.itemScope sha256 batchId sourceId') :
    request.Kept batchId := by
  have hsources : request.sourceIds.map sanitizeString = request.sourceIds.map id := by
    rw [List.map_id]
    exact congrArg WorkspaceJobScope.sourceIds h
  exact ⟨congrArg WorkspaceJobScope.batchId h, map_inj_left.mp hsources⟩

theorem writes_enqueued {item : EnqueueWorkspaceJobRequest}
    (hfound : journal.findExisting item.scope = .ok none) :
    journal.Writes (journal.record (enqueuedEvent draws journal item)) := by
  have hkey := findExisting_eq_none_iff.mp hfound
  have happend := @append_of_unused journal
    (queuedInput item.scope (draws.jobId journal) (draws.now journal))
    (draws.eventId journal) hkey (draws.jobId_fresh journal)
  exact ⟨_, _, _, happend, Or.inr hkey⟩

/-- What a batch call leaves under the key of a source: the job it answers with,
kept with the scope of the request when the key was there before the call, and
with the sanitized one when the call wrote it. -/
def Left (request : EnqueueWorkspaceBatchRequest) (sha256 : Sha256)
    (batchId : String) (journal after : Journal) (sourceId : String)
    (job : WorkspaceJobSnapshot) : Prop :=
  sourceId ∈ request.sourceIds ∧
    after.idempotencyIndex.get? (request.itemKey sha256 sourceId) = some job ∧
    if journal.idempotencyIndex.get? (request.itemKey sha256 sourceId) = none then
      job.toWorkspaceJobScope = (request.itemScope sha256 batchId sourceId).sanitize
    else
      job.toWorkspaceJobScope = request.itemScope sha256 batchId sourceId

theorem enqueue_item_eq_ok {sourceId : String} {response : EnqueueWorkspaceJobResponse}
    (h : enqueue draws journal (request.item sha256 batchId sourceId) = .ok (response, after)) :
    Left request sha256 batchId journal after sourceId response.job ∧ journal.Later after ∧
      ∀ key, after.idempotencyIndex.get? key = journal.idempotencyIndex.get? key ∨
        (journal.idempotencyIndex.get? key = none ∧
          key = request.itemKey sha256 sourceId) := by
  have hsource : sourceId ∈ request.sourceIds := by
    unfold enqueue at h
    split_ifs at h with hnot
    have hcontains : request.sourceIds.contains sourceId = true := by
      cases hc : request.sourceIds.contains sourceId with
      | true => rfl
      | false => exact absurd hc hnot
    exact contains_iff_mem.mp hcontains
  obtain ⟨_, rfl, hfound⟩ | ⟨_, hfound, hjob, rfl⟩ := enqueue_eq_ok h
  · obtain ⟨hkey, hscope⟩ := findExisting_eq_some_iff.mp hfound
    refine ⟨⟨hsource, hkey, ?_⟩, .refl, fun key => Or.inl rfl⟩
    rw [if_neg]
    · exact hscope
    · intro hnone
      exact absurd (hkey.symm.trans hnone) (by simp)
  · have hkey : journal.idempotencyIndex.get? (request.itemKey sha256 sourceId) =
        none :=
      findExisting_eq_none_iff.mp hfound
    have hfiled : (enqueuedEvent draws journal
        (request.item sha256 batchId sourceId)).job.idempotencyKey =
          request.itemKey sha256 sourceId :=
      sanitizeString_hex (isDigest_itemKey sourceId)
    refine ⟨⟨hsource, ?_, ?_⟩, .single (writes_enqueued hfound), ?_⟩
    · rw [indexed_record, hfiled, if_pos rfl, hjob]
    · rw [if_pos hkey, hjob]
      rfl
    · intro key
      rw [indexed_record, hfiled]
      split_ifs with hsame
      · rw [hsame]
        exact Or.inr ⟨hkey, rfl⟩
      · exact Or.inl rfl

/-- Every job stays under its key. -/
def Journal.Keeps (journal after : Journal) : Prop :=
  ∀ key job, journal.idempotencyIndex.get? key = some job →
    after.idempotencyIndex.get? key = some job

theorem Left.of_first
    {between : Journal} {first sourceId : String} {job head : WorkspaceJobSnapshot}
    (hhead : Left request sha256 batchId journal between first head)
    (honly : ∀ key, between.idempotencyIndex.get? key = journal.idempotencyIndex.get? key ∨
        (journal.idempotencyIndex.get? key = none ∧ key = request.itemKey sha256 first))
    (hlater : between.Keeps after) (h : Left request sha256 batchId between after sourceId job) :
    Left request sha256 batchId journal after sourceId job := by
  obtain ⟨hsource, hindexed, hscope⟩ := h
  refine ⟨hsource, hindexed, ?_⟩
  obtain hsame | ⟨hnone, hkey⟩ := honly (request.itemKey sha256 sourceId)
  · rw [hsame] at hscope
    exact hscope
  · -- The first item wrote this key; its job has both scopes.
    obtain ⟨_, hfirst, hfirstScope⟩ := hhead
    rw [hkey] at hindexed hnone hscope
    rw [if_pos hnone] at hfirstScope
    rw [hfirst, if_neg (by simp)] at hscope
    have hjob : head = job := by
      have hafter := hlater _ _ hfirst
      exact some.inj (hafter.symm.trans hindexed)
    rw [hjob] at hfirstScope
    have hkept := kept_of_sanitize_eq (hfirstScope.symm.trans hscope)
    rw [hkey, if_pos hnone, hkept.itemScope_eq hsource]
    exact hscope

/-- What a batch call leaves under its keys. -/
theorem enqueueItems_eq_ok {sourceIds : List String} {jobs : List WorkspaceJobSnapshot}
    {reusedExisting : Bool} (h : enqueueItems draws sha256 request batchId sourceIds journal =
      .ok (jobs, reusedExisting, after)) :
    List.Forall₂ (Left request sha256 batchId journal after) sourceIds jobs ∧
      journal.Later after ∧ journal.Keeps after := by
  induction sourceIds generalizing journal jobs reusedExisting with
  | nil =>
    cases h
    exact ⟨.nil, .refl, fun key job hjob => hjob⟩
  | cons _ _ ih =>
    obtain ⟨⟨response, between⟩, hhead, h⟩ := Rust.bind_eq_ok_iff.mp h
    obtain ⟨⟨rest, reused, last⟩, htail, h⟩ := Rust.bind_eq_ok_iff.mp h
    cases h
    obtain ⟨hfirst, hbetween, honly⟩ := enqueue_item_eq_ok hhead
    obtain ⟨hrest, hafter, hkeeps⟩ := ih htail
    refine ⟨.cons ?_ ?_, hbetween.trans hafter, ?_⟩
    · exact ⟨hfirst.1, hkeeps _ _ hfirst.2.1, hfirst.2.2⟩
    · exact hrest.imp fun _ _ hleft => hfirst.of_first honly hkeeps hleft
    · intro key job hjob
      obtain hsame | ⟨hnone, _⟩ := honly key
      · exact hkeeps key job (hsame.trans hjob)
      · exact absurd (hnone.symm.trans hjob) (by simp)

theorem enqueueItems_of_existing {sourceIds : List String} {jobs : List WorkspaceJobSnapshot}
    (h : List.Forall₂ (fun sourceId job => sourceId ∈ request.sourceIds ∧
        journal.idempotencyIndex.get? (request.itemKey sha256 sourceId) = some job ∧
        job.toWorkspaceJobScope = request.itemScope sha256 batchId sourceId)
      sourceIds jobs) :
    enqueueItems draws sha256 request batchId sourceIds journal =
      .ok (jobs, true, journal) := by
  induction h with
  | nil => rfl
  | @cons sourceId job sourceIds _ hjob _ ih =>
    obtain ⟨hsource, hindexed, hscope⟩ := hjob
    have hitem : enqueue draws journal (request.item sha256 batchId sourceId) =
        .ok (⟨job, true⟩, journal) :=
      enqueue_of_existing hsource hindexed hscope
    rw [enqueueItems, hitem]
    show (enqueueItems draws sha256 request batchId sourceIds journal >>= _) = _
    rw [ih]
    rfl

end Calls

section Replay

variable {first second : Draws} {sha256 : Sha256}
variable {request : EnqueueWorkspaceBatchRequest}
variable {response : EnqueueWorkspaceBatchResponse}
variable {journal after : Journal}

/-- The call is answered with the jobs of an earlier answer, marked as reused, and
adds nothing to the journal. -/
def Repeats (draws : Draws) (sha256 : Sha256) (request : EnqueueWorkspaceBatchRequest)
    (response : EnqueueWorkspaceBatchResponse) (journal : Journal) : Prop :=
  ∃ again, enqueueBatch draws journal sha256 request = .ok (again, journal) ∧
    again.jobs.map (fun job => job.jobId) = response.jobs.map (fun job => job.jobId) ∧
    again.reusedExisting = true

/-- The request names its batch, and either the journal keeps its texts as they
are, or every derived key was there before the first call. -/
def RepeatsWhen (sha256 : Sha256) (request : EnqueueWorkspaceBatchRequest)
    (journal : Journal) : Prop :=
  ∃ batchId, request.batchId = some batchId ∧ (request.Kept batchId ∨
      ∀ sourceId ∈ request.sourceIds,
        journal.idempotencyIndex.get? (request.itemKey sha256 sourceId) ≠ none)

/-- What `randomUUID` has not given before. -/
structure Journal.Unused (journal : Journal) (batchId : String) : Prop where
  jobs : ∀ jobId job, journal.getJob jobId = some job → job.batchId ≠ batchId
  index : ∀ key job, journal.idempotencyIndex.get? key = some job → job.batchId ≠ batchId

theorem enqueueBatch_eq_ok {draws : Draws}
    (h : enqueueBatch draws journal sha256 request = .ok (response, after)) :
    enqueueItems draws sha256 request (request.batchId.getD draws.batchId)
        request.sourceIds journal = .ok (response.jobs, response.reusedExisting, after) ∧
      (after.getBatch (request.batchId.getD draws.batchId)).isSome = true := by
  obtain ⟨⟨jobs, reused, last⟩, hitems, h⟩ := Rust.bind_eq_ok_iff.mp h
  obtain ⟨batch, hbatch, h⟩ := Rust.bind_eq_ok_iff.mp h
  cases h
  refine ⟨hitems, ?_⟩
  unfold requireBatch at hbatch
  split at hbatch
  · cases hbatch
  · next _ hfound => rw [hfound]; rfl

variable {jobs : List WorkspaceJobSnapshot} {batchId : String}

theorem exists_left {batchId sourceId : String} {sourceIds : List String}
    (h : List.Forall₂ (Left request sha256 batchId journal after) sourceIds jobs)
    (hsource : sourceId ∈ sourceIds) :
    ∃ job, Left request sha256 batchId journal after sourceId job := by
  induction h with
  | nil => cases hsource
  | @cons _ job _ _ hleft _ ih =>
    rcases mem_cons.mp hsource with rfl | hsource
    · exact ⟨job, hleft⟩
    · exact ih hsource

/-- A call that leaves the journal as it is finds jobs with the scopes it asks
for. -/
theorem itemScope_of_repeats {batchId sourceId : String} {job : WorkspaceJobSnapshot}
    (h : Repeats second sha256 request response after)
    (hbatchId : request.batchId.getD second.batchId = batchId)
    (hsource : sourceId ∈ request.sourceIds)
    (hjob : after.idempotencyIndex.get? (request.itemKey sha256 sourceId) = some job) :
    job.toWorkspaceJobScope = request.itemScope sha256 batchId sourceId := by
  obtain ⟨again, hagain, _⟩ := h
  obtain ⟨hitems, _⟩ := enqueueBatch_eq_ok hagain
  obtain ⟨hleft, _⟩ := enqueueItems_eq_ok hitems
  obtain ⟨job', _, hindexed, hscope⟩ := exists_left hleft hsource
  rw [hjob] at hindexed
  cases hindexed
  rw [hjob, if_neg (by simp), hbatchId] at hscope
  exact hscope

theorem not_repeats_of_unnamed (hfirst : journal.Unused first.batchId)
    (hsecond : after.Unused second.batchId)
    (h : enqueueBatch first journal sha256 request = .ok (response, after))
    (hnone : request.batchId = none) : ¬ Repeats second sha256 request response after := by
  intro hrepeats
  obtain ⟨hitems, hbatch⟩ := enqueueBatch_eq_ok h
  obtain ⟨hleft, _⟩ := enqueueItems_eq_ok hitems
  cases hsources : request.sourceIds with
  | nil =>
    have hafter : journal = after := by
      rw [hsources] at hitems
      simp only [enqueueItems, Except.ok.injEq, Prod.mk.injEq] at hitems
      exact hitems.2.2
    rw [hnone, ← hafter] at hbatch
    obtain ⟨jobId, job, hjob, hbatchId⟩ := isSome_getBatch_iff.mp hbatch
    exact hfirst.jobs jobId job hjob hbatchId
  | cons sourceId =>
    have hsource : sourceId ∈ request.sourceIds := by
      rw [hsources]
      exact mem_cons_self
    obtain ⟨job, _, hindexed, _⟩ := exists_left hleft hsource
    have hscope := itemScope_of_repeats hrepeats rfl hsource hindexed
    rw [hnone] at hscope
    exact hsecond.index _ _ hindexed (congrArg WorkspaceJobScope.batchId hscope)

theorem repeats_of_scopes
    (hbatchId : request.batchId = some batchId) (hbatch : (after.getBatch batchId).isSome = true)
    (hjobs : jobs.map (fun job => job.jobId) = response.jobs.map (fun job => job.jobId))
    (hscopes : List.Forall₂ (fun sourceId job => sourceId ∈ request.sourceIds ∧
        after.idempotencyIndex.get? (request.itemKey sha256 sourceId) = some job ∧
        job.toWorkspaceJobScope = request.itemScope sha256 batchId sourceId)
      request.sourceIds jobs) :
    Repeats second sha256 request response after := by
  obtain ⟨batch, hfound⟩ := isSome_iff_exists.mp hbatch
  have hrequire : after.requireBatch batchId = .ok batch := by
    simp only [requireBatch, hfound]
  refine ⟨⟨batch, jobs, true⟩, ?_, hjobs, rfl⟩
  simp only [enqueueBatch, hbatchId, getD_some, enqueueItems_of_existing hscopes]
  show (after.requireBatch batchId >>= _) = _
  rw [hrequire]
  rfl

/-- Right after the first call the second one repeats it exactly under the
condition. -/
theorem repeats_iff (hfirst : journal.Unused first.batchId) (hsecond : after.Unused second.batchId)
    (h : enqueueBatch first journal sha256 request = .ok (response, after)) :
    Repeats second sha256 request response after ↔
      RepeatsWhen sha256 request journal := by
  obtain ⟨hitems, hbatch⟩ := enqueueBatch_eq_ok h
  obtain ⟨hleft, _, _⟩ := enqueueItems_eq_ok hitems
  constructor
  · intro hrepeats
    cases hbatchId : request.batchId with
    | none => exact absurd hrepeats (not_repeats_of_unnamed hfirst hsecond h hbatchId)
    | some batchId =>
      refine ⟨batchId, hbatchId, ?_⟩
      by_cases hknown : ∀ sourceId ∈ request.sourceIds,
          journal.idempotencyIndex.get? (request.itemKey sha256 sourceId) ≠ none
      · exact Or.inr hknown
      · push Not at hknown
        obtain ⟨sourceId, hsource, hnone⟩ := hknown
        obtain ⟨job, _, hindexed, hscope⟩ := exists_left hleft hsource
        have hasked := itemScope_of_repeats hrepeats rfl hsource hindexed
        rw [hnone, if_pos rfl] at hscope
        rw [hbatchId] at hscope hasked
        exact Or.inl (kept_of_sanitize_eq (hscope.symm.trans hasked))
  · rintro ⟨batchId, hbatchId, hwhen⟩
    rw [hbatchId, getD_some] at hbatch hleft
    refine repeats_of_scopes hbatchId hbatch rfl (hleft.imp ?_)
    rintro sourceId job ⟨hsource, hindexed, hscope⟩
    refine ⟨hsource, hindexed, ?_⟩
    obtain hkept | hknown := hwhen
    · rw [hkept.itemScope_eq hsource, ite_self] at hscope
      exact hscope
    · rw [if_neg (hknown sourceId hsource)] at hscope
      exact hscope

theorem scopes_later {later : Journal} {sourceIds : List String} (hkept : request.Kept batchId) (hfiled : after.Filed)
    (hlater : after.Later later)
    (hleft : List.Forall₂ (Left request sha256 batchId journal after) sourceIds jobs) :
    ∃ nexts : List WorkspaceJobSnapshot,
      nexts.map (fun job => job.jobId) = jobs.map (fun job => job.jobId) ∧
      List.Forall₂ (fun sourceId job => sourceId ∈ request.sourceIds ∧
          later.idempotencyIndex.get? (request.itemKey sha256 sourceId) = some job ∧
          job.toWorkspaceJobScope = request.itemScope sha256 batchId sourceId)
        sourceIds nexts := by
  induction hleft with
  | nil => exact ⟨[], rfl, .nil⟩
  | @cons sourceId job _ _ hjob _ ih =>
    obtain ⟨nexts, hids, hnexts⟩ := ih
    obtain ⟨hsource, hindexed, hscope⟩ := hjob
    rw [hkept.itemScope_eq hsource, ite_self] at hscope
    have hdigest : IsDigest (request.itemKey sha256 sourceId) := isDigest_itemKey sourceId
    have hholds : after.Holds (request.itemScope sha256 batchId sourceId) job :=
      ⟨(hfiled.current _ _ hindexed hdigest).1, hindexed, hscope⟩
    obtain ⟨next, hnext, hid⟩ := holds_later hdigest
      (hkept.itemScope_eq hsource) hfiled hholds hlater
    refine ⟨next :: nexts, ?_, .cons ⟨hsource, hnext.indexed, hnext.scope_eq⟩ hnexts⟩
    rw [map_cons, map_cons, hid, hids]

/-- The second call of an equal request, right after the first, is answered with
the jobs of the first exactly when the request names its batch and the journal
keeps its texts as they are or had the derived keys before; and if the journal
keeps them, a further call is answered so at any later time. -/
theorem batch_enqueue_repeats_iff (hfirst : journal.Unused first.batchId)
    (hsecond : after.Unused second.batchId)
    (h : enqueueBatch first journal sha256 request = .ok (response, after)) :
    (Repeats second sha256 request response after ↔ RepeatsWhen sha256 request journal) ∧
      (journal.Reachable → ∀ batchId, request.batchId = some batchId → request.Kept batchId →
          ∀ later, after.Later later →
            ∀ draws, Repeats draws sha256 request response later) := by
  refine ⟨repeats_iff hfirst hsecond h, ?_⟩
  intro hreachable batchId hbatchId hkept later hlater draws
  obtain ⟨hitems, hbatch⟩ := enqueueBatch_eq_ok h
  obtain ⟨hleft, hafter, _⟩ := enqueueItems_eq_ok hitems
  rw [hbatchId, getD_some] at hbatch hleft
  have hfiled := filed_of_reachable (hreachable.trans hafter)
  obtain ⟨nexts, hids, hscopes⟩ := scopes_later hkept hfiled hlater hleft
  exact repeats_of_scopes hbatchId (batch_later hkept.1 hbatch hlater) hids hscopes

theorem unused_iff :
    journal.Unused batchId ↔ ∀ job ∈ journal.jobs.values ++ journal.idempotencyIndex.values,
        job.batchId ≠ batchId := by
  constructor
  · intro h job hmem
    rcases mem_append.mp hmem with hjob | hjob
    · obtain ⟨jobId, hjobId⟩ := (InsertionMap.mem_values_iff ..).mp hjob
      exact h.jobs jobId job hjobId
    · obtain ⟨key, hkey⟩ := (InsertionMap.mem_values_iff ..).mp hjob
      exact h.index key job hkey
  · intro h
    constructor
    · intro jobId job hjob
      have hmem := (InsertionMap.mem_values_iff ..).mpr ⟨jobId, hjob⟩
      exact h job (mem_append_left _ hmem)
    · intro key job hjob
      have hmem := (InsertionMap.mem_values_iff ..).mpr ⟨key, hjob⟩
      exact h job (mem_append_right _ hmem)

instance (journal : Journal) (batchId : String) : Decidable (journal.Unused batchId) :=
  decidable_of_iff _ unused_iff.symm

end Replay

def longestId (journal : Journal) : String :=
  String.ofList (List.replicate ((journal.jobs.keys.map String.length).foldr max 0 + 1) 'j')

theorem le_foldr_max {lengths : List Nat} {n : Nat} (h : n ∈ lengths) :
    n ≤ lengths.foldr max 0 := by
  induction lengths with
  | nil => cases h
  | cons _ _ ih =>
    rcases mem_cons.mp h with rfl | h
    · exact Nat.le_max_left _ _
    · exact (ih h).trans (Nat.le_max_right _ _)

theorem getJob_longestId (journal : Journal) : journal.getJob (longestId journal) = none := by
  cases h : journal.getJob (longestId journal) with
  | none => rfl
  | some job =>
    have hkey : longestId journal ∈ journal.jobs.keys := (InsertionMap.mem_keys_iff ..).mpr ⟨job, h⟩
    have hlength : (longestId journal).length ≤ (journal.jobs.keys.map String.length).foldr max 0 :=
      le_foldr_max (List.mem_map.mpr ⟨_, hkey, rfl⟩)
    rw [longestId, String.length_ofList, length_replicate] at hlength
    omega

def drawsOf (batchId : String) : Draws :=
  { batchId := batchId
    jobId := longestId
    eventId := fun _ => "event"
    now := fun _ => "2026-01-01T00:00:00.000Z"
    jobId_fresh := getJob_longestId }

/-- The digests of the items of the requests below. -/
def nightlySha256 : Sha256 :=
  { hex := fun text =>
      if text = "nightly\u0000token=a" then
        "133bdfbe0f4f0d835eadc857fc5ed15550fdc05cd265c993a4ea3937e0cf258d"
      else
        "1d5956e77d3c345cd7d9886d247fa73578df54746ef775a11ef0180e58770c4b"
    hex_digits := by
      intro text
      split_ifs
      · exact forall_mem_of_all (by decide)
      · exact forall_mem_of_all (by decide) }

/-- A request under the key `nightly`. -/
def nightly (batchId : Option String) (sourceIds : List String) : EnqueueWorkspaceBatchRequest :=
  { kind := .sourceSync
    batchId := batchId
    sourceIds := sourceIds
    idempotencyKey := "nightly" }

def secondCall (request : EnqueueWorkspaceBatchRequest) :
    Except String (Except String (EnqueueWorkspaceBatchResponse × Journal)) := do
  let (_, after) ← enqueueBatch (drawsOf "first") empty nightlySha256 request
  .ok (enqueueBatch (drawsOf "second") after nightlySha256 request)

def isRefusedAgain (request : EnqueueWorkspaceBatchRequest) : Bool :=
  match secondCall request with
  | .ok (.error _) => true
  | _ => false

theorem not_repeats_of_isRefusedAgain {request : EnqueueWorkspaceBatchRequest}
    (h : isRefusedAgain request = true) :
    ∃ response after, enqueueBatch (drawsOf "first") empty nightlySha256 request =
        .ok (response, after) ∧
      ¬ Repeats (drawsOf "second") nightlySha256 request response after := by
  unfold isRefusedAgain at h
  split at h
  · next message hsecond =>
    obtain ⟨⟨response, after⟩, hfirst, hagain⟩ := Rust.bind_eq_ok_iff.mp hsecond
    refine ⟨response, after, hfirst, ?_⟩
    rintro ⟨again, hrepeats, _⟩
    have hrefused : enqueueBatch (drawsOf "second") after nightlySha256 request =
        .error message :=
      Except.ok.inj hagain
    rw [hrepeats] at hrefused
    cases hrefused
  · cases h

/-- A request without a batch id is refused the second time; so is one with a
source id that the journal redacts. -/
theorem batches_are_refused_again :
    (∃ response after, enqueueBatch (drawsOf "first") empty nightlySha256
        (nightly none ["main"]) = .ok (response, after) ∧
      ¬ Repeats (drawsOf "second") nightlySha256 (nightly none ["main"]) response after) ∧
    ∃ response after, enqueueBatch (drawsOf "first") empty nightlySha256
        (nightly (some "b") ["token=a"]) = .ok (response, after) ∧
      ¬ Repeats (drawsOf "second") nightlySha256 (nightly (some "b") ["token=a"])
        response after := by
  constructor
  · exact not_repeats_of_isRefusedAgain (by decide +kernel)
  · exact not_repeats_of_isRefusedAgain (by decide +kernel)

/-- The first call is answered and leaves no batch of an id. -/
def leavesUnused (batchId : String) (request : EnqueueWorkspaceBatchRequest) : Bool :=
  match enqueueBatch (drawsOf "first") empty nightlySha256 request with
  | .ok (_, after) => decide (after.Unused batchId)
  | .error _ => false

theorem unused_of_leavesUnused {batchId : String} {request : EnqueueWorkspaceBatchRequest}
    (h : leavesUnused batchId request = true) :
    ∃ response after, enqueueBatch (drawsOf "first") empty nightlySha256 request =
        .ok (response, after) ∧
      after.Unused batchId := by
  unfold leavesUnused at h
  split at h
  · next response after hfirst =>
    exact ⟨response, after, hfirst, of_decide_eq_true h⟩
  · cases h

theorem a_named_batch_repeats :
    ∃ response after, enqueueBatch (drawsOf "first") empty nightlySha256
        (nightly (some "b") ["main"]) = .ok (response, after) ∧
      Repeats (drawsOf "second") nightlySha256 (nightly (some "b") ["main"])
        response after := by
  have hfirst : empty.Unused "first" := by
    decide
  obtain ⟨response, after, hcall, hsecond⟩ :=
    @unused_of_leavesUnused "second" (nightly (some "b") ["main"]) (by decide +kernel)
  have hkept : (nightly (some "b") ["main"]).Kept "b" := by
    refine ⟨by decide +kernel, ?_⟩
    intro sourceId hsource
    rw [mem_singleton.mp hsource]
    decide +kernel
  exact ⟨response, after, hcall,
    (@batch_enqueue_repeats_iff (drawsOf "first") (drawsOf "second") _ _ _ _ _
      hfirst hsecond hcall).1.mpr ⟨"b", rfl, Or.inl hkept⟩⟩

end WorkspaceJobs
end StudioWeb
