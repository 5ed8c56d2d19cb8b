import StudioWeb.Library.ReplayedLog
import StudioWeb.WorkspaceJobs.BatchReplay

/-!
# The workspace job journal after a crash

A start reads the file back by its lines; empty ones are left out here.  A crash leaves
nothing of an append, a part of its line or all of it.
-/

namespace StudioWeb
namespace WorkspaceJobs

open Journal ReplayedLog

def validateEvent (event : WorkspaceJobJournalEvent) : Except String Unit :=
  if event.sequence = 0 then
    .error s!"Invalid workspace job journal sequence: {event.sequence}"
  else if event.job.jobId = "" ∨ event.job.idempotencyKey = "" ∨ event.job.batchId = "" ∨
      event.job.sourceId = "" then
    .error "Workspace job journal record is missing required identifiers"
  else
    .ok ()

/-- A line that is read.  Both checks of its scope throw the same, in either order. -/
def Journal.accept (journal : Journal) (event : WorkspaceJobJournalEvent) :
    Except String Journal := do
  validateEvent event
  if event.sequence = journal.lastSequence + 1 then
    journal.checkScope event.job.toSnapshotInput
    .ok (journal.record event)
  else
    .error s!"Workspace job journal sequence gap at {event.sequence}"

def corruptedJournal (reason : String) : String :=
  s!"Workspace job journal is corrupted before the trailing record: {reason}"

def readPersistedState : List (Except String WorkspaceJobJournalEvent) → Except String Journal :=
  replay corruptedJournal accept empty

/-- An append with the identifiers of a job, whose scope the journal keeps as it is. -/
structure PlainAppend where
  input : SnapshotInput
  eventId : String
  kept : input.toWorkspaceJobScope.sanitize = input.toWorkspaceJobScope
  named : ¬ (input.jobId = "" ∨ input.idempotencyKey = "" ∨ input.batchId = "" ∨
    input.sourceId = "")

/-- The journal in memory after an append, which writes nothing when it is refused. -/
def Journal.appended (journal : Journal) (a : PlainAppend) : Journal :=
  match journal.appendSnapshotSerial a.input a.eventId with
  | .ok (_, after) => after
  | .error _ => journal

section Crash

variable {journal : Journal} (a : PlainAppend) (appends : List PlainAppend)

theorem accept_nextEvent (hcheck : journal.checkScope a.input = .ok ()) :
    journal.accept (journal.nextEvent a.input a.eventId) =
      .ok (journal.record (journal.nextEvent a.input a.eventId)) := by
  have hscope : (journal.nextEvent a.input a.eventId).job.toWorkspaceJobScope =
      a.input.toWorkspaceJobScope := nextEvent_scope.trans a.kept
  have hvalid : validateEvent (journal.nextEvent a.input a.eventId) = .ok () := by
    have hsequence : (journal.nextEvent a.input a.eventId).sequence ≠ 0 := Nat.succ_ne_zero _
    rw [validateEvent, if_neg hsequence, hscope, nextEvent_jobId, if_neg a.named]
  have hsame : journal.checkScope
      (journal.nextEvent a.input a.eventId).job.toSnapshotInput = .ok () := by
    unfold checkScope at hcheck ⊢
    rw [hscope]
    exact hcheck
  unfold accept
  rw [hvalid, hsame]
  exact if_pos rfl

theorem read_append (hreads : readPersistedState (journal.events.map .ok) = .ok journal) :
    readPersistedState ((journal.appended a).events.map .ok) =
      .ok (journal.appended a) := by
  unfold Journal.appended
  cases happend : journal.appendSnapshotSerial a.input a.eventId with
  | error => exact hreads
  | ok written =>
    obtain ⟨_, after⟩ := written
    obtain ⟨_, hcheck, _⟩ := Rust.bind_eq_ok_iff.mp happend
    obtain ⟨_, rfl⟩ := appendSnapshotSerial_eq_ok happend
    simp only [record, List.map_append, List.map_cons, List.map_nil]
    exact replay_whole hreads (accept_nextEvent a hcheck)

theorem read_appends (hreads : readPersistedState (journal.events.map .ok) = .ok journal) :
    readPersistedState ((appends.foldl appended journal).events.map .ok) =
      .ok (appends.foldl appended journal) := by
  induction appends generalizing journal with
  | nil => exact hreads
  | cons a _ ih => exact ih (read_append a hreads)

example : (empty.appended ⟨queuedInput (mainRequest "nightly").scope "a" "t", "1",
    by decide +kernel, by decide⟩).lastSequence = 1 := by
  decide +kernel

end Crash

end WorkspaceJobs
end StudioWeb
