import StudioWeb.Documents.ModelTable
import StudioWeb.Library.LabelledRuns

/-!
# Requests that move an owner's rows into the model

One owner, whose rows are in the tables until they are moved: every table is loaded and
put into the model, a marker is written, and the tables are purged.  A request moves the
rows before it reads or writes them, unless its process has seen the marker; where the
move does not run, it reads and writes the tables.

Every load, put, marker write and purge is a step, and so is the read or the write of a
request.  A put that fails has stored some of its rows, and a purge that fails has emptied
the first of its tables.  Beside them the world keeps what the writes that returned `Ok`
leave.
-/

namespace StudioWeb
namespace Documents

open LabelledRuns Function

inductive DocKind where
  | docType
  | analysis
  | specExtraction
  | specJudgement
  | specDecision
  | specReview
  | specTerm
  | document
  | documentBinding
  | applicationPart
  | deliveryScope
  | deliveryLimit
  | deliveryHistory
deriving DecidableEq

/-- The tables in the order in which they are moved. -/
def moveOrder : List DocKind :=
  [.docType, .analysis, .specExtraction, .specJudgement, .specDecision, .specReview,
    .specTerm, .document, .documentBinding, .applicationPart, .deliveryScope,
    .deliveryLimit, .deliveryHistory]

/-- Dependents come first, so no cascade removes a row before its own table is reached. -/
def purgeOrder : List DocKind :=
  [.analysis, .specExtraction, .specJudgement, .specDecision, .specReview, .specTerm,
    .applicationPart, .deliveryHistory, .deliveryLimit, .deliveryScope,
    .documentBinding, .document, .docType]

abbrev TableRows := String → Option Payload

abbrev OwnerRows := DocKind → TableRows

namespace OwnerRows

/-- A row that exists keeps every column that `update` does not name. -/
def upsert (s : OwnerRows) (kind : DocKind) (update : Option (List String))
    (row : String × Payload) : OwnerRows :=
  let written :=
    match s kind row.1, update with
    | some old, some update => Tables.merge old row.2 update
    | _, _ => row.2
  fun k id => if k = kind ∧ id = row.1 then some written else s k id

/-- A verdict on one of the subjects, which `field` names. -/
def isVerdictOn (s : OwnerRows) (kind : DocKind) (ids : List String) (field : String)
    (verdict : Payload) : Bool :=
  match verdict.get? field with
  | some (.str subject) => ids.contains subject && (s kind subject).isSome
  | _ => false

/-- The verdicts on the rows go with them. -/
def remove (s : OwnerRows) (kind : DocKind) (ids : List String)
    (verdicts : Option String) : OwnerRows :=
  fun k id =>
    if k = kind ∧ id ∈ ids then
      none
    else
      match k, verdicts with
      | .analysis, some field => (s k id).filter fun row => !s.isVerdictOn kind ids field row
      | _, _ => s k id

def overwrite (s : OwnerRows) (kind : DocKind) (rows : TableRows) : OwnerRows :=
  fun k id => if k = kind then (rows id).or (s k id) else s k id

/-- The tables of these kinds emptied. -/
def purge (s : OwnerRows) (kinds : List DocKind) : OwnerRows :=
  fun k id => if k ∈ kinds then none else s k id

end OwnerRows

inductive DocRequest where
  | list (kind : DocKind)
  | put (kind : DocKind) (rows : List (String × Payload)) (update : Option (List String))
  | remove (kind : DocKind) (ids : List String) (verdicts : Option String)

namespace DocRequest

def apply (s : OwnerRows) : DocRequest → OwnerRows
  | .list _ => s
  | .put kind rows update => rows.foldl (fun s row => s.upsert kind update row) s
  | .remove kind ids verdicts => s.remove kind ids verdicts

/-- The columns that a document put again changes. -/
def documentUpdate : List String :=
  ["title", "content", "status", "conforms", "validation", "capabilities",
    "requirements", "inferred_capabilities", "updated_at"]

/-- The columns that a verdict put again changes. -/
def analysisUpdate : List String := ["state", "task_id", "summary", "updated_at"]

def upsertDoc (id : String) (m : Payload) : DocRequest :=
  .put .document [(id, m)] (some documentUpdate)

def upsertAnalysis (id : String) (m : Payload) : DocRequest :=
  .put .analysis [(id, m)] (some analysisUpdate)

def deleteDoc (id : String) : DocRequest := .remove .document [id] (some "document_id")

def deleteBindings (ids : List String) : DocRequest :=
  .remove .documentBinding ids (some "binding_id")

end DocRequest

/-- What a request awaits. -/
inductive MovePc where
  /-- Whether the marker is there. -/
  | checking
  | loading (kind : DocKind) (rest : List DocKind)
  | putting (kind : DocKind) (rows : TableRows) (rest : List DocKind)
  | marking
  | purging
  /-- Its own read or write, in the model or in the tables. -/
  | acting (inModel : Bool)

def MovePc.next : List DocKind → MovePc
  | [] => .marking
  | kind :: rest => .loading kind rest

structure OwnerRequest where
  process : Nat
  request : DocRequest
  pc : MovePc

structure MoveWorld where
  tables : OwnerRows
  model : OwnerRows
  /-- The marker is in the model. -/
  marked : Bool
  /-- The processes that know that the model holds the rows. -/
  moved : Nat → Bool
  requests : Nat → Option OwnerRequest
  /-- What the writes that returned `Ok` leave. -/
  written : OwnerRows

inductive MoveAction where
  | starts (request process : Nat) (doc : DocRequest) (port : Bool)
  | checks (request : Nat)
  | loads (request : Nat)
  | puts (request : Nat)
  | marks (request : Nat)
  | purges (request tables : Nat)
  | acts (request : Nat)
  /-- The move fails, a put of it after the rows `stored`. -/
  | moveFails (request : Nat) (stored : List String)
  | fails (request : Nat)

namespace MoveWorld

/-- A request awaits something else. -/
def goto (w : MoveWorld) (request : Nat) (r : OwnerRequest) (pc : MovePc) : MoveWorld :=
  { w with requests := Function.update w.requests request (some { r with pc := pc }) }

def finish (w : MoveWorld) (request : Nat) : MoveWorld :=
  { w with requests := Function.update w.requests request none }

/-- The process remembers that the model holds the rows. -/
def entersModel (w : MoveWorld) (request : Nat) (r : OwnerRequest) : MoveWorld :=
  { w.goto request r (.acting true) with
    moved := Function.update w.moved r.process true }

def starts (w : MoveWorld) (request process : Nat) (doc : DocRequest)
    (port : Bool) : Option MoveWorld :=
  match w.requests request with
  | some _ => none
  | none =>
    let pc : MovePc :=
      if !port then .acting false
      else if w.moved process then .acting true
      else .checking
    some (w.goto request ⟨process, doc, pc⟩ pc)

def checks (w : MoveWorld) (request : Nat) (r : OwnerRequest) : MoveWorld :=
  if w.marked then
    w.entersModel request r
  else
    w.goto request r (MovePc.next moveOrder)

/-- Put the rows of a table into the model. -/
def stores (w : MoveWorld) (kind : DocKind) (rows : TableRows) : MoveWorld :=
  { w with model := w.model.overwrite kind rows }

/-- `purge_documents`, up to as many of its tables; the answer is the same when it fails. -/
def purges (w : MoveWorld) (request tables : Nat) (r : OwnerRequest) : MoveWorld :=
  { w.entersModel request r with
    tables := w.tables.purge (purgeOrder.take tables) }

/-- The own read or write of a request. -/
def acts (w : MoveWorld) (request : Nat) (doc : DocRequest) (inModel : Bool) : MoveWorld :=
  { w.finish request with
    tables := if inModel then w.tables else doc.apply w.tables
    model := if inModel then doc.apply w.model else w.model
    written := doc.apply w.written }

/-- What a put that fails has stored. -/
def partOf (rows : TableRows) (stored : List String) : TableRows :=
  fun id => if id ∈ stored then rows id else none

/-- The caller whose move failed reads the tables. -/
def moveFails (w : MoveWorld) (request : Nat) (stored : List String)
    (r : OwnerRequest) : Option MoveWorld :=
  match r.pc with
  | .loading _ _ => some (w.goto request r (.acting false))
  | .putting kind rows _ =>
    some ((w.stores kind (partOf rows stored)).goto request r (.acting false))
  | .marking => some (w.goto request r (.acting false))
  | _ => none

/-- The request answers the error. -/
def fails (w : MoveWorld) (request : Nat) (r : OwnerRequest) : Option MoveWorld :=
  match r.pc with
  | .checking => some (w.finish request)
  | .acting _ => some (w.finish request)
  | _ => none

def step (w : MoveWorld) : MoveAction → Option MoveWorld
  | .starts request process doc port => w.starts request process doc port
  | .checks request =>
    match w.requests request with
    | some ⟨process, doc, .checking⟩ =>
      some (w.checks request ⟨process, doc, .checking⟩)
    | _ => none
  | .loads request =>
    match w.requests request with
    | some ⟨process, doc, .loading kind rest⟩ =>
      some (w.goto request ⟨process, doc, .loading kind rest⟩ (.putting kind (w.tables kind) rest))
    | _ => none
  | .puts request =>
    match w.requests request with
    | some ⟨process, doc, .putting kind rows rest⟩ =>
      some ((w.stores kind rows).goto request
        ⟨process, doc, .putting kind rows rest⟩ (MovePc.next rest))
    | _ => none
  | .marks request =>
    match w.requests request with
    | some ⟨process, doc, .marking⟩ =>
      some ({ w with marked := true }.goto request ⟨process, doc, .marking⟩ .purging)
    | _ => none
  | .purges request tables =>
    match w.requests request with
    | some ⟨process, doc, .purging⟩ =>
      some (w.purges request tables ⟨process, doc, .purging⟩)
    | _ => none
  | .acts request =>
    match w.requests request with
    | some ⟨_, doc, .acting inModel⟩ => some (w.acts request doc inModel)
    | _ => none
  | .moveFails request stored => (w.requests request).bind (w.moveFails request stored)
  | .fails request => (w.requests request).bind (w.fails request)

def answer (w : MoveWorld) (request : Nat) : Option (DocKind × TableRows) :=
  match w.requests request with
  | some ⟨_, .list kind, .acting true⟩ => some (kind, w.model kind)
  | some ⟨_, .list kind, .acting false⟩ => some (kind, w.tables kind)
  | _ => none

section Lemmas

variable
  {w : MoveWorld}
  {request other : Nat}
  {r d : OwnerRequest}
  {pc : MovePc}
  {kind : DocKind}
  {rows : TableRows}

theorem requests_goto (h : (w.goto request r pc).requests other = some d) :
    (other = request ∧ d.pc = pc) ∨ w.requests other = some d := by
  by_cases hother : other = request
  · subst hother
    simp only [goto, update_self, Option.some.injEq] at h
    subst h
    exact .inl ⟨rfl, rfl⟩
  · simp only [goto, update_of_ne hother] at h
    exact .inr h

theorem requests_finish (h : (w.finish request).requests other = some d) :
    w.requests other = some d := by
  by_cases hother : other = request
  · subst hother
    simp [finish] at h
  · simpa only [finish, update_of_ne hother] using h

theorem overwrite_of_present {s : OwnerRows}
    (h : ∀ id row, rows id = some row → s kind id = some row) : s.overwrite kind rows = s := by
  funext k id
  by_cases hk : k = kind
  · subst hk
    cases hrow : rows id with
    | none => simp [OwnerRows.overwrite, hrow]
    | some row => simp [OwnerRows.overwrite, hrow, h id row hrow]
  · simp [OwnerRows.overwrite, hk]

end Lemmas

end MoveWorld

end Documents
end StudioWeb
