import Mathlib.Data.List.Basic

/-!
# The model of a Markdown editor

`MarkdownEditorModel`: the text being edited, the text of the file it began from, and a change
of the file that was made by others and is shown as pending.  Reads, writes, claims and polls
are waited for; between two waits everything else can happen.

The text beside a version is the text the version was given for: the model never sees it, and
the runs below are judged by it.
-/

namespace StudioWeb
namespace MarkdownEditor

abbrev Text := String

/-- How Markdown is brought into the editor's form, how unchanged blocks keep their spelling,
and whether there is a command service to claim a write with. -/
structure Shared where
  canonicalizeMarkdown : Text → Text
  preserveUnchangedBlocks : Text → Text → Text
  claims : Bool

/-- `FileResourceVersion`. -/
structure Version where
  mtime : Nat
  etag : Nat
deriving DecidableEq

structure Content where
  version : Version
  text : Text
deriving DecidableEq

/-- A version object, with the content it was given for. -/
structure Known where
  object : Nat
  content : Content
deriving DecidableEq

/-- `MarkdownExternalChangeState`. -/
inductive ExternalChange where
  | modified (rawMarkdown markdown : Text) (version : Option Known)
  | deleted
deriving DecidableEq

/-- A pending change, told apart by the request that found it. -/
structure Pending where
  request : Nat
  change : ExternalChange
deriving DecidableEq

/-- `getExternalRawMarkdown`. -/
def ExternalChange.rawMarkdown : ExternalChange → Text
  | .modified rawMarkdown _ _ => rawMarkdown
  | .deleted => ""

/-- `getExternalMarkdown`. -/
def ExternalChange.markdown : ExternalChange → Text
  | .modified _ markdown _ => markdown
  | .deleted => ""

def ExternalChange.version : ExternalChange → Option Known
  | .modified _ _ version => version
  | .deleted => none

def Pending.shown (pending : Pending) : Option Text :=
  match pending.change with
  | .modified rawMarkdown _ _ => some rawMarkdown
  | .deleted => none

section Editors

structure Editor where
  baselineRawMarkdown : Text
  baselineMarkdown : Text
  currentMarkdown : Text
  pending : Option Pending
  userEditGeneration : Nat
  externalReadGeneration : Nat
  activeSaveOperations : Nat
  disposed : Bool
deriving DecidableEq

variable (p : Shared)

def Editor.dirty (e : Editor) : Bool := e.currentMarkdown ≠ e.baselineMarkdown

/-- `clearPendingExternalChange`. -/
def Editor.clearPending (e : Editor) : Editor :=
  { e with pending := none }

/-- `clearPendingExternalChange` of one change. -/
def Editor.clearThis (e : Editor) (conflict : Pending) : Editor :=
  match e.pending with
  | some pending => if pending.request = conflict.request then e.clearPending else e
  | none => e

def Editor.matchesBaseline (e : Editor) : ExternalChange → Bool
  | .modified rawMarkdown _ _ => rawMarkdown = e.baselineRawMarkdown
  | .deleted => false

/-- `canSafelyResolvePendingExternalChange`. -/
def Editor.canSafelyResolve (e : Editor) : ExternalChange → Bool
  | .modified rawMarkdown markdown _ =>
    e.currentMarkdown = markdown ∧ e.currentMarkdown = rawMarkdown
  | .deleted => false

def Editor.applyCleanSnapshot (e : Editor) (rawMarkdown : Text) : Editor :=
  let baseline := p.canonicalizeMarkdown rawMarkdown
  { e with
    baselineRawMarkdown := rawMarkdown
    baselineMarkdown := baseline
    currentMarkdown := baseline
    pending := none }

/-- `reconcilePendingExternalChange`. -/
def Editor.reconcile (e : Editor) : Editor :=
  match e.pending with
  | none => e
  | some pending =>
    if e.activeSaveOperations > 0 then
      e
    else if e.matchesBaseline pending.change then
      e.clearPending
    else if e.canSafelyResolve pending.change then
      { e with
        baselineRawMarkdown := pending.change.rawMarkdown
        baselineMarkdown := pending.change.markdown
        pending := none }
    else
      e

/-- The test of `setPendingExternalChange` for a change that is pending already. -/
def sameChange : ExternalChange → ExternalChange → Bool
  | .modified raw markdown version, .modified raw' markdown' version' =>
    raw = raw' ∧ markdown = markdown' ∧ version.map (·.object) = version'.map (·.object)
  | .deleted, .deleted => true
  | _, _ => false

/-- `setPendingExternalChange`. -/
def Editor.setPending (e : Editor) (next : Pending) : Editor :=
  if e.pending.any (fun pending => sameChange pending.change next.change) then
    e
  else if e.matchesBaseline next.change then
    e.clearPending
  else
    { e with pending := some next }

/-- `updateMarkdown` of a user. -/
def Editor.updateMarkdown (e : Editor) (markdown : Text) : Editor :=
  let next := p.canonicalizeMarkdown markdown
  if next = e.currentMarkdown then
    e
  else
    Editor.reconcile
      { e with
        userEditGeneration := e.userEditGeneration + 1
        currentMarkdown := next }

/-- `reloadFromExternalChange`. -/
def Editor.reload (e : Editor) : Editor :=
  match e.pending with
  | none => e
  | some pending =>
    { e with
      baselineRawMarkdown := pending.change.rawMarkdown
      baselineMarkdown := pending.change.markdown
      currentMarkdown := pending.change.markdown
      pending := none }

/-- What a read says of the file, with the version the resource has now. -/
def Shared.changeOf (p : Shared) (read : Option Content) (version : Option Known) :
    ExternalChange :=
  match read with
  | some content => .modified content.text (p.canonicalizeMarkdown content.text) version
  | none => .deleted

/-- `syncExternalContents` after its read: what was read, or that there is no file, and the
version the resource has now. -/
def Editor.synced (e : Editor) (request observed : Nat) (read : Option Content)
    (version : Option Known) : Editor :=
  let next := p.changeOf read version
  if e.disposed ∨ request ≠ e.externalReadGeneration then
    e
  else if e.matchesBaseline next then
    e.clearPending
  else if read.isSome ∧ e.dirty = false ∧ observed = e.userEditGeneration then
    e.applyCleanSnapshot p next.rawMarkdown
  else
    (e.setPending { request := request, change := next }).reconcile

/-- `init` and `revert` after their read. -/
def Editor.cleaned (e : Editor) (request : Nat) (read : Option Content) : Editor :=
  match read with
  | some content =>
    if e.disposed ∨ request ≠ e.externalReadGeneration then e
    else e.applyCleanSnapshot p content.text
  | none => e

end Editors

section States

/-- What a read is for: a look at what others did, or a text to begin from. -/
inductive Purpose where
  | sync (request observed : Nat)
  | clean (request : Nat)
deriving DecidableEq

/-- How far a read is: the content is taken from the file, the resource has its version, the
reader goes on. -/
inductive ReadPhase where
  | asked
  | taken (read : Option Content)
  | answered (read : Option Content)
  | failed
deriving DecidableEq

structure Read where
  purpose : Purpose
  phase : ReadPhase
deriving DecidableEq

inductive WriteKind where
  | save
  | keepLocalAndSave
deriving DecidableEq

/-- A call of `save` or `keepLocalAndSave`, with what was pending when it was made. -/
structure Call where
  kind : WriteKind
  pending : Option Pending
deriving DecidableEq

/-- How far a write is: claimed, handed to the resource with a version, at the file. -/
inductive WritePhase where
  | claiming
  | handed (version : Option Known)
  | reached (written : Option Content)
  | answered (written : Bool)
deriving DecidableEq

structure Write where
  call : Call
  baseline : Text
  conflict : Option Pending
  savedMarkdown : Text
  savedRaw : Text
  savedGeneration : Nat
  phase : WritePhase
deriving DecidableEq

/-- A write that has reached the file, and the text that was there. -/
structure Overwrite where
  call : Call
  baseline : Text
  replaced : Option Text
deriving DecidableEq

/-- A poll: the version it began with, and the version of the file when it was asked for. -/
structure Poll where
  version : Version
  stat : Option Version
deriving DecidableEq

structure State where
  editor : Editor
  known : Option Known
  objects : Nat
  file : Option Content
  contents : List Content
  reads : List Read
  polling : Option Poll
  running : Option Write
  waiting : List Call
  settled : Nat
  keeping : Bool
  overwrites : List Overwrite

variable (p : Shared)

/-- A model whose resource was made just now: its first read is asked for. -/
def State.opened (file : Option Content) : State where
  editor :=
    { baselineRawMarkdown := ""
      baselineMarkdown := ""
      currentMarkdown := ""
      pending := none
      userEditGeneration := 0
      externalReadGeneration := 1
      activeSaveOperations := 0
      disposed := false }
  known := none
  objects := 0
  file := file
  contents := file.toList
  reads := [{ purpose := .clean 1, phase := .asked }]
  polling := none
  running := none
  waiting := []
  settled := 0
  keeping := false
  overwrites := []

def State.scheduleExternalSync (s : State) : State :=
  let request := s.editor.externalReadGeneration + 1
  { s with
    editor := { s.editor with externalReadGeneration := request }
    reads := s.reads ++
      [{ purpose := .sync request s.editor.userEditGeneration, phase := .asked }] }

/-- `revert`, up to its read. -/
def State.revert (s : State) : State :=
  let request := s.editor.externalReadGeneration + 1
  { s with
    editor := { s.editor with externalReadGeneration := request }
    reads := s.reads ++ [{ purpose := .clean request, phase := .asked }] }

/-- A write that ends: it is counted until its caller goes on. -/
def State.settle (s : State) : State :=
  { s with
    running := none
    settled := s.settled + 1 }

/-- The operation of `save`, up to its first wait. -/
def State.startSave (s : State) (call : Call) : State :=
  if s.editor.pending.isSome ∨ s.editor.dirty = false then
    s.settle
  else
    { s with
      editor :=
        { s.editor with activeSaveOperations := s.editor.activeSaveOperations + 1 }
      running := some
        { call := call
          baseline := s.editor.baselineRawMarkdown
          conflict := none
          savedMarkdown := s.editor.currentMarkdown
          savedRaw :=
            p.preserveUnchangedBlocks s.editor.baselineRawMarkdown s.editor.currentMarkdown
          savedGeneration := s.editor.userEditGeneration
          phase := if p.claims then .claiming else .handed s.known } }

/-- The operation of `keepLocalAndSave`, up to its first wait. -/
def State.startKeep (s : State) (call : Call) : State :=
  match s.editor.pending with
  | none => s.settle
  | some conflict =>
    { s with
      editor :=
        { s.editor with activeSaveOperations := s.editor.activeSaveOperations + 1 }
      running := some
        { call := call
          baseline := s.editor.baselineRawMarkdown
          conflict := some conflict
          savedMarkdown := s.editor.currentMarkdown
          savedRaw := s.editor.currentMarkdown
          savedGeneration := s.editor.userEditGeneration
          phase := .handed conflict.change.version } }

def State.startWrite (s : State) (call : Call) : State :=
  match call.kind with
  | .save => s.startSave p call
  | .keepLocalAndSave => s.startKeep call

def State.saving (s : State) : Bool := s.settled > 0 ∨ s.running.isSome ∨ s.waiting ≠ []

/-- `enqueueWrite`: at once, or behind the writes that are queued. -/
def State.enqueueWrite (s : State) (kind : WriteKind) : State :=
  let call : Call := { kind := kind, pending := s.editor.pending }
  if s.saving then { s with waiting := s.waiting ++ [call] } else s.startWrite p call

/-- With a version, `saveContents` fails unless the file is at that version. -/
def State.allows (s : State) (version : Option Known) : Bool :=
  version.all (fun known => s.file.any (fun content => content.version = known.content.version))

/-- `saveContents` at the file. -/
def State.reach (s : State) (w : Write) (version : Option Known) (fresh : Version) : State :=
  if s.allows version then
    let content : Content := { version := fresh, text := w.savedRaw }
    { s with
      file := some content
      contents := content :: s.contents
      running := some { w with phase := .reached (some content) }
      overwrites :=
        { call := w.call, baseline := w.baseline, replaced := s.file.map (·.text) } ::
          s.overwrites }
  else
    { s with running := some { w with phase := .reached none } }

def Editor.written (p : Shared) (e : Editor) (w : Write) : Editor :=
  let baseline :=
    match w.call.kind with
    | .save => w.savedMarkdown
    | .keepLocalAndSave => p.canonicalizeMarkdown w.savedMarkdown
  { e with
    baselineRawMarkdown := w.savedRaw
    baselineMarkdown := baseline
    currentMarkdown :=
      if w.savedGeneration = e.userEditGeneration then baseline else e.currentMarkdown
    activeSaveOperations := e.activeSaveOperations - 1 }

def Editor.clearAfter (e : Editor) (w : Write) : Editor :=
  match w.call.kind with
  | .save =>
    if e.pending.any (fun pending => e.canSafelyResolve pending.change) then e.clearPending
    else e
  | .keepLocalAndSave =>
    match w.conflict with
    | some conflict => e.clearThis conflict
    | none => e

/-- The end of `save` and of `keepLocalAndSave`, when the resource has written. -/
def Editor.saved (p : Shared) (e : Editor) (w : Write) : Editor :=
  (e.written p w).reconcile.clearAfter w

/-- The end of a write that failed. -/
def Editor.notSaved (e : Editor) : Editor :=
  { e with activeSaveOperations := e.activeSaveOperations - 1 }

/-- What can happen between two waits. -/
inductive Event where
  | edit (markdown : Text)
  | save
  | keepLocalAndSave
  | reloadFromExternalChange
  | revert
  | watcher
  | poll
  | stat
  | polled
  | take (read : Nat)
  | answer (read : Nat)
  | fail (read : Nat)
  | resume (read : Nat)
  | startNext
  | claimed
  | reach (fresh : Version)
  | failWrite
  | answerWrite
  | resumeWrite
  | dequeue
  | kept
  | othersWrite (content : Content)
  | othersDelete
  | dispose
deriving DecidableEq

/-- A version that no content of the file had. -/
def State.Fresh (s : State) (version : Version) : Prop :=
  ∀ content ∈ s.contents, content.version ≠ version

instance (s : State) (version : Version) : Decidable (s.Fresh version) :=
  inferInstanceAs (Decidable (∀ _ ∈ _, _))

def State.withRead (s : State) (i : Nat) (f : Read → Option State) : Option State :=
  s.reads[i]?.bind f

def State.withWrite (s : State) (f : Write → Option State) : Option State := s.running.bind f

def step (s : State) : Event → Option State
  | .edit markdown => some { s with editor := s.editor.updateMarkdown p markdown }
  | .save => some (s.enqueueWrite p .save)
  | .keepLocalAndSave =>
    if s.keeping then some s
    else some { s.enqueueWrite p .keepLocalAndSave with keeping := true }
  | .reloadFromExternalChange => some { s with editor := s.editor.reload }
  | .revert => some s.revert
  | .watcher => some s.scheduleExternalSync
  | .poll =>
    if s.editor.disposed ∨ s.polling.isSome ∨ s.editor.activeSaveOperations > 0 then none
    else s.known.map (fun known =>
      { s with polling := some { version := known.content.version, stat := none } })
  | .stat =>
    s.polling.bind (fun poll =>
      if poll.stat = none then
        s.file.map (fun content =>
          { s with polling := some { poll with stat := some content.version } })
      else none)
  | .polled =>
    s.polling.bind (fun poll =>
      let s' := { s with polling := none }
      match poll.stat with
      | some stat =>
        if s.editor.disposed = false ∧ stat.mtime > poll.version.mtime ∧
            stat.etag ≠ poll.version.etag then
          some s'.scheduleExternalSync
        else some s'
      -- the file is gone or could not be asked for
      | none => some s')
  | .take i => s.withRead i (fun read =>
    if read.phase = .asked then
      some { s with reads := s.reads.set i { read with phase := .taken s.file } }
    else none)
  | .answer i => s.withRead i (fun read =>
    match read.phase with
    | .taken content => some
        { s with
          reads := s.reads.set i { read with phase := .answered content }
          known := content.map (fun c => { object := s.objects, content := c })
          objects := s.objects + 1 }
    | _ => none)
  | .fail i => s.withRead i (fun read =>
    if read.phase = .asked then
      some { s with reads := s.reads.set i { read with phase := .failed } }
    else none)
  | .resume i => s.withRead i (fun read =>
    match read.phase, read.purpose with
    | .answered content, .sync request observed => some
        { s with
          reads := s.reads.eraseIdx i
          editor := s.editor.synced p request observed content s.known }
    | .answered content, .clean request => some
        { s with
          reads := s.reads.eraseIdx i
          editor := s.editor.cleaned p request content }
    | .failed, _ => some { s with reads := s.reads.eraseIdx i }
    | _, _ => none)
  | .startNext =>
    match s.running, s.waiting with
    | none, call :: waiting => some (State.startWrite p { s with waiting := waiting } call)
    | _, _ => none
  | .claimed => s.withWrite (fun w =>
    if w.phase = .claiming then
      some { s with running := some { w with phase := .handed s.known } }
    else none)
  | .reach fresh => s.withWrite (fun w =>
    match w.phase with
    | .handed version => if s.Fresh fresh then some (s.reach w version fresh) else none
    | _ => none)
  | .failWrite => s.withWrite (fun w =>
    match w.phase with
    | .handed _ => some { s with running := some { w with phase := .reached none } }
    | _ => none)
  | .answerWrite => s.withWrite (fun w =>
    match w.phase with
    | .reached (some content) => some
        { s with
          running := some { w with phase := .answered true }
          known := some { object := s.objects, content := content }
          objects := s.objects + 1 }
    | .reached none => some { s with running := some { w with phase := .answered false } }
    | _ => none)
  | .resumeWrite => s.withWrite (fun w =>
    match w.phase with
    | .answered true => some (State.settle { s with editor := s.editor.saved p w })
    | .answered false => some (State.settle { s with editor := s.editor.notSaved })
    | _ => none)
  | .dequeue => if s.settled > 0 then some { s with settled := s.settled - 1 } else none
  | .kept =>
    if s.running.any (fun w => w.call.kind = .keepLocalAndSave) ∨
        s.waiting.any (fun call => call.kind = .keepLocalAndSave) then none
    else some { s with keeping := false }
  | .othersWrite content =>
    if s.Fresh content.version then
      some { s with file := some content, contents := content :: s.contents }
    else none
  | .othersDelete => some { s with file := none }
  | .dispose => some { s with editor := { s.editor with disposed := true } }

/-- A run of the model and of what is around it. -/
def run (s : State) : List Event → Option State
  | [] => some s
  | event :: events => (step p s event).bind (fun s' => run s' events)

end States

end MarkdownEditor
end StudioWeb
