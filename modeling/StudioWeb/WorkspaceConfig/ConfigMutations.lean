import StudioWeb.Library.LabelledRuns
import StudioWeb.Library.PromiseLine

/-!
# Mutations of one workspace config

`workspace-config-mutation-service.ts`: `create`, which writes the config in place, and the
other mutations, which write a temporary file and rename it; each one a turn of the queue of
`withSerializedPath`, and each file-system call a step of it that may fail.

What the config parser makes of a text, SHA-256, and what an editor makes of a text are
parameters. Nobody else writes in the workspace's directory.
-/

namespace StudioWeb
namespace WorkspaceConfig

open Option Function

section Mutations

/-- The state of a text that `inspectRawToml` answers. -/
inductive ConfigState where
  | valid
  | invalid
  | unsupported
deriving DecidableEq

/-- What a mutation relies on. -/
structure ConfigRules where
  inspect : String → ConfigState
  sha256 : String → String

/-- `WorkspaceConflictCode`, with the code that an editor answers. -/
inductive ConflictCode where
  | invalidRequest
  | revisionMismatch
  | edit (code : String)
deriving DecidableEq

structure Conflict where
  code : ConflictCode
  message : String
  currentRevision : Option String
deriving DecidableEq

/-- An error of the file system, by what the code makes of its `code`. -/
inductive FsError where
  /-- `EEXIST`. -/
  | exists
  /-- `ENOENT`. -/
  | missing
  /-- `EINVAL`, `ENOTSUP` or `EBADF`. -/
  | unsupported
  | other (code : String)
deriving DecidableEq

/-- How a mutation ends. -/
inductive Answer where
  | applied (revision : String)
  | conflict (c : Conflict)
  | throws (e : FsError)
deriving DecidableEq

/-- A request, with what its renderer or its editor makes of a text. -/
inductive Mutation where
  | create (expectedRevision : Option String) (rendered : Except String String)
  | edit (expectedRevision : String) (editor : String → Except (String × String) String)
  | saveRawToml (expectedRevision rawToml : String)

/-- What a mutation can touch of the workspace's directory. -/
structure Disk where
  config : Option String
  legacy : Bool
  temps : String → Option String

namespace Disk

def writeConfig (disk : Disk) (text : String) : Disk :=
  { disk with config := some text }

def writeTemp (disk : Disk) (name text : String) : Disk :=
  { disk with temps := Function.update disk.temps name (some text) }

def unlinkTemp (disk : Disk) (name : String) : Disk :=
  { disk with temps := Function.update disk.temps name none }

end Disk

inductive MutationPc where
  | waiting
  /-- It is its turn, and it loads the config. -/
  | loading
  | creating (raw : String)
  | writing (raw : String)
  | syncing (raw : String)
  | closing (raw : String) (failed : Option FsError)
  | syncingDirectory (raw : String)
  | loadingCreated (raw : String)
  /-- Another writer has created the config. -/
  | loadingLatest
  | statting (current next : String)
  | opening (current next : String)
  | tempWriting (current next : String)
  | tempSyncing (current next : String)
  | tempClosing (current next : String) (failed : Option FsError)
  | rereading (current next : String)
  | renamingTemp (current next : String)
  | syncingRename (next : String)
  /-- The temporary file goes, before the mutation ends. -/
  | unlinking (answer : Answer)
  | leaving (answer : Answer)
  | returned (answer : Answer)

/-- How a file-system call ends; a write that fails leaves some text in the file. -/
inductive FsOutcome where
  | ok
  | error (e : FsError) (left : String)
deriving DecidableEq

variable (rules : ConfigRules)

def invalidRequest (message : String) (current : Option String) : Answer :=
  .conflict ⟨.invalidRequest, message, current⟩

def revisionMismatch (message : String) (current : Option String) : Answer :=
  .conflict ⟨.revisionMismatch, message, current⟩

/-- `create`, up to its first write. -/
def beginCreate (disk : Disk) (expectedRevision : Option String)
    (rendered : Except String String) : MutationPc :=
  if disk.config.isSome || disk.legacy then
    .leaving (invalidRequest "Workspace config already exists." (disk.config.map rules.sha256))
  else if expectedRevision.any fun revision => revision ≠ "missing" then
    .leaving (revisionMismatch
      "Workspace config is missing, but the caller expected an existing revision." none)
  else
    match rendered with
    | .error message => .leaving (invalidRequest message none)
    | .ok raw =>
      if rules.inspect raw = .valid then
        .creating raw
      else
        .leaving (invalidRequest "Rendered workspace config did not validate." none)

/-- What a mutation other than `create` makes of the text. -/
def edited (current : String) : Mutation → Except (ConflictCode × String) String
  | .create _ _ => .error (.invalidRequest, "")
  | .edit _ editor =>
    match editor current with
    | .error (code, message) => .error (.edit code, message)
    | .ok next =>
      if rules.inspect next = .valid then
        .ok next
      else
        .error (.invalidRequest, "Workspace config mutation produced an invalid document.")
  | .saveRawToml _ rawToml =>
    if rules.inspect rawToml = .valid then
      .ok rawToml
    else
      .error (.invalidRequest, "Provided TOML did not validate.")

/-- `mutateExisting`, up to `commit`. -/
def beginExisting (disk : Disk) (expectedRevision : String) (m : Mutation) : MutationPc :=
  match disk.config.filter fun raw => rules.inspect raw = .valid && raw ≠ "" with
  | none =>
    .leaving (invalidRequest "A valid canonical workspace config is required before mutation."
      (disk.config.map rules.sha256))
  | some current =>
    if rules.sha256 current = expectedRevision then
      match edited rules current m with
      | .error (code, message) =>
        .leaving (.conflict ⟨code, message, some (rules.sha256 current)⟩)
      | .ok next => .statting current next
    else
      .leaving (revisionMismatch "Workspace config revision changed before mutation."
        (some (rules.sha256 current)))

/-- What a mutation does once it has loaded the config. -/
def afterLoad (disk : Disk) (m : Mutation) : MutationPc :=
  match m with
  | .create expectedRevision rendered => beginCreate rules disk expectedRevision rendered
  | .edit expectedRevision _ => beginExisting rules disk expectedRevision m
  | .saveRawToml expectedRevision _ => beginExisting rules disk expectedRevision m

/-- The `catch` of `create`. -/
def caughtCreate (e : FsError) : MutationPc :=
  if e = .exists then .loadingLatest else .leaving (.throws e)

/-- One file-system call of a mutation in its turn. -/
def work (disk : Disk) (m : Mutation) (temp : String) : MutationPc → FsOutcome →
    Option (MutationPc × Disk)
  | .loading, .ok => some (afterLoad rules disk m, disk)
  | .loading, .error e _ => some (.leaving (.throws e), disk)
  -- `create`
  | .creating raw, .ok =>
    if disk.config.isSome then none else some (.writing raw, disk.writeConfig "")
  | .creating _, .error e _ =>
    if e = .exists && disk.config.isNone then none else some (caughtCreate e, disk)
  | .writing raw, .ok => some (.syncing raw, disk.writeConfig raw)
  | .writing raw, .error e left => some (.closing raw (some e), disk.writeConfig left)
  | .syncing raw, .ok => some (.closing raw none, disk)
  | .syncing raw, .error e _ => some (.closing raw (some e), disk)
  | .closing raw none, .ok => some (.syncingDirectory raw, disk)
  | .closing _ (some e), .ok => some (caughtCreate e, disk)
  | .closing _ _, .error e _ => some (caughtCreate e, disk)
  | .syncingDirectory raw, .ok => some (.loadingCreated raw, disk)
  | .syncingDirectory raw, .error e _ =>
    if e = .unsupported then
      some (.loadingCreated raw, disk)
    else
      some (caughtCreate e, disk)
  | .loadingCreated raw, .ok => some (.leaving (.applied (rules.sha256 raw)), disk)
  | .loadingCreated _, .error e _ => some (.leaving (.throws e), disk)
  | .loadingLatest, .ok =>
    some (.leaving (revisionMismatch "Workspace config was created by another writer."
      (disk.config.map rules.sha256)), disk)
  | .loadingLatest, .error e _ => some (.leaving (.throws e), disk)
  -- `commit`
  | .statting current next, .ok => some (.opening current next, disk)
  | .statting current next, .error e _ =>
    if e = .missing then some (.opening current next, disk) else some (.leaving (.throws e), disk)
  | .opening current next, .ok =>
    if (disk.temps temp).isSome then
      none
    else
      some (.tempWriting current next, disk.writeTemp temp "")
  | .opening _ _, .error e _ => some (.leaving (.throws e), disk)
  | .tempWriting current next, .ok => some (.tempSyncing current next, disk.writeTemp temp next)
  | .tempWriting current next, .error e left =>
    some (.tempClosing current next (some e), disk.writeTemp temp left)
  | .tempSyncing current next, .ok => some (.tempClosing current next none, disk)
  | .tempSyncing current next, .error e _ => some (.tempClosing current next (some e), disk)
  | .tempClosing current next none, .ok => some (.rereading current next, disk)
  | .tempClosing _ _ (some e), .ok => some (.unlinking (.throws e), disk)
  | .tempClosing _ _ _, .error e _ => some (.unlinking (.throws e), disk)
  | .rereading current next, .ok =>
    if disk.config = some current then
      some (.renamingTemp current next, disk)
    else
      some (.unlinking (revisionMismatch
        "Workspace config changed while the mutation was in flight."
        (disk.config.map rules.sha256)), disk)
  | .rereading _ _, .error e _ => some (.unlinking (.throws e), disk)
  | .renamingTemp _ next, .ok =>
    (disk.temps temp).map fun text =>
      (.syncingRename next, (disk.unlinkTemp temp).writeConfig text)
  | .renamingTemp _ _, .error e _ => some (.unlinking (.throws e), disk)
  | .syncingRename next, .ok => some (.leaving (.applied (rules.sha256 next)), disk)
  | .syncingRename next, .error e _ =>
    if e = .unsupported then
      some (.leaving (.applied (rules.sha256 next)), disk)
    else
      some (.leaving (.throws e), disk)
  | .unlinking answer, .ok => some (.leaving answer, disk.unlinkTemp temp)
  | .unlinking answer, .error e _ =>
    if e = .missing then
      if (disk.temps temp).isSome then none else some (.leaving answer, disk)
    else
      some (.leaving (.throws e), disk)
  | .waiting, _ => none
  | .leaving _, _ => none
  | .returned _, _ => none

end Mutations

section Turns

def Makes (rules : ConfigRules) (m : Mutation) (disk : Disk) (text : String) : Prop :=
  match m with
  | .create _ rendered => disk.config = none ∧ rendered = .ok text
  | .edit _ _ => ∃ current, disk.config = some current ∧ edited rules current m = .ok text
  | .saveRawToml _ _ => ∃ current, disk.config = some current ∧ edited rules current m = .ok text

/-- Only a temporary file is more than there was. -/
def OnlyTemp (temp : String) (began disk : Disk) : Prop :=
  began.temps temp = none ∧ ∃ text, disk = began.writeTemp temp text

def TempHolds (temp : String) (began disk : Disk) (current next : String) : Prop :=
  began.temps temp = none ∧ disk = began.writeTemp temp next ∧ began.config = some current

def Answer.isRefusal : Answer → Bool
  | .applied _ => false
  | _ => true

/-- What is on the disk by where a mutation is in its turn; in a strict turn no call has
failed that leaves a file as it is. -/
def Halfway (rules : ConfigRules) (strict : Prop) (m : Mutation) (temp : String)
    (began disk : Disk) : MutationPc → Prop
  | .waiting => False
  | .loading => disk = began
  | .creating raw => disk = began ∧ Makes rules m began raw
  | .writing raw => Makes rules m began raw ∧ ∃ text, disk = began.writeConfig text
  | .syncing raw => Makes rules m began raw ∧ disk = began.writeConfig raw
  | .closing raw none => Makes rules m began raw ∧ disk = began.writeConfig raw
  | .closing _ (some _) => ¬ strict
  | .syncingDirectory raw => Makes rules m began raw ∧ disk = began.writeConfig raw
  | .loadingCreated raw => Makes rules m began raw ∧ disk = began.writeConfig raw
  | .loadingLatest => strict → disk = began
  | .statting current next =>
    disk = began ∧ began.config = some current ∧ Makes rules m began next
  | .opening current next =>
    disk = began ∧ began.config = some current ∧ Makes rules m began next
  | .tempWriting current next =>
    OnlyTemp temp began disk ∧ began.config = some current ∧ Makes rules m began next
  | .tempSyncing current next =>
    TempHolds temp began disk current next ∧ Makes rules m began next
  | .tempClosing current next none =>
    TempHolds temp began disk current next ∧ Makes rules m began next
  | .tempClosing _ _ (some _) => OnlyTemp temp began disk
  | .rereading current next =>
    TempHolds temp began disk current next ∧ Makes rules m began next
  | .renamingTemp current next =>
    TempHolds temp began disk current next ∧ Makes rules m began next
  | .syncingRename next => Makes rules m began next ∧ disk = began.writeConfig next
  | .unlinking answer => answer.isRefusal = true ∧ OnlyTemp temp began disk
  | .leaving (.applied revision) =>
    ∃ text, Makes rules m began text ∧ revision = rules.sha256 text ∧ disk = began.writeConfig text
  | .leaving (.conflict _) => strict → disk = began
  | .leaving (.throws _) => strict → disk = began
  | .returned _ => False

/-- A call that fails leaves no file that was not there, nor another text: none fails after
the config was created, no directory that can be synced fails to be after the rename of
another text, and the temporary file goes. -/
def leavesFiles (began : Disk) : MutationPc → FsOutcome → Bool
  | _, .ok => true
  | .writing _, .error _ _ => false
  | .syncing _, .error _ _ => false
  | .closing _ _, .error _ _ => false
  | .syncingDirectory _, .error e _ => e = .unsupported
  | .loadingCreated _, .error _ _ => false
  | .syncingRename next, .error e _ => e = .unsupported || began.config = some next
  | .unlinking _, .error e _ => e = .missing
  | _, .error _ _ => true

variable {rules : ConfigRules} {strict : Prop} {m : Mutation} {temp : String}
variable {began disk disk' : Disk} {pc pc' : MutationPc} {outcome : FsOutcome}
variable {current next : String}

@[simp] theorem Disk.writeConfig_writeConfig (disk : Disk) (first second : String) :
    (disk.writeConfig first).writeConfig second = disk.writeConfig second :=
  rfl

@[simp] theorem Disk.temps_writeTemp_self (disk : Disk) (name text : String) :
    (disk.writeTemp name text).temps name = some text :=
  update_self ..

@[simp] theorem Disk.writeTemp_writeTemp (disk : Disk) (name first second : String) :
    (disk.writeTemp name first).writeTemp name second = disk.writeTemp name second := by
  unfold writeTemp
  rw [update_idem]

theorem OnlyTemp.unlink (h : OnlyTemp temp began disk) : disk.unlinkTemp temp = began := by
  obtain ⟨hnone, text, rfl⟩ := h
  unfold Disk.unlinkTemp Disk.writeTemp
  rw [update_idem, ← hnone, update_eq_self]

theorem TempHolds.onlyTemp (h : TempHolds temp began disk current next) :
    OnlyTemp temp began disk :=
  ⟨h.1, next, h.2.1⟩

theorem Disk.writeConfig_self (h : began.config = some next) : began.writeConfig next = began := by
  unfold writeConfig
  rw [← h]

theorem halfway_refused {answer : Answer} (hrefusal : answer.isRefusal = true)
    (h : strict → disk = began) : Halfway rules strict m temp began disk (.leaving answer) := by
  cases answer with
  | applied => cases hrefusal
  | conflict => exact h
  | throws => exact h

theorem halfway_caughtCreate {e : FsError} (h : strict → disk = began) :
    Halfway rules strict m temp began disk (caughtCreate e) := by
  unfold caughtCreate
  split
  · exact h
  · exact h

theorem halfway_beginExisting {expectedRevision : String}
    (hmakes : ∀ current next, began.config = some current →
      edited rules current m = .ok next → Makes rules m began next) :
    Halfway rules strict m temp began began (beginExisting rules began expectedRevision m) := by
  unfold beginExisting
  split
  · exact fun _ => rfl
  · next current hcurrent =>
    have hconfig : began.config = some current := (filter_eq_some_iff.mp hcurrent).1
    split
    · split
      · exact fun _ => rfl
      · next next hnext => exact ⟨rfl, hconfig, hmakes current next hconfig hnext⟩
    · exact fun _ => rfl

theorem halfway_afterLoad : Halfway rules strict m temp began began (afterLoad rules began m) := by
  cases m with
  | create =>
    unfold afterLoad beginCreate
    dsimp only
    split
    · exact fun _ => rfl
    · next hmissing =>
      split
      · exact fun _ => rfl
      · split
        · exact fun _ => rfl
        · next _ _ =>
          split
          · have hnone : began.config = none := by
              cases hconfig : began.config with
              | none => rfl
              | some =>
                rw [hconfig] at hmissing
                exact absurd rfl hmissing
            exact ⟨rfl, hnone, rfl⟩
          · exact fun _ => rfl
  | edit =>
    exact halfway_beginExisting fun current next hconfig hnext => ⟨current, hconfig, hnext⟩
  | saveRawToml =>
    exact halfway_beginExisting fun current next hconfig hnext => ⟨current, hconfig, hnext⟩

/-- A call of a mutation that is not at its end leaves what is to be there then. -/
theorem halfway_work (h : Halfway rules strict m temp began disk pc)
    (hleaves : strict → leavesFiles began pc outcome = true)
    (hwork : work rules disk m temp pc outcome = some (pc', disk')) :
    Halfway rules strict m temp began disk' pc' := by
  cases pc with
  | waiting => cases outcome <;> cases hwork
  | loading =>
    subst h
    cases outcome with
    | ok =>
      cases hwork
      exact halfway_afterLoad
    | error =>
      cases hwork
      exact fun _ => rfl
  | creating =>
    obtain ⟨rfl, hmakes⟩ := h
    cases outcome with
    | ok =>
      simp only [work] at hwork
      split at hwork
      · cases hwork
      · cases hwork
        exact ⟨hmakes, "", rfl⟩
    | error =>
      simp only [work] at hwork
      split at hwork
      · cases hwork
      · cases hwork
        exact halfway_caughtCreate fun _ => rfl
  | writing =>
    obtain ⟨hmakes, text, rfl⟩ := h
    cases outcome with
    | ok =>
      cases hwork
      exact ⟨hmakes, Disk.writeConfig_writeConfig ..⟩
    | error =>
      cases hwork
      exact fun hs => absurd (hleaves hs) Bool.false_ne_true
  | syncing =>
    cases outcome with
    | ok =>
      cases hwork
      exact h
    | error =>
      cases hwork
      exact fun hs => absurd (hleaves hs) Bool.false_ne_true
  | closing _ failed =>
    cases outcome with
    | ok =>
      cases failed with
      | none =>
        cases hwork
        exact h
      | some =>
        cases hwork
        exact halfway_caughtCreate fun hs => absurd hs h
    | error =>
      cases failed with
      | none =>
        cases hwork
        exact halfway_caughtCreate fun hs => absurd (hleaves hs) Bool.false_ne_true
      | some =>
        cases hwork
        exact halfway_caughtCreate fun hs => absurd hs h
  | syncingDirectory =>
    cases outcome with
    | ok =>
      cases hwork
      exact h
    | error =>
      simp only [work] at hwork
      split at hwork
      · cases hwork
        exact h
      · next he =>
        cases hwork
        exact halfway_caughtCreate fun hs => absurd (of_decide_eq_true (hleaves hs)) he
  | loadingCreated raw =>
    cases outcome with
    | ok =>
      cases hwork
      exact ⟨raw, h.1, rfl, h.2⟩
    | error =>
      cases hwork
      exact fun hs => absurd (hleaves hs) Bool.false_ne_true
  | loadingLatest =>
    cases outcome with
    | ok =>
      cases hwork
      exact h
    | error =>
      cases hwork
      exact h
  | statting =>
    cases outcome with
    | ok =>
      cases hwork
      exact h
    | error =>
      simp only [work] at hwork
      split at hwork
      · cases hwork
        exact h
      · cases hwork
        exact fun _ => h.1
  | opening _ next =>
    obtain ⟨rfl, hconfig, hmakes⟩ := h
    cases outcome with
    | ok =>
      simp only [work] at hwork
      split at hwork
      · cases hwork
      · next hfree =>
        cases hwork
        exact ⟨⟨not_isSome_iff_eq_none.mp hfree, "", rfl⟩, hconfig, hmakes⟩
    | error =>
      cases hwork
      exact fun _ => rfl
  | tempWriting =>
    obtain ⟨⟨hnone, text, rfl⟩, hconfig, hmakes⟩ := h
    cases outcome with
    | ok =>
      cases hwork
      exact ⟨⟨hnone, Disk.writeTemp_writeTemp .., hconfig⟩, hmakes⟩
    | error _ left =>
      cases hwork
      exact ⟨hnone, left, Disk.writeTemp_writeTemp ..⟩
  | tempSyncing =>
    cases outcome with
    | ok =>
      cases hwork
      exact h
    | error =>
      cases hwork
      exact h.1.onlyTemp
  | tempClosing _ _ failed =>
    cases outcome with
    | ok =>
      cases failed with
      | none =>
        cases hwork
        exact h
      | some =>
        cases hwork
        exact ⟨rfl, h⟩
    | error =>
      cases failed with
      | none =>
        cases hwork
        exact ⟨rfl, h.1.onlyTemp⟩
      | some =>
        cases hwork
        exact ⟨rfl, h⟩
  | rereading =>
    cases outcome with
    | ok =>
      simp only [work] at hwork
      split at hwork
      · cases hwork
        exact h
      · cases hwork
        exact ⟨rfl, h.1.onlyTemp⟩
    | error =>
      cases hwork
      exact ⟨rfl, h.1.onlyTemp⟩
  | renamingTemp _ next =>
    cases outcome with
    | ok =>
      obtain ⟨text, htext, hpair⟩ := map_eq_some_iff.mp hwork
      cases hpair
      obtain ⟨hholds, hmakes⟩ := h
      have hback := hholds.onlyTemp.unlink
      obtain ⟨_, rfl, _⟩ := hholds
      rw [Disk.temps_writeTemp_self] at htext
      have hnext : next = text := some.inj htext
      refine ⟨hmakes, ?_⟩
      rw [hback, hnext]
    | error =>
      cases hwork
      exact ⟨rfl, h.1.onlyTemp⟩
  | syncingRename next =>
    obtain ⟨hmakes, rfl⟩ := h
    cases outcome with
    | ok =>
      cases hwork
      exact ⟨next, hmakes, rfl, rfl⟩
    | error =>
      simp only [work] at hwork
      split at hwork
      · cases hwork
        exact ⟨next, hmakes, rfl, rfl⟩
      · next he =>
        cases hwork
        intro hs
        have hsame := hleaves hs
        simp only [leavesFiles, he, decide_false, Bool.false_or,
          decide_eq_true_eq] at hsame
        exact Disk.writeConfig_self hsame
  | unlinking =>
    obtain ⟨hrefusal, htemp⟩ := h
    cases outcome with
    | ok =>
      cases hwork
      exact halfway_refused hrefusal fun _ => htemp.unlink
    | error =>
      simp only [work] at hwork
      split at hwork
      · split at hwork
        · cases hwork
        · next hgone =>
          obtain ⟨_, text, rfl⟩ := htemp
          rw [Disk.temps_writeTemp_self] at hgone
          exact absurd rfl hgone
      · next he =>
        cases hwork
        exact fun hs => absurd (of_decide_eq_true (hleaves hs)) he
  | leaving => cases outcome <;> cases hwork
  | returned => cases outcome <;> cases hwork

end Turns

end WorkspaceConfig
end StudioWeb
