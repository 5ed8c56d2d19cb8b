import StudioWeb.MarkdownEditor.EditorModel

/-!
# What a save can replace

A version stands for one content of the file, and everything that carries a version carries the
content it was given for.  So a write with a version replaces the content of that version; which
content this is, is decided when the version is handed over.
-/

namespace StudioWeb
namespace MarkdownEditor

open List Option

def Call.shown (call : Call) : Option Text := call.pending.bind Pending.shown

/-- A text that a write may replace: one that was shown as pending, and for a save the baseline
it began with. -/
def Expected (call : Call) (baseline text : Text) : Prop :=
  call.shown = some text ∨ call.kind = .save ∧ text = baseline

instance (call : Call) (baseline text : Text) : Decidable (Expected call baseline text) :=
  inferInstanceAs (Decidable (_ ∨ _ ∧ _))

/-- A write that replaced nothing unseen. -/
def Overwrite.Seen (o : Overwrite) : Prop := ∀ text ∈ o.replaced, Expected o.call o.baseline text

instance (o : Overwrite) : Decidable o.Seen :=
  inferInstanceAs (Decidable (∀ _ ∈ _, _))

/-- What is asked of a write at the file: the version that it was handed came with a text it may
replace; without a version, such a text is there or none. -/
def WritePhase.Meets (expected : Text → Prop) (file : Option Content) : WritePhase → Prop
  | .handed (some known) => expected known.content.text
  | .handed none => ∀ content ∈ file, expected content.text
  | _ => True

instance (expected : Text → Prop) [DecidablePred expected] (file : Option Content) :
    (phase : WritePhase) → Decidable (phase.Meets expected file)
  | .handed (some known) => inferInstanceAs (Decidable (expected known.content.text))
  | .handed none => inferInstanceAs (Decidable (∀ content ∈ file, expected content.text))
  | .claiming => isTrue trivial
  | .reached _ => isTrue trivial
  | .answered _ => isTrue trivial

def Event.isReach : Event → Bool
  | .reach _ => true
  | _ => false

/-- What is asked of a step: that the write meets the condition that reaches the file. -/
def Meets (s : State) (event : Event) : Prop :=
  event.isReach = true → ∀ w ∈ s.running, w.phase.Meets (Expected w.call w.baseline) s.file

instance (s : State) (event : Event) : Decidable (Meets s event) :=
  inferInstanceAs (Decidable (_ → ∀ w ∈ s.running, w.phase.Meets (Expected _ _) _))

def MeetsAll (p : Shared) (s : State) : List Event → Prop
  | [] => True
  | event :: events => Meets s event ∧ ∀ s' ∈ step p s event, MeetsAll p s' events

instance decidableMeetsAll (p : Shared) :
    (s : State) → (events : List Event) → Decidable (MeetsAll p s events)
  | _, [] => isTrue trivial
  | s, event :: events =>
    have : ∀ s', Decidable (MeetsAll p s' events) :=
      fun s' => decidableMeetsAll p s' events
    inferInstanceAs (Decidable (Meets s event ∧ ∀ s' ∈ step p s event, MeetsAll p s' events))

section Mentioned

def ReadPhase.content : ReadPhase → Option Content
  | .taken read => read
  | .answered read => read
  | _ => none

def WritePhase.content : WritePhase → Option Content
  | .handed version => version.map (·.content)
  | .reached written => written
  | _ => none

def Editor.version (e : Editor) : Option Known :=
  e.pending.bind (fun pending => pending.change.version)

/-- The contents that a state carries. -/
inductive Mentions (s : State) (c : Content) : Prop where
  | file : s.file = some c → Mentions s c
  | known (known : Known) : s.known = some known → known.content = c → Mentions s c
  | read (read : Read) : read ∈ s.reads → read.phase.content = some c → Mentions s c
  | pending (known : Known) : s.editor.version = some known → known.content = c → Mentions s c
  | running (w : Write) : s.running = some w → w.phase.content = some c → Mentions s c

/-- A step that adds no content. -/
structure Quiet (s s' : State) : Prop where
  contents : s'.contents = s.contents
  overwrites : s'.overwrites = s.overwrites
  mentions : ∀ c, Mentions s' c → Mentions s c

theorem Quiet.refl (s : State) : Quiet s s := ⟨rfl, rfl, fun _ h => h⟩

theorem Quiet.trans {s s' s'' : State} (h : Quiet s s') (h' : Quiet s' s'') : Quiet s s'' :=
  ⟨h'.contents.trans h.contents, h'.overwrites.trans h.overwrites,
    fun c hc => h.mentions c (h'.mentions c hc)⟩

/-- The pending change is the one that was there, or none. -/
def Keeps (e e' : Editor) : Prop := e'.pending = none ∨ e'.pending = e.pending

theorem Keeps.trans {e e' e'' : Editor} (h : Keeps e e') (h' : Keeps e' e'') : Keeps e e'' := by
  rcases h' with hnone | hsame
  · exact Or.inl hnone
  · unfold Keeps
    rw [hsame]
    exact h

variable {known : Known}

theorem Keeps.version {e e' : Editor} (h : Keeps e e')
    (hversion : e'.version = some known) : e.version = some known := by
  unfold Editor.version at *
  rcases h with hnone | hsame
  · rw [hnone] at hversion
    cases hversion
  · rwa [hsame] at hversion

theorem keeps_reconcile (e : Editor) : Keeps e e.reconcile := by
  unfold Editor.reconcile
  split
  · exact Or.inr rfl
  · split
    · exact Or.inr rfl
    · split
      · exact Or.inl rfl
      · split
        · exact Or.inl rfl
        · exact Or.inr rfl

theorem keeps_updateMarkdown (p : Shared) (e : Editor) (markdown : Text) :
    Keeps e (e.updateMarkdown p markdown) := by
  unfold Editor.updateMarkdown
  simp only
  split
  · exact Or.inr rfl
  · exact keeps_reconcile _

theorem keeps_reload (e : Editor) : Keeps e e.reload := by
  unfold Editor.reload
  split
  · exact Or.inr rfl
  · exact Or.inl rfl

theorem keeps_cleaned (p : Shared) (e : Editor) (request : Nat) (read : Option Content) :
    Keeps e (e.cleaned p request read) := by
  unfold Editor.cleaned
  split
  · split
    · exact Or.inr rfl
    · exact Or.inl rfl
  · exact Or.inr rfl

theorem keeps_clearThis (e : Editor) (conflict : Pending) : Keeps e (e.clearThis conflict) := by
  unfold Editor.clearThis
  split
  · split
    · exact Or.inl rfl
    · exact Or.inr rfl
  · exact Or.inr rfl

theorem keeps_clearAfter (e : Editor) (w : Write) : Keeps e (e.clearAfter w) := by
  unfold Editor.clearAfter
  split
  · split
    · exact Or.inl rfl
    · exact Or.inr rfl
  · split
    · exact keeps_clearThis e _
    · exact Or.inr rfl

theorem keeps_saved (p : Shared) (e : Editor) (w : Write) : Keeps e (e.saved p w) := by
  have hwritten : Keeps e (e.written p w) := Or.inr rfl
  exact hwritten.trans ((keeps_reconcile _).trans (keeps_clearAfter _ w))

theorem setPending_version {e : Editor} {next : Pending}
    (h : (e.setPending next).version = some known) :
    e.version = some known ∨ next.change.version = some known := by
  unfold Editor.setPending at h
  split at h
  · exact Or.inl h
  · split at h
    · cases h
    · exact Or.inr h

/-- What a look at the file leaves pending carries a version that was pending or is the
resource's. -/
theorem synced_version {p : Shared} {e : Editor} {request observed : Nat} {read : Option Content}
    {version : Option Known} (h : (e.synced p request observed read version).version = some known) :
    e.version = some known ∨ version = some known := by
  unfold Editor.synced at h
  simp only at h
  split at h
  · exact Or.inl h
  · split at h
    · cases h
    · split at h
      · cases h
      · have hset := (keeps_reconcile _).version h
        rcases setPending_version hset with hpending | hnext
        · exact Or.inl hpending
        · right
          unfold Shared.changeOf at hnext
          cases read with
          | none => cases hnext
          | some => exact hnext

end Mentioned

section Steps

variable {p : Shared}

variable {s : State} {e : Editor}

/-- A step of the reads and of the editor. -/
theorem quiet_of {reads : List Read}
    (hreads : ∀ read ∈ reads, ∀ c, read.phase.content = some c → Mentions s c)
    (hpending : ∀ known, e.version = some known → Mentions s known.content) :
    Quiet s { s with reads := reads, editor := e } := by
  refine ⟨rfl, rfl, ?_⟩
  intro c hc
  cases hc with
  | file hfile => exact .file hfile
  | known known hknown hcontent => exact .known known hknown hcontent
  | read read hread hcontent => exact hreads read hread c hcontent
  | pending known hversion hcontent => exact hcontent ▸ hpending known hversion
  | running w hrunning hcontent => exact .running w hrunning hcontent

theorem quiet_editor (h : Keeps s.editor e) :
    Quiet s { s with editor := e } :=
  quiet_of (fun read hread _ => .read read hread)
    fun known hversion => .pending known (h.version hversion) rfl

theorem quiet_read {i : Nat} {read : Read} {phase : ReadPhase} (hread : s.reads[i]? = some read)
    (hcontent : ∀ c, phase.content = some c → s.file = some c ∨ read.phase.content = some c) :
    Quiet s { s with reads := s.reads.set i { read with phase := phase } } := by
  refine quiet_of ?_ fun known hversion => .pending known hversion rfl
  intro other hother c hphase
  rcases mem_or_eq_of_mem_set hother with hmem | rfl
  · exact .read other hmem hphase
  · rcases hcontent c hphase with hfile | hown
    · exact .file hfile
    · exact .read read (mem_of_getElem? hread) hown

theorem quiet_asked {purpose : Purpose} (h : e.pending = s.editor.pending) :
    Quiet s { s with
      editor := e
      reads := s.reads ++ [{ purpose := purpose, phase := .asked }] } := by
  refine quiet_of ?_ ?_
  · intro other hother c hphase
    rcases mem_append.mp hother with hmem | hmem
    · exact .read other hmem hphase
    · rw [mem_singleton.mp hmem] at hphase
      cases hphase
  · intro known hversion
    unfold Editor.version at hversion
    rw [h] at hversion
    exact .pending known hversion rfl

theorem quiet_resumed {i : Nat} (h : ∀ known, e.version = some known →
      s.editor.version = some known ∨ s.known = some known) :
    Quiet s { s with reads := s.reads.eraseIdx i, editor := e } := by
  refine quiet_of (fun other hother _ => .read other (mem_of_mem_eraseIdx hother)) ?_
  intro known hversion
  rcases h known hversion with hpending | hknown
  · exact .pending known hpending rfl
  · exact .known known hknown rfl

theorem quiet_running {s s' : State} (hcontents : s'.contents = s.contents)
    (hoverwrites : s'.overwrites = s.overwrites) (hfile : s'.file = s.file)
    (hknown : ∀ known, s'.known = some known → Mentions s known.content)
    (hreads : s'.reads = s.reads) (heditor : Keeps s.editor s'.editor)
    (hrunning : ∀ w c, s'.running = some w → w.phase.content = some c → Mentions s c) :
    Quiet s s' := by
  refine ⟨hcontents, hoverwrites, ?_⟩
  intro c hc
  cases hc with
  | file hfile' => exact .file (hfile ▸ hfile')
  | known known hknown' hcontent => exact hcontent ▸ hknown known hknown'
  | read other hother hphase => exact .read other (hreads ▸ hother) hphase
  | pending known hversion hcontent => exact .pending known (heditor.version hversion) hcontent
  | running w hrunning' hcontent => exact hrunning w c hrunning' hcontent

theorem quiet_stopped {s s' : State} (hcontents : s'.contents = s.contents)
    (hoverwrites : s'.overwrites = s.overwrites) (hfile : s'.file = s.file)
    (hknown : ∀ known, s'.known = some known → Mentions s known.content)
    (hreads : s'.reads = s.reads) (heditor : Keeps s.editor s'.editor)
    (hstopped : s'.running = none) : Quiet s s' := by
  refine quiet_running hcontents hoverwrites hfile hknown hreads heditor ?_
  intro w c hw
  rw [hstopped] at hw
  cases hw

theorem quiet_startWrite (s : State) (call : Call) : Quiet s (s.startWrite p call) := by
  have hsettled : Quiet s s.settle :=
    quiet_stopped rfl rfl rfl (fun known hknown => .known known hknown rfl) rfl (Or.inr rfl) rfl
  unfold State.startWrite
  split
  · unfold State.startSave
    split
    · exact hsettled
    · refine quiet_running rfl rfl rfl (fun known hknown => .known known hknown rfl) rfl
        (Or.inr rfl) ?_
      intro w c hw hcontent
      cases hw
      simp only at hcontent
      split at hcontent
      · cases hcontent
      · obtain ⟨known, hknown, rfl⟩ := map_eq_some_iff.mp hcontent
        exact .known known hknown rfl
  · unfold State.startKeep
    split
    · exact hsettled
    · next _ hpending =>
      refine quiet_running rfl rfl rfl (fun known hknown => .known known hknown rfl) rfl
        (Or.inr rfl) ?_
      intro w c hw hcontent
      cases hw
      obtain ⟨known, hknown, rfl⟩ := map_eq_some_iff.mp hcontent
      refine .pending known ?_ rfl
      unfold Editor.version
      rw [hpending]
      exact hknown

theorem quiet_enqueueWrite (s : State) (kind : WriteKind) : Quiet s (s.enqueueWrite p kind) := by
  unfold State.enqueueWrite
  simp only
  split
  · exact quiet_running rfl rfl rfl (fun known hknown => .known known hknown rfl) rfl
      (Or.inr rfl) (fun w c hw hcontent => .running w hw hcontent)
  · exact quiet_startWrite s _

/-- The steps that add a content to the file. -/
def Event.writes : Event → Bool
  | .reach _ => true
  | .othersWrite _ => true
  | _ => false

/-- No other step adds a content or mentions a new one. -/
theorem step_quiet {s s' : State} {event : Event} (h : step p s event = some s')
    (hevent : event.writes = false) : Quiet s s' := by
  have hsame : ∀ known, s.known = some known → Mentions s known.content :=
    fun known hknown => .known known hknown rfl
  have hrunning : ∀ w c, s.running = some w → w.phase.content = some c → Mentions s c :=
    fun w c hw hcontent => .running w hw hcontent
  cases event with
  | edit markdown =>
    cases h
    exact quiet_editor (keeps_updateMarkdown p s.editor markdown)
  | save =>
    cases h
    exact quiet_enqueueWrite s .save
  | keepLocalAndSave =>
    simp only [step] at h
    split at h
    · cases h
      exact Quiet.refl s
    · cases h
      refine (@quiet_enqueueWrite p s .keepLocalAndSave).trans ?_
      exact quiet_running rfl rfl rfl (fun known hknown => .known known hknown rfl) rfl
        (Or.inr rfl) (fun w c hw hcontent => .running w hw hcontent)
  | reloadFromExternalChange =>
    cases h
    exact quiet_editor (keeps_reload s.editor)
  | revert =>
    cases h
    exact quiet_asked rfl
  | watcher =>
    cases h
    exact quiet_asked rfl
  | poll =>
    simp only [step] at h
    split at h
    · cases h
    · obtain ⟨known, _, rfl⟩ := map_eq_some_iff.mp h
      exact quiet_running rfl rfl rfl hsame rfl (Or.inr rfl) hrunning
  | stat =>
    obtain ⟨poll, _, h⟩ := bind_eq_some_iff.mp h
    split at h
    · obtain ⟨content, _, rfl⟩ := map_eq_some_iff.mp h
      exact quiet_running rfl rfl rfl hsame rfl (Or.inr rfl) hrunning
    · cases h
  | polled =>
    obtain ⟨poll, _, h⟩ := bind_eq_some_iff.mp h
    have hdone : Quiet s { s with polling := none } :=
      quiet_running rfl rfl rfl hsame rfl (Or.inr rfl) hrunning
    simp only at h
    split at h
    · split at h
      · cases h
        exact hdone.trans (quiet_asked rfl)
      · cases h
        exact hdone
    · cases h
      exact hdone
  | take =>
    obtain ⟨read, hread, h⟩ := bind_eq_some_iff.mp h
    split at h
    · cases h
      exact quiet_read hread (fun c hc => Or.inl hc)
    · cases h
  | answer =>
    obtain ⟨read, hread, h⟩ := bind_eq_some_iff.mp h
    split at h
    · next content hphase =>
      cases h
      have hown : ∀ c, content = some c → Mentions s c := by
        intro c hc
        refine .read read (mem_of_getElem? hread) ?_
        rw [hphase]
        exact hc
      refine ⟨rfl, rfl, ?_⟩
      intro c hc
      cases hc with
      | file hfile => exact .file hfile
      | known _ hknown hcontent =>
        obtain ⟨c', hc', rfl⟩ := map_eq_some_iff.mp hknown
        exact hcontent ▸ hown c' hc'
      | read other hother hcontent =>
        rcases mem_or_eq_of_mem_set hother with hmem | rfl
        · exact .read other hmem hcontent
        · exact hown c hcontent
      | pending known hversion hcontent => exact .pending known hversion hcontent
      | running w hrunning hcontent => exact .running w hrunning hcontent
    · cases h
  | fail =>
    obtain ⟨read, hread, h⟩ := bind_eq_some_iff.mp h
    split at h
    · cases h
      exact quiet_read hread (fun c hc => by cases hc)
    · cases h
  | resume =>
    obtain ⟨read, _, h⟩ := bind_eq_some_iff.mp h
    split at h
    · cases h
      exact quiet_resumed (fun known hversion => synced_version hversion)
    · cases h
      exact quiet_resumed (fun known hversion => Or.inl ((keeps_cleaned p _ _ _).version hversion))
    · cases h
      exact quiet_resumed (fun known hversion => Or.inl hversion)
    · cases h
  | startNext =>
    simp only [step] at h
    split at h
    · next call waiting _ _ =>
      cases h
      have htaken : Quiet s { s with waiting := waiting } :=
        quiet_running rfl rfl rfl hsame rfl (Or.inr rfl) hrunning
      exact htaken.trans (quiet_startWrite _ call)
    · cases h
  | claimed =>
    obtain ⟨w, _, h⟩ := bind_eq_some_iff.mp h
    split at h
    · cases h
      refine quiet_running rfl rfl rfl hsame rfl (Or.inr rfl) ?_
      intro w' c hw' hcontent
      cases hw'
      obtain ⟨known, hknown, rfl⟩ := map_eq_some_iff.mp hcontent
      exact hsame known hknown
    · cases h
  | reach => cases hevent
  | failWrite =>
    obtain ⟨w, _, h⟩ := bind_eq_some_iff.mp h
    split at h
    · cases h
      refine quiet_running rfl rfl rfl hsame rfl (Or.inr rfl) ?_
      intro w' c hw' hcontent
      cases hw'
      cases hcontent
    · cases h
  | answerWrite =>
    obtain ⟨w, hw, h⟩ := bind_eq_some_iff.mp h
    split at h
    · next content hphase =>
      cases h
      refine quiet_running rfl rfl rfl ?_ rfl (Or.inr rfl) ?_
      · intro known hknown
        cases hknown
        refine hrunning w content hw ?_
        rw [hphase]
        rfl
      · intro w' c hw' hcontent
        cases hw'
        cases hcontent
    · cases h
      refine quiet_running rfl rfl rfl hsame rfl (Or.inr rfl) ?_
      intro w' c hw' hcontent
      cases hw'
      cases hcontent
    · cases h
  | resumeWrite =>
    obtain ⟨w, _, h⟩ := bind_eq_some_iff.mp h
    split at h
    · cases h
      exact quiet_stopped rfl rfl rfl hsame rfl (keeps_saved p s.editor w) rfl
    · cases h
      exact quiet_stopped rfl rfl rfl hsame rfl (Or.inr rfl) rfl
    · cases h
  | dequeue =>
    simp only [step] at h
    split at h
    · cases h
      exact quiet_running rfl rfl rfl hsame rfl (Or.inr rfl) hrunning
    · cases h
  | kept =>
    simp only [step] at h
    split at h
    · cases h
    · cases h
      exact quiet_running rfl rfl rfl hsame rfl (Or.inr rfl) hrunning
  | othersWrite => cases hevent
  | othersDelete =>
    cases h
    refine ⟨rfl, rfl, ?_⟩
    intro c hc
    cases hc with
    | file hfile => cases hfile
    | known known hknown hcontent => exact .known known hknown hcontent
    | read read hread hcontent => exact .read read hread hcontent
    | pending known hversion hcontent => exact .pending known hversion hcontent
    | running w hrunning hcontent => exact .running w hrunning hcontent
  | dispose =>
    cases h
    exact quiet_editor (Or.inr rfl)

end Steps

section Runs

variable {p : Shared}

/-- A version stands for one content, what is carried was in the file, and what was
overwritten was seen. -/
structure Inv (s : State) : Prop where
  unique : ∀ c ∈ s.contents, ∀ c' ∈ s.contents, c.version = c'.version → c = c'
  mentioned : ∀ c, Mentions s c → c ∈ s.contents
  seen : ∀ o ∈ s.overwrites, o.Seen

theorem inv_opened (file : Option Content) : Inv (State.opened file) := by
  constructor
  · intro c hc c' hc' _
    rw [mem_toList.mp hc] at hc'
    exact (some.inj (mem_toList.mp hc'))
  · intro c hc
    cases hc with
    | file hfile => exact mem_toList.mpr hfile
    | known _ hknown => cases hknown
    | read _ hread hcontent =>
      rw [mem_singleton.mp hread] at hcontent
      cases hcontent
    | pending _ hversion => cases hversion
    | running _ hrunning => cases hrunning
  · intro o ho
    cases ho

theorem Inv.of_quiet {s s' : State} (h : Inv s) (hquiet : Quiet s s') : Inv s' := by
  constructor
  · rw [hquiet.contents]
    exact h.unique
  · intro c hc
    rw [hquiet.contents]
    exact h.mentioned c (hquiet.mentions c hc)
  · rw [hquiet.overwrites]
    exact h.seen

theorem unique_cons {contents : List Content} {content : Content}
    (h : ∀ c ∈ contents, ∀ c' ∈ contents, c.version = c'.version → c = c')
    (hfresh : ∀ c ∈ contents, c.version ≠ content.version) :
    ∀ c ∈ content :: contents, ∀ c' ∈ content :: contents,
      c.version = c'.version → c = c' := by
  intro c hc c' hc' hversion
  rcases mem_cons.mp hc with rfl | hin
  · rcases mem_cons.mp hc' with rfl | hin'
    · rfl
    · exact absurd hversion.symm (hfresh c' hin')
  · rcases mem_cons.mp hc' with rfl | hin'
    · exact absurd hversion (hfresh c hin)
    · exact h c hin c' hin' hversion

variable {s : State}

/-- What a write replaces that meets the condition. -/
theorem reach_seen {w : Write} {version : Option Known} {fresh : Version} (h : Inv s)
    (hrunning : s.running = some w) (hphase : w.phase = .handed version)
    (hmeets : Meets s (.reach fresh)) (hallowed : s.allows version = true) :
    Overwrite.Seen
      { call := w.call, baseline := w.baseline, replaced := s.file.map (·.text) } := by
  intro text htext
  obtain ⟨content, hfile, rfl⟩ := map_eq_some_iff.mp htext
  have hexpected := hmeets rfl w hrunning
  rw [hphase] at hexpected
  cases version with
  | none => exact hexpected content hfile
  | some known =>
    -- the version is that of the file, so its content is that of the file
    have hsame : content.version = known.content.version := by
      simpa [State.allows, hfile] using hallowed
    have hcarried : Mentions s known.content := by
      refine .running w hrunning ?_
      rw [hphase]
      rfl
    have hcontent := h.unique content (h.mentioned content (.file hfile)) known.content
      (h.mentioned _ hcarried) hsame
    rw [hcontent]
    exact hexpected

theorem mentioned_written {content : Content} {running : Option Write} {overwrites : List Overwrite}
    (h : ∀ c, Mentions s c → c ∈ s.contents)
    (hrunning : ∀ w c, running = some w → w.phase.content = some c → c ∈ content :: s.contents)
    {c : Content} (hc : Mentions { s with
      file := some content
      contents := content :: s.contents
      running := running
      overwrites := overwrites } c) : c ∈ content :: s.contents := by
  cases hc with
  | file hfile =>
    cases hfile
    exact mem_cons_self
  | known known hknown hcontent => exact mem_cons_of_mem _ (h c (.known known hknown hcontent))
  | read read hread hcontent => exact mem_cons_of_mem _ (h c (.read read hread hcontent))
  | pending known hversion hcontent =>
    exact mem_cons_of_mem _ (h c (.pending known hversion hcontent))
  | running w hw hcontent => exact hrunning w c hw hcontent

theorem inv_reach {w : Write} {version : Option Known} {fresh : Version} (h : Inv s)
    (hrunning : s.running = some w) (hphase : w.phase = .handed version) (hfresh : s.Fresh fresh)
    (hmeets : Meets s (.reach fresh)) : Inv (s.reach w version fresh) := by
  unfold State.reach
  split
  · next hallowed =>
    constructor
    · exact unique_cons h.unique hfresh
    · refine fun c => mentioned_written h.mentioned ?_
      rintro _ c ⟨⟩ ⟨⟩
      exact mem_cons_self
    · intro o ho
      rcases mem_cons.mp ho with rfl | ho
      · exact reach_seen h hrunning hphase hmeets hallowed
      · exact h.seen o ho
  · refine h.of_quiet ?_
    refine quiet_running rfl rfl rfl (fun known hknown => .known known hknown rfl) rfl
      (Or.inr rfl) ?_
    intro w' c hw' hcontent
    cases hw'
    cases hcontent

theorem inv_othersWrite {content : Content} (h : Inv s) (hfresh : s.Fresh content.version) :
    Inv { s with file := some content, contents := content :: s.contents } := by
  constructor
  · exact unique_cons h.unique hfresh
  · exact fun _ => mentioned_written h.mentioned fun w c hrunning hcontent =>
      mem_cons_of_mem _ (h.mentioned c (.running w hrunning hcontent))
  · exact h.seen

theorem inv_step {s s' : State} {event : Event} (h : Inv s) (hstep : step p s event = some s')
    (hmeets : Meets s event) : Inv s' := by
  cases hwrites : event.writes with
  | false => exact h.of_quiet (step_quiet hstep hwrites)
  | true =>
    cases event with
    | reach =>
      obtain ⟨w, hw, hstep⟩ := bind_eq_some_iff.mp hstep
      split at hstep
      · next _ hphase =>
        split at hstep
        · next hfresh =>
          cases hstep
          exact inv_reach h hw hphase hfresh hmeets
        · cases hstep
      · cases hstep
    | othersWrite =>
      simp only [step] at hstep
      split at hstep
      · next hfresh =>
        cases hstep
        exact inv_othersWrite h hfresh
      · cases hstep
    | _ => cases hwrites

theorem inv_run {events : List Event} :
    ∀ {s s' : State}, Inv s → run p s events = some s' → MeetsAll p s events → Inv s' := by
  induction events with
  | nil =>
    intro s s' h hrun _
    cases hrun
    exact h
  | cons _ _ ih =>
    intro s s' h hrun hmeets
    obtain ⟨next, hstep, hrun⟩ := bind_eq_some_iff.mp hrun
    exact ih (inv_step h hstep hmeets.1) hrun (hmeets.2 next hstep)

def plainTexts : Shared where
  canonicalizeMarkdown := id
  preserveUnchangedBlocks := fun _ edited => edited
  claims := true

def contentOf (version : Nat) (text : Text) : Content where
  version := { mtime := version, etag := version }
  text := text

def opening : List Event := [.take 0, .answer 0, .resume 0]

def savingOnce : List Event :=
  opening ++ [.edit "b", .save, .claimed, .reach { mtime := 2, etag := 2 }]

end Runs

end MarkdownEditor
end StudioWeb
