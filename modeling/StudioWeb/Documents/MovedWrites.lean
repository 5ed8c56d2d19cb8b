import StudioWeb.Documents.OwnerMove

/-!
# Writes while an owner is moved
-/

namespace StudioWeb
namespace Documents

open LabelledRuns MoveWorld MoveWorld

section MovedWrites

variable
  {w t : MoveWorld}
  {a : MoveAction}
  {request : Nat}
  {r : OwnerRequest}

/-- Only an owner that is marked has requests there. -/
def MovePc.NeedsMarker : MovePc → Prop
  | .purging => True
  | .acting inModel => inModel = true
  | _ => False

theorem next_needs_no_marker (rest : List DocKind) : ¬ (MovePc.next rest).NeedsMarker := by
  cases rest with
  | nil => exact id
  | cons => exact id

def storedBy (w : MoveWorld) : MoveAction → Option (DocKind × TableRows)
  | .puts request =>
    match w.requests request with
    | some ⟨_, _, .putting kind rows _⟩ => some (kind, rows)
    | _ => none
  | .moveFails request stored =>
    match w.requests request with
    | some ⟨_, _, .putting kind rows _⟩ => some (kind, partOf rows stored)
    | _ => none
  | _ => none

/-- What a step can do. -/
inductive OwnerChange (w : MoveWorld) (a : MoveAction) : MoveWorld → Prop
  | goes
      (request : Nat)
      (r : OwnerRequest)
      (pc : MovePc)
      (hpc : pc.NeedsMarker → ∃ process, w.moved process = true) :
      OwnerChange w a (w.goto request r pc)
  | ends
      (request : Nat) :
      OwnerChange w a (w.finish request)
  | learns
      (request : Nat)
      (r : OwnerRequest)
      (hmarked : w.marked = true) :
      OwnerChange w a (w.entersModel request r)
  | stores
      (request : Nat)
      (r : OwnerRequest)
      (kind : DocKind)
      (rows : TableRows)
      (pc : MovePc)
      (hstored : storedBy w a = some (kind, rows))
      (hpc : ¬ pc.NeedsMarker) :
      OwnerChange w a ((w.stores kind rows).goto request r pc)
  | marks
      (request process : Nat)
      (doc : DocRequest)
      (haction : a = .marks request)
      (hrequest : w.requests request = some ⟨process, doc, .marking⟩) :
      OwnerChange w a ({ w with marked := true }.goto request ⟨process, doc, .marking⟩ .purging)
  | purges
      (request tables : Nat)
      (r : OwnerRequest)
      (hrequest : w.requests request = some r)
      (hpurging : r.pc = .purging) :
      OwnerChange w a (w.purges request tables r)
  | acts
      (request process : Nat)
      (doc : DocRequest)
      (inModel : Bool)
      (haction : a = .acts request)
      (hrequest : w.requests request = some ⟨process, doc, .acting inModel⟩) :
      OwnerChange w a (w.acts request doc inModel)

theorem change_of_request_starts {process : Nat} {doc : DocRequest} {port : Bool}
    (h : w.starts request process doc port = some t) : OwnerChange w a t := by
  unfold MoveWorld.starts at h
  split at h
  · cases h
  · cases h
    refine .goes request _ _ ?_
    cases port with
    | false =>
      intro hneeds
      cases hneeds
    | true =>
      cases hmoved : w.moved process with
      | false =>
        intro hneeds
        simp [MovePc.NeedsMarker] at hneeds
      | true =>
        intro _
        exact ⟨process, hmoved⟩

theorem change_of_moveFails {stored : List String} (hrequest : w.requests request = some r)
    (h : w.moveFails request stored r = some t) : OwnerChange w (.moveFails request stored) t := by
  have hno : ¬ (MovePc.acting false).NeedsMarker := Bool.false_ne_true
  obtain ⟨process, doc, pc⟩ := r
  cases pc with
  | loading =>
    cases h
    exact .goes request _ _ (absurd · hno)
  | putting kind rows =>
    cases h
    refine .stores request _ kind (partOf rows stored) _ ?_ hno
    simp [storedBy, hrequest]
  | marking =>
    cases h
    exact .goes request _ _ (absurd · hno)
  | checking => cases h
  | purging => cases h
  | acting => cases h

theorem change_of_request_fails (h : w.fails request r = some t) : OwnerChange w a t := by
  unfold MoveWorld.fails at h
  split at h
  · cases h
    exact .ends request
  · cases h
    exact .ends request
  · cases h

/-- **Every step is one of the cases.** -/
theorem owner_change_of_step (h : w.step a = some t) : OwnerChange w a t := by
  cases a with
  | starts => exact change_of_request_starts h
  | checks request =>
    simp only [step] at h
    split at h
    · cases h
      unfold MoveWorld.checks
      split
      · next hmarked =>
        exact .learns request _ hmarked
      · exact .goes request _ _ (absurd · (next_needs_no_marker moveOrder))
    · cases h
  | loads request =>
    simp only [step] at h
    split at h
    · cases h
      exact .goes request _ _ False.elim
    · cases h
  | puts request =>
    simp only [step] at h
    split at h
    · next _ _ kind rows rest hrequest =>
      cases h
      refine .stores request _ kind rows _ ?_ (next_needs_no_marker rest)
      simp [storedBy, hrequest]
    · cases h
  | marks request =>
    simp only [step] at h
    split at h
    · next process doc hrequest =>
      cases h
      exact .marks request process doc rfl hrequest
    · cases h
  | purges request tables =>
    simp only [step] at h
    split at h
    · next _ _ hrequest =>
      cases h
      exact .purges request tables _ hrequest rfl
    · cases h
  | acts request =>
    simp only [step] at h
    split at h
    · next process doc inModel hrequest =>
      cases h
      exact .acts request process doc inModel rfl hrequest
    · cases h
  | moveFails =>
    obtain ⟨r, hrequest, h⟩ := Option.bind_eq_some_iff.mp h
    exact change_of_moveFails hrequest h
  | fails =>
    obtain ⟨r, _, h⟩ := Option.bind_eq_some_iff.mp h
    exact change_of_request_fails h

structure KnowsMarker (w : MoveWorld) : Prop where
  moved : ∀ process, w.moved process = true → w.marked = true
  requests :
    ∀ request r, w.requests request = some r → r.pc.NeedsMarker → w.marked = true

/-- The rows are where the marker says, as the writes left them. -/
structure Kept (w : MoveWorld) : Prop where
  inTables : w.marked = false → w.tables = w.written
  inModel : w.marked = true → w.model = w.written

def ReadsWritten (w : MoveWorld) (a : MoveAction) (_ : MoveWorld) : Prop :=
  ∀ request kind rows, a = .acts request → w.answer request = some (kind, rows) →
    rows = w.written kind

/-- No step of a move races with a write: the tables are written, and an older copy put
into the model, only before the marker; and the marker is written when the model holds
the rows of the tables. -/
structure Unraced (w : MoveWorld) (a : MoveAction) : Prop where
  acts :
    ∀ request process doc, a = .acts request →
      w.requests request = some ⟨process, doc, .acting false⟩ →
      w.marked = true →
      ∃ kind, doc = .list kind ∧ w.tables kind = w.model kind
  stores :
    ∀ kind rows, storedBy w a = some (kind, rows) → w.marked = true →
      ∀ id row, rows id = some row → w.model kind id = some row
  marks :
    ∀ request process doc, a = .marks request → w.requests request = some ⟨process, doc, .marking⟩ →
      w.marked = false →
      w.model = w.tables

/-- Before any of the rows was touched. -/
structure Unmoved (w : MoveWorld) : Prop where
  tables : w.tables = w.written
  marked : w.marked = false
  moved : ∀ process, w.moved process = false
  requests : ∀ request, w.requests request = none

namespace KnowsMarker

theorem goto {pc : MovePc} (h : KnowsMarker w) (hpc : pc.NeedsMarker → w.marked = true) :
    KnowsMarker (w.goto request r pc) := by
  constructor
  · exact h.moved
  · intro other d hd hneeds
    rcases requests_goto hd with ⟨_, rfl⟩ | hd
    · exact hpc hneeds
    · exact h.requests other d hd hneeds

theorem finish (h : KnowsMarker w) : KnowsMarker (w.finish request) := by
  constructor
  · exact h.moved
  · intro other d hd hneeds
    exact h.requests other d (requests_finish hd) hneeds

theorem of_marked (h : w.marked = true) : KnowsMarker w := ⟨fun _ _ => h, fun _ _ _ _ => h⟩

/-- **Step**: every change keeps it. -/
theorem preserved (h : KnowsMarker w) (hchange : OwnerChange w a t) : KnowsMarker t := by
  cases hchange with
  | goes _ _ _ hpc =>
    refine h.goto ?_
    intro hneeds
    obtain ⟨process, hmoved⟩ := hpc hneeds
    exact h.moved process hmoved
  | ends => exact h.finish
  | learns _ _ hmarked => exact of_marked hmarked
  | stores _ _ kind rows _ _ hpc =>
    have hstores : KnowsMarker (w.stores kind rows) := ⟨h.moved, h.requests⟩
    exact hstores.goto (absurd · hpc)
  | marks => exact of_marked rfl
  | purges request _ r hrequest hpurging =>
    have hneeds : r.pc.NeedsMarker := by
      rw [hpurging]
      trivial
    exact of_marked (h.requests request r hrequest hneeds)
  | acts request =>
    have hfinish := @finish w request h
    exact ⟨hfinish.moved, hfinish.requests⟩

end KnowsMarker

/-- **Step**: the own read or write of a request keeps the rows where they are. -/
theorem Kept.acts {process : Nat} {doc : DocRequest} {inModel : Bool} (h : Kept w)
    (hknows : KnowsMarker w) (hrequest : w.requests request = some ⟨process, doc, .acting inModel⟩)
    (hunraced : Unraced w (.acts request)) : Kept (w.acts request doc inModel) := by
  cases inModel with
  | true =>
    have hmarked : w.marked = true := hknows.requests request _ hrequest rfl
    constructor
    · intro hunmarked
      exact absurd hmarked (Bool.eq_false_iff.mp hunmarked)
    · intro _
      exact congrArg doc.apply (h.inModel hmarked)
  | false =>
    constructor
    · intro hunmarked
      exact congrArg doc.apply (h.inTables hunmarked)
    · intro hmarked
      obtain ⟨kind, rfl, _⟩ := hunraced.acts request process doc rfl hrequest hmarked
      exact h.inModel hmarked

/-- **Step**: every change that does not race keeps the rows. -/
theorem Kept.preserved (h : Kept w) (hknows : KnowsMarker w) (hchange : OwnerChange w a t)
    (hunraced : Unraced w a) : Kept t := by
  cases hchange with
  | goes => exact ⟨h.inTables, h.inModel⟩
  | ends => exact ⟨h.inTables, h.inModel⟩
  | learns => exact ⟨h.inTables, h.inModel⟩
  | stores _ _ kind rows _ hstored =>
    constructor
    · exact h.inTables
    · intro hmarked
      have hpresent := hunraced.stores kind rows hstored hmarked
      have hsame : w.model.overwrite kind rows = w.model := overwrite_of_present hpresent
      exact hsame.trans (h.inModel hmarked)
  | marks request process doc haction hrequest =>
    constructor
    · intro hunmarked
      cases hunmarked
    · intro _
      cases hbefore : w.marked with
      | true => exact h.inModel hbefore
      | false =>
        have hsame := hunraced.marks request process doc haction hrequest hbefore
        exact hsame.trans (h.inTables hbefore)
  | purges request _ r hrequest hpurging =>
    have hneeds : r.pc.NeedsMarker := by
      rw [hpurging]
      trivial
    have hmarked : w.marked = true := hknows.requests request r hrequest hneeds
    constructor
    · intro hunmarked
      exact absurd hmarked (Bool.eq_false_iff.mp hunmarked)
    · exact h.inModel
  | acts _ _ _ _ haction hrequest =>
    subst haction
    exact h.acts hknows hrequest hunraced

theorem Kept.readsWritten (h : Kept w) (hknows : KnowsMarker w) (hunraced : Unraced w a) :
    ReadsWritten w a t := by
  intro request kind rows haction hanswer
  unfold answer at hanswer
  split at hanswer
  · next _ kind hrequest =>
    cases hanswer
    have hmarked : w.marked = true := hknows.requests request _ hrequest rfl
    exact congrFun (h.inModel hmarked) kind
  · next process kind hrequest =>
    cases hanswer
    cases hmarked : w.marked with
    | false => exact congrFun (h.inTables hmarked) kind
    | true =>
      obtain ⟨listed, hlist, hsame⟩ := hunraced.acts request process _ haction hrequest hmarked
      cases hlist
      exact hsame.trans (congrFun (h.inModel hmarked) kind)
  · cases hanswer

theorem Unmoved.knowsMarker (h : Unmoved w) : KnowsMarker w := by
  constructor
  · intro process hmoved
    rw [h.moved process] at hmoved
    cases hmoved
  · intro request r hrequest
    rw [h.requests request] at hrequest
    cases hrequest

theorem Unmoved.kept (h : Unmoved w) : Kept w := by
  constructor
  · intro _
    exact h.tables
  · intro hmarked
    rw [h.marked] at hmarked
    cases hmarked

/-- **Moves that race with no write lose none.** -/
theorem unraced_moves_keep_writes (start : MoveWorld) (actions : List MoveAction)
    (hstart : Unmoved start) (hunraced : EveryStep step (fun w a _ => Unraced w a) start actions) :
    EveryStep step ReadsWritten start actions ∧
      ∀ w, runActions step start actions = some w → Kept w := by
  have hpres : ∀ w a t, KnowsMarker w ∧ Kept w → w.step a = some t → Unraced w a →
        KnowsMarker t ∧ Kept t := by
    intro w a t ⟨hknows, hkept⟩ hstep hunraced
    have hchange := owner_change_of_step hstep
    exact ⟨hknows.preserved hchange, hkept.preserved hknows hchange hunraced⟩
  have hinv := And.intro hstart.knowsMarker hstart.kept
  constructor
  · exact EveryStep.of_invariant hpres
      (fun w a t hinv _ hunraced => hinv.2.readsWritten hinv.1 hunraced) hinv hunraced
  · intro w hrun
    exact (runActions_invariant hpres hinv hunraced hrun).2

section LoneMove

/-- The steps that copy these tables. -/
def copies (request : Nat) : List DocKind → List MoveAction
  | [] => []
  | _ :: rest => .loads request :: .puts request :: copies request rest

/-- A request that moves the rows, and then does what it is for. -/
def loneMove (request process : Nat) (doc : DocRequest) : List MoveAction :=
  [.starts request process doc true, .checks request] ++ copies request moveOrder ++
    [.marks request, .purges request purgeOrder.length, .acts request]

/-- The model holds what the tables hold, up to the tables that are still to be copied. -/
structure Copied (w : MoveWorld) (rest : List DocKind) : Prop where
  unmarked : w.marked = false
  present : ∀ kind id row, w.model kind id = some row → w.tables kind id = some row
  done : ∀ kind, kind ∉ rest → w.model kind = w.tables kind

theorem unraced_of_unmarked (hmarked : w.marked = false) (haction : ∀ request, a ≠ .marks request) :
    Unraced w a := by
  constructor
  · intro request process doc _ _ h
    rw [hmarked] at h
    cases h
  · intro kind rows _ h
    rw [hmarked] at h
    cases h
  · intro request process doc h
    exact absurd h (haction request)

theorem Copied.next {kind : DocKind} {rest : List DocKind} {pc : MovePc}
    (h : Copied w (kind :: rest)) :
    Copied ((w.stores kind (w.tables kind)).goto request r pc) rest := by
  have hover : ∀ id, w.model.overwrite kind (w.tables kind) kind id = w.tables kind id := by
    intro id
    cases hrow : w.tables kind id with
    | some => simp [OwnerRows.overwrite, hrow]
    | none =>
      cases hold : w.model kind id with
      | none => simp [OwnerRows.overwrite, hrow, hold]
      | some row =>
        have hpresent := h.present kind id row hold
        rw [hrow] at hpresent
        cases hpresent
  have hother : ∀ k, k ≠ kind → w.model.overwrite kind (w.tables kind) k = w.model k := by
    intro k hk
    funext id
    simp [OwnerRows.overwrite, hk]
  constructor
  · exact h.unmarked
  · intro k id row hrow
    by_cases hk : k = kind
    · subst hk
      exact (hover id).symm.trans hrow
    · exact h.present k id row ((congrFun (hother k hk) id).symm.trans hrow)
  · intro k hk
    by_cases heq : k = kind
    · subst heq
      exact funext hover
    · have hnot : k ∉ kind :: rest := by
        simp [heq, hk]
      exact (hother k heq).trans (h.done k hnot)

variable {process : Nat} {doc : DocRequest}

/-- **Run**: the tables are copied one after the other. -/
theorem copies_reach :
    ∀ (rest : List DocKind) (w : MoveWorld),
      w.requests request = some ⟨process, doc, MovePc.next rest⟩ →
      Copied w rest →
      ∃ t, runActions step w (copies request rest) = some t ∧
        EveryStep step (fun w a _ => Unraced w a) w (copies request rest) ∧
        t.requests request = some ⟨process, doc, .marking⟩ ∧
        Copied t []
  | [], w, hrequest, hcopied => ⟨w, rfl, trivial, hrequest, hcopied⟩
  | kind :: rest, w, hrequest, hcopied => by
    let loading : OwnerRequest := ⟨process, doc, .loading kind rest⟩
    let putting : OwnerRequest := ⟨process, doc, .putting kind (w.tables kind) rest⟩
    let loaded := w.goto request loading putting.pc
    let stored := (loaded.stores kind (w.tables kind)).goto request putting (MovePc.next rest)
    have hloads : w.step (.loads request) = some loaded := by
      simp only [step, hrequest, MovePc.next]
      rfl
    have hloaded : loaded.requests request = some putting := by
      simp [loaded, MoveWorld.goto, loading, putting]
    have hputs : loaded.step (.puts request) = some stored := by
      simp only [step, hloaded]
      rfl
    have hstored : stored.requests request = some ⟨process, doc, MovePc.next rest⟩ := by
      simp [stored, MoveWorld.goto, putting]
    have hbetween : Copied loaded (kind :: rest) :=
      ⟨hcopied.unmarked, hcopied.present, hcopied.done⟩
    obtain ⟨t, hrun, hevery, hmarking, hdone⟩ := copies_reach rest stored hstored hbetween.next
    refine ⟨t, ?_, ?_, hmarking, hdone⟩
    · exact runActions_cons_iff.mpr ⟨loaded, hloads, runActions_cons_iff.mpr ⟨stored, hputs, hrun⟩⟩
    · refine (everyStep_cons_iff hloads).mpr ⟨?_, (everyStep_cons_iff hputs).mpr ⟨?_, hevery⟩⟩
      · exact unraced_of_unmarked hcopied.unmarked (by simp)
      · exact unraced_of_unmarked hcopied.unmarked (by simp)

theorem begins_move (hmarked : w.marked = false)
    (hfree : w.requests request = none) (hmoved : w.moved process = false) :
    ∃ t, runActions step w [.starts request process doc true, .checks request] = some t ∧
      EveryStep step (fun w a _ => Unraced w a) w
        [.starts request process doc true, .checks request] ∧
      t.requests request = some ⟨process, doc, MovePc.next moveOrder⟩ ∧
      t.model = w.model ∧ t.tables = w.tables ∧ t.marked = false := by
  let checking : OwnerRequest := ⟨process, doc, .checking⟩
  let started := w.goto request checking .checking
  let moving := started.goto request checking (MovePc.next moveOrder)
  have hstarts : w.step (.starts request process doc true) = some started := by
    simp [step, MoveWorld.starts, hfree, hmoved, started, checking]
  have hstarted : started.requests request = some checking := by
    simp [started, MoveWorld.goto, checking]
  have hchecks : started.step (.checks request) = some moving := by
    have hunmarked : started.marked = false := hmarked
    simp only [step, hstarted, checking, MoveWorld.checks, hunmarked]
    rfl
  refine ⟨moving, ?_, ?_, ?_, rfl, rfl, hmarked⟩
  · exact runActions_cons_iff.mpr ⟨started, hstarts, runActions_cons_iff.mpr ⟨moving, hchecks, rfl⟩⟩
  · refine (everyStep_cons_iff hstarts).mpr ⟨?_, (everyStep_cons_iff hchecks).mpr ⟨?_, trivial⟩⟩
    · exact unraced_of_unmarked hmarked (by simp)
    · exact unraced_of_unmarked hmarked (by simp)
  · simp [moving, MoveWorld.goto, checking]

theorem ends_move
    (hmarking : w.requests request = some ⟨process, doc, .marking⟩) (hcopied : w.model = w.tables) :
    ∃ t, runActions step w
        [.marks request, .purges request purgeOrder.length, .acts request] = some t ∧
      EveryStep step (fun w a _ => Unraced w a) w
        [.marks request, .purges request purgeOrder.length, .acts request] ∧
      ∀ kind, t.tables kind = fun _ => none := by
  let marking : OwnerRequest := ⟨process, doc, .marking⟩
  let purging : OwnerRequest := ⟨process, doc, .purging⟩
  let marked := { w with marked := true }.goto request marking .purging
  let purged := marked.purges request purgeOrder.length purging
  let acted := purged.acts request doc true
  have hmarks : w.step (.marks request) = some marked := by
    simp only [step, hmarking]
    rfl
  have hpurging : marked.requests request = some purging := by
    simp [marked, MoveWorld.goto, marking, purging]
  have hpurges : marked.step (.purges request purgeOrder.length) = some purged := by
    simp only [step, hpurging]
    rfl
  have hacting : purged.requests request = some ⟨process, doc, .acting true⟩ := by
    simp [purged, MoveWorld.purges, entersModel, MoveWorld.goto, purging]
  have hacts : purged.step (.acts request) = some acted := by
    simp only [step, hacting]
    rfl
  refine ⟨acted, ?_, ?_, ?_⟩
  · exact runActions_cons_iff.mpr ⟨marked, hmarks, runActions_cons_iff.mpr ⟨purged, hpurges,
        runActions_cons_iff.mpr ⟨acted, hacts, rfl⟩⟩⟩
  · refine (everyStep_cons_iff hmarks).mpr ⟨?_, (everyStep_cons_iff hpurges).mpr
      ⟨?_, (everyStep_cons_iff hacts).mpr ⟨?_, trivial⟩⟩⟩
    · refine ⟨by simp, by simp [storedBy], ?_⟩
      intro _ _ _ _ _ _
      exact hcopied
    · exact ⟨by simp, by simp [storedBy], by simp⟩
    · refine ⟨?_, by simp [storedBy], by simp⟩
      intro other process doc haction hrequest
      cases haction
      rw [hacting] at hrequest
      cases hrequest
  · intro kind
    have hmem : kind ∈ purgeOrder := by
      cases kind <;> decide
    funext id
    simp [acted, purged, MoveWorld.acts, MoveWorld.purges, OwnerRows.purge, hmem]

/-- **A move that runs alone takes every row**, and no step of it races. -/
theorem lone_move_runs (w : MoveWorld) (request process : Nat) (doc : DocRequest)
    (hmarked : w.marked = false) (hmodel : ∀ kind id, w.model kind id = none)
    (hfree : w.requests request = none) (hmoved : w.moved process = false) :
    ∃ t, runActions step w (loneMove request process doc) = some t ∧
      EveryStep step (fun w a _ => Unraced w a) w (loneMove request process doc) ∧
      ∀ kind, t.tables kind = fun _ => none := by
  obtain ⟨moving, hbegins, hunraced, hnext, hsameModel, _, hunmarked⟩ :=
    @begins_move w request process doc hmarked hfree hmoved
  have hcopied : Copied moving moveOrder := by
    refine ⟨hunmarked, ?_, ?_⟩
    · intro kind id row hrow
      rw [hsameModel, hmodel kind id] at hrow
      cases hrow
    · intro kind hkind
      have hmem : kind ∈ moveOrder := by
        cases kind <;> decide
      exact absurd hmem hkind
  obtain ⟨copied, hcopies, hunracedCopies, hmarking, hdone⟩ :=
    copies_reach moveOrder moving hnext hcopied
  have hsame : copied.model = copied.tables := by
    funext kind
    exact hdone.done kind List.not_mem_nil
  obtain ⟨t, hends, hunracedEnd, hpurged⟩ := ends_move hmarking hsame
  have hfirst := runActions_append_iff.mpr ⟨moving, hbegins, hcopies⟩
  refine ⟨t, ?_, ?_, hpurged⟩
  · exact runActions_append_iff.mpr ⟨copied, hfirst, hends⟩
  · exact (everyStep_append_iff hfirst).mpr
      ⟨(everyStep_append_iff hbegins).mpr ⟨hunraced, hunracedCopies⟩, hunracedEnd⟩

end LoneMove

private def untouched : MoveWorld where
  tables := fun _ _ => none
  model := fun _ _ => none
  marked := false
  moved := fun _ => false
  requests := fun _ => none
  written := fun _ _ => none

private def planDoc : DocRequest :=
  .upsertDoc "d1" ⟨[("title", .str "Plan")], List.nodup_singleton _⟩

/-- A caller without the model writes a document. -/
private def tablesWrite : List MoveAction :=
  [.starts 0 0 planDoc false, .acts 0]

private def lostWrite : List MoveAction :=
  [.starts 0 0 planDoc true, .checks 0, .moveFails 0 [],
    .starts 1 1 (.list .document) true, .checks 1] ++ copies 1 moveOrder ++
    [.marks 1, .acts 0, .purges 1 purgeOrder.length]

private theorem untouched_unmoved : Unmoved untouched :=
  ⟨rfl, rfl, fun _ => rfl, fun _ => rfl⟩

private theorem tablesWrite_unraced :
    EveryStep step (fun w a _ => Unraced w a) untouched tablesWrite := by
  refine (everyStep_cons_iff rfl).mpr ⟨?_, (everyStep_cons_iff rfl).mpr ⟨?_, trivial⟩⟩
  · exact unraced_of_unmarked rfl (by simp)
  · exact unraced_of_unmarked rfl (by simp)

/-- A document is written in the tables, moved and read. -/
theorem unraced_moves_keep_writes_of_lone_move :
    EveryStep step ReadsWritten untouched
        (tablesWrite ++ loneMove 1 1 (.list .document)) ∧
      ∃ w, runActions step untouched
          (tablesWrite ++ loneMove 1 1 (.list .document)) = some w ∧
        Kept w := by
  have hwrite : runActions step untouched tablesWrite = some (reached step untouched tablesWrite) :=
    runActions_reached (by decide)
  obtain ⟨t, hmove, hunraced, _⟩ :=
    lone_move_runs (reached step untouched tablesWrite) 1 1 (.list .document)
      rfl (fun _ _ => rfl) rfl rfl
  have hrun := runActions_append_iff.mpr ⟨_, hwrite, hmove⟩
  obtain ⟨hreads, hkept⟩ :=
    unraced_moves_keep_writes untouched (tablesWrite ++ loneMove 1 1 (.list .document))
      untouched_unmoved ((everyStep_append_iff hwrite).mpr ⟨tablesWrite_unraced, hunraced⟩)
  exact ⟨hreads, t, hrun, hkept t hrun⟩

/-- **A move drops a write**: the document was written with `Ok`, and is nowhere. -/
theorem move_drops_a_write :
    Unmoved untouched ∧
      (runActions step untouched (lostWrite ++ [.acts 1])).isSome = true ∧
      ¬ EveryStep step ReadsWritten untouched (lostWrite ++ [.acts 1]) := by
  refine ⟨untouched_unmoved, by decide, ?_⟩
  intro hevery
  have hlost : runActions step untouched lostWrite = some (reached step untouched lostWrite) :=
    runActions_reached (by decide)
  have hlast := ((everyStep_append_iff hlost).mp hevery).2
  have hreads := (hlast _ rfl).1 1 .document _ rfl rfl
  have hdoc := congrArg (fun rows : TableRows => (rows "d1").isSome) hreads
  revert hdoc
  decide

end MovedWrites

end Documents
end StudioWeb
