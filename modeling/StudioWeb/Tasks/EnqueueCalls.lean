import StudioWeb.Library.LabelledRuns
import StudioWeb.Tasks.RunStore

/-!
# Concurrent enqueues

The transition system of the `enqueue` calls of any number of callers.  A call is
where its next database statement is: every statement is one step, and any other
caller, a delivery, a cancel or a retry may act between two of them.  A statement
may fail; an attach or an insert may also be carried out and its answer lost.
-/

namespace StudioWeb
namespace Tasks

open Scheduler LabelledRuns List Option

/-- The next statement of a call, or how it ended. -/
inductive Phase where
  | lookingUp
  | lookingForWaiting
  | attaching (waiting : Run)
  | lookingForWinner
  | inserting
  | lookingAfterRefusal
  | answered (run : Run) (joined : Bool)
  | failed

/-- The call has returned. -/
def Phase.isOver : Phase → Bool
  | .answered _ _ | .failed => true
  | _ => false

/-- The run that a call is about to join or has answered with. -/
def Phase.run? : Phase → Option Run
  | .attaching r | .answered r _ => some r
  | _ => none

structure Call where
  request : EnqueueRequest
  phase : Phase

structure World where
  runs : RunStore
  calls : List Call

inductive Action where
  | enqueues (request : EnqueueRequest)
  | looksUp (call : Nat)
  | looksForWaiting (call : Nat) (order : List Uuid)
  | attaches (call : Nat) (heard : Bool)
  | inserts (call : Nat) (fresh : Uuid) (heard : Bool)
  | statementFails (call : Nat)
  | delivers (id : Uuid) (state : RunState)
  | cancels (tenant id : Uuid)
  | retries (tenant id : Uuid)

namespace EnqueueRequest

/-- What follows a lookup of the key that found nothing. -/
def afterLookup (request : EnqueueRequest) : Phase :=
  if request.coalesceQueued then .lookingForWaiting else .inserting

/-- The first statement of a call. -/
def firstPhase (registry : Registry) (request : EnqueueRequest) : Phase :=
  if registry.contains request.trimmedType then
    if request.key.isSome then .lookingUp else request.afterLookup
  else
    .failed

def afterWaiting (request : EnqueueRequest) : Option Run → Phase
  | none => .inserting
  | some existing =>
    match request.key, existing.idempotencyKey with
    | none, _ => .answered existing true
    | some ours, some theirs =>
      if ours = theirs then .answered existing true else .inserting
    | some _, none => .attaching existing

def lookedUp (request : EnqueueRequest) (runs : RunStore) (absent : Phase) : Phase :=
  match request.key.bind (runs.find request.tenant) with
  | some existing => .answered existing false
  | none => absent

end EnqueueRequest

namespace World

def setPhase (w : World) (call : Nat) (phase : Phase) : World :=
  { w with calls := w.calls.modify call fun c => { c with phase := phase } }

/-- A `find_by_idempotency_key`. -/
def looksUp (w : World) (call : Nat) : Option World :=
  match w.calls[call]? with
  | none => none
  | some c =>
    match c.phase with
    | .lookingUp =>
      some (w.setPhase call (c.request.lookedUp w.runs c.request.afterLookup))
    | .lookingForWinner =>
      some (w.setPhase call (c.request.lookedUp w.runs .inserting))
    | .lookingAfterRefusal =>
      some (w.setPhase call (c.request.lookedUp w.runs .failed))
    | _ => none

/-- A `find_waiting`, which answers the rows in some order. -/
def looksForWaiting (w : World) (call : Nat) (order : List Uuid) : Option World :=
  match w.calls[call]? with
  | none => none
  | some c =>
    match c.phase with
    | .lookingForWaiting =>
      if order.Perm (w.runs.rows.map Run.id) then
        some (w.setPhase call
          (c.request.afterWaiting (findWaiting c.request (w.runs.inOrder order))))
      else
        none
    | _ => none

/-- An `attach_key`: a refusal, an error and an update of no row all end in the
lookup of the run that has the key. -/
def attaches (w : World) (call : Nat) (heard : Bool) : Option World :=
  match w.calls[call]? with
  | none => none
  | some c =>
    match c.phase, c.request.key with
    | .attaching waiting, some ours =>
      match w.runs.attachKey c.request.tenant waiting.id ours with
      | none => some (w.setPhase call .lookingForWinner)
      | some (runs, changed) =>
        let phase :=
          if heard ∧ changed = 1 then
            .answered { waiting with idempotencyKey := some ours } true
          else
            .lookingForWinner
        some { w.setPhase call phase with runs := runs }
    | _, _ => none

/-- What follows an insert that is refused or whose answer is lost. -/
def afterRefusal (request : EnqueueRequest) : Phase :=
  if request.key.isSome then .lookingAfterRefusal else .failed

def inserts (w : World) (call : Nat) (fresh : Uuid) (heard : Bool) : Option World :=
  match w.calls[call]? with
  | none => none
  | some c =>
    match c.phase with
    | .inserting =>
      match w.runs.insertRow (c.request.row fresh) with
      | none => some (w.setPhase call (afterRefusal c.request))
      | some runs =>
        let phase :=
          if heard then
            .answered (c.request.row fresh) false
          else
            afterRefusal c.request
        some { w.setPhase call phase with runs := runs }
    | _ => none

/-- A statement that is not carried out. -/
def statementFails (w : World) (call : Nat) : Option World :=
  match w.calls[call]? with
  | none => none
  | some c =>
    match c.phase with
    | .answered _ _ | .failed => none
    | .attaching _ => some (w.setPhase call .lookingForWinner)
    | .inserting => some (w.setPhase call (afterRefusal c.request))
    | _ => some (w.setPhase call .failed)

end World

def step (registry : Registry) (w : World) : Action → Option World
  | .enqueues request =>
    some { w with calls := w.calls ++ [⟨request, request.firstPhase registry⟩] }
  | .looksUp call => w.looksUp call
  | .looksForWaiting call order => w.looksForWaiting call order
  | .attaches call heard => w.attaches call heard
  | .inserts call fresh heard => w.inserts call fresh heard
  | .statementFails call => w.statementFails call
  | .delivers id state => some { w with runs := w.runs.deliver id state }
  | .cancels tenant id => some { w with runs := w.runs.requestCancel tenant id }
  | .retries tenant id => some { w with runs := w.runs.requeue tenant id }

/-- The table before any call. -/
def initially (runs : RunStore) : World := ⟨runs, []⟩

section Changes

/-- What a call may come to know by reading the table: a run that answers its key,
or one that waits for it. -/
inductive Learnt (request : EnqueueRequest) (runs : RunStore) : Phase → Prop where
  | lookingForWaiting : Learnt request runs .lookingForWaiting
  | lookingUp : Learnt request runs .lookingUp
  | lookingForWinner : Learnt request runs .lookingForWinner
  | inserting : Learnt request runs .inserting
  | lookingAfterRefusal : Learnt request runs .lookingAfterRefusal
  | failed : Learnt request runs .failed
  | existing (r : Run) (key : String)
      (hkey : request.key = some key)
      (hmem : r ∈ runs.rows)
      (htenant : r.tenantId = request.tenant)
      (hsame : r.idempotencyKey = some key) :
      Learnt request runs (.answered r false)
  | joined (r : Run)
      (hmem : r ∈ runs.rows)
      (hwaits : WaitsFor request r)
      (hsame : ∀ key, request.key = some key → r.idempotencyKey = some key) :
      Learnt request runs (.answered r true)
  | attaching (r : Run)
      (hmem : r ∈ runs.rows)
      (hwaits : WaitsFor request r) :
      Learnt request runs (.attaching r)

variable {request : EnqueueRequest} {runs : RunStore}

theorem learnt_afterLookup : Learnt request runs request.afterLookup := by
  unfold EnqueueRequest.afterLookup
  split_ifs
  · exact .lookingForWaiting
  · exact .inserting

theorem run?_firstPhase (registry : Registry) : (request.firstPhase registry).run? = none := by
  unfold EnqueueRequest.firstPhase EnqueueRequest.afterLookup
  split_ifs <;> rfl

theorem learnt_afterRefusal : Learnt request runs (World.afterRefusal request) := by
  unfold World.afterRefusal
  split_ifs
  · exact .lookingAfterRefusal
  · exact .failed

theorem learnt_lookedUp {absent : Phase} (habsent : Learnt request runs absent) :
    Learnt request runs (request.lookedUp runs absent) := by
  unfold EnqueueRequest.lookedUp
  split
  · next existing hfind =>
    obtain ⟨key, hkey, hfind⟩ := bind_eq_some_iff.mp hfind
    obtain ⟨hmem, htenant, hsame⟩ := RunStore.find_eq_some hfind
    exact .existing existing key hkey hmem htenant hsame
  · exact habsent

theorem learnt_afterWaiting {found : Option Run}
    (hfound : ∀ r, found = some r → r ∈ runs.rows ∧ WaitsFor request r) :
    Learnt request runs (request.afterWaiting found) := by
  cases found with
  | none => exact .inserting
  | some existing =>
    obtain ⟨hmem, hwaits⟩ := hfound existing rfl
    unfold EnqueueRequest.afterWaiting
    cases hkey : request.key with
    | none =>
      exact .joined existing hmem hwaits (fun key h => by rw [hkey] at h; cases h)
    | some =>
      cases hexisting : existing.idempotencyKey with
      | none =>
        simp only [hexisting]
        exact .attaching existing hmem hwaits
      | some =>
        simp only [hexisting]
        split_ifs with hsame
        · subst hsame
          refine .joined existing hmem hwaits ?_
          intro key h
          rw [hkey] at h
          cases h
          exact hexisting
        · exact .inserting

/-- What one step can do. -/
inductive Change (w t : World) : Prop where
  | begins (request : EnqueueRequest) (phase : Phase)
      (hplain : phase.run? = none)
      (heq : t = { w with calls := w.calls ++ [⟨request, phase⟩] })
  | moves (call : Nat) (c : Call) (phase : Phase) (runs : RunStore)
      (hcall : w.calls[call]? = some c)
      (hgoing : c.phase.isOver = false)
      (hlearnt : Learnt c.request w.runs phase)
      (hkeeps : w.runs.Keeps runs)
      (heq : t = { w.setPhase call phase with runs := runs })
  | attached (call : Nat) (c : Call) (waiting r : Run) (ours : String) (runs : RunStore)
      (hcall : w.calls[call]? = some c)
      (hphase : c.phase = .attaching waiting)
      (hkey : c.request.key = some ours)
      (hmem : r ∈ runs.rows)
      (hid : r.id = waiting.id)
      (htenant : r.tenantId = c.request.tenant)
      (hsame : r.idempotencyKey = some ours)
      (hkeeps : w.runs.Keeps runs)
      (heq : t =
        { w.setPhase call (.answered { waiting with idempotencyKey := some ours } true) with
          runs := runs })
  | inserted (call : Nat) (c : Call) (fresh : Uuid) (runs : RunStore)
      (hcall : w.calls[call]? = some c)
      (hmem : c.request.row fresh ∈ runs.rows)
      (hkeeps : w.runs.Keeps runs)
      (heq : t =
        { w.setPhase call (.answered (c.request.row fresh) false) with runs := runs })
  | rows (runs : RunStore)
      (hkeeps : w.runs.Keeps runs)
      (heq : t = { w with runs := runs })

variable {registry : Registry} {w t : World} {call : Nat}

theorem looksUp_change (h : w.looksUp call = some t) : Change w t := by
  unfold World.looksUp at h
  split at h
  · cases h
  · next c hcall =>
    split at h
    · next hphase =>
      exact .moves call c _ w.runs hcall (by rw [hphase]; rfl)
        (learnt_lookedUp learnt_afterLookup) (.refl _) (some.inj h).symm
    · next hphase =>
      exact .moves call c _ w.runs hcall (by rw [hphase]; rfl)
        (learnt_lookedUp .inserting) (.refl _) (some.inj h).symm
    · next hphase =>
      exact .moves call c _ w.runs hcall (by rw [hphase]; rfl)
        (learnt_lookedUp .failed) (.refl _) (some.inj h).symm
    · cases h

theorem looksForWaiting_change {order : List Uuid} (h : w.looksForWaiting call order = some t) :
    Change w t := by
  unfold World.looksForWaiting at h
  split at h
  · cases h
  · next c hcall =>
    split at h
    · next hphase =>
      split_ifs at h
      refine .moves call c _ w.runs hcall (by rw [hphase]; rfl)
        (learnt_afterWaiting ?_) (.refl _) (some.inj h).symm
      intro r hr
      obtain ⟨hmem, hwaits⟩ := findWaiting_eq_some hr
      exact ⟨RunStore.mem_of_mem_inOrder hmem, hwaits⟩
    · cases h

theorem attaches_change {heard : Bool} (h : w.attaches call heard = some t) : Change w t := by
  unfold World.attaches at h
  split at h
  · cases h
  · next c hcall =>
    split at h
    · next waiting ours hphase hkey =>
      have hgoing : c.phase.isOver = false := by rw [hphase]; rfl
      cases hattach : w.runs.attachKey c.request.tenant waiting.id ours with
      | none =>
        rw [hattach] at h
        exact .moves call c _ w.runs hcall hgoing .lookingForWinner (.refl _) (some.inj h).symm
      | some result =>
        obtain ⟨runs, changed⟩ := result
        rw [hattach] at h
        dsimp only at h
        have hkeeps := RunStore.keeps_attachKey hattach
        by_cases hdone : heard ∧ changed = 1
        · rw [if_pos hdone] at h
          rcases RunStore.attachKey_eq_some hattach with
            ⟨hzero, _⟩ | ⟨_, hrows, r, hr, hat⟩
          · rw [hzero] at hdone
            cases hdone.2
          · have hmem : { r with idempotencyKey := some ours } ∈ runs.rows := by
              rw [hrows]
              exact List.mem_map.mpr ⟨r, hr, if_pos hat⟩
            exact .attached call c waiting _ ours runs hcall hphase hkey hmem
              hat.2.1 hat.1 rfl hkeeps (some.inj h).symm
        · rw [if_neg hdone] at h
          exact .moves call c _ runs hcall hgoing .lookingForWinner hkeeps (some.inj h).symm
    · cases h

theorem inserts_change {fresh : Uuid} {heard : Bool} (h : w.inserts call fresh heard = some t) :
    Change w t := by
  unfold World.inserts at h
  split at h
  · cases h
  · next c hcall =>
    split at h
    · next hphase =>
      have hgoing : c.phase.isOver = false := by rw [hphase]; rfl
      cases hinsert : w.runs.insertRow (c.request.row fresh) with
      | none =>
        rw [hinsert] at h
        exact .moves call c _ w.runs hcall hgoing learnt_afterRefusal (.refl _) (some.inj h).symm
      | some runs =>
        rw [hinsert] at h
        dsimp only at h
        have hkeeps := RunStore.keeps_insertRow hinsert
        by_cases hheard : heard = true
        · rw [if_pos hheard] at h
          have hmem : c.request.row fresh ∈ runs.rows := by
            rw [RunStore.insertRow_eq_some hinsert]
            exact mem_append_right _ (mem_singleton_self _)
          exact .inserted call c fresh runs hcall hmem hkeeps (some.inj h).symm
        · rw [if_neg hheard] at h
          exact .moves call c _ runs hcall hgoing learnt_afterRefusal hkeeps (some.inj h).symm
    · cases h

theorem statementFails_change (h : w.statementFails call = some t) : Change w t := by
  unfold World.statementFails at h
  split at h
  · cases h
  · next c hcall =>
    split at h
    · cases h
    · cases h
    · next hphase =>
      exact .moves call c _ w.runs hcall (by rw [hphase]; rfl) .lookingForWinner
        (.refl _) (some.inj h).symm
    · next hphase =>
      exact .moves call c _ w.runs hcall (by rw [hphase]; rfl) learnt_afterRefusal
        (.refl _) (some.inj h).symm
    · next _ _ _ _ =>
      refine .moves call c _ w.runs hcall ?_ .failed (.refl _) (some.inj h).symm
      cases hphase : c.phase <;> first | rfl | exact absurd hphase (by simp_all)

theorem step_change {a : Action} (h : step registry w a = some t) : Change w t := by
  cases a with
  | enqueues request =>
    exact .begins request _ (run?_firstPhase registry) (some.inj h).symm
  | looksUp => exact looksUp_change h
  | looksForWaiting => exact looksForWaiting_change h
  | attaches => exact attaches_change h
  | inserts => exact inserts_change h
  | statementFails => exact statementFails_change h
  | delivers =>
    exact .rows _ (RunStore.keeps_touch _) (some.inj h).symm
  | cancels =>
    exact .rows _ (RunStore.keeps_touch _) (some.inj h).symm
  | retries =>
    exact .rows _ (RunStore.keeps_touch _) (some.inj h).symm

theorem step_keeps {a : Action} (h : step registry w a = some t) : w.runs.Keeps t.runs := by
  cases step_change h with
  | begins _ _ _ heq =>
    rw [heq]
    exact .refl _
  | moves _ _ _ _ _ _ _ hkeeps heq =>
    rw [heq]
    exact hkeeps
  | attached _ _ _ _ _ _ _ _ _ _ _ _ _ hkeeps heq =>
    rw [heq]
    exact hkeeps
  | inserted _ _ _ _ _ _ hkeeps heq =>
    rw [heq]
    exact hkeeps
  | rows _ hkeeps heq =>
    rw [heq]
    exact hkeeps

end Changes

section Answers

variable {registry : Registry} {w t : World}

theorem calls_setPhase (call : Nat) (phase : Phase) (i : Nat) :
    (w.setPhase call phase).calls[i]? =
      (w.calls[i]?).map (fun c => if i = call then { c with phase := phase } else c) := by
  unfold World.setPhase
  rw [getElem?_modify]
  by_cases hi : i = call
  · simp [hi]
  · have hne : call ≠ i := fun h => hi h.symm
    simp [hi, hne]

theorem calls_setPhase_cases {call i : Nat} {phase : Phase} {c d : Call}
    (hcall : w.calls[call]? = some c) (h : (w.setPhase call phase).calls[i]? = some d) :
    (i = call ∧ d = { c with phase := phase }) ∨ (i ≠ call ∧ w.calls[i]? = some d) := by
  rw [calls_setPhase] at h
  by_cases hi : i = call
  · subst hi
    rw [hcall] at h
    simp only [map_some, if_true, some.injEq] at h
    exact Or.inl ⟨rfl, h.symm⟩
  · simp only [if_neg hi, Option.map_id'] at h
    exact Or.inr ⟨hi, h⟩

def Answers (w : World) : Prop :=
  ∀ (i : Nat) (c : Call) (r : Run) (joined : Bool) (key : String),
    w.calls[i]? = some c → c.phase = .answered r joined →
    c.request.key = some key →
    ∃ s ∈ w.runs.rows, s.id = r.id ∧ s.tenantId = c.request.tenant ∧ s.idempotencyKey = some key

theorem answered_of_keeps {runs after : RunStore} {id tenant : Uuid} {key : String}
    (hkeeps : runs.Keeps after)
    (h : ∃ s ∈ runs.rows, s.id = id ∧ s.tenantId = tenant ∧ s.idempotencyKey = some key) :
    ∃ s ∈ after.rows, s.id = id ∧ s.tenantId = tenant ∧ s.idempotencyKey = some key := by
  obtain ⟨s, hs, rfl, rfl, hkey⟩ := h
  exact hkeeps s hs key hkey

theorem answers_step {a : Action} (hinv : Answers w) (h : step registry w a = some t) :
    Answers t := by
  intro i c' r joined key hc' hanswered hkey
  cases step_change h with
  | begins _ _ hplain heq =>
    subst heq
    rcases Nat.lt_or_ge i w.calls.length with hlt | hge
    · rw [getElem?_append_left hlt] at hc'
      exact hinv i c' r joined key hc' hanswered hkey
    · rw [getElem?_append_right hge] at hc'
      have hmem := mem_of_getElem? hc'
      cases mem_singleton.mp hmem
      dsimp only at hanswered
      rw [hanswered] at hplain
      cases hplain
  | moves _ _ _ _ hcall _ hlearnt hkeeps heq =>
    subst heq
    refine answered_of_keeps hkeeps ?_
    rcases calls_setPhase_cases hcall hc' with ⟨_, rfl⟩ | ⟨_, hold⟩
    · dsimp only at hanswered hkey ⊢
      subst hanswered
      cases hlearnt with
      | existing _ _ hk hmem htenant hsame =>
        rw [hk] at hkey
        cases hkey
        exact ⟨r, hmem, rfl, htenant, hsame⟩
      | joined _ hmem hwaits hsame =>
        exact ⟨r, hmem, rfl, hwaits.1, hsame key hkey⟩
    · exact hinv i c' r joined key hold hanswered hkey
  | attached _ _ _ s _ _ hcall _ hours hmem hid htenant hsame hkeeps heq =>
    subst heq
    rcases calls_setPhase_cases hcall hc' with ⟨_, rfl⟩ | ⟨_, hold⟩
    · cases hanswered
      rw [hours] at hkey
      cases hkey
      exact ⟨s, hmem, hid, htenant, hsame⟩
    · exact answered_of_keeps hkeeps (hinv i c' r joined key hold hanswered hkey)
  | inserted _ c fresh _ hcall hmem hkeeps heq =>
    subst heq
    rcases calls_setPhase_cases hcall hc' with ⟨_, rfl⟩ | ⟨_, hold⟩
    · cases hanswered
      exact ⟨c.request.row fresh, hmem, rfl, rfl, hkey⟩
    · exact answered_of_keeps hkeeps (hinv i c' r joined key hold hanswered hkey)
  | rows _ hkeeps heq =>
    subst heq
    exact answered_of_keeps hkeeps (hinv i c' r joined key hc' hanswered hkey)

theorem answers_run {runs : RunStore} {actions : List Action}
    (hrun : runActions (step registry) (initially runs) actions = some w) : Answers w := by
  have hinitially : Answers (initially runs) := by
    intro i c r joined key hc
    cases hc
  exact runActions_preserves (fun _ _ _ hs hstep => answers_step hs hstep) hinitially hrun

theorem keeps_run :
    ∀ {w t : World} {actions : List Action},
      runActions (step registry) w actions = some t → w.runs.Keeps t.runs
  | w, t, [], hrun => by
    cases hrun
    exact .refl _
  | w, t, a :: rest, hrun => by
    obtain ⟨m, hstep, hrest⟩ := runActions_cons_iff.mp hrun
    intro r hr key hkey
    obtain ⟨s, hs, hid, htenant, hsame⟩ := step_keeps hstep r hr key hkey
    obtain ⟨q, hq, hid', htenant', hsame'⟩ := keeps_run hrest s hs key hsame
    exact ⟨q, hq, hid'.trans hid, htenant'.trans htenant, hsame'⟩

end Answers

section Joined

variable {registry : Registry} {w t : World}

theorem request_step {a : Action} {i : Nat} {c : Call} (hc : w.calls[i]? = some c)
    (h : step registry w a = some t) : ∃ d, t.calls[i]? = some d ∧ d.request = c.request := by
  have hset : ∀ call phase,
      ∃ d, (w.setPhase call phase).calls[i]? = some d ∧ d.request = c.request := by
    intro call phase
    rw [calls_setPhase, hc]
    exact ⟨_, rfl, by split <;> rfl⟩
  cases step_change h with
  | begins _ _ _ heq =>
    subst heq
    have hlt : i < w.calls.length := (List.getElem?_eq_some_iff.mp hc).1
    exact ⟨c, (getElem?_append_left hlt).trans hc, rfl⟩
  | moves call _ phase _ _ _ _ _ heq =>
    subst heq
    exact hset call phase
  | attached call _ _ _ _ _ _ _ _ _ _ _ _ _ heq =>
    subst heq
    exact hset call _
  | inserted call _ _ _ _ _ _ heq =>
    subst heq
    exact hset call _
  | rows _ _ heq =>
    subst heq
    exact ⟨c, hc, rfl⟩

theorem request_run :
    ∀ {w t : World} {actions : List Action} {i : Nat} {c : Call},
      w.calls[i]? = some c → runActions (step registry) w actions = some t →
      ∃ d, t.calls[i]? = some d ∧ d.request = c.request
  | w, t, [], i, c, hc, hrun => by
    cases hrun
    exact ⟨c, hc, rfl⟩
  | w, t, a :: rest, i, c, hc, hrun => by
    obtain ⟨m, hstep, hrest⟩ := runActions_cons_iff.mp hrun
    obtain ⟨d, hd, hrequest⟩ := request_step hc hstep
    obtain ⟨e, he, hrequest'⟩ := request_run hd hrest
    exact ⟨e, he, hrequest'.trans hrequest⟩

def Joins (i : Nat) (id : Uuid) (w : World) : Prop :=
  ∃ (c : Call) (r : Run), w.calls[i]? = some c ∧ r.id = id ∧
    (c.phase = .attaching r ∨ c.phase = .answered r true)

theorem joins_step {a : Action} {i : Nat} {id : Uuid} (hnot : ¬ Joins i id w)
    (h : step registry w a = some t) (hjoins : Joins i id t) :
    ∃ c r, w.calls[i]? = some c ∧ c.phase.isOver = false ∧ r ∈ w.runs.rows ∧ r.id = id ∧
      WaitsFor c.request r := by
  obtain ⟨d, r, hd, hid, hphase⟩ := hjoins
  have hold : w.calls[i]? ≠ some d := fun hc => hnot ⟨d, r, hc, hid, hphase⟩
  cases step_change h with
  | begins _ _ hplain heq =>
    subst heq
    rcases Nat.lt_or_ge i w.calls.length with hlt | hge
    · rw [getElem?_append_left hlt] at hd
      exact absurd hd hold
    · rw [getElem?_append_right hge] at hd
      cases mem_singleton.mp (mem_of_getElem? hd)
      rcases hphase with hphase | hphase <;>
        · dsimp only at hphase
          rw [hphase] at hplain
          cases hplain
  | moves _ c _ _ hcall hgoing hlearnt _ heq =>
    subst heq
    rcases calls_setPhase_cases hcall hd with ⟨rfl, rfl⟩ | ⟨_, hd⟩
    · rcases hphase with hphase | hphase <;>
        · dsimp only at hphase
          subst hphase
          cases hlearnt
          exact ⟨c, r, hcall, hgoing, by assumption, hid, by assumption⟩
    · exact absurd hd hold
  | attached call c waiting s ours runs hcall hattaching hours hmem hids htenant hsame hkeeps
      heq =>
      subst heq
      rcases calls_setPhase_cases hcall hd with ⟨rfl, rfl⟩ | ⟨_, hd⟩
      · rcases hphase with hphase | hphase
        · cases hphase
        · cases hphase
          exact absurd ⟨c, waiting, hcall, hid, Or.inl hattaching⟩ hnot
      · exact absurd hd hold
  | inserted _ _ _ _ hcall _ _ heq =>
    subst heq
    rcases calls_setPhase_cases hcall hd with ⟨rfl, rfl⟩ | ⟨_, hd⟩
    · rcases hphase with hphase | hphase <;> cases hphase
    · exact absurd hd hold
  | rows _ _ heq =>
    subst heq
    exact absurd hd hold

end Joined

section Alone

variable {registry : Registry} {store : RunStore} {request : EnqueueRequest}

end Alone

def OneAnswerPerKey (w : World) : Prop :=
  ∀ (i j : Nat) (c d : Call) (r s : Run) (joined joined' : Bool) (key : String),
    w.calls[i]? = some c → w.calls[j]? = some d →
    c.request.tenant = d.request.tenant →
    c.request.key = some key → d.request.key = some key →
    c.phase = .answered r joined → d.phase = .answered s joined' →
    r.id = s.id

/-- Two runs that a table had then and has now under one key are one run. -/
def OneRunPerKey (earlier later : RunStore) : Prop :=
  ∀ r ∈ earlier.rows, ∀ s ∈ later.rows, r.tenantId = s.tenantId →
    ∀ key, r.idempotencyKey = some key → s.idempotencyKey = some key → r.id = s.id

theorem oneAnswerPerKey_of_answers {w : World} (h : Answers w) : OneAnswerPerKey w := by
  intro i j c d r s joined joined' key hc hd htenant hkey hkey' hr hs
  obtain ⟨p, hp, hpid, hptenant, hpkey⟩ := h i c r joined key hc hr hkey
  obtain ⟨q, hq, hqid, hqtenant, hqkey⟩ := h j d s joined' key hd hs hkey'
  have hsame : p.tenantId = q.tenantId := hptenant.trans (htenant.trans hqtenant.symm)
  calc r.id = p.id := hpid.symm
    _ = q.id := w.runs.keys_unique p hp q hq hsame key hpkey hqkey
    _ = s.id := hqid

theorem oneRunPerKey_of_keeps {earlier later : RunStore} (h : earlier.Keeps later) :
    OneRunPerKey earlier later := by
  intro r hr s hs htenant key hkey hkey'
  obtain ⟨q, hq, hid, hqtenant, hqkey⟩ := h r hr key hkey
  rw [← hid]
  exact later.keys_unique q hq s hs (hqtenant.trans htenant) key hqkey hkey'

/-- **Enqueue answers one run per key.** -/
theorem answers_one_run_per_key
    {registry : Registry} {runs : RunStore} {actions : List Action} {w : World}
    (hrun : runActions (step registry) (initially runs) actions = some w) :
    OneAnswerPerKey w ∧
    (∀ before after s, actions = before ++ after →
      runActions (step registry) (initially runs) before = some s →
      OneRunPerKey s.runs w.runs) ∧
    EveryStep (step registry) (fun s _ t => s.runs.Keeps t.runs) (initially runs) actions ∧
    (∀ (i : Nat) (c : Call) (r : Run), w.calls[i]? = some c → c.phase = .answered r true →
      ∃ before after s d waiting, actions = before ++ after ∧
        runActions (step registry) (initially runs) before = some s ∧
        s.calls[i]? = some d ∧ d.request = c.request ∧ d.phase.isOver = false ∧
        waiting ∈ s.runs.rows ∧ waiting.id = r.id ∧ WaitsFor c.request waiting) := by
  refine ⟨oneAnswerPerKey_of_answers (answers_run hrun), ?_, ?_, ?_⟩
  · intro before after s hsplit hbefore
    subst hsplit
    obtain ⟨m, hm, hafter⟩ := runActions_append_iff.mp hrun
    rw [hbefore] at hm
    cases hm
    exact oneRunPerKey_of_keeps (keeps_run hafter)
  · refine EveryStep.of_forall ?_ (initially runs) actions
    intro s a t hstep
    exact step_keeps hstep
  · intro i c r hc hanswered
    have hinitially : ¬ Joins i r.id (initially runs) := by
      rintro ⟨d, s, hd, _⟩
      cases hd
    have hjoins : Joins i r.id w := ⟨c, r, hc, rfl, Or.inr hanswered⟩
    obtain ⟨before, a, after, p, q, hsplit, hp, hnot, hstep, hq, hafter⟩ :=
      exists_step_of_becomes hinitially hrun hjoins
    obtain ⟨d, waiting, hd, hgoing, hmem, hid, hwaits⟩ := joins_step hnot hstep hq
    have hlater : runActions (step registry) p (a :: after) = some w :=
      runActions_cons_iff.mpr ⟨q, hstep, hafter⟩
    obtain ⟨e, he, hrequest⟩ := request_run hd hlater
    rw [hc] at he
    cases he
    refine ⟨before, a :: after, p, d, waiting, hsplit, hp, hd, hrequest.symm, hgoing, hmem, hid, ?_⟩
    rw [hrequest]
    exact hwaits

def keyedJoinsUnkeyed : List Action :=
  let unkeyed : EnqueueRequest :=
    { tenant := ⟨"t"⟩, taskType := "graph.sync", payload := .null, partitionKey := some "repo"
      idempotencyKey := none, coalesceQueued := true }
  let keyed := { unkeyed with idempotencyKey := some "k-1" }
  [.enqueues unkeyed, .looksForWaiting 0 [], .inserts 0 ⟨"a"⟩ true,
    .enqueues keyed, .looksUp 1, .looksForWaiting 1 [⟨"a"⟩], .attaches 1 true,
    .delivers ⟨"a"⟩ .running, .enqueues keyed, .looksUp 2]

def noRuns : RunStore :=
  { rows := [], ids_nodup := nodup_nil, keys_unique := by simp [KeysUnique] }

theorem keyed_request_joins_unkeyed_run :
    ∃ w, runActions (step ["graph.sync"]) (initially noRuns) keyedJoinsUnkeyed = some w ∧
      (w.runs.rows.map (fun r => (r.id.text, r.idempotencyKey))) = [("a", some "k-1")] ∧
      w.calls.map (fun c => c.phase.run?.map (fun r => r.id.text)) =
        [some "a", some "a", some "a"] ∧
      OneAnswerPerKey w := by
  have hsome : (runActions (step ["graph.sync"]) (initially noRuns) keyedJoinsUnkeyed).isSome := by
    decide +kernel
  obtain ⟨w, hw⟩ := isSome_iff_exists.mp hsome
  refine ⟨w, hw, ?_, ?_, (answers_one_run_per_key hw).1⟩
  · have hrows : (runActions (step ["graph.sync"]) (initially noRuns) keyedJoinsUnkeyed).map
        (fun w => w.runs.rows.map (fun r => (r.id.text, r.idempotencyKey))) =
          some [("a", some "k-1")] := by
      decide +kernel
    rw [hw] at hrows
    exact some.inj hrows
  · have hcalls : (runActions (step ["graph.sync"]) (initially noRuns) keyedJoinsUnkeyed).map
        (fun w => w.calls.map (fun c => c.phase.run?.map (fun r => r.id.text))) =
          some [some "a", some "a", some "a"] := by
      decide +kernel
    rw [hw] at hcalls
    exact some.inj hcalls

end Tasks
end StudioWeb
