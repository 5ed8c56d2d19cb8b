import StudioWeb.DomainModel.VersionStore
import StudioWeb.Library.LabelledRuns

/-!
# Concurrent edits of one model

Any number of replicas and of edits in them.  What an edit does between two of its
waits is one step: it takes the cached model, compares the stored head and reloads,
computes the change and the number it asks for, claims it, writes the types and then
the head, and adopts what it wrote.

A claim is refused only for its own number, so an edit can step past the number of a
writer whose model it has not seen.
-/

namespace StudioWeb
namespace DomainModel

open JsonText LabelledRuns List Option Function

/-- Where an edit is. A base is the model that it starts from, with the version of
that model. -/
inductive Phase where
  | reading (attempt : Nat)
  | checking (attempt : Nat) (base : Cache)
  | numbering (attempt : Nat) (base : Cache)
  | claiming (attempt : Nat) (base : Cache) (version : Nat) (change : Change)
  | noting (attempt : Nat)
  | reloading (attempt : Nat)
  | writingTypes (version : Nat) (change : Change)
  | writingHead (version : Nat) (change : Change)
  | adopting (version : Nat) (change : Change)
  | returned (version : Option Nat)
  | failed (error : String)

structure EditCall where
  replica : Nat
  request : EditRequest
  phase : Phase

/-- `accepted` lists the versions whose claim was accepted, with their edits; nothing
in the system reads it. -/
structure System where
  store : ModelStore
  replicas : Nat → Process
  calls : List EditCall
  accepted : List (Nat × EditRequest)

def callStep (edit : ModelEdit) (p : Process) (s : ModelStore) :
    Phase → Option (Phase × Process × ModelStore)
  | .reading n =>
    match p.cache with
    | some base => some (.checking n base, p, s)
    | none =>
      match s.load with
      | some base => some (.checking n base, { p with cache := some base }, s)
      | none => some (.failed notStored, p, s)
  | .checking n base =>
    if s.model.version = p.cachedVersion then
      some (.numbering n base, p, s)
    else
      match s.load with
      | some base => some (.numbering n base, { p with cache := some base }, s)
      | none => some (.numbering n (p.cache.getD base), p, s)
  | .numbering n base =>
    match edit base.ontology with
    | .error error => some (.failed error, p, s)
    | .ok none => some (.returned none, p, s)
    | .ok (some change) => some (.claiming n base p.nextVersion change, p, s)
  | .claiming n _ version change =>
    match s.claim (change.revision version) with
    | none => some (.noting n, p, s)
    | some s => some (.writingTypes version change, p, s)
  | .noting n => some (.reloading n, p.noteClaimed s, s)
  | .reloading n =>
    some (if n + 1 < EDIT_ATTEMPTS then .reading (n + 1) else .failed contended, p.reload s, s)
  | .writingTypes version change =>
    match change.touched.find? fun id => !change.next.hasEntity id with
    | some id => some (.failed s!"unknown domain type: {id}", p, s)
    | none => some (.writingHead version change, p, s.writeTypes change.next change.touched)
  | .writingHead version change =>
    some (.adopting version change, p, s.writeModel change.next version)
  | .adopting version change =>
    some (.returned (some version),
      if p.cache.isSome then p.adopt change.next version else p, s)
  | .returned _ => none
  | .failed _ => none

def EditRequest.writesOneType : EditRequest → Bool
  | .studioTypes => false
  | _ => true

/-- A call begins, a call goes on, or another request of the replica finds that its
cached model is due for a check. -/
inductive Action where
  | start (replica : Nat) (request : EditRequest)
  | call (i : Nat)
  | recheck (replica : Nat)

def newlyAccepted (before after : Phase) : Option Nat :=
  match before, after with
  | .claiming _ _ version _, .writingTypes _ _ => some version
  | _, _ => none

def step (studio : Ontology) (σ : System) : Action → Option System
  | .start replica request =>
    if request.writesOneType then
      some { σ with calls := σ.calls ++ [⟨replica, request, .reading 0⟩] }
    else
      none
  | .recheck replica =>
    some { σ with
      replicas := Function.update σ.replicas replica
        ((σ.replicas replica).modelCurrent σ.store) }
  | .call i =>
    match σ.calls[i]? with
    | none => none
    | some call =>
      match callStep (call.request.edit studio) (σ.replicas call.replica) σ.store
          call.phase with
      | none => none
      | some (phase, p, s) =>
        some
          { store := s
            replicas := Function.update σ.replicas call.replica p
            calls := σ.calls.set i { call with phase := phase }
            accepted := σ.accepted ++ ((newlyAccepted call.phase phase).map fun version =>
                (version, call.request)).toList }

section Documents

/-- Every type has an id of its own, which keys its node. -/
structure WellFormed (o : Ontology) : Prop where
  nonempty : o.entities ≠ []
  ids : o.entities.map idOf = o.entityIds.map some
  nodup : o.entityIds.Nodup

/-- The type nodes hold the document's types. -/
def TypesHold (types : String → Option Json) (o : Ontology) : Prop :=
  ∀ e ∈ o.entities, ∀ id, idOf e = some id → types id = some e

/-- The store holds the document. -/
structure Stored (s : ModelStore) (o : Ontology) : Prop where
  head : s.model.head = o.head
  entityIds : s.model.entityIds = o.entityIds
  types : TypesHold s.types o

/-- The document after the edits, one after the other. -/
def serial (studio : Ontology) (o : Ontology) (requests : List EditRequest) : Option Ontology :=
  requests.foldlM (fun o request =>
      match request.edit studio o with
      | .ok (some change) => some change.next
      | _ => none)
    o

variable {studio o next : Ontology}

theorem filterMap_types {types : String → Option Json} :
    ∀ {es : List Json} {ids : List String}, es.map idOf = ids.map some →
      (∀ e ∈ es, ∀ id, idOf e = some id → types id = some e) →
      ids.filterMap types = es
  | [], [], _, _ => rfl
  | [], id :: ids, h, _ => by cases h
  | e :: es, [], h, _ => by cases h
  | e :: es, id :: ids, h, htypes => by
    rw [map_cons, map_cons, List.cons.injEq] at h
    have he := htypes e mem_cons_self id h.1
    have hrest := filterMap_types h.2 fun e' he' => htypes e' (mem_cons_of_mem _ he')
    rw [filterMap_cons, he, hrest]

theorem load_of_stored {s : ModelStore} (hw : WellFormed o) (h : Stored s o) :
    s.load = some ⟨o, s.model.version⟩ := by
  have hpicked : s.model.entityIds.filterMap s.types = o.entities := by
    rw [h.entityIds]
    exact filterMap_types hw.ids h.types
  simp only [ModelStore.load, hpicked, if_neg hw.nonempty, h.head]

theorem entity_of_mem {e : Json} {id : String} (hw : WellFormed o) (he : e ∈ o.entities)
    (hid : idOf e = some id) : o.entity id = some e := by
  obtain ⟨found, hfound⟩ := isSome_iff_exists.mp (entity_isSome_iff.mpr ⟨e, he, hid⟩)
  have hmem := mem_of_find?_eq_some hfound
  have hidfound : idOf found = some id := by
    have := find?_some hfound
    simpa using this
  have hnodup : (o.entities.map idOf).Nodup := by
    rw [hw.ids]
    exact hw.nodup.map (some_injective _)
  rw [hfound, inj_on_of_nodup_map hnodup hmem he (hidfound.trans hid.symm)]

theorem entityIds_eq (o : Ontology) : o.entityIds = (o.entities.map idOf).filterMap id := by
  simp [Ontology.entityIds, filterMap_map]

theorem WellFormed.of_keepsIds (hw : WellFormed o) (h : KeepsIds o next) : WellFormed next := by
  have hlength : o.entities.length ≤ next.entities.length := by
    have h₁ : (o.entities.map idOf).length = o.entities.length := length_map _
    have h₂ : (next.entities.map idOf).length = next.entities.length := length_map _
    rcases h with h | ⟨id, _, h⟩
    · rw [h] at h₂
      omega
    · rw [h, length_append] at h₂
      omega
  have hnonempty : next.entities ≠ [] := by
    intro hnil
    rw [hnil] at hlength
    exact hw.nonempty (eq_nil_of_length_eq_zero (Nat.le_zero.mp hlength))
  rcases h with h | ⟨id, hnew, h⟩
  · have hids : next.entityIds = o.entityIds := by rw [entityIds_eq, h, ← entityIds_eq]
    exact ⟨hnonempty, by rw [h, hids, hw.ids], by rw [hids]; exact hw.nodup⟩
  · have hids : next.entityIds = o.entityIds ++ [id] := by
      rw [entityIds_eq, h, filterMap_append, ← entityIds_eq]
      rfl
    refine ⟨hnonempty, ?_, ?_⟩
    · rw [h, hids, map_append, hw.ids, map_singleton]
    · rw [hids]
      have hfresh : id ∉ o.entityIds := by
        intro hid
        obtain ⟨e, he, heq⟩ := mem_filterMap.mp hid
        have hhas : (o.entity id).isSome := entity_isSome_iff.mpr ⟨e, he, heq⟩
        simp [Ontology.hasEntity, hhas] at hnew
      exact nodup_append.mpr ⟨hw.nodup, nodup_singleton id, by
        intro a ha b hb hab
        rw [mem_singleton] at hb
        exact hfresh (hb ▸ hab ▸ ha)⟩

variable {request : EditRequest} {c : Change}

theorem EditRequest.keepsIds
    (hone : request.writesOneType = true) (h : request.edit studio o = .ok (some c)) :
    KeepsIds o c.next := by
  cases request <;> simp only [EditRequest.edit] at h
  case addField => exact addFieldEdit_keepsIds h
  case addType => exact addTypeEdit_keepsIds h
  case editField => exact editFieldEdit_keepsIds h
  case removeField => exact removeFieldEdit_keepsIds h
  case takeIn => exact takeInEdit_keepsIds h
  case studioTypes => cases hone

theorem EditRequest.frames
    (hone : request.writesOneType = true) (h : request.edit studio o = .ok (some c)) :
    c.Frames o := by
  cases request <;> simp only [EditRequest.edit] at h
  case addField => exact addFieldEdit_frames h
  case addType => exact addTypeEdit_frames h
  case editField => exact editFieldEdit_frames h
  case removeField => exact removeFieldEdit_frames h
  case takeIn => exact takeInEdit_frames h
  case studioTypes => cases hone

theorem writeTypes_apply (o : Ontology) (id : String) :
    ∀ (touched : List String) (types : String → Option Json),
      touched.foldl (fun types id => Function.update types id (o.entity id)) types id =
        if id ∈ touched then o.entity id else types id
  | [], types => by simp
  | t :: touched, types => by
    rw [foldl_cons, writeTypes_apply o id touched]
    by_cases hmem : id ∈ touched
    · simp [hmem]
    · by_cases heq : id = t
      · simp [heq]
      · simp [hmem, heq]

theorem typesHold_writeTypes {s : ModelStore} {c : Change} (hw : WellFormed c.next)
    (hframes : c.Frames o) (h : TypesHold s.types o) :
    TypesHold (s.writeTypes c.next c.touched).types c.next := by
  intro e he id hid
  have hentity := entity_of_mem hw he hid
  have happly := writeTypes_apply c.next id c.touched s.types
  dsimp only [ModelStore.writeTypes]
  rw [happly]
  split_ifs with htouched
  · exact hentity
  · rw [hframes.entity id htouched] at hentity
    have hmem := mem_of_find?_eq_some hentity
    exact h e hmem id hid

theorem serial_append {requests : List EditRequest} {m : Ontology}
    (h : serial studio o requests = some m) (hedit : request.edit studio m = .ok (some c)) :
    serial studio o (requests ++ [request]) = some c.next := by
  unfold serial at h ⊢
  rw [foldlM_append, h]
  simp [hedit]

end Documents

section Invariant

/-- The call writes: its claim was accepted and its head is not written yet. -/
def Phase.isWriting : Phase → Bool
  | .writingTypes _ _ => true
  | .writingHead _ _ => true
  | _ => false

/-- The call has taken the cached model and not asked for a number yet. -/
def Phase.hasRead : Phase → Bool
  | .checking _ _ => true
  | .numbering _ _ => true
  | _ => false

/-- What is common knowledge of a run: the first head, the stored head, the newest
claimed version and the document of that version. -/
structure View where
  first : Nat
  head : Nat
  top : Nat
  doc : Ontology

/-- A cached model is not newer than the stored head, and one at the newest version
is the document of that version. -/
structure Known (v : View) (c : Cache) : Prop where
  first : v.first ≤ c.version
  head : c.version ≤ v.head
  doc : c.version = v.top → c.ontology = v.doc

/-- What a call relies on between its steps. -/
def PhaseInv (studio : Ontology) (v : View) (accepted : List (Nat × EditRequest))
    (request : EditRequest) : Phase → Prop
  | .reading _ => True
  | .checking _ base => Known v base
  | .numbering _ base => Known v base
  | .claiming _ base version change =>
    Known v base ∧ v.first < version ∧ version ≤ v.top + 1 ∧
      request.edit studio base.ontology = .ok (some change)
  | .noting _ => True
  | .reloading _ => True
  | .writingTypes version _ => (version, request) ∈ accepted
  | .writingHead version _ => (version, request) ∈ accepted
  | .adopting version change =>
    (version, request) ∈ accepted ∧ Known v ⟨change.next, version⟩
  | .returned version => ∀ n, version = some n → (n, request) ∈ accepted
  | .failed _ => True

/-- The stored head is the newest claimed version, or one call is about to write it. -/
inductive Landing (v : View) (s : ModelStore) (calls : List EditCall) : Prop
  | landed
      (idle : ∀ call ∈ calls, call.phase.isWriting = false)
      (head : v.head = v.top)
      (stored : Stored s v.doc)
  | types (i : Nat) (call : EditCall) (change : Change) (before : Ontology)
      (at_ : calls[i]? = some call)
      (phase : call.phase = .writingTypes v.top change)
      (only : ∀ (j : Nat) (other : EditCall), calls[j]? = some other →
        other.phase.isWriting = true → j = i)
      (next : change.next = v.doc)
      (head : v.head < v.top)
      (stored : TypesHold s.types before)
      (frames : change.Frames before)
      (own : ∀ id ∈ change.touched, change.next.hasEntity id = true)
  | head (i : Nat) (call : EditCall) (change : Change)
      (at_ : calls[i]? = some call)
      (phase : call.phase = .writingHead v.top change)
      (only : ∀ (j : Nat) (other : EditCall), calls[j]? = some other →
        other.phase.isWriting = true → j = i)
      (next : change.next = v.doc)
      (head : v.head < v.top)
      (stored : TypesHold s.types v.doc)

/-- **The invariant of a run.** -/
structure Inv (studio o : Ontology) (v : View) (σ : System) : Prop where
  serial : serial studio o (σ.accepted.map Prod.snd) = some v.doc
  wellFormed : WellFormed v.doc
  versions : σ.accepted.map Prod.fst = List.range' (v.first + 1) σ.accepted.length
  top : v.top = v.first + σ.accepted.length
  head : v.head = σ.store.model.version
  first_le : v.first ≤ v.head
  head_le : v.head ≤ v.top
  claimed : ∀ n, v.first < n → (σ.store.isClaimed n = true ↔ n ≤ v.top)
  replicas : ∀ r, (σ.replicas r).claimed ≤ v.top ∧ ∀ c, (σ.replicas r).cache = some c → Known v c
  calls : ∀ call ∈ σ.calls, PhaseInv studio v σ.accepted call.request call.phase
  typed : ∀ call ∈ σ.calls, call.request.writesOneType = true
  cached : ∀ call ∈ σ.calls, call.phase.hasRead = true → (σ.replicas call.replica).cache.isSome
  landing : Landing v σ.store σ.calls

variable {studio o : Ontology} {v : View} {σ τ : System}

theorem Known.later {w : View} {c : Cache} (h : Known v c) (hfirst : w.first = v.first)
    (hhead : v.head ≤ w.head) (htop : w.top = v.top ∧ w.doc = v.doc ∨ v.head < w.top) :
    Known w c := by
  refine ⟨by rw [hfirst]; exact h.first, h.head.trans hhead, ?_⟩
  intro hversion
  rcases htop with ⟨htop, hdoc⟩ | htop
  · rw [hdoc]
    exact h.doc (hversion.trans htop)
  · have := h.head
    omega

variable {phase : Phase} {calls : List EditCall} {i : Nat} {call : EditCall} {p : Process}
  {s : ModelStore} {change : Change}

theorem PhaseInv.later
    {w : View} {accepted accepted' : List (Nat × EditRequest)} {request : EditRequest} (h : PhaseInv studio v accepted request phase) (hfirst : w.first = v.first)
    (hhead : v.head ≤ w.head) (hle : v.top ≤ w.top)
    (htop : w.top = v.top ∧ w.doc = v.doc ∨ v.head < w.top)
    (haccepted : ∀ a ∈ accepted, a ∈ accepted') : PhaseInv studio w accepted' request phase := by
  cases phase with
  | reading => trivial
  | checking => exact Known.later h hfirst hhead htop
  | numbering => exact Known.later h hfirst hhead htop
  | claiming =>
    obtain ⟨hknown, hlt, hversion, hedit⟩ := h
    refine ⟨hknown.later hfirst hhead htop, ?_, ?_, hedit⟩
    · rw [hfirst]
      exact hlt
    · omega
  | noting => trivial
  | reloading => trivial
  | writingTypes => exact haccepted _ h
  | writingHead => exact haccepted _ h
  | adopting => exact ⟨haccepted _ h.1, h.2.later hfirst hhead htop⟩
  | returned =>
    intro n hn
    exact haccepted _ (h n hn)
  | failed => trivial

theorem known_of_load {c : Cache} (h : Inv studio o v σ) (hload : σ.store.load = some c) :
    Known v c := by
  have hversion := load_version hload
  have hfirst := h.first_le
  rw [← h.head] at hversion
  refine ⟨by omega, by omega, ?_⟩
  intro htop
  cases h.landing with
  | landed _ _ hstored =>
    rw [load_of_stored h.wellFormed hstored] at hload
    cases hload
    rfl
  | types => omega
  | head => omega

theorem topVersion_le (h : Inv studio o v σ) : σ.store.topVersion ≤ v.top := by
  unfold ModelStore.topVersion
  cases hrevisions : σ.store.revisions.head? with
  | none => exact Nat.zero_le _
  | some r =>
    have hmem : r ∈ σ.store.versions := (mem_insertionSort _).mp (mem_of_mem_head? hrevisions)
    by_cases hlt : v.first < r.version
    · exact (h.claimed r.version hlt).mp (isClaimed_iff.mpr ⟨r, hmem, rfl⟩)
    · have hle := h.first_le
      have hle' := h.head_le
      show r.version ≤ v.top
      omega

theorem forall_mem_set {P : EditCall → Prop}
    (h : ∀ other ∈ calls, P other) (hcall : P call) : ∀ other ∈ calls.set i call, P other := by
  intro other hmem
  rcases mem_or_eq_of_mem_set hmem with hmem | rfl
  · exact h other hmem
  · exact hcall

theorem forall_replicas_update {replicas : Nat → Process} {replica : Nat}
    (h : ∀ r, (replicas r).claimed ≤ v.top ∧ ∀ c, (replicas r).cache = some c → Known v c)
    (hp : p.claimed ≤ v.top ∧ ∀ c, p.cache = some c → Known v c) :
    ∀ r, (Function.update replicas replica p r).claimed ≤ v.top ∧
      ∀ c, (Function.update replicas replica p r).cache = some c → Known v c := by
  intro r
  by_cases hr : r = replica
  · rw [hr, update_self]
    exact hp
  · rw [update_of_ne hr]
    exact h r

theorem cached_update {replicas : Nat → Process} {replica : Nat}
    (h : ∀ call ∈ calls, call.phase.hasRead = true → (replicas call.replica).cache.isSome)
    (hp : (replicas replica).cache.isSome → p.cache.isSome) :
    ∀ call ∈ calls, call.phase.hasRead = true →
      (Function.update replicas replica p call.replica).cache.isSome := by
  intro call hcall hread
  have hcached := h call hcall hread
  by_cases hr : call.replica = replica
  · rw [hr, update_self]
    exact hp (hr ▸ hcached)
  · rw [update_of_ne hr]
    exact hcached

theorem Landing.of_writers {calls calls' : List EditCall} (h : Landing v s calls)
    (hsame : ∀ (j : Nat) (other : EditCall), other.phase.isWriting = true →
      (calls'[j]? = some other ↔ calls[j]? = some other)) :
    Landing v s calls' := by
  cases h with
  | landed hidle hhead hstored =>
    refine .landed ?_ hhead hstored
    intro other hmem
    rw [Bool.eq_false_iff]
    intro hwriting
    obtain ⟨j, hj⟩ := mem_iff_getElem?.mp hmem
    have hbefore := mem_of_getElem? ((hsame j other hwriting).mp hj)
    rw [hidle other hbefore] at hwriting
    cases hwriting
  | types k writer change before hk hphase honly hnext hlt hstored hframes hown =>
    refine .types k writer change before ?_ hphase ?_ hnext hlt hstored hframes hown
    · exact (hsame k writer (by rw [hphase]; rfl)).mpr hk
    · intro j other hj hwriting
      exact honly j other ((hsame j other hwriting).mp hj) hwriting
  | head k writer change hk hphase honly hnext hlt hstored =>
    refine .head k writer change ?_ hphase ?_ hnext hlt hstored
    · exact (hsame k writer (by rw [hphase]; rfl)).mpr hk
    · intro j other hj hwriting
      exact honly j other ((hsame j other hwriting).mp hj) hwriting

theorem Landing.of_quiet {call call' : EditCall}
    (h : Landing v s calls) (hat : calls[i]? = some call) (hold : call.phase.isWriting = false)
    (hnew : call'.phase.isWriting = false) : Landing v s (calls.set i call') := by
  refine h.of_writers ?_
  intro j other hwriting
  by_cases hj : i = j
  · subst hj
    rw [List.getElem?_set_self (List.getElem?_eq_some_iff.mp hat).1, hat]
    constructor
    · intro heq
      rw [← some.inj heq, hnew] at hwriting
      cases hwriting
    · intro heq
      rw [← some.inj heq, hold] at hwriting
      cases hwriting
  · rw [getElem?_set_ne hj]

theorem Landing.append (h : Landing v s calls) (hnew : call.phase.isWriting = false) :
    Landing v s (calls ++ [call]) := by
  refine h.of_writers ?_
  intro j other hwriting
  rcases Nat.lt_trichotomy j calls.length with hlt | heq | hgt
  · rw [getElem?_append_left hlt]
  · subst heq
    rw [getElem?_concat_length, getElem?_eq_none (Nat.le_refl _)]
    constructor
    · intro heq
      rw [← some.inj heq, hnew] at hwriting
      cases hwriting
    · intro heq
      cases heq
  · rw [getElem?_eq_none (by simp; omega), getElem?_eq_none (by omega)]

section

variable (h : Inv studio o v σ)
include h

/-- A step that writes nothing keeps the invariant when the call and the replica keep
their parts of it. -/
theorem Inv.quiet (hat : σ.calls[i]? = some call) (hold : call.phase.isWriting = false)
    (hnew : phase.isWriting = false) (hphase : PhaseInv studio v σ.accepted call.request phase)
    (hp : p.claimed ≤ v.top ∧ ∀ c, p.cache = some c → Known v c)
    (hkeeps : (σ.replicas call.replica).cache.isSome → p.cache.isSome)
    (hread : phase.hasRead = true → p.cache.isSome) :
    Inv studio o v
      { store := σ.store
        replicas := Function.update σ.replicas call.replica p
        calls := σ.calls.set i { call with phase := phase }
        accepted := σ.accepted } :=
  { h with
    replicas := forall_replicas_update h.replicas hp
    calls := forall_mem_set h.calls hphase
    typed := forall_mem_set h.typed (h.typed call (mem_of_getElem? hat))
    cached := forall_mem_set (cached_update h.cached hkeeps) (by
      intro hphase
      dsimp only
      rw [update_self]
      exact hread hphase)
    landing := h.landing.of_quiet hat hold hnew }

section

variable (hp : p.claimed ≤ v.top ∧ ∀ c, p.cache = some c → Known v c)
include hp

theorem known_cache :
    (p.reload σ.store).claimed ≤ v.top ∧
      ∀ c, (p.reload σ.store).cache = some c → Known v c := by
  unfold Process.reload
  cases hload : σ.store.load with
  | none => exact hp
  | some =>
    refine ⟨hp.1, ?_⟩
    intro c hc
    cases hc
    exact known_of_load h hload

theorem known_modelCurrent :
    (p.modelCurrent σ.store).claimed ≤ v.top ∧
      ∀ c, (p.modelCurrent σ.store).cache = some c → Known v c := by
  unfold Process.modelCurrent
  split
  · exact known_cache h hp
  · split_ifs
    · exact hp
    · exact known_cache h hp

theorem nextVersion_le {base : Cache} (hcache : p.cache = some base) :
    v.first < p.nextVersion ∧ p.nextVersion ≤ v.top + 1 := by
  have hknown := hp.2 base hcache
  have hcached : p.cachedVersion = base.version := by
    simp [Process.cachedVersion, hcache]
  have hfirst := hknown.first
  have hhead := hknown.head
  have hle := h.head_le
  have hclaimed := hp.1
  unfold Process.nextVersion
  omega

end

omit h in
theorem cache_reload (h : p.cache.isSome) :
    (p.reload s).cache.isSome := by
  unfold Process.reload
  split
  · exact h
  · rfl

theorem Inv.accept {attempt version : Nat} {base : Cache} (hat : σ.calls[i]? = some call)
    (hphase : call.phase = .claiming attempt base version change)
    (hclaim : σ.store.claim (change.revision version) = some s)
    (hnewest : ∀ r ∈ σ.store.versions, r.version ≤ base.version) :
    Inv studio o ⟨v.first, v.head, v.top + 1, change.next⟩
      { store := s
        replicas := Function.update σ.replicas call.replica (σ.replicas call.replica)
        calls := σ.calls.set i { call with phase := .writingTypes version change }
        accepted := σ.accepted ++ [(version, call.request)] } := by
  have hmem := mem_of_getElem? hat
  have hcall := h.calls call hmem
  rw [hphase] at hcall
  obtain ⟨hknown, hlt, hle, hedit⟩ := hcall
  obtain ⟨hunclaimed, rfl⟩ := claim_eq_some hclaim
  have hone := h.typed call hmem
  have hfirst_le := h.first_le
  have hhead_le := h.head_le
  -- the base is the newest claimed model, so its version has landed
  have hbase : base.version = v.top := by
    have hfirst := hknown.first
    have hhead := hknown.head
    rcases Nat.eq_or_lt_of_le (hfirst_le.trans hhead_le) with heq | htop
    · omega
    · obtain ⟨r, hr, hversion⟩ := isClaimed_iff.mp ((h.claimed v.top htop).mpr le_rfl)
      have := hnewest r hr
      omega
  have hversion : version = v.top + 1 := by
    have hnot : ¬ version ≤ v.top := by
      intro hle'
      have hclaimed := (h.claimed version hlt).mpr hle'
      rw [show version = (change.revision version).version from rfl, hunclaimed] at hclaimed
      cases hclaimed
    omega
  have hhead : v.head = v.top := by
    have := hknown.head
    omega
  have hdoc : base.ontology = v.doc := hknown.doc hbase
  rw [hdoc] at hedit
  have hwellFormed := h.wellFormed.of_keepsIds (EditRequest.keepsIds hone hedit)
  have hframes := EditRequest.frames hone hedit
  have hlater : v.top + 1 = v.top ∧ change.next = v.doc ∨ v.head < v.top + 1 := Or.inr (by omega)
  have hidle : (∀ other ∈ σ.calls, other.phase.isWriting = false) ∧ Stored σ.store v.doc := by
    cases h.landing with
    | landed hidle _ hstored => exact ⟨hidle, hstored⟩
    | types => omega
    | head => omega
  refine
    { serial := ?_
      wellFormed := hwellFormed
      versions := ?_
      top := ?_
      head := h.head
      first_le := hfirst_le
      head_le := hhead_le.trans (Nat.le_succ _)
      claimed := ?_
      replicas := ?_
      calls := ?_
      typed := forall_mem_set h.typed hone
      cached := ?_
      landing := ?_ }
  · rw [map_append]
    exact serial_append h.serial hedit
  · rw [map_append, h.versions, length_append, length_singleton,
      range'_concat, hversion, h.top]
    simp only [map_singleton, Nat.one_mul]
    congr 2
    omega
  · have htop := h.top
    rw [length_append, length_singleton]
    dsimp only
    omega
  · intro n hn
    have hiff := h.claimed n hn
    rw [isClaimed_iff] at hiff ⊢
    constructor
    · rintro ⟨r, hr, rfl⟩
      rcases mem_cons.mp hr with rfl | hr
      · exact hversion.le
      · exact (hiff.mp ⟨r, hr, rfl⟩).trans (Nat.le_succ _)
    · intro hle'
      rcases Nat.eq_or_lt_of_le hle' with heq | hlt'
      · exact ⟨_, mem_cons_self, hversion.trans heq.symm⟩
      · obtain ⟨r, hr, heq⟩ := hiff.mpr (by dsimp only at hlt'; omega)
        exact ⟨r, mem_cons_of_mem _ hr, heq⟩
  · rw [update_eq_self]
    intro r
    refine ⟨(h.replicas r).1.trans (Nat.le_succ _), ?_⟩
    intro c hc
    exact ((h.replicas r).2 c hc).later rfl le_rfl hlater
  · refine forall_mem_set ?_ (by simp [PhaseInv])
    intro other hother
    exact (h.calls other hother).later rfl le_rfl (Nat.le_succ _) hlater
      (fun a ha => mem_append_left _ ha)
  · rw [update_eq_self]
    exact forall_mem_set h.cached (by intro hread; cases hread)
  · refine .types i { call with phase := .writingTypes version change } change v.doc
      ?_ ?_ ?_ rfl ?_ hidle.2.types hframes ?_
    · rw [List.getElem?_set_self (List.getElem?_eq_some_iff.mp hat).1]
    · rw [hversion]
    · intro j other hj hwriting
      by_contra hne
      rw [getElem?_set_ne (Ne.symm hne)] at hj
      rw [hidle.1 other (mem_of_getElem? hj)] at hwriting
      cases hwriting
    · dsimp only
      omega
    · intro id hid
      exact hframes.touched id hid

omit h in
theorem Landing.of_writing
    (h : Landing v s calls) (hat : calls[i]? = some call) (hwriting : call.phase.isWriting = true) :
    v.head < v.top ∧
    (∀ (j : Nat) (other : EditCall), calls[j]? = some other →
      other.phase.isWriting = true → j = i) ∧
    ∃ change, change.next = v.doc ∧ (call.phase = .writingTypes v.top change ∧
          (∃ before, TypesHold s.types before ∧ change.Frames before) ∧
          (∀ id ∈ change.touched, change.next.hasEntity id = true) ∨
        call.phase = .writingHead v.top change ∧ TypesHold s.types v.doc) := by
  cases h with
  | landed hidle =>
    rw [hidle call (mem_of_getElem? hat)] at hwriting
    cases hwriting
  | types _ _ change before hk hphase honly hnext hlt hstored hframes hown =>
    obtain rfl := honly i call hat hwriting
    rw [hat] at hk
    obtain rfl := some.inj hk
    exact ⟨hlt, honly, change, hnext, Or.inl ⟨hphase, ⟨before, hstored, hframes⟩, hown⟩⟩
  | head _ _ change hk hphase honly hnext hlt hstored =>
    obtain rfl := honly i call hat hwriting
    rw [hat] at hk
    obtain rfl := some.inj hk
    exact ⟨hlt, honly, change, hnext, Or.inr ⟨hphase, hstored⟩⟩

theorem Inv.wroteTypes {version : Nat} (hat : σ.calls[i]? = some call)
    (hphase : call.phase = .writingTypes version change) :
    change.touched.find? (fun id => !change.next.hasEntity id) = none ∧
    Inv studio o v
      { store := σ.store.writeTypes change.next change.touched
        replicas := Function.update σ.replicas call.replica (σ.replicas call.replica)
        calls := σ.calls.set i { call with phase := .writingHead version change }
        accepted := σ.accepted } := by
  have hmem := mem_of_getElem? hat
  obtain ⟨hlt, honly, c, hnext, ⟨hc, ⟨before, hbefore, hframes⟩, hown⟩ | ⟨hc, _⟩⟩ :=
    h.landing.of_writing hat (by rw [hphase]; rfl)
  · rw [hphase] at hc
    obtain ⟨rfl, rfl⟩ := Phase.writingTypes.inj hc
    refine ⟨?_, ?_⟩
    · rw [find?_eq_none]
      intro id hid
      simp [hown id hid]
    · have hwellFormed : WellFormed change.next := by
        rw [hnext]
        exact h.wellFormed
      have htypes := typesHold_writeTypes (s := σ.store) hwellFormed hframes hbefore
      rw [update_eq_self]
      have hcall := h.calls call hmem
      rw [hphase] at hcall
      exact
        { h with
          calls := forall_mem_set h.calls hcall
          typed := forall_mem_set h.typed (h.typed call hmem)
          cached := forall_mem_set h.cached (by intro hread; cases hread)
          landing := by
            refine .head i { call with phase := .writingHead v.top change } change
              ?_ rfl ?_ hnext hlt ?_
            · rw [List.getElem?_set_self (List.getElem?_eq_some_iff.mp hat).1]
            · intro j other hj hwriting
              by_contra hne
              rw [getElem?_set_ne (Ne.symm hne)] at hj
              exact hne (honly j other hj hwriting)
            · rw [← hnext]
              exact htypes }
  · rw [hphase] at hc
    cases hc

theorem Inv.wroteHead {version : Nat} (hat : σ.calls[i]? = some call)
    (hphase : call.phase = .writingHead version change) :
    Inv studio o ⟨v.first, v.top, v.top, v.doc⟩
      { store := σ.store.writeModel change.next version
        replicas := Function.update σ.replicas call.replica (σ.replicas call.replica)
        calls := σ.calls.set i { call with phase := .adopting version change }
        accepted := σ.accepted } := by
  have hmem := mem_of_getElem? hat
  obtain ⟨hlt, honly, c, hnext, ⟨hc, _⟩ | ⟨hc, hstored⟩⟩ :=
    h.landing.of_writing hat (by rw [hphase]; rfl)
  · rw [hphase] at hc
    cases hc
  · rw [hphase] at hc
    obtain ⟨rfl, rfl⟩ := Phase.writingHead.inj hc
    have hcall := h.calls call hmem
    rw [hphase] at hcall
    have hfirst_le := h.first_le
    have hlater : v.top = v.top ∧ v.doc = v.doc ∨ v.head < v.top := Or.inl ⟨rfl, rfl⟩
    rw [update_eq_self]
    refine
      { h with
        head := rfl
        first_le := hfirst_le.trans hlt.le
        head_le := le_rfl
        replicas := ?_
        calls := ?_
        typed := forall_mem_set h.typed (h.typed call hmem)
        cached := forall_mem_set h.cached (by intro hread; cases hread)
        landing := ?_ }
    · intro r
      refine ⟨(h.replicas r).1, ?_⟩
      intro c hc
      exact ((h.replicas r).2 c hc).later rfl hlt.le hlater
    · refine forall_mem_set ?_ ⟨hcall, ?_⟩
      · intro other hother
        exact (h.calls other hother).later rfl hlt.le le_rfl hlater (fun a ha => ha)
      · exact ⟨hfirst_le.trans hlt.le, le_rfl, fun _ => hnext⟩
    · refine .landed ?_ rfl ⟨?_, ?_, hstored⟩
      · intro other hother
        rw [Bool.eq_false_iff]
        intro hwriting
        obtain ⟨j, hj⟩ := mem_iff_getElem?.mp hother
        by_cases hji : i = j
        · subst hji
          rw [List.getElem?_set_self (List.getElem?_eq_some_iff.mp hat).1] at hj
          rw [← some.inj hj] at hwriting
          cases hwriting
        · rw [getElem?_set_ne hji] at hj
          exact hji (honly j other hj hwriting).symm
      · rw [← hnext]
        rfl
      · rw [← hnext]
        rfl

end

/-- An accepted claim comes from the newest claimed model. -/
def fromNewest (σ : System) : Action → Bool
  | .call i =>
    match (σ.calls[i]?).map EditCall.phase with
    | some (.claiming _ base version _) =>
      σ.store.isClaimed version || σ.store.versions.all fun r => decide (r.version ≤ base.version)
    | _ => true
  | _ => true

theorem Inv.callQuiet
    (h : Inv studio o v σ) (hat : σ.calls[i]? = some call) (hold : call.phase.isWriting = false)
    (hnew : phase.isWriting = false) (hphase : PhaseInv studio v σ.accepted call.request phase)
    (hp : p.claimed ≤ v.top ∧ ∀ c, p.cache = some c → Known v c)
    (hkeeps : (σ.replicas call.replica).cache.isSome → p.cache.isSome)
    (hread : phase.hasRead = true → p.cache.isSome) :
    Inv studio o v
      { store := σ.store
        replicas := Function.update σ.replicas call.replica p
        calls := σ.calls.set i { call with phase := phase }
        accepted := σ.accepted ++ ((newlyAccepted call.phase phase).map fun version =>
            (version, call.request)).toList } := by
  have hnone : newlyAccepted call.phase phase = none := by
    unfold newlyAccepted
    split
    · cases hnew
    · rfl
  rw [hnone, map_none, toList_none, append_nil]
  exact h.quiet hat hold hnew hphase hp hkeeps hread

theorem Inv.callStep
    (h : Inv studio o v σ) (hat : σ.calls[i]? = some call) (hnewest : fromNewest σ (.call i) = true)
    (hstep : callStep (call.request.edit studio) (σ.replicas call.replica) σ.store
      call.phase = some (phase, p, s)) :
    ∃ w, Inv studio o w
      { store := s
        replicas := Function.update σ.replicas call.replica p
        calls := σ.calls.set i { call with phase := phase }
        accepted := σ.accepted ++ ((newlyAccepted call.phase phase).map fun version =>
            (version, call.request)).toList } := by
  have hmem := mem_of_getElem? hat
  have hcall := h.calls call hmem
  have hreplica := h.replicas call.replica
  have hcached := h.cached call hmem
  cases hphase : call.phase with
  | reading =>
    rw [hphase] at hstep
    simp only [DomainModel.callStep] at hstep
    split at hstep
    · next base hbase =>
      cases hstep
      rw [← hphase]
      exact ⟨v, h.callQuiet hat (by rw [hphase]; rfl) rfl (hreplica.2 base hbase)
        hreplica (fun hc => hc) (fun _ => by simp [hbase])⟩
    · split at hstep
      · next _ hload =>
        cases hstep
        have hknown := known_of_load h hload
        rw [← hphase]
        exact ⟨v, h.callQuiet hat (by rw [hphase]; rfl) rfl hknown
          ⟨hreplica.1, fun c hc => by cases hc; exact hknown⟩ (fun _ => rfl) (fun _ => rfl)⟩
      · cases hstep
        rw [← hphase]
        exact ⟨v, h.callQuiet hat (by rw [hphase]; rfl) rfl trivial hreplica
          (fun hc => hc) (by intro hread; cases hread)⟩
  | checking =>
    rw [hphase] at hstep hcall hcached
    have hsome := hcached rfl
    simp only [DomainModel.callStep] at hstep
    split_ifs at hstep
    · cases hstep
      rw [← hphase]
      exact ⟨v, h.callQuiet hat (by rw [hphase]; rfl) rfl hcall hreplica
        (fun hc => hc) (fun _ => hsome)⟩
    · split at hstep
      · next _ hload =>
        cases hstep
        have hknown := known_of_load h hload
        rw [← hphase]
        exact ⟨v, h.callQuiet hat (by rw [hphase]; rfl) rfl hknown
          ⟨hreplica.1, fun c hc => by cases hc; exact hknown⟩ (fun _ => rfl) (fun _ => rfl)⟩
      · cases hstep
        obtain ⟨c, hc⟩ := isSome_iff_exists.mp hsome
        rw [← hphase, hc, getD_some]
        exact ⟨v, h.callQuiet hat (by rw [hphase]; rfl) rfl (hreplica.2 c hc) hreplica
          (fun hc => hc) (fun _ => hsome)⟩
  | numbering n =>
    rw [hphase] at hstep hcall hcached
    obtain ⟨c, hc⟩ := isSome_iff_exists.mp (hcached rfl)
    simp only [DomainModel.callStep] at hstep
    split at hstep
    · cases hstep
      rw [← hphase]
      exact ⟨v, h.callQuiet hat (by rw [hphase]; rfl) rfl trivial hreplica
        (fun hc => hc) (by intro hread; cases hread)⟩
    · cases hstep
      rw [← hphase]
      exact ⟨v, h.callQuiet hat (by rw [hphase]; rfl) rfl (by intro n hn; cases hn) hreplica
        (fun hc => hc) (by intro hread; cases hread)⟩
    · next _ hedit =>
      cases hstep
      have hversion := nextVersion_le h hreplica hc
      rw [← hphase]
      exact ⟨v, h.callQuiet hat (by rw [hphase]; rfl) rfl
        ⟨hcall, hversion.1, hversion.2, hedit⟩ hreplica
        (fun hc => hc) (by intro hread; cases hread)⟩
  | claiming _ base version change =>
    rw [hphase] at hstep
    simp only [DomainModel.callStep] at hstep
    split at hstep
    · cases hstep
      rw [← hphase]
      exact ⟨v, h.callQuiet hat (by rw [hphase]; rfl) rfl trivial hreplica
        (fun hc => hc) (by intro hread; cases hread)⟩
    · next _ hclaim =>
      cases hstep
      have hunclaimed := (claim_eq_some hclaim).1
      have hbase : ∀ r ∈ σ.store.versions, r.version ≤ base.version := by
        have hversion : (change.revision version).version = version := rfl
        rw [hversion] at hunclaimed
        simpa [fromNewest, hat, hphase, hunclaimed] using hnewest
      exact ⟨⟨v.first, v.head, v.top + 1, change.next⟩, h.accept hat hphase hclaim hbase⟩
  | noting =>
    rw [hphase] at hstep
    simp only [DomainModel.callStep] at hstep
    cases hstep
    rw [← hphase]
    exact ⟨v, h.callQuiet hat (by rw [hphase]; rfl) rfl trivial
      ⟨max_le hreplica.1 (topVersion_le h), hreplica.2⟩
      (fun hc => hc) (by intro hread; cases hread)⟩
  | reloading =>
    rw [hphase] at hstep
    simp only [DomainModel.callStep] at hstep
    cases hstep
    rw [← hphase]
    refine ⟨v, h.callQuiet hat (by rw [hphase]; rfl) ?_ ?_ (known_cache h hreplica) cache_reload ?_⟩
    · split_ifs <;> rfl
    · split_ifs <;> trivial
    · intro hread
      split_ifs at hread <;> cases hread
  | writingTypes =>
    obtain ⟨hnone, hinv⟩ := h.wroteTypes hat hphase
    rw [hphase] at hstep
    simp only [DomainModel.callStep, hnone] at hstep
    cases hstep
    exact ⟨v, by simpa [newlyAccepted] using hinv⟩
  | writingHead =>
    have hinv := h.wroteHead hat hphase
    rw [hphase] at hstep
    simp only [DomainModel.callStep] at hstep
    cases hstep
    exact ⟨⟨v.first, v.top, v.top, v.doc⟩, by simpa [newlyAccepted] using hinv⟩
  | adopting =>
    rw [hphase] at hstep hcall
    simp only [DomainModel.callStep] at hstep
    cases hstep
    rw [← hphase]
    refine ⟨v, h.callQuiet hat (by rw [hphase]; rfl) rfl ?_ ?_ ?_ (by intro hread; cases hread)⟩
    · intro n hn
      cases hn
      exact hcall.1
    · split_ifs
      · refine ⟨hreplica.1, ?_⟩
        intro c hc
        cases hc
        exact hcall.2
      · exact hreplica
    · intro hc
      rw [if_pos hc]
      rfl
  | returned =>
    rw [hphase] at hstep
    cases hstep
  | failed =>
    rw [hphase] at hstep
    cases hstep

/-- **Every step whose claim comes from the newest model keeps the invariant.** -/
theorem Inv.step {a : Action} (h : Inv studio o v σ) (hnewest : fromNewest σ a = true)
    (hstep : step studio σ a = some τ) : ∃ w, Inv studio o w τ := by
  cases a with
  | start =>
    simp only [DomainModel.step] at hstep
    split_ifs at hstep with hone
    cases hstep
    refine ⟨v, { h with
      calls := ?_
      typed := ?_
      cached := ?_
      landing := h.landing.append rfl }⟩
    · intro call hcall
      rcases mem_append.mp hcall with hcall | hcall
      · exact h.calls call hcall
      · rw [mem_singleton.mp hcall]
        trivial
    · intro call hcall
      rcases mem_append.mp hcall with hcall | hcall
      · exact h.typed call hcall
      · rw [mem_singleton.mp hcall]
        exact hone
    · intro call hcall hread
      rcases mem_append.mp hcall with hcall | hcall
      · exact h.cached call hcall hread
      · rw [mem_singleton.mp hcall] at hread
        cases hread
  | recheck replica =>
    simp only [DomainModel.step] at hstep
    cases hstep
    refine ⟨v, { h with
      replicas := forall_replicas_update h.replicas (known_modelCurrent h (h.replicas replica))
      cached := cached_update h.cached ?_ }⟩
    intro hc
    unfold Process.modelCurrent
    split
    · exact cache_reload hc
    · split_ifs
      · exact hc
      · exact cache_reload hc
  | call =>
    simp only [DomainModel.step] at hstep
    split at hstep
    · cases hstep
    · next _ hat =>
      split at hstep
      · cases hstep
      · next _ _ _ hcallStep =>
        cases hstep
        exact h.callStep hat hnewest hcallStep

end Invariant

section Runs

/-- A stored model before any of the edits: its history ends at its head, and no
replica knows more. -/
structure Begins (o : Ontology) (σ : System) : Prop where
  wellFormed : WellFormed o
  stored : Stored σ.store o
  versions : ∀ r ∈ σ.store.versions, r.version ≤ σ.store.model.version
  claimed : ∀ r, (σ.replicas r).claimed ≤ σ.store.model.version
  cache : ∀ r c, (σ.replicas r).cache = some c → c = ⟨o, σ.store.model.version⟩
  calls : σ.calls = []
  accepted : σ.accepted = []

def Phase.isDone : Phase → Bool
  | .returned _ => true
  | .failed _ => true
  | _ => false

/-- The stored model is what the accepted edits give one after the other, in the order
of their versions, and its head is the highest claimed one. -/
structure NothingLost (studio o : Ontology) (τ : System) (doc : Ontology) : Prop where
  load : τ.store.load = some ⟨doc, τ.store.model.version⟩
  serial : serial studio o (τ.accepted.map Prod.snd) = some doc
  order : (τ.accepted.map Prod.fst).Pairwise (· < ·)
  highest : ∀ r ∈ τ.store.versions, r.version ≤ τ.store.model.version
  claimed : τ.accepted = [] ∨ τ.store.isClaimed τ.store.model.version = true
  returned : ∀ call ∈ τ.calls, ∀ n, call.phase = .returned (some n) → (n, call.request) ∈ τ.accepted

variable {studio o : Ontology} {σ τ : System} {actions : List Action}

theorem Begins.inv (h : Begins o σ) :
    Inv studio o ⟨σ.store.model.version, σ.store.model.version, σ.store.model.version, o⟩ σ := by
  refine
    { serial := by rw [h.accepted]; rfl
      wellFormed := h.wellFormed
      versions := by rw [h.accepted]; rfl
      top := by rw [h.accepted]; rfl
      head := rfl
      first_le := le_rfl
      head_le := le_rfl
      claimed := ?_
      replicas := ?_
      calls := by rw [h.calls]; intro _ hmem; cases hmem
      typed := by rw [h.calls]; intro _ hmem; cases hmem
      cached := by rw [h.calls]; intro _ hmem; cases hmem
      landing := .landed (by rw [h.calls]; intro _ hmem; cases hmem) rfl h.stored }
  · intro n hn
    rw [isClaimed_iff]
    constructor
    · rintro ⟨r, hr, rfl⟩
      exact h.versions r hr
    · intro hle
      dsimp only at hn hle
      omega
  · intro r
    refine ⟨h.claimed r, ?_⟩
    intro c hc
    rw [h.cache r c hc]
    exact ⟨le_rfl, le_rfl, fun _ => rfl⟩

theorem Inv.nothingLost {v : View} (h : Inv studio o v τ)
    (hdone : ∀ call ∈ τ.calls, call.phase.isDone = true) : NothingLost studio o τ v.doc := by
  have hlanded : v.head = v.top ∧ Stored τ.store v.doc := by
    cases h.landing with
    | landed _ hhead hstored => exact ⟨hhead, hstored⟩
    | types _ call _ _ hat hphase =>
      have := hdone call (mem_of_getElem? hat)
      rw [hphase] at this
      cases this
    | head _ call _ hat hphase =>
      have := hdone call (mem_of_getElem? hat)
      rw [hphase] at this
      cases this
  have hhead : τ.store.model.version = v.top := by
    rw [← h.head]
    exact hlanded.1
  refine
    { load := load_of_stored h.wellFormed hlanded.2
      serial := h.serial
      order := by rw [h.versions]; exact pairwise_lt_range'
      highest := ?_
      claimed := ?_
      returned := ?_ }
  · intro r hr
    rw [hhead]
    rcases Nat.lt_or_ge v.first r.version with hlt | hge
    · exact (h.claimed r.version hlt).mp (isClaimed_iff.mpr ⟨r, hr, rfl⟩)
    · exact hge.trans (h.first_le.trans h.head_le)
  · cases haccepted : τ.accepted with
    | nil => exact Or.inl rfl
    | cons =>
      have htop := h.top
      rw [haccepted, length_cons] at htop
      rw [hhead]
      exact Or.inr ((h.claimed v.top (by omega)).mpr le_rfl)
  · intro call hcall n hphase
    have hinv := h.calls call hcall
    rw [hphase] at hinv
    exact hinv n rfl

/-- **No edit is lost**, in a run in which every accepted claim comes from the newest
claimed model. -/
theorem no_edit_is_lost (studio o : Ontology) (σ τ : System) (actions : List Action)
    (hbegins : Begins o σ)
    (hnewest : EveryStep (step studio) (fun σ a _ => fromNewest σ a = true) σ actions)
    (hrun : runActions (step studio) σ actions = some τ)
    (hdone : ∀ call ∈ τ.calls, call.phase.isDone = true) : ∃ doc, NothingLost studio o τ doc := by
  have hpres : ∀ s a t, (∃ v, Inv studio o v s) → step studio s a = some t →
      fromNewest s a = true → ∃ v, Inv studio o v t := by
    rintro s a t ⟨v, hv⟩ hstep hadm
    exact hv.step hadm hstep
  have hinv := runActions_invariant hpres ⟨_, hbegins.inv⟩ hnewest hrun
  obtain ⟨v, hv⟩ := hinv
  exact ⟨v.doc, hv.nothingLost hdone⟩

private def bareTeam : Json :=
  Json.object [("id", .str "team"), ("properties", .arr [])]

private def oneType : Ontology :=
  ⟨[], [bareTeam]⟩

private def stored : System :=
  { store :=
      { model := ⟨[], 0, ["team"]⟩
        types := fun id => if id = "team" then some bareTeam else none
        versions := [⟨0, "seed", "", "model stored, 1 entities", [], []⟩] }
    replicas := fun _ => ⟨none, 0⟩
    calls := []
    accepted := [] }

private theorem stored_begins : Begins oneType stored := by
  refine
    { wellFormed := ⟨by decide, by decide +kernel, by decide +kernel⟩
      stored := ⟨rfl, by decide +kernel, ?_⟩
      versions := by decide
      claimed := fun _ => le_rfl
      cache := by intro r c hc; cases hc
      calls := rfl
      accepted := rfl }
  intro e he id hid
  rw [mem_singleton.mp he] at hid ⊢
  have hteam : idOf bareTeam = some "team" := by decide +kernel
  rw [hteam] at hid
  rw [← some.inj hid]
  rfl

private def addLead : EditRequest := .addField "team" ⟨"lead", "string", none, false⟩

private def addSize : EditRequest := .addField "team" ⟨"size", "number", none, false⟩

/-- Two edits start. The first claims version 1 and waits; the second is refused, takes
version 2 on the model that it still finds, and writes; then the first writes. -/
private def lateWrite : List Action :=
  [.start 0 addLead, .start 1 addSize] ++ List.replicate 4 (.call 0) ++
    List.replicate 13 (.call 1) ++ List.replicate 3 (.call 0)

/-- Both edits return Ok, the head is 1 while 2 is claimed, and `size` is not in the
stored model. -/
theorem late_write_loses_an_edit :
    Begins oneType stored ∧ ∃ τ, runActions (step oneType) stored lateWrite = some τ ∧
        (∀ call ∈ τ.calls, call.phase.isDone = true) ∧
        τ.calls.map (fun call => match call.phase with
          | .returned version => version
          | _ => none) = [some 1, some 2] ∧
        (τ.store.types "team").map (fun e => ((properties e).getD []).map nameOf) =
          some [some "lead"] ∧
        ¬ ∃ doc, NothingLost oneType oneType τ doc := by
  refine ⟨stored_begins, ?_⟩
  have hrun : (runActions (step oneType) stored lateWrite).any (fun τ =>
      decide (∀ call ∈ τ.calls, call.phase.isDone = true) &&
        decide (τ.calls.map (fun call => match call.phase with
          | .returned version => version
          | _ => none) = [some 1, some 2]) &&
        decide ((τ.store.types "team").map (fun e => ((properties e).getD []).map nameOf) =
          some [some "lead"]) &&
        τ.store.isClaimed 2 && decide (τ.store.model.version = 1)) = true := by
    decide +kernel
  cases hτ : runActions (step oneType) stored lateWrite with
  | none =>
    rw [hτ] at hrun
    cases hrun
  | some τ =>
    rw [hτ] at hrun
    simp only [any_some, Bool.and_eq_true, decide_eq_true_eq] at hrun
    obtain ⟨⟨⟨⟨hdone, hversions⟩, hfields⟩, hclaimed⟩, hhead⟩ := hrun
    refine ⟨τ, rfl, hdone, hversions, hfields, ?_⟩
    rintro ⟨doc, hlost⟩
    obtain ⟨r, hr, hversion⟩ := isClaimed_iff.mp hclaimed
    have := hlost.highest r hr
    omega

/-- The second edit is refused once and starts again from the first one's model. -/
private def inTurn : List Action :=
  [.start 0 addLead, .start 1 addSize, .call 1, .call 1, .call 1] ++
    List.replicate 7 (.call 0) ++ List.replicate 10 (.call 1)

theorem edits_in_turn_are_kept :
    ∃ τ, runActions (step oneType) stored inTurn = some τ ∧
      ∃ doc, NothingLost oneType oneType τ doc := by
  have hrun : (runActions (step oneType) stored inTurn).any (fun τ =>
      decide (∀ call ∈ τ.calls, call.phase.isDone = true)) = true := by
    decide +kernel
  cases hτ : runActions (step oneType) stored inTurn with
  | none =>
    rw [hτ] at hrun
    cases hrun
  | some τ =>
    rw [hτ] at hrun
    simp only [any_some, decide_eq_true_eq] at hrun
    have hnewest : EveryStep (step oneType) (fun σ a _ => fromNewest σ a = true) stored
        inTurn := by
      decide +kernel
    exact ⟨τ, rfl, no_edit_is_lost oneType oneType stored τ inTurn stored_begins hnewest hτ hrun⟩

end Runs

end DomainModel
end StudioWeb
