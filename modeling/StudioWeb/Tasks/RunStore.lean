import StudioWeb.Scheduler.TaskQueue

/-!
# The run table with its unique key

The statements that `TaskService` sends to `studio_tasks_runs`, each on the whole
table: the lookups of an enqueue, the guarded attach of a key, the insert, and
the updates of a delivery, of a cancel and of a retry.  The table refuses a
second row of a tenant with one idempotency key, so its rows carry that as a
field.

A query without an order answers its rows in any order; the statement that needs
one takes it as an argument.
-/

namespace StudioWeb
namespace Tasks

open Scheduler JsonText List

/-- The unique index on `(tenant_id, idempotency_key)`. -/
def KeysUnique (rows : List Run) : Prop :=
  ∀ r ∈ rows, ∀ s ∈ rows, r.tenantId = s.tenantId →
    ∀ key, r.idempotencyKey = some key → s.idempotencyKey = some key → r.id = s.id

structure RunStore extends RunTable where
  keys_unique : KeysUnique rows

structure EnqueueRequest extends NewRun where
  coalesceQueued : Bool

namespace EnqueueRequest

def key (request : EnqueueRequest) : Option String := trimmedNonempty request.idempotencyKey

def trimmedType (request : EnqueueRequest) : String :=
  String.ofList (Rust.trim request.taskType.toList)

end EnqueueRequest

/-- A run that a request may join: it has not started, nobody asked to cancel it,
and it is the work that is asked for. -/
def WaitsFor (request : EnqueueRequest) (r : Run) : Prop :=
  r.tenantId = request.tenant ∧ r.taskType = request.trimmedType ∧
    r.partitionKey.isSome ∧ r.partitionKey = trimmedNonempty request.partitionKey ∧
    r.state = .queued ∧ r.cancelRequested = false ∧ r.payload = request.payload

instance (request : EnqueueRequest) (r : Run) : Decidable (WaitsFor request r) :=
  inferInstanceAs (Decidable (_ ∧ _))

/-- `find_waiting` over the rows in the order the query answers them: a run
without a key first. -/
def findWaiting (request : EnqueueRequest) (rows : List Run) : Option Run :=
  let waiting := rows.filter (fun r => decide (WaitsFor request r))
  (waiting.find? (fun r => r.idempotencyKey.isNone)).or waiting.head?

theorem findWaiting_eq_some {request : EnqueueRequest} {rows : List Run} {r : Run}
    (h : findWaiting request rows = some r) : r ∈ rows ∧ WaitsFor request r := by
  have hmem : r ∈ rows.filter (fun r => decide (WaitsFor request r)) := by
    simp only [findWaiting, Option.or_eq_some_iff] at h
    rcases h with hfirst | ⟨_, hhead⟩
    · exact mem_of_find?_eq_some hfirst
    · exact mem_of_mem_head? hhead
  simpa using hmem

namespace RunStore

variable {store : RunStore}

def find (store : RunStore) (tenant : Uuid) (key : String) : Option Run :=
  store.findByIdempotencyKey tenant key

variable {key : String}

theorem find_eq_some {tenant : Uuid} {r : Run} (h : store.find tenant key = some r) :
    r ∈ store.rows ∧ r.tenantId = tenant ∧ r.idempotencyKey = some key := by
  have hpred := find?_some h
  simp only [decide_eq_true_eq] at hpred
  exact ⟨mem_of_find?_eq_some h, hpred⟩

theorem find_eq_none {tenant : Uuid} (h : store.find tenant key = none) :
    ∀ r ∈ store.rows, r.tenantId = tenant → r.idempotencyKey ≠ some key := by
  intro r hr htenant hkey
  have hnone := find?_eq_none.mp h r hr
  simp [htenant, hkey] at hnone

def inOrder (store : RunStore) (order : List Uuid) : List Run :=
  order.filterMap fun id => store.rows.find? (fun r => r.id = id)

theorem mem_of_mem_inOrder {order : List Uuid} {r : Run} (h : r ∈ store.inOrder order) :
    r ∈ store.rows := by
  obtain ⟨id, _, hfind⟩ := mem_filterMap.mp h
  exact mem_of_find?_eq_some hfind

/-- An update that leaves the ids, the tenants and the keys of the rows alone. -/
def touch (store : RunStore) (f : Run → Run)
    (hf : ∀ r, (f r).id = r.id ∧ (f r).tenantId = r.tenantId ∧
      (f r).idempotencyKey = r.idempotencyKey) : RunStore :=
  { toRunTable := store.toRunTable.update f (fun r => (hf r).1)
    keys_unique := by
      intro r hr s hs htenant key hkey hkey'
      obtain ⟨r₀, hr₀, rfl⟩ := mem_map.mp hr
      obtain ⟨s₀, hs₀, rfl⟩ := mem_map.mp hs
      rw [(hf r₀).1, (hf s₀).1]
      rw [(hf r₀).2.1, (hf s₀).2.1] at htenant
      rw [(hf r₀).2.2] at hkey
      rw [(hf s₀).2.2] at hkey'
      exact store.keys_unique r₀ hr₀ s₀ hs₀ htenant key hkey hkey' }

def deliver (store : RunStore) (id : Uuid) (state : RunState) : RunStore :=
  store.touch (fun r => if r.id = id ∧ !r.state.isTerminal then { r with state := state } else r)
    (fun r => by split <;> exact ⟨rfl, rfl, rfl⟩)

/-- The update of `cancel`; the state it read before may be an old one. -/
def requestCancel (store : RunStore) (tenant id : Uuid) : RunStore :=
  store.touch (fun r =>
      if r.id = id ∧ r.tenantId = tenant then { r with cancelRequested := true } else r)
    (fun r => by split <;> exact ⟨rfl, rfl, rfl⟩)

/-- The update of `retry`. -/
def requeue (store : RunStore) (tenant id : Uuid) : RunStore :=
  store.touch (fun r =>
      if r.id = id ∧ r.tenantId = tenant then
        { r with state := .queued, cancelRequested := false }
      else
        r)
    (fun r => by split <;> exact ⟨rfl, rfl, rfl⟩)

def insertRow (store : RunStore) (r : Run) : Option RunStore :=
  if hid : r.id ∈ store.rows.map Run.id then
    none
  else if hkey : ∃ s ∈ store.rows, s.tenantId = r.tenantId ∧
      s.idempotencyKey.isSome ∧ s.idempotencyKey = r.idempotencyKey then
    none
  else
    some
      { rows := store.rows ++ [r]
        ids_nodup := by
          rw [map_append]
          exact nodup_append.mpr ⟨store.ids_nodup, nodup_singleton _, fun a ha b hb hab =>
              hid (by rw [mem_singleton.mp hb] at hab; exact hab ▸ ha)⟩
        keys_unique := by
          have hfree : ∀ s ∈ store.rows, s.tenantId = r.tenantId →
              ∀ key, s.idempotencyKey = some key → r.idempotencyKey ≠ some key := by
            intro s hs htenant key hs_key hr_key
            exact hkey ⟨s, hs, htenant, by rw [hs_key]; rfl, hs_key.trans hr_key.symm⟩
          intro a ha b hb htenant key hka hkb
          rcases mem_append.mp ha with ha | ha <;>
            rcases mem_append.mp hb with hb | hb
          · exact store.keys_unique a ha b hb htenant key hka hkb
          · cases mem_singleton.mp hb
            exact absurd hkb (hfree a ha htenant key hka)
          · cases mem_singleton.mp ha
            exact absurd hka (hfree b hb htenant.symm key hkb)
          · cases mem_singleton.mp ha
            cases mem_singleton.mp hb
            rfl }

theorem insertRow_eq_some {r : Run} {after : RunStore} (h : store.insertRow r = some after) :
    after.rows = store.rows ++ [r] := by
  unfold insertRow at h
  split_ifs at h
  cases h
  rfl

/-- Whether the row is the one an attach changes: it has no key yet. -/
def Attachable (tenant id : Uuid) (r : Run) : Prop :=
  r.tenantId = tenant ∧ r.id = id ∧ r.idempotencyKey = none

instance (tenant id : Uuid) (r : Run) : Decidable (Attachable tenant id r) :=
  inferInstanceAs (Decidable (_ ∧ _))

/-- The update of `attach_key`: how many rows it changed, or the refusal of the
unique index. -/
def attachKey (store : RunStore) (tenant id : Uuid) (key : String) : Option (RunStore × Nat) :=
  if store.rows.any (fun r => decide (Attachable tenant id r)) then
    if hheld : store.find tenant key = none then
      some
        ({ toRunTable := store.toRunTable.update (fun r =>
               if Attachable tenant id r then
                 { r with idempotencyKey := some key }
               else
                 r)
             (fun r => by split <;> rfl)
           keys_unique := by
             have hfree := find_eq_none hheld
             intro a ha b hb htenant k hka hkb
             obtain ⟨a₀, ha₀, rfl⟩ := mem_map.mp ha
             obtain ⟨b₀, hb₀, rfl⟩ := mem_map.mp hb
             by_cases hxa : Attachable tenant id a₀ <;>
               by_cases hxb : Attachable tenant id b₀
             · simp only [if_pos hxa, if_pos hxb]
               exact hxa.2.1.trans hxb.2.1.symm
             · simp only [if_pos hxa, if_neg hxb] at htenant hka hkb
               cases hka
               exact absurd hkb (hfree b₀ hb₀ (htenant.symm.trans hxa.1))
             · simp only [if_neg hxa, if_pos hxb] at htenant hka hkb
               cases hkb
               exact absurd hka (hfree a₀ ha₀ (htenant.trans hxb.1))
             · simp only [if_neg hxa, if_neg hxb] at htenant hka hkb ⊢
               exact store.keys_unique a₀ ha₀ b₀ hb₀ htenant k hka hkb }, 1)
    else
      none
  else
    some (store, 0)

theorem attachKey_eq_some {tenant id : Uuid} {after : RunStore} {changed : Nat}
    (h : store.attachKey tenant id key = some (after, changed)) :
    (changed = 0 ∧ after = store) ∨ (changed = 1 ∧ after.rows = store.rows.map (fun r =>
          if Attachable tenant id r then { r with idempotencyKey := some key } else r) ∧
        ∃ r ∈ store.rows, Attachable tenant id r) := by
  unfold attachKey at h
  split_ifs at h with hany hheld
  · cases h
    obtain ⟨r, hr, hat⟩ := any_eq_true.mp hany
    exact Or.inr ⟨rfl, rfl, r, hr, by simpa using hat⟩
  · cases h
    exact Or.inl ⟨rfl, rfl⟩

def Keeps (before after : RunStore) : Prop :=
  ∀ r ∈ before.rows, ∀ key, r.idempotencyKey = some key →
    ∃ s ∈ after.rows, s.id = r.id ∧ s.tenantId = r.tenantId ∧ s.idempotencyKey = some key

theorem Keeps.refl (store : RunStore) : Keeps store store :=
  fun r hr _ hkey => ⟨r, hr, rfl, rfl, hkey⟩

theorem keeps_touch (f : Run → Run) {hf} : Keeps store (store.touch f hf) := by
  intro r hr key hkey
  obtain ⟨hid, htenant, hsame⟩ := hf r
  exact ⟨f r, mem_map_of_mem hr, hid, htenant, hsame.trans hkey⟩

theorem keeps_insertRow {r : Run} {after : RunStore} (h : store.insertRow r = some after) :
    Keeps store after := by
  intro s hs key hkey
  refine ⟨s, ?_, rfl, rfl, hkey⟩
  rw [insertRow_eq_some h]
  exact mem_append_left _ hs

theorem keeps_attachKey {tenant id : Uuid} {key : String} {after : RunStore} {changed : Nat}
    (h : store.attachKey tenant id key = some (after, changed)) : Keeps store after := by
  rcases attachKey_eq_some h with ⟨_, rfl⟩ | ⟨_, hrows, _⟩
  · exact .refl _
  · intro r hr k hkey
    have hnot : ¬ Attachable tenant id r := by
      intro hat
      rw [hat.2.2] at hkey
      cases hkey
    refine ⟨r, ?_, rfl, rfl, hkey⟩
    rw [hrows]
    exact mem_map.mpr ⟨r, hr, if_neg hnot⟩

end RunStore

end Tasks
end StudioWeb
