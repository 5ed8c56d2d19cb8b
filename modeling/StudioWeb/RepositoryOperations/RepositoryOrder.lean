import StudioWeb.RepositoryOperations.ServedRepositories

/-!
# Exclusion, order and keys of the repository operation queue
-/

namespace StudioWeb
namespace RepositoryOperations

open LabelledRuns ServedQueue List QueueState

variable {max : Nat} {s t : QueueState}

section Start

theorem QueueInv.accept {repositoryId : String} {operation : StudioOperationSnapshot}
    (h : QueueInv max s) (hknown : (s.journal.operations.get? operation.operationId).isSome = true)
    (hfresh : ∀ r e, (r, e) ∈ s.history → e.element ≠ operation.operationId)
    (henqueuing : s.enqueuing = none) :
    QueueInv max (s.push repositoryId .accepted operation) := by
  have hloops : LoopsOk max (s.push repositoryId .accepted operation) := h.loops.of_same rfl rfl rfl
  have hset : KeysOk (s.setPending repositoryId (s.pending repositoryId ++ [operation])) :=
    h.keys.of_same rfl rfl (Or.inl rfl) rfl
  refine ⟨hloops, headsOk_push h.heads, keysOk_note hset hknown ?_, ?_⟩
  · intro scope queued he
    change s.enqueuing = _ at he
    rw [henqueuing] at he
    cases he
  · refine h.served.advances h.loops (advances_push ?_)
    intro phase
    refine Step.accept operation.operationId ?_
    exact fun e he => hfresh repositoryId e (mem_log.mp he)

theorem queueInv_foldlM (operations : List StudioOperationSnapshot) (h : QueueInv max s)
    (hknown : ∀ o ∈ operations, (s.journal.operations.get? o.operationId).isSome = true)
    (hnodup : (operations.map fun o => o.operationId).Nodup)
    (hfresh : ∀ o ∈ operations, ∀ r e, (r, e) ∈ s.history → e.element ≠ o.operationId)
    (henqueuing : s.enqueuing = none) (hfold : operations.foldlM
      (fun (s : QueueState) operation => s.queueOperation .accepted operation) s = .ok t) :
    QueueInv max t := by
  induction operations generalizing s with
  | nil =>
    cases hfold
    exact h
  | cons o _ ih =>
    rw [foldlM_cons] at hfold
    rw [map_cons, nodup_cons] at hnodup
    cases hrepository : requireRepositoryId o with
    | error =>
      rw [queueOperation_of_error hrepository] at hfold
      cases hfold
    | ok =>
      rw [queueOperation_of_ok hrepository] at hfold
      refine ih (h.accept (hknown o mem_cons_self) (hfresh o mem_cons_self)
        henqueuing) ?_ hnodup.2 ?_ henqueuing hfold
      · exact fun o' ho' => hknown o' (mem_cons_of_mem _ ho')
      · intro o' ho' r e hmem
        rcases mem_append.mp hmem with hold | hlast
        · exact hfresh o' (mem_cons_of_mem _ ho') r e hold
        · cases mem_singleton.mp hlast
          intro hid
          change o.operationId = o'.operationId at hid
          refine hnodup.1 ?_
          rw [hid]
          exact mem_map_of_mem (f := fun o => o.operationId) ho'

theorem queueInv_ofJournal (journal : OperationJournal) :
    QueueInv max (ofJournal journal) := by
  refine ⟨⟨nodup_nil, Nat.zero_le _, ?_, ?_, ?_⟩, ?_, ⟨?_, ?_, ?_, ?_, ?_, ?_⟩, ?_⟩
  · intro i l hl
    cases hl
  · intro i l hl
    cases hl
  · intro i j l l' hl
    cases hl
  · intro i l run hl
    cases hl
  · intro r e he
    cases he
  · intro scope id he
    cases he
  · intro scope queued he
    cases he
  · intro scope queued he
    cases he
  · intro scope queued he
    cases he
  · intro scope response he
    cases he
  · intro r phase hphase
    have hwaiting : phase = .waiting := hphase.idle fun i l hl => by cases hl
    rw [hwaiting]
    exact inv_empty

variable {journal : OperationJournal}

theorem mem_replayed {o : StudioOperationSnapshot}
    (h : o ∈ replayed journal) : journal.operations.get? o.operationId = some o := by
  rw [replayed, mem_mergeSort, mem_filter,
    OperationJournal.getCurrentOperations, mem_mergeSort,
    InsertionMap.mem_values_iff] at h
  obtain ⟨⟨id, hget⟩, _⟩ := h
  rw [(journal.keyed id o hget).1]
  exact hget

theorem nodup_replayed (journal : OperationJournal) :
    ((replayed journal).map fun o => o.operationId).Nodup := by
  have hkeys : journal.operations.values.map (fun o => o.operationId) =
      journal.operations.keys := by
    unfold InsertionMap.values InsertionMap.keys
    rw [map_map]
    refine map_congr_left ?_
    rintro ⟨id, o⟩ hmem
    exact (journal.keyed id o ((InsertionMap.get?_eq_some_iff _ _ _).mpr hmem)).1
  have hvalues : (journal.operations.values.map fun o => o.operationId).Nodup := by
    rw [hkeys]
    exact journal.operations.keys_nodup
  have hcurrent : (journal.getCurrentOperations.map fun o => o.operationId).Nodup :=
    ((mergeSort_perm _ _).map _).nodup_iff.mpr hvalues
  refine ((mergeSort_perm _ _).map _).nodup_iff.mpr ?_
  exact hcurrent.sublist (filter_sublist.map _)

theorem exists_replayed (h : ofReplayed max journal = .ok s) :
    ∃ u, (replayed journal).foldlM
        (fun (s : QueueState) operation => s.queueOperation .accepted operation)
        (ofJournal journal) = .ok u ∧
      QueueInv max u ∧
      s = u.scheduleProcessing max := by
  unfold ofReplayed at h
  cases hfold : (replayed journal).foldlM
      (fun (s : QueueState) operation => s.queueOperation .accepted operation)
      (ofJournal journal) with
  | error message =>
    rw [hfold] at h
    cases h
  | ok u =>
    rw [hfold] at h
    cases h
    refine ⟨u, rfl, ?_, rfl⟩
    refine queueInv_foldlM (replayed journal) (queueInv_ofJournal journal) ?_
      (nodup_replayed journal) ?_ rfl hfold
    · intro o ho
      exact Option.isSome_iff_exists.mpr ⟨o, mem_replayed ho⟩
    · intro o _ r e he
      cases he

theorem queueInv_ofReplayed (h : ofReplayed max journal = .ok s) :
    QueueInv max s := by
  obtain ⟨u, _, hu, rfl⟩ := exists_replayed h
  exact ⟨hu.loops.scheduleProcessing, headsOk_scheduleProcessing hu.heads,
    hu.keys.scheduleProcessing,
    hu.served.advances hu.loops (stays_scheduleProcessing hu.loops).advances⟩

end Start

structure OneOperationPerKey (s : QueueState) : Prop where
  operations : ∀ id id' a b, s.journal.getOperation id = some a →
    s.journal.getOperation id' = some b → a.idempotencyKey = b.idempotencyKey → id = id'
  enqueues : ∀ scope scope' response response', (scope, response) ∈ s.returned →
    (scope', response') ∈ s.returned → scope.idempotencyKey = scope'.idempotencyKey →
    response.operation.operationId = response'.operation.operationId

theorem oneOperationPerKey_of_keysOk (h : KeysOk s) : OneOperationPerKey s := by
  constructor
  · intro id id' a b ha hb hkey
    exact OperationJournal.operationId_unique ha hb hkey
  · intro scope scope' response response' hmem hmem' hkey
    obtain ⟨o, ho, hid⟩ := h.returned scope response hmem
    obtain ⟨o', ho', hid'⟩ := h.returned scope' response' hmem'
    rw [hkey, ho'] at ho
    cases ho
    exact hid.symm.trans hid'

theorem queueInv_of_run {journal : OperationJournal} {start : QueueState} {actions : List Action}
    (hstart : ofReplayed max journal = .ok start)
    (hrun : runActions (step max) start actions = some s) :
    QueueInv max s :=
  runActions_preserves (fun _ _ _ h hstep => h.turn (turn_of_step hstep))
    (queueInv_ofReplayed hstart) hrun

structure QueueContract (maxConcurrentRepositories : Nat) (s : QueueState) : Prop where
  exclusive : Exclusive maxConcurrentRepositories s
  order : ∀ repositoryId, InOrder (s.log repositoryId)
  keys : OneOperationPerKey s

/-- **Exclusion, order and keys**, whatever the order of the turns. -/
theorem queue_contract
    (maxConcurrentRepositories : Nat) (journal : OperationJournal) (start : QueueState)
    (actions : List Action) (s : QueueState)
    (hstart : ofReplayed maxConcurrentRepositories journal = .ok start)
    (hrun : runActions (step maxConcurrentRepositories) start actions = some s) :
    QueueContract maxConcurrentRepositories s := by
  have hinv := queueInv_of_run hstart hrun
  refine ⟨exclusive_of_loopsOk hinv.loops, ?_, oneOperationPerKey_of_keysOk hinv.keys⟩
  intro r
  obtain ⟨phase, hphase⟩ := exists_phaseAt hinv.loops r
  exact (hinv.served r phase hphase).inOrder

private def saved (path key : String) : StudioOperationScope :=
  ⟨"workspace", "repository", "fingerprint", "revision", path, path, "markdown", "hash", key,
    "savedAt"⟩

private def enqueued (operationId : String) : List Action :=
  [.enqueueTurn operationId, .enqueueCommit "now", .enqueueReturns]

/-- Two enqueues of one key, one of another, and the first operation executes. -/
private def concurrent : List Action :=
  [.enqueue (saved "a.md" "key-1"), .enqueue (saved "a.md" "key-1"),
    .enqueue (saved "b.md" "key-2")] ++ enqueued "op-1" ++
  [.loopTurn 0, .enqueueTurn "op-2", .loopCommit 0 "now"] ++ enqueued "op-3" ++ [.owned 0]

theorem queue_contract_of_concurrent :
    ∃ s, runActions (step 3) (ofJournal .empty) concurrent = some s ∧
      s.returned.map (fun r => (r.2.operation.operationId, r.2.reusedExisting)) =
        [("op-1", false), ("op-1", true), ("op-3", false)] ∧
      s.log "repository" = [.accepted "op-1", .run "op-1", .accepted "op-3", .started "op-1"] ∧
      QueueContract 3 s := by
  have hstart : ofReplayed 3 .empty = .ok (ofJournal .empty) := by
    have hnone : replayed .empty = [] := by
      simp [replayed, OperationJournal.getCurrentOperations, OperationJournal.empty,
        InsertionMap.values, InsertionMap.empty]
    rw [ofReplayed, hnone]
    rfl
  refine ⟨_, rfl, by decide +kernel, by decide +kernel, ?_⟩
  exact queue_contract 3 .empty _ concurrent _ hstart rfl

end RepositoryOperations
end StudioWeb
