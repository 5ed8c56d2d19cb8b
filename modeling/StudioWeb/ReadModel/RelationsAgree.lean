import StudioWeb.Library.LabelledRuns
import StudioWeb.ReadModel.GraphWrites

/-!
# The relations of the graph and of the read model

One call after another of a domain store with a mirror, whose read model was filled
before.  A delete marks the object in the graph, where its relations stay, and drops
its row and the rows of its relations; so an object that is written again has its old
relations back in the graph alone.
-/

namespace StudioWeb
namespace ReadModel

open LabelledRuns JsonText List Option InsertionMap DomainMirror

/-- One call of the store; it always returns. -/
def mutate (s : IndexedDomainStore) : Mutation → Option IndexedDomainStore
  | .upsertNodes nodes => some (s.upsertNodes nodes).1
  | .createRelation edgeTypeId src dst discriminator =>
    some (s.createRelation edgeTypeId src dst discriminator)
  | .upsertEdges edges => some (s.upsertEdges edges)
  | .deleteRelation edgeTypeId src dst relation =>
    some (s.deleteRelation edgeTypeId src dst relation).1

/-- What the batch deletes has no relations. -/
structure Writable (g : Graph) (nodes : List NodeUpsert) : Prop extends SoundBatch nodes where
  deleted_unrelated : ∀ n ∈ nodes, isLive n.payload = false → g.Unrelated n.nodeKey

/-- The condition of one call on the state before it. -/
def Admitted (s : IndexedDomainStore) (m : Mutation) (_ : IndexedDomainStore) : Prop :=
  match m with
  | .upsertNodes nodes => Writable s.inner nodes
  | .createRelation edgeTypeId src dst discriminator =>
    Linkable s.inner [⟨edgeTypeId, src, dst, discriminator⟩] ⟨edgeTypeId, src, dst, discriminator⟩
  | .upsertEdges edges => ∀ e ∈ edges, Linkable s.inner edges e
  | .deleteRelation _ _ _ _ => True

/-- A graph that a fill copies whole: its live objects are of the model's types, and its
relations join live objects. -/
structure Fillable (g : Graph) (typeIds : List String) : Prop where
  keyed : g.Keyed
  types_objects : ∀ t ∈ typeIds, isObjectType t = true
  types : ∀ id n, g.liveObject? id = some n → n.typeId ∈ typeIds
  related : ∀ e, g.HasRelation e → g.HasObject e.src ∧ g.HasObject e.dst

structure Hop.OfDomain (hop : Hop) : Prop where
  edge : isRelationType hop.edgeTypeId = true
  nodes : ∀ t ∈ hop.nodeTypeIds, isObjectType t = true

/-- The object that a row of a node reads back as. -/
def stored (n : ObjectNode) : ObjectNode := toNode (rowOf n.typeId n.instanceId n.value)

/-- One hop from the graph and from the mirror: the same pairs, each by a relation that
the other store has too, none of them deleted, and the same objects. -/
structure HopAgrees (s : IndexedDomainStore) (seeds : List String) (hop : Hop) : Prop where
  pairs : ((s.inner.neighbours seeds hop).edges.map fun e => (e.src, e.dst)).Perm
    ((s.mirror.hop seeds hop).edges.map fun e => (e.src, e.dst))
  in_mirror : ∀ e ∈ (s.inner.neighbours seeds hop).edges, e ∈ s.mirror.follow seeds hop
  in_graph : ∀ e ∈ (s.mirror.hop seeds hop).edges, e ∈ s.inner.follow seeds hop
  live : ∀ e ∈ (s.inner.neighbours seeds hop).edges,
    s.inner.HasObject e.src ∧ s.inner.HasObject e.dst
  nodes : ((s.inner.neighbours seeds hop).nodes.map stored).Perm (s.mirror.hop seeds hop).nodes

/-- **Both stores answer alike.** -/
def RelationsAgree (s : IndexedDomainStore) : Prop :=
  ∀ (seeds : List String) (hop : Hop), hop.OfDomain → HopAgrees s seeds hop

section Mirrors

/-- The rows are those of the graph. -/
structure Mirrors (s : IndexedDomainStore) : Prop where
  keyed : s.inner.Keyed
  objects : ∀ id, s.mirror.objects.get? id =
    (s.inner.liveObject? id).map fun n => rowOf n.typeId n.instanceId n.value
  edges : ∀ row, row ∈ s.mirror.edges ↔
    ∃ e, s.inner.HasRelation e ∧ row = edgeRow e.typeId e.src e.dst e.relation
  related : ∀ e, s.inner.HasRelation e → s.inner.HasObject e.src ∧ s.inner.HasObject e.dst

variable {s : IndexedDomainStore}

theorem relation_edgeRow {e : EdgeView} (h : e.relation ≠ some "") :
    (some (edgeRow e.typeId e.src e.dst e.relation).relation).filter (fun r => r != "") =
      e.relation := by
  cases hrelation : e.relation with
  | none => rfl
  | some is =>
    have hne : is ≠ "" := by
      rintro rfl
      exact h hrelation
    simp [edgeRow, Option.filter, hne]

variable {seeds : List String} {hop : Hop}

theorem mem_follow_iff (h : Mirrors s) (hdomain : hop.OfDomain)
    (v : EdgeView) : v ∈ s.inner.follow seeds hop ↔ v ∈ s.mirror.follow seeds hop := by
  rw [Graph.mem_follow, mem_follow]
  constructor
  · rintro ⟨e, he, htype, hother, hnear, rfl⟩
    obtain ⟨k, hk⟩ := (mem_values_iff _ _).mp he
    obtain ⟨_, hkey, hnamed⟩ := h.keyed.edges k e hk
    have hrelation : s.inner.HasRelation e := ⟨he, htype ▸ hdomain.edge⟩
    refine ⟨_, (h.edges _).mpr ⟨e, hrelation, rfl⟩, htype, ?_, hnear, ?_⟩
    · rw [answersFor_edgeRow hnamed, hother]
      rfl
    · rw [relation_edgeRow hnamed, ← hkey]
      rfl
  · rintro ⟨row, hrow, htype, hfor, hnear, rfl⟩
    obtain ⟨e, ⟨he, _⟩, rfl⟩ := (h.edges row).mp hrow
    obtain ⟨k, hk⟩ := (mem_values_iff _ _).mp he
    obtain ⟨_, hkey, hnamed⟩ := h.keyed.edges k e hk
    rw [answersFor_edgeRow hnamed, Bool.not_eq_true'] at hfor
    refine ⟨e, he, htype, hfor, hnear, ?_⟩
    rw [relation_edgeRow hnamed, ← hkey]
    rfl

def farEnds (edges : List EdgeView) : List String :=
  distinctBy id ((distinctBy (fun e => (e.src, e.dst)) edges).map EdgeView.dst)

theorem mem_farEnds {edges : List EdgeView} {id : String} :
    id ∈ farEnds edges ↔ ∃ e ∈ edges, e.dst = id := by
  rw [farEnds, mem_distinctBy_id, List.mem_map]
  exact exists_mem_distinctBy (p := fun pair : String × String => pair.2 = id)

theorem nodes_neighbours {g : Graph} :
    (g.neighbours seeds hop).nodes = (farEnds (g.follow seeds hop)).filterMap fun id =>
      (g.getObject id).filter fun n => n.typeId ∈ hop.nodeTypeIds := by
  rfl

theorem nodes_hop {m : DomainMirror} :
    (m.hop seeds hop).nodes = (m.objects.values.filter fun row =>
      decide (row.instanceId ∈ farEnds (m.follow seeds hop)) &&
        decide (row.typeId ∈ hop.nodeTypeIds)).map toNode := by
  rfl

theorem instanceId_of_getObject (h : s.inner.Keyed) {id : String} {n : ObjectNode}
    (hn : s.inner.getObject id = some n) : n.instanceId = id :=
  h.nodes id n (filter_eq_some_iff.mp hn).1

theorem nodup_neighbours (h : s.inner.Keyed) (seeds : List String) (hop : Hop) :
    ((s.inner.neighbours seeds hop).nodes.map ObjectNode.instanceId).Nodup := by
  rw [nodes_neighbours, map_filterMap]
  refine List.Nodup.filterMap ?_ nodup_distinctBy_id
  intro a b id ha hb
  simp only [mem_def, map_eq_some_iff, filter_eq_some_iff] at ha hb
  obtain ⟨n, ⟨hn, _⟩, rfl⟩ := ha
  obtain ⟨n', ⟨hn', _⟩, heq⟩ := hb
  rw [← instanceId_of_getObject h hn, ← instanceId_of_getObject h hn', heq]

theorem keyed_of_mirrors (h : Mirrors s) : s.mirror.Keyed := by
  intro id row hrow
  rw [h.objects] at hrow
  obtain ⟨n, hn, rfl⟩ := map_eq_some_iff.mp hrow
  exact h.keyed.nodes id n (filter_eq_some_iff.mp hn).1

theorem nodup_rows (h : Mirrors s) : (s.mirror.objects.values.map ObjectRow.instanceId).Nodup := by
  have hkeys : s.mirror.objects.values.map ObjectRow.instanceId = s.mirror.objects.keys := by
    unfold values InsertionMap.keys
    rw [List.map_map]
    refine map_congr_left ?_
    rintro ⟨id, row⟩ hmem
    exact keyed_of_mirrors h _ _ ((get?_eq_some_iff _ _ _).mpr hmem)
  rw [hkeys]
  exact s.mirror.objects.keys_nodup

theorem perm_nodes (h : Mirrors s) (hdomain : hop.OfDomain) :
    ((s.inner.neighbours seeds hop).nodes.map stored).Perm (s.mirror.hop seeds hop).nodes := by
  have hfar : ∀ id, id ∈ farEnds (s.inner.follow seeds hop) ↔
      id ∈ farEnds (s.mirror.follow seeds hop) := by
    intro id
    simp only [mem_farEnds, mem_follow_iff h hdomain]
  have hgraph : ((s.inner.neighbours seeds hop).nodes.map stored).Nodup := by
    refine List.Nodup.of_map ObjectNode.instanceId ?_
    rw [List.map_map]
    exact nodup_neighbours h.keyed seeds hop
  have hmirror : (s.mirror.hop seeds hop).nodes.Nodup := by
    refine List.Nodup.of_map ObjectNode.instanceId ?_
    rw [nodes_hop, List.map_map]
    exact (nodup_rows h).sublist (filter_sublist.map ObjectRow.instanceId)
  rw [perm_ext_iff_of_nodup hgraph hmirror]
  intro n
  rw [nodes_neighbours, nodes_hop]
  simp only [List.mem_map, mem_filterMap, mem_filter, Bool.and_eq_true,
    decide_eq_true_eq, filter_eq_some_iff]
  constructor
  · rintro ⟨n, ⟨id, hid, hn, htype⟩, rfl⟩
    have hinstance := instanceId_of_getObject h.keyed hn
    have hlive : s.inner.liveObject? id = some n := by
      obtain ⟨hget, hlive⟩ := filter_eq_some_iff.mp hn
      refine filter_eq_some_iff.mpr ⟨hget, ?_⟩
      rw [isLiveObject, hdomain.nodes _ htype, hlive]
      rfl
    refine ⟨rowOf n.typeId n.instanceId n.value, ⟨?_, ?_, htype⟩, rfl⟩
    · exact (mem_values_iff _ _).mpr ⟨id, by rw [h.objects, hlive]; rfl⟩
    · exact (hfar _).mp (hinstance ▸ hid)
  · rintro ⟨row, ⟨hrow, hid, htype⟩, rfl⟩
    obtain ⟨id, hget⟩ := (mem_values_iff _ _).mp hrow
    have hinstance := keyed_of_mirrors h _ _ hget
    rw [h.objects] at hget
    obtain ⟨n, hn, rfl⟩ := map_eq_some_iff.mp hget
    obtain ⟨hnode, hlive⟩ := filter_eq_some_iff.mp hn
    rw [isLiveObject, Bool.and_eq_true] at hlive
    refine ⟨n, ⟨id, ?_, filter_eq_some_iff.mpr ⟨hnode, hlive.2⟩, htype⟩, rfl⟩
    exact (hfar _).mpr (hinstance ▸ hid)

/-- **A hop answers the same** where the rows are those of the graph. -/
theorem relationsAgree_of_mirrors (h : Mirrors s) : RelationsAgree s := by
  intro seeds hop hdomain
  have hfollow : ∀ v, v ∈ s.inner.follow seeds hop ↔ v ∈ s.mirror.follow seeds hop :=
    mem_follow_iff h hdomain
  refine ⟨?_, ?_, ?_, ?_, perm_nodes h hdomain⟩
  · refine perm_map_distinctBy ?_
    intro pair
    simp only [List.mem_map, hfollow]
  · intro e he
    exact (hfollow e).mp (mem_of_mem_distinctBy he)
  · intro e he
    exact (hfollow e).mpr (mem_of_mem_distinctBy he)
  · intro v hv
    obtain ⟨e, he, htype, _, _, rfl⟩ := Graph.mem_follow.mp (mem_of_mem_distinctBy hv)
    obtain ⟨hsrc, hdst⟩ := h.related e ⟨he, htype ▸ hdomain.edge⟩
    unfold Hop.near Hop.far
    split
    · exact ⟨hdst, hsrc⟩
    · exact ⟨hsrc, hdst⟩

end Mirrors

section Nodes

variable {g : Graph} {nodes : List NodeUpsert}

theorem hasObject_upsertNodes (h : Writable g nodes) {k : String} (hobject : g.HasObject k)
    (hrelated : ¬ g.Unrelated k) : (nodes.foldl Graph.upsertNode g).HasObject k := by
  refine hasObject_after h.toSoundBatch ?_ hobject
  intro hgone
  obtain ⟨n, hn, hdead, rfl⟩ := mem_goneIds.mp hgone
  exact hrelated (h.deleted_unrelated n hn hdead)

theorem mirrors_afterNodes {s u : IndexedDomainStore} (hs : Mirrors s) (h : Writable s.inner nodes)
    (hinner : u.inner = nodes.foldl Graph.upsertNode s.inner) (hmirror : u.mirror = s.mirror) :
    Mirrors (u.afterNodes nodes) := by
  obtain ⟨hinner', hmirror'⟩ := afterNodes_eq (s := u) h.toSoundBatch
  have hkeyed : u.mirror.Keyed := hmirror ▸ keyed_of_mirrors hs
  rw [hinner] at hinner'
  constructor
  · rw [hinner']
    exact keyed_upsertNodes hs.keyed h.toSoundBatch
  · intro k
    rw [hinner']
    by_cases hmem : ∃ n ∈ nodes, n.nodeKey = k
    · obtain ⟨n, hn, rfl⟩ := hmem
      rw [get?_afterNodes_of_mem hkeyed h.toSoundBatch hn, liveObject?_upsertNodes_of_mem h.toSoundBatch hn]
      split <;> rfl
    · have hk : ∀ n ∈ nodes, n.nodeKey ≠ k := fun n hn hkey => hmem ⟨n, hn, hkey⟩
      rw [get?_afterNodes_of_notMem hkeyed h.toSoundBatch hk, liveObject?_upsertNodes_of_notMem hk, hmirror]
      exact hs.objects k
  · intro row
    rw [hinner', hmirror']
    have hkept : row ∈ s.mirror.edges → row.src ∉ goneIds nodes ∧ row.dst ∉ goneIds nodes := by
      intro hrow
      obtain ⟨e, he, rfl⟩ := (hs.edges row).mp hrow
      constructor
      · intro hgone
        obtain ⟨n, hn, hdead, hkey⟩ := mem_goneIds.mp hgone
        exact (h.deleted_unrelated n hn hdead e he).1 hkey.symm
      · intro hgone
        obtain ⟨n, hn, hdead, hkey⟩ := mem_goneIds.mp hgone
        exact (h.deleted_unrelated n hn hdead e he).2 hkey.symm
    simp only [hasRelation_upsertNodes]
    rw [← hs.edges row, ← hmirror] at *
    change row ∈ (deleteEdgesOf _ _).edges ↔ _
    rw [mem_deleteEdgesOf]
    exact ⟨fun hrow => hrow.1, fun hrow => ⟨hrow, hkept hrow⟩⟩
  · intro e he
    rw [hinner'] at he ⊢
    have hold := (hasRelation_upsertNodes e).mp he
    obtain ⟨hsrc, hdst⟩ := hs.related e hold
    constructor
    · exact hasObject_upsertNodes h hsrc fun hunrelated => (hunrelated e hold).1 rfl
    · exact hasObject_upsertNodes h hdst fun hunrelated => (hunrelated e hold).2 rfl

/-- **A batch of nodes keeps the rows those of the graph.** -/
theorem mirrors_upsertNodes {s : IndexedDomainStore} (hs : Mirrors s) (h : Writable s.inner nodes) :
    Mirrors (s.upsertNodes nodes).1 := by
  rcases insertNodes_cases (g := s.inner) h.toSoundBatch with hok | ⟨error, hrefused⟩
  · have hstep : (s.upsertNodes nodes).1 = IndexedDomainStore.afterNodes
        { s with inner := nodes.foldl Graph.upsertNode s.inner } nodes := by
      simp only [IndexedDomainStore.upsertNodes, Graph.upsertNodes, hok]
      rfl
    rw [hstep]
    exact mirrors_afterNodes hs h rfl rfl
  · have hstep : (s.upsertNodes nodes).1 = s := by
      simp only [IndexedDomainStore.upsertNodes, Graph.upsertNodes, hrefused]
      rfl
    rw [hstep]
    exact hs

end Nodes

section Edges

variable {edges : List EdgeUpsert}

/-- **Links keep the rows those of the graph.** -/
theorem mirrors_upsertEdges {s : IndexedDomainStore} (hs : Mirrors s)
    (h : ∀ e ∈ edges, Linkable s.inner edges e) : Mirrors (s.upsertEdges edges) := by
  have hrelation := hasRelation_upsertEdges hs.keyed h
  constructor
  · exact keyed_upsertEdges hs.keyed h
  · intro k
    change s.mirror.objects.get? k = ((s.inner.upsertEdges edges).liveObject? k).map _
    rw [liveObject?_upsertEdges]
    exact hs.objects k
  · intro row
    change row ∈ (writeEdges _ _).edges ↔
      ∃ e, (s.inner.upsertEdges edges).HasRelation e ∧ _
    simp only [mem_writeEdges, hs.edges, hrelation, List.mem_map, mem_filter]
    constructor
    · rintro (⟨e, he, rfl⟩ | ⟨e, ⟨he, htype⟩, rfl⟩)
      · exact ⟨e, Or.inl he, rfl⟩
      · exact ⟨linked e, Or.inr ⟨e, he, htype, rfl⟩, rfl⟩
    · rintro ⟨v, he | ⟨e, he, htype, rfl⟩, rfl⟩
      · exact Or.inl ⟨v, he, rfl⟩
      · exact Or.inr ⟨e, ⟨he, htype⟩, rfl⟩
  · intro v hv
    have hobject : ∀ k, s.inner.HasObject k → (s.inner.upsertEdges edges).HasObject k :=
      fun k => hasObject_upsertEdges.mpr
    rcases (hrelation v).mp hv with hv | ⟨e, he, htype, rfl⟩
    · obtain ⟨hsrc, hdst⟩ := hs.related v hv
      exact ⟨hobject _ hsrc, hobject _ hdst⟩
    · exact ⟨hobject _ ((h e he).src_live htype), hobject _ ((h e he).dst_live htype)⟩

theorem createRelation_eq
    (s : IndexedDomainStore) (edgeTypeId src dst : String) (discriminator : Option String) :
    s.createRelation edgeTypeId src dst discriminator =
      s.upsertEdges [⟨edgeTypeId, src, dst, discriminator⟩] := by
  unfold IndexedDomainStore.createRelation IndexedDomainStore.upsertEdges
  cases htype : isRelationType edgeTypeId
  · simp only [htype, filter_cons, filter_nil, Bool.false_eq_true, if_false]
    rfl
  · simp only [htype, filter_cons, filter_nil, if_true]
    rfl

/-- **An unlink keeps the rows those of the graph.** -/
theorem mirrors_deleteRelation {s : IndexedDomainStore} (hs : Mirrors s)
    (edgeTypeId src dst : String) (relation : Option String) :
    Mirrors (s.deleteRelation edgeTypeId src dst relation).1 := by
  constructor
  · exact keyed_deleteRelation hs.keyed edgeTypeId src dst relation
  · exact hs.objects
  · intro row
    change row ∈ (s.mirror.deleteEdge edgeTypeId src dst relation).edges ↔
      ∃ e, (s.inner.deleteRelation edgeTypeId src dst relation).1.HasRelation e ∧ _
    simp only [hasRelation_deleteRelation, deleteEdge, mem_filter, hs.edges,
      Bool.not_eq_true']
    have hnamed : ∀ e, s.inner.HasRelation e → e.relation ≠ some "" :=
      fun e => named_of_hasRelation hs.keyed
    constructor
    · rintro ⟨⟨e, he, rfl⟩, hkept⟩
      rw [answersFor_of_isRelation (hnamed e he)] at hkept
      exact ⟨e, ⟨he, hkept⟩, rfl⟩
    · rintro ⟨e, ⟨he, hkept⟩, rfl⟩
      refine ⟨⟨e, he, rfl⟩, ?_⟩
      rw [answersFor_of_isRelation (hnamed e he)]
      exact hkept
  · intro e he
    exact hs.related e (hasRelation_deleteRelation.mp he).1

end Edges

section Fill

variable {typeIds : List String}

theorem Fillable.modelled {g : Graph} (h : Fillable g typeIds) : Modelled g typeIds :=
  ⟨h.types_objects, h.types⟩

theorem get?_fillTenant {s : IndexedDomainStore} (h : Fillable s.inner typeIds) (k : String) :
    (s.fillTenant typeIds).mirror.objects.get? k =
      (s.inner.liveObject? k).map fun n => rowOf n.typeId n.instanceId n.value := by
  have hrows : (s.fillTenant typeIds).mirror.objects =
      ((s.inner.listObjects typeIds).map fun o => rowOf o.typeId o.instanceId o.value).foldl
        (insertObject false) .empty := by
    simp only [IndexedDomainStore.fillTenant, writeObjects_keep]
    rfl
  rw [hrows, get?_foldl_insertObject_keep, get?_empty, none_or,
    find?_map]
  exact congrArg (Option.map _) (find?_listObjects h.keyed h.modelled k)

/-- **A fill copies the graph.** -/
theorem mirrors_fillTenant {s : IndexedDomainStore} (h : Fillable s.inner typeIds) :
    Mirrors (s.fillTenant typeIds) := by
  constructor
  · exact h.keyed
  · exact get?_fillTenant h
  · intro row
    change row ∈ (writeEdges _ _).edges ↔ ∃ e, s.inner.HasRelation e ∧ _
    have hempty : ∀ rows, (s.mirror.clear.writeObjects rows false).1.edges = [] := by
      intro rows
      rw [writeObjects_keep]
      rfl
    simp only [mem_writeEdges, hempty, not_mem_nil, false_or,
      List.mem_map, mem_filter, Graph.readEdges]
    constructor
    · rintro ⟨e, ⟨⟨he, _⟩, htype⟩, rfl⟩
      exact ⟨e, ⟨he, htype⟩, rfl⟩
    · rintro ⟨e, ⟨he, htype⟩, rfl⟩
      refine ⟨e, ⟨⟨he, ?_⟩, htype⟩, rfl⟩
      obtain ⟨hsrc, _⟩ := h.related e ⟨he, htype⟩
      have hmem : ∃ a ∈ s.inner.listObjects typeIds, a.instanceId = e.src :=
        List.mem_map.mp (mem_ids_listObjects h.keyed h.modelled hsrc)
      simp [hmem]
  · exact h.related

end Fill

section Runs

variable {s : IndexedDomainStore}

/-- **One call keeps the rows those of the graph.** -/
theorem step_mirrors {m : Mutation} {t : IndexedDomainStore} (hs : Mirrors s)
    (hstep : mutate s m = some t) (h : Admitted s m t) : Mirrors t := by
  cases m with
  | upsertNodes =>
    cases hstep
    exact mirrors_upsertNodes hs h
  | createRelation =>
    cases hstep
    rw [createRelation_eq]
    refine mirrors_upsertEdges hs ?_
    intro e he
    rw [mem_singleton.mp he]
    exact h
  | upsertEdges =>
    cases hstep
    exact mirrors_upsertEdges hs h
  | deleteRelation edgeTypeId src dst relation =>
    cases hstep
    exact mirrors_deleteRelation hs edgeTypeId src dst relation

/-- A call links an object. -/
def Mutation.Links (m : Mutation) (id : String) : Prop :=
  match m with
  | .upsertNodes _ => False
  | .createRelation _ src dst _ => src = id ∨ dst = id
  | .upsertEdges edges => ∃ e ∈ edges, e.src = id ∨ e.dst = id
  | .deleteRelation _ _ _ _ => False

variable {id : String}

theorem unrelated_upsertEdges {g : Graph} {edges : List EdgeUpsert}
    (h : g.Unrelated id) (hlinks : ∀ e ∈ edges, e.src ≠ id ∧ e.dst ≠ id) :
    (g.upsertEdges edges).Unrelated id := by
  unfold Graph.upsertEdges
  induction edges generalizing g with
  | nil => exact h
  | cons e _ ih =>
    rw [foldl_cons]
    refine ih ?_ fun f hf => hlinks f (mem_cons_of_mem _ hf)
    rintro v ⟨hv, htype⟩
    obtain ⟨k, hk⟩ := (mem_values_iff _ _).mp hv
    rw [Graph.upsertEdge, get?_set] at hk
    split at hk
    · cases hk
      exact hlinks e mem_cons_self
    · exact h v ⟨(mem_values_iff _ _).mpr ⟨k, hk⟩, htype⟩

theorem step_unrelated {m : Mutation} {t : IndexedDomainStore}
    (hs : s.inner.Unrelated id) (hstep : mutate s m = some t) (hlinks : ¬ m.Links id) :
    t.inner.Unrelated id := by
  cases m with
  | upsertNodes nodes =>
    cases hstep
    have hedges : (s.upsertNodes nodes).1.inner.edges = s.inner.edges := by
      rw [IndexedDomainStore.inner_upsertNodes, Graph.edges_insertNodes]
    intro e he
    exact hs e ⟨hedges ▸ he.1, he.2⟩
  | createRelation =>
    cases hstep
    rw [createRelation_eq]
    refine unrelated_upsertEdges hs ?_
    intro e he
    rw [mem_singleton.mp he]
    exact not_or.mp hlinks
  | upsertEdges =>
    cases hstep
    refine unrelated_upsertEdges hs ?_
    intro e he
    exact ⟨fun h => hlinks ⟨e, he, Or.inl h⟩, fun h => hlinks ⟨e, he, Or.inr h⟩⟩
  | deleteRelation =>
    cases hstep
    rintro e ⟨he, htype⟩
    exact hs e ⟨((mem_values_keepIf _ _ _).mp he).1, htype⟩

/-- The object is marked deleted. -/
def Graph.Deleted (g : Graph) (id : String) : Prop :=
  ∃ n, g.nodes.get? id = some n ∧ isLive n.value = false

def NoRelation (s : IndexedDomainStore) (id : String) : Prop :=
  s.inner.Unrelated id ∧ ∀ row ∈ s.mirror.edges, row.src ≠ id ∧ row.dst ≠ id

theorem noRelation_of_unrelated (hs : Mirrors s) (h : s.inner.Unrelated id) :
    NoRelation s id := by
  refine ⟨h, ?_⟩
  intro row hrow
  obtain ⟨e, he, rfl⟩ := (hs.edges row).mp hrow
  exact h e he

theorem unrelated_of_deleted (hs : Mirrors s) (h : s.inner.Deleted id) :
    s.inner.Unrelated id := by
  obtain ⟨n, hget, hdead⟩ := h
  have hnone : ¬ s.inner.HasObject id := by
    simp [Graph.HasObject, Graph.liveObject?, hget, Option.filter, isLiveObject, hdead]
  intro e he
  obtain ⟨hsrc, hdst⟩ := hs.related e he
  exact ⟨fun h => hnone (h ▸ hsrc), fun h => hnone (h ▸ hdst)⟩

/-- **The relations agree** in every run of calls that delete only objects without
relations: a hop answers the same from both stores, and an object that was deleted has
in neither a relation that it was not given since. -/
theorem relations_agree (start : IndexedDomainStore) (typeIds : List String) (calls : List Mutation)
    (s : IndexedDomainStore) (hfill : Fillable start.inner typeIds)
    (hadmitted : EveryStep mutate Admitted (start.fillTenant typeIds) calls)
    (hrun : runActions mutate (start.fillTenant typeIds) calls = some s) :
    RelationsAgree s ∧ ∀ before after t id, calls = before ++ after →
        runActions mutate (start.fillTenant typeIds) before = some t →
        t.inner.Deleted id → (∀ m ∈ after, ¬ m.Links id) → NoRelation s id := by
  have hstart := mirrors_fillTenant hfill
  have hs : Mirrors s := runActions_invariant
    (fun s m t hs hstep hadm => step_mirrors hs hstep hadm) hstart hadmitted hrun
  refine ⟨relationsAgree_of_mirrors hs, ?_⟩
  rintro before after t id rfl hbefore hdeleted hlinks
  obtain ⟨t', hbefore', hafter⟩ := runActions_append_iff.mp hrun
  rw [hbefore] at hbefore'
  cases hbefore'
  have ht : Mirrors t := runActions_invariant
    (fun s m t hs hstep hadm => step_mirrors hs hstep hadm) hstart
    (EveryStep.of_append hadmitted) hbefore
  have hevery : EveryStep mutate (fun _ m _ => ¬ m.Links id) t after :=
    EveryStep.of_mem fun m hm _ _ => hlinks m hm
  have hunrelated : s.inner.Unrelated id :=
    runActions_invariant (fun s m t hs hstep hadm => step_unrelated hs hstep hadm)
      (unrelated_of_deleted ht hdeleted) hevery hafter
  exact noRelation_of_unrelated hs hunrelated

end Runs

private def teams : String := "gts.cf.studio.domain.team.v1~"

private def owns : String := "gts.cf.studio.domainrel.owns.v1~"

private def team (id : String) (fields : List (String × Json)) : Mutation :=
  .upsertNodes [⟨none, teams, id, .obj fields⟩]

private def delete (id : String) : Mutation :=
  team id [(DELETED_FIELD, .bool true)]

private def start : IndexedDomainStore := ⟨.empty, ⟨.empty, [], false⟩, 0⟩

private def link : Mutation := .createRelation owns "a" "b" (some "owns")

private def unlink : Mutation := .deleteRelation owns "a" "b" (some "owns")

private def hopToTeams : Hop := ⟨owns, some "owns", [teams], false⟩

private theorem fillable_start : Fillable start.inner [teams] := by
  constructor
  · constructor
    · intro id n hget
      cases hget
    · intro k e hget
      cases hget
  · decide
  · intro id n hget
    cases hget
  · intro e he
    cases he.1

/-- A relation of an object outlives it in the graph and not in the mirror. -/
theorem relations_differ_after_recreation :
    Fillable start.inner [teams] ∧ ∃ s, runActions mutate (start.fillTenant [teams])
          [team "a" [], team "b" [], link, delete "b", team "b" []] = some s ∧
        ¬ RelationsAgree s := by
  refine ⟨fillable_start, _, rfl, ?_⟩
  intro h
  have hpairs := (h ["a"] hopToTeams ⟨by decide, by decide⟩).pairs
  have hlength := hpairs.length_eq
  revert hlength
  decide +kernel

private theorem writable_one {g : Graph} {n : NodeUpsert} (hobject : isObjectType n.typeId = true)
    (hdeleted : isLive n.payload = false → g.Unrelated n.nodeKey) : Writable g [n] := by
  refine ⟨⟨?_, nodup_singleton _, Or.inr (Nat.le_refl 1)⟩, ?_⟩
  · intro m hm
    rw [mem_singleton.mp hm]
    exact hobject
  · intro m hm
    rw [mem_singleton.mp hm]
    exact hdeleted

private def calls : List Mutation :=
  [team "a" [], team "b" [], link, unlink, delete "b"]

private theorem admitted_calls : EveryStep mutate Admitted (start.fillTenant [teams]) calls := by
  rintro t ⟨⟩
  refine ⟨writable_one (by decide) fun h => absurd h (by decide), ?_⟩
  rintro t ⟨⟩
  refine ⟨writable_one (by decide) fun h => absurd h (by decide), ?_⟩
  rintro t ⟨⟩
  refine ⟨⟨by decide, fun _ => by decide +kernel, fun _ => by decide +kernel, ?_, ?_⟩, ?_⟩
  · decide +kernel
  · intro v hv _
    exact mem_singleton.mp hv
  rintro t ⟨⟩
  refine ⟨trivial, ?_⟩
  rintro t ⟨⟩
  refine ⟨writable_one (by decide) fun _ => ?_, trivial⟩
  rintro e ⟨he, _⟩
  revert e
  decide +kernel

theorem relations_agree_without_relations_left :
    ∃ s, runActions mutate (start.fillTenant [teams]) calls = some s ∧ RelationsAgree s := by
  have hrun := relations_agree start [teams] calls _ fillable_start admitted_calls rfl
  exact ⟨_, rfl, hrun.1⟩

end ReadModel
end StudioWeb
