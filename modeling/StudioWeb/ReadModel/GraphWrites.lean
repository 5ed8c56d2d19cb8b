import StudioWeb.ReadModel.DomainMirror

/-!
# What the writes of the graph change

The objects and the relations of the graph after a batch of nodes, links and an unlink,
and the rows after a batch.

**Results.** `insertNodes_cases`, `upsertEdges_spec`.
* `liveObject?_upsertNodes_of_mem`, `get?_afterNodes_of_mem`: the objects, and their rows.
* `mem_listObjects`: a listing of every type is of the live objects.
-/

namespace StudioWeb
namespace ReadModel

open JsonText Graph InsertionMap

def Graph.HasRelation (g : Graph) (e : EdgeView) : Prop :=
  e ∈ g.edges.values ∧ isRelationType e.typeId = true

def isLiveObject (n : ObjectNode) : Bool := isObjectType n.typeId && isLive n.value

def Graph.liveObject? (g : Graph) (id : String) : Option ObjectNode :=
  (g.nodes.get? id).filter isLiveObject

def Graph.HasObject (g : Graph) (id : String) : Prop := (g.liveObject? id).isSome = true

instance (g : Graph) (id : String) : Decidable (g.HasObject id) :=
  inferInstanceAs (Decidable ((g.liveObject? id).isSome = true))

def Graph.Unrelated (g : Graph) (id : String) : Prop :=
  ∀ e, g.HasRelation e → e.src ≠ id ∧ e.dst ≠ id

/-- A link names its relation, joins live objects, and its key is that of no other
edge. -/
structure Linkable (g : Graph) (edges : List EdgeUpsert) (e : EdgeUpsert) : Prop where
  named : e.discriminator ≠ some ""
  src_live : isRelationType e.typeId = true → g.HasObject e.src
  dst_live : isRelationType e.typeId = true → g.HasObject e.dst
  key_graph : ∀ v ∈ g.edges.values, entryKey v.typeId v.src v.dst v.relation =
        entryKey e.typeId e.src e.dst e.discriminator →
      v.typeId = e.typeId ∧ v.src = e.src ∧ v.dst = e.dst ∧ v.relation = e.discriminator
  key_batch : ∀ v ∈ edges, entryKey v.typeId v.src v.dst v.discriminator =
        entryKey e.typeId e.src e.dst e.discriminator → v = e

/-- The batch is of objects and names none twice, and only one object alone may be asked
to be new. -/
structure SoundBatch (nodes : List NodeUpsert) : Prop where
  objects : ∀ n ∈ nodes, isObjectType n.typeId = true
  nodup : (nodes.map NodeUpsert.nodeKey).Nodup
  new_alone : (∀ n ∈ nodes, n.expectedVersion ≠ some 0) ∨ nodes.length ≤ 1

/-- A graph as the store leaves it: every entry is under its own key, and no edge names
its relation with the empty text. -/
structure Graph.Keyed (g : Graph) : Prop where
  nodes : ∀ id n, g.nodes.get? id = some n → n.instanceId = id
  edges : ∀ k e, g.edges.get? k = some e →
    k = entryKey e.typeId e.src e.dst e.relation ∧ e.key = none ∧ e.relation ≠ some ""

/-- Every row is under the id of its object. -/
def DomainMirror.Keyed (m : DomainMirror) : Prop :=
  ∀ id row, m.objects.get? id = some row → row.instanceId = id

section Nodes

variable {g : Graph} {nodes : List NodeUpsert}

/-- A batch is written whole, or it is refused and nothing of it is. -/
theorem insertNodes_cases (h : SoundBatch nodes) :
    g.insertNodes nodes = (nodes.foldl upsertNode g, .ok ()) ∨
      ∃ error, g.insertNodes nodes = (g, .error error) := by
  rcases h.new_alone with hnone | hone
  · left
    clear h
    induction nodes generalizing g with
    | nil => rfl
    | cons n _ ih =>
      have hn := hnone n List.mem_cons_self
      rw [insertNodes, if_neg fun h => hn h.1, List.foldl_cons]
      exact ih fun m hm => hnone m (List.mem_cons_of_mem _ hm)
  · match nodes, hone with
    | [], _ => exact Or.inl rfl
    | [n], _ =>
      rw [insertNodes]
      split
      · exact Or.inr ⟨_, rfl⟩
      · exact Or.inl rfl

theorem get?_upsertNodes_of_mem (hnodup : (nodes.map NodeUpsert.nodeKey).Nodup) {n : NodeUpsert}
    (hn : n ∈ nodes) :
    (nodes.foldl upsertNode g).nodes.get? n.nodeKey =
      some ⟨n.typeId, n.nodeKey, n.payload⟩ := by
  rw [nodes_foldl_upsertNode]
  exact get?_setAll_of_mem NodeUpsert.nodeKey _ hnodup hn

theorem get?_upsertNodes_of_notMem {id : String} (hid : ∀ n ∈ nodes, n.nodeKey ≠ id) :
    (nodes.foldl upsertNode g).nodes.get? id = g.nodes.get? id := by
  rw [nodes_foldl_upsertNode]
  refine get?_setAll_of_notMem NodeUpsert.nodeKey _ ?_
  intro hmem
  obtain ⟨n, hn, rfl⟩ := List.mem_map.mp hmem
  exact hid n hn rfl

theorem hasRelation_upsertNodes (e : EdgeView) :
    (nodes.foldl upsertNode g).HasRelation e ↔ g.HasRelation e := by
  unfold Graph.HasRelation
  rw [edges_foldl_upsertNode]

theorem objectRows_eq (h : SoundBatch nodes) :
    objectRows nodes = ((nodes.filter fun n => isLive n.payload).map fun n =>
          rowOf n.typeId n.nodeKey n.payload,
        (nodes.filter fun n => !isLive n.payload).map NodeUpsert.nodeKey) := by
  have hall : nodes.filter (fun n => isObjectType n.typeId) = nodes :=
    List.filter_eq_self.mpr h.objects
  rw [objectRows, hall]

theorem nodup_live (h : SoundBatch nodes) :
    (((nodes.filter fun n => isLive n.payload).map fun n =>
      rowOf n.typeId n.nodeKey n.payload).map ObjectRow.instanceId).Nodup := by
  rw [List.map_map]
  exact h.nodup.sublist (List.filter_sublist.map NodeUpsert.nodeKey)

theorem eq_of_nodeKey (h : SoundBatch nodes) {n m : NodeUpsert} (hn : n ∈ nodes) (hm : m ∈ nodes)
    (hkey : n.nodeKey = m.nodeKey) : n = m :=
  List.inj_on_of_nodup_map h.nodup hn hm hkey

/-- The live rows and the ids gone of a batch. -/
def liveRows (nodes : List NodeUpsert) : List ObjectRow :=
  (nodes.filter fun n => isLive n.payload).map fun n => rowOf n.typeId n.nodeKey n.payload

def goneIds (nodes : List NodeUpsert) : List String :=
  (nodes.filter fun n => !isLive n.payload).map NodeUpsert.nodeKey

theorem mem_goneIds {id : String} :
    id ∈ goneIds nodes ↔ ∃ n ∈ nodes, isLive n.payload = false ∧ n.nodeKey = id := by
  simp only [goneIds, List.mem_map, List.mem_filter, Bool.not_eq_true', and_assoc]

theorem afterNodes_eq {s : IndexedDomainStore} (h : SoundBatch nodes) :
    (s.afterNodes nodes).inner = s.inner ∧ (s.afterNodes nodes).mirror =
        (({ s.mirror with
          objects := s.mirror.objects.setAll ObjectRow.instanceId id (liveRows nodes)
        } : DomainMirror).deleteEdgesOf (goneIds nodes)).deleteObjects (goneIds nodes) := by
  have hnodup := nodup_live h
  unfold IndexedDomainStore.afterNodes
  rw [objectRows_eq h]
  simp only [DomainMirror.writeObjects_of_nodup hnodup]
  constructor
  · split <;> rfl
  · split <;> rfl

theorem get?_afterNodes {s : IndexedDomainStore} (h : SoundBatch nodes) (k : String) :
    (s.afterNodes nodes).mirror.objects.get? k =
      ((s.mirror.objects.setAll ObjectRow.instanceId id (liveRows nodes)).get? k).filter
        fun row => !decide (row.instanceId ∈ goneIds nodes) := by
  rw [(afterNodes_eq h).2]
  exact DomainMirror.get?_deleteObjects

theorem get?_afterNodes_of_mem {s : IndexedDomainStore} (hs : s.mirror.Keyed) (h : SoundBatch nodes)
    {n : NodeUpsert} (hn : n ∈ nodes) :
    (s.afterNodes nodes).mirror.objects.get? n.nodeKey =
      if isLive n.payload then some (rowOf n.typeId n.nodeKey n.payload) else none := by
  rw [get?_afterNodes h]
  by_cases hlive : isLive n.payload = true
  · have hrow : rowOf n.typeId n.nodeKey n.payload ∈ liveRows nodes :=
      List.mem_map_of_mem (List.mem_filter.mpr ⟨hn, hlive⟩)
    have hget : (s.mirror.objects.setAll ObjectRow.instanceId id (liveRows nodes)).get?
        n.nodeKey = some (rowOf n.typeId n.nodeKey n.payload) :=
      get?_setAll_of_mem ObjectRow.instanceId id (nodup_live h) hrow
    have hkept : n.nodeKey ∉ goneIds nodes := by
      intro hgone
      obtain ⟨n', hn', hdead, hkey⟩ := mem_goneIds.mp hgone
      rw [eq_of_nodeKey h hn' hn hkey, hlive] at hdead
      cases hdead
    rw [if_pos hlive]
    refine Option.filter_eq_some_iff.mpr ⟨hget, ?_⟩
    simp [rowOf, hkept]
  · have hdead : isLive n.payload = false := by simpa using hlive
    have hgone : n.nodeKey ∈ goneIds nodes := mem_goneIds.mpr ⟨n, hn, hdead, rfl⟩
    have hnotlive : n.nodeKey ∉ (liveRows nodes).map ObjectRow.instanceId := by
      intro hmem
      obtain ⟨row, hrow, hid⟩ := List.mem_map.mp hmem
      obtain ⟨n', hn', rfl⟩ := List.mem_map.mp hrow
      obtain ⟨hn', hlive'⟩ := List.mem_filter.mp hn'
      rw [eq_of_nodeKey h hn' hn hid] at hlive'
      exact hlive hlive'
    rw [if_neg hlive, get?_setAll_of_notMem _ _ hnotlive, Option.filter_eq_none_iff]
    intro row hrow
    simp [hs _ _ hrow, hgone]

theorem get?_afterNodes_of_notMem {s : IndexedDomainStore} (hs : s.mirror.Keyed)
    (h : SoundBatch nodes) {k : String} (hk : ∀ n ∈ nodes, n.nodeKey ≠ k) :
    (s.afterNodes nodes).mirror.objects.get? k = s.mirror.objects.get? k := by
  have hnotlive : k ∉ (liveRows nodes).map ObjectRow.instanceId := by
    intro hmem
    obtain ⟨row, hrow, rfl⟩ := List.mem_map.mp hmem
    obtain ⟨n, hn, rfl⟩ := List.mem_map.mp hrow
    exact hk n (List.mem_of_mem_filter hn) rfl
  have hkept : k ∉ goneIds nodes := by
    intro hgone
    obtain ⟨n, hn, _, hkey⟩ := mem_goneIds.mp hgone
    exact hk n hn hkey
  rw [get?_afterNodes h, get?_setAll_of_notMem _ _ hnotlive]
  cases hget : s.mirror.objects.get? k with
  | none => rfl
  | some => simp [Option.filter, hs _ _ hget, hkept]

theorem liveObject?_upsertNodes_of_mem (h : SoundBatch nodes) {n : NodeUpsert} (hn : n ∈ nodes) :
    (nodes.foldl upsertNode g).liveObject? n.nodeKey =
      if isLive n.payload then some ⟨n.typeId, n.nodeKey, n.payload⟩ else none := by
  rw [liveObject?, get?_upsertNodes_of_mem h.nodup hn]
  cases hlive : isLive n.payload <;>
    simp [Option.filter, isLiveObject, h.objects n hn, hlive]

theorem liveObject?_upsertNodes_of_notMem {k : String} (hk : ∀ n ∈ nodes, n.nodeKey ≠ k) :
    (nodes.foldl upsertNode g).liveObject? k = g.liveObject? k := by
  rw [liveObject?, get?_upsertNodes_of_notMem hk]
  rfl

theorem keyed_upsertNodes (hg : g.Keyed) (h : SoundBatch nodes) :
    (nodes.foldl upsertNode g).Keyed := by
  refine ⟨?_, ?_⟩
  · intro k n hget
    by_cases hmem : ∃ m ∈ nodes, m.nodeKey = k
    · obtain ⟨m, hm, rfl⟩ := hmem
      rw [get?_upsertNodes_of_mem h.nodup hm] at hget
      cases hget
      rfl
    · rw [get?_upsertNodes_of_notMem fun m hm hkey => hmem ⟨m, hm, hkey⟩] at hget
      exact hg.nodes k n hget
  · rw [edges_foldl_upsertNode]
    exact hg.edges

theorem hasObject_after (h : SoundBatch nodes) {id : String} (hkept : id ∉ goneIds nodes)
    (hbefore : g.HasObject id) : (nodes.foldl upsertNode g).HasObject id := by
  by_cases hmem : ∃ n ∈ nodes, n.nodeKey = id
  · obtain ⟨n, hn, rfl⟩ := hmem
    rw [Graph.HasObject, liveObject?_upsertNodes_of_mem h hn]
    cases hlive : isLive n.payload with
    | true => rfl
    | false => exact absurd (mem_goneIds.mpr ⟨n, hn, hlive, rfl⟩) hkept
  · rw [Graph.HasObject, liveObject?_upsertNodes_of_notMem]
    · exact hbefore
    · exact fun n hn hkey => hmem ⟨n, hn, hkey⟩

theorem not_hasObject_of_gone (h : SoundBatch nodes) {id : String} (hgone : id ∈ goneIds nodes) :
    ¬ (nodes.foldl upsertNode g).HasObject id := by
  obtain ⟨n, hn, hdead, rfl⟩ := mem_goneIds.mp hgone
  rw [Graph.HasObject, liveObject?_upsertNodes_of_mem h hn, hdead]
  simp

end Nodes

section Edges

variable {g : Graph} {edges : List EdgeUpsert}

def linked (e : EdgeUpsert) : EdgeView := ⟨e.typeId, e.src, e.dst, e.discriminator, none⟩

def OwnKey (g : Graph) (e : EdgeUpsert) : Prop :=
  ∀ v ∈ g.edges.values, entryKey v.typeId v.src v.dst v.relation =
      entryKey e.typeId e.src e.dst e.discriminator → v = linked e

theorem ownKey_of_linkable (hg : g.Keyed) {e : EdgeUpsert} (h : Linkable g edges e) :
    OwnKey g e := by
  intro v hv hkey
  obtain ⟨k, hk⟩ := (mem_values_iff _ _).mp hv
  obtain ⟨htype, hsrc, hdst, hrelation⟩ := h.key_graph v hv hkey
  obtain ⟨_, hnone, _⟩ := hg.edges k v hk
  rw [linked, ← htype, ← hsrc, ← hdst, ← hrelation, ← hnone]

theorem keyed_upsertEdge (hg : g.Keyed) {e : EdgeUpsert} (hnamed : e.discriminator ≠ some "") :
    (g.upsertEdge e).Keyed := by
  refine ⟨hg.nodes, ?_⟩
  intro k v hget
  rw [upsertEdge, get?_set] at hget
  split at hget
  · next hk =>
    cases hget
    exact ⟨hk, rfl, hnamed⟩
  · exact hg.edges k v hget

theorem mem_values_upsertEdge (hg : g.Keyed) {e : EdgeUpsert} (hown : OwnKey g e) (v : EdgeView) :
    v ∈ (g.upsertEdge e).edges.values ↔ v ∈ g.edges.values ∨ v = linked e := by
  simp only [mem_values_iff, upsertEdge, get?_set]
  constructor
  · rintro ⟨k, hk⟩
    split at hk
    · cases hk
      exact Or.inr rfl
    · exact Or.inl ⟨k, hk⟩
  · rintro (⟨k, hk⟩ | rfl)
    · refine ⟨k, ?_⟩
      split
      · next heq =>
        have hkey := (hg.edges k v hk).1
        have hmem := (mem_values_iff _ _).mpr ⟨k, hk⟩
        rw [hown v hmem (hkey.symm.trans heq)]
        rfl
      · exact hk
    · refine ⟨entryKey e.typeId e.src e.dst e.discriminator, ?_⟩
      exact if_pos rfl

/-- The links of a batch add their edges. -/
theorem upsertEdges_spec (hg : g.Keyed) (hown : ∀ e ∈ edges, OwnKey g e)
    (hnamed : ∀ e ∈ edges, e.discriminator ≠ some "")
    (hbatch : ∀ e ∈ edges, ∀ v ∈ edges, entryKey v.typeId v.src v.dst v.discriminator =
        entryKey e.typeId e.src e.dst e.discriminator → v = e) :
    (g.upsertEdges edges).Keyed ∧ ∀ v, v ∈ (g.upsertEdges edges).edges.values ↔
        v ∈ g.edges.values ∨ ∃ e ∈ edges, v = linked e := by
  unfold upsertEdges
  induction edges generalizing g with
  | nil => exact ⟨hg, by simp⟩
  | cons e rest ih =>
    have hmem := mem_values_upsertEdge hg (hown e List.mem_cons_self)
    have hg' := keyed_upsertEdge hg (hnamed e List.mem_cons_self)
    have hown' : ∀ f ∈ rest, OwnKey (g.upsertEdge e) f := by
      intro f hf v hv hkey
      rcases (hmem v).mp hv with hv | rfl
      · exact hown f (List.mem_cons_of_mem _ hf) v hv hkey
      · rw [hbatch f (List.mem_cons_of_mem _ hf) e List.mem_cons_self hkey]
    obtain ⟨hkeyed, hvalues⟩ := ih hg' hown' (fun f hf => hnamed f (List.mem_cons_of_mem _ hf))
      (fun f hf v hv => hbatch f (List.mem_cons_of_mem _ hf) v (List.mem_cons_of_mem _ hv))
    refine ⟨hkeyed, ?_⟩
    intro v
    rw [List.foldl_cons, hvalues, hmem, or_assoc]
    simp only [List.mem_cons, exists_eq_or_imp]

theorem liveObject?_upsertEdges (k : String) :
    (g.upsertEdges edges).liveObject? k = g.liveObject? k := by
  unfold liveObject?
  rw [nodes_upsertEdges]

theorem hasObject_upsertEdges {id : String} :
    (g.upsertEdges edges).HasObject id ↔ g.HasObject id := by
  unfold Graph.HasObject
  rw [liveObject?_upsertEdges]

theorem keyed_upsertEdges (hg : g.Keyed) (h : ∀ e ∈ edges, Linkable g edges e) :
    (g.upsertEdges edges).Keyed :=
  (upsertEdges_spec hg (fun e he => ownKey_of_linkable hg (h e he))
    (fun e he => (h e he).named) (fun e he v hv => (h e he).key_batch v hv)).1

theorem hasRelation_upsertEdges (hg : g.Keyed) (h : ∀ e ∈ edges, Linkable g edges e)
    (v : EdgeView) :
    (g.upsertEdges edges).HasRelation v ↔
      g.HasRelation v ∨ ∃ e ∈ edges, isRelationType e.typeId = true ∧ v = linked e := by
  have hvalues := (upsertEdges_spec hg (fun e he => ownKey_of_linkable hg (h e he))
    (fun e he => (h e he).named) (fun e he v hv => (h e he).key_batch v hv)).2
  unfold Graph.HasRelation
  rw [hvalues, or_and_right]
  refine or_congr Iff.rfl ?_
  constructor
  · rintro ⟨⟨e, he, rfl⟩, htype⟩
    exact ⟨e, he, htype, rfl⟩
  · rintro ⟨e, he, htype, rfl⟩
    exact ⟨⟨e, he, rfl⟩, htype⟩

theorem hasRelation_deleteRelation
    {edgeTypeId src dst : String} {relation : Option String} {v : EdgeView} :
    (g.deleteRelation edgeTypeId src dst relation).1.HasRelation v ↔
      g.HasRelation v ∧ isRelation edgeTypeId src dst relation v = false := by
  unfold Graph.HasRelation deleteRelation
  simp only [mem_values_keepIf, Bool.not_eq_true']
  tauto

theorem keyed_deleteRelation (hg : g.Keyed)
    (edgeTypeId src dst : String) (relation : Option String) :
    (g.deleteRelation edgeTypeId src dst relation).1.Keyed := by
  refine ⟨hg.nodes, ?_⟩
  intro k e hget
  change (g.edges.keepIf _).get? k = some e at hget
  rw [get?_keepIf] at hget
  exact hg.edges k e (Option.filter_eq_some_iff.mp hget).1

theorem named_of_hasRelation (hg : g.Keyed) {e : EdgeView} (he : g.HasRelation e) :
    e.relation ≠ some "" := by
  obtain ⟨k, hk⟩ := (mem_values_iff _ _).mp he.1
  exact (hg.edges k e hk).2.2

theorem answersFor_edgeRow {want : Option String} {e : EdgeView} (h : e.relation ≠ some "") :
    DomainMirror.answersFor want (edgeRow e.typeId e.src e.dst e.relation) =
      !namesOther want e.relation := by
  cases want with
  | none => rfl
  | some want =>
    cases hrelation : e.relation with
    | none => simp [DomainMirror.answersFor, edgeRow, namesOther]
    | some is =>
      have hne : is ≠ "" := by
        rintro rfl
        exact h hrelation
      by_cases heq : is = want
      · simp [DomainMirror.answersFor, edgeRow, namesOther, heq]
      · have heq' : want ≠ is := fun h => heq h.symm
        simp [DomainMirror.answersFor, edgeRow, namesOther, heq, heq', hne]

theorem answersFor_of_isRelation
    {edgeTypeId src dst : String} {relation : Option String} {e : EdgeView}
    (hnamed : e.relation ≠ some "") :
    ((edgeRow e.typeId e.src e.dst e.relation).edgeTypeId == edgeTypeId &&
        (edgeRow e.typeId e.src e.dst e.relation).src == src &&
        (edgeRow e.typeId e.src e.dst e.relation).dst == dst &&
        DomainMirror.answersFor relation (edgeRow e.typeId e.src e.dst e.relation)) =
      isRelation edgeTypeId src dst relation e := by
  rw [answersFor_edgeRow hnamed]
  unfold isRelation
  congr 1
  cases relation with
  | none => rfl
  | some want =>
    cases e.relation with
    | none => rfl
    | some is =>
      have hcomm : (want == is) = (is == want) := BEq.comm
      simp [namesOther, bne, hcomm]

end Edges

section Listing

variable {g : Graph} {typeIds : List String}

structure Modelled (g : Graph) (typeIds : List String) : Prop where
  types_objects : ∀ t ∈ typeIds, isObjectType t = true
  types : ∀ id n, g.liveObject? id = some n → n.typeId ∈ typeIds

theorem mem_listObjects (hg : g.Keyed) (h : Modelled g typeIds) (n : ObjectNode) :
    n ∈ g.listObjects typeIds ↔ g.liveObject? n.instanceId = some n := by
  rw [listObjects, List.mem_filter, mem_values_iff, Bool.and_eq_true,
    decide_eq_true_eq]
  constructor
  · rintro ⟨⟨id, hget⟩, htype, hlive⟩
    rw [hg.nodes id n hget]
    refine Option.filter_eq_some_iff.mpr ⟨hget, ?_⟩
    rw [isLiveObject, h.types_objects _ htype, hlive]
    rfl
  · intro hobject
    obtain ⟨hget, hlive⟩ := Option.filter_eq_some_iff.mp hobject
    rw [isLiveObject, Bool.and_eq_true] at hlive
    exact ⟨⟨_, hget⟩, h.types _ n hobject, hlive.2⟩

theorem instanceId_of_liveObject? (hg : g.Keyed) {id : String} {n : ObjectNode}
    (hn : g.liveObject? id = some n) : n.instanceId = id :=
  hg.nodes id n (Option.filter_eq_some_iff.mp hn).1

theorem find?_listObjects (hg : g.Keyed) (h : Modelled g typeIds) (id : String) :
    (g.listObjects typeIds).find? (fun n => n.instanceId = id) = g.liveObject? id := by
  cases hfind : (g.listObjects typeIds).find? (fun n => n.instanceId = id) with
  | some n =>
    have hlisted := (mem_listObjects hg h n).mp (List.mem_of_find?_eq_some hfind)
    have hid : n.instanceId = id := by simpa using List.find?_some hfind
    rw [← hid, hlisted]
  | none =>
    cases hobject : g.liveObject? id with
    | none => rfl
    | some n =>
      have hid := instanceId_of_liveObject? hg hobject
      have hlisted : n ∈ g.listObjects typeIds := by
        rw [mem_listObjects hg h, hid]
        exact hobject
      exact absurd (decide_eq_true hid) (List.find?_eq_none.mp hfind n hlisted)

theorem mem_ids_listObjects (hg : g.Keyed) (h : Modelled g typeIds) {id : String}
    (hobject : g.HasObject id) : id ∈ (g.listObjects typeIds).map ObjectNode.instanceId := by
  obtain ⟨n, hn⟩ := Option.isSome_iff_exists.mp hobject
  have hid := instanceId_of_liveObject? hg hn
  refine List.mem_map.mpr ⟨n, (mem_listObjects hg h n).mpr ?_, hid⟩
  rw [hid]
  exact hn

end Listing

end ReadModel
end StudioWeb
