import StudioWeb.ReadModel.ConcurrentMirror

/-!
# What a call writes in the mirror is what the graph says

A call writes the graph and leaves statements to do.  Under a condition on the graph
before it, the statements set every row whose truth the call has changed, and to the
truth after it.
-/

namespace StudioWeb
namespace ReadModel

open WriteThrough List Option System

/-- The condition of a call on the graph: a batch creates an object only where no
relation is left of one that was there, and a link joins live objects by a key of its
own. -/
def CallOk (g : Graph) : Mutation → Prop
  | .upsertNodes nodes => SoundBatch nodes ∧
      ∀ n ∈ nodes, isLive n.payload = true → ¬ g.HasObject n.nodeKey → g.Unrelated n.nodeKey
  | .createRelation edgeTypeId src dst discriminator =>
    Linkable g [⟨edgeTypeId, src, dst, discriminator⟩] ⟨edgeTypeId, src, dst, discriminator⟩
  | .upsertEdges edges => ∀ e ∈ edges, Linkable g edges e
  | .deleteRelation _ _ _ _ => True

/-- What is left of an operation: the rows of an upsert are distinct, a withdrawal is all
there is, and what removes a row comes after the generation has moved, which it does first. -/
structure TodoOk (bumped : Bool) (todo : List Todo) : Prop where
  nodup : ∀ rows, Todo.write (.writeObjects rows) ∈ todo → (rows.map ObjectRow.instanceId).Nodup
  unfill : Todo.unfill ∈ todo → todo = [.unfill]
  bump : Todo.bump ∉ todo.tail
  bumped : bumped = true ∨ (∃ rest, todo = .bump :: rest) ∨
    ∀ statement, Todo.write statement ∈ todo → ∀ k, statement.change k ≠ some none

structure CallSpec (g g' : Graph) (todo : List Todo) : Prop where
  keyed : g'.Keyed
  covers : ∀ k, truthOf g' k ≠ truthOf g k → (settled todo k).isSome = true
  settles : ∀ k v, settled todo k = some v → v = truthOf g' k
  ok : TodoOk false todo
  /-- A relation is set, or was there, and so were its ends. -/
  relations : ∀ e, g'.HasRelation e →
    (settled todo (.edge (edgeRow e.typeId e.src e.dst e.relation))).isSome = true ∨
      (g.HasRelation e ∧ (g'.HasObject e.src → g.HasObject e.src) ∧
        (g'.HasObject e.dst → g.HasObject e.dst))

section Truth

variable {g : Graph}

variable {row : EdgeRow}

theorem relates_iff :
    g.relates row = true ↔ ∃ e, g.HasRelation e ∧
      edgeRow e.typeId e.src e.dst e.relation = row ∧ g.HasObject e.src ∧ g.HasObject e.dst := by
  simp only [Graph.relates, List.any_eq_true, Bool.and_eq_true, decide_eq_true_eq,
    Graph.HasRelation, and_assoc]

theorem truthOf_edge_of_relates (h : g.relates row = true) :
    truthOf g (.edge row) = some .edge := by
  simp only [truthOf, h, if_true]

theorem truthOf_edge_eq_none
    (h : ∀ e, g.HasRelation e → edgeRow e.typeId e.src e.dst e.relation = row →
      ¬ (g.HasObject e.src ∧ g.HasObject e.dst)) :
    truthOf g (.edge row) = none := by
  have hfalse : g.relates row = false := by
    by_contra htrue
    obtain ⟨e, he, hrow, hends⟩ := relates_iff.mp (by simpa using htrue)
    exact h e he hrow hends
  simp only [truthOf, hfalse, Bool.false_eq_true, if_false]

theorem truthOf_edge_congr {g' : Graph} (h : g'.relates row = true ↔ g.relates row = true) :
    truthOf g' (.edge row) = truthOf g (.edge row) := by
  simp only [truthOf, h]

end Truth

section Nodes

variable {g : Graph} {nodes : List NodeUpsert}

theorem settled_afterNodesTodo (h : SoundBatch nodes) :
    settled (afterNodesTodo nodes) = fun
      | .object id => if id ∈ goneIds nodes then some none else
          ((liveRows nodes).find? fun row => row.instanceId = id).map fun row =>
            some (.object row)
      | .edge row => if row.src ∈ goneIds nodes ∨ row.dst ∈ goneIds nodes then some none
          else none := by
  have htodo : settled (afterNodesTodo nodes) = settled
      [.write (.writeObjects (liveRows nodes)), .write (.deleteEdgesOf (goneIds nodes)),
        .write (.deleteObjects (goneIds nodes))] := by
    unfold afterNodesTodo
    rw [objectRows_eq h]
    dsimp only
    split <;> rfl
  rw [htodo]
  funext k
  cases k with
  | object =>
    simp only [settled, filterMap_cons, filterMap_nil, Todo.change?, settle,
      Statement.change, none_or, or_none]
    split_ifs <;> rfl
  | edge =>
    simp only [settled, filterMap_cons, filterMap_nil, Todo.change?, settle,
      Statement.change, none_or, or_none]

variable {n : NodeUpsert}

section

variable (h : SoundBatch nodes)
include h

theorem find?_liveRows (hn : n ∈ nodes) (hlive : isLive n.payload = true) :
    (liveRows nodes).find? (fun row => row.instanceId = n.nodeKey) =
      some (rowOf n.typeId n.nodeKey n.payload) := by
  have hmem : rowOf n.typeId n.nodeKey n.payload ∈ liveRows nodes :=
    List.mem_map_of_mem (mem_filter.mpr ⟨hn, hlive⟩)
  cases hfind : (liveRows nodes).find? (fun row => row.instanceId = n.nodeKey) with
  | none =>
    have hnone := find?_eq_none.mp hfind _ hmem
    exact absurd (decide_eq_true rfl) hnone
  | some row =>
    have hrow := mem_of_find?_eq_some hfind
    have hid : row.instanceId = n.nodeKey := by simpa using find?_some hfind
    rw [inj_on_of_nodup_map (nodup_live h) hrow hmem hid]

theorem notMem_goneIds (hn : n ∈ nodes)
    (hlive : isLive n.payload = true) : n.nodeKey ∉ goneIds nodes := by
  intro hgone
  obtain ⟨n', hn', hdead, hkey⟩ := mem_goneIds.mp hgone
  rw [eq_of_nodeKey h hn' hn hkey, hlive] at hdead
  cases hdead

theorem settled_object (hn : n ∈ nodes) :
    settled (afterNodesTodo nodes) (.object n.nodeKey) =
      some (truthOf (nodes.foldl Graph.upsertNode g) (.object n.nodeKey)) := by
  rw [settled_afterNodesTodo h]
  simp only [truthOf, liveObject?_upsertNodes_of_mem h hn]
  cases hlive : isLive n.payload with
  | true =>
    rw [if_neg (notMem_goneIds h hn hlive), find?_liveRows h hn hlive]
    rfl
  | false =>
    rw [if_pos (mem_goneIds.mpr ⟨n, hn, hlive, rfl⟩)]
    rfl

theorem settled_object_eq_none {id : String} (hid : ∀ n ∈ nodes, n.nodeKey ≠ id) :
    settled (afterNodesTodo nodes) (.object id) = none := by
  have hgone : id ∉ goneIds nodes := by
    intro hmem
    obtain ⟨n, hn, _, hkey⟩ := mem_goneIds.mp hmem
    exact hid n hn hkey
  rw [settled_afterNodesTodo h]
  simp only [if_neg hgone, map_eq_none_iff, find?_eq_none, decide_eq_true_eq]
  intro row hrow hkey
  obtain ⟨n, hn, rfl⟩ := List.mem_map.mp hrow
  exact hid n (mem_of_mem_filter hn) hkey

/-- Where a batch creates no object with relations, an end that is live after it and has
one was live before it. -/
theorem hasObject_before
    (hcreated : ∀ n ∈ nodes, isLive n.payload = true → ¬ g.HasObject n.nodeKey →
      g.Unrelated n.nodeKey)
    {id : String} (hrelated : ¬ g.Unrelated id)
    (hafter : (nodes.foldl Graph.upsertNode g).HasObject id) : g.HasObject id := by
  by_cases hmem : ∃ n ∈ nodes, n.nodeKey = id
  · obtain ⟨n, hn, rfl⟩ := hmem
    rw [Graph.HasObject, liveObject?_upsertNodes_of_mem h hn] at hafter
    cases hlive : isLive n.payload with
    | true =>
      by_contra hbefore
      exact hrelated (hcreated n hn hlive hbefore)
    | false =>
      rw [hlive] at hafter
      cases hafter
  · rw [Graph.HasObject, liveObject?_upsertNodes_of_notMem] at hafter
    · exact hafter
    · exact fun n hn hkey => hmem ⟨n, hn, hkey⟩

theorem todoOk_afterNodesTodo : TodoOk false (afterNodesTodo nodes) := by
  have hrows : objectRows nodes = (liveRows nodes, goneIds nodes) := objectRows_eq h
  have hshape : ∀ entry ∈ afterNodesTodo nodes, entry = .bump ∨
      entry = .write (.writeObjects (liveRows nodes)) ∨
      entry = .write (.deleteEdgesOf (goneIds nodes)) ∨
      entry = .write (.deleteObjects (goneIds nodes)) := by
    intro entry hentry
    rw [afterNodesTodo, hrows, mem_append] at hentry
    rcases hentry with hentry | hentry
    · split at hentry
      · cases hentry
      · exact Or.inl (mem_singleton.mp hentry)
    · right
      simpa only [mem_cons, not_mem_nil, or_false] using hentry
  constructor
  · intro rows hmem
    rcases hshape _ hmem with heq | heq | heq | heq
    · cases heq
    · cases heq
      exact nodup_live h
    · cases heq
    · cases heq
  · intro hmem
    rcases hshape _ hmem with heq | heq | heq | heq <;> cases heq
  · rw [afterNodesTodo, hrows]
    dsimp only
    split <;> simp
  · right
    cases hgone : goneIds nodes with
    | cons id rest =>
      left
      refine ⟨[.write (.writeObjects (liveRows nodes)), .write (.deleteEdgesOf (id :: rest)),
        .write (.deleteObjects (id :: rest))], ?_⟩
      rw [afterNodesTodo, hrows, hgone]
      rfl
    | nil =>
      right
      intro statement hmem k
      rw [hgone] at hshape
      rcases hshape _ hmem with heq | heq | heq | heq
      · cases heq
      · cases heq
        cases k with
        | object => simp [Statement.change]
        | edge => simp [Statement.change]
      · cases heq
        cases k with
        | object => simp [Statement.change]
        | edge => simp [Statement.change]
      · cases heq
        cases k with
        | object => simp [Statement.change]
        | edge => simp [Statement.change]

end

theorem upsertNodes_spec (hg : g.Keyed) (h : SoundBatch nodes)
    (hcreated : ∀ n ∈ nodes, isLive n.payload = true → ¬ g.HasObject n.nodeKey →
      g.Unrelated n.nodeKey) :
    CallSpec g (nodes.foldl Graph.upsertNode g) (afterNodesTodo nodes) := by
  have hrelated : ∀ e, g.HasRelation e → ¬ g.Unrelated e.src ∧ ¬ g.Unrelated e.dst :=
    fun e he => ⟨fun hun => (hun e he).1 rfl, fun hun => (hun e he).2 rfl⟩
  have hedge : ∀ row, settled (afterNodesTodo nodes) (.edge row) =
      if row.src ∈ goneIds nodes ∨ row.dst ∈ goneIds nodes then some none else none := by
    intro row
    rw [settled_afterNodesTodo h]
  constructor
  · exact keyed_upsertNodes hg h
  · intro k hne
    cases k with
    | object id =>
      by_cases hmem : ∃ n ∈ nodes, n.nodeKey = id
      · obtain ⟨n, hn, rfl⟩ := hmem
        rw [settled_object (g := g) h hn]
        rfl
      · refine absurd ?_ hne
        simp only [truthOf]
        rw [liveObject?_upsertNodes_of_notMem fun n hn hkey => hmem ⟨n, hn, hkey⟩]
    | edge row =>
      rw [hedge]
      by_cases hgone : row.src ∈ goneIds nodes ∨ row.dst ∈ goneIds nodes
      · rw [if_pos hgone]
        rfl
      · refine absurd (truthOf_edge_congr ?_) hne
        simp only [relates_iff, hasRelation_upsertNodes]
        constructor
        · rintro ⟨e, he, hrow, hsrc, hdst⟩
          obtain ⟨hsrc', hdst'⟩ := hrelated e he
          exact ⟨e, he, hrow, hasObject_before h hcreated hsrc' hsrc,
            hasObject_before h hcreated hdst' hdst⟩
        · rintro ⟨e, he, rfl, hsrc, hdst⟩
          obtain ⟨hsrc', hdst'⟩ := not_or.mp hgone
          exact ⟨e, he, rfl, hasObject_after h hsrc' hsrc, hasObject_after h hdst' hdst⟩
  · intro k v hv
    cases k with
    | object id =>
      by_cases hmem : ∃ n ∈ nodes, n.nodeKey = id
      · obtain ⟨n, hn, rfl⟩ := hmem
        rw [settled_object (g := g) h hn] at hv
        exact (some.inj hv).symm
      · rw [settled_object_eq_none h fun n hn hkey => hmem ⟨n, hn, hkey⟩] at hv
        cases hv
    | edge =>
      rw [hedge] at hv
      split at hv
      · next hgone =>
        cases hv
        refine (truthOf_edge_eq_none ?_).symm
        rintro e _ rfl ⟨hsrc, hdst⟩
        rcases hgone with hgone | hgone
        · exact not_hasObject_of_gone h hgone hsrc
        · exact not_hasObject_of_gone h hgone hdst
      · cases hv
  · exact todoOk_afterNodesTodo h
  · intro e he
    have hbefore := (hasRelation_upsertNodes e).mp he
    obtain ⟨hsrc, hdst⟩ := hrelated e hbefore
    exact Or.inr ⟨hbefore, hasObject_before h hcreated hsrc, hasObject_before h hcreated hdst⟩

end Nodes

section Edges

variable {g : Graph} {edges : List EdgeUpsert}

def linkRows (edges : List EdgeUpsert) : List EdgeRow :=
  (edges.filter fun e => isRelationType e.typeId).map fun e =>
    edgeRow e.typeId e.src e.dst e.discriminator

theorem mem_linkRows {row : EdgeRow} :
    row ∈ linkRows edges ↔ ∃ e ∈ edges, isRelationType e.typeId = true ∧
      edgeRow e.typeId e.src e.dst e.discriminator = row := by
  simp only [linkRows, List.mem_map, mem_filter, and_assoc]

theorem settled_writeEdges (rows : List EdgeRow) :
    settled [.write (.writeEdges rows)] = fun
      | .object _ => none
      | .edge row => if row ∈ rows then some (some .edge) else none := by
  funext k
  cases k with
  | object => rfl
  | edge =>
    simp only [settled, filterMap_cons, filterMap_nil, Todo.change?, settle,
      Statement.change, none_or]

theorem upsertEdges_callSpec (hg : g.Keyed) (h : ∀ e ∈ edges, Linkable g edges e) :
    CallSpec g (g.upsertEdges edges) [.write (.writeEdges (linkRows edges))] := by
  have hrelation := hasRelation_upsertEdges hg h
  have hlinked : ∀ e ∈ edges, isRelationType e.typeId = true →
      (g.upsertEdges edges).relates (edgeRow e.typeId e.src e.dst e.discriminator) = true := by
    intro e he htype
    refine relates_iff.mpr ⟨linked e, (hrelation _).mpr (Or.inr ⟨e, he, htype, rfl⟩), rfl, ?_⟩
    exact ⟨hasObject_upsertEdges.mpr ((h e he).src_live htype),
      hasObject_upsertEdges.mpr ((h e he).dst_live htype)⟩
  constructor
  · exact keyed_upsertEdges hg h
  · intro k hne
    rw [settled_writeEdges]
    cases k with
    | object =>
      refine absurd ?_ hne
      simp only [truthOf, liveObject?_upsertEdges]
    | edge row =>
      by_cases hrow : row ∈ linkRows edges
      · simp only [if_pos hrow, isSome_some]
      · refine absurd (truthOf_edge_congr ?_) hne
        simp only [relates_iff, hasObject_upsertEdges, hrelation]
        constructor
        · rintro ⟨v, hv | ⟨e, he, htype, rfl⟩, heq, hends⟩
          · exact ⟨v, hv, heq, hends⟩
          · exact absurd (mem_linkRows.mpr ⟨e, he, htype, heq⟩) hrow
        · rintro ⟨v, hv, heq, hends⟩
          exact ⟨v, Or.inl hv, heq, hends⟩
  · intro k v hv
    rw [settled_writeEdges] at hv
    cases k with
    | object => cases hv
    | edge =>
      dsimp only at hv
      split at hv
      · next hrow =>
        cases hv
        obtain ⟨e, he, htype, rfl⟩ := mem_linkRows.mp hrow
        exact (truthOf_edge_of_relates (hlinked e he htype)).symm
      · cases hv
  · constructor
    · intro rows hmem
      cases mem_singleton.mp hmem
    · intro hmem
      cases mem_singleton.mp hmem
    · simp
    · right
      right
      intro statement hmem k
      cases mem_singleton.mp hmem
      cases k with
      | object => simp [Statement.change]
      | edge =>
        simp only [Statement.change]
        split <;> simp
  · intro v hv
    rcases (hrelation v).mp hv with hv | ⟨e, he, htype, rfl⟩
    · right
      exact ⟨hv, hasObject_upsertEdges.mp, hasObject_upsertEdges.mp⟩
    · left
      have hrow : edgeRow e.typeId e.src e.dst e.discriminator ∈ linkRows edges :=
        mem_linkRows.mpr ⟨e, he, htype, rfl⟩
      rw [settled_writeEdges]
      change (if edgeRow e.typeId e.src e.dst e.discriminator ∈ linkRows edges then
        some (some Cell.edge) else none).isSome = true
      rw [if_pos hrow]
      rfl

theorem deleteRelation_callSpec (hg : g.Keyed)
    (edgeTypeId src dst : String) (relation : Option String) :
    CallSpec g (g.deleteRelation edgeTypeId src dst relation).1
      [.bump, .write (.deleteEdge edgeTypeId src dst relation)] := by
  have hobject : ∀ id, (g.deleteRelation edgeTypeId src dst relation).1.HasObject id ↔
      g.HasObject id := fun id => Iff.rfl
  have hsettled : ∀ row : EdgeRow,
      settled [.bump, .write (.deleteEdge edgeTypeId src dst relation)] (.edge row) =
        if row.edgeTypeId == edgeTypeId && row.src == src && row.dst == dst &&
          DomainMirror.answersFor relation row then some none else none := by
    intro row
    simp only [settled, filterMap_cons, filterMap_nil, Todo.change?, settle,
      Statement.change, none_or]
  constructor
  · exact keyed_deleteRelation hg edgeTypeId src dst relation
  · intro k hne
    cases k with
    | object => exact absurd rfl hne
    | edge row =>
      rw [hsettled]
      by_cases hnamed : (row.edgeTypeId == edgeTypeId && row.src == src && row.dst == dst &&
          DomainMirror.answersFor relation row) = true
      · rw [if_pos hnamed]
        rfl
      · refine absurd (truthOf_edge_congr ?_) hne
        simp only [relates_iff, hobject, hasRelation_deleteRelation]
        constructor
        · rintro ⟨v, ⟨hv, _⟩, heq, hends⟩
          exact ⟨v, hv, heq, hends⟩
        · rintro ⟨v, hv, rfl, hends⟩
          rw [answersFor_of_isRelation (named_of_hasRelation hg hv)] at hnamed
          exact ⟨v, ⟨hv, by simpa using hnamed⟩, rfl, hends⟩
  · intro k v hv
    cases k with
    | object => cases hv
    | edge =>
      rw [hsettled] at hv
      split at hv
      · next hnamed =>
        cases hv
        refine (truthOf_edge_eq_none ?_).symm
        rintro e he rfl _
        obtain ⟨hbefore, hkept⟩ := hasRelation_deleteRelation.mp he
        rw [answersFor_of_isRelation (named_of_hasRelation hg hbefore), hkept] at hnamed
        cases hnamed
      · cases hv
  · constructor
    · intro rows hmem
      simp only [mem_cons, not_mem_nil, or_false] at hmem
      rcases hmem with heq | heq <;> cases heq
    · intro hmem
      simp only [mem_cons, not_mem_nil, or_false] at hmem
      rcases hmem with heq | heq <;> cases heq
    · simp
    · exact Or.inr (Or.inl ⟨_, rfl⟩)
  · intro v hv
    exact Or.inr ⟨(hasRelation_deleteRelation.mp hv).1, id, id⟩

end Edges

theorem callSpec_refl {g : Graph} (hg : g.Keyed) : CallSpec g g [] := by
  refine ⟨hg, fun k h => absurd rfl h, ?_, ⟨?_, ?_, ?_, ?_⟩, ?_⟩
  · intro k v hv
    cases hv
  · intro rows hmem
    cases hmem
  · intro hmem
    cases hmem
  · simp
  · right
    right
    intro statement hmem
    cases hmem
  · exact fun e he => Or.inr ⟨he, id, id⟩

/-- **What a call leaves to do is what the graph says after it.** -/
theorem graphWrite_spec {g : Graph} {call : Mutation} (hg : g.Keyed) (h : CallOk g call) :
    CallSpec g (graphWrite g call).1 (graphWrite g call).2 := by
  cases call with
  | upsertNodes nodes =>
    obtain ⟨hsound, hcreated⟩ := h
    rcases insertNodes_cases (g := g) hsound with hok | ⟨error, hrefused⟩
    · have hwrite : graphWrite g (.upsertNodes nodes) =
          (nodes.foldl Graph.upsertNode g, afterNodesTodo nodes) := by
        simp only [graphWrite, Graph.upsertNodes, hok]
        rfl
      rw [hwrite]
      exact upsertNodes_spec hg hsound hcreated
    · have hwrite : graphWrite g (.upsertNodes nodes) = (g, []) := by
        simp only [graphWrite, Graph.upsertNodes, hrefused]
        rfl
      rw [hwrite]
      exact callSpec_refl hg
  | createRelation edgeTypeId src dst discriminator =>
    have hlinks : ∀ e ∈ [EdgeUpsert.mk edgeTypeId src dst discriminator],
        Linkable g [⟨edgeTypeId, src, dst, discriminator⟩] e := by
      intro e he
      rw [mem_singleton.mp he]
      exact h
    have hspec := upsertEdges_callSpec hg hlinks
    cases htype : isRelationType edgeTypeId with
    | true =>
      have hrows : linkRows [⟨edgeTypeId, src, dst, discriminator⟩] =
          [edgeRow edgeTypeId src dst discriminator] := by
        simp [linkRows, htype]
      rw [hrows] at hspec
      simp only [graphWrite, htype, if_true]
      exact hspec
    | false =>
      have hrows : linkRows [⟨edgeTypeId, src, dst, discriminator⟩] = [] := by
        simp [linkRows, htype]
      rw [hrows] at hspec
      have hsettled : settled [.write (.writeEdges [])] = settled [] := by
        rw [settled_writeEdges]
        funext k
        cases k <;> simp [settled, settle]
      simp only [graphWrite, htype, Bool.false_eq_true, if_false]
      refine ⟨hspec.keyed, hsettled ▸ hspec.covers, hsettled ▸ hspec.settles,
        (callSpec_refl hg).ok, hsettled ▸ hspec.relations⟩
  | upsertEdges => exact upsertEdges_callSpec hg h
  | deleteRelation edgeTypeId src dst relation =>
    exact deleteRelation_callSpec hg edgeTypeId src dst relation

theorem any_isUnfill_graphWrite (g : Graph) (call : Mutation) :
    (graphWrite g call).2.any Todo.isUnfill = false := by
  cases call with
  | upsertNodes =>
    simp only [graphWrite]
    split
    · rfl
    · dsimp only [afterNodesTodo]
      split <;> rfl
  | createRelation =>
    simp only [graphWrite]
    split <;> rfl
  | upsertEdges => rfl
  | deleteRelation => rfl

end ReadModel
end StudioWeb
