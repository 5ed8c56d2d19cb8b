import StudioWeb.DomainModel.Ontology
import Mathlib.Data.List.Chain
import Mathlib.Data.List.Dedup
import Mathlib.Data.List.Perm.Subperm
import Mathlib.Logic.Relation

/-!
# The fields that a type has

`ancestors` walks the chain of `extends` from a type, however the document's types extend
each other, and `effective_properties` lays the fields of its types over each other, those
of the farthest base first.
-/

namespace StudioWeb
namespace DomainModel

open JsonText Json Relation

namespace Ontology

open List Option

variable (o : Ontology)

section Walk

def baseOf (id : String) : Option String :=
  (o.entity id).bind fun e =>
    ((e.getStr? "extends").filter (fun b => b ≠ "")).bind o.resolveEntityId

def Extends (id base : String) : Prop := o.baseOf id = some base

/-- A part of the walk from a type, up to its last id. -/
structure Walked (id last : String) (chain : List String) : Prop where
  first : chain.head? = some id
  last : chain.getLast? = some last
  follows : chain.IsChain o.Extends
  once : chain.Nodup
  reached : ∀ x ∈ chain, ReflTransGen o.Extends id x
  known : chain ⊆ id :: o.entityIds

variable {o} {id last base reference : String} {chain : List String}

theorem mem_entityIds_of_resolve (h : o.resolveEntityId reference = some base) :
    base ∈ o.entityIds := by
  unfold resolveEntityId at h
  dsimp only at h
  split_ifs at h with _ hhas
  · obtain rfl := some.inj h
    obtain ⟨e, he⟩ := isSome_iff_exists.mp hhas
    have hid : idOf e = some (String.ofList (Rust.trim reference.toList)) := by
      simpa using find?_some he
    exact mem_filterMap.mpr ⟨e, mem_of_find?_eq_some he, hid⟩
  · exact mem_of_find?_eq_some h

theorem mem_entityIds_of_extends (h : o.Extends id base) : base ∈ o.entityIds := by
  obtain ⟨e, _, he⟩ := bind_eq_some_iff.mp h
  obtain ⟨b, _, hb⟩ := bind_eq_some_iff.mp he
  exact mem_entityIds_of_resolve hb

theorem Walked.length_le (h : o.Walked id last chain) : chain.length ≤ o.entities.length + 1 := by
  have hsub : chain.length ≤ (id :: o.entityIds).length :=
    (subperm_of_subset h.once h.known).length_le
  have hids : o.entityIds.length ≤ o.entities.length := length_filterMap_le _ _
  rw [length_cons] at hsub
  omega

theorem Walked.next (h : o.Walked id last chain) (hbase : o.Extends last base)
    (hnew : base ∉ chain) : o.Walked id base (chain ++ [base]) := by
  have hlast : last ∈ chain := mem_of_getLast? h.last
  refine ⟨?_, by simp, ?_, ?_, ?_, ?_⟩
  · rw [head?_append, h.first]
    rfl
  · refine h.follows.append (.singleton base) ?_
    intro x hx y hy
    obtain rfl := some.inj (h.last.symm.trans hx)
    obtain rfl := some.inj hy
    exact hbase
  · exact nodup_append.mpr ⟨h.once, nodup_singleton base,
      fun x hx y hy hxy => hnew (mem_singleton.mp hy ▸ hxy ▸ hx)⟩
  · intro x hx
    rcases mem_append.mp hx with hx | hx
    · exact h.reached x hx
    · obtain rfl := mem_singleton.mp hx
      exact (h.reached last hlast).tail hbase
  · intro x hx
    rcases mem_append.mp hx with hx | hx
    · exact h.known hx
    · obtain rfl := mem_singleton.mp hx
      exact mem_cons_of_mem _ (mem_entityIds_of_extends hbase)

theorem Walked.closed (h : o.Walked id last chain)
    (hend : ∀ base, o.Extends last base → base ∈ chain) {x : String}
    (hx : ReflTransGen o.Extends id x) : x ∈ chain := by
  induction hx with
  | refl => exact mem_of_head? h.first
  | @tail x y _ hxy ih =>
    obtain ⟨front, back, rfl⟩ := append_of_mem ih
    cases back with
    | nil =>
      have hlast : x = last := by simpa using h.last
      exact hend y (hlast ▸ hxy)
    | cons z =>
      have hxz : o.Extends x z := h.follows.right_of_append.rel
      obtain rfl : y = z := some.inj (hxy.symm.trans hxz)
      simp

theorem ancestorsFrom_walked (fuel : Nat) (h : o.Walked id last chain)
    (hfuel : o.entities.length + 2 ≤ fuel + chain.length) :
    ∃ final, o.Walked id final (o.ancestorsFrom fuel last chain) ∧
      ∀ base, o.Extends final base → base ∈ o.ancestorsFrom fuel last chain := by
  induction fuel generalizing last chain with
  | zero =>
    have hlen := h.length_le
    omega
  | succ fuel ih =>
    rw [ancestorsFrom, ← baseOf]
    cases hbase : o.baseOf last with
    | none =>
      refine ⟨last, h, fun base hb => ?_⟩
      rw [Extends, hbase] at hb
      cases hb
    | some base =>
      by_cases hmem : base ∈ chain
      · simp only [hmem, if_true]
        refine ⟨last, h, fun other hother => ?_⟩
        obtain rfl := some.inj (hbase.symm.trans hother)
        exact hmem
      · simp only [hmem, if_false]
        refine ih (h.next hbase hmem) ?_
        rw [length_append, length_singleton]
        omega

/-- **The walk** has every base that the chain reaches, once, each before its own base. -/
theorem ancestors_walk (o : Ontology) (id : String) :
    (∃ last, o.Walked id last (o.ancestors id)) ∧
      ∀ x, x ∈ o.ancestors id ↔ ReflTransGen o.Extends id x := by
  have hstart : o.Walked id id [id] :=
    ⟨rfl, rfl, .singleton id, nodup_singleton id, by simp [ReflTransGen.refl], by simp⟩
  obtain ⟨last, hwalked, hend⟩ := ancestorsFrom_walked (o.entities.length + 1) hstart (by simp)
  exact ⟨⟨last, hwalked⟩, fun x => ⟨hwalked.reached x, hwalked.closed hend⟩⟩

end Walk

section Fields

/-- The fields that a type declares itself. -/
def declared (id : String) : List EffectiveProperty :=
  (((o.entity id).bind properties).getD []).filterMap (effectiveProperty id)

/-- The names declared along a chain, the farthest first. -/
def introduced (chain : List String) : List String :=
  (chain.reverse.flatMap o.declared).map EffectiveProperty.name

/-- The fields laid over each other along a chain. -/
def layered (chain : List String) : List EffectiveProperty :=
  chain.reverse.foldl (fun out ancestor => (o.declared ancestor).foldl overrideProperty out) []

theorem effectiveProperties_eq (id : String) :
    o.effectiveProperties id = o.layered (o.ancestors id) := rfl

def firsts (names : List String) : List String := names.reverse.dedup.reverse

variable {o} {out ps : List EffectiveProperty} {p q : EffectiveProperty} {names : List String}
variable {id : String} {chain : List String}

theorem mem_firsts {name : String} : name ∈ firsts names ↔ name ∈ names := by simp [firsts]

theorem firsts_append_singleton (names : List String) (name : String) :
    firsts (names ++ [name]) = if name ∈ names then firsts names else firsts names ++ [name] := by
  unfold firsts
  rw [reverse_append, reverse_singleton, singleton_append]
  split_ifs with h
  · rw [dedup_cons_of_mem (mem_reverse.mpr h)]
  · rw [dedup_cons_of_notMem (by simpa using h), reverse_cons]

section

variable (hout : out.map EffectiveProperty.name = firsts names)
include hout

theorem map_name_override :
    (overrideProperty out p).map EffectiveProperty.name = firsts (names ++ [p.name]) := by
  have hmem : p.name ∈ names ↔ ∃ x ∈ out, x.name = p.name := by
    rw [← mem_firsts, ← hout, List.mem_map]
  rw [firsts_append_singleton]
  unfold overrideProperty
  cases hfind : out.findIdx? (fun x => x.name = p.name) with
  | none =>
    have hnot : p.name ∉ names := by
      rw [hmem]
      rintro ⟨x, hx, hxp⟩
      simpa [hxp] using findIdx?_eq_none_iff.mp hfind x hx
    rw [if_neg hnot, map_append, hout]
    rfl
  | some i =>
    obtain ⟨hi, hname, _⟩ := findIdx?_eq_some_iff_getElem.mp hfind
    have hi' : i < (out.map EffectiveProperty.name).length := by simpa using hi
    have hat : (out.map EffectiveProperty.name)[i] = p.name := by simpa using hname
    rw [if_pos (hmem.mpr ⟨out[i], getElem_mem hi, by simpa using hname⟩), map_set,
      ← hat, set_getElem_self, hout]

theorem map_name_foldl_override :
    (ps.foldl overrideProperty out).map EffectiveProperty.name =
      firsts (names ++ ps.map EffectiveProperty.name) := by
  induction ps generalizing out names with
  | nil => simpa using hout
  | cons _ _ ih =>
    rw [foldl_cons, ih (map_name_override hout), map_cons, append_assoc]
    rfl

omit hout in
theorem mem_override (hout : (out.map EffectiveProperty.name).Nodup)
    (h : q ∈ overrideProperty out p) : q = p ∨ q ∈ out ∧ q.name ≠ p.name := by
  unfold overrideProperty at h
  cases hfind : out.findIdx? (fun x => x.name = p.name) with
  | none =>
    rw [hfind] at h
    rcases mem_append.mp h with hq | hq
    · exact .inr ⟨hq, by simpa using findIdx?_eq_none_iff.mp hfind q hq⟩
    · exact .inl (mem_singleton.mp hq)
  | some i =>
    rw [hfind] at h
    obtain ⟨hi, hname, _⟩ := findIdx?_eq_some_iff_getElem.mp hfind
    obtain ⟨j, hj, rfl⟩ := getElem_of_mem h
    rw [length_set] at hj
    rw [getElem_set]
    split_ifs with hij
    · exact .inl rfl
    · refine .inr ⟨getElem_mem hj, fun hsame => hij ?_⟩
      have hi' : i < (out.map EffectiveProperty.name).length := by simpa using hi
      have hj' : j < (out.map EffectiveProperty.name).length := by simpa using hj
      have hnames : (out.map EffectiveProperty.name)[i] = (out.map EffectiveProperty.name)[j] := by
        simpa [hsame] using hname
      exact (hout.getElem_inj_iff).mp hnames

theorem mem_foldl_override (h : q ∈ ps.foldl overrideProperty out) :
    (∃ before after, ps = before ++ q :: after ∧ q.name ∉ after.map EffectiveProperty.name) ∨
      q ∈ out ∧ q.name ∉ ps.map EffectiveProperty.name := by
  induction ps generalizing out names with
  | nil => exact .inr ⟨h, by simp⟩
  | cons p ps ih =>
    have hnodup : (out.map EffectiveProperty.name).Nodup := by
      rw [hout]
      exact nodup_reverse.mpr (nodup_dedup _)
    rcases ih (map_name_override hout) h with ⟨before, after, rfl, hlast⟩ | ⟨hq, hnot⟩
    · exact .inl ⟨p :: before, after, rfl, hlast⟩
    · rcases mem_override hnodup hq with rfl | ⟨hq, hne⟩
      · exact .inl ⟨[], ps, rfl, hnot⟩
      · exact .inr ⟨hq, by simpa [hne] using hnot⟩

end

theorem layered_cons (id : String) (chain : List String) :
    o.layered (id :: chain) = (o.declared id).foldl overrideProperty (o.layered chain) := by
  simp [layered]

theorem introduced_cons (id : String) (chain : List String) :
    o.introduced (id :: chain) =
      o.introduced chain ++ (o.declared id).map EffectiveProperty.name := by
  simp [introduced]

theorem map_name_layered (chain : List String) :
    (o.layered chain).map EffectiveProperty.name = firsts (o.introduced chain) := by
  induction chain with
  | nil => rfl
  | cons _ _ ih =>
    rw [layered_cons, introduced_cons]
    exact map_name_foldl_override ih

theorem declaredBy_of_declared (h : p ∈ o.declared id) : p.declaredBy = id := by
  obtain ⟨json, _, hp⟩ := mem_filterMap.mp h
  unfold effectiveProperty at hp
  split_ifs at hp
  obtain ⟨name, _, rfl⟩ := map_eq_some_iff.mp hp
  rfl

/-- The field is the last of its name that the nearest declarer along a chain has. -/
def Nearest (o : Ontology) (chain : List String) (p : EffectiveProperty) : Prop :=
  ∃ nearer farther, chain = nearer ++ p.declaredBy :: farther ∧
    (∀ id ∈ nearer, p.name ∉ (o.declared id).map EffectiveProperty.name) ∧
    ∃ before after, o.declared p.declaredBy = before ++ p :: after ∧
      p.name ∉ after.map EffectiveProperty.name

theorem nearest_of_layered (h : p ∈ o.layered chain) : Nearest o chain p := by
  induction chain with
  | nil => cases h
  | cons id chain ih =>
    rw [layered_cons] at h
    rcases mem_foldl_override (map_name_layered chain) h with
      ⟨before, after, hdeclared, hlast⟩ | ⟨hp, hnot⟩
    · have hid : p.declaredBy = id := declaredBy_of_declared (by rw [hdeclared]; simp)
      refine ⟨[], chain, by rw [hid]; rfl, by simp, before, after, ?_, hlast⟩
      rw [hid, hdeclared]
    · obtain ⟨nearer, farther, rfl, hnearer, hown⟩ := ih hp
      refine ⟨id :: nearer, farther, rfl, ?_, hown⟩
      intro x hx
      rcases mem_cons.mp hx with rfl | hx
      · exact hnot
      · exact hnearer x hx

variable (o id)

/-- **The fields of a type**: one for each name that is declared along its chain, which is
the nearest declarer's, in the order in which the farthest declarers introduced the names. -/
theorem effectiveProperties_nearest :
    (∃ last, o.Walked id last (o.ancestors id)) ∧
    (∀ x, x ∈ o.ancestors id ↔ ReflTransGen o.Extends id x) ∧
    (o.effectiveProperties id).map EffectiveProperty.name =
      firsts (o.introduced (o.ancestors id)) ∧
    ((o.effectiveProperties id).map EffectiveProperty.name).Nodup ∧
    (∀ name, name ∈ (o.effectiveProperties id).map EffectiveProperty.name ↔
      ∃ x, ReflTransGen o.Extends id x ∧ name ∈ (o.declared x).map EffectiveProperty.name) ∧
    ∀ p ∈ o.effectiveProperties id, Nearest o (o.ancestors id) p := by
  obtain ⟨hwalk, hreach⟩ := ancestors_walk o id
  have hnames := map_name_layered (o := o) (o.ancestors id)
  rw [effectiveProperties_eq]
  refine ⟨hwalk, hreach, hnames, ?_, fun name => ?_, fun p hp => nearest_of_layered hp⟩
  · rw [hnames]
    exact nodup_reverse.mpr (nodup_dedup _)
  · rw [hnames, mem_firsts]
    unfold introduced
    constructor
    · intro h
      obtain ⟨p, hp, rfl⟩ := List.mem_map.mp h
      obtain ⟨x, hx, hpx⟩ := mem_flatMap.mp hp
      exact ⟨x, (hreach x).mp (mem_reverse.mp hx), List.mem_map_of_mem hpx⟩
    · rintro ⟨x, hx, h⟩
      obtain ⟨p, hp, rfl⟩ := List.mem_map.mp h
      exact List.mem_map_of_mem (mem_flatMap.mpr ⟨x, mem_reverse.mpr ((hreach x).mpr hx), hp⟩)

end Fields

end Ontology

end DomainModel
end StudioWeb
