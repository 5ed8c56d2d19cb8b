import StudioWeb.Library.SubstringSearch
import StudioWeb.Documents.ModelTable
import Mathlib.Data.List.Perm.Basic
import Mathlib.Data.List.Nodup

/-!
# Cut and joined again
-/

namespace StudioWeb
namespace Documents

open JsonText InsertionMap List Option

theorem join_map_ofList (ls : List (List Char)) :
    String.join (ls.map String.ofList) = String.ofList ls.flatten := by
  have hfold : ∀ (ls : List (List Char)) (acc : String),
      (ls.map String.ofList).foldl (fun r s => r ++ s) acc = acc ++ String.ofList ls.flatten := by
    intro ls
    induction ls with
    | nil => simp
    | cons _ _ ih =>
      intro acc
      simp [ih, String.append_assoc]
  simpa [String.join] using hfold ls ""

theorem utf8Size_le_chunk (c : Char) : c.utf8Size ≤ CHUNK_BYTES := by
  have hfour := Char.utf8Size_le_four c
  unfold CHUNK_BYTES
  omega

@[simp] theorem join_textPieces (text : String) : String.join (textPieces text) = text := by
  rw [textPieces, join_map_ofList, flatten_pieces utf8Size_le_chunk]
  simp

theorem hash_notMem_digits (n : Nat) : '#' ∉ Nat.toDigits 10 n := by
  intro hmem
  have hdigit := Nat.isDigit_of_mem_toDigits (by decide) (by decide) hmem
  exact absurd hdigit (by decide)

theorem toDigits_injective {m n : Nat} (h : Nat.toDigits 10 m = Nat.toDigits 10 n) : m = n := by
  have hm := @Nat.ofDigitChars_ten_toDigits m
  rw [h, Nat.ofDigitChars_ten_toDigits] at hm
  exact hm.symm

/-- A chunk's id names its row, its field and its place. -/
theorem Chunk.key_injective {c d : Chunk} (h : c.key = d.key) :
    c.owner = d.owner ∧ c.field = d.field ∧ c.ordinal = d.ordinal := by
  have hchars := congrArg String.toList h
  have hjoined :
      c.owner.text.toList ++ '#' :: (c.field.toList ++ '#' :: Nat.toDigits 10 c.ordinal) =
        d.owner.text.toList ++ '#' :: (d.field.toList ++ '#' :: Nat.toDigits 10 d.ordinal) := by
    simpa [Chunk.key] using hchars
  obtain ⟨howner, hrest⟩ := append_separator_injective c.owner.plain d.owner.plain hjoined
  obtain ⟨hfield, hordinal⟩ :=
    append_separator_injective_last (hash_notMem_digits _) (hash_notMem_digits _) hrest
  have htext : c.owner.text = d.owner.text := String.toList_injective howner
  refine ⟨?_, String.toList_injective hfield, toDigits_injective hordinal⟩
  cases hc : c.owner
  cases hd : d.owner
  rw [hc, hd] at htext
  simpa using htext

section Cut

variable
  {toText : Json → String}
  {id : ObjectId}
  {payload : Payload}
  {name : String}
  {v : Json}

@[simp] theorem isMarker_fieldMarker : isMarker (fieldMarker toText v) = true := by
  rfl

@[simp] theorem markerCount_fieldMarker :
    markerCount (fieldMarker toText v) = (textPieces (fieldText toText v).1).length := by
  rfl

@[simp] theorem markerIsJson_fieldMarker :
    markerIsJson (fieldMarker toText v) = (fieldText toText v).2 := by
  rfl

theorem mem_of_longest {fields : List (String × Json)} {f : String × Json}
    (h : longest toText fields = some f) : f ∈ fields ∧ isMarker f.2 = false := by
  have hfold : ∀ g ∈ longest toText fields, g ∈ fields.filter fun f => !isMarker f.2 := by
    refine List.foldlRecOn (motive := fun best => ∀ g ∈ best, g ∈ _) _ _ (by simp) ?_
    intro best ih g hg w hstep
    cases best with
    | none =>
      cases hstep
      exact hg
    | some =>
      simp only at hstep
      split at hstep
      · cases hstep
        exact hg
      · exact ih w hstep
  simpa using hfold f h

structure CutFields
    (toText : Json → String) (id : ObjectId) (payload : Payload) (result : Payload × List Chunk)
    (cuts : List (String × Json)) : Prop where
  nodup : (cuts.map Prod.fst).Nodup
  wasField : ∀ f ∈ cuts, payload.get? f.1 = some f.2
  wasWhole : ∀ f ∈ cuts, isMarker f.2 = false
  object : result.1 = payload.setAll Prod.fst (fun f => fieldMarker toText f.2) cuts
  chunks : result.2 = cuts.flatMap fun f => fieldChunks toText id f.1 f.2

theorem cutFields_nil : CutFields toText id payload (payload, []) [] := by
  constructor
  · exact nodup_nil
  · simp
  · simp
  · rfl
  · rfl

theorem cutWith_eq (fuel : Nat) :
    ∃ cuts, CutFields toText id payload (cutWith toText id fuel payload) cuts := by
  induction fuel generalizing payload with
  | zero =>
    exact ⟨[], cutFields_nil⟩
  | succ _ ih =>
    simp only [cutWith]
    split
    · exact ⟨[], cutFields_nil⟩
    · split
      · exact ⟨[], cutFields_nil⟩
      · next name v hlongest =>
        split
        · exact ⟨[], cutFields_nil⟩
        · obtain ⟨cuts, hcuts⟩ :=
            @ih (payload.set name (fieldMarker toText v))
          obtain ⟨hmem, hwhole⟩ := mem_of_longest hlongest
          have hfield : payload.get? name = some v := (get?_eq_some_iff payload name v).mpr hmem
          -- a field that is cut holds a marker, so it is not cut again
          have hother : ∀ f ∈ cuts, f.1 ≠ name := by
            intro f hf hname
            have hnow := hcuts.wasField f hf
            rw [hname, get?_set_self] at hnow
            have hmarked := hcuts.wasWhole f hf
            rw [← some.inj hnow, isMarker_fieldMarker] at hmarked
            cases hmarked
          refine ⟨(name, v) :: cuts, ?_, ?_, ?_, ?_, ?_⟩
          · rw [map_cons, nodup_cons]
            refine ⟨?_, hcuts.nodup⟩
            intro hname
            obtain ⟨f, hf, hfst⟩ := List.mem_map.mp hname
            exact hother f hf hfst
          · intro f hf
            rcases mem_cons.mp hf with rfl | hf
            · exact hfield
            · have hnow := hcuts.wasField f hf
              rw [get?_set, if_neg (hother f hf)] at hnow
              exact hnow
          · intro f hf
            rcases mem_cons.mp hf with rfl | hf
            · exact hwhole
            · exact hcuts.wasWhole f hf
          · rw [hcuts.object]
            rfl
          · simp [hcuts.chunks]

theorem exists_cuts (r : Row) :
    ∃ cuts, CutFields toText r.id r.payload (r.object toText, r.chunks toText) cuts :=
  cutWith_eq _

end Cut

section Join

variable
  {toText : Json → String}
  {fromText : String → Option Json}
  {chunks : ChunkTable}
  {id : ObjectId}
  {name : String}
  {v : Json}
  {r : Row}

theorem nodup_values (chunks : ChunkTable) : chunks.map.values.Nodup := by
  have hkeys : chunks.map.values.map Chunk.key = chunks.map.keys := by
    simp only [InsertionMap.values, InsertionMap.keys, List.map_map]
    apply List.map_congr_left
    rintro ⟨key, c⟩ hmem
    exact chunks.keyed key c ((get?_eq_some_iff chunks.map key c).mpr hmem)
  have hnodup : (chunks.map.values.map Chunk.key).Nodup := by
    rw [hkeys]
    exact chunks.map.keys_nodup
  exact hnodup.of_map

variable {c : Chunk}

theorem mem_fieldChunks_iff :
    c ∈ fieldChunks toText id name v ↔ c.owner = id ∧ c.field = name ∧
        (textPieces (fieldText toText v).1)[c.ordinal]? = some c.text := by
  simp only [fieldChunks, mem_mapIdx]
  constructor
  · rintro ⟨i, hi, rfl⟩
    exact ⟨rfl, rfl, getElem?_eq_getElem hi⟩
  · rintro ⟨rfl, rfl, htext⟩
    obtain ⟨hi, hget⟩ := List.getElem?_eq_some_iff.mp htext
    refine ⟨c.ordinal, hi, ?_⟩
    cases c
    simp_all

theorem nodup_fieldChunks : (fieldChunks toText id name v).Nodup := by
  unfold List.Nodup
  rw [pairwise_iff_getElem]
  intro i j hi hj hij hsame
  have hordinal := congrArg Chunk.ordinal hsame
  simp only [fieldChunks, getElem_mapIdx] at hordinal
  omega

theorem pairwise_fieldChunks :
    (fieldChunks toText id name v).Pairwise fun a b => (a.ordinal ≤ b.ordinal : Bool) := by
  rw [pairwise_iff_getElem]
  intro i j hi hj hij
  simp only [fieldChunks, getElem_mapIdx, decide_eq_true_eq]
  omega

theorem perm_counted (hhas : ∀ c ∈ fieldChunks toText id name v, chunks.Has c) :
    ((chunks.map.values.filter fun c => c.owner.text == id.text && c.field == name).filter
        fun c => decide ((c.ordinal : Int) < (textPieces (fieldText toText v).1).length)).Perm
      (fieldChunks toText id name v) := by
  rw [perm_ext_iff_of_nodup (((nodup_values chunks).filter _).filter _) nodup_fieldChunks]
  intro c
  simp only [mem_filter, Bool.and_eq_true, beq_iff_eq, decide_eq_true_eq]
  constructor
  · rintro ⟨⟨hvalue, howner, hfield⟩, hcount⟩
    obtain ⟨key, hget⟩ := (mem_values_iff chunks.map c).mp hvalue
    have hkey := chunks.keyed key c hget
    have hid : c.owner = id := by
      cases hc : c.owner
      cases id
      rw [hc] at howner
      simpa using howner
    have hplace : c.ordinal < (textPieces (fieldText toText v).1).length := by
      exact_mod_cast hcount
    have hpiece : (⟨id, name, c.ordinal, (textPieces (fieldText toText v).1)[c.ordinal]⟩ : Chunk) ∈
          fieldChunks toText id name v :=
      mem_fieldChunks_iff.mpr ⟨rfl, rfl, getElem?_eq_getElem hplace⟩
    have hstored := hhas _ hpiece
    have hsame : c.key = Chunk.key ⟨id, name, c.ordinal,
        (textPieces (fieldText toText v).1)[c.ordinal]⟩ := by
      simp [Chunk.key, hid, hfield]
    unfold ChunkTable.Has at hstored
    rw [← hsame, hkey, hget] at hstored
    rw [some.inj hstored]
    exact hpiece
  · intro hc
    obtain ⟨howner, hfield, htext⟩ := mem_fieldChunks_iff.mp hc
    obtain ⟨hplace, _⟩ := List.getElem?_eq_some_iff.mp htext
    have hvalue : c ∈ chunks.map.values := (mem_values_iff chunks.map c).mpr ⟨c.key, hhas c hc⟩
    exact ⟨⟨hvalue, by rw [howner], hfield⟩, by exact_mod_cast hplace⟩

theorem joinedText_eq (hhas : ∀ c ∈ fieldChunks toText id name v, chunks.Has c) :
    joinedText chunks id name (textPieces (fieldText toText v).1).length =
      (fieldText toText v).1 := by
  have hperm := perm_counted hhas
  have hsorted :
      (((chunks.map.values.filter fun c => c.owner.text == id.text && c.field == name).filter
        fun c => decide ((c.ordinal : Int) < (textPieces (fieldText toText v).1).length)).mergeSort
            fun a b => (a.ordinal ≤ b.ordinal : Bool)) = fieldChunks toText id name v := by
    refine List.Perm.eq_of_pairwise ?_ (pairwise_mergeSort ?_ ?_ _)
      pairwise_fieldChunks ((mergeSort_perm _ _).trans hperm)
    · intro a b ha hb hab hba
      have ha' := hperm.mem_iff.mp (mem_mergeSort.mp ha)
      obtain ⟨hao, haf, hat⟩ := mem_fieldChunks_iff.mp ha'
      obtain ⟨hbo, hbf, hbt⟩ := mem_fieldChunks_iff.mp hb
      have hordinal : a.ordinal = b.ordinal := by
        simp only [decide_eq_true_eq] at hab hba
        omega
      rw [hordinal, hbt] at hat
      cases a
      cases b
      simp_all
    · intro a b c hab hbc
      simp only [decide_eq_true_eq] at hab hbc ⊢
      omega
    · intro a b
      simp only [Bool.or_eq_true, decide_eq_true_eq]
      omega
  have htexts :
      (fieldChunks toText id name v).map Chunk.text = textPieces (fieldText toText v).1 := by
    apply ext_getElem
    · simp [fieldChunks]
    · intro i _ _
      simp [fieldChunks]
  simp only [joinedText]
  rw [hsorted, htexts, join_textPieces]

/-- A row whose fields can be told from cut ones and read back: none is a marker already,
and one that is cut as JSON is read from its text. -/
def Rejoins (toText : Json → String) (fromText : String → Option Json) (r : Row) : Prop :=
  ∀ name v, r.payload.get? name = some v → isMarker v = false ∧
      ((r.object toText).get? name ≠ some v → (fieldText toText v).2 = true →
        fromText (fieldText toText v).1 = some v)

theorem get?_object {cuts : List (String × Json)}
    (hcuts : CutFields toText r.id r.payload (r.object toText, r.chunks toText) cuts) :
    (∃ v, (name, v) ∈ cuts ∧ (r.object toText).get? name = some (fieldMarker toText v)) ∨
      ((∀ v, (name, v) ∉ cuts) ∧ (r.object toText).get? name = r.payload.get? name) := by
  rw [show r.object toText = _ from hcuts.object]
  by_cases hname : name ∈ cuts.map Prod.fst
  · obtain ⟨⟨name', v⟩, hmem, hfst⟩ := List.mem_map.mp hname
    have hsame : name' = name := hfst
    subst hsame
    exact .inl ⟨v, hmem, get?_setAll_of_mem Prod.fst _ hcuts.nodup hmem⟩
  · refine .inr ⟨?_, get?_setAll_of_notMem Prod.fst _ hname⟩
    intro v hmem
    exact hname (List.mem_map_of_mem hmem)

theorem keys_object (r : Row) : (r.object toText).keys = r.payload.keys := by
  obtain ⟨cuts, hcuts⟩ := @exists_cuts toText r
  rw [show r.object toText = _ from hcuts.object]
  apply keys_setAll_of_mem
  rintro ⟨name, v⟩ hmem
  exact (mem_keys_iff r.payload name).mpr ⟨v, hcuts.wasField _ hmem⟩

theorem fieldChunks_subset {cuts : List (String × Json)}
    (hcuts : CutFields toText r.id r.payload (r.object toText, r.chunks toText) cuts)
    (hmem : (name, v) ∈ cuts) : ∀ c ∈ fieldChunks toText r.id name v, c ∈ r.chunks toText := by
  intro c hc
  rw [show r.chunks toText = _ from hcuts.chunks]
  exact mem_flatMap.mpr ⟨(name, v), hmem, hc⟩

theorem joinField_eq (hhas : ∀ c ∈ fieldChunks toText id name v, chunks.Has c)
    (hback : (fieldText toText v).2 = true → fromText (fieldText toText v).1 = some v) :
    joinField fromText chunks id (name, fieldMarker toText v) = v := by
  simp only [joinField, markerCount_fieldMarker, markerIsJson_fieldMarker, joinedText_eq hhas]
  cases hjson : (fieldText toText v).2 with
  | true =>
    simp [hback hjson]
  | false =>
    cases v <;> simp_all [fieldText]

/-- **With its chunks in place, an object is joined to its row.** -/
theorem join_object (hrejoins : Rejoins toText fromText r)
    (hhas : ∀ c ∈ r.chunks toText, chunks.Has c) :
    join fromText chunks r.id (r.object toText) = r.payload := by
  obtain ⟨cuts, hcuts⟩ := @exists_cuts toText r
  have hmarkers :
      (((r.object toText).entries.filter fun f => isMarker f.2).map Prod.fst).Nodup :=
    (r.object toText).keys_nodup.sublist (filter_sublist.map Prod.fst)
  apply ext_get?
  · rw [← keys_object r, join]
    apply keys_setAll_of_mem
    rintro ⟨name, v⟩ hmem
    have hentry : (name, v) ∈ (r.object toText).entries := (mem_filter.mp hmem).1
    exact (mem_keys_iff _ name).mpr ⟨v, (get?_eq_some_iff _ name v).mpr hentry⟩
  · intro name
    rcases @get?_object toText name r cuts hcuts with ⟨v, hmem, hget⟩ | ⟨_, hget⟩
    · have hfield : r.payload.get? name = some v := hcuts.wasField _ hmem
      have hentry : (name, fieldMarker toText v) ∈
          (r.object toText).entries.filter fun f => isMarker f.2 :=
        mem_filter.mpr ⟨(get?_eq_some_iff _ _ _).mp hget, isMarker_fieldMarker⟩
      have hjoined := get?_setAll_of_mem Prod.fst (joinField fromText chunks r.id)
        (m := r.object toText) hmarkers hentry
      have hchanged : (r.object toText).get? name ≠ some v := by
        intro hsame
        have hmarked := hcuts.wasWhole _ hmem
        rw [← some.inj (hget.symm.trans hsame), isMarker_fieldMarker] at hmarked
        cases hmarked
      have hvalue : joinField fromText chunks r.id (name, fieldMarker toText v) = v :=
        joinField_eq (fun c hc => hhas c (fieldChunks_subset hcuts hmem c hc))
          ((hrejoins name v hfield).2 hchanged)
      rw [hfield, ← hvalue]
      exact hjoined
    · have hwhole :
          name ∉ ((r.object toText).entries.filter fun f => isMarker f.2).map Prod.fst := by
        intro hname
        obtain ⟨⟨name', v⟩, hmem, hfst⟩ := List.mem_map.mp hname
        have hsame : name' = name := hfst
        subst hsame
        obtain ⟨hentry, hmarked⟩ := mem_filter.mp hmem
        have hnow := (get?_eq_some_iff _ name' v).mpr hentry
        have hunmarked := (hrejoins name' v (hget ▸ hnow)).1
        rw [hmarked] at hunmarked
        cases hunmarked
      rw [← hget]
      exact get?_setAll_of_notMem Prod.fst _ hwhole

theorem chunks_functional {c d : Chunk} (hc : c ∈ r.chunks toText) (hd : d ∈ r.chunks toText)
    (hkey : c.key = d.key) : c = d := by
  obtain ⟨cuts, hcuts⟩ := @exists_cuts toText r
  rw [show r.chunks toText = _ from hcuts.chunks] at hc hd
  obtain ⟨⟨name, v⟩, hf, hcf⟩ := mem_flatMap.mp hc
  obtain ⟨⟨name', v'⟩, hg, hdg⟩ := mem_flatMap.mp hd
  obtain ⟨_, hfield, hordinal⟩ := Chunk.key_injective hkey
  obtain ⟨hco, hcn, hct⟩ := mem_fieldChunks_iff.mp hcf
  obtain ⟨hdo, hdn, hdt⟩ := mem_fieldChunks_iff.mp hdg
  have hname : name = name' := hcn.symm.trans (hfield.trans hdn)
  subst hname
  have hvalue : v = v' := by
    have hone := hcuts.wasField _ hf
    have hother := hcuts.wasField _ hg
    exact some.inj (hone.symm.trans hother)
  subst hvalue
  rw [hordinal, hdt] at hct
  cases c
  cases d
  simp_all

theorem owner_of_mem_chunks (hc : c ∈ r.chunks toText) : c.owner = r.id := by
  obtain ⟨cuts, hcuts⟩ := @exists_cuts toText r
  rw [show r.chunks toText = _ from hcuts.chunks] at hc
  obtain ⟨⟨name, v⟩, _, hcf⟩ := mem_flatMap.mp hc
  exact (mem_fieldChunks_iff.mp hcf).1

theorem counted_of_mem_chunks (hc : c ∈ r.chunks toText) :
    ∃ v, (r.object toText).get? c.field = some v ∧ isMarker v = true ∧
      (c.ordinal : Int) < markerCount v := by
  obtain ⟨cuts, hcuts⟩ := @exists_cuts toText r
  rw [show r.chunks toText = _ from hcuts.chunks] at hc
  obtain ⟨⟨name, v⟩, hmem, hcf⟩ := mem_flatMap.mp hc
  obtain ⟨_, hname, htext⟩ := mem_fieldChunks_iff.mp hcf
  obtain ⟨hplace, _⟩ := List.getElem?_eq_some_iff.mp htext
  refine ⟨fieldMarker toText v, ?_, isMarker_fieldMarker, ?_⟩
  · rcases @get?_object toText name r cuts hcuts with ⟨v', hmem', hget⟩ | ⟨hnot, _⟩
    · have hone := hcuts.wasField _ hmem
      have hother := hcuts.wasField _ hmem'
      have hvalue : v = v' := some.inj (hone.symm.trans hother)
      rw [hname, hget, hvalue]
    · exact absurd hmem (hnot v)
  · rw [markerCount_fieldMarker]
    exact_mod_cast hplace

end Join

section Put

variable
  {chunks : ChunkTable}
  {cs ds : List Chunk}
  {c : Chunk}

theorem put_append : chunks.put (cs ++ ds) = (chunks.put cs).put ds := by
  have hmap : (chunks.put (cs ++ ds)).map = ((chunks.put cs).put ds).map :=
    InsertionMap.setAll_append _ _
  cases hone : chunks.put (cs ++ ds)
  cases hother : (chunks.put cs).put ds
  rw [hone, hother] at hmap
  simpa using hmap

theorem has_put_of_mem (hc : c ∈ cs) (hone : ∀ d ∈ cs, d.key = c.key → d = c) :
    (chunks.put cs).Has c := by
  obtain ⟨d, hd, hkey, hget⟩ :=
    get?_setAll_of_key_mem Chunk.key (fun c => c) (m := chunks.map) (List.mem_map_of_mem hc)
  rw [hone d hd hkey] at hget
  exact hget

theorem has_put_of_has (hhas : chunks.Has c) (hone : ∀ d ∈ cs, d.key = c.key → d = c) :
    (chunks.put cs).Has c := by
  have hcases := @get?_setAll_cases _ _ _ _ Chunk.key (fun c => c) chunks.map cs c.key
  rcases hcases with hsame | ⟨d, hd, hkey, hget⟩
  · exact hsame.trans hhas
  · rw [hone d hd hkey] at hget
    exact hget

end Put

end Documents
end StudioWeb
