import StudioWeb.Library.LabelledRuns
import StudioWeb.Documents.ChunkedRows
import Mathlib.Data.String.Basic

/-!
# Sequences of writes to a table

Beside the tables stands what a read may answer for each row: the last version whose
write completed, or a later one whose write failed.
-/

namespace StudioWeb
namespace Documents

open JsonText LabelledRuns List

section Holds

variable
  {toText : Json → String}
  {fromText : String → Option Json}
  {t : Tables}
  {id : ObjectId}
  {version : Option Payload}
  {rows : List Row}
  {cs : List Chunk}
  {r : Row}

/-- A version of a row is held whole. -/
def Tables.Holds (toText : Json → String) (fromText : String → Option Json) (t : Tables)
    (id : ObjectId) :
    Option Payload → Prop
  | none => t.objects id = none
  | some payload =>
    t.objects id = some (Row.object toText ⟨id, payload⟩) ∧ Rejoins toText fromText ⟨id, payload⟩ ∧
      ∀ c ∈ Row.chunks toText ⟨id, payload⟩, t.chunks.Has c

/-- A row that is held whole is read as it was written. -/
theorem Tables.Holds.read (h : t.Holds toText fromText id version) :
    t.read fromText id = version := by
  cases version with
  | none =>
    have hnone : t.objects id = none := h
    simp [Tables.read, hnone]
  | some =>
    obtain ⟨hobject, hrejoins, hhas⟩ := h
    have hjoin := join_object hrejoins hhas
    simp [Tables.read, hobject, hjoin]

theorem Tables.Holds.putChunks (h : t.Holds toText fromText id version)
    (hsame : ∀ c ∈ cs, c.owner = id → ∀ object v, t.objects id = some object →
        object.get? c.field = some v → isMarker v = true →
        (c.ordinal : Int) < markerCount v → t.chunks.Has c) :
    (t.putChunks cs).Holds toText fromText id version := by
  cases version with
  | none => exact h
  | some =>
    obtain ⟨hobject, hrejoins, hhas⟩ := h
    refine ⟨hobject, hrejoins, ?_⟩
    intro c hc
    refine has_put_of_has (hhas c hc) ?_
    intro d hd hkey
    obtain ⟨howner, hfield, hordinal⟩ := Chunk.key_injective hkey
    have hid : d.owner = id := howner.trans (owner_of_mem_chunks hc)
    obtain ⟨v, hget, hmarker, hcount⟩ := counted_of_mem_chunks hc
    have hstored : t.chunks.Has d :=
      hsame d hd hid _ v hobject (hfield ▸ hget) hmarker (hordinal ▸ hcount)
    have hother := hhas c hc
    unfold ChunkTable.Has at hstored hother
    rw [hkey, hother] at hstored
    exact (Option.some.inj hstored).symm

theorem holds_of_sameObject (hobject : t.objects r.id = some (r.object toText))
    (hrejoins : Rejoins toText fromText r) (hown : ∀ d ∈ cs, d.owner = r.id → d ∈ r.chunks toText)
    (hall : ∀ c ∈ r.chunks toText, c ∈ cs ∨ t.chunks.Has c) :
    (t.putChunks cs).Holds toText fromText r.id (some r.payload) := by
  refine ⟨hobject, hrejoins, ?_⟩
  intro c hc
  have hone : ∀ d ∈ cs, d.key = c.key → d = c := by
    intro d hd hkey
    have howner := (Chunk.key_injective hkey).1.trans (owner_of_mem_chunks hc)
    exact chunks_functional (hown d hd howner) hc hkey
  rcases hall c hc with hmem | hhas
  · exact has_put_of_mem hmem hone
  · exact has_put_of_has hhas hone

def Tables.putRow (toText : Json → String) (t : Tables) (r : Row) : Tables :=
  (t.putChunks (r.chunks toText)).putObjects toText [r]

theorem holds_putRow (hrejoins : Rejoins toText fromText r) :
    (t.putRow toText r).Holds toText fromText r.id (some r.payload) := by
  refine ⟨Function.update_self .., hrejoins, ?_⟩
  intro c hc
  exact has_put_of_mem hc fun d hd hkey => chunks_functional hd hc hkey

theorem Tables.Holds.putRow (h : t.Holds toText fromText id version) (hne : id ≠ r.id) :
    (t.putRow toText r).Holds toText fromText id version := by
  have hput : (t.putChunks (r.chunks toText)).Holds toText fromText id version := by
    refine h.putChunks ?_
    intro c hc howner
    exact absurd (howner.symm.trans (owner_of_mem_chunks hc)) hne
  have hobject : (t.putRow toText r).objects id =
      (t.putChunks (r.chunks toText)).objects id := Function.update_of_ne hne _ _
  cases version with
  | none => exact hobject.trans hput
  | some => exact ⟨hobject.trans hput.1, hput.2⟩

theorem write_completes (rows : List Row) :
    t.write toText rows .completes = rows.foldl (Tables.putRow toText) t := by
  induction rows generalizing t with
  | nil => rfl
  | cons _ _ ih =>
    rw [foldl_cons, ← ih]
    simp only [Tables.write, Tables.putRow, Tables.putChunks, Tables.putObjects,
      flatMap_cons, put_append]
    rfl

/-- A write whose objects fail has written the rows that were stored, and put the pieces
of the others. -/
theorem write_rowsFail (rows : List Row) (stored : Nat) :
    t.write toText rows (.rowsFail stored) =
      (t.write toText (rows.take stored) .completes).putChunks
        ((rows.drop stored).flatMap (Row.chunks toText)) := by
  have hsplit : rows.flatMap (Row.chunks toText) = (rows.take stored).flatMap (Row.chunks toText) ++
        (rows.drop stored).flatMap (Row.chunks toText) := by
    rw [← flatMap_append, take_append_drop]
  simp only [Tables.write, Tables.putChunks, Tables.putObjects]
  rw [hsplit, put_append]

def versionAfter (id : ObjectId) (version : Option Payload) (rows : List Row) : Option Payload :=
  rows.foldl (fun version r => if r.id = id then some r.payload else version) version

theorem versionAfter_mem :
    versionAfter id version rows = version ∨
      ∃ r ∈ rows, r.id = id ∧ versionAfter id version rows = some r.payload := by
  induction rows generalizing version with
  | nil => exact .inl rfl
  | cons r rows ih =>
    have hcons : versionAfter id version (r :: rows) =
        versionAfter id (if r.id = id then some r.payload else version) rows := rfl
    rw [hcons]
    rcases @ih (if r.id = id then some r.payload else version) with hsame | hlater
    · by_cases hid : r.id = id
      · rw [if_pos hid] at hsame
        rw [if_pos hid]
        exact .inr ⟨r, mem_cons_self, hid, hsame⟩
      · rw [if_neg hid] at hsame
        rw [if_neg hid]
        exact .inl hsame
    · obtain ⟨r', hmem, hid, hval⟩ := hlater
      exact .inr ⟨r', mem_cons_of_mem _ hmem, hid, hval⟩

theorem Tables.Holds.write (h : t.Holds toText fromText id version)
    (hrejoins : ∀ r ∈ rows, Rejoins toText fromText r) :
    (t.write toText rows .completes).Holds toText fromText id
      (versionAfter id version rows) := by
  rw [write_completes]
  induction rows generalizing t version with
  | nil => exact h
  | cons r rows ih =>
    have hr := hrejoins r mem_cons_self
    have hrest : ∀ r' ∈ rows, Rejoins toText fromText r' :=
      fun r' hr' => hrejoins r' (mem_cons_of_mem _ hr')
    rw [foldl_cons]
    by_cases hid : r.id = id
    · subst hid
      have hnow := ih (holds_putRow (t := t) hr) hrest
      simpa [versionAfter] using hnow
    · have hnow := ih (h.putRow fun hsame => hid hsame.symm) hrest
      simpa [versionAfter, hid] using hnow

end Holds

/-- The tables, and what a read may answer for each row. -/
structure TableWorld where
  tables : Tables
  accepted : ObjectId → List (Option Payload)

inductive TableAction where
  | writes (rows : List Row) (fate : Fate)
  | puts (rows : List Row) (update : Option (List String)) (fate : Fate)

namespace TableWorld

section Steps

variable
  (toText : Json → String)
  (fromText : String → Option Json)

def versionsOf (rows : List Row) (id : ObjectId) : List (Option Payload) :=
  (rows.filter fun r => r.id = id).map fun r => some r.payload

/-- What reads may answer after a write. -/
def acceptedAfter (w : TableWorld) (rows : List Row) : Fate → ObjectId → List (Option Payload)
  | .completes, id =>
    match (versionsOf rows id).getLast? with
    | some version => [version]
    | none => w.accepted id
  | _, id => w.accepted id ++ versionsOf rows id

def write (w : TableWorld) (rows : List Row) (fate : Fate) : TableWorld where
  tables := w.tables.write toText rows fate
  accepted := w.acceptedAfter rows fate

def step (w : TableWorld) : TableAction → Option TableWorld
  | .writes rows fate => some (w.write toText rows fate)
  | .puts rows update fate =>
    some (w.write toText (w.tables.merged fromText rows update) fate)

end Steps

end TableWorld

section Runs

variable
  {toText : Json → String}
  {fromText : String → Option Json}
  {w t : TableWorld}
  {a : TableAction}
  {rows : List Row}

/-- The pieces that a failed write has put leave every row whole: they say nothing new of
a piece that its object counts, or its object is already the one of the version that they
are the pieces of. -/
def LeavesWhole (toText : Json → String) (fromText : String → Option Json) (t : Tables)
    (cs : List Chunk) (rows : List Row) : Prop :=
  ∀ id, (∀ c ∈ cs, c.owner = id → ∀ object v, t.objects id = some object →
        object.get? c.field = some v → isMarker v = true →
        (c.ordinal : Int) < markerCount v → t.chunks.Has c) ∨
    (∃ r ∈ rows, r.id = id ∧ t.objects id = some (r.object toText) ∧ Rejoins toText fromText r ∧
      (∀ d ∈ cs, d.owner = r.id → d ∈ r.chunks toText) ∧
      ∀ c ∈ r.chunks toText, c ∈ cs ∨ t.chunks.Has c)

/-- The rows that a write stores can be joined again, and what it leaves of the others,
where it fails, leaves every row whole. -/
def WriteKeepsWhole (toText : Json → String) (fromText : String → Option Json) (t : Tables)
    (rows : List Row) : Fate → Prop
  | .completes => ∀ r ∈ rows, Rejoins toText fromText r
  | .chunksFail stored =>
    LeavesWhole toText fromText t ((rows.flatMap (Row.chunks toText)).take stored) rows
  | .rowsFail stored =>
    (∀ r ∈ rows.take stored, Rejoins toText fromText r) ∧
      LeavesWhole toText fromText (t.write toText (rows.take stored) .completes)
        ((rows.drop stored).flatMap (Row.chunks toText)) (rows.drop stored)

def KeepsWhole (toText : Json → String) (fromText : String → Option Json)
    (w : TableWorld) : TableAction → Prop
  | .writes rows fate => WriteKeepsWhole toText fromText w.tables rows fate
  | .puts rows update fate =>
    WriteKeepsWhole toText fromText w.tables (w.tables.merged fromText rows update) fate

/-- Every row is held in a version that a read may answer. -/
def HoldsAccepted (toText : Json → String) (fromText : String → Option Json)
    (w : TableWorld) : Prop :=
  ∀ id, ∃ version ∈ w.accepted id, w.tables.Holds toText fromText id version

theorem mem_versionsOf {r : Row} (hr : r ∈ rows) :
    some r.payload ∈ TableWorld.versionsOf rows r.id := by
  simp only [TableWorld.versionsOf, mem_map, mem_filter]
  exact ⟨r, ⟨hr, by simp⟩, rfl⟩

theorem versionAfter_eq_getLast (id : ObjectId) (version : Option Payload) :
    versionAfter id version rows =
      ((TableWorld.versionsOf rows id).getLast?).getD version := by
  induction rows generalizing version with
  | nil => rfl
  | cons r rows ih =>
    have hcons : versionAfter id version (r :: rows) =
        versionAfter id (if r.id = id then some r.payload else version) rows := rfl
    rw [hcons, ih]
    by_cases hid : r.id = id
    · cases hrest : TableWorld.versionsOf rows id with
      | nil =>
        simp only [TableWorld.versionsOf] at hrest
        simp [TableWorld.versionsOf, hid, hrest]
      | cons =>
        simp only [TableWorld.versionsOf] at hrest
        simp [TableWorld.versionsOf, hid, hrest, getLast?_cons]
    · simp [TableWorld.versionsOf, hid]

theorem LeavesWhole.holds {t : Tables} {cs : List Chunk} {id : ObjectId} {version : Option Payload}
    {accepted : List (Option Payload)} (hleaves : LeavesWhole toText fromText t cs rows)
    (h : t.Holds toText fromText id version) (hversion : version ∈ accepted)
    (hrows : ∀ r ∈ rows, r.id = id → some r.payload ∈ accepted) :
    ∃ version ∈ accepted, (t.putChunks cs).Holds toText fromText id version := by
  rcases hleaves id with hsame | ⟨r, hr, hid, hobject, hrejoins, hown, hall⟩
  · exact ⟨version, hversion, h.putChunks hsame⟩
  · subst hid
    exact ⟨some r.payload, hrows r hr rfl, holds_of_sameObject hobject hrejoins hown hall⟩

/-- **A write keeps every row in a version that may be answered.** -/
theorem HoldsAccepted.write {fate : Fate} (h : HoldsAccepted toText fromText w)
    (hkeeps : WriteKeepsWhole toText fromText w.tables rows fate) :
    HoldsAccepted toText fromText (w.write toText rows fate) := by
  intro id
  obtain ⟨version, hversion, hholds⟩ := h id
  cases fate with
  | completes =>
    have hnow := hholds.write hkeeps
    refine ⟨_, ?_, hnow⟩
    rw [versionAfter_eq_getLast]
    cases hlast : (TableWorld.versionsOf rows id).getLast? with
    | none => simpa [TableWorld.write, TableWorld.acceptedAfter, hlast] using hversion
    | some => simp [TableWorld.write, TableWorld.acceptedAfter, hlast]
  | chunksFail =>
    refine LeavesWhole.holds hkeeps hholds (mem_append_left _ hversion) ?_
    rintro r hr rfl
    exact mem_append_right _ (mem_versionsOf hr)
  | rowsFail stored =>
    obtain ⟨hrejoins, hleaves⟩ := hkeeps
    have hstored := hholds.write hrejoins
    have hmem : versionAfter id version (rows.take stored) ∈
        w.accepted id ++ TableWorld.versionsOf rows id := by
      rcases @versionAfter_mem id version (rows.take stored) with hsame | hlater
      · rw [hsame]
        exact mem_append_left _ hversion
      · obtain ⟨r, hr, hid, hval⟩ := hlater
        subst hid
        rw [hval]
        exact mem_append_right _ (mem_versionsOf (mem_of_mem_take hr))
    have hnow := hleaves.holds hstored hmem (by
      rintro r hr rfl
      exact mem_append_right _ (mem_versionsOf (mem_of_mem_drop hr)))
    obtain ⟨found, hfound, hfinal⟩ := hnow
    refine ⟨found, hfound, ?_⟩
    simp only [TableWorld.write]
    rw [write_rowsFail]
    exact hfinal

/-- No row has been written yet; chunks of other records may be there. -/
def TableWorld.Start (w : TableWorld) : Prop :=
  ∀ id, w.tables.objects id = none ∧ w.accepted id = [none]

end Runs

private def written (v : Json) : String :=
  String.ofList (render v)

private def readFrom (text : String) : Option Json :=
  parse text.toList

private def document : ObjectId :=
  ⟨"studio-document:00000000-0000-0000-0000-000000000001", by decide⟩

/-- A document of one column. -/
private def ofContent (content : Json) : Row :=
  ⟨document, ⟨[("content", content)], nodup_singleton _⟩⟩

private def nothingYet : TableWorld where
  tables := ⟨fun _ => none, ⟨InsertionMap.empty, by simp⟩⟩
  accepted := fun _ => [none]

private theorem nothingYet_start : nothingYet.Start :=
  fun _ => ⟨rfl, rfl⟩

private theorem ofContent_rejoins (text : String) :
    Rejoins written readFrom (ofContent (.str text)) := by
  intro name v hget
  have hmem := (InsertionMap.get?_eq_some_iff _ name v).mp hget
  obtain ⟨rfl, rfl⟩ : name = "content" ∧ v = .str text := by
    simpa [ofContent] using hmem
  refine ⟨rfl, ?_⟩
  intro _ hjson
  cases hjson

private def contentWorld (text : String) : TableWorld :=
  nothingYet.write written [ofContent (.str text)] .completes

/-- A text of one character. -/
private def letters (c : Char) (n : Nat) : Json :=
  .str (String.ofList (List.replicate n c))

section LongText

variable {c : Char} {m n : Nat}

/-- A character that is written as it is, in one byte. -/
private structure Plain (c : Char) : Prop where
  asItIs : escapeChar c = [c]
  oneByte : c.utf8Size = 1

section

variable (hplain : Plain c)
include hplain

private theorem utf8Len_replicate : String.utf8Len (List.replicate n c) = n := by
  induction n with
  | zero => rfl
  | succ _ ih => simp [replicate_succ, ih, hplain.oneByte]

private theorem flatMap_escapeChar :
    (List.replicate n c).flatMap escapeChar = List.replicate n c := by
  induction n with
  | zero => rfl
  | succ _ ih => simp [replicate_succ, ih, hplain.asItIs]

private theorem le_size {v : Json}
    (hsub : (render (letters c n)).Sublist (render v)) : n ≤ size written v := by
  have hlen := String.utf8Len_le_of_sublist hsub
  rw [size, written, String.utf8ByteSize_ofList]
  refine Nat.le_trans ?_ hlen
  simp [letters, render, renderString, flatMap_escapeChar hplain, utf8Len_replicate hplain]
  omega

private theorem long_cut (hlong : PAYLOAD_BUDGET < n) :
    cut written document (ofContent (letters c n)).payload =
      ((ofContent (fieldMarker written (letters c n))).payload,
        fieldChunks written document "content" (letters c n)) := by
  have hwhole : ¬ size written (.obj [("content", letters c n)]) ≤ PAYLOAD_BUDGET := by
    have hle : n ≤ size written (.obj [("content", letters c n)]) := by
      apply le_size hplain
      simp only [render, renderFields]
      exact ((((sublist_append_left _ _).cons _).trans (sublist_append_right _ _)).cons _)
    omega
  have hfield : ¬ size written (letters c n) < 1024 := by
    have hle : n ≤ size written (letters c n) := le_size hplain (List.Sublist.refl _)
    have hbudget : 1024 ≤ PAYLOAD_BUDGET := by decide
    omega
  have hmarker : isMarker (letters c n) = false := rfl
  simp [cut, unmarked, ofContent, cutWith, longest, hmarker, hwhole, hfield,
    InsertionMap.set, setEntry]

private theorem pieces_replicate (hn : 0 < n) :
    pieces Char.utf8Size CHUNK_BYTES (List.replicate n c) = List.replicate (min CHUNK_BYTES n) c ::
        pieces Char.utf8Size CHUNK_BYTES (List.replicate (n - CHUNK_BYTES) c) := by
  have hne : List.replicate n c ≠ [] := by
    simp
    omega
  have hunit : ∀ x ∈ List.replicate n c, x.utf8Size = 1 := by
    intro x hx
    rw [eq_of_mem_replicate hx]
    exact hplain.oneByte
  rw [pieces_of_ne_nil utf8Size_le_chunk hne, takeWeight_of_unit hunit]
  simp

private theorem textPieces_two (hmore : CHUNK_BYTES < n) (htwo : n ≤ CHUNK_BYTES + CHUNK_BYTES) :
    textPieces (String.ofList (List.replicate n c)) = [String.ofList (List.replicate CHUNK_BYTES c),
        String.ofList (List.replicate (n - CHUNK_BYTES) c)] := by
  have hzero : n - CHUNK_BYTES - CHUNK_BYTES = 0 := by omega
  have hfirst : min CHUNK_BYTES n = CHUNK_BYTES := by omega
  have hsecond : min CHUNK_BYTES (n - CHUNK_BYTES) = n - CHUNK_BYTES := by omega
  rw [textPieces, String.toList_ofList, pieces_replicate hplain (by omega),
    pieces_replicate hplain (by omega), hzero, hfirst, hsecond]
  simp [pieces, piecesWith]

private theorem textPieces_more (hmore : CHUNK_BYTES + CHUNK_BYTES < n) :
    ∃ rest, textPieces (String.ofList (List.replicate n c)) =
      String.ofList (List.replicate CHUNK_BYTES c) ::
        String.ofList (List.replicate CHUNK_BYTES c) :: rest := by
  have hfirst : min CHUNK_BYTES n = CHUNK_BYTES := by omega
  have hsecond : min CHUNK_BYTES (n - CHUNK_BYTES) = CHUNK_BYTES := by omega
  rw [textPieces, String.toList_ofList, pieces_replicate hplain (by omega),
    pieces_replicate hplain (by omega), hfirst, hsecond]
  simp

end

private theorem letters_injective {d : Char} (h : letters c m = letters d n) : m = n := by
  have htext : String.ofList (List.replicate m c) = String.ofList (List.replicate n d) := by
    simpa [letters] using h
  have hlist := congrArg (fun s => s.toList.length) htext
  simpa using hlist

private theorem ofContent_injective {v v' : Json}
    (h : (ofContent v).payload = (ofContent v').payload) : v = v' := by
  simpa [ofContent] using h

private theorem plain_a : Plain 'a' :=
  ⟨by decide, by decide⟩

private theorem plain_b : Plain 'b' :=
  ⟨by decide, by decide⟩

/-- What a document of two pieces reads as when a document of more is put over its
pieces. -/
private theorem mixture_holds {t : Tables} {k : Nat} (hmore : CHUNK_BYTES < m)
    (htwo : m ≤ CHUNK_BYTES + CHUNK_BYTES) (hlong : PAYLOAD_BUDGET < m)
    (hk : k = CHUNK_BYTES + CHUNK_BYTES) (hn : k < n)
    (hobject : t.objects document = some (Row.object written (ofContent (letters 'a' m)))) :
    (t.putChunks (Row.chunks written (ofContent (letters 'b' n)))).Holds written readFrom
      document (some (ofContent (letters 'b' k)).payload) := by
  have hrest : k - CHUNK_BYTES = CHUNK_BYTES := by omega
  have htwice := textPieces_two plain_b (n := k) (by omega) (by omega)
  rw [hrest] at htwice
  have hmarker : fieldMarker written (letters 'a' m) = fieldMarker written (letters 'b' k) := by
    simp only [fieldMarker, letters, fieldText, textPieces_two plain_a hmore htwo, htwice,
      length_cons]
  have hmixed := long_cut plain_b (n := k) (by omega)
  have hnew := long_cut plain_b (n := n) (by omega)
  have hold := long_cut plain_a hlong
  have hchunks : Row.chunks written (ofContent (letters 'b' n)) =
      fieldChunks written document "content" (letters 'b' n) := congrArg Prod.snd hnew
  have hmixedChunks : Row.chunks written (ofContent (letters 'b' k)) =
      fieldChunks written document "content" (letters 'b' k) := congrArg Prod.snd hmixed
  have hsame : Row.object written (ofContent (letters 'a' m)) =
      Row.object written (ofContent (letters 'b' k)) := by
    show (cut written document _).1 = (cut written document _).1
    rw [hold, hmixed, hmarker]
  refine ⟨hobject.trans (congrArg some hsame), ofContent_rejoins _, ?_⟩
  intro c hc
  have hc' : c ∈ Row.chunks written (ofContent (letters 'b' k)) := hc
  rw [hmixedChunks] at hc'
  obtain ⟨howner, hfield, htext⟩ := mem_fieldChunks_iff.mp hc'
  have hput : c ∈ Row.chunks written (ofContent (letters 'b' n)) := by
    rw [hchunks]
    refine mem_fieldChunks_iff.mpr ⟨howner, hfield, ?_⟩
    obtain ⟨rest, hmorePieces⟩ := textPieces_more plain_b (n := n) (by omega)
    simp only [letters, fieldText] at htext ⊢
    rw [htwice] at htext
    rw [hmorePieces]
    generalize c.ordinal = place at htext ⊢
    rcases place with _ | _ | place
    · exact htext
    · exact htext
    · simp at htext
  exact has_put_of_mem hput fun d hd hkey => chunks_functional hd hput hkey

end LongText

end Documents
end StudioWeb
