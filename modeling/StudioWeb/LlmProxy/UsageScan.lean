import StudioWeb.Library.SubstringSearch
import Mathlib.Order.MinMax
import StudioWeb.Library.JsonObject
import Mathlib.Algebra.Group.Int.Defs

/-!
# The usage that a provider's answer reports

`UsageScan` of `llm_proxy/usage_tap.rs` is fed the bytes of an answer in chunks and keeps
the usage the answer reports.  The limit of a line is looked at when a chunk ends, and
what a chunk leaves of a longer line is read on.
-/

namespace StudioWeb
namespace LlmProxy

open JsonText List

/-- The largest answer that is not a stream this reads whole. -/
def WHOLE_LIMIT : Nat := 4 * 1024 * 1024

/-- The longest server-sent-event line kept while waiting for its end. -/
def LINE_LIMIT : Nat := 1024 * 1024

structure Tokens where
  input : Nat
  output : Nat
  cacheRead : Nat
  cacheWrite : Nat
deriving DecidableEq

namespace Tokens

def default : Tokens := ⟨0, 0, 0, 0⟩

def isEmpty (t : Tokens) : Bool := t = default

def widen (t other : Tokens) : Tokens where
  input := max t.input other.input
  output := max t.output other.output
  cacheRead := max t.cacheRead other.cacheRead
  cacheWrite := max t.cacheWrite other.cacheWrite

/-- Field by field. -/
instance : PartialOrder Tokens :=
  PartialOrder.lift (fun t => (t.input, t.output, t.cacheRead, t.cacheWrite)) (by
    rintro ⟨_, _, _, _⟩ ⟨_, _, _, _⟩ h
    simpa using h)

theorem widen_le_iff {t other bound : Tokens} :
    t.widen other ≤ bound ↔ t ≤ bound ∧ other ≤ bound := by
  change (_ : Nat × Nat × Nat × Nat) ≤ _ ↔ (_ : Nat × Nat × Nat × Nat) ≤ _ ∧
    (_ : Nat × Nat × Nat × Nat) ≤ _
  simp only [widen, Prod.mk_le_mk, max_le_iff]
  tauto

theorem default_le (t : Tokens) : default ≤ t := by
  change (_ : Nat × Nat × Nat × Nat) ≤ _
  simp [default]

end Tokens

structure Reported where
  tokens : Tokens
  model : Option String
deriving DecidableEq

namespace Reported

def default : Reported := ⟨.default, none⟩

/-- What `finish` answers with. -/
def known (r : Reported) : Option Reported :=
  if r.tokens.isEmpty then
    none
  else
    some r

end Reported

/-- `Value::as_u64`. -/
def asU64 : Json → Option Nat
  | .int value => if 0 ≤ value ∧ value < 2 ^ 64 then some value.toNat else none
  | _ => none

def count (v : Json) (key : String) : Nat := ((v.get? key).bind asU64).getD 0

def cached (v : Json) (details : String) : Nat :=
  ((v.get? details).map fun d => count d "cached_tokens").getD 0

/-- A `usage` object, in either provider's dialect. -/
def tokensOf (usage : Json) : Tokens :=
  if (usage.get? "prompt_tokens").isSome || (usage.get? "completion_tokens").isSome then
    let read := cached usage "prompt_tokens_details"
    ⟨count usage "prompt_tokens" - read, count usage "completion_tokens", read, 0⟩
  else if (usage.get? "input_tokens_details").isSome then
    let read := cached usage "input_tokens_details"
    ⟨count usage "input_tokens" - read, count usage "output_tokens", read, 0⟩
  else
    ⟨count usage "input_tokens", count usage "output_tokens",
      count usage "cache_read_input_tokens", count usage "cache_creation_input_tokens"⟩

def readHolder (into : Reported) (holder : Json) : Reported where
  tokens :=
    match (holder.get? "usage").filter Json.isObject with
    | some usage => into.tokens.widen (tokensOf usage)
    | none => into.tokens
  model := into.model.or ((holder.getStr? "model").filter fun model => model ≠ "")

/-- The message itself, then the object a stream event wraps. -/
def readMessage (into : Reported) (v : Json) : Reported :=
  ([some v, v.get? "message", v.get? "response"].filterMap id).foldl readHolder into

abbrev Bytes := List UInt8

def LF : UInt8 := 10

def CR : UInt8 := 13

/-- `data:` -/
def DATA : Bytes := [100, 97, 116, 97, 58]

def isAsciiWhitespace (b : UInt8) : Bool := b ∈ [9, LF, 12, CR, 32]

/-- What stands in a `data:` line. -/
def dataOf (line : Bytes) : Option Bytes :=
  let line := if line.getLast? = some CR then line.dropLast else line
  if DATA.isPrefixOf line then
    some ((line.drop DATA.length).dropWhile isAsciiWhitespace)
  else
    none

/-- The scan of one answer, fed its bytes in order. -/
structure UsageScan where
  stream : Bool
  pending : Bytes
  overflowed : Bool
  reported : Reported
deriving DecidableEq

section Scan

variable (fromSlice : Bytes → Option Json)

def readLine (reported : Reported) (line : Bytes) : Reported :=
  match (dataOf line).bind fromSlice with
  | some v => readMessage reported v
  | none => reported

/-- The loop of `feed` over the bytes of a chunk: the line that is not ended yet, and what
is reported. -/
def readLines (pending : Bytes) (reported : Reported) : Bytes → Bytes × Reported
  | [] => (pending, reported)
  | b :: rest =>
    if b = LF then
      readLines [] (readLine fromSlice reported pending) rest
    else
      readLines (pending ++ [b]) reported rest

namespace UsageScan

def new (contentType : Option String) : UsageScan where
  stream := contentType.any fun t => "text/event-stream".toList.isPrefixOf t.toList
  pending := []
  overflowed := false
  reported := .default

def feed (s : UsageScan) (chunk : Bytes) : UsageScan :=
  if s.overflowed then
    s
  else if s.stream then
    let (pending, reported) := readLines fromSlice s.pending s.reported chunk
    if LINE_LIMIT < pending.length then
      { s with pending := [], reported }
    else
      { s with pending, reported }
  else if WHOLE_LIMIT < s.pending.length + chunk.length then
    { s with overflowed := true, pending := [] }
  else
    { s with pending := s.pending ++ chunk }

def finish (s : UsageScan) : Option Reported :=
  if s.overflowed then
    none
  else if s.stream then
    (readLine fromSlice s.reported s.pending).known
  else
    match fromSlice s.pending with
    | some v => (readMessage s.reported v).known
    | none => s.reported.known

end UsageScan

/-- The usage of an answer that comes in these chunks. -/
def usage (contentType : Option String) (chunks : List Bytes) : Option Reported :=
  (chunks.foldl (UsageScan.feed fromSlice) (.new contentType)).finish fromSlice

/-- The usage that lines report. -/
def reading (lines : List Bytes) : Option Reported :=
  (lines.foldl (readLine fromSlice) .default).known

/-- The usage that all of an answer reports: a stream by its lines, another one whole. -/
def wholeReading (contentType : Option String) (bytes : Bytes) : Option Reported :=
  if (UsageScan.new contentType).stream then
    reading fromSlice (bytes.splitOn LF)
  else
    (fromSlice bytes).bind fun v => (readMessage .default v).known

end Scan

/-- What a function adds to what is reported: larger counts, and a model where none is
named yet. -/
structure Joins (f : Reported → Reported) : Prop where
  tokens : ∀ r bound, (f r).tokens ≤ bound ↔ r.tokens ≤ bound ∧ (f .default).tokens ≤ bound
  model : ∀ r, (f r).model = r.model.or (f .default).model

section Joins

variable {α : Type} {g : Reported → α → Reported}

section

variable (hg : ∀ a, Joins fun r => g r a) (items : List α)
include hg

theorem tokens_foldl_le_iff (r : Reported) (bound : Tokens) :
    (items.foldl g r).tokens ≤ bound ↔
      r.tokens ≤ bound ∧ ∀ a ∈ items, (g .default a).tokens ≤ bound := by
  induction items generalizing r with
  | nil => simp
  | cons a rest ih => rw [foldl_cons, ih, (hg a).tokens, forall_mem_cons, and_assoc]

theorem model_foldl (r : Reported) :
    (items.foldl g r).model = r.model.or (items.findSome? fun a => (g .default a).model) := by
  induction items generalizing r with
  | nil => simp
  | cons a rest ih =>
    rw [foldl_cons, ih, (hg a).model, findSome?_cons, Option.or_assoc]
    cases (g .default a).model with
    | none => rfl
    | some => rfl

theorem joins_foldl :
    Joins fun r => items.foldl g r where
  tokens r bound := by
    rw [tokens_foldl_le_iff hg, tokens_foldl_le_iff hg]
    exact and_congr_right fun _ => ⟨fun h => ⟨Tokens.default_le bound, h⟩, And.right⟩
  model r := by
    rw [model_foldl hg, model_foldl hg]
    rfl

end

theorem joins_readHolder (holder : Json) : Joins fun r => readHolder r holder where
  tokens r bound := by
    unfold readHolder
    cases (holder.get? "usage").filter Json.isObject with
    | none => exact ⟨fun h => ⟨h, Tokens.default_le bound⟩, And.left⟩
    | some usage =>
      simp only [Tokens.widen_le_iff]
      exact and_congr_right fun _ => ⟨fun h => ⟨Tokens.default_le bound, h⟩, And.right⟩
  model r := rfl

end Joins

section Reading

variable {fromSlice : Bytes → Option Json} {lines pieces : List Bytes}

theorem joins_readLine (line : Bytes) : Joins fun r => readLine fromSlice r line := by
  unfold readLine
  cases (dataOf line).bind fromSlice with
  | none =>
    exact ⟨fun r bound => ⟨fun h => ⟨h, Tokens.default_le bound⟩, And.left⟩,
      fun r => Option.or_none.symm⟩
  | some v => exact joins_foldl joins_readHolder _

/-- The first model that lines name. -/
def modelOf (fromSlice : Bytes → Option Json) (lines : List Bytes) : Option String :=
  lines.findSome? fun line => (readLine fromSlice .default line).model

theorem known_eq_iff {r r' : Reported} :
    r.known = r'.known ↔ r.tokens = r'.tokens ∧ (r.tokens ≠ .default → r.model = r'.model) := by
  obtain ⟨t, m⟩ := r
  obtain ⟨t', m'⟩ := r'
  simp only [Reported.known, Tokens.isEmpty, decide_eq_true_eq]
  by_cases ht : t = .default
  · by_cases ht' : t' = .default
    · simp [ht, ht']
    · simp [ht, ht', Ne.symm ht']
  · by_cases ht' : t' = .default
    · simp [ht, ht']
    · simp [ht, ht']

/-- **Two readings agree** when they have the same bounds and name the same model first. -/
theorem reading_eq_iff {xs ys : List Bytes} :
    reading fromSlice xs = reading fromSlice ys ↔
      (xs.foldl (readLine fromSlice) .default).tokens =
        (ys.foldl (readLine fromSlice) .default).tokens ∧
      ((xs.foldl (readLine fromSlice) .default).tokens ≠ .default →
        modelOf fromSlice xs = modelOf fromSlice ys) := by
  unfold reading
  rw [known_eq_iff, model_foldl joins_readLine, model_foldl joins_readLine]
  rfl

end Reading

section Pieces

/-- What a scan may read of a line, with the lines after it: all of it, or what comes after
a cut past the limit.  Of a line that no line feed ends it keeps no more than the limit. -/
def Reads (line : Bytes) (rest : List Bytes) (piece : Bytes) : Prop :=
  (piece = line ∨ ∃ k, LINE_LIMIT < k ∧ k ≤ line.length ∧ piece = line.drop k) ∧
    (rest = [] → piece.length ≤ LINE_LIMIT)

inductive Pieces : List Bytes → List Bytes → Prop where
  | nil : Pieces [] []
  | cons {line piece : Bytes} {rest pieces : List Bytes} :
      Reads line rest piece → Pieces rest pieces → Pieces (line :: rest) (piece :: pieces)

/-- A line that is past the limit, left out. -/
def within (line : Bytes) : Bytes := if line.length ≤ LINE_LIMIT then line else []

variable {fromSlice : Bytes → Option Json} {lines pieces : List Bytes}

theorem Reads.eq_within {line piece : Bytes} {rest : List Bytes} (h : Reads line rest piece)
    (hshort : line.length ≤ LINE_LIMIT) : piece = within line := by
  unfold within
  rw [if_pos hshort]
  obtain ⟨heq | ⟨k, hk, hle, -⟩, -⟩ := h
  · exact heq
  · omega

theorem reads_within (line : Bytes) (rest : List Bytes) : Reads line rest (within line) := by
  unfold within
  split
  · next h => exact ⟨.inl rfl, fun _ => h⟩
  · next h => exact ⟨.inr ⟨line.length, by omega, le_rfl, by simp⟩, fun _ => Nat.zero_le _⟩

theorem pieces_within (lines : List Bytes) : Pieces lines (lines.map within) := by
  induction lines with
  | nil => exact .nil
  | cons line rest ih => exact .cons (reads_within line rest) ih

theorem Pieces.replace {front rest : List Bytes} {line piece : Bytes} (h : Reads line rest piece) :
    Pieces (front ++ line :: rest) (front.map within ++ piece :: rest.map within) := by
  induction front with
  | nil => exact .cons h (pieces_within rest)
  | cons first more ih =>
    exact .cons ⟨(reads_within first []).1, fun _ => (reads_within first []).2 rfl⟩ ih

theorem Pieces.of_mem (h : Pieces lines pieces) {piece : Bytes} (hmem : piece ∈ pieces) :
    ∃ front line rest, lines = front ++ line :: rest ∧ Reads line rest piece := by
  induction h with
  | nil => cases hmem
  | @cons line _ rest _ hreads _ ih =>
    rcases mem_cons.mp hmem with rfl | hmem
    · exact ⟨[], line, rest, rfl, hreads⟩
    · obtain ⟨front, line', rest', rfl, hreads'⟩ := ih hmem
      exact ⟨line :: front, line', rest', rfl, hreads'⟩

theorem Pieces.mem_of_short (h : Pieces lines pieces) {line : Bytes} (hmem : line ∈ lines)
    (hshort : line.length ≤ LINE_LIMIT) : line ∈ pieces := by
  induction h with
  | nil => cases hmem
  | cons hreads _ ih =>
    rcases mem_cons.mp hmem with rfl | hmem
    · rw [hreads.eq_within hshort, within, if_pos hshort]
      exact mem_cons_self
    · exact mem_cons_of_mem _ (ih hmem)

/-- The lines that are past the limit add nothing to what the others report: not what a
scan may read of one of them, and not all of them, unless nothing is reported. -/
def LongLinesAddNothing (fromSlice : Bytes → Option Json) (lines : List Bytes) : Prop :=
  (∀ front line rest, lines = front ++ line :: rest → LINE_LIMIT < line.length →
    ∀ piece, Reads line rest piece →
      reading fromSlice (front.map within ++ piece :: rest.map within) =
        reading fromSlice (lines.map within)) ∧
  ((∃ line ∈ lines, LINE_LIMIT < line.length) →
    reading fromSlice (lines.map within) = none ∨
      reading fromSlice lines = reading fromSlice (lines.map within))

theorem modelOf_pieces (h : Pieces lines pieces)
    (hmodel : ∀ front line rest, lines = front ++ line :: rest → LINE_LIMIT < line.length →
      ∀ piece, Reads line rest piece →
        modelOf fromSlice (front.map within ++ piece :: rest.map within) =
          modelOf fromSlice (lines.map within)) :
    modelOf fromSlice pieces = modelOf fromSlice (lines.map within) := by
  induction h with
  | nil => rfl
  | @cons line piece rest pieces hreads _ ih =>
    have hshort : line.length ≤ LINE_LIMIT → piece = within line := hreads.eq_within
    cases hpiece : (readLine fromSlice .default piece).model with
    | some m =>
      by_cases hlong : LINE_LIMIT < line.length
      · have hhere := hmodel [] line rest rfl hlong piece hreads
        rw [map_cons, map_nil, nil_append] at hhere
        rw [map_cons, ← hhere]
        simp only [modelOf, findSome?_cons, hpiece]
      · rw [hshort (Nat.le_of_not_lt hlong)] at hpiece ⊢
        simp only [modelOf, map_cons, findSome?_cons, hpiece]
    | none =>
      have hwithin : (readLine fromSlice .default (within line)).model = none := by
        by_cases hlong : LINE_LIMIT < line.length
        · rw [within, if_neg (Nat.not_le_of_lt hlong)]
          rfl
        · rw [← hshort (Nat.le_of_not_lt hlong)]
          exact hpiece
      have hskip : ∀ (first : Bytes) (xs : List Bytes),
          (readLine fromSlice .default first).model = none →
            modelOf fromSlice (first :: xs) = modelOf fromSlice xs := by
        intro first xs hfirst
        simp only [modelOf, findSome?_cons, hfirst]
      rw [map_cons, hskip _ _ hpiece, hskip _ _ hwithin]
      apply ih
      intro front line' rest' hrest hlong piece' hreads'
      have hthere := hmodel (line :: front) line' rest' (by rw [hrest]; rfl) hlong piece' hreads'
      rw [map_cons, map_cons, cons_append, hskip _ _ hwithin, hskip _ _ hwithin] at hthere
      exact hthere

/-- **What a scan may read of its lines reports what the lines within the limit do.** -/
theorem reading_of_pieces (hadds : LongLinesAddNothing fromSlice lines)
    (h : Pieces lines pieces) :
    reading fromSlice pieces = reading fromSlice (lines.map within) := by
  have heach := fun front line rest hlines hlong piece hreads =>
    reading_eq_iff.mp (hadds.1 front line rest hlines hlong piece hreads)
  have htokens : (pieces.foldl (readLine fromSlice) .default).tokens =
      ((lines.map within).foldl (readLine fromSlice) .default).tokens := by
    apply eq_of_forall_ge_iff
    intro bound
    simp only [tokens_foldl_le_iff joins_readLine]
    apply and_congr_right
    intro hzero
    constructor
    · intro hpieces line hline
      obtain ⟨line, hmem, rfl⟩ := mem_map.mp hline
      unfold within
      split
      · next hshort => exact hpieces line (h.mem_of_short hmem hshort)
      · exact hzero
    · intro hbase piece hpiece
      obtain ⟨front, line, rest, hlines, hreads⟩ := h.of_mem hpiece
      by_cases hlong : LINE_LIMIT < line.length
      · have hsame := (heach front line rest hlines hlong piece hreads).1
        have hle := (tokens_foldl_le_iff joins_readLine _ .default bound).mpr ⟨hzero, hbase⟩
        rw [← hsame, tokens_foldl_le_iff joins_readLine] at hle
        exact hle.2 piece (mem_append_right _ mem_cons_self)
      · rw [hreads.eq_within (Nat.le_of_not_lt hlong)]
        exact hbase _ (mem_map_of_mem (by rw [hlines]; simp))
  refine reading_eq_iff.mpr ⟨htokens, fun hsome => ?_⟩
  apply modelOf_pieces h
  intro front line rest hlines hlong piece hreads
  obtain ⟨hsame, hmodel⟩ := heach front line rest hlines hlong piece hreads
  apply hmodel
  rw [hsame, ← htokens]
  exact hsome

end Pieces

section Feed

variable (fromSlice : Bytes → Option Json)

theorem readLines_append {line : Bytes} (hfree : LF ∉ line) (pending : Bytes) (r : Reported)
    (more : Bytes) :
    readLines fromSlice pending r (line ++ more) =
      readLines fromSlice (pending ++ line) r more := by
  induction line generalizing pending with
  | nil => rw [nil_append, append_nil]
  | cons b rest ih =>
    obtain ⟨hb, hrest⟩ := not_or.mp (fun h => hfree (mem_cons.mpr h))
    rw [cons_append, readLines, if_neg (Ne.symm hb), ih hrest, append_assoc]
    rfl

/-- What stands in the buffer is what is left of the line that is not ended yet. -/
structure Carries (current pending : Bytes) : Prop where
  free : LF ∉ current
  left : pending = current ∨ ∃ k, LINE_LIMIT < k ∧ k ≤ current.length ∧ pending = current.drop k

theorem Carries.snoc {current pending : Bytes} {b : UInt8} (h : Carries current pending)
    (hb : b ≠ LF) : Carries (current ++ [b]) (pending ++ [b]) where
  free := by
    rw [mem_append, mem_singleton]
    exact not_or.mpr ⟨h.free, Ne.symm hb⟩
  left := by
    rcases h.left with rfl | ⟨k, hk, hle, rfl⟩
    · exact .inl rfl
    · refine .inr ⟨k, hk, ?_, (drop_append_of_le_length hle).symm⟩
      rw [length_append]
      omega

theorem Carries.cut {current pending : Bytes} (h : Carries current pending)
    (hlong : LINE_LIMIT < pending.length) : Carries current [] where
  free := h.free
  left := by
    have hle : pending.length ≤ current.length := by
      rcases h.left with rfl | ⟨k, -, -, rfl⟩
      · rfl
      · simp
    exact .inr ⟨current.length, by omega, le_rfl, by simp⟩

theorem splitOn_ended {current : Bytes} (hfree : LF ∉ current) (more : Bytes) :
    (current ++ LF :: more).splitOn LF = current :: more.splitOn LF := by
  rw [splitOn_append_cons_self, splitOn_eq_singleton hfree]
  rfl

/-- The loop of `feed` reads the lines of a chunk. -/
theorem readLines_pieces (chunk : Bytes) {current pending : Bytes} (r : Reported)
    (h : Carries current pending) :
    ∃ current' ended, Carries current' (readLines fromSlice pending r chunk).1 ∧
      (readLines fromSlice pending r chunk).2 = ended.foldl (readLine fromSlice) r ∧
      ∀ more pieces, Pieces ((current' ++ more).splitOn LF) pieces →
        Pieces ((current ++ (chunk ++ more)).splitOn LF) (ended ++ pieces) := by
  induction chunk generalizing current pending r with
  | nil => exact ⟨current, [], h, rfl, fun _ _ hpieces => hpieces⟩
  | cons b rest ih =>
    unfold readLines
    by_cases hb : b = LF
    · subst hb
      rw [if_pos rfl]
      obtain ⟨current', ended, hcarries, hread, hpieces⟩ :=
        ih (readLine fromSlice r pending) ⟨not_mem_nil, .inl rfl⟩
      refine ⟨current', pending :: ended, hcarries, hread, fun more pieces hmore => ?_⟩
      rw [cons_append, splitOn_ended h.free]
      refine .cons ⟨h.left, fun hnil => absurd hnil (splitOn_ne_nil _ _)⟩ ?_
      exact hpieces more pieces hmore
    · rw [if_neg hb]
      obtain ⟨current', ended, hcarries, hread, hpieces⟩ := ih r (h.snoc hb)
      refine ⟨current', ended, hcarries, hread, fun more pieces hmore => ?_⟩
      have hnext := hpieces more pieces hmore
      rw [append_assoc] at hnext
      exact hnext

/-- **A stream is read by pieces of its lines.** -/
theorem pieces_of_feed (chunks : List Bytes) {current pending : Bytes} (r : Reported)
    (h : Carries current pending) (hshort : pending.length ≤ LINE_LIMIT) :
    ∃ pieces, Pieces ((current ++ chunks.flatten).splitOn LF) pieces ∧
      (chunks.foldl (UsageScan.feed fromSlice) ⟨true, pending, false, r⟩).finish fromSlice =
        (pieces.foldl (readLine fromSlice) r).known := by
  induction chunks generalizing current pending r with
  | nil =>
    refine ⟨[pending], ?_, rfl⟩
    rw [flatten_nil, append_nil, splitOn_eq_singleton h.free]
    exact .cons ⟨h.left, fun _ => hshort⟩ .nil
  | cons chunk rest ih =>
    obtain ⟨current', ended, hcarries, hread, hpieces⟩ := readLines_pieces fromSlice chunk r h
    have hfeed : ∃ pending', Carries current' pending' ∧ pending'.length ≤ LINE_LIMIT ∧
        UsageScan.feed fromSlice ⟨true, pending, false, r⟩ chunk =
          ⟨true, pending', false, ended.foldl (readLine fromSlice) r⟩ := by
      unfold UsageScan.feed
      rw [if_neg Bool.false_ne_true, if_pos rfl]
      dsimp only
      rw [← hread]
      split
      · next hlong => exact ⟨[], hcarries.cut hlong, Nat.zero_le _, rfl⟩
      · next hlong => exact ⟨_, hcarries, Nat.le_of_not_lt hlong, rfl⟩
    obtain ⟨pending', hcarries', hshort', hstate⟩ := hfeed
    obtain ⟨pieces, hmore, hfinish⟩ := ih (ended.foldl (readLine fromSlice) r) hcarries' hshort'
    refine ⟨ended ++ pieces, hpieces _ _ hmore, ?_⟩
    rw [foldl_cons, hstate, hfinish, foldl_append]

theorem feed_free {line : Bytes} (hfree : LF ∉ line) (pending : Bytes) (r : Reported) :
    UsageScan.feed fromSlice ⟨true, pending, false, r⟩ line =
      ⟨true, if LINE_LIMIT < (pending ++ line).length then [] else pending ++ line, false, r⟩ := by
  have hlines := readLines_append fromSlice hfree pending r []
  rw [append_nil, readLines] at hlines
  unfold UsageScan.feed
  rw [if_neg Bool.false_ne_true, if_pos rfl]
  dsimp only
  rw [hlines]
  split
  · rfl
  · rfl

theorem feed_ended {line : Bytes} (hfree : LF ∉ line) (r : Reported) :
    UsageScan.feed fromSlice ⟨true, [], false, r⟩ (line ++ [LF]) =
      ⟨true, [], false, readLine fromSlice r line⟩ := by
  have hlines := readLines_append fromSlice hfree [] r [LF]
  rw [readLines, if_pos rfl, readLines, nil_append] at hlines
  simp [UsageScan.feed, hlines]

/-- **Every choice of such pieces is read**, in some chunks. -/
theorem exists_chunks {lines pieces : List Bytes} (h : Pieces lines pieces) (hne : lines ≠ [])
    (hfree : ∀ line ∈ lines, LF ∉ line) :
    ∃ chunks : List Bytes, chunks.flatten = [LF].intercalate lines ∧
      ∀ r, (chunks.foldl (UsageScan.feed fromSlice) ⟨true, [], false, r⟩).finish fromSlice =
        (pieces.foldl (readLine fromSlice) r).known := by
  induction h with
  | nil => exact absurd rfl hne
  | @cons line piece rest pieces hreads hrest ih =>
    obtain ⟨hline, hrestFree⟩ := forall_mem_cons.mp hfree
    have hcut : ∀ k, LINE_LIMIT < k → k ≤ line.length → ∀ r,
        UsageScan.feed fromSlice ⟨true, [], false, r⟩ (line.take k) = ⟨true, [], false, r⟩ := by
      intro k hk hle r
      have htake : LINE_LIMIT < (line.take k).length := by
        rw [length_take]
        omega
      rw [feed_free fromSlice (fun hmem => hline (mem_of_mem_take hmem)), nil_append, if_pos htake]
    have hdrop : ∀ k, LF ∉ line.drop k := fun k hmem => hline (mem_of_mem_drop hmem)
    obtain ⟨hpiece, hlast⟩ := hreads
    by_cases hnil : rest = []
    · subst hnil
      cases hrest
      have hkeep : ∀ x : Bytes, LF ∉ x → x.length ≤ LINE_LIMIT → ∀ r,
          (UsageScan.feed fromSlice ⟨true, [], false, r⟩ x).finish fromSlice =
            (readLine fromSlice r x).known := by
        intro x hx hshort r
        rw [feed_free fromSlice hx, nil_append, if_neg (Nat.not_lt_of_le hshort)]
        rfl
      rcases hpiece with rfl | ⟨k, hk, hle, rfl⟩
      · exact ⟨[piece], by simp, hkeep piece hline (hlast rfl)⟩
      · refine ⟨[line.take k, line.drop k], by simp, fun r => ?_⟩
        rw [foldl_cons, hcut k hk hle]
        exact hkeep _ (hdrop k) (hlast rfl) r
    · obtain ⟨chunks, hflatten, hchunks⟩ := ih hnil hrestFree
      have hjoined : [LF].intercalate (line :: rest) = line ++ [LF] ++ [LF].intercalate rest := by
        rw [intercalate_cons_of_ne_nil hnil]
      rw [hjoined, ← hflatten]
      rcases hpiece with rfl | ⟨k, hk, hle, rfl⟩
      · refine ⟨(piece ++ [LF]) :: chunks, by simp, fun r => ?_⟩
        rw [foldl_cons, feed_ended fromSlice hline, hchunks]
        rfl
      · refine ⟨line.take k :: (line.drop k ++ [LF]) :: chunks, ?_, fun r => ?_⟩
        · rw [flatten_cons, flatten_cons, ← append_assoc, ← append_assoc, take_append_drop]
        · rw [foldl_cons, foldl_cons, hcut k hk hle, feed_ended fromSlice (hdrop k), hchunks]
          rfl

theorem finish_overflowed (chunks : List Bytes) :
    (chunks.foldl (UsageScan.feed fromSlice) ⟨false, [], true, .default⟩).finish fromSlice =
      none := by
  induction chunks with
  | nil => rfl
  | cons _ _ ih => exact ih

theorem finish_whole (chunks : List Bytes) {pending : Bytes}
    (hshort : pending.length ≤ WHOLE_LIMIT) :
    (chunks.foldl (UsageScan.feed fromSlice) ⟨false, pending, false, .default⟩).finish fromSlice =
      if WHOLE_LIMIT < (pending ++ chunks.flatten).length then
        none
      else
        (fromSlice (pending ++ chunks.flatten)).bind fun v => (readMessage .default v).known := by
  induction chunks generalizing pending with
  | nil =>
    rw [flatten_nil, append_nil, if_neg (Nat.not_lt_of_le hshort)]
    unfold UsageScan.finish
    rw [foldl_nil, if_neg Bool.false_ne_true, if_neg Bool.false_ne_true]
    cases fromSlice pending with
    | none => rfl
    | some => rfl
  | cons chunk rest ih =>
    have hfeed : UsageScan.feed fromSlice ⟨false, pending, false, .default⟩ chunk =
        if WHOLE_LIMIT < pending.length + chunk.length then
          ⟨false, [], true, .default⟩
        else
          ⟨false, pending ++ chunk, false, .default⟩ := by
      rfl
    rw [foldl_cons, hfeed]
    split
    · next hlong =>
      have hall : WHOLE_LIMIT < (pending ++ (chunk :: rest).flatten).length := by
        simp only [length_append, flatten_cons]
        omega
      rw [if_pos hall]
      exact finish_overflowed fromSlice rest
    · next hfits =>
      rw [ih (by rw [length_append]; omega), append_assoc, flatten_cons]

end Feed

/-- An answer with a line, or a body, past its limit. -/
def TooLong (contentType : Option String) (bytes : Bytes) : Prop :=
  if (UsageScan.new contentType).stream then
    ∃ line ∈ bytes.splitOn LF, LINE_LIMIT < line.length
  else
    WHOLE_LIMIT < bytes.length

/-- **When it does not matter how an answer is cut.**  Every two ways to cut it into chunks
give one result, which is what all of it reports, or nothing where it is too long, if and only
if it is no stream or its lines past the limit add nothing to the others. -/
theorem chunking_changes_nothing_iff (fromSlice : Bytes → Option Json)
    (contentType : Option String) (bytes : Bytes) :
    ((∀ chunks chunks' : List Bytes, chunks.flatten = bytes → chunks'.flatten = bytes →
        usage fromSlice contentType chunks = usage fromSlice contentType chunks') ∧
      ∀ chunks : List Bytes, chunks.flatten = bytes →
        usage fromSlice contentType chunks = wholeReading fromSlice contentType bytes ∨
          TooLong contentType bytes ∧ usage fromSlice contentType chunks = none) ↔
      ((UsageScan.new contentType).stream = true →
        LongLinesAddNothing fromSlice (bytes.splitOn LF)) := by
  unfold TooLong wholeReading usage
  cases hstream : (UsageScan.new contentType).stream with
  | false =>
    have hnew : UsageScan.new contentType =
        ⟨(UsageScan.new contentType).stream, [], false, .default⟩ := by
      rfl
    rw [hstream] at hnew
    have hall : ∀ chunks : List Bytes, chunks.flatten = bytes → _ := fun chunks hchunks =>
      hchunks ▸ @finish_whole fromSlice chunks [] (Nat.zero_le _)
    rw [hnew]
    refine iff_of_true ⟨fun chunks chunks' h h' => ?_, fun chunks h => ?_⟩ nofun
    · rw [hall chunks h, hall chunks' h']
    · rw [hall chunks h]
      by_cases hlong : WHOLE_LIMIT < bytes.length
      · exact .inr ⟨hlong, if_pos hlong⟩
      · exact .inl (if_neg hlong)
  | true =>
    have hnew : UsageScan.new contentType =
        ⟨(UsageScan.new contentType).stream, [], false, .default⟩ := by
      rfl
    rw [hstream] at hnew
    rw [hnew, forall_prop_of_true rfl]
    constructor
    · rintro ⟨hsame, hwhole⟩
      have hread : ∀ pieces, Pieces (bytes.splitOn LF) pieces → ∃ chunks : List Bytes,
          chunks.flatten = bytes ∧ (chunks.foldl (UsageScan.feed fromSlice)
            ⟨true, [], false, .default⟩).finish fromSlice = reading fromSlice pieces := by
        intro pieces hpieces
        obtain ⟨chunks, hflatten, hchunks⟩ := exists_chunks fromSlice hpieces
          (splitOn_ne_nil LF bytes) not_mem_of_mem_splitOn
        rw [intercalate_splitOn] at hflatten
        exact ⟨chunks, hflatten, hchunks .default⟩
      obtain ⟨chunks, hflatten, hbase⟩ := hread _ (pieces_within _)
      refine ⟨fun front line rest hlines _ piece hreads => ?_, fun _ => ?_⟩
      · obtain ⟨chunks', hflatten', hpiece⟩ := hread _ (hlines ▸ Pieces.replace hreads)
        rw [← hpiece, ← hbase]
        exact hsame _ _ hflatten' hflatten
      · rw [← hbase]
        rcases hwhole chunks hflatten with h | ⟨-, h⟩
        · exact .inr h.symm
        · exact .inl h
    · intro hadds
      have hall : ∀ chunks : List Bytes, chunks.flatten = bytes →
          (chunks.foldl (UsageScan.feed fromSlice) ⟨true, [], false, .default⟩).finish fromSlice =
            reading fromSlice ((bytes.splitOn LF).map within) := by
        rintro chunks rfl
        have hstart : Carries [] [] := ⟨not_mem_nil, .inl rfl⟩
        obtain ⟨pieces, hpieces, hfinish⟩ :=
          pieces_of_feed fromSlice chunks .default hstart (Nat.zero_le _)
        exact hfinish.trans (reading_of_pieces hadds hpieces)
      refine ⟨fun chunks chunks' h h' => (hall chunks h).trans (hall chunks' h').symm,
        fun chunks h => ?_⟩
      rw [hall chunks h]
      by_cases hlong : ∃ line ∈ bytes.splitOn LF, LINE_LIMIT < line.length
      · rcases hadds.2 hlong with hnone | hwhole
        · exact .inr ⟨hlong, hnone⟩
        · exact .inl hwhole.symm
      · left
        have hwithin : (bytes.splitOn LF).map within = bytes.splitOn LF := by
          refine (map_congr_left fun line hmem => ?_).trans (map_id _)
          exact if_pos (Nat.le_of_not_lt fun h => hlong ⟨line, hmem, h⟩)
        rw [hwithin]
        rfl

/-- What the data line of an answer says. -/
private def usageData : Bytes :=
  "\x7b\"usage\":\x7b\"input_tokens\":3,\"output_tokens\":4\x7d\x7d".toList.map fun c =>
    UInt8.ofNat c.toNat

private def parsed (data : Bytes) : Option Json :=
  if data = usageData then
    some (.obj [("usage", .obj [("input_tokens", .int 3), ("output_tokens", .int 4)])])
  else
    none

/-- A line that is blank at first and then goes on as a data line. -/
private def blankLine (n : Nat) : Bytes := replicate (n + 1) 32 ++ (DATA ++ usageData)

theorem dataOf_blank (line : Bytes) : dataOf (32 :: line) = none := by
  have hfirst : ∀ x : Bytes, x.head? ≠ some 100 → DATA.isPrefixOf x = false := by
    intro x hx
    cases hstarts : DATA.isPrefixOf x with
    | false => rfl
    | true =>
      obtain ⟨more, rfl⟩ := List.isPrefixOf_iff_prefix.mp hstarts
      exact absurd rfl hx
  unfold dataOf
  dsimp only
  rw [hfirst]
  · rfl
  · split
    · cases line with
      | nil => nofun
      | cons _ _ =>
        rw [dropLast_cons_cons, head?_cons]
        decide
    · rw [head?_cons]
      decide

theorem readLine_blankLine (n : Nat) (r : Reported) : readLine parsed r (blankLine n) = r := by
  unfold readLine blankLine
  rw [replicate_succ, cons_append, dataOf_blank]
  rfl

theorem reads_blankLine {n : Nat} (hn : LINE_LIMIT ≤ n) :
    Reads (blankLine n) [[]] (DATA ++ usageData) := by
  have hdrop : (blankLine n).drop (n + 1) = DATA ++ usageData := by
    unfold blankLine
    rw [drop_append_of_le_length (by rw [length_replicate]), drop_replicate, Nat.sub_self]
    rfl
  refine ⟨.inr ⟨n + 1, by omega, ?_, hdrop.symm⟩, nofun⟩
  unfold blankLine
  rw [length_append, length_replicate]
  omega

theorem free_blankLine (n : Nat) : LF ∉ blankLine n := by
  have hdata : LF ∉ DATA ++ usageData := by decide +kernel
  unfold blankLine
  rw [mem_append, mem_replicate, not_or]
  exact ⟨fun h => absurd h.2 (by decide), hdata⟩

/-- Cut behind the blanks, a line that says nothing is read as a data line. -/
theorem a_cut_reads_a_fragment :
    ¬ ∀ (fromSlice : Bytes → Option Json) (contentType : Option String) (bytes : Bytes),
      (∀ chunks chunks' : List Bytes, chunks.flatten = bytes → chunks'.flatten = bytes →
        usage fromSlice contentType chunks = usage fromSlice contentType chunks') ∧
      ∀ chunks : List Bytes, chunks.flatten = bytes →
        usage fromSlice contentType chunks = wholeReading fromSlice contentType bytes ∨
          TooLong contentType bytes ∧ usage fromSlice contentType chunks = none := by
  intro hclaim
  obtain ⟨n, hn⟩ : ∃ n, n = LINE_LIMIT := ⟨_, rfl⟩
  obtain ⟨hsame, -⟩ := hclaim parsed (some "text/event-stream") ([LF].intercalate [blankLine n, []])
  have hfree : ∀ line ∈ [blankLine n, []], LF ∉ line :=
    forall_mem_cons.mpr ⟨free_blankLine n, forall_mem_singleton.mpr not_mem_nil⟩
  have hlast : Pieces [[]] [[]] := .cons ⟨.inl rfl, fun _ => Nat.zero_le _⟩ .nil
  have hall : Pieces [blankLine n, []] [blankLine n, []] := .cons ⟨.inl rfl, nofun⟩ hlast
  have hpart : Pieces [blankLine n, []] [DATA ++ usageData, []] :=
    .cons (reads_blankLine hn.ge) hlast
  obtain ⟨whole, hwhole, hnone⟩ := exists_chunks parsed hall nofun hfree
  obtain ⟨cut, hflatten, hsome⟩ := exists_chunks parsed hpart nofun hfree
  have hnew : UsageScan.new (some "text/event-stream") = ⟨true, [], false, .default⟩ := by
    decide
  have heq := hsame whole cut hwhole hflatten
  unfold usage at heq
  rw [hnew, hnone, hsome, foldl_cons, readLine_blankLine] at heq
  exact absurd heq (by decide +kernel)

end LlmProxy
end StudioWeb
