import StudioWeb.Library.SubstringSearch
import StudioWeb.WorkspaceJobs.SanitizeString
import Mathlib.Data.List.Chain

/-!
# The frames of an event stream

The text of a connection is cut into chunks in any way; `takeFrames` is the loop that takes the
frames out of what has been read, and `parseFrame` reads one of them.
-/

namespace StudioWeb
namespace EventStream

open SubstringSearch List

/-- Two line breaks end a frame. -/
def blankLine : List Char := ['\n', '\n']

/-- The loop that takes the frames out of the buffer, and the buffer it leaves. -/
def takeFramesFrom : Nat → List Char → List (List Char) × List Char
  | 0, buffer => ([], buffer)
  | fuel + 1, buffer =>
    match splitFirst blankLine buffer with
    | none => ([], buffer)
    | some (frame, rest) =>
      (frame :: (takeFramesFrom fuel rest).1, (takeFramesFrom fuel rest).2)

def takeFrames (buffer : List Char) : List (List Char) × List Char :=
  takeFramesFrom buffer.length buffer

inductive Frame where
  | nothing
  | named (eventName payload : List Char)
  | message (payload : List Char)
deriving DecidableEq

/-- The fields of a frame while its lines are read. -/
structure FrameFields where
  eventName : List Char
  data : List (List Char)

/-- `replace(/^ /, '')`. -/
def dropSpace : List Char → List Char
  | ' ' :: text => text
  | text => text

def FrameFields.readLine (fields : FrameFields) (line : List Char) : FrameFields :=
  if line = [] ∨ line.head? = some ':' then
    fields
  else if "event:".toList.isPrefixOf line then
    { fields with eventName := WorkspaceJobs.jsTrim (line.drop 6) }
  else if "data:".toList.isPrefixOf line then
    { fields with data := fields.data ++ [dropSpace (line.drop 5)] }
  else
    fields

def parseFrame (frame : List Char) : Frame :=
  let fields := (frame.splitOn '\n').foldl FrameFields.readLine ⟨[], []⟩
  if fields.data = [] then
    .nothing
  else if fields.eventName ≠ [] ∧ fields.eventName ≠ "message".toList then
    .named fields.eventName (['\n'].intercalate fields.data)
  else
    .message (['\n'].intercalate fields.data)

theorem takeFramesFrom_fuel :
    ∀ {n m : Nat} {buffer : List Char},
      buffer.length ≤ n → buffer.length ≤ m → takeFramesFrom n buffer = takeFramesFrom m buffer
  | 0, 0, _, _, _ => rfl
  | 0, m + 1, buffer, hn, _ => by
    rw [length_eq_zero_iff.mp (Nat.le_zero.mp hn)]
    rfl
  | n + 1, 0, buffer, _, hm => by
    rw [length_eq_zero_iff.mp (Nat.le_zero.mp hm)]
    rfl
  | n + 1, m + 1, buffer, hn, hm => by
    unfold takeFramesFrom
    cases hsplit : splitFirst blankLine buffer with
    | none => rfl
    | some pieces =>
      obtain ⟨frame, rest⟩ := pieces
      have hlength := congrArg List.length (splitFirst_eq_some hsplit)
      simp only [length_append, blankLine, length_cons, length_nil] at hlength
      have hrest : takeFramesFrom n rest = takeFramesFrom m rest :=
        takeFramesFrom_fuel (by omega) (by omega)
      simp only [hrest]

theorem takeFrames_none {buffer : List Char} (h : splitFirst blankLine buffer = none) :
    takeFrames buffer = ([], buffer) := by
  unfold takeFrames
  cases buffer with
  | nil => rfl
  | cons =>
    rw [length_cons]
    unfold takeFramesFrom
    rw [h]

theorem takeFrames_some {buffer frame rest : List Char}
    (h : splitFirst blankLine buffer = some (frame, rest)) :
    takeFrames buffer = (frame :: (takeFrames rest).1, (takeFrames rest).2) := by
  have hlength := congrArg List.length (splitFirst_eq_some h)
  simp only [length_append, blankLine, length_cons, length_nil] at hlength
  obtain ⟨n, hn⟩ : ∃ n, buffer.length = n + 1 := ⟨buffer.length - 1, by omega⟩
  unfold takeFrames
  rw [hn, takeFramesFrom_fuel (n := rest.length) (m := n) (Nat.le_refl _) (by omega)]
  conv_lhs => unfold takeFramesFrom
  rw [h]

/-- A text cut in two gives the frames of the whole. -/
theorem takeFrames_append (first second : List Char) :
    takeFrames (first ++ second) =
      ((takeFrames first).1 ++ (takeFrames ((takeFrames first).2 ++ second)).1,
        (takeFrames ((takeFrames first).2 ++ second)).2) := by
  induction hlength : first.length using Nat.strongRecOn generalizing first with
  | ind _ ih =>
    cases hsplit : splitFirst blankLine first with
    | none => simp [takeFrames_none hsplit]
    | some pieces =>
      obtain ⟨frame, rest⟩ := pieces
      have hshorter := congrArg List.length (splitFirst_eq_some hsplit)
      simp only [length_append, blankLine, length_cons, length_nil] at hshorter
      have hrest := ih rest.length (by omega) rest rfl
      rw [takeFrames_some hsplit, takeFrames_some (splitFirst_append second hsplit), hrest]
      rfl

section Writing

def frameBody (lines : List (List Char)) : List Char := ['\n'].intercalate lines

def frameText (lines : List (List Char)) : List Char := frameBody lines ++ blankLine

/-- The lines of a frame: none of them empty, none of them with a break inside. -/
structure WireLines (lines : List (List Char)) : Prop where
  ne_nil : lines ≠ []
  solid : ∀ line ∈ lines, line ≠ [] ∧ '\n' ∉ line

/-- Two line breaks do not follow each other. -/
def NotBothBreaks (a b : Char) : Prop := a ≠ '\n' ∨ b ≠ '\n'

theorem splitFirst_blankLine {before : List Char} (after : List Char)
    (h : List.IsChain NotBothBreaks (before ++ ['\n'])) :
    splitFirst blankLine (before ++ blankLine ++ after) = some (before, after) := by
  induction before with
  | nil => rfl
  | cons c before ih =>
    rw [cons_append, isChain_cons] at h
    have hstart : ¬ blankLine.isPrefixOf (c :: (before ++ blankLine ++ after)) = true := by
      rw [List.isPrefixOf_iff_prefix, blankLine, cons_prefix_cons]
      rintro ⟨rfl, hrest⟩
      cases before with
      | nil => exact (h.1 '\n' rfl).elim (fun hc => hc rfl) (fun hc => hc rfl)
      | cons =>
        obtain ⟨rfl, _⟩ := cons_prefix_cons.mp hrest
        exact (h.1 '\n' rfl).elim (fun hc => hc rfl) (fun hc => hc rfl)
    rw [cons_append, cons_append]
    unfold splitFirst
    rw [if_neg hstart, ih h.2]
    rfl

variable {lines : List (List Char)} {fields : FrameFields}

theorem frameBody_cons {line next : List Char} :
    frameBody (line :: next :: lines) = line ++ '\n' :: frameBody (next :: lines) := by
  simp [frameBody, List.intercalate]

theorem isChain_line {line : List Char} (h : '\n' ∉ line) :
    List.IsChain NotBothBreaks (line ++ ['\n']) := by
  induction line with
  | nil => exact isChain_singleton '\n'
  | cons _ _ ih =>
    rw [cons_append, isChain_cons]
    rw [mem_cons, not_or] at h
    exact ⟨fun _ _ => Or.inl (Ne.symm h.1), ih h.2⟩

theorem isChain_frameBody (h : WireLines lines) :
    List.IsChain NotBothBreaks (frameBody lines ++ ['\n']) := by
  obtain ⟨hne, hsolid⟩ := h
  induction lines with
  | nil => exact absurd rfl hne
  | cons line lines ih =>
    obtain ⟨_, hbreak⟩ := hsolid line mem_cons_self
    cases lines with
    | nil =>
      simpa [frameBody, List.intercalate] using isChain_line hbreak
    | cons next lines =>
      have hrest := ih (cons_ne_nil next lines)
        (fun other hin => hsolid other (mem_cons_of_mem line hin))
      obtain ⟨hnext, hnextBreak⟩ := hsolid next (mem_cons_of_mem line mem_cons_self)
      obtain ⟨c, next, rfl⟩ := exists_cons_of_ne_nil hnext
      rw [frameBody_cons, append_assoc, cons_append,
        append_cons line '\n', isChain_append]
      refine ⟨isChain_line hbreak, hrest, ?_⟩
      intro a _ b hb
      have hc : c ≠ '\n' := fun heq => hnextBreak (heq ▸ mem_cons_self)
      have hhead : b = c := by
        cases lines with
        | nil => simpa [frameBody, List.intercalate, eq_comm] using hb
        | cons => simpa [frameBody_cons, eq_comm] using hb
      rw [hhead]
      exact Or.inr hc

/-- A frame that is written is a frame that is taken. -/
theorem takeFrames_frameText (h : WireLines lines) (rest : List Char) :
    takeFrames (frameText lines ++ rest) =
      (frameBody lines :: (takeFrames rest).1, (takeFrames rest).2) :=
  takeFrames_some (splitFirst_blankLine rest (isChain_frameBody h))

theorem takeFrames_write {text : List Char} (h : WireLines lines)
    (hwhole : (takeFrames text).2 = []) :
    takeFrames (text ++ frameText lines) = ((takeFrames text).1 ++ [frameBody lines], []) := by
  have hlast := takeFrames_frameText h []
  rw [append_nil] at hlast
  rw [takeFrames_append, hwhole, nil_append, hlast]
  rfl

/-- A line that is no part of the data of a frame, and does not name its event. -/
def IsHeader (line : List Char) : Prop :=
  line ≠ [] ∧ '\n' ∉ line ∧ "event:".toList.isPrefixOf line = false ∧
    "data:".toList.isPrefixOf line = false

instance (line : List Char) : Decidable (IsHeader line) :=
  inferInstanceAs (Decidable (_ ∧ _ ∧ _ ∧ _))

def messageLines (headers payload : List (List Char)) : List (List Char) :=
  headers ++ payload.map ("data: ".toList ++ ·)

theorem wireLines_message {headers payload : List (List Char)}
    (hheaders : ∀ line ∈ headers, IsHeader line) (hpayload : ∀ line ∈ payload, '\n' ∉ line)
    (hne : payload ≠ []) : WireLines (messageLines headers payload) := by
  constructor
  · exact append_ne_nil_of_right_ne_nil headers (fun hnil => hne (map_eq_nil_iff.mp hnil))
  · intro line hline
    rcases mem_append.mp hline with hheader | hdata
    · exact ⟨(hheaders line hheader).1, (hheaders line hheader).2.1⟩
    · obtain ⟨piece, hpiece, rfl⟩ := mem_map.mp hdata
      refine ⟨cons_ne_nil _ _, ?_⟩
      have hbreak := hpayload piece hpiece
      simp [hbreak]

theorem readLine_header {line : List Char} (h : IsHeader line) :
    fields.readLine line = fields := by
  obtain ⟨_, _, hevent, hdata⟩ := h
  unfold FrameFields.readLine
  rw [hevent, hdata]
  simp

theorem readLine_data {piece : List Char} :
    fields.readLine ("data: ".toList ++ piece) = { fields with data := fields.data ++ [piece] } := by
  rfl

theorem foldl_headers {headers : List (List Char)}
    (h : ∀ line ∈ headers, IsHeader line) : headers.foldl FrameFields.readLine fields = fields := by
  induction headers with
  | nil => rfl
  | cons line _ ih =>
    rw [foldl_cons, readLine_header (h line mem_cons_self)]
    exact ih (fun other hin => h other (mem_cons_of_mem line hin))

theorem foldl_data {payload : List (List Char)} :
    (payload.map ("data: ".toList ++ ·)).foldl FrameFields.readLine fields =
      { fields with data := fields.data ++ payload } := by
  induction payload generalizing fields with
  | nil => simp
  | cons _ _ ih =>
    rw [map_cons, foldl_cons, readLine_data, ih]
    simp

/-- A payload written by lines is read whole. -/
theorem parseFrame_dataLines {headers payload : List (List Char)}
    (hheaders : ∀ line ∈ headers, IsHeader line) (hpayload : ∀ line ∈ payload, '\n' ∉ line)
    (hne : payload ≠ []) :
    parseFrame (frameBody (messageLines headers payload)) =
      .message (['\n'].intercalate payload) := by
  have hwire := wireLines_message hheaders hpayload hne
  have hsplit : (frameBody (messageLines headers payload)).splitOn '\n' =
      messageLines headers payload :=
    splitOn_intercalate '\n' (fun line hline => (hwire.solid line hline).2) hwire.ne_nil
  unfold parseFrame
  rw [hsplit, messageLines, foldl_append, foldl_headers hheaders, foldl_data]
  simp [hne]

end Writing

end EventStream
end StudioWeb
