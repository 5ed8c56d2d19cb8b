import StudioWeb.EventStream.FetchEventSource
import Mathlib.Data.List.Infix

/-!
# What a stream hands over

While a stream is live, the events it has handed over are those between its starting cursor and
its cursor.  A run of deliveries keeps that when what it delivers follows what is delivered.
-/

namespace StudioWeb
namespace EventStream

open List

universe u v w

variable {E : Type u} {C : Type v} {p : Resume E C}

section Order

variable [LinearOrder C]

def Increasing (published : List (Published p)) : Prop :=
  published.Pairwise (fun a b => a.cursor < b.cursor)

def upTo (published : List (Published p)) (start c : C) : List (Published p) :=
  published.filter (fun e => start < e.cursor ∧ e.cursor ≤ c)

def after (published : List (Published p)) (start : C) : List (Published p) :=
  published.filter (fun e => start < e.cursor)

theorem upTo_prefix {published : List (Published p)} (h : Increasing published) (start c : C) :
    upTo published start c <+: after published start := by
  induction published with
  | nil => exact prefix_refl []
  | cons e published ih =>
    obtain ⟨hfirst, hrest⟩ := pairwise_cons.mp h
    unfold upTo after at *
    by_cases hstart : start < e.cursor
    · by_cases hto : e.cursor ≤ c
      · rw [filter_cons_of_pos (by simp [hstart, hto]),
          filter_cons_of_pos (by simp [hstart])]
        exact cons_prefix_cons.mpr ⟨rfl, ih hrest⟩
      · -- nothing behind an event after the cursor is up to it
        have hnone : published.filter (fun e => start < e.cursor ∧ e.cursor ≤ c) = [] := by
          rw [filter_eq_nil_iff]
          intro x hx
          have hlt := hfirst x hx
          simp only [decide_eq_true_eq, not_and]
          exact fun _ hle => hto (le_trans (le_of_lt hlt) hle)
        rw [filter_cons_of_neg (by simp [hto]), hnone]
        exact nil_prefix
    · rw [filter_cons_of_neg (by simp [hstart]), filter_cons_of_neg (by simp [hstart])]
      exact ih hrest

/-- The next event is what is added up to its cursor. -/
theorem upTo_next {before behind : List (Published p)} {e : Published p} {start c : C}
    (h : Increasing (before ++ e :: behind)) (hbefore : ∀ x ∈ before, x.cursor ≤ c)
    (hstart : start ≤ c) (hnext : c < e.cursor) :
    upTo (before ++ e :: behind) start e.cursor =
      upTo (before ++ e :: behind) start c ++ [e] := by
  obtain ⟨_, hbehind, _⟩ := pairwise_append.mp h
  have hlater := (pairwise_cons.mp hbehind).1
  have hsame : before.filter (fun x => start < x.cursor ∧ x.cursor ≤ e.cursor) =
      before.filter (fun x => start < x.cursor ∧ x.cursor ≤ c) := by
    apply filter_congr
    intro x hx
    have hle := hbefore x hx
    simp [hle, le_trans hle (le_of_lt hnext)]
  have hnone : ∀ d, d ≤ e.cursor →
      behind.filter (fun x => start < x.cursor ∧ x.cursor ≤ d) = [] := by
    intro d hd
    rw [filter_eq_nil_iff]
    intro x hx
    have hlt := hlater x hx
    simp only [decide_eq_true_eq, not_and]
    exact fun _ hle => absurd (le_trans hle hd) (not_le_of_gt hlt)
  unfold upTo
  rw [filter_append, filter_append, hsame,
    filter_cons_of_pos (by simp [lt_of_le_of_lt hstart hnext]),
    filter_cons_of_neg (by simp [hnext]), hnone e.cursor (le_refl _),
    hnone c (le_of_lt hnext), append_nil]

theorem cut_at_cursor {published : List (Published p)} (h : Increasing published) (c : C) :
    ∃ before, published = before ++ after published c ∧ ∀ x ∈ before, x.cursor ≤ c := by
  induction published with
  | nil => exact ⟨[], rfl, nofun⟩
  | cons e _ ih =>
    obtain ⟨hfirst, hrest⟩ := pairwise_cons.mp h
    unfold after at *
    by_cases hafter : c < e.cursor
    · refine ⟨[], ?_, nofun⟩
      rw [nil_append, eq_comm, filter_eq_self]
      intro x hx
      rcases mem_cons.mp hx with rfl | hx
      · simpa using hafter
      · simpa using lt_trans hafter (hfirst x hx)
    · obtain ⟨before, hbefore, hle⟩ := ih hrest
      refine ⟨e :: before, ?_, ?_⟩
      · rw [filter_cons_of_neg (by simpa using hafter), cons_append, ← hbefore]
      · intro x hx
        rcases mem_cons.mp hx with rfl | hx
        · exact le_of_not_gt hafter
        · exact hle x hx

end Order

section Calls

variable {consumer : Consumer E}

namespace Source

@[simp] theorem call_cursor (s : Source E C) (c : Call E) :
    (s.call consumer c).1.cursor = s.cursor := by
  rfl

@[simp] theorem call_ended (s : Source E C) (c : Call E) :
    (s.call consumer c).1.ended = s.ended := by
  rfl

theorem isLive_iff {s : Source E C} :
    s.isLive = true ↔ s.readyState ≠ .closed ∧ s.ended = false := by
  unfold isLive
  simp

theorem live_of_call {s : Source E C} {c : Call E} (h : (s.call consumer c).1.isLive = true) :
    s.isLive = true ∧ (consumer (s.calls ++ [c])).closes = false := by
  rw [isLive_iff] at h ⊢
  obtain ⟨hstate, hended⟩ := h
  unfold call at hstate
  cases hcloses : (consumer (s.calls ++ [c])).closes with
  | true =>
    simp only [hcloses, if_pos] at hstate
    exact absurd rfl hstate
  | false =>
    simp only [hcloses] at hstate
    exact ⟨⟨hstate, hended⟩, rfl⟩

end Source

theorem cursorOfRaw_eq (raw : List Char) :
    p.cursorOfRaw raw = (p.eventOf (p.live raw)).map (·.cursor) := by
  unfold Resume.eventOf Resume.live Resume.cursorOfRaw
  cases p.parse raw with
  | none => rfl
  | some =>
    simp only [Option.bind_some]
    split
    · next h => simp [h]
    · next h => simp [h]

theorem eventOf_replayed (e : Published p) : p.eventOf (p.replayed e.event) = some e := by
  obtain ⟨event, cursor, has⟩ := e
  unfold Resume.eventOf Resume.replayed
  simp only
  split
  · next h =>
    rw [has] at h
    cases h
  · next _ h =>
    rw [has] at h
    cases h
    rfl

theorem filterMap_eq_nil_of_none {α : Type w} {msg : α → Message E} {xs : List α}
    (h : ∀ m ∈ xs.map msg, p.eventOf m = none) :
    xs.filterMap (fun x => p.eventOf (msg x)) = [] := by
  rw [filterMap_eq_nil_iff]
  exact fun x hx => h (msg x) (mem_map_of_mem hx)

end Calls

section Deliveries

variable [LinearOrder C]
variable {consumer : Consumer E} {published : List (Published p)} {start : C}

/-- What a stream has handed over. -/
structure Handed (published : List (Published p)) (start : C) (s : Source E C) : Prop where
  isPrefix : s.handed.filterMap p.eventOf <+: after published start
  upToCursor : s.isLive = true → s.handed.filterMap p.eventOf = upTo published start s.cursor
  start_le : start ≤ s.cursor
  reached : s.cursor = start ∨ ∃ x ∈ published, x.cursor = s.cursor

variable {s : Source E C}

theorem Handed.call {c : Call E} (h : Handed published start s)
    (hnone : ∀ m, c = .message m → p.eventOf m = none) :
    Handed published start (s.call consumer c).1 := by
  have hhanded : (s.call consumer c).1.handed.filterMap p.eventOf =
      s.handed.filterMap p.eventOf := by
    unfold Source.call
    cases c with
    | message m =>
      simp only
      split
      · rw [filterMap_append, filterMap_cons_none (hnone m rfl), filterMap_nil,
          append_nil]
      · rfl
    | opened => rfl
    | named => rfl
    | done => rfl
    | error => rfl
  constructor
  · rw [hhanded]
    exact h.isPrefix
  · intro hlive
    rw [hhanded, Source.call_cursor]
    exact h.upToCursor (Source.live_of_call hlive).1
  · exact h.start_le
  · exact h.reached

theorem Handed.call_event {m : Message E} {e : Published p}
    (h : Handed published start s) (hincreasing : Increasing published)
    (hevent : p.eventOf m = some e) (hmem : e ∈ published) (hlater : s.cursor < e.cursor)
    (hnext : s.isLive = true → upTo published start e.cursor =
      upTo published start s.cursor ++ [e]) :
    Handed published start ({ s with cursor := e.cursor }.call consumer (.message m)).1 := by
  have hlive : { s with cursor := e.cursor }.isLive = s.isLive := rfl
  cases hs : s.isLive with
  | false =>
    have hhanded : ({ s with cursor := e.cursor }.call consumer (.message m)).1.handed =
        s.handed := by
      unfold Source.call
      simp only [hlive, hs]
      rfl
    constructor
    · rw [hhanded]
      exact h.isPrefix
    · intro hstill
      have hs' := (Source.live_of_call hstill).1
      rw [hlive, hs] at hs'
      cases hs'
    · exact le_trans h.start_le (le_of_lt hlater)
    · exact Or.inr ⟨e, hmem, rfl⟩
  | true =>
    have hhanded : ({ s with cursor := e.cursor }.call consumer (.message m)).1.handed.filterMap
        p.eventOf = upTo published start e.cursor := by
      unfold Source.call
      simp only [hlive, hs, if_pos]
      rw [filterMap_append, filterMap_cons_some hevent, filterMap_nil,
        h.upToCursor hs, hnext hs]
    constructor
    · rw [hhanded]
      exact upTo_prefix hincreasing start e.cursor
    · exact fun _ => hhanded
    · exact le_trans h.start_le (le_of_lt hlater)
    · exact Or.inr ⟨e, hmem, rfl⟩

structure Delivers (s t : Source E C) : Prop where
  held : t.held = s.held
  cursor : s.cursor ≤ t.cursor
  live : t.isLive = true → s.isLive = true
  closed : s.readyState = .closed → t.readyState = .closed

theorem Delivers.refl (s : Source E C) : Delivers s s := ⟨rfl, le_refl _, id, id⟩

theorem Delivers.trans {s t r : Source E C} (h : Delivers s t) (h' : Delivers t r) : Delivers s r :=
  ⟨h'.held.trans h.held, le_trans h.cursor h'.cursor, fun hlive => h.live (h'.live hlive),
    fun hclosed => h'.closed (h.closed hclosed)⟩

theorem delivers_call (consumer : Consumer E) (s : Source E C) (c : Call E) :
    Delivers s (s.call consumer c).1 := by
  refine ⟨rfl, le_refl _, fun hlive => (Source.live_of_call hlive).1, ?_⟩
  intro hclosed
  unfold Source.call
  simp only [hclosed, ite_self]

theorem delivers_deliver (s : Source E C) (cursor : Option C) (m : Message E) :
    Delivers s (s.deliver consumer cursor m).1 := by
  unfold Source.deliver
  cases cursor with
  | none => exact delivers_call consumer s _
  | some c =>
    simp only
    split
    · exact Delivers.refl s
    · next hlater =>
      have hcursor : Delivers s { s with cursor := c } :=
        ⟨rfl, le_of_lt (lt_of_not_ge hlater), id, id⟩
      exact hcursor.trans (delivers_call consumer _ _)

/-- One delivery of an event that follows what is delivered. -/
theorem Handed.deliver {m : Message E} {e : Published p} {before behind : List (Published p)}
    (h : Handed published start s) (hincreasing : Increasing published)
    (hevent : p.eventOf m = some e) (hsplit : published = before ++ e :: behind)
    (hbefore : s.isLive = true → ∀ x ∈ before, x.cursor ≤ s.cursor) :
    Handed published start (s.deliver consumer (some e.cursor) m).1 ∧
      e.cursor ≤ (s.deliver consumer (some e.cursor) m).1.cursor := by
  unfold Source.deliver
  simp only
  split
  · next hle => exact ⟨h, hle⟩
  · next hlater =>
    have hlt := lt_of_not_ge hlater
    refine ⟨h.call_event hincreasing hevent ?_ hlt ?_, le_refl _⟩
    · rw [hsplit]
      exact mem_append_right before mem_cons_self
    · intro hlive
      rw [hsplit] at hincreasing ⊢
      exact upTo_next hincreasing (hbefore hlive) h.start_le hlt

/-- A call closes the stream, or throws on no message with another event behind it. -/
def SparesCall (p : Resume E C) (consumer : Consumer E) (told : List (Call E))
    (rest : List (Message E)) (later : Prop) : Prop :=
  (consumer told).closes = true ∨
    (((consumer told).throws = true → ∀ m ∈ rest, p.eventOf m = none) ∧ later)

/-- A consumer throws on no message of a loop that has another event behind it; where the loop
comes to its end, more may be asked of the cursor and of the calls. -/
def Spares (p : Resume E C) (consumer : Consumer E) (next : C → List (Call E) → Prop) :
    C → List (Call E) → List (Message E) → Prop
  | c, calls, [] => next c calls
  | c, calls, m :: rest =>
    match p.eventOf m with
    | none =>
      SparesCall p consumer (calls ++ [.message m]) rest
        (Spares p consumer next c (calls ++ [.message m]) rest)
    | some e =>
      if e.cursor ≤ c then
        Spares p consumer next c calls rest
      else
        SparesCall p consumer (calls ++ [.message m]) rest
          (Spares p consumer next e.cursor (calls ++ [.message m]) rest)

instance decidableSparesCall
    {told : List (Call E)} {rest : List (Message E)} {later : Prop} [Decidable later] :
    Decidable (SparesCall p consumer told rest later) :=
  have : ∀ m, Decidable (p.eventOf m = none) :=
    fun _ => decidable_of_iff _ Option.isNone_iff_eq_none
  inferInstanceAs (Decidable (_ ∨ _ ∧ _))

instance decidableSpares {next : C → List (Call E) → Prop} [∀ c calls, Decidable (next c calls)] :
    ∀ (c : C) (calls : List (Call E)) (ms : List (Message E)),
      Decidable (Spares p consumer next c calls ms)
  | c, calls, [] => inferInstanceAs (Decidable (next c calls))
  | c, calls, m :: rest =>
    have := fun d told => @decidableSpares next _ d told rest
    match hevent : p.eventOf m with
    | none =>
      decidable_of_iff (SparesCall p consumer (calls ++ [.message m]) rest
          (Spares p consumer next c (calls ++ [.message m]) rest))
        (by simp only [Spares, hevent])
    | some e =>
      if hle : e.cursor ≤ c then
        decidable_of_iff (Spares p consumer next c calls rest)
          (by simp only [Spares, hevent, if_pos hle])
      else
        decidable_of_iff (SparesCall p consumer (calls ++ [.message m]) rest
            (Spares p consumer next e.cursor (calls ++ [.message m]) rest))
          (by simp only [Spares, hevent, if_neg hle])

/-- What a loop of deliveries leaves: all it was to deliver is delivered, and where it came to its
end, what was asked of it holds. -/
structure LoopRan (published : List (Published p)) (start : C) (passed : List (Published p))
    (whole : Prop) (next : C → List (Call E) → Prop) (s : Source E C) (r : Source E C × Bool) :
    Prop where
  handed : Handed published start r.1
  delivers : Delivers s r.1
  passed_le : r.1.isLive = true → ∀ x ∈ passed, x.cursor ≤ r.1.cursor
  atEnd : r.1.isLive = true → r.2 = false ∨ whole → next r.1.cursor r.1.calls

variable {next : C → List (Call E) → Prop}

theorem LoopRan.after {passed : List (Published p)} {whole whole' : Prop}
    {s t : Source E C} {r : Source E C × Bool} (h : LoopRan published start passed whole next t r)
    (hdelivers : Delivers s t) (hwhole : whole' → whole) :
    LoopRan published start passed whole' next s r :=
  ⟨h.handed, hdelivers.trans h.delivers, h.passed_le,
    fun hlive hend => h.atEnd hlive (hend.imp_right hwhole)⟩

theorem Spares.call {s : Source E C} {m : Message E} {rest : List (Message E)}
    (hspares : SparesCall p consumer (s.calls ++ [.message m]) rest
      (Spares p consumer next s.cursor (s.calls ++ [.message m]) rest))
    (hlive : (s.call consumer (.message m)).1.isLive = true) :
    ((s.call consumer (.message m)).2 = true → ∀ m' ∈ rest, p.eventOf m' = none) ∧
      Spares p consumer next (s.call consumer (.message m)).1.cursor
        (s.call consumer (.message m)).1.calls rest := by
  rcases hspares with hcloses | hspares
  · have hopen := (Source.live_of_call hlive).2
    rw [hcloses] at hopen
    cases hopen
  · exact hspares

theorem LoopRan.thrown {α : Type w} {msg : α → Message E} {xs : List α} {x : α}
    {passed : List (Published p)} {s : Source E C}
    {r : Source E C × Bool} (hhanded : Handed published start r.1) (hdelivers : Delivers s r.1)
    (hthrew : r.2 = true) (hpassed : r.1.isLive = true → ∀ e ∈ passed, e.cursor ≤ r.1.cursor)
    (hrest : r.1.isLive = true → (∀ m ∈ xs.map msg, p.eventOf m = none) ∧
      Spares p consumer next r.1.cursor r.1.calls (xs.map msg)) :
    LoopRan published start (passed ++ xs.filterMap (fun x => p.eventOf (msg x)))
      (∀ y ∈ x :: xs, p.eventOf (msg y) ≠ none) next s r := by
  refine ⟨hhanded, hdelivers, ?_, ?_⟩
  · intro hlive
    rw [filterMap_eq_nil_of_none (hrest hlive).1, append_nil]
    exact hpassed hlive
  · intro hlive hend
    obtain ⟨hnone, hspares⟩ := hrest hlive
    rcases hend with hnot | hwhole
    · rw [hthrew] at hnot
      cases hnot
    · cases xs with
      | nil => exact hspares
      | cons y =>
        exact absurd (hnone (msg y) mem_cons_self) (hwhole y (mem_cons_of_mem x mem_cons_self))

/-- What a loop of deliveries preserves. -/
theorem Handed.eachOf {α : Type w} (f : Source E C → α → Source E C × Bool) (msg : α → Message E)
    (next : C → List (Call E) → Prop)
    (hf : ∀ s x, f s x = s.deliver consumer ((p.eventOf (msg x)).map (·.cursor)) (msg x))
    (hincreasing : Increasing published) :
    ∀ (xs : List α) {s : Source E C} {before behind : List (Published p)},
      Handed published start s →
      published = before ++ xs.filterMap (fun x => p.eventOf (msg x)) ++ behind →
      (s.isLive = true → (∀ x ∈ before, x.cursor ≤ s.cursor) ∧
        Spares p consumer next s.cursor s.calls (xs.map msg)) →
      LoopRan published start (before ++ xs.filterMap (fun x => p.eventOf (msg x)))
        (∀ x ∈ xs, p.eventOf (msg x) ≠ none) next s (s.eachOf f xs)
  | [], s, before, _, h, _, hs => by
    refine ⟨h, Delivers.refl s, ?_, fun hlive _ => (hs hlive).2⟩
    simpa [Source.eachOf] using fun hlive => (hs hlive).1
  | x :: xs, s, before, behind, h, hsplit, hs => by
    have hwhole : (∀ y ∈ x :: xs, p.eventOf (msg y) ≠ none) → ∀ y ∈ xs, p.eventOf (msg y) ≠ none :=
      fun hall y hy => hall y (mem_cons_of_mem x hy)
    have hdelivers : Delivers s (f s x).1 := by
      rw [hf]
      exact delivers_deliver s _ (msg x)
    cases hevent : p.eventOf (msg x) with
    | none =>
      rw [filterMap_cons_none (f := fun x => p.eventOf (msg x)) (l := xs) hevent] at hsplit ⊢
      have hcall : f s x = s.call consumer (.message (msg x)) := by
        rw [hf, hevent]
        rfl
      have hhanded : Handed published start (f s x).1 := by
        rw [hcall]
        refine h.call ?_
        rintro m ⟨⟩
        exact hevent
      have hrest : (f s x).1.isLive = true → (∀ e ∈ before, e.cursor ≤ (f s x).1.cursor) ∧
          ((f s x).2 = true → ∀ m ∈ xs.map msg, p.eventOf m = none) ∧
          Spares p consumer next (f s x).1.cursor (f s x).1.calls (xs.map msg) := by
        rw [hcall]
        intro hlive
        obtain ⟨hbefore, hspares⟩ := hs (Source.live_of_call hlive).1
        simp only [map_cons, Spares, hevent] at hspares
        exact ⟨hbefore, Spares.call hspares hlive⟩
      unfold Source.eachOf
      split
      · next hthrew =>
        exact LoopRan.thrown hhanded hdelivers hthrew (fun hlive => (hrest hlive).1)
          (fun hlive => ⟨(hrest hlive).2.1 hthrew, (hrest hlive).2.2⟩)
      · exact (Handed.eachOf f msg next hf hincreasing xs hhanded hsplit
          (fun hlive => ⟨(hrest hlive).1, (hrest hlive).2.2⟩)).after hdelivers hwhole
    | some e =>
      rw [filterMap_cons_some (f := fun x => p.eventOf (msg x)) (l := xs) hevent] at hsplit ⊢
      have hsplit' : published = before ++ e ::
          (xs.filterMap (fun x => p.eventOf (msg x)) ++ behind) := by
        rw [hsplit]
        simp
      have hnext : published = (before ++ [e]) ++
          xs.filterMap (fun x => p.eventOf (msg x)) ++ behind := by
        rw [hsplit]
        simp
      have hfs : f s x = s.deliver consumer (some e.cursor) (msg x) := by
        rw [hf, hevent]
        rfl
      obtain ⟨hhanded, hreached⟩ := h.deliver hincreasing hevent hsplit' (fun hlive => (hs hlive).1)
      rw [← hfs] at hhanded hreached
      have hrest : (f s x).1.isLive = true → (∀ d ∈ before ++ [e], d.cursor ≤ (f s x).1.cursor) ∧
          ((f s x).2 = true → ∀ m ∈ xs.map msg, p.eventOf m = none) ∧
          Spares p consumer next (f s x).1.cursor (f s x).1.calls (xs.map msg) := by
        intro hlive
        obtain ⟨hbefore, hspares⟩ := hs (hdelivers.live hlive)
        refine ⟨?_, ?_⟩
        · intro d hd
          rcases mem_append.mp hd with hd | hd
          · exact le_trans (hbefore d hd) hdelivers.cursor
          · rw [mem_singleton.mp hd]
            exact hreached
        · simp only [map_cons, Spares, hevent] at hspares
          rw [hfs] at hlive ⊢
          unfold Source.deliver at hlive ⊢
          simp only at hlive ⊢
          split at hspares
          · next hle =>
            rw [if_pos hle] at hlive ⊢
            exact ⟨nofun, hspares⟩
          · next hlater =>
            rw [if_neg hlater] at hlive ⊢
            exact Spares.call hspares hlive
      have happend : before ++ e :: xs.filterMap (fun x => p.eventOf (msg x)) =
          (before ++ [e]) ++ xs.filterMap (fun x => p.eventOf (msg x)) := by
        simp
      rw [happend]
      unfold Source.eachOf
      split
      · next hthrew =>
        exact LoopRan.thrown hhanded hdelivers hthrew (fun hlive => (hrest hlive).1)
          (fun hlive => ⟨(hrest hlive).2.1 hthrew, (hrest hlive).2.2⟩)
      · exact (Handed.eachOf f msg next hf hincreasing xs hhanded hnext
          (fun hlive => ⟨(hrest hlive).1, (hrest hlive).2.2⟩)).after hdelivers hwhole

end Deliveries

end EventStream
end StudioWeb
