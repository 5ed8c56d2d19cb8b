import StudioWeb.EventStream.ReplayOrder

/-!
# What the source does between two waits

An answer is handled in one go: what it answers is delivered, then what was held, and then live
frames are delivered again.  `InOrder` is what that asks of the answer and of the consumer.
-/

namespace StudioWeb
namespace EventStream

open List Source

universe u v

variable {E : Type u} {C : Type v} {p : Resume E C}

theorem cursorOf_eq (event : E) :
    p.cursorOf event = (p.eventOf (p.replayed event)).map (·.cursor) := by
  unfold Resume.eventOf Resume.replayed
  simp only
  split
  · next h => simp [h]
  · next h => simp [h]

def eventsOf (p : Resume E C) (payloads : List (List Char)) : List (Published p) :=
  payloads.filterMap (fun raw => p.eventOf (p.live raw))

/-- The frames that are held were written after the connection was opened. -/
def HeldFrom (published : List (Published p)) (opened : Nat) (s : Source E C) : Prop :=
  ∀ payloads, s.held = some payloads →
    ∃ behind, published.drop opened = eventsOf p payloads ++ behind

theorem HeldFrom.of_delivers {published : List (Published p)} {opened : Nat} {s t : Source E C}
    (h : HeldFrom published opened s) (hheld : t.held = s.held) : HeldFrom published opened t := by
  intro payloads hpayloads
  rw [hheld] at hpayloads
  exact h payloads hpayloads

theorem HeldFrom.publish
    {published : List (Published p)} {opened : Nat} {s : Source E C} {e : Published p}
    (h : HeldFrom published opened s) (hopened : opened ≤ published.length) :
    HeldFrom (published ++ [e]) opened s := by
  intro payloads hpayloads
  obtain ⟨behind, hbehind⟩ := h payloads hpayloads
  refine ⟨behind ++ [e], ?_⟩
  rw [drop_append_of_le_length hopened, hbehind, append_assoc]

variable [LinearOrder C]
variable {consumer : Consumer E} {published : List (Published p)} {start : C}

section Settling

theorem Handed.of_same {s t : Source E C} (h : Handed published start s)
    (hhanded : t.handed = s.handed) (hcursor : t.cursor = s.cursor)
    (hlive : t.isLive = true → s.isLive = true) : Handed published start t := by
  constructor
  · rw [hhanded]
    exact h.isPrefix
  · intro hstill
    rw [hhanded, hcursor]
    exact h.upToCursor (hlive hstill)
  · rw [hcursor]
    exact h.start_le
  · rw [hcursor]
    exact h.reached

theorem gap_events (after_ : C) (count : Nat) :
    (gap published after_ count).filterMap (fun event => p.eventOf (p.replayed event)) =
      after (published.take count) after_ := by
  unfold gap after
  rw [filterMap_map]
  have hsome : ∀ e : Published p,
      ((fun event => p.eventOf (p.replayed event)) ∘ (fun e : Published p => e.event)) e = some e :=
    eventOf_replayed
  rw [funext hsome]
  exact filterMap_some

variable {s : Source E C}

theorem end_spec (h : Handed published start s) :
    Handed published start (s.end_ consumer).1 ∧ Delivers s (s.end_ consumer).1 ∧
      (s.end_ consumer).1.isLive = false := by
  have hnot : ∀ m : Message E, (.done : Call E) = .message m → p.eventOf m = none := nofun
  have hended : Handed published start { s with ended := true } :=
    h.of_same rfl rfl (by simp [isLive])
  have hdelivers : Delivers s { s with ended := true } := ⟨rfl, le_refl _, by simp [isLive], id⟩
  have hcalled : Delivers s ({ s with ended := true }.call consumer .done).1 :=
    hdelivers.trans (delivers_call consumer _ _)
  have htold : Handed published start ({ s with ended := true }.call consumer .done).1 :=
    hended.call hnot
  have hdead : ∀ t : Source E C, t.ended = true → t.isLive = false := by
    intro t ht
    simp [isLive, ht]
  unfold end_
  split
  · next hclosed => exact ⟨h, Delivers.refl s, by simp [isLive, hclosed]⟩
  · simp only
    split
    · exact ⟨htold, hcalled, hdead _ rfl⟩
    · exact ⟨htold.of_same rfl rfl (by simp [isLive]),
        ⟨hcalled.held, hcalled.cursor, by simp [isLive], fun _ => rfl⟩, hdead _ rfl⟩

/-- What handling the answer to a replay guarantees. -/
structure Settles (published : List (Published p)) (start : C) (opened : Nat) (s t : Source E C) :
    Prop where
  handed : Handed published start t
  unheld : t.held = none
  cursor : s.cursor ≤ t.cursor
  live : t.isLive = true → s.isLive = true
  closed : s.readyState = .closed → t.readyState = .closed
  reached : t.isLive = true → ∀ payloads, s.held = some payloads →
    ∀ x ∈ published.take opened ++ eventsOf p payloads, x.cursor ≤ t.cursor

/-- What is asked of an answer: it reaches the opening of the connection whose frames are held,
and the consumer throws on nothing it hands over with another event behind. -/
def InOrder (consumer : Consumer E) (published : List (Published p)) (opened : Nat)
    (s : Source E C) (after_ : C) (count : Nat) : Prop :=
  (s.held = none ∨ opened ≤ count) ∧ Spares p consumer
      (fun c calls => Spares p consumer (fun _ _ => True) c calls ((s.held.getD []).map p.live))
      s.cursor s.calls ((gap published after_ count).map p.replayed)

theorem settle_spec {opened count : Nat} {after_ : C}
    (hincreasing : Increasing published) (h : Handed published start s) (hafter : after_ ≤ s.cursor)
    (hheld : HeldFrom published opened s)
    (horder : s.isLive = true → InOrder consumer published opened s after_ count) :
    Settles published start opened s
      (s.settle p consumer (some (gap published after_ count))).1 := by
  have htake : Increasing (published.take count) := List.Pairwise.take hincreasing
  obtain ⟨before, hcut, hbefore⟩ := cut_at_cursor htake after_
  have hsplit : published = before ++
      (gap published after_ count).filterMap (fun event => p.eventOf (p.replayed event)) ++
        published.drop count := by
    rw [gap_events, ← hcut, take_append_drop]
  have hreplayed := Handed.eachOf (deliverParsed p consumer) p.replayed
    (fun c calls => Spares p consumer (fun _ _ => True) c calls ((s.held.getD []).map p.live))
    (fun s event => by rw [deliverParsed, cursorOf_eq]) hincreasing
    (gap published after_ count) h hsplit
    (fun hlive => ⟨fun x hx => le_trans (hbefore x hx) hafter, (horder hlive).2⟩)
  rw [gap_events, ← hcut] at hreplayed
  obtain ⟨t, ht⟩ : ∃ t, t = (s.eachOf (deliverParsed p consumer)
    (gap published after_ count)).1 := ⟨_, rfl⟩
  have hwhole : ∀ event ∈ gap published after_ count, p.eventOf (p.replayed event) ≠ none := by
    intro event hevent
    obtain ⟨e, _, rfl⟩ := mem_map.mp hevent
    rw [eventOf_replayed]
    exact Option.some_ne_none e
  -- the held frames come behind what the connection was opened with
  have hqueue : ∃ passed behind, published = passed ++ eventsOf p (t.held.getD []) ++ behind ∧
      (t.isLive = true → (∀ x ∈ passed, x.cursor ≤ t.cursor) ∧
        Spares p consumer (fun _ _ => True) t.cursor t.calls ((t.held.getD []).map p.live)) ∧
      ∀ payloads, s.held = some payloads → passed ++ eventsOf p (t.held.getD []) =
          published.take opened ++ eventsOf p payloads := by
    rw [ht, hreplayed.delivers.held]
    cases hs : s.held with
    | none =>
      refine ⟨[], published, rfl, fun hlive => ⟨nofun, ?_⟩, nofun⟩
      have hnext := hreplayed.atEnd hlive (Or.inr hwhole)
      rw [hs] at hnext
      exact hnext
    | some payloads =>
      obtain ⟨behind, hbehind⟩ := hheld payloads hs
      refine ⟨published.take opened, behind, ?_, fun hlive => ⟨?_, ?_⟩, ?_⟩
      · rw [Option.getD_some, append_assoc, ← hbehind, take_append_drop]
      · intro x hx
        have hreaches : opened ≤ count := by
          rcases (horder (hreplayed.delivers.live hlive)).1 with hnone | hle
          · rw [hs] at hnone
            cases hnone
          · exact hle
        exact hreplayed.passed_le hlive x (take_subset_take_left published hreaches hx)
      · have hnext := hreplayed.atEnd hlive (Or.inr hwhole)
        rw [hs] at hnext
        exact hnext
      · rintro _ ⟨⟩
        rfl
  obtain ⟨passed, behind, hpassed, hspares, hopened⟩ := hqueue
  have hunheld : Handed published start { t with held := none } := by
    rw [ht]
    exact hreplayed.handed.of_same rfl rfl id
  have hflushed := Handed.eachOf (deliverMessage p consumer) p.live (fun _ _ => True)
    (fun s raw => by rw [deliverMessage, cursorOfRaw_eq]) hincreasing
    (t.held.getD []) hunheld hpassed hspares
  have hresult : (s.settle p consumer (some (gap published after_ count))).1 =
      ({ t with held := none }.eachOf (deliverMessage p consumer) (t.held.getD [])).1 := by
    unfold settle
    rw [ht]
    simp
  have hdelivers : Delivers s t := by
    rw [ht]
    exact hreplayed.delivers
  rw [hresult]
  exact
    { handed := hflushed.handed
      unheld := hflushed.delivers.held
      cursor := le_trans hdelivers.cursor hflushed.delivers.cursor
      live := fun hlive => hdelivers.live (hflushed.delivers.live hlive)
      closed := fun hclosed => hflushed.delivers.closed (hdelivers.closed hclosed)
      reached := by
        intro hlive payloads hpayloads x hx
        have hall := hflushed.passed_le hlive x
        rw [← hopened payloads hpayloads] at hx
        exact hall hx }

/-- Handling an answer that could not be had ends a stream that was given a cursor. -/
theorem settle_refused {opened : Nat} (hfrom : p.fromCursor = some start)
    (h : Handed published start s) :
    Settles published start opened s (s.settle p consumer none).1 := by
  have hunheld : Handed published start { s with held := none } := h.of_same rfl rfl id
  obtain ⟨hhanded, hdelivers, hdead⟩ := @end_spec _ _ _ _ consumer _ _ _ hunheld
  have hresult : (s.settle p consumer none).1 = ({ s with held := none }.end_ consumer).1 := by
    unfold settle
    simp [hfrom, eachOf]
  rw [hresult]
  exact
    { handed := hhanded
      unheld := hdelivers.held
      cursor := hdelivers.cursor
      live := hdelivers.live
      closed := hdelivers.closed
      reached := by
        intro hlive
        rw [hdead] at hlive
        cases hlive }

end Settling

section Frames

/-- The frames of a connection follow what is held, or what is delivered. -/
structure Follows (published : List (Published p)) (opened : Nat) (s : Source E C)
    (events : List (Published p)) : Prop where
  held : ∀ payloads, s.held = some payloads → published.drop opened = eventsOf p payloads ++ events
  unheld : s.held = none → ∃ before, published = before ++ events ∧
    (s.isLive = true → ∀ x ∈ before, x.cursor ≤ s.cursor)

/-- What reading frames guarantees. -/
structure Reads (published : List (Published p)) (start : C) (opened : Nat)
    (events : List (Published p)) (s : Source E C) (r : Source E C × Bool) : Prop where
  handed : Handed published start r.1
  held : HeldFrom published opened r.1
  cursor : s.cursor ≤ r.1.cursor
  live : r.1.isLive = true → s.isLive = true
  closed : s.readyState = .closed → r.1.readyState = .closed
  follows : r.2 = false → r.1.readyState ≠ .closed → Follows published opened r.1 events

variable {opened : Nat}

theorem Follows.of_delivers {s t : Source E C} {events : List (Published p)}
    (h : Follows published opened s events) (hdelivers : Delivers s t) :
    Follows published opened t events := by
  constructor
  · intro payloads hpayloads
    rw [hdelivers.held] at hpayloads
    exact h.held payloads hpayloads
  · intro hnone
    rw [hdelivers.held] at hnone
    obtain ⟨before, hsplit, hbefore⟩ := h.unheld hnone
    exact ⟨before, hsplit, fun hlive x hx =>
      le_trans (hbefore (hdelivers.live hlive) x hx) hdelivers.cursor⟩

theorem handleFrame_spec {s : Source E C} {frame : List Char} {events : List (Published p)}
    (hincreasing : Increasing published) (h : Handed published start s)
    (hheld : HeldFrom published opened s)
    (hfollows : s.readyState ≠ .closed →
      Follows published opened s ((p.frameEvent frame).toList ++ events)) :
    Reads published start opened events s (s.handleFrame p consumer frame) := by
  unfold handleFrame
  split
  · next hclosed =>
    exact ⟨h, hheld, le_refl _, id, id, fun _ hopen => absurd hclosed hopen⟩
  · next hopen =>
    have hfollows := hfollows hopen
    unfold Resume.frameEvent at hfollows
    split
    · next hframe =>
      rw [hframe] at hfollows
      exact ⟨h, hheld, le_refl _, id, id, fun _ _ => hfollows⟩
    · next eventName payload hframe =>
      rw [hframe] at hfollows
      have hdelivers := delivers_call consumer s (.named eventName payload)
      exact ⟨h.call nofun, hheld.of_delivers hdelivers.held, hdelivers.cursor, hdelivers.live,
        hdelivers.closed, fun _ _ => hfollows.of_delivers hdelivers⟩
    · next payload hframe =>
      rw [hframe] at hfollows
      simp only at hfollows
      split
      · next queue hqueue =>
        have hsplit := hfollows.held queue hqueue
        have hqueued : eventsOf p (queue ++ [payload]) =
            eventsOf p queue ++ (p.eventOf (p.live payload)).toList := by
          unfold eventsOf
          rw [filterMap_append]
          cases hevent : p.eventOf (p.live payload) with
          | none => simp [hevent]
          | some => simp [hevent]
        have hmore : published.drop opened = eventsOf p (queue ++ [payload]) ++ events := by
          rw [hqueued, hsplit, append_assoc]
        refine ⟨h.of_same rfl rfl id, ?_, le_refl _, id, id, fun _ _ => ⟨?_, nofun⟩⟩
        · rintro _ ⟨⟩
          exact ⟨events, hmore⟩
        · rintro _ ⟨⟩
          exact hmore
      · next hnone =>
        have hdelivers : Delivers s (s.deliverMessage p consumer payload).1 :=
          delivers_deliver s _ _
        obtain ⟨before, hsplit, hbefore⟩ := hfollows.unheld hnone
        have hstill := hheld.of_delivers hdelivers.held
        unfold deliverMessage at hdelivers hstill ⊢
        rw [cursorOfRaw_eq] at hdelivers hstill ⊢
        cases hevent : p.eventOf (p.live payload) with
        | none =>
          rw [hevent] at hfollows hdelivers hstill
          exact ⟨h.call (by rintro m ⟨⟩; exact hevent), hstill, hdelivers.cursor,
            hdelivers.live, hdelivers.closed, fun _ _ => hfollows.of_delivers hdelivers⟩
        | some e =>
          rw [hevent] at hsplit hdelivers hstill
          obtain ⟨hhanded, hreached⟩ :=
            @Handed.deliver _ _ _ _ consumer _ _ _ _ _ _ _ h hincreasing hevent hsplit hbefore
          refine ⟨hhanded, hstill, hdelivers.cursor, hdelivers.live, hdelivers.closed,
            fun _ _ => ⟨?_, fun _ => ⟨before ++ [e], ?_, ?_⟩⟩⟩
          · intro payloads hpayloads
            rw [hdelivers.held, hnone] at hpayloads
            cases hpayloads
          · rw [hsplit]
            simp
          · intro hlive x hx
            rcases mem_append.mp hx with hx | hx
            · exact le_trans (hbefore (hdelivers.live hlive) x hx) hdelivers.cursor
            · rw [mem_singleton.mp hx]
              exact hreached

theorem readFrames_spec (hincreasing : Increasing published) :
    ∀ (frames : List (List Char)) {s : Source E C} {events : List (Published p)},
      Handed published start s →
      HeldFrom published opened s →
      (s.readyState ≠ .closed →
        Follows published opened s (frames.filterMap p.frameEvent ++ events)) →
      Reads published start opened events s (readFrames p consumer s frames)
  | [], s, events, h, hheld, hfollows =>
    ⟨h, hheld, le_refl _, id, id, fun _ hopen => hfollows hopen⟩
  | frame :: frames, s, events, h, hheld, hfollows => by
    have hsplit : (frame :: frames).filterMap p.frameEvent ++ events =
        (p.frameEvent frame).toList ++ (frames.filterMap p.frameEvent ++ events) := by
      cases hevent : p.frameEvent frame with
      | none => simp [hevent]
      | some => simp [hevent]
    rw [hsplit] at hfollows
    have hone := @handleFrame_spec _ _ _ _ consumer _ _ _ _ _ _ hincreasing h hheld hfollows
    unfold readFrames
    split
    · next hthrew =>
      refine ⟨hone.handed, hone.held, hone.cursor, hone.live, hone.closed, ?_⟩
      intro hnot
      rw [hthrew] at hnot
      cases hnot
    · next hfine =>
      have hfine : (s.handleFrame p consumer frame).2 = false := by
        simpa using hfine
      have hrest := readFrames_spec hincreasing frames hone.handed hone.held (hone.follows hfine)
      exact ⟨hrest.handed, hrest.held, le_trans hone.cursor hrest.cursor,
        fun hlive => hone.live (hrest.live hlive),
        fun hclosed => hrest.closed (hone.closed hclosed), hrest.follows⟩

end Frames

end EventStream
end StudioWeb
