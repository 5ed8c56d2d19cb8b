import StudioWeb.StudioEvents.EventDelivery

/-!
# Every event is delivered once
-/

namespace StudioWeb
namespace StudioEvents

open LabelledRuns List Function MarkedLog

universe u

variable {ε : Type u}

namespace EventsWorld

/-- The channel of a replica has yet to read a number. -/
def StillAhead (w : EventsWorld ε) (replica seq : Nat) : Prop :=
  ∀ mark, (w.replicas replica).channel = some (some mark) → mark < seq

section Once

variable [DecidableEq ε]

/-- An event that was complete after a stream was opened is in it once; or it is not yet,
and was pruned, or is still ahead. -/
def StreamsOnce (w : EventsWorld ε) : Prop :=
  ∀ s stream, w.streams s = some stream → ∀ c ∈ w.completed, stream.openedAt < c.moment →
    stream.received.count c.row = 1 ∨ (stream.received.count c.row = 0 ∧
        (c.row ∉ w.log ∨ w.StillAhead stream.replica c.row.seq))

/-- An event that is complete was given to a client once; or not yet, and was pruned, or is
above what the client has seen. -/
def ClientsOnce (w : EventsWorld ε) : Prop :=
  ∀ n, ∀ c ∈ w.completed, (w.clients n).given.count c.row = 1 ∨
      ((w.clients n).given.count c.row = 0 ∧ (c.row ∉ w.log ∨ (w.clients n).highest < c.row.seq))

/-- The poller of a replica, running alone, brings its streams everything that is due. -/
def PollsDeliver (backlog : Nat) (w : EventsWorld ε) (replica : Nat) : Prop :=
  ∃ actions t, (∀ a ∈ actions, a = .watermarks replica ∨ a = .runsPoller replica) ∧
      runActions (EventsWorld.step backlog) w actions = some t ∧
      ∀ s stream, w.streams s = some stream → stream.replica = replica →
        ∃ later, t.streams s = some later ∧
          ∀ c ∈ w.completed, stream.openedAt < c.moment → c.row ∈ w.log →
            later.received.count c.row = 1

def AsksGive (backlog : Nat) (w : EventsWorld ε) (client : Nat) : Prop :=
  ∃ n t, runActions (EventsWorld.step backlog) w (List.replicate n (.asks client none)) = some t ∧
      ∀ c ∈ w.completed, c.row ∈ w.log → (t.clients client).given.count c.row = 1

end Once

section Progress

variable
  {backlog : Nat}
  {w t : EventsWorld ε}
  {due : Completed ε → Prop}
  {replica client mark : Nat}
  {got extra page : List (LogRow ε)}
  {stream : EventStream ε}
  {last : LogRow ε}

structure AllAbove (log : List (LogRow ε)) (mark : Nat) (extra : List (LogRow ε)) : Prop where
  sorted : extra.Pairwise fun x y => x.seq < y.seq
  above : ∀ row ∈ extra, mark < row.seq
  all : ∀ row ∈ log, mark < row.seq → row ∈ extra

theorem allAbove_nil (hnone : w.after mark (eventsLimit none) = [] ∨ w.after mark POLL_PAGE = []) :
    AllAbove w.log mark [] := by
  refine ⟨List.Pairwise.nil, by simp, ?_⟩
  intro row hrow habove
  rcases hnone with hnone | hnone
  · exact absurd hnone (pageAbove_ne_nil (by decide) hrow habove)
  · exact absurd hnone (pageAbove_ne_nil (by decide) hrow habove)

theorem nodup_of_sorted (h : got.Pairwise fun x y => x.seq < y.seq) : got.Nodup := by
  refine h.imp ?_
  rintro x y hless rfl
  omega

theorem AllAbove.append {limit : Nat} (hdistinct : (w.log.map LogRow.seq).Nodup)
    (hlast : (w.after mark limit).getLast? = some last) (h : AllAbove w.log last.seq extra) :
    AllAbove w.log mark (w.after mark limit ++ extra) := by
  have hmem := mem_of_getLast? hlast
  have hsorted : (w.after mark limit).Pairwise fun x y => x.seq < y.seq :=
    pairwise_pageAbove hdistinct
  have hmark := (mem_pageAbove hmem).2
  refine ⟨?_, ?_, ?_⟩
  · refine pairwise_append.mpr ⟨hsorted, h.sorted, ?_⟩
    intro x hx y hy
    exact lt_of_le_of_lt (seq_le_getLast hsorted hlast hx) (h.above y hy)
  · intro row hrow
    rcases mem_append.mp hrow with hpage | hextra
    · exact (mem_pageAbove hpage).2
    · exact hmark.trans (h.above row hextra)
  · intro row hrow habove
    by_cases hle : row.seq ≤ last.seq
    · exact mem_append_left _ (mem_pageAbove_of_le hdistinct hmem hrow habove hle)
    · exact mem_append_right _ (h.all row hrow (by omega))

theorem ahead_getLast {limit : Nat} (hlast : (w.after mark limit).getLast? = some last) :
    ahead LogRow.seq w.log last.seq < ahead LogRow.seq w.log mark := by
  obtain ⟨hlog, hmark⟩ := mem_pageAbove (mem_of_getLast? hlast)
  exact ahead_lt hlog hmark le_rfl

theorem replicas_setPoller (w : EventsWorld ε) (replica : Nat) (pc : PollerPc ε) :
    ((w.setPoller replica pc).tick.replicas replica) = ⟨(w.replicas replica).channel, pc⟩ := by
  simp only [tick, setPoller, setReplica, update_self]

theorem step_watermarks (hreplica : w.replicas replica = ⟨some (some mark), .idle⟩) :
    w.step backlog (.watermarks replica) =
      some (w.setPoller replica (.polling (some mark))).tick := by
  simp only [step, takes, hreplica]
  rfl

theorem step_polling (hreplica : w.replicas replica = ⟨some (some mark), .polling (some mark)⟩)
    (hlast : (w.after mark POLL_PAGE).getLast? = some last) :
    w.step backlog (.runsPoller replica) =
      some (w.setPoller replica (.delivering (w.after mark POLL_PAGE))).tick := by
  have hnonempty : (w.after mark POLL_PAGE).isEmpty = false := by
    cases hpage : w.after mark POLL_PAGE with
    | nil =>
      rw [hpage] at hlast
      cases hlast
    | cons => rfl
  simp only [step, takes, runsPoller, hreplica, hnonempty]
  rfl

theorem step_delivering (hreplica : w.replicas replica = ⟨some (some mark), .delivering page⟩)
    (hlast : page.getLast? = some last) :
    w.step backlog (.runsPoller replica) =
      some ((w.setReplica replica ⟨some (some last.seq), .idle⟩).send replica page).tick := by
  simp only [step, takes, runsPoller, hreplica, deliver, hlast]
  rfl

theorem poll_round (hreplica : w.replicas replica = ⟨some (some mark), .idle⟩)
    (hlast : (w.after mark POLL_PAGE).getLast? = some last) :
    ∃ t, runActions (EventsWorld.step backlog) w
        [.watermarks replica, .runsPoller replica, .runsPoller replica] = some t ∧
      t.replicas replica = ⟨some (some last.seq), .idle⟩ ∧
      t.log = w.log ∧
      ∀ s stream, w.streams s = some stream → stream.replica = replica → t.streams s =
          some { stream with received := stream.received ++ w.after mark POLL_PAGE } := by
  have hpolling := replicas_setPoller w replica (.polling (some mark))
  rw [hreplica] at hpolling
  have hdelivering := replicas_setPoller (w.setPoller replica (.polling (some mark))).tick replica
    (.delivering (w.after mark POLL_PAGE))
  rw [hpolling] at hdelivering
  refine ⟨_, runActions_cons_iff.mpr ⟨_, step_watermarks hreplica,
    runActions_cons_iff.mpr ⟨_, step_polling hpolling hlast,
      runActions_cons_iff.mpr ⟨_, step_delivering hdelivering hlast, rfl⟩⟩⟩, ?_, rfl, ?_⟩
  · simp only [tick, send, setReplica, update_self]
  · intro s stream hstream hon
    simp only [tick, send, setReplica, setPoller, hstream, Option.map_some, hon, if_true]

theorem poll_rounds :
    ∀ (n : Nat) (w : EventsWorld ε) (mark : Nat), ahead LogRow.seq w.log mark < n →
      (w.log.map LogRow.seq).Nodup →
      w.replicas replica = ⟨some (some mark), .idle⟩ →
      ∃ actions t extra, (∀ a ∈ actions, a = .watermarks replica ∨ a = .runsPoller replica) ∧
          runActions (EventsWorld.step backlog) w actions = some t ∧
          AllAbove w.log mark extra ∧
          ∀ s stream, w.streams s = some stream → stream.replica = replica →
            t.streams s = some { stream with received := stream.received ++ extra } := by
  intro n
  induction n with
  | zero =>
    intro w mark hless
    omega
  | succ _ ih =>
    intro w mark hless hdistinct hreplica
    cases hlast : (w.after mark POLL_PAGE).getLast? with
    | none =>
      have hnone := getLast?_eq_none_iff.mp hlast
      refine ⟨[], w, [], by simp, rfl, allAbove_nil (.inr hnone), ?_⟩
      intro s stream hstream _
      rw [append_nil, hstream]
    | some last =>
      obtain ⟨p, hround, hp, hlog, hsent⟩ := @poll_round ε backlog _ _ _ _ hreplica hlast
      have hfewer := ahead_getLast hlast
      obtain ⟨actions, t, extra, hactions, hrun, habove, hstreams⟩ :=
        ih p last.seq (by rw [hlog]; omega) (by rw [hlog]; exact hdistinct) hp
      rw [hlog] at habove
      refine ⟨[.watermarks replica, .runsPoller replica, .runsPoller replica] ++ actions, t,
        w.after mark POLL_PAGE ++ extra, ?_, runActions_append_iff.mpr ⟨p, hround, hrun⟩,
        habove.append hdistinct hlast, ?_⟩
      · intro a ha
        rcases mem_append.mp ha with hhere | hlater
        · simp only [mem_cons, not_mem_nil, or_false] at hhere
          rcases hhere with rfl | rfl | rfl
          · exact .inl rfl
          · exact .inr rfl
          · exact .inr rfl
        · exact hactions a hlater
      · intro s stream hstream hon
        have hthen := hstreams s _ (hsent s stream hstream hon) hon
        rw [hthen, append_assoc]

theorem ask_rounds :
    ∀ (n : Nat) (w : EventsWorld ε),
      ahead LogRow.seq w.log (w.clients client).highest < n →
      (w.log.map LogRow.seq).Nodup →
      ∃ k t extra,
        runActions (EventsWorld.step backlog) w (List.replicate k (.asks client none)) = some t ∧
          AllAbove w.log (w.clients client).highest extra ∧
          (t.clients client).given = (w.clients client).given ++ extra := by
  intro n
  induction n with
  | zero =>
    intro w hless
    omega
  | succ _ ih =>
    intro w hless hdistinct
    cases hlast : (w.after (w.clients client).highest (eventsLimit none)).getLast? with
    | none =>
      have hnone := getLast?_eq_none_iff.mp hlast
      exact ⟨0, w, [], rfl, allAbove_nil (.inl hnone), (append_nil _).symm⟩
    | some last =>
      have hstep : w.step backlog (.asks client none) = some (w.setClient client
          ⟨last.seq, (w.clients client).given ++
            w.after (w.clients client).highest (eventsLimit none)⟩).tick := by
        simp only [step, takes, asks, hlast]
        rfl
      have hfewer := ahead_getLast hlast
      obtain ⟨k, t, extra, hrun, habove, hgiven⟩ :=
        ih (w.setClient client ⟨last.seq, (w.clients client).given ++
          w.after (w.clients client).highest (eventsLimit none)⟩).tick
          (by simp only [tick, setClient, update_self]; omega) hdistinct
      simp only [tick, setClient, update_self] at habove hgiven
      refine ⟨k + 1, t, w.after (w.clients client).highest (eventsLimit none) ++ extra,
        runActions_cons_iff.mpr ⟨_, hstep, hrun⟩, habove.append hdistinct hlast, ?_⟩
      rw [hgiven, append_assoc]

end Progress

section Delivery

variable [DecidableEq ε]

variable
  {backlog : Nat}
  {w : EventsWorld ε}
  {due : Completed ε → Prop}
  {mark : Nat}
  {got extra : List (LogRow ε)}
  {c : Completed ε}

theorem Reads.once (h : w.Reads due mark got) (hc : c ∈ w.completed) (hdue : due c) :
    got.count c.row = 1 ∨ (got.count c.row = 0 ∧ (c.row ∉ w.log ∨ mark < c.row.seq)) := by
  by_cases hmem : c.row ∈ got
  · exact .inl (count_eq_one_of_mem (nodup_of_sorted h.sorted) hmem)
  · refine .inr ⟨count_eq_zero.mpr hmem, ?_⟩
    rcases h.complete c hc hdue with hgot | hrest
    · exact absurd hgot hmem
    · exact hrest

theorem Reads.then (h : w.Reads due mark got) (hall : AllAbove w.log mark extra)
    (hc : c ∈ w.completed) (hdue : due c) (hlog : c.row ∈ w.log) :
    (got ++ extra).count c.row = 1 := by
  have hsorted : (got ++ extra).Pairwise fun x y => x.seq < y.seq := by
    refine pairwise_append.mpr ⟨h.sorted, hall.sorted, ?_⟩
    intro x hx y hy
    exact lt_of_le_of_lt (h.below x hx) (hall.above y hy)
  refine count_eq_one_of_mem (nodup_of_sorted hsorted) ?_
  rcases h.complete c hc hdue with hgot | hgone | hahead
  · exact mem_append_left _ hgot
  · exact absurd hlog hgone
  · exact mem_append_right _ (hall.all c.row hlog hahead)

theorem EventsInv.streamsOnce (h : w.EventsInv) : w.StreamsOnce := by
  intro s stream hstream c hc hdue
  have hreads := (h.streams s stream hstream).reads
  cases hchannel : (w.replicas stream.replica).channel with
  | none =>
    rw [hchannel] at hreads
    cases hreads
  | some mark =>
    rw [hchannel] at hreads
    cases mark with
    | none =>
      have hempty : stream.received = [] := hreads
      rw [hempty]
      refine .inr ⟨rfl, .inr ?_⟩
      intro mark hmark
      rw [hchannel] at hmark
      cases hmark
    | some =>
      rcases Reads.once hreads hc hdue with hone | ⟨hzero, hgone | hahead⟩
      · exact .inl hone
      · exact .inr ⟨hzero, .inl hgone⟩
      · refine .inr ⟨hzero, .inr ?_⟩
        intro mark' hmark
        rw [hchannel] at hmark
        cases hmark
        exact hahead

theorem EventsInv.pollsDeliver (h : w.EventsInv) {replica : Nat}
    (hreplica : w.replicas replica = ⟨some (some mark), .idle⟩) :
    w.PollsDeliver backlog replica := by
  obtain ⟨actions, t, extra, hactions, hrun, hall, hstreams⟩ :=
    @poll_rounds ε backlog replica _ w mark (Nat.lt_succ_self _) h.log.logDistinct hreplica
  refine ⟨actions, t, hactions, hrun, ?_⟩
  intro s stream hstream hon
  refine ⟨_, hstreams s stream hstream hon, ?_⟩
  intro c hc hdue hlog
  have hreads := (h.streams s stream hstream).reads
  rw [hon, hreplica] at hreads
  exact Reads.then hreads hall hc hdue hlog

theorem EventsInv.asksGive (h : w.EventsInv) (client : Nat) : w.AsksGive backlog client := by
  obtain ⟨k, t, extra, hrun, hall, hgiven⟩ :=
    @ask_rounds ε backlog client _ w (Nat.lt_succ_self _) h.log.logDistinct
  refine ⟨k, t, hrun, ?_⟩
  intro c hc hlog
  rw [hgiven]
  exact Reads.then (h.clients client) hall hc trivial hlog

/-- **Every event is delivered once**, where no append in flight is passed over. -/
theorem ordered_events_delivered (backlog : Nat) (actions : List (EventAction ε)) (hordered :
      EveryStep (EventsWorld.step backlog) (fun w a _ => w.Ordered a) started actions) :
    ∀ w, runActions (EventsWorld.step backlog) started actions = some w → w.StreamsOnce ∧
        w.ClientsOnce ∧
        (∀ replica mark, w.replicas replica = ⟨some (some mark), .idle⟩ →
          w.PollsDeliver backlog replica) ∧
        ∀ client, w.AsksGive backlog client := by
  intro w hrun
  have hinv : w.EventsInv :=
    runActions_invariant (fun w a t hinv ht ho => EventsInv.preserved hinv ht ho)
      eventsInv_started hordered hrun
  refine ⟨hinv.streamsOnce, ?_, ?_, hinv.asksGive⟩
  · intro n c hc
    exact Reads.once (hinv.clients n) hc trivial
  · intro replica mark hreplica
    exact hinv.pollsDeliver hreplica

end Delivery

/-- Nothing that is asked of a statement: neither a sampling nor a page. -/
def asksNothing (w : EventsWorld ε) : EventAction ε → Bool
  | .runsPoller r =>
    match (w.replicas r).poller with
    | .polling _ => false
    | _ => true
  | .asks _ _ => false
  | _ => true

theorem ordered_of_asksNothing {w : EventsWorld ε} {a : EventAction ε}
    (h : w.asksNothing a = true) : w.Ordered a := by
  refine ⟨?_, ?_, ?_⟩
  · rintro r rfl hpoller
    simp only [asksNothing, hpoller] at h
    cases h
  · rintro r mark rfl hpoller
    simp only [asksNothing, hpoller] at h
    cases h
  · rintro client limit rfl
    cases h

theorem ordered_of_idle {w : EventsWorld ε} {a : EventAction ε} (hidle : ∀ op, w.appends op = none)
    (haligns :
      ∀ r, a = .runsPoller r → (w.replicas r).poller = .polling none → w.completed = []) :
    w.Ordered a := by
  have hnone : ∀ row, ¬ w.InFlight row := by
    rintro row ⟨op, hop⟩
    rw [hidle op] at hop
    cases hop
  refine ⟨?_, ?_, ?_⟩
  · intro r ha hpoller
    refine ⟨hnone, ?_⟩
    rw [haligns r ha hpoller]
    rintro s stream _ _ c ⟨⟩
  · intro r mark _ _ row _ other hother
    exact absurd hother (hnone other)
  · intro client limit _ row _ other hother
    exact absurd hother (hnone other)

/-- A stream is opened and its channel about to be aligned. -/
private def opening : List (EventAction String) :=
  [.opens 0 0, .watermarks 0]

/-- And aligned; an event is published and the poller about to read. -/
private def publishing : List (EventAction String) :=
  opening ++ [.runsPoller 0] ++
    [.runsPoller 0, .publishes 0 "first", .runsAppend 0, .runsAppend 0, .watermarks 0]

private def delivering : List (EventAction String) :=
  publishing ++ [.runsPoller 0] ++ [.runsPoller 0]

private def eventStep : EventsWorld String → EventAction String → Option (EventsWorld String) :=
  EventsWorld.step 500

theorem everyStep_of_asksNothing {w : EventsWorld String} {actions : List (EventAction String)}
    (h : passes eventStep asksNothing w actions = true) :
    EveryStep eventStep (fun w a _ => w.Ordered a) w actions := by
  refine EveryStep.of_passes ?_ h
  intro w a _ ha
  exact ordered_of_asksNothing ha

theorem everyStep_snoc {first rest : List (EventAction String)} {a : EventAction String}
    (hfirst : EveryStep eventStep (fun w a _ => w.Ordered a) started first)
    (hrun : (runActions eventStep started (first ++ [a])).isSome = true)
    (ha : (reached eventStep started first).Ordered a)
    (hrest : passes eventStep asksNothing (reached eventStep started (first ++ [a])) rest = true) :
    EveryStep eventStep (fun w a _ => w.Ordered a) started (first ++ [a] ++ rest) := by
  have hhere := runActions_reached hrun
  obtain ⟨p, hp, _⟩ := runActions_append_iff.mp hhere
  have hreached : reached eventStep started first = p := by
    rw [reached, hp]
    rfl
  refine (everyStep_append_iff hhere).mpr ⟨(everyStep_append_iff hp).mpr ⟨hfirst, ?_⟩, ?_⟩
  · intro t _
    rw [← hreached]
    exact ⟨ha, trivial⟩
  · exact everyStep_of_asksNothing hrest

theorem ordered_events_delivered_alone :
    ∃ w stream,
      runActions (EventsWorld.step 500) started (delivering ++ [.asks 0 none] ++ []) = some w ∧
      w.completed = [⟨⟨1, "first"⟩, 6⟩] ∧
      w.streams 0 = some stream ∧
      stream.received = [⟨1, "first"⟩] ∧
      w.StreamsOnce ∧
      w.ClientsOnce := by
  have hopening : EveryStep eventStep (fun w a _ => w.Ordered a) started opening :=
    everyStep_of_asksNothing (by decide)
  have hpublishing : EveryStep eventStep (fun w a _ => w.Ordered a) started publishing := by
    refine everyStep_snoc hopening (by decide) (ordered_of_idle (fun _ => rfl) ?_) (by decide)
    intro r _ _
    rfl
  have hdelivering : EveryStep eventStep (fun w a _ => w.Ordered a) started delivering := by
    refine everyStep_snoc hpublishing (by decide) (ordered_of_idle ?_ ?_) (by decide)
    · intro op
      cases op with
      | zero => rfl
      | succ => rfl
    · rintro r ⟨⟩ hpoller
      cases hpoller
  have hordered : EveryStep eventStep (fun w a _ => w.Ordered a) started
      (delivering ++ [.asks 0 none] ++ []) := by
    refine everyStep_snoc hdelivering (by decide) (ordered_of_idle ?_ ?_) (by decide)
    · intro op
      cases op with
      | zero => rfl
      | succ => rfl
    · rintro r ⟨⟩
  have hrun : runActions eventStep started (delivering ++ [.asks 0 none] ++ []) =
      some (reached eventStep started (delivering ++ [.asks 0 none] ++ [])) :=
    runActions_reached (by decide)
  obtain ⟨hstreams, hclients, _, _⟩ := ordered_events_delivered 500 _ hordered _ hrun
  exact ⟨_, ⟨0, 0, [⟨1, "first"⟩]⟩, hrun, rfl, rfl, rfl, hstreams, hclients⟩

/-- A stream, and two events whose rows are inserted in the other order: the poller reads the
second before the first is there. -/
def lateRow : List (EventAction String) :=
  [.opens 0 0, .watermarks 0, .runsPoller 0, .runsPoller 0,
    .publishes 0 "first", .runsAppend 0, .publishes 1 "second", .runsAppend 1, .runsAppend 1,
    .watermarks 0, .runsPoller 0, .runsPoller 0, .asks 0 none,
    .runsAppend 0]

/-- The first event is complete after the stream was opened; neither the stream nor the client
has it, and both are past it. -/
theorem late_row_passed_over :
    ∃ w stream, runActions (EventsWorld.step 500) started lateRow = some w ∧
      w.streams 0 = some stream ∧
      stream.openedAt = 0 ∧
      ⟨⟨1, "first"⟩, 13⟩ ∈ w.completed ∧
      ⟨1, "first"⟩ ∈ w.log ∧
      stream.received = [⟨2, "second"⟩] ∧
      (w.replicas 0).channel = some (some 2) ∧
      (w.clients 0).given = [⟨2, "second"⟩] ∧
      ¬ w.StreamsOnce ∧
      ¬ w.ClientsOnce := by
  have hrun : runActions (EventsWorld.step 500) started lateRow =
      some (reached (EventsWorld.step 500) started lateRow) :=
    runActions_reached (by decide)
  refine ⟨_, ⟨0, 0, [⟨2, "second"⟩]⟩, hrun, rfl, rfl, mem_cons_self, mem_cons_self, rfl,
    rfl, rfl, ?_, ?_⟩
  · intro honce
    rcases honce 0 _ rfl ⟨⟨1, "first"⟩, 13⟩ mem_cons_self (by decide) with
      hone | ⟨_, hgone | hahead⟩
    · revert hone
      decide
    · exact hgone mem_cons_self
    · have hless := hahead 2 rfl
      revert hless
      decide
  · intro honce
    rcases honce 0 ⟨⟨1, "first"⟩, 13⟩ mem_cons_self with hone | ⟨_, hgone | hahead⟩
    · revert hone
      decide
    · exact hgone mem_cons_self
    · revert hahead
      decide

end EventsWorld

end StudioEvents
end StudioWeb
