import StudioWeb.StudioEvents.EventReaders

/-!
# What the event channel delivers

The streams of a replica read the log by the mark of its channel, a client by the highest
number it has seen.  A stream reads nothing until its channel is aligned, so it misses what
was complete between its opening and the alignment.
-/

namespace StudioWeb
namespace StudioEvents

open LabelledRuns List Option Function

universe u

variable {ε : Type u}

namespace EventsWorld

structure SameLog (w t : EventsWorld ε) : Prop where
  latestSeq : t.latestSeq = w.latestSeq
  log : t.log = w.log
  appends : t.appends = w.appends
  completed : t.completed = w.completed
  moment : t.moment = w.moment

def tick (w : EventsWorld ε) : EventsWorld ε :=
  { w with moment := w.moment + 1 }

def StreamReads (w : EventsWorld ε) (stream : EventStream ε) : Option (Option Nat) → Prop
  | none => False
  | some none => stream.received = []
  | some (some mark) => w.Reads (fun c => stream.openedAt < c.moment) mark stream.received

structure StreamInv (w : EventsWorld ε) (stream : EventStream ε) : Prop where
  opened : stream.openedAt < w.moment
  reads : w.StreamReads stream (w.replicas stream.replica).channel

/-- No event that is complete was complete after a stream of a replica was opened, up to a
number. -/
def NoneMissed (w : EventsWorld ε) (replica latest : Nat) : Prop :=
  ∀ s stream, w.streams s = some stream → stream.replica = replica →
    ∀ c ∈ w.completed, stream.openedAt < c.moment → latest < c.row.seq

def PollerInv (w : EventsWorld ε) (replica : Nat) : PollerPc ε → Prop
  | .polling mark => (w.replicas replica).channel = some mark
  | .aligning latest =>
    (w.replicas replica).channel = some none ∧ w.Above latest ∧ w.NoneMissed replica latest
  | .delivering page =>
    ∃ mark, (w.replicas replica).channel = some (some mark) ∧ w.PageInv mark page
  | _ => True

structure ReplicaInv (w : EventsWorld ε) (replica : Nat) : Prop where
  above : ∀ mark, (w.replicas replica).channel = some (some mark) → w.Above mark
  poller : w.PollerInv replica (w.replicas replica).poller

structure EventsInv (w : EventsWorld ε) : Prop where
  log : w.LogInv
  streams : ∀ s stream, w.streams s = some stream → w.StreamInv stream
  replicas : ∀ r, w.ReplicaInv r
  clients : ∀ n, w.Reads (fun _ => True) (w.clients n).highest (w.clients n).given

section Steps

variable
  {backlog : Nat}
  {w t : EventsWorld ε}
  {a : EventAction ε}
  {op replica : Nat}
  {stream : EventStream ε}
  {event : ε}
  {row : LogRow ε}

theorem LogStep.of_same (h : SameLog w t) : LogStep w t.tick := by
  refine ⟨h.latestSeq.ge, ?_, ?_, ?_⟩
  · rintro row ⟨op, hop⟩
    refine .inl ⟨op, ?_⟩
    rw [← h.appends]
    exact hop
  · intro c hc
    refine .inl ?_
    rw [← h.completed]
    exact hc
  · intro c _ hlog
    rw [← h.log]
    exact hlog

section

variable (hinv : w.LogInv)
include hinv

theorem LogInv.of_same (h : SameLog w t) : t.tick.LogInv := by
  obtain ⟨hlatest, hlog, happends, hcompleted, hmoment⟩ := h
  have hflight : ∀ row, t.tick.InFlight row → w.InFlight row := by
    rintro row ⟨op, hop⟩
    refine ⟨op, ?_⟩
    rw [← happends]
    exact hop
  refine ⟨?_, ?_, ?_, ?_, ?_, ?_, ?_, ?_⟩
  · intro row hrow
    exact (hinv.taken row (hflight row hrow)).trans hlatest.ge
  · intro c hc
    rw [tick, hcompleted] at hc
    exact (hinv.known c hc).trans hlatest.ge
  · intro c hc
    rw [tick, hcompleted] at hc
    have hpast := hinv.past c hc
    simp only [tick, hmoment]
    omega
  · intro row hrow
    rw [tick, hlog] at hrow
    simp only [tick, hcompleted]
    exact hinv.logged row hrow
  · simp only [tick, hcompleted]
    exact hinv.distinct
  · simp only [tick, hlog]
    exact hinv.logDistinct
  · intro row hrow c hc
    rw [tick, hcompleted] at hc
    exact hinv.free row (hflight row hrow) c hc
  · intro op other row row' hop hother
    rw [tick, happends] at hop hother
    exact hinv.apart op other row row' hop hother

theorem LogInv.setAppend {pc : Option (AppendPc ε)}
    (hpc : ∀ row, pc ≠ some (.inserting row)) :
    (w.setAppend op pc).tick.LogInv ∧ LogStep w (w.setAppend op pc).tick := by
  have hold : ∀ other row, (w.setAppend op pc).appends other = some (.inserting row) →
      w.appends other = some (.inserting row) := by
    intro other row hother
    by_cases heq : other = op
    · subst heq
      simp only [EventsWorld.setAppend, update_self] at hother
      exact absurd hother (hpc row)
    · simpa only [EventsWorld.setAppend, update_of_ne heq] using hother
  have hflight : ∀ row, (w.setAppend op pc).tick.InFlight row → w.InFlight row := by
    rintro row ⟨other, hother⟩
    exact ⟨other, hold other row hother⟩
  refine ⟨⟨?_, hinv.known, ?_, hinv.logged, hinv.distinct, hinv.logDistinct, ?_, ?_⟩, ?_⟩
  · exact fun row hrow => hinv.taken row (hflight row hrow)
  · exact fun c hc => (hinv.past c hc).trans (Nat.lt_succ_self _)
  · exact fun row hrow => hinv.free row (hflight row hrow)
  · intro one other row row' hone hother
    exact hinv.apart one other row row' (hold one row hone) (hold other row' hother)
  · exact ⟨le_rfl, fun row hrow => .inl (hflight row hrow), fun c hc => .inl hc,
      fun _ _ hlog => hlog⟩

theorem LogInv.takes (ht : { w.setAppend op (some (.inserting ⟨w.latestSeq + 1, event⟩)) with
      latestSeq := w.latestSeq + 1 } = t) :
    t.tick.LogInv ∧ LogStep w t.tick := by
  subst ht
  have hcases : ∀ other row,
      (w.setAppend op (some (.inserting ⟨w.latestSeq + 1, event⟩))).appends other =
        some (.inserting row) → (other = op ∧ row.seq = w.latestSeq + 1) ∨
        (other ≠ op ∧ w.appends other = some (.inserting row)) := by
    intro other row hother
    by_cases heq : other = op
    · subst heq
      simp only [EventsWorld.setAppend, update_self, some.injEq,
        AppendPc.inserting.injEq] at hother
      exact .inl ⟨rfl, by rw [← hother]⟩
    · simp only [EventsWorld.setAppend, update_of_ne heq] at hother
      exact .inr ⟨heq, hother⟩
  refine ⟨⟨?_, ?_, ?_, hinv.logged, hinv.distinct, hinv.logDistinct, ?_, ?_⟩, ?_⟩
  · rintro row ⟨other, hother⟩
    rcases hcases other row hother with ⟨_, hseq⟩ | ⟨_, hold⟩
    · exact hseq.le
    · exact (hinv.taken row ⟨other, hold⟩).trans (Nat.le_succ _)
  · exact fun c hc => (hinv.known c hc).trans (Nat.le_succ _)
  · exact fun c hc => (hinv.past c hc).trans (Nat.lt_succ_self _)
  · rintro row ⟨other, hother⟩ c hc
    rcases hcases other row hother with ⟨_, hseq⟩ | ⟨_, hold⟩
    · have hknown := hinv.known c hc
      omega
    · exact hinv.free row ⟨other, hold⟩ c hc
  · intro one other row row' hone hother hseq
    rcases hcases one row hone with ⟨hfirst, hone'⟩ | ⟨_, hone'⟩
    · rcases hcases other row' hother with ⟨hsecond, _⟩ | ⟨_, hother'⟩
      · rw [hfirst, hsecond]
      · have hknown := hinv.taken row' ⟨other, hother'⟩
        omega
    · rcases hcases other row' hother with ⟨_, hother'⟩ | ⟨_, hother'⟩
      · have hknown := hinv.taken row ⟨one, hone'⟩
        omega
      · exact hinv.apart one other row row' hone' hother' hseq
  · refine ⟨Nat.le_succ _, ?_, fun c hc => .inl hc, fun _ _ hlog => hlog⟩
    rintro row ⟨other, hother⟩
    rcases hcases other row hother with ⟨_, hseq⟩ | ⟨_, hold⟩
    · exact .inr (by omega)
    · exact .inl ⟨other, hold⟩

theorem LogInv.inserts (hop : w.appends op = some (.inserting row))
    (ht : { w.setAppend op none with
      log := row :: w.log
      completed := ⟨row, w.moment⟩ :: w.completed } = t) :
    t.tick.LogInv ∧ LogStep w t.tick := by
  subst ht
  have hflight : w.InFlight row := ⟨op, hop⟩
  have hold : ∀ other row', (w.setAppend op none).appends other = some (.inserting row') →
      other ≠ op ∧ w.appends other = some (.inserting row') := by
    intro other row' hother
    by_cases heq : other = op
    · subst heq
      simp [EventsWorld.setAppend] at hother
    · simp only [EventsWorld.setAppend, update_of_ne heq] at hother
      exact ⟨heq, hother⟩
  refine ⟨⟨?_, ?_, ?_, ?_, ?_, ?_, ?_, ?_⟩, ?_⟩
  · rintro row' ⟨other, hother⟩
    exact hinv.taken row' ⟨other, (hold other row' hother).2⟩
  · intro c hc
    rcases mem_cons.mp hc with rfl | hc
    · exact hinv.taken row hflight
    · exact hinv.known c hc
  · intro c hc
    rcases mem_cons.mp hc with rfl | hc
    · exact Nat.lt_succ_self _
    · exact (hinv.past c hc).trans (Nat.lt_succ_self _)
  · intro row' hrow'
    rcases mem_cons.mp hrow' with rfl | hrow'
    · exact ⟨_, mem_cons_self, rfl⟩
    · obtain ⟨c, hc, heq⟩ := hinv.logged row' hrow'
      exact ⟨c, mem_cons_of_mem _ hc, heq⟩
  · refine nodup_cons.mpr ⟨?_, hinv.distinct⟩
    intro hmem
    obtain ⟨c, hc, heq⟩ := List.mem_map.mp hmem
    exact hinv.free row hflight c hc heq
  · refine nodup_cons.mpr ⟨?_, hinv.logDistinct⟩
    intro hmem
    obtain ⟨row', hrow', heq⟩ := List.mem_map.mp hmem
    obtain ⟨c, hc, rfl⟩ := hinv.logged row' hrow'
    exact hinv.free row hflight c hc heq
  · rintro row' ⟨other, hother⟩ c hc
    obtain ⟨hne, hother⟩ := hold other row' hother
    rcases mem_cons.mp hc with rfl | hc
    · exact fun heq => hne (hinv.apart other op row' row hother hop heq.symm)
    · exact hinv.free row' ⟨other, hother⟩ c hc
  · intro one other row' row'' hone hother
    exact hinv.apart one other row' row'' (hold one row' hone).2 (hold other row'' hother).2
  · refine ⟨le_rfl, ?_, ?_, ?_⟩
    · rintro row' ⟨other, hother⟩
      exact .inl ⟨other, (hold other row' hother).2⟩
    · intro c hc
      rcases mem_cons.mp hc with rfl | hc
      · exact .inr ⟨hflight, rfl⟩
      · exact .inl hc
    · intro c hc hlog
      rcases mem_cons.mp hlog with heq | hlog
      · exact absurd (congrArg LogRow.seq heq) (hinv.free row hflight c hc)
      · exact hlog

theorem LogInv.prunes {floor : Nat}
    (ht : { w.setPoller replica .idle with
      log := w.log.filter fun row => decide (floor < row.seq) } = t) :
    t.tick.LogInv ∧ LogStep w t.tick := by
  subst ht
  refine ⟨⟨hinv.taken, hinv.known, ?_, ?_, hinv.distinct, ?_, hinv.free, hinv.apart⟩, ?_⟩
  · exact fun c hc => (hinv.past c hc).trans (Nat.lt_succ_self _)
  · exact fun row hrow => hinv.logged row (mem_of_mem_filter hrow)
  · exact hinv.logDistinct.sublist (filter_sublist.map _)
  · exact ⟨le_rfl, fun _ h => .inl h, fun _ h => .inl h, fun _ _ hlog => mem_of_mem_filter hlog⟩

end

/-- A stream whose channel stays. -/
theorem StreamInv.step (h : w.StreamInv stream) (hstep : LogStep w t)
    (hmoment : w.moment ≤ t.moment)
    (hchannel : (t.replicas stream.replica).channel = (w.replicas stream.replica).channel) :
    t.StreamInv stream := by
  refine ⟨h.opened.trans_le hmoment, ?_⟩
  rw [hchannel]
  have hreads := h.reads
  revert hreads
  cases (w.replicas stream.replica).channel with
  | none => exact id
  | some mark =>
    cases mark with
    | none => exact id
    | some => exact fun hreads => hreads.step hstep

theorem Above.of_channel (h : w.ReplicaInv replica) (hstep : LogStep w t)
    (hchannel : (t.replicas replica).channel = (w.replicas replica).channel) :
    ∀ mark, (t.replicas replica).channel = some (some mark) → t.Above mark := by
  intro mark hmark
  rw [hchannel] at hmark
  exact (h.above mark hmark).step hstep

/-- A replica that stays, with no stream that was opened on it. -/
theorem ReplicaInv.step (h : w.ReplicaInv replica) (hstep : LogStep w t)
    (hreplica : t.replicas replica = w.replicas replica) (hstreams :
      ∀ s stream, t.streams s = some stream → stream.replica = replica →
        ∃ old, w.streams s = some old ∧ old.replica = replica ∧ old.openedAt = stream.openedAt) :
    t.ReplicaInv replica := by
  refine ⟨Above.of_channel h hstep (by rw [hreplica]), ?_⟩
  have hpoller := h.poller
  unfold PollerInv at hpoller ⊢
  rw [hreplica]
  revert hpoller
  cases (w.replicas replica).poller with
  | idle => exact id
  | polling => exact id
  | aligning =>
    rintro ⟨hchannel, habove, hnone⟩
    refine ⟨hchannel, habove.step hstep, ?_⟩
    intro s stream hstream hreplica c hc hdue
    obtain ⟨old, hold, holdReplica, hopened⟩ := hstreams s stream hstream hreplica
    rcases hstep.completed c hc with hbefore | ⟨hflight, _⟩
    · exact hnone s old hold holdReplica c hbefore (by rw [hopened]; exact hdue)
    · exact habove.flight c.row hflight
  | delivering =>
    rintro ⟨mark, hchannel, hpage⟩
    exact ⟨mark, hchannel, hpage.step hstep⟩
  | pruning => exact id

section

variable (h : w.EventsInv)
include h

theorem EventsInv.of_log (hlog : t.tick.LogInv ∧ LogStep w t.tick)
    (hmoment : t.moment = w.moment) (hstreams : t.streams = w.streams)
    (hchannels : ∀ r, (t.replicas r).channel = (w.replicas r).channel)
    (hpollers : ∀ r, t.replicas r = w.replicas r ∨ (t.replicas r).poller = .idle)
    (hclients : t.clients = w.clients) : t.tick.EventsInv := by
  obtain ⟨hinv, hstep⟩ := hlog
  have hlater : w.moment ≤ t.tick.moment := by
    simp only [tick, hmoment]
    omega
  refine ⟨hinv, ?_, ?_, ?_⟩
  · intro s stream hstream
    rw [tick, hstreams] at hstream
    exact (h.streams s stream hstream).step hstep hlater (hchannels _)
  · intro r
    rcases hpollers r with hsame | hidle
    · refine (h.replicas r).step hstep hsame ?_
      intro s stream hstream hreplica
      rw [tick, hstreams] at hstream
      exact ⟨stream, hstream, hreplica, rfl⟩
    · refine ⟨Above.of_channel (h.replicas r) hstep (hchannels r), ?_⟩
      change t.tick.PollerInv r (t.replicas r).poller
      rw [hidle]
      trivial
  · intro n
    have hclient : t.tick.clients n = w.clients n := by
      rw [tick, hclients]
    rw [hclient]
    exact (h.clients n).step hstep

theorem EventsInv.setPoller {pc : PollerPc ε}
    (hpc : (w.setPoller replica pc).tick.PollerInv replica pc) :
    (w.setPoller replica pc).tick.EventsInv := by
  have hsame : SameLog w (w.setPoller replica pc) := ⟨rfl, rfl, rfl, rfl, rfl⟩
  have hstep := LogStep.of_same hsame
  have hchannels : ∀ r, ((w.setPoller replica pc).replicas r).channel = (w.replicas r).channel := by
    intro r
    by_cases hr : r = replica
    · subst hr
      simp [EventsWorld.setPoller, setReplica]
    · simp [EventsWorld.setPoller, setReplica, update_of_ne hr]
  refine ⟨h.log.of_same hsame, ?_, ?_, fun n => (h.clients n).step hstep⟩
  · intro s stream hstream
    exact (h.streams s stream hstream).step hstep (Nat.le_succ _) (hchannels _)
  · intro r
    by_cases hr : r = replica
    · subst hr
      refine ⟨Above.of_channel (h.replicas r) hstep (hchannels r), ?_⟩
      have hpoller : ((w.setPoller r pc).tick.replicas r).poller = pc := by
        simp [tick, EventsWorld.setPoller, setReplica]
      rw [hpoller]
      exact hpc
    · refine (h.replicas r).step hstep ?_ fun s stream hstream hreplica =>
        ⟨stream, hstream, hreplica, rfl⟩
      simp [tick, EventsWorld.setPoller, setReplica, update_of_ne hr]

theorem EventsInv.begins {mark : Nat} (habove : w.Above mark) :
    w.Reads (fun c => w.moment < c.moment) mark [] := by
  refine Reads.begin habove ?_
  intro c hc hdue
  have hpast := h.log.past c hc
  omega

omit h in
theorem replicas_opened (w : EventsWorld ε) (s replica r : Nat) :
    (w.opened s replica).replicas r =
      if r = replica then
        ⟨some ((w.replicas replica).channel.getD none), (w.replicas replica).poller⟩
      else
        w.replicas r := by
  simp only [opened, setStream, setReplica, update_apply]

omit h in
theorem channel_opened {channel : Option Nat}
    (hchannel : (w.replicas replica).channel = some channel) (s r : Nat) :
    ((w.opened s r).replicas replica).channel = some channel := by
  rw [replicas_opened]
  by_cases hr : replica = r
  · subst hr
    rw [if_pos rfl, hchannel]
    rfl
  · rw [if_neg hr, hchannel]

theorem EventsInv.opens (s : Nat) : (w.opened s replica).tick.EventsInv := by
  have hsame : SameLog w (w.opened s replica) := ⟨rfl, rfl, rfl, rfl, rfl⟩
  have hstep := LogStep.of_same hsame
  refine ⟨h.log.of_same hsame, ?_, ?_, fun n => (h.clients n).step hstep⟩
  · intro other stream hstream
    by_cases hother : other = s
    · subst hother
      simp only [tick, opened, setStream, setReplica, update_self,
        some.injEq] at hstream
      subst hstream
      refine ⟨Nat.lt_succ_self _, ?_⟩
      have hreplica := replicas_opened w other replica replica
      rw [if_pos rfl] at hreplica
      simp only [tick, hreplica]
      cases hchannel : (w.replicas replica).channel with
      | none => rfl
      | some mark =>
        cases mark with
        | none => rfl
        | some mark =>
          have habove := (h.replicas replica).above mark hchannel
          exact (h.begins habove).step hstep
    · simp only [tick, opened, setStream, setReplica, update_of_ne hother] at hstream
      have hinv := h.streams other stream hstream
      refine hinv.step hstep (Nat.le_succ _) ?_
      have hreads := hinv.reads
      cases hchannel : (w.replicas stream.replica).channel with
      | none =>
        rw [hchannel] at hreads
        cases hreads
      | some => exact channel_opened hchannel s replica
  · intro r
    have hreplica := replicas_opened w s replica r
    by_cases hr : r = replica
    · subst hr
      rw [if_pos rfl] at hreplica
      have hold := h.replicas r
      have hchannel : ∀ channel, (w.replicas r).channel = some channel →
          ((w.opened s r).tick.replicas r).channel = some channel :=
        fun channel hc => channel_opened hc s r
      refine ⟨?_, ?_⟩
      · intro mark hmark
        simp only [tick, hreplica, some.injEq] at hmark
        refine (hold.above mark ?_).step hstep
        cases hc : (w.replicas r).channel with
        | none =>
          rw [hc] at hmark
          cases hmark
        | some =>
          rw [hc, getD_some] at hmark
          rw [hmark]
      · have hpoller := hold.poller
        simp only [tick, hreplica]
        revert hpoller
        cases (w.replicas r).poller with
        | idle => exact fun _ => trivial
        | polling mark => exact fun hc => hchannel mark hc
        | aligning =>
          rintro ⟨hc, habove, hnone⟩
          refine ⟨hchannel none hc, habove.step hstep, ?_⟩
          intro other stream hstream hon c hcompleted hdue
          by_cases hother : other = s
          · subst hother
            simp only [opened, setStream, setReplica, update_self,
              some.injEq] at hstream
            subst hstream
            have hpast := h.log.past c hcompleted
            simp only at hdue
            omega
          · simp only [opened, setStream, setReplica, update_of_ne hother] at hstream
            exact hnone other stream hstream hon c hcompleted hdue
        | delivering =>
          rintro ⟨mark, hc, hpage⟩
          exact ⟨mark, hchannel (some mark) hc, hpage.step hstep⟩
        | pruning => exact fun _ => trivial
    · rw [if_neg hr] at hreplica
      refine (h.replicas r).step hstep hreplica ?_
      intro other stream hstream hon
      by_cases hother : other = s
      · subst hother
        simp only [tick, opened, setStream, setReplica, update_self,
          some.injEq] at hstream
        subst hstream
        exact absurd hon.symm hr
      · simp only [tick, opened, setStream, setReplica, update_of_ne hother] at hstream
        exact ⟨stream, hstream, hon, rfl⟩

theorem EventsInv.closes (s : Nat) : (w.setStream s none).tick.EventsInv := by
  have hsame : SameLog w (w.setStream s none) := ⟨rfl, rfl, rfl, rfl, rfl⟩
  have hstep := LogStep.of_same hsame
  have hopen : ∀ other stream, (w.setStream s none).streams other = some stream →
      w.streams other = some stream := by
    intro other stream hstream
    by_cases hother : other = s
    · subst hother
      simp [setStream] at hstream
    · simpa only [setStream, update_of_ne hother] using hstream
  refine ⟨h.log.of_same hsame, ?_, ?_, fun n => (h.clients n).step hstep⟩
  · intro other stream hstream
    exact (h.streams other stream (hopen other stream hstream)).step hstep (Nat.le_succ _) rfl
  · intro r
    refine (h.replicas r).step hstep rfl ?_
    intro other stream hstream hon
    exact ⟨stream, hopen other stream hstream, hon, rfl⟩

theorem EventsInv.marks {mark : Nat} (habove : w.Above mark) (hsame : SameLog w t)
    (hclients : t.clients = w.clients)
    (hreplicas : t.replicas = Function.update w.replicas replica ⟨some (some mark), .idle⟩)
    (hothers :
      ∀ s stream, t.streams s = some stream → stream.replica ≠ replica → w.streams s = some stream)
    (hstreams :
      ∀ s stream, t.streams s = some stream → stream.replica = replica →
        stream.openedAt < w.moment ∧
          w.Reads (fun c => stream.openedAt < c.moment) mark stream.received) :
    t.tick.EventsInv := by
  have hstep := LogStep.of_same hsame
  have hlater : w.moment ≤ t.tick.moment := by
    simp only [tick, hsame.moment]
    omega
  have hhere : t.tick.replicas replica = ⟨some (some mark), .idle⟩ := by
    simp only [tick, hreplicas, update_self]
  have hother : ∀ r, r ≠ replica → t.tick.replicas r = w.replicas r := by
    intro r hr
    simp only [tick, hreplicas, update_of_ne hr]
  refine ⟨h.log.of_same hsame, ?_, ?_, ?_⟩
  · intro s stream hstream
    by_cases hon : stream.replica = replica
    · obtain ⟨hopened, hreads⟩ := hstreams s stream hstream hon
      refine ⟨hopened.trans_le hlater, ?_⟩
      rw [hon, hhere]
      exact hreads.step hstep
    · refine (h.streams s stream (hothers s stream hstream hon)).step hstep hlater ?_
      rw [hother _ hon]
  · intro r
    by_cases hr : r = replica
    · subst hr
      refine ⟨?_, ?_⟩
      · intro mark' hmark
        rw [hhere] at hmark
        cases hmark
        exact habove.step hstep
      · rw [hhere]
        trivial
    · refine (h.replicas r).step hstep (hother r hr) ?_
      intro s stream hstream hon
      exact ⟨stream, hothers s stream hstream (by rw [hon]; exact hr), hon, rfl⟩
  · intro n
    have hclient : t.tick.clients n = w.clients n := by
      rw [tick, hclients]
    rw [hclient]
    exact (h.clients n).step hstep

theorem EventsInv.align {latest : Nat}
    (hpoller : (w.replicas replica).poller = .aligning latest) :
    (w.align replica latest).tick.EventsInv := by
  have hinv := (h.replicas replica).poller
  rw [hpoller] at hinv
  obtain ⟨hchannel, habove, hnone⟩ := hinv
  unfold EventsWorld.align
  rw [hchannel]
  refine h.marks habove ⟨rfl, rfl, rfl, rfl, rfl⟩ rfl rfl (fun _ _ hstream _ => hstream) ?_
  intro s stream hstream hon
  have hold := h.streams s stream hstream
  have hreads := hold.reads
  rw [hon, hchannel] at hreads
  refine ⟨hold.opened, ?_⟩
  have hempty : stream.received = [] := hreads
  rw [hempty]
  exact Reads.begin habove fun c hc hdue => hnone s stream hstream hon c hc hdue

/-- A page is delivered. -/
theorem EventsInv.deliver {page : List (LogRow ε)}
    (hpoller : (w.replicas replica).poller = .delivering page) :
    (w.deliver replica page).tick.EventsInv := by
  have hinv := (h.replicas replica).poller
  rw [hpoller] at hinv
  obtain ⟨mark, hchannel, hpage⟩ := hinv
  unfold EventsWorld.deliver
  rw [hchannel]
  cases hlast : page.getLast? with
  | none => exact h.setPoller trivial
  | some last =>
    have hmem := mem_of_getLast? hlast
    refine h.marks (hpage.above last hmem).2 ⟨rfl, rfl, rfl, rfl, rfl⟩ rfl rfl ?_ ?_
    · intro s stream hstream hon
      obtain ⟨old, hold, rfl⟩ := map_eq_some_iff.mp hstream
      by_cases hr : old.replica = replica
      · rw [if_pos hr] at hon
        exact absurd hr hon
      · rw [if_neg hr]
        exact hold
    · intro s stream hstream hon
      obtain ⟨old, hold, rfl⟩ := map_eq_some_iff.mp hstream
      by_cases hr : old.replica = replica
      · rw [if_pos hr]
        have holdInv := h.streams s old hold
        have hreads := holdInv.reads
        rw [hr, hchannel] at hreads
        exact ⟨holdInv.opened, hreads.extend hpage hlast⟩
      · rw [if_neg hr] at hon
        exact absurd hon hr

theorem EventsInv.asks {client : Nat} {limit : Option Nat}
    (horder : w.PagesInOrder (w.after (w.clients client).highest (eventsLimit limit))) :
    (w.asks client limit).tick.EventsInv := by
  unfold EventsWorld.asks
  have hpage := h.log.pageInv horder
  simp only
  cases hlast : (w.after (w.clients client).highest (eventsLimit limit)).getLast? with
  | none =>
    have hsame : SameLog w w := ⟨rfl, rfl, rfl, rfl, rfl⟩
    exact h.of_log ⟨h.log.of_same hsame, LogStep.of_same hsame⟩ rfl rfl (fun _ => rfl)
      (fun _ => .inl rfl) rfl
  | some last =>
    have hsame : SameLog w (w.setClient client ⟨last.seq, (w.clients client).given ++
          w.after (w.clients client).highest (eventsLimit limit)⟩) :=
      ⟨rfl, rfl, rfl, rfl, rfl⟩
    have hstep := LogStep.of_same hsame
    refine ⟨h.log.of_same hsame, ?_, ?_, ?_⟩
    · intro s stream hstream
      exact (h.streams s stream hstream).step hstep (Nat.le_succ _) rfl
    · intro r
      exact (h.replicas r).step hstep rfl fun s stream hstream hon => ⟨stream, hstream, hon, rfl⟩
    · intro n
      by_cases hn : n = client
      · subst hn
        simp only [tick, setClient, update_self]
        exact ((h.clients n).extend hpage hlast).step hstep
      · simp only [tick, setClient, update_of_ne hn]
        exact (h.clients n).step hstep

end

/-- No statement passes over an append in flight: an alignment finds none, and no event that
was complete after a stream of the channel was opened; a page has no number above one. -/
structure Ordered (w : EventsWorld ε) (a : EventAction ε) : Prop where
  aligns :
    ∀ r, a = .runsPoller r → (w.replicas r).poller = .polling none → (∀ row, ¬ w.InFlight row) ∧
        ∀ s stream, w.streams s = some stream → stream.replica = r →
          ∀ c ∈ w.completed, c.moment ≤ stream.openedAt
  polls :
    ∀ r mark, a = .runsPoller r → (w.replicas r).poller = .polling (some mark) →
      w.PagesInOrder (w.after mark POLL_PAGE)
  asks :
    ∀ client limit, a = .asks client limit →
      w.PagesInOrder (w.after (w.clients client).highest (eventsLimit limit))

theorem EventsInv.of_runsPoller (h : w.EventsInv) (ht : w.runsPoller replica = some t)
    (hordered : w.Ordered (.runsPoller replica)) : t.tick.EventsInv := by
  have hinv := (h.replicas replica).poller
  have hstay : ∀ pc : PollerPc ε, ((w.setPoller replica pc).tick.replicas replica).channel =
        (w.replicas replica).channel := by
    intro pc
    simp only [tick, EventsWorld.setPoller, setReplica, update_self]
  unfold EventsWorld.runsPoller at ht
  split at ht
  · cases ht
  · next hpoller =>
    cases ht
    rw [hpoller] at hinv
    obtain ⟨hflight, hstreams⟩ := hordered.aligns replica rfl hpoller
    have hstep : LogStep w (w.setPoller replica (.aligning w.latestSeq)).tick :=
      LogStep.of_same ⟨rfl, rfl, rfl, rfl, rfl⟩
    have habove : w.Above w.latestSeq := ⟨le_rfl, fun row hrow => absurd hrow (hflight row)⟩
    refine h.setPoller ⟨(hstay _).trans hinv, habove.step hstep, ?_⟩
    intro s stream hstream hon c hc hdue
    have hbefore := hstreams s stream hstream hon c hc
    omega
  · next mark hpoller =>
    rw [hpoller] at hinv
    have hpage := h.log.pageInv (hordered.polls replica mark rfl hpoller)
    simp only at ht
    split at ht
    · cases ht
      exact h.setPoller trivial
    · cases ht
      have hstep : LogStep w (w.setPoller replica (.delivering (w.after mark POLL_PAGE))).tick :=
        LogStep.of_same ⟨rfl, rfl, rfl, rfl, rfl⟩
      exact h.setPoller ⟨mark, (hstay _).trans hinv, hpage.step hstep⟩
  · next _ hpoller =>
    cases ht
    exact h.align hpoller
  · next _ hpoller =>
    cases ht
    exact h.deliver hpoller
  · next _ _ =>
    cases ht
    refine h.of_log (h.log.prunes rfl) rfl rfl ?_ ?_ rfl
    · intro r
      by_cases hr : r = replica
      · subst hr
        exact hstay .idle
      · simp only [EventsWorld.setPoller, setReplica, update_of_ne hr]
    · intro r
      by_cases hr : r = replica
      · subst hr
        refine .inr ?_
        simp only [EventsWorld.setPoller, setReplica, update_self]
      · refine .inl ?_
        simp only [EventsWorld.setPoller, setReplica, update_of_ne hr]

/-- **Step**: readers hold what they are to hold, where no append in flight is passed
over. -/
theorem EventsInv.preserved (h : w.EventsInv) (ht : w.step backlog a = some t)
    (hordered : w.Ordered a) : t.EventsInv := by
  obtain ⟨v, hv, rfl⟩ := map_eq_some_iff.mp ht
  change v.tick.EventsInv
  cases a with
  | publishes =>
    simp only [EventsWorld.takes] at hv
    split at hv
    · cases hv
      exact h.of_log (h.log.setAppend (by simp)) rfl rfl (fun _ => rfl) (fun _ => .inl rfl) rfl
    · cases hv
  | runsAppend =>
    simp only [EventsWorld.takes, EventsWorld.runsAppend] at hv
    split at hv
    · cases hv
      exact h.of_log (h.log.takes rfl) rfl rfl (fun _ => rfl) (fun _ => .inl rfl) rfl
    · next _ hop =>
      cases hv
      exact h.of_log (h.log.inserts hop rfl) rfl rfl (fun _ => rfl) (fun _ => .inl rfl) rfl
    · cases hv
  | failsAppend =>
    simp only [EventsWorld.takes] at hv
    split at hv
    · cases hv
      exact h.of_log (h.log.setAppend (by simp)) rfl rfl (fun _ => rfl) (fun _ => .inl rfl) rfl
    · cases hv
  | opens s =>
    simp only [EventsWorld.takes, EventsWorld.opens] at hv
    split at hv
    · cases hv
    · cases hv
      exact h.opens s
  | closes s =>
    cases hv
    exact h.closes s
  | watermarks =>
    simp only [EventsWorld.takes] at hv
    split at hv
    · next _ hreplica =>
      cases hv
      refine h.setPoller ?_
      simp only [PollerInv, tick, EventsWorld.setPoller, setReplica, update_self,
        hreplica]
    · cases hv
  | prunes =>
    simp only [EventsWorld.takes] at hv
    split at hv
    · cases hv
      exact h.setPoller trivial
    · cases hv
  | runsPoller => exact h.of_runsPoller hv hordered
  | failsPoller =>
    simp only [EventsWorld.takes] at hv
    split at hv
    · cases hv
      exact h.setPoller trivial
    · cases hv
      exact h.setPoller trivial
    · cases hv
  | asks client limit =>
    cases hv
    exact h.asks (hordered.asks client limit rfl)

theorem eventsInv_started : (started : EventsWorld ε).EventsInv := by
  refine ⟨⟨?_, ?_, ?_, ?_, nodup_nil, nodup_nil, ?_, ?_⟩, ?_, ?_, ?_⟩
  · rintro row ⟨op, ⟨⟩⟩
  · rintro c ⟨⟩
  · rintro c ⟨⟩
  · rintro row ⟨⟩
  · rintro row ⟨op, ⟨⟩⟩
  · rintro op other row row' ⟨⟩
  · rintro s stream ⟨⟩
  · intro r
    refine ⟨?_, trivial⟩
    rintro mark ⟨⟩
  · intro n
    refine Reads.begin ⟨le_rfl, ?_⟩ ?_
    · rintro row ⟨op, ⟨⟩⟩
    · rintro c ⟨⟩

end Steps

end EventsWorld

end StudioEvents
end StudioWeb
