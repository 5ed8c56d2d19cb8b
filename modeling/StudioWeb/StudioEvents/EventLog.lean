import Mathlib.Logic.Function.Basic
import StudioWeb.Library.LabelledRuns
import StudioWeb.Library.MarkedLog

/-!
# The event channel of a tenant

An append takes the tenant's next sequence number, and inserts the row of the event with a
second statement.  A replica holds a channel for the streams that are open on it; its poller
takes the mark of the channel, reads the log above it and delivers what it read, or aligns a
channel without a mark with the number that was handed out last.  A client asks for what is
above the highest number it has seen.

Every statement of an append, a poll or a pruning is a step, in any order, of any number of
replicas.  A statement of an append or a read of a poll may fail.  The number of steps taken
so far tells when a stream was opened and when an append was complete.  A stream holds what
was sent to it; what a slow subscriber drops of that is not here.
-/

namespace StudioWeb
namespace StudioEvents

universe u

/-- How many events one poll may carry per tenant. -/
def POLL_PAGE : Nat := 500

/-- A row of the log; `event` is everything but its number. -/
structure LogRow (ε : Type u) where
  seq : Nat
  event : ε
deriving DecidableEq

inductive AppendPc (ε : Type u) where
  | taking (event : ε)
  | inserting (row : LogRow ε)

inductive PollerPc (ε : Type u) where
  | idle
  /-- The mark of the channel, as `watermarks` told it. -/
  | polling (mark : Option Nat)
  | aligning (latest : Nat)
  | delivering (page : List (LogRow ε))
  | pruning (floor : Nat)

/-- A replica: its channel, which may have no mark yet, and its poller. -/
structure Replica (ε : Type u) where
  channel : Option (Option Nat)
  poller : PollerPc ε

structure EventStream (ε : Type u) where
  replica : Nat
  openedAt : Nat
  received : List (LogRow ε)

structure EventClient (ε : Type u) where
  highest : Nat
  given : List (LogRow ε)

/-- An append that is complete, and since when. -/
structure Completed (ε : Type u) where
  row : LogRow ε
  moment : Nat

structure EventsWorld (ε : Type u) where
  latestSeq : Nat
  log : List (LogRow ε)
  appends : Nat → Option (AppendPc ε)
  replicas : Nat → Replica ε
  streams : Nat → Option (EventStream ε)
  clients : Nat → EventClient ε
  moment : Nat
  completed : List (Completed ε)

inductive EventAction (ε : Type u) where
  | publishes (op : Nat) (event : ε)
  | runsAppend (op : Nat)
  | failsAppend (op : Nat)
  | opens (stream replica : Nat)
  | closes (stream : Nat)
  | watermarks (replica : Nat)
  | prunes (replica : Nat)
  | runsPoller (replica : Nat)
  | failsPoller (replica : Nat)
  | asks (client : Nat) (limit : Option Nat)

/-- The page size of a request. -/
def eventsLimit (limit : Option Nat) : Nat := min (max (limit.getD 200) 1) 500

namespace EventsWorld

variable {ε : Type u}

/-- A tenant that has published nothing. -/
def started : EventsWorld ε :=
  ⟨0, [], fun _ => none, fun _ => ⟨none, .idle⟩, fun _ => none, fun _ => ⟨0, []⟩, 0, []⟩

def setAppend (w : EventsWorld ε) (op : Nat) (pc : Option (AppendPc ε)) : EventsWorld ε :=
  { w with appends := Function.update w.appends op pc }

def setReplica (w : EventsWorld ε) (replica : Nat) (r : Replica ε) : EventsWorld ε :=
  { w with replicas := Function.update w.replicas replica r }

def setPoller (w : EventsWorld ε) (replica : Nat) (pc : PollerPc ε) : EventsWorld ε :=
  w.setReplica replica ⟨(w.replicas replica).channel, pc⟩

def setStream (w : EventsWorld ε) (stream : Nat) (s : Option (EventStream ε)) : EventsWorld ε :=
  { w with streams := Function.update w.streams stream s }

def setClient (w : EventsWorld ε) (client : Nat) (c : EventClient ε) : EventsWorld ε :=
  { w with clients := Function.update w.clients client c }

/-- `after`: the rows above a number, oldest first. -/
def after (w : EventsWorld ε) (mark limit : Nat) : List (LogRow ε) :=
  MarkedLog.pageAbove LogRow.seq w.log mark limit

/-- Take the tenant's next sequence number and write the event under it. -/
def runsAppend (w : EventsWorld ε) (op : Nat) : Option (EventsWorld ε) :=
  match w.appends op with
  | some (.taking event) =>
    let seq := w.latestSeq + 1
    some { w.setAppend op (some (.inserting ⟨seq, event⟩)) with latestSeq := seq }
  | some (.inserting row) =>
    some { w.setAppend op none with
      log := row :: w.log
      completed := ⟨row, w.moment⟩ :: w.completed }
  | none => none

/-- The tenant's live channel, created on first use, and a stream of it. -/
def opened (w : EventsWorld ε) (stream replica : Nat) : EventsWorld ε :=
  let r := w.replicas replica
  (w.setReplica replica ⟨some (r.channel.getD none), r.poller⟩).setStream stream
    (some ⟨replica, w.moment, []⟩)

def opens (w : EventsWorld ε) (stream replica : Nat) : Option (EventsWorld ε) :=
  match w.streams stream with
  | some _ => none
  | none => some (w.opened stream replica)

def align (w : EventsWorld ε) (replica latest : Nat) : EventsWorld ε :=
  match (w.replicas replica).channel with
  | some none => w.setReplica replica ⟨some (some latest), .idle⟩
  | _ => w.setPoller replica .idle

/-- Push the events of a page to the streams of a replica. -/
def send (w : EventsWorld ε) (replica : Nat) (page : List (LogRow ε)) : EventsWorld ε :=
  { w with
    streams := fun s => (w.streams s).map fun stream =>
      if stream.replica = replica then
        { stream with received := stream.received ++ page }
      else
        stream }

def deliver (w : EventsWorld ε) (replica : Nat) (page : List (LogRow ε)) : EventsWorld ε :=
  match page.getLast?, (w.replicas replica).channel with
  | some last, some _ => (w.setReplica replica ⟨some (some last.seq), .idle⟩).send replica page
  | _, _ => w.setPoller replica .idle

def runsPoller (w : EventsWorld ε) (replica : Nat) : Option (EventsWorld ε) :=
  match (w.replicas replica).poller with
  | .idle => none
  | .polling none => some (w.setPoller replica (.aligning w.latestSeq))
  | .polling (some mark) =>
    let page := w.after mark POLL_PAGE
    if page.isEmpty then
      some (w.setPoller replica .idle)
    else
      some (w.setPoller replica (.delivering page))
  | .aligning latest => some (w.align replica latest)
  | .delivering page => some (w.deliver replica page)
  | .pruning floor =>
    some { w.setPoller replica .idle with log := w.log.filter fun row => floor < row.seq }

/-- A client asks for what is above the highest number it has seen. -/
def asks (w : EventsWorld ε) (client : Nat) (limit : Option Nat) : EventsWorld ε :=
  let c := w.clients client
  let page := w.after c.highest (eventsLimit limit)
  match page.getLast? with
  | none => w
  | some last => w.setClient client ⟨last.seq, c.given ++ page⟩

section Steps

-- How many events per tenant stay replayable.
variable (backlog : Nat)

/-- One statement. -/
def takes (w : EventsWorld ε) : EventAction ε → Option (EventsWorld ε)
  | .publishes op event =>
    match w.appends op with
    | none => some (w.setAppend op (some (.taking event)))
    | some _ => none
  | .runsAppend op => w.runsAppend op
  | .failsAppend op =>
    match w.appends op with
    | some _ => some (w.setAppend op none)
    | none => none
  | .opens stream replica => w.opens stream replica
  | .closes stream => some (w.setStream stream none)
  | .watermarks replica =>
    match w.replicas replica with
    | ⟨some mark, .idle⟩ => some (w.setPoller replica (.polling mark))
    | _ => none
  | .prunes replica =>
    match (w.replicas replica).poller with
    | .idle => some (w.setPoller replica (.pruning (w.latestSeq - backlog)))
    | _ => none
  | .runsPoller replica => w.runsPoller replica
  | .failsPoller replica =>
    match (w.replicas replica).poller with
    | .polling _ => some (w.setPoller replica .idle)
    | .pruning _ => some (w.setPoller replica .idle)
    | _ => none
  | .asks client limit => some (w.asks client limit)

def step (w : EventsWorld ε) (a : EventAction ε) : Option (EventsWorld ε) :=
  (w.takes backlog a).map fun t => { t with moment := t.moment + 1 }

end Steps

end EventsWorld

end StudioEvents
end StudioWeb
