import StudioWeb.EventStream.StreamFrames
import StudioWeb.Library.LabelledRuns
import Mathlib.Order.Defs.LinearOrder
import Mathlib.Order.Lattice

/-!
# An event source over `fetch`

`FetchEventSource` connects, reads, and connects again.  A resume policy asks for what was
published since the last event it delivered, and holds live frames until the answer is there.

The consumer is a function of what it has been called with: it may throw, and it may close the
stream.  A step of the world is something the network, the server, the consumer or the source
does between two waits of the source.

`handed`, `ended`, `opened` and `published` are read by no function of the source.
-/

namespace StudioWeb
namespace EventStream

universe u v w

section Source

/-- A resume policy. `JSON.parse` and `JSON.stringify` are between a payload and its event. -/
structure Resume (E : Type u) (C : Type v) where
  parse : List Char → Option E
  stringify : E → List Char
  cursorOf : E → Option C
  /-- Where the first connection starts from; `None` replays nothing on it. -/
  fromCursor : Option C

variable {E : Type u} {C : Type v}

/-- What `onmessage` is given, and the event it stands for. -/
structure Message (E : Type u) where
  data : List Char
  event : Option E

/-- What a consumer can be called with. -/
inductive Call (E : Type u) where
  | opened
  | message (m : Message E)
  | named (eventName payload : List Char)
  | done
  | error

/-- What a consumer does in a call. -/
structure Reaction where
  throws : Bool
  closes : Bool

abbrev Consumer (E : Type u) := List (Call E) → Reaction

inductive ReadyState where
  | connecting
  | open_
  | closed
deriving DecidableEq

structure Source (E : Type u) (C : Type v) where
  readyState : ReadyState
  /-- The highest cursor delivered. -/
  cursor : C
  /-- The payloads of live frames, parked while a replay is in flight. -/
  held : Option (List (List Char))
  calls : List (Call E)
  /-- The messages of the calls up to the moment the stream was closed or ended. -/
  handed : List (Message E)
  ended : Bool

variable [LinearOrder C] [Zero C]

/-- `new FetchEventSource`. -/
def Source.new (p : Resume E C) : Source E C where
  readyState := .connecting
  cursor := p.fromCursor.getD 0
  held := none
  calls := []
  handed := []
  ended := false

namespace Source

/-- Whether the stream is neither closed nor ended. -/
def isLive (s : Source E C) : Bool := s.readyState != .closed && !s.ended

def call (consumer : Consumer E) (s : Source E C) (c : Call E) : Source E C × Bool :=
  let calls := s.calls ++ [c]
  let handed :=
    match c with
    | .message m => if s.isLive then s.handed ++ [m] else s.handed
    | _ => s.handed
  ({ s with
      calls := calls
      handed := handed
      readyState := if (consumer calls).closes then .closed else s.readyState },
    (consumer calls).throws)

def deliver (consumer : Consumer E) (s : Source E C) (cursor : Option C) (m : Message E) :
    Source E C × Bool :=
  match cursor with
  | none => s.call consumer (.message m)
  | some c =>
    if c ≤ s.cursor then
      (s, false)
    else
      { s with cursor := c }.call consumer (.message m)

end Source

def Resume.cursorOfRaw (p : Resume E C) (raw : List Char) : Option C :=
  (p.parse raw).bind p.cursorOf

/-- The message of a live frame, and that of a replayed event. -/
def Resume.live (p : Resume E C) (raw : List Char) : Message E := ⟨raw, p.parse raw⟩

def Resume.replayed (p : Resume E C) (event : E) : Message E := ⟨p.stringify event, some event⟩

namespace Source

variable (p : Resume E C) (consumer : Consumer E)

def deliverMessage (s : Source E C) (raw : List Char) : Source E C × Bool :=
  s.deliver consumer (p.cursorOfRaw raw) (p.live raw)

def deliverParsed (s : Source E C) (event : E) : Source E C × Bool :=
  s.deliver consumer (p.cursorOf event) (p.replayed event)

/-- A loop that a throw leaves. -/
def eachOf {α : Type w} (f : Source E C → α → Source E C × Bool) :
    Source E C → List α → Source E C × Bool
  | s, [] => (s, false)
  | s, x :: xs => if (f s x).2 then f s x else eachOf f (f s x).1 xs

/-- `end`: a listener of `done` that throws leaves the stream as it is. -/
def end_ (s : Source E C) : Source E C × Bool :=
  if s.readyState = .closed then
    (s, false)
  else
    let told := { s with ended := true }.call consumer .done
    if told.2 then told else ({ told.1 with readyState := .closed }, false)

/-- `replayGap` from where it asks: nothing is asked of a stream that has seen nothing and was
given no cursor. -/
def asks (s : Source E C) : Bool := p.fromCursor.isSome || !decide (s.cursor ≤ 0)

/-- `replayGap` from the answer on, and whether it threw; `none` is an answer that could not be
had. -/
def settle (s : Source E C) (missed : Option (List E)) : Source E C × Bool :=
  -- a consumer that throws on a replayed event ends the loop, and nothing else
  let replayed := (s.eachOf (deliverParsed p consumer) (missed.getD [])).1
  let queued := replayed.held.getD []
  let unheld := { replayed with held := none }
  let flushed :=
    if missed.isSome || p.fromCursor.isNone then
      unheld.eachOf (deliverMessage p consumer) queued
    else
      (unheld, false)
  if flushed.2 then
    flushed
  else if missed.isNone && p.fromCursor.isSome then
    flushed.1.end_ consumer
  else
    flushed

/-- `handleFrame`, and whether a consumer threw. -/
def handleFrame (s : Source E C) (frame : List Char) : Source E C × Bool :=
  if s.readyState = .closed then
    (s, false)
  else
    match parseFrame frame with
    | .nothing => (s, false)
    | .named eventName payload => s.call consumer (.named eventName payload)
    | .message payload =>
      match s.held with
      | some queue => ({ s with held := some (queue ++ [payload]) }, false)
      | none => s.deliverMessage p consumer payload

end Source

end Source

section World

variable {E : Type u} {C : Type v}

structure Published (p : Resume E C) where
  event : E
  cursor : C
  has : p.cursorOf event = some cursor

/-- The text of a connection that is not read yet, and how many events had been published when
the server opened it. -/
structure Wire where
  text : List Char
  since : Nat

/-- Where `run` is. -/
inductive Phase where
  | connecting
  | reading (buffer : List Char)
  /-- The body is at its end, and the replay of this connection is awaited. -/
  | awaiting
  | returned

/-- The answer to a replay: refused, or the events after its cursor among the first so many. -/
inductive Answer where
  | refused
  | upTo (count : Nat)

structure Replay (C : Type v) where
  connection : Nat
  after : C
  answer : Option Answer

structure World (p : Resume E C) where
  source : Source E C
  phase : Phase
  /-- How many connections have been read from. -/
  connection : Nat
  wire : Option Wire
  replays : List (Replay C)
  published : List (Published p)
  /-- How many events had been published when the newest of these connections was opened. -/
  opened : Nat

/-- Something that happens between two waits. -/
inductive Action where
  /-- The server publishes an event, with the lines of its frame. -/
  | publish (headers payload : List (List Char))
  /-- The server writes a frame that carries no event with a cursor. -/
  | write (lines : List (List Char))
  | opens
  | refuses
  | forbids
  | accepts
  | chunk (length : Nat)
  | cut
  | bodyEnds
  | resumes
  | answers (replay : Nat)
  | rejects (replay : Nat)
  | settles (replay : Nat)
  | closes

variable [LinearOrder C] [Zero C]
variable (p : Resume E C) (consumer : Consumer E)

def Resume.eventOf (m : Message E) : Option (Published p) :=
  match m.event with
  | none => none
  | some event =>
    match h : p.cursorOf event with
    | none => none
    | some cursor => some ⟨event, cursor, h⟩

def Resume.frameEvent (frame : List Char) : Option (Published p) :=
  match parseFrame frame with
  | .message payload => p.eventOf (p.live payload)
  | _ => none

/-- What the server answers a replay: the events after its cursor. -/
def gap {p : Resume E C} (published : List (Published p)) (after : C) (count : Nat) : List E :=
  ((published.take count).filter (fun e => after < e.cursor)).map (·.event)

def Answer.missed {p : Resume E C} (published : List (Published p)) (after : C) :
    Answer → Option (List E)
  | .refused => none
  | .upTo count => some (gap published after count)

def readFrames (s : Source E C) (frames : List (List Char)) : Source E C × Bool :=
  match frames with
  | [] => (s, false)
  | frame :: rest =>
    if (s.handleFrame p consumer frame).2 then
      s.handleFrame p consumer frame
    else
      readFrames (s.handleFrame p consumer frame).1 rest

namespace World

/-- Nothing has happened. -/
def start : World p where
  source := Source.new p
  phase := .connecting
  connection := 0
  wire := none
  replays := []
  published := []
  opened := 0

variable {p}

/-- A connection is gone, for whatever reason. -/
def disconnect (w : World p) : World p :=
  { w with
    phase := .connecting
    wire := none
    source :=
      if w.source.readyState = .closed then w.source
      else { w.source with readyState := .connecting } }

/-- What the server writes goes to the open connection. -/
def send (w : World p) (lines : List (List Char)) : World p :=
  { w with wire := w.wire.map fun wire => { wire with text := wire.text ++ frameText lines } }

/-- The end of a synchronous run of the reader: a throw drops the connection. -/
def settled (w : World p) (result : Source E C × Bool) (phase : Phase) : World p :=
  if result.2 then { w with source := result.1 }.disconnect
  else { w with source := result.1, phase := phase }

/-- `connectOnce` from the response on. -/
def accept (w : World p) (since : Nat) : World p :=
  let told := { w.source with readyState := .open_ }.call consumer .opened
  if told.2 then
    { w with source := told.1 }.disconnect
  else if told.1.asks p then
    { w with
      source := { told.1 with held := some [] }
      phase := .reading []
      connection := w.connection + 1
      opened := since
      replays := w.replays ++ [⟨w.connection + 1, told.1.cursor, none⟩] }
  else
    { w with
      source := told.1
      phase := .reading []
      connection := w.connection + 1
      opened := since }

/-- One step; `none` where it cannot happen. -/
def step (w : World p) : Action → Option (World p)
  | .publish headers payload =>
    match p.eventOf (p.live (['\n'].intercalate payload)) with
    | none => none
    | some e =>
      if (∀ line ∈ headers, IsHeader line) ∧ (∀ line ∈ payload, '\n' ∉ line) ∧
          payload ≠ [] ∧ ∀ x ∈ w.published, x.cursor < e.cursor then
        some ({ w with published := w.published ++ [e] }.send (messageLines headers payload))
      else
        none
  | .write lines =>
    if lines ≠ [] ∧ (∀ line ∈ lines, line ≠ [] ∧ '\n' ∉ line) ∧
        (p.frameEvent (frameBody lines)).isNone then
      some (w.send lines)
    else
      none
  | .opens =>
    match w.phase with
    | .connecting =>
      if w.source.readyState = .closed then none
      else some { w with wire := some ⟨[], w.published.length⟩ }
    | _ => none
  | .refuses =>
    match w.phase with
    | .connecting => some { w with wire := none }
    | _ => none
  | .forbids =>
    match w.phase with
    | .connecting =>
      if w.source.readyState = .closed then none
      else
        let ended :=
          if p.fromCursor.isSome then w.source.end_ consumer
          else ({ w.source with readyState := .closed }, false)
        let told := if ended.2 then ended else ended.1.call consumer .error
        some { w with source := told.1, phase := .returned, wire := none }
    | _ => none
  | .accepts =>
    match w.phase, w.wire with
    | .connecting, some wire =>
      if w.source.readyState = .closed then none else some (w.accept consumer wire.since)
    | _, _ => none
  | .chunk length =>
    match w.phase, w.wire with
    | .reading buffer, some wire =>
      if w.source.readyState = .closed then none
      else
        let taken := takeFrames (buffer ++ wire.text.take length)
        some ({ w with wire := some { wire with text := wire.text.drop length } }.settled
          (readFrames p consumer w.source taken.1) (.reading taken.2))
    | _, _ => none
  | .cut =>
    match w.phase with
    | .reading _ => some w.disconnect
    | _ => none
  | .bodyEnds =>
    match w.phase with
    | .reading _ => some { w with phase := .awaiting, wire := none }
    | _ => none
  | .resumes =>
    match w.phase with
    | .awaiting =>
      if ∀ replay ∈ w.replays, replay.connection ≠ w.connection then some w.disconnect
      else none
    | _ => none
  | .answers i =>
    match w.replays[i]? with
    | some ⟨connection, after, none⟩ =>
      some { w with
        replays := w.replays.set i ⟨connection, after, some (.upTo w.published.length)⟩ }
    | _ => none
  | .rejects i =>
    match w.replays[i]? with
    | some ⟨connection, after, none⟩ =>
      some { w with replays := w.replays.set i ⟨connection, after, some .refused⟩ }
    | _ => none
  | .settles i =>
    match w.replays[i]? with
    | some ⟨_, after, some answer⟩ =>
      some { w with
        source := (w.source.settle p consumer (answer.missed w.published after)).1
        replays := w.replays.eraseIdx i }
    | _ => none
  | .closes => some { w with source := { w.source with readyState := .closed } }

end World

end World

end EventStream
end StudioWeb
