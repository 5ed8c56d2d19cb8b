import StudioWeb.Library.LabelledRuns
import StudioWeb.Presence.Registry

/-!
# Notes and the stays they are written to

Heartbeats, sign-outs, listings and sends of any users, interleaved at the locks of the
registry, at times that never go back.  Beside the registry a history of each person is
kept that the code does not have: when they were last heard of, how often they arrived
and left, every note whose send was answered, and what each heartbeat was handed.
-/

namespace StudioWeb
namespace Presence

open LabelledRuns List Function PresenceRegistry

/-- A note whose send was answered: which send to this person it was, and how often the
person had arrived and signed out. -/
structure SentNote where
  message : Message
  moment : Nat
  stay : Nat
  departures : Nat
deriving DecidableEq

/-- What one heartbeat took. -/
structure Handover where
  stay : Nat
  departures : Nat
  waiting : List SentNote
  messages : List Message
deriving DecidableEq

def Handover.notes (handover : Handover) : List SentNote := newest MAX_INBOX handover.waiting

/-- One person's history. -/
structure History where
  heard : Option Int
  stay : Nat
  departures : Nat
  sent : List SentNote
  waiting : List SentNote
  handed : List Handover
deriving DecidableEq

namespace History

def nobody : History where
  heard := none
  stay := 0
  departures := 0
  sent := []
  waiting := []
  handed := []

/-- The person is here: did not sign out, nor lapse past the online window. -/
def isHere (history : History) (nowMs : Int) : Bool :=
  history.heard.any fun lastSeenMs => fresh lastSeenMs nowMs

def beats (history : History) (nowMs : Int) : History :=
  { history with
    heard := some nowMs
    stay := if history.isHere nowMs then history.stay else history.stay + 1 }

def signsOut (history : History) : History :=
  { history with
    heard := none
    departures := history.departures + 1
    waiting := [] }

/-- The note of a send that is answered now. -/
def noteFor (history : History) (message : Message) : SentNote where
  message := message
  moment := history.sent.length
  stay := history.stay
  departures := history.departures

def receives (history : History) (message : Message) : History :=
  { history with
    sent := history.sent ++ [history.noteFor message]
    waiting := history.waiting ++ [history.noteFor message] }

def takes (history : History) (stay : Nat) (messages : List Message) : History :=
  { history with
    waiting := []
    handed := history.handed ++
      [{ stay := stay
         departures := history.departures
         waiting := history.waiting
         messages := messages }] }

end History

inductive HeartbeatPc where
  | idle
  | beaten (caller : String) (me : PresenceRecord) (nowMs : Int) (stay : Nat)
  | drained (caller : String) (me : PresenceRecord) (nowMs : Int) (messages : List Message)

structure PresenceWorld where
  registry : PresenceRegistry
  now : Int
  heartbeats : Nat → HeartbeatPc
  answers : List (String × HeartbeatDto)
  history : String → History

inductive PresenceAction where
  | beats (call : Nat) (caller tenantId : String) (req : HeartbeatRequest) (nowMs : Int)
  | drains (call : Nat)
  | counts (call : Nat)
  | signsOut (caller : String)
  | lists (nowMs : Int)
  | sends (caller : String) (req : SendNoteRequest) (id : String) (nowMs : Int)

namespace PresenceWorld

def start (nowMs : Int) : PresenceWorld where
  registry := .default
  now := nowMs
  heartbeats := fun _ => .idle
  answers := []
  history := fun _ => .nobody

def setHeartbeat (w : PresenceWorld) (call : Nat) (pc : HeartbeatPc) : PresenceWorld :=
  { w with heartbeats := Function.update w.heartbeats call pc }

def setHistory (w : PresenceWorld) (userId : String) (history : History) : PresenceWorld :=
  { w with history := Function.update w.history userId history }

/-- The registry and the clock after a call. -/
def after (w : PresenceWorld) (registry : PresenceRegistry) (nowMs : Int) : PresenceWorld :=
  { w with registry := registry, now := nowMs }

def step (w : PresenceWorld) : PresenceAction → Option PresenceWorld
  | .beats call caller tenantId req nowMs =>
    match w.heartbeats call with
    | .idle =>
      if w.now ≤ nowMs then
        let (me, registry) := heartbeatBeat w.registry caller tenantId req nowMs
        let history := (w.history caller).beats nowMs
        some (((w.after registry nowMs).setHistory caller history).setHeartbeat call
          (.beaten caller me nowMs history.stay))
      else
        none
    | _ => none
  | .drains call =>
    match w.heartbeats call with
    | .beaten caller me nowMs stay =>
      let (messages, registry) := w.registry.drain caller
      some (((w.after registry w.now).setHistory caller
        ((w.history caller).takes stay messages)).setHeartbeat call
          (.drained caller me nowMs messages))
    | _ => none
  | .counts call =>
    match w.heartbeats call with
    | .drained caller me nowMs messages =>
      let (online, registry) := w.registry.online nowMs
      some { (w.after registry w.now).setHeartbeat call .idle with
        answers := w.answers ++
          [(caller, { me := me, messages := messages, online := online.length })] }
    | _ => none
  | .signsOut caller =>
    some ((w.after (w.registry.forget caller) w.now).setHistory caller (w.history caller).signsOut)
  | .lists nowMs =>
    if w.now ≤ nowMs then
      some (w.after (onlineList w.registry nowMs).2 nowMs)
    else
      none
  | .sends caller req id nowMs =>
    if w.now ≤ nowMs then
      match noteOf caller req id nowMs with
      | .error _ => some (w.after w.registry nowMs)
      | .ok (recipient, message) =>
        match w.registry.postIfOnline recipient message nowMs with
        | (some _, registry) =>
          some ((w.after registry nowMs).setHistory recipient
            ((w.history recipient).receives message))
        | (none, registry) => some (w.after registry nowMs)
    else
      none

end PresenceWorld

namespace History

variable {history : History} {message : Message} {stay : Nat} {nowMs laterMs : Int}

theorem isHere_beats : (history.beats nowMs).isHere laterMs = fresh nowMs laterMs := by
  rfl

/-- What is so of one person's notes in every run. -/
structure Kept (history : History) : Prop where
  distinct : history.sent.map SentNote.moment = List.range history.sent.length
  once_in_order :
    (history.handed.flatMap Handover.notes ++ history.waiting).Sublist history.sent
  messages : ∀ h ∈ history.handed, h.messages = h.notes.map SentNote.message
  waits : ∀ n ∈ history.waiting, n.departures = history.departures
  no_departure : ∀ h ∈ history.handed, ∀ n ∈ h.notes, n.departures = h.departures

theorem kept_nobody : nobody.Kept := by
  refine ⟨rfl, List.Sublist.refl _, ?_, ?_, ?_⟩
  · intro h hh
    cases hh
  · intro n hn
    cases hn
  · intro h hh
    cases hh

theorem Kept.beats (h : history.Kept) (nowMs : Int) : (history.beats nowMs).Kept :=
  ⟨h.distinct, h.once_in_order, h.messages, h.waits, h.no_departure⟩

theorem Kept.signsOut (h : history.Kept) : history.signsOut.Kept := by
  refine ⟨h.distinct, ?_, h.messages, ?_, h.no_departure⟩
  · simp only [History.signsOut, append_nil]
    exact (sublist_append_left _ _).trans h.once_in_order
  · intro n hn
    cases hn

theorem Kept.receives (h : history.Kept) (message : Message) : (history.receives message).Kept := by
  refine ⟨?_, ?_, h.messages, ?_, h.no_departure⟩
  · simp only [History.receives, map_append, map_cons, map_nil,
      length_append, length_cons, length_nil, range_succ, h.distinct]
    rfl
  · simp only [History.receives]
    rw [← append_assoc]
    exact h.once_in_order.append (List.Sublist.refl _)
  · intro n hn
    rcases mem_append.mp hn with hold | hnew
    · exact h.waits n hold
    · rw [mem_singleton.mp hnew]
      rfl

theorem Kept.takes (h : history.Kept) (stay : Nat) :
    (history.takes stay ((newest MAX_INBOX history.waiting).map SentNote.message)).Kept := by
  refine ⟨h.distinct, ?_, ?_, ?_, ?_⟩
  · simp only [History.takes, append_nil, flatMap_append, flatMap_cons,
      flatMap_nil]
    have hnewest : (newest MAX_INBOX history.waiting).Sublist history.waiting := newest_sublist _ _
    exact ((List.Sublist.refl _).append hnewest).trans h.once_in_order
  · intro handover hmem
    rcases mem_append.mp hmem with hold | hnew
    · exact h.messages handover hold
    · rw [mem_singleton.mp hnew]
      rfl
  · intro n hn
    cases hn
  · intro handover hmem n hn
    rcases mem_append.mp hmem with hold | hnew
    · exact h.no_departure handover hold n hn
    · rw [mem_singleton.mp hnew] at hn ⊢
      exact h.waits n ((newest_sublist _ _).subset hn)

structure OneStay (history : History) : Prop where
  waits : ∀ n ∈ history.waiting, n.stay = history.stay
  handed : ∀ h ∈ history.handed, ∀ n ∈ h.notes, n.stay = h.stay

theorem oneStay_nobody : nobody.OneStay := by
  refine ⟨?_, ?_⟩
  · intro n hn
    cases hn
  · intro h hh
    cases hh

theorem OneStay.beats (h : history.OneStay)
    (hquiet : history.isHere nowMs = true ∨ history.waiting = []) :
    (history.beats nowMs).OneStay := by
  refine ⟨?_, h.handed⟩
  intro n hn
  rcases hquiet with hhere | hnone
  · simp only [History.beats, hhere, if_true]
    exact h.waits n hn
  · have hn' : n ∈ history.waiting := hn
    rw [hnone] at hn'
    cases hn'

theorem OneStay.signsOut (h : history.OneStay) : history.signsOut.OneStay := by
  refine ⟨?_, h.handed⟩
  intro n hn
  cases hn

theorem OneStay.receives (h : history.OneStay) (message : Message) :
    (history.receives message).OneStay := by
  refine ⟨?_, h.handed⟩
  intro n hn
  rcases mem_append.mp hn with hold | hnew
  · exact h.waits n hold
  · rw [mem_singleton.mp hnew]
    rfl

theorem OneStay.takes (h : history.OneStay) (hquiet : stay = history.stay ∨ history.waiting = [])
    (messages : List Message) : (history.takes stay messages).OneStay := by
  refine ⟨?_, ?_⟩
  · intro n hn
    cases hn
  · intro handover hmem n hn
    rcases mem_append.mp hmem with hold | hnew
    · exact h.handed handover hold n hn
    · rw [mem_singleton.mp hnew] at hn ⊢
      have hwaits : n ∈ history.waiting := (newest_sublist _ _).subset hn
      rcases hquiet with hsame | hnone
      · rw [hsame]
        exact h.waits n hwaits
      · rw [hnone] at hwaits
        cases hwaits

end History

namespace PresenceWorld

variable {w t : PresenceWorld} {a : PresenceAction} {start₀ : Int}

/-- The registry, as one person's history has it. -/
structure Tells
    (registry : PresenceRegistry) (nowMs : Int) (userId : String) (history : History) :
    Prop where
  finds : ∀ laterMs, nowMs ≤ laterMs → registry.finds userId laterMs = history.isHere laterMs
  inbox : registry.inbox userId = (newest MAX_INBOX history.waiting).map SentNote.message

/-- A heartbeat under way began in the past. -/
def PcPast (nowMs : Int) : HeartbeatPc → Prop
  | .idle => True
  | .beaten _ _ thenMs _ => thenMs ≤ nowMs
  | .drained _ _ thenMs _ => thenMs ≤ nowMs

structure Registered (w : PresenceWorld) : Prop where
  tells : ∀ userId, Tells w.registry w.now userId (w.history userId)
  past : ∀ call, PcPast w.now (w.heartbeats call)

theorem registered_start : (start start₀).Registered := by
  refine ⟨?_, fun _ => trivial⟩
  intro userId
  exact ⟨fun _ _ => rfl, rfl⟩

theorem PcPast.mono {nowMs laterMs : Int} {pc : HeartbeatPc} (h : PcPast nowMs pc)
    (hle : nowMs ≤ laterMs) : PcPast laterMs pc := by
  cases pc with
  | idle => trivial
  | beaten => exact Int.le_trans h hle
  | drained => exact Int.le_trans h hle

theorem Tells.later
    {registry : PresenceRegistry} {nowMs laterMs : Int} {userId : String} {history : History}
    (h : Tells registry nowMs userId history) (hle : nowMs ≤ laterMs) :
    Tells registry laterMs userId history :=
  ⟨fun t ht => h.finds t (Int.le_trans hle ht), h.inbox⟩

section Calls

variable
  {registry : PresenceRegistry}
  {nowMs laterMs : Int}
  {history : String → History}
  {caller userId : String}

section

variable (h : ∀ userId, Tells registry nowMs userId (history userId))
include h

theorem Tells.beats
    (hle : nowMs ≤ laterMs) (caller tenantId : String) (req : HeartbeatRequest) (userId : String) :
    Tells (heartbeatBeat registry caller tenantId req laterMs).2 laterMs userId
      (Function.update history caller ((history caller).beats laterMs) userId) := by
  refine ⟨?_, ?_⟩
  · intro t ht
    rw [finds_heartbeatBeat, update_apply]
    split
    · exact History.isHere_beats.symm
    · exact (h userId).finds t (Int.le_trans hle ht)
  · rw [inbox_heartbeatBeat, (h userId).inbox, update_apply]
    split
    next huser => rw [huser]; rfl
    next => rfl

theorem Tells.takes (caller : String) (stay : Nat) (messages : List Message) (userId : String) :
    Tells (registry.drain caller).2 nowMs userId
      (Function.update history caller ((history caller).takes stay messages) userId) := by
  refine ⟨?_, ?_⟩
  · intro t ht
    rw [finds_drain, (h userId).finds t ht, update_apply]
    split
    next huser => rw [huser]; rfl
    next => rfl
  · rw [inbox_drain, update_apply]
    split
    · rfl
    · exact (h userId).inbox

theorem Tells.signsOut (caller userId : String) :
    Tells (registry.forget caller) nowMs userId
      (Function.update history caller (history caller).signsOut userId) := by
  refine ⟨?_, ?_⟩
  · intro t ht
    rw [finds_forget, update_apply]
    split
    · rfl
    · exact (h userId).finds t ht
  · rw [inbox_forget, update_apply]
    split
    · rfl
    · exact (h userId).inbox

end

theorem Tells.online (h : Tells registry nowMs userId (history userId)) {thenMs : Int}
    (hle : thenMs ≤ nowMs) : Tells (registry.online thenMs).2 nowMs userId (history userId) := by
  refine ⟨?_, h.inbox⟩
  intro t ht
  rw [finds_online registry (Int.le_trans hle ht)]
  exact h.finds t ht

theorem Tells.receives (h : ∀ userId, Tells registry nowMs userId (history userId))
    (recipient : String) (message : Message) (userId : String) :
    Tells
      { registry with
        inboxes := registry.inboxes.set recipient
          (newest MAX_INBOX (registry.inbox recipient ++ [message])) }
      nowMs userId
      (Function.update history recipient ((history recipient).receives message) userId) := by
  refine ⟨?_, ?_⟩
  · intro t ht
    have hfinds := (h userId).finds t ht
    rw [update_apply]
    split
    next huser => rw [huser] at hfinds ⊢; exact hfinds
    next => exact hfinds
  · rw [inbox_set, update_apply]
    split
    next =>
      rw [(h recipient).inbox]
      have hadd : (newest MAX_INBOX (history recipient).waiting).map SentNote.message ++ [message] =
            newest MAX_INBOX ((history recipient).waiting.map SentNote.message) ++ [message] := by
        rw [map_newest]
      rw [hadd, newest_append_newest (by decide), ← map_newest]
      simp [History.receives, History.noteFor]
    next => exact (h userId).inbox

end Calls

/-- What a step does to a person's history, and what the registry said of them. -/
inductive Changes (w : PresenceWorld) (userId : String) : PresenceAction → History → Prop where
  | nothing (a : PresenceAction) :
      Changes w userId a (w.history userId)
  | beats (call : Nat) (tenantId : String) (req : HeartbeatRequest) (nowMs : Int)
      (hnow : w.now ≤ nowMs) :
      Changes w userId (.beats call userId tenantId req nowMs) ((w.history userId).beats nowMs)
  | takes (call : Nat) (me : PresenceRecord) (nowMs : Int) (stay : Nat)
      (hpc : w.heartbeats call = .beaten userId me nowMs stay) :
      Changes w userId (.drains call) ((w.history userId).takes stay (w.registry.inbox userId))
  | signsOut :
      Changes w userId (.signsOut userId) (w.history userId).signsOut
  | receives (caller : String) (req : SendNoteRequest) (id : String) (nowMs : Int)
      (message : Message) :
      Changes w userId (.sends caller req id nowMs) ((w.history userId).receives message)

theorem changes_update {history : History} {caller : String} (h : Changes w caller a history)
    (userId : String) : Changes w userId a (Function.update w.history caller history userId) := by
  rw [update_apply]
  split
  next huser =>
    rw [huser]
    exact h
  next => exact .nothing a

/-- What one step does: the registry goes on agreeing, and a history changes one way. -/
theorem step_registered (h : w.Registered) (hstep : w.step a = some t) :
    t.Registered ∧ ∀ userId, Changes w userId a (t.history userId) := by
  have hsame : ∀ userId, Changes w userId a (w.history userId) := fun _ => .nothing a
  have hpast : ∀ {laterMs : Int} (call : Nat) (pc : HeartbeatPc),
      w.now ≤ laterMs → PcPast laterMs pc →
      ∀ c, PcPast laterMs (Function.update w.heartbeats call pc c) := by
    intro laterMs call pc hle hpc c
    rw [update_apply]
    split
    · exact hpc
    · exact (h.past c).mono hle
  cases a with
  | beats call caller tenantId req nowMs =>
    simp only [step] at hstep
    cases hpc : w.heartbeats call with
    | idle =>
      simp only [hpc] at hstep
      by_cases hle : w.now ≤ nowMs
      · rw [if_pos hle] at hstep
        cases hstep
        exact ⟨⟨Tells.beats h.tells hle caller tenantId req, hpast call _ hle (Int.le_refl _)⟩,
          changes_update (.beats call tenantId req nowMs hle)⟩
      · rw [if_neg hle] at hstep
        cases hstep
    | beaten =>
      simp [hpc] at hstep
    | drained =>
      simp [hpc] at hstep
  | drains call =>
    simp only [step] at hstep
    cases hpc : w.heartbeats call with
    | beaten caller me nowMs stay =>
      simp only [hpc] at hstep
      cases hstep
      have hthen : nowMs ≤ w.now := by
        have := h.past call
        rw [hpc] at this
        exact this
      exact ⟨⟨Tells.takes h.tells caller stay _, hpast call _ (Int.le_refl _) hthen⟩,
        changes_update (.takes call me nowMs stay hpc)⟩
    | idle =>
      simp [hpc] at hstep
    | drained =>
      simp [hpc] at hstep
  | counts call =>
    simp only [step] at hstep
    cases hpc : w.heartbeats call with
    | drained _ _ nowMs =>
      simp only [hpc] at hstep
      cases hstep
      have hthen : nowMs ≤ w.now := by
        have := h.past call
        rw [hpc] at this
        exact this
      exact ⟨⟨fun userId => (h.tells userId).online hthen,
        hpast call _ (Int.le_refl _) trivial⟩, hsame⟩
    | idle =>
      simp [hpc] at hstep
    | beaten =>
      simp [hpc] at hstep
  | signsOut caller =>
    simp only [step] at hstep
    cases hstep
    exact ⟨⟨Tells.signsOut h.tells caller, h.past⟩, changes_update .signsOut⟩
  | lists nowMs =>
    simp only [step] at hstep
    by_cases hle : w.now ≤ nowMs
    · rw [if_pos hle] at hstep
      cases hstep
      exact ⟨⟨fun userId => ((h.tells userId).later hle).online (Int.le_refl _),
        fun call => (h.past call).mono hle⟩, hsame⟩
    · rw [if_neg hle] at hstep
      cases hstep
  | sends caller req id nowMs =>
    simp only [step] at hstep
    by_cases hle : w.now ≤ nowMs
    · rw [if_pos hle] at hstep
      have htells : ∀ userId, Tells w.registry nowMs userId (w.history userId) :=
        fun userId => (h.tells userId).later hle
      have hlater : ∀ call, PcPast nowMs (w.heartbeats call) :=
        fun call => (h.past call).mono hle
      cases hnote : noteOf caller req id nowMs with
      | error =>
        simp only [hnote] at hstep
        cases hstep
        exact ⟨⟨htells, hlater⟩, hsame⟩
      | ok note =>
        obtain ⟨recipient, message⟩ := note
        simp only [hnote] at hstep
        rcases postIfOnline_cases w.registry recipient message nowMs with
          ⟨_, hpost⟩ | ⟨_, hpost⟩
        · simp only [hpost] at hstep
          cases hstep
          exact ⟨⟨Tells.receives htells recipient message, hlater⟩,
            changes_update (.receives caller req id nowMs message)⟩
        · simp only [hpost] at hstep
          cases hstep
          exact ⟨⟨htells, hlater⟩, hsame⟩
    · rw [if_neg hle] at hstep
      cases hstep

/-- The registry agrees with the histories, and every history is kept. -/
def Sound (w : PresenceWorld) : Prop := w.Registered ∧ ∀ userId, (w.history userId).Kept

theorem sound_start : (start start₀).Sound := ⟨registered_start, fun _ => History.kept_nobody⟩

theorem Sound.step (h : w.Sound) (hstep : w.step a = some t) : t.Sound := by
  obtain ⟨hreg, hchanges⟩ := step_registered h.1 hstep
  refine ⟨hreg, ?_⟩
  intro userId
  have hkept := h.2 userId
  have hinbox := (h.1.tells userId).inbox
  have hchange := hchanges userId
  generalize t.history userId = later at hchange ⊢
  cases hchange with
  | nothing => exact hkept
  | beats _ _ _ nowMs => exact hkept.beats nowMs
  | takes _ _ _ stay =>
    rw [hinbox]
    exact hkept.takes stay
  | signsOut => exact hkept.signsOut
  | receives _ _ _ _ message => exact hkept.receives message

def WasHanded (w : PresenceWorld) (caller : String) (messages : List Message) : Prop :=
  ∃ h ∈ (w.history caller).handed, h.messages = messages

structure Answered (w : PresenceWorld) : Prop where
  answers : ∀ answer ∈ w.answers, w.WasHanded answer.1 answer.2.messages
  drained : ∀ call caller me nowMs messages,
    w.heartbeats call = .drained caller me nowMs messages → w.WasHanded caller messages

theorem answered_start : (start start₀).Answered := by
  refine ⟨?_, ?_⟩
  · intro answer hanswer
    cases hanswer
  · intro call caller me nowMs messages hpc
    cases hpc

theorem WasHanded.mono {caller : String} {messages : List Message} (h : w.WasHanded caller messages)
    (hchange : Changes w caller a (t.history caller)) : t.WasHanded caller messages := by
  obtain ⟨handover, hmem, hmessages⟩ := h
  refine ⟨handover, ?_, hmessages⟩
  generalize t.history caller = later at hchange ⊢
  cases hchange with
  | nothing => exact hmem
  | beats => exact hmem
  | takes => exact mem_append_left _ hmem
  | signsOut => exact hmem
  | receives => exact hmem

theorem step_drained (hstep : w.step a = some t) :
    (∀ call caller me nowMs messages, t.heartbeats call = .drained caller me nowMs messages →
        w.heartbeats call = .drained caller me nowMs messages ∨ t.WasHanded caller messages) ∧
    (∀ answer ∈ t.answers, answer ∈ w.answers ∨ ∃ call nowMs, w.heartbeats call =
        .drained answer.1 answer.2.me nowMs answer.2.messages) := by
  cases a with
  | beats call =>
    simp only [step] at hstep
    split at hstep
    · split_ifs at hstep
      cases hstep
      refine ⟨?_, fun answer hanswer => .inl hanswer⟩
      intro c u me m messages hpc
      by_cases hc : c = call
      · simp [setHeartbeat, hc] at hpc
      · left
        simpa [setHeartbeat, setHistory, after, hc] using hpc
    · cases hstep
  | drains call =>
    simp only [step] at hstep
    split at hstep
    next _ _ _ _ _ =>
      cases hstep
      refine ⟨?_, fun answer hanswer => .inl hanswer⟩
      intro c u me' m messages hpc
      by_cases hc : c = call
      · right
        simp only [setHeartbeat, hc, update_self, HeartbeatPc.drained.injEq] at hpc
        obtain ⟨rfl, _, _, rfl⟩ := hpc
        exact ⟨_, by simp [setHistory, setHeartbeat, History.takes]; exact .inr rfl, rfl⟩
      · left
        simpa [setHeartbeat, setHistory, after, hc] using hpc
    · cases hstep
  | counts call =>
    simp only [step] at hstep
    split at hstep
    next _ _ nowMs _ hold =>
      cases hstep
      refine ⟨?_, ?_⟩
      · intro c u me' m messages' hpc
        by_cases hc : c = call
        · simp [setHeartbeat, hc] at hpc
        · left
          simpa [setHeartbeat, setHistory, after, hc] using hpc
      · intro answer hanswer
        rcases mem_append.mp hanswer with hbefore | hnew
        · exact .inl hbefore
        · rw [mem_singleton.mp hnew]
          exact .inr ⟨call, nowMs, hold⟩
    · cases hstep
  | signsOut =>
    simp only [step] at hstep
    cases hstep
    exact ⟨fun _ _ _ _ _ hpc => .inl hpc, fun _ hanswer => .inl hanswer⟩
  | lists =>
    simp only [step] at hstep
    split_ifs at hstep
    cases hstep
    exact ⟨fun _ _ _ _ _ hpc => .inl hpc, fun _ hanswer => .inl hanswer⟩
  | sends =>
    have hsame : t.heartbeats = w.heartbeats ∧ t.answers = w.answers := by
      simp only [step] at hstep
      split_ifs at hstep
      split at hstep
      · cases hstep
        exact ⟨rfl, rfl⟩
      · split at hstep <;> cases hstep <;> exact ⟨rfl, rfl⟩
    rw [hsame.1, hsame.2]
    exact ⟨fun _ _ _ _ _ hpc => .inl hpc, fun _ hanswer => .inl hanswer⟩

theorem Answered.step (h : w.Answered) (hreg : w.Registered) (hstep : w.step a = some t) :
    t.Answered := by
  obtain ⟨_, hchanges⟩ := step_registered hreg hstep
  obtain ⟨hdrained, hanswers⟩ := step_drained hstep
  refine ⟨?_, ?_⟩
  · intro answer hanswer
    rcases hanswers answer hanswer with hbefore | ⟨call, nowMs, hpc⟩
    · exact (h.answers answer hbefore).mono (hchanges answer.1)
    · exact (h.drained call _ _ _ _ hpc).mono (hchanges answer.1)
  · intro call caller me nowMs messages hpc
    rcases hdrained call caller me nowMs messages hpc with hbefore | hhanded
    · exact (h.drained call _ _ _ _ hbefore).mono (hchanges caller)
    · exact hhanded

def TakesOwn (w : PresenceWorld) : HeartbeatPc → Prop
  | .idle => True
  | .beaten caller _ _ stay =>
    stay = (w.history caller).stay ∨ w.registry.inbox caller = []
  | .drained _ _ _ _ => True

/-- Nobody arrives anew while notes wait for them, and no heartbeat of an earlier stay
takes what waits. -/
def Undisturbed (w : PresenceWorld) : PresenceAction → Prop
  | .beats _ caller _ _ nowMs =>
    w.registry.finds caller nowMs = true ∨ w.registry.inbox caller = []
  | .drains call => w.TakesOwn (w.heartbeats call)
  | .counts _ => True
  | .signsOut _ => True
  | .lists _ => True
  | .sends _ _ _ _ => True

instance (w : PresenceWorld) : (pc : HeartbeatPc) → Decidable (w.TakesOwn pc)
  | .idle => isTrue trivial
  | .beaten caller _ _ stay =>
    inferInstanceAs (Decidable (stay = (w.history caller).stay ∨ w.registry.inbox caller = []))
  | .drained _ _ _ _ => isTrue trivial

instance (w : PresenceWorld) : (a : PresenceAction) → Decidable (w.Undisturbed a)
  | .beats _ caller _ _ nowMs =>
    inferInstanceAs (Decidable
      (w.registry.finds caller nowMs = true ∨ w.registry.inbox caller = []))
  | .drains call => inferInstanceAs (Decidable (w.TakesOwn (w.heartbeats call)))
  | .counts _ => isTrue trivial
  | .signsOut _ => isTrue trivial
  | .lists _ => isTrue trivial
  | .sends _ _ _ _ => isTrue trivial

def AnswersSend (w : PresenceWorld) (a : PresenceAction) (t : PresenceWorld) : Prop :=
  ∀ caller req id nowMs recipient message, a = .sends caller req id nowMs →
    noteOf caller req id nowMs = .ok (recipient, message) →
      ((w.registry.postIfOnline recipient message nowMs).1 = none →
        t.registry = w.registry ∧ t.history = w.history) ∧
      ∀ waiting, (w.registry.postIfOnline recipient message nowMs).1 = some waiting →
        t.history = Function.update w.history recipient ((w.history recipient).receives message) ∧
        waiting = (t.registry.inbox recipient).length ∧ waiting ≤ MAX_INBOX

/-- Every note was handed to a heartbeat of the stay it was written to. -/
def HandedInStay (w : PresenceWorld) : Prop :=
  ∀ userId, ∀ h ∈ (w.history userId).handed, ∀ n ∈ h.notes, n.stay = h.stay

theorem step_answersSend (hstep : w.step a = some t) : AnswersSend w a t := by
  rintro caller req id nowMs recipient message rfl hnote
  simp only [step] at hstep
  split_ifs at hstep with hle
  simp only [hnote] at hstep
  rcases postIfOnline_cases w.registry recipient message nowMs with
    ⟨_, hpost⟩ | ⟨_, hpost⟩
  · simp only [hpost] at hstep ⊢
    cases hstep
    refine ⟨?_, ?_⟩
    · intro hnone
      cases hnone
    · intro waiting hwaiting
      cases hwaiting
      refine ⟨rfl, ?_, ?_⟩
      · simp only [after, setHistory]
        rw [inbox_set, if_pos rfl]
      · rw [length_newest]
        exact Nat.min_le_left _ _
  · simp only [hpost] at hstep ⊢
    cases hstep
    refine ⟨fun _ => ⟨rfl, rfl⟩, ?_⟩
    intro waiting hwaiting
    cases hwaiting

theorem step_oneStay (h : w.Sound) (hquiet : w.Undisturbed a)
    (hstay : ∀ userId, (w.history userId).OneStay) (hstep : w.step a = some t) :
    ∀ userId, (t.history userId).OneStay := by
  intro userId
  obtain ⟨_, hchanges⟩ := step_registered h.1 hstep
  have hchange := hchanges userId
  have htells := h.1.tells userId
  have hempty : w.registry.inbox userId = [] → (w.history userId).waiting = [] := by
    intro hnone
    rw [htells.inbox, map_eq_nil_iff] at hnone
    exact newest_eq_nil (by decide) hnone
  generalize t.history userId = later at hchange ⊢
  cases hchange with
  | nothing => exact hstay userId
  | beats _ _ _ nowMs hnow =>
    apply (hstay userId).beats
    rcases hquiet with hfinds | hnone
    · left
      rw [← htells.finds nowMs hnow]
      exact hfinds
    · exact .inr (hempty hnone)
  | takes _ _ _ _ hpc =>
    apply (hstay userId).takes
    simp only [Undisturbed, TakesOwn, hpc] at hquiet
    exact hquiet.imp_right hempty
  | signsOut => exact (hstay userId).signsOut
  | receives _ _ _ _ message => exact (hstay userId).receives message

end PresenceWorld

open PresenceWorld

section Runs

variable {nowMs : Int} {actions : List PresenceAction} {w : PresenceWorld}

theorem sound_of_run (hrun : runActions PresenceWorld.step (.start nowMs) actions = some w) :
    w.Sound ∧ w.Answered := by
  have hpres : ∀ s a t, (s.Sound ∧ s.Answered) → PresenceWorld.step s a = some t → True →
      t.Sound ∧ t.Answered := by
    rintro s a t ⟨hsound, hanswered⟩ hstep _
    exact ⟨hsound.step hstep, hanswered.step hsound.1 hstep⟩
  have hevery : EveryStep PresenceWorld.step (fun _ _ _ => True) (.start nowMs) actions :=
    EveryStep.of_forall (fun _ _ _ _ => trivial) _ _
  exact runActions_invariant hpres ⟨sound_start, answered_start⟩ hevery hrun

/-- **Notes reach their recipient once.**  In every run each person's notes are handed
over at most once, in the order sent and the newest of those waiting, none past a
sign-out, and an inbox holds the newest of what waits; a send that answers no count
stores nothing.  Where nobody arrives anew while notes wait for them, and no heartbeat
of an earlier stay takes what waits, each goes to a heartbeat of the stay it was written
to. -/
theorem notes_handed_over (hrun : runActions PresenceWorld.step (.start nowMs) actions = some w) :
    (∀ userId, (w.history userId).Kept ∧ w.registry.inbox userId =
        (newest MAX_INBOX (w.history userId).waiting).map SentNote.message) ∧
    w.Answered ∧
    EveryStep PresenceWorld.step AnswersSend (.start nowMs) actions ∧
    (EveryStep PresenceWorld.step (fun s a _ => s.Undisturbed a) (.start nowMs) actions →
      w.HandedInStay) := by
  obtain ⟨hsound, hanswered⟩ := sound_of_run hrun
  refine ⟨?_, hanswered, ?_, ?_⟩
  · intro userId
    exact ⟨hsound.2 userId, (hsound.1.tells userId).inbox⟩
  · have hall : ∀ s a t, PresenceWorld.step s a = some t → AnswersSend s a t := by
      intro s a t hstep
      exact step_answersSend hstep
    exact EveryStep.of_forall hall _ _
  · intro hquiet
    have hpres : ∀ s a t, (s.Sound ∧ ∀ userId, (s.history userId).OneStay) →
        PresenceWorld.step s a = some t → s.Undisturbed a →
          t.Sound ∧ ∀ userId, (t.history userId).OneStay := by
      rintro s a t ⟨hs, hstay⟩ hstep hcond
      exact ⟨hs.step hstep, step_oneStay hs hcond hstay hstep⟩
    have hinv : w.Sound ∧ ∀ userId, (w.history userId).OneStay :=
      runActions_invariant hpres ⟨sound_start, fun _ => History.oneStay_nobody⟩ hquiet hrun
    intro userId
    exact (hinv.2 userId).handed

end Runs

private def here : HeartbeatRequest where
  displayName := none
  place := some "specs"
  detail := none

private def ping : SendNoteRequest where
  toUserId := "ann"
  text := "ping"
  fromDisplayName := none

/-- A beat, a note a second later, and the next beat after this long. -/
private def beatsAgain (laterMs : Int) : List PresenceAction :=
  [.beats 0 "ann" "acme" here 0, .drains 0, .counts 0, .sends "bob" ping "m1" 1000,
    .beats 0 "ann" "acme" here laterMs, .drains 0]

private def handedStays (actions : List PresenceAction) : Option (List (Nat × List Nat)) :=
  (runActions PresenceWorld.step (.start 0) actions).map fun w =>
    (w.history "ann").handed.map fun h => (h.stay, h.notes.map SentNote.stay)

/-- A person whose heartbeats go on is handed the note. -/
theorem notes_handed_over_next_beat :
    ∃ w, runActions PresenceWorld.step (.start 0) (beatsAgain 30000) = some w ∧
      (w.history "ann").handed.map (fun h => h.messages.map Message.id) = [[], ["m1"]] ∧
      w.HandedInStay := by
  have hids : (runActions PresenceWorld.step (.start 0) (beatsAgain 30000)).map
      (fun w => (w.history "ann").handed.map fun h => h.messages.map Message.id) =
        some [[], ["m1"]] := by
    decide
  obtain ⟨w, hrun, hmessages⟩ := Option.map_eq_some_iff.mp hids
  have hquiet : EveryStep PresenceWorld.step (fun s a _ => s.Undisturbed a) (.start 0)
      (beatsAgain 30000) := by
    have hpasses : passes PresenceWorld.step (fun s a => decide (s.Undisturbed a)) (.start 0)
        (beatsAgain 30000) = true := by
      decide
    refine EveryStep.of_passes ?_ hpasses
    intro s a _ h
    exact of_decide_eq_true h
  exact ⟨w, hrun, hmessages, (notes_handed_over hrun).2.2.2 hquiet⟩

/-- A person who lapsed is handed what waited. -/
theorem note_of_an_earlier_stay :
    ¬ ∀ nowMs actions w,
      runActions PresenceWorld.step (.start nowMs) actions = some w → w.HandedInStay := by
  intro hclaim
  have hstays : handedStays (beatsAgain 100000) = some [(1, []), (2, [1])] := by
    decide
  obtain ⟨w, hrun, hhanded⟩ := Option.map_eq_some_iff.mp hstays
  have hstay := hclaim 0 _ w hrun "ann"
  have hall : ∀ p ∈ (w.history "ann").handed.map fun h => (h.stay, h.notes.map SentNote.stay),
      ∀ s ∈ p.2, s = p.1 := by
    intro p hp s hs
    obtain ⟨h, hmem, rfl⟩ := mem_map.mp hp
    obtain ⟨n, hn, rfl⟩ := mem_map.mp hs
    exact hstay h hmem n hn
  rw [hhanded] at hall
  exact absurd (hall (2, [1]) (by decide) 1 (by decide)) (by decide)
end Presence
end StudioWeb
