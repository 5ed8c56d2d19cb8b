import StudioWeb.EventStream.ReplaySteps
import Mathlib.Algebra.GroupWithZero.Nat

/-!
# The events a stream hands over

A run keeps what a stream hands over a prefix of what is published after its starting cursor,
as long as every answer is handled in order.
-/

namespace StudioWeb
namespace EventStream

open LabelledRuns List Option World

universe u v

variable {E : Type u} {C : Type v} {p : Resume E C}

theorem frameEvents_write {lines : List (List Char)} {text : List Char} (hlines : WireLines lines)
    (hwhole : (takeFrames text).2 = []) :
    (takeFrames (text ++ frameText lines)).2 = [] ∧
      (takeFrames (text ++ frameText lines)).1.filterMap p.frameEvent =
        (takeFrames text).1.filterMap p.frameEvent ++ (p.frameEvent (frameBody lines)).toList := by
  rw [takeFrames_write hlines hwhole]
  refine ⟨rfl, ?_⟩
  rw [filterMap_append]
  cases hevent : p.frameEvent (frameBody lines) with
  | none => simp [hevent]
  | some => simp [hevent]

variable [LinearOrder C]

section Invariant

/-- What is not read of a connection is whole frames, and they follow what is read of it. -/
def WireInv (w : World p) (wire : Wire) : Prop :=
  match w.phase with
  | .connecting =>
    wire.since ≤ w.published.length ∧ (takeFrames wire.text).2 = [] ∧
      w.published.drop wire.since = (takeFrames wire.text).1.filterMap p.frameEvent
  | .reading buffer =>
    (takeFrames (buffer ++ wire.text)).2 = [] ∧ (w.source.readyState ≠ .closed →
        Follows w.published w.opened w.source
          ((takeFrames (buffer ++ wire.text)).1.filterMap p.frameEvent))
  | _ => False

/-- What a replay in flight is about. -/
structure ReplayInv (w : World p) (r : Replay C) : Prop where
  after_le : r.after ≤ w.source.cursor
  count_le : ∀ count, r.answer = some (.upTo count) → count ≤ w.published.length
  connection_le : r.connection ≤ w.connection
  own : r.connection = w.connection → ∀ count, r.answer = some (.upTo count) → w.opened ≤ count

structure Inv (start : C) (w : World p) : Prop where
  increasing : Increasing w.published
  handed : Handed w.published start w.source
  opened_le : w.opened ≤ w.published.length
  held : HeldFrom w.published w.opened w.source
  wire : ∀ wire, w.wire = some wire → WireInv w wire
  replays : ∀ r ∈ w.replays, ReplayInv w r

theorem ReplayInv.of_cursor {w t : World p} {r : Replay C} (h : ReplayInv w r)
    (hcursor : w.source.cursor ≤ t.source.cursor)
    (hpublished : w.published.length ≤ t.published.length)
    (hconnection : t.connection = w.connection) (hopened : t.opened = w.opened) :
    ReplayInv t r := by
  constructor
  · exact le_trans h.after_le hcursor
  · exact fun count hcount => le_trans (h.count_le count hcount) hpublished
  · rw [hconnection]
    exact h.connection_le
  · rw [hconnection, hopened]
    exact h.own

variable {start : C} {w : World p}

theorem Handed.publish {published : List (Published p)} {s : Source E C} {e : Published p}
    (h : Handed published start s) (hlast : ∀ x ∈ published, x.cursor < e.cursor) :
    Handed (published ++ [e]) start s := by
  have hnot : ¬ (start < e.cursor ∧ e.cursor ≤ s.cursor) := by
    rintro ⟨hstart, hle⟩
    rcases h.reached with heq | ⟨x, hx, heq⟩
    · rw [heq] at hle
      exact absurd hstart (not_lt_of_ge hle)
    · rw [← heq] at hle
      exact absurd (hlast x hx) (not_lt_of_ge hle)
  constructor
  · refine h.isPrefix.trans ?_
    unfold after
    rw [filter_append]
    exact prefix_append _ _
  · intro hlive
    rw [h.upToCursor hlive]
    unfold upTo
    rw [filter_append, filter_cons_of_neg (by simpa using hnot)]
    simp
  · exact h.start_le
  · rcases h.reached with heq | ⟨x, hx, heq⟩
    · exact Or.inl heq
    · exact Or.inr ⟨x, mem_append_left [e] hx, heq⟩

theorem Follows.publish
    {published events : List (Published p)} {opened : Nat} {s : Source E C} {e : Published p}
    (h : Follows published opened s events) (hopened : opened ≤ published.length) :
    Follows (published ++ [e]) opened s (events ++ [e]) := by
  constructor
  · intro payloads hpayloads
    rw [drop_append_of_le_length hopened, h.held payloads hpayloads, append_assoc]
  · intro hnone
    obtain ⟨before, hsplit, hbefore⟩ := h.unheld hnone
    exact ⟨before, by rw [hsplit, append_assoc], hbefore⟩

theorem inv_disconnect (hincreasing : Increasing w.published)
    (hhanded : Handed w.published start w.source) (hopened : w.opened ≤ w.published.length)
    (hheld : HeldFrom w.published w.opened w.source) (hreplays : ∀ r ∈ w.replays, ReplayInv w r) :
    Inv start w.disconnect := by
  have hsource : w.disconnect.source.handed = w.source.handed ∧
      w.disconnect.source.cursor = w.source.cursor ∧
      w.disconnect.source.held = w.source.held ∧
      (w.disconnect.source.isLive = true → w.source.isLive = true) := by
    unfold disconnect
    simp only
    split
    · exact ⟨rfl, rfl, rfl, id⟩
    · next hopen =>
      refine ⟨rfl, rfl, rfl, ?_⟩
      rw [Source.isLive_iff, Source.isLive_iff]
      exact fun hlive => ⟨hopen, hlive.2⟩
  exact
    { increasing := hincreasing
      handed := hhanded.of_same hsource.1 hsource.2.1 hsource.2.2.2
      opened_le := hopened
      held := hheld.of_delivers hsource.2.2.1
      wire := nofun
      replays := fun r hr => (hreplays r hr).of_cursor (le_of_eq hsource.2.1.symm)
        (le_refl _) rfl rfl }

theorem Inv.of_source {w t : World p} (hinv : Inv start w)
    (hsource : t.source = w.source) (hpublished : t.published = w.published)
    (hopened : t.opened = w.opened) (hwire : ∀ wire, t.wire = some wire → WireInv t wire)
    (hreplays : ∀ r ∈ t.replays, ReplayInv t r) : Inv start t := by
  exact
    { increasing := hpublished ▸ hinv.increasing
      handed := hpublished ▸ hsource ▸ hinv.handed
      opened_le := hpublished ▸ hopened ▸ hinv.opened_le
      held := hpublished ▸ hopened ▸ hsource ▸ hinv.held
      wire := hwire
      replays := hreplays }

theorem Inv.disconnect (hinv : Inv start w) : Inv start w.disconnect :=
  inv_disconnect hinv.increasing hinv.handed hinv.opened_le hinv.held hinv.replays

theorem inv_answered {i connection : Nat} {after_ : C} {answer : Answer}
    (hinv : Inv start w) (hreplay : w.replays[i]? = some ⟨connection, after_, none⟩)
    (hcount : ∀ count, answer = .upTo count → count = w.published.length) :
    Inv start { w with replays := w.replays.set i ⟨connection, after_, some answer⟩ } := by
  have hwas := hinv.replays _ (mem_of_getElem? hreplay)
  refine hinv.of_source rfl rfl rfl hinv.wire ?_
  intro r hr
  rcases mem_or_eq_of_mem_set hr with hr | rfl
  · exact (hinv.replays r hr).of_cursor (le_refl _) (le_refl _) rfl rfl
  · refine ⟨hwas.after_le, ?_, hwas.connection_le, ?_⟩
    · rintro count ⟨⟩
      exact le_of_eq (hcount count rfl)
    · rintro _ count ⟨⟩
      rw [hcount count rfl]
      exact hinv.opened_le

end Invariant

section Steps

variable [Zero C] {consumer : Consumer E} {start : C} {w t : World p}

/-- An answer is handled in order, unless the stream is over. -/
def AnswerInOrder (consumer : Consumer E) (w : World p) : Option (Replay C) → Prop
  | some ⟨_, after_, some (.upTo count)⟩ =>
    w.source.isLive = true → InOrder consumer w.published w.opened w.source after_ count
  | _ => True

def Meets (consumer : Consumer E) (w : World p) : Action → Prop
  | .settles i => AnswerInOrder consumer w w.replays[i]?
  | _ => True

theorem inv_publish {headers payload : List (List Char)} (hinv : Inv start w)
    (hstep : w.step consumer (.publish headers payload) = some t) : Inv start t := by
  simp only [step] at hstep
  split at hstep
  · cases hstep
  · next e hevent =>
    split at hstep
    · next hguard =>
      obtain ⟨hheaders, hpayload, hne, hlast⟩ := hguard
      cases hstep
      have hlines : WireLines (messageLines headers payload) :=
        wireLines_message hheaders hpayload hne
      have hframe : p.frameEvent (frameBody (messageLines headers payload)) = some e := by
        unfold Resume.frameEvent
        rw [parseFrame_dataLines hheaders hpayload hne]
        exact hevent
      refine
        { increasing := ?_
          handed := hinv.handed.publish hlast
          opened_le := le_trans hinv.opened_le (length_append ▸ Nat.le_add_right _ _)
          held := hinv.held.publish hinv.opened_le
          wire := ?_
          replays := fun r hr => (hinv.replays r hr).of_cursor (le_refl _)
            (length_append ▸ Nat.le_add_right _ _) rfl rfl }
      · refine pairwise_append.mpr ⟨hinv.increasing, pairwise_singleton _ e, ?_⟩
        intro x hx y hy
        rw [mem_singleton.mp hy]
        exact hlast x hx
      · intro wire hwire
        obtain ⟨old, hold, rfl⟩ := map_eq_some_iff.mp hwire
        have hwas := hinv.wire old hold
        unfold WireInv at hwas ⊢
        simp only [send]
        split at hwas
        · next =>
          obtain ⟨hsince, hwhole, hevents⟩ := hwas
          obtain ⟨hstill, hmore⟩ := @frameEvents_write _ _ p _ _ hlines hwhole
          refine ⟨le_trans hsince (length_append ▸ Nat.le_add_right _ _), hstill, ?_⟩
          rw [hmore, hframe, drop_append_of_le_length hsince, hevents]
          rfl
        · next _ _ =>
          obtain ⟨hwhole, hfollows⟩ := hwas
          obtain ⟨hstill, hmore⟩ := @frameEvents_write _ _ p _ _ hlines hwhole
          rw [← append_assoc]
          refine ⟨hstill, fun hopen => ?_⟩
          rw [hmore, hframe]
          exact (hfollows hopen).publish hinv.opened_le
        · exact hwas.elim
    · cases hstep

theorem inv_write {lines : List (List Char)} (hinv : Inv start w)
    (hstep : w.step consumer (.write lines) = some t) : Inv start t := by
  simp only [step] at hstep
  split at hstep
  · next hguard =>
    obtain ⟨hne, hsolid, hnone⟩ := hguard
    cases hstep
    have hlines : WireLines lines := ⟨hne, hsolid⟩
    have hframe : p.frameEvent (frameBody lines) = none := isNone_iff_eq_none.mp hnone
    refine
      { increasing := hinv.increasing
        handed := hinv.handed
        opened_le := hinv.opened_le
        held := hinv.held
        wire := ?_
        replays := fun r hr => (hinv.replays r hr).of_cursor (le_refl _) (le_refl _) rfl rfl }
    intro wire hwire
    obtain ⟨old, hold, rfl⟩ := map_eq_some_iff.mp hwire
    have hwas := hinv.wire old hold
    unfold WireInv at hwas ⊢
    simp only [send]
    split at hwas
    · next =>
      obtain ⟨hsince, hwhole, hevents⟩ := hwas
      obtain ⟨hstill, hmore⟩ := @frameEvents_write _ _ p _ _ hlines hwhole
      refine ⟨hsince, hstill, ?_⟩
      rw [hmore, hframe, hevents]
      simp
    · next _ _ =>
      obtain ⟨hwhole, hfollows⟩ := hwas
      obtain ⟨hstill, hmore⟩ := @frameEvents_write _ _ p _ _ hlines hwhole
      rw [← append_assoc]
      refine ⟨hstill, fun hopen => ?_⟩
      rw [hmore, hframe]
      simpa using hfollows hopen
    · exact hwas.elim
  · cases hstep

section

variable (hfrom : p.fromCursor = some start)
include hfrom

theorem inv_accepts (hinv : Inv start w)
    (hstep : w.step consumer .accepts = some t) : Inv start t := by
  simp only [step] at hstep
  split at hstep
  · next wire hphase hwire =>
    split at hstep
    · cases hstep
    · next hopen =>
      cases hstep
      have hwas := hinv.wire wire hwire
      unfold WireInv at hwas
      rw [hphase] at hwas
      obtain ⟨hsince, hwhole, hevents⟩ := hwas
      have hresumed : Handed w.published start { w.source with readyState := .open_ } := by
        refine hinv.handed.of_same rfl rfl ?_
        rw [Source.isLive_iff, Source.isLive_iff]
        exact fun hlive => ⟨hopen, hlive.2⟩
      have htold : Handed w.published start
          ({ w.source with readyState := .open_ }.call consumer .opened).1 :=
        hresumed.call nofun
      unfold accept
      simp only
      split
      · exact inv_disconnect hinv.increasing htold hinv.opened_le (hinv.held.of_delivers rfl)
          (fun r hr => (hinv.replays r hr).of_cursor (le_refl _) (le_refl _) rfl rfl)
      · rw [if_pos (by simp [Source.asks, hfrom])]
        refine
          { increasing := hinv.increasing
            handed := htold.of_same rfl rfl id
            opened_le := hsince
            held := ?_
            wire := ?_
            replays := ?_ }
        · rintro _ ⟨⟩
          exact ⟨w.published.drop wire.since, rfl⟩
        · intro other hother
          rw [hwire] at hother
          cases hother
          refine ⟨hwhole, fun _ => ⟨?_, nofun⟩⟩
          rintro _ ⟨⟩
          exact hevents
        · intro r hr
          rcases mem_append.mp hr with hr | hr
          · have hwas := hinv.replays r hr
            have hbefore := hwas.connection_le
            have hother : r.connection ≠ w.connection + 1 := by omega
            exact ⟨hwas.after_le, hwas.count_le, Nat.le_succ_of_le hbefore,
              fun hown => absurd hown hother⟩
          · rw [mem_singleton.mp hr]
            exact ⟨le_refl _, nofun, le_refl _, fun _ => nofun⟩
  · cases hstep

omit hfrom in
theorem inv_chunk {length : Nat} (hinv : Inv start w)
    (hstep : w.step consumer (.chunk length) = some t) : Inv start t := by
  simp only [step] at hstep
  split at hstep
  · next buffer wire hphase hwire =>
    split at hstep
    · cases hstep
    · next _ =>
      cases hstep
      have hwas := hinv.wire wire hwire
      unfold WireInv at hwas
      rw [hphase] at hwas
      obtain ⟨hwhole, hfollows⟩ := hwas
      have hcut : buffer ++ wire.text = (buffer ++ wire.text.take length) ++
          wire.text.drop length := by
        rw [append_assoc, take_append_drop]
      rw [hcut, takeFrames_append] at hwhole hfollows
      simp only [filterMap_append] at hwhole hfollows
      have hread := @readFrames_spec _ _ _ _ consumer _ start _ hinv.increasing _ _ _
        hinv.handed hinv.held hfollows
      have hreplays : ∀ r ∈ w.replays, ∀ u : World p, u.source.cursor =
          (readFrames p consumer w.source
            (takeFrames (buffer ++ wire.text.take length)).1).1.cursor →
          u.published = w.published → u.connection = w.connection → u.opened = w.opened →
          ReplayInv u r := by
        intro r hr u hcursor hpublished hconnection hopened
        refine (hinv.replays r hr).of_cursor ?_ (le_of_eq ?_) hconnection hopened
        · rw [hcursor]
          exact hread.cursor
        · rw [hpublished]
      unfold settled
      split
      · exact inv_disconnect hinv.increasing hread.handed hinv.opened_le hread.held
          (fun r hr => hreplays r hr _ rfl rfl rfl rfl)
      · next hfine =>
        refine
          { increasing := hinv.increasing
            handed := hread.handed
            opened_le := hinv.opened_le
            held := hread.held
            wire := ?_
            replays := fun r hr => hreplays r hr _ rfl rfl rfl rfl }
        intro other hother
        cases hother
        exact ⟨hwhole, hread.follows (by simpa using hfine)⟩
  · cases hstep

theorem inv_settles {i : Nat} (hinv : Inv start w)
    (hmeets : Meets consumer w (.settles i)) (hstep : w.step consumer (.settles i) = some t) :
    Inv start t := by
  simp only [step] at hstep
  split at hstep
  · next connection after_ answer hreplay =>
    cases hstep
    have hin : ⟨connection, after_, some answer⟩ ∈ w.replays := mem_of_getElem? hreplay
    have hwas := hinv.replays _ hin
    have hsettles : Settles w.published start w.opened w.source
        (w.source.settle p consumer (answer.missed w.published after_)).1 := by
      cases answer with
      | refused => exact settle_refused hfrom hinv.handed
      | upTo =>
        have horder : AnswerInOrder consumer w w.replays[i]? := hmeets
        rw [hreplay] at horder
        exact settle_spec hinv.increasing hinv.handed hwas.after_le hinv.held horder
    refine
      { increasing := hinv.increasing
        handed := hsettles.handed
        opened_le := hinv.opened_le
        held := ?_
        wire := ?_
        replays := fun r hr => (hinv.replays r (mem_of_mem_eraseIdx hr)).of_cursor
          hsettles.cursor (le_refl _) rfl rfl }
    · intro payloads hpayloads
      rw [hsettles.unheld] at hpayloads
      cases hpayloads
    · intro wire hwire
      have hwire := hinv.wire wire hwire
      unfold WireInv at hwire ⊢
      simp only
      split at hwire
      · exact hwire
      · next _ _ =>
        refine ⟨hwire.1, fun hopen => ?_⟩
        have hfollows := hwire.2 (fun hclosed => hopen (hsettles.closed hclosed))
        refine ⟨?_, fun _ => ?_⟩
        · intro payloads hpayloads
          rw [hsettles.unheld] at hpayloads
          cases hpayloads
        · cases hheld : w.source.held with
          | none =>
            obtain ⟨before, hsplit, hbefore⟩ := hfollows.unheld hheld
            exact ⟨before, hsplit, fun hlive x hx =>
              le_trans (hbefore (hsettles.live hlive) x hx) hsettles.cursor⟩
          | some payloads =>
            have hdrop := hfollows.held payloads hheld
            refine ⟨w.published.take w.opened ++ eventsOf p payloads, ?_, ?_⟩
            · rw [append_assoc, ← hdrop, take_append_drop]
            · exact fun hlive => hsettles.reached hlive payloads hheld
      · exact hwire.elim
  · cases hstep

omit hfrom in
theorem inv_opens (hinv : Inv start w) (hstep : w.step consumer .opens = some t) : Inv start t := by
  simp only [step] at hstep
  split at hstep
  · next hphase =>
    split at hstep
    · cases hstep
    · cases hstep
      refine hinv.of_source rfl rfl rfl ?_
        (fun r hr => (hinv.replays r hr).of_cursor (le_refl _) (le_refl _) rfl rfl)
      rintro wire ⟨⟩
      unfold WireInv
      simp only [hphase]
      exact ⟨le_refl _, rfl, by simp [takeFrames, takeFramesFrom]⟩
  · cases hstep

theorem inv_forbids (hinv : Inv start w)
    (hstep : w.step consumer .forbids = some t) : Inv start t := by
  simp only [step] at hstep
  split at hstep
  · split at hstep
    · cases hstep
    · cases hstep
      obtain ⟨hhanded, hdelivers, _⟩ := @end_spec _ _ _ _ consumer _ _ _ hinv.handed
      have htold : Handed w.published start ((w.source.end_ consumer).1.call consumer .error).1 :=
        hhanded.call nofun
      have hcalled := hdelivers.trans (delivers_call consumer (w.source.end_ consumer).1 .error)
      simp only [hfrom, isSome_some, if_pos]
      split
      · exact
          { increasing := hinv.increasing
            handed := hhanded
            opened_le := hinv.opened_le
            held := hinv.held.of_delivers hdelivers.held
            wire := nofun
            replays := fun r hr => (hinv.replays r hr).of_cursor hdelivers.cursor (le_refl _)
              rfl rfl }
      · exact
          { increasing := hinv.increasing
            handed := htold
            opened_le := hinv.opened_le
            held := hinv.held.of_delivers hcalled.held
            wire := nofun
            replays := fun r hr => (hinv.replays r hr).of_cursor hcalled.cursor (le_refl _)
              rfl rfl }
  · cases hstep

/-- What every step preserves. -/
theorem inv_step {a : Action} (hinv : Inv start w)
    (hmeets : Meets consumer w a) (hstep : w.step consumer a = some t) : Inv start t := by
  cases a with
  | publish => exact inv_publish hinv hstep
  | write => exact inv_write hinv hstep
  | opens => exact inv_opens hinv hstep
  | refuses =>
    simp only [step] at hstep
    split at hstep
    · cases hstep
      exact hinv.of_source rfl rfl rfl nofun
        (fun r hr => (hinv.replays r hr).of_cursor (le_refl _) (le_refl _) rfl rfl)
    · cases hstep
  | forbids => exact inv_forbids hfrom hinv hstep
  | accepts => exact inv_accepts hfrom hinv hstep
  | chunk => exact inv_chunk hinv hstep
  | cut =>
    simp only [step] at hstep
    split at hstep
    · cases hstep
      exact hinv.disconnect
    · cases hstep
  | bodyEnds =>
    simp only [step] at hstep
    split at hstep
    · cases hstep
      exact hinv.of_source rfl rfl rfl nofun
        (fun r hr => (hinv.replays r hr).of_cursor (le_refl _) (le_refl _) rfl rfl)
    · cases hstep
  | resumes =>
    simp only [step] at hstep
    split at hstep
    · split at hstep
      · cases hstep
        exact hinv.disconnect
      · cases hstep
    · cases hstep
  | answers =>
    simp only [step] at hstep
    split at hstep
    · next hreplay =>
      cases hstep
      exact inv_answered hinv hreplay (by rintro count ⟨⟩; rfl)
    · cases hstep
  | rejects =>
    simp only [step] at hstep
    split at hstep
    · next hreplay =>
      cases hstep
      exact inv_answered hinv hreplay nofun
    · cases hstep
  | settles => exact inv_settles hfrom hinv hmeets hstep
  | closes =>
    cases hstep
    refine
      { increasing := hinv.increasing
        handed := hinv.handed.of_same rfl rfl (by simp [Source.isLive])
        opened_le := hinv.opened_le
        held := hinv.held
        wire := ?_
        replays := fun r hr => (hinv.replays r hr).of_cursor (le_refl _) (le_refl _) rfl rfl }
    intro wire hwire
    have hwas := hinv.wire wire hwire
    unfold WireInv at hwas ⊢
    simp only
    split at hwas
    · exact hwas
    · exact ⟨hwas.1, fun hopen => absurd rfl hopen⟩
    · exact hwas.elim

theorem inv_start : Inv start (World.start p) := by
  have hcursor : (Source.new p).cursor = start := by
    simp [Source.new, hfrom]
  refine
    { increasing := List.Pairwise.nil
      handed := ⟨prefix_refl [], fun _ => rfl, le_of_eq hcursor.symm, Or.inl hcursor⟩
      opened_le := le_refl _
      held := nofun
      wire := nofun
      replays := nofun }

end

end Steps

section Runs

variable [Zero C]

theorem inv_run {consumer : Consumer E} {start : C} {actions : List Action} {w : World p}
    (hfrom : p.fromCursor = some start)
    (hrun : runActions (step consumer) (World.start p) actions = some w)
    (hmeets : EveryStep (step consumer) (fun u a _ => Meets consumer u a)
      (World.start p) actions) :
    Inv start w := by
  have hpres : ∀ u a t, Inv start u → u.step consumer a = some t → Meets consumer u a →
      Inv start t :=
    fun _ _ _ hinv hstep hmeet => inv_step hfrom hinv hmeet hstep
  exact runActions_invariant hpres (inv_start hfrom) hmeets hrun

/-- What a run hands over, up to the moment the stream is closed or ended, is a prefix of what is
published after its starting cursor. -/
theorem handed_prefix_of_published (p : Resume E C) (consumer : Consumer E) (start : C)
    (actions : List Action) (w : World p) (hfrom : p.fromCursor = some start)
    (hrun : runActions (step consumer) (World.start p) actions = some w)
    (hmeets : EveryStep (step consumer) (fun u a _ => Meets consumer u a)
      (World.start p) actions) :
    Increasing w.published ∧
      w.source.handed.filterMap p.eventOf <+: after w.published start := by
  have hinv := inv_run hfrom hrun hmeets
  exact ⟨hinv.increasing, hinv.handed.isPrefix⟩

instance (consumer : Consumer E) (w : World p) :
    ∀ r : Option (Replay C), Decidable (AnswerInOrder consumer w r)
  | some ⟨_, after_, some (.upTo count)⟩ =>
    have : Decidable (InOrder consumer w.published w.opened w.source after_ count) :=
      have : Decidable (w.source.held = none) := decidable_of_iff _ isNone_iff_eq_none
      inferInstanceAs (Decidable (_ ∧ _))
    inferInstanceAs (Decidable (_ → _))
  | some ⟨_, _, some .refused⟩ => isTrue trivial
  | some ⟨_, _, none⟩ => isTrue trivial
  | none => isTrue trivial

instance (consumer : Consumer E) (w : World p) : ∀ a : Action, Decidable (Meets consumer w a)
  | .settles i => inferInstanceAs (Decidable (AnswerInOrder consumer w w.replays[i]?))
  | .publish _ _ | .write _ | .opens | .refuses | .forbids | .accepts | .chunk _ | .cut
  | .bodyEnds | .resumes | .answers _ | .rejects _ | .closes => isTrue trivial

/-- Events that are their own cursors, from zero on. -/
def numbers : Resume Nat Nat where
  parse := fun text => text.head?.map (fun c => c.toNat - 48)
  stringify := fun n => Nat.toDigits 10 n
  cursorOf := some
  fromCursor := some 0

def quiet : Consumer Nat :=
  fun _ => ⟨false, false⟩

/-- A first connection, whose replay is answered between two of its frames. -/
def firstConnection : List Action :=
  [.publish [] [['1']], .opens, .publish [] [['2']], .accepts, .chunk 4, .answers 0,
    .publish [] [['3']], .settles 0, .chunk 100]

def afterFirstConnection : World numbers :=
  (runActions (step quiet) (World.start numbers) firstConnection).get (by decide +kernel)

theorem first_connection_hands_over :
    Increasing afterFirstConnection.published ∧
      afterFirstConnection.source.handed.filterMap numbers.eventOf <+:
        after afterFirstConnection.published 0 :=
  handed_prefix_of_published numbers quiet 0 firstConnection afterFirstConnection rfl
    (some_get _).symm (by decide +kernel)

example : afterFirstConnection.source.handed.filterMap (·.event) = [1, 2, 3] := by
  decide +kernel

/-- The answer to the replay of a connection that is gone lets the frames of the next one through,
before what it was opened with is replayed. -/
def cutWhileReplaying : List Action :=
  [.opens, .publish [] [['1']], .accepts, .answers 0, .cut, .publish [] [['2']], .opens, .accepts,
    .publish [] [['3']], .chunk 100, .settles 0]

theorem cut_while_replaying_loses_an_event :
    ¬ ∀ w, runActions (step quiet) (World.start numbers) cutWhileReplaying = some w →
      w.source.handed.filterMap numbers.eventOf <+: after w.published 0 := by
  intro h
  have hsome : (runActions (step quiet) (World.start numbers) cutWhileReplaying).isSome =
      true := by
    decide +kernel
  obtain ⟨w, hw⟩ := isSome_iff_exists.mp hsome
  have hnumbers : (runActions (step quiet) (World.start numbers) cutWhileReplaying).map
      (fun w => (w.source.handed.filterMap numbers.eventOf).map (·.event)) = some [1, 3] := by
    decide +kernel
  have hpublished : (runActions (step quiet) (World.start numbers) cutWhileReplaying).map
      (fun w => (after w.published 0).map (·.event)) = some [1, 2, 3] := by
    decide +kernel
  rw [hw, map_some, some.injEq] at hnumbers hpublished
  have hstarts := (h w hw).map (·.event)
  rw [hnumbers, hpublished] at hstarts
  exact absurd hstarts (by decide)

end Runs

end EventStream
end StudioWeb
