import StudioWeb.Product.DescriptionCalls

/-!
# Revisions are one line of edits

What holds of every run of calls that save one description, and when the record names the
latest revision once they have all returned.

**Results.** `revisions_are_one_line`.
* `invariant_step`: the numbering, the log and what each call may say of itself.
* `awaited_step`: the record is right, or a call is still at work on the latest revision.
-/

namespace StudioWeb
namespace Product

open LabelledRuns

namespace DescriptionWorld

section Spec

variable (s : DescriptionWorld)

/-- The call has written nothing. -/
def WroteNothing (call : Nat) : Prop := ∀ e, (call, e) ∉ s.log

/-- The call has inserted the revision, which is kept; and its base was the one before. -/
structure Wrote (call : Nat) (c : SaveCall) (r : Revision) : Prop where
  inserted : ∃ made, (call, Effect.inserted made) ∈ s.log ∧ made.unlocked = r.unlocked
  kept : Kept s.rows r
  base : r.revision = 1 ∨ c.base = some (r.revision - 1)

def Answered (call : Nat) (c : SaveCall) (saved : Saved) : Prop :=
  s.calls call = some (c, .returned (.ok saved))

def AllReturned : Prop := ∀ call c pc, s.calls call = some (c, pc) → ∃ answer, pc = .returned answer

/-- The record's `description` names the latest revision, with that revision's lock. -/
def NamesLatest : Prop :=
  ∀ l, latest s.rows = some l →
    ∃ d, s.record.bind ProductRecord.description = some d ∧ d.revision = l.revision ∧
      d.sha256 = l.sha256 ∧ d.sourcesLock = l.sourcesLock

end Spec

end DescriptionWorld

/-- A project when the calls start. -/
structure KeptProject where
  rows : List Revision
  record : Option ProductRecord
  numbered : Numbered rows
  named : DescriptionWorld.NamesLatest ⟨rows, record, fun _ => none, []⟩

def KeptProject.unsaved (record : Option ProductRecord) : KeptProject where
  rows := []
  record := record
  numbered := numbered_nil
  named := nofun

namespace DescriptionWorld

def started (project : KeptProject) : DescriptionWorld :=
  ⟨project.rows, project.record, fun _ => none, []⟩

section Condition

variable (s : DescriptionWorld)

/-- The call carries the latest revision, with the lock that is kept beside it. -/
def Carries (call : Nat) : Prop :=
  ∃ c pc r l, s.calls call = some (c, pc) ∧ pc.carried = some r ∧
    latest s.rows = some l ∧ r.revision = l.revision ∧ r.sourcesLock = l.sourcesLock

/-- The call is still at work on the latest revision: it is about to keep a lock beside it,
or to record it with the lock that is kept. -/
def AtWork (call : Nat) : Prop :=
  (∃ c o saved l, s.calls call = some (c, .pinning o saved) ∧ latest s.rows = some l ∧
    saved.kept.revision = l.revision) ∨
  (∃ c o saved l, s.calls call = some (c, .recording o saved) ∧ latest s.rows = some l ∧
    saved.kept.revision = l.revision ∧ saved.kept.sourcesLock = l.sourcesLock)

/-- The record is right, or a call other than this one is still at work on it. -/
def LeftTo (call : Nat) : Prop := s.NamesLatest ∨ ∃ other, other ≠ call ∧ s.AtWork other

/-- A record that is right is only written as it is, and a write that fails leaves it right
or leaves it to another call. -/
def Steady : DescriptionAction → Prop
  | .moves call .records => s.NamesLatest → s.Carries call
  | .moves call .pinFails => s.Carries call ∨ s.LeftTo call
  | .moves call .recordFails => s.LeftTo call
  | _ => True

end Condition

section Invariant

/-- What a call may say of itself, by where it is. -/
def Honest (s : DescriptionWorld) (call : Nat) (c : SaveCall) : SavePc → Prop
  | .opening => s.WroteNothing call
  | .reading _ => s.WroteNothing call
  | .inserting _ made =>
    s.WroteNothing call ∧ 1 ≤ made.revision ∧ made.revision ≤ s.rows.length + 1 ∧
      (made.revision = 1 ∨ c.base = some (made.revision - 1))
  | .rereading _ _ _ => s.WroteNothing call
  | .pinning _ saved =>
    Kept s.rows saved.kept ∧ (∀ r, saved = .created r → s.Wrote call c r) ∧ ∀ r, saved ≠ .stale r
  | .recording _ saved =>
    Kept s.rows saved.kept ∧ (∀ r, saved = .created r → s.Wrote call c r) ∧ ∀ r, saved ≠ .stale r
  | .returned (.error _) => True
  | .returned (.ok saved) =>
    (∀ r, saved = .created r → s.Wrote call c r) ∧ ∀ r, saved = .stale r → s.WroteNothing call

structure Invariant (s : DescriptionWorld) : Prop where
  numbered : Numbered s.rows
  honest : ∀ call c pc, s.calls call = some (c, pc) → s.Honest call c pc
  logged : ∀ call e, (call, e) ∈ s.log → s.calls call ≠ none
  kept : ∀ call made, (call, Effect.inserted made) ∈ s.log → Kept s.rows made
  once : ∀ call other made made', (call, Effect.inserted made) ∈ s.log →
    (other, Effect.inserted made') ∈ s.log → made.revision = made'.revision → call = other

variable {s t : DescriptionWorld} {call other : Nat} {c : SaveCall} {pc : SavePc}
variable {effect : Option Effect} {e : Effect} {r : Revision}

@[simp] theorem wroteNothing_goto : (s.goto call c pc).WroteNothing other ↔ s.WroteNothing other :=
  Iff.rfl

@[simp] theorem wrote_goto {d : SaveCall} :
    (s.goto call c pc).Wrote other d r ↔ s.Wrote other d r :=
  ⟨fun h => ⟨h.inserted, h.kept, h.base⟩, fun h => ⟨h.inserted, h.kept, h.base⟩⟩

theorem honest_goto {d : SaveCall} {p : SavePc} :
    (s.goto call c pc).Honest other d p ↔ s.Honest other d p := by
  cases p with
  | returned answer => cases answer <;> simp [Honest]
  | _ => simp [Honest]

theorem mem_log_writes :
    (other, e) ∈ (s.writes call effect).log ↔
      (other, e) ∈ s.log ∨ other = call ∧ effect = some e := by
  cases effect with
  | none => simp [writes]
  | some =>
    simp only [writes, write, Option.elim_some, List.mem_append, List.mem_singleton,
      Prod.mk.injEq, Option.some.injEq]
    exact or_congr_right (and_congr_right fun _ => eq_comm)

theorem kept_writes (h : Kept s.rows r) : Kept (s.writes call effect).rows r := by
  cases effect with
  | none => exact h
  | some e =>
    cases e with
    | inserted => exact kept_append.mpr (.inl h)
    | locked => exact kept_setLock.mpr h
    | recorded => exact h

theorem length_writes_le : s.rows.length ≤ (s.writes call effect).rows.length := by
  cases effect with
  | none => exact le_refl _
  | some e =>
    cases e with
    | inserted =>
      simp only [writes, write, Option.elim_some, List.length_append]
      omega
    | locked => exact le_of_eq length_setLock.symm
    | recorded => exact le_refl _

theorem wroteNothing_writes (h : s.WroteNothing other) (hother : other = call → effect = none) :
    (s.writes call effect).WroteNothing other := by
  intro e he
  rcases mem_log_writes.mp he with hold | ⟨hcall, hnew⟩
  · exact h e hold
  · rw [hother hcall] at hnew
    cases hnew

theorem wrote_writes (h : s.Wrote other c r) : (s.writes call effect).Wrote other c r := by
  obtain ⟨made, hmade, hsame⟩ := h.inserted
  exact ⟨⟨made, mem_log_writes.mpr (.inl hmade), hsame⟩, kept_writes h.kept, h.base⟩

theorem honest_writes (h : s.Honest other c pc) (hother : other = call → effect = none) :
    (s.writes call effect).Honest other c pc := by
  cases pc with
  | opening => exact wroteNothing_writes h hother
  | reading => exact wroteNothing_writes h hother
  | inserting =>
    obtain ⟨hnothing, hpos, hle, hbase⟩ := h
    have hlength : s.rows.length ≤ (s.writes call effect).rows.length := length_writes_le
    exact ⟨wroteNothing_writes hnothing hother, hpos, by omega, hbase⟩
  | rereading => exact wroteNothing_writes h hother
  | pinning =>
    exact ⟨kept_writes h.1, fun r hr => wrote_writes (h.2.1 r hr), h.2.2⟩
  | recording =>
    exact ⟨kept_writes h.1, fun r hr => wrote_writes (h.2.1 r hr), h.2.2⟩
  | returned answer =>
    cases answer with
    | error => trivial
    | ok =>
      exact ⟨fun r hr => wrote_writes (h.1 r hr),
        fun r hr => wroteNothing_writes (h.2 r hr) hother⟩

theorem wroteNothing_of_honest (h : s.Honest call c pc)
    (hearly : ∀ o saved, pc ≠ .pinning o saved ∧ pc ≠ .recording o saved)
    (hwaiting : ∀ answer, pc ≠ .returned answer) : s.WroteNothing call := by
  cases pc with
  | opening => exact h
  | reading => exact h
  | inserting => exact h.1
  | rereading => exact h
  | pinning o saved => exact absurd rfl (hearly o saved).1
  | recording o saved => exact absurd rfl (hearly o saved).2
  | returned answer => exact absurd rfl (hwaiting answer)

theorem honest_afterSaved {o : Opened} {l : Revision} {saved : Saved}
    (hnothing : s.WroteNothing call) (hfound : latest s.rows = some l)
    (hanswer : saved = .unchanged l ∨ saved = .stale l) : s.Honest call c (afterSaved o saved) := by
  have hkept : Kept s.rows l := kept_of_mem (mem_of_latest hfound)
  rcases hanswer with rfl | rfl
  · unfold afterSaved
    dsimp only
    split
    · exact ⟨nofun, nofun⟩
    · exact ⟨hkept, nofun, nofun⟩
  · exact ⟨nofun, fun _ _ => hnothing⟩

theorem base_of_made {digest : String → String} {now : Int} (hnumbered : Numbered s.rows)
    (h : settled c.base (latest s.rows) (digest c.text) = none) :
    1 ≤ (c.made digest now (latest s.rows)).revision ∧
      (c.made digest now (latest s.rows)).revision ≤ s.rows.length + 1 ∧
      ((c.made digest now (latest s.rows)).revision = 1 ∨
        c.base = some ((c.made digest now (latest s.rows)).revision - 1)) := by
  cases hlatest : latest s.rows with
  | none =>
    simp only [SaveCall.made, Option.elim_none]
    exact ⟨Int.le_refl 1, by omega, .inl trivial⟩
  | some =>
    rw [hlatest] at h
    have hlast := latest_of_numbered hnumbered hlatest
    have hpos : 1 ≤ s.rows.length := List.length_pos_of_mem (mem_of_latest hlatest)
    have hbase := base_of_unsettled h
    simp only [SaveCall.made, Option.elim_some]
    refine ⟨by omega, by omega, .inr ?_⟩
    cases hc : c.base with
    | none =>
      rw [hc, Option.getD_none] at hbase
      omega
    | some =>
      rw [hc, Option.getD_some] at hbase
      rw [hbase]
      exact congrArg some (by omega)

variable {digest : String → String} {move : SaveMove} {pc' : SavePc}

section

variable (hinv : s.Invariant)
include hinv

section

variable (hcall : s.calls call = some (c, pc))
include hcall

section

variable (hturn : Turns digest s c pc move pc' effect)
include hturn

theorem numbered_turn : Numbered (s.writes call effect).rows := by
  cases hturn with
  | inserts hfree =>
    obtain ⟨-, hpos, hle, -⟩ := hinv.honest call c _ hcall
    exact (numbered_append hinv.numbered hfree hpos hle).1
  | pins => exact numbered_setLock hinv.numbered
  | _ => exact hinv.numbered

theorem honest_turn : (s.writes call effect).Honest call c pc' := by
  have hhonest := hinv.honest call c pc hcall
  cases hturn with
  | opens => exact hhonest
  | fails => trivial
  | settles early waiting found answer =>
    exact honest_afterSaved (wroteNothing_of_honest hhonest early waiting) found answer
  | reads unsettled => exact ⟨hhonest, base_of_made hinv.numbered unsettled⟩
  | @inserts _ made =>
    have hkept : Kept (s.writes call (some (.inserted made))).rows made :=
      kept_append.mpr (.inr rfl)
    refine ⟨hkept, ?_, nofun⟩
    rintro r ⟨⟩
    exact ⟨⟨made, mem_log_writes.mpr (.inr ⟨rfl, rfl⟩), rfl⟩, hkept, hhonest.2.2.2⟩
  | insertFails => exact hhonest.1
  | @pins _ saved =>
    obtain ⟨hkept, hwrote, hstale⟩ := hhonest
    refine ⟨(kept_withLock saved).mpr (kept_setLock.mpr hkept), ?_, ?_⟩
    · intro r hr
      cases saved with
      | created r' =>
        cases hr
        have h := hwrote r' rfl
        obtain ⟨made, hmade, hsame⟩ := h.inserted
        exact ⟨⟨made, mem_log_writes.mpr (.inl hmade), hsame⟩, kept_setLock.mpr h.kept, h.base⟩
      | unchanged => cases hr
      | stale => cases hr
    · intro r hr
      cases saved with
      | created => cases hr
      | unchanged => cases hr
      | stale r' => exact hstale r' rfl
  | pinFails => exact hhonest
  | records =>
    obtain ⟨_, hwrote, hstale⟩ := hhonest
    exact ⟨fun r hr => wrote_writes (hwrote r hr), fun r hr => absurd hr (hstale r)⟩
  | recordFails =>
    obtain ⟨_, hwrote, hstale⟩ := hhonest
    exact ⟨hwrote, fun r hr => absurd hr (hstale r)⟩

omit hturn in
theorem inserted_of_turn {made : Revision}
    (hturn : Turns digest s c pc move pc' (some (.inserted made))) :
    made.revision = s.rows.length + 1 := by
  cases hturn with
  | inserts hfree =>
    obtain ⟨-, hpos, hle, -⟩ := hinv.honest call c _ hcall
    exact (numbered_append hinv.numbered hfree hpos hle).2

theorem invariant_turn :
    ((s.writes call effect).goto call c pc').Invariant where
  numbered := numbered_turn hinv hcall hturn
  honest := by
    intro other d p hother
    by_cases hne : other = call
    · subst hne
      rw [calls_goto_self] at hother
      cases hother
      exact honest_goto.mpr (honest_turn hinv hcall hturn)
    · rw [calls_goto_of_ne _ _ _ hne, calls_writes] at hother
      exact honest_goto.mpr (honest_writes (hinv.honest other d p hother) fun h => absurd h hne)
  logged := by
    intro other e he
    by_cases hne : other = call
    · subst hne
      rw [calls_goto_self]
      exact Option.some_ne_none _
    · rw [calls_goto_of_ne _ _ _ hne, calls_writes]
      rcases mem_log_writes.mp he with hold | ⟨h, -⟩
      · exact hinv.logged other e hold
      · exact absurd h hne
  kept := by
    intro other made hmade
    rcases mem_log_writes.mp hmade with hold | ⟨-, rfl⟩
    · exact kept_writes (hinv.kept other made hold)
    · exact kept_append.mpr (.inr rfl)
  once := by
    intro first second made made' hmade hmade' hsame
    have hfresh : ∀ other m m', (other, Effect.inserted m) ∈ s.log →
        effect = some (.inserted m') → m.revision = m'.revision → False := by
      rintro other m m' hm rfl heq
      have hle := le_length_of_kept hinv.numbered (hinv.kept other m hm)
      have hnext := inserted_of_turn hinv hcall hturn
      omega
    rcases mem_log_writes.mp hmade with hold | ⟨hfirst, hnew⟩
    · rcases mem_log_writes.mp hmade' with hold' | ⟨-, hnew'⟩
      · exact hinv.once first second made made' hold hold' hsame
      · exact (hfresh first made made' hold hnew' hsame).elim
    · rcases mem_log_writes.mp hmade' with hold' | ⟨hsecond, -⟩
      · exact (hfresh second made' made hold' hnew hsame.symm).elim
      · exact hfirst.trans hsecond.symm

end

end

theorem invariant_step {a : DescriptionAction}
    (hstep : s.step digest a = some t) : t.Invariant := by
  rcases step_cases hstep with ⟨call, c, rfl, hnone, rfl⟩ |
    ⟨call, move, c, pc, pc', effect, rfl, hcall, hturn, rfl⟩
  · refine ⟨hinv.numbered, ?_, ?_, hinv.kept, hinv.once⟩
    · intro other d p hother
      by_cases hne : other = call
      · subst hne
        rw [calls_goto_self] at hother
        cases hother
        intro e he
        exact hinv.logged other e he hnone
      · rw [calls_goto_of_ne _ _ _ hne] at hother
        exact honest_goto.mpr (hinv.honest other d p hother)
    · intro other e he
      by_cases hne : other = call
      · subst hne
        exact absurd hnone (hinv.logged other e he)
      · rw [calls_goto_of_ne _ _ _ hne]
        exact hinv.logged other e he
  · exact invariant_turn hinv hcall hturn

end

theorem invariant_started (project : KeptProject) :
    (started project).Invariant := by
  refine ⟨project.numbered, ?_, ?_, ?_, ?_⟩
  · intro call c pc hcall
    cases hcall
  · intro call e hlog
    cases hlog
  · intro call made hlog
    cases hlog
  · intro call other made made' hlog
    cases hlog

end Invariant

section Awaited

variable {digest : String → String} {s t : DescriptionWorld} {call other : Nat} {c : SaveCall}
variable {pc pc' : SavePc} {move : SaveMove} {effect : Option Effect} {l : Revision}

/-- The record is right, or a call is still at work on the latest revision. -/
def Awaited (s : DescriptionWorld) : Prop := s.NamesLatest ∨ ∃ call, s.AtWork call

variable {o : Opened} {saved : Saved}

theorem atWork_of_pinning (hcall : s.calls call = some (c, .pinning o saved)) :
    s.AtWork call ↔ ∃ l, latest s.rows = some l ∧ saved.kept.revision = l.revision := by
  constructor
  · rintro (⟨d, o', saved', l, hother, hlatest, hsame⟩ | ⟨d, o', saved', l, hother, -⟩)
    · rw [hcall] at hother
      cases hother
      exact ⟨l, hlatest, hsame⟩
    · rw [hcall] at hother
      cases hother
  · rintro ⟨l, hlatest, hsame⟩
    exact .inl ⟨c, o, saved, l, hcall, hlatest, hsame⟩

theorem atWork_of_recording (hcall : s.calls call = some (c, .recording o saved)) :
    s.AtWork call ↔ ∃ l, latest s.rows = some l ∧ saved.kept.revision = l.revision ∧
      saved.kept.sourcesLock = l.sourcesLock := by
  constructor
  · rintro (⟨d, o', saved', l, hother, -⟩ | ⟨d, o', saved', l, hother, hlatest, hsame⟩)
    · rw [hcall] at hother
      cases hother
    · rw [hcall] at hother
      cases hother
      exact ⟨l, hlatest, hsame⟩
  · rintro ⟨l, hlatest, hsame⟩
    exact .inr ⟨c, o, saved, l, hcall, hlatest, hsame⟩

theorem carries_iff (hcall : s.calls call = some (c, pc)) :
    s.Carries call ↔ ∃ r l, pc.carried = some r ∧ latest s.rows = some l ∧
      r.revision = l.revision ∧ r.sourcesLock = l.sourcesLock := by
  constructor
  · rintro ⟨d, p, r, l, hother, hcarried, hlatest, hsame⟩
    rw [hcall] at hother
    cases hother
    exact ⟨r, l, hcarried, hlatest, hsame⟩
  · rintro ⟨r, l, hcarried, hlatest, hsame⟩
    exact ⟨c, pc, r, l, hcall, hcarried, hlatest, hsame⟩

theorem not_atWork_of_early (hcall : s.calls call = some (c, pc))
    (hearly : ∀ o saved, pc ≠ .pinning o saved ∧ pc ≠ .recording o saved) : ¬ s.AtWork call := by
  rintro (⟨d, o, saved, l, hother, -⟩ | ⟨d, o, saved, l, hother, -⟩)
  · rw [hcall] at hother
    exact (hearly o saved).1 (Prod.mk.inj (Option.some.inj hother)).2
  · rw [hcall] at hother
    exact (hearly o saved).2 (Prod.mk.inj (Option.some.inj hother)).2

theorem atWork_frame (h : s.AtWork other) (hcalls : t.calls other = s.calls other)
    (hlatest : latest t.rows = latest s.rows) : t.AtWork other := by
  unfold AtWork
  rw [hcalls, hlatest]
  exact h

theorem namesLatest_frame (h : s.NamesLatest) (hlatest : latest t.rows = latest s.rows)
    (hrecord : t.record = s.record) : t.NamesLatest := by
  unfold NamesLatest
  rw [hlatest, hrecord]
  exact h

/-- Where neither the latest revision nor the record changes, what is left to others is
awaited still. -/
theorem awaited_of_leftTo (h : s.LeftTo call)
    (hcalls : ∀ other, other ≠ call → t.calls other = s.calls other)
    (hlatest : latest t.rows = latest s.rows) (hrecord : t.record = s.record) : t.Awaited := by
  rcases h with h | ⟨other, hne, hwork⟩
  · exact .inl (namesLatest_frame h hlatest hrecord)
  · exact .inr ⟨other, atWork_frame hwork (hcalls other hne) hlatest⟩

theorem leftTo_of_awaited (h : s.Awaited) (hidle : ¬ s.AtWork call) : s.LeftTo call := by
  rcases h with h | ⟨other, hwork⟩
  · exact .inl h
  · refine .inr ⟨other, ?_, hwork⟩
    rintro rfl
    exact hidle hwork

theorem calls_turn_of_ne (hne : other ≠ call) :
    ((s.writes call effect).goto call c pc').calls other = s.calls other := by
  rw [calls_goto_of_ne _ _ _ hne, calls_writes]

theorem awaited_of_idle (h : s.LeftTo call) : (s.goto call c pc').Awaited :=
  awaited_of_leftTo h (fun _ hne => calls_goto_of_ne _ _ _ hne) rfl rfl

section

variable (hinv : s.Invariant)
include hinv

theorem awaited_inserts {made : Revision} (hcall : s.calls call = some (c, .inserting o made))
    (hfree : isTaken s.rows made.revision = false) :
    ((s.writes call (some (.inserted made))).goto call c
      (.pinning o (.created made))).Awaited := by
  obtain ⟨-, hpos, hle, -⟩ := hinv.honest call c _ hcall
  obtain ⟨hnumbered, hnext⟩ := numbered_append hinv.numbered hfree hpos hle
  have hlatest : latest (s.rows ++ [made]) = some made := by
    refine latest_eq_of_mem hnumbered (List.mem_append_right _ List.mem_cons_self) ?_
    rw [hnext, List.length_append]
    rfl
  exact .inr ⟨call, (atWork_of_pinning (calls_goto_self ..)).mpr ⟨made, hlatest, rfl⟩⟩

/-- The call that keeps a lock beside the latest revision is about to record it; a lock
beside another revision changes nothing. -/
theorem awaited_pins {lock : SourcesLock}
    (h : s.Awaited) (hcall : s.calls call = some (c, .pinning o saved)) :
    ((s.writes call (some (.locked saved.kept.revision lock))).goto call c
      (.recording o (saved.withLock lock))).Awaited := by
  have hlocked : (saved.withLock lock).kept.revision = saved.kept.revision ∧
      (saved.withLock lock).kept.sourcesLock = some lock := by
    cases saved <;> exact ⟨rfl, rfl⟩
  cases hlatest : latest s.rows with
  | none =>
    refine .inl fun l hl => ?_
    have hrows : s.rows = [] := latest_eq_none_iff.mp hlatest
    have hnone : latest (setLock s.rows saved.kept.revision lock) = none := by
      rw [hrows]
      rfl
    exact absurd (hnone.symm.trans hl) (Option.some_ne_none l).symm
  | some l =>
    have hafter : latest (setLock s.rows saved.kept.revision lock) =
        some (if l.revision = saved.kept.revision then
          { l with sourcesLock := some lock } else l) :=
      latest_setLock hinv.numbered hlatest
    by_cases hsame : l.revision = saved.kept.revision
    · rw [if_pos hsame] at hafter
      refine .inr ⟨call, (atWork_of_recording (calls_goto_self ..)).mpr
        ⟨_, hafter, hlocked.1.trans hsame.symm, hlocked.2⟩⟩
    · rw [if_neg hsame, ← hlatest] at hafter
      have hidle : ¬ s.AtWork call := by
        rw [atWork_of_pinning hcall]
        rintro ⟨l', hl', heq⟩
        rw [hlatest] at hl'
        cases hl'
        exact hsame heq.symm
      exact awaited_of_leftTo (leftTo_of_awaited h hidle)
        (fun _ hne => calls_turn_of_ne hne) hafter rfl

theorem namesLatest_records
    (hcall : s.calls call = some (c, .recording o saved)) (hcarries : s.Carries call) :
    ((s.writes call (some (.recorded (described o saved)))).goto call c pc').NamesLatest := by
  obtain ⟨r, l, hcarried, hlatest, hrevision, hlock⟩ := (carries_iff hcall).mp hcarries
  cases hcarried
  obtain ⟨hkept, -, -⟩ := hinv.honest call c _ hcall
  intro l' hl'
  have hl'' : latest s.rows = some l' := hl'
  rw [hlatest] at hl''
  cases hl''
  exact ⟨described o saved, rfl, hrevision,
    sha256_of_kept hinv.numbered hlatest hkept hrevision, hlock⟩

theorem awaited_records (h : s.Awaited)
    (hsteady : s.NamesLatest → s.Carries call)
    (hcall : s.calls call = some (c, .recording o saved)) :
    ((s.writes call (some (.recorded (described o saved)))).goto call c pc').Awaited := by
  by_cases hcarries : s.Carries call
  · exact .inl (namesLatest_records hinv hcall hcarries)
  · have hidle : ¬ s.AtWork call := by
      rw [atWork_of_recording hcall]
      rintro ⟨l, hlatest, hsame⟩
      exact hcarries ((carries_iff hcall).mpr ⟨_, l, rfl, hlatest, hsame⟩)
    rcases leftTo_of_awaited h hidle with hright | ⟨other, hne, hwork⟩
    · exact absurd (hsteady hright) hcarries
    · exact .inr ⟨other, atWork_frame hwork (calls_turn_of_ne hne) rfl⟩

theorem awaited_turn (h : s.Awaited) (hsteady : s.Steady (.moves call move))
    (hcall : s.calls call = some (c, pc)) (hturn : Turns digest s c pc move pc' effect) :
    ((s.writes call effect).goto call c pc').Awaited := by
  cases hturn with
  | opens =>
    exact awaited_of_idle
      (leftTo_of_awaited h (not_atWork_of_early hcall fun _ _ => ⟨nofun, nofun⟩))
  | fails early =>
    exact awaited_of_idle (leftTo_of_awaited h (not_atWork_of_early hcall early))
  | settles early =>
    exact awaited_of_idle (leftTo_of_awaited h (not_atWork_of_early hcall early))
  | reads =>
    exact awaited_of_idle
      (leftTo_of_awaited h (not_atWork_of_early hcall fun _ _ => ⟨nofun, nofun⟩))
  | inserts free => exact awaited_inserts hinv hcall free
  | insertFails =>
    exact awaited_of_idle
      (leftTo_of_awaited h (not_atWork_of_early hcall fun _ _ => ⟨nofun, nofun⟩))
  | pins => exact awaited_pins hinv h hcall
  | pinFails =>
    rcases hsteady with hcarries | hleft
    · obtain ⟨r, l, hcarried, hlatest, hsame⟩ := (carries_iff hcall).mp hcarries
      cases hcarried
      exact .inr ⟨call, (atWork_of_recording (calls_goto_self ..)).mpr ⟨l, hlatest, hsame⟩⟩
    · exact awaited_of_idle hleft
  | records => exact awaited_records hinv h hsteady hcall
  | recordFails => exact awaited_of_idle hsteady

theorem awaited_step {a : DescriptionAction} (h : s.Awaited)
    (hsteady : s.Steady a) (hstep : s.step digest a = some t) : t.Awaited := by
  rcases step_cases hstep with ⟨call, c, rfl, hnone, rfl⟩ |
    ⟨call, move, c, pc, pc', effect, rfl, hcall, hturn, rfl⟩
  · refine awaited_of_idle (leftTo_of_awaited h ?_)
    rintro (⟨d, o, saved, l, hother, -⟩ | ⟨d, o, saved, l, hother, -⟩)
    · rw [hnone] at hother
      cases hother
    · rw [hnone] at hother
      cases hother
  · exact awaited_turn hinv h hsteady hcall hturn

end

theorem namesLatest_of_awaited (h : s.Awaited) (hreturned : s.AllReturned) : s.NamesLatest := by
  rcases h with h | ⟨call, ⟨c, o, saved, l, hcall, -⟩ | ⟨c, o, saved, l, hcall, -⟩⟩
  · exact h
  · obtain ⟨answer, hanswer⟩ := hreturned call c _ hcall
    cases hanswer
  · obtain ⟨answer, hanswer⟩ := hreturned call c _ hcall
    cases hanswer

end Awaited

/-- **Revisions are one line of edits.**  In every run the revisions are numbered without
gaps, a call that created one wrote it after its base and alone, and a call that was stale
wrote nothing; and where every step is steady, the record names the latest revision once all
calls have returned. -/
theorem revisions_are_one_line (digest : String → String) (project : KeptProject)
    (actions : List DescriptionAction) (s : DescriptionWorld)
    (hrun : runActions (step digest) (started project) actions = some s) :
    Numbered s.rows ∧ (∀ call c r, s.Answered call c (.created r) → s.Wrote call c r) ∧
      (∀ call other c d r r', s.Answered call c (.created r) →
        s.Answered other d (.created r') → r.revision = r'.revision → call = other) ∧
      (∀ call c r, s.Answered call c (.stale r) → s.WroteNothing call) ∧
      (EveryStep (step digest) (fun s a _ => s.Steady a) (started project) actions →
        s.AllReturned → s.NamesLatest) := by
  have hinv : s.Invariant :=
    runActions_invariant (fun _ _ _ hinv hstep _ => invariant_step hinv hstep)
      (invariant_started project) (EveryStep.of_forall (fun _ _ _ _ => trivial) _ actions) hrun
  have hwrote : ∀ call c r, s.Answered call c (.created r) → s.Wrote call c r :=
    fun call c r h => (hinv.honest call c _ h).1 r rfl
  refine ⟨hinv.numbered, hwrote, ?_, fun call c r h => (hinv.honest call c _ h).2 r rfl, ?_⟩
  · intro call other c d r r' hfirst hsecond hsame
    obtain ⟨made, hmade, heq⟩ := (hwrote call c r hfirst).inserted
    obtain ⟨made', hmade', heq'⟩ := (hwrote other d r' hsecond).inserted
    have hrevision : made.unlocked.revision = r.unlocked.revision := congrArg Revision.revision heq
    have hrevision' : made'.unlocked.revision = r'.unlocked.revision :=
      congrArg Revision.revision heq'
    exact hinv.once call other made made' hmade hmade'
      ((hrevision.trans hsame).trans hrevision'.symm)
  · intro hsteady hreturned
    have hpres : ∀ s a t, s.Invariant ∧ s.Awaited → step digest s a = some t → s.Steady a →
        t.Invariant ∧ t.Awaited :=
      fun s a t h hstep hsteady =>
        ⟨invariant_step h.1 hstep, awaited_step h.1 h.2 hsteady hstep⟩
    have hboth : s.Invariant ∧ s.Awaited :=
      runActions_invariant hpres ⟨invariant_started project, .inl project.named⟩ hsteady hrun
    exact namesLatest_of_awaited hboth.2 hreturned

private def firstSave : SaveCall :=
  ⟨none, "gdl_version(1)", "studio", none, "ada"⟩

private def secondSave : SaveCall :=
  ⟨some 1, "gdl_version(2)", "studio", none, "bob"⟩

private def noHeads : String → Option Commit :=
  fun _ => none

private def secondRecordsFirst : List DescriptionAction :=
  [.starts 0 firstSave, .starts 1 secondSave, .moves 0 (.opens []), .moves 0 (.reads 0),
    .moves 0 .inserts, .moves 1 (.opens []), .moves 1 (.reads 1), .moves 1 .inserts,
    .moves 1 (.pins noHeads), .moves 1 .records, .moves 0 (.pins noHeads), .moves 0 .records]

private def oneSave : List DescriptionAction :=
  [.starts 0 firstSave, .moves 0 (.opens []), .moves 0 (.reads 0), .moves 0 .inserts,
    .moves 0 (.pins noHeads), .moves 0 .records]

/-- A save that no other one meets. -/
theorem one_save_is_recorded :
    (reached (step id) (started (.unsaved none)) oneSave).NamesLatest := by
  refine (revisions_are_one_line id (.unsaved none) oneSave _
    (runActions_reached rfl)).2.2.2.2 ?_ ?_
  · -- Only the last step has a condition to meet.
    iterate 5 refine (everyStep_cons_iff rfl).mpr ⟨trivial, ?_⟩
    refine (everyStep_cons_iff rfl).mpr ⟨fun _ => ?_, trivial⟩
    exact ⟨firstSave, _, _, _, rfl, rfl, rfl, rfl, rfl⟩
  · intro call c pc hcall
    match call with
    | 0 =>
      cases hcall
      exact ⟨_, rfl⟩
    | n + 1 => cases hcall

/-- **The record is left at an older revision** when its save writes it last. -/
theorem record_names_an_older_revision :
    ∃ (actions : List DescriptionAction) (s : DescriptionWorld),
      runActions (step id) (started (.unsaved none)) actions = some s ∧ s.AllReturned ∧
        ¬ s.NamesLatest := by
  refine ⟨secondRecordsFirst, reached (step id) (started (.unsaved none)) secondRecordsFirst,
    runActions_reached rfl, ?_, ?_⟩
  · intro call c pc hcall
    match call with
    | 0 =>
      cases hcall
      exact ⟨_, rfl⟩
    | 1 =>
      cases hcall
      exact ⟨_, rfl⟩
    | n + 2 => cases hcall
  · intro h
    obtain ⟨d, hd, hrevision, -⟩ := h _ rfl
    cases hd
    exact absurd hrevision (by decide)

end DescriptionWorld

end Product
end StudioWeb
