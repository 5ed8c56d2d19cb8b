import StudioWeb.StudioEvents.EventLog

/-!
# Readers of the event log

Poller and client read the log by one mark.  A reader passes an event over when its row is
inserted below the mark, so what a reader holds rests on every append in flight having its
number above the mark.
-/

namespace StudioWeb
namespace StudioEvents

open List

universe u

variable {ε : Type u}

namespace EventsWorld

/-- An append has taken its number and is still to insert its row. -/
def InFlight (w : EventsWorld ε) (row : LogRow ε) : Prop :=
  ∃ op, w.appends op = some (.inserting row)

structure LogInv (w : EventsWorld ε) : Prop where
  taken : ∀ row, w.InFlight row → row.seq ≤ w.latestSeq
  known : ∀ c ∈ w.completed, c.row.seq ≤ w.latestSeq
  past : ∀ c ∈ w.completed, c.moment < w.moment
  logged : ∀ row ∈ w.log, ∃ c ∈ w.completed, c.row = row
  distinct : (w.completed.map fun c => c.row.seq).Nodup
  logDistinct : (w.log.map LogRow.seq).Nodup
  free : ∀ row, w.InFlight row → ∀ c ∈ w.completed, c.row.seq ≠ row.seq
  apart :
    ∀ op other row row', w.appends op = some (.inserting row) →
      w.appends other = some (.inserting row') → row.seq = row'.seq → op = other

/-- What a statement does to the log and the appends. -/
structure LogStep (w t : EventsWorld ε) : Prop where
  latest : w.latestSeq ≤ t.latestSeq
  flight : ∀ row, t.InFlight row → w.InFlight row ∨ w.latestSeq < row.seq
  completed :
    ∀ c ∈ t.completed, c ∈ w.completed ∨ (w.InFlight c.row ∧ c.moment = w.moment)
  log : ∀ c ∈ w.completed, c.row ∈ t.log → c.row ∈ w.log

/-- No append in flight has a number up to a mark. -/
structure Above (w : EventsWorld ε) (mark : Nat) : Prop where
  taken : mark ≤ w.latestSeq
  flight : ∀ row, w.InFlight row → mark < row.seq

/-- A reader with a mark holds, in order and once, what was to be read up to its mark. -/
structure Reads
    (w : EventsWorld ε) (due : Completed ε → Prop) (mark : Nat) (got : List (LogRow ε)) : Prop where
  above : w.Above mark
  sorted : got.Pairwise fun x y => x.seq < y.seq
  below : ∀ row ∈ got, row.seq ≤ mark
  complete :
    ∀ c ∈ w.completed, due c → c.row ∈ got ∨ c.row ∉ w.log ∨ mark < c.row.seq

structure PageInv (w : EventsWorld ε) (mark : Nat) (page : List (LogRow ε)) : Prop where
  sorted : page.Pairwise fun x y => x.seq < y.seq
  above : ∀ row ∈ page, mark < row.seq ∧ w.Above row.seq
  covers :
    ∀ row ∈ page, ∀ c ∈ w.completed, mark < c.row.seq → c.row.seq ≤ row.seq →
      c.row ∈ page ∨ c.row ∉ w.log

section Readers

variable
  {w t : EventsWorld ε}
  {due due' : Completed ε → Prop}
  {mark limit : Nat}
  {got page : List (LogRow ε)}

theorem Above.step (h : w.Above mark) (hstep : LogStep w t) : t.Above mark := by
  refine ⟨h.taken.trans hstep.latest, ?_⟩
  intro row hrow
  rcases hstep.flight row hrow with hold | hnew
  · exact h.flight row hold
  · exact lt_of_le_of_lt h.taken hnew

/-- An event that becomes due is one that was in flight, or is known. -/
theorem Reads.step (h : w.Reads due mark got) (hstep : LogStep w t) : t.Reads due mark got := by
  refine ⟨h.above.step hstep, h.sorted, h.below, ?_⟩
  intro c hc hdue
  rcases hstep.completed c hc with hold | ⟨hflight, _⟩
  · rcases h.complete c hold hdue with hgot | hgone | hahead
    · exact .inl hgot
    · exact .inr (.inl fun hlog => hgone (hstep.log c hold hlog))
    · exact .inr (.inr hahead)
  · exact .inr (.inr (h.above.flight c.row hflight))

theorem PageInv.step (h : w.PageInv mark page) (hstep : LogStep w t) : t.PageInv mark page := by
  refine ⟨h.sorted, ?_, ?_⟩
  · intro row hrow
    exact ⟨(h.above row hrow).1, (h.above row hrow).2.step hstep⟩
  · intro row hrow c hc hmark hle
    rcases hstep.completed c hc with hold | ⟨hflight, _⟩
    · rcases h.covers row hrow c hold hmark hle with hpage | hgone
      · exact .inl hpage
      · exact .inr fun hlog => hgone (hstep.log c hold hlog)
    · have habove := (h.above row hrow).2.flight c.row hflight
      omega

/-- No append in flight has a number up to one of a page. -/
def PagesInOrder (w : EventsWorld ε) (page : List (LogRow ε)) : Prop :=
  ∀ row ∈ page, ∀ other, w.InFlight other → row.seq < other.seq

theorem LogInv.pageInv (h : w.LogInv) (horder : w.PagesInOrder (w.after mark limit)) :
    w.PageInv mark (w.after mark limit) := by
  refine ⟨MarkedLog.pairwise_pageAbove h.logDistinct, ?_, ?_⟩
  · intro row hrow
    obtain ⟨hlog, hmark⟩ := MarkedLog.mem_pageAbove hrow
    obtain ⟨c, hc, rfl⟩ := h.logged row hlog
    exact ⟨hmark, h.known c hc, horder c.row hrow⟩
  · intro row hrow c _ hmark hle
    by_cases hlog : c.row ∈ w.log
    · exact .inl (MarkedLog.mem_pageAbove_of_le h.logDistinct hrow hlog hmark hle)
    · exact .inr hlog

/-- **A reader takes a page.** -/
theorem Reads.extend {last : LogRow ε} (h : w.Reads due mark got) (hpage : w.PageInv mark page)
    (hlast : page.getLast? = some last) : w.Reads due last.seq (got ++ page) := by
  have hmem := mem_of_getLast? hlast
  obtain ⟨hmark, habove⟩ := hpage.above last hmem
  refine ⟨habove, ?_, ?_, ?_⟩
  · refine pairwise_append.mpr ⟨h.sorted, hpage.sorted, ?_⟩
    intro x hx y hy
    exact lt_of_le_of_lt (h.below x hx) (hpage.above y hy).1
  · intro row hrow
    rcases mem_append.mp hrow with hold | hnew
    · exact (h.below row hold).trans hmark.le
    · exact MarkedLog.seq_le_getLast hpage.sorted hlast hnew
  · intro c hc hdue
    rcases h.complete c hc hdue with hgot | hgone | hahead
    · exact .inl (mem_append_left _ hgot)
    · exact .inr (.inl hgone)
    · by_cases hle : c.row.seq ≤ last.seq
      · rcases hpage.covers last hmem c hc hahead hle with hin | hgone
        · exact .inl (mem_append_right _ hin)
        · exact .inr (.inl hgone)
      · exact .inr (.inr (by omega))

theorem Reads.begin (habove : w.Above mark) (hnone : ∀ c ∈ w.completed, due c → mark < c.row.seq) :
    w.Reads due mark [] := by
  refine ⟨habove, List.Pairwise.nil, ?_, ?_⟩
  · rintro row ⟨⟩
  · intro c hc hdue
    exact .inr (.inr (hnone c hc hdue))

end Readers

end EventsWorld

end StudioEvents
end StudioWeb
