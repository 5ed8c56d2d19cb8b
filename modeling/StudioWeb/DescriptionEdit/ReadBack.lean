import StudioWeb.DescriptionEdit.SaveSafe

/-!
# What is read back from a description

The check of an edited text reads the gears, sources and frontend of two product
calls, and `gear_configs` reads the configurations of one.  Both only read spans
between brackets.
-/

namespace StudioWeb
namespace DescriptionEdit

open Rust Doc

section Verify

variable {d : Doc}

theorem entryIds_returns {item : Span} (h : d.Cuts item) :
    Returns (d.entryIds item) (fun _ => True) := by
  refine (call_returns h).bind fun found hfound => ?_
  cases found with
  | none => exact returns_ok trivial
  | some c =>
    obtain ⟨hcall, _, _⟩ := hfound c rfl
    refine (firstStr_returns hcall).bind fun id _ => ?_
    refine (kw_returns hcall _).bind fun arg harg => ?_
    refine (listOf_returns harg).bind fun list hlist => ?_
    cases list with
    | none => exact returns_ok trivial
    | some list =>
      refine (named_returns (hlist list rfl).1 (Nat.zero_le _)).bind fun plugins _ => ?_
      exact returns_ok trivial

theorem gearIds_returns {p : Call} (h : d.Brackets p.bracket p.close) :
    Returns (d.gearIds p) (fun _ => True) := by
  refine (kw_returns h _).bind fun arg harg => ?_
  refine (listOf_returns harg).bind fun list hlist => ?_
  cases list with
  | none => exact returns_ok trivial
  | some list =>
    refine (items_returns (hlist list rfl).1).bind ?_
    rintro items ⟨hitems, _⟩
    refine (returns_mapM fun item hitem => entryIds_returns (hitems item hitem).toCuts).bind ?_
    exact fun _ _ => returns_ok trivial

theorem lostOf_returns {ld md : Doc} {lp mp : Call} {change : Change}
    (hlp : ld.Brackets lp.bracket lp.close) (hmp : md.Brackets mp.bracket mp.close) :
    Returns (lostOf ld md lp mp change) (fun _ => True) := by
  refine (gearIds_returns hmp).bind fun has _ => ?_
  refine (gearIds_returns hlp).bind fun gears _ => ?_
  refine (sources_returns hmp).bind fun declared _ => ?_
  refine (sources_returns hlp).bind fun sources _ => ?_
  dsimp only
  split_ifs
  · exact returns_ok trivial
  · refine (kw_returns hlp _).bind fun la _ => ?_
    split_ifs
    · exact returns_ok trivial
    · refine (kw_returns hmp _).bind fun ma _ => ?_
      exact returns_ok trivial

end Verify

section Configs

variable {Float64 : Type} {parseF64 : List Char → Option (Value Float64)} {d : Doc}

theorem closesSpan_returns {c : Char} {s : Span} (hpos : 0 < s.2) :
    Returns (closesSpan d c s) (fun closes => closes = true →
      d.closeOf s.1 = some (s.2 - 1)) := by
  refine returns_ite (fun _ => ?_) fun _ => returns_ok fun h => by cases h
  rw [if_neg (by omega)]
  exact returns_ok fun h => of_decide_eq_true h

theorem brackets_of_closes {c : Char} {s : Span} (hc : d.charAt s.1 = some c)
    (hopen : c = '{' ∨ c = '[')
    (hclose : d.closeOf s.1 = some (s.2 - 1)) : d.Brackets s.1 (s.2 - 1) := by
  obtain ⟨x, hx, hchar⟩ := charAt_eq_some hc
  refine brackets_of_closeOf hx ?_ hclose
  rw [isOpen, hchar]
  rcases hopen with rfl | rfl
  · decide
  · decide

theorem fieldOf_returns {lo hi : Nat} {item : Span} (h : d.Item lo hi item) :
    Returns (fieldOf d item) (fun found => ∀ key span, found = some (key, span) →
      d.Cuts span ∧ item.1 ≤ span.1 ∧ span.2 = item.2) := by
  have hlen := h.stop.le_len
  have hle := h.le
  refine (skipWhile_returns (by omega)).bind fun spot hspot => ?_
  refine returns_ite (fun _ => returns_ok fun key span hsome => by cases hsome) fun hlt => ?_
  have hstart := hspot.start_le
  obtain ⟨x, hx, hcolon⟩ := hspot.stops (by omega)
  have hchar : x.char = ':' := by
    rw [Bool.not_eq_false', Bool.and_eq_true, decide_eq_true_eq] at hcolon
    exact hcolon.1
  have hascii : x.char.utf8Size = 1 := by
    rw [hchar]
    decide
  have hraw : d.Cuts (item.1, spot) := ⟨h.start, boundary_of_ascii hx hascii, hstart⟩
  refine (slice_returns hraw).bind fun raw _ => ?_
  refine (skipWhile_returns (by omega)).bind fun v hv => ?_
  have hv' := hv.le_stop
  have hspotv := hv.start_le
  have hvalue := hv.boundary utf8Size_of_isAsciiWhitespace (boundary_succ hx hascii) (by omega)
  refine returns_ok fun key span hsome => ?_
  cases hsome
  refine ⟨⟨hvalue, h.stop, ?_⟩, ?_, rfl⟩
  · show v ≤ item.2
    omega
  · show item.1 ≤ v
    omega

/-- A value is read with as much fuel as its span is long: what it holds is
between its brackets. -/
theorem literal_returns {fuel : Nat} {s : Span} (h : d.Cuts s) (hpos : 0 < s.2)
    (hfuel : s.2 - s.1 < fuel) : Returns (literal parseF64 d fuel s) (fun _ => True) := by
  induction fuel generalizing s with
  | zero => omega
  | succ fuel ih =>
    have hinside : ∀ {item : Span} {span : Span}, d.Brackets s.1 (s.2 - 1) →
        d.Item (s.1 + 1) (s.2 - 1) item → d.Cuts span → item.1 ≤ span.1 →
        span.2 = item.2 → Returns (literal parseF64 d fuel span) (fun _ => True) := by
      intro item span hbrackets hitem hcuts hstart hstop
      have hlo := hitem.lo_le
      have hhi := hitem.le_hi
      have hlt := hitem.lt
      have hbracket := hbrackets.lt
      exact ih hcuts (by omega) (by omega)
    refine (slice_returns h).bind fun text _ => ?_
    cases hc : d.charAt s.1 with
    | none => exact returns_ok trivial
    | some =>
      refine (closesSpan_returns hpos).bind fun closes hcloses => ?_
      refine returns_ite ?_ fun _ => returns_ite ?_ fun _ =>
        returns_ite (fun _ => returns_ok trivial) fun _ => returns_ok trivial
      · rintro ⟨hopen, htrue⟩
        have hbrackets := brackets_of_closes hc (Or.inl hopen) (hcloses htrue)
        refine (@Doc.items_returns d (s.1, s.2 - 1) hbrackets).bind ?_
        rintro items ⟨hitems, _⟩
        refine Returns.bind (returns_foldlM (P := fun _ => True) trivial ?_)
          fun fields _ => returns_ok trivial
        intro fields _ item hitem
        have hspan := hitems item hitem
        refine (fieldOf_returns hspan).bind fun found hfound => ?_
        cases found with
        | none => exact returns_ok trivial
        | some field =>
          obtain ⟨key, span⟩ := field
          obtain ⟨hcuts, hstart, hstop⟩ := hfound key span rfl
          refine (hinside hbrackets hspan hcuts hstart hstop).bind fun value _ => ?_
          exact returns_ok trivial
      · rintro ⟨hopen, htrue⟩
        have hbrackets := brackets_of_closes hc (Or.inr hopen) (hcloses htrue)
        refine (@Doc.items_returns d (s.1, s.2 - 1) hbrackets).bind ?_
        rintro items ⟨hitems, _⟩
        refine Returns.bind (returns_mapM (P := fun _ _ => True) fun item hitem => ?_)
          fun values _ => returns_ok trivial
        have hspan := hitems item hitem
        exact hinside hbrackets hspan hspan.toCuts (Nat.le_refl _) rfl

theorem takeConfig_returns {out : List (List Char × Value Float64)} {c : Call}
    (h : d.Brackets c.bracket c.close) : Returns (takeConfig parseF64 d out c) (fun _ => True) := by
  refine (firstStr_returns h).bind fun id _ => ?_
  refine (kw_returns h _).bind fun config hconfig => ?_
  cases id with
  | none => exact returns_ok trivial
  | some =>
    cases config with
    | none => exact returns_ok trivial
    | some config =>
      have hvalue := (hconfig config rfl).value
      have hstop := (hconfig config rfl).value_stop
      have hlt := (hconfig config rfl).span.lt
      have hlen := hvalue.stop.le_len
      refine (literal_returns hvalue (by omega) (by omega)).bind fun value _ => ?_
      exact returns_ok trivial

theorem entryConfigs_returns {out : List (List Char × Value Float64)} {item : Span}
    (h : d.Cuts item) : Returns (entryConfigs parseF64 d out item) (fun _ => True) := by
  refine (call_returns h).bind fun found hfound => ?_
  cases found with
  | none => exact returns_ok trivial
  | some c =>
    obtain ⟨hcall, _, _⟩ := hfound c rfl
    refine (takeConfig_returns hcall).bind fun out _ => ?_
    refine (kw_returns hcall _).bind fun arg harg => ?_
    refine (listOf_returns harg).bind fun list hlist => ?_
    cases list with
    | none => exact returns_ok trivial
    | some list =>
      refine (items_returns (hlist list rfl).1).bind ?_
      rintro items ⟨hitems, _⟩
      refine returns_foldlM trivial fun out _ item hitem => ?_
      refine (call_returns (hitems item hitem).toCuts).bind fun found hfound => ?_
      cases found with
      | none => exact returns_ok trivial
      | some pc => exact takeConfig_returns (hfound pc rfl).1

/-- The configurations of a product call. -/
theorem configs_returns {p : Call} (h : d.Brackets p.bracket p.close) :
    Returns (do
      match ← d.listOf (← d.kw p "gears".toList) with
      | none => .ok []
      | some list => do
        let items ← d.items list
        items.foldlM (entryConfigs parseF64 d) []) (fun _ => True) := by
  refine (kw_returns h _).bind fun arg harg => ?_
  refine (listOf_returns harg).bind fun list hlist => ?_
  cases list with
  | none => exact returns_ok trivial
  | some list =>
    refine (items_returns (hlist list rfl).1).bind ?_
    rintro items ⟨hitems, _⟩
    exact returns_foldlM trivial fun out _ item hitem =>
      entryConfigs_returns (hitems item hitem).toCuts

end Configs

end DescriptionEdit
end StudioWeb
