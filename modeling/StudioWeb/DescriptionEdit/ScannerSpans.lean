import Mathlib
import StudioWeb.DescriptionEdit.ScannerBytes

/-!
# The spans the scanner reads

Every span the scanner takes of a text begins and ends on character boundaries
inside it: trimming stops at the first byte that is neither in a comment nor
white space, which begins a character, and a bracket or a comma is one byte.
-/

namespace StudioWeb
namespace DescriptionEdit

open Rust

namespace Doc

open List Utf8

variable {d : Doc}

section Slices

/-- A span that can be sliced. -/
structure Cuts (d : Doc) (s : Span) : Prop where
  start : d.Boundary s.1
  stop : d.Boundary s.2
  le : s.1 ≤ s.2

theorem slice_returns {s : Span} (h : d.Cuts s) :
    Returns (d.slice s) (fun v => ∃ u w, d.t = u ++ v ++ w ∧ byteLen u = s.1 ∧
      byteLen u + byteLen v = s.2) := by
  obtain ⟨v, hv⟩ := exists_slice h.start h.stop h.le
  exact returns_of_eq_ok hv (exists_of_slice hv)

theorem norm_returns {s : Span} (h : d.Cuts s) : Returns (d.norm s) (fun _ => True) := by
  refine (slice_returns h).bind fun _ _ => ?_
  exact returns_ok trivial

theorem boundary_zero (d : Doc) : d.Boundary 0 := by
  exact isBoundary_zero d.t

theorem boundary_byteLen {u v : List Char} (h : d.t = u ++ v) : d.Boundary (byteLen u) := by
  exact isBoundary_iff.mpr ⟨u, v, h, rfl⟩

variable {spot : Nat}

/-- What `lineStart` finds: a boundary not after the offset, with no line break
between. -/
theorem lineStart_returns (h : d.Boundary spot) :
    Returns (d.lineStart spot) (fun s => d.Boundary s ∧ s ≤ spot) := by
  refine (slice_returns ⟨d.boundary_zero, h, Nat.zero_le spot⟩).bind ?_
  rintro before ⟨u, w, ht, hu, hlen⟩
  refine returns_ok ?_
  have hcut : before = (before.reverse.dropWhile fun c => c ≠ '\n').reverse ++
      (before.reverse.takeWhile fun c => c ≠ '\n').reverse := by
    rw [← reverse_append, takeWhile_append_dropWhile, reverse_reverse]
  have hle := byteLen_append (before.reverse.dropWhile fun c => c ≠ '\n').reverse
    (before.reverse.takeWhile fun c => c ≠ '\n').reverse
  rw [← hcut] at hle
  have hzero : byteLen u = 0 := hu
  have hnil : u = [] := by
    cases u with
    | nil => rfl
    | cons c =>
      rw [byteLen_cons] at hzero
      have hpos := c.utf8Size_pos
      omega
  rw [hnil, nil_append] at ht
  rw [hnil, byteLen_nil, Nat.zero_add] at hlen
  refine ⟨?_, ?_⟩
  · refine boundary_byteLen (v := (before.reverse.takeWhile fun c => c ≠ '\n').reverse ++ w) ?_
    rw [← append_assoc, ← hcut]
    exact ht
  · have hspot : byteLen before = spot := hlen
    omega

/-- What `lineEnd` finds: a boundary not before the offset, and one after the
line break there. -/
theorem lineEnd_returns (h : d.Boundary spot) :
    Returns (d.lineEnd spot) (fun e => d.Boundary e ∧ spot ≤ e ∧
      (e < d.len → d.Boundary (e + 1))) := by
  refine (slice_returns ⟨h, d.boundary_len, h.le_len⟩).bind ?_
  rintro after ⟨u, w, ht, hu, hlen⟩
  have hspot : spot = byteLen u := hu.symm
  have hcut : d.t = u ++ (after.takeWhile fun c => c ≠ '\n') ++
      ((after.dropWhile fun c => c ≠ '\n') ++ w) := by
    rw [append_assoc, ← append_assoc (after.takeWhile _),
      takeWhile_append_dropWhile, ← append_assoc]
    exact ht
  refine returns_ok ⟨?_, Nat.le_add_right _ _, ?_⟩
  · rw [hspot, ← byteLen_append]
    exact boundary_byteLen hcut
  · intro hlt
    rw [hspot, ← byteLen_append] at hlt ⊢
    cases hrest : after.dropWhile fun c => c ≠ '\n' with
    | nil =>
      have hall : after.takeWhile (fun c => c ≠ '\n') = after := by
        have hwhole := takeWhile_append_dropWhile
          (p := fun c : Char => decide (c ≠ '\n')) (l := after)
        rw [hrest, append_nil] at hwhole
        exact hwhole
      rw [hall, byteLen_append, hlen] at hlt
      exact absurd hlt (Nat.lt_irrefl _)
    | cons c rest =>
      have hc : c = '\n' := by
        have hhead := head?_dropWhile_not (fun c : Char => decide (c ≠ '\n')) after
        rw [hrest] at hhead
        simpa using hhead
      have hstep : byteLen (u ++ (after.takeWhile fun c => c ≠ '\n')) + 1 =
          byteLen (u ++ (after.takeWhile fun c => c ≠ '\n') ++ ['\n']) := by
        rw [byteLen_append _ ['\n']]
        rfl
      rw [hstep]
      refine boundary_byteLen (v := rest ++ w) ?_
      rw [hcut, hrest, hc]
      simp only [append_assoc, cons_append, nil_append]

theorem indentOf_returns (h : d.Boundary spot) :
    Returns (d.indentOf spot) (fun _ => True) := by
  refine (lineStart_returns h).bind ?_
  rintro s ⟨hs, _⟩
  refine (slice_returns ⟨hs, d.boundary_len, hs.le_len⟩).bind fun _ _ => ?_
  exact returns_ok trivial

end Slices

section Skips

variable {p : Cell → Bool} {i e j : Nat}

theorem Skipped.boundary (hascii : ∀ x, p x = true → x.char.utf8Size = 1) (hi : d.Boundary i)
    (he : e ≤ d.len) (h : d.Skipped p i e j) : d.Boundary j := by
  obtain hij | hlt := Nat.eq_or_lt_of_le h.start_le
  · rw [← hij]
    exact hi
  · have hle := h.le_stop
    obtain ⟨x, hx⟩ := exists_cell (show j - 1 < d.len by omega)
    have hp := h.all (j - 1) x (by omega) (by omega) hx
    have hsucc := boundary_succ hx (hascii x hp)
    have hj : j - 1 + 1 = j := by omega
    rwa [hj] at hsucc

theorem utf8Size_of_isAsciiWhitespace (x : Cell) (h : isAsciiWhitespace x = true) :
    x.char.utf8Size = 1 := by
  unfold isAsciiWhitespace at h
  simp only [Bool.or_eq_true, decide_eq_true_eq] at h
  obtain (((h | h) | h) | h) | h := h <;> rw [h] <;> decide

/-- Between a blank and what is none there is a boundary: the bytes of a character
are all blank or none is. -/
theorem boundary_of_blank_ne {k : Nat} {x y : Cell} (hx : d.cells[k]? = some x)
    (hy : d.cells[k + 1]? = some y) (hne : isBlank x ≠ isBlank y) : d.Boundary (k + 1) := by
  refine (boundary_iff_place hy).mpr ?_
  by_contra hinside
  obtain ⟨j, z, hj, hz, hchar, hkind⟩ := same_kind hy hinside
  cases Nat.succ.inj hj
  rw [hx] at hz
  cases hz
  exact hne (by simp only [isBlank, isAsciiWhitespace, hchar, hkind])

theorem Skipped.boundary_blank (hi : d.Boundary i) (he : d.Boundary e)
    (h : d.Skipped isBlank i e j) : d.Boundary j := by
  obtain hje | hlt := Nat.eq_or_lt_of_le h.le_stop
  · rw [hje]
    exact he
  obtain hij | hlt' := Nat.eq_or_lt_of_le h.start_le
  · rw [← hij]
    exact hi
  obtain ⟨y, hy, hblank⟩ := h.stops hlt
  obtain ⟨k, rfl⟩ := Nat.exists_eq_succ_of_ne_zero (show j ≠ 0 by omega)
  have hlen := lt_len hy
  obtain ⟨x, hx⟩ := exists_cell (show k < d.len by omega)
  refine boundary_of_blank_ne hx hy ?_
  rw [h.all k x (by omega) (by omega) hx, hblank]
  decide

theorem SkippedBack.boundary_blank {s : Nat} (hs : d.Boundary s) (he : d.Boundary e)
    (h : d.SkippedBack isBlank s e j) : d.Boundary j := by
  obtain hje | hlt := Nat.eq_or_lt_of_le h.le_stop
  · rw [hje]
    exact he
  obtain hsj | hlt' := Nat.eq_or_lt_of_le h.start_le
  · rw [← hsj]
    exact hs
  have hlen := he.le_len
  obtain ⟨k, rfl⟩ := Nat.exists_eq_succ_of_ne_zero (show j ≠ 0 by omega)
  obtain ⟨y, hy⟩ := exists_cell (show k + 1 < d.len by omega)
  obtain ⟨x, hx, hblank⟩ := h.stops hlt'
  refine boundary_of_blank_ne hx hy ?_
  rw [h.all (k + 1) y (Nat.le_refl _) hlt hy, hblank]
  decide

end Skips

section Brackets

variable {x : Cell} {bracket close : Nat}

theorem utf8Size_of_isOpen (h : isOpen x = true) : x.char.utf8Size = 1 := by
  unfold isOpen at h
  simp only [Bool.or_eq_true, decide_eq_true_eq] at h
  obtain (h | h) | h := h <;> rw [h] <;> decide

theorem utf8Size_of_isClose (h : isClose x = true) : x.char.utf8Size = 1 := by
  unfold isClose at h
  simp only [Bool.or_eq_true, decide_eq_true_eq] at h
  obtain (h | h) | h := h <;> rw [h] <;> decide

theorem not_isClose_of_isOpen (h : isOpen x = true) : isClose x = false := by
  unfold isOpen at h
  simp only [Bool.or_eq_true, decide_eq_true_eq] at h
  obtain (h | h) | h := h <;> rw [isClose, h] <;> decide

structure Brackets (d : Doc) (bracket close : Nat) : Prop where
  lt : bracket < close
  opens : ∃ x, d.cells[bracket]? = some x ∧ isOpen x = true
  closes : ∃ x, d.cells[close]? = some x ∧ isClose x = true

section

variable (h : d.Brackets bracket close)
include h

theorem Brackets.boundary_inside :
    d.Boundary (bracket + 1) := by
  obtain ⟨x, hx, hopens⟩ := h.opens
  exact boundary_succ hx (utf8Size_of_isOpen hopens)

theorem Brackets.boundary_bracket :
    d.Boundary bracket := by
  obtain ⟨x, hx, hopens⟩ := h.opens
  exact boundary_of_ascii hx (utf8Size_of_isOpen hopens)

theorem Brackets.boundary_close :
    d.Boundary close := by
  obtain ⟨x, hx, hcloses⟩ := h.closes
  exact boundary_of_ascii hx (utf8Size_of_isClose hcloses)

theorem Brackets.close_lt_len :
    close < d.len := by
  obtain ⟨x, hx, _⟩ := h.closes
  exact lt_len hx

end

theorem closeFrom_eq_some {cells : List Cell} {i depth close : Nat}
    (h : closeFrom cells i depth = some close) :
    ∃ k x, close = i + k ∧ cells[k]? = some x ∧ isClose x = true := by
  induction cells generalizing i depth with
  | nil => cases h
  | cons x cells ih =>
    have hrest : ∀ depth, closeFrom cells (i + 1) depth = some close →
        ∃ k y, close = i + k ∧ (x :: cells)[k]? = some y ∧ isClose y = true := by
      intro depth hclose
      obtain ⟨k, y, hk, hy, hcloses⟩ := ih hclose
      refine ⟨k + 1, y, by omega, ?_, hcloses⟩
      rw [getElem?_cons_succ]
      exact hy
    unfold closeFrom at h
    split_ifs at h with hkind hopen hclose
    · exact hrest _ h
    · exact hrest _ h
    · match depth, h with
      | 1, h =>
        cases h
        exact ⟨0, x, rfl, rfl, hclose⟩
      | depth + 2, h => exact hrest _ h
    · exact hrest _ h

theorem brackets_of_closeOf (hx : d.cells[bracket]? = some x)
    (hopens : isOpen x = true) (h : d.closeOf bracket = some close) : d.Brackets bracket close := by
  obtain ⟨k, y, rfl, hy, hcloses⟩ := closeFrom_eq_some h
  rw [getElem?_drop] at hy
  refine ⟨?_, ⟨x, hx, hopens⟩, ⟨y, hy, hcloses⟩⟩
  cases k with
  | succ => omega
  | zero =>
    have hsame : d.cells[bracket + 0]? = d.cells[bracket]? := rfl
    rw [hsame, hx] at hy
    cases hy
    rw [not_isClose_of_isOpen hopens] at hcloses
    cases hcloses

end Brackets

/-- A span that is not empty, between two offsets. -/
structure Item (d : Doc) (lo hi : Nat) (s : Span) : Prop extends d.Cuts s where
  lo_le : lo ≤ s.1
  lt : s.1 < s.2
  le_hi : s.2 ≤ hi

theorem trimmed_returns {s e : Nat} (hs : d.Boundary s) (he : d.Boundary e) (hse : s ≤ e) :
    Returns (d.trimmed s e) (fun out => (∀ item ∈ out, d.Item s e item) ∧
      out.Pairwise fun a b => a.2 ≤ b.1) := by
  have hlen := he.le_len
  refine (skipWhile_returns (by omega)).bind ?_
  intro s' hs'
  have hstop : s + (e - s) = e := by omega
  rw [hstop] at hs'
  have hboundary := hs'.boundary_blank hs he
  have hle := hs'.le_stop
  have hback : s' + (e - s') = e := by omega
  have hwalk := skipBack_returns (d := d) (p := isBlank) (n := e - s') (s := s') (by omega)
  rw [hback] at hwalk
  refine hwalk.bind ?_
  intro e' he'
  refine returns_ite ?_ ?_
  · intro hlt
    have hboundary' := he'.boundary_blank hboundary he
    refine returns_ok ⟨?_, pairwise_singleton _ _⟩
    intro item hitem
    rw [mem_singleton.mp hitem]
    exact ⟨⟨hboundary, hboundary', Nat.le_of_lt hlt⟩, hs'.start_le, hlt, he'.le_stop⟩
  · intro _
    exact returns_ok ⟨fun item hitem => absurd hitem not_mem_nil, .nil⟩

theorem itemsFrom_returns {close n i depth start : Nat} (hclose : d.Boundary close)
    (hi : i + n = close) (hstart : d.Boundary start) (hle : start ≤ i) :
    Returns (d.itemsFrom close n i depth start)
      (fun out => (∀ item ∈ out, d.Item start close item) ∧
        out.Pairwise fun a b => a.2 ≤ b.1) := by
  induction n generalizing i depth start with
  | zero =>
    exact trimmed_returns hstart hclose (by omega)
  | succ n ih =>
    have hlen := hclose.le_len
    obtain ⟨x, hx⟩ := exists_cell (show i < d.len by omega)
    have hnext : ∀ depth, Returns (d.itemsFrom close n (i + 1) depth start)
        (fun out => (∀ item ∈ out, d.Item start close item) ∧ out.Pairwise fun a b => a.2 ≤ b.1) :=
      fun depth => ih (by omega) hstart (by omega)
    refine (returns_of_eq_ok (P := fun y => y = x) (cell_eq_ok hx) rfl).bind ?_
    rintro y rfl
    refine returns_ite (fun _ => hnext _) fun _ => ?_
    refine returns_ite (fun _ => hnext _) fun _ => ?_
    refine returns_ite (fun _ => hnext _) fun _ => ?_
    refine returns_ite ?_ fun _ => hnext _
    rintro ⟨hcomma, _⟩
    have hascii : y.char.utf8Size = 1 := by
      rw [hcomma]
      decide
    have hi' := boundary_of_ascii hx hascii
    refine (trimmed_returns hstart hi' hle).bind ?_
    rintro item ⟨hitem, hitemPairwise⟩
    refine (ih (by omega) (boundary_succ hx hascii) (Nat.le_refl _)).bind ?_
    rintro rest ⟨hrest, hpairwise⟩
    refine returns_ok ⟨?_, ?_⟩
    · intro span hspan
      rcases mem_append.mp hspan with hspan | hspan
      · have h := hitem span hspan
        exact ⟨h.toCuts, h.lo_le, h.lt, by have := h.le_hi; omega⟩
      · have h := hrest span hspan
        exact ⟨h.toCuts, by have := h.lo_le; omega, h.lt, h.le_hi⟩
    · refine pairwise_append.mpr ⟨hitemPairwise, hpairwise, ?_⟩
      intro a ha b hb
      have hfirst := (hitem a ha).le_hi
      have hsecond := (hrest b hb).lo_le
      omega

/-- The items between two brackets, in their order. -/
theorem items_returns {list : Span} (h : d.Brackets list.1 list.2) :
    Returns (d.items list) (fun out => (∀ item ∈ out, d.Item (list.1 + 1) list.2 item) ∧
      out.Pairwise fun a b => a.2 ≤ b.1) := by
  have hlt := h.lt
  exact itemsFrom_returns h.boundary_close (by omega) h.boundary_inside (Nat.le_refl _)

section Calls

theorem utf8Size_of_isIdent (x : Cell) (h : isIdent x = true) : x.char.utf8Size = 1 := by
  have hval : x.char.val ≤ 0x7f := by
    simp only [isIdent, Char.isAlphanum, Char.isAlpha, Char.isUpper, Char.isLower,
      Char.isDigit, Bool.or_eq_true, Bool.and_eq_true, decide_eq_true_eq] at h
    obtain ((⟨_, h⟩ | ⟨_, h⟩) | ⟨_, h⟩) | h := h
    · exact UInt32.le_trans h (by decide)
    · exact UInt32.le_trans h (by decide)
    · exact UInt32.le_trans h (by decide)
    · rw [h]
      decide
  exact Char.utf8Size_eq_one_iff.mpr hval

theorem charAt_eq_some {i : Nat} {c : Char} (h : d.charAt i = some c) :
    ∃ x, d.cells[i]? = some x ∧ x.char = c := by
  exact Option.map_eq_some_iff.mp h

/-- A call in a span ends where the span does. -/
theorem call_returns {span : Span} (h : d.Cuts span) :
    Returns (d.call span) (fun found => ∀ c, found = some c →
      d.Brackets c.bracket c.close ∧ span.1 < c.bracket ∧ c.close + 1 = span.2) := by
  have hlen := h.stop.le_len
  have hle := h.le
  have hnone : Returns (.ok none : Outcome (Option Call)) (fun found => ∀ c, found = some c →
      d.Brackets c.bracket c.close ∧ span.1 < c.bracket ∧ c.close + 1 = span.2) :=
    returns_ok fun c hc => by cases hc
  refine (skipWhile_returns (by omega)).bind ?_
  intro i hi
  refine returns_ite (fun _ => hnone) fun hname => ?_
  have hi' := hi.start_le
  have hstop := hi.le_stop
  refine (skipWhile_returns (by omega)).bind ?_
  intro j hj
  refine returns_ite (fun _ => hnone) fun hopen => ?_
  have hparen : d.charAt j = some '(' := by
    by_contra hnot
    exact hopen (Or.inr hnot)
  obtain ⟨x, hx, hchar⟩ := charAt_eq_some hparen
  have hopens : isOpen x = true := by
    rw [isOpen, hchar]
    decide
  cases hclose : d.closeOf j with
  | none => exact hnone
  | some =>
    refine returns_ite ?_ fun _ => hnone
    intro hend
    refine returns_ok fun c hc => ?_
    cases hc
    have hj' := hj.start_le
    refine ⟨brackets_of_closeOf hx hopens hclose, ?_, hend⟩
    show span.1 < j
    omega

/-- An argument of a call whose brackets are two offsets. -/
structure GoodArg (d : Doc) (bracket close : Nat) (a : Arg) : Prop where
  span : d.Item (bracket + 1) close a.span
  value : d.Cuts a.value
  value_start : a.span.1 ≤ a.value.1
  value_stop : a.value.2 = a.span.2

theorem arg_returns {bracket close : Nat} {item : Span} (h : d.Item (bracket + 1) close item) :
    Returns (d.arg item) (fun a => a.span = item ∧ d.GoodArg bracket close a) := by
  have hlen := h.stop.le_len
  have hle := h.le
  have hplain : Returns (.ok ⟨item, none, item⟩ : Outcome Arg)
      (fun a => a.span = item ∧ d.GoodArg bracket close a) :=
    returns_ok ⟨rfl, h, h.toCuts, Nat.le_refl _, rfl⟩
  refine (skipWhile_returns (by omega)).bind ?_
  intro i hi
  have hi' := hi.le_stop
  have hstart := hi.start_le
  have hkey := hi.boundary utf8Size_of_isIdent h.start (by omega)
  refine (skipWhile_returns (by omega)).bind ?_
  intro j hj
  have hj' := hj.le_stop
  have hij := hj.start_le
  refine returns_ite ?_ fun _ => hplain
  rintro ⟨_, hlt, hequals, _⟩
  obtain ⟨x, hx, hchar⟩ := charAt_eq_some hequals
  have hascii : x.char.utf8Size = 1 := by
    rw [hchar]
    decide
  refine (skipWhile_returns (by omega)).bind ?_
  intro v hv
  have hv' := hv.le_stop
  have hjv := hv.start_le
  have hvalue := hv.boundary utf8Size_of_isAsciiWhitespace (boundary_succ hx hascii) (by omega)
  refine (@slice_returns d (item.1, i) ⟨h.start, hkey, hstart⟩).bind fun _ _ => ?_
  refine returns_ok ⟨rfl, h, ⟨hvalue, h.stop, ?_⟩, ?_, rfl⟩
  · show v ≤ item.2
    omega
  · show item.1 ≤ v
    omega

variable {c : Call}

section

variable (h : d.Brackets c.bracket c.close)
include h

/-- The arguments of a call, in their order. -/
theorem args_returns :
    Returns (d.args c) (fun args => (∀ a ∈ args, d.GoodArg c.bracket c.close a) ∧
      args.Pairwise fun a b => a.span.2 ≤ b.span.1) := by
  refine (items_returns h).bind ?_
  rintro items ⟨hitems, hpairwise⟩
  have hargs : Returns (items.mapM d.arg)
      (List.Forall₂ (fun item a => a.span = item ∧ d.GoodArg c.bracket c.close a) items) :=
    returns_mapM fun item hitem => arg_returns (hitems item hitem)
  refine hargs.mono fun args hforall => ?_
  have hspans : args.map Arg.span = items := by
    clear hitems hpairwise hargs
    induction hforall with
    | nil => rfl
    | cons ha _ ih => rw [map_cons, ha.1, ih]
  refine ⟨?_, ?_⟩
  · clear hitems hpairwise hargs hspans
    induction hforall with
    | nil => exact fun a ha => absurd ha not_mem_nil
    | cons ha _ ih =>
      intro a hmem
      rcases mem_cons.mp hmem with rfl | hmem
      · exact ha.2
      · exact ih a hmem
  · rw [← hspans] at hpairwise
    exact pairwise_map.mp hpairwise

theorem kw_returns (key : List Char) :
    Returns (d.kw c key) (fun found => ∀ a, found = some a →
      d.GoodArg c.bracket c.close a) := by
  refine (args_returns h).bind ?_
  rintro args ⟨hargs, _⟩
  exact returns_ok fun a ha => hargs a (mem_of_find?_eq_some ha)

theorem firstStr_returns :
    Returns (d.firstStr c) (fun _ => True) := by
  refine (args_returns h).bind ?_
  rintro args ⟨hargs, _⟩
  cases hfound : args.find? fun a => a.key = none with
  | none => exact returns_ok trivial
  | some a =>
    have ha := hargs a (mem_of_find?_eq_some hfound)
    exact (slice_returns ha.value).bind fun _ _ => returns_ok trivial

theorem kwStr_returns (key : List Char) :
    Returns (d.kwStr c key) (fun _ => True) := by
  refine (kw_returns h key).bind ?_
  intro found hfound
  cases found with
  | none => exact returns_ok trivial
  | some a => exact (slice_returns (hfound a rfl).value).bind fun _ _ => returns_ok trivial

end

/-- A literal list takes the whole of its value. -/
theorem list_returns {value : Span} (hpos : 0 < value.2) :
    Returns (d.list value) (fun found => ∀ list, found = some list →
      d.Brackets list.1 list.2 ∧ list.1 = value.1 ∧ list.2 + 1 = value.2) := by
  have hne : value.2 ≠ 0 := by omega
  unfold list
  rw [if_neg hne]
  refine returns_ite ?_ fun _ => returns_ok fun list hlist => by cases hlist
  rintro ⟨hopen, hclose⟩
  obtain ⟨x, hx, hchar⟩ := charAt_eq_some hopen
  have hopens : isOpen x = true := by
    rw [isOpen, hchar]
    decide
  refine returns_ok fun list hlist => ?_
  cases hlist
  refine ⟨brackets_of_closeOf hx hopens hclose, rfl, ?_⟩
  show value.2 - 1 + 1 = value.2
  omega

theorem listOf_returns {bracket close : Nat} {found : Option Arg}
    (h : ∀ a, found = some a → d.GoodArg bracket close a) :
    Returns (d.listOf found) (fun list => ∀ l, list = some l →
      d.Brackets l.1 l.2 ∧ bracket < l.1 ∧ l.2 < close) := by
  cases found with
  | none => exact returns_ok fun l hl => by cases hl
  | some a =>
    have ha := h a rfl
    have hlt := ha.span.lt
    have hstop := ha.value_stop
    have hstart := ha.value_start
    have hlo := ha.span.lo_le
    have hhi := ha.span.le_hi
    refine (list_returns (by omega)).mono fun list hlist l hl => ?_
    obtain ⟨hbrackets, hfirst, hlast⟩ := hlist l hl
    exact ⟨hbrackets, by omega, by omega⟩

end Calls

end Doc

end DescriptionEdit
end StudioWeb
