import StudioWeb.DescriptionEdit.OntoLatest
import StudioWeb.DescriptionEdit.ProductCall
import Mathlib.Data.List.TakeWhile

/-!
# The edits a save collects

Each edit of a save replaces a span that can be sliced.  Edits of what stands in
the product call begin after its bracket: an item that is taken out with its
whole line has only white space before it on the line.
-/

namespace StudioWeb
namespace DescriptionEdit

open Rust List Utf8

variable {d : Doc}

/-- An edit of a span that can be sliced, not before an offset. -/
structure EditOk (d : Doc) (lo : Nat) (edit : Edit) : Prop where
  cuts : d.Cuts (edit.start, edit.stop)
  lo_le : lo ≤ edit.start

def EditsOk (d : Doc) (lo : Nat) (edits : Edits) : Prop := ∀ edit ∈ edits, EditOk d lo edit

/-- An offset that no line can be taken out across: the front of the text, or
right after a bracket. -/
def Guard (d : Doc) (lo : Nat) : Prop :=
  lo = 0 ∨ ∃ i x, lo = i + 1 ∧ d.cells[i]? = some x ∧ isOpen x = true

theorem Doc.Brackets.guard {bracket close : Nat} (h : d.Brackets bracket close) :
    Guard d (bracket + 1) := by
  obtain ⟨x, hx, hopens⟩ := h.opens
  exact Or.inr ⟨bracket, x, rfl, hx, hopens⟩

theorem EditsOk.push {lo start stop : Nat} {edits : Edits} (h : EditsOk d lo edits)
    (hcuts : d.Cuts (start, stop)) (hlo : lo ≤ start) (text : List Char) :
    EditsOk d lo (edits.push start stop text) := by
  intro edit hedit
  rcases mem_append.mp hedit with hedit | hedit
  · exact h edit hedit
  · rw [mem_singleton.mp hedit]
    exact ⟨hcuts, hlo⟩

theorem EditsOk.insert {lo spot : Nat} {edits : Edits} (h : EditsOk d lo edits)
    (hspot : d.Boundary spot) (hlo : lo ≤ spot) (text : List Char) :
    EditsOk d lo (edits.insert spot text) := by
  exact h.push ⟨hspot, hspot, Nat.le_refl spot⟩ hlo text

theorem mem_of_cell {s e i : Nat} {v : List Char} {x : Cell} (hslice : d.slice (s, e) = .ok v)
    (hx : d.cells[i]? = some x) (hs : s ≤ i) (he : i < e) : x.char ∈ v := by
  obtain ⟨u, w, ht, hu, hlen⟩ := exists_of_slice hslice
  have hbyte : (encode d.t)[i]? = some x.toByte := by
    rw [Doc.getElem?_encode, hx]
    rfl
  have hu' : (encode u).length = s := hu
  have hv' : (encode v).length = e - s := by
    have h : byteLen u + byteLen v = e := hlen
    have hb : byteLen v = (encode v).length := rfl
    have hs' : byteLen u = s := hu
    omega
  rw [ht, append_assoc, encode_append, encode_append,
    getElem?_append_right (by omega), getElem?_append_left (by omega)] at hbyte
  obtain ⟨c, hc, hmem⟩ := mem_flatMap.mp (mem_of_getElem? hbyte)
  obtain ⟨place, _, hplace⟩ := mem_map.mp hmem
  have hchar : c = x.char := congrArg Utf8.Byte.char hplace
  rw [← hchar]
  exact hc

theorem isWhitespace_of_trim {text : List Char} (h : trim text = []) :
    ∀ c ∈ text, isWhitespace c = true := by
  have hstart : trimStart text = [] := by
    unfold trim trimEnd at h
    rw [reverse_eq_nil_iff] at h
    cases hrest : trimStart text with
    | nil => rfl
    | cons c =>
      have hhead : isWhitespace c = false := by
        have hdrop := head?_dropWhile_not isWhitespace text
        unfold trimStart at hrest
        rw [hrest] at hdrop
        simpa using hdrop
      rw [hrest] at h
      have hall := dropWhile_eq_nil_iff.mp h c (mem_reverse.mpr mem_cons_self)
      rw [hhead] at hall
      cases hall
  exact dropWhile_eq_nil_iff.mp hstart

theorem not_isWhitespace_of_isOpen {x : Cell} (h : isOpen x = true) :
    isWhitespace x.char = false := by
  unfold isOpen at h
  simp only [Bool.or_eq_true, decide_eq_true_eq] at h
  obtain (h | h) | h := h <;> rw [h] <;> decide

theorem lo_le_of_blank {lo s ls : Nat} {before : List Char} (hguard : Guard d lo) (hlo : lo ≤ s)
    (hslice : d.slice (ls, s) = .ok before) (hblank : trim before = []) : lo ≤ ls := by
  obtain rfl | ⟨i, x, rfl, hx, hopens⟩ := hguard
  · exact Nat.zero_le ls
  · by_contra hnot
    have hmem := mem_of_cell hslice hx (by omega) (by omega)
    have hspace := isWhitespace_of_trim hblank x.char hmem
    rw [not_isWhitespace_of_isOpen hopens] at hspace
    cases hspace

theorem deleteItem_returns {lo : Nat} {edits : Edits} {span : Span} (h : EditsOk d lo edits)
    (hguard : Guard d lo) (hspan : d.Cuts span) (hlo : lo ≤ span.1) :
    Returns (edits.deleteItem d span) (EditsOk d lo) := by
  obtain ⟨s, e⟩ := span
  have hlen := hspan.stop.le_len
  have hle := hspan.le
  refine (Doc.skipWhile_returns (by show e + (d.len - e) ≤ d.len; omega)).bind ?_
  intro j hj
  have hstop : e + (d.len - e) = d.len := by
    show e + (d.len - e) = d.len
    omega
  rw [hstop] at hj
  have hej := hj.start_le
  -- The end of the item, with its comma when it has one.
  have hend : ∀ e', e' = (if (d.cells[j]?.any fun x =>
      decide (x.char = ',') && decide (x.kind = .code)) = true then j + 1 else e) →
      d.Boundary e' ∧ e ≤ e' := by
    rintro e' rfl
    split_ifs with hcomma
    · obtain ⟨x, hx, hx'⟩ := (Option.any_eq_true ..).mp hcomma
      have hchar : x.char = ',' := by
        rw [Bool.and_eq_true, decide_eq_true_eq] at hx'
        exact hx'.1
      refine ⟨Doc.boundary_succ hx (by rw [hchar]; decide), ?_⟩
      omega
    · exact ⟨hspan.stop, Nat.le_refl e⟩
  generalize hcut : (if (d.cells[j]?.any fun x =>
    decide (x.char = ',') && decide (x.kind = .code)) = true then j + 1 else e) = e' at hend
  obtain ⟨he', hee'⟩ := hend e' rfl
  have hse : s ≤ e := hle
  refine (Doc.lineStart_returns hspan.start).bind ?_
  rintro ls ⟨hls, hlss⟩
  refine Returns.bind (P := fun le => d.Boundary le ∧ e' ≤ le ∧
    (le < d.len → d.Boundary (le + 1))) ?_ ?_
  · have hline := Doc.lineEnd_returns he'
    rw [← hcut] at hline
    rw [← hcut]
    exact hline
  rintro le ⟨hle', hele, hnext⟩
  have hbefore : d.Cuts (ls, s) := ⟨hls, hspan.start, hlss⟩
  obtain ⟨before, hslice⟩ := exists_slice hls hspan.start hlss
  refine (returns_of_eq_ok (P := fun b => b = before) hslice rfl).bind ?_
  rintro b rfl
  refine Returns.bind (P := fun _ => True) ?_ ?_
  · have hafter := Doc.slice_returns (d := d) (s := (e', le)) ⟨he', hle', hele⟩
    rw [← hcut] at hafter
    exact hafter.mono fun _ _ => trivial
  intro _ _
  refine returns_ite ?_ ?_
  · rintro ⟨hblank, _⟩
    have hlole := lo_le_of_blank hguard hlo hslice hblank
    refine returns_ok (h.push ⟨hls, ?_, ?_⟩ hlole [])
    · show d.Boundary (min (le + 1) d.len)
      obtain hlt | hge := Nat.lt_or_ge le d.len
      · rw [Nat.min_eq_left hlt]
        exact hnext hlt
      · rw [Nat.min_eq_right (by omega)]
        exact d.boundary_len
    · have hlslen := hls.le_len
      show ls ≤ min (le + 1) d.len
      omega
  · intro _
    have he'len := he'.le_len
    have hskip := Doc.skipWhile_returns (d := d) (p := fun x => x.char = ' ')
      (n := d.len - e') (i := e') (by omega)
    refine Returns.bind (P := d.Skipped (fun x => decide (x.char = ' ')) e' (e' + (d.len - e'))) ?_ ?_
    · rw [← hcut] at hskip
      rw [← hcut]
      exact hskip
    · intro k hk
      have hk' := hk.boundary (fun x hx => by rw [decide_eq_true_eq.mp hx]; decide) he' (by omega)
      have hke := hk.start_le
      exact returns_ok (h.push (show d.Cuts (s, k) from
        ⟨hspan.start, hk', show s ≤ k by omega⟩) hlo [])

theorem comma_returns {list : Span} {stop j : Nat} (hj : d.Skipped isAsciiWhitespace stop list.2 j)
    (hstop : d.Boundary stop) :
    ∀ spot, spot = (if (decide (j < list.2) && decide (d.charAt j = some ',')) = true then
      j + 1 else stop) → d.Boundary spot ∧ stop ≤ spot := by
  rintro spot rfl
  have hle := hj.start_le
  split_ifs with hcomma
  · rw [Bool.and_eq_true, decide_eq_true_eq, decide_eq_true_eq] at hcomma
    obtain ⟨x, hx, hchar⟩ := Doc.charAt_eq_some hcomma.2
    refine ⟨Doc.boundary_succ hx (by rw [hchar]; decide), ?_⟩
    omega
  · exact ⟨hstop, Nat.le_refl stop⟩

theorem insertItems_returns
    {lo : Nat} {edits : Edits} {list : Span} {texts : List (List Char)} {owner : Option Span}
    (h : EditsOk d lo edits) (hlist : d.Brackets list.1 list.2) (hlo : lo ≤ list.1 + 1)
    (howner : ∀ o, owner = some o → d.Boundary o.1) :
    Returns (edits.insertItems d list texts owner) (EditsOk d lo) := by
  have hstart : d.Boundary ((owner.map Prod.fst).getD list.1) := by
    cases owner with
    | none => exact hlist.boundary_bracket
    | some o => exact howner o rfl
  have hcut : d.Cuts list := ⟨hlist.boundary_bracket, hlist.boundary_close, Nat.le_of_lt hlist.lt⟩
  have hlen := hlist.close_lt_len
  have hlt := hlist.lt
  refine returns_ite (fun _ => returns_ok h) fun _ => ?_
  refine (Doc.items_returns hlist).bind ?_
  rintro items ⟨hitems, _⟩
  refine (Doc.slice_returns hcut).bind fun inside _ => ?_
  cases hlast : items.getLast? with
  | none =>
    refine (Doc.indentOf_returns hstart).bind fun base _ => ?_
    refine returns_ok (h.push ⟨hlist.boundary_inside, hlist.boundary_close, ?_⟩ hlo _)
    show list.1 + 1 ≤ list.2
    omega
  | some last =>
    have hitem := hitems last (mem_of_getLast? hlast)
    have hfirst := hitem.lo_le
    have hend := hitem.le_hi
    have hnonempty := hitem.lt
    refine (Doc.skipWhile_returns (by omega)).bind ?_
    intro j hj
    have hj2 : last.2 + (list.2 - last.2) = list.2 := by omega
    rw [hj2] at hj
    refine returns_ite (fun _ => ?_) fun _ => ?_
    · refine (Doc.indentOf_returns hitem.start).bind fun indent _ => ?_
      obtain ⟨hspot, hle⟩ := comma_returns hj hitem.stop _ rfl
      refine (Doc.lineEnd_returns hspot).bind ?_
      rintro lineEnd ⟨_, hlineLe, hnext⟩
      have hedits : EditsOk d lo (if (decide (j < list.2) &&
          decide (d.charAt j = some ',')) = true then edits
            else edits.insert last.2 [',']) := by
        split_ifs
        · exact h
        · exact h.insert hitem.stop (by omega) _
      refine returns_ite (fun hbefore => ?_) fun _ => ?_
      · exact returns_ok (hedits.insert (hnext (by omega)) (by omega) _)
      · refine (Doc.indentOf_returns hstart).bind fun closeIndent _ => ?_
        exact returns_ok (hedits.insert hlist.boundary_close (by omega) _)
    · obtain ⟨hspot, hle⟩ := comma_returns hj hitem.stop _ rfl
      refine returns_ite (fun hcomma => ?_) fun _ => ?_
      · rw [if_pos hcomma] at hspot hle
        exact returns_ok (h.insert hspot (by omega) _)
      · exact returns_ok (h.insert hitem.stop (by omega) _)

theorem cuts_whole (v : List Char) : (Doc.new v).Cuts (0, (Doc.new v).len) := by
  exact ⟨Doc.boundary_zero _, Doc.boundary_len _, Nat.zero_le _⟩

/-- An argument that is taken out goes with the comma before it, and the first
one with the comma after it. -/
theorem cuts_argument {bracket close i : Nat} {args : List Arg} {a : Arg}
    (hargs : ∀ b ∈ args, d.GoodArg bracket close b)
    (hpairwise : args.Pairwise fun a b => a.span.2 ≤ b.span.1) (hfound : args[i]? = some a) :
    ∀ s e, (s, e) = (if 0 < i then ((args[i - 1]?.elim a.span.1 fun b => b.span.2), a.span.2)
      else (a.span.1, (args[1]?.elim a.span.2 fun b => b.span.1))) →
      d.Cuts (s, e) ∧ bracket + 1 ≤ s := by
  intro s e hcut
  have ha := (hargs a (mem_of_getElem? hfound)).span
  have hfirst := ha.lo_le
  have hlt := ha.lt
  obtain ⟨hi, hget⟩ := List.getElem?_eq_some_iff.mp hfound
  split_ifs at hcut with hpos
  · have hbefore : args[i - 1]? = some args[i - 1] := getElem?_eq_getElem (by omega)
    rw [hbefore] at hcut
    cases hcut
    have hb := (hargs _ (mem_of_getElem? hbefore)).span
    have horder := pairwise_iff_getElem.mp hpairwise (i - 1) i (by omega) hi (by omega)
    rw [hget] at horder
    have hlo := hb.lo_le
    have hlt' := hb.lt
    refine ⟨⟨hb.stop, ha.stop, ?_⟩, ?_⟩
    · show args[i - 1].span.2 ≤ a.span.2
      omega
    · show bracket + 1 ≤ args[i - 1].span.2
      omega
  · have hzero : i = 0 := by omega
    subst hzero
    cases hafter : args[1]? with
    | none =>
      rw [hafter] at hcut
      cases hcut
      exact ⟨ha.toCuts, hfirst⟩
    | some b =>
      rw [hafter] at hcut
      cases hcut
      have hb := (hargs b (mem_of_getElem? hafter)).span
      obtain ⟨hone, hget'⟩ := List.getElem?_eq_some_iff.mp hafter
      have horder := pairwise_iff_getElem.mp hpairwise 0 1 hi hone (by omega)
      rw [hget, hget'] at horder
      refine ⟨⟨ha.start, hb.start, ?_⟩, hfirst⟩
      show a.span.1 ≤ b.span.1
      omega

theorem setKw_returns
    {lo : Nat} {edits : Edits} {c : Call} {key : List Char} {value : Option (List Char)}
    (h : EditsOk d lo edits) (hcall : d.Brackets c.bracket c.close) (hlo : lo ≤ c.bracket + 1) :
    Returns (edits.setKw d c key value) (EditsOk d lo) := by
  refine (Doc.args_returns hcall).bind ?_
  rintro args ⟨hargs, hpairwise⟩
  dsimp only
  cases hfound : args[args.findIdx fun a => a.key = some key]? with
  | some a =>
    have ha := hargs a (mem_of_getElem? hfound)
    have hfirst := ha.span.lo_le
    have hvalue := ha.value_start
    cases value with
    | some v =>
      refine (Doc.norm_returns ha.value).bind fun mine _ => ?_
      refine (Doc.norm_returns (cuts_whole v)).bind fun theirs _ => ?_
      refine returns_ite (fun _ => ?_) fun _ => returns_ok h
      exact returns_ok (h.push ha.value (hlo.trans (hfirst.trans hvalue)) v)
    | none =>
      obtain ⟨hcut, hle⟩ := cuts_argument hargs hpairwise hfound _ _ rfl
      exact returns_ok (h.push hcut (by omega) [])
  | none =>
    cases value with
    | none => exact returns_ok h
    | some =>
      cases hlast : args.getLast? with
      | none => exact returns_ok (h.insert hcall.boundary_inside hlo _)
      | some last =>
        have hitem := hargs last (mem_of_getLast? hlast)
        have hfirst := hitem.span.lo_le
        have hnonempty := hitem.span.lt
        exact returns_ok (h.insert hitem.span.stop (by omega) _)

/-- A text begins as the description does, up to an offset. -/
def Agrees (d : Doc) (spot : Nat) (out : List Char) : Prop :=
  ∃ u w w', out = u ++ w ∧ d.t = u ++ w' ∧ byteLen u = spot

theorem Agrees.of_le {spot lo : Nat} {out : List Char} (h : Agrees d spot out) (hlo : d.Boundary lo)
    (hle : lo ≤ spot) : Agrees d lo out := by
  obtain ⟨u, w, w', rfl, ht, rfl⟩ := h
  have hboundary : isBoundary (encode (u ++ w')) lo = true := by
    rw [← ht]
    exact hlo
  obtain ⟨a, b, rfl, ha⟩ := isBoundary_iff.mp (isBoundary_of_append hboundary hle)
  refine ⟨a, b ++ w, b ++ w', append_assoc a b w, ?_, ha⟩
  rw [ht, append_assoc]

theorem replaceRange_returns {spot lo : Nat} {out : List Char} {edit : Edit} (h : Agrees d spot out)
    (hedit : EditOk d lo edit) (hle : edit.stop ≤ spot) :
    Returns (replaceRange out edit.start edit.stop edit.text) (Agrees d edit.start) := by
  obtain ⟨u, w, w', rfl, ht, rfl⟩ := h
  have hstart := hedit.cuts.start
  have hstop := hedit.cuts.stop
  have horder := hedit.cuts.le
  rw [Doc.Boundary, ht] at hstart hstop
  obtain ⟨a, b, c, rfl, ha, hb⟩ := exists_pieces
    (isBoundary_of_append hstart (Nat.le_trans horder hle)) (isBoundary_of_append hstop hle) horder
  have hreplace := replaceRange_eq_ok a b (c ++ w) edit.text
  rw [hb, ha, ← append_assoc] at hreplace
  refine returns_of_eq_ok hreplace ⟨a, edit.text ++ (c ++ w), b ++ c ++ w', ?_, ?_, ha⟩
  · rw [append_assoc]
  · rw [ht]
    simp only [append_assoc]

theorem replaceAll_returns {lo : Nat} {floor : Option Nat} {out : List Char} {edits : List Edit}
    (hlo : d.Boundary lo) (hle : lo ≤ floor.getD d.len) (h : Agrees d (floor.getD d.len) out)
    (hedits : ∀ edit ∈ edits, EditOk d lo edit) (hfree : Edits.overlaps floor edits = false) :
    Returns (Edits.replaceAll out edits) (Agrees d lo) := by
  induction edits generalizing floor out with
  | nil => exact returns_ok (h.of_le hlo hle)
  | cons edit edits ih =>
    have hedit := hedits edit mem_cons_self
    have hstop : edit.stop ≤ floor.getD d.len := by
      cases floor with
      | none => exact hedit.cuts.stop.le_len
      | some f =>
        by_contra hover
        have hlt : f < edit.stop := Nat.lt_of_not_le hover
        rw [Edits.overlaps, Option.any_some, decide_eq_true hlt] at hfree
        cases hfree
    have horder : edit.start ≤ edit.stop := hedit.cuts.le
    have hrest : Edits.overlaps (some edit.start) edits = false := by
      rw [Edits.overlaps] at hfree
      split_ifs at hfree
      cases floor with
      | none => exact hfree
      | some f =>
        have hmin : min f edit.start = edit.start := Nat.min_eq_right (Nat.le_trans horder hstop)
        rw [Option.elim_some, hmin] at hfree
        exact hfree
    refine (replaceRange_returns h hedit hstop).bind fun out' hout' => ?_
    exact @ih (some edit.start) out' hedit.lo_le hout'
      (fun edit' h' => hedits edit' (mem_cons_of_mem edit h')) hrest

/-- Edits that can be made are applied, and leave the text before all of them. -/
theorem apply_safe {lo : Nat} {edits : Edits} (hlo : d.Boundary lo) (h : EditsOk d lo edits) :
    Safe (edits.apply d.t) (Agrees d lo) := by
  refine safe_ite (fun _ => safe_fail) fun hfree => ?_
  refine @replaceAll_returns d lo none _ _ hlo hlo.le_len ?_ ?_ (by simpa using hfree) |>.safe
  · exact ⟨d.t, [], [], (append_nil d.t).symm, (append_nil d.t).symm, d.len_eq.symm⟩
  · intro edit hedit
    exact h edit ((mem_insertionSort Edits.applied).mp hedit)

end DescriptionEdit
end StudioWeb
