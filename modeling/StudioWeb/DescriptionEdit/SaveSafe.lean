import StudioWeb.DescriptionEdit.EditsSafe

/-!
# A save does not panic between its brackets

With the product calls of two texts found, a save reads only what stands in
their brackets, and each of its edits is one of what it read.  A save that writes
no frontend edits nothing before the bracket of the latest product call.

**Results.**
* `sources_returns`, `named_returns`: what a save reads of a text.
* `collect_returns`: the edits it collects.
* `lostOf_returns`: the check of the edited text.
-/

namespace StudioWeb
namespace DescriptionEdit

open Rust List Doc Utf8

section Reads

variable {d : Doc}

/-- An item that is a call with an id, not before an offset. -/
structure NamedOk (d : Doc) (lo : Nat) (n : Named) : Prop where
  cuts : d.Cuts n.item
  lo_le : lo ≤ n.item.1
  call : d.Brackets n.call.bracket n.call.close
  item_lt : n.item.1 < n.call.bracket

theorem NamedOk.lo_le_bracket {lo : Nat} {n : Named} (h : NamedOk d lo n) :
    lo ≤ n.call.bracket + 1 := by
  have hlo := h.lo_le
  have hlt := h.item_lt
  omega

theorem exists_of_forall₂
    {α β : Type} {P : α → Option β → Prop} {xs : List α} {ys : List (Option β)} {b : β}
    (h : List.Forall₂ P xs ys) (hb : b ∈ ys.filterMap id) : ∃ x ∈ xs, P x (some b) := by
  induction h with
  | nil => exact absurd hb not_mem_nil
  | @cons x _ _ _ hxy _ ih =>
    obtain ⟨y', hy', hsome⟩ := mem_filterMap.mp hb
    rcases mem_cons.mp hy' with rfl | hrest
    · have hy : y' = some b := hsome
      exact ⟨x, mem_cons_self, hy ▸ hxy⟩
    · obtain ⟨x', hx', hP⟩ := ih (mem_filterMap.mpr ⟨y', hrest, hsome⟩)
      exact ⟨x', mem_cons_of_mem x hx', hP⟩

theorem namedOf_returns {item : Span} (h : d.Cuts item) :
    Returns (d.namedOf item) (fun found => ∀ n, found = some n →
      n.item = item ∧ d.Brackets n.call.bracket n.call.close ∧ item.1 < n.call.bracket) := by
  refine (call_returns h).bind fun found hfound => ?_
  cases found with
  | none => exact returns_ok fun n hn => by cases hn
  | some c =>
    obtain ⟨hcall, hlt, _⟩ := hfound c rfl
    refine (firstStr_returns hcall).bind fun id _ => returns_ok fun n hn => ?_
    obtain ⟨id, _, rfl⟩ := Option.map_eq_some_iff.mp hn
    exact ⟨rfl, hcall, hlt⟩

theorem named_returns {lo : Nat} {list : Span} (h : d.Brackets list.1 list.2)
    (hlo : lo ≤ list.1 + 1) :
    Returns (d.named list) (fun found => ∀ n ∈ found, NamedOk d lo n) := by
  refine (items_returns h).bind ?_
  rintro items ⟨hitems, _⟩
  refine (returns_mapM fun item hitem => namedOf_returns (hitems item hitem).toCuts).bind ?_
  intro found hfound
  refine returns_ok fun n hn => ?_
  obtain ⟨item, hitem, hnamed⟩ := exists_of_forall₂ hfound hn
  obtain ⟨rfl, hcall, hlt⟩ := hnamed n rfl
  have hspan := hitems n.item hitem
  exact ⟨hspan.toCuts, hlo.trans hspan.lo_le, hcall, hlt⟩

theorem valueText_returns {bracket close : Nat} {arg : Option Arg}
    (h : ∀ a, arg = some a → d.GoodArg bracket close a) :
    Returns (d.valueText arg) (fun _ => True) := by
  cases arg with
  | none => exact returns_ok trivial
  | some a => exact (slice_returns (h a rfl).value).bind fun _ _ => returns_ok trivial

variable {root : List Char} {repo : Option (List Char)}

theorem identity_returns {spot : Span}
    (h : d.Cuts spot) : Returns (d.identity spot root repo) (fun _ => True) := by
  have htext : ∀ name : List Char, Returns (do
      let text ← d.norm spot
      .ok (name ++ text) : Outcome (List Char)) (fun _ => True) :=
    fun name => (norm_returns h).bind fun _ _ => returns_ok trivial
  refine (slice_returns h).bind fun _ _ => ?_
  refine (call_returns h).bind fun found hfound => ?_
  cases found with
  | none => exact htext _
  | some c =>
    obtain ⟨hcall, hlt, _⟩ := hfound c rfl
    have hname : d.Cuts (spot.1, c.bracket) := ⟨h.start, hcall.boundary_bracket, Nat.le_of_lt hlt⟩
    refine (slice_returns hname).bind fun name _ => ?_
    refine returns_ite (fun _ => ?_) fun _ => returns_ite (fun _ => ?_) fun _ => htext _
    · extract_lets found
      have hurl : ∀ url, Returns (found url) (fun _ => True) := by
        intro url
        cases url with
        | some => exact returns_ok trivial
        | none => exact htext _
      refine (kwStr_returns hcall _).bind fun url _ => ?_
      cases url with
      | some url => exact hurl (some url)
      | none => exact (firstStr_returns hcall).bind fun url _ => hurl url
    · refine (firstStr_returns hcall).bind fun p _ => ?_
      cases repo with
      | none => exact returns_ok trivial
      | some => exact returns_ite (fun _ => returns_ok trivial) fun _ => returns_ok trivial

theorem sourceOf_returns {item : Span}
    (h : d.Cuts item) : Returns (d.sourceOf root repo item) (fun _ => True) := by
  refine (call_returns h).bind fun found hfound => ?_
  cases found with
  | none => exact returns_ok trivial
  | some c =>
    obtain ⟨hcall, _, _⟩ := hfound c rfl
    have htext : ∀ id identity, Returns (do
        let text ← d.slice item
        .ok (some ⟨id, identity, text⟩) : Outcome (Option Source)) (fun _ => True) :=
      fun _ _ => (slice_returns h).bind fun _ _ => returns_ok trivial
    refine (kwStr_returns hcall _).bind fun id _ => ?_
    extract_lets read
    have hid : ∀ id, Returns (read id) (fun _ => True) := by
      intro id
      cases id with
      | none => exact returns_ok trivial
      | some =>
        refine (kw_returns hcall _).bind fun a ha => ?_
        cases a with
        | some a => exact (identity_returns (ha a rfl).value).bind fun _ _ => htext _ _
        | none => exact htext _ _
    cases id with
    | some id => exact hid (some id)
    | none => exact (firstStr_returns hcall).bind fun id _ => hid id

theorem sources_returns {p : Call}
    (h : d.Brackets p.bracket p.close) : Returns (d.sources p root repo) (fun _ => True) := by
  refine (kw_returns h _).bind fun arg harg => ?_
  refine (listOf_returns harg).bind fun list hlist => ?_
  cases list with
  | none => exact returns_ok trivial
  | some list =>
    obtain ⟨hbrackets, _, _⟩ := hlist list rfl
    refine (items_returns hbrackets).bind ?_
    rintro items ⟨hitems, _⟩
    refine (returns_mapM fun item hitem => sourceOf_returns (hitems item hitem).toCuts).bind ?_
    exact fun _ _ => returns_ok trivial

end Reads

section Gears

variable {ld rd : Doc} {change : Change} {lo : Nat} {edits : Edits}

theorem setConfig_returns {p r : Named} {key : List Char} (h : EditsOk ld lo edits)
    (hp : NamedOk ld lo p) (hr : rd.Brackets r.call.bracket r.call.close) :
    Returns (do
      let value ← rd.valueText (← rd.kw r.call key)
      edits.setKw ld p.call key value) (EditsOk ld lo) := by
  refine (kw_returns hr key).bind fun arg harg => ?_
  refine (valueText_returns harg).bind fun value _ => ?_
  exact setKw_returns h hp.call hp.lo_le_bracket

theorem pluginEdits_returns {rplugins : List Named} {p : Named} (hguard : Guard ld lo)
    (h : EditsOk ld lo edits) (hrplugins : ∀ r ∈ rplugins, rd.Brackets r.call.bracket r.call.close)
    (hp : NamedOk ld lo p) :
    Returns (pluginEdits ld rd change rplugins edits p) (EditsOk ld lo) := by
  unfold pluginEdits
  cases hfound : rplugins.find? fun r => r.id = p.id with
  | none =>
    refine returns_ite (fun _ => ?_) fun _ => returns_ok h
    exact deleteItem_returns h hguard hp.cuts hp.lo_le
  | some r =>
    refine returns_ite (fun _ => ?_) fun _ => returns_ok h
    exact setConfig_returns h hp (hrplugins r (mem_of_find?_eq_some hfound))

theorem plugins_returns {lc rc : Call} (hguard : Guard ld lo) (h : EditsOk ld lo edits)
    (hlc : ld.Brackets lc.bracket lc.close) (hlo : lo ≤ lc.bracket + 1)
    (hrc : rd.Brackets rc.bracket rc.close) :
    Returns (plugins ld rd change lc rc edits) (EditsOk ld lo) := by
  refine (kw_returns hrc _).bind fun rarg hrarg => ?_
  -- What is done with the rendered plugins does not depend on where they were found.
  extract_lets go
  have hgo : ∀ rplugins, (∀ r ∈ rplugins, NamedOk rd 0 r) →
      Returns (go rplugins) (EditsOk ld lo) := by
    intro rplugins hrplugins
    refine (kw_returns hlc _).bind fun larg hlarg => ?_
    refine (listOf_returns hlarg).bind fun list hlist => ?_
    cases list with
    | none =>
      refine returns_ite (fun _ => ?_) fun _ => returns_ok h
      cases rarg with
      | none => exact returns_ok h
      | some ra =>
        refine (slice_returns (hrarg ra rfl).value).bind fun text _ => ?_
        exact setKw_returns h hlc hlo
    | some llist =>
      obtain ⟨hbrackets, hlt, _⟩ := hlist llist rfl
      have hlo' : lo ≤ llist.1 + 1 := by omega
      refine (named_returns hbrackets hlo').bind fun lplugins hlplugins => ?_
      refine Returns.bind (returns_foldlM h fun edits hedits p hp =>
        pluginEdits_returns hguard hedits (fun r hr => (hrplugins r hr).call)
          (hlplugins p hp)) fun edits hedits => ?_
      refine Returns.bind (returns_mapM fun r hr =>
        slice_returns (hrplugins r (mem_filter.mp hr).1).cuts) fun texts _ => ?_
      refine insertItems_returns hedits hbrackets hlo' fun o ho => ?_
      obtain ⟨a, ha, rfl⟩ := Option.map_eq_some_iff.mp ho
      exact (hlarg a ha).span.start
  refine (listOf_returns hrarg).bind fun list hlist => ?_
  cases list with
  | none => exact hgo [] fun r hr => absurd hr not_mem_nil
  | some list =>
    refine (named_returns (hlist list rfl).1 (Nat.zero_le _)).bind fun rplugins hrplugins => ?_
    exact hgo rplugins hrplugins

theorem gearEdits_returns {rgears : List Named} {gear : Named} (hguard : Guard ld lo)
    (h : EditsOk ld lo edits) (hrgears : ∀ r ∈ rgears, NamedOk rd 0 r)
    (hgear : NamedOk ld lo gear) :
    Returns (gearEdits ld rd change rgears edits gear) (EditsOk ld lo) := by
  unfold gearEdits
  cases hfound : rgears.reverse.find? fun r => r.id = gear.id with
  | none =>
    refine returns_ite (fun _ => ?_) fun _ => returns_ok h
    exact deleteItem_returns h hguard hgear.cuts hgear.lo_le
  | some r =>
    have hr := hrgears r (mem_reverse.mp (mem_of_find?_eq_some hfound))
    have hplugins : ∀ edits', EditsOk ld lo edits' →
        Returns (plugins ld rd change gear.call r.call edits') (EditsOk ld lo) :=
      fun edits' h' => plugins_returns hguard h' hgear.call hgear.lo_le_bracket hr.call
    dsimp only
    split_ifs with hconfig
    · refine (kw_returns hr.call _).bind fun arg harg => ?_
      refine (valueText_returns harg).bind fun value _ => ?_
      exact (setKw_returns h hgear.call hgear.lo_le_bracket).bind hplugins
    · exact hplugins edits h

theorem remapAll_returns {s : Sources} {added : List Named} (h : ∀ r ∈ added, NamedOk rd 0 r) :
    Returns (remapAll rd s added) (fun _ => True) := by
  induction added generalizing s with
  | nil => exact returns_ok trivial
  | cons r _ ih =>
    refine (slice_returns (h r mem_cons_self).cuts).bind fun text _ => ?_
    refine (ih fun r' hr' => h r' (mem_cons_of_mem r hr')).bind fun _ _ => ?_
    exact returns_ok trivial

end Gears

section Version

variable {d : Doc}

theorem flatten_linesInclusive (text : List Char) : (linesInclusive text).flatten = text := by
  induction text with
  | nil => rfl
  | cons _ text ih =>
    unfold linesInclusive
    split_ifs with hbreak
    · rw [flatten_cons, ih]
      rfl
    · cases hlines : linesInclusive text with
      | nil =>
        rw [hlines] at ih
        rw [← ih]
        rfl
      | cons =>
        rw [hlines] at ih
        rw [← ih]
        rfl

theorem exists_trim (text : List Char) :
    ∃ front back, text = front ++ trim text ++ back ∧
      trimStart text = trim text ++ back ∧ text = front ++ trimStart text := by
  have hfront : text = text.takeWhile isWhitespace ++ trimStart text :=
    takeWhile_append_dropWhile.symm
  have hback : trimStart text =
      trim text ++ ((trimStart text).reverse.takeWhile isWhitespace).reverse := by
    unfold trim trimEnd
    rw [← reverse_append, takeWhile_append_dropWhile, reverse_reverse]
  refine ⟨_, _, ?_, hback, hfront⟩
  rw [append_assoc, ← hback]
  exact hfront

theorem cuts_value {u front value w : List Char} (ht : d.t = u ++ (front ++ value) ++ w) :
    let v0 := byteLen u + (byteLen (front ++ value) - byteLen value)
    let vs := v0 + (byteLen value - byteLen (trimStart value))
    d.Cuts (vs, vs + byteLen (trim value)) := by
  obtain ⟨before, after, hvalue, _, hstart⟩ := exists_trim value
  have hlen : byteLen value = byteLen before + byteLen (trimStart value) := by
    rw [← byteLen_append, ← hstart]
  have hvs : byteLen u + (byteLen (front ++ value) - byteLen value) +
      (byteLen value - byteLen (trimStart value)) = byteLen (u ++ front ++ before) := by
    rw [byteLen_append, byteLen_append, byteLen_append]
    omega
  have htext : d.t = u ++ front ++ before ++ (trim value ++ (after ++ w)) := by
    rw [ht]
    conv => lhs; rw [hvalue]
    simp only [append_assoc]
  dsimp only
  rw [hvs, ← byteLen_append]
  refine ⟨boundary_byteLen htext, ?_, ?_⟩
  · refine boundary_byteLen (v := after ++ w) ?_
    rw [htext]
    simp only [append_assoc]
  · show byteLen (u ++ front ++ before) ≤ byteLen (u ++ front ++ before ++ trim value)
    rw [byteLen_append _ (trim value)]
    exact Nat.le_add_right _ _

theorem topAssignFrom_cuts {name u w : List Char} {lines : List (List Char)} {found : Span × Span}
    (ht : d.t = u ++ lines.flatten ++ w)
    (h : d.topAssignFrom name lines (byteLen u) = some found) : d.Cuts found.2 := by
  induction lines generalizing u with
  | nil => cases h
  | cons line lines ih =>
    have htext : d.t = u ++ line ++ lines.flatten ++ w := by
      rw [ht, flatten_cons]
      simp only [append_assoc]
    have hnext : d.topAssignFrom name lines (byteLen u + byteLen line) = some found →
        d.Cuts found.2 := by
      rw [← byteLen_append]
      exact ih htext
    unfold topAssignFrom at h
    dsimp only at h
    split_ifs at h with hskip
    · exact hnext h
    · have hprefix : name.isPrefixOf line = true := by
        by_contra hnot
        exact hskip (Or.inl hnot)
      obtain ⟨rest, rfl⟩ := List.isPrefixOf_iff_prefix.mp hprefix
      rw [drop_left] at h
      split at h
      · rename_i value hvalue
        cases h
        have hrest : rest = rest.takeWhile isWhitespace ++ '=' :: value := by
          rw [← hvalue]
          exact takeWhile_append_dropWhile.symm
        have hline : name ++ rest = (name ++ rest.takeWhile isWhitespace ++ ['=']) ++ value := by
          conv => lhs; rw [hrest]
          simp only [append_assoc, cons_append, nil_append]
        rw [hline, append_assoc _ lines.flatten w] at htext
        rw [hline]
        exact cuts_value htext
      · exact hnext h

theorem topAssign_cuts {name : List Char} {found : Span × Span}
    (h : d.topAssign name = some found) : d.Cuts found.2 := by
  refine @topAssignFrom_cuts d name [] [] (linesInclusive d.t) found ?_ h
  rw [flatten_linesInclusive, append_nil, nil_append]

theorem gdlVersion_returns {ld rd : Doc} {edits : Edits} (h : EditsOk ld 0 edits) :
    Returns (gdlVersion ld rd edits) (EditsOk ld 0) := by
  unfold gdlVersion
  cases hwant : rd.topAssign "gdl_version".toList with
  | none => exact returns_ok h
  | some =>
    refine (slice_returns (topAssign_cuts hwant)).bind fun want _ => ?_
    cases hhave : ld.topAssign "gdl_version".toList with
    | some =>
      have hcuts := topAssign_cuts hhave
      refine (slice_returns hcuts).bind fun text _ => ?_
      refine returns_ite (fun _ => ?_) fun _ => returns_ok h
      exact returns_ok (h.push hcuts (Nat.zero_le _) want)
    | none => exact returns_ok (h.insert ld.boundary_zero (Nat.le_refl 0) _)

end Version

section Save

variable {ld rd : Doc} {change : Change} {lo : Nat} {edits : Edits}

/-- The save writes the frontend that the rendered text has. -/
def WritesFrontend (rd : Doc) (change : Change) (rp : Call) : Prop :=
  change.frontend = .write ∧ rd.kw rp "frontend".toList ≠ .ok none

variable {lp rp : Call}

theorem frontendEdits_returns {lgears : Arg} {sources : Sources}
    (hguard : Guard ld lo) (h : EditsOk ld lo edits) (hlp : ld.Brackets lp.bracket lp.close)
    (hlo : lo ≤ lp.bracket + 1) (hrp : rd.Brackets rp.bracket rp.close)
    (hgears : ld.GoodArg lp.bracket lp.close lgears)
    (hwrite : WritesFrontend rd change rp → lo = 0) :
    Returns (frontendEdits ld rd change lp rp lgears sources edits)
      (fun found => EditsOk ld lo found.2) := by
  unfold frontendEdits
  cases hchange : change.frontend with
  | keep => exact returns_ok h
  | remove =>
    refine (kw_returns hlp _).bind fun arg harg => ?_
    cases arg with
    | none => exact returns_ok h
    | some a =>
      have ha := (harg a rfl).span
      refine (deleteItem_returns h hguard ha.toCuts (hlo.trans ha.lo_le)).bind ?_
      exact fun edits hedits => returns_ok hedits
  | write =>
    obtain ⟨rarg, hkw, hrarg⟩ := kw_returns hrp "frontend".toList
    dsimp only
    rw [hkw]
    cases rarg with
    | none => exact returns_ok h
    | some ra =>
      obtain rfl := hwrite ⟨hchange, by rw [hkw]; exact fun hnone => by cases hnone⟩
      refine (slice_returns (hrarg ra rfl).value).bind fun text _ => ?_
      refine (kw_returns hlp _).bind fun larg hlarg => ?_
      cases larg with
      | some la =>
        have hla := (hlarg la rfl).value
        refine (norm_returns hla).bind fun mine _ => ?_
        refine (norm_returns (cuts_whole _)).bind fun theirs _ => ?_
        refine returns_ite (fun _ => ?_) fun _ => returns_ok h
        refine (gdlVersion_returns (h.push hla (Nat.zero_le _) _)).bind ?_
        exact fun edits hedits => returns_ok hedits
      | none =>
        refine (lineStart_returns hgears.span.start).bind ?_
        rintro start ⟨hstart, _⟩
        refine (indentOf_returns hgears.span.start).bind fun indent _ => ?_
        refine (gdlVersion_returns (h.insert hstart (Nat.zero_le _) _)).bind ?_
        exact fun edits hedits => returns_ok hedits

theorem titleEdits_returns {key : List Char} (h : EditsOk ld lo edits)
    (hlp : ld.Brackets lp.bracket lp.close) (hlo : lo ≤ lp.bracket + 1)
    (hrp : rd.Brackets rp.bracket rp.close) :
    Returns (titleEdits ld rd lp rp edits key) (EditsOk ld lo) := by
  refine (kw_returns hlp key).bind fun larg hlarg => ?_
  refine (kw_returns hrp key).bind fun rarg hrarg => ?_
  cases larg with
  | none => exact returns_ok h
  | some la =>
    cases rarg with
    | none => exact returns_ok h
    | some ra =>
      have hla := hlarg la rfl
      refine (norm_returns hla.value).bind fun mine _ => ?_
      refine (norm_returns (hrarg ra rfl).value).bind fun theirs _ => ?_
      refine returns_ite (fun _ => ?_) fun _ => returns_ok h
      refine (slice_returns (hrarg ra rfl).value).bind fun text _ => ?_
      exact returns_ok (h.push hla.value (hlo.trans (hla.span.lo_le.trans hla.value_start)) text)

theorem sourceEdits_safe {lp : Call} {sources : Sources} (h : EditsOk ld lo edits)
    (hlp : ld.Brackets lp.bracket lp.close) (hlo : lo ≤ lp.bracket + 1) :
    Safe (sourceEdits ld lp sources edits) (EditsOk ld lo) := by
  refine safe_ite (fun _ => (returns_ok h).safe) fun _ => ?_
  refine (kw_returns hlp _).bind_safe fun arg harg => ?_
  refine (listOf_returns harg).bind_safe fun list hlist => ?_
  cases list with
  | none => exact safe_fail
  | some list =>
    obtain ⟨hbrackets, hlt, _⟩ := hlist list rfl
    refine (insertItems_returns h hbrackets (by omega) fun o ho => ?_).safe
    obtain ⟨a, ha, rfl⟩ := Option.map_eq_some_iff.mp ho
    exact (harg a ha).span.start

/-- The edits of a save; they begin after the product's bracket unless it writes
a frontend. -/
theorem collect_safe (hguard : Guard ld lo) (hlp : ld.Brackets lp.bracket lp.close)
    (hlo : lo ≤ lp.bracket + 1) (hrp : rd.Brackets rp.bracket rp.close)
    (hwrite : WritesFrontend rd change rp → lo = 0) :
    Safe (collect ld rd change lp rp) (EditsOk ld lo) := by
  refine (kw_returns hlp _).bind_safe fun larg hlarg => ?_
  refine (listOf_returns hlarg).bind_safe fun list hlist => ?_
  cases larg with
  | none => exact safe_fail
  | some lgearsArg =>
  cases list with
  | none => exact safe_fail
  | some lgears =>
    obtain ⟨hbrackets, hlt, _⟩ := hlist lgears rfl
    have hlo' : lo ≤ lgears.1 + 1 := by omega
    have harg := hlarg lgearsArg rfl
    refine (kw_returns hrp _).bind_safe fun rarg hrarg => ?_
    refine (listOf_returns hrarg).bind_safe fun rlist hrlist => ?_
    cases rlist with
    | none => exact safe_fail
    | some =>
      refine (sources_returns hlp).bind_safe fun latest _ => ?_
      refine (sources_returns hrp).bind_safe fun rendered _ => ?_
      refine (named_returns (hrlist _ rfl).1 (Nat.zero_le _)).bind_safe fun rgears hrgears => ?_
      refine (named_returns hbrackets hlo').bind_safe fun lnamed hlnamed => ?_
      have hnil : EditsOk ld lo [] := fun edit hedit => absurd hedit not_mem_nil
      refine Returns.bind_safe (returns_foldlM hnil fun edits hedits gear hgear =>
        gearEdits_returns hguard hedits hrgears (hlnamed gear hgear)) fun edits hedits => ?_
      refine Returns.bind_safe (remapAll_returns fun r hr => hrgears r (mem_filter.mp hr).1) ?_
      rintro ⟨sources, added⟩ _
      refine (insertItems_returns hedits hbrackets hlo' fun o ho => ?_).bind_safe
        fun edits hedits => ?_
      · cases ho
        exact harg.span.start
      refine (frontendEdits_returns hguard hedits hlp hlo hrp harg hwrite).bind_safe ?_
      rintro ⟨sources, edits⟩ hedits
      refine Returns.bind_safe (returns_foldlM hedits fun edits hedits key _ =>
        titleEdits_returns hedits hlp hlo hrp) fun edits hedits => ?_
      exact sourceEdits_safe hedits hlp hlo

end Save

end DescriptionEdit
end StudioWeb
