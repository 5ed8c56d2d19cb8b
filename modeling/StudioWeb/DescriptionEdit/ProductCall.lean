import StudioWeb.DescriptionEdit.ScannerSpans

/-!
# Where the product call is looked for

`product` slices the text at every byte of code outside all brackets, up to the
first place where a `product(` opens.  Such a byte may be inside a character, and
the slice then panics.
-/

namespace StudioWeb
namespace DescriptionEdit

open Rust List Utf8

/-- The depth after a byte. -/
def bracketStep (depth : Nat) (x : Cell) : Nat :=
  if x.kind ≠ .code then depth
  else if isOpen x then depth + 1
  else if isClose x then depth - 1
  else depth

namespace Doc

def depthAt (d : Doc) (i : Nat) : Nat := (d.cells.take i).foldl bracketStep 0

/-- A byte inside a character, in code outside all brackets. -/
structure TopInside (d : Doc) (i : Nat) : Prop where
  depth : d.depthAt i = 0
  cell : ∃ x, d.cells[i]? = some x ∧ x.kind = .code ∧ x.place ≠ 0

/-- A product call that begins at an offset outside all brackets, and its
bracket. -/
structure ProductOpens (d : Doc) (i bracket : Nat) : Prop where
  depth : d.depthAt i = 0
  cell : ∃ x, d.cells[i]? = some x ∧ x.kind = .code
  starts : d.startsProduct i = .ok true
  name : d.startsName i = true
  spaces : d.skipWhile isAsciiWhitespace (d.len - (i + productWord.length))
    (i + productWord.length) = .ok bracket
  opens : d.charAt bracket = some '('

/-- The search passes an offset. -/
structure Passed (d : Doc) (i : Nat) : Prop where
  inside : ¬ d.TopInside i
  opens : ∀ bracket, ¬ d.ProductOpens i bracket

variable {d : Doc}

theorem depthAt_succ {i : Nat} {x : Cell} (h : d.cells[i]? = some x) :
    d.depthAt (i + 1) = bracketStep (d.depthAt i) x := by
  rw [depthAt, take_add_one, h, foldl_append]
  rfl

theorem startsProduct_iff {i : Nat} :
    d.startsProduct i = .ok true ↔
      ∃ u w, d.t = u ++ productWord ++ w ∧ byteLen u = i := by
  constructor
  · intro h
    obtain ⟨rest, hrest, hprefix⟩ := bind_eq_ok_iff.mp h
    obtain ⟨u, w', ht, hu, hlen⟩ := exists_of_slice hrest
    obtain ⟨w, rfl⟩ := List.isPrefixOf_iff_prefix.mp (Except.ok.inj hprefix)
    refine ⟨u, w ++ w', ?_, hu⟩
    rw [ht]
    simp only [append_assoc]
  · rintro ⟨u, w, ht, rfl⟩
    have hslice : d.slice (byteLen u, d.len) = .ok (productWord ++ w) := by
      have h := slice_eq_ok u (productWord ++ w) []
      rw [append_nil, ← append_assoc, ← ht, ← byteLen_append,
        ← append_assoc, ← ht, ← len_eq] at h
      exact h
    rw [startsProduct, hslice]
    exact congrArg Except.ok (List.isPrefixOf_iff_prefix.mpr (prefix_append productWord w))

theorem byteLen_productWord : byteLen productWord = productWord.length := by
  decide

theorem startsProduct_cell {i : Nat} {x : Cell} (h : d.startsProduct i = .ok true)
    (hx : d.cells[i]? = some x) : x.char = 'p' ∧ i + productWord.length ≤ d.len := by
  obtain ⟨u, w, ht, rfl⟩ := startsProduct_iff.mp h
  have hbyte : (encode d.t)[byteLen u]? = some x.toByte := by
    rw [getElem?_encode, hx]
    rfl
  have hword : (encode d.t)[byteLen u]? = some ⟨'p', 0⟩ := by
    rw [ht, append_assoc, encode_append, getElem?_append_right
        (show (encode u).length ≤ byteLen u from Nat.le_refl _)]
    show (encode (productWord ++ w))[(encode u).length - (encode u).length]? = _
    rw [Nat.sub_self, encode_append, getElem?_append_left (by decide)]
    decide
  rw [hword] at hbyte
  refine ⟨(congrArg Utf8.Byte.char (Option.some.inj hbyte)).symm, ?_⟩
  rw [len_eq, ht, byteLen_append, byteLen_append, byteLen_productWord]
  exact Nat.le_add_right _ _

theorem startsProduct_outcome {i : Nat} {x : Cell} (hx : d.cells[i]? = some x) :
    (x.place ≠ 0 ∧ d.startsProduct i = overflow) ∨
      (x.place = 0 ∧ ∃ b, d.startsProduct i = .ok b) := by
  by_cases hplace : x.place = 0
  · have hboundary := (boundary_iff_place hx).mpr hplace
    obtain ⟨rest, hrest⟩ := exists_slice hboundary d.boundary_len hboundary.le_len
    refine Or.inr ⟨hplace, productWord.isPrefixOf rest, ?_⟩
    have hslice : d.slice (i, d.len) = .ok rest := hrest
    rw [startsProduct, hslice]
    rfl
  · refine Or.inl ⟨hplace, ?_⟩
    have hnot : ¬ (i ≤ d.len ∧ isBoundary (encode d.t) i = true ∧
        isBoundary (encode d.t) d.len = true) := fun hcut =>
      hplace ((boundary_iff_place hx).mp hcut.2.1)
    have hslice : d.slice (i, d.len) = overflow := if_neg hnot
    rw [startsProduct, hslice]
    rfl

section Search

inductive Search (d : Doc) (i : Nat) : Outcome (Option Call) → Prop
  | panics {k : Nat}
      (hle : i ≤ k)
      (hinside : d.TopInside k)
      (hpassed : ∀ k', i ≤ k' → k' < k → d.Passed k') :
      Search d i overflow
  | finds {k bracket : Nat}
      (hle : i ≤ k)
      (hopens : d.ProductOpens k bracket)
      (hpassed : ∀ k', i ≤ k' → k' < k → d.Passed k') :
      Search d i (.ok ((d.closeOf bracket).map fun close => ⟨bracket, close⟩))
  | ends
      (hpassed : ∀ k', i ≤ k' → d.Passed k') :
      Search d i (.ok none)

variable {i : Nat} {x : Cell}

theorem Search.of_passed {found : Outcome (Option Call)} (hpassed : d.Passed i)
    (h : d.Search (i + 1) found) : d.Search i found := by
  have hfirst : ∀ {k : Nat}, (∀ k', i + 1 ≤ k' → k' < k → d.Passed k') →
      ∀ k', i ≤ k' → k' < k → d.Passed k' := by
    intro k hrest k' hle hlt
    obtain rfl | hlt' := Nat.eq_or_lt_of_le hle
    · exact hpassed
    · exact hrest k' hlt' hlt
  cases h with
  | panics _ hinside hrest => exact .panics (by omega) hinside (hfirst hrest)
  | finds _ hopens hrest => exact .finds (by omega) hopens (hfirst hrest)
  | ends hrest =>
    refine .ends fun k' hle => ?_
    obtain rfl | hlt' := Nat.eq_or_lt_of_le hle
    · exact hpassed
    · exact hrest k' hlt'

theorem passed_of_kind (hx : d.cells[i]? = some x) (h : x.kind ≠ .code) :
    d.Passed i := by
  constructor
  · rintro ⟨_, y, hy, hkind, _⟩
    rw [hx] at hy
    cases hy
    exact h hkind
  · rintro bracket ⟨_, ⟨y, hy, hkind⟩, _⟩
    rw [hx] at hy
    cases hy
    exact h hkind

theorem passed_of_depth (h : d.depthAt i ≠ 0) : d.Passed i := by
  exact ⟨fun hinside => h hinside.depth, fun _ hopens => h hopens.depth⟩

theorem passed_of_bracket (hx : d.cells[i]? = some x)
    (hascii : x.char.utf8Size = 1) (h : x.char ≠ 'p') : d.Passed i := by
  constructor
  · rintro ⟨_, y, hy, _, hplace⟩
    rw [hx] at hy
    cases hy
    exact hplace (place_of_ascii hx hascii)
  · intro bracket hopens
    exact h (startsProduct_cell hopens.starts hx).1

theorem ne_p_of_isOpen (h : isOpen x = true) : x.char ≠ 'p' := by
  intro hp
  rw [isOpen, hp] at h
  exact absurd h (by decide)

theorem ne_p_of_isClose (h : isClose x = true) : x.char ≠ 'p' := by
  intro hp
  rw [isClose, hp] at h
  exact absurd h (by decide)

theorem productFrom_search {n i : Nat} (h : i + n = d.len) :
    d.Search i (d.productFrom n i (d.depthAt i)) := by
  induction n generalizing i with
  | zero =>
    refine .ends fun k' hle => ?_
    have hnone : d.cells[k']? = none := by
      refine getElem?_eq_none ?_
      show d.len ≤ k'
      omega
    constructor
    · rintro ⟨_, x, hx, _⟩
      rw [hnone] at hx
      cases hx
    · rintro bracket ⟨_, ⟨x, hx, _⟩, _⟩
      rw [hnone] at hx
      cases hx
  | succ n ih =>
    obtain ⟨x, hx⟩ := exists_cell (show i < d.len by omega)
    have hnext := ih (show i + 1 + n = d.len by omega)
    rw [depthAt_succ hx, bracketStep] at hnext
    rw [productFrom, cell_eq_ok hx]
    show d.Search i (if x.kind ≠ .code then _ else _)
    by_cases hkind : x.kind ≠ .code
    · rw [if_pos hkind] at hnext ⊢
      exact hnext.of_passed (passed_of_kind hx hkind)
    rw [if_neg hkind] at hnext ⊢
    by_cases hopen : isOpen x = true
    · rw [if_pos hopen] at hnext ⊢
      exact hnext.of_passed (passed_of_bracket hx (utf8Size_of_isOpen hopen) (ne_p_of_isOpen hopen))
    rw [if_neg hopen] at hnext ⊢
    by_cases hclose : isClose x = true
    · rw [if_pos hclose] at hnext ⊢
      exact hnext.of_passed
        (passed_of_bracket hx (utf8Size_of_isClose hclose) (ne_p_of_isClose hclose))
    rw [if_neg hclose] at hnext ⊢
    by_cases hdepth : d.depthAt i = 0
    · rw [if_pos hdepth]
      have hcode : x.kind = .code := by
        by_contra hnot
        exact hkind hnot
      obtain ⟨hplace, hpanics⟩ | ⟨hplace, starts, hstarts⟩ := startsProduct_outcome hx
      · rw [hpanics]
        exact .panics (Nat.le_refl i) ⟨hdepth, x, hx, hcode, hplace⟩ (fun k' hle hlt => by omega)
      · rw [hstarts]
        show d.Search i (if (starts && d.startsName i) = true then _ else _)
        by_cases hbegins : (starts && d.startsName i) = true
        · rw [if_pos hbegins]
          rw [Bool.and_eq_true] at hbegins
          rw [hbegins.1] at hstarts
          have hlen := (startsProduct_cell hstarts hx).2
          obtain ⟨j, hj, _⟩ := @exists_skipWhile d isAsciiWhitespace
            (d.len - (i + productWord.length)) (i + productWord.length) (by omega)
          rw [hj]
          show d.Search i (if d.charAt j = some '(' then _ else _)
          by_cases hparen : d.charAt j = some '('
          · rw [if_pos hparen]
            exact .finds (Nat.le_refl i) ⟨hdepth, ⟨x, hx, hcode⟩, hstarts, hbegins.2, hj, hparen⟩
              (fun k' hle hlt => by omega)
          · rw [if_neg hparen]
            refine hnext.of_passed ⟨?_, ?_⟩
            · rintro ⟨_, y, hy, _, hinside⟩
              rw [hx] at hy
              cases hy
              exact hinside hplace
            · rintro bracket hopens
              have hsame := hopens.spaces
              rw [hj] at hsame
              cases hsame
              exact hparen hopens.opens
        · rw [if_neg hbegins]
          refine hnext.of_passed ⟨?_, ?_⟩
          · rintro ⟨_, y, hy, _, hinside⟩
            rw [hx] at hy
            cases hy
            exact hinside hplace
          · rintro bracket hopens
            have hsame := hopens.starts
            rw [hstarts] at hsame
            cases hsame
            rw [hopens.name] at hbegins
            exact hbegins rfl
    · rw [if_neg hdepth]
      exact hnext.of_passed (passed_of_depth hdepth)

theorem product_search (d : Doc) : d.Search 0 d.product := by
  exact productFrom_search (Nat.zero_add d.len)

theorem not_inside_of_opens {i bracket : Nat} (h : d.ProductOpens i bracket) : ¬ d.TopInside i := by
  rintro ⟨_, x, hx, _, hinside⟩
  have hp := (startsProduct_cell h.starts hx).1
  exact hinside (place_of_ascii hx (by rw [hp]; decide))

theorem product_eq_some {c : Call} (h : d.product = .ok (some c)) :
    ∃ k, d.ProductOpens k c.bracket ∧ d.Brackets c.bracket c.close ∧
      ∀ i, i < k → d.Passed i := by
  have hsearch := d.product_search
  rw [h] at hsearch
  generalize hfound : (.ok (some c) : Outcome (Option Call)) = found at hsearch
  cases hsearch with
  | panics => cases hfound
  | ends => cases hfound
  | @finds k bracket _ hopens hpassed =>
    have hsome : (d.closeOf bracket).map (fun close => Call.mk bracket close) = some c :=
      (Except.ok.inj hfound).symm
    obtain ⟨close, hclose, rfl⟩ := Option.map_eq_some_iff.mp hsome
    obtain ⟨x, hx, hchar⟩ := charAt_eq_some hopens.opens
    have hbracket : isOpen x = true := by
      rw [isOpen, hchar]
      decide
    exact ⟨k, hopens, brackets_of_closeOf hx hbracket hclose,
      fun i hi => hpassed i (Nat.zero_le i) hi⟩

end Search

end Doc

/-- No character of several bytes stands in code outside all brackets before the
first product call. -/
def PlainTop (t : List Char) : Prop :=
  ∀ i, (Doc.new t).TopInside i → ∃ k bracket, k < i ∧ (Doc.new t).ProductOpens k bracket

/-- The search for the product call panics exactly when such a character does. -/
theorem product_panics_iff {t : List Char} : (Doc.new t).product = overflow ↔ ¬ PlainTop t := by
  have hsearch := (Doc.new t).product_search
  generalize (Doc.new t).product = found at hsearch
  cases hsearch with
  | @panics k _ hinside hpassed =>
    refine ⟨fun _ hplain => ?_, fun _ => rfl⟩
    obtain ⟨k', bracket, hlt, hopens⟩ := hplain k hinside
    exact (hpassed k' (Nat.zero_le k') hlt).opens bracket hopens
  | @finds k bracket _ hopens hpassed =>
    refine ⟨(fun h => by cases h), fun h => absurd ?_ h⟩
    intro i hinside
    refine ⟨k, bracket, ?_, hopens⟩
    by_contra hle
    obtain hik | hlt := Nat.eq_or_lt_of_le (Nat.le_of_not_lt hle)
    · exact Doc.not_inside_of_opens hopens (hik ▸ hinside)
    · exact (hpassed i (Nat.zero_le i) hlt).inside hinside
  | ends hpassed =>
    refine ⟨(fun h => by cases h), fun h => absurd ?_ h⟩
    intro i hinside
    exact absurd hinside (hpassed i (Nat.zero_le i)).inside

theorem product_returns {t : List Char} (h : PlainTop t) :
    Returns (Doc.new t).product (fun found => ∀ c, found = some c →
      (Doc.new t).Brackets c.bracket c.close) := by
  have hcall : ∀ found, (Doc.new t).product = .ok found → ∀ c, found = some c →
      (Doc.new t).Brackets c.bracket c.close := by
    rintro found hfound c rfl
    obtain ⟨_, _, hbrackets, _⟩ := Doc.product_eq_some hfound
    exact hbrackets
  have hsearch := (Doc.new t).product_search
  generalize hproduct : (Doc.new t).product = found at hsearch hcall
  cases hsearch with
  | panics => exact absurd h (product_panics_iff.mp hproduct)
  | finds => exact ⟨_, rfl, hcall _ rfl⟩
  | ends => exact ⟨_, rfl, hcall _ rfl⟩

end DescriptionEdit
end StudioWeb
