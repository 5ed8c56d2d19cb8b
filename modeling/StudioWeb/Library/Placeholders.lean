import Mathlib.Data.List.Infix

/-!
# Patterns with placeholders

`str::replace`, and what two of them in turn make of a pattern that holds two
placeholders, each a name in brackets.  A first word may complete the second placeholder
by standing between two halves of it; where some first word leaves no bracket, no first
word does.
-/

namespace StudioWeb
namespace Placeholders

open List

universe u

variable {α : Type u} [DecidableEq α]

/-- The loop of `str::replace`, with how much of an occurrence is still to be passed. -/
def replaceFrom (pattern word : List α) : Nat → List α → List α
  | _, [] => []
  | skip + 1, _ :: text => replaceFrom pattern word skip text
  | 0, x :: text =>
    if pattern.isPrefixOf (x :: text) then
      word ++ replaceFrom pattern word (pattern.length - 1) text
    else
      x :: replaceFrom pattern word 0 text

/-- `str::replace`, for a pattern that is not empty. -/
def replaceAll (pattern word text : List α) : List α := replaceFrom pattern word 0 text

section Replace

variable {x y : α} {ys word text : List α}

theorem replaceFrom_length_append (pattern word passed text : List α) :
    replaceFrom pattern word passed.length (passed ++ text) =
      replaceFrom pattern word 0 text := by
  induction passed with
  | nil => rfl
  | cons _ _ ih => exact ih

/-- A replacement at an occurrence. -/
theorem replaceAll_append (y : α) (ys word text : List α) :
    replaceAll (y :: ys) word ((y :: ys) ++ text) = word ++ replaceAll (y :: ys) word text := by
  have hstart : (y :: ys).isPrefixOf (y :: (ys ++ text)) = true := by
    rw [List.isPrefixOf_iff_prefix]
    exact prefix_append (y :: ys) text
  have hpass := replaceFrom_length_append (y :: ys) word ys text
  unfold replaceAll
  rw [cons_append, replaceFrom, if_pos hstart, length_cons, Nat.add_sub_cancel, hpass]

theorem replaceAll_cons_of_not_start (h : ¬ (y :: ys) <+: x :: text) :
    replaceAll (y :: ys) word (x :: text) = x :: replaceAll (y :: ys) word text := by
  unfold replaceAll
  rw [replaceFrom, if_neg (by rwa [List.isPrefixOf_iff_prefix])]

theorem replaceAll_cons_of_ne (h : x ≠ y) :
    replaceAll (y :: ys) word (x :: text) = x :: replaceAll (y :: ys) word text := by
  apply replaceAll_cons_of_not_start
  intro hstart
  obtain ⟨rest, hrest⟩ := hstart
  exact h (List.cons.inj hrest).1.symm

/-- What does not hold the first element of the pattern is passed. -/
theorem replaceAll_append_of_free {free : List α} (h : y ∉ free) :
    replaceAll (y :: ys) word (free ++ text) = free ++ replaceAll (y :: ys) word text := by
  induction free with
  | nil => rfl
  | cons x free ih =>
    have hx : x ≠ y := fun heq => h (heq ▸ mem_cons_self)
    have hfree : y ∉ free := fun hmem => h (mem_cons_of_mem _ hmem)
    rw [cons_append, replaceAll_cons_of_ne hx, ih hfree, cons_append]

end Replace

/-- An element of a pattern, or one of its two placeholders. -/
inductive Piece (α : Type u) where
  | plain (x : α)
  | first
  | second

def Piece.text (first second : List α) : Piece α → List α
  | .plain x => [x]
  | .first => first
  | .second => second

/-- The text of pieces. -/
def render (first second : List α) (pieces : List (Piece α)) : List α :=
  pieces.flatMap (Piece.text first second)

section Render

variable {first second : List α} {pieces : List (Piece α)}

omit [DecidableEq α] in
@[simp] theorem render_nil : render first second [] = [] := by
  rfl

omit [DecidableEq α] in
@[simp] theorem render_cons (piece : Piece α) :
    render first second (piece :: pieces) =
      piece.text first second ++ render first second pieces := by
  rfl

omit [DecidableEq α] in
theorem length_render_lt {longer : List α} (second : List α)
    (hlonger : first.length < longer.length) (hfirst : Piece.first ∈ pieces) :
    (render first second pieces).length < (render longer second pieces).length := by
  have hle : ∀ pieces : List (Piece α),
      (render first second pieces).length ≤ (render longer second pieces).length := by
    intro pieces
    induction pieces with
    | nil => exact Nat.le_refl _
    | cons piece =>
      cases piece <;> simp [Piece.text] <;> omega
  induction pieces with
  | nil => cases hfirst
  | cons piece pieces ih =>
    have htail := hle pieces
    rcases mem_cons.mp hfirst with rfl | hmem
    · simp [Piece.text]
      omega
    · have hlt := ih hmem
      cases piece <;> simp [Piece.text] <;> omega

omit [DecidableEq α] in
/-- Different words give different texts. -/
theorem render_injective {other : List α} (hfirst : Piece.first ∈ pieces)
    (h : render first second pieces = render other second pieces) : first = other := by
  have hlen : first.length = other.length := by
    rcases Nat.lt_trichotomy first.length other.length with hlt | heq | hgt
    · have hlt := length_render_lt second hlt hfirst
      rw [h] at hlt
      exact absurd hlt (Nat.lt_irrefl _)
    · exact heq
    · have hgt := length_render_lt second hgt hfirst
      rw [h] at hgt
      exact absurd hgt (Nat.lt_irrefl _)
  induction pieces with
  | nil => cases hfirst
  | cons piece _ ih =>
    rw [render_cons, render_cons] at h
    have hhead : (piece.text first second).length = (piece.text other second).length := by
      cases piece with
      | plain => rfl
      | first => exact hlen
      | second => rfl
    obtain ⟨hpiece, hrest⟩ := append_inj h hhead
    rcases mem_cons.mp hfirst with rfl | hmem
    · exact hpiece
    · exact ih hmem hrest

end Render

def bracketed (opens closes : α) (name : List α) : List α := opens :: (name ++ [closes])

/-- The elements of the pieces are no brackets. -/
def Unbracketed (opens closes : α) (pieces : List (Piece α)) : Prop :=
  ∀ x, Piece.plain x ∈ pieces → x ≠ opens ∧ x ≠ closes

/-- The brackets, and the names of the two placeholders. -/
structure Brackets (α : Type u) where
  opens : α
  closes : α
  firstName : List α
  secondName : List α
  apart : opens ≠ closes
  different : firstName ≠ secondName
  firstFree : opens ∉ firstName ∧ closes ∉ firstName
  secondFree : opens ∉ secondName ∧ closes ∉ secondName

namespace Brackets

variable (b : Brackets α)

def firstMark : List α := bracketed b.opens b.closes b.firstName

def secondMark : List α := bracketed b.opens b.closes b.secondName

def fill (first second text : List α) : List α :=
  replaceAll b.secondMark second (replaceAll b.firstMark first text)

/-- The pattern that pieces are of. -/
def spell (pieces : List (Piece α)) : List α := render b.firstMark b.secondMark pieces

/-- No bracket in a text. -/
def Free (text : List α) : Prop := b.opens ∉ text ∧ b.closes ∉ text

variable {b}

omit [DecidableEq α] in
theorem not_firstMark_start_secondMark (text : List α) :
    ¬ b.firstMark <+: b.secondMark ++ text := by
  have hnames : ∀ m n rest : List α, b.closes ∉ m → b.closes ∉ n →
      (m ++ [b.closes]) <+: (n ++ b.closes :: rest) → m = n := by
    intro m
    induction m with
    | nil =>
      intro n rest _ hn hstart
      cases n with
      | nil => rfl
      | cons =>
        obtain ⟨tail, htail⟩ := hstart
        have hy := (List.cons.inj htail).1
        exact absurd (hy ▸ mem_cons_self) hn
    | cons _ _ ih =>
      intro n rest hm hn hstart
      cases n with
      | nil =>
        obtain ⟨tail, htail⟩ := hstart
        have hx := (List.cons.inj htail).1
        exact absurd (hx ▸ mem_cons_self) hm
      | cons _ n =>
        obtain ⟨rfl, hrest⟩ := cons_prefix_cons.mp hstart
        rw [ih n rest (fun h => hm (mem_cons_of_mem _ h))
          (fun h => hn (mem_cons_of_mem _ h)) hrest]
  intro hstart
  unfold firstMark secondMark bracketed at hstart
  rw [cons_append, append_assoc, singleton_append] at hstart
  have hrest := (cons_prefix_cons.mp hstart).2
  exact b.different (hnames _ _ _ b.firstFree.2 b.secondFree.2 hrest)

omit [DecidableEq α] in
theorem opens_not_mem_second : b.opens ∉ b.secondName ++ [b.closes] := by
  intro hmem
  rcases mem_append.mp hmem with hmem | hmem
  · exact b.secondFree.1 hmem
  · exact b.apart (mem_singleton.mp hmem)

theorem replaceAll_firstMark_secondMark (first text : List α) :
    replaceAll b.firstMark first (b.secondMark ++ text) =
      b.secondMark ++ replaceAll b.firstMark first text := by
  have hnot := not_firstMark_start_secondMark (b := b) text
  unfold firstMark secondMark bracketed at hnot ⊢
  rw [cons_append] at hnot ⊢
  rw [replaceAll_cons_of_not_start hnot, replaceAll_append_of_free opens_not_mem_second,
    cons_append]

theorem fill_spell {first second : List α} {pieces : List (Piece α)}
    (hpieces : Unbracketed b.opens b.closes pieces) (hfirst : b.Free first) :
    b.fill first second (b.spell pieces) = render first second pieces := by
  have hreplaced : replaceAll b.firstMark first (b.spell pieces) =
      render first b.secondMark pieces := by
    induction pieces with
    | nil => rfl
    | cons piece _ ih =>
      have htail := ih fun x hx => hpieces x (mem_cons_of_mem _ hx)
      unfold spell at htail ⊢
      rw [render_cons, render_cons, ← htail]
      cases piece with
      | plain x =>
        exact replaceAll_cons_of_ne (hpieces x mem_cons_self).1
      | first => exact replaceAll_append _ _ first _
      | second => exact replaceAll_firstMark_secondMark first _
  unfold fill
  rw [hreplaced]
  clear hreplaced
  induction pieces with
  | nil => rfl
  | cons piece _ ih =>
    have htail := ih fun x hx => hpieces x (mem_cons_of_mem _ hx)
    rw [render_cons, render_cons, ← htail]
    cases piece with
    | plain x =>
      exact replaceAll_cons_of_ne (hpieces x mem_cons_self).1
    | first => exact replaceAll_append_of_free hfirst.1
    | second => exact replaceAll_append _ _ second _

theorem exists_append_of_replaceAll {z : α} {zs passed rest later : List α} (hz : z ∉ passed)
    (h : replaceAll b.firstMark (z :: zs) rest = passed ++ later) :
    ∃ rest', rest = passed ++ rest' ∧ replaceAll b.firstMark (z :: zs) rest' = later := by
  induction passed generalizing rest with
  | nil => exact ⟨rest, rfl, h⟩
  | cons _ _ ih =>
    cases rest with
    | nil => cases h
    | cons x rest =>
      by_cases hstart : b.firstMark <+: x :: rest
      · obtain ⟨rest', hrest'⟩ := hstart
        rw [← hrest'] at h
        unfold firstMark bracketed at h
        rw [replaceAll_append] at h
        have hzy := (List.cons.inj h).1
        exact absurd (hzy ▸ mem_cons_self) hz
      · have hcons : replaceAll b.firstMark (z :: zs) (x :: rest) =
            x :: replaceAll b.firstMark (z :: zs) rest :=
          replaceAll_cons_of_not_start hstart
        rw [hcons] at h
        obtain ⟨rfl, htail⟩ := List.cons.inj h
        obtain ⟨rest', rfl, hlater⟩ := ih (fun hmem => hz (mem_cons_of_mem _ hmem)) htail
        exact ⟨rest', rfl, hlater⟩

/-- A pattern that leaves no bracket with one first word is made of plain elements and
whole placeholders. -/
theorem exists_pieces {z : α} {zs second : List α} (hword : b.Free (z :: zs))
    (hz : z ∉ b.secondName) {text : List α} (hfree : b.Free (b.fill (z :: zs) second text)) :
    ∃ pieces, Unbracketed b.opens b.closes pieces ∧ text = b.spell pieces := by
  induction hlen : text.length using Nat.strong_induction_on generalizing text with
  | _ _ ih =>
    subst hlen
    have hzclose : z ∉ b.secondName ++ [b.closes] := by
      intro hmem
      rcases mem_append.mp hmem with hmem | hmem
      · exact hz hmem
      · rw [mem_singleton] at hmem
        exact hword.2 (hmem ▸ mem_cons_self)
    cases text with
    | nil => exact ⟨[], fun _ h => absurd h not_mem_nil, rfl⟩
    | cons x rest =>
      by_cases hfirst : b.firstMark <+: x :: rest
      · obtain ⟨later, hlater⟩ := hfirst
        have hfill : b.fill (z :: zs) second (x :: rest) =
            (z :: zs) ++ b.fill (z :: zs) second later := by
          rw [← hlater]
          unfold fill firstMark bracketed
          rw [replaceAll_append]
          exact replaceAll_append_of_free hword.1
        rw [hfill] at hfree
        have hshort : later.length < (x :: rest).length := by
          rw [← hlater]
          simp [firstMark, bracketed]
          omega
        obtain ⟨pieces, hpieces, rfl⟩ := ih _ hshort ⟨fun h => hfree.1 (mem_append_right _ h),
            fun h => hfree.2 (mem_append_right _ h)⟩ rfl
        refine ⟨.first :: pieces, ?_, hlater.symm⟩
        intro y hy
        rcases mem_cons.mp hy with hy | hy
        · cases hy
        · exact hpieces y hy
      · have hcons : replaceAll b.firstMark (z :: zs) (x :: rest) =
            x :: replaceAll b.firstMark (z :: zs) rest :=
          replaceAll_cons_of_not_start hfirst
        by_cases hsecond : b.secondMark <+: x :: replaceAll b.firstMark (z :: zs) rest
        · obtain ⟨later, hlater⟩ := hsecond
          obtain ⟨rfl, htail⟩ := List.cons.inj hlater
          obtain ⟨rest', rfl, hrest'⟩ := exists_append_of_replaceAll hzclose htail.symm
          have hfill : b.fill (z :: zs) second
              (b.opens :: ((b.secondName ++ [b.closes]) ++ rest')) =
              second ++ b.fill (z :: zs) second rest' := by
            unfold fill
            rw [hcons, ← htail, ← hrest']
            exact replaceAll_append _ _ _ _
          rw [hfill] at hfree
          have hshort : rest'.length <
              (b.opens :: ((b.secondName ++ [b.closes]) ++ rest')).length := by
            simp
            omega
          obtain ⟨pieces, hpieces, rfl⟩ := ih _ hshort
            ⟨fun h => hfree.1 (mem_append_right _ h),
              fun h => hfree.2 (mem_append_right _ h)⟩ rfl
          refine ⟨.second :: pieces, ?_, rfl⟩
          intro y hy
          rcases mem_cons.mp hy with hy | hy
          · cases hy
          · exact hpieces y hy
        · have hfill : b.fill (z :: zs) second (x :: rest) = x :: b.fill (z :: zs) second rest := by
            unfold fill
            rw [hcons]
            exact replaceAll_cons_of_not_start hsecond
          rw [hfill] at hfree
          obtain ⟨pieces, hpieces, rfl⟩ := ih _ (Nat.lt_succ_self _)
            ⟨fun h => hfree.1 (mem_cons_of_mem _ h),
              fun h => hfree.2 (mem_cons_of_mem _ h)⟩ rfl
          refine ⟨.plain x :: pieces, ?_, rfl⟩
          intro y hy
          rcases mem_cons.mp hy with hy | hy
          · obtain rfl := Piece.plain.inj hy
            exact ⟨fun h => hfree.1 (h ▸ mem_cons_self),
              fun h => hfree.2 (h ▸ mem_cons_self)⟩
          · exact hpieces y hy

omit [DecidableEq α] in
theorem first_mem_of_infix {pieces : List (Piece α)} (hpieces : Unbracketed b.opens b.closes pieces)
    (h : b.firstMark <:+: b.spell pieces) : Piece.first ∈ pieces := by
  obtain ⟨front, back, h⟩ := h
  induction pieces generalizing front with
  | nil =>
    have hlen := congrArg List.length h
    simp [spell, firstMark, bracketed] at hlen
  | cons piece pieces ih =>
    have htail : ∀ front, front ++ b.firstMark ++ back = b.spell pieces →
        Piece.first ∈ piece :: pieces := by
      intro front hfront
      exact mem_cons_of_mem _
        (ih (fun x hx => hpieces x (mem_cons_of_mem _ hx)) front hfront)
    unfold spell at h htail
    rw [render_cons, append_assoc] at h
    cases piece with
    | plain x =>
      cases front with
      | nil =>
        have hx := (List.cons.inj h).1
        exact absurd hx.symm (hpieces x mem_cons_self).1
      | cons _ front =>
        apply htail front
        rw [append_assoc]
        exact (List.cons.inj h).2
    | first => exact mem_cons_self
    | second =>
      rcases append_eq_append_iff.mp h with
        ⟨middle, hsecond, hrest⟩ | ⟨later, rfl, hrest⟩
      · cases middle with
        | nil =>
          apply htail []
          exact hrest
        | cons y middle =>
          cases front with
          | nil =>
            have hsecond : b.secondMark = y :: middle := hsecond
            rw [← hsecond] at hrest
            exact absurd ⟨back, hrest⟩ (not_firstMark_start_secondMark _)
          | cons =>
            have hy : b.opens = y := (List.cons.inj hrest).1
            have hmem := (List.cons.inj hsecond).2
            have hopens : b.opens ∈ b.secondName ++ [b.closes] := by
              rw [hmem, hy]
              exact mem_append_right _ mem_cons_self
            exact absurd hopens opens_not_mem_second
      · apply htail later
        rw [append_assoc]
        exact hrest.symm

end Brackets
end Placeholders
end StudioWeb
