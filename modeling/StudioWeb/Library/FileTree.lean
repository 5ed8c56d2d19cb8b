import Mathlib.Data.List.Induction

/-!
# A tree of files, and where a path leads in it

A tree gives an entry for every path from its root, as a list of names.  `walk` goes along the
parts of a path as an operating system does: a link is followed where it stands, and no more
than so many links are followed.
-/

namespace StudioWeb
namespace FileTree

open List Option

abbrev Name := List Char

/-- The parts of the target of a link, from the root or from where the link stands. -/
structure Target where
  absolute : Bool
  parts : List Name
deriving DecidableEq

inductive Node where
  | file
  | dir
  | link (target : Target)
deriving DecidableEq

/-- A name that an entry can have. -/
def IsName (n : Name) : Prop := n ≠ [] ∧ n ≠ ['.'] ∧ n ≠ ['.', '.'] ∧ '/' ∉ n

instance (n : Name) : Decidable (IsName n) :=
  inferInstanceAs (Decidable (_ ∧ _ ∧ _ ∧ _))

/-- What stands in a directory has its directory. -/
structure Tree where
  entry : List Name → Option Node
  root : entry [] = some .dir
  parent : ∀ p n, entry (p ++ [n]) ≠ none → entry p = some .dir
  name : ∀ p n, entry (p ++ [n]) ≠ none → IsName n

/-- Where a walk ends: at an entry, at a name that a directory does not have, or nowhere. -/
inductive Walked where
  | found (path : List Name)
  | absent (directory : List Name) (name : Name)
  | missing
  | notDirectory
  | tooManyLinks
deriving DecidableEq

/-- The place that is read, written or created where a walk ends. -/
def Walked.place : Walked → Option (List Name)
  | .found path => some path
  | .absent directory name => some (directory ++ [name])
  | _ => none

/-- A walk along the parts of a path, with what to do at a link. -/
def Tree.go (t : Tree) (followLast : Bool) (again : List Name → List Name → Walked) :
    List Name → List Name → Walked
  | current, [] => .found current
  | current, part :: rest =>
    if t.entry current ≠ some .dir then
      .notDirectory
    else if part = [] ∨ part = ['.'] then
      t.go followLast again current rest
    else if part = ['.', '.'] then
      t.go followLast again current.dropLast rest
    else
      match t.entry (current ++ [part]) with
      | none => if rest = [] then .absent current part else .missing
      | some (.link target) =>
        if rest = [] ∧ followLast = false then
          .found (current ++ [part])
        else
          again (if target.absolute then [] else current) (target.parts ++ rest)
      | some _ => t.go followLast again (current ++ [part]) rest

/-- A walk that follows its last link too, and at most so many links. -/
def Tree.walk (t : Tree) : Nat → List Name → List Name → Walked
  | 0 => t.go true (fun _ _ => .tooManyLinks)
  | links + 1 => t.go true (t.walk links)

/-- A walk that does not follow its last link. -/
def Tree.lwalk (t : Tree) : Nat → List Name → List Name → Walked
  | 0 => t.go false (fun _ _ => .tooManyLinks)
  | links + 1 => t.go false (t.lwalk links)

/-- Where a path leads from a directory, however many links are on the way. -/
def Tree.Leads (t : Tree) (current parts : List Name) (r : Walked) : Prop :=
  r ≠ .tooManyLinks ∧ ∃ links, t.walk links current parts = r

/-- A place that is there, and is no link. -/
def Tree.Real (t : Tree) (p : List Name) : Prop :=
  ∃ node, t.entry p = some node ∧ ∀ target, node ≠ .link target

section Walks

variable {t : Tree}

theorem real_nil : t.Real [] := ⟨.dir, t.root, nofun⟩

variable {p : List Name}

theorem real_of_dir (h : t.entry p = some .dir) : t.Real p := ⟨.dir, h, nofun⟩

theorem dir_above :
    ∀ {q : List Name}, q ≠ [] → t.entry (p ++ q) ≠ none → t.entry p = some .dir := by
  intro q
  induction q using List.reverseRecOn with
  | nil => exact fun hne => absurd rfl hne
  | append_singleton q n ih =>
    intro _ hentry
    rw [← append_assoc] at hentry
    have hdir := t.parent (p ++ q) n hentry
    cases q with
    | nil => simpa using hdir
    | cons m q =>
      refine ih (cons_ne_nil m q) ?_
      rw [hdir]
      exact some_ne_none _

theorem dir_dropLast (h : t.entry p = some .dir) :
    t.entry p.dropLast = some .dir := by
  induction p using List.reverseRecOn with
  | nil => exact h
  | append_singleton p n =>
    rw [dropLast_concat]
    refine t.parent p n ?_
    rw [h]
    exact some_ne_none _

theorem go_congr {followLast : Bool} {again again' : List Name → List Name → Walked}
    (hsame : ∀ current parts, again current parts ≠ .tooManyLinks →
      again' current parts = again current parts) :
    ∀ (parts current : List Name), t.go followLast again current parts ≠ .tooManyLinks →
      t.go followLast again' current parts = t.go followLast again current parts
  | [], _, _ => rfl
  | part :: rest, current, h => by
    unfold Tree.go at h ⊢
    split
    · rfl
    · next hdir =>
      rw [if_neg hdir] at h
      split
      · next hhere =>
        rw [if_pos hhere] at h
        exact go_congr hsame rest current h
      · next hhere =>
        rw [if_neg hhere] at h
        split
        · next hup =>
          rw [if_pos hup] at h
          exact go_congr hsame rest current.dropLast h
        · next hup =>
          rw [if_neg hup] at h
          cases hentry : t.entry (current ++ [part]) with
          | none => rfl
          | some node =>
            rw [hentry] at h
            cases node with
            | link =>
              simp only at h ⊢
              split
              · rfl
              · next hfollow =>
                rw [if_neg hfollow] at h
                exact hsame _ _ h
            | file => exact go_congr hsame rest _ h
            | dir => exact go_congr hsame rest _ h

theorem walk_succ :
    ∀ {links : Nat} {current parts : List Name}, t.walk links current parts ≠ .tooManyLinks →
      t.walk (links + 1) current parts = t.walk links current parts
  | 0, current, parts, h =>
    go_congr (fun _ _ hnot => absurd rfl hnot) parts current h
  | _ + 1, current, parts, h =>
    go_congr (fun _ _ hnot => walk_succ hnot) parts current h

/-- A walk that comes to its end does so with more links allowed. -/
theorem walk_more {links : Nat} {current parts : List Name} (more : Nat)
    (h : t.walk links current parts ≠ .tooManyLinks) :
    t.walk (links + more) current parts = t.walk links current parts := by
  induction more with
  | zero => rfl
  | succ more ih =>
    have hstill : t.walk (links + more) current parts ≠ .tooManyLinks := by
      rw [ih]
      exact h
    rw [← Nat.add_assoc, walk_succ hstill, ih]

theorem Leads.unique {current parts : List Name} {r r' : Walked} (h : t.Leads current parts r)
    (h' : t.Leads current parts r') : r = r' := by
  obtain ⟨hr, links, rfl⟩ := h
  obtain ⟨hr', links', rfl⟩ := h'
  rw [← walk_more links' hr, ← walk_more links hr', Nat.add_comm]

theorem IsName.part {n : Name} (h : IsName n) : ¬ (n = [] ∨ n = ['.']) ∧ n ≠ ['.', '.'] :=
  ⟨fun hor => hor.elim h.1 h.2.1, h.2.2.1⟩

/-- Where no part is a link, a walk goes straight on. -/
theorem go_real {followLast : Bool} {again : List Name → List Name → Walked} {rest : List Name} :
    ∀ {p current : List Name}, t.Real (current ++ p) →
      t.go followLast again current (p ++ rest) = t.go followLast again (current ++ p) rest
  | [], current, _ => by
    rw [append_nil]
    rfl
  | n :: p, current, h => by
    obtain ⟨node, hnode, hlink⟩ := h
    have hsplit : current ++ n :: p = (current ++ [n]) ++ p := by simp
    have hentry : t.entry ((current ++ [n]) ++ p) ≠ none := by
      rw [← hsplit, hnode]
      exact some_ne_none node
    have hnext : ∃ node', t.entry (current ++ [n]) = some node' ∧
        ∀ target, node' ≠ .link target := by
      cases p with
      | nil => exact ⟨node, hnode, hlink⟩
      | cons m p => exact ⟨.dir, dir_above (cons_ne_nil m p) hentry, nofun⟩
    obtain ⟨node', hnode', hlink'⟩ := hnext
    have hthere : t.entry (current ++ [n]) ≠ none := by
      rw [hnode']
      exact some_ne_none node'
    have hdir := t.parent current n hthere
    obtain ⟨hpart, hup⟩ := (t.name current n hthere).part
    have hrest : t.Real ((current ++ [n]) ++ p) := by
      rw [← hsplit]
      exact ⟨node, hnode, hlink⟩
    rw [hsplit, ← go_real hrest, cons_append]
    conv_lhs => unfold Tree.go
    rw [if_neg (not_not_intro hdir), if_neg hpart, if_neg hup, hnode']
    cases node' with
    | link target => exact absurd rfl (hlink' target)
    | file => rfl
    | dir => rfl

theorem walk_real (h : t.Real p) (links : Nat) : t.walk links [] p = .found p := by
  have hgo : ∀ again, t.go true again [] p = .found p := by
    intro again
    have hwalk := @go_real t true again [] p [] h
    rw [append_nil] at hwalk
    exact hwalk
  cases links with
  | zero => exact hgo _
  | succ => exact hgo _

theorem lwalk_name {current : List Name} {n : Name} (h : t.Real current) (hn : IsName n)
    (links : Nat) :
    t.lwalk links [] (current ++ [n]) =
      if t.entry current ≠ some .dir then .notDirectory
      else if t.entry (current ++ [n]) = none then .absent current n
      else .found (current ++ [n]) := by
  obtain ⟨hpart, hup⟩ := hn.part
  have hgo : ∀ again, t.go false again [] (current ++ [n]) =
      if t.entry current ≠ some .dir then .notDirectory
      else if t.entry (current ++ [n]) = none then .absent current n
      else .found (current ++ [n]) := by
    intro again
    rw [@go_real t false again [n] current [] h, nil_append]
    unfold Tree.go
    rw [if_neg hpart, if_neg hup]
    split
    · rfl
    · cases hentry : t.entry (current ++ [n]) with
      | none => rfl
      | some node =>
        cases node with
        | link => rfl
        | file => rfl
        | dir => rfl
  cases links with
  | zero => exact hgo _
  | succ => exact hgo _

theorem go_found {again : List Name → List Name → Walked}
    (hagain : ∀ current parts q, t.Real current → again current parts = .found q → t.Real q) :
    ∀ {parts current : List Name} {q : List Name}, t.Real current →
      t.go true again current parts = .found q → t.Real q
  | [], current, q, hcurrent, h => by
    cases h
    exact hcurrent
  | part :: rest, current, q, hcurrent, h => by
    unfold Tree.go at h
    split at h
    · cases h
    · next hdir =>
      have hdir : t.entry current = some .dir := not_not.mp hdir
      split at h
      · exact go_found hagain hcurrent h
      · split at h
        · exact go_found hagain (real_of_dir (dir_dropLast hdir)) h
        · cases hentry : t.entry (current ++ [part]) with
          | none =>
            rw [hentry] at h
            simp only at h
            split at h
            · cases h
            · cases h
          | some node =>
            rw [hentry] at h
            cases node with
            | link =>
              simp only [Bool.true_eq_false, and_false, if_false] at h
              refine hagain _ _ q ?_ h
              split
              · exact real_nil
              · exact hcurrent
            | file => exact go_found hagain ⟨.file, hentry, nofun⟩ h
            | dir => exact go_found hagain ⟨.dir, hentry, nofun⟩ h

theorem real_of_found :
    ∀ {links : Nat} {current parts q : List Name}, t.Real current →
      t.walk links current parts = .found q → t.Real q
  | 0, _, _, _, hcurrent, h => go_found (fun _ _ _ _ hfound => by cases hfound) hcurrent h
  | _ + 1, _, _, _, hcurrent, h => go_found (fun _ _ _ hreal => real_of_found hreal) hcurrent h

theorem go_append
    {again again' : List Name → List Name → Walked} {second q : List Name} {r : Walked}
    (hagain : ∀ current parts, again current parts = .found q →
      again' current (parts ++ second) = r)
    (hend : t.go true again' q second = r) :
    ∀ {first current : List Name}, t.go true again current first = .found q →
      t.go true again' current (first ++ second) = r
  | [], current, h => by
    cases h
    exact hend
  | part :: rest, current, h => by
    rw [cons_append]
    unfold Tree.go at h ⊢
    split at h
    · cases h
    · next hdir =>
      rw [if_neg hdir]
      split at h
      · next hhere =>
        rw [if_pos hhere]
        exact go_append hagain hend h
      · next hhere =>
        rw [if_neg hhere]
        split at h
        · next hup =>
          rw [if_pos hup]
          exact go_append hagain hend h
        · next hup =>
          rw [if_neg hup]
          cases hentry : t.entry (current ++ [part]) with
          | none =>
            rw [hentry] at h
            simp only at h
            split at h
            · cases h
            · cases h
          | some node =>
            rw [hentry] at h
            cases node with
            | link =>
              simp only [Bool.true_eq_false, and_false, if_false] at h ⊢
              rw [← append_assoc]
              exact hagain _ _ h
            | file => exact go_append hagain hend h
            | dir => exact go_append hagain hend h

theorem walk_append {second q : List Name} {r : Walked} {more : Nat} (hr : r ≠ .tooManyLinks)
    (hsecond : t.walk more q second = r) :
    ∀ {links : Nat} {current first : List Name}, t.walk links current first = .found q →
      t.walk (links + more) current (first ++ second) = r
  | 0, current, first, h => by
    rw [Nat.zero_add]
    cases more with
    | zero => exact go_append (fun _ _ hfound => by cases hfound) hsecond h
    | succ => exact go_append (fun _ _ hfound => by cases hfound) hsecond h
  | links + 1, current, first, h => by
    rw [Nat.add_right_comm]
    refine go_append (fun _ _ hfound => walk_append hr hsecond hfound) ?_ h
    -- the second half needs no more than its own links
    have hmore : t.walk (more + (links + 1)) q second = r := by
      rw [walk_more (links + 1) (by rw [hsecond]; exact hr), hsecond]
    rw [Nat.add_comm more, Nat.add_right_comm] at hmore
    exact hmore

/-- A path leads where its second half leads from where its first half leads. -/
theorem Leads.trans {current first second q : List Name} {r : Walked}
    (h : t.Leads current first (.found q)) (h' : t.Leads q second r) :
    t.Leads current (first ++ second) r := by
  obtain ⟨_, links, hfirst⟩ := h
  obtain ⟨hr, more, hsecond⟩ := h'
  exact ⟨hr, links + more, walk_append hr hsecond hfirst⟩

theorem leads_real {current p : List Name} (h : t.Real (current ++ p)) :
    t.Leads current p (.found (current ++ p)) := by
  refine ⟨nofun, 0, ?_⟩
  have hwalk := @go_real t true (fun _ _ => .tooManyLinks) [] p current h
  rw [append_nil] at hwalk
  exact hwalk

end Walks

end FileTree
end StudioWeb
