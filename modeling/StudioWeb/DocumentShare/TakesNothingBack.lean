import StudioWeb.DocumentShare.Propose

/-!
# What a proposal takes back

A proposed commit has the files as they are on disk over the tree of the base, or of the review
branch.  The files on disk descend from what was pulled last, so a change that the team made
since is in the proposal only where it is on disk already.
-/

namespace StudioWeb
namespace DocumentShare

open List Option

universe u

section Purpose

variable {Blob : Type u}

/-- A chosen document, or a file that belongs to one. -/
def Named (chosen : List Path) (file : Path) : Prop :=
  file ∈ chosen ∨ ∃ document ∈ chosen, companionOf file = some document

/-- The change from one text to another is in a third: merging it in changes nothing.
`merge` is git's merge of a file, with a result where there is no conflict. -/
def StillIn (merge : Option Blob → Option Blob → Option Blob → Option (Option Blob))
    (old new text : Option Blob) : Prop :=
  merge old new text = some text

instance (merge : Option Blob → Option Blob → Option Blob → Option (Option Blob))
    [DecidableEq Blob] (old new text : Option Blob) : Decidable (StillIn merge old new text) :=
  inferInstanceAs (Decidable (_ = _))

/-- What the files on disk descend from: what was pulled last, and on the review branch what
this person proposed last. -/
structure Descent (Blob : Type u) where
  pulled : Tree Blob
  proposed : Option (Tree Blob)

/-- What a proposal is compared with: the review branch while a request is open, else the
base, as the remote had them at the fetch. -/
def comparedWith (review : ShareReview) (base : Option (Commit Blob)) (attempt : Attempt Blob) :
    Option (Commit Blob) :=
  if review.opened then attempt.review.or base else base

/-- The team's changes of the proposed files are in a tree: those made on the base since the
last pull, and those made on the review branch since this person's last proposal. -/
structure Keeps (merge : Option Blob → Option Blob → Option Blob → Option (Option Blob))
    (descent : Descent Blob) (review : ShareReview) (base : Option (Commit Blob))
    (attempt : Attempt Blob) (files : List Path) (tree : Tree Blob) : Prop where
  base : ∀ file ∈ files, ∀ b, base = some b →
    StillIn merge (descent.pulled file) (b.tree file) (tree file)
  review : ∀ file ∈ files, ∀ r, review.opened = true → attempt.review = some r →
    StillIn merge (descent.proposed.getD descent.pulled file) (r.tree file) (tree file)

/-- A pushed commit takes nothing back: it differs from what it is compared with only in chosen
documents and their companions, and the team's changes are in it. -/
def TakesNothingBack (merge : Option Blob → Option Blob → Option Blob → Option (Option Blob))
    (descent : Descent Blob) (review : ShareReview) (base : Option (Commit Blob))
    (files chosen : List Path) (pushed : Pushed Blob) : Prop :=
  (∀ other, comparedWith review base pushed.attempt = some other →
      ∀ file, ¬ Named chosen file → pushed.commit.tree file = other.tree file) ∧
    Keeps merge descent review base pushed.attempt files pushed.commit.tree

/-- The review branch of an open request could be fetched, or differs from the base only in
chosen documents and their companions. -/
def ReviewSeen (review : ShareReview) (base : Option (Commit Blob)) (chosen : List Path)
    (attempt : Attempt Blob) : Prop :=
  review.opened = true → attempt.fetchReview.code ≠ 0 → ∀ r, attempt.review = some r →
    ∀ b, base = some b → ∀ file, ¬ Named chosen file → b.tree file = r.tree file

end Purpose

theorem mem_companionsIn {entries : List StatusEntry} {document file : Path}
    (h : file ∈ companionsIn entries document) : companionOf file = some document := by
  obtain ⟨entry, hentry, rfl⟩ := List.mem_map.mp h
  simpa using (mem_filter.mp hentry).2

def Belong (documents : List ShareDocument) : Prop :=
  ∀ document ∈ documents, ∀ file ∈ document.companions, companionOf file = some document.path

theorem belong_addOwner
    {entries : List StatusEntry} {documents : List ShareDocument} {entry : StatusEntry}
    (h : Belong documents) : Belong (addOwner entries documents entry) := by
  unfold addOwner
  split
  · split
    · exact h
    · intro document hdocument
      rcases mem_append.mp hdocument with hin | hnew
      · exact h document hin
      · rw [mem_singleton.mp hnew]
        exact fun file hfile => mem_companionsIn hfile
  · exact h

theorem belong_documentsOf (working committed : List StatusEntry) :
    Belong (documentsOf working committed) := by
  have hfold : ∀ (entries some_ : List StatusEntry) (documents : List ShareDocument),
      Belong documents → Belong (some_.foldl (addOwner entries) documents) := by
    intro entries some_
    induction some_ with
    | nil => exact fun _ h => h
    | cons _ _ ih => exact fun documents h => ih _ (belong_addOwner h)
  unfold documentsOf
  refine hfold _ _ _ ?_
  intro document hdocument file hfile
  obtain ⟨entry, _, rfl⟩ := List.mem_map.mp hdocument
  exact mem_companionsIn hfile

/-- What is proposed are chosen documents and their companions. -/
theorem toPropose_named {reported again : Reported} {chosen : List Path} :
    ∀ file ∈ toPropose reported again chosen, Named chosen file := by
  intro file hfile
  unfold toPropose at hfile
  obtain ⟨document, hdocument, hin⟩ := mem_flatMap.mp (mem_of_mem_filter hfile)
  obtain ⟨hdocument, hchosen⟩ := mem_filter.mp hdocument
  have hchosen : document.path ∈ chosen := by simpa using hchosen
  rcases mem_cons.mp hin with rfl | hcompanion
  · exact Or.inl hchosen
  · exact Or.inr ⟨document.path, hchosen, belong_documentsOf _ _ document hdocument file hcompanion⟩

section Commits

variable {Blob : Type u}

theorem runSteps_tree {step : Nat → GitResult} {disk : Tree Blob} :
    ∀ {files : List Path} {n : Nat} {index tree : Tree Blob},
      runSteps step disk n index files = .ok tree →
      ∀ file, tree file = if file ∈ files then disk file else index file
  | [], n, index, tree, h, file => by
    cases h
    rw [if_neg not_mem_nil]
  | first :: files, n, index, tree, h, file => by
    unfold runSteps at h
    split at h
    · rw [runSteps_tree h file]
      unfold updateIndex
      by_cases hin : file ∈ files
      · rw [if_pos hin, if_pos (mem_cons_of_mem first hin)]
      · rw [if_neg hin]
        by_cases hsame : file = first
        · subst hsame
          rw [if_pos mem_cons_self, Function.update_self]
        · rw [Function.update_of_ne hsame, if_neg (by simp [hsame, hin])]
    · cases h

/-- A commit has the proposed files as on disk, and all others as its parent. -/
theorem commitOnto_tree
    {git : Building} {disk : Tree Blob} {parent commit : Commit Blob} {files : List Path}
    {message : String} (h : commitOnto git disk parent files message = .ok commit) :
    ∀ file, commit.tree file = if file ∈ files then disk file else parent.tree file := by
  unfold commitOnto at h
  split at h
  · cases h
  · split at h
    · cases h
    · cases hsteps : runSteps git.step disk 1 parent.tree files with
      | error =>
        rw [hsteps] at h
        cases h
      | ok =>
        rw [hsteps] at h
        simp only [bind, Except.bind] at h
        split at h
        · cases h
        · split at h
          · cases h
          · cases h
            exact runSteps_tree hsteps

variable {failureOf : GitResult → Failure}

theorem attempts_pushed
    {review : ShareReview} {disk : Tree Blob} {files : List Path} {message : String}
    {base : Option (Commit Blob)} {outcome : ShareOutcome} {pushed : Pushed Blob} :
    ∀ {list : List (Attempt Blob)},
      attempts failureOf review disk files message base list = (outcome, some pushed) →
      ∃ parent, parentOf review.opened pushed.attempt base = some parent ∧
        commitOnto pushed.attempt.building disk parent files message = .ok pushed.commit
  | [], h => by cases h
  | attempt :: list, h => by
    unfold attempts at h
    split at h
    · cases h
    · next parent hparent =>
      split at h
      · cases h
      · next _ hcommit =>
        split at h
        · cases h
          exact ⟨parent, hparent, hcommit⟩
        · split at h
          · cases h
          · exact attempts_pushed h

theorem propose_pushed
    {review : ShareReview} {disk : Tree Blob} {files : List Path} {message : String}
    {answers : Answers Blob} {outcome : ShareOutcome} {pushed : Pushed Blob}
    (h : propose failureOf review disk files message answers = (outcome, some pushed)) :
    ∃ parent, parentOf review.opened pushed.attempt answers.base = some parent ∧
      ∀ file, pushed.commit.tree file =
        if file ∈ files then disk file else parent.tree file := by
  unfold propose at h
  split at h
  · cases h
  · obtain ⟨parent, hparent, hcommit⟩ := attempts_pushed h
    exact ⟨parent, hparent, commitOnto_tree hcommit⟩

end Commits

section Proposals

variable {Blob : Type u}

variable {review : ShareReview} {attempt : Attempt Blob} {base : Option (Commit Blob)}

theorem parent_cases
    {parent other : Commit Blob} (hparent : parentOf review.opened attempt base = some parent)
    (hother : comparedWith review base attempt = some other) :
    parent = other ∨ review.opened = true ∧ attempt.fetchReview.code ≠ 0 ∧
      attempt.review = some other ∧ base = some parent := by
  unfold parentOf at hparent
  unfold comparedWith at hother
  by_cases hopened : review.opened = true
  · rw [if_pos hopened] at hother
    by_cases hcode : attempt.fetchReview.code = 0
    · rw [if_pos ⟨hopened, hcode⟩] at hparent
      rw [hparent] at hother
      exact Or.inl (some.inj hother)
    · rw [if_neg (fun hboth => hcode hboth.2)] at hparent
      cases hreview : attempt.review with
      | none =>
        rw [hreview] at hother
        exact Or.inl (some.inj (hparent.symm.trans hother))
      | some =>
        rw [hreview] at hother
        cases hother
        exact Or.inr ⟨hopened, hcode, rfl, hparent⟩
  · rw [if_neg hopened] at hother
    rw [if_neg (fun hboth => hopened hboth.1)] at hparent
    exact Or.inl (some.inj (hparent.symm.trans hother))

theorem keeps_congr {merge : Option Blob → Option Blob → Option Blob → Option (Option Blob)}
    {descent : Descent Blob} {files : List Path} {tree tree' : Tree Blob}
    (hsame : ∀ file ∈ files, tree file = tree' file)
    (h : Keeps merge descent review base attempt files tree) :
    Keeps merge descent review base attempt files tree' := by
  constructor
  · intro file hfile
    rw [← hsame file hfile]
    exact h.base file hfile
  · intro file hfile
    rw [← hsame file hfile]
    exact h.review file hfile

/-- Outside of what is proposed, a commit is as what it is compared with exactly when the
review branch was seen. -/
theorem outside_iff {parent : Commit Blob} {tree disk : Tree Blob} {files chosen : List Path}
    (hparent : parentOf review.opened attempt base = some parent)
    (htree : ∀ file, tree file = if file ∈ files then disk file else parent.tree file)
    (hfiles : ∀ file ∈ files, Named chosen file) :
    (∀ other, comparedWith review base attempt = some other →
      ∀ file, ¬ Named chosen file → tree file = other.tree file) ↔
      ReviewSeen review base chosen attempt := by
  have houtside : ∀ file, ¬ Named chosen file → tree file = parent.tree file := by
    intro file hnamed
    rw [htree, if_neg (fun hin => hnamed (hfiles file hin))]
  constructor
  · intro h hopened hcode r hr b hb file hnamed
    have hcompared : comparedWith review base attempt = some r := by
      unfold comparedWith
      rw [if_pos hopened, hr]
      rfl
    have hsame : parent = b := by
      unfold parentOf at hparent
      rw [if_neg (fun hboth => hcode hboth.2), hb] at hparent
      exact (some.inj hparent).symm
    rw [← hsame, ← houtside file hnamed]
    exact h r hcompared file hnamed
  · intro h other hother file hnamed
    rw [houtside file hnamed]
    rcases parent_cases hparent hother with rfl | ⟨hopened, hcode, hreview, hbase⟩
    · rfl
    · exact h hopened hcode other hreview parent hbase file hnamed

/-- When a pushed proposal takes nothing back: the team's changes of the proposed files are on
disk already. -/
theorem pushed_keeps_iff (merge : Option Blob → Option Blob → Option Blob → Option (Option Blob))
    (failureOf : GitResult → Failure) (descent : Descent Blob) (review : ShareReview)
    (disk : Tree Blob) (reported again : Reported) (chosen : List Path) (message : String)
    (answers : Answers Blob) (outcome : ShareOutcome) (pushed : Pushed Blob)
    (h : shareForReview failureOf review disk reported again chosen message answers =
      (outcome, some pushed)) :
    TakesNothingBack merge descent review answers.base
        (toPropose reported again chosen) chosen pushed ↔
      ReviewSeen review answers.base chosen pushed.attempt ∧
        Keeps merge descent review answers.base pushed.attempt
          (toPropose reported again chosen) disk := by
  obtain ⟨parent, hparent, htree⟩ : ∃ parent,
      parentOf review.opened pushed.attempt answers.base = some parent ∧
        ∀ file, pushed.commit.tree file =
          if file ∈ toPropose reported again chosen then disk file else parent.tree file := by
    unfold shareForReview at h
    simp only at h
    split at h
    · cases h
    · exact propose_pushed h
  have hproposed : ∀ file ∈ toPropose reported again chosen,
      pushed.commit.tree file = disk file := by
    intro file hfile
    rw [htree, if_pos hfile]
  have houtside := outside_iff hparent htree (@toPropose_named reported again chosen)
  constructor
  · rintro ⟨hother, hkeeps⟩
    exact ⟨houtside.mp hother, keeps_congr hproposed hkeeps⟩
  · rintro ⟨hseen, hkeeps⟩
    exact ⟨houtside.mpr hseen, keeps_congr (fun file hfile => (hproposed file hfile).symm) hkeeps⟩

end Proposals

/-- A merge of whole files: a conflict where both sides changed. -/
def mergeWhole (old theirs mine : Option (List String)) : Option (Option (List String)) :=
  if theirs = old then some mine
  else if mine = old ∨ mine = theirs then some theirs
  else none

def notes : Path := "notes.md".toList

def only (text : String) : Tree (List String) :=
  fun file => if file = notes then some [text] else none

def went : GitResult where
  code := 0
  stdout := ""
  stderr := ""

def built : Building where
  hashed := fun _ => true
  step := fun _ => went
  writeTree := true
  commitTree := went

def onBase : Attempt (List String) where
  review := none
  fetchReview := went
  building := built
  push := went

def fetched (text : String) : Answers (List String) where
  fetchBase := went
  base := some (.mk (only text) [] "")
  first := onBase
  second := onBase

def edited : Reported where
  working := [{ path := notes, state := .modified }]
  unsent := 0
  ours := []
  differs := []

def newRequest : ShareReview where
  branch := "studio/alice/share"
  base := "main"
  opened := false

def proposing (base : String) : ShareOutcome × Option (Pushed (List String)) :=
  shareForReview (fun _ => .failed) newRequest (only "mine") edited edited [notes] "Edit"
    (fetched base)

def proposedOn (base : String) : Pushed (List String) where
  commit := .mk (Function.update (only base) notes (only "mine" notes))
    [.mk (only base) [] ""] "Edit"
  attempt := onBase

def pulledFirst : Descent (List String) where
  pulled := only "old"
  proposed := none

theorem notes_proposed : toPropose edited edited [notes] = [notes] := by
  decide +kernel

theorem proposing_pushes (base : String) :
    proposing base = (.review "studio/alice/share", some (proposedOn base)) := by
  unfold proposing shareForReview
  rw [notes_proposed]
  rfl

/-- The team changed nothing since the last pull. -/
theorem nothing_taken_back :
    TakesNothingBack mergeWhole pulledFirst newRequest (fetched "old").base
      (toPropose edited edited [notes]) [notes] (proposedOn "old") := by
  refine (pushed_keeps_iff mergeWhole (fun _ => .failed) pulledFirst newRequest (only "mine")
    edited edited [notes] "Edit" (fetched "old") _ _ (proposing_pushes "old")).mpr ?_
  refine ⟨nofun, ?_, nofun⟩
  intro file hfile b hb
  rw [notes_proposed, mem_singleton] at hfile
  subst hfile
  cases hb
  decide

/-- The team changed the same line since the last pull: the proposal puts the person's line in
its place, and nothing is a conflict. -/
theorem a_change_is_taken_back :
    proposing "theirs" = (.review "studio/alice/share", some (proposedOn "theirs")) ∧
      ¬ TakesNothingBack mergeWhole pulledFirst newRequest (fetched "theirs").base
        (toPropose edited edited [notes]) [notes] (proposedOn "theirs") := by
  refine ⟨proposing_pushes "theirs", ?_⟩
  rintro ⟨_, hkeeps⟩
  have hstill := hkeeps.base notes (by rw [notes_proposed]; exact mem_singleton_self notes) _ rfl
  have hnot : ¬ StillIn mergeWhole (only "old" notes) (only "theirs" notes)
      (only "mine" notes) := by
    decide
  exact hnot hstill

end DocumentShare
end StudioWeb
