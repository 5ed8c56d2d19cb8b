import StudioWeb.Product.SourcesLock

/-!
# The revisions of a description

`product/descriptions.rs`: the rows of one project in `studio_product_descriptions`, what a
save comes to by the latest of them, and the lock that is kept beside a revision; and, of
`product/description_service.rs`, what the project's record says of its description.

SHA-256 is a parameter.
-/

namespace StudioWeb
namespace Product

open List

/-- `Revision`, and a row of `studio_product_descriptions`. -/
structure Revision where
  revision : Int
  text : String
  author : String
  createdAtMs : Int
  sha256 : String
  source : String
  sourcesLock : Option SourcesLock
deriving DecidableEq

inductive Saved where
  | created (r : Revision)
  | unchanged (r : Revision)
  | stale (r : Revision)
deriving DecidableEq

/-- The revision that an answer is about. -/
def Saved.kept : Saved → Revision
  | .created r => r
  | .unchanged r => r
  | .stale r => r

/-- The answer, with a lock beside its revision. -/
def Saved.withLock (lock : SourcesLock) : Saved → Saved
  | .created r => .created { r with sourcesLock := some lock }
  | .unchanged r => .unchanged { r with sourcesLock := some lock }
  | .stale r => .stale { r with sourcesLock := some lock }

def isCurrent (base : Option Int) (latest : Option Revision) : Bool :=
  base.getD 0 = latest.elim 0 Revision.revision

def settled (base : Option Int) (latest : Option Revision) (sha256 : String) : Option Saved :=
  match latest with
  | none => none
  | some l =>
    if l.sha256 = sha256 then
      some (.unchanged l)
    else if isCurrent base (some l) then
      none
    else
      some (.stale l)

def latest (rows : List Revision) : Option Revision := rows.maxOn? Revision.revision

/-- The primary key. -/
def isTaken (rows : List Revision) (revision : Int) : Bool :=
  rows.any fun r => r.revision = revision

def setLock (rows : List Revision) (revision : Int) (lock : SourcesLock) : List Revision :=
  rows.map fun r => if r.revision = revision then { r with sourcesLock := some lock } else r

/-- A save that `save_description` is called for, by a person. -/
structure SaveCall where
  base : Option Int
  text : String
  source : String
  path : Option String
  author : String
deriving DecidableEq

def SaveCall.made (c : SaveCall) (digest : String → String) (now : Int)
    (latest : Option Revision) : Revision where
  revision := latest.elim 1 fun l => l.revision + 1
  text := c.text
  author := c.author
  createdAtMs := now
  sha256 := digest c.text
  source := c.source
  sourcesLock := none

/-- What an insert that failed comes to, by the latest revision read again. -/
def reread (made : Revision) (why : String) : Option Revision → Except String Saved
  | some l =>
    if l.sha256 = made.sha256 then
      .ok (.unchanged l)
    else if made.revision ≤ l.revision then
      .ok (.stale l)
    else
      .error why
  | none => .error why

/-- The record's `description`. -/
structure RecordedDescription where
  revision : Int
  sha256 : String
  path : Option String
  sourcesLock : Option SourcesLock
deriving DecidableEq

/-- What a save reads and writes of a project's record. -/
structure ProductRecord where
  publishedPath : Option String
  writtenPath : Option String
  productId : Option String
  description : Option RecordedDescription
deriving DecidableEq

def isProductPath (path : String) : Bool :=
  (segments path).getLast? = some "product.gdl" && path.toList.all (fun c => c ≠ '\\') &&
    (segments path).all fun s => s ≠ "" && s ≠ "." && s ≠ ".."

def productGdlPath (productId : String) : String := s!"products/{productId}/product.gdl"

def descriptionPath (record : Option ProductRecord) : Option String :=
  let recorded := record.bind fun r =>
    r.publishedPath.or (r.writtenPath.or (r.description.bind RecordedDescription.path))
  (recorded.filter isProductPath).or
    (((record.bind ProductRecord.productId).filter fun id => Rust.trim id.toList ≠ []).map
      productGdlPath)

/-- `update_project_product`, with a patch of the description. -/
def updateDescription (record : Option ProductRecord) (d : RecordedDescription) : ProductRecord :=
  { record.getD ⟨none, none, none, none⟩ with description := some d }

section Numbers

variable {rows : List Revision} {r l made : Revision} {lock : SourcesLock} {k : Int}

/-- The revisions are numbered from `1`, without gaps. -/
structure Numbered (rows : List Revision) : Prop where
  nodup : (rows.map Revision.revision).Nodup
  mem_iff : ∀ k : Int, k ∈ rows.map Revision.revision ↔ 1 ≤ k ∧ k ≤ rows.length

theorem numbered_nil : Numbered [] where
  nodup := nodup_nil
  mem_iff k := by
    simp only [map_nil, not_mem_nil, length_nil, false_iff]
    omega

theorem isTaken_eq_false_iff : isTaken rows k = false ↔ k ∉ rows.map Revision.revision := by
  simp [isTaken]

theorem latest_eq_none_iff : latest rows = none ↔ rows = [] := by
  rw [← Option.not_isSome_iff_eq_none, latest, List.isSome_maxOn?_iff, not_not]

theorem mem_of_latest (h : latest rows = some l) : l ∈ rows := List.maxOn?_mem h

/-- The latest of revisions that are numbered has their number. -/
theorem latest_of_numbered (hrows : Numbered rows) (h : latest rows = some l) :
    l.revision = rows.length := by
  have hmem := mem_of_latest h
  have hle := ((hrows.mem_iff l.revision).mp (mem_map_of_mem hmem)).2
  have hpos : 1 ≤ rows.length := length_pos_of_mem hmem
  obtain ⟨r, hr, hlast⟩ := mem_map.mp ((hrows.mem_iff rows.length).mpr ⟨by omega, Int.le_refl _⟩)
  have hmax : r.revision ≤ l.revision := by
    have hsome : (rows.maxOn? Revision.revision).isSome = true := List.isSome_maxOn?_of_mem hr
    have hgreatest : r.revision ≤ ((rows.maxOn? Revision.revision).get hsome).revision :=
      List.le_apply_get_maxOn?_of_mem hr
    have hl : (rows.maxOn? Revision.revision).get hsome = l := Option.get_of_eq_some hsome h
    rwa [hl] at hgreatest
  omega

theorem eq_of_revision_eq (hrows : Numbered rows) (hr : r ∈ rows) (hl : l ∈ rows)
    (h : r.revision = l.revision) : r = l :=
  inj_on_of_nodup_map hrows.nodup hr hl h

theorem latest_eq_of_mem (hrows : Numbered rows) (hl : l ∈ rows) (h : l.revision = rows.length) :
    latest rows = some l := by
  cases hlatest : latest rows with
  | none =>
    rw [latest_eq_none_iff.mp hlatest] at hl
    exact absurd hl not_mem_nil
  | some =>
    have hsame := latest_of_numbered hrows hlatest
    rw [eq_of_revision_eq hrows (mem_of_latest hlatest) hl (hsame.trans h.symm)]

/-- A revision whose number is free, and past the others by one at most, is the next one. -/
theorem numbered_append (hrows : Numbered rows) (hfree : isTaken rows made.revision = false)
    (hpos : 1 ≤ made.revision) (hle : made.revision ≤ rows.length + 1) :
    Numbered (rows ++ [made]) ∧ made.revision = rows.length + 1 := by
  rw [isTaken_eq_false_iff] at hfree
  have hnext : made.revision = rows.length + 1 := by
    have hout := mt (hrows.mem_iff made.revision).mpr hfree
    omega
  refine ⟨⟨?_, fun k => ?_⟩, hnext⟩
  · rw [map_append, nodup_append]
    refine ⟨hrows.nodup, nodup_singleton _, ?_⟩
    intro a ha b hb hab
    rw [hab, mem_singleton.mp hb] at ha
    exact hfree ha
  · rw [map_append, mem_append, hrows.mem_iff k, length_append]
    simp only [map_cons, map_nil, mem_singleton, length_cons, length_nil]
    omega

@[simp] theorem map_revision_setLock :
    (setLock rows k lock).map Revision.revision = rows.map Revision.revision := by
  unfold setLock
  rw [map_map]
  refine map_congr_left fun r _ => ?_
  simp only [Function.comp_apply]
  split <;> rfl

@[simp] theorem length_setLock : (setLock rows k lock).length = rows.length := length_map ..

theorem numbered_setLock (hrows : Numbered rows) :
    Numbered (setLock rows k lock) where
  nodup := by
    rw [map_revision_setLock]
    exact hrows.nodup
  mem_iff k' := by
    rw [map_revision_setLock, length_setLock]
    exact hrows.mem_iff k'

def Revision.unlocked (r : Revision) : Revision :=
  { r with sourcesLock := none }

def Kept (rows : List Revision) (r : Revision) : Prop := r.unlocked ∈ rows.map Revision.unlocked

theorem kept_of_mem (h : r ∈ rows) : Kept rows r := mem_map_of_mem h

@[simp] theorem kept_append :
    Kept (rows ++ [made]) r ↔ Kept rows r ∨ r.unlocked = made.unlocked := by
  simp [Kept]

@[simp] theorem kept_setLock : Kept (setLock rows k lock) r ↔ Kept rows r := by
  have hsame : (setLock rows k lock).map Revision.unlocked = rows.map Revision.unlocked := by
    unfold setLock
    rw [map_map]
    refine map_congr_left fun r _ => ?_
    simp only [Function.comp_apply]
    split <;> rfl
  unfold Kept
  rw [hsame]

@[simp] theorem kept_withLock (saved : Saved) :
    Kept rows (saved.withLock lock).kept ↔ Kept rows saved.kept := by
  cases saved <;> exact Iff.rfl

theorem le_length_of_kept (hrows : Numbered rows) (h : Kept rows r) : r.revision ≤ rows.length := by
  obtain ⟨row, hrow, hsame⟩ := mem_map.mp h
  have hnumber : row.unlocked.revision = r.unlocked.revision := congrArg Revision.revision hsame
  change row.revision = r.revision at hnumber
  rw [← hnumber]
  exact ((hrows.mem_iff row.revision).mp (mem_map_of_mem hrow)).2

theorem sha256_of_kept (hrows : Numbered rows) (hlatest : latest rows = some l) (h : Kept rows r)
    (hsame : r.revision = l.revision) : r.sha256 = l.sha256 := by
  obtain ⟨row, hrow, hunlocked⟩ := mem_map.mp h
  have hnumber : row.unlocked.revision = r.unlocked.revision := congrArg Revision.revision hunlocked
  have htext : row.unlocked.sha256 = r.unlocked.sha256 := congrArg Revision.sha256 hunlocked
  have hrow' : row = l := eq_of_revision_eq hrows hrow (mem_of_latest hlatest) (hnumber.trans hsame)
  rw [← hrow']
  exact htext.symm

theorem latest_setLock (hrows : Numbered rows) (hlatest : latest rows = some l) :
    latest (setLock rows k lock) =
      some (if l.revision = k then { l with sourcesLock := some lock } else l) := by
  refine latest_eq_of_mem (numbered_setLock hrows) ?_ ?_
  · exact mem_map.mpr ⟨l, mem_of_latest hlatest, rfl⟩
  · rw [length_setLock, ← latest_of_numbered hrows hlatest]
    split <;> rfl

end Numbers

section Settling

variable {base : Option Int} {l : Revision} {found : Option Revision} {sha256 : String}

theorem base_of_unsettled (h : settled base (some l) sha256 = none) : base.getD 0 = l.revision := by
  unfold settled at h
  dsimp only at h
  split at h
  · cases h
  · by_cases hcurrent : isCurrent base (some l) = true
    · exact of_decide_eq_true hcurrent
    · rw [if_neg hcurrent] at h
      cases h

theorem settled_cases {saved : Saved} (h : settled base found sha256 = some saved) :
    ∃ l, found = some l ∧ (saved = .unchanged l ∨ saved = .stale l) := by
  unfold settled at h
  split at h
  · cases h
  · next l =>
    split at h
    · cases h
      exact ⟨l, rfl, .inl rfl⟩
    · split at h
      · cases h
      · cases h
        exact ⟨l, rfl, .inr rfl⟩

theorem reread_cases {made : Revision} {why : String} {saved : Saved}
    (h : reread made why found = .ok saved) :
    ∃ l, found = some l ∧ (saved = .unchanged l ∨ saved = .stale l) := by
  unfold reread at h
  split at h
  · next l =>
    split at h
    · cases h
      exact ⟨l, rfl, .inl rfl⟩
    · split at h
      · cases h
        exact ⟨l, rfl, .inr rfl⟩
      · cases h
  · cases h

end Settling

end Product
end StudioWeb
