import StudioWeb.Product.SourcesLock

/-!
# What a protected build is built at

`request_build` of `environments/service.rs` takes the refs of `build_refs`, and the build
clones the home repository at one of them and fetches every `git(...)` source that Gearbox
reads in the description at its own ref, or else at the `rev` that the description names.
What Gearbox reads is a parameter.
-/

namespace StudioWeb
namespace Product

open List Option

structure SavedDescription where
  text : String
  productPath : String
  project : List ProjectSource
  heads : String → Option Commit

namespace SavedDescription

/-- The lock that is kept beside the revision. -/
def lock (d : SavedDescription) : SourcesLock :=
  lockSources (sources d.text) d.productPath d.project d.heads

end SavedDescription

def isProductBranch (r : List Char) : Bool :=
  ((Rust.stripPrefix "product/".toList r).or
    (Rust.stripPrefix "refs/heads/product/".toList r)).any fun rest => rest ≠ []

def codeAndDescriptionRefs (gitRef : Option String) (base : String) : String × Option String :=
  match (gitRef.map fun r => Rust.trim r.toList).filter fun r => r ≠ [] with
  | some r =>
    if isProductBranch r then
      (base, some (String.ofList r))
    else
      (String.ofList r, none)
  | none => (base, none)

/-- The ref the home repository is cloned at by a protected build. -/
def codeRef (refs : SourceRefs) (asked : Option String) (base : String) : String :=
  (codeAndDescriptionRefs (refs.home.or asked) base).1

/-- Where a build takes a source of the description. -/
def takenAt (refs : SourceRefs) (code : String) (d : GdlSource) : String :=
  match d.at with
  | .path _ => code
  | .git _ rev => ((refs.git.find? fun p => p.1 = d.id).map Prod.snd).getD rev

def GdlSource.kind (d : GdlSource) : String :=
  match d.at with
  | .path _ => "path"
  | .git _ _ => "git"

def Recorded (lock : SourcesLock) (d : GdlSource) (commit : String) : Prop :=
  ∃ s ∈ lock.sources, s.id = d.id ∧ s.kind = d.kind ∧ s.commit = some commit

/-- What the scan finds of a source settles where it is built: a path inside the home
repository, the repository of a project source, or a commit. -/
def Settles (saved : SavedDescription) (found d : GdlSource) : Prop :=
  match d.at, found.at with
  | .path _, .path p =>
    (descriptionHome saved.project).isSome = true ∧ (resolvePath saved.productPath p).isSome = true
  | .git _ rev, .git url r =>
    (sourceForUrl saved.project url).isSome = true ∨ isCommit r = true ∧ r = rev
  | _, _ => False

/-- The line scan finds the source, and what it finds settles where it is built. -/
def Settled (saved : SavedDescription) (d : GdlSource) : Prop :=
  ∃ found ∈ sources saved.text, found.id = d.id ∧ Settles saved found d

section Commits

variable {c : String}

theorem isHex_of_isCommit (h : isCommit c = true) :
    c.toList ≠ [] ∧
      ∀ x ∈ c.toList, (x.isDigit || ('a' ≤ x && x ≤ 'f') || ('A' ≤ x && x ≤ 'F')) = true := by
  unfold isCommit at h
  rw [Bool.and_eq_true, List.all_eq_true] at h
  refine ⟨fun hnil => ?_, h.2⟩
  have hempty : c = "" := String.toList_inj.mp hnil
  subst hempty
  exact absurd h.1 (by decide)

theorem not_isWhitespace_of_hex {x : Char}
    (h : (x.isDigit || ('a' ≤ x && x ≤ 'f') || ('A' ≤ x && x ≤ 'F')) = true) :
    Rust.isWhitespace x = false := by
  have hrange : (48 ≤ x.toNat ∧ x.toNat ≤ 57) ∨ (97 ≤ x.toNat ∧ x.toNat ≤ 102) ∨
      (65 ≤ x.toNat ∧ x.toNat ≤ 70) := by
    simp only [Char.isDigit, Char.le_def, Bool.or_eq_true, Bool.and_eq_true, decide_eq_true_eq,
      UInt32.le_iff_toNat_le] at h
    rcases h with (h | h) | h
    · exact .inl h
    · exact .inr (.inl h)
    · exact .inr (.inr h)
  unfold Rust.isWhitespace
  simp only [Bool.or_eq_false_iff, Bool.and_eq_false_iff, beq_eq_false_iff_ne,
    decide_eq_false_iff_not]
  omega

theorem trim_eq_self {text : List Char} (h : ∀ x ∈ text, Rust.isWhitespace x = false) :
    Rust.trim text = text := by
  have hstart : ∀ l : List Char, (∀ x ∈ l, Rust.isWhitespace x = false) →
      l.dropWhile Rust.isWhitespace = l := by
    intro l hl
    cases l with
    | nil => rfl
    | cons x => rw [dropWhile_cons, hl x mem_cons_self]; rfl
  unfold Rust.trim Rust.trimEnd Rust.trimStart
  rw [hstart text h, hstart text.reverse fun x hx => h x (mem_reverse.mp hx),
    reverse_reverse]

theorem not_isProductBranch_of_hex {x : Char} {text : List Char}
    (h : (x.isDigit || ('a' ≤ x && x ≤ 'f') || ('A' ≤ x && x ≤ 'F')) = true) :
    isProductBranch (x :: text) = false := by
  have hp : 'p' ≠ x := by
    rintro rfl
    exact absurd h (by decide)
  have hr : 'r' ≠ x := by
    rintro rfl
    exact absurd h (by decide)
  have hproduct : Rust.stripPrefix "product/".toList (x :: text) = none := if_neg hp
  have hheads : Rust.stripPrefix "refs/heads/product/".toList (x :: text) = none := if_neg hr
  unfold isProductBranch
  rw [hproduct, hheads]
  rfl

theorem codeAndDescriptionRefs_commit (h : isCommit c = true) (base : String) :
    codeAndDescriptionRefs (some c) base = (c, none) := by
  obtain ⟨hne, hhex⟩ := isHex_of_isCommit h
  have htrim : Rust.trim c.toList = c.toList :=
    trim_eq_self fun x hx => not_isWhitespace_of_hex (hhex x hx)
  have hbranch : isProductBranch c.toList = false := by
    obtain ⟨x, text, hcons⟩ := exists_cons_of_ne_nil hne
    rw [hcons]
    exact not_isProductBranch_of_hex (hhex x (hcons ▸ mem_cons_self))
  unfold codeAndDescriptionRefs
  simp only [map_some, htrim, filter_some, hne, ne_eq, not_false_eq_true,
    decide_true, if_true, hbranch, String.ofList_toList]
  rfl

end Commits

section Entries

variable {saved : SavedDescription} {s : LockedSource}

theorem SavedDescription.mem_lock (saved : SavedDescription) {found : GdlSource}
    (hfound : found ∈ sources saved.text)
    (hone : (planOne saved.productPath saved.project (descriptionHome saved.project) found).map
      (lockOne saved.heads) = some s) :
    s ∈ saved.lock.sources :=
  mem_lockSources_iff.mpr ⟨found, hfound, hone⟩

theorem mem_lock_cases (hs : s ∈ saved.lock.sources) :
    ∃ found ∈ sources saved.text, found.id = s.id ∧
      ((∃ p home, found.at = .path p ∧ descriptionHome saved.project = some home ∧
          (resolvePath saved.productPath p).isSome = true ∧ s.kind = "path" ∧
          s.repository = some home.fullPath ∧
          s.commit = (saved.heads (headKey home)).map Commit.text) ∨
        (∃ url rev, found.at = .git url rev ∧ s.kind = "git" ∧
          ((sourceForUrl saved.project url).isSome = true ∧ s.repository.isSome = true ∨
            sourceForUrl saved.project url = none ∧ s.repository = none ∧
              s.commit = if isCommit rev then some rev else none))) := by
  obtain ⟨found, hfound, hone⟩ := mem_lockSources_iff.mp hs
  cases hat : found.at with
  | path p =>
    obtain ⟨home, hhome, hresolve, rfl⟩ := lock_of_path hat hone
    exact ⟨found, hfound, rfl, .inl ⟨p, home, hat, hhome, hresolve, rfl, rfl, rfl⟩⟩
  | git url rev =>
    cases hown : sourceForUrl saved.project url with
    | some =>
      rw [lock_of_git_of_project hat hown] at hone
      cases hone
      exact ⟨found, hfound, rfl, .inr ⟨url, rev, hat, rfl, .inl ⟨by rw [hown]; rfl, rfl⟩⟩⟩
    | none =>
      rw [lock_of_git_of_other hat hown] at hone
      cases hone
      exact ⟨found, hfound, rfl, .inr ⟨url, rev, hat, rfl, .inr ⟨hown, rfl, rfl⟩⟩⟩

theorem commit_of_paths {s' : LockedSource} (hs : s ∈ saved.lock.sources)
    (hs' : s' ∈ saved.lock.sources) (hkind : s.kind = "path") (hkind' : s'.kind = "path") :
    s.commit = s'.commit := by
  have hhead : ∀ s : LockedSource, s ∈ saved.lock.sources → s.kind = "path" →
      s.commit = (descriptionHome saved.project).bind fun home =>
        (saved.heads (headKey home)).map Commit.text := by
    intro s hs hkind
    obtain ⟨found, -, -, ⟨p, home, -, hhome, -, -, -, hcommit⟩ | ⟨url, rev, -, hgit, -⟩⟩ :=
      mem_lock_cases hs
    · rw [hcommit, hhome]
      rfl
    · rw [hgit] at hkind
      exact absurd hkind (by decide)
  rw [hhead s hs hkind, hhead s' hs' hkind']

theorem isCommit_of_path {c : String} (hs : s ∈ saved.lock.sources) (hkind : s.kind = "path")
    (hcommit : s.commit = some c) : isCommit c = true := by
  obtain ⟨found, -, -, ⟨p, home, -, -, -, -, -, hhead⟩ | ⟨url, rev, -, hgit, -⟩⟩ :=
    mem_lock_cases hs
  · rw [hhead] at hcommit
    obtain ⟨head, -, rfl⟩ := map_eq_some_iff.mp hcommit
    exact head.valid
  · rw [hgit] at hkind
    exact absurd hkind (by decide)

end Entries

section Builds

variable {saved : SavedDescription} {planned : List LockedSource} {refs : SourceRefs}

section

variable (h : buildRefs (some saved.lock) planned true = .ok refs)
include h

/-- A ref that is taken for a `git(...)` source is the commit of an entry of a project's
repository. -/
theorem mem_git_iff {id c : String} :
    (id, c) ∈ refs.git ↔
      ∃ s ∈ saved.lock.sources, s.repository.isSome = true ∧ s.kind ≠ "path" ∧ s.id = id ∧
        s.commit = some c := by
  rw [(buildRefs_protected h).2.1]
  unfold gitRefs
  constructor
  · intro hmem
    obtain ⟨s, hs, hpair⟩ := mem_filterMap.mp hmem
    obtain ⟨hs, hown⟩ := mem_filter.mp hs
    split at hpair
    · cases hpair
    · next hkind =>
      obtain ⟨c', hcommit, heq⟩ := map_eq_some_iff.mp hpair
      cases heq
      exact ⟨s, hs, hown, hkind, rfl, hcommit⟩
  · rintro ⟨s, hs, hown, hkind, rfl, hcommit⟩
    refine mem_filterMap.mpr ⟨s, mem_filter.mpr ⟨hs, hown⟩, ?_⟩
    rw [if_neg hkind, hcommit]
    rfl

theorem codeRef_of_path {s : LockedSource}
    (hs : s ∈ saved.lock.sources) (hkind : s.kind = "path") (asked : Option String)
    (base : String) : s.commit = some (codeRef refs asked base) := by
  obtain ⟨hall, -, hhome⟩ := buildRefs_protected h
  have hown : s.repository.isSome = true := by
    obtain ⟨found, -, -, ⟨p, home, -, -, -, -, hrepository, -⟩ | ⟨url, rev, -, hgit, -⟩⟩ :=
      mem_lock_cases hs
    · rw [hrepository]
      rfl
    · rw [hgit] at hkind
      exact absurd hkind (by decide)
  obtain ⟨c, hcommit⟩ := isSome_iff_exists.mp (hall s hs hown)
  have hmem : c ∈ ((saved.lock.sources.filter fun s => s.repository.isSome).filterMap fun s =>
      if s.kind = "path" then s.commit else none) :=
    mem_filterMap.mpr ⟨s, mem_filter.mpr ⟨hs, hown⟩, (if_pos hkind).trans hcommit⟩
  obtain ⟨last, hlast⟩ := ne_none_iff_exists'.mp (mt getLast?_eq_none_iff.mp (ne_nil_of_mem hmem))
  -- The last one wins, and it is the commit of every one of them.
  obtain ⟨s', hs', hpath⟩ := mem_filterMap.mp (mem_of_getLast? hlast)
  have hkind' : s'.kind = "path" := by
    by_contra hne
    rw [if_neg hne] at hpath
    cases hpath
  rw [if_pos hkind'] at hpath
  have hsame : s.commit = some last :=
    (commit_of_paths hs (mem_filter.mp hs').1 hkind hkind').trans hpath
  have hrefs : refs.home = some last := hhome.trans hlast
  unfold codeRef
  rw [hrefs, some_or, codeAndDescriptionRefs_commit (isCommit_of_path hs hkind hsame)]
  exact hsame

/-- A source whose place is settled is built at a commit of the lock. -/
theorem pinned_of_settled {d : GdlSource}
    (hsettled : Settled saved d) (asked : Option String) (base : String) :
    Recorded saved.lock d (takenAt refs (codeRef refs asked base) d) := by
  obtain ⟨found, hfound, hid, hsettles⟩ := hsettled
  unfold Settles at hsettles
  cases hat : d.at with
  | path =>
    cases hseen : found.at with
    | git =>
      rw [hat, hseen] at hsettles
      exact hsettles.elim
    | path =>
      rw [hat, hseen] at hsettles
      obtain ⟨home, hhome⟩ := isSome_iff_exists.mp hsettles.1
      obtain ⟨dir, hdir⟩ := isSome_iff_exists.mp hsettles.2
      have hone : (planOne saved.productPath saved.project (descriptionHome saved.project)
          found).map (lockOne saved.heads) =
            some { LockedSource.ofProject found.id "path" home with
              commit := (saved.heads (headKey home)).map Commit.text } := by
        unfold planOne
        rw [hseen]
        dsimp only
        rw [hdir, hhome]
        rfl
      have hs := saved.mem_lock hfound hone
      refine ⟨_, hs, hid, ?_, ?_⟩
      · unfold GdlSource.kind
        rw [hat]
        rfl
      · unfold takenAt
        rw [hat]
        exact codeRef_of_path h hs rfl asked base
  | git _ rev =>
    cases hseen : found.at with
    | path =>
      rw [hat, hseen] at hsettles
      exact hsettles.elim
    | git url r =>
      rw [hat, hseen] at hsettles
      have hkind : d.kind = "git" := by
        unfold GdlSource.kind
        rw [hat]
      unfold Recorded takenAt
      rw [hat, hkind]
      dsimp only
      cases hfind : refs.git.find? fun p => p.1 = d.id with
      | some p =>
        have hname := find?_some hfind
        have hname : p.1 = d.id := of_decide_eq_true hname
        obtain ⟨s, hs, -, hpath, hids, hcommit⟩ := (mem_git_iff h).mp (mem_of_find?_eq_some hfind)
        refine ⟨s, hs, hids.trans hname, ?_, hcommit⟩
        obtain ⟨-, -, -, ⟨-, -, -, -, -, hk, -⟩ | ⟨-, -, -, hk, -⟩⟩ := mem_lock_cases hs
        · exact absurd hk hpath
        · exact hk
      | none =>
        cases hown : sourceForUrl saved.project url with
        | some =>
          -- An entry of a project's repository has a commit, so it is among the refs.
          have hs := saved.mem_lock hfound (lock_of_git_of_project hseen hown)
          obtain ⟨c, hcommit⟩ := isSome_iff_exists.mp ((buildRefs_protected h).1 _ hs rfl)
          have hne : ("git" : String) ≠ "path" := by decide
          have hmem : (found.id, c) ∈ refs.git :=
            (mem_git_iff h).mpr ⟨_, hs, rfl, fun hpath => absurd hpath hne, rfl, hcommit⟩
          exact absurd (decide_eq_true hid) (find?_eq_none.mp hfind _ hmem)
        | none =>
          have hrev : isCommit r = true ∧ r = rev := by
            refine hsettles.resolve_left ?_
            rw [hown]
            exact Bool.false_ne_true
          have hs := saved.mem_lock hfound (lock_of_git_of_other hseen hown)
          refine ⟨_, hs, hid, rfl, ?_⟩
          dsimp only
          rw [if_pos hrev.1, hrev.2]
          rfl

/-- A source that is built at a commit of the lock is one whose place is settled. -/
theorem settled_of_pinned {d : GdlSource} {asked : Option String} {base : String}
    (hpinned : Recorded saved.lock d (takenAt refs (codeRef refs asked base) d)) :
    Settled saved d := by
  obtain ⟨s, hs, hid, hkind, hcommit⟩ := hpinned
  cases hat : d.at with
  | path =>
    have hpath : s.kind = "path" := by
      rw [hkind]
      unfold GdlSource.kind
      rw [hat]
    obtain ⟨found, hfound, hids, ⟨p, home, hseen, hhome, hresolve, -⟩ | ⟨-, -, -, hgit, -⟩⟩ :=
      mem_lock_cases hs
    · refine ⟨found, hfound, hids.trans hid, ?_⟩
      unfold Settles
      rw [hat, hseen]
      exact ⟨by rw [hhome]; rfl, hresolve⟩
    · rw [hgit] at hpath
      exact absurd hpath (by decide)
  | git =>
    have hgit : s.kind = "git" := by
      rw [hkind]
      unfold GdlSource.kind
      rw [hat]
    unfold takenAt at hcommit
    rw [hat] at hcommit
    dsimp only at hcommit
    cases hfind : refs.git.find? fun p => p.1 = d.id with
    | some p =>
      have hname := find?_some hfind
      have hname : p.1 = d.id := of_decide_eq_true hname
      obtain ⟨s', hs', hown', hpath', hids', -⟩ := (mem_git_iff h).mp (mem_of_find?_eq_some hfind)
      obtain ⟨found, hfound, hids, ⟨-, -, -, -, -, hk, -⟩ | ⟨url, r, hseen, -, hcase⟩⟩ :=
        mem_lock_cases hs'
      · exact absurd hk hpath'
      · refine ⟨found, hfound, (hids.trans hids').trans hname, ?_⟩
        unfold Settles
        rw [hat, hseen]
        rcases hcase with ⟨hsource, -⟩ | ⟨-, hnone, -⟩
        · exact .inl hsource
        · rw [hnone] at hown'
          exact absurd hown' Bool.false_ne_true
    | none =>
      rw [hfind] at hcommit
      obtain ⟨found, hfound, hids, ⟨-, -, -, -, -, hk, -⟩ | ⟨url, r, hseen, -, hcase⟩⟩ :=
        mem_lock_cases hs
      · rw [hgit] at hk
        exact absurd hk (by decide)
      · refine ⟨found, hfound, hids.trans hid, ?_⟩
        unfold Settles
        rw [hat, hseen]
        rcases hcase with ⟨hsource, -⟩ | ⟨-, -, hrev⟩
        · exact .inl hsource
        · rw [hrev] at hcommit
          split at hcommit
          · next hc => exact .inr ⟨hc, some.inj hcommit⟩
          · cases hcommit

end

/-- Every source of a protected build is at a commit that the lock of its revision records
exactly when each is settled by what the line scan finds of it. -/
theorem protected_build_pinned_iff (declares : String → List GdlSource) (saved : SavedDescription)
    (planned : List LockedSource) (asked : Option String) (base : String) (refs : SourceRefs)
    (h : buildRefs (some saved.lock) planned true = .ok refs) :
    (∀ d ∈ declares saved.text, Recorded saved.lock d (takenAt refs (codeRef refs asked base) d)) ↔
      ∀ d ∈ declares saved.text, Settled saved d := by
  constructor
  · intro hall d hd
    exact settled_of_pinned h (hall d hd)
  · intro hall d hd
    exact pinned_of_settled h (hall d hd) asked base

/-- A description of one repository that it travels with. -/
def shopText : String :=
  "gdl_version(1)\nproduct(id = \"shop\", sources = [source(id = \"shop\", at = path(\".\"))])\n"

def shopHead : Commit where
  text := "fd2be28b0000000000000000000000000000beef"
  valid := by decide

def shopSource : ProjectSource where
  connectionId := none
  fullPath := "acme/shop"
  cloneUrl := "https://github.com/acme/shop.git"
  branch := some "main"
  publishHere := true

/-- What is declared by the description, and its project when its head is read. -/
def savedShop (text : String) : SavedDescription where
  text := text
  productPath := "product.gdl"
  project := [shopSource]
  heads := fun _ => some shopHead

theorem sources_shopText : sources shopText = [⟨"shop", .path "."⟩] := by
  unfold sources shopText
  repeat rw [show String.toList _ = _ from String.toList_ofList]
  decide +kernel

theorem lock_shopText : (savedShop shopText).lock =
    lockSources [⟨"shop", .path "."⟩] "product.gdl" [shopSource] fun _ => some shopHead :=
  congrArg (lockSources · "product.gdl" [shopSource] fun _ => some shopHead) sources_shopText

theorem shop_is_built_at_its_commit :
    Recorded (savedShop shopText).lock ⟨"shop", .path "."⟩ shopHead.text :=
  (protected_build_pinned_iff (fun _ => [⟨"shop", .path "."⟩]) (savedShop shopText) []
    (some "main") "main" ⟨some shopHead.text, []⟩
    (by
      rw [lock_shopText]
      decide +kernel)).mpr
      (fun d hd => by
        rw [mem_singleton.mp hd]
        exact ⟨⟨"shop", .path "."⟩, sources_shopText ▸ mem_singleton.mpr rfl, rfl, rfl,
          by decide +kernel⟩)
      _ (mem_singleton.mpr rfl)

/-- The same description with a repository that is no source of the project. -/
def billingText : String :=
  "gdl_version(1)\nproduct(id = \"shop\", sources = [source(id = \"shop\", at = path(\".\")),\n" ++
    "source(id = \"billing\", at = git(url = \"https://github.com/acme/billing.git\", " ++
    "rev = \"main\"))])\n"

def billing : GdlSource := ⟨"billing", .git "https://github.com/acme/billing.git" "main"⟩

theorem sources_billingText : sources billingText = [⟨"shop", .path "."⟩, billing] := by
  unfold sources billingText
  repeat rw [String.toList_append]
  repeat rw [show String.toList _ = _ from String.toList_ofList]
  decide +kernel

theorem lock_billingText : (savedShop billingText).lock =
    lockSources [⟨"shop", .path "."⟩, billing] "product.gdl" [shopSource]
      fun _ => some shopHead :=
  congrArg (lockSources · "product.gdl" [shopSource] fun _ => some shopHead) sources_billingText

/-- A protected build starts, and takes a source of its description at a branch. -/
theorem billing_is_built_at_its_branch :
    billing ∈ sources billingText ∧
      buildRefs (some (savedShop billingText).lock) [] true = .ok ⟨some shopHead.text, []⟩ ∧
      takenAt ⟨some shopHead.text, []⟩
        (codeRef ⟨some shopHead.text, []⟩ none "main") billing = "main" ∧
      ¬ Recorded (savedShop billingText).lock billing "main" := by
  rw [lock_billingText, sources_billingText]
  refine ⟨mem_cons_of_mem _ mem_cons_self, by decide +kernel, by decide +kernel, ?_⟩
  unfold Recorded
  decide +kernel

end Builds

end Product
end StudioWeb
