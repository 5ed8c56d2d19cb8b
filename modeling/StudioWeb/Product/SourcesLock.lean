import StudioWeb.Environments.Environment
import StudioWeb.Library.RustPrelude
import StudioWeb.Library.SubstringSearch

/-!
# What a description says of its sources, and the lock of a revision

`project_sources.rs`: the repositories of a project, and when two clone URLs name one.
`product/sources_lock.rs`: the line scan that finds every `source(...)` of a description, the
plan of which project source each one is, and the refs that a build takes; and `lock_sources`
of `product/description_service.rs`, which pins a plan to the heads it could read.
-/

namespace StudioWeb
namespace Product

open Scheduler (Uuid)
open SubstringSearch

structure ProjectSource where
  connectionId : Option Uuid
  fullPath : String
  cloneUrl : String
  branch : Option String
  publishHere : Bool
deriving DecidableEq

/-- `str::trim_end_matches` of a character. -/
def trimEndOf (c : Char) (text : List Char) : List Char :=
  (text.reverse.dropWhile fun x => x = c).reverse

/-- `str::strip_suffix`, or the text as it is. -/
def withoutSuffix (ending text : List Char) : List Char :=
  if ending.isSuffixOf text then text.take (text.length - ending.length) else text

/-- What follows the last `@`, or the text as it is. -/
def afterLastAt (text : List Char) : List Char := (text.reverse.takeWhile fun c => c ≠ '@').reverse

def repositoryKey (url : String) : Option (List Char) :=
  match splitFirst "://".toList (Rust.trim url.toList) with
  | none => none
  | some (_, rest) =>
    let (authority, path) := (Rust.splitOnce '/' rest).getD (rest, [])
    let host := afterLastAt authority
    let path := trimEndOf '/' (withoutSuffix ".git".toList (trimEndOf '/' path))
    if host = [] ∨ path = [] then
      none
    else
      some ((host ++ '/' :: path).map Char.toLower)

def sameRepository (a b : String) : Bool :=
  match repositoryKey a, repositoryKey b with
  | some a, some b => a = b
  | _, _ => false

def descriptionHome (sources : List ProjectSource) : Option ProjectSource :=
  (sources.find? fun s => s.publishHere).or
    ((sources.find? fun s => s.connectionId.isSome).or sources.head?)

def sourceForUrl (sources : List ProjectSource) (url : String) : Option ProjectSource :=
  sources.find? fun s => sameRepository s.cloneUrl url

inductive At where
  | git (url rev : String)
  | path (p : String)
deriving DecidableEq

structure GdlSource where
  id : String
  «at» : At
deriving DecidableEq

/-- A line without the `\r` of its line break. -/
def withoutReturn (line : List Char) : List Char :=
  if line.getLast? = some '\r' then line.dropLast else line

/-- `str::lines`. -/
def linesOf (text : List Char) : List (List Char) :=
  let pieces := text.splitOn '\n'
  pieces.dropLast.map withoutReturn ++ pieces.getLast?.toList.filter fun line => line ≠ []

/-- A text without what follows a `#` on each line. -/
def withoutComments (text : List Char) : List Char :=
  ['\n'].intercalate ((linesOf text).map fun line => line.takeWhile fun c => c ≠ '#')

def quotedAfter (text : List Char) (marker : String) : Option String :=
  match splitFirst marker.toList text with
  | none => none
  | some (_, rest) =>
    match Rust.trimStart rest with
    | '"' :: rest =>
      if '"' ∈ rest then
        some (String.ofList (rest.takeWhile fun c => c ≠ '"'))
      else
        none
    | _ => none

/-- The text of a call up to the parenthesis that closes it, at some depth. -/
def takeCall : Nat → List Char → List Char
  | _, [] => []
  | depth, c :: text =>
    if c = '(' then
      c :: takeCall (depth + 1) text
    else if c = ')' then
      if depth ≤ 1 then [] else c :: takeCall (depth - 1) text
    else
      c :: takeCall depth text

/-- Where a call says its source is. -/
def atOfCall (call : List Char) : Option At :=
  match quotedAfter call "path(" with
  | some p => some (.path p)
  | none =>
    if holds "git(".toList call then
      match quotedAfter call "url =", quotedAfter call "rev =" with
      | some url, some rev => some (.git url rev)
      | _, _ => none
    else
      none

/-- What a `source(...)` says, when it can be read. -/
def sourceOfCall (call : List Char) : Option GdlSource :=
  match quotedAfter call "id =" with
  | none => none
  | some id => (atOfCall call).map (GdlSource.mk id)

/-- The character before `source(` is part of a longer name. -/
def endsName (before : Option Char) : Bool := before.any fun c => c.isAlphanum || c = '_'

def sources (gdl : String) : List GdlSource :=
  (occurrences "source(".toList (withoutComments gdl.toList)).filterMap fun p =>
    if endsName p.1 then none else sourceOfCall (takeCall 1 p.2)

/-- The parts of `resolve_path`, walked. -/
def resolveFrom : List String → List String → Option (List String)
  | parts, [] => some parts
  | parts, seg :: rest =>
    if seg = "" ∨ seg = "." then
      resolveFrom parts rest
    else if seg = ".." then
      if parts = [] then none else resolveFrom parts.dropLast rest
    else
      resolveFrom (parts ++ [seg]) rest

/-- `text.split('/')`. -/
def segments (text : String) : List String := (text.toList.splitOn '/').map String.ofList

def resolvePath (productPath «at» : String) : Option String :=
  let parts := ((segments productPath).filter fun s => s ≠ "").dropLast
  (resolveFrom parts (segments «at»)).map fun parts => "/".intercalate parts

def isCommit (rev : String) : Bool :=
  (rev.utf8ByteSize = 40 || rev.utf8ByteSize = 64) &&
    rev.toList.all fun c => c.isDigit || ('a' ≤ c && c ≤ 'f') || ('A' ≤ c && c ≤ 'F')

/-- A commit that a repository answers as its head. -/
structure Commit where
  text : String
  valid : isCommit text = true

structure LockedSource where
  id : String
  kind : String
  repository : Option String
  url : String
  branch : Option String
  commit : Option String
deriving DecidableEq

structure SourcesLock where
  sources : List LockedSource
deriving DecidableEq

def SourcesLock.complete (lock : SourcesLock) : Bool :=
  !lock.sources.isEmpty && lock.sources.all fun s => s.commit.isSome

def LockedSource.ofProject (id kind : String) (p : ProjectSource) : LockedSource where
  id := id
  kind := kind
  repository := some p.fullPath
  url := p.cloneUrl
  branch := p.branch
  commit := none

/-- One source of `plan`. -/
def planOne (productPath : String) (project : List ProjectSource) (home : Option ProjectSource)
    (s : GdlSource) : Option (LockedSource × Option ProjectSource) :=
  match s.at with
  | .path p =>
    match resolvePath productPath p, home with
    | some _, some home => some (LockedSource.ofProject s.id "path" home, some home)
    | _, _ => none
  | .git url rev =>
    match sourceForUrl project url with
    | some p => some (LockedSource.ofProject s.id "git" p, some p)
    | none =>
      some
        ({ id := s.id
           kind := "git"
           repository := none
           url := url
           branch := if isCommit rev then none else some rev
           commit := if isCommit rev then some rev else none },
          none)

def plan (sources : List GdlSource) (productPath : String) (project : List ProjectSource)
    (home : Option ProjectSource) : List (LockedSource × Option ProjectSource) :=
  sources.filterMap (planOne productPath project home)

/-- What a head is kept under, so that it is read once. -/
def headKey (source : ProjectSource) : String := source.cloneUrl ++ "@" ++ source.branch.getD ""

/-- A planned source at the head that was read of it. -/
def lockOne (heads : String → Option Commit) (planned : LockedSource × Option ProjectSource) :
    LockedSource :=
  match planned.2 with
  | none => planned.1
  | some source => { planned.1 with commit := (heads (headKey source)).map Commit.text }

def lockSources (declared : List GdlSource) (productPath : String) (project : List ProjectSource)
    (heads : String → Option Commit) : SourcesLock where
  sources := (plan declared productPath project (descriptionHome project)).map (lockOne heads)

structure SourceRefs where
  home : Option String
  git : List (String × String)
deriving DecidableEq

def SourceRefs.take (refs : SourceRefs) (s : LockedSource) (ref : String) : SourceRefs :=
  if s.kind = "path" then
    { refs with home := some ref }
  else
    { refs with git := refs.git ++ [(s.id, ref)] }

/-- One source of a protected build. -/
def pinOne (refs : SourceRefs) (s : LockedSource) : Except String SourceRefs :=
  match s.commit with
  | some commit => .ok (refs.take s commit)
  | none =>
    let repository := s.repository.getD s.url
    .error (s!"the revision pins no commit of source `{s.id}` ({repository}): " ++
      "save the description again")

/-- One source of a dev build. -/
def followOne (refs : SourceRefs) (s : LockedSource) : SourceRefs :=
  match s.branch with
  | some branch => refs.take s branch
  | none => refs

def buildRefs (lock : Option SourcesLock) (planned : List LockedSource) (isProtected : Bool) :
    Except String SourceRefs :=
  if isProtected then
    match lock with
    | none =>
      .error ("a protected environment builds only what a revision pins, and this revision " ++
        "pins nothing: save the description again so Studio records each source's commit")
    | some lock =>
      (lock.sources.filter fun s => s.repository.isSome).foldlM pinOne ⟨none, []⟩
  else
    .ok ((planned.filter fun s => s.repository.isSome).foldl followOne ⟨none, []⟩)

section Locks

variable {declared : List GdlSource} {productPath : String} {project : List ProjectSource}
variable {heads : String → Option Commit} {s : LockedSource}

/-- What a lock holds, by what is declared. -/
theorem mem_lockSources_iff :
    s ∈ (lockSources declared productPath project heads).sources ↔
      ∃ g ∈ declared, (planOne productPath project (descriptionHome project) g).map
        (lockOne heads) = some s := by
  unfold lockSources plan
  rw [List.map_filterMap, List.mem_filterMap]

variable {g : GdlSource}

theorem lock_of_path {p : String} (hat : g.at = .path p)
    (h : (planOne productPath project (descriptionHome project) g).map (lockOne heads) = some s) :
    ∃ home, descriptionHome project = some home ∧ (resolvePath productPath p).isSome = true ∧
      s = { LockedSource.ofProject g.id "path" home with
        commit := (heads (headKey home)).map Commit.text } := by
  unfold planOne at h
  rw [hat] at h
  dsimp only at h
  split at h
  · next _ home hresolve hhome =>
    refine ⟨home, hhome, ?_, (Option.some.inj h).symm⟩
    rw [hresolve]
    rfl
  · cases h

theorem lock_of_git_of_project {url rev : String} {p : ProjectSource}
    (hat : g.at = .git url rev) (hown : sourceForUrl project url = some p) :
    (planOne productPath project (descriptionHome project) g).map (lockOne heads) =
      some { LockedSource.ofProject g.id "git" p with
        commit := (heads (headKey p)).map Commit.text } := by
  unfold planOne
  rw [hat]
  dsimp only
  rw [hown]
  rfl

theorem lock_of_git_of_other {url rev : String} (hat : g.at = .git url rev)
    (hown : sourceForUrl project url = none) :
    (planOne productPath project (descriptionHome project) g).map (lockOne heads) = some
        { id := g.id
          kind := "git"
          repository := none
          url := url
          branch := if isCommit rev then none else some rev
          commit := if isCommit rev then some rev else none } := by
  unfold planOne
  rw [hat]
  dsimp only
  rw [hown]
  rfl

end Locks

/-- What a list of sources adds to the refs for `git(...)`. -/
def gitRefs (list : List LockedSource) : List (String × String) :=
  list.filterMap fun s => if s.kind = "path" then none else s.commit.map fun c => (s.id, c)

def lastPath (list : List LockedSource) : Option String :=
  (list.filterMap fun s => if s.kind = "path" then s.commit else none).getLast?

theorem pinOne_spec {refs out : SourceRefs} {s : LockedSource} (h : pinOne refs s = .ok out) :
    ∃ c, s.commit = some c ∧ out = refs.take s c := by
  unfold pinOne at h
  split at h
  · next c hcommit =>
    cases h
    exact ⟨c, hcommit, rfl⟩
  · cases h

theorem foldlM_pinOne :
    ∀ {list : List LockedSource} {refs out : SourceRefs}, list.foldlM pinOne refs = .ok out →
      (∀ s ∈ list, s.commit.isSome = true) ∧ out.git = refs.git ++ gitRefs list ∧
        out.home = (lastPath list).or refs.home
  | [], refs, out, h => by
    cases h
    exact ⟨fun s hs => absurd hs List.not_mem_nil, (List.append_nil _).symm, rfl⟩
  | s :: list, refs, out, h => by
    rw [List.foldlM_cons] at h
    obtain ⟨next, hone, hrest⟩ := Rust.bind_eq_ok_iff.mp h
    obtain ⟨c, hcommit, rfl⟩ := pinOne_spec hone
    obtain ⟨hall, hgit, hhome⟩ := foldlM_pinOne hrest
    have hsome : ∀ s' ∈ s :: list, s'.commit.isSome = true := by
      intro s' hs'
      rcases List.mem_cons.mp hs' with rfl | hs'
      · rw [hcommit]
        rfl
      · exact hall s' hs'
    refine ⟨hsome, ?_, ?_⟩
    · rw [hgit]
      unfold SourceRefs.take gitRefs
      by_cases hkind : s.kind = "path"
      · simp [hkind]
      · simp [hkind, hcommit]
    · rw [hhome]
      unfold SourceRefs.take lastPath
      by_cases hkind : s.kind = "path"
      · simp only [hkind, if_true, List.filterMap_cons, hcommit]
        cases hlast : (list.filterMap fun s =>
            if s.kind = "path" then s.commit else none).getLast? with
        | none =>
          rw [List.getLast?_eq_none_iff.mp hlast]
          rfl
        | some last =>
          rw [List.getLast?_cons, hlast]
          rfl
      · simp [hkind]

/-- The refs of a protected build, when it gets any. -/
theorem buildRefs_protected {lock : SourcesLock} {planned : List LockedSource} {refs : SourceRefs}
    (h : buildRefs (some lock) planned true = .ok refs) :
    (∀ s ∈ lock.sources, s.repository.isSome = true → s.commit.isSome = true) ∧
      refs.git = gitRefs (lock.sources.filter fun s => s.repository.isSome) ∧
      refs.home = lastPath (lock.sources.filter fun s => s.repository.isSome) := by
  obtain ⟨hall, hgit, hhome⟩ := foldlM_pinOne h
  refine ⟨fun s hs hown => hall s (List.mem_filter.mpr ⟨hs, hown⟩), hgit, ?_⟩
  rw [hhome, Option.or_none]

end Product
end StudioWeb
