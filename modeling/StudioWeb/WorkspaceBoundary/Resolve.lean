import StudioWeb.WorkspaceBoundary.PathText

/-!
# The boundary of a workspace

`WorkspaceBoundary`: a request, a relative path or a file URI, is answered with a location
under the workspace root or refused.
-/

namespace StudioWeb
namespace WorkspaceBoundary

open FileTree List

section FileSystem

/-- A tree of files, and how many links are followed on one way. -/
structure FileSystem where
  tree : Tree
  links : Nat

variable (fs : FileSystem)

/-- Where the operating system ends on an absolute path. -/
def FileSystem.resolve (path : List Name) : Walked := fs.tree.walk fs.links [] path

def found : Walked → Except Refusal (List Name)
  | .found path => .ok path
  | .absent _ _ => .error (.os .missing)
  | .missing => .error (.os .missing)
  | .notDirectory => .error (.os .notDirectory)
  | .tooManyLinks => .error (.os .tooManyLinks)

def FileSystem.realpath (path : List Name) : Except Refusal (List Name) := found (fs.resolve path)

/-- `fs.lstat`: what stands at a path itself. -/
def FileSystem.lstat (path : List Name) : Except Refusal (Option Node) := do
  let place ← found (fs.tree.lwalk fs.links [] path)
  .ok (fs.tree.entry place)

def FileSystem.stat (path : List Name) : Except Refusal (Option Node) := do
  let place ← fs.realpath path
  .ok (fs.tree.entry place)

def isSymbolicLink : Option Node → Bool
  | some (.link _) => true
  | _ => false

def isDirectory : Option Node → Bool
  | some .dir => true
  | _ => false

def FileSystem.pathExists (path : List Name) : Except Refusal Bool :=
  match fs.realpath path with
  | .ok _ => .ok true
  | .error (.os .missing) => .ok false
  | .error refusal => .error refusal

end FileSystem

/-- The canonical roots. -/
structure Boundary where
  repository : List Name
  workspace : List Name
deriving DecidableEq

/-- What is used of Theia's URIs: the scheme and the path of a text, and the path that
`resolve` and `normalizePath` give for a text below a root. -/
structure Theia where
  scheme : List Char → List Char
  fsPath : List Char → List Name
  candidate : List Name → List Char → List Name

/-- A text that does not lead upwards is put below the root. -/
def Theia.Joins (theia : Theia) : Prop :=
  ∀ root text, AllNames root → (∀ n ∈ segments text, n ≠ ['.', '.']) →
    theia.candidate root text = root ++ pathParts text

structure Request where
  relativePath : Option (List Char)
  resourceUri : Option (List Char)
  requireExists : Bool

structure Location where
  absolutePath : List Name
  relativePath : List Char
  repositoryRelativePath : List Char
  present : Bool
  isDirectory : Bool
deriving DecidableEq

def escapesWorkspace : String := "Workspace path escapes the configured workspace root"

def escapesRepository : String := "Workspace path escapes the configured repository root"

/-- `initialize`. -/
def initializeRoots (fs : FileSystem) (repositoryRoot workspaceRoot : List Name) :
    Except Refusal Boundary := do
  let repository ← fs.realpath repositoryRoot
  let workspace ← fs.realpath workspaceRoot
  assertWithin repository workspace
    "Configured workspace root must be inside the configured repository root"
  .ok { repository := repository, workspace := workspace }

def Boundary.assertWithinRoot (b : Boundary) (candidate : List Name) : Except Refusal Unit := do
  assertWithin b.workspace candidate escapesWorkspace
  assertWithin b.repository candidate escapesRepository

/-- `path.join` and `path.resolve` of an absolute path with names. -/
def joined (current : List Name) (names : List Name) : List Name :=
  normalizeParts false (current ++ names)

/-- One segment in the `try` of `resolveCandidatePath`. -/
def step (fs : FileSystem) (b : Boundary) (current : List Name) (segment : Name) :
    Except Refusal (List Name) := do
  let nextPath := joined current [segment]
  let stat ← fs.lstat nextPath
  if isSymbolicLink stat then
    let resolved ← fs.realpath nextPath
    b.assertWithinRoot resolved
    .ok resolved
  else
    .ok nextPath

/-- The loop of `resolveCandidatePath`. -/
def walkSegments (fs : FileSystem) (b : Boundary) :
    List Name → List Name → Except Refusal (List Name)
  | current, [] => .ok current
  | current, segment :: rest =>
    match step fs b current segment with
    | .ok next => walkSegments fs b next rest
    -- a missing file of any kind: the rest of the path is put behind as it stands
    | .error (.os .missing) => do
      let path := joined current (segment :: rest)
      b.assertWithinRoot path
      .ok path
    | .error refusal => .error refusal

def resolveCandidatePath (fs : FileSystem) (theia : Theia) (b : Boundary)
    (relativePath : List Char) : Except Refusal (List Name) := do
  b.assertWithinRoot (theia.candidate b.workspace relativePath)
  walkSegments fs b b.workspace (segments relativePath)

/-- `replace(/\\/g, '/') || '.'`. -/
def orHere (text : List Char) : List Char :=
  if text = [] then ['.'] else text

def resolveResourceUri (fs : FileSystem) (theia : Theia) (b : Boundary)
    (resourceUri : List Char) : Except Refusal (List Char × List Name) := do
  if theia.scheme resourceUri ≠ "file".toList then
    refuse "Workspace resource URI must use the file scheme"
  else
    let candidatePath ← fs.realpath (theia.fsPath resourceUri)
    b.assertWithinRoot candidatePath
    let relativePath ← normalizeRelativePath (orHere (slashes (relative b.workspace candidatePath)))
    .ok (relativePath, candidatePath)

def Boundary.toRepositoryRelativePath (b : Boundary) (candidatePath : List Name) :
    Except Refusal (List Char) := do
  assertWithin b.repository candidatePath escapesRepository
  let text := slashes (relative b.repository candidatePath)
  if text = [] ∨ text = ['.'] then
    .ok ['.']
  else if ['.', '.', '/'].isPrefixOf text ∨ isAbsolute text then
    refuse "Workspace path cannot be converted to a repository-relative path"
  else
    .ok text

def resolveRequest (fs : FileSystem) (theia : Theia) (b : Boundary) (request : Request) :
    Except Refusal (List Char × List Name) :=
  match request.relativePath, request.resourceUri with
  | none, some resourceUri => resolveResourceUri fs theia b resourceUri
  | some text, none => do
    let relativePath ← normalizeRelativePath text
    let candidatePath ← resolveCandidatePath fs theia b relativePath
    .ok (relativePath, candidatePath)
  | _, _ => refuse "Exactly one workspace path or resource URI is required"

def resolveWorkspaceLocation (fs : FileSystem) (theia : Theia) (b : Boundary)
    (request : Request) : Except Refusal Location := do
  let (relativePath, candidatePath) ← resolveRequest fs theia b request
  let present ← fs.pathExists candidatePath
  if request.requireExists ∧ present = false then
    refuse ("Workspace path does not exist: " ++ String.ofList relativePath)
  else
    let stats ← (if present then fs.stat candidatePath else .ok none)
    let repositoryRelativePath ← b.toRepositoryRelativePath candidatePath
    .ok { absolutePath := candidatePath
          relativePath := relativePath
          repositoryRelativePath := repositoryRelativePath
          present := present
          isDirectory := isDirectory stats }

section Roots

variable {p : List Name} {fs : FileSystem} {b : Boundary}

theorem names_of_entry {t : Tree} (h : t.entry p ≠ none) : AllNames p := by
  induction p using List.reverseRecOn with
  | nil => exact nofun
  | append_singleton p n ih =>
    have hdir : t.entry p ≠ none := by
      rw [t.parent p n h]
      exact Option.some_ne_none _
    intro m hm
    rcases mem_append.mp hm with hm | hm
    · exact ih hdir m hm
    · rw [mem_singleton.mp hm]
      exact t.name p n h

theorem names_of_real {t : Tree} (h : t.Real p) : AllNames p := by
  obtain ⟨node, hnode, _⟩ := h
  refine names_of_entry (t := t) ?_
  rw [hnode]
  exact Option.some_ne_none node

theorem AllNames.append {p q : List Name} (hp : AllNames p) (hq : AllNames q) :
    AllNames (p ++ q) := by
  intro n hn
  rcases mem_append.mp hn with hn | hn
  · exact hp n hn
  · exact hq n hn

theorem realpath_eq_ok {p q : List Name} (h : fs.realpath p = .ok q) :
    fs.resolve p = .found q := by
  unfold FileSystem.realpath at h
  cases hwalk : fs.resolve p with
  | found =>
    rw [hwalk] at h
    cases h
    rfl
  | absent => rw [hwalk] at h; cases h
  | missing => rw [hwalk] at h; cases h
  | notDirectory => rw [hwalk] at h; cases h
  | tooManyLinks => rw [hwalk] at h; cases h

theorem real_of_realpath {p q : List Name} (h : fs.realpath p = .ok q) :
    fs.tree.Real q :=
  real_of_found real_nil (realpath_eq_ok h)

structure Rooted (fs : FileSystem) (b : Boundary) : Prop where
  repository : fs.tree.Real b.repository
  workspace : fs.tree.Real b.workspace
  inside : InsidePlain b.repository b.workspace

theorem initializeRoots_rooted {repositoryRoot workspaceRoot : List Name}
    (h : initializeRoots fs repositoryRoot workspaceRoot = .ok b) : Rooted fs b := by
  unfold initializeRoots at h
  cases hrepository : fs.realpath repositoryRoot with
  | error => rw [hrepository] at h; cases h
  | ok repository =>
    cases hworkspace : fs.realpath workspaceRoot with
    | error => rw [hrepository, hworkspace] at h; cases h
    | ok workspace =>
      rw [hrepository, hworkspace] at h
      have hreal := real_of_realpath hworkspace
      cases hwithin : assertWithin repository workspace
          "Configured workspace root must be inside the configured repository root" with
      | error refusal =>
        simp only [bind, Except.bind, hwithin] at h
        cases h
      | ok done =>
        simp only [bind, Except.bind, hwithin] at h
        cases h
        exact ⟨real_of_realpath hrepository, hreal,
          (assertWithin_iff (names_of_real hreal)).mp hwithin⟩

theorem InsidePlain.trans {p q r : List Name} (h : InsidePlain p q) (h' : InsidePlain q r) :
    InsidePlain p r := by
  obtain ⟨names, rfl, hplain⟩ := h
  obtain ⟨names', rfl, hplain'⟩ := h'
  refine ⟨names ++ names', append_assoc p names names', ?_⟩
  cases names with
  | nil => exact hplain'
  | cons => exact hplain

theorem InsidePlain.starts {p q : List Name} (h : InsidePlain p q) : p <+: q := by
  obtain ⟨names, rfl, _⟩ := h
  exact prefix_append p names

theorem assertWithin_refuses {parent candidate : List Name} {message : String} {refusal : Refusal}
    (h : assertWithin parent candidate message = .error refusal) : refusal = .error message := by
  unfold assertWithin at h
  simp only at h
  split at h
  · cases h
  · cases h
    rfl

theorem assertWithinRoot_refuses {refusal : Refusal} (h : b.assertWithinRoot p = .error refusal) :
    refusal = .error escapesWorkspace ∨ refusal = .error escapesRepository := by
  unfold Boundary.assertWithinRoot at h
  cases hworkspace : assertWithin b.workspace p escapesWorkspace with
  | error =>
    rw [hworkspace] at h
    cases h
    exact Or.inl (assertWithin_refuses hworkspace)
  | ok =>
    rw [hworkspace] at h
    exact Or.inr (assertWithin_refuses h)

/-- Which paths are within both roots. -/
theorem assertWithinRoot_iff (hrooted : Rooted fs b) (hp : AllNames p) :
    b.assertWithinRoot p = .ok () ↔ InsidePlain b.workspace p := by
  unfold Boundary.assertWithinRoot
  constructor
  · intro h
    cases hwithin : assertWithin b.workspace p escapesWorkspace with
    | error => rw [hwithin] at h; cases h
    | ok => exact (assertWithin_iff hp).mp hwithin
  · intro h
    rw [(assertWithin_iff hp).mpr h]
    exact (assertWithin_iff hp).mpr (hrooted.inside.trans h)

end Roots

section Segments

variable {fs : FileSystem} {b : Boundary}

theorem joined_names {current names : List Name} (hcurrent : AllNames current)
    (hnames : AllNames names) : joined current names = current ++ names :=
  normalizeParts_names (hcurrent.append hnames)

/-- What one segment of a path can do. -/
theorem step_cases {current : List Name} {n : Name} (hcurrent : fs.tree.Real current)
    (hn : IsName n) :
    (fs.tree.entry current ≠ some .dir ∧ step fs b current n = .error (.os .notDirectory)) ∨
      (fs.tree.entry current = some .dir ∧ fs.tree.entry (current ++ [n]) = none ∧
        step fs b current n = .error (.os .missing)) ∨
      (fs.tree.Real (current ++ [n]) ∧ step fs b current n = .ok (current ++ [n])) ∨
      ∃ target, fs.tree.entry (current ++ [n]) = some (.link target) ∧ step fs b current n = (do
          let resolved ← fs.realpath (current ++ [n])
          b.assertWithinRoot resolved
          .ok resolved) := by
  have hnames : AllNames [n] := fun m hm => mem_singleton.mp hm ▸ hn
  unfold step FileSystem.lstat
  simp only [joined_names (names_of_real hcurrent) hnames, lwalk_name hcurrent hn]
  by_cases hdir : fs.tree.entry current = some .dir
  · rw [if_neg (not_not_intro hdir)]
    cases hentry : fs.tree.entry (current ++ [n]) with
    | none => exact Or.inr (Or.inl ⟨hdir, rfl, rfl⟩)
    | some node =>
      rw [if_neg (Option.some_ne_none node)]
      simp only [found, bind, Except.bind, hentry]
      cases node with
      | link target => exact Or.inr (Or.inr (Or.inr ⟨target, rfl, rfl⟩))
      | file => exact Or.inr (Or.inr (Or.inl ⟨⟨.file, hentry, nofun⟩, rfl⟩))
      | dir => exact Or.inr (Or.inr (Or.inl ⟨⟨.dir, hentry, nofun⟩, rfl⟩))
  · rw [if_pos hdir]
    exact Or.inl ⟨hdir, rfl⟩

end Segments

end WorkspaceBoundary
end StudioWeb
