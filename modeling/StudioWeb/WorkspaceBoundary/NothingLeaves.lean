import StudioWeb.WorkspaceBoundary.Resolve
import StudioWeb.Library.RustPrelude

/-!
# Nothing leaves the workspace

The walk of `resolveCandidatePath` keeps that the path so far is there, is no link, is inside
the workspace root, and is where the operating system gets to.  From the first name that is
missing nothing is there that could be followed.
-/

namespace StudioWeb
namespace WorkspaceBoundary

open FileTree WorkspaceJobs List

/-- On the way along a path from the root there is a link to something missing. -/
def MeetsDanglingLink (fs : FileSystem) (root path : List Name) : Prop :=
  ∃ before n behind here target, path = before ++ n :: behind ∧
    fs.tree.Leads root before (.found here) ∧
    fs.tree.entry (here ++ [n]) = some (.link target) ∧
    fs.realpath (here ++ [n]) = .error (.os .missing)

/-- A request that asks for a path with a link to something missing. -/
def Dangles (fs : FileSystem) (b : Boundary) (request : Request) : Prop :=
  ∃ text, request.relativePath = some text ∧ MeetsDanglingLink fs b.workspace (asked text)

def PlainBelow (root path : List Name) : Prop :=
  ∀ names, path = root ++ names → ∀ n ∈ names, '\x5c' ∉ n

/-- The text of the names below a root is without blanks at its ends. -/
def TightBelow (root path : List Name) : Prop :=
  ∀ names, path = root ++ names → jsTrim (joinNames names) = joinNames names

/-- A request that asks for nothing above the root, for no name that begins with two dots,
and whose way is inside the root. -/
def StaysInside (fs : FileSystem) (theia : Theia) (b : Boundary) (request : Request) : Prop :=
  (∀ text, request.relativePath = some text →
    ¬ Climbs text ∧ (∀ n ∈ asked text, ¬ ['.', '.'] <+: n) ∧
      ∀ before here, before <+: asked text → fs.tree.Leads b.workspace before (.found here) →
        InsidePlain b.workspace here) ∧
    ∀ resourceUri path, request.resourceUri = some resourceUri →
      fs.realpath (theia.fsPath resourceUri) = .ok path →
        InsidePlain b.workspace path ∧ PlainBelow b.workspace path ∧ TightBelow b.workspace path

/-- The messages that say that a path leaves the workspace. -/
def escapes : List String := [traversal, escapesWorkspace, escapesRepository]

section Walk

theorem leads_nil {t : Tree} {current : List Name} : t.Leads current [] (.found current) :=
  ⟨nofun, 0, rfl⟩

variable {fs : FileSystem} {b : Boundary}

/-- Where the walk along the segments of a path can end. -/
inductive Ends (fs : FileSystem) (b : Boundary) (current path : List Name) :
    List Name → Prop where
  | there (place : List Name) :
      fs.tree.Real place →
      b.workspace <+: place →
      fs.tree.Leads current path (.found place) →
      Ends fs b current path place
  | missing (before : List Name) (n : Name) (behind here : List Name) :
      path = before ++ n :: behind →
      fs.tree.Real here →
      fs.tree.Leads current before (.found here) →
      fs.tree.entry here = some .dir →
      fs.tree.entry (here ++ [n]) = none →
      b.workspace <+: here →
      Ends fs b current path (here ++ n :: behind)
  | dangling (place : List Name) :
      MeetsDanglingLink fs current path →
      Ends fs b current path place

theorem Ends.after {current next place : List Name} {n : Name} {path : List Name}
    (hstep : fs.tree.Leads current [n] (.found next)) (h : Ends fs b next path place) :
    Ends fs b current (n :: path) place := by
  cases h with
  | there _ hreal hinside hleads =>
    exact .there place hreal hinside (Leads.trans hstep hleads)
  | missing before m behind here hpath hreal hleads hdir hnone hinside =>
    subst hpath
    exact .missing (n :: before) m behind here rfl hreal (Leads.trans hstep hleads) hdir hnone
      hinside
  | dangling _ hmeets =>
    obtain ⟨before, m, behind, here, target, hpath, hleads, hlink, hmissing⟩ := hmeets
    subst hpath
    exact .dangling place ⟨n :: before, m, behind, here, target, rfl,
      Leads.trans hstep hleads, hlink, hmissing⟩

theorem walk_past {t : Tree} {p : List Name} {links : Nat} {rest : List Name} (h : t.Real p) :
    t.walk links [] (p ++ rest) = t.walk links p rest := by
  cases links with
  | zero => exact @go_real t true (fun _ _ => .tooManyLinks) rest p [] h
  | succ links => exact @go_real t true (t.walk links) rest p [] h

theorem walk_missing {t : Tree} {here : List Name} {n : Name} {behind : List Name} (hn : IsName n)
    (hdir : t.entry here = some .dir) (hnone : t.entry (here ++ [n]) = none) (links : Nat) :
    t.walk links here (n :: behind) = if behind = [] then .absent here n else .missing := by
  have hgo : ∀ again, t.go true again here (n :: behind) =
      if behind = [] then .absent here n else .missing := by
    intro again
    unfold Tree.go
    rw [if_neg (not_not_intro hdir), if_neg hn.part.1, if_neg hn.part.2, hnone]
  cases links with
  | zero => exact hgo _
  | succ => exact hgo _

theorem leads_resolved {current next : List Name} {n : Name} (hcurrent : fs.tree.Real current)
    (h : fs.realpath (current ++ [n]) = .ok next) : fs.tree.Leads current [n] (.found next) := by
  have hresolve := realpath_eq_ok h
  refine ⟨nofun, fs.links, ?_⟩
  rw [← hresolve]
  unfold FileSystem.resolve
  rw [walk_past hcurrent]

/-- Where the walk along the segments of a path ends. -/
theorem walkSegments_ends (hrooted : Rooted fs b) {place : List Name} :
    ∀ {path current : List Name}, AllNames path → fs.tree.Real current →
      b.workspace <+: current → walkSegments fs b current path = .ok place →
      Ends fs b current path place
  | [], current, _, hreal, hinside, h => by
    cases h
    exact .there place hreal hinside leads_nil
  | n :: path, current, hnames, hreal, hinside, h => by
    have hn := hnames n mem_cons_self
    have hrest : AllNames path := fun m hm => hnames m (mem_cons_of_mem n hm)
    unfold walkSegments at h
    rcases step_cases (b := b) hreal hn with
      ⟨hdir, hstep⟩ | ⟨hdir, hnone, hstep⟩ | ⟨hnext, hstep⟩ | ⟨target, hlink, hstep⟩
    · rw [hstep] at h
      cases h
    · rw [hstep] at h
      simp only [joined_names (names_of_real hreal) hnames] at h
      cases hwithin : b.assertWithinRoot (current ++ n :: path) with
      | error =>
        rw [hwithin] at h
        cases h
      | ok =>
        rw [hwithin] at h
        cases h
        exact .missing [] n path current rfl hreal leads_nil hdir hnone hinside
    · rw [hstep] at h
      have hstill : b.workspace <+: current ++ [n] := hinside.trans (prefix_append current [n])
      exact Ends.after (leads_real hnext) (walkSegments_ends hrooted hrest hnext hstill h)
    · rw [hstep] at h
      cases hresolved : fs.realpath (current ++ [n]) with
      | error =>
        rw [hresolved] at h
        simp only [bind, Except.bind] at h
        split at h
        · next heq => cases heq
        · next heq =>
          cases heq
          exact .dangling place ⟨[], n, path, current, target, rfl, leads_nil, hlink, hresolved⟩
        · cases h
      | ok next =>
        have hnext := real_of_realpath hresolved
        rw [hresolved] at h
        cases hwithin : b.assertWithinRoot next with
        | error =>
          simp only [bind, Except.bind, hwithin] at h
          rcases assertWithinRoot_refuses hwithin with rfl | rfl
          · cases h
          · cases h
        | ok =>
          simp only [bind, Except.bind, hwithin] at h
          have hplain := (assertWithinRoot_iff hrooted (names_of_real hnext)).mp hwithin
          exact Ends.after (leads_resolved hreal hresolved)
            (walkSegments_ends hrooted hrest hnext hplain.starts h)

/-- An end of the walk that is not behind a dangling link: where it leads, and that no link
is left on the way to it. -/
theorem place_of_ends {path place : List Name} (hnames : AllNames path)
    (h : Ends fs b b.workspace path place) (hdangling : ¬ MeetsDanglingLink fs b.workspace path) :
    AllNames place ∧ b.workspace <+: place ∧ ∃ w, fs.resolve place = w ∧ w ≠ .tooManyLinks ∧
        (∀ spot, w.place = some spot → b.workspace <+: spot) ∧
        fs.tree.Leads b.workspace path w := by
  cases h with
  | there _ hreal hinside hleads =>
    refine ⟨names_of_real hreal, hinside, .found place, walk_real hreal fs.links, nofun, ?_, hleads⟩
    intro spot hspot
    cases hspot
    exact hinside
  | missing before n behind here hpath hreal hleads hdir hnone hinside =>
    subst hpath
    have hrest : AllNames (n :: behind) :=
      fun m hm => hnames m (mem_append_right before hm)
    have hwalk := @walk_missing fs.tree here n behind (hrest n mem_cons_self) hdir hnone
    have hw : (if behind = [] then Walked.absent here n else .missing) ≠ .tooManyLinks := by
      split
      · nofun
      · nofun
    refine ⟨AllNames.append (names_of_real hreal) hrest,
      hinside.trans (prefix_append here (n :: behind)), _, rfl, ?_, ?_, ?_⟩
    · unfold FileSystem.resolve
      rw [walk_past hreal, hwalk]
      exact hw
    · unfold FileSystem.resolve
      rw [walk_past hreal, hwalk]
      intro spot hspot
      split at hspot
      · cases hspot
        exact hinside.trans (prefix_append here [n])
      · cases hspot
    · unfold FileSystem.resolve
      rw [walk_past hreal, hwalk]
      exact Leads.trans hleads ⟨hw, 0, hwalk 0⟩
  | dangling _ hmeets => exact absurd hmeets hdangling

end Walk

section Answers

variable {fs : FileSystem} {theia : Theia} {b : Boundary}

theorem walkSegments_here (h : fs.tree.Real b.workspace) :
    walkSegments fs b b.workspace [['.']] = .ok b.workspace := by
  have hjoined : joined b.workspace [['.']] = b.workspace := by
    have hnames := @normalizeParts_names false b.workspace (names_of_real h)
    unfold joined normalizeParts at *
    rw [foldl_append, hnames]
    rfl
  have hlstat : fs.tree.lwalk fs.links [] b.workspace = .found b.workspace := by
    have hgo : ∀ again, fs.tree.go false again [] b.workspace = .found b.workspace := by
      intro again
      have hwalk := @go_real fs.tree false again [] b.workspace [] h
      rw [append_nil] at hwalk
      exact hwalk
    cases fs.links with
    | zero => exact hgo _
    | succ => exact hgo _
  have hlink : isSymbolicLink (fs.tree.entry b.workspace) = false := by
    obtain ⟨node, hnode, hreal⟩ := h
    rw [hnode]
    cases node with
    | link target => exact absurd rfl (hreal target)
    | file => rfl
    | dir => rfl
  unfold walkSegments step FileSystem.lstat
  simp only [hjoined, hlstat, found, bind, Except.bind, hlink, Bool.false_eq_true, if_false]
  rfl

theorem resolved_relative {text rel : List Char} {place : List Name} (hrooted : Rooted fs b)
    (hrel : normalizeRelativePath text = .ok rel)
    (h : resolveCandidatePath fs theia b rel = .ok place) :
    AllNames (asked text) ∧ ReadsAs rel (asked text) ∧
      Ends fs b b.workspace (asked text) place := by
  obtain ⟨hnames, hreads⟩ : AllNames (asked text) ∧ ReadsAs rel (asked text) := by
    rcases climbs_or_names text with hclimbs | hnames
    · obtain ⟨refusal, hrefused⟩ := normalizeRelativePath_climbs hclimbs
      rw [hrel] at hrefused
      cases hrefused
    · rcases normalizeRelativePath_reads hnames with hno | hno | ⟨rel', hrel', hreads⟩
      · rw [hrel] at hno
        cases hno
      · rw [hrel] at hno
        cases hno
      · rw [hrel] at hrel'
        cases hrel'
        exact ⟨hnames, hreads⟩
  refine ⟨hnames, hreads, ?_⟩
  unfold resolveCandidatePath at h
  obtain ⟨_, _, hwalk⟩ := Rust.bind_eq_ok_iff.mp h
  rcases hreads.segments with hsegments | ⟨rfl, hroot⟩
  · rw [hsegments] at hwalk
    exact walkSegments_ends hrooted hnames hrooted.workspace (prefix_refl _) hwalk
  · have hhere : segments ['.'] = [['.']] := by decide
    rw [hhere, walkSegments_here hrooted.workspace] at hwalk
    cases hwalk
    rw [hroot]
    exact .there b.workspace hrooted.workspace (prefix_refl _) leads_nil

theorem resolved_resource {resourceUri rel : List Char} {place : List Name} (hrooted : Rooted fs b)
    (h : resolveResourceUri fs theia b resourceUri = .ok (rel, place)) :
    fs.tree.Real place ∧ InsidePlain b.workspace place ∧
      normalizeRelativePath (orHere (slashes (relative b.workspace place))) = .ok rel := by
  unfold resolveResourceUri at h
  split at h
  · cases h
  · obtain ⟨path, hpath, h⟩ := Rust.bind_eq_ok_iff.mp h
    obtain ⟨_, hwithin, h⟩ := Rust.bind_eq_ok_iff.mp h
    obtain ⟨rel', hrel, h⟩ := Rust.bind_eq_ok_iff.mp h
    cases h
    have hreal := real_of_realpath hpath
    exact ⟨hreal, (assertWithinRoot_iff hrooted (names_of_real hreal)).mp hwithin, hrel⟩

theorem pathParts_below {rel : List Char} {names : List Name} (hnames : AllNames names)
    (hslashes : ∀ n ∈ names, '\x5c' ∉ n) (htrim : jsTrim (joinNames names) = joinNames names)
    (h : normalizeRelativePath (orHere (slashes (joinNames names))) = .ok rel) :
    pathParts rel = names := by
  rw [slashes_joinNames hslashes] at h
  unfold orHere at h
  split at h
  · next hnil =>
    rw [normalizeRelativePath_here] at h
    cases h
    rw [(joinNames_eq_nil_iff hnames).mp hnil]
    decide
  · next hne =>
    have hparts : names ≠ [] := fun hnil => hne ((joinNames_eq_nil_iff hnames).mpr hnil)
    rw [normalizeRelativePath_names hnames hparts hslashes htrim] at h
    cases h
    exact pathParts_joinNames hnames

theorem pathParts_repository {place : List Name} {text : List Char} (hplace : AllNames place)
    (hplain : PlainBelow b.repository place) (h : b.toRepositoryRelativePath place = .ok text) :
    ∃ names, place = b.repository ++ names ∧ pathParts text = names := by
  unfold Boundary.toRepositoryRelativePath at h
  obtain ⟨_, hwithin, h⟩ := Rust.bind_eq_ok_iff.mp h
  obtain ⟨names, rfl, _⟩ := (assertWithin_iff hplace).mp hwithin
  have hnames : AllNames names := fun n hn => hplace n (mem_append_right _ hn)
  refine ⟨names, rfl, ?_⟩
  rw [relative_append, slashes_joinNames (hplain names rfl)] at h
  simp only at h
  have htext : pathParts (joinNames names) = names := pathParts_joinNames hnames
  split at h
  · next hhere =>
    cases h
    rcases hhere with hnil | hdot
    · rw [(joinNames_eq_nil_iff hnames).mp hnil]
      decide
    · rw [hdot] at htext
      exact htext
  · split at h
    · cases h
    · cases h
      exact htext

theorem answer_of_ok {request : Request} {answer : Location}
    (h : resolveWorkspaceLocation fs theia b request = .ok answer) :
    resolveRequest fs theia b request = .ok (answer.relativePath, answer.absolutePath) ∧
      b.toRepositoryRelativePath answer.absolutePath = .ok answer.repositoryRelativePath := by
  unfold resolveWorkspaceLocation at h
  obtain ⟨⟨rel, place⟩, hrequest, h⟩ := Rust.bind_eq_ok_iff.mp h
  obtain ⟨present, _, h⟩ := Rust.bind_eq_ok_iff.mp h
  split at h
  · cases h
  · obtain ⟨stats, _, h⟩ := Rust.bind_eq_ok_iff.mp h
    obtain ⟨text, htext, h⟩ := Rust.bind_eq_ok_iff.mp h
    cases h
    exact ⟨hrequest, htext⟩

theorem answer_inside {request : Request} {answer : Location} (hrooted : Rooted fs b)
    (h : resolveWorkspaceLocation fs theia b request = .ok answer)
    (hdangles : ¬ Dangles fs b request) :
    ∃ w, fs.resolve answer.absolutePath = w ∧ w ≠ .tooManyLinks ∧
      (∀ spot, w.place = some spot → b.workspace <+: spot) ∧
      (request.resourceUri = none ∨ PlainBelow b.workspace answer.absolutePath ∧
            TightBelow b.workspace answer.absolutePath →
        fs.tree.Leads b.workspace (pathParts answer.relativePath) w) ∧
      (PlainBelow b.repository answer.absolutePath →
        fs.tree.Leads b.repository (pathParts answer.repositoryRelativePath) w) := by
  obtain ⟨hrequest, hrepository⟩ := answer_of_ok h
  have hlast : ∀ w, AllNames answer.absolutePath → fs.resolve answer.absolutePath = w →
      w ≠ .tooManyLinks → PlainBelow b.repository answer.absolutePath →
      fs.tree.Leads b.repository (pathParts answer.repositoryRelativePath) w := by
    intro w hnames hresolve hw hplain
    obtain ⟨names, hplace, hparts⟩ := pathParts_repository hnames hplain hrepository
    rw [hparts]
    refine ⟨hw, fs.links, ?_⟩
    rw [← hresolve, hplace]
    exact (walk_past hrooted.repository).symm
  unfold resolveRequest at hrequest
  cases hrel : request.relativePath with
  | none =>
    cases huri : request.resourceUri with
    | none =>
      rw [hrel, huri] at hrequest
      cases hrequest
    | some =>
      rw [hrel, huri] at hrequest
      obtain ⟨hreal, hinside, htext⟩ := resolved_resource hrooted hrequest
      have hwalk : fs.resolve answer.absolutePath = .found answer.absolutePath :=
        walk_real hreal fs.links
      refine ⟨_, hwalk, nofun, ?_, ?_, hlast _ (names_of_real hreal) hwalk nofun⟩
      · intro spot hspot
        cases hspot
        exact hinside.starts
      · rintro (hnone | ⟨hplain, htight⟩)
        · cases hnone
        · obtain ⟨names, hplace, _⟩ := hinside
          have hnames : AllNames names := fun n hn =>
            names_of_real hreal n (hplace ▸ mem_append_right b.workspace hn)
          rw [hplace, relative_append] at htext
          rw [pathParts_below hnames (hplain names hplace) (htight names hplace) htext]
          rw [hplace] at hreal ⊢
          exact leads_real hreal
  | some text =>
    cases huri : request.resourceUri with
    | some =>
      rw [hrel, huri] at hrequest
      cases hrequest
    | none =>
      rw [hrel, huri] at hrequest
      obtain ⟨rel, hnormal, hrequest⟩ := Rust.bind_eq_ok_iff.mp hrequest
      obtain ⟨place, hresolved, hrequest⟩ := Rust.bind_eq_ok_iff.mp hrequest
      obtain ⟨rfl, rfl⟩ := Prod.mk.inj (Except.ok.inj hrequest)
      obtain ⟨hnames, hreads, hends⟩ := resolved_relative hrooted hnormal hresolved
      obtain ⟨hplace, _, w, hwalk, hw, hspots, hleads⟩ :=
        place_of_ends hnames hends (fun hmeets => hdangles ⟨text, hrel, hmeets⟩)
      refine ⟨w, hwalk, hw, hspots, fun _ => ?_, hlast w hplace hwalk hw⟩
      rw [hreads.pathParts]
      exact hleads

end Answers

section NoEscapes

variable {fs : FileSystem} {theia : Theia} {b : Boundary}

def NoEscape {α : Type} (r : Except Refusal α) : Prop := ∀ message ∈ escapes, r ≠ refuse message

theorem NoEscape.value {α : Type} (a : α) : NoEscape (.ok a : Except Refusal α) :=
  fun _ _ => nofun

theorem NoEscape.os {α : Type} (code : OsError) : NoEscape (.error (.os code) : Except Refusal α) :=
  fun _ _ => nofun

theorem NoEscape.other {α : Type} {message : String} (h : message ∉ escapes) :
    NoEscape (refuse message : Except Refusal α) := by
  rintro message' hmessage heq
  cases heq
  exact h hmessage

theorem NoEscape.bind {α β : Type} {x : Except Refusal α} {f : α → Except Refusal β}
    (hx : NoEscape x) (hf : ∀ a, x = .ok a → NoEscape (f a)) : NoEscape (x >>= f) := by
  cases x with
  | error =>
    intro message hmessage heq
    cases heq
    exact hx message hmessage rfl
  | ok a => exact hf a rfl

theorem noEscape_realpath (path : List Name) : NoEscape (fs.realpath path) := by
  unfold FileSystem.realpath
  cases fs.resolve path with
  | found place => exact .value place
  | absent => exact .os _
  | missing => exact .os _
  | notDirectory => exact .os _
  | tooManyLinks => exact .os _

theorem realpath_error {path : List Name} {refusal : Refusal}
    (h : fs.realpath path = .error refusal) : ∃ code, refusal = .os code := by
  unfold FileSystem.realpath at h
  cases hwalk : fs.resolve path with
  | found => rw [hwalk] at h; cases h
  | absent => rw [hwalk] at h; cases h; exact ⟨_, rfl⟩
  | missing => rw [hwalk] at h; cases h; exact ⟨_, rfl⟩
  | notDirectory => rw [hwalk] at h; cases h; exact ⟨_, rfl⟩
  | tooManyLinks => rw [hwalk] at h; cases h; exact ⟨_, rfl⟩

theorem InsidePlain.extend {p q names : List Name} (h : InsidePlain p q)
    (hplain : ∀ n ∈ names, ¬ ['.', '.'] <+: n) : InsidePlain p (q ++ names) :=
  h.trans ⟨names, rfl, fun n hn => hplain n (mem_of_head? hn)⟩

/-- A call that is not refused as an escape, and whose path is inside. -/
def Stays (b : Boundary) (r : Except Refusal (List Name)) : Prop :=
  NoEscape r ∧ ∀ place, r = .ok place → AllNames place ∧ InsidePlain b.workspace place

/-- Where nothing on the way is outside, no part of the walk is refused. -/
theorem walkSegments_stays (hrooted : Rooted fs b) :
    ∀ {rest before current : List Name}, AllNames rest → (∀ n ∈ rest, ¬ ['.', '.'] <+: n) →
      fs.tree.Real current →
      InsidePlain b.workspace current →
      fs.tree.Leads b.workspace before (.found current) →
      (∀ more here, more <+: before ++ rest →
        fs.tree.Leads b.workspace more (.found here) → InsidePlain b.workspace here) →
      Stays b (walkSegments fs b current rest)
  | [], _, current, _, _, hreal, hinside, _, _ => by
    refine ⟨.value current, ?_⟩
    intro place hplace
    cases hplace
    exact ⟨names_of_real hreal, hinside⟩
  | n :: rest, before, current, hnames, hdots, hreal, hinside, hleads, hway => by
    have hn := hnames n mem_cons_self
    have hrest : AllNames rest := fun m hm => hnames m (mem_cons_of_mem n hm)
    have hdots' : ∀ m ∈ rest, ¬ ['.', '.'] <+: m :=
      fun m hm => hdots m (mem_cons_of_mem n hm)
    have hall := AllNames.append (names_of_real hreal) hnames
    have hbehind := InsidePlain.extend hinside hdots
    -- a missing file of any kind
    have hmissing : step fs b current n = .error (.os .missing) →
        Stays b (walkSegments fs b current (n :: rest)) := by
      intro hstep
      unfold walkSegments
      simp only [hstep, joined_names (names_of_real hreal) hnames,
        (assertWithinRoot_iff hrooted hall).mpr hbehind]
      refine ⟨.value _, ?_⟩
      intro place hplace
      cases hplace
      exact ⟨hall, hbehind⟩
    -- the walk goes on from a place that is there
    have hnext : ∀ next, step fs b current n = .ok next → fs.tree.Real next →
        fs.tree.Leads current [n] (.found next) →
        Stays b (walkSegments fs b current (n :: rest)) := by
      intro next hstep hnext hone
      have hleads' := Leads.trans hleads hone
      have hinside' := hway (before ++ [n]) next
        (by rw [prefix_append_right_inj]; exact ⟨rest, rfl⟩) hleads'
      unfold walkSegments
      rw [hstep]
      refine walkSegments_stays hrooted hrest hdots' hnext hinside' hleads' ?_
      rw [append_assoc]
      exact hway
    have hother : ∀ code, code ≠ .missing → step fs b current n = .error (.os code) →
        Stays b (walkSegments fs b current (n :: rest)) := by
      intro code hcode hstep
      unfold walkSegments
      rw [hstep]
      cases code with
      | missing => exact absurd rfl hcode
      | notDirectory => exact ⟨.os _, nofun⟩
      | tooManyLinks => exact ⟨.os _, nofun⟩
    rcases step_cases (b := b) hreal hn with
      ⟨_, hstep⟩ | ⟨_, _, hstep⟩ | ⟨hthere, hstep⟩ | ⟨target, _, hstep⟩
    · exact hother .notDirectory (by decide) hstep
    · exact hmissing hstep
    · exact hnext _ hstep hthere (leads_real hthere)
    · cases hresolved : fs.realpath (current ++ [n]) with
      | error =>
        obtain ⟨code, rfl⟩ := realpath_error hresolved
        rw [hresolved] at hstep
        by_cases hcode : code = .missing
        · exact hmissing (hcode ▸ hstep)
        · exact hother code hcode hstep
      | ok next =>
        have hreal' := real_of_realpath hresolved
        have hone := leads_resolved hreal hresolved
        have hinside' := hway (before ++ [n]) next
          (by rw [prefix_append_right_inj]; exact ⟨rest, rfl⟩) (Leads.trans hleads hone)
        have hwithin := (assertWithinRoot_iff hrooted (names_of_real hreal')).mpr hinside'
        rw [hresolved] at hstep
        simp only [bind, Except.bind, hwithin] at hstep
        exact hnext next hstep hreal' hone

theorem relative_stays {text : List Char} (hrooted : Rooted fs b) (hjoins : theia.Joins)
    (hclimbs : ¬ Climbs text) (hdots : ∀ n ∈ asked text, ¬ ['.', '.'] <+: n)
    (hway : ∀ before here, before <+: asked text →
      fs.tree.Leads b.workspace before (.found here) → InsidePlain b.workspace here) :
    NoEscape (normalizeRelativePath text) ∧ ∀ rel, normalizeRelativePath text = .ok rel →
        Stays b (resolveCandidatePath fs theia b rel) := by
  have hnames := (climbs_or_names text).resolve_left hclimbs
  have hroot := names_of_real hrooted.workspace
  rcases normalizeRelativePath_reads hnames with hno | hno | ⟨rel, hrel, hreads⟩
  · rw [hno]
    exact ⟨.other (by decide), nofun⟩
  · rw [hno]
    exact ⟨.other (by decide), nofun⟩
  · rw [hrel]
    refine ⟨.value rel, ?_⟩
    intro rel' heq
    cases heq
    have hup : ∀ n ∈ segments rel, n ≠ ['.', '.'] := by
      intro n hn
      rcases hreads.segments with hsegments | ⟨rfl, _⟩
      · rw [hsegments] at hn
        exact (hnames n hn).2.2.1
      · have hhere : segments ['.'] = [['.']] := by decide
        rw [hhere, mem_singleton] at hn
        rw [hn]
        decide
    have hcandidate : b.assertWithinRoot (theia.candidate b.workspace rel) = .ok () := by
      rw [hjoins b.workspace rel hroot hup, hreads.pathParts]
      refine (assertWithinRoot_iff hrooted (hroot.append hnames)).mpr ?_
      exact ⟨asked text, rfl, fun n hn => hdots n (mem_of_head? hn)⟩
    have hself : InsidePlain b.workspace b.workspace := ⟨[], (append_nil _).symm, nofun⟩
    unfold resolveCandidatePath
    rw [hcandidate]
    show Stays b (walkSegments fs b b.workspace (segments rel))
    rcases hreads.segments with hsegments | ⟨rfl, _⟩
    · rw [hsegments]
      exact walkSegments_stays hrooted hnames hdots hrooted.workspace hself leads_nil hway
    · have hhere : segments ['.'] = [['.']] := by decide
      rw [hhere, walkSegments_here hrooted.workspace]
      refine ⟨.value _, ?_⟩
      intro place hplace
      cases hplace
      exact ⟨hroot, hself⟩

theorem resource_stays {resourceUri : List Char} (hrooted : Rooted fs b)
    (hinside : ∀ path, fs.realpath (theia.fsPath resourceUri) = .ok path →
      InsidePlain b.workspace path ∧ PlainBelow b.workspace path ∧ TightBelow b.workspace path) :
    NoEscape (resolveResourceUri fs theia b resourceUri) := by
  unfold resolveResourceUri
  split
  · exact .other (by decide)
  · refine NoEscape.bind (noEscape_realpath _) ?_
    intro path hpath
    have hreal := real_of_realpath hpath
    obtain ⟨hplace, hplain, htight⟩ := hinside path hpath
    rw [(assertWithinRoot_iff hrooted (names_of_real hreal)).mpr hplace]
    obtain ⟨names, hpath', _⟩ := hplace
    have hnames : AllNames names := fun n hn =>
      names_of_real hreal n (hpath' ▸ mem_append_right b.workspace hn)
    have hslashes := hplain names hpath'
    rw [hpath', relative_append, slashes_joinNames hslashes]
    refine NoEscape.bind (.value ()) (fun _ _ => NoEscape.bind ?_ (fun _ _ => .value _))
    unfold orHere
    split
    · rw [normalizeRelativePath_here]
      exact .value _
    · next hne =>
      have hparts : names ≠ [] := fun hnil => hne ((joinNames_eq_nil_iff hnames).mpr hnil)
      rw [normalizeRelativePath_names hnames hparts hslashes (htight names hpath')]
      exact .value _

theorem request_stays {request : Request} (hrooted : Rooted fs b) (hjoins : theia.Joins)
    (h : StaysInside fs theia b request) :
    NoEscape (resolveRequest fs theia b request) ∧
      ∀ answer, resolveRequest fs theia b request = .ok answer →
        AllNames answer.2 ∧ InsidePlain b.workspace answer.2 := by
  unfold resolveRequest
  cases hrel : request.relativePath with
  | none =>
    cases huri : request.resourceUri with
    | none => exact ⟨NoEscape.other (by decide), nofun⟩
    | some resourceUri =>
      refine ⟨resource_stays hrooted (fun path => h.2 resourceUri path huri), ?_⟩
      rintro ⟨rel, place⟩ hanswer
      obtain ⟨hreal, hinside, _⟩ := resolved_resource hrooted hanswer
      exact ⟨names_of_real hreal, hinside⟩
  | some text =>
    cases huri : request.resourceUri with
    | some => exact ⟨NoEscape.other (by decide), nofun⟩
    | none =>
      obtain ⟨hclimbs, hdots, hway⟩ := h.1 text hrel
      obtain ⟨hnormal, hstays⟩ := relative_stays hrooted hjoins hclimbs hdots hway
      constructor
      · exact hnormal.bind (fun rel hrel => (hstays rel hrel).1.bind (fun _ _ => .value _))
      · rintro ⟨rel, place⟩ hanswer
        obtain ⟨rel', hrel', hanswer⟩ := Rust.bind_eq_ok_iff.mp hanswer
        obtain ⟨place', hplace, hanswer⟩ := Rust.bind_eq_ok_iff.mp hanswer
        cases hanswer
        exact (hstays rel hrel').2 place hplace

theorem noEscape_pathExists (path : List Name) : NoEscape (fs.pathExists path) := by
  unfold FileSystem.pathExists
  split
  · exact .value _
  · exact .value _
  · next _ _ heq =>
    obtain ⟨code, rfl⟩ := realpath_error heq
    exact .os code

theorem missing_is_no_escape (rel : List Char) :
    NoEscape (refuse ("Workspace path does not exist: " ++ String.ofList rel) :
      Except Refusal Location) := by
  refine .other (fun hmem => ?_)
  have hbegins : (("Workspace path does not exist: " ++ String.ofList rel).toList.take 16) =
      "Workspace path d".toList := by
    rw [String.toList_append, take_append_of_le_length (by decide)]
    decide
  have hother : ∀ message ∈ escapes, message.toList.take 16 ≠ "Workspace path d".toList := by
    decide
  exact hother _ hmem hbegins

theorem repository_stays {place : List Name} (hrooted : Rooted fs b) (hplace : AllNames place)
    (hinside : InsidePlain b.workspace place) : NoEscape (b.toRepositoryRelativePath place) := by
  unfold Boundary.toRepositoryRelativePath
  rw [(assertWithin_iff hplace).mpr (hrooted.inside.trans hinside)]
  refine NoEscape.bind (.value ()) (fun _ _ => ?_)
  simp only
  split
  · exact .value _
  · split
    · exact .other (by decide)
    · exact .value _

theorem stays_not_refused {request : Request} (hrooted : Rooted fs b) (hjoins : theia.Joins)
    (h : StaysInside fs theia b request) :
    NoEscape (resolveWorkspaceLocation fs theia b request) := by
  obtain ⟨hrequest, hinside⟩ := request_stays hrooted hjoins h
  unfold resolveWorkspaceLocation
  refine hrequest.bind ?_
  rintro ⟨rel, place⟩ hanswer
  obtain ⟨hplace, hin⟩ := hinside _ hanswer
  refine (noEscape_pathExists place).bind (fun present _ => ?_)
  split
  · exact missing_is_no_escape rel
  · refine NoEscape.bind ?_ (fun _ _ => (repository_stays hrooted hplace hin).bind
      (fun _ _ => .value _))
    split
    · exact (noEscape_realpath place).bind (fun _ _ => .value _)
    · exact .value none

end NoEscapes

def listed (entries : List (List Name × Node)) (p : List Name) : Option Node :=
  if p = [] then some .dir else entries.lookup p

def IsTree (entries : List (List Name × Node)) : Prop :=
  ∀ e ∈ entries, listed entries e.1.dropLast = some .dir ∧ (e.1 ≠ [] → IsName (e.1.getLastD []))

instance (entries : List (List Name × Node)) : Decidable (IsTree entries) :=
  inferInstanceAs (Decidable (∀ e ∈ entries, _ ∧ (_ → _)))

theorem mem_of_listed {entries : List (List Name × Node)} {p : List Name} {n : Name}
    (h : listed entries (p ++ [n]) ≠ none) : ∃ node, (p ++ [n], node) ∈ entries := by
  unfold listed at h
  rw [if_neg (by simp), ← Option.isSome_iff_ne_none, lookup_isSome_iff] at h
  obtain ⟨⟨q, node⟩, hmem, hsame⟩ := h
  have hq : p ++ [n] = q := beq_iff_eq.mp hsame
  subst hq
  exact ⟨node, hmem⟩

def treeOf (entries : List (List Name × Node)) (h : IsTree entries) : Tree where
  entry := listed entries
  root := rfl
  parent := by
    intro p n hentry
    obtain ⟨node, hmem⟩ := mem_of_listed hentry
    have hdir := (h _ hmem).1
    rwa [dropLast_concat] at hdir
  name := by
    intro p n hentry
    obtain ⟨node, hmem⟩ := mem_of_listed hentry
    have hname := (h _ hmem).2 (by simp)
    simpa using hname

def name (text : String) : Name := text.toList

/-- A workspace with links: one to something missing, one out of the workspace, from where
one leads back. -/
def desk : FileSystem where
  links := 40
  tree := treeOf [([name "repo"], .dir), ([name "repo", name "ws"], .dir),
      ([name "repo", name "ws", name "f"], .file),
      ([name "repo", name "ws", name "..f"], .file),
      ([name "repo", name "ws", name "a\\b"], .file),
      ([name "repo", name "ws", name "g "], .file),
      ([name "repo", name "ws", name "gone"], .link ⟨true, [name "out", name "x"]⟩),
      ([name "repo", name "ws", name "away"], .link ⟨true, [name "out"]⟩),
      ([name "out"], .dir),
      ([name "out", name "back"], .link ⟨true, [name "repo", name "ws"]⟩)]
    (by decide +kernel)

/-- URIs without escapes. -/
def plainUris : Theia where
  scheme := fun uri => uri.takeWhile (fun c => c ≠ ':')
  fsPath := fun uri => (uri.drop 7).splitOn '/'
  candidate := fun root text => root ++ pathParts text

def deskRoots : Boundary where
  repository := [name "repo"]
  workspace := [name "repo", name "ws"]

def asks (text : String) : Request where
  relativePath := some text.toList
  resourceUri := none
  requireExists := false

def asksUri (text : String) : Request where
  relativePath := none
  resourceUri := some text.toList
  requireExists := true

theorem desk_roots :
    initializeRoots desk [name "repo"] [name "repo", name "ws"] = .ok deskRoots := by
  decide +kernel

theorem desk_file : desk.tree.Real (deskRoots.workspace ++ [name "f"]) :=
  ⟨.file, by decide +kernel, nofun⟩

theorem desk_file_no_link {before behind here : List Name} {n : Name} {target : Target}
    (hpath : [name "f"] = before ++ n :: behind)
    (hleads : desk.tree.Leads deskRoots.workspace before (.found here)) :
    desk.tree.entry (here ++ [n]) ≠ some (.link target) := by
  cases before with
  | cons =>
    have hnil := (List.cons.inj hpath).2
    simp at hnil
  | nil =>
    obtain ⟨rfl, _⟩ := List.cons.inj hpath
    cases Leads.unique hleads leads_nil
    obtain ⟨node, hnode, hreal⟩ := desk_file
    rw [hnode]
    exact fun heq => hreal target (Option.some.inj heq)

end WorkspaceBoundary
end StudioWeb
