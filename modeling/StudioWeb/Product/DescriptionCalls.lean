import StudioWeb.Library.LabelledRuns
import StudioWeb.Product.Descriptions

/-!
# Calls that save one description

`save_description` of `product/description_service.rs` over the rows and the record of one
project: a call reads the record and the project's sources, reads the latest revision,
inserts, keeps a lock beside a revision and writes the record, each at its own time; an
insert that failed is followed by a second read.  A write that is answered an error writes
nothing.  The record is written whole from what is stored, so only its `description` changes.

Every write is also logged, under the call that made it.
-/

namespace StudioWeb
namespace Product

/-- What a call has read before it saves. -/
structure Opened where
  recordPath : Option String
  project : List ProjectSource
deriving DecidableEq

/-- Where the lock looks for the sources by a path. -/
def Opened.productPath (o : Opened) : String := o.recordPath.getD "product.gdl"

/-- Where a call of `save_description` is. -/
inductive SavePc where
  | opening
  | reading (o : Opened)
  | inserting (o : Opened) (made : Revision)
  | rereading (o : Opened) (made : Revision) (why : String)
  | pinning (o : Opened) (saved : Saved)
  | recording (o : Opened) (saved : Saved)
  | returned (answer : Except String Saved)

/-- The revision that a call has beside which it keeps a lock, and that it records. -/
def SavePc.carried : SavePc → Option Revision
  | .pinning _ saved => some saved.kept
  | .recording _ saved => some saved.kept
  | _ => none

inductive SaveMove where
  | opens (project : List ProjectSource)
  | reads (now : Int)
  | inserts
  | insertFails (why : String)
  | rereads
  | pins (heads : String → Option Commit)
  | pinFails
  | records
  | recordFails
  /-- The call ends with an error before its insert, or at its second read. -/
  | fails (why : String)

/-- A write of a call. -/
inductive Effect where
  | inserted (made : Revision)
  | locked (revision : Int) (lock : SourcesLock)
  | recorded (d : RecordedDescription)
deriving DecidableEq

/-- After a save: a new revision, and one whose sources are not all pinned, is pinned. -/
def afterSaved (o : Opened) (saved : Saved) : SavePc :=
  match saved with
  | .created _ => .pinning o saved
  | .unchanged r =>
    if r.sourcesLock.any SourcesLock.complete then .returned (.ok saved) else .pinning o saved
  | .stale _ => .returned (.ok saved)

/-- `DescriptionStore::save`, up to its insert. -/
def beginSave (digest : String → String) (c : SaveCall) (o : Opened) (now : Int)
    (found : Option Revision) : SavePc :=
  match settled c.base found (digest c.text) with
  | some saved => afterSaved o saved
  | none => .inserting o (c.made digest now found)

/-- `DescriptionStore::save`, after an insert that failed. -/
def endFailed (o : Opened) (made : Revision) (why : String) (found : Option Revision) : SavePc :=
  match reread made why found with
  | .ok saved => afterSaved o saved
  | .error why => .returned (.error why)

/-- What the record learns. -/
def described (o : Opened) (saved : Saved) : RecordedDescription where
  revision := saved.kept.revision
  sha256 := saved.kept.sha256
  path := o.recordPath
  sourcesLock := saved.kept.sourcesLock

structure DescriptionWorld where
  rows : List Revision
  record : Option ProductRecord
  calls : Nat → Option (SaveCall × SavePc)
  log : List (Nat × Effect)

inductive DescriptionAction where
  | starts (call : Nat) (c : SaveCall)
  | moves (call : Nat) (move : SaveMove)

namespace DescriptionWorld

def goto (s : DescriptionWorld) (call : Nat) (c : SaveCall) (pc : SavePc) : DescriptionWorld :=
  { s with calls := Function.update s.calls call (some (c, pc)) }

variable (s : DescriptionWorld)

@[simp] theorem calls_goto_self (call : Nat) (c : SaveCall) (pc : SavePc) :
    (s.goto call c pc).calls call = some (c, pc) :=
  Function.update_self ..

@[simp] theorem calls_goto_of_ne {call other : Nat} (c : SaveCall)
    (pc : SavePc) (h : other ≠ call) : (s.goto call c pc).calls other = s.calls other :=
  Function.update_of_ne h ..

variable (call : Nat) (c : SaveCall) (pc : SavePc)

@[simp] theorem rows_goto :
    (s.goto call c pc).rows = s.rows :=
  rfl

@[simp] theorem log_goto :
    (s.goto call c pc).log = s.log :=
  rfl

def write (s : DescriptionWorld) (call : Nat) (e : Effect) : DescriptionWorld :=
  { rows :=
      match e with
      | .inserted made => s.rows ++ [made]
      | .locked revision lock => setLock s.rows revision lock
      | .recorded _ => s.rows
    record :=
      match e with
      | .recorded d => some (updateDescription s.record d)
      | _ => s.record
    calls := s.calls
    log := s.log ++ [(call, e)] }

def writes (s : DescriptionWorld) (call : Nat) (effect : Option Effect) : DescriptionWorld :=
  effect.elim s (s.write call)

@[simp] theorem calls_writes (s : DescriptionWorld) (call : Nat) (effect : Option Effect) :
    (s.writes call effect).calls = s.calls := by
  cases effect <;> rfl

variable (digest : String → String)

def turn (s : DescriptionWorld) (c : SaveCall) : SavePc → SaveMove → Option (SavePc × Option Effect)
  | .opening, .opens project =>
    some (.reading ⟨c.path.or (descriptionPath s.record), project⟩, none)
  | .opening, .fails why => some (.returned (.error why), none)
  | .reading o, .reads now => some (beginSave digest c o now (latest s.rows), none)
  | .reading _, .fails why => some (.returned (.error why), none)
  | .inserting o made, .inserts =>
    if isTaken s.rows made.revision then
      none
    else
      some (.pinning o (.created made), some (.inserted made))
  | .inserting o made, .insertFails why => some (.rereading o made why, none)
  | .inserting _ _, .fails why => some (.returned (.error why), none)
  | .rereading o made why, .rereads => some (endFailed o made why (latest s.rows), none)
  | .rereading _ _ _, .fails why => some (.returned (.error why), none)
  | .pinning o saved, .pins heads =>
    let lock := lockSources (sources c.text) o.productPath o.project heads
    some (.recording o (saved.withLock lock), some (.locked saved.kept.revision lock))
  | .pinning o saved, .pinFails => some (.recording o saved, none)
  | .recording o saved, .records =>
    some (.returned (.ok saved), some (.recorded (described o saved)))
  | .recording _ saved, .recordFails => some (.returned (.ok saved), none)
  | _, _ => none

def step (s : DescriptionWorld) : DescriptionAction → Option DescriptionWorld
  | .starts call c =>
    match s.calls call with
    | none => some (s.goto call c .opening)
    | some _ => none
  | .moves call move =>
    match s.calls call with
    | some (c, pc) =>
      (turn digest s c pc move).map fun p => (s.writes call p.2).goto call c p.1
    | none => none

end DescriptionWorld

section Turns

variable {digest : String → String} {s t : DescriptionWorld} {c : SaveCall}
variable {pc pc' : SavePc} {move : SaveMove} {effect : Option Effect} {o : Opened}
variable {saved : Saved} {call : Nat}

namespace DescriptionWorld

inductive Turns (digest : String → String) (s : DescriptionWorld) (c : SaveCall) :
    SavePc → SaveMove → SavePc → Option Effect → Prop where
  | opens {o : Opened} {project : List ProjectSource} :
      Turns digest s c .opening (.opens project) (.reading o) none
  /-- A call ends with an error, and has written nothing. -/
  | fails {pc : SavePc} {move : SaveMove} {why : String}
      (early : ∀ o saved, pc ≠ .pinning o saved ∧ pc ≠ .recording o saved) :
      Turns digest s c pc move (.returned (.error why)) none
  /-- The latest revision settles the save. -/
  | settles {pc : SavePc} {move : SaveMove} {o : Opened} {l : Revision} {saved : Saved}
      (early : ∀ o saved, pc ≠ .pinning o saved ∧ pc ≠ .recording o saved)
      (waiting : ∀ answer, pc ≠ .returned answer)
      (found : latest s.rows = some l)
      (answer : saved = .unchanged l ∨ saved = .stale l) :
      Turns digest s c pc move (afterSaved o saved) none
  | reads {o : Opened} {now : Int}
      (unsettled : settled c.base (latest s.rows) (digest c.text) = none) :
      Turns digest s c (.reading o) (.reads now)
        (.inserting o (c.made digest now (latest s.rows))) none
  | inserts {o : Opened} {made : Revision}
      (free : isTaken s.rows made.revision = false) :
      Turns digest s c (.inserting o made) .inserts (.pinning o (.created made))
        (some (.inserted made))
  | insertFails {o : Opened} {made : Revision} {why : String} :
      Turns digest s c (.inserting o made) (.insertFails why) (.rereading o made why) none
  | pins {o : Opened} {saved : Saved} {heads : String → Option Commit} {lock : SourcesLock} :
      Turns digest s c (.pinning o saved) (.pins heads) (.recording o (saved.withLock lock))
        (some (.locked saved.kept.revision lock))
  | pinFails {o : Opened} {saved : Saved} :
      Turns digest s c (.pinning o saved) .pinFails (.recording o saved) none
  | records {o : Opened} {saved : Saved} :
      Turns digest s c (.recording o saved) .records (.returned (.ok saved))
        (some (.recorded (described o saved)))
  | recordFails {o : Opened} {saved : Saved} :
      Turns digest s c (.recording o saved) .recordFails (.returned (.ok saved)) none

theorem turns_of_reads {now : Int} :
    Turns digest s c (.reading o) (.reads now) (beginSave digest c o now (latest s.rows))
      none := by
  unfold beginSave
  cases hsettled : settled c.base (latest s.rows) (digest c.text) with
  | none => exact .reads hsettled
  | some =>
    obtain ⟨l, hfound, hanswer⟩ := settled_cases hsettled
    exact .settles (fun _ _ => ⟨nofun, nofun⟩) nofun hfound hanswer

theorem turns_of_rereads {made : Revision} {why : String} :
    Turns digest s c (.rereading o made why) .rereads (endFailed o made why (latest s.rows))
      none := by
  unfold endFailed
  cases hreread : reread made why (latest s.rows) with
  | error => exact .fails fun _ _ => ⟨nofun, nofun⟩
  | ok =>
    obtain ⟨l, hfound, hanswer⟩ := reread_cases hreread
    exact .settles (fun _ _ => ⟨nofun, nofun⟩) nofun hfound hanswer

theorem turns_of_turn (h : turn digest s c pc move = some (pc', effect)) :
    Turns digest s c pc move pc' effect := by
  unfold turn at h
  split at h
  case h_1 => cases h; exact .opens
  case h_2 => cases h; exact .fails fun _ _ => ⟨nofun, nofun⟩
  case h_3 => cases h; exact turns_of_reads
  case h_4 => cases h; exact .fails fun _ _ => ⟨nofun, nofun⟩
  case h_5 =>
      split at h
      · cases h
      · next hfree =>
        cases h
        exact .inserts (Bool.not_eq_true _ ▸ hfree)
  case h_6 => cases h; exact .insertFails
  case h_7 => cases h; exact .fails fun _ _ => ⟨nofun, nofun⟩
  case h_8 => cases h; exact turns_of_rereads
  case h_9 => cases h; exact .fails fun _ _ => ⟨nofun, nofun⟩
  case h_10 => cases h; exact .pins
  case h_11 => cases h; exact .pinFails
  case h_12 => cases h; exact .records
  case h_13 => cases h; exact .recordFails
  case h_14 => cases h

/-- Everything that a step does. -/
theorem step_cases {a : DescriptionAction} (h : s.step digest a = some t) :
    (∃ call c, a = .starts call c ∧ s.calls call = none ∧ t = s.goto call c .opening) ∨
    (∃ call move c pc pc' effect, a = .moves call move ∧ s.calls call = some (c, pc) ∧
      Turns digest s c pc move pc' effect ∧ t = (s.writes call effect).goto call c pc') := by
  cases a with
  | starts call c =>
    simp only [step] at h
    split at h
    · next hnone =>
      cases h
      exact .inl ⟨call, c, rfl, hnone, rfl⟩
    · cases h
  | moves call move =>
    simp only [step] at h
    split at h
    · next c pc hcall =>
      obtain ⟨⟨pc', effect⟩, hturn, rfl⟩ := Option.map_eq_some_iff.mp h
      exact .inr ⟨call, move, c, pc, pc', effect, rfl, hcall, turns_of_turn hturn, rfl⟩
    · cases h

end DescriptionWorld

end Turns

end Product
end StudioWeb
