import StudioWeb.Library.LabelledRuns
import Mathlib.Data.List.Nodup

/-!
# One metadata row and the calls that update it

`Store::read` and `Store::update` of `environments/store.rs`: a call reads the row, changes
what it read and writes it back with the version it read, up to `WRITE_ATTEMPTS` times.  A
row that is not there is read at version `0` and written back without a version, and
account-management lets such a write through whatever the row has become.

Account-management gives a written row a later version.
-/

namespace StudioWeb
namespace Environments

open LabelledRuns List Option

universe u v w x

section Calls

variable {J : Type u} {T : Type v} {R : Type w} {E : Type x}

/-- An entry of account-management. -/
structure MetadataEntry (J : Type u) where
  value : J
  version : Int
deriving DecidableEq

structure UpsertMetadataRequest (J : Type u) where
  value : J
  expectedVersion : Option Int
deriving DecidableEq

/-- What a document type can do: `DeserializeOwned + Serialize + Default`. -/
class MetadataDocument (J : outParam (Type u)) (T : Type v) extends Inhabited T where
  fromValue : J → Except String T
  toValue : T → Except String J

open MetadataDocument

/-- How many times a write re-reads and tries again. -/
def WRITE_ATTEMPTS : Nat := 4

/-- What `get_metadata` answers. -/
inductive GetMetadata (J : Type u) where
  | found (entry : MetadataEntry J)
  | notFound
  | failed (why : String)

def GetMetadata.of : Option (MetadataEntry J) → GetMetadata J
  | some entry => .found entry
  | none => .notFound

/-- `Store::read`. -/
def readRow [MetadataDocument J T] (typeId : String) :
    GetMetadata J → Except String (T × Int)
  | .found entry =>
    match fromValue entry.value with
    | .ok value => .ok (value, entry.version)
    | .error why => .error s!"the stored {typeId} is unreadable: {why}"
  | .notFound => .ok (default, 0)
  | .failed why => .error s!"cannot read {typeId}: {why}"

/-- A call of `Store::update`. -/
structure UpdateCall (T : Type v) (R : Type w) (E : Type x) where
  typeId : String
  change : T → Except E (T × R)

/-- Where a call of `Store::update` is. -/
inductive UpdatePc (J : Type u) (T : Type v) (R : Type w) (E : Type x) where
  /-- It has `left` attempts; the last one ended with an error. -/
  | reading (left : Nat) (last : Option String)
  /-- It has read the row at `version`. -/
  | writing (left : Nat) (version : Int) (value : T) (answer : R)
      (request : UpsertMetadataRequest J)
  | returned (outcome : Except String (Except E (T × R)))

/-- The next turn of the loop, or the end of it. -/
def nextAttempt (typeId : String) (left : Nat) (last : Option String) : UpdatePc J T R E :=
  if left = 0 then
    let why := last.getD ""
    .returned (.error s!"cannot write {typeId}: {why}")
  else
    .reading left last

/-- One turn of the loop, up to its write. -/
def attempt [MetadataDocument J T] (c : UpdateCall T R E) (left : Nat) (answered : GetMetadata J) :
    UpdatePc J T R E :=
  match readRow c.typeId answered with
  | .error why => .returned (.error why)
  | .ok (value, version) =>
    match c.change value with
    | .error refused => .returned (.ok (.error refused))
    | .ok (value, answer) =>
      match toValue value with
      | .error why => .returned (.error why)
      | .ok stored =>
        .writing left version value answer
          { value := stored
            expectedVersion := if 0 < version then some version else none }

/-- Account-management takes a write that expects nothing, or what it finds. -/
def accepts (request : UpsertMetadataRequest J) (version : Int) : Bool :=
  request.expectedVersion.all fun expected => expected = version

def documentOf [MetadataDocument J T] : Option J → Option T
  | none => some default
  | some stored => (fromValue stored).toOption

/-- The call's `change`, applied once to what is stored. -/
structure Applied [MetadataDocument J T]
    (c : UpdateCall T R E) (before : Option J) (value : T) (answer : R) (after : J) : Prop where
  changed : ∃ base, documentOf before = some base ∧ c.change base = .ok (value, answer)
  stored : toValue value = .ok after

end Calls

section World

variable {J : Type u} {T : Type v} {R : Type w} {E : Type x}

structure RowWorld (J : Type u) (T : Type v) (R : Type w) (E : Type x) where
  row : Option (MetadataEntry J)
  calls : Nat → Option (UpdateCall T R E × UpdatePc J T R E)

inductive RowAction (T : Type v) (R : Type w) (E : Type x) where
  | starts (call : Nat) (c : UpdateCall T R E)
  | reads (call : Nat)
  | readFails (call : Nat) (why : String)
  /-- The write is taken, and the row gets the version `next`. -/
  | writes (call : Nat) (next : Int)
  /-- The write is answered an error, and nothing is written. -/
  | writeFails (call : Nat) (why : String)

namespace RowWorld

def started (row : Option (MetadataEntry J)) : RowWorld J T R E := ⟨row, fun _ => none⟩

/-- The version a read finds: `0` for a row that is not there. -/
def version (s : RowWorld J T R E) : Int := s.row.elim 0 MetadataEntry.version

def stored (s : RowWorld J T R E) : Option J := s.row.map MetadataEntry.value

def goto (s : RowWorld J T R E) (call : Nat) (c : UpdateCall T R E)
    (pc : UpdatePc J T R E) : RowWorld J T R E :=
  { s with calls := Function.update s.calls call (some (c, pc)) }

@[simp] theorem calls_goto_self (s : RowWorld J T R E) (call : Nat) (c : UpdateCall T R E)
    (pc : UpdatePc J T R E) : (s.goto call c pc).calls call = some (c, pc) :=
  Function.update_self ..

@[simp] theorem calls_goto_of_ne (s : RowWorld J T R E) {call other : Nat} (c : UpdateCall T R E)
    (pc : UpdatePc J T R E) (h : other ≠ call) : (s.goto call c pc).calls other = s.calls other :=
  Function.update_of_ne h ..

variable [MetadataDocument J T]

def step (s : RowWorld J T R E) : RowAction T R E → Option (RowWorld J T R E)
  | .starts call c =>
    match s.calls call with
    | none => some (s.goto call c (nextAttempt c.typeId WRITE_ATTEMPTS none))
    | some _ => none
  | .reads call =>
    match s.calls call with
    | some (c, .reading left _) =>
      some (s.goto call c (attempt c left (GetMetadata.of s.row)))
    | _ => none
  | .readFails call why =>
    match s.calls call with
    | some (c, .reading left _) => some (s.goto call c (attempt c left (.failed why)))
    | _ => none
  | .writes call next =>
    match s.calls call with
    | some (c, .writing _ _ value answer request) =>
      if accepts request s.version ∧ s.version < next then
        some { s.goto call c (.returned (.ok (.ok (value, answer)))) with
          row := some ⟨request.value, next⟩ }
      else
        none
    | _ => none
  | .writeFails call why =>
    match s.calls call with
    | some (c, .writing left _ _ _ _) =>
      some (s.goto call c (nextAttempt c.typeId (left - 1) (some why)))
    | _ => none

omit [MetadataDocument J T] in
/-- A call that sends no version writes while the row is still at the version it read. -/
def isUnraced (s : RowWorld J T R E) : RowAction T R E → Bool
  | .writes call _ =>
    match s.calls call with
    | some (_, .writing _ version _ _ request) =>
      request.expectedVersion.isSome || s.version = version
    | _ => true
  | _ => true

omit [MetadataDocument J T] in
/-- The call has returned `Ok` with what it wrote. -/
def Answered (s : RowWorld J T R E) (call : Nat) (c : UpdateCall T R E) (value : T)
    (answer : R) : Prop :=
  s.calls call = some (c, .returned (.ok (.ok (value, answer))))

/-- The calls of a list, one after another, make of what is stored first what is stored
last. -/
inductive InTurn (s : RowWorld J T R E) (first : Option J) : List Nat → Option J → Prop where
  | none : InTurn s first [] first
  | next
      {order : List Nat} {before : Option J} {call : Nat} {c : UpdateCall T R E}
      {value : T} {answer : R} {after : J}
      (earlier : InTurn s first order before)
      (answered : s.Answered call c value answer)
      (applied : Applied c before value answer after) :
      InTurn s first (order ++ [call]) (some after)

/-- Each call that was answered `Ok` is applied exactly once. -/
def AppliedOnce (s : RowWorld J T R E) (first : Option J) : Prop :=
  ∃ order : List Nat, order.Nodup ∧
    (∀ call, call ∈ order ↔ ∃ c value answer, s.Answered call c value answer) ∧
    s.InTurn first order s.stored

end RowWorld

end World

section Attempts

variable {J : Type u} {T : Type v} {R : Type w} {E : Type x} [MetadataDocument J T]
variable {c : UpdateCall T R E} {left left' : Nat} {version : Int} {value : T} {answer : R}
variable {request : UpsertMetadataRequest J} {row : Option (MetadataEntry J)}

open MetadataDocument

theorem attempt_ne_answered (answered : GetMetadata J) :
    attempt c left answered ≠ .returned (.ok (.ok (value, answer))) := by
  unfold attempt
  repeat' split
  all_goals simp

theorem attempt_failed (why : String) :
    (attempt c left (.failed why) : UpdatePc J T R E) =
      .returned (.error s!"cannot read {c.typeId}: {why}") := by
  rfl

theorem attempt_of_row (h : attempt c left (GetMetadata.of row) =
      .writing left' version value answer request) :
    version = row.elim 0 MetadataEntry.version ∧
      request.expectedVersion = (if 0 < version then some version else none) ∧
      Applied c (row.map MetadataEntry.value) value answer request.value := by
  unfold attempt at h
  split at h
  · cases h
  · next base _ hread =>
    split at h
    · cases h
    · next _ _ hchange =>
      split at h
      · cases h
      · next _ hstored =>
        cases h
        have hbase : documentOf (T := T) (row.map MetadataEntry.value) = some base ∧
            version = row.elim 0 MetadataEntry.version := by
          cases row with
          | none =>
            cases hread
            exact ⟨rfl, rfl⟩
          | some =>
            simp only [GetMetadata.of, readRow] at hread
            split at hread
            · next _ hfound =>
              cases hread
              refine ⟨?_, rfl⟩
              simp only [documentOf, map_some, hfound]
              rfl
            · cases hread
        exact ⟨hbase.2, rfl, ⟨⟨base, hbase.1, hchange⟩, hstored⟩⟩

end Attempts

section Steps

variable {J : Type u} {T : Type v} {R : Type w} {E : Type x} [MetadataDocument J T]

namespace RowWorld

/-- A call that has a write to make, by the row it has read. -/
def Ready (s : RowWorld J T R E) (c : UpdateCall T R E) : UpdatePc J T R E → Prop
  | .writing _ version value answer request =>
    version = s.version ∧ request.expectedVersion = (if 0 < version then some version else none) ∧
      Applied c s.stored value answer request.value
  | .returned (.ok (.ok _)) => False
  | _ => True

inductive Steps (s : RowWorld J T R E) : RowAction T R E → RowWorld J T R E → Prop where
  /-- A call goes on, and the row stays. -/
  | moves
      {a : RowAction T R E} {call : Nat} {c : UpdateCall T R E} {pc : UpdatePc J T R E}
      (running : ∀ d outcome, s.calls call ≠ some (d, .returned outcome))
      (ready : s.Ready c pc) :
      Steps s a (s.goto call c pc)
  /-- A write is taken. -/
  | writes
      {call : Nat} {next : Int} {c : UpdateCall T R E} {left : Nat} {version : Int}
      {value : T} {answer : R} {request : UpsertMetadataRequest J}
      (pending : s.calls call = some (c, .writing left version value answer request))
      (accepted : accepts request s.version = true)
      (later : s.version < next) :
      Steps s (.writes call next)
        { s.goto call c (.returned (.ok (.ok (value, answer)))) with
          row := some ⟨request.value, next⟩ }

variable {s t : RowWorld J T R E} {a : RowAction T R E} {first : Option J}

theorem ready_nextAttempt (s : RowWorld J T R E) (c : UpdateCall T R E) (left : Nat)
    (last : Option String) : s.Ready c (nextAttempt c.typeId left last) := by
  unfold nextAttempt
  split <;> trivial

theorem ready_attempt (s : RowWorld J T R E) (c : UpdateCall T R E) (left : Nat) :
    s.Ready c (attempt c left (GetMetadata.of s.row)) := by
  cases hpc : attempt c left (GetMetadata.of s.row) with
  | reading => trivial
  | writing => exact attempt_of_row hpc
  | returned outcome =>
    cases outcome with
    | error => trivial
    | ok outcome =>
      cases outcome with
      | error => trivial
      | ok => exact absurd hpc (attempt_ne_answered _)

theorem steps_of_step (h : s.step a = some t) : Steps s a t := by
  cases a with
  | starts _ c =>
    simp only [step] at h
    split at h
    · next hnone =>
      cases h
      refine .moves (fun d outcome hd => ?_) (ready_nextAttempt s c _ _)
      rw [hnone] at hd
      cases hd
    · cases h
  | reads =>
    simp only [step] at h
    split at h
    · next c left _ hreading =>
      cases h
      refine .moves (fun d outcome hd => ?_) (ready_attempt s c left)
      rw [hreading] at hd
      cases hd
    · cases h
  | readFails =>
    simp only [step] at h
    split at h
    · next _ _ _ hreading =>
      cases h
      refine .moves (fun d outcome hd => ?_) ?_
      · rw [hreading] at hd
        cases hd
      · rw [attempt_failed]
        trivial
    · cases h
  | writes _ next =>
    simp only [step] at h
    split at h
    · next _ _ _ _ _ _ hwriting =>
      split at h
      · next haccepted =>
        cases h
        exact .writes hwriting haccepted.1 haccepted.2
      · cases h
    · cases h
  | writeFails =>
    simp only [step] at h
    split at h
    · next c _ _ _ _ _ hwriting =>
      cases h
      refine .moves (fun d outcome hd => ?_) (ready_nextAttempt s c _ _)
      rw [hwriting] at hd
      cases hd
    · cases h

/-- What was answered stays in turn, in any state that keeps the answers. -/
theorem InTurn.mono {order : List Nat} {last : Option J} (hkept : ∀ call c value answer,
      s.Answered call c value answer → t.Answered call c value answer)
    (h : s.InTurn first order last) : t.InTurn first order last := by
  induction h with
  | none => exact .none
  | next _ answered applied ih => exact .next ih (hkept _ _ _ _ answered) applied

/-- The row holds what the answered calls made of it, and a call that read the row at the
version it has is about to write what its change makes of it. -/
structure Inv (first : Option J) (s : RowWorld J T R E) : Prop where
  applied : s.AppliedOnce first
  pending : ∀ call c left version value answer request,
    s.calls call = some (c, .writing left version value answer request) →
    version ≤ s.version ∧ request.expectedVersion = (if 0 < version then some version else none) ∧
      (version = s.version → Applied c s.stored value answer request.value)

theorem inv_started (row : Option (MetadataEntry J)) :
    Inv (row.map MetadataEntry.value) (started row : RowWorld J T R E) where
  applied := by
    refine ⟨[], nodup_nil, fun call => ?_, .none⟩
    constructor
    · intro h
      cases h
    · rintro ⟨c, value, answer, h⟩
      cases h
  pending := by
    intro call c left version value answer request h
    cases h

variable {call : Nat} {c : UpdateCall T R E}

theorem answered_goto_iff {pc : UpdatePc J T R E}
    (hrunning : ∀ d outcome, s.calls call ≠ some (d, .returned outcome)) (hready : s.Ready c pc)
    (other : Nat) (d : UpdateCall T R E) (value : T) (answer : R) :
    (s.goto call c pc).Answered other d value answer ↔ s.Answered other d value answer := by
  unfold Answered
  by_cases hother : other = call
  · subst hother
    rw [calls_goto_self]
    constructor
    · intro h
      cases h
      exact hready.elim
    · intro h
      exact absurd h (hrunning d _)
  · rw [calls_goto_of_ne _ _ _ hother]

theorem inv_moves {pc : UpdatePc J T R E} (hinv : Inv first s)
    (hrunning : ∀ d outcome, s.calls call ≠ some (d, .returned outcome)) (hready : s.Ready c pc) :
    Inv first (s.goto call c pc) := by
  have hanswered := answered_goto_iff hrunning hready
  obtain ⟨order, hnodup, hmem, hturn⟩ := hinv.applied
  constructor
  · refine ⟨order, hnodup, fun other => ?_, hturn.mono fun _ _ _ _ h =>
      (hanswered _ _ _ _).mpr h⟩
    rw [hmem other]
    simp only [hanswered]
  · intro other d left version value answer request h
    by_cases hother : other = call
    · subst hother
      rw [calls_goto_self] at h
      cases h
      obtain ⟨hversion, hexpected, happlied⟩ := hready
      exact ⟨Int.le_of_eq hversion, hexpected, fun _ => happlied⟩
    · rw [calls_goto_of_ne _ _ _ hother] at h
      exact hinv.pending other d left version value answer request h

theorem inv_writes {next : Int} {left : Nat} {version : Int}
    {value : T} {answer : R} {request : UpsertMetadataRequest J} (hinv : Inv first s)
    (hpending : s.calls call = some (c, .writing left version value answer request))
    (hversion : version = s.version) (hlater : s.version < next) :
    Inv first
      { s.goto call c (.returned (.ok (.ok (value, answer)))) with
        row := some ⟨request.value, next⟩ } := by
  obtain ⟨order, hnodup, hmem, hturn⟩ := hinv.applied
  obtain ⟨_, _, happlied⟩ := hinv.pending call c left version value answer request hpending
  have hnew : call ∉ order := by
    intro hcall
    obtain ⟨d, v, r, h⟩ := (hmem call).mp hcall
    rw [Answered, hpending] at h
    cases h
  constructor
  · refine ⟨order ++ [call], ?_, fun other => ?_, ?_⟩
    · exact nodup_append.mpr ⟨hnodup, nodup_singleton call, by
        rintro a ha b hb rfl
        exact hnew (mem_singleton.mp hb ▸ ha)⟩
    · rw [mem_append, mem_singleton, hmem other]
      unfold Answered
      by_cases hother : other = call
      · subst hother
        simp only [calls_goto_self, or_true, true_iff]
        exact ⟨c, value, answer, rfl⟩
      · simp only [calls_goto_of_ne _ _ _ hother, hother, or_false]
    · refine .next (hturn.mono fun other d v r h => ?_) ?_ (happlied hversion)
      · unfold Answered at *
        have hother : other ≠ call := by
          rintro rfl
          rw [hpending] at h
          cases h
        rwa [calls_goto_of_ne _ _ _ hother]
      · exact calls_goto_self ..
  · intro other d left' version' value' answer' request' h
    by_cases hother : other = call
    · subst hother
      rw [calls_goto_self] at h
      cases h
    · rw [calls_goto_of_ne _ _ _ hother] at h
      obtain ⟨hle, hexpected, _⟩ := hinv.pending other d left' version' value' answer' request' h
      have hbefore : version' < next := by
        omega
      refine ⟨Int.le_of_lt hbefore, hexpected, fun heq => ?_⟩
      have hnow : version' = next := heq
      omega

theorem version_of_accepted {next : Int} {left : Nat} {version : Int}
    {value : T} {answer : R} {request : UpsertMetadataRequest J} (hinv : Inv first s)
    (hpending : s.calls call = some (c, .writing left version value answer request))
    (haccepted : accepts request s.version = true)
    (hunraced : s.isUnraced (.writes call next) = true) : version = s.version := by
  obtain ⟨_, hexpected, _⟩ := hinv.pending call c left version value answer request hpending
  by_cases hpositive : 0 < version
  · rw [if_pos hpositive] at hexpected
    simpa [accepts, hexpected] using haccepted
  · rw [if_neg hpositive] at hexpected
    simp only [isUnraced, hpending, hexpected, isSome_none, Bool.false_or,
      decide_eq_true_eq] at hunraced
    exact hunraced.symm

theorem inv_step (hinv : Inv first s) (h : s.step a = some t) (hunraced : s.isUnraced a = true) :
    Inv first t := by
  cases steps_of_step h with
  | moves hrunning hready => exact inv_moves hinv hrunning hready
  | writes hpending haccepted hlater =>
    exact inv_writes hinv hpending (version_of_accepted hinv hpending haccepted hunraced) hlater

end RowWorld

end Steps

section Runs

variable {J : Type u} {T : Type v} {R : Type w} {E : Type x} [MetadataDocument J T]

open RowWorld

/-- **No update is lost** where no write without a version finds the row moved on: what is
stored is what the changes of the calls that have returned `Ok`, each applied once, make of
what was stored first. -/
theorem updates_applied_once (row : Option (MetadataEntry J)) (actions : List (RowAction T R E))
    (s : RowWorld J T R E) (hrun : runActions step (started row) actions = some s)
    (hunraced : EveryStep step (fun s a _ => s.isUnraced a = true) (started row) actions) :
    s.AppliedOnce (row.map MetadataEntry.value) := by
  have hinv : Inv (row.map MetadataEntry.value) s :=
    runActions_invariant (fun _ _ _ hinv hstep h => inv_step hinv hstep h)
      (inv_started row) hunraced hrun
  exact hinv.applied

private def appends (name : String) : UpdateCall (List String) Unit Empty :=
  ⟨"names", fun names => .ok (names ++ [name], ())⟩

private instance namesDocument : MetadataDocument (List String) (List String) where
  fromValue := .ok
  toValue := .ok

private def secondAfterFirst : List (RowAction (List String) Unit Empty) :=
  [.starts 0 (appends "dev"), .starts 1 (appends "prod"), .reads 0, .writes 0 1, .reads 1,
    .writes 1 2]

private def bothReadNothing : List (RowAction (List String) Unit Empty) :=
  [.starts 0 (appends "dev"), .starts 1 (appends "prod"), .reads 0, .reads 1, .writes 0 1,
    .writes 1 2]

/-- A second save that reads what the first one wrote. -/
theorem second_save_after_the_first :
    (reached step (started none) secondAfterFirst).AppliedOnce none :=
  updates_applied_once none secondAfterFirst _ (runActions_reached rfl) (by decide)

private def bothWritten : RowWorld (List String) (List String) Unit Empty :=
  reached step (started none) bothReadNothing

private theorem calls_bothWritten {call : Nat} {c : UpdateCall (List String) Unit Empty}
    {pc : UpdatePc (List String) (List String) Unit Empty}
    (h : bothWritten.calls call = some (c, pc)) : ∃ name, c = appends name := by
  match call with
  | 0 =>
    cases h
    exact ⟨"dev", rfl⟩
  | 1 =>
    cases h
    exact ⟨"prod", rfl⟩
  | n + 2 => cases h

private theorem length_of_inTurn {order : List Nat} {names : Option (List String)}
    (h : bothWritten.InTurn none order names) : (names.getD []).length = order.length := by
  induction h with
  | none => rfl
  | @next _ before _ _ value _ after _ answered applied ih =>
    obtain ⟨name, rfl⟩ := calls_bothWritten answered
    obtain ⟨⟨base, hbase, hchange⟩, hstored⟩ := applied
    have hvalue : base ++ [name] = value := congrArg Prod.fst (Except.ok.inj hchange)
    have hafter : value = after := Except.ok.inj hstored
    have hbefore : base = before.getD [] := by
      cases before with
      | none => exact (some.inj hbase).symm
      | some => exact (some.inj hbase).symm
    rw [getD_some, ← hafter, ← hvalue, hbefore, length_append, ih, length_append]
    rfl

/-- **A first save is lost** when another one has read the row before it was written. -/
theorem first_save_is_lost :
    ∃ (actions : List (RowAction (List String) Unit Empty))
      (s : RowWorld (List String) (List String) Unit Empty),
      runActions step (started none) actions = some s ∧ ¬ s.AppliedOnce none := by
  refine ⟨bothReadNothing, bothWritten, runActions_reached rfl, ?_⟩
  rintro ⟨order, hnodup, hmem, hturn⟩
  have hlength : (1 : Nat) = order.length := length_of_inTurn hturn
  have hdev : 0 ∈ order := (hmem 0).mpr ⟨appends "dev", ["dev"], (), rfl⟩
  have hprod : 1 ∈ order := (hmem 1).mpr ⟨appends "prod", ["prod"], (), rfl⟩
  obtain ⟨only, rfl⟩ := length_eq_one_iff.mp hlength.symm
  have h : (0 : Nat) = 1 := (mem_singleton.mp hdev).trans (mem_singleton.mp hprod).symm
  cases h

end Runs

end Environments
end StudioWeb
