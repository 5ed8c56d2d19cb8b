import StudioWeb.WorkspaceConfig.ConfigMutations

/-!
# A workspace mutation is all or nothing

The mutations of one config path in one process, each in its turn of the queue, with what the
disk was when a turn began and when it ended.
-/

namespace StudioWeb
namespace WorkspaceConfig

open LabelledRuns Option Function

structure ConfigWorld where
  disk : Disk
  line : PromiseLine
  mutation : Nat → Mutation
  /-- The name of a mutation's temporary file. -/
  temp : Nat → String
  pc : Nat → MutationPc
  began : Nat → Disk
  ended : Nat → Disk

inductive ConfigAction where
  /-- A mutation has the real path of its root and joins the queue. -/
  | joins (m : Mutation) (temp : String)
  | settles (i : Nat)
  | enters (i : Nat)
  | works (i : Nat) (outcome : FsOutcome)
  | leaves (i : Nat)

namespace ConfigWorld

def started (disk : Disk) : ConfigWorld where
  disk := disk
  line := .empty
  mutation := fun _ => .saveRawToml "" ""
  temp := fun _ => ""
  pc := fun _ => .waiting
  began := fun _ => disk
  ended := fun _ => disk

variable (rules : ConfigRules)

def step (s : ConfigWorld) : ConfigAction → Option ConfigWorld
  | .joins m temp =>
    some
      { s with
        line := s.line.join
        mutation := Function.update s.mutation s.line.joined m
        temp := Function.update s.temp s.line.joined temp }
  | .settles i => (s.line.settle i).map fun line => { s with line := line }
  | .enters i =>
    (s.line.enter i).map fun line =>
      { s with
        line := line
        began := Function.update s.began i s.disk
        pc := Function.update s.pc i .loading }
  | .works i outcome =>
    (work rules s.disk (s.mutation i) (s.temp i) (s.pc i) outcome).map fun p =>
      { s with
        pc := Function.update s.pc i p.1
        disk := p.2 }
  | .leaves i =>
    match s.pc i with
    | .leaving answer =>
      (s.line.leave i).map fun line =>
        { s with
          line := line
          ended := Function.update s.ended i s.disk
          pc := Function.update s.pc i (.returned answer) }
    | _ => none

def leftBefore (s : ConfigWorld) (first : Disk) : Nat → Disk
  | 0 => first
  | i + 1 => s.ended i

def leavesNoFile (s : ConfigWorld) : ConfigAction → Bool
  | .works i outcome => leavesFiles (s.began i) (s.pc i) outcome
  | _ => true

end ConfigWorld

namespace ConfigWorld

structure Answered
    (rules : ConfigRules) (strict : Prop) (m : Mutation) (began ended : Disk)
    (answer : Answer) : Prop where
  applied : ∀ revision, answer = .applied revision → ∃ text, Makes rules m began text ∧
    revision = rules.sha256 text ∧ ended = began.writeConfig text
  refused : strict → answer.isRefusal = true → ended = began

structure Invariant (rules : ConfigRules) (strict : Prop) (first : Disk) (s : ConfigWorld) :
    Prop where
  order : s.line.InOrder
  waits : ∀ i, s.line.entered i = false → s.pc i = .waiting
  turn : ∀ i, s.line.InTurn i →
    Halfway rules strict (s.mutation i) (s.temp i) (s.began i) s.disk (s.pc i)
  answered : ∀ i, s.line.released i = true → ∃ answer, s.pc i = .returned answer ∧
    Answered rules strict (s.mutation i) (s.began i) (s.ended i) answer
  chained : ∀ i, s.line.entered i = true → s.began i = s.leftBefore first i
  current : ∀ i, s.line.DoneBefore i → s.line.entered i = false → s.disk = s.leftBefore first i

variable {rules : ConfigRules} {strict : Prop} {first : Disk} {s t : ConfigWorld} {i : Nat}
variable {m : Mutation} {temp : String} {answer : Answer} {outcome : FsOutcome}

theorem leftBefore_congr (h : ∀ j, j < i → t.ended j = s.ended j) :
    t.leftBefore first i = s.leftBefore first i := by
  cases i with
  | zero => rfl
  | succ i => exact h i (Nat.lt_succ_self i)

theorem answered_of_leaving {began disk : Disk}
    (h : Halfway rules strict m temp began disk (.leaving answer)) :
    Answered rules strict m began disk answer := by
  cases answer with
  | applied =>
    refine ⟨?_, nofun⟩
    rintro _ ⟨⟩
    exact h
  | conflict => exact ⟨nofun, fun hs _ => h hs⟩
  | throws => exact ⟨nofun, fun hs _ => h hs⟩

theorem invariant_started (rules : ConfigRules) (strict : Prop) (first : Disk) :
    (started first).Invariant rules strict first where
  order := PromiseLine.inOrder_empty
  waits _ _ := rfl
  turn _ h := by cases h.1
  answered _ h := by cases h
  chained _ h := by cases h
  current i _ _ := by cases i <;> rfl

theorem invariant_joins (h : s.Invariant rules strict first) :
    Invariant rules strict first
      { s with
        line := s.line.join
        mutation := Function.update s.mutation s.line.joined m
        temp := Function.update s.temp s.line.joined temp } where
  order := PromiseLine.inOrder_join h.order
  waits := h.waits
  turn := by
    intro i hi
    have hne : i ≠ s.line.joined := by
      have hlt := (h.order.entered i hi.1).1
      omega
    dsimp only
    rw [update_of_ne hne, update_of_ne hne]
    exact h.turn i hi
  answered := by
    intro i hi
    have hne : i ≠ s.line.joined := by
      have hlt := (h.order.entered i (h.order.released i hi)).1
      omega
    dsimp only
    rw [update_of_ne hne]
    exact h.answered i hi
  chained := h.chained
  current := h.current

variable {line : PromiseLine}

section

variable (h : s.Invariant rules strict first)
include h

theorem invariant_settles (hsettle : s.line.settle i = some line) :
    Invariant rules strict first { s with line := line } := by
  have horder := PromiseLine.inOrder_settle h.order hsettle
  unfold PromiseLine.settle at hsettle
  split at hsettle
  · cases hsettle
    exact ⟨horder, h.waits, h.turn, h.answered, h.chained, h.current⟩
  · cases hsettle

theorem invariant_enters (henter : s.line.enter i = some line) :
    Invariant rules strict first
      { s with
        line := line
        began := Function.update s.began i s.disk
        pc := Function.update s.pc i .loading } := by
  have horder := PromiseLine.inOrder_enter h.order henter
  obtain ⟨hjoined, hentered, hready, rfl⟩ := PromiseLine.enter_spec henter
  have hbefore := h.order.before_of_ready hjoined hready
  have hreleased : s.line.released i ≠ true := by
    intro hreleased
    rw [h.order.released i hreleased] at hentered
    cases hentered
  have hhere : s.disk = s.leftBefore first i := h.current i hbefore hentered
  refine ⟨horder, ?_, ?_, ?_, ?_, ?_⟩
  · intro j hj
    dsimp only at hj ⊢
    by_cases heq : j = i
    · rw [heq, update_self] at hj
      cases hj
    · rw [update_of_ne heq] at hj ⊢
      exact h.waits j hj
  · intro j hj
    by_cases heq : j = i
    · subst heq
      dsimp only
      rw [update_self, update_self]
      exact rfl
    · have hturn : s.line.InTurn j := by
        refine ⟨?_, hj.2⟩
        have hentered' := hj.1
        dsimp only at hentered'
        rwa [update_of_ne heq] at hentered'
      dsimp only
      rw [update_of_ne heq, update_of_ne heq]
      exact h.turn j hturn
  · intro j hj
    have heq : j ≠ i := by
      rintro rfl
      exact hreleased hj
    dsimp only
    rw [update_of_ne heq, update_of_ne heq]
    exact h.answered j hj
  · intro j hj
    by_cases heq : j = i
    · subst heq
      dsimp only
      rw [update_self, hhere]
      exact (leftBefore_congr fun _ _ => rfl).symm
    · dsimp only at hj ⊢
      rw [update_of_ne heq] at hj
      rw [update_of_ne heq, h.chained j hj]
      exact (leftBefore_congr fun _ _ => rfl).symm
  · intro j hdone hj
    have heq : j ≠ i := by
      rintro rfl
      dsimp only at hj
      rw [update_self] at hj
      cases hj
    dsimp only at hj
    rw [update_of_ne heq] at hj
    rw [h.current j hdone hj]
    exact (leftBefore_congr fun _ _ => rfl).symm

theorem inTurn_of_work {p : MutationPc × Disk}
    (hwork : work rules s.disk (s.mutation i) (s.temp i) (s.pc i) outcome = some p) :
    s.line.InTurn i := by
  constructor
  · by_contra hentered
    rw [h.waits i (Bool.eq_false_iff.mpr hentered)] at hwork
    cases outcome <;> cases hwork
  · by_contra hreleased
    rw [Bool.not_eq_false] at hreleased
    obtain ⟨answer, hanswer, -⟩ := h.answered i hreleased
    rw [hanswer] at hwork
    cases outcome <;> cases hwork

omit h in
theorem not_current_of_inTurn {j : Nat} (h : s.line.InOrder) (hi : s.line.InTurn i)
    (hdone : s.line.DoneBefore j) : s.line.entered j = true := by
  rcases Nat.lt_trichotomy i j with hlt | rfl | hgt
  · have hreleased := hdone i hlt
    rw [hi.2] at hreleased
    cases hreleased
  · exact hi.1
  · exact h.released j ((h.entered i hi.1).2 j hgt)

theorem invariant_works {disk : Disk} {pc : MutationPc}
    (hleaves : strict → leavesFiles (s.began i) (s.pc i) outcome = true)
    (hwork : work rules s.disk (s.mutation i) (s.temp i) (s.pc i) outcome = some (pc, disk)) :
    Invariant rules strict first
      { s with
        pc := Function.update s.pc i pc
        disk := disk } := by
  have hi := inTurn_of_work h hwork
  refine ⟨h.order, ?_, ?_, ?_, ?_, ?_⟩
  · intro j hj
    have heq : j ≠ i := by
      rintro rfl
      rw [hi.1] at hj
      cases hj
    dsimp only
    rw [update_of_ne heq]
    exact h.waits j hj
  · intro j hj
    have heq : j = i := h.order.exclusive hj hi
    subst heq
    dsimp only
    rw [update_self]
    exact halfway_work (h.turn j hi) hleaves hwork
  · intro j hj
    have heq : j ≠ i := by
      rintro rfl
      rw [hi.2] at hj
      cases hj
    dsimp only
    rw [update_of_ne heq]
    exact h.answered j hj
  · intro j hj
    rw [h.chained j hj]
    exact (leftBefore_congr fun _ _ => rfl).symm
  · intro j hdone hj
    have hentered := not_current_of_inTurn h.order hi hdone
    rw [hentered] at hj
    cases hj

theorem invariant_leaves (hpc : s.pc i = .leaving answer) (hleave : s.line.leave i = some line) :
    Invariant rules strict first
      { s with
        line := line
        ended := Function.update s.ended i s.disk
        pc := Function.update s.pc i (.returned answer) } := by
  have horder := PromiseLine.inOrder_leave h.order hleave
  obtain ⟨hi, rfl⟩ := PromiseLine.leave_spec hleave
  have hturn := h.turn i hi
  rw [hpc] at hturn
  have hold : ∀ j, j ≠ i → Function.update s.line.released i true j = s.line.released j :=
    fun j heq => update_of_ne heq ..
  -- Whoever has entered before this turn began has left before it.
  have hchain : ∀ j, s.line.entered j = true →
      leftBefore { s with ended := Function.update s.ended i s.disk } first j =
        s.leftBefore first j := by
    intro j hj
    refine leftBefore_congr fun k hk => update_of_ne ?_ ..
    rintro rfl
    have hreleased := (h.order.entered j hj).2 k hk
    rw [hi.2] at hreleased
    cases hreleased
  refine ⟨horder, ?_, ?_, ?_, ?_, ?_⟩
  · intro j hj
    have heq : j ≠ i := by
      rintro rfl
      rw [hi.1] at hj
      cases hj
    dsimp only
    rw [update_of_ne heq]
    exact h.waits j hj
  · intro j hj
    have heq : j ≠ i := by
      rintro rfl
      have hreleased := hj.2
      dsimp only at hreleased
      rw [update_self] at hreleased
      cases hreleased
    have hjturn : s.line.InTurn j := ⟨hj.1, (hold j heq).symm.trans hj.2⟩
    exact absurd (h.order.exclusive hjturn hi) heq
  · intro j hj
    dsimp only at hj ⊢
    by_cases heq : j = i
    · subst heq
      rw [update_self, update_self]
      exact ⟨answer, rfl, answered_of_leaving hturn⟩
    · rw [hold j heq] at hj
      rw [update_of_ne heq, update_of_ne heq]
      exact h.answered j hj
  · intro j hj
    exact (h.chained j hj).trans (hchain j hj).symm
  · intro j hdone hj
    have hnext : j = i + 1 := by
      have hafter : i < j := by
        by_contra hle
        rcases Nat.lt_or_eq_of_le (Nat.not_lt.mp hle) with hlt | heq
        · have hreleased := (h.order.entered i hi.1).2 j hlt
          rw [h.order.released j hreleased] at hj
          cases hj
        · rw [heq, hi.1] at hj
          cases hj
      by_contra hne
      -- Someone between would have entered before this turn was over.
      have hmid : s.line.released (i + 1) = true := by
        rw [← hold (i + 1) (by omega)]
        exact hdone (i + 1) (by omega)
      have hreleased := (h.order.entered (i + 1) (h.order.released _ hmid)).2 i (by omega)
      rw [hi.2] at hreleased
      cases hreleased
    subst hnext
    have hended : Function.update s.ended i s.disk i = s.disk := update_self ..
    exact hended.symm

/-- Every step keeps the invariant, a strict one where no call fails that leaves a file. -/
theorem invariant_step {a : ConfigAction}
    (hleaves : strict → s.leavesNoFile a = true) (hstep : s.step rules a = some t) :
    t.Invariant rules strict first := by
  cases a with
  | joins =>
    cases hstep
    exact invariant_joins h
  | settles =>
    obtain ⟨line, hsettle, rfl⟩ := map_eq_some_iff.mp hstep
    exact invariant_settles h hsettle
  | enters =>
    obtain ⟨line, henter, rfl⟩ := map_eq_some_iff.mp hstep
    exact invariant_enters h henter
  | works =>
    obtain ⟨⟨pc, disk⟩, hwork, rfl⟩ := map_eq_some_iff.mp hstep
    exact invariant_works h hleaves hwork
  | leaves =>
    simp only [step] at hstep
    split at hstep
    · next _ hpc =>
      obtain ⟨line, hleave, rfl⟩ := map_eq_some_iff.mp hstep
      exact invariant_leaves h hpc hleave
    · cases hstep

theorem answered_of_returned (hpc : s.pc i = .returned answer) :
    s.began i = s.leftBefore first i ∧
      Answered rules strict (s.mutation i) (s.began i) (s.ended i) answer := by
  have hentered : s.line.entered i = true := by
    by_contra hne
    rw [h.waits i (Bool.eq_false_iff.mpr hne)] at hpc
    cases hpc
  have hreleased : s.line.released i = true := by
    by_contra hne
    have hturn := h.turn i ⟨hentered, Bool.eq_false_iff.mpr hne⟩
    rw [hpc] at hturn
    exact hturn
  obtain ⟨answer', hanswer, hanswered⟩ := h.answered i hreleased
  rw [hpc] at hanswer
  cases hanswer
  exact ⟨h.chained i hentered, hanswered⟩

end

end ConfigWorld

namespace ConfigWorld

/-- **A workspace mutation is all or nothing.**  In every run each mutation has begun with
what the turn before it left, and one that is answered as applied has left its text, made of
the config it began with; and where no call fails that leaves a file, a mutation that is
refused or that throws has left the disk as it was. -/
theorem mutations_all_or_nothing (rules : ConfigRules) (first : Disk) (actions : List ConfigAction)
    (s : ConfigWorld) (hrun : runActions (step rules) (started first) actions = some s) :
    (∀ i answer, s.pc i = .returned answer → s.began i = s.leftBefore first i ∧
      ∀ revision, answer = .applied revision → ∃ text,
        Makes rules (s.mutation i) (s.began i) text ∧ revision = rules.sha256 text ∧
          s.ended i = (s.began i).writeConfig text) ∧
      (EveryStep (step rules) (fun s a _ => s.leavesNoFile a = true) (started first) actions →
        ∀ i answer, s.pc i = .returned answer → answer.isRefusal = true →
          s.ended i = s.began i) := by
  constructor
  · intro i answer hpc
    have hinv : s.Invariant rules False first :=
      runActions_invariant (fun _ _ _ h hstep _ => invariant_step h (fun hs => hs.elim) hstep)
        (invariant_started rules False first)
        (EveryStep.of_forall (fun _ _ _ _ => trivial) _ actions) hrun
    obtain ⟨hbegan, hanswered⟩ := answered_of_returned hinv hpc
    exact ⟨hbegan, hanswered.applied⟩
  · intro hsteady i answer hpc hrefusal
    have hpres : ∀ s a t, s.Invariant rules True first → step rules s a = some t →
        s.leavesNoFile a = true → t.Invariant rules True first :=
      fun s a t h hstep hleaves => invariant_step h (fun _ => hleaves) hstep
    have hinv : s.Invariant rules True first :=
      runActions_invariant hpres (invariant_started rules True first) hsteady hrun
    exact (answered_of_returned hinv hpc).2.refused trivial hrefusal

private def plainRules : ConfigRules where
  inspect _ := .valid
  sha256 text := text

private def emptyDisk : Disk :=
  ⟨none, false, fun _ => none⟩

private def savedDisk : Disk :=
  ⟨some "version = \"1.0\"\n", false, fun _ => none⟩

private def renameFails : List ConfigAction :=
  [.joins (.saveRawToml "version = \"1.0\"\n" "version = \"1.0\"\n\n[sources]\n") ".tmp",
    .enters 0, .works 0 .ok, .works 0 .ok, .works 0 .ok, .works 0 .ok, .works 0 .ok,
    .works 0 .ok, .works 0 .ok, .works 0 (.error (.other "EIO") ""), .works 0 .ok, .leaves 0]

/-- A save whose rename fails leaves the config, and no temporary file. -/
theorem failed_rename_leaves_the_config :
    (reached (step plainRules) (started savedDisk) renameFails).ended 0 =
      (reached (step plainRules) (started savedDisk) renameFails).began 0 :=
  (mutations_all_or_nothing plainRules savedDisk renameFails _ (runActions_reached rfl)).2
    (by decide) 0 (.throws (.other "EIO")) rfl rfl

private def createFails : List ConfigAction :=
  [.joins (.create none (.ok "version = \"1.0\"\n\n[sources]\n")) ".tmp", .enters 0,
    .works 0 .ok, .works 0 .ok, .works 0 (.error (.other "ENOSPC") "vers"), .works 0 .ok,
    .leaves 0]

/-- **A `create` that throws leaves its file**, in which it has written a part. -/
theorem failed_create_leaves_a_file :
    ∃ (actions : List ConfigAction) (s : ConfigWorld),
      runActions (step plainRules) (started emptyDisk) actions = some s ∧
        s.pc 0 = .returned (.throws (.other "ENOSPC")) ∧ (s.began 0).config = none ∧
        (s.ended 0).config = some "vers" := by
  exact ⟨createFails, reached (step plainRules) (started emptyDisk) createFails,
    runActions_reached rfl, rfl, rfl, rfl⟩

end ConfigWorld

end WorkspaceConfig
end StudioWeb
