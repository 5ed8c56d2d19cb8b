import StudioWeb.ReadModel.CallTruth

/-!
# The read model tells the graph's truth

The mirrored store is a copy that is written after the truth: the truth are the rows that
the graph should have, the copy are the rows of the mirror, and every step of the store
and of its fills is a step of `WriteThrough`, under the condition `Admitted`.
-/

namespace StudioWeb
namespace ReadModel

open LabelledRuns WriteThrough List Option Function System DomainMirror

universe u

section Statements

theorem get?_setAll_eq (objects : InsertionMap String ObjectRow) {rows : List ObjectRow}
    (hnodup : (rows.map ObjectRow.instanceId).Nodup) (id : String) :
    (rows.foldl (insertObject true) objects).get? id =
      (rows.find? fun row => row.instanceId = id).or (objects.get? id) := by
  rw [foldl_insertObject_replace]
  cases hfind : rows.find? fun row => row.instanceId = id with
  | none =>
    have hid : id ∉ rows.map ObjectRow.instanceId := by
      intro hmem
      obtain ⟨row, hrow, hkey⟩ := List.mem_map.mp hmem
      exact find?_eq_none.mp hfind row hrow (decide_eq_true hkey)
    exact InsertionMap.get?_setAll_of_notMem _ _ hid
  | some row =>
    have hrow := mem_of_find?_eq_some hfind
    have hid : row.instanceId = id := by simpa using find?_some hfind
    rw [← hid]
    exact InsertionMap.get?_setAll_of_mem _ _ hnodup hrow

structure StatementSpec (m : DomainMirror) (statement : Statement) : Prop where
  through : (statement.run m).2 = true
  rows : rowsOf (statement.run m).1 = statement.change.apply (rowsOf m)
  keyed : (statement.run m).1.Keyed
  filled : (statement.run m).1.filled = m.filled

variable {m : DomainMirror}

theorem rowsOf_filter {c : Change RowKey Cell} (gone : EdgeRow → Bool)
    (hobject : ∀ id, c (.object id) = none)
    (hedge : ∀ row, c (.edge row) = if gone row then some none else none) :
    rowsOf { m with edges := m.edges.filter fun row => !gone row } = c.apply (rowsOf m) := by
  funext k
  cases k with
  | object =>
    rw [Change.apply, hobject]
    rfl
  | edge row =>
    rw [Change.apply, hedge]
    simp only [rowsOf, mem_filter, Bool.not_eq_true']
    cases hgone : gone row <;> simp

theorem keyed_setAll {rows : List ObjectRow} (hm : m.Keyed)
    (hnodup : (rows.map ObjectRow.instanceId).Nodup) :
    DomainMirror.Keyed
      { m with objects := rows.foldl (insertObject true) m.objects } := by
  intro id row hrow
  change (rows.foldl (insertObject true) m.objects).get? id = some row at hrow
  rw [get?_setAll_eq m.objects hnodup, or_eq_some_iff] at hrow
  rcases hrow with hfound | ⟨_, hold⟩
  · simpa using find?_some hfound
  · exact hm id row hold

/-- **A statement does its change**, and goes through when its rows are distinct. -/
theorem statement_spec {statement : Statement} (hm : m.Keyed)
    (hnodup : ∀ rows, statement = .writeObjects rows → (rows.map ObjectRow.instanceId).Nodup) :
    StatementSpec m statement := by
  cases statement with
  | writeObjects rows =>
    have hrows := hnodup rows rfl
    have hwrite : (Statement.writeObjects rows).run m =
        ({ m with objects := rows.foldl (insertObject true) m.objects }, true) :=
      writeObjects_of_nodup hrows
    constructor
    · rw [hwrite]
    · rw [hwrite]
      funext k
      cases k with
      | object id =>
        simp only [rowsOf, Change.apply, Statement.change]
        rw [get?_setAll_eq m.objects hrows]
        cases rows.find? fun row => row.instanceId = id <;> rfl
      | edge => rfl
    · rw [hwrite]
      exact keyed_setAll hm hrows
    · rw [hwrite]
  | deleteEdgesOf ids =>
    refine ⟨rfl, ?_, hm, rfl⟩
    refine rowsOf_filter (fun row => decide (row.src ∈ ids) || decide (row.dst ∈ ids))
      (fun _ => rfl) ?_
    intro row
    simp [Statement.change]
  | deleteObjects ids =>
    refine ⟨rfl, ?_, ?_, rfl⟩
    · funext k
      cases k with
      | object id =>
        simp only [rowsOf, Change.apply, Statement.change, Statement.run]
        rw [get?_deleteObjects]
        cases hget : m.objects.get? id with
        | none => by_cases hid : id ∈ ids <;> simp [hid]
        | some row => by_cases hid : id ∈ ids <;> simp [Option.filter, hm id row hget, hid]
      | edge => rfl
    · intro id row hrow
      rw [Statement.run, get?_deleteObjects] at hrow
      exact hm id row (filter_eq_some_iff.mp hrow).1
  | writeEdges rows =>
    refine ⟨rfl, ?_, hm, rfl⟩
    funext k
    cases k with
    | object => rfl
    | edge row =>
      simp only [rowsOf, Change.apply, Statement.change, Statement.run, mem_writeEdges]
      by_cases hrow : row ∈ rows <;> simp [hrow]
  | deleteEdge =>
    refine ⟨rfl, ?_, hm, rfl⟩
    exact rowsOf_filter _ (fun _ => rfl) (fun _ => rfl)

end Statements

section Abstraction

variable {P : Type u}

/-- An operation, by the changes it has still to make. -/
def absOp (o : Operation P) : Op P RowKey Cell :=
  ⟨o.process, o.bumped, o.rest.filterMap Todo.change?, o.rest.any Todo.isUnfill⟩

def rowOfNode (n : ObjectNode) : Cell := .object (rowOf n.typeId n.instanceId n.value)

/-- How far a fill is with a row. -/
def partOf : FillPhase → RowKey → WriteThrough.Part Cell
  | .begun, _ => .uncleared
  | .objectsCleared objectsAt, .object _ => .cleared objectsAt
  | .objectsCleared _, .edge _ => .uncleared
  | .cleared objectsAt _, .object _ => .cleared objectsAt
  | .cleared _ edgesAt, .edge _ => .cleared edgesAt
  | .listed _ readAt objects, .object id =>
    .read readAt ((objects.find? fun n => n.instanceId = id).map rowOfNode)
  | .listed edgesAt _ _, .edge _ => .cleared edgesAt
  | .objectsWritten _ _, .object _ => .copied
  | .objectsWritten edgesAt _, .edge _ => .cleared edgesAt
  | .edgesRead _ _, .object _ => .copied
  | .edgesRead readAt rows, .edge row => .read readAt (if row ∈ rows then some .edge else none)
  | .edgesWritten, _ => .copied
  | .checked, _ => .copied

def FillPhase.readAt : FillPhase → RowKey → Option Nat
  | .listed _ readAt _, .object _ => some readAt
  | .edgesRead readAt _, .edge _ => some readAt
  | _, _ => none

def FillPhase.isChecked : FillPhase → Bool
  | .checked => true
  | _ => false

def absFill (f : TenantFill) : Fill RowKey Cell := ⟨f.generation, f.phase.isChecked, partOf f.phase⟩

/-- The store as a copy written after the truth. -/
def abs (s : System P) : State P RowKey Cell where
  truth := truthOf s.graph
  copy := rowsOf s.mirror
  published := s.mirror.filled
  clock := s.clock
  written := s.written
  ops n := (s.ops n).map absOp
  generation := s.generation
  fills p := (s.fills p).map absFill

theorem abs_setOp (s : System P) (n : Nat) (o : Option (Operation P)) :
    abs (s.setOp n o) = (abs s).setOp n (o.map absOp) := by
  unfold abs setOp State.setOp
  congr 1
  funext m
  by_cases hm : m = n
  · subst hm
    simp
  · simp [update_of_ne hm]

variable {s : System P}

theorem abs_ops {n : Nat} {o : Operation P} (ho : s.ops n = some o) :
    (abs s).ops n = some (absOp o) := by
  simp only [abs, ho, map_some]

theorem abs_fills {p : P} {f : TenantFill} (hf : s.fills p = some f) :
    (abs s).fills p = some (absFill f) := by
  simp only [abs, hf, map_some]

theorem readAt_of_partOf {phase : FillPhase} {k : RowKey} {r : Nat} {v : Option Cell}
    (h : partOf phase k = .read r v) : phase.readAt k = some r := by
  cases phase <;> cases k <;> simp_all [partOf, FillPhase.readAt]

theorem fill_of_abs {p : P} {f : Fill RowKey Cell} (hf : (abs s).fills p = some f) :
    ∃ f', s.fills p = some f' ∧ absFill f' = f :=
  map_eq_some_iff.mp hf

variable [DecidableEq P]

theorem abs_setFill (s : System P) (p : P) (f : Option TenantFill) :
    abs (s.setFill p f) = (abs s).setFill p (f.map absFill) := by
  unfold abs setFill State.setFill
  congr 1
  funext q
  by_cases hq : q = p
  · subst hq
    simp
  · simp [update_of_ne hq]

theorem abs_bump (s : System P) (p : P) : abs (s.bump p) = (abs s).bump p := by
  rfl

end Abstraction

section Conditions

variable {P : Type u}

/-- The operation that wrote a row last has still to write it in the mirror. -/
def System.Latest (s : System P) (k : RowKey) : Prop :=
  ∃ o, s.ops (s.written k) = some o ∧ (settled o.rest k).isSome = true

/-- A statement is in turn: no later operation on a row of it is through with the mirror,
and it removes no row that a fill of another process has read and is about to copy. -/
structure InTurn (s : System P) (n : Nat) (o : Operation P) (statement : Statement) :
    Prop where
  latest : ∀ k, (statement.change k).isSome = true → s.Latest k
  removes : ∀ k, statement.change k = some none → ∀ p f r, s.fills p = some f →
    p ≠ o.process → f.phase.readAt k = some r → n < r

/-- A failure does no harm: the fills that could miss the row will tell, and a fill row
that cannot be removed is not there. -/
structure FailsSafely (s : System P) (o : Operation P) : Prop where
  write : ∀ statement rest, o.rest = .write statement :: rest → ∀ p f, s.fills p = some f →
    (p = o.process ∧ f.phase.isChecked = false) ∨ f.phase = .begun
  unfill : ∀ rest, o.rest = .unfill :: rest → s.mirror.filled = false

/-- What a fill is about to read is all it should copy: it lists the types of all live
objects, and the relations at them join live objects. -/
def Readable (g : Graph) (f : TenantFill) : Prop :=
  match f.phase with
  | .cleared _ _ => Modelled g f.typeIds
  | .objectsWritten _ ids => ∀ e ∈ g.readEdges ids, isRelationType e.typeId = true →
      g.HasObject e.src ∧ g.HasObject e.dst
  | _ => True

/-- The condition of a step on the state before it. -/
def System.Admitted (s : System P) (a : Action P) (_ : System P) : Prop :=
  match a with
  | .graphWrite _ call => CallOk s.graph call
  | .graphFails _ => True
  | .next n => ∀ o statement rest, s.ops n = some o → o.rest = .write statement :: rest →
      InTurn s n o statement
  | .mirrorFails n => ∀ o, s.ops n = some o → FailsSafely s o
  | .fillBegins _ _ => (∀ p, s.fills p = none) ∧ s.mirror.filled = false
  | .fillNext p => ∀ f, s.fills p = some f → Readable s.graph f
  | .fillFails _ => True

end Conditions

section Invariant

variable {P : Type u}

/-- A relation that was written before the fill cleared the edges has an end among the
objects that the fill has listed. -/
structure Anchored (s : System P) (edgesAt : Nat) (ids : List String) : Prop where
  past : edgesAt ≤ s.clock
  ends : ∀ e, s.graph.HasRelation e →
    s.written (.edge (edgeRow e.typeId e.src e.dst e.relation)) < edgesAt →
    s.graph.HasObject e.src → s.graph.HasObject e.dst → e.src ∈ ids ∨ e.dst ∈ ids

def PhaseOk (s : System P) : FillPhase → Prop
  | .cleared _ edgesAt => edgesAt ≤ s.clock
  | .listed edgesAt _ objects => Anchored s edgesAt (objects.map ObjectNode.instanceId)
  | .objectsWritten edgesAt ids => Anchored s edgesAt ids
  | _ => True

structure System.WellFormed (s : System P) : Prop where
  graph : s.graph.Keyed
  mirror : s.mirror.Keyed
  ops : ∀ n o, s.ops n = some o → TodoOk o.bumped o.rest
  fills : ∀ p f, s.fills p = some f → PhaseOk s f.phase

variable {s t : System P}

theorem PhaseOk.of_anchored {phase : FillPhase} (h : PhaseOk s phase) (hclock : s.clock ≤ t.clock)
    (hanchored : ∀ edgesAt ids, Anchored s edgesAt ids → Anchored t edgesAt ids) :
    PhaseOk t phase := by
  cases phase with
  | cleared => exact Nat.le_trans h hclock
  | listed => exact hanchored _ _ h
  | objectsWritten => exact hanchored _ _ h
  | begun => trivial
  | objectsCleared => trivial
  | edgesRead => trivial
  | edgesWritten => trivial
  | checked => trivial

theorem PhaseOk.mono {phase : FillPhase} (h : PhaseOk s phase) (hgraph : t.graph = s.graph)
    (hwritten : t.written = s.written) (hclock : s.clock ≤ t.clock) : PhaseOk t phase := by
  refine h.of_anchored hclock ?_
  intro edgesAt ids hids
  refine ⟨Nat.le_trans hids.past hclock, ?_⟩
  rw [hgraph, hwritten]
  exact hids.ends

theorem wellFormed_of_same (h : s.WellFormed) (hgraph : t.graph = s.graph)
    (hwritten : t.written = s.written) (hclock : s.clock ≤ t.clock) (hmirror : t.mirror.Keyed)
    (hops : ∀ n o, t.ops n = some o → s.ops n = some o ∨ TodoOk o.bumped o.rest)
    (hfills : ∀ p f, t.fills p = some f → s.fills p = some f ∨ PhaseOk s f.phase) :
    t.WellFormed := by
  constructor
  · rw [hgraph]
    exact h.graph
  · exact hmirror
  · intro n o ho
    rcases hops n o ho with hold | hok
    · exact h.ops n o hold
    · exact hok
  · intro p f hf
    rcases hfills p f hf with hold | hok
    · exact (h.fills p f hold).mono hgraph hwritten hclock
    · exact hok.mono hgraph hwritten hclock

section Todo

variable {bumped : Bool} {statement : Statement} {rest : List Todo}

theorem todoOk_nil : TodoOk bumped [] := by
  refine ⟨?_, ?_, ?_, Or.inr (Or.inr ?_)⟩
  · intro rows hmem
    cases hmem
  · intro hmem
    cases hmem
  · simp
  · intro statement hmem
    cases hmem

theorem todoOk_unfill : TodoOk bumped [.unfill] := by
  refine ⟨?_, fun _ => rfl, ?_, Or.inr (Or.inr ?_)⟩
  · intro rows hmem
    cases mem_singleton.mp hmem
  · simp
  · intro statement hmem
    cases mem_singleton.mp hmem

theorem TodoOk.of_bump (h : TodoOk bumped (.bump :: rest)) : TodoOk true rest := by
  refine ⟨?_, ?_, ?_, Or.inl rfl⟩
  · exact fun rows hmem => h.nodup rows (mem_cons_of_mem _ hmem)
  · intro hmem
    cases h.unfill (mem_cons_of_mem _ hmem)
  · exact fun hmem => h.bump (mem_of_mem_tail hmem)

theorem TodoOk.of_write (h : TodoOk bumped (.write statement :: rest)) : TodoOk bumped rest := by
  refine ⟨?_, ?_, ?_, ?_⟩
  · exact fun rows hmem => h.nodup rows (mem_cons_of_mem _ hmem)
  · intro hmem
    cases h.unfill (mem_cons_of_mem _ hmem)
  · exact fun hmem => h.bump (mem_of_mem_tail hmem)
  · rcases h.bumped with hb | ⟨_, hcons⟩ | hkeeps
    · exact Or.inl hb
    · cases hcons
    · exact Or.inr (Or.inr fun st hmem => hkeeps st (mem_cons_of_mem _ hmem))

theorem TodoOk.only_writes (h : TodoOk bumped (.write statement :: rest)) :
    (rest.filterMap Todo.change?).isEmpty = rest.isEmpty ∧ rest.any Todo.isUnfill = false := by
  have hwrites : ∀ entry ∈ rest, ∃ st, entry = .write st := by
    intro entry hentry
    cases entry with
    | bump => exact absurd hentry h.bump
    | write st => exact ⟨st, rfl⟩
    | unfill => cases h.unfill (mem_cons_of_mem _ hentry)
  constructor
  · cases rest with
    | nil => rfl
    | cons entry =>
      obtain ⟨st, rfl⟩ := hwrites entry mem_cons_self
      rfl
  · rw [List.any_eq_false]
    intro entry hentry
    obtain ⟨st, rfl⟩ := hwrites entry hentry
    simp [Todo.isUnfill]

end Todo

end Invariant

section Operations

variable {P : Type u} [DecidableEq P] {s : System P}

variable {n : Nat} {o : Operation P} {rest : List Todo} {t : System P}

omit [DecidableEq P] in
theorem abs_advance {statement : Statement}
    (h : TodoOk o.bumped (.write statement :: rest)) (hrest : o.rest = .write statement :: rest)
    (m : DomainMirror) :
    abs ({ s with mirror := m }.advance n o rest) =
      (abs { s with mirror := m }).setOp n ((absOp o).next (rest.filterMap Todo.change?)) := by
  obtain ⟨hempty, hunfill⟩ := h.only_writes
  rw [advance, abs_setOp]
  congr 1
  unfold Op.next
  rw [hempty]
  split
  · rfl
  · simp [absOp, hrest, hunfill, Todo.isUnfill]

/-- **A write of the graph.** -/
theorem simulates_graphWrite {p : P} {call : Mutation} (h : s.WellFormed)
    (hok : CallOk s.graph call) (hstep : s.step (.graphWrite p call) = some t) :
    abs t = abs s ∨ Step (abs s) (abs t) := by
  have hspec := graphWrite_spec h.graph hok
  simp only [step] at hstep
  split at hstep
  · next hempty =>
    cases hstep
    left
    have hnil : (graphWrite s.graph call).2 = [] := isEmpty_iff.mp hempty
    have htruth : truthOf (graphWrite s.graph call).1 = truthOf s.graph := by
      funext k
      by_contra hne
      have hsome := hspec.covers k hne
      rw [hnil] at hsome
      cases hsome
    simp only [abs, htruth]
  · cases hstep
    right
    have hwithdraws : (graphWrite s.graph call).2.any Todo.isUnfill = false :=
      any_isUnfill_graphWrite s.graph call
    rw [abs_setOp]
    exact Step.write (absOp ⟨p, false, (graphWrite s.graph call).2⟩)
      (truthOf (graphWrite s.graph call).1) rfl hwithdraws hspec.covers hspec.settles

inductive NextStep (s : System P) (n : Nat) (o : Operation P) : System P → Prop
  | bump (rest : List Todo)
      (hrest : o.rest = .bump :: rest) :
      NextStep s n o ((s.bump o.process).setOp n (some { o with bumped := true, rest := rest }))
  | write (statement : Statement) (rest : List Todo)
      (hrest : o.rest = .write statement :: rest)
      (hthrough : (statement.run s.mirror).2 = true) :
      NextStep s n o ({ s with mirror := (statement.run s.mirror).1 }.advance n o rest)
  | refused (statement : Statement) (rest : List Todo)
      (hrest : o.rest = .write statement :: rest)
      (hrefused : (statement.run s.mirror).2 = false) :
      NextStep s n o ({ s with mirror := (statement.run s.mirror).1 }.withdraw n o)
  | unfill (rest : List Todo)
      (hrest : o.rest = .unfill :: rest) :
      NextStep s n o ({ s with mirror := s.mirror.unfill }.advance n o rest)

theorem next_cases (hstep : s.step (.next n) = some t) :
    ∃ o, s.ops n = some o ∧ NextStep s n o t := by
  simp only [step] at hstep
  cases ho : s.ops n with
  | none => simp [ho] at hstep
  | some o =>
    refine ⟨o, rfl, ?_⟩
    simp only [ho] at hstep
    split at hstep
    · cases hstep
    · next rest hrest =>
      cases hstep
      exact NextStep.bump rest hrest
    · next statement rest hrest =>
      cases hrun : statement.run s.mirror with
      | mk mirror through =>
        have hmirror : mirror = (statement.run s.mirror).1 := by rw [hrun]
        have hthrough : (statement.run s.mirror).2 = through := by rw [hrun]
        rw [hrun] at hstep
        cases through with
        | true =>
          cases hstep
          rw [hmirror]
          exact NextStep.write statement rest hrest hthrough
        | false =>
          cases hstep
          rw [hmirror]
          exact NextStep.refused statement rest hrest hthrough
    · next rest hrest =>
      cases hstep
      exact NextStep.unfill rest hrest

inductive FailStep (s : System P) (n : Nat) (o : Operation P) : System P → Prop
  | write (statement : Statement) (rest : List Todo)
      (hrest : o.rest = .write statement :: rest) :
      FailStep s n o (s.withdraw n o)
  | unfill (rest : List Todo)
      (hrest : o.rest = .unfill :: rest) :
      FailStep s n o (s.advance n o rest)

theorem mirrorFails_cases (hstep : s.step (.mirrorFails n) = some t) :
    ∃ o, s.ops n = some o ∧ FailStep s n o t := by
  simp only [step] at hstep
  cases ho : s.ops n with
  | none => simp [ho] at hstep
  | some o =>
    refine ⟨o, rfl, ?_⟩
    simp only [ho] at hstep
    split at hstep
    · next statement rest hrest =>
      cases hstep
      exact FailStep.write statement rest hrest
    · next rest hrest =>
      cases hstep
      exact FailStep.unfill rest hrest
    · cases hstep

omit [DecidableEq P] in
theorem statement_spec_of_ops {statement : Statement}
    (h : s.WellFormed) (ho : s.ops n = some o) (hrest : o.rest = .write statement :: rest) :
    StatementSpec s.mirror statement := by
  refine statement_spec h.mirror ?_
  intro rows heq
  refine (h.ops n o ho).nodup rows ?_
  rw [hrest, heq]
  exact mem_cons_self

omit [DecidableEq P] in
theorem unfill_last (h : s.WellFormed)
    (ho : s.ops n = some o) (hrest : o.rest = .unfill :: rest) : rest = [] := by
  have hok := h.ops n o ho
  rw [hrest] at hok
  simpa using hok.unfill mem_cons_self

/-- **The next thing of an operation.** -/
theorem simulates_next (h : s.WellFormed)
    (hadmitted : s.Admitted (.next n) t) (hstep : s.step (.next n) = some t) :
    Step (abs s) (abs t) := by
  obtain ⟨o, ho, hnext⟩ := next_cases hstep
  cases hnext with
  | bump rest hrest =>
    have hop : absOp { o with bumped := true, rest := rest } = { absOp o with bumped := true } := by
      simp [absOp, hrest, filterMap_cons, Todo.change?, Todo.isUnfill]
    rw [abs_setOp, abs_bump, map_some, hop]
    exact Step.bump n (absOp o) (abs_ops ho)
  | write statement rest hrest =>
    have hok := h.ops n o ho
    rw [hrest] at hok
    have hturn := hadmitted o statement rest ho hrest
    obtain ⟨_, hrows, _, hfilled⟩ := statement_spec_of_ops h ho hrest
    have hmirror : abs { s with mirror := (statement.run s.mirror).1 } =
        { abs s with copy := statement.change.apply (abs s).copy } := by
      simp only [abs, hrows, hfilled]
    have hchanges : (absOp o).rest = statement.change :: rest.filterMap Todo.change? := by
      simp [absOp, hrest, Todo.change?]
    rw [abs_advance hok hrest, hmirror]
    refine Step.apply n (absOp o) statement.change _ (abs_ops ho) hchanges ?_ ?_
    · intro k hk
      obtain ⟨o', ho', hsettled⟩ := hturn.latest k hk
      exact ⟨absOp o', abs_ops ho', hsettled⟩
    · intro k hk
      constructor
      · rcases hok.bumped with hb | ⟨_, hcons⟩ | hkeeps
        · exact hb
        · cases hcons
        · exact absurd hk (hkeeps statement mem_cons_self k)
      · intro p f hf hne r v hread
        obtain ⟨f', hf', rfl⟩ := fill_of_abs hf
        exact hturn.removes k hk p f' r hf' hne (readAt_of_partOf hread)
  | refused _ _ hrest hrefused =>
    have hthrough := (statement_spec_of_ops h ho hrest).through
    rw [hrefused] at hthrough
    cases hthrough
  | unfill _ hrest =>
    have hlast := unfill_last h ho hrest
    subst hlast
    have hop : (absOp o).withdraws = true := by
      simp [absOp, hrest, Todo.isUnfill]
    rw [advance, abs_setOp]
    exact Step.unpublish n (absOp o) (abs_ops ho) hop

/-- **A failing write of the mirror.** -/
theorem simulates_mirrorFails (h : s.WellFormed)
    (hadmitted : s.Admitted (.mirrorFails n) t) (hstep : s.step (.mirrorFails n) = some t) :
    Step (abs s) (abs t) := by
  obtain ⟨o, ho, hfail⟩ := mirrorFails_cases hstep
  obtain ⟨hwrite, hunfill⟩ := hadmitted o ho
  cases hfail with
  | write statement rest hrest =>
    rw [withdraw, abs_setOp, abs_bump]
    refine Step.fail n (absOp o) (abs s).copy (abs_ops ho) (fun _ _ => rfl) ?_
    intro p f hf
    obtain ⟨f', hf', rfl⟩ := fill_of_abs hf
    rcases hwrite statement rest hrest p f' hf' with hsame | hbegun
    · exact Or.inl hsame
    · right
      intro k _
      simp only [absFill, hbegun]
      rfl
  | unfill _ hrest =>
    have hlast := unfill_last h ho hrest
    subst hlast
    have hop : (absOp o).withdraws = true := by
      simp [absOp, hrest, Todo.isUnfill]
    rw [advance, abs_setOp]
    exact Step.unpublishFails n (absOp o) (abs_ops ho) hop (hunfill [] hrest)

end Operations

section Fills

variable {P : Type u} [DecidableEq P] {s : System P} {p : P} {f : TenantFill}

def RowKey.isObject : RowKey → Bool
  | .object _ => true
  | .edge _ => false

def RowKey.isEdge (k : RowKey) : Bool := !k.isObject

variable {phase : FillPhase}

theorem step_clear {m : DomainMirror} (region : RowKey → Bool)
    (hf : s.fills p = some f) (hunchecked : f.phase.isChecked = false)
    (hrows : ∀ k, rowsOf m k = if region k then none else rowsOf s.mirror k)
    (hfilled : m.filled = s.mirror.filled)
    (hpart : ∀ k, partOf phase k = if region k then .cleared s.clock else partOf f.phase k)
    (hchecked : phase.isChecked = false) :
    Step (abs s)
      (abs ({ s with mirror := m }.setFill p (some { f with phase := phase }))) := by
  have hmirror : abs { s with mirror := m } =
      { abs s with copy := fun k => if region k then none else (abs s).copy k } := by
    have hcopy : rowsOf m = fun k => if region k then none else rowsOf s.mirror k :=
      funext hrows
    simp only [abs, hcopy, hfilled]
  have hfill : absFill { f with phase := phase } = { absFill f with
      part := fun k => if region k then .cleared (abs s).clock else (absFill f).part k } := by
    have hparts : partOf phase = fun k => if region k then .cleared s.clock
        else partOf f.phase k := funext hpart
    simp only [absFill, hparts, hchecked, hunchecked]
    rfl
  rw [abs_setFill, hmirror, map_some, hfill]
  exact Step.clear p (absFill f) region (abs_fills hf) hunchecked

theorem step_read (region : RowKey → Bool) (value : RowKey → Option Cell)
    (hf : s.fills p = some f) (hunchecked : f.phase.isChecked = false)
    (hpart : ∀ k, partOf phase k =
      if region k then .read s.clock (value k) else partOf f.phase k)
    (hchecked : phase.isChecked = false)
    (hread : ∀ k, region k = true → ∃ since, partOf f.phase k = .cleared since ∧
      (value k = truthOf s.graph k ∨ value k = none) ∧
      (value k = none → truthOf s.graph k = none ∨ since ≤ s.written k)) :
    Step (abs s) (abs (s.setFill p (some { f with phase := phase }))) := by
  have hfill : absFill { f with phase := phase } = { absFill f with
      part := fun k => if region k then .read (abs s).clock (value k)
        else (absFill f).part k } := by
    have hparts : partOf phase = fun k => if region k then .read s.clock (value k)
        else partOf f.phase k := funext hpart
    simp only [absFill, hparts, hchecked, hunchecked]
    rfl
  rw [abs_setFill, map_some, hfill]
  exact Step.read p (absFill f) region value (abs_fills hf) hunchecked hread

theorem step_copy {m : DomainMirror} (region : RowKey → Bool)
    (hf : s.fills p = some f) (hunchecked : f.phase.isChecked = false) (hrows : ∀ k, rowsOf m k =
      if region k then (rowsOf s.mirror k).or (partOf f.phase k).value else rowsOf s.mirror k)
    (hfilled : m.filled = s.mirror.filled)
    (hpart : ∀ k, partOf phase k = if region k then .copied else partOf f.phase k)
    (hchecked : phase.isChecked = false)
    (hread : ∀ k, region k = true → ∃ r v, partOf f.phase k = .read r v) :
    Step (abs s)
      (abs ({ s with mirror := m }.setFill p (some { f with phase := phase }))) := by
  have hmirror : abs { s with mirror := m } = { abs s with
      copy := fun k => if region k then ((abs s).copy k).or ((absFill f).part k).value
        else (abs s).copy k } := by
    have hcopy : rowsOf m = fun k => if region k then
        (rowsOf s.mirror k).or (partOf f.phase k).value else rowsOf s.mirror k := funext hrows
    simp only [abs, hcopy, hfilled]
    rfl
  have hfill : absFill { f with phase := phase } = { absFill f with
      part := fun k => if region k then .copied else (absFill f).part k } := by
    have hparts : partOf phase = fun k => if region k then .copied else partOf f.phase k :=
      funext hpart
    simp only [absFill, hparts, hchecked, hunchecked]
  rw [abs_setFill, hmirror, map_some, hfill]
  exact Step.copy p (absFill f) region (abs_fills hf) hunchecked hread

omit [DecidableEq P] in
theorem find?_map_rowOfNode (hs : s.graph.Keyed) (hmodelled : Modelled s.graph f.typeIds)
    (id : String) :
    ((s.graph.listObjects f.typeIds).find? fun n => n.instanceId = id).map rowOfNode =
      truthOf s.graph (.object id) := by
  rw [find?_listObjects hs hmodelled]
  rfl

omit [DecidableEq P] in
/-- The edges read, by row: they are relations of the graph, and one that is missing was
written since the fill cleared the edges. -/
theorem edges_read {edgesAt : Nat} {ids : List String} (hanchored : Anchored s edgesAt ids)
    (hends : ∀ e ∈ s.graph.readEdges ids, isRelationType e.typeId = true →
      s.graph.HasObject e.src ∧ s.graph.HasObject e.dst)
    (row : EdgeRow) :
    let rows := ((s.graph.readEdges ids).filter fun e => isRelationType e.typeId).map fun e =>
      edgeRow e.typeId e.src e.dst e.relation
    (row ∈ rows → s.graph.relates row = true) ∧
      (row ∉ rows → s.graph.relates row = true → edgesAt ≤ s.written (.edge row)) := by
  intro rows
  have hrows : row ∈ rows ↔ ∃ e ∈ s.graph.readEdges ids, isRelationType e.typeId = true ∧
      edgeRow e.typeId e.src e.dst e.relation = row := by
    simp only [rows, List.mem_map, mem_filter, and_assoc]
  rw [hrows]
  constructor
  · rintro ⟨e, he, htype, rfl⟩
    have hedge : e ∈ s.graph.edges.values := mem_of_mem_filter he
    exact relates_iff.mpr ⟨e, ⟨hedge, htype⟩, rfl, hends e he htype⟩
  · intro hmissing hrelates
    obtain ⟨e, ⟨hedge, htype⟩, rfl, hsrc, hdst⟩ := relates_iff.mp hrelates
    by_contra hold
    have hid := hanchored.ends e ⟨hedge, htype⟩ (Nat.lt_of_not_le hold) hsrc hdst
    refine hmissing ⟨e, mem_filter.mpr ⟨hedge, ?_⟩, htype, rfl⟩
    simpa using hid

/-- **A step of a fill.** -/
theorem simulates_fillStep (h : s.WellFormed) (hf : s.fills p = some f)
    (hreadable : Readable s.graph f) : Step (abs s) (abs (s.fillStep p f)) := by
  have hok := h.fills p f hf
  obtain ⟨typeIds, generation, phase⟩ := f
  cases phase with
  | begun =>
    refine step_clear RowKey.isObject hf rfl ?_ rfl ?_ rfl
    · rintro (id | row) <;> rfl
    · rintro (id | row) <;> rfl
  | objectsCleared =>
    refine step_clear RowKey.isEdge hf rfl ?_ rfl ?_ rfl
    · rintro (id | row)
      · rfl
      · simp [rowsOf, RowKey.isEdge, RowKey.isObject]
    · rintro (id | row) <;> rfl
  | cleared objectsAt =>
    have hlisted := find?_map_rowOfNode h.graph hreadable
    refine step_read RowKey.isObject (truthOf s.graph) hf rfl ?_ rfl ?_
    · rintro (id | row)
      · simp only [partOf, RowKey.isObject, if_true]
        rw [← hlisted]
      · rfl
    · rintro (id | row) hregion
      · exact ⟨objectsAt, rfl, Or.inl rfl, Or.inl⟩
      · cases hregion
  | listed _ readAt objects =>
    have hwrite := writeObjects_keep (m := s.mirror)
      (objects.map fun o => rowOf o.typeId o.instanceId o.value)
    refine step_copy RowKey.isObject hf rfl ?_ ?_ ?_ rfl ?_
    · rintro (id | row)
      · rw [hwrite]
        simp only [rowsOf, RowKey.isObject, if_true,
          get?_foldl_insertObject_keep, find?_map, map_or]
        congr 1
        simp only [partOf, Part.value, Option.map_map]
        rfl
      · rw [hwrite]
        rfl
    · rw [hwrite]
    · rintro (id | row) <;> rfl
    · rintro (id | row) hregion
      · exact ⟨readAt, _, rfl⟩
      · cases hregion
  | objectsWritten edgesAt ids =>
    have hedges := edges_read hok hreadable
    refine step_read RowKey.isEdge (fun
      | .object _ => none
      | .edge row => if row ∈ ((s.graph.readEdges ids).filter fun e =>
        isRelationType e.typeId).map fun e =>
          edgeRow e.typeId e.src e.dst e.relation then some .edge else none) hf rfl ?_ rfl ?_
    · rintro (id | row) <;> rfl
    · rintro (id | row) hregion
      · cases hregion
      · obtain ⟨hthere, hmissing⟩ := hedges row
        refine ⟨edgesAt, rfl, ?_, ?_⟩
        · dsimp only
          split
          · next hrow => exact Or.inl (truthOf_edge_of_relates (hthere hrow)).symm
          · exact Or.inr rfl
        · intro hnone
          have hrow : row ∉ ((s.graph.readEdges ids).filter fun e =>
              isRelationType e.typeId).map fun e =>
                edgeRow e.typeId e.src e.dst e.relation := by
            intro hrow
            simp [hrow] at hnone
          by_cases hrelates : s.graph.relates row = true
          · exact Or.inr (hmissing hrow hrelates)
          · left
            simp [truthOf, hrelates]
  | edgesRead readAt =>
    refine step_copy RowKey.isEdge hf rfl ?_ rfl ?_ rfl ?_
    · rintro (id | row)
      · rfl
      · simp only [rowsOf, mem_writeEdges, RowKey.isEdge, RowKey.isObject,
          Bool.not_false, if_true, partOf, Part.value]
        by_cases hthere : row ∈ s.mirror.edges <;> simp [hthere]
    · rintro (id | row) <;> rfl
    · rintro (id | row) hregion
      · cases hregion
      · exact ⟨readAt, _, rfl⟩
  | edgesWritten =>
    simp only [fillStep]
    split
    · next hgeneration =>
      rw [abs_setFill]
      exact Step.check p (absFill ⟨typeIds, generation, .edgesWritten⟩) (abs_fills hf)
        (fun _ => rfl) hgeneration
    · rw [abs_setFill]
      exact Step.abort p
  | checked =>
    simp only [fillStep]
    rw [abs_setFill]
    exact Step.publish p (absFill ⟨typeIds, generation, .checked⟩) (abs_fills hf) rfl

end Fills

section Preservation

variable {P : Type u} [DecidableEq P] {s t : System P}

omit [DecidableEq P] in
theorem ops_setOp_cases {n m : Nat} {o' : Option (Operation P)} {o : Operation P}
    (ho : (s.setOp n o').ops m = some o) : s.ops m = some o ∨ o' = some o := by
  simp only [setOp, update_apply] at ho
  split at ho
  · exact Or.inr ho
  · exact Or.inl ho

theorem fills_setFill_cases {p q : P} {f' : Option TenantFill} {f : TenantFill}
    (hf : (s.setFill p f').fills q = some f) : s.fills q = some f ∨ f' = some f := by
  simp only [setFill, update_apply] at hf
  split at hf
  · exact Or.inr hf
  · exact Or.inl hf

variable {n : Nat}

omit [DecidableEq P] in
theorem wellFormed_setOp {o : Option (Operation P)} (h : s.WellFormed)
    (hok : ∀ o', o = some o' → TodoOk o'.bumped o'.rest) : (s.setOp n o).WellFormed := by
  refine wellFormed_of_same h rfl rfl (Nat.le_refl _) h.mirror ?_ fun _ _ => Or.inl
  intro m o' ho'
  exact (ops_setOp_cases ho').imp_right (hok o')

theorem wellFormed_setFill {p : P} {f : Option TenantFill} (h : s.WellFormed)
    (hok : ∀ f', f = some f' → PhaseOk s f'.phase) : (s.setFill p f).WellFormed := by
  refine wellFormed_of_same h rfl rfl (Nat.le_refl _) h.mirror (fun _ _ => Or.inl) ?_
  intro q f' hf'
  exact (fills_setFill_cases hf').imp_right (hok f')

omit [DecidableEq P] in
theorem wellFormed_mirror {m : DomainMirror} (h : s.WellFormed) (hm : m.Keyed) :
    ({ s with mirror := m } : System P).WellFormed :=
  wellFormed_of_same h rfl rfl (Nat.le_refl _) hm (fun _ _ => Or.inl) fun _ _ => Or.inl

theorem wellFormed_bump (h : s.WellFormed) (p : P) : (s.bump p).WellFormed :=
  wellFormed_of_same h rfl rfl (Nat.le_refl _) h.mirror (fun _ _ => Or.inl) fun _ _ => Or.inl

theorem wellFormed_withdraw (h : s.WellFormed) (n : Nat) (o : Operation P) :
    (s.withdraw n o).WellFormed := by
  refine wellFormed_setOp (wellFormed_bump h o.process) ?_
  intro o' ho'
  cases ho'
  exact todoOk_unfill

omit [DecidableEq P] in
theorem wellFormed_advance {o : Operation P} {rest : List Todo} (h : s.WellFormed)
    (hok : TodoOk o.bumped rest) : (s.advance n o rest).WellFormed := by
  refine wellFormed_setOp h ?_
  intro o' ho'
  split at ho'
  · cases ho'
  · cases ho'
    exact hok

omit [DecidableEq P] in
/-- What is anchored stays so: a relation that is new, or whose ends are, is written
now. -/
theorem anchored_graphWrite
    {call : Mutation} {edgesAt : Nat} {ids : List String} {ops : Nat → Option (Operation P)}
    (h : Anchored s edgesAt ids) (hg : s.graph.Keyed) (hok : CallOk s.graph call) :
    Anchored { s with
      graph := (graphWrite s.graph call).1
      clock := s.clock + 1
      written := fun k => if (settled (graphWrite s.graph call).2 k).isSome then s.clock
        else s.written k
      ops := ops } edgesAt ids := by
  have hspec := graphWrite_spec hg hok
  refine ⟨Nat.le_succ_of_le h.past, ?_⟩
  intro e he hold hsrc hdst
  dsimp only at he hold hsrc hdst
  split at hold
  · exact absurd h.past (Nat.not_le_of_lt hold)
  · next hunset =>
    rcases hspec.relations e he with hset | ⟨hbefore, hsrc', hdst'⟩
    · exact absurd hset hunset
    · exact h.ends e hbefore hold (hsrc' hsrc) (hdst' hdst)

theorem wellFormed_graphWrite {p : P} {call : Mutation} (h : s.WellFormed)
    (hok : CallOk s.graph call) (hstep : s.step (.graphWrite p call) = some t) : t.WellFormed := by
  have hspec := graphWrite_spec h.graph hok
  simp only [step] at hstep
  split at hstep
  · next hempty =>
    cases hstep
    have hnil : (graphWrite s.graph call).2 = [] := isEmpty_iff.mp hempty
    refine ⟨hspec.keyed, h.mirror, h.ops, ?_⟩
    intro q f hf
    refine (h.fills q f hf).of_anchored (Nat.le_refl _) ?_
    intro edgesAt ids hids
    refine ⟨hids.past, ?_⟩
    intro e he hold hsrc hdst
    rcases hspec.relations e he with hset | ⟨hbefore, hsrc', hdst'⟩
    · rw [hnil] at hset
      cases hset
    · exact hids.ends e hbefore hold (hsrc' hsrc) (hdst' hdst)
  · cases hstep
    refine ⟨hspec.keyed, h.mirror, ?_, ?_⟩
    · intro m o ho
      rcases ops_setOp_cases ho with hold | hnew
      · exact h.ops m o hold
      · cases hnew
        exact hspec.ok
    · intro q f hf
      refine (h.fills q f hf).of_anchored (Nat.le_succ _) ?_
      exact fun edgesAt ids hids => anchored_graphWrite hids h.graph hok

theorem wellFormed_next (h : s.WellFormed) (hstep : s.step (.next n) = some t) :
    t.WellFormed := by
  obtain ⟨o, ho, hnext⟩ := next_cases hstep
  have hok := h.ops n o ho
  cases hnext with
  | bump _ hrest =>
    refine wellFormed_setOp (wellFormed_bump h o.process) ?_
    intro o' ho'
    cases ho'
    rw [hrest] at hok
    exact hok.of_bump
  | write _ _ hrest =>
    have hspec := statement_spec_of_ops h ho hrest
    rw [hrest] at hok
    exact wellFormed_advance (wellFormed_mirror h hspec.keyed) hok.of_write
  | refused _ _ hrest =>
    have hspec := statement_spec_of_ops h ho hrest
    exact wellFormed_withdraw (wellFormed_mirror h hspec.keyed) n o
  | unfill _ hrest =>
    have hlast := unfill_last h ho hrest
    subst hlast
    have hm : s.mirror.unfill.Keyed := h.mirror
    exact wellFormed_advance (wellFormed_mirror h hm) todoOk_nil

theorem wellFormed_mirrorFails (h : s.WellFormed)
    (hstep : s.step (.mirrorFails n) = some t) : t.WellFormed := by
  obtain ⟨o, ho, hfail⟩ := mirrorFails_cases hstep
  cases hfail with
  | write => exact wellFormed_withdraw h n o
  | unfill _ hrest =>
    have hlast := unfill_last h ho hrest
    subst hlast
    exact wellFormed_advance h todoOk_nil

theorem keyed_writeObjects_keep {m : DomainMirror} {rows : List ObjectRow} (hm : m.Keyed) :
    (m.writeObjects rows false).1.Keyed := by
  rw [writeObjects_keep]
  intro id row hrow
  change (rows.foldl (insertObject false) m.objects).get? id = some row at hrow
  rw [get?_foldl_insertObject_keep, or_eq_some_iff] at hrow
  rcases hrow with hold | ⟨_, hfound⟩
  · exact hm id row hold
  · simpa using find?_some hfound

theorem wellFormed_fillStep {p : P} {f : TenantFill} (h : s.WellFormed) (hf : s.fills p = some f)
    (hreadable : Readable s.graph f) : (s.fillStep p f).WellFormed := by
  have hok := h.fills p f hf
  have hset : ∀ {u : System P} {phase : FillPhase}, u.WellFormed → PhaseOk u phase →
      (u.setFill p (some { f with phase := phase })).WellFormed := by
    intro u phase hu hphase
    refine wellFormed_setFill hu ?_
    intro f' hf'
    cases hf'
    exact hphase
  have hnone : ∀ {u : System P}, u.WellFormed → (u.setFill p none).WellFormed := by
    intro u hu
    refine wellFormed_setFill hu ?_
    intro f' hf'
    cases hf'
  obtain ⟨typeIds, generation, phase⟩ := f
  cases phase with
  | begun =>
    have hm : DomainMirror.Keyed { s.mirror with objects := .empty } := by
      intro id row hrow
      cases hrow
    exact hset (wellFormed_mirror h hm) trivial
  | objectsCleared =>
    have hm : DomainMirror.Keyed { s.mirror with edges := [] } := h.mirror
    exact hset (wellFormed_mirror h hm) (Nat.le_refl _)
  | cleared =>
    refine hset h ⟨hok, ?_⟩
    intro e _ _ hsrc _
    exact Or.inl (mem_ids_listObjects h.graph hreadable hsrc)
  | listed edgesAt _ objects =>
    have hm : (s.mirror.writeObjects (objects.map fun o =>
        rowOf o.typeId o.instanceId o.value) false).1.Keyed := keyed_writeObjects_keep h.mirror
    have hphase : PhaseOk { s with mirror := (s.mirror.writeObjects (objects.map fun o =>
        rowOf o.typeId o.instanceId o.value) false).1 }
        (.objectsWritten edgesAt (objects.map ObjectNode.instanceId)) := ⟨hok.past, hok.ends⟩
    exact hset (wellFormed_mirror h hm) hphase
  | objectsWritten => exact hset h trivial
  | edgesRead _ rows =>
    have hm : (s.mirror.writeEdges rows).Keyed := h.mirror
    exact hset (wellFormed_mirror h hm) trivial
  | edgesWritten =>
    simp only [fillStep]
    split
    · exact hset h trivial
    · exact hnone h
  | checked =>
    have hm : s.mirror.markFilled.Keyed := h.mirror
    exact hnone (wellFormed_mirror h hm)

/-- A step of the store is one of a copy that is written after the truth, and keeps it
well. -/
theorem step_spec {a : Action P} (h : s.WellFormed) (hstep : s.step a = some t)
    (hadmitted : s.Admitted a t) : (abs t = abs s ∨ Step (abs s) (abs t)) ∧ t.WellFormed := by
  cases a with
  | graphWrite =>
    exact ⟨simulates_graphWrite h hadmitted hstep, wellFormed_graphWrite h hadmitted hstep⟩
  | graphFails p =>
    cases hstep
    have hlater : ({ s with clock := s.clock + 1 } : System P).WellFormed :=
      wellFormed_of_same h rfl rfl (Nat.le_succ _) h.mirror (fun _ _ => Or.inl)
        fun _ _ => Or.inl
    refine ⟨Or.inr ?_, wellFormed_withdraw hlater _ _⟩
    rw [withdraw, abs_setOp, abs_bump]
    exact Step.withdraw p
  | next => exact ⟨Or.inr (simulates_next h hadmitted hstep), wellFormed_next h hstep⟩
  | mirrorFails =>
    exact ⟨Or.inr (simulates_mirrorFails h hadmitted hstep), wellFormed_mirrorFails h hstep⟩
  | fillBegins p =>
    obtain ⟨hnofills, hunfilled⟩ := hadmitted
    simp only [step, hnofills] at hstep
    cases hstep
    constructor
    · right
      rw [abs_setFill]
      refine Step.begin p ?_ hunfilled
      intro q
      simp only [abs, hnofills, map_none]
    · refine wellFormed_setFill h ?_
      intro f' hf'
      cases hf'
      trivial
  | fillNext p =>
    simp only [step] at hstep
    cases hf : s.fills p with
    | none => simp [hf] at hstep
    | some f =>
      simp only [hf, some.injEq] at hstep
      have hreadable := hadmitted f hf
      rw [← hstep]
      exact ⟨Or.inr (simulates_fillStep h hf hreadable), wellFormed_fillStep h hf hreadable⟩
  | fillFails p =>
    simp only [step] at hstep
    cases hf : s.fills p with
    | none => simp [hf] at hstep
    | some =>
      simp only [hf, some.injEq] at hstep
      rw [← hstep]
      constructor
      · right
        rw [abs_setFill]
        exact Step.abort p
      · refine wellFormed_setFill h ?_
        intro f' hf'
        cases hf'

end Preservation

section Truth

variable {P : Type u} [DecidableEq P]

/-- Nothing is under way. -/
structure System.Idle (s : System P) : Prop where
  ops : ∀ n, s.ops n = none
  fills : ∀ p, s.fills p = none

/-- The rows are the live objects of the graph, and the edges the relations between
them. -/
structure TellsTruth (s : System P) : Prop where
  objects : ∀ id, s.mirror.objects.get? id =
    (s.graph.liveObject? id).map fun n => rowOf n.typeId n.instanceId n.value
  edges : ∀ row, row ∈ s.mirror.edges ↔ ∃ e, s.graph.HasRelation e ∧
    edgeRow e.typeId e.src e.dst e.relation = row ∧
    s.graph.HasObject e.src ∧ s.graph.HasObject e.dst

/-- The store as it starts: nothing is under way, and nothing is filled. -/
structure System.Started (s : System P) : Prop extends s.Idle where
  unfilled : s.mirror.filled = false
  written : ∀ k, s.written k < s.clock
  graph : s.graph.Keyed
  mirror : s.mirror.Keyed

/-- What every reachable state keeps. -/
structure System.Inv (s : System P) : Prop where
  wellFormed : s.WellFormed
  inv : WriteThrough.Inv (abs s)

omit [DecidableEq P] in
theorem inv_of_started {s : System P} (h : s.Started) : s.Inv := by
  constructor
  · refine ⟨h.graph, h.mirror, ?_, ?_⟩
    · intro n o ho
      rw [h.ops] at ho
      cases ho
    · intro p f hf
      rw [h.fills] at hf
      cases hf
  · refine inv_start h.written ?_ ?_ h.unfilled
    · intro n
      simp only [abs, h.ops, map_none]
    · intro p
      simp only [abs, h.fills, map_none]

theorem step_inv {s t : System P} {a : Action P} (h : s.Inv) (hstep : s.step a = some t)
    (hadmitted : s.Admitted a t) : t.Inv := by
  obtain ⟨hsimulates, hwell⟩ := step_spec h.wellFormed hstep hadmitted
  refine ⟨hwell, ?_⟩
  rcases hsimulates with hsame | hmoves
  · rw [hsame]
    exact h.inv
  · exact hmoves.inv h.inv

omit [DecidableEq P] in
theorem tellsTruth_of_inv {s : System P} (h : s.Inv) (hfilled : s.mirror.filled = true)
    (hidle : ∀ n, s.ops n = none) : TellsTruth s := by
  have hidle' : ∀ n, (abs s).ops n = none := by
    intro n
    simp only [abs, hidle, map_none]
  have hcopy : ∀ k, rowsOf s.mirror k = truthOf s.graph k := h.inv.copy_eq hfilled hidle'
  constructor
  · intro id
    have hrow := hcopy (.object id)
    have hinj : Function.Injective Cell.object := fun _ _ heq => Cell.object.inj heq
    refine map_injective hinj ?_
    rw [Option.map_map]
    exact hrow
  · intro row
    have hrow := hcopy (.edge row)
    rw [← relates_iff]
    simp only [rowsOf, truthOf] at hrow
    split at hrow
    · next hmem =>
      split at hrow
      · next hrelates => exact ⟨fun _ => hrelates, fun _ => hmem⟩
      · cases hrow
    · next hmem =>
      split at hrow
      · cases hrow
      · next hrelates => exact ⟨fun h => absurd h hmem, fun h => absurd h hrelates⟩

end Truth

section LateWrite

open JsonText

private def teamType : String := "gts.cf.studio.domain.team.v1~"

private def named (name : String) : Mutation :=
  .upsertNodes [⟨none, teamType, "a", .obj [("name", .str name)]⟩]

private def nothing : System Unit :=
  ⟨.empty, ⟨.empty, [], false⟩, fun _ => 0, fun _ => none, fun _ => none, 1, fun _ => 0⟩

private theorem started_nothing : nothing.Started := by
  refine ⟨⟨fun _ => rfl, fun _ => rfl⟩, rfl, fun _ => Nat.zero_lt_one, ⟨?_, ?_⟩, ?_⟩
  · intro id n hget
    cases hget
  · intro k e hget
    cases hget
  · intro id row hget
    cases hget

private def filling : List (Action Unit) :=
  .fillBegins () [teamType] :: List.replicate 8 (.fillNext ())

private def mirroring (n : Nat) : List (Action Unit) :=
  List.replicate 3 (.next n)

private theorem admitted_fillNext {s : System Unit} {f : TenantFill} {rest : List (Action Unit)}
    (hf : s.fills () = some f) (hreadable : Readable s.graph f)
    (hrest : EveryStep step System.Admitted (s.fillStep () f) rest) :
    EveryStep step System.Admitted s (.fillNext () :: rest) := by
  have hstep : s.step (.fillNext ()) = some (s.fillStep () f) := by
    simp only [step, hf]
  refine (everyStep_cons_iff hstep).mpr ⟨?_, hrest⟩
  intro f' hf'
  rw [hf] at hf'
  cases hf'
  exact hreadable

private theorem inTurn_of_nothing
    {s : System Unit} {n : Nat} {o : Operation Unit} {statement : Statement}
    (h : ∀ k, statement.change k = none) : InTurn s n o statement := by
  constructor
  · intro k hk
    rw [h k] at hk
    cases hk
  · intro k hk
    rw [h k] at hk
    cases hk

private theorem admitted_naming :
    EveryStep step System.Admitted nothing
      (filling ++ .graphWrite () (named "new") :: mirroring 1) := by
  rintro t ⟨⟩
  refine ⟨⟨fun _ => rfl, rfl⟩, ?_⟩
  refine admitted_fillNext rfl trivial ?_
  refine admitted_fillNext rfl trivial ?_
  refine admitted_fillNext rfl ⟨by decide, fun id n hn => by cases hn⟩ ?_
  refine admitted_fillNext rfl trivial ?_
  refine admitted_fillNext rfl (fun e he => by cases he) ?_
  refine admitted_fillNext rfl trivial ?_
  refine admitted_fillNext rfl trivial ?_
  refine admitted_fillNext rfl trivial ?_
  rintro t ⟨⟩
  refine ⟨⟨⟨?_, nodup_singleton _, Or.inr (Nat.le_refl 1)⟩, ?_⟩, ?_⟩
  · intro n hn
    rw [mem_singleton.mp hn]
    decide
  · intro n _ _ _ e he
    cases he.1
  rintro t ⟨⟩
  refine ⟨?_, ?_⟩
  · rintro o statement rest ⟨⟩ ⟨⟩
    constructor
    · rintro (id | row) hk
      · have hid : id = "a" := by
          by_contra hne
          have hnone : ¬ "a" = id := fun h => hne h.symm
          simp [Statement.change, hnone, rowOf] at hk
        subst hid
        exact ⟨_, rfl, rfl⟩
      · cases hk
    · rintro k _ p f r ⟨⟩
  rintro t ⟨⟩
  refine ⟨?_, ?_⟩
  · rintro o statement rest ⟨⟩ ⟨⟩
    exact inTurn_of_nothing fun k => by cases k <;> rfl
  rintro t ⟨⟩
  refine ⟨?_, trivial⟩
  rintro o statement rest ⟨⟩ ⟨⟩
  exact inTurn_of_nothing fun k => by cases k <;> rfl

end LateWrite

end ReadModel
end StudioWeb
