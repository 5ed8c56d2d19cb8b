import StudioWeb.DomainModel.ObjectWrites

/-!
# Batches of changes

`mutate.rs`: a batch is checked before anything is written and then applied in order.  An
upsert can give the object's id a name, `as: "r1"`, that later operations use as `$r1`.
Every operation plans its one write and makes it last, so one that fails has written
nothing.  A checked relation is read off the store; how is left open.
-/

namespace StudioWeb
namespace DomainModel
namespace Mutate

open JsonText ReadModel
open Validate (Violation)

def MAX_OPERATIONS : Nat := 500

inductive Operation where
  | upsert (typeRef key : String) (projectId : Option String) (value : List (String × Json))
      (ifAbsent : Bool) (named : Option String)
  | patch (id : String) (set : List (String × Json)) (unset : List String)
  | delete (id : String)
  | link (relation source target : String)
  | unlink (relation source target : String)

inductive MutateError where
  /-- Nothing was written. -/
  | invalid (message : String)
  /-- Operations before `index` were applied; this one failed. -/
  | failed (index applied : Nat) (cause : String)

/-- What one operation did. -/
inductive Result where
  | upsert (id typeId : String) (violations : List Violation)
  | patch (id : String) (violations : List Violation)
  | delete (id : String)
  | link (relation verb source target : String)
  | unlink (source target : String) (removed : Bool)

structure DeclaredRelation where
  name : String
  verb : String

/-- What an operation finds, and what relates two objects of a store. -/
structure Surroundings where
  context : CallContext
  checkedRelation : Graph → String → String → String → Except String DeclaredRelation

def names : Operation → List String
  | .upsert .. => []
  | .patch id _ _ => [id]
  | .delete id => [id]
  | .link _ source target => [source, target]
  | .unlink _ source target => [source, target]

/-- The name an upsert gives its object. -/
def given : Operation → Option String
  | .upsert _ _ _ _ _ named => named
  | _ => none

/-- `strip_prefix(NAMED)`. -/
def nameIn (id : String) : Option String :=
  match id.toList with
  | '$' :: rest => some (String.ofList rest)
  | _ => none

def edgeTypeId (verb : String) : String :=
  "gts.cf.studio.domainrel." ++ String.ofList (sanitizeLeaf verb.toList) ++ ".v1~"

section Run

variable (instanceId : String → String → String) (isUuid : String → Bool)
  (validate : ValidateMode) (env : Nat → Surroundings)

def invalidAt {α : Type} (i : Nat) (why : String) : Except MutateError α :=
  .error (.invalid s!"operation {i}{why}")

def checkOne (i : Nat) (known : List String) (op : Operation) :
    Except MutateError (List String) :=
  match (names op).find? fun id => (nameIn id).any fun n => n ∉ known with
  | some name => invalidAt i s!" names `{name}`, which no earlier upsert gave with `as`"
  | none =>
    match op with
    | .upsert typeRef key projectId _ _ named =>
      if Rust.trim key.toList = [] then
        invalidAt i ": `key` is empty"
      else if projectId.any fun p => !isUuid (String.ofList (Rust.trim p.toList)) then
        invalidAt i (": `project_id` is a project's tenant id, not `" ++ projectId.getD "" ++ "`")
      else
        match (env i).context.model with
        | .error cause => .error (.failed i 0 cause)
        | .ok o =>
          if (o.resolveEntityId typeRef).isNone then
            invalidAt i s!": unknown domain type `{typeRef}`"
          else
            match named with
            | none => .ok known
            | some a =>
              if a ∈ known then invalidAt i s!": `as: {a}` is already given"
              else .ok (known ++ [a])
    | _ => .ok known

def checkFrom : Nat → List String → List Operation → Except MutateError (List String)
  | _, known, [] => .ok known
  | i, known, op :: rest =>
    match checkOne isUuid env i known op with
    | .error e => .error e
    | .ok known => checkFrom (i + 1) known rest

def check (ops : List Operation) : Except MutateError (List String) :=
  if ops = [] then
    .error (.invalid "`operations` is empty")
  else if MAX_OPERATIONS < ops.length then
    .error (.invalid s!"a batch carries at most {MAX_OPERATIONS} operations, not {ops.length}")
  else
    checkFrom isUuid env 0 [] ops

def resolve (id : String) (aliases : List (String × String)) : String :=
  ((nameIn id).bind fun n => aliases.lookup n).getD id

/-- The operation with the ids that its names stand for. -/
def resolved (aliases : List (String × String)) : Operation → Operation
  | .patch id set unset => .patch (resolve id aliases) set unset
  | .delete id => .delete (resolve id aliases)
  | .link relation source target =>
    .link relation (resolve source aliases) (resolve target aliases)
  | .unlink relation source target =>
    .unlink relation (resolve source aliases) (resolve target aliases)
  | op => op

/-- One operation, its names resolved. -/
def perform (s : Surroundings) (g : Graph) : Operation → Graph × Except String Result
  | .upsert typeRef key projectId value ifAbsent _ =>
    let (t, made) := createObject instanceId s.context g
      ⟨typeRef, key, projectId, ifAbsent, validate, .obj value⟩
    (t, made.map fun o => .upsert o.instanceId o.typeId o.report.violations)
  | .patch id set unset =>
    let (t, made) := patchObject s.context g id set unset validate
    (t, made.map fun o => .patch o.instanceId o.report.violations)
  | .delete id =>
    let (t, done) := deleteObject s.context g id
    (t, done.map fun _ => .delete id)
  | .link relation source target =>
    match s.checkedRelation g relation source target with
    | .error e => (g, .error e)
    | .ok declared =>
      match s.context.ensureTypes with
      | .error e => (g, .error e)
      | .ok _ =>
        (g.createRelation (edgeTypeId declared.verb) source target (some declared.name),
          .ok (.link declared.name declared.verb source target))
  | .unlink relation source target =>
    match s.checkedRelation g relation source target with
    | .error e => (g, .error e)
    | .ok declared =>
      let (t, removed) :=
        g.deleteRelation (edgeTypeId declared.verb) source target (some declared.name)
      (t, .ok (.unlink source target removed))

/-- `aliases` after an operation. -/
def nameGiven (op : Operation) (result : Result) (aliases : List (String × String)) :
    List (String × String) :=
  match given op, result with
  | some a, .upsert id _ _ => (a, id) :: aliases
  | _, _ => aliases

/-- Operations in order, the store they leave, and each with its names resolved and what it
did. -/
def applyFrom : Nat → List (String × String) → Graph → List Operation →
    Graph × Except MutateError Unit × List (Operation × Result)
  | _, _, g, [] => (g, .ok (), [])
  | i, aliases, g, op :: rest =>
    match perform instanceId validate (env i) g (resolved aliases op) with
    | (t, .error cause) => (t, .error (.failed i i cause), [])
    | (t, .ok result) =>
      let (u, answer, done) := applyFrom (i + 1) (nameGiven op result aliases) t rest
      (u, answer, (resolved aliases op, result) :: done)

/-- Check the batch, then apply it in order. -/
def run (g : Graph) (ops : List Operation) :
    Graph × Except MutateError Unit × List (Operation × Result) :=
  match check isUuid env ops with
  | .error e => (g, .error e, [])
  | .ok _ => applyFrom instanceId validate env 0 [] g ops

/-- The batch is refused whole; or its store is what the operations it says it applied leave
by themselves, those before the one that failed, or none where the check could not read the
model for it; or all of it was applied. -/
def StopsWhereItSays (g : Graph) (ops : List Operation) : Prop :=
  match run instanceId isUuid validate env g ops with
  | (t, .error (.invalid _), _) => t = g
  | (t, .error (.failed index applied cause), done) =>
    done.length = applied ∧ t = (run instanceId isUuid validate env g (ops.take applied)).1 ∧
      (applied = index ∨ applied = 0 ∧ (env index).context.model = .error cause)
  | (_, .ok (), done) => done.length = ops.length

/-- The one upsert before `j` that gave the name made the id. -/
def MadeBefore (ops : List Operation) (done : List (Operation × Result)) (j : Nat)
    (n id : String) : Prop :=
  ∃ k < j, (ops[k]?.bind given = some n ∧ ∀ l < j, ops[l]?.bind given = some n → l = k) ∧
    ∃ q typeId violations, done[k]? = some (q, Result.upsert id typeId violations)

/-- What was applied at `j` is the operation there, every name of it an id so made. -/
def Stands (ops : List Operation) (done : List (Operation × Result)) (j : Nat)
    (p : Operation) : Prop :=
  ∃ op aliases, ops[j]? = some op ∧ p = resolved aliases op ∧
    ∀ id ∈ names op, ∀ n, nameIn id = some n → MadeBefore ops done j n (resolve id aliases)

/-- Every name of an applied operation stands for an id that the batch made. -/
def NamesStandForIds (g : Graph) (ops : List Operation) : Prop :=
  ∀ j p result, (run instanceId isUuid validate env g ops).2.2[j]? = some (p, result) →
    Stands ops (run instanceId isUuid validate env g ops).2.2 j p

end Run

section Facts

variable {instanceId : String → String → String} {isUuid : String → Bool}
  {validate : ValidateMode} {env : Nat → Surroundings} {g t : Graph} {op : Operation}
  {ops rest : List Operation} {aliases : List (String × String)} {known after : List String}
  {i : Nat}

theorem perform_failed {s : Surroundings} {e : String}
    (h : perform instanceId validate s g op = (t, .error e)) : t = g := by
  cases op with
  | upsert typeRef key projectId value ifAbsent =>
    cases hcall : createObject instanceId s.context g
        ⟨typeRef, key, projectId, ifAbsent, validate, .obj value⟩ with
    | mk u made =>
      simp only [perform, hcall] at h
      cases made with
      | ok => cases h
      | error =>
        cases h
        exact createObject_failed hcall
  | patch id set unset =>
    cases hcall : patchObject s.context g id set unset validate with
    | mk _ made =>
      simp only [perform, hcall] at h
      cases made with
      | ok => cases h
      | error =>
        cases h
        exact patchObject_failed hcall
  | delete id =>
    cases hcall : deleteObject s.context g id with
    | mk _ done =>
      simp only [perform, hcall] at h
      cases done with
      | ok => cases h
      | error =>
        cases h
        exact deleteObject_failed hcall
  | link =>
    simp only [perform] at h
    split at h
    · exact (Prod.mk.inj h).1.symm
    · split at h
      · exact (Prod.mk.inj h).1.symm
      · cases h
  | unlink =>
    simp only [perform] at h
    split at h
    · exact (Prod.mk.inj h).1.symm
    · cases h

/-- Operations that are all applied; or that stop, and leave what those before the failing
one leave. -/
theorem applyFrom_spec {done : List (Operation × Result)} {answer : Except MutateError Unit}
    (h : applyFrom instanceId validate env i aliases g ops = (t, answer, done)) :
    (answer = .ok () → done.length = ops.length) ∧ ∀ e, answer = .error e →
        (∃ cause, e = .failed (i + done.length) (i + done.length) cause) ∧
          applyFrom instanceId validate env i aliases g (ops.take done.length) =
            (t, .ok (), done) := by
  induction ops generalizing i aliases g done with
  | nil =>
    cases h
    exact ⟨fun _ => rfl, fun e he => by cases he⟩
  | cons op rest ih =>
    unfold applyFrom at h
    split at h
    · next _ cause hfailed =>
      cases h
      refine ⟨nofun, fun e he => ?_⟩
      cases he
      exact ⟨⟨cause, rfl⟩, by rw [perform_failed hfailed]; rfl⟩
    · next u result hdone =>
      rcases hrest : applyFrom instanceId validate env (i + 1) (nameGiven op result aliases) u
        rest with ⟨v, answer', more⟩
      rw [hrest] at h
      cases h
      obtain ⟨hok, herror⟩ := ih hrest
      refine ⟨fun h => congrArg Nat.succ (hok h), fun e he => ?_⟩
      obtain ⟨⟨cause, hcause⟩, htake⟩ := herror e he
      have hlen : i + 1 + more.length = i + (more.length + 1) := by omega
      refine ⟨⟨cause, by rw [hcause, hlen]; rfl⟩, ?_⟩
      rw [List.length_cons, List.take_succ_cons, applyFrom, hdone]
      dsimp only
      rw [htake]

theorem checkFrom_take (h : checkFrom isUuid env i known ops = .ok after) (n : Nat) :
    ∃ sofar, checkFrom isUuid env i known (ops.take n) = .ok sofar := by
  induction ops generalizing i known n with
  | nil => exact ⟨known, by simp [checkFrom]⟩
  | cons _ _ ih =>
    cases n with
    | zero => exact ⟨known, rfl⟩
    | succ n =>
      unfold checkFrom at h
      rw [List.take_succ_cons, checkFrom]
      split at h
      · cases h
      · next _ _ => exact ih h n

theorem check_take (h : check isUuid env ops = .ok after) {n : Nat} (hn : 0 < n) :
    ∃ sofar, check isUuid env (ops.take n) = .ok sofar := by
  unfold check at h
  split_ifs at h with hempty hmany
  obtain ⟨sofar, hsofar⟩ := checkFrom_take h n
  refine ⟨sofar, ?_⟩
  unfold check
  have hne : ops.take n ≠ [] := by
    rw [Ne, List.take_eq_nil_iff]
    exact fun h => h.elim (Nat.ne_of_gt hn) hempty
  have hlen : ¬ MAX_OPERATIONS < (ops.take n).length := by
    rw [List.length_take]
    omega
  rw [if_neg hne, if_neg hlen, hsofar]

theorem checkOne_ok (h : checkOne isUuid env i known op = .ok after) :
    (∀ id ∈ names op, ∀ n, nameIn id = some n → n ∈ known) ∧
      match given op with
      | none => after = known
      | some a => a ∉ known ∧ after = known ++ [a] := by
  unfold checkOne invalidAt at h
  split at h
  · cases h
  · next hnames =>
    refine ⟨fun id hid n hn => ?_, ?_⟩
    · have hid' := List.find?_eq_none.mp hnames id hid
      simpa [hn] using hid'
    · cases op <;> grind [given]

/-- The names known are those given so far, each with the id that was made. -/
structure Named (ops : List Operation) (done : List (Operation × Result)) (i : Nat)
    (aliases : List (String × String)) (known : List String) : Prop where
  made : ∀ n ∈ known, ∃ id, aliases.lookup n = some id ∧ MadeBefore ops done i n id
  told : ∀ l < i, ∀ n, ops[l]?.bind given = some n → n ∈ known

variable {done more : List (Operation × Result)} {result : Result}

theorem Named.step (h : Named ops done i aliases known)
    (hone : checkOne isUuid env i known op = .ok after) (hop : ops[i]? = some op)
    (hdone : done[i]? = some (resolved aliases op, result))
    (hmade : perform instanceId validate (env i) g (resolved aliases op) = (t, .ok result)) :
    Named ops done (i + 1) (nameGiven op result aliases) after := by
  obtain ⟨-, hafter⟩ := checkOne_ok hone
  cases hgiven : given op with
  | none =>
    simp only [hgiven] at hafter
    subst hafter
    have haliases : nameGiven op result aliases = aliases := by
      simp [nameGiven, hgiven]
    rw [haliases]
    refine ⟨fun n hn => ?_, fun l hl n hn => ?_⟩
    · obtain ⟨id, hid, k, hk, ⟨hthere, hone⟩, hupsert⟩ := h.made n hn
      refine ⟨id, hid, k, Nat.lt_succ_of_lt hk, ⟨hthere, fun l hl hln => ?_⟩, hupsert⟩
      rcases Nat.lt_succ_iff_lt_or_eq.mp hl with hl | rfl
      · exact hone l hl hln
      · simp [hop, hgiven] at hln
    · rcases Nat.lt_succ_iff_lt_or_eq.mp hl with hl | rfl
      · exact h.told l hl n hn
      · simp [hop, hgiven] at hn
  | some a =>
    simp only [hgiven] at hafter
    obtain ⟨hnew, rfl⟩ := hafter
    obtain ⟨id, typeId, violations, rfl⟩ :
        ∃ id typeId violations, result = .upsert id typeId violations := by
      cases op with
      | upsert typeRef key projectId value ifAbsent =>
        simp only [resolved, perform] at hmade
        have hmap := (Prod.mk.inj hmade).2
        revert hmap
        cases (createObject instanceId (env i).context g
          ⟨typeRef, key, projectId, ifAbsent, validate, .obj value⟩).2 with
        | error e => exact fun h => by cases h
        | ok made => exact fun h => ⟨_, _, _, (Except.ok.inj h).symm⟩
      | _ => cases hgiven
    have haliases : nameGiven op (.upsert id typeId violations) aliases = (a, id) :: aliases := by
      simp [nameGiven, hgiven]
    rw [haliases]
    refine ⟨fun n hn => ?_, fun l hl n hn => ?_⟩
    · rcases List.mem_append.mp hn with hold | hself
      · have hne : n ≠ a := fun heq => hnew (heq ▸ hold)
        obtain ⟨id', hid, k, hk, ⟨hthere, hone⟩, hupsert⟩ := h.made n hold
        refine ⟨id', ?_, k, Nat.lt_succ_of_lt hk, ⟨hthere, fun l hl hln => ?_⟩, hupsert⟩
        · rw [List.lookup_cons, beq_eq_false_iff_ne.mpr hne]
          exact hid
        · rcases Nat.lt_succ_iff_lt_or_eq.mp hl with hl | rfl
          · exact hone l hl hln
          · simp only [hop, Option.bind_some, hgiven, Option.some.injEq] at hln
            exact absurd hln.symm hne
      · obtain rfl := List.mem_singleton.mp hself
        refine ⟨id, by simp, i, Nat.lt_succ_self i, ⟨by simp [hop, hgiven], ?_⟩, _, _, _, hdone⟩
        intro l hl hln
        rcases Nat.lt_succ_iff_lt_or_eq.mp hl with hl | rfl
        · exact absurd (h.told l hl _ hln) hnew
        · rfl
    · rcases Nat.lt_succ_iff_lt_or_eq.mp hl with hl | rfl
      · exact List.mem_append_left _ (h.told l hl n hn)
      · simp only [hop, Option.bind_some, hgiven, Option.some.injEq] at hn
        simp [hn]

theorem stands_applyFrom (h : Named ops done i aliases known) (hops : ops.drop i = rest)
    (hdone : done.drop i = more) (hcheck : checkFrom isUuid env i known rest = .ok after)
    (hrun : (applyFrom instanceId validate env i aliases g rest).2.2 = more) :
    ∀ j p result, more[j]? = some (p, result) → Stands ops done (i + j) p := by
  induction rest generalizing i aliases known g more with
  | nil =>
    intro j p result hj
    simp [← hrun, applyFrom] at hj
  | cons op _ ih =>
    have hop : ops[i]? = some op := by
      rw [← List.head?_drop, hops]
      rfl
    unfold checkFrom at hcheck
    split at hcheck
    · cases hcheck
    · next _ hone =>
      unfold applyFrom at hrun
      split at hrun
      · intro j p result hj
        simp [← hrun] at hj
      · next _ result hmade =>
        dsimp only at hrun
        have hat : done[i]? = some (resolved aliases op, result) := by
          rw [← List.head?_drop, hdone, ← hrun]
          rfl
        intro j p result' hj
        cases j with
        | zero =>
          simp only [← hrun, List.getElem?_cons_zero, Option.some.injEq, Prod.mk.injEq] at hj
          refine ⟨op, aliases, hop, hj.1.symm, fun id hid n hn => ?_⟩
          obtain ⟨x, hx, hbefore⟩ := h.made n ((checkOne_ok hone).1 id hid n hn)
          have hresolve : resolve id aliases = x := by
            simp [resolve, hn, hx]
          rw [hresolve]
          exact hbefore
        | succ j =>
          rw [← hrun, List.getElem?_cons_succ] at hj
          rw [← Nat.succ_add_eq_add_succ]
          refine ih (h.step hone hop hat hmade) ?_ ?_ hcheck rfl j p result' hj
          · rw [← List.drop_drop, hops]
            rfl
          · rw [← List.drop_drop, hdone, ← hrun]
            rfl

theorem checkFrom_failed {index applied : Nat} {cause : String}
    (h : checkFrom isUuid env i known ops = .error (.failed index applied cause)) :
    applied = 0 ∧ (env index).context.model = .error cause := by
  induction ops generalizing i known with
  | nil => cases h
  | cons _ _ ih =>
    unfold checkFrom at h
    split at h
    · next _ hone =>
      obtain rfl := Except.error.inj h
      unfold checkOne invalidAt at hone
      grind
    · exact ih h

end Facts

end Mutate
end DomainModel
end StudioWeb
