import StudioWeb.Library.LabelledRuns
import Mathlib.Logic.Relation

/-!
# Programs that may be stopped between two operations

A program asks for operations one after the other and goes on by their answers.  A service runs
one program at a time: before each operation others may edit the state, and it may crash, after
which only some programs may be started.

What edits, crashes, calls and operations are asked to meet is a `Conditions`.  `Keeps` is what
a program does under them: wherever it is stopped the state is as it may be after a crash, and
where it ends a given predicate holds.
-/

namespace StudioWeb
namespace CrashPrograms

open LabelledRuns
open Relation (ReflTransGen)

section Program

variable {Op Err : Type}
variable {Res : Op → Type}
variable {α β : Type}

inductive Program (Op : Type) (Res : Op → Type) (Err α : Type) where
  | done (a : α)
  | fail (error : Err)
  | call (op : Op) (next : Res op → Program Op Res Err α)

namespace Program

def bind : Program Op Res Err α → (α → Program Op Res Err β) → Program Op Res Err β
  | done a, f => f a
  | fail error, _ => fail error
  | call op next, f => call op fun r => (next r).bind f

instance : Monad (Program Op Res Err) where
  pure := done
  bind := bind

/-- The program of one operation. -/
def perform (op : Op) : Program Op Res Err (Res op) := call op done

variable {σ Choice : Type}

/-- What a program comes to that is left alone, where each operation chooses alike. -/
def alone (answer : (op : Op) → Choice → σ → Res op × σ) (choice : Choice) :
    Program Op Res Err α → σ → Except Err α × σ
  | done a, s => (.ok a, s)
  | fail error, s => (.error error, s)
  | call op next, s =>
    alone answer choice (next (answer op choice s).1) (answer op choice s).2

variable {answer : (op : Op) → Choice → σ → Res op × σ}
variable {choice : Choice}

@[simp] theorem alone_pure (a : α) (s : σ) :
    alone answer choice (pure a : Program Op Res Err α) s = (.ok a, s) := by
  rfl

@[simp] theorem alone_fail (error : Err) (s : σ) :
    alone answer choice (fail error : Program Op Res Err α) s = (.error error, s) := by
  rfl

theorem alone_bind (p : Program Op Res Err α) (f : α → Program Op Res Err β) (s : σ) :
    alone answer choice (p >>= f) s = match alone answer choice p s with
        | (.ok a, t) => alone answer choice (f a) t
        | (.error error, t) => (.error error, t) := by
  induction p generalizing s with
  | done =>
    rfl
  | fail =>
    rfl
  | call op _ ih =>
    exact ih (answer op choice s).1 (answer op choice s).2

theorem alone_bind_of {p : Program Op Res Err α} {f : α → Program Op Res Err β} {s t : σ} {a : α}
    (h : alone answer choice p s = (.ok a, t)) :
    alone answer choice (p >>= f) s = alone answer choice (f a) t := by
  rw [alone_bind, h]

end Program

end Program

section Service

variable {σ Op Err Choice Call Edit Out : Type}
variable {Res : Op → Type}

/-- A service: how operations are answered, the program of each call, which calls may be made
after a crash, and what an edit by others does. -/
structure Service (σ Op : Type) (Res : Op → Type) (Err Choice Call Edit Out : Type) where
  answer : (op : Op) → Choice → σ → Res op × σ
  program : Call → Program Op Res Err Out
  starts : Call → Bool
  edit : Edit → σ → σ

/-- A service at work. -/
structure Machine (σ Op : Type) (Res : Op → Type) (Err Call Out : Type) where
  state : σ
  up : Bool
  running : Option (Call × Program Op Res Err Out)

/-- What happens to a service. -/
inductive Event (Choice Call Edit : Type) where
  | call (c : Call)
  /-- The next operation of the running program. -/
  | exec (choice : Choice)
  /-- The running program returns or throws. -/
  | finish
  | crash
  | edit (e : Edit)
deriving DecidableEq

def step (S : Service σ Op Res Err Choice Call Edit Out) (m : Machine σ Op Res Err Call Out) :
    Event Choice Call Edit → Option (Machine σ Op Res Err Call Out)
  | .call c =>
    match m.running with
    | none => if m.up || S.starts c then some { m with running := some (c, S.program c) } else none
    | some _ => none
  | .exec choice =>
    match m.running with
    | some (c, .call op next) =>
      some
        { m with
          state := (S.answer op choice m.state).2
          running := some (c, next (S.answer op choice m.state).1) }
    | _ => none
  | .finish =>
    match m.running with
    | some (_, .done _) => some { m with up := true, running := none }
    | some (_, .fail _) => some { m with up := true, running := none }
    | _ => none
  | .crash => some { m with up := false, running := none }
  | .edit e => some { m with state := S.edit e m.state }

/-- What is asked of the steps of a run; `none` stands for a service that runs no program. -/
structure Conditions (σ Op Call Edit : Type) where
  crash : Option Call → σ → Prop
  edit : Option Call → Edit → σ → Prop
  call : Call → σ → Prop
  exec : Call → Op → σ → Prop

def Machine.caller (m : Machine σ Op Res Err Call Out) : Option Call := m.running.map Prod.fst

/-- What is asked of a step. -/
def Meets (C : Conditions σ Op Call Edit) (m : Machine σ Op Res Err Call Out) :
    Event Choice Call Edit → Prop
  | .call c => C.call c m.state
  | .exec _ =>
    match m.running with
    | some (c, .call op _) => C.exec c op m.state
    | _ => True
  | .finish => True
  | .crash => C.crash m.caller m.state
  | .edit e => C.edit m.caller e m.state

/-- What others make of a state while a call runs. -/
def Edited (S : Service σ Op Res Err Choice Call Edit Out) (C : Conditions σ Op Call Edit)
    (c : Call) : σ → σ → Prop :=
  ReflTransGen fun s t => ∃ e, C.edit (some c) e s ∧ t = S.edit e s

variable {S : Service σ Op Res Err Choice Call Edit Out}
variable {C : Conditions σ Op Call Edit}
variable {Rest Down : σ → Prop}
variable {c : Call}
variable {α β : Type}

/-- Wherever it is stopped, a program leaves a state that is `Down`; where it ends or fails,
`Q` holds. -/
def Keeps (S : Service σ Op Res Err Choice Call Edit Out) (C : Conditions σ Op Call Edit)
    (Down : σ → Prop) (c : Call) (Q : Except Err α → σ → Prop) : Program Op Res Err α → σ → Prop
  | .done a, s => Q (.ok a) s
  | .fail error, s => Q (.error error) s
  | .call op next, s =>
    ∀ t, Edited S C c s t → (C.crash (some c) t → Down t) ∧ ∀ choice, C.exec c op t →
          Keeps S C Down c Q (next (S.answer op choice t).1) (S.answer op choice t).2

/-- A predicate that others keep while a call runs. -/
def Stable (S : Service σ Op Res Err Choice Call Edit Out) (C : Conditions σ Op Call Edit)
    (c : Call) (P : σ → Prop) : Prop :=
  ∀ e s, P s → C.edit (some c) e s → P (S.edit e s)

theorem Stable.edited {P : σ → Prop} (h : Stable S C c P) {s t : σ} (hs : P s)
    (ht : Edited S C c s t) : P t := by
  induction ht with
  | refl =>
    exact hs
  | tail _ hstep ih =>
    obtain ⟨e, he, rfl⟩ := hstep
    exact h e _ ih he

theorem Keeps.mono {Q Q' : Except Err α → σ → Prop} (hQ : ∀ r s, Q r s → Q' r s) :
    ∀ {p : Program Op Res Err α} {s : σ}, Keeps S C Down c Q p s → Keeps S C Down c Q' p s
  | .done _, _, h => hQ _ _ h
  | .fail _, _, h => hQ _ _ h
  | .call _ _, _, h => fun t ht =>
    ⟨(h t ht).1, fun choice hexec => Keeps.mono hQ ((h t ht).2 choice hexec)⟩

/-- **The rule of sequence**: where a first program ends, the second one goes on. -/
theorem keeps_bind {Q : Except Err β → σ → Prop} {f : α → Program Op Res Err β} :
    ∀ {p : Program Op Res Err α} {s : σ}, Keeps S C Down c (fun r t =>
          match r with
          | .ok a => Keeps S C Down c Q (f a) t
          | .error error => Q (.error error) t) p s →
      Keeps S C Down c Q (p >>= f) s
  | .done _, _, h => h
  | .fail _, _, h => h
  | .call _ _, _, h => fun t ht =>
    ⟨(h t ht).1, fun choice hexec => keeps_bind ((h t ht).2 choice hexec)⟩

/-- **The rule of an operation**: before it a predicate holds that others keep and that allows
a crash. -/
theorem keeps_perform {P : σ → Prop} {Q : Except Err α → σ → Prop} {op : Op}
    {f : Res op → Program Op Res Err α} {s : σ} (hstable : Stable S C c P) (hs : P s)
    (hcrash : ∀ t, P t → C.crash (some c) t → Down t) (hnext : ∀ t choice, P t → C.exec c op t →
      Keeps S C Down c Q (f (S.answer op choice t).1) (S.answer op choice t).2) :
    Keeps S C Down c Q (Program.perform op >>= f) s := by
  intro t ht
  have hP : P t := hstable.edited hs ht
  exact ⟨hcrash t hP, fun choice hexec => hnext t choice hP hexec⟩

/-- A program keeps what it does while others edit. -/
theorem Keeps.edited {Q : Except Err α → σ → Prop} (hQ : ∀ r, Stable S C c (Q r)) :
    ∀ {p : Program Op Res Err α}, Stable S C c (Keeps S C Down c Q p)
  | .done a => hQ (.ok a)
  | .fail error => hQ (.error error)
  | .call _ _ => fun e _ h he t ht => h t (.head ⟨e, he, rfl⟩ ht)

/-- What makes a service keep `Rest` where it runs nothing and `Down` where it has crashed. -/
structure Guarded (S : Service σ Op Res Err Choice Call Edit Out) (C : Conditions σ Op Call Edit)
    (Rest Down : σ → Prop) : Prop where
  restEdit : ∀ e s, Rest s → C.edit none e s → Rest (S.edit e s)
  downEdit : ∀ e s, Down s → C.edit none e s → Down (S.edit e s)
  endedEdit : ∀ c, Stable S C c Rest
  restDown : ∀ s, Rest s → Down s
  runs : ∀ c s, Rest s → C.call c s → Keeps S C Down c (fun _ => Rest) (S.program c) s
  starts : ∀ c s, S.starts c = true → Down s → C.call c s →
    Keeps S C Down c (fun _ => Rest) (S.program c) s

/-- What is so of a service in every run. -/
def Machine.Kept (S : Service σ Op Res Err Choice Call Edit Out) (C : Conditions σ Op Call Edit)
    (Rest Down : σ → Prop) (m : Machine σ Op Res Err Call Out) : Prop :=
  match m.running with
  | some (c, p) => Keeps S C Down c (fun _ => Rest) p m.state
  | none => if m.up then Rest m.state else Down m.state

theorem Keeps.crash {p : Program Op Res Err α} {s : σ} (hrest : ∀ s, Rest s → Down s)
    (h : Keeps S C Down c (fun _ => Rest) p s) (hcrash : C.crash (some c) s) : Down s := by
  cases p with
  | done =>
    exact hrest s h
  | fail =>
    exact hrest s h
  | call =>
    exact (h s .refl).1 hcrash

/-- One step keeps what a service keeps. -/
theorem Guarded.step (G : Guarded S C Rest Down) {m m' : Machine σ Op Res Err Call Out}
    {event : Event Choice Call Edit} (hm : m.Kept S C Rest Down) (hstep : step S m event = some m')
    (hmeets : Meets C m event) : m'.Kept S C Rest Down := by
  obtain ⟨s, up, running⟩ := m
  cases event with
  | call c =>
    cases running with
    | some =>
      cases hstep
    | none =>
      simp only [CrashPrograms.step] at hstep
      split at hstep
      · next hup =>
        cases hstep
        simp only [Machine.Kept] at hm ⊢
        split at hm
        · exact G.runs c s hm hmeets
        · next hdown =>
          have hstarts : S.starts c = true := by simpa [hdown] using hup
          exact G.starts c s hstarts hm hmeets
      · cases hstep
  | exec choice =>
    match running, hm, hmeets, hstep with
    | some (c, .call op next), hm, hmeets, hstep =>
      cases hstep
      exact (hm s .refl).2 choice hmeets
  | finish =>
    match running, hm, hstep with
    | some (c, .done a), hm, hstep =>
      cases hstep
      exact hm
    | some (c, .fail error), hm, hstep =>
      cases hstep
      exact hm
  | crash =>
    cases hstep
    cases running with
    | some r =>
      have hkeeps : Keeps S C Down r.1 (fun _ => Rest) r.2 s := hm
      have hdown : Down s := hkeeps.crash G.restDown hmeets
      exact hdown
    | none =>
      simp only [Machine.Kept] at hm ⊢
      split at hm
      · exact G.restDown s hm
      · exact hm
  | edit e =>
    cases hstep
    cases running with
    | some r =>
      have hkeeps : Keeps S C Down r.1 (fun _ => Rest) r.2 s := hm
      exact Keeps.edited (fun _ => G.endedEdit r.1) e s hkeeps hmeets
    | none =>
      simp only [Machine.Kept] at hm ⊢
      split at hm
      · next hup =>
        simp only [hup]
        exact G.restEdit e s hm hmeets
      · next hup =>
        simp only [hup]
        exact G.downEdit e s hm hmeets

/-- **What a service keeps in every run.** -/
theorem Guarded.reached (G : Guarded S C Rest Down) {m m' : Machine σ Op Res Err Call Out}
    {events : List (Event Choice Call Edit)} (hm : m.Kept S C Rest Down)
    (hmeets : EveryStep (CrashPrograms.step S) (fun m event _ => Meets C m event) m events)
    (hrun : runActions (CrashPrograms.step S) m events = some m') : m'.Kept S C Rest Down :=
  runActions_invariant (fun _ _ _ hs hstep hadm => G.step hs hstep hadm) hm hmeets hrun

end Service

end CrashPrograms
end StudioWeb
