import StudioWeb.WorkspaceMigration.CrashPoints

/-!
# The calls of the migration service keep what is kept

The calls that write the mode or the transaction, point by point.  A predicate says what holds
between two writes; others keep it, it allows the crashes that the conditions allow, and the
next write leads to the next one.
-/

namespace StudioWeb
namespace WorkspaceMigration

open CrashPrograms Option World

variable {env : Environment}
variable {c : Call}
variable {w : World}
variable {j : WorkspaceMigrationPersistedState}

theorem Rest.activated {s : WorkspaceMigrationPersistedState}
    {before after : WorkspaceMigrationComparison} (h : Rest env w) (hcompared : w.Compared)
    (hmode : s.modeOverride = some .canonicalActive)
    (htransaction : s.transaction = w.journal.transaction)
    (hbefore : w.journal.comparison = some before) (hafter : s.comparison = some after)
    (hmade : after.madeOf = before.madeOf) :
    Rest env { w with journal := s, activation := w.activationAfter s true } := by
  have hactivation : ∃ a, w.activationAfter s true = some a ∧ a.compared = a.present := by
    cases hw : w.activation with
    | some a =>
      exact ⟨a, by simp [activationAfter, hmode, hw], h.1.good a hw⟩
    | none =>
      refine ⟨⟨after.madeOf, w.contents⟩, by simp [activationAfter, hmode, hw, hafter], ?_⟩
      rcases hcompared with hsome | hall
      · rw [hw] at hsome
        cases hsome
      · exact hmade.trans (hall before hbefore)
  obtain ⟨a, ha, hgood⟩ := hactivation
  refine ⟨⟨?_, ?_, ?_, ?_⟩, ?_⟩
  · exact fun _ => .inr ⟨hmode, by simp [ha]⟩
  · intro b hb
    obtain rfl : a = b := some.inj (ha.symm.trans hb)
    exact hgood
  · intro id hours
    obtain ⟨raw, t, hcanonical, hraw, ht, hid, hhash, hphase⟩ := h.1.ours id hours
    refine ⟨raw, t, hcanonical, hraw, htransaction.trans ht, hid, hhash, ?_⟩
    rcases hphase with hkept | ⟨hwritten, _⟩
    · exact .inl hkept
    · have hothers := h.2 (by rw [phase_of_transaction ht, hwritten])
      rw [hothers] at hours
      cases hours
  · intro t ht
    exact h.1.phases t (htransaction.symm.trans ht)
  · intro hphase
    refine h.2 ?_
    rw [World.phase, ← htransaction]
    exact hphase

def Activates (env : Environment) (j : WorkspaceMigrationPersistedState) (w : World) : Prop :=
  RestOf env j w ∧ w.Compared

theorem holds_activates {acknowledged : Option String} :
    Holds env (.activateCanonical acknowledged) (Activates env j) where
  stable := by
    intro e w hw he
    exact ⟨holds_restOf.stable e w hw.1 he, he.2 ⟨acknowledged, rfl⟩⟩
  crash := fun w hw _ => hw.1.1.1

/-- `activateCanonical` keeps the service at rest. -/
theorem keeps_activateCanonical {acknowledged : Option String} (hw : Rest env w)
    (hcompared : w.Compared) :
    Keeps (service env) (conditions env) (Kept env) (.activateCanonical acknowledged)
      (fun _ => Rest env) (activateCanonical env acknowledged) w := by
  refine keeps_refresh (holds_activates (j := w.journal)) (fun _ ht => ht.1.2)
    ⟨⟨hw, rfl⟩, hcompared⟩ (fun _ _ ht => ht.1.1) ?_
  intro t loadResult _ ht
  by_cases hvalid : loadResult.isValid = false
  · simp only [hvalid, if_true]
    exact ht.1.1
  simp only [hvalid]
  cases hcomparison : w.journal.comparison with
  | none =>
    exact ht.1.1
  | some comparison =>
    simp only [Bool.true_eq_false, if_false]
    by_cases hrefused : comparison.clean = false ∧ some comparison.differenceHash ≠ acknowledged
    · rw [if_pos hrefused]
      exact ht.1.1
    · rw [if_neg hrefused]
      apply holds_activates.perform ht
      intro u _ hu _
      have hjournal : u.journal = w.journal := hu.1.2
      have hbefore : u.journal.comparison = some comparison := by
        rw [hjournal]
        exact hcomparison
      have hrest := hu.1.1.activated (s :=
          { w.journal with
            modeOverride := some .canonicalActive
            comparison :=
              some
                { comparison with
                  acknowledgedDifferenceHash :=
                    if comparison.clean then none else acknowledged } })
        hu.2 rfl (by rw [hjournal]) hbefore rfl rfl
      exact keeps_report_at_rest ⟨hrest, rfl⟩

section Rollback

/-- The canonical file was removed: no valid one is there, and what is there is not the
service's. -/
structure Removed (env : Environment) (j : WorkspaceMigrationPersistedState) (w : World) :
    Prop where
  journal : w.journal = j
  missing : ¬ w.Valid env
  good : ∀ a, w.activation = some a → a.compared = a.present
  hand : w.hand = .nobody ∨ w.hand = .others

theorem Removed.kept (h : Removed env j w)
    (hphases : ∀ t, j.transaction = some t → t.phase ≠ .pendingWrite) (hback : ¬ w.HalfBack) :
    Kept env w := by
  refine ⟨fun hvalid => absurd hvalid h.missing, h.good, ?_, ?_⟩
  · intro id hours
    rcases h.hand with hnobody | hothers
    · rw [hnobody] at hours
      cases hours
    · rw [hothers] at hours
      cases hours
  · intro t ht
    refine ⟨hphases t (h.journal ▸ ht), fun hphase => ?_⟩
    rcases h.hand with hnobody | hothers
    · refine absurd ⟨?_, hnobody⟩ hback
      rw [phase_of_transaction ht]
      rcases hphase with hwritten | havailable
      · exact .inl (congrArg some hwritten)
      · exact .inr (congrArg some havailable)
    · exact .inr hothers

variable {id : String}

theorem holds_removed (hphases : ∀ t, j.transaction = some t → t.phase ≠ .pendingWrite) :
    Holds env (.rollbackMigration id) (Removed env j) where
  stable := by
    intro e w hw he
    refine ⟨(edit_journal e w).trans hw.journal, ?_,
      fun a ha => hw.good a ((edit_activation e w).symm.trans ha), ?_⟩
    · cases e with
      | canonical content =>
        cases content with
        | none =>
          exact not_valid_of_missing rfl
        | some raw =>
          intro hvalid
          have hraw : ValidText env raw := by
            simpa [World.Valid, service, edit] using hvalid
          -- Others put no valid file in place of one that the rollback removed.
          rcases he.1 raw rfl hraw with ⟨_, hthere⟩ | ⟨hcall, _⟩
          · exact hw.missing (hthere ⟨id, rfl⟩)
          · cases hcall
      | legacy =>
        exact hw.missing
      | inline =>
        exact hw.missing
      | wait =>
        exact hw.missing
    · cases e with
      | canonical =>
        exact .inr rfl
      | legacy =>
        exact hw.hand
      | inline =>
        exact hw.hand
      | wait =>
        exact hw.hand
  crash := fun w hw hcrash => hw.kept hphases hcrash.2.2

/-- What is removed stays so when the journal is written. -/
theorem Removed.written {s : WorkspaceMigrationPersistedState} (h : Removed env j w) :
    Removed env s { w with journal := s, activation := w.activationAfter s false } :=
  ⟨rfl, h.missing, fun a ha => h.good a (activationAfter_false ha), h.hand⟩

theorem Removed.rest {t : WorkspaceMigrationTransaction} (h : Removed env j w)
    (ht : j.transaction = some t) (hphase : t.phase = .rolledBack) : RestOf env j w := by
  have hphases : w.phase = some .rolledBack := by
    rw [World.phase, h.journal, ht, map_some, hphase]
  refine ⟨⟨h.kept ?_ ?_, ?_⟩, h.journal⟩
  · intro u hu
    obtain rfl : t = u := some.inj (ht.symm.trans hu)
    simp [hphase]
  · rintro ⟨hwritten | havailable, _⟩
    · rw [hphases] at hwritten
      cases hwritten
    · rw [hphases] at havailable
      cases havailable
  · intro hwritten
    rw [hphases] at hwritten
    cases hwritten

theorem keeps_unlinkWritten {t : WorkspaceMigrationTransaction} (hw : RestOf env j w) :
    Keeps (service env) (conditions env) (Kept env) (.rollbackMigration id)
      (fun _ => Rest env) (unlinkWritten env j t) w := by
  have hphases : ∀ u, j.transaction = some u → u.phase ≠ .pendingWrite :=
    fun u hu => (hw.1.1.phases u (hw.2 ▸ hu)).1
  refine keeps_load holds_restOf hw (fun _ _ hv _ => hv.1) ?_
  intro v hv
  by_cases hchanged : (loaded env v).revision ≠ some t.payloadHash
  · rw [if_pos hchanged]
    exact hv.1
  rw [if_neg hchanged]
  apply holds_restOf.perform hv
  intro u choice hu _
  cases hcanonical : u.canonical with
  | none =>
    have hanswer : answer .unlinkCanonical choice u = (false, u) := by
      simp only [answer, hcanonical]
      rfl
    rw [hanswer]
    exact hu.1
  | some =>
    have hanswer : answer .unlinkCanonical choice u
        = (true, { u with canonical := none, hand := .nobody }) := by
      simp only [answer, hcanonical]
      rfl
    rw [hanswer]
    have hremoved : Removed env j { u with canonical := none, hand := .nobody } :=
      ⟨hu.2, not_valid_of_missing rfl, hu.1.1.good, .inl rfl⟩
    apply (holds_removed hphases).perform hremoved
    intro x _ hx _
    have hrecorded := hx.written (s :=
        { j with transaction := some { t with phase := .rolledBack, rollbackAvailable := false } })
    refine Holds.perform (holds_removed ?_) hrecorded ?_
    · intro y hy
      obtain rfl := some.inj hy
      exact nofun
    intro y _ hy _
    have hrest := (hy.written (s :=
        { j with
          transaction := some { t with phase := .rolledBack, rollbackAvailable := false }
          modeOverride := some t.modeBefore
          comparison := none })).rest rfl rfl
    refine keeps_load holds_restOf hrest (fun _ _ hz _ => hz.1) ?_
    intro z hz
    exact keeps_report_at_rest hz

/-- `rollbackMigration` keeps the service at rest. -/
theorem keeps_rollbackMigration (hw : Rest env w) :
    Keeps (service env) (conditions env) (Kept env) (.rollbackMigration id)
      (fun _ => Rest env) (rollbackMigration env id) w := by
  refine keeps_refresh (holds_restOf (j := w.journal)) (fun _ ht => ht.2) ⟨hw, rfl⟩
    (fun _ _ ht => ht.1) ?_
  intro u _ _ hu
  cases ht : w.journal.transaction with
  | none =>
    simp only [ht]
    exact hu.1
  | some t =>
    simp only [ht]
    by_cases hid : t.transactionId ≠ id
    · rw [if_pos hid]
      exact hu.1
    rw [if_neg hid]
    match havailable : t.rollbackAvailable, hdeadline : t.rollbackDeadline with
    | false, _ =>
      exact hu.1
    | true, none =>
      exact hu.1
    | true, some deadline =>
      apply holds_restOf.perform hu
      intro v choice hv _
      by_cases hexpired : deadline < (answer .dateNow choice v).1
      · rw [if_pos hexpired]
        exact hv.1
      · rw [if_neg hexpired]
        exact keeps_unlinkWritten hv

end Rollback

section Apply

/-- The transaction is on record, and the file is about to be written. -/
structure Pending (j : WorkspaceMigrationPersistedState) (w : World) : Prop where
  journal : w.journal = j
  good : ∀ a, w.activation = some a → a.compared = a.present

theorem holds_pending {t : WorkspaceMigrationTransaction} (ht : j.transaction = some t)
    (hphase : t.phase = .pendingWrite) :
    Holds env c (Pending j) where
  stable := by
    intro e w hw _
    exact ⟨(edit_journal e w).trans hw.journal,
      fun a ha => hw.good a ((edit_activation e w).symm.trans ha)⟩
  crash := by
    intro w hw hcrash
    refine absurd ?_ hcrash.1
    rw [World.phase, hw.journal, ht, map_some, hphase]

/-- The file was written; what is there of others may be served only as the journal says. -/
structure Written (env : Environment) (j : WorkspaceMigrationPersistedState)
    (raw : List Char) (id : String) (w : World) : Prop where
  journal : w.journal = j
  activation : w.activation = none
  file : w.canonical = some raw ∧ w.hand = .ours id ∨
    w.hand = .others ∧ (w.Valid env → j.modeOverride = some .canonicalShadow)

structure WroteFile (env : Environment) (j : WorkspaceMigrationPersistedState)
    (t : WorkspaceMigrationTransaction) (raw : List Char) : Prop where
  transaction : j.transaction = some t
  text : ValidText env raw
  hash : t.payloadHash = env.sha256 raw

variable {t : WorkspaceMigrationTransaction}
variable {raw : List Char}

section

variable (ht : WroteFile env j t raw)
include ht

theorem Written.stable (hphase : t.phase = .pendingWrite ∨ t.phase = .written) :
    Stable (service env) (conditions env) .applyMigration
      (Written env j raw t.transactionId) := by
  intro e w hw he
  refine ⟨(edit_journal e w).trans hw.journal, (edit_activation e w).trans hw.activation, ?_⟩
  cases e with
  | canonical content =>
    refine .inr ⟨rfl, fun hvalid => ?_⟩
    cases content with
    | none =>
      exact absurd hvalid (not_valid_of_missing rfl)
    | some raw' =>
      have hraw : ValidText env raw' := by
        simpa [World.Valid, service, edit] using hvalid
      rcases he.1 raw' rfl hraw with ⟨hserved, _⟩ | ⟨_, havailable, _⟩
      · rcases hserved with hshadow | ⟨_, hsome⟩
        · exact hw.journal ▸ hshadow
        · rw [hw.activation] at hsome
          cases hsome
      · rw [World.phase, hw.journal, ht.transaction, map_some] at havailable
        rcases hphase with hpending | hwritten
        · rw [hpending] at havailable
          cases havailable
        · rw [hwritten] at havailable
          cases havailable
  | legacy =>
    exact hw.file
  | inline =>
    exact hw.file
  | wait =>
    exact hw.file

theorem Written.kept (hphase : t.phase = .written)
    (hw : Written env j raw t.transactionId w) (hhalf : ¬ w.HalfWay env) : Kept env w := by
  have htransaction : w.journal.transaction = some t := by
    rw [hw.journal]
    exact ht.transaction
  have hshadow : w.Valid env → w.journal.modeOverride = some .canonicalShadow := by
    intro hvalid
    by_contra hnot
    refine hhalf ⟨.inl ?_, hnot, hw.activation, hvalid⟩
    rw [phase_of_transaction htransaction, hphase]
  refine ⟨fun hvalid => .inl (hshadow hvalid), ?_, ?_, ?_⟩
  · intro a ha
    rw [hw.activation] at ha
    cases ha
  · intro id hours
    rcases hw.file with ⟨hcanonical, hhand⟩ | ⟨hothers, _⟩
    · obtain rfl : t.transactionId = id := Hand.ours.inj (hhand.symm.trans hours)
      have hvalid := valid_of_canonical hcanonical ht.text
      exact ⟨raw, t, hcanonical, ht.text, htransaction, rfl, ht.hash, .inr ⟨hphase, hshadow hvalid⟩⟩
    · rw [hothers] at hours
      cases hours
  · intro u hu
    obtain rfl : t = u := some.inj (htransaction.symm.trans hu)
    refine ⟨by rw [hphase]; exact nofun, fun _ => ?_⟩
    rcases hw.file with ⟨_, hhand⟩ | ⟨hothers, _⟩
    · exact .inl hhand
    · exact .inr hothers

theorem holds_pendingWritten (hphase : t.phase = .pendingWrite) :
    Holds env .applyMigration (Written env j raw t.transactionId) where
  stable := Written.stable ht (.inl hphase)
  crash := by
    intro w hw hcrash
    refine absurd ?_ hcrash.1
    rw [World.phase, hw.journal, ht.transaction, map_some, hphase]

theorem holds_written (hphase : t.phase = .written) :
    Holds env .applyMigration (Written env j raw t.transactionId) where
  stable := Written.stable ht (.inr hphase)
  crash := fun _ hw hcrash => hw.kept ht hphase (hcrash.2.1 rfl)

end

/-- The file was written, and others have changed it where something was found. -/
def WrittenOr (env : Environment) (j : WorkspaceMigrationPersistedState)
    (raw : List Char) (id : String) (found : Prop) (w : World) : Prop :=
  Written env j raw id w ∧ (found → w.hand = .others)

theorem holds_writtenOr {found : Prop} (ht : WroteFile env j t raw) (hphase : t.phase = .written) :
    Holds env .applyMigration (WrittenOr env j raw t.transactionId found) where
  stable := by
    intro e w hw he
    refine ⟨(holds_written ht hphase).stable e w hw.1 he, fun hfound => ?_⟩
    have hothers := hw.2 hfound
    cases e with
    | canonical =>
      rfl
    | legacy =>
      exact hothers
    | inline =>
      exact hothers
    | wait =>
      exact hothers
  crash := fun w hw hcrash => (holds_written ht hphase).crash w hw.1 hcrash

/-- The file is on record with its rollback, and is not served as a shadow yet. -/
structure Recorded (j : WorkspaceMigrationPersistedState)
    (raw : List Char) (id : String) (w : World) : Prop where
  journal : w.journal = j
  activation : w.activation = none
  file : w.canonical = some raw ∧ w.hand = .ours id ∨ w.hand = .others

section

variable
  (ht : WroteFile env j t raw) (hphase : t.phase = .rollbackAvailable)
  (havailable : t.rollbackAvailable = true) (hdeadline : t.rollbackDeadline.isSome = true)
include ht hphase havailable hdeadline

theorem Recorded.kept (hw : Recorded j raw t.transactionId w)
    (hshadow : w.Valid env → j.modeOverride = some .canonicalShadow) : Kept env w := by
  have htransaction : w.journal.transaction = some t := by
    rw [hw.journal]
    exact ht.transaction
  refine ⟨?_, ?_, ?_, ?_⟩
  · intro hvalid
    refine .inl ?_
    rw [hw.journal]
    exact hshadow hvalid
  · intro a ha
    rw [hw.activation] at ha
    cases ha
  · intro id hours
    rcases hw.file with ⟨hcanonical, hhand⟩ | hothers
    · obtain rfl : t.transactionId = id := Hand.ours.inj (hhand.symm.trans hours)
      exact ⟨raw, t, hcanonical, ht.text, htransaction, rfl, ht.hash,
        .inl ⟨hphase, havailable, hdeadline⟩⟩
    · rw [hothers] at hours
      cases hours
  · intro u hu
    obtain rfl : t = u := some.inj (htransaction.symm.trans hu)
    refine ⟨by rw [hphase]; exact nofun, fun _ => ?_⟩
    rcases hw.file with ⟨_, hhand⟩ | hothers
    · exact .inl hhand
    · exact .inr hothers

theorem holds_recorded :
    Holds env .applyMigration (Recorded j raw t.transactionId) where
  stable := by
    intro e w hw _
    refine ⟨(edit_journal e w).trans hw.journal, (edit_activation e w).trans hw.activation, ?_⟩
    cases e with
    | canonical =>
      exact .inr rfl
    | legacy =>
      exact hw.file
    | inline =>
      exact hw.file
    | wait =>
      exact hw.file
  crash := by
    intro w hw hcrash
    refine hw.kept ht hphase havailable hdeadline fun hvalid => ?_
    by_contra hnot
    refine hcrash.2.1 rfl ⟨.inr ?_, hw.journal ▸ hnot, hw.activation, hvalid⟩
    rw [World.phase, hw.journal, ht.transaction, map_some, hphase]

end

theorem World.activationAfter_none {s : WorkspaceMigrationPersistedState}
    (h : w.activation = none) : w.activationAfter s false = none := by
  cases ha : w.activationAfter s false with
  | none =>
    rfl
  | some =>
    rw [activationAfter_false ha] at h
    cases h

theorem Written.failed {s : WorkspaceMigrationPersistedState} {u : WorkspaceMigrationTransaction}
    (hw : Written env j raw t.transactionId w) (hothers : w.hand = .others)
    (hmode : s.modeOverride = j.modeOverride) (hu : s.transaction = some u)
    (hphase : u.phase = .failed) :
    Rest env { w with journal := s, activation := w.activationAfter s false } := by
  have hvalid : w.Valid env → j.modeOverride = some .canonicalShadow := by
    rcases hw.file with ⟨_, hours⟩ | ⟨_, hserved⟩
    · rw [hothers] at hours
      cases hours
    · exact hserved
  have hphases : World.phase { w with
      journal := s, activation := w.activationAfter s false } = some .failed := by
    rw [phase_of_transaction hu, hphase]
  refine Kept.rest_of_phase ⟨?_, ?_, ?_, ?_⟩ ?_
  · exact fun h => .inl (hmode.trans (hvalid h))
  · intro a ha
    have hnone := activationAfter_none (s := s) hw.activation
    rw [hnone] at ha
    cases ha
  · intro id hours
    rw [hothers] at hours
    cases hours
  · intro v hv
    obtain rfl : u = v := some.inj (hu.symm.trans hv)
    exact ⟨by rw [hphase]; exact nofun, fun _ => .inr hothers⟩
  · rw [hphases]
    exact nofun

theorem keeps_validateWritten {preview : WorkspaceMigrationPreview} (ht : WroteFile env j t raw)
    (hphase : t.phase = .written) (hhash : preview.payloadHash = env.sha256 raw)
    (hw : Written env j raw t.transactionId w) :
    Keeps (service env) (conditions env) (Kept env) .applyMigration
      (fun _ => Rest env) (validateWritten env preview j t) w := by
  refine keeps_load (holds_written ht hphase) hw ?_ ?_
  · -- Others have removed the file between the two reads.
    intro v _ hv hmissing
    refine (hv.kept ht hphase ?_).rest_of_missing hmissing
    exact fun hhalf => not_valid_of_missing hmissing hhalf.2.2.2
  intro v hv
  let found : Prop :=
    (loaded env v).isValid = false ∨ (loaded env v).revision ≠ some preview.payloadHash
  have hfound : found → v.hand = .others := by
    intro hbad
    rcases hv.file with ⟨hcanonical, _⟩ | ⟨hothers, _⟩
    · have hvalid : (inspect env raw).isValid = true := ht.text
      have hrevision : (inspect env raw).revision = some preview.payloadHash :=
        congrArg some hhash.symm
      simp only [found, loaded, hcanonical, hvalid, hrevision] at hbad
      simp at hbad
    · exact hothers
  have hor : WrittenOr env j raw t.transactionId found v := ⟨hv, hfound⟩
  apply (holds_writtenOr ht hphase).perform hor
  intro x choice hx _
  by_cases hbad : found
  · rw [if_pos hbad]
    apply (holds_writtenOr ht hphase).perform hx
    intro y _ hy _
    have hrest := hy.1.failed (s :=
        { j with
          transaction :=
            some
              { t with
                phase := .failed
                rollbackAvailable := true
                rollbackDeadline := some (x.clock + env.rollbackWindowMs)
                error :=
                  some "Canonical workspace config did not validate after migration write" } })
      (hy.2 hbad) rfl rfl rfl
    exact keeps_report_at_rest ⟨hrest, rfl⟩
  · rw [if_neg hbad]
    apply (holds_writtenOr ht hphase).perform hx
    intro y _ hy _
    let kept : WorkspaceMigrationTransaction :=
      { t with
        phase := .rollbackAvailable
        rollbackAvailable := true
        rollbackDeadline := some (x.clock + env.rollbackWindowMs) }
    have hfile : y.canonical = some raw ∧ y.hand = .ours t.transactionId ∨ y.hand = .others := by
      rcases hy.1.file with hours | hothers
      · exact .inl hours
      · exact .inr hothers.1
    have hrecorded : Recorded { j with transaction := some kept } raw kept.transactionId
        { y with
          journal := { j with transaction := some kept }
          activation := y.activationAfter { j with transaction := some kept } false } :=
      ⟨rfl, activationAfter_none hy.1.activation, hfile⟩
    apply Holds.perform (holds_recorded (t := kept) ⟨rfl, ht.text, ht.hash⟩ rfl rfl rfl) hrecorded
    intro z _ hz _
    let shadow : WorkspaceMigrationPersistedState :=
      { j with
        transaction := some kept
        modeOverride := some .canonicalShadow
        preview := some preview
        comparison := none }
    have hshadow : Recorded shadow raw kept.transactionId
        { z with journal := shadow, activation := z.activationAfter shadow false } :=
      ⟨rfl, activationAfter_none (s := shadow) hz.activation, hz.file⟩
    have hkept := Recorded.kept (t := kept) ⟨rfl, ht.text, ht.hash⟩ rfl rfl rfl hshadow fun _ => rfl
    exact keeps_report_at_rest ⟨hkept.rest_of_phase (fun h => by cases h), rfl⟩

/-- `applyMigration` keeps the service at rest. -/
theorem keeps_applyMigration (hw : Rest env w) :
    Keeps (service env) (conditions env) (Kept env) .applyMigration
      (fun _ => Rest env) (applyMigration env) w := by
  refine keeps_refresh (holds_restOf (j := w.journal)) (fun _ ht => ht.2) ⟨hw, rfl⟩
    (fun _ _ ht => ht.1) ?_
  intro v loadResult _ hv
  refine keeps_requireMigrationSource holds_restOf hv (fun _ _ ht => ht.1) ?_
  intro u candidate hu
  by_cases hcanonical : loadResult.isCanonical = true
  · simp only [hcanonical, if_true]
    exact hu.1
  simp only [hcanonical]
  apply holds_restOf.perform hu
  intro x id hx _
  apply holds_restOf.perform hx
  intro y _ hy _
  let preview := buildPreview env loadResult candidate
  let pending := pendingTransaction preview id
  have hpending : Pending { w.journal with transaction := some pending }
      { y with
        journal := { w.journal with transaction := some pending }
        activation := y.activationAfter { w.journal with transaction := some pending } false } :=
    ⟨rfl, fun a ha => hy.1.1.good a (activationAfter_false ha)⟩
  apply Holds.perform (holds_pending (t := pending) rfl rfl) hpending
  intro z choice hz hexec
  have hraw : ValidText env preview.rawCanonicalToml := hexec _ rfl
  have hwrote : Written env { w.journal with transaction := some pending }
      preview.rawCanonicalToml pending.transactionId
      (answer (.writeCanonical preview.rawCanonicalToml) choice z).2 := by
    refine ⟨hz.journal, rfl, .inl ⟨rfl, ?_⟩⟩
    simp only [answer, hz.journal]
  apply Holds.perform (holds_pendingWritten ⟨rfl, hraw, rfl⟩ rfl) hwrote
  intro u _ hu _
  let written : WorkspaceMigrationTransaction := { pending with phase := .written }
  have hwritten : Written env { w.journal with transaction := some written }
      preview.rawCanonicalToml written.transactionId
      { u with
        journal := { w.journal with transaction := some written }
        activation := u.activationAfter { w.journal with transaction := some written } false } :=
    ⟨rfl, activationAfter_none hu.activation, hu.file⟩
  exact keeps_validateWritten ⟨rfl, hraw, rfl⟩ rfl rfl hwritten

end Apply

def KeptOf (env : Environment) (j : WorkspaceMigrationPersistedState) (w : World) : Prop :=
  Kept env w ∧ w.journal = j

theorem holds_keptOf :
    Holds env c (KeptOf env j) where
  stable := by
    intro e w hw he
    exact ⟨hw.1.edited he, (edit_journal e w).trans hw.2⟩
  crash := fun w hw _ => hw.1

/-- What is kept, and the service has no file of its own where something was found. -/
def KeptOr (env : Environment) (j : WorkspaceMigrationPersistedState) (found : Prop)
    (w : World) : Prop :=
  KeptOf env j w ∧ (found → ∀ id, w.hand ≠ .ours id)

theorem holds_keptOr {found : Prop} :
    Holds env c (KeptOr env j found) where
  stable := by
    intro e w hw he
    refine ⟨holds_keptOf.stable e w hw.1 he, fun hfound => ?_⟩
    have hours := hw.2 hfound
    cases e with
    | canonical =>
      exact fun id => nofun
    | legacy =>
      exact hours
    | inline =>
      exact hours
    | wait =>
      exact hours
  crash := fun w hw _ => hw.1.1

theorem Kept.recovered {s : WorkspaceMigrationPersistedState} {t u : WorkspaceMigrationTransaction}
    (h : Kept env w) (ht : w.journal.transaction = some t) (hphase : t.phase = .written)
    (hmode : s.modeOverride = w.journal.modeOverride) (hu : s.transaction = some u)
    (hid : u.transactionId = t.transactionId) (hhash : u.payloadHash = t.payloadHash)
    (hrecovered : u.phase = .rollbackAvailable) (havailable : u.rollbackAvailable = true)
    (hdeadline : u.rollbackDeadline.isSome = true) :
    Rest env { w with journal := s, activation := w.activationAfter s false } := by
  refine Kept.rest_of_phase ⟨fun hvalid => served_of_mode hmode (h.served hvalid), ?_, ?_, ?_⟩ ?_
  · exact fun a ha => h.good a (activationAfter_false ha)
  · intro id hours
    obtain ⟨raw, v, hcanonical, hraw, hv, hvid, hvhash, _⟩ := h.ours id hours
    obtain rfl : t = v := some.inj (ht.symm.trans hv)
    exact ⟨raw, u, hcanonical, hraw, hu, hid.trans hvid, hhash.trans hvhash,
      .inl ⟨hrecovered, havailable, hdeadline⟩⟩
  · intro v hv
    obtain rfl : u = v := some.inj (hu.symm.trans hv)
    refine ⟨by rw [hrecovered]; exact nofun, fun _ => ?_⟩
    rw [hid]
    exact (h.phases t ht).2 (.inl hphase)
  · rw [phase_of_transaction hu, hrecovered]
    exact nofun

theorem Kept.lost {s : WorkspaceMigrationPersistedState} {u : WorkspaceMigrationTransaction}
    (h : Kept env w) (hours : ∀ id, w.hand ≠ .ours id)
    (hmode : s.modeOverride = w.journal.modeOverride) (hu : s.transaction = some u)
    (hphase : u.phase = .failed) :
    Rest env { w with journal := s, activation := w.activationAfter s false } := by
  refine Kept.rest_of_phase ⟨fun hvalid => served_of_mode hmode (h.served hvalid), ?_, ?_, ?_⟩ ?_
  · exact fun a ha => h.good a (activationAfter_false ha)
  · exact fun id hid => absurd hid (hours id)
  · intro v hv
    obtain rfl : u = v := some.inj (hu.symm.trans hv)
    rw [hphase]
    exact ⟨nofun, fun h => by rcases h with h | h <;> cases h⟩
  · rw [phase_of_transaction hu, hphase]
    exact nofun

def Recovers (env : Environment) :
    Except String (WorkspaceConfigLoadResult × WorkspaceMigrationPersistedState) → World → Prop
  | .ok result, w => RestOf env result.2 w
  | .error _, w => Rest env w

theorem keeps_recoverInterruptedTransaction {loadResult : WorkspaceConfigLoadResult}
    (hw : KeptOf env j w) :
    Keeps (service env) (conditions env) (Kept env) c (Recovers env)
      (recoverInterruptedTransaction env loadResult j) w := by
  have hrest : j.transaction.map WorkspaceMigrationTransaction.phase ≠ some .written →
      RestOf env j w := by
    intro hphase
    refine ⟨hw.1.rest_of_phase ?_, hw.2⟩
    rw [World.phase, hw.2]
    exact hphase
  cases ht : j.transaction with
  | none =>
    simp only [recoverInterruptedTransaction, ht]
    exact hrest (by simp [ht])
  | some t =>
    simp only [recoverInterruptedTransaction, ht]
    by_cases hphase : t.phase ≠ .written
    · rw [if_pos hphase]
      exact hrest (by simpa [ht] using hphase)
    rw [if_neg hphase]
    have hwritten : t.phase = .written := not_not.mp hphase
    refine keeps_load holds_keptOf hw (fun _ _ hv hmissing => hv.1.rest_of_missing hmissing) ?_
    intro v hv
    let found : Prop := (loaded env v).revision ≠ some t.payloadHash
    have hfound : found → ∀ id, v.hand ≠ .ours id := by
      intro hbad id hours
      obtain ⟨raw, u, hcanonical, _, hu, _, hhash, _⟩ := hv.1.ours id hours
      rw [hv.2] at hu
      obtain rfl : t = u := some.inj (ht.symm.trans hu)
      refine hbad ?_
      rw [loaded, hcanonical, hhash]
      rfl
    have hor : KeptOr env j found v := ⟨hv, hfound⟩
    apply holds_keptOr.perform hor
    intro x choice hx _
    by_cases hsame : (loaded env v).revision = some t.payloadHash
    · rw [if_pos hsame]
      apply keeps_bind
      apply holds_keptOr.perform hx
      intro y _ hy _
      have hty : y.journal.transaction = some t := by
        rw [hy.1.2]
        exact ht
      have hrecovered := hy.1.1.recovered (s :=
          { j with
            transaction :=
              some
                { t with
                  phase := .rollbackAvailable
                  rollbackAvailable := true
                  rollbackDeadline :=
                    some (t.rollbackDeadline.getD (x.clock + env.rollbackWindowMs)) } })
        hty hwritten (by rw [hy.1.2]) rfl rfl rfl rfl rfl rfl
      exact ⟨hrecovered, rfl⟩
    · rw [if_neg hsame]
      apply keeps_bind
      apply holds_keptOr.perform hx
      intro y _ hy _
      have hlost := hy.1.1.lost (s :=
          { j with
            transaction :=
              some
                { t with
                  phase := .failed
                  rollbackAvailable := false
                  rollbackDeadline := some (x.clock + env.rollbackWindowMs)
                  error :=
                    some
                      "Interrupted migration could not be validated during startup recovery" } })
        (hy.2 hsame) (by rw [hy.1.2]) rfl rfl
      exact ⟨hlost, rfl⟩

/-- `initialize` brings the service to rest. -/
theorem keeps_initializeService (hw : Kept env w) :
    Keeps (service env) (conditions env) (Kept env) .initializeService
      (fun _ => Rest env) (initializeService env) w := by
  apply (holds_keptOf (j := w.journal)).perform ⟨hw, rfl⟩
  intro u choice hu _
  have hread : (answer .readJournal choice u).1 = w.journal := hu.2
  rw [hread]
  refine keeps_load holds_keptOf hu (fun _ _ hv hmissing => hv.1.rest_of_missing hmissing) ?_
  intro v hv
  apply keeps_bind
  refine Keeps.mono ?_ (keeps_recoverInterruptedTransaction hv)
  intro r t hr
  cases r with
  | error =>
    exact hr
  | ok =>
    refine keeps_detectMigrationSource holds_restOf hr (fun _ _ hx => hx.1) ?_
    intro x _ hx
    exact hx.1

section Guarded

variable {α β : Type}

theorem keeps_answer {p : Migration α} {f : α → β}
    (h : Keeps (service env) (conditions env) (Kept env) c (fun _ => Rest env) p w) :
    Keeps (service env) (conditions env) (Kept env) c (fun _ => Rest env)
      (p >>= fun a => pure (f a)) w := by
  apply keeps_bind
  refine Keeps.mono ?_ h
  intro r t hr
  cases r with
  | ok =>
    exact hr
  | error =>
    exact hr

/-- **Every call keeps the service at rest, and what is kept wherever it stops.** -/
theorem guarded (env : Environment) :
    Guarded (service env) (conditions env) (Rest env) (Kept env) where
  restEdit := fun _ _ hw he => hw.edited he
  downEdit := fun _ _ hw he => hw.edited he
  endedEdit := fun _ _ _ hw he => hw.edited he
  restDown := fun _ hw => hw.1
  runs := by
    intro call w hw hcall
    cases call with
    | initializeService =>
      exact keeps_answer (keeps_initializeService hw.1)
    | getStatus =>
      exact keeps_answer (keeps_getStatus hw)
    | previewMigration =>
      exact keeps_answer (keeps_previewMigration hw)
    | compareShadow =>
      exact keeps_answer (keeps_compareShadow hw)
    | applyMigration =>
      exact keeps_answer (keeps_applyMigration hw)
    | activateCanonical acknowledged =>
      exact keeps_answer (keeps_activateCanonical hw (hcall ⟨acknowledged, rfl⟩))
    | rollbackMigration =>
      exact keeps_answer (keeps_rollbackMigration hw)
  starts := by
    intro call w hstarts hw _
    have hcall : call = .initializeService := by simpa [service] using hstarts
    subst hcall
    exact keeps_answer (keeps_initializeService hw)

end Guarded

end WorkspaceMigration
end StudioWeb
