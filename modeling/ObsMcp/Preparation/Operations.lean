import ObsMcp.Preparation.Validity

/-!
# The operations of the preparation journal

The five operations as one transition system. `Change` lists what an operation can do to one field,
with the fields before and after it, and `Extends` what it can do to a record. On a record whose
attempts all have steps, some operation leads from a record to another exactly when the second
extends the first, and begins no recovery attempt while a delivery is uncertain (`extends_of_call`,
`call_of_extends`).
-/

namespace ObsMcp.Preparation

open Foundations List

/-- The five operations with their arguments. -/
inductive Operation
  | beginPreparation (index : ℕ) (fence : Fence)
  | beginRecovery (index : ℕ) (fence : Fence)
  | advance (index : ℕ) (recovery : Bool) (next : Step)
  | observedBefore (index : ℕ) (fence : Fence)
  | complete
  deriving DecidableEq

def Operation.call : Operation → Provenance.Call
  | .beginPreparation index fence => Provenance.beginPreparation index fence
  | .beginRecovery index fence => Provenance.beginRecovery index fence
  | .advance index recovery next => Provenance.advance index recovery next
  | .observedBefore index fence => Provenance.observedBefore index fence
  | .complete => Provenance.complete

namespace Provenance

open FieldProvenance

variable {record after : Provenance}

/-! ### Checks, revision, change -/

/-- A call checks, then counts, then changes the record. -/
theorem checked_apply (guard : Provenance → Except Fault Unit) (edit : Provenance → Provenance)
    (record : Provenance) :
    checked guard edit record = match guard record with
      | .error fault => .error fault record
      | .ok () =>
        match bump record with
        | .ok () bumped => .ok () (edit bumped)
        | .error fault bumped => .error fault bumped := by
  show (match guard record with
    | .error fault => throw fault
    | .ok () => do bump; modify edit : Call) record = _
  cases guard record with
  | error fault => rfl
  | ok u =>
    show EStateM.bind bump (fun _ ↦ modify edit) record = _
    unfold EStateM.bind
    cases bump record with
    | ok u bumped => rfl
    | error fault bumped => rfl

variable {edit : Provenance → Provenance} {guard : Provenance → Except Fault Unit} {fault : Fault}
  {attempt : Attempt}

theorem checked_eq_ok_iff :
    checked guard edit record = .ok () after ↔ guard record = .ok () ∧
      record.completed = false ∧ record.revision + 1 ≤ maxRevision ∧
      after = edit { record with revision := record.revision + 1 } := by
  rw [checked_apply]
  cases guard record with
  | error fault => simp
  | ok u =>
    unfold bump
    cases hcompleted : record.completed with
    | true => simp
    | false =>
      by_cases hle : record.revision + 1 ≤ maxRevision
      · have hadd : checkedAdd record.revision 1 = some (record.revision + 1) :=
          if_pos (Nat.lt_of_le_of_lt hle (by decide))
        simp [hadd, Option.filter, hle, eq_comm]
      · have hnone : (checkedAdd record.revision 1).filter
            (fun revision ↦ decide (revision ≤ maxRevision)) = none := by
          rw [Option.filter_eq_none_iff]
          intro revision hrevision
          rw [eq_of_checkedAdd hrevision]
          simpa using hle
        simp [hnone, hle]

theorem eq_of_bump_error (hbump : bump record = .error fault after) : after = record := by
  unfold bump at hbump
  split_ifs at hbump
  · exact (EStateM.Result.error.inj hbump).2.symm
  · split at hbump
    · exact (EStateM.Result.error.inj hbump).2.symm
    · cases hbump

/-- A call that fails leaves the record as it was. -/
theorem eq_of_checked_error (hcall : checked guard edit record = .error fault after) :
    after = record := by
  rw [checked_apply] at hcall
  cases hguard : guard record with
  | error fault =>
    rw [hguard] at hcall
    exact (EStateM.Result.error.inj hcall).2.symm
  | ok u =>
    rw [hguard] at hcall
    cases hbump : bump record with
    | ok u bumped => simp [hbump] at hcall
    | error fault bumped =>
      simp only [hbump] at hcall
      rw [← (EStateM.Result.error.inj hcall).2]
      exact eq_of_bump_error hbump

/-! ### What an operation can do -/

/-- What an operation can do to a field, given the fields before and after it. -/
inductive Change (before later : List FieldProvenance) (field : FieldProvenance) :
    FieldProvenance → Prop
  | prepare {fence : Fence} (hfence : fence.valid = true)
      (hidle : ∀ other ∈ before ++ field :: later, other.recovery = [])
      (hbefore : ∀ other ∈ before, other.owned = true) (hfresh : field.preparation = none) :
      Change before later field { field with preparation := some ⟨fence, [.intent]⟩ }
  | advancePreparation {attempt : Attempt} {last next : Step}
      (hidle : ∀ other ∈ before ++ field :: later, other.recovery = [])
      (hattempt : field.preparation = some attempt) (hlast : attempt.steps.getLast? = some last)
      (hfollows : follows last next = true) :
      Change before later field { field with preparation := some (attempt.push next) }
  | recover {fence : Fence} (hfence : fence.valid = true)
      (hbefore : ∀ other ∈ before, other.isRestored = true) (howned : field.owned = true)
      (hlimit : field.recovery.length < maxRecoveryAttempts)
      (hretry : field.lastRecovery.all Step.retryable = true) :
      Change before later field (field.pushRecovery ⟨fence, [.intent]⟩)
  | advanceRecovery {earlier : List Attempt} {attempt : Attempt} {last next : Step}
      (hattempt : field.recovery = earlier ++ [attempt])
      (hlast : attempt.steps.getLast? = some last) (hfollows : follows last next = true) :
      Change before later field { field with recovery := earlier ++ [attempt.push next] }
  | observe {fence : Fence} (hfence : fence.valid = true)
      (hbefore : ∀ other ∈ before, other.isRestored = true)
      (hsettled : field.lastPreparation.any Step.unsettled = false)
      (hlimit : field.recovery.length < maxRecoveryAttempts)
      (hretry : field.lastRecovery.all Step.retryable = true) :
      Change before later field (field.pushRecovery ⟨fence, [.observedBefore]⟩)

/-- One legal step of a record, up to the certainty that a recovery needs: one field changes, or
the record is completed. -/
inductive Extends (record : Provenance) : Provenance → Prop
  | field {before later : List FieldProvenance} {field next : FieldProvenance}
      (hopen : record.completed = false) (hrevision : record.revision + 1 ≤ maxRevision)
      (hfields : record.fields = before ++ field :: later)
      (hchange : Change before later field next) :
      Extends record { record with
        revision := record.revision + 1
        fields := before ++ next :: later }
  | complete (hopen : record.completed = false) (hrevision : record.revision + 1 ≤ maxRevision)
      (hfinished : ∀ field ∈ record.fields, field.isRestored = true ∧ field.isUncertain = false) :
      Extends record { record with
        revision := record.revision + 1
        completed := true }

/-- The next record has a recovery attempt that was just begun and that the record does not
have. -/
def opensRecovery (record next : Provenance) : Bool :=
  (record.fields.zip next.fields).any (fun pair ↦
    decide (pair.1.recovery.length < pair.2.recovery.length) &&
      pair.2.lastRecovery == some .intent)

/-! ### The checks -/

section Guards

variable {index : ℕ} {fence : Fence} {recovery : Bool} {next : Step}
  (hwritten : ∀ field ∈ record.fields, field.Written)

theorem getField_eq_ok_iff {field : FieldProvenance} :
    record.getField index = .ok field ↔ record.fields[index]? = some field := by
  unfold getField
  cases record.fields[index]? with
  | none => simp
  | some found => simp

theorem recovering_eq_false_iff :
    record.recovering = false ↔ ∀ other ∈ record.fields, other.recovery = [] := by
  simp [recovering, any_eq_false]

include hwritten

theorem anyNotOwned_eq :
    (record.fields.take index).anyM (fun field ↦ (!·) <$> field.ownsRestore) =
      .ok (!(record.fields.take index).all owned) := by
  rw [anyM_of_ok (g := fun field ↦ !field.owned), not_all_eq_any_not]
  intro field hfield
  rw [ownsRestore_eq (hwritten field (mem_of_mem_take hfield))]
  rfl

theorem anyNotRestored_eq :
    (record.fields.take index).anyM (fun field ↦ (!·) <$> field.restored) =
      .ok (!(record.fields.take index).all isRestored) := by
  rw [anyM_of_ok (g := fun field ↦ !field.isRestored), not_all_eq_any_not]
  intro field hfield
  rw [restored_eq (hwritten field (mem_of_mem_take hfield))]
  rfl

theorem beginPreparationGuard_eq_ok_iff :
    beginPreparationGuard index fence record = .ok () ↔ fence.valid = true ∧
      (∀ other ∈ record.fields, other.recovery = []) ∧
      (∀ other ∈ record.fields.take index, other.owned = true) ∧
      ∃ field, record.fields[index]? = some field ∧ field.preparation = none := by
  simp only [beginPreparationGuard, anyNotOwned_eq hwritten, bind_eq_ok_iff, refuse_eq_ok_iff,
    Bool.or_eq_false_iff, recovering_eq_false_iff, Bool.not_eq_false', exists_const,
    Except.ok.injEq, exists_eq_left', all_eq_true, and_assoc, and_congr_right_iff]
  intro _ hidle _
  cases hfield : record.fields[index]? with
  | none => simp
  | some field => simp [hidle field (mem_of_getElem? hfield)]

theorem beginRecoveryGuard_eq_ok_iff :
    beginRecoveryGuard index fence record = .ok () ↔
      record.fields.any isUncertain = false ∧ fence.valid = true ∧
      (∀ other ∈ record.fields.take index, other.isRestored = true) ∧
      ∃ field, record.fields[index]? = some field ∧ field.owned = true ∧
        field.recovery.length < maxRecoveryAttempts ∧
        field.lastRecovery.all Step.retryable = true := by
  simp only [beginRecoveryGuard, uncertain_eq hwritten, anyNotRestored_eq hwritten,
    bind_eq_ok_iff, refuse_eq_ok_iff, Bool.not_eq_false', exists_const, Except.ok.injEq,
    exists_eq_left', all_eq_true, getField_eq_ok_iff, decide_eq_false_iff_not, Nat.not_le,
    and_congr_right_iff]
  intro _ _ _
  refine exists_congr fun field ↦ and_congr_right fun hfield ↦ ?_
  have hwritten := hwritten field (mem_of_getElem? hfield)
  simp only [ownsRestore_eq hwritten, recoveryStatus_eq hwritten,
    Except.ok.injEq, exists_eq_left']
  cases field.lastRecovery with
  | none => simp
  | some last => simp

theorem observedBeforeGuard_eq_ok_iff :
    observedBeforeGuard index fence record = .ok () ↔ fence.valid = true ∧
      (∀ other ∈ record.fields.take index, other.isRestored = true) ∧
      ∃ field, record.fields[index]? = some field ∧
        field.lastPreparation.any Step.unsettled = false ∧
        field.recovery.length < maxRecoveryAttempts ∧
        field.lastRecovery.all Step.retryable = true := by
  simp only [observedBeforeGuard, anyNotRestored_eq hwritten, bind_eq_ok_iff, refuse_eq_ok_iff,
    Bool.not_eq_false', exists_const, Except.ok.injEq, exists_eq_left', all_eq_true,
    getField_eq_ok_iff, decide_eq_false_iff_not, Nat.not_le, and_congr_right_iff]
  intro _ _
  refine exists_congr fun field ↦ and_congr_right fun hfield ↦ ?_
  have hwritten := hwritten field (mem_of_getElem? hfield)
  simp only [preparationStatus_eq hwritten,
    recoveryStatus_eq hwritten, Except.ok.injEq, exists_eq_left']
  cases field.lastRecovery with
  | none => simp
  | some last => simp [and_comm]

theorem completeGuard_eq_ok_iff :
    completeGuard record = .ok () ↔
      ∀ field ∈ record.fields, field.isRestored = true ∧ field.isUncertain = false := by
  simp only [completeGuard, uncertain_eq hwritten, allRestored_eq hwritten, bind_eq_ok_iff,
    refuse_eq_ok_iff, Except.ok.injEq, exists_eq_left', exists_const, Bool.not_eq_false',
    all_eq_true, any_eq_false, Bool.not_eq_true]
  exact ⟨fun hall field hfield ↦ ⟨hall.2 field hfield, hall.1 field hfield⟩,
    fun hall ↦ ⟨fun field hfield ↦ (hall field hfield).2, fun field hfield ↦ (hall field hfield).1⟩⟩

omit hwritten in
theorem advanceGuard_eq_ok_iff :
    advanceGuard index recovery next record = .ok () ↔
      (recovery = false → ∀ other ∈ record.fields, other.recovery = []) ∧
      ∃ field attempt last, record.fields[index]? = some field ∧
        (if recovery then field.recovery.getLast? else field.preparation) = some attempt ∧
        attempt.steps.getLast? = some last ∧ follows last next = true := by
  simp only [advanceGuard, bind_eq_ok_iff, refuse_eq_ok_iff, exists_const, getField_eq_ok_iff]
  refine and_congr ?_ (exists_congr fun field ↦ ?_)
  · rw [← recovering_eq_false_iff]
    cases recovery with
    | true => simp
    | false => simp
  · cases hattempt : (if recovery then field.recovery.getLast? else field.preparation) with
    | none => simp
    | some attempt => simp [bind_eq_ok_iff, Attempt.status_eq_ok_iff]

end Guards

/-! ### Operations and legal steps -/

variable {field : FieldProvenance}

theorem pushStep_preparation (hattempt : field.preparation = some attempt) (next : Step) :
    field.pushStep false next = { field with preparation := some (attempt.push next) } := by
  simp [pushStep, hattempt]

theorem pushStep_recovery {earlier : List Attempt}
    (hattempt : field.recovery = earlier ++ [attempt]) (next : Step) :
    field.pushStep true next = { field with recovery := earlier ++ [attempt.push next] } := by
  simp [pushStep, hattempt, modifyLast_concat]

theorem modify_split (before later : List FieldProvenance) (field : FieldProvenance)
    (edit : FieldProvenance → FieldProvenance) :
    (before ++ field :: later).modify before.length edit = before ++ edit field :: later := by
  induction before with
  | nil => rfl
  | cons first before ih => simp [ih]

/-- The field at an index stands between the fields before and after it. -/
theorem exists_split {fields : List FieldProvenance} {index : ℕ}
    (hfield : fields[index]? = some field) :
    ∃ before later, fields = before ++ field :: later ∧ index = before.length ∧
      fields.take index = before := by
  obtain ⟨hindex, rfl⟩ := List.getElem?_eq_some_iff.mp hfield
  refine ⟨fields.take index, fields.drop (index + 1), ?_, ?_, rfl⟩
  · rw [← drop_eq_getElem_cons hindex, take_append_drop]
  · rw [length_take, Nat.min_eq_left (Nat.le_of_lt hindex)]

/-- A record with the same fields has no new attempt. -/
theorem opensRecovery_of_fields_eq (hfields : after.fields = record.fields) :
    opensRecovery record after = false := by
  unfold opensRecovery
  rw [hfields]
  induction record.fields with
  | nil => rfl
  | cons field fields ih => simpa using ih

theorem opensRecovery_split {before later : List FieldProvenance} {next : FieldProvenance}
    (hrecord : record.fields = before ++ field :: later)
    (hafter : after.fields = before ++ next :: later) :
    opensRecovery record after =
      (decide (field.recovery.length < next.recovery.length) &&
        next.lastRecovery == some .intent) := by
  have hsame : ∀ fields : List FieldProvenance,
      opensRecovery { record with fields } { record with fields } = false :=
    fun fields ↦ opensRecovery_of_fields_eq rfl
  simp only [opensRecovery] at hsame
  unfold opensRecovery
  rw [hrecord, hafter, zip_append rfl, any_append, zip_cons_cons, any_cons,
    hsame, hsame, Bool.false_or, Bool.or_false]

/-- Every operation that succeeds is a legal step, and begins no recovery attempt while a delivery
is uncertain. -/
theorem extends_of_call (hwritten : ∀ field ∈ record.fields, field.Written)
    {operation : Operation} (hcall : operation.call record = .ok () after) :
    Extends record after ∧
      (opensRecovery record after = true →
        record.fields.any isUncertain = false) := by
  cases operation with
  | beginPreparation index fence =>
    obtain ⟨hguard, hopen, hrevision, rfl⟩ := checked_eq_ok_iff.mp hcall
    obtain ⟨hfence, hidle, hbefore, field, hfield, hfresh⟩ :=
      (beginPreparationGuard_eq_ok_iff hwritten).mp hguard
    obtain ⟨before, later, hsplit, rfl, htake⟩ := exists_split hfield
    rw [htake] at hbefore
    rw [hsplit] at hidle
    simp only [editField, hsplit, modify_split]
    refine ⟨.field hopen hrevision hsplit (.prepare hfence hidle hbefore hfresh), ?_⟩
    rw [opensRecovery_split hsplit rfl]
    simp
  | beginRecovery index fence =>
    obtain ⟨hguard, hopen, hrevision, rfl⟩ := checked_eq_ok_iff.mp hcall
    obtain ⟨hcertain, hfence, hbefore, field, hfield, howned, hlimit, hretry⟩ :=
      (beginRecoveryGuard_eq_ok_iff hwritten).mp hguard
    obtain ⟨before, later, hsplit, rfl, htake⟩ := exists_split hfield
    rw [htake] at hbefore
    refine ⟨?_, fun _ ↦ hcertain⟩
    simp only [editField, hsplit, modify_split]
    exact .field hopen hrevision hsplit (.recover hfence hbefore howned hlimit hretry)
  | advance index recovery next =>
    obtain ⟨hguard, hopen, hrevision, rfl⟩ := checked_eq_ok_iff.mp hcall
    obtain ⟨hidle, field, attempt, last, hfield, hattempt, hlast, hfollows⟩ :=
      advanceGuard_eq_ok_iff.mp hguard
    obtain ⟨before, later, hsplit, rfl, -⟩ := exists_split hfield
    simp only [editField, hsplit, modify_split]
    cases recovery with
    | false =>
      have hattempt : field.preparation = some attempt := by simpa using hattempt
      rw [pushStep_preparation hattempt]
      refine ⟨.field hopen hrevision hsplit
        (.advancePreparation (hsplit ▸ hidle rfl) hattempt hlast hfollows), ?_⟩
      rw [opensRecovery_split hsplit rfl]
      simp
    | true =>
      obtain ⟨earlier, hearlier⟩ := getLast?_eq_some_iff.mp (by simpa using hattempt)
      rw [pushStep_recovery hearlier]
      refine ⟨.field hopen hrevision hsplit (.advanceRecovery hearlier hlast hfollows), ?_⟩
      rw [opensRecovery_split hsplit rfl]
      simp [hearlier]
  | observedBefore index fence =>
    obtain ⟨hguard, hopen, hrevision, rfl⟩ := checked_eq_ok_iff.mp hcall
    obtain ⟨hfence, hbefore, field, hfield, hsettled, hlimit, hretry⟩ :=
      (observedBeforeGuard_eq_ok_iff hwritten).mp hguard
    obtain ⟨before, later, hsplit, rfl, htake⟩ := exists_split hfield
    rw [htake] at hbefore
    simp only [editField, hsplit, modify_split]
    refine ⟨.field hopen hrevision hsplit (.observe hfence hbefore hsettled hlimit hretry), ?_⟩
    rw [opensRecovery_split hsplit rfl]
    simp [pushRecovery, lastRecovery]
  | complete =>
    obtain ⟨hguard, hopen, hrevision, rfl⟩ := checked_eq_ok_iff.mp hcall
    refine ⟨.complete hopen hrevision ((completeGuard_eq_ok_iff hwritten).mp hguard), ?_⟩
    intro hopens
    exact absurd ((opensRecovery_of_fields_eq rfl).symm.trans hopens) Bool.false_ne_true

/-- Every legal step is an operation, when it begins no recovery attempt while a delivery is
uncertain. -/
theorem call_of_extends (hwritten : ∀ field ∈ record.fields, field.Written)
    (hextends : Extends record after)
    (hcertain : opensRecovery record after = true →
      record.fields.any isUncertain = false) :
    ∃ operation : Operation, operation.call record = .ok () after := by
  cases hextends with
  | complete hopen hrevision hfinished =>
    exact ⟨.complete, checked_eq_ok_iff.mpr
      ⟨(completeGuard_eq_ok_iff hwritten).mpr hfinished, hopen, hrevision, rfl⟩⟩
  | @field before later field next hopen hrevision hsplit hchange =>
    have hfield : record.fields[before.length]? = some field := by simp [hsplit]
    have htake : record.fields.take before.length = before := by simp [hsplit]
    rw [opensRecovery_split hsplit rfl] at hcertain
    cases hchange with
    | @prepare fence hfence hidle hbefore hfresh =>
      refine ⟨.beginPreparation before.length fence, checked_eq_ok_iff.mpr
        ⟨(beginPreparationGuard_eq_ok_iff hwritten).mpr
          ⟨hfence, hsplit ▸ hidle, by rwa [htake], field, hfield, hfresh⟩, hopen, hrevision, ?_⟩⟩
      simp only [editField, hsplit, modify_split]
    | @advancePreparation attempt last step hidle hattempt hlast hfollows =>
      refine ⟨.advance before.length false step, checked_eq_ok_iff.mpr
        ⟨advanceGuard_eq_ok_iff.mpr ⟨fun _ ↦ hsplit ▸ hidle, field, attempt, last, hfield,
          by simpa using hattempt, hlast, hfollows⟩, hopen, hrevision, ?_⟩⟩
      simp only [editField, hsplit, modify_split, pushStep_preparation hattempt]
    | @recover fence hfence hbefore howned hlimit hretry =>
      have hcertain := hcertain (by
        simp [pushRecovery, lastRecovery])
      refine ⟨.beginRecovery before.length fence, checked_eq_ok_iff.mpr
        ⟨(beginRecoveryGuard_eq_ok_iff hwritten).mpr
          ⟨hcertain, hfence, by rwa [htake], field, hfield, howned, hlimit, hretry⟩, hopen,
          hrevision, ?_⟩⟩
      simp only [editField, hsplit, modify_split]
    | @advanceRecovery earlier attempt last step hattempt hlast hfollows =>
      refine ⟨.advance before.length true step, checked_eq_ok_iff.mpr
        ⟨advanceGuard_eq_ok_iff.mpr ⟨by simp, field, attempt, last, hfield,
          by simp [hattempt], hlast, hfollows⟩, hopen, hrevision, ?_⟩⟩
      simp only [editField, hsplit, modify_split, pushStep_recovery hattempt]
    | @observe fence hfence hbefore hsettled hlimit hretry =>
      refine ⟨.observedBefore before.length fence, checked_eq_ok_iff.mpr
        ⟨(observedBeforeGuard_eq_ok_iff hwritten).mpr
          ⟨hfence, by rwa [htake], field, hfield, hsettled, hlimit, hretry⟩, hopen, hrevision,
          ?_⟩⟩
      simp only [editField, hsplit, modify_split]

end Provenance

end ObsMcp.Preparation
