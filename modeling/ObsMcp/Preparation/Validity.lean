import ObsMcp.Foundations.Fallible
import ObsMcp.Preparation.Provenance

/-!
# What the journal check accepts

`Provenance.WellFormed` states the law of a preparation record without a scan: every field has
legal step lists, a field is prepared only after the earlier ones were accepted and recovered only
after the earlier ones were restored, the revision counts the steps, and a completed record is
restored and certain. `validate_eq_ok_iff` shows that `validate` accepts exactly the well-formed
records of the endpoint, the subject and the number of fields.

The statuses are read here as options (`lastPreparation`, `lastRecovery`); on a record whose
attempts all have steps they are what the source reads (`preparationStatus_eq`), so that no read of
a well-formed record panics.
-/

namespace ObsMcp.Preparation

open Foundations List

/-! ### Attempts -/

namespace Attempt

variable {attempt : Attempt} {recovery : Bool} {step : Step}

theorem status_eq_ok_iff : attempt.status = .ok step ↔ attempt.steps.getLast? = some step := by
  unfold status
  cases attempt.steps.getLast? with
  | none => simp
  | some last => simp

/-- What is read of an attempt that may be missing: its last step, if it has one. -/
theorem optional_eq_ok_iff {found : Option Attempt} {status : Option Step} :
    (match found with
      | none => .ok none
      | some attempt => some <$> attempt.status) = (.ok status : Except Fault (Option Step)) ↔
      status = found.bind (fun attempt ↦ attempt.steps.getLast?) ∧
        ∀ attempt ∈ found, attempt.steps ≠ [] := by
  cases found with
  | none => simp [eq_comm]
  | some attempt =>
    simp only [map_eq_ok_iff, status_eq_ok_iff, Option.bind_some, Option.mem_some_iff, forall_eq']
    constructor
    · rintro ⟨step, hstep, rfl⟩
      exact ⟨hstep.symm, fun hnil ↦ (by simp [hnil] at hstep)⟩
    · rintro ⟨rfl, hsteps⟩
      obtain ⟨step, hstep⟩ := Option.isSome_iff_exists.mp (getLast?_isSome.mpr hsteps)
      exact ⟨step, hstep, hstep.symm⟩

theorem steps_ne_nil_of_valid (hvalid : attempt.valid recovery = true) : attempt.steps ≠ [] := by
  intro hnil
  simp [valid, stepsValid, hnil] at hvalid

end Attempt

/-! ### Statuses of a field -/

namespace FieldProvenance

variable {field : FieldProvenance}

/-- The last step of the preparation. -/
def lastPreparation (field : FieldProvenance) : Option Step :=
  field.preparation.bind (fun attempt ↦ attempt.steps.getLast?)

/-- The last step of the last recovery. -/
def lastRecovery (field : FieldProvenance) : Option Step :=
  field.recovery.getLast?.bind (fun attempt ↦ attempt.steps.getLast?)

/-- The preparation of the field was accepted. -/
def owned (field : FieldProvenance) : Bool := field.lastPreparation == some .accepted

/-- The field has its value of before the preparation. -/
def isRestored (field : FieldProvenance) : Bool := field.lastRecovery.any Step.restores

/-- A status of the field leaves open whether a request reached OBS. -/
def isUncertain (field : FieldProvenance) : Bool :=
  field.lastPreparation.any Step.unsettled || field.lastRecovery.any Step.unsettled

/-- The number of steps written down for the field. -/
def size (field : FieldProvenance) : ℕ :=
  (field.preparation.toList.map (·.steps.length)).sum + (field.recovery.map (·.steps.length)).sum

/-- Every attempt of the field has a step. -/
def Written (field : FieldProvenance) : Prop :=
  (∀ attempt ∈ field.preparation, attempt.steps ≠ []) ∧
    ∀ attempt ∈ field.recovery, attempt.steps ≠ []

theorem eq_of_preparationStatus {status : Option Step}
    (hstatus : field.preparationStatus = .ok status) : status = field.lastPreparation :=
  (Attempt.optional_eq_ok_iff.mp hstatus).1

theorem preparationStatus_eq (hwritten : field.Written) :
    field.preparationStatus = .ok field.lastPreparation :=
  Attempt.optional_eq_ok_iff.mpr ⟨rfl, hwritten.1⟩

theorem eq_of_recoveryStatus {status : Option Step}
    (hstatus : field.recoveryStatus = .ok status) : status = field.lastRecovery :=
  (Attempt.optional_eq_ok_iff.mp hstatus).1

theorem recoveryStatus_eq (hwritten : field.Written) :
    field.recoveryStatus = .ok field.lastRecovery :=
  Attempt.optional_eq_ok_iff.mpr
    ⟨rfl, fun attempt hlast ↦ hwritten.2 attempt (mem_of_getLast? hlast)⟩

theorem ownsRestore_eq (hwritten : field.Written) : field.ownsRestore = .ok field.owned := by
  unfold ownsRestore
  rw [preparationStatus_eq hwritten]
  rfl

theorem restored_eq (hwritten : field.Written) : field.restored = .ok field.isRestored := by
  unfold restored
  rw [recoveryStatus_eq hwritten]
  rfl

theorem uncertain_eq (hwritten : field.Written) : field.uncertain = .ok field.isUncertain := by
  unfold uncertain isUncertain
  rw [preparationStatus_eq hwritten, recoveryStatus_eq hwritten]
  cases h : field.lastPreparation.any Step.unsettled with
  | true => simp [bind, Except.bind, h, pure, Except.pure]
  | false => simp [bind, Except.bind, h, pure, Except.pure]

theorem eq_of_ownsRestore {owns : Bool} (howns : field.ownsRestore = .ok owns) :
    owns = field.owned := by
  obtain ⟨status, hstatus, howns⟩ := bind_eq_ok_iff.mp howns
  rw [← pure_eq_ok_iff.mp howns, eq_of_preparationStatus hstatus]
  rfl

theorem eq_of_restored {restored : Bool} (hrestored : field.restored = .ok restored) :
    restored = field.isRestored := by
  obtain ⟨status, hstatus, hrestored⟩ := bind_eq_ok_iff.mp hrestored
  rw [← pure_eq_ok_iff.mp hrestored, eq_of_recoveryStatus hstatus]
  rfl

/-- The law of one field. -/
structure WellFormed (field : FieldProvenance) : Prop where
  preparation : ∀ attempt ∈ field.preparation, attempt.valid false = true
  recovery : ∀ attempt ∈ field.recovery, attempt.valid true = true
  recovery_le : field.recovery.length ≤ maxRecoveryAttempts
  retried : ∀ attempt ∈ field.recovery.dropLast, attempt.steps.getLast?.any Step.retryable = true
  settled : field.lastPreparation.any Step.unsettled = true → field.recovery = []
  observed : field.owned = false → ∀ attempt ∈ field.recovery, attempt.steps = [.observedBefore]

theorem WellFormed.written (hfield : field.WellFormed) : field.Written :=
  ⟨fun attempt hattempt ↦ Attempt.steps_ne_nil_of_valid (hfield.preparation attempt hattempt),
    fun attempt hattempt ↦ Attempt.steps_ne_nil_of_valid (hfield.recovery attempt hattempt)⟩

end FieldProvenance

namespace Provenance

open FieldProvenance

@[simp] theorem refuse_eq_ok_iff {error : ProvenanceError} {condition : Bool} {u : Unit} :
    refuse error condition = .ok u ↔ condition = false := by
  cases condition with
  | false => simp [refuse]
  | true => simp [refuse]

/-! ### Counting steps -/

theorem eq_of_countSteps {attempts : List Attempt} {start total : ℕ}
    (hcount : attempts.foldlM countSteps start = .ok total) :
    total = start + (attempts.map (·.steps.length)).sum := by
  induction attempts generalizing start with
  | nil => exact (Except.ok.inj hcount).symm
  | cons attempt attempts ih =>
    rw [foldlM_cons] at hcount
    obtain ⟨sum, hsum, hrest⟩ := bind_eq_ok_iff.mp hcount
    have hsum : checkedAdd start attempt.steps.length = some sum := by
      unfold countSteps at hsum
      cases hadd : checkedAdd start attempt.steps.length with
      | none => simp [hadd] at hsum
      | some value => simpa [hadd] using hsum
    rw [ih hrest, eq_of_checkedAdd hsum, map_cons, sum_cons, Nat.add_assoc]

theorem countSteps_foldlM {attempts : List Attempt} {start : ℕ}
    (hfits : start + (attempts.map (·.steps.length)).sum < 2 ^ 64) :
    attempts.foldlM countSteps start = .ok (start + (attempts.map (·.steps.length)).sum) := by
  induction attempts generalizing start with
  | nil => rfl
  | cons attempt attempts ih =>
    rw [map_cons, sum_cons, ← Nat.add_assoc] at hfits ⊢
    have hadd : checkedAdd start attempt.steps.length = some (start + attempt.steps.length) :=
      if_pos (by omega)
    rw [foldlM_cons, countSteps, hadd]
    exact ih hfits

/-! ### One field -/

variable {scan after : Scan} {field : FieldProvenance}

/-- A field that the scan accepts is well formed, and the scan goes on with what it read. -/
theorem scanField_sound (hscan : scanField scan field = .ok after) :
    field.WellFormed ∧ (scan.preparationStopped = true → field.preparation = none) ∧
      (scan.recoveryStopped = true → field.recovery = []) ∧
      after = ⟨scan.events + field.size, scan.preparationStopped || !field.owned,
        scan.recoveryStopped || !field.isRestored⟩ := by
  simp only [scanField, bind_eq_ok_iff, refuse_eq_ok_iff, pure_eq_ok_iff, forM_eq_ok_iff] at hscan
  obtain ⟨-, hstopped, status, hstatus, -, hrecoveryStopped, restored, hrestored, _, hstatus',
    -, hsettled, count, hcount, total, htotal, -, hvalid, -, hretried, owns, howns, -, hobserved,
    rfl⟩ := hscan
  obtain rfl := eq_of_preparationStatus hstatus
  obtain rfl := eq_of_preparationStatus hstatus'
  obtain rfl := eq_of_restored hrestored
  obtain rfl := eq_of_ownsRestore howns
  simp only [Bool.or_eq_false_iff, decide_eq_false_iff_not, Nat.not_lt] at hvalid
  obtain ⟨⟨hpreparation, hlength⟩, hrecovery⟩ := hvalid
  refine ⟨⟨?_, ?_, hlength, ?_, ?_, ?_⟩, ?_, ?_, ?_⟩
  · intro attempt hattempt
    rw [Option.mem_def] at hattempt
    simpa [hattempt] using hpreparation
  · intro attempt hattempt
    simpa using any_eq_false.mp hrecovery attempt hattempt
  · intro attempt hattempt
    rw [dropLast_eq_take] at hattempt
    obtain ⟨step, hstep, hretry⟩ := hretried attempt hattempt
    rw [Attempt.status_eq_ok_iff.mp hstep]
    simpa using hretry
  · intro hunsettled
    simpa [hunsettled] using hsettled
  · intro hnotOwned attempt hattempt
    rw [hnotOwned, Bool.not_false, Bool.true_and] at hobserved
    simpa using any_eq_false.mp hobserved attempt hattempt
  · intro hstop
    simpa [hstop] using hstopped
  · intro hstop
    simpa [hstop] using hrecoveryStopped
  · rw [eq_of_countSteps htotal, eq_of_countSteps hcount, Nat.add_assoc]
    rfl

/-- The scan accepts a well-formed field that may come after the fields before it. -/
theorem scanField_complete (hfield : field.WellFormed)
    (hstopped : scan.preparationStopped = true → field.preparation = none)
    (hrecovery : scan.recoveryStopped = true → field.recovery = [])
    (hfits : scan.events + field.size < 2 ^ 64) :
    scanField scan field = .ok ⟨scan.events + field.size, scan.preparationStopped || !field.owned,
      scan.recoveryStopped || !field.isRestored⟩ := by
  have hwritten := hfield.written
  have hsize : field.size = (field.preparation.toList.map (·.steps.length)).sum +
      (field.recovery.map (·.steps.length)).sum := rfl
  simp only [scanField, bind_eq_ok_iff, refuse_eq_ok_iff, pure_eq_ok_iff, forM_eq_ok_iff]
  refine ⟨(), ?_, _, preparationStatus_eq hwritten, (), ?_, _, restored_eq hwritten, _,
    preparationStatus_eq hwritten, (), ?_, _, countSteps_foldlM (by omega), _,
    countSteps_foldlM (by omega), (), ?_, (), ?_, _, ownsRestore_eq hwritten, (), ?_, ?_⟩
  · cases hstop : scan.preparationStopped with
    | false => rfl
    | true => simp [hstopped hstop]
  · cases hstop : scan.recoveryStopped with
    | false => rfl
    | true => simp [hrecovery hstop]
  · cases hunsettled : field.lastPreparation.any Step.unsettled with
    | false => rfl
    | true => simp [hfield.settled hunsettled]
  · simp only [Bool.or_eq_false_iff, decide_eq_false_iff_not, Nat.not_lt]
    refine ⟨⟨?_, hfield.recovery_le⟩, any_eq_false.mpr ?_⟩
    · cases hattempt : field.preparation with
      | none => rfl
      | some attempt => simpa using hfield.preparation attempt hattempt
    · intro attempt hattempt
      simpa using hfield.recovery attempt hattempt
  · intro attempt hattempt
    rw [← dropLast_eq_take] at hattempt
    obtain ⟨step, hstep, hretry⟩ := (Option.any_eq_true _ _).mp (hfield.retried attempt hattempt)
    exact ⟨step, Attempt.status_eq_ok_iff.mpr hstep, by simp [hretry]⟩
  · cases howned : field.owned with
    | true => rfl
    | false =>
      rw [Bool.not_false, Bool.true_and]
      refine any_eq_false.mpr fun attempt hattempt ↦ ?_
      simpa using hfield.observed howned attempt hattempt
  · rw [hsize, Nat.add_assoc]
    rfl

/-! ### All fields -/

/-- A field is prepared after an accepted one and recovered after a restored one. -/
def InOrder (first second : FieldProvenance) : Prop :=
  (second.preparation ≠ none → first.owned = true) ∧
    (second.recovery ≠ [] → first.isRestored = true)

theorem scanFields_sound {fields : List FieldProvenance}
    (hscan : fields.foldlM scanField scan = .ok after) :
    (∀ field ∈ fields, field.WellFormed) ∧ fields.Pairwise InOrder ∧
      (∀ field ∈ fields, (scan.preparationStopped = true → field.preparation = none) ∧
        (scan.recoveryStopped = true → field.recovery = [])) ∧
      after.events = scan.events + (fields.map FieldProvenance.size).sum := by
  induction fields generalizing scan with
  | nil =>
    cases hscan
    simp
  | cons field fields ih =>
    rw [foldlM_cons] at hscan
    obtain ⟨middle, hfield, hrest⟩ := bind_eq_ok_iff.mp hscan
    obtain ⟨hwellFormed, hstopped, hrecovery, rfl⟩ := scanField_sound hfield
    obtain ⟨hfields, hordered, hlater, hevents⟩ := ih hrest
    refine ⟨forall_mem_cons.mpr ⟨hwellFormed, hfields⟩, pairwise_cons.mpr ⟨?_, hordered⟩,
      forall_mem_cons.mpr ⟨⟨hstopped, hrecovery⟩, ?_⟩, ?_⟩
    · intro second hsecond
      constructor
      · intro hprepared
        by_contra howned
        exact hprepared ((hlater second hsecond).1 (by simp [howned]))
      · intro hrecovered
        by_contra hrestored
        exact hrecovered ((hlater second hsecond).2 (by simp [hrestored]))
    · intro second hsecond
      exact ⟨fun hstop ↦ (hlater second hsecond).1 (by simp [hstop]),
        fun hstop ↦ (hlater second hsecond).2 (by simp [hstop])⟩
    · rw [hevents, map_cons, sum_cons, Nat.add_assoc]

theorem scanFields_complete {fields : List FieldProvenance}
    (hfields : ∀ field ∈ fields, field.WellFormed) (hordered : fields.Pairwise InOrder)
    (hstopped : ∀ field ∈ fields, (scan.preparationStopped = true → field.preparation = none) ∧
      (scan.recoveryStopped = true → field.recovery = []))
    (hfits : scan.events + (fields.map FieldProvenance.size).sum < 2 ^ 64) :
    ∃ after, fields.foldlM scanField scan = .ok after ∧
      after.events = scan.events + (fields.map FieldProvenance.size).sum := by
  induction fields generalizing scan with
  | nil => exact ⟨scan, rfl, rfl⟩
  | cons field fields ih =>
    obtain ⟨hwellFormed, hfields⟩ := forall_mem_cons.mp hfields
    obtain ⟨hfirst, hordered⟩ := pairwise_cons.mp hordered
    obtain ⟨hhead, hstopped⟩ := forall_mem_cons.mp hstopped
    rw [map_cons, sum_cons, ← Nat.add_assoc] at hfits ⊢
    have hscan := scanField_complete hwellFormed hhead.1 hhead.2 (by omega)
    have hnext : ∀ second ∈ fields,
        ((scan.preparationStopped || !field.owned) = true → second.preparation = none) ∧
          ((scan.recoveryStopped || !field.isRestored) = true → second.recovery = []) := by
      intro second hsecond
      constructor
      · intro hstop
        by_contra hprepared
        have howned := (hfirst second hsecond).1 hprepared
        rw [howned, Bool.not_true, Bool.or_false] at hstop
        exact hprepared ((hstopped second hsecond).1 hstop)
      · intro hstop
        by_contra hrecovered
        have hrestored := (hfirst second hsecond).2 hrecovered
        rw [hrestored, Bool.not_true, Bool.or_false] at hstop
        exact hrecovered ((hstopped second hsecond).2 hstop)
    obtain ⟨after, hafter, hevents⟩ := @ih ⟨_, _, _⟩ hfields hordered hnext hfits
    refine ⟨after, ?_, hevents⟩
    rw [foldlM_cons, hscan]
    exact hafter

/-! ### The whole record -/

/-- The number of steps of a record; the completion is one. -/
def size (record : Provenance) : ℕ :=
  record.completed.toNat + (record.fields.map FieldProvenance.size).sum

/-- The record is one of the endpoint and the subject, with the given number of fields. -/
structure Describes (record : Provenance) (digests : Digests) (endpoint : String) (subject : Json)
    (count : ℕ) : Prop where
  codec : record.codec = "obs-mcp-preparation-v2"
  endpoint : record.endpointHash = digests.endpointHash endpoint
  subject : record.subjectHash = digests.subjectHash subject
  count : record.fields.length = count

/-- The law of a record. -/
structure WellFormed (record : Provenance) : Prop where
  revision_le : record.revision ≤ maxRevision
  fields : ∀ field ∈ record.fields, field.WellFormed
  ordered : record.fields.Pairwise InOrder
  counted : record.size = record.revision
  finished : record.completed = true →
    ∀ field ∈ record.fields, field.isRestored = true ∧ field.isUncertain = false

variable {record : Provenance}

section

variable (hwritten : ∀ field ∈ record.fields, field.Written)
include hwritten

theorem uncertain_eq : record.uncertain = .ok (record.fields.any isUncertain) :=
  anyM_of_ok fun field hfield ↦ FieldProvenance.uncertain_eq (hwritten field hfield)

theorem allRestored_eq :
    record.fields.allM FieldProvenance.restored =
      .ok (record.fields.all isRestored) :=
  allM_of_ok fun field hfield ↦ restored_eq (hwritten field hfield)

theorem finished_eq_ok_iff :
    record.finished = .ok true ↔
      ∀ field ∈ record.fields, field.isRestored = true ∧ field.isUncertain = false := by
  unfold finished
  rw [allRestored_eq hwritten, uncertain_eq hwritten]
  cases hrestored : record.fields.all isRestored with
  | false =>
    simp only [bind, Except.bind, Bool.not_false, if_true, pure, Except.pure, Except.ok.injEq,
      Bool.false_eq_true, false_iff]
    intro hall
    have hall := all_eq_true.mpr fun field hfield ↦ (hall field hfield).1
    exact absurd (hrestored.symm.trans hall) Bool.false_ne_true
  | true =>
    have hrestored := all_eq_true.mp hrestored
    simp only [bind, Except.bind, Bool.not_true, Bool.false_eq_true, if_false, pure, Except.pure,
      Except.ok.injEq, Bool.not_eq_true', any_eq_false, Bool.not_eq_true]
    exact ⟨fun hcertain field hfield ↦ ⟨hrestored field hfield, hcertain field hfield⟩,
      fun hall field hfield ↦ (hall field hfield).2⟩

end

theorem WellFormed.written (hrecord : record.WellFormed) : ∀ field ∈ record.fields, field.Written :=
  fun field hfield ↦ (hrecord.fields field hfield).written

/-- The check accepts exactly the well-formed records of the endpoint, the subject and the
count. -/
theorem validate_eq_ok_iff {digests : Digests} {endpoint : String} {subject : Json} {count : ℕ} :
    record.validate digests endpoint subject count = .ok () ↔
      record.Describes digests endpoint subject count ∧ record.WellFormed := by
  constructor
  · intro hvalid
    simp only [validate, bind_eq_ok_iff, refuse_eq_ok_iff, Bool.or_eq_false_iff,
      decide_eq_false_iff_not, Nat.not_lt, bne_eq_false_iff_eq] at hvalid
    obtain ⟨-, ⟨⟨⟨⟨hcodec, hendpoint⟩, hsubject⟩, hrevision⟩, hcount⟩, scan, hscan, -, hevents,
      hcompleted⟩ := hvalid
    obtain ⟨hfields, hordered, -, htotal⟩ := scanFields_sound hscan
    refine ⟨⟨hcodec, hendpoint, hsubject, hcount⟩, hrevision, hfields, hordered, ?_, ?_⟩
    · rw [← hevents, htotal]
      rfl
    · intro hdone
      rw [if_pos hdone] at hcompleted
      obtain ⟨finished, hfinished, htrue⟩ := bind_eq_ok_iff.mp hcompleted
      have htrue : finished = true := by simpa using htrue
      exact (finished_eq_ok_iff fun field hfield ↦ (hfields field hfield).written).mp
        (htrue ▸ hfinished)
  · rintro ⟨hdescribes, hrecord⟩
    have hfits : record.size < 2 ^ 64 := by
      rw [hrecord.counted]
      exact Nat.lt_of_le_of_lt hrecord.revision_le (by decide)
    obtain ⟨scan, hscan, hevents⟩ := @scanFields_complete ⟨record.completed.toNat, false, false⟩ _
      hrecord.fields hrecord.ordered (by simp) hfits
    simp only [validate, bind_eq_ok_iff, refuse_eq_ok_iff, Bool.or_eq_false_iff,
      decide_eq_false_iff_not, Nat.not_lt, bne_eq_false_iff_eq]
    refine ⟨(), ⟨⟨⟨⟨hdescribes.codec, hdescribes.endpoint⟩, hdescribes.subject⟩,
      hrecord.revision_le⟩, hdescribes.count⟩, scan, hscan, (), hevents.trans hrecord.counted, ?_⟩
    by_cases hdone : record.completed = true
    · rw [if_pos hdone, (finished_eq_ok_iff hrecord.written).mpr (hrecord.finished hdone)]
      rfl
    · rw [if_neg hdone]
      rfl

end Provenance

end ObsMcp.Preparation
