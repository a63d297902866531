import ObsMcp.Receipts.Apply
import ObsMcp.Receipts.Capture

/-!
# The workflow validators accept exactly the reachable receipts

A receipt that its validator refuses makes the store corrupt, so the validators of the two workflow
receipts must accept whatever the update tables can write. `workflow_validators_exact` proves both
inclusions, up to the identity fields and the times of a record: what a run from a prepared receipt
can reach passes the validator, and what passes the validator is reached by some run.

`Workflow` is what the two have in common: a validator that asks for a valid stamp and a sound rest,
and a table whose rows keep both. A row is then all an update needs (`Workflow.updated_of_row`).

For the second inclusion a record is rebuilt from its stages. Every intermediate record keeps the
stamp of the record and is updated at the time of its creation, so a row leads from a reached record
to a reached one (`Workflow.Reached.row`).
-/

namespace ObsMcp.Receipts

open Foundations Option

/-! ### Workflows -/

/-- Receipts whose validator asks for a valid stamp and a sound rest, and whose updates are the rows
of a table on the record with the time of the update. -/
structure Workflow (ρ υ : Type) where
  valid : ρ → Bool
  machine : Machine {record : ρ // valid record = true} (υ × String)
  stamp : ρ → Stamp
  restamp : Stamp → ρ → ρ
  Sound : ρ → Prop
  Row : ρ → υ → ρ → Prop
  Fits : ρ → υ → Prop
  restamp_stamp : ∀ record, restamp (stamp record) record = record
  stamp_restamp : ∀ stamped record, stamp (restamp stamped record) = stamped
  sound_restamp : ∀ stamped record, Sound (restamp stamped record) ↔ Sound record
  fits_restamp : ∀ stamped record update, Fits (restamp stamped record) update ↔ Fits record update
  valid_iff : ∀ record, valid record = true ↔ (stamp record).valid = true ∧ Sound record
  step_iff : ∀ receipt update utc next, machine.step receipt (update, utc) next ↔
    Row (restamp { stamp receipt.1 with updatedAt := utc } receipt.1) update next.1
  stamp_row : ∀ {record update next}, Row record update next → stamp next = stamp record
  sound_row : ∀ {record update next}, Row record update next → Fits record update →
    Sound record → Sound next

namespace Workflow

variable {ρ υ : Type} {workflow : Workflow ρ υ} {record next : ρ} {update : υ} {utc : String}

/-- An update for which the table has a row succeeds. Assumes: a valid time that is not before the
creation, and counts that fit. -/
theorem updated_of_row (workflow : Workflow ρ υ)
    (receipt : {record : ρ // workflow.valid record = true})
    (hrow : workflow.Row (workflow.restamp { workflow.stamp receipt.1 with updatedAt := utc }
      receipt.1) update next) (hutc : validTimestamp utc = true)
    (horder : textLt utc (workflow.stamp receipt.1).createdAt = false)
    (hfits : workflow.Fits receipt.1 update) :
    ∃ hvalid : workflow.valid next = true,
      workflow.machine.step receipt (update, utc) ⟨next, hvalid⟩ := by
  obtain ⟨hstamp, hsound⟩ := (workflow.valid_iff _).mp receipt.2
  have hvalid : workflow.valid next = true := by
    refine (workflow.valid_iff _).mpr ⟨?_, ?_⟩
    · rw [workflow.stamp_row hrow, workflow.stamp_restamp]
      exact Stamp.valid_update hstamp hutc horder
    · exact workflow.sound_row hrow ((workflow.fits_restamp _ _ _).mpr hfits)
        ((workflow.sound_restamp _ _).mpr hsound)
  exact ⟨hvalid, (workflow.step_iff _ _ _ _).mpr hrow⟩

/-- A record that some run writes, with the time of its creation as the time of its last update. -/
def Reached (workflow : Workflow ρ υ) (record : ρ) : Prop :=
  (workflow.stamp record).updatedAt = (workflow.stamp record).createdAt ∧
    ∃ hvalid : workflow.valid record = true, workflow.machine.Reachable ⟨record, hvalid⟩

/-- A row of the table leads from a reached record to a reached record. Assumes: counts that fit. -/
theorem Reached.row (hreached : workflow.Reached record) (hrow : workflow.Row record update next)
    (hfits : workflow.Fits record update) : workflow.Reached next := by
  obtain ⟨htime, hvalid, hreachable⟩ := hreached
  have hstamped : workflow.restamp { workflow.stamp record with
      updatedAt := (workflow.stamp record).createdAt } record = record := by
    rw [Stamp.created_eq htime, workflow.restamp_stamp]
  obtain ⟨hvalid', hstep⟩ := workflow.updated_of_row ⟨record, hvalid⟩ (hstamped.symm ▸ hrow)
    (Stamp.validTimestamp_created ((workflow.valid_iff _).mp hvalid).1) (textLt_irrefl _) hfits
  have hframe := workflow.stamp_row hrow
  exact ⟨hframe ▸ htime, hvalid', hreachable.step hstep⟩

/-- The validator accepts exactly what some run reaches, up to the stamp. Assumes: every record it
accepts with the time of its creation is reached. -/
theorem valid_iff_reachable (workflow : Workflow ρ υ)
    (hreached : ∀ record, workflow.valid record = true →
      (workflow.stamp record).updatedAt = (workflow.stamp record).createdAt →
        workflow.Reached record) (record : ρ) :
    workflow.valid record = true ↔ (workflow.stamp record).valid = true ∧
      ∃ receipt, workflow.machine.Reachable receipt ∧
        receipt.1 = workflow.restamp (workflow.stamp receipt.1) record := by
  rw [workflow.valid_iff]
  constructor
  · rintro ⟨hstamp, hsound⟩
    have hcreated : workflow.valid (workflow.restamp { workflow.stamp record with
        updatedAt := (workflow.stamp record).createdAt } record) = true := by
      refine (workflow.valid_iff _).mpr ⟨?_, (workflow.sound_restamp _ _).mpr hsound⟩
      rw [workflow.stamp_restamp]
      exact Stamp.valid_update hstamp (Stamp.validTimestamp_created hstamp) (textLt_irrefl _)
    obtain ⟨-, hvalid', hreachable⟩ := hreached _ hcreated (by rw [workflow.stamp_restamp])
    exact ⟨hstamp, _, hreachable, by rw [workflow.stamp_restamp]⟩
  · rintro ⟨hstamp, receipt, -, hreceipt⟩
    refine ⟨hstamp, ?_⟩
    rw [← workflow.sound_restamp (workflow.stamp receipt.1), ← hreceipt]
    exact ((workflow.valid_iff _).mp receipt.2).2

end Workflow

/-! ### Apply Scene -/

namespace ApplyRecord

open ApplyStageRecord

def workflow : Workflow ApplyRecord ApplyUpdate where
  valid := ApplyRecord.valid
  machine := applyMachine
  stamp := toStamp
  restamp stamp record := { record with toStamp := stamp }
  Sound record := record.version = 4 ∧ record.kind = "apply-scene-workflow" ∧
    record.postconditionObserved = false ∧ record.renderedComposition = "unverified" ∧
      record.historyValid = true
  Row := Row
  Fits := Fits
  restamp_stamp _ := rfl
  stamp_restamp _ _ := rfl
  sound_restamp _ _ := Iff.rfl
  fits_restamp _ _ update := by cases update <;> exact Iff.rfl
  valid_iff record := by
    rw [valid_iff]
    tauto
  step_iff _ _ _ _ := ApplyReceipt.updated_eq_ok
  stamp_row hrow := hrow.frame.1
  sound_row hrow hfits hsound := by
    obtain ⟨-, hversion, hkind, hpost, hrendered⟩ := hrow.frame
    exact ⟨hversion.trans hsound.1, hkind.trans hsound.2.1, hpost.trans hsound.2.2.1,
      hrendered.trans hsound.2.2.2.1, hrow.historyValid hfits hsound.2.2.2.2⟩

/-- The record with another history: a phase, a creations stage and a changes stage. -/
def withHistory (record : ApplyRecord) (phase : ApplyPhase) (creations : ApplyStageRecord)
    (changes : Option ApplyStageRecord) : ApplyRecord :=
  { record with phase := phase, creations := creations, changes := changes }

section Rebuild

variable {record : ApplyRecord} (hvalid : record.valid = true)
  (htime : record.updatedAt = record.createdAt)
include hvalid htime

variable {count : ℕ}

/-- The prepared record is reached for every safe count of creations. -/
theorem reached_prepared (hcount : count ≤ maxSafeInteger) :
    workflow.Reached (record.withHistory .prepared (.new count true) none) := by
  obtain ⟨hversion, hkind, hstamp, hpost, hrendered, -⟩ := valid_iff.mp hvalid
  have hprepared : (record.withHistory .prepared (.new count true) none).valid = true := by
    refine valid_iff.mpr ⟨hversion, hkind, hstamp, hpost, hrendered, ?_⟩
    rw [historyValid_iff]
    refine ⟨new_valid hcount true, by rintro _ ⟨⟩, ?_⟩
    by_cases hzero : count = 0 <;> simp [layout, withHistory, ApplyStageRecord.new, hzero]
  refine ⟨htime, hprepared, .initial ⟨record.operationId, record.endpointHash, record.generation,
    count, record.createdAt, hcount, ?_⟩⟩
  refine checkedBy_eq_ok.mpr ?_
  dsimp only
  obtain ⟨stamp, version, kind, phase, creations, changes, post, rendered⟩ := record
  simp only at hversion hkind hpost hrendered htime
  simp only [withHistory, hversion, hkind, hpost, hrendered]
  exact congrArg (fun stamp ↦ (⟨stamp, _, _, _, _, _, _, _⟩ : ApplyRecord))
    (Stamp.created_eq htime)

/-- The record with its creations sent is reached for every positive safe count. -/
theorem reached_creationsSent (hcount : count ≤ maxSafeInteger) (hneeded : count ≠ 0) :
    workflow.Reached (record.withHistory .dispatchingCreations
      ((ApplyStageRecord.new count true).set .dispatching none) none) :=
  (reached_prepared hvalid htime hcount).row
    (.dispatchCreations rfl (Nat.pos_of_ne_zero hneeded)) ⟨trivial, trivial⟩

/-- A record whose creations are over without a failure is reached in the continuation phase. -/
theorem reached_continuation (hdone : record.successfulCreations = true) :
    workflow.Reached (record.withHistory .continuation record.creations none) := by
  obtain ⟨hcreations, -⟩ := historyValid_iff.mp (valid_iff.mp hvalid).2.2.2.2.2
  have hsafe := requestCount_le hcreations
  simp only [successfulCreations, Bool.or_eq_true, Bool.and_eq_true, beq_iff_eq] at hdone
  rcases hdone with hnone | ⟨hphase, hclean⟩
  · have hnew := eq_new_of_valid hcreations (.inr hnone)
    rw [hnew] at hnone ⊢
    exact (reached_prepared hvalid htime hsafe).row (.ready rfl hnone) ⟨trivial, trivial⟩
  · obtain ⟨hneeded, counts, hset, hreports⟩ :=
      eq_set_of_valid hcreations hphase (by decide)
    obtain ⟨⟩ | ⟨⟩ | ⟨⟩ | hfit := hreports
    rename_i counts
    have hclean' : counts.failed = 0 ∧ counts.skipped = 0 := by
      rw [hset] at hclean
      simpa using hclean
    have hrow := (reached_creationsSent hvalid htime hsafe hneeded).row
      (.creationsAcknowledged counts rfl) ⟨hfit, trivial⟩
    rw [if_pos hclean'] at hrow
    rw [hset]
    exact hrow

/-- A record whose creations are over without a failure is reached with any positive safe count of
changes sent. -/
theorem reached_changesSent (hdone : record.successfulCreations = true)
    (hcount : count ≤ maxSafeInteger) (hneeded : count ≠ 0) :
    workflow.Reached (record.withHistory .dispatchingChanges record.creations
      (some ((ApplyStageRecord.new count false).set .dispatching none))) :=
  (reached_continuation hvalid htime hdone).row
    (.dispatchChanges count rfl (Nat.pos_of_ne_zero hneeded)) ⟨trivial, hcount⟩

end Rebuild

/-- Every valid record is reached, with the time of its creation as the time of its last update. -/
theorem reached_of_valid {record : ApplyRecord} (hvalid : record.valid = true)
    (htime : record.updatedAt = record.createdAt) : workflow.Reached record := by
  obtain ⟨hcreations, hchanges, hlayout⟩ :=
    historyValid_iff.mp (valid_iff.mp hvalid).2.2.2.2.2
  have hself : record = record.withHistory record.phase record.creations record.changes := rfl
  have hsafe := requestCount_le hcreations
  rw [hself]
  unfold layout at hlayout
  cases hphase : record.phase with
  | prepared =>
    simp only [hphase, Bool.and_eq_true, Bool.or_eq_true, beq_iff_eq,
      isNone_iff_eq_none] at hlayout
    rw [hlayout.2, eq_new_of_valid hcreations hlayout.1]
    exact reached_prepared hvalid htime hsafe
  | dispatchingCreations =>
    simp only [hphase, Bool.and_eq_true, beq_iff_eq, isNone_iff_eq_none] at hlayout
    obtain ⟨hneeded, counts, hset, hreports⟩ :=
      eq_set_of_valid hcreations hlayout.1 (by decide)
    cases hreports
    rw [hlayout.2, hset]
    exact reached_creationsSent hvalid htime hsafe hneeded
  | continuation =>
    simp only [hphase, Bool.and_eq_true, isNone_iff_eq_none] at hlayout
    rw [hlayout.2]
    exact reached_continuation hvalid htime hlayout.1
  | dispatchingChanges =>
    simp only [hphase, Bool.and_eq_true] at hlayout
    obtain ⟨hdone, hstage⟩ := hlayout
    obtain ⟨stage, hsome, hsent⟩ := (any_eq_true _ _).mp hstage
    obtain ⟨hneeded, counts, hset, hreports⟩ :=
      eq_set_of_valid (hchanges stage hsome) (beq_iff_eq.mp hsent) (by decide)
    cases hreports
    rw [hsome, hset]
    exact reached_changesSent hvalid htime hdone
      (requestCount_le (hchanges stage hsome)) hneeded
  | closed =>
    simp only [hphase, Bool.and_eq_true] at hlayout
    obtain ⟨hdone, hstage⟩ := hlayout
    obtain ⟨stage, hsome, hover⟩ := (any_eq_true _ _).mp hstage
    have hstageSafe := requestCount_le (hchanges stage hsome)
    simp only [Bool.or_eq_true, beq_iff_eq] at hover
    rcases hover with hacknowledged | hnone
    · obtain ⟨hneeded, counts, hset, hreports⟩ :=
        eq_set_of_valid (hchanges stage hsome) hacknowledged (by decide)
      obtain ⟨⟩ | ⟨⟩ | ⟨⟩ | hfit := hreports
      have hrow := (reached_changesSent hvalid htime hdone hstageSafe hneeded).row
        (.changesAcknowledged _ _ rfl rfl) ⟨by rintro _ ⟨⟩; exact hfit, trivial⟩
      rw [hsome, hset]
      exact hrow
    · have hnew := eq_new_of_valid (hchanges stage hsome) (.inr hnone)
      have hzero : stage.requestCount = 0 := by
        by_contra hpositive
        rw [hnew] at hnone
        simp [ApplyStageRecord.new, hpositive] at hnone
      rw [hsome, hnew, hzero]
      exact (reached_continuation hvalid htime hdone).row (.close rfl) ⟨trivial, trivial⟩
  | aborted =>
    simp only [hphase] at hlayout
    cases hsome : record.changes with
    | none =>
      simp only [hsome, Bool.or_eq_true, beq_iff_eq] at hlayout
      rcases hlayout with (hacknowledged | hdropped) | hnone
      · obtain ⟨hneeded, counts, hset, hreports⟩ :=
          eq_set_of_valid hcreations hacknowledged (by decide)
        obtain ⟨⟩ | ⟨⟩ | ⟨⟩ | hfit := hreports
        rename_i counts
        by_cases hclean : counts.failed = 0 ∧ counts.skipped = 0
        · have hdone : record.successfulCreations = true := by
            rw [successfulCreations, hset]
            simp [hclean]
          have hrow := (reached_continuation hvalid htime hdone).row
            (.abort (.inr rfl)) ⟨trivial, trivial⟩
          have hkept : (record.withHistory .continuation record.creations none).creations.phase ≠
              .prepared := by
            simp [withHistory, hacknowledged]
          rw [if_neg hkept] at hrow
          exact hrow
        · have hrow := (reached_creationsSent hvalid htime hsafe hneeded).row
            (.creationsAcknowledged counts rfl) ⟨hfit, trivial⟩
          rw [if_neg hclean] at hrow
          rw [hset]
          exact hrow
      · obtain ⟨hneeded, counts, hset, hreports⟩ :=
          eq_set_of_valid hcreations hdropped (by decide)
        cases hreports
        rw [hset]
        exact (reached_creationsSent hvalid htime hsafe hneeded).row
          (.creationsNotDispatched rfl) ⟨trivial, trivial⟩
      · have hnew := eq_new_of_valid hcreations (.inr hnone)
        have hrow := (reached_prepared hvalid htime hsafe).row
          (.abort (.inl rfl)) ⟨trivial, trivial⟩
        have hkept : (record.withHistory .prepared
            (.new record.creations.requestCount true) none).creations.phase ≠ .prepared := by
          rw [← hnew]
          simp [withHistory, hnone]
        rw [if_neg hkept] at hrow
        rw [hnew]
        exact hrow
    | some stage =>
      simp only [hsome, Bool.and_eq_true, beq_iff_eq] at hlayout
      have hstage := hchanges stage hsome
      obtain ⟨hneeded, counts, hset, hreports⟩ :=
        eq_set_of_valid hstage hlayout.2 (by decide)
      cases hreports
      have hrow := (reached_changesSent hvalid htime hlayout.1
        (requestCount_le hstage) hneeded).row
        (.changesNotDispatched _ rfl rfl) ⟨trivial, trivial⟩
      rw [hset]
      exact hrow
  | unknown =>
    simp only [hphase, Bool.or_eq_true, Bool.and_eq_true, beq_iff_eq,
      isNone_iff_eq_none] at hlayout
    rcases hlayout with ⟨hunknown, hnone⟩ | ⟨hdone, hstage⟩
    · obtain ⟨hneeded, counts, hset, hreports⟩ :=
        eq_set_of_valid hcreations hunknown (by decide)
      cases hreports
      rw [hnone, hset]
      exact (reached_creationsSent hvalid htime hsafe hneeded).row
        (.creationsUnknown rfl) ⟨trivial, trivial⟩
    · obtain ⟨stage, hsome, hunknown⟩ := (any_eq_true _ _).mp hstage
      have hstage := hchanges stage hsome
      obtain ⟨hneeded, counts, hset, hreports⟩ :=
        eq_set_of_valid hstage (beq_iff_eq.mp hunknown) (by decide)
      cases hreports
      have hrow := (reached_changesSent hvalid htime hdone
        (requestCount_le hstage) hneeded).row (.changesUnknown _ rfl rfl) ⟨trivial, trivial⟩
      rw [hsome, hset]
      exact hrow

end ApplyRecord

/-! ### Capture Window -/

namespace CaptureRecord

open CaptureStepRecord

def workflow : Workflow CaptureRecord CaptureUpdate where
  valid := CaptureRecord.valid
  machine := captureMachine
  stamp := toStamp
  restamp stamp record := { record with toStamp := stamp }
  Sound record := record.version = 5 ∧ record.kind = "capture-window-workflow" ∧
    record.postconditionObserved = false ∧ record.renderedTarget = "unverified" ∧
      record.historyValid = true
  Row := Row
  Fits := Fits
  restamp_stamp _ := rfl
  stamp_restamp _ _ := rfl
  sound_restamp _ _ := Iff.rfl
  fits_restamp _ _ update := by cases update <;> exact Iff.rfl
  valid_iff record := by
    rw [valid_iff]
    tauto
  step_iff _ _ _ _ := CaptureReceipt.updated_eq_ok
  stamp_row hrow := hrow.frame.1
  sound_row hrow hfits hsound := by
    obtain ⟨-, hversion, hkind, -, hpost, hrendered⟩ := hrow.frame
    exact ⟨hversion.trans hsound.1, hkind.trans hsound.2.1, hpost.trans hsound.2.2.1,
      hrendered.trans hsound.2.2.2.1, hrow.historyValid hfits hsound.2.2.2.2⟩

variable {record : CaptureRecord}

/-- The record with another history: a phase, an active step and steps. -/
def withHistory (record : CaptureRecord) (phase : CapturePhase) (active : Option CaptureStep)
    (steps : CaptureStep → CaptureStepRecord) : CaptureRecord :=
  { record with phase := phase, activeStep := active, steps := steps }

/-- The steps of a record below an index, and new steps from there on. -/
def stepsBelow (record : CaptureRecord) (cut : ℕ) (step : CaptureStep) : CaptureStepRecord :=
  if step.index < cut then record.steps step
  else CaptureStepRecord.new step (record.plan.counts step)

/-- The record that sends a step after the steps below it. -/
def sending (record : CaptureRecord) (step : CaptureStep) : CaptureRecord :=
  record.withHistory .dispatching (some step)
    (Function.update (record.stepsBelow step.index) step
      ((CaptureStepRecord.new step (record.plan.counts step)).set .dispatching none))

/-- The steps below an index are over: the record with only them is reached, as a prepared one when
none of them was needed and as a continuation when one was. -/
def Rebuilt (record : CaptureRecord) (cut : ℕ) : Prop :=
  ∃ phase, (phase = .prepared ∧
      (∀ step, step.index < cut → (record.steps step).phase = .notNeeded) ∨
    phase = .continuation ∧
      ∃ step, step.index < cut ∧ (record.steps step).phase ≠ .notNeeded) ∧
    workflow.Reached (record.withHistory phase none (record.stepsBelow cut))

section Rebuild

variable {record : CaptureRecord}

theorem step_valid (hvalid : record.valid = true) (step : CaptureStep) :
    (record.steps step).valid step (record.plan.counts step) = true :=
  stepsValid_iff.mp (historyValid_iff.mp (valid_iff.mp hvalid).2.2.2.2.2).2.1 step

/-- A valid plan needs some step. -/
theorem exists_needed (hvalid : record.valid = true) :
    ∃ step, (record.steps step).phase ≠ .notNeeded := by
  have heffects := (historyValid_iff.mp (valid_iff.mp hvalid).2.2.2.2.2).1
  simp only [CapturePlan.hasEffects, List.any_eq_true, decide_eq_true_eq] at heffects
  obtain ⟨step, -, hcount⟩ := heffects
  have hzero := (valid_base (step_valid hvalid step)).2.2
  exact ⟨step, mt hzero.mpr (by omega)⟩

variable {step : CaptureStep} {cut : ℕ}

/-- A step whose predecessors are over can be sent. Assumes: a step that has requests, and
predecessors that succeeded. -/
theorem reached_sending (hrebuilt : record.Rebuilt step.index)
    (hbefore : ∀ earlier : CaptureStep, earlier.index < step.index →
      (record.steps earlier).success = true) (hneeded : record.plan.counts step ≠ 0) :
    workflow.Reached (record.sending step) := by
  obtain ⟨phase, hphase, hreached⟩ := hrebuilt
  have hsteps := (historyValid_iff.mp (valid_iff.mp hreached.2.1).2.2.2.2.2).2.1
  have hself : record.stepsBelow step.index step =
      CaptureStepRecord.new step (record.plan.counts step) := by
    simp [stepsBelow]
  have hnext : (record.withHistory phase none (record.stepsBelow step.index)).nextStep =
      some step := by
    rw [nextStep_eq_some hsteps]
    refine ⟨?_, fun earlier hindex ↦ ?_⟩
    · simp [withHistory, hself, CaptureStepRecord.new, hneeded]
    · intro hprepared
      have hsuccess := hbefore earlier hindex
      simp only [withHistory, stepsBelow, hindex, if_true] at hprepared
      simp [CaptureStepRecord.success, hprepared] at hsuccess
  have hstart : (record.withHistory phase none (record.stepsBelow step.index)).phase = .prepared ∨
      (record.withHistory phase none (record.stepsBelow step.index)).phase = .continuation :=
    hphase.imp And.left And.left
  have hrow := hreached.row (.dispatch step hstart hnext) trivial
  rw [sending, ← hself]
  exact hrow

variable (hvalid : record.valid = true) (htime : record.updatedAt = record.createdAt)
include hvalid htime

/-- The prepared record of the plan is reached. -/
theorem rebuilt_zero : record.Rebuilt 0 := by
  obtain ⟨hversion, hkind, hstamp, hpost, hrendered, hhistory⟩ := valid_iff.mp hvalid
  obtain ⟨heffects, -, -⟩ := historyValid_iff.mp hhistory
  have hnew : record.stepsBelow 0 =
      fun step ↦ CaptureStepRecord.new step (record.plan.counts step) := by
    funext step
    simp [stepsBelow]
  refine ⟨.prepared, .inl ⟨rfl, by simp⟩, ?_⟩
  rw [hnew]
  have hprepared : (record.withHistory .prepared none
      fun step ↦ CaptureStepRecord.new step (record.plan.counts step)).valid = true := by
    refine valid_iff.mpr ⟨hversion, hkind, hstamp, hpost, hrendered, ?_⟩
    refine historyValid_iff.mpr ⟨heffects, ?_, rfl, fun step ↦ ?_⟩
    · exact stepsValid_iff.mpr fun step ↦ new_valid step _
    · by_cases hzero : record.plan.counts step = 0 <;>
        simp [InPhase, withHistory, CaptureStepRecord.new, hzero]
  refine ⟨htime, hprepared, .initial ⟨record.operationId, record.endpointHash, record.generation,
    record.plan, record.createdAt, heffects, ?_⟩⟩
  refine checkedBy_eq_ok.mpr ?_
  dsimp only
  obtain ⟨stamp, version, kind, phase, plan, active, steps, post, rendered⟩ := record
  simp only at hversion hkind hpost hrendered htime
  simp only [withHistory, hversion, hkind, hpost, hrendered]
  exact congrArg (fun stamp ↦ (⟨stamp, _, _, _, _, _, _, _, _⟩ : CaptureRecord))
    (Stamp.created_eq htime)

/-- Steps that succeeded are over. -/
theorem rebuilt_of_success
    (hbefore : ∀ step : CaptureStep, step.index < cut → (record.steps step).success = true) :
    record.Rebuilt cut := by
  induction cut with
  | zero => exact rebuilt_zero hvalid htime
  | succ cut ih =>
    have hrebuilt := ih fun step hindex ↦ hbefore step (by omega)
    by_cases hstep : ∃ step : CaptureStep, step.index = cut ∧ (record.steps step).phase ≠ .notNeeded
    · obtain ⟨step, rfl, hneeded⟩ := hstep
      have hsuccess := hbefore step (by omega)
      have hphase : (record.steps step).phase = .acknowledged := by
        simp only [CaptureStepRecord.success, Bool.or_eq_true, Bool.and_eq_true,
          beq_iff_eq] at hsuccess
        exact (hsuccess.resolve_left hneeded).1
      obtain ⟨hcount, counts, hset, hreports⟩ :=
        eq_set_of_valid (step_valid hvalid step) hphase (by decide)
      obtain ⟨⟩ | ⟨⟩ | ⟨⟩ | hfit := hreports
      rename_i counts
      have hclean : counts.failed = 0 ∧ counts.skipped = 0 := by
        rw [hset] at hsuccess
        simpa [CaptureStepRecord.success] using hsuccess
      have hsent := reached_sending hrebuilt
        (fun earlier hindex ↦ hbefore earlier (by omega)) hcount
      have hrow := hsent.row (.succeeded counts step rfl rfl hclean) (by rintro _ ⟨⟩; exact hfit)
      refine ⟨.continuation, .inr ⟨rfl, step, by omega, hneeded⟩, ?_⟩
      have hsteps : (record.sending step).moved step .acknowledged (some counts) =
          record.stepsBelow (step.index + 1) := by
        funext other
        by_cases hother : other = step
        · subst hother
          simp only [moved_same, sending, withHistory, Function.update_self, stepsBelow,
            Nat.lt_succ_self, if_true, hset]
          rfl
        · have hindex : other.index ≠ step.index := fun h ↦ hother (CaptureStep.index_inj.mp h)
          have hiff : other.index < step.index + 1 ↔ other.index < step.index := by omega
          simp only [moved_other _ hother, sending, withHistory,
            Function.update_of_ne hother, stepsBelow, hiff]
      rw [hsteps] at hrow
      exact hrow
    · have hnotNeeded (step : CaptureStep) (hindex : step.index = cut) :
          (record.steps step).phase = .notNeeded := by
        by_contra hneeded
        exact hstep ⟨step, hindex, hneeded⟩
      have hsteps : record.stepsBelow (cut + 1) = record.stepsBelow cut := by
        funext step
        unfold stepsBelow
        by_cases hindex : step.index = cut
        · rw [if_pos (by omega), if_neg (by omega)]
          exact eq_new_of_valid (step_valid hvalid step)
            (.inr (hnotNeeded step hindex))
        · have hiff : step.index < cut + 1 ↔ step.index < cut := by omega
          simp only [hiff]
      obtain ⟨phase, hphase, hreached⟩ := hrebuilt
      refine ⟨phase, hphase.imp ?_ ?_, hsteps ▸ hreached⟩
      · rintro ⟨rfl, hnone⟩
        refine ⟨rfl, fun step hindex ↦ ?_⟩
        by_cases hcut : step.index = cut
        · exact hnotNeeded step hcut
        · exact hnone step (by omega)
      · rintro ⟨rfl, step, hindex, hneeded⟩
        exact ⟨rfl, step, by omega, hneeded⟩

omit htime in
/-- A step of the record that a failure dropped is a new step dropped. -/
theorem dropPrepared_new (hdropped : record.InPhase .notDispatched step)
    {steps : CaptureStep → CaptureStepRecord}
    (hnew : steps step = CaptureStepRecord.new step (record.plan.counts step)) :
    dropPrepared steps step = record.steps step := by
  rcases hdropped with hphase | hphase
  · obtain ⟨hcount, counts, hset, hreports⟩ :=
      eq_set_of_valid (step_valid hvalid step) hphase (by decide)
    cases hreports
    rw [hset]
    simp [dropPrepared, hnew, CaptureStepRecord.new, hcount]
  · have hself := eq_new_of_valid (step_valid hvalid step) (.inr hphase)
    rw [dropPrepared_of_ne, hnew, hself]
    rw [hnew, ← hself, hphase]
    decide

omit hvalid htime in
theorem dropPrepared_of_success (hsuccess : (record.steps step).success = true)
    {steps : CaptureStep → CaptureStepRecord} (hself : steps step = record.steps step) :
    dropPrepared steps step = record.steps step := by
  rw [dropPrepared_of_ne, hself]
  intro hphase
  rw [hself] at hphase
  simp [CaptureStepRecord.success, hphase] at hsuccess

omit htime in
/-- The steps of a record that moved a step and dropped the later ones. -/
theorem dropPrepared_sending {phase : CaptureStepPhase} {counts : Option CaptureCounts}
    (haround : record.Around step phase .notDispatched) (hphase : phase ≠ .prepared)
    (hset : record.steps step =
      (CaptureStepRecord.new step (record.plan.counts step)).set phase counts) :
    dropPrepared ((record.sending step).moved step phase counts) = record.steps := by
  funext other
  rcases Nat.lt_trichotomy other.index step.index with hindex | hindex | hindex
  · have hother : other ≠ step := by
      rintro rfl
      omega
    refine dropPrepared_of_success (haround.before other hindex) ?_
    simp only [moved_other _ hother, sending, withHistory, Function.update_of_ne hother, stepsBelow,
      hindex, if_true]
  · obtain rfl := CaptureStep.index_inj.mp hindex
    rw [dropPrepared_of_ne, moved_same, hset]
    · simp only [sending, withHistory, Function.update_self]
      rfl
    · rw [moved_same]
      exact hphase
  · have hother : other ≠ step := by
      rintro rfl
      omega
    refine dropPrepared_new hvalid (haround.after other hindex) ?_
    simp only [moved_other _ hother, sending, withHistory, Function.update_of_ne hother, stepsBelow,
      Nat.not_lt.mpr (Nat.le_of_lt hindex), if_false]

omit htime in
/-- The steps of a record that dropped everything from a cut on. -/
theorem dropPrepared_stepsBelow
    (hbefore : ∀ step : CaptureStep, step.index < cut → (record.steps step).success = true)
    (hafter : ∀ step : CaptureStep, cut ≤ step.index → record.InPhase .notDispatched step) :
    dropPrepared (record.stepsBelow cut) = record.steps := by
  funext step
  by_cases hindex : step.index < cut
  · exact dropPrepared_of_success (hbefore step hindex) (by simp [stepsBelow, hindex])
  · exact dropPrepared_new hvalid (hafter step (by omega)) (by simp [stepsBelow, hindex])

omit htime in
theorem stepsBelow_eq
    (hafter : ∀ step : CaptureStep, cut ≤ step.index → record.InPhase .prepared step) :
    record.stepsBelow cut = record.steps := by
  funext step
  by_cases hindex : step.index < cut
  · simp [stepsBelow, hindex]
  · have hnew := eq_new_of_valid (step_valid hvalid step)
      (hafter step (by omega))
    simp only [stepsBelow, hindex, if_false, ← hnew]

/-- A step that a record moved, after its predecessors succeeded, was sent. -/
theorem reached_sent {here rest : CaptureStepPhase} (haround : record.Around step here rest)
    (hmoved : here ≠ .prepared ∧ here ≠ .notNeeded) :
    workflow.Reached (record.sending step) ∧
      ∃ counts, record.steps step =
          (CaptureStepRecord.new step (record.plan.counts step)).set here counts ∧
        CaptureStepRecord.Reports step (record.plan.counts step) here counts := by
  obtain ⟨hcount, hcounts⟩ :=
    eq_set_of_valid (step_valid hvalid step) haround.current hmoved
  exact ⟨reached_sending (rebuilt_of_success hvalid htime haround.before) haround.before hcount,
    hcounts⟩

end Rebuild

/-- An aborted record stopped at a step that failed, or before a step that was never sent. -/
theorem UpTo.aborted {cut : ℕ}
    (hupTo : record.UpTo cut .notDispatched fun step ↦ (record.steps step).phase = .acknowledged) :
    (∃ step, record.Around step .acknowledged .notDispatched ∧
        (record.steps step).success = false) ∨
      ∃ cut, (∀ step : CaptureStep, step.index < cut → (record.steps step).success = true) ∧
        ∀ step : CaptureStep, cut ≤ step.index → record.InPhase .notDispatched step := by
  by_cases hstep : ∃ step : CaptureStep, step.index = cut ∧
      (record.steps step).phase = .acknowledged
  · obtain ⟨step, rfl, hphase⟩ := hstep
    by_cases hsuccess : (record.steps step).success = true
    · refine .inr ⟨step.index + 1, fun other hindex ↦ ?_, fun other hindex ↦
        hupTo.after other (by omega)⟩
      rcases Nat.lt_or_eq_of_le (Nat.le_of_lt_succ hindex) with hbefore | hsame
      · exact hupTo.before other hbefore
      · exact CaptureStep.index_inj.mp hsame ▸ hsuccess
    · exact .inl ⟨step, ⟨hphase, hupTo.before, hupTo.after⟩, by simpa using hsuccess⟩
  · refine .inr ⟨cut, hupTo.before, fun step hindex ↦ ?_⟩
    rcases Nat.eq_or_lt_of_le hindex with hsame | hafter
    · exact (hupTo.here step hsame.symm).resolve_right fun hphase ↦ hstep ⟨step, hsame.symm, hphase⟩
    · exact hupTo.after step hafter

/-- Every valid record is reached, with the time of its creation as the time of its last update. -/
theorem reached_of_valid (hvalid : record.valid = true)
    (htime : record.updatedAt = record.createdAt) : workflow.Reached record := by
  obtain ⟨heffects, hsteps, hprogress⟩ := historyValid_iff.mp (valid_iff.mp hvalid).2.2.2.2.2
  have hself : record = record.withHistory record.phase record.activeStep record.steps := rfl
  rw [hself]
  unfold Progress at hprogress
  cases hphase : record.phase with
  | prepared =>
    simp only [hphase] at hprogress
    obtain ⟨hnone, hall⟩ := hprogress
    obtain ⟨phase, ⟨rfl, -⟩ | ⟨-, step, hindex, -⟩, hreached⟩ := rebuilt_zero hvalid htime
    · rwa [stepsBelow_eq hvalid fun step _ ↦ hall step, ← hnone] at hreached
    · omega
  | continuation =>
    simp only [hphase] at hprogress
    obtain ⟨hnone, ⟨step, hacknowledged, -⟩, cut, hupTo⟩ := hprogress
    have hafter (step : CaptureStep) (hindex : cut ≤ step.index) :
        record.InPhase .prepared step := by
      rcases Nat.eq_or_lt_of_le hindex with hsame | hlater
      · exact (hupTo.here step hsame.symm).resolve_right not_false
      · exact hupTo.after step hlater
    have hbelow : step.index < cut := by
      by_contra hindex
      rcases hafter step (by omega) with h | h <;> simp [hacknowledged] at h
    obtain ⟨phase, ⟨-, hall⟩ | ⟨rfl, -⟩, hreached⟩ := rebuilt_of_success hvalid htime hupTo.before
    · simp [hall step hbelow] at hacknowledged
    · rwa [stepsBelow_eq hvalid hafter, ← hnone] at hreached
  | dispatching =>
    simp only [hphase] at hprogress
    obtain ⟨active, hactive, haround⟩ := hprogress
    obtain ⟨hreached, counts, hset, hreports⟩ := reached_sent hvalid htime haround (by decide)
    cases hreports
    have hsame : (record.sending active).steps = record.steps := by
      funext step
      by_cases hstep : step = active
      · subst hstep
        simp only [sending, withHistory, Function.update_self, hset]
      · have hindex : step.index ≠ active.index := fun h ↦ hstep (CaptureStep.index_inj.mp h)
        simp only [sending, withHistory, Function.update_of_ne hstep, stepsBelow]
        split_ifs with hbefore
        · rfl
        · exact (eq_new_of_valid (step_valid hvalid step)
            (haround.after step (by omega))).symm
    rw [hactive, ← hsame]
    exact hreached
  | closed =>
    simp only [hphase] at hprogress
    obtain ⟨hnone, hall⟩ := hprogress
    have hindex (step : CaptureStep) : step.index < 3 := by cases step <;> decide
    have hsteps' : record.stepsBelow 3 = record.steps :=
      stepsBelow_eq hvalid fun step hlater ↦ absurd (hindex step) (by omega)
    obtain ⟨needed, hneeded⟩ := exists_needed hvalid
    obtain ⟨phase, ⟨-, hnotNeeded⟩ | ⟨rfl, -⟩, hreached⟩ :=
      rebuilt_of_success hvalid htime fun step (_ : step.index < 3) ↦ hall step
    · exact absurd (hnotNeeded needed (hindex needed)) hneeded
    · rw [hsteps'] at hreached
      have hnext : (record.withHistory .continuation none record.steps).nextStep = none := by
        rw [nextStep_eq_none]
        intro step hprepared
        have hsuccess := hall step
        simp only [withHistory] at hprepared
        simp [CaptureStepRecord.success, hprepared] at hsuccess
      rw [hnone]
      exact hreached.row (.close rfl hnext) trivial
  | unknown =>
    simp only [hphase] at hprogress
    obtain ⟨hnone, middle, haround⟩ := hprogress
    obtain ⟨hreached, counts, hset, hreports⟩ := reached_sent hvalid htime haround (by decide)
    cases hreports
    have hrow := hreached.row (.unknown middle rfl rfl) trivial
    rw [dropPrepared_sending hvalid haround (by decide) hset] at hrow
    rw [hnone]
    exact hrow
  | aborted =>
    simp only [hphase] at hprogress
    obtain ⟨hnone, cut, hupTo⟩ := hprogress
    rw [hnone]
    rcases hupTo.aborted with ⟨step, haround, hfailed⟩ | ⟨cut, hbefore, hafter⟩
    · obtain ⟨hreached, counts, hset, hreports⟩ := reached_sent hvalid htime haround (by decide)
      obtain ⟨⟩ | ⟨⟩ | ⟨⟩ | hfit := hreports
      rename_i counts
      have hunclean : ¬(counts.failed = 0 ∧ counts.skipped = 0) := by
        rw [hset] at hfailed
        simpa [CaptureStepRecord.success] using hfailed
      have hrow := hreached.row (.failed counts step rfl rfl hunclean) (by rintro _ ⟨⟩; exact hfit)
      rw [dropPrepared_sending hvalid haround (by decide) hset] at hrow
      exact hrow
    · obtain ⟨phase, hstart, hreached⟩ := rebuilt_of_success hvalid htime hbefore
      have hrow := hreached.row (.abort (hstart.imp And.left And.left)) trivial
      rw [← dropPrepared_stepsBelow hvalid hbefore hafter]
      exact hrow

end CaptureRecord

/-! ### Both workflows -/

/-- The two validators accept exactly the reachable receipts, up to the identity and the times of a
record, and an update for which a match table has a row is never turned into `InvalidReceipt`: it
succeeds at every valid time from the creation on, with counts that fit and, where it starts the
changes of an Apply Scene receipt, with a count in the safe integer range. -/
theorem workflow_validators_exact :
    (∀ record : ApplyRecord, record.valid = true ↔ record.toStamp.valid = true ∧
      ∃ receipt, applyMachine.Reachable receipt ∧
        receipt.1 = { record with toStamp := receipt.1.toStamp }) ∧
    (∀ record : CaptureRecord, record.valid = true ↔ record.toStamp.valid = true ∧
      ∃ receipt, captureMachine.Reachable receipt ∧
        receipt.1 = { record with toStamp := receipt.1.toStamp }) ∧
    (∀ (receipt : ApplyReceipt) (update : ApplyUpdate) (utc : String) (next : ApplyRecord),
      (receipt.stamped utc).transition update = .ok next → receipt.Timely utc →
        receipt.1.CountsFit update → ApplyRecord.ChangesSafe update →
          ∃ hvalid : next.valid = true, receipt.updated update utc = .ok ⟨next, hvalid⟩) ∧
    (∀ (receipt : CaptureReceipt) (update : CaptureUpdate) (utc : String) (next : CaptureRecord),
      (receipt.stamped utc).transition update = .ok next → receipt.Timely utc →
        receipt.1.Fits update →
          ∃ hvalid : next.valid = true, receipt.updated update utc = .ok ⟨next, hvalid⟩) := by
  refine ⟨ApplyRecord.workflow.valid_iff_reachable fun _ ↦ ApplyRecord.reached_of_valid,
    CaptureRecord.workflow.valid_iff_reachable fun _ ↦ CaptureRecord.reached_of_valid, ?_, ?_⟩
  · intro receipt update utc next htransition htimely hcounts hsafe
    exact ApplyRecord.workflow.updated_of_row receipt
      (ApplyRecord.transition_eq_ok.mp htransition) htimely.1 htimely.2 ⟨hcounts, hsafe⟩
  · intro receipt update utc next htransition htimely hfits
    exact CaptureRecord.workflow.updated_of_row receipt
      (CaptureRecord.transition_eq_ok.mp htransition) htimely.1 htimely.2 hfits

/-- An Apply Scene receipt without creations that waits for its changes. -/
def continuationReceipt : ApplyReceipt :=
  ⟨{ operationId := "00000000-0000-0000-0000-000000000000"
     endpointHash := "0000000000000000000000000000000000000000000000000000000000000000"
     generation := 0
     createdAt := "2024-01-01T00:00:00Z"
     updatedAt := "2024-01-01T00:00:00Z"
     version := 4
     kind := "apply-scene-workflow"
     phase := .continuation
     creations := .new 0 true
     changes := none
     postconditionObserved := false
     renderedComposition := "unverified" }, by decide +kernel⟩

/-- The table has a row that starts more changes than the safe integer range holds, and the
validator refuses what it writes. -/
theorem unsafe_changes_refused :
    ¬ ∀ (receipt : ApplyReceipt) (update : ApplyUpdate) (utc : String) (next : ApplyRecord),
      (receipt.stamped utc).transition update = .ok next → receipt.Timely utc →
        receipt.1.CountsFit update →
          ∃ hvalid : next.valid = true, receipt.updated update utc = .ok ⟨next, hvalid⟩ := by
  intro hall
  obtain ⟨hvalid, -⟩ := hall continuationReceipt (.dispatchChanges (maxSafeInteger + 1))
    "2024-01-01T00:00:00Z" _ rfl ⟨by decide +kernel, by decide +kernel⟩ trivial
  obtain ⟨-, hchanges, -⟩ :=
    ApplyRecord.historyValid_iff.mp (ApplyRecord.valid_iff.mp hvalid).2.2.2.2.2
  have hsafe := ApplyStageRecord.requestCount_le (hchanges _ rfl)
  exact absurd hsafe (by decide)

end ObsMcp.Receipts
