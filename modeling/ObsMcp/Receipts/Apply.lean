import ObsMcp.Foundations.Machine
import ObsMcp.Receipts.Request

/-!
# Apply Scene receipts

The version 4 receipt of `operation_store.rs`: a workflow of two batches, the creations and then the
changes, each with its own stage record. `ApplyStageRecord.valid` and `ApplyRecord.layout` are the
validator, which re-derives the history of a receipt from its phase and its stages, and
`ApplyRecord.transition` is the match table of `ApplyReceipt::updated`.

The validator and the table are written independently of each other. The lemmas below connect them
step by step: `ApplyStageRecord.set_valid` for one stage, `ApplyRecord.transition_eq_ok` for the
table, and `ApplyRecord.Row.historyValid` for its rows, when the counts an update carries fit the
stage (`ApplyRecord.Fits`).
-/

namespace ObsMcp.Receipts

open Foundations Option

/-! ### Stages -/

inductive ApplyPhase
  | prepared
  | dispatchingCreations
  | continuation
  | dispatchingChanges
  | closed
  | aborted
  | unknown
  deriving DecidableEq

inductive ApplyStagePhase
  | notNeeded
  | prepared
  | dispatching
  | acknowledged
  | notDispatched
  | unknown
  deriving DecidableEq

structure ApplyCounts where
  successful : ℕ
  failed : ℕ
  skipped : ℕ
  deriving DecidableEq

structure ApplyStageRecord where
  executionType : ℕ
  haltOnFailure : Bool
  requestCount : ℕ
  phase : ApplyStagePhase
  requestDispatched : Option Bool
  batchAcknowledged : Option Bool
  counts : Option ApplyCounts
  notAttempted : Option ℕ
  deriving DecidableEq

namespace ApplyStageRecord

/-- A stage before its batch: not needed when it has no request. -/
def new (count : ℕ) (halt : Bool) : ApplyStageRecord where
  executionType := 0
  haltOnFailure := halt
  requestCount := count
  phase := if count = 0 then .notNeeded else .prepared
  requestDispatched := some false
  batchAcknowledged := none
  counts := none
  notAttempted := if count = 0 then some 0 else none

/-- Move a stage to a phase, with the dispositions the phase has. -/
def set (stage : ApplyStageRecord) (phase : ApplyStagePhase) (counts : Option ApplyCounts) :
    ApplyStageRecord :=
  { stage with
    phase := phase
    counts := counts
    notAttempted :=
      match phase with
      | .notNeeded | .notDispatched => some stage.requestCount
      | _ => none
    requestDispatched :=
      match phase with
      | .notNeeded | .notDispatched | .prepared => some false
      | .dispatching | .unknown => none
      | .acknowledged => some true
    batchAcknowledged :=
      match phase with
      | .acknowledged => some true
      | _ => none }

/-- The counts of an acknowledged batch account for its requests in the way its halt flag allows:
a halting batch fails at most once and skips only after a failure, any other batch skips nothing. -/
def countsFit (halt : Bool) (requestCount : ℕ) (counts : ApplyCounts) : Bool :=
  (checkedAdd counts.successful counts.failed).bind (checkedAdd · counts.skipped)
      == some requestCount
    && if halt then counts.failed ≤ 1 && (counts.failed != 0 || counts.skipped == 0)
      else counts.skipped == 0

def valid (stage : ApplyStageRecord) (halt : Bool) : Bool :=
  stage.executionType == 0 && stage.haltOnFailure == halt
    && decide (stage.requestCount ≤ maxSafeInteger)
    && ((stage.requestCount == 0) == (stage.phase == .notNeeded))
    && match stage.phase with
      | .notNeeded | .notDispatched =>
        stage.requestDispatched == some false && stage.batchAcknowledged.isNone
          && stage.counts.isNone && stage.notAttempted == some stage.requestCount
      | .prepared =>
        stage.requestDispatched == some false && stage.batchAcknowledged.isNone
          && stage.counts.isNone && stage.notAttempted.isNone
      | .dispatching | .unknown =>
        stage.requestDispatched.isNone && stage.batchAcknowledged.isNone
          && stage.counts.isNone && stage.notAttempted.isNone
      | .acknowledged =>
        stage.requestDispatched == some true && stage.batchAcknowledged == some true
          && stage.notAttempted.isNone && stage.counts.any (countsFit halt stage.requestCount)

@[simp] theorem set_phase (stage : ApplyStageRecord) (phase : ApplyStagePhase)
    (counts : Option ApplyCounts) : (stage.set phase counts).phase = phase := rfl

@[simp] theorem set_counts (stage : ApplyStageRecord) (phase : ApplyStagePhase)
    (counts : Option ApplyCounts) : (stage.set phase counts).counts = counts := rfl

/-- A new stage is valid. Assumes: a count in the safe integer range. -/
theorem new_valid {count : ℕ} (hcount : count ≤ maxSafeInteger) (halt : Bool) :
    (new count halt).valid halt = true := by
  by_cases hzero : count = 0
  · subst hzero
    simp [valid, new, maxSafeInteger]
  · simp [valid, new, hzero, hcount]

variable {halt : Bool} {stage : ApplyStageRecord}

theorem requestCount_le (hvalid : stage.valid halt = true) :
    stage.requestCount ≤ maxSafeInteger := by
  simp only [valid, Bool.and_eq_true, decide_eq_true_eq] at hvalid
  exact hvalid.1.1.2

/-- The phases a stage with requests can be moved to, with the counts they carry. -/
inductive Reports (halt : Bool) (requestCount : ℕ) : ApplyStagePhase → Option ApplyCounts → Prop
  | dispatching : Reports halt requestCount .dispatching none
  | notDispatched : Reports halt requestCount .notDispatched none
  | unknown : Reports halt requestCount .unknown none
  | acknowledged {counts : ApplyCounts} (hfit : countsFit halt requestCount counts = true) :
      Reports halt requestCount .acknowledged (some counts)

variable {phase : ApplyStagePhase}

section

variable (hvalid : stage.valid halt = true)
include hvalid

/-- Moving a valid stage keeps it valid. Assumes: a stage that has requests, and a phase with the
counts it carries. -/
theorem set_valid (hneeded : stage.phase ≠ .notNeeded) {counts : Option ApplyCounts}
    (hreports : Reports halt stage.requestCount phase counts) :
    (stage.set phase counts).valid halt = true := by
  have hcount : stage.requestCount ≠ 0 := by
    intro hzero
    simp [valid, hzero] at hvalid
    exact hneeded hvalid.1.2
  simp only [valid, Bool.and_eq_true, beq_iff_eq, decide_eq_true_eq] at hvalid
  obtain ⟨⟨⟨⟨hexecution, hhalt⟩, hsafe⟩, -⟩, -⟩ := hvalid
  cases hreports with
  | acknowledged hfit => simp [valid, set, hexecution, hhalt, hsafe, hcount, hfit]
  | _ => simp [valid, set, hexecution, hhalt, hsafe, hcount]

/-- A valid stage is determined by its request count, its phase and its counts: it is a new stage,
or a new stage moved to its phase. -/
theorem eq_of_valid :
    stage = new stage.requestCount halt ∨
      stage.requestCount ≠ 0 ∧ stage = (new stage.requestCount halt).set stage.phase stage.counts ∧
        Reports halt stage.requestCount stage.phase stage.counts := by
  obtain ⟨executionType, haltOnFailure, requestCount, phase, dispatched, acknowledged, counts,
    notAttempted⟩ := stage
  simp only [valid, Bool.and_eq_true, beq_iff_eq, decide_eq_true_eq] at hvalid
  obtain ⟨⟨⟨⟨rfl, rfl⟩, -⟩, hneeded⟩, hfacts⟩ := hvalid
  cases phase with
  | notNeeded =>
    left
    simp_all [new]
  | prepared =>
    left
    simp_all [new]
  | dispatching | notDispatched | unknown =>
    right
    simp only [Bool.and_eq_true, beq_iff_eq, isNone_iff_eq_none] at hfacts
    obtain ⟨⟨⟨rfl, rfl⟩, rfl⟩, rfl⟩ := hfacts
    exact ⟨by simpa using hneeded, rfl, by constructor⟩
  | acknowledged =>
    right
    cases counts with
    | none => simp at hfacts
    | some counts =>
      simp only [Bool.and_eq_true, beq_iff_eq, isNone_iff_eq_none, any_some] at hfacts
      obtain ⟨⟨⟨rfl, rfl⟩, rfl⟩, hfit⟩ := hfacts
      exact ⟨by simpa using hneeded, rfl, .acknowledged hfit⟩

/-- A valid stage that has not been sent is a new one. -/
theorem eq_new_of_valid (hphase : stage.phase = .prepared ∨ stage.phase = .notNeeded) :
    stage = new stage.requestCount halt := by
  rcases eq_of_valid hvalid with hnew | ⟨-, -, hreports⟩
  · exact hnew
  · rcases hphase with hphase | hphase <;> rw [hphase] at hreports <;> cases hreports

/-- A valid stage in any other phase is a new one moved to that phase. -/
theorem eq_set_of_valid (hphase : stage.phase = phase)
    (hmoved : phase ≠ .prepared ∧ phase ≠ .notNeeded) :
    stage.requestCount ≠ 0 ∧
      ∃ counts, stage = (new stage.requestCount halt).set phase counts ∧
        Reports halt stage.requestCount phase counts := by
  subst hphase
  rcases eq_of_valid hvalid with hnew | ⟨hneeded, hset, hreports⟩
  · have hfresh : stage.phase = .prepared ∨ stage.phase = .notNeeded := by
      rw [hnew]
      by_cases hzero : stage.requestCount = 0 <;> simp [new, hzero]
    exact absurd hfresh (not_or.mpr hmoved)
  · exact ⟨hneeded, stage.counts, hset, hreports⟩

end

end ApplyStageRecord

/-! ### Records -/

structure ApplyRecord extends Stamp where
  version : ℕ
  kind : String
  phase : ApplyPhase
  creations : ApplyStageRecord
  changes : Option ApplyStageRecord
  postconditionObserved : Bool
  renderedComposition : String
  deriving DecidableEq

inductive ApplyUpdate
  | ready
  | dispatchCreations
  | creationsAcknowledged (counts : ApplyCounts)
  | creationsNotDispatched
  | creationsUnknown
  | dispatchChanges (count : ℕ)
  | changesAcknowledged (counts : ApplyCounts)
  | changesNotDispatched
  | changesUnknown
  | close
  | abort
  deriving DecidableEq

namespace ApplyRecord

open ApplyStageRecord

/-- The creations stage is over without a failed or skipped request. -/
def successfulCreations (record : ApplyRecord) : Bool :=
  record.creations.phase == .notNeeded
    || (record.creations.phase == .acknowledged
      && record.creations.counts.any fun counts ↦ counts.failed == 0 && counts.skipped == 0)

/-- The stages a record can have in each phase. -/
def layout (record : ApplyRecord) : Bool :=
  match record.phase with
  | .prepared =>
    (record.creations.phase == .prepared || record.creations.phase == .notNeeded)
      && record.changes.isNone
  | .dispatchingCreations => record.creations.phase == .dispatching && record.changes.isNone
  | .continuation => record.successfulCreations && record.changes.isNone
  | .dispatchingChanges =>
    record.successfulCreations && record.changes.any fun stage ↦ stage.phase == .dispatching
  | .closed =>
    record.successfulCreations
      && record.changes.any fun stage ↦ stage.phase == .acknowledged || stage.phase == .notNeeded
  | .aborted =>
    match record.changes with
    | none =>
      record.creations.phase == .acknowledged || record.creations.phase == .notDispatched
        || record.creations.phase == .notNeeded
    | some stage => record.successfulCreations && stage.phase == .notDispatched
  | .unknown =>
    (record.creations.phase == .unknown && record.changes.isNone)
      || (record.successfulCreations && record.changes.any fun stage ↦ stage.phase == .unknown)

/-- The part of the validator that reads the history, not the identity, of a record. -/
def historyValid (record : ApplyRecord) : Bool :=
  record.creations.valid true && record.changes.all (fun stage ↦ stage.valid false) && record.layout

def valid (record : ApplyRecord) : Bool :=
  record.version == 4 && record.kind == "apply-scene-workflow" && record.toStamp.valid
    && !record.postconditionObserved && record.renderedComposition == "unverified"
    && record.historyValid

/-- The match table of an update, before the result is checked. -/
def transition (record : ApplyRecord) : ApplyUpdate → Except StoreError ApplyRecord
  | .ready =>
    if record.phase = .prepared ∧ record.creations.phase = .notNeeded then
      .ok { record with phase := .continuation }
    else .error .conflict
  | .dispatchCreations =>
    if record.phase = .prepared ∧ record.creations.requestCount > 0 then
      .ok { record with
        phase := .dispatchingCreations, creations := record.creations.set .dispatching none }
    else .error .conflict
  | .creationsAcknowledged counts =>
    if record.phase = .dispatchingCreations then
      .ok { record with
        phase := if counts.failed = 0 ∧ counts.skipped = 0 then .continuation else .aborted
        creations := record.creations.set .acknowledged (some counts) }
    else .error .conflict
  | .creationsNotDispatched =>
    if record.phase = .dispatchingCreations then
      .ok { record with
        phase := .aborted, creations := record.creations.set .notDispatched none }
    else .error .conflict
  | .creationsUnknown =>
    if record.phase = .dispatchingCreations then
      .ok { record with phase := .unknown, creations := record.creations.set .unknown none }
    else .error .conflict
  | .dispatchChanges count =>
    if record.phase = .continuation ∧ count > 0 then
      .ok { record with
        phase := .dispatchingChanges
        changes := some ((ApplyStageRecord.new count false).set .dispatching none) }
    else .error .conflict
  | .changesAcknowledged counts =>
    match record.phase, record.changes with
    | .dispatchingChanges, some stage =>
      .ok { record with
        phase := .closed, changes := some (stage.set .acknowledged (some counts)) }
    | _, _ => .error .conflict
  | .changesNotDispatched =>
    match record.phase, record.changes with
    | .dispatchingChanges, some stage =>
      .ok { record with phase := .aborted, changes := some (stage.set .notDispatched none) }
    | _, _ => .error .conflict
  | .changesUnknown =>
    match record.phase, record.changes with
    | .dispatchingChanges, some stage =>
      .ok { record with phase := .unknown, changes := some (stage.set .unknown none) }
    | _, _ => .error .conflict
  | .close =>
    if record.phase = .continuation then
      .ok { record with phase := .closed, changes := some (ApplyStageRecord.new 0 false) }
    else .error .conflict
  | .abort =>
    if record.phase = .prepared ∨ record.phase = .continuation then
      .ok { record with
        phase := .aborted
        creations :=
          if record.creations.phase = .prepared then record.creations.set .notDispatched none
          else record.creations }
    else .error .conflict

/-- The rows of the match table: what one update can do to a record. -/
inductive Row (record : ApplyRecord) : ApplyUpdate → ApplyRecord → Prop
  | ready (hphase : record.phase = .prepared) (hneeded : record.creations.phase = .notNeeded) :
      Row record .ready { record with phase := .continuation }
  | dispatchCreations (hphase : record.phase = .prepared)
      (hcount : 0 < record.creations.requestCount) :
      Row record .dispatchCreations { record with
        phase := .dispatchingCreations, creations := record.creations.set .dispatching none }
  | creationsAcknowledged (counts : ApplyCounts) (hphase : record.phase = .dispatchingCreations) :
      Row record (.creationsAcknowledged counts) { record with
        phase := if counts.failed = 0 ∧ counts.skipped = 0 then .continuation else .aborted
        creations := record.creations.set .acknowledged (some counts) }
  | creationsNotDispatched (hphase : record.phase = .dispatchingCreations) :
      Row record .creationsNotDispatched { record with
        phase := .aborted, creations := record.creations.set .notDispatched none }
  | creationsUnknown (hphase : record.phase = .dispatchingCreations) :
      Row record .creationsUnknown { record with
        phase := .unknown, creations := record.creations.set .unknown none }
  | dispatchChanges (count : ℕ) (hphase : record.phase = .continuation) (hcount : 0 < count) :
      Row record (.dispatchChanges count) { record with
        phase := .dispatchingChanges
        changes := some ((ApplyStageRecord.new count false).set .dispatching none) }
  | changesAcknowledged (counts : ApplyCounts) (stage : ApplyStageRecord)
      (hphase : record.phase = .dispatchingChanges) (hstage : record.changes = some stage) :
      Row record (.changesAcknowledged counts) { record with
        phase := .closed, changes := some (stage.set .acknowledged (some counts)) }
  | changesNotDispatched (stage : ApplyStageRecord) (hphase : record.phase = .dispatchingChanges)
      (hstage : record.changes = some stage) :
      Row record .changesNotDispatched { record with
        phase := .aborted, changes := some (stage.set .notDispatched none) }
  | changesUnknown (stage : ApplyStageRecord) (hphase : record.phase = .dispatchingChanges)
      (hstage : record.changes = some stage) :
      Row record .changesUnknown { record with
        phase := .unknown, changes := some (stage.set .unknown none) }
  | close (hphase : record.phase = .continuation) :
      Row record .close { record with
        phase := .closed, changes := some (ApplyStageRecord.new 0 false) }
  | abort (hphase : record.phase = .prepared ∨ record.phase = .continuation) :
      Row record .abort { record with
        phase := .aborted
        creations :=
          if record.creations.phase = .prepared then record.creations.set .notDispatched none
          else record.creations }

variable {next record : ApplyRecord} {update : ApplyUpdate}

/-- The table is exactly its rows. -/
theorem transition_eq_ok : record.transition update = .ok next ↔ Row record update next := by
  constructor
  · intro hnext
    cases update <;> simp only [transition] at hnext <;> split at hnext <;>
      first
        | (injection hnext with hnext; subst hnext; constructor <;> simp_all)
        | cases hnext
  · intro hrow
    cases hrow <;> simp_all [transition]

/-- The counts an update carries fit the stage it reports on. -/
def CountsFit (record : ApplyRecord) : ApplyUpdate → Prop
  | .creationsAcknowledged counts =>
    ApplyStageRecord.countsFit true record.creations.requestCount counts = true
  | .changesAcknowledged counts =>
    ∀ stage ∈ record.changes, ApplyStageRecord.countsFit false stage.requestCount counts = true
  | _ => True

/-- The changes an update starts are in the safe integer range. -/
def ChangesSafe : ApplyUpdate → Prop
  | .dispatchChanges count => count ≤ maxSafeInteger
  | _ => True

/-- An update that fits a record. -/
def Fits (record : ApplyRecord) (update : ApplyUpdate) : Prop :=
  record.CountsFit update ∧ ChangesSafe update

theorem historyValid_iff :
    record.historyValid = true ↔ record.creations.valid true = true ∧
      (∀ stage ∈ record.changes, stage.valid false = true) ∧ record.layout = true := by
  simp only [historyValid, Bool.and_eq_true, all_eq_true, mem_def, and_assoc]

/-- A row of the table keeps the history valid. Assumes: a valid history, and an update whose counts
fit. -/
theorem Row.historyValid (hrow : Row record update next) (hfits : record.Fits update)
    (hvalid : record.historyValid = true) : next.historyValid = true := by
  obtain ⟨hcreations, hchanges, hlayout⟩ := historyValid_iff.mp hvalid
  rw [historyValid_iff]
  have hcreating (hphase : record.phase = .dispatchingCreations) :
      record.creations.phase = .dispatching ∧ record.changes = none := by
    simpa [layout, hphase] using hlayout
  have hchanging {stage : ApplyStageRecord} (hphase : record.phase = .dispatchingChanges)
      (hstage : record.changes = some stage) :
      record.successfulCreations = true ∧ stage.phase = .dispatching := by
    simpa [layout, hphase, hstage] using hlayout
  cases hrow with
  | ready hphase hneeded =>
    have hnone : record.changes = none := by simpa [layout, hphase, hneeded] using hlayout
    refine ⟨hcreations, hchanges, ?_⟩
    simp [layout, successfulCreations, hneeded, hnone]
  | dispatchCreations hphase hcount =>
    have hneeded : record.creations.phase ≠ .notNeeded := by
      intro hnone
      simp [ApplyStageRecord.valid, hnone] at hcreations
      omega
    refine ⟨set_valid hcreations hneeded .dispatching, hchanges, ?_⟩
    simpa [layout, hphase, hneeded] using (by simpa [layout, hphase] using hlayout : _ ∧ _).2
  | creationsAcknowledged counts hphase =>
    obtain ⟨hsent, hnone⟩ := hcreating hphase
    refine ⟨set_valid hcreations (by simp [hsent]) (.acknowledged hfits.1),
      hchanges, ?_⟩
    by_cases hclean : counts.failed = 0 ∧ counts.skipped = 0
    · simp [layout, successfulCreations, hclean, hnone]
    · simp [layout, hclean, hnone]
  | creationsNotDispatched hphase =>
    obtain ⟨hsent, hnone⟩ := hcreating hphase
    refine ⟨set_valid hcreations (by simp [hsent]) .notDispatched, hchanges, ?_⟩
    simp [layout, hnone]
  | creationsUnknown hphase =>
    obtain ⟨hsent, hnone⟩ := hcreating hphase
    refine ⟨set_valid hcreations (by simp [hsent]) .unknown, hchanges, ?_⟩
    simp [layout, hnone]
  | dispatchChanges count hphase hcount =>
    obtain ⟨hdone, -⟩ : record.successfulCreations = true ∧ record.changes = none := by
      simpa [layout, hphase] using hlayout
    have hneeded : (ApplyStageRecord.new count false).phase ≠ .notNeeded := by
      simp [ApplyStageRecord.new, Nat.pos_iff_ne_zero.mp hcount]
    refine ⟨hcreations, ?_, ?_⟩
    · rintro _ ⟨⟩
      exact set_valid (new_valid hfits.2 false) hneeded .dispatching
    · simpa [layout, successfulCreations] using hdone
  | changesAcknowledged counts stage hphase hstage =>
    obtain ⟨hdone, hsent⟩ := hchanging hphase hstage
    refine ⟨hcreations, ?_, ?_⟩
    · rintro _ ⟨⟩
      exact set_valid (hchanges stage hstage) (by simp [hsent])
        (.acknowledged (hfits.1 stage hstage))
    · simpa [layout, successfulCreations] using hdone
  | changesNotDispatched stage hphase hstage =>
    obtain ⟨hdone, hsent⟩ := hchanging hphase hstage
    refine ⟨hcreations, ?_, ?_⟩
    · rintro _ ⟨⟩
      exact set_valid (hchanges stage hstage) (by simp [hsent])
        .notDispatched
    · simpa [layout, successfulCreations] using hdone
  | changesUnknown stage hphase hstage =>
    obtain ⟨hdone, hsent⟩ := hchanging hphase hstage
    refine ⟨hcreations, ?_, ?_⟩
    · rintro _ ⟨⟩
      exact set_valid (hchanges stage hstage) (by simp [hsent])
        .unknown
    · simpa [layout, successfulCreations] using hdone
  | close hphase =>
    obtain ⟨hdone, -⟩ : record.successfulCreations = true ∧ record.changes = none := by
      simpa [layout, hphase] using hlayout
    refine ⟨hcreations, ?_, ?_⟩
    · rintro _ ⟨⟩
      exact new_valid (Nat.zero_le maxSafeInteger) false
    · simpa [layout, successfulCreations, ApplyStageRecord.new] using hdone
  | abort hphase =>
    have hnone : record.changes = none := by
      rcases hphase with hphase | hphase
      · exact (by simpa [layout, hphase] using hlayout : _ ∧ _).2
      · exact (by simpa [layout, hphase] using hlayout : _ ∧ _).2
    by_cases hprepared : record.creations.phase = .prepared
    · refine ⟨?_, hchanges, ?_⟩
      · simpa only [hprepared, if_true] using
          set_valid hcreations (by simp [hprepared]) .notDispatched
      · simp [layout, hprepared, hnone]
    · refine ⟨by simpa only [hprepared, if_false] using hcreations, hchanges, ?_⟩
      have hover : record.creations.phase = .notNeeded ∨
          record.creations.phase = .acknowledged := by
        rcases hphase with hphase | hphase
        · exact Or.inl (by simpa [layout, hphase, hprepared, hnone] using hlayout)
        · have hdone : record.successfulCreations = true := by
            simpa [layout, hphase, hnone] using hlayout
          simp only [successfulCreations, Bool.or_eq_true, Bool.and_eq_true, beq_iff_eq] at hdone
          exact hdone.imp_right And.left
      rcases hover with hover | hover <;> simp [layout, hover, hnone]

/-- A row of the table changes neither the identity nor the constants of a record. -/
theorem Row.frame (hrow : Row record update next) :
    next.toStamp = record.toStamp ∧ next.version = record.version ∧ next.kind = record.kind ∧
      next.postconditionObserved = record.postconditionObserved ∧
        next.renderedComposition = record.renderedComposition := by
  cases hrow <;> exact ⟨rfl, rfl, rfl, rfl, rfl⟩

theorem valid_iff :
    record.valid = true ↔ record.version = 4 ∧ record.kind = "apply-scene-workflow" ∧
      record.toStamp.valid = true ∧ record.postconditionObserved = false ∧
        record.renderedComposition = "unverified" ∧ record.historyValid = true := by
  simp only [valid, Bool.and_eq_true, beq_iff_eq, Bool.not_eq_true', and_assoc]

end ApplyRecord

/-! ### Receipts -/

abbrev ApplyReceipt := {record : ApplyRecord // record.valid = true}

namespace ApplyReceipt

def checked : ApplyRecord → Except StoreError ApplyReceipt := checkedBy ApplyRecord.valid

def dispatching (receipt : ApplyReceipt) : Bool :=
  match receipt.1.phase with
  | .dispatchingCreations | .dispatchingChanges => true
  | _ => false

def blocking (receipt : ApplyReceipt) : Bool :=
  match receipt.1.phase with
  | .closed | .aborted => false
  | _ => true

def live (receipt : ApplyReceipt) : Bool :=
  match receipt.1.phase with
  | .prepared | .dispatchingCreations | .continuation | .dispatchingChanges => true
  | _ => false

/-- The receipt of a workflow that has sent nothing yet. -/
def prepare (operationId endpointHash : String) (generation creationCount : ℕ) (utc : String) :
    Except StoreError ApplyReceipt :=
  checked {
    operationId := operationId
    endpointHash := endpointHash
    generation := generation
    createdAt := utc
    updatedAt := utc
    version := 4
    kind := "apply-scene-workflow"
    phase := .prepared
    creations := ApplyStageRecord.new creationCount true
    changes := none
    postconditionObserved := false
    renderedComposition := "unverified" }

/-- The record an update starts from: the receipt with the time of the update. -/
def stamped (receipt : ApplyReceipt) (utc : String) : ApplyRecord :=
  { receipt.1 with updatedAt := utc }

def updated (receipt : ApplyReceipt) (update : ApplyUpdate) (utc : String) :
    Except StoreError ApplyReceipt :=
  match (receipt.stamped utc).transition update with
  | .ok record => checked record
  | .error error => .error error

variable {receipt : ApplyReceipt} {update : ApplyUpdate} {utc : String}

/-- Inversion of an update: it is a row of the table. -/
theorem updated_eq_ok {next : ApplyReceipt} :
    receipt.updated update utc = .ok next ↔ (receipt.stamped utc).Row update next.1 := by
  rw [← ApplyRecord.transition_eq_ok]
  unfold updated
  cases htransition : (receipt.stamped utc).transition update with
  | error error => simp
  | ok record => simp [checked, checkedBy_eq_ok]

/-- A time at which a receipt can be updated: a valid timestamp not before its creation. -/
def Timely (receipt : ApplyReceipt) (utc : String) : Prop :=
  validTimestamp utc = true ∧ textLt utc receipt.1.createdAt = false

end ApplyReceipt

/-- Apply Scene receipts as a transition system: prepared with any safe count of creations, then
updated. -/
def applyMachine : Machine ApplyReceipt (ApplyUpdate × String) where
  initial receipt := ∃ operationId endpointHash generation creationCount utc,
    creationCount ≤ maxSafeInteger ∧
      ApplyReceipt.prepare operationId endpointHash generation creationCount utc = .ok receipt
  step receipt event next := receipt.updated event.1 event.2 = .ok next

end ObsMcp.Receipts
