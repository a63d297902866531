import ObsMcp.Foundations.FirstIndex
import ObsMcp.Foundations.Machine
import ObsMcp.Receipts.Request

/-!
# Capture Window receipts

The version 5 receipt of `operation_store.rs`: a workflow of up to three requests, the initial
effect, the audio batch and the fit, of which a plan needs some. The three step records of the
source's array are a function of the step. `CaptureRecord.layout` is the validator, which filters
the needed steps and reads them from the first index that meets a test; `CaptureRecord.transition`
is the match table of `CaptureReceipt::updated`.

`CaptureRecord.Progress` says the same as the layout without indices: up to some step everything
succeeded, and from there on every step is still pending or was dropped. `CaptureRecord.layout_iff`
connects the two for records whose steps are valid, and `CaptureRecord.Row.progress` is the step
lemma: a row of the table keeps the progress.
-/

namespace ObsMcp.Receipts

open Foundations List Option

/-! ### Plans and steps -/

inductive CaptureInitial
  | none
  | create
  | retarget
  deriving DecidableEq

structure CapturePlan where
  initial : CaptureInitial
  audio : Bool
  fit : Bool
  deriving DecidableEq

inductive CaptureStep
  | initial
  | audio
  | fit
  deriving DecidableEq

namespace CaptureStep

def index : CaptureStep → ℕ
  | .initial => 0
  | .audio => 1
  | .fit => 2

def all : List CaptureStep := [.initial, .audio, .fit]

theorem index_inj {i j : CaptureStep} : i.index = j.index ↔ i = j := by
  cases i <;> cases j <;> simp [index]

@[simp] theorem mem_all (step : CaptureStep) : step ∈ all := by
  cases step <;> simp [all]

/-- A relation between earlier and later entries of the list of steps is a relation between steps
of smaller and larger index. -/
theorem pairwise_all {relation : CaptureStep → CaptureStep → Prop} :
    all.Pairwise relation ↔ ∀ i j, i.index < j.index → relation i j := by
  constructor
  · intro hpairwise i j hindex
    simp only [all, pairwise_cons, mem_cons, not_mem_nil, or_false,
      forall_eq_or_imp, forall_eq] at hpairwise
    cases i <;> cases j <;> simp_all [index]
  · intro hrelation
    simp only [all, pairwise_cons, mem_cons, not_mem_nil, or_false,
      forall_eq_or_imp, forall_eq, List.Pairwise.nil, and_true, false_implies, implies_true]
    exact ⟨⟨hrelation _ _ (by decide), hrelation _ _ (by decide)⟩, hrelation _ _ (by decide)⟩

/-- A split of a list in the order of the steps puts the smaller indices first and the larger ones
last. -/
theorem mem_split_iff {list first last : List CaptureStep} {middle : CaptureStep}
    (hsorted : list.Pairwise fun i j ↦ i.index < j.index)
    (hsplit : list = first ++ middle :: last) :
    (∀ step, step ∈ first ↔ step ∈ list ∧ step.index < middle.index) ∧
      ∀ step, step ∈ last ↔ step ∈ list ∧ middle.index < step.index := by
  subst hsplit
  rw [pairwise_append, pairwise_cons] at hsorted
  obtain ⟨-, ⟨hlast, -⟩, hfirst⟩ := hsorted
  constructor
  · intro step
    refine ⟨fun h ↦ ⟨by simp [h], hfirst step h middle (by simp)⟩, ?_⟩
    rintro ⟨hmem, hindex⟩
    rcases mem_append.mp hmem with hstep | hstep
    · exact hstep
    · rcases mem_cons.mp hstep with rfl | hstep
      · omega
      · have := hlast step hstep
        omega
  · intro step
    refine ⟨fun h ↦ ⟨by simp [h], hlast step h⟩, ?_⟩
    rintro ⟨hmem, hindex⟩
    rcases mem_append.mp hmem with hstep | hstep
    · have := hfirst step hstep middle (by simp)
      omega
    · rcases mem_cons.mp hstep with rfl | hstep
      · omega
      · exact hstep

/-- The steps that meet a property from the first on: an index before which every step meets it and
at which it fails, if it fails at all. -/
theorem exists_cut (property : CaptureStep → Prop) :
    ∃ cut, (∀ step, step.index < cut → property step) ∧
      ∀ step, step.index = cut → ¬ property step := by
  by_cases hinitial : property .initial
  · by_cases haudio : property .audio
    · by_cases hfit : property .fit
      · exact ⟨3, by rintro (_ | _ | _) - <;> assumption, by rintro (_ | _ | _) <;> simp [index]⟩
      · exact ⟨2, by rintro (_ | _ | _) h <;> simp_all [index],
          by rintro (_ | _ | _) <;> simp_all [index]⟩
    · exact ⟨1, by rintro (_ | _ | _) h <;> simp_all [index],
        by rintro (_ | _ | _) <;> simp_all [index]⟩
  · exact ⟨0, by simp, by rintro (_ | _ | _) <;> simp_all [index]⟩

/-- There is a step at every index below that of a step. -/
theorem exists_index {step : CaptureStep} {cut : ℕ} (hcut : cut < step.index) :
    ∃ earlier : CaptureStep, earlier.index = cut := by
  have hbound : cut = 0 ∨ cut = 1 := by cases step <;> simp [index] at hcut <;> omega
  rcases hbound with rfl | rfl
  · exact ⟨.initial, rfl⟩
  · exact ⟨.audio, rfl⟩

end CaptureStep

open CaptureStep

namespace CapturePlan

/-- The number of requests of each step. -/
def counts (plan : CapturePlan) : CaptureStep → ℕ
  | .initial => if plan.initial = .none then 0 else 1
  | .audio => if plan.audio then 2 else 0
  | .fit => if plan.fit then 1 else 0

def hasEffects (plan : CapturePlan) : Bool := CaptureStep.all.any fun step ↦ plan.counts step > 0

end CapturePlan

inductive CapturePhase
  | prepared
  | dispatching
  | continuation
  | closed
  | aborted
  | unknown
  deriving DecidableEq

inductive CaptureStepPhase
  | notNeeded
  | prepared
  | dispatching
  | acknowledged
  | notDispatched
  | unknown
  deriving DecidableEq

structure CaptureCounts where
  successful : ℕ
  failed : ℕ
  skipped : ℕ
  deriving DecidableEq

structure CaptureStepRecord where
  step : CaptureStep
  requestCount : ℕ
  phase : CaptureStepPhase
  requestDispatched : Option Bool
  replyAcknowledged : Option Bool
  counts : Option CaptureCounts
  deriving DecidableEq

namespace CaptureStepRecord

/-- A step before its request: not needed when the plan has no request for it. -/
def new (step : CaptureStep) (count : ℕ) : CaptureStepRecord where
  step := step
  requestCount := count
  phase := if count = 0 then .notNeeded else .prepared
  requestDispatched := some false
  replyAcknowledged := none
  counts := none

/-- Move a step to a phase, with the dispositions the phase has. -/
def set (record : CaptureStepRecord) (phase : CaptureStepPhase) (counts : Option CaptureCounts) :
    CaptureStepRecord :=
  { record with
    phase := phase
    counts := counts
    requestDispatched :=
      match phase with
      | .notNeeded | .prepared | .notDispatched => some false
      | .dispatching | .unknown => none
      | .acknowledged => some true
    replyAcknowledged :=
      match phase with
      | .acknowledged => some true
      | _ => none }

def success (record : CaptureStepRecord) : Bool :=
  record.phase == .notNeeded
    || (record.phase == .acknowledged
      && record.counts.any fun counts ↦ counts.failed == 0 && counts.skipped == 0)

/-- The counts of an acknowledged step account for its requests: at most one failure, a skip only
after a failure, and a skip only in the audio batch. -/
def countsFit (step : CaptureStep) (requestCount : ℕ) (counts : CaptureCounts) : Bool :=
  counts.successful + counts.failed + counts.skipped == requestCount && counts.failed ≤ 1
    && (counts.failed != 0 || counts.skipped == 0) && (step == .audio || counts.skipped == 0)

def valid (record : CaptureStepRecord) (step : CaptureStep) (count : ℕ) : Bool :=
  if record.step != step || record.requestCount != count
      || ((count == 0) != (record.phase == .notNeeded)) then false
  else
    match record.phase with
    | .notNeeded | .prepared | .notDispatched =>
      record.requestDispatched == some false && record.replyAcknowledged.isNone
        && record.counts.isNone
    | .dispatching | .unknown =>
      record.requestDispatched.isNone && record.replyAcknowledged.isNone && record.counts.isNone
    | .acknowledged =>
      record.requestDispatched == some true && record.replyAcknowledged == some true
        && record.counts.any (countsFit step count)

@[simp] theorem set_phase (record : CaptureStepRecord) (phase : CaptureStepPhase)
    (counts : Option CaptureCounts) : (record.set phase counts).phase = phase := rfl

@[simp] theorem set_counts (record : CaptureStepRecord) (phase : CaptureStepPhase)
    (counts : Option CaptureCounts) : (record.set phase counts).counts = counts := rfl

/-- A new step is valid for its own step and count. -/
theorem new_valid (step : CaptureStep) (count : ℕ) : (new step count).valid step count = true := by
  by_cases hzero : count = 0
  · simp [valid, new, hzero]
  · simp [valid, new, hzero]

/-- The phases a step with requests can be moved to, with the counts they carry. -/
inductive Reports (step : CaptureStep) (requestCount : ℕ) :
    CaptureStepPhase → Option CaptureCounts → Prop
  | dispatching : Reports step requestCount .dispatching none
  | notDispatched : Reports step requestCount .notDispatched none
  | unknown : Reports step requestCount .unknown none
  | acknowledged {counts : CaptureCounts} (hfit : countsFit step requestCount counts = true) :
      Reports step requestCount .acknowledged (some counts)

variable {count : ℕ} {record : CaptureStepRecord} {step : CaptureStep}

/-- What the validator says about the step, the count and the need of a step. -/
theorem valid_base (hvalid : record.valid step count = true) :
    record.step = step ∧ record.requestCount = count ∧ (count = 0 ↔ record.phase = .notNeeded) := by
  unfold valid at hvalid
  split_ifs at hvalid with hbase
  simp only [Bool.or_eq_true, bne_iff_ne, ne_eq, not_or, not_not] at hbase
  refine ⟨hbase.1.1, hbase.1.2, ?_⟩
  have := hbase.2
  constructor
  · intro hzero
    simpa [hzero] using this.symm
  · intro hphase
    simpa [hphase] using this

variable {phase : CaptureStepPhase}

section

variable (hvalid : record.valid step count = true)
include hvalid

/-- Moving a valid step keeps it valid. Assumes: a step that has requests, and a phase with the
counts it carries. -/
theorem set_valid (hneeded : record.phase ≠ .notNeeded) {counts : Option CaptureCounts}
    (hreports : Reports step count phase counts) :
    (record.set phase counts).valid step count = true := by
  obtain ⟨hstep, hcount, hzero⟩ := valid_base hvalid
  have hpositive : count ≠ 0 := fun h ↦ hneeded (hzero.mp h)
  cases hreports with
  | acknowledged hfit => simp [valid, set, hstep, hcount, hpositive, hfit]
  | _ => simp [valid, set, hstep, hcount, hpositive]

/-- A valid step is determined by its plan, its phase and its counts: it is a new step, or a new
step moved to its phase. -/
theorem eq_of_valid :
    record = new step count ∨
      count ≠ 0 ∧ record = (new step count).set record.phase record.counts ∧
        Reports step count record.phase record.counts := by
  obtain ⟨hstep, hcount, hzero⟩ := valid_base hvalid
  obtain ⟨recordStep, requestCount, phase, dispatched, acknowledged, counts⟩ := record
  subst hstep hcount
  cases phase with
  | notNeeded =>
    left
    simp_all [valid, new]
  | prepared =>
    left
    simp_all [valid, new]
  | dispatching | notDispatched | unknown =>
    right
    simp_all [valid, new, set]
    constructor
  | acknowledged =>
    right
    cases counts with
    | none => simp_all [valid]
    | some counts =>
      simp_all [valid, new, set]
      exact .acknowledged hvalid.2

/-- A valid step that has not been sent is a new one. -/
theorem eq_new_of_valid (hphase : record.phase = .prepared ∨ record.phase = .notNeeded) :
    record = new step count := by
  rcases eq_of_valid hvalid with hnew | ⟨-, -, hreports⟩
  · exact hnew
  · rcases hphase with hphase | hphase <;> rw [hphase] at hreports <;> cases hreports

/-- A valid step in any other phase is a new one moved to that phase. -/
theorem eq_set_of_valid (hphase : record.phase = phase)
    (hmoved : phase ≠ .prepared ∧ phase ≠ .notNeeded) :
    count ≠ 0 ∧ ∃ counts, record = (new step count).set phase counts ∧
      Reports step count phase counts := by
  subst hphase
  rcases eq_of_valid hvalid with hnew | ⟨hneeded, hset, hreports⟩
  · have hfresh : record.phase = .prepared ∨ record.phase = .notNeeded := by
      rw [hnew]
      by_cases hzero : count = 0 <;> simp [new, hzero]
    exact absurd hfresh (not_or.mpr hmoved)
  · exact ⟨hneeded, record.counts, hset, hreports⟩

/-- A step that is over without success reports a failure. Assumes: a valid step. -/
theorem failed_of_valid (hphase : record.phase = .acknowledged) :
    record.success = true ∨ record.counts.any (fun counts ↦ decide (0 < counts.failed)) = true := by
  obtain ⟨recordStep, requestCount, phase, dispatched, acknowledged, counts⟩ := record
  subst hphase
  cases counts with
  | none => simp [valid] at hvalid
  | some counts =>
    by_cases hfailed : counts.failed = 0
    · left
      have hfit : countsFit step count counts = true := by
        unfold valid at hvalid
        split_ifs at hvalid
        simpa using (Bool.and_eq_true _ _ ▸ hvalid).2
      simp_all [success, countsFit]
    · right
      simpa [Nat.pos_iff_ne_zero] using hfailed

end

end CaptureStepRecord

/-! ### Records -/

instance : DecidableEq (CaptureStep → CaptureStepRecord) := fun first second ↦
  decidable_of_iff (∀ step ∈ CaptureStep.all, first step = second step) <| by
    simp [funext_iff]

structure CaptureRecord extends Stamp where
  version : ℕ
  kind : String
  phase : CapturePhase
  plan : CapturePlan
  activeStep : Option CaptureStep
  steps : CaptureStep → CaptureStepRecord
  postconditionObserved : Bool
  renderedTarget : String
  deriving DecidableEq

inductive CaptureUpdate
  | dispatch (step : CaptureStep)
  | acknowledged (counts : CaptureCounts)
  | notDispatched
  | unknown
  | close
  | abort
  deriving DecidableEq

namespace CaptureRecord

open CaptureStepRecord

/-- The first step that still waits for its request. -/
def nextStep (record : CaptureRecord) : Option CaptureStep :=
  (CaptureStep.all.find? fun step ↦ (record.steps step).phase == .prepared).map fun step ↦
    (record.steps step).step

/-- The steps the plan has requests for, in order. -/
def needed (record : CaptureRecord) : List CaptureStep :=
  CaptureStep.all.filter fun step ↦ decide (0 < (record.steps step).requestCount)

/-- The first needed step that meets a test is in a phase, the needed steps before it succeeded and
the needed steps after it are all in one other phase. -/
def around (record : CaptureRecord) (test : CaptureStepRecord → Bool)
    (here rest : CaptureStepPhase) : Bool :=
  (record.needed.findIdx? fun step ↦ test (record.steps step)).any fun index ↦
    (record.needed.take index).all (fun step ↦ (record.steps step).success)
      && record.needed[index]?.any (fun step ↦ (record.steps step).phase == here)
      && (record.needed.drop (index + 1)).all fun step ↦ (record.steps step).phase == rest

/-- The index of the first needed step without success. -/
def firstOpen (record : CaptureRecord) : ℕ :=
  record.needed.findIdx fun step ↦ !(record.steps step).success

/-- The steps a record can have in each phase. -/
def layout (record : CaptureRecord) : Bool :=
  match record.phase with
  | .prepared =>
    record.activeStep.isNone
      && record.needed.all fun step ↦ (record.steps step).phase == .prepared
  | .continuation =>
    record.activeStep.isNone && record.needed.any (fun step ↦ (record.steps step).success)
      && (record.needed.drop record.firstOpen).all fun step ↦ (record.steps step).phase == .prepared
  | .dispatching =>
    record.activeStep.any fun active ↦
      record.around (fun step ↦ step.step == active) .dispatching .prepared
  | .closed =>
    record.activeStep.isNone && record.needed.all fun step ↦ (record.steps step).success
  | .unknown =>
    record.activeStep.isNone
      && record.around (fun step ↦ step.phase == .unknown) .unknown .notDispatched
  | .aborted =>
    record.activeStep.isNone
      && (record.needed.take record.firstOpen).all (fun step ↦ (record.steps step).success)
      && (record.needed.drop record.firstOpen).zipIdx.all fun (step, index) ↦
        (record.steps step).phase == .notDispatched
          || (index == 0 && ((record.steps step).phase == .acknowledged
            && (record.steps step).counts.any fun counts ↦ decide (0 < counts.failed)))

def stepsValid (record : CaptureRecord) : Bool :=
  CaptureStep.all.all fun step ↦ (record.steps step).valid step (record.plan.counts step)

/-- The part of the validator that reads the history, not the identity, of a record. -/
def historyValid (record : CaptureRecord) : Bool :=
  record.plan.hasEffects && record.stepsValid && record.layout

def valid (record : CaptureRecord) : Bool :=
  record.version == 5 && record.kind == "capture-window-workflow" && record.toStamp.valid
    && !record.postconditionObserved && record.renderedTarget == "unverified"
    && record.historyValid

/-- Every step that still waits for its request is dropped. -/
def dropPrepared (steps : CaptureStep → CaptureStepRecord) (step : CaptureStep) :
    CaptureStepRecord :=
  if (steps step).phase = .prepared then (steps step).set .notDispatched none else steps step

/-- The steps after the active one was moved to a phase. -/
def moved (record : CaptureRecord) (step : CaptureStep) (phase : CaptureStepPhase)
    (counts : Option CaptureCounts) : CaptureStep → CaptureStepRecord :=
  Function.update record.steps step ((record.steps step).set phase counts)

/-- The match table of an update, before the result is checked. -/
def transition (record : CaptureRecord) : CaptureUpdate → Except StoreError CaptureRecord
  | .dispatch step =>
    if (record.phase = .prepared ∨ record.phase = .continuation)
        ∧ record.nextStep = some step then
      .ok { record with
        phase := .dispatching
        activeStep := some step
        steps := record.moved step .dispatching none }
    else .error .conflict
  | .acknowledged counts =>
    match record.phase, record.activeStep with
    | .dispatching, some active =>
      if counts.failed = 0 ∧ counts.skipped = 0 then
        .ok { record with
          phase := .continuation
          activeStep := none
          steps := record.moved active .acknowledged (some counts) }
      else
        .ok { record with
          phase := .aborted
          activeStep := none
          steps := dropPrepared (record.moved active .acknowledged (some counts)) }
    | _, _ => .error .conflict
  | .notDispatched =>
    match record.phase, record.activeStep with
    | .dispatching, some active =>
      .ok { record with
        phase := .aborted
        activeStep := none
        steps := dropPrepared (record.moved active .notDispatched none) }
    | _, _ => .error .conflict
  | .unknown =>
    match record.phase, record.activeStep with
    | .dispatching, some active =>
      .ok { record with
        phase := .unknown
        activeStep := none
        steps := dropPrepared (record.moved active .unknown none) }
    | _, _ => .error .conflict
  | .close =>
    if record.phase = .continuation ∧ record.nextStep = none then
      .ok { record with phase := .closed }
    else .error .conflict
  | .abort =>
    if record.phase = .prepared ∨ record.phase = .continuation then
      .ok { record with phase := .aborted, steps := dropPrepared record.steps }
    else .error .conflict

/-! ### Progress of a workflow -/

/-- A step is in a phase, or the plan does not need it. -/
def InPhase (record : CaptureRecord) (phase : CaptureStepPhase) (step : CaptureStep) : Prop :=
  (record.steps step).phase = phase ∨ (record.steps step).phase = .notNeeded

/-- Up to a step everything succeeded, the step is in one phase and the later steps are in
another. -/
structure Around (record : CaptureRecord) (middle : CaptureStep) (here rest : CaptureStepPhase) :
    Prop where
  current : (record.steps middle).phase = here
  before : ∀ step, step.index < middle.index → (record.steps step).success = true
  after : ∀ step, middle.index < step.index → record.InPhase rest step

/-- Before some index everything succeeded, and from it on every step is in one phase, except that
the first of them may be an exception. -/
structure UpTo (record : CaptureRecord) (cut : ℕ) (rest : CaptureStepPhase)
    (exception : CaptureStep → Prop) : Prop where
  before : ∀ step, step.index < cut → (record.steps step).success = true
  here : ∀ step, step.index = cut → record.InPhase rest step ∨ exception step
  after : ∀ step, cut < step.index → record.InPhase rest step

/-- What each phase says about the steps of a record. -/
def Progress (record : CaptureRecord) : Prop :=
  match record.phase with
  | .prepared => record.activeStep = none ∧ ∀ step, record.InPhase .prepared step
  | .continuation =>
    record.activeStep = none ∧
      (∃ step, (record.steps step).phase = .acknowledged ∧ (record.steps step).success = true) ∧
        ∃ cut, record.UpTo cut .prepared fun _ ↦ False
  | .dispatching =>
    ∃ active, record.activeStep = some active ∧ record.Around active .dispatching .prepared
  | .closed => record.activeStep = none ∧ ∀ step, (record.steps step).success = true
  | .unknown =>
    record.activeStep = none ∧ ∃ middle, record.Around middle .unknown .notDispatched
  | .aborted =>
    record.activeStep = none ∧
      ∃ cut, record.UpTo cut .notDispatched fun step ↦ (record.steps step).phase = .acknowledged

variable {next record : CaptureRecord} {update : CaptureUpdate} {step : CaptureStep}

theorem stepsValid_iff :
    record.stepsValid = true ↔
      ∀ step, (record.steps step).valid step (record.plan.counts step) = true := by
  simp [stepsValid]

theorem needed_sorted (record : CaptureRecord) :
    record.needed.Pairwise fun i j ↦ i.index < j.index :=
  (pairwise_all.mpr fun _ _ h ↦ h).filter _

theorem pairwise_needed {relation : CaptureStep → CaptureStep → Prop} :
    record.needed.Pairwise relation ↔
      ∀ i j, i.index < j.index → i ∈ record.needed → j ∈ record.needed → relation i j := by
  unfold needed
  rw [pairwise_filter, pairwise_all]
  simp

section Layout

variable {record : CaptureRecord} (hsteps : record.stepsValid = true)
include hsteps

variable {step : CaptureStep}

theorem mem_needed : step ∈ record.needed ↔ (record.steps step).phase ≠ .notNeeded := by
  obtain ⟨-, hcount, hzero⟩ := valid_base (stepsValid_iff.mp hsteps step)
  rw [ne_eq, ← hzero, ← hcount]
  simp [needed, Nat.pos_iff_ne_zero]

theorem success_of_notNeeded (hstep : step ∉ record.needed) :
    (record.steps step).success = true := by
  have hphase := not_not.mp (mt (mem_needed hsteps).mpr hstep)
  simp [CaptureStepRecord.success, hphase]

theorem inPhase_iff {phase : CaptureStepPhase} :
    record.InPhase phase step ↔ (step ∈ record.needed → (record.steps step).phase = phase) := by
  rw [mem_needed hsteps, InPhase]
  tauto

variable {rest : CaptureStepPhase}

/-- The suffix of the needed steps from the first one without success, as a statement about
steps. -/
theorem exists_upTo_iff {exception : CaptureStep → Prop} :
    ((∀ step ∈ record.needed, (record.steps step).success = false →
        (record.steps step).phase = rest ∨ exception step) ∧
      record.needed.Pairwise fun i j ↦
        (record.steps i).success = false → (record.steps j).phase = rest) ↔
      ∃ cut, record.UpTo cut rest exception := by
  rw [pairwise_needed]
  constructor
  · rintro ⟨hall, hpairs⟩
    obtain ⟨cut, hbefore, hcut⟩ := exists_cut fun step ↦
      (record.steps step).success = true
    have hneeded {step : CaptureStep} (hindex : step.index = cut) : step ∈ record.needed := by
      by_contra hstep
      exact hcut step hindex (success_of_notNeeded hsteps hstep)
    refine ⟨cut, hbefore, fun step hindex ↦ ?_, fun step hindex ↦ ?_⟩
    · rcases hall step (hneeded hindex) (by simpa using hcut step hindex) with hrest | hexception
      · exact .inl (.inl hrest)
      · exact .inr hexception
    · obtain ⟨earlier, hearlier⟩ := exists_index hindex
      rw [inPhase_iff hsteps]
      intro hstep
      exact hpairs earlier step (by omega) (hneeded hearlier) hstep
        (by simpa using hcut earlier hearlier)
  · rintro ⟨cut, hbefore, hhere, hafter⟩
    have hopen {step : CaptureStep} (hsuccess : (record.steps step).success = false) :
        cut ≤ step.index := by
      by_contra hindex
      simp [hbefore step (by omega)] at hsuccess
    refine ⟨fun step hstep hsuccess ↦ ?_, fun i j hindex _ hj hsuccess ↦ ?_⟩
    · rcases Nat.eq_or_lt_of_le (hopen hsuccess) with hindex | hindex
      · rcases hhere step hindex.symm with hphase | hexception
        · exact .inl ((inPhase_iff hsteps).mp hphase hstep)
        · exact .inr hexception
      · exact .inl ((inPhase_iff hsteps).mp (hafter step hindex) hstep)
    · have := hopen hsuccess
      exact (inPhase_iff hsteps).mp (hafter j (by omega)) hj

/-- The three parts of the needed steps around the first one that meets a test, as a statement
about steps. -/
theorem around_iff {test : CaptureStepRecord → Bool} {here : CaptureStepPhase} :
    record.around test here rest = true ↔
      ∃ middle ∈ record.needed, test (record.steps middle) = true ∧
        (∀ step ∈ record.needed, step.index < middle.index →
          test (record.steps step) = false) ∧ record.Around middle here rest := by
  unfold around
  rw [any_findIdx? record.needed (fun step ↦ (record.steps step).success)
    (fun step ↦ (record.steps step).phase == here) (fun step ↦ (record.steps step).phase == rest)]
  constructor
  · rintro ⟨first, middle, last, hsplit, htest, hbefore, hhere, hafter⟩
    obtain ⟨hfirst, hlast⟩ := mem_split_iff record.needed_sorted hsplit
    refine ⟨middle, by simp [hsplit], htest, fun step hstep hindex ↦ ?_, by simpa using hhere,
      fun step hindex ↦ ?_, fun step hindex ↦ ?_⟩
    · exact (hbefore step ((hfirst step).mpr ⟨hstep, hindex⟩)).1
    · by_cases hstep : step ∈ record.needed
      · exact (hbefore step ((hfirst step).mpr ⟨hstep, hindex⟩)).2
      · exact success_of_notNeeded hsteps hstep
    · rw [inPhase_iff hsteps]
      intro hstep
      simpa using hafter step ((hlast step).mpr ⟨hstep, hindex⟩)
  · rintro ⟨middle, hmiddle, htest, hearlier, hhere, hbefore, hafter⟩
    obtain ⟨first, last, hsplit⟩ := append_of_mem hmiddle
    obtain ⟨hfirst, hlast⟩ := mem_split_iff record.needed_sorted hsplit
    refine ⟨first, middle, last, hsplit, htest, fun step hstep ↦ ?_, by simpa using hhere,
      fun step hstep ↦ ?_⟩
    · obtain ⟨hneeded, hindex⟩ := (hfirst step).mp hstep
      exact ⟨hearlier step hneeded hindex, hbefore step hindex⟩
    · obtain ⟨hneeded, hindex⟩ := (hlast step).mp hstep
      simpa using (inPhase_iff hsteps).mp (hafter step hindex) hneeded

/-- The validator's layout is the progress of the record. Assumes: valid steps. -/
theorem layout_iff : record.layout = true ↔ record.Progress := by
  have hidentity (step : CaptureStep) : (record.steps step).step = step :=
    (valid_base (stepsValid_iff.mp hsteps step)).1
  unfold layout Progress
  cases record.phase with
  | prepared =>
    simp only [Bool.and_eq_true, Option.isNone_iff_eq_none, List.all_eq_true, beq_iff_eq,
      inPhase_iff hsteps]
  | continuation =>
    simp only [Bool.and_eq_true, Option.isNone_iff_eq_none, List.any_eq_true, firstOpen,
      all_drop_findIdx, ← exists_upTo_iff hsteps, Bool.not_eq_true', beq_iff_eq, or_false,
      and_assoc]
    refine and_congr_right fun _ ↦ and_congr_left fun _ ↦ exists_congr fun step ↦ ?_
    rw [mem_needed hsteps]
    refine and_congr_left fun hsuccess ↦ ?_
    simp only [CaptureStepRecord.success, Bool.or_eq_true, beq_iff_eq, Bool.and_eq_true] at hsuccess
    rcases hsuccess with hphase | ⟨hphase, -⟩ <;> simp [hphase]
  | dispatching =>
    constructor
    · intro haround
      obtain ⟨active, hactive, haround⟩ := (Option.any_eq_true _ _).mp haround
      obtain ⟨middle, -, htest, -, haround⟩ := (around_iff hsteps).mp haround
      rw [beq_iff_eq, hidentity] at htest
      exact ⟨active, hactive, htest ▸ haround⟩
    · rintro ⟨active, hactive, haround⟩
      rw [hactive, any_some, around_iff hsteps]
      refine ⟨active, ?_, by simp [hidentity], fun step _ hindex ↦ ?_, haround⟩
      · rw [mem_needed hsteps, haround.current]
        decide
      · rw [hidentity, beq_eq_false_iff_ne]
        rintro rfl
        omega
  | closed =>
    simp only [Bool.and_eq_true, Option.isNone_iff_eq_none, List.all_eq_true]
    refine and_congr_right fun _ ↦ ⟨fun hall step ↦ ?_, fun hall step _ ↦ hall step⟩
    by_cases hstep : step ∈ record.needed
    · exact hall step hstep
    · exact success_of_notNeeded hsteps hstep
  | unknown =>
    simp only [Bool.and_eq_true, Option.isNone_iff_eq_none, around_iff hsteps, beq_iff_eq]
    refine and_congr_right fun _ ↦ exists_congr fun middle ↦ ?_
    constructor
    · rintro ⟨-, -, -, haround⟩
      exact haround
    · intro haround
      refine ⟨?_, haround.current, fun step _ hindex ↦ ?_, haround⟩
      · rw [mem_needed hsteps, haround.current]
        decide
      · have := haround.before step hindex
        rw [beq_eq_false_iff_ne]
        intro hphase
        simp [CaptureStepRecord.success, hphase] at this
  | aborted =>
    have hprefix : (record.needed.take record.firstOpen).all
        (fun step ↦ (record.steps step).success) = true := by
      have htake := all_take_findIdx (fun step ↦ !(record.steps step).success) record.needed
      simp only [Bool.not_not] at htake
      exact htake
    have hsuffix := all_zipIdx_drop_findIdx (fun step ↦ !(record.steps step).success)
      (fun step ↦ (record.steps step).phase == .notDispatched)
      (fun step ↦ (record.steps step).phase == .acknowledged
        && (record.steps step).counts.any fun counts ↦ decide (0 < counts.failed)) record.needed
    simp only [Bool.and_eq_true, Option.isNone_iff_eq_none, hprefix, and_true,
      ← exists_upTo_iff hsteps]
    refine and_congr_right fun _ ↦ hsuffix.trans ?_
    simp only [Bool.not_eq_true', beq_iff_eq, Bool.and_eq_true]
    refine and_congr_left fun _ ↦ forall₂_congr fun step _ ↦
      forall_congr' fun hopen ↦ or_congr_right (and_iff_left_of_imp fun hphase ↦ ?_)
    have := failed_of_valid (stepsValid_iff.mp hsteps step) hphase
    simpa [hopen] using this

end Layout

/-! ### The rows of the table -/

/-- The rows of the match table: what one update can do to a record. -/
inductive Row (record : CaptureRecord) : CaptureUpdate → CaptureRecord → Prop
  | dispatch (step : CaptureStep)
      (hphase : record.phase = .prepared ∨ record.phase = .continuation)
      (hnext : record.nextStep = some step) :
      Row record (.dispatch step) { record with
        phase := .dispatching
        activeStep := some step
        steps := record.moved step .dispatching none }
  | succeeded (counts : CaptureCounts) (active : CaptureStep) (hphase : record.phase = .dispatching)
      (hactive : record.activeStep = some active)
      (hclean : counts.failed = 0 ∧ counts.skipped = 0) :
      Row record (.acknowledged counts) { record with
        phase := .continuation
        activeStep := none
        steps := record.moved active .acknowledged (some counts) }
  | failed (counts : CaptureCounts) (active : CaptureStep) (hphase : record.phase = .dispatching)
      (hactive : record.activeStep = some active)
      (hfailed : ¬(counts.failed = 0 ∧ counts.skipped = 0)) :
      Row record (.acknowledged counts) { record with
        phase := .aborted
        activeStep := none
        steps := dropPrepared (record.moved active .acknowledged (some counts)) }
  | notDispatched (active : CaptureStep) (hphase : record.phase = .dispatching)
      (hactive : record.activeStep = some active) :
      Row record .notDispatched { record with
        phase := .aborted
        activeStep := none
        steps := dropPrepared (record.moved active .notDispatched none) }
  | unknown (active : CaptureStep) (hphase : record.phase = .dispatching)
      (hactive : record.activeStep = some active) :
      Row record .unknown { record with
        phase := .unknown
        activeStep := none
        steps := dropPrepared (record.moved active .unknown none) }
  | close (hphase : record.phase = .continuation) (hnext : record.nextStep = none) :
      Row record .close { record with phase := .closed }
  | abort (hphase : record.phase = .prepared ∨ record.phase = .continuation) :
      Row record .abort { record with phase := .aborted, steps := dropPrepared record.steps }

/-- The table is exactly its rows. -/
theorem transition_eq_ok : record.transition update = .ok next ↔ Row record update next := by
  constructor
  · intro hnext
    cases update with
    | dispatch step =>
      simp only [transition] at hnext
      split_ifs at hnext with hrow
      injection hnext with hnext
      exact hnext ▸ .dispatch step hrow.1 hrow.2
    | acknowledged counts =>
      simp only [transition] at hnext
      split at hnext
      · split_ifs at hnext with hclean <;> injection hnext with hnext
        · exact hnext ▸ .succeeded counts _ ‹_› ‹_› hclean
        · exact hnext ▸ .failed counts _ ‹_› ‹_› hclean
      · cases hnext
    | notDispatched =>
      simp only [transition] at hnext
      split at hnext
      · injection hnext with hnext
        exact hnext ▸ .notDispatched _ ‹_› ‹_›
      · cases hnext
    | unknown =>
      simp only [transition] at hnext
      split at hnext
      · injection hnext with hnext
        exact hnext ▸ .unknown _ ‹_› ‹_›
      · cases hnext
    | close =>
      simp only [transition] at hnext
      split_ifs at hnext with hrow
      injection hnext with hnext
      exact hnext ▸ .close hrow.1 hrow.2
    | abort =>
      simp only [transition] at hnext
      split_ifs at hnext with hrow
      injection hnext with hnext
      exact hnext ▸ .abort hrow
  · intro hrow
    cases hrow <;> simp_all [transition]

/-- A row of the table changes neither the identity, the plan nor the constants of a record. -/
theorem Row.frame (hrow : Row record update next) :
    next.toStamp = record.toStamp ∧ next.version = record.version ∧ next.kind = record.kind ∧
      next.plan = record.plan ∧ next.postconditionObserved = record.postconditionObserved ∧
        next.renderedTarget = record.renderedTarget := by
  cases hrow <;> exact ⟨rfl, rfl, rfl, rfl, rfl, rfl⟩

/-- The counts an update carries fit the step it reports on. -/
def Fits (record : CaptureRecord) : CaptureUpdate → Prop
  | .acknowledged counts =>
    ∀ active ∈ record.activeStep,
      CaptureStepRecord.countsFit active (record.plan.counts active) counts = true
  | _ => True

/-- The next step is the first that still waits for its request. Assumes: valid steps. -/
theorem nextStep_eq_some (hsteps : record.stepsValid = true) :
    record.nextStep = some step ↔ (record.steps step).phase = .prepared ∧
      ∀ earlier, earlier.index < step.index → (record.steps earlier).phase ≠ .prepared := by
  have hidentity (step : CaptureStep) : (record.steps step).step = step :=
    (valid_base (stepsValid_iff.mp hsteps step)).1
  simp only [nextStep, hidentity, Option.map_id']
  have hsorted : CaptureStep.all.Pairwise fun i j ↦ i.index < j.index :=
    pairwise_all.mpr fun _ _ h ↦ h
  rw [List.find?_eq_some_iff_append]
  constructor
  · rintro ⟨hphase, first, last, hsplit, hfirst⟩
    refine ⟨by simpa using hphase, fun earlier hindex ↦ ?_⟩
    have hmem := ((mem_split_iff hsorted hsplit).1 earlier).mpr
      ⟨mem_all earlier, hindex⟩
    simpa using hfirst earlier hmem
  · rintro ⟨hphase, hearlier⟩
    obtain ⟨first, last, hsplit⟩ := append_of_mem (mem_all step)
    refine ⟨by simpa using hphase, first, last, hsplit, fun earlier hmem ↦ ?_⟩
    have hindex := ((mem_split_iff hsorted hsplit).1 earlier).mp hmem
    simpa using hearlier earlier hindex.2

theorem nextStep_eq_none :
    record.nextStep = none ↔ ∀ step, (record.steps step).phase ≠ .prepared := by
  simp [nextStep]

theorem moved_same (record : CaptureRecord) (step : CaptureStep) (phase : CaptureStepPhase)
    (counts : Option CaptureCounts) :
    record.moved step phase counts step = (record.steps step).set phase counts := by
  simp [moved]

theorem moved_other (record : CaptureRecord) {other : CaptureStep} (hother : other ≠ step)
    (phase : CaptureStepPhase) (counts : Option CaptureCounts) :
    record.moved step phase counts other = record.steps other := by
  simp [moved, hother]

variable {active : CaptureStep} {cut : ℕ} {exception : CaptureStep → Prop} {rest : CaptureStepPhase}

/-- Moving a step that has requests keeps the steps valid. -/
theorem moved_valid (hsteps : record.stepsValid = true)
    (hneeded : (record.steps active).phase ≠ .notNeeded) {phase : CaptureStepPhase}
    {counts : Option CaptureCounts}
    (hreports : CaptureStepRecord.Reports active (record.plan.counts active) phase counts)
    (step : CaptureStep) :
    (record.moved active phase counts step).valid step (record.plan.counts step) = true := by
  have hvalid := stepsValid_iff.mp hsteps
  by_cases hstep : step = active
  · subst hstep
    rw [moved_same]
    exact set_valid (hvalid step) hneeded hreports
  · rw [moved_other record hstep]
    exact hvalid step

section DropPrepared

variable {steps : CaptureStep → CaptureStepRecord} {step : CaptureStep}

theorem dropPrepared_of_ne (hphase : (steps step).phase ≠ .prepared) :
    dropPrepared steps step = steps step := by
  simp [dropPrepared, hphase]

theorem dropPrepared_success (hsuccess : (steps step).success = true) :
    (dropPrepared steps step).success = true := by
  rw [dropPrepared_of_ne]
  · exact hsuccess
  · intro hphase
    simp [CaptureStepRecord.success, hphase] at hsuccess

theorem dropPrepared_dropped
    (hphase : (steps step).phase = .prepared ∨ (steps step).phase = .notNeeded) :
    (dropPrepared steps step).phase = .notDispatched ∨
      (dropPrepared steps step).phase = .notNeeded := by
  rcases hphase with hphase | hphase
  · simp [dropPrepared, hphase]
  · simp [dropPrepared, hphase]

theorem dropPrepared_valid {count : ℕ} (hvalid : (steps step).valid step count = true) :
    (dropPrepared steps step).valid step count = true := by
  by_cases hphase : (steps step).phase = .prepared
  · have hneeded : (steps step).phase ≠ .notNeeded := by simp [hphase]
    simpa [dropPrepared, hphase] using set_valid hvalid hneeded .notDispatched
  · rwa [dropPrepared_of_ne hphase]

end DropPrepared

/-- A step that still waits is not before the first open one. -/
theorem UpTo.le_of_prepared (hupTo : record.UpTo cut rest exception)
    (hphase : (record.steps step).phase = .prepared) : cut ≤ step.index := by
  by_contra hindex
  have hsuccess := hupTo.before step (by omega)
  simp [CaptureStepRecord.success, hphase] at hsuccess

/-- In a continuation every step succeeded or still waits. -/
theorem UpTo.success_or_prepared (hupTo : record.UpTo cut .prepared fun _ ↦ False)
    (step : CaptureStep) :
    (record.steps step).success = true ∨ (record.steps step).phase = .prepared := by
  have hopen (hphase : record.InPhase .prepared step) :
      (record.steps step).success = true ∨ (record.steps step).phase = .prepared := by
    rcases hphase with hphase | hphase
    · exact .inr hphase
    · exact .inl (by simp [CaptureStepRecord.success, hphase])
  rcases Nat.lt_trichotomy step.index cut with hindex | hindex | hindex
  · exact .inl (hupTo.before step hindex)
  · exact hopen ((hupTo.here step hindex).resolve_right not_false)
  · exact hopen (hupTo.after step hindex)

section Rows

variable {record : CaptureRecord}

/-- Sending the next step. Assumes: valid steps, all of them waiting or a continuation. -/
theorem around_dispatch (hwaiting : (∀ step, record.InPhase .prepared step) ∨
      ∃ cut, record.UpTo cut .prepared fun _ ↦ False)
    (hphase : (record.steps step).phase = .prepared)
    (hearlier : ∀ earlier, earlier.index < step.index →
      (record.steps earlier).phase ≠ .prepared) :
    ({ record with
        phase := .dispatching
        activeStep := some step
        steps := record.moved step .dispatching none } : CaptureRecord).Around
      step .dispatching .prepared := by
  refine ⟨by simp [moved_same], fun i hindex ↦ ?_, fun j hindex ↦ ?_⟩
  · have hne : i ≠ step := by
      rintro rfl
      omega
    simp only [moved_other record hne]
    rcases hwaiting with hall | ⟨cut, hupTo⟩
    · have hnone := (hall i).resolve_left (hearlier i hindex)
      simp [CaptureStepRecord.success, hnone]
    · exact (hupTo.success_or_prepared i).resolve_right (hearlier i hindex)
  · have hne : j ≠ step := by
      rintro rfl
      omega
    simp only [InPhase, moved_other record hne]
    rcases hwaiting with hall | ⟨cut, hupTo⟩
    · exact hall j
    · have := hupTo.le_of_prepared hphase
      exact hupTo.after j (by omega)

variable {active : CaptureStep} (haround : record.Around active .dispatching .prepared)
include haround

variable {counts : Option CaptureCounts} {phase : CaptureStepPhase}

theorem moved_before (hindex : step.index < active.index) :
    (record.moved active phase counts step).success = true := by
  have hne : step ≠ active := by
    rintro rfl
    omega
  rw [moved_other record hne]
  exact haround.before step hindex

theorem moved_after (hindex : active.index < step.index) :
    (record.moved active phase counts step).phase = .prepared ∨
      (record.moved active phase counts step).phase = .notNeeded := by
  have hne : step ≠ active := by
    rintro rfl
    omega
  rw [moved_other record hne]
  exact haround.after step hindex

/-- The active step is moved to a phase and the later steps are dropped. -/
theorem around_dropped (hphase : phase ≠ .prepared) (next : CaptureRecord)
    (hnext : next.steps = dropPrepared (record.moved active phase counts)) :
    next.Around active phase .notDispatched := by
  refine ⟨?_, fun step hindex ↦ ?_, fun step hindex ↦ ?_⟩
  · rw [hnext, dropPrepared_of_ne (by simpa [moved_same] using hphase), moved_same]
    rfl
  · rw [hnext]
    exact dropPrepared_success (moved_before haround hindex)
  · rw [InPhase, hnext]
    exact dropPrepared_dropped (moved_after haround hindex)

end Rows

/-- A step with the later ones in one phase is a cut at that step. -/
theorem Around.upTo {middle : CaptureStep} {here : CaptureStepPhase}
    (haround : record.Around middle here rest) (hhere : here = rest ∨ exception middle) :
    record.UpTo middle.index rest exception := by
  refine ⟨haround.before, fun step hindex ↦ ?_, haround.after⟩
  obtain rfl := index_inj.mp hindex
  rcases hhere with rfl | hexception
  · exact .inl (.inl haround.current)
  · exact .inr hexception

theorem historyValid_iff :
    record.historyValid = true ↔
      record.plan.hasEffects = true ∧ record.stepsValid = true ∧ record.Progress := by
  unfold historyValid
  rw [Bool.and_eq_true, Bool.and_eq_true, and_assoc]
  exact and_congr_right fun _ ↦ and_congr_right layout_iff

/-- What the progress says before a row that starts or ends a workflow: every step waits, or the
steps up to a cut succeeded. -/
theorem Progress.waiting (hprogress : record.Progress)
    (hphase : record.phase = .prepared ∨ record.phase = .continuation) :
    record.activeStep = none ∧ ((∀ step, record.InPhase .prepared step) ∨
      ∃ cut, record.UpTo cut .prepared fun _ ↦ False) := by
  rcases hphase with hphase | hphase
  · simp only [Progress, hphase] at hprogress
    exact ⟨hprogress.1, .inl hprogress.2⟩
  · simp only [Progress, hphase] at hprogress
    exact ⟨hprogress.1, .inr hprogress.2.2⟩

theorem Progress.sending (hprogress : record.Progress) (hphase : record.phase = .dispatching)
    (hactive : record.activeStep = some active) : record.Around active .dispatching .prepared := by
  simp only [Progress, hphase, hactive, Option.some.injEq] at hprogress
  obtain ⟨_, rfl, haround⟩ := hprogress
  exact haround

/-- A row of the table keeps the history valid. Assumes: a valid history, and an update whose counts
fit. -/
theorem Row.historyValid (hrow : Row record update next) (hfits : record.Fits update)
    (hvalid : record.historyValid = true) : next.historyValid = true := by
  obtain ⟨heffects, hsteps, hprogress⟩ := historyValid_iff.mp hvalid
  have heach := stepsValid_iff.mp hsteps
  rw [historyValid_iff]
  cases hrow with
  | dispatch step hphase hnext =>
    obtain ⟨hprepared, hearlier⟩ := (nextStep_eq_some hsteps).mp hnext
    have hneeded : (record.steps step).phase ≠ .notNeeded := by simp [hprepared]
    refine ⟨heffects, stepsValid_iff.mpr (moved_valid hsteps hneeded .dispatching), step, rfl, ?_⟩
    exact around_dispatch (hprogress.waiting hphase).2 hprepared hearlier
  | succeeded counts active hphase hactive hclean =>
    have haround := hprogress.sending hphase hactive
    have hneeded : (record.steps active).phase ≠ .notNeeded := by simp [haround.current]
    have hreports := CaptureStepRecord.Reports.acknowledged (hfits active hactive)
    have hsuccess : ((record.steps active).set .acknowledged (some counts)).success = true := by
      simp [CaptureStepRecord.success, hclean]
    refine ⟨heffects, stepsValid_iff.mpr (moved_valid hsteps hneeded hreports), rfl,
      ⟨active, by simp [moved_same], by simpa [moved_same] using hsuccess⟩, active.index + 1,
      fun step hindex ↦ ?_, fun step hindex ↦ .inl ?_, fun step hindex ↦ ?_⟩
    · rcases Nat.lt_or_eq_of_le (Nat.le_of_lt_succ hindex) with hbefore | hsame
      · exact moved_before haround hbefore
      · obtain rfl := index_inj.mp hsame
        simpa [moved_same] using hsuccess
    · exact moved_after haround (by omega)
    · exact moved_after haround (by omega)
  | failed counts active hphase hactive hfailed =>
    have haround := hprogress.sending hphase hactive
    have hneeded : (record.steps active).phase ≠ .notNeeded := by simp [haround.current]
    have hreports := CaptureStepRecord.Reports.acknowledged (hfits active hactive)
    refine ⟨heffects,
      stepsValid_iff.mpr fun step ↦ dropPrepared_valid (moved_valid hsteps hneeded hreports step),
      rfl, active.index, ?_⟩
    have hphase' : CaptureStepPhase.acknowledged ≠ .prepared := by decide
    exact (around_dropped haround hphase' _ rfl).upTo
      (.inr (around_dropped haround hphase' _ rfl).current)
  | notDispatched active hphase hactive =>
    have haround := hprogress.sending hphase hactive
    have hneeded : (record.steps active).phase ≠ .notNeeded := by simp [haround.current]
    exact ⟨heffects,
      stepsValid_iff.mpr fun step ↦
        dropPrepared_valid (moved_valid hsteps hneeded .notDispatched step),
      rfl, active.index, (around_dropped haround (by decide) _ rfl).upTo (.inl rfl)⟩
  | unknown active hphase hactive =>
    have haround := hprogress.sending hphase hactive
    have hneeded : (record.steps active).phase ≠ .notNeeded := by simp [haround.current]
    exact ⟨heffects,
      stepsValid_iff.mpr fun step ↦ dropPrepared_valid (moved_valid hsteps hneeded .unknown step),
      rfl, active, around_dropped haround (by decide) _ rfl⟩
  | close hphase hnext =>
    simp only [Progress, hphase] at hprogress
    obtain ⟨hnone, -, cut, hupTo⟩ := hprogress
    refine ⟨heffects, hsteps, hnone, fun step ↦ ?_⟩
    exact (hupTo.success_or_prepared step).resolve_right (nextStep_eq_none.mp hnext step)
  | abort hphase =>
    obtain ⟨hnone, hwaiting⟩ := hprogress.waiting hphase
    refine ⟨heffects, stepsValid_iff.mpr fun step ↦ dropPrepared_valid (heach step), hnone, ?_⟩
    rcases hwaiting with hall | ⟨cut, hupTo⟩
    · exact ⟨0, by simp, fun step _ ↦ .inl (dropPrepared_dropped (hall step)),
        fun step _ ↦ dropPrepared_dropped (hall step)⟩
    · refine ⟨cut, fun step hindex ↦ dropPrepared_success (hupTo.before step hindex),
        fun step hindex ↦ .inl ?_, fun step hindex ↦ dropPrepared_dropped (hupTo.after step hindex)⟩
      exact dropPrepared_dropped ((hupTo.here step hindex).resolve_right not_false)

theorem valid_iff :
    record.valid = true ↔ record.version = 5 ∧ record.kind = "capture-window-workflow" ∧
      record.toStamp.valid = true ∧ record.postconditionObserved = false ∧
        record.renderedTarget = "unverified" ∧ record.historyValid = true := by
  simp only [valid, Bool.and_eq_true, beq_iff_eq, Bool.not_eq_true', and_assoc]

end CaptureRecord

/-! ### Receipts -/

abbrev CaptureReceipt := {record : CaptureRecord // record.valid = true}

namespace CaptureReceipt

def checked : CaptureRecord → Except StoreError CaptureReceipt := checkedBy CaptureRecord.valid

def dispatching (receipt : CaptureReceipt) : Bool := receipt.1.phase == .dispatching

def blocking (receipt : CaptureReceipt) : Bool :=
  match receipt.1.phase with
  | .closed | .aborted => false
  | _ => true

def live (receipt : CaptureReceipt) : Bool :=
  match receipt.1.phase with
  | .prepared | .dispatching | .continuation => true
  | _ => false

/-- The receipt of a workflow that has sent nothing yet. -/
def prepare (operationId endpointHash : String) (generation : ℕ) (plan : CapturePlan)
    (utc : String) : Except StoreError CaptureReceipt :=
  checked {
    operationId := operationId
    endpointHash := endpointHash
    generation := generation
    createdAt := utc
    updatedAt := utc
    version := 5
    kind := "capture-window-workflow"
    phase := .prepared
    plan := plan
    activeStep := none
    steps := fun step ↦ CaptureStepRecord.new step (plan.counts step)
    postconditionObserved := false
    renderedTarget := "unverified" }

/-- The record an update starts from: the receipt with the time of the update. -/
def stamped (receipt : CaptureReceipt) (utc : String) : CaptureRecord :=
  { receipt.1 with updatedAt := utc }

def updated (receipt : CaptureReceipt) (update : CaptureUpdate) (utc : String) :
    Except StoreError CaptureReceipt :=
  match (receipt.stamped utc).transition update with
  | .ok record => checked record
  | .error error => .error error

variable {receipt : CaptureReceipt} {update : CaptureUpdate} {utc : String}

/-- Inversion of an update: it is a row of the table. -/
theorem updated_eq_ok {next : CaptureReceipt} :
    receipt.updated update utc = .ok next ↔ (receipt.stamped utc).Row update next.1 := by
  rw [← CaptureRecord.transition_eq_ok]
  unfold updated
  cases htransition : (receipt.stamped utc).transition update with
  | error error => simp
  | ok record => simp [checked, checkedBy_eq_ok]

/-- A time at which a receipt can be updated: a valid timestamp not before its creation. -/
def Timely (receipt : CaptureReceipt) (utc : String) : Prop :=
  validTimestamp utc = true ∧ textLt utc receipt.1.createdAt = false

end CaptureReceipt

/-- Capture Window receipts as a transition system: prepared for any plan with effects, then
updated. -/
def captureMachine : Machine CaptureReceipt (CaptureUpdate × String) where
  initial receipt := ∃ operationId endpointHash generation plan utc,
    plan.hasEffects = true ∧
      CaptureReceipt.prepare operationId endpointHash generation plan utc = .ok receipt
  step receipt event next := receipt.updated event.1 event.2 = .ok next

end ObsMcp.Receipts
