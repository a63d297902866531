import ObsMcp.Receipts.Store

/-!
# No replay in the durable workflows

The order in which a workflow sends its requests is a property of whole update histories. For an
Apply Scene receipt each of the two stages is sent at most once, and the changes only after the
creations are over without a failure. For a Capture Window receipt each step is sent at most once,
in the order of the steps, and only after every earlier step succeeded. A final phase is never left:
the store answers every further update with `Conflict` and keeps the stored receipt.

`workflow_no_replay` collects these facts. Each comes from what one row of a table can do to one
stage: nothing returns to the prepared phase (`ApplyRecord.Row.creations_prepared`,
`CaptureRecord.Row.step_prepared`), so being prepared is a rank that drops when a stage is sent.
-/

namespace ObsMcp.Receipts

open Foundations Option

/-! ### Apply Scene -/

namespace ApplyReceipt

/-- The creations are being sent. -/
def CreationsSent (receipt : ApplyReceipt) : Prop := receipt.1.creations.phase = .dispatching

/-- The changes are being sent. -/
def ChangesSent (receipt : ApplyReceipt) : Prop :=
  ∃ stage ∈ receipt.1.changes, stage.phase = .dispatching

instance : DecidablePred CreationsSent := fun receipt ↦
  inferInstanceAs (Decidable (receipt.1.creations.phase = .dispatching))

instance : DecidablePred ChangesSent := fun receipt ↦
  decidable_of_iff (receipt.1.changes.any (fun stage ↦ stage.phase == .dispatching) = true) <| by
    simp [ChangesSent, any_eq_true]

end ApplyReceipt

namespace ApplyRecord

variable {next record : ApplyRecord} {update : ApplyUpdate}

section

variable (hrow : Row record update next)
include hrow

/-- What a row can do to the creations: send them when they wait, or leave them as they are or
over. -/
theorem Row.creations_prepared (hprepared : next.creations.phase = .prepared) :
    record.creations.phase = .prepared := by
  cases hrow with
  | abort _ =>
    by_contra hphase
    simp [hphase] at hprepared
  | _ => first | exact hprepared | simp at hprepared

/-- The creations are sent only from the prepared phase. Assumes: a valid record. -/
theorem Row.creations_sent (hvalid : record.historyValid = true)
    (hbefore : record.creations.phase ≠ .dispatching)
    (hsent : next.creations.phase = .dispatching) :
    record.creations.phase = .prepared := by
  obtain ⟨hcreations, -, hlayout⟩ := historyValid_iff.mp hvalid
  cases hrow with
  | dispatchCreations hphase hcount =>
    have hstart : record.creations.phase = .prepared ∨ record.creations.phase = .notNeeded := by
      simp only [layout, hphase, Bool.and_eq_true, Bool.or_eq_true, beq_iff_eq] at hlayout
      exact hlayout.1
    refine hstart.resolve_right fun hnone ↦ ?_
    have hzero := ApplyStageRecord.eq_new_of_valid hcreations (.inr hnone)
    rw [hzero] at hnone
    simp [ApplyStageRecord.new, Nat.pos_iff_ne_zero.mp hcount] at hnone
  | abort _ =>
    by_cases hphase : record.creations.phase = .prepared
    · exact hphase
    · simp only [hphase, if_false] at hsent
      exact absurd hsent hbefore
  | _ => first | exact absurd hsent hbefore | simp at hsent

/-- A row keeps the changes it finds, or makes new ones in the continuation. -/
theorem Row.changes_none (hnone : next.changes = none) : record.changes = none := by
  cases hrow <;> first | exact hnone | simp at hnone

/-- The changes are sent only after the creations are over without a failure, when there are none
yet. Assumes: a valid record. -/
theorem Row.changes_sent (hvalid : record.historyValid = true)
    (hbefore : ¬ ∃ stage ∈ record.changes, stage.phase = .dispatching)
    (hsent : ∃ stage ∈ next.changes, stage.phase = .dispatching) :
    record.successfulCreations = true ∧ record.changes = none ∧ next.changes ≠ none := by
  obtain ⟨-, -, hlayout⟩ := historyValid_iff.mp hvalid
  cases hrow with
  | dispatchChanges count hphase hcount =>
    simp only [layout, hphase, Bool.and_eq_true, isNone_iff_eq_none] at hlayout
    exact ⟨hlayout.1, hlayout.2, by simp⟩
  | close hphase =>
    simp [ApplyStageRecord.new] at hsent
  | changesAcknowledged | changesNotDispatched | changesUnknown => simp at hsent
  | _ => exact absurd hsent hbefore

end

end ApplyRecord

/-- Along every run each stage is sent at most once, and the changes only after the creations. -/
theorem apply_sends_once {receipt : ApplyReceipt}
    {run : List ((ApplyUpdate × String) × ApplyReceipt)}
    (hrun : applyMachine.Run receipt run) :
    Machine.entries ApplyReceipt.CreationsSent receipt run ≤ 1 ∧
      Machine.entries ApplyReceipt.ChangesSent receipt run ≤ 1 ∧
        ∀ before label next after, run = before ++ (label, next) :: after →
          ¬ (Machine.last receipt before).ChangesSent → next.ChangesSent →
            (Machine.last receipt before).1.successfulCreations = true := by
  have hhistory (receipt : ApplyReceipt) (utc : String) :
      (receipt.stamped utc).historyValid = true :=
    (ApplyRecord.valid_iff.mp receipt.2).2.2.2.2.2
  refine ⟨?_, ?_, ?_⟩
  · refine Machine.entries_le_one _ (fun receipt ↦ receipt.1.creations.phase = .prepared)
      (fun s e t hstep hprepared ↦ ?_) (fun s e t hstep hbefore hsent ↦ ?_) hrun
    · exact (ApplyReceipt.updated_eq_ok.mp hstep).creations_prepared hprepared
    · have hsent' : t.1.creations.phase = .dispatching := hsent
      have hrow := ApplyReceipt.updated_eq_ok.mp hstep
      exact ⟨hrow.creations_sent (hhistory s e.2) hbefore hsent, by simp [hsent']⟩
  · refine Machine.entries_le_one _ (fun receipt ↦ receipt.1.changes = none)
      (fun s e t hstep hnone ↦ ?_) (fun s e t hstep hbefore hsent ↦ ?_) hrun
    · exact (ApplyReceipt.updated_eq_ok.mp hstep).changes_none hnone
    · exact ((ApplyReceipt.updated_eq_ok.mp hstep).changes_sent (hhistory s e.2) hbefore hsent).2
  · intro before label next after hsplit hbefore hsent
    have hrow := ApplyReceipt.updated_eq_ok.mp (hrun.split hsplit).2.1
    exact (hrow.changes_sent (hhistory _ _) hbefore hsent).1

/-! ### Capture Window -/

namespace CaptureReceipt

/-- A step is being sent. -/
def Sent (step : CaptureStep) (receipt : CaptureReceipt) : Prop :=
  (receipt.1.steps step).phase = .dispatching

instance (step : CaptureStep) : DecidablePred (Sent step) := fun receipt ↦
  inferInstanceAs (Decidable ((receipt.1.steps step).phase = .dispatching))

end CaptureReceipt

namespace CaptureRecord

theorem dropPrepared_phase_ne (steps : CaptureStep → CaptureStepRecord) (step : CaptureStep) :
    (dropPrepared steps step).phase ≠ .prepared := by
  unfold dropPrepared
  split_ifs with hphase
  · simp
  · exact hphase

variable {record : CaptureRecord} {step : CaptureStep}

variable {active : CaptureStep} {counts : Option CaptureCounts} {phase : CaptureStepPhase}
  {next : CaptureRecord} {update : CaptureUpdate}

/-- Moving a step to a phase other than the prepared one leaves no new step prepared. -/
theorem moved_prepared (hphase : phase ≠ .prepared)
    (hprepared : (record.moved active phase counts step).phase = .prepared) :
    (record.steps step).phase = .prepared := by
  by_cases hstep : step = active
  · subst hstep
    rw [moved_same] at hprepared
    exact absurd hprepared hphase
  · rwa [moved_other record hstep] at hprepared

/-- No row takes a step back to the prepared phase. -/
theorem Row.step_prepared (hrow : Row record update next)
    (hprepared : (next.steps step).phase = .prepared) : (record.steps step).phase = .prepared := by
  cases hrow with
  | dispatch => exact moved_prepared (by decide) hprepared
  | succeeded => exact moved_prepared (by decide) hprepared
  | close => exact hprepared
  | _ => exact absurd hprepared (dropPrepared_phase_ne _ step)

theorem dropPrepared_sent {steps : CaptureStep → CaptureStepRecord}
    (hsent : (dropPrepared steps step).phase = .dispatching) :
    (steps step).phase = .dispatching := by
  unfold dropPrepared at hsent
  split_ifs at hsent
  · simp at hsent
  · exact hsent

theorem moved_sent (hphase : phase ≠ .dispatching)
    (hsent : (record.moved active phase counts step).phase = .dispatching) :
    (record.steps step).phase = .dispatching := by
  by_cases hstep : step = active
  · subst hstep
    rw [moved_same] at hsent
    exact absurd hsent hphase
  · rwa [moved_other record hstep] at hsent

/-- A step is sent from the prepared phase, when every earlier step succeeded; the earlier steps
stay as they are. Assumes: a valid record. -/
theorem Row.step_sent (hrow : Row record update next) (hvalid : record.historyValid = true)
    (hbefore : (record.steps step).phase ≠ .dispatching)
    (hsent : (next.steps step).phase = .dispatching) :
    (record.steps step).phase = .prepared ∧
      ∀ earlier, earlier.index < step.index →
        (record.steps earlier).success = true ∧ next.steps earlier = record.steps earlier := by
  obtain ⟨-, hsteps, hprogress⟩ := historyValid_iff.mp hvalid
  cases hrow with
  | dispatch active hphase hnext =>
    obtain ⟨hprepared, hearlier⟩ := (nextStep_eq_some hsteps).mp hnext
    have hsame : step = active := by
      by_contra hne
      simp only [moved_other record hne] at hsent
      exact hbefore hsent
    subst hsame
    refine ⟨hprepared, fun earlier hindex ↦ ?_⟩
    have hne : earlier ≠ step := by
      rintro rfl
      omega
    have haround := around_dispatch (hprogress.waiting hphase).2 hprepared hearlier
    have hsuccess := haround.before earlier hindex
    simp only [moved_other record hne] at hsuccess
    exact ⟨hsuccess, moved_other record hne _ _⟩
  | succeeded => exact absurd (moved_sent (by decide) hsent) hbefore
  | close => exact absurd hsent hbefore
  | abort => exact absurd (dropPrepared_sent hsent) hbefore
  | _ => exact absurd (moved_sent (by decide) (dropPrepared_sent hsent)) hbefore

end CaptureRecord

/-- Along every run each step is sent at most once, in the order of the steps, and only after every
earlier step succeeded. -/
theorem capture_sends_once {receipt : CaptureReceipt}
    {run : List ((CaptureUpdate × String) × CaptureReceipt)}
    (hrun : captureMachine.Run receipt run) :
    (∀ step, Machine.entries (CaptureReceipt.Sent step) receipt run ≤ 1) ∧
      (∀ step before label next after, run = before ++ (label, next) :: after →
        ¬ (Machine.last receipt before).Sent step → next.Sent step →
          ∀ earlier : CaptureStep, earlier.index < step.index →
            ((Machine.last receipt before).1.steps earlier).success = true) ∧
      ∀ step later before label next between label' next' after,
        run = before ++ (label, next) :: (between ++ (label', next') :: after) →
        ¬ (Machine.last receipt before).Sent step → next.Sent step →
        ¬ (Machine.last next between).Sent later → next'.Sent later →
          step.index < later.index := by
  have hhistory (receipt : CaptureReceipt) (utc : String) :
      (receipt.stamped utc).historyValid = true :=
    (CaptureRecord.valid_iff.mp receipt.2).2.2.2.2.2
  refine ⟨fun step ↦ ?_, ?_, ?_⟩
  · refine Machine.entries_le_one _ (fun receipt ↦ (receipt.1.steps step).phase = .prepared)
      (fun s e t hstep hprepared ↦ ?_) (fun s e t hstep hbefore hsent ↦ ?_) hrun
    · exact (CaptureReceipt.updated_eq_ok.mp hstep).step_prepared hprepared
    · have hsent' : (t.1.steps step).phase = .dispatching := hsent
      have hrow := CaptureReceipt.updated_eq_ok.mp hstep
      exact ⟨(hrow.step_sent (hhistory s e.2) hbefore hsent).1, by simp [hsent']⟩
  · intro step before label next after hsplit hbefore hsent earlier hindex
    have hrow := CaptureReceipt.updated_eq_ok.mp (hrun.split hsplit).2.1
    exact ((hrow.step_sent (hhistory _ _) hbefore hsent).2 earlier hindex).1
  · intro step later before label next between label' next' after hsplit hbefore hsent hbefore'
      hsent'
    obtain ⟨-, hstep, hrest⟩ := hrun.split hsplit
    have hrow := CaptureReceipt.updated_eq_ok.mp hstep
    obtain ⟨-, hearlier⟩ := hrow.step_sent (hhistory _ _) hbefore hsent
    by_contra hindex
    have hgone : (next.1.steps later).phase ≠ .prepared := by
      rcases Nat.lt_or_eq_of_le (Nat.not_lt.mp hindex) with hlt | heq
      · obtain ⟨hsuccess, hkept⟩ := hearlier later hlt
        rw [hkept]
        intro hprepared
        simp [CaptureStepRecord.success, hprepared] at hsuccess
      · rw [CaptureStep.index_inj.mp heq, hsent]
        decide
    obtain ⟨hbetween, hstep', -⟩ := hrest.split rfl
    have hgone' : ((Machine.last next between).1.steps later).phase ≠ .prepared := by
      refine Machine.Run.keeps (fun receipt ↦ (receipt.1.steps later).phase ≠ .prepared)
        (fun s e t hnot hstep hprepared ↦ hnot ?_) hbetween hgone
      exact (CaptureReceipt.updated_eq_ok.mp hstep).step_prepared hprepared
    have hrow' := CaptureReceipt.updated_eq_ok.mp hstep'
    exact hgone' (hrow'.step_sent (hhistory _ _) hbefore' hsent').1

/-! ### Final phases -/

/-- The phases an Apply Scene receipt never leaves. -/
def ApplyPhase.final : ApplyPhase → Bool
  | .closed | .aborted | .unknown => true
  | _ => false

/-- The phases a Capture Window receipt never leaves. -/
def CapturePhase.final : CapturePhase → Bool
  | .closed | .aborted | .unknown => true
  | _ => false

theorem ApplyReceipt.updated_final {receipt : ApplyReceipt} (hfinal : receipt.1.phase.final = true)
    (update : ApplyUpdate) (utc : String) : receipt.updated update utc = .error .conflict := by
  have htransition : (receipt.stamped utc).transition update = .error .conflict := by
    have hphase : (receipt.stamped utc).phase = receipt.1.phase := rfl
    cases hfound : receipt.1.phase <;> simp [hfound, ApplyPhase.final] at hfinal <;>
      cases update <;> simp [ApplyRecord.transition, hphase, hfound]
  simp [ApplyReceipt.updated, htransition]

theorem CaptureReceipt.updated_final {receipt : CaptureReceipt}
    (hfinal : receipt.1.phase.final = true) (update : CaptureUpdate) (utc : String) :
    receipt.updated update utc = .error .conflict := by
  have htransition : (receipt.stamped utc).transition update = .error .conflict := by
    have hphase : (receipt.stamped utc).phase = receipt.1.phase := rfl
    cases hfound : receipt.1.phase <;> simp [hfound, CapturePhase.final] at hfinal <;>
      cases update <;> simp [CaptureRecord.transition, hphase, hfound]
  simp [CaptureReceipt.updated, htransition]

namespace StoredReceipt

/-- The receipt is in a phase its version never leaves. Version 1 receipts have none. -/
def final : StoredReceipt → Bool
  | .v1 _ => false
  | .generic receipt => receipt.1.phase.final
  | .restore receipt => receipt.1.phase.final
  | .apply receipt => receipt.1.phase.final
  | .capture receipt => receipt.1.phase.final

/-- No part of the receipt is being sent or unknown. -/
def Settled : StoredReceipt → Prop
  | .v1 receipt => receipt.1.phase ≠ .dispatching ∧ receipt.1.phase ≠ .unknown
  | .generic receipt => receipt.1.phase ≠ .dispatching ∧ receipt.1.phase ≠ .unknown
  | .restore receipt => receipt.1.phase ≠ .dispatching ∧ receipt.1.phase ≠ .unknown
  | .apply receipt =>
    ∀ stage ∈ receipt.1.creations :: receipt.1.changes.toList,
      stage.phase ≠ .dispatching ∧ stage.phase ≠ .unknown
  | .capture receipt =>
    ∀ step, (receipt.1.steps step).phase ≠ .dispatching ∧ (receipt.1.steps step).phase ≠ .unknown

end StoredReceipt

variable {stored : StoredReceipt}

/-- The directory stays as it is when the stored receipt of an identifier admits no update, and
without a fault of the file system the answer is `Conflict`. -/
theorem publishUpdate_refused {ρ : Type} {store : BackendStore} (wrap : ρ → StoredReceipt)
    (receipt : ρ) {updated : Except StoreError ρ}
    (hstored : store.file stored.id = some ⟨stored.id, some stored⟩)
    (hid : (wrap receipt).id = stored.id)
    (hfinal : wrap receipt = stored → updated = .error .conflict) (read : Option IoError)
    (publish : Publish) :
    (store.publishUpdate wrap receipt updated read publish).2 = store ∧
      (read = none → (wrap receipt).endpoint = store.endpointHash →
        (store.publishUpdate wrap receipt updated read publish).1 = .error .conflict) := by
  unfold BackendStore.publishUpdate
  by_cases hendpoint : ((wrap receipt).endpoint != store.endpointHash) = true
  · have hne : (wrap receipt).endpoint ≠ store.endpointHash := by simpa using hendpoint
    simp [hendpoint, hne]
  · cases read with
    | some error => simp [hendpoint, BackendStore.readStored]
    | none =>
      have hread : store.readStored (wrap receipt).id none = .ok stored := by
        simp [BackendStore.readStored, hid, hstored]
      by_cases hsame : wrap receipt = stored
      · have hfresh : (stored != wrap receipt) = false := by simp [hsame]
        simp [hendpoint, hread, hfresh, hfinal hsame]
      · have hstale : (stored != wrap receipt) = true := by simpa using Ne.symm hsame
        simp [hendpoint, hread, hstale]

/-- A closed or aborted Apply Scene receipt has no stage that is being sent or unknown. -/
theorem apply_settled {receipt : ApplyReceipt} (hblocking : receipt.blocking = false) :
    (StoredReceipt.apply receipt).Settled := by
  obtain ⟨-, -, hlayout⟩ :=
    ApplyRecord.historyValid_iff.mp (ApplyRecord.valid_iff.mp receipt.2).2.2.2.2.2
  have hdone (h : receipt.1.successfulCreations = true) :
      receipt.1.creations.phase ≠ .dispatching ∧ receipt.1.creations.phase ≠ .unknown := by
    simp only [ApplyRecord.successfulCreations, Bool.or_eq_true, Bool.and_eq_true, beq_iff_eq] at h
    rcases h with h | ⟨h, -⟩ <;> simp [h]
  unfold ApplyRecord.layout at hlayout
  intro stage hstage
  rw [List.mem_cons, mem_toList] at hstage
  cases hphase : receipt.1.phase with
  | closed =>
    simp only [hphase, Bool.and_eq_true] at hlayout
    rcases hstage with rfl | hsome
    · exact hdone hlayout.1
    · have hover := hlayout.2
      simp only [hsome, any_some, Bool.or_eq_true, beq_iff_eq] at hover
      rcases hover with h | h <;> simp [h]
  | aborted =>
    simp only [hphase] at hlayout
    cases hchanges : receipt.1.changes with
    | none =>
      simp only [hchanges, Bool.or_eq_true, beq_iff_eq] at hlayout
      rcases hstage with rfl | hsome
      · rcases hlayout with (h | h) | h <;> simp [h]
      · simp [hchanges] at hsome
    | some changes =>
      simp only [hchanges, Bool.and_eq_true, beq_iff_eq] at hlayout
      rcases hstage with rfl | hsome
      · exact hdone hlayout.1
      · obtain rfl : changes = stage := by simpa [hchanges] using hsome
        simp [hlayout.2]
  | _ => simp [ApplyReceipt.blocking, hphase] at hblocking

/-- A closed or aborted Capture Window receipt has no step that is being sent or unknown. -/
theorem capture_settled {receipt : CaptureReceipt} (hblocking : receipt.blocking = false) :
    (StoredReceipt.capture receipt).Settled := by
  obtain ⟨-, -, hprogress⟩ :=
    CaptureRecord.historyValid_iff.mp (CaptureRecord.valid_iff.mp receipt.2).2.2.2.2.2
  have hdone {step : CaptureStep} (h : (receipt.1.steps step).success = true) :
      (receipt.1.steps step).phase ≠ .dispatching ∧ (receipt.1.steps step).phase ≠ .unknown := by
    simp only [CaptureStepRecord.success, Bool.or_eq_true, Bool.and_eq_true, beq_iff_eq] at h
    rcases h with h | ⟨h, -⟩ <;> simp [h]
  have hdropped {step : CaptureStep} (h : receipt.1.InPhase .notDispatched step) :
      (receipt.1.steps step).phase ≠ .dispatching ∧ (receipt.1.steps step).phase ≠ .unknown := by
    rcases h with h | h <;> simp [h]
  unfold CaptureRecord.Progress at hprogress
  intro step
  cases hphase : receipt.1.phase with
  | closed =>
    simp only [hphase] at hprogress
    exact hdone (hprogress.2 step)
  | aborted =>
    simp only [hphase] at hprogress
    obtain ⟨-, cut, hupTo⟩ := hprogress
    rcases Nat.lt_trichotomy step.index cut with hindex | hindex | hindex
    · exact hdone (hupTo.before step hindex)
    · rcases hupTo.here step hindex with h | h
      · exact hdropped h
      · simp [h]
    · exact hdropped (hupTo.after step hindex)
  | _ => simp [CaptureReceipt.blocking, hphase] at hblocking

/-- A receipt that is final and does not block has no part that is being sent or unknown. -/
theorem StoredReceipt.settled_of_final (hfinal : stored.final = true)
    (hblocking : stored.blocking = false) : stored.Settled := by
  cases stored with
  | v1 receipt => simp [StoredReceipt.final] at hfinal
  | generic receipt =>
    simp only [StoredReceipt.blocking, GenericReceipt.blocking] at hblocking
    simp only [StoredReceipt.Settled]
    constructor <;> intro hphase <;> simp [hphase] at hblocking
  | restore receipt =>
    simp only [StoredReceipt.blocking, RestoreReceipt.blocking] at hblocking
    simp only [StoredReceipt.Settled]
    constructor <;> intro hphase <;> simp [hphase] at hblocking
  | apply receipt => exact apply_settled hblocking
  | capture receipt => exact capture_settled hblocking

/-- No replay and no skipped stage, along every run of updates from any receipt: the stages of an
Apply Scene receipt and the steps of a Capture Window receipt are each sent at most once, in order
and only after what comes before succeeded. A final receipt stays as it is in the store, and every
further update of it is answered with `Conflict`. A final receipt that does not block has no part
that is being sent or unknown. -/
theorem workflow_no_replay :
    (∀ (receipt : ApplyReceipt) (run : List ((ApplyUpdate × String) × ApplyReceipt)),
      applyMachine.Run receipt run →
        Machine.entries ApplyReceipt.CreationsSent receipt run ≤ 1 ∧
        Machine.entries ApplyReceipt.ChangesSent receipt run ≤ 1 ∧
        ∀ before label next after, run = before ++ (label, next) :: after →
          ¬ (Machine.last receipt before).ChangesSent → next.ChangesSent →
            (Machine.last receipt before).1.successfulCreations = true) ∧
    (∀ (receipt : CaptureReceipt) (run : List ((CaptureUpdate × String) × CaptureReceipt)),
      captureMachine.Run receipt run →
        (∀ step, Machine.entries (CaptureReceipt.Sent step) receipt run ≤ 1) ∧
        (∀ step before label next after, run = before ++ (label, next) :: after →
          ¬ (Machine.last receipt before).Sent step → next.Sent step →
            ∀ earlier : CaptureStep, earlier.index < step.index →
              ((Machine.last receipt before).1.steps earlier).success = true) ∧
        ∀ step later before label next between label' next' after,
          run = before ++ (label, next) :: (between ++ (label', next') :: after) →
          ¬ (Machine.last receipt before).Sent step → next.Sent step →
          ¬ (Machine.last next between).Sent later → next'.Sent later →
            step.index < later.index) ∧
    (∀ (store : BackendStore) (stored : StoredReceipt) (utc : String) (read : Option IoError)
      (publish : Publish), store.file stored.id = some ⟨stored.id, some stored⟩ →
      stored.final = true →
        (∀ (receipt : GenericReceipt) (phase : GenericPhase),
          receipt.1.operationId = stored.id →
            (store.updateGeneric receipt phase utc read publish).2 = store ∧
            (read = none → receipt.1.endpointHash = store.endpointHash →
              (store.updateGeneric receipt phase utc read publish).1 = .error .conflict)) ∧
        (∀ (receipt : RestoreReceipt) (phase : RestorePhase) (counts : Option RestoreCounts),
          receipt.1.operationId = stored.id →
            (store.updateRestore receipt phase counts utc read publish).2 = store ∧
            (read = none → receipt.1.endpointHash = store.endpointHash →
              (store.updateRestore receipt phase counts utc read publish).1 = .error .conflict)) ∧
        (∀ (receipt : ApplyReceipt) (update : ApplyUpdate), receipt.1.operationId = stored.id →
          (store.updateApply receipt update utc read publish).2 = store ∧
          (read = none → receipt.1.endpointHash = store.endpointHash →
            (store.updateApply receipt update utc read publish).1 = .error .conflict)) ∧
        ∀ (receipt : CaptureReceipt) (update : CaptureUpdate),
          receipt.1.operationId = stored.id →
            (store.updateCapture receipt update utc read publish).2 = store ∧
            (read = none → receipt.1.endpointHash = store.endpointHash →
              (store.updateCapture receipt update utc read publish).1 = .error .conflict)) ∧
    ∀ stored : StoredReceipt, stored.final = true → stored.blocking = false → stored.Settled := by
  refine ⟨fun receipt run hrun ↦ apply_sends_once hrun,
    fun receipt run hrun ↦ capture_sends_once hrun, ?_,
    fun stored hfinal hblocking ↦ StoredReceipt.settled_of_final hfinal hblocking⟩
  intro store stored utc read publish hstored hfinal
  refine ⟨fun receipt phase hid ↦ ?_, fun receipt phase counts hid ↦ ?_,
    fun receipt update hid ↦ ?_, fun receipt update hid ↦ ?_⟩
  · refine publishUpdate_refused .generic receipt hstored hid (fun hsame ↦ ?_) read publish
    subst hsame
    exact GenericReceipt.updated_final hfinal phase utc
  · refine publishUpdate_refused .restore receipt hstored hid (fun hsame ↦ ?_) read publish
    subst hsame
    exact RestoreReceipt.updated_final hfinal phase counts utc
  · refine publishUpdate_refused .apply receipt hstored hid (fun hsame ↦ ?_) read publish
    subst hsame
    exact ApplyReceipt.updated_final hfinal update utc
  · refine publishUpdate_refused .capture receipt hstored hid (fun hsame ↦ ?_) read publish
    subst hsame
    exact CaptureReceipt.updated_final hfinal update utc

end ObsMcp.Receipts
