import ObsMcp.Preparation.Journal

/-!
# The requests of a preparation

A request may have reached OBS once its `possibleDispatch` is written down, and the record is
uncertain from then on until the answer is written down too. `one_request_at_a_time` states of whole
runs that a request is written down only while no other is open, and that after a lost answer no
request is written down any more and the record is never completed.

The law that `validate` re-derives does not exclude two open requests: a recovery may be observed
while the preparation of a later field is open. `Calm` is what the operations keep beside it.
-/

namespace ObsMcp.Preparation

open Foundations List Option

namespace FieldProvenance

/-- The answer to a request for the field was lost. -/
def Lost (field : FieldProvenance) : Prop :=
  field.lastPreparation = some .unknown ∨ field.lastRecovery = some .unknown

theorem Lost.isUncertain {field : FieldProvenance} (hlost : field.Lost) :
    field.isUncertain = true := by
  rcases hlost with hlost | hlost <;> simp [FieldProvenance.isUncertain, hlost, Step.unsettled]

end FieldProvenance

namespace Provenance

open FieldProvenance

variable {digests : Digests} {endpoint : String} {subject : Json} {count : ℕ}
  {record after : Provenance} {operation : Operation} {before later : List FieldProvenance}
  {field next : FieldProvenance}

def Lost (record : Provenance) : Prop := ∃ field ∈ record.fields, field.Lost

/-- While a preparation is open, recoveries were only observed. -/
def Calm (record : Provenance) : Prop :=
  (∃ field ∈ record.fields, field.lastPreparation.any Step.unsettled = true) →
    ∀ field ∈ record.fields, field.lastRecovery.all (· == .observedBefore) = true

/-! ### One step -/

theorem mem_replaced {other : FieldProvenance} (hother : other ∈ before ++ next :: later) :
    other = next ∨ other ∈ before ++ field :: later := by
  simp only [mem_append, mem_cons] at hother ⊢
  tauto

theorem calm_of_idle (hidle : ∀ other ∈ record.fields, other.recovery = []) : record.Calm := by
  intro _ other hother
  simp [lastRecovery, hidle other hother]

theorem Extends.calm (hextends : Extends record after) (hcalm : record.Calm)
    (hcertain : opensRecovery record after = true →
      record.fields.any isUncertain = false) : after.Calm := by
  cases hextends with
  | complete hopen hrevision hfinished => exact hcalm
  | @field before later field next hopen hrevision hfields hchange =>
    rw [opensRecovery_split hfields rfl] at hcertain
    have hfield : field ∈ record.fields := by simp [hfields]
    have hback (hsame : next.lastPreparation = field.lastPreparation) :
        (∃ other ∈ before ++ next :: later, other.lastPreparation.any Step.unsettled = true) →
          ∃ other ∈ record.fields, other.lastPreparation.any Step.unsettled = true := by
      rintro ⟨other, hother, hopen⟩
      rcases mem_replaced hother with rfl | hother
      · exact ⟨field, hfield, by rwa [← hsame]⟩
      · exact ⟨other, hfields ▸ hother, hopen⟩
    have hidles (hidle : ∀ other ∈ before ++ field :: later, other.recovery = [])
        (hsame : next.recovery = field.recovery) :
        ∀ other ∈ before ++ next :: later, other.recovery = [] := by
      intro other hother
      rcases mem_replaced hother with rfl | hother
      · rw [hsame, hidle field (by simp)]
      · exact hidle other hother
    cases hchange with
    | prepare hfence hidle hbefore hfresh => exact calm_of_idle (hidles hidle rfl)
    | advancePreparation hidle hattempt hlast hfollows => exact calm_of_idle (hidles hidle rfl)
    | recover hfence hbefore howned hlimit hretry =>
      intro hunsettled
      obtain ⟨other, hother, hunsettled⟩ := hback rfl hunsettled
      have hnone := any_eq_false.mp
        (hcertain (by simp [pushRecovery, lastRecovery]))
      exact absurd (by simp [isUncertain, hunsettled]) (hnone other hother)
    | advanceRecovery hattempt hlast hfollows =>
      intro hunsettled
      have hobserved := hcalm (hback rfl hunsettled) field hfield
      simp only [lastRecovery, hattempt, getLast?_concat, bind_some,
        hlast, all_some, beq_iff_eq] at hobserved
      subst hobserved
      cases hfollows
    | observe hfence hbefore hsettled hlimit hretry =>
      intro hunsettled other hother
      rcases mem_replaced hother with rfl | hother
      · simp
      · exact hcalm (hback rfl hunsettled) other (hfields ▸ hother)

/-- A lost answer stays lost. -/
theorem Change.lost (hchange : Change before later field next) (hlost : field.Lost)
    (hcertain : field.recovery.length < next.recovery.length →
      next.lastRecovery = some .intent → field.isUncertain = false) : next.Lost := by
  cases hchange with
  | prepare hfence hidle hbefore hfresh =>
    simp [FieldProvenance.Lost, lastPreparation, lastRecovery, hfresh, hidle field] at hlost
  | advancePreparation hidle hattempt hlast hfollows =>
    simp only [FieldProvenance.Lost, lastPreparation, lastRecovery, hattempt, hidle field (by simp),
      bind_some, hlast, getLast?_nil, bind_none, reduceCtorEq, or_false,
      Option.some.injEq] at hlost
    subst hlost
    cases hfollows
  | recover hfence hbefore howned hlimit hretry =>
    have hnot := hcertain (by simp [pushRecovery]) (by simp)
    exact absurd (hnot.symm.trans hlost.isUncertain) Bool.false_ne_true
  | advanceRecovery hattempt hlast hfollows =>
    refine .inl (hlost.resolve_right fun hunknown ↦ ?_)
    simp only [lastRecovery, hattempt, getLast?_concat, bind_some,
      hlast, Option.some.injEq] at hunknown
    subst hunknown
    cases hfollows
  | observe hfence hbefore hsettled hlimit hretry =>
    refine .inl (hlost.resolve_right fun hunknown ↦ ?_)
    simp [hunknown, Step.retryable] at hretry

/-! ### Whole records -/

section

variable (hrecord : (journal digests endpoint subject count).Reachable record)
include hrecord

theorem reachable_calm : record.WellFormed ∧ record.Calm := by
  refine ⟨(reachable_wellFormed hrecord).2, ?_⟩
  refine Machine.invariant_of_step (m := journal digests endpoint subject count) Calm ?_ ?_ hrecord
  · rintro record rfl
    exact calm_of_idle fun field hfield ↦ by rw [eq_of_mem_replicate hfield]
  · rintro record operation after hreachable hcalm rfl
    cases hcall : operation.call record with
    | ok u next =>
      obtain ⟨hextends, hcertain⟩ :=
        extends_of_call (reachable_wellFormed hreachable).2.written hcall
      exact hextends.calm hcalm hcertain
    | error fault next =>
      obtain rfl := eq_of_call_error hcall
      exact hcalm

/-- A request is written down on a record that is certain. -/
theorem certain_of_send {index : ℕ} {recovery : Bool}
    (hcall : advance index recovery .possibleDispatch record = .ok () after) :
    record.uncertain = .ok false := by
  obtain ⟨hwellFormed, hcalm⟩ := reachable_calm hrecord
  obtain ⟨hidle, field, attempt, last, hfield, hattempt, hlast, hfollows⟩ :=
    advanceGuard_eq_ok_iff.mp (checked_eq_ok_iff.mp hcall).1
  have hintent : last = .intent := by cases last <;> first | rfl | cases hfollows
  obtain ⟨before, later, hfields, -, -⟩ := exists_split hfield
  obtain ⟨-, htail, hbefore⟩ := pairwise_append.mp (hfields ▸ hwellFormed.ordered)
  obtain ⟨hlater, -⟩ := pairwise_cons.mp htail
  have hmem {motive : FieldProvenance → Prop} (hearly : ∀ other ∈ before, motive other)
      (hhere : motive field) (hlate : ∀ other ∈ later, motive other) :
      ∀ other ∈ record.fields, motive other := by
    rw [hfields]
    exact forall_mem_append.mpr ⟨hearly, forall_mem_cons.mpr ⟨hhere, hlate⟩⟩
  suffices hsettled : ∀ other ∈ record.fields, other.lastPreparation.any Step.unsettled = false ∧
      other.lastRecovery.any Step.unsettled = false by
    rw [uncertain_eq hwellFormed.written, any_eq_false.mpr fun other hother ↦ ?_]
    simp [isUncertain, hsettled other hother]
  cases recovery with
  | false =>
    have hpreparation : field.preparation = some attempt := by simpa using hattempt
    have hstatus : field.lastPreparation = some .intent := by
      simp [lastPreparation, hpreparation, hlast, hintent]
    suffices hprepared : ∀ other ∈ record.fields,
        other.lastPreparation.any Step.unsettled = false from fun other hother ↦
      ⟨hprepared other hother, by simp [lastRecovery, hidle rfl other hother]⟩
    refine hmem (fun other hother ↦ ?_) (by rw [hstatus]; rfl) fun other hother ↦ ?_
    · rw [lastPreparation_eq_accepted
        ((hbefore other hother field (by simp)).1 (by simp [hpreparation]))]
      rfl
    · have hnone : other.preparation = none := by
        by_contra hne
        have haccepted := lastPreparation_eq_accepted ((hlater other hother).1 hne)
        rw [hstatus] at haccepted
        cases haccepted
      simp [lastPreparation, hnone]
  | true =>
    have hattempt : field.recovery.getLast? = some attempt := by simpa using hattempt
    have hstatus : field.lastRecovery = some .intent := by
      simp [lastRecovery, hattempt, hlast, hintent]
    have hnot : field.isRestored = false := by rw [isRestored, hstatus]; rfl
    refine fun other hother ↦ ⟨?_, ?_⟩
    · by_contra hopen
      have hobserved := hcalm ⟨other, hother, by simpa using hopen⟩ field
        (mem_of_getElem? hfield)
      rw [hstatus] at hobserved
      cases hobserved
    · revert other
      refine hmem (fun other hother ↦ ?_) (by rw [hstatus]; rfl) fun other hother ↦ ?_
      · have hrestored := (hbefore other hother field (by simp)).2 fun hnil ↦ by
          simp [lastRecovery, hnil] at hstatus
        unfold isRestored at hrestored
        cases hlast : other.lastRecovery with
        | none => rfl
        | some last =>
          rw [hlast] at hrestored
          cases last <;> first | rfl | cases hrestored
      · have hnil : other.recovery = [] := by
          by_contra hne
          exact absurd (hnot.symm.trans ((hlater other hother).2 hne)) Bool.false_ne_true
        simp [lastRecovery, hnil]

/-- A call after a lost answer leaves it lost. -/
theorem lost_of_call (hlost : record.Lost) (hcall : operation.call record = .ok () after) :
    after.Lost := by
  obtain ⟨hextends, hcertain⟩ :=
    extends_of_call (reachable_wellFormed hrecord).2.written hcall
  obtain ⟨lost, hmem, hlost⟩ := hlost
  cases hextends with
  | complete hopen hrevision hfinished => exact ⟨lost, hmem, hlost⟩
  | @field before later field next hopen hrevision hfields hchange =>
    rw [opensRecovery_split hfields rfl] at hcertain
    rcases mem_replaced (hfields ▸ hmem) with rfl | hother
    · refine ⟨next, by simp, hchange.lost hlost fun hlonger hintent ↦ ?_⟩
      simpa using any_eq_false.mp (hcertain (by simp [hlonger, hintent])) lost hmem
    · exact ⟨lost, hother, hlost⟩

end

/-- Over whole runs of the journal: a request is written down on a record that is certain; and when
an answer is lost, all records from then on are uncertain, so that no request is written down any
more, and none of them is completed. -/
theorem one_request_at_a_time (digests : Digests) (endpoint : String) (subject : Json) (count : ℕ) :
    (∀ record, (journal digests endpoint subject count).Reachable record →
      ∀ (index : ℕ) (recovery : Bool) (after : Provenance),
        advance index recovery .possibleDispatch record = .ok () after →
          record.uncertain = .ok false) ∧
    ∀ record, (journal digests endpoint subject count).Reachable record → record.Lost →
      ∀ run, (journal digests endpoint subject count).Run record run →
        (Machine.last record run).uncertain = .ok true ∧
          (Machine.last record run).completed = false := by
  refine ⟨fun record hrecord index recovery after ↦ certain_of_send hrecord, ?_⟩
  intro record hrecord hlost run hrun
  have hkeeps : ∀ before operation after,
      (journal digests endpoint subject count).Reachable before ∧ before.Lost →
      (journal digests endpoint subject count).step before operation after →
      (journal digests endpoint subject count).Reachable after ∧ after.Lost := by
    rintro before operation after ⟨hreachable, hbefore⟩ hstep
    refine ⟨hreachable.step hstep, ?_⟩
    obtain rfl : after = left (operation.call before) := hstep
    cases hcall : operation.call before with
    | ok u next => exact lost_of_call hreachable hbefore hcall
    | error fault next => exact eq_of_call_error hcall ▸ hbefore
  obtain ⟨hreachable, field, hfield, hlast⟩ := hrun.keeps _ hkeeps ⟨hrecord, hlost⟩
  have hwellFormed := (reachable_wellFormed hreachable).2
  constructor
  · rw [uncertain_eq hwellFormed.written, any_eq_true.mpr ⟨field, hfield, hlast.isUncertain⟩]
  · by_contra hcompleted
    have hcertain := (hwellFormed.finished (by simpa using hcompleted) field hfield).2
    exact absurd (hcertain.symm.trans hlast.isUncertain) Bool.false_ne_true

end Provenance

end ObsMcp.Preparation
