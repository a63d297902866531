import ObsMcp.Preparation.Operations

/-!
# Legal steps keep the law of the journal

A legal step of a well-formed record leads to a well-formed record (`Extends.wellFormed`). The
argument is about the one field that changes: its step lists stay legal, an accepted preparation
and a restored field stay so, which keeps what the fields after it rely on, and exactly one step is
added.
-/

namespace ObsMcp.Preparation

open Foundations Provenance List Option

/-! ### Attempts -/

namespace Attempt

variable {attempt : Attempt} {recovery : Bool} {steps : List Step} {last next : Step}

@[simp] theorem push_steps : (attempt.push next).steps = attempt.steps ++ [next] := rfl

/-- The step lists of an attempt to write a value. -/
theorem stepsValid_iff :
    stepsValid steps = true ↔ steps = [.intent] ∨ steps = [.intent, .possibleDispatch] ∨
      steps = [.intent, .notDispatched] ∨ steps = [.intent, .possibleDispatch, .accepted] ∨
      steps = [.intent, .possibleDispatch, .notDispatched] ∨
      steps = [.intent, .possibleDispatch, .rejected] ∨
      steps = [.intent, .possibleDispatch, .unknown] := by
  constructor
  · intro hsteps
    unfold stepsValid at hsteps
    split at hsteps <;> simp_all
  · rintro (rfl | rfl | rfl | rfl | rfl | rfl | rfl) <;> rfl

theorem stepsValid_push (hsteps : stepsValid steps = true) (hlast : steps.getLast? = some last)
    (hfollows : follows last next = true) : stepsValid (steps ++ [next]) = true := by
  rcases stepsValid_iff.mp hsteps with rfl | rfl | rfl | rfl | rfl | rfl | rfl <;>
    obtain rfl := some.inj hlast <;> cases next <;> first | rfl | cases hfollows

theorem follows_of_stepsValid_push (hsteps : stepsValid (steps ++ [next]) = true)
    (hlast : steps.getLast? = some last) : follows last next = true := by
  have hinit : ∀ {init : List Step} {final : Step}, steps ++ [next] = init ++ [final] →
      steps = init ∧ next = final := by
    intro init final hsame
    simpa using append_inj' hsame rfl
  have hfinal : ∀ {init : List Step} {final : Step}, steps ++ [next] = init ++ [final] →
      (init.getLast?.all fun last ↦ follows last final) = true → follows last next = true := by
    intro init final hsame hall
    obtain ⟨rfl, rfl⟩ := hinit hsame
    simpa [hlast] using hall
  rcases stepsValid_iff.mp hsteps with h | h | h | h | h | h | h
  · obtain ⟨rfl, -⟩ := @hinit [] _ h
    cases hlast
  · exact @hfinal [.intent] _ h rfl
  · exact @hfinal [.intent] _ h rfl
  · exact @hfinal [.intent, .possibleDispatch] _ h rfl
  · exact @hfinal [.intent, .possibleDispatch] _ h rfl
  · exact @hfinal [.intent, .possibleDispatch] _ h rfl
  · exact @hfinal [.intent, .possibleDispatch] _ h rfl

/-- The valid attempts. -/
theorem valid_iff : attempt.valid recovery = true ↔ attempt.fence.valid = true ∧
    (stepsValid attempt.steps = true ∨ (recovery = true ∧ attempt.steps = [.observedBefore])) := by
  simp [valid]

theorem valid_push (hvalid : attempt.valid recovery = true)
    (hlast : attempt.steps.getLast? = some last) (hfollows : follows last next = true) :
    (attempt.push next).valid recovery = true := by
  obtain ⟨hfence, hsteps | ⟨-, hsteps⟩⟩ := valid_iff.mp hvalid
  · exact valid_iff.mpr ⟨hfence, .inl (stepsValid_push hsteps hlast hfollows)⟩
  · rw [hsteps] at hlast
    cases hlast
    cases hfollows

end Attempt

/-! ### The field that changes -/

namespace Provenance

open FieldProvenance

variable {record after : Provenance} {before later : List FieldProvenance}
  {field next : FieldProvenance}

@[simp] theorem lastRecovery_pushRecovery (attempt : Attempt) :
    (field.pushRecovery attempt).lastRecovery = attempt.steps.getLast? := by
  simp [pushRecovery, lastRecovery]

@[simp] theorem lastPreparation_pushRecovery (attempt : Attempt) :
    (field.pushRecovery attempt).lastPreparation = field.lastPreparation := rfl

@[simp] theorem owned_pushRecovery (attempt : Attempt) :
    (field.pushRecovery attempt).owned = field.owned := rfl

/-- Once the last attempt may be tried again, every attempt was. -/
theorem retryable_of_mem (hfield : field.WellFormed)
    (hretry : field.lastRecovery.all Step.retryable = true) {attempt : Attempt}
    (hattempt : attempt ∈ field.recovery) : attempt.steps.getLast?.any Step.retryable = true := by
  rcases eq_nil_or_concat' field.recovery with hnil | ⟨earlier, last, hsplit⟩
  · rw [hnil] at hattempt
    cases hattempt
  · rw [hsplit, mem_append, mem_singleton] at hattempt
    rcases hattempt with hearlier | rfl
    · exact hfield.retried attempt (by simpa [hsplit] using hearlier)
    · have hwritten := hfield.written.2 attempt (by simp [hsplit])
      obtain ⟨step, hstep⟩ :=
        isSome_iff_exists.mp (getLast?_isSome.mpr hwritten)
      simpa [lastRecovery, hsplit, hstep] using hretry

/-- A field that is to be recovered stays well formed with one more attempt. -/
theorem wellFormed_pushRecovery {attempt : Attempt} (hfield : field.WellFormed)
    (hvalid : attempt.valid true = true) (hlimit : field.recovery.length < maxRecoveryAttempts)
    (hretry : field.lastRecovery.all Step.retryable = true)
    (hsettled : field.lastPreparation.any Step.unsettled = false)
    (hobserved : field.owned = false → attempt.steps = [.observedBefore]) :
    (field.pushRecovery attempt).WellFormed where
  preparation := hfield.preparation
  recovery := by
    intro other hother
    rcases mem_append.mp hother with hother | hother
    · exact hfield.recovery other hother
    · rwa [mem_singleton.mp hother]
  recovery_le := by
    simp only [pushRecovery, length_append, length_singleton]
    exact hlimit
  retried := by
    intro other hother
    simp only [pushRecovery, dropLast_concat] at hother
    exact retryable_of_mem hfield hretry hother
  settled := by
    intro hunsettled
    rw [lastPreparation_pushRecovery, hsettled] at hunsettled
    cases hunsettled
  observed := by
    intro hnotOwned other hother
    rcases mem_append.mp hother with hother | hother
    · exact hfield.observed hnotOwned other hother
    · rw [mem_singleton.mp hother]
      exact hobserved hnotOwned

theorem lastPreparation_eq_accepted (howned : field.owned = true) :
    field.lastPreparation = some .accepted := by
  simpa [owned] using howned

section

variable (hchange : Change before later field next)
include hchange

/-- The field that a legal step changes stays well formed. -/
theorem Change.wellFormed (hfield : field.WellFormed) : next.WellFormed := by
  cases hchange with
  | @prepare fence hfence hidle hbefore hfresh =>
    have hnil : field.recovery = [] := hidle field (by simp)
    refine ⟨?_, hfield.recovery, hfield.recovery_le, hfield.retried, fun _ ↦ hnil, ?_⟩
    · rintro attempt hattempt
      cases hattempt
      exact Attempt.valid_iff.mpr ⟨hfence, .inl rfl⟩
    · simp [hnil]
  | @advancePreparation attempt last step hidle hattempt hlast hfollows =>
    have hnil : field.recovery = [] := hidle field (by simp)
    refine ⟨?_, hfield.recovery, hfield.recovery_le, hfield.retried, fun _ ↦ hnil, ?_⟩
    · rintro pushed hpushed
      cases hpushed
      exact Attempt.valid_push (hfield.preparation attempt hattempt) hlast hfollows
    · simp [hnil]
  | @recover fence hfence hbefore howned hlimit hretry =>
    refine wellFormed_pushRecovery hfield (Attempt.valid_iff.mpr ⟨hfence, .inl rfl⟩) hlimit hretry
      ?_ ?_
    · rw [lastPreparation_eq_accepted howned]
      rfl
    · simp [howned]
  | @advanceRecovery earlier attempt last step hattempt hlast hfollows =>
    have hmem : attempt ∈ field.recovery := by simp [hattempt]
    refine ⟨hfield.preparation, ?_, ?_, ?_, ?_, ?_⟩
    · intro other hother
      rcases mem_append.mp hother with hother | hother
      · exact hfield.recovery other (by simp [hattempt, hother])
      · rw [mem_singleton.mp hother]
        exact Attempt.valid_push (hfield.recovery attempt hmem) hlast hfollows
    · simpa [hattempt] using hfield.recovery_le
    · simpa [hattempt] using hfield.retried
    · intro hunsettled
      rw [hfield.settled hunsettled] at hmem
      cases hmem
    · intro hnotOwned
      rw [hfield.observed hnotOwned attempt hmem] at hlast
      cases hlast
      cases hfollows
  | @observe fence hfence hbefore hsettled hlimit hretry =>
    exact wellFormed_pushRecovery hfield (Attempt.valid_iff.mpr ⟨hfence, .inr ⟨rfl, rfl⟩⟩) hlimit
      hretry hsettled fun _ ↦ rfl

/-- A legal step writes exactly one step down. -/
theorem Change.size : next.size = field.size + 1 := by
  cases hchange with
  | prepare hfence hidle hbefore hfresh => simp [FieldProvenance.size, hfresh, Nat.add_comm]
  | advancePreparation hidle hattempt hlast hfollows =>
    simp only [FieldProvenance.size, hattempt, toList_some, map_cons, map_nil,
      sum_cons, sum_nil, Attempt.push_steps, length_append, length_singleton]
    omega
  | recover hfence hbefore howned hlimit hretry =>
    simp [FieldProvenance.size, pushRecovery, Nat.add_assoc]
  | advanceRecovery hattempt hlast hfollows =>
    simp only [FieldProvenance.size, hattempt, map_append, map_cons, map_nil,
      sum_append, sum_cons, sum_nil, Attempt.push_steps, length_append,
      length_singleton]
    omega
  | observe hfence hbefore hsettled hlimit hretry =>
    simp [FieldProvenance.size, pushRecovery, Nat.add_assoc]

/-- An accepted preparation stays accepted. -/
theorem Change.owned (howned : field.owned = true) : next.owned = true := by
  have haccepted := lastPreparation_eq_accepted howned
  cases hchange with
  | prepare hfence hidle hbefore hfresh =>
    simp [lastPreparation, hfresh] at haccepted
  | advancePreparation hidle hattempt hlast hfollows =>
    simp only [lastPreparation, hattempt, bind_some, hlast,
      Option.some.injEq] at haccepted
    subst haccepted
    cases hfollows
  | recover hfence hbefore howned' hlimit hretry => exact howned
  | advanceRecovery hattempt hlast hfollows => exact howned
  | observe hfence hbefore hsettled hlimit hretry => exact howned

end

theorem not_restores_of_retryable (hretry : field.lastRecovery.all Step.retryable = true) :
    field.isRestored = false := by
  unfold isRestored
  cases hlast : field.lastRecovery with
  | none => rfl
  | some last =>
    rw [hlast] at hretry
    cases last <;> first | rfl | cases hretry

/-- A restored field stays restored. -/
theorem Change.isRestored (hchange : Change before later field next)
    (hrestored : field.isRestored = true) : next.isRestored = true := by
  cases hchange with
  | prepare hfence hidle hbefore hfresh => exact hrestored
  | advancePreparation hidle hattempt hlast hfollows => exact hrestored
  | recover hfence hbefore howned hlimit hretry =>
    rw [not_restores_of_retryable hretry] at hrestored
    cases hrestored
  | @advanceRecovery earlier attempt last step hattempt hlast hfollows =>
    simp only [isRestored, lastRecovery, hattempt,
      getLast?_concat, bind_some, hlast, any_some] at hrestored
    cases last <;> first | cases hfollows | cases hrestored
  | observe hfence hbefore hsettled hlimit hretry =>
    rw [not_restores_of_retryable hretry] at hrestored
    cases hrestored

/-- What the fields before rely on is kept. -/
theorem Change.inOrder_before (hchange : Change before later field next) {other : FieldProvenance}
    (hother : other ∈ before) (horder : InOrder other field) : InOrder other next := by
  cases hchange with
  | prepare hfence hidle hbefore hfresh => exact ⟨fun _ ↦ hbefore other hother, horder.2⟩
  | advancePreparation hidle hattempt hlast hfollows =>
    exact ⟨fun _ ↦ horder.1 (by simp [hattempt]), horder.2⟩
  | recover hfence hbefore howned hlimit hretry => exact ⟨horder.1, fun _ ↦ hbefore other hother⟩
  | advanceRecovery hattempt hlast hfollows =>
    exact ⟨horder.1, fun _ ↦ horder.2 (by simp [hattempt])⟩
  | observe hfence hbefore hsettled hlimit hretry =>
    exact ⟨horder.1, fun _ ↦ hbefore other hother⟩

/-- A legal step leads from a well-formed record to a well-formed record. -/
theorem Extends.wellFormed (hextends : Extends record after) (hrecord : record.WellFormed) :
    after.WellFormed := by
  cases hextends with
  | @field before later field next hopen hrevision hfields hchange =>
    have hmem : ∀ other ∈ before ++ field :: later, other.WellFormed := hfields ▸ hrecord.fields
    have hordered : (before ++ field :: later).Pairwise InOrder := hfields ▸ hrecord.ordered
    obtain ⟨hbefore, htail, hcross⟩ := pairwise_append.mp hordered
    obtain ⟨hlater, hrest⟩ := pairwise_cons.mp htail
    refine ⟨hrevision, ?_, ?_, ?_, ?_⟩
    · intro other hother
      rcases mem_append.mp hother with hother | hother
      · exact hmem other (by simp [hother])
      · rcases mem_cons.mp hother with rfl | hother
        · exact hchange.wellFormed (hmem field (by simp))
        · exact hmem other (by simp [hother])
    · refine pairwise_append.mpr ⟨hbefore, pairwise_cons.mpr ⟨?_, hrest⟩, ?_⟩
      · intro other hother
        exact ⟨fun hprepared ↦ hchange.owned ((hlater other hother).1 hprepared),
          fun hrecovered ↦ hchange.isRestored ((hlater other hother).2 hrecovered)⟩
      · intro first hfirst second hsecond
        rcases mem_cons.mp hsecond with rfl | hsecond
        · exact hchange.inOrder_before hfirst (hcross first hfirst field (by simp))
        · exact hcross first hfirst second (by simp [hsecond])
    · have hcounted := hrecord.counted
      simp only [Provenance.size, hfields, map_append, map_cons, sum_append,
        sum_cons, hchange.size] at hcounted ⊢
      omega
    · intro hcompleted
      exact absurd (hopen.symm.trans hcompleted) Bool.false_ne_true
  | complete hopen hrevision hfinished =>
    refine ⟨hrevision, hrecord.fields, hrecord.ordered, ?_, fun _ ↦ hfinished⟩
    have hcounted := hrecord.counted
    simp only [Provenance.size, hopen, Bool.toNat_false, Bool.toNat_true] at hcounted ⊢
    omega

end Provenance

end ObsMcp.Preparation
