import ObsMcp.Foundations.Machine
import ObsMcp.Preparation.Successor

/-!
# Runs of the preparation journal

`journal` is the transition system of a record under its five operations, from the new record of
an endpoint, a subject and a number of fields. A call that fails is a step too: it leads to the
record the call leaves behind.

`reachable_journal` states that every record of a run passes `validate`, that every call that
succeeds leads to a record that `successor` accepts, one revision later, that a call that fails
changes nothing, and that no call panics. `successor_exact` compares `successor` with the
operations: of two records that both pass `validate`, the second follows by one operation exactly
when it begins no recovery attempt while a delivery of the first is uncertain.
-/

namespace ObsMcp.Preparation

open Foundations List

namespace Provenance

open FieldProvenance

variable {digests : Digests} {endpoint : String} {subject : Json} {count : ℕ}
  {record after : Provenance} {operation : Operation}

/-! ### Failing calls -/

theorem eq_of_call_error {fault : Fault} (hcall : operation.call record = .error fault after) :
    after = record := by
  cases operation with
  | beginPreparation index fence => exact eq_of_checked_error hcall
  | beginRecovery index fence => exact eq_of_checked_error hcall
  | advance index recovery next => exact eq_of_checked_error hcall
  | observedBefore index fence => exact eq_of_checked_error hcall
  | complete => exact eq_of_checked_error hcall

/-- A computation that does not panic. -/
def Quiet {α : Type} (result : Except Fault α) : Prop := result ≠ .error .panic

theorem quiet_refuse (error : ProvenanceError) (condition : Bool) :
    Quiet (refuse error condition) := by
  cases condition with
  | false => simp [Quiet, refuse]
  | true => simp [Quiet, refuse]

theorem quiet_ok {α : Type} (value : α) : Quiet (.ok value : Except Fault α) := by
  simp [Quiet]

theorem Quiet.bind {α β : Type} {result : Except Fault α} {next : α → Except Fault β}
    (hresult : Quiet result) (hnext : ∀ value, result = .ok value → Quiet (next value)) :
    Quiet (result >>= next) := by
  cases result with
  | error fault =>
    intro hpanic
    exact hresult (by simpa [Bind.bind, Except.bind] using hpanic)
  | ok value => exact hnext value rfl

theorem bump_ne_panic : bump record ≠ .error .panic after := by
  intro hpanic
  unfold bump at hpanic
  split_ifs at hpanic
  · cases (EStateM.Result.error.inj hpanic).1
  · split at hpanic
    · cases (EStateM.Result.error.inj hpanic).1
    · cases hpanic

theorem ne_panic_of_checked {guard : Provenance → Except Fault Unit}
    {edit : Provenance → Provenance} (hguard : Quiet (guard record)) :
    checked guard edit record ≠ .error .panic after := by
  intro hpanic
  rw [checked_apply] at hpanic
  cases hresult : guard record with
  | error fault =>
    rw [hresult] at hpanic hguard
    obtain ⟨rfl, -⟩ := EStateM.Result.error.inj hpanic
    exact hguard rfl
  | ok u =>
    rw [hresult] at hpanic
    cases hbump : bump record with
    | ok u bumped => simp [hbump] at hpanic
    | error fault bumped =>
      simp only [hbump] at hpanic
      obtain ⟨rfl, -⟩ := EStateM.Result.error.inj hpanic
      exact bump_ne_panic hbump

theorem quiet_getField (index : ℕ) : Quiet (record.getField index) := by
  unfold getField Quiet
  cases record.fields[index]? with
  | none => simp
  | some field => simp

/-- No call on a record whose attempts all have steps panics. -/
theorem call_ne_panic (hwritten : ∀ field ∈ record.fields, field.Written) :
    operation.call record ≠ .error .panic after := by
  have hfield : ∀ {index field}, record.getField index = .ok field → field.Written :=
    fun hget ↦ hwritten _ (mem_of_getElem? (getField_eq_ok_iff.mp hget))
  cases operation with
  | beginPreparation index fence =>
    refine ne_panic_of_checked ?_
    refine (quiet_refuse _ _).bind fun _ _ ↦ ?_
    rw [anyNotOwned_eq hwritten]
    refine (quiet_ok _).bind fun _ _ ↦ ?_
    exact (quiet_refuse _ _).bind fun _ _ ↦ quiet_refuse _ _
  | beginRecovery index fence =>
    refine ne_panic_of_checked ?_
    unfold beginRecoveryGuard
    rw [uncertain_eq hwritten, anyNotRestored_eq hwritten]
    refine (quiet_ok _).bind fun _ _ ↦ (quiet_refuse _ _).bind fun _ _ ↦
      (quiet_refuse _ _).bind fun _ _ ↦ (quiet_ok _).bind fun _ _ ↦
      (quiet_refuse _ _).bind fun _ _ ↦ (quiet_getField index).bind fun field hget ↦ ?_
    rw [ownsRestore_eq (hfield hget),
      recoveryStatus_eq (hfield hget)]
    exact (quiet_ok _).bind fun _ _ ↦ (quiet_refuse _ _).bind fun _ _ ↦
      (quiet_refuse _ _).bind fun _ _ ↦ (quiet_ok _).bind fun _ _ ↦ quiet_refuse _ _
  | advance index recovery next =>
    refine ne_panic_of_checked ?_
    refine (quiet_refuse _ _).bind fun _ _ ↦ (quiet_getField index).bind fun field hget ↦ ?_
    cases hattempt : (if recovery then field.recovery.getLast? else field.preparation) with
    | none => simp [Quiet]
    | some attempt =>
      have hsteps : attempt.steps ≠ [] := by
        cases recovery with
        | false => exact (hfield hget).1 attempt (by simpa using hattempt)
        | true => exact (hfield hget).2 attempt (mem_of_getLast? (by simpa using hattempt))
      obtain ⟨last, hlast⟩ := Option.isSome_iff_exists.mp (getLast?_isSome.mpr hsteps)
      show Quiet (attempt.status >>= fun status ↦ refuse .transition (!follows status next))
      rw [Attempt.status_eq_ok_iff.mpr hlast]
      exact (quiet_ok _).bind fun _ _ ↦ quiet_refuse _ _
  | observedBefore index fence =>
    refine ne_panic_of_checked ?_
    unfold observedBeforeGuard
    rw [anyNotRestored_eq hwritten]
    refine (quiet_refuse _ _).bind fun _ _ ↦ (quiet_ok _).bind fun _ _ ↦
      (quiet_refuse _ _).bind fun _ _ ↦ (quiet_getField index).bind fun field hget ↦ ?_
    rw [preparationStatus_eq (hfield hget),
      recoveryStatus_eq (hfield hget)]
    exact (quiet_ok _).bind fun _ _ ↦ (quiet_refuse _ _).bind fun _ _ ↦
      (quiet_ok _).bind fun _ _ ↦ (quiet_refuse _ _).bind fun _ _ ↦ quiet_refuse _ _
  | complete =>
    refine ne_panic_of_checked ?_
    unfold completeGuard
    rw [uncertain_eq hwritten, allRestored_eq hwritten]
    exact (quiet_ok _).bind fun _ _ ↦ (quiet_refuse _ _).bind fun _ _ ↦
      (quiet_ok _).bind fun _ _ ↦ quiet_refuse _ _

/-! ### Runs -/

/-- The record a call leaves behind, with its answer dropped. -/
def left : EStateM.Result Fault Provenance Unit → Provenance
  | .ok _ record => record
  | .error _ record => record

/-- The records of an endpoint, a subject and a number of fields under the operations. -/
def journal (digests : Digests) (endpoint : String) (subject : Json) (count : ℕ) :
    Machine Provenance Operation where
  initial record := record = new digests endpoint subject count
  step record operation after := after = left (operation.call record)

theorem new_wellFormed : (new digests endpoint subject count).WellFormed where
  revision_le := Nat.zero_le _
  fields := by
    intro field hfield
    rw [eq_of_mem_replicate hfield]
    exact ⟨by simp, by simp, by simp, by simp, by simp, by simp⟩
  ordered := by
    refine pairwise_replicate.mpr (.inr ?_)
    exact ⟨fun h ↦ absurd rfl h, fun h ↦ absurd rfl h⟩
  counted := by
    simp [size, new, FieldProvenance.size]
  finished h := by cases h

theorem Extends.describes (hextends : Extends record after)
    (hrecord : record.Describes digests endpoint subject count) :
    after.Describes digests endpoint subject count := by
  cases hextends with
  | field hopen hrevision hfields hchange =>
    exact ⟨hrecord.codec, hrecord.endpoint, hrecord.subject, by
      simpa [hfields] using hrecord.count⟩
  | complete hopen hrevision hfinished =>
    exact ⟨hrecord.codec, hrecord.endpoint, hrecord.subject, hrecord.count⟩

/-- Every record of a run is well formed and one of the endpoint, the subject and the count. -/
theorem reachable_wellFormed (hrecord : (journal digests endpoint subject count).Reachable record) :
    record.Describes digests endpoint subject count ∧ record.WellFormed := by
  refine Machine.invariant_of_step (m := journal digests endpoint subject count)
    (fun record ↦ record.Describes digests endpoint subject count ∧ record.WellFormed) ?_ ?_ hrecord
  · rintro record rfl
    exact ⟨⟨rfl, rfl, rfl, length_replicate⟩, new_wellFormed⟩
  · rintro record operation after - ⟨hdescribes, hwellFormed⟩ rfl
    cases hcall : operation.call record with
    | ok u next =>
      have hextends := (extends_of_call hwellFormed.written hcall).1
      exact ⟨hextends.describes hdescribes, hextends.wellFormed hwellFormed⟩
    | error fault next =>
      obtain rfl := eq_of_call_error hcall
      exact ⟨hdescribes, hwellFormed⟩

/-- Every record of a run passes its check; a call that succeeds leads to the next revision, which
the check in front of a write accepts; a call that fails changes nothing and does not panic. -/
theorem reachable_journal (digests : Digests) (endpoint : String) (subject : Json) (count : ℕ) :
    (∀ record, (journal digests endpoint subject count).Reachable record →
      record.validate digests endpoint subject count = .ok ()) ∧
    (∀ record, (journal digests endpoint subject count).Reachable record →
      ∀ (operation : Operation) (after : Provenance), operation.call record = .ok () after →
        record.successor after = .ok () ∧ after.revision = record.revision + 1) ∧
    ∀ record, (journal digests endpoint subject count).Reachable record →
      ∀ (operation : Operation) (fault : Fault) (after : Provenance),
        operation.call record = .error fault after → after = record ∧ fault ≠ .panic := by
  refine ⟨fun record hreachable ↦ validate_eq_ok_iff.mpr (reachable_wellFormed hreachable), ?_, ?_⟩
  · intro record hreachable operation after hcall
    obtain ⟨-, hrecord⟩ := reachable_wellFormed hreachable
    have hextends := (extends_of_call hrecord.written hcall).1
    refine ⟨successor_of_extends hrecord hextends, ?_⟩
    cases hextends <;> rfl
  · intro record hreachable operation fault after hcall
    obtain ⟨-, hrecord⟩ := reachable_wellFormed hreachable
    refine ⟨eq_of_call_error hcall, ?_⟩
    rintro rfl
    exact call_ne_panic hrecord.written hcall

/-! ### The check in front of a write -/

/-- Of two valid records the second follows the first by one operation, or is the same, exactly
when the comparison accepts it and it begins no recovery attempt while a delivery of the first is
uncertain.

Assumes: both records pass `validate`, and the comparison accepts the second. -/
theorem successor_exact (digests : Digests) (endpoint : String) (subject : Json) (count : ℕ)
    (record after : Provenance) (hrecord : record.validate digests endpoint subject count = .ok ())
    (hafter : after.validate digests endpoint subject count = .ok ())
    (hsuccessor : record.successor after = .ok ()) :
    (after = record ∨ ∃ operation : Operation, operation.call record = .ok () after) ↔
      ¬ (record.uncertain = .ok true ∧ record.opensRecovery after = true) := by
  have hrecord := (validate_eq_ok_iff.mp hrecord).2
  have hafter := (validate_eq_ok_iff.mp hafter).2
  rw [uncertain_eq hrecord.written]
  constructor
  · rintro (rfl | ⟨operation, hcall⟩) ⟨huncertain, hopens⟩
    · exact absurd ((opensRecovery_of_fields_eq rfl).symm.trans hopens) Bool.false_ne_true
    · have hcertain := (extends_of_call hrecord.written hcall).2 hopens
      exact absurd (hcertain.symm.trans (Except.ok.inj huncertain)) Bool.false_ne_true
  · intro hcertain
    rcases (successor_eq_ok_iff hrecord hafter).mp hsuccessor with hsame | hextends
    · exact .inl hsame
    · refine .inr (call_of_extends hrecord.written hextends fun hopens ↦ ?_)
      by_contra huncertain
      exact hcertain ⟨by simpa using huncertain, hopens⟩

/-! ### Two records that no operation connects -/

section Uncertain

variable (digests endpoint subject)

/-- A record of two fields: the first was accepted, and nothing is known of the request for the
second but that it may have been sent. -/
def sentRecord : Provenance where
  codec := "obs-mcp-preparation-v2"
  endpointHash := digests.endpointHash endpoint
  subjectHash := digests.subjectHash subject
  revision := 5
  completed := false
  fields :=
    [⟨some ⟨⟨1, 1⟩, [.intent, .possibleDispatch, .accepted]⟩, []⟩,
      ⟨some ⟨⟨1, 2⟩, [.intent, .possibleDispatch]⟩, []⟩]

/-- The same record with a recovery of the first field begun. -/
def recoveringRecord : Provenance :=
  { sentRecord digests endpoint subject with
    revision := 6
    fields :=
      [⟨some ⟨⟨1, 1⟩, [.intent, .possibleDispatch, .accepted]⟩, [⟨⟨1, 3⟩, [.intent]⟩]⟩,
        ⟨some ⟨⟨1, 2⟩, [.intent, .possibleDispatch]⟩, []⟩] }

theorem sentRecord_wellFormed : (sentRecord digests endpoint subject).WellFormed where
  revision_le := by
    show 5 ≤ maxRevision
    decide
  fields := by
    intro field hfield
    simp only [sentRecord, mem_cons, not_mem_nil, or_false] at hfield
    rcases hfield with rfl | rfl <;>
      exact ⟨by simp; decide, by simp, by simp, by simp, by simp, by simp⟩
  ordered := by
    simp only [sentRecord, pairwise_cons, mem_singleton, not_mem_nil, InOrder]
    refine ⟨?_, by simp⟩
    rintro field rfl
    exact ⟨fun _ ↦ by decide, fun h ↦ absurd rfl h⟩
  counted := rfl
  finished h := by cases h

theorem recoveringRecord_wellFormed :
    (recoveringRecord digests endpoint subject).WellFormed where
  revision_le := by
    show 6 ≤ maxRevision
    decide
  fields := by
    intro field hfield
    simp only [recoveringRecord, mem_cons, not_mem_nil, or_false] at hfield
    rcases hfield with rfl | rfl
    · exact ⟨by simp; decide, by simp; decide, by decide, by simp, by decide, by decide⟩
    · exact ⟨by simp; decide, by simp, by simp, by simp, by simp, by simp⟩
  ordered := by
    simp only [recoveringRecord, pairwise_cons, mem_singleton, not_mem_nil, InOrder]
    refine ⟨?_, by simp⟩
    rintro field rfl
    exact ⟨fun _ ↦ by decide, fun h ↦ absurd rfl h⟩
  counted := rfl
  finished h := by cases h

theorem sentRecord_valid :
    (sentRecord digests endpoint subject).validate digests endpoint subject 2 = .ok () :=
  validate_eq_ok_iff.mpr ⟨⟨rfl, rfl, rfl, rfl⟩, sentRecord_wellFormed digests endpoint subject⟩

theorem recoveringRecord_valid :
    (recoveringRecord digests endpoint subject).validate digests endpoint subject 2 = .ok () :=
  validate_eq_ok_iff.mpr
    ⟨⟨rfl, rfl, rfl, rfl⟩, recoveringRecord_wellFormed digests endpoint subject⟩

theorem sentRecord_successor :
    (sentRecord digests endpoint subject).successor (recoveringRecord digests endpoint subject) =
      .ok () := by
  refine successor_of_extends (sentRecord_wellFormed digests endpoint subject) ?_
  exact @Extends.field _ [] _ _ _ rfl (by show 6 ≤ maxRevision; decide) rfl
    (@Change.recover _ _ _ ⟨1, 3⟩ (by decide) (by simp) (by decide) (by decide) (by decide))

end Uncertain

/-- Digests that forget everything. -/
def plainDigests : Digests where
  sha256 _ := ""
  toVec _ := []

def sentAt : Provenance :=
  sentRecord plainDigests "ws://127.0.0.1:4455" .null

def recoveringAt : Provenance :=
  recoveringRecord plainDigests "ws://127.0.0.1:4455" .null

/-- The equivalence at the two records: both sides are false. -/
theorem successor_exact_sent :
    (recoveringAt = sentAt ∨ ∃ operation : Operation, operation.call sentAt = .ok () recoveringAt) ↔
      ¬ (sentAt.uncertain = .ok true ∧ sentAt.opensRecovery recoveringAt = true) :=
  successor_exact plainDigests "ws://127.0.0.1:4455" .null 2 _ _ (sentRecord_valid _ _ _)
    (recoveringRecord_valid _ _ _) (sentRecord_successor _ _ _)

/-- Both records pass `validate` and the comparison accepts the second after the first, which is
uncertain, and no operation leads from one to the other: `begin_recovery` refuses. -/
theorem successor_recovers_while_uncertain :
    sentAt.validate plainDigests "ws://127.0.0.1:4455" .null 2 = .ok () ∧
      recoveringAt.validate plainDigests "ws://127.0.0.1:4455" .null 2 = .ok () ∧
      sentAt.successor recoveringAt = .ok () ∧ sentAt.uncertain = .ok true ∧
      ¬ (recoveringAt = sentAt ∨
        ∃ operation : Operation, operation.call sentAt = .ok () recoveringAt) := by
  refine ⟨sentRecord_valid _ _ _, recoveringRecord_valid _ _ _, sentRecord_successor _ _ _, rfl, ?_⟩
  rintro (hsame | ⟨operation, hcall⟩)
  · have := congrArg Provenance.revision hsame
    exact absurd this (by show (6 : ℕ) ≠ 5; decide)
  · have hwritten := (sentRecord_wellFormed plainDigests "ws://127.0.0.1:4455" .null).written
    have hcertain := (extends_of_call hwritten hcall).2 rfl
    exact absurd hcertain (by rintro ⟨⟩)

end Provenance

end ObsMcp.Preparation
