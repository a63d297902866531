import ObsMcp.Preparation.Preservation

/-!
# The check in front of every write

`successor` compares a stored record with the next one instead of replaying an operation. On
well-formed records it accepts the record itself and the legal steps of it
(`successor_eq_ok_iff`). The step from the comparison to a legal step goes through the counts: both
revisions count steps, so exactly one step is new, and a list of attempts that grows elementwise by
one step in all has one attempt with one more step.
-/

namespace ObsMcp.Preparation

open Foundations List

namespace Provenance

open FieldProvenance

variable {record after : Provenance} {before later : List FieldProvenance}
  {field next : FieldProvenance} {recovering : Bool}

/-! ### Counting -/

theorem events_eq (hfits : record.size < 2 ^ 64) : record.events = some record.size := by
  have hattempts : ∀ (attempts : List Attempt) (start : ℕ),
      start + (attempts.map (·.steps.length)).sum < 2 ^ 64 →
      attempts.foldlM (fun total attempt ↦ checkedAdd total attempt.steps.length) start =
        some (start + (attempts.map (·.steps.length)).sum) := by
    intro attempts
    induction attempts with
    | nil => exact fun start _ ↦ rfl
    | cons attempt attempts ih =>
      intro start hfits
      rw [map_cons, sum_cons, ← Nat.add_assoc] at hfits ⊢
      have hadd : checkedAdd start attempt.steps.length = some (start + attempt.steps.length) :=
        if_pos (by omega)
      rw [foldlM_cons, hadd]
      exact ih _ hfits
  have hfields : ∀ (fields : List FieldProvenance) (start : ℕ),
      start + (fields.map FieldProvenance.size).sum < 2 ^ 64 →
      fields.foldlM (fun total field ↦ do
        let total ← checkedAdd total ((field.preparation.map (·.steps.length)).getD 0)
        field.recovery.foldlM (fun total attempt ↦ checkedAdd total attempt.steps.length) total)
        start = some (start + (fields.map FieldProvenance.size).sum) := by
    intro fields
    induction fields with
    | nil => exact fun start _ ↦ rfl
    | cons field fields ih =>
      intro start hfits
      rw [map_cons, sum_cons, ← Nat.add_assoc] at hfits ⊢
      have hsize : field.size = (field.preparation.map (·.steps.length)).getD 0 +
          (field.recovery.map (·.steps.length)).sum := by
        unfold FieldProvenance.size
        cases field.preparation with
        | none => rfl
        | some attempt => rfl
      have hadd : checkedAdd start ((field.preparation.map (·.steps.length)).getD 0) =
          some (start + (field.preparation.map (·.steps.length)).getD 0) :=
        if_pos (by omega)
      have hrecovery := hattempts field.recovery
        (start + (field.preparation.map (·.steps.length)).getD 0) (by omega)
      rw [Nat.add_assoc, ← hsize] at hrecovery
      simp only [foldlM_cons, hadd, Option.bind_eq_bind, Option.bind_some, hrecovery]
      exact ih _ hfits
  exact hfields record.fields record.completed.toNat hfits

theorem WellFormed.events (hrecord : record.WellFormed) : record.events = some record.revision := by
  have hfits : record.size < 2 ^ 64 := by
    rw [hrecord.counted]
    exact Nat.lt_of_le_of_lt hrecord.revision_le (by decide)
  rw [events_eq hfits, hrecord.counted]

/-! ### Attempts that grow -/

/-- The attempt stays as it is, or one step is added. -/
def Extension (old new : Attempt) : Prop := new = old ∨ ∃ step, new = old.push step

theorem attemptExtension_some_iff {old new : Attempt} :
    attemptExtension (some old) (some new) = true ↔ Extension old new := by
  simp only [attemptExtension, Bool.or_eq_true, beq_iff_eq, Bool.and_eq_true,
    isPrefixOf_iff_prefix, Extension]
  constructor
  · rintro (rfl | ⟨⟨hfence, hlength⟩, added, hadded⟩)
    · exact .inl rfl
    · rw [← hadded, length_append, Nat.add_left_cancel_iff, length_eq_one_iff] at hlength
      obtain ⟨step, rfl⟩ := hlength
      refine .inr ⟨step, ?_⟩
      cases new
      simp_all [Attempt.push]
  · rintro (rfl | ⟨step, rfl⟩)
    · exact .inl rfl
    · exact .inr ⟨⟨rfl, by simp⟩, by simp⟩

theorem attemptExtension_self (attempt : Option Attempt) :
    attemptExtension attempt attempt = true := by
  cases attempt with
  | none => rfl
  | some attempt => exact attemptExtension_some_iff.mpr (.inl rfl)

/-- The pairs of two lists, when the second is not shorter. -/
theorem forall_zip_iff {olds news : List Attempt} (hle : olds.length ≤ news.length) :
    (∀ pair ∈ olds.zip news, Extension pair.1 pair.2) ↔
      List.Forall₂ Extension olds (news.take olds.length) := by
  rw [zip_eq_zip_take_min, Nat.min_eq_left hle, take_length, forall₂_iff_zip]
  constructor
  · intro hpairs
    exact ⟨by simp [hle], fun {old new} hpair ↦ hpairs (old, new) hpair⟩
  · rintro ⟨-, hpairs⟩ ⟨old, new⟩ hpair
    exact hpairs hpair

theorem Extension.length_le {old new : Attempt} (hextension : Extension old new) :
    old.steps.length ≤ new.steps.length := by
  rcases hextension with rfl | ⟨step, rfl⟩
  · exact Nat.le_refl _
  · simp

section Grown

variable {olds news : List Attempt} (hgrown : List.Forall₂ Extension olds news)

include hgrown

theorem steps_le_of_grown : (olds.map (·.steps.length)).sum ≤ (news.map (·.steps.length)).sum := by
  induction hgrown with
  | nil => exact Nat.le_refl _
  | cons hhead _ ih =>
    simp only [map_cons, sum_cons]
    exact Nat.add_le_add hhead.length_le ih

theorem eq_of_grown
    (hsum : (news.map (·.steps.length)).sum = (olds.map (·.steps.length)).sum) : news = olds := by
  induction hgrown with
  | nil => rfl
  | @cons old new olds news hhead htail ih =>
    have hle := steps_le_of_grown htail
    simp only [map_cons, sum_cons] at hsum
    rcases hhead with rfl | ⟨step, rfl⟩
    · rw [ih (by omega)]
    · simp only [Attempt.push_steps, length_append, length_singleton] at hsum
      omega

/-- Lists that grow by one step in all differ in one attempt. -/
theorem split_of_grown
    (hsum : (news.map (·.steps.length)).sum = (olds.map (·.steps.length)).sum + 1) :
    ∃ earlier old later step, olds = earlier ++ old :: later ∧
      news = earlier ++ Attempt.push step old :: later := by
  induction hgrown with
  | nil => simp at hsum
  | @cons old new olds news hhead htail ih =>
    have hle := steps_le_of_grown htail
    simp only [map_cons, sum_cons] at hsum
    rcases hhead with rfl | ⟨step, rfl⟩
    · obtain ⟨earlier, changed, later, step, rfl, rfl⟩ := ih (by omega)
      exact ⟨new :: earlier, changed, later, step, rfl, rfl⟩
    · simp only [Attempt.push_steps, length_append, length_singleton] at hsum
      obtain rfl := eq_of_grown htail (by omega)
      exact ⟨[], old, news, step, rfl, rfl⟩

end Grown

/-! ### One field -/

/-- What `successor` asks of a field that differs. -/
structure Candidate (recovering : Bool) (field next : FieldProvenance) : Prop where
  differs : field ≠ next
  idle : field.preparation ≠ next.preparation → recovering = false
  preparation : attemptExtension field.preparation next.preparation = true
  length_le : field.recovery.length ≤ next.recovery.length
  le_length : next.recovery.length ≤ field.recovery.length + 1
  grown : List.Forall₂ Extension field.recovery (next.recovery.take field.recovery.length)
  valid : next.recovery.length = field.recovery.length + 1 →
    ∀ attempt ∈ next.recovery.getLast?, attempt.valid true = true

theorem successorField_self (field : FieldProvenance) :
    successorField recovering field field = .ok false := by
  simp [successorField, pure, Except.pure]

theorem successorField_true_iff :
    successorField recovering field next = .ok true ↔ Candidate recovering field next := by
  by_cases hsame : field = next
  · subst hsame
    rw [successorField_self]
    constructor
    · intro htrue
      cases htrue
    · intro hcandidate
      exact absurd rfl hcandidate.differs
  · simp only [successorField, hsame, if_false, bind_eq_ok_iff, refuse_eq_ok_iff,
      Bool.or_eq_false_iff, decide_eq_false_iff_not, Nat.not_lt, any_eq_false,
      exists_const, pure_eq_ok_iff, and_true]
    constructor
    · rintro ⟨hidle, ⟨⟨hpreparation, hle⟩, hge⟩, hextensions, hvalid⟩
      refine ⟨hsame, ?_, by simpa using hpreparation, hle, hge, ?_, ?_⟩
      · intro hne
        simpa [hne] using hidle
      · refine (forall_zip_iff hle).mp fun pair hpair ↦ ?_
        exact attemptExtension_some_iff.mp (by simpa using hextensions pair hpair)
      · intro hlength attempt hattempt
        rw [Option.mem_def] at hattempt
        simpa [hlength, hattempt] using hvalid
    · intro hcandidate
      refine ⟨?_, ⟨⟨by simpa using hcandidate.preparation, hcandidate.length_le⟩,
        hcandidate.le_length⟩, ?_, ?_⟩
      · by_cases hne : field.preparation = next.preparation
        · simp [hne]
        · simp [hcandidate.idle hne]
      · intro pair hpair
        have hextension := (forall_zip_iff hcandidate.length_le).mpr hcandidate.grown pair hpair
        simpa using attemptExtension_some_iff.mpr hextension
      · by_cases hlength : next.recovery.length = field.recovery.length + 1
        · cases hlast : next.recovery.getLast? with
          | none => simp
          | some attempt => simp [hcandidate.valid hlength attempt hlast]
        · simp [hlength]

theorem eq_of_successorField_false (hfield : successorField recovering field next = .ok false) :
    field = next := by
  by_contra hne
  simp only [successorField, hne, if_false, bind_eq_ok_iff, pure_eq_ok_iff] at hfield
  obtain ⟨-, -, -, -, -, -, -, -, htrue⟩ := hfield
  cases htrue

variable {attempt : Attempt} {fields nexts : List FieldProvenance}

theorem candidate_pushRecovery (hvalid : attempt.valid true = true) :
    Candidate recovering field (field.pushRecovery attempt) where
  differs := by
    intro hsame
    have hlength := congrArg (fun field ↦ field.recovery.length) hsame
    simp [pushRecovery] at hlength
  idle := fun hne ↦ absurd rfl hne
  preparation := attemptExtension_self _
  length_le := by simp [pushRecovery]
  le_length := by simp [pushRecovery]
  grown := by
    simp only [pushRecovery, take_left]
    exact forall₂_same.mpr fun _ _ ↦ .inl rfl
  valid := by
    intro _ last hlast
    simp only [pushRecovery, getLast?_concat, Option.mem_def,
      Option.some.injEq] at hlast
    exact hlast ▸ hvalid

/-- A legal change passes the comparison. -/
theorem Change.candidate (hchange : Change before later field next)
    (hidle : (∀ other ∈ before ++ field :: later, other.recovery = []) → recovering = false) :
    Candidate recovering field next := by
  have hrefl : ∀ attempts : List Attempt, List.Forall₂ Extension attempts attempts :=
    fun attempts ↦ forall₂_same.mpr fun _ _ ↦ .inl rfl
  cases hchange with
  | prepare hfence hall hbefore hfresh =>
    refine ⟨?_, fun _ ↦ hidle hall, by simp [attemptExtension, hfresh], Nat.le_refl _,
      Nat.le_succ _, by simpa using hrefl field.recovery, by simp⟩
    intro hsame
    have := congrArg FieldProvenance.preparation hsame
    simp [hfresh] at this
  | @advancePreparation attempt last step hall hattempt hlast hfollows =>
    refine ⟨?_, fun _ ↦ hidle hall, ?_, Nat.le_refl _, Nat.le_succ _,
      by simpa using hrefl field.recovery, by simp⟩
    · intro hsame
      have hlength := congrArg (fun field ↦ (field.preparation.map (·.steps.length)).getD 0) hsame
      simp [hattempt] at hlength
    · rw [hattempt]
      exact attemptExtension_some_iff.mpr (.inr ⟨step, rfl⟩)
  | @recover fence hfence hbefore howned hlimit hretry =>
    exact candidate_pushRecovery (Attempt.valid_iff.mpr ⟨hfence, .inl rfl⟩)
  | @advanceRecovery earlier attempt last step hattempt hlast hfollows =>
    refine ⟨?_, fun hne ↦ absurd rfl hne, ?_, by simp [hattempt], by simp [hattempt], ?_,
      by simp [hattempt]⟩
    · intro hsame
      have hlength := congrArg (fun field ↦ (field.recovery.map (·.steps.length)).sum) hsame
      simp [hattempt] at hlength
    · exact attemptExtension_self _
    · rw [hattempt]
      have hlast : List.Forall₂ Extension [attempt] [attempt.push step] :=
        .cons (.inr ⟨step, rfl⟩) .nil
      have htake : (earlier ++ [attempt.push step]).take (earlier ++ [attempt]).length =
          earlier ++ [attempt.push step] := take_of_length_le (by simp)
      rw [htake]
      exact rel_append (hrefl earlier) hlast
  | @observe fence hfence hbefore hsettled hlimit hretry =>
    exact candidate_pushRecovery (Attempt.valid_iff.mpr ⟨hfence, .inr ⟨rfl, rfl⟩⟩)

/-! ### From the comparison to a legal change -/

theorem sum_pos_of_written {attempts : List Attempt} (hne : attempts ≠ [])
    (hwritten : ∀ attempt ∈ attempts, attempt.steps ≠ []) :
    0 < (attempts.map (·.steps.length)).sum := by
  obtain ⟨first, rest, rfl⟩ := exists_cons_of_ne_nil hne
  have hfirst := length_pos_iff.mpr (hwritten first mem_cons_self)
  simp only [map_cons, sum_cons]
  omega

/-- A preparation that the comparison lets grow has one step more. -/
theorem preparation_grows {old new : Option Attempt}
    (hvalid : ∀ attempt ∈ new, attempt.valid false = true) (hne : old ≠ new)
    (hextension : attemptExtension old new = true) :
    (old = none ∧ ∃ fence, new = some ⟨fence, [.intent]⟩) ∨
      ∃ attempt step, old = some attempt ∧ new = some (attempt.push step) := by
  cases old with
  | none =>
    cases new with
    | none => exact absurd rfl hne
    | some new =>
      obtain ⟨fence, steps⟩ := new
      simp only [attemptExtension, Bool.or_eq_true, beq_iff_eq] at hextension
      rcases hextension with rfl | rfl
      · exact .inl ⟨rfl, fence, rfl⟩
      · have := hvalid _ rfl
        simp [Attempt.valid, Attempt.stepsValid] at this
  | some old =>
    cases new with
    | none => cases hextension
    | some new =>
      rcases attemptExtension_some_iff.mp hextension with rfl | ⟨step, rfl⟩
      · exact absurd rfl hne
      · exact .inr ⟨old, step, rfl, rfl⟩

/-- The step that a valid attempt was extended by may follow its status. -/
theorem follows_of_valid_push {last step : Step} {recovery : Bool}
    (hvalid : (attempt.push step).valid recovery = true)
    (hlast : attempt.steps.getLast? = some last) : follows last step = true := by
  rcases (Attempt.valid_iff.mp hvalid).2 with hsteps | ⟨-, hsteps⟩
  · exact Attempt.follows_of_stepsValid_push hsteps hlast
  · have hlength := congrArg List.length hsteps
    have hne : attempt.steps ≠ [] := getLast?_isSome.mp (by rw [hlast]; rfl)
    have hpos := length_pos_iff.mpr hne
    simp only [Attempt.push_steps, length_append, length_singleton] at hlength
    omega

section

variable (hcandidate : Candidate recovering field next)
include hcandidate

/-- A candidate whose preparation differs changes as an operation changes it. -/
theorem change_of_preparation (hfield : field.WellFormed) (hnext : next.WellFormed)
    (hsize : next.size = field.size + 1)
    (hidle : recovering = false → ∀ other ∈ before ++ field :: later, other.recovery = [])
    (horder : ∀ other ∈ before, InOrder other next) (hne : field.preparation ≠ next.preparation) :
    Change before later field next := by
  have hall := hidle (hcandidate.idle hne)
  have hnil : field.recovery = [] := hall field (by simp)
  have hgrows := preparation_grows hnext.preparation hne hcandidate.preparation
  have hnextNil : next.recovery = [] := by
    by_contra hnonempty
    have hpos := sum_pos_of_written hnonempty hnext.written.2
    rcases hgrows with ⟨hold, fence, hnew⟩ | ⟨attempt, step, hold, hnew⟩
    · simp [FieldProvenance.size, hold, hnew, hnil] at hsize
      omega
    · simp [FieldProvenance.size, hold, hnew, hnil] at hsize
      omega
  have hresult : next = { field with preparation := next.preparation } := by
    cases field
    cases next
    simp_all
  rcases hgrows with ⟨hold, fence, hnew⟩ | ⟨attempt, step, hold, hnew⟩
  · rw [hresult, hnew]
    refine .prepare (Attempt.valid_iff.mp (hnext.preparation _ hnew)).1 hall ?_ hold
    intro other hother
    exact (horder other hother).1 (by simp [hnew])
  · obtain ⟨last, hlast⟩ := Option.isSome_iff_exists.mp
      (getLast?_isSome.mpr (hfield.written.1 attempt hold))
    rw [hresult, hnew]
    exact .advancePreparation hall hold hlast
      (follows_of_valid_push (hnext.preparation _ hnew) hlast)

/-- A candidate with as many recoveries has one more step in its last recovery. -/
theorem change_of_advance (hfield : field.WellFormed) (hnext : next.WellFormed)
    (hsize : next.size = field.size + 1) (hpreparation : field.preparation = next.preparation)
    (hlength : next.recovery.length = field.recovery.length) : Change before later field next := by
  have hgrown := hcandidate.grown
  rw [← hlength, take_length] at hgrown
  obtain ⟨earlier, attempt, rest, step, hold, hnew⟩ := split_of_grown hgrown (by
    simp only [FieldProvenance.size, hpreparation] at hsize
    omega)
  obtain ⟨last, hlast⟩ := Option.isSome_iff_exists.mp
    (getLast?_isSome.mpr (hfield.written.2 attempt (by simp [hold])))
  have hvalid := hnext.recovery (attempt.push step) (by rw [hnew]; simp)
  have hfollows := follows_of_valid_push hvalid hlast
  have hrest : rest = [] := by
    by_contra hne
    have hretried := hfield.retried attempt (by
      simp [hold, dropLast_append_of_ne_nil, dropLast_cons_of_ne_nil hne])
    rw [hlast] at hretried
    cases last <;> first | cases hfollows | cases hretried
  subst hrest
  have hresult : next = { field with recovery := earlier ++ [attempt.push step] } := by
    rw [← hnew, hpreparation]
  rw [hresult]
  exact .advanceRecovery hold hlast hfollows

/-- A candidate with one recovery more has a new attempt of one step. -/
theorem change_of_attempt (hnext : next.WellFormed) (hsize : next.size = field.size + 1)
    (horder : ∀ other ∈ before, InOrder other next)
    (hpreparation : field.preparation = next.preparation)
    (hlength : next.recovery.length = field.recovery.length + 1) :
    Change before later field next := by
  obtain ⟨earlier, attempt, hsplit⟩ : ∃ earlier attempt, next.recovery = earlier ++ [attempt] := by
    rcases eq_nil_or_concat' next.recovery with hnil | hsplit
    · simp [hnil] at hlength
    · exact hsplit
  have hearlier : earlier.length = field.recovery.length := by simpa [hsplit] using hlength
  have hgrown := hcandidate.grown
  rw [hsplit, ← hearlier, take_left] at hgrown
  have hle := steps_le_of_grown hgrown
  have hpos := length_pos_iff.mpr (hnext.written.2 attempt (by simp [hsplit]))
  simp only [FieldProvenance.size, hpreparation, hsplit, map_append, map_cons,
    map_nil, sum_append, sum_cons, sum_nil] at hsize
  obtain rfl := eq_of_grown hgrown (by omega)
  have hvalid := Attempt.valid_iff.mp (hnext.recovery attempt (by simp [hsplit]))
  have hresult : next = field.pushRecovery attempt := by
    cases next
    simp_all [pushRecovery]
  have hbefore : ∀ other ∈ before, other.isRestored = true :=
    fun other hother ↦ (horder other hother).2 (by simp [hsplit])
  have hlimit : field.recovery.length < maxRecoveryAttempts := by
    have := hnext.recovery_le
    omega
  have hretry : field.lastRecovery.all Step.retryable = true := by
    unfold lastRecovery
    cases hlast : field.recovery.getLast? with
    | none => rfl
    | some last =>
      have := hnext.retried last (by simpa [hsplit] using mem_of_getLast? hlast)
      rw [Option.bind_some]
      cases hstep : last.steps.getLast? with
      | none => rfl
      | some step => simpa [hstep] using this
  obtain ⟨fence, steps⟩ := attempt
  have hsteps : steps = [.intent] ∨ steps = [.observedBefore] := by
    rcases hvalid.2 with hsteps | ⟨-, hsteps⟩
    · rcases Attempt.stepsValid_iff.mp hsteps with h | h | h | h | h | h | h
      · exact .inl h
      all_goals
        obtain rfl : steps = _ := h
        simp only [length_cons, length_nil] at hsize
        omega
    · exact .inr hsteps
  rw [hresult]
  rcases hsteps with rfl | rfl
  · refine .recover hvalid.1 hbefore ?_ hlimit hretry
    by_contra hnotOwned
    have := hnext.observed (by simpa [hresult] using hnotOwned) ⟨fence, [.intent]⟩
      (by simp [hsplit])
    cases this
  · refine .observe hvalid.1 hbefore ?_ hlimit hretry
    by_contra hunsettled
    have := hnext.settled (by simpa [hresult] using hunsettled)
    simp [hsplit] at this

/-- A candidate changes as an operation changes it. -/
theorem Candidate.change (hfield : field.WellFormed) (hnext : next.WellFormed)
    (hsize : next.size = field.size + 1)
    (hidle : recovering = false → ∀ other ∈ before ++ field :: later, other.recovery = [])
    (horder : ∀ other ∈ before, InOrder other next) : Change before later field next := by
  by_cases hpreparation : field.preparation = next.preparation
  · rcases Nat.lt_or_ge field.recovery.length next.recovery.length with hlt | hge
    · exact change_of_attempt hcandidate hnext hsize horder hpreparation
        (Nat.le_antisymm hcandidate.le_length hlt)
    · exact change_of_advance hcandidate hfield hnext hsize hpreparation
        (Nat.le_antisymm hge hcandidate.length_le)
  · exact change_of_preparation hcandidate hfield hnext hsize hidle horder hpreparation

end

/-! ### All fields -/

theorem candidates_self (fields : List FieldProvenance) :
    candidates recovering (fields.zip fields) = .ok 0 := by
  induction fields with
  | nil => rfl
  | cons field fields ih =>
    rw [zip_cons_cons, candidates, successorField_self, ih]
    rfl

/-- One field that differs is one candidate. -/
theorem candidates_split (hcandidate : Candidate recovering field next) :
    candidates recovering ((before ++ field :: later).zip (before ++ next :: later)) = .ok 1 := by
  induction before with
  | nil =>
    rw [nil_append, nil_append, zip_cons_cons, candidates,
      successorField_true_iff.mpr hcandidate, candidates_self]
    rfl
  | cons first before ih =>
    rw [cons_append, cons_append, zip_cons_cons, candidates, successorField_self, ih]
    rfl

/-- Fields without a candidate are the same. -/
theorem eq_of_candidates_zero (hlength : fields.length = nexts.length)
    (hzero : candidates recovering (fields.zip nexts) = .ok 0) : nexts = fields := by
  induction fields generalizing nexts with
  | nil => exact length_eq_zero_iff.mp hlength.symm
  | cons field fields ih =>
    obtain ⟨next, nexts, rfl⟩ := exists_cons_of_length_eq_add_one hlength.symm
    rw [zip_cons_cons, candidates] at hzero
    simp only [bind_eq_ok_iff, pure_eq_ok_iff] at hzero
    obtain ⟨candidate, hcandidate, count, hcount, hsum⟩ := hzero
    obtain ⟨hfalse, rfl⟩ : candidate = false ∧ count = 0 := by
      cases candidate with
      | false => exact ⟨rfl, by simpa using hsum⟩
      | true => simp at hsum
    subst hfalse
    rw [eq_of_successorField_false hcandidate, ih (by simpa using hlength) hcount]

/-- Fields with one candidate differ in it. -/
theorem split_of_candidates_one (hlength : fields.length = nexts.length)
    (hone : candidates recovering (fields.zip nexts) = .ok 1) :
    ∃ before later field next, fields = before ++ field :: later ∧
      nexts = before ++ next :: later ∧ Candidate recovering field next := by
  induction fields generalizing nexts with
  | nil =>
    rw [zip_nil_left] at hone
    cases hone
  | cons field fields ih =>
    obtain ⟨next, nexts, rfl⟩ := exists_cons_of_length_eq_add_one hlength.symm
    rw [zip_cons_cons, candidates] at hone
    simp only [bind_eq_ok_iff, pure_eq_ok_iff] at hone
    obtain ⟨candidate, hcandidate, count, hcount, hsum⟩ := hone
    have hlength : fields.length = nexts.length := by simpa using hlength
    cases candidate with
    | false =>
      obtain rfl : count = 1 := by simpa using hsum
      obtain ⟨before, later, changed, new, rfl, rfl, hchanged⟩ := ih hlength hcount
      obtain rfl := eq_of_successorField_false hcandidate
      exact ⟨field :: before, later, changed, new, rfl, rfl, hchanged⟩
    | true =>
      obtain rfl : count = 0 := by simpa using hsum
      obtain rfl := eq_of_candidates_zero hlength hcount
      exact ⟨[], nexts, field, next, rfl, rfl, successorField_true_iff.mp hcandidate⟩

/-! ### The whole record -/

theorem idle_iff (hfields : record.fields = fields) :
    record.recovering = false ↔ ∀ other ∈ fields, other.recovery = [] := by
  rw [recovering_eq_false_iff, hfields]

section

variable (hrecord : record.WellFormed)
include hrecord

theorem WellFormed.nextRevision : record.nextRevision = .ok (record.revision + 1) := by
  have hadd : checkedAdd record.revision 1 = some (record.revision + 1) :=
    if_pos (Nat.lt_of_le_of_lt (Nat.succ_le_succ hrecord.revision_le) (by decide))
  unfold Provenance.nextRevision
  rw [hadd]

/-- A record that the comparison lets follow is a legal step. -/
theorem extends_of_successor (hafter : after.WellFormed) (hne : record ≠ after)
    (hsuccessor : record.successor after = .ok ()) : Extends record after := by
  simp only [successor, bind_eq_ok_iff, refuse_eq_ok_iff, hne, if_false, exists_const,
    Bool.or_eq_false_iff, bne_eq_false_iff_eq] at hsuccessor
  obtain ⟨-, ⟨⟨⟨⟨hopen, hcodec⟩, hendpoint⟩, hsubject⟩, hlength⟩, revision, hnext, hrevision, count,
    hcount, hend⟩ := hsuccessor
  obtain rfl : record.revision + 1 = revision := by
    rw [hrecord.nextRevision] at hnext
    exact Except.ok.inj hnext
  have hle : record.revision + 1 ≤ maxRevision := hrevision ▸ hafter.revision_le
  have hsize : after.size = record.size + 1 := by
    rw [hrecord.counted, hafter.counted, hrevision]
  by_cases hcompleted : after.completed = true
  · rw [if_pos hcompleted] at hend
    simp only [bind_eq_ok_iff, refuse_eq_ok_iff, bne_eq_false_iff_eq, exists_const] at hend
    obtain rfl := hend.1
    have hfields := eq_of_candidates_zero hlength hcount
    have hresult : after = { record with revision := record.revision + 1, completed := true } := by
      cases after
      simp_all
    rw [hresult]
    exact .complete hopen hle (hfields ▸ hafter.finished hcompleted)
  · rw [if_neg hcompleted] at hend
    obtain rfl : count = 1 := by simpa using hend
    obtain ⟨before, later, field, next, hold, hnew, hcandidate⟩ :=
      split_of_candidates_one hlength hcount
    have hcompleted : after.completed = false := by simpa using hcompleted
    have hstep : next.size = field.size + 1 := by
      simp only [Provenance.size, hopen, hcompleted, hold, hnew, map_append, map_cons,
        sum_append, sum_cons] at hsize
      omega
    have hordered : (before ++ next :: later).Pairwise InOrder := hnew ▸ hafter.ordered
    have horder : ∀ other ∈ before, InOrder other next :=
      fun other hother ↦ (pairwise_append.mp hordered).2.2 other hother next (by simp)
    have hchange : Change before later field next :=
      hcandidate.change (hrecord.fields field (by simp [hold]))
        (hafter.fields next (by simp [hnew]))
        hstep (idle_iff hold).mp horder
    have hresult : after = { record with
        revision := record.revision + 1
        fields := before ++ next :: later } := by
      cases after
      simp_all
    rw [hresult]
    exact .field hopen hle hold hchange

/-- The comparison lets every legal step follow. -/
theorem successor_of_extends (hextends : Extends record after) :
    record.successor after = .ok () := by
  have hafter := hextends.wellFormed hrecord
  have hrevision : after.revision = record.revision + 1 := by
    cases hextends <;> rfl
  have hne : record ≠ after := by
    intro hsame
    have := congrArg Provenance.revision hsame
    omega
  simp only [successor, bind_eq_ok_iff, refuse_eq_ok_iff, hne, if_false, exists_const,
    Bool.or_eq_false_iff, bne_eq_false_iff_eq, hrecord.nextRevision, hrecord.events, hafter.events,
    hrevision, Except.ok.injEq, exists_eq_left', and_self, true_and]
  cases hextends with
  | @field before later field next hopen hle hfields hchange =>
    have hcandidate : Candidate record.recovering field next :=
      hchange.candidate (idle_iff hfields).mpr
    refine ⟨⟨⟨⟨⟨hopen, rfl⟩, rfl⟩, rfl⟩, by simp [hfields]⟩, 1, ?_, ?_⟩
    · rw [hfields]
      exact candidates_split hcandidate
    · rw [if_neg (by simp [hopen])]
      simp
  | complete hopen hle hfinished =>
    refine ⟨⟨⟨⟨⟨hopen, rfl⟩, rfl⟩, rfl⟩, rfl⟩, 0, candidates_self _, ?_⟩
    rw [if_pos rfl]
    simp only [bind_eq_ok_iff, refuse_eq_ok_iff, exists_const]
    exact ⟨rfl, true, (finished_eq_ok_iff hafter.written).mpr hfinished, rfl⟩

/-- On well-formed records the comparison accepts the record itself and its legal steps. -/
theorem successor_eq_ok_iff (hafter : after.WellFormed) :
    record.successor after = .ok () ↔ after = record ∨ Extends record after := by
  constructor
  · intro hsuccessor
    by_cases hsame : record = after
    · exact .inl hsame.symm
    · exact .inr (extends_of_successor hrecord hafter hsame hsuccessor)
  · rintro (rfl | hextends)
    · simp [successor, hrecord.events, refuse, bind, Except.bind, pure, Except.pure]
    · exact successor_of_extends hrecord hextends

end

end Provenance

end ObsMcp.Preparation
