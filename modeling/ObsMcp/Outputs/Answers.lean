import ObsMcp.Outputs.Projection

/-!
# Answers to a subscription

What it means that an event answers a subscription (`Answers`) and that an output event reports the
first one that does (`FirstAnswer`). `Subscription.Good` is the invariant of a subscription: with a
pending cell no event that is projected for its slot answers it, and an event in its cell is the
first answer. Every step of `OutputSubscription::receive` is sound (`Subscription.receive_sound`):
it keeps the subscription good, takes nothing back that is decided, and keeps the path bytes.
-/

namespace ObsMcp.Outputs

open Foundations List Option

/-! ### Answers -/

/-- The event answers a subscription: it reports a terminal state of the kind, was received after
the registration, and not after the confirmation deadline. -/
def Answers (slot : Slot) (event : ObsEvent) : Prop :=
  event.transition.map Prod.fst = some slot.kind ∧ slot.after < event.sequence ∧
    slot.registeredAt ≤ event.receivedAt ∧ event.receivedAt ≤ slot.confirmationDeadline

/-- No event up to a cursor answers. -/
def Unanswered (received : List ObsEvent) (slot : Slot) (cursor : ℕ) : Prop :=
  ∀ event ∈ received, event.sequence ≤ cursor → ¬ Answers slot event

/-- What an output event says of the event it was made of. -/
structure OutputEvent.Reports (output : OutputEvent) (event : ObsEvent) : Prop where
  connection : output.connection = event.connection
  sequence : output.sequence = event.sequence
  receivedAt : output.receivedAt = event.receivedAt
  terminal : event.transition.map Prod.snd = some output.terminal
  path : output.path = event.path output.terminal

/-- The output event reports the first event that answers. -/
def FirstAnswer (received : List ObsEvent) (slot : Slot) (output : OutputEvent) : Prop :=
  ∃ event ∈ received, Answers slot event ∧ output.Reports event ∧
    ∀ earlier ∈ received, earlier.sequence < event.sequence → ¬ Answers slot earlier

/-- The events are numbered in the order of their receipt. -/
def Numbered (received : List ObsEvent) : Prop :=
  ∀ (i : ℕ) (event : ObsEvent), received[i]? = some event → event.sequence = i + 1

section Answers

variable {received : List ObsEvent} {slot : Slot} {event : ObsEvent} {cursor : ℕ}

variable {kind : OutputKind} {terminal : Terminal} {output : OutputEvent}

theorem selects_iff (htransition : event.transition = some (kind, terminal)) :
    slot.selects kind event = true ↔ Answers slot event := by
  simp only [Slot.selects, Answers, htransition, map_some, Option.some.injEq,
    Bool.and_eq_true, decide_eq_true_eq, and_assoc]
  exact and_congr_left fun _ ↦ eq_comm

theorem Numbered.sequence_le (hnumbered : Numbered received) (hmem : event ∈ received) :
    event.sequence ≤ received.length := by
  obtain ⟨i, hi⟩ := mem_iff_getElem?.mp hmem
  rw [hnumbered i event hi]
  exact (List.getElem?_eq_some_iff.mp hi).1

theorem Numbered.eq_of_sequence (hnumbered : Numbered received) {other : ObsEvent}
    (hmem : event ∈ received) (hother : other ∈ received)
    (hsequence : event.sequence = other.sequence) : event = other := by
  obtain ⟨i, hi⟩ := mem_iff_getElem?.mp hmem
  obtain ⟨j, hj⟩ := mem_iff_getElem?.mp hother
  rw [hnumbered i event hi, hnumbered j other hj] at hsequence
  obtain rfl : i = j := by omega
  exact some.inj (hi.symm.trans hj)

theorem Numbered.append (hnumbered : Numbered received)
    (hsequence : event.sequence = received.length + 1) : Numbered (received ++ [event]) := by
  intro i other hother
  rw [getElem?_append] at hother
  split_ifs at hother with hlt
  · exact hnumbered i other hother
  · have hlast : i = received.length := by
      have := (List.getElem?_eq_some_iff.mp hother).1
      rw [List.length_singleton] at this
      omega
    subst hlast
    simp only [Nat.sub_self, getElem?_cons_zero, Option.some.injEq] at hother
    rw [← hother, hsequence]

theorem Unanswered.mono (hunanswered : Unanswered received slot cursor) {earlier : ℕ}
    (hle : earlier ≤ cursor) : Unanswered received slot earlier :=
  fun event hmem hevent ↦ hunanswered event hmem (Nat.le_trans hevent hle)

/-- A new event does not answer below its own number. -/
theorem Unanswered.append (hunanswered : Unanswered received slot cursor)
    (hcursor : cursor < event.sequence) : Unanswered (received ++ [event]) slot cursor := by
  intro other hother hle
  rcases mem_append.mp hother with hother | hother
  · exact hunanswered other hother hle
  · rw [mem_singleton.mp hother] at hle
    omega

theorem FirstAnswer.append (hnumbered : Numbered received)
    (hfirst : FirstAnswer received slot output) (hsequence : received.length < event.sequence) :
    FirstAnswer (received ++ [event]) slot output := by
  obtain ⟨answer, hmem, hanswers, hreports, hearlier⟩ := hfirst
  refine ⟨answer, mem_append_left _ hmem, hanswers, hreports, fun other hother hlt ↦ ?_⟩
  rcases mem_append.mp hother with hother | hother
  · exact hearlier other hother hlt
  · rw [mem_singleton.mp hother] at hlt
    have := hnumbered.sequence_le hmem
    omega

/-- A projected event that does not answer leaves the slot unanswered. -/
theorem Unanswered.succ (hnumbered : Numbered received)
    (hunanswered : Unanswered received slot cursor) (hmem : event ∈ received)
    (hsequence : event.sequence = cursor + 1) (hnot : ¬ Answers slot event) :
    Unanswered received slot (cursor + 1) := by
  intro other hother hle
  by_cases hlast : other.sequence = cursor + 1
  · rw [hnumbered.eq_of_sequence hother hmem (hlast.trans hsequence.symm)]
    exact hnot
  · exact hunanswered other hother (by omega)

/-- The outcome of an event that answers an unanswered slot is the first answer. -/
theorem firstAnswer_of_select (hunanswered : Unanswered received slot cursor)
    (hmem : event ∈ received) (hsequence : event.sequence = cursor + 1)
    (hanswers : Answers slot event) (htransition : event.transition = some (kind, terminal))
    {paths : ℕ} (hselect : (Registry.select paths event terminal).1 = .ok output) :
    FirstAnswer received slot output := by
  have hreports : output.Reports event := by
    unfold Registry.select at hselect
    cases hpath : event.path terminal with
    | none =>
      rw [hpath] at hselect
      cases hselect
      exact ⟨rfl, rfl, rfl, by rw [htransition]; rfl, hpath.symm⟩
    | some text =>
      simp only [hpath] at hselect
      split_ifs at hselect
      cases hselect
      exact ⟨rfl, rfl, rfl, by rw [htransition]; rfl, hpath.symm⟩
  exact ⟨event, hmem, hanswers, hreports, fun earlier hearlier hlt ↦
    hunanswered earlier hearlier (by omega)⟩

end Answers

/-! ### Good subscriptions -/

/-- The cursor up to which the events are projected for a slot. -/
def State.projectedFor (s : State) (index : ℕ) : ℕ :=
  match s.holder with
  | .publishing _ next => if index < next then s.registry.progress + 1 else s.registry.progress
  | _ => s.registry.progress

theorem State.progress_le_projectedFor (s : State) (index : ℕ) :
    s.registry.progress ≤ s.projectedFor index := by
  unfold projectedFor
  split
  · split_ifs
    · exact Nat.le_succ _
    · exact Nat.le_refl _
  · exact Nat.le_refl _

/-- A subscription whose receive has not ended. -/
def Phase.Open (phase : Phase) : Prop := phase ≠ .returned ∧ phase ≠ .ended

/-- What holds of a subscription in every state of a run. -/
structure Subscription.Good (s : State) (n : ℕ) (sub : Subscription) : Prop where
  cell : sub.slot.cell = n
  index : sub.index < s.registry.slots.length
  after : sub.slot.after ≤ s.received.length
  registeredAt : sub.slot.registeredAt ≤ s.now
  registered : s.registry.alive = true → sub.phase ≠ .ended →
    s.registry.slots[sub.index]? = some (some sub.slot)
  freed : sub.cell = none ↔ sub.phase = .ended
  consumed : sub.cell = some .consumed → sub.result ≠ none
  opened : sub.phase.Open → sub.result = none
  kept : sub.result = none → sub.event = none
  pending : sub.cell = some .pending → Unanswered s.received sub.slot (s.projectedFor sub.index)
  ready : ∀ output, sub.cell = some (.ready (.ok output)) → FirstAnswer s.received sub.slot output
  unexpired : sub.cell ≠ some (.ready (.error .confirmationExpired))
  answered : ∀ output, sub.result = some (.ok output) → FirstAnswer s.received sub.slot output
  expiring : ∀ now, sub.phase = .expired now → sub.slot.confirmationDeadline ≤ s.now
  cutoff : ∀ cutoff, sub.cutoff = some cutoff → cutoff.cursor ≤ s.received.length ∧
    sub.slot.confirmationDeadline ≤ cutoff.time
  projected : sub.phase = .projected →
    ∃ cutoff, sub.cutoff = some cutoff ∧ cutoff.cursor ≤ s.registry.progress
  expired : sub.result = some (.error .confirmationExpired) →
    ∃ cutoff, sub.cutoff = some cutoff ∧ Unanswered s.received sub.slot cutoff.cursor

/-- What one step can do to a subscription: nothing that is decided is taken back. -/
structure Subscription.Evolves (sub later : Subscription) : Prop where
  slot : later.slot = sub.slot
  result : ∀ result, sub.result = some result → later.result = some result
  ready : ∀ result, sub.cell = some (.ready result) →
    later.cell = some (.ready result) ∨ later.cell = some .consumed ∧ later.result = some result ∨
      later.cell = none
  consumed : sub.cell = some .consumed → later.cell = some .consumed ∨ later.cell = none
  freed : sub.cell = none → later.cell = none

/-- A step sets the cutoff once, at the cursor and the time of the step and after the confirmation
deadline. -/
def Subscription.Captures (s : State) (sub later : Subscription) : Prop :=
  ∀ cutoff, later.cutoff = some cutoff → sub.cutoff = some cutoff ∨
    sub.cutoff = none ∧ cutoff = ⟨s.received.length, s.now⟩ ∧
      sub.slot.confirmationDeadline ≤ s.now

namespace Subscription

variable {s : State} {n : ℕ} {sub later last : Subscription}

theorem Evolves.refl (sub : Subscription) : Evolves sub sub :=
  ⟨rfl, fun _ h ↦ h, fun _ h ↦ .inl h, .inl, id⟩

theorem Evolves.trans (hfirst : Evolves sub later) (hsecond : Evolves later last) :
    Evolves sub last where
  slot := hsecond.slot.trans hfirst.slot
  result result hresult := hsecond.result result (hfirst.result result hresult)
  ready result hready := by
    rcases hfirst.ready result hready with hcell | ⟨hcell, hresult⟩ | hcell
    · exact hsecond.ready result hcell
    · rcases hsecond.consumed hcell with hcell | hcell
      · exact .inr (.inl ⟨hcell, hsecond.result result hresult⟩)
      · exact .inr (.inr hcell)
    · exact .inr (.inr (hsecond.freed hcell))
  consumed hconsumed := by
    rcases hfirst.consumed hconsumed with hcell | hcell
    · exact hsecond.consumed hcell
    · exact .inr (hsecond.freed hcell)
  freed hcell := hsecond.freed (hfirst.freed hcell)

/-- The step of a subscription that keeps it good, decides nothing again and keeps its bytes. -/
structure Sound (s : State) (n : ℕ) (sub later : Subscription) : Prop where
  good : later.Good s n
  evolves : Evolves sub later
  captures : Captures s sub later
  bytes : later.bytes = sub.bytes
  index : later.index = sub.index
  ended : later.phase ≠ .ended

section

variable (hgood : sub.Good s n)
include hgood

/-- A step between two places of a receive. -/
theorem Good.phase (hopen : sub.phase.Open) {phase : Phase} (hphase : phase.Open)
    (hexpired : ∀ now, phase = .expired now → sub.slot.confirmationDeadline ≤ s.now)
    (hprojected : phase = .projected → ∃ cutoff, sub.cutoff = some cutoff ∧
      cutoff.cursor ≤ s.registry.progress) :
    Sound s n sub { sub with phase } where
  good :=
    { hgood with
      registered := fun halive _ ↦ hgood.registered halive hopen.2
      freed := iff_of_false (fun h ↦ hopen.2 (hgood.freed.mp h)) hphase.2
      opened := fun _ ↦ hgood.opened hopen
      expiring := hexpired
      projected := hprojected }
  evolves := { Evolves.refl sub with }
  captures _ hcutoff := .inl hcutoff
  bytes := rfl
  index := rfl
  ended := hphase.2

/-- A receive that ends with an error of its own. -/
theorem Good.refuse (hopen : sub.phase.Open) {error : OutputEventError}
    (hexpired : error = .confirmationExpired → ∃ cutoff, sub.cutoff = some cutoff ∧
      Unanswered s.received sub.slot cutoff.cursor) :
    Sound s n sub (sub.refuse error) where
  good :=
    { hgood with
      registered := fun halive _ ↦ hgood.registered halive hopen.2
      freed := iff_of_false (fun h ↦ hopen.2 (hgood.freed.mp h)) (by simp [Subscription.refuse])
      consumed := fun _ ↦ by simp [Subscription.refuse]
      opened := fun h ↦ absurd rfl h.1
      kept := by simp [Subscription.refuse]
      answered := by simp [Subscription.refuse]
      expiring := by simp [Subscription.refuse]
      projected := by simp [Subscription.refuse]
      expired := fun h ↦ hexpired (by simpa [Subscription.refuse] using h) }
  evolves := ⟨rfl, by simp [hgood.opened hopen], fun _ h ↦ .inl h, .inl, id⟩
  captures _ hcutoff := .inl hcutoff
  bytes := rfl
  index := rfl
  ended := by simp [Subscription.refuse]

/-- A receive that looks into its cell. -/
theorem Good.take {otherwise : Subscription} (hopen : sub.phase.Open)
    (hotherwise : (∀ result, sub.cell ≠ some (.ready result)) → Sound s n sub otherwise) :
    Sound s n sub (sub.take otherwise) := by
  unfold Subscription.take
  split
  · rename_i result hcell
    have hevent := hgood.kept (hgood.opened hopen)
    refine ⟨{ hgood with
      registered := fun halive _ ↦ hgood.registered halive hopen.2
      freed := by simp
      consumed := fun _ ↦ by simp
      opened := fun h ↦ absurd rfl h.1
      kept := by simp
      pending := by simp
      ready := by simp
      unexpired := by simp
      answered := fun output houtput ↦ hgood.ready output ?_
      expiring := by simp
      projected := by simp
      expired := fun h ↦ absurd ?_ hgood.unexpired }, ?_, fun _ hcutoff ↦ .inl hcutoff, ?_, rfl,
      by simp⟩
    · rw [hcell, some.inj houtput]
    · rw [hcell, some.inj h]
    · refine ⟨rfl, by simp [hgood.opened hopen], fun other hother ↦ ?_, by simp [hcell],
        by simp [hcell]⟩
      rw [hcell] at hother
      obtain rfl : result = other := by simpa using hother
      exact .inr (.inl ⟨rfl, rfl⟩)
    · unfold Subscription.bytes
      rw [hcell, hevent]
      cases result with
      | ok output => simp [Outcome.bytes, Except.toOption]
      | error error => simp [Outcome.bytes, Except.toOption]
  · rename_i hcell
    exact hotherwise hcell

/-- The capture of a cutoff. -/
theorem Good.capture {now : ℕ} (hphase : sub.phase = .expired now) :
    Sound s n sub { sub with
      phase := .captured now
      cutoff := some (sub.cutoff.getD ⟨s.reading.cursor, s.reading.now⟩) } := by
  have hopen : sub.phase.Open := by simp [hphase, Phase.Open]
  have hresult := hgood.opened hopen
  have hcaptures : Captures s sub { sub with
      phase := .captured now
      cutoff := some (sub.cutoff.getD ⟨s.reading.cursor, s.reading.now⟩) } := by
    intro cutoff hcutoff
    cases hold : sub.cutoff with
    | some old =>
      simp only [hold, getD_some] at hcutoff
      exact .inl hcutoff
    | none =>
      simp only [hold, getD_none] at hcutoff
      exact .inr ⟨rfl, (some.inj hcutoff).symm, hgood.expiring now hphase⟩
  refine ⟨{ hgood with
    registered := fun halive _ ↦ hgood.registered halive hopen.2
    freed := iff_of_false (fun h ↦ hopen.2 (hgood.freed.mp h)) (by simp)
    opened := fun _ ↦ hresult
    expiring := by simp
    cutoff := fun cutoff hcutoff ↦ ?_
    projected := by simp
    expired := by simp [hresult] }, { Evolves.refl sub with }, hcaptures, rfl, rfl, by simp⟩
  rcases hcaptures cutoff hcutoff with hold | ⟨-, rfl, hdeadline⟩
  · exact hgood.cutoff cutoff hold
  · exact ⟨Nat.le_refl _, hdeadline⟩

/-- The cell of an open subscription is pending until it is ready. -/
theorem Good.cell_pending (hopen : sub.phase.Open)
    (hnone : ∀ result, sub.cell ≠ some (.ready result)) : sub.cell = some .pending := by
  cases hcell : sub.cell with
  | none => exact absurd (hgood.freed.mp hcell) hopen.2
  | some outcome =>
    cases outcome with
    | pending => rfl
    | ready result => exact absurd hcell (hnone result)
    | consumed => exact absurd (hgood.opened hopen) (hgood.consumed hcell)

/-- Every step of a receive is sound. -/
theorem receive_sound (hreceive : sub.receive s.reading = some later) : Sound s n sub later := by
  unfold receive at hreceive
  cases hphase : sub.phase <;> simp only [hphase, Option.some.injEq, reduceCtorEq] at hreceive
  all_goals
    have hopen : sub.phase.Open := by simp [hphase, Phase.Open]
    subst hreceive
  case polling =>
    exact hgood.take hopen fun _ ↦
      hgood.phase hopen (by simp [Phase.Open]) (by simp) (by simp)
  case polled =>
    split
    · exact hgood.refuse hopen (by simp)
    · exact hgood.phase hopen (by simp [Phase.Open]) (by simp) (by simp)
  case current =>
    split
    · exact hgood.phase hopen (by simp [Phase.Open]) (by simp) (by simp)
    · exact hgood.refuse hopen (by simp)
  case live =>
    split_ifs with hdeadline
    · exact hgood.phase hopen (by simp [Phase.Open]) (fun _ _ ↦ hdeadline) (by simp)
    · exact hgood.phase hopen (by simp [Phase.Open]) (by simp) (by simp)
  case expired now => exact hgood.capture hphase
  case captured now =>
    split_ifs with hcursor
    · refine hgood.phase hopen (by simp [Phase.Open]) (by simp) fun _ ↦ ?_
      cases hcutoff : sub.cutoff with
      | none => simp [hcutoff] at hcursor
      | some cutoff =>
        rw [hcutoff, any_some] at hcursor
        exact ⟨cutoff, rfl, of_decide_eq_true hcursor⟩
    · exact hgood.phase hopen (by simp [Phase.Open]) (by simp) (by simp)
  case projected =>
    refine hgood.take hopen fun hnone ↦ hgood.refuse hopen fun _ ↦ ?_
    obtain ⟨cutoff, hcutoff, hle⟩ := hgood.projected hphase
    exact ⟨cutoff, hcutoff, (hgood.pending (hgood.cell_pending hopen hnone)).mono
      (Nat.le_trans hle (s.progress_le_projectedFor sub.index))⟩
  case unexpired now =>
    split
    · exact hgood.refuse hopen (by simp)
    · exact hgood.phase hopen (by simp [Phase.Open]) (by simp) (by simp)
  case closed => exact hgood.take hopen fun _ ↦ hgood.refuse hopen (by simp)

end

end Subscription

end ObsMcp.Outputs
