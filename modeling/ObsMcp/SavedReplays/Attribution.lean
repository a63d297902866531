import ObsMcp.SavedReplays.Cells

/-!
# Whose replay was saved

The law of the saved replay observations, over every run of the registry
(`saved_replay_attribution`). A confirmation that succeeds has seen exactly one saved event of its
subscription, and its path is the one it expects. After a second event, an event without a path, or
a revocation, no call on the subscription gets a path. A dropped subscription frees its own slot.

A confirmation waits for its event, so the event may be received after the confirmation has started
(`confirmation_of_later_event`).
-/

namespace ObsMcp.SavedReplays

open Foundations List Option
open Outputs (ObsEvent Numbered)

namespace State

variable {s t : State}

/-! ### Subscriptions -/

variable {call : Call} {k n : ℕ} {sub : Subscription}

theorem running_of_quiet (hquiet : s.quiet = true) (hcall : s.calls[k]? = some call) :
    ¬ call.Running := by
  unfold quiet at hquiet
  have hdone := all_eq_true.mp hquiet call (mem_of_getElem? hcall)
  rintro ⟨hcancelled, hreturned⟩
  cases hphase : call.phase with
  | cancelled => exact hcancelled hphase
  | returned result => exact hreturned result hphase
  | draining => simp [hphase] at hdone
  | checking => simp [hphase] at hdone
  | polling => simp [hphase] at hdone
  | waiting => simp [hphase] at hdone

theorem dropRegistry_good (hgood : s.Good) (hquiet : s.quiet = true) (hfree : s.holder = .free) :
    Good { s with alive := false, slots := List.replicate slotCount none } ∧
      s.Evolves { s with alive := false, slots := List.replicate slotCount none } := by
  refine ⟨⟨hgood.numbered, hgood.connected, hgood.published, hgood.progress, hgood.holder,
    (fun hlocked ↦ absurd hfree hlocked), length_replicate, ?_, ?_, ?_⟩,
    evolves_of_eq rfl rfl fun h ↦ by cases h⟩
  · intro n sub hsub
    exact subscription_good (hgood.subscriptions n sub hsub) (fun h ↦ by cases h)
      (fun h ↦ by cases h) (fun h ↦ by cases h) (fun h ↦ by cases h)
  · intro halive
    cases halive
  · intro k call hcall
    obtain ⟨sub, hsub, hold⟩ := hgood.calls k call hcall
    have hrunning := running_of_quiet hquiet hcall
    exact ⟨sub, hsub, call_good hold (.refl sub) (fun h ↦ absurd h hrunning)
      (fun h ↦ absurd h hrunning) (Nat.le_refl _) (append_nil _).symm⟩

theorem subscribe_good (hgood : s.Good) (halive : s.alive = true) (hfree : s.holder = .free)
    {deadline : ℕ} (hsubscribe : s.subscribe deadline = .ok t) : t.Good ∧ s.Evolves t := by
  unfold subscribe at hsubscribe
  split_ifs at hsubscribe with hlive
  split at hsubscribe
  · cases hsubscribe
  · cases hsubscribe
  · rename_i index id hindex hid
    obtain ⟨hlt, hnone, -⟩ := findIdx?_eq_some_iff_getElem.mp hindex
    have hvacant : s.slots[index]? = some none := by
      rw [getElem?_eq_getElem hlt, isNone_iff_eq_none.mp hnone]
    have hon : s.active = true := by
      simp only [Bool.or_eq_true, Bool.not_eq_true', not_or, Bool.not_eq_false] at hlive
      exact hlive.1.1
    cases hsubscribe
    have hprefix : ∀ {n : ℕ} {sub : Subscription}, s.subscriptions[n]? = some sub →
        (s.subscriptions ++ [⟨index, id, deadline, .new, 0, false⟩])[n]? = some sub := by
      intro n sub hsub
      rw [getElem?_append_left (List.getElem?_eq_some_iff.mp hsub).1]
      exact hsub
    refine ⟨⟨hgood.numbered, hgood.connected, hgood.published, hgood.progress, ?_, hgood.locked,
      ?_, ?_, ?_, ?_⟩, ⟨fun _ ↦ halive, fun n sub hsub ↦ ⟨sub, hprefix hsub, .refl sub⟩,
        fun _ _ _ hcall _ ↦ .inl hcall⟩⟩
    · have hholder := hgood.holder
      unfold HolderGood at hholder ⊢
      simpa only [hfree] using hholder
    · simp only [length_set]
      exact hgood.length
    · intro n sub hsub
      rcases getElem?_concat_cases hsub with hsub | ⟨rfl, rfl⟩
      · have hold := hgood.subscriptions n sub hsub
        refine subscription_good hold (fun _ ↦ halive) ?_ (fun _ _ ↦ rfl) (fun _ _ h ↦ h)
        intro _ hdropped
        have hthere := hold.registered halive hdropped
        simp only
        rw [getElem?_set_ne]
        rintro rfl
        cases hvacant.symm.trans hthere
      · refine ⟨rfl, ?_, ?_, ?_⟩
        · intro _ _
          exact getElem?_set_self hlt
        · intro _ _
          have hnothing : ∀ events : List ObsEvent,
              events.filter (Cell.new.selects deadline) = [] := by
            intro events
            simp [filter_eq_nil_iff, Cell.selects, Cell.new]
          refine ⟨?_, (fun _ hpath ↦ by cases hpath), ?_⟩
          · rw [hnothing]
            rfl
          · rw [hnothing]
            simp
        · rintro - - ⟨hoff, -⟩
          cases hon.symm.trans hoff
    · intro _ i slot hslot
      rcases getElem?_set_cases hslot with ⟨rfl, hsame⟩ | ⟨-, hslot⟩
      · cases hsame
        exact ⟨⟨index, id, deadline, .new, 0, false⟩, by simp, rfl, rfl, rfl, rfl⟩
      · obtain ⟨sub, hsub, hrest⟩ := hgood.owner halive i slot hslot
        exact ⟨sub, hprefix hsub, hrest⟩
    · intro k call hcall
      obtain ⟨sub, hsub, hold⟩ := hgood.calls k call hcall
      exact ⟨sub, hprefix hsub, call_good hold (.refl sub) (fun _ ↦ rfl) (fun _ ↦ rfl)
        (Nat.le_refl _) (append_nil _).symm⟩

theorem live_eq_some (hlive : s.live n = some sub) :
    s.subscriptions[n]? = some sub ∧ sub.dropped = false := by
  unfold live at hlive
  simpa [filter_eq_some_iff] using hlive

theorem arm_good (hgood : s.Good) (halive : s.alive = true) (hfree : s.holder = .free)
    (hlive : s.live n = some sub) (harm : s.arm n sub = .ok t) : t.Good ∧ s.Evolves t := by
  obtain ⟨hsub, hdropped⟩ := live_eq_some hlive
  have hholder := hgood.holder
  unfold HolderGood at hholder
  simp only [hfree] at hholder
  unfold arm at harm
  split_ifs at harm with hready harmed
  have hon : s.active = true := by
    simp only [Bool.or_eq_true, Bool.not_eq_true', not_or, Bool.not_eq_false] at hready
    exact hready.1.1
  cases harm
  have hle := Nat.le_trans hgood.progress hgood.published
  refine hgood.around ⟨rfl, rfl, rfl, rfl, ⟨[], by simp⟩, Nat.le_refl _, ?_, ?_⟩ hgood.numbered
    hgood.connected hgood.published hgood.progress
    ⟨hon, hholder hon, hle, sub, hsub, hdropped, by simpa using harmed⟩ (fun _ ↦ halive)
  · intro index _
    simp [publishedFor, hfree]
  · rintro index - ⟨hoff, -⟩
    cases hon.symm.trans hoff

theorem stamp_good (hgood : s.Good) (hstamp : s.stamp = some t) : t.Good ∧ s.Evolves t := by
  unfold stamp at hstamp
  cases hheld : s.holder with
  | free => simp [hheld] at hstamp
  | publishing event next => simp [hheld] at hstamp
  | revoking next => simp [hheld] at hstamp
  | arming n after =>
    simp only [hheld] at hstamp
    have halive := hgood.locked (by simp [hheld])
    have hholder := hgood.holder
    unfold HolderGood at hholder
    simp only [hheld] at hholder
    obtain ⟨hon, hcurrent, hafter, sub, hsub, hdropped, hunarmed⟩ := hholder
    have hold := hgood.subscriptions n sub hsub
    have hslot := hold.registered halive hdropped
    have hevents : s.eventsFor sub.index = s.received.take s.progress := by
      simp [eventsFor, publishedFor, hheld]
    have hearlier : ∀ event ∈ s.received.take s.progress, event.sequence ≤ after := by
      intro event hmem
      obtain ⟨i, hi⟩ := mem_iff_getElem?.mp hmem
      have hlt := (List.getElem?_eq_some_iff.mp hi).1
      rw [length_take] at hlt
      rw [getElem?_take_of_lt (by omega)] at hi
      rw [hgood.numbered i event hi]
      omega
    have htracks := hold.tracks halive hdropped
    rw [hevents] at htracks
    have harms : sub.arms + 1 =
        if { sub.cell with armed := some (after, s.now) }.armed.isSome then 1 else 0 := by
      rw [hold.arms, hunarmed]
      rfl
    have hevolve : sub.Evolves { sub with
        cell := { sub.cell with armed := some (after, s.now) }, arms := sub.arms + 1 } :=
      ⟨rfl, fun harmed ↦ absurd hunarmed harmed, fun hissue ↦ hissue, fun h ↦ h⟩
    rw [modify_eq_set_getElem?, hsub] at hstamp
    refine hgood.touched hsub rfl halive harms hevolve (some.inj hstamp).symm hslot
      ?_ ?_ ?_ ?_ ?_
    all_goals cases hstamp
    · exact fun _ ↦ hcurrent
    · intro other _
      simp [publishedFor, hheld]
    · rintro other - ⟨hoff, -⟩
      cases hon.symm.trans hoff
    · exact htracks.arm hunarmed hearlier s.now
    · rintro ⟨hoff, -⟩
      cases hon.symm.trans hoff

/-- A call stays good when the subscriptions and the connection stay. -/
theorem call_good_of_eq (hgood : call.Good s sub) (halive : t.alive = s.alive)
    (hprogress : t.progress = s.progress) (hreceived : t.received = s.received) : call.Good t sub :=
  call_good hgood (.refl sub) (fun _ ↦ halive) (fun _ ↦ rfl) (Nat.le_of_eq hprogress.symm)
    (by rw [hreceived, append_nil])

/-- The slot of a subscription that is not dropped is its own, and so it is freed. -/
theorem release_own (hgood : s.Good) (halive : s.alive = true) (hlive : s.live n = some sub) :
    s.release sub.index sub.id = s.slots.set sub.index none := by
  obtain ⟨hsub, hdropped⟩ := live_eq_some hlive
  unfold release
  simp [(hgood.subscriptions n sub hsub).registered halive hdropped]

theorem running_of_idle (hidle : s.idle n = true) (hcall : s.calls[k]? = some call)
    (hrunning : call.Running) : call.subscription ≠ n := by
  unfold idle at hidle
  have hdone := all_eq_true.mp hidle call (mem_of_getElem? hcall)
  obtain ⟨hcancelled, hreturned⟩ := hrunning
  rintro rfl
  cases hphase : call.phase with
  | cancelled => exact hcancelled hphase
  | returned result => exact hreturned result hphase
  | draining => simp [hphase] at hdone
  | checking => simp [hphase] at hdone
  | polling => simp [hphase] at hdone
  | waiting => simp [hphase] at hdone

theorem drop_good (hgood : s.Good) (hlive : s.live n = some sub) (hidle : s.idle n = true)
    (hfree : s.alive = true → s.holder = .free) :
    (s.drop n sub).Good ∧ s.Evolves (s.drop n sub) := by
  obtain ⟨hsub, hdropped⟩ := live_eq_some hlive
  have hold := hgood.subscriptions n sub hsub
  have hlt := (List.getElem?_eq_some_iff.mp hsub).1
  have hunlocked : s.holder = .free := by
    by_contra hheld
    exact hheld (hfree (hgood.locked hheld))
  have hsubs : (s.drop n sub).subscriptions =
      s.subscriptions.set n { sub with dropped := true } := by
    simp only [drop]
    rw [modify_eq_set_getElem?, hsub]
    rfl
  have hself : (s.drop n sub).subscriptions[n]? = some { sub with dropped := true } := by
    rw [hsubs, getElem?_set_self hlt]
  have hother : ∀ m, m ≠ n → (s.drop n sub).subscriptions[m]? = s.subscriptions[m]? := by
    intro m hm
    rw [hsubs, getElem?_set_ne (Ne.symm hm)]
  have hslots : s.alive = true → (s.drop n sub).slots = s.slots.set sub.index none := by
    intro halive
    simp only [State.drop, halive, if_true]
    exact release_own hgood halive hlive
  have hkeep : s.alive = false → (s.drop n sub).slots = s.slots := by
    intro halive
    simp [drop, halive]
  refine ⟨⟨hgood.numbered, hgood.connected, hgood.published, hgood.progress, ?_, hgood.locked, ?_,
    ?_, ?_, ?_⟩, fun halive ↦ halive, ?_, fun _ _ _ hcall _ ↦ .inl hcall⟩
  · have hholder := hgood.holder
    unfold HolderGood at hholder ⊢
    simpa only [drop, hunlocked] using hholder
  · cases halive : s.alive with
    | true => rw [hslots halive, length_set, hgood.length]
    | false => rw [hkeep halive, hgood.length]
  · intro m found hfound
    by_cases hm : m = n
    · subst hm
      cases hself.symm.trans hfound
      exact ⟨hold.arms, (fun _ h ↦ by cases h), (fun _ h ↦ by cases h), fun _ h ↦ by cases h⟩
    · rw [hother m hm] at hfound
      have hfoundGood := hgood.subscriptions m found hfound
      refine subscription_good hfoundGood (fun halive ↦ halive) ?_ (fun _ _ ↦ rfl) (fun _ _ h ↦ h)
      intro halive hpresent
      have hthere := hfoundGood.registered halive hpresent
      rw [hslots halive, getElem?_set_ne]
      intro heq
      rw [← heq, hold.registered halive hdropped, Option.some.injEq, Option.some.injEq] at hthere
      exact hm (congrArg Slot.cell hthere).symm
  · intro (halive : s.alive = true) i slot hslot
    rw [hslots halive] at hslot
    rcases getElem?_set_cases hslot with ⟨-, hnone⟩ | ⟨hi, hslot⟩
    · cases hnone
    · obtain ⟨owner, howner, hindex, hrest⟩ := hgood.owner halive i slot hslot
      refine ⟨owner, (hother _ fun hcell ↦ hi ?_).trans howner, hindex, hrest⟩
      rw [hcell] at howner
      rw [some.inj (hsub.symm.trans howner), hindex]
  · intro k call hcall
    obtain ⟨found, hfound, hcallGood⟩ := hgood.calls k call hcall
    by_cases hm : call.subscription = n
    · have hrunning : ¬ call.Running := fun h ↦ running_of_idle hidle hcall h hm
      rw [hm] at hfound ⊢
      cases hsub.symm.trans hfound
      exact ⟨_, hself, call_good hcallGood ⟨rfl, fun _ ↦ rfl, fun h ↦ h, fun _ ↦ rfl⟩
        (fun h ↦ absurd h hrunning) (fun h ↦ absurd h hrunning) (Nat.le_refl _)
        (append_nil _).symm⟩
    · exact ⟨found, (hother _ hm).trans hfound, call_good hcallGood (.refl found) (fun _ ↦ rfl)
        (fun _ ↦ rfl) (Nat.le_refl _) (append_nil _).symm⟩
  · intro m found hfound
    by_cases hm : m = n
    · subst hm
      cases hsub.symm.trans hfound
      exact ⟨_, hself, rfl, fun _ ↦ rfl, fun h ↦ h, fun _ ↦ rfl⟩
    · exact ⟨found, (hother m hm).trans hfound, .refl found⟩

/-! ### Calls -/

/-- A new call. -/
theorem started_good (hgood : s.Good) (hlive : s.live n = some sub) {expected : Option String}
    {phase : Phase} (hrunning : ∀ result, phase ≠ .returned result)
    (hdrained : expected ≠ none → ¬ phase.Drained) :
    (s.call n expected phase).Good ∧ s.Evolves (s.call n expected phase) := by
  obtain ⟨hsub, hdropped⟩ := live_eq_some hlive
  have hnew : ∀ (k : ℕ) (call : Call), (s.call n expected phase).calls[k]? = some call →
      s.calls[k]? = some call ∨ call = ⟨n, expected, s.cursor,
        if s.alive then phase else .returned (.error "Replay observer ended"), 0⟩ := by
    intro k call hcall
    unfold State.call at hcall
    exact (getElem?_concat_cases hcall).imp_right And.right
  have hpath : ∀ path, (if s.alive then phase else .returned (.error "Replay observer ended")) ≠
      .returned (.ok path) := by
    intro path
    split_ifs
    · exact hrunning _
    · simp
  refine ⟨⟨hgood.numbered, hgood.connected, hgood.published, hgood.progress, hgood.holder,
    hgood.locked, hgood.length, ?_, hgood.owner, ?_⟩, fun halive ↦ halive, ?_, ?_⟩
  · intro m found hfound
    exact { hgood.subscriptions m found hfound with }
  · intro k call hcall
    rcases hnew k call hcall with hcall | rfl
    · obtain ⟨found, hfound, hold⟩ := hgood.calls k call hcall
      exact ⟨found, hfound, call_good_of_eq hold rfl rfl rfl⟩
    · refine ⟨sub, hsub, ?_, ?_, fun path h ↦ absurd h (hpath path)⟩
      · rintro ⟨-, hopen⟩
        cases halive : s.alive with
        | true => exact ⟨halive, hdropped⟩
        | false =>
          simp only [halive] at hopen
          exact absurd rfl (hopen _)
      · intro hconfirm hphase
        simp only at hconfirm hphase
        split_ifs at hphase
        · exact absurd hphase (hdrained hconfirm)
        · exact hphase.elim
  · intro m found hfound
    exact ⟨found, hfound, .refl found⟩
  · intro k call path hcall hreturned
    rcases hnew k call hcall with hcall | rfl
    · exact .inl hcall
    · exact absurd hreturned (hpath path)

/-- A step of one call. Assumes: it stays with its subscription, stays good, and gets a path only
from a cell without an issue. -/
theorem Good.moved (hgood : s.Good) {next : Call} (hcall : s.calls[k]? = some call)
    (hsame : next.subscription = call.subscription)
    (hnext : ∀ sub : Subscription, s.subscriptions[call.subscription]? = some sub →
      call.Good s sub → next.Good s sub ∧
        ((∃ path, next.phase = .returned (.ok path)) → sub.Open s)) :
    Good { s with calls := s.calls.set k next } ∧
      s.Evolves { s with calls := s.calls.set k next } := by
  have hlt := (List.getElem?_eq_some_iff.mp hcall).1
  obtain ⟨sub, hsub, hold⟩ := hgood.calls k call hcall
  obtain ⟨hnextGood, hissue⟩ := hnext sub hsub hold
  refine ⟨⟨hgood.numbered, hgood.connected, hgood.published, hgood.progress, hgood.holder,
    hgood.locked, hgood.length, ?_, hgood.owner, ?_⟩, fun halive ↦ halive, ?_, ?_⟩
  · intro m found hfound
    exact { hgood.subscriptions m found hfound with }
  · intro j other hother
    rcases getElem?_set_cases hother with ⟨rfl, rfl⟩ | ⟨-, hother⟩
    · exact ⟨sub, hsame ▸ hsub, call_good_of_eq hnextGood rfl rfl rfl⟩
    · obtain ⟨found, hfound, hfoundGood⟩ := hgood.calls j other hother
      exact ⟨found, hfound, call_good_of_eq hfoundGood rfl rfl rfl⟩
  · intro m found hfound
    exact ⟨found, hfound, .refl found⟩
  · intro j other path hother hreturned
    rcases getElem?_set_cases hother with ⟨rfl, rfl⟩ | ⟨-, hother⟩
    · refine .inr fun found hfound ↦ ?_
      rw [hsame, hsub, Option.some.injEq] at hfound
      subst hfound
      exact hissue ⟨path, hreturned⟩
    · exact .inl hother

theorem move_eq_some {step : Call → Option Call} (hmove : s.move k step = some t) :
    ∃ call next, s.calls[k]? = some call ∧ step call = some next ∧
      t = { s with calls := s.calls.set k next } := by
  unfold move at hmove
  obtain ⟨next, hnext, rfl⟩ := map_eq_some_iff.mp hmove
  obtain ⟨call, hcall, hstep⟩ := bind_eq_some_iff.mp hnext
  exact ⟨call, next, hcall, hstep, rfl⟩

section

variable (hgood : s.Good) (hcall : s.calls[k]? = some call)
include hgood hcall

/-- A step of a call that returns no path. -/
theorem Good.stepped {phase : Phase} (hrunning : call.Running)
    (hphase : ∀ path, phase ≠ .returned (.ok path))
    (hdrained : call.expected ≠ none → phase.Drained → call.cursor ≤ s.progress) :
    Good { s with calls := s.calls.set k { call with phase } } ∧
      s.Evolves { s with calls := s.calls.set k { call with phase } } := by
  refine hgood.moved hcall rfl fun sub _ hold ↦ ⟨⟨fun _ ↦ hold.running hrunning, hdrained, ?_⟩, ?_⟩
  · intro path hreturned
    exact absurd hreturned (hphase path)
  · rintro ⟨path, hreturned⟩
    exact absurd hreturned (hphase path)

theorem proceed_good {next : Call}
    (hproceed : (s.live call.subscription).bind (s.proceed call) = some next) :
    Good { s with calls := s.calls.set k next } ∧
      s.Evolves { s with calls := s.calls.set k next } := by
  obtain ⟨sub, hlive, hproceed⟩ := bind_eq_some_iff.mp hproceed
  obtain ⟨hsub, hdropped⟩ := live_eq_some hlive
  obtain ⟨found, hfound, hold⟩ := hgood.calls k call hcall
  cases hsub.symm.trans hfound
  unfold proceed at hproceed
  cases hphase : call.phase with
  | returned result => simp [hphase] at hproceed
  | cancelled => simp [hphase] at hproceed
  | waiting => simp [hphase] at hproceed
  | draining =>
    simp only [hphase] at hproceed
    split_ifs at hproceed with hcursor
    cases hproceed
    exact hgood.stepped hcall (by simp [Call.Running, hphase]) (by simp) fun _ _ ↦ hcursor
  | checking =>
    simp only [hphase, Option.some.injEq] at hproceed
    subst hproceed
    refine hgood.stepped hcall (by simp [Call.Running, hphase]) ?_ ?_
    · intro path
      split_ifs <;> simp
    · intro hconfirm _
      exact hold.drained hconfirm (by simp [hphase, Phase.Drained])
  | polling =>
    simp only [hphase, Option.some.injEq] at hproceed
    subst hproceed
    have hrunning : call.Running := by simp [Call.Running, hphase]
    have halive := (hold.running hrunning).1
    have hdrained : call.expected ≠ none → call.cursor ≤ s.progress := by
      intro hconfirm
      exact hold.drained hconfirm (by simp [hphase, Phase.Drained])
    have hsubGood := hgood.subscriptions _ sub hsub
    unfold poll
    split
    · exact hgood.stepped hcall hrunning (by simp) fun hconfirm _ ↦ hdrained hconfirm
    · rename_i path hissue hpath
      split_ifs with hexpected
      · refine hgood.moved hcall rfl fun other hother _ ↦ ?_
        cases hsub.symm.trans hother
        refine ⟨⟨fun _ ↦ ⟨halive, hdropped⟩, fun hconfirm _ ↦ hdrained hconfirm, ?_⟩,
          fun _ ↦ ⟨hissue, hdropped, halive⟩⟩
        intro returned hreturned
        obtain rfl := Except.ok.inj (Phase.returned.inj hreturned)
        obtain ⟨event, honly, hsaved⟩ := (hsubGood.tracks halive hdropped).path path hpath
        refine ⟨?_, ?_, ?_, hgood.publishedFor_le _, event, honly, hsaved⟩
        · intro hunarmed
          have hmem : event ∈ [event] := mem_singleton.mpr rfl
          rw [← honly, mem_filter] at hmem
          simp [Cell.selects, hunarmed] at hmem
        · intro expected hsome
          rw [show call.expected = some expected from hsome] at hexpected
          simpa using hexpected
        · intro hconfirm
          exact Nat.le_trans (hdrained hconfirm) (s.progress_le_publishedFor _)
      · exact hgood.stepped hcall hrunning (by simp) fun hconfirm _ ↦ hdrained hconfirm
    · exact hgood.stepped hcall hrunning (by simp) fun hconfirm _ ↦ hdrained hconfirm

theorem expire_good {next : Call}
    (hexpire : (s.live call.subscription).bind (s.expire call) = some next) :
    Good { s with calls := s.calls.set k next } ∧
      s.Evolves { s with calls := s.calls.set k next } := by
  obtain ⟨sub, -, hexpire⟩ := bind_eq_some_iff.mp hexpire
  unfold expire at hexpire
  split_ifs at hexpire
  split at hexpire
  · rename_i hphase
    cases hexpire
    exact hgood.stepped hcall (by simp [Call.Running, hphase]) (by simp) fun _ h ↦ h.elim
  · rename_i hphase
    cases hexpire
    exact hgood.stepped hcall (by simp [Call.Running, hphase]) (by simp) fun _ h ↦ h.elim
  · cases hexpire

end

/-! ### Runs -/

theorem of_locking {next : Option State} (hlocking : s.locking next = some t) :
    s.holder = .free ∧ next = some t := by
  unfold locking at hlocking
  split at hlocking
  · rename_i hfree
    exact ⟨hfree, hlocking⟩
  · cases hlocking

theorem act_good (hgood : s.Good) {label : Label} (hact : s.act label = some t) :
    t.Good ∧ s.Evolves t := by
  cases label with
  | tick elapsed =>
    cases hact
    exact tick_good hgood elapsed
  | receipt eventType data receivedAt =>
    cases hact
    exact receipt_good hgood eventType data receivedAt
  | invalidate =>
    cases hact
    exact invalidate_good hgood
  | publish =>
    simp only [act] at hact
    split_ifs at hact with halive
    obtain ⟨hfree, hpublish⟩ := of_locking hact
    exact publish_good hgood halive hfree hpublish
  | publishSlot => exact publishSlot_good hgood hact
  | revoke =>
    simp only [act] at hact
    split_ifs at hact with halive
    obtain ⟨hfree, hrevoke⟩ := of_locking hact
    cases hrevoke
    exact revoke_good hgood halive hfree
  | revokeSlot => exact revokeSlot_good hgood hact
  | dropRegistry =>
    simp only [act] at hact
    split_ifs at hact with hquiet
    obtain ⟨hfree, hdrop⟩ := of_locking hact
    cases hdrop
    exact dropRegistry_good hgood hquiet hfree
  | subscribe deadline =>
    simp only [act] at hact
    split_ifs at hact with halive
    obtain ⟨hfree, hsubscribe⟩ := of_locking hact
    cases hresult : s.subscribe deadline with
    | error message =>
      rw [hresult] at hsubscribe
      cases hsubscribe
    | ok next =>
      rw [hresult] at hsubscribe
      cases hsubscribe
      exact subscribe_good hgood halive hfree hresult
  | arm n =>
    simp only [act] at hact
    split_ifs at hact with halive
    obtain ⟨sub, hlive, hact⟩ := bind_eq_some_iff.mp hact
    obtain ⟨hfree, harm⟩ := of_locking hact
    cases hresult : s.arm n sub with
    | error message =>
      rw [hresult] at harm
      cases harm
    | ok next =>
      rw [hresult] at harm
      cases harm
      exact arm_good hgood halive hfree hlive hresult
  | stamp => exact stamp_good hgood hact
  | candidate n =>
    obtain ⟨sub, hlive, rfl⟩ := map_eq_some_iff.mp hact
    exact started_good hgood hlive (by simp) fun h ↦ absurd rfl h
  | confirm n expected =>
    obtain ⟨sub, hlive, rfl⟩ := map_eq_some_iff.mp hact
    exact started_good hgood hlive (by simp) fun _ h ↦ h
  | proceed k =>
    obtain ⟨call, next, hcall, hstep, rfl⟩ := move_eq_some hact
    exact proceed_good hgood hcall hstep
  | wake k =>
    obtain ⟨call, next, hcall, hstep, rfl⟩ := move_eq_some hact
    split at hstep
    · rename_i hphase
      cases hstep
      obtain ⟨sub, -, hold⟩ := hgood.calls k call hcall
      exact hgood.stepped hcall (by simp [Call.Running, hphase]) (by simp) fun hconfirm _ ↦
        hold.drained hconfirm (by simp [hphase, Phase.Drained])
    · cases hstep
  | expire k =>
    obtain ⟨call, next, hcall, hstep, rfl⟩ := move_eq_some hact
    exact expire_good hgood hcall hstep
  | cancel k =>
    obtain ⟨call, next, hcall, hstep, rfl⟩ := move_eq_some hact
    split at hstep
    · cases hstep
    · cases hstep
      refine hgood.moved hcall rfl fun sub _ _ ↦ ⟨⟨?_, fun _ h ↦ h.elim, by simp⟩, by simp⟩
      rintro ⟨hcancelled, -⟩
      exact absurd rfl hcancelled
  | drop n =>
    obtain ⟨sub, hlive, hact⟩ := bind_eq_some_iff.mp hact
    split_ifs at hact with hidle halive
    · obtain ⟨hfree, hdrop⟩ := of_locking hact
      cases hdrop
      exact drop_good hgood hlive hidle fun _ ↦ hfree
    · cases hact
      exact drop_good hgood hlive hidle fun h ↦ absurd h halive

theorem initial_good (token : ℕ) : (initial token).Good where
  numbered i event hevent := by simp [initial] at hevent
  connected event hevent := by simp [initial] at hevent
  published := Nat.le_refl _
  progress := Nat.le_refl _
  holder _ := rfl
  locked h := absurd rfl h
  length := length_replicate
  subscriptions n sub hsub := by simp [initial] at hsub
  owner _ i slot hslot := by
    simp only [initial, getElem?_replicate] at hslot
    split_ifs at hslot
    cases some.inj hslot
  calls k call hcall := by simp [initial] at hcall

theorem good_of_reachable {token : ℕ} (hs : (machine token).Reachable s) : s.Good :=
  Machine.invariant_of_step Good (fun u (hu : u = initial token) ↦ hu ▸ initial_good token)
    (fun _ _ _ _ hgood hstep ↦ (act_good hgood hstep).1) hs

/-- The saved events a subscription is armed for, up to a sequence. -/
def savedFor (s : State) (sub : Subscription) (upTo : ℕ) : List ObsEvent :=
  s.received.filter fun event ↦
    sub.cell.selects sub.deadline event && decide (event.sequence ≤ upTo)

/-- The events up to a sequence are the first ones. -/
theorem savedFor_eq (hnumbered : Numbered s.received) (sub : Subscription) (upTo : ℕ) :
    s.savedFor sub upTo = (s.received.take upTo).filter (sub.cell.selects sub.deadline) := by
  unfold savedFor
  have hsplit := take_append_drop upTo s.received
  have hfirst : ∀ event ∈ s.received.take upTo, event.sequence ≤ upTo := by
    intro event hmem
    obtain ⟨i, hi⟩ := mem_iff_getElem?.mp hmem
    have hlt := (List.getElem?_eq_some_iff.mp hi).1
    rw [length_take] at hlt
    rw [getElem?_take_of_lt (by omega)] at hi
    rw [hnumbered i event hi]
    omega
  have hrest : ∀ event ∈ s.received.drop upTo, ¬ event.sequence ≤ upTo := by
    intro event hmem
    obtain ⟨i, hi⟩ := mem_iff_getElem?.mp hmem
    rw [getElem?_drop] at hi
    rw [hnumbered _ event hi]
    omega
  conv_lhs => rw [← hsplit]
  rw [filter_append]
  have hnone : (s.received.drop upTo).filter (fun event ↦
      sub.cell.selects sub.deadline event && decide (event.sequence ≤ upTo)) = [] := by
    rw [filter_eq_nil_iff]
    intro event hmem hselects
    exact hrest event hmem (of_decide_eq_true (Bool.and_eq_true_iff.mp hselects).2)
  rw [hnone, append_nil]
  refine filter_congr fun event hmem ↦ ?_
  rw [decide_eq_true (hfirst event hmem), Bool.and_true]

/-- What ends the attribution of a subscription: two saved events, one without a path, or a
revocation. -/
def Spoiled (s : State) (sub : Subscription) : Prop :=
  2 ≤ (s.savedFor sub s.progress).length ∨
    (∃ event ∈ s.savedFor sub s.progress, savedPath event = none) ∨
      s.active = false ∧ s.holder = .free

theorem Spoiled.not_open (hgood : s.Good) (hsub : s.subscriptions[n]? = some sub)
    (hspoiled : s.Spoiled sub) : ¬ sub.Open s := by
  rintro ⟨hissue, hdropped, halive⟩
  have hold := hgood.subscriptions n sub hsub
  obtain ⟨hshort, hvalid⟩ := (hold.tracks halive hdropped).issue hissue
  have hsublist : (s.savedFor sub s.progress).Sublist
      ((s.eventsFor sub.index).filter (sub.cell.selects sub.deadline)) := by
    rw [savedFor_eq hgood.numbered]
    exact (take_prefix_take_left (s.progress_le_publishedFor sub.index)).sublist.filter _
  rcases hspoiled with htwo | ⟨event, hmem, hinvalid⟩ | ⟨hoff, hfree⟩
  · have := hsublist.length_le
    omega
  · exact hvalid event (hsublist.subset hmem) hinvalid
  · refine hold.revoked halive hdropped ⟨hoff, fun next hnext ↦ ?_⟩ hissue
    cases hfree.symm.trans hnext

/-- A subscription that is not open stays so. -/
theorem Evolves.closed (hevolves : s.Evolves t) {later : Subscription}
    (hsub : s.subscriptions[n]? = some sub) (hlater : t.subscriptions[n]? = some later)
    (hclosed : ¬ sub.Open s) : ¬ later.Open t := by
  obtain ⟨found, hfound, hevolve⟩ := hevolves.subscriptions n sub hsub
  cases hlater.symm.trans hfound
  rintro ⟨hissue, hdropped, halive⟩
  refine hclosed ⟨?_, ?_, hevolves.alive halive⟩
  · by_contra hsome
    exact hevolve.issue hsome hissue
  · by_contra hgone
    have := hevolve.dropped (by simpa using hgone)
    cases hdropped.symm.trans this

/-- After a subscription is not open, no call on it gets a path. -/
theorem no_path_of_closed {token : ℕ} {run : List (Label × State)}
    (hrun : (machine token).Run s run) (hgood : s.Good) (hsub : s.subscriptions[n]? = some sub)
    (hclosed : ¬ sub.Open s) {path : String} (hcall : (Machine.last s run).calls[k]? = some call)
    (hn : call.subscription = n) (hpath : call.phase = .returned (.ok path)) :
    s.calls[k]? = some call := by
  induction hrun generalizing sub with
  | nil s => exact hcall
  | @cons s u label rest hstep _ ih =>
    obtain ⟨hnext, hevolves⟩ := act_good hgood hstep
    obtain ⟨later, hlater, -⟩ := hevolves.subscriptions n sub hsub
    have hthere := ih hnext hlater (hevolves.closed hsub hlater hclosed) hcall
    rcases hevolves.calls k call path hthere hpath with hbefore | hopen
    · exact hbefore
    · exact absurd (hopen sub (hn ▸ hsub)) hclosed

end State

open State in
/-- The law of the saved replay observations. A confirmation that succeeds belongs to a subscription
that was armed once; up to a sequence that the call found published, which is at least the cursor it
started with, exactly one saved event is in the interval of the subscription, and its path is the
expected one. After two such events, one without a path, or a revocation, no call on the
subscription returns a path. A subscription keeps its slot until it is dropped, and a drop frees
this slot and no other. -/
theorem saved_replay_attribution (token : ℕ) :
    (∀ (s : State) (k : ℕ) (call : Call) (expected path : String),
      (machine token).Reachable s → s.calls[k]? = some call → call.expected = some expected →
      call.phase = .returned (.ok path) →
        ∃ sub : Subscription, s.subscriptions[call.subscription]? = some sub ∧ sub.arms = 1 ∧
          call.cursor ≤ call.upTo ∧ ∃ event, s.savedFor sub call.upTo = [event] ∧
            savedPath event = some expected) ∧
    (∀ (s : State) (run : List (Label × State)) (n : ℕ) (sub : Subscription),
      (machine token).Reachable s → (machine token).Run s run →
      s.subscriptions[n]? = some sub → s.Spoiled sub →
        ∀ (k : ℕ) (call : Call) (path : String), (Machine.last s run).calls[k]? = some call →
          call.subscription = n → call.phase = .returned (.ok path) → s.calls[k]? = some call) ∧
    (∀ (s : State) (n : ℕ) (sub : Subscription), (machine token).Reachable s → s.alive = true →
      s.subscriptions[n]? = some sub → sub.dropped = false →
        s.slots[sub.index]? = some (some ⟨sub.id, sub.deadline, n⟩) ∧
          ∀ t, s.act (.drop n) = some t → t.slots = s.slots.set sub.index none) := by
  refine ⟨?_, ?_, ?_⟩
  · intro s k call expected path hs hcall hexpected hpath
    have hgood := good_of_reachable hs
    obtain ⟨sub, hsub, hold⟩ := hgood.calls k call hcall
    obtain ⟨harmed, hsame, hdrained, -, event, honly, hsaved⟩ := hold.returned path hpath
    refine ⟨sub, hsub, ?_, hdrained (by simp [hexpected]), event, ?_, ?_⟩
    · rw [(hgood.subscriptions _ sub hsub).arms, if_pos (isSome_iff_ne_none.mpr harmed)]
    · rw [savedFor_eq hgood.numbered]
      exact honly
    · rw [hsame expected hexpected]
      exact hsaved
  · intro s run n sub hs hrun hsub hspoiled k call path hcall hn hpath
    have hgood := good_of_reachable hs
    exact no_path_of_closed hrun hgood hsub (hspoiled.not_open hgood hsub) hcall hn hpath
  · intro s n sub hs halive hsub hdropped
    have hgood := good_of_reachable hs
    refine ⟨(hgood.subscriptions n sub hsub).registered halive hdropped, fun t ht ↦ ?_⟩
    have hlive : s.live n = some sub := by
      simp [live, hsub, hdropped]
    simp only [act, hlive, bind_some, halive, if_true] at ht
    split_ifs at ht
    obtain ⟨-, hdrop⟩ := of_locking ht
    obtain rfl := some.inj hdrop
    simp only [State.drop, halive, if_true]
    exact release_own hgood halive hlive

/-- A run in which a confirmation starts before anything is saved, and waits for the event. -/
def earlyConfirmation : List Label :=
  [.subscribe 10, .arm 0, .stamp, .confirm 0 "/a", .proceed 0,
    .receipt "ReplayBufferSaved" (some (.object [("savedReplayPath", .string "/a")])) 0,
    .publish] ++
    List.replicate 9 .publishSlot ++ [.proceed 0, .proceed 0]

/-- The event of a successful confirmation need not have been received when the confirmation
started. -/
theorem confirmation_of_later_event :
    ¬ ∀ (token : ℕ) (s : State) (k : ℕ) (call : Call) (expected path : String),
      (machine token).Reachable s → s.calls[k]? = some call → call.expected = some expected →
      call.phase = .returned (.ok path) →
        ∃ sub : Subscription, s.subscriptions[call.subscription]? = some sub ∧
          ∃ event, s.savedFor sub call.cursor = [event] := by
  intro hclaim
  have hcalls : (earlyConfirmation.foldlM State.act (State.initial 1)).map State.calls =
      some [⟨0, some "/a", 0, .returned (.ok "/a"), 1⟩] := rfl
  have hsaved : (earlyConfirmation.foldlM State.act (State.initial 1)).map
      (fun s ↦ s.subscriptions.map fun sub ↦ s.savedFor sub 0) = some [[]] := rfl
  obtain ⟨s, hs, hcalls⟩ := map_eq_some_iff.mp hcalls
  rw [hs, map_some, Option.some.injEq] at hsaved
  have hreachable : (machine 1).Reachable s :=
    Machine.Reachable.of_foldlM (fun _ _ _ h ↦ h) (.initial rfl) hs
  obtain ⟨sub, hsub, event, hevent⟩ :=
    hclaim 1 s 0 _ "/a" "/a" hreachable (by rw [hcalls]; rfl) rfl rfl
  have hmem : s.savedFor sub 0 ∈ s.subscriptions.map fun sub ↦ s.savedFor sub 0 :=
    mem_map.mpr ⟨sub, mem_of_getElem? hsub, rfl⟩
  rw [hsaved, hevent] at hmem
  cases mem_singleton.mp hmem

end ObsMcp.SavedReplays
