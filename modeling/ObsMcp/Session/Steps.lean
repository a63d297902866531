import ObsMcp.Session.Soundness

/-!
# Every step keeps the invariant

A turn of the exchange delivers no refusal, and it hands over the frame of a command only while the
command is in its slot. With the moves and the steps of the actor, the invariant is kept by every
step, so it holds of every state that a session reaches.
-/

namespace ObsMcp.Session

open Foundations List Option

variable {s t : State} {caller : ℕ} {call : Call} {outcome : Outcome}

theorem not_notDispatched_of_definite (hdefinite : outcome.Definite) : ¬ outcome.notDispatched := by
  intro hrefused
  unfold Outcome.notDispatched at hrefused
  split at hrefused
  · exact hdefinite
  · exact hrefused
/-! ### Turns of the exchange -/

section Turns

variable {view : View} {event : Event} {result : Turn}

variable {active : ActiveCommands} {finished : Lane → Option Outcome} {command : Command}

theorem outcomeFor_eq_some (hsome : State.outcomeFor active finished caller = some outcome) :
    ∃ lane command, active lane = some command ∧ command.caller = caller ∧
      finished lane = some outcome := by
  obtain ⟨lane, -, hlane⟩ := exists_of_findSome?_eq_some hsome
  obtain ⟨command, hcommand, hfinished⟩ := bind_eq_some_iff.mp hlane
  split_ifs at hfinished with hcaller
  exact ⟨lane, command, hcommand, hcaller, hfinished⟩

theorem outcomeFor_eq_none
    (hnone : ∀ lane command, active lane = some command → command.caller = caller →
      finished lane = none) : State.outcomeFor active finished caller = none := by
  cases houtcome : State.outcomeFor active finished caller with
  | none => rfl
  | some outcome =>
    obtain ⟨lane, command, hcommand, hcaller, hfinished⟩ := outcomeFor_eq_some houtcome
    rw [hnone lane command hcommand hcaller] at hfinished
    cases hfinished

/-- The calls after a turn. -/
theorem settle_calls (s : State) (result : Turn) (caller : ℕ) :
    (s.settle result).calls[caller]? = s.calls[caller]?.map (fun call ↦
      match State.outcomeFor s.exchange.active result.finished caller with
      | some outcome => call.deliver outcome
      | none => call) :=
  getElem?_mapIdx

/-- A call whose command is in no slot is as it was. -/
theorem settle_of_ne_slot (hs : s.Good) (hcall : s.calls[caller]? = some call)
    (hplace : call.place ≠ .slot) : (s.settle result).calls[caller]? = some call := by
  rw [settle_calls, hcall, map_some, outcomeFor_eq_none]
  intro lane command hcommand hcaller
  exact absurd hcaller (hs.placed.ne_active hcall hplace hcommand)

section

variable (hs : s.Good) (heffect : s.exchange.Effect view event result)
include hs heffect

theorem settle_placed : (s.settle result).Placed := by
  refine ⟨?_, ?_, hs.placed.fifo, ?_, ?_⟩
  · intro other found hfound
    rw [settle_calls] at hfound
    obtain ⟨before, hbefore, rfl⟩ := map_eq_some_iff.mp hfound
    rw [← hs.placed.numbered other before hbefore]
    split <;> rfl
  · intro lane command hmem
    obtain ⟨found, hfound, hsame, hplace, hlane⟩ := hs.placed.queue lane command hmem
    exact ⟨found, settle_of_ne_slot hs hfound (by simp [hplace]), hsame, hplace, hlane⟩
  · intro command hheld
    obtain ⟨found, hfound, hsame, hplace⟩ := hs.placed.held command hheld
    exact ⟨found, settle_of_ne_slot hs hfound (by simp [hplace]), hsame, hplace⟩
  · intro lane command hcommand
    obtain ⟨before, hbefore, hsame, hnone⟩ := heffect.remains hcommand
    obtain ⟨found, hfound, hkind, hplace, hlane⟩ := hs.placed.active lane before hbefore
    have hcaller : command.caller = before.caller := by rw [hsame]
    have hcommandKind : command.kind = before.kind := by rw [hsame]
    refine ⟨found, ?_, by rw [hkind, hcommandKind], hplace, by rw [hcommandKind, hlane]⟩
    rw [settle_calls, hcaller, hfound, map_some, outcomeFor_eq_none]
    intro other third hthird hthirdCaller
    rw [hs.placed.lane_unique hthird hbefore hthirdCaller]
    exact hnone

/-- What a turn delivers is no refusal. -/
theorem outcome_of_effect {lane : Lane} (hcommand : s.exchange.active lane = some command)
    (hfinished : result.finished lane = some outcome) : ¬ outcome.notDispatched := by
  rcases heffect.outcome hcommand hfinished with ⟨reason, rfl⟩ | ⟨sending, hsending, -, hearly⟩ |
      ⟨_, _, _, _, _, _, -, -, hresponse⟩
  · exact id
  · exact not_notDispatched_of_definite (hs.early sending outcome hsending hearly)
  · exact not_notDispatched_of_definite (matches_of_response hresponse).2

/-- A call is sound after what a turn delivers. -/
theorem settle_sound (hcall : (s.settle result).calls[caller]? = some call) :
    call.Sound s.handed caller := by
  rw [settle_calls] at hcall
  obtain ⟨before, hbefore, rfl⟩ := map_eq_some_iff.mp hcall
  have hsound := hs.sound caller before hbefore
  split
  · rename_i outcome houtcome
    obtain ⟨lane, command, hcommand, rfl, hfinished⟩ := outcomeFor_eq_some houtcome
    have hplace := (hs.placed.of_active hbefore hcommand rfl).2.1
    exact hsound.deliver (by simp [hplace])
      fun hrefused ↦ absurd hrefused (outcome_of_effect hs heffect hcommand hfinished)
  · exact hsound

/-- A call is sound after a frame was handed over. -/
theorem settle_sound_handed (hhanded : result.handed = some command)
    (hcall : (s.settle result).calls[caller]? = some call) :
    call.Sound (command.caller :: s.handed) caller := by
  obtain ⟨sending, -, hcommand, -, hnone⟩ := heffect.handed hhanded
  obtain ⟨owner, howner, -, hplace, -⟩ := hs.placed.active _ command hcommand
  rw [settle_calls, outcomeFor_eq_none fun lane _ _ _ ↦ hnone lane] at hcall
  obtain ⟨before, hbefore, rfl⟩ := map_eq_some_iff.mp hcall
  have hsound := hs.sound caller before hbefore
  by_cases hcaller : caller = command.caller
  · subst hcaller
    cases howner.symm.trans hbefore
    have hword := hsound.slot hplace
    refine ⟨fun _ ↦ ⟨hword, .inl hplace⟩, hsound.slot, ?_, ?_, hsound.closed, hsound.fresh⟩
    · intro outcome houtcome
      have := (hsound.reply outcome houtcome).1
      rw [hplace] at this
      cases this
    · intro outcome hphase hrefused
      rcases (hsound.told outcome hphase hrefused).2 with hdropped | habandoned
      · rw [hplace] at hdropped
        cases hdropped
      · rw [hword] at habandoned
        cases habandoned
  · have hmem : ∀ handed, caller ∈ command.caller :: handed ↔ caller ∈ handed := by
      simp [hcaller]
    refine ⟨?_, hsound.slot, ?_, ?_, hsound.closed, hsound.fresh⟩
    · rw [hmem]
      exact hsound.sent
    · rw [hmem]
      exact hsound.reply
    · rw [hmem]
      exact hsound.told

theorem settle_good
    (hcalm : ∀ command stage, s.activity = .preparing command stage →
      result.next.sending = none) : (s.settle result).Good := by
  have hearly : ∀ sending outcome, result.next.sending = some sending →
      sending.early = some outcome → outcome.Definite := by
    intro sending outcome hsending hearly
    obtain ⟨before, hbefore, -, -, hwas⟩ := heffect.sending hsending
    rcases hwas outcome hearly with hbeforeEarly | hdefinite
    · exact hs.early before outcome hbefore hbeforeEarly
    · exact hdefinite
  have hpending : ∀ sending command, result.next.sending = some sending →
      sending.handed = false → result.next.active sending.slot = some command →
        result.handed = none ∧ command.caller ∉ s.handed := by
    intro sending command hsending hunsent hcommand
    obtain ⟨before, hbefore, hslot, hwas, -⟩ := heffect.sending hsending
    obtain ⟨found, hfound, hsame, -⟩ := heffect.remains hcommand
    refine ⟨(hwas hunsent).2, ?_⟩
    rw [hsame]
    exact hs.pending before found hbefore (hwas hunsent).1 (hslot ▸ hfound)
  have hgranted : ∀ (command : Command) (call : Call),
      s.activity = .preparing command .recheck →
        (s.settle result).calls[command.caller]? = some call → call.word = .dispatching := by
    intro command call hrecheck hcall
    rw [settle_calls] at hcall
    obtain ⟨before, hbefore, rfl⟩ := map_eq_some_iff.mp hcall
    have hword := hs.granted command before hrecheck hbefore
    split <;> exact hword
  have hknown : ∀ caller ∈ (s.settle result).handed, caller < (s.settle result).calls.length := by
    intro caller hmem
    simp only [State.settle, length_mapIdx, mem_append, mem_toList,
      map_eq_some_iff] at hmem ⊢
    rcases hmem with ⟨command, hhanded, rfl⟩ | hmem
    · obtain ⟨sending, -, hcommand, -⟩ := heffect.handed hhanded
      obtain ⟨found, hfound, -⟩ := hs.placed.active _ command hcommand
      exact (List.getElem?_eq_some_iff.mp hfound).1
    · exact hs.known caller hmem
  refine ⟨settle_placed hs heffect, ?_, ?_, ?_, hearly, hcalm, hgranted, hknown⟩
  · intro caller call hcall
    cases hhanded : result.handed with
    | none =>
      simp only [State.settle, hhanded, map_none, toList_none, nil_append]
      exact settle_sound hs heffect hcall
    | some command =>
      simp only [State.settle, hhanded, map_some, toList_some, singleton_append]
      exact settle_sound_handed hs heffect hhanded hcall
  · cases hhanded : result.handed with
    | none =>
      simp only [State.settle, hhanded, map_none, toList_none, nil_append]
      exact hs.once
    | some command =>
      obtain ⟨sending, hsending, hcommand, hunsent, -⟩ := heffect.handed hhanded
      simp only [State.settle, hhanded, map_some, toList_some, singleton_append,
        nodup_cons]
      exact ⟨hs.pending sending command hsending hunsent hcommand, hs.once⟩
  · intro sending command hsending hunsent hcommand
    obtain ⟨hnone, hnot⟩ := hpending sending command hsending hunsent hcommand
    simpa only [State.settle, hnone, map_none, toList_none, nil_append] using hnot

end

end Turns

/-! ### Every step -/

section Steps

variable {token : ℕ} {capacity : Lane → ℕ} {label : Label}

theorem start_good (hs : s.Good) {kind : CommandKind} {expected deadline : ℕ}
    (hstart : s.start token kind expected deadline = some t) : t.Good := by
  unfold State.start at hstart
  split_ifs at hstart
  cases hstart
  have hnew : s.calls.length ∉ s.handed := fun hmem ↦ Nat.lt_irrefl _ (hs.known _ hmem)
  refine ⟨⟨?_, ?_, hs.placed.fifo, ?_, ?_⟩, ?_, hs.once, hs.pending, hs.early, hs.calm, ?_, ?_⟩
  · intro caller call hcall
    rcases getElem?_concat_cases hcall with hbefore | ⟨rfl, rfl⟩
    · exact hs.placed.numbered caller call hbefore
    · rfl
  · intro lane command hmem
    obtain ⟨found, hfound, hrest⟩ := hs.placed.queue lane command hmem
    exact ⟨found, getElem?_append_of_some hfound, hrest⟩
  · intro command hheld
    obtain ⟨found, hfound, hrest⟩ := hs.placed.held command hheld
    exact ⟨found, getElem?_append_of_some hfound, hrest⟩
  · intro lane command hactive
    obtain ⟨found, hfound, hrest⟩ := hs.placed.active lane command hactive
    exact ⟨found, getElem?_append_of_some hfound, hrest⟩
  · intro caller call hcall
    rcases getElem?_concat_cases hcall with hbefore | ⟨rfl, rfl⟩
    · exact hs.sound caller call hbefore
    · exact ⟨fun hmem ↦ absurd hmem hnew, by simp, by simp, by simp, by simp, by simp⟩
  · intro command call hrecheck hcall
    rcases getElem?_concat_cases hcall with hbefore | ⟨hlast, -⟩
    · exact hs.granted command call hrecheck hbefore
    · obtain ⟨found, hfound, -⟩ := hs.placed.held command (by rw [hrecheck]; rfl)
      have := (List.getElem?_eq_some_iff.mp hfound).1
      omega
  · intro caller hmem
    have := hs.known caller hmem
    simp only [List.length_append, List.length_singleton]
    omega

variable {command : Command} {stage : Stage} {next : Call}

/-- One check of a command keeps the invariant. -/
theorem check_good (hs : s.Good) (hactivity : s.activity = .preparing command stage)
    (hcall : s.calls[command.caller]? = some call) (guard : Except String Unit) :
    (s.check token command call guard stage).Good := by
  have hheld : s.activity.held = some command := by
    rw [hactivity]
    rfl
  have hcalm := hs.calm command stage hactivity
  have hrefuse : ∀ refusal, ({ s with activity := .refusing command refusal } : State).Good := by
    intro refusal
    refine hs.other rfl rfl rfl rfl ?_ (by simp) (by simp)
    intro found hfound
    exact hheld.trans hfound
  have hnext : ∀ next : Stage, next ≠ .recheck →
      ({ s with activity := .preparing command next } : State).Good := by
    intro next hne
    refine hs.other rfl rfl rfl rfl ?_ (fun _ _ _ ↦ hcalm) ?_
    · intro found hfound
      exact hheld.trans hfound
    · intro found hfound
      exact absurd (Activity.preparing.inj hfound).2 hne
  cases stage with
  | retire =>
    have heffect : s.exchange.Effect s.view .retire (s.exchange.retireObservations s.view) :=
      .retire .retire hcalm
    have hsettled := settle_good hs heffect fun _ _ _ ↦ hcalm
    refine hsettled.other rfl rfl rfl rfl ?_ (fun _ _ _ ↦ hcalm) ?_
    · intro found hfound
      exact hheld.trans hfound
    · intro found hfound
      cases hfound
  | token | deadline | channel | word | lateness =>
    simp only [State.check]
    split_ifs
    · exact hrefuse _
    · exact hnext _ (by simp)
  | guard =>
    simp only [State.check]
    split
    · exact hrefuse _
    · exact hnext _ (by simp)
  | companions rest =>
    cases rest with
    | nil => exact hnext _ (by simp)
    | cons lane rest =>
      simp only [State.check]
      split
      · exact hnext _ (by simp)
      · split_ifs
        · exact hrefuse _
        · exact hnext _ (by simp)
  | companionChannel lane rest =>
    simp only [State.check]
    split
    · exact hnext _ (by simp)
    · split_ifs
      · exact hrefuse _
      · exact hnext _ (by simp)
  | exchange =>
    simp only [State.check]
    split_ifs with hqueued
    · have hsound := (hs.sound _ _ hcall).exchangeWord .dispatching
      have hplaced := (hs.moved hcall (call.exchangeWord_kept _).1
        (.inl (call.exchangeWord_kept _).2.1) (call.exchangeWord_dispatching _) hsound).placed
      refine hs.changed rfl ⟨hplaced.numbered, hplaced.queue, hplaced.fifo, ?_, hplaced.active⟩
        hsound rfl hs.pending hs.early (fun _ _ _ ↦ hcalm) ?_
      · exact fun found hfound ↦ hplaced.held found (hheld.trans hfound)
      · intro found other hrecheck hother
        obtain rfl := (Activity.preparing.inj hrecheck).1
        simp only [State.setCall, getElem?_set_of_some hcall] at hother
        cases hother
        simp [Call.exchangeWord, hqueued]
    · exact hrefuse _
  | recheck =>
    simp only [State.check]
    split_ifs
    · exact hrefuse _
    · exact hs.activate hheld hcall (hs.granted command call hactivity hcall)

theorem turn_good (hs : s.Good) {event : Event} (hturn : s.turn event = some t) : t.Good := by
  unfold State.turn at hturn
  split at hturn
  · rename_i hactivity
    obtain ⟨result, hresult, hturn⟩ := bind_eq_some_iff.mp hturn
    have hsettled : (s.settle result).Good := by
      refine settle_good hs (Exchange.turn_effect hresult) ?_
      intro command stage hstage
      rw [hactivity] at hstage
      cases hstage
    split at hturn
    · cases hturn
      exact hsettled.rests rfl rfl rfl rfl rfl
    · cases hturn
      exact hsettled
  · cases hturn

theorem drain_good (hs : s.Good) (hdrain : s.drain = some t) : t.Good := by
  unfold State.drain at hdrain
  split at hdrain
  · rename_i reason hactivity
    split at hdrain
    · refine hs.pop hdrain (by simp [hactivity]) (fun _ ↦ rfl) ?_
      intro caller call hsound hplace
      exact hsound.deliver (by simp [hplace])
        fun _ ↦ hsound.notMem_handed (by simp [hplace]) (by simp [hplace])
    · cases hdrain
      exact hs.rests rfl rfl rfl rfl rfl
  · cases hdrain

/-- Every step keeps the invariant. -/
theorem act_good (hs : s.Good) (hact : s.act token capacity label = some t) : t.Good := by
  cases label with
  | tick | ownerDropped =>
    cases hact
    exact hs.other rfl rfl rfl rfl (fun _ hheld ↦ hheld) hs.calm (fun _ hstage ↦ hstage)
  | start kind expected deadline => exact start_good hs hact
  | move caller move =>
    obtain ⟨call, hcall, hmove⟩ := bind_eq_some_iff.mp hact
    exact hs.moveCall hcall hmove
  | turn event => exact turn_good hs hact
  | receive lane => exact hs.receive hact
  | prepare guard =>
    simp only [State.act] at hact
    split at hact
    · rename_i command stage hactivity
      obtain ⟨call, hcall, hact⟩ := bind_eq_some_iff.mp hact
      cases hact
      exact check_good hs hactivity hcall guard
    · cases hact
  | refuse => exact hs.refuse hact
  | announce =>
    simp only [State.act] at hact
    split at hact
    · cases hact
      exact hs.rests rfl rfl rfl rfl rfl
    · cases hact
  | closeQueues =>
    simp only [State.act] at hact
    split at hact
    · cases hact
      exact hs.rests rfl rfl rfl rfl rfl
    · cases hact
      exact hs.other rfl rfl rfl rfl (fun _ hheld ↦ hheld) hs.calm (fun _ hstage ↦ hstage)
    · cases hact
  | drain => exact drain_good hs hact
  | abort =>
    cases hact
    refine hs.other rfl rfl rfl rfl (fun _ hheld ↦ hheld) ?_ ?_
    · exact fun _ _ hstage ↦ (by cases hstage)
    · exact fun _ hstage ↦ (by cases hstage)
  | dropHeld => exact hs.dropHeld hact
  | dropSlot lane =>
    simp only [State.act] at hact
    split at hact
    · rename_i hactivity
      exact hs.dropSlot hact (by simp [hactivity])
    · cases hact
  | dropQueued lane =>
    simp only [State.act] at hact
    split at hact
    · rename_i hactivity
      refine hs.pop hact (by simp [hactivity]) (fun _ ↦ rfl) ?_
      exact fun caller call hsound hplace ↦ hsound.drop (by simp [hplace])
    · cases hact
  | dropLifetime =>
    simp only [State.act] at hact
    split at hact
    · cases hact
      exact hs.other rfl rfl rfl rfl (fun _ hheld ↦ hheld) hs.calm (fun _ hstage ↦ hstage)
    · cases hact
      exact hs.other rfl rfl rfl rfl (fun _ hheld ↦ hheld) hs.calm (fun _ hstage ↦ hstage)
    · cases hact

theorem session_initial_good (hs : s.Initial) : s.Good := by
  obtain ⟨hcalls, hqueues, -, -, hactive, hsending, hactivity, hhanded⟩ := hs
  refine ⟨⟨?_, ?_, ?_, ?_, ?_⟩, ?_, ?_, ?_, ?_, ?_, ?_, ?_⟩
  · simp [hcalls]
  · simp [hqueues]
  · simp [hqueues]
  · simp [hactivity, Activity.held]
  · simp [hactive]
  · simp [hcalls]
  · simp [hhanded]
  · simp [hsending]
  · simp [hsending]
  · simp [hactivity]
  · simp [hactivity]
  · simp [hhanded]

theorem good_of_session (hs : (session token capacity).Reachable s) : s.Good :=
  Machine.invariant_of_step State.Good (fun _ h ↦ session_initial_good h)
    (fun _ _ _ _ hgood hstep ↦ act_good hgood hstep) hs

end Steps

end ObsMcp.Session
