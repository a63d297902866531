import ObsMcp.Session.Placement

/-!
# What the moves keep

`Good` is the invariant of a session: every command is where its call says, every call is sound and
no frame is handed over twice. The moves of the calls keep it. So do the steps in which the actor
takes a command from a queue, refuses it, drops it or puts it in its slot.
-/

namespace ObsMcp.Session

open Foundations List Option

structure State.Good (s : State) : Prop where
  placed : s.Placed
  sound : ∀ (caller : ℕ) (call : Call), s.calls[caller]? = some call →
    call.Sound s.handed caller
  once : s.handed.Nodup
  pending : ∀ sending command, s.exchange.sending = some sending → sending.handed = false →
    s.exchange.active sending.slot = some command → command.caller ∉ s.handed
  early : ∀ sending outcome, s.exchange.sending = some sending → sending.early = some outcome →
    outcome.Definite
  calm : ∀ command stage, s.activity = .preparing command stage → s.exchange.sending = none
  granted : ∀ (command : Command) (call : Call), s.activity = .preparing command .recheck →
    s.calls[command.caller]? = some call → call.word = .dispatching
  known : ∀ caller ∈ s.handed, caller < s.calls.length

variable {s t : State} {caller : ℕ} {call : Call} {outcome : Outcome}

namespace State.Good

/-- Nothing changes that the invariant reads, or the actor lets go of what it held. -/
theorem other (hs : s.Good) (hcalls : t.calls = s.calls) (hqueues : t.queues = s.queues)
    (hexchange : t.exchange = s.exchange) (hhanded : t.handed = s.handed)
    (hheld : ∀ command, t.activity.held = some command → s.activity.held = some command)
    (hcalm : ∀ command stage, t.activity = .preparing command stage → s.exchange.sending = none)
    (hgranted : ∀ command, t.activity = .preparing command .recheck →
      s.activity = .preparing command .recheck) : t.Good := by
  obtain ⟨⟨hnumbered, hqueue, hfifo, hbefore, hactive⟩, hsound, honce, hpending, hearly, -, hword,
    hknown⟩ := hs
  refine ⟨⟨?_, ?_, ?_, ?_, ?_⟩, ?_, ?_, ?_, ?_, ?_, ?_, ?_⟩
  · rwa [hcalls]
  · rwa [hcalls, hqueues]
  · rwa [hqueues]
  · rw [hcalls]
    exact fun command hcommand ↦ hbefore command (hheld command hcommand)
  · rwa [hcalls, hexchange]
  · rwa [hcalls, hhanded]
  · rwa [hhanded]
  · rwa [hexchange, hhanded]
  · rwa [hexchange]
  · rwa [hexchange]
  · rw [hcalls]
    exact fun command call hrecheck ↦ hword command call (hgranted command hrecheck)
  · rwa [hcalls, hhanded]

/-- The actor holds nothing afterwards. -/
theorem rests (hs : s.Good) (hcalls : t.calls = s.calls) (hqueues : t.queues = s.queues)
    (hexchange : t.exchange = s.exchange) (hhanded : t.handed = s.handed)
    (hfree : t.activity.held = none) : t.Good := by
  have hidle : ∀ command stage, t.activity ≠ .preparing command stage := by
    intro command stage hstage
    rw [hstage] at hfree
    cases hfree
  refine hs.other hcalls hqueues hexchange hhanded ?_ ?_ ?_
  · exact fun command hheld ↦ (by rw [hfree] at hheld; cases hheld)
  · exact fun command stage hstage ↦ absurd hstage (hidle command stage)
  · exact fun command hstage ↦ absurd hstage (hidle command .recheck)

variable {next : Call} {command : Command} {lane : Lane}

/-- One call changes. Assumes: the places are right afterwards and the changed call is sound. -/
theorem changed (hs : s.Good) (hcalls : t.calls = s.calls.set caller next) (hplaced : t.Placed)
    (hsound : next.Sound s.handed caller) (hhanded : t.handed = s.handed)
    (hpending : ∀ sending command, t.exchange.sending = some sending → sending.handed = false →
      t.exchange.active sending.slot = some command → command.caller ∉ s.handed)
    (hearly : ∀ sending outcome, t.exchange.sending = some sending →
      sending.early = some outcome → outcome.Definite)
    (hcalm : ∀ command stage, t.activity = .preparing command stage → t.exchange.sending = none)
    (hgranted : ∀ (command : Command) (found : Call), t.activity = .preparing command .recheck →
      t.calls[command.caller]? = some found → found.word = .dispatching) : t.Good := by
  refine ⟨hplaced, ?_, hhanded ▸ hs.once, hhanded ▸ hpending, hearly, hcalm, hgranted, ?_⟩
  rotate_left
  · rw [hhanded, hcalls, length_set]
    exact hs.known
  intro other found hfound
  rw [hcalls] at hfound
  rw [hhanded]
  rcases getElem?_set_cases hfound with ⟨rfl, rfl⟩ | ⟨-, hfound⟩
  · exact hsound
  · exact hs.sound other found hfound

/-- The word of the command that is checked once more stays exchanged. -/
theorem granted_set (hs : s.Good) (hcall : s.calls[caller]? = some call)
    (hword : call.word = .dispatching → next.word = .dispatching) (command : Command) (found : Call)
    (hrecheck : s.activity = .preparing command .recheck)
    (hfound : (s.calls.set caller next)[command.caller]? = some found) :
    found.word = .dispatching := by
  rcases getElem?_set_cases hfound with ⟨rfl, rfl⟩ | ⟨-, hfound⟩
  · exact hword (hs.granted command call hrecheck hcall)
  · exact hs.granted command found hrecheck hfound

/-- One call moves on. Its command stays where it is, or the call drops it. -/
theorem moved (hs : s.Good) (hcall : s.calls[caller]? = some call)
    (hcommand : next.command = call.command) (hplace : next.place = call.place ∨ call.place = .call)
    (hword : call.word = .dispatching → next.word = .dispatching)
    (hsound : next.Sound s.handed caller) : (s.setCall caller next).Good := by
  refine hs.changed rfl ?_ hsound rfl hs.pending hs.early hs.calm
    (hs.granted_set hcall hword)
  have hstays : ∀ place, place ≠ .call → call.place = place → next.place = place := by
    intro place hne hhere
    exact (hplace.resolve_right fun hcallHas ↦ hne (hhere.symm.trans hcallHas)).trans hhere
  refine hs.placed.change hcall rfl hcommand ?_ hs.placed.fifo ?_ ?_
  · intro lane command hmem
    by_cases hcaller : command.caller = caller
    · obtain ⟨hsame, hqueue, hlane⟩ := hs.placed.of_queue hcall hmem hcaller
      exact .inr ⟨hsame.symm, hstays _ (by simp) hqueue, hlane⟩
    · exact .inl ⟨hcaller, hmem⟩
  · intro command hheld
    by_cases hcaller : command.caller = caller
    · obtain ⟨hsame, hhere⟩ := hs.placed.of_held hcall hheld hcaller
      exact .inr ⟨hsame.symm, hstays _ (by simp) hhere⟩
    · exact .inl ⟨hcaller, hheld⟩
  · intro lane command hactive
    by_cases hcaller : command.caller = caller
    · obtain ⟨hkind, hslot, hlane⟩ := hs.placed.of_active hcall hactive hcaller
      exact .inr ⟨hcaller, hkind.symm, hstays _ (by simp) hslot, hlane⟩
    · exact .inl ⟨hcaller, hactive⟩

/-! ### Moves of a call -/

variable {capacity : Lane → ℕ}

section

variable (hs : s.Good)
include hs

theorem submit (hcall : s.calls[caller]? = some call) (hphase : call.phase = .sending) :
    (s.submit capacity caller call).Good := by
  have hsound := hs.sound caller call hcall
  have hplace : call.place = .call := hsound.fresh (.inr (.inr hphase))
  have hnumber := hs.placed.numbered caller call hcall
  unfold State.submit
  simp only
  split_ifs
  · exact hs.moved hcall rfl (.inr hplace) id (hsound.refuse hplace _)
  · exact hs.moved hcall rfl (.inr hplace) id (hsound.refuse hplace _)
  · have hnotMem : ∀ lane, ∀ command ∈ s.queues lane, command.caller ≠ caller :=
      fun lane command hmem ↦ hs.placed.notMem_queue hcall (by simp [hplace]) hmem
    refine hs.changed rfl ?_ ?_ rfl hs.pending hs.early hs.calm (hs.granted_set hcall id)
    · refine hs.placed.change hcall rfl rfl ?_ ?_ ?_ ?_
      · intro lane command hmem
        by_cases hlane : lane = call.command.kind.lane
        · subst hlane
          simp only [Function.update_self, mem_append, mem_singleton] at hmem
          rcases hmem with hmem | rfl
          · exact .inl ⟨hnotMem _ command hmem, hmem⟩
          · exact .inr ⟨rfl, rfl, rfl⟩
        · simp only [Function.update_of_ne hlane] at hmem
          exact .inl ⟨hnotMem lane command hmem, hmem⟩
      · intro lane
        by_cases hlane : lane = call.command.kind.lane
        · subst hlane
          simp only [Function.update_self, map_append, map_singleton, hnumber]
          refine List.Nodup.append (hs.placed.fifo _) (nodup_singleton _) ?_
          rw [disjoint_singleton]
          intro hmem
          obtain ⟨command, hcommand, hsame⟩ := mem_map.mp hmem
          exact hnotMem _ command hcommand hsame
        · simp only [Function.update_of_ne hlane]
          exact hs.placed.fifo lane
      · exact fun command hheld ↦ .inl ⟨hs.placed.ne_held hcall (by simp [hplace]) hheld, hheld⟩
      · exact fun lane command hactive ↦
          .inl ⟨hs.placed.ne_active hcall (by simp [hplace]) hactive, hactive⟩
    · have hnot : caller ∉ s.handed :=
        hsound.notMem_handed (by simp [hplace]) (by simp [hplace])
      refine ⟨fun hmem ↦ absurd hmem hnot, fun hslot ↦ (by cases hslot), ?_, ?_, ?_, ?_⟩
      · intro outcome houtcome
        have := (hsound.reply outcome houtcome).1
        rw [hplace] at this
        cases this
      · rintro outcome (hreturn | hreturn) <;> cases hreturn
      · rintro reason (hclosed | hclosed) <;> cases hclosed
      · rintro (hfresh | hfresh | hfresh) <;> cases hfresh

theorem moveCall (hcall : s.calls[caller]? = some call) {move : Move}
    (hmove : s.moveCall capacity caller call move = some t) : t.Good := by
  have hsound := hs.sound caller call hcall
  cases move with
  | refuse refusal =>
    simp only [State.moveCall] at hmove
    split at hmove
    · rename_i hphase
      have hplace : call.place = .call := hsound.fresh (.inl hphase)
      split_ifs at hmove
      cases hmove
      have hrefused := (hsound.refuse hplace (.error (.beforeDispatch refusal))).finish rfl
      exact hs.moved hcall rfl (.inr hplace) id hrefused
    · cases hmove
  | build =>
    simp only [State.moveCall] at hmove
    split at hmove
    · rename_i hphase
      cases hmove
      refine hs.moved hcall rfl (.inl rfl) id (hsound.rephase call.receiver ?_ ?_ ?_)
      · simp
      · simp
      · exact fun _ ↦ hsound.fresh (.inl hphase)
    · cases hmove
  | check =>
    simp only [State.moveCall] at hmove
    split at hmove
    · rename_i hphase
      have hplace : call.place = .call := hsound.fresh (.inr (.inl hphase))
      split_ifs at hmove
      · cases hmove
        exact hs.moved hcall rfl (.inr hplace) id (hsound.refuse hplace _)
      · cases hmove
        refine hs.moved hcall rfl (.inl rfl) id (hsound.rephase call.receiver ?_ ?_ ?_)
        · simp
        · simp
        · exact fun _ ↦ hplace
    · cases hmove
  | submit =>
    simp only [State.moveCall] at hmove
    split at hmove
    · rename_i hphase
      cases hmove
      exact hs.submit hcall hphase
    · cases hmove
  | poll =>
    simp only [State.moveCall] at hmove
    split at hmove
    · rename_i outcome hphase hreply
      cases hmove
      have hreply := hsound.reply outcome hreply
      exact hs.moved hcall rfl (.inl rfl) id
        (hsound.conclude fun hrefused ↦ ⟨hreply.2 hrefused, .inl hreply.1⟩)
    · split_ifs at hmove with hplace
      cases hmove
      refine hs.moved hcall rfl (.inl rfl) id (hsound.rephase false ?_ ?_ ?_)
      · simp
      · exact fun _ _ ↦ hplace
      · simp
    · cases hmove
  | expire =>
    simp only [State.moveCall] at hmove
    split at hmove
    · split_ifs at hmove
      cases hmove
      refine hs.moved hcall rfl (.inl rfl) id (hsound.rephase false ?_ ?_ ?_) <;> simp
    · cases hmove
  | inquire =>
    simp only [State.moveCall] at hmove
    split at hmove
    · rename_i hphase
      cases hmove
      refine hs.moved hcall rfl (.inl rfl) id (hsound.rephase call.receiver ?_ ?_ ?_)
      · simp
      · exact fun reason _ ↦ hsound.closed reason (.inl hphase)
      · simp
    · cases hmove
  | load =>
    simp only [State.moveCall] at hmove
    split at hmove
    · rename_i reason hphase
      cases hmove
      refine hs.moved hcall rfl (.inl rfl) id (hsound.conclude fun hrefused ↦ ?_)
      split_ifs at hrefused with hword
      · exact absurd hrefused id
      · refine ⟨fun hmem ↦ hword (hsound.sent hmem).1, .inl ?_⟩
        exact hsound.closed reason (.inr hphase)
    · cases hmove
  | exchange =>
    simp only [State.moveCall] at hmove
    split at hmove
    · cases hmove
      refine hs.moved hcall (call.exchangeWord_kept _).1 (.inl (call.exchangeWord_kept _).2.1)
        (call.exchangeWord_dispatching _)
        ((hsound.exchangeWord .abandoned).conclude fun hrefused ↦ ?_)
      split_ifs at hrefused with hqueued
      · refine ⟨fun hmem ↦ ?_, .inr (by simp [Call.exchangeWord, hqueued])⟩
        have := (hsound.sent hmem).1
        rw [hqueued] at this
        cases this
      · exact absurd hrefused id
    · cases hmove
  | abandon =>
    simp only [State.moveCall] at hmove
    split at hmove
    · cases hmove
      refine hs.moved hcall rfl (.inl rfl) id (hsound.rephase false ?_ ?_ ?_) <;> simp
    · cases hmove
  | finish =>
    simp only [State.moveCall] at hmove
    split at hmove
    · rename_i outcome hreturning
      cases hmove
      exact hs.moved hcall (call.exchangeWord_kept _).1 (.inl (call.exchangeWord_kept _).2.1)
        (call.exchangeWord_dispatching _)
        ((hsound.exchangeWord .abandoned).finish ((call.exchangeWord_kept _).2.2.trans hreturning))
    · cases hmove
      refine hs.moved hcall (call.exchangeWord_kept _).1 (.inl (call.exchangeWord_kept _).2.1)
        (call.exchangeWord_dispatching _)
        ((hsound.exchangeWord .abandoned).rephase _ ?_ ?_ ?_) <;> simp
    · cases hmove

/-! ### Steps of the actor -/

/-- The first command of a queue leaves it with a change of its call. -/
theorem leaves {rest : List Command} (hqueue : s.queues lane = command :: rest)
    (hcall : s.calls[command.caller]? = some call)
    (hcalls : t.calls = s.calls.set command.caller next) (hcommand : next.command = call.command)
    (hqueues : t.queues = Function.update s.queues lane rest) (hexchange : t.exchange = s.exchange)
    (hhanded : t.handed = s.handed)
    (hheld : ∀ found, t.activity.held = some found → s.activity.held = some found ∨
      (found = call.command ∧ next.place = .held))
    (hcalm : ∀ found stage, t.activity = .preparing found stage → s.exchange.sending = none)
    (hrecheck : ∀ found, t.activity ≠ .preparing found .recheck)
    (hsound : next.Sound s.handed command.caller) : t.Good := by
  have hmem : command ∈ s.queues lane := hqueue ▸ mem_cons_self
  have hplace := (hs.placed.of_queue hcall hmem rfl).2.1
  have hfifo := hs.placed.fifo lane
  rw [hqueue, map_cons, nodup_cons] at hfifo
  refine hs.changed hcalls ?_ hsound hhanded ?_ ?_ ?_
    fun found _ hnow ↦ absurd hnow (hrecheck found)
  · refine hs.placed.change hcall hcalls hcommand ?_ ?_ ?_ ?_
    · intro other found hfound
      rw [hqueues] at hfound
      by_cases hother : other = lane
      · subst hother
        rw [Function.update_self] at hfound
        refine .inl ⟨fun hsame ↦ ?_, hqueue ▸ mem_cons_of_mem _ hfound⟩
        exact hfifo.1 (hsame ▸ mem_map_of_mem hfound)
      · rw [Function.update_of_ne hother] at hfound
        exact .inl ⟨fun hsame ↦ hother (hs.placed.queue_unique hfound hmem hsame), hfound⟩
    · intro other
      rw [hqueues]
      by_cases hother : other = lane
      · subst hother
        rw [Function.update_self]
        exact hfifo.2
      · rw [Function.update_of_ne hother]
        exact hs.placed.fifo other
    · intro found hfound
      rcases hheld found hfound with hbefore | hnow
      · exact .inl ⟨hs.placed.ne_held hcall (by simp [hplace]) hbefore, hbefore⟩
      · exact .inr hnow
    · intro other found hactive
      rw [hexchange] at hactive
      exact .inl ⟨hs.placed.ne_active hcall (by simp [hplace]) hactive, hactive⟩
  · rw [hexchange]
    exact hs.pending
  · rw [hexchange]
    exact hs.early
  · rw [hexchange]
    exact hcalm

theorem pop {change : Call → Call} (hpop : s.pop lane change = some t)
    (hactivity : ∀ command stage, s.activity ≠ .preparing command stage)
    (hcommand : ∀ call, (change call).command = call.command)
    (hsound : ∀ caller (call : Call), call.Sound s.handed caller → call.place = .queue →
      (change call).Sound s.handed caller) : t.Good := by
  unfold State.pop at hpop
  split at hpop
  · rename_i command rest hqueue
    obtain ⟨call, hcall, hpop⟩ := bind_eq_some_iff.mp hpop
    cases hpop
    have hplace := (hs.placed.of_queue hcall (hqueue ▸ mem_cons_self) rfl).2.1
    refine hs.leaves hqueue hcall rfl (hcommand _) rfl rfl rfl (fun _ hheld ↦ .inl hheld) hs.calm
      (fun found ↦ hactivity found .recheck) ?_
    exact hsound _ _ (hs.sound _ _ hcall) hplace
  · cases hpop

theorem receive (hreceive : s.receive lane = some t) : t.Good := by
  unfold State.receive at hreceive
  split at hreceive
  · rename_i command rest hactivity hqueue
    obtain ⟨call, hcall, hreceive⟩ := bind_eq_some_iff.mp hreceive
    split_ifs at hreceive with hfree
    cases hreceive
    obtain ⟨hcommand, hplace, -⟩ := hs.placed.of_queue hcall (hqueue ▸ mem_cons_self) rfl
    refine hs.leaves hqueue hcall rfl rfl rfl rfl rfl ?_ ?_ (by simp) ?_
    · intro other hother
      cases hother
      exact .inr ⟨hcommand.symm, rfl⟩
    · intro _ _ _
      simp only [Bool.and_eq_true, isNone_iff_eq_none] at hfree
      exact hfree.1
    · exact (hs.sound _ _ hcall).proceed (.inl hplace) (by simp)
  · cases hreceive

/-- The command in hand leaves the hands of the actor. -/
theorem lets (hheld : s.activity.held = some command)
    (hcall : s.calls[command.caller]? = some call)
    (hcalls : t.calls = s.calls.set command.caller next)
    (hcommand : next.command = call.command) (hqueues : t.queues = s.queues)
    (hexchange : t.exchange = s.exchange) (hhanded : t.handed = s.handed)
    (hfree : t.activity.held = none) (hsound : next.Sound s.handed command.caller) : t.Good := by
  have hplace := (hs.placed.of_held hcall hheld rfl).2
  have hidle : ∀ found stage, t.activity ≠ .preparing found stage := by
    intro found stage hstage
    rw [hstage] at hfree
    cases hfree
  refine hs.changed hcalls ?_ hsound hhanded (hexchange ▸ hs.pending)
    (hexchange ▸ hs.early) (fun found stage hstage ↦ absurd hstage (hidle found stage))
    (fun found _ hstage ↦ absurd hstage (hidle found .recheck))
  · refine hs.placed.change hcall hcalls hcommand ?_ (hqueues ▸ hs.placed.fifo) ?_ ?_
    · intro lane found hfound
      rw [hqueues] at hfound
      exact .inl ⟨hs.placed.notMem_queue hcall (by simp [hplace]) hfound, hfound⟩
    · intro found hfound
      rw [hfree] at hfound
      cases hfound
    · intro lane found hactive
      rw [hexchange] at hactive
      exact .inl ⟨hs.placed.ne_active hcall (by simp [hplace]) hactive, hactive⟩

theorem refuse (hrefuse : s.refuse = some t) : t.Good := by
  unfold State.refuse at hrefuse
  split at hrefuse
  · rename_i command refusal hactivity
    obtain ⟨call, hcall, hrefuse⟩ := bind_eq_some_iff.mp hrefuse
    cases hrefuse
    have hheld : s.activity.held = some command := by rw [hactivity]; rfl
    have hplace := (hs.placed.of_held hcall hheld rfl).2
    have hsound := hs.sound _ _ hcall
    refine hs.lets hheld hcall rfl rfl rfl rfl rfl rfl ?_
    exact hsound.deliver (by simp [hplace])
      fun _ ↦ hsound.notMem_handed (by simp [hplace]) (by simp [hplace])
  · cases hrefuse

theorem dropHeld (hdrop : s.dropHeld = some t) : t.Good := by
  unfold State.dropHeld at hdrop
  split at hdrop
  · rename_i command hactivity
    obtain ⟨call, hcall, hdrop⟩ := bind_eq_some_iff.mp hdrop
    cases hdrop
    have hheld : s.activity.held = some command := by rw [hactivity]; rfl
    have hplace := (hs.placed.of_held hcall hheld rfl).2
    refine hs.lets hheld hcall rfl rfl rfl rfl rfl rfl ?_
    exact (hs.sound _ _ hcall).drop (by simp [hplace])
  · cases hdrop

theorem dropSlot (hdrop : s.dropSlot lane = some t)
    (hactivity : ∀ command stage, s.activity ≠ .preparing command stage) : t.Good := by
  unfold State.dropSlot at hdrop
  obtain ⟨command, hcommand, hdrop⟩ := bind_eq_some_iff.mp hdrop
  obtain ⟨call, hcall, hdrop⟩ := bind_eq_some_iff.mp hdrop
  cases hdrop
  have hplace := (hs.placed.of_active hcall hcommand rfl).2.1
  have hactive : ∀ other found,
      Function.update s.exchange.active lane none other = some found →
        other ≠ lane ∧ s.exchange.active other = some found := by
    intro other found hfound
    by_cases hother : other = lane
    · subst hother
      rw [Function.update_self] at hfound
      cases hfound
    · rw [Function.update_of_ne hother] at hfound
      exact ⟨hother, hfound⟩
  refine hs.changed rfl ?_ ((hs.sound _ _ hcall).drop (by simp [hplace])) rfl ?_ hs.early
    (fun _ _ hstage ↦ absurd hstage (hactivity _ _))
    (fun _ _ hstage ↦ absurd hstage (hactivity _ _))
  · refine hs.placed.change hcall rfl rfl ?_ hs.placed.fifo ?_ ?_
    · exact fun _ _ hmem ↦ .inl ⟨hs.placed.notMem_queue hcall (by simp [hplace]) hmem, hmem⟩
    · exact fun _ hheld ↦ .inl ⟨hs.placed.ne_held hcall (by simp [hplace]) hheld, hheld⟩
    · intro other found hfound
      obtain ⟨hother, hbefore⟩ := hactive other found hfound
      exact .inl ⟨fun hsame ↦ hother (hs.placed.lane_unique hbefore hcommand hsame), hbefore⟩
  · intro sending found hsending hhanded hfound
    exact hs.pending sending found hsending hhanded (hactive _ found hfound).2

theorem activate (hheld : s.activity.held = some command)
    (hcall : s.calls[command.caller]? = some call) (hword : call.word = .dispatching) :
    (s.activate command call).Good := by
  obtain ⟨hsame, hplace⟩ := hs.placed.of_held hcall hheld rfl
  have hsound := hs.sound _ _ hcall
  have hactive : ∀ lane found,
      Function.update s.exchange.active command.kind.lane (some command) lane = some found →
        (lane = command.kind.lane ∧ found = command) ∨ s.exchange.active lane = some found := by
    intro lane found hfound
    by_cases hlane : lane = command.kind.lane
    · subst hlane
      rw [Function.update_self] at hfound
      exact .inl ⟨rfl, (Option.some.inj hfound).symm⟩
    · rw [Function.update_of_ne hlane] at hfound
      exact .inr hfound
  refine hs.changed rfl ?_ (hsound.proceed (.inr hplace) fun _ ↦ hword) rfl ?_ ?_
    (fun _ _ hstage ↦ by cases hstage) (fun _ _ hstage ↦ by cases hstage)
  · refine hs.placed.change hcall rfl rfl ?_ hs.placed.fifo ?_ ?_
    · exact fun _ _ hmem ↦ .inl ⟨hs.placed.notMem_queue hcall (by simp [hplace]) hmem, hmem⟩
    · exact fun _ hnone ↦ (by cases hnone)
    · intro lane found hfound
      rcases hactive lane found hfound with ⟨rfl, rfl⟩ | hbefore
      · exact .inr ⟨rfl, by rw [hsame], rfl, rfl⟩
      · exact .inl ⟨hs.placed.ne_active hcall (by simp [hplace]) hbefore, hbefore⟩
  · intro sending found hsending _ hfound
    cases hsending
    rcases hactive _ found hfound with ⟨-, rfl⟩ | hbefore
    · exact hsound.notMem_handed (by simp [hplace]) (by simp [hplace])
    · rw [State.activate] at hfound
      simp only [Function.update_self] at hfound
      cases hfound
      exact hsound.notMem_handed (by simp [hplace]) (by simp [hplace])
  · intro sending outcome hsending hearly
    cases hsending
    cases hearly

end

end State.Good

end ObsMcp.Session
