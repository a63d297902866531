import ObsMcp.Session.Steps

/-!
# No false refusal

A call that returns `BeforeDispatch` tells its caller that the frame of the request was not handed
to the writer, and the caller may act on it. `verdicts_sound` says that this is so in every run of a
session: for every order of the moves of the calls and of the actor, for every timeout, dropped
future, closed channel, refused guard and early reply, and for every shutdown and abort.

What a call returned stays its result, and a call whose frame was handed over comes to a result by
moves of its own.
-/

namespace ObsMcp.Session

open Foundations List Option

variable {s t : State} {caller : ℕ} {call next : Call} {outcome : Outcome}

section Steps

variable {token : ℕ} {capacity : Lane → ℕ} {label : Label} {command : Command} {stage : Stage}

/-! ### Results are final -/

/-- Calls that have returned stay so. -/
def Final (s t : State) : Prop :=
  ∀ (caller : ℕ) (call : Call) (outcome : Outcome), s.calls[caller]? = some call →
    call.phase = .returned outcome →
      ∃ next, t.calls[caller]? = some next ∧ next.phase = .returned outcome

theorem final_of_calls (hcalls : t.calls = s.calls) : Final s t := by
  intro caller call outcome hcall hphase
  exact ⟨call, hcalls ▸ hcall, hphase⟩

theorem final_of_set (hcall : s.calls[caller]? = some call)
    (hcalls : t.calls = s.calls.set caller next)
    (hphase : ∀ outcome, call.phase = .returned outcome → next.phase = .returned outcome) :
    Final s t := by
  intro other found outcome hfound hreturned
  by_cases hother : other = caller
  · subst hother
    cases hcall.symm.trans hfound
    exact ⟨next, by rw [hcalls, getElem?_set_of_some hcall], hphase outcome hreturned⟩
  · exact ⟨found, by rw [hcalls, getElem?_set_ne (Ne.symm hother), hfound], hreturned⟩

theorem final_of_settle (s : State) (result : Turn) : Final s (s.settle result) := by
  intro caller call outcome hcall hphase
  rw [settle_calls, hcall, map_some]
  refine ⟨_, rfl, ?_⟩
  split <;> exact hphase

/-- A move is one of a call that has not returned, and it hands nothing over. -/
theorem moveCall_eq_some {move : Move} (hmove : s.moveCall capacity caller call move = some t) :
    (∀ outcome, call.phase ≠ .returned outcome) ∧ (∃ next, t.calls = s.calls.set caller next) ∧
      t.handed = s.handed := by
  cases move with
  | submit =>
    simp only [State.moveCall] at hmove
    split at hmove
    · rename_i hphase
      cases hmove
      refine ⟨by simp [hphase], ?_⟩
      unfold State.submit
      simp only
      split_ifs
      · exact ⟨⟨_, rfl⟩, rfl⟩
      · exact ⟨⟨_, rfl⟩, rfl⟩
      · exact ⟨⟨_, rfl⟩, rfl⟩
    · cases hmove
  | refuse refusal =>
    simp only [State.moveCall] at hmove
    split at hmove
    · rename_i hphase
      split_ifs at hmove
      cases hmove
      exact ⟨by simp [hphase], ⟨_, rfl⟩, rfl⟩
    · cases hmove
  | build | inquire | load | exchange | abandon =>
    simp only [State.moveCall] at hmove
    split at hmove
    · rename_i hphase
      cases hmove
      exact ⟨by simp [hphase], ⟨_, rfl⟩, rfl⟩
    · cases hmove
  | check =>
    simp only [State.moveCall] at hmove
    split at hmove
    · rename_i hphase
      split_ifs at hmove
      · cases hmove
        exact ⟨by simp [hphase], ⟨_, rfl⟩, rfl⟩
      · cases hmove
        exact ⟨by simp [hphase], ⟨_, rfl⟩, rfl⟩
    · cases hmove
  | poll =>
    simp only [State.moveCall] at hmove
    split at hmove
    · rename_i hphase _
      cases hmove
      exact ⟨by simp [hphase], ⟨_, rfl⟩, rfl⟩
    · rename_i hphase _
      split_ifs at hmove
      cases hmove
      exact ⟨by simp [hphase], ⟨_, rfl⟩, rfl⟩
    · cases hmove
  | expire =>
    simp only [State.moveCall] at hmove
    split at hmove
    · rename_i hphase _
      split_ifs at hmove
      cases hmove
      exact ⟨by simp [hphase], ⟨_, rfl⟩, rfl⟩
    · cases hmove
  | finish =>
    simp only [State.moveCall] at hmove
    split at hmove
    · rename_i hphase
      cases hmove
      exact ⟨by simp [hphase], ⟨_, rfl⟩, rfl⟩
    · rename_i hphase
      cases hmove
      exact ⟨by simp [hphase], ⟨_, rfl⟩, rfl⟩
    · cases hmove

theorem pop_final {lane : Lane} {change : Call → Call} (hpop : s.pop lane change = some t)
    (hphase : ∀ call, (change call).phase = call.phase) : Final s t := by
  unfold State.pop at hpop
  split at hpop
  · obtain ⟨call, hcall, hpop⟩ := bind_eq_some_iff.mp hpop
    cases hpop
    exact final_of_set hcall rfl fun _ hreturned ↦ (hphase call).trans hreturned
  · cases hpop

theorem check_final {guard : Except String Unit} (hcall : s.calls[command.caller]? = some call) :
    Final s (s.check token command call guard stage) := by
  unfold State.check
  simp only
  split
  · exact final_of_settle s _
  · split_ifs <;> exact final_of_calls rfl
  · split_ifs <;> exact final_of_calls rfl
  · split_ifs <;> exact final_of_calls rfl
  · split_ifs <;> exact final_of_calls rfl
  · split <;> exact final_of_calls rfl
  · split_ifs <;> exact final_of_calls rfl
  · exact final_of_calls rfl
  · split
    · exact final_of_calls rfl
    · split_ifs <;> exact final_of_calls rfl
  · split
    · exact final_of_calls rfl
    · split_ifs <;> exact final_of_calls rfl
  · split_ifs
    · exact final_of_set hcall rfl fun _ hreturned ↦ (call.exchangeWord_kept _).2.2.trans hreturned
    · exact final_of_calls rfl
  · split_ifs
    · exact final_of_calls rfl
    · exact final_of_set hcall rfl fun _ hreturned ↦ hreturned

/-- Every step keeps the results that calls have returned. -/
theorem act_final (hact : s.act token capacity label = some t) : Final s t := by
  cases label with
  | tick | ownerDropped | abort =>
    cases hact
    exact final_of_calls rfl
  | start kind expected deadline =>
    simp only [State.act, State.start] at hact
    split_ifs at hact
    cases hact
    intro caller call outcome hcall hphase
    exact ⟨call, getElem?_append_of_some hcall, hphase⟩
  | move caller move =>
    obtain ⟨call, hcall, hmove⟩ := bind_eq_some_iff.mp hact
    obtain ⟨hphase, ⟨next, hcalls⟩, -⟩ := moveCall_eq_some hmove
    exact final_of_set hcall hcalls fun outcome hreturned ↦ absurd hreturned (hphase outcome)
  | turn event =>
    simp only [State.act, State.turn] at hact
    split at hact
    · obtain ⟨result, -, hact⟩ := bind_eq_some_iff.mp hact
      split at hact
      · cases hact
        exact final_of_settle s result
      · cases hact
        exact final_of_settle s result
    · cases hact
  | receive lane =>
    simp only [State.act, State.receive] at hact
    split at hact
    · obtain ⟨call, hcall, hact⟩ := bind_eq_some_iff.mp hact
      split_ifs at hact
      cases hact
      exact final_of_set hcall rfl fun _ hreturned ↦ hreturned
    · cases hact
  | prepare guard =>
    simp only [State.act] at hact
    split at hact
    · obtain ⟨call, hcall, hact⟩ := bind_eq_some_iff.mp hact
      cases hact
      exact check_final hcall
    · cases hact
  | refuse =>
    simp only [State.act, State.refuse] at hact
    split at hact
    · obtain ⟨call, hcall, hact⟩ := bind_eq_some_iff.mp hact
      cases hact
      exact final_of_set hcall rfl fun _ hreturned ↦ hreturned
    · cases hact
  | announce =>
    simp only [State.act] at hact
    split at hact
    · cases hact
      exact final_of_calls rfl
    · cases hact
  | closeQueues | dropLifetime =>
    simp only [State.act] at hact
    split at hact
    · cases hact
      exact final_of_calls rfl
    · cases hact
      exact final_of_calls rfl
    · cases hact
  | drain =>
    simp only [State.act, State.drain] at hact
    split at hact
    · split at hact
      · exact pop_final hact fun _ ↦ rfl
      · cases hact
        exact final_of_calls rfl
    · cases hact
  | dropHeld =>
    simp only [State.act, State.dropHeld] at hact
    split at hact
    · obtain ⟨call, hcall, hact⟩ := bind_eq_some_iff.mp hact
      cases hact
      exact final_of_set hcall rfl fun _ hreturned ↦ hreturned
    · cases hact
  | dropSlot lane =>
    simp only [State.act] at hact
    split at hact
    · obtain ⟨command, -, hact⟩ := bind_eq_some_iff.mp hact
      obtain ⟨call, hcall, hact⟩ := bind_eq_some_iff.mp hact
      cases hact
      exact final_of_set hcall rfl fun _ hreturned ↦ hreturned
    · cases hact
  | dropQueued lane =>
    simp only [State.act] at hact
    split at hact
    · exact pop_final hact fun _ ↦ rfl
    · cases hact

theorem final_of_run {run : List (Label × State)} (hrun : (session token capacity).Run s run) :
    Final s (Machine.last s run) := by
  induction hrun with
  | nil s => exact final_of_calls rfl
  | cons hstep _ ih =>
    intro caller call outcome hcall hphase
    obtain ⟨next, hnext, hreturned⟩ := act_final hstep caller call outcome hcall hphase
    exact ih caller next outcome hnext hreturned

/-! ### Waiting calls get a result -/

/-- The call can come to a result by moves of its own, while time passes. -/
def Reports (token : ℕ) (capacity : Lane → ℕ) (s : State) (caller : ℕ) : Prop :=
  ∃ (labels : List Label) (t : State) (call : Call) (outcome : Outcome),
    (∀ label ∈ labels, label = .tick ∨ ∃ move, label = .move caller move) ∧
      labels.foldlM (State.act token capacity) s = some t ∧ t.calls[caller]? = some call ∧
        call.phase = .returned outcome

theorem Reports.step (hreports : Reports token capacity t caller)
    (hact : s.act token capacity label = some t)
    (hown : label = .tick ∨ ∃ move, label = .move caller move) :
    Reports token capacity s caller := by
  obtain ⟨labels, last, call, outcome, hlabels, hfold, hcall, hphase⟩ := hreports
  refine ⟨label :: labels, last, call, outcome, forall_mem_cons.mpr ⟨hown, hlabels⟩, ?_, hcall,
    hphase⟩
  rw [foldlM_cons, hact]
  exact hfold

/-- A call that makes a move reports when it does so afterwards. -/
theorem Reports.move (move : Move) (hcall : s.calls[caller]? = some call)
    (hmove : s.moveCall capacity caller call move = some (s.setCall caller next))
    (hreports : (s.setCall caller next).calls[caller]? = some next →
      Reports token capacity (s.setCall caller next) caller) : Reports token capacity s caller := by
  have hact : s.act token capacity (.move caller move) = some (s.setCall caller next) := by
    simp only [State.act, hcall]
    exact hmove
  refine (hreports ?_).step hact (.inr ⟨move, rfl⟩)
  simp [State.setCall, getElem?_set_of_some hcall]

section

variable (hcall : s.calls[caller]? = some call)
include hcall

theorem reports_of_returning (hphase : call.phase = .returning outcome) :
    Reports token capacity s caller := by
  refine Reports.move .finish hcall (by simp only [State.moveCall, hphase]; rfl) fun hnext ↦ ?_
  exact ⟨[], _, _, outcome, by simp, rfl, hnext, rfl⟩

theorem reports_of_loading {reason : Invalidation} (hphase : call.phase = .loading reason) :
    Reports token capacity s caller := by
  refine Reports.move .load hcall (by simp only [State.moveCall, hphase]; rfl) fun hnext ↦ ?_
  exact reports_of_returning hnext rfl

theorem reports_of_closed (hphase : call.phase = .closed) : Reports token capacity s caller := by
  refine Reports.move .inquire hcall (by simp only [State.moveCall, hphase]; rfl)
    fun hnext ↦ ?_
  exact reports_of_loading hnext rfl

theorem reports_of_expired (hphase : call.phase = .expired) : Reports token capacity s caller := by
  refine Reports.move .exchange hcall (by simp only [State.moveCall, hphase]; rfl)
    fun hnext ↦ ?_
  exact reports_of_returning hnext rfl

/-- The reply is there, the channel is closed, or the deadline comes. -/
theorem reports_of_waiting (hphase : call.phase = .waiting) : Reports token capacity s caller := by
  induction hwait : call.command.deadline - s.now generalizing s with
  | zero =>
    cases hreply : call.reply with
    | some outcome =>
      refine Reports.move .poll hcall (by simp only [State.moveCall, hphase, hreply]; rfl)
        fun hnext ↦ ?_
      exact reports_of_returning hnext rfl
    | none =>
      by_cases hplace : call.place = .dropped
      · refine Reports.move .poll hcall
          (by simp only [State.moveCall, hphase, hreply, hplace, if_true]; rfl) fun hnext ↦ ?_
        exact reports_of_closed hnext rfl
      · have hexpire : s.moveCall capacity caller call .expire =
            some (s.setCall caller { call with receiver := false, phase := .expired }) := by
          simp only [State.moveCall, hphase, hreply]
          rw [if_pos ⟨Nat.sub_eq_zero_iff_le.mp hwait, hplace⟩]
        exact Reports.move .expire hcall hexpire fun hnext ↦ reports_of_expired hnext rfl
  | succ wait ih =>
    have hlater : Reports token capacity { s with now := s.now + 1 } caller :=
      ih hcall (by simp only; omega)
    exact hlater.step rfl (.inl rfl)

end

/-- Moves of a call hand nothing over. -/
theorem handed_of_own {labels : List Label}
    (hlabels : ∀ label ∈ labels, label = .tick ∨ ∃ move, label = .move caller move)
    (hfold : labels.foldlM (State.act token capacity) s = some t) : t.handed = s.handed := by
  induction labels generalizing s with
  | nil =>
    obtain rfl : s = t := by simpa using hfold
    rfl
  | cons label labels ih =>
    rw [foldlM_cons] at hfold
    obtain ⟨next, hnext, hrest⟩ := bind_eq_some_iff.mp hfold
    obtain ⟨hfirst, hlabels⟩ := forall_mem_cons.mp hlabels
    rw [ih hlabels hrest]
    rcases hfirst with rfl | ⟨move, rfl⟩
    · cases hnext
      rfl
    · obtain ⟨call, -, hmove⟩ := bind_eq_some_iff.mp hnext
      exact (moveCall_eq_some hmove).2.2

/-- A call whose frame was handed over and whose future is still polled can come to a result. -/
theorem reports_of_handed (hs : s.Good) (hcall : s.calls[caller]? = some call)
    (hhanded : caller ∈ s.handed) (habandoning : call.phase ≠ .abandoning)
    (hgone : call.phase ≠ .gone) : Reports token capacity s caller := by
  have hfresh : ¬ (call.phase = .admitted ∨ call.phase = .built ∨ call.phase = .sending) := by
    intro hfresh
    have hsound := hs.sound caller call hcall
    have hplace := hsound.fresh hfresh
    exact hsound.notMem_handed (by simp [hplace]) (by simp [hplace]) hhanded
  cases hphase : call.phase with
  | admitted => exact absurd (.inl hphase) hfresh
  | built => exact absurd (.inr (.inl hphase)) hfresh
  | sending => exact absurd (.inr (.inr hphase)) hfresh
  | waiting => exact reports_of_waiting hcall hphase
  | closed => exact reports_of_closed hcall hphase
  | loading reason => exact reports_of_loading hcall hphase
  | expired => exact reports_of_expired hcall hphase
  | abandoning => exact absurd hphase habandoning
  | returning outcome => exact reports_of_returning hcall hphase
  | returned outcome => exact ⟨[], s, call, outcome, by simp, rfl, hcall, hphase⟩
  | gone => exact absurd hphase hgone

end Steps

/-- An outcome that is no refusal before the dispatch is one of the others. -/
theorem answered_or_unknown (houtcome : ¬ outcome.notDispatched) :
    outcome.Definite ∨ ∃ reason, outcome = .error (.unknown reason) := by
  cases outcome with
  | ok => exact .inl trivial
  | error error =>
    cases error with
    | beforeDispatch => exact absurd trivial houtcome
    | rejected | rejectedDetailed => exact .inl trivial
    | unknown reason => exact .inr ⟨reason, rfl⟩

/-- In every run of a session. A call that returned `BeforeDispatch` did not have its frame handed
to the writer and never will. No frame is handed over twice. A call whose frame was handed over and
that returned did so with data, with a rejection or with `Unknown`, and what a call returned stays
its result. A call whose frame was handed over and whose future was not dropped can always come to
such a result by its own moves, at its deadline if not before. -/
theorem verdicts_sound (token : ℕ) (capacity : Lane → ℕ) :
    (∀ s, (session token capacity).Reachable s → ∀ (caller : ℕ) (call : Call) (outcome : Outcome),
      s.calls[caller]? = some call → call.phase = .returned outcome → outcome.notDispatched →
        caller ∉ s.handed ∧ ∀ run, (session token capacity).Run s run →
          caller ∉ (Machine.last s run).handed) ∧
    (∀ s, (session token capacity).Reachable s → s.handed.Nodup) ∧
    (∀ s, (session token capacity).Reachable s → ∀ (caller : ℕ) (call : Call) (outcome : Outcome),
      s.calls[caller]? = some call → caller ∈ s.handed → call.phase = .returned outcome →
        outcome.Definite ∨ ∃ reason, outcome = .error (.unknown reason)) ∧
    (∀ s run, (session token capacity).Run s run → ∀ (caller : ℕ) (call : Call) (outcome : Outcome),
      s.calls[caller]? = some call → call.phase = .returned outcome →
        ∃ next, (Machine.last s run).calls[caller]? = some next ∧
          next.phase = .returned outcome) ∧
    (∀ s, (session token capacity).Reachable s → ∀ (caller : ℕ) (call : Call),
      s.calls[caller]? = some call → caller ∈ s.handed → call.phase ≠ .abandoning →
        call.phase ≠ .gone → ∃ (labels : List Label) (t : State) (next : Call) (outcome : Outcome),
          (∀ label ∈ labels, label = .tick ∨ ∃ move, label = .move caller move) ∧
            labels.foldlM (State.act token capacity) s = some t ∧ t.calls[caller]? = some next ∧
              next.phase = .returned outcome ∧
                (outcome.Definite ∨ ∃ reason, outcome = .error (.unknown reason))) := by
  have htold : ∀ s, (session token capacity).Reachable s →
      ∀ (caller : ℕ) (call : Call) (outcome : Outcome), s.calls[caller]? = some call →
        call.phase = .returned outcome → outcome.notDispatched → caller ∉ s.handed := by
    intro s hs caller call outcome hcall hphase hrefused
    exact (((good_of_session hs).sound caller call hcall).told outcome (.inr hphase) hrefused).1
  have hanswered : ∀ s, (session token capacity).Reachable s →
      ∀ (caller : ℕ) (call : Call) (outcome : Outcome), s.calls[caller]? = some call →
        caller ∈ s.handed → call.phase = .returned outcome →
          outcome.Definite ∨ ∃ reason, outcome = .error (.unknown reason) := by
    intro s hs caller call outcome hcall hhanded hphase
    exact answered_or_unknown fun hrefused ↦
      htold s hs caller call outcome hcall hphase hrefused hhanded
  refine ⟨?_, fun s hs ↦ (good_of_session hs).once, hanswered, ?_, ?_⟩
  · intro s hs caller call outcome hcall hphase hrefused
    refine ⟨htold s hs caller call outcome hcall hphase hrefused, fun run hrun ↦ ?_⟩
    obtain ⟨next, hnext, hreturned⟩ := final_of_run hrun caller call outcome hcall hphase
    exact htold _ (hrun.reachable hs) caller next outcome hnext hreturned hrefused
  · exact fun s run hrun ↦ final_of_run hrun
  · intro s hs caller call hcall hhanded habandoning hgone
    have hreports : Reports token capacity s caller :=
      reports_of_handed (good_of_session hs) hcall hhanded habandoning hgone
    obtain ⟨labels, t, next, outcome, hlabels, hfold, hnext, hphase⟩ := hreports
    refine ⟨labels, t, next, outcome, hlabels, hfold, hnext, hphase, ?_⟩
    refine hanswered t (Machine.Reachable.of_foldlM (fun _ _ _ h ↦ h) hs hfold) caller next outcome
      hnext ?_ hphase
    rw [handed_of_own hlabels hfold]
    exact hhanded

end ObsMcp.Session
