import ObsMcp.Recording.Ledger

/-!
# What a ticket of the recording-impact registry answers

`impact_veto` is the law of the tickets: `check` answers `ready` exactly when the owner lives, the
session is valid, the counters are not exhausted, nothing is pending and every attempt begun after
the reservation was settled as not dispatched; a revoked ticket stays revoked. The counters do run
out: `exhausted_ticket_revoked` is a run in which no attempt touched the recording and the ticket is
revoked all the same.
-/

namespace ObsMcp.Recording

open Foundations List

/-! ### Tickets -/

/-- The reasons for which a ticket is revoked. -/
def Revoked (epoch : ℕ) (system : System) : Prop :=
  system.state.alive = false ∨ system.invalidated = true ∨ system.state.terminal ≠ none ∨
    epoch < system.state.revokedThrough

variable {state : State} {outstanding upgraded : Bool} {system : System} {fates : List Fate}
  {token : ℕ}

/-- What `check` answers. -/
theorem check_status (invalidated : Bool) (epoch : ℕ)
    (hupgraded : state.alive = true → upgraded = true) :
    ((state.alive = false ∨ invalidated = true ∨ state.terminal ≠ none) ∧
        ∃ reason, (state.check upgraded invalidated epoch).1 = .revoked reason) ∨
      (state.alive = true ∧ invalidated = false ∧ state.terminal = none ∧
        (state.check upgraded invalidated epoch).1 = state.read epoch) := by
  unfold State.check
  cases upgraded with
  | false =>
    refine .inl ⟨.inl ?_, _, rfl⟩
    by_contra halive
    exact absurd (hupgraded (by simpa using halive)) (by simp)
  | true =>
    simp only [State.weak, if_true]
    rcases State.withState_cases (fun state ↦ (.ok (state.read epoch), state)) state invalidated
      with ⟨hdead, heq⟩ | ⟨-, reason, hreason, heq⟩ | ⟨halive, hterminal, hvalid, heq⟩
    · rw [heq]
      exact .inl ⟨.inl hdead, _, rfl⟩
    · rw [heq]
      refine .inl ⟨.inr ?_, _, rfl⟩
      by_cases hvalid : invalidated = true
      · exact .inl hvalid
      · rw [State.observe_eq_self (.inl (by simpa using hvalid))] at hreason
        exact .inr (by simp [hreason])
    · rw [heq]
      exact .inr ⟨halive, hvalid, hterminal, rfl⟩

variable {count epoch id : ℕ} {ticket : Ticket}

theorem read_eq_ready_iff :
    state.read epoch = .ready ↔ ¬ epoch < state.revokedThrough ∧ state.pending = none := by
  unfold State.read
  split_ifs with hrevoked
  · simp [hrevoked]
  · cases state.pending with
    | none => simp [hrevoked]
    | some id => simp

theorem check_eq_ready_iff (invalidated : Bool) (epoch : ℕ)
    (hupgraded : state.alive = true → upgraded = true) :
    (state.check upgraded invalidated epoch).1 = .ready ↔ state.alive = true ∧
      invalidated = false ∧ state.terminal = none ∧ state.pending = none ∧
      ¬ epoch < state.revokedThrough := by
  rcases check_status invalidated epoch hupgraded with
    ⟨hclosed, reason, hstatus⟩ | ⟨halive, hvalid, hterminal, hstatus⟩
  · rw [hstatus]
    constructor
    · intro hready
      cases hready
    · rintro ⟨halive, hvalid, hterminal, -⟩
      rcases hclosed with h | h | h
      · exact absurd (h.symm.trans halive) Bool.false_ne_true
      · exact absurd (hvalid.symm.trans h) Bool.false_ne_true
      · exact absurd hterminal h
  · rw [hstatus, read_eq_ready_iff]
    exact ⟨fun h ↦ ⟨halive, hvalid, hterminal, h.2, h.1⟩, fun h ↦ ⟨h.2.2.2.2, h.2.2.2.1⟩⟩

theorem check_revoked_iff (epoch : ℕ) (hupgraded : system.state.alive = true → upgraded = true) :
    (∃ reason, (system.state.check upgraded system.invalidated epoch).1 = .revoked reason) ↔
      Revoked epoch system := by
  rcases check_status system.invalidated epoch hupgraded with
    ⟨hclosed, hstatus⟩ | ⟨halive, hvalid, hterminal, hstatus⟩
  · refine ⟨fun _ ↦ ?_, fun _ ↦ hstatus⟩
    rcases hclosed with h | h | h
    · exact .inl h
    · exact .inr (.inl h)
    · exact .inr (.inr (.inl h))
  · rw [hstatus]
    unfold State.read Revoked
    split_ifs with hrevoked
    · exact ⟨fun _ ↦ .inr (.inr (.inr hrevoked)), fun _ ↦ ⟨_, rfl⟩⟩
    · cases system.state.pending with
      | none => simp [halive, hvalid, hterminal, hrevoked]
      | some id => simp [halive, hvalid, hterminal, hrevoked]

/-- A revoked ticket stays revoked in every step. -/
theorem Revoked.step {after : System} (hledger : Ledger system fates outstanding)
    (heffect : System.Effect system after) (hrevoked : Revoked epoch system) :
    Revoked epoch after := by
  have hwatermark : system.Live → epoch < system.state.revokedThrough := by
    intro hlive
    rcases hrevoked with h | h | h | h
    · exact absurd (h.symm.trans hlive.alive) Bool.false_ne_true
    · exact absurd (hlive.valid.symm.trans h) Bool.false_ne_true
    · exact absurd hlive.terminal h
    · exact h
  cases heffect with
  | look hstate =>
    rcases hstate with rfl | ⟨-, hterminal⟩
    · exact hrevoked
    · exact .inr (.inr (.inl hterminal))
  | reserve hlive hfree => exact hrevoked
  | begin hlive hfree hid hrevision => exact .inr (.inr (.inr (hwatermark hlive)))
  | exhaust hlive hfree hfull hterminal hpending =>
    exact .inr (.inr (.inl (by simp [hterminal])))
  | settle hlive hpending hstate =>
    have hbalanced := hledger.balanced hlive.alive hlive.terminal
    have hle := Ledger.revokedThrough_le hbalanced
    have hlt := hwatermark hlive
    obtain ⟨-, rfl⟩ := Ledger.outstanding_of_pending hbalanced hpending
    refine .inr (.inr (.inr ?_))
    rw [State.advance_revokedThrough, hstate]
    show epoch < ite _ _ _
    split_ifs <;> omega
  | invalidate => exact .inr (.inl rfl)
  | drop => exact .inl State.advance_alive

/-- No attempt that was begun after the reservation may have touched the recording. -/
def Untouched (ticket : Ticket) (system : System) : Prop :=
  ∀ id, .begun id ∈ system.history.drop ticket.mark → .settled id .notDispatched ∈ system.history

theorem untouched_iff (hledger : Ledger system fates false) (hticket : ticket ∈ system.tickets) :
    Untouched ticket system ↔
      ∀ index fate, ticket.epoch ≤ index → fates[index]? = some fate → fate = .notDispatched := by
  obtain ⟨hle, hmark⟩ := hledger.tickets ticket hticket
  have hhistory : system.history = ledgerFrom 0 fates := by simpa [open?] using hledger.history
  have hdrop : system.history.drop ticket.mark =
      ledgerFrom ticket.epoch (fates.drop ticket.epoch) := by
    have hsplit := ledgerFrom_append 0 (fates.take ticket.epoch) (fates.drop ticket.epoch)
    rw [take_append_drop, length_take, Nat.min_eq_left hle, Nat.zero_add] at hsplit
    rw [hhistory, hsplit, hmark]
    exact drop_left' (by rw [length_ledgerFrom, length_take, Nat.min_eq_left hle])
  unfold Untouched
  rw [hdrop, hhistory]
  simp only [begun_mem_ledgerFrom, settled_mem_ledgerFrom, length_drop]
  constructor
  · intro hall index fate hindex hfate
    obtain ⟨hlength, -⟩ := List.getElem?_eq_some_iff.mp hfate
    obtain ⟨other, hother, hsettled⟩ := hall (index + 1) ⟨by omega, by omega⟩
    obtain rfl : index = other := by omega
    rw [hfate] at hsettled
    exact Option.some.inj hsettled
  · rintro hall id ⟨hlt, hbound⟩
    have hindex : id - 1 < fates.length := by omega
    refine ⟨id - 1, by omega, ?_⟩
    rw [getElem?_eq_getElem hindex]
    exact congrArg some (hall (id - 1) _ (by omega) (getElem?_eq_getElem hindex))

/-! ### The law of the registry -/

/-- The attempt was begun and its fate is not known. -/
def Unsettled (id : ℕ) (system : System) : Prop :=
  .begun id ∈ system.history ∧ ∀ fate, .settled id fate ∉ system.history

theorem unsettled_iff (hledger : Ledger system fates outstanding) :
    Unsettled id system ↔ outstanding = true ∧ id = fates.length + 1 := by
  unfold Unsettled
  simp only [hledger.history, mem_append, begun_mem_ledgerFrom, settled_mem_ledgerFrom]
  constructor
  · rintro ⟨⟨hlt, hle⟩ | hopen, hunsettled⟩
    · have hindex : id - 1 < fates.length := by omega
      refine absurd ?_ (hunsettled (fates.get ⟨id - 1, hindex⟩))
      exact .inl ⟨id - 1, by omega, getElem?_eq_getElem hindex⟩
    · cases outstanding with
      | false => cases hopen
      | true => exact ⟨rfl, by simpa [open?] using hopen⟩
  · rintro ⟨rfl, rfl⟩
    refine ⟨.inr (by simp [open?]), fun fate hsettled ↦ ?_⟩
    rcases hsettled with ⟨index, hid, hfate⟩ | hopen
    · obtain ⟨hlength, -⟩ := List.getElem?_eq_some_iff.mp hfate
      omega
    · simp [open?] at hopen

theorem begunIds_of_ledger (hledger : Ledger system fates outstanding) :
    begunIds system.history = List.range' 1 (fates.length + outstanding.toNat) := by
  rw [hledger.history, begunIds_append, begunIds_ledgerFrom]
  cases outstanding with
  | false => simp [open?, begunIds]
  | true => simp [open?, begunIds, range'_concat, Nat.add_comm]

/-- Looking twice answers what looking once answers. -/
theorem check_observe {invalidated : Bool} (upgraded : Bool) (epoch : ℕ) :
    ((state.observe invalidated).check upgraded invalidated epoch).1 =
      (state.check upgraded invalidated epoch).1 := by
  have htwice : (state.observe invalidated).observe invalidated = state.observe invalidated := by
    refine State.observe_eq_self ?_
    by_cases hvalid : invalidated = true
    · exact .inr (State.observe_terminal hvalid)
    · exact .inl (by simpa using hvalid)
  cases upgraded with
  | false => rfl
  | true =>
    simp only [State.check, State.weak, if_true, State.withState, State.observe_alive, htwice]
    cases state.alive with
    | false => rfl
    | true =>
      cases hterminal : (state.observe invalidated).terminal with
      | some reason => simp
      | none => simp

/-- A settlement of an attempt that is not pending leaves what was begun and settled, the tickets
and what they answer. It records an invalidation of the session that has happened, as every method
does; without one it leaves the whole state. -/
theorem stale_settlement {fate : Fate} (hupgraded : system.state.alive = true → upgraded = true)
    (hstale : system.state.pending ≠ some id) :
    ((system.apply token (.finish upgraded id fate)).history = system.history ∧
      (system.apply token (.finish upgraded id fate)).tickets = system.tickets ∧
      ∀ again epoch, ((system.apply token (.finish upgraded id fate)).state.check again
        system.invalidated epoch).1 = (system.state.check again system.invalidated epoch).1) ∧
    (system.invalidated = false ∨ system.state.terminal ≠ none →
      system.apply token (.finish upgraded id fate) = system) := by
  rcases State.weak_cases (State.settlePending id fate.revocation) system.invalidated hupgraded with
    ⟨error, state, heq, hlook⟩ | ⟨halive, hterminal, hvalid, heq⟩
  · have happly : system.apply token (.finish upgraded id fate) = { system with state } := by
      simp only [System.apply, State.finish, heq]
    rw [happly]
    rcases hlook with rfl | ⟨rfl, -⟩
    · exact ⟨⟨rfl, rfl, fun _ _ ↦ rfl⟩, fun _ ↦ rfl⟩
    · refine ⟨⟨rfl, rfl, fun again epoch ↦ check_observe again epoch⟩, fun hidle ↦ ?_⟩
      rw [State.observe_eq_self hidle]
  · have happly : system.apply token (.finish upgraded id fate) = system := by
      simp only [System.apply, State.finish, heq, State.settlePending, ne_eq, hstale,
        not_false_eq_true, if_true]
    rw [happly]
    exact ⟨⟨rfl, rfl, fun _ _ ↦ rfl⟩, fun _ ↦ rfl⟩

/-- At most one attempt is without a fate, only it can be pending, and the identities grow. -/
theorem attempts_of_ledger (hledger : Ledger system fates outstanding) :
    (∀ id other, Unsettled id system → Unsettled other system → id = other) ∧
      (∀ id, system.state.pending = some id → Unsettled id system) ∧
      (begunIds system.history).Pairwise (· < ·) ∧
      ∀ id ∈ begunIds system.history, id < 2 ^ 64 := by
  have hids := begunIds_of_ledger hledger
  refine ⟨?_, ?_, ?_, ?_⟩
  · intro id other hid hother
    rw [((unsettled_iff hledger).mp hid).2, ((unsettled_iff hledger).mp hother).2]
  · intro id hpending
    have hbalanced : Balanced system.state fates outstanding := by
      refine hledger.balanced ?_ ?_
      · by_contra hdead
        have := hledger.closed (.inl (by simpa using hdead))
        simp [this] at hpending
      · by_contra hterminal
        have := hledger.closed (.inr hterminal)
        simp [this] at hpending
    exact (unsettled_iff hledger).mpr (Ledger.outstanding_of_pending hbalanced hpending)
  · rw [hids]
    exact pairwise_lt_range'
  · intro id hid
    rw [hids, mem_range'_1] at hid
    have := hledger.ids
    omega

/-- When a ticket is ready. -/
theorem ready_iff_of_ledger (hledger : Ledger system fates outstanding)
    (hticket : ticket ∈ system.tickets) (hupgraded : system.state.alive = true → upgraded = true) :
    (system.state.check upgraded system.invalidated ticket.epoch).1 = .ready ↔
      system.state.alive = true ∧ system.invalidated = false ∧
      system.state.terminal ≠ some .identityExhausted ∧ system.state.pending = none ∧
      Untouched ticket system := by
  rw [check_eq_ready_iff system.invalidated ticket.epoch hupgraded]
  refine and_congr_right fun halive ↦ and_congr_right fun hvalid ↦ ?_
  have hterminal : system.state.terminal = none ↔
      system.state.terminal ≠ some .identityExhausted := by
    constructor
    · intro hnone
      simp [hnone]
    · intro hne
      by_contra hterminal
      exact hne (hledger.exhausted halive hvalid hterminal).1
  rw [← hterminal]
  refine and_congr_right fun hnone ↦ and_congr_right fun hfree ↦ ?_
  have hbalanced := hledger.balanced halive hnone
  obtain rfl := Ledger.not_outstanding hbalanced hfree
  rw [untouched_iff hledger hticket, hbalanced.watermark]
  constructor
  · intro hnot index fate hindex hfate
    by_contra hne
    exact hnot ⟨index, fate, hindex, hfate, hne⟩
  · rintro hall ⟨index, fate, hindex, hfate, hne⟩
    exact hne (hall index fate hindex hfate)

/-- The law of the registry, in every state of every run: at most one attempt is without a fate and
only it can be pending; the identities grow and fit 64 bits; a ticket is ready exactly when the
owner lives, the session is valid, the counters are not exhausted, nothing is pending and every
attempt begun after its reservation was not dispatched; the counters are exhausted only when the
history has at least `2 ^ 64 - 1` entries, one for each begin and one for each settlement; a revoked
ticket stays revoked; a settlement of an attempt that is not pending changes no history and no
ticket. -/
theorem impact_veto (token : ℕ) :
    (∀ system, (registry token).Reachable system →
      (∀ id other, Unsettled id system → Unsettled other system → id = other) ∧
      (∀ id, system.state.pending = some id → Unsettled id system) ∧
      (begunIds system.history).Pairwise (· < ·) ∧
      ∀ id ∈ begunIds system.history, id < 2 ^ 64) ∧
    (∀ system, (registry token).Reachable system → ∀ ticket ∈ system.tickets, ∀ upgraded,
      (system.state.alive = true → upgraded = true) →
      ((system.state.check upgraded system.invalidated ticket.epoch).1 = .ready ↔
        system.state.alive = true ∧ system.invalidated = false ∧
        system.state.terminal ≠ some .identityExhausted ∧ system.state.pending = none ∧
        Untouched ticket system)) ∧
    (∀ system, (registry token).Reachable system →
      system.state.alive = true → system.invalidated = false →
      system.state.terminal = some .identityExhausted → 2 ^ 64 ≤ system.history.length + 1) ∧
    (∀ system, (registry token).Reachable system →
      ∀ epoch run upgraded again, (registry token).Run system run →
        (system.state.alive = true → upgraded = true) →
        ((Machine.last system run).state.alive = true → again = true) →
        (∃ reason, (system.state.check upgraded system.invalidated epoch).1 = .revoked reason) →
          ∃ reason, ((Machine.last system run).state.check again
            (Machine.last system run).invalidated epoch).1 = .revoked reason) ∧
    ∀ system, (registry token).Reachable system → ∀ upgraded id fate,
      (system.state.alive = true → upgraded = true) → system.state.pending ≠ some id →
      ((system.apply token (.finish upgraded id fate)).history = system.history ∧
        (system.apply token (.finish upgraded id fate)).tickets = system.tickets ∧
        ∀ again epoch, ((system.apply token (.finish upgraded id fate)).state.check again
          system.invalidated epoch).1 = (system.state.check again system.invalidated epoch).1) ∧
      (system.invalidated = false ∨ system.state.terminal ≠ none →
        system.apply token (.finish upgraded id fate) = system) := by
  refine ⟨fun system hsystem ↦ ?_, fun system hsystem ticket hticket upgraded hupgraded ↦ ?_,
    fun system hsystem halive hvalid hterminal ↦ ?_,
    fun system hsystem epoch run upgraded again hrun hupgraded hagain hrevoked ↦ ?_,
    fun system _ upgraded id fate ↦ stale_settlement⟩
  · obtain ⟨fates, outstanding, hledger⟩ := ledger_of_reachable hsystem
    exact attempts_of_ledger hledger
  · obtain ⟨fates, outstanding, hledger⟩ := ledger_of_reachable hsystem
    exact ready_iff_of_ledger hledger hticket hupgraded
  · obtain ⟨fates, outstanding, hledger⟩ := ledger_of_reachable hsystem
    exact (hledger.exhausted halive hvalid (by simp [hterminal])).2
  · rw [check_revoked_iff epoch hupgraded] at hrevoked
    rw [check_revoked_iff epoch hagain]
    have hkept : (registry token).Reachable (Machine.last system run) ∧
        Revoked epoch (Machine.last system run) := by
      refine Machine.Run.keeps (m := registry token)
        (fun system ↦ (registry token).Reachable system ∧ Revoked epoch system) ?_ hrun
        ⟨hsystem, hrevoked⟩
      rintro system event after ⟨hsystem, hrevoked⟩ hstep
      obtain ⟨fates, outstanding, hledger⟩ := ledger_of_reachable hsystem
      exact ⟨hsystem.step hstep, hrevoked.step hledger (System.effect_of_step hstep)⟩
    exact hkept.2

/-! ### A run that exhausts the revisions -/

/-- A ticket reserved at the start, and then only attempts that were not dispatched. -/
def harmless (count : ℕ) : System where
  state := { State.bind with lastId := count, revision := 2 * count }
  invalidated := false
  history := ledgerFrom 0 (List.replicate count .notDispatched)
  tickets := [⟨0, 0⟩]

/-- The same with one more attempt sent. -/
def sent (count : ℕ) : System where
  state := { State.bind with
    lastId := count + 1
    pending := some (count + 1)
    revision := 2 * count + 1 }
  invalidated := false
  history := ledgerFrom 0 (List.replicate count .notDispatched) ++ [.begun (count + 1)]
  tickets := [⟨0, 0⟩]

theorem apply_beginAtSend (hcount : 2 * count + 1 < 2 ^ 64) :
    (harmless count).apply token (.beginAtSend true token) = sent count := by
  have heq : (harmless count).state.beginAtSend true (harmless count).invalidated token token =
      (harmless count).state.beginAttempt := by
    unfold State.beginAtSend
    rw [if_neg (by simp)]
    rfl
  have hattempt : (harmless count).state.beginAttempt = _ :=
    State.beginAttempt_of_lt rfl rfl (by show count + 1 < 2 ^ 64; omega) hcount
  unfold System.apply
  dsimp only
  rw [heq, hattempt]
  rfl

theorem apply_finish :
    (sent count).apply token (.finish true (count + 1) .notDispatched) =
      { sent count with
        state := { (sent count).state with pending := none }.advance
        history := ledgerFrom 0 (List.replicate (count + 1) .notDispatched) } := by
  have heq : (sent count).state.finish true (sent count).invalidated (count + 1) .notDispatched =
      (.ok (), { (sent count).state with pending := none }.advance) :=
    @State.settlePending_of_pending (sent count).state (count + 1) rfl .notDispatched
  have hhistory : (sent count).history ++ [Entry.settled (count + 1) .notDispatched] =
      ledgerFrom 0 (List.replicate (count + 1) .notDispatched) := by
    rw [replicate_succ', ledgerFrom_append]
    simp [sent, ledgerFrom]
  unfold System.apply
  dsimp only
  rw [heq, hhistory]

/-- Attempts that are not dispatched lead from one harmless state to the next. -/
theorem harmless_reachable (token count : ℕ) (hcount : 2 * count < 2 ^ 64) :
    (registry token).Reachable (harmless count) := by
  induction count with
  | zero =>
    have hinitial : (registry token).Reachable ⟨.bind, false, [], []⟩ := .initial rfl
    exact hinitial.step (e := .reserve true) ⟨fun _ ↦ rfl, by simp, rfl⟩
  | succ count ih =>
    have hsent : (registry token).Reachable (sent count) :=
      (ih (by omega)).step (e := .beginAtSend true token)
        ⟨fun _ ↦ rfl, by simp, (apply_beginAtSend (by omega)).symm⟩
    refine hsent.step (e := .finish true (count + 1) .notDispatched) ⟨fun _ ↦ rfl, by simp, ?_⟩
    rw [apply_finish, State.advance_of_lt (by show 2 * count + 1 + 1 < 2 ^ 64; omega)]
    rfl

/-- After `2 ^ 63` attempts that were not dispatched the revisions are exhausted: the owner lives,
the session is valid, nothing is pending and no attempt touched the recording, and the ticket of
the start is revoked. -/
theorem exhausted_ticket_revoked :
    ∃ system, (registry 1).Reachable system ∧ ∃ ticket ∈ system.tickets,
      system.state.alive = true ∧ system.invalidated = false ∧ system.state.pending = none ∧
      Untouched ticket system ∧
      (system.state.check true system.invalidated ticket.epoch).1 =
        .revoked .identityExhausted := by
  have hreachable := harmless_reachable 1 (2 ^ 63 - 1) (by decide)
  have hsent : (registry 1).Reachable (sent (2 ^ 63 - 1)) :=
    hreachable.step (e := .beginAtSend true 1)
      ⟨fun _ ↦ rfl, by simp, (apply_beginAtSend (by decide)).symm⟩
  have hlast := hsent.step (e := .finish true (2 ^ 63 - 1 + 1) .notDispatched)
    ⟨fun _ ↦ rfl, by simp, rfl⟩
  rw [apply_finish, State.advance_of_le (by show 2 ^ 64 ≤ 2 * (2 ^ 63 - 1) + 1 + 1; decide)]
    at hlast
  refine ⟨_, hlast, ⟨0, 0⟩, mem_singleton_self _, rfl, rfl, rfl, ?_, rfl⟩
  intro id hid
  have hbegun : .begun id ∈ ledgerFrom 0 (List.replicate (2 ^ 63 - 1 + 1) Fate.notDispatched) :=
    hid
  rw [begun_mem_ledgerFrom, length_replicate] at hbegun
  refine settled_mem_ledgerFrom.mpr ⟨id - 1, by omega, ?_⟩
  rw [getElem?_replicate, if_pos (by omega)]

end ObsMcp.Recording
