import ObsMcp.Foundations.Indexed
import ObsMcp.Recording.Impact

/-!
# The ledger of attempts

`Effect` says once what a step of the registry does: it only looks, it reserves, begins or settles,
it runs out of identities or revisions, the session is invalidated or the owner dropped. `Ledger`
is the invariant of every run (`ledger_of_reachable`): the history is the sequence of the attempts
in the order of their identities, each begun and settled before the next, and the numbers of the
state are read off it.
-/

namespace ObsMcp.Recording

open Foundations List

/-! ### What a method does -/

namespace State

variable {α : Type} {state : State} {invalidated upgraded : Bool}

theorem advance_of_lt (hlt : state.revision + 1 < 2 ^ 64) :
    state.advance = { state with revision := state.revision + 1 } := by
  have hadd : checkedAdd state.revision 1 = some (state.revision + 1) := if_pos hlt
  simp [advance, hadd]

theorem advance_of_le (hle : 2 ^ 64 ≤ state.revision + 1) :
    state.advance = { state with terminal := some .identityExhausted, pending := none } := by
  have hadd : checkedAdd state.revision 1 = none := if_neg (by omega)
  simp [advance, hadd]

@[simp] theorem advance_alive : state.advance.alive = state.alive := by
  unfold advance
  cases checkedAdd state.revision 1 <;> rfl

@[simp] theorem advance_revokedThrough : state.advance.revokedThrough = state.revokedThrough := by
  unfold advance
  cases checkedAdd state.revision 1 <;> rfl

theorem advance_terminal (hterminal : state.terminal ≠ none) : state.advance.terminal ≠ none := by
  unfold advance
  cases checkedAdd state.revision 1 with
  | none => simp
  | some next => exact hterminal

theorem advance_pending (hpending : state.pending = none) : state.advance.pending = none := by
  unfold advance
  cases checkedAdd state.revision 1 with
  | none => rfl
  | some next => exact hpending

@[simp] theorem observe_alive : (state.observe invalidated).alive = state.alive := by
  unfold observe
  split_ifs <;> simp

theorem observe_eq_self (hidle : invalidated = false ∨ state.terminal ≠ none) :
    state.observe invalidated = state := by
  refine if_neg ?_
  rcases hidle with rfl | hterminal
  · simp
  · simp [Option.isNone_iff_eq_none, hterminal]

/-- An invalidation that was not recorded is recorded. -/
theorem observe_terminal (hinvalidated : invalidated = true) :
    (state.observe invalidated).terminal ≠ none := by
  by_cases hterminal : state.terminal = none
  · have hobserve : state.observe invalidated =
        { state with terminal := some .connectionClosed, pending := none }.advance :=
      if_pos (by simp [hinvalidated, hterminal])
    rw [hobserve]
    exact advance_terminal (by simp)
  · rw [observe_eq_self (.inr hterminal)]
    exact hterminal

theorem observe_pending (hpending : state.terminal ≠ none → state.pending = none)
    (hterminal : (state.observe invalidated).terminal ≠ none) :
    (state.observe invalidated).pending = none := by
  unfold observe at hterminal ⊢
  split_ifs at hterminal ⊢ with hrecord
  · exact advance_pending rfl
  · exact hpending hterminal

/-- A method fails on a dropped owner or at the end of the registry, or it runs. -/
theorem withState_cases (f : State → Except ImpactError α × State) (state : State)
    (invalidated : Bool) :
    (state.alive = false ∧ state.withState invalidated f = (.error .ownerGone, state)) ∨
      (state.alive = true ∧ ∃ reason, (state.observe invalidated).terminal = some reason ∧
        state.withState invalidated f =
          (.error (terminalError reason), state.observe invalidated)) ∨
      (state.alive = true ∧ state.terminal = none ∧ invalidated = false ∧
        state.withState invalidated f = f state) := by
  cases halive : state.alive with
  | false => exact .inl ⟨rfl, by simp [withState, halive]⟩
  | true =>
    refine .inr ?_
    cases hterminal : (state.observe invalidated).terminal with
    | some reason => exact .inl ⟨rfl, reason, rfl, by simp [withState, halive, hterminal]⟩
    | none =>
      have hvalid : invalidated = false := by
        by_contra hinvalidated
        exact observe_terminal (by simpa using hinvalidated) hterminal
      have hself : state.observe invalidated = state := observe_eq_self (.inl hvalid)
      rw [hself] at hterminal
      exact .inr ⟨rfl, hterminal, hvalid, by simp [withState, halive, hself, hterminal]⟩

/-- A method behind a weak reference that a living owner lets upgrade: it fails and at most
records the invalidation, or it runs. -/
theorem weak_cases (f : State → Except ImpactError α × State) (invalidated : Bool)
    (hupgraded : state.alive = true → upgraded = true) :
    (∃ error after, state.weak upgraded (withState invalidated f) = (.error error, after) ∧
        (after = state ∨ (after = state.observe invalidated ∧ after.terminal ≠ none))) ∨
      (state.alive = true ∧ state.terminal = none ∧ invalidated = false ∧
        state.weak upgraded (withState invalidated f) = f state) := by
  cases upgraded with
  | true =>
    rcases withState_cases f state invalidated with ⟨-, heq⟩ | ⟨-, reason, hreason, heq⟩ | hrun
    · exact .inl ⟨_, _, heq, .inl rfl⟩
    · exact .inl ⟨_, _, heq, .inr ⟨rfl, by simp [hreason]⟩⟩
    · exact .inr hrun
  | false => exact .inl ⟨_, _, rfl, .inl rfl⟩

/-- An attempt that finds both counters free takes the slot. -/
theorem beginAttempt_of_lt (hterminal : state.terminal = none) (hfree : state.pending = none)
    (hid : state.lastId + 1 < 2 ^ 64) (hrevision : state.revision + 1 < 2 ^ 64) :
    state.beginAttempt = (.ok (state.lastId + 1), { state with
      lastId := state.lastId + 1
      pending := some (state.lastId + 1)
      revision := state.revision + 1 }) := by
  have hnext : checkedAdd state.lastId 1 = some (state.lastId + 1) := if_pos hid
  have hadvance : checkedAdd state.revision 1 = some (state.revision + 1) := if_pos hrevision
  simp [beginAttempt, hfree, hnext, advance, hadvance, hterminal]

/-- An attempt that finds a counter full ends the registry. -/
theorem beginAttempt_of_full (hfree : state.pending = none)
    (hfull : ¬ (state.lastId + 1 < 2 ^ 64 ∧ state.revision + 1 < 2 ^ 64)) :
    ∃ after, state.beginAttempt = (.error .identityExhausted, after) ∧
      after.terminal = some .identityExhausted ∧ after.pending = none := by
  by_cases hid : state.lastId + 1 < 2 ^ 64
  · have hnext : checkedAdd state.lastId 1 = some (state.lastId + 1) := if_pos hid
    have hadvance : checkedAdd state.revision 1 = none := if_neg fun hlt ↦ hfull ⟨hid, hlt⟩
    exact ⟨_, by simp [beginAttempt, hfree, hnext, advance, hadvance]; rfl, rfl, rfl⟩
  · have hnext : checkedAdd state.lastId 1 = none := if_neg hid
    refine ⟨_, by simp [beginAttempt, hfree, hnext]; rfl, ?_, ?_⟩
    · unfold advance
      cases checkedAdd state.revision 1 <;> rfl
    · exact advance_pending rfl

theorem settlePending_of_pending {id : ℕ} (hpending : state.pending = some id) (fate : Fate) :
    state.settlePending id fate.revocation = (.ok (), { state with
      pending := none
      revokedThrough := if fate = Fate.notDispatched then state.revokedThrough else id
      reason := fate.revocation.getD state.reason }.advance) := by
  cases fate <;> simp [settlePending, hpending, Fate.revocation]

end State

/-! ### What a step does -/

namespace System

/-- The registry takes requests. -/
structure Live (system : System) : Prop where
  alive : system.state.alive = true
  terminal : system.state.terminal = none
  valid : system.invalidated = false

/-- What a step can do. -/
inductive Effect (system : System) : System → Prop
  | look {state : State} (hstate : state = system.state ∨
      (state = system.state.observe system.invalidated ∧ state.terminal ≠ none)) :
      Effect system { system with state }
  | reserve (hlive : system.Live) (hfree : system.state.pending = none) :
      Effect system { system with
        tickets := ⟨system.state.lastId, system.history.length⟩ :: system.tickets }
  | begin (hlive : system.Live) (hfree : system.state.pending = none)
      (hid : system.state.lastId + 1 < 2 ^ 64) (hrevision : system.state.revision + 1 < 2 ^ 64) :
      Effect system { system with
        state := { system.state with
          lastId := system.state.lastId + 1
          pending := some (system.state.lastId + 1)
          revision := system.state.revision + 1 }
        history := system.history ++ [.begun (system.state.lastId + 1)] }
  | exhaust {state : State} (hlive : system.Live) (hfree : system.state.pending = none)
      (hfull : 2 ^ 64 ≤ system.state.lastId + 1 ∨ 2 ^ 64 ≤ system.state.revision + 1)
      (hterminal : state.terminal = some .identityExhausted) (hpending : state.pending = none) :
      Effect system { system with state }
  | settle {id : ℕ} {fate : Fate} {state : State} (hlive : system.Live)
      (hpending : system.state.pending = some id)
      (hstate : state = { system.state with
        pending := none
        revokedThrough := if fate = Fate.notDispatched then system.state.revokedThrough else id
        reason := fate.revocation.getD system.state.reason }) :
      Effect system { system with
        state := state.advance
        history := system.history ++ [.settled id fate] }
  | invalidate : Effect system { system with invalidated := true }
  | drop : Effect system { system with state := system.state.drop }

variable {token : ℕ} {system after : System} {event : Event} {upgraded : Bool}

section

variable (hupgraded : system.state.alive = true → upgraded = true)
include hupgraded

theorem effect_of_reserve : Effect system (system.apply token (.reserve upgraded)) := by
  rcases State.weak_cases State.epoch system.invalidated hupgraded with
    ⟨error, state, heq, hlook⟩ | ⟨halive, hterminal, hvalid, heq⟩
  · simp only [apply, State.reserveTake, heq]
    exact .look hlook
  · simp only [apply, State.reserveTake, heq, State.epoch]
    cases hpending : system.state.pending with
    | some id => exact .look (.inl rfl)
    | none => exact .reserve ⟨halive, hterminal, hvalid⟩ hpending

theorem effect_of_beginAtSend {expected : ℕ} :
    Effect system (system.apply token (.beginAtSend upgraded expected)) := by
  by_cases htoken : expected ≠ token
  · simp only [apply, State.beginAtSend, if_pos htoken]
    exact .look (.inl rfl)
  rcases State.weak_cases State.beginAttempt system.invalidated hupgraded with
    ⟨error, state, heq, hlook⟩ | ⟨halive, hterminal, hvalid, heq⟩
  · simp only [apply, State.beginAtSend, if_neg htoken, heq]
    exact .look hlook
  · have hlive : system.Live := ⟨halive, hterminal, hvalid⟩
    simp only [apply, State.beginAtSend, if_neg htoken, heq]
    cases hpending : system.state.pending with
    | some id =>
      simp only [State.beginAttempt, hpending, Option.isSome_some, if_true]
      exact .look (.inl rfl)
    | none =>
      by_cases hfits : system.state.lastId + 1 < 2 ^ 64 ∧ system.state.revision + 1 < 2 ^ 64
      · simp only [State.beginAttempt_of_lt hterminal hpending hfits.1 hfits.2]
        exact .begin hlive hpending hfits.1 hfits.2
      · obtain ⟨state, heq, hexhausted, hnone⟩ := State.beginAttempt_of_full hpending hfits
        simp only [heq]
        exact .exhaust hlive hpending (by omega) hexhausted hnone

theorem effect_of_finish {id : ℕ} {fate : Fate} :
    Effect system (system.apply token (.finish upgraded id fate)) := by
  rcases State.weak_cases (State.settlePending id fate.revocation) system.invalidated hupgraded with
    ⟨error, state, heq, hlook⟩ | ⟨halive, hterminal, hvalid, heq⟩
  · simp only [apply, State.finish, heq]
    exact .look hlook
  · simp only [apply, State.finish, heq]
    by_cases hpending : system.state.pending = some id
    · simp only [State.settlePending_of_pending hpending]
      exact .settle ⟨halive, hterminal, hvalid⟩ hpending rfl
    · simp only [State.settlePending, ne_eq, hpending, not_false_eq_true, if_true]
      exact .look (.inl rfl)

end

/-- Every step of the registry is one of the effects. -/
theorem effect_of_step (hstep : (registry token).step system event after) :
    Effect system after := by
  obtain ⟨hupgraded, -, rfl⟩ := hstep
  cases event with
  | reserve upgraded => exact effect_of_reserve hupgraded
  | beginAtSend upgraded expected => exact effect_of_beginAtSend hupgraded
  | finish upgraded id fate => exact effect_of_finish hupgraded
  | check upgraded epoch =>
    rcases State.weak_cases (fun state ↦ (.ok (state.read epoch), state)) system.invalidated
      hupgraded with ⟨error, state, heq, hlook⟩ | ⟨-, -, -, heq⟩
    · simp only [Event.upgraded] at heq
      simp only [apply, State.check, heq]
      exact .look hlook
    · simp only [Event.upgraded] at heq
      simp only [apply, State.check, heq]
      exact .look (.inl rfl)
  | touch upgraded =>
    rcases State.weak_cases (fun state ↦ (.ok (), state)) system.invalidated hupgraded with
      ⟨error, state, heq, hlook⟩ | ⟨-, -, -, heq⟩
    · simp only [Event.upgraded] at heq
      simp only [apply, State.touch, heq]
      exact .look hlook
    · simp only [Event.upgraded] at heq
      simp only [apply, State.touch, heq]
      exact .look (.inl rfl)
  | invalidate => exact .invalidate
  | dropOwner => exact .drop

end System

/-! ### The ledger of attempts -/

/-- The entries of attempts that were all settled, from an identity on. -/
def ledgerFrom (start : ℕ) : List Fate → List Entry
  | [] => []
  | fate :: fates => .begun (start + 1) :: .settled (start + 1) fate :: ledgerFrom (start + 1) fates

theorem ledgerFrom_append (start : ℕ) (fates others : List Fate) :
    ledgerFrom start (fates ++ others) =
      ledgerFrom start fates ++ ledgerFrom (start + fates.length) others := by
  induction fates generalizing start with
  | nil => rfl
  | cons fate fates ih =>
    simp only [cons_append, ledgerFrom, ih, length_cons]
    rw [Nat.add_assoc, Nat.add_comm 1]

@[simp] theorem length_ledgerFrom (start : ℕ) (fates : List Fate) :
    (ledgerFrom start fates).length = 2 * fates.length := by
  induction fates generalizing start with
  | nil => rfl
  | cons fate fates ih =>
    simp only [ledgerFrom, length_cons, ih]
    omega

variable {fates : List Fate} {id start : ℕ}

theorem begun_mem_ledgerFrom :
    .begun id ∈ ledgerFrom start fates ↔ start < id ∧ id ≤ start + fates.length := by
  induction fates generalizing start with
  | nil =>
    simp only [ledgerFrom, not_mem_nil, length_nil, false_iff]
    omega
  | cons fate fates ih =>
    simp only [ledgerFrom, mem_cons, Entry.begun.injEq, reduceCtorEq, false_or, ih,
      length_cons]
    omega

theorem settled_mem_ledgerFrom {fate : Fate} :
    .settled id fate ∈ ledgerFrom start fates ↔
      ∃ index, id = start + index + 1 ∧ fates[index]? = some fate := by
  induction fates generalizing start with
  | nil => simp [ledgerFrom]
  | cons first fates ih =>
    simp only [ledgerFrom, mem_cons, Entry.settled.injEq, reduceCtorEq, false_or, ih]
    constructor
    · rintro (⟨rfl, rfl⟩ | ⟨index, rfl, hindex⟩)
      · exact ⟨0, rfl, rfl⟩
      · exact ⟨index + 1, by omega, by simpa using hindex⟩
    · rintro ⟨index, rfl, hindex⟩
      cases index with
      | zero => exact .inl ⟨rfl, by simpa using hindex.symm⟩
      | succ index => exact .inr ⟨index, by omega, by simpa using hindex⟩

/-- The identities of the attempts that were begun. -/
def begunIds (history : List Entry) : List ℕ :=
  history.filterMap fun
    | .begun id => some id
    | .settled _ _ => none

theorem begunIds_append (first second : List Entry) :
    begunIds (first ++ second) = begunIds first ++ begunIds second := by
  simp [begunIds]

theorem begunIds_ledgerFrom (start : ℕ) (fates : List Fate) :
    begunIds (ledgerFrom start fates) = List.range' (start + 1) fates.length := by
  induction fates generalizing start with
  | nil => rfl
  | cons fate fates ih =>
    rw [length_cons, range'_succ, ← ih]
    rfl

/-- The entry of an attempt that was begun and not settled. -/
def open? (outstanding : Bool) (id : ℕ) : List Entry :=
  if outstanding then [.begun id] else []

/-- The numbers of a registry that takes requests, read off the ledger. -/
structure Balanced (state : State) (fates : List Fate) (outstanding : Bool) : Prop where
  pending : state.pending = if outstanding then some (fates.length + 1) else none
  lastId : state.lastId = fates.length + outstanding.toNat
  revision : state.revision = 2 * fates.length + outstanding.toNat
  revision_lt : state.revision < 2 ^ 64
  watermark : ∀ epoch, epoch < state.revokedThrough ↔
    ∃ index fate, epoch ≤ index ∧ fates[index]? = some fate ∧ fate ≠ .notDispatched

/-- The invariant: what was begun and settled is a ledger in the order of the identities. -/
structure Ledger (system : System) (fates : List Fate) (outstanding : Bool) : Prop where
  history : system.history = ledgerFrom 0 fates ++ open? outstanding (fates.length + 1)
  ids : fates.length + outstanding.toNat < 2 ^ 64
  tickets : ∀ ticket ∈ system.tickets,
    ticket.epoch ≤ fates.length ∧ ticket.mark = 2 * ticket.epoch
  balanced : system.state.alive = true → system.state.terminal = none →
    Balanced system.state fates outstanding
  closed : system.state.alive = false ∨ system.state.terminal ≠ none →
    system.state.pending = none
  exhausted : system.state.alive = true → system.invalidated = false →
    system.state.terminal ≠ none →
      system.state.terminal = some .identityExhausted ∧ 2 ^ 64 ≤ system.history.length + 1

namespace Ledger

variable {system after : System} {fates : List Fate} {outstanding : Bool}

theorem length_history (hledger : Ledger system fates outstanding) :
    system.history.length = 2 * fates.length + outstanding.toNat := by
  rw [hledger.history, List.length_append, length_ledgerFrom]
  cases outstanding <;> rfl

variable {state : State}

section

variable (hbalanced : Balanced state fates outstanding)
include hbalanced

theorem revokedThrough_le : state.revokedThrough ≤ fates.length := by
  by_contra hlt
  obtain ⟨index, fate, hle, hfate, -⟩ := (hbalanced.watermark fates.length).mp (by omega)
  obtain ⟨hlength, -⟩ := List.getElem?_eq_some_iff.mp hfate
  omega

/-- One more settled attempt moves the watermark to it unless it was not dispatched. -/
theorem watermark_settled (fate : Fate) (epoch : ℕ) :
    (epoch < if fate = Fate.notDispatched then state.revokedThrough else fates.length + 1) ↔
      ∃ index other, epoch ≤ index ∧ (fates ++ [fate])[index]? = some other ∧
        other ≠ .notDispatched := by
  by_cases hfate : fate = .notDispatched
  · rw [if_pos hfate, hbalanced.watermark]
    constructor
    · rintro ⟨index, other, hle, hother, hne⟩
      obtain ⟨hlength, -⟩ := List.getElem?_eq_some_iff.mp hother
      exact ⟨index, other, hle, by rwa [List.getElem?_append_left hlength], hne⟩
    · rintro ⟨index, other, hle, hother, hne⟩
      rcases getElem?_concat_cases hother with hother | ⟨-, rfl⟩
      · exact ⟨index, other, hle, hother, hne⟩
      · exact absurd hfate hne
  · rw [if_neg hfate]
    constructor
    · intro hlt
      exact ⟨fates.length, fate, by omega, by simp, hfate⟩
    · rintro ⟨index, other, hle, hother, -⟩
      obtain ⟨hlength, -⟩ := List.getElem?_eq_some_iff.mp hother
      simp only [List.length_append, List.length_singleton] at hlength
      omega

theorem not_outstanding (hfree : state.pending = none) : outstanding = false := by
  cases outstanding with
  | false => rfl
  | true =>
    have := hbalanced.pending
    rw [hfree] at this
    cases this

theorem outstanding_of_pending (hpending : state.pending = some id) :
    outstanding = true ∧ id = fates.length + 1 := by
  have := hbalanced.pending
  rw [hpending] at this
  cases outstanding with
  | false => cases this
  | true => exact ⟨rfl, Option.some.inj this⟩

end

/-- The ledger is kept by every effect. -/
theorem step (hledger : Ledger system fates outstanding) (heffect : System.Effect system after) :
    ∃ fates outstanding, Ledger after fates outstanding := by
  cases heffect with
  | @look state hstate =>
    refine ⟨fates, outstanding, hledger.history, hledger.ids, hledger.tickets, ?_, ?_, ?_⟩
    · rcases hstate with rfl | ⟨-, hterminal⟩
      · exact hledger.balanced
      · exact fun _ hnone ↦ absurd hnone hterminal
    · rcases hstate with rfl | ⟨rfl, hterminal⟩
      · exact hledger.closed
      · exact fun _ ↦ State.observe_pending (fun h ↦ hledger.closed (.inr h)) hterminal
    · intro halive hvalid hterminal
      rcases hstate with rfl | ⟨rfl, -⟩
      · exact hledger.exhausted halive hvalid hterminal
      · rw [State.observe_eq_self (.inl hvalid)] at halive hterminal ⊢
        exact hledger.exhausted halive hvalid hterminal
  | reserve hlive hfree =>
    have hbalanced := hledger.balanced hlive.alive hlive.terminal
    obtain rfl := not_outstanding hbalanced hfree
    refine ⟨fates, false, hledger.history, hledger.ids, ?_, hledger.balanced, hledger.closed,
      hledger.exhausted⟩
    intro ticket hticket
    rcases mem_cons.mp hticket with rfl | hticket
    · have hlength := hledger.length_history
      have hlastId := hbalanced.lastId
      simp only [Bool.toNat_false, Nat.add_zero] at hlength hlastId
      exact ⟨Nat.le_of_eq hlastId, by rw [hlength, hlastId]⟩
    · exact hledger.tickets ticket hticket
  | begin hlive hfree hid hrevision =>
    have hbalanced := hledger.balanced hlive.alive hlive.terminal
    obtain rfl := not_outstanding hbalanced hfree
    have hlastId := hbalanced.lastId
    have hcount := hbalanced.revision
    simp only [Bool.toNat_false, Nat.add_zero] at hlastId hcount
    refine ⟨fates, true, ?_, by rwa [← hlastId], hledger.tickets, fun _ _ ↦ ?_, ?_, ?_⟩
    · rw [hledger.history, hlastId]
      simp [open?]
    · exact ⟨by simp [hlastId], by simp [hlastId], by simp [hcount], hrevision,
        hbalanced.watermark⟩
    · simp [hlive.alive, hlive.terminal]
    · intro _ _ hterminal
      exact absurd hlive.terminal hterminal
  | @exhaust state hlive hfree hfull hterminal hpending =>
    have hbalanced := hledger.balanced hlive.alive hlive.terminal
    have hlength := hledger.length_history
    have hlastId := hbalanced.lastId
    have hcount := hbalanced.revision
    refine ⟨fates, outstanding, hledger.history, hledger.ids, hledger.tickets, ?_,
      fun _ ↦ hpending, ?_⟩
    · intro _ hnone
      rw [hterminal] at hnone
      cases hnone
    · intro _ _ _
      exact ⟨hterminal, by show 2 ^ 64 ≤ system.history.length + 1; omega⟩
  | @settle id fate state hlive hpending hstate =>
    have hbalanced := hledger.balanced hlive.alive hlive.terminal
    obtain ⟨rfl, rfl⟩ := outstanding_of_pending hbalanced hpending
    have hlength := hledger.length_history
    have hlastId := hbalanced.lastId
    have hcount := hbalanced.revision
    have hids := hledger.ids
    simp only [Bool.toNat_true] at hlength hlastId hcount hids
    refine ⟨fates ++ [fate], false, ?_, by simpa using hids, ?_, ?_, ?_, ?_⟩
    · rw [hledger.history, ledgerFrom_append]
      simp [open?, ledgerFrom]
    · intro ticket hticket
      obtain ⟨hle, hmark⟩ := hledger.tickets ticket hticket
      exact ⟨by simp; omega, hmark⟩
    · intro _ hterminal
      by_cases hrevision : state.revision + 1 < 2 ^ 64
      · rw [State.advance_of_lt hrevision]
        subst hstate
        refine ⟨rfl, by simpa using hlastId, ?_, hrevision, watermark_settled hbalanced fate⟩
        simp only [List.length_append, List.length_singleton, Bool.toNat_false]
        omega
      · rw [State.advance_of_le (by omega)] at hterminal
        cases hterminal
    · exact fun _ ↦ State.advance_pending (by rw [hstate])
    · intro _ _ hterminal
      have hrevision : ¬ state.revision + 1 < 2 ^ 64 := by
        intro hrevision
        rw [State.advance_of_lt hrevision, hstate] at hterminal
        exact hterminal hlive.terminal
      have hsame : state.revision = system.state.revision := by rw [hstate]
      rw [State.advance_of_le (by omega)]
      refine ⟨rfl, ?_⟩
      simp only [List.length_append, List.length_singleton]
      omega
  | invalidate =>
    exact ⟨fates, outstanding, hledger.history, hledger.ids, hledger.tickets, hledger.balanced,
      hledger.closed, fun _ hvalid ↦ absurd hvalid (by simp)⟩
  | drop =>
    have hdead : system.state.drop.alive = false := State.advance_alive
    refine ⟨fates, outstanding, hledger.history, hledger.ids, hledger.tickets, ?_,
      fun _ ↦ State.advance_pending rfl, ?_⟩
    · intro halive
      exact absurd (hdead.symm.trans halive) Bool.false_ne_true
    · intro halive
      exact absurd (hdead.symm.trans halive) Bool.false_ne_true

end Ledger

theorem ledger_of_reachable {token : ℕ} {system : System}
    (hsystem : (registry token).Reachable system) :
    ∃ fates outstanding, Ledger system fates outstanding := by
  refine Machine.invariant_of_step (fun system ↦ ∃ fates outstanding,
    Ledger system fates outstanding) ?_ ?_ hsystem
  · rintro system rfl
    refine ⟨[], false, rfl, by decide, by simp, fun _ _ ↦ ⟨rfl, rfl, rfl, by decide, ?_⟩,
      fun _ ↦ rfl, ?_⟩
    · simp [State.bind]
    · intro _ _ hterminal
      exact absurd rfl hterminal
  · rintro system event after - ⟨fates, outstanding, hledger⟩ hstep
    exact hledger.step (System.effect_of_step hstep)

end ObsMcp.Recording
