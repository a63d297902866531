import ObsMcp.Foundations.Indexed
import ObsMcp.SavedReplays.Registry

/-!
# Cells and the events published for them

`Cell.Tracks` reads a cell against the events that were published for it: how many of them it is
armed for, the path of the only one, and why there is none. `State.Good` is the invariant of the
registry with its subscriptions and calls, and `State.Evolves` what a step does to these. The steps
of the connection keep the invariant (`Good.around`), and so do the turns of the slots in a
publication and in a revocation, which change the cell of one slot (`Good.touched`).
-/

namespace ObsMcp.SavedReplays

open Foundations List
open Outputs (ObsEvent Numbered)

/-! ### Cells and events -/

/-- What a cell says about the events that were published for it. -/
structure Cell.Tracks (cell : Cell) (deadline : ℕ) (events : List ObsEvent) : Prop where
  seen : cell.seen = min 2 (events.filter (cell.selects deadline)).length
  path : ∀ path, cell.path = some path →
    ∃ event, events.filter (cell.selects deadline) = [event] ∧ savedPath event = some path
  issue : cell.issue = none → (events.filter (cell.selects deadline)).length ≤ 1 ∧
    ∀ event ∈ events.filter (cell.selects deadline), savedPath event ≠ none

namespace Cell

variable {cell : Cell} {deadline : ℕ} {events : List ObsEvent} {event : ObsEvent}

@[simp] theorem observe_armed (cell : Cell) (deadline : ℕ) (event : ObsEvent) :
    (cell.observe deadline event).armed = cell.armed := by
  unfold observe
  split_ifs with hselects
  · simp only
    split_ifs
    · rfl
    · split <;> rfl
  · rfl

theorem selects_of_armed {other : Cell} (harmed : other.armed = cell.armed) :
    other.selects deadline = cell.selects deadline := by
  funext event
  simp only [selects, harmed]

/-- An issue stays. -/
theorem observe_issue (hissue : cell.issue ≠ none) :
    (cell.observe deadline event).issue ≠ none := by
  unfold observe
  split_ifs with hselects
  · simp only
    split_ifs
    · simp
    · split
      · exact hissue
      · simp
  · exact hissue

theorem observe_first (hselects : cell.selects deadline event = true) (hseen : cell.seen = 0) :
    cell.observe deadline event =
      match savedPath event with
      | some path => { cell with seen := 1, path := some path }
      | none => { cell with
          seen := 1
          issue := some "Replay saved event has an invalid or oversized path" } := by
  unfold observe
  rw [if_pos hselects, hseen]
  rfl

theorem observe_later (hselects : cell.selects deadline event = true) (hseen : 0 < cell.seen) :
    cell.observe deadline event = { cell with
      seen := 2
      path := none
      issue := some "Multiple replay-save events make this observation ambiguous" } := by
  have htwo : min (min (cell.seen + 1) 255) 2 = 2 := by omega
  unfold observe
  rw [if_pos hselects, htwo]
  rfl

section

variable (htracks : cell.Tracks deadline events)
include htracks

/-- The first event of a cell. -/
theorem Tracks.first (hselects : cell.selects deadline event = true)
    (hnone : events.filter (cell.selects deadline) = []) :
    (cell.observe deadline event).Tracks deadline (events ++ [event]) := by
  have hseen : cell.seen = 0 := by rw [htracks.seen, hnone]; rfl
  have hsame : (cell.observe deadline event).selects deadline = cell.selects deadline :=
    selects_of_armed (observe_armed cell deadline event)
  have hfilter : (events ++ [event]).filter ((cell.observe deadline event).selects deadline) =
      [event] := by
    rw [hsame]
    simp [hselects, hnone]
  have hobserve := observe_first hselects hseen
  refine ⟨?_, ?_, ?_⟩
  all_goals rw [hfilter, hobserve]
  · cases savedPath event <;> rfl
  · intro path hpath
    cases hsaved : savedPath event with
    | some saved =>
      simp only [hsaved] at hpath
      exact ⟨event, rfl, hsaved.trans hpath⟩
    | none =>
      simp only [hsaved] at hpath
      obtain ⟨other, hother, -⟩ := htracks.path path hpath
      rw [hnone] at hother
      cases hother
  · intro hissue
    refine ⟨Nat.le_refl _, fun other hother ↦ ?_⟩
    obtain rfl := mem_singleton.mp hother
    intro hinvalid
    simp [hinvalid] at hissue

/-- A further event of a cell. -/
theorem Tracks.later (hselects : cell.selects deadline event = true)
    (hsome : events.filter (cell.selects deadline) ≠ []) :
    (cell.observe deadline event).Tracks deadline (events ++ [event]) := by
  have hpos := length_pos_iff.mpr hsome
  have hseen : 0 < cell.seen := by
    rw [htracks.seen]
    omega
  have hsame : (cell.observe deadline event).selects deadline = cell.selects deadline :=
    selects_of_armed (observe_armed cell deadline event)
  have hfilter : (events ++ [event]).filter ((cell.observe deadline event).selects deadline) =
      events.filter (cell.selects deadline) ++ [event] := by
    rw [hsame]
    simp [hselects]
  have hobserve := observe_later hselects hseen
  refine ⟨?_, ?_, ?_⟩
  all_goals rw [hfilter, hobserve]
  · simp only [length_append, length_singleton]
    omega
  · intro path hpath
    cases hpath
  · intro hissue
    cases hissue

/-- The turn of a cell in a publication. -/
theorem Tracks.observe (event : ObsEvent) :
    (cell.observe deadline event).Tracks deadline (events ++ [event]) := by
  cases hselects : cell.selects deadline event with
  | true =>
    by_cases hnone : events.filter (cell.selects deadline) = []
    · exact htracks.first hselects hnone
    · exact htracks.later hselects hnone
  | false =>
    have hobserve : cell.observe deadline event = cell := by
      unfold Cell.observe
      simp [hselects]
    have hfilter : (events ++ [event]).filter (cell.selects deadline) =
        events.filter (cell.selects deadline) := by
      simp [hselects]
    obtain ⟨hseen, hpath, hissue⟩ := htracks
    rw [hobserve]
    refine ⟨?_, ?_, ?_⟩
    all_goals rw [hfilter]
    · exact hseen
    · exact hpath
    · exact hissue

theorem Tracks.revoke : cell.revoke.Tracks deadline events :=
  ⟨htracks.seen, htracks.path, fun hissue ↦ by cases hissue⟩

end

theorem revoke_armed (cell : Cell) : cell.revoke.armed = cell.armed := rfl

theorem revoke_issue (cell : Cell) : cell.revoke.issue ≠ none := by
  simp [Cell.revoke]

/-- A cell that is armed after everything that was published for it. -/
theorem Tracks.arm (htracks : cell.Tracks deadline events) (hunarmed : cell.armed = none)
    {after : ℕ} (hevents : ∀ event ∈ events, event.sequence ≤ after) (now : ℕ) :
    { cell with armed := some (after, now) }.Tracks deadline events := by
  have hbefore : events.filter (cell.selects deadline) = [] := by
    simp [filter_eq_nil_iff, selects, hunarmed]
  have hafter : events.filter ({ cell with armed := some (after, now) }.selects deadline) = [] := by
    rw [filter_eq_nil_iff]
    intro event hmem hselects
    have hle := hevents event hmem
    simp only [selects, Bool.and_eq_true, decide_eq_true_eq] at hselects
    omega
  obtain ⟨hseen, hpath, hissue⟩ := htracks
  rw [hbefore] at hseen hpath hissue
  refine ⟨?_, ?_, ?_⟩
  all_goals rw [hafter]
  · exact hseen
  · exact hpath
  · exact hissue

end Cell

/-! ### The invariant -/

namespace State

/-- The events that were published for a slot. -/
def eventsFor (s : State) (index : ℕ) : List ObsEvent :=
  s.received.take (s.publishedFor index)

/-- A revocation has passed a slot. -/
def Revoked (s : State) (index : ℕ) : Prop :=
  s.active = false ∧ ∀ next, s.holder = .revoking next → index < next

/-- What holds of the holder of the lock. -/
def HolderGood (s : State) : Prop :=
  match s.holder with
  | .free => s.active = true → s.progress = s.published
  | .publishing event _ =>
    s.active = true ∧ s.received[s.progress]? = some event ∧ s.published = s.progress + 1
  | .revoking _ => s.active = false
  | .arming n after =>
    s.active = true ∧ s.progress = s.published ∧ s.progress ≤ after ∧
      ∃ sub : Subscription, s.subscriptions[n]? = some sub ∧ sub.dropped = false ∧
        sub.cell.armed = none

end State

structure Subscription.Good (sub : Subscription) (s : State) (n : ℕ) : Prop where
  arms : sub.arms = if sub.cell.armed.isSome then 1 else 0
  registered : s.alive = true → sub.dropped = false →
    s.slots[sub.index]? = some (some ⟨sub.id, sub.deadline, n⟩)
  tracks : s.alive = true → sub.dropped = false →
    sub.cell.Tracks sub.deadline (s.eventsFor sub.index)
  revoked : s.alive = true → sub.dropped = false → s.Revoked sub.index → sub.cell.issue ≠ none

/-- What a path that a call returned says about its subscription. -/
structure Call.Attributed (call : Call) (s : State) (sub : Subscription) (path : String) :
    Prop where
  armed : sub.cell.armed ≠ none
  expected : ∀ expected, call.expected = some expected → expected = path
  drained : call.expected ≠ none → call.cursor ≤ call.upTo
  received : call.upTo ≤ s.received.length
  only : ∃ event, (s.received.take call.upTo).filter (sub.cell.selects sub.deadline) = [event] ∧
    savedPath event = some path

/-- A confirmation is past its wait for the cursor. -/
def Phase.Drained : Phase → Prop
  | .checking | .polling | .waiting => True
  | _ => False

structure Call.Good (call : Call) (s : State) (sub : Subscription) : Prop where
  running : call.Running → s.alive = true ∧ sub.dropped = false
  drained : call.expected ≠ none → call.phase.Drained → call.cursor ≤ s.progress
  returned : ∀ path, call.phase = .returned (.ok path) → call.Attributed s sub path

structure State.Good (s : State) : Prop where
  numbered : Numbered s.received
  connected : ∀ event ∈ s.received, event.connection = s.token
  published : s.published ≤ s.received.length
  progress : s.progress ≤ s.published
  holder : s.HolderGood
  locked : s.holder ≠ .free → s.alive = true
  length : s.slots.length = slotCount
  subscriptions : ∀ (n : ℕ) (sub : Subscription), s.subscriptions[n]? = some sub → sub.Good s n
  owner : s.alive = true → ∀ (i : ℕ) (slot : Slot), s.slots[i]? = some (some slot) →
    ∃ sub : Subscription, s.subscriptions[slot.cell]? = some sub ∧ sub.index = i ∧
      sub.id = slot.id ∧ sub.deadline = slot.deadline ∧ sub.dropped = false
  calls : ∀ (k : ℕ) (call : Call), s.calls[k]? = some call →
    ∃ sub : Subscription, s.subscriptions[call.subscription]? = some sub ∧ call.Good s sub

/-- What a step does to a subscription. -/
structure Subscription.Evolves (sub later : Subscription) : Prop where
  deadline : later.deadline = sub.deadline
  armed : sub.cell.armed ≠ none → later.cell.armed = sub.cell.armed
  issue : sub.cell.issue ≠ none → later.cell.issue ≠ none
  dropped : sub.dropped = true → later.dropped = true

/-- A subscription that can still have a path. -/
structure Subscription.Open (sub : Subscription) (s : State) : Prop where
  issue : sub.cell.issue = none
  dropped : sub.dropped = false
  alive : s.alive = true

/-- What a step does to the subscriptions and the calls: a path comes only from an open
subscription. -/
structure State.Evolves (s t : State) : Prop where
  alive : t.alive = true → s.alive = true
  subscriptions : ∀ (n : ℕ) (sub : Subscription), s.subscriptions[n]? = some sub →
    ∃ later : Subscription, t.subscriptions[n]? = some later ∧ sub.Evolves later
  calls : ∀ (k : ℕ) (call : Call) (path : String), t.calls[k]? = some call →
    call.phase = .returned (.ok path) → s.calls[k]? = some call ∨
      ∀ sub : Subscription, s.subscriptions[call.subscription]? = some sub → sub.Open s

theorem Subscription.Evolves.refl (sub : Subscription) : sub.Evolves sub :=
  ⟨rfl, fun _ ↦ rfl, fun hissue ↦ hissue, fun hdropped ↦ hdropped⟩

namespace State

variable {s t : State}

theorem Good.publishedFor_le (hgood : s.Good) (index : ℕ) :
    s.publishedFor index ≤ s.received.length := by
  have hprogress := hgood.progress
  have hpublished := hgood.published
  have hholder := hgood.holder
  unfold publishedFor
  unfold HolderGood at hholder
  split
  · rename_i event next heq
    simp only [heq] at hholder
    split_ifs <;> omega
  · omega

theorem progress_le_publishedFor (s : State) (index : ℕ) : s.progress ≤ s.publishedFor index := by
  unfold publishedFor
  split
  · split_ifs <;> omega
  · exact Nat.le_refl _

variable {sub : Subscription} {index : ℕ}

/-- A subscription stays good while the registry goes on around it. -/
theorem subscription_good {n : ℕ} (hgood : sub.Good s n) (halive : t.alive = true → s.alive = true)
    (hslot : t.alive = true → sub.dropped = false → t.slots[sub.index]? = s.slots[sub.index]?)
    (hevents : t.alive = true → sub.dropped = false → t.eventsFor sub.index = s.eventsFor sub.index)
    (hrevoked : t.alive = true → sub.dropped = false → t.Revoked sub.index → s.Revoked sub.index) :
    sub.Good t n where
  arms := hgood.arms
  registered ht hdropped := (hslot ht hdropped).trans (hgood.registered (halive ht) hdropped)
  tracks ht hdropped := by
    rw [hevents ht hdropped]
    exact hgood.tracks (halive ht) hdropped
  revoked ht hdropped hpassed :=
    hgood.revoked (halive ht) hdropped (hrevoked ht hdropped hpassed)

/-- A call stays good while its subscription evolves. -/
theorem call_good {call : Call} {later : Subscription} (hgood : call.Good s sub)
    (hevolves : sub.Evolves later) (halive : call.Running → t.alive = s.alive)
    (hdropped : call.Running → later.dropped = sub.dropped) (hprogress : s.progress ≤ t.progress)
    {more : List ObsEvent} (hreceived : t.received = s.received ++ more) : call.Good t later where
  running hrunning :=
    ⟨(halive hrunning).trans (hgood.running hrunning).1,
      (hdropped hrunning).trans (hgood.running hrunning).2⟩
  drained hconfirm hphase := Nat.le_trans (hgood.drained hconfirm hphase) hprogress
  returned path hpath := by
    obtain ⟨harmed, hexpected, hdrained, hle, event, honly, hsaved⟩ := hgood.returned path hpath
    have hsame := hevolves.armed harmed
    refine ⟨by rwa [hsame], hexpected, hdrained, ?_, event, ?_, hsaved⟩
    · rw [hreceived, length_append]
      omega
    · rw [hreceived, take_append_of_le_length hle, hevolves.deadline,
        Cell.selects_of_armed hsame]
      exact honly

theorem evolves_of_eq (hsubs : t.subscriptions = s.subscriptions) (hcalls : t.calls = s.calls)
    (halive : t.alive = true → s.alive = true) : s.Evolves t where
  alive := halive
  subscriptions _ sub hsub := ⟨sub, hsubs ▸ hsub, .refl sub⟩
  calls _ _ _ hcall _ := .inl (hcalls ▸ hcall)

/-- A slot that is not free. -/
def Taken (s : State) (index : ℕ) : Prop :=
  ∃ slot : Slot, s.slots[index]? = some (some slot)

theorem Taken.lt (htaken : s.Taken index) : index < s.slots.length := by
  obtain ⟨slot, hslot⟩ := htaken
  exact (List.getElem?_eq_some_iff.mp hslot).1

/-- The connection goes on and the subscriptions, the slots and the calls stay. -/
structure Around (s t : State) : Prop where
  subscriptions : t.subscriptions = s.subscriptions
  slots : t.slots = s.slots
  calls : t.calls = s.calls
  alive : t.alive = s.alive
  received : ∃ more, t.received = s.received ++ more
  progress : s.progress ≤ t.progress
  publishedFor : ∀ index, s.Taken index → t.publishedFor index = s.publishedFor index
  revoked : ∀ index, s.Taken index → t.Revoked index → s.Revoked index

/-- Such a step keeps a state good when it keeps the connection so. -/
theorem Good.around (hgood : s.Good) (haround : Around s t) (hnumbered : Numbered t.received)
    (hconnected : ∀ event ∈ t.received, event.connection = t.token)
    (hpublished : t.published ≤ t.received.length) (hprogress : t.progress ≤ t.published)
    (hholder : t.HolderGood) (hlocked : t.holder ≠ .free → t.alive = true) :
    t.Good ∧ s.Evolves t := by
  obtain ⟨hsubs, hslots, hcalls, halive, ⟨more, hreceived⟩, hmono, hfor, hrevoked⟩ := haround
  refine ⟨⟨hnumbered, hconnected, hpublished, hprogress, hholder, hlocked,
    (congrArg List.length hslots).trans hgood.length, ?_, ?_, ?_⟩,
    evolves_of_eq hsubs hcalls fun ht ↦ halive ▸ ht⟩
  · intro n sub hsub
    rw [hsubs] at hsub
    have hold := hgood.subscriptions n sub hsub
    have hindex : t.alive = true → sub.dropped = false → s.Taken sub.index := by
      intro ht hdropped
      exact ⟨_, hold.registered (halive ▸ ht) hdropped⟩
    refine subscription_good hold (fun ht ↦ halive ▸ ht) (fun _ _ ↦ by rw [hslots]) ?_ ?_
    · intro ht hdropped
      unfold eventsFor
      rw [hfor _ (hindex ht hdropped), hreceived,
        take_append_of_le_length (hgood.publishedFor_le _)]
    · intro ht hdropped
      exact hrevoked _ (hindex ht hdropped)
  · intro ht i slot hslot
    rw [hslots] at hslot
    rw [hsubs]
    exact hgood.owner (halive ▸ ht) i slot hslot
  · intro k call hcall
    rw [hcalls] at hcall
    obtain ⟨sub, hsub, hold⟩ := hgood.calls k call hcall
    exact ⟨sub, hsubs ▸ hsub, call_good hold (.refl sub) (fun _ ↦ halive) (fun _ ↦ rfl) hmono
      hreceived⟩

/-- A step that leaves the connection and the lock. -/
theorem Around.of_eq (hsubs : t.subscriptions = s.subscriptions) (hslots : t.slots = s.slots)
    (hcalls : t.calls = s.calls) (halive : t.alive = s.alive) (hactive : t.active = s.active)
    (hreceived : ∃ more, t.received = s.received ++ more) (hprogress : t.progress = s.progress)
    (hholder : t.holder = s.holder) : Around s t where
  subscriptions := hsubs
  slots := hslots
  calls := hcalls
  alive := halive
  received := hreceived
  progress := Nat.le_of_eq hprogress.symm
  publishedFor index _ := by
    unfold State.publishedFor
    rw [hholder, hprogress]
  revoked index _ hpassed := by
    unfold Revoked at hpassed ⊢
    rw [hactive, hholder] at hpassed
    exact hpassed

/-! ### The connection -/

section

variable (hgood : s.Good)
include hgood

theorem tick_good (elapsed : ℕ) :
    Good { s with now := s.now + elapsed } ∧ s.Evolves { s with now := s.now + elapsed } :=
  hgood.around (.of_eq rfl rfl rfl rfl rfl ⟨[], by simp⟩ rfl rfl) hgood.numbered hgood.connected
    hgood.published hgood.progress hgood.holder hgood.locked

theorem invalidate_good :
    Good { s with invalidated := true } ∧ s.Evolves { s with invalidated := true } :=
  hgood.around (.of_eq rfl rfl rfl rfl rfl ⟨[], by simp⟩ rfl rfl) hgood.numbered hgood.connected
    hgood.published hgood.progress hgood.holder hgood.locked

theorem receipt_good (eventType : String) (data : Option Json) (receivedAt : ℕ) :
    (s.receipt eventType data receivedAt).Good ∧
      s.Evolves (s.receipt eventType data receivedAt) := by
  have hlength : (s.receipt eventType data receivedAt).received.length =
      s.received.length + 1 := by
    simp [receipt]
  refine hgood.around (.of_eq rfl rfl rfl rfl rfl ⟨_, rfl⟩ rfl rfl) (hgood.numbered.append rfl)
    ?_ ?_ hgood.progress ?_ hgood.locked
  · intro event hevent
    rcases mem_append.mp hevent with hevent | hevent
    · exact hgood.connected event hevent
    · rw [mem_singleton.mp hevent]
      rfl
  · rw [hlength]
    exact Nat.le_succ_of_le hgood.published
  · have hholder := hgood.holder
    unfold HolderGood at hholder ⊢
    cases hheld : s.holder with
    | free => simpa only [receipt, hheld] using hholder
    | revoking next => simpa only [receipt, hheld] using hholder
    | arming n after => simpa only [receipt, hheld] using hholder
    | publishing event next =>
      simp only [hheld] at hholder
      obtain ⟨hactive, hevent, hpublished⟩ := hholder
      simp only [receipt, hheld]
      refine ⟨hactive, ?_, hpublished⟩
      exact getElem?_append_of_some hevent

/-- `publish` takes the lock. -/
theorem publish_good (halive : s.alive = true) (hfree : s.holder = .free)
    (hpublish : s.publish = some t) : t.Good ∧ s.Evolves t := by
  have hholder := hgood.holder
  unfold HolderGood at hholder
  simp only [hfree] at hholder
  unfold publish at hpublish
  split at hpublish
  · cases hpublish
  · rename_i event hevent
    have hlt := (List.getElem?_eq_some_iff.mp hevent).1
    have hconnection := hgood.connected event (List.mem_of_getElem? hevent)
    have hprogress := hgood.progress
    split_ifs at hpublish with hactive
    · have hon : s.active = true := (Bool.and_eq_true_iff.mp hactive).1
      have hcurrent := hholder hon
      cases hpublish
      refine hgood.around ⟨rfl, rfl, rfl, rfl, ⟨[], by simp⟩, Nat.le_refl _, ?_, ?_⟩
        hgood.numbered hgood.connected hlt (Nat.le_succ_of_le hprogress) ?_ (fun _ ↦ halive)
      · intro index _
        simp [publishedFor, hfree]
      · rintro index - ⟨hoff, -⟩
        cases hon.symm.trans hoff
      · exact ⟨hon, by rw [hcurrent]; exact hevent, by rw [hcurrent]⟩
    · have hoff : s.active = false := by simpa [hconnection] using hactive
      cases hpublish
      refine hgood.around (.of_eq rfl rfl rfl rfl rfl ⟨[], by simp⟩ rfl rfl) hgood.numbered
        hgood.connected hlt (Nat.le_succ_of_le hprogress) ?_ hgood.locked
      unfold HolderGood
      simp [hfree, hoff]

/-- The last turn of `publish`. -/
theorem announce_good {event : ObsEvent} {next : ℕ} (hheld : s.holder = .publishing event next)
    (hnext : ¬ next < s.slots.length) :
    Good { s with progress := event.sequence, holder := .free } ∧
      s.Evolves { s with progress := event.sequence, holder := .free } := by
  have hholder := hgood.holder
  unfold HolderGood at hholder
  simp only [hheld] at hholder
  obtain ⟨hactive, hevent, hpublished⟩ := hholder
  have hsequence : event.sequence = s.progress + 1 := hgood.numbered _ _ hevent
  refine hgood.around ⟨rfl, rfl, rfl, rfl, ⟨[], by simp⟩, ?_, ?_, ?_⟩ hgood.numbered
    hgood.connected hgood.published ?_ ?_ (fun hlocked ↦ absurd rfl hlocked)
  · simp only
    omega
  · intro index hindex
    have hlt : index < next := Nat.lt_of_lt_of_le hindex.lt (Nat.le_of_not_lt hnext)
    simp [publishedFor, hheld, hlt, hsequence]
  · rintro index - ⟨hoff, -⟩
    cases hactive.symm.trans hoff
  · simp only
    omega
  · intro _
    simp only
    omega

/-- `revoke` takes the lock. -/
theorem revoke_good (halive : s.alive = true) (hfree : s.holder = .free) :
    Good { s with active := false, holder := .revoking 0 } ∧
      s.Evolves { s with active := false, holder := .revoking 0 } := by
  refine hgood.around ⟨rfl, rfl, rfl, rfl, ⟨[], by simp⟩, Nat.le_refl _, ?_, ?_⟩ hgood.numbered
    hgood.connected hgood.published hgood.progress rfl (fun _ ↦ halive)
  · intro index _
    simp [publishedFor, hfree]
  · rintro index - ⟨-, hpassed⟩
    exact absurd (hpassed 0 rfl) (Nat.not_lt_zero _)

/-- The end of `revoke`. -/
theorem revoked_good {next : ℕ} (hheld : s.holder = .revoking next)
    (hnext : ¬ next < s.slots.length) :
    Good { s with holder := .free } ∧ s.Evolves { s with holder := .free } := by
  have hoff := hgood.holder
  unfold HolderGood at hoff
  simp only [hheld] at hoff
  refine hgood.around ⟨rfl, rfl, rfl, rfl, ⟨[], by simp⟩, Nat.le_refl _, ?_, ?_⟩ hgood.numbered
    hgood.connected hgood.published hgood.progress ?_ (fun hlocked ↦ absurd rfl hlocked)
  · intro index _
    simp [publishedFor, hheld]
  · intro index hindex _
    refine ⟨hoff, fun other hother ↦ ?_⟩
    cases hheld.symm.trans hother
    exact Nat.lt_of_lt_of_le hindex.lt (Nat.le_of_not_lt hnext)
  · intro hon
    cases hoff.symm.trans hon

/-! ### The turns of the slots -/

/-- The cell of a slot is changed under the lock. Assumes: the subscription evolves, its new cell
tracks what is published for the slot then, and for the other slots nothing changes. -/
theorem Good.touched {slot : Slot} (hsub : s.subscriptions[slot.cell]? = some sub)
    (hindex : sub.index = index) (hlocked : s.alive = true) {cell : Cell} {arms : ℕ}
    {holder : Holder} (harms : arms = if cell.armed.isSome then 1 else 0)
    (hevolve : sub.Evolves { sub with cell, arms })
    (ht : t = { s with
      subscriptions := s.subscriptions.set slot.cell { sub with cell, arms }
      holder }) (hslot : s.slots[index]? = some (some slot)) (hholder : t.HolderGood)
    (hfor : ∀ other, other ≠ index → t.publishedFor other = s.publishedFor other)
    (hrevoked : ∀ other, other ≠ index → t.Revoked other → s.Revoked other)
    (htracks : cell.Tracks sub.deadline (t.eventsFor index))
    (hpassed : t.Revoked index → cell.issue ≠ none) : t.Good ∧ s.Evolves t := by
  have hlt := (List.getElem?_eq_some_iff.mp hsub).1
  have hold := hgood.subscriptions slot.cell sub hsub
  have hself : t.subscriptions[slot.cell]? = some { sub with cell, arms } := by
    rw [ht]
    exact getElem?_set_self hlt
  have hother : ∀ n, n ≠ slot.cell → t.subscriptions[n]? = s.subscriptions[n]? := by
    intro n hn
    rw [ht]
    exact getElem?_set_ne (Ne.symm hn)
  have hevolves : ∀ (n : ℕ) (old : Subscription), s.subscriptions[n]? = some old →
      ∃ later : Subscription, t.subscriptions[n]? = some later ∧ old.Evolves later ∧
        later.dropped = old.dropped ∧ later.index = old.index ∧ later.id = old.id := by
    intro n old hn
    by_cases hcell : n = slot.cell
    · subst hcell
      cases hsub.symm.trans hn
      exact ⟨_, hself, hevolve, rfl, rfl, rfl⟩
    · exact ⟨old, (hother n hcell).trans hn, .refl old, rfl, rfl, rfl⟩
  have hkept : t.received = s.received ∧ t.published = s.published ∧ t.progress = s.progress ∧
      t.alive = s.alive ∧ t.slots = s.slots ∧ t.calls = s.calls ∧ t.token = s.token := by
    rw [ht]
    exact ⟨rfl, rfl, rfl, rfl, rfl, rfl, rfl⟩
  obtain ⟨hreceived, hpublished, hprogress, halive, hslots, hcalls, htoken⟩ := hkept
  refine ⟨⟨?_, ?_, ?_, ?_, hholder, fun _ ↦ halive.trans hlocked, ?_, ?_, ?_, ?_⟩,
    fun _ ↦ hlocked, ?_, ?_⟩
  · rw [hreceived]
    exact hgood.numbered
  · rw [hreceived, htoken]
    exact hgood.connected
  · rw [hreceived, hpublished]
    exact hgood.published
  · rw [hprogress, hpublished]
    exact hgood.progress
  · rw [hslots]
    exact hgood.length
  · intro n found hfound
    by_cases hcell : n = slot.cell
    · subst hcell
      cases hself.symm.trans hfound
      refine ⟨harms, ?_, ?_, ?_⟩
      · intro ht' hdropped
        rw [hslots]
        exact hold.registered hlocked hdropped
      · intro _ _
        rw [hindex]
        exact htracks
      · intro _ _
        rw [hindex]
        exact hpassed
    · rw [hother n hcell] at hfound
      have hgoodFound := hgood.subscriptions n found hfound
      have hne : found.dropped = false → found.index ≠ index := by
        intro hdropped heq
        have hthere := hgoodFound.registered hlocked hdropped
        rw [heq, hslot, Option.some.injEq, Option.some.injEq] at hthere
        exact hcell (congrArg Slot.cell hthere).symm
      refine subscription_good hgoodFound (fun _ ↦ hlocked) (fun _ _ ↦ by rw [hslots]) ?_ ?_
      · intro _ hdropped
        unfold eventsFor
        rw [hreceived, hfor _ (hne hdropped)]
      · intro _ hdropped
        exact hrevoked _ (hne hdropped)
  · intro _ i other hthere
    rw [hslots] at hthere
    obtain ⟨found, hfound, hi, hid, hdeadline, hdropped⟩ := hgood.owner hlocked i other hthere
    obtain ⟨later, hlater, hevolve, hd, hx, hy⟩ := hevolves _ found hfound
    exact ⟨later, hlater, hx.trans hi, hy.trans hid, hevolve.deadline.trans hdeadline,
      hd.trans hdropped⟩
  · intro k call hcall
    rw [hcalls] at hcall
    obtain ⟨found, hfound, hcallGood⟩ := hgood.calls k call hcall
    obtain ⟨later, hlater, hevolve, hd, -, -⟩ := hevolves _ found hfound
    exact ⟨later, hlater, call_good hcallGood hevolve (fun _ ↦ halive) (fun _ ↦ hd)
      (Nat.le_of_eq hprogress.symm) (by rw [hreceived, append_nil])⟩
  · intro n old hn
    obtain ⟨later, hlater, hevolve, -⟩ := hevolves n old hn
    exact ⟨later, hlater, hevolve⟩
  · intro k call path hcall _
    rw [hcalls] at hcall
    exact .inl hcall

/-- The change of a cell by its slot. -/
theorem touch_eq (halive : s.alive = true) {slot : Slot}
    (hslot : s.slots[index]? = some (some slot)) (change : Slot → Cell → Cell) :
    ∃ sub : Subscription, s.subscriptions[slot.cell]? = some sub ∧ sub.index = index ∧
      sub.deadline = slot.deadline ∧ sub.dropped = false ∧ s.touch index change =
        { s with
          subscriptions :=
            s.subscriptions.set slot.cell { sub with cell := change slot sub.cell } } := by
  obtain ⟨sub, hsub, hindex, -, hdeadline, hdropped⟩ := hgood.owner halive index slot hslot
  refine ⟨sub, hsub, hindex, hdeadline, hdropped, ?_⟩
  unfold touch
  simp only [hslot]
  rw [modify_eq_set_getElem?, hsub]
  rfl

end

/-- A free slot has nothing to do in its turn. -/
theorem touch_free (htaken : ¬ s.Taken index) (change : Slot → Cell → Cell) :
    s.touch index change = s := by
  unfold touch
  split
  · rename_i slot hslot
    exact absurd ⟨slot, hslot⟩ htaken
  · rfl

theorem publishSlot_good (hgood : s.Good) (hpublish : s.publishSlot = some t) :
    t.Good ∧ s.Evolves t := by
  unfold publishSlot at hpublish
  cases hheld : s.holder with
  | free => simp [hheld] at hpublish
  | revoking next => simp [hheld] at hpublish
  | arming n after => simp [hheld] at hpublish
  | publishing event next =>
    simp only [hheld] at hpublish
    have halive := hgood.locked (by simp [hheld])
    have hholder := hgood.holder
    unfold HolderGood at hholder
    simp only [hheld] at hholder
    have hevent := hholder.2.1
    have helsewhere : ∀ other, other ≠ next →
        (if other < next + 1 then s.progress + 1 else s.progress) = s.publishedFor other := by
      intro other hother
      have hiff : other < next + 1 ↔ other < next := by omega
      simp only [publishedFor, hheld, hiff]
    have hon : ∀ {u : State} {index : ℕ}, u.Revoked index → u.active = s.active → False := by
      rintro u index ⟨hoff, -⟩ hactive
      cases hholder.1.symm.trans (hactive.symm.trans hoff)
    split_ifs at hpublish with hnext
    · by_cases htaken : s.Taken next
      · obtain ⟨slot, hslot⟩ := htaken
        obtain ⟨sub, hsub, hindex, hdeadline, hdropped, htouch⟩ :=
          touch_eq hgood halive hslot fun slot cell ↦ cell.observe slot.deadline event
        have hold := hgood.subscriptions _ sub hsub
        have htracks := hold.tracks halive hdropped
        rw [htouch] at hpublish
        have harmed := Cell.observe_armed sub.cell slot.deadline event
        have harms : sub.arms =
            if (sub.cell.observe slot.deadline event).armed.isSome then 1 else 0 := by
          rw [harmed]
          exact hold.arms
        have hevolve : sub.Evolves { sub with cell := sub.cell.observe slot.deadline event } :=
          ⟨rfl, fun _ ↦ harmed, Cell.observe_issue, fun h ↦ h⟩
        refine hgood.touched hsub hindex halive harms hevolve (Option.some.inj hpublish).symm hslot
          ?_ ?_ ?_ ?_ ?_
        all_goals cases hpublish
        · exact hholder
        · exact helsewhere
        · intro other _ hrevoked
          exact (hon hrevoked rfl).elim
        · have hbefore : s.eventsFor sub.index = s.received.take s.progress := by
            simp [eventsFor, publishedFor, hheld, hindex]
          have hafter : s.received.take (s.progress + 1) =
              s.received.take s.progress ++ [event] := by
            rw [take_add_one, hevent]
            rfl
          rw [hbefore] at htracks
          have hobserved := htracks.observe event
          rw [← hafter, hdeadline] at hobserved
          simpa [eventsFor, publishedFor, hdeadline] using hobserved
        · intro hrevoked
          exact (hon hrevoked rfl).elim
      · rw [touch_free htaken] at hpublish
        cases hpublish
        refine hgood.around ⟨rfl, rfl, rfl, rfl, ⟨[], by simp⟩, Nat.le_refl _, ?_, ?_⟩
          hgood.numbered hgood.connected hgood.published hgood.progress hholder (fun _ ↦ halive)
        · intro index hindex
          refine helsewhere index ?_
          rintro rfl
          exact htaken hindex
        · intro index _ hrevoked
          exact (hon hrevoked rfl).elim
    · cases hpublish
      exact announce_good hgood hheld hnext

theorem revokeSlot_good (hgood : s.Good) (hrevoke : s.revokeSlot = some t) :
    t.Good ∧ s.Evolves t := by
  unfold revokeSlot at hrevoke
  cases hheld : s.holder with
  | free => simp [hheld] at hrevoke
  | publishing event next => simp [hheld] at hrevoke
  | arming n after => simp [hheld] at hrevoke
  | revoking next =>
    simp only [hheld] at hrevoke
    have halive := hgood.locked (by simp [hheld])
    have hoff := hgood.holder
    unfold HolderGood at hoff
    simp only [hheld] at hoff
    have hfor : ∀ index, s.publishedFor index = s.progress := by
      simp [publishedFor, hheld]
    have helsewhere : ∀ {u : State}, u.holder = .revoking (next + 1) → ∀ other, other ≠ next →
        u.Revoked other → s.Revoked other := by
      rintro u hu other hother ⟨-, hpassed⟩
      refine ⟨hoff, fun index hindex ↦ ?_⟩
      cases hheld.symm.trans hindex
      have := hpassed _ hu
      omega
    split_ifs at hrevoke with hnext
    · by_cases htaken : s.Taken next
      · obtain ⟨slot, hslot⟩ := htaken
        obtain ⟨sub, hsub, hindex, hdeadline, hdropped, htouch⟩ :=
          touch_eq hgood halive hslot fun _ cell ↦ cell.revoke
        have hold := hgood.subscriptions _ sub hsub
        have htracks := hold.tracks halive hdropped
        have harmed := Cell.revoke_armed sub.cell
        have harms : sub.arms = if sub.cell.revoke.armed.isSome then 1 else 0 := hold.arms
        have hevolve : sub.Evolves { sub with cell := sub.cell.revoke } :=
          ⟨rfl, fun _ ↦ harmed, fun _ ↦ Cell.revoke_issue _, fun h ↦ h⟩
        rw [htouch] at hrevoke
        refine hgood.touched hsub hindex halive harms hevolve (Option.some.inj hrevoke).symm hslot
          ?_ ?_ ?_ ?_ (fun _ ↦ Cell.revoke_issue _)
        all_goals cases hrevoke
        · exact hoff
        · intro other _
          exact (hfor other).symm
        · exact helsewhere rfl
        · have hevents : s.eventsFor sub.index = s.received.take s.progress := by
            simp [eventsFor, hfor]
          rw [hevents] at htracks
          exact htracks.revoke
      · rw [touch_free htaken] at hrevoke
        cases hrevoke
        refine hgood.around ⟨rfl, rfl, rfl, rfl, ⟨[], by simp⟩, Nat.le_refl _, ?_, ?_⟩
          hgood.numbered hgood.connected hgood.published hgood.progress hoff (fun _ ↦ halive)
        · intro index _
          exact (hfor index).symm
        · intro index hindex
          refine helsewhere rfl index ?_
          rintro rfl
          exact htaken hindex
    · cases hrevoke
      exact revoked_good hgood hheld hnext

end State

end ObsMcp.SavedReplays
