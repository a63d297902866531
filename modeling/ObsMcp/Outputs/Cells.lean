import ObsMcp.Foundations.Charges
import ObsMcp.Foundations.Indexed
import ObsMcp.Outputs.Answers

/-!
# The projection keeps the subscriptions good

`State.Good` is the invariant of the registry with its session: the received events are numbered,
an active registry has projected every processed event, every slot belongs to a subscription, every
subscription is good, and the permits and the path bytes make up the budget. The steps of the socket
and of the observer keep it (`Good.around`), and so do the turns of the slots in a projection and in
a revocation (`projectSlot_good`, `revokeSlot_good`), which fill pending cells.
-/

namespace ObsMcp.Outputs

open Foundations List Option

/-! ### Good states -/

/-- What holds of the holder of the lock. -/
def State.HolderGood (s : State) : Prop :=
  match s.holder with
  | .free => True
  | .revoking _ => s.registry.active = false
  | .publishing event _ =>
    s.registry.active = true ∧ event ∈ s.received ∧
      event.sequence = s.registry.progress + 1 ∧ s.processed = event.sequence
  | .admitted _ _ index _ =>
    s.registry.slots[index]? = some none
  | .placed _ _ index _ after =>
    s.registry.slots[index]? = some none ∧ s.registry.progress ≤ after ∧
      after ≤ s.received.length
  | .timed _ _ index _ after registeredAt =>
    s.registry.slots[index]? = some none ∧ s.registry.progress ≤ after ∧
      after ≤ s.received.length ∧ registeredAt ≤ s.now

/-- The projection of an event is under way. -/
def Holder.Publishing : Holder → Prop
  | .publishing _ _ => True
  | _ => False

/-- What holds of the observer. -/
structure State.ObserverGood (s : State) : Prop where
  taken : ∀ event, s.observer = .taken event →
    event ∈ s.received ∧ event.connection = s.token ∧ event.sequence = s.processed + 1
  publishing : s.observer = .publishing ↔ s.holder.Publishing
  current : s.registry.active = true → ¬ s.holder.Publishing → s.processed = s.registry.progress
  serving : s.observer ≠ .stopped → s.registry.alive = true

structure State.Good (s : State) : Prop where
  numbered : Numbered s.received
  queue : ∀ event ∈ s.queue, event ∈ s.received
  processed : s.processed ≤ s.received.length
  progress : s.registry.progress ≤ s.processed
  observer : s.ObserverGood
  holder : s.HolderGood
  locked : s.holder ≠ .free → s.registry.alive = true
  length : s.registry.slots.length = maxSubscriptions
  gone : s.registry.alive = false → ∀ (i : ℕ) (slot : Slot),
    s.registry.slots[i]? ≠ some (some slot)
  subscriptions : ∀ (n : ℕ) (sub : Subscription), s.subscriptions[n]? = some sub → sub.Good s n
  owner : ∀ (i : ℕ) (slot : Slot), s.registry.slots[i]? = some (some slot) →
    ∃ sub : Subscription, s.subscriptions[slot.cell]? = some sub ∧ sub.slot = slot ∧
      sub.index = i ∧ sub.phase ≠ .ended
  budget : s.registry.paths + (s.subscriptions.map Subscription.bytes).sum = pathBytes

/-- What a step does to the subscriptions: those that are there evolve, and a new one has no cutoff
and the cursor and the time of its registration. -/
structure State.Evolves (s t : State) : Prop where
  kept : ∀ (n : ℕ) (sub : Subscription), s.subscriptions[n]? = some sub →
    ∃ later : Subscription, t.subscriptions[n]? = some later ∧ sub.Evolves later ∧
      sub.Captures s later
  fresh : ∀ (n : ℕ) (later : Subscription), s.subscriptions[n]? = none →
    t.subscriptions[n]? = some later → later.cutoff = none ∧ ∃ kind deadline index id,
      s.holder = .timed kind deadline index id later.slot.after later.slot.registeredAt

namespace State

variable {s t : State}

theorem evolves_of_eq (hsubs : t.subscriptions = s.subscriptions) : s.Evolves t where
  kept _ sub hsub := ⟨sub, hsubs ▸ hsub, .refl sub, fun _ h ↦ .inl h⟩
  fresh n later hnone hlater := by
    rw [hsubs, hnone] at hlater
    cases hlater

variable {i n : ℕ} {sub : Subscription} {event : ObsEvent}

/-- One subscription evolves, the others stay. -/
theorem evolves_set {later : Subscription} (hsub : s.subscriptions[n]? = some sub)
    (hevolves : sub.Evolves later) (hcaptures : sub.Captures s later)
    (hset : t.subscriptions = s.subscriptions.set n later) : s.Evolves t where
  kept m other hother := by
    rw [hset]
    by_cases hm : n = m
    · subst hm
      obtain rfl : sub = other := some.inj (hsub.symm.trans hother)
      exact ⟨later, by rw [getElem?_set_of_some hsub],
        hevolves, hcaptures⟩
    · exact ⟨other, by rw [List.getElem?_set_ne hm, hother], .refl other, fun _ h ↦ .inl h⟩
  fresh m other hnone hother := by
    rw [List.getElem?_eq_none_iff] at hnone
    have := (List.getElem?_eq_some_iff.mp hother).1
    rw [hset, length_set] at this
    omega

/-- A slot keeps its owner while the subscription in it moves on. -/
theorem Good.owner_set (hgood : s.Good) {later : Subscription} {slot : Slot}
    (hsub : s.subscriptions[n]? = some sub) (hsame : later.slot = sub.slot)
    (hindex : later.index = sub.index) (hphase : sub.phase ≠ .ended → later.phase ≠ .ended)
    (hslot : s.registry.slots[i]? = some (some slot)) :
    ∃ other : Subscription, (s.subscriptions.set n later)[slot.cell]? = some other ∧
      other.slot = slot ∧ other.index = i ∧ other.phase ≠ .ended := by
  obtain ⟨other, hother, hslot, howned, hopen⟩ := hgood.owner i slot hslot
  by_cases hcell : n = slot.cell
  · subst hcell
    obtain rfl : sub = other := some.inj (hsub.symm.trans hother)
    have hlt := (List.getElem?_eq_some_iff.mp hsub).1
    exact ⟨later, List.getElem?_set_self hlt, hsame.trans hslot, hindex.trans howned, hphase hopen⟩
  · exact ⟨other, by rw [List.getElem?_set_ne hcell, hother], hslot, howned, hopen⟩

/-- A subscription stays good while the session goes on around it. Assumes: at most one event is
received, the clock does not go back, and the slots and the projection of a pending cell stay. -/
theorem subscription_good (hgood : sub.Good s n) (hnumbered : Numbered s.received)
    (hreceived : t.received = s.received ∨
      ∃ event : ObsEvent, event.sequence = s.received.length + 1 ∧
        t.received = s.received ++ [event]) (hnow : s.now ≤ t.now)
    (hlength : t.registry.slots.length = s.registry.slots.length)
    (hprogress : s.registry.progress ≤ t.registry.progress)
    (hprojected : sub.cell = some .pending →
      t.projectedFor sub.index = s.projectedFor sub.index ∧
        s.projectedFor sub.index ≤ s.received.length)
    (hregistered : t.registry.alive = true → sub.phase ≠ .ended →
      t.registry.slots[sub.index]? = some (some sub.slot)) : sub.Good t n := by
  have hreceivedLength : s.received.length ≤ t.received.length := by
    rcases hreceived with hreceived | ⟨event, -, hreceived⟩
    · exact Nat.le_of_eq (congrArg List.length hreceived.symm)
    · rw [hreceived, length_append]
      exact Nat.le_add_right _ _
  have hunanswered : ∀ cursor, cursor ≤ s.received.length →
      Unanswered s.received sub.slot cursor → Unanswered t.received sub.slot cursor := by
    intro cursor hcursor hold
    rcases hreceived with hreceived | ⟨event, hsequence, hreceived⟩
    · rw [hreceived]
      exact hold
    · rw [hreceived]
      exact hold.append (by omega)
  have hfirst : ∀ output, FirstAnswer s.received sub.slot output →
      FirstAnswer t.received sub.slot output := by
    intro output hold
    rcases hreceived with hreceived | ⟨event, hsequence, hreceived⟩
    · rw [hreceived]
      exact hold
    · rw [hreceived]
      exact hold.append hnumbered (by omega)
  exact
    { hgood with
      index := hlength ▸ hgood.index
      after := Nat.le_trans hgood.after hreceivedLength
      registeredAt := Nat.le_trans hgood.registeredAt hnow
      registered := hregistered
      pending := fun hcell ↦ by
        obtain ⟨hsame, hle⟩ := hprojected hcell
        rw [hsame]
        exact hunanswered _ hle (hgood.pending hcell)
      ready := fun output hcell ↦ hfirst output (hgood.ready output hcell)
      answered := fun output hresult ↦ hfirst output (hgood.answered output hresult)
      expiring := fun now hphase ↦ Nat.le_trans (hgood.expiring now hphase) hnow
      cutoff := fun cutoff hcutoff ↦
        ⟨Nat.le_trans (hgood.cutoff cutoff hcutoff).1 hreceivedLength,
          (hgood.cutoff cutoff hcutoff).2⟩
      projected := fun hphase ↦ by
        obtain ⟨cutoff, hcutoff, hle⟩ := hgood.projected hphase
        exact ⟨cutoff, hcutoff, Nat.le_trans hle hprogress⟩
      expired := fun hresult ↦ by
        obtain ⟨cutoff, hcutoff, hold⟩ := hgood.expired hresult
        exact ⟨cutoff, hcutoff, hunanswered _ (hgood.cutoff cutoff hcutoff).1 hold⟩ }

/-- What is projected is received. -/
theorem Good.projectedFor_le (hgood : s.Good) (index : ℕ) :
    s.projectedFor index ≤ s.received.length := by
  have hprogress := Nat.le_trans hgood.progress hgood.processed
  have hholder := hgood.holder
  unfold projectedFor
  unfold HolderGood at hholder
  split
  · rename_i event next heq
    rw [heq] at hholder
    obtain ⟨-, -, hsequence, hprocessed⟩ := hholder
    have := hgood.processed
    split_ifs <;> omega
  · exact hprogress

/-- The session goes on and the subscriptions, the slots and the projection stay. -/
structure Around (s t : State) : Prop where
  subscriptions : t.subscriptions = s.subscriptions
  slots : t.registry.slots = s.registry.slots
  paths : t.registry.paths = s.registry.paths
  alive : t.registry.alive = s.registry.alive
  received : t.received = s.received ∨
    ∃ event : ObsEvent, event.sequence = s.received.length + 1 ∧ t.received = s.received ++ [event]
  now : s.now ≤ t.now
  progress : s.registry.progress ≤ t.registry.progress
  projected : ∀ index, index < s.registry.slots.length → t.projectedFor index = s.projectedFor index

/-- Such a step keeps a state good when it keeps the rest of the session so. -/
theorem Good.around (hgood : s.Good) (haround : Around s t)
    (hqueue : ∀ event ∈ t.queue, event ∈ t.received) (hprocessed : t.processed ≤ t.received.length)
    (hprogress : t.registry.progress ≤ t.processed) (hobserver : t.ObserverGood)
    (hholder : t.HolderGood) (hlocked : t.holder ≠ .free → t.registry.alive = true) :
    t.Good ∧ s.Evolves t := by
  refine ⟨⟨?_, hqueue, hprocessed, hprogress, hobserver, hholder, hlocked,
    haround.slots ▸ hgood.length, ?_, fun n sub hsub ↦ ?_, fun i slot hslot ↦ ?_, ?_⟩,
    evolves_of_eq haround.subscriptions⟩
  · rcases haround.received with hreceived | ⟨event, hsequence, hreceived⟩
    · rw [hreceived]
      exact hgood.numbered
    · rw [hreceived]
      exact hgood.numbered.append hsequence
  · rw [haround.alive, haround.slots]
    exact hgood.gone
  · rw [haround.subscriptions] at hsub
    have hold := hgood.subscriptions n sub hsub
    refine subscription_good hold hgood.numbered haround.received haround.now
      (congrArg List.length haround.slots) haround.progress (fun _ ↦ ?_) fun halive hphase ↦ ?_
    · exact ⟨haround.projected _ hold.index, hgood.projectedFor_le _⟩
    · rw [haround.slots]
      exact hold.registered (haround.alive ▸ halive) hphase
  · rw [haround.slots] at hslot
    rw [haround.subscriptions]
    exact hgood.owner i slot hslot
  · rw [haround.paths, haround.subscriptions]
    exact hgood.budget

/-- A step that keeps the socket, the observer, the registry and the lock. -/
theorem Around.of_eq (hsubs : t.subscriptions = s.subscriptions)
    (hregistry : t.registry = s.registry) (hholder : t.holder = s.holder)
    (hreceived : t.received = s.received) (hnow : s.now ≤ t.now) : Around s t where
  subscriptions := hsubs
  slots := by rw [hregistry]
  paths := by rw [hregistry]
  alive := by rw [hregistry]
  received := .inl hreceived
  now := hnow
  progress := Nat.le_of_eq (by rw [hregistry])
  projected index _ := by
    unfold projectedFor
    rw [hholder, hregistry]

section

variable (hgood : s.Good)
include hgood

theorem tick_good (elapsed : ℕ) :
    Good { s with now := s.now + elapsed } ∧ s.Evolves { s with now := s.now + elapsed } := by
  have hnow : s.now ≤ s.now + elapsed := Nat.le_add_right _ _
  refine hgood.around (.of_eq rfl rfl rfl rfl hnow) hgood.queue hgood.processed hgood.progress
    ⟨hgood.observer.taken, hgood.observer.publishing, hgood.observer.current,
      hgood.observer.serving⟩ ?_ hgood.locked
  have hholder := hgood.holder
  unfold HolderGood at hholder ⊢
  cases hheld : s.holder with
  | timed kind deadline index id after registeredAt =>
    simp only [hheld] at hholder ⊢
    obtain ⟨hfree, hfrom, hto, hregistered⟩ := hholder
    exact ⟨hfree, hfrom, hto, by omega⟩
  | free => trivial
  | publishing event index => simpa only [hheld] using hholder
  | revoking index => simpa only [hheld] using hholder
  | admitted kind deadline index id => simpa only [hheld] using hholder
  | placed kind deadline index id after => simpa only [hheld] using hholder

theorem receipt_good (eventType : String) (data : Option Json) (queued : Bool) :
    (s.receipt eventType data queued).Good ∧ s.Evolves (s.receipt eventType data queued) := by
  have hmem : ∀ {event : ObsEvent}, event ∈ s.received →
      event ∈ (s.receipt eventType data queued).received := mem_append_left _
  have hlength : (s.receipt eventType data queued).received.length = s.received.length + 1 := by
    simp [receipt]
  refine hgood.around ⟨rfl, rfl, rfl, rfl, .inr ⟨_, rfl, rfl⟩, Nat.le_refl _, Nat.le_refl _,
    fun _ _ ↦ rfl⟩ ?_ ?_ hgood.progress ?_ ?_ hgood.locked
  · intro event hevent
    cases queued with
    | false => exact hmem (hgood.queue event hevent)
    | true =>
      rcases mem_append.mp hevent with hevent | hevent
      · exact hmem (hgood.queue event hevent)
      · exact mem_append_right _ hevent
  · rw [hlength]
    exact Nat.le_succ_of_le hgood.processed
  · refine ⟨fun event htaken ↦ ?_, hgood.observer.publishing, hgood.observer.current,
      hgood.observer.serving⟩
    obtain ⟨hevent, hconnection, hsequence⟩ := hgood.observer.taken event htaken
    exact ⟨hmem hevent, hconnection, hsequence⟩
  · have hholder := hgood.holder
    unfold HolderGood at hholder ⊢
    cases hheld : s.holder with
    | free => simp only [receipt, hheld]
    | revoking index => simpa only [receipt, hheld] using hholder
    | admitted kind deadline index id => simpa only [receipt, hheld] using hholder
    | publishing event index =>
      simp only [hheld] at hholder
      obtain ⟨hactive, hevent, hsequence, hprocessed⟩ := hholder
      simp only [receipt, hheld]
      exact ⟨hactive, mem_append_left _ hevent, hsequence, hprocessed⟩
    | placed kind deadline index id after =>
      simp only [hheld] at hholder
      obtain ⟨hfree, hfrom, hto⟩ := hholder
      simp only [receipt, hheld, length_append]
      exact ⟨hfree, hfrom, Nat.le_add_right_of_le hto⟩
    | timed kind deadline index id after registeredAt =>
      simp only [hheld] at hholder
      obtain ⟨hfree, hfrom, hto, hregistered⟩ := hholder
      simp only [receipt, hheld, length_append]
      exact ⟨hfree, hfrom, Nat.le_add_right_of_le hto, hregistered⟩

/-- A step of the observer that leaves the lock and the cursor. -/
theorem observer_good {observer : Observer} {queue : List ObsEvent}
    (hpublishing : ¬ s.holder.Publishing) (hobserver : observer ≠ .publishing)
    (hqueue : ∀ event ∈ queue, event ∈ s.received)
    (htaken : ∀ event, observer = .taken event →
      event ∈ s.received ∧ event.connection = s.token ∧ event.sequence = s.processed + 1)
    (hserving : observer ≠ .stopped → s.registry.alive = true) :
    Good { s with observer, queue } ∧ s.Evolves { s with observer, queue } :=
  hgood.around (.of_eq rfl rfl rfl rfl (Nat.le_refl _)) hqueue hgood.processed hgood.progress
    ⟨htaken, iff_of_false hobserver hpublishing, hgood.observer.current, hserving⟩ hgood.holder
    hgood.locked

theorem dequeue_good {rest : List ObsEvent} (hobserver : s.observer = .waiting)
    (hqueue : s.queue = event :: rest) :
    (s.dequeue event rest).Good ∧ s.Evolves (s.dequeue event rest) := by
  have hpublishing : ¬ s.holder.Publishing := fun h ↦ by
    rw [hgood.observer.publishing.mpr h] at hobserver
    cases hobserver
  have hevent : event ∈ s.received := hgood.queue event (by simp [hqueue])
  refine observer_good hgood hpublishing ?_ (fun other hother ↦ hgood.queue other ?_) ?_
    fun _ ↦ hgood.observer.serving (by simp [hobserver])
  · split_ifs <;> simp
  · rw [hqueue]
    exact mem_cons_of_mem _ hother
  · intro other hother
    split_ifs at hother with hnext
    obtain rfl : event = other := by simpa using hother
    exact ⟨hevent, hnext.1, hnext.2.2.symm⟩

theorem publish_good (hobserver : s.observer = .taken event) (hfree : s.holder = .free) :
    (s.publish event).Good ∧ s.Evolves (s.publish event) := by
  have halive := hgood.observer.serving (by simp [hobserver])
  obtain ⟨hmem, hconnection, hsequence⟩ := hgood.observer.taken event hobserver
  have hbound := hgood.numbered.sequence_le hmem
  have hprogress := hgood.progress
  have hpublishing : ¬ s.holder.Publishing := by simp [hfree, Holder.Publishing]
  unfold publish
  split_ifs with hactive
  · have hcurrent := hgood.observer.current hactive.1 hpublishing
    refine hgood.around ⟨rfl, rfl, rfl, rfl, .inl rfl, Nat.le_refl _, Nat.le_refl _, ?_⟩
      hgood.queue hbound ?_ ?_ ?_ fun _ ↦ halive
    · intro index _
      simp [projectedFor, hfree]
    · simp only
      omega
    · exact ⟨by simp, iff_of_true rfl trivial, fun _ h ↦ absurd trivial h, fun _ ↦ halive⟩
    · exact ⟨hactive.1, hmem, hcurrent ▸ hsequence, rfl⟩
  · refine hgood.around (.of_eq rfl rfl rfl rfl (Nat.le_refl _)) hgood.queue hbound ?_ ?_ ?_
      hgood.locked
    · simp only
      omega
    · refine ⟨by simp, iff_of_false (by simp) hpublishing, fun h ↦ ?_, fun _ ↦ halive⟩
      exact absurd ⟨h, hconnection⟩ hactive
    · unfold HolderGood
      simp only [hfree]

/-- The last part of a projection publishes the cursor. -/
theorem advance_good {index : ℕ} (hholder : s.holder = .publishing event index)
    (hlast : ¬ index < s.registry.slots.length) :
    Good { s with
        registry := { s.registry with progress := event.sequence }
        holder := .free
        observer := .published } ∧
      s.Evolves { s with
        registry := { s.registry with progress := event.sequence }
        holder := .free
        observer := .published } := by
  have hheld := hgood.holder
  unfold HolderGood at hheld
  rw [hholder] at hheld
  obtain ⟨-, hmem, hsequence, hprocessed⟩ := hheld
  refine hgood.around ⟨rfl, rfl, rfl, rfl, .inl rfl, Nat.le_refl _, ?_, fun i hi ↦ ?_⟩ hgood.queue
    hgood.processed (Nat.le_of_eq hprocessed.symm) ?_ trivial fun h ↦ absurd rfl h
  · simp only
    omega
  · unfold projectedFor
    simp only [hholder]
    rw [if_pos (by omega), hsequence]
  · exact ⟨by simp, iff_of_false (by simp) id, fun _ _ ↦ hprocessed,
      fun _ ↦ hgood.locked (by simp [hholder])⟩

theorem revoke_good (halive : s.registry.alive = true) (hfree : s.holder = .free) :
    Good { s with registry := { s.registry with active := false }, holder := .revoking 0 } ∧
      s.Evolves { s with
        registry := { s.registry with active := false }, holder := .revoking 0 } := by
  refine hgood.around ⟨rfl, rfl, rfl, rfl, .inl rfl, Nat.le_refl _, Nat.le_refl _, fun i _ ↦ ?_⟩
    hgood.queue hgood.processed hgood.progress ?_ rfl fun _ ↦ halive
  · simp [projectedFor, hfree]
  · refine ⟨hgood.observer.taken, ?_, by simp, fun _ ↦ halive⟩
    rw [hgood.observer.publishing, hfree]
    exact Iff.rfl

theorem dropRegistry_good (hobserver : s.observer = .stopped) (hfree : s.holder = .free) :
    s.dropRegistry.Good ∧ s.Evolves s.dropRegistry := by
  have hnone : ∀ (i : ℕ) (slot : Slot), s.dropRegistry.registry.slots[i]? ≠ some (some slot) := by
    intro i slot hslot
    simp only [dropRegistry, getElem?_replicate] at hslot
    split_ifs at hslot
    cases some.inj hslot
  refine ⟨⟨hgood.numbered, hgood.queue, hgood.processed, hgood.progress,
    ⟨hgood.observer.taken, hgood.observer.publishing, hgood.observer.current,
      fun h ↦ absurd hobserver h⟩, ?_, fun h ↦ absurd hfree h, length_replicate,
    fun _ ↦ hnone, fun n sub hsub ↦ ?_, fun i slot hslot ↦ absurd hslot (hnone i slot),
    hgood.budget⟩, evolves_of_eq rfl⟩
  · unfold HolderGood
    simp only [dropRegistry, hfree]
  · refine subscription_good (hgood.subscriptions n sub hsub) hgood.numbered (.inl rfl)
      (Nat.le_refl _) ?_ (Nat.le_refl _) (fun _ ↦ ⟨rfl, hgood.projectedFor_le _⟩) ?_
    · simp [dropRegistry, hgood.length]
    · simp [dropRegistry]

end

/-! ### Filling a cell -/

theorem select_paths (paths : ℕ) (event : ObsEvent) (terminal : Terminal) :
    (Registry.select paths event terminal).2 +
      (Outcome.ready (Registry.select paths event terminal).1).bytes = paths := by
  unfold Registry.select
  cases event.path terminal with
  | none => rfl
  | some text =>
    simp only
    split_ifs with hlarge hfits
    · rfl
    · simp only [Outcome.bytes, OutputEvent.bytes, map_some, getD_some]
      omega
    · rfl

theorem select_ne_expired (paths : ℕ) (event : ObsEvent) (terminal : Terminal) :
    (Registry.select paths event terminal).1 ≠ .error .confirmationExpired := by
  unfold Registry.select
  cases event.path terminal with
  | none => simp
  | some text =>
    simp only
    split_ifs <;> simp

section

variable (hgood : s.Good)
include hgood

/-- A pending cell gets its outcome in the turn of its slot. Assumes: an event in the outcome is the
first answer, the permits pay for it, and for the other slots the projection stays. -/
theorem Good.filled (hsub : s.subscriptions[n]? = some sub)
    (hpending : sub.cell = some .pending) {result : Result}
    (hfirst : ∀ output, result = .ok output →
      FirstAnswer s.received sub.slot output) (hexpired : result ≠ .error .confirmationExpired)
    {paths : ℕ} (hpaths : paths + (Outcome.ready result).bytes = s.registry.paths) {holder : Holder}
    (hpublishing : holder.Publishing ↔ s.holder.Publishing) (hlocked : s.holder ≠ .free) {t : State}
    (ht : t = { s with
      subscriptions := s.subscriptions.set n { sub with cell := some (.ready result) }
      registry := { s.registry with paths }
      holder }) (hholder : t.HolderGood)
    (hprojected : ∀ index, index ≠ sub.index → t.projectedFor index = s.projectedFor index) :
    t.Good ∧ s.Evolves t := by
  have hold := hgood.subscriptions n sub hsub
  have halive := hgood.locked hlocked
  have hactive : sub.phase ≠ .ended := fun h ↦ by
    rw [hold.freed.mpr h] at hpending
    cases hpending
  have hlt := (List.getElem?_eq_some_iff.mp hsub).1
  have hevolves : sub.Evolves { sub with cell := some (.ready result) } :=
    ⟨rfl, fun _ h ↦ h, by simp [hpending], by simp [hpending], by simp [hpending]⟩
  subst ht
  refine ⟨⟨hgood.numbered, hgood.queue, hgood.processed, hgood.progress,
    ⟨hgood.observer.taken, hgood.observer.publishing.trans hpublishing.symm, fun hact hnot ↦
      hgood.observer.current hact fun h ↦ hnot (hpublishing.mpr h), hgood.observer.serving⟩,
    hholder, fun _ ↦ halive, hgood.length, hgood.gone, fun m other hother ↦ ?_,
    fun i slot hslot ↦ ?_, ?_⟩,
    evolves_set hsub hevolves (fun _ h ↦ .inl h) rfl⟩
  · rcases getElem?_set_cases hother with ⟨rfl, rfl⟩ | ⟨hm, hother⟩
    · exact
        { hold with
          freed := iff_of_false (by simp) hactive
          consumed := by simp
          pending := by simp
          ready := fun output houtput ↦ hfirst output (by simpa using houtput)
          unexpired := by simpa using hexpired }
    · have hotherGood := hgood.subscriptions m other hother
      refine subscription_good hotherGood hgood.numbered (.inl rfl) (Nat.le_refl _) rfl
        (Nat.le_refl _) (fun hcell ↦ ⟨hprojected _ fun hindex ↦ hm ?_, hgood.projectedFor_le _⟩)
        hotherGood.registered
      have hotherActive : other.phase ≠ .ended := fun h ↦ by
        rw [hotherGood.freed.mpr h] at hcell
        cases hcell
      have hslot := hotherGood.registered halive hotherActive
      rw [hindex, hold.registered halive hactive, Option.some.injEq, Option.some.injEq] at hslot
      rw [← hold.cell, ← hotherGood.cell, hslot]
  · exact hgood.owner_set hsub rfl rfl id hslot
  · have hsum := sum_set Subscription.bytes { sub with cell := some (.ready result) } hsub
    have hbudget := hgood.budget
    have hbytes : Subscription.bytes { sub with cell := some (.ready result) } =
        sub.bytes + (Outcome.ready result).bytes := by
      simp only [Subscription.bytes, hpending, map_some, getD_some]
      simp only [Outcome.bytes]
      omega
    simp only
    omega

/-- The cell of a registered slot, with its subscription, when it is filled. -/
theorem fill_cases {slot : Slot} (hslot : s.registry.slots[i]? = some (some slot))
    (result : Result) (paths : ℕ) :
    ∃ sub : Subscription, s.subscriptions[slot.cell]? = some sub ∧ sub.slot = slot ∧
      sub.index = i ∧
      ((sub.cell ≠ some .pending ∧ s.fill slot.cell result paths = s) ∨
        (sub.cell = some .pending ∧ s.fill slot.cell result paths =
          { s with
            subscriptions :=
              s.subscriptions.set slot.cell { sub with cell := some (.ready result) }
            registry := { s.registry with paths } })) := by
  obtain ⟨sub, hsub, hsame, hindex, -⟩ := hgood.owner i slot hslot
  refine ⟨sub, hsub, hsame, hindex, ?_⟩
  unfold fill
  simp only [hsub]
  by_cases hpending : sub.cell = some .pending
  · exact .inr ⟨hpending, by rw [if_pos hpending]⟩
  · exact .inl ⟨hpending, by rw [if_neg hpending]⟩

/-- The subscription of a slot that is there is the one with a pending cell at its index. -/
theorem Good.slot_of_pending (halive : s.registry.alive = true)
    (hsub : s.subscriptions[n]? = some sub) (hpending : sub.cell = some .pending) :
    s.registry.slots[sub.index]? = some (some sub.slot) := by
  have hold := hgood.subscriptions n sub hsub
  refine hold.registered halive fun h ↦ ?_
  rw [hold.freed.mpr h] at hpending
  cases hpending

/-- A turn that fills no cell. Assumes: in a projection the event does not answer a pending cell at
the slot. -/
theorem Good.passed {i : ℕ} {holder : Holder}
    (hpublishing : holder.Publishing ↔ s.holder.Publishing) (hlocked : s.holder ≠ .free)
    (hholder : HolderGood { s with holder })
    (hprojected : ∀ index, index ≠ i → projectedFor { s with holder } index = s.projectedFor index)
    (hhere : ∀ (n : ℕ) (sub : Subscription), s.subscriptions[n]? = some sub → sub.index = i →
      sub.cell = some .pending →
        Unanswered s.received sub.slot (projectedFor { s with holder } i)) :
    Good { s with holder } ∧ s.Evolves { s with holder } := by
  refine ⟨⟨hgood.numbered, hgood.queue, hgood.processed, hgood.progress,
    ⟨hgood.observer.taken, hgood.observer.publishing.trans hpublishing.symm, fun hact hnot ↦
      hgood.observer.current hact fun h ↦ hnot (hpublishing.mpr h), hgood.observer.serving⟩,
    hholder, fun _ ↦ hgood.locked hlocked, hgood.length, hgood.gone, fun n sub hsub ↦ ?_,
    hgood.owner, hgood.budget⟩, evolves_of_eq rfl⟩
  have hold := hgood.subscriptions n sub hsub
  by_cases hindex : sub.index = i
  · exact
      { hold with
        pending := fun hpending ↦ by
          rw [hindex]
          exact hhere n sub hsub hindex hpending }
  · exact subscription_good hold hgood.numbered (.inl rfl) (Nat.le_refl _) rfl (Nat.le_refl _)
      (fun _ ↦ ⟨hprojected _ hindex, hgood.projectedFor_le _⟩) hold.registered

/-- The turn of a slot in a projection. -/
theorem projectSlot_good (hholder : s.holder = .publishing event i) :
    Good { s.projectSlot event i with holder := .publishing event (i + 1) } ∧
      s.Evolves { s.projectSlot event i with holder := .publishing event (i + 1) } := by
  have hlocked : s.holder ≠ .free := by simp [hholder]
  have halive := hgood.locked hlocked
  have hheld := hgood.holder
  unfold HolderGood at hheld
  simp only [hholder] at hheld
  obtain ⟨hactive, hmem, hsequence, hprocessed⟩ := hheld
  have hpublishing : (Holder.publishing event (i + 1)).Publishing ↔ s.holder.Publishing := by
    rw [hholder]
    exact Iff.rfl
  have hbefore : s.projectedFor i = s.registry.progress := by
    simp [projectedFor, hholder]
  have helsewhere : ∀ index, index ≠ i →
      (if index < i + 1 then s.registry.progress + 1 else s.registry.progress) =
        s.projectedFor index := by
    intro index hindex
    simp only [projectedFor, hholder]
    have : index < i + 1 ↔ index < i := by omega
    simp only [this]
  have hpass : (∀ (n : ℕ) (sub : Subscription), s.subscriptions[n]? = some sub → sub.index = i →
      sub.cell = some .pending → ¬ Answers sub.slot event) →
      Good { s with holder := .publishing event (i + 1) } ∧
        s.Evolves { s with holder := .publishing event (i + 1) } := by
    intro hnot
    refine hgood.passed hpublishing hlocked ⟨hactive, hmem, hsequence, hprocessed⟩ helsewhere
      fun n sub hsub hindex hpending ↦ ?_
    have hunanswered := (hgood.subscriptions n sub hsub).pending hpending
    rw [hindex, hbefore] at hunanswered
    simp only [projectedFor, Nat.lt_succ_self, if_true]
    exact hunanswered.succ hgood.numbered hmem hsequence (hnot n sub hsub hindex hpending)
  unfold projectSlot
  split
  · rename_i kind terminal slot htransition hslot
    split_ifs with hselects
    · have hanswers := (selects_iff htransition).mp hselects
      obtain ⟨sub, hsub, rfl, hindex, ⟨hpending, heq⟩ | ⟨hpending, heq⟩⟩ :=
        fill_cases hgood hslot (Registry.select s.registry.paths event terminal).1
          (Registry.select s.registry.paths event terminal).2
      · simp only [heq]
        refine hpass fun n other hother hotherIndex hotherPending ↦ ?_
        have hotherSlot := hgood.slot_of_pending halive hother hotherPending
        rw [hotherIndex, hslot, Option.some.injEq, Option.some.injEq] at hotherSlot
        have hcell := (hgood.subscriptions n other hother).cell
        rw [← hotherSlot] at hcell
        rw [hcell] at hsub
        obtain rfl : other = sub := some.inj (hother.symm.trans hsub)
        exact absurd hotherPending hpending
      · have hunanswered := (hgood.subscriptions _ sub hsub).pending hpending
        rw [hindex, hbefore] at hunanswered
        simp only [heq]
        exact hgood.filled hsub hpending
          (fun output houtput ↦
            firstAnswer_of_select hunanswered hmem hsequence hanswers htransition houtput)
          (select_ne_expired _ _ _) (select_paths _ _ _) hpublishing hlocked rfl
          ⟨hactive, hmem, hsequence, hprocessed⟩ fun index hne ↦ helsewhere index (hindex ▸ hne)
    · refine hpass fun n sub hsub hindex hpending hanswers ↦ hselects ?_
      have hsubSlot := hgood.slot_of_pending halive hsub hpending
      rw [hindex, hslot, Option.some.injEq, Option.some.injEq] at hsubSlot
      rw [hsubSlot]
      exact (selects_iff htransition).mpr hanswers
  · rename_i hnone
    refine hpass fun n sub hsub hindex hpending hanswers ↦ ?_
    have hsubSlot := hgood.slot_of_pending halive hsub hpending
    rw [hindex] at hsubSlot
    obtain ⟨⟨kind, terminal⟩, htransition, -⟩ := map_eq_some_iff.mp hanswers.1
    exact hnone kind terminal sub.slot htransition hsubSlot

/-- The turn of a slot in a revocation, and the end of the revocation. -/
theorem revokeSlot_good (hholder : s.holder = .revoking i) :
    (s.revokeSlot i).Good ∧ s.Evolves (s.revokeSlot i) := by
  have hlocked : s.holder ≠ .free := by simp [hholder]
  have hactive := hgood.holder
  unfold HolderGood at hactive
  simp only [hholder] at hactive
  have hprojected : ∀ index, s.projectedFor index = s.registry.progress := by
    simp [projectedFor, hholder]
  have hpublishing : (Holder.revoking (i + 1)).Publishing ↔ s.holder.Publishing := by
    rw [hholder]
    exact Iff.rfl
  have hpass : Good { s with holder := .revoking (i + 1) } ∧
      s.Evolves { s with holder := .revoking (i + 1) } := by
    refine @Good.passed s hgood i (.revoking (i + 1)) hpublishing hlocked hactive
      (fun index _ ↦ (hprojected index).symm) fun n sub hsub hindex hpending ↦ ?_
    have hunanswered := (hgood.subscriptions n sub hsub).pending hpending
    rw [hprojected] at hunanswered
    exact hunanswered
  unfold revokeSlot
  split
  · rename_i slot hslot
    obtain ⟨sub, hsub, rfl, hindex, ⟨-, heq⟩ | ⟨hpending, heq⟩⟩ :=
      fill_cases hgood hslot (.error .revoked) s.registry.paths
    · simp only [heq]
      exact hpass
    · simp only [heq]
      exact hgood.filled hsub hpending (by simp) (by simp) (Nat.add_zero _) hpublishing hlocked rfl
        hactive fun index _ ↦ (hprojected index).symm
  · exact hpass
  · refine hgood.around ⟨rfl, rfl, rfl, rfl, .inl rfl, Nat.le_refl _, Nat.le_refl _,
      fun index _ ↦ (hprojected index).symm⟩ hgood.queue hgood.processed hgood.progress ?_ trivial
      fun h ↦ absurd rfl h
    refine ⟨hgood.observer.taken, ?_, ?_, hgood.observer.serving⟩
    · rw [hgood.observer.publishing, hholder]
      exact Iff.rfl
    · simp [hactive]

end

end State

end ObsMcp.Outputs
