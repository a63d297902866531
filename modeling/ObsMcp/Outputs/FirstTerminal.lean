import ObsMcp.Outputs.Cells

/-!
# The first terminal event answers a subscription

The law of the subscriptions over every run of the registry. The registrations and the steps of a
subscription keep a state good, and with the steps of the projection so does every step
(`act_good`). `first_terminal_confirmation` collects what follows for the results of the
subscriptions.
-/

namespace ObsMcp.Outputs

open Foundations List Option

namespace State

variable {s t : State}

/-! ### Registrations -/

variable {id index n : ℕ} {registry : Registry} {later sub : Subscription}

theorem identity_ok {next : Registry} (hidentity : registry.identity = .ok (id, next)) :
    ∃ nextId, next = { registry with nextId } := by
  unfold Registry.identity at hidentity
  split at hidentity
  · cases hidentity
  · cases hidentity
    exact ⟨_, rfl⟩

/-- An admission finds a free slot and changes nothing but the identity. -/
theorem admission_ok {next : Registry} {invalidated : Bool}
    (hadmission : registry.admission invalidated = .ok (index, id, next)) :
    registry.slots[index]? = some none ∧ ∃ nextId, next = { registry with nextId } := by
  unfold Registry.admission at hadmission
  split at hadmission
  · cases hadmission
  · split at hadmission
    · cases hadmission
    · rename_i found hfound
      cases hidentity : registry.identity with
      | error error =>
        rw [hidentity] at hadmission
        cases hadmission
      | ok identity =>
        rw [hidentity] at hadmission
        obtain ⟨rfl, rfl, rfl⟩ :
            found = index ∧ identity.1 = id ∧ identity.2 = next := by
          simp only [Except.map, Except.ok.injEq, Prod.mk.injEq] at hadmission
          exact hadmission
        obtain ⟨hlt, hnone, -⟩ := findIdx?_eq_some_iff_getElem.mp hfound
        rw [isNone_iff_eq_none] at hnone
        exact ⟨by rw [getElem?_eq_getElem hlt, hnone], identity_ok hidentity⟩

/-- A step of a registration before its slot is there. -/
theorem Good.registering (hgood : s.Good) {nextId : Option ℕ}
    (hregistry : registry = { s.registry with nextId }) {holder : Holder}
    (halive : s.registry.alive = true) (hbefore : ¬ s.holder.Publishing)
    (hafter : ¬ holder.Publishing) (hholder : HolderGood { s with registry, holder }) :
    Good { s with registry, holder } ∧ s.Evolves { s with registry, holder } := by
  subst hregistry
  have hprojected : ∀ holder : Holder, ¬ holder.Publishing → ∀ index,
      projectedFor { s with registry := { s.registry with nextId }, holder } index =
        s.registry.progress := by
    intro holder hnot index
    unfold projectedFor
    cases holder with
    | publishing event next => exact absurd trivial hnot
    | _ => rfl
  refine hgood.around ⟨rfl, rfl, rfl, rfl, .inl rfl, Nat.le_refl _, Nat.le_refl _,
    fun index _ ↦ ?_⟩ hgood.queue hgood.processed hgood.progress ?_ hholder fun _ ↦ halive
  · rw [hprojected holder hafter index]
    exact (hprojected s.holder hbefore index).symm
  · exact ⟨hgood.observer.taken, iff_of_false (fun h ↦ hbefore (hgood.observer.publishing.mp h))
      hafter, fun h _ ↦ hgood.observer.current h hbefore, hgood.observer.serving⟩

variable {deadline : ℕ} {kind : OutputKind} {slot : Slot} {label : Label}

theorem subscribe_good (hgood : s.Good) (halive : s.registry.alive = true)
    (hfree : s.holder = .free) (hsubscribe : s.subscribe kind deadline = .ok t) :
    t.Good ∧ s.Evolves t := by
  unfold subscribe at hsubscribe
  cases hadmission : s.registry.admission s.invalidated with
  | error error =>
    rw [hadmission] at hsubscribe
    cases hsubscribe
  | ok admitted =>
    obtain ⟨index, id, registry⟩ := admitted
    rw [hadmission] at hsubscribe
    cases hsubscribe
    obtain ⟨hslot, nextId, hregistry⟩ := admission_ok hadmission
    refine hgood.registering hregistry halive (by simp [hfree, Holder.Publishing]) (fun h ↦ h) ?_
    subst hregistry
    exact hslot

/-- The new slot and its subscription. -/
theorem insert_good (hgood : s.Good) {after registeredAt : ℕ}
    (hholder : s.holder = .timed kind deadline index id after registeredAt)
    (hslot : slot = ⟨id, kind, after, registeredAt, deadline, s.subscriptions.length⟩)
    (ht : t = { s with
      registry := { s.registry with slots := s.registry.slots.set index (some slot) }
      holder := .free
      subscriptions :=
        s.subscriptions ++ [⟨index, slot, 0, .held, none, some .pending, none, none⟩] }) :
    t.Good ∧ s.Evolves t := by
  have hlocked : s.holder ≠ .free := by simp [hholder]
  have halive := hgood.locked hlocked
  have hheld := hgood.holder
  unfold HolderGood at hheld
  simp only [hholder] at hheld
  obtain ⟨hnone, hfrom, hto, hregistered⟩ := hheld
  have hindex := (List.getElem?_eq_some_iff.mp hnone).1
  have hprojected : ∀ i, s.projectedFor i = s.registry.progress := by
    simp [projectedFor, hholder]
  have hnot : ¬ s.holder.Publishing := by simp [hholder, Holder.Publishing]
  subst ht
  refine ⟨⟨hgood.numbered, hgood.queue, hgood.processed, hgood.progress,
    ⟨hgood.observer.taken, iff_of_false (fun h ↦ hnot (hgood.observer.publishing.mp h)) (fun h ↦ h),
      fun h _ ↦ hgood.observer.current h hnot, hgood.observer.serving⟩, trivial,
    fun h ↦ absurd rfl h, ?_, fun h ↦ ?_, fun n sub hsub ↦ ?_, fun i other hother ↦ ?_, ?_⟩,
    ⟨fun n sub hsub ↦ ?_, fun n later hnone hlater ↦ ?_⟩⟩
  · simp [hgood.length]
  · rw [halive] at h
    cases h
  · rcases getElem?_concat_cases hsub with hsub | ⟨rfl, rfl⟩
    · have hold := hgood.subscriptions n sub hsub
      refine subscription_good hold hgood.numbered (.inl rfl) (Nat.le_refl _) (by simp)
        (Nat.le_refl _) (fun _ ↦ ⟨(hprojected _).symm, hgood.projectedFor_le _⟩) fun _ hphase ↦ ?_
      have hthere := hold.registered halive hphase
      rw [getElem?_set_ne, hthere]
      rintro rfl
      rw [hnone] at hthere
      cases hthere
    · subst hslot
      refine ⟨rfl, by simpa using hindex, hto, hregistered, fun _ _ ↦ ?_, by simp, by simp,
        fun _ ↦ rfl, fun _ ↦ rfl, fun _ ↦ ?_, by simp, by simp, by simp, by simp, by simp, by simp,
        by simp⟩
      · simp only [getElem?_set_self hindex]
      · rintro event - hle ⟨-, hafter, -⟩
        simp only [projectedFor] at hle
        simp only at hafter
        omega
  · rcases getElem?_set_cases hother with ⟨rfl, hsame⟩ | ⟨-, hother⟩
    · cases hsame
      refine ⟨⟨index, slot, 0, .held, none, some .pending, none, none⟩, ?_, rfl, rfl, by simp⟩
      rw [hslot]
      simp
    · obtain ⟨sub, hsub, hrest⟩ := hgood.owner i other hother
      refine ⟨sub, ?_, hrest⟩
      exact getElem?_append_of_some hsub
  · have hbudget := hgood.budget
    simpa [Subscription.bytes, Outcome.bytes] using hbudget
  · refine ⟨sub, ?_, .refl sub, fun _ h ↦ .inl h⟩
    exact getElem?_append_of_some hsub
  · rw [getElem?_append_right (getElem?_eq_none_iff.mp hnone)] at hlater
    obtain rfl := mem_singleton.mp (mem_of_getElem? hlater)
    subst hslot
    exact ⟨rfl, kind, deadline, index, id, hholder⟩

theorem register_good (hgood : s.Good) (hregister : s.register = some t) :
    t.Good ∧ s.Evolves t := by
  have hheld := hgood.holder
  unfold HolderGood at hheld
  unfold register at hregister
  cases hholder : s.holder with
  | free =>
    simp only [hholder] at hregister
    cases hregister
  | publishing event index =>
    simp only [hholder] at hregister
    cases hregister
  | revoking index =>
    simp only [hholder] at hregister
    cases hregister
  | admitted kind deadline index id =>
    simp only [hholder, Option.some.injEq] at hregister hheld
    subst hregister
    exact hgood.registering rfl (hgood.locked (by simp [hholder]))
      (by simp [hholder, Holder.Publishing]) (by simp [Holder.Publishing])
      ⟨hheld, Nat.le_trans hgood.progress hgood.processed, Nat.le_refl _⟩
  | placed kind deadline index id after =>
    simp only [hholder, Option.some.injEq] at hregister hheld
    subst hregister
    exact hgood.registering rfl (hgood.locked (by simp [hholder]))
      (by simp [hholder, Holder.Publishing]) (by simp [Holder.Publishing])
      ⟨hheld.1, hheld.2.1, hheld.2.2, Nat.le_refl _⟩
  | timed kind deadline index id after registeredAt =>
    simp only [hholder, Option.some.injEq] at hregister
    exact insert_good hgood hholder rfl hregister.symm

/-! ### Steps of a subscription -/

/-- A sound step of one subscription. -/
theorem Good.moved (hgood : s.Good) (hsub : s.subscriptions[n]? = some sub)
    (hsound : Subscription.Sound s n sub later) :
    Good { s with subscriptions := s.subscriptions.set n later } ∧
      s.Evolves { s with subscriptions := s.subscriptions.set n later } := by
  have hlt := (List.getElem?_eq_some_iff.mp hsub).1
  refine ⟨⟨hgood.numbered, hgood.queue, hgood.processed, hgood.progress,
    ⟨hgood.observer.taken, hgood.observer.publishing, hgood.observer.current,
      hgood.observer.serving⟩, hgood.holder, hgood.locked, hgood.length, hgood.gone,
    fun m other hother ↦ ?_, fun i slot hslot ↦ ?_, ?_⟩,
    evolves_set hsub hsound.evolves hsound.captures rfl⟩
  · rcases getElem?_set_cases hother with ⟨rfl, rfl⟩ | ⟨-, hother⟩
    · exact { hsound.good with }
    · exact { hgood.subscriptions m other hother with }
  · exact hgood.owner_set hsub hsound.evolves.slot hsound.index (fun _ ↦ hsound.ended) hslot
  · have hbudget := hgood.budget
    rw [← sum_set_of_eq Subscription.bytes hsub hsound.bytes] at hbudget
    exact hbudget

theorem move_good (hgood : s.Good) {step : Subscription → Option Subscription}
    (hstep : ∀ sub later, sub.Good s n → step sub = some later → Subscription.Sound s n sub later)
    (hmove : s.move n step = some t) : t.Good ∧ s.Evolves t := by
  obtain ⟨later, hlater, rfl⟩ := map_eq_some_iff.mp hmove
  obtain ⟨sub, hsub, hstepped⟩ := Option.bind_eq_some_iff.mp hlater
  exact hgood.moved hsub (hstep sub later (hgood.subscriptions n sub hsub) hstepped)

theorem start_sound {settlementDeadline : ℕ} (hgood : sub.Good s n)
    (hstart : sub.start settlementDeadline = some later) : Subscription.Sound s n sub later := by
  unfold Subscription.start at hstart
  split_ifs at hstart with hphase
  cases hstart
  obtain ⟨hlater, hevolves, hcaptures, hbytes, hindex, hended⟩ :
      Subscription.Sound s n sub { sub with phase := .polling } :=
    hgood.phase (by simp [hphase, Phase.Open]) (by simp [Phase.Open]) (by simp) (by simp)
  exact ⟨{ hlater with }, { hevolves with }, hcaptures, hbytes, hindex, hended⟩

theorem wake_sound (hgood : sub.Good s n) (hwake : sub.wake = some later) :
    Subscription.Sound s n sub later := by
  unfold Subscription.wake at hwake
  split_ifs at hwake with hphase
  cases hwake
  exact hgood.phase (by simp [hphase, Phase.Open]) (by simp [Phase.Open]) (by simp) (by simp)

theorem lose_sound {alive : Bool} (hgood : sub.Good s n) (hlose : sub.lose alive = some later) :
    Subscription.Sound s n sub later := by
  unfold Subscription.lose at hlose
  split_ifs at hlose with hphase
  cases hlose
  exact hgood.phase (by simp [hphase.1, Phase.Open]) (by simp [Phase.Open]) (by simp) (by simp)

theorem drop_sound (hgood : sub.Good s n) (hdrop : sub.drop = some later) :
    Subscription.Sound s n sub later := by
  unfold Subscription.drop at hdrop
  split_ifs at hdrop with hphase
  cases hdrop
  refine hgood.phase ?_ (by simp [Phase.Open]) (by simp) (by simp)
  rcases hphase with hphase | hphase <;> simp [hphase, Phase.Open]

/-- The slot that a subscription gives back is its own. -/
theorem unregister_own (hslot : registry.slots[index]? = some (some slot)) :
    registry.unregister index slot.id =
      { registry with slots := registry.slots.set index none } := by
  unfold Registry.unregister
  simp [hslot]

/-- What is left of the slots after a drop. -/
theorem unregister_slots (hgood : s.Good) (hsub : s.subscriptions[n]? = some sub)
    (hphase : sub.phase ≠ .ended) :
    ∃ slots : List (Option Slot),
      s.registry.unregister sub.index sub.slot.id = { s.registry with slots } ∧
      slots.length = s.registry.slots.length ∧
      (∀ (i : ℕ) (slot : Slot), slots[i]? = some (some slot) →
        s.registry.slots[i]? = some (some slot) ∧ slot.cell ≠ n) ∧
      (∀ (i : ℕ) (slot : Slot), s.registry.slots[i]? = some (some slot) → slot.cell ≠ n →
        slots[i]? = some (some slot)) ∧
      ∀ i : ℕ, s.registry.slots[i]? = some none → slots[i]? = some none := by
  have hold := hgood.subscriptions n sub hsub
  cases halive : s.registry.alive with
  | true =>
    have hslot := hold.registered halive hphase
    have hlt := (List.getElem?_eq_some_iff.mp hslot).1
    refine ⟨s.registry.slots.set sub.index none, unregister_own hslot, List.length_set,
      fun i slot hthere ↦ ?_, fun i slot hthere hcell ↦ ?_, fun i hnone ↦ ?_⟩
    · rcases getElem?_set_cases hthere with ⟨-, hnone⟩ | ⟨hi, hthere⟩
      · cases hnone
      · refine ⟨hthere, fun hcell ↦ hi ?_⟩
        obtain ⟨other, hother, -, hindex, -⟩ := hgood.owner i slot hthere
        rw [hcell] at hother
        rw [some.inj (hsub.symm.trans hother), hindex]
    · rw [getElem?_set_ne, hthere]
      rintro rfl
      rw [hslot, Option.some.injEq, Option.some.injEq] at hthere
      exact hcell (hthere ▸ hold.cell)
    · rw [getElem?_set_ne, hnone]
      rintro rfl
      rw [hslot] at hnone
      cases hnone
  | false =>
    have hnone := hgood.gone halive
    refine ⟨s.registry.slots, ?_, rfl, fun i slot hthere ↦ absurd hthere (hnone i slot),
      fun i slot hthere _ ↦ hthere, fun _ hthere ↦ hthere⟩
    unfold Registry.unregister
    split
    · rename_i slot hslot
      exact absurd hslot (hnone _ slot)
    · rfl

/-- A change of the slots that keeps the free ones does not disturb the holder of the lock. -/
theorem holderGood_of_slots (hholder : s.HolderGood) {slots : List (Option Slot)} {paths : ℕ}
    {subscriptions : List Subscription}
    (hslots : ∀ i : ℕ, s.registry.slots[i]? = some none → slots[i]? = some none) :
    HolderGood { s with registry := { s.registry with slots, paths }, subscriptions } := by
  unfold HolderGood at hholder ⊢
  cases hheld : s.holder with
  | free => trivial
  | publishing event index => simpa only [hheld] using hholder
  | revoking index => simpa only [hheld] using hholder
  | admitted kind deadline index id =>
    simp only [hheld] at hholder ⊢
    exact hslots _ hholder
  | placed kind deadline index id after =>
    simp only [hheld] at hholder ⊢
    exact ⟨hslots _ hholder.1, hholder.2⟩
  | timed kind deadline index id after registeredAt =>
    simp only [hheld] at hholder ⊢
    exact ⟨hslots _ hholder.1, hholder.2⟩

theorem unregister_good (hgood : s.Good) (hunregister : s.unregister n = some t) :
    t.Good ∧ s.Evolves t := by
  obtain ⟨sub, hsub, hunregister⟩ := Option.bind_eq_some_iff.mp hunregister
  split_ifs at hunregister with hphase
  have hold := hgood.subscriptions n sub hsub
  have hlt := (List.getElem?_eq_some_iff.mp hsub).1
  have hactive : sub.phase ≠ .ended := by
    rcases hphase with hphase | hphase <;> simp [hphase]
  obtain ⟨slots, hslots, hlength, hback, hkept, hfree⟩ := unregister_slots hgood hsub hactive
  rw [hslots] at hunregister
  cases hunregister
  have hevolves : sub.Evolves { sub with phase := .ended, cell := none } :=
    ⟨rfl, fun _ h ↦ h, fun _ _ ↦ .inr (.inr rfl), fun _ ↦ .inr rfl, fun _ ↦ rfl⟩
  refine ⟨⟨hgood.numbered, hgood.queue, hgood.processed, hgood.progress,
    ⟨hgood.observer.taken, hgood.observer.publishing, hgood.observer.current,
      hgood.observer.serving⟩, holderGood_of_slots hgood.holder hfree, hgood.locked,
    hlength.trans hgood.length, fun halive i slot hthere ↦ ?_, fun m other hother ↦ ?_,
    fun i slot hthere ↦ ?_, ?_⟩, evolves_set hsub hevolves (fun _ h ↦ .inl h) rfl⟩
  · exact hgood.gone halive i slot (hback i slot hthere).1
  · rcases getElem?_set_cases hother with ⟨rfl, rfl⟩ | ⟨hm, hother⟩
    · exact
        { hold with
          index := hlength ▸ hold.index
          registered := fun _ h ↦ absurd rfl h
          freed := iff_of_true rfl rfl
          consumed := by simp
          opened := fun h ↦ absurd rfl h.2
          pending := by simp
          ready := by simp
          unexpired := by simp
          expiring := by simp
          projected := by simp }
    · have hotherGood := hgood.subscriptions m other hother
      refine subscription_good hotherGood hgood.numbered (.inl rfl) (Nat.le_refl _) hlength
        (Nat.le_refl _) (fun _ ↦ ⟨rfl, hgood.projectedFor_le _⟩) fun halive hopen ↦ ?_
      refine hkept _ _ (hotherGood.registered halive hopen) fun hcell ↦ hm ?_
      rw [← hotherGood.cell, hcell]
  · obtain ⟨hbefore, hcell⟩ := hback i slot hthere
    obtain ⟨other, hother, hrest⟩ := hgood.owner i slot hbefore
    exact ⟨other, by simp only [getElem?_set_ne (Ne.symm hcell), hother], hrest⟩
  · have hsum := sum_set Subscription.bytes { sub with phase := .ended, cell := none } hsub
    have hbudget := hgood.budget
    have hbytes : Subscription.bytes { sub with phase := .ended, cell := none } +
        (sub.cell.map Outcome.bytes).getD 0 = sub.bytes := by
      simp only [Subscription.bytes, map_none, getD_none]
      omega
    simp only
    omega

theorem dropEvent_good (hgood : s.Good) (hdrop : s.dropEvent n = some t) :
    t.Good ∧ s.Evolves t := by
  obtain ⟨sub, hsub, hdrop⟩ := Option.bind_eq_some_iff.mp hdrop
  split_ifs at hdrop with hphase
  cases hdrop
  have hold := hgood.subscriptions n sub hsub
  have hlt := (List.getElem?_eq_some_iff.mp hsub).1
  have hevolves : sub.Evolves { sub with event := none } := { Subscription.Evolves.refl sub with }
  refine ⟨⟨hgood.numbered, hgood.queue, hgood.processed, hgood.progress,
    ⟨hgood.observer.taken, hgood.observer.publishing, hgood.observer.current,
      hgood.observer.serving⟩, holderGood_of_slots hgood.holder (fun _ h ↦ h), hgood.locked,
    hgood.length, hgood.gone, fun m other hother ↦ ?_, fun i slot hslot ↦ ?_, ?_⟩,
    evolves_set hsub hevolves (fun _ h ↦ .inl h) rfl⟩
  · rcases getElem?_set_cases hother with ⟨rfl, rfl⟩ | ⟨-, hother⟩
    · exact { hold with kept := fun _ ↦ rfl }
    · exact { hgood.subscriptions m other hother with }
  · exact hgood.owner_set hsub rfl rfl id hslot
  · have hsum := sum_set Subscription.bytes { sub with event := none } hsub
    have hbudget := hgood.budget
    have hbytes : Subscription.bytes { sub with event := none } +
        (sub.event.map OutputEvent.bytes).getD 0 = sub.bytes := by
      simp only [Subscription.bytes, map_none, getD_none]
      omega
    simp only
    omega

/-! ### Runs -/

theorem of_locking {next : Option State} (hlocking : s.locking next = some t) :
    s.holder = .free ∧ next = some t := by
  unfold locking at hlocking
  split at hlocking
  · rename_i hfree
    exact ⟨hfree, hlocking⟩
  · cases hlocking

theorem act_good (hgood : s.Good) (hact : s.act label = some t) : t.Good ∧ s.Evolves t := by
  cases label with
  | tick elapsed =>
    cases hact
    exact tick_good hgood elapsed
  | receipt eventType data queued =>
    simp only [act] at hact
    split_ifs at hact
    cases hact
    exact receipt_good hgood eventType data queued
  | hangUp =>
    cases hact
    exact hgood.around (.of_eq rfl rfl rfl rfl (Nat.le_refl _)) hgood.queue hgood.processed
      hgood.progress { hgood.observer with } hgood.holder hgood.locked
  | terminate =>
    cases hact
    exact hgood.around (.of_eq rfl rfl rfl rfl (Nat.le_refl _)) hgood.queue hgood.processed
      hgood.progress { hgood.observer with } hgood.holder hgood.locked
  | dequeue =>
    simp only [act] at hact
    split at hact
    · rename_i event rest hobserver hqueue
      cases hact
      exact dequeue_good hgood hobserver hqueue
    · cases hact
  | publish =>
    simp only [act] at hact
    split at hact
    · rename_i event hobserver
      obtain ⟨hfree, hnext⟩ := of_locking hact
      cases hnext
      exact publish_good hgood hobserver hfree
    · cases hact
  | project =>
    simp only [act] at hact
    split at hact
    · rename_i event index hholder
      cases hact
      unfold project
      split_ifs with hlt
      · exact projectSlot_good hgood hholder
      · exact advance_good hgood hholder hlt
    · cases hact
  | resume =>
    simp only [act] at hact
    split at hact
    · rename_i hobserver
      cases hact
      have hpublishing : ¬ s.holder.Publishing := fun h ↦ by
        rw [hgood.observer.publishing.mpr h] at hobserver
        cases hobserver
      exact observer_good hgood hpublishing (by simp) hgood.queue (by simp)
        fun _ ↦ hgood.observer.serving (by simp [hobserver])
    · cases hact
  | stop =>
    simp only [act] at hact
    split at hact
    · cases hact
    · rename_i hobserver
      cases hact
      exact observer_good hgood (fun h ↦ hobserver (hgood.observer.publishing.mpr h)) (by simp)
        hgood.queue (by simp) fun h ↦ absurd rfl h
  | revoke =>
    simp only [act] at hact
    split_ifs at hact with halive
    obtain ⟨hfree, hnext⟩ := of_locking hact
    cases hnext
    exact revoke_good hgood halive hfree
  | revokeSlot =>
    simp only [act] at hact
    split at hact
    · rename_i index hholder
      cases hact
      exact revokeSlot_good hgood hholder
    · cases hact
  | dropRegistry =>
    simp only [act] at hact
    split at hact
    · rename_i hobserver
      obtain ⟨hfree, hnext⟩ := of_locking hact
      cases hnext
      exact dropRegistry_good hgood hobserver hfree
    · cases hact
  | subscribe kind deadline =>
    simp only [act] at hact
    split_ifs at hact with halive
    obtain ⟨hfree, hnext⟩ := of_locking hact
    cases hsubscribe : s.subscribe kind deadline with
    | error error =>
      rw [hsubscribe] at hnext
      cases hnext
    | ok next =>
      rw [hsubscribe] at hnext
      cases hnext
      exact subscribe_good hgood halive hfree hsubscribe
  | register => exact register_good hgood hact
  | start n settlementDeadline => exact move_good hgood (fun _ _ h ↦ start_sound h) hact
  | receive n => exact move_good hgood (fun _ _ h ↦ Subscription.receive_sound h) hact
  | wake n => exact move_good hgood (fun _ _ h ↦ wake_sound h) hact
  | lose n => exact move_good hgood (fun _ _ h ↦ lose_sound h) hact
  | drop n => exact move_good hgood (fun _ _ h ↦ drop_sound h) hact
  | unregister n =>
    simp only [act] at hact
    split_ifs at hact
    · exact unregister_good hgood (of_locking hact).2
    · exact unregister_good hgood hact
  | dropEvent n => exact dropEvent_good hgood hact

theorem initial_good (token : ℕ) : (initial token).Good where
  numbered i event hevent := by simp [initial] at hevent
  queue event hevent := by simp [initial] at hevent
  processed := Nat.le_refl _
  progress := Nat.le_refl _
  observer := ⟨by simp [initial], iff_of_false (by simp [initial]) (fun h ↦ h), fun _ _ ↦ rfl,
    fun _ ↦ rfl⟩
  holder := trivial
  locked h := absurd rfl h
  length := length_replicate
  gone h := by cases h
  subscriptions n sub hsub := by simp [initial] at hsub
  owner i slot hslot := by
    simp only [initial, Registry.new, getElem?_replicate] at hslot
    split_ifs at hslot
    cases some.inj hslot
  budget := rfl

theorem good_of_reachable {token : ℕ} (hs : (machine token).Reachable s) : s.Good :=
  Machine.invariant_of_step Good (fun u (hu : u = initial token) ↦ hu ▸ initial_good token)
    (fun _ _ _ _ hgood hstep ↦ (act_good hgood hstep).1) hs

/-- The registrations since a cursor and a time: those under way and those of the subscriptions
after the first ones. -/
structure Since (cursor time first : ℕ) (s : State) : Prop where
  received : cursor ≤ s.received.length
  now : time ≤ s.now
  placed : ∀ kind deadline index id after,
    s.holder = .placed kind deadline index id after → cursor ≤ after
  timed : ∀ kind deadline index id after registeredAt,
    s.holder = .timed kind deadline index id after registeredAt →
      cursor ≤ after ∧ time ≤ registeredAt
  subscriptions : ∀ (n : ℕ) (sub : Subscription), first ≤ n → s.subscriptions[n]? = some sub →
    cursor ≤ sub.slot.after ∧ time ≤ sub.slot.registeredAt

/-- What a step does to the history, the clock and a registration under way. -/
structure Proceeds (s t : State) : Prop where
  received : s.received.length ≤ t.received.length
  now : s.now ≤ t.now
  placed : ∀ kind deadline index id after, t.holder = .placed kind deadline index id after →
    s.holder = .placed kind deadline index id after ∨ after = s.received.length
  timed : ∀ kind deadline index id after registeredAt,
    t.holder = .timed kind deadline index id after registeredAt →
      s.holder = .timed kind deadline index id after registeredAt ∨
        s.holder = .placed kind deadline index id after ∧ registeredAt = s.now

/-- A step that leaves the holder of the lock, or has none that registers. -/
theorem Proceeds.of_holder (hreceived : t.received = s.received) (hnow : t.now = s.now)
    (hholder : t.holder = s.holder ∨ (∃ event index, t.holder = .publishing event index) ∨
      (∃ index, t.holder = .revoking index) ∨ t.holder = .free ∨
        ∃ kind deadline index id, t.holder = .admitted kind deadline index id) : Proceeds s t where
  received := Nat.le_of_eq (congrArg List.length hreceived.symm)
  now := Nat.le_of_eq hnow.symm
  placed kind deadline index id after h := by
    rcases hholder with hholder | ⟨_, _, hholder⟩ | ⟨_, hholder⟩ | hholder | ⟨_, _, _, _, hholder⟩
    · exact .inl (hholder ▸ h)
    all_goals
      rw [hholder] at h
      cases h
  timed kind deadline index id after registeredAt h := by
    rcases hholder with hholder | ⟨_, _, hholder⟩ | ⟨_, hholder⟩ | hholder | ⟨_, _, _, _, hholder⟩
    · exact .inl (hholder ▸ h)
    all_goals
      rw [hholder] at h
      cases h

theorem fill_received (s : State) (n : ℕ) (result : Result) (paths : ℕ) :
    (s.fill n result paths).received = s.received ∧ (s.fill n result paths).now = s.now := by
  unfold fill
  split
  · split_ifs <;> exact ⟨rfl, rfl⟩
  · exact ⟨rfl, rfl⟩

theorem projectSlot_received (s : State) (event : ObsEvent) (index : ℕ) :
    (s.projectSlot event index).received = s.received ∧
      (s.projectSlot event index).now = s.now := by
  unfold projectSlot
  split
  · split_ifs
    · exact fill_received _ _ _ _
    · exact ⟨rfl, rfl⟩
  · exact ⟨rfl, rfl⟩

theorem register_proceeds (hregister : s.register = some t) : Proceeds s t := by
  unfold register at hregister
  cases hholder : s.holder <;> simp only [hholder, Option.some.injEq, reduceCtorEq] at hregister
  case admitted kind deadline index id =>
    subst hregister
    refine ⟨Nat.le_refl _, Nat.le_refl _, fun _ _ _ _ after h ↦ .inr ?_, fun _ _ _ _ _ _ h ↦ ?_⟩
    · simp only [Holder.placed.injEq] at h
      exact h.2.2.2.2.symm
    · cases h
  case placed kind deadline index id after =>
    subst hregister
    refine ⟨Nat.le_refl _, Nat.le_refl _, fun _ _ _ _ _ h ↦ ?_, fun _ _ _ _ _ _ h ↦ .inr ?_⟩
    · cases h
    · simp only [Holder.timed.injEq] at h
      obtain ⟨rfl, rfl, rfl, rfl, rfl, rfl⟩ := h
      exact ⟨hholder, rfl⟩
  case timed kind deadline index id after registeredAt =>
    subst hregister
    exact .of_holder rfl rfl (.inr (.inr (.inr (.inl rfl))))

theorem move_proceeds {step : Subscription → Option Subscription} (hmove : s.move n step = some t) :
    Proceeds s t := by
  obtain ⟨later, -, rfl⟩ := map_eq_some_iff.mp hmove
  exact .of_holder rfl rfl (.inl rfl)

theorem unregister_proceeds (hunregister : s.unregister n = some t) : Proceeds s t := by
  obtain ⟨sub, -, hunregister⟩ := Option.bind_eq_some_iff.mp hunregister
  split_ifs at hunregister
  cases hunregister
  exact .of_holder rfl rfl (.inl rfl)

theorem act_proceeds (hact : s.act label = some t) : Proceeds s t := by
  cases label <;> simp only [act] at hact
  case tick elapsed =>
    cases hact
    exact ⟨Nat.le_refl _, Nat.le_add_right _ _, fun _ _ _ _ _ h ↦ .inl h,
      fun _ _ _ _ _ _ h ↦ .inl h⟩
  case receipt eventType data queued =>
    split_ifs at hact
    cases hact
    exact ⟨by simp [receipt], Nat.le_refl _, fun _ _ _ _ _ h ↦ .inl h,
      fun _ _ _ _ _ _ h ↦ .inl h⟩
  case dequeue =>
    split at hact
    · cases hact
      exact .of_holder rfl rfl (.inl rfl)
    · cases hact
  case publish =>
    split at hact
    · rename_i event _
      obtain rfl := some.inj (of_locking hact).2
      unfold publish
      split_ifs
      · exact .of_holder rfl rfl (.inr (.inl ⟨event, 0, rfl⟩))
      · exact .of_holder rfl rfl (.inl rfl)
    · cases hact
  case project =>
    split at hact
    · rename_i event index _
      cases hact
      unfold project
      split_ifs
      · obtain ⟨hreceived, hnow⟩ := projectSlot_received s event index
        exact .of_holder hreceived hnow (.inr (.inl ⟨_, _, rfl⟩))
      · exact .of_holder rfl rfl (.inr (.inr (.inr (.inl rfl))))
    · cases hact
  case resume =>
    split at hact
    · cases hact
      exact .of_holder rfl rfl (.inl rfl)
    · cases hact
  case stop =>
    split at hact
    · cases hact
    · cases hact
      exact .of_holder rfl rfl (.inl rfl)
  case revoke =>
    split_ifs at hact
    obtain rfl := some.inj (of_locking hact).2
    exact .of_holder rfl rfl (.inr (.inr (.inl ⟨0, rfl⟩)))
  case revokeSlot =>
    split at hact
    · cases hact
      unfold revokeSlot
      split
      · obtain ⟨hreceived, hnow⟩ := fill_received s _ _ _
        exact .of_holder hreceived hnow (.inr (.inr (.inl ⟨_, rfl⟩)))
      · exact .of_holder rfl rfl (.inr (.inr (.inl ⟨_, rfl⟩)))
      · exact .of_holder rfl rfl (.inr (.inr (.inr (.inl rfl))))
    · cases hact
  case dropRegistry =>
    split at hact
    · obtain rfl := some.inj (of_locking hact).2
      exact .of_holder rfl rfl (.inl rfl)
    · cases hact
  case subscribe kind deadline =>
    split_ifs at hact
    have hnext := (of_locking hact).2
    unfold subscribe at hnext
    cases hadmission : s.registry.admission s.invalidated with
    | error error =>
      rw [hadmission] at hnext
      cases hnext
    | ok admitted =>
      rw [hadmission] at hnext
      cases hnext
      exact .of_holder rfl rfl (.inr (.inr (.inr (.inr ⟨_, _, _, _, rfl⟩))))
  case register => exact register_proceeds hact
  case unregister n =>
    split_ifs at hact
    · exact unregister_proceeds (of_locking hact).2
    · exact unregister_proceeds hact
  case dropEvent n =>
    obtain ⟨sub, -, hdrop⟩ := Option.bind_eq_some_iff.mp hact
    split_ifs at hdrop
    cases hdrop
    exact .of_holder rfl rfl (.inl rfl)
  case hangUp =>
    cases hact
    exact .of_holder rfl rfl (.inl rfl)
  case terminate =>
    cases hact
    exact .of_holder rfl rfl (.inl rfl)
  all_goals exact move_proceeds hact

theorem Since.step {cursor time first : ℕ} (hsince : s.Since cursor time first)
    (hproceeds : Proceeds s t) (hevolves : s.Evolves t) : t.Since cursor time first where
  received := Nat.le_trans hsince.received hproceeds.received
  now := Nat.le_trans hsince.now hproceeds.now
  placed kind deadline index id after h := by
    rcases hproceeds.placed _ _ _ _ _ h with h | rfl
    · exact hsince.placed _ _ _ _ _ h
    · exact hsince.received
  timed kind deadline index id after registeredAt h := by
    rcases hproceeds.timed _ _ _ _ _ _ h with htimed | ⟨hplaced, rfl⟩
    · exact hsince.timed _ _ _ _ _ _ htimed
    · exact ⟨hsince.placed _ _ _ _ _ hplaced, hsince.now⟩
  subscriptions n later hfirst hlater := by
    cases hsub : s.subscriptions[n]? with
    | none =>
      obtain ⟨-, kind, deadline, index, id, hholder⟩ := hevolves.fresh n later hsub hlater
      exact hsince.timed _ _ _ _ _ _ hholder
    | some sub =>
      obtain ⟨other, hother, hkept, -⟩ := hevolves.kept n sub hsub
      obtain rfl : later = other := some.inj (hlater.symm.trans hother)
      rw [hkept.slot]
      exact hsince.subscriptions n sub hfirst hsub

end State

/-! ### First-terminal confirmation -/

/-- The result of a subscription is the first answer to it, an error, or an expiry. An event is an
answer when it is one of those received since the registration, and an expiry was decided at a
cutoff with no answer before it. -/
structure Subscription.Confirms (s : State) (sub : Subscription) : Prop where
  ok : ∀ output, sub.result = some (.ok output) → FirstAnswer s.received sub.slot output
  expired : sub.result = some (.error .confirmationExpired) →
    ∃ cutoff, sub.cutoff = some cutoff ∧ cutoff.cursor ≤ s.received.length ∧
      sub.slot.confirmationDeadline ≤ cutoff.time ∧
      Unanswered s.received sub.slot cutoff.cursor
  registration : sub.slot.after ≤ s.received.length ∧ sub.slot.registeredAt ≤ s.now

/-- First-terminal confirmation, in every run of the registry. In every reachable state the results
of the subscriptions are confirmed, and the path bytes of the unread cells and of the events that
are not dropped stay in their budget. A cutoff is captured once, as the cursor of a state in which
the confirmation deadline has passed. A result and a ready cell are never overwritten. An event
received before a registration begins does not answer it. -/
theorem first_terminal_confirmation (token : ℕ) :
    (∀ s : State, (machine token).Reachable s →
      (∀ (n : ℕ) (sub : Subscription), s.subscriptions[n]? = some sub → sub.Confirms s) ∧
      (s.subscriptions.map Subscription.bytes).sum ≤ pathBytes) ∧
    (∀ (s t : State) (label : Label), (machine token).Reachable s →
      (machine token).step s label t →
      ∀ (n : ℕ) (later : Subscription) (cutoff : Cutoff), t.subscriptions[n]? = some later →
        later.cutoff = some cutoff → ∃ sub : Subscription, s.subscriptions[n]? = some sub ∧
          (sub.cutoff = some cutoff ∨ sub.cutoff = none ∧ cutoff = ⟨s.received.length, s.now⟩ ∧
            sub.slot.confirmationDeadline ≤ s.now)) ∧
    ∀ (s : State) (run : List (Label × State)), (machine token).Reachable s →
      (machine token).Run s run →
      (∀ (n : ℕ) (sub : Subscription), s.subscriptions[n]? = some sub →
        ∃ later : Subscription, (Machine.last s run).subscriptions[n]? = some later ∧
          sub.Evolves later) ∧
      (s.holder = .free → ∀ (n : ℕ) (sub : Subscription), s.subscriptions.length ≤ n →
        (Machine.last s run).subscriptions[n]? = some sub →
          ∀ event ∈ s.received, ¬ Answers sub.slot event) := by
  refine ⟨fun s hs ↦ ?_, fun s t label hs hstep n later cutoff hlater hcutoff ↦ ?_,
    fun s run hs hrun ↦ ⟨fun n sub hsub ↦ ?_, fun hfree n sub hn hsub event hevent hanswers ↦ ?_⟩⟩
  · have hgood := State.good_of_reachable hs
    refine ⟨fun n sub hsub ↦ ?_, ?_⟩
    · have hold := hgood.subscriptions n sub hsub
      refine ⟨hold.answered, fun hresult ↦ ?_, hold.after, hold.registeredAt⟩
      obtain ⟨cutoff, hcutoff, hunanswered⟩ := hold.expired hresult
      obtain ⟨hcursor, htime⟩ := hold.cutoff cutoff hcutoff
      exact ⟨cutoff, hcutoff, hcursor, htime, hunanswered⟩
    · have hbudget := hgood.budget
      omega
  · obtain ⟨-, hevolves⟩ := State.act_good (State.good_of_reachable hs) hstep
    cases hsub : s.subscriptions[n]? with
    | none =>
      rw [(hevolves.fresh n later hsub hlater).1] at hcutoff
      cases hcutoff
    | some sub =>
      obtain ⟨other, hother, -, hcaptures⟩ := hevolves.kept n sub hsub
      obtain rfl : later = other := some.inj (hlater.symm.trans hother)
      exact ⟨sub, rfl, hcaptures cutoff hcutoff⟩
  · induction hrun generalizing sub with
    | nil s => exact ⟨sub, hsub, .refl sub⟩
    | cons hstep _ ih =>
      obtain ⟨-, hevolves⟩ := State.act_good (State.good_of_reachable hs) hstep
      obtain ⟨middle, hmiddle, hfirst, -⟩ := hevolves.kept n sub hsub
      obtain ⟨later, hlater, hsecond⟩ := ih (hs.step hstep) middle hmiddle
      exact ⟨later, hlater, hfirst.trans hsecond⟩
  · have hgood := State.good_of_reachable hs
    have hsince : s.Since s.received.length s.now s.subscriptions.length := by
      refine ⟨Nat.le_refl _, Nat.le_refl _, by simp [hfree], by simp [hfree],
        fun m other hm hother ↦ ?_⟩
      have := (List.getElem?_eq_some_iff.mp hother).1
      omega
    have hlast : (Machine.last s run).Good ∧
        (Machine.last s run).Since s.received.length s.now s.subscriptions.length := by
      refine Machine.Run.keeps
        (fun u ↦ u.Good ∧ u.Since s.received.length s.now s.subscriptions.length)
        (fun u label v hu hstep ↦ ?_) hrun ⟨hgood, hsince⟩
      obtain ⟨hnext, hevolves⟩ := State.act_good hu.1 hstep
      exact ⟨hnext, hu.2.step (State.act_proceeds hstep) hevolves⟩
    have hafter := (hlast.2.subscriptions n sub hn hsub).1
    have hsequence := hgood.numbered.sequence_le hevent
    have := hanswers.2.1
    omega

end ObsMcp.Outputs
