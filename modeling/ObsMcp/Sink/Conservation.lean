import ObsMcp.Foundations.Indexed
import ObsMcp.Sink.Channels

/-!
# Conservation of credits

`Sound` is the invariant of the channels. Every pool's available permits and the permits that
packets and credits still hold make up its size. A packet that is not dropped holds all its
permits, and a dropped one holds a final part of them, so its lease goes last. Credits with a lease
hold all their permits, and without one a final part, so the slot goes last. A sender with an owner
holds its lease.

Each operation keeps the invariant: `sound_perform`, and `sound_run` for whole runs.
-/

namespace ObsMcp.Sink

open Foundations Host

/-! ### The invariant -/

/-- All permits of a packet, in the order of their release. -/
def Packet.full (packet : Packet) (sender : Sender) : List (Permit Pool) :=
  [⟨sender.global, packet.body⟩, ⟨.bytes packet.sender, packet.body⟩, ⟨.items packet.sender, 1⟩]

/-- All permits of the credits of an exchange, in the order of their release. -/
def StopCredits.full (c : StopClass) (bytes : ℕ) : List (Permit Pool) :=
  [⟨.body c, bytes⟩, ⟨.slot c, 1⟩]

structure Packet.Sound (packet : Packet) (sender : Sender) : Prop where
  suffix : packet.permits <:+ packet.full sender
  live : packet.place ≠ .dropping → packet.permits = packet.full sender
  lease : packet.stop = sender.stop ∨
    packet.permits = [] ∧ packet.stop = none ∧ packet.place = .dropping

structure Sender.Sound (sender : Sender) (credits : List StopCredits) (owned : Bool) : Prop where
  pool : sender.stop = none ∧ sender.global = .ordinary ∨
    ∃ (lease : ℕ) (found : StopCredits), sender.stop = some lease ∧
      credits[lease]? = some found ∧ sender.global = .output found.stopClass
  holding : owned = true → sender.holding = true

def StopCredits.Sound (credits : StopCredits) (referenced : Bool) : Prop :=
  ∃ bytes, credits.permits <:+ full credits.stopClass bytes ∧
    (referenced = true → credits.permits = full credits.stopClass bytes)

namespace State

variable {state : State}

/-- The permits of a pool that packets and credits have not released. -/
def held (state : State) (pool : Pool) : ℕ :=
  (state.packets.map (fun packet ↦ charge packet.permits pool)).sum +
    (state.credits.map (fun credits ↦ charge credits.permits pool)).sum

/-- What holds after every sequence of operations. -/
structure Sound (state : State) : Prop where
  conserved : ∀ pool, state.available pool + state.held pool = state.capacity pool
  packet : ∀ packet ∈ state.packets, ∃ sender,
    state.senders[packet.sender]? = some sender ∧ packet.Sound sender
  sender : ∀ (index : ℕ) (sender : Sender), state.senders[index]? = some sender →
    sender.Sound state.credits (state.owned index)
  credits : ∀ (lease : ℕ) (credits : StopCredits), state.credits[lease]? = some credits →
    credits.Sound (state.referenced lease)

theorem sound_new : new.Sound where
  conserved pool := by cases pool <;> rfl
  packet := by simp [new]
  sender := by simp [new]
  credits := by simp [new]

/-! ### Owners and references -/

variable {index : ℕ} {f : Sender → Sender} {available : Pool → ℕ}

theorem owned_iff : state.owned index = true ↔
    (∃ sender, state.senders[index]? = some sender ∧ 0 < sender.handles) ∨
      ∃ packet ∈ state.packets, packet.sender = index ∧ packet.place = .reserved := by
  simp [owned, Option.any_eq_true]

variable {i lease : ℕ} {permits : List (Permit Pool)}

theorem referenced_iff : state.referenced lease = true ↔
    (∃ credits, state.credits[lease]? = some credits ∧ 0 < credits.handles) ∨
      (∃ sender ∈ state.senders, sender.holding = true ∧ sender.stop = some lease) ∨
      ∃ packet ∈ state.packets, packet.stop = some lease := by
  simp [referenced, Option.any_eq_true, or_assoc]

/-! ### Changes of a sender -/

section

variable (state : State) (index : ℕ) (f : Sender → Sender)

theorem senders_updateSender (i : ℕ) :
    (state.updateSender index f).senders[i]? =
      if i = index then (state.senders[i]?).map f else state.senders[i]? := by
  unfold updateSender
  split
  · rename_i hnone
    split_ifs with hi
    · rw [hi, hnone, Option.map_none]
    · rfl
  · rename_i sender hfound
    exact getElem?_set_map hfound i

@[simp] theorem packets_updateSender : (state.updateSender index f).packets = state.packets := by
  unfold updateSender
  split <;> rfl

@[simp] theorem credits_updateSender : (state.updateSender index f).credits = state.credits := by
  unfold updateSender
  split <;> rfl

@[simp] theorem available_updateSender :
    (state.updateSender index f).available = state.available := by
  unfold updateSender
  split <;> rfl

end

/-- A change that keeps the pools and the lease of a sender, and does not restore its hold on the
lease. -/
structure Keeps (sender after : Sender) : Prop where
  global : after.global = sender.global
  max : after.max = sender.max
  limit : after.limit = sender.limit
  stop : after.stop = sender.stop
  holding : after.holding = true → sender.holding = true

/-- A kept sender keeps the invariant. Assumes: the sender holds its lease afterwards if it then has
an owner. -/
theorem Sound.updateSender (hsound : state.Sound)
    (hkeeps : ∀ sender, state.senders[index]? = some sender → Keeps sender (f sender))
    (howned : ∀ sender, state.senders[index]? = some sender →
      (state.updateSender index f).owned index = true → (f sender).holding = true) :
    (state.updateSender index f).Sound := by
  have hget := senders_updateSender state index f
  have hkept : ∀ (i : ℕ) (after : Sender), (state.updateSender index f).senders[i]? = some after →
      ∃ sender, state.senders[i]? = some sender ∧ Keeps sender after := by
    intro i after hafter
    rw [hget] at hafter
    split_ifs at hafter with hi
    · obtain ⟨sender, hsender, rfl⟩ := Option.map_eq_some_iff.mp hafter
      exact ⟨sender, hsender, hkeeps sender (hi ▸ hsender)⟩
    · exact ⟨after, hafter, rfl, rfl, rfl, rfl, id⟩
  have hforward : ∀ (i : ℕ) (sender : Sender), state.senders[i]? = some sender →
      ∃ after, (state.updateSender index f).senders[i]? = some after ∧ Keeps sender after := by
    intro i sender hsender
    rw [hget]
    split_ifs with hi
    · exact ⟨f sender, by rw [hsender]; rfl, hkeeps sender (hi ▸ hsender)⟩
    · exact ⟨sender, hsender, rfl, rfl, rfl, rfl, id⟩
  refine ⟨?_, ?_, ?_, ?_⟩
  · intro pool
    have hcapacity : (state.updateSender index f).capacity pool = state.capacity pool := by
      have hsize : ∀ (size : Sender → ℕ) (i : ℕ), (∀ sender after, Keeps sender after →
          size after = size sender) → ((state.updateSender index f).senders[i]?).elim 0 size =
            (state.senders[i]?).elim 0 size := by
        intro size i hsize
        rcases Option.eq_none_or_eq_some state.senders[i]? with hnone | ⟨sender, hsender⟩
        · rw [hget, hnone]
          split_ifs <;> rfl
        · obtain ⟨after, hafter, hkeep⟩ := hforward i sender hsender
          rw [hsender, hafter]
          exact hsize sender after hkeep
      cases pool with
      | bytes i => exact hsize Sender.max i fun _ _ hkeep ↦ hkeep.max
      | items i => exact hsize Sender.limit i fun _ _ hkeep ↦ hkeep.limit
      | _ => rfl
    rw [hcapacity, ← hsound.conserved pool]
    simp only [held, packets_updateSender, credits_updateSender, available_updateSender]
  · intro packet hpacket
    rw [packets_updateSender] at hpacket
    obtain ⟨sender, hsender, hvalid⟩ := hsound.packet packet hpacket
    obtain ⟨after, hafter, hkeep⟩ := hforward packet.sender sender hsender
    refine ⟨after, hafter, ?_, ?_, ?_⟩
    · simpa only [Packet.full, hkeep.global] using hvalid.suffix
    · simpa only [Packet.full, hkeep.global] using hvalid.live
    · simpa only [hkeep.stop] using hvalid.lease
  · intro i after hafter
    obtain ⟨sender, hsender, hkeep⟩ := hkept i after hafter
    refine ⟨?_, fun howner ↦ ?_⟩
    · simpa only [hkeep.stop, hkeep.global, credits_updateSender] using
        (hsound.sender i sender hsender).pool
    · by_cases hi : i = index
      · subst hi
        rw [hget, if_pos rfl, hsender] at hafter
        cases hafter
        exact howned sender hsender howner
      · rw [hget, if_neg hi, hsender] at hafter
        rw [← Option.some.inj hafter]
        refine (hsound.sender i sender hsender).holding ?_
        rw [owned_iff] at howner ⊢
        rw [hget, if_neg hi, packets_updateSender] at howner
        exact howner
  · intro lease credits hcredits
    rw [credits_updateSender] at hcredits
    obtain ⟨bytes, hsuffix, hfull⟩ := hsound.credits lease credits hcredits
    refine ⟨bytes, hsuffix, fun hreferenced ↦ hfull ?_⟩
    rw [referenced_iff] at hreferenced ⊢
    rw [credits_updateSender, packets_updateSender] at hreferenced
    refine hreferenced.imp_right (Or.imp_left ?_)
    rintro ⟨after, hafter, hholding, hstop⟩
    obtain ⟨i, hi⟩ := List.mem_iff_getElem?.mp hafter
    obtain ⟨sender, hsender, hkeep⟩ := hkept i after hi
    exact ⟨sender, List.mem_iff_getElem?.mpr ⟨i, hsender⟩, hkeep.holding hholding,
      hkeep.stop.symm.trans hstop⟩

/-- A change of flags and queue, or of the number of handles by the holder of one. -/
structure Adjusts (sender after : Sender) : Prop extends Keeps sender after where
  holds : after.holding = sender.holding
  handles : 0 < after.handles → 0 < sender.handles

theorem Sound.adjustSender (hsound : state.Sound) (hadjusts : ∀ sender, Adjusts sender (f sender)) :
    (state.updateSender index f).Sound := by
  refine hsound.updateSender (fun sender _ ↦ (hadjusts sender).toKeeps)
    fun sender hsender howned ↦ ?_
  rw [(hadjusts sender).holds]
  refine (hsound.sender index sender hsender).holding ?_
  rw [owned_iff] at howned ⊢
  rw [packets_updateSender, senders_updateSender, if_pos rfl, hsender] at howned
  refine howned.imp_left ?_
  rintro ⟨after, hafter, hhandles⟩
  cases hafter
  exact ⟨sender, hsender, (hadjusts sender).handles hhandles⟩

theorem adjusts_of_handle
    (hkeeps : ∀ sender, Keeps sender (f sender) ∧ (f sender).holding = sender.holding)
    (sender : Sender) : Adjusts sender (if sender.handles = 0 then sender else f sender) := by
  split_ifs with hhandles
  · exact ⟨⟨rfl, rfl, rfl, rfl, id⟩, rfl, id⟩
  · obtain ⟨hkeep, hholds⟩ := hkeeps sender
    exact ⟨hkeep, hholds, fun _ ↦ Nat.pos_of_ne_zero hhandles⟩

theorem Sound.useSender (hsound : state.Sound)
    (hkeeps : ∀ sender, Keeps sender (f sender) ∧ (f sender).holding = sender.holding) :
    (state.useSender index f).Sound :=
  hsound.adjustSender (adjusts_of_handle hkeeps)

theorem Sound.releaseSender (hsound : state.Sound) (index : ℕ) :
    (state.releaseSender index).Sound := by
  unfold State.releaseSender
  split_ifs with howned
  · exact hsound
  · refine hsound.updateSender (fun _ _ ↦ ⟨rfl, rfl, rfl, rfl, fun h ↦ nomatch h⟩)
      fun sender hsender hafter ↦ absurd ?_ howned
    rw [owned_iff] at hafter ⊢
    rw [packets_updateSender, senders_updateSender, if_pos rfl, hsender] at hafter
    refine hafter.imp_left ?_
    rintro ⟨after, hafter, hhandles⟩
    cases hafter
    exact ⟨sender, hsender, hhandles⟩

/-! ### Changes of packets -/

/-- Moving packets keeps the invariant. Assumes: no packet comes into a reservation or back from
being dropped. -/
theorem Sound.move {place : ℕ → Packet → Place} (hsound : state.Sound)
    (hreserved : ∀ i packet, state.packets[i]? = some packet → place i packet = .reserved →
      packet.place = .reserved)
    (hdropping : ∀ i packet, state.packets[i]? = some packet → packet.place = .dropping →
      place i packet = .dropping) : (state.move place).Sound := by
  have hmem : ∀ after ∈ (state.move place).packets, ∃ (i : ℕ) (packet : Packet),
      state.packets[i]? = some packet ∧ after = { packet with place := place i packet } := by
    intro after hafter
    obtain ⟨i, hi⟩ := List.mem_iff_getElem?.mp hafter
    have hi : (state.packets.mapIdx (fun i packet ↦
        { packet with place := place i packet }))[i]? = some after := hi
    rw [List.getElem?_mapIdx] at hi
    obtain ⟨packet, hpacket, rfl⟩ := Option.map_eq_some_iff.mp hi
    exact ⟨i, packet, hpacket, rfl⟩
  refine ⟨?_, ?_, ?_, ?_⟩
  · intro pool
    have hpackets : (state.move place).packets.map (fun packet ↦ charge packet.permits pool) =
        state.packets.map (fun packet ↦ charge packet.permits pool) := by
      refine List.ext_getElem? fun i ↦ ?_
      simp only [State.move, List.getElem?_map, List.getElem?_mapIdx, Option.map_map]
      rfl
    have hheld : (state.move place).held pool = state.held pool := by
      show List.sum (List.map _ (state.move place).packets) + _ = _
      rw [hpackets]
      rfl
    rw [hheld]
    exact hsound.conserved pool
  · intro after hafter
    obtain ⟨i, packet, hpacket, rfl⟩ := hmem after hafter
    obtain ⟨sender, hsender, hvalid⟩ :=
      hsound.packet packet (List.mem_iff_getElem?.mpr ⟨i, hpacket⟩)
    refine ⟨sender, hsender, hvalid.suffix, fun hplace ↦ ?_, ?_⟩
    · exact hvalid.live fun hold ↦ hplace (hdropping i packet hpacket hold)
    · exact hvalid.lease.imp_right fun hended ↦
        ⟨hended.1, hended.2.1, hdropping i packet hpacket hended.2.2⟩
  · intro index sender hsender
    refine ⟨(hsound.sender index sender hsender).pool, fun howned ↦ ?_⟩
    refine (hsound.sender index sender hsender).holding ?_
    rw [owned_iff] at howned ⊢
    refine howned.imp_right ?_
    rintro ⟨after, hafter, hindex, hplace⟩
    obtain ⟨i, packet, hpacket, rfl⟩ := hmem after hafter
    exact ⟨packet, List.mem_iff_getElem?.mpr ⟨i, hpacket⟩, hindex,
      hreserved i packet hpacket hplace⟩
  · intro lease credits hcredits
    obtain ⟨bytes, hsuffix, hfull⟩ := hsound.credits lease credits hcredits
    refine ⟨bytes, hsuffix, fun hreferenced ↦ hfull ?_⟩
    rw [referenced_iff] at hreferenced ⊢
    refine hreferenced.imp_right (Or.imp_right ?_)
    rintro ⟨after, hafter, hstop⟩
    obtain ⟨i, packet, hpacket, rfl⟩ := hmem after hafter
    exact ⟨packet, List.mem_iff_getElem?.mpr ⟨i, hpacket⟩, hstop⟩

/-- A packet is dropped or handed on. Assumes: a dropped packet stays dropped. -/
theorem Sound.moveOne {place : Place} (hsound : state.Sound) (hplace : place ≠ .reserved)
    (hdropping : ∀ packet, state.packets[i]? = some packet → packet.place = .dropping →
      place = .dropping) : (state.moveOne i place).Sound := by
  refine hsound.move (fun j packet _ hreserved ↦ ?_) fun j packet hpacket hold ↦ ?_
  · split_ifs at hreserved
    · exact absurd hreserved hplace
    · exact hreserved
  · split_ifs with hj
    · exact hdropping packet (hj ▸ hpacket) hold
    · exact hold

/-- A dropped packet releases a field. Assumes: what it gives back becomes available. -/
theorem Sound.setPacket {packet after : Packet} (hsound : state.Sound)
    (hpacket : state.packets[i]? = some packet) (hindex : after.sender = packet.sender)
    (hplace : after.place = .dropping) (hstop : after.stop = none ∨ after.stop = packet.stop)
    (hafter : ∀ sender, packet.Sound sender → after.Sound sender)
    (havailable : ∀ pool, available pool + charge after.permits pool =
      state.available pool + charge packet.permits pool) :
    ({ state with
        available := available
        packets := state.packets.set i after } : State).Sound := by
  have hmem : packet ∈ state.packets := List.mem_iff_getElem?.mpr ⟨i, hpacket⟩
  refine ⟨?_, ?_, ?_, ?_⟩
  · intro pool
    have hsum := sum_set (fun packet : Packet ↦ charge packet.permits pool) after hpacket
    have hconserved := hsound.conserved pool
    have hbalance := havailable pool
    show available pool +
        (((state.packets.set i after).map (fun packet ↦ charge packet.permits pool)).sum +
          (state.credits.map (fun credits ↦ charge credits.permits pool)).sum) =
      state.capacity pool
    simp only [held] at hconserved
    omega
  · intro found hfound
    rcases List.mem_or_eq_of_mem_set hfound with hold | rfl
    · exact hsound.packet found hold
    · obtain ⟨sender, hsender, hvalid⟩ := hsound.packet packet hmem
      exact ⟨sender, hindex ▸ hsender, hafter sender hvalid⟩
  · intro index sender hsender
    refine ⟨(hsound.sender index sender hsender).pool, fun howned ↦ ?_⟩
    refine (hsound.sender index sender hsender).holding ?_
    rw [owned_iff] at howned ⊢
    refine howned.imp_right ?_
    rintro ⟨found, hfound, hfrom, hreserved⟩
    rcases List.mem_or_eq_of_mem_set hfound with hold | rfl
    · exact ⟨found, hold, hfrom, hreserved⟩
    · rw [hplace] at hreserved
      cases hreserved
  · intro lease credits hcredits
    obtain ⟨bytes, hsuffix, hfull⟩ := hsound.credits lease credits hcredits
    refine ⟨bytes, hsuffix, fun hreferenced ↦ hfull ?_⟩
    rw [referenced_iff] at hreferenced ⊢
    refine hreferenced.imp_right (Or.imp_right ?_)
    rintro ⟨found, hfound, hlease⟩
    rcases List.mem_or_eq_of_mem_set hfound with hold | rfl
    · exact ⟨found, hold, hlease⟩
    · rcases hstop with hnone | hsame
      · rw [hnone] at hlease
        cases hlease
      · exact ⟨packet, hmem, hsame ▸ hlease⟩

theorem Sound.releasePacket (hsound : state.Sound) (i : ℕ) : (state.releasePacket i).Sound := by
  unfold State.releasePacket
  split
  · exact hsound
  rename_i packet hpacket
  split_ifs with hplace
  · exact hsound
  rw [not_not] at hplace
  split
  · rename_i hpermits
    refine hsound.setPacket hpacket rfl hplace (Or.inl rfl) (fun sender hvalid ↦ ?_) fun _ ↦ rfl
    exact ⟨hvalid.suffix, fun hlive ↦ absurd hplace hlive, Or.inr ⟨hpermits, rfl, hplace⟩⟩
  · rename_i permit permits hpermits
    refine hsound.setPacket hpacket rfl hplace (Or.inr rfl) (fun sender hvalid ↦ ?_) fun pool ↦ ?_
    · refine ⟨?_, fun hlive ↦ absurd hplace hlive, ?_⟩
      · have hsuffix := hvalid.suffix
        rw [hpermits] at hsuffix
        exact (List.suffix_cons permit permits).trans hsuffix
      · refine hvalid.lease.imp_right fun ⟨hempty, _⟩ ↦ ?_
        rw [hpermits] at hempty
        cases hempty
    · rw [release_apply, hpermits]
      simp only [charge_cons, charge_nil]
      omega

/-! ### New packets -/

/-- The credits of a packet: all its permits, or nothing taken. -/
theorem credits_spec (sender : Sender) (index : ℕ) (available : Pool → ℕ) (bytes : ℕ) :
    (∃ failure, sender.credits index available bytes = (.error failure, available)) ∨
      ∃ taken, sender.credits index available bytes =
          (.ok [⟨sender.global, bytes⟩, ⟨.bytes index, bytes⟩, ⟨.items index, 1⟩], taken) ∧
        ∀ pool, taken pool + charge [⟨sender.global, bytes⟩, ⟨.bytes index, bytes⟩,
          ⟨.items index, 1⟩] pool = available pool := by
  unfold Sender.credits
  split_ifs
  · exact Or.inl ⟨_, rfl⟩
  · exact Or.inl ⟨_, rfl⟩
  · exact Or.inl ⟨_, rfl⟩
  cases hshared : tryAcquire available sender.global bytes with
  | none => exact Or.inl ⟨_, rfl⟩
  | some shared =>
    simp only
    cases hbounded : tryAcquire shared (.bytes index) bytes with
    | none => exact Or.inl ⟨.capacity, by simp only [release_of_tryAcquire hshared]⟩
    | some bounded =>
      simp only
      cases htaken : tryAcquire bounded (.items index) 1 with
      | none =>
        refine Or.inl ⟨.capacity, ?_⟩
        simp only [release_of_tryAcquire hbounded, release_of_tryAcquire hshared]
      | some taken =>
        refine Or.inr ⟨taken, rfl, fun pool ↦ ?_⟩
        have hfirst := add_charge_of_tryAcquire hshared pool
        have hsecond := add_charge_of_tryAcquire hbounded pool
        have hthird := add_charge_of_tryAcquire htaken pool
        simp only [charge_cons, charge_nil] at hfirst hsecond hthird ⊢
        omega

/-- A new packet of an owned sender. Assumes: its permits were taken from what was available. -/
theorem Sound.addPacket {body : ℕ} {sender : Sender} (hsound : state.Sound)
    (hsender : state.senders[index]? = some sender) (hhandles : 0 < sender.handles)
    (hpermits : permits = [⟨sender.global, body⟩, ⟨.bytes index, body⟩, ⟨.items index, 1⟩])
    (havailable : ∀ pool, available pool + charge permits pool = state.available pool) :
    (state.addPacket index sender available body permits).Sound := by
  have hholding : sender.holding = true :=
    (hsound.sender index sender hsender).holding
      (owned_iff.mpr (Or.inl ⟨sender, hsender, hhandles⟩))
  refine ⟨?_, ?_, ?_, ?_⟩
  · intro pool
    have hconserved := hsound.conserved pool
    have hbalance := havailable pool
    simp only [held] at hconserved
    simp only [held, State.addPacket, List.map_append, List.sum_append, List.map_singleton,
      List.sum_singleton]
    show _ = state.capacity pool
    omega
  · intro found hfound
    rcases List.mem_append.mp hfound with hold | hnew
    · exact hsound.packet found hold
    · rw [List.mem_singleton] at hnew
      subst hnew
      refine ⟨sender, hsender, ?_, fun _ ↦ hpermits, Or.inl rfl⟩
      rw [hpermits]
      exact List.suffix_refl _
  · intro other found hfound
    refine ⟨(hsound.sender other found hfound).pool, fun howned ↦ ?_⟩
    by_cases hother : other = index
    · subst hother
      rw [show found = sender from Option.some.inj (hfound.symm.trans hsender)]
      exact hholding
    · refine (hsound.sender other found hfound).holding ?_
      rw [owned_iff] at howned ⊢
      refine howned.imp_right ?_
      rintro ⟨packet, hpacket, hfrom, hreserved⟩
      rcases List.mem_append.mp hpacket with hold | hnew
      · exact ⟨packet, hold, hfrom, hreserved⟩
      · rw [List.mem_singleton] at hnew
        subst hnew
        exact absurd hfrom.symm hother
  · intro lease credits hcredits
    obtain ⟨bytes, hsuffix, hfull⟩ := hsound.credits lease credits hcredits
    refine ⟨bytes, hsuffix, fun hreferenced ↦ hfull ?_⟩
    rw [referenced_iff] at hreferenced ⊢
    rcases hreferenced with hcaller | hholder | ⟨packet, hpacket, hlease⟩
    · exact Or.inl hcaller
    · exact Or.inr (Or.inl hholder)
    · rcases List.mem_append.mp hpacket with hold | hnew
      · exact Or.inr (Or.inr ⟨packet, hold, hlease⟩)
      · rw [List.mem_singleton] at hnew
        subst hnew
        exact Or.inr (Or.inl ⟨sender, List.mem_iff_getElem?.mpr ⟨index, hsender⟩, hholding, hlease⟩)

/-! ### Leases -/

/-- Credits lose a field or a lease. Assumes: the fields that are left are a final part of the
fields before, they are all there if somebody still refers to the credits, and what is given back
becomes available. -/
theorem Sound.setCredits {credits after : StopCredits} (hsound : state.Sound)
    (hcredits : state.credits[lease]? = some credits) (hclass : after.stopClass = credits.stopClass)
    (hsuffix : after.permits <:+ credits.permits)
    (hkept : after.permits = credits.permits ∧ 0 < credits.handles ∨
      after.handles = credits.handles ∧ state.referenced lease = false)
    (havailable : ∀ pool, available pool + charge after.permits pool =
      state.available pool + charge credits.permits pool) :
    ({ state with
        available := available
        credits := state.credits.set lease after } : State).Sound := by
  have hget : ∀ i : ℕ, (state.credits.set lease after)[i]? =
      if lease = i then some after else state.credits[i]? := by
    intro i
    have hlt : lease < state.credits.length := (List.getElem?_eq_some_iff.mp hcredits).1
    rw [List.getElem?_set]
    split_ifs with hi
    · rfl
    · rfl
  refine ⟨?_, hsound.packet, ?_, ?_⟩
  · intro pool
    have hsum := sum_set (fun credits : StopCredits ↦ charge credits.permits pool) after hcredits
    have hconserved := hsound.conserved pool
    have hbalance := havailable pool
    show available pool +
        ((state.packets.map (fun packet ↦ charge packet.permits pool)).sum +
          ((state.credits.set lease after).map (fun credits ↦ charge credits.permits pool)).sum) =
      state.capacity pool
    simp only [held] at hconserved
    omega
  · intro index sender hsender
    obtain ⟨hpool, hholding⟩ := hsound.sender index sender hsender
    refine ⟨hpool.imp_right ?_, hholding⟩
    rintro ⟨other, found, hstop, hfound, hglobal⟩
    show ∃ (other : ℕ) (found : StopCredits), sender.stop = some other ∧
      (state.credits.set lease after)[other]? = some found ∧ _
    by_cases hother : lease = other
    · subst hother
      refine ⟨lease, after, hstop, by rw [hget, if_pos rfl], ?_⟩
      rw [hglobal, hclass, Option.some.inj (hcredits.symm.trans hfound)]
    · exact ⟨other, found, hstop, by rw [hget, if_neg hother]; exact hfound, hglobal⟩
  · intro other found hfound
    have hcase := (hget other).symm.trans hfound
    split_ifs at hcase with hother
    · subst hother
      obtain ⟨bytes, hold, hfull⟩ := hsound.credits lease credits hcredits
      obtain rfl : after = found := Option.some.inj hcase
      refine ⟨bytes, hclass ▸ hsuffix.trans hold, fun hreferenced ↦ ?_⟩
      rcases hkept with ⟨hsame, hhandles⟩ | ⟨hhandles, hunreferenced⟩
      · rw [hsame, hclass]
        exact hfull (referenced_iff.mpr (Or.inl ⟨credits, hcredits, hhandles⟩))
      · refine absurd ?_ (Bool.eq_false_iff.mp hunreferenced)
        rw [referenced_iff] at hreferenced ⊢
        refine hreferenced.imp_left ?_
        rintro ⟨found, hfound, hpositive⟩
        have hsame := (hget lease).symm.trans hfound
        rw [if_pos rfl] at hsame
        rw [← Option.some.inj hsame, hhandles] at hpositive
        exact ⟨credits, hcredits, hpositive⟩
    · obtain ⟨bytes, hold, hfull⟩ := hsound.credits other found hcase
      refine ⟨bytes, hold, fun hreferenced ↦ hfull ?_⟩
      rw [referenced_iff] at hreferenced ⊢
      refine hreferenced.imp_left ?_
      rintro ⟨found, hfound, hpositive⟩
      have hsame := (hget other).symm.trans hfound
      rw [if_neg hother] at hsame
      exact ⟨found, hsame, hpositive⟩

theorem Sound.setHandles (hsound : state.Sound) (lease : ℕ) (f : ℕ → ℕ) :
    (state.setHandles lease f).Sound := by
  unfold State.setHandles
  split
  · exact hsound
  rename_i credits hcredits
  split_ifs with hhandles
  · exact hsound
  · exact hsound.setCredits hcredits rfl (List.suffix_refl _)
      (Or.inl ⟨rfl, Nat.pos_of_ne_zero hhandles⟩) fun _ ↦ rfl

theorem Sound.releaseCredits (hsound : state.Sound) (lease : ℕ) :
    (state.releaseCredits lease).Sound := by
  unfold State.releaseCredits
  split
  · exact hsound
  rename_i credits hcredits
  split_ifs with hreferenced
  · exact hsound
  split
  · exact hsound
  · rename_i permit permits hpermits
    refine hsound.setCredits hcredits rfl ?_ (Or.inr ⟨rfl, by simpa using hreferenced⟩)
      fun pool ↦ ?_
    · rw [hpermits]
      exact List.suffix_cons permit permits
    · rw [release_apply, hpermits]
      simp only [charge_cons, charge_nil]
      omega

/-- New credits of a stop class, or nothing taken. -/
theorem reservePool_spec (state : State) (c : StopClass) (bytes : ℕ) :
    (∃ failure, state.reservePool c bytes = (.error failure, state)) ∨
      ∃ available, state.reservePool c bytes = (.ok (some state.credits.length), { state with
          available := available
          credits := state.credits ++
            [{ stopClass := c, permits := StopCredits.full c bytes, handles := 1 }] }) ∧
        ∀ pool, available pool + charge (StopCredits.full c bytes) pool =
          state.available pool := by
  unfold State.reservePool
  split_ifs
  · exact Or.inl ⟨_, rfl⟩
  cases hslotted : tryAcquire state.available (.slot c) 1 with
  | none => exact Or.inl ⟨_, rfl⟩
  | some slotted =>
    simp only
    cases htaken : tryAcquire slotted (.body c) bytes with
    | none => exact Or.inl ⟨.capacity, by simp only [release_of_tryAcquire hslotted]⟩
    | some taken =>
      refine Or.inr ⟨taken, rfl, fun pool ↦ ?_⟩
      have hfirst := add_charge_of_tryAcquire hslotted pool
      have hsecond := add_charge_of_tryAcquire htaken pool
      simp only [StopCredits.full, charge_cons, charge_nil] at hfirst hsecond ⊢
      omega

section

variable (hsound : state.Sound)
include hsound

theorem Sound.reservePool (c : StopClass) (bytes : ℕ) : (state.reservePool c bytes).2.Sound := by
  rcases reservePool_spec state c bytes with ⟨failure, hfailed⟩ | ⟨available, hok, havailable⟩
  · rw [hfailed]
    exact hsound
  rw [hok]
  have hold : ∀ (lease : ℕ) (found : StopCredits), state.credits[lease]? = some found →
      (state.credits ++ [⟨c, StopCredits.full c bytes, 1⟩])[lease]? = some found := by
    intro lease found hfound
    exact getElem?_append_of_some hfound
  refine ⟨?_, hsound.packet, ?_, ?_⟩
  · intro pool
    have hconserved := hsound.conserved pool
    have hbalance := havailable pool
    simp only [held] at hconserved
    simp only [held, List.map_append, List.sum_append, List.map_singleton, List.sum_singleton]
    show _ = state.capacity pool
    omega
  · intro index sender hsender
    obtain ⟨hpool, hholding⟩ := hsound.sender index sender hsender
    refine ⟨hpool.imp_right ?_, hholding⟩
    rintro ⟨lease, found, hstop, hfound, hglobal⟩
    exact ⟨lease, found, hstop, hold lease found hfound, hglobal⟩
  · intro lease found hfound
    have hfound : (state.credits ++ [⟨c, StopCredits.full c bytes, 1⟩])[lease]? = some found :=
      hfound
    rcases getElem?_concat_cases hfound with hcredits | ⟨-, rfl⟩
    · obtain ⟨bytes, hsuffix, hfull⟩ := hsound.credits lease found hcredits
      refine ⟨bytes, hsuffix, fun hreferenced ↦ hfull ?_⟩
      rw [referenced_iff] at hreferenced ⊢
      refine hreferenced.imp_left ?_
      rintro ⟨credits, hfound, hpositive⟩
      have hsame := (hold lease found hcredits).symm.trans hfound
      exact ⟨found, hcredits, Option.some.inj hsame ▸ hpositive⟩
    · exact ⟨bytes, List.suffix_refl _, fun _ ↦ rfl⟩

/-! ### New channels -/

/-- A new channel with the pools of its kind. Assumes: the shared pool is the one of its lease, and
somebody holds that lease. -/
theorem Sound.openChannel {global : Pool} {max limit : ℕ} {stop : Option ℕ}
    (hpool : stop = none ∧ global = .ordinary ∨ ∃ (lease : ℕ) (found : StopCredits),
      stop = some lease ∧ state.credits[lease]? = some found ∧ global = .output found.stopClass)
    (hlease : ∀ lease, stop = some lease → state.referenced lease = true) :
    (state.openChannel global max limit stop).Sound := by
  have hget : ∀ (i : ℕ) (found : Sender),
      (state.openChannel global max limit stop).senders[i]? = some found →
        state.senders[i]? = some found ∨ i = state.senders.length ∧ found.global = global ∧
          found.stop = stop ∧ found.holding = true := by
    intro i found hfound
    have hfound : (state.senders ++ [_])[i]? = some found := hfound
    rcases getElem?_concat_cases hfound with hsender | ⟨hi, rfl⟩
    · exact Or.inl hsender
    · exact Or.inr ⟨hi, rfl, rfl, rfl⟩
  have hold : ∀ (i : ℕ) (sender : Sender), state.senders[i]? = some sender →
      (state.openChannel global max limit stop).senders[i]? = some sender := by
    intro i sender hsender
    show (state.senders ++ [_])[i]? = some sender
    exact getElem?_append_of_some hsender
  refine ⟨?_, ?_, ?_, ?_⟩
  · intro pool
    have hconserved := hsound.conserved pool
    show Function.update (Function.update state.available (.bytes state.senders.length) max)
      (.items state.senders.length) limit pool + state.held pool = _
    have hsize : ∀ (size : Sender → ℕ) (i : ℕ), i ≠ state.senders.length →
        ((state.openChannel global max limit stop).senders[i]?).elim 0 size =
          (state.senders[i]?).elim 0 size := by
      intro size i hi
      rcases Option.eq_none_or_eq_some state.senders[i]? with hnone | ⟨sender, hsender⟩
      · have hnone' : (state.openChannel global max limit stop).senders[i]? = none := by
          refine Option.eq_none_iff_forall_ne_some.mpr fun found hfound ↦ ?_
          rcases hget i found hfound with hsome | ⟨hlast, -⟩
          · rw [hnone] at hsome
            cases hsome
          · exact hi hlast
        rw [hnone, hnone']
      · rw [hold i sender hsender, hsender]
    have hnew : (state.openChannel global max limit stop).senders[state.senders.length]? = some
        { global := global, max := max, limit := limit, failure := none, departed := false,
          closed := false, stop := stop, holding := true, handles := 1, receiver := true,
          queue := [] } := List.getElem?_concat_length
    have hempty : state.senders[state.senders.length]? = none :=
      List.getElem?_eq_none_iff.mpr (Nat.le_refl _)
    cases pool with
    | bytes i =>
      rw [Function.update_of_ne (by simp)]
      by_cases hi : i = state.senders.length
      · subst hi
        simp only [State.capacity, hempty, Option.elim_none] at hconserved
        simp only [State.capacity, hnew, Option.elim_some, Function.update_self]
        omega
      · rw [Function.update_of_ne (by simpa using hi)]
        simp only [State.capacity, hsize Sender.max i hi]
        exact hconserved
    | items i =>
      by_cases hi : i = state.senders.length
      · subst hi
        simp only [State.capacity, hempty, Option.elim_none] at hconserved
        simp only [State.capacity, hnew, Option.elim_some, Function.update_self]
        omega
      · rw [Function.update_of_ne (by simpa using hi), Function.update_of_ne (by simp)]
        simp only [State.capacity, hsize Sender.limit i hi]
        exact hconserved
    | _ =>
      rw [Function.update_of_ne (by simp), Function.update_of_ne (by simp)]
      exact hconserved
  · intro packet hpacket
    obtain ⟨sender, hsender, hvalid⟩ := hsound.packet packet hpacket
    exact ⟨sender, hold packet.sender sender hsender, hvalid⟩
  · intro i found hfound
    rcases hget i found hfound with hsender | ⟨-, hglobal, hstop, hholding⟩
    · obtain ⟨hold', hholding⟩ := hsound.sender i found hsender
      refine ⟨hold', fun howned ↦ hholding ?_⟩
      rw [owned_iff] at howned ⊢
      refine howned.imp_left ?_
      rintro ⟨sender, hsender', hhandles⟩
      have hsame := Option.some.inj (hfound.symm.trans hsender')
      exact ⟨found, hsender, hsame ▸ hhandles⟩
    · exact ⟨by rw [hglobal, hstop]; exact hpool, fun _ ↦ hholding⟩
  · intro lease credits hcredits
    obtain ⟨bytes, hsuffix, hfull⟩ := hsound.credits lease credits hcredits
    refine ⟨bytes, hsuffix, fun hreferenced ↦ hfull ?_⟩
    by_cases hstop : stop = some lease
    · exact hlease lease hstop
    rw [referenced_iff] at hreferenced ⊢
    refine hreferenced.imp_right (Or.imp_left ?_)
    rintro ⟨sender, hsender, hholding, hsame⟩
    obtain ⟨i, hi⟩ := List.mem_iff_getElem?.mp hsender
    rcases hget i sender hi with hmem | ⟨-, -, hstop', -⟩
    · exact ⟨sender, List.mem_iff_getElem?.mpr ⟨i, hmem⟩, hholding, hsame⟩
    · exact absurd (hstop'.symm.trans hsame) hstop

theorem Sound.channelReserved (stream : Bool) (stop : Option ℕ) :
    (state.channelReserved stream stop).Sound := by
  unfold State.channelReserved
  split
  · split_ifs
    · exact hsound.openChannel (Or.inl ⟨rfl, rfl⟩) fun _ h ↦ nomatch h
    · exact hsound.openChannel (Or.inl ⟨rfl, rfl⟩) fun _ h ↦ nomatch h
  rename_i lease
  split
  · exact hsound
  rename_i credits hcredits
  split_ifs with hhandles
  · exact hsound
  refine Sound.setHandles
    (hsound.openChannel (Or.inr ⟨lease, credits, rfl, hcredits, rfl⟩) ?_) lease _
  intro other hother
  cases hother
  exact referenced_iff.mpr (Or.inl ⟨credits, hcredits, Nat.pos_of_ne_zero hhandles⟩)

/-! ### Calls -/

theorem Sound.reserve (index body : ℕ) : (state.reserve index body).2.Sound := by
  unfold State.reserve
  split
  · exact hsound
  rename_i sender hsender
  split_ifs with hhandles
  · exact hsound
  rcases credits_spec sender index state.available body with
    ⟨failure, hfailed⟩ | ⟨taken, hok, htaken⟩
  · rw [hfailed]
    exact hsound
  · rw [hok]
    exact hsound.addPacket hsender (Nat.pos_of_ne_zero hhandles) rfl htaken

theorem Sound.commit (i : ℕ) : (state.commit i).2.Sound := by
  unfold State.commit
  split
  · exact hsound
  rename_i packet hpacket
  split
  · exact hsound
  split_ifs with hreserved hclosed
  · exact hsound
  · exact hsound.moveOne (by decide) fun _ _ _ ↦ rfl
  · rw [not_not] at hreserved
    refine Sound.moveOne (hsound.adjustSender fun _ ↦ ⟨⟨rfl, rfl, rfl, rfl, id⟩, rfl, id⟩)
      (by decide) fun found hfound hdropping ↦ ?_
    rw [packets_updateSender, hpacket] at hfound
    cases hfound
    rw [hreserved] at hdropping
    cases hdropping

theorem Sound.send (index body : ℕ) : (state.send index body).2.Sound := by
  unfold State.send
  have hreserve := hsound.reserve index body
  split
  · rename_i failure after heq
    rw [heq] at hreserve
    exact hreserve
  · rename_i i after heq
    rw [heq] at hreserve
    exact hreserve.commit i

end

/-- Dropping the permits of a packet that was not sent restores the semaphores. -/
theorem foldl_release {taken : Pool → ℕ}
    (htaken : ∀ pool, taken pool + charge permits pool = available pool) :
    permits.reverse.foldl release taken = available := by
  have hfold : ∀ (list : List (Permit Pool)) (start : Pool → ℕ) (pool : Pool),
      list.foldl release start pool = start pool + charge list pool := by
    intro list
    induction list with
    | nil => exact fun _ _ ↦ rfl
    | cons permit list ih =>
      intro start pool
      rw [List.foldl_cons, ih, release_apply]
      simp only [charge_cons, charge_nil]
      omega
  funext pool
  rw [hfold, ← htaken pool]
  congr 1
  exact ((List.reverse_perm permits).map _).sum_eq

section

variable (hsound : state.Sound)
include hsound

theorem Sound.event (index : ℕ) (counted written : Option ℕ) :
    (state.event index counted written).2.Sound := by
  unfold State.event
  split
  · exact hsound
  · exact hsound
  rename_i sender length hsender
  rcases credits_spec sender index state.available (EVENT_FRAME_BYTES + length) with
    ⟨failure, hfailed⟩ | ⟨taken, hok, htaken⟩
  · rw [hfailed]
    split_ifs <;> exact hsound
  · rw [hok]
    split_ifs with hhandles
    · exact hsound
    · exact hsound
    · exact (hsound.addPacket hsender (Nat.pos_of_ne_zero hhandles) rfl htaken).commit _
    · simp only [foldl_release htaken]
      exact hsound

theorem Sound.next (index : ℕ) : (state.next index).2.Sound := by
  unfold State.next
  split
  · exact hsound
  split
  · exact hsound.adjustSender fun _ ↦ ⟨⟨rfl, rfl, rfl, rfl, id⟩, rfl, id⟩
  · exact hsound

theorem Sound.dropReceiver (index : ℕ) : (state.dropReceiver index).Sound := by
  unfold State.dropReceiver
  split
  · exact hsound
  refine Sound.move (hsound.adjustSender fun _ ↦ ⟨⟨rfl, rfl, rfl, rfl, id⟩, rfl, id⟩) ?_ ?_
  · intro i packet _ hreserved
    split_ifs at hreserved
    exact hreserved
  · intro i packet _ hdropping
    split_ifs
    · rfl
    · exact hdropping

theorem Sound.dropPacket (i : ℕ) : (state.dropPacket i).Sound := by
  unfold State.dropPacket
  split_ifs
  · exact hsound
  · exact hsound.moveOne (by decide) fun _ _ _ ↦ rfl

/-- Every operation keeps the invariant. -/
theorem sound_perform (operation : Operation) : (state.perform operation).Sound := by
  cases operation with
  | reserveStop c bytes =>
    cases c with
    | ordinary => exact hsound
    | takeStop => exact hsound.reservePool .take bytes
    | safetyStop => exact hsound.reservePool .safety bytes
  | cloneLease lease => exact hsound.setHandles lease (· + 1)
  | dropLease lease => exact hsound.setHandles lease (· - 1)
  | releaseCredits lease => exact hsound.releaseCredits lease
  | channelReserved stream stop => exact hsound.channelReserved stream stop
  | cloneSender index => exact hsound.useSender fun _ ↦ ⟨⟨rfl, rfl, rfl, rfl, id⟩, rfl⟩
  | dropSender index => exact hsound.useSender fun _ ↦ ⟨⟨rfl, rfl, rfl, rfl, id⟩, rfl⟩
  | fail index reason => exact hsound.useSender fun _ ↦ ⟨⟨rfl, rfl, rfl, rfl, id⟩, rfl⟩
  | depart index => exact hsound.adjustSender fun _ ↦ ⟨⟨rfl, rfl, rfl, rfl, id⟩, rfl, id⟩
  | releaseSender index => exact hsound.releaseSender index
  | reserve index body => exact hsound.reserve index body
  | commit packet => exact hsound.commit packet
  | send index body => exact hsound.send index body
  | event index counted written => exact hsound.event index counted written
  | next index => exact hsound.next index
  | dropReceiver index => exact hsound.dropReceiver index
  | dropPacket packet => exact hsound.dropPacket packet
  | releasePacket packet => exact hsound.releasePacket packet

end

end State

theorem sound_run (operations : List Operation) : (run operations).Sound :=
  List.foldlRecOn operations State.perform State.sound_new fun _ hsound operation _ ↦
    State.sound_perform hsound operation

end ObsMcp.Sink
