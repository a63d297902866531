import ObsMcp.Sink.Conservation

/-!
# Isolation of the emergency credits

The pools of a stop class are touched by the operations of that class only (`perform_isolated`).
While the slot of a class is available, its body and output pools are full
(`full_of_slot_available`), because the slot is the last thing an exchange of the class gives back.
So a new exchange gets its credits exactly when nothing of the previous one is left
(`reserveStop_ok_iff`), and when no release is pending, exactly when no lease, sender, reservation
or packet of the class is alive (`unreleased_iff_alive`).

`emergency_credits` puts these together with the conservation of all pools.
-/

namespace ObsMcp.Sink

open Foundations Host List Option

/-! ### The class of an operation -/

/-- The stop class whose output a sender is charged to. -/
def Sender.stopClass (sender : Sender) : Option StopClass :=
  match sender.global with
  | .output c => some c
  | _ => none

namespace State

variable {state : State} {c : StopClass}

def leaseClass (state : State) (lease : ℕ) : Option StopClass :=
  (state.credits[lease]?).map StopCredits.stopClass

def senderClass (state : State) (index : ℕ) : Option StopClass :=
  (state.senders[index]?).bind Sender.stopClass

def packetClass (state : State) (i : ℕ) : Option StopClass :=
  (state.packets[i]?).bind (fun packet ↦ state.senderClass packet.sender)

/-- The stop class of the values an operation is about, none for an ordinary channel. -/
def operationClass (state : State) : Operation → Option StopClass
  | .reserveStop .ordinary _ => none
  | .reserveStop .takeStop _ => some .take
  | .reserveStop .safetyStop _ => some .safety
  | .cloneLease lease | .dropLease lease | .releaseCredits lease => state.leaseClass lease
  | .channelReserved _ stop => stop.bind state.leaseClass
  | .cloneSender index | .dropSender index | .fail index _ | .depart index
  | .releaseSender index | .reserve index _ | .send index _ | .event index _ _ | .next index
  | .dropReceiver index => state.senderClass index
  | .commit i | .dropPacket i | .releasePacket i => state.packetClass i

/-- The pools of a stop class. -/
def classPools (c : StopClass) : List Pool := [.slot c, .body c, .output c]

/-! ### Operations outside a class -/

variable {sender : Sender} {body index : ℕ} {pool : Pool}

theorem global_of_sound {credits : List StopCredits} {owned : Bool}
    (hsender : sender.Sound credits owned) :
    sender.global = .ordinary ∨ ∃ c, sender.global = .output c := by
  rcases hsender.pool with ⟨-, hglobal⟩ | ⟨_, found, -, -, hglobal⟩
  · exact Or.inl hglobal
  · exact Or.inr ⟨found.stopClass, hglobal⟩

variable {permit : Permit Pool} {bytes lease : ℕ} {d : StopClass}

/-- No pool of a class is charged by the packets of other senders. -/
theorem pool_not_mem_classPools
    (hglobal : sender.global = .ordinary ∨ ∃ c, sender.global = .output c)
    (hclass : sender.stopClass ≠ some c)
    (hpermit : permit ∈ [⟨sender.global, body⟩, ⟨.bytes index, body⟩, ⟨.items index, 1⟩]) :
    permit.pool ∉ classPools c := by
  have hother : sender.global ∉ classPools c := by
    rcases hglobal with hglobal | ⟨d, hglobal⟩
    · rw [hglobal]
      simp [classPools]
    · intro hmem
      rw [hglobal] at hmem
      simp only [classPools, mem_cons, reduceCtorEq, Pool.output.injEq, not_mem_nil,
        or_false, false_or] at hmem
      exact hclass (by rw [Sender.stopClass, hglobal, hmem])
  simp only [mem_cons, not_mem_nil, or_false] at hpermit
  rcases hpermit with rfl | rfl | rfl
  · exact hother
  · simp [classPools]
  · simp [classPools]

/-- Credits of another class charge nothing to the pools of a class. -/
theorem pool_not_mem_of_credits (hclass : d ≠ c) (hpermit : permit ∈ StopCredits.full d bytes) :
    permit.pool ∉ classPools c := by
  simp only [StopCredits.full, mem_cons, not_mem_nil, or_false] at hpermit
  rcases hpermit with rfl | rfl <;> simp [classPools, hclass]

theorem available_of_charge {available taken : Pool → ℕ} {permits : List (Permit Pool)}
    (htaken : taken pool + charge permits pool = available pool)
    (hpermits : ∀ permit ∈ permits, permit.pool ∉ classPools c) (hpool : pool ∈ classPools c) :
    taken pool = available pool := by
  rw [charge_eq_zero fun permit hpermit heq ↦ hpermits permit hpermit (heq ▸ hpool)] at htaken
  exact htaken

theorem available_reservePool (hclass : d ≠ c) (hpool : pool ∈ classPools c) :
    (state.reservePool d bytes).2.available pool = state.available pool := by
  rcases reservePool_spec state d bytes with ⟨failure, hfailed⟩ | ⟨available, hok, havailable⟩
  · rw [hfailed]
  · rw [hok]
    exact available_of_charge (havailable pool)
      (fun _ hpermit ↦ pool_not_mem_of_credits hclass hpermit) hpool

theorem available_setHandles (state : State) (lease : ℕ) (f : ℕ → ℕ) :
    (state.setHandles lease f).available = state.available := by
  unfold setHandles
  split
  · rfl
  · split_ifs <;> rfl

theorem available_channelReserved (state : State) (stream : Bool) (stop : Option ℕ)
    (hpool : pool ∈ classPools c) :
    (state.channelReserved stream stop).available pool = state.available pool := by
  have hopen : ∀ global max limit stop,
      (state.openChannel global max limit stop).available pool = state.available pool := by
    intro global max limit stop
    show Function.update (Function.update state.available _ max) _ limit pool = _
    rw [Function.update_of_ne, Function.update_of_ne]
    · rintro rfl
      simp [classPools] at hpool
    · rintro rfl
      simp [classPools] at hpool
  unfold channelReserved
  split
  · split_ifs
    · exact hopen _ _ _ _
    · exact hopen _ _ _ _
  · split
    · rfl
    · split_ifs
      · rfl
      · rw [available_setHandles]
        exact hopen _ _ _ _

theorem available_releaseCredits (hsound : state.Sound) (hclass : state.leaseClass lease ≠ some c)
    (hpool : pool ∈ classPools c) :
    (state.releaseCredits lease).available pool = state.available pool := by
  unfold releaseCredits
  split
  · rfl
  rename_i credits hcredits
  split_ifs
  · rfl
  split
  · rfl
  · rename_i permit permits hpermits
    obtain ⟨bytes, hsuffix, -⟩ := hsound.credits lease credits hcredits
    have hother : credits.stopClass ≠ c := by
      intro hsame
      exact hclass (by rw [leaseClass, hcredits, map_some, hsame])
    have hmem : permit ∈ StopCredits.full credits.stopClass bytes :=
      hsuffix.subset (hpermits ▸ mem_cons_self)
    refine release_of_ne ?_
    rintro rfl
    exact pool_not_mem_of_credits hother hmem hpool

theorem sender_of_senderClass (hsound : state.Sound) (hsender : state.senders[index]? = some sender)
    (hclass : state.senderClass index ≠ some c) :
    (sender.global = .ordinary ∨ ∃ c, sender.global = .output c) ∧ sender.stopClass ≠ some c := by
  refine ⟨global_of_sound (hsound.sender index sender hsender), fun hsame ↦ hclass ?_⟩
  rw [senderClass, hsender, bind_some, hsame]

theorem available_releasePacket (hsound : state.Sound) {i : ℕ}
    (hclass : state.packetClass i ≠ some c) (hpool : pool ∈ classPools c) :
    (state.releasePacket i).available pool = state.available pool := by
  unfold releasePacket
  split
  · rfl
  rename_i packet hpacket
  split_ifs
  · rfl
  split
  · rfl
  · rename_i permit permits hpermits
    obtain ⟨sender, hsender, hvalid⟩ :=
      hsound.packet packet (mem_iff_getElem?.mpr ⟨i, hpacket⟩)
    have hclass' : state.senderClass packet.sender ≠ some c := by
      rwa [packetClass, hpacket, bind_some] at hclass
    obtain ⟨hglobal, hother⟩ := sender_of_senderClass hsound hsender hclass'
    have hmem : permit ∈ packet.full sender :=
      hvalid.suffix.subset (hpermits ▸ mem_cons_self)
    refine release_of_ne ?_
    rintro rfl
    exact pool_not_mem_classPools hglobal hother hmem hpool

theorem available_reserve (hsound : state.Sound) (hclass : state.senderClass index ≠ some c)
    (hpool : pool ∈ classPools c) :
    (state.reserve index body).2.available pool = state.available pool := by
  unfold reserve
  split
  · rfl
  rename_i sender hsender
  split_ifs
  · rfl
  obtain ⟨hglobal, hother⟩ := sender_of_senderClass hsound hsender hclass
  rcases credits_spec sender index state.available body with
    ⟨failure, hfailed⟩ | ⟨taken, hok, htaken⟩
  · rw [hfailed]
  · rw [hok]
    exact available_of_charge (htaken pool)
      (fun _ hpermit ↦ pool_not_mem_classPools hglobal hother hpermit) hpool

theorem available_commit (state : State) (i : ℕ) :
    (state.commit i).2.available = state.available := by
  unfold commit
  split
  · rfl
  split
  · rfl
  split_ifs
  · rfl
  · rfl
  · exact available_updateSender _ _ _

section

variable (hsound : state.Sound) (hclass : state.senderClass index ≠ some c)
  (hpool : pool ∈ classPools c)
include hsound hclass hpool

theorem available_send : (state.send index body).2.available pool = state.available pool := by
  have hreserve : (state.reserve index body).2.available pool = state.available pool :=
    available_reserve hsound hclass hpool
  unfold send
  split
  · rename_i failure after heq
    rwa [heq] at hreserve
  · rename_i i after heq
    rw [heq] at hreserve
    rw [available_commit]
    exact hreserve

theorem available_event {counted written : Option ℕ} :
    (state.event index counted written).2.available pool = state.available pool := by
  unfold event
  split
  · rfl
  · rfl
  rename_i sender length hsender
  obtain ⟨hglobal, hother⟩ := sender_of_senderClass hsound hsender hclass
  rcases credits_spec sender index state.available (EVENT_FRAME_BYTES + length) with
    ⟨failure, hfailed⟩ | ⟨taken, hok, htaken⟩
  · rw [hfailed]
    split_ifs <;> rfl
  · rw [hok]
    split_ifs
    · rfl
    · rfl
    · simp only [available_commit]
      exact available_of_charge (htaken pool)
        (fun _ hpermit ↦ pool_not_mem_classPools hglobal hother hpermit) hpool
    · simp only [foldl_release htaken]

end

/-- An operation on an ordinary channel or on the other stop class leaves the pools of a class as
they are. -/
theorem perform_isolated (hsound : state.Sound) (operation : Operation)
    (hclass : state.operationClass operation ≠ some c) (hpool : pool ∈ classPools c) :
    (state.perform operation).available pool = state.available pool := by
  cases operation with
  | reserveStop d bytes =>
    cases d with
    | ordinary => rfl
    | takeStop => exact available_reservePool (fun hsame ↦ hclass (congrArg some hsame)) hpool
    | safetyStop => exact available_reservePool (fun hsame ↦ hclass (congrArg some hsame)) hpool
  | cloneLease lease => exact congrFun (available_setHandles state lease (· + 1)) pool
  | dropLease lease => exact congrFun (available_setHandles state lease (· - 1)) pool
  | releaseCredits lease => exact available_releaseCredits hsound hclass hpool
  | channelReserved stream stop => exact available_channelReserved state stream stop hpool
  | cloneSender index => exact congrFun (available_updateSender state index _) pool
  | dropSender index => exact congrFun (available_updateSender state index _) pool
  | fail index reason => exact congrFun (available_updateSender state index _) pool
  | depart index => exact congrFun (available_updateSender state index _) pool
  | releaseSender index =>
    show (state.releaseSender index).available pool = _
    unfold releaseSender
    split_ifs
    · rfl
    · rw [available_updateSender]
  | reserve index body => exact available_reserve hsound hclass hpool
  | commit i => exact congrFun (available_commit state i) pool
  | send index body => exact available_send hsound hclass hpool
  | event index counted written => exact available_event hsound hclass hpool
  | next index =>
    show (state.next index).2.available pool = _
    unfold next
    split
    · rfl
    · split
      · rw [available_updateSender]
      · rfl
  | dropReceiver index =>
    show (state.dropReceiver index).available pool = _
    unfold dropReceiver
    split
    · rfl
    · exact congrFun (available_updateSender state index _) pool
  | dropPacket i =>
    show (state.dropPacket i).available pool = _
    unfold dropPacket
    split_ifs <;> rfl
  | releasePacket i => exact available_releasePacket hsound hclass hpool

/-! ### The slot goes last -/

/-- Some credits of the class have not released all their fields. -/
def Unreleased (state : State) (c : StopClass) : Prop :=
  ∃ credits ∈ state.credits, credits.stopClass = c ∧ credits.permits ≠ []

theorem charge_slot_pos {credits : StopCredits} {referenced : Bool}
    (hvalid : credits.Sound referenced) (hpermits : credits.permits ≠ []) :
    0 < charge credits.permits (.slot credits.stopClass) := by
  obtain ⟨bytes, hsuffix, -⟩ := hvalid
  rw [StopCredits.full, suffix_cons_iff, suffix_cons_iff, suffix_nil] at hsuffix
  rcases hsuffix with hfull | hslot | hnil
  · rw [hfull]
    simp
  · rw [hslot]
    simp
  · exact absurd hnil hpermits

section

variable (hsound : state.Sound)
include hsound

/-- The credits of a sender of the class hold all their fields while somebody has their lease. -/
theorem unreleased_of_referenced (hsender : state.senders[index]? = some sender)
    (hclass : sender.stopClass = some c) (hstop : sender.stop = some lease)
    (hreferenced : state.referenced lease = true) : Unreleased state c := by
  rcases (hsound.sender index sender hsender).pool with
    ⟨hnone, -⟩ | ⟨other, found, hother, hfound, hglobal⟩
  · rw [hnone] at hstop
    cases hstop
  obtain rfl : other = lease := some.inj (hother.symm.trans hstop)
  obtain ⟨bytes, -, hfull⟩ := hsound.credits other found hfound
  refine ⟨found, mem_of_getElem? hfound, ?_, ?_⟩
  · rw [Sender.stopClass, hglobal] at hclass
    exact some.inj hclass
  · rw [hfull hreferenced]
    exact cons_ne_nil _ _

theorem stop_of_stopClass (hsender : state.senders[index]? = some sender)
    (hclass : sender.stopClass = some c) : ∃ lease, sender.stop = some lease := by
  rcases (hsound.sender index sender hsender).pool with ⟨-, hglobal⟩ | ⟨lease, _, hstop, -⟩
  · rw [Sender.stopClass, hglobal] at hclass
    cases hclass
  · exact ⟨lease, hstop⟩

/-- When the credits of a class are released, no packet holds permits of its pools either. -/
theorem held_eq_zero (hreleased : ¬ Unreleased state c) (hpool : pool ∈ classPools c) :
    state.held pool = 0 := by
  have hpackets : ∀ packet ∈ state.packets, charge packet.permits pool = 0 := by
    intro packet hpacket
    obtain ⟨sender, hsender, hvalid⟩ := hsound.packet packet hpacket
    by_cases hclass : sender.stopClass = some c
    · by_cases hpermits : packet.permits = []
      · rw [hpermits]
        rfl
      refine absurd ?_ hreleased
      obtain ⟨lease, hstop⟩ := stop_of_stopClass hsound hsender hclass
      have hlease : packet.stop = some lease :=
        (hvalid.lease.resolve_right fun hempty ↦ hpermits hempty.1).trans hstop
      exact unreleased_of_referenced hsound hsender hclass hstop
        (referenced_iff.mpr (Or.inr (Or.inr ⟨packet, hpacket, hlease⟩)))
    · have hglobal := global_of_sound (hsound.sender packet.sender sender hsender)
      refine charge_eq_zero fun permit hpermit heq ↦ ?_
      exact pool_not_mem_classPools hglobal hclass (hvalid.suffix.subset hpermit) (heq ▸ hpool)
  have hcredits : ∀ credits ∈ state.credits, charge credits.permits pool = 0 := by
    intro credits hcredits
    obtain ⟨lease, hlease⟩ := mem_iff_getElem?.mp hcredits
    obtain ⟨bytes, hsuffix, -⟩ := hsound.credits lease credits hlease
    by_cases hclass : credits.stopClass = c
    · have hempty : credits.permits = [] := by
        by_contra hpermits
        exact hreleased ⟨credits, hcredits, hclass, hpermits⟩
      rw [hempty]
      rfl
    · refine charge_eq_zero fun permit hpermit heq ↦ ?_
      exact pool_not_mem_of_credits hclass (hsuffix.subset hpermit) (heq ▸ hpool)
  have hzero : ∀ {α : Type} (list : List α) (load : α → ℕ), (∀ a ∈ list, load a = 0) →
      (list.map load).sum = 0 := by
    intro α list load hload
    refine sum_eq_zero fun n hn ↦ ?_
    obtain ⟨a, hmem, rfl⟩ := mem_map.mp hn
    exact hload a hmem
  rw [held, hzero _ _ hpackets, hzero _ _ hcredits]

theorem available_of_released (hreleased : ¬ Unreleased state c) (hpool : pool ∈ classPools c) :
    state.available pool = state.capacity pool := by
  have hconserved := hsound.conserved pool
  rwa [held_eq_zero hsound hreleased hpool, Nat.add_zero] at hconserved

/-- An available slot has no unreleased credits behind it. -/
theorem released_of_slot_available (hslot : 0 < state.available (.slot c)) :
    ¬ Unreleased state c := by
  rintro ⟨credits, hcredits, rfl, hpermits⟩
  obtain ⟨lease, hlease⟩ := mem_iff_getElem?.mp hcredits
  have hpos := charge_slot_pos (hsound.credits lease credits hlease) hpermits
  have hsum := sum_eraseIdx (fun found : StopCredits ↦
    charge found.permits (.slot credits.stopClass)) hlease
  have hconserved := hsound.conserved (.slot credits.stopClass)
  have hcapacity : state.capacity (.slot credits.stopClass) = 1 := rfl
  simp only [held] at hconserved
  omega

/-- While the slot of a class is available, its body and output pools are full. -/
theorem full_of_slot_available (hslot : 0 < state.available (.slot c)) :
    state.available (.body c) = STOP_BODY_BYTES ∧
      state.available (.output c) = STOP_OUTPUT_BYTES := by
  have hreleased := released_of_slot_available hsound hslot
  exact ⟨available_of_released hsound hreleased (by simp [classPools]),
    available_of_released hsound hreleased (by simp [classPools])⟩

end

end State

/-- A stop class as a class of the host. -/
def StopClass.toClass : StopClass → Host.Class
  | .take => .takeStop
  | .safety => .safetyStop

namespace State

variable {state : State} {c : StopClass}

theorem reserveStop_toClass (state : State) (c : StopClass) (bytes : ℕ) :
    state.reserveStop c.toClass bytes = state.reservePool c bytes := by
  cases c <;> rfl

/-- A new exchange gets its credits exactly when the credits of the class are released. Assumes: the
body fits the class. -/
theorem reserveStop_ok_iff (hsound : state.Sound) {bytes : ℕ} (hbytes : bytes ≤ STOP_BODY_BYTES) :
    (∃ lease, (state.reserveStop c.toClass bytes).1 = .ok lease) ↔ ¬ Unreleased state c := by
  rw [reserveStop_toClass]
  constructor
  · rintro ⟨lease, hok⟩
    refine released_of_slot_available hsound ?_
    cases hslotted : tryAcquire state.available (.slot c) 1 with
    | none =>
      simp only [reservePool, hslotted] at hok
      split_ifs at hok
    | some slotted => exact le_of_tryAcquire hslotted
  · intro hreleased
    have hslot : state.available (.slot c) = 1 :=
      available_of_released hsound hreleased (by simp [classPools])
    have hbody : state.available (.body c) = STOP_BODY_BYTES :=
      available_of_released hsound hreleased (by simp [classPools])
    refine ⟨some state.credits.length, ?_⟩
    simp [reservePool, tryAcquire, hslot, hbody, Nat.not_lt.mpr hbytes, hbytes]

/-! ### Between releases -/

/-- No release step is pending. -/
structure Settled (state : State) : Prop where
  packet : ∀ packet ∈ state.packets, packet.place = .dropping →
    packet.permits = [] ∧ packet.stop = none
  sender : ∀ (index : ℕ) (sender : Sender), state.senders[index]? = some sender →
    state.owned index = false → sender.holding = false
  credits : ∀ (lease : ℕ) (credits : StopCredits), state.credits[lease]? = some credits →
    state.referenced lease = false → credits.permits = []

/-- A lease, a sender, a reservation or a packet of the class is alive. -/
def Alive (state : State) (c : StopClass) : Prop :=
  (∃ credits ∈ state.credits, credits.stopClass = c ∧ 0 < credits.handles) ∨
    (∃ index, state.senderClass index = some c ∧ state.owned index = true) ∨
    ∃ packet ∈ state.packets, packet.place ≠ .dropping ∧
      state.senderClass packet.sender = some c

variable {index : ℕ} {sender : Sender} {pool : Pool}

theorem sender_of_senderClass_eq (hclass : state.senderClass index = some c) :
    ∃ sender, state.senders[index]? = some sender ∧ sender.stopClass = some c :=
  bind_eq_some_iff.mp hclass

theorem unreleased_of_alive (hsound : state.Sound) (halive : Alive state c) :
    Unreleased state c := by
  rcases halive with ⟨credits, hcredits, hclass, hhandles⟩ | ⟨index, hclass, howned⟩ |
    ⟨packet, hpacket, hplace, hclass⟩
  · obtain ⟨lease, hlease⟩ := mem_iff_getElem?.mp hcredits
    obtain ⟨bytes, -, hfull⟩ := hsound.credits lease credits hlease
    refine ⟨credits, hcredits, hclass, ?_⟩
    rw [hfull (referenced_iff.mpr (Or.inl ⟨credits, hlease, hhandles⟩))]
    exact cons_ne_nil _ _
  · obtain ⟨sender, hsender, hclass⟩ := sender_of_senderClass_eq hclass
    obtain ⟨lease, hstop⟩ := stop_of_stopClass hsound hsender hclass
    refine unreleased_of_referenced hsound hsender hclass hstop (referenced_iff.mpr ?_)
    exact Or.inr (Or.inl ⟨sender, mem_of_getElem? hsender,
      (hsound.sender index sender hsender).holding howned, hstop⟩)
  · obtain ⟨sender, hsender, hclass⟩ := sender_of_senderClass_eq hclass
    obtain ⟨lease, hstop⟩ := stop_of_stopClass hsound hsender hclass
    obtain ⟨found, hfound, hvalid⟩ := hsound.packet packet hpacket
    obtain rfl : sender = found := some.inj (hsender.symm.trans hfound)
    have hlease : packet.stop = some lease :=
      (hvalid.lease.resolve_right fun hdropped ↦ hplace hdropped.2.2).trans hstop
    exact unreleased_of_referenced hsound hsender hclass hstop
      (referenced_iff.mpr (Or.inr (Or.inr ⟨packet, hpacket, hlease⟩)))

/-- With no release pending, the credits of a class are unreleased exactly while something of the
class is alive. -/
theorem unreleased_iff_alive (hsound : state.Sound) (hsettled : state.Settled) :
    Unreleased state c ↔ Alive state c := by
  refine ⟨?_, unreleased_of_alive hsound⟩
  rintro ⟨credits, hcredits, rfl, hpermits⟩
  obtain ⟨lease, hlease⟩ := mem_iff_getElem?.mp hcredits
  have hreferenced : state.referenced lease = true := by
    by_contra hunreferenced
    exact hpermits (hsettled.credits lease credits hlease (by simpa using hunreferenced))
  have hclass : ∀ (index : ℕ) (sender : Sender), state.senders[index]? = some sender →
      sender.stop = some lease → state.senderClass index = some credits.stopClass := by
    intro index sender hsender hstop
    rcases (hsound.sender index sender hsender).pool with
      ⟨hnone, -⟩ | ⟨other, found, hother, hfound, hglobal⟩
    · rw [hnone] at hstop
      cases hstop
    obtain rfl : other = lease := some.inj (hother.symm.trans hstop)
    obtain rfl : found = credits := some.inj (hfound.symm.trans hlease)
    rw [senderClass, hsender, bind_some, Sender.stopClass, hglobal]
  rcases referenced_iff.mp hreferenced with ⟨found, hfound, hhandles⟩ |
    ⟨sender, hsender, hholding, hstop⟩ | ⟨packet, hpacket, hstop⟩
  · obtain rfl : found = credits := some.inj (hfound.symm.trans hlease)
    exact Or.inl ⟨found, hcredits, rfl, hhandles⟩
  · obtain ⟨index, hindex⟩ := mem_iff_getElem?.mp hsender
    refine Or.inr (Or.inl ⟨index, hclass index sender hindex hstop, ?_⟩)
    by_contra howned
    rw [hsettled.sender index sender hindex (by simpa using howned)] at hholding
    cases hholding
  · obtain ⟨sender, hsender, hvalid⟩ := hsound.packet packet hpacket
    have hplace : packet.place ≠ .dropping := by
      intro hdropping
      rw [(hsettled.packet packet hpacket hdropping).2] at hstop
      cases hstop
    have hsame : packet.stop = sender.stop :=
      hvalid.lease.resolve_right fun hdropped ↦ hplace hdropped.2.2
    exact Or.inr (Or.inr ⟨packet, hpacket, hplace,
      hclass packet.sender sender hsender (hsame ▸ hstop)⟩)

/-! ### Body lengths -/

/-- The body lengths of the packets and reservations of some senders. -/
def liveBytes (state : State) (belongs : ℕ → Bool) : ℕ :=
  (state.packets.map (fun packet ↦
    if packet.place ≠ .dropping ∧ belongs packet.sender = true then packet.body else 0)).sum

/-- The number of the packets and reservations of a sender. -/
def liveItems (state : State) (index : ℕ) : ℕ :=
  (state.packets.map (fun packet ↦
    if packet.place ≠ .dropping ∧ packet.sender = index then 1 else 0)).sum

/-- With no release pending, the permits a packet holds are those of its body and its item while it
is alive, and none afterwards. -/
theorem charge_settled (hsettled : state.Settled) {packet : Packet}
    (hpacket : packet ∈ state.packets) (hvalid : packet.Sound sender) (pool : Pool) :
    charge packet.permits pool =
      if packet.place ≠ .dropping then charge (packet.full sender) pool else 0 := by
  split_ifs with hplace
  · rw [hvalid.live hplace]
  · rw [(hsettled.packet packet hpacket (not_not.mp hplace)).1]
    rfl

section

variable (hsound : state.Sound)
include hsound

theorem held_of_credits_free
    (hfree : ∀ c bytes, ∀ permit ∈ StopCredits.full c bytes, permit.pool ≠ pool) :
    state.held pool = (state.packets.map (fun packet ↦ charge packet.permits pool)).sum := by
  have hcredits : (state.credits.map (fun credits ↦ charge credits.permits pool)).sum = 0 := by
    refine sum_eq_zero fun n hn ↦ ?_
    obtain ⟨credits, hmem, rfl⟩ := mem_map.mp hn
    obtain ⟨lease, hlease⟩ := mem_iff_getElem?.mp hmem
    obtain ⟨bytes, hsuffix, -⟩ := hsound.credits lease credits hlease
    exact charge_eq_zero fun permit hpermit ↦ hfree _ _ permit (hsuffix.subset hpermit)
  rw [held, hcredits, Nat.add_zero]

section

variable (hsettled : state.Settled)
  (hfree : ∀ c bytes, ∀ permit ∈ StopCredits.full c bytes, permit.pool ≠ pool)
include hsettled hfree

/-- What is held of a pool that no stop credits hold, packet by packet. -/
theorem held_eq_sum {share : Packet → ℕ}
    (hshare : ∀ packet sender, state.senders[packet.sender]? = some sender →
      packet.place ≠ .dropping → charge (packet.full sender) pool = share packet)
    (hdropped : ∀ packet, packet.place = .dropping → share packet = 0) :
    state.held pool = (state.packets.map share).sum := by
  rw [held_of_credits_free hsound hfree]
  congr 1
  refine map_congr_left fun packet hpacket ↦ ?_
  obtain ⟨sender, hsender, hvalid⟩ := hsound.packet packet hpacket
  rw [charge_settled hsettled hpacket hvalid]
  split_ifs with hplace
  · exact hshare packet sender hsender hplace
  · exact (hdropped packet (not_not.mp hplace)).symm

/-- What the packets hold of a shared pool are the bodies of the senders charged to it. -/
theorem held_global {belongs : ℕ → Bool}
    (hshared : ∀ index, pool ≠ .bytes index ∧ pool ≠ .items index)
    (hbelongs : ∀ (index : ℕ) (sender : Sender), state.senders[index]? = some sender →
      (belongs index = true ↔ sender.global = pool)) :
    state.held pool = state.liveBytes belongs := by
  refine held_eq_sum hsound hsettled hfree (fun packet sender hsender hplace ↦ ?_)
    fun packet hplace ↦ by simp [hplace]
  obtain ⟨hbytes, hitems⟩ := hshared packet.sender
  simp only [ne_eq, hplace, not_false_eq_true, true_and, Packet.full, charge_cons, charge_nil,
    if_neg hbytes.symm, if_neg hitems.symm, Nat.add_zero, hbelongs packet.sender sender hsender]

end

/-- What is held of the two pools of a sender. -/
theorem held_own (hsettled : state.Settled) (index : ℕ) :
    state.held (.bytes index) = state.liveBytes (· == index) ∧
      state.held (.items index) = state.liveItems index := by
  have hglobal {packet : Packet} {sender : Sender}
      (hsender : state.senders[packet.sender]? = some sender) :
      sender.global ≠ .bytes index ∧ sender.global ≠ .items index := by
    rcases global_of_sound (hsound.sender packet.sender sender hsender) with h | ⟨c, h⟩ <;> simp [h]
  constructor
  · refine held_eq_sum hsound hsettled (by simp [StopCredits.full])
      (fun packet sender hsender hplace ↦ ?_) fun packet hplace ↦ by simp [hplace]
    simp [hplace, Packet.full, (hglobal hsender).1]
  · refine held_eq_sum hsound hsettled (by simp [StopCredits.full])
      (fun packet sender hsender hplace ↦ ?_) fun packet hplace ↦ by simp [hplace]
    simp [hplace, Packet.full, (hglobal hsender).2]

theorem senderClass_eq_iff (hsender : state.senders[index]? = some sender) :
    (state.senderClass index = none ↔ sender.global = .ordinary) ∧
      ∀ c, state.senderClass index = some c ↔ sender.global = .output c := by
  rw [senderClass, hsender, bind_some]
  rcases global_of_sound (hsound.sender index sender hsender) with hglobal | ⟨d, hglobal⟩
  · simp [Sender.stopClass, hglobal]
  · simp [Sender.stopClass, hglobal]

end

end State

/-- After every sequence of calls, drops and releases of fields. First, each pool's available
permits and the permits still held make up its size; a live packet or reservation holds the permits
of its body, a dropped one a final part of them; and when no release is pending, this is an equation
about body lengths. Second, the pools of a stop class are changed by operations of that class only,
and a new exchange gets its credits exactly when those of the class are released, which, when no
release is pending, means that no lease, sender, reservation or packet of the class is alive. Third,
while the slot of a class is available, its body and output pools are full. -/
theorem emergency_credits (operations : List Operation) :
    ((∀ pool, (run operations).available pool + (run operations).held pool =
        (run operations).capacity pool) ∧
      (∀ packet ∈ (run operations).packets, ∃ sender,
        (run operations).senders[packet.sender]? = some sender ∧
        packet.permits <:+ packet.full sender ∧
        (packet.place ≠ .dropping → packet.permits = packet.full sender)) ∧
      ((run operations).Settled →
        (run operations).available .ordinary +
            (run operations).liveBytes ((run operations).senderClass · == none) = GLOBAL_BYTES ∧
        (∀ c, (run operations).available (.output c) +
            (run operations).liveBytes ((run operations).senderClass · == some c) =
          STOP_OUTPUT_BYTES) ∧
        ∀ (index : ℕ) (sender : Sender), (run operations).senders[index]? = some sender →
          (run operations).available (.bytes index) + (run operations).liveBytes (· == index) =
              sender.max ∧
            (run operations).available (.items index) + (run operations).liveItems index =
              sender.limit)) ∧
    ((∀ operation c, (run operations).operationClass operation ≠ some c →
        ∀ pool ∈ State.classPools c, ((run operations).perform operation).available pool =
          (run operations).available pool) ∧
      ∀ (c : StopClass) bytes, bytes ≤ STOP_BODY_BYTES →
        ((∃ lease, ((run operations).reserveStop c.toClass bytes).1 = .ok lease) ↔
          ¬ (run operations).Unreleased c) ∧
        ((run operations).Settled →
          ((∃ lease, ((run operations).reserveStop c.toClass bytes).1 = .ok lease) ↔
            ¬ (run operations).Alive c))) ∧
    ∀ c, 0 < (run operations).available (.slot c) →
      (run operations).available (.body c) = STOP_BODY_BYTES ∧
        (run operations).available (.output c) = STOP_OUTPUT_BYTES := by
  have hsound := sound_run operations
  refine ⟨⟨hsound.conserved, ?_, fun hsettled ↦ ⟨?_, fun c ↦ ?_, fun index sender hsender ↦ ?_⟩⟩,
    ⟨?_, ?_⟩, fun c hslot ↦ State.full_of_slot_available hsound hslot⟩
  · intro packet hpacket
    obtain ⟨sender, hsender, hvalid⟩ := hsound.packet packet hpacket
    exact ⟨sender, hsender, hvalid.suffix, hvalid.live⟩
  · have hheld : (run operations).held .ordinary =
        (run operations).liveBytes ((run operations).senderClass · == none) :=
      State.held_global hsound hsettled (by simp [StopCredits.full]) (by simp)
        fun index sender hsender ↦
          beq_iff_eq.trans (State.senderClass_eq_iff hsound hsender).1
    rw [← hheld]
    exact hsound.conserved .ordinary
  · have hheld : (run operations).held (.output c) =
        (run operations).liveBytes ((run operations).senderClass · == some c) :=
      State.held_global hsound hsettled (by simp [StopCredits.full]) (by simp)
        fun index sender hsender ↦
          beq_iff_eq.trans ((State.senderClass_eq_iff hsound hsender).2 c)
    rw [← hheld]
    exact hsound.conserved (.output c)
  · have hbytes := hsound.conserved (.bytes index)
    have hitems := hsound.conserved (.items index)
    simp only [State.capacity, hsender, elim_some] at hbytes hitems
    obtain ⟨hheldBytes, hheldItems⟩ := State.held_own hsound hsettled index
    rw [hheldBytes] at hbytes
    rw [hheldItems] at hitems
    exact ⟨hbytes, hitems⟩
  · intro operation c hclass pool hpool
    exact State.perform_isolated hsound operation hclass hpool
  · intro c bytes hbytes
    have hreleased := State.reserveStop_ok_iff hsound hbytes (c := c)
    refine ⟨hreleased, fun hsettled ↦ ?_⟩
    rw [hreleased, State.unreleased_iff_alive hsound hsettled]

end ObsMcp.Sink
