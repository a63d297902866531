import ObsMcp.Host.Admissions

/-!
# The invariant of the admission table

`Sound` collects what holds of the table after every sequence of operations: the wire map is the
inverse of the entries' keys, identities are below the counters, and the bounds on registrations
and entries. Registration and admission are followed by their own lemmas. The signals (`cancel`,
`depart`, `disconnect`, `close`) share one, `Sound.of_signals`: they rewrite entries in place,
keeping the key and the reservation of each, and register nothing.

`admission_table` reads the four groups of guarantees off the invariant.
-/

namespace ObsMcp.Host

open Foundations List Option

namespace Admissions

variable {table : Admissions} {frontend : FrontendId} {c : Class}

/-- The frontend has an ingress slot of the table. -/
def privileged (table : Admissions) (frontend : FrontendId) : Bool :=
  table.ingressTake == some frontend || table.ingressSafety == some frontend

/-- The number of registrations outside the ingress slots. -/
def outside (table : Admissions) : ℕ :=
  table.frontends.entries.countP (fun entry ↦ !table.privileged entry.1)

/-- What holds of the table after every sequence of operations. -/
structure Sound (table : Admissions) : Prop where
  wire_iff : ∀ key id, table.wire.get key = some id ↔
    ∃ entry, table.entries.get id = some entry ∧ key = (entry.frontend, entry.wire)
  exchange_lt : ∀ id entry next, table.entries.get id = some entry →
    table.nextExchange = some next → id.value < next
  frontend_lt : ∀ id departed next, table.frontends.get id = some departed →
    table.nextFrontend = some next → id.value < next
  outside_le : table.outside ≤ 128
  ordinary_le : table.ordinary ≤ ORDINARY_FRONTEND_JOBS
  reserved_le : ∀ c, table.reserved c ≤ 1

theorem sound_new : new.Sound where
  wire_iff := by simp [new, KeyMap.get]
  exchange_lt := by simp [new, KeyMap.get]
  frontend_lt := by simp [new, KeyMap.get]
  outside_le := by simp [outside, new]
  ordinary_le := by simp [ordinary, new]
  reserved_le := by simp [reserved, new]

/-! ### The number of registrations -/

/-- Every entry is counted by one of two predicates or by neither. -/
theorem length_le_countP {α : Type*} (p q : α → Bool) (l : List α) :
    l.length ≤ l.countP (fun a ↦ !(p a || q a)) + l.countP p + l.countP q := by
  induction l with
  | nil => simp
  | cons a l ih =>
    simp only [length_cons, countP_cons]
    cases p a <;> cases q a <;>
      simp only [Bool.or_true, Bool.or_false, Bool.not_true, Bool.not_false, Bool.false_eq_true,
        if_true, if_false] <;> omega

theorem countP_slot_le_one (table : Admissions) (slot : Option FrontendId) :
    table.frontends.entries.countP (fun entry ↦ slot == some entry.1) ≤ 1 := by
  cases slot with
  | none => simp
  | some id =>
    refine Nat.le_trans (countP_mono_left fun entry _ hentry ↦ ?_)
      (table.frontends.countP_key_le_one id)
    have hkey : id = entry.1 := some.inj (eq_of_beq hentry)
    exact decide_eq_true hkey.symm

/-- Besides those outside the ingress slots there are at most two registrations. -/
theorem length_frontends_le (table : Admissions) :
    table.frontends.entries.length ≤ table.outside + 2 := by
  have hlength := length_le_countP (fun entry : FrontendId × Bool ↦
    table.ingressTake == some entry.1) (fun entry ↦ table.ingressSafety == some entry.1)
    table.frontends.entries
  have htake := table.countP_slot_le_one table.ingressTake
  have hsafety := table.countP_slot_le_one table.ingressSafety
  show _ ≤ table.frontends.entries.countP (fun entry ↦ !(table.ingressTake == some entry.1 ||
    table.ingressSafety == some entry.1)) + 2
  omega

/-! ### Registration -/

variable {id : FrontendId}

theorem registered_of_reap {departed : Bool} (hget : table.reap.frontends.get id = some departed) :
    table.frontends.get id = some departed := by
  have hfilter := KeyMap.get_retain table.frontends
    (fun id departed ↦ !departed || table.hasFrontendJobs id) id
  exact (filter_eq_some_iff.mp (hfilter.symm.trans hget)).1

/-- A registered frontend keeps its ingress slot. -/
theorem privileged_reap {departed : Bool} (hget : table.reap.frontends.get id = some departed)
    (hprivileged : table.privileged id = true) : table.reap.privileged id = true := by
  have hkept : ∀ slot : Option FrontendId, slot = some id →
      slot.filter (fun id ↦ (table.reap.frontends.get id).isSome) = some id := by
    rintro slot rfl
    simp [hget]
  simp only [privileged, Bool.or_eq_true, beq_iff_eq] at hprivileged ⊢
  exact hprivileged.imp (hkept _) (hkept _)

theorem Sound.reap (hsound : table.Sound) : table.reap.Sound where
  wire_iff := hsound.wire_iff
  exchange_lt := hsound.exchange_lt
  frontend_lt id departed next hget hnext :=
    hsound.frontend_lt id departed next (registered_of_reap hget) hnext
  outside_le := by
    have hmono : table.reap.outside ≤
        table.reap.frontends.entries.countP (fun entry ↦ !table.privileged entry.1) := by
      refine countP_mono_left fun entry hentry houtside ↦ ?_
      have hget : table.reap.frontends.get entry.1 = some entry.2 :=
        KeyMap.get_eq_some_iff.mpr hentry
      cases hprivileged : table.privileged entry.1 with
      | false => rfl
      | true => simp [privileged_reap hget hprivileged] at houtside
    have hsublist : table.reap.frontends.entries.Sublist table.frontends.entries :=
      filter_sublist
    exact (hmono.trans hsublist.countP_le).trans hsound.outside_le
  ordinary_le := hsound.ordinary_le
  reserved_le := hsound.reserved_le

/-- A table that does not refuse a class has room, or a free ingress slot for the class. -/
theorem room_of_refuses (hrefuses : table.refuses c = false) :
    table.full = false ∨ table.full = true ∧ c ≠ .ordinary ∧ table.ingress c = none := by
  cases hfull : table.full with
  | false => exact Or.inl rfl
  | true =>
    refine Or.inr ⟨rfl, ?_⟩
    cases c <;> simp_all [refuses, ingress]

theorem Sound.register (hsound : table.Sound) (hnext : table.nextFrontend = some id.value)
    (hrefuses : table.refuses c = false) :
    (table.register c id).Sound where
  wire_iff := hsound.wire_iff
  exchange_lt := hsound.exchange_lt
  frontend_lt other departed next hget hnext' := by
    have hnext : next = id.value + 1 := eq_of_checkedAdd hnext'
    have hget : (table.frontends.insert id false).get other = some departed := hget
    rw [KeyMap.get_insert] at hget
    split_ifs at hget with hother
    · rw [hother, hnext]
      exact Nat.lt_succ_self _
    · have := hsound.frontend_lt other departed id.value hget ‹_›
      omega
  outside_le := by
    have hfresh : table.frontends.get id = none := by
      refine eq_none_iff_forall_ne_some.mpr fun departed hget ↦ ?_
      exact (hsound.frontend_lt id departed id.value hget hnext).false
    have hentries : (table.register c id).frontends.entries =
        table.frontends.entries ++ [(id, false)] :=
      KeyMap.insert_entries_of_get_none hfresh false
    rcases room_of_refuses hrefuses with hroom | ⟨hfull, hclass, hslot⟩
    · have hlength : table.frontends.entries.length < 128 := by simpa [full] using hroom
      refine countP_le_length.trans ?_
      rw [hentries, length_append, length_singleton]
      exact hlength
    · have hnew : (table.register c id).privileged id = true := by
        cases c <;> simp_all [privileged, Admissions.register]
      have hmono : (table.register c id).outside ≤ table.outside := by
        unfold outside
        rw [hentries, countP_append, countP_singleton, hnew]
        simp only [Bool.not_true, Bool.false_eq_true, if_false, Nat.add_zero]
        refine countP_mono_left fun entry _ houtside ↦ ?_
        cases c <;> simp_all [privileged, Admissions.register, ingress]
      exact hmono.trans hsound.outside_le
  ordinary_le := hsound.ordinary_le
  reserved_le := hsound.reserved_le

theorem Sound.frontendFor (hsound : table.Sound) (c : Class) : (table.frontendFor c).2.Sound := by
  unfold Admissions.frontendFor
  split_ifs with hclosing hrefuses
  · exact hsound
  · exact hsound.reap
  · cases hnext : table.reap.nextFrontend with
    | none => exact hsound.reap
    | some id =>
      have hnext' : table.reap.nextFrontend = some (FrontendId.mk id).value := hnext
      exact hsound.reap.register hnext' (by simpa using hrefuses)

/-! ### Admission -/

section Wire

variable {Value : Type*} {toString : Value → String} {wire : Value}

/-- What an accepted check has found. Assumes: the check answers a pair of reservations. -/
theorem check_ok {reservations : Bool × Bool}
    (hcheck : table.check toString frontend wire c = .ok reservations) :
    table.wire.get (frontend, toString wire) = none ∧
      (reservations = (false, false) ∧ table.ordinary < ORDINARY_FRONTEND_JOBS ∨
        reservations = (true, false) ∧ table.reserved .takeStop = 0 ∨
        reservations = (false, true) ∧ table.reserved .safetyStop = 0) := by
  unfold check at hcheck
  cases c with
  | ordinary =>
    simp only at hcheck
    split_ifs at hcheck with _ _ hduplicate hordinary
    exact ⟨by simpa using hduplicate, Or.inl ⟨(Except.ok.inj hcheck).symm, hordinary⟩⟩
  | takeStop =>
    simp only at hcheck
    split_ifs at hcheck with _ _ hduplicate hordinary hany
    all_goals refine ⟨by simpa using hduplicate, ?_⟩
    · exact Or.inl ⟨(Except.ok.inj hcheck).symm, hordinary⟩
    · refine Or.inr (Or.inl ⟨(Except.ok.inj hcheck).symm, ?_⟩)
      simpa [reserved, Pending.reserves] using hany
  | safetyStop =>
    simp only at hcheck
    split_ifs at hcheck with _ _ hduplicate hordinary hany
    all_goals refine ⟨by simpa using hduplicate, ?_⟩
    · exact Or.inl ⟨(Except.ok.inj hcheck).symm, hordinary⟩
    · refine Or.inr (Or.inr ⟨(Except.ok.inj hcheck).symm, ?_⟩)
      simpa [reserved, Pending.reserves] using hany

/-- Recording an entry keeps the invariant. Assumes: the identity is the next one, the key is new,
and the entry keeps the bounds. -/
theorem Sound.record {id : ExchangeId} {entry : Entry} (hsound : table.Sound)
    (hnext : table.nextExchange = some id.value)
    (hwire : table.wire.get (entry.frontend, entry.wire) = none)
    (hordinary : entry.pending.isOrdinary = true → table.ordinary < ORDINARY_FRONTEND_JOBS)
    (hreserved : ∀ c, entry.pending.reserves c = true → table.reserved c = 0) :
    (table.record id entry).Sound := by
  have hfresh : table.entries.get id = none := by
    refine eq_none_iff_forall_ne_some.mpr fun found hget ↦ ?_
    exact (hsound.exchange_lt id found id.value hget hnext).false
  have hentries : ∀ other, (table.record id entry).entries.get other =
      if other = id then some entry else table.entries.get other :=
    KeyMap.get_insert table.entries id entry
  refine ⟨?_, ?_, hsound.frontend_lt, hsound.outside_le, ?_, ?_⟩
  · intro key other
    have hget : (table.record id entry).wire.get key =
        if key = (entry.frontend, entry.wire) then some id else table.wire.get key :=
      KeyMap.get_insert table.wire _ id key
    rw [hget, hentries]
    by_cases hkey : key = (entry.frontend, entry.wire)
    · rw [if_pos hkey]
      constructor
      · intro hid
        rw [if_pos (some.inj hid).symm]
        exact ⟨entry, rfl, hkey⟩
      · rintro ⟨found, hfound, hkey'⟩
        by_cases hother : other = id
        · rw [hother]
        · rw [if_neg hother] at hfound
          have hold := (hsound.wire_iff key other).mpr ⟨found, hfound, hkey'⟩
          rw [hkey, hwire] at hold
          cases hold
    · rw [if_neg hkey, hsound.wire_iff]
      constructor
      · rintro ⟨found, hfound, hkey'⟩
        have hother : other ≠ id := by
          rintro rfl
          rw [hfresh] at hfound
          cases hfound
        exact ⟨found, by rw [if_neg hother]; exact hfound, hkey'⟩
      · rintro ⟨found, hfound, hkey'⟩
        split_ifs at hfound with hother
        · exact absurd (some.inj hfound ▸ hkey') hkey
        · exact ⟨found, hfound, hkey'⟩
  · intro other found next hget hnext'
    have hnext' : next = id.value + 1 := eq_of_checkedAdd hnext'
    rw [hentries] at hget
    split_ifs at hget with hother
    · rw [hother, hnext']
      exact Nat.lt_succ_self _
    · have := hsound.exchange_lt other found id.value hget hnext
      omega
  · have hcount : (table.record id entry).ordinary =
        table.ordinary + if entry.pending.isOrdinary then 1 else 0 :=
      KeyMap.countP_insert (fun entry : Entry ↦ entry.pending.isOrdinary) hfresh
    have hbound := hsound.ordinary_le
    rw [hcount]
    split_ifs with hnew
    · exact hordinary hnew
    · exact hbound
  · intro c
    have hcount : (table.record id entry).reserved c =
        table.reserved c + if entry.pending.reserves c then 1 else 0 :=
      KeyMap.countP_insert (fun entry : Entry ↦ entry.pending.reserves c) hfresh
    rw [hcount]
    split_ifs with hnew
    · rw [hreserved c hnew]
    · exact hsound.reserved_le c

theorem Sound.admitExchange (hsound : table.Sound) (frontend : FrontendId) (wire : Value)
    (c : Class) (pending : Pending) :
    (table.admitExchange toString frontend wire c pending).2.Sound := by
  unfold Admissions.admitExchange
  split
  · exact hsound
  · exact hsound
  · rename_i reservedStop reservedSafetyStop id hcheck hnext
    obtain ⟨hwire, hreservations⟩ := check_ok hcheck
    refine hsound.record hnext hwire ?_ ?_
    · intro hordinary
      rcases hreservations with ⟨-, hroom⟩ | ⟨heq, -⟩ | ⟨heq, -⟩
      · exact hroom
      · cases heq
        simp [Pending.isOrdinary] at hordinary
      · cases heq
        simp [Pending.isOrdinary] at hordinary
    · intro other hreserves
      rcases hreservations with ⟨heq, -⟩ | ⟨heq, hnone⟩ | ⟨heq, hnone⟩ <;> cases heq <;>
        cases other <;> simp [Pending.reserves] at hreserves
      · exact hnone
      · exact hnone

end Wire

/-! ### Signals -/

/-- Two states of one entry with the same key and the same reservations. -/
def SameHold (entry after : Entry) : Prop :=
  after.frontend = entry.frontend ∧ after.wire = entry.wire ∧
    after.pending.reservedStop = entry.pending.reservedStop ∧
      after.pending.reservedSafetyStop = entry.pending.reservedSafetyStop

theorem sameHold_cancelled (entry : Entry) : SameHold entry entry.cancelled :=
  ⟨rfl, rfl, rfl, rfl⟩

/-- The operation only rewrites entries in place, by a function that keeps what they hold, and
registers nothing. -/
structure Signals (table after : Admissions) (f : ExchangeId → Entry → Entry) : Prop where
  hold : ∀ id entry, SameHold entry (f id entry)
  entries : after.entries.entries =
    table.entries.entries.map (fun entry ↦ (entry.1, f entry.1 entry.2))
  wire : after.wire = table.wire
  nextExchange : after.nextExchange = table.nextExchange
  nextFrontend : after.nextFrontend = table.nextFrontend
  ingressTake : after.ingressTake = table.ingressTake
  ingressSafety : after.ingressSafety = table.ingressSafety
  registered : (after.frontends.entries.map Prod.fst).Sublist
    (table.frontends.entries.map Prod.fst)

variable {after : Admissions} {f : ExchangeId → Entry → Entry}

theorem Signals.get (hsignals : Signals table after f) (id : ExchangeId) :
    after.entries.get id = (table.entries.get id).map (f id) := by
  ext found
  rw [KeyMap.get_eq_some_iff, hsignals.entries, Option.map_eq_some_iff, List.mem_map]
  constructor
  · rintro ⟨entry, hentry, heq⟩
    cases heq
    exact ⟨entry.2, KeyMap.get_eq_some_iff.mpr hentry, rfl⟩
  · rintro ⟨entry, hentry, rfl⟩
    exact ⟨(id, entry), KeyMap.get_eq_some_iff.mp hentry, rfl⟩

theorem Signals.countP (hsignals : Signals table after f) (p : Pending → Bool)
    (hp : ∀ id entry, p (f id entry).pending = p entry.pending) :
    after.entries.entries.countP (fun entry ↦ p entry.2.pending) =
      table.entries.entries.countP (fun entry ↦ p entry.2.pending) := by
  rw [hsignals.entries, countP_map]
  refine countP_congr fun entry _ ↦ ?_
  simp only [Function.comp_apply, hp]

theorem Sound.of_signals (hsound : table.Sound) (hsignals : Signals table after f) :
    after.Sound := by
  refine ⟨?_, ?_, ?_, ?_, ?_, ?_⟩
  · intro key id
    rw [hsignals.wire, hsound.wire_iff, hsignals.get]
    constructor
    · rintro ⟨entry, hentry, rfl⟩
      obtain ⟨hfrontend, hwire, -⟩ := hsignals.hold id entry
      exact ⟨f id entry, by rw [hentry]; rfl, by rw [hfrontend, hwire]⟩
    · rintro ⟨found, hfound, rfl⟩
      obtain ⟨entry, hentry, rfl⟩ := Option.map_eq_some_iff.mp hfound
      obtain ⟨hfrontend, hwire, -⟩ := hsignals.hold id entry
      exact ⟨entry, hentry, by rw [hfrontend, hwire]⟩
  · intro id found next hfound hnext
    rw [hsignals.get] at hfound
    obtain ⟨entry, hentry, -⟩ := Option.map_eq_some_iff.mp hfound
    exact hsound.exchange_lt id entry next hentry (hsignals.nextExchange ▸ hnext)
  · intro id departed next hget hnext
    have hmem : id ∈ after.frontends.entries.map Prod.fst :=
      mem_map_of_mem (KeyMap.get_eq_some_iff.mp hget)
    obtain ⟨entry, hentry, rfl⟩ := List.mem_map.mp (hsignals.registered.subset hmem)
    exact hsound.frontend_lt entry.1 entry.2 next (KeyMap.get_eq_some_iff.mpr hentry)
      (hsignals.nextFrontend ▸ hnext)
  · have hkeys : ∀ table : Admissions, table.outside =
        (table.frontends.entries.map Prod.fst).countP (fun id ↦ !table.privileged id) := by
      intro table
      rw [countP_map]
      rfl
    have hprivileged : after.privileged = table.privileged := by
      funext id
      simp only [privileged, hsignals.ingressTake, hsignals.ingressSafety]
    rw [hkeys, hprivileged]
    exact hsignals.registered.countP_le.trans ((hkeys table).symm.trans_le hsound.outside_le)
  · have hcount := hsignals.countP Pending.isOrdinary fun id entry ↦ by
      obtain ⟨-, -, hstop, hsafety⟩ := hsignals.hold id entry
      simp only [Pending.isOrdinary, hstop, hsafety]
    exact hcount.trans_le hsound.ordinary_le
  · intro c
    have hcount := hsignals.countP (fun pending ↦ pending.reserves c) fun id entry ↦ by
      obtain ⟨-, -, hstop, hsafety⟩ := hsignals.hold id entry
      cases c <;> simp only [Pending.reserves, hstop, hsafety]
    exact hcount.trans_le (hsound.reserved_le c)

section Wire

variable {Value : Type*} {toString : Value → String}

/-- A cancellation reaches at most the entry of its own key. -/
theorem signals_cancel (hsound : table.Sound) (frontend : FrontendId) (wire : Value) :
    ∃ f, Signals table (table.cancel toString frontend wire) f ∧
      ∀ id entry, table.entries.get id = some entry → entry.frontend ≠ frontend →
        f id entry = entry := by
  unfold Admissions.cancel
  cases hwire : table.wire.get (frontend, toString wire) with
  | none =>
    refine ⟨fun _ entry ↦ entry, ⟨fun _ _ ↦ ⟨rfl, rfl, rfl, rfl⟩, ?_, rfl, rfl, rfl, rfl, rfl,
      List.Sublist.refl _⟩, fun _ _ _ _ ↦ rfl⟩
    exact (map_id' _).symm
  | some target =>
    refine ⟨fun id entry ↦ if id = target then entry.cancelled else entry,
      ⟨?_, ?_, rfl, rfl, rfl, rfl, rfl, List.Sublist.refl _⟩, ?_⟩
    · intro id entry
      show SameHold entry (if id = target then entry.cancelled else entry)
      split_ifs
      · exact sameHold_cancelled entry
      · exact ⟨rfl, rfl, rfl, rfl⟩
    · refine map_congr_left fun entry _ ↦ ?_
      split_ifs <;> rfl
    · intro id entry hentry hfrontend
      refine if_neg fun hid ↦ ?_
      obtain ⟨found, hfound, hkey⟩ := (hsound.wire_iff _ _).mp hwire
      rw [← hid, hentry] at hfound
      cases hfound
      exact hfrontend (Prod.mk.inj hkey).1.symm

end Wire

theorem signals_depart (table : Admissions) (frontend : FrontendId) :
    Signals table (table.depart frontend) (fun _ entry ↦
      if entry.frontend = frontend then { entry with departed := true } else entry) := by
  refine ⟨?_, rfl, rfl, rfl, rfl, rfl, rfl, ?_⟩
  · intro _ entry
    split_ifs <;> exact ⟨rfl, rfl, rfl, rfl⟩
  · have hkeys : (table.depart frontend).frontends.entries.map Prod.fst =
        table.frontends.entries.map Prod.fst := by
      show List.map Prod.fst (List.map _ _) = _
      rw [List.map_map]
      refine map_congr_left fun entry _ ↦ ?_
      simp only [Function.comp_apply]
      split_ifs <;> rfl
    rw [hkeys]

theorem signals_disconnect (table : Admissions) (frontend : FrontendId) :
    Signals table (table.disconnect frontend) (fun _ entry ↦
      if entry.frontend = frontend then
        { entry.cancelled with
          departed := entry.departed || (table.frontends.get frontend).isSome }
      else entry) := by
  refine ⟨?_, rfl, rfl, rfl, rfl, rfl, rfl, KeyMap.filter_entries_sublist.map _⟩
  intro _ entry
  split_ifs <;> exact ⟨rfl, rfl, rfl, rfl⟩

theorem signals_close (table : Admissions) :
    Signals table table.close (fun _ entry ↦
      { entry.cancelled with
        departed := entry.departed || (table.frontends.get entry.frontend).isSome }) :=
  ⟨fun _ _ ↦ ⟨rfl, rfl, rfl, rfl⟩, rfl, rfl, rfl, rfl, rfl, rfl, nil_sublist _⟩

/-! ### Retirement -/

theorem Sound.retire (hsound : table.Sound) (id : ExchangeId) : (table.retire id).2.Sound := by
  unfold Admissions.retire
  cases hget : table.entries.get id with
  | none => exact hsound
  | some entry =>
    have hkey := (hsound.wire_iff (entry.frontend, entry.wire) id).mpr ⟨entry, hget, rfl⟩
    have hkept : ∀ other found, (table.entries.erase id).get other = some found →
        other ≠ id ∧ table.entries.get other = some found := by
      intro other found hfound
      rw [KeyMap.get_erase] at hfound
      split_ifs at hfound with hother
      exact ⟨hother, hfound⟩
    refine ⟨?_, ?_, hsound.frontend_lt, hsound.outside_le, ?_, ?_⟩
    · intro key other
      show (table.wire.erase (entry.frontend, entry.wire)).get key = some other ↔
        ∃ found, (table.entries.erase id).get other = some found ∧ _
      rw [KeyMap.get_erase]
      constructor
      · intro hwire
        split_ifs at hwire with hsame
        obtain ⟨found, hfound, rfl⟩ := (hsound.wire_iff key other).mp hwire
        refine ⟨found, ?_, rfl⟩
        rw [KeyMap.get_erase, if_neg ?_]
        · exact hfound
        · rintro rfl
          rw [hget] at hfound
          cases hfound
          exact hsame rfl
      · rintro ⟨found, hfound, rfl⟩
        obtain ⟨hother, hfound⟩ := hkept other found hfound
        have hwire := (hsound.wire_iff (found.frontend, found.wire) other).mpr ⟨found, hfound, rfl⟩
        rw [if_neg ?_]
        · exact hwire
        · intro hsame
          rw [hsame, hkey] at hwire
          exact hother (some.inj hwire).symm
    · intro other found next hfound hnext
      exact hsound.exchange_lt other found next (hkept other found hfound).2 hnext
    · exact (KeyMap.countP_erase_le (fun entry : Entry ↦ entry.pending.isOrdinary)).trans
        hsound.ordinary_le
    · intro c
      exact (KeyMap.countP_erase_le (fun entry : Entry ↦ entry.pending.reserves c)).trans
        (hsound.reserved_le c)

theorem Sound.retireFrontend (hsound : table.Sound) (frontend : FrontendId) :
    (table.retireFrontend frontend).2.Sound := by
  unfold Admissions.retireFrontend
  split_ifs
  · exact hsound
  · refine hsound.of_signals (f := fun _ entry ↦ entry) ⟨fun _ _ ↦ ⟨rfl, rfl, rfl, rfl⟩, ?_, rfl,
      rfl, rfl, rfl, rfl, KeyMap.filter_entries_sublist.map _⟩
    exact (map_id' _).symm

end Admissions

/-! ### Runs -/

section Runs

open Admissions

variable {Value : Type*} (toString : Value → String)

variable {table : Admissions} {c : Class} {frontend : FrontendId}

/-- Every operation keeps the invariant. -/
theorem sound_perform (hsound : table.Sound) (operation : Operation Value) :
    (table.perform toString operation).Sound := by
  cases operation with
  | frontendFor c => exact hsound.frontendFor c
  | admitExchange frontend wire c pending => exact hsound.admitExchange frontend wire c pending
  | cancel frontend wire =>
    obtain ⟨f, hsignals, -⟩ := signals_cancel hsound frontend wire
    exact hsound.of_signals hsignals
  | disconnect frontend => exact hsound.of_signals (signals_disconnect table frontend)
  | retire id => exact hsound.retire id
  | retireFrontend frontend => exact hsound.retireFrontend frontend
  | depart frontend => exact hsound.of_signals (signals_depart table frontend)
  | close => exact hsound.of_signals (signals_close table)

theorem sound_run (operations : List (Operation Value)) : (run toString operations).Sound := by
  have hfold : ∀ table : Admissions, table.Sound →
      (operations.foldl (Admissions.perform toString) table).Sound := by
    induction operations with
    | nil => exact fun _ hsound ↦ hsound
    | cons operation rest ih => exact fun table hsound ↦ ih _ (sound_perform toString hsound _)
  exact hfold Admissions.new sound_new

/-! ### Stops under load -/

/-- The frontend has an entry in the table of frontends. -/
def Registered (table : Admissions) (frontend : FrontendId) : Prop :=
  (table.frontends.get frontend).isSome = true

/-- The frontend is registered and has not departed. -/
def Connected (table : Admissions) (frontend : FrontendId) : Prop :=
  table.frontends.get frontend = some false

/-- The frontend is registered, and it has not departed or still owns a retained exchange. -/
def Occupied (table : Admissions) (frontend : FrontendId) : Prop :=
  Registered table frontend ∧
    (Connected table frontend ∨ table.hasFrontendJobs frontend = true)

/-- A stop class always gets in: it registers when no frontend of the first kind holds its ingress
slot, and it is admitted on a frontend of the second kind, under a new wire identity, when no entry
holds its reservation. -/
def StopAdmission (holder live : Admissions → FrontendId → Prop) (table : Admissions) : Prop :=
  ∀ c, c ≠ .ordinary → table.closing = false →
    (table.nextFrontend ≠ none → (∀ id, table.ingress c = some id → ¬ holder table id) →
      ∃ id, (table.frontendFor c).1 = .ok id ∧
        Connected (table.frontendFor c).2 id) ∧
    ∀ frontend (wire : Value) pending, table.nextExchange ≠ none → live table frontend →
      table.wire.get (frontend, toString wire) = none → table.reserved c = 0 →
        ∃ id entry, (table.admitExchange toString frontend wire c pending).1 = .ok id ∧
          (table.admitExchange toString frontend wire c pending).2.entries.get id = some entry ∧
          entry.frontend = frontend ∧ entry.wire = toString wire

/-- After reaping, the slot of a class is free unless an occupied frontend holds it. -/
theorem ingress_reap (hfree : ∀ id, table.ingress c = some id → ¬ Occupied table id) :
    table.reap.ingress c = none := by
  have hslot : table.reap.ingress c =
      (table.ingress c).filter (fun id ↦ (table.reap.frontends.get id).isSome) := by
    cases c <;> rfl
  rw [hslot, filter_eq_none_iff]
  intro id hid hkept
  obtain ⟨departed, hget⟩ := isSome_iff_exists.mp hkept
  have hfilter := KeyMap.get_retain table.frontends
    (fun id departed ↦ !departed || table.hasFrontendJobs id) id
  obtain ⟨hregistered, hkeep⟩ := filter_eq_some_iff.mp (hfilter.symm.trans hget)
  refine hfree id hid ⟨isSome_iff_exists.mpr ⟨departed, hregistered⟩, ?_⟩
  cases departed with
  | false => exact Or.inl hregistered
  | true => exact Or.inr (by simpa using hkeep)

/-- A stop class with a free slot registers. Assumes: the table is not closing and has an identity
left. -/
theorem frontendFor_stop (hclass : c ≠ .ordinary) (hclosing : table.closing = false)
    (hnext : table.nextFrontend ≠ none)
    (hfree : ∀ id, table.ingress c = some id → ¬ Occupied table id) :
    ∃ id, (table.frontendFor c).1 = .ok id ∧ Connected (table.frontendFor c).2 id := by
  obtain ⟨id, hid⟩ := ne_none_iff_exists'.mp hnext
  have hslot := ingress_reap hfree
  have hrefuses : table.reap.refuses c = false := by
    cases c with
    | ordinary => exact absurd rfl hclass
    | takeStop =>
      have hnone : table.reap.ingressTake = none := hslot
      simp [refuses, hnone]
    | safetyStop =>
      have hnone : table.reap.ingressSafety = none := hslot
      simp [refuses, hnone]
  have hreap : table.reap.nextFrontend = some id := hid
  have hresult : table.frontendFor c = (.ok ⟨id⟩, table.reap.register c ⟨id⟩) := by
    simp [Admissions.frontendFor, hclosing, hrefuses, hreap]
  rw [hresult]
  refine ⟨⟨id⟩, rfl, ?_⟩
  have hget := KeyMap.get_insert table.reap.frontends ⟨id⟩ false ⟨id⟩
  rwa [if_pos rfl] at hget

/-- A stop class is admitted while nothing holds its reservation. Assumes: the table is not closing
and has an identity left, the frontend is connected and the wire identity is new. -/
theorem admit_stop {wire : Value} (pending : Pending) (hclass : c ≠ .ordinary)
    (hclosing : table.closing = false) (hnext : table.nextExchange ≠ none)
    (hconnected : Connected table frontend)
    (hwire : table.wire.get (frontend, toString wire) = none) (hreserved : table.reserved c = 0) :
    ∃ id entry, (table.admitExchange toString frontend wire c pending).1 = .ok id ∧
      (table.admitExchange toString frontend wire c pending).2.entries.get id = some entry ∧
      entry.frontend = frontend ∧ entry.wire = toString wire := by
  obtain ⟨id, hid⟩ := ne_none_iff_exists'.mp hnext
  have hcheck : ∃ reservations, table.check toString frontend wire c = .ok reservations := by
    have hget : table.frontends.get frontend = some false := hconnected
    by_cases hroom : table.ordinary < ORDINARY_FRONTEND_JOBS
    · exact ⟨_, by simp [check, hclosing, hget, hid, hwire, hroom]; rfl⟩
    · have hany : ∀ entry ∈ table.entries.entries, ¬ entry.2.pending.reserves c = true :=
        countP_eq_zero.mp hreserved
      cases c with
      | ordinary => exact absurd rfl hclass
      | takeStop =>
        refine ⟨(true, false), ?_⟩
        have hnone : table.entries.entries.any (fun entry ↦ entry.2.pending.reservedStop) =
            false := any_eq_false.mpr hany
        simp [check, hclosing, hget, hid, hwire, hroom, hnone]
      | safetyStop =>
        refine ⟨(false, true), ?_⟩
        have hnone : table.entries.entries.any (fun entry ↦ entry.2.pending.reservedSafetyStop) =
            false := any_eq_false.mpr hany
        simp [check, hclosing, hget, hid, hwire, hroom, hnone]
  obtain ⟨⟨reservedStop, reservedSafetyStop⟩, hcheck⟩ := hcheck
  let entry : Entry :=
    { frontend := frontend
      wire := toString wire
      pending := { pending with
        reservedStop := reservedStop
        reservedSafetyStop := reservedSafetyStop }
      departed := (table.frontends.get frontend).getD false }
  have hadmitted : table.admitExchange toString frontend wire c pending =
      (.ok ⟨id⟩, table.record ⟨id⟩ entry) := by
    simp only [Admissions.admitExchange, hcheck, hid, entry]
  rw [hadmitted]
  refine ⟨⟨id⟩, entry, rfl, ?_, rfl, rfl⟩
  exact (KeyMap.get_insert table.entries ⟨id⟩ entry ⟨id⟩).trans (if_pos rfl)

/-! ### The guarantees of the table -/

/-- A duplicate is refused only for a live exchange of the same frontend. -/
theorem check_duplicate (hsound : table.Sound) {wire : Value}
    (hcheck : table.check toString frontend wire c = .error .duplicate) :
    ∃ id entry, table.entries.get id = some entry ∧ entry.frontend = frontend ∧
      entry.wire = toString wire := by
  have hsome : (table.wire.get (frontend, toString wire)).isSome = true := by
    by_contra hnone
    unfold check at hcheck
    cases c <;> simp only at hcheck <;> split_ifs at hcheck <;> cases hcheck
  obtain ⟨id, hid⟩ := isSome_iff_exists.mp hsome
  obtain ⟨entry, hentry, hkey⟩ := (hsound.wire_iff _ _).mp hid
  obtain ⟨rfl, hwire⟩ := Prod.mk.inj hkey
  exact ⟨id, entry, hentry, rfl, hwire.symm⟩

/-- Signalling one frontend: nothing is removed, every entry keeps its key and its reservation, and
the entries of other frontends are untouched. -/
def OnlySignals (table after : Admissions) (frontend : FrontendId) : Prop :=
  after.wire = table.wire ∧
  (∀ id, table.entries.get id = none → after.entries.get id = none) ∧
  ∀ id entry, table.entries.get id = some entry →
    ∃ signalled, after.entries.get id = some signalled ∧ SameHold entry signalled ∧
      (entry.frontend ≠ frontend → signalled = entry)

theorem Admissions.Signals.onlySignals {after : Admissions} {f : ExchangeId → Entry → Entry}
    (hsignals : Signals table after f)
    (hother : ∀ id entry, table.entries.get id = some entry → entry.frontend ≠ frontend →
      f id entry = entry) : OnlySignals table after frontend := by
  refine ⟨hsignals.wire, fun id hid ↦ ?_, fun id entry hentry ↦ ?_⟩
  · rw [hsignals.get, hid]
    rfl
  · refine ⟨f id entry, ?_, hsignals.hold id entry, hother id entry hentry⟩
    rw [hsignals.get, hentry]
    rfl

/-- After every sequence of operations. First, the wire map and the entries are inverse to each
other: every live exchange is found under its frontend and wire identity and under no other key, no
two live exchanges of one frontend share a wire identity, and a wire identity is refused as a
duplicate only for a live exchange of the same frontend. Second, the bounds on entries and
registrations. Third, a stop class registers unless an occupied frontend holds its ingress slot, and
is admitted on a connected frontend unless an entry holds its reservation. Fourth, a cancellation or
a disconnection only signals, and only entries of its frontend. -/
theorem admission_table (operations : List (Operation Value)) :
    ((∀ key id, (run toString operations).wire.get key = some id ↔
        ∃ entry, (run toString operations).entries.get id = some entry ∧
          key = (entry.frontend, entry.wire)) ∧
      (∀ id entry other found, (run toString operations).entries.get id = some entry →
        (run toString operations).entries.get other = some found →
        found.frontend = entry.frontend → found.wire = entry.wire → other = id) ∧
      ∀ frontend wire c,
        (run toString operations).check toString frontend wire c = .error .duplicate →
          ∃ id entry, (run toString operations).entries.get id = some entry ∧
            entry.frontend = frontend ∧ entry.wire = toString wire) ∧
    ((run toString operations).ordinary ≤ ORDINARY_FRONTEND_JOBS ∧
      (run toString operations).reserved .takeStop ≤ 1 ∧
      (run toString operations).reserved .safetyStop ≤ 1 ∧
      (run toString operations).frontends.entries.length ≤ 130) ∧
    StopAdmission toString Occupied Connected (run toString operations) ∧
    (∀ frontend wire, OnlySignals (run toString operations)
      ((run toString operations).cancel toString frontend wire) frontend) ∧
    ∀ frontend, OnlySignals (run toString operations)
      ((run toString operations).disconnect frontend) frontend := by
  have hsound := sound_run toString operations
  refine ⟨⟨hsound.wire_iff, ?_, fun _ _ _ ↦ check_duplicate toString hsound⟩,
    ⟨hsound.ordinary_le, hsound.reserved_le _, hsound.reserved_le _, ?_⟩, ?_, ?_, ?_⟩
  · intro id entry other found hentry hfound hfrontend hwire
    have hid := (hsound.wire_iff (entry.frontend, entry.wire) id).mpr ⟨entry, hentry, rfl⟩
    have hother := (hsound.wire_iff (entry.frontend, entry.wire) other).mpr
      ⟨found, hfound, by rw [hfrontend, hwire]⟩
    rw [hid] at hother
    exact (some.inj hother).symm
  · have hlength := length_frontends_le (run toString operations)
    have houtside := hsound.outside_le
    omega
  · intro c hclass hclosing
    refine ⟨fun hnext hfree ↦ frontendFor_stop hclass hclosing hnext hfree, ?_⟩
    intro frontend wire pending hnext hconnected hwire hreserved
    exact admit_stop toString pending hclass hclosing hnext hconnected hwire hreserved
  · intro frontend wire
    obtain ⟨f, hsignals, hother⟩ := signals_cancel hsound frontend wire
    exact hsignals.onlySignals hother
  · intro frontend
    refine (signals_disconnect _ frontend).onlySignals fun id entry _ hfrontend ↦ ?_
    exact if_neg hfrontend

end Runs

/-- Work without signals or media. -/
def stopWork : Pending where
  reservedStop := false
  reservedSafetyStop := false
  frontendCancelled := false
  cancel := false
  media := none

/-- A full table whose take slot belongs to a departed frontend with a retained exchange. -/
def departedTake : List (Operation String) :=
  List.replicate 128 (.frontendFor .ordinary) ++
    [.frontendFor .takeStop, .admitExchange ⟨128⟩ "1" .takeStop stopWork, .depart ⟨128⟩]

/-- The state of that table, and its refusals. -/
theorem departedTake_refuses :
    (run id departedTake).closing = false ∧ (run id departedTake).nextFrontend ≠ none ∧
      (run id departedTake).nextExchange ≠ none ∧
      (run id departedTake).ingressTake = some ⟨128⟩ ∧
      (run id departedTake).frontends.get ⟨128⟩ = some true ∧
      (run id departedTake).wire.get (⟨128⟩, "2") = none ∧
      (run id departedTake).reserved .takeStop = 0 ∧
      ((run id departedTake).frontendFor .takeStop).1.toOption = none ∧
      ((run id departedTake).admitExchange id ⟨128⟩ "2" .takeStop stopWork).1.toOption = none := by
  decide +kernel

/-- A departed frontend with a retained exchange keeps its ingress slot but admits nothing, so
neither reading of a live frontend, registered or connected, serves both halves of the admission of
stops. -/
theorem stop_refused_after_departure :
    ¬ (∀ operations, StopAdmission id Connected Connected (run (id : String → String)
        operations)) ∧
      ¬ ∀ operations, StopAdmission id Registered Registered (run (id : String → String)
        operations) := by
  obtain ⟨hclosing, hfrontend, hexchange, htake, hdeparted, hwire, hreserved, hregister,
    hadmitted⟩ := departedTake_refuses
  constructor
  · intro hall
    obtain ⟨hregisters, -⟩ := hall departedTake .takeStop (by decide) hclosing
    obtain ⟨frontend, hok, -⟩ := hregisters hfrontend fun frontend hslot hconnected ↦ by
      cases hslot.symm.trans htake
      cases hconnected.symm.trans hdeparted
    rw [hok] at hregister
    cases hregister
  · intro hall
    obtain ⟨-, hadmits⟩ := hall departedTake .takeStop (by decide) hclosing
    have hregistered : Registered (run id departedTake) ⟨128⟩ :=
      isSome_iff_exists.mpr ⟨true, hdeparted⟩
    obtain ⟨exchange, entry, hok, -⟩ :=
      hadmits ⟨128⟩ "2" stopWork hexchange hregistered hwire hreserved
    rw [hok] at hadmitted
    cases hadmitted

end ObsMcp.Host
