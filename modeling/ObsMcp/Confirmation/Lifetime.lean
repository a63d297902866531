import Mathlib.Algebra.Order.BigOperators.Group.List
import Mathlib.Data.List.Pairwise
import ObsMcp.Confirmation.Continuations

/-!
# The lifetime of a confirmation

`Continuations.Accounted` is the invariant of the table: the byte count is the sum of the charges
and within the bounds, and every entry sits under the key of its own sequence number. From an
accounted table no call fails an `expect`, and `Continuations.Effect` lists what a call can do
(`exec_effect`): refuse, add an entry, hand one out, or drop some. `History.Sound` follows the
tickets through a run: each challenge is issued once and its payload handed out at most once.

A token that is past its deadline is dropped by `takeModern` before its binding is looked at.
`Continuations.Foreign` names the calls this concerns and `continuation_lifetime` states what holds
in every run, and what more holds in the runs in which no foreign call meets an overdue entry.
-/

namespace ObsMcp.Confirmation

open Foundations List

variable {T : Type}

namespace Continuations

variable {owner : Continuations T} {platform : Platform}

/-! ### The invariant of the table -/

/-- A sequence number that was given out. -/
def Used (owner : Continuations T) (sequence : ℕ) : Prop :=
  ∀ next, owner.next = some next → sequence < next

/-- The sum of the byte charges. -/
def charges (pending : KeyMap String (Pending T)) : ℕ :=
  (pending.entries.map (fun entry ↦ entry.2.bytes)).sum

/-- The table keeps its books: byte count, bounds, distinct originals and numbered keys. -/
structure Accounted (owner : Continuations T) : Prop where
  bytes_eq : owner.bytes = charges owner.pending
  bytes_le : owner.bytes ≤ owner.bounds.bytes
  items_le : owner.pending.entries.length ≤ owner.bounds.items
  originals : owner.pending.entries.Pairwise (fun a b ↦ (a.2.original == b.2.original) = false)
  numbered : ∀ entry ∈ owner.pending.entries, ∃ sequence, owner.Used sequence ∧
    entry.1 = keyOf owner.nonce sequence ∧
      (entry.2.challenge = .modern entry.1 ∨ entry.2.challenge = .legacy sequence)

/-- The key of a sequence number determines the number. -/
theorem keyOf_injective {nonce : String} {m n : ℕ} (hkey : keyOf nonce m = keyOf nonce n) :
    m = n := by
  unfold keyOf at hkey
  rw [String.append_right_inj, String.append_right_inj, String.append_right_inj] at hkey
  have hdigits : Nat.toDigits 10 m = Nat.toDigits 10 n := String.ofList_injective hkey
  rw [← Nat.ofDigitChars_toDigits (b := 10) (n := m) (by decide) (by decide), hdigits,
    Nat.ofDigitChars_toDigits (by decide) (by decide)]

theorem Accounted.withNonce (nonce : String) (bounds : Bounds) :
    (withNonce nonce bounds : Continuations T).Accounted where
  bytes_eq := rfl
  bytes_le := Nat.zero_le _
  items_le := Nat.zero_le _
  originals := List.Pairwise.nil
  numbered := by simp [Continuations.withNonce]

theorem Accounted.disabled : (disabled : Continuations T).Accounted where
  bytes_eq := rfl
  bytes_le := Nat.zero_le _
  items_le := Nat.zero_le _
  originals := List.Pairwise.nil
  numbered := by simp [Continuations.disabled, Continuations.withNonce]

variable {a b : String × Pending T} {sequence : ℕ}

section

variable (howner : owner.Accounted) (ha : a ∈ owner.pending.entries)
  (hb : b ∈ owner.pending.entries)
include howner ha hb

/-- Two entries with one challenge are the same entry. -/
theorem Accounted.eq_of_challenge (hchallenge : a.2.challenge = b.2.challenge) : a = b := by
  obtain ⟨m, -, hakey, hachallenge⟩ := howner.numbered a ha
  obtain ⟨n, -, hbkey, hbchallenge⟩ := howner.numbered b hb
  have hkey : a.1 = b.1 := by
    rcases hachallenge with hachallenge | hachallenge <;>
      rcases hbchallenge with hbchallenge | hbchallenge <;>
      rw [hachallenge, hbchallenge] at hchallenge
    · exact Challenge.modern.inj hchallenge
    · exact absurd hchallenge (by simp)
    · exact absurd hchallenge (by simp)
    · rw [hakey, hbkey, Challenge.legacy.inj hchallenge]
  exact inj_on_of_nodup_map owner.pending.distinct ha hb hkey

/-- Two entries with equal originals are the same entry. -/
theorem Accounted.eq_of_original (horiginal : (a.2.original == b.2.original) = true) : a = b := by
  by_contra hne
  have hsymm : Std.Symm (fun a b : String × Pending T ↦
      (a.2.original == b.2.original) = false) := ⟨fun a b hab ↦ by
    rw [← hab]
    exact Json.beq_comm _ _⟩
  have := List.Pairwise.forall howner.originals ha hb hne
  rw [horiginal] at this
  exact absurd this (by simp)

end

/-- The table without some keys. -/
def without (owner : Continuations T) (keys : List String) : Continuations T :=
  { owner with
    pending := owner.pending.filter (fun key ↦ key ∉ keys)
    bytes := charges (owner.pending.filter (fun key ↦ key ∉ keys)) }

theorem mem_without {keys : List String} {entry : String × Pending T} :
    entry ∈ (owner.without keys).pending.entries ↔
      entry ∈ owner.pending.entries ∧ entry.1 ∉ keys := by
  simp [without]

theorem Accounted.without (howner : owner.Accounted) (keys : List String) :
    (owner.without keys).Accounted where
  bytes_eq := rfl
  bytes_le := by
    refine Nat.le_trans ?_ howner.bytes_le
    rw [howner.bytes_eq]
    exact List.Sublist.sum_le_sum (KeyMap.filter_entries_sublist.map _) (by simp)
  items_le := Nat.le_trans KeyMap.filter_entries_sublist.length_le howner.items_le
  originals := howner.originals.sublist KeyMap.filter_entries_sublist
  numbered := fun entry hentry ↦ howner.numbered entry (mem_without.mp hentry).1

/-! ### What a call does -/

/-- Removing a key of a table that keeps its books never fails. -/
theorem remove_eq (hbytes : owner.bytes = charges owner.pending) (key : String) :
    owner.remove key = .ok (owner.pending.get key, owner.without [key]) := by
  unfold remove
  cases hget : owner.pending.get key with
  | none =>
    have hentries : (owner.pending.filter (fun other ↦ other ∉ [key])).entries =
        owner.pending.entries := by
      rw [KeyMap.get_eq_none_iff] at hget
      simpa [KeyMap.filter] using hget
    have hsame : owner.pending.filter (fun other ↦ other ∉ [key]) = owner.pending :=
      KeyMap.ext hentries
    have howner : owner.without [key] = owner := by
      unfold without
      rw [hsame, ← hbytes]
    simp only [howner]
  | some entry =>
    have herase : owner.pending.filter (fun other ↦ other ∉ [key]) = owner.pending.erase key := by
      simp [KeyMap.erase]
    have hsum : owner.bytes = charges (owner.pending.erase key) + entry.bytes := by
      rw [hbytes]
      exact KeyMap.sum_erase (fun entry ↦ entry.bytes) hget
    have hle : entry.bytes ≤ owner.bytes := by omega
    have hleft : owner.bytes - entry.bytes = charges (owner.pending.erase key) := by omega
    simp only [checkedSub_of_le hle, without, herase, hleft]

/-- Removing keys one after the other drops them all and reports what was dropped. -/
theorem removeAll_eq (hbytes : owner.bytes = charges owner.pending) (keys : List String) :
    ∃ removed, owner.removeAll keys = .ok (removed, owner.without keys) ∧
      ∀ entry ∈ owner.pending.entries, entry.1 ∈ keys →
        ∃ gone ∈ removed, gone.challenge = entry.2.challenge ∧ gone.call = entry.2.call := by
  induction keys generalizing owner with
  | nil =>
    have hsame : owner.pending.filter (fun other ↦ other ∉ ([] : List String)) = owner.pending :=
      KeyMap.ext (by simp [KeyMap.filter])
    have howner : owner.without [] = owner := by
      unfold without
      rw [hsame, ← hbytes]
    exact ⟨[], by rw [howner]; rfl, by simp⟩
  | cons key keys ih =>
    obtain ⟨rest, hrest, hgone⟩ := @ih (owner.without [key]) rfl
    have hkeys : (owner.without [key]).without keys = owner.without (key :: keys) := by
      have hentries : ((owner.pending.filter (fun other ↦ other ∉ [key])).filter
          (fun other ↦ other ∉ keys)) = owner.pending.filter (fun other ↦ other ∉ key :: keys) := by
        refine KeyMap.ext ?_
        simp only [KeyMap.filter, filter_filter]
        refine filter_congr fun entry _ ↦ ?_
        by_cases h₁ : entry.1 = key <;> by_cases h₂ : entry.1 ∈ keys <;> simp [h₁, h₂]
      simp only [without, hentries]
    rw [hkeys] at hrest
    refine ⟨((owner.pending.get key).map
      (fun entry ↦ (⟨entry.challenge, entry.call⟩ : Removed T))).toList ++ rest, ?_, ?_⟩
    · simp only [removeAll, remove_eq hbytes key, hrest, bind, Except.bind, pure, Except.pure]
    · intro entry hentry hkey
      by_cases hhead : entry.1 = key
      · have hget : owner.pending.get key = some entry.2 := by
          rw [KeyMap.get_eq_some_iff, ← hhead]
          exact hentry
        refine ⟨⟨entry.2.challenge, entry.2.call⟩, ?_, rfl, rfl⟩
        simp [hget]
      · have htail : entry.1 ∈ keys := by
          rcases mem_cons.mp hkey with h | h
          · exact absurd h hhead
          · exact h
        obtain ⟨gone, hmem, heq⟩ :=
          hgone entry (mem_without.mpr ⟨hentry, by simpa using hhead⟩) htail
        exact ⟨gone, mem_append_right _ hmem, heq⟩

/-- What a call can do to a table that keeps its books. -/
inductive Effect (platform : Platform) (owner : Continuations T) :
    Call T → Reply T → Continuations T → Prop
  | issueRefused {original : Json} {binding : Binding} {call : T} {retained : ℕ} {legacy : Bool}
      {now : ℕ} {refusal : Refusal × T} :
      Effect platform owner (.issue original binding call retained legacy now)
        (.issued (.error refusal)) owner
  | issued {original : Json} {binding : Binding} {call : T} {retained : ℕ} {legacy : Bool}
      {now sequence bytes : ℕ} {challenge : Challenge}
      (hnext : owner.next = some sequence)
      (hchallenge : challenge =
        if legacy then .legacy sequence else .modern (keyOf owner.nonce sequence))
      (hitems : owner.pending.entries.length < owner.bounds.items)
      (hbytes : owner.bytes + bytes ≤ owner.bounds.bytes)
      (horiginal : owner.containsOriginal original = false) :
      Effect platform owner (.issue original binding call retained legacy now)
        (.issued (.ok challenge))
        { owner with
          next := if sequence + 1 ≤ MAX_ID then some (sequence + 1) else none
          pending := owner.pending.insert (keyOf owner.nonce sequence)
            ⟨original, binding, challenge, now + owner.bounds.lifetime, bytes, call⟩
          bytes := owner.bytes + bytes }
  | modernRefused {state : String} {binding : Binding} {now : ℕ}
      (hdeadline : ∀ entry, owner.pending.get state = some entry → now < entry.deadline) :
      Effect platform owner (.takeModern state binding now) (.modern (.error .invalidState)) owner
  | modernExpired {state : String} {binding : Binding} {now : ℕ} {entry : Pending T}
      (hget : owner.pending.get state = some entry) (hdeadline : entry.deadline ≤ now) :
      Effect platform owner (.takeModern state binding now) (.modern (.error .expired))
        (owner.without [state])
  | modern {state : String} {now : ℕ} {entry : Pending T}
      (hget : owner.pending.get state = some entry) (hdeadline : now < entry.deadline)
      (hchallenge : entry.challenge = .modern state) :
      Effect platform owner (.takeModern state entry.binding now) (.modern (.ok entry.call))
        (owner.without [state])
  | legacyRefused {frame : Json} {now : ℕ} {owns : T → Bool} :
      Effect platform owner (.takeLegacyFor frame now owns) (.legacy none) owner
  | legacy {frame : Json} {now id : ℕ} {owns : T → Bool} {key : String} {entry : Pending T}
      (hid : legacyId frame = some id) (hget : owner.pending.get key = some entry)
      (hchallenge : entry.challenge = .legacy id) :
      Effect platform owner (.takeLegacyFor frame now owns)
        (.legacy (some (entry.call, legacyAnswer frame))) (owner.without [key])
  | swept {call : Call T} {removed : List (Removed T)} {keys : List String}
      (hcall : (∃ now, call = .expire now) ∨ ∃ original, call = .cancel original)
      (hremoved : ∀ entry ∈ owner.pending.entries, entry.1 ∈ keys →
        ∃ gone ∈ removed, gone.challenge = entry.2.challenge ∧ gone.call = entry.2.call) :
      Effect platform owner call (.removed removed) (owner.without keys)

/-- The total of a charge is the byte count with the charge added. -/
theorem charge_total {key : String} {retained bytes total : ℕ}
    (hcharge : owner.charge platform key retained = some (bytes, total)) :
    total = owner.bytes + bytes := by
  simp only [charge, bind, pure, Option.bind_eq_some_iff] at hcharge
  obtain ⟨withKey, -, charged, -, sum, hsum, heq⟩ := hcharge
  cases heq
  exact eq_of_checkedAdd hsum

theorem issue_effect (original : Json) (binding : Binding) (call : T) (retained : ℕ)
    (legacy : Bool) (now : ℕ) :
    Effect platform owner (.issue original binding call retained legacy now)
      (.issued (owner.issue platform original binding call retained legacy now).1)
      (owner.issue platform original binding call retained legacy now).2 := by
  unfold issue
  cases hnext : owner.next with
  | none => exact .issueRefused
  | some sequence =>
    simp only
    cases hcharge : owner.charge platform (keyOf owner.nonce sequence) retained with
    | none => exact .issueRefused
    | some pair =>
      obtain ⟨bytes, total⟩ := pair
      simp only
      by_cases hfull : owner.bounds.items ≤ owner.pending.entries.length ∨
          owner.bounds.bytes < total ∨ owner.containsOriginal original = true
      · simp only [if_pos hfull]
        exact .issueRefused
      · simp only [if_neg hfull]
        push Not at hfull
        obtain ⟨hitems, hbytes, horiginal⟩ := hfull
        cases hafter : platform.after now owner.bounds.lifetime with
        | none => exact .issueRefused
        | some deadline =>
          have hdeadline : deadline = now + owner.bounds.lifetime := by
            unfold Platform.after at hafter
            split_ifs at hafter
            exact (Option.some.inj hafter).symm
          have htotal := charge_total hcharge
          subst hdeadline htotal
          exact .issued hnext rfl hitems hbytes (by simpa using horiginal)

theorem takeModern_effect (platform : Platform) (hbytes : owner.bytes = charges owner.pending)
    (state : String)
    (binding : Binding) (now : ℕ) :
    ∃ result owner', owner.takeModern state binding now = .ok (result, owner') ∧
      Effect platform owner (.takeModern state binding now) (.modern result) owner' := by
  unfold takeModern
  cases hget : owner.pending.get state with
  | none => exact ⟨_, _, rfl, .modernRefused (by simp [hget])⟩
  | some entry =>
    simp only [remove_eq hbytes, hget]
    split_ifs with hdeadline hbinding
    · exact ⟨_, _, rfl, .modernExpired hget hdeadline⟩
    · exact ⟨_, _, rfl, .modernRefused (by simpa [hget] using hdeadline)⟩
    · push Not at hbinding hdeadline
      obtain ⟨rfl, hchallenge⟩ := hbinding
      exact ⟨_, _, rfl, .modern hget hdeadline hchallenge⟩

theorem takeLegacyFor_effect (platform : Platform) (hbytes : owner.bytes = charges owner.pending)
    (frame : Json)
    (now : ℕ) (owns : T → Bool) :
    ∃ result owner', owner.takeLegacyFor frame now owns = .ok (result, owner') ∧
      Effect platform owner (.takeLegacyFor frame now owns) (.legacy result) owner' := by
  unfold takeLegacyFor
  cases hid : legacyId frame with
  | none => exact ⟨_, _, rfl, .legacyRefused⟩
  | some id =>
    simp only
    cases hfind : owner.pending.entries.find? (fun entry ↦
        entry.2.challenge = .legacy id ∧ owns entry.2.call) with
    | none => exact ⟨_, _, rfl, .legacyRefused⟩
    | some pair =>
      obtain ⟨key, entry⟩ := pair
      have hget : owner.pending.get key = some entry :=
        KeyMap.get_eq_some_iff.mpr (mem_of_find?_eq_some hfind)
      have hmatch : entry.challenge = .legacy id ∧ owns entry.call = true := by
        simpa using find?_some hfind
      simp only [remove_eq hbytes, hget]
      split_ifs with hdeadline
      · exact ⟨_, _, rfl, .legacyRefused⟩
      · exact ⟨_, _, rfl, .legacy hid hget hmatch.1⟩

/-- No call of a table that keeps its books fails, and each has one of the effects. -/
theorem exec_effect (platform : Platform) (howner : owner.Accounted) (call : Call T) :
    ∃ reply owner', owner.exec platform call = .ok (reply, owner') ∧
      Effect platform owner call reply owner' := by
  cases call with
  | issue original binding call retained legacy now => exact ⟨_, _, rfl, issue_effect ..⟩
  | takeModern state binding now =>
    obtain ⟨result, owner', htake, heffect⟩ :=
      takeModern_effect platform howner.bytes_eq state binding now
    exact ⟨_, _, by simp only [exec, htake]; rfl, heffect⟩
  | takeLegacyFor frame now owns =>
    obtain ⟨result, owner', htake, heffect⟩ :=
      takeLegacyFor_effect platform howner.bytes_eq frame now owns
    exact ⟨_, _, by simp only [exec, htake]; rfl, heffect⟩
  | expire now =>
    obtain ⟨removed, hremove, hgone⟩ :=
      removeAll_eq howner.bytes_eq (owner.keysWhere fun entry ↦ entry.deadline ≤ now)
    exact ⟨_, _, by simp only [exec, expire, hremove]; rfl, .swept (.inl ⟨now, rfl⟩) hgone⟩
  | cancel original =>
    obtain ⟨removed, hremove, hgone⟩ :=
      removeAll_eq howner.bytes_eq (owner.keysWhere fun entry ↦ entry.original == original)
    exact ⟨_, _, by simp only [exec, cancel, hremove]; rfl, .swept (.inr ⟨original, rfl⟩) hgone⟩

/-- The number of a fresh entry has no entry yet. -/
theorem Accounted.get_next (howner : owner.Accounted) (hnext : owner.next = some sequence) :
    owner.pending.get (keyOf owner.nonce sequence) = none := by
  rw [KeyMap.get_eq_none_iff]
  intro entry hentry hkey
  obtain ⟨number, hused, hnumber, -⟩ := howner.numbered entry hentry
  have hsame := keyOf_injective (hnumber.symm.trans hkey)
  have := hused sequence hnext
  omega

/-- Numbers that were given out stay given out when the counter advances. -/
theorem used_advance {number next : ℕ} (hused : number = sequence ∨ owner.Used number)
    (hnext : owner.next = some sequence)
    (hadvance : (if sequence + 1 ≤ MAX_ID then some (sequence + 1) else none) = some next) :
    number < next := by
  split_ifs at hadvance
  have hsucc := Option.some.inj hadvance
  rcases hused with rfl | hused
  · omega
  · have := hused sequence hnext
    omega

/-- Every effect keeps the books. -/
theorem Effect.accounted {call : Call T} {reply : Reply T} {owner' : Continuations T}
    (heffect : Effect platform owner call reply owner') (howner : owner.Accounted) :
    owner'.Accounted := by
  cases heffect with
  | issueRefused | modernRefused _ | legacyRefused => exact howner
  | modernExpired hget hdeadline => exact howner.without _
  | modern hget hdeadline hchallenge => exact howner.without _
  | legacy hid hget hchallenge => exact howner.without _
  | swept hcall hremoved => exact howner.without _
  | @issued original binding payload retained legacy now sequence bytes challenge hnext hchallenge
      hitems hbytes horiginal =>
    have hfresh := howner.get_next hnext
    have hentries := KeyMap.insert_entries_of_get_none hfresh
      ⟨original, binding, challenge, now + owner.bounds.lifetime, bytes, payload⟩
    refine ⟨?_, hbytes, ?_, ?_, ?_⟩
    · show owner.bytes + bytes = charges _
      rw [charges, hentries, howner.bytes_eq]
      simp [charges]
    · show List.length _ ≤ owner.bounds.items
      rw [hentries, length_append]
      exact hitems
    · show List.Pairwise _ _
      rw [hentries, pairwise_append]
      refine ⟨howner.originals, pairwise_singleton _ _, fun a ha b hb ↦ ?_⟩
      rw [mem_singleton] at hb
      subst hb
      simp only [containsOriginal, any_eq_false] at horiginal
      simpa using horiginal a ha
    · intro entry hentry
      rw [hentries] at hentry
      rcases mem_append.mp hentry with hold | hnew
      · obtain ⟨number, hused, hkey, hnumber⟩ := howner.numbered entry hold
        exact ⟨number, fun next hadvance ↦ used_advance (.inr hused) hnext hadvance, hkey, hnumber⟩
      · rw [mem_singleton] at hnew
        subst hnew
        refine ⟨sequence, fun next hadvance ↦ used_advance (.inl rfl) hnext hadvance, rfl, ?_⟩
        show challenge = _ ∨ challenge = _
        rw [hchallenge]
        cases legacy
        · exact .inl rfl
        · exact .inr rfl

end Continuations

/-! ### Tickets -/

namespace History

open Continuations

variable {platform : Platform} {history : History T}

/-- A challenge of the table with a given sequence number. -/
def IsChallenge (nonce : String) (sequence : ℕ) (challenge : Challenge) : Prop :=
  challenge = .modern (keyOf nonce sequence) ∨ challenge = .legacy sequence

theorem IsChallenge.eq_of_eq {nonce : String} {m n : ℕ} {challenge : Challenge}
    (hm : IsChallenge nonce m challenge) (hn : IsChallenge nonce n challenge) : m = n := by
  rcases hm with rfl | rfl <;> rcases hn with hn | hn
  · exact keyOf_injective (Challenge.modern.inj hn)
  · exact absurd hn (by simp)
  · exact absurd hn (by simp)
  · exact Challenge.legacy.inj hn

/-- The tickets of a run: every entry of the table was issued, each challenge once, and each payload
was handed out at most once and is then no longer in the table. -/
structure Sound (history : History T) : Prop where
  accounted : history.owner.Accounted
  tickets : ∀ entry ∈ history.owner.pending.entries, entry.2.ticket ∈ history.issued
  numbered : ∀ ticket ∈ history.issued, ∃ sequence, history.owner.Used sequence ∧
    IsChallenge history.owner.nonce sequence ticket.challenge
  issuedOnce : (history.issued.map Ticket.challenge).Nodup
  handedIssued : ∀ pair ∈ history.handed, ∃ ticket ∈ history.issued,
    ticket.challenge = pair.1 ∧ ticket.call = pair.2
  handedOnce : (history.handed.map Prod.fst).Nodup
  handedGone : ∀ entry ∈ history.owner.pending.entries,
    entry.2.challenge ∉ history.handed.map Prod.fst

/-- Dropping entries without handing one out keeps a history sound. -/
theorem Sound.drop (hsound : history.Sound) (keys : List String) :
    Sound ⟨history.owner.without keys, history.issued, history.handed⟩ where
  accounted := hsound.accounted.without keys
  tickets := fun entry hentry ↦ hsound.tickets entry (mem_without.mp hentry).1
  numbered := hsound.numbered
  issuedOnce := hsound.issuedOnce
  handedIssued := hsound.handedIssued
  handedOnce := hsound.handedOnce
  handedGone := fun entry hentry ↦ hsound.handedGone entry (mem_without.mp hentry).1

/-- Handing out the payload of the entry that is dropped keeps a history sound. -/
theorem Sound.hand (hsound : history.Sound) {key : String} {entry : Pending T}
    (hget : history.owner.pending.get key = some entry) :
    Sound ⟨history.owner.without [key], history.issued,
      history.handed ++ [(entry.challenge, entry.call)]⟩ := by
  have hmem := KeyMap.get_eq_some_iff.mp hget
  have hdropped := hsound.drop [key]
  refine ⟨hdropped.accounted, hdropped.tickets, hdropped.numbered, hdropped.issuedOnce, ?_, ?_, ?_⟩
  · intro pair hpair
    rcases mem_append.mp hpair with hold | hnew
    · exact hsound.handedIssued pair hold
    · rw [mem_singleton] at hnew
      subst hnew
      exact ⟨entry.ticket, hsound.tickets _ hmem, rfl, rfl⟩
  · rw [map_append, nodup_append]
    refine ⟨hsound.handedOnce, nodup_singleton _, fun a ha b hb ↦ ?_⟩
    rw [map_singleton, mem_singleton] at hb
    subst hb
    rintro rfl
    exact hsound.handedGone _ hmem ha
  · intro other hother hhanded
    obtain ⟨hin, hkey⟩ := mem_without.mp hother
    rw [map_append, mem_append] at hhanded
    rcases hhanded with hold | hnew
    · exact hsound.handedGone other hin hold
    · rw [map_singleton, mem_singleton] at hnew
      have heq := hsound.accounted.eq_of_challenge hin hmem hnew
      exact hkey (by rw [heq]; exact mem_singleton_self _)

/-- Every effect keeps a history sound. -/
theorem Sound.log {call : Call T} {reply : Reply T} {owner : Continuations T}
    (hsound : history.Sound) (heffect : Effect platform history.owner call reply owner) :
    (history.log call reply owner).Sound := by
  have haccounted := heffect.accounted hsound.accounted
  cases heffect with
  | issueRefused | modernRefused _ | legacyRefused =>
    simpa [History.log, newTicket, handout] using hsound
  | modernExpired hget hdeadline => simpa [History.log, newTicket, handout] using hsound.drop _
  | swept hcall hremoved =>
    rcases hcall with ⟨now, rfl⟩ | ⟨original, rfl⟩ <;>
      simpa [History.log, newTicket, handout] using hsound.drop _
  | modern hget hdeadline hchallenge =>
    simpa [History.log, newTicket, handout, hchallenge] using hsound.hand hget
  | legacy hid hget hchallenge =>
    simpa [History.log, newTicket, handout, hchallenge, hid] using hsound.hand hget
  | @issued original binding payload retained legacy now sequence bytes challenge hnext hchallenge
      hitems hbytes horiginal =>
    have hfresh := hsound.accounted.get_next hnext
    have hentries := KeyMap.insert_entries_of_get_none hfresh
      ⟨original, binding, challenge, now + history.owner.bounds.lifetime, bytes, payload⟩
    have hnew : IsChallenge history.owner.nonce sequence challenge := by
      rw [hchallenge]
      cases legacy
      · exact .inl rfl
      · exact .inr rfl
    have hunissued : challenge ∉ history.issued.map Ticket.challenge := by
      rintro hmem
      obtain ⟨ticket, hticket, rfl⟩ := mem_map.mp hmem
      obtain ⟨number, hused, hnumber⟩ := hsound.numbered ticket hticket
      have := hused sequence hnext
      have := hnumber.eq_of_eq hnew
      omega
    refine ⟨haccounted, ?_, ?_, ?_, ?_, ?_, ?_⟩
    · intro entry hentry
      have hentry : entry ∈ (history.owner.pending.insert _ _).entries := hentry
      rw [hentries] at hentry
      rcases mem_append.mp hentry with hold | hadded
      · exact mem_append_left _ (hsound.tickets entry hold)
      · rw [mem_singleton] at hadded
        subst hadded
        exact mem_append_right _ (mem_singleton_self _)
    · intro ticket hticket
      rcases mem_append.mp hticket with hold | hadded
      · obtain ⟨number, hused, hnumber⟩ := hsound.numbered ticket hold
        exact ⟨number, fun next hadvance ↦ used_advance (.inr hused) hnext hadvance, hnumber⟩
      · rw [newTicket, Option.toList_some, mem_singleton] at hadded
        subst hadded
        exact ⟨sequence, fun next hadvance ↦ used_advance (.inl rfl) hnext hadvance, hnew⟩
    · show (List.map _ (history.issued ++ [_])).Nodup
      rw [map_append, nodup_append]
      refine ⟨hsound.issuedOnce, nodup_singleton _, fun a ha b hb ↦ ?_⟩
      rw [map_singleton, mem_singleton] at hb
      subst hb
      rintro rfl
      exact hunissued ha
    · intro pair hpair
      have hpair : pair ∈ history.handed ++ [] := hpair
      rw [append_nil] at hpair
      obtain ⟨ticket, hticket, heq⟩ := hsound.handedIssued pair hpair
      exact ⟨ticket, mem_append_left _ hticket, heq⟩
    · show (List.map _ (history.handed ++ [])).Nodup
      rw [append_nil]
      exact hsound.handedOnce
    · intro entry hentry
      show entry.2.challenge ∉ List.map _ (history.handed ++ [])
      rw [append_nil]
      have hentry : entry ∈ (history.owner.pending.insert _ _).entries := hentry
      rw [hentries] at hentry
      rcases mem_append.mp hentry with hold | hadded
      · exact hsound.handedGone entry hold
      · rw [mem_singleton] at hadded
        subst hadded
        intro hhanded
        obtain ⟨pair, hpair, hfst⟩ := mem_map.mp hhanded
        obtain ⟨ticket, hticket, hsame, -⟩ := hsound.handedIssued pair hpair
        exact hunissued (mem_map.mpr ⟨ticket, hticket, hsame.trans hfst⟩)

/-- Every reachable history is sound. -/
theorem sound_of_reachable (hreachable : (confirmationMachine platform T).Reachable history) :
    history.Sound := by
  refine Machine.invariant_of_step Sound ?_ ?_ hreachable
  · rintro ⟨owner, issued, handed⟩ ⟨howner, rfl, rfl⟩
    have haccounted : owner.Accounted ∧ owner.pending.entries = [] := by
      rcases howner with ⟨nonce, bounds, rfl⟩ | rfl
      · exact ⟨.withNonce nonce bounds, rfl⟩
      · exact ⟨.disabled, rfl⟩
    obtain ⟨haccounted, hempty⟩ := haccounted
    exact ⟨haccounted, by simp [hempty], by simp, nodup_nil, by simp, nodup_nil,
      by simp [hempty]⟩
  · rintro before ⟨call, reply⟩ after - hsound ⟨owner, hexec, rfl⟩
    obtain ⟨reply', owner', hexec', heffect⟩ :=
      exec_effect platform hsound.accounted call
    obtain ⟨rfl, rfl⟩ := Prod.mk.inj (Except.ok.inj (hexec.symm.trans hexec'))
    exact hsound.log heffect

end History

/-! ### Foreign calls -/

namespace Continuations

variable {owner : Continuations T} {platform : Platform}

/-- A key that is sent back with another binding than its own, or that belongs to a legacy
continuation. -/
def Foreign (owner : Continuations T) (state : String) (binding : Binding) : Prop :=
  ∃ entry, owner.pending.get state = some entry ∧
    (entry.binding ≠ binding ∨ ∃ id, entry.challenge = .legacy id)

/-- The deadline of a key has passed. -/
def Overdue (owner : Continuations T) (state : String) (now : ℕ) : Prop :=
  ∃ entry, owner.pending.get state = some entry ∧ entry.deadline ≤ now

/-- A table without one of its keys is another table. -/
theorem without_ne {state : String} {entry : Pending T}
    (hget : owner.pending.get state = some entry) : owner.without [state] ≠ owner := by
  intro hsame
  have hmem : (state, entry) ∈ (owner.without [state]).pending.entries := by
    rw [hsame]
    exact KeyMap.get_eq_some_iff.mp hget
  exact (mem_without.mp hmem).2 (mem_singleton_self _)

end Continuations

namespace History

open Continuations

variable {platform : Platform} {history : History T}

/-- No foreign call meets an overdue entry. -/
def Respectful (history : History T) (event : Call T × Reply T) : Prop :=
  ∀ state binding now, event.1 = .takeModern state binding now →
    history.owner.Foreign state binding → ¬ history.owner.Overdue state now

/-- The reply of a call answers the request of an entry: the payload is handed out to its legacy
client, or reported among the removed entries. -/
def Answers (event : Call T × Reply T) (entry : Pending T) : Prop :=
  (∃ frame now owns, event.1 = .takeLegacyFor frame now owns ∧
    event.2 = .legacy (some (entry.call, legacyAnswer frame))) ∨
  (((∃ now, event.1 = .expire now) ∨ ∃ original, event.1 = .cancel original) ∧
    ∃ removed, event.2 = .removed removed ∧
      ∃ gone ∈ removed, gone.challenge = entry.challenge ∧ gone.call = entry.call)

/-- What a step owes to the other clients: a foreign call changes nothing, and a legacy continuation
leaves the table only with an answer to its request. -/
def Protects (history : History T) (event : Call T × Reply T) (history' : History T) : Prop :=
  (∀ state binding now, event.1 = .takeModern state binding now →
    history.owner.Foreign state binding → history'.owner = history.owner) ∧
  ∀ entry ∈ history.owner.pending.entries, (∃ id, entry.2.challenge = .legacy id) →
    entry ∈ history'.owner.pending.entries ∨ Answers event entry.2

variable {event : Call T × Reply T} {history' : History T}

theorem step_effect (hreachable : (confirmationMachine platform T).Reachable history)
    (hstep : (confirmationMachine platform T).step history event history') :
    Effect platform history.owner event.1 event.2 history'.owner := by
  obtain ⟨owner, hexec, rfl⟩ := hstep
  obtain ⟨reply, owner', hexec', heffect⟩ :=
    exec_effect platform (sound_of_reachable hreachable).accounted event.1
  have hsame := Prod.mk.inj (Except.ok.inj (hexec.symm.trans hexec'))
  show Effect platform history.owner event.1 event.2 owner
  rw [hsame.1, hsame.2]
  exact heffect

/-- An entry that is not at a dropped key stays. -/
theorem mem_without_or {entry : String × Pending T} (key : String)
    (hentry : entry ∈ history.owner.pending.entries) :
    entry ∈ (history.owner.without [key]).pending.entries ∨
      history.owner.pending.get key = some entry.2 := by
  by_cases hkey : entry.1 = key
  · exact .inr (KeyMap.get_eq_some_iff.mpr (hkey ▸ hentry))
  · exact .inl (mem_without.mpr ⟨hentry, by simpa using hkey⟩)

/-- A step protects the other clients exactly when its call is respectful. -/
theorem protects_iff_respectful (hreachable : (confirmationMachine platform T).Reachable history)
    (hstep : (confirmationMachine platform T).step history event history') :
    history.Protects event history' ↔ history.Respectful event := by
  have heffect := step_effect hreachable hstep
  obtain ⟨call, reply⟩ := event
  unfold Protects
  generalize history'.owner = owner at heffect ⊢
  simp only at heffect
  constructor
  · rintro ⟨hforeign, -⟩ state binding now rfl hother ⟨entry, hget, hdeadline⟩
    have hsame := hforeign state binding now rfl hother
    cases heffect with
    | modernRefused hearly => exact absurd (hearly entry hget) (by omega)
    | modernExpired hget' _ => exact without_ne hget' hsame
    | modern hget' hearly _ => exact without_ne hget' hsame
    | swept hcall _ => simp at hcall
  · intro hrespectful
    cases heffect with
    | issueRefused | modernRefused _ | legacyRefused =>
      exact ⟨fun _ _ _ _ _ ↦ rfl, by simp +contextual⟩
    | issued hnext _ _ _ _ =>
      refine ⟨by simp, fun entry hentry _ ↦ .inl ?_⟩
      have hfresh := (sound_of_reachable hreachable).accounted.get_next hnext
      show entry ∈ (history.owner.pending.insert _ _).entries
      rw [KeyMap.insert_entries_of_get_none hfresh]
      exact mem_append_left _ hentry
    | @modernExpired state binding now entry hget hdeadline =>
      have hown : ¬ history.owner.Foreign state binding := fun hforeign ↦
        hrespectful state binding now rfl hforeign ⟨entry, hget, hdeadline⟩
      refine ⟨?_, fun other hother ⟨id, hlegacy⟩ ↦ ?_⟩
      · intro state' binding' now' hcall hforeign
        obtain ⟨rfl, rfl, rfl⟩ := Call.takeModern.inj hcall
        exact absurd hforeign hown
      · rcases mem_without_or state hother with hstay | hgone
        · exact .inl hstay
        · exact absurd ⟨other.2, hgone, .inr ⟨id, hlegacy⟩⟩ hown
    | @modern state now entry hget hdeadline hchallenge =>
      refine ⟨?_, fun other hother ⟨id, hlegacy⟩ ↦ ?_⟩
      · intro state' binding' now' hcall ⟨found, hfound, hforeign⟩
        obtain ⟨rfl, rfl, rfl⟩ := Call.takeModern.inj hcall
        cases hget.symm.trans hfound
        rcases hforeign with hbinding | ⟨id, hlegacy⟩
        · exact absurd rfl hbinding
        · exact absurd (hchallenge.symm.trans hlegacy) (by simp)
      · rcases mem_without_or state hother with hstay | hgone
        · exact .inl hstay
        · cases hget.symm.trans hgone
          exact absurd (hchallenge.symm.trans hlegacy) (by simp)
    | @legacy frame now id owns key entry hid hget hchallenge =>
      refine ⟨by simp, fun other hother _ ↦ ?_⟩
      rcases mem_without_or key hother with hstay | hgone
      · exact .inl hstay
      · cases hget.symm.trans hgone
        exact .inr (.inl ⟨frame, now, owns, rfl, rfl⟩)
    | @swept _ removed keys hcall hremoved =>
      refine ⟨?_, fun other hother _ ↦ ?_⟩
      · rintro state binding now rfl
        simp at hcall
      · by_cases hkey : other.1 ∈ keys
        · exact .inr (.inr ⟨hcall, removed, rfl, hremoved other hother hkey⟩)
        · exact .inl (mem_without.mpr ⟨hother, hkey⟩)

end History

/-! ### The lifetime of a continuation -/

open History Continuations in
/-- Continuations over every run, with any calls at any instants.

In every reachable state the table keeps its books (the byte count is the sum of the charges, byte
count and number of entries are within the bounds), entries that share an original, a key or a
challenge are one entry, no call fails an `expect`, every challenge is issued once and its payload
handed out at most once. `takeModern` hands a payload out only for its own token, with the binding
it was issued under, before its deadline and for the first time. A run protects the other clients at
every step exactly when none of its `takeModern` calls is a foreign one for an overdue entry. -/
theorem continuation_lifetime (platform : Platform) (T : Type) :
    (∀ history : History T, (confirmationMachine platform T).Reachable history →
      history.owner.Accounted ∧
      (∀ a ∈ history.owner.pending.entries, ∀ b ∈ history.owner.pending.entries,
        (a.2.original == b.2.original) = true ∨ a.1 = b.1 ∨ a.2.challenge = b.2.challenge →
          a = b) ∧
      (∀ call, ∃ reply owner, history.owner.exec platform call = .ok (reply, owner)) ∧
      (history.issued.map Ticket.challenge).Nodup ∧
      (history.handed.map Prod.fst).Nodup ∧
      (∀ pair ∈ history.handed, ∃ ticket ∈ history.issued,
        ticket.challenge = pair.1 ∧ ticket.call = pair.2)) ∧
    (∀ history : History T, (confirmationMachine platform T).Reachable history →
      ∀ state binding now payload owner,
        history.owner.takeModern state binding now = .ok (.ok payload, owner) →
          Challenge.modern state ∉ history.handed.map Prod.fst ∧
          ∃ ticket ∈ history.issued, ticket.challenge = .modern state ∧
            ticket.binding = binding ∧ ticket.call = payload ∧ now < ticket.deadline) ∧
    (∀ start run, (confirmationMachine platform T).initial start →
      (confirmationMachine platform T).Run start run →
        ((∀ before event after rest, run = before ++ (event, after) :: rest →
            (Machine.last start before).Protects event after) ↔
          ∀ before event after rest, run = before ++ (event, after) :: rest →
            (Machine.last start before).Respectful event)) := by
  refine ⟨fun history hreachable ↦ ?_,
    fun history hreachable state binding now payload owner htake ↦ ?_,
    fun start run hinitial hrun ↦ ?_⟩
  · have hsound := sound_of_reachable hreachable
    refine ⟨hsound.accounted, fun a ha b hb hshared ↦ ?_, fun call ↦ ?_, hsound.issuedOnce,
      hsound.handedOnce, hsound.handedIssued⟩
    · rcases hshared with horiginal | hkey | hchallenge
      · exact hsound.accounted.eq_of_original ha hb horiginal
      · exact inj_on_of_nodup_map history.owner.pending.distinct ha hb hkey
      · exact hsound.accounted.eq_of_challenge ha hb hchallenge
    · obtain ⟨reply, owner, hexec, -⟩ := exec_effect platform hsound.accounted call
      exact ⟨reply, owner, hexec⟩
  · have hsound := sound_of_reachable hreachable
    obtain ⟨result, owner', htake', heffect⟩ :=
      takeModern_effect platform hsound.accounted.bytes_eq state binding now
    obtain ⟨rfl, rfl⟩ := Prod.mk.inj (Except.ok.inj (htake.symm.trans htake'))
    generalize howner : owner = after at heffect
    cases heffect with
    | @modern _ _ entry hget hdeadline hchallenge =>
      have hmem := KeyMap.get_eq_some_iff.mp hget
      refine ⟨?_, entry.ticket, hsound.tickets _ hmem, hchallenge, rfl, rfl, hdeadline⟩
      rw [← hchallenge]
      exact hsound.handedGone _ hmem
  · have hstep : ∀ before event after rest, run = before ++ (event, after) :: rest →
        ((Machine.last start before).Protects event after ↔
          (Machine.last start before).Respectful event) := by
      intro before event after rest hsplit
      obtain ⟨hbefore, hat, -⟩ := hrun.split hsplit
      exact protects_iff_respectful (hbefore.reachable (.initial hinitial)) hat
    constructor
    · intro hprotects before event after rest hsplit
      exact (hstep before event after rest hsplit).mp (hprotects before event after rest hsplit)
    · intro hrespectful before event after rest hsplit
      exact (hstep before event after rest hsplit).mpr (hrespectful before event after rest hsplit)

/-- A table that issued one legacy continuation, for the request with identifier one, at instant
zero. -/
def legacyIssued : History ℕ :=
  History.log ⟨.withNonce "n" .default, [], []⟩
    (.issue (.number (.posInt 1)) (.replicate 32 1) 7 100 true 0) (.issued (.ok (.legacy 0)))
    ((Continuations.withNonce "n" .default).issue ⟨64, 10 ^ 30⟩ (.number (.posInt 1))
      (.replicate 32 1) 7 100 true 0).2

/-- The key of the continuation is sent back at its deadline, with another binding. -/
def foreignCall : Call ℕ × Reply ℕ :=
  (.takeModern (Continuations.keyOf "n" 0) (.replicate 32 2) (60 * 10 ^ 9),
    .modern (.error .expired))

/-- The foreign call discards the continuation: the table loses its entry, and no reply answers the
original request. -/
theorem overdue_legacy_discarded :
    (confirmationMachine ⟨64, 10 ^ 30⟩ ℕ).Reachable legacyIssued ∧
    legacyIssued.owner.Foreign (Continuations.keyOf "n" 0) (.replicate 32 2) ∧
    ∃ history', (confirmationMachine ⟨64, 10 ^ 30⟩ ℕ).step legacyIssued foreignCall history' ∧
      history'.owner.pending.entries = [] ∧ ¬ legacyIssued.Protects foreignCall history' := by
  have hget : legacyIssued.owner.pending.get (Continuations.keyOf "n" 0) =
      some ⟨.number (.posInt 1), .replicate 32 1, .legacy 0, 60 * 10 ^ 9, 187, 7⟩ := by
    rfl
  have hreachable : (confirmationMachine ⟨64, 10 ^ 30⟩ ℕ).Reachable legacyIssued := by
    refine .step (s := ⟨.withNonce "n" .default, [], []⟩)
      (e := (.issue (.number (.posInt 1)) (.replicate 32 1) 7 100 true 0,
        .issued (.ok (.legacy 0)))) (.initial ⟨.inl ⟨_, _, rfl⟩, rfl, rfl⟩) ⟨_, ?_, rfl⟩
    rfl
  have hforeign : legacyIssued.owner.Foreign (Continuations.keyOf "n" 0) (.replicate 32 2) :=
    ⟨_, hget, .inr ⟨0, rfl⟩⟩
  have hstep : (confirmationMachine ⟨64, 10 ^ 30⟩ ℕ).step legacyIssued foreignCall
      (legacyIssued.log foreignCall.1 foreignCall.2
        (legacyIssued.owner.without [Continuations.keyOf "n" 0])) := by
    refine ⟨_, ?_, rfl⟩
    have hbytes := (History.sound_of_reachable hreachable).accounted.bytes_eq
    simp only [foreignCall, Continuations.exec, Continuations.takeModern, hget,
      Continuations.remove_eq hbytes]
    rfl
  refine ⟨hreachable, hforeign, _, hstep, by rfl, fun hprotects ↦ ?_⟩
  exact (History.protects_iff_respectful hreachable hstep).mp hprotects _ _ _ rfl hforeign
    ⟨_, hget, Nat.le_refl _⟩

end ObsMcp.Confirmation
