import ObsMcp.Foundations.Indexed
import ObsMcp.Observation.TakeFeed

/-!
# The take event feed has no gap

The law of the feeds over every run of the hub. `Hub.Good` is the invariant: every feed is good, an
active feed has the slot, and it got every published event, up to the one in delivery. A step of a
feed that is quiet keeps it (`modify_good`), and so do the deliveries, the attachment and the
session (`act_good`). `feed_gapless` collects what follows for the consumer of a feed and for its
fences.

The applied cursor is not always that of the last observed event: a feed that is revoked while its
consumer observes an event does not publish the cursor of that event (`observed_ahead_of_applied`).
-/

namespace ObsMcp.Observation.TakeFeed

open Foundations List Option

/-- The event whose cursor is published and whose frame is not sent. -/
def undelivered (s : Shared) : ℕ := if s.observer = .delivering then 1 else 0

namespace Hub

variable {ι : Type} {invalidates : String → Bool} {hub next : Hub ι}

/-- A delivery that has found a feed holds the next frame of that feed. -/
def DeliveryGood (hub : Hub ι) (i : ℕ) : Prop :=
  hub.shared.observer = .delivering ∧ hub.slot = some i ∧ ∃ feed : Feed, hub.feeds[i]? = some feed ∧
    feed.attached + feed.sent.length + 1 = hub.shared.processed

/-- What a fence knows at each place. -/
def FenceGood (hub : Hub ι) : Fence → Prop
  | .idle => True
  | .refused => True
  | .evidenceLoaded i _ _ revoked =>
    ∃ feed : Feed, hub.feeds[i]? = some feed ∧ (revoked = true → feed.active = false)
  | .activeLoaded i _ _ revoked => revoked = false ∧ ∃ feed : Feed, hub.feeds[i]? = some feed
  | .terminalLoaded i _ _ revoked => revoked = false ∧ ∃ feed : Feed, hub.feeds[i]? = some feed
  | .live i _ revoked => revoked = false ∧ ∃ feed : Feed, hub.feeds[i]? = some feed
  | .appliedLoaded i cursor revoked =>
    revoked = false ∧ ∃ feed : Feed, hub.feeds[i]? = some feed ∧ cursor ≤ feed.applied
  | .publishedLoaded i cursor revoked =>
    revoked = false ∧ ∃ feed : Feed, hub.feeds[i]? = some feed ∧ cursor ≤ feed.applied
  | .ready i cursor revoked =>
    revoked = false ∧ ∃ feed : Feed, hub.feeds[i]? = some feed ∧ cursor ≤ feed.applied

structure Good (invalidates : String → Bool) (hub : Hub ι) : Prop where
  coherent : Coherent invalidates hub.shared
  feeds : ∀ (i : ℕ) (feed : Feed), hub.feeds[i]? = some feed → feed.Good hub.shared
  slot : ∀ (i : ℕ) (feed : Feed), hub.feeds[i]? = some feed → feed.active = true → hub.slot = some i
  current : ∀ (i : ℕ) (feed : Feed), hub.feeds[i]? = some feed → feed.active = true →
    feed.attached + feed.sent.length + undelivered hub.shared = hub.shared.processed
  found : ∀ i, hub.delivery = .found i → hub.DeliveryGood i
  cloned : ∀ i, hub.delivery = .cloned i → hub.DeliveryGood i
  fences : ∀ r, hub.FenceGood (hub.fences r)

/-- What the feeds of a hub never take back. -/
def FeedsGrow (hub next : Hub ι) : Prop :=
  ∀ (i : ℕ) (feed : Feed), hub.feeds[i]? = some feed → ∃ later : Feed, next.feeds[i]? = some later ∧
    later.attached = feed.attached ∧ (later.active = true → feed.active = true) ∧
    feed.applied ≤ later.applied ∧ feed.observed <+: later.observed

theorem FeedsGrow.of_feeds (hfeeds : next.feeds = hub.feeds) : FeedsGrow hub next :=
  fun _ feed hfeed ↦ ⟨feed, hfeeds ▸ hfeed, rfl, id, Nat.le_refl _, prefix_rfl⟩

theorem FeedsGrow.trans {first second third : Hub ι} (hfirst : FeedsGrow first second)
    (hsecond : FeedsGrow second third) : FeedsGrow first third := by
  intro i feed hfeed
  obtain ⟨later, hlater, hattached, hactive, happlied, hobserved⟩ := hfirst i feed hfeed
  obtain ⟨last, hlast, hattached', hactive', happlied', hobserved'⟩ := hsecond i later hlater
  exact ⟨last, hlast, hattached'.trans hattached, fun h ↦ hactive (hactive' h),
    Nat.le_trans happlied happlied', hobserved.trans hobserved'⟩

variable {fence : Fence} {f : Feed → Feed} {feed : Feed} {i : ℕ}

/-- What a fence knows stays true while the feeds grow. -/
theorem FenceGood.grows (hfence : hub.FenceGood fence) (hgrow : FeedsGrow hub next) :
    next.FenceGood fence := by
  cases fence with
  | idle => trivial
  | refused => trivial
  | evidenceLoaded i cursor evidence revoked =>
    obtain ⟨feed, hfeed, hrevoked⟩ := hfence
    obtain ⟨later, hlater, -, hactive, -, -⟩ := hgrow i feed hfeed
    refine ⟨later, hlater, fun h ↦ ?_⟩
    by_contra hstill
    rw [hactive (by simpa using hstill)] at hrevoked
    cases hrevoked h
  | activeLoaded i cursor evidence revoked =>
    obtain ⟨hrevoked, feed, hfeed⟩ := hfence
    obtain ⟨later, hlater, -⟩ := hgrow i feed hfeed
    exact ⟨hrevoked, later, hlater⟩
  | terminalLoaded i cursor evidence revoked =>
    obtain ⟨hrevoked, feed, hfeed⟩ := hfence
    obtain ⟨later, hlater, -⟩ := hgrow i feed hfeed
    exact ⟨hrevoked, later, hlater⟩
  | live i cursor revoked =>
    obtain ⟨hrevoked, feed, hfeed⟩ := hfence
    obtain ⟨later, hlater, -⟩ := hgrow i feed hfeed
    exact ⟨hrevoked, later, hlater⟩
  | appliedLoaded i cursor revoked =>
    obtain ⟨hrevoked, feed, hfeed, hcursor⟩ := hfence
    obtain ⟨later, hlater, -, -, happlied, -⟩ := hgrow i feed hfeed
    exact ⟨hrevoked, later, hlater, Nat.le_trans hcursor happlied⟩
  | publishedLoaded i cursor revoked =>
    obtain ⟨hrevoked, feed, hfeed, hcursor⟩ := hfence
    obtain ⟨later, hlater, -, -, happlied, -⟩ := hgrow i feed hfeed
    exact ⟨hrevoked, later, hlater, Nat.le_trans hcursor happlied⟩
  | ready i cursor revoked =>
    obtain ⟨hrevoked, feed, hfeed, hcursor⟩ := hfence
    obtain ⟨later, hlater, -, -, happlied, -⟩ := hgrow i feed hfeed
    exact ⟨hrevoked, later, hlater, Nat.le_trans hcursor happlied⟩

/-! ### Steps of a feed -/

variable {j : ℕ} {s t : Shared} {action : Action} {accepted : Bool}

theorem getElem?_modify (hfeed : (hub.modify i f).feeds[j]? = some feed) :
    ∃ before, hub.feeds[j]? = some before ∧ feed = if i = j then f before else before := by
  simp only [modify, List.getElem?_modify] at hfeed
  obtain ⟨before, hbefore, rfl⟩ := Option.map_eq_some_iff.mp hfeed
  exact ⟨before, hbefore, rfl⟩

theorem modify_getElem? (hfeed : hub.feeds[j]? = some feed) :
    (hub.modify i f).feeds[j]? = some (if i = j then f feed else feed) := by
  simp only [modify, List.getElem?_modify, hfeed]
  rfl

theorem modify_grow (hgood : hub.Good invalidates) (hkeeps : Feed.Keeps hub.shared f) :
    FeedsGrow hub (hub.modify i f) := by
  intro j feed hfeed
  refine ⟨_, modify_getElem? hfeed, ?_⟩
  obtain ⟨-, hquiet⟩ := hkeeps feed (hgood.feeds j feed hfeed)
  split_ifs
  · exact ⟨hquiet.attached, hquiet.active, hquiet.applied, hquiet.observed⟩
  · exact ⟨rfl, id, Nat.le_refl _, prefix_rfl⟩

/-- A quiet step of one feed keeps the invariant of the hub. -/
theorem modify_good {i : ℕ} {f : Feed → Feed} (hgood : hub.Good invalidates)
    (hkeeps : Feed.Keeps hub.shared f) : (hub.modify i f).Good invalidates := by
  have hsteps : ∀ (j : ℕ) (feed : Feed), (hub.modify i f).feeds[j]? = some feed →
      ∃ before : Feed, hub.feeds[j]? = some before ∧ feed.Good hub.shared ∧
        Feed.Quiet before feed := by
    intro j feed hfeed
    obtain ⟨before, hbefore, rfl⟩ := getElem?_modify hfeed
    have hbeforeGood := hgood.feeds j before hbefore
    refine ⟨before, hbefore, ?_⟩
    split_ifs
    · exact hkeeps before hbeforeGood
    · exact ⟨hbeforeGood, Feed.Quiet.refl before⟩
  have hdelivery : ∀ j, hub.DeliveryGood j → (hub.modify i f).DeliveryGood j := by
    rintro j ⟨hobserver, hslot, feed, hfeed, hnext⟩
    obtain ⟨before, hbefore, -, hquiet⟩ := hsteps j _ (modify_getElem? hfeed)
    rw [hfeed] at hbefore
    cases hbefore
    refine ⟨hobserver, hslot, _, modify_getElem? hfeed, ?_⟩
    rw [hquiet.attached, hquiet.sent]
    exact hnext
  refine ⟨hgood.coherent, ?_, ?_, ?_, ?_, ?_, ?_⟩
  · intro j feed hfeed
    obtain ⟨-, -, hfeedGood, -⟩ := hsteps j feed hfeed
    exact hfeedGood
  · intro j feed hfeed hactive
    obtain ⟨before, hbefore, -, hquiet⟩ := hsteps j feed hfeed
    exact hgood.slot j before hbefore (hquiet.active hactive)
  · intro j feed hfeed hactive
    obtain ⟨before, hbefore, -, hquiet⟩ := hsteps j feed hfeed
    rw [hquiet.attached, hquiet.sent]
    exact hgood.current j before hbefore (hquiet.active hactive)
  · exact fun j hfound ↦ hdelivery j (hgood.found j hfound)
  · exact fun j hcloned ↦ hdelivery j (hgood.cloned j hcloned)
  · exact fun r ↦ (hgood.fences r).grows (modify_grow hgood hkeeps)

/-! ### Steps of the session -/

theorem processed_le (hs : Coherent invalidates s) : s.processed ≤ s.received.length :=
  Nat.le_trans (Nat.le_add_right _ _) hs.bound

/-- A step of the session publishes at most one cursor, which is then undelivered, and leaves a
delivery alone. -/
theorem undelivered_of_act (hs : Coherent invalidates s)
    (haction : ∀ accepted, action ≠ .delivered accepted)
    (hact : s.act invalidates action = some t) :
    t.processed + undelivered s = s.processed + undelivered t ∧
      (s.observer = .delivering → t.observer = .delivering) := by
  have hsame : ∀ {t : Shared}, t.processed = s.processed → t.observer = s.observer →
      t.processed + undelivered s = s.processed + undelivered t ∧
        (s.observer = .delivering → t.observer = .delivering) := by
    intro t hprocessed hobserver
    simp [undelivered, hprocessed, hobserver]
  have hidle : ∀ {t : Shared}, t.processed = s.processed → s.observer ≠ .delivering →
      t.observer ≠ .delivering →
      t.processed + undelivered s = s.processed + undelivered t ∧
        (s.observer = .delivering → t.observer = .delivering) := by
    intro t hprocessed hbefore hafter
    simp [undelivered, hprocessed, hbefore, hafter]
  cases action with
  | reserve kind =>
    simp only [Shared.act] at hact
    split_ifs at hact
    cases hact
    exact hsame rfl rfl
  | exhaust =>
    simp only [Shared.act] at hact
    split_ifs at hact
    cases hact
    exact hsame rfl rfl
  | enqueue =>
    simp only [Shared.act] at hact
    split at hact
    · split_ifs at hact
      cases hact
      exact hsame rfl rfl
    · cases hact
  | overflow =>
    simp only [Shared.act] at hact
    split at hact
    · cases hact
      exact hsame rfl rfl
    · cases hact
  | hangUp =>
    simp only [Shared.act] at hact
    split_ifs at hact
    cases hact
    exact hsame rfl rfl
  | terminate =>
    cases hact
    exact hsame rfl rfl
  | dequeue =>
    simp only [Shared.act] at hact
    split_ifs at hact with hobserver
    split at hact
    · cases hact
      have hbefore : s.observer ≠ .delivering := by simp [hobserver]
      unfold Shared.observe
      split_ifs
      · split
        · exact hidle rfl hbefore (by simp)
        · exact hidle rfl hbefore (by simp [Shared.stop])
      · exact hidle rfl hbefore (by simp [Shared.stop])
    · cases hact
  | publishRevision =>
    simp only [Shared.act] at hact
    split at hact
    · next hobserver =>
      cases hact
      exact hidle rfl (by simp [hobserver]) (by simp)
    · cases hact
  | publishProcessed =>
    simp only [Shared.act] at hact
    split at hact
    · next sequence hobserver =>
      have hholds := hs.holds
      unfold Shared.Holds at hholds
      rw [hobserver] at hholds
      have hsequence : sequence = s.processed + 1 := hholds
      cases hact
      simp [undelivered, hobserver, hsequence]
    · cases hact
  | delivered accepted => exact absurd rfl (haction accepted)
  | endOfEvents =>
    simp only [Shared.act] at hact
    split_ifs at hact with hend
    cases hact
    exact hidle rfl (by simp [hend.1]) (by simp [Shared.stop])
  | abort =>
    simp only [Shared.act] at hact
    split_ifs at hact with hend
    cases hact
    exact hidle rfl (by simp [hend.1]) (by simp [Shared.stop])
  | invalidate =>
    cases hact
    exact hsame rfl rfl
  | cancel =>
    cases hact
    exact hsame rfl rfl
  | dropOwner =>
    cases hact
    exact hsame rfl rfl

theorem shared_good (hgood : hub.Good invalidates)
    (haction : ∀ accepted, action ≠ .delivered accepted)
    (hact : hub.shared.act invalidates action = some t) :
    Good invalidates { hub with shared := t } := by
  obtain ⟨hcoherent, hgrows⟩ := Shared.act_keeps hgood.coherent hact
  obtain ⟨hcount, hdelivering⟩ := undelivered_of_act hgood.coherent haction hact
  have hdelivery : ∀ i, hub.DeliveryGood i → DeliveryGood { hub with shared := t } i := by
    rintro i ⟨hobserver, hslot, feed, hfeed, hnext⟩
    have hafter := hdelivering hobserver
    refine ⟨hafter, hslot, feed, hfeed, hnext.trans ?_⟩
    simp only [undelivered, hobserver, hafter, if_true] at hcount
    simp only
    omega
  refine ⟨hcoherent, ?_, hgood.slot, ?_, ?_, ?_, ?_⟩
  · intro i feed hfeed
    exact (hgood.feeds i feed hfeed).grows (processed_le hgood.coherent) hgrows
  · intro i feed hfeed hactive
    have hcurrent := hgood.current i feed hfeed hactive
    simp only
    omega
  · exact fun i hfound ↦ hdelivery i (hgood.found i hfound)
  · exact fun i hcloned ↦ hdelivery i (hgood.cloned i hcloned)
  · exact fun r ↦ (hgood.fences r).grows (FeedsGrow.of_feeds rfl)

/-! ### Deliveries -/

/-- The end of a delivery keeps the invariant. Assumes: every active feed has got the event. -/
theorem endDelivery_good (hcoherent : Coherent invalidates hub.shared)
    (hobserver : hub.shared.observer = .delivering)
    (hfeeds : ∀ (i : ℕ) (feed : Feed), hub.feeds[i]? = some feed → feed.Good hub.shared)
    (hslot : ∀ (i : ℕ) (feed : Feed), hub.feeds[i]? = some feed → feed.active = true →
      hub.slot = some i)
    (hcurrent : ∀ (i : ℕ) (feed : Feed), hub.feeds[i]? = some feed → feed.active = true →
      feed.attached + feed.sent.length = hub.shared.processed)
    (hfences : ∀ r, hub.FenceGood (hub.fences r)) :
    (hub.endDelivery accepted).Good invalidates := by
  have hgrows : Grows hub.shared (hub.endDelivery accepted).shared := by
    cases accepted with
    | true => exact { Grows.refl hub.shared with }
    | false => exact Shared.stop_grows hub.shared
  have hended : Coherent invalidates (hub.endDelivery accepted).shared := by
    cases accepted with
    | true => exact Shared.resume_coherent hcoherent hobserver
    | false => exact Shared.stop_coherent hcoherent (by simp [hobserver, Observer.inHand])
  refine ⟨hended, ?_, hslot, ?_, by simp [endDelivery], by simp [endDelivery], ?_⟩
  · intro i feed hfeed
    exact (hfeeds i feed hfeed).grows (processed_le hcoherent) hgrows
  · intro i feed hfeed hactive
    have := hcurrent i feed hfeed hactive
    cases accepted with
    | true => simpa [endDelivery, undelivered] using this
    | false => simpa [endDelivery, undelivered, Shared.stop, Shared.disconnect] using this
  · exact fun r ↦ (hfences r).grows (FeedsGrow.of_feeds rfl)

section

variable (hgood : hub.Good invalidates)
include hgood

/-- A delivery whose feed is revoked ends. -/
theorem endDelivery_of_revoked (hobserver : hub.shared.observer = .delivering)
    (hnone : ∀ (i : ℕ) (feed : Feed), hub.feeds[i]? = some feed → feed.active = false) :
    (hub.endDelivery accepted).Good invalidates := by
  refine endDelivery_good hgood.coherent hobserver hgood.feeds hgood.slot ?_ hgood.fences
  intro i feed hfeed hactive
  rw [hnone i feed hfeed] at hactive
  cases hactive

/-- All feeds but that of the slot are revoked. -/
theorem inactive_of_slot
    (hslot : ∀ feed, hub.slot = some i → hub.feeds[i]? = some feed → feed.active = false)
    (hwhere : hub.slot = some i ∨ hub.slot = none) :
    ∀ (j : ℕ) (feed : Feed), hub.feeds[j]? = some feed → feed.active = false := by
  intro j feed hfeed
  by_contra hactive
  have hslotj := hgood.slot j feed hfeed (by simpa using hactive)
  rcases hwhere with hwhere | hwhere
  · rw [hwhere] at hslotj
    cases hslotj
    exact hactive (hslot feed hwhere hfeed)
  · rw [hwhere] at hslotj
    cases hslotj

/-- The frame of the event goes to the feed of the slot. -/
theorem push_endDelivery_good {kind : String} (hdelivery : hub.DeliveryGood i)
    (hfeed : hub.feeds[i]? = some feed) (hreceiver : feed.receiver = true)
    (hkind : hub.shared.received[hub.shared.processed - 1]? = some kind) :
    ((hub.modify i (fun feed ↦ feed.push (hub.shared.processed, kind))).endDelivery true).Good
      invalidates := by
  obtain ⟨hobserver, hslot, found, hfound, hnext⟩ := hdelivery
  rw [hfeed] at hfound
  cases hfound
  have hcases : ∀ (j : ℕ) (later : Feed),
      (hub.modify i (fun feed ↦ feed.push (hub.shared.processed, kind))).feeds[j]? = some later →
      (i = j ∧ later = feed.push (hub.shared.processed, kind)) ∨
        (i ≠ j ∧ hub.feeds[j]? = some later) := by
    intro j later hlater
    obtain ⟨before, hbefore, rfl⟩ := getElem?_modify hlater
    by_cases hij : i = j
    · subst hij
      rw [hfeed] at hbefore
      cases hbefore
      exact .inl ⟨rfl, if_pos rfl⟩
    · exact .inr ⟨hij, by rw [if_neg hij]; exact hbefore⟩
  refine endDelivery_good hgood.coherent hobserver ?_ ?_ ?_ ?_
  · intro j later hlater
    rcases hcases j later hlater with ⟨rfl, rfl⟩ | ⟨-, hbefore⟩
    · exact Feed.push_good (hgood.feeds i feed hfeed) hreceiver hnext hkind
    · exact hgood.feeds j later hbefore
  · intro j later hlater hactive
    rcases hcases j later hlater with ⟨rfl, rfl⟩ | ⟨-, hbefore⟩
    · exact hslot
    · exact hgood.slot j later hbefore hactive
  · intro j later hlater hactive
    rcases hcases j later hlater with ⟨rfl, rfl⟩ | ⟨hij, hbefore⟩
    · simpa [Feed.push, modify, Nat.add_assoc] using hnext
    · have hslotj := hgood.slot j later hbefore hactive
      rw [hslot] at hslotj
      exact absurd (some.inj hslotj) hij
  · intro r
    refine (hgood.fences r).grows ?_
    intro j before hbefore
    refine ⟨_, modify_getElem? hbefore, ?_⟩
    split_ifs
    · exact ⟨rfl, id, Nat.le_refl _, prefix_rfl⟩
    · exact ⟨rfl, id, Nat.le_refl _, prefix_rfl⟩

theorem deliver_good (hdeliver : hub.deliver = some next) : next.Good invalidates := by
  unfold deliver at hdeliver
  split_ifs at hdeliver with hobserver
  cases hphase : hub.delivery with
  | begun =>
    simp only [hphase] at hdeliver
    cases hslot : hub.slot.filter (fun i ↦ hub.feeds[i]?.any Feed.active) with
    | some i =>
      simp only [hslot] at hdeliver
      cases hdeliver
      obtain ⟨hsome, hany⟩ := filter_eq_some_iff.mp hslot
      obtain ⟨feed, hfeed, hactive⟩ := (any_eq_true _ _).mp hany
      have hcurrent := hgood.current i feed hfeed hactive
      simp only [undelivered, hobserver, if_true] at hcurrent
      refine { hgood with found := ?_, cloned := by simp }
      rintro j ⟨⟩
      exact ⟨hobserver, hsome, feed, hfeed, hcurrent⟩
    | none =>
      simp only [hslot] at hdeliver
      cases hdeliver
      have hnone : ∀ (j : ℕ) (feed : Feed), hub.feeds[j]? = some feed → feed.active = false := by
        intro j feed hfeed
        by_contra hactive
        have hslotj := hgood.slot j feed hfeed (by simpa using hactive)
        simp [hslotj, hfeed] at hslot
        exact hactive hslot
      refine endDelivery_good hgood.coherent hobserver hgood.feeds ?_ ?_ hgood.fences
      · intro j feed hfeed hactive
        rw [hnone j feed hfeed] at hactive
        cases hactive
      · intro j feed hfeed hactive
        rw [hnone j feed hfeed] at hactive
        cases hactive
  | found i =>
    obtain ⟨-, hslot, feed, hfeed, hnext⟩ := hgood.found i hphase
    simp only [hphase, hfeed, any_some] at hdeliver
    split_ifs at hdeliver with hsender
    · cases hdeliver
      refine { hgood with found := by simp, cloned := ?_ }
      rintro j ⟨⟩
      exact ⟨hobserver, hslot, feed, hfeed, hnext⟩
    · cases hdeliver
      refine endDelivery_of_revoked hgood hobserver (inactive_of_slot hgood ?_ (.inl hslot))
      intro found _ hfound
      rw [hfeed] at hfound
      cases hfound
      by_contra hactive
      exact hsender ((hgood.feeds i feed hfeed).opened (by simpa using hactive))
  | cloned i =>
    obtain ⟨-, hslot, feed, hfeed, -⟩ := hgood.cloned i hphase
    simp only [hphase] at hdeliver
    obtain ⟨kind, hkind, rfl⟩ := Option.map_eq_some_iff.mp hdeliver
    simp only [send, hfeed]
    split_ifs with hroom
    · exact push_endDelivery_good hgood (hgood.cloned i hphase) hfeed hroom.1 hkind
    · have hmodified := @modify_good _ _ _ i _ hgood (Feed.deactivate_keeps hub.shared)
      refine endDelivery_of_revoked hmodified hobserver
        (inactive_of_slot hmodified ?_ (.inl hslot))
      intro found _ hfound
      rw [modify_getElem? hfeed, if_pos rfl] at hfound
      cases hfound
      rfl

end

/-! ### Attachments and revocations -/

theorem attach_grow (hattach : hub.attach = some next) : FeedsGrow hub next := by
  unfold attach at hattach
  split_ifs at hattach
  cases hattach
  intro i feed hfeed
  refine ⟨feed, ?_, rfl, id, Nat.le_refl _, prefix_rfl⟩
  exact getElem?_append_of_some hfeed

theorem attach_good (hgood : hub.Good invalidates) (hattach : hub.attach = some next) :
    next.Good invalidates := by
  have hgrow := attach_grow hattach
  unfold attach at hattach
  split_ifs at hattach with hrefused
  cases hattach
  simp only [not_or] at hrefused
  obtain ⟨hunlocked, hslot, -⟩ := hrefused
  have hidle : hub.shared.observer ≠ .delivering := by
    intro hdelivering
    simp [locked, hdelivering] at hunlocked
  have hnone : ∀ (j : ℕ) (feed : Feed), hub.feeds[j]? = some feed → feed.active = false := by
    intro j feed hfeed
    by_contra hactive
    have hslotj := hgood.slot j feed hfeed (by simpa using hactive)
    simp [hslotj, hfeed] at hslot
    exact hactive hslot
  have hcases : ∀ (j : ℕ) (feed : Feed),
      (hub.feeds ++ [Feed.new hub.shared.processed])[j]? = some feed →
      hub.feeds[j]? = some feed ∨ (j = hub.feeds.length ∧ feed = Feed.new hub.shared.processed) :=
    fun _ _ hfeed ↦ getElem?_concat_cases hfeed
  refine ⟨hgood.coherent, ?_, ?_, ?_, ?_, ?_, fun r ↦ (hgood.fences r).grows hgrow⟩
  · intro j feed hfeed
    rcases hcases j feed hfeed with hbefore | ⟨-, rfl⟩
    · exact hgood.feeds j feed hbefore
    · exact Feed.new_good hub.shared
  · intro j feed hfeed hactive
    rcases hcases j feed hfeed with hbefore | ⟨rfl, rfl⟩
    · rw [hnone j feed hbefore] at hactive
      cases hactive
    · rfl
  · intro j feed hfeed hactive
    rcases hcases j feed hfeed with hbefore | ⟨rfl, rfl⟩
    · rw [hnone j feed hbefore] at hactive
      cases hactive
    · simp [undelivered, hidle, Feed.new]
  · intro j hfound
    exact absurd (hgood.found j hfound).1 hidle
  · intro j hcloned
    exact absurd (hgood.cloned j hcloned).1 hidle

theorem revokeHub_good (hgood : hub.Good invalidates) (hrevoke : hub.revokeHub = some next) :
    next.Good invalidates ∧ FeedsGrow hub next := by
  unfold revokeHub at hrevoke
  split_ifs at hrevoke with hlocked
  have hidle : hub.shared.observer ≠ .delivering := by
    intro hdelivering
    simp [locked, hdelivering] at hlocked
  cases hslot : hub.slot with
  | none =>
    simp only [hslot] at hrevoke
    cases hrevoke
    exact ⟨hgood, FeedsGrow.of_feeds rfl⟩
  | some i =>
    simp only [hslot] at hrevoke
    cases hrevoke
    have hmodified := @modify_good _ _ _ i _ hgood (Feed.deactivate_keeps hub.shared)
    have hgrow : FeedsGrow hub (hub.modify i Feed.deactivate) :=
      modify_grow hgood (Feed.deactivate_keeps hub.shared)
    have hnone : ∀ (j : ℕ) (feed : Feed), (hub.modify i Feed.deactivate).feeds[j]? = some feed →
        feed.active = false := by
      refine inactive_of_slot hmodified ?_ (.inl hslot)
      intro feed _ hfeed
      obtain ⟨before, -, rfl⟩ := getElem?_modify hfeed
      rw [if_pos rfl]
      rfl
    refine ⟨{ hmodified with slot := ?_, found := ?_, cloned := ?_ }, hgrow⟩
    · intro j feed hfeed hactive
      rw [hnone j feed hfeed] at hactive
      cases hactive
    · intro j hfound
      exact absurd (hgood.found j hfound).1 hidle
    · intro j hcloned
      exact absurd (hgood.cloned j hcloned).1 hidle

theorem deliver_grow (hdeliver : hub.deliver = some next) : FeedsGrow hub next := by
  unfold deliver at hdeliver
  split_ifs at hdeliver
  split at hdeliver
  · split at hdeliver
    · cases hdeliver
      exact FeedsGrow.of_feeds rfl
    · cases hdeliver
      exact FeedsGrow.of_feeds rfl
  · split_ifs at hdeliver
    · cases hdeliver
      exact FeedsGrow.of_feeds rfl
    · cases hdeliver
      exact FeedsGrow.of_feeds rfl
  · next i hphase =>
    obtain ⟨kind, -, rfl⟩ := Option.map_eq_some_iff.mp hdeliver
    unfold send
    split
    · split_ifs
      · intro j before hbefore
        refine ⟨_, modify_getElem? hbefore, ?_⟩
        split_ifs
        · exact ⟨rfl, id, Nat.le_refl _, prefix_rfl⟩
        · exact ⟨rfl, id, Nat.le_refl _, prefix_rfl⟩
      · intro j before hbefore
        refine ⟨_, modify_getElem? hbefore, ?_⟩
        split_ifs
        · exact ⟨rfl, by simp [Feed.deactivate], Nat.le_refl _, prefix_rfl⟩
        · exact ⟨rfl, id, Nat.le_refl _, prefix_rfl⟩
    · exact FeedsGrow.of_feeds rfl

/-! ### Fences -/

theorem fenceGood_proceed {test : Bool} (hfence : test = true → hub.FenceGood fence) :
    hub.FenceGood (proceed test fence) := by
  unfold proceed
  split_ifs with htest
  · exact hfence htest
  · trivial

theorem loadFence_good {later : Fence} (hfence : hub.FenceGood fence)
    (hload : hub.loadFence fence = some later) : hub.FenceGood later := by
  cases fence with
  | idle => cases hload
  | refused => cases hload
  | evidenceLoaded i cursor evidence revoked =>
    cases hload
    refine fenceGood_proceed fun hany ↦ ?_
    obtain ⟨feed, hfeed, hrevoked⟩ := hfence
    rw [hfeed, any_some] at hany
    refine ⟨?_, feed, hfeed⟩
    by_contra hwas
    rw [hrevoked (by simpa using hwas)] at hany
    cases hany
  | activeLoaded i cursor evidence revoked =>
    cases hload
    exact fenceGood_proceed fun _ ↦ hfence
  | terminalLoaded i cursor evidence revoked =>
    cases hload
    exact fenceGood_proceed fun _ ↦ hfence
  | live i cursor revoked =>
    cases hload
    refine fenceGood_proceed fun hany ↦ ?_
    obtain ⟨hrevoked, feed, hfeed⟩ := hfence
    rw [hfeed, any_some] at hany
    exact ⟨hrevoked, feed, hfeed, of_decide_eq_true hany⟩
  | appliedLoaded i cursor revoked =>
    cases hload
    exact fenceGood_proceed fun _ ↦ hfence
  | publishedLoaded i cursor revoked =>
    cases hload
    exact fenceGood_proceed fun _ ↦ hfence
  | ready i cursor revoked => cases hload

theorem moveFence_good [DecidableEq ι] {r : ι} (hgood : hub.Good invalidates)
    (hfence : hub.FenceGood fence) : (hub.moveFence r fence).Good invalidates := by
  refine { hgood with fences := ?_ }
  intro other
  have hcases : hub.FenceGood (if other = r then fence else hub.fences other) := by
    split_ifs
    · exact hfence
    · exact hgood.fences other
  exact hcases.grows (FeedsGrow.of_feeds rfl)

/-! ### Whole runs -/

/-- Every step keeps the invariant, and the feeds grow. -/
theorem act_good [DecidableEq ι] {label : Label ι} (hgood : hub.Good invalidates)
    (hact : hub.act invalidates label = some next) :
    next.Good invalidates ∧ FeedsGrow hub next := by
  have hmodify : ∀ {i : ℕ} {f : Feed → Feed}, Feed.Keeps hub.shared f →
      (hub.modify i f).Good invalidates ∧ FeedsGrow hub (hub.modify i f) :=
    fun hkeeps ↦ ⟨modify_good hgood hkeeps, modify_grow hgood hkeeps⟩
  cases label with
  | shared action =>
    simp only [act] at hact
    split_ifs at hact with haction
    obtain ⟨shared, hshared, rfl⟩ := Option.map_eq_some_iff.mp hact
    rw [not_or] at haction
    refine ⟨shared_good hgood ?_ hshared, FeedsGrow.of_feeds rfl⟩
    rintro (accepted | accepted)
    · exact haction.2
    · exact haction.1
  | deliver => exact ⟨deliver_good hgood hact, deliver_grow hact⟩
  | attach => exact ⟨attach_good hgood hact, attach_grow hact⟩
  | revokeHub => exact revokeHub_good hgood hact
  | deactivate i =>
    cases hact
    exact hmodify (Feed.deactivate_keeps _)
  | dropSender i =>
    cases hact
    exact hmodify (Feed.dropSender_keeps _)
  | dropReceiver i =>
    cases hact
    exact hmodify (Feed.dropReceiver_keeps _)
  | receive i =>
    cases hact
    exact hmodify (Feed.receive_keeps _)
  | dropFrame i k =>
    cases hact
    exact hmodify (Feed.dropFrame_keeps _ k)
  | beginApply i k =>
    cases hact
    exact hmodify (Feed.beginApply_keeps _ k)
  | callback i =>
    cases hact
    exact hmodify (Feed.callback_keeps _)
  | finishApply i =>
    cases hact
    exact hmodify (Feed.finishApply_keeps _)
  | fence r i cursor =>
    obtain ⟨feed, hfeed, rfl⟩ := Option.map_eq_some_iff.mp hact
    refine ⟨moveFence_good hgood ⟨feed, hfeed, ?_⟩, FeedsGrow.of_feeds rfl⟩
    simp
  | load r =>
    obtain ⟨fence, hload, rfl⟩ := Option.map_eq_some_iff.mp hact
    exact ⟨moveFence_good hgood (loadFence_good (hgood.fences r) hload), FeedsGrow.of_feeds rfl⟩
  | refuse r =>
    cases hact
    exact ⟨moveFence_good hgood trivial, FeedsGrow.of_feeds rfl⟩

end Hub

/-- The machine of a hub with its feeds and fences. -/
def hubMachine (ι : Type) [DecidableEq ι] (invalidates : String → Bool) (generation : ℕ) :
    Machine (Hub ι) (Label ι) where
  initial hub :=
    hub.shared = .initial generation ∧ hub.slot = none ∧ hub.feeds = [] ∧ hub.delivery = .begun ∧
      ∀ r, hub.fences r = .idle
  step hub label next := hub.act invalidates label = some next

section Runs

variable {ι : Type} [DecidableEq ι] {invalidates : String → Bool} {generation : ℕ} {hub : Hub ι}

theorem good_of_reachable (hhub : (hubMachine ι invalidates generation).Reachable hub) :
    hub.Good invalidates := by
  refine Machine.invariant_of_step (Hub.Good invalidates) ?_ ?_ hhub
  · rintro hub ⟨hshared, hslot, hfeeds, hdelivery, hfences⟩
    refine ⟨hshared ▸ Shared.initial_coherent invalidates generation, ?_, ?_, ?_, ?_, ?_, ?_⟩
    · simp [hfeeds]
    · simp [hfeeds]
    · simp [hfeeds]
    · simp [hdelivery]
    · simp [hdelivery]
    · intro r
      rw [hfences r]
      trivial
  · intro hub label next _ hgood hstep
    exact (Hub.act_good hgood hstep).1

theorem feedsGrow_of_run {run : List (Label ι × Hub ι)}
    (hhub : (hubMachine ι invalidates generation).Reachable hub)
    (hrun : (hubMachine ι invalidates generation).Run hub run) :
    Hub.FeedsGrow hub (Machine.last hub run) := by
  have hkept := Machine.Run.keeps
    (fun next ↦ Hub.Good invalidates next ∧ Hub.FeedsGrow hub next)
    (fun _ _ _ hs h ↦
      have hnext := Hub.act_good hs.1 h
      ⟨hnext.1, hs.2.trans hnext.2⟩)
    hrun ⟨good_of_reachable hhub, Hub.FeedsGrow.of_feeds rfl⟩
  exact hkept.2

/-- What a feed delivers and applies, at any time. -/
structure Delivers (s : Shared) (feed : Feed) : Prop where
  sent : feed.sent = window s.received feed.attached feed.sent.length
  published : feed.attached + feed.sent.length ≤ s.processed
  current : feed.active = true →
    feed.attached + feed.sent.length + undelivered s = s.processed
  taken : feed.taken <+: feed.sent
  whole : feed.receiver = true → feed.sent = feed.taken ++ feed.channel
  observed : feed.observed = window s.received feed.attached feed.observed.length
  aligned : feed.Aligned

/-- Every event after the attachment and up to a cursor was observed. -/
def Applied (s : Shared) (feed : Feed) (cursor : ℕ) : Prop :=
  ∀ n, feed.attached < n → n ≤ cursor →
    ∃ kind, s.received[n - 1]? = some kind ∧ (n, kind) ∈ feed.observed

theorem applied_of_le {feed : Feed} {cursor : ℕ} {s : Shared} (hcoherent : Coherent invalidates s)
    (hgood : feed.Good s) (hcursor : cursor ≤ feed.applied) : Applied s feed cursor := by
  intro n hfrom hto
  have hlast : feed.applied ≤ feed.attached + feed.observed.length := by
    have haligned := hgood.aligned
    unfold Feed.Aligned at haligned
    split at haligned
    · omega
    · omega
    · omega
  rw [hgood.observed]
  exact exists_mem_window
    (Nat.le_trans hgood.reached (Hub.processed_le hcoherent)) hfrom (by omega)

/-- The feeds of a hub over all runs. At any time a feed was sent the events published after its
attachment, in the order of their cursors and without a gap, and while it is active all of them but
the one in delivery; its consumer gets them in that order; the events it observed are the first of
them, up to the applied cursor or, while an application is between its callback and its end and for
a feed revoked there, one further (`Feed.Aligned`). At most one feed is active. A fence that becomes
ready at a cursor was asked of a feed that was not revoked, and every event up to the cursor is
applied. A revoked feed stays revoked. -/
theorem feed_gapless (ι : Type) [DecidableEq ι] (invalidates : String → Bool) (generation : ℕ) :
    (∀ hub : Hub ι, (hubMachine ι invalidates generation).Reachable hub →
      (∀ (i : ℕ) (feed : Feed), hub.feeds[i]? = some feed → Delivers hub.shared feed) ∧
      (∀ (i j : ℕ) (feed other : Feed), hub.feeds[i]? = some feed → hub.feeds[j]? = some other →
        feed.active = true → other.active = true → i = j) ∧
      ∀ r i cursor revoked, hub.fences r = .ready i cursor revoked →
        revoked = false ∧ ∃ feed : Feed, hub.feeds[i]? = some feed ∧
          Applied hub.shared feed cursor) ∧
    ∀ (hub : Hub ι) (run : List (Label ι × Hub ι)),
      (hubMachine ι invalidates generation).Reachable hub →
      (hubMachine ι invalidates generation).Run hub run →
      ∀ (i : ℕ) (feed : Feed), hub.feeds[i]? = some feed → feed.active = false →
        ∃ later : Feed, (Machine.last hub run).feeds[i]? = some later ∧ later.active = false := by
  refine ⟨fun hub hhub ↦ ?_, fun hub run hhub hrun i feed hfeed hrevoked ↦ ?_⟩
  · have hgood := good_of_reachable hhub
    refine ⟨fun i feed hfeed ↦ ?_, fun i j feed other hfeed hother hactive hactive' ↦ ?_, ?_⟩
    · have hfeedGood := hgood.feeds i feed hfeed
      exact ⟨hfeedGood.sent, hfeedGood.bound, hgood.current i feed hfeed, hfeedGood.taken,
        hfeedGood.whole, hfeedGood.observed, hfeedGood.aligned⟩
    · have hslot := hgood.slot i feed hfeed hactive
      rw [hgood.slot j other hother hactive'] at hslot
      exact (some.inj hslot).symm
    · intro r i cursor revoked hready
      have hfence := hgood.fences r
      rw [hready] at hfence
      obtain ⟨hrevoked, feed, hfeed, hcursor⟩ := hfence
      exact ⟨hrevoked, feed, hfeed,
        applied_of_le hgood.coherent (hgood.feeds i feed hfeed) hcursor⟩
  · obtain ⟨later, hlater, -, hactive, -, -⟩ := feedsGrow_of_run hhub hrun i feed hfeed
    refine ⟨later, hlater, ?_⟩
    by_contra hstill
    rw [hactive (by simpa using hstill)] at hrevoked
    cases hrevoked

/-- A new hub without fences in use. -/
def newHub : Hub ℕ := ⟨.initial 1, none, [], .begun, fun _ ↦ .idle⟩

/-- An event is received, published and observed by an attached feed that is revoked before the end
of the application. -/
def revokedWhileObserving : List (Label ℕ) :=
  [.attach, .shared (.reserve "InputVolumeMeters"), .shared .enqueue, .shared .dequeue,
    .shared .publishRevision, .shared .publishProcessed, .deliver, .deliver, .deliver,
    .receive 0, .beginApply 0 0, .callback 0, .deactivate 0, .dropSender 0, .finishApply 0]

/-- A feed revoked while its consumer observes an event leaves the applied cursor behind the
event. -/
theorem observed_ahead_of_applied :
    ∃ (hub : Hub ℕ) (feed : Feed), (hubMachine ℕ (fun _ ↦ false) 1).Reachable hub ∧
      hub.feeds[0]? = some feed ∧ feed.applying = none ∧
      feed.applied ≠ (feed.observed.getLast?.map Prod.fst).getD feed.attached := by
  have hreachable : (hubMachine ℕ (fun _ ↦ false) 1).Reachable newHub :=
    .initial ⟨rfl, rfl, rfl, rfl, fun _ ↦ rfl⟩
  refine ⟨_, _, @Machine.Reachable.of_foldlM _ _ _ (Hub.act fun _ ↦ false) (fun _ _ _ h ↦ h)
    revokedWhileObserving _ _ hreachable rfl, rfl, rfl, ?_⟩
  decide

end Runs

end ObsMcp.Observation.TakeFeed
