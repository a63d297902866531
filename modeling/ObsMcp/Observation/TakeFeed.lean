import ObsMcp.Observation.Evidence

/-!
# The take event feed

The feed of `service_events.rs`. The observer of a session publishes an event under the lock of the
hub: the revision, the processed cursor, and then the frame of the event, which goes to the feed in
the slot if that feed is active. `Hub.act` is one step of the session, of the delivery, of the owner
of a feed, of the take that consumes its frames, or of a fence that asks whether a cursor is applied
(`TakeEventFence::ready_at_cursor`). The parts of a delivery, of a revocation and of an application
are steps of their own, so that a feed can be revoked between any two of them; the event in hand of
a delivery is the one whose cursor was published last.

`Feed.Good` is the invariant of a feed: the frames sent to it are those of the events after its
attachment, in order and without a gap (`window`), and the observed ones are such frames up to the
applied cursor.
-/

namespace ObsMcp.Observation.TakeFeed

open List

/-- A frame: the cursor of an event and its kind. -/
abbrev Frame := ℕ × String

def feedItems : ℕ := 256

/-- A feed. `attached`, `sent`, `taken` and `observed` are its history: the published cursor at its
attachment, the frames put into its channel, those the consumer has received, and those whose
`observe` callback is complete. -/
structure Feed where
  active : Bool
  sender : Bool
  receiver : Bool
  channel : List Frame
  held : List Frame
  applying : Option (Frame × Bool)
  applied : ℕ
  attached : ℕ
  sent : List Frame
  taken : List Frame
  observed : List Frame
  deriving DecidableEq

namespace Feed

/-- A feed attached at a published cursor. -/
def new (published : ℕ) : Feed :=
  ⟨true, true, true, [], [], none, published, published, [], [], []⟩

variable (feed : Feed)

def deactivate : Feed := { feed with active := false }

/-- The second half of a revocation. -/
def dropSender : Feed :=
  if feed.active then feed else { feed with sender := false }

/-- The consumer goes; a frame that is dropped with it revokes the feed. -/
def dropReceiver : Feed :=
  { feed with
    receiver := false
    channel := []
    active := feed.active && feed.channel.isEmpty }

def push (frame : Frame) : Feed :=
  { feed with channel := feed.channel ++ [frame], sent := feed.sent ++ [frame] }

/-- The consumer receives the next frame. -/
def receive : Feed :=
  match feed.channel with
  | frame :: rest =>
    { feed with channel := rest, held := feed.held ++ [frame], taken := feed.taken ++ [frame] }
  | [] => feed

/-- A frame that is dropped without having been applied revokes the feed. -/
def dropFrame (k : ℕ) : Feed :=
  match feed.held[k]? with
  | some _ => { feed with held := feed.held.eraseIdx k, active := false }
  | none => feed

/-- The checks in front of an application: the next frame of an active feed is applied, any other
revokes the feed. -/
def beginApply (k : ℕ) : Feed :=
  match feed.applying, feed.held[k]? with
  | none, some frame =>
    if feed.active ∧ feed.applied + 1 < 2 ^ 64 ∧ feed.applied + 1 = frame.1 then
      { feed with held := feed.held.eraseIdx k, applying := some (frame, false) }
    else
      { feed with held := feed.held.eraseIdx k, active := false }
  | _, _ => feed

/-- The callback of an application. -/
def callback : Feed :=
  match feed.applying with
  | some (frame, false) =>
    { feed with applying := some (frame, true), observed := feed.observed ++ [frame] }
  | _ => feed

/-- The end of an application: an active feed publishes the applied cursor. -/
def finishApply : Feed :=
  match feed.applying with
  | some (frame, true) =>
    if feed.active then { feed with applying := none, applied := frame.1 }
    else { feed with applying := none }
  | _ => feed

end Feed

/-- Where a delivery is: before it looked for a feed, with a feed found active, or with a sender. -/
inductive Delivery
  | begun
  | found (i : ℕ)
  | cloned (i : ℕ)
  deriving DecidableEq

/-- Where a fence is. `revoked` remembers whether its feed was revoked when it was asked. -/
inductive Fence
  | idle
  | refused
  | evidenceLoaded (i cursor : ℕ) (evidence : EvidenceState) (revoked : Bool)
  | activeLoaded (i cursor : ℕ) (evidence : EvidenceState) (revoked : Bool)
  | terminalLoaded (i cursor : ℕ) (evidence : EvidenceState) (revoked : Bool)
  | live (i cursor : ℕ) (revoked : Bool)
  | appliedLoaded (i cursor : ℕ) (revoked : Bool)
  | publishedLoaded (i cursor : ℕ) (revoked : Bool)
  | ready (i cursor : ℕ) (revoked : Bool)
  deriving DecidableEq

structure Hub (ι : Type) where
  shared : Shared
  slot : Option ℕ
  feeds : List Feed
  delivery : Delivery
  fences : ι → Fence

inductive Label (ι : Type)
  | shared (action : Action)
  | deliver
  | attach
  | revokeHub
  | deactivate (i : ℕ)
  | dropSender (i : ℕ)
  | dropReceiver (i : ℕ)
  | receive (i : ℕ)
  | dropFrame (i k : ℕ)
  | beginApply (i k : ℕ)
  | callback (i : ℕ)
  | finishApply (i : ℕ)
  | fence (r : ι) (i cursor : ℕ)
  | load (r : ι)
  | refuse (r : ι)

namespace Hub

variable {ι : Type} [DecidableEq ι]

/-- The hub is locked from the publication of a revision to the end of the delivery. -/
def locked (hub : Hub ι) : Bool :=
  match hub.shared.observer with
  | .publishing _ => true
  | .delivering => true
  | _ => false

def modify (hub : Hub ι) (i : ℕ) (f : Feed → Feed) : Hub ι :=
  { hub with feeds := hub.feeds.modify i f }

/-- The end of a delivery, accepted or not. -/
def endDelivery (hub : Hub ι) (accepted : Bool) : Hub ι :=
  { hub with
    delivery := .begun
    shared := if accepted then { hub.shared with observer := .waiting } else hub.shared.stop }

/-- The delivery has a sender: the frame goes into the channel, or the feed is revoked. -/
def send (hub : Hub ι) (i : ℕ) (kind : String) : Hub ι :=
  match hub.feeds[i]? with
  | some feed =>
    if feed.receiver ∧ feed.channel.length < feedItems then
      (hub.modify i (fun feed ↦ feed.push (hub.shared.processed, kind))).endDelivery true
    else
      (hub.modify i Feed.deactivate).endDelivery false
  | none => hub.endDelivery false

/-- The next part of a delivery. -/
def deliver (hub : Hub ι) : Option (Hub ι) :=
  if hub.shared.observer = .delivering then
    match hub.delivery with
    | .begun =>
      match hub.slot.filter (fun i ↦ hub.feeds[i]?.any Feed.active) with
      | some i => some { hub with delivery := .found i }
      | none => some (endDelivery { hub with slot := none } true)
    | .found i =>
      if hub.feeds[i]?.any Feed.sender then
        some { hub with delivery := .cloned i }
      else
        some (hub.endDelivery false)
    | .cloned i => (hub.shared.received[hub.shared.processed - 1]?).map (hub.send i)
  else
    none

/-- A new feed, when no active one has the slot and the evidence stands. -/
def attach (hub : Hub ι) : Option (Hub ι) :=
  if hub.locked ∨ hub.slot.any (fun i ↦ hub.feeds[i]?.any Feed.active) ∨
      ¬ hub.shared.evidence.connected ∨ hub.shared.evidence.cancelled ∨ hub.shared.unpublished ∨
      hub.shared.invalidated ∨ hub.shared.evidence.generation ≠ hub.shared.token then
    none
  else
    some { hub with
      slot := some hub.feeds.length
      feeds := hub.feeds ++ [Feed.new hub.shared.processed] }

def revokeHub (hub : Hub ι) : Option (Hub ι) :=
  if hub.locked then
    none
  else
    match hub.slot with
    | some i => some (modify { hub with slot := none } i Feed.deactivate)
    | none => some hub

/-- A fence goes on when a test holds. -/
def proceed (test : Bool) (next : Fence) : Fence := if test then next else .refused

/-- The next load of a fence. -/
def loadFence (hub : Hub ι) : Fence → Option Fence
  | .evidenceLoaded i cursor evidence revoked =>
    some (proceed (hub.feeds[i]?.any Feed.active) (.activeLoaded i cursor evidence revoked))
  | .activeLoaded i cursor evidence revoked =>
    some (proceed (!hub.shared.invalidated) (.terminalLoaded i cursor evidence revoked))
  | .terminalLoaded i cursor evidence revoked =>
    some (proceed (!hub.shared.unpublished && evidence.connected && !evidence.cancelled &&
      decide (evidence.generation = hub.shared.token)) (.live i cursor revoked))
  | .live i cursor revoked =>
    some (proceed (hub.feeds[i]?.any (fun feed ↦ decide (cursor ≤ feed.applied)))
      (.appliedLoaded i cursor revoked))
  | .appliedLoaded i cursor revoked =>
    some (proceed (decide (cursor ≤ hub.shared.processed)) (.publishedLoaded i cursor revoked))
  | .publishedLoaded i cursor revoked =>
    some (proceed (decide (hub.shared.cursor = cursor)) (.ready i cursor revoked))
  | _ => none

def moveFence (hub : Hub ι) (r : ι) (fence : Fence) : Hub ι :=
  { hub with fences := fun other ↦ if other = r then fence else hub.fences other }

def act (invalidates : String → Bool) (hub : Hub ι) : Label ι → Option (Hub ι)
  | .shared action =>
    if action = .delivered true ∨ action = .delivered false then
      none
    else
      (hub.shared.act invalidates action).map (fun shared ↦ { hub with shared })
  | .deliver => hub.deliver
  | .attach => hub.attach
  | .revokeHub => hub.revokeHub
  | .deactivate i => some (hub.modify i Feed.deactivate)
  | .dropSender i => some (hub.modify i Feed.dropSender)
  | .dropReceiver i => some (hub.modify i Feed.dropReceiver)
  | .receive i => some (hub.modify i Feed.receive)
  | .dropFrame i k => some (hub.modify i (fun feed ↦ feed.dropFrame k))
  | .beginApply i k => some (hub.modify i (fun feed ↦ feed.beginApply k))
  | .callback i => some (hub.modify i Feed.callback)
  | .finishApply i => some (hub.modify i Feed.finishApply)
  | .fence r i cursor =>
    hub.feeds[i]?.map (fun feed ↦
      hub.moveFence r (.evidenceLoaded i cursor hub.shared.evidence (!feed.active)))
  | .load r => (hub.loadFence (hub.fences r)).map (hub.moveFence r)
  | .refuse r => some (hub.moveFence r .refused)

end Hub

/-! ### Windows of the received events -/

/-- The frames of the events after a cursor. -/
def window (received : List String) (start : ℕ) : ℕ → List Frame
  | 0 => []
  | k + 1 =>
    window received start k ++
      (received[start + k]?.map (fun kind ↦ (start + k + 1, kind))).toList

section Window

variable {received more : List String} {start k : ℕ}

theorem window_succ {kind : String} (hkind : received[start + k]? = some kind) :
    window received start (k + 1) = window received start k ++ [(start + k + 1, kind)] := by
  rw [window, hkind]
  rfl

theorem window_extends (hextends : received <+: more) (hle : start + k ≤ received.length) :
    window more start k = window received start k := by
  obtain ⟨rest, rfl⟩ := hextends
  induction k with
  | zero => rfl
  | succ k ih =>
    rw [window, window, ih (by omega), getElem?_append_left (by omega)]

/-- A frame of a window is an event with its own cursor. -/
theorem mem_window {frame : Frame} (hmem : frame ∈ window received start k) :
    start < frame.1 ∧ frame.1 ≤ start + k ∧ received[frame.1 - 1]? = some frame.2 := by
  induction k with
  | zero => cases hmem
  | succ k ih =>
    rcases mem_append.mp hmem with hmem | hmem
    · obtain ⟨hfrom, hto, hkind⟩ := ih hmem
      exact ⟨hfrom, by omega, hkind⟩
    · obtain ⟨kind, hkind, rfl⟩ := Option.map_eq_some_iff.mp (Option.mem_toList.mp hmem)
      refine ⟨by simp only; omega, by simp only; omega, ?_⟩
      simpa using hkind

/-- Every event of a window has its frame there. -/
theorem exists_mem_window {n : ℕ} (hle : start + k ≤ received.length) (hfrom : start < n)
    (hto : n ≤ start + k) :
    ∃ kind, received[n - 1]? = some kind ∧ (n, kind) ∈ window received start k := by
  induction k with
  | zero => omega
  | succ k ih =>
    have hlt : start + k < received.length := by omega
    rw [window_succ (getElem?_eq_getElem hlt)]
    by_cases hlast : n = start + k + 1
    · subst hlast
      exact ⟨_, getElem?_eq_getElem hlt, mem_append_right _ (mem_singleton.mpr rfl)⟩
    · obtain ⟨kind, hkind, hmem⟩ := ih (by omega) (by omega)
      exact ⟨kind, hkind, mem_append_left _ hmem⟩

end Window

/-! ### What holds of a feed -/

/-- Where the observed frames stand against the applied cursor. -/
def Feed.Aligned (feed : Feed) : Prop :=
  match feed.applying with
  | some (frame, false) =>
    frame.1 = feed.applied + 1 ∧ feed.attached + feed.observed.length = feed.applied
  | some (frame, true) =>
    frame.1 = feed.applied + 1 ∧ feed.attached + feed.observed.length = feed.applied + 1
  | none =>
    feed.attached + feed.observed.length = feed.applied ∨
      (feed.active = false ∧ feed.attached + feed.observed.length = feed.applied + 1)

/-- A feed got the events after its attachment in order, and observed them in order. -/
structure Feed.Good (s : Shared) (feed : Feed) : Prop where
  bound : feed.attached + feed.sent.length ≤ s.processed
  sent : feed.sent = window s.received feed.attached feed.sent.length
  taken : feed.taken <+: feed.sent
  whole : feed.receiver = true → feed.sent = feed.taken ++ feed.channel
  closed : feed.receiver = false → feed.channel = []
  opened : feed.active = true → feed.sender = true
  held : ∀ frame ∈ feed.held, frame ∈ feed.taken
  applying : ∀ frame callback, feed.applying = some (frame, callback) → frame ∈ feed.taken
  observed : feed.observed = window s.received feed.attached feed.observed.length
  reached : feed.attached + feed.observed.length ≤ s.processed
  aligned : feed.Aligned

/-- What a step of the consumer or of the owner leaves alone or only lets grow. -/
structure Feed.Quiet (feed next : Feed) : Prop where
  attached : next.attached = feed.attached
  sent : next.sent = feed.sent
  active : next.active = true → feed.active = true
  applied : feed.applied ≤ next.applied
  observed : feed.observed <+: next.observed

namespace Feed

variable {s t : Shared} {feed : Feed}

theorem Quiet.refl (feed : Feed) : Quiet feed feed :=
  ⟨rfl, rfl, id, Nat.le_refl _, prefix_rfl⟩

/-- The invariant of a feed stays true while the session goes on. -/
theorem Good.grows (hgood : feed.Good s) (hcoherent : s.processed ≤ s.received.length)
    (hgrows : Grows s t) : feed.Good t where
  bound := Nat.le_trans hgood.bound hgrows.processed
  sent := by
    rw [window_extends hgrows.received (Nat.le_trans hgood.bound hcoherent)]
    exact hgood.sent
  taken := hgood.taken
  whole := hgood.whole
  closed := hgood.closed
  opened := hgood.opened
  held := hgood.held
  applying := hgood.applying
  observed := by
    rw [window_extends hgrows.received (Nat.le_trans hgood.reached hcoherent)]
    exact hgood.observed
  reached := Nat.le_trans hgood.reached hgrows.processed
  aligned := hgood.aligned

theorem new_good (s : Shared) : (Feed.new s.processed).Good s where
  bound := Nat.le_refl _
  sent := rfl
  taken := prefix_rfl
  whole _ := rfl
  closed _ := rfl
  opened _ := rfl
  held := by simp [new]
  applying := by simp [new]
  observed := rfl
  reached := Nat.le_refl _
  aligned := .inl rfl

/-- The alignment does not depend on a feed that is revoked staying active. -/
theorem aligned_of_same {next : Feed} (haligned : feed.Aligned)
    (happlying : next.applying = feed.applying) (happlied : next.applied = feed.applied)
    (hattached : next.attached = feed.attached) (hobserved : next.observed = feed.observed)
    (hactive : next.active = true → feed.active = true) : next.Aligned := by
  unfold Aligned at haligned ⊢
  rw [happlying, happlied, hattached, hobserved]
  cases hcase : feed.applying with
  | none =>
    rw [hcase] at haligned
    rcases haligned with hequal | ⟨hrevoked, hbehind⟩
    · exact .inl hequal
    · refine .inr ⟨?_, hbehind⟩
      by_contra hstill
      rw [hactive (by simpa using hstill)] at hrevoked
      cases hrevoked
  | some entry =>
    rw [hcase] at haligned
    obtain ⟨frame, called⟩ := entry
    cases called with
    | false => exact haligned
    | true => exact haligned

/-- A step of a feed that keeps its invariant and is quiet. -/
def Keeps (s : Shared) (f : Feed → Feed) : Prop :=
  ∀ feed, Good s feed → Good s (f feed) ∧ Quiet feed (f feed)

section

variable (s : Shared)

theorem deactivate_keeps : Keeps s deactivate := by
  intro feed hgood
  refine ⟨{ hgood with opened := by simp [deactivate], aligned := ?_ },
    { Quiet.refl feed with active := by simp [deactivate] }⟩
  exact aligned_of_same hgood.aligned rfl rfl rfl rfl (by simp [deactivate])

theorem dropSender_keeps : Keeps s dropSender := by
  intro feed hgood
  unfold dropSender
  split_ifs with hactive
  · exact ⟨hgood, Quiet.refl feed⟩
  · refine ⟨{ hgood with opened := fun h ↦ absurd h hactive, aligned := ?_ },
      { Quiet.refl feed with }⟩
    exact aligned_of_same hgood.aligned rfl rfl rfl rfl id

theorem dropReceiver_keeps : Keeps s dropReceiver := by
  intro feed hgood
  have hactive : feed.dropReceiver.active = true → feed.active = true := by
    intro hstill
    simp only [dropReceiver, Bool.and_eq_true] at hstill
    exact hstill.1
  refine ⟨{ hgood with
    whole := ?_, closed := fun _ ↦ rfl, opened := fun h ↦ hgood.opened (hactive h), aligned := ?_ },
    { Quiet.refl feed with active := hactive }⟩
  · simp [dropReceiver]
  · exact aligned_of_same hgood.aligned rfl rfl rfl rfl hactive

theorem receive_keeps : Keeps s receive := by
  intro feed hgood
  unfold receive
  cases hchannel : feed.channel with
  | nil => exact ⟨hgood, Quiet.refl feed⟩
  | cons frame rest =>
    have hreceiver : feed.receiver = true := by
      by_contra hgone
      have hempty := hgood.closed (by simpa using hgone)
      rw [hchannel] at hempty
      cases hempty
    have hsent := hgood.whole hreceiver
    rw [hchannel] at hsent
    refine ⟨{ hgood with
      taken := ?_, whole := ?_, closed := ?_, held := ?_, applying := ?_, aligned := ?_ },
      { Quiet.refl feed with }⟩
    · rw [hsent]
      exact ⟨rest, by simp⟩
    · intro _
      rw [hsent]
      simp
    · simp [hreceiver]
    · intro other hother
      rcases mem_append.mp hother with hother | hother
      · exact mem_append_left _ (hgood.held other hother)
      · exact mem_append_right _ hother
    · intro other called hother
      exact mem_append_left _ (hgood.applying other called hother)
    · exact aligned_of_same hgood.aligned rfl rfl rfl rfl id

theorem dropFrame_keeps (k : ℕ) : Keeps s (fun feed ↦ feed.dropFrame k) := by
  intro feed hgood
  simp only [dropFrame]
  cases feed.held[k]? with
  | none => exact ⟨hgood, Quiet.refl feed⟩
  | some frame =>
    refine ⟨{ hgood with opened := by simp, held := ?_, aligned := ?_ },
      { Quiet.refl feed with active := by simp }⟩
    · exact fun other hother ↦ hgood.held other (mem_of_mem_eraseIdx hother)
    · exact aligned_of_same hgood.aligned rfl rfl rfl rfl (by simp)

theorem beginApply_keeps (k : ℕ) : Keeps s (fun feed ↦ feed.beginApply k) := by
  intro feed hgood
  simp only [beginApply]
  cases happlying : feed.applying with
  | some entry => exact ⟨hgood, Quiet.refl feed⟩
  | none =>
    cases hframe : feed.held[k]? with
    | none => exact ⟨hgood, Quiet.refl feed⟩
    | some frame =>
      have hheld : ∀ other ∈ feed.held.eraseIdx k, other ∈ feed.taken :=
        fun other hother ↦ hgood.held other (mem_of_mem_eraseIdx hother)
      simp only
      split_ifs with hnext
      · refine ⟨{ hgood with held := hheld, applying := ?_, aligned := ?_ },
          { Quiet.refl feed with }⟩
        · rintro other called ⟨⟩
          exact hgood.held frame (mem_of_getElem? hframe)
        · have haligned := hgood.aligned
          unfold Aligned at haligned
          rw [happlying] at haligned
          refine ⟨hnext.2.2.symm, ?_⟩
          rcases haligned with hequal | ⟨hrevoked, -⟩
          · exact hequal
          · rw [hnext.1] at hrevoked
            cases hrevoked
      · refine ⟨{ hgood with opened := by simp, held := hheld, applying := ?_, aligned := ?_ },
          { Quiet.refl feed with active := by simp }⟩
        · simp
        · exact aligned_of_same hgood.aligned happlying.symm rfl rfl rfl (by simp)

theorem callback_keeps : Keeps s callback := by
  intro feed hgood
  unfold callback
  match happlying : feed.applying with
  | none => exact ⟨hgood, Quiet.refl feed⟩
  | some (frame, true) => exact ⟨hgood, Quiet.refl feed⟩
  | some (frame, false) =>
    have haligned := hgood.aligned
    unfold Aligned at haligned
    rw [happlying] at haligned
    obtain ⟨hframe, hobserved⟩ := haligned
    have hmem := hgood.taken.subset (hgood.applying frame false happlying)
    rw [hgood.sent] at hmem
    obtain ⟨-, hto, hkind⟩ := mem_window hmem
    have hindex : s.received[feed.attached + feed.observed.length]? = some frame.2 := by
      rw [← hkind, hframe, hobserved, Nat.add_sub_cancel]
    have hframe' : frame = (feed.attached + feed.observed.length + 1, frame.2) := by
      rw [hobserved, ← hframe]
    have hbound := hgood.bound
    refine ⟨{ hgood with applying := ?_, observed := ?_, reached := ?_, aligned := ?_ },
      { Quiet.refl feed with observed := prefix_append _ _ }⟩
    · rintro other called ⟨⟩
      exact hgood.applying frame false happlying
    · simp only [length_append, length_singleton]
      rw [window_succ hindex, ← hgood.observed, ← hframe']
    · simp only [length_append, length_singleton]
      omega
    · refine ⟨hframe, ?_⟩
      simp only [length_append, length_singleton]
      omega

theorem finishApply_keeps : Keeps s finishApply := by
  intro feed hgood
  unfold finishApply
  match happlying : feed.applying with
  | none => exact ⟨hgood, Quiet.refl feed⟩
  | some (frame, false) => exact ⟨hgood, Quiet.refl feed⟩
  | some (frame, true) =>
    have haligned := hgood.aligned
    unfold Aligned at haligned
    rw [happlying] at haligned
    obtain ⟨hframe, hobserved⟩ := haligned
    simp only
    split_ifs with hactive
    · refine ⟨{ hgood with applying := by simp, aligned := .inl ?_ },
        { Quiet.refl feed with applied := ?_ }⟩
      · exact hobserved.trans hframe.symm
      · simp only [hframe]
        omega
    · refine ⟨{ hgood with applying := by simp, aligned := .inr ⟨?_, hobserved⟩ },
        { Quiet.refl feed with }⟩
      simpa using hactive

end

/-- The frame of the next published event keeps a feed good. -/
theorem push_good {kind : String} (hgood : feed.Good s) (hreceiver : feed.receiver = true)
    (hnext : feed.attached + feed.sent.length + 1 = s.processed)
    (hkind : s.received[s.processed - 1]? = some kind) :
    (feed.push (s.processed, kind)).Good s := by
  have hindex : s.received[feed.attached + feed.sent.length]? = some kind := by
    rw [← hkind, ← hnext, Nat.add_sub_cancel]
  refine { hgood with
    bound := ?_, sent := ?_, taken := ?_, whole := ?_, closed := ?_, aligned := ?_ }
  · simp only [push, length_append, length_singleton]
    omega
  · simp only [push, length_append, length_singleton]
    rw [window_succ hindex, ← hgood.sent, hnext]
  · exact hgood.taken.trans (prefix_append _ _)
  · intro _
    simp only [push]
    rw [hgood.whole hreceiver, append_assoc]
  · simp [push, hreceiver]
  · exact aligned_of_same hgood.aligned rfl rfl rfl rfl id

end Feed

end ObsMcp.Observation.TakeFeed
