import ObsMcp.Subscriptions.Changes

/-!
# The publication of an event

`publish` projects an event to its changes, finds the audience of each change in the routing,
charges the budget of the queue and hands the batch over. Two shortcuts come first: nothing is
projected when nobody listens, and the updates of scene items are not projected when no URI of their
shape is subscribed to.

`expected` says what is to be delivered without shortcuts: the changes of the full projection, each
with its subscribers in their order, and without the changes that nobody wants. Here the legacy
client is a subscriber like each listener is. `publish_eq` shows that the shortcuts make no
difference, and `publishes_expected` that a publisher that is open and has room publishes what is
expected.
-/

namespace ObsMcp.Subscriptions

open Foundations List

def QUEUE_ITEMS : ℕ := 64

def QUEUE_BYTES : ℕ := 8 * 1024 * 1024

/-- A change with those it is addressed to; the legacy client has no identifier. -/
structure Delivery where
  change : Change
  audiences : List (Option Json)

/-- Deliveries with the bytes that they keep charged. -/
structure Batch where
  deliveries : List Delivery
  bytes : ℕ

/-- The publication side: whether it is active and its receiver open, the failure that has ended it,
the queue with the bytes that are left, and the sink that is bound, alive or not. -/
structure Publisher where
  active : Bool
  receiving : Bool
  failure : Option Failure
  routing : Routing
  queue : List Batch
  available : ℕ
  direct : Option Bool

inductive Origin
  | obs (event : String) (data : Json)
  | take

def Origin.changes (origin : Origin) (sceneItems : Bool) : Except Failure (List Change) :=
  match origin with
  | .obs event data => projectSelected event data sceneItems
  | .take => .ok [.updated "obs://take/current"]

namespace Routing

variable (routing : Routing)

/-- Somebody may want a change. -/
def interested : Bool :=
  routing.legacy || routing.listeners.any fun listener ↦ listener.list || !listener.uris.isEmpty

/-- A URI of the shape of scene items is subscribed to. -/
def sceneItems : Bool :=
  if routing.legacy then routing.legacyUris.any itemUri
  else (routing.listeners.flatMap Listener.uris).any itemUri

def audiences (change : Change) : List (Option Json) :=
  if routing.legacy then
    match change with
    | .listChanged => [none]
    | .updated uri => if routing.legacyUris.contains uri then [none] else []
  else
    (routing.listeners.filter fun listener ↦
      match change with
      | .listChanged => listener.list
      | .updated uri => listener.uris.contains uri).map fun listener ↦ some listener.id

end Routing

section Publish

variable (encodedLength : Json → ℕ)

/-- Some more bytes, within the budget of the queue. -/
def grow (bytes more : ℕ) : Except Failure ℕ :=
  if bytes + more ≤ QUEUE_BYTES then .ok (bytes + more) else .error .capacity

def Change.uriBytes : Change → ℕ
  | .listChanged => 0
  | .updated uri => uri.utf8ByteSize

/-- The bytes of one addressee. -/
def idBytes (id : Option Json) : ℕ :=
  (id.map encodedLength).getD 0

/-- The bytes after a change. With a sink its URI is charged here, once. -/
def chargeChange (direct : Bool) (change : Change) (bytes : ℕ) : Except Failure ℕ :=
  if direct then grow bytes (change.uriBytes + 256) else .ok bytes

/-- What an addressee is charged. Without a sink each of them carries the URI. -/
def idCost (direct : Bool) (change : Change) (id : Option Json) : ℕ :=
  if direct then idBytes encodedLength id + 256
  else change.uriBytes + idBytes encodedLength id + 256

/-- The bytes after a delivery. -/
def charge (direct : Bool) (delivery : Delivery) (bytes : ℕ) : Except Failure ℕ := do
  let bytes ← chargeChange direct delivery.change bytes
  delivery.audiences.foldlM (fun bytes id ↦
    grow bytes (idCost encodedLength direct delivery.change id)) bytes

/-- One turn of the loop over the changes, with the bytes and the deliveries so far. -/
def deliver (direct : Bool) (routing : Routing) (progress : ℕ × List Delivery) (change : Change) :
    Except Failure (ℕ × List Delivery) :=
  let audiences := routing.audiences change
  if audiences.isEmpty then .ok progress
  else do
    let bytes ← charge encodedLength direct ⟨change, audiences⟩ progress.1
    .ok (bytes, progress.2 ++ [⟨change, audiences⟩])

namespace Publisher

/-- The first failure is kept. -/
def fail (publisher : Publisher) (reason : Failure) : Publisher :=
  if publisher.failure.isNone then { publisher with failure := some reason } else publisher

/-- A batch for the sink, or for the queue when there is none. -/
def handOver (publisher : Publisher) (batch : Batch) : Option Batch × Publisher :=
  if publisher.available < batch.bytes then (none, publisher.fail .capacity)
  else
    let charged := { publisher with available := publisher.available - batch.bytes }
    match publisher.direct with
    | some true => (some batch, charged)
    | some false => (none, publisher.fail .unavailable)
    | none =>
      if publisher.receiving ∧ publisher.queue.length < QUEUE_ITEMS then
        (some batch, { charged with queue := publisher.queue ++ [batch] })
      else (none, publisher.fail .capacity)

/-- The batch that a publication hands over, and the publisher afterwards. -/
def publish (publisher : Publisher) (origin : Origin) : Option Batch × Publisher :=
  if publisher.active = false ∨ publisher.failure.isSome then (none, publisher)
  else if publisher.routing.interested = false then (none, publisher)
  else
    match origin.changes publisher.routing.sceneItems with
    | .error reason => (none, publisher.fail reason)
    | .ok changes =>
      match changes.foldlM
        (deliver encodedLength publisher.direct.isSome publisher.routing) (0, []) with
      | .error reason => (none, publisher.fail reason)
      | .ok (bytes, deliveries) =>
        if deliveries.isEmpty then (none, publisher)
        else publisher.handOver ⟨deliveries, bytes⟩

end Publisher

end Publish

/-! ### What is to be delivered -/

/-- Somebody who is told of changes: of the list, and of some URIs. -/
structure Subscriber where
  identity : Option Json
  list : Bool
  uris : List String

def Subscriber.wants (subscriber : Subscriber) : Change → Bool
  | .listChanged => subscriber.list
  | .updated uri => subscriber.uris.contains uri

/-- The legacy client, who is told of the list and of its URIs, or else the listeners. -/
def Routing.subscribers (routing : Routing) : List Subscriber :=
  if routing.legacy then [⟨none, true, routing.legacyUris⟩]
  else routing.listeners.map fun listener ↦ ⟨some listener.id, listener.list, listener.uris⟩

/-- The delivery of a change to all who want it. -/
def Routing.address (routing : Routing) (change : Change) : Delivery :=
  ⟨change, (routing.subscribers.filter (·.wants change)).map Subscriber.identity⟩

/-- The deliveries of some changes, without those that nobody wants. -/
def expected (routing : Routing) (changes : List Change) : List Delivery :=
  (changes.map routing.address).filter fun delivery ↦ !delivery.audiences.isEmpty

theorem audiences_eq (routing : Routing) (change : Change) :
    routing.audiences change = (routing.address change).audiences := by
  unfold Routing.audiences Routing.address Routing.subscribers
  split_ifs with hlegacy
  · cases change with
    | listChanged => rfl
    | updated uri =>
      by_cases huri : uri ∈ routing.legacyUris <;> simp [Subscriber.wants, huri]
  · rw [filter_map, map_map]
    cases change <;> rfl

section Budget

variable (encodedLength : Json → ℕ) (direct : Bool)

/-- All that a delivery is charged. -/
def deliveryCost (delivery : Delivery) : ℕ :=
  (if direct then delivery.change.uriBytes + 256 else 0) +
    (delivery.audiences.map (idCost encodedLength direct delivery.change)).sum

def cost (deliveries : List Delivery) : ℕ :=
  (deliveries.map (deliveryCost encodedLength direct)).sum

variable {bytes : ℕ}

/-- Some bytes, and then what is charged next, are charged as their sum. -/
theorem grow_then {α : Type} {first second : ℕ} {next : ℕ → Except Failure α} {result : ℕ → α}
    (hnext : ∀ total ≤ QUEUE_BYTES, next total = (grow total second).map result) :
    (grow bytes first >>= next) = (grow bytes (first + second)).map result := by
  unfold grow at hnext ⊢
  by_cases hfirst : bytes + first ≤ QUEUE_BYTES
  · rw [if_pos hfirst, ok_bind, hnext _ hfirst, Nat.add_assoc]
  · rw [if_neg hfirst, if_neg (by omega)]
    rfl

theorem map_self (result : Except Failure ℕ) : result.map (fun bytes ↦ bytes) = result := by
  cases result <;> rfl

theorem grow_zero (hbytes : bytes ≤ QUEUE_BYTES) : grow bytes 0 = .ok bytes :=
  if_pos hbytes

theorem foldlM_grow {α : Type} (amount : α → ℕ) (xs : List α) (hbytes : bytes ≤ QUEUE_BYTES) :
    xs.foldlM (fun bytes x ↦ grow bytes (amount x)) bytes = grow bytes (xs.map amount).sum := by
  induction xs generalizing bytes with
  | nil => exact (grow_zero hbytes).symm
  | cons x xs ih =>
    rw [foldlM_cons, map_cons, sum_cons, ← map_self (grow bytes (_ + _))]
    exact grow_then fun total htotal ↦ (ih htotal).trans (map_self _).symm

theorem charge_eq (delivery : Delivery) (hbytes : bytes ≤ QUEUE_BYTES) :
    charge encodedLength direct delivery bytes =
      grow bytes (deliveryCost encodedLength direct delivery) := by
  unfold charge deliveryCost chargeChange
  cases direct with
  | false =>
    rw [if_neg Bool.false_ne_true, if_neg Bool.false_ne_true, ok_bind, Nat.zero_add]
    exact foldlM_grow _ _ hbytes
  | true =>
    rw [if_pos rfl, if_pos rfl]
    refine Eq.trans (grow_then fun total htotal ↦ ?_) (map_self _)
    exact (foldlM_grow _ _ htotal).trans (map_self _).symm

/-- The loop over the changes collects the deliveries that are expected, when the budget holds them
all. -/
theorem foldlM_deliver (routing : Routing) (changes : List Change) {progress : ℕ × List Delivery}
    (hbytes : progress.1 ≤ QUEUE_BYTES) :
    changes.foldlM (deliver encodedLength direct routing) progress =
      (grow progress.1 (cost encodedLength direct (expected routing changes))).map
        fun bytes ↦ (bytes, progress.2 ++ expected routing changes) := by
  induction changes generalizing progress with
  | nil =>
    show Except.ok progress = (grow progress.1 0).map _
    rw [grow_zero hbytes]
    exact congrArg Except.ok (Prod.ext rfl (append_nil _).symm)
  | cons change changes ih =>
    rw [foldlM_cons, deliver, audiences_eq]
    have hsplit : expected routing (change :: changes) =
        (if (routing.address change).audiences.isEmpty then [] else [routing.address change]) ++
          expected routing changes := by
      unfold expected
      rw [map_cons, filter_cons]
      cases (routing.address change).audiences.isEmpty <;> rfl
    rw [hsplit]
    by_cases hempty : (routing.address change).audiences.isEmpty = true
    · rw [if_pos hempty, if_pos hempty]
      exact ih hbytes
    · have haddress : (⟨change, (routing.address change).audiences⟩ : Delivery) =
          routing.address change := rfl
      have hcost : cost encodedLength direct
          ([routing.address change] ++ expected routing changes) =
          deliveryCost encodedLength direct (routing.address change) +
            cost encodedLength direct (expected routing changes) := by
        simp [cost]
      rw [if_neg hempty, if_neg hempty, hcost, haddress,
        charge_eq encodedLength direct _ hbytes, bind_assoc]
      refine grow_then fun total htotal ↦ ?_
      rw [ok_bind, ih htotal, append_assoc]

end Budget

/-! ### The shortcuts -/

section Shortcuts

variable {routing : Routing}

theorem expected_eq_nil_iff {changes : List Change} :
    expected routing changes = [] ↔
      ∀ change ∈ changes, ∀ subscriber ∈ routing.subscribers, subscriber.wants change = false := by
  unfold expected
  rw [filter_eq_nil_iff, forall_mem_map]
  refine forall₂_congr fun change _ ↦ ?_
  simp [Routing.address]

/-- When nobody is interested, nothing is expected. -/
theorem expected_of_not_interested (hinterest : routing.interested = false)
    (changes : List Change) : expected routing changes = [] := by
  unfold Routing.interested at hinterest
  obtain ⟨hlegacy, hnone⟩ := Bool.or_eq_false_iff.mp hinterest
  refine expected_eq_nil_iff.mpr fun change _ subscriber hsubscriber ↦ ?_
  unfold Routing.subscribers at hsubscriber
  rw [hlegacy, if_neg Bool.false_ne_true] at hsubscriber
  obtain ⟨listener, hlistener, rfl⟩ := mem_map.mp hsubscriber
  have hlist := any_eq_false.mp hnone listener hlistener
  rw [Bool.or_eq_true, not_or] at hlist
  cases change with
  | listChanged => exact Bool.eq_false_iff.mpr hlist.1
  | updated uri =>
    have hempty : listener.uris = [] := by simpa using hlist.2
    simp [Subscriber.wants, hempty]

/-- When no subscribed URI has the shape of scene items, nobody wants an update of that shape. -/
theorem not_wants_of_ofItems (hitems : routing.sceneItems = false) {subscriber : Subscriber}
    (hsubscriber : subscriber ∈ routing.subscribers) {change : Change}
    (hchange : change.ofItems = true) : subscriber.wants change = false := by
  cases change with
  | listChanged => cases hchange
  | updated uri =>
    have hshape : ∀ other ∈ subscriber.uris, itemUri other = false := by
      intro other hother
      unfold Routing.sceneItems at hitems
      unfold Routing.subscribers at hsubscriber
      split_ifs at hitems hsubscriber with hlegacy
      · obtain rfl := mem_singleton.mp hsubscriber
        exact Bool.eq_false_iff.mpr (any_eq_false.mp hitems other hother)
      · obtain ⟨listener, hlistener, rfl⟩ := mem_map.mp hsubscriber
        exact Bool.eq_false_iff.mpr (any_eq_false.mp hitems other
          (mem_flatMap.mpr ⟨listener, hlistener, hother⟩))
    refine Bool.eq_false_iff.mpr fun hwants ↦ ?_
    have hmem : uri ∈ subscriber.uris := contains_iff_mem.mp hwants
    have hcontradiction : itemUri uri = true := hchange
    exact absurd hcontradiction (Bool.eq_false_iff.mp (hshape uri hmem))

/-- When no subscribed URI has the shape of scene items, the updates of that shape may be left
out. -/
theorem expected_without_items (hitems : routing.sceneItems = false) (changes : List Change) :
    expected routing (changes.filter fun change ↦ !change.ofItems) = expected routing changes := by
  unfold expected
  induction changes with
  | nil => rfl
  | cons change changes ih =>
    cases hchange : change.ofItems with
    | false =>
      rw [filter_cons_of_pos (by simp [hchange]), map_cons, map_cons,
        filter_cons, filter_cons, ih]
    | true =>
      have hnobody : (routing.address change).audiences = [] := by
        simp only [Routing.address, map_eq_nil_iff, filter_eq_nil_iff]
        exact fun subscriber hsubscriber ↦
          Bool.eq_false_iff.mp (not_wants_of_ofItems hitems hsubscriber hchange)
      rw [filter_cons_of_neg (by simp [hchange]), map_cons, filter_cons, ih, hnobody]
      rfl

end Shortcuts

/-! ### The publication -/

section Publication

variable {encodedLength : Json → ℕ} {publisher : Publisher} {event : String} {data : Json}
  {changes : List Change}

/-- The publisher is active and has not failed. -/
def Publisher.Open (publisher : Publisher) : Prop :=
  publisher.active = true ∧ publisher.failure = none

/-- There is room for some deliveries: in the budget of a batch, in the bytes that are left, and in
the queue or at a sink that is alive. -/
def Publisher.Fits (encodedLength : Json → ℕ) (publisher : Publisher)
    (deliveries : List Delivery) : Prop :=
  cost encodedLength publisher.direct.isSome deliveries ≤ QUEUE_BYTES ∧
    cost encodedLength publisher.direct.isSome deliveries ≤ publisher.available ∧
    match publisher.direct with
    | some alive => alive = true
    | none => publisher.receiving = true ∧ publisher.queue.length < QUEUE_ITEMS

/-- Assumes: an open publisher and a projection that succeeds. The publication hands over what is
expected of the full projection, within the budget. -/
theorem publish_eq (hopen : publisher.Open) (hproject : project event data = .ok changes) :
    publisher.publish encodedLength (.obs event data) =
      if expected publisher.routing changes = [] then (none, publisher)
      else
        match grow 0 (cost encodedLength publisher.direct.isSome
          (expected publisher.routing changes)) with
        | .error reason => (none, publisher.fail reason)
        | .ok bytes => publisher.handOver ⟨expected publisher.routing changes, bytes⟩ := by
  have hready : ¬ (publisher.active = false ∨ publisher.failure.isSome = true) := by
    rw [hopen.1, hopen.2]
    simp
  unfold Publisher.publish
  rw [if_neg hready]
  cases hinterest : publisher.routing.interested with
  | false => rw [if_pos rfl, expected_of_not_interested hinterest, if_pos rfl]
  | true =>
    have hselected : ∃ selected, (Origin.obs event data).changes publisher.routing.sceneItems =
        .ok selected ∧ expected publisher.routing selected =
          expected publisher.routing changes := by
      cases hitems : publisher.routing.sceneItems with
      | true => exact ⟨changes, hproject, rfl⟩
      | false => exact ⟨_, projectSelected_false hproject, expected_without_items hitems changes⟩
    obtain ⟨selected, hchanges, hsame⟩ := hselected
    rw [if_neg (by simp), hchanges]
    dsimp only
    rw [foldlM_deliver _ _ _ _ (Nat.zero_le _), hsame, nil_append]
    by_cases hnone : expected publisher.routing changes = []
    · rw [if_pos hnone, hnone]
      rfl
    · rw [if_neg hnone]
      cases grow 0 (cost encodedLength publisher.direct.isSome
        (expected publisher.routing changes)) with
      | error reason => rfl
      | ok bytes => exact if_neg (by simpa using hnone)

theorem fail_of_open (hopen : publisher.Open) (reason : Failure) :
    publisher.fail reason = { publisher with failure := some reason } := by
  unfold Publisher.fail
  rw [hopen.2]
  rfl

/-- A batch that fits is handed over, and only the queue and the bytes that are left change. -/
theorem handOver_of_fits {batch : Batch} (hroom : batch.bytes ≤ publisher.available)
    (htaken : match publisher.direct with
      | some alive => alive = true
      | none => publisher.receiving = true ∧ publisher.queue.length < QUEUE_ITEMS) :
    publisher.handOver batch = (some batch, { publisher with
      available := publisher.available - batch.bytes
      queue := if publisher.direct.isSome then publisher.queue
        else publisher.queue ++ [batch] }) := by
  unfold Publisher.handOver
  rw [if_neg (Nat.not_lt_of_le hroom)]
  cases hdirect : publisher.direct with
  | none =>
    rw [hdirect] at htaken
    exact if_pos htaken
  | some alive =>
    rw [hdirect] at htaken
    obtain rfl : alive = true := htaken
    rfl

/-- A batch that does not fit is dropped, and the publisher fails. -/
theorem handOver_of_not_fits {batch : Batch}
    (hrefused : ¬ (batch.bytes ≤ publisher.available ∧
      match publisher.direct with | some alive => alive = true | none => publisher.receiving =
      true ∧ publisher.queue.length < QUEUE_ITEMS)) :
    ∃ reason, publisher.handOver batch = (none, publisher.fail reason) := by
  unfold Publisher.handOver
  by_cases hroom : publisher.available < batch.bytes
  · exact ⟨.capacity, if_pos hroom⟩
  · rw [if_neg hroom]
    have htaken := fun htaken ↦ hrefused ⟨Nat.le_of_not_lt hroom, htaken⟩
    cases hdirect : publisher.direct with
    | none =>
      rw [hdirect] at htaken
      exact ⟨.capacity, if_neg htaken⟩
    | some alive =>
      rw [hdirect] at htaken
      cases alive with
      | true => exact absurd rfl htaken
      | false => exact ⟨.unavailable, rfl⟩

/-- Assumes: a projection of an event that succeeds, with any routing and any publisher around it.
The publication agrees with the full projection:

* where nothing is expected, nothing is published and nothing changes;
* an open publisher with room for what is expected hands over one batch with exactly these
  deliveries, and the routing stays as it is;
* an open publisher without room publishes nothing and fails, and one that is not open does nothing.

Different scenes never share the URI of their items. -/
theorem publishes_expected (hproject : project event data = .ok changes) :
    (expected publisher.routing changes = [] →
      publisher.publish encodedLength (.obs event data) = (none, publisher)) ∧
    (publisher.Open → expected publisher.routing changes ≠ [] →
      publisher.Fits encodedLength (expected publisher.routing changes) →
      ∃ batch next, publisher.publish encodedLength (.obs event data) = (some batch, next) ∧
        batch.deliveries = expected publisher.routing changes ∧
        next.routing = publisher.routing ∧ next.Open) ∧
    (publisher.Open → expected publisher.routing changes ≠ [] →
      ¬ publisher.Fits encodedLength (expected publisher.routing changes) →
      ∃ reason, publisher.publish encodedLength (.obs event data) =
        (none, { publisher with failure := some reason })) ∧
    (¬ publisher.Open → publisher.publish encodedLength (.obs event data) = (none, publisher)) ∧
    ∀ first second, itemsUri first = itemsUri second → first = second := by
  have hclosed : ¬ publisher.Open →
      publisher.publish encodedLength (.obs event data) = (none, publisher) := by
    intro hopen
    refine if_pos ?_
    by_contra hready
    rw [not_or, Bool.not_eq_false, Bool.not_eq_true, Option.isSome_eq_false_iff,
      Option.isNone_iff_eq_none] at hready
    exact hopen hready
  refine ⟨fun hnone ↦ ?_, fun hopen hsome hfits ↦ ?_, fun hopen hsome hfits ↦ ?_, hclosed,
    fun _ _ ↦ itemsUri_injective⟩
  · by_cases hopen : publisher.Open
    · rw [publish_eq hopen hproject, if_pos hnone]
    · exact hclosed hopen
  · obtain ⟨hbudget, hroom, htaken⟩ := hfits
    rw [publish_eq hopen hproject, if_neg hsome, grow, Nat.zero_add, if_pos hbudget]
    dsimp only
    rw [handOver_of_fits hroom htaken]
    exact ⟨_, _, rfl, rfl, rfl, hopen⟩
  · rw [publish_eq hopen hproject, if_neg hsome, grow, Nat.zero_add]
    by_cases hbudget : cost encodedLength publisher.direct.isSome
        (expected publisher.routing changes) ≤ QUEUE_BYTES
    · rw [if_pos hbudget]
      obtain ⟨reason, hreason⟩ : ∃ reason, publisher.handOver ⟨expected publisher.routing changes,
          cost encodedLength publisher.direct.isSome (expected publisher.routing changes)⟩ =
          (none, publisher.fail reason) :=
        handOver_of_not_fits fun hrest ↦ hfits ⟨hbudget, hrest⟩
      exact ⟨reason, hreason.trans (congrArg _ (fail_of_open hopen reason))⟩
    · rw [if_neg hbudget]
      exact ⟨.capacity, by rw [← fail_of_open hopen]⟩

end Publication

/-! ### A legacy client -/

/-- A legacy client that has subscribed to the status, with 64 batches that it has not read. -/
def waitingClient : Publisher where
  active := true
  receiving := true
  failure := none
  routing := { Routing.new false with legacy := true, legacyUris := ["obs://status"] }
  queue := List.replicate 64 ⟨[⟨.updated "obs://status", [none]⟩], 268⟩
  available := QUEUE_BYTES - 64 * 268
  direct := none

theorem publishes_expected_status :
    project "RecordStateChanged" (.object []) = .ok [.updated "obs://status"] ∧
      ∃ batch next, ({ waitingClient with queue := [] } : Publisher).publish (fun _ ↦ 0)
          (.obs "RecordStateChanged" (.object [])) = (some batch, next) ∧
        batch.deliveries = [⟨.updated "obs://status", [none]⟩] := by
  have hproject : project "RecordStateChanged" (.object []) = .ok [.updated "obs://status"] := rfl
  have hexpected : expected waitingClient.routing [.updated "obs://status"] =
      [⟨.updated "obs://status", [none]⟩] := rfl
  have hpublished := (@publishes_expected (fun _ ↦ 0) { waitingClient with queue := [] } _ _ _
    hproject).2.1 ⟨rfl, rfl⟩
  rw [hexpected] at hpublished
  obtain ⟨batch, next, hpublish, hdeliveries, -⟩ := hpublished (cons_ne_nil _ _)
    ⟨by decide, by decide, rfl, by decide⟩
  exact ⟨hproject, batch, next, hpublish, hdeliveries⟩

/-- The client wants the change of the status, and the publication drops it: the queue is full. -/
theorem publish_waitingClient :
    project "RecordStateChanged" (.object []) = .ok [.updated "obs://status"] ∧
      expected waitingClient.routing [.updated "obs://status"] =
        [⟨.updated "obs://status", [none]⟩] ∧
      (waitingClient.publish (fun _ ↦ 0) (.obs "RecordStateChanged" (.object []))).1 = none := by
  exact ⟨rfl, rfl, rfl⟩

end ObsMcp.Subscriptions
