import Mathlib.Data.List.Count
import ObsMcp.Foundations.Machine

/-!
# The evidence of one physical session

The words that a socket, an observer and the owner of an observation share (`session.rs`,
`session_observation.rs`). The socket reserves a cursor for every event it receives and then queues
the event or invalidates the session; the observer takes the queued events one by one, publishes the
revision and then the cursor it has processed; the owner takes the evidence away. `Shared.act` is
one such step. `Coherent` says what the words mean: the events are processed in the order of their
cursors without a gap, and the published revision counts the invalidating events among those
processed, one ahead of the cursor between the two publications (`Shared.act_keeps`). Nothing is
ever taken back (`Grows`).

Which events invalidate is a parameter, so that the canonical and the audit profile are two
instances.
-/

namespace ObsMcp.Observation

open List

structure EvidenceState where
  generation : ℕ
  revision : ℕ
  connected : Bool
  cancelled : Bool
  deriving DecidableEq

/-- Where the socket is: between two messages, with a cursor reserved for an event that is not
queued yet, or gone. -/
inductive Socket
  | reading
  | reserved (kind : String)
  | closed
  deriving DecidableEq

/-- Where the observer is: waiting for an event, with the next evidence of an event computed, with
the revision of an event published, with its cursor published, or gone. -/
inductive Observer
  | waiting
  | computed (next : EvidenceState) (sequence : ℕ)
  | publishing (sequence : ℕ)
  | delivering
  | stopped
  deriving DecidableEq

/-- The words of a session. `received` lists the kinds of the events whose cursor is reserved, and
`token` is the generation of the connection. -/
structure Shared where
  token : ℕ
  received : List String
  socket : Socket
  queue : List (ℕ × String)
  invalidated : Bool
  evidence : EvidenceState
  processed : ℕ
  observer : Observer
  owned : Bool
  deriving DecidableEq

inductive Action
  | reserve (kind : String)
  | exhaust
  | enqueue
  | overflow
  | hangUp
  | terminate
  | dequeue
  | publishRevision
  | publishProcessed
  | delivered (accepted : Bool)
  | endOfEvents
  | abort
  | invalidate
  | cancel
  | dropOwner
  deriving DecidableEq

namespace Shared

/-- A new session, just bound to its observer. -/
def initial (generation : ℕ) : Shared :=
  ⟨generation, [], .reading, [], false, ⟨generation, 0, true, false⟩, 0, .waiting, true⟩

/-- The cursor of the last event received. -/
def cursor (s : Shared) : ℕ := s.received.length

/-- All publishers of the evidence are gone. -/
def unpublished (s : Shared) : Bool := !s.owned && decide (s.observer = .stopped)

def disconnect (s : Shared) : Shared :=
  { s with evidence := { s.evidence with connected := false } }

/-- The end of the observer takes the connection from the evidence. -/
def stop (s : Shared) : Shared :=
  { s.disconnect with observer := .stopped }

/-- The evidence after an event, while it can be counted. -/
def nextEvidence (invalidates : String → Bool) (evidence : EvidenceState) (kind : String) :
    Option EvidenceState :=
  if invalidates kind then
    if evidence.revision + 1 < 2 ^ 64 then
      some { evidence with revision := evidence.revision + 1 }
    else
      none
  else
    some evidence

/-- The observer takes an event: out of order it stops, otherwise it computes the next evidence. -/
def observe (invalidates : String → Bool) (s : Shared) (sequence : ℕ) (kind : String) : Shared :=
  if s.processed + 1 < 2 ^ 64 ∧ s.processed + 1 = sequence then
    match nextEvidence invalidates s.evidence kind with
    | some next => { s with observer := .computed next sequence }
    | none => s.stop
  else
    s.stop

/-- The computed evidence, with what the owner took away in the meantime. -/
def merge (next current : EvidenceState) : EvidenceState :=
  { next with
    connected := next.connected && current.connected
    cancelled := next.cancelled || current.cancelled }

def act (invalidates : String → Bool) (s : Shared) : Action → Option Shared
  | .reserve kind =>
    if s.socket = .reading ∧ s.cursor + 1 < 2 ^ 64 then
      some { s with received := s.received ++ [kind], socket := .reserved kind }
    else
      none
  | .exhaust =>
    if s.socket = .reading ∧ ¬ s.cursor + 1 < 2 ^ 64 then
      some { s with socket := .closed, invalidated := true }
    else
      none
  | .enqueue =>
    match s.socket with
    | .reserved kind =>
      if s.observer ≠ .stopped then
        some { s with queue := s.queue ++ [(s.cursor, kind)], socket := .reading }
      else
        none
    | _ => none
  | .overflow =>
    match s.socket with
    | .reserved _ => some { s with socket := .closed, invalidated := true }
    | _ => none
  | .hangUp =>
    if s.socket = .reading then
      some { s with socket := .closed, invalidated := true }
    else
      none
  | .terminate => some { s with invalidated := true }
  | .dequeue =>
    if s.observer = .waiting then
      match s.queue with
      | (sequence, kind) :: rest =>
        some (observe invalidates { s with queue := rest } sequence kind)
      | [] => none
    else
      none
  | .publishRevision =>
    match s.observer with
    | .computed next sequence =>
      some { s with evidence := merge next s.evidence, observer := .publishing sequence }
    | _ => none
  | .publishProcessed =>
    match s.observer with
    | .publishing sequence => some { s with processed := sequence, observer := .delivering }
    | _ => none
  | .delivered accepted =>
    if s.observer = .delivering then
      some (if accepted then { s with observer := .waiting } else s.stop)
    else
      none
  | .endOfEvents =>
    if s.observer = .waiting ∧ s.queue = [] ∧ s.socket = .closed then some s.stop else none
  | .abort => if s.observer = .waiting ∧ !s.owned then some s.stop else none
  | .invalidate => some s.disconnect
  | .cancel => some { s with evidence := { s.evidence with cancelled := true } }
  | .dropOwner => some { s.disconnect with owned := false }

end Shared

/-! ### Counting -/

/-- The invalidating events among the first ones. -/
def invalidating (invalidates : String → Bool) (kinds : List String) (n : ℕ) : ℕ :=
  (kinds.take n).countP invalidates

section Counting

variable {invalidates : String → Bool} {kinds more : List String} {m n : ℕ}

theorem invalidating_mono (hle : m ≤ n) :
    invalidating invalidates kinds m ≤ invalidating invalidates kinds n :=
  (take_sublist_take_left hle).countP_le

/-- Later events do not change the count among earlier ones. -/
theorem invalidating_append (hle : n ≤ kinds.length) :
    invalidating invalidates (kinds ++ more) n = invalidating invalidates kinds n := by
  rw [invalidating, invalidating, take_append_of_le_length hle]

theorem invalidating_of_extends (hextends : kinds <+: more) (hle : n ≤ kinds.length) :
    invalidating invalidates more n = invalidating invalidates kinds n := by
  obtain ⟨rest, rfl⟩ := hextends
  exact invalidating_append hle

theorem invalidating_succ {kind : String} (hkind : kinds[n]? = some kind) :
    invalidating invalidates kinds (n + 1) =
      invalidating invalidates kinds n + if invalidates kind then 1 else 0 := by
  rw [invalidating, invalidating, take_add_one, hkind, countP_append]
  simp [countP_singleton]

end Counting

/-! ### What the words mean -/

namespace Observer

/-- The events the observer has taken and not processed. -/
def inHand : Observer → ℕ
  | computed _ _ => 1
  | publishing _ => 1
  | _ => 0

/-- The events whose revision is published ahead of their cursor. -/
def ahead : Observer → ℕ
  | publishing _ => 1
  | _ => 0

theorem ahead_le_inHand (observer : Observer) : observer.ahead ≤ observer.inHand := by
  cases observer with
  | waiting => exact Nat.le_refl 0
  | computed next sequence => exact Nat.zero_le 1
  | publishing sequence => exact Nat.le_refl 1
  | delivering => exact Nat.le_refl 0
  | stopped => exact Nat.le_refl 0

end Observer

/-- The events with a reserved cursor that are not queued yet. -/
def Socket.pending : Socket → ℕ
  | reserved _ => 1
  | _ => 0

/-- What the observer holds is the next event: its cursor and the evidence after it. -/
def Shared.Holds (invalidates : String → Bool) (s : Shared) : Prop :=
  match s.observer with
  | .computed next sequence =>
    sequence = s.processed + 1 ∧
      next.revision = invalidating invalidates s.received (s.processed + 1) ∧
      next.generation = s.evidence.generation
  | .publishing sequence => sequence = s.processed + 1
  | _ => True

/-- The words of a session agree with each other. -/
structure Coherent (invalidates : String → Bool) (s : Shared) : Prop where
  kinds : ∀ entry ∈ s.queue, 0 < entry.1 ∧ s.received[entry.1 - 1]? = some entry.2
  order : s.observer ≠ .stopped →
    s.queue.map Prod.fst = List.range' (s.processed + s.observer.inHand + 1) s.queue.length
  whole : s.observer ≠ .stopped → s.socket ≠ .closed →
    s.received.length =
      s.processed + s.observer.inHand + s.queue.length + s.socket.pending
  last : ∀ kind, s.socket = .reserved kind → s.received.getLast? = some kind
  bound : s.processed + s.observer.inHand ≤ s.received.length
  revision : s.evidence.revision =
    invalidating invalidates s.received (s.processed + s.observer.ahead)
  holds : s.Holds invalidates

/-- What a session never takes back. -/
structure Grows (s t : Shared) : Prop where
  received : s.received <+: t.received
  revision : s.evidence.revision ≤ t.evidence.revision
  processed : s.processed ≤ t.processed
  generation : t.evidence.generation = s.evidence.generation
  connected : t.evidence.connected = true → s.evidence.connected = true
  cancelled : s.evidence.cancelled = true → t.evidence.cancelled = true
  invalidated : s.invalidated = true → t.invalidated = true

theorem Grows.refl (s : Shared) : Grows s s :=
  ⟨prefix_rfl, Nat.le_refl _, Nat.le_refl _, rfl, id, id, id⟩

theorem Grows.trans {r s t : Shared} (hrs : Grows r s) (hst : Grows s t) : Grows r t where
  received := hrs.received.trans hst.received
  revision := Nat.le_trans hrs.revision hst.revision
  processed := Nat.le_trans hrs.processed hst.processed
  generation := hst.generation.trans hrs.generation
  connected h := hrs.connected (hst.connected h)
  cancelled h := hst.cancelled (hrs.cancelled h)
  invalidated h := hst.invalidated (hrs.invalidated h)

namespace Shared

variable {invalidates : String → Bool} {s t : Shared}

theorem initial_coherent (invalidates : String → Bool) (generation : ℕ) :
    Coherent invalidates (initial generation) where
  kinds := by simp [initial]
  order _ := rfl
  whole _ _ := rfl
  last := by simp [initial]
  bound := Nat.le_refl _
  revision := rfl
  holds := trivial

/-- The end of the observer keeps the words in agreement, when it holds no event. -/
theorem stop_coherent (hs : Coherent invalidates s) (hnone : s.observer.inHand = 0) :
    Coherent invalidates s.stop where
  kinds := hs.kinds
  order h := absurd rfl h
  whole h := absurd rfl h
  last := hs.last
  bound := by
    have := hs.bound
    rw [hnone] at this
    exact this
  revision := by
    have hahead : s.observer.ahead = 0 :=
      Nat.le_zero.mp (hnone ▸ s.observer.ahead_le_inHand)
    have hrevision := hs.revision
    rw [hahead] at hrevision
    exact hrevision
  holds := trivial

theorem disconnect_grows (s : Shared) : Grows s s.disconnect :=
  { Grows.refl s with connected := by simp [disconnect] }

theorem stop_grows (s : Shared) : Grows s s.stop :=
  { Grows.refl s with connected := by simp [stop, disconnect] }

variable {evidence next : EvidenceState} {kind : String} {sequence : ℕ}

/-- The words that only the socket and the owner touch leave the observer alone. -/
theorem coherent_of_observer {owned invalidated : Bool} (hs : Coherent invalidates s)
    (hrevision : evidence.revision = s.evidence.revision)
    (hgeneration : evidence.generation = s.evidence.generation) :
    Coherent invalidates { s with evidence, owned, invalidated } where
  kinds := hs.kinds
  order := hs.order
  whole := hs.whole
  last := hs.last
  bound := hs.bound
  revision := hrevision.trans hs.revision
  holds := by
    have hholds := hs.holds
    unfold Holds at hholds ⊢
    simp only [hgeneration]
    exact hholds

theorem reserve_coherent (hs : Coherent invalidates s) (hsocket : s.socket = .reading) :
    Coherent invalidates
      { s with received := s.received ++ [kind], socket := .reserved kind } where
  kinds entry hentry := by
    obtain ⟨hpos, hkind⟩ := hs.kinds entry hentry
    refine ⟨hpos, ?_⟩
    have hlt := (List.getElem?_eq_some_iff.mp hkind).1
    rw [getElem?_append_left hlt, hkind]
  order := hs.order
  whole hobserver _ := by
    have hwhole := hs.whole hobserver (by simp [hsocket])
    simp only [hsocket, Socket.pending] at hwhole
    simp only [length_append, length_singleton, Socket.pending, hwhole]
  last other hother := by
    cases hother
    simp
  bound := by
    have := hs.bound
    simp only [length_append]
    omega
  revision := by
    have hbound := hs.bound
    have hahead := s.observer.ahead_le_inHand
    have hle : s.processed + s.observer.ahead ≤ s.received.length := by omega
    exact hs.revision.trans (invalidating_append hle).symm
  holds := by
    have hholds := hs.holds
    have hbound := hs.bound
    unfold Holds at hholds ⊢
    cases hobserver : s.observer with
    | computed next sequence =>
      rw [hobserver] at hholds hbound
      simp only at hholds ⊢
      rw [invalidating_append (show s.processed + 1 ≤ s.received.length from hbound)]
      exact hholds
    | publishing sequence =>
      rw [hobserver] at hholds
      exact hholds
    | waiting => trivial
    | delivering => trivial
    | stopped => trivial

theorem enqueue_coherent (hs : Coherent invalidates s) (hsocket : s.socket = .reserved kind)
    (hobserver : s.observer ≠ .stopped) :
    Coherent invalidates
      { s with queue := s.queue ++ [(s.cursor, kind)], socket := .reading } where
  kinds entry hentry := by
    rcases mem_append.mp hentry with hentry | hentry
    · exact hs.kinds entry hentry
    · rw [mem_singleton.mp hentry]
      have hlast := hs.last kind hsocket
      rw [getLast?_eq_getElem?] at hlast
      refine ⟨?_, hlast⟩
      have := (List.getElem?_eq_some_iff.mp hlast).1
      simp only [cursor]
      omega
  order _ := by
    have horder := hs.order hobserver
    have hwhole := hs.whole hobserver (by simp [hsocket])
    simp only [hsocket, Socket.pending] at hwhole
    rw [map_append, horder, length_append, length_singleton, range'_concat]
    congr 1
    simp only [map_cons, map_nil, List.cons.injEq, and_true, cursor]
    omega
  whole _ _ := by
    have hwhole := hs.whole hobserver (by simp [hsocket])
    simp only [hsocket, Socket.pending] at hwhole
    simp only [length_append, length_singleton, Socket.pending, hwhole]
    omega
  last := by simp
  bound := hs.bound
  revision := hs.revision
  holds := hs.holds

theorem close_coherent (hs : Coherent invalidates s) :
    Coherent invalidates { s with socket := .closed, invalidated := true } where
  kinds := hs.kinds
  order := hs.order
  whole _ h := absurd rfl h
  last := by simp
  bound := hs.bound
  revision := hs.revision
  holds := hs.holds

/-- The evidence after an event counts it. -/
theorem nextEvidence_eq_some (hnext : nextEvidence invalidates evidence kind = some next) :
    next.revision = evidence.revision + (if invalidates kind then 1 else 0) ∧
      next.generation = evidence.generation ∧ next.connected = evidence.connected ∧
      next.cancelled = evidence.cancelled := by
  unfold nextEvidence at hnext
  split_ifs at hnext with hinvalidates hbound
  · cases hnext
    simp [hinvalidates]
  · cases hnext
    simp [hinvalidates]

section

variable (hs : Coherent invalidates s)
include hs

theorem observe_coherent {rest : List (ℕ × String)} (hobserver : s.observer = .waiting)
    (hqueue : s.queue = (sequence, kind) :: rest) :
    Coherent invalidates (observe invalidates { s with queue := rest } sequence kind) := by
  have hrunning : s.observer ≠ .stopped := by simp [hobserver]
  have horder := hs.order hrunning
  rw [hqueue, hobserver] at horder
  simp only [map_cons, length_cons, Observer.inHand, range'_succ,
    List.cons.injEq] at horder
  have htail : Coherent invalidates { s with queue := rest, observer := .stopped } :=
    { kinds := fun entry hentry ↦ hs.kinds entry (hqueue ▸ mem_cons_of_mem _ hentry)
      order := fun h ↦ absurd rfl h
      whole := fun h ↦ absurd rfl h
      last := hs.last
      bound := by
        have := hs.bound
        rw [hobserver] at this
        exact this
      revision := by
        have := hs.revision
        rw [hobserver] at this
        exact this
      holds := trivial }
  have hstopped : Coherent invalidates (stop { s with queue := rest, observer := .stopped }) :=
    stop_coherent htail rfl
  unfold observe
  split_ifs with hnext
  · cases hevidence : nextEvidence invalidates s.evidence kind with
    | none => exact hstopped
    | some next =>
      obtain ⟨hrevision, hgeneration, -, -⟩ := nextEvidence_eq_some hevidence
      obtain ⟨hpos, hkind⟩ := hs.kinds (sequence, kind) (hqueue ▸ mem_cons_self)
      have hindex : s.received[s.processed]? = some kind := by
        rw [← hkind, ← hnext.2, Nat.add_sub_cancel]
      have hcount := hs.revision
      rw [hobserver] at hcount
      refine ⟨htail.kinds, fun _ ↦ ?_, fun _ hsocket ↦ ?_, hs.last, ?_, hs.revision.trans ?_, ?_⟩
      · simpa [Observer.inHand] using horder.2
      · have hwhole := hs.whole hrunning hsocket
        rw [hobserver, hqueue] at hwhole
        simp only [Observer.inHand, length_cons] at hwhole ⊢
        omega
      · exact (List.getElem?_eq_some_iff.mp hindex).1
      · rw [hobserver]
        rfl
      · refine ⟨hnext.2.symm, ?_, hgeneration⟩
        rw [hrevision, invalidating_succ hindex, hcount]
        rfl
  · exact hstopped

/-- The observer hands its event on. Assumes: as many events as before are processed or in hand,
and the evidence counts those that are published. -/
theorem handOn_coherent {processed : ℕ} {observer : Observer}
    (hrunning : s.observer ≠ .stopped)
    (htaken : s.processed + s.observer.inHand = processed + observer.inHand)
    (hrevision : evidence.revision =
      invalidating invalidates s.received (processed + observer.ahead))
    (hholds : Holds invalidates { s with
      evidence := evidence
      processed := processed
      observer := observer }) :
    Coherent invalidates { s with
      evidence := evidence
      processed := processed
      observer := observer } where
  kinds := hs.kinds
  order _ := by
    have horder := hs.order hrunning
    rwa [htaken] at horder
  whole _ hsocket := by
    have hwhole := hs.whole hrunning hsocket
    rwa [htaken] at hwhole
  last := hs.last
  bound := htaken ▸ hs.bound
  revision := hrevision
  holds := hholds

theorem publishRevision_coherent (hobserver : s.observer = .computed next sequence) :
    Coherent invalidates
      { s with evidence := merge next s.evidence, observer := .publishing sequence } := by
  have hholds := hs.holds
  unfold Holds at hholds
  rw [hobserver] at hholds
  obtain ⟨hsequence, hrevision, -⟩ := hholds
  exact handOn_coherent hs (by simp [hobserver]) (by rw [hobserver]; rfl) hrevision hsequence

theorem publishProcessed_coherent (hobserver : s.observer = .publishing sequence) :
    Coherent invalidates { s with processed := sequence, observer := .delivering } := by
  have hholds := hs.holds
  unfold Holds at hholds
  rw [hobserver] at hholds
  have hsequence : sequence = s.processed + 1 := hholds
  subst hsequence
  have hrevision := hs.revision
  rw [hobserver] at hrevision
  exact handOn_coherent hs (by simp [hobserver]) (by rw [hobserver]; rfl) hrevision trivial

theorem resume_coherent (hobserver : s.observer = .delivering) :
    Coherent invalidates { s with observer := .waiting } := by
  have hrevision := hs.revision
  rw [hobserver] at hrevision
  exact handOn_coherent hs (by simp [hobserver]) (by rw [hobserver]; rfl) hrevision trivial

end

theorem observe_grows {rest : List (ℕ × String)} :
    Grows s (observe invalidates { s with queue := rest } sequence kind) := by
  have hstop : Grows s (stop { s with queue := rest }) :=
    { Grows.refl s with connected := by simp [stop, disconnect] }
  unfold observe
  split_ifs
  · cases nextEvidence invalidates s.evidence kind with
    | none => exact hstop
    | some next => exact { Grows.refl s with }
  · exact hstop

/-- The merged evidence takes nothing back. -/
theorem publishRevision_grows (hs : Coherent invalidates s)
    (hobserver : s.observer = .computed next sequence) :
    Grows s { s with evidence := merge next s.evidence, observer := .publishing sequence } := by
  have hholds := hs.holds
  unfold Holds at hholds
  rw [hobserver] at hholds
  obtain ⟨-, hrevision, hgeneration⟩ := hholds
  refine { Grows.refl s with
    revision := ?_, generation := hgeneration, connected := ?_, cancelled := ?_ }
  · show s.evidence.revision ≤ next.revision
    rw [hrevision, hs.revision, hobserver]
    exact invalidating_mono (Nat.le_succ _)
  · simp [merge]
  · intro hcancelled
    simp [merge, hcancelled]

theorem close_grows (s : Shared) : Grows s { s with socket := .closed, invalidated := true } :=
  { Grows.refl s with invalidated := fun _ ↦ rfl }

theorem publishProcessed_grows (hs : Coherent invalidates s)
    (hobserver : s.observer = .publishing sequence) :
    Grows s { s with processed := sequence, observer := .delivering } := by
  have hholds := hs.holds
  unfold Holds at hholds
  rw [hobserver] at hholds
  have hsequence : sequence = s.processed + 1 := hholds
  exact { Grows.refl s with processed := by simp [hsequence] }

/-- Every step keeps the words in agreement and takes nothing back. -/
theorem act_keeps {action : Action} (hs : Coherent invalidates s)
    (hact : s.act invalidates action = some t) : Coherent invalidates t ∧ Grows s t := by
  cases action with
  | reserve kind =>
    simp only [act] at hact
    split_ifs at hact with hready
    cases hact
    exact ⟨reserve_coherent hs hready.1,
      { Grows.refl s with received := prefix_append _ _ }⟩
  | exhaust =>
    simp only [act] at hact
    split_ifs at hact
    cases hact
    exact ⟨close_coherent hs, close_grows s⟩
  | enqueue =>
    cases hsocket : s.socket with
    | reserved kind =>
      simp only [act, hsocket] at hact
      split_ifs at hact with hobserver
      cases hact
      exact ⟨enqueue_coherent hs hsocket hobserver, { Grows.refl s with }⟩
    | reading => simp [act, hsocket] at hact
    | closed => simp [act, hsocket] at hact
  | overflow =>
    cases hsocket : s.socket with
    | reserved kind =>
      simp only [act, hsocket] at hact
      cases hact
      exact ⟨close_coherent hs, close_grows s⟩
    | reading => simp [act, hsocket] at hact
    | closed => simp [act, hsocket] at hact
  | hangUp =>
    simp only [act] at hact
    split_ifs at hact
    cases hact
    exact ⟨close_coherent hs, close_grows s⟩
  | terminate =>
    cases hact
    exact ⟨coherent_of_observer hs rfl rfl, { Grows.refl s with invalidated := fun _ ↦ rfl }⟩
  | dequeue =>
    simp only [act] at hact
    split_ifs at hact with hobserver
    cases hqueue : s.queue with
    | nil => simp [hqueue] at hact
    | cons entry rest =>
      simp only [hqueue] at hact
      cases hact
      exact ⟨observe_coherent hs hobserver hqueue, observe_grows⟩
  | publishRevision =>
    cases hobserver : s.observer with
    | computed next sequence =>
      simp only [act, hobserver] at hact
      cases hact
      exact ⟨publishRevision_coherent hs hobserver, publishRevision_grows hs hobserver⟩
    | _ => simp [act, hobserver] at hact
  | publishProcessed =>
    cases hobserver : s.observer with
    | publishing sequence =>
      simp only [act, hobserver] at hact
      cases hact
      exact ⟨publishProcessed_coherent hs hobserver, publishProcessed_grows hs hobserver⟩
    | _ => simp [act, hobserver] at hact
  | delivered accepted =>
    simp only [act] at hact
    split_ifs at hact with hobserver haccepted
    · cases hact
      exact ⟨resume_coherent hs hobserver, { Grows.refl s with }⟩
    · cases hact
      exact ⟨stop_coherent hs (by simp [hobserver, Observer.inHand]), stop_grows s⟩
  | endOfEvents =>
    simp only [act] at hact
    split_ifs at hact with hend
    cases hact
    exact ⟨stop_coherent hs (by simp [hend.1, Observer.inHand]), stop_grows s⟩
  | abort =>
    simp only [act] at hact
    split_ifs at hact with hend
    cases hact
    exact ⟨stop_coherent hs (by simp [hend.1, Observer.inHand]), stop_grows s⟩
  | invalidate =>
    cases hact
    exact ⟨coherent_of_observer hs rfl rfl, disconnect_grows s⟩
  | cancel =>
    cases hact
    exact ⟨coherent_of_observer hs rfl rfl, { Grows.refl s with cancelled := fun _ ↦ rfl }⟩
  | dropOwner =>
    cases hact
    exact ⟨@coherent_of_observer _ s s.disconnect.evidence false s.invalidated hs rfl rfl,
      { disconnect_grows s with }⟩

end Shared

end ObsMcp.Observation
