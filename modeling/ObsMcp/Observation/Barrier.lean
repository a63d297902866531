import ObsMcp.Observation.Evidence

/-!
# The observation barrier

Any number of readers load the words of a session, one at a time, while the socket, the observer and
the owner change them. A reader freezes the revision of a sample (`Observation::new`), reads through
the session (`Observation::read`, `SessionReader::read` and its `cursor_barrier`), or asks whether a
revision is still current (`ObservationFence::ready_at_revision`); `Reader.load` is the next load of
each. A reader can give up at any time, for a deadline or a limit.

`Reader.Sound` is what a reader knows at each place, and every step keeps it (`Reader.Sound.grows`).
`observation_barrier` is the result: a read that returns an answer for a sample of revision `r` was
answered after exactly `r` invalidating events, and a fence that is ready stands after exactly its
revision.
-/

namespace ObsMcp.Observation

open Foundations Option

/-- A sample: the generation it expects and the revision it froze. -/
structure Sample where
  generation : ℕ
  revision : ℕ
  deriving DecidableEq

/-- `check_state`, without its deadline. -/
def EvidenceState.admits (evidence : EvidenceState) (sample : Sample) : Bool :=
  !evidence.cancelled && evidence.connected &&
    decide (evidence.generation = sample.generation) && decide (evidence.revision = sample.revision)

/-- The end of a request: a reply of the peer, with the number of events received before it, or a
failure without one. -/
inductive Answer
  | reply (rejected : Bool) (arrived : ℕ)
  | failure
  deriving DecidableEq

/-- A read in progress. -/
structure Read where
  sample : Sample
  answer : Answer
  deriving DecidableEq

/-- Where a reader is, each place named after the load before it. -/
inductive Reader
  | idle
  | refused
  | frozen (sample : Sample)
  | admitting (sample : Sample)
  | sampling (sample : Sample)
  | checking (sample : Sample)
  | checked (sample : Sample)
  | stateRead (sample : Sample)
  | terminalRead (sample : Sample)
  | asking (sample : Sample)
  | answered (read : Read)
  | captured (read : Read) (cursor : ℕ)
  | processedLoaded (read : Read) (cursor processed : ℕ)
  | stateLoaded (read : Read) (cursor processed : ℕ) (evidence : EvidenceState)
  | channelLoaded (read : Read) (cursor processed : ℕ) (evidence : EvidenceState)
  | passed (read : Read) (cursor : ℕ)
  | compared (read : Read) (cursor : ℕ)
  | returned (read : Read) (cursor : ℕ)
  | fenceCursor (sample : Sample) (cursor : ℕ)
  | fenceProcessed (sample : Sample) (cursor : ℕ)
  | fenceTerminal (sample : Sample) (cursor : ℕ)
  | fenceChannel (sample : Sample) (cursor : ℕ)
  | fenceState (sample : Sample) (cursor : ℕ)
  | ready (sample : Sample) (cursor : ℕ)
  deriving DecidableEq

/-- The next place when a test holds. -/
def proceed (test : Bool) (next : Reader) : Reader := if test then next else .refused

/-- The end of the barrier: the evidence it loaded stands, and the processed cursor it loaded has
reached the captured one, or it loads again. -/
def barrierEnd (s : Shared) (read : Read) (cursor processed : ℕ) (evidence : EvidenceState) :
    Reader :=
  if s.invalidated || !evidence.connected || evidence.cancelled ||
      decide (evidence.generation ≠ s.token) then
    .refused
  else if cursor ≤ processed then
    .passed read cursor
  else
    .captured read cursor

/-- The next load of a reader. -/
def Reader.load (s : Shared) : Reader → Option Reader
  | .frozen sample => some (proceed (s.evidence.admits sample) (.admitting sample))
  | .admitting sample => some (proceed (!s.unpublished) (.sampling sample))
  | .sampling sample => some (proceed (s.evidence.admits sample) (.checking sample))
  | .checking sample => some (proceed (!s.unpublished) (.checked sample))
  | .checked sample =>
    some (proceed (s.evidence.connected && !s.evidence.cancelled) (.stateRead sample))
  | .stateRead sample => some (proceed (!s.invalidated) (.terminalRead sample))
  | .terminalRead sample => some (proceed (!s.unpublished) (.asking sample))
  | .answered read => some (.captured read s.cursor)
  | .captured read cursor => some (.processedLoaded read cursor s.processed)
  | .processedLoaded read cursor processed =>
    some (.stateLoaded read cursor processed s.evidence)
  | .stateLoaded read cursor processed evidence =>
    some (proceed (!s.unpublished) (.channelLoaded read cursor processed evidence))
  | .channelLoaded read cursor processed evidence =>
    some (barrierEnd s read cursor processed evidence)
  | .passed read cursor => some (proceed (s.evidence.admits read.sample) (.compared read cursor))
  | .compared read cursor => some (proceed (!s.unpublished) (.returned read cursor))
  | .fenceCursor sample cursor =>
    some (proceed (decide (cursor ≤ s.processed)) (.fenceProcessed sample cursor))
  | .fenceProcessed sample cursor =>
    some (proceed (!s.invalidated) (.fenceTerminal sample cursor))
  | .fenceTerminal sample cursor =>
    some (proceed (!s.unpublished) (.fenceChannel sample cursor))
  | .fenceChannel sample cursor =>
    some (proceed (s.evidence.admits sample) (.fenceState sample cursor))
  | .fenceState sample cursor =>
    some (proceed (decide (s.cursor = cursor)) (.ready sample cursor))
  | _ => none

/-! ### The session with its readers -/

structure State (ι : Type) where
  shared : Shared
  readers : ι → Reader

/-- A step of the session or of one of its readers. -/
inductive Label (ι : Type)
  | shared (action : Action)
  | freeze (i : ι) (generation : ℕ)
  | fence (i : ι) (sample : Sample)
  | load (i : ι)
  | reply (i : ι) (rejected : Bool)
  | fail (i : ι)
  | again (i : ι)
  | refuse (i : ι)

namespace State

variable {ι : Type} [DecidableEq ι]

/-- One reader moves. -/
def move (state : State ι) (i : ι) (reader : Reader) : State ι :=
  { state with readers := Function.update state.readers i reader }

/-- The reply to a request arrives while the socket is between two messages. -/
def arrive (state : State ι) (i : ι) (rejected : Bool) : Option (State ι) :=
  match state.readers i with
  | .asking sample =>
    if state.shared.socket = .reading then
      some (state.move i (.answered ⟨sample, .reply rejected state.shared.cursor⟩))
    else
      none
  | _ => none

/-- A request ends without a reply. -/
def giveUp (state : State ι) (i : ι) : Option (State ι) :=
  match state.readers i with
  | .asking sample => some (state.move i (.answered ⟨sample, .failure⟩))
  | _ => none

/-- The sample of a finished read is read from again. -/
def resume (state : State ι) (i : ι) : Option (State ι) :=
  match state.readers i with
  | .returned read _ => some (state.move i (.sampling read.sample))
  | _ => none

def act (invalidates : String → Bool) (state : State ι) : Label ι → Option (State ι)
  | .shared action =>
    (state.shared.act invalidates action).map (fun shared ↦ { state with shared := shared })
  | .freeze i generation =>
    some (state.move i (.frozen ⟨generation, state.shared.evidence.revision⟩))
  | .fence i sample => some (state.move i (.fenceCursor sample state.shared.cursor))
  | .load i => ((state.readers i).load state.shared).map (state.move i)
  | .reply i rejected => state.arrive i rejected
  | .fail i => state.giveUp i
  | .again i => state.resume i
  | .refuse i => some (state.move i .refused)

end State

/-- The machine of one session and its readers. -/
def sessionMachine (ι : Type) [DecidableEq ι] (invalidates : String → Bool) (generation : ℕ) :
    Machine (State ι) (Label ι) where
  initial state := state.shared = .initial generation ∧ ∀ i, state.readers i = .idle
  step state label next := state.act invalidates label = some next

/-! ### What a reader knows -/

section Knowledge

variable {invalidates : String → Bool} {s t : Shared}

/-- The revision of a sample was published. -/
def Sample.Seen (s : Shared) (sample : Sample) : Prop := sample.revision ≤ s.evidence.revision

/-- A reply arrived after the events that the revision of its sample counts, and at or before a
cursor. -/
def Read.Known (invalidates : String → Bool) (s : Shared) (read : Read) (cursor : ℕ) : Prop :=
  ∀ rejected arrived, read.answer = .reply rejected arrived →
    arrived ≤ cursor ∧ read.sample.revision ≤ invalidating invalidates s.received arrived

/-- What a reader knows about the session at each place. -/
def Reader.Sound (invalidates : String → Bool) (s : Shared) : Reader → Prop
  | .idle => True
  | .refused => True
  | .frozen sample => sample.Seen s
  | .admitting sample => sample.Seen s
  | .sampling sample => sample.Seen s
  | .checking sample => sample.Seen s
  | .checked sample => sample.Seen s
  | .stateRead sample => sample.Seen s
  | .terminalRead sample => sample.Seen s
  | .asking sample => sample.Seen s
  | .answered read => read.sample.Seen s ∧ read.Known invalidates s s.cursor
  | .captured read cursor =>
    read.sample.Seen s ∧ cursor ≤ s.cursor ∧ read.Known invalidates s cursor
  | .processedLoaded read cursor processed =>
    read.sample.Seen s ∧ cursor ≤ s.cursor ∧ read.Known invalidates s cursor ∧
      processed ≤ s.processed
  | .stateLoaded read cursor processed _ =>
    read.sample.Seen s ∧ cursor ≤ s.cursor ∧ read.Known invalidates s cursor ∧
      processed ≤ s.processed
  | .channelLoaded read cursor processed _ =>
    read.sample.Seen s ∧ cursor ≤ s.cursor ∧ read.Known invalidates s cursor ∧
      processed ≤ s.processed
  | .passed read cursor =>
    read.sample.Seen s ∧ cursor ≤ s.cursor ∧ read.Known invalidates s cursor ∧
      cursor ≤ s.processed
  | .compared read cursor =>
    read.sample.Seen s ∧ cursor ≤ s.cursor ∧ read.Known invalidates s cursor ∧
      invalidating invalidates s.received cursor ≤ read.sample.revision
  | .returned read cursor =>
    read.sample.Seen s ∧ cursor ≤ s.cursor ∧ read.Known invalidates s cursor ∧
      invalidating invalidates s.received cursor ≤ read.sample.revision
  | .fenceCursor _ cursor => cursor ≤ s.cursor
  | .fenceProcessed _ cursor => cursor ≤ s.cursor ∧ cursor ≤ s.processed
  | .fenceTerminal _ cursor => cursor ≤ s.cursor ∧ cursor ≤ s.processed
  | .fenceChannel _ cursor => cursor ≤ s.cursor ∧ cursor ≤ s.processed
  | .fenceState sample cursor =>
    cursor ≤ s.cursor ∧ invalidating invalidates s.received cursor ≤ sample.revision ∧
      sample.revision ≤ invalidating invalidates s.received s.cursor
  | .ready sample cursor =>
    cursor ≤ s.cursor ∧ invalidating invalidates s.received cursor = sample.revision

theorem cursor_le (hgrows : Grows s t) : s.cursor ≤ t.cursor :=
  hgrows.received.length_le

variable {sample : Sample} {read : Read} {next reader : Reader}

theorem Sample.Seen.grows (hseen : sample.Seen s) (hgrows : Grows s t) : sample.Seen t :=
  Nat.le_trans hseen hgrows.revision

/-- The count among received events stays what it is. -/
theorem invalidating_grows (hgrows : Grows s t) {n : ℕ} (hle : n ≤ s.cursor) :
    invalidating invalidates t.received n = invalidating invalidates s.received n :=
  invalidating_of_extends hgrows.received hle

variable {cursor : ℕ}

theorem Read.Known.grows (hknown : read.Known invalidates s cursor) (hgrows : Grows s t)
    (hcursor : cursor ≤ s.cursor) : read.Known invalidates t cursor := by
  intro rejected arrived hanswer
  obtain ⟨harrived, hrevision⟩ := hknown rejected arrived hanswer
  refine ⟨harrived, ?_⟩
  rw [invalidating_grows hgrows (Nat.le_trans harrived hcursor)]
  exact hrevision

theorem Read.Known.mono {later : ℕ} (hknown : read.Known invalidates s cursor)
    (hle : cursor ≤ later) : read.Known invalidates s later := by
  intro rejected arrived hanswer
  obtain ⟨harrived, hrevision⟩ := hknown rejected arrived hanswer
  exact ⟨Nat.le_trans harrived hle, hrevision⟩

/-- What a reader knows stays true while the session goes on. -/
theorem Reader.Sound.grows (hsound : reader.Sound invalidates s) (hgrows : Grows s t) :
    reader.Sound invalidates t := by
  have hcursor := cursor_le hgrows
  cases reader with
  | idle => trivial
  | refused => trivial
  | frozen sample => exact Sample.Seen.grows hsound hgrows
  | admitting sample => exact Sample.Seen.grows hsound hgrows
  | sampling sample => exact Sample.Seen.grows hsound hgrows
  | checking sample => exact Sample.Seen.grows hsound hgrows
  | checked sample => exact Sample.Seen.grows hsound hgrows
  | stateRead sample => exact Sample.Seen.grows hsound hgrows
  | terminalRead sample => exact Sample.Seen.grows hsound hgrows
  | asking sample => exact Sample.Seen.grows hsound hgrows
  | answered read =>
    obtain ⟨hseen, hknown⟩ := hsound
    exact ⟨hseen.grows hgrows, (hknown.grows hgrows (Nat.le_refl _)).mono hcursor⟩
  | captured read cursor =>
    obtain ⟨hseen, hle, hknown⟩ := hsound
    exact ⟨hseen.grows hgrows, Nat.le_trans hle hcursor, hknown.grows hgrows hle⟩
  | processedLoaded read cursor processed =>
    obtain ⟨hseen, hle, hknown, hprocessed⟩ := hsound
    exact ⟨hseen.grows hgrows, Nat.le_trans hle hcursor, hknown.grows hgrows hle,
      Nat.le_trans hprocessed hgrows.processed⟩
  | stateLoaded read cursor processed evidence =>
    obtain ⟨hseen, hle, hknown, hprocessed⟩ := hsound
    exact ⟨hseen.grows hgrows, Nat.le_trans hle hcursor, hknown.grows hgrows hle,
      Nat.le_trans hprocessed hgrows.processed⟩
  | channelLoaded read cursor processed evidence =>
    obtain ⟨hseen, hle, hknown, hprocessed⟩ := hsound
    exact ⟨hseen.grows hgrows, Nat.le_trans hle hcursor, hknown.grows hgrows hle,
      Nat.le_trans hprocessed hgrows.processed⟩
  | passed read cursor =>
    obtain ⟨hseen, hle, hknown, hprocessed⟩ := hsound
    exact ⟨hseen.grows hgrows, Nat.le_trans hle hcursor, hknown.grows hgrows hle,
      Nat.le_trans hprocessed hgrows.processed⟩
  | compared read cursor =>
    obtain ⟨hseen, hle, hknown, hcount⟩ := hsound
    exact ⟨hseen.grows hgrows, Nat.le_trans hle hcursor, hknown.grows hgrows hle,
      (invalidating_grows hgrows hle).symm ▸ hcount⟩
  | returned read cursor =>
    obtain ⟨hseen, hle, hknown, hcount⟩ := hsound
    exact ⟨hseen.grows hgrows, Nat.le_trans hle hcursor, hknown.grows hgrows hle,
      (invalidating_grows hgrows hle).symm ▸ hcount⟩
  | fenceCursor sample cursor => exact Nat.le_trans hsound hcursor
  | fenceProcessed sample cursor =>
    exact ⟨Nat.le_trans hsound.1 hcursor, Nat.le_trans hsound.2 hgrows.processed⟩
  | fenceTerminal sample cursor =>
    exact ⟨Nat.le_trans hsound.1 hcursor, Nat.le_trans hsound.2 hgrows.processed⟩
  | fenceChannel sample cursor =>
    exact ⟨Nat.le_trans hsound.1 hcursor, Nat.le_trans hsound.2 hgrows.processed⟩
  | fenceState sample cursor =>
    obtain ⟨hle, hcount, hrevision⟩ := hsound
    refine ⟨Nat.le_trans hle hcursor, (invalidating_grows hgrows hle).symm ▸ hcount, ?_⟩
    refine Nat.le_trans hrevision ?_
    rw [← invalidating_grows hgrows (Nat.le_refl _)]
    exact invalidating_mono hcursor
  | ready sample cursor =>
    obtain ⟨hle, hcount⟩ := hsound
    exact ⟨Nat.le_trans hle hcursor, (invalidating_grows hgrows hle).trans hcount⟩

/-- A test that fails ends the reader, which then knows nothing. -/
theorem sound_proceed {test : Bool} (hnext : test = true → next.Sound invalidates s) :
    (proceed test next).Sound invalidates s := by
  unfold proceed
  split_ifs with htest
  · exact hnext htest
  · trivial

theorem revision_of_admits {evidence : EvidenceState} (hadmits : evidence.admits sample = true) :
    evidence.revision = sample.revision := by
  simp only [EvidenceState.admits, Bool.and_eq_true, decide_eq_true_eq] at hadmits
  exact hadmits.2

/-- The published revision counts received events only. -/
theorem revision_le_received (hs : Coherent invalidates s) :
    s.evidence.revision ≤ invalidating invalidates s.received s.cursor := by
  rw [hs.revision]
  have hahead := s.observer.ahead_le_inHand
  have hbound := hs.bound
  exact invalidating_mono (show s.processed + s.observer.ahead ≤ s.received.length by omega)

/-- The published revision counts every processed event. -/
theorem processed_le_revision (hs : Coherent invalidates s) (hle : cursor ≤ s.processed) :
    invalidating invalidates s.received cursor ≤ s.evidence.revision := by
  rw [hs.revision]
  exact invalidating_mono (Nat.le_trans hle (Nat.le_add_right _ _))

/-- A load keeps what a reader knows true. -/
theorem load_sound (hs : Coherent invalidates s) (hsound : reader.Sound invalidates s)
    (hload : reader.load s = some next) : next.Sound invalidates s := by
  cases reader with
  | frozen sample =>
    cases hload
    exact sound_proceed fun _ ↦ hsound
  | admitting sample =>
    cases hload
    exact sound_proceed fun _ ↦ hsound
  | sampling sample =>
    cases hload
    exact sound_proceed fun _ ↦ hsound
  | checking sample =>
    cases hload
    exact sound_proceed fun _ ↦ hsound
  | checked sample =>
    cases hload
    exact sound_proceed fun _ ↦ hsound
  | stateRead sample =>
    cases hload
    exact sound_proceed fun _ ↦ hsound
  | terminalRead sample =>
    cases hload
    exact sound_proceed fun _ ↦ hsound
  | answered read =>
    cases hload
    exact ⟨hsound.1, Nat.le_refl _, hsound.2⟩
  | captured read cursor =>
    cases hload
    exact ⟨hsound.1, hsound.2.1, hsound.2.2, Nat.le_refl _⟩
  | processedLoaded read cursor processed =>
    cases hload
    exact hsound
  | stateLoaded read cursor processed evidence =>
    cases hload
    exact sound_proceed fun _ ↦ hsound
  | channelLoaded read cursor processed evidence =>
    cases hload
    obtain ⟨hseen, hle, hknown, hprocessed⟩ := hsound
    unfold barrierEnd
    split_ifs with hbroken hreached
    · trivial
    · exact ⟨hseen, hle, hknown, Nat.le_trans hreached hprocessed⟩
    · exact ⟨hseen, hle, hknown⟩
  | passed read cursor =>
    cases hload
    obtain ⟨hseen, hle, hknown, hprocessed⟩ := hsound
    refine sound_proceed fun hadmits ↦ ⟨hseen, hle, hknown, ?_⟩
    rw [← revision_of_admits hadmits]
    exact processed_le_revision hs hprocessed
  | compared read cursor =>
    cases hload
    exact sound_proceed fun _ ↦ hsound
  | fenceCursor sample cursor =>
    cases hload
    exact sound_proceed fun hprocessed ↦ ⟨hsound, of_decide_eq_true hprocessed⟩
  | fenceProcessed sample cursor =>
    cases hload
    exact sound_proceed fun _ ↦ hsound
  | fenceTerminal sample cursor =>
    cases hload
    exact sound_proceed fun _ ↦ hsound
  | fenceChannel sample cursor =>
    cases hload
    refine sound_proceed fun hadmits ↦ ⟨hsound.1, ?_, ?_⟩
    · rw [← revision_of_admits hadmits]
      exact processed_le_revision hs hsound.2
    · rw [← revision_of_admits hadmits]
      exact revision_le_received hs
  | fenceState sample cursor =>
    cases hload
    obtain ⟨hle, hcount, hrevision⟩ := hsound
    refine sound_proceed fun hcursor ↦ ⟨hle, Nat.le_antisymm hcount ?_⟩
    rw [of_decide_eq_true hcursor] at hrevision
    exact hrevision
  | idle => cases hload
  | refused => cases hload
  | asking sample => cases hload
  | returned read cursor => cases hload
  | ready sample cursor => cases hload

end Knowledge

/-! ### Whole runs -/

namespace State

variable {ι : Type} [DecidableEq ι] {invalidates : String → Bool} {state next : State ι}

/-- The words agree and every reader knows what it should. -/
structure Sound (invalidates : String → Bool) (state : State ι) : Prop where
  coherent : Coherent invalidates state.shared
  readers : ∀ i, (state.readers i).Sound invalidates state.shared

variable {i : ι}

section

variable (hstate : state.Sound invalidates)
include hstate

theorem move_sound {reader : Reader} (hreader : reader.Sound invalidates state.shared) :
    (state.move i reader).Sound invalidates where
  coherent := hstate.coherent
  readers j := by
    by_cases hj : j = i
    · subst hj
      simpa [move] using hreader
    · simpa [move, Function.update_of_ne hj] using hstate.readers j

theorem arrive_sound {rejected : Bool} (harrive : state.arrive i rejected = some next) :
    next.Sound invalidates ∧ next.shared = state.shared := by
  unfold arrive at harrive
  cases hreader : state.readers i with
  | asking sample =>
    have hseen : sample.Seen state.shared := by
      have := hstate.readers i
      rw [hreader] at this
      exact this
    simp only [hreader] at harrive
    split_ifs at harrive
    cases harrive
    refine ⟨move_sound hstate ⟨hseen, ?_⟩, rfl⟩
    rintro rejected arrived ⟨⟩
    exact ⟨Nat.le_refl _, Nat.le_trans hseen (revision_le_received hstate.coherent)⟩
  | _ => simp [hreader] at harrive

theorem giveUp_sound (hgive : state.giveUp i = some next) :
    next.Sound invalidates ∧ next.shared = state.shared := by
  unfold giveUp at hgive
  cases hreader : state.readers i with
  | asking sample =>
    have hseen : sample.Seen state.shared := by
      have := hstate.readers i
      rw [hreader] at this
      exact this
    simp only [hreader] at hgive
    cases hgive
    refine ⟨move_sound hstate ⟨hseen, ?_⟩, rfl⟩
    rintro rejected arrived ⟨⟩
  | _ => simp [hreader] at hgive

theorem resume_sound (hresume : state.resume i = some next) :
    next.Sound invalidates ∧ next.shared = state.shared := by
  unfold resume at hresume
  cases hreader : state.readers i with
  | returned read cursor =>
    have hreturned := hstate.readers i
    rw [hreader] at hreturned
    simp only [hreader] at hresume
    cases hresume
    exact ⟨move_sound hstate hreturned.1, rfl⟩
  | _ => simp [hreader] at hresume

/-- Every step keeps what is known and takes nothing back. -/
theorem act_sound {label : Label ι} (hact : state.act invalidates label = some next) :
    next.Sound invalidates ∧ Grows state.shared next.shared := by
  have hsame : ∀ {next : State ι}, next.Sound invalidates ∧ next.shared = state.shared →
      next.Sound invalidates ∧ Grows state.shared next.shared := by
    rintro next ⟨hnext, hshared⟩
    exact ⟨hnext, hshared ▸ Grows.refl _⟩
  cases label with
  | shared action =>
    obtain ⟨shared, hshared, rfl⟩ := map_eq_some_iff.mp hact
    obtain ⟨hcoherent, hgrows⟩ := Shared.act_keeps hstate.coherent hshared
    exact ⟨⟨hcoherent, fun i ↦ (hstate.readers i).grows hgrows⟩, hgrows⟩
  | freeze i generation =>
    cases hact
    exact hsame ⟨move_sound hstate (Nat.le_refl _), rfl⟩
  | fence i sample =>
    cases hact
    exact hsame ⟨move_sound hstate (Nat.le_refl _), rfl⟩
  | load i =>
    obtain ⟨reader, hload, rfl⟩ := map_eq_some_iff.mp hact
    exact hsame ⟨move_sound hstate (load_sound hstate.coherent (hstate.readers i) hload), rfl⟩
  | reply i rejected => exact hsame (arrive_sound hstate hact)
  | fail i => exact hsame (giveUp_sound hstate hact)
  | again i => exact hsame (resume_sound hstate hact)
  | refuse i =>
    cases hact
    exact hsame ⟨move_sound hstate trivial, rfl⟩

end

end State

section Runs

variable {ι : Type} [DecidableEq ι] {invalidates : String → Bool} {generation : ℕ}
  {state : State ι}

theorem sound_of_reachable (hstate : (sessionMachine ι invalidates generation).Reachable state) :
    state.Sound invalidates := by
  refine Machine.invariant_of_step (State.Sound invalidates) ?_ ?_ hstate
  · rintro state ⟨hshared, hreaders⟩
    refine ⟨hshared ▸ Shared.initial_coherent invalidates generation, fun i ↦ ?_⟩
    rw [hreaders i]
    trivial
  · intro state label next _ hsound hstep
    exact (State.act_sound hsound hstep).1

theorem grows_of_run {run : List (Label ι × State ι)}
    (hstate : (sessionMachine ι invalidates generation).Reachable state)
    (hrun : (sessionMachine ι invalidates generation).Run state run) :
    Grows state.shared (Machine.last state run).shared := by
  have hkept := Machine.Run.keeps
    (fun next ↦ State.Sound invalidates next ∧ Grows state.shared next.shared)
    (fun _ _ _ hs h ↦
      have hnext := State.act_sound hs.1 h
      ⟨hnext.1, hs.2.trans hnext.2⟩)
    hrun ⟨sound_of_reachable hstate, Grows.refl _⟩
  exact hkept.2

variable {cursor : ℕ} {sample : Sample} {s : Shared} {reader : Reader}

/-- The invalidating events among the first received ones, of which a reader's sample counts a
number: the reply of a finished read arrived after exactly that number. -/
theorem returned_count {read : Read} {arrived : ℕ} {rejected : Bool}
    (hsound : (Reader.returned read cursor).Sound invalidates s)
    (hanswer : read.answer = .reply rejected arrived) {n : ℕ} (hfrom : arrived ≤ n)
    (hto : n ≤ cursor) : invalidating invalidates s.received n = read.sample.revision := by
  obtain ⟨-, -, hknown, hcount⟩ := hsound
  obtain ⟨-, hrevision⟩ := hknown rejected arrived hanswer
  refine Nat.le_antisymm ?_ ?_
  · exact Nat.le_trans (invalidating_mono hto) hcount
  · exact Nat.le_trans hrevision (invalidating_mono hfrom)

theorem proceed_eq_ready {test : Bool} (hready : proceed test reader = .ready sample cursor) :
    test = true ∧ reader = .ready sample cursor := by
  unfold proceed at hready
  split_ifs at hready with htest
  exact ⟨htest, hready⟩

/-- Only the last load of a fence makes it ready, and only at the cursor of that load. -/
theorem ready_of_load (hload : reader.load s = some (.ready sample cursor)) :
    s.cursor = cursor := by
  cases reader with
  | fenceState found place =>
    obtain ⟨hcursor, hsame⟩ := proceed_eq_ready (some.inj hload)
    cases hsame
    exact of_decide_eq_true hcursor
  | channelLoaded read place processed evidence =>
    have hend := some.inj hload
    unfold barrierEnd at hend
    split_ifs at hend
  | frozen found => cases (proceed_eq_ready (some.inj hload)).2
  | admitting found => cases (proceed_eq_ready (some.inj hload)).2
  | sampling found => cases (proceed_eq_ready (some.inj hload)).2
  | checking found => cases (proceed_eq_ready (some.inj hload)).2
  | checked found => cases (proceed_eq_ready (some.inj hload)).2
  | stateRead found => cases (proceed_eq_ready (some.inj hload)).2
  | terminalRead found => cases (proceed_eq_ready (some.inj hload)).2
  | stateLoaded read place processed evidence =>
    cases (proceed_eq_ready (some.inj hload)).2
  | passed read place => cases (proceed_eq_ready (some.inj hload)).2
  | compared read place => cases (proceed_eq_ready (some.inj hload)).2
  | fenceCursor found place => cases (proceed_eq_ready (some.inj hload)).2
  | fenceProcessed found place => cases (proceed_eq_ready (some.inj hload)).2
  | fenceTerminal found place => cases (proceed_eq_ready (some.inj hload)).2
  | fenceChannel found place => cases (proceed_eq_ready (some.inj hload)).2
  | _ => cases hload

/-- A fence that becomes ready does so at the cursor of its last load. -/
theorem cursor_of_ready {label : Label ι} {next : State ι} {i : ι}
    (hstep : state.act invalidates label = some next)
    (hbefore : state.readers i ≠ .ready sample cursor)
    (hready : next.readers i = .ready sample cursor) : next.shared.cursor = cursor := by
  have hmoved : ∀ {j : ι} {reader : Reader}, next = state.move j reader →
      reader = .ready sample cursor := by
    rintro j reader rfl
    by_cases hj : i = j
    · subst hj
      simpa [State.move] using hready
    · have hsame : (state.move j reader).readers i = state.readers i := by
        simp [State.move, Function.update_of_ne hj]
      exact absurd (hsame.symm.trans hready) hbefore
  cases label with
  | shared action =>
    obtain ⟨shared, -, rfl⟩ := map_eq_some_iff.mp hstep
    exact absurd hready hbefore
  | freeze j generation => cases hmoved (some.inj hstep).symm
  | fence j found => cases hmoved (some.inj hstep).symm
  | load j =>
    obtain ⟨reader, hload, rfl⟩ := map_eq_some_iff.mp hstep
    obtain rfl := hmoved rfl
    exact ready_of_load hload
  | reply j rejected =>
    simp only [State.act, State.arrive] at hstep
    split at hstep
    · split_ifs at hstep
      cases hmoved (some.inj hstep).symm
    · cases hstep
  | fail j =>
    simp only [State.act, State.giveUp] at hstep
    split at hstep
    · cases hmoved (some.inj hstep).symm
    · cases hstep
  | again j =>
    simp only [State.act, State.resume] at hstep
    split at hstep
    · cases hmoved (some.inj hstep).symm
    · cases hstep
  | refuse j => cases hmoved (some.inj hstep).symm

/-- The observation barrier of one session with any number of readers. In every run the revision and
the processed cursor never decrease, a connection that was taken stays taken and a cancellation
stays, and the revision counts the invalidating events among the processed ones, one ahead between
the two publications. A read that returns an answer of the peer for a sample of revision `r` was
answered after exactly `r` invalidating events, and still no other was received when it captured its
cursor. A fence that becomes ready stands after exactly as many invalidating events as its
revision. -/
theorem observation_barrier (ι : Type) [DecidableEq ι] (invalidates : String → Bool)
    (generation : ℕ) :
    (∀ state, (sessionMachine ι invalidates generation).Reachable state →
      (∀ run, (sessionMachine ι invalidates generation).Run state run →
        Grows state.shared (Machine.last state run).shared) ∧
      state.shared.evidence.revision = invalidating invalidates state.shared.received
        (state.shared.processed + state.shared.observer.ahead) ∧
      ∀ i read cursor rejected arrived, state.readers i = .returned read cursor →
        read.answer = .reply rejected arrived →
        arrived ≤ cursor ∧ cursor ≤ state.shared.received.length ∧
          ∀ n, arrived ≤ n → n ≤ cursor →
            invalidating invalidates state.shared.received n = read.sample.revision) ∧
    (∀ state label next i sample cursor,
      (sessionMachine ι invalidates generation).Reachable state →
      (sessionMachine ι invalidates generation).step state label next →
      state.readers i ≠ .ready sample cursor → next.readers i = .ready sample cursor →
      next.shared.received.length = cursor ∧
        invalidating invalidates next.shared.received cursor = sample.revision) := by
  refine ⟨fun state hstate ↦ ?_, ?_⟩
  · have hsound := sound_of_reachable hstate
    refine ⟨fun run hrun ↦ grows_of_run hstate hrun, hsound.coherent.revision, ?_⟩
    intro i read cursor rejected arrived hreader hanswer
    have hreturned := hsound.readers i
    rw [hreader] at hreturned
    refine ⟨(hreturned.2.2.1 rejected arrived hanswer).1, hreturned.2.1, fun n hfrom hto ↦ ?_⟩
    exact returned_count hreturned hanswer hfrom hto
  · intro state label next i sample cursor hstate hstep hbefore hready
    have hnext := sound_of_reachable (hstate.step hstep)
    have hsound := hnext.readers i
    rw [hready] at hsound
    exact ⟨cursor_of_ready hstep hbefore hready, hsound.2⟩

end Runs

end ObsMcp.Observation
