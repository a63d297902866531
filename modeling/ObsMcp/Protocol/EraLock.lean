import ObsMcp.Foundations.Machine
import ObsMcp.Protocol.Session

/-!
# The era of a session

What one frame does to a session (`Effect`), and what follows for every run of frames. A legacy
handshake is never left (`Effect.legacy`), the frames kept for a replay are those of the handshake
(`Retained`), and a frame that the compatibility path gets leaves the session as it was.

The modern era is not locked by every modern answer: a modern `resources/subscribe` is refused
natively and leaves a fresh session fresh, and so does an initialization that a dynamic session
cannot hold. `session_era` is the law of the runs without these two (`Locking`), and
`unlocked_modern_answer` a run with one of them.
-/

namespace ObsMcp.Protocol

open Foundations Option List

namespace Admission

/-- The frame goes to the compatibility path. -/
def isCompatibility : Admission → Bool
  | .compatibility => true
  | _ => false

/-- The frame is the notification that ends a legacy handshake. -/
def isInitialized : Admission → Bool
  | .initialized => true
  | _ => false

/-- The reply context an admission hands on. -/
def context : Admission → Option ReplyContext
  | .list found => some found
  | .resourceList found => some found
  | .resourceCompletion found _ => some found
  | .resourceRead found _ => some found
  | .call found _ _ => some found
  | .listen found _ _ => some found
  | .resourceSubscription found _ _ => some found
  | _ => none

/-- The answer to a request of an era. -/
structure Answers (admission : Admission) (era : Era) : Prop where
  native : admission.isCompatibility = false
  request : admission.isInitialized = false
  context : ∀ reply ∈ admission.context, reply.era = era

end Admission

namespace Session

variable {host : Host} {session after : Session} {request : Request} {admission : Admission}
  {result : Admission × Session}

/-! ### One branch -/

/-- The request is answered in its era, and the session moves to the era. -/
def Locks (session : Session) (request : Request) (result : Admission × Session) : Prop :=
  result.1.Answers request.reply.era ∧ result.2 = session.lock request.reply.era

theorem answers_reply (value : Json) (era : Era) : (Admission.reply value).Answers era :=
  ⟨rfl, rfl, by simp [Admission.context]⟩

theorem locks_discover (hresult : discover session request = some result) :
    Locks session request result := by
  unfold discover at hresult
  split_ifs at hresult with happlies
  cases hresult
  refine ⟨answers_reply _ _, ?_⟩
  simp [lock, happlies.2.1]

theorem locks_listen (hresult : listen host session request = some result) :
    Locks session request result := by
  unfold listen at hresult
  split_ifs at hresult with happlies
  cases hresult
  refine ⟨?_, by simp [lock, happlies.2.2]⟩
  unfold listenAdmission
  split_ifs
  · exact answers_reply _ _
  · exact answers_reply _ _
  · exact ⟨rfl, rfl, by simp [Admission.context]⟩

variable {method : String} {params : Json} {frame : List UInt8} {label : Frame × Admission}
  {run : List ((Frame × Admission) × Session)} {start : Session}

theorem locks_listing {answer : Admission} (hanswer : answer.Answers request.reply.era)
    (hresult : listing session request method answer = some result) :
    Locks session request result := by
  unfold listing at hresult
  split_ifs at hresult
  cases hresult
  exact ⟨hanswer, rfl⟩

theorem locks_resourceRead (hresult : resourceRead session request = some result) :
    Locks session request result := by
  unfold resourceRead at hresult
  split_ifs at hresult
  obtain ⟨uri, -, rfl⟩ := map_eq_some_iff.mp hresult
  exact ⟨⟨rfl, rfl, by simp [Admission.context]⟩, rfl⟩

theorem locks_completionComplete (hresult : completionComplete host session request = some result) :
    Locks session request result := by
  unfold completionComplete at hresult
  split_ifs at hresult
  obtain ⟨completion, -, rfl⟩ := map_eq_some_iff.mp hresult
  refine ⟨?_, rfl⟩
  cases completion with
  | reply value => exact answers_reply _ _
  | missing message => exact answers_reply _ _
  | scenes text => exact ⟨rfl, rfl, by simp [completionAdmission, Admission.context]⟩

theorem locks_promptsGet (hresult : promptsGet host session request = some result) :
    Locks session request result := by
  unfold promptsGet at hresult
  split_ifs at hresult
  obtain ⟨name, -, hprompt⟩ := bind_eq_some_iff.mp hresult
  obtain ⟨answer, -, rfl⟩ := map_eq_some_iff.mp hprompt
  refine ⟨?_, rfl⟩
  cases answer with
  | ok value => exact answers_reply _ _
  | error issue => exact answers_reply _ _

theorem locks_ping (hresult : ping session request = some result) :
    Locks session request result := by
  unfold ping at hresult
  split_ifs at hresult with happlies
  cases hresult
  refine ⟨answers_reply _ _, ?_⟩
  simp [lock, happlies.2.1]

/-- A resource subscription is answered and leaves the session. -/
theorem resourceSubscription_eq_some
    (hresult : resourceSubscription host session request = some result) :
    session.nativeService = true ∧ subscriptionMethod request.method = true ∧
      result.1.Answers request.reply.era ∧ result.2 = session := by
  unfold resourceSubscription at hresult
  split_ifs at hresult with happlies
  cases hresult
  refine ⟨happlies.1, happlies.2, ?_, rfl⟩
  simp only [subscriptionAdmission]
  split_ifs
  · exact answers_reply _ _
  · exact answers_reply _ _
  · split
    · exact ⟨rfl, rfl, by simp [Admission.context]⟩
    · exact ⟨rfl, rfl, by simp [Admission.context]⟩

/-- A tool call is answered in its era or goes to the compatibility path. -/
theorem toolsCall_cases :
    toolsCall host session request = (.compatibility, session) ∨
      Locks session request (toolsCall host session request) := by
  unfold toolsCall
  split_ifs
  · exact .inl rfl
  · cases (request.params.get "name").bind Json.asStr with
    | none => exact .inl rfl
    | some name =>
      refine .inr ⟨?_, rfl⟩
      simp only [callAdmission]
      split_ifs
      · exact answers_reply _ _
      · exact ⟨rfl, rfl, by simp [Admission.context]⟩

/-- A qualified request goes to the compatibility path, or is answered and locks the era, or is a
resource subscription. -/
theorem route_cases :
    route host session request = (.compatibility, session) ∨
      Locks session request (route host session request) ∨
      (session.nativeService = true ∧ subscriptionMethod request.method = true ∧
        (route host session request).1.Answers request.reply.era ∧
        (route host session request).2 = session) := by
  unfold route
  cases hfound : (branches host session request).findSome? id with
  | none =>
    rcases @toolsCall_cases host session request with hcall | hcall
    · exact .inl hcall
    · exact .inr (.inl hcall)
  | some result =>
    refine .inr ?_
    rw [getD_some]
    obtain ⟨branch, hbranch, hresult⟩ := exists_of_findSome?_eq_some hfound
    obtain rfl : branch = some result := hresult
    simp only [branches, mem_cons, not_mem_nil, or_false] at hbranch
    rcases hbranch with h | h | h | h | h | h | h | h | h | h | h
    · exact .inl (locks_discover h.symm)
    · exact .inl (locks_listen h.symm)
    · exact .inr (resourceSubscription_eq_some h.symm)
    · exact .inl (locks_listing (answers_reply _ _) h.symm)
    · exact .inl (locks_listing ⟨rfl, rfl, by simp [Admission.context]⟩ h.symm)
    · exact .inl (locks_listing (answers_reply _ _) h.symm)
    · exact .inl (locks_resourceRead h.symm)
    · exact .inl (locks_completionComplete h.symm)
    · exact .inl (locks_promptsGet h.symm)
    · exact .inl (locks_listing ⟨rfl, rfl, by simp [Admission.context]⟩ h.symm)
    · exact .inl (locks_ping h.symm)

/-! ### One frame -/

/-- The parameters of a frame. -/
def frameParams (value : Json) : Json := (value.get "params").getD .null

/-- The session begins a legacy handshake with a frame. -/
structure Begins (session after : Session) (frame : List UInt8) : Prop where
  fresh : session.state = .fresh
  initializing : after.state = .legacyInitializing
  history : after.history = session.history ++ [frame]
  replayBytes : after.replayBytes = session.replayBytes + frame.length
  bounded : after.replayBytes ≤ maxReplayBytes
  service : after.nativeService = session.nativeService

/-- The session ends a legacy handshake with a frame. -/
structure Ends (session after : Session) (frame : List UInt8) : Prop where
  initializing : session.state = .legacyInitializing
  ready : after.state = .legacyReady
  history : after.history = session.history ++ [frame]
  replayBytes : after.replayBytes = session.replayBytes + frame.length
  bounded : after.replayBytes ≤ maxReplayBytes
  service : after.nativeService = session.nativeService

/-- Everything a frame can do to a session. -/
inductive Effect (host : Host) (session : Session) (value : Json) (frame : List UInt8) :
    Admission → Session → Prop
  | compatibility : Effect host session value frame .compatibility session
  | ended {after : Session}
      (hinline : inlineMetadata (frameParams value) session.nativeService = false)
      (hends : session.Ends after frame) :
      Effect host session value frame .initialized after
  | refused {method : String} {params id reply : Json}
      (henvelope : envelope value = some (method, params)) (hid : requestId value = some id)
      (hcapacity : session.overCapacity host method params id = true) :
      Effect host session value frame (.reply reply) session
  | begun {reply : Json} {after : Session}
      (hinline : inlineMetadata (frameParams value) session.nativeService = false)
      (hbegins : session.Begins after frame) :
      Effect host session value frame (.reply reply) after
  | answered {admission : Admission} {era : Era}
      (hera : session.requestEra (frameParams value) = some era)
      (hanswers : admission.Answers era) :
      Effect host session value frame admission (session.lock era)
  | subscribed {admission : Admission} {method : String} {params id : Json} {era : Era}
      (henvelope : envelope value = some (method, params)) (hid : requestId value = some id)
      (hservice : session.nativeService = true) (hmethod : subscriptionMethod method = true)
      (hera : session.requestEra (frameParams value) = some era)
      (hanswers : admission.Answers era) :
      Effect host session value frame admission session

variable {value : Json} {id : Option Json} {before later : List ((Frame × Admission) × Session)}

theorem envelope_eq_some (henvelope : envelope value = some (method, params)) :
    (value.index "method").asStr = some method ∧ params = frameParams value := by
  unfold envelope at henvelope
  split_ifs at henvelope
  obtain ⟨found, hfound, hpair⟩ := map_eq_some_iff.mp henvelope
  cases hpair
  refine ⟨?_, rfl⟩
  obtain ⟨entry, hentry, hstr⟩ := bind_eq_some_iff.mp hfound
  rw [Json.index, hentry]
  exact hstr

theorem retainHandshake_eq_some {kept : Session}
    (hkept : session.retainHandshake frame = some kept) :
    session.replayBytes + frame.length ≤ maxReplayBytes ∧
      kept = { session with
        history := session.history ++ [frame]
        replayBytes := session.replayBytes + frame.length } := by
  unfold retainHandshake at hkept
  obtain ⟨total, htotal, hkept⟩ := bind_eq_some_iff.mp hkept
  obtain rfl := eq_of_checkedAdd htotal
  split_ifs at hkept with hbound
  simp only [Bool.or_eq_true, decide_eq_true_eq, not_or, Nat.not_lt] at hbound
  exact ⟨hbound.2, (some.inj hkept).symm⟩

theorem ends_of_acceptInitialized
    (haccept : session.acceptInitialized method params id frame = some after) :
    session.Ends after frame := by
  unfold acceptInitialized at haccept
  split_ifs at haccept with happlies
  obtain ⟨kept, hkept, rfl⟩ := map_eq_some_iff.mp haccept
  obtain ⟨hbound, rfl⟩ := retainHandshake_eq_some hkept
  exact ⟨happlies.2.1, rfl, rfl, rfl, hbound, rfl⟩

theorem begins_of_acceptInitialize
    (haccept : session.acceptInitialize method params frame = some after) :
    session.Begins after frame := by
  unfold acceptInitialize at haccept
  split_ifs at haccept with happlies
  obtain ⟨kept, hkept, rfl⟩ := map_eq_some_iff.mp haccept
  obtain ⟨hbound, rfl⟩ := retainHandshake_eq_some hkept
  exact ⟨happlies.2.1, rfl, rfl, rfl, hbound, rfl⟩

theorem inlineMetadata_of_absent (habsent : params.get "_meta" = none) (nativeService : Bool) :
    inlineMetadata params nativeService = false := by
  rw [inlineMetadata, habsent]

theorem inlineMetadata_of_acceptInitialized
    (haccept : session.acceptInitialized method params id frame = some after) :
    inlineMetadata params session.nativeService = false := by
  unfold acceptInitialized at haccept
  split_ifs at haccept with happlies
  refine inlineMetadata_of_absent ?_ _
  have hempty := happlies.2.2.2
  cases params with
  | object members =>
    simp only [emptyParams, Json.isNull, Json.asObject, Bool.false_or, any_some,
      List.isEmpty_iff] at hempty
    rw [hempty]
    rfl
  | null => rfl
  | bool b => rfl
  | number n => rfl
  | string s => rfl
  | array items => rfl

/-- The parameters of a legacy initialization carry no metadata. -/
theorem inlineMetadata_of_acceptInitialize
    (haccept : session.acceptInitialize method params frame = some after) :
    inlineMetadata params session.nativeService = false := by
  unfold acceptInitialize at haccept
  split_ifs at haccept with happlies
  have hkeys : onlyKeys params ["protocolVersion", "clientInfo", "capabilities"] = true := by
    have hparams := happlies.2.2
    simp only [legacyParams, Bool.and_eq_true] at hparams
    exact hparams.1.1.1
  refine inlineMetadata_of_absent ?_ _
  cases params with
  | object members =>
    rw [Json.get, Members.get_eq_none_iff]
    intro hmem
    simp only [onlyKeys, Json.asObject, any_some, List.all_eq_true] at hkeys
    have := hkeys "_meta" hmem
    simp at this
  | null => rfl
  | bool b => rfl
  | number n => rfl
  | string s => rfl
  | array items => rfl

/-- Every frame is read without a panic, and does one of the six things. -/
theorem admitFrame_effect (host : Host) (session : Session) (value : Json) (frame : List UInt8) :
    ∃ admission after, session.admitFrame host value frame = some (admission, after) ∧
      Effect host session value frame admission after := by
  unfold admitFrame
  cases henvelope : envelope value with
  | none => exact ⟨_, _, rfl, .compatibility⟩
  | some entry =>
    obtain ⟨method, params⟩ := entry
    obtain ⟨hmethod, hparams⟩ := envelope_eq_some henvelope
    simp only
    cases hended : session.acceptInitialized method params (value.get "id") frame with
    | some after =>
      have hinline := inlineMetadata_of_acceptInitialized hended
      rw [hparams] at hinline
      exact ⟨_, _, rfl, .ended hinline (ends_of_acceptInitialized hended)⟩
    | none =>
      cases hid : requestId value with
      | none => exact ⟨_, _, rfl, .compatibility⟩
      | some id =>
        simp only
        by_cases hcapacity : session.overCapacity host method params id = true
        · rw [if_pos hcapacity]
          exact ⟨_, _, rfl, .refused henvelope hid hcapacity⟩
        · rw [if_neg hcapacity]
          cases hbegun : session.acceptInitialize method params frame with
          | some after =>
            have hinline := inlineMetadata_of_acceptInitialize hbegun
            rw [hparams] at hinline
            exact ⟨_, _, rfl, .begun hinline (begins_of_acceptInitialize hbegun)⟩
          | none =>
            cases hera : session.requestEra params with
            | none => exact ⟨_, _, rfl, .compatibility⟩
            | some era =>
              simp only [admitReady, hmethod, map_some]
              rw [hparams] at hera
              refine ⟨(route host session ⟨method, params, ⟨id, era⟩⟩).1,
                (route host session ⟨method, params, ⟨id, era⟩⟩).2, rfl, ?_⟩
              rcases @route_cases host session ⟨method, params, ⟨id, era⟩⟩ with
                hroute | ⟨hanswers, hlock⟩ | ⟨hservice, hmethod, hanswers, hsame⟩
              · rw [hroute]
                exact .compatibility
              · rw [hlock]
                exact .answered hera hanswers
              · rw [hsame]
                exact .subscribed henvelope hid hservice hmethod hera hanswers

theorem effect_of_admission
    (hadmission : session.admitFrame host value frame = some (admission, after)) :
    Effect host session value frame admission after := by
  obtain ⟨found, reached, hfound, heffect⟩ := admitFrame_effect host session value frame
  obtain ⟨rfl, rfl⟩ := Prod.mk.inj (some.inj (hadmission.symm.trans hfound))
  exact heffect

/-! ### What a frame keeps -/

/-- The session is in a legacy handshake or past it. -/
def Legacy (session : Session) : Prop :=
  session.state = .legacyInitializing ∨ session.state = .legacyReady

/-- The frames of the handshake that a state has seen. -/
def handshakeFrames : SessionState → ℕ
  | .fresh => 0
  | .modern => 0
  | .legacyInitializing => 1
  | .legacyReady => 2

/-- The frames kept for a replay are those of the handshake, and their bytes are counted. -/
structure Retained (session : Session) : Prop where
  frames : session.history.length = handshakeFrames session.state
  bytes : session.replayBytes = (session.history.map List.length).sum
  bounded : session.replayBytes ≤ maxReplayBytes

/-- A frame that carries modern metadata moves the session to the modern era if it is answered: it
is neither an initialization over the capacity nor a resource subscription of a fresh session. -/
def Locking (host : Host) (session : Session) (value : Json) : Prop :=
  ∀ method params id, envelope value = some (method, params) → requestId value = some id →
    inlineMetadata params session.nativeService = true → session.state ≠ .modern →
    session.overCapacity host method params id = false ∧
      ¬ (session.state = .fresh ∧ session.nativeService = true ∧ subscriptionMethod method = true)

section Keeps

variable {value : Json} {frame : List UInt8} {era : Era}

theorem requestEra_of_legacy (hlegacy : session.Legacy) (params : Json) :
    session.requestEra params ≠ some .modern := by
  unfold requestEra
  rcases hlegacy with hstate | hstate
  · simp [hstate]
  · simp [hstate]

theorem requestEra_of_modern (hstate : session.state = .modern)
    (hera : session.requestEra params = some era) : era = .modern := by
  simp only [requestEra, hstate] at hera
  simp at hera
  exact hera.2.symm

/-- A request with modern metadata that has an era is modern. -/
theorem requestEra_of_inline (hinline : inlineMetadata params session.nativeService = true)
    (hera : session.requestEra params = some era) :
    era = .modern ∧ (session.state = .fresh ∨ session.state = .modern) := by
  unfold requestEra at hera
  split_ifs at hera with hmodern hlegacy
  · exact ⟨(some.inj hera).symm, hmodern.1⟩
  · rw [isNone_iff_eq_none] at hlegacy
    rw [inlineMetadata_of_absent hlegacy.2] at hinline
    cases hinline

theorem lock_of_ne (hera : era ≠ .modern) : session.lock era = session :=
  if_neg hera

namespace Effect

section

variable (heffect : Effect host session value frame admission after)
include heffect

theorem legacy (hlegacy : session.Legacy) : after.Legacy := by
  cases heffect with
  | compatibility => exact hlegacy
  | ended _ hends => exact .inr hends.ready
  | refused => exact hlegacy
  | begun _ hbegins => exact .inl hbegins.initializing
  | answered hera =>
    rw [lock_of_ne]
    · exact hlegacy
    · rintro rfl
      exact requestEra_of_legacy hlegacy _ hera
  | subscribed => exact hlegacy

/-- A session past its handshake stays there. -/
theorem ready (hready : session.state = .legacyReady) : after.state = .legacyReady := by
  cases heffect with
  | compatibility => exact hready
  | ended _ hends => exact hends.ready
  | refused => exact hready
  | begun _ hbegins =>
    rw [hbegins.fresh] at hready
    cases hready
  | answered hera =>
    rw [lock_of_ne]
    · exact hready
    · rintro rfl
      exact requestEra_of_legacy (.inr hready) _ hera
  | subscribed => exact hready

theorem modern (hmodern : session.state = .modern) : after.state = .modern := by
  cases heffect with
  | compatibility => exact hmodern
  | ended _ hends =>
    rw [hends.initializing] at hmodern
    cases hmodern
  | refused => exact hmodern
  | begun _ hbegins =>
    rw [hbegins.fresh] at hmodern
    cases hmodern
  | answered hera =>
    rw [requestEra_of_modern hmodern hera]
    rfl
  | subscribed => exact hmodern

/-- A legacy session answers no request in the modern era. -/
theorem context_legacy (hlegacy : session.Legacy) :
    ∀ reply ∈ admission.context, reply.era = .legacy := by
  have hanswer : ∀ {era}, session.requestEra (frameParams value) = some era →
      admission.Answers era → ∀ reply ∈ admission.context, reply.era = .legacy := by
    intro era hera hanswers reply hreply
    rw [hanswers.context reply hreply]
    cases era with
    | legacy => rfl
    | modern => exact absurd hera (requestEra_of_legacy hlegacy _)
  cases heffect with
  | compatibility => simp [Admission.context]
  | ended => simp [Admission.context]
  | refused => simp [Admission.context]
  | begun => simp [Admission.context]
  | answered hera hanswers => exact hanswer hera hanswers
  | subscribed _ _ _ _ hera hanswers => exact hanswer hera hanswers

theorem of_compatibility (hcompatibility : admission.isCompatibility = true) : after = session := by
  cases heffect with
  | compatibility => rfl
  | ended => simp [Admission.isCompatibility] at hcompatibility
  | refused => rfl
  | begun => simp [Admission.isCompatibility] at hcompatibility
  | answered _ hanswers =>
    rw [hanswers.native] at hcompatibility
    cases hcompatibility
  | subscribed => rfl

/-- The notification that ends the handshake leads to the ready state from the one before it. -/
theorem of_initialized (hinitialized : admission.isInitialized = true) :
    session.state = .legacyInitializing ∧ after.state = .legacyReady := by
  cases heffect with
  | compatibility => simp [Admission.isInitialized] at hinitialized
  | ended _ hends => exact ⟨hends.initializing, hends.ready⟩
  | refused => simp [Admission.isInitialized] at hinitialized
  | begun => simp [Admission.isInitialized] at hinitialized
  | answered _ hanswers =>
    rw [hanswers.request] at hinitialized
    cases hinitialized
  | subscribed _ _ _ _ _ hanswers =>
    rw [hanswers.request] at hinitialized
    cases hinitialized

/-- A modern frame that is answered moves the session to the modern era. Assumes: the frame is not
one of the two that forget to. -/
theorem locks (hlocking : Locking host session value)
    (hinline : inlineMetadata (frameParams value) session.nativeService = true)
    (hnative : admission.isCompatibility = false) : after.state = .modern := by
  cases heffect with
  | compatibility => simp [Admission.isCompatibility] at hnative
  | ended hplain =>
    rw [hplain] at hinline
    cases hinline
  | @refused method params id reply henvelope hid hcapacity =>
    by_contra hmodern
    rw [← (envelope_eq_some henvelope).2] at hinline
    rw [(hlocking _ _ _ henvelope hid hinline hmodern).1] at hcapacity
    cases hcapacity
  | begun hplain =>
    rw [hplain] at hinline
    cases hinline
  | answered hera =>
    rw [(requestEra_of_inline hinline hera).1]
    rfl
  | subscribed henvelope hid hservice hmethod hera =>
    by_contra hmodern
    have hstate := (requestEra_of_inline hinline hera).2
    rw [← (envelope_eq_some henvelope).2] at hinline
    exact (hlocking _ _ _ henvelope hid hinline hmodern).2
      ⟨hstate.resolve_right hmodern, hservice, hmethod⟩

/-- One frame keeps the account of the retained frames. -/
theorem retained (hretained : session.Retained) : after.Retained := by
  obtain ⟨hframes, hbytes, hbounded⟩ := hretained
  cases heffect with
  | compatibility => exact ⟨hframes, hbytes, hbounded⟩
  | ended _ hends =>
    refine ⟨?_, ?_, hends.bounded⟩
    · simp [hends.history, hframes, hends.initializing, hends.ready, handshakeFrames]
    · simp [hends.history, hends.replayBytes, hbytes]
  | refused => exact ⟨hframes, hbytes, hbounded⟩
  | begun _ hbegins =>
    refine ⟨?_, ?_, hbegins.bounded⟩
    · simp [hbegins.history, hframes, hbegins.fresh, hbegins.initializing, handshakeFrames]
    · simp [hbegins.history, hbegins.replayBytes, hbytes]
  | @answered _ era hera =>
    unfold lock
    split_ifs with hmodern
    · subst hmodern
      refine ⟨?_, hbytes, hbounded⟩
      have hstate : session.state = .fresh ∨ session.state = .modern := by
        unfold requestEra at hera
        split_ifs at hera with happlies
        · exact happlies.1
        · cases hera
      rcases hstate with hstate | hstate
      · simp [hframes, hstate, handshakeFrames]
      · simp [hframes, hstate, handshakeFrames]
    · exact ⟨hframes, hbytes, hbounded⟩
  | subscribed => exact ⟨hframes, hbytes, hbounded⟩

end

end Effect

end Keeps

/-! ### Whole runs -/

/-- A frame: its value and its bytes. -/
structure Frame where
  value : Json
  bytes : List UInt8

/-- A session that reads frame after frame. -/
def sessions (host : Host) : Machine Session (Frame × Admission) where
  initial session :=
    session.state = .fresh ∧ session.history = [] ∧ session.replayBytes = 0 ∧
      session.legacyName = none ∧ session.legacyCapabilities = none
  step session label after :=
    session.admitFrame host label.1.value label.1.bytes = some (label.2, after)

/-- The frame of a step moves the session to the modern era if it should. -/
def LockingStep (host : Host) (session : Session) (label : Frame × Admission) : Prop :=
  Locking host session label.1.value

theorem effect_of_step (hstep : (sessions host).step session label after) :
    Effect host session label.1.value label.1.bytes label.2 after :=
  effect_of_admission hstep

theorem retained_of_reachable (hreachable : (sessions host).Reachable session) :
    session.Retained := by
  refine Machine.invariant_of_step Retained ?_ ?_ hreachable
  · rintro session ⟨hstate, hhistory, hbytes, -, -⟩
    exact ⟨by simp [hstate, hhistory, handshakeFrames], by simp [hhistory, hbytes],
      by simp [hbytes]⟩
  · intro session label after _ hretained hstep
    exact (effect_of_step hstep).retained hretained

/-- A property that every frame keeps holds in all later states. -/
theorem keeps_later {start : Session} {run : List ((Frame × Admission) × Session)}
    {property : Session → Prop}
    (hkeeps : ∀ {session value frame admission after},
      Effect host session value frame admission after → property session → property after)
    (hrun : (sessions host).Run start run) (hstart : property start) :
    ∀ entry ∈ run, property entry.2 := by
  induction hrun with
  | nil start => simp
  | @cons start next label rest hstep _ ih =>
    have hnext := hkeeps (effect_of_step hstep) hstart
    intro entry hentry
    rcases mem_cons.mp hentry with rfl | hentry
    · exact hnext
    · exact ih hnext entry hentry

/-- What a step of a run and the rest of the run owe each other, whatever the frames are: the
compatibility path leaves the session as it was, a legacy session stays legacy and answers nothing
as modern, and the notification that ends the handshake is accepted once. -/
structure LegacyKept (before : Session) (label : Frame × Admission) (after : Session)
    (later : List ((Frame × Admission) × Session)) : Prop where
  compatibility : label.2.isCompatibility = true → after = before
  legacy : after.Legacy → ∀ earlier next reached rest,
    later = earlier ++ (next, reached) :: rest →
      reached.Legacy ∧
      (Machine.last after earlier).requestEra (frameParams next.1.value) ≠ some .modern ∧
      ∀ reply ∈ next.2.context, reply.era = .legacy
  initialized : label.2.isInitialized = true → ∀ entry ∈ later, entry.1.2.isInitialized = false

/-- A frame with modern metadata that was answered natively is followed by no legacy state. -/
def ModernKept (before : Session) (label : Frame × Admission) (after : Session)
    (later : List ((Frame × Admission) × Session)) : Prop :=
  inlineMetadata (frameParams label.1.value) before.nativeService = true →
    label.2.isCompatibility = false → ¬ after.Legacy ∧ ∀ entry ∈ later, ¬ entry.2.Legacy

theorem not_legacy_of_modern (hmodern : session.state = .modern) : ¬ session.Legacy := by
  rintro (hstate | hstate)
  · rw [hmodern] at hstate
    cases hstate
  · rw [hmodern] at hstate
    cases hstate

/-- After the end of the handshake no frame ends it again. -/
theorem initialized_once (hrun : (sessions host).Run start run)
    (hready : start.state = .legacyReady) : ∀ entry ∈ run, entry.1.2.isInitialized = false := by
  induction hrun with
  | nil start => simp
  | @cons start next label rest hstep _ ih =>
    have heffect := effect_of_step hstep
    intro entry hentry
    rcases mem_cons.mp hentry with rfl | hentry
    · by_contra hagain
      have hstate := (heffect.of_initialized (by simpa using hagain)).1
      rw [hready] at hstate
      cases hstate
    · exact ih (heffect.ready hready) entry hentry

theorem legacyKept_of_split (hrun : (sessions host).Run start run)
    (hsplit : run = before ++ (label, after) :: later) :
    LegacyKept (Machine.last start before) label after later := by
  obtain ⟨-, hstep, hlater⟩ := hrun.split hsplit
  have heffect := effect_of_step hstep
  refine ⟨heffect.of_compatibility, ?_, ?_⟩
  · intro hlegacy earlier next reached rest hnext
    obtain ⟨hearlier, hat, -⟩ := hlater.split hnext
    have hbefore : (Machine.last after earlier).Legacy :=
      Machine.Run.keeps Legacy (fun _ _ _ hs h ↦ (effect_of_step h).legacy hs) hearlier hlegacy
    have hafter := effect_of_step hat
    exact ⟨hafter.legacy hbefore, requestEra_of_legacy hbefore _, hafter.context_legacy hbefore⟩
  · intro hinitialized
    exact initialized_once hlater (heffect.of_initialized hinitialized).2

theorem modernKept_of_split (hrun : ((sessions host).restrict (LockingStep host)).Run start run)
    (hsplit : run = before ++ (label, after) :: later) :
    ModernKept (Machine.last start before) label after later := by
  obtain ⟨-, ⟨hlocking, hstep⟩, hlater⟩ := hrun.split hsplit
  intro hinline hnative
  have hmodern := (effect_of_step hstep).locks hlocking hinline hnative
  refine ⟨not_legacy_of_modern hmodern, fun entry hentry ↦ ?_⟩
  have hkept : entry.2.state = .modern :=
    @keeps_later host after later (fun session ↦ session.state = .modern)
      (fun heffect hstate ↦ heffect.modern hstate) hlater.of_restrict hmodern entry hentry
  exact not_legacy_of_modern hkept

/-- The era of a session, over all its runs. Whatever the frames are, the frames kept for a replay
are accounted for, the compatibility path leaves the session alone, a legacy session stays legacy
and its handshake ends once. In a run whose steps all lock the modern era when they should, a modern
frame that was answered is followed by no legacy state. -/
theorem session_era (host : Host) :
    (∀ session, (sessions host).Reachable session → session.Retained) ∧
      (∀ start run, (sessions host).initial start → (sessions host).Run start run →
        ∀ before label after later, run = before ++ (label, after) :: later →
          LegacyKept (Machine.last start before) label after later) ∧
      ∀ start run, (sessions host).initial start →
        ((sessions host).restrict (LockingStep host)).Run start run →
        ∀ before label after later, run = before ++ (label, after) :: later →
          ModernKept (Machine.last start before) label after later := by
  refine ⟨fun session hreachable ↦ retained_of_reachable hreachable, ?_, ?_⟩
  · intro start run _ hrun before label after later hsplit
    exact legacyKept_of_split hrun hsplit
  · intro start run _ hrun before label after later hsplit
    exact modernKept_of_split hrun hsplit

/-! ### A modern answer that locks nothing -/

/-- A host with an empty catalog. -/
def bareHost : Host := ⟨[], [], fun _ _ ↦ none, fun _ ↦ 0⟩

/-- A new session of the native service. -/
def served : Session := ⟨.fresh, [], 0, true, false, false, none, none⟩

/-- A modern subscription to a resource. -/
def subscribeFrame : Frame :=
  ⟨.ofMembers [("jsonrpc", .string "2.0"), ("id", .ofInt64 1),
    ("method", .string "resources/subscribe"),
    ("params", .ofMembers [("_meta", .ofMembers
      [("io.modelcontextprotocol/protocolVersion", .string modernVersion),
        ("io.modelcontextprotocol/clientCapabilities", .ofMembers [])])])], []⟩

/-- A legacy initialization. -/
def initializeFrame : Frame :=
  ⟨.ofMembers [("jsonrpc", .string "2.0"), ("id", .ofInt64 2), ("method", .string "initialize"),
    ("params", .ofMembers [("protocolVersion", .string "2025-11-25"),
      ("capabilities", .ofMembers []),
      ("clientInfo", .ofMembers [("name", .string "client"), ("version", .string "1")])])], []⟩

/-- The refusal of the subscription. -/
def subscribeReply : Json :=
  ReplyContext.error ⟨.ofInt64 1, .modern⟩ (-32601) "Method not found"

/-- The session after the legacy initialization. -/
def initializing : Session :=
  ⟨.legacyInitializing, [[]], 0, true, false, false, some "client", none⟩

theorem admitFrame_subscribeFrame :
    served.admitFrame bareHost subscribeFrame.value subscribeFrame.bytes =
      some (.reply subscribeReply, served) := by
  rfl

theorem admitFrame_initializeFrame :
    served.admitFrame bareHost initializeFrame.value initializeFrame.bytes =
      some (.reply (initializing.initializeReply (frameParams initializeFrame.value)
        (.ofInt64 2)), initializing) := by
  rfl

/-- A session of the native service answers a modern subscription and still begins a legacy
handshake with the next frame. -/
theorem unlocked_modern_answer :
    ∃ start run, (sessions bareHost).initial start ∧ (sessions bareHost).Run start run ∧
      ∃ before label after later, run = before ++ (label, after) :: later ∧
        ¬ ModernKept (Machine.last start before) label after later := by
  refine ⟨served, [((subscribeFrame, .reply subscribeReply), served),
    ((initializeFrame, .reply (initializing.initializeReply (frameParams initializeFrame.value)
      (.ofInt64 2))), initializing)], ⟨rfl, rfl, rfl, rfl, rfl⟩,
    .cons admitFrame_subscribeFrame (.cons admitFrame_initializeFrame (.nil _)), [], _, _, _,
      rfl, ?_⟩
  intro hkept
  obtain ⟨-, hlater⟩ := hkept rfl rfl
  exact hlater _ (mem_singleton.mpr rfl) (.inl rfl)

end Session

end ObsMcp.Protocol
