import ObsMcp.Foundations.Digits
import ObsMcp.Foundations.Json
import ObsMcp.Foundations.Text

/-!
# The control gate

One decision guards every tool call: `ControlDomain.evaluate` refuses a change while another client
holds the lease, refuses what a locked take forbids, and asks for a confirmation of live actions.
`obs-batch` and `obs-call-request` each have their own path through the last two checks.

`batch_gate` says that the two paths agree: a batch is locked, or asks, exactly when one of its
elements does as a single request, and so a batch allowed without a confirmation holds no request
that would not be allowed on its own.
-/

namespace ObsMcp.Control

open Foundations List Option

/-! ### The lease and the take lock -/

def UNIDENTIFIED : String := "an unidentified client"

def isIdentified (name : String) : Bool :=
  name ≠ UNIDENTIFIED

structure Lease where
  holder : String
  reason : String
  since : ℕ
  expiresAt : ℕ

def Lease.description (lease : Lease) : String :=
  let minutes := lease.expiresAt / 60000
  let reason := if lease.reason = "" then "" else " (" ++ lease.reason ++ ")"
  lease.holder ++ " has control" ++ reason ++ " until " ++
    String.ofList (Digits.padded 2 (minutes / 60 % 24)) ++ ":" ++
    String.ofList (Digits.padded 2 (minutes % 60)) ++ " UTC"

structure TakeLock where
  id : String
  locked : Bool

structure ControlDomain where
  lease : Option Lease
  take : Option TakeLock

namespace ControlDomain

/-- The lease that has not expired. -/
def activeLease (domain : ControlDomain) (now : ℕ) : Option Lease :=
  domain.lease.filter fun lease ↦ now < lease.expiresAt

/-- The domain without an expired lease. -/
def expire (domain : ControlDomain) (now : ℕ) : ControlDomain :=
  { domain with lease := domain.activeLease now }

end ControlDomain

/-! ### Requests and decisions -/

structure ConfirmationContext where
  enabled : Bool
  canElicit : Bool
  inputResponses : Option Json

structure GateRequest where
  toolName : String
  arguments : Json
  readOnlyHint : Bool
  caller : String
  confirmation : ConfirmationContext

inductive RefusalKind
  | lease
  | takeLock
  | confirmation
  deriving DecidableEq

inductive Disposition
  | allow
  | refused (kind : RefusalKind) (message : String)
  | inputRequired (question : String)
  | cancelled
  deriving DecidableEq

inductive ConfirmationAnswer
  | missing
  | accepted (confirm : Bool)
  | otherResponse
  deriving DecidableEq

/-- What the responses of a call answer to the question of confirmation. -/
def ConfirmationAnswer.fromResponses (responses : Option Json) : ConfirmationAnswer :=
  match (responses.bind fun responses ↦ responses.get "confirm").filter Json.isObject with
  | none => .missing
  | some entry =>
    let action := (entry.get "action").bind Json.asStr
    if action = some "accept" then
      match (((entry.get "content").filter Json.isObject).bind fun content ↦
          content.get "confirm").bind Json.asBool with
      | some confirm => .accepted confirm
      | none => .otherResponse
    else if action = some "decline" ∨ action = some "cancel" then .otherResponse
    else if (entry.get "roots").any Json.isArray ||
        ((entry.get "role").any Json.isString && (entry.get "content").isSome) then .otherResponse
    else .missing

/-- The tools that a lease never stops. -/
def alwaysAllowed (tool : String) : Bool :=
  ["obs-claim-control", "obs-release-control", "obs-stop-record", "obs-stop-stream",
    "obs-take-stop", "obs-stop-virtual-cam", "obs-stop-replay-buffer",
    "obs-stop-output"].contains tool

/-! ### The take lock -/

def fixedLock (tool : String) : Option String :=
  [("obs-set-current-profile", "switch profiles"),
    ("obs-create-profile", "create and switch to a profile"),
    ("obs-remove-profile", "remove a profile"),
    ("obs-set-current-scene-collection", "switch scene collections"),
    ("obs-create-scene-collection", "create and switch to a scene collection"),
    ("obs-set-profile-parameter", "change profile settings"),
    ("obs-set-record-directory", "change the recording directory"),
    ("obs-set-video-settings", "change the canvas and frame rate"),
    ("obs-set-stream-service-settings", "change the stream service"),
    ("obs-set-output-settings", "change an output's settings")].lookup tool

def lockedRequest (request : String) : Bool :=
  ["SetCurrentProfile", "CreateProfile", "RemoveProfile", "SetCurrentSceneCollection",
    "CreateSceneCollection", "SetProfileParameter", "SetRecordDirectory", "SetVideoSettings",
    "SetStreamServiceSettings", "SetOutputSettings"].contains request

/-- The type of a request, when it is a text. -/
def requestType (request : Json) : Option String :=
  (request.get "requestType").bind Json.asStr

/-- The requests that a call holds, one for `obs-call-request`. -/
def requestsOf (tool : String) (arguments : Json) : Option (List Json) :=
  if tool = "obs-call-request" then some [arguments]
  else if tool = "obs-batch" then (arguments.get "requests").bind Json.asArray
  else none

/-- What a call would do under a locked take. -/
def lockedAction (tool : String) (arguments : Json) : Option String :=
  match fixedLock tool with
  | some action => some action
  | none =>
    if arguments.isObject then
      (requestsOf tool arguments).bind fun requests ↦
        let locked := (requests.filterMap requestType).filter lockedRequest
        if locked = [] then none else some ("send " ++ ", ".intercalate locked)
    else none

/-! ### Live questions -/

/-- How a float is written, in the scientific and in the plain notation. -/
structure FloatText where
  scientific : Float → String
  plain : Float → String

def fixedQuestion (tool : String) : Option String :=
  [("obs-take-scene", "Transition the staged preview scene to program?"),
    ("obs-start-stream", "Start the live stream?"),
    ("obs-stop-stream", "Stop the live stream?"),
    ("obs-toggle-stream", "Toggle the live stream? If it is live, this ends the broadcast."),
    ("obs-stop-record", "Stop the recording?"),
    ("obs-take-stop", "Stop the recording?"),
    ("obs-toggle-record",
      "Toggle recording? If it is recording, this ends the take.")].lookup tool

/-- A number as JavaScript writes it. -/
def numberText (text : FloatText) (number : Float) : String :=
  if number == 0.0 then "0"
  else if 1e21 ≤ number.abs || number.abs < 1e-6 then
    let formatted := text.scientific number
    match Text.splitOnce ['e'] formatted.toList with
    | some (base, exponent) =>
      String.ofList (base ++ 'e' :: (if exponent.head? = some '-' then exponent
        else '+' :: exponent))
    | none => formatted
  else text.plain number

mutual

/-- `js_string` of a value that is there. -/
def jsString (text : FloatText) : Json → String
  | .null => "null"
  | .string s => s
  | .bool b => if b then "true" else "false"
  | .number n => numberText text n.asF64
  | .array items => ",".intercalate (jsStrings text items)
  | .object _ => "[object Object]"

def jsStrings (text : FloatText) : List Json → List String
  | [] => []
  | item :: items => (if item.isNull then "" else jsString text item) :: jsStrings text items

end

/-- The name of an output in the data of a request. -/
def outputName (text : FloatText) (data : Option Json) : String :=
  match data.bind fun data ↦ data.get "outputName" with
  | none => "undefined"
  | some name => jsString text name

def requestQuestion (text : FloatText) (kind : String) (data : Option Json) : Option String :=
  let name := outputName text data
  [("StartStream", "Start the live stream?"),
    ("StopStream", "Stop the live stream?"),
    ("ToggleStream", "Toggle the live stream? If it is live, this ends the broadcast."),
    ("StopRecord", "Stop the recording?"),
    ("ToggleRecord", "Toggle recording? If it is recording, this ends the take."),
    ("StartOutput",
      "Start the output " ++ name ++ "? This may start a live broadcast or recording."),
    ("StopOutput",
      "Stop the output " ++ name ++ "? If it is the stream or the recording, this ends it."),
    ("ToggleOutput", "Toggle the output " ++ name ++
      "? If it is the stream or the recording, this can end it.")].lookup kind

/-- The question of one request of a batch. -/
def questionOf (text : FloatText) (request : Json) : Option String :=
  (requestType request).bind fun kind ↦ requestQuestion text kind (request.get "requestData")

/-- The questions in order, without repetitions. -/
def pushQuestion (questions : List String) (question : Option String) : List String :=
  match question with
  | some question => if questions.contains question then questions else questions ++ [question]
  | none => questions

def liveQuestion (text : FloatText) (tool : String) (arguments : Json) : Option String :=
  match fixedQuestion tool with
  | some question => some question
  | none =>
    if tool = "obs-call-request" then questionOf text arguments
    else if tool = "obs-start-output" then requestQuestion text "StartOutput" (some arguments)
    else if tool = "obs-stop-output" then requestQuestion text "StopOutput" (some arguments)
    else if tool = "obs-toggle-output" then requestQuestion text "ToggleOutput" (some arguments)
    else if tool = "obs-batch" then
      ((arguments.get "requests").bind Json.asArray).bind fun requests ↦
        let questions := (requests.map (questionOf text)).foldl pushQuestion []
        if questions = [] then none else some (" ".intercalate questions)
    else none

/-! ### The decision -/

/-- The lease that stops a request: another client holds it, or the caller is unknown. -/
def ControlDomain.stoppingLease (domain : ControlDomain) (request : GateRequest) (now : ℕ) :
    Option Lease :=
  if request.readOnlyHint || alwaysAllowed request.toolName then none
  else (domain.activeLease now).filter fun lease ↦
    !isIdentified request.caller || request.caller ≠ lease.holder

/-- The decision about a live action, given its question. -/
def confirm (request : GateRequest) (question : String) : Disposition :=
  match ConfirmationAnswer.fromResponses request.confirmation.inputResponses with
  | .accepted true => .allow
  | .accepted false | .otherResponse => .cancelled
  | .missing =>
    if request.confirmation.canElicit then .inputRequired question
    else if (request.arguments.get "confirm").bind Json.asBool = some true then .allow
    else .refused .confirmation (question ++ " This server requires confirmation for live " ++
      "actions and this client cannot ask. Ask the user, then call again with confirm: true.")

/-- `evaluate`: the decision, and the domain after it. -/
def ControlDomain.evaluate (text : FloatText) (domain : ControlDomain) (request : GateRequest)
    (now : ℕ) : Disposition × ControlDomain :=
  let next := if request.readOnlyHint || alwaysAllowed request.toolName then domain
    else domain.expire now
  match domain.stoppingLease request now with
  | some lease => (.refused .lease ("Not changed: " ++ lease.description ++
      ". Ask them to call obs-release-control, or wait. Reading OBS and stopping outputs still " ++
      "work"), next)
  | none =>
    match domain.take.filter TakeLock.locked, lockedAction request.toolName request.arguments with
    | some take, some action => (.refused .takeLock ("Take " ++ take.id ++
        " is recording, and changing this now would " ++ action ++ " under it. Stop the take " ++
        "with obs-take-stop first, or start takes with lock: false"), next)
    | _, _ =>
      if request.confirmation.enabled then
        match liveQuestion text request.toolName request.arguments with
        | some question => (confirm request question, next)
        | none => (.allow, next)
      else (.allow, next)

/-! ### One element and the batch -/

section Batch

variable {text : FloatText} {arguments request : Json} {requests : List Json}

theorem isObject_of_get {value member : Json} {key : String} (hget : value.get key = some member) :
    value.isObject = true := by
  cases value with
  | object members => rfl
  | _ => cases hget

/-- A request that a locked take forbids. -/
def Locked (request : Json) : Prop :=
  (requestType request).any lockedRequest = true

theorem filter_locked_ne_nil :
    (requests.filterMap requestType).filter lockedRequest ≠ [] ↔
      ∃ request ∈ requests, Locked request := by
  constructor
  · intro hne
    obtain ⟨kind, hmem⟩ := exists_mem_of_ne_nil _ hne
    obtain ⟨hmem, hlocked⟩ := mem_filter.mp hmem
    obtain ⟨request, hrequest, hkind⟩ := mem_filterMap.mp hmem
    exact ⟨request, hrequest, by rw [Locked, hkind]; exact hlocked⟩
  · rintro ⟨request, hrequest, hlocked⟩
    obtain ⟨kind, hkind, hlocked⟩ := (any_eq_true _ _).mp hlocked
    exact ne_nil_of_mem
      (mem_filter.mpr ⟨mem_filterMap.mpr ⟨request, hrequest, hkind⟩, hlocked⟩)

/-- A call that holds requests is locked when one of them is. -/
theorem isSome_lockedAction {tool : String} (hfixed : fixedLock tool = none)
    (hobject : arguments.isObject = true) (hrequests : requestsOf tool arguments = some requests) :
    (lockedAction tool arguments).isSome = true ↔ ∃ request ∈ requests, Locked request := by
  rw [← filter_locked_ne_nil]
  unfold lockedAction
  rw [hfixed]
  dsimp only
  rw [if_pos hobject, hrequests, bind_some]
  split_ifs with hempty
  · simp [hempty]
  · simpa using hempty

theorem isSome_lockedAction_single :
    (lockedAction "obs-call-request" request).isSome = true ↔ Locked request := by
  by_cases hobject : request.isObject = true
  · rw [isSome_lockedAction (by decide) hobject rfl]
    simp
  · have hnone : request.get "requestType" = none := by
      cases hget : request.get "requestType" with
      | none => rfl
      | some member => exact absurd (isObject_of_get hget) hobject
    refine iff_of_false ?_ ?_
    · simp [lockedAction, show fixedLock "obs-call-request" = none by decide, hobject]
    · simp [Locked, requestType, hnone]

theorem isSome_lockedAction_batch (hrequests : arguments.get "requests" = some (.array requests)) :
    (lockedAction "obs-batch" arguments).isSome = true ↔
      ∃ request ∈ requests, (lockedAction "obs-call-request" request).isSome = true := by
  have hlist : requestsOf "obs-batch" arguments = some requests := by
    show (arguments.get "requests").bind Json.asArray = some requests
    rw [hrequests]
    rfl
  rw [isSome_lockedAction (by decide) (isObject_of_get hrequests) hlist]
  exact exists_congr fun request ↦ and_congr_right fun _ ↦ isSome_lockedAction_single.symm

theorem foldl_pushQuestion_eq_nil {questions : List (Option String)} {seen : List String} :
    questions.foldl pushQuestion seen = [] ↔
      seen = [] ∧ ∀ question ∈ questions, question = none := by
  induction questions generalizing seen with
  | nil => simp
  | cons question questions ih =>
    rw [foldl_cons, ih, forall_mem_cons]
    cases question with
    | none => simp [pushQuestion]
    | some question =>
      have hpush : pushQuestion seen (some question) ≠ [] := by
        unfold pushQuestion
        dsimp only
        split_ifs with hseen
        · rintro rfl
          simp at hseen
        · simp
      simp [hpush]

theorem liveQuestion_single :
    liveQuestion text "obs-call-request" request = questionOf text request := rfl

theorem isSome_liveQuestion_batch (hrequests : arguments.get "requests" = some (.array requests)) :
    (liveQuestion text "obs-batch" arguments).isSome = true ↔
      ∃ request ∈ requests, (liveQuestion text "obs-call-request" request).isSome = true := by
  have hbatch : liveQuestion text "obs-batch" arguments =
      let questions := (requests.map (questionOf text)).foldl pushQuestion []
      if questions = [] then none else some (" ".intercalate questions) := by
    show ((arguments.get "requests").bind Json.asArray).bind _ = _
    rw [hrequests]
    rfl
  rw [hbatch]
  dsimp only
  split_ifs with hempty
  · obtain ⟨-, hnone⟩ := foldl_pushQuestion_eq_nil.mp hempty
    refine iff_of_false (by simp) ?_
    rintro ⟨request, hmem, hsome⟩
    rw [liveQuestion_single, hnone _ (mem_map.mpr ⟨request, hmem, rfl⟩)] at hsome
    cases hsome
  · refine iff_of_true rfl ?_
    by_contra hnone
    refine hempty (foldl_pushQuestion_eq_nil.mpr ⟨rfl, fun question hmem ↦ ?_⟩)
    obtain ⟨request, hrequest, rfl⟩ := mem_map.mp hmem
    by_contra hsome
    exact hnone ⟨request, hrequest, isSome_iff_ne_none.mpr hsome⟩

end Batch

/-! ### The gate -/

section Gate

variable {text : FloatText} {domain : ControlDomain} {request : GateRequest} {now : ℕ}

/-- The take lock stops a request. -/
def ControlDomain.TakeStops (domain : ControlDomain) (request : GateRequest) : Prop :=
  (domain.take.filter TakeLock.locked).isSome = true ∧
    (lockedAction request.toolName request.arguments).isSome = true

/-- A request is allowed when no lease and no take lock stops it, and it is confirmed if it asks. -/
theorem evaluate_eq_allow : (domain.evaluate text request now).1 = .allow ↔
    domain.stoppingLease request now = none ∧ ¬ domain.TakeStops request ∧
      (request.confirmation.enabled = true →
        ∀ question, liveQuestion text request.toolName request.arguments = some question →
          confirm request question = .allow) := by
  unfold ControlDomain.evaluate ControlDomain.TakeStops
  dsimp only
  cases hlease : domain.stoppingLease request now with
  | some lease => simp
  | none =>
    cases htake : domain.take.filter TakeLock.locked <;>
      cases haction : lockedAction request.toolName request.arguments <;>
      cases henabled : request.confirmation.enabled <;>
      cases hquestion : liveQuestion text request.toolName request.arguments <;> simp

/-- Without an answer and without a flag, a question is never an allowed one. -/
theorem confirm_ne_allow {question : String}
    (hmissing : ConfirmationAnswer.fromResponses request.confirmation.inputResponses = .missing)
    (hflag : (request.arguments.get "confirm").bind Json.asBool ≠ some true) :
    confirm request question ≠ .allow := by
  unfold confirm
  rw [hmissing]
  dsimp only
  rw [if_neg hflag]
  split_ifs <;> simp

end Gate

/-- A batch cannot smuggle a request past the gate: what is allowed as a batch without a
confirmation is allowed request by request, and the batch is locked, or asks, exactly when one of
its requests does. -/
theorem batch_gate :
    (∀ text (domain : ControlDomain) now readOnlyHint caller confirmation arguments requests,
      arguments.get "requests" = some (.array requests) →
      ConfirmationAnswer.fromResponses confirmation.inputResponses = .missing →
      (arguments.get "confirm").bind Json.asBool ≠ some true →
      (domain.evaluate text ⟨"obs-batch", arguments, readOnlyHint, caller, confirmation⟩ now).1 =
        .allow →
      ∀ request ∈ requests, (domain.evaluate text
        ⟨"obs-call-request", request, readOnlyHint, caller, confirmation⟩ now).1 = .allow) ∧
    (∀ arguments requests, arguments.get "requests" = some (.array requests) →
      ((lockedAction "obs-batch" arguments).isSome = true ↔
        ∃ request ∈ requests, (lockedAction "obs-call-request" request).isSome = true)) ∧
    ∀ text arguments requests, arguments.get "requests" = some (.array requests) →
      ((liveQuestion text "obs-batch" arguments).isSome = true ↔
        ∃ request ∈ requests, (liveQuestion text "obs-call-request" request).isSome = true) := by
  refine ⟨?_, fun _ _ ↦ isSome_lockedAction_batch, fun _ _ _ ↦ isSome_liveQuestion_batch⟩
  intro text domain now readOnlyHint caller confirmation arguments requests hrequests hmissing
    hflag hallow request hmem
  rw [evaluate_eq_allow] at hallow ⊢
  obtain ⟨hlease, htake, hlive⟩ := hallow
  refine ⟨hlease, fun ⟨hlocked, haction⟩ ↦ htake ⟨hlocked, ?_⟩, fun henabled question
    hquestion ↦ ?_⟩
  · exact (isSome_lockedAction_batch hrequests).mpr ⟨request, hmem, haction⟩
  · have hasks : (liveQuestion text "obs-batch" arguments).isSome = true :=
      (isSome_liveQuestion_batch hrequests).mpr
        ⟨request, hmem, isSome_iff_exists.mpr ⟨question, hquestion⟩⟩
    obtain ⟨asked, hasked⟩ := isSome_iff_exists.mp hasks
    exact absurd (hlive henabled asked hasked) (confirm_ne_allow hmissing hflag)

end ObsMcp.Control
