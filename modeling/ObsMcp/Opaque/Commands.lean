import ObsMcp.Opaque.JsString

/-!
# Opaque requests

`obs-call-request` and `obs-batch` pass a request of the catalog, or a list of them, to OBS as the
caller wrote it. `Call.parse` reads the arguments and brings their numbers into the form of the
encoder. `execute` checks policy, catalog, receipts and time, inspects the input before it lists a
capture property, checks the advertised requests, stores a receipt and hands the command to the
session. What it meets outside, the replies of OBS included, is its `Environment`; an `Outcome`
lists what was handed to the session, in order, and the text of a refusal.

`PropertyList.run` is the tool `obs-get-input-property-list-items`, which lists the same properties
and has a copy of the inspection.
-/

namespace ObsMcp.Opaque

open Foundations Scenes

def ENUMERATION : String := "GetInputPropertiesListPropertyItems"

def BATCH_ENUMERATION : String :=
  "Capture property enumeration must run separately through obs-get-input-property-list-items " ++
    "so its crash guard can inspect current state after any changes."

def PROBE_FAILED : String :=
  "Capture properties could not be checked safely; read obs-get-input-settings before listing them."

def KIND_MISSING : String :=
  "Capture properties could not be checked safely; inspect obs-get-input-settings for the " ++
    "source kind."

def XCOMPOSITE : String :=
  "Listing windows on an unconfigured XComposite input can crash OBS. Select a window in OBS " ++
    "first, then inspect or plan its binding; discovery never seeds this property."

def SCREEN_CAPTURE : String :=
  "Listing ScreenCaptureKit display_uuid or application string properties can crash OBS even " ++
    "after a display is selected. Use the integer window list for window capture, or configure " ++
    "the intended application capture in OBS and bind that existing source."

/-- The most bytes of an encoded frame. -/
def MAX_BYTES : ℕ := 8 * 1024 * 1024

/-- The properties whose listing can crash OBS. -/
def GUARDED : List String := ["display_uuid", "application", "capture_window"]

/-! ### Numbers and the encoder -/

/-- The number a JSON number becomes: an integer when its JavaScript text is one. -/
def normalizeNumber (numerals : Numerals) (n : Number) : Number :=
  numerals.sourceNumber ⟨n.asF64, n.asF64_isFinite⟩

mutual

/-- The value with its numbers in the form of the encoder. -/
def visit (numerals : Numerals) : Json → Json
  | .number n => .number (normalizeNumber numerals n)
  | .array items => .array (visitItems numerals items)
  | .object members => .object (visitMembers numerals members)
  | value => value

def visitItems (numerals : Numerals) : List Json → List Json
  | [] => []
  | item :: items => visit numerals item :: visitItems numerals items

def visitMembers (numerals : Numerals) : List (String × Json) → List (String × Json)
  | [] => []
  | (key, value) :: members => (key, visit numerals value) :: visitMembers numerals members

end

mutual

/-- No part of a value at the given depth lies deeper than the limit. -/
def withinDepth (maxDepth : ℕ) : ℕ → Json → Bool
  | depth, .array items => depth ≤ maxDepth && itemsWithinDepth maxDepth (depth + 1) items
  | depth, .object members => depth ≤ maxDepth && membersWithinDepth maxDepth (depth + 1) members
  | depth, _ => depth ≤ maxDepth

def itemsWithinDepth (maxDepth : ℕ) : ℕ → List Json → Bool
  | _, [] => true
  | depth, item :: items => withinDepth maxDepth depth item && itemsWithinDepth maxDepth depth items

def membersWithinDepth (maxDepth : ℕ) : ℕ → List (String × Json) → Bool
  | _, [] => true
  | depth, (_, value) :: members =>
    withinDepth maxDepth depth value && membersWithinDepth maxDepth depth members

end

mutual

/-- The number of values in a value. -/
def nodeCount : Json → ℕ
  | .array items => 1 + itemsCount items
  | .object members => 1 + membersCount members
  | _ => 1

def itemsCount : List Json → ℕ
  | [] => 0
  | item :: items => nodeCount item + itemsCount items

def membersCount : List (String × Json) → ℕ
  | [] => 0
  | (_, value) :: members => nodeCount value + membersCount members

end

/-- The bytes of a character inside a JSON string. -/
def escapedSize (c : Char) : ℕ :=
  if c ∈ ['"', '\\', '\x08', '\x0c', '\n', '\r', '\t'] then 2
  else if c.toNat < 32 then 6
  else c.utf8Size

/-- The bytes of a JSON string, its quotes included. -/
def stringLength (s : String) : ℕ :=
  2 + (s.toList.map escapedSize).sum

mutual

/-- The bytes of a value as the encoder writes it. -/
def encodedLength (numerals : Numerals) : Json → ℕ
  | .null => 4
  | .bool b => if b then 4 else 5
  | .number n => (numberText numerals n).utf8ByteSize
  | .string s => stringLength s
  | .array [] => 2
  | .array (first :: rest) => 2 + encodedLength numerals first + itemsLength numerals rest
  | .object [] => 2
  | .object ((key, value) :: rest) =>
    2 + (stringLength key + 1 + encodedLength numerals value) + membersLength numerals rest

/-- The bytes of the further items of an array, each behind a comma. -/
def itemsLength (numerals : Numerals) : List Json → ℕ
  | [] => 0
  | item :: items => 1 + encodedLength numerals item + itemsLength numerals items

/-- The bytes of the further members of an object, each behind a comma. -/
def membersLength (numerals : Numerals) : List (String × Json) → ℕ
  | [] => 0
  | (key, value) :: members =>
    1 + (stringLength key + 1 + encodedLength numerals value) + membersLength numerals members

end

/-- The encoder takes the value within its default limits. -/
def prepared (numerals : Numerals) (value : Json) : Bool :=
  withinDepth 128 0 value && nodeCount value ≤ MAX_BYTES && encodedLength numerals value ≤ MAX_BYTES

/-! ### The arguments -/

/-- One listed request: its name and, if given, the members of its data. -/
structure Row where
  requestType : String
  requestData : Option Members

inductive Execution
  | serialRealtime
  | serialFrame
  deriving DecidableEq

inductive Call
  | request (row : Row)
  | batch (requests : List Row) (executionType : Execution) (haltOnFailure : Bool)

/-- `record`: the members of an optional record, without the key that would set a prototype. -/
def record (input : Members) (key : String) : Option (Option Members) :=
  match Members.get input key with
  | none => some none
  | some value => value.asObject.map fun fields ↦
      some (fields.filter fun member ↦ member.1 ≠ "__proto__")

def single (input : Json) : Option Row := do
  let input ← input.asObject
  let requestType ← (Members.get input "requestType").bind Json.asStr
  let requestData ← record input "requestData"
  some ⟨requestType, requestData⟩

def executionType (input : Members) : Option Execution :=
  match Members.get input "executionType" with
  | none => some .serialRealtime
  | some value => value.asStr.bind fun execution ↦
      if execution = "serial-realtime" then some .serialRealtime
      else if execution = "serial-frame" then some .serialFrame
      else none

def haltOnFailure (input : Members) : Option Bool :=
  match Members.get input "haltOnFailure" with
  | none => some false
  | some value => value.asBool

/-- The two tools. -/
inductive Tool
  | callRequest
  | batch
  deriving DecidableEq

def parse (tool : Tool) (args : Json) : Option Call := do
  let input ← args.asObject
  match tool with
  | .callRequest => (single args).map .request
  | .batch => do
    let requests ← (Members.get input "requests").bind Json.asArray
    if requests = [] ∨ 100 < requests.length then none
    else do
      let rows ← requests.mapM single
      let execution ← executionType input
      let halt ← haltOnFailure input
      some (.batch rows execution halt)

/-- The arguments of a listed request, in key order. -/
def Row.arguments (row : Row) : Json :=
  .object ((row.requestData.map fun data ↦ ("requestData", Json.object data)).toList ++
    [("requestType", .string row.requestType)])

def Execution.text : Execution → String
  | .serialRealtime => "serial-realtime"
  | .serialFrame => "serial-frame"

/-- The arguments of a call, in key order. -/
def Call.arguments : Call → Json
  | .request row => row.arguments
  | .batch requests execution halt =>
    .object [("executionType", .string execution.text), ("haltOnFailure", .bool halt),
      ("requests", .array (requests.map Row.arguments))]

def Row.visit (numerals : Numerals) (row : Row) : Row :=
  { row with requestData := row.requestData.map (visitMembers numerals) }

def Call.visit (numerals : Numerals) : Call → Call
  | .request row => .request (row.visit numerals)
  | .batch requests execution halt => .batch (requests.map (Row.visit numerals)) execution halt

/-- `Call::parse`: a call of either tool with the numbers normalized, when the encoder takes it. -/
def Call.parse (numerals : Numerals) (tool : Tool) (args : Json) : Option Call := do
  let call ← Opaque.parse tool args
  if prepared numerals call.arguments then some (call.visit numerals) else none

/-- The property a listed request names. -/
def Row.propertyName (row : Row) : Option Json :=
  row.requestData.bind fun data ↦ Members.get data "propertyName"

/-! ### One execution -/

/-- The moments at which an execution asks whether it was cancelled or its deadline is over. -/
inductive Moment
  | entry
  | probe
  | receipt
  | dispatch
  deriving DecidableEq

/-- What one execution meets outside: the digits of numbers, the request catalog, the durations of
the standard library, a valid deadline, the refusal of the policy, receipts that block, the moments
that are too late, the advertised requests, the reply to `GetInputSettings` for given selectors, and
whether the receipt is stored. -/
structure Environment where
  numerals : Numerals
  known : String → Bool
  nanoseconds : Float → Option ℕ
  deadlineValid : Bool
  policy : Option String
  blocking : Bool
  expired : Moment → Bool
  capabilities : Option (List String)
  settings : Members → Option Json
  receipt : Bool

/-- A command handed to the session. -/
inductive Handed
  | request (requestType : String) (requestData : Json)
  | batch (requests : List Row) (executionType : Execution) (haltOnFailure : Bool)

/-- What was handed to the session, in order, and the text of a refusal. -/
structure Outcome where
  handed : List Handed
  refusal : Option String

def guarded (numerals : Numerals) (value : Option Json) : Except JsStringError Bool :=
  (appendJsString numerals "" value (8 * 1024 * 1024)).map fun text ↦ decide (text ∈ GUARDED)

/-- `failure`: the text of a failed call. -/
def failure (call : Call) (message : String) : String :=
  match call with
  | .request row => "OBS request " ++ row.requestType ++ " failed: " ++ message
  | .batch _ _ _ => "OBS request batch failed: " ++ message

/-- The milliseconds of sleep with those a listed request asks for. -/
def sleepMillis (total : Float) (row : Row) : Float :=
  if row.requestType = "Sleep" then
    match row.requestData with
    | none => total
    | some data =>
      let total := ((Members.get data "sleepMillis").bind Json.asF64).elim total (total + ·)
      ((Members.get data "sleepFrames").bind Json.asF64).elim total
        fun value ↦ total + value / 30.0 * 1000.0
  else total

/-- `effective_timeout` of a list of requests without an own timeout, in nanoseconds. -/
def effectiveTimeout (nanoseconds : Float → Option ℕ) (requests : List Row) : Option ℕ :=
  let millis := 10000.0 + requests.foldl sleepMillis 0.0
  if !millis.isFinite || millis ≤ 0.0 || 2147483647.0 < millis then none
  else nanoseconds (millis / 1000.0)

/-- `budget`: the time of a call, unless it is over 600 seconds. -/
def budget (env : Environment) : Call → Option ℕ
  | .request _ => some (10 * 10 ^ 9)
  | .batch requests _ _ =>
    (effectiveTimeout env.nanoseconds requests).filter fun duration ↦ duration ≤ 600 * 10 ^ 9

/-- The refusal of the first enumeration in a batch that has one. -/
def enumerationRefusal (env : Environment) (call : Call) : List Row → Option String
  | [] => none
  | row :: rows =>
    if row.requestType = ENUMERATION then
      match guarded env.numerals row.propertyName with
      | .ok true => some BATCH_ENUMERATION
      | .ok false => enumerationRefusal env call rows
      | .error _ => some (failure call "Cannot convert object to primitive value")
    else enumerationRefusal env call rows

def refusal (env : Environment) (call : Call) : Option String :=
  match call with
  | .request row =>
    if env.known row.requestType then none
    else some ("Unknown OBS WebSocket request: " ++ row.requestType)
  | .batch requests _ _ =>
    let unknown := (requests.map Row.requestType).filter fun name ↦ !env.known name
    if unknown ≠ [] then
      some ("Unknown OBS WebSocket request: " ++ ", ".intercalate unknown)
    else
      (enumerationRefusal env call requests).or <|
        if (budget env call).isNone then
          some ("OBS request batch failed: Original batch deadline exceeds the native " ++
            "600-second qualification bound")
        else none

/-- `missing`: the advertised requests are known and lack one. -/
def missing (capabilities : Option (List String)) (method : String) : Bool :=
  capabilities.any fun set ↦ !set.contains method

def unsupported (method : String) : String :=
  "OBS WebSocket does not advertise support for request '" ++ method ++ "'"

/-- The selectors of the input: its name and its identity, where they are strings. -/
def selectors (data : Members) : Members :=
  ["inputName", "inputUuid"].filterMap fun key ↦
    ((Members.get data key).filter Json.isString).map fun value ↦ (key, value)

/-- The settings name no window: the property is absent, no string or empty. -/
def Hollow (settings : Json) : Prop :=
  ∀ window, ((settings.get "inputSettings").bind fun fields ↦
    (fields.get "capture_window").bind Json.asStr) = some window → window = ""

/-- The kind of the input, unless it is missing, no string or empty. -/
def inputKind (settings : Json) : Option String :=
  (settings.index "inputKind").asStr.filter (· ≠ "")

instance (settings : Json) : Decidable (Hollow settings) :=
  match h : (settings.get "inputSettings").bind fun fields ↦
      (fields.get "capture_window").bind Json.asStr with
  | none => isTrue fun window hwindow ↦ by rw [h] at hwindow; cases hwindow
  | some window =>
    if hempty : window = "" then isTrue fun other hother ↦ by
      rw [h] at hother; rw [← Option.some.inj hother, hempty]
    else isFalse fun hhollow ↦ hempty (hhollow window h)

/-- The reply to `GetInputSettings`, unless it is not advertised or fails. -/
def probe (env : Environment) (data : Members) : Option Json :=
  if missing env.capabilities "GetInputSettings" then none else env.settings (selectors data)

/-- What the probe hands to the session. -/
def probed (env : Environment) (data : Members) : List Handed :=
  if missing env.capabilities "GetInputSettings" then []
  else [.request "GetInputSettings" (.object (selectors data))]

/-- The inspection of the input before a capture property is listed. -/
def captureGuard (env : Environment) (data : Members) : Except String Unit :=
  match probe env data with
  | none => .error PROBE_FAILED
  | some settings =>
    match inputKind settings with
    | none => .error KIND_MISSING
    | some kind =>
      if (Members.get data "propertyName").bind Json.asStr = some "capture_window" then
        if kind = "xcomposite_input" ∧ Hollow settings then .error XCOMPOSITE else .ok ()
      else if kind = "screen_capture" then .error SCREEN_CAPTURE
      else .ok ()

/-- The checks before the inspection. -/
def precheck (env : Environment) (call : Call) : Except String Unit :=
  if env.deadlineValid = false then .error "Invalid operation deadline"
  else
    match env.policy with
    | some text => .error text
    | none =>
      match refusal env call with
      | some text => .error text
      | none =>
        if env.blocking then .error "Unresolved receipt custody prevents dispatch"
        else if env.expired .entry then
          .error (failure call "Operation cancelled or expired before dispatch")
        else .ok ()

/-- The call lists a property whose JavaScript text is one of the guarded names. -/
def needsCaptureGuard (env : Environment) (call : Call) : Except String Bool :=
  match call with
  | .request row =>
    if row.requestType = ENUMERATION then
      match guarded env.numerals row.propertyName with
      | .ok value => .ok value
      | .error _ => .error (failure call "Cannot convert object to primitive value")
    else .ok false
  | .batch _ _ _ => .ok false

/-- The names of the requests of a call. -/
def required : Call → List String
  | .request row => [row.requestType]
  | .batch requests _ _ => requests.map Row.requestType

/-- The command of a call. -/
def command : Call → Handed
  | .request row => .request row.requestType (row.requestData.elim .null .object)
  | .batch requests execution halt => .batch requests execution halt

/-- The checks after the inspection: advertised requests, time and the receipt. -/
def postcheck (env : Environment) (call : Call) : Except String Unit :=
  match (required call).find? (missing env.capabilities) with
  | some method => .error (failure call (unsupported method))
  | none =>
    if env.expired .receipt then
      .error (failure call "Operation cancelled or expired before dispatch")
    else if env.receipt = false then
      .error ("Operation receipt could not be persisted or inspected; inspect obs-observe " ++
        "before any further production change")
    else if env.expired .dispatch then
      .error (failure call "Operation deadline expired before dispatch")
    else .ok ()

/-- The end of an execution after the given commands. -/
def dispatch (env : Environment) (call : Call) (handed : List Handed) : Outcome :=
  match postcheck env call with
  | .error text => ⟨handed, some text⟩
  | .ok () => ⟨handed ++ [command call], none⟩

/-- `execute`, up to the hand-over of its command to the session. -/
def execute (env : Environment) (call : Call) : Outcome :=
  match precheck env call with
  | .error text => ⟨[], some text⟩
  | .ok () =>
    match needsCaptureGuard env call, call with
    | .error text, _ => ⟨[], some text⟩
    | .ok true, .request row =>
      let data := row.requestData.getD []
      if env.expired .probe then
        ⟨[], some (failure call "Operation cancelled or expired before dispatch")⟩
      else
        match captureGuard env data with
        | .error text => ⟨probed env data, some text⟩
        | .ok () => dispatch env call (probed env data)
    | .ok _, _ => dispatch env call []

/-! ### The dedicated tool -/

namespace PropertyList

/-- The selectors and the property of the dedicated tool. -/
structure Request where
  selectors : Members
  propertyName : String

structure ObservationError where
  code : String
  message : String

def invalidated : ObservationError :=
  ⟨"property_list_invalidated",
    "Property-list source evidence changed; inspect OBS before retrying"⟩

/-- The moments at which the tool asks whether the request is still live. -/
inductive Check
  | admission
  | failedRead
  | settings
  | dispatch
  deriving DecidableEq

/-- What one run of the dedicated tool meets outside: whether its evidence is of one session with
every event, the refusal of `live` at each moment and of `synchronize`, whether the fence stands
before and after the settings are read, the advertised requests, the reply to `GetInputSettings`,
and whether time is left. -/
structure Context where
  current : Bool
  live : Check → Option ObservationError
  synchronized : Option ObservationError
  fenced : Check → Bool
  capabilities : Option (List String)
  settings : Members → Option Json
  remaining : Bool

/-- The outcome: an error, an error text in the result, or the command handed to the session. -/
inductive Outcome
  | failed (error : ObservationError)
  | answered (text : String)
  | handed (requestType : String) (data : Members)

def textError (disposition message : String) : Outcome :=
  .answered ("Get Input Property List Items " ++ disposition ++ ": " ++ message)

/-- The inspection of the dedicated tool. -/
def inspect (context : Context) (request : Request) : Except Outcome Unit :=
  if request.propertyName ∈ GUARDED then
    if missing context.capabilities "GetInputSettings" then
      .error (textError "refused" PROBE_FAILED)
    else
      match context.settings request.selectors with
      | none =>
        match context.live .failedRead with
        | some error => .error (.failed error)
        | none => .error (textError "refused" PROBE_FAILED)
      | some settings =>
        match context.live .settings with
        | some error => .error (.failed error)
        | none =>
          if context.fenced .settings = false then .error (.failed invalidated)
          else
            match (settings.get "inputKind").bind fun kind ↦ kind.asStr.filter (· ≠ "") with
            | none => .error (textError "refused" KIND_MISSING)
            | some kind =>
              if request.propertyName = "capture_window" then
                if kind = "xcomposite_input" ∧ Hollow settings then
                  .error (textError "refused" XCOMPOSITE)
                else .ok ()
              else if kind = "screen_capture" then .error (textError "refused" SCREEN_CAPTURE)
              else .ok ()
  else .ok ()

/-- `run`, up to the hand-over of its command to the session. -/
def run (context : Context) (request : Request) : Outcome :=
  if context.current = false then .failed invalidated
  else
    match context.live .admission, context.synchronized with
    | some error, _ => .failed error
    | none, some error => .failed error
    | none, none =>
      if context.fenced .admission = false then .failed invalidated
      else
        match inspect context request with
        | .error outcome => outcome
        | .ok () =>
          if missing context.capabilities ENUMERATION then
            textError "failed" (unsupported ENUMERATION)
          else
            match context.live .dispatch with
            | some error => .failed error
            | none =>
              if context.remaining = false then .failed invalidated
              else
                .handed ENUMERATION
                  (Members.insert request.selectors "propertyName" (.string request.propertyName))

end PropertyList

end ObsMcp.Opaque
