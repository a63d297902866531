import ObsMcp.Foundations.Checked
import ObsMcp.Foundations.Json
import ObsMcp.Receipts.Identity

/-!
# The protocol session of a stdio client

The admission of `protocol.rs`. A session is fresh, modern, or in one of the two states of a legacy
handshake; `admitFrame` reads one frame and answers natively or hands the frame to the compatibility
path, and `admitReady` is its second half, which the HTTP adapter uses as well. Each branch of
`admitReady` is a definition of its own that answers nothing when it does not apply, in the order of
the source; moving a fresh session to the modern era is the business of the branch.

The texts of the prompt catalog and the length of an encoded value come from outside (`Host`). A
frame that makes the source panic answers nothing.
-/

namespace ObsMcp.Protocol

open Foundations

def modernVersion : String := "2026-07-28"

def legacyVersions : List String := ["2025-11-25", "2025-06-18", "2025-03-26", "2024-11-05"]

def maxFrameBytes : ℕ := 8 * 1024 * 1024

def maxReplayBytes : ℕ := 2 * maxFrameBytes

inductive SessionState
  | fresh
  | modern
  | legacyInitializing
  | legacyReady
  deriving DecidableEq

inductive Era
  | modern
  | legacy
  deriving DecidableEq

structure ReplyContext where
  id : Json
  era : Era

inductive Admission
  | reply (value : Json)
  | list (reply : ReplyContext)
  | resourceList (reply : ReplyContext)
  | resourceCompletion (reply : ReplyContext) (text : String)
  | resourceRead (reply : ReplyContext) (uri : String)
  | call (reply : ReplyContext) (name : String) (arguments : Json)
  | listen (reply : ReplyContext) (notifications : Json) (validFilter : Bool)
  | resourceSubscription (reply : ReplyContext) (uri : Except String String) (add : Bool)
  | initialized
  | compatibility

structure Session where
  state : SessionState
  history : List (List UInt8)
  replayBytes : ℕ
  nativeService : Bool
  dynamicTools : Bool
  nativeConfirmation : Bool
  legacyName : Option String
  legacyCapabilities : Option Json

/-- What the session reads from outside: the listing and the templates of the prompt catalog, the
answer of a prompt, and the length of an encoded value. -/
structure Host where
  listing : Members
  resourceTemplates : Members
  prompt : String → Members → Option (Except (Int64 × String) Members)
  encodedLength : Json → ℕ

/-! ### Replies -/

def serverInfo : Json :=
  .ofMembers [("name", .string "obs-mcp"), ("version", .string "1.1.1")]

def capabilities (nativeService dynamic : Bool) : Json :=
  let listChanged := fun flag ↦ Json.ofMembers [("listChanged", .bool flag)]
  let resources := Json.ofMembers [("listChanged", .bool true), ("subscribe", .bool true)]
  if nativeService then
    .ofMembers [("tools", listChanged dynamic), ("resources", resources),
      ("completions", .object []), ("prompts", listChanged false)]
  else
    .ofMembers [("tools", listChanged true), ("resources", resources),
      ("completions", .object []), ("prompts", listChanged true)]

namespace ReplyContext

def complete (reply : ReplyContext) (result : Members) (cacheable : Bool) : Json :=
  let result :=
    if reply.era = .modern then
      let result := result.insert "_meta"
        (.ofMembers [("io.modelcontextprotocol/serverInfo", serverInfo)])
      let result := result.insert "resultType" (.string "complete")
      if cacheable then
        (result.insert "ttlMs" (.ofInt64 0)).insert "cacheScope" (.string "private")
      else
        result
    else
      result
  .ofMembers [("jsonrpc", .string "2.0"), ("id", reply.id), ("result", .object result)]

def error (reply : ReplyContext) (code : Int64) (message : String) : Json :=
  .ofMembers [("jsonrpc", .string "2.0"), ("id", reply.id),
    ("error", .ofMembers [("code", .ofInt64 code), ("message", .string message)])]

end ReplyContext

/-! ### Shapes of a frame -/

def onlyKeys (value : Json) (allowed : List String) : Bool :=
  value.asObject.any (fun members ↦ members.keys.all (fun key ↦ allowed.contains key))

def emptyParams (params : Json) : Bool :=
  params.isNull || params.asObject.any List.isEmpty

def optional (value : Json) (key : String) (valid : Json → Bool) : Bool :=
  (value.get key).all valid

/-- A key whose value is a string. -/
def textKey (value : Json) (key : String) : Bool :=
  (value.get key).any Json.isString

def clientInfo (info : Json) : Bool :=
  onlyKeys info ["name", "version"] && textKey info "name" && textKey info "version"

def nativeIcon (value : Json) : Bool :=
  onlyKeys value ["src", "mimeType", "sizes", "theme"] && textKey value "src" &&
    optional value "mimeType" Json.isString &&
    optional value "sizes" (fun sizes ↦ sizes.asArray.any (fun sizes ↦ sizes.all Json.isString)) &&
    optional value "theme" (fun theme ↦
      theme.asStr.any (fun theme ↦ theme == "light" || theme == "dark"))

def nativeClientInfo (info : Json) : Bool :=
  onlyKeys info ["name", "version", "title", "description", "websiteUrl", "icons"] &&
    textKey info "name" && textKey info "version" &&
    ["title", "description", "websiteUrl"].all (fun key ↦ optional info key Json.isString) &&
    optional info "icons" (fun icons ↦ icons.asArray.any (fun icons ↦ icons.all nativeIcon))

def objectRecord (value : Json) : Bool :=
  value.asObject.any (fun members ↦ members.all (fun member ↦ member.2.isObject))

def nativeClientOffers (caps : Json) : Bool :=
  onlyKeys caps ["roots", "sampling", "elicitation", "experimental", "extensions"] &&
    optional caps "roots" (fun roots ↦
      onlyKeys roots ["listChanged"] && optional roots "listChanged" Json.isBoolean) &&
    optional caps "sampling" (fun sampling ↦
      onlyKeys sampling ["context", "tools"] && optional sampling "context" Json.isObject &&
        optional sampling "tools" Json.isObject) &&
    optional caps "elicitation" (fun elicitation ↦
      onlyKeys elicitation ["form", "url"] &&
        optional elicitation "form" (fun form ↦
          form.isObject && optional form "applyDefaults" Json.isBoolean) &&
        optional elicitation "url" Json.isObject) &&
    optional caps "experimental" objectRecord && optional caps "extensions" objectRecord

def admittedClientInfo (info : Json) (nativeService : Bool) : Bool :=
  if nativeService then nativeClientInfo info else clientInfo info

def admittedClientOffers (caps : Json) (nativeService : Bool) : Bool :=
  if nativeService then nativeClientOffers caps else caps.asObject.any List.isEmpty

def inlineMetadata (params : Json) (nativeService : Bool) : Bool :=
  match params.get "_meta" with
  | none => false
  | some metadata =>
    onlyKeys metadata ["io.modelcontextprotocol/protocolVersion",
        "io.modelcontextprotocol/clientInfo", "io.modelcontextprotocol/clientCapabilities"] &&
      (metadata.get "io.modelcontextprotocol/protocolVersion").bind Json.asStr ==
        some modernVersion &&
      (metadata.get "io.modelcontextprotocol/clientCapabilities").any
        (fun caps ↦ admittedClientOffers caps nativeService) &&
      match metadata.get "io.modelcontextprotocol/clientInfo" with
      | some info => admittedClientInfo info nativeService
      | none => nativeService

/-- The identities a request can have. -/
def requestId (value : Json) : Option Json :=
  (value.get "id").filter (fun id ↦ id.isString || id.isI64 || id.isU64)

/-! ### Bounds of the dynamic tools -/

def controllers : List String := ["obs-list-toolsets", "obs-enable-toolset", "obs-disable-toolset"]

def identifierBytes : ℕ := 1024

def argumentBytes : ℕ := 64 * 1024

def groupEntries : ℕ := 1024

namespace Host

variable (host : Host)

def boundedIdentity (id : Json) : Bool := host.encodedLength id ≤ identifierBytes

def boundedContext (value : Json) : Bool := host.encodedLength value ≤ argumentBytes

def boundedCall (id arguments : Json) : Bool :=
  host.encodedLength id ≤ identifierBytes && host.encodedLength arguments ≤ argumentBytes &&
    ((arguments.get "groups").bind Json.asArray).all (fun groups ↦ groups.length ≤ groupEntries)

/-- `prompt_catalog::get`. -/
def getPrompt (name : String) (arguments : Json) :
    Option (Except (Int64 × String) Members) := do
  let arguments ← arguments.asObject
  if arguments.any (fun member ↦ !member.2.isString) then
    none
  else
    host.prompt name arguments

end Host

/-! ### Completions -/

inductive Completion
  | reply (result : Members)
  | missing (message : String)
  | scenes (text : String)

def completionBytes : ℕ := 64 * 1024

/-- The context of a completion is an object whose arguments, if any, are texts. -/
def completionContext (params : Json) : Bool :=
  match params.get "context" with
  | none => true
  | some context =>
    context.asObject.any (fun members ↦
      match members.get "arguments" with
      | none => true
      | some arguments =>
        arguments.asObject.any (fun members ↦ members.all (fun member ↦ member.2.isString)))

def emptyCompletion : Completion :=
  .reply [("completion", .ofMembers [("values", .array []), ("hasMore", .bool false)])]

/-- The completion of a prompt argument. -/
def promptCompletion (host : Host) (reference : Members) : Option Completion := do
  let prompt ← (← reference.get "name").asStr
  if completionBytes < (Receipts.utf8 prompt).length then
    none
  else
    let prompts ← ((Json.object host.listing).index "prompts").asArray
    if prompts.any (fun entry ↦ entry.index "name" == .string prompt) then
      return emptyCompletion
    else
      return .missing s!"Prompt {prompt} not found"

/-- The completion of a resource template. -/
def resourceCompletion (reference : Members) (name text : String) : Option Completion := do
  let uri ← (← reference.get "uri").asStr
  if completionBytes < (Receipts.utf8 uri).length then
    none
  else if uri = "obs://scene/\x7bsceneName\x7d/items" ∧ name = "sceneName" then
    return .scenes text
  else if ["obs://scene/\x7bsceneName\x7d/items", "obs://scene/\x7bsceneName\x7d/screenshot",
      "obs://status", "obs://scenes", "obs://take/current"].contains uri then
    return emptyCompletion
  else
    return .missing s!"Resource template {uri} not found"

/-- `resource_catalog::completion`. -/
def completion (host : Host) (params : Json) : Option Completion := do
  let reference ← (← params.get "ref").asObject
  let argument ← (← params.get "argument").asObject
  let name ← (← argument.get "name").asStr
  let text ← (← argument.get "value").asStr
  if completionBytes < (Receipts.utf8 name).length ||
      completionBytes < (Receipts.utf8 text).length || !completionContext params then
    none
  else
    match ← (← reference.get "type").asStr with
    | "ref/prompt" => promptCompletion host reference
    | "ref/resource" => resourceCompletion reference name text
    | _ => none

/-! ### Branches of a qualified request -/

namespace Session

/-- A modern request moves the session to the modern era. -/
def lock (session : Session) (era : Era) : Session :=
  if era = .modern then { session with state := .modern } else session

/-- A request that passed the envelope: its method, its parameters and its reply context. -/
structure Request where
  method : String
  params : Json
  reply : ReplyContext

/-- Parameters that carry at most the metadata. -/
def Request.plain (request : Request) : Bool :=
  emptyParams request.params || onlyKeys request.params ["_meta"]

/-- The metadata of a request, null when there is none. -/
def Request.metadata (request : Request) : Json :=
  (request.params.get "_meta").getD .null

section Branches

variable (host : Host) (session : Session) (request : Request)

def discover : Option (Admission × Session) :=
  if request.method = "server/discover" ∧ request.reply.era = .modern ∧
      onlyKeys request.params ["_meta"] then
    some (.reply (request.reply.complete
      [("capabilities", capabilities session.nativeService session.dynamicTools),
        ("supportedVersions", .array [.string modernVersion])] true),
      { session with state := .modern })
  else
    none

/-- A filter of the notifications of a listener. -/
def validFilter (notifications : Json) : Bool :=
  onlyKeys notifications ["toolsListChanged", "promptsListChanged", "resourcesListChanged",
      "resourceSubscriptions"] &&
    ["toolsListChanged", "promptsListChanged", "resourcesListChanged"].all
      (fun key ↦ optional notifications key Json.isBoolean) &&
    optional notifications "resourceSubscriptions" (fun uris ↦
      uris.asArray.any (fun uris ↦ uris.length ≤ 1024 &&
        uris.all (fun uri ↦ uri.asStr.any (fun uri ↦ (Receipts.utf8 uri).length ≤ 256 * 1024))))

def listenAdmission : Admission :=
  if !host.boundedIdentity request.reply.id || !host.boundedContext request.metadata then
    .reply (request.reply.error (-32603) "Native subscription identity capacity exceeded")
  else if !onlyKeys request.params ["_meta", "notifications"] then
    .reply (request.reply.error (-32602)
      "Invalid params: 'notifications' is required and must be a valid SubscriptionFilter")
  else
    .listen request.reply (request.params.index "notifications")
      (validFilter (request.params.index "notifications"))

def listen : Option (Admission × Session) :=
  if session.nativeService ∧ request.method = "subscriptions/listen" ∧
      request.reply.era = .modern then
    some (listenAdmission host request, { session with state := .modern })
  else
    none

/-- The kind of a value that should be a text. -/
def received : Option Json → String
  | none => "undefined"
  | some .null => "null"
  | some (.bool _) => "boolean"
  | some (.number _) => "number"
  | some (.array _) => "array"
  | some _ => "object"

def uriIssue (uri : Option Json) : String :=
  "[\n  \x7b\n    \"expected\": \"string\",\n    \"code\": \"invalid_type\",\n" ++
    "    \"path\": [\n      \"params\",\n      \"uri\"\n    ],\n" ++
    s!"    \"message\": \"Invalid input: expected string, received {received uri}\"\n  \x7d\n]"

def subscriptionAdmission : Admission :=
  let add := request.method == "resources/subscribe"
  if request.reply.era = .modern then
    .reply (request.reply.error (-32601) "Method not found")
  else if !host.boundedIdentity request.reply.id || !host.boundedContext request.metadata then
    .reply (request.reply.error (-32000) "Native resource subscription identity capacity exceeded")
  else
    match (request.params.get "uri").bind Json.asStr with
    | some uri => .resourceSubscription request.reply (.ok uri) add
    | none => .resourceSubscription request.reply (.error (uriIssue (request.params.get "uri"))) add

/-- The methods of a legacy resource subscription. -/
def subscriptionMethod (method : String) : Bool :=
  method == "resources/subscribe" || method == "resources/unsubscribe"

def resourceSubscription : Option (Admission × Session) :=
  if session.nativeService ∧ subscriptionMethod request.method then
    some (subscriptionAdmission host request, session)
  else
    none

/-- A listing without arguments. -/
def listing (method : String) (admission : Admission) : Option (Admission × Session) :=
  if request.method = method ∧ request.plain then
    some (admission, session.lock request.reply.era)
  else
    none

def promptsList : Option (Admission × Session) :=
  listing session request "prompts/list" (.reply (request.reply.complete host.listing true))

def resourcesList : Option (Admission × Session) :=
  listing session request "resources/list" (.resourceList request.reply)

def templatesList : Option (Admission × Session) :=
  listing session request "resources/templates/list"
    (.reply (request.reply.complete host.resourceTemplates true))

def toolsList : Option (Admission × Session) :=
  listing session request "tools/list" (.list request.reply)

def resourceRead : Option (Admission × Session) :=
  if session.nativeService ∧ request.method = "resources/read" ∧
      onlyKeys request.params ["uri", "_meta"] then
    (request.params.index "uri").asStr.map
      (fun uri ↦ (.resourceRead request.reply uri, session.lock request.reply.era))
  else
    none

def completionAdmission : Completion → Admission
  | .reply result => .reply (request.reply.complete result false)
  | .missing message => .reply (request.reply.error (-32602) message)
  | .scenes text => .resourceCompletion request.reply text

def completionComplete : Option (Admission × Session) :=
  if session.nativeService ∧ request.method = "completion/complete" ∧
      onlyKeys request.params ["ref", "argument", "context", "_meta"] then
    (completion host request.params).map
      (fun completion ↦ (completionAdmission request completion, session.lock request.reply.era))
  else
    none

def promptAdmission : Except (Int64 × String) Members → Admission
  | .ok result => .reply (request.reply.complete result false)
  | .error (code, message) => .reply (request.reply.error code message)

def promptsGet : Option (Admission × Session) :=
  if request.method = "prompts/get" ∧ onlyKeys request.params ["name", "arguments", "_meta"] then
    (request.params.index "name").asStr.bind fun name ↦
      (host.getPrompt name ((request.params.get "arguments").getD (.object []))).map
        (fun result ↦ (promptAdmission request result, session.lock request.reply.era))
  else
    none

def ping : Option (Admission × Session) :=
  if request.method = "ping" ∧ request.reply.era = .legacy ∧ emptyParams request.params then
    some (.reply (request.reply.complete [] false), session)
  else
    none

/-- The parameters a tool call may have. -/
def callKeys : Bool :=
  onlyKeys request.params ["name", "arguments", "_meta"] ||
    (session.nativeConfirmation && decide (request.reply.era = .modern) &&
      onlyKeys request.params ["name", "arguments", "_meta", "inputResponses", "requestState"])

def callAdmission (name : String) : Admission :=
  let arguments := (request.params.get "arguments").getD (.object [])
  if session.dynamicTools && controllers.contains name &&
      (!host.boundedCall request.reply.id arguments || !host.boundedContext request.metadata) then
    .reply (request.reply.error (-32000)
      "Native dynamic visibility input capacity exceeded; no change was admitted")
  else
    .call request.reply name arguments

def toolsCall : Admission × Session :=
  if request.method ≠ "tools/call" ∨ !callKeys session request then
    (.compatibility, session)
  else
    match (request.params.get "name").bind Json.asStr with
    | none => (.compatibility, session)
    | some name => (callAdmission host session request name, session.lock request.reply.era)

/-- The branches before the tool call, in the order in which they are tried. -/
def branches : List (Option (Admission × Session)) :=
  [discover session request,
    listen host session request,
    resourceSubscription host session request,
    promptsList host session request,
    resourcesList session request,
    templatesList host session request,
    resourceRead session request,
    completionComplete host session request,
    promptsGet host session request,
    toolsList session request,
    ping session request]

/-- The first branch that applies. -/
def route : Admission × Session :=
  ((branches host session request).findSome? id).getD (toolsCall host session request)

end Branches

/-- The admission of a request whose era is known; a value without a method panics. -/
def admitReady (host : Host) (session : Session) (value params id : Json) (era : Era) :
    Option (Admission × Session) :=
  (value.index "method").asStr.map
    (fun method ↦ route host session ⟨method, params, ⟨id, era⟩⟩)

/-! ### Frames -/

/-- The frame is kept for the replay, when it fits. -/
def retainHandshake (session : Session) (frame : List UInt8) : Option Session := do
  let total ← checkedAdd session.replayBytes frame.length
  if 2 ≤ session.history.length || maxFrameBytes < frame.length || maxReplayBytes < total then
    none
  else
    return { session with history := session.history ++ [frame], replayBytes := total }

/-- The notification that ends a legacy handshake. -/
def acceptInitialized (session : Session) (method : String) (params : Json) (id : Option Json)
    (frame : List UInt8) : Option Session :=
  if method = "notifications/initialized" ∧ session.state = .legacyInitializing ∧ id.isNone ∧
      emptyParams params then
    (session.retainHandshake frame).map fun session ↦ { session with state := .legacyReady }
  else
    none

/-- An initialization that a dynamic session cannot hold. -/
def overCapacity (host : Host) (session : Session) (method : String) (params id : Json) : Bool :=
  session.dynamicTools && method == "initialize" &&
    (!host.boundedIdentity id || !host.boundedContext params)

/-- The parameters of a legacy initialization. -/
def legacyParams (session : Session) (params : Json) : Bool :=
  onlyKeys params ["protocolVersion", "clientInfo", "capabilities"] &&
    ((params.get "protocolVersion").bind Json.asStr).any
      (fun version ↦ legacyVersions.contains version) &&
    (params.get "clientInfo").any (fun info ↦ admittedClientInfo info session.nativeService) &&
    (params.get "capabilities").any (fun caps ↦ admittedClientOffers caps session.nativeService)

/-- The request that begins a legacy handshake. -/
def acceptInitialize (session : Session) (method : String) (params : Json)
    (frame : List UInt8) : Option Session :=
  if method = "initialize" ∧ session.state = .fresh ∧ session.legacyParams params then
    (session.retainHandshake frame).map fun session ↦ { session with
      state := .legacyInitializing
      legacyCapabilities :=
        if session.nativeConfirmation then some (params.index "capabilities")
        else session.legacyCapabilities
      legacyName := ((params.get "clientInfo").bind (fun info ↦ info.get "name")).bind Json.asStr }
  else
    none

def initializeReply (session : Session) (params id : Json) : Json :=
  ReplyContext.complete ⟨id, .legacy⟩
    [("capabilities", capabilities session.nativeService session.dynamicTools),
      ("protocolVersion", params.index "protocolVersion"), ("serverInfo", serverInfo)] false

/-- The era in which a request is answered, if it is answered natively. -/
def requestEra (session : Session) (params : Json) : Option Era :=
  if (session.state = .fresh ∨ session.state = .modern) ∧
      inlineMetadata params session.nativeService then
    some .modern
  else if session.state = .legacyReady ∧ (params.get "_meta").isNone then
    some .legacy
  else
    none

/-- The envelope of a frame: its method and its parameters. -/
def envelope (value : Json) : Option (String × Json) :=
  if onlyKeys value ["jsonrpc", "method", "id", "params"] ∧
      (value.get "jsonrpc").bind Json.asStr = some "2.0" then
    ((value.get "method").bind Json.asStr).map fun method ↦
      (method, (value.get "params").getD .null)
  else
    none

def admitFrame (host : Host) (session : Session) (value : Json) (frame : List UInt8) :
    Option (Admission × Session) :=
  match envelope value with
  | none => some (.compatibility, session)
  | some (method, params) =>
    match session.acceptInitialized method params (value.get "id") frame with
    | some session => some (.initialized, session)
    | none =>
      match requestId value with
      | none => some (.compatibility, session)
      | some id =>
        if session.overCapacity host method params id then
          some (.reply (ReplyContext.error ⟨id, .legacy⟩ (-32000)
            "Native dynamic initialization capacity exceeded"), session)
        else
          match session.acceptInitialize method params frame with
          | some after => some (.reply (after.initializeReply params id), after)
          | none =>
            match session.requestEra params with
            | none => some (.compatibility, session)
            | some era => session.admitReady host value params id era

end Session

end ObsMcp.Protocol
