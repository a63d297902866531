import ObsMcp.Protocol.Prompts

/-!
# Admission of an HTTP exchange

The classifier of `http_protocol.rs` and the adapter `admit_http` of `protocol.rs`. `preflight`
reads the head of a request, `admitRequest` the head and the body, `intoItems` splits an admitted
batch and `admitHttp` hands one item to the protocol session. A function that can slice, index or
unwrap answers nothing when the source would panic; a refusal is a value.

The JSON parser, the encoder and the base64 codec come from outside (`Codec`).
-/

namespace ObsMcp.Http

open Foundations

def maxBodyBytes : ℕ := 4 * 1024 * 1024

def maxHeaderBytes : ℕ := 16 * 1024

def maxHeaders : ℕ := 64

def maxTargetBytes : ℕ := 4096

def modernVersion : String := "2026-07-28"

def versionKey : String := "io.modelcontextprotocol/protocolVersion"

def infoKey : String := "io.modelcontextprotocol/clientInfo"

def capabilitiesKey : String := "io.modelcontextprotocol/clientCapabilities"

def legacyVersions : List String :=
  ["2025-11-25", "2025-06-18", "2025-03-26", "2024-11-05", "2024-10-07"]

/-- Why a body is not a value: nested too deep, or anything else. -/
inductive ParseError
  | recursionLimit
  | other
  deriving DecidableEq

/-- The parsers and encoders of other crates. `skipValue` reads over one value at the front of the
bytes and answers the offset behind it, or that there is none, or that it is broken. -/
structure Codec where
  parse : List UInt8 → Except ParseError Json
  skipValue : List UInt8 → Option (Except Unit ℕ)
  encode : Json → String
  decodeBase64 : String → Option (List UInt8)
  encodeBase64 : List UInt8 → String

inductive ResponseMode
  | json
  | sse
  | listen
  | empty
  deriving DecidableEq

structure Response where
  status : ℕ
  contentType : Option String
  authenticateBearer : Bool
  body : List UInt8
  deriving DecidableEq

inductive Unqualified
  | urlForm
  | envelopeSchema
  | jsonDepth
  | duplicateHeader
  deriving DecidableEq

structure Exchange where
  originalBody : List UInt8
  message : Json
  era : Protocol.Era
  mode : ResponseMode
  declaredClient : Option String

inductive Admission
  | reply (response : Response)
  | exchange (exchange : Exchange)
  | unqualified (reason : Unqualified)

inductive HeadRefusal
  | reply (response : Response)
  | unqualified (reason : Unqualified)

/-! ### Heads and policies -/

def ows (value : String) : String :=
  .ofList (Text.trimMatches (fun c ↦ c == ' ' || c == '\t') value.toList)

structure RequestHead where
  method : String
  target : String
  headers : List (String × String)

def RequestHead.header (head : RequestHead) (name : String) : Option String :=
  (head.headers.find? (fun entry ↦ Text.eqIgnoreAsciiCase entry.1.toList name.toList)).map
    (fun entry ↦ ows entry.2)

structure Policy where
  token : Option (List UInt8)

def Policy.new (token : Option String) : Policy :=
  ⟨(token.filter (fun token ↦ !token.isEmpty)).map Receipts.utf8⟩

/-- The text without a part in front of it. -/
def stripFront (front text : List Char) : Option (List Char) :=
  if front.isPrefixOf text then some (text.drop front.length) else none

def Policy.authenticated (policy : Policy) (authorization : Option String) : Bool :=
  match policy.token with
  | none => true
  | some expected =>
    let presented := Receipts.utf8
      (.ofList ((authorization.bind
        (fun header ↦ stripFront "Bearer ".toList header.toList)).getD []))
    if presented.length ≠ expected.length then
      false
    else
      (presented.zip expected).foldl (fun different pair ↦ different ||| (pair.1 ^^^ pair.2)) 0 == 0

/-! ### Responses -/

namespace Response

def text (status : ℕ) (text : String) : Response :=
  ⟨status, some "text/plain", false, Receipts.utf8 text⟩

def json (codec : Codec) (status : ℕ) (value : Json) : Response :=
  ⟨status, some "application/json", false, Receipts.utf8 (codec.encode value)⟩

end Response

section Errors

variable (codec : Codec)

def errorResponse (status : ℕ) (code : Int64) (message : String) (id : Json)
    (data : Option Json) : Response :=
  let issue : Members := [("code", .ofInt64 code), ("message", .string message)]
  let issue := match data with
    | some data => issue.insert "data" data
    | none => issue
  .json codec status (.ofMembers [("jsonrpc", .string "2.0"), ("error", .object issue), ("id", id)])

def error (status : ℕ) (code : Int64) (message : String) (id : Json) (data : Option Json) :
    Admission :=
  .reply (errorResponse codec status code message id data)

def mismatch (header body : String) (id : Json) : Admission :=
  error codec 400 (-32020) s!"Bad Request: the request headers and body disagree: {body}" id
    (some (.ofMembers [("mismatch", .ofMembers
      [("header", .string header), ("body", .string body)])]))

end Errors

/-! ### Messages -/

/-- The metadata of a message. -/
def metadata (message : Json) : Option Members :=
  ((message.get "params").bind (fun params ↦ params.get "_meta")).bind Json.asObject

def messageId (message : Json) : Json :=
  ((message.get "id").filter (fun id ↦ id.isString || id.isNumber || id.isNull)).getD .null

def modern (version : String) : Bool := !Receipts.textLt version "2026-07-28"

def messageShape (message : Json) : Bool :=
  if (message.get "jsonrpc").bind Json.asStr ≠ some "2.0" then
    false
  else if (message.get "method").any Json.isString then
    (message.get "id").all (fun id ↦ id.isString || id.isI64 || id.isU64) &&
      (message.get "params").all Json.isObject
  else
    (message.get "id").any (fun id ↦ id.isString || id.isNumber || id.isNull) &&
      ((message.get "result").any Json.isObject || (message.get "error").any Json.isObject)

/-- One offer of a client. -/
def qualifiedOffer (key : String) (fields : Members) : Bool :=
  match key with
  | "roots" => fields.all (fun field ↦ field.1 == "listChanged" && field.2.isBoolean)
  | "sampling" =>
    fields.all (fun field ↦ (field.1 == "context" || field.1 == "tools") && field.2.isObject)
  | "elicitation" =>
    fields.all (fun field ↦
      match field.1 with
      | "url" => field.2.isObject
      | "form" => field.2.asObject.any (fun form ↦ (form.get "applyDefaults").all Json.isBoolean)
      | _ => false)
  | "experimental" => true
  | "extensions" => true
  | _ => false

def qualifiedCapabilities (value : Json) : Bool :=
  value.asObject.any (fun offers ↦
    offers.all (fun offer ↦ offer.2.asObject.any (fun fields ↦ qualifiedOffer offer.1 fields)))

/-- The description of a client. -/
def qualifiedInfo (info : Json) : Bool :=
  info.asObject.any (fun fields ↦
    (info.get "name").any Json.isString && (info.get "version").any Json.isString &&
      fields.all (fun field ↦
        ["name", "version", "title", "description", "websiteUrl"].contains field.1 &&
          field.2.isString))

/-- The first issue of the metadata; the two indexings panic on a missing key. -/
def envelopeIssue (message : Json) (notification : Bool) : Option (Option (String × String)) :=
  match metadata message with
  | none => some none
  | some fields =>
    match (if notification then [versionKey] else [versionKey, capabilitiesKey]).find?
        (fun key ↦ !fields.containsKey key) with
    | some key => some (some (key, "missing"))
    | none => do
      let version ← fields.get versionKey
      if !version.isString then
        return some (versionKey, "expected a protocol version string")
      else if notification then
        return none
      else
        let offers ← fields.get capabilitiesKey
        if !qualifiedCapabilities offers then
          return some (capabilitiesKey, "unqualified")
        else if (fields.get infoKey).any (fun info ↦ !qualifiedInfo info) then
          return some (infoKey, "unqualified")
        else
          return none

/-! ### Hosts and origins -/

/-- A character that an authority cannot have. -/
def forbidden (c : Char) : Bool :=
  c.toNat < 0x20 || c.toNat == 0x7f || ['/', '?', '#', '@', '\\', '%'].contains c

/-- A decimal number of 16 bits, with an optional sign. -/
def parseU16 (text : List Char) : Option ℕ :=
  let digits := if text.length ≤ 1 then text else (stripFront ['+'] text).getD text
  if digits.isEmpty || !digits.all Char.isDigit then
    none
  else
    let value := digits.foldl (fun value c ↦ value * 10 + (c.toNat - '0'.toNat)) 0
    if value < 2 ^ 16 then some value else none

/-- The host and the port of an authority. -/
def hostAndPort (authority : List Char) :
    Option (Except Unqualified (List Char × Option (List Char))) :=
  if authority.head? = some '[' then
    match Text.findBytes [']'] authority with
    | none => some (.error .urlForm)
    | some found => do
      let rest ← Text.dropBytes (found + 1) authority
      let host ← Text.takeBytes (found + 1) authority
      if rest.isEmpty then
        return .ok (host, none)
      else
        match stripFront [':'] rest with
        | some port => return .ok (host, some port)
        | none => return .error .urlForm
  else
    match Text.splitOnce [':'] authority with
    | some (host, port) => some (.ok (host, some port))
    | none => some (.ok (authority, none))

def canonicalHostname (authority : List Char) : Option (Except Unqualified (List Char)) :=
  if authority.isEmpty || authority.any forbidden then
    some (.error .urlForm)
  else do
    match ← hostAndPort authority with
    | .error reason => return .error reason
    | .ok (host, port) =>
      if port.any (fun port ↦ !port.isEmpty && (parseU16 port).isNone) then
        return .error .urlForm
      else if host.all (fun c ↦ decide (c.toNat < 0x80)) && !host.isEmpty then
        return .ok host
      else
        return .error .urlForm

def allowed (host : List Char) : Bool :=
  ["localhost", "127.0.0.1", "[::1]"].any
    (fun allowed ↦ Text.eqIgnoreAsciiCase host allowed.toList)

/-- The text with its ASCII letters in lower case. -/
def asciiLower (text : List Char) : String := .ofList (text.map Char.toLower)

variable (codec : Codec)

/-- The check of the origin, a refusal when there is one. -/
def originSecurity (origin : String) : Option (Except Unqualified (Option Response)) :=
  match Text.splitOnce "://".toList origin.toList with
  | none =>
    some (.ok (some (errorResponse codec 403 (-32000) s!"Invalid Origin header: {origin}" .null
      none)))
  | some (scheme, rest) =>
    if scheme.isEmpty ||
        !scheme.all (fun c ↦ c.isAlphanum || ['+', '-', '.'].contains c) then
      some (.error .urlForm)
    else do
      match ← canonicalHostname
          (Text.firstPart (fun c ↦ c == '/' || c == '?' || c == '#') rest) with
      | .error reason => return .error reason
      | .ok hostname =>
        if !allowed hostname then
          let name := asciiLower hostname
          return .ok (some (errorResponse codec 403 (-32000) s!"Invalid Origin: {name}" .null none))
        else
          return .ok none

def urlSecurity (head : RequestHead) : Option (Except Unqualified (Option Response)) :=
  match (head.header "host").filter (fun host ↦ !host.isEmpty) with
  | none => some (.ok (some (errorResponse codec 403 (-32000) "Missing Host header" .null none)))
  | some host => do
    match ← canonicalHostname host.toList with
    | .error reason => return .error reason
    | .ok hostname =>
      if !allowed hostname then
        let name := asciiLower hostname
        return .ok (some (errorResponse codec 403 (-32000) s!"Invalid Host: {name}" .null none))
      else
        match (head.header "origin").filter (fun origin ↦ !origin.isEmpty) with
        | none => return .ok none
        | some origin => originSecurity codec origin

/-! ### The declared client -/

/-- The value of a hexadecimal digit. -/
def hexDigit (byte : UInt8) : Option UInt8 :=
  if 48 ≤ byte && byte ≤ 57 then some (byte - 48)
  else if 65 ≤ byte && byte ≤ 70 then some (byte - 55)
  else if 97 ≤ byte && byte ≤ 102 then some (byte - 87)
  else none

/-- The bytes of a form value: a plus is a space, a percent sign starts two digits. -/
def decodeFormBytes : List UInt8 → Option (List UInt8)
  | [] => some []
  | byte :: rest =>
    if byte = 43 then
      (decodeFormBytes rest).map (32 :: ·)
    else if byte = 37 then
      match rest with
      | first :: second :: rest => do
        let first ← hexDigit first
        let second ← hexDigit second
        (decodeFormBytes rest).map ((first * 16 + second) :: ·)
      | _ => none
    else
      (decodeFormBytes rest).map (byte :: ·)

/-- The text of some bytes, when they are one. -/
def fromUtf8 (bytes : List UInt8) : Option String := String.fromUTF8? ⟨bytes.toArray⟩

def decodeForm (value : List Char) : Option String :=
  (decodeFormBytes (Receipts.utf8 (.ofList value))).bind fromUtf8

/-- The white space of `crate_trim`, which is that of `config::trim`. -/
def trimmed (c : Char) : Bool := Protocol.Catalog.trimmed c

/-- The name of a client in the query. -/
def clientName (value : List Char) : Option String := do
  let name := Text.trimMatches trimmed (← decodeForm value).toList
  if !name.isEmpty && Text.size name ≤ 64 &&
      name.all (fun c ↦ c.isAlphanum || ['_', '.', '@', ':', '-'].contains c) then
    return .ofList name
  else
    none

def declaredClient (target : String) : Option String := do
  let query ← Text.splitOnce ['?'] target.toList
  let pairs := ((Text.firstPart (· == '#') query.2).splitOn '&').map
    (fun pair ↦ (Text.splitOnce ['='] pair).getD (pair, []))
  let pair ← pairs.find? (fun pair ↦ decodeForm pair.1 == some "client")
  clientName pair.2

/-! ### The head -/

/-- The white space of `str::trim`. -/
def whitespace (c : Char) : Bool :=
  let n := c.toNat
  (0x9 ≤ n && n ≤ 0xd) || n == 0x20 || n == 0x85 || n == 0xa0 || n == 0x1680 ||
    (0x2000 ≤ n && n ≤ 0x200a) || n == 0x2028 || n == 0x2029 || n == 0x202f || n == 0x205f ||
    n == 0x3000

/-- The bytes of all headers, when their number fits 64 bits. -/
def headerBytes (headers : List (String × String)) : Option ℕ :=
  headers.foldlM (fun total entry ↦
    (checkedAdd total (Text.size entry.1.toList)).bind
      (fun total ↦ checkedAdd total (Text.size entry.2.toList))) 0

/-- The headers before an index, the slice of the source. -/
def headersBefore (headers : List (String × String)) (index : ℕ) :
    Option (List (String × String)) :=
  if index ≤ headers.length then some (headers.take index) else none

/-- Two headers of one name. -/
def duplicateHeader (headers : List (String × String)) : Option Bool :=
  (List.range headers.length).anyM (fun index ↦ do
    let entry ← headers[index]?
    let before ← headersBefore headers index
    return before.any (fun other ↦ Text.eqIgnoreAsciiCase entry.1.toList other.1.toList))

def jsonContent (contentType : String) : Bool :=
  Text.eqIgnoreAsciiCase
      (Text.trimMatches whitespace (Text.firstPart (· == ';') contentType.toList))
      "application/json".toList &&
    !contentType.toList.contains ','

/-- The checks after the security of the URL. -/
def headIssue (head : RequestHead) (policy : Policy) : Option HeadRefusal :=
  if !policy.authenticated (head.header "authorization") then
    some (.reply { Response.text 401 "Missing or wrong bearer token" with
      authenticateBearer := true })
  else if !Text.eqIgnoreAsciiCase head.method.toList "POST".toList then
    some (.reply (errorResponse codec 405 (-32000) "Method not allowed." .null none))
  else if !jsonContent ((head.header "content-type").getD "") then
    some (.reply (errorResponse codec 415 (-32000)
      "Unsupported Media Type: Content-Type must be application/json" .null none))
  else
    none

def preflight (head : RequestHead) (policy : Policy) : Option (Except HeadRefusal Unit) :=
  if Text.firstPart (fun c ↦ c == '?' || c == '#') head.target.toList ≠ "/mcp".toList then
    some (.error (.reply (.text 404 "Not found; the MCP endpoint is /mcp")))
  else if maxTargetBytes < Text.size head.target.toList then
    some (.error (.reply (errorResponse codec 414 (-32000)
      "Native HTTP target admission capacity exceeded" .null none)))
  else if maxHeaders < head.headers.length ||
      (headerBytes head.headers).all (fun total ↦ maxHeaderBytes < total) then
    some (.error (.reply (errorResponse codec 431 (-32000)
      "Native HTTP header admission capacity exceeded" .null none)))
  else do
    if ← duplicateHeader head.headers then
      return .error (.unqualified .duplicateHeader)
    else
      match ← urlSecurity codec head with
      | .error reason => return .error (.unqualified reason)
      | .ok (some reply) => return .error (.reply reply)
      | .ok none =>
        match headIssue codec head policy with
        | some refusal => return .error refusal
        | none => return .ok ()

/-! ### The name of a request -/

/-- The parameter that the name header repeats. -/
def nameField : String → Option String
  | "tools/call" => some "name"
  | "prompts/get" => some "name"
  | "resources/read" => some "uri"
  | "tasks/get" => some "taskId"
  | "tasks/update" => some "taskId"
  | "tasks/cancel" => some "taskId"
  | _ => none

/-- The text between the two marks of a base64 header. -/
def sentinelBody (header : String) : Option String :=
  (Text.slice 9 (Text.size header.toList - 2) header.toList).map String.ofList

/-- The header is marked as base64. -/
def sentinel (header : String) : Bool :=
  "=?base64?".toList.isPrefixOf header.toList && "?=".toList.isSuffixOf header.toList

/-- The name that the header carries, nothing inside when it is broken. -/
def decodedName (header : String) : Option (Option String) :=
  if sentinel header then do
    let body ← sentinelBody header
    return ((codec.decodeBase64 body).filter (fun bytes ↦ codec.encodeBase64 bytes == body)).bind
      fromUtf8
  else
    some (some header)

def nameHeaderRejection (head : RequestHead) (message : Json) (method : String) :
    Option (Option Admission) :=
  match nameField method with
  | none => some none
  | some field =>
    let body := ((message.get "params").bind (fun params ↦ params.get field)).bind Json.asStr
    match head.header "mcp-name" with
    | none =>
      some (body.map (fun body ↦ mismatch codec "(missing)"
        (s!"the body carries params.{field}=\"{body}\" but the required Mcp-Name header " ++
          "is absent") (messageId message)))
    | some header => do
      match ← decodedName codec header with
      | none =>
        return some (mismatch codec header
          "the Mcp-Name header carries an invalid Base64 sentinel value" (messageId message))
      | some decoded =>
        if body.any (fun body ↦ body != decoded) then
          let body ← body
          return some (mismatch codec header
            (s!"the body carries params.{field}=\"{body}\" but the Mcp-Name header names " ++
              s!"\"{decoded}\"") (messageId message))
        else
          return none

/-! ### The body -/

/-- What is wrong with one message of a batch. -/
def itemIssue (item : Json) : Option String :=
  if (metadata item).any (fun fields ↦ fields.containsKey versionKey) then
    some ("Bad Request: JSON-RPC batches may not contain requests for protocol revision " ++
      "2026-07-28 or later")
  else if !messageShape item then
    some "Bad Request: JSON-RPC batch contains an invalid message"
  else
    none

/-- What is wrong with a message or a batch. -/
def shapeIssue (message : Json) : Option String :=
  match message.asArray with
  | some batch =>
    if batch.isEmpty then
      some "Bad Request: empty JSON-RPC batch"
    else
      match batch.findSome? itemIssue with
      | some issue => some issue
      | none =>
        if 100 < batch.length then
          some "Invalid Request: Batch must not exceed 100 messages"
        else if 1 < batch.length &&
            batch.any (fun message ↦ message.index "method" == .string "initialize") then
          some "Invalid Request: Only one initialization request is allowed"
        else
          none
  | none =>
    if !messageShape message then
      some "Bad Request: the request body is not a valid JSON-RPC message"
    else
      none

/-- A message with what the classifier reads of it. -/
structure Envelope where
  message : Json
  version : Option String

namespace Envelope

variable (codec : Codec) (head : RequestHead) (body : List UInt8) (envelope : Envelope)

def method : Option String := (envelope.message.get "method").bind Json.asStr

def notification : Bool := envelope.method.isSome && (envelope.message.get "id").isNone

/-- The version the message claims. -/
def claim : Option Json := (metadata envelope.message).bind (fun fields ↦ fields.get versionKey)

def claimed : String := ((envelope.claim.bind Json.asStr).or envelope.version).getD "unknown"

/-- The headers and the claim disagree, or a header is missing. -/
def modernMismatch : Option Admission :=
  let claimed := envelope.claimed
  let named := envelope.method.getD ""
  let issue := fun header body ↦ some (mismatch codec header body (messageId envelope.message))
  let other := envelope.version.filter (fun header ↦ envelope.claim.isSome && header != claimed)
  let methodHeader := head.header "mcp-method"
  let otherMethod := methodHeader.filter (fun header ↦ some header != envelope.method)
  match other, otherMethod with
  | some header, _ =>
    let part := if envelope.notification then "notification" else "body"
    issue header (s!"the {part} envelope names protocol version {claimed} but the " ++
      s!"MCP-Protocol-Version header names {header}")
  | none, some header =>
    let part := if envelope.notification then "notification body " else "body "
    issue header s!"the {part}names method {named} but the Mcp-Method header names {header}"
  | none, none =>
    if claimed ≠ modernVersion then
      some (error codec 400 (-32022) s!"Unsupported protocol version: {claimed}"
        (messageId envelope.message)
        (some (.ofMembers [("supported", .array [.string modernVersion]),
          ("requested", .string claimed)])))
    else if envelope.notification then
      none
    else if envelope.version.isNone then
      issue "(missing)" (s!"the body envelope names protocol version {claimed} but the " ++
        "required MCP-Protocol-Version header is absent")
    else if methodHeader.isNone then
      issue "(missing)"
        s!"the body names method {named} but the required Mcp-Method header is absent"
    else
      none

def modernMode : ResponseMode :=
  if envelope.notification then .empty
  else if envelope.method = some "subscriptions/listen" then .listen
  else .json

/-- The issue of a claim. -/
def claimIssue : Option (Option (String × String)) :=
  if envelope.claim.isSome then envelopeIssue envelope.message envelope.notification else some none

/-- The rejection of the name of a request. -/
def nameRejection : Option (Option Admission) :=
  if envelope.notification then some none
  else nameHeaderRejection codec head envelope.message (envelope.method.getD "")

/-- A message in the modern era. -/
def modernAdmission : Option Admission := do
  match ← envelope.claimIssue with
  | some (key, problem) =>
    if problem = "unqualified" then
      return .unqualified .envelopeSchema
    else
      return error codec 400 (-32602)
        (s!"Invalid _meta envelope for protocol revision {modernVersion}: {key}: {problem}")
        (messageId envelope.message)
        (some (.ofMembers [("envelope", .ofMembers
          [("key", .string key), ("problem", .string problem)])]))
  | none =>
    match envelope.modernMismatch codec head with
    | some refusal => return refusal
    | none =>
      match ← envelope.nameRejection codec head with
      | some refusal => return refusal
      | none => return .exchange ⟨body, envelope.message, .modern, envelope.modernMode, none⟩

/-- The keys a modern message lacks. -/
def missingKeys (message : Json) : Option (List String) :=
  if (metadata message).isNone then
    some ["_meta"]
  else
    (metadata message).map
      (fun fields ↦ [versionKey, capabilitiesKey].filter (fun key ↦ !fields.containsKey key))

/-- A request whose header is modern and whose metadata is not. -/
def missingEnvelope : Option Admission := do
  let missing ← missingKeys envelope.message
  let version ← envelope.version
  let keys := ", ".intercalate missing
  return error codec 400 (-32602)
    (s!"Invalid params: the MCP-Protocol-Version header names protocol revision {version}, but " ++
      s!"the request is missing the required per-request envelope key(s): {keys}")
    (messageId envelope.message)
    (some (.ofMembers [("envelope", .ofMembers
      [("missing", .array (missing.map Json.string))])]))

/-- A batch in which no message is a request. -/
def batchWithoutRequest : Bool :=
  envelope.message.asArray.any (fun batch ↦
    !batch.any (fun message ↦ (message.get "method").isSome && (message.get "id").isSome))

def legacyMode : ResponseMode :=
  if envelope.notification || envelope.batchWithoutRequest ||
      (envelope.message.get "result").isSome || (envelope.message.get "error").isSome then
    .empty
  else
    .sse

/-- A message in the legacy era. -/
def legacyAdmission : Option Admission :=
  let accept := (head.header "accept").getD ""
  if (Text.findBytes "application/json".toList accept.toList).isNone ||
      (Text.findBytes "text/event-stream".toList accept.toList).isNone then
    some (error codec 406 (-32000)
      "Not Acceptable: Client must accept both application/json and text/event-stream" .null none)
  else if envelope.method ≠ some "initialize" ∧
      envelope.version.any (fun version ↦ !legacyVersions.contains version) then do
    let version ← envelope.version
    let supported := ", ".intercalate legacyVersions
    return error codec 400 (-32000)
      s!"Bad Request: Unsupported protocol version: {version} (supported versions: {supported})"
      .null none
  else
    some (.exchange ⟨body, envelope.message, .legacy, envelope.legacyMode,
      declaredClient head.target⟩)

/-- An initialization with the metadata of the modern era. -/
def modernInitialize : Option Bool :=
  if envelope.method = some "initialize" ∧ (envelope.claim.bind Json.asStr).any modern then
    (envelopeIssue envelope.message false).map Option.isNone
  else
    some false

/-- The era of a message and its admission. -/
def classify : Option Admission := do
  let modernInitialize ← envelope.modernInitialize
  if envelope.method = some "initialize" ∧ !modernInitialize then
    if envelope.version.any modern then
      let version ← envelope.version
      return mismatch codec version ("an initialize request (legacy handshake) was sent with a " ++
        "modern MCP-Protocol-Version header") (messageId envelope.message)
    else
      envelope.legacyAdmission codec head body
  else if envelope.claim.isSome || (envelope.notification && envelope.version.any modern) then
    envelope.modernAdmission codec head body
  else if envelope.method.isSome && envelope.version.any modern then
    envelope.missingEnvelope codec
  else
    envelope.legacyAdmission codec head body

end Envelope

def admitRequest (head : RequestHead) (body : List UInt8) (policy : Policy) :
    Option Admission := do
  match ← preflight codec head policy with
  | .error (.reply response) => return .reply response
  | .error (.unqualified reason) => return .unqualified reason
  | .ok () =>
    if maxBodyBytes < body.length then
      return error codec 413 (-32000)
        s!"Payload Too Large: Request body must not exceed {maxBodyBytes} bytes" .null none
    else
      match codec.parse body with
      | .error .recursionLimit => return .unqualified .jsonDepth
      | .error .other => return error codec 400 (-32700) "Parse error: Invalid JSON" .null none
      | .ok message =>
        match shapeIssue message with
        | some issue => return error codec 400 (-32600) issue .null none
        | none => Envelope.classify codec head body ⟨message, head.header "mcp-protocol-version"⟩

/-! ### Items of a batch -/

/-- White space between the items. -/
def asciiWhitespace (byte : UInt8) : Bool :=
  byte == 9 || byte == 10 || byte == 12 || byte == 13 || byte == 32

/-- The bytes from an offset on, the slice of the source. -/
def sliceFrom (offset : ℕ) (bytes : List UInt8) : Option (List UInt8) :=
  if offset ≤ bytes.length then some (bytes.drop offset) else none

/-- The offset behind the white space. -/
def skip (bytes : List UInt8) (offset : ℕ) : ℕ :=
  offset + ((bytes.drop offset).takeWhile asciiWhitespace).length

def itemMode (message : Json) : ResponseMode :=
  if ((message.get "method").isSome && (message.get "id").isNone) ||
      (message.get "result").isSome || (message.get "error").isSome then
    .empty
  else
    .sse

/-- The offset behind the comma of an item, where the item needs one. -/
def afterComma (bytes : List UInt8) (index offset : ℕ) : Except Unqualified ℕ :=
  let offset := skip bytes offset
  if index = 0 then
    .ok offset
  else if bytes[offset]? ≠ some 44 then
    .error .envelopeSchema
  else
    .ok (skip bytes (offset + 1))

/-- The bytes of one item and the offset behind it. -/
def itemSpan (bytes : List UInt8) (offset : ℕ) :
    Option (Except Unqualified (List UInt8 × ℕ)) := do
  let rest ← sliceFrom offset bytes
  match codec.skipValue rest with
  | some (.ok length) =>
    match checkedAdd offset length with
    | none => return .error .envelopeSchema
    | some stop =>
      if stop ≤ bytes.length then
        return .ok ((bytes.take stop).drop offset, stop)
      else
        return .error .envelopeSchema
  | _ => return .error .envelopeSchema

/-- The items from one on, and the offset behind the last. -/
def splitItems (codec : Codec) (exchange : Exchange) :
    List Json → ℕ → ℕ → Option (Except Unqualified (List Exchange × ℕ))
  | [], _, offset => some (.ok ([], offset))
  | message :: rest, index, offset =>
    match afterComma exchange.originalBody index offset with
    | .error reason => some (.error reason)
    | .ok offset => do
      match ← itemSpan codec exchange.originalBody offset with
      | .error reason => return .error reason
      | .ok (body, stop) =>
        match ← splitItems codec exchange rest (index + 1) stop with
        | .error reason => return .error reason
        | .ok (items, offset) =>
          return .ok (⟨body, message, exchange.era, itemMode message, exchange.declaredClient⟩ ::
            items, offset)

def intoItems (exchange : Exchange) : Option (Except Unqualified (List Exchange)) :=
  match exchange.message.asArray with
  | none => some (.ok [exchange])
  | some items =>
    let bytes := exchange.originalBody
    let start := skip bytes 0
    if bytes[start]? ≠ some 91 then
      some (.error .envelopeSchema)
    else do
      match ← splitItems codec exchange items 0 (start + 1) with
      | .error reason => return .error reason
      | .ok (items, offset) =>
        if bytes[skip bytes offset]? ≠ some 93 then
          return .error .envelopeSchema
        else
          return .ok items

/-! ### One item -/

/-- The session of one exchange. -/
def ephemeral (era : Protocol.Era) (confirmation : Bool) : Protocol.Session where
  state := if era = .modern then .modern else .legacyReady
  history := []
  replayBytes := 0
  nativeService := true
  dynamicTools := false
  nativeConfirmation := confirmation
  legacyName := none
  legacyCapabilities := none

/-- The parameters of an initialization over HTTP. -/
def initializeParams (params : Json) : Bool :=
  Protocol.onlyKeys params ["protocolVersion", "clientInfo", "capabilities"] &&
    (params.index "protocolVersion").asStr.any
      (fun version ↦ Protocol.legacyVersions.contains version) &&
    Protocol.admittedClientInfo (params.index "clientInfo") true &&
    Protocol.admittedClientOffers (params.index "capabilities") true

def initializeReply (params id : Json) : Json :=
  Protocol.ReplyContext.complete ⟨id, .legacy⟩
    [("capabilities", Protocol.capabilities true false),
      ("protocolVersion", params.index "protocolVersion"),
      ("serverInfo", Protocol.serverInfo)] false

def admitHttp (host : Protocol.Host) (exchange : Exchange) (confirmation : Bool) :
    Option Protocol.Admission :=
  let value := exchange.message
  if exchange.mode = .empty then
    some .initialized
  else if value.index "method" == .string "initialize" ∧ exchange.era = .legacy then
    match Protocol.requestId value with
    | none => some .compatibility
    | some id =>
      let params := value.index "params"
      if !initializeParams params then
        some .compatibility
      else
        some (.reply (initializeReply params id))
  else
    match Protocol.requestId value with
    | none => some .compatibility
    | some id =>
      ((ephemeral exchange.era confirmation).admitReady host value
        ((value.get "params").getD .null) id exchange.era).map Prod.fst

end ObsMcp.Http
