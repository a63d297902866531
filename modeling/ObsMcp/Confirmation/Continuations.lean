import ObsMcp.Foundations.Checked
import ObsMcp.Foundations.Json
import ObsMcp.Foundations.KeyMap
import ObsMcp.Foundations.Machine

/-!
# The confirmation table

`Continuations` holds the prepared calls that wait for a confirmation. `issue` stores a call under a
key made of the nonce of the table and a sequence number, and answers with a challenge: the key
itself, or the bare number for a legacy client. A call leaves the table through `takeModern` (the
key is sent back), `takeLegacyFor` (a response frame carries the number), `expire` or `cancel`.

The byte charges are `usize` sums, checked where the code checks them; an `expect` that fails is an
error of the outer `Except`. `confirmationMachine` runs the table with arbitrary calls and logs,
next to it, the tickets that were issued and the payloads that were handed out.
-/

namespace ObsMcp.Confirmation

open Foundations

/-- The largest sequence number. -/
def MAX_ID : ℕ := 9007199254740991

/-- What the code takes from its platform: the size of a table entry and the last instant. -/
structure Platform where
  pendingSize : ℕ
  latest : ℕ

/-- `Instant::checked_add`. -/
def Platform.after (platform : Platform) (now lifetime : ℕ) : Option ℕ :=
  if now + lifetime ≤ platform.latest then some (now + lifetime) else none

structure Bounds where
  items : ℕ
  bytes : ℕ
  lifetime : ℕ

/-- The default bounds; the lifetime of sixty seconds is counted in nanoseconds. -/
def Bounds.default : Bounds := ⟨16, 8 * 1024 * 1024, 60 * 10 ^ 9⟩

inductive Challenge
  | modern (token : String)
  | legacy (id : ℕ)
  deriving DecidableEq

inductive Refusal
  | capacity
  | identity
  | invalidState
  | expired
  deriving DecidableEq

/-- The `expect`s of the table. -/
inductive Panic
  | byteAccounting
  | validatedContinuation
  | missingKey
  deriving DecidableEq

/-- A digest of the call a continuation was issued for. -/
abbrev Binding := Vector UInt8 32

structure Pending (T : Type) where
  original : Json
  binding : Binding
  challenge : Challenge
  deadline : ℕ
  bytes : ℕ
  call : T

structure Removed (T : Type) where
  challenge : Challenge
  call : T

structure Continuations (T : Type) where
  nonce : String
  next : Option ℕ
  bounds : Bounds
  bytes : ℕ
  pending : KeyMap String (Pending T)

namespace Continuations

variable {T : Type}

def withNonce (nonce : String) (bounds : Bounds) : Continuations T :=
  ⟨nonce, some 0, bounds, 0, .empty⟩

def disabled : Continuations T :=
  { withNonce "" { Bounds.default with items := 0, bytes := 0 } with next := none }

variable (owner : Continuations T)

def containsOriginal (id : Json) : Bool :=
  owner.pending.entries.any (fun entry ↦ entry.2.original == id)

/-- The key of a sequence number. -/
def keyOf (nonce : String) (sequence : ℕ) : String :=
  "native-confirmation/" ++ (nonce ++ ("/" ++ Nat.repr sequence))

/-- The byte charge of an entry, and the total it leads to. -/
def charge (platform : Platform) (owner : Continuations T) (key : String) (retained : ℕ) :
    Option (ℕ × ℕ) := do
  let withKey ← checkedAdd retained key.utf8ByteSize
  let bytes ← checkedAdd withKey platform.pendingSize
  let total ← checkedAdd owner.bytes bytes
  return (bytes, total)

def issue (platform : Platform) (owner : Continuations T) (original : Json) (binding : Binding)
    (call : T) (retained : ℕ) (legacy : Bool) (now : ℕ) :
    Except (Refusal × T) Challenge × Continuations T :=
  match owner.next with
  | none => (.error (.identity, call), owner)
  | some sequence =>
    let key := keyOf owner.nonce sequence
    match owner.charge platform key retained with
    | none => (.error (.capacity, call), owner)
    | some (bytes, total) =>
      if owner.bounds.items ≤ owner.pending.entries.length ∨ owner.bounds.bytes < total ∨
          owner.containsOriginal original then
        (.error (.capacity, call), owner)
      else
        match platform.after now owner.bounds.lifetime with
        | none => (.error (.identity, call), owner)
        | some deadline =>
          let challenge := if legacy then .legacy sequence else .modern key
          (.ok challenge,
            { owner with
              next := if sequence + 1 ≤ MAX_ID then some (sequence + 1) else none
              pending :=
                owner.pending.insert key ⟨original, binding, challenge, deadline, bytes, call⟩
              bytes := total })

def remove (key : String) : Except Panic (Option (Pending T) × Continuations T) :=
  match owner.pending.get key with
  | none => .ok (none, owner)
  | some entry =>
    match checkedSub owner.bytes entry.bytes with
    | some bytes => .ok (some entry, { owner with pending := owner.pending.erase key, bytes })
    | none => .error .byteAccounting

def takeModern (state : String) (binding : Binding) (now : ℕ) :
    Except Panic (Except Refusal T × Continuations T) :=
  match owner.pending.get state with
  | none => .ok (.error .invalidState, owner)
  | some entry =>
    if entry.deadline ≤ now then do
      let (_, owner) ← owner.remove state
      return (.error .expired, owner)
    else if entry.binding ≠ binding ∨ entry.challenge ≠ .modern state then
      .ok (.error .invalidState, owner)
    else do
      let (removed, owner) ← owner.remove state
      match removed with
      | some removed => return (.ok removed.call, owner)
      | none => throw .validatedContinuation

/-- The answer a legacy client gave, as the confirmation of the original call reads it. -/
inductive ConfirmationAnswer
  | missing
  | accepted (confirm : Bool)
  | otherResponse
  deriving DecidableEq

/-- `ConfirmationAnswer::from_responses`. -/
def ConfirmationAnswer.fromResponses (responses : Option Json) : ConfirmationAnswer :=
  match (responses.bind (·.get "confirm")).filter Json.isObject with
  | none => .missing
  | some entry =>
    match (entry.get "action").bind Json.asStr with
    | some "accept" =>
      match (((entry.get "content").filter Json.isObject).bind (·.get "confirm")).bind
          Json.asBool with
      | some confirm => .accepted confirm
      | none => .otherResponse
    | some "decline" | some "cancel" => .otherResponse
    | _ =>
      if (entry.get "roots").any Json.isArray ∨
          ((entry.get "role").any Json.isString ∧ (entry.get "content").isSome) then
        .otherResponse
      else .missing

/-- The identifier a response frame of a legacy client answers. -/
def legacyId (frame : Json) : Option ℕ := do
  let fields ← frame.asObject
  if (frame.index "jsonrpc").asStr ≠ some "2.0" ∨
      fields.any (fun field ↦ field.1 ∉ ["jsonrpc", "id", "result", "error"]) ∨
      Members.containsKey fields "result" = Members.containsKey fields "error" then none
  else (frame.index "id").asU64.map UInt64.toNat

/-- The answer in a response frame; a malformed one counts as cancelled. -/
def legacyAnswer (frame : Json) : Json :=
  let cancelled := Json.object [("action", .string "cancel")]
  let response := if (frame.get "error").isSome then cancelled else frame.index "result"
  let answer := Json.object [("confirm", response)]
  if ConfirmationAnswer.fromResponses (some answer) = .missing then
    .object [("confirm", cancelled)]
  else answer

def takeLegacyFor (frame : Json) (now : ℕ) (owns : T → Bool) :
    Except Panic (Option (T × Json) × Continuations T) :=
  match legacyId frame with
  | none => .ok (none, owner)
  | some id =>
    match owner.pending.entries.find? (fun entry ↦
        entry.2.challenge = .legacy id ∧ owns entry.2.call) with
    | none => .ok (none, owner)
    | some (key, _) =>
      match owner.pending.get key with
      | none => .error .missingKey
      | some entry =>
        if entry.deadline ≤ now then .ok (none, owner)
        else do
          let (removed, owner) ← owner.remove key
          match removed with
          | none => return (none, owner)
          | some removed => return (some (removed.call, legacyAnswer frame), owner)

/-- Removes one key after the other. -/
def removeAll (owner : Continuations T) : List String →
    Except Panic (List (Removed T) × Continuations T)
  | [] => .ok ([], owner)
  | key :: keys => do
    let (removed, owner) ← owner.remove key
    let (rest, owner) ← owner.removeAll keys
    return ((removed.map (fun entry ↦ ⟨entry.challenge, entry.call⟩)).toList ++ rest, owner)

/-- The keys of the entries that meet a condition. -/
def keysWhere (test : Pending T → Bool) : List String :=
  (owner.pending.entries.filter (fun entry ↦ test entry.2)).map Prod.fst

def expire (now : ℕ) : Except Panic (List (Removed T) × Continuations T) :=
  owner.removeAll (owner.keysWhere fun entry ↦ entry.deadline ≤ now)

def cancel (original : Json) : Except Panic (List (Removed T) × Continuations T) :=
  owner.removeAll (owner.keysWhere fun entry ↦ entry.original == original)

end Continuations

/-! ### Runs -/

/-- A call of the table with its arguments. -/
inductive Call (T : Type)
  | issue (original : Json) (binding : Binding) (call : T) (retained : ℕ) (legacy : Bool) (now : ℕ)
  | takeModern (state : String) (binding : Binding) (now : ℕ)
  | takeLegacyFor (frame : Json) (now : ℕ) (owns : T → Bool)
  | expire (now : ℕ)
  | cancel (original : Json)

/-- What a call answers. -/
inductive Reply (T : Type)
  | issued (result : Except (Refusal × T) Challenge)
  | modern (result : Except Refusal T)
  | legacy (result : Option (T × Json))
  | removed (entries : List (Removed T))

namespace Continuations

variable {T : Type}

/-- One call of the table. -/
def exec (platform : Platform) (owner : Continuations T) :
    Call T → Except Panic (Reply T × Continuations T)
  | .issue original binding call retained legacy now =>
    let (result, owner) := owner.issue platform original binding call retained legacy now
    .ok (.issued result, owner)
  | .takeModern state binding now => do
    let (result, owner) ← owner.takeModern state binding now
    return (.modern result, owner)
  | .takeLegacyFor frame now owns => do
    let (result, owner) ← owner.takeLegacyFor frame now owns
    return (.legacy result, owner)
  | .expire now => do
    let (entries, owner) ← owner.expire now
    return (.removed entries, owner)
  | .cancel original => do
    let (entries, owner) ← owner.cancel original
    return (.removed entries, owner)

end Continuations

/-- An issued continuation: its challenge and what it was issued for. -/
structure Ticket (T : Type) where
  challenge : Challenge
  original : Json
  binding : Binding
  deadline : ℕ
  call : T

/-- The ticket of an entry. -/
def Pending.ticket {T : Type} (entry : Pending T) : Ticket T :=
  ⟨entry.challenge, entry.original, entry.binding, entry.deadline, entry.call⟩

/-- A table with the tickets it issued and the payloads it handed out, each under its challenge. -/
structure History (T : Type) where
  owner : Continuations T
  issued : List (Ticket T)
  handed : List (Challenge × T)

namespace History

variable {T : Type}

/-- The ticket that a call and its reply add. -/
def newTicket (history : History T) : Call T → Reply T → Option (Ticket T)
  | .issue original binding call _ _ now, .issued (.ok challenge) =>
    some ⟨challenge, original, binding, now + history.owner.bounds.lifetime, call⟩
  | _, _ => none

/-- The payload that a call and its reply hand out. -/
def handout : Call T → Reply T → Option (Challenge × T)
  | .takeModern state _ _, .modern (.ok call) => some (.modern state, call)
  | .takeLegacyFor frame _ _, .legacy (some (call, _)) =>
    (Continuations.legacyId frame).map fun id ↦ (.legacy id, call)
  | _, _ => none

/-- The history after a call, its reply and the table it leaves. -/
def log (history : History T) (call : Call T) (reply : Reply T) (owner : Continuations T) :
    History T :=
  ⟨owner, history.issued ++ (history.newTicket call reply).toList,
    history.handed ++ (handout call reply).toList⟩

end History

/-- Runs of a table from an empty or disabled one, with any calls at any instants. -/
def confirmationMachine (platform : Platform) (T : Type) :
    Machine (History T) (Call T × Reply T) where
  initial history :=
    ((∃ nonce bounds, history.owner = .withNonce nonce bounds) ∨ history.owner = .disabled) ∧
      history.issued = [] ∧ history.handed = []
  step history event history' :=
    ∃ owner, history.owner.exec platform event.1 = .ok (event.2, owner) ∧
      history' = history.log event.1 event.2 owner

end ObsMcp.Confirmation
