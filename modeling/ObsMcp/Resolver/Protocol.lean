import ObsMcp.Foundations.BigEndian
import ObsMcp.Foundations.Fallible

/-!
# The wire protocol of the resolver

A host name is resolved in a helper process. `request` and `readRequest` are the two ends of the
question, `reply` and `decode` those of the answer. A question is a magic number, a port and a host
with its length; an answer is another magic number, an error code or zero, and a number of addresses
with one record each, of two sizes.

`decodeAddress_eq_ok_iff` says that the decoder reads a record at an offset exactly when the bytes
there are what the encoder writes for that address, and `decodeLoop_eq_ok_iff` the same of a row of
them. `decode_eq_ok_iff` is the whole answer: a decoded answer is the reply with those addresses.

The parser of numeric addresses is that of the standard library, and is a parameter here.
-/

namespace ObsMcp.Resolver

open Foundations BigEndian List

/-! ### Addresses and peers -/

def MAX_HOST : ℕ := 253

def MAX_ADDRESSES : ℕ := 16

def MAX_SCANNED : ℕ := 64

def MAX_REPLY : ℕ := 512

/-- The bytes of `ODR1`. -/
def REQUEST_MAGIC : List UInt8 := [79, 68, 82, 49]

/-- The bytes of `ODA1`. -/
def REPLY_MAGIC : List UInt8 := [79, 68, 65, 49]

inductive Error
  | invalidInput
  | deadline
  | cancelled
  | capacity
  | spawn
  | io
  | protocol
  | lookup
  | tooManyAddresses
  | childFailed
  | ownerStopped
  | cleanupUnconfirmed
  deriving DecidableEq

/-- So many bytes. -/
abbrev Octets (count : ℕ) :=
  { bytes : List UInt8 // bytes.length = count }

inductive IpAddr
  | v4 (ip : Octets 4)
  | v6 (ip : Octets 16)
  deriving DecidableEq

inductive SocketAddr
  | v4 (ip : Octets 4) (port : UInt16)
  | v6 (ip : Octets 16) (port : UInt16) (flowinfo scopeId : UInt32)
  deriving DecidableEq

def SocketAddr.port : SocketAddr → UInt16
  | v4 _ port => port
  | v6 _ port _ _ => port

inductive ExpectedPeer
  | dns (host : String)
  | ip (address : IpAddr)
  deriving DecidableEq

def ExpectedPeer.dnsName : ExpectedPeer → Option String
  | dns host => some host
  | ip _ => none

/-- The UTF-8 bytes of a text. -/
def asBytes (text : String) : List UInt8 :=
  text.toByteArray.data.toList

def isAsciiAlphanumeric (byte : UInt8) : Bool :=
  (48 ≤ byte && byte ≤ 57) || (65 ≤ byte && byte ≤ 90) || (97 ≤ byte && byte ≤ 122)

/-- A part of a host name that is refused. -/
def badLabel (label : List UInt8) : Bool :=
  label.isEmpty || 63 < label.length || !label.head?.any isAsciiAlphanumeric ||
    !label.getLast?.any isAsciiAlphanumeric ||
    !label.all fun byte ↦ isAsciiAlphanumeric byte || byte == 45

/-- The peer that a text names. -/
def ExpectedPeer.parse (parseIp : String → Option IpAddr) (host : String) :
    Except Error ExpectedPeer :=
  match parseIp host with
  | some address => .ok (.ip address)
  | none =>
    let bytes := asBytes host
    let labels := if bytes.getLast? = some 46 then bytes.dropLast else bytes
    if bytes.isEmpty || MAX_HOST < bytes.length || !bytes.all (· < 128) ||
        (labels.splitOn 46).any badLabel then .error .invalidInput
    else .ok (.dns host)

structure Resolved where
  expected : ExpectedPeer
  port : UInt16
  addresses : List SocketAddr
  deriving DecidableEq

/-! ### Requests -/

def request (peer : ExpectedPeer) (port : UInt16) : Except Error (List UInt8) :=
  if port = 0 then .error .invalidInput
  else
    match peer.dnsName with
    | none => .error .invalidInput
    | some host =>
      .ok (REQUEST_MAGIC ++ toBytes 2 port.toNat ++ [UInt8.ofNat (asBytes host).length] ++
        asBytes host)

/-- So many bytes of an input, and the rest of it. -/
def readExact (count : ℕ) (input : List UInt8) : Option (List UInt8 × List UInt8) :=
  if count ≤ input.length then some (input.take count, input.drop count) else none

/-- The text of some bytes, when they are UTF-8. -/
def fromUtf8 (bytes : List UInt8) : Option String :=
  String.fromUTF8? ⟨bytes.toArray⟩

/-- Reads a request, and leaves the input behind it. -/
def readRequest (parseIp : String → Option IpAddr) (input : List UInt8) :
    Except Error (ExpectedPeer × UInt16) × List UInt8 :=
  match readExact 7 input with
  | none => (.error .protocol, [])
  | some (header, input) =>
    let length := (header.getD 6 0).toNat
    if header.take 4 ≠ REQUEST_MAGIC ∨ length = 0 ∨ MAX_HOST < length then (.error .protocol, input)
    else
      match readExact length input with
      | none => (.error .protocol, [])
      | some (host, input) =>
        let port := UInt16.ofNat (ofBytes ((header.drop 4).take 2))
        if port = 0 then (.error .protocol, input)
        else
          match fromUtf8 host with
          | none => (.error .protocol, input)
          | some host =>
            match ExpectedPeer.parse parseIp host with
            | .ok (.dns name) => (.ok (.dns name, port), input)
            | _ => (.error .protocol, input)

/-! ### Replies -/

def errorCode : Error → UInt8
  | .tooManyAddresses => 2
  | .invalidInput | .protocol => 3
  | _ => 1

def errorReply (error : Error) : List UInt8 :=
  REPLY_MAGIC ++ [errorCode error, 0]

/-- The record of an address. -/
def record : SocketAddr → List UInt8
  | .v4 ip _ => 4 :: ip.1
  | .v6 ip _ flowinfo scopeId =>
    6 :: (ip.1 ++ toBytes 4 flowinfo.toNat ++ toBytes 4 scopeId.toNat)

def reply : Except Error (List SocketAddr) → List UInt8
  | .error error => errorReply error
  | .ok addresses =>
    if addresses.isEmpty || MAX_ADDRESSES < addresses.length then errorReply .tooManyAddresses
    else REPLY_MAGIC ++ [0, UInt8.ofNat addresses.length] ++ addresses.flatMap record

/-- So many bytes from an offset on. -/
def slice (bytes : List UInt8) (offset count : ℕ) : Option (Octets count) :=
  if h : offset + count ≤ bytes.length then
    some ⟨(bytes.drop offset).take count, by rw [length_take, length_drop]; omega⟩
  else none

/-- The address of a record of the longer size. -/
def addressV6 (data : Octets 24) (port : UInt16) : SocketAddr :=
  .v6 ⟨data.1.take 16, by rw [length_take, data.2]; rfl⟩ port
    (UInt32.ofNat (ofBytes ((data.1.drop 16).take 4)))
    (UInt32.ofNat (ofBytes ((data.1.drop 20).take 4)))

/-- The address of the record at an offset, and the offset behind it. -/
def decodeAddress (bytes : List UInt8) (port : UInt16) (offset : ℕ) :
    Except Error (SocketAddr × ℕ) :=
  match bytes[offset]? with
  | none => .error .protocol
  | some kind =>
    if kind = 4 then
      match slice bytes (offset + 1) 4 with
      | none => .error .protocol
      | some ip => .ok (.v4 ip port, offset + 5)
    else if kind = 6 then
      match slice bytes (offset + 1) 24 with
      | none => .error .protocol
      | some data => .ok (addressV6 data port, offset + 25)
    else .error .protocol

/-- So many records from an offset on, none of which repeats an address. -/
def decodeLoop (bytes : List UInt8) (port : UInt16) :
    ℕ → ℕ → List SocketAddr → Except Error (List SocketAddr × ℕ)
  | 0, offset, addresses => .ok (addresses, offset)
  | count + 1, offset, addresses => do
    let (address, offset) ← decodeAddress bytes port offset
    if address ∈ addresses then .error .protocol
    else decodeLoop bytes port count offset (addresses ++ [address])

/-- The error of an error code. -/
def codeError (code : UInt8) : Error :=
  if code = 1 then .lookup
  else if code = 2 then .tooManyAddresses
  else if code = 3 then .invalidInput
  else .protocol

def decode (bytes : List UInt8) (expected : ExpectedPeer) (port : UInt16) : Except Error Resolved :=
  if bytes.length < 6 ∨ MAX_REPLY < bytes.length ∨ bytes.take 4 ≠ REPLY_MAGIC then .error .protocol
  else if bytes.getD 4 0 ≠ 0 then
    if bytes.length ≠ 6 ∨ bytes.getD 5 0 ≠ 0 then .error .protocol
    else .error (codeError (bytes.getD 4 0))
  else
    let count := (bytes.getD 5 0).toNat
    if count = 0 ∨ MAX_ADDRESSES < count then .error .protocol
    else do
      let (addresses, offset) ← decodeLoop bytes port count 6 []
      if offset ≠ bytes.length then .error .protocol
      else .ok ⟨expected, port, addresses⟩

/-! ### Records -/

variable {bytes : List UInt8} {port : UInt16} {offset next stop count : ℕ} {address : SocketAddr}
  {addresses list more : List SocketAddr}

theorem slice_eq_some_iff {octets : Octets count} (hpos : 0 < count) :
    slice bytes offset count = some octets ↔ octets.1 <+: bytes.drop offset := by
  rw [slice]
  constructor
  · intro hslice
    split_ifs at hslice
    cases hslice
    exact take_prefix _ _
  · rintro ⟨rest, hrest⟩
    have hlength := congrArg List.length hrest
    rw [length_append, octets.2, length_drop] at hlength
    rw [dif_pos (by omega)]
    refine congrArg some (Subtype.ext ?_)
    have htake : (octets.1 ++ rest).take count = octets.1 := take_left' octets.2
    rw [hrest] at htake
    exact htake

theorem toNat_ofBytes {four : List UInt8} (hfour : four.length = 4) :
    (UInt32.ofNat (ofBytes four)).toNat = ofBytes four := by
  have hlt := ofBytes_lt four
  rw [hfour] at hlt
  exact UInt32.toNat_ofNat_of_lt hlt

/-- The record of an address that was read of a record. -/
theorem record_addressV6 (data : Octets 24) (port : UInt16) :
    record (addressV6 data port) = 6 :: data.1 := by
  have hflow : ((data.1.drop 16).take 4).length = 4 := by
    rw [length_take, length_drop, data.2]
    rfl
  have hscope : ((data.1.drop 20).take 4).length = 4 := by
    rw [length_take, length_drop, data.2]
    rfl
  have hlast : (data.1.drop 20).take 4 = data.1.drop 20 := by
    refine take_of_length_le ?_
    rw [length_drop, data.2]
  have hflowBytes := toBytes_ofBytes ((data.1.drop 16).take 4)
  have hscopeBytes := toBytes_ofBytes ((data.1.drop 20).take 4)
  rw [hflow] at hflowBytes
  rw [hscope] at hscopeBytes
  rw [addressV6, record, toNat_ofBytes hflow, toNat_ofBytes hscope, hflowBytes, hscopeBytes, hlast]
  have hmiddle : (data.1.drop 16).drop 4 = data.1.drop 20 := drop_drop
  rw [← hmiddle, append_assoc, take_append_drop, take_append_drop]

/-- An address is read of its record. -/
theorem exists_addressV6 (ip : Octets 16) (port : UInt16) (flowinfo scopeId : UInt32) :
    ∃ data : Octets 24, addressV6 data port = .v6 ip port flowinfo scopeId := by
  have hip := ip.2
  have hflow := length_toBytes 4 flowinfo.toNat
  have hscope := length_toBytes 4 scopeId.toNat
  have hread : ∀ n : UInt32, UInt32.ofNat (ofBytes (toBytes 4 n.toNat)) = n := fun n ↦ by
    rw [ofBytes_toBytes_of_lt n.toNat_lt, UInt32.ofNat_toNat]
  refine ⟨⟨ip.1 ++ toBytes 4 flowinfo.toNat ++ toBytes 4 scopeId.toNat, ?_⟩, ?_⟩
  · rw [length_append, length_append, hip, hflow, hscope]
  · have hfirst : (ip.1 ++ toBytes 4 flowinfo.toNat ++ toBytes 4 scopeId.toNat).take 16 = ip.1 := by
      rw [append_assoc, take_left' hip]
    have hsecond : ((ip.1 ++ toBytes 4 flowinfo.toNat ++ toBytes 4 scopeId.toNat).drop 16).take 4 =
        toBytes 4 flowinfo.toNat := by
      rw [append_assoc, drop_left' hip, take_left' hflow]
    have hthird : ((ip.1 ++ toBytes 4 flowinfo.toNat ++ toBytes 4 scopeId.toNat).drop 20).take 4 =
        toBytes 4 scopeId.toNat := by
      have hfront : (ip.1 ++ toBytes 4 flowinfo.toNat).length = 20 := by
        rw [length_append, hip, hflow]
      rw [drop_left' hfront, take_of_length_le hscope.le]
    simp only [addressV6, hfirst, hsecond, hthird, hread]

/-- The decoder reads an address at an offset exactly when its record stands there. -/
theorem decodeAddress_eq_ok_iff :
    decodeAddress bytes port offset = .ok (address, next) ↔
      address.port = port ∧ next = offset + (record address).length ∧
        record address <+: bytes.drop offset := by
  cases hdrop : bytes.drop offset with
  | nil =>
    have hkind : bytes[offset]? = none := by rw [← head?_drop, hdrop]; rfl
    rw [decodeAddress, hkind]
    simp only [reduceCtorEq, prefix_nil, false_iff, not_and]
    intro _ _ hrecord
    cases address <;> cases hrecord
  | cons kind tail =>
    have hkind : bytes[offset]? = some kind := by rw [← head?_drop, hdrop]; rfl
    have htail : bytes.drop (offset + 1) = tail := by rw [← drop_drop, hdrop]; rfl
    rw [decodeAddress, hkind]
    constructor
    · intro hdecode
      dsimp only at hdecode
      split_ifs at hdecode with hfour hsix
      · split at hdecode
        · cases hdecode
        · rename_i ip hslice
          rw [slice_eq_some_iff (by omega), htail] at hslice
          cases hdecode
          refine ⟨rfl, ?_, ?_⟩
          · rw [record, length_cons, ip.2]
          · rw [record, hfour]
            exact cons_prefix_cons.mpr ⟨rfl, hslice⟩
      · split at hdecode
        · cases hdecode
        · rename_i data hslice
          rw [slice_eq_some_iff (by omega), htail] at hslice
          cases hdecode
          refine ⟨rfl, ?_, ?_⟩
          · rw [record_addressV6, length_cons, data.2]
          · rw [record_addressV6, hsix]
            exact cons_prefix_cons.mpr ⟨rfl, hslice⟩
    · rintro ⟨rfl, rfl, hrecord⟩
      cases address with
      | v4 ip port =>
        obtain ⟨rfl, hip⟩ := cons_prefix_cons.mp hrecord
        have hslice : slice bytes (offset + 1) 4 = some ip := by
          rw [slice_eq_some_iff (by omega), htail]
          exact hip
        dsimp only
        rw [if_pos rfl, hslice, record, length_cons, ip.2]
        rfl
      | v6 ip port flowinfo scopeId =>
        obtain ⟨data, hdata⟩ := exists_addressV6 ip port flowinfo scopeId
        rw [← hdata] at hrecord ⊢
        rw [record_addressV6] at hrecord ⊢
        obtain ⟨rfl, hip⟩ := cons_prefix_cons.mp hrecord
        have hslice : slice bytes (offset + 1) 24 = some data := by
          rw [slice_eq_some_iff (by omega), htail]
          exact hip
        dsimp only
        rw [if_neg (by decide), if_pos rfl, hslice, length_cons, data.2]
        rfl

/-! ### Rows of records -/

/-- Distinct addresses of one port, whose records stand at an offset. -/
structure Row (bytes : List UInt8) (port : UInt16) (offset : ℕ) (addresses : List SocketAddr)
    (stop : ℕ) : Prop where
  ports : ∀ address ∈ addresses, address.port = port
  distinct : addresses.Nodup
  stops : stop = offset + (addresses.flatMap record).length
  stands : addresses.flatMap record <+: bytes.drop offset

theorem prefix_append_iff {front back whole : List UInt8} :
    front ++ back <+: whole ↔ front <+: whole ∧ back <+: whole.drop front.length := by
  constructor
  · rintro ⟨rest, rfl⟩
    rw [append_assoc, drop_left]
    exact ⟨prefix_append _ _, prefix_append _ _⟩
  · rintro ⟨⟨behind, rfl⟩, hback⟩
    rw [drop_left] at hback
    exact prefix_append_right_inj front |>.mpr hback

/-- The decoder reads as many further addresses as it is told to, when their records stand there. -/
theorem decodeLoop_eq_ok_iff :
    decodeLoop bytes port count offset addresses = .ok (list, stop) ↔
      ∃ more, list = addresses ++ more ∧ more.length = count ∧ Row bytes port offset more stop ∧
        ∀ address ∈ more, address ∉ addresses := by
  induction count generalizing offset addresses with
  | zero =>
    constructor
    · intro hloop
      cases hloop
      exact ⟨[], (append_nil _).symm, rfl, ⟨fun _ hmem ↦ absurd hmem not_mem_nil,
        nodup_nil, rfl, nil_prefix⟩, fun _ hmem ↦ absurd hmem not_mem_nil⟩
    · rintro ⟨more, rfl, hmore, hrow, -⟩
      obtain rfl := eq_nil_of_length_eq_zero hmore
      rw [hrow.stops, append_nil]
      rfl
  | succ count ih =>
    rw [decodeLoop, bind_eq_ok_iff]
    constructor
    · rintro ⟨⟨address, next⟩, hdecode, hloop⟩
      obtain ⟨hport, rfl, hrecord⟩ := decodeAddress_eq_ok_iff.mp hdecode
      dsimp only at hloop
      split_ifs at hloop with hrepeats
      obtain ⟨more, rfl, hcount, hrow, hfresh⟩ := ih.mp hloop
      have hother : ∀ other ∈ more, other ∉ addresses ∧ other ≠ address := fun other hmem ↦ by
        simpa [not_or] using hfresh other hmem
      refine ⟨address :: more, by rw [append_assoc]; rfl, by rw [length_cons, hcount],
        ⟨forall_mem_cons.mpr ⟨hport, hrow.ports⟩, ?_, ?_, ?_⟩,
        forall_mem_cons.mpr ⟨hrepeats, fun other hmem ↦ (hother other hmem).1⟩⟩
      · exact nodup_cons.mpr ⟨fun hmem ↦ (hother address hmem).2 rfl, hrow.distinct⟩
      · rw [hrow.stops, flatMap_cons, length_append, Nat.add_assoc]
      · rw [flatMap_cons, prefix_append_iff, drop_drop]
        exact ⟨hrecord, hrow.stands⟩
    · rintro ⟨more, rfl, hcount, hrow, hfresh⟩
      cases more with
      | nil => cases hcount
      | cons address more =>
        obtain ⟨hport, hports⟩ := forall_mem_cons.mp hrow.ports
        obtain ⟨hnew, hdistinct⟩ := nodup_cons.mp hrow.distinct
        obtain ⟨hrepeats, hothers⟩ := forall_mem_cons.mp hfresh
        have hstands := hrow.stands
        rw [flatMap_cons, prefix_append_iff, drop_drop] at hstands
        refine ⟨(address, offset + (record address).length),
          decodeAddress_eq_ok_iff.mpr ⟨hport, rfl, hstands.1⟩, ?_⟩
        dsimp only
        rw [if_neg hrepeats, ih]
        refine ⟨more, by rw [append_assoc]; rfl, Nat.succ.inj hcount,
          ⟨hports, hdistinct, ?_, hstands.2⟩, fun other hmem ↦ ?_⟩
        · rw [hrow.stops, flatMap_cons, length_append, Nat.add_assoc]
        · have hne : other ≠ address := fun heq ↦ hnew (heq ▸ hmem)
          simpa [not_or] using ⟨hothers other hmem, hne⟩

/-! ### Whole replies -/

/-- Addresses of one port that a reply can carry. -/
structure Encodable (port : UInt16) (addresses : List SocketAddr) : Prop where
  some : addresses ≠ []
  few : addresses.length ≤ MAX_ADDRESSES
  distinct : addresses.Nodup
  ports : ∀ address ∈ addresses, address.port = port

theorem length_record_le (address : SocketAddr) : (record address).length ≤ 25 := by
  cases address with
  | v4 ip _ =>
    rw [record, length_cons, ip.2]
    decide
  | v6 ip _ flowinfo scopeId =>
    rw [record, length_cons, length_append, length_append, ip.2, length_toBytes,
      length_toBytes]

theorem length_records_le (addresses : List SocketAddr) :
    (addresses.flatMap record).length ≤ 25 * addresses.length := by
  induction addresses with
  | nil => exact le_rfl
  | cons address addresses ih =>
    have hrecord := length_record_le address
    rw [flatMap_cons, length_append, length_cons]
    omega

theorem reply_ok (hencodable : Encodable port addresses) :
    reply (.ok addresses) =
      79 :: 68 :: 65 :: 49 :: 0 :: UInt8.ofNat addresses.length :: addresses.flatMap record := by
  have hsome : addresses.isEmpty = false := isEmpty_eq_false_iff.mpr hencodable.some
  have hfew : ¬MAX_ADDRESSES < addresses.length := Nat.not_lt.mpr hencodable.few
  rw [reply, hsome, Bool.false_or, if_neg (by rw [decide_eq_true_eq]; exact hfew)]
  rfl

/-- Every reply fits the bound of the decoder. -/
theorem length_reply_le (answer : Except Error (List SocketAddr)) :
    (reply answer).length ≤ MAX_REPLY := by
  have herror : ∀ error, (errorReply error).length ≤ MAX_REPLY := fun error ↦ by
    rw [errorReply, length_append]
    show 4 + 2 ≤ MAX_REPLY
    decide
  cases answer with
  | error error => exact herror error
  | ok addresses =>
    rw [reply]
    split_ifs with hbounds
    · exact herror _
    · rw [Bool.or_eq_true, not_or, decide_eq_true_eq, Nat.not_lt] at hbounds
      have hrecords := length_records_le addresses
      have hfew : addresses.length ≤ 16 := hbounds.2
      rw [length_append, length_append]
      show 4 + 2 + _ ≤ 512
      omega

/-- An error reply decodes to an error. -/
theorem decode_errorReply (error : Error) (expected : ExpectedPeer) (port : UInt16) :
    decode (errorReply error) expected port = .error (codeError (errorCode error)) := by
  cases error <;> rfl

/-- A decoded reply is the reply with the addresses that were decoded. -/
theorem decode_eq_ok_iff {expected : ExpectedPeer} {resolved : Resolved} :
    decode bytes expected port = .ok resolved ↔
      ∃ addresses, resolved = ⟨expected, port, addresses⟩ ∧ Encodable port addresses ∧
        bytes = reply (.ok addresses) := by
  constructor
  · intro hdecode
    rw [decode] at hdecode
    dsimp only at hdecode
    split_ifs at hdecode with hframe hcode _ hcount
    simp only [not_or, Nat.not_lt, not_not] at hframe hcode hcount
    obtain ⟨hlong, -, hmagic⟩ := hframe
    obtain ⟨⟨addresses, stop⟩, hloop, hend⟩ := bind_eq_ok_iff.mp hdecode
    dsimp only at hend
    split_ifs at hend with hstop
    obtain rfl := not_not.mp hstop
    obtain ⟨more, hlist, hmore, hrow, -⟩ := decodeLoop_eq_ok_iff.mp hloop
    obtain rfl : addresses = more := hlist
    have hencodable : Encodable port addresses :=
      ⟨by rintro rfl; exact hcount.1 hmore.symm, hmore ▸ hcount.2, hrow.distinct, hrow.ports⟩
    refine ⟨addresses, (Except.ok.inj hend).symm, hencodable, ?_⟩
    have hrecords : addresses.flatMap record = bytes.drop 6 := by
      refine hrow.stands.eq_of_length ?_
      have hstops := hrow.stops
      rw [length_drop]
      omega
    rw [reply_ok hencodable, hrecords, hmore]
    match bytes, hlong with
    | b0 :: b1 :: b2 :: b3 :: b4 :: b5 :: rest, _ =>
      obtain rfl : b4 = 0 := hcode
      have hmagic : [b0, b1, b2, b3] = [79, 68, 65, 49] := hmagic
      simp only [List.cons.injEq, and_true] at hmagic
      obtain ⟨rfl, rfl, rfl, rfl⟩ := hmagic
      show _ = 79 :: 68 :: 65 :: 49 :: 0 :: UInt8.ofNat b5.toNat :: rest
      rw [UInt8.ofNat_toNat]
  · rintro ⟨addresses, rfl, hencodable, rfl⟩
    have hshort := length_reply_le (.ok addresses)
    have hfew : addresses.length ≤ 16 := hencodable.few
    have hpos := length_pos_of_ne_nil hencodable.some
    have hcount : (UInt8.ofNat addresses.length).toNat = addresses.length :=
      UInt8.toNat_ofNat_of_lt (show addresses.length < 256 by omega)
    rw [reply_ok hencodable] at hshort ⊢
    rw [decode, if_neg, if_neg, if_neg]
    · have hloop : decodeLoop (79 :: 68 :: 65 :: 49 :: 0 :: UInt8.ofNat addresses.length ::
          addresses.flatMap record) port addresses.length 6 [] =
            .ok (addresses, 6 + (addresses.flatMap record).length) :=
        decodeLoop_eq_ok_iff.mpr ⟨addresses, rfl, rfl,
          ⟨hencodable.ports, hencodable.distinct, rfl, prefix_refl _⟩,
          fun _ _ ↦ not_mem_nil⟩
      show (decodeLoop _ port (UInt8.ofNat addresses.length).toNat 6 [] >>= _) = _
      rw [hcount, hloop, ok_bind]
      dsimp only
      rw [if_neg]
      simp only [length_cons, not_not]
      omega
    · show ¬((UInt8.ofNat addresses.length).toNat = 0 ∨
        MAX_ADDRESSES < (UInt8.ofNat addresses.length).toNat)
      rw [hcount, not_or, Nat.not_lt]
      exact ⟨by omega, hencodable.few⟩
    · exact fun hcode ↦ hcode rfl
    · simp only [not_or, Nat.not_lt, not_not]
      refine ⟨?_, hshort, rfl⟩
      simp only [length_cons]
      omega

end ObsMcp.Resolver
