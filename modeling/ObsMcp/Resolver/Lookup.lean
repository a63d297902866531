import Mathlib.Data.List.Nodup
import ObsMcp.Resolver.Protocol

/-!
# Lookups over the wire

The helper reads the request, asks the system for the addresses of the host, keeps the distinct ones
and writes the reply. `readRequest_request` says that a request is read back and nothing behind it,
and `encodable_of_lookup` that whatever a lookup returns fits a reply. `wire_round_trips` puts the
two directions of the protocol together.
-/

namespace ObsMcp.Resolver

open Foundations BigEndian List

/-! ### Lookups -/

/-- One scanned address: the distinct addresses so far and the number of those scanned. -/
def scanAddress (port : UInt16) (held : List SocketAddr × ℕ) (address : SocketAddr) :
    Except Error (List SocketAddr × ℕ) :=
  if address.port ≠ port then .error .protocol
  else if address ∈ held.1 then .ok (held.1, held.2 + 1)
  else if held.1.length = MAX_ADDRESSES then .error .tooManyAddresses
  else .ok (held.1 ++ [address], held.2 + 1)

/-- The addresses of a peer; the system answers for a host and a port, or fails. -/
def lookup (toSocketAddrs : String → UInt16 → Option (List SocketAddr)) (peer : ExpectedPeer)
    (port : UInt16) : Except Error (List SocketAddr) :=
  match peer.dnsName with
  | none => .error .invalidInput
  | some host =>
    match toSocketAddrs host port with
    | none => .error .lookup
    | some addresses => do
      let (result, scanned) ← (addresses.take MAX_SCANNED).foldlM (scanAddress port) ([], 0)
      if scanned = MAX_SCANNED then .error .tooManyAddresses
      else if result.isEmpty then .error .lookup
      else .ok result

variable {parseIp : String → Option IpAddr} {host name : String} {port : UInt16}

/-- What is kept of the scanned addresses, apart from being there. -/
def Kept (port : UInt16) (held : List SocketAddr × ℕ) : Prop :=
  held.1.Nodup ∧ held.1.length ≤ MAX_ADDRESSES ∧ ∀ address ∈ held.1, address.port = port

theorem kept_scanAddress (held : List SocketAddr × ℕ) (address : SocketAddr)
    (after : List SocketAddr × ℕ) (hkept : Kept port held)
    (hscan : scanAddress port held address = .ok after) : Kept port after := by
  obtain ⟨hdistinct, hfew, hports⟩ := hkept
  rw [scanAddress] at hscan
  split_ifs at hscan with hport hknown hfull
  · cases hscan
    exact ⟨hdistinct, hfew, hports⟩
  · cases hscan
    refine ⟨?_, ?_, ?_⟩
    · refine nodup_append.mpr ⟨hdistinct, nodup_singleton _, ?_⟩
      rintro other hother _ hmem rfl
      exact hknown (mem_singleton.mp hmem ▸ hother)
    · rw [length_append, length_singleton]
      omega
    · intro other hother
      rcases mem_append.mp hother with hother | hother
      · exact hports other hother
      · rw [mem_singleton.mp hother]
        exact not_not.mp hport

/-- What a lookup returns can be encoded. -/
theorem encodable_of_lookup {toSocketAddrs : String → UInt16 → Option (List SocketAddr)}
    {peer : ExpectedPeer} {addresses : List SocketAddr}
    (hlookup : lookup toSocketAddrs peer port = .ok addresses) : Encodable port addresses := by
  rw [lookup] at hlookup
  split at hlookup
  · cases hlookup
  · split at hlookup
    · cases hlookup
    · obtain ⟨held, hscan, hend⟩ := bind_eq_ok_iff.mp hlookup
      obtain ⟨hdistinct, hfew, hports⟩ := foldlM_keeps (Kept port) kept_scanAddress
        ⟨nodup_nil, Nat.zero_le _, fun _ hmem ↦ absurd hmem not_mem_nil⟩ hscan
      dsimp only at hend
      split_ifs at hend with _ hsome
      cases hend
      exact ⟨fun hnil ↦ hsome (List.isEmpty_iff.mpr hnil), hfew, hdistinct, hports⟩

/-! ### Requests -/

/-- An accepted host name stands for itself, and its length fits a byte. -/
theorem parse_eq_dns (hparse : ExpectedPeer.parse parseIp host = .ok (.dns name)) :
    name = host ∧ asBytes host ≠ [] ∧ (asBytes host).length ≤ MAX_HOST := by
  rw [ExpectedPeer.parse] at hparse
  split at hparse
  · cases hparse
  · dsimp only at hparse
    generalize (if (asBytes host).getLast? = some 46 then (asBytes host).dropLast
      else asBytes host) = labels at hparse
    split_ifs at hparse with hbounds
    simp only [Bool.or_eq_true, not_or, decide_eq_true_eq, Nat.not_lt, List.isEmpty_iff] at hbounds
    exact ⟨(ExpectedPeer.dns.inj (Except.ok.inj hparse)).symm, hbounds.1.1.1, hbounds.1.1.2⟩

theorem fromUtf8_asBytes (text : String) : fromUtf8 (asBytes text) = some text := by
  have hbytes : (⟨(asBytes text).toArray⟩ : ByteArray) = text.toByteArray := by
    rw [asBytes, Array.toArray_toList]
  rw [fromUtf8, hbytes, String.fromUTF8?, dif_pos text.isValidUTF8]
  rfl

theorem readExact_append {front : List UInt8} {count : ℕ} (hfront : front.length = count)
    (behind : List UInt8) : readExact count (front ++ behind) = some (front, behind) := by
  rw [readExact, if_pos (by rw [length_append]; omega), take_left' hfront,
    drop_left' hfront]

/-- A request is read back, and nothing behind it. -/
theorem readRequest_request (hparse : ExpectedPeer.parse parseIp host = .ok (.dns name))
    (hport : port ≠ 0) : ∃ bytes, request (.dns name) port = .ok bytes ∧
      ∀ behind, readRequest parseIp (bytes ++ behind) = (.ok (.dns name, port), behind) := by
  obtain ⟨rfl, hsome, hshort⟩ := parse_eq_dns hparse
  have hpos := length_pos_of_ne_nil hsome
  have hlength : (UInt8.ofNat (asBytes name).length).toNat = (asBytes name).length := by
    refine UInt8.toNat_ofNat_of_lt (hshort.trans_lt ?_)
    decide
  refine ⟨REQUEST_MAGIC ++ toBytes 2 port.toNat ++ [UInt8.ofNat (asBytes name).length] ++
    asBytes name, if_neg hport, fun behind ↦ ?_⟩
  obtain ⟨high, low, hbytes⟩ : ∃ high low, toBytes 2 port.toNat = [high, low] := ⟨_, _, rfl⟩
  have hread : UInt16.ofNat (ofBytes [high, low]) = port := by
    rw [← hbytes, ofBytes_toBytes_of_lt port.toNat_lt, UInt16.ofNat_toNat]
  have hheader : (REQUEST_MAGIC ++ [high, low] ++
      [UInt8.ofNat (asBytes name).length]).length = 7 := rfl
  rw [hbytes, readRequest, append_assoc, readExact_append hheader]
  dsimp only
  rw [if_neg]
  · have hcount : ((REQUEST_MAGIC ++ [high, low] ++
        [UInt8.ofNat (asBytes name).length]).getD 6 0).toNat = (asBytes name).length := hlength
    rw [hcount, readExact_append rfl]
    show (if UInt16.ofNat (ofBytes [high, low]) = 0 then _ else _) = _
    rw [hread, if_neg hport, fromUtf8_asBytes]
    dsimp only
    rw [hparse]
    show (Except.ok (ExpectedPeer.dns name, UInt16.ofNat (ofBytes [high, low])), behind) = _
    rw [hread]
  · show ¬(_ ∨ (UInt8.ofNat (asBytes name).length).toNat = 0 ∨
      MAX_HOST < (UInt8.ofNat (asBytes name).length).toNat)
    rw [hlength, not_or, not_or, not_not, Nat.not_lt]
    exact ⟨rfl, by omega, hshort⟩

/-! ### The protocol -/

/-- The protocol of the resolver. A request for an accepted host and a port that is not zero is read
back with whatever stands behind it left unread. One to sixteen distinct addresses of one port are
decoded of their reply in order; whatever is decoded of some bytes is one to sixteen distinct
addresses of the port, and the bytes are their reply. Every reply fits the bound, an error reply
decodes to an error, and what a lookup returns is decoded unchanged. -/
theorem wire_round_trips (parseIp : String → Option IpAddr)
    (toSocketAddrs : String → UInt16 → Option (List SocketAddr)) :
    (∀ host name, ExpectedPeer.parse parseIp host = .ok (.dns name) → ∀ port : UInt16, port ≠ 0 →
      ∃ bytes, request (.dns name) port = .ok bytes ∧
        ∀ behind, readRequest parseIp (bytes ++ behind) = (.ok (.dns name, port), behind)) ∧
    (∀ (addresses : List SocketAddr) (expected : ExpectedPeer) (port : UInt16),
      addresses ≠ [] → addresses.length ≤ 16 → addresses.Nodup →
        (∀ address ∈ addresses, address.port = port) →
          decode (reply (.ok addresses)) expected port = .ok ⟨expected, port, addresses⟩) ∧
    (∀ (bytes : List UInt8) (expected : ExpectedPeer) (port : UInt16) (resolved : Resolved),
      decode bytes expected port = .ok resolved →
        reply (.ok resolved.addresses) = bytes ∧ resolved.expected = expected ∧
          resolved.port = port ∧ 1 ≤ resolved.addresses.length ∧
            resolved.addresses.length ≤ 16 ∧ resolved.addresses.Nodup ∧
              ∀ address ∈ resolved.addresses, address.port = port) ∧
    (∀ answer, (reply answer).length ≤ MAX_REPLY) ∧
    (∀ error expected port, ∃ decoded,
      decode (reply (.error error)) expected port = .error decoded) ∧
    ∀ (peer expected : ExpectedPeer) (port : UInt16) (addresses : List SocketAddr),
      lookup toSocketAddrs peer port = .ok addresses →
        decode (reply (lookup toSocketAddrs peer port)) expected port =
          .ok ⟨expected, port, addresses⟩ := by
  refine ⟨fun host name hparse port hport ↦ readRequest_request hparse hport, ?_, ?_,
    length_reply_le, fun error expected port ↦ ⟨_, decode_errorReply error expected port⟩, ?_⟩
  · intro addresses expected port hsome hfew hdistinct hports
    exact decode_eq_ok_iff.mpr ⟨addresses, rfl, ⟨hsome, hfew, hdistinct, hports⟩, rfl⟩
  · intro bytes expected port resolved hdecode
    obtain ⟨addresses, rfl, hencodable, rfl⟩ := decode_eq_ok_iff.mp hdecode
    exact ⟨rfl, rfl, rfl, length_pos_of_ne_nil hencodable.some, hencodable.few,
      hencodable.distinct, hencodable.ports⟩
  · intro peer expected port addresses hlookup
    rw [hlookup]
    exact decode_eq_ok_iff.mpr ⟨addresses, rfl, encodable_of_lookup hlookup, rfl⟩

end ObsMcp.Resolver
