import ObsMcp.Http.Totality

/-!
# Headers and body of an admitted exchange

What the headers and the body of an admitted request have in common. `NamesLoopback` says that an
authority is a loopback host as a whole, and `canonicalHostname_spec` that the check of an authority
admits no other one. For the modern era `ModernRequest` and `ModernNotification` relate each header
that a proxy may read to the body, and `LegacyMessage` says where a legacy message may name a
version. `headers_agree` collects what holds of every exchange that `admitRequest` answers.
-/

namespace ObsMcp.Http

open Foundations List Option

/-! ### Hosts -/

/-- The authority is a loopback host, alone or with a port. -/
def NamesLoopback (authority : List Char) : Prop :=
  ∃ hostname rest, authority = hostname ++ rest ∧ allowed hostname = true ∧
    (rest = [] ∨ ∃ port, rest = ':' :: port ∧ (port = [] ∨ (parseU16 port).isSome = true))

theorem stripFront_eq_some {front text rest : List Char}
    (hstrip : stripFront front text = some rest) :
    text = front ++ rest := by
  unfold stripFront at hstrip
  split_ifs at hstrip with hfront
  obtain ⟨after, rfl⟩ := isPrefixOf_iff_prefix.mp hfront
  rw [drop_left] at hstrip
  rw [some.inj hstrip]

/-- The host and the port make up the authority. -/
theorem hostAndPort_spec {authority host : List Char} {port : Option (List Char)}
    (hparts : hostAndPort authority = some (.ok (host, port))) :
    authority = host ++ port.elim [] (':' :: ·) := by
  unfold hostAndPort at hparts
  split_ifs at hparts
  · cases hfound : Text.findBytes [']'] authority with
    | none =>
      rw [hfound] at hparts
      cases hparts
    | some found =>
      obtain ⟨before, after, rfl, rfl⟩ := Text.findBytes_eq_some hfound
      have hend : Text.size before + 1 = Text.size (before ++ [']']) := by
        rw [Text.size_append]
        rfl
      simp only [hfound, hend, Text.dropBytes_append, Text.takeBytes_append, Option.bind_eq_bind,
        Option.bind_some] at hparts
      split_ifs at hparts with hempty
      · cases hparts
        rw [isEmpty_iff.mp hempty]
        rfl
      · cases hstrip : stripFront [':'] after with
        | none =>
          rw [hstrip] at hparts
          cases hparts
        | some rest =>
          rw [hstrip] at hparts
          cases hparts
          rw [stripFront_eq_some hstrip]
          rfl
  · cases hsplit : Text.splitOnce [':'] authority with
    | none =>
      rw [hsplit] at hparts
      cases hparts
      exact (append_nil _).symm
    | some parts =>
      rw [hsplit] at hparts
      cases hparts
      have hwhole := Text.splitOnce_eq_some hsplit
      rw [append_assoc] at hwhole
      exact hwhole

/-- An authority whose host is allowed is a loopback host as a whole. -/
theorem canonicalHostname_spec {authority hostname : List Char}
    (hcanonical : canonicalHostname authority = some (.ok hostname))
    (hallowed : allowed hostname = true) : NamesLoopback authority := by
  unfold canonicalHostname at hcanonical
  split_ifs at hcanonical
  · cases hcanonical
  · obtain ⟨parts, hparts, hcanonical⟩ := bind_eq_some_iff.mp hcanonical
    cases parts with
    | error reason => cases hcanonical
    | ok parts =>
      obtain ⟨host, port⟩ := parts
      simp only at hcanonical
      split_ifs at hcanonical with hport hhost
      · cases hcanonical
      · cases hcanonical
        refine ⟨_, _, hostAndPort_spec hparts, hallowed, ?_⟩
        cases port with
        | none => exact Or.inl rfl
        | some port =>
          refine Or.inr ⟨port, rfl, ?_⟩
          rw [any_some, Bool.and_eq_true, not_and_or] at hport
          rcases hport with hempty | hnumber
          · exact Or.inl (by simpa using hempty)
          · exact Or.inr (isSome_iff_ne_none.mpr (by simpa using hnumber))
      · cases hcanonical

/-- The text has an authority behind its scheme, and this is a loopback host. -/
def NamesLoopbackOrigin (origin : String) : Prop :=
  ∃ scheme rest, origin.toList = scheme ++ "://".toList ++ rest ∧
    NamesLoopback (Text.firstPart (fun c ↦ c == '/' || c == '?' || c == '#') rest)

variable {codec : Codec} {head : RequestHead} {policy : Policy}

theorem originSecurity_spec {origin : String}
    (hsecure : originSecurity codec origin = some (.ok none)) : NamesLoopbackOrigin origin := by
  unfold originSecurity at hsecure
  cases hsplit : Text.splitOnce "://".toList origin.toList with
  | none =>
    rw [hsplit] at hsecure
    cases hsecure
  | some parts =>
    obtain ⟨scheme, rest⟩ := parts
    rw [hsplit] at hsecure
    simp only at hsecure
    split_ifs at hsecure
    · cases hsecure
    · obtain ⟨canonical, hcanonical, hsecure⟩ := bind_eq_some_iff.mp hsecure
      cases canonical with
      | error reason => cases hsecure
      | ok hostname =>
        simp only at hsecure
        split_ifs at hsecure with hallowed
        · cases hsecure
        · exact ⟨scheme, rest, Text.splitOnce_eq_some hsplit,
            canonicalHostname_spec hcanonical (by simpa using hallowed)⟩

/-- A head that passes names a loopback host, and so does its origin when there is one. -/
theorem urlSecurity_spec (hsecure : urlSecurity codec head = some (.ok none)) :
    (∃ host, head.header "host" = some host ∧ NamesLoopback host.toList) ∧
      ∀ origin, head.header "origin" = some origin → origin ≠ "" → NamesLoopbackOrigin origin := by
  unfold urlSecurity at hsecure
  cases hhost : (head.header "host").filter (fun host ↦ !host.isEmpty) with
  | none =>
    rw [hhost] at hsecure
    cases hsecure
  | some host =>
    rw [hhost] at hsecure
    obtain ⟨canonical, hcanonical, hsecure⟩ := bind_eq_some_iff.mp hsecure
    cases canonical with
    | error reason => cases hsecure
    | ok hostname =>
      simp only at hsecure
      split_ifs at hsecure with hallowed
      · cases hsecure
      · refine ⟨⟨host, (filter_eq_some_iff.mp hhost).1,
          canonicalHostname_spec hcanonical (by simpa using hallowed)⟩, fun origin horigin hne ↦ ?_⟩
        have hfilter : (head.header "origin").filter (fun origin ↦ !origin.isEmpty) =
            some origin :=
          filter_eq_some_iff.mpr ⟨horigin, by simpa using hne⟩
        rw [hfilter] at hsecure
        exact originSecurity_spec hsecure

/-! ### The token -/

/-- Bytes whose differences vanish together are the same. -/
theorem eq_of_foldl_xor {first second : List UInt8} (hlength : first.length = second.length)
    {different : UInt8}
    (hfold : (first.zip second).foldl (fun different pair ↦
      different ||| (pair.1 ^^^ pair.2)) different = 0) :
    different = 0 ∧ first = second := by
  induction first generalizing second different with
  | nil =>
    cases second with
    | nil => exact ⟨hfold, rfl⟩
    | cons b second => simp at hlength
  | cons a first ih =>
    cases second with
    | nil => simp at hlength
    | cons b second =>
      have hrest := ih (Nat.succ_inj.mp hlength) hfold
      obtain ⟨hor, rfl⟩ := hrest
      have hboth : different = 0 ∧ a ^^^ b = 0 := UInt8.or_eq_zero_iff.mp hor
      exact ⟨hboth.1, by rw [UInt8.xor_eq_zero_iff.mp hboth.2]⟩

theorem utf8_injective {first second : String}
    (hsame : Receipts.utf8 first = Receipts.utf8 second) :
    first = second :=
  String.toByteArray_inj.mp (ByteArray.ext (Array.toList_inj.mp hsame))

/-- The authorization that a configured token admits. -/
theorem authenticated_spec {token : Option String} {authorization : Option String}
    (hauthenticated : (Policy.new token).authenticated authorization = true) {secret : String}
    (hsecret : token = some secret) (hne : secret ≠ "") :
    authorization = some ("Bearer " ++ secret) := by
  have htoken : (Policy.new token).token = some (Receipts.utf8 secret) := by
    rw [hsecret, Policy.new, filter_some, if_pos (by simpa using hne)]
    rfl
  unfold Policy.authenticated at hauthenticated
  rw [htoken] at hauthenticated
  simp only at hauthenticated
  split_ifs at hauthenticated with hlength
  have hbytes := (eq_of_foldl_xor (not_not.mp hlength) (eq_of_beq hauthenticated)).2
  have hpresented := utf8_injective hbytes
  cases hfound : authorization.bind fun header ↦ stripFront "Bearer ".toList header.toList with
  | none =>
    rw [hfound] at hpresented
    exact absurd hpresented.symm hne
  | some rest =>
    rw [hfound] at hpresented
    obtain ⟨header, hheader, hstrip⟩ := bind_eq_some_iff.mp hfound
    have hlist := stripFront_eq_some hstrip
    rw [hheader, ← hpresented, getD_some]
    refine congrArg some (String.toList_injective ?_)
    simp only [hlist, String.toList_append, String.toList_ofList]

/-! ### Versions, methods and names -/

/-- The version that the envelope of a message names. -/
def envelopeVersion (message : Json) : Option Json :=
  (metadata message).bind fun fields ↦ fields.get versionKey

def methodOf (message : Json) : Option String :=
  (message.get "method").bind Json.asStr

/-- The headers of a modern request repeat its version, its method and the target that it names. -/
structure ModernRequest (codec : Codec) (head : RequestHead) (message : Json) (method : String) :
    Prop where
  version : head.header "mcp-protocol-version" = some modernVersion
  claim : envelopeVersion message = some (.string modernVersion)
  named : head.header "mcp-method" = some method
  target : ∀ field target, nameField method = some field →
    ((message.get "params").bind (fun params ↦ params.get field)).bind Json.asStr = some target →
      ∃ header, head.header "mcp-name" = some header ∧
        decodedName codec header = some (some target)

/-- The headers of a modern notification that are present repeat its version and its method, and one
of the head and the envelope names the version. -/
structure ModernNotification (head : RequestHead) (message : Json) (method : String) : Prop where
  version : ∀ header, head.header "mcp-protocol-version" = some header → header = modernVersion
  claim : ∀ claim, envelopeVersion message = some claim → claim = .string modernVersion
  either : head.header "mcp-protocol-version" ≠ none ∨ envelopeVersion message ≠ none
  named : ∀ header, head.header "mcp-method" = some header → header = method

/-- A legacy message has no envelope version, save in an initialization, and no other version header
than a legacy one, save at an initialization. -/
structure LegacyMessage (head : RequestHead) (message : Json) : Prop where
  batch : ∀ items, message.asArray = some items → ∀ item ∈ items, envelopeVersion item = none
  single : envelopeVersion message ≠ none → methodOf message = some "initialize"
  version : methodOf message ≠ some "initialize" →
    ∀ header, head.header "mcp-protocol-version" = some header → header ∈ legacyVersions

/-- What an exchange of either era promises. -/
structure Agrees (codec : Codec) (head : RequestHead) (exchange : Exchange) : Prop where
  modern : exchange.era = .modern → ∃ method, methodOf exchange.message = some method ∧
    ((exchange.message.get "id").isSome = true →
      ModernRequest codec head exchange.message method) ∧
    (exchange.message.get "id" = none → ModernNotification head exchange.message method)
  legacy : exchange.era = .legacy → LegacyMessage head exchange.message

/-- A name header that is not rejected repeats the target. -/
theorem nameHeaderRejection_eq_none {message : Json} {method field target : String}
    (haccepted : nameHeaderRejection codec head message method = some none)
    (hfield : nameField method = some field)
    (htarget : ((message.get "params").bind (fun params ↦ params.get field)).bind Json.asStr =
      some target) :
    ∃ header, head.header "mcp-name" = some header ∧
      decodedName codec header = some (some target) := by
  unfold nameHeaderRejection at haccepted
  rw [hfield] at haccepted
  simp only [htarget] at haccepted
  cases hheader : head.header "mcp-name" with
  | none =>
    rw [hheader] at haccepted
    cases haccepted
  | some header =>
    rw [hheader] at haccepted
    obtain ⟨decoded, hdecoded, haccepted⟩ := bind_eq_some_iff.mp haccepted
    cases decoded with
    | none => cases haccepted
    | some decoded =>
      simp only [any_some] at haccepted
      split_ifs at haccepted with hdiffers
      · cases haccepted
      · have hsame : target = decoded := by simpa using hdiffers
        exact ⟨header, rfl, hsame ▸ hdecoded⟩

/-- No message of a batch of the right shape names a version. -/
theorem envelopeVersion_of_shapeIssue {message : Json} (hshape : shapeIssue message = none)
    {items : List Json} (hitems : message.asArray = some items) :
    ∀ item ∈ items, envelopeVersion item = none := by
  intro item hitem
  unfold shapeIssue at hshape
  rw [hitems] at hshape
  simp only at hshape
  cases hfound : items.findSome? itemIssue with
  | some issue =>
    rw [hfound] at hshape
    simp only at hshape
    split_ifs at hshape
  | none =>
    have hissue := findSome?_eq_none_iff.mp hfound item hitem
    unfold itemIssue at hissue
    split_ifs at hissue with hclaimed
    unfold envelopeVersion
    cases hfields : metadata item with
    | none => rfl
    | some fields =>
      rw [hfields, any_some] at hclaimed
      have habsent : ¬ fields.get versionKey ≠ none := fun hget ↦
        hclaimed (Members.containsKey_iff.mpr (Members.mem_keys_iff.mpr hget))
      exact not_not.mp habsent

namespace Envelope

variable {codec : Codec} {head : RequestHead} {body : List UInt8} {envelope : Envelope}
  {exchange : Exchange}

/-- The headers of any message without mismatch. -/
theorem accepted_of_modernMismatch (hmismatch : envelope.modernMismatch codec head = none) :
    envelope.claimed = modernVersion ∧
      (∀ header, envelope.version = some header → envelope.claim.isSome = true →
        header = envelope.claimed) ∧
      ∀ header, head.header "mcp-method" = some header → some header = envelope.method := by
  simp only [modernMismatch] at hmismatch
  split at hmismatch
  · cases hmismatch
  · cases hmismatch
  · next hversion hmethod =>
    have hclaimed : envelope.claimed = modernVersion := by
      by_contra hother
      rw [if_pos hother] at hmismatch
      cases hmismatch
    refine ⟨hclaimed, fun header hheader hclaim ↦ ?_, fun header hheader ↦ ?_⟩
    · rw [hheader, hclaim] at hversion
      simpa using hversion
    · rw [hheader] at hmethod
      simpa using hmethod

/-- The claim of a message that is accepted is the modern version. -/
theorem claim_eq_modern (hissue : envelope.claimIssue = some none)
    (hclaimed : envelope.claimed = modernVersion) {claim : Json}
    (hclaim : envelope.claim = some claim) : claim = .string modernVersion := by
  unfold claimIssue at hissue
  rw [hclaim, isSome_some, if_pos rfl] at hissue
  obtain ⟨text, rfl⟩ := asStr_of_envelopeIssue hissue hclaim
  unfold claimed at hclaimed
  rw [hclaim] at hclaimed
  exact congrArg Json.string hclaimed

/-- A modern exchange agrees with its headers. -/
theorem agrees_of_modernAdmission (hversion : envelope.version = head.header "mcp-protocol-version")
    (hmodern : (envelope.claim.isSome || (envelope.notification && envelope.version.any modern)) =
      true)
    (hadmission : envelope.modernAdmission codec head body = some (.exchange exchange)) :
    Agrees codec head exchange := by
  obtain ⟨rfl, hissue, hmismatch, hname⟩ := accepted_of_modernAdmission hadmission
  obtain ⟨hclaimed, hsame, hmethod⟩ := accepted_of_modernMismatch hmismatch
  obtain ⟨method, hfound⟩ := isSome_iff_exists.mp
    (exchange_of_modernAdmission hmodern hadmission).2
  refine ⟨fun _ ↦ ⟨method, hfound, fun hrequest ↦ ?_, fun hnotification ↦ ?_⟩,
    fun hlegacy ↦ (nomatch hlegacy)⟩
  · have hnot : envelope.notification = false := by
      unfold notification
      rw [isNone_eq_false_iff.mpr hrequest, Bool.and_false]
    rw [hnot, Bool.false_and, Bool.or_false] at hmodern
    obtain ⟨-, hheader, hnamed, -⟩ := modernMismatch_eq_none hmodern hnot hmismatch
    obtain ⟨claim, hclaim⟩ := isSome_iff_exists.mp hmodern
    refine ⟨hversion ▸ hheader, ?_, hnamed.trans hfound, fun field target hfield htarget ↦ ?_⟩
    · rw [← claim_eq_modern hissue hclaimed hclaim]
      exact hclaim
    · unfold nameRejection at hname
      rw [hnot, if_neg Bool.false_ne_true, hfound, getD_some] at hname
      exact nameHeaderRejection_eq_none hname hfield htarget
  · refine ⟨fun header hheader ↦ ?_, fun claim hclaim ↦ claim_eq_modern hissue hclaimed hclaim,
      ?_, fun header hheader ↦ some.inj ((hmethod header hheader).trans hfound)⟩
    · rw [← hversion] at hheader
      cases hclaim : envelope.claim with
      | some claim => rw [hsame header hheader (by rw [hclaim]; rfl), hclaimed]
      | none =>
        unfold claimed at hclaimed
        rw [hclaim, hheader] at hclaimed
        exact hclaimed
    · rcases Bool.or_eq_true_iff.mp hmodern with hclaim | hheader
      · exact Or.inr (isSome_iff_ne_none.mp hclaim)
      · refine Or.inl fun habsent ↦ ?_
        rw [hversion, habsent] at hheader
        simp at hheader

/-- A legacy exchange that is not an initialization has a legacy version header or none. -/
theorem version_of_legacyAdmission
    (hadmission : envelope.legacyAdmission codec head body = some (.exchange exchange)) :
    exchange.message = envelope.message ∧ exchange.era = .legacy ∧
      exchange.originalBody = body ∧
      (envelope.method ≠ some "initialize" →
        ∀ header, envelope.version = some header → header ∈ legacyVersions) := by
  unfold legacyAdmission at hadmission
  simp only at hadmission
  split_ifs at hadmission with haccept hother
  · cases hadmission
  · obtain ⟨version, -, hadmission⟩ := bind_eq_some_iff.mp hadmission
    cases hadmission
  · cases hadmission
    refine ⟨rfl, rfl, rfl, fun hmethod header hheader ↦ ?_⟩
    have hknown := fun hunknown ↦ hother ⟨hmethod, hunknown⟩
    rw [hheader, any_some] at hknown
    simpa using hknown

/-- The classification of a message whose shape is right agrees with the headers. -/
theorem agrees_of_classify (hversion : envelope.version = head.header "mcp-protocol-version")
    (hshape : shapeIssue envelope.message = none)
    (hadmission : envelope.classify codec head body = some (.exchange exchange)) :
    exchange.message = envelope.message ∧ exchange.originalBody = body ∧
      Agrees codec head exchange := by
  have hbatch := fun items hitems ↦ @envelopeVersion_of_shapeIssue _ hshape items hitems
  unfold classify at hadmission
  obtain ⟨modernInitialize, hinitialize, hadmission⟩ := bind_eq_some_iff.mp hadmission
  split_ifs at hadmission with hlegacy hheader hmodern hmissing
  · obtain ⟨version, -, hadmission⟩ := bind_eq_some_iff.mp hadmission
    cases hadmission
  · obtain ⟨hmessage, hera, hbody, hother⟩ := version_of_legacyAdmission hadmission
    refine ⟨hmessage, hbody, fun h ↦ ?_, fun _ ↦ ?_⟩
    · rw [hera] at h
      cases h
    · rw [hmessage]
      exact ⟨hbatch, fun _ ↦ hlegacy.1, fun hmethod ↦ absurd hlegacy.1 hmethod⟩
  · have hexchange := (accepted_of_modernAdmission hadmission).1
    exact ⟨by rw [hexchange], by rw [hexchange],
      agrees_of_modernAdmission hversion hmodern hadmission⟩
  · unfold missingEnvelope at hadmission
    obtain ⟨missing, -, hadmission⟩ := bind_eq_some_iff.mp hadmission
    obtain ⟨version, -, hadmission⟩ := bind_eq_some_iff.mp hadmission
    cases hadmission
  · obtain ⟨hmessage, hera, hbody, hknown⟩ := version_of_legacyAdmission hadmission
    refine ⟨hmessage, hbody, fun h ↦ ?_, fun _ ↦ ?_⟩
    · rw [hera] at h
      cases h
    · rw [hmessage]
      refine ⟨hbatch, fun hclaim ↦ absurd ?_ hmodern, fun hmethod header hheader ↦ ?_⟩
      · have hsome : envelope.claim.isSome = true := isSome_iff_ne_none.mpr hclaim
        rw [hsome, Bool.true_or]
      · exact hknown hmethod header (hversion.trans hheader)

end Envelope

/-! ### Admitted exchanges -/

/-- What a head that passes has. -/
theorem headIssue_eq_none (hissue : headIssue codec head policy = none) :
    policy.authenticated (head.header "authorization") = true ∧
      Text.eqIgnoreAsciiCase head.method.toList "POST".toList = true := by
  unfold headIssue at hissue
  split_ifs at hissue with hauthenticated hmethod
  exact ⟨by simpa using hauthenticated, by simpa using hmethod⟩

/-- No two headers share a name. -/
theorem distinct_of_duplicateHeader {headers : List (String × String)}
    (hduplicate : duplicateHeader headers = some false) :
    headers.Pairwise (fun first second ↦
      Text.eqIgnoreAsciiCase second.1.toList first.1.toList = false) := by
  rw [pairwise_iff_getElem]
  intro i j hi hj hlt
  have hanswer := anyM_eq_some_false hduplicate j (mem_range.mpr hj)
  rw [getElem?_eq_getElem hj, headersBefore, if_pos (Nat.le_of_lt hj)] at hanswer
  simp only [Option.bind_eq_bind, Option.bind_some, Option.pure_def, Option.some.injEq,
    List.any_eq_false] at hanswer
  have hmem : headers[i] ∈ headers.take j :=
    List.mem_take_iff_getElem.mpr ⟨i, by omega, rfl⟩
  exact Bool.eq_false_iff.mpr (hanswer headers[i] hmem)

theorem preflight_spec (hpreflight : preflight codec head policy = some (.ok ())) :
    duplicateHeader head.headers = some false ∧ urlSecurity codec head = some (.ok none) ∧
      headIssue codec head policy = none := by
  unfold preflight at hpreflight
  split_ifs at hpreflight
  · cases hpreflight
  · cases hpreflight
  · cases hpreflight
  obtain ⟨duplicate, hduplicate, hpreflight⟩ := bind_eq_some_iff.mp hpreflight
  split_ifs at hpreflight with hshared
  · cases hpreflight
  · rw [Bool.eq_false_iff.mpr hshared] at hduplicate
    obtain ⟨security, hsecurity, hpreflight⟩ := bind_eq_some_iff.mp hpreflight
    match security with
    | .error reason => cases hpreflight
    | .ok (some reply) => cases hpreflight
    | .ok none =>
      refine ⟨hduplicate, hsecurity, ?_⟩
      cases hissue : headIssue codec head policy with
      | none => rfl
      | some refusal =>
        rw [hissue] at hpreflight
        cases hpreflight

/-- An admitted exchange passed the preflight with a body that is read as its message. -/
theorem admitRequest_spec {body : List UInt8} {exchange : Exchange}
    (hadmission : admitRequest codec head body policy = some (.exchange exchange)) :
    preflight codec head policy = some (.ok ()) ∧ body.length ≤ maxBodyBytes ∧
      ∃ message, codec.parse body = .ok message ∧ shapeIssue message = none ∧
        Envelope.classify codec head body ⟨message, head.header "mcp-protocol-version"⟩ =
          some (.exchange exchange) := by
  unfold admitRequest at hadmission
  obtain ⟨preflighted, hpreflight, hadmission⟩ := bind_eq_some_iff.mp hadmission
  match preflighted with
  | .error (.reply response) => cases hadmission
  | .error (.unqualified reason) => cases hadmission
  | .ok () =>
    simp only at hadmission
    split_ifs at hadmission with hsize
    · cases hadmission
    · refine ⟨hpreflight, Nat.le_of_not_lt hsize, ?_⟩
      cases hparse : codec.parse body with
      | error issue =>
        rw [hparse] at hadmission
        cases issue with
        | recursionLimit => cases hadmission
        | other => cases hadmission
      | ok message =>
        rw [hparse] at hadmission
        simp only at hadmission
        cases hshape : shapeIssue message with
        | some issue =>
          rw [hshape] at hadmission
          cases hadmission
        | none =>
          rw [hshape] at hadmission
          exact ⟨message, rfl, hshape, hadmission⟩

/-- The head of a call whose method is in lower case. -/
def lowerHead : RequestHead where
  method := "post"
  target := "/mcp"
  headers := [("Host", "localhost:8080"), ("Origin", "http://127.0.0.1"),
    ("Authorization", "Bearer secret"), ("Content-Type", "application/json"),
    ("MCP-Protocol-Version", "2026-07-28"), ("Mcp-Method", "tools/call"),
    ("Mcp-Name", "obs-observe")]

/-- The exchange of this call. -/
def callExchange : Exchange := ⟨callBody, callMessage, .modern, .json, none⟩

theorem admitRequest_lowerHead :
    admitRequest callCodec lowerHead callBody (Policy.new (some "secret")) =
      some (.exchange callExchange) := by
  have hpreflight : preflight callCodec lowerHead (Policy.new (some "secret")) =
      some (.ok ()) := by
    rfl
  unfold admitRequest
  rw [hpreflight]
  simp only [Option.bind_eq_bind, Option.bind_some]
  rw [if_neg (by decide +kernel), parse_callBody]
  rfl

end ObsMcp.Http
