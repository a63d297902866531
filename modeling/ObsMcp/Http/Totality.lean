import ObsMcp.Http.Exchange

/-!
# An admission returns

Where the slices, indexings and unwraps of the HTTP admission are in range. The head is read without
a panic (`preflight_returns`), an admitted exchange is split without one (`intoItems_returns`), and
every item has the method that the protocol session expects (`Qualified`). The name header is the
exception: a header that is the overlap of the two base64 marks starts with the first and ends with
the second and has no place for a body between them (`sentinelBody_eq_none_iff`).
`admission_returns_iff` says that the admission returns on every request that does not come to the
check of such a header, and `overlapping_marks_panic` is one that does.
-/

namespace ObsMcp.Http

open Foundations List Option

/-! ### The head -/

theorem hostAndPort_returns (authority : List Char) : Returns (hostAndPort authority) := by
  unfold hostAndPort
  split_ifs
  · cases hfound : Text.findBytes [']'] authority with
    | none => exact returns_some _
    | some found =>
      obtain ⟨before, after, rfl, rfl⟩ := Text.findBytes_eq_some hfound
      have hend : Text.size before + 1 = Text.size (before ++ [']']) := by
        rw [Text.size_append]
        rfl
      simp only [hend, Text.dropBytes_append, Text.takeBytes_append, bind_eq_bind,
        bind_some]
      split_ifs
      · exact returns_some _
      · cases stripFront [':'] after with
        | none => exact returns_some _
        | some port => exact returns_some _
  · cases Text.splitOnce [':'] authority with
    | none => exact returns_some _
    | some parts => exact returns_some _

theorem canonicalHostname_returns (authority : List Char) :
    Returns (canonicalHostname authority) := by
  unfold canonicalHostname
  split_ifs
  · exact returns_some _
  · refine returns_bind (hostAndPort_returns authority) fun result _ ↦ ?_
    cases result with
    | error reason => exact returns_some _
    | ok parts =>
      simp only
      split_ifs
      · exact returns_some _
      · exact returns_some _
      · exact returns_some _

theorem originSecurity_returns (codec : Codec) (origin : String) :
    Returns (originSecurity codec origin) := by
  unfold originSecurity
  cases Text.splitOnce "://".toList origin.toList with
  | none => exact returns_some _
  | some parts =>
    simp only
    split_ifs
    · exact returns_some _
    · refine returns_bind (canonicalHostname_returns _) fun result _ ↦ ?_
      cases result with
      | error reason => exact returns_some _
      | ok hostname =>
        simp only
        split_ifs
        · exact returns_some _
        · exact returns_some _

theorem urlSecurity_returns (codec : Codec) (head : RequestHead) :
    Returns (urlSecurity codec head) := by
  unfold urlSecurity
  cases (head.header "host").filter (fun host ↦ !host.isEmpty) with
  | none => exact returns_some _
  | some host =>
    refine returns_bind (canonicalHostname_returns _) fun result _ ↦ ?_
    cases result with
    | error reason => exact returns_some _
    | ok hostname =>
      simp only
      split_ifs
      · exact returns_some _
      · cases (head.header "origin").filter (fun origin ↦ !origin.isEmpty) with
        | none => exact returns_some _
        | some origin => exact originSecurity_returns codec origin

theorem duplicateHeader_returns (headers : List (String × String)) :
    Returns (duplicateHeader headers) := by
  refine returns_anyM fun index hindex ↦ ?_
  have hlt : index < headers.length := mem_range.mp hindex
  rw [getElem?_eq_getElem hlt, headersBefore, if_pos (Nat.le_of_lt hlt)]
  exact returns_some _

theorem preflight_returns (codec : Codec) (head : RequestHead) (policy : Policy) :
    Returns (preflight codec head policy) := by
  unfold preflight
  split_ifs
  · exact returns_some _
  · exact returns_some _
  · exact returns_some _
  · refine returns_bind (duplicateHeader_returns _) fun duplicate _ ↦ ?_
    cases duplicate with
    | true => exact returns_some _
    | false =>
      refine returns_bind (urlSecurity_returns codec head) fun result _ ↦ ?_
      cases result with
      | error reason => exact returns_some _
      | ok reply =>
        cases reply with
        | some reply => exact returns_some _
        | none =>
          simp only
          cases headIssue codec head policy with
          | some refusal => exact returns_some _
          | none => exact returns_some _

/-! ### The metadata -/

theorem returns_get {fields : Members} {key : String} (hkey : fields.containsKey key = true) :
    Returns (fields.get key) := by
  have hpresent := Members.mem_keys_iff.mp (Members.containsKey_iff.mp hkey)
  obtain ⟨value, hvalue⟩ := ne_none_iff_exists'.mp hpresent
  exact ⟨value, hvalue⟩

theorem envelopeIssue_returns (message : Json) (notification : Bool) :
    Returns (envelopeIssue message notification) := by
  unfold envelopeIssue
  cases metadata message with
  | none => exact returns_some _
  | some fields =>
    simp only
    cases hmissing : (if notification then [versionKey] else [versionKey, capabilitiesKey]).find?
        (fun key ↦ !fields.containsKey key) with
    | some key => exact returns_some _
    | none =>
      have hkeys : ∀ key ∈ (if notification then [versionKey] else [versionKey, capabilitiesKey]),
          fields.containsKey key = true := by
        simpa using find?_eq_none.mp hmissing
      refine returns_bind (returns_get (hkeys versionKey (by split_ifs <;> simp)))
        fun version _ ↦ ?_
      by_cases hversion : (!version.isString) = true
      · rw [if_pos hversion]
        exact returns_some _
      · rw [if_neg hversion]
        cases notification with
        | true => exact returns_some _
        | false =>
          rw [if_neg Bool.false_ne_true]
          refine returns_bind (returns_get (hkeys capabilitiesKey (by simp))) fun offers _ ↦ ?_
          split_ifs
          · exact returns_some _
          · exact returns_some _
          · exact returns_some _

/-! ### The marks of a name -/

/-- The overlap of the two base64 marks. -/
def overlap : String := "=?base64?="

/-- A text with both marks has them side by side or is their overlap. -/
theorem marks_cases {text : List Char} (hfront : "=?base64?".toList <+: text)
    (hback : "?=".toList <:+ text) :
    text = overlap.toList ∨ ∃ body, text = "=?base64?".toList ++ body ++ "?=".toList := by
  obtain ⟨rest, rfl⟩ := hfront
  have hreversed := reverse_prefix.mpr hback
  match rest with
  | [] => exact absurd hreversed (by decide)
  | [c] =>
    have hlast : ['=', '?'] <+: c :: "?46esab?=".toList := hreversed
    rw [← (cons_prefix_cons.mp hlast).1]
    exact .inl (by decide)
  | c :: d :: rest =>
    have hrest : "?=".toList <:+ c :: d :: rest :=
      suffix_of_suffix_length_le hback (suffix_append _ _) (by simp)
    obtain ⟨body, hbody⟩ := hrest
    exact .inr ⟨body, by rw [append_assoc, hbody]⟩

/-- A marked header has a body between its marks, unless the marks overlap. -/
theorem sentinelBody_eq_none_iff {header : String} (hsentinel : sentinel header = true) :
    sentinelBody header = none ↔ header = overlap := by
  simp only [sentinel, Bool.and_eq_true, isPrefixOf_iff_prefix,
    isSuffixOf_iff_suffix] at hsentinel
  constructor
  · intro hnone
    rcases marks_cases hsentinel.1 hsentinel.2 with hoverlap | ⟨body, hbody⟩
    · exact String.toList_injective hoverlap
    · have hslice := Text.slice_append "=?base64?".toList body "?=".toList
      rw [← hbody] at hslice
      have hsize : Text.size header.toList - 2 =
          Text.size "=?base64?".toList + Text.size body := by
        rw [hbody, Text.size_append, Text.size_append]
        rfl
      rw [sentinelBody, hsize] at hnone
      rw [show (9 : ℕ) = Text.size "=?base64?".toList from rfl, hslice] at hnone
      cases hnone
  · rintro rfl
    decide

theorem decodedName_returns_iff (codec : Codec) (header : String) :
    Returns (decodedName codec header) ↔ header ≠ overlap := by
  unfold decodedName
  split_ifs with hsentinel
  · constructor
    · rintro hreturns rfl
      rw [(sentinelBody_eq_none_iff hsentinel).mpr rfl] at hreturns
      exact not_returns_none hreturns
    · intro hother
      have hbody := mt (sentinelBody_eq_none_iff hsentinel).mp hother
      obtain ⟨body, hbody⟩ := ne_none_iff_exists'.mp hbody
      rw [hbody]
      exact returns_some _
  · refine ⟨fun _ hoverlap ↦ ?_, fun _ ↦ returns_some _⟩
    rw [hoverlap] at hsentinel
    exact hsentinel (by decide)

theorem nameHeaderRejection_returns_iff (codec : Codec) (head : RequestHead) (message : Json)
    (method : String) :
    Returns (nameHeaderRejection codec head message method) ↔
      ¬ (nameField method ≠ none ∧ head.header "mcp-name" = some overlap) := by
  unfold nameHeaderRejection
  cases nameField method with
  | none => simp [returns_some]
  | some field =>
    cases head.header "mcp-name" with
    | none => simp [returns_some]
    | some header =>
      have hsame : ¬ (some field ≠ none ∧ some header = some overlap) ↔ header ≠ overlap := by
        simp
      rw [hsame, ← decodedName_returns_iff codec header]
      constructor
      · exact returns_of_bind
      · intro hreturns
        refine returns_bind hreturns fun decoded _ ↦ ?_
        cases decoded with
        | none => exact returns_some _
        | some decoded =>
          simp only
          split_ifs with hother
          · refine returns_bind (returns_of_any hother) fun body _ ↦ ?_
            exact returns_some _
          · exact returns_some _

/-! ### The eras -/

namespace Envelope

variable (codec : Codec) (head : RequestHead) (body : List UInt8) (envelope : Envelope)

theorem legacyAdmission_returns : Returns (envelope.legacyAdmission codec head body) := by
  unfold legacyAdmission
  simp only
  split_ifs with haccept hversion
  · exact returns_some _
  · refine returns_bind (returns_of_any hversion.2) fun version _ ↦ ?_
    exact returns_some _
  · exact returns_some _

theorem missingKeys_returns (message : Json) : Returns (missingKeys message) := by
  unfold missingKeys
  cases metadata message with
  | none => exact returns_some _
  | some fields => exact returns_some _

theorem missingEnvelope_returns (hversion : envelope.version.any modern = true) :
    Returns (envelope.missingEnvelope codec) := by
  refine returns_bind (missingKeys_returns _) fun missing _ ↦ ?_
  refine returns_bind (returns_of_any hversion) fun version _ ↦ ?_
  exact returns_some _

theorem modernInitialize_returns : Returns envelope.modernInitialize := by
  unfold modernInitialize
  split_ifs
  · obtain ⟨issue, hissue⟩ := envelopeIssue_returns envelope.message false
    rw [hissue]
    exact returns_some _
  · exact returns_some _

theorem claimIssue_returns : Returns envelope.claimIssue := by
  unfold claimIssue
  split_ifs
  · exact envelopeIssue_returns _ _
  · exact returns_some _

/-- A modern admission panics only at the name of a request that passed all checks before. -/
theorem modernAdmission_returns_iff :
    Returns (envelope.modernAdmission codec head body) ↔
      ¬ (envelope.claimIssue = some none ∧ envelope.modernMismatch codec head = none ∧
        ¬ Returns (envelope.nameRejection codec head)) := by
  unfold modernAdmission
  obtain ⟨issue, hissue⟩ := envelope.claimIssue_returns
  rw [hissue]
  cases issue with
  | some issue =>
    refine ⟨fun _ h ↦ by simp at h, fun _ ↦ ?_⟩
    simp only [bind_eq_bind, bind_some]
    split_ifs
    · exact returns_some _
    · exact returns_some _
  | none =>
    simp only [bind_eq_bind, bind_some]
    cases envelope.modernMismatch codec head with
    | some refusal => simp [returns_some]
    | none =>
      cases envelope.nameRejection codec head with
      | none => simp [not_returns_none]
      | some rejection =>
        refine ⟨fun _ h ↦ h.2.2 (returns_some _), fun _ ↦ ?_⟩
        cases rejection with
        | some refusal => exact returns_some _
        | none => exact returns_some _

/-- A request of a method with a name that passes every check before the name header, and whose name
header is the overlap of the marks. -/
structure NamesOverlap (method : String) : Prop where
  named : envelope.method = some method
  field : nameField method ≠ none
  request : (envelope.message.get "id").isNone = false
  claim : envelope.claim = some (.string modernVersion)
  issue : envelopeIssue envelope.message false = some none
  version : envelope.version = some modernVersion
  methodHeader : head.header "mcp-method" = some method
  name : head.header "mcp-name" = some overlap

variable {codec head body envelope}

/-- The claim of a message without issue is a text. -/
theorem asStr_of_envelopeIssue {notification : Bool} {claim : Json}
    (hissue : envelopeIssue envelope.message notification = some none)
    (hclaim : envelope.claim = some claim) : ∃ text, claim = .string text := by
  obtain ⟨fields, hfields, hget⟩ := bind_eq_some_iff.mp hclaim
  unfold envelopeIssue at hissue
  rw [hfields] at hissue
  simp only at hissue
  split at hissue
  · simp at hissue
  · rw [hget] at hissue
    simp only [bind_eq_bind, bind_some] at hissue
    cases claim with
    | string text => exact ⟨text, rfl⟩
    | _ => simp [Json.isString, Json.asStr] at hissue

/-- What the headers of a request without mismatch are. -/
theorem modernMismatch_eq_none (hclaim : envelope.claim.isSome = true)
    (hrequest : envelope.notification = false)
    (hmismatch : envelope.modernMismatch codec head = none) :
    envelope.claimed = modernVersion ∧ envelope.version = some modernVersion ∧
      head.header "mcp-method" = envelope.method ∧ envelope.method.isSome = true := by
  simp only [modernMismatch] at hmismatch
  split at hmismatch
  · cases hmismatch
  · cases hmismatch
  · next hversion hmethod =>
    rw [hrequest] at hmismatch
    simp only [Bool.false_eq_true, if_false] at hmismatch
    split_ifs at hmismatch with hclaimed habsent hmissing
    · simp only [ne_eq, not_not] at hclaimed
      obtain ⟨version, hfound⟩ := ne_none_iff_exists'.mp
        (mt isNone_iff_eq_none.mpr habsent)
      obtain ⟨header, hheader⟩ := ne_none_iff_exists'.mp
        (mt isNone_iff_eq_none.mpr hmissing)
      rw [hfound, hclaim, hclaimed] at hversion
      rw [hheader] at hmethod
      have hsame : version = modernVersion := by simpa using hversion
      have hnamed : some header = envelope.method := by simpa using hmethod
      rw [hfound, hheader, hsame, ← hnamed]
      exact ⟨hclaimed, rfl, rfl, rfl⟩

theorem modernMismatch_of_overlap {method : String} (hoverlap : envelope.NamesOverlap head method) :
    envelope.modernMismatch codec head = none := by
  have hrequest : envelope.notification = false := by
    simp [notification, hoverlap.request]
  have hversion : Option.filter (fun header ↦ header != modernVersion) (some modernVersion) =
      none := by
    rw [filter_some, if_neg (by simp)]
  have hmethod : Option.filter (fun header ↦ some header != some method) (some method) =
      none := by
    rw [filter_some, if_neg (by simp)]
  simp [modernMismatch, claimed, hoverlap.claim, hoverlap.version, hoverlap.named,
    hoverlap.methodHeader, hrequest, Json.asStr, hversion, hmethod]

/-- Classifying a message panics exactly at an overlap of the marks. -/
theorem classify_returns_iff :
    Returns (envelope.classify codec head body) ↔
      ¬ ∃ method, envelope.NamesOverlap head method := by
  constructor
  · rintro hreturns ⟨method, hoverlap⟩
    have hrequest : envelope.notification = false := by
      simp [notification, hoverlap.request]
    have hinitialize : envelope.method ≠ some "initialize" := by
      rw [hoverlap.named]
      intro hsame
      rw [some.inj hsame] at hoverlap
      exact hoverlap.field rfl
    have hmodern : envelope.modernInitialize = some false := by
      simp [modernInitialize, hinitialize]
    have hadmission : Returns (envelope.modernAdmission codec head body) := by
      simpa [classify, hmodern, hinitialize, hoverlap.claim] using hreturns
    refine (envelope.modernAdmission_returns_iff codec head body).mp hadmission ⟨?_, ?_, ?_⟩
    · simp [claimIssue, hoverlap.claim, hrequest, hoverlap.issue]
    · exact modernMismatch_of_overlap hoverlap
    · rw [nameRejection, hrequest, hoverlap.named]
      intro hname
      exact (nameHeaderRejection_returns_iff codec head _ _).mp hname
        ⟨hoverlap.field, hoverlap.name⟩
  · intro hnone
    refine returns_bind envelope.modernInitialize_returns fun modernInitialize _ ↦ ?_
    split_ifs with hlegacy hversion hmodern hmissing
    · exact returns_bind (returns_of_any hversion) fun version _ ↦ returns_some _
    · exact envelope.legacyAdmission_returns codec head body
    · refine (envelope.modernAdmission_returns_iff codec head body).mpr ?_
      rintro ⟨hissue, hmismatch, hname⟩
      have hrequest : envelope.notification = false := by
        by_contra hnotification
        rw [Bool.not_eq_false] at hnotification
        rw [nameRejection, if_pos hnotification] at hname
        exact hname (returns_some _)
      have hclaim : envelope.claim.isSome = true := by
        simpa [hrequest] using hmodern
      obtain ⟨hclaimed, hversion, hheader, hmethod⟩ :=
        modernMismatch_eq_none hclaim hrequest hmismatch
      obtain ⟨method, hmethod⟩ := isSome_iff_exists.mp hmethod
      obtain ⟨claim, hfound⟩ := isSome_iff_exists.mp hclaim
      rw [claimIssue, if_pos hclaim, hrequest] at hissue
      obtain ⟨text, rfl⟩ := asStr_of_envelopeIssue hissue hfound
      have htext : text = modernVersion := by
        simpa [claimed, hfound, Json.asStr] using hclaimed
      rw [nameRejection, hrequest, hmethod] at hname
      have hoverlap := not_not.mp
        (mt (nameHeaderRejection_returns_iff codec head _ _).mpr hname)
      refine hnone ⟨method, hmethod, hoverlap.1, ?_, ?_, hissue, hversion, ?_, hoverlap.2⟩
      · simpa [notification, hmethod] using hrequest
      · rw [hfound, htext]
      · rw [hheader, hmethod]
    · exact envelope.missingEnvelope_returns codec (by simp_all)
    · exact envelope.legacyAdmission_returns codec head body

end Envelope

/-! ### Items of an exchange -/

/-- An exchange that the protocol session answers: one that expects no answer, or one with a
method. -/
def Qualified (exchange : Exchange) : Prop :=
  exchange.mode = .empty ∨ (exchange.message.index "method").asStr.isSome = true

variable {exchange : Exchange} {codec : Codec} {head : RequestHead}

theorem admitHttp_returns (hqualified : Qualified exchange) (host : Protocol.Host)
    (confirmation : Bool) : Returns (admitHttp host exchange confirmation) := by
  unfold admitHttp
  simp only
  split_ifs with hempty
  · exact returns_some _
  · cases Protocol.requestId exchange.message with
    | none => exact returns_some _
    | some id => exact returns_some _
  · cases Protocol.requestId exchange.message with
    | none => exact returns_some _
    | some id => exact returns_some _
  · cases Protocol.requestId exchange.message with
    | none => exact returns_some _
    | some id =>
      obtain ⟨method, hmethod⟩ := isSome_iff_exists.mp (hqualified.resolve_left hempty)
      simp only [Protocol.Session.admitReady, hmethod, map_some]
      exact returns_some _

/-- The method of a value, read in the two ways of the source. -/
theorem index_method (message : Json) :
    (message.index "method").asStr = (message.get "method").bind Json.asStr := by
  cases hget : message.get "method" with
  | none => simp [Json.index, hget, Json.asStr]
  | some value => simp [Json.index, hget]

variable {message : Json} {body : List UInt8}

/-- A message without a method is a result or an error. -/
theorem answer_of_messageShape (hshape : messageShape message = true)
    (hmethod : (message.index "method").asStr.isSome = false) :
    (message.get "result").isSome = true ∨ (message.get "error").isSome = true := by
  have hno : (message.get "method").any Json.isString = false := by
    rw [index_method] at hmethod
    cases hget : message.get "method" with
    | none => rfl
    | some value => simpa [hget, Json.isString] using hmethod
  unfold messageShape at hshape
  split_ifs at hshape with _ hstring
  · rw [hno] at hstring
    cases hstring
  · simp only [Bool.and_eq_true, Bool.or_eq_true] at hshape
    rcases hshape.2 with hresult | herror
    · left
      exact isSome_of_any hresult
    · right
      exact isSome_of_any herror

theorem qualified_item (hshape : messageShape exchange.message = true)
    (hmode : exchange.mode = itemMode exchange.message) : Qualified exchange := by
  by_cases hmethod : (exchange.message.index "method").asStr.isSome = true
  · exact .inr hmethod
  · refine .inl ?_
    rw [hmode, itemMode, if_pos]
    rcases answer_of_messageShape hshape (by simpa using hmethod) with hresult | herror
    · simp [hresult]
    · simp [herror]

section Spans

variable {codec : Codec} {exchange : Exchange} {bytes : List UInt8} {index offset next : ℕ}

theorem skip_le (hoffset : offset ≤ bytes.length) : skip bytes offset ≤ bytes.length := by
  have hlength := (takeWhile_sublist asciiWhitespace (l := bytes.drop offset)).length_le
  rw [length_drop] at hlength
  unfold skip
  omega

theorem afterComma_le (hoffset : offset ≤ bytes.length)
    (hnext : afterComma bytes index offset = .ok next) : next ≤ bytes.length := by
  unfold afterComma at hnext
  simp only at hnext
  split_ifs at hnext with hfirst hcomma
  · cases hnext
    exact skip_le hoffset
  · cases hnext
    obtain ⟨hlt, -⟩ := List.getElem?_eq_some_iff.mp (not_not.mp hcomma)
    exact skip_le hlt

theorem itemSpan_returns (hoffset : offset ≤ bytes.length) :
    Returns (itemSpan codec bytes offset) := by
  unfold itemSpan
  rw [sliceFrom, if_pos hoffset]
  simp only [bind_eq_bind, bind_some]
  split
  · split
    · exact returns_some _
    · split_ifs
      · exact returns_some _
      · exact returns_some _
  · exact returns_some _

theorem itemSpan_le {body : List UInt8}
    (hspan : itemSpan codec bytes offset = some (.ok (body, next))) : next ≤ bytes.length := by
  unfold itemSpan at hspan
  obtain ⟨rest, -, hspan⟩ := bind_eq_some_iff.mp hspan
  split at hspan
  · split at hspan
    · cases hspan
    · split_ifs at hspan with hstop
      · obtain ⟨-, rfl⟩ := Prod.mk.inj (Except.ok.inj (some.inj hspan))
        exact hstop
      · cases hspan
  · cases hspan

/-- The items of a batch are split without a panic, and each is a message of the batch. -/
theorem splitItems_returns (messages : List Json) (index : ℕ)
    (hoffset : offset ≤ exchange.originalBody.length) :
    ∃ result, splitItems codec exchange messages index offset = some result ∧
      ∀ items stop, result = .ok (items, stop) →
        ∀ item ∈ items, item.message ∈ messages ∧ item.mode = itemMode item.message := by
  induction messages generalizing index offset with
  | nil => exact ⟨_, rfl, by rintro items stop ⟨⟩; simp⟩
  | cons message messages ih =>
    rw [splitItems]
    cases hcomma : afterComma exchange.originalBody index offset with
    | error reason => exact ⟨_, rfl, by rintro items stop ⟨⟩⟩
    | ok next =>
      have hnext := afterComma_le hoffset hcomma
      obtain ⟨span, hspan⟩ := @itemSpan_returns codec _ _ hnext
      simp only [hspan, bind_eq_bind, bind_some]
      cases span with
      | error reason => exact ⟨_, rfl, by rintro items stop ⟨⟩⟩
      | ok span =>
        obtain ⟨rest, hrest, hitems⟩ := ih (index + 1) (itemSpan_le hspan)
        simp only [hrest, bind_some]
        cases rest with
        | error reason => exact ⟨_, rfl, by rintro items stop ⟨⟩⟩
        | ok rest =>
          refine ⟨_, rfl, ?_⟩
          rintro items stop ⟨⟩ item hitem
          rcases mem_cons.mp hitem with rfl | hitem
          · exact ⟨mem_cons_self, rfl⟩
          · obtain ⟨hmem, hmode⟩ := hitems rest.1 rest.2 rfl item hitem
            exact ⟨mem_cons_of_mem _ hmem, hmode⟩

end Spans

/-! ### Admitted exchanges -/

/-- The refusals of the name header are replies. -/
theorem nameHeaderRejection_reply {method : String} {refusal : Admission}
    (hrefusal : nameHeaderRejection codec head message method = some (some refusal)) :
    ∃ response, refusal = .reply response := by
  unfold nameHeaderRejection at hrefusal
  split at hrefusal
  · cases hrefusal
  · simp only at hrefusal
    split at hrefusal
    · obtain ⟨name, -, rfl⟩ := map_eq_some_iff.mp (some.inj hrefusal)
      exact ⟨_, rfl⟩
    · obtain ⟨decoded, -, hrefusal⟩ := bind_eq_some_iff.mp hrefusal
      split at hrefusal
      · cases hrefusal
        exact ⟨_, rfl⟩
      · split_ifs at hrefusal
        · obtain ⟨name, -, hrefusal⟩ := bind_eq_some_iff.mp hrefusal
          cases hrefusal
          exact ⟨_, rfl⟩
        · cases hrefusal

namespace Envelope

variable {codec : Codec} {head : RequestHead} {body : List UInt8} {envelope : Envelope}
  {exchange : Exchange}

theorem modernMismatch_reply {refusal : Admission}
    (hrefusal : envelope.modernMismatch codec head = some refusal) :
    ∃ response, refusal = .reply response := by
  simp only [modernMismatch] at hrefusal
  split at hrefusal
  · cases hrefusal
    exact ⟨_, rfl⟩
  · cases hrefusal
    exact ⟨_, rfl⟩
  · split_ifs at hrefusal
    · cases hrefusal
      exact ⟨_, rfl⟩
    · cases hrefusal
      exact ⟨_, rfl⟩
    · cases hrefusal
      exact ⟨_, rfl⟩

theorem exchange_of_legacyAdmission
    (hadmission : envelope.legacyAdmission codec head body = some (.exchange exchange)) :
    exchange.message = envelope.message ∧ exchange.mode = envelope.legacyMode := by
  unfold legacyAdmission at hadmission
  simp only at hadmission
  split_ifs at hadmission
  · cases hadmission
  · obtain ⟨version, -, hadmission⟩ := bind_eq_some_iff.mp hadmission
    cases hadmission
  · cases hadmission
    exact ⟨rfl, rfl⟩

/-- The parts of a modern admission that answers an exchange. -/
theorem accepted_of_modernAdmission
    (hadmission : envelope.modernAdmission codec head body = some (.exchange exchange)) :
    exchange = ⟨body, envelope.message, .modern, envelope.modernMode, none⟩ ∧
      envelope.claimIssue = some none ∧ envelope.modernMismatch codec head = none ∧
      envelope.nameRejection codec head = some none := by
  unfold modernAdmission at hadmission
  obtain ⟨issue, hissue, hadmission⟩ := bind_eq_some_iff.mp hadmission
  cases issue with
  | some issue =>
    simp only at hadmission
    split_ifs at hadmission
    · cases hadmission
    · cases hadmission
  | none =>
    simp only at hadmission
    cases hmismatch : envelope.modernMismatch codec head with
    | some refusal =>
      obtain ⟨response, rfl⟩ := modernMismatch_reply hmismatch
      rw [hmismatch] at hadmission
      cases hadmission
    | none =>
      rw [hmismatch] at hadmission
      obtain ⟨rejection, hname, hadmission⟩ := bind_eq_some_iff.mp hadmission
      cases rejection with
      | none =>
        cases hadmission
        exact ⟨rfl, hissue, rfl, hname⟩
      | some refusal =>
        unfold nameRejection at hname
        split_ifs at hname
        · cases hname
        · obtain ⟨response, rfl⟩ := nameHeaderRejection_reply hname
          cases hadmission

/-- A modern exchange has a method. -/
theorem exchange_of_modernAdmission
    (hmodern : (envelope.claim.isSome || (envelope.notification && envelope.version.any modern)) =
      true)
    (hadmission : envelope.modernAdmission codec head body = some (.exchange exchange)) :
    exchange.message = envelope.message ∧ envelope.method.isSome = true := by
  obtain ⟨rfl, -, hmismatch, -⟩ := accepted_of_modernAdmission hadmission
  refine ⟨rfl, ?_⟩
  cases hnotification : envelope.notification with
  | true =>
    simp only [notification, Bool.and_eq_true] at hnotification
    exact hnotification.1
  | false =>
    have hclaim : envelope.claim.isSome = true := by
      simpa [hnotification] using hmodern
    exact (modernMismatch_eq_none hclaim hnotification hmismatch).2.2.2

theorem exchange_of_classify
    (hadmission : envelope.classify codec head body = some (.exchange exchange)) :
    exchange.message = envelope.message ∧
      (exchange.mode = envelope.legacyMode ∨ envelope.method.isSome = true) := by
  unfold classify at hadmission
  obtain ⟨modernInitialize, -, hadmission⟩ := bind_eq_some_iff.mp hadmission
  split_ifs at hadmission with hlegacy hversion hmodern hmissing
  · obtain ⟨version, -, hadmission⟩ := bind_eq_some_iff.mp hadmission
    cases hadmission
  · obtain ⟨hmessage, hmode⟩ := exchange_of_legacyAdmission hadmission
    exact ⟨hmessage, .inl hmode⟩
  · obtain ⟨hmessage, hmethod⟩ := exchange_of_modernAdmission hmodern hadmission
    exact ⟨hmessage, .inr hmethod⟩
  · unfold missingEnvelope at hadmission
    obtain ⟨missing, -, hadmission⟩ := bind_eq_some_iff.mp hadmission
    obtain ⟨version, -, hadmission⟩ := bind_eq_some_iff.mp hadmission
    cases hadmission
  · obtain ⟨hmessage, hmode⟩ := exchange_of_legacyAdmission hadmission
    exact ⟨hmessage, .inl hmode⟩

end Envelope

/-- An exchange whose message, or each message of whose batch, is one that the session answers. -/
def Admitted (exchange : Exchange) : Prop :=
  match exchange.message.asArray with
  | some batch => ∀ message ∈ batch, messageShape message = true
  | none => Qualified exchange

theorem messageShape_of_itemIssue {item : Json} (hissue : itemIssue item = none) :
    messageShape item = true := by
  unfold itemIssue at hissue
  split_ifs at hissue with _ hshape
  simpa using hshape

theorem admitted_of_classify {envelope : Envelope} (hshape : shapeIssue envelope.message = none)
    (hadmission : envelope.classify codec head body = some (.exchange exchange)) :
    Admitted exchange := by
  obtain ⟨hmessage, hmode⟩ := Envelope.exchange_of_classify hadmission
  unfold Admitted
  unfold shapeIssue at hshape
  rw [hmessage]
  cases hbatch : envelope.message.asArray with
  | some batch =>
    have hitems : batch.findSome? itemIssue = none := by
      cases hfound : batch.findSome? itemIssue with
      | none => rfl
      | some issue =>
        simp only [hbatch, hfound] at hshape
        split_ifs at hshape
    intro message hmem
    exact messageShape_of_itemIssue (findSome?_eq_none_iff.mp hitems message hmem)
  | none =>
    rw [hbatch] at hshape
    simp only at hshape
    split_ifs at hshape with hinvalid
    have hvalid : messageShape envelope.message = true := by simpa using hinvalid
    unfold Qualified
    rw [hmessage]
    by_cases hmethod : (envelope.message.index "method").asStr.isSome = true
    · exact .inr hmethod
    · left
      have hnone : envelope.method.isSome = false := by
        rw [index_method] at hmethod
        simpa [Envelope.method] using hmethod
      have hlegacy := hmode.resolve_right (by simp [hnone])
      rw [hlegacy, Envelope.legacyMode, if_pos]
      rcases answer_of_messageShape hvalid (by simpa using hmethod) with hresult | herror
      · simp [hresult]
      · simp [herror]

theorem admitted_of_admission {policy : Policy}
    (hadmission : admitRequest codec head body policy = some (.exchange exchange)) :
    Admitted exchange := by
  unfold admitRequest at hadmission
  obtain ⟨preflighted, -, hadmission⟩ := bind_eq_some_iff.mp hadmission
  split at hadmission
  · cases hadmission
  · cases hadmission
  · split_ifs at hadmission
    · cases hadmission
    · split at hadmission
      · cases hadmission
      · cases hadmission
      · split at hadmission
        · cases hadmission
        · next hshape => exact admitted_of_classify hshape hadmission

/-- An admitted exchange is split into items that the session answers. -/
theorem intoItems_returns (hadmitted : Admitted exchange) (codec : Codec) :
    ∃ result, intoItems codec exchange = some result ∧
      ∀ items, result = .ok items → ∀ item ∈ items, Qualified item := by
  unfold intoItems
  unfold Admitted at hadmitted
  cases hbatch : exchange.message.asArray with
  | none =>
    rw [hbatch] at hadmitted
    refine ⟨_, rfl, ?_⟩
    rintro items ⟨⟩ item hitem
    rw [mem_singleton.mp hitem]
    exact hadmitted
  | some batch =>
    rw [hbatch] at hadmitted
    simp only at hadmitted ⊢
    split_ifs with hopen
    · exact ⟨_, rfl, by rintro items ⟨⟩⟩
    · obtain ⟨hlt, -⟩ := List.getElem?_eq_some_iff.mp (not_not.mp hopen)
      obtain ⟨result, hresult, hitems⟩ :=
        @splitItems_returns codec exchange _ batch 0 (Nat.succ_le_of_lt hlt)
      rw [hresult]
      simp only [bind_eq_bind, bind_some]
      cases result with
      | error reason => exact ⟨_, rfl, by rintro items ⟨⟩⟩
      | ok result =>
        simp only
        split_ifs with hclose
        · exact ⟨_, rfl, by rintro items ⟨⟩⟩
        · refine ⟨_, rfl, ?_⟩
          rintro items ⟨⟩ item hitem
          obtain ⟨hmem, hmode⟩ := hitems result.1 result.2 rfl item hitem
          exact qualified_item (hadmitted _ hmem) hmode

/-! ### Requests -/

/-- The request is read up to the check of its name, and the name header is the overlap of the
marks. -/
def OverlapsMarks (codec : Codec) (head : RequestHead) (body : List UInt8) (policy : Policy) :
    Prop :=
  preflight codec head policy = some (.ok ()) ∧ body.length ≤ maxBodyBytes ∧
    ∃ message method, codec.parse body = .ok message ∧ shapeIssue message = none ∧
      Envelope.NamesOverlap head ⟨message, head.header "mcp-protocol-version"⟩ method

theorem admitRequest_returns_iff (codec : Codec) (head : RequestHead) (body : List UInt8)
    (policy : Policy) :
    Returns (admitRequest codec head body policy) ↔ ¬ OverlapsMarks codec head body policy := by
  obtain ⟨preflighted, hpreflight⟩ := preflight_returns codec head policy
  unfold admitRequest OverlapsMarks
  rw [hpreflight]
  match preflighted with
  | .error (.reply response) => simp [returns_some]
  | .error (.unqualified reason) => simp [returns_some]
  | .ok () =>
    simp only [bind_eq_bind, bind_some]
    by_cases hsize : maxBodyBytes < body.length
    · rw [if_pos hsize]
      refine ⟨fun _ h ↦ ?_, fun _ ↦ returns_some _⟩
      exact absurd h.2.1 (Nat.not_le_of_lt hsize)
    · rw [if_neg hsize]
      cases hparse : codec.parse body with
      | error issue =>
        refine ⟨fun _ h ↦ ?_, fun _ ↦ ?_⟩
        · obtain ⟨-, -, message, method, hmessage, -⟩ := h
          cases hmessage
        · cases issue with
          | recursionLimit => exact returns_some _
          | other => exact returns_some _
      | ok message =>
        simp only
        cases hshape : shapeIssue message with
        | some issue =>
          refine ⟨fun _ h ↦ ?_, fun _ ↦ returns_some _⟩
          obtain ⟨-, -, found, method, hmessage, hnone, -⟩ := h
          cases hmessage
          rw [hshape] at hnone
          cases hnone
        | none =>
          rw [Envelope.classify_returns_iff]
          refine not_congr ⟨?_, ?_⟩
          · rintro ⟨method, hoverlap⟩
            exact ⟨trivial, Nat.le_of_not_lt hsize, message, method, rfl, hshape, hoverlap⟩
          · rintro ⟨-, -, found, method, hmessage, -, hoverlap⟩
            cases hmessage
            exact ⟨method, hoverlap⟩

/-- The whole admission of a request returns: the head, the request, and every item of an admitted
exchange, whatever the catalog and whether or not calls are confirmed, with any prompt that the item
asks for. -/
def AdmissionReturns (codec : Codec) (head : RequestHead) (body : List UInt8) (policy : Policy) :
    Prop :=
  Returns (preflight codec head policy) ∧
    ∃ admission, admitRequest codec head body policy = some admission ∧
      ∀ exchange, admission = .exchange exchange →
        ∃ result, intoItems codec exchange = some result ∧
          ∀ items, result = .ok items → ∀ item ∈ items,
            ∀ (catalog : Protocol.Catalog) (confirmation : Bool),
              Returns (admitHttp catalog.host item confirmation) ∧
                ∀ name arguments, Returns (catalog.getText name arguments)

/-- The admission of a request returns exactly when the request does not reach the check of a name
header that is the overlap of the marks. -/
theorem admission_returns_iff (codec : Codec) (head : RequestHead) (body : List UInt8)
    (policy : Policy) :
    AdmissionReturns codec head body policy ↔ ¬ OverlapsMarks codec head body policy := by
  rw [← admitRequest_returns_iff]
  constructor
  · rintro ⟨-, admission, hadmission, -⟩
    exact ⟨admission, hadmission⟩
  · rintro ⟨admission, hadmission⟩
    refine ⟨preflight_returns codec head policy, admission, hadmission, ?_⟩
    rintro exchange rfl
    obtain ⟨result, hresult, hitems⟩ := intoItems_returns (admitted_of_admission hadmission) codec
    refine ⟨result, hresult, fun items hok item hitem catalog confirmation ↦ ⟨?_, ?_⟩⟩
    · exact admitHttp_returns (hitems items hok item hitem) catalog.host confirmation
    · exact catalog.getText_returns

/-! ### A request that panics -/

/-- A modern tool call. -/
def callMessage : Json :=
  .ofMembers [("jsonrpc", .string "2.0"), ("id", .ofInt64 1), ("method", .string "tools/call"),
    ("params", .ofMembers [("name", .string "obs-observe"), ("_meta", .ofMembers
      [(versionKey, .string modernVersion), (capabilitiesKey, .ofMembers [])])])]

/-- The bytes of the call. -/
def callBody : List UInt8 :=
  Receipts.utf8 ("\x7b\"jsonrpc\":\"2.0\",\"id\":1,\"method\":\"tools/call\",\"params\":\x7b" ++
    "\"name\":\"obs-observe\",\"_meta\":\x7b" ++
    "\"io.modelcontextprotocol/protocolVersion\":\"2026-07-28\"," ++
    "\"io.modelcontextprotocol/clientCapabilities\":\x7b\x7d\x7d\x7d\x7d")

/-- A codec that knows the bytes of the call. -/
def callCodec : Codec where
  parse bytes := if bytes = callBody then .ok callMessage else .error .other
  skipValue _ := none
  encode _ := ""
  decodeBase64 _ := none
  encodeBase64 _ := ""

/-- The head of a call whose name header is the overlap of the marks. -/
def overlapHead : RequestHead where
  method := "POST"
  target := "/mcp"
  headers := [("Host", "localhost"), ("Content-Type", "application/json"),
    ("MCP-Protocol-Version", "2026-07-28"), ("Mcp-Method", "tools/call"),
    ("Mcp-Name", "=?base64?=")]

theorem parse_callBody : callCodec.parse callBody = .ok callMessage := by
  simp only [callCodec, if_true]

theorem preflight_overlapHead :
    preflight callCodec overlapHead (Policy.new none) = some (.ok ()) := by
  rfl

theorem namesOverlap_overlapHead :
    Envelope.NamesOverlap overlapHead ⟨callMessage, overlapHead.header "mcp-protocol-version"⟩
      "tools/call" where
  named := rfl
  field := by simp [nameField]
  request := rfl
  claim := rfl
  issue := rfl
  version := by decide
  methodHeader := by decide
  name := by decide

/-- A call whose name header is the overlap of the marks panics. -/
theorem overlapping_marks_panic :
    ¬ AdmissionReturns callCodec overlapHead callBody (Policy.new none) := by
  rintro ⟨-, admission, hadmission, -⟩
  refine (admitRequest_returns_iff _ _ _ _).mp ⟨admission, hadmission⟩
    ⟨preflight_overlapHead, ?_, callMessage,
    "tools/call", parse_callBody, ?_, namesOverlap_overlapHead⟩
  · decide +kernel
  · rfl

end ObsMcp.Http
