import Mathlib
import ObsMcp.Foundations.Slots
import ObsMcp.Receipts.Apply
import ObsMcp.Session.Response

/-!
# The exact form of a batch reply

`batchResponse` reads the results of a batch, which the peer may send in any order, and the receipts
of `operation_store.rs` account for them once more when the batch is acknowledged. The two are
written separately.

`Answers` says in the words of the protocol when an array of results answers a batch: in some order
it has one well formed result for each of the first requests, and a batch that stopped early stopped
at its only failure. `batchResponse_eq_ok_iff` says that the reader accepts these arrays and no
others, and `countsFit_applyCounts` that the counts of an accepted reply pass the validator of the
stage receipt. `batch_reply_exact` puts the two together.
-/

namespace ObsMcp.Session

open Foundations Receipts List Option

/-! ### One result -/

/-- A result is well formed, is about the request of an index, gives its type back and says what an
answer holds. -/
structure ResultAt (requestTypes : List String) (result : Json) (index : ℕ)
    (answer : BatchResult) : Prop where
  isObject : result.isObject = true
  hasStatus : (result.index "requestStatus").isObject = true
  requestId : (result.index "requestId").asStr = some (toString index)
  admitted : requestTypes[index]? = some answer.requestType
  requestType : (result.index "requestType").asStr = some answer.requestType
  ok : ((result.index "requestStatus").index "result").asBool = some answer.ok
  code : statusCode ((result.index "requestStatus").index "code") = some answer.code
  comment : ((result.index "requestStatus").index "comment").asStr = answer.comment
  data : responseData result = answer.responseData

/-- The array of the results of a reply. -/
def resultsOf (data : Json) : Option (List Json) :=
  (data.get "results").bind Json.asArray

section Item

variable {requestTypes : List String} {result : Json} {index other : ℕ} {answer found : BatchResult}

theorem canonicalIndex_eq_some_iff {id : String} :
    canonicalIndex id = some index ↔ id = toString index ∧ index < 2 ^ 64 := by
  unfold canonicalIndex
  rw [filter_eq_some_iff]
  constructor
  · rintro ⟨-, hcanonical⟩
    simp only [Bool.and_eq_true, decide_eq_true_eq, beq_iff_eq] at hcanonical
    exact ⟨hcanonical.2.symm, hcanonical.1⟩
  · rintro ⟨rfl, hindex⟩
    refine ⟨Nat.toNat?_repr index, ?_⟩
    simpa using hindex

/-- A turn of the reading loop succeeds exactly on a well formed result whose slot is free.
Assumes: fewer requests than a machine word counts. -/
theorem batchItem_eq_ok_iff (hlength : requestTypes.length < 2 ^ 64)
    (ordered : List (Option BatchResult)) (result : Json) (next : List (Option BatchResult)) :
    batchItem requestTypes ordered result = .ok next ↔
      ∃ entry : ℕ × BatchResult, ResultAt requestTypes result entry.1 entry.2 ∧
        ordered[entry.1]? = some none ∧ next = ordered.set entry.1 (some entry.2) := by
  unfold batchItem
  simp only
  constructor
  · intro hitem
    split_ifs at hitem with hshape
    rw [Bool.or_eq_true, Bool.not_eq_true', Bool.not_eq_true', not_or, Bool.not_eq_false,
      Bool.not_eq_false] at hshape
    split at hitem
    · cases hitem
    · rename_i index hindex
      obtain ⟨hparsed, hinside⟩ := filter_eq_some_iff.mp hindex
      obtain ⟨id, hid, hcanonical⟩ := bind_eq_some_iff.mp hparsed
      obtain ⟨rfl, -⟩ := canonicalIndex_eq_some_iff.mp hcanonical
      rw [decide_eq_true_eq] at hinside
      split at hitem
      · cases hitem
      · rename_i requestType htype
        split_ifs at hitem with hmismatch
        simp only [Bool.or_eq_true, decide_eq_true_eq, not_or, not_not] at hmismatch
        obtain ⟨hadmitted, hfree⟩ := hmismatch
        split at hitem
        · rename_i ok code hok hcode
          refine ⟨(index, _), ⟨hshape.1, hshape.2, hid, hadmitted, htype, hok, hcode, rfl, rfl⟩,
            ?_, (Except.ok.inj hitem).symm⟩
          rw [getElem?_eq_getElem hinside] at hfree ⊢
          rw [join_some, Bool.not_eq_true, isSome_eq_false_iff,
            isNone_iff_eq_none] at hfree
          rw [hfree]
        · cases hitem
  · rintro ⟨⟨index, answer⟩, hresult, hfree, rfl⟩
    have hinside : index < ordered.length := (List.getElem?_eq_some_iff.mp hfree).1
    have hadmitted : index < requestTypes.length :=
      (List.getElem?_eq_some_iff.mp hresult.admitted).1
    have hword : index < 2 ^ 64 := by omega
    have hindex : ((result.index "requestId").asStr.bind canonicalIndex).filter
        (fun index ↦ index < ordered.length) = some index := by
      rw [hresult.requestId, bind_some, canonicalIndex_eq_some_iff.mpr ⟨rfl, hword⟩,
        filter_some, if_pos (by simpa using hinside)]
    have htaken : (ordered[index]?.join).isSome = false := by
      rw [hfree]
      rfl
    rw [hresult.isObject, hresult.hasStatus, hindex, hresult.requestType, hresult.ok, hresult.code,
      hresult.comment, hresult.data]
    simp [hresult.admitted, htaken]

end Item

/-! ### The whole array -/

/-- How far a batch got: it has at least one answer, a batch that does not halt has them all, and
one that halts has them all or ends with its only failure. -/
structure Extent (requestCount : ℕ) (haltOnFailure : Bool) (answers : List BatchResult) :
    Prop where
  nonempty : 1 ≤ answers.length
  bounded : answers.length ≤ requestCount
  whole : haltOnFailure = false → answers.length = requestCount
  halted : haltOnFailure = true →
    ((∀ answer ∈ answers, answer.ok = true) ∧ answers.length = requestCount) ∨
      ∀ index answer, answers[index]? = some answer →
        (answer.ok = false ↔ index + 1 = answers.length)

/-- An array of results has, in some order, one well formed result for each index below its
length. -/
def Ordered (requestTypes : List String) (results : List Json)
    (answers : List BatchResult) : Prop :=
  ∃ ordered : List Json, ordered.Perm results ∧ ordered.length = answers.length ∧
    ∀ (index : ℕ) (result : Json) (answer : BatchResult), ordered[index]? = some result →
      answers[index]? = some answer → ResultAt requestTypes result index answer

/-- An array of results answers a batch: it is ordered by its indices in some order, and its length
is one the batch can have. -/
def Answers (requestTypes : List String) (haltOnFailure : Bool) (results : List Json)
    (answers : List BatchResult) : Prop :=
  Ordered requestTypes results answers ∧ Extent requestTypes.length haltOnFailure answers

section Reading

variable {requestTypes : List String} {haltOnFailure : Bool} {results : List Json}
  {answers : List BatchResult} {data : Json} {requestId : String}

theorem forall₂_ofAnswers_iff {Fits : Json → ℕ × BatchResult → Prop} {ordered : List Json} :
    List.Forall₂ Fits ordered (Slots.ofAnswers answers) ↔
      ordered.length = answers.length ∧ ∀ index result answer, ordered[index]? = some result →
        answers[index]? = some answer → Fits result (index, answer) := by
  have hlength : (Slots.ofAnswers answers).length = answers.length := by simp [Slots.ofAnswers]
  rw [forall₂_iff_get]
  constructor
  · rintro ⟨hsame, hall⟩
    refine ⟨hsame.trans hlength, fun index result answer hresult hanswer ↦ ?_⟩
    obtain ⟨hordered, rfl⟩ := List.getElem?_eq_some_iff.mp hresult
    obtain ⟨hinside, rfl⟩ := List.getElem?_eq_some_iff.mp hanswer
    simpa [Slots.ofAnswers] using hall index hordered (by rwa [hlength])
  · rintro ⟨hsame, hall⟩
    refine ⟨hsame.trans hlength.symm, fun index hordered hentries ↦ ?_⟩
    rw [hlength] at hentries
    have hfits := hall index _ _ (getElem?_eq_getElem hordered)
      (getElem?_eq_getElem hentries)
    simpa [Slots.ofAnswers] using hfits

/-- A batch that halts does not disagree with its results exactly when it is complete without a
failure or ends with its only one. -/
theorem haltMismatch_eq_false_iff :
    haltMismatch requestTypes answers = false ↔
      ((∀ answer ∈ answers, answer.ok = true) ∧ answers.length = requestTypes.length) ∨
        (answers ≠ [] ∧ ∀ index answer, answers[index]? = some answer →
          (answer.ok = false ↔ index + 1 = answers.length)) := by
  unfold haltMismatch
  cases hfound : answers.findIdx? (fun answer ↦ !answer.ok) with
  | none =>
    have hall : ∀ answer ∈ answers, answer.ok = true := by
      simpa using findIdx?_eq_none_iff.mp hfound
    simp only [ne_eq, decide_not, Bool.not_eq_false', decide_eq_true_eq]
    constructor
    · intro hlength
      exact .inl ⟨hall, hlength⟩
    · rintro (⟨-, hlength⟩ | ⟨hne, honly⟩)
      · exact hlength
      · have hlast : answers.length - 1 < answers.length := by
          have hpos := List.length_pos_iff.mpr hne
          omega
        have hfailed := (honly _ _ (getElem?_eq_getElem hlast)).mpr (by omega)
        rw [hall _ (getElem_mem hlast)] at hfailed
        cases hfailed
  | some index =>
    obtain ⟨hindex, hfailed, hbefore⟩ := findIdx?_eq_some_iff_getElem.mp hfound
    rw [Bool.not_eq_true'] at hfailed
    simp only [ne_eq, decide_not, Bool.not_eq_false', decide_eq_true_eq]
    constructor
    · intro hlength
      refine .inr ⟨List.ne_nil_of_length_pos (by omega), fun other answer hanswer ↦ ?_⟩
      obtain ⟨hother, rfl⟩ := List.getElem?_eq_some_iff.mp hanswer
      constructor
      · intro hok
        by_contra hnot
        have hlt : other < index := by omega
        exact absurd hok (by simpa using hbefore other hlt)
      · intro hsame
        obtain rfl : other = index := by omega
        exact hfailed
    · rintro (⟨hall, -⟩ | ⟨-, honly⟩)
      · rw [hall _ (getElem_mem hindex)] at hfailed
        cases hfailed
      · exact (honly index _ (getElem?_eq_getElem hindex)).mp hfailed

theorem orderedResults_eq_ok_iff (hlength : requestTypes.length < 2 ^ 64) :
    orderedResults requestTypes results haltOnFailure = .ok answers ↔
      Ordered requestTypes results answers ∧
        (haltOnFailure && haltMismatch requestTypes answers) = false := by
  have hcomplete : (∃ table, results.foldlM (batchItem requestTypes)
        (List.replicate results.length none) = .ok table ∧ table.mapM id = some answers) ↔
      ∃ ordered, ordered.Perm results ∧ List.Forall₂ _ ordered (Slots.ofAnswers answers) :=
    Slots.complete_iff (batchItem_eq_ok_iff hlength)
  simp only [forall₂_ofAnswers_iff] at hcomplete
  unfold orderedResults Ordered
  rw [bind_eq_ok_iff, ← hcomplete]
  constructor
  · rintro ⟨table, hloop, hrest⟩
    split at hrest
    · cases hrest
    · rename_i found hfound
      split_ifs at hrest with hhalt
      cases hrest
      exact ⟨⟨table, hloop, hfound⟩, by simpa using hhalt⟩
  · rintro ⟨⟨table, hloop, hfound⟩, hhalt⟩
    refine ⟨table, hloop, ?_⟩
    rw [hfound]
    simp only [hhalt, Bool.false_eq_true, if_false]

theorem Ordered.length_eq (hordered : Ordered requestTypes results answers) :
    results.length = answers.length := by
  obtain ⟨ordered, hperm, hlength, -⟩ := hordered
  rw [← hperm.length_eq, hlength]

/-- Every answer is read off one of the results. -/
theorem Ordered.mem_of_answer (hordered : Ordered requestTypes results answers) {index : ℕ}
    {answer : BatchResult} (hanswer : answers[index]? = some answer) :
    ∃ result ∈ results, ResultAt requestTypes result index answer := by
  obtain ⟨ordered, hperm, hlength, hresults⟩ := hordered
  have hindex := (List.getElem?_eq_some_iff.mp hanswer).1
  have hinside : index < ordered.length := by omega
  exact ⟨ordered[index], hperm.mem_iff.mp (getElem_mem hinside),
    hresults index _ answer (getElem?_eq_getElem hinside) hanswer⟩

/-- The reader accepts the arrays that answer the batch and no others. Assumes: fewer requests than
a machine word counts. -/
theorem batchResponse_eq_ok_iff (hlength : requestTypes.length < 2 ^ 64) :
    batchResponse data requestId requestTypes haltOnFailure = .ok answers ↔
      (data.index "requestId").asStr = some requestId ∧
        ∃ results, resultsOf data = some results ∧
          Answers requestTypes haltOnFailure results answers := by
  unfold batchResponse
  constructor
  · intro hresponse
    split_ifs at hresponse with hid
    rw [not_not] at hid
    split at hresponse
    · cases hresponse
    · rename_i results hresults
      split_ifs at hresponse with hextent
      simp only [Bool.or_eq_true, List.isEmpty_iff, decide_eq_true_eq, Bool.and_eq_true,
        Bool.not_eq_true', ne_eq, not_or, not_and, not_not, not_lt] at hextent
      obtain ⟨⟨hne, hbound⟩, hwhole⟩ := hextent
      obtain ⟨hordered, hhalt⟩ := (orderedResults_eq_ok_iff hlength).mp hresponse
      have hsame := hordered.length_eq
      have hpos := List.length_pos_iff.mpr hne
      refine ⟨hid, results, hresults, hordered, by omega, by omega, fun hflag ↦ ?_, fun hflag ↦ ?_⟩
      · rw [← hsame, hwhole hflag]
      · rw [hflag, Bool.true_and, haltMismatch_eq_false_iff] at hhalt
        exact hhalt.imp_right And.right
  · rintro ⟨hid, results, hresults, hordered, hextent⟩
    have hsame := hordered.length_eq
    have hne : answers ≠ [] := List.ne_nil_of_length_pos hextent.nonempty
    rw [if_neg (not_not_intro hid)]
    rw [resultsOf] at hresults
    rw [hresults]
    have hnot : ¬ (results.isEmpty || decide (requestTypes.length < results.length) ||
        (!haltOnFailure && decide (results.length ≠ requestTypes.length))) = true := by
      simp only [Bool.or_eq_true, List.isEmpty_iff, decide_eq_true_eq, Bool.and_eq_true,
        Bool.not_eq_true', ne_eq, not_or, not_and, not_not, not_lt]
      refine ⟨⟨?_, ?_⟩, fun hflag ↦ ?_⟩
      · exact List.ne_nil_of_length_pos (by rw [hsame]; exact hextent.nonempty)
      · rw [hsame]
        exact hextent.bounded
      · rw [hsame]
        exact hextent.whole hflag
    simp only [hnot]
    refine (orderedResults_eq_ok_iff hlength).mpr ⟨hordered, ?_⟩
    cases haltOnFailure with
    | false => rfl
    | true =>
      rw [Bool.true_and, haltMismatch_eq_false_iff]
      exact (hextent.halted rfl).imp_right fun honly ↦ ⟨hne, honly⟩

/-- An array that answers a batch does so in every order. -/
theorem Answers.perm {permuted : List Json} (hperm : permuted.Perm results)
    (hanswers : Answers requestTypes haltOnFailure permuted answers) :
    Answers requestTypes haltOnFailure results answers := by
  obtain ⟨⟨ordered, hordered, hlength, hresults⟩, hextent⟩ := hanswers
  exact ⟨⟨ordered, hordered.trans hperm, hlength, hresults⟩, hextent⟩

/-- The answer at an index is the one read off the result that names the index. -/
theorem Answers.answer_of_mem (hanswers : Answers requestTypes haltOnFailure results answers)
    {result : Json} (hmem : result ∈ results) {index : ℕ}
    (hid : (result.index "requestId").asStr = some (toString index)) :
    ∃ answer, answers[index]? = some answer ∧ ResultAt requestTypes result index answer := by
  obtain ⟨⟨ordered, hperm, hlength, hresults⟩, -⟩ := hanswers
  obtain ⟨place, hplace, rfl⟩ := getElem_of_mem (hperm.mem_iff.mpr hmem)
  have hinside : place < answers.length := by omega
  have hread := hresults place _ _ (getElem?_eq_getElem hplace)
    (getElem?_eq_getElem hinside)
  obtain rfl : place = index :=
    Nat.repr_injective (some.inj (hread.requestId.symm.trans hid))
  exact ⟨_, getElem?_eq_getElem hinside, hread⟩

end Reading

/-! ### The counts of an acknowledged batch -/

/-- The counts of the Apply Scene transport for the rows of a reply to a number of requests. -/
def applyCounts (requestCount : ℕ) (rows : List BatchResult) : ApplyCounts where
  successful := (rows.filter BatchResult.ok).length
  failed := rows.length - (rows.filter BatchResult.ok).length
  skipped := requestCount - rows.length

/-- The counts of the restore transport for the rows of a reply. -/
def restoreCounts (rows : List BatchResult) : RestoreCounts where
  successful := (rows.filter BatchResult.ok).length
  failed := rows.length - (rows.filter BatchResult.ok).length

section Counts

variable {requestCount : ℕ} {haltOnFailure : Bool} {rows : List BatchResult}

theorem checkedAdd_eq_some {first second total : ℕ} (hsum : first + second = total)
    (htotal : total < 2 ^ 64) : Receipts.checkedAdd first second = some total := by
  unfold Receipts.checkedAdd
  rw [hsum, if_pos htotal]

theorem filter_ok_of_all (hall : ∀ row ∈ rows, row.ok = true) : rows.filter BatchResult.ok = rows :=
  filter_eq_self.mpr hall

/-- When only the last row failed, all rows but one succeeded. -/
theorem length_filter_ok_of_last (hne : rows ≠ [])
    (honly : ∀ index row, rows[index]? = some row →
      (row.ok = false ↔ index + 1 = rows.length)) :
    (rows.filter BatchResult.ok).length + 1 = rows.length := by
  have hpos := List.length_pos_iff.mpr hne
  have hlast : (rows.getLast hne).ok = false := by
    refine (honly (rows.length - 1) _ ?_).mpr (by omega)
    rw [getLast_eq_getElem, getElem?_eq_getElem]
  have hinit : ∀ row ∈ rows.dropLast, row.ok = true := by
    intro row hrow
    obtain ⟨index, hindex, rfl⟩ := getElem_of_mem hrow
    rw [length_dropLast] at hindex
    rw [getElem_dropLast, ← Bool.not_eq_false]
    intro hfailed
    have hsame := (honly index _ (getElem?_eq_getElem (by omega))).mp hfailed
    omega
  have hfilter : rows.filter BatchResult.ok = rows.dropLast := by
    conv_lhs => rw [← dropLast_append_getLast hne]
    rw [filter_append, filter_ok_of_all hinit]
    simp [hlast]
  rw [hfilter, length_dropLast]
  omega

/-- The counts of a batch that got as far as it can pass the validator of the stage receipts.
Assumes: a request count that a machine word holds. -/
theorem countsFit_applyCounts (hcount : requestCount < 2 ^ 64)
    (hextent : Extent requestCount haltOnFailure rows) :
    ApplyStageRecord.countsFit haltOnFailure requestCount
      (applyCounts requestCount rows) = true := by
  have hbound := hextent.bounded
  have hfilter := length_filter_le BatchResult.ok rows
  have hanswered : Receipts.checkedAdd (applyCounts requestCount rows).successful
      (applyCounts requestCount rows).failed = some rows.length :=
    checkedAdd_eq_some (Nat.add_sub_cancel' hfilter) (by omega)
  have hsum : Receipts.checkedAdd rows.length (applyCounts requestCount rows).skipped =
    some requestCount :=
    checkedAdd_eq_some (Nat.add_sub_cancel' hbound) hcount
  unfold ApplyStageRecord.countsFit
  rw [hanswered, bind_some, hsum, beq_self_eq_true, Bool.true_and]
  cases haltOnFailure with
  | false =>
    have hwhole := hextent.whole rfl
    simp [applyCounts, hwhole]
  | true =>
    rcases hextent.halted rfl with ⟨hall, hlength⟩ | honly
    · simp [applyCounts, filter_ok_of_all hall, hlength]
    · have hne : rows ≠ [] := List.ne_nil_of_length_pos hextent.nonempty
      have hfailed : (applyCounts requestCount rows).failed = 1 := by
        have hlength := length_filter_ok_of_last hne honly
        simp only [applyCounts]
        omega
      simp [hfailed]

/-- The counts of a batch that does not halt agree with the restore receipt of its requests.
Assumes: a request count that a machine word holds. -/
theorem countsAgree_restoreCounts (hcount : requestCount < 2 ^ 64)
    (hextent : Extent requestCount false rows) (record : RestoreRecord)
    (hrecord : record.requestCount = requestCount) :
    ({ record with
      phase := .acknowledged
      successfulRequests := some (restoreCounts rows).successful
      failedRequests := some (restoreCounts rows).failed } : RestoreRecord).countsAgree = true := by
  have hwhole := hextent.whole rfl
  have hfilter := length_filter_le BatchResult.ok rows
  have hsum : Receipts.checkedAdd (restoreCounts rows).successful (restoreCounts rows).failed =
      some requestCount :=
    checkedAdd_eq_some ((Nat.add_sub_cancel' hfilter).trans hwhole) hcount
  simp only [RestoreRecord.countsAgree, hsum, hrecord, beq_self_eq_true]

/-- A stage that is waiting for its batch stays valid when an accepted reply is acknowledged.
Assumes: a request count that a machine word holds. -/
theorem set_acknowledged_valid {stage : ApplyStageRecord}
    (hvalid : stage.valid haltOnFailure = true) (hphase : stage.phase = .dispatching)
    (hcount : stage.requestCount < 2 ^ 64)
    (hextent : Extent stage.requestCount haltOnFailure rows) :
    (stage.set .acknowledged (some (applyCounts stage.requestCount rows))).valid
      haltOnFailure = true := by
  have hneeded : stage.phase ≠ .notNeeded := by
    rw [hphase]
    decide
  exact ApplyStageRecord.set_valid hvalid hneeded
    (.acknowledged (countsFit_applyCounts hcount hextent))

/-- A restore receipt that is waiting for its batch takes the acknowledgement of an accepted reply.
Assumes: a time that fits the receipt. -/
theorem updated_acknowledged {receipt : RestoreReceipt} (hphase : receipt.1.phase = .dispatching)
    (hextent : Extent receipt.1.requestCount false rows) {utc : String}
    (hstamp : ({ receipt.1.toStamp with updatedAt := utc } : Stamp).valid = true) :
    ∃ updated, receipt.updated .acknowledged (some (restoreCounts rows)) utc = .ok updated := by
  obtain ⟨record, hrecord⟩ := receipt
  simp only at hphase hextent hstamp
  have hvalid := hrecord
  unfold RestoreRecord.valid at hvalid
  simp only [Bool.and_eq_true, decide_eq_true_eq] at hvalid
  have hcount : record.requestCount < 2 ^ 64 := by
    have hsafe : record.requestCount ≤ maxSafeInteger := hvalid.1.1.1.1.1.2
    unfold maxSafeInteger at hsafe
    omega
  have hagree := countsAgree_restoreCounts hcount hextent { record with updatedAt := utc } rfl
  obtain ⟨⟨⟨⟨⟨⟨hform, hsafe⟩, -⟩, -⟩, -⟩, hpost⟩, hrendered⟩ := hvalid
  have hnext : record.phase.next .acknowledged = true := by
    rw [hphase]
    rfl
  unfold RestoreReceipt.updated
  rw [if_pos hnext]
  refine ⟨_, checkedBy_of_valid ?_⟩
  unfold RestoreRecord.valid
  simp only [Bool.and_eq_true, decide_eq_true_eq]
  exact ⟨⟨⟨⟨⟨⟨hform, hsafe⟩, hagree⟩, rfl⟩, hstamp⟩, hpost⟩, hrendered⟩

end Counts

/-! ### Exactness -/

/-- A batch reply is accepted exactly when it names the batch and its results answer it: in some
order they are one well formed result for each of the first requests, all of them unless the batch
halted at its only failure. The answers then are these results by index, whatever the order of the
array, and acknowledging them is never refused for their counts. -/
theorem batch_reply_exact (requestTypes : {types : List String // types.length < 2 ^ 64})
    (requestId : String) (haltOnFailure : Bool) (data : Json) (answers : List BatchResult) :
    (batchResponse data requestId requestTypes.1 haltOnFailure = .ok answers ↔
        (data.index "requestId").asStr = some requestId ∧
          ∃ results, resultsOf data = some results ∧
            Answers requestTypes.1 haltOnFailure results answers) ∧
      (∀ results, resultsOf data = some results →
        batchResponse data requestId requestTypes.1 haltOnFailure = .ok answers →
          answers.length = results.length ∧
          (∀ index answer, answers[index]? = some answer →
            ∃ result ∈ results, ResultAt requestTypes.1 result index answer) ∧
          ∀ result ∈ results, ∀ index,
            (result.index "requestId").asStr = some (toString index) →
              ∃ answer, answers[index]? = some answer ∧
                ResultAt requestTypes.1 result index answer) ∧
      (∀ (permuted : Json) (results order : List Json), resultsOf data = some results →
        resultsOf permuted = some order → order.Perm results →
        (permuted.index "requestId").asStr = (data.index "requestId").asStr →
          (batchResponse permuted requestId requestTypes.1 haltOnFailure = .ok answers ↔
            batchResponse data requestId requestTypes.1 haltOnFailure = .ok answers)) ∧
      (batchResponse data requestId requestTypes.1 haltOnFailure = .ok answers →
        (∀ stage : ApplyStageRecord, stage.valid haltOnFailure = true →
          stage.phase = .dispatching → stage.requestCount = requestTypes.1.length →
            (stage.set .acknowledged (some (applyCounts stage.requestCount answers))).valid
              haltOnFailure = true) ∧
        (haltOnFailure = false → ∀ (receipt : RestoreReceipt) (utc : String),
          receipt.1.phase = .dispatching → receipt.1.requestCount = requestTypes.1.length →
          ({ receipt.1.toStamp with updatedAt := utc } : Stamp).valid = true →
            ∃ updated, receipt.updated .acknowledged (some (restoreCounts answers)) utc =
              .ok updated)) := by
  obtain ⟨requestTypes, hlength⟩ := requestTypes
  simp only
  have hexact : ∀ {data : Json}, batchResponse data requestId requestTypes haltOnFailure =
      .ok answers ↔ _ := batchResponse_eq_ok_iff hlength
  refine ⟨hexact, fun results hresults hresponse ↦ ?_,
    fun permuted results order hresults horder hperm hid ↦ ?_, fun hresponse ↦ ?_⟩
  · obtain ⟨-, found, hfound, hanswers⟩ := hexact.mp hresponse
    obtain rfl : results = found := some.inj (hresults.symm.trans hfound)
    refine ⟨hanswers.1.length_eq.symm, fun index answer hanswer ↦ ?_,
      fun result hmem index hid ↦ hanswers.answer_of_mem hmem hid⟩
    exact hanswers.1.mem_of_answer hanswer
  · rw [hexact, hexact, hid]
    refine and_congr_right fun _ ↦ ?_
    constructor
    · rintro ⟨found, hfound, hanswers⟩
      obtain rfl : order = found := some.inj (horder.symm.trans hfound)
      exact ⟨results, hresults, hanswers.perm hperm⟩
    · rintro ⟨found, hfound, hanswers⟩
      obtain rfl : results = found := some.inj (hresults.symm.trans hfound)
      exact ⟨order, horder, hanswers.perm hperm.symm⟩
  · obtain ⟨-, results, -, -, hextent⟩ := hexact.mp hresponse
    constructor
    · intro stage hvalid hphase hcount
      rw [← hcount] at hextent hlength
      exact set_acknowledged_valid hvalid hphase hlength hextent
    · intro hflag receipt utc hphase hcount hstamp
      rw [← hcount, hflag] at hextent
      exact updated_acknowledged hphase hextent hstamp

end ObsMcp.Session
