import Mathlib.Data.List.Pairwise
import ObsMcp.Receipts.Store
import ObsMcp.Receipts.Timestamp

/-!
# The order of the inventory

The inventory is shown with the latest creation first, and receipts created at one time by their
identifiers. The sort compares the creation timestamps as bytes, and so do the validators of the
versions 2 to 5 that refuse an update before the creation.

`inventory_chronological_iff` says for which receipts the shown order is that of the times, and for
which timestamps the validators refuse exactly an earlier update.
-/

namespace ObsMcp.Receipts

open List

/-! ### The sort -/

def isAsciiUppercase (byte : UInt8) : Bool := 65 ≤ byte && byte ≤ 90

/-- `u8::to_ascii_lowercase`. -/
def toAsciiLowercase (byte : UInt8) : UInt8 :=
  if isAsciiUppercase byte then byte + 32 else byte

/-- The case of the first bytes that differ: a lower-case byte comes first. -/
def caseBefore : List UInt8 → List UInt8 → Bool
  | a :: as, b :: bs =>
    if a ≠ b then !isAsciiUppercase a || isAsciiUppercase b else caseBefore as bs
  | _, _ => true

/-- `uuid_collation` puts the first identifier not behind the second. -/
def uuidCollation (first second : String) : Bool :=
  let lower (text : String) := (utf8 text).map toAsciiLowercase
  decide (lower first < lower second) ||
    (lower first == lower second) && caseBefore (utf8 first) (utf8 second)

namespace StoredReceipt

def created (receipt : StoredReceipt) : String := receipt.stamp.createdAt

/-- The comparison of the sort puts the first receipt not behind the second. -/
def listedBefore (first second : StoredReceipt) : Bool :=
  textLt second.created first.created ||
    (utf8 second.created == utf8 first.created) && uuidCollation first.id second.id

end StoredReceipt

/-- `OperationView::inventory`: the receipts of the endpoint, sorted. -/
def BackendStore.listed (store : BackendStore) (fault : Option IoError) :
    Except StoreError (List StoredReceipt) :=
  (store.inventory fault).map fun receipts ↦ receipts.mergeSort StoredReceipt.listedBefore

/-! ### The comparison is an order -/

section Order

variable {α β : Type} {less : β → β → Prop} {key : α → β} {next : α → α → Prop}

/-- A comparison by a key, and by another comparison where the keys are equal. -/
def ThenBy (less : β → β → Prop) (key : α → β) (next : α → α → Prop) (a b : α) : Prop :=
  less (key a) (key b) ∨ key a = key b ∧ next a b

theorem ThenBy.trans (hless : ∀ x y z, less x y → less y z → less x z)
    (hnext : ∀ a b c, key a = key b → key b = key c → next a b → next b c → next a c) {a b c : α}
    (hab : ThenBy less key next a b) (hbc : ThenBy less key next b c) :
    ThenBy less key next a c := by
  obtain hab | ⟨hsame, hab⟩ := hab
  · obtain hbc | ⟨hsame, hbc⟩ := hbc
    · exact .inl (hless _ _ _ hab hbc)
    · exact .inl (hsame ▸ hab)
  · obtain hbc | ⟨hsame', hbc⟩ := hbc
    · exact .inl (hsame ▸ hbc)
    · exact .inr ⟨hsame.trans hsame', hnext a b c hsame hsame' hab hbc⟩

theorem ThenBy.total (hless : ∀ x y, less x y ∨ x = y ∨ less y x)
    (hnext : ∀ a b, next a b ∨ next b a) (a b : α) :
    ThenBy less key next a b ∨ ThenBy less key next b a := by
  obtain hab | hsame | hba := hless (key a) (key b)
  · exact .inl (.inl hab)
  · exact (hnext a b).imp (fun hab ↦ .inr ⟨hsame, hab⟩) fun hba ↦ .inr ⟨hsame.symm, hba⟩
  · exact .inr (.inl hba)

end Order

/-- Bytes that differ only in their case differ in it. -/
theorem uppercase_ne {a b : UInt8} (hlower : toAsciiLowercase a = toAsciiLowercase b)
    (hne : a ≠ b) : isAsciiUppercase a ≠ isAsciiUppercase b := by
  intro hcase
  unfold toAsciiLowercase at hlower
  rw [hcase] at hlower
  split_ifs at hlower
  · exact hne ((UInt8.add_left_inj 32).mp hlower)
  · exact hne hlower

theorem caseBefore_trans {as bs cs : List UInt8}
    (hab : as.map toAsciiLowercase = bs.map toAsciiLowercase)
    (hbc : bs.map toAsciiLowercase = cs.map toAsciiLowercase) (hfirst : caseBefore as bs = true)
    (hlast : caseBefore bs cs = true) : caseBefore as cs = true := by
  induction as generalizing bs cs with
  | nil =>
    cases cs <;> rfl
  | cons a as ih =>
    cases bs with
    | nil => cases hab
    | cons b bs =>
      cases cs with
      | nil => rfl
      | cons c cs =>
        obtain ⟨hab, habs⟩ := cons.inj hab
        obtain ⟨hbc, hbcs⟩ := cons.inj hbc
        unfold caseBefore at hfirst hlast ⊢
        by_cases hsame : a = b
        · subst hsame
          by_cases hsame : a = c
          · rw [if_neg (not_not.mpr hsame)] at hlast ⊢
            rw [if_neg (not_not.mpr rfl)] at hfirst
            exact ih habs hbcs hfirst hlast
          · rw [if_pos hsame] at hlast ⊢
            exact hlast
        · rw [if_pos hsame] at hfirst
          have hcase := uppercase_ne hab hsame
          by_cases hsame' : b = c
          · subst hsame'
            rw [if_pos hsame]
            exact hfirst
          · rw [if_pos hsame'] at hlast
            have hcase' := uppercase_ne hbc hsame'
            revert hfirst hlast hcase hcase'
            cases isAsciiUppercase a <;> cases isAsciiUppercase b <;>
              cases isAsciiUppercase c <;> simp

theorem caseBefore_total (as bs : List UInt8) :
    caseBefore as bs = true ∨ caseBefore bs as = true := by
  induction as generalizing bs with
  | nil => exact .inl rfl
  | cons a as ih =>
    cases bs with
    | nil => exact .inl rfl
    | cons b bs =>
      unfold caseBefore
      by_cases hsame : a = b
      · subst hsame
        simpa using ih bs
      · rw [if_pos hsame, if_pos (Ne.symm hsame)]
        cases isAsciiUppercase a <;> cases isAsciiUppercase b <;> simp

theorem bytes_trichotomy (xs ys : List UInt8) : xs < ys ∨ xs = ys ∨ ys < xs := by
  by_cases hless : ys < xs
  · exact .inr (.inr hless)
  · exact (List.le_iff_lt_or_eq.mp (List.not_lt.mp hless)).imp_right .inl

theorem uuidCollation_iff {first second : String} : uuidCollation first second = true ↔
    ThenBy (· < ·) (fun text ↦ (utf8 text).map toAsciiLowercase)
      (fun a b ↦ caseBefore (utf8 a) (utf8 b) = true) first second := by
  simp [uuidCollation, ThenBy]

namespace StoredReceipt

theorem listedBefore_iff {first second : StoredReceipt} : first.listedBefore second = true ↔
    ThenBy (fun x y ↦ y < x) (fun receipt : StoredReceipt ↦ utf8 receipt.created)
      (fun a b ↦ uuidCollation a.id b.id = true) first second := by
  simp only [listedBefore, ThenBy, textLt, Bool.or_eq_true, Bool.and_eq_true, decide_eq_true_eq,
    beq_iff_eq]
  exact or_congr_right (and_congr_left fun _ ↦ eq_comm)

theorem listedBefore_trans (a b c : StoredReceipt) (hab : a.listedBefore b = true)
    (hbc : b.listedBefore c = true) : a.listedBefore c = true := by
  rw [listedBefore_iff] at *
  have hgreater : ∀ x y z : List UInt8, y < x → z < y → z < x :=
    fun _ _ _ hxy hyz ↦ List.lt_trans hyz hxy
  refine ThenBy.trans hgreater ?_ hab hbc
  intro a b c _ _ hab hbc
  rw [uuidCollation_iff] at *
  have hless : ∀ x y z : List UInt8, x < y → y < z → x < z := fun _ _ _ ↦ List.lt_trans
  exact ThenBy.trans hless (fun _ _ _ ↦ caseBefore_trans) hab hbc

theorem listedBefore_total (a b : StoredReceipt) :
    (a.listedBefore b || b.listedBefore a) = true := by
  rw [Bool.or_eq_true, listedBefore_iff, listedBefore_iff]
  refine ThenBy.total (fun x y ↦ ?_) (fun a b ↦ ?_) a b
  · obtain hless | hsame | hgreater := bytes_trichotomy x y
    · exact .inr (.inr hless)
    · exact .inr (.inl hsame)
    · exact .inl hgreater
  · rw [uuidCollation_iff, uuidCollation_iff]
    exact ThenBy.total bytes_trichotomy (fun _ _ ↦ caseBefore_total _ _) a.id b.id

end StoredReceipt

variable {fault : Option IoError} {receipts shown : List StoredReceipt} {store : BackendStore}
  {stamp : Stamp}

/-- The inventory shows no receipt before one with larger creation bytes. -/
theorem listed_pairwise (hreceipts : store.inventory fault = .ok receipts)
    (hshown : store.listed fault = .ok shown) :
    shown.Perm receipts ∧
      shown.Pairwise fun first second ↦ textLt first.created second.created = false := by
  unfold BackendStore.listed at hshown
  rw [hreceipts] at hshown
  cases hshown
  refine ⟨mergeSort_perm _ _, ?_⟩
  refine (pairwise_mergeSort StoredReceipt.listedBefore_trans
    StoredReceipt.listedBefore_total receipts).imp fun {first second} hbefore ↦ ?_
  rw [textLt, decide_eq_false_iff_not]
  obtain hless | ⟨hsame, -⟩ := StoredReceipt.listedBefore_iff.mp hbefore
  · exact List.lt_asymm hless
  · have hsame : utf8 first.created = utf8 second.created := hsame
    rw [hsame]
    exact List.lt_irrefl _

/-! ### The order of the times -/

/-- A stored receipt has a valid creation timestamp. -/
theorem StoredReceipt.validTimestamp_created (receipt : StoredReceipt) :
    validTimestamp receipt.created = true := by
  cases receipt with
  | v1 receipt =>
    have hvalid := receipt.2
    simp only [OperationRecord.valid, Bool.and_eq_true] at hvalid
    exact hvalid.1.1.2
  | generic receipt =>
    have hvalid := receipt.2
    simp only [GenericRecord.valid, Bool.and_eq_true] at hvalid
    exact Stamp.validTimestamp_created hvalid.1.1.1.2
  | restore receipt =>
    have hvalid := receipt.2
    simp only [RestoreRecord.valid, Bool.and_eq_true] at hvalid
    exact Stamp.validTimestamp_created hvalid.1.1.2
  | apply receipt => exact Stamp.validTimestamp_created (ApplyRecord.valid_iff.mp receipt.2).2.2.1
  | capture receipt =>
    exact Stamp.validTimestamp_created (CaptureRecord.valid_iff.mp receipt.2).2.2.1

theorem Outlasts.extends {longer shorter : String} (houtlasts : Outlasts longer shorter) :
    Extends longer shorter := by
  obtain ⟨hsecond, rest, happend, d, hmem, -⟩ := houtlasts
  exact ⟨hsecond, rest, ne_nil_of_mem hmem, happend⟩

/-- Two members of a list are related in the one order or in the other. -/
theorem or_of_pairwise {α : Type} {R : α → α → Prop} {xs : List α} {a b : α}
    (hpairwise : xs.Pairwise R) (ha : a ∈ xs) (hb : b ∈ xs) (hne : a ≠ b) : R a b ∨ R b a := by
  have hsymm : Std.Symm fun a b ↦ R a b ∨ R b a := ⟨fun _ _ ↦ Or.symm⟩
  have hor : xs.Pairwise fun a b ↦ R a b ∨ R b a := hpairwise.imp Or.inl
  exact hor.forall ha hb hne

/-- Receipts in the order of their times, the latest first. -/
def Chronological (receipts : List StoredReceipt) : Prop :=
  receipts.Pairwise fun first second ↦ instant second.created ≤ instant first.created

theorem chronological_iff (hreceipts : store.inventory fault = .ok receipts)
    (hshown : store.listed fault = .ok shown) :
    Chronological shown ↔
      ∀ first ∈ receipts, ∀ second ∈ receipts, ¬ Outlasts first.created second.created := by
  obtain ⟨hperm, hbytes⟩ := listed_pairwise hreceipts hshown
  constructor
  · intro hchronological first hfirst second hsecond houtlasts
    obtain ⟨hless, hinstant⟩ :=
      (compare_timestamps second.validTimestamp_created first.validTimestamp_created).2.mpr
        houtlasts
    have hbytesLess : textLt first.created second.created = true :=
      ((compare_timestamps first.validTimestamp_created second.validTimestamp_created).1.mpr
        houtlasts.extends).1
    have hne : first ≠ second := by
      rintro rfl
      exact lt_irrefl _ hinstant
    obtain ⟨hless, -⟩ | ⟨-, hle⟩ := or_of_pairwise (hbytes.and hchronological)
      (hperm.mem_iff.mpr hfirst) (hperm.mem_iff.mpr hsecond) hne
    · rw [hbytesLess] at hless
      cases hless
    · exact absurd hinstant (not_lt.mpr hle)
  · intro hnone
    refine hbytes.imp_of_mem fun {first second} hfirst hsecond hless ↦ ?_
    by_contra hlate
    have houtlasts :=
      (compare_timestamps first.validTimestamp_created second.validTimestamp_created).2.mp
        ⟨hless, not_le.mp hlate⟩
    exact hnone second (hperm.mem_iff.mp hsecond) first (hperm.mem_iff.mp hfirst) houtlasts

theorem iff_iff_neither {p q : Prop} : (p ↔ q) ↔ ¬ (p ∧ ¬ q) ∧ ¬ (¬ p ∧ q) := by
  tauto

/-- The check of an update time refuses exactly the earlier ones, unless one of the two fractions
goes on where the other ends: with more digits the update is refused though it is not earlier, and
with fewer it is accepted though it is earlier when a digit left out is not zero. -/
theorem refuses_iff {created updated : String} (hcreated : validTimestamp created = true)
    (hupdated : validTimestamp updated = true) :
    (textLt updated created = true ↔ instant updated < instant created) ↔
      ¬ Extends updated created ∧ ¬ Outlasts created updated := by
  obtain ⟨hextends, houtlasts⟩ := compare_timestamps hupdated hcreated
  rw [← hextends, ← houtlasts, ← Bool.not_eq_true]
  exact iff_iff_neither

/-- The identity check with the update at the creation, and with a valid update time. -/
theorem Stamp.valid_iff_not_before
    (hcreated : ({ stamp with updatedAt := stamp.createdAt } : Stamp).valid = true)
    (hupdated : validTimestamp stamp.updatedAt = true) :
    stamp.valid = false ↔ textLt stamp.updatedAt stamp.createdAt = true := by
  simp only [Stamp.valid, Bool.and_eq_true] at hcreated
  obtain ⟨⟨⟨⟨⟨huuid, hhash⟩, hgeneration⟩, htime⟩, -⟩, -⟩ := hcreated
  simp [Stamp.valid, huuid, hhash, hgeneration, htime, hupdated]

/-- The shown order is that of the times exactly when no receipt's fraction of a second goes on,
with more than zeros, where another's of the same second ends. And the check of an update time, in
the identity check that the versions 2 to 5 share and in the version 2 validator, refuses exactly
the earlier updates when neither fraction goes on where the other ends, but for zeros of the
creation time. -/
theorem inventory_chronological_iff (store : BackendStore) (fault : Option IoError)
    (receipts shown : List StoredReceipt) (stamp : Stamp) (record : GenericRecord) :
    (store.inventory fault = .ok receipts → store.listed fault = .ok shown →
      (Chronological shown ↔ ∀ first ∈ receipts, ∀ second ∈ receipts,
        ¬ Outlasts first.created second.created)) ∧
    (({ stamp with updatedAt := stamp.createdAt } : Stamp).valid = true →
      validTimestamp stamp.updatedAt = true →
        ((stamp.valid = false ↔ instant stamp.updatedAt < instant stamp.createdAt) ↔
          ¬ Extends stamp.updatedAt stamp.createdAt ∧
            ¬ Outlasts stamp.createdAt stamp.updatedAt)) ∧
    (({ record with updatedAt := record.createdAt } : GenericRecord).valid = true →
      validTimestamp record.updatedAt = true →
        ((GenericReceipt.checked record = .error .invalidReceipt ↔
            instant record.updatedAt < instant record.createdAt) ↔
          ¬ Extends record.updatedAt record.createdAt ∧
            ¬ Outlasts record.createdAt record.updatedAt)) := by
  refine ⟨chronological_iff, ?_, ?_⟩
  · intro hcreated hupdated
    have hcreatedAt := Stamp.validTimestamp_created hcreated
    rw [Stamp.valid_iff_not_before hcreated hupdated]
    exact refuses_iff hcreatedAt hupdated
  · intro hrecord hupdated
    simp only [GenericRecord.valid, Bool.and_eq_true] at hrecord
    obtain ⟨⟨⟨⟨hidentity, hstamp⟩, hdisposition⟩, hpost⟩, hrendered⟩ := hrecord
    have hchecked : GenericReceipt.checked record = .error .invalidReceipt ↔
        record.toStamp.valid = false := by
      unfold GenericReceipt.checked checkedBy
      split_ifs with hvalid
      · simp only [GenericRecord.valid, Bool.and_eq_true] at hvalid
        simp [hvalid.1.1.1.2]
      · have hinvalid : ¬ record.toStamp.valid = true := by
          intro hstamp
          refine hvalid ?_
          simp only [GenericRecord.valid, Bool.and_eq_true]
          exact ⟨⟨⟨⟨hidentity, hstamp⟩, hdisposition⟩, hpost⟩, hrendered⟩
        simpa using hinvalid
    have hcreatedAt := Stamp.validTimestamp_created hstamp
    rw [hchecked, Stamp.valid_iff_not_before hstamp hupdated]
    exact refuses_iff hcreatedAt hupdated

/-- A request receipt with given times. -/
def requestRecord (operationId createdAt updatedAt : String) : GenericRecord where
  operationId := operationId
  endpointHash := "0000000000000000000000000000000000000000000000000000000000000000"
  generation := 1
  createdAt := createdAt
  updatedAt := updatedAt
  version := 2
  kind := "request"
  requestType := .recordPause
  phase := .prepared
  requestDispatched := some false
  requestAccepted := none
  postconditionObserved := false
  renderedComposition := "unverified"

/-- A receipt created at a whole second is shown before one created half a second later, and an
update half a second after a creation at a whole second is refused. -/
theorem mixed_precision :
    (∃ (store : BackendStore) (shown : List StoredReceipt),
      store.listed none = .ok shown ∧ ¬ Chronological shown) ∧
    GenericReceipt.checked (requestRecord "00000000-0000-4000-8000-000000000001"
      "2026-01-01T00:00:00Z" "2026-01-01T00:00:00.5Z") = .error .invalidReceipt ∧
    ¬ instant "2026-01-01T00:00:00.5Z" < instant "2026-01-01T00:00:00Z" := by
  refine ⟨?_, by decide +kernel, by decide +kernel⟩
  let whole : StoredReceipt := .generic ⟨requestRecord "00000000-0000-4000-8000-000000000001"
    "2026-01-01T00:00:00Z" "2026-01-01T00:00:00Z", by decide +kernel⟩
  let half : StoredReceipt := .generic ⟨requestRecord "00000000-0000-4000-8000-000000000002"
    "2026-01-01T00:00:00.5Z" "2026-01-01T00:00:00.5Z", by decide +kernel⟩
  let store : BackendStore := ⟨"0000000000000000000000000000000000000000000000000000000000000000",
    [⟨whole.id, some whole⟩, ⟨half.id, some half⟩], false, by decide +kernel⟩
  have hinventory : (store.inventory none).toOption = some [whole, half] := by decide +kernel
  cases hreceipts : store.inventory none with
  | error error =>
    rw [hreceipts] at hinventory
    cases hinventory
  | ok receipts =>
    rw [hreceipts] at hinventory
    obtain rfl : receipts = [whole, half] := Option.some.inj hinventory
    have hlisted : store.listed none =
        .ok ([whole, half].mergeSort StoredReceipt.listedBefore) := by
      unfold BackendStore.listed
      rw [hreceipts]
      rfl
    refine ⟨store, _, hlisted, ?_⟩
    rw [chronological_iff hreceipts hlisted]
    intro hnone
    refine hnone half (by simp) whole (by simp) ⟨by decide +kernel, [5], by decide +kernel, ?_⟩
    exact ⟨5, by simp, by decide⟩

end ObsMcp.Receipts
