import Mathlib.Logic.Denumerable
import ObsMcp.Observation.KeyCollation
import ObsMcp.Stage.Surroundings

/-!
# Signatures of observations

`signature` of `observation.rs` is a text of a JSON value, with the keys of every object in their
order. Two values have one signature exactly when they are the same up to the order of members and
the equality of numbers as floats (`signature_eq_iff`): the order of the keys does not depend on the
order of the members, and the text of a value ends where it ends whatever stands behind it
(`written_unambiguous`).

The rendering of numbers is a parameter. A signature of a value with a key whose collation is not
known is refused.
-/

namespace ObsMcp.Observation

open Foundations List Option

open Stage (ObservationError)

open Transform (IsNumber encode)

/-! ### The signature -/

/-- The rendering of numbers: one text for each number, the two zeros being one, in the syntax of
JSON. -/
structure Rendering where
  jsNumber : Finite64 → List Char
  injective : ∀ x y, jsNumber x = jsNumber y ↔ (x.value == y.value) = true
  isNumber : ∀ x, IsNumber (jsNumber x)

/-- A rendering: the digits of a number that stands for the sign, the mantissa and the exponent. -/
def Rendering.plain : Rendering where
  jsNumber x := '1' :: Nat.toDigits 10 (Encodable.encode (Binary64.parts x.value.toModel.unpack))
  injective x y := by
    have hdigits : ∀ m n : ℕ, Nat.toDigits 10 m = Nat.toDigits 10 n → m = n := by
      intro m n hsame
      have hread := Transform.readDigits_toDigits m
      rw [hsame, Transform.readDigits_toDigits, some_inj] at hread
      exact hread.symm
    rw [Binary64.beq_iff, cons_inj_right]
    constructor
    · intro hsame
      obtain ⟨found, hfound⟩ := Binary64.exists_parts x.finite
      exact ⟨found, hfound, (Encodable.encode_injective (hdigits _ _ hsame)).symm.trans hfound⟩
    · rintro ⟨found, hx, hy⟩
      rw [hx, hy]
  isNumber x := by
    refine ⟨[], '1' :: Nat.toDigits 10 (Encodable.encode (Binary64.parts x.value.toModel.unpack)),
      [], [], by simp, .inl rfl, .inr ⟨⟨cons_ne_nil _ _, ?_⟩, ?_⟩, .inl rfl, .inl rfl⟩
    · intro c hc
      rcases mem_cons.mp hc with rfl | hc
      · rfl
      · exact Nat.isDigit_of_mem_toDigits (by decide) (by decide) hc
    · simp

/-- Texts with commas between them. -/
def commas : List (List Char) → List Char
  | [] => []
  | [text] => text
  | text :: texts => text ++ ',' :: commas texts

/-- The refusal of a key whose collation is not known. -/
def collationUnavailable : ObservationError :=
  .new "evidence_unavailable" "Observation signature property collation is unavailable"

section Write

variable (rendering : Rendering)

/-- The text of a member. -/
def memberText (member : String × List Char) : List Char :=
  encode member.1.toList ++ ':' :: member.2

/-- Members in the order of their keys. -/
def sorted {α : Type} (members : List (String × α)) : List (String × α) :=
  members.mergeSort fun a b ↦ keyOrder a.1.toList b.1.toList ≠ .gt

mutual

def writeSignature : Json → Except ObservationError (List Char)
  | .null => .ok "null".toList
  | .bool b => .ok (toString b).toList
  | .number n => .ok (rendering.jsNumber ⟨n.asF64, n.asF64_isFinite⟩)
  | .string s => .ok (encode s.toList)
  | .array items => do
    let texts ← writeItems items
    return '[' :: commas texts ++ [']']
  | .object members =>
    if members.any fun member ↦ !member.1.toList.all isKeyChar then .error collationUnavailable
    else do
      let written ← writeMembers members
      return '\x7b' :: commas ((sorted written).map memberText) ++ ['\x7d']

def writeItems : List Json → Except ObservationError (List (List Char))
  | [] => .ok []
  | item :: items => do
    let text ← writeSignature item
    let texts ← writeItems items
    return text :: texts

def writeMembers : List (String × Json) → Except ObservationError (List (String × List Char))
  | [] => .ok []
  | (key, value) :: members => do
    let text ← writeSignature value
    let written ← writeMembers members
    return (key, text) :: written

end

/-- The canonical text of a value. -/
def signature (value : Json) : Except ObservationError String :=
  (writeSignature rendering value).map String.ofList

end Write

/-! ### What is written -/

section Written

variable {rendering : Rendering} {items : List Json} {members : Members}

/-- A value has a signature. -/
def Writable (rendering : Rendering) (value : Json) : Prop :=
  ∃ text, writeSignature rendering value = .ok text

/-- The text of a value that has a signature. -/
def written (rendering : Rendering) (value : Json) : List Char :=
  (writeSignature rendering value).toOption.getD []

variable {value : Json}

theorem write_eq_ok (hvalue : Writable rendering value) :
    writeSignature rendering value = .ok (written rendering value) := by
  obtain ⟨text, htext⟩ := hvalue
  rw [written, htext]
  rfl

/-- A value has a signature, or is refused for a key. -/
def Settled (rendering : Rendering) (value : Json) : Prop :=
  Writable rendering value ∨ writeSignature rendering value = .error collationUnavailable

theorem not_writable_of_error {error : ObservationError}
    (herror : writeSignature rendering value = .error error) : ¬ Writable rendering value := by
  rintro ⟨text, htext⟩
  rw [herror] at htext
  cases htext

open Classical in
theorem writeItems_eq (hitems : ∀ item ∈ items, Settled rendering item) :
    writeItems rendering items = if ∀ item ∈ items, Writable rendering item then
      .ok (items.map (written rendering)) else .error collationUnavailable := by
  induction items with
  | nil => simp [writeItems]
  | cons item items ih =>
    obtain ⟨hitem, hitems⟩ := forall_mem_cons.mp hitems
    rw [writeItems, ih hitems]
    rcases hitem with hitem | hitem
    · rw [write_eq_ok hitem]
      by_cases hrest : ∀ item ∈ items, Writable rendering item
      · rw [if_pos hrest, if_pos (forall_mem_cons.mpr ⟨hitem, hrest⟩)]
        rfl
      · rw [if_neg hrest, if_neg fun hall ↦ hrest (forall_mem_cons.mp hall).2]
        rfl
    · rw [hitem, if_neg fun hall ↦
        not_writable_of_error hitem (forall_mem_cons.mp hall).1]
      rfl

open Classical in
theorem writeMembers_eq (hmembers : ∀ member ∈ members, Settled rendering member.2) :
    writeMembers rendering members = if ∀ member ∈ members, Writable rendering member.2 then
      .ok (members.map (Prod.map id (written rendering))) else .error collationUnavailable := by
  induction members with
  | nil => simp [writeMembers]
  | cons member members ih =>
    obtain ⟨hmember, hothers⟩ := forall_mem_cons.mp hmembers
    obtain ⟨key, value⟩ := member
    have hall : (∀ member ∈ (key, value) :: members, Writable rendering member.2) ↔
        Writable rendering value ∧ ∀ member ∈ members, Writable rendering member.2 :=
      forall_mem_cons
    rw [writeMembers, ih hothers]
    simp only [hall]
    rcases hmember with hmember | hmember
    · rw [write_eq_ok hmember]
      by_cases hrest : ∀ member ∈ members, Writable rendering member.2
      · rw [if_pos hrest, if_pos ⟨hmember, hrest⟩]
        rfl
      · rw [if_neg hrest, if_neg fun hboth ↦ hrest hboth.2]
        rfl
    · have hnot : ¬ (Writable rendering value ∧
          ∀ member ∈ members, Writable rendering member.2) :=
        fun hboth ↦ not_writable_of_error hmember hboth.1
      rw [hmember, if_neg hnot]
      rfl

theorem settled (rendering : Rendering) (value : Json) : Settled rendering value := by
  induction value using Json.induct with
  | null => exact .inl ⟨_, by rw [writeSignature]⟩
  | bool b => exact .inl ⟨_, by rw [writeSignature]⟩
  | number n => exact .inl ⟨_, by rw [writeSignature]⟩
  | string s => exact .inl ⟨_, by rw [writeSignature]⟩
  | array items ih =>
    unfold Settled Writable
    rw [writeSignature, writeItems_eq ih]
    split_ifs
    · exact .inl ⟨_, rfl⟩
    · exact .inr rfl
  | object members ih =>
    unfold Settled Writable
    rw [writeSignature, writeMembers_eq ih]
    split_ifs
    · exact .inr rfl
    · exact .inl ⟨_, rfl⟩
    · exact .inr rfl

theorem writable_array : Writable rendering (.array items) ↔
    ∀ item ∈ items, Writable rendering item := by
  conv_lhs => rw [Writable, writeSignature, writeItems_eq fun item _ ↦ settled rendering item]
  split_ifs with hitems
  · exact iff_of_true ⟨_, rfl⟩ hitems
  · exact iff_of_false (by rintro ⟨text, ⟨⟩⟩) hitems

theorem written_array (hitems : ∀ item ∈ items, Writable rendering item) :
    written rendering (.array items) =
      '[' :: commas (items.map (written rendering)) ++ [']'] := by
  rw [written, writeSignature, writeItems_eq fun item _ ↦ settled rendering item, if_pos hitems]
  rfl

theorem writable_object : Writable rendering (.object members) ↔
    (∀ member ∈ members, IsKey member.1.toList) ∧
      ∀ member ∈ members, Writable rendering member.2 := by
  have hkeys : (members.any fun member ↦ !member.1.toList.all isKeyChar) = true ↔
      ¬ ∀ member ∈ members, IsKey member.1.toList := by
    simp [IsKey]
  conv_lhs =>
    rw [Writable, writeSignature, writeMembers_eq fun member _ ↦ settled rendering member.2]
  split_ifs with hbad hmembers
  · exact iff_of_false (by rintro ⟨text, ⟨⟩⟩) fun hboth ↦ hkeys.mp hbad hboth.1
  · exact iff_of_true ⟨_, rfl⟩ ⟨not_not.mp (hkeys.not.mp hbad), hmembers⟩
  · exact iff_of_false (by rintro ⟨text, ⟨⟩⟩) fun hboth ↦ hmembers hboth.2

/-- The text of a member of an object. -/
def memberWritten (rendering : Rendering) (member : String × Json) : List Char :=
  encode member.1.toList ++ ':' :: written rendering member.2

theorem written_object (hobject : Writable rendering (.object members)) :
    written rendering (.object members) =
      '\x7b' :: commas ((sorted members).map (memberWritten rendering)) ++ ['\x7d'] := by
  obtain ⟨hkeys, hmembers⟩ := writable_object.mp hobject
  have hgood : (members.any fun member ↦ !member.1.toList.all isKeyChar) = false := by
    simpa [IsKey] using hkeys
  have hsorted : sorted (members.map (Prod.map id (written rendering))) =
      (sorted members).map (Prod.map id (written rendering)) :=
    (List.map_mergeSort (f := Prod.map id (written rendering)) fun _ _ _ _ ↦ rfl).symm
  rw [written, writeSignature, writeMembers_eq fun member _ ↦ settled rendering member.2,
    if_pos hmembers, hgood, if_neg Bool.false_ne_true]
  show '\x7b' :: commas ((sorted (members.map (Prod.map id (written rendering)))).map memberText) ++
    ['\x7d'] = _
  rw [hsorted, List.map_map]
  rfl

end Written

/-! ### Where a text ends -/

/-- What can stand behind a value: the end, a comma or a closing bracket. -/
def Delimited (rest : List Char) : Prop :=
  ∀ c ∈ rest.head?, c ∈ [',', ']', '\x7d']

theorem encode_unambiguous {first second rest other : List Char}
    (htext : encode first ++ rest = encode second ++ other) : first = second ∧ rest = other := by
  obtain ⟨body, hbody, hfirst⟩ := Transform.isString_encode first
  obtain ⟨content, hcontent, hsecond⟩ := Transform.isString_encode second
  have hbodies : body ++ '"' :: rest = content ++ '"' :: other := by
    have hboth := htext
    rw [hfirst, hsecond] at hboth
    simpa using hboth
  have hrest := Transform.quoted_of_quotable hbody rest
  rw [hbodies, Transform.quoted_of_quotable hcontent other, some_inj] at hrest
  subst hrest
  have hencode := congrArg Transform.decode (append_cancel_right htext)
  rw [Transform.decode_encode, Transform.decode_encode, some_inj] at hencode
  exact ⟨hencode, rfl⟩

section Commas

variable {α β : Type} {R : α → β → Prop} {f : α → List Char} {g : β → List Char} {close : Char}

/-- What stands behind the first of some texts. -/
def behind (texts : List (List Char)) (close : Char) (rest : List Char) : List Char :=
  if texts.isEmpty then close :: rest else ',' :: (commas texts ++ close :: rest)

theorem commas_cons (text : List Char) (texts : List (List Char)) (rest : List Char) :
    commas (text :: texts) ++ close :: rest = text ++ behind texts close rest := by
  cases texts with
  | nil => rfl
  | cons other texts =>
    rw [commas, behind, isEmpty_cons, if_neg Bool.false_ne_true, append_assoc]
    · rfl
    · simp

theorem delimited_behind (hclose : close ∈ [']', '\x7d']) (texts : List (List Char))
    (rest : List Char) : Delimited (behind texts close rest) := by
  intro c hc
  unfold behind at hc
  split_ifs at hc
  · obtain rfl := mem_some.mp hc
    exact mem_cons_of_mem _ hclose
  · obtain rfl := mem_some.mp hc
    exact mem_cons_self

/-- Rows of texts that end where they end are read off the row part by part. -/
theorem commas_unambiguous (hclose : close ∈ [']', '\x7d']) {as : List α} {bs : List β}
    {rest other : List Char}
    (hstep : ∀ a ∈ as, ∀ b ∈ bs, ∀ rest other, Delimited rest → Delimited other →
      f a ++ rest = g b ++ other → R a b ∧ rest = other)
    (hfirst : ∀ a ∈ as, ∃ c tail, f a = c :: tail ∧ c ≠ close)
    (hsecond : ∀ b ∈ bs, ∃ c tail, g b = c :: tail ∧ c ≠ close)
    (htext : commas (as.map f) ++ close :: rest = commas (bs.map g) ++ close :: other) :
    List.Forall₂ R as bs ∧ rest = other := by
  induction as generalizing bs with
  | nil =>
    cases bs with
    | nil => exact ⟨.nil, (cons.inj htext).2⟩
    | cons b bs =>
      obtain ⟨c, tail, hc, hne⟩ := hsecond b mem_cons_self
      rw [map_cons, commas_cons, hc] at htext
      exact absurd (cons.inj htext).1.symm hne
  | cons a as ih =>
    cases bs with
    | nil =>
      obtain ⟨c, tail, hc, hne⟩ := hfirst a mem_cons_self
      rw [map_cons, commas_cons, hc] at htext
      exact absurd (cons.inj htext).1 hne
    | cons b bs =>
      rw [map_cons, map_cons, commas_cons, commas_cons] at htext
      obtain ⟨hab, hbehind⟩ := hstep a mem_cons_self b mem_cons_self _ _
        (delimited_behind hclose _ _) (delimited_behind hclose _ _) htext
      have hcomma : close ≠ ',' := by
        rintro rfl
        exact absurd hclose (by decide)
      have hrows : commas (as.map f) ++ close :: rest = commas (bs.map g) ++ close :: other := by
        unfold behind at hbehind
        split_ifs at hbehind with hnone hnothing hnothing
        · rw [isEmpty_iff.mp hnone, isEmpty_iff.mp hnothing]
          exact hbehind
        · exact absurd (cons.inj hbehind).1 hcomma
        · exact absurd (cons.inj hbehind).1.symm hcomma
        · exact (cons.inj hbehind).2
      obtain ⟨hrest, hends⟩ := ih
        (fun a ha b hb ↦ hstep a (mem_cons_of_mem _ ha) b (mem_cons_of_mem _ hb))
        (fun a ha ↦ hfirst a (mem_cons_of_mem _ ha))
        (fun b hb ↦ hsecond b (mem_cons_of_mem _ hb)) hrows
      exact ⟨.cons hab hrest, hends⟩

end Commas

/-! ### Values that are the same -/

mutual

/-- Two values are equal up to the order of object members and the equality of numbers as
floats. -/
def Same : Json → Json → Prop
  | .null, .null => True
  | .bool a, .bool b => a = b
  | .number m, .number n => (m.asF64 == n.asF64) = true
  | .string s, .string t => s = t
  | .array xs, .array ys => SameItems xs ys
  | .object xs, .object ys =>
    (∀ key, key ∈ Members.keys xs ↔ key ∈ Members.keys ys) ∧ SameMembers xs ys
  | _, _ => False

def SameItems : List Json → List Json → Prop
  | [], [] => True
  | x :: xs, y :: ys => Same x y ∧ SameItems xs ys
  | _, _ => False

/-- Every member has a value that is the same in the other object. -/
def SameMembers : List (String × Json) → Members → Prop
  | [], _ => True
  | (key, x) :: xs, ys => (∃ y, Members.get ys key = some y ∧ Same x y) ∧ SameMembers xs ys

end

theorem sameItems_iff {xs ys : List Json} : SameItems xs ys ↔ List.Forall₂ Same xs ys := by
  induction xs generalizing ys with
  | nil => cases ys <;> simp [SameItems]
  | cons x xs ih => cases ys <;> simp [SameItems, ih]

theorem sameMembers_iff {xs ys : Members} : SameMembers xs ys ↔
    ∀ member ∈ xs, ∃ y, Members.get ys member.1 = some y ∧ Same member.2 y := by
  induction xs with
  | nil => simp [SameMembers]
  | cons x xs ih => simp [SameMembers, ih]

/-! ### The text of a value -/

/-- The first character of a text tells the kind of the value. -/
inductive Starts : Json → Char → Prop
  | null : Starts .null 'n'
  | true : Starts (.bool true) 't'
  | false : Starts (.bool false) 'f'
  | sign (n : Number) : Starts (.number n) '-'
  | digit (n : Number) {c : Char} (hc : c.isDigit = true) : Starts (.number n) c
  | string (s : String) : Starts (.string s) '"'
  | array (items : List Json) : Starts (.array items) '['
  | object (members : Members) : Starts (.object members) '\x7b'

theorem Starts.exists_number {m : Number} {b : Json} {c : Char} (hstart : Starts (.number m) c)
    (hcommon : Starts b c) : ∃ n, b = .number n := by
  cases hstart with
  | sign =>
    cases hcommon with
    | sign n => exact ⟨n, rfl⟩
    | digit n hc => exact ⟨n, rfl⟩
  | digit _ hc =>
    cases hcommon with
    | sign n => exact ⟨n, rfl⟩
    | digit n _ => exact ⟨n, rfl⟩
    | _ => exact absurd hc (by decide)

section Text

variable {rendering : Rendering}

theorem written_number (n : Number) : written rendering (.number n) =
    rendering.jsNumber ⟨n.asF64, n.asF64_isFinite⟩ := by
  rw [written, writeSignature]
  rfl

variable {value : Json} {other rest : List Char}

theorem exists_start (hvalue : Writable rendering value) :
    ∃ c tail, written rendering value = c :: tail ∧ Starts value c := by
  cases value with
  | null => exact ⟨'n', _, rfl, .null⟩
  | bool b =>
    cases b with
    | true => exact ⟨'t', _, rfl, .true⟩
    | false => exact ⟨'f', _, rfl, .false⟩
  | number n =>
    obtain ⟨c, tail, htext, hc⟩ := (rendering.isNumber ⟨n.asF64, n.asF64_isFinite⟩).head
    refine ⟨c, tail, (written_number n).trans htext, ?_⟩
    rcases hc with rfl | hc
    · exact .sign n
    · exact .digit n hc
  | string s => exact ⟨'"', _, rfl, .string s⟩
  | array items => exact ⟨'[', _, written_array (writable_array.mp hvalue), .array items⟩
  | object members => exact ⟨'\x7b', _, written_object hvalue, .object members⟩

theorem not_delimiter_of_starts {c : Char} (hstarts : Starts value c) : c ∉ [',', ']', '\x7d'] := by
  cases hstarts with
  | digit n hc =>
    intro hmem
    simp only [mem_cons, not_mem_nil, or_false] at hmem
    rcases hmem with rfl | rfl | rfl <;> exact absurd hc (by decide)
  | _ => decide

/-- Texts that agree start with one character. -/
theorem exists_common_start {a b : Json} (ha : Writable rendering a) (hb : Writable rendering b)
    (htext : written rendering a ++ rest = written rendering b ++ other) :
    ∃ c, Starts a c ∧ Starts b c := by
  obtain ⟨c, tail, hfirst, hc⟩ := exists_start ha
  obtain ⟨d, end', hsecond, hd⟩ := exists_start hb
  rw [hfirst, hsecond, cons_append, cons_append] at htext
  exact ⟨c, hc, (cons.inj htext).1 ▸ hd⟩

theorem stops_of_delimited (hrest : Delimited rest) : Transform.Stops rest := by
  intro c hc
  have hmem := hrest c hc
  simp only [mem_cons, not_mem_nil, or_false] at hmem
  rcases hmem with rfl | rfl | rfl <;> rfl

theorem number_unambiguous {m n : Number} (hrest : Delimited rest) (hother : Delimited other)
    (htext : written rendering (.number m) ++ rest = written rendering (.number n) ++ other) :
    (m.asF64 == n.asF64) = true ∧ rest = other := by
  have hfirst := Transform.takeWhile_number
    (rendering.isNumber ⟨m.asF64, m.asF64_isFinite⟩).all (stops_of_delimited hrest)
  have hsecond := Transform.takeWhile_number
    (rendering.isNumber ⟨n.asF64, n.asF64_isFinite⟩).all (stops_of_delimited hother)
  rw [written_number, written_number] at htext
  rw [htext] at hfirst
  have hsame := rendering.injective ⟨m.asF64, m.asF64_isFinite⟩ ⟨n.asF64, n.asF64_isFinite⟩
  exact ⟨hsame.mp (hfirst.1.symm.trans hsecond.1), hfirst.2.symm.trans hsecond.2⟩

end Text

/-! ### Sorted members -/

section Sorted

variable {α : Type} {members : List (String × α)}

theorem sorted_perm (members : List (String × α)) : (sorted members).Perm members :=
  mergeSort_perm ..

theorem keyOrder_ne_gt_iff {a b : List Char} (ha : IsKey a) (hb : IsKey b) :
    keyOrder a b ≠ .gt ↔ (rankOrder a b).isLE := by
  rw [keyOrder_eq ha hb]
  cases rankOrder a b <;> simp

/-- The key of a member does not come behind that of another one. -/
def rankLE (a b : String × α) : Bool :=
  (rankOrder a.1.toList b.1.toList).isLE

theorem rankLE_trans (a b c : String × α) : rankLE a b = true → rankLE b c = true →
    rankLE a c = true :=
  isLE_rankOrder_trans

theorem rankLE_total (a b : String × α) : (rankLE a b || rankLE b a) = true := by
  rw [Bool.or_eq_true, rankLE, rankLE, rankOrder_swap a.1.toList]
  cases rankOrder a.1.toList b.1.toList <;> simp

section

variable (hkeys : ∀ member ∈ members, IsKey member.1.toList)
include hkeys

theorem sorted_eq : sorted members = members.mergeSort rankLE := by
  have hcongr := List.map_mergeSort (l := members) (f := id)
    (r := fun a b ↦ decide (keyOrder a.1.toList b.1.toList ≠ .gt)) (s := rankLE)
    fun a ha b hb ↦ by
      rw [Bool.eq_iff_iff, decide_eq_true_eq]
      exact keyOrder_ne_gt_iff (hkeys a ha) (hkeys b hb)
  rwa [List.map_id, List.map_id] at hcongr

/-- Sorted keys are in the order of their ranks. -/
theorem pairwise_sorted :
    ((sorted members).map Prod.fst).Pairwise fun a b ↦ (rankOrder a.toList b.toList).isLE := by
  rw [sorted_eq hkeys, pairwise_map]
  exact pairwise_mergeSort rankLE_trans rankLE_total members

/-- Members with the same keys come in one order of the keys. -/
theorem sorted_keys {others : List (String × α)}
    (hothers : ∀ member ∈ others, IsKey member.1.toList)
    (hperm : (members.map Prod.fst).Perm (others.map Prod.fst)) :
    (sorted members).map Prod.fst = (sorted others).map Prod.fst := by
  refine List.Perm.eq_of_pairwise ?_ (pairwise_sorted hkeys) (pairwise_sorted hothers) ?_
  · intro a b ha hb hab hba
    obtain ⟨first, hfirst, rfl⟩ := mem_map.mp ha
    obtain ⟨second, hsecond, rfl⟩ := mem_map.mp hb
    have hone := hkeys first ((sorted_perm members).subset hfirst)
    have htwo := hothers second ((sorted_perm others).subset hsecond)
    refine String.toList_injective ((keyOrder_eq_eq_iff hone htwo).mp ?_)
    rw [keyOrder_eq hone htwo]
    rw [rankOrder_swap first.1.toList] at hba
    cases hcompare : rankOrder first.1.toList second.1.toList with
    | eq => rfl
    | lt => simp [hcompare] at hba
    | gt => simp [hcompare] at hab
  · exact ((sorted_perm members).map _).trans (hperm.trans ((sorted_perm others).map _).symm)

end

end Sorted

/-! ### Texts and values -/

section Main

variable {rendering : Rendering}

theorem exists_start_ne {value : Json} (hvalue : Writable rendering value) {close : Char}
    (hclose : close ∈ [']', '\x7d']) :
    ∃ c tail, written rendering value = c :: tail ∧ c ≠ close := by
  obtain ⟨c, tail, htext, hc⟩ := exists_start hvalue
  refine ⟨c, tail, htext, ?_⟩
  rintro rfl
  exact not_delimiter_of_starts hc (mem_cons_of_mem _ hclose)

theorem memberWritten_unambiguous {a b : String × Json} {rest other : List Char}
    (hvalue : ∀ rest other, written rendering a.2 ++ rest = written rendering b.2 ++ other →
      Delimited rest → Delimited other → Same a.2 b.2 ∧ rest = other)
    (hrest : Delimited rest) (hother : Delimited other)
    (htext : memberWritten rendering a ++ rest = memberWritten rendering b ++ other) :
    (a.1 = b.1 ∧ Same a.2 b.2) ∧ rest = other := by
  unfold memberWritten at htext
  rw [append_assoc, append_assoc] at htext
  obtain ⟨hkey, hbehind⟩ := encode_unambiguous htext
  obtain ⟨hsame, hends⟩ := hvalue rest other (cons.inj hbehind).2 hrest hother
  exact ⟨⟨String.toList_injective hkey, hsame⟩, hends⟩

theorem exists_of_forall₂ {α β : Type} {R : α → β → Prop} {as : List α} {bs : List β}
    (hpairs : List.Forall₂ R as bs) {a : α} (ha : a ∈ as) : ∃ b ∈ bs, R a b := by
  induction hpairs with
  | nil => cases ha
  | cons hpair _ ih =>
    rcases mem_cons.mp ha with rfl | ha
    · exact ⟨_, mem_cons_self, hpair⟩
    · obtain ⟨b, hb, hab⟩ := ih ha
      exact ⟨b, mem_cons_of_mem _ hb, hab⟩

/-- Members that are the same in pairs make objects that are the same. -/
theorem same_object {xs ys : Members} (hys : (Members.keys ys).Nodup)
    (hpairs : List.Forall₂ (fun a b ↦ a.1 = b.1 ∧ Same a.2 b.2) (sorted xs) (sorted ys)) :
    Same (.object xs) (.object ys) := by
  have hkeys : (sorted xs).map Prod.fst = (sorted ys).map Prod.fst := by
    rw [← forall₂_eq_eq_eq, forall₂_map_left_iff, forall₂_map_right_iff]
    exact hpairs.imp fun _ _ hboth ↦ hboth.1
  have hperm : (Members.keys xs).Perm (Members.keys ys) :=
    ((sorted_perm xs).map Prod.fst).symm.trans (hkeys ▸ (sorted_perm ys).map Prod.fst)
  refine ⟨fun key ↦ hperm.mem_iff, sameMembers_iff.mpr fun member hmember ↦ ?_⟩
  obtain ⟨other, hother, hkey, hsame⟩ :=
    exists_of_forall₂ hpairs ((sorted_perm xs).mem_iff.mpr hmember)
  refine ⟨other.2, Members.get_eq_some_of_mem hys ?_, hsame⟩
  rw [hkey]
  exact (sorted_perm ys).mem_iff.mp hother

/-- The text of a value ends where it ends: two values whose texts agree up to a delimiter are the
same. -/
theorem written_unambiguous (a : Json) : ∀ {b : Json} {rest other : List Char}, a.WellFormed →
    b.WellFormed → Writable rendering a → Writable rendering b → Delimited rest → Delimited other →
      written rendering a ++ rest = written rendering b ++ other → Same a b ∧ rest = other := by
  intro b rest other ha hb hwa hwb hrest hother htext
  obtain ⟨c, hstart, hcommon⟩ := exists_common_start hwa hwb htext
  induction a using Json.induct generalizing b rest other c with
  | null =>
    cases hstart
    cases hcommon with
    | null => exact ⟨trivial, append_cancel_left htext⟩
    | digit n hc => exact absurd hc (by decide)
  | bool first =>
    cases hstart with
    | true =>
      cases hcommon with
      | true => exact ⟨rfl, append_cancel_left htext⟩
      | digit n hc => exact absurd hc (by decide)
    | false =>
      cases hcommon with
      | false => exact ⟨rfl, append_cancel_left htext⟩
      | digit n hc => exact absurd hc (by decide)
  | number m =>
    obtain ⟨n, rfl⟩ := hstart.exists_number hcommon
    exact number_unambiguous hrest hother htext
  | string s =>
    cases hstart
    cases hcommon with
    | string t =>
      obtain ⟨hsame, hends⟩ := encode_unambiguous htext
      exact ⟨String.toList_injective hsame, hends⟩
    | digit n hc => exact absurd hc (by decide)
  | array xs ih =>
    cases hstart
    cases hcommon with
    | array ys =>
      have hxs := writable_array.mp hwa
      have hys := writable_array.mp hwb
      have hwellx := Json.wellFormedItems_iff.mp ha
      have hwelly := Json.wellFormedItems_iff.mp hb
      have hclose : ']' ∈ [']', '\x7d'] := by decide
      rw [written_array hxs, written_array hys] at htext
      have hrows : commas (xs.map (written rendering)) ++ ']' :: rest =
          commas (ys.map (written rendering)) ++ ']' :: other := by
        simpa using htext
      obtain ⟨hpairs, hends⟩ := commas_unambiguous (R := Same) hclose
        (fun x hx y hy rest other hrest hother htext ↦ by
          obtain ⟨c, hstart, hcommon⟩ := exists_common_start (hxs x hx) (hys y hy) htext
          exact ih x hx (hwellx x hx) (hwelly y hy) (hxs x hx) (hys y hy) hrest hother htext c
            hstart hcommon)
        (fun x hx ↦ exists_start_ne (hxs x hx) hclose)
        (fun y hy ↦ exists_start_ne (hys y hy) hclose) hrows
      exact ⟨sameItems_iff.mpr hpairs, hends⟩
    | digit n hc => exact absurd hc (by decide)
  | object xs ih =>
    cases hstart
    cases hcommon with
    | object ys =>
      obtain ⟨-, hxs⟩ := writable_object.mp hwa
      obtain ⟨-, hys⟩ := writable_object.mp hwb
      have hwellx := Json.wellFormedMembers_iff.mp ha.2
      have hwelly := Json.wellFormedMembers_iff.mp hb.2
      have hclose : '\x7d' ∈ [']', '\x7d'] := by decide
      have hquote : ∀ member : String × Json,
          ∃ c tail, memberWritten rendering member = c :: tail ∧ c ≠ '\x7d' :=
        fun member ↦ ⟨'"', _, rfl, by decide⟩
      rw [written_object hwa, written_object hwb] at htext
      have hrows : commas ((sorted xs).map (memberWritten rendering)) ++ '\x7d' :: rest =
          commas ((sorted ys).map (memberWritten rendering)) ++ '\x7d' :: other := by
        simpa using htext
      obtain ⟨hpairs, hends⟩ := commas_unambiguous
        (R := fun a b ↦ a.1 = b.1 ∧ Same a.2 b.2) hclose
        (fun x hx y hy rest other hrest hother htext ↦ by
          have hx := (sorted_perm xs).mem_iff.mp hx
          have hy := (sorted_perm ys).mem_iff.mp hy
          refine memberWritten_unambiguous
            (fun rest other htext hrest hother ↦ ?_) hrest hother htext
          obtain ⟨c, hstart, hcommon⟩ := exists_common_start (hxs x hx) (hys y hy) htext
          exact ih x hx (hwellx x hx) (hwelly y hy) (hxs x hx) (hys y hy) hrest hother htext c
            hstart hcommon)
        (fun x _ ↦ hquote x) (fun y _ ↦ hquote y) hrows
      exact ⟨same_object hb.1 hpairs, hends⟩
    | digit n hc => exact absurd hc (by decide)

/-- Objects that are the same have the same keys. -/
theorem keys_perm {xs ys : Members} (hxs : (Members.keys xs).Nodup) (hys : (Members.keys ys).Nodup)
    (hkeys : ∀ key, key ∈ Members.keys xs ↔ key ∈ Members.keys ys) :
    (Members.keys xs).Perm (Members.keys ys) :=
  (perm_ext_iff_of_nodup hxs hys).mpr hkeys

/-- The sorted members of an object, by its sorted keys. -/
theorem map_memberWritten {xs : Members} (hxs : (Members.keys xs).Nodup) :
    (sorted xs).map (memberWritten rendering) = ((sorted xs).map Prod.fst).map fun key ↦
      memberWritten rendering (key, (Members.get xs key).getD .null) := by
  rw [List.map_map]
  refine List.map_congr_left fun member hmember ↦ ?_
  have hget := Members.get_eq_some_of_mem hxs ((sorted_perm xs).mem_iff.mp hmember)
  rw [Function.comp_apply, hget]
  rfl

/-- Two values are refused together and have one text. -/
def Agree (rendering : Rendering) (a b : Json) : Prop :=
  (Writable rendering a ↔ Writable rendering b) ∧
    (Writable rendering a → written rendering a = written rendering b)

theorem agree_array {xs ys : List Json} (hpairs : List.Forall₂ (Agree rendering) xs ys) :
    Agree rendering (.array xs) (.array ys) := by
  have hitems : ((∀ x ∈ xs, Writable rendering x) ↔ ∀ y ∈ ys, Writable rendering y) ∧
      ((∀ x ∈ xs, Writable rendering x) →
        xs.map (written rendering) = ys.map (written rendering)) := by
    induction hpairs with
    | nil => exact ⟨Iff.rfl, fun _ ↦ rfl⟩
    | cons hpair _ ih =>
      rw [forall_mem_cons, forall_mem_cons]
      refine ⟨and_congr hpair.1 ih.1, fun hboth ↦ ?_⟩
      rw [map_cons, map_cons, hpair.2 hboth.1, ih.2 hboth.2]
  refine ⟨writable_array.trans (hitems.1.trans writable_array.symm), fun hwritable ↦ ?_⟩
  have hxs := writable_array.mp hwritable
  rw [written_array hxs, written_array (hitems.1.mp hxs), hitems.2 hxs]

theorem agree_object {xs ys : Members} (hxs : (Members.keys xs).Nodup)
    (hys : (Members.keys ys).Nodup) (hkeys : ∀ key, key ∈ Members.keys xs ↔ key ∈ Members.keys ys)
    (hvalues : ∀ x ∈ xs, ∃ y, Members.get ys x.1 = some y ∧ Agree rendering x.2 y) :
    Agree rendering (.object xs) (.object ys) := by
  have hpairs : ∀ x ∈ xs, ∀ y ∈ ys, x.1 = y.1 → Agree rendering x.2 y.2 := by
    intro x hx y hy hkey
    obtain ⟨value, hget, hagree⟩ := hvalues x hx
    rw [hkey, Members.get_eq_some_of_mem hys hy, some_inj] at hget
    exact hget ▸ hagree
  have hforth : ∀ x ∈ xs, ∃ y ∈ ys, x.1 = y.1 := by
    intro x hx
    obtain ⟨y, hy, hkey⟩ := mem_map.mp ((hkeys x.1).mp (mem_map_of_mem hx))
    exact ⟨y, hy, hkey.symm⟩
  have hback : ∀ y ∈ ys, ∃ x ∈ xs, x.1 = y.1 := by
    intro y hy
    obtain ⟨x, hx, hkey⟩ := mem_map.mp ((hkeys y.1).mpr (mem_map_of_mem hy))
    exact ⟨x, hx, hkey⟩
  have hwritable : Writable rendering (.object xs) ↔ Writable rendering (.object ys) := by
    rw [writable_object, writable_object]
    constructor
    · rintro ⟨hgood, hwritable⟩
      refine ⟨fun y hy ↦ ?_, fun y hy ↦ ?_⟩
      · obtain ⟨x, hx, hkey⟩ := hback y hy
        exact hkey ▸ hgood x hx
      · obtain ⟨x, hx, hkey⟩ := hback y hy
        exact (hpairs x hx y hy hkey).1.mp (hwritable x hx)
    · rintro ⟨hgood, hwritable⟩
      refine ⟨fun x hx ↦ ?_, fun x hx ↦ ?_⟩
      · obtain ⟨y, hy, hkey⟩ := hforth x hx
        exact hkey ▸ hgood y hy
      · obtain ⟨y, hy, hkey⟩ := hforth x hx
        exact (hpairs x hx y hy hkey).1.mpr (hwritable y hy)
  refine ⟨hwritable, fun hfirst ↦ ?_⟩
  have hsecond := hwritable.mp hfirst
  rw [written_object hfirst, written_object hsecond, map_memberWritten hxs, map_memberWritten hys,
    sorted_keys (writable_object.mp hfirst).1 (writable_object.mp hsecond).1
      (keys_perm hxs hys hkeys)]
  congr 3
  refine List.map_congr_left fun key hkey ↦ ?_
  obtain ⟨y, hy, rfl⟩ := mem_map.mp (((sorted_perm ys).map Prod.fst).subset hkey)
  obtain ⟨x, hx, hsame⟩ := hback y hy
  rw [← hsame, Members.get_eq_some_of_mem hxs hx, hsame, Members.get_eq_some_of_mem hys hy]
  have hvalue := (hpairs x hx y hy hsame).2 ((writable_object.mp hfirst).2 x hx)
  rw [memberWritten, memberWritten, getD_some, getD_some, hvalue]

/-- Values that are the same are refused together and have one text. -/
theorem agree_of_same (a : Json) : ∀ {b : Json}, a.WellFormed → b.WellFormed → Same a b →
    Agree rendering a b := by
  intro b ha hb hsame
  induction a using Json.induct generalizing b with
  | null =>
    cases b with
    | null => exact ⟨Iff.rfl, fun _ ↦ rfl⟩
    | _ => exact hsame.elim
  | bool first =>
    cases b with
    | bool second => exact (show first = second from hsame) ▸ ⟨Iff.rfl, fun _ ↦ rfl⟩
    | _ => exact hsame.elim
  | number m =>
    cases b with
    | number n =>
      refine ⟨iff_of_true ⟨_, by rw [writeSignature]⟩ ⟨_, by rw [writeSignature]⟩, fun _ ↦ ?_⟩
      rw [written_number, written_number]
      exact (rendering.injective _ _).mpr hsame
    | _ => exact hsame.elim
  | string s =>
    cases b with
    | string t => exact (show s = t from hsame) ▸ ⟨Iff.rfl, fun _ ↦ rfl⟩
    | _ => exact hsame.elim
  | array xs ih =>
    cases b with
    | array ys =>
      obtain ⟨hlength, hpairs⟩ := forall₂_iff_zip.mp (sameItems_iff.mp hsame)
      have hwellx := Json.wellFormedItems_iff.mp ha
      have hwelly := Json.wellFormedItems_iff.mp hb
      refine agree_array (forall₂_iff_zip.mpr ⟨hlength, fun {x y} hpair ↦ ?_⟩)
      obtain ⟨hx, hy⟩ := of_mem_zip hpair
      exact ih x hx (hwellx x hx) (hwelly y hy) (hpairs hpair)
    | _ => exact hsame.elim
  | object xs ih =>
    cases b with
    | object ys =>
      obtain ⟨hkeys, hmembers⟩ := hsame
      have hwellx := Json.wellFormedMembers_iff.mp ha.2
      have hwelly := Json.wellFormedMembers_iff.mp hb.2
      refine agree_object ha.1 hb.1 hkeys fun x hx ↦ ?_
      obtain ⟨y, hget, hsame⟩ := sameMembers_iff.mp hmembers x hx
      exact ⟨y, hget, ih x hx (hwellx x hx) (hwelly _ (Members.mem_of_get_eq_some hget)) hsame⟩
    | _ => exact hsame.elim

end Main

/-- A signature is canonical. Two values that are equal up to the order of their members and the
equality of numbers as floats are refused together and have one signature, and values with one
signature are equal so. The order of the keys is a strict total order on the keys whose collation is
known. -/
theorem signature_eq_iff (rendering : Rendering) (a b : {value : Json // value.WellFormed})
    (first second third : {key : List Char // IsKey key}) :
    (Same a b → signature rendering a = signature rendering b) ∧
      (∀ text, signature rendering a = .ok text → signature rendering b = .ok text → Same a b) ∧
      keyOrder second first = (keyOrder first second).swap ∧
      (keyOrder first second = .eq ↔ first = second) ∧
      (keyOrder first second = .lt → keyOrder second third = .lt → keyOrder first third = .lt) := by
  obtain ⟨hswap, heq, htrans⟩ := keyOrder_strict first.2 second.2 third.2
  refine ⟨fun hsame ↦ ?_, fun text ha hb ↦ ?_, hswap, heq.trans Subtype.ext_iff.symm, htrans⟩
  · obtain ⟨hwritable, htext⟩ := @agree_of_same rendering a.1 b.1 a.2 b.2 hsame
    unfold signature
    rcases settled rendering a.1 with ha | ha
    · rw [write_eq_ok ha, write_eq_ok (hwritable.mp ha), htext ha]
    · have hb := (settled rendering b.1).resolve_left
        (hwritable.not.mp (not_writable_of_error ha))
      rw [ha, hb]
  · obtain ⟨first, hfirst, rfl⟩ := map_eq_ok_iff.mp ha
    obtain ⟨second, hsecond, htext⟩ := map_eq_ok_iff.mp hb
    have hwa : Writable rendering a.1 := ⟨first, hfirst⟩
    have hwb : Writable rendering b.1 := ⟨second, hsecond⟩
    rw [write_eq_ok hwa, Except.ok.injEq] at hfirst
    rw [write_eq_ok hwb, Except.ok.injEq] at hsecond
    have hdelimited : Delimited [] := fun c hc ↦ (nomatch hc)
    refine (@written_unambiguous rendering a.1 b.1 [] [] a.2 b.2 hwa hwb hdelimited hdelimited
      ?_).1
    rw [append_nil, append_nil, hfirst, hsecond]
    exact (String.ofList_injective htext).symm

end ObsMcp.Observation
