import ObsMcp.Foundations.Binary64

/-!
# JSON values

A JSON value as the `serde_json` crate holds it. A number is an unsigned integer, a negative integer
or a finite float, and two numbers of different kinds are never equal; an object lists its members,
and `get` finds the first member of a key. `beq` is the equality of two values. It compares floats
by IEEE equality, so it identifies the two zeros and is not the equality of Lean, but it is
reflexive (`beq_refl`) because no number is a NaN, and symmetric (`beq_comm`).

`Members.overlay` puts the members of one object over those of another, and `get_overlay` says what
is found afterwards. `Json.induct` is the induction over values.
-/

namespace ObsMcp.Foundations

open List

/-- A binary64 number that is neither infinite nor a NaN. -/
structure Finite64 where
  value : Float
  finite : value.isFinite = true
  deriving DecidableEq

theorem isFinite_zero : (0.0 : Float).isFinite = true := by decide

/-- A JSON number. -/
inductive Number
  | posInt (n : UInt64)
  | negInt (n : Int64) (negative : n.toInt < 0)
  | float (x : Finite64)
  deriving DecidableEq

namespace Number

/-- The equality of numbers: within one kind only. -/
def beq : Number → Number → Bool
  | posInt m, posInt n => m == n
  | negInt m _, negInt n _ => m == n
  | float x, float y => x.value == y.value
  | _, _ => false

theorem beq_refl (n : Number) : n.beq n = true := by
  cases n with
  | posInt m => exact beq_self_eq_true m
  | negInt m _ => exact beq_self_eq_true m
  | float x => exact Binary64.beq_self (Binary64.isNaN_of_isFinite x.finite)

theorem beq_comm (m n : Number) : m.beq n = n.beq m := by
  cases m <;> cases n <;> try rfl
  case posInt.posInt m n => exact BEq.comm
  case negInt.negInt m _ n _ => exact BEq.comm
  case float.float x y => exact Binary64.beq_comm x.value y.value

/-- The number as an unsigned integer, when it is one. -/
def asU64 : Number → Option UInt64
  | posInt n => some n
  | _ => none

/-- The number is an integer that fits 64 bits with a sign. -/
def isI64 : Number → Bool
  | posInt n => n.toNat < 2 ^ 63
  | negInt _ _ => true
  | float _ => false

/-- The number as a float, rounded to nearest. -/
def asF64 : Number → Float
  | posInt n => n.toFloat
  | negInt n _ => .ofModel (.ofInt n.toInt)
  | float x => x.value

theorem asF64_isFinite (n : Number) : n.asF64.isFinite = true := by
  cases n with
  | posInt n => exact Binary64.isFinite_toFloat n
  | negInt n hn =>
    refine Binary64.isFinite_ofInt ?_
    have hlower := n.le_toInt
    have hupper := n.toInt_lt
    omega
  | float x => exact x.finite

end Number

/-- A JSON value. -/
inductive Json
  | null
  | bool (b : Bool)
  | number (n : Number)
  | string (s : String)
  | array (items : List Json)
  | object (members : List (String × Json))

/-- The members of an object. -/
abbrev Members := List (String × Json)

namespace Members

variable {members : Members} {key other : String} {value : Json}

def keys (members : Members) : List String :=
  members.map Prod.fst

/-- The value of a key. -/
def get (members : Members) (key : String) : Option Json :=
  (members.find? (fun member ↦ member.1 == key)).map Prod.snd

def containsKey (members : Members) (key : String) : Bool :=
  members.any (fun member ↦ member.1 == key)

/-- The members with the value of one key replaced, or added in key order. -/
def insert (members : Members) (key : String) (value : Json) : Members :=
  if members.containsKey key then
    members.map (fun member ↦ if member.1 = key then (key, value) else member)
  else
    members.takeWhile (fun member ↦ member.1 < key) ++
      (key, value) :: members.dropWhile (fun member ↦ member.1 < key)

/-- The members with those of a patch put over them, key by key. -/
def overlay (members patch : Members) : Members :=
  patch.foldl (fun members member ↦ insert members member.1 member.2) members

theorem containsKey_iff : members.containsKey key = true ↔ key ∈ members.keys := by
  simp [containsKey, keys]

theorem get_cons (member : String × Json) (rest : Members) (key : String) :
    Members.get (member :: rest) key =
      if member.1 = key then some member.2 else Members.get rest key := by
  by_cases hkey : member.1 = key <;> simp [get, hkey]

theorem get_append (members rest : Members) (key : String) :
    Members.get (members ++ rest) key = (Members.get members key).or (Members.get rest key) := by
  simp [get, find?_append]
  cases members.find? (fun member ↦ member.1 == key) <;> simp

theorem get_eq_none_iff : members.get key = none ↔ key ∉ members.keys := by
  simp only [get, keys, Option.map_eq_none_iff, find?_eq_none, beq_iff_eq, mem_map,
    not_exists, not_and]

theorem get_eq_some_of_mem (hdistinct : members.keys.Nodup) (hmem : (key, value) ∈ members) :
    members.get key = some value := by
  induction members with
  | nil => simp at hmem
  | cons member members ih =>
    rw [get_cons]
    simp only [keys, map_cons, nodup_cons] at hdistinct
    rcases mem_cons.mp hmem with rfl | hmem
    · simp
    · have hne : member.1 ≠ key := by
        rintro rfl
        exact hdistinct.1 (mem_map.mpr ⟨_, hmem, rfl⟩)
      rw [if_neg hne]
      exact ih hdistinct.2 hmem

theorem mem_of_get_eq_some (hget : members.get key = some value) : (key, value) ∈ members := by
  obtain ⟨member, hfind, rfl⟩ := Option.map_eq_some_iff.mp hget
  have hkey : member.1 = key := by simpa using find?_some hfind
  rw [← hkey]
  exact mem_of_find?_eq_some hfind

/-! ### Insertion -/

theorem get_map_replace (members : Members) (key : String) (value : Json) (other : String) :
    Members.get (members.map (fun member ↦ if member.1 = key then (key, value) else member)) other =
      if other = key then (members.get key).map (fun _ ↦ value) else members.get other := by
  induction members with
  | nil => simp [get]
  | cons member members ih =>
    rw [map_cons, get_cons, get_cons, get_cons, ih]
    by_cases hmember : member.1 = key <;> by_cases hother : other = key
    · simp [hmember, hother]
    · simp [hmember, hother, Ne.symm hother]
    · simp [hmember, hother]
    · simp [hmember, hother]

theorem get_insert (members : Members) (key : String) (value : Json) (other : String) :
    (members.insert key value).get other =
      if other = key then some value else members.get other := by
  unfold insert
  by_cases hcontains : members.containsKey key = true
  · rw [if_pos hcontains, get_map_replace]
    have hpresent := mt get_eq_none_iff.mp (not_not_intro (containsKey_iff.mp hcontains))
    obtain ⟨found, hfound⟩ := Option.ne_none_iff_exists'.mp hpresent
    rw [hfound, Option.map_some]
  · rw [if_neg hcontains, get_append, get_cons]
    have habsent : key ∉ members.keys := fun hmem ↦ hcontains (containsKey_iff.mpr hmem)
    have hsplit : members.get other =
        (Members.get (members.takeWhile (fun member ↦ member.1 < key)) other).or
          (Members.get (members.dropWhile (fun member ↦ member.1 < key)) other) := by
      rw [← get_append, takeWhile_append_dropWhile]
    by_cases hother : other = key
    · subst hother
      rw [get_eq_none_iff.mpr habsent] at hsplit
      rw [(Option.or_eq_none_iff.mp hsplit.symm).1, if_pos rfl, if_pos rfl]
      rfl
    · rw [if_neg (Ne.symm hother), if_neg hother, hsplit]

theorem mem_keys_iff : key ∈ members.keys ↔ members.get key ≠ none := by
  rw [ne_eq, get_eq_none_iff, not_not]

theorem mem_keys_insert : other ∈ (members.insert key value).keys ↔
    other = key ∨ other ∈ members.keys := by
  rw [mem_keys_iff, mem_keys_iff, get_insert]
  by_cases hother : other = key <;> simp [hother]

/-- Inserting a member keeps the keys distinct. -/
theorem nodup_keys_insert (hdistinct : members.keys.Nodup) :
    (members.insert key value).keys.Nodup := by
  unfold insert
  by_cases hcontains : members.containsKey key = true
  · rw [if_pos hcontains, keys, map_map]
    have hsame : members.map (Prod.fst ∘ fun member ↦
        if member.1 = key then (key, value) else member) = members.keys := by
      refine map_congr_left fun member _ ↦ ?_
      by_cases hmember : member.1 = key <;> simp [hmember]
    rw [hsame]
    exact hdistinct
  · rw [if_neg hcontains]
    have habsent : key ∉ members.keys := fun hmem ↦ hcontains (containsKey_iff.mpr hmem)
    have hperm : (keys (members.takeWhile (fun member ↦ member.1 < key) ++
        (key, value) :: members.dropWhile (fun member ↦ member.1 < key))).Perm
          (key :: members.keys) := by
      simp only [keys, map_append, map_cons]
      refine perm_middle.trans (List.Perm.cons _ ?_)
      rw [← map_append, takeWhile_append_dropWhile]
    rw [hperm.nodup_iff, nodup_cons]
    exact ⟨habsent, hdistinct⟩

/-! ### Overlay -/

variable {patch : Members}

theorem get_overlay (hdistinct : patch.keys.Nodup) (members : Members) (key : String) :
    (members.overlay patch).get key = (patch.get key).or (members.get key) := by
  induction patch generalizing members with
  | nil => rfl
  | cons member patch ih =>
    simp only [keys, map_cons, nodup_cons] at hdistinct
    show (overlay (insert members member.1 member.2) patch).get key = _
    rw [ih hdistinct.2, get_insert, get_cons]
    by_cases hkey : key = member.1
    · subst hkey
      rw [get_eq_none_iff.mpr hdistinct.1]
      simp
    · rw [if_neg hkey, if_neg (Ne.symm hkey)]

theorem mem_keys_overlay :
    key ∈ (members.overlay patch).keys ↔ key ∈ patch.keys ∨ key ∈ members.keys := by
  induction patch generalizing members with
  | nil => simp [overlay, keys]
  | cons member patch ih =>
    show key ∈ (overlay (insert members member.1 member.2) patch).keys ↔ _
    rw [ih, mem_keys_insert]
    simp only [keys, map_cons, mem_cons]
    tauto

theorem nodup_keys_overlay (hdistinct : members.keys.Nodup) :
    (members.overlay patch).keys.Nodup := by
  induction patch generalizing members with
  | nil => exact hdistinct
  | cons member patch ih => exact ih (nodup_keys_insert hdistinct)

end Members

namespace Json

/-! ### Induction -/

section Induction

variable {motive : Json → Prop} (null : motive null) (bool : ∀ b, motive (bool b))
  (number : ∀ n, motive (number n)) (string : ∀ s, motive (string s))
  (array : ∀ items, (∀ item ∈ items, motive item) → motive (array items))
  (object : ∀ members : Members, (∀ member ∈ members, motive member.2) → motive (object members))

include null bool number string array object

/-- Induction over a value: arrays and objects know the hypothesis of each of their parts. -/
theorem induct (value : Json) : motive value := by
  refine @Json.rec motive (fun items ↦ ∀ item ∈ items, motive item)
    (fun members ↦ ∀ member ∈ members, motive member.2) (fun member ↦ motive member.2)
    null bool number string array object ?_ ?_ ?_ ?_ ?_ value
  · simp
  · intro item items hitem hitems other hother
    rcases mem_cons.mp hother with rfl | hother
    · exact hitem
    · exact hitems other hother
  · simp
  · intro member members hmember hmembers other hother
    rcases mem_cons.mp hother with rfl | hother
    · exact hmember
    · exact hmembers other hother
  · intro key value hvalue
    exact hvalue

end Induction

mutual

/-- No object in the value has two members of one key. -/
def WellFormed : Json → Prop
  | array items => WellFormedItems items
  | object members => (Members.keys members).Nodup ∧ WellFormedMembers members
  | _ => True

def WellFormedItems : List Json → Prop
  | [] => True
  | item :: items => WellFormed item ∧ WellFormedItems items

def WellFormedMembers : List (String × Json) → Prop
  | [] => True
  | (_, value) :: members => WellFormed value ∧ WellFormedMembers members

end

theorem wellFormedItems_iff {items : List Json} :
    WellFormedItems items ↔ ∀ item ∈ items, item.WellFormed := by
  induction items with
  | nil => simp [WellFormedItems]
  | cons item items ih => simp [WellFormedItems, ih]

theorem wellFormedMembers_iff {members : Members} :
    WellFormedMembers members ↔ ∀ member ∈ members, member.2.WellFormed := by
  induction members with
  | nil => simp [WellFormedMembers]
  | cons member members ih => simp [WellFormedMembers, ih]

mutual

/-- The equality of values. -/
def beq : Json → Json → Bool
  | null, null => true
  | bool a, bool b => a == b
  | number m, number n => m.beq n
  | string s, string t => s == t
  | array xs, array ys => beqItems xs ys
  | object xs, object ys => beqMembers xs ys
  | _, _ => false

/-- The equality of arrays, item by item. -/
def beqItems : List Json → List Json → Bool
  | [], [] => true
  | x :: xs, y :: ys => beq x y && beqItems xs ys
  | _, _ => false

/-- The equality of objects, member by member in key order. -/
def beqMembers : List (String × Json) → List (String × Json) → Bool
  | [], [] => true
  | (k, x) :: xs, (l, y) :: ys => k == l && beq x y && beqMembers xs ys
  | _, _ => false

end

mutual

theorem beq_refl : ∀ x : Json, beq x x = true
  | null => by simp only [beq]
  | bool b => by simp only [beq, beq_self_eq_true]
  | number n => by simp only [beq, Number.beq_refl]
  | string s => by simp only [beq, beq_self_eq_true]
  | array xs => by simp only [beq, beqItems_refl xs]
  | object xs => by simp only [beq, beqMembers_refl xs]

theorem beqItems_refl : ∀ xs : List Json, beqItems xs xs = true
  | [] => by simp only [beqItems]
  | x :: xs => by simp only [beqItems, beq_refl x, beqItems_refl xs, Bool.and_self]

theorem beqMembers_refl : ∀ xs : List (String × Json), beqMembers xs xs = true
  | [] => by simp only [beqMembers]
  | (k, x) :: xs => by
    simp only [beqMembers, beq_self_eq_true, beq_refl x, beqMembers_refl xs, Bool.and_self]

end

mutual

theorem beq_comm : ∀ x y : Json, beq x y = beq y x
  | null, y => by cases y <;> simp only [beq]
  | bool a, y => by
    cases y with
    | bool b => simp only [beq, BEq.comm (a := a)]
    | _ => simp only [beq]
  | number m, y => by
    cases y with
    | number n => simp only [beq, Number.beq_comm m n]
    | _ => simp only [beq]
  | string s, y => by
    cases y with
    | string t => simp only [beq, BEq.comm (a := s)]
    | _ => simp only [beq]
  | array xs, y => by
    cases y with
    | array ys => simp only [beq, beqItems_comm xs ys]
    | _ => simp only [beq]
  | object xs, y => by
    cases y with
    | object ys => simp only [beq, beqMembers_comm xs ys]
    | _ => simp only [beq]

theorem beqItems_comm : ∀ xs ys : List Json, beqItems xs ys = beqItems ys xs
  | [], [] => rfl
  | [], _ :: _ => by simp only [beqItems]
  | _ :: _, [] => by simp only [beqItems]
  | x :: xs, y :: ys => by simp only [beqItems, beq_comm x y, beqItems_comm xs ys]

theorem beqMembers_comm : ∀ xs ys : List (String × Json), beqMembers xs ys = beqMembers ys xs
  | [], [] => rfl
  | [], _ :: _ => by simp only [beqMembers]
  | _ :: _, [] => by simp only [beqMembers]
  | (k, x) :: xs, (l, y) :: ys => by
    simp only [beqMembers, beq_comm x y, beqMembers_comm xs ys, BEq.comm (a := k)]

end

instance : BEq Json := ⟨beq⟩

/-! ### Access -/

/-- The value of a key of an object. -/
def get (value : Json) (key : String) : Option Json :=
  match value with
  | object members => Members.get members key
  | _ => none

/-- The value of a key, null when there is none. -/
def index (value : Json) (key : String) : Json :=
  (value.get key).getD null

def asObject : Json → Option Members
  | object members => some members
  | _ => none

def asStr : Json → Option String
  | string s => some s
  | _ => none

def asBool : Json → Option Bool
  | bool b => some b
  | _ => none

def asNumber : Json → Option Number
  | number n => some n
  | _ => none

def asU64 (value : Json) : Option UInt64 :=
  value.asNumber.bind Number.asU64

def asF64 (value : Json) : Option Float :=
  value.asNumber.map Number.asF64

def isObject (value : Json) : Bool :=
  value.asObject.isSome

def isString (value : Json) : Bool :=
  value.asStr.isSome

def asArray : Json → Option (List Json)
  | array items => some items
  | _ => none

def isArray (value : Json) : Bool :=
  value.asArray.isSome

def isU64 (value : Json) : Bool :=
  value.asU64.isSome

def isI64 (value : Json) : Bool :=
  value.asNumber.any Number.isI64

def isBoolean (value : Json) : Bool :=
  value.asBool.isSome

def isNumber (value : Json) : Bool :=
  value.asNumber.isSome

def isNull : Json → Bool
  | null => true
  | _ => false

/-- A signed 64-bit integer as a value. -/
def ofInt64 (n : Int64) : Json :=
  if h : n.toInt < 0 then number (.negInt n h) else number (.posInt n.toUInt64)

/-- An object with the given members, in key order. -/
def ofMembers (members : Members) : Json :=
  object (Members.overlay [] members)

/-- On strings and integers the equality of values is the equality of Lean. -/
theorem eq_of_beq_id {id other : Json} (hid : id.isString ∨ id.isI64 ∨ id.isU64)
    (hbeq : (other == id) = true) : other = id := by
  have hbeq : beq other id = true := hbeq
  cases id with
  | string s =>
    cases other with
    | string t =>
      simp only [beq, beq_iff_eq] at hbeq
      rw [hbeq]
    | _ => simp only [beq, Bool.false_eq_true] at hbeq
  | number n =>
    cases other with
    | number m =>
      simp only [beq] at hbeq
      cases n with
      | posInt n =>
        cases m with
        | posInt m => rw [eq_of_beq (a := m) (b := n) hbeq]
        | negInt | float => exact absurd hbeq (by simp [Number.beq])
      | negInt n _ =>
        cases m with
        | negInt m _ =>
          obtain rfl := eq_of_beq (a := m) (b := n) hbeq
          rfl
        | posInt | float => exact absurd hbeq (by simp [Number.beq])
      | float x =>
        simp [isString, asStr, isI64, isU64, asU64, asNumber, Number.isI64, Number.asU64] at hid
    | _ => simp only [beq, Bool.false_eq_true] at hbeq
  | null | bool b | array xs | object xs =>
    simp [isString, asStr, isI64, isU64, asU64, asNumber] at hid

end Json

end ObsMcp.Foundations
