import ObsMcp.Foundations.Json

/-!
# Tolerant comparison

Saved, wanted and live state are compared value by value: numbers with a tolerance, positions on a
grid of half pixels, other transform numbers as the binary32 numbers OBS stores. A comparison is
tolerant, so it is no equivalence, but every well-formed value is the same as itself (`same_self`,
`sameTransformValue_self`); that is what makes a written value compare as unchanged when it is read
back.
-/

namespace ObsMcp.Scenes

open Foundations

mutual

/-- `same`: numbers within a tolerance, arrays item by item, objects key by key. -/
def same : Json → Json → Bool
  | .number a, .number b => (a.asF64 - b.asF64).abs < 1e-6
  | .array xs, .array ys => xs.length == ys.length && sameItems xs ys
  | .object xs, .object ys => xs.length == ys.length && sameMembers xs ys
  | a, b => a == b

def sameItems : List Json → List Json → Bool
  | x :: xs, y :: ys => same x y && sameItems xs ys
  | _, _ => true

def sameMembers : List (String × Json) → Members → Bool
  | [], _ => true
  | (key, x) :: xs, ys =>
    (match Members.get ys key with
      | some y => same x y
      | none => false) && sameMembers xs ys

end

/-- `half_pixel`: the nearest half pixel, ties upward. -/
def halfPixel (value : Float) : Float :=
  let value := value * 2.0
  let floor := Binary64.floor value
  (if 0.5 ≤ value - floor then floor + 1.0 else floor) / 2.0

def sameTransformValue (field : String) (a b : Json) : Bool :=
  match a.asF64, b.asF64 with
  | some a, some b =>
    if field = "positionX" ∨ field = "positionY" then halfPixel a == halfPixel b
    else Binary64.narrow a == Binary64.narrow b || (a - b).abs < 1e-6
  | _, _ => same a b

/-! ### A value is the same as itself -/

theorem sameMembers_iff {xs : List (String × Json)} {ys : Members} :
    sameMembers xs ys = true ↔
      ∀ member ∈ xs, ∃ y, Members.get ys member.1 = some y ∧ same member.2 y = true := by
  induction xs with
  | nil => simp [sameMembers]
  | cons member xs ih =>
    rw [sameMembers, Bool.and_eq_true, ih, List.forall_mem_cons]
    cases Members.get ys member.1 <;> simp

theorem sameItems_self {xs : List Json} (hxs : ∀ x ∈ xs, same x x = true) :
    sameItems xs xs = true := by
  induction xs with
  | nil => rfl
  | cons x xs ih =>
    rw [sameItems, hxs x (by simp), ih fun y hy ↦ hxs y (by simp [hy])]
    rfl

/-- A finite number is within the tolerance of itself. -/
theorem tolerance_self {a : Float} (ha : a.isFinite = true) : (a - a).abs < 1e-6 :=
  Binary64.close_self ha (by decide +kernel)

theorem same_self (value : Json) : value.WellFormed → same value value = true := by
  refine Json.induct (motive := fun value ↦ value.WellFormed → same value value = true) ?_ ?_ ?_ ?_
    ?_ ?_ value
  · exact fun _ ↦ rfl
  · exact fun b _ ↦ Json.beq_refl (.bool b)
  · intro n _
    rw [same]
    exact decide_eq_true (tolerance_self n.asF64_isFinite)
  · exact fun s _ ↦ Json.beq_refl (.string s)
  · intro items ih hitems
    rw [Json.WellFormed, Json.wellFormedItems_iff] at hitems
    rw [same, sameItems_self fun item hitem ↦ ih item hitem (hitems item hitem), beq_self_eq_true]
    rfl
  · intro members ih hmembers
    rw [Json.WellFormed, Json.wellFormedMembers_iff] at hmembers
    obtain ⟨hdistinct, hvalues⟩ := hmembers
    have hsame : sameMembers members members = true := by
      rw [sameMembers_iff]
      intro member hmember
      exact ⟨member.2, Members.get_eq_some_of_mem hdistinct hmember,
        ih member hmember (hvalues member hmember)⟩
    rw [same, hsame, beq_self_eq_true]
    rfl

theorem isNaN_halfPixel {value : Float} (hvalue : value.isNaN = false) :
    (halfPixel value).isNaN = false := by
  have hone : Binary64.IsOrdinary 1.0 := ⟨_, _, _, _, rfl⟩
  have htwo : Binary64.IsOrdinary 2.0 := ⟨_, _, _, _, rfl⟩
  have hfloor := Binary64.isNaN_floor (Binary64.isNaN_mul hvalue htwo)
  unfold halfPixel
  refine Binary64.isNaN_div ?_ htwo
  split_ifs
  · exact Binary64.isNaN_add hfloor hone
  · exact hfloor

theorem sameTransformValue_self {field : String} {value : Json} (hvalue : value.WellFormed) :
    sameTransformValue field value value = true := by
  unfold sameTransformValue
  cases hnumber : value.asF64 with
  | none => exact same_self value hvalue
  | some a =>
    have hfinite : a.isFinite = true := by
      obtain ⟨n, -, rfl⟩ := Option.map_eq_some_iff.mp hnumber
      exact n.asF64_isFinite
    simp only
    split_ifs
    · exact Binary64.beq_self (isNaN_halfPixel (Binary64.isNaN_of_isFinite hfinite))
    · rw [decide_eq_true (tolerance_self hfinite), Bool.or_true]

end ObsMcp.Scenes
