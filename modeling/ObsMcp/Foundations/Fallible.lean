import Mathlib.Data.List.Forall2

/-!
# Computations that can fail

What the success of an `Except` computation says about its parts: `bind_eq_ok_iff` for a sequence,
`map_eq_ok_iff` for a mapped value, `forM_eq_ok_iff` for a list of checks and `forall₂_of_mapM` for
a mapped list. A search over a list whose every answer is a value answers the pure search
(`anyM_of_ok`, `allM_of_ok`).

`Returns` says that an `Option` computation has a value; `returns_bind` takes a sequence apart and
`returns_anyM` a search. `mapM_eq_some_iff` and `mapM_eq_none_iff` say when a mapped list has one.
-/

namespace ObsMcp.Foundations

open List

@[simp] theorem pure_eq_ok_iff {ε α : Type*} {a b : α} : (pure a : Except ε α) = .ok b ↔ a = b := by
  simp [pure, Except.pure]

theorem ok_bind {ε : Type*} {α β : Type} (a : α) (f : α → Except ε β) :
    ((Except.ok a : Except ε α) >>= f) = f a := rfl

/-- A sequence succeeds exactly when its parts do. -/
theorem bind_eq_ok_iff {ε : Type*} {α β : Type} {x : Except ε α} {f : α → Except ε β} {b : β} :
    (x >>= f) = .ok b ↔ ∃ a, x = .ok a ∧ f a = .ok b := by
  cases x with
  | error e => simp [bind, Except.bind]
  | ok a => simp [bind, Except.bind]

theorem map_eq_ok_iff {ε : Type*} {α β : Type} {x : Except ε α} {f : α → β} {b : β} :
    f <$> x = .ok b ↔ ∃ a, x = .ok a ∧ f a = b := by
  cases x with
  | error e => simp [Functor.map, Except.map]
  | ok a => simp [Functor.map, Except.map]

/-- A list of checks succeeds exactly when each of them does. -/
theorem forM_eq_ok_iff {ε α : Type} {xs : List α} {f : α → Except ε Unit} {u : Unit} :
    xs.forM f = .ok u ↔ ∀ x ∈ xs, f x = .ok () := by
  induction xs with
  | nil => simp [List.forM, pure, Except.pure]
  | cons x xs ih =>
    show (f x >>= fun _ ↦ xs.forM f) = .ok u ↔ _
    rw [bind_eq_ok_iff, forall_mem_cons, ← ih]
    constructor
    · rintro ⟨⟨⟩, hhead, hrest⟩
      exact ⟨hhead, hrest⟩
    · rintro ⟨hhead, hrest⟩
      exact ⟨(), hhead, hrest⟩

/-- What every successful turn of a loop keeps, a successful loop keeps. -/
theorem foldlM_keeps {ε σ α : Type} {f : σ → α → Except ε σ} (Inv : σ → Prop)
    (hstep : ∀ s x t, Inv s → f s x = .ok t → Inv t) {xs : List α} {s t : σ} (hs : Inv s)
    (hloop : xs.foldlM f s = .ok t) : Inv t := by
  induction xs generalizing s with
  | nil =>
    rw [foldlM_nil, pure_eq_ok_iff] at hloop
    exact hloop ▸ hs
  | cons x xs ih =>
    rw [foldlM_cons, bind_eq_ok_iff] at hloop
    obtain ⟨mid, hturn, hrest⟩ := hloop
    exact ih (hstep s x mid hs hturn) hrest

section

variable {ε α β : Type} {xs : List α} {ys : List β} {f : α → Except ε β} (hmap : xs.mapM f = .ok ys)
include hmap

/-- A successful map succeeds on every element. -/
theorem forall₂_of_mapM : Forall₂ (fun x y ↦ f x = .ok y) xs ys := by
  induction xs generalizing ys with
  | nil =>
    rw [mapM_nil, pure_eq_ok_iff] at hmap
    exact hmap ▸ .nil
  | cons x xs ih =>
    rw [mapM_cons, bind_eq_ok_iff] at hmap
    obtain ⟨y, hy, htail⟩ := hmap
    obtain ⟨rest, hrest, heq⟩ := bind_eq_ok_iff.mp htail
    rw [pure_eq_ok_iff] at heq
    exact heq ▸ .cons hy (ih hrest)

theorem mem_of_mapM {y : β} (hy : y ∈ ys) : ∃ x ∈ xs, f x = .ok y := by
  have hvalues := forall₂_of_mapM hmap
  clear hmap
  induction hvalues with
  | nil => exact absurd hy not_mem_nil
  | cons hhead _ ih =>
    rcases mem_cons.mp hy with rfl | hy
    · exact ⟨_, mem_cons_self, hhead⟩
    · obtain ⟨x, hx, hvalue⟩ := ih hy
      exact ⟨x, mem_cons_of_mem _ hx, hvalue⟩

/-- What holds of all values, read off the elements. -/
theorem forall_mem_of_mapM_iff {P : β → Prop} :
    (∀ y ∈ ys, P y) ↔ ∀ x ∈ xs, ∃ y, f x = .ok y ∧ P y := by
  have hvalues := forall₂_of_mapM hmap
  clear hmap
  induction hvalues with
  | nil => simp
  | cons hhead _ ih => simp [hhead, ih]

/-- A mapped list whose every value is known. -/
theorem eq_map_of_mapM {g : α → β} (hvalue : ∀ x ∈ xs, ∀ y, f x = .ok y → y = g x) :
    ys = xs.map g := by
  have hvalues := forall₂_of_mapM hmap
  clear hmap
  induction hvalues with
  | nil => rfl
  | cons hhead _ ih =>
    rw [map_cons, hvalue _ mem_cons_self _ hhead,
      ih fun x hx ↦ hvalue x (mem_cons_of_mem _ hx)]

end

/-- A search whose every answer is a value. -/
theorem anyM_of_ok {ε α : Type} {xs : List α} {f : α → Except ε Bool} {g : α → Bool}
    (hanswer : ∀ x ∈ xs, f x = .ok (g x)) : xs.anyM f = .ok (xs.any g) := by
  induction xs with
  | nil => rfl
  | cons x xs ih =>
    have hhead := hanswer x mem_cons_self
    have hrest := ih fun y hy ↦ hanswer y (mem_cons_of_mem _ hy)
    simp only [List.anyM, hhead, any_cons]
    cases g x with
    | true => rfl
    | false =>
      rw [Bool.false_or]
      exact hrest

theorem allM_of_ok {ε α : Type} {xs : List α} {f : α → Except ε Bool} {g : α → Bool}
    (hanswer : ∀ x ∈ xs, f x = .ok (g x)) : xs.allM f = .ok (xs.all g) := by
  induction xs with
  | nil => rfl
  | cons x xs ih =>
    have hhead := hanswer x mem_cons_self
    have hrest := ih fun y hy ↦ hanswer y (mem_cons_of_mem _ hy)
    simp only [List.allM, hhead, all_cons]
    cases g x with
    | true =>
      rw [Bool.true_and]
      exact hrest
    | false => rfl

/-! ### Computations without a value -/

/-- The computation has a value. -/
def Returns {α : Type} (result : Option α) : Prop := ∃ value, result = some value

theorem returns_some {α : Type} (value : α) : Returns (some value) := ⟨value, rfl⟩

/-- A sequence returns when its first part does and its second part does on what the first
returns. -/
theorem returns_bind {α β : Type} {first : Option α} {next : α → Option β} (hfirst : Returns first)
    (hnext : ∀ value, first = some value → Returns (next value)) : Returns (first >>= next) := by
  obtain ⟨value, rfl⟩ := hfirst
  exact hnext value rfl

theorem not_returns_none {α : Type} : ¬ Returns (none : Option α) := by
  rintro ⟨value, hvalue⟩
  cases hvalue

theorem returns_of_bind {α β : Type} {first : Option α} {next : α → Option β}
    (hreturns : Returns (first >>= next)) : Returns first := by
  cases first with
  | none => exact absurd hreturns not_returns_none
  | some value => exact returns_some value

/-- A value found with a test is there. -/
theorem returns_of_any {α : Type} {found : Option α} {test : α → Bool}
    (hany : found.any test = true) : Returns found := by
  cases found with
  | none => simp at hany
  | some value => exact returns_some value

theorem returns_anyM {α : Type} {xs : List α} {test : α → Option Bool}
    (htest : ∀ x ∈ xs, Returns (test x)) : Returns (xs.anyM test) := by
  induction xs with
  | nil => exact returns_some false
  | cons x xs ih =>
    rw [anyM_cons]
    refine returns_bind (htest x mem_cons_self) fun found _ ↦ ?_
    cases found with
    | true => exact returns_some true
    | false => exact ih fun y hy ↦ htest y (mem_cons_of_mem _ hy)

/-- A search that answers no had the answer no everywhere. -/
theorem anyM_eq_some_false {α : Type} {xs : List α} {test : α → Option Bool}
    (hsearch : xs.anyM test = some false) : ∀ x ∈ xs, test x = some false := by
  induction xs with
  | nil => exact fun x hx ↦ absurd hx not_mem_nil
  | cons head rest ih =>
    rw [anyM_cons] at hsearch
    obtain ⟨answer, hhead, hrest⟩ := Option.bind_eq_some_iff.mp hsearch
    cases answer with
    | true => cases hrest
    | false =>
      intro x hx
      rcases mem_cons.mp hx with rfl | hx
      · exact hhead
      · exact ih hrest x hx

/-- A mapped list succeeds with the results of its elements. -/
theorem mapM_eq_some_iff {α β : Type} {f : α → Option β} {as : List α} {bs : List β} :
    as.mapM f = some bs ↔ List.Forall₂ (fun a b ↦ f a = some b) as bs := by
  induction as generalizing bs with
  | nil => simp [eq_comm]
  | cons a as ih =>
    rw [mapM_cons, forall₂_cons_left_iff]
    constructor
    · intro hmap
      obtain ⟨b, hb, hmap⟩ := Option.bind_eq_some_iff.mp hmap
      obtain ⟨rest, hrest, hcons⟩ := Option.bind_eq_some_iff.mp hmap
      exact ⟨b, rest, hb, ih.mp hrest, (Option.some.inj hcons).symm⟩
    · rintro ⟨b, rest, hb, hrest, rfl⟩
      rw [hb, ih.mpr hrest]
      rfl

/-- What each element has in common with its result, the lists have in common. -/
theorem map_eq_map_of_mapM {α β γ : Type} {f : α → Option β} {as : List α} {bs : List β}
    {g : β → γ} {h : α → γ} (hmap : as.mapM f = some bs)
    (hcommon : ∀ a b, f a = some b → g b = h a) : bs.map g = as.map h := by
  have hall := mapM_eq_some_iff.mp hmap
  induction hall with
  | nil => rfl
  | cons hhead _ ih =>
    rw [map_cons, map_cons, hcommon _ _ hhead, ih (mapM_eq_some_iff.mpr ‹_›)]

/-- Every result is the result of an element. -/
theorem exists_of_mem_mapM {α β : Type} {f : α → Option β} {as : List α} {bs : List β} {b : β}
    (hmap : as.mapM f = some bs) (hb : b ∈ bs) : ∃ a ∈ as, f a = some b := by
  have hsome : bs.map some = as.map f := map_eq_map_of_mapM hmap fun _ _ hfound ↦ hfound.symm
  have hmem : some b ∈ as.map f := hsome ▸ mem_map_of_mem hb
  exact mem_map.mp hmem

theorem guard_bind_eq_some_iff {α : Type} {p : Prop} [Decidable p] {x : Unit → Option α} {a : α} :
    ((guard p : Option Unit) >>= x) = some a ↔ p ∧ x () = some a := by
  by_cases hp : p <;> simp [guard, hp, failure]

theorem mapM_eq_none_iff {α β : Type} {f : α → Option β} {as : List α} :
    as.mapM f = none ↔ ∃ a ∈ as, f a = none := by
  induction as with
  | nil => simp
  | cons a as ih =>
    rw [mapM_cons, exists_mem_cons_iff, ← ih]
    cases f a with
    | none => simp
    | some b => cases as.mapM f <;> simp

end ObsMcp.Foundations
