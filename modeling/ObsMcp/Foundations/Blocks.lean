import Mathlib.Data.List.Basic

/-!
# A stream cut into blocks

`blocks` are the whole blocks of a size that a stream begins with and `blocksRest` is what is left
behind them. `feed` takes the stream value by value: it collects a block, and processes it when it
is full, which may fail. Values that leave the block short are collected (`feed_short`) and those
that fill it are processed with it (`feed_full`), so a reader may take the stream in chunks of any
size. `feed_stream` says that the whole stream is its blocks, processed in order, and its rest.
-/

namespace ObsMcp.Foundations

open List

variable {α σ ε : Type} {size : ℕ} {process : σ → List α → Except ε σ}

/-! ### Whole blocks -/

/-- The whole blocks of a stream. -/
def blocks (size : ℕ) (stream : List α) : List (List α) :=
  (List.range (stream.length / size)).map fun index ↦ (stream.drop (index * size)).take size

/-- What is left behind the whole blocks. -/
def blocksRest (size : ℕ) (stream : List α) : List α :=
  stream.drop (stream.length / size * size)

theorem length_blocks (size : ℕ) (stream : List α) :
    (blocks size stream).length = stream.length / size := by
  rw [blocks, length_map, length_range]

theorem length_blocksRest (size : ℕ) (stream : List α) :
    (blocksRest size stream).length = stream.length % size := by
  rw [blocksRest, length_drop, Nat.mul_comm, ← Nat.mod_eq_sub]

theorem blocks_of_lt {stream : List α} (hshort : stream.length < size) :
    blocks size stream = [] ∧ blocksRest size stream = stream := by
  rw [blocks, blocksRest, Nat.div_eq_of_lt hshort]
  simp

theorem blocks_append {block : List α} (hblock : block.length = size) (hpos : 0 < size)
    (stream : List α) : blocks size (block ++ stream) = block :: blocks size stream ∧
      blocksRest size (block ++ stream) = blocksRest size stream := by
  have hcount : (block ++ stream).length / size = stream.length / size + 1 := by
    rw [length_append, hblock, Nat.add_comm, Nat.add_div_right _ hpos]
  have hlater : ∀ index, (block ++ stream).drop ((index + 1) * size) =
      stream.drop (index * size) := by
    intro index
    rw [Nat.succ_mul, Nat.add_comm, ← drop_drop, ← hblock, drop_left]
  constructor
  · rw [blocks, blocks, hcount, range_succ_eq_map, map_cons, map_map]
    have hfirst : ((block ++ stream).drop (0 * size)).take size = block := by
      rw [Nat.zero_mul, drop_zero, ← hblock, take_left]
    rw [hfirst]
    congr 1
    refine map_congr_left fun index _ ↦ ?_
    exact congrArg (List.take size) (hlater index)
  · rw [blocksRest, hcount, hlater, blocksRest]

/-! ### Value by value -/

/-- One value more for the block that has begun. -/
def feed (size : ℕ) (process : σ → List α → Except ε σ) (held : σ × List α) (value : α) :
    Except ε (σ × List α) :=
  if held.2.length + 1 = size then (process held.1 (held.2 ++ [value])).map fun state ↦ (state, [])
  else .ok (held.1, held.2 ++ [value])

variable {begun values : List α} {state : σ}

/-- Values that leave the block short. -/
theorem feed_short (hshort : begun.length + values.length < size) :
    values.foldlM (feed size process) (state, begun) = .ok (state, begun ++ values) := by
  induction values generalizing begun with
  | nil => rw [append_nil]; rfl
  | cons value values ih =>
    rw [length_cons] at hshort
    have hstep : feed size process (state, begun) value = .ok (state, begun ++ [value]) :=
      if_neg (show begun.length + 1 ≠ size by omega)
    rw [foldlM_cons, hstep]
    show values.foldlM (feed size process) (state, begun ++ [value]) = _
    rw [ih (by rw [length_append, length_singleton]; omega), append_assoc,
      singleton_append]

/-- Values that fill the block. -/
theorem feed_full (hshort : begun.length < size) (hfull : begun.length + values.length = size) :
    values.foldlM (feed size process) (state, begun) =
      (process state (begun ++ values)).map fun state ↦ (state, []) := by
  have hsome : values ≠ [] := by
    rintro rfl
    rw [length_nil] at hfull
    omega
  have hsplit := dropLast_append_getLast hsome
  have hlast : begun.length + values.dropLast.length + 1 = size := by
    rw [length_dropLast]
    have hpos := length_pos_of_ne_nil hsome
    omega
  have hstep : feed size process (state, begun ++ values.dropLast) (values.getLast hsome) =
      (process state (begun ++ values.dropLast ++ [values.getLast hsome])).map
        fun state ↦ (state, []) :=
    if_pos (by rw [length_append]; exact hlast)
  rw [append_assoc, hsplit] at hstep
  conv_lhs => rw [← hsplit]
  rw [foldlM_append, feed_short (by omega)]
  show ([values.getLast hsome].foldlM (feed size process) _ : Except ε (σ × List α)) = _
  rw [foldlM_cons, hstep]
  cases process state (begun ++ values) <;> rfl

/-- A stream is its whole blocks, processed in order, and the rest. -/
theorem feed_stream (hpos : 0 < size) (state : σ) (stream : List α) :
    stream.foldlM (feed size process) (state, []) =
      ((blocks size stream).foldlM process state).map
        fun state ↦ (state, blocksRest size stream) := by
  induction hlength : stream.length / size generalizing state stream with
  | zero =>
    have hshort : stream.length < size := by
      rcases Nat.div_eq_zero_iff.mp hlength with hzero | hshort
      · omega
      · exact hshort
    rw [feed_short (by rw [length_nil, Nat.zero_add]; exact hshort), (blocks_of_lt hshort).1,
      (blocks_of_lt hshort).2]
    rfl
  | succ count ih =>
    have hlong : size ≤ stream.length := by
      by_contra hshort
      rw [Nat.div_eq_of_lt (Nat.not_le.mp hshort)] at hlength
      omega
    have hblock : (stream.take size).length = size := by
      rw [length_take, Nat.min_eq_left hlong]
    obtain ⟨hblocks, hrest⟩ := blocks_append hblock hpos (stream.drop size)
    have hcount : (stream.drop size).length / size = count := by
      have hsum : stream.length / size = (stream.length - size) / size + 1 := by
        rw [← Nat.add_div_right _ hpos, Nat.sub_add_cancel hlong]
      rw [length_drop]
      omega
    rw [take_append_drop] at hblocks hrest
    rw [hblocks, hrest, foldlM_cons]
    conv_lhs => rw [← take_append_drop size stream]
    rw [foldlM_append, feed_full (by rw [length_nil]; exact hpos)
      (by rw [length_nil, Nat.zero_add, hblock]), nil_append]
    cases process state (stream.take size) with
    | error error => rfl
    | ok next => exact ih next (stream.drop size) hcount

end ObsMcp.Foundations
