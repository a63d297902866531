import ObsMcp.Foundations.Fallible
import ObsMcp.Foundations.Indexed
import Mathlib.Data.List.Nodup
import Mathlib.Data.List.Perm.Subperm

/-!
# Tables filled slot by slot

A reader of an unordered list puts each item at the slot the item names, refuses a slot that is
taken or does not exist, and is done when no slot is empty. `put` is the table that a row of entries
leaves, `Fill` says that the entries have distinct slots which are free, and `foldlM_eq_ok_iff` says
that a loop whose turn puts one entry succeeds exactly on the items that fill.

`complete_iff` is the exact form of the whole reading: a table with a slot for each item is filled
exactly when the items, in some order, are the items of slot 0, slot 1 and so on. The order in which
the items arrive therefore does not matter.
-/

namespace ObsMcp.Foundations.Slots

open List

variable {α β : Type} {table : List (Option β)} {entries : List (ℕ × β)}

/-! ### Entries -/

/-- A table with each entry put at its slot. -/
def put (table : List (Option β)) (entries : List (ℕ × β)) : List (Option β) :=
  entries.foldl (fun table entry ↦ table.set entry.1 (some entry.2)) table

/-- The entries go to distinct slots of the table, and these are free. -/
structure Fill (table : List (Option β)) (entries : List (ℕ × β)) : Prop where
  distinct : (entries.map Prod.fst).Nodup
  free : ∀ entry ∈ entries, table[entry.1]? = some none

@[simp] theorem put_cons (table : List (Option β)) (entry : ℕ × β) (entries : List (ℕ × β)) :
    put table (entry :: entries) = put (table.set entry.1 (some entry.2)) entries := rfl

@[simp] theorem length_put (table : List (Option β)) (entries : List (ℕ × β)) :
    (put table entries).length = table.length := by
  induction entries generalizing table with
  | nil => rfl
  | cons entry entries ih => rw [put_cons, ih, length_set]

variable {slot : ℕ} {entry : ℕ × β}

/-- A slot that no entry names keeps its value. -/
theorem put_getElem?_of_notMem (hslot : slot ∉ entries.map Prod.fst) :
    (put table entries)[slot]? = table[slot]? := by
  induction entries generalizing table with
  | nil => rfl
  | cons entry entries ih =>
    rw [map_cons, mem_cons, not_or] at hslot
    rw [put_cons, ih hslot.2, getElem?_set_ne (Ne.symm hslot.1)]

/-- One entry goes to a free slot, and the others fill what is left. -/
theorem fill_cons :
    Fill table (entry :: entries) ↔
      table[entry.1]? = some none ∧ Fill (table.set entry.1 (some entry.2)) entries := by
  constructor
  · rintro ⟨hdistinct, hfree⟩
    rw [map_cons, nodup_cons] at hdistinct
    refine ⟨hfree entry mem_cons_self, hdistinct.2, fun other hother ↦ ?_⟩
    have hne : entry.1 ≠ other.1 := by
      intro hsame
      exact hdistinct.1 (mem_map.mpr ⟨other, hother, hsame.symm⟩)
    rw [getElem?_set_ne hne]
    exact hfree other (mem_cons_of_mem _ hother)
  · rintro ⟨hhead, hdistinct, hfree⟩
    have hlength := (List.getElem?_eq_some_iff.mp hhead).1
    have hother : ∀ other ∈ entries, entry.1 ≠ other.1 := by
      intro other hother hsame
      have hfound := hfree other hother
      rw [← hsame, List.getElem?_set_self hlength] at hfound
      cases hfound
    constructor
    · rw [map_cons, nodup_cons]
      refine ⟨fun hmem ↦ ?_, hdistinct⟩
      obtain ⟨other, hmem, hsame⟩ := mem_map.mp hmem
      exact hother other hmem hsame.symm
    · intro other hmem
      rcases mem_cons.mp hmem with rfl | hmem
      · exact hhead
      · have hfound := hfree other hmem
        rwa [getElem?_set_ne (hother other hmem)] at hfound

/-- Assumes: entries that fill. Each entry is found at its slot. -/
theorem put_getElem?_of_mem (hfill : Fill table entries) (hmem : entry ∈ entries) :
    (put table entries)[entry.1]? = some (some entry.2) := by
  induction entries generalizing table with
  | nil => cases hmem
  | cons head entries ih =>
    have hdistinct := hfill.distinct
    obtain ⟨hhead, htail⟩ := fill_cons.mp hfill
    rw [put_cons]
    rcases mem_cons.mp hmem with rfl | hmem
    · rw [map_cons, nodup_cons] at hdistinct
      rw [put_getElem?_of_notMem hdistinct.1,
        getElem?_set_of_some hhead]
    · exact ih htail hmem

/-! ### The loop -/

section Loop

variable {ε : Type} {step : List (Option β) → α → Except ε (List (Option β))}
  {Fits : α → ℕ × β → Prop}

/-- A loop whose turn puts the entry of one item succeeds exactly when the entries of its items
fill the table. -/
theorem foldlM_eq_ok_iff
    (hstep : ∀ table a next, step table a = .ok next ↔
      ∃ entry, Fits a entry ∧ table[entry.1]? = some none ∧ next = table.set entry.1 (some entry.2))
    {items : List α} {next : List (Option β)} :
    items.foldlM step table = .ok next ↔
      ∃ entries, List.Forall₂ Fits items entries ∧ Fill table entries ∧
        next = put table entries := by
  induction items generalizing table with
  | nil =>
    rw [foldlM_nil, pure_eq_ok_iff]
    constructor
    · rintro rfl
      exact ⟨[], .nil, ⟨nodup_nil, by simp⟩, rfl⟩
    · rintro ⟨entries, hentries, -, rfl⟩
      cases hentries
      rfl
  | cons a items ih =>
    rw [foldlM_cons, bind_eq_ok_iff]
    constructor
    · rintro ⟨mid, hturn, hrest⟩
      obtain ⟨entry, hfits, hfree, rfl⟩ := (hstep table a mid).mp hturn
      obtain ⟨entries, hentries, hfill, rfl⟩ := ih.mp hrest
      exact ⟨entry :: entries, .cons hfits hentries, fill_cons.mpr ⟨hfree, hfill⟩, rfl⟩
    · rintro ⟨entries, hentries, hfill, rfl⟩
      cases hentries with
      | cons hfits hrest =>
        obtain ⟨hfree, hfill⟩ := fill_cons.mp hfill
        exact ⟨_, (hstep table a _).mpr ⟨_, hfits, hfree, rfl⟩, ih.mpr ⟨_, hrest, hfill, rfl⟩⟩

end Loop

/-! ### Complete tables -/

variable {answers : List β}

/-- No slot of a table is empty. -/
theorem mapM_id_eq_some_iff : table.mapM id = some answers ↔ table = answers.map some := by
  induction table generalizing answers with
  | nil =>
    rw [mapM_nil]
    cases answers <;> simp
  | cons slot table ih =>
    rw [mapM_cons]
    cases slot with
    | none => cases answers <;> simp
    | some b =>
      cases answers with
      | nil => simp [Option.bind_eq_some_iff]
      | cons answer answers => simp [ih, Option.bind_eq_some_iff, and_comm]

/-- The entries of a list of answers, each at its own index. -/
def ofAnswers (answers : List β) : List (ℕ × β) :=
  answers.zipIdx.map Prod.swap

theorem mem_ofAnswers {b : β} : (slot, b) ∈ ofAnswers answers ↔ answers[slot]? = some b := by
  unfold ofAnswers
  rw [mem_map]
  constructor
  · rintro ⟨entry, hentry, hswap⟩
    obtain rfl : entry = (b, slot) := by rw [← Prod.swap_swap entry, hswap]; rfl
    exact mem_zipIdx_iff_getElem?.mp hentry
  · intro hget
    exact ⟨(b, slot), mem_zipIdx_iff_getElem?.mpr hget, rfl⟩

theorem map_fst_ofAnswers (answers : List β) :
    (ofAnswers answers).map Prod.fst = List.range answers.length := by
  unfold ofAnswers
  rw [map_map]
  have hcomp : (Prod.fst ∘ Prod.swap : β × ℕ → ℕ) = Prod.snd := rfl
  rw [hcomp, zipIdx_map_snd, range_eq_range']

/-- As many entries as slots fill an empty table and leave it with given answers exactly when they
are the entries of these answers in some order. -/
theorem fill_empty_iff :
    (Fill (List.replicate entries.length none) entries ∧
        put (List.replicate entries.length none) entries = answers.map some) ↔
      entries.Perm (ofAnswers answers) := by
  constructor
  · rintro ⟨hfill, hput⟩
    have hlength : entries.length = answers.length := by
      rw [← @length_map _ _ answers some, ← hput, length_put, length_replicate]
    have hsubset : entries ⊆ ofAnswers answers := by
      rintro ⟨slot, b⟩ hentry
      have hfound := put_getElem?_of_mem hfill hentry
      rw [hput, getElem?_map, Option.map_eq_some_iff] at hfound
      obtain ⟨answer, hanswer, hsome⟩ := hfound
      rw [mem_ofAnswers, hanswer, Option.some.inj hsome]
    have hdistinct : entries.Nodup := List.Nodup.of_map Prod.fst hfill.distinct
    refine (subperm_of_subset hdistinct hsubset).perm_of_length_le ?_
    simp [ofAnswers, hlength]
  · intro hperm
    have hlength : entries.length = answers.length := by
      rw [hperm.length_eq]
      simp [ofAnswers]
    have hfill : Fill (List.replicate entries.length none) entries := by
      refine ⟨?_, fun entry hentry ↦ ?_⟩
      · rw [(hperm.map Prod.fst).nodup_iff, map_fst_ofAnswers]
        exact nodup_range
      · obtain ⟨slot, b⟩ := entry
        have hget := mem_ofAnswers.mp (hperm.mem_iff.mp hentry)
        have hslot := (List.getElem?_eq_some_iff.mp hget).1
        rw [List.getElem?_replicate, if_pos (by omega)]
    refine ⟨hfill, ext_getElem? fun slot ↦ ?_⟩
    rw [getElem?_map]
    by_cases hslot : slot < answers.length
    · have hmem := mem_ofAnswers.mpr (getElem?_eq_getElem hslot)
      rw [put_getElem?_of_mem hfill (hperm.mem_iff.mpr hmem), getElem?_eq_getElem hslot]
      rfl
    · rw [getElem?_eq_none (by simp; omega), getElem?_eq_none (by omega)]
      rfl

/-- A table with a slot for each item is filled, and with given answers, exactly when the items in
some order are the items of slot 0, slot 1 and so on. -/
theorem complete_iff {ε : Type} {step : List (Option β) → α → Except ε (List (Option β))}
    {Fits : α → ℕ × β → Prop}
    (hstep : ∀ table a next, step table a = .ok next ↔ ∃ entry, Fits a entry ∧
      table[entry.1]? = some none ∧ next = table.set entry.1 (some entry.2))
    {items : List α} :
    (∃ table, items.foldlM step (List.replicate items.length none) = .ok table ∧
        table.mapM id = some answers) ↔
      ∃ ordered, ordered.Perm items ∧ List.Forall₂ Fits ordered (ofAnswers answers) := by
  constructor
  · rintro ⟨table, hloop, hfull⟩
    obtain ⟨entries, hentries, hfill, rfl⟩ := (foldlM_eq_ok_iff hstep).mp hloop
    rw [mapM_id_eq_some_iff] at hfull
    rw [hentries.length_eq] at hfill hfull
    have hperm := fill_empty_iff.mp ⟨hfill, hfull⟩
    obtain ⟨ordered, hordered, hfits⟩ := perm_comp_forall₂ hperm.symm hentries.flip
    exact ⟨ordered, hfits, hordered.flip⟩
  · rintro ⟨ordered, hordered, hfits⟩
    obtain ⟨entries, hentries, hperm⟩ := perm_comp_forall₂ hordered.symm hfits
    obtain ⟨hfill, hput⟩ := fill_empty_iff.mpr hperm
    refine ⟨_, (foldlM_eq_ok_iff hstep).mpr ⟨entries, hentries, ?_, rfl⟩, ?_⟩
    · rwa [hentries.length_eq]
    · rw [mapM_id_eq_some_iff, hentries.length_eq, hput]

end ObsMcp.Foundations.Slots
