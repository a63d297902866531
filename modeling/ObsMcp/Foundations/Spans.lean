import Mathlib.Data.List.Pairwise
import Mathlib.Data.List.Sort
import Mathlib.Order.Interval.Set.Basic
import Mathlib.Order.MinMax

/-!
# Lists of spans on a line

A span is a stretch of a linear order between two instants. Lists of spans are merged,
cut out of one another and intersected by the usual scans, and this module says what the
scans do to the set of instants a list covers.

Coverage is half open: a span holds its start and not its stop, so that spans which touch
cover exactly what their union does. `covered_subtract` is the coverage of a list with holes
taken out, for any holes whatever. `covered_merge` says that a merge covers what its input
covers and `merge_separated` that the spans it leaves do not even touch, so
`within_of_covered` finds one single merged span around any stretch that is covered without a
break.

`intersect` walks two lists with one pointer each and moves the pointer of the span that ends
first. `intersect_eq_crossings` equates the walk with the intersection of all pairs whenever
both lists are in order and without overlap, and `inside_crossings` and `ordered_crossings`
are what follows for the interiors and for the order of the result.
-/

namespace ObsMcp.Foundations

open List

/-- A stretch of a line between two instants. -/
structure Span (α : Type*) where
  start : α
  stop : α
deriving DecidableEq

namespace Span

variable {α : Type*} [LinearOrder α]

/-! ### What a list of spans covers -/

/-- The instants of a span, its stop left out. -/
def points (span : Span α) : Set α :=
  Set.Ico span.start span.stop

/-- The instants strictly between the ends of a span. -/
def interior (span : Span α) : Set α :=
  Set.Ioo span.start span.stop

/-- The instants that some span of a list holds. -/
def covered (spans : List (Span α)) : Set α :=
  {t | ∃ span ∈ spans, t ∈ span.points}

/-- The instants in the interior of some span of a list. -/
def inside (spans : List (Span α)) : Set α :=
  {t | ∃ span ∈ spans, t ∈ span.interior}

variable {span : Span α} {t : α} {rest spans : List (Span α)}

/-- Membership in a span, spelled out. -/
@[simp] theorem mem_points : t ∈ span.points ↔ span.start ≤ t ∧ t < span.stop :=
  Iff.rfl

/-- Membership in the interior of a span, spelled out. -/
@[simp] theorem mem_interior : t ∈ span.interior ↔ span.start < t ∧ t < span.stop :=
  Iff.rfl

/-- Membership in the coverage of a list, spelled out. -/
theorem mem_covered : t ∈ covered spans ↔ ∃ span ∈ spans, t ∈ span.points :=
  Iff.rfl

/-- The empty list covers nothing. -/
@[simp] theorem covered_nil : covered ([] : List (Span α)) = ∅ := by
  ext t
  simp [mem_covered]

/-- A list covers what its head and its tail cover. -/
@[simp] theorem covered_cons (span : Span α) (rest : List (Span α)) :
    covered (span :: rest) = span.points ∪ covered rest := by
  ext t
  simp [mem_covered]

/-- Appended lists cover what both cover. -/
@[simp] theorem covered_append (xs ys : List (Span α)) :
    covered (xs ++ ys) = covered xs ∪ covered ys := by
  ext t
  simp only [mem_covered, mem_append, Set.mem_union, or_and_right, exists_or]

/-- Rearranging a list does not change its coverage. -/
theorem covered_perm {xs ys : List (Span α)} (hperm : xs.Perm ys) : covered xs = covered ys := by
  ext t
  simp only [mem_covered, hperm.mem_iff]

/-! ### Taking holes out -/

/-- What is left of one span when one hole is taken out of it. -/
def without (hole span : Span α) : List (Span α) :=
  if hole.stop ≤ span.start ∨ span.stop ≤ hole.start then [span]
  else
    (if span.start < hole.start then [⟨span.start, hole.start⟩] else []) ++
      (if hole.stop < span.stop then [⟨hole.stop, span.stop⟩] else [])

/-- Every span of a list with every hole taken out, one hole after the other. -/
def subtract (spans holes : List (Span α)) : List (Span α) :=
  holes.foldl (fun left hole ↦ left.flatMap (without hole)) spans

/-- Taking a hole out of a span leaves exactly the instants outside the hole. -/
theorem covered_without (hole span : Span α) :
    covered (without hole span) = span.points \ hole.points := by
  ext t
  by_cases happart : hole.stop ≤ span.start ∨ span.stop ≤ hole.start
  · have hout : t ∈ span.points → t ∉ hole.points := by
      rintro ⟨hfrom, hto⟩ ⟨hstart, hstop⟩
      rcases happart with h | h
      · exact absurd (h.trans hfrom) (not_le.mpr hstop)
      · exact absurd (h.trans hstart) (not_le.mpr hto)
    simp only [without, if_pos happart, covered_cons, covered_nil, Set.union_empty, Set.mem_sdiff]
    exact ⟨fun h ↦ ⟨h, hout h⟩, fun h ↦ h.1⟩
  · obtain ⟨hstop, hstart⟩ := not_or.mp happart
    simp only [without, if_neg happart, covered_append, Set.mem_union, Set.mem_sdiff, mem_points]
    have hleft : t ∈ covered (if span.start < hole.start then
        [(⟨span.start, hole.start⟩ : Span α)] else []) ↔ span.start ≤ t ∧ t < hole.start := by
      split_ifs with h
      · simp
      · simp only [covered_nil, Set.mem_empty_iff_false, false_iff, not_and, not_lt]
        exact fun hfrom ↦ (not_lt.mp h).trans hfrom
    have hright : t ∈ covered (if hole.stop < span.stop then
        [(⟨hole.stop, span.stop⟩ : Span α)] else []) ↔ hole.stop ≤ t ∧ t < span.stop := by
      split_ifs with h
      · simp
      · simp only [covered_nil, Set.mem_empty_iff_false, false_iff, not_and, not_lt]
        exact fun hfrom ↦ (not_lt.mp h).trans hfrom
    rw [hleft, hright, not_and_or, not_le, not_lt]
    rw [not_le] at hstop hstart
    constructor
    · rintro (⟨hfrom, hto⟩ | ⟨hfrom, hto⟩)
      · exact ⟨⟨hfrom, hto.trans hstart⟩, Or.inl hto⟩
      · exact ⟨⟨hstop.le.trans hfrom, hto⟩, Or.inr hfrom⟩
    · rintro ⟨⟨hfrom, hto⟩, hbefore | hafter⟩
      · exact Or.inl ⟨hfrom, hbefore⟩
      · exact Or.inr ⟨hafter, hto⟩

/-- Taking one hole out of every span of a list. -/
theorem covered_flatMap_without (hole : Span α) (spans : List (Span α)) :
    covered (spans.flatMap (without hole)) = covered spans \ hole.points := by
  induction spans with
  | nil => simp
  | cons span rest ih =>
    rw [flatMap_cons, covered_append, ih, covered_without, covered_cons,
      Set.union_sdiff_distrib]

/-- Taking holes out of a list leaves exactly the instants outside every hole. -/
theorem covered_subtract (spans holes : List (Span α)) :
    covered (subtract spans holes) = covered spans \ covered holes := by
  induction holes generalizing spans with
  | nil => simp [subtract]
  | cons hole rest ih =>
    have hstep : subtract spans (hole :: rest) =
        subtract (spans.flatMap (without hole)) rest := rfl
    rw [hstep, ih, covered_flatMap_without, covered_cons, Set.sdiff_sdiff]

variable {left merged piece right : Span α} {lefts rights : List (Span α)}

/-- A piece left of a span lies between the ends of the span and is not empty when the span
is not. -/
theorem piece_of_without {hole : Span α} (hpiece : piece ∈ without hole span)
    (hspan : span.start < span.stop) :
    span.start ≤ piece.start ∧ piece.stop ≤ span.stop ∧ piece.start < piece.stop := by
  by_cases happart : hole.stop ≤ span.start ∨ span.stop ≤ hole.start
  · rw [without, if_pos happart, mem_singleton] at hpiece
    subst hpiece
    exact ⟨le_rfl, le_rfl, hspan⟩
  · obtain ⟨hstop, hstart⟩ := not_or.mp happart
    rw [without, if_neg happart, mem_append] at hpiece
    rw [not_le] at hstop hstart
    rcases hpiece with hpiece | hpiece
    · split_ifs at hpiece with h
      · obtain rfl := mem_singleton.mp hpiece
        exact ⟨le_rfl, hstart.le, h⟩
      · exact absurd hpiece not_mem_nil
    · split_ifs at hpiece with h
      · obtain rfl := mem_singleton.mp hpiece
        exact ⟨hstop.le, le_rfl, h⟩
      · exact absurd hpiece not_mem_nil

/-- A piece left of a list lies between the ends of one single span of it. -/
theorem piece_of_subtract {holes : List (Span α)} (hproper : ∀ span ∈ spans, span.start < span.stop)
    (hpiece : piece ∈ subtract spans holes) :
    piece.start < piece.stop ∧
      ∃ span ∈ spans, span.start ≤ piece.start ∧ piece.stop ≤ span.stop := by
  induction holes generalizing spans with
  | nil => exact ⟨hproper piece hpiece, piece, hpiece, le_rfl, le_rfl⟩
  | cons hole rest ih =>
    have hstep : ∀ part ∈ spans.flatMap (without hole), part.start < part.stop := by
      intro part hpart
      obtain ⟨span, hspan, hof⟩ := mem_flatMap.mp hpart
      exact (piece_of_without hof (hproper span hspan)).2.2
    obtain ⟨hne, part, hpart, hfrom, hto⟩ := ih hstep hpiece
    obtain ⟨span, hspan, hof⟩ := mem_flatMap.mp hpart
    obtain ⟨hstart, hstop, -⟩ := piece_of_without hof (hproper span hspan)
    exact ⟨hne, span, hspan, hstart.trans hfrom, hto.trans hstop⟩

/-! ### Merging -/

/-- The scan of a merge over spans sorted by their starts; `last` is the span it still
grows. -/
def mergeFrom (last : Span α) : List (Span α) → List (Span α)
  | [] => [last]
  | span :: rest =>
    if span.start ≤ last.stop then mergeFrom ⟨last.start, max last.stop span.stop⟩ rest
    else last :: mergeFrom span rest

/-- Spans in the order of their starts, each joined to the one before where they meet. -/
def merge (spans : List (Span α)) : List (Span α) :=
  match spans.insertionSort (fun a b ↦ a.start ≤ b.start) with
  | [] => []
  | first :: rest => mergeFrom first rest

/-- A list in the order of its starts. -/
abbrev ByStart (spans : List (Span α)) : Prop :=
  spans.Pairwise (fun a b ↦ a.start ≤ b.start)

/-- Growing the first span of a list keeps the list in order. -/
theorem byStart_grow {last : Span α} (hsorted : ByStart (last :: span :: rest)) (stop : α) :
    ByStart (⟨last.start, stop⟩ :: rest) := by
  obtain ⟨hlast, htail⟩ := pairwise_cons.mp hsorted
  exact pairwise_cons.mpr
    ⟨fun next hnext ↦ hlast next (mem_cons_of_mem _ hnext), (pairwise_cons.mp htail).2⟩

/-- The scan covers what its input covers. -/
theorem covered_mergeFrom (last : Span α) (rest : List (Span α))
    (hsorted : ByStart (last :: rest)) :
    covered (mergeFrom last rest) = covered (last :: rest) := by
  induction rest generalizing last with
  | nil => rfl
  | cons span rest ih =>
    have horder : last.start ≤ span.start :=
      (pairwise_cons.mp hsorted).1 span mem_cons_self
    by_cases hmeet : span.start ≤ last.stop
    · rw [mergeFrom, if_pos hmeet, ih _ (byStart_grow hsorted _)]
      simp only [covered_cons, ← Set.union_assoc]
      congr 1
      ext t
      simp only [mem_points, Set.mem_union, lt_max_iff]
      constructor
      · rintro ⟨hfrom, hto | hto⟩
        · exact Or.inl ⟨hfrom, hto⟩
        · rcases lt_or_ge t last.stop with hin | hout
          · exact Or.inl ⟨hfrom, hin⟩
          · exact Or.inr ⟨hmeet.trans hout, hto⟩
      · rintro (⟨hfrom, hto⟩ | ⟨hfrom, hto⟩)
        · exact ⟨hfrom, Or.inl hto⟩
        · exact ⟨horder.trans hfrom, Or.inr hto⟩
    · rw [mergeFrom, if_neg hmeet, covered_cons, ih _ (pairwise_cons.mp hsorted).2,
        covered_cons last]

/-- Nothing the scan leaves starts before the span it began with. -/
theorem start_le_of_mergeFrom {last : Span α} (hsorted : ByStart (last :: rest))
    (hspan : span ∈ mergeFrom last rest) : last.start ≤ span.start := by
  induction rest generalizing last with
  | nil =>
    obtain rfl := mem_singleton.mp hspan
    exact le_rfl
  | cons next rest ih =>
    by_cases hmeet : next.start ≤ last.stop
    · rw [mergeFrom, if_pos hmeet] at hspan
      have hgrown := byStart_grow hsorted (max last.stop next.stop)
      have hle := ih hgrown hspan
      exact hle
    · rw [mergeFrom, if_neg hmeet, mem_cons] at hspan
      obtain ⟨hlast, htail⟩ := pairwise_cons.mp hsorted
      rcases hspan with rfl | hspan
      · exact le_rfl
      · exact (hlast next mem_cons_self).trans (ih htail hspan)

/-- The spans the scan leaves are apart from one another. -/
theorem mergeFrom_separated (last : Span α) (rest : List (Span α))
    (hsorted : ByStart (last :: rest)) :
    (mergeFrom last rest).Pairwise (fun a b ↦ a.stop < b.start) := by
  induction rest generalizing last with
  | nil => exact pairwise_singleton _ _
  | cons span rest ih =>
    by_cases hmeet : span.start ≤ last.stop
    · rw [mergeFrom, if_pos hmeet]
      exact ih _ (byStart_grow hsorted _)
    · rw [mergeFrom, if_neg hmeet]
      have htail := (pairwise_cons.mp hsorted).2
      refine pairwise_cons.mpr ⟨fun next hnext ↦ ?_, ih _ htail⟩
      exact (not_le.mp hmeet).trans_le (start_le_of_mergeFrom htail hnext)

/-- A span the scan leaves is not empty when no input is, and ends where some input ends. -/
theorem stop_of_mergeFrom {last : Span α} (hproper : ∀ span ∈ last :: rest, span.start < span.stop)
    (hmerged : merged ∈ mergeFrom last rest) :
    merged.start < merged.stop ∧ ∃ span ∈ last :: rest, span.stop = merged.stop := by
  induction rest generalizing last with
  | nil =>
    obtain rfl := mem_singleton.mp hmerged
    exact ⟨hproper _ mem_cons_self, _, mem_cons_self, rfl⟩
  | cons next rest ih =>
    have hlast : last.start < last.stop := hproper last mem_cons_self
    have hrest : ∀ span ∈ rest, span.start < span.stop := fun span hspan ↦
      hproper span (mem_cons_of_mem _ (mem_cons_of_mem _ hspan))
    by_cases hmeet : next.start ≤ last.stop
    · rw [mergeFrom, if_pos hmeet] at hmerged
      have hgrown : ∀ span ∈ (⟨last.start, max last.stop next.stop⟩ : Span α) :: rest,
          span.start < span.stop := by
        intro span hspan
        rcases mem_cons.mp hspan with rfl | hspan
        · exact lt_max_of_lt_left hlast
        · exact hrest span hspan
      obtain ⟨hne, span, hspan, hstop⟩ := ih hgrown hmerged
      refine ⟨hne, ?_⟩
      rcases mem_cons.mp hspan with rfl | hspan
      · rcases max_choice last.stop next.stop with hmax | hmax
        · exact ⟨last, mem_cons_self, hmax.symm.trans hstop⟩
        · exact ⟨next, mem_cons_of_mem _ mem_cons_self, hmax.symm.trans hstop⟩
      · exact ⟨span, mem_cons_of_mem _ (mem_cons_of_mem _ hspan), hstop⟩
    · rw [mergeFrom, if_neg hmeet, mem_cons] at hmerged
      rcases hmerged with rfl | hmerged
      · exact ⟨hlast, _, mem_cons_self, rfl⟩
      · obtain ⟨hne, span, hspan, hstop⟩ :=
          ih (fun span hspan ↦ hproper span (mem_cons_of_mem _ hspan)) hmerged
        exact ⟨hne, span, mem_cons_of_mem _ hspan, hstop⟩

/-- The sort that a merge begins with leaves the spans in the order of their starts. -/
theorem byStart_sorted (spans : List (Span α)) :
    ByStart (spans.insertionSort (fun a b ↦ a.start ≤ b.start)) :=
  haveI : Std.Total (fun a b : Span α ↦ a.start ≤ b.start) := ⟨fun _ _ ↦ le_total _ _⟩
  haveI : IsTrans (Span α) (fun a b ↦ a.start ≤ b.start) := ⟨fun _ _ _ ↦ le_trans⟩
  pairwise_insertionSort _ spans

/-- A merge covers what its input covers. -/
theorem covered_merge (spans : List (Span α)) : covered (merge spans) = covered spans := by
  have hperm := spans.perm_insertionSort (fun a b ↦ a.start ≤ b.start)
  have hsorted := byStart_sorted spans
  rw [← covered_perm hperm, merge]
  cases hlist : spans.insertionSort (fun a b ↦ a.start ≤ b.start) with
  | nil => rfl
  | cons first rest => exact covered_mergeFrom first rest (hlist ▸ hsorted)

/-- Merged spans are in order and do not touch. -/
theorem merge_separated (spans : List (Span α)) :
    (merge spans).Pairwise (fun a b ↦ a.stop < b.start) := by
  have hsorted := byStart_sorted spans
  rw [merge]
  cases hlist : spans.insertionSort (fun a b ↦ a.start ≤ b.start) with
  | nil => exact List.Pairwise.nil
  | cons first rest => exact mergeFrom_separated first rest (hlist ▸ hsorted)

/-- A merged span is not empty when no input is, and ends where some input ends. -/
theorem stop_of_merge (hproper : ∀ span ∈ spans, span.start < span.stop)
    (hmerged : merged ∈ merge spans) :
    merged.start < merged.stop ∧ ∃ span ∈ spans, span.stop = merged.stop := by
  have hperm := spans.perm_insertionSort (fun a b ↦ a.start ≤ b.start)
  rw [merge] at hmerged
  cases hlist : spans.insertionSort (fun a b ↦ a.start ≤ b.start) with
  | nil =>
    rw [hlist] at hmerged
    exact absurd hmerged not_mem_nil
  | cons first rest =>
    rw [hlist] at hmerged hperm
    obtain ⟨hne, span, hspan, hstop⟩ :=
      stop_of_mergeFrom (fun span hspan ↦ hproper span (hperm.mem_iff.mp hspan)) hmerged
    exact ⟨hne, span, hperm.mem_iff.mp hspan, hstop⟩

/-- A stretch that separated spans cover without a break lies inside one of them. -/
theorem within_of_covered {first last : α}
    (hseparated : spans.Pairwise (fun a b ↦ a.stop < b.start)) (hstretch : first < last)
    (hcovered : ∀ t, first ≤ t → t < last → t ∈ covered spans) :
    ∃ span ∈ spans, span.start ≤ first ∧ last ≤ span.stop := by
  obtain ⟨span, hspan, hfrom, hto⟩ := hcovered first le_rfl hstretch
  refine ⟨span, hspan, hfrom, not_lt.mp fun hshort ↦ ?_⟩
  obtain ⟨other, hother, hstart, hstop⟩ := hcovered span.stop hto.le hshort
  have hne : span ≠ other := by
    rintro rfl
    exact lt_irrefl _ hstop
  have happart : span.stop < other.start ∨ other.stop < span.start := by
    have heither : spans.Pairwise (fun a b ↦ a.stop < b.start ∨ b.stop < a.start) :=
      hseparated.imp Or.inl
    have : Std.Symm (fun a b : Span α ↦ a.stop < b.start ∨ b.stop < a.start) :=
      ⟨fun _ _ h ↦ h.symm⟩
    exact heither.forall hspan hother hne
  rcases happart with h | h
  · exact absurd hstart (not_le.mpr h)
  · exact absurd (hstop.trans h) (not_lt.mpr (hfrom.trans hto.le))

/-! ### Intersecting -/

/-- The part two spans share, when it is not empty. -/
def shared (left right : Span α) : List (Span α) :=
  let span : Span α := ⟨max left.start right.start, min left.stop right.stop⟩
  if span.start < span.stop then [span] else []

/-- The walk along two lists that moves past whichever span ends first. -/
def intersect : List (Span α) → List (Span α) → List (Span α)
  | left :: lefts, right :: rights =>
    shared left right ++
      if left.stop < right.stop then intersect lefts (right :: rights)
      else intersect (left :: lefts) rights
  | _, _ => []
termination_by lefts rights => lefts.length + rights.length

/-- The shared parts of all pairs, pair by pair. -/
def crossings (lefts rights : List (Span α)) : List (Span α) :=
  lefts.flatMap fun left ↦ rights.flatMap (shared left)

/-- Spans in time order, each starting no earlier than the one before ends. -/
structure Ordered (spans : List (Span α)) : Prop where
  forward : ∀ span ∈ spans, span.start ≤ span.stop
  apart : spans.Pairwise (fun a b ↦ a.stop ≤ b.start)

/-- Nothing is shared with an empty list. -/
@[simp] theorem nil_intersect (rights : List (Span α)) : intersect [] rights = [] := by
  rw [intersect]
  exact fun _ _ _ _ hnil _ ↦ absurd hnil (cons_ne_nil _ _).symm

/-- An empty list shares nothing. -/
@[simp] theorem intersect_nil (lefts : List (Span α)) : intersect lefts [] = [] := by
  rw [intersect]
  exact fun _ _ _ _ _ hnil ↦ absurd hnil (cons_ne_nil _ _).symm

/-- A shared part is the intersection of the two spans and is not empty. -/
theorem mem_shared :
    span ∈ shared left right ↔
      span = ⟨max left.start right.start, min left.stop right.stop⟩ ∧
        span.start < span.stop := by
  unfold shared
  dsimp only
  split_ifs with h
  · rw [mem_singleton]
    exact ⟨fun heq ↦ ⟨heq, heq ▸ h⟩, fun heq ↦ heq.1⟩
  · simp only [not_mem_nil, false_iff, not_and]
    rintro rfl
    exact h

/-- Spans apart from one another share nothing. -/
theorem shared_eq_nil (happart : left.stop ≤ right.start ∨ right.stop ≤ left.start) :
    shared left right = [] := by
  refine if_neg (not_lt.mpr ?_)
  rcases happart with h | h
  · exact ((min_le_left _ _).trans h).trans (le_max_right _ _)
  · exact ((min_le_right _ _).trans h).trans (le_max_left _ _)

/-- The tail of an ordered list is ordered. -/
theorem Ordered.tail (hordered : Ordered (span :: rest)) : Ordered rest :=
  ⟨fun next hnext ↦ hordered.forward next (mem_cons_of_mem _ hnext),
    (pairwise_cons.mp hordered.apart).2⟩

/-- The walk gives the shared parts of all pairs. -/
theorem intersect_eq_crossings (hlefts : Ordered lefts) (hrights : Ordered rights) :
    intersect lefts rights = crossings lefts rights := by
  fun_induction intersect lefts rights with
  | case1 left lefts right rights ihleft ihright =>
    have hhead : crossings (left :: lefts) (right :: rights) =
        (shared left right ++ rights.flatMap (shared left)) ++
          crossings lefts (right :: rights) := rfl
    by_cases hends : left.stop < right.stop
    · have hlate : rights.flatMap (shared left) = [] := by
        refine flatMap_eq_nil_iff.mpr fun next hnext ↦ shared_eq_nil (Or.inl ?_)
        exact hends.le.trans ((pairwise_cons.mp hrights.apart).1 next hnext)
      rw [if_pos hends, ihleft hlefts.tail hrights, hhead, hlate, append_nil]
    · have hlate : ∀ next ∈ lefts, shared next right = [] := fun next hnext ↦
        shared_eq_nil (Or.inr ((not_lt.mp hends).trans
          ((pairwise_cons.mp hlefts.apart).1 next hnext)))
      have hskip : crossings lefts (right :: rights) = crossings lefts rights := by
        refine flatMap_congr fun next hnext ↦ ?_
        rw [flatMap_cons, hlate next hnext, nil_append]
      have hfewer : crossings (left :: lefts) rights =
          rights.flatMap (shared left) ++ crossings lefts rights := rfl
      rw [if_neg hends, ihright hlefts hrights.tail, hhead, hskip, hfewer, append_assoc]
  | case2 lefts rights hempty =>
    cases lefts with
    | nil => rfl
    | cons left lefts =>
      cases rights with
      | nil => simp [crossings]
      | cons right rights => exact absurd rfl (hempty left lefts right rights rfl)

/-- An instant is inside a shared part exactly when it is inside a span of both lists. -/
theorem inside_crossings (lefts rights : List (Span α)) :
    inside (crossings lefts rights) = inside lefts ∩ inside rights := by
  ext t
  constructor
  · rintro ⟨span, hspan, hin⟩
    obtain ⟨left, hleft, hspan⟩ := mem_flatMap.mp hspan
    obtain ⟨right, hright, hspan⟩ := mem_flatMap.mp hspan
    obtain ⟨rfl, -⟩ := mem_shared.mp hspan
    rw [mem_interior, max_lt_iff, lt_min_iff] at hin
    exact ⟨⟨left, hleft, hin.1.1, hin.2.1⟩, ⟨right, hright, hin.1.2, hin.2.2⟩⟩
  · rintro ⟨⟨left, hleft, hin⟩, ⟨right, hright, hin'⟩⟩
    have hfrom : max left.start right.start < t := max_lt hin.1 hin'.1
    have hto : t < min left.stop right.stop := lt_min hin.2 hin'.2
    refine ⟨⟨max left.start right.start, min left.stop right.stop⟩, ?_, hfrom, hto⟩
    refine mem_flatMap.mpr ⟨left, hleft, mem_flatMap.mpr ⟨right, hright, ?_⟩⟩
    exact mem_shared.mpr ⟨rfl, hfrom.trans hto⟩

/-- The shared parts of ordered lists are ordered and none is empty. -/
theorem ordered_crossings (hlefts : Ordered lefts) (hrights : Ordered rights) :
    (∀ span ∈ crossings lefts rights, span.start < span.stop) ∧
      (crossings lefts rights).Pairwise (fun a b ↦ a.stop ≤ b.start) := by
  constructor
  · intro span hspan
    obtain ⟨left, -, hspan⟩ := mem_flatMap.mp hspan
    obtain ⟨right, -, hspan⟩ := mem_flatMap.mp hspan
    exact (mem_shared.mp hspan).2
  · refine pairwise_flatMap.mpr ⟨fun left _ ↦ ?_, hlefts.apart.imp ?_⟩
    · refine pairwise_flatMap.mpr ⟨fun right _ ↦ ?_, hrights.apart.imp ?_⟩
      · unfold shared
        dsimp only
        split_ifs
        · exact pairwise_singleton _ _
        · exact List.Pairwise.nil
      · intro right next hright a ha b hb
        obtain ⟨rfl, -⟩ := mem_shared.mp ha
        obtain ⟨rfl, -⟩ := mem_shared.mp hb
        exact ((min_le_right _ _).trans hright).trans (le_max_right _ _)
    · intro left next hleft a ha b hb
      obtain ⟨right, -, ha⟩ := mem_flatMap.mp ha
      obtain ⟨other, -, hb⟩ := mem_flatMap.mp hb
      obtain ⟨rfl, -⟩ := mem_shared.mp ha
      obtain ⟨rfl, -⟩ := mem_shared.mp hb
      exact ((min_le_left _ _).trans hleft).trans (le_max_left _ _)

end Span

end ObsMcp.Foundations
