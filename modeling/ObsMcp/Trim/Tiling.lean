import ObsMcp.Trim.Plan

/-!
# What a trim plan tiles and keeps

The cuts of a plan are laid along the recording: each is a forward span between whole hundredths
that starts no earlier than the one before ends. `Laid` is that invariant from a cursor on, and
`laid_cutSpans` proves it of every plan. From it alone follow, by induction along the cuts, that
cuts and keep spans tile the recording (`keepFrom_tiles`), that an instant inside a keep span is
moved to its place in the concatenation of the keep spans (`position_of_keep`), and that the map of
instants shrinks no distance below zero (`removedBefore_lipschitz`).

What a cut may contain is read off the scans before the clamp: `mem_cutSpans` places every cut
inside a merged stretch, and `spares_of_mem` keeps it off the held times. `plan_sound` puts the
parts together.
-/

namespace ObsMcp.Trim

open Foundations List

variable {options : CutOptions} {cuts : List (Span ℚ)} {cursor duration last : ℚ}

/-! ### Cuts along a recording -/

/-- Cuts that follow a cursor in order, between whole hundredths and up to a last instant. -/
def Laid (last cursor : ℚ) : List (Span ℚ) → Prop
  | [] => cursor ≤ last
  | cut :: rest =>
    cursor ≤ cut.start ∧ cut.start < cut.stop ∧ Cent cut.start ∧ Cent cut.stop ∧
      Laid last cut.stop rest

/-- Spans that follow one another without a gap from one instant to another. -/
def Tiles (first last : ℚ) : List (Span ℚ) → Prop
  | [] => first = last
  | span :: rest => span.start = first ∧ span.start ≤ span.stop ∧ Tiles span.stop last rest

/-- Laid cuts leave the cursor at or before the last instant. -/
theorem Laid.cursor_le (hlaid : Laid last cursor cuts) : cursor ≤ last := by
  induction cuts generalizing cursor with
  | nil => exact hlaid
  | cons cut rest ih =>
    obtain ⟨hfrom, hforward, -, -, hrest⟩ := hlaid
    exact (hfrom.trans hforward.le).trans (ih hrest)

variable {cut hole span : Span ℚ} {first time : ℚ}

/-- Laid cuts lie between the cursor and the last instant. -/
theorem Laid.bounds (hlaid : Laid last cursor cuts) (hcut : cut ∈ cuts) :
    cursor ≤ cut.start ∧ cut.start < cut.stop ∧ cut.stop ≤ last := by
  induction cuts generalizing cursor with
  | nil => exact absurd hcut not_mem_nil
  | cons next rest ih =>
    obtain ⟨hfrom, hforward, -, -, hrest⟩ := hlaid
    rcases mem_cons.mp hcut with rfl | hcut
    · exact ⟨hfrom, hforward, hrest.cursor_le⟩
    · obtain ⟨hstart, hrest⟩ := ih hrest hcut
      exact ⟨(hfrom.trans hforward.le).trans hstart, hrest⟩

/-- Laid cuts are in order and do not overlap. -/
theorem Laid.apart (hlaid : Laid last cursor cuts) :
    cuts.Pairwise (fun a b ↦ a.stop ≤ b.start) := by
  induction cuts generalizing cursor with
  | nil => exact List.Pairwise.nil
  | cons cut rest ih =>
    obtain ⟨-, -, -, -, hrest⟩ := hlaid
    exact pairwise_cons.mpr ⟨fun next hnext ↦ (hrest.bounds hnext).1, ih hrest⟩

/-- The lengths of laid cuts add up to a whole number of hundredths. -/
theorem Laid.cent_total (hlaid : Laid last cursor cuts) : Cent (total cuts) := by
  induction cuts generalizing cursor with
  | nil => exact cent_zero
  | cons cut rest ih =>
    obtain ⟨-, -, hstart, hstop, hrest⟩ := hlaid
    exact (hstop.sub hstart).add (ih hrest)

/-- Spans in order between whole hundredths and two bounds are laid. -/
theorem laid_of_pairwise (hcursor : cursor ≤ last)
    (hapart : cuts.Pairwise (fun a b ↦ a.stop ≤ b.start))
    (hcuts : ∀ cut ∈ cuts, cursor ≤ cut.start ∧ cut.start < cut.stop ∧ cut.stop ≤ last ∧
      Cent cut.start ∧ Cent cut.stop) : Laid last cursor cuts := by
  induction cuts generalizing cursor with
  | nil => exact hcursor
  | cons cut rest ih =>
    obtain ⟨hhead, htail⟩ := pairwise_cons.mp hapart
    obtain ⟨hfrom, hforward, hto, hstart, hstop⟩ := hcuts cut mem_cons_self
    refine ⟨hfrom, hforward, hstart, hstop, ih hto htail fun next hnext ↦ ?_⟩
    exact ⟨hhead next hnext, (hcuts next (mem_cons_of_mem _ hnext)).2⟩

/-- A cut is a merged stretch that was clamped, found long enough and rounded. -/
theorem mem_cutSpans :
    cut ∈ cutSpans options ↔
      ∃ merged ∈ Span.merge (Span.subtract options.candidates options.held),
        1 / 2 ≤ length (options.clamp merged) ∧ cut = roundSpan (options.clamp merged) := by
  simp only [cutSpans, mem_map, mem_filter, decide_eq_true_eq]
  constructor
  · rintro ⟨_, ⟨⟨merged, hmerged, rfl⟩, hlong⟩, rfl⟩
    exact ⟨merged, hmerged, hlong, rfl⟩
  · rintro ⟨merged, hmerged, hlong, rfl⟩
    exact ⟨_, ⟨⟨merged, hmerged, rfl⟩, hlong⟩, rfl⟩

/-- The cuts of every plan are laid along the recording. -/
theorem laid_cutSpans (hduration : 0 < options.duration) :
    Laid (roundSeconds options.duration) 0 (cutSpans options) := by
  have hzero : (0 : ℚ) = roundSeconds 0 := (roundSeconds_cent cent_zero).symm
  refine laid_of_pairwise (hzero.le.trans (roundSeconds_mono hduration.le)) ?_ ?_
  · have hmerged := Span.merge_separated (Span.subtract options.candidates options.held)
    refine List.Pairwise.map _ (fun _ _ h ↦ h) (List.Pairwise.filter _
      (hmerged.map options.clamp fun a b hab ↦ ?_))
    exact roundSeconds_mono ((min_le_right _ _).trans (hab.le.trans (le_max_right _ _)))
  · intro cut hcut
    obtain ⟨merged, -, hlong, rfl⟩ := mem_cutSpans.mp hcut
    have hup := roundSeconds_le (options.clamp merged).start
    have hdown := lt_roundSeconds (options.clamp merged).stop
    have hstart : 0 ≤ (options.clamp merged).start := le_max_left _ _
    have hstop : (options.clamp merged).stop ≤ options.duration := min_le_left _ _
    refine ⟨hzero.le.trans (roundSeconds_mono hstart), ?_, roundSeconds_mono hstop,
      cent_roundSeconds _, cent_roundSeconds _⟩
    rw [length] at hlong
    show roundSeconds _ < roundSeconds _
    linarith

/-! ### The keep spans -/

/-- Cuts and keep spans, put in order, tile the recording from the cursor on. -/
theorem keepFrom_tiles (hlaid : Laid (roundSeconds duration) cursor cuts) (hcursor : Cent cursor) :
    ∃ tiles, tiles.Perm (cuts ++ keepFrom duration cursor cuts) ∧
      (keepFrom duration cursor cuts).Sublist tiles ∧ cuts.Sublist tiles ∧
      Tiles cursor (roundSeconds duration) tiles := by
  induction cuts generalizing cursor with
  | nil =>
    by_cases hleft : cursor < duration
    · refine ⟨[⟨cursor, roundSeconds duration⟩], ?_, ?_, nil_sublist _, rfl, hlaid, rfl⟩
      · rw [keepFrom, if_pos hleft, roundSeconds_cent hcursor, nil_append]
      · rw [keepFrom, if_pos hleft, roundSeconds_cent hcursor]
    · refine ⟨[], ?_, ?_, List.Sublist.refl _, ?_⟩
      · rw [keepFrom, if_neg hleft, nil_append]
      · rw [keepFrom, if_neg hleft]
      · have hle := roundSeconds_mono (not_lt.mp hleft)
        rw [roundSeconds_cent hcursor] at hle
        exact le_antisymm hlaid hle
  | cons cut rest ih =>
    obtain ⟨hfrom, hforward, -, hstop, hrest⟩ := hlaid
    obtain ⟨tiles, hperm, hkeep, hcuts, htiles⟩ := ih hrest hstop
    have hcut : Tiles cut.start (roundSeconds duration) (cut :: tiles) :=
      ⟨rfl, hforward.le, htiles⟩
    by_cases hgap : cursor < cut.start
    · have hkept : keepFrom duration cursor (cut :: rest) =
          ⟨cursor, cut.start⟩ :: keepFrom duration cut.stop rest := by
        rw [keepFrom, if_pos hgap, roundSeconds_cent hcursor, singleton_append]
      refine ⟨⟨cursor, cut.start⟩ :: cut :: tiles, ?_, ?_, ?_, rfl, hgap.le, hcut⟩
      · rw [hkept]
        refine List.Perm.trans ?_ perm_middle.symm
        exact ((hperm.cons cut).cons _)
      · rw [hkept]
        exact (hkeep.cons cut).cons_cons _
      · exact (hcuts.cons_cons cut).cons _
    · have hkept : keepFrom duration cursor (cut :: rest) =
          keepFrom duration cut.stop rest := by
        rw [keepFrom, if_neg hgap, nil_append]
      have hat : cut.start = cursor := le_antisymm (not_lt.mp hgap) hfrom
      refine ⟨cut :: tiles, ?_, ?_, hcuts.cons_cons cut, hat ▸ hcut⟩
      · rw [hkept]
        exact hperm.cons cut
      · rw [hkept]
        exact hkeep.cons cut

/-- Tiles are as long together as what they tile. -/
theorem Tiles.total_eq {tiles : List (Span ℚ)} (htiles : Tiles first last tiles) :
    total tiles = last - first := by
  induction tiles generalizing first with
  | nil =>
    have heq : first = last := htiles
    rw [total, map_nil, sum_nil, heq, sub_self]
  | cons span rest ih =>
    obtain ⟨hstart, -, hrest⟩ := htiles
    have htail := ih hrest
    rw [total] at htail
    rw [total, map_cons, sum_cons, htail, length, hstart]
    ring

/-- The total length of appended lists. -/
theorem total_append (xs ys : List (Span ℚ)) : total (xs ++ ys) = total xs + total ys := by
  rw [total, map_append, sum_append, total, total]

/-- The total length does not depend on the order. -/
theorem total_perm {xs ys : List (Span ℚ)} (hperm : xs.Perm ys) : total xs = total ys :=
  (hperm.map length).sum_eq

/-- The keep spans are as long together as the recording without its cuts. -/
theorem total_keepFrom (hlaid : Laid (roundSeconds duration) cursor cuts) (hcursor : Cent cursor) :
    total (keepFrom duration cursor cuts) = roundSeconds duration - cursor - total cuts := by
  obtain ⟨tiles, hperm, -, -, htiles⟩ := keepFrom_tiles hlaid hcursor
  have hall := htiles.total_eq
  rw [total_perm hperm, total_append] at hall
  linarith

/-- Keep spans start at or after the cursor. -/
theorem cursor_le_of_mem_keepFrom (hlaid : Laid (roundSeconds duration) cursor cuts)
    (hcursor : Cent cursor) (hspan : span ∈ keepFrom duration cursor cuts) :
    cursor ≤ span.start := by
  induction cuts generalizing cursor with
  | nil =>
    rw [keepFrom] at hspan
    split_ifs at hspan
    · rw [mem_singleton.mp hspan, roundSeconds_cent hcursor]
    · exact absurd hspan not_mem_nil
  | cons cut rest ih =>
    obtain ⟨hfrom, hforward, -, hstop, hrest⟩ := hlaid
    rw [keepFrom, mem_append] at hspan
    rcases hspan with hspan | hspan
    · split_ifs at hspan
      · rw [mem_singleton.mp hspan, roundSeconds_cent hcursor]
      · exact absurd hspan not_mem_nil
    · exact (hfrom.trans hforward.le).trans (ih hrest hstop hspan)

/-! ### Moving instants -/

/-- Nothing is removed before the first cut. -/
theorem removedBefore_eq_zero (hlaid : Laid last cursor cuts) (htime : time ≤ cursor) :
    removedBefore time cuts = 0 := by
  induction cuts generalizing cursor with
  | nil => rfl
  | cons cut rest ih =>
    obtain ⟨hfrom, hforward, -, -, hrest⟩ := hlaid
    have hstart : time ≤ cut.start := htime.trans hfrom
    have hnone : removedBy time cut = 0 := by
      rw [removedBy, if_neg (not_le.mpr (hstart.trans_lt hforward)), if_neg (not_lt.mpr hstart)]
    rw [removedBefore, map_cons, sum_cons, hnone, zero_add]
    exact ih hrest (hstart.trans hforward.le)

/-- What a list of cuts removes, cut by cut. -/
theorem removedBefore_cons (time : ℚ) (cut : Span ℚ) (rest : List (Span ℚ)) :
    removedBefore time (cut :: rest) = removedBy time cut + removedBefore time rest := by
  rw [removedBefore, map_cons, sum_cons, removedBefore]

/-- All cuts are removed before an instant after them. -/
theorem removedBefore_eq_total (hafter : ∀ cut ∈ cuts, cut.stop ≤ time) :
    removedBefore time cuts = total cuts := by
  induction cuts with
  | nil => rfl
  | cons cut rest ih =>
    rw [removedBefore_cons, removedBy, if_pos (hafter cut mem_cons_self),
      ih fun next hnext ↦ hafter next (mem_cons_of_mem _ hnext)]
    rfl

variable {second : ℚ} {merged : Span ℚ}

/-- One cut removes no more between two instants than lies between them. -/
theorem removedBy_lipschitz (cut : Span ℚ) (horder : first ≤ second) :
    removedBy second cut - removedBy first cut ≤ second - first := by
  unfold removedBy
  split_ifs <;> linarith

/-- Laid cuts remove no more between two instants than lies between them. -/
theorem removedBefore_lipschitz (hlaid : Laid last cursor cuts) (horder : first ≤ second) :
    removedBefore second cuts - removedBefore first cuts ≤ second - first := by
  induction cuts generalizing cursor first with
  | nil =>
    have hnone : ∀ time, removedBefore time [] = 0 := fun _ ↦ rfl
    rw [hnone, hnone]
    linarith
  | cons cut rest ih =>
    obtain ⟨-, hforward, -, -, hrest⟩ := hlaid
    rw [removedBefore_cons, removedBefore_cons]
    by_cases hlate : cut.stop ≤ first
    · have hboth : removedBy second cut = removedBy first cut := by
        rw [removedBy, if_pos (hlate.trans horder), removedBy, if_pos hlate]
      have htail := ih hrest horder
      linarith
    · have hfirst : removedBefore first rest = 0 :=
        removedBefore_eq_zero hrest (not_le.mp hlate).le
      by_cases hearly : second ≤ cut.stop
      · have hsecond : removedBefore second rest = 0 := removedBefore_eq_zero hrest hearly
        have hcut := removedBy_lipschitz cut horder
        linarith
      · have hafter : cut.stop ≤ second := (not_le.mp hearly).le
        have hat : removedBefore cut.stop rest = 0 := removedBefore_eq_zero hrest le_rfl
        have htail := ih hrest hafter
        have hcut := removedBy_lipschitz cut (not_le.mp hlate).le
        have hwhole : removedBy second cut = removedBy cut.stop cut := by
          rw [removedBy, if_pos hafter, removedBy, if_pos le_rfl]
        linarith

/-- An instant inside a keep span is moved to its place among the keep spans. -/
theorem position_of_keep (hlaid : Laid (roundSeconds duration) cursor cuts) (hcursor : Cent cursor)
    {earlier later : List (Span ℚ)}
    (hkeep : keepFrom duration cursor cuts = earlier ++ span :: later) (hfrom : span.start ≤ time)
    (hto : time ≤ span.stop) :
    time - removedBefore time cuts = cursor + total earlier + (time - span.start) := by
  induction cuts generalizing cursor earlier with
  | nil =>
    rw [keepFrom] at hkeep
    split_ifs at hkeep
    · cases earlier with
      | nil =>
        have hstart : roundSeconds cursor = span.start :=
          congrArg Span.start (cons.inj hkeep).1
        have hnone : removedBefore time [] = 0 := rfl
        have hempty : total [] = 0 := rfl
        rw [hnone, hempty, ← hstart, roundSeconds_cent hcursor]
        ring
      | cons gap earlier =>
        have htail : [] = earlier ++ span :: later := (cons.inj hkeep).2
        exact absurd htail.symm (append_ne_nil_of_right_ne_nil _ (cons_ne_nil _ _))
    · exact absurd hkeep.symm (append_ne_nil_of_right_ne_nil _ (cons_ne_nil _ _))
  | cons cut rest ih =>
    obtain ⟨hbefore, hforward, -, hstop, hrest⟩ := hlaid
    have hlater : ∀ {before : List (Span ℚ)},
        keepFrom duration cut.stop rest = before ++ span :: later →
          time - removedBefore time (cut :: rest) =
            cut.start + total before + (time - span.start) := by
      intro before htail
      have hmem : span ∈ keepFrom duration cut.stop rest := by
        rw [htail]
        exact mem_append_right _ mem_cons_self
      have hafter := (cursor_le_of_mem_keepFrom hrest hstop hmem).trans hfrom
      have hplace := ih hrest hstop htail
      rw [removedBefore_cons, removedBy, if_pos hafter]
      linarith
    by_cases hgap : cursor < cut.start
    · rw [keepFrom, if_pos hgap, roundSeconds_cent hcursor, singleton_append] at hkeep
      cases earlier with
      | nil =>
        obtain ⟨rfl, -⟩ := cons.inj hkeep
        have hnone : removedBefore time (cut :: rest) = 0 := by
          rw [removedBefore_cons, removedBy, if_neg (not_le.mpr (hto.trans_lt hforward)),
            if_neg (not_lt.mpr hto), zero_add]
          exact removedBefore_eq_zero hrest (hto.trans hforward.le)
        have hempty : total [] = 0 := rfl
        rw [hnone, hempty]
        ring
      | cons gap earlier =>
        obtain ⟨rfl, htail⟩ := cons.inj hkeep
        have hplace := hlater htail
        have hsum : total (⟨cursor, cut.start⟩ :: earlier) =
            cut.start - cursor + total earlier := rfl
        rw [hsum]
        linarith
    · rw [keepFrom, if_neg hgap, nil_append] at hkeep
      have hat : cut.start = cursor := le_antisymm (not_lt.mp hgap) hbefore
      rw [← hat]
      exact hlater hkeep

/-! ### What a cut may contain -/

/-- An instant that may be cut: in a stretch that was idle for long enough, away from its sides,
and in no time that is held. -/
def Free (options : CutOptions) (time : ℚ) : Prop :=
  time ∈ Span.covered options.candidates ∧ time ∉ Span.covered options.held

/-- A stretch that may be cut is an idle span of the least length, shrunk, that is still half a
second long. -/
theorem mem_candidates :
    span ∈ options.candidates ↔
      ∃ idle ∈ options.idle, options.minIdleSeconds ≤ length idle ∧
        1 / 2 ≤ length (options.shrink idle) ∧ span = options.shrink idle := by
  simp only [CutOptions.candidates, mem_filter, mem_map, decide_eq_true_eq]
  constructor
  · rintro ⟨⟨idle, ⟨hidle, hmin⟩, rfl⟩, hlong⟩
    exact ⟨idle, hidle, hmin, hlong, rfl⟩
  · rintro ⟨idle, hidle, hmin, hlong, rfl⟩
    exact ⟨⟨idle, ⟨hidle, hmin⟩, rfl⟩, hlong⟩

/-- No stretch that may be cut is empty. -/
theorem candidates_proper (options : CutOptions) :
    ∀ span ∈ options.candidates, span.start < span.stop := by
  intro span hspan
  obtain ⟨idle, -, -, hlong, rfl⟩ := mem_candidates.mp hspan
  rw [length] at hlong
  linarith

/-- The merged stretches cover exactly the instants that may be cut. -/
theorem covered_merged (options : CutOptions) (time : ℚ) :
    time ∈ Span.covered (Span.merge (Span.subtract options.candidates options.held)) ↔
      Free options time := by
  rw [Span.covered_merge, Span.covered_subtract]
  exact Iff.rfl

section

variable (hmerged : merged ∈ Span.merge (Span.subtract options.candidates options.held))
include hmerged

/-- A merged stretch is not empty and ends where, or before, some stretch that may be cut
does, having begun after its start. -/
theorem stop_of_merged :
    merged.start < merged.stop ∧
      ∃ span ∈ options.candidates, span.start ≤ merged.stop ∧ merged.stop ≤ span.stop := by
  have hpieces : ∀ piece ∈ Span.subtract options.candidates options.held,
      piece.start < piece.stop ∧
        ∃ span ∈ options.candidates, span.start ≤ piece.start ∧ piece.stop ≤ span.stop :=
    fun _ hpiece ↦ Span.piece_of_subtract (candidates_proper options) hpiece
  obtain ⟨hforward, piece, hpiece, hstop⟩ :=
    Span.stop_of_merge (fun piece hpiece ↦ (hpieces piece hpiece).1) hmerged
  obtain ⟨hproper, span, hspan, hfrom, hto⟩ := hpieces piece hpiece
  exact ⟨hforward, span, hspan, hstop ▸ hfrom.trans hproper.le, hstop ▸ hto⟩

/-- A time that is held is apart from every merged stretch. -/
theorem merged_apart (hhole : hole ∈ options.held) (hproper : hole.start < hole.stop) :
    merged.stop ≤ hole.start ∨ hole.stop ≤ merged.start := by
  by_contra hboth
  obtain ⟨hbefore, hafter⟩ := not_or.mp hboth
  have hforward := (stop_of_merged hmerged).1
  have hin : max merged.start hole.start < merged.stop := max_lt hforward (not_le.mp hbefore)
  have hheld : max merged.start hole.start < hole.stop := max_lt (not_le.mp hafter) hproper
  have hfree := (covered_merged options _).mp ⟨merged, hmerged, le_max_left _ _, hin⟩
  exact hfree.2 ⟨hole, hhole, le_max_right _ _, hheld⟩

end

/-- A cut reaches no more than half a hundredth into a held time: it shares no more than that with
it, and of a time that is not empty it stays at one side. -/
def Spares (cut hole : Span ℚ) : Prop :=
  min cut.stop hole.stop - max cut.start hole.start ≤ 1 / 200 ∧
    (hole.start < hole.stop →
      cut.stop ≤ hole.start + 1 / 200 ∨ hole.stop ≤ cut.start + 1 / 200)

/-- A span that stays at one side of a time shares no more with it. -/
theorem spares_of_side (hside : hole.start < hole.stop →
      cut.stop ≤ hole.start + 1 / 200 ∨ hole.stop ≤ cut.start + 1 / 200) : Spares cut hole := by
  refine ⟨?_, hside⟩
  have hcut := min_le_left cut.stop hole.stop
  have hhole := min_le_right cut.stop hole.stop
  have hcut' := le_max_left cut.start hole.start
  have hhole' := le_max_right cut.start hole.start
  by_cases hproper : hole.start < hole.stop
  · rcases hside hproper with h | h <;> linarith
  · linarith

/-- Every cut spares every held time. -/
theorem spares_of_mem (hcut : cut ∈ cutSpans options) (hhole : hole ∈ options.held) :
    Spares cut hole := by
  obtain ⟨merged, hmerged, -, rfl⟩ := mem_cutSpans.mp hcut
  refine spares_of_side fun hproper ↦ ?_
  have hup := roundSeconds_le (options.clamp merged).stop
  have hdown := lt_roundSeconds (options.clamp merged).start
  have hstart : merged.start ≤ (options.clamp merged).start := le_max_right _ _
  have hstop : (options.clamp merged).stop ≤ merged.stop := min_le_right _ _
  rcases merged_apart hmerged hhole hproper with h | h
  · refine Or.inl ?_
    show roundSeconds _ ≤ _
    linarith
  · refine Or.inr ?_
    show _ ≤ roundSeconds _ + _
    linarith

/-- Half a hundredth inside its ends, a cut is in an idle span of the least length, away from the
seconds kept at its sides. -/
theorem idle_of_mem (hcut : cut ∈ cutSpans options) (hfrom : cut.start + 1 / 200 ≤ time)
    (hto : time ≤ cut.stop - 1 / 200) :
    ∃ idle ∈ options.idle, options.minIdleSeconds ≤ length idle ∧
      idle.start + options.keepSeconds ≤ time ∧ time ≤ idle.stop - options.keepSeconds := by
  obtain ⟨merged, hmerged, -, rfl⟩ := mem_cutSpans.mp hcut
  have hup := roundSeconds_le (options.clamp merged).stop
  have hdown := lt_roundSeconds (options.clamp merged).start
  have hstart : merged.start ≤ (options.clamp merged).start := le_max_right _ _
  have hstop : (options.clamp merged).stop ≤ merged.stop := min_le_right _ _
  have hafter : merged.start ≤ time := by
    have hle : roundSeconds (options.clamp merged).start + 1 / 200 ≤ time := hfrom
    linarith
  have hbefore : time ≤ merged.stop := by
    have hle : time ≤ roundSeconds (options.clamp merged).stop - 1 / 200 := hto
    linarith
  have hcandidate : ∃ span ∈ options.candidates, span.start ≤ time ∧ time ≤ span.stop := by
    rcases hbefore.lt_or_eq with hin | rfl
    · obtain ⟨span, hspan, hpoint⟩ :=
        ((covered_merged options time).mp ⟨merged, hmerged, hafter, hin⟩).1
      exact ⟨span, hspan, hpoint.1, hpoint.2.le⟩
    · exact (stop_of_merged hmerged).2
  obtain ⟨span, hspan, hbegin, hend⟩ := hcandidate
  obtain ⟨idle, hidle, hmin, -, rfl⟩ := mem_candidates.mp hspan
  exact ⟨idle, hidle, hmin, hbegin, hend⟩

/-! ### Every plan -/

/-- Settings of a trim: a recording that is not empty, an idle length of a second or more and
no negative hold. -/
structure TrimInput extends CutOptions where
  duration_pos : 0 < duration
  one_le_minIdle : 1 ≤ minIdleSeconds
  keep_nonneg : 0 ≤ keepSeconds
  holdAfter_nonneg : 0 ≤ holdAfterChapterSeconds
  holdBefore_nonneg : 0 ≤ holdBeforeChapterSeconds

/-- What a trim plan promises about a recording. -/
structure SoundPlan (options : CutOptions) (plan : CutPlan) (trimmed : ℚ) : Prop where
  forward : ∀ cut ∈ plan.cuts, cut.start < cut.stop
  apart : plan.cuts.Pairwise (fun a b ↦ a.stop ≤ b.start)
  tiles : ∃ tiles, tiles.Perm (plan.cuts ++ plan.keep) ∧ plan.keep.Sublist tiles ∧
    plan.cuts.Sublist tiles ∧ Tiles 0 (roundSeconds options.duration) tiles
  chapters_held : ∀ cut ∈ plan.cuts, ∀ chapter ∈ options.chapters,
    Spares cut ⟨chapter.atTime - options.holdBeforeChapterSeconds,
      chapter.atTime + options.holdAfterChapterSeconds⟩
  end_held : ∀ cut ∈ plan.cuts,
    Spares cut ⟨options.duration - options.holdBeforeChapterSeconds, options.duration⟩
  idle : ∀ cut ∈ plan.cuts, ∀ time, cut.start + 1 / 200 ≤ time → time ≤ cut.stop - 1 / 200 →
    ∃ idle ∈ options.idle, options.minIdleSeconds ≤ idle.stop - idle.start ∧
      idle.start + options.keepSeconds ≤ time ∧ time ≤ idle.stop - options.keepSeconds
  trimmed_eq : trimmed = total plan.keep
  position : ∀ earlier span later, plan.keep = earlier ++ span :: later → ∀ time,
    span.start ≤ time → time ≤ span.stop →
      remapTime time plan.cuts = roundSeconds (total earlier + (time - span.start))
  monotone : Monotone fun time ↦ remapTime time plan.cuts
  chapters_inside : ∀ chapter ∈ options.chapters, 0 ≤ chapter.atTime →
    chapter.atTime ≤ options.duration →
      0 ≤ remapTime chapter.atTime plan.cuts ∧ remapTime chapter.atTime plan.cuts ≤ trimmed

/-- The map of instants keeps their order. -/
theorem remapTime_mono (hlaid : Laid last cursor cuts) :
    Monotone fun time ↦ remapTime time cuts := by
  intro first second horder
  refine roundSeconds_mono ?_
  have hdistance := removedBefore_lipschitz hlaid horder
  linarith

/-- An instant of the recording is moved into the trimmed recording. -/
theorem remapTime_bounds (hlaid : Laid (roundSeconds duration) 0 cuts) (hfrom : 0 ≤ time)
    (hto : time ≤ duration) :
    0 ≤ remapTime time cuts ∧ remapTime time cuts ≤ roundSeconds duration - total cuts := by
  have hcuts : ∀ cut ∈ cuts, cut.stop ≤ roundSeconds duration := fun cut hcut ↦
    (hlaid.bounds hcut).2.2
  constructor
  · have hdistance := removedBefore_lipschitz hlaid hfrom
    rw [removedBefore_eq_zero hlaid le_rfl] at hdistance
    have hle := roundSeconds_mono (show (0 : ℚ) ≤ time - removedBefore time cuts by linarith)
    rw [roundSeconds_cent cent_zero] at hle
    exact hle
  · by_cases hdown : roundSeconds duration ≤ duration
    · have hall : removedBefore duration cuts = total cuts :=
        removedBefore_eq_total fun cut hcut ↦ (hcuts cut hcut).trans hdown
      have hle := remapTime_mono hlaid hto
      simp only [remapTime] at hle
      rwa [hall, roundSeconds_sub _ hlaid.cent_total] at hle
    · have hall : removedBefore (roundSeconds duration) cuts = total cuts :=
        removedBefore_eq_total hcuts
      have hle := remapTime_mono hlaid (hto.trans (not_le.mp hdown).le)
      simp only [remapTime] at hle
      rwa [hall, roundSeconds_sub _ hlaid.cent_total,
        roundSeconds_cent (cent_roundSeconds duration)] at hle

/-- Every trim plan keeps all its promises, with the trimmed length that its timeline reports. -/
theorem plan_sound (input : TrimInput) (path : String) (audible : Bool) :
    SoundPlan input.toCutOptions (planCuts input.toCutOptions)
      (timeline path input.toCutOptions audible).trimmedSeconds := by
  have hlaid := laid_cutSpans input.duration_pos
  have htrimmed : (timeline path input.toCutOptions audible).trimmedSeconds =
      roundSeconds input.duration - total (cutSpans input.toCutOptions) := by
    show roundSeconds (_ - roundSeconds (total (cutSpans input.toCutOptions))) = _
    rw [roundSeconds_cent hlaid.cent_total, roundSeconds_sub _ hlaid.cent_total]
  refine
    { forward := fun cut hcut ↦ (hlaid.bounds hcut).2.1
      apart := hlaid.apart
      tiles := keepFrom_tiles hlaid cent_zero
      chapters_held := ?_
      end_held := ?_
      idle := fun cut hcut time hfrom hto ↦ idle_of_mem hcut hfrom hto
      trimmed_eq := ?_
      position := ?_
      monotone := remapTime_mono hlaid
      chapters_inside := ?_ }
  · intro cut hcut chapter hchapter
    exact spares_of_mem hcut
      (mem_append_left _ (mem_map.mpr ⟨chapter, hchapter, rfl⟩))
  · intro cut hcut
    exact spares_of_mem hcut (mem_append_right _ mem_cons_self)
  · rw [htrimmed]
    show _ = total (keepFrom _ 0 _)
    rw [total_keepFrom hlaid cent_zero, sub_zero]
  · intro earlier span later hkeep time hfrom hto
    have hplace := position_of_keep hlaid cent_zero hkeep hfrom hto
    show roundSeconds (time - removedBefore time (cutSpans _)) = _
    rw [hplace, zero_add]
  · intro chapter _ hfrom hto
    rw [htrimmed]
    exact remapTime_bounds hlaid hfrom hto

end ObsMcp.Trim
