import ObsMcp.ReplayJournal.Steps

/-!
# The custody of a replay save

What the journal of the replay saves guarantees, over every interleaving of runs, with steps that
fail and runs that stop anywhere (`replay_custody`). A run dispatches the save at most once, after
its `active` directory and its `started` record are durable. `active` belongs to at most one run,
and while it is there no other run gets past its scan. No record is overwritten or removed. A run
that reports its file as verified has completed its journal and made every check.
-/

namespace ObsMcp.ReplayJournal

open Foundations List Option

variable {encodedLength : Body → ℕ}

namespace State

/-! ### The invariant -/

structure Good (s : State) : Prop where
  runs : ∀ (r : ℕ) (run : Run), s.runs[r]? = some run → run.Good s.files r
  owned : ∀ r, s.files.active = some r → r < s.runs.length

/-- What a step does to the runs: a new one has done nothing. -/
def Evolves (s t : State) : Prop :=
  ∀ (r : ℕ) (next : Run), t.runs[r]? = some next →
    (∃ run, s.runs[r]? = some run ∧ Run.Evolves s.files r run next) ∨
      s.runs[r]? = none ∧ next.created = false ∧ next.dispatched = 0 ∧ next.phase = .starting

variable {s t : State} {r : ℕ} {label : Label}

/-- A step of one run. -/
theorem Good.moved (hgood : s.Good) {run next : Run} {later : Files} (hrun : s.runs[r]? = some run)
    (hnext : next.Good later r) (haround : s.files.Around later r)
    (hevolves : Run.Evolves s.files r run next) :
    Good ⟨later, s.runs.set r next⟩ ∧ s.Evolves ⟨later, s.runs.set r next⟩ := by
  have hlt := (List.getElem?_eq_some_iff.mp hrun).1
  refine ⟨⟨fun other found hfound ↦ ?_, fun other hactive ↦ ?_⟩, fun other found hfound ↦ ?_⟩
  · rcases getElem?_set_cases hfound with ⟨rfl, rfl⟩ | ⟨hother, hfound⟩
    · exact hnext
    · exact (hgood.runs other found hfound).frame haround.extend
        (haround.active other (Ne.symm hother)) (haround.held other (Ne.symm hother))
  · rw [length_set]
    by_cases hother : other = r
    · exact hother ▸ hlt
    · exact hgood.owned other ((haround.active other hother).mp hactive)
  · rcases getElem?_set_cases hfound with ⟨rfl, rfl⟩ | ⟨-, hfound⟩
    · exact .inl ⟨run, hrun, hevolves⟩
    · exact .inl ⟨found, hfound, .refl _ _ _⟩

theorem move_eq_some {step : Run → Option (Files × Run)} (hmove : s.move r step = some t) :
    ∃ run later next, s.runs[r]? = some run ∧ step run = some (later, next) ∧
      t = ⟨later, s.runs.set r next⟩ := by
  unfold move at hmove
  obtain ⟨⟨later, next⟩, hstep, rfl⟩ := map_eq_some_iff.mp hmove
  obtain ⟨run, hrun, hstep⟩ := bind_eq_some_iff.mp hstep
  exact ⟨run, later, next, hrun, hstep, rfl⟩

/-- A step of one run that leaves the files. -/
theorem Good.step (hgood : s.Good) {step : Run → Option Run}
    (hmove : s.move r (fun run ↦ (step run).map (s.files, ·)) = some t)
    (hnext : ∀ run next, run.Good s.files r → step run = some next → next.Good s.files r)
    (hevolves : ∀ run next, run.Good s.files r → step run = some next →
      Run.Evolves s.files r run next) : t.Good ∧ s.Evolves t := by
  obtain ⟨run, later, next, hrun, hstep, rfl⟩ := move_eq_some hmove
  obtain ⟨found, hfound, heq⟩ := map_eq_some_iff.mp hstep
  obtain ⟨rfl, rfl⟩ := Prod.mk.inj heq
  have hold := hgood.runs r run hrun
  exact hgood.moved hrun (hnext run found hold hfound) (.refl _ r)
    (hevolves run found hold hfound)

theorem spawn_good (hgood : s.Good) (id endpoint : String) :
    Good { s with runs := s.runs ++ [.new id endpoint] } ∧
      s.Evolves { s with runs := s.runs ++ [.new id endpoint] } := by
  refine ⟨⟨fun r run hrun ↦ ?_, fun r hactive ↦ ?_⟩, fun r run hrun ↦ ?_⟩
  · rcases getElem?_concat_cases hrun with hrun | ⟨rfl, rfl⟩
    · exact hgood.runs r run hrun
    · refine ⟨⟨iff_of_false (fun hactive ↦ ?_) (by simp [Run.new]), Nat.zero_le _, fun _ ↦ rfl,
        fun h ↦ absurd h (Nat.lt_irrefl 0), fun h ↦ by cases h⟩, ⟨rfl, rfl⟩, rfl, rfl⟩
      exact absurd (hgood.owned _ hactive) (Nat.lt_irrefl _)
  · rw [length_append]
    exact Nat.lt_add_right _ (hgood.owned r hactive)
  · rcases getElem?_concat_cases hrun with hrun | ⟨rfl, rfl⟩
    · exact .inl ⟨run, hrun, .refl _ _ _⟩
    · exact .inr ⟨by simp, rfl, rfl, rfl⟩

theorem act_good (hgood : s.Good) (hact : s.act encodedLength label = some t) :
    t.Good ∧ s.Evolves t := by
  cases label with
  | spawn id endpoint =>
    cases hact
    exact spawn_good hgood id endpoint
  | stop r =>
    exact hgood.step hact (fun _ _ hold hstep ↦ stop_good hold hstep)
      fun _ _ _ hstep ↦ (stop_same hstep).evolves
  | entry r entry =>
    exact hgood.step hact (fun _ _ hold hstep ↦ scan_good hold hstep)
      fun _ _ _ hstep ↦ (scan_same hstep).evolves
  | scanned r =>
    exact hgood.step hact (fun _ _ hold hstep ↦ scanned_good hold hstep)
      fun _ _ _ hstep ↦ (scanned_same hstep).evolves
  | io r outcome =>
    obtain ⟨run, later, next, hrun, hstep, rfl⟩ := move_eq_some hact
    obtain ⟨hnext, haround⟩ := io_good (hgood.runs r run hrun) hstep
    exact hgood.moved hrun hnext haround (io_evolves hstep)
  | dispatch r =>
    refine hgood.step hact (fun _ _ hold hstep ↦ (dispatch_good hold hstep).1) ?_
    intro run next hold hstep
    obtain ⟨-, hbefore, hafter, hactive, hlinked, hstarted⟩ := dispatch_good hold hstep
    unfold Run.dispatch at hstep
    split at hstep
    · rename_i previous baseline hwork
      split_ifs at hstep
      cases hstep
      exact ⟨rfl, fun h ↦ h, fun h ↦ h, .inl, .inr ⟨hbefore, hafter, hactive, hlinked, hstarted⟩,
        by simp [hwork]⟩
    · cases hstep
  | reply r reply =>
    refine hgood.step hact ?_ ?_
    · intro run next hold hstep
      unfold Run.reply at hstep
      split at hstep
      · rename_i work hwork
        exact work_good hold hwork hstep
      · cases hstep
    · intro run next hold hstep
      unfold Run.reply at hstep
      split at hstep
      · exact (work_same hstep).evolves
      · cases hstep
  | fails r message cleanupUnconfirmed =>
    exact hgood.step hact (fun _ _ hold hstep ↦ fails_good hold hstep)
      fun _ _ _ hstep ↦ (fails_same hstep).evolves

theorem good_of_reachable (hs : (attempts encodedLength).Reachable s) : s.Good := by
  refine Machine.invariant_of_step Good ?_ ?_ hs
  · rintro s ⟨hactive, hruns⟩
    refine ⟨fun r run hrun ↦ ?_, fun r hsome ↦ ?_⟩
    · simp [hruns] at hrun
    · cases hactive.symm.trans hsome
  · intro s label t _ hgood hstep
    exact (act_good hgood hstep).1

/-! ### Records -/

/-- No run has the record of a place open. -/
def Closed (s : State) (place : ℕ) : Prop :=
  ∀ (r : ℕ) (run : Run) (stage : Stage), s.runs[r]? = some run →
    run.phase ≠ .writing stage (.fill place)

variable {place : ℕ} {record : Record} {last : Run}

/-- A record that no run has open is kept, and is not opened again. -/
theorem record_kept (hgood : s.Good) (hact : s.act encodedLength label = some t)
    (hrecord : s.files.records[place]? = some record) (hclosed : s.Closed place) :
    (∃ kept : Record, t.files.records[place]? = some kept ∧
      kept.operationId = record.operationId ∧ kept.stage = record.stage ∧
        kept.body = record.body ∧ kept.synced = record.synced) ∧ t.Closed place := by
  refine ⟨?_, fun r next stage hnext hphase ↦ ?_⟩
  · have hsame : ∀ {r : ℕ} {step : Run → Option Run},
        s.move r (fun run ↦ (step run).map (s.files, ·)) = some t →
          t.files.records[place]? = some record := by
      intro r step hmove
      obtain ⟨run, later, next, -, hstep, rfl⟩ := move_eq_some hmove
      obtain ⟨found, -, heq⟩ := map_eq_some_iff.mp hstep
      obtain ⟨rfl, -⟩ := Prod.mk.inj heq
      exact hrecord
    cases label with
    | io r outcome =>
      obtain ⟨run, later, next, hrun, hstep, rfl⟩ := move_eq_some hact
      exact io_keeps hstep hrecord fun stage ↦ hclosed r run stage hrun
    | spawn id endpoint =>
      cases hact
      exact ⟨record, hrecord, rfl, rfl, rfl, rfl⟩
    | stop r => exact ⟨record, hsame hact, rfl, rfl, rfl, rfl⟩
    | entry r entry => exact ⟨record, hsame hact, rfl, rfl, rfl, rfl⟩
    | scanned r => exact ⟨record, hsame hact, rfl, rfl, rfl, rfl⟩
    | dispatch r => exact ⟨record, hsame hact, rfl, rfl, rfl, rfl⟩
    | reply r reply => exact ⟨record, hsame hact, rfl, rfl, rfl, rfl⟩
    | fails r message cleanupUnconfirmed => exact ⟨record, hsame hact, rfl, rfl, rfl, rfl⟩
  · rcases (act_good hgood hact).2 r next hnext with ⟨run, hrun, hevolves⟩ | ⟨-, -, -, hstarting⟩
    · rcases hevolves.filling stage place hphase with hfilling | hlength
      · exact hclosed r run stage hrun hfilling
      · have hlt := (List.getElem?_eq_some_iff.mp hrecord).1
        omega
    · cases hstarting.symm.trans hphase

/-- Records stay over a whole run. -/
theorem records_kept {run : List (Label × State)} (hrun : (attempts encodedLength).Run s run)
    (hgood : s.Good) (hrecord : s.files.records[place]? = some record) (hclosed : s.Closed place) :
    ∃ kept : Record, (Machine.last s run).files.records[place]? = some kept ∧
      kept.operationId = record.operationId ∧ kept.stage = record.stage ∧
        kept.body = record.body ∧ kept.synced = record.synced := by
  induction hrun generalizing record with
  | nil s => exact ⟨record, hrecord, rfl, rfl, rfl, rfl⟩
  | @cons s u label rest hstep _ ih =>
    obtain ⟨⟨kept, hkept, hid, hstage, hbody, hsynced⟩, hstill⟩ :=
      record_kept hgood hstep hrecord hclosed
    obtain ⟨last, hlast, hlastId, hlastStage, hlastBody, hlastSynced⟩ :=
      ih (act_good hgood hstep).1 hkept hstill
    exact ⟨last, hlast, hlastId.trans hid, hlastStage.trans hstage, hlastBody.trans hbody,
      hlastSynced.trans hsynced⟩

/-! ### The directory -/

theorem act_length (hact : s.act encodedLength label = some t) : s.runs.length ≤ t.runs.length := by
  have hmove : ∀ {r : ℕ} {step : Run → Option (Files × Run)}, s.move r step = some t →
      s.runs.length ≤ t.runs.length := by
    intro r step hmove
    obtain ⟨run, later, next, -, -, rfl⟩ := move_eq_some hmove
    simp
  cases label with
  | spawn id endpoint =>
    cases hact
    simp
  | stop r => exact hmove hact
  | entry r entry => exact hmove hact
  | scanned r => exact hmove hact
  | io r outcome => exact hmove hact
  | dispatch r => exact hmove hact
  | reply r reply => exact hmove hact
  | fails r message cleanupUnconfirmed => exact hmove hact

/-- What a run has created and removed it has created and removed ever after. -/
theorem history_stays {run : List (Label × State)} (hrun : (attempts encodedLength).Run s run)
    (hgood : s.Good) {first : Run} (hfirst : s.runs[r]? = some first)
    (hlast : (Machine.last s run).runs[r]? = some last) :
    (first.created = true → last.created = true) ∧
      (first.removed = true → last.removed = true) := by
  induction hrun generalizing first with
  | nil s =>
    cases hfirst.symm.trans hlast
    exact ⟨fun h ↦ h, fun h ↦ h⟩
  | @cons s u label rest hstep _ ih =>
    obtain ⟨hnext, hevolves⟩ := act_good hgood hstep
    have hlt := Nat.lt_of_lt_of_le (List.getElem?_eq_some_iff.mp hfirst).1 (act_length hstep)
    have hmiddle := List.getElem?_eq_getElem hlt
    rcases hevolves r _ hmiddle with ⟨found, hfound, hevolve⟩ | ⟨hnone, -⟩
    · cases hfirst.symm.trans hfound
      obtain ⟨hcreated, hremoved⟩ := ih hnext hmiddle hlast
      exact ⟨fun h ↦ hcreated (hevolve.created h), fun h ↦ hremoved (hevolve.removed h)⟩
    · cases hfirst.symm.trans hnone

/-- The holder of the directory holds it in between. -/
theorem held_step {u : State} {rest : List (Label × State)}
    (hstep : s.act encodedLength label = some u) (hrest : (attempts encodedLength).Run u rest)
    (hgood : s.Good) (hnext : u.Good) (hlast : (Machine.last u rest).Good)
    (hactive : s.files.active = some r) (hstill : (Machine.last u rest).files.active = some r) :
    u.files.active = some r := by
  have hlt := hgood.owned r hactive
  have hfirst := List.getElem?_eq_getElem hlt
  have hmiddle := List.getElem?_eq_getElem (Nat.lt_of_lt_of_le hlt (act_length hstep))
  have hend := List.getElem?_eq_getElem (hlast.owned r hstill)
  have hcreated := ((hgood.runs r _ hfirst).holds.mp hactive).1
  refine (hnext.runs r _ hmiddle).holds.mpr ⟨?_, ?_⟩
  · rcases (act_good hgood hstep).2 r _ hmiddle with ⟨found, hfound, hevolve⟩ | ⟨hnone, -⟩
    · cases hfirst.symm.trans hfound
      exact hevolve.created hcreated
    · cases hfirst.symm.trans hnone
  · by_contra hremoved
    have hgone := (history_stays hrest hnext hmiddle hend).2 (by simpa using hremoved)
    have hkept := ((hlast.runs r _ hend).holds.mp hstill).2
    cases hkept.symm.trans hgone

/-- While a run holds the directory no other run claims it. -/
theorem no_claim {run : List (Label × State)} (hrun : (attempts encodedLength).Run s run)
    (hs : (attempts encodedLength).Reachable s) (hactive : s.files.active = some r)
    (hstill : (Machine.last s run).files.active = some r) {k : ℕ}
    (hlast : (Machine.last s run).runs[k]? = some last) (hcreated : last.created = true) :
    ∃ first : Run, s.runs[k]? = some first ∧ first.created = true := by
  induction hrun with
  | nil s => exact ⟨last, hlast, hcreated⟩
  | @cons s u label rest hstep hrest ih =>
    have hgood := good_of_reachable hs
    have hu := hs.step hstep
    have hend := good_of_reachable (hrest.reachable hu)
    have hmiddle := held_step hstep hrest hgood (good_of_reachable hu) hend hactive hstill
    obtain ⟨middle, hfound, hclaimed⟩ := ih hu hmiddle hstill hlast
    rcases (act_good hgood hstep).2 k middle hfound with ⟨first, hfirst, hevolve⟩ | ⟨-, hnew, -⟩
    · rcases hevolve.claimed hclaimed with hbefore | hfree
      · exact ⟨first, hfirst, hbefore⟩
      · cases hactive.symm.trans hfree
    · cases hnew.symm.trans hclaimed

end State

open State in
/-- The law of the replay journal. A run dispatches the save at most once, and at that moment the
directory is its own and its `started` record and the directory are durable. At most one run holds
the directory. While a run holds it no other run claims it, and a run that has not claimed it has
dispatched nothing and is not past its scan. A record that no run is writing stays as it is. A run
that reports a verified file has given the directory back after its `result` record, the request was
accepted, the path is neither the previous one nor in the baseline, and the second path read and the
confirmation agree with it. -/
theorem replay_custody (encodedLength : Body → ℕ) :
    (∀ (s t : State) (label : Label) (r : ℕ) (run next : Run),
      (attempts encodedLength).Reachable s → (attempts encodedLength).step s label t →
      s.runs[r]? = some run → t.runs[r]? = some next →
        next.dispatched ≤ 1 ∧ (next.dispatched ≠ run.dispatched →
          s.files.active = some r ∧ s.files.activeLinked = true ∧ run.Started s.files)) ∧
    (∀ (s : State) (r r' : ℕ) (run run' : Run), (attempts encodedLength).Reachable s →
      s.runs[r]? = some run → s.runs[r']? = some run' → run.created = true →
      run.removed = false → run'.created = true → run'.removed = false → r = r') ∧
    (∀ (s : State) (run : List (Label × State)) (r k : ℕ) (first last : Run),
      (attempts encodedLength).Reachable s → (attempts encodedLength).Run s run →
      s.runs[r]? = some first → first.created = true →
      (Machine.last s run).runs[r]? = some last → last.removed = false →
        ∀ other : Run, (Machine.last s run).runs[k]? = some other →
          (other.created = true → ∃ before : Run, s.runs[k]? = some before ∧
            before.created = true) ∧
          (other.created = false → other.dispatched = 0 ∧ ∀ work, other.phase ≠ .working work)) ∧
    (∀ (s : State) (run : List (Label × State)) (place : ℕ) (record : Record),
      (attempts encodedLength).Reachable s → (attempts encodedLength).Run s run →
      s.files.records[place]? = some record → s.Closed place →
        ∃ kept : Record, (Machine.last s run).files.records[place]? = some kept ∧
          kept.operationId = record.operationId ∧ kept.stage = record.stage ∧
            kept.body = record.body ∧ kept.synced = record.synced) ∧
    (∀ (s : State) (r : ℕ) (run : Run), (attempts encodedLength).Reachable s →
      s.runs[r]? = some run → run.phase = .reported → run.facts.verified = true →
        run.removed = true ∧ run.Recorded s.files ∧ run.Evident) := by
  refine ⟨?_, ?_, ?_, ?_, ?_⟩
  · intro s t label r run next hs hstep hrun hnext
    obtain ⟨hgood, hevolves⟩ := act_good (good_of_reachable hs) hstep
    refine ⟨(hgood.runs r next hnext).once, fun hmore ↦ ?_⟩
    rcases hevolves r next hnext with ⟨found, hfound, hevolve⟩ | ⟨hnone, -⟩
    · obtain rfl := some.inj (hrun.symm.trans hfound)
      rcases hevolve.dispatched with hsame | ⟨-, -, hactive, hlinked, hstarted⟩
      · exact absurd hsame hmore
      · exact ⟨hactive, hlinked, hstarted⟩
    · cases hrun.symm.trans hnone
  · intro s r r' run run' hs hrun hrun' hcreated hkept hcreated' hkept'
    have hgood := good_of_reachable hs
    have hactive := (hgood.runs r run hrun).holds.mpr ⟨hcreated, hkept⟩
    have hactive' := (hgood.runs r' run' hrun').holds.mpr ⟨hcreated', hkept'⟩
    exact some.inj (hactive.symm.trans hactive')
  · intro s run r k first last hs hrun hfirst hcreated hlast hkept other hother
    have hgood := good_of_reachable hs
    have hend := good_of_reachable (hrun.reachable hs)
    refine ⟨fun hclaimed ↦ ?_, fun hunclaimed ↦ ⟨?_, fun work hwork ↦ ?_⟩⟩
    · obtain ⟨hcreates, hremoves⟩ := history_stays hrun hgood hfirst hlast
      have hactive := (hgood.runs r first hfirst).holds.mpr ⟨hcreated, by
        by_contra hgone
        cases hkept.symm.trans (hremoves (by simpa using hgone))⟩
      have hstill := (hend.runs r last hlast).holds.mpr ⟨hcreates hcreated, hkept⟩
      exact no_claim hrun hs hactive hstill hother hclaimed
    · have hgoodOther := hend.runs k other hother
      by_contra hsent
      cases hunclaimed.symm.trans (hgoodOther.sent (Nat.pos_of_ne_zero hsent)).1
    · cases hunclaimed.symm.trans ((hend.runs k other hother).workflow hwork).1.1
  · intro s run place record hs hrun hrecord hclosed
    exact records_kept hrun (good_of_reachable hs) hrecord hclosed
  · intro s r run hs hrun hreported hverified
    have hgood := (good_of_reachable hs).runs r run hrun
    have hphase := hgood.phase
    unfold Run.PhaseGood at hphase
    rw [hreported] at hphase
    obtain ⟨⟨-, hremoved⟩, hrecorded⟩ := hphase hverified
    exact ⟨hremoved, hrecorded, hgood.evident hverified⟩

end ObsMcp.ReplayJournal
