import ObsMcp.Foundations.Indexed
import ObsMcp.ReplayJournal.Attempt

/-!
# The steps of a replay save

`Run.Good` is the invariant of one run of the replay journal: the directory belongs to it exactly
while it has created it and not removed it, and its phase says how far its records and its checks
have come. Each step of a run keeps it, and leaves the files so that the other runs stay good
(`Files.Around`, `Run.Good.frame`). `Run.Evolves` is what a step adds to the history of a run.
-/

namespace ObsMcp.ReplayJournal

open Foundations List Option

/-! ### The invariant of a run -/

/-- The `started` record of a run is durable. -/
def Run.Started (run : Run) (files : Files) : Prop :=
  ∃ record ∈ files.records, record.operationId = run.id ∧ record.stage = .started ∧
    record.body = some .pending ∧ record.synced = true ∧ record.linked = true

/-- The `result` record of a run is durable and holds its facts. -/
def Run.Recorded (run : Run) (files : Files) : Prop :=
  ∃ record ∈ files.records, record.operationId = run.id ∧ record.stage = .result ∧
    record.body = some (.facts run.facts) ∧ record.synced = true ∧ record.linked = true

/-- How far a record has come that a run writes. -/
def Run.Written (run : Run) (files : Files) (stage : Stage) : WriteStep → Prop
  | .check | .create => True
  | .fill place => ∃ record, files.records[place]? = some record ∧ record.operationId = run.id ∧
      record.stage = stage ∧ record.body = none
  | .link place => ∃ record, files.records[place]? = some record ∧ record.operationId = run.id ∧
      record.stage = stage ∧ record.body = some (run.body stage) ∧ record.synced = true
  | .recheck _ => ∃ record ∈ files.records, record.operationId = run.id ∧ record.stage = stage ∧
      record.body = some (run.body stage) ∧ record.synced = true ∧ record.linked = true

/-- The request was accepted, and the saved path is a new one. -/
structure Facts.Fresh (facts : Facts) (observed : Observed) : Prop where
  accepted : facts.requestAccepted.beq (.bool true) = true
  changed : observed.path ≠ observed.previous
  absent : observed.path ∉ observed.baseline
  noted : facts.newPathObserved = true

/-- The checks that are behind a place in the workflow. -/
def Run.Checked (run : Run) : Work → Prop
  | .candidate _ _ => run.facts.requestAccepted.beq (.bool true) = true
  | .snapshot observed =>
    run.facts.requestAccepted.beq (.bool true) = true ∧ observed.path ≠ observed.previous
  | .verify observed => run.facts.Fresh observed
  | .reread observed => run.facts.Fresh observed ∧ run.facts.strictDecode = true
  | .confirm observed second =>
    run.facts.Fresh observed ∧ run.facts.strictDecode = true ∧ second = observed.path
  | .finish observed second =>
    run.facts.Fresh observed ∧ run.facts.strictDecode = true ∧ second = observed.path ∧
      run.confirmed = true
  | _ => True

/-- What a verified status rests on. -/
def Run.Evident (run : Run) : Prop :=
  ∃ observed second, run.evidence = some (observed, second) ∧ run.facts.Fresh observed ∧
    run.facts.strictDecode = true ∧ second = observed.path ∧ run.confirmed = true

/-- What the phase of a run says about it. -/
def Run.PhaseGood (run : Run) (files : Files) : Prop :=
  match run.phase with
  | .starting | .scanning _ | .claiming =>
    (run.created = false ∧ run.removed = false) ∧ run.facts.verified = false ∧
      run.cleanupUnconfirmed = false
  | .identifying =>
    (run.created = true ∧ run.removed = false) ∧ run.facts.verified = false ∧
      run.cleanupUnconfirmed = false
  | .writing .started step =>
    (run.created = true ∧ run.removed = false) ∧ run.facts.verified = false ∧
      run.cleanupUnconfirmed = false ∧ run.Written files .started step ∧
      ∀ place, step = .recheck place → files.activeLinked = true
  | .working work =>
    (run.created = true ∧ run.removed = false) ∧ run.facts.verified = false ∧
      run.cleanupUnconfirmed = false ∧ files.activeLinked = true ∧ run.Started files ∧
      run.Checked work
  | .discarding => (run.created = true ∧ run.removed = false) ∧ run.facts.verified = false
  | .writing .result step =>
    (run.created = true ∧ run.removed = false) ∧ run.Written files .result step
  | .releasing _ => (run.created = true ∧ run.removed = false) ∧ run.Recorded files
  | .finishing _ => (run.created = true ∧ run.removed = true) ∧ run.Recorded files
  | .reported => run.facts.verified = true →
      (run.created = true ∧ run.removed = true) ∧ run.Recorded files
  | .stopped => True

/-- What holds of a run in every phase. -/
structure Run.Base (run : Run) (files : Files) (r : ℕ) : Prop where
  holds : files.active = some r ↔ run.created = true ∧ run.removed = false
  once : run.dispatched ≤ 1
  armed : run.armed = false → run.dispatched = 0
  sent : 0 < run.dispatched → run.created = true ∧ run.Started files
  evident : run.facts.verified = true → run.Evident

structure Run.Good (run : Run) (files : Files) (r : ℕ) : Prop extends run.Base files r where
  phase : run.PhaseGood files

/-! ### The files of other runs -/

/-- The records that are there keep their names, and those with a body keep it. -/
structure Files.Extends (files later : Files) : Prop where
  records : ∀ (place : ℕ) (record : Record), files.records[place]? = some record →
    ∃ kept : Record, later.records[place]? = some kept ∧ kept.operationId = record.operationId ∧
      kept.stage = record.stage ∧
      (record.body ≠ none → kept.body = record.body ∧ kept.synced = record.synced) ∧
      (record.linked = true → kept.linked = true)

namespace Files

variable {files later : Files}

theorem Extends.refl (files : Files) : files.Extends files :=
  ⟨fun _ record hrecord ↦ ⟨record, hrecord, rfl, rfl, fun _ ↦ ⟨rfl, rfl⟩, fun h ↦ h⟩⟩

/-- A durable record stays. -/
theorem Extends.durable (hextends : files.Extends later) {operationId : String} {stage : Stage}
    {body : Body}
    (hrecord : ∃ record ∈ files.records, record.operationId = operationId ∧
      record.stage = stage ∧ record.body = some body ∧ record.synced = true ∧
        record.linked = true) :
    ∃ record ∈ later.records, record.operationId = operationId ∧ record.stage = stage ∧
      record.body = some body ∧ record.synced = true ∧ record.linked = true := by
  obtain ⟨record, hmem, hid, hstage, hbody, hsynced, hlinked⟩ := hrecord
  obtain ⟨place, hplace⟩ := mem_iff_getElem?.mp hmem
  obtain ⟨kept, hkept, hsameId, hsameStage, hsame, hlink⟩ := hextends.records place record hplace
  obtain ⟨hsameBody, hsameSynced⟩ := hsame (by simp [hbody])
  exact ⟨kept, mem_of_getElem? hkept, hsameId.trans hid, hsameStage.trans hstage,
    hsameBody.trans hbody, hsameSynced.trans hsynced, hlink hlinked⟩

theorem extends_of_records (hrecords : later.records = files.records) : files.Extends later :=
  ⟨fun _ record hrecord ↦
    ⟨record, hrecords ▸ hrecord, rfl, rfl, fun _ ↦ ⟨rfl, rfl⟩, fun h ↦ h⟩⟩

theorem create_extends (files : Files) (operationId : String) (stage : Stage)
    (endpointHash : String) : files.Extends (files.create operationId stage endpointHash) := by
  refine ⟨fun place record hrecord ↦ ⟨record, ?_, rfl, rfl, fun _ ↦ ⟨rfl, rfl⟩, fun h ↦ h⟩⟩
  unfold create
  exact getElem?_append_of_some hrecord

variable {place : ℕ} {record : Record}

theorem link_records (hrecord : files.records[place]? = some record) :
    files.link.records[place]? = some { record with linked := true } := by
  simp [link, hrecord]

theorem link_extends (files : Files) : files.Extends files.link :=
  ⟨fun _ record hrecord ↦ ⟨{ record with linked := true }, link_records hrecord, rfl, rfl,
    fun _ ↦ ⟨rfl, rfl⟩, fun _ ↦ rfl⟩⟩

theorem fill_self (hrecord : files.records[place]? = some record) (body : Body) (synced : Bool) :
    (files.fill place body synced).records[place]? =
      some { record with body := some body, synced } := by
  simp [fill, hrecord]

theorem fill_other {other : ℕ} (hother : place ≠ other) (body : Body) (synced : Bool) :
    (files.fill place body synced).records[other]? = files.records[other]? := by
  simp [fill, hother]

/-- Filling an empty record changes no record that has a body. -/
theorem fill_extends (hrecord : files.records[place]? = some record) (hempty : record.body = none)
    (body : Body) (synced : Bool) : files.Extends (files.fill place body synced) := by
  refine ⟨fun other found hfound ↦ ?_⟩
  by_cases hother : place = other
  · subst hother
    cases hrecord.symm.trans hfound
    exact ⟨_, fill_self hrecord body synced, rfl, rfl, fun hbody ↦ absurd hempty hbody, fun h ↦ h⟩
  · exact ⟨found, (fill_other hother body synced).trans hfound, rfl, rfl, fun _ ↦ ⟨rfl, rfl⟩,
      fun h ↦ h⟩

/-- The records that are there keep everything but that they may become durable. -/
def Keeps (files later : Files) : Prop :=
  ∀ (place : ℕ) (record : Record), files.records[place]? = some record →
    ∃ kept : Record, later.records[place]? = some kept ∧ kept.operationId = record.operationId ∧
      kept.stage = record.stage ∧ kept.body = record.body ∧ kept.synced = record.synced

theorem keeps_of_records (hrecords : later.records = files.records) : files.Keeps later :=
  fun _ record hrecord ↦ ⟨record, hrecords ▸ hrecord, rfl, rfl, rfl, rfl⟩

theorem create_keeps (files : Files) (operationId : String) (stage : Stage)
    (endpointHash : String) : files.Keeps (files.create operationId stage endpointHash) := by
  intro place record hrecord
  refine ⟨record, ?_, rfl, rfl, rfl, rfl⟩
  unfold create
  exact getElem?_append_of_some hrecord

theorem link_keeps (files : Files) : files.Keeps files.link :=
  fun _ _ hrecord ↦ ⟨_, link_records hrecord, rfl, rfl, rfl, rfl⟩

end Files

section Frame

variable {files later : Files} {run : Run} {r : ℕ}

theorem Run.Written.frame {stage : Stage} {step : WriteStep}
    (hwritten : run.Written files stage step) (hextends : files.Extends later)
    (hkeeps : files.Keeps later) : run.Written later stage step := by
  cases step with
  | check => trivial
  | create => trivial
  | fill place =>
    obtain ⟨record, hrecord, hid, hstage, hbody⟩ := hwritten
    obtain ⟨kept, hkept, hsameId, hsameStage, hsameBody, -⟩ := hkeeps place record hrecord
    exact ⟨kept, hkept, hsameId.trans hid, hsameStage.trans hstage, hsameBody.trans hbody⟩
  | link place =>
    obtain ⟨record, hrecord, hid, hstage, hbody, hsynced⟩ := hwritten
    obtain ⟨kept, hkept, hsameId, hsameStage, hsameBody, hsameSynced⟩ := hkeeps place record hrecord
    exact ⟨kept, hkept, hsameId.trans hid, hsameStage.trans hstage, hsameBody.trans hbody,
      hsameSynced.trans hsynced⟩
  | recheck place => exact hextends.durable hwritten

/-- A run stays good while another run goes on. Assumes: the other run does not take or free the
directory for it, and while the run holds the directory the other one writes no record. -/
theorem Run.Good.frame (hgood : run.Good files r) (hextends : files.Extends later)
    (hactive : later.active = some r ↔ files.active = some r)
    (hheld : files.active = some r →
      files.Keeps later ∧ (files.activeLinked = true → later.activeLinked = true)) :
    run.Good later r := by
  refine ⟨⟨hactive.trans hgood.holds, hgood.once, hgood.armed, ?_, hgood.evident⟩, ?_⟩
  · intro hsent
    obtain ⟨hcreated, hstarted⟩ := hgood.sent hsent
    exact ⟨hcreated, hextends.durable hstarted⟩
  · have hphase := hgood.phase
    unfold Run.PhaseGood at hphase ⊢
    split at hphase
    · exact hphase
    · exact hphase
    · exact hphase
    · exact hphase
    · obtain ⟨hholds, hverified, hcleanup, hwritten, hlinked⟩ := hphase
      obtain ⟨hkeeps, hactiveLinked⟩ := hheld (hgood.holds.mpr hholds)
      exact ⟨hholds, hverified, hcleanup, hwritten.frame hextends hkeeps,
        fun place hstep ↦ hactiveLinked (hlinked place hstep)⟩
    · obtain ⟨hholds, hverified, hcleanup, hlinked, hstarted, hchecked⟩ := hphase
      obtain ⟨-, hactiveLinked⟩ := hheld (hgood.holds.mpr hholds)
      exact ⟨hholds, hverified, hcleanup, hactiveLinked hlinked, hextends.durable hstarted,
        hchecked⟩
    · exact hphase
    · obtain ⟨hholds, hwritten⟩ := hphase
      exact ⟨hholds, hwritten.frame hextends (hheld (hgood.holds.mpr hholds)).1⟩
    · exact ⟨hphase.1, hextends.durable hphase.2⟩
    · exact ⟨hphase.1, hextends.durable hphase.2⟩
    · intro hverified
      exact ⟨(hphase hverified).1, hextends.durable (hphase hverified).2⟩
    · trivial

end Frame

/-! ### The steps of a run -/

section Steps

variable {files later : Files} {run next : Run} {r : ℕ}

/-- The end of a run without a completed journal. -/
theorem Run.Base.refuse (hbase : run.Base files r) (message : String) :
    (run.refuse message).Good files r :=
  ⟨⟨hbase.holds, hbase.once, hbase.armed, hbase.sent, fun hverified ↦ by cases hverified⟩,
    fun hverified ↦ by cases hverified⟩

variable {phase : Phase} {work : Work}

section

variable (hbase : run.Base files r)
include hbase

/-- A step that changes only the phase. -/
theorem Run.Base.advance (hphase : { run with phase }.PhaseGood files) :
    { run with phase }.Good files r :=
  ⟨⟨hbase.holds, hbase.once, hbase.armed, hbase.sent, hbase.evident⟩, hphase⟩

section

variable (hholds : run.created = true ∧ run.removed = false)
include hholds

/-- The end of the workflow when no snapshot is held. Assumes: an unconfirmed cleanup has no
verified file. -/
theorem Run.Base.wrap (hclean : run.cleanupUnconfirmed = true → run.facts.verified = false) :
    run.wrap.Good files r := by
  unfold Run.wrap
  split_ifs with hcleanup
  · refine ⟨⟨hbase.holds, hbase.once, hbase.armed, hbase.sent, hbase.evident⟩, fun hverified ↦ ?_⟩
    cases (hclean hcleanup).symm.trans hverified
  · exact hbase.advance ⟨hholds, trivial⟩

theorem Run.Base.settle
    (hclean : run.held = true ∨ run.cleanupUnconfirmed = true → run.facts.verified = false) :
    run.settle.Good files r := by
  unfold Run.settle
  split_ifs with hheld
  · exact hbase.advance ⟨hholds, hclean (.inl hheld)⟩
  · exact hbase.wrap hholds fun hcleanup ↦ hclean (.inr hcleanup)

/-- The workflow ends with an issue. -/
theorem Run.Base.fail (hverified : run.facts.verified = false) (message : String)
    (cleanupUnconfirmed : Bool) : (run.fail message cleanupUnconfirmed).Good files r :=
  Run.Base.settle ⟨hbase.holds, hbase.once, hbase.armed, hbase.sent, hbase.evident⟩ hholds
    fun _ ↦ hverified

end

end

section

variable (hgood : run.Good files r)
include hgood

/-- A place of the workflow. -/
theorem Run.Good.workflow (hwork : run.phase = .working work) :
    (run.created = true ∧ run.removed = false) ∧ run.facts.verified = false ∧
      run.cleanupUnconfirmed = false ∧ files.activeLinked = true ∧ run.Started files ∧
      run.Checked work := by
  have hphase := hgood.phase
  unfold Run.PhaseGood at hphase
  rw [hwork] at hphase
  exact hphase

theorem work_good (hwork : run.phase = .working work) {reply : Reply}
    (hreply : run.work work reply = some next) : next.Good files r := by
  obtain ⟨hholds, hverified, hcleanup, hlinked, hstarted, hchecked⟩ := hgood.workflow hwork
  have hon : ∀ work, run.Checked work → { run with phase := .working work }.Good files r :=
    fun work hchecked ↦
      hgood.toBase.advance ⟨hholds, hverified, hcleanup, hlinked, hstarted, hchecked⟩
  have hfail : ∀ message, (run.fail message false).Good files r :=
    fun message ↦ hgood.toBase.fail hholds hverified message false
  have hnote : ∀ facts : Facts, facts.verified = false → { run with facts }.Base files r :=
    fun facts hunverified ↦ ⟨hgood.holds, hgood.once, hgood.armed, hgood.sent,
      fun h ↦ by cases hunverified.symm.trans h⟩
  have hnext : ∀ (facts : Facts) (work : Work), facts.verified = false →
      { run with facts }.Checked work →
        { run with phase := .working work, facts }.Good files r :=
    fun facts work hunverified hchecked ↦ ⟨⟨hgood.holds, hgood.once, hgood.armed, hgood.sent,
      fun h ↦ by cases hunverified.symm.trans h⟩, hholds, hunverified, hcleanup, hlinked, hstarted,
      hchecked⟩
  unfold Run.work at hreply
  split at hreply
  · split_ifs at hreply
    · cases hreply
      exact hon _ trivial
    · cases hreply
      exact hfail _
  · split at hreply
    · cases hreply
      exact hon _ trivial
    · cases hreply
      exact hfail _
  · cases hreply
    exact hon _ trivial
  · cases hreply
    exact hon _ trivial
  · cases hreply
    exact hon _ trivial
  · rename_i event
    cases hreply
    exact hnext _ _ hverified trivial
  · rename_i receipt
    simp only at hreply
    have hbase := hnote { run.facts with requestAccepted := receipt.index "requestAccepted" }
      hverified
    split_ifs at hreply with haccepted
    · cases hreply
      exact hnext _ _ hverified haccepted
    · cases hreply
      exact hbase.fail hholds hverified _ _
  · simp only at hreply
    have hbase := hnote { run.facts with saveEventObserved := true } hverified
    split_ifs at hreply with hsame
    · cases hreply
      exact hbase.fail hholds hverified _ _
    · cases hreply
      exact hnext _ _ hverified ⟨hchecked, hsame⟩
  · split_ifs at hreply with hcontains
    · cases hreply
      exact hfail _
    · cases hreply
      have habsent := fun hmem ↦ hcontains (contains_iff_mem.mpr hmem)
      exact hnext _ _ hverified ⟨hchecked.1, hchecked.2, habsent, rfl⟩
  · cases hreply
    obtain ⟨haccepted, hchanged, habsent, hnoted⟩ := hchecked
    refine ⟨⟨hgood.holds, hgood.once, hgood.armed, hgood.sent, fun h ↦ ?_⟩,
      hholds, hverified, hcleanup, hlinked, hstarted, ⟨haccepted, hchanged, habsent, hnoted⟩, rfl⟩
    cases hverified.symm.trans h
  · split at hreply
    · split_ifs at hreply with hsame
      · cases hreply
        exact hon _ ⟨hchecked.1, hchecked.2, hsame⟩
      · cases hreply
        exact hfail _
    · cases hreply
      exact hfail _
  · cases hreply
    refine ⟨⟨hgood.holds, hgood.once, hgood.armed, hgood.sent, fun h ↦ ?_⟩,
      hholds, hverified, hcleanup, hlinked, hstarted, hchecked.1, hchecked.2.1, hchecked.2.2, rfl⟩
    cases hverified.symm.trans h
  · rename_i observed second file
    cases hreply
    obtain ⟨⟨haccepted, hchanged, habsent, hnoted⟩, hdecoded, hsecond, hconfirmed⟩ := hchecked
    refine Run.Base.settle ⟨hgood.holds, hgood.once, hgood.armed, hgood.sent, fun _ ↦ ?_⟩ hholds ?_
    · exact ⟨observed, second, rfl, ⟨haccepted, hchanged, habsent, hnoted⟩, hdecoded, hsecond,
        hconfirmed⟩
    · rintro (hheld | hunconfirmed)
      · cases hheld
      · cases hcleanup.symm.trans hunconfirmed
  · cases hreply

/-- A dispatch: the save is sent for the first time, and the journal is durable. -/
theorem dispatch_good (hdispatch : run.dispatch = some next) :
    next.Good files r ∧ run.dispatched = 0 ∧ next.dispatched = 1 ∧ files.active = some r ∧
      files.activeLinked = true ∧ run.Started files := by
  unfold Run.dispatch at hdispatch
  split at hdispatch
  · rename_i previous baseline hwork
    obtain ⟨hholds, hverified, hcleanup, hlinked, hstarted, -⟩ := hgood.workflow hwork
    split_ifs at hdispatch with harmed
    have hnone := hgood.armed (by simpa using harmed)
    cases hdispatch
    refine ⟨⟨⟨hgood.holds, ?_, (fun h ↦ by cases h), fun _ ↦ ⟨hholds.1, hstarted⟩,
      hgood.evident⟩, ?_⟩, hnone, ?_, hgood.holds.mpr hholds, hlinked, hstarted⟩
    · simp [hnone]
    · unfold Run.PhaseGood
      simp only [hwork]
      exact ⟨hholds, hverified, hcleanup, hlinked, hstarted, trivial⟩
    · simp [hnone]
  · cases hdispatch

theorem scan_good {entry : Entry} (hscan : run.scan entry = some next) : next.Good files r := by
  have hphase := hgood.phase
  unfold Run.PhaseGood at hphase
  unfold Run.scan at hscan
  split at hscan
  · rename_i count hscanning
    simp only [hscanning] at hphase
    split_ifs at hscan
    · cases hscan
      exact hgood.toBase.refuse _
    · split at hscan
      · cases hscan
        exact hgood.toBase.advance hphase
      · cases hscan
        exact hgood.toBase.refuse _
  · cases hscan

theorem scanned_good (hscanned : run.scanned = some next) : next.Good files r := by
  have hphase := hgood.phase
  unfold Run.PhaseGood at hphase
  unfold Run.scanned at hscanned
  split at hscanned
  · rename_i count hscanning
    simp only [hscanning] at hphase
    split_ifs at hscanned
    · cases hscanned
      exact hgood.toBase.refuse _
    · cases hscanned
      exact hgood.toBase.advance hphase
  · cases hscanned

theorem stop_good (hstop : run.stop = some next) : next.Good files r := by
  unfold Run.stop at hstop
  split at hstop
  · cases hstop
  · cases hstop
    exact hgood.toBase.advance trivial

theorem fails_good {message : String} {cleanupUnconfirmed : Bool}
    (hfails : run.fails message cleanupUnconfirmed = some next) : next.Good files r := by
  have hphase := hgood.phase
  unfold Run.PhaseGood at hphase
  unfold Run.fails at hfails
  split at hfails
  · rename_i work hwork
    obtain ⟨hholds, hverified, -⟩ := hgood.workflow hwork
    cases hfails
    unfold Run.workFails
    split
    · have hbase : { run with held := false }.Base files r :=
        ⟨hgood.holds, hgood.once, hgood.armed, hgood.sent, hgood.evident⟩
      exact hbase.fail hholds hverified _ _
    · exact hgood.toBase.fail hholds hverified _ _
  · rename_i hdiscarding
    simp only [hdiscarding] at hphase
    cases hfails
    exact Run.Base.wrap ⟨hgood.holds, hgood.once, hgood.armed, hgood.sent, hgood.evident⟩ hphase.1
      fun _ ↦ hphase.2
  · cases hfails

end

/-- What a step of a run does to the files, for the other runs. -/
structure Files.Around (files later : Files) (r : ℕ) : Prop where
  extend : files.Extends later
  active : ∀ other, other ≠ r → (later.active = some other ↔ files.active = some other)
  held : ∀ other, other ≠ r → files.active = some other →
    files.Keeps later ∧ (files.activeLinked = true → later.activeLinked = true)

theorem Files.Around.refl (files : Files) (r : ℕ) : files.Around files r :=
  ⟨.refl files, fun _ _ ↦ Iff.rfl, fun _ _ _ ↦ ⟨Files.keeps_of_records rfl, fun h ↦ h⟩⟩

/-- A run that holds the directory writes. -/
theorem Files.around_of_held (hextends : files.Extends later)
    (hactive : later.active = files.active) (hheld : files.active = some r) :
    files.Around later r := by
  refine ⟨hextends, fun other _ ↦ by rw [hactive], fun other hother hactive ↦ ?_⟩
  exact absurd (some.inj (hactive.symm.trans hheld)) hother

/-- A run that is good stays so when its own step only adds to the records. -/
theorem Run.Base.extend (hbase : run.Base files r) (hextends : files.Extends later)
    (hactive : later.active = files.active) : run.Base later r := by
  refine ⟨by rw [hactive]; exact hbase.holds, hbase.once, hbase.armed, fun hsent ↦ ?_,
    hbase.evident⟩
  obtain ⟨hcreated, hstarted⟩ := hbase.sent hsent
  exact ⟨hcreated, hextends.durable hstarted⟩

variable {stage : Stage} {step : WriteStep}

/-- A phase of `Journal::write`. -/
theorem Run.Good.writing (hgood : run.Good files r) (hwriting : run.phase = .writing stage step) :
    (run.created = true ∧ run.removed = false) ∧ run.Written files stage step ∧
      (stage = .started → run.facts.verified = false ∧ run.cleanupUnconfirmed = false ∧
        ∀ place, step = .recheck place → files.activeLinked = true) := by
  have hphase := hgood.phase
  unfold Run.PhaseGood at hphase
  rw [hwriting] at hphase
  cases stage with
  | started =>
    obtain ⟨hholds, hverified, hcleanup, hwritten, hlinked⟩ := hphase
    exact ⟨hholds, hwritten, fun _ ↦ ⟨hverified, hcleanup, hlinked⟩⟩
  | result => exact ⟨hphase.1, hphase.2, fun h ↦ by cases h⟩

/-- The next step of a write. -/
theorem Run.Base.writing (hbase : run.Base files r)
    (hholds : run.created = true ∧ run.removed = false)
    (hstarted : stage = .started → run.facts.verified = false ∧ run.cleanupUnconfirmed = false ∧
      ∀ place, step = .recheck place → files.activeLinked = true)
    (hwritten : run.Written files stage step) :
    { run with phase := .writing stage step }.Good files r := by
  refine hbase.advance ?_
  cases stage with
  | started =>
    obtain ⟨hverified, hcleanup, hlinked⟩ := hstarted rfl
    cases step <;> exact ⟨hholds, hverified, hcleanup, hwritten, hlinked⟩
  | result => cases step <;> exact ⟨hholds, hwritten⟩

theorem write_good (encodedLength : Body → ℕ) (hgood : run.Good files r)
    (hwriting : run.phase = .writing stage step) (outcome : Io) :
    (run.write encodedLength files stage outcome step).2.Good
        (run.write encodedLength files stage outcome step).1 r ∧
      files.Around (run.write encodedLength files stage outcome step).1 r := by
  obtain ⟨hholds, hwritten, hstarted⟩ := hgood.writing hwriting
  have hheld : files.active = some r := hgood.holds.mpr hholds
  have hbase := hgood.toBase
  cases step with
  | check =>
    simp only [Run.write]
    split_ifs
    · exact ⟨hbase.writing hholds (fun h ↦ ⟨(hstarted h).1, (hstarted h).2.1, by simp⟩) trivial,
        .refl files r⟩
    · exact ⟨hbase.refuse _, .refl files r⟩
  | create =>
    have hextends := files.create_extends run.id stage run.endpoint
    simp only [Run.write]
    split_ifs
    · exact ⟨hbase.refuse _, .refl files r⟩
    · exact ⟨hbase.refuse _, .refl files r⟩
    · refine ⟨(hbase.extend hextends rfl).writing hholds
        (fun h ↦ ⟨(hstarted h).1, (hstarted h).2.1, by simp⟩) ?_,
        Files.around_of_held hextends rfl hheld⟩
      exact ⟨⟨run.id, stage, run.endpoint, none, false, false⟩, by simp [Files.create], rfl, rfl,
        rfl⟩
    · exact ⟨(hbase.extend hextends rfl).refuse _, Files.around_of_held hextends rfl hheld⟩
  | fill place =>
    obtain ⟨record, hrecord, hid, hstage, hbody⟩ := hwritten
    have hextends := fun synced ↦ Files.fill_extends hrecord hbody (run.body stage) synced
    simp only [Run.write]
    cases outcome with
    | done =>
      refine ⟨(hbase.extend (hextends true) rfl).writing hholds
        (fun h ↦ ⟨(hstarted h).1, (hstarted h).2.1, by simp⟩) ?_,
        Files.around_of_held (hextends true) rfl hheld⟩
      exact ⟨_, Files.fill_self hrecord _ _, hid, hstage, rfl, rfl⟩
    | refused => exact ⟨hbase.refuse _, .refl files r⟩
    | uncertain =>
      exact ⟨(hbase.extend (hextends false) rfl).refuse _,
        Files.around_of_held (hextends false) rfl hheld⟩
  | link place =>
    obtain ⟨record, hrecord, hid, hstage, hbody, hsynced⟩ := hwritten
    have hextends := files.link_extends
    have hlinked : files.link.activeLinked = true := by simp [Files.link, hheld]
    simp only [Run.write]
    cases outcome with
    | done =>
      refine ⟨(hbase.extend hextends rfl).writing hholds
        (fun h ↦ ⟨(hstarted h).1, (hstarted h).2.1, fun _ _ ↦ hlinked⟩) ?_,
        Files.around_of_held hextends rfl hheld⟩
      exact ⟨_, mem_of_getElem? (Files.link_records hrecord), hid, hstage, hbody, hsynced, rfl⟩
    | refused => exact ⟨hbase.refuse _, .refl files r⟩
    | uncertain =>
      exact ⟨(hbase.extend hextends rfl).refuse _, Files.around_of_held hextends rfl hheld⟩
  | recheck place =>
    simp only [Run.write]
    split_ifs
    · cases stage with
      | started =>
        obtain ⟨hverified, hcleanup, hlinked⟩ := hstarted rfl
        exact ⟨hbase.advance ⟨hholds, hverified, hcleanup, hlinked place rfl, hwritten, trivial⟩,
          .refl files r⟩
      | result => exact ⟨hbase.advance ⟨hholds, hwritten⟩, .refl files r⟩
    · exact ⟨hbase.refuse _, .refl files r⟩

/-- The directory is claimed. -/
theorem claim_good (hgood : run.Good files r) (hfree : files.active = none)
    (hunclaimed : run.created = false ∧ run.removed = false) {issue : Option String} {facts : Facts}
    (hverified : facts.verified = false)
    (hphase : { run with phase, issue, facts, created := true }.PhaseGood
      { files with active := some r, activeLinked := false }) :
    { run with phase, issue, facts, created := true }.Good
        { files with active := some r, activeLinked := false } r ∧
      files.Around { files with active := some r, activeLinked := false } r := by
  refine ⟨⟨⟨iff_of_true rfl ⟨rfl, hunclaimed.2⟩, hgood.once, hgood.armed, fun hsent ↦ ?_,
    fun h ↦ ?_⟩, hphase⟩, Files.extends_of_records rfl, fun other hother ↦ ?_,
    fun other _ hactive ↦ ?_⟩
  · cases hunclaimed.1.symm.trans (hgood.sent hsent).1
  · cases hverified.symm.trans h
  · rw [hfree]
    refine iff_of_false (fun hactive ↦ hother ?_) (by simp)
    exact (some.inj hactive).symm
  · cases hfree.symm.trans hactive

/-- The directory is given back. -/
theorem release_good (hgood : run.Good files r) {place : ℕ}
    (hreleasing : run.phase = .releasing place) :
    { run with phase := .finishing place, removed := true }.Good { files with active := none } r ∧
      { run.refuse "Replay active journal cleanup is unconfirmed" with removed := true }.Good
        { files with active := none } r ∧
      files.Around { files with active := none } r := by
  have hphase := hgood.phase
  unfold Run.PhaseGood at hphase
  rw [hreleasing] at hphase
  obtain ⟨hholds, hrecorded⟩ := hphase
  have hheld := hgood.holds.mpr hholds
  refine ⟨⟨⟨iff_of_false (by simp) (by simp), hgood.once, hgood.armed, hgood.sent, hgood.evident⟩,
    ⟨hholds.1, rfl⟩, hrecorded⟩,
    ⟨⟨iff_of_false (by simp) (by simp), hgood.once, hgood.armed, hgood.sent, fun h ↦ by cases h⟩,
      fun h ↦ by cases h⟩, Files.extends_of_records rfl, fun other hother ↦ ?_,
    fun other hother hactive ↦ ?_⟩
  · refine iff_of_false (by simp) fun hactive ↦ hother ?_
    exact some.inj (hactive.symm.trans hheld)
  · exact absurd (some.inj (hactive.symm.trans hheld)) hother

theorem io_good {encodedLength : Body → ℕ} (hgood : run.Good files r) {outcome : Io}
    (hio : run.io encodedLength files r outcome = some (later, next)) :
    next.Good later r ∧ files.Around later r := by
  have hbase := hgood.toBase
  have hphase := hgood.phase
  unfold Run.PhaseGood at hphase
  unfold Run.io at hio
  cases hrun : run.phase with
  | scanning count => simp [hrun] at hio
  | working work => simp [hrun] at hio
  | reported => simp [hrun] at hio
  | stopped => simp [hrun] at hio
  | starting =>
    simp only [hrun] at hio hphase
    split_ifs at hio
    all_goals cases hio
    · exact ⟨hbase.refuse _, .refl _ r⟩
    · exact ⟨hbase.advance hphase, .refl _ r⟩
    · exact ⟨hbase.refuse _, .refl _ r⟩
  | claiming =>
    simp only [hrun] at hio hphase
    split_ifs at hio with hrefused hdone
    all_goals cases hio
    · exact ⟨hbase.refuse _, .refl _ r⟩
    · have hfree : files.active = none := by
        simp only [Bool.or_eq_true, not_or] at hrefused
        simpa using hrefused.2
      exact claim_good hgood hfree hphase.1 hphase.2.1 ⟨⟨rfl, hphase.1.2⟩, hphase.2⟩
    · have hfree : files.active = none := by
        simp only [Bool.or_eq_true, not_or] at hrefused
        simpa using hrefused.2
      exact claim_good hgood hfree hphase.1 rfl fun h ↦ by cases h
  | identifying =>
    simp only [hrun] at hio hphase
    split_ifs at hio
    all_goals cases hio
    · exact ⟨hbase.writing hphase.1 (fun _ ↦ ⟨hphase.2.1, hphase.2.2, by simp⟩) trivial, .refl _ r⟩
    · exact ⟨hbase.refuse _, .refl _ r⟩
  | writing stage step =>
    simp only [hrun, Option.some.injEq] at hio
    have hwrite := write_good encodedLength hgood hrun outcome
    rw [hio] at hwrite
    exact hwrite
  | discarding =>
    simp only [hrun] at hio hphase
    split_ifs at hio
    cases hio
    exact ⟨Run.Base.wrap ⟨hbase.holds, hbase.once, hbase.armed, hbase.sent, hbase.evident⟩ hphase.1
      fun _ ↦ hphase.2, .refl _ r⟩
  | releasing place =>
    simp only [hrun] at hio
    obtain ⟨hdone, huncertain, haround⟩ := release_good hgood hrun
    cases outcome with
    | done =>
      cases hio
      exact ⟨hdone, haround⟩
    | refused =>
      cases hio
      exact ⟨hbase.refuse _, .refl _ r⟩
    | uncertain =>
      cases hio
      exact ⟨huncertain, haround⟩
  | finishing place =>
    simp only [hrun] at hio hphase
    split_ifs at hio
    all_goals cases hio
    · have hextends := files.link_extends
      refine ⟨(hbase.extend hextends rfl).advance fun _ ↦
        ⟨hphase.1, hextends.durable hphase.2⟩, hextends, fun _ _ ↦ Iff.rfl, fun other _ _ ↦ ?_⟩
      exact ⟨files.link_keeps, fun hlinked ↦ by simp [Files.link, hlinked]⟩
    · exact ⟨hbase.refuse _, .refl _ r⟩

end Steps

/-! ### The history of a run -/

section History

variable {files later : Files} {run next : Run} {r : ℕ}

/-- What a step without a file leaves as it is. -/
structure Run.Same (run next : Run) : Prop where
  id : next.id = run.id
  created : next.created = run.created
  removed : next.removed = run.removed
  dispatched : next.dispatched = run.dispatched
  unfilled : ∀ stage place, next.phase ≠ .writing stage (.fill place)

/-- What a step does to a run: it is created and removed once, it is created only in a directory
that is free, it dispatches only as the holder of a durable journal, and the file it opens is a new
one. -/
structure Run.Evolves (files : Files) (r : ℕ) (run next : Run) : Prop where
  id : next.id = run.id
  created : run.created = true → next.created = true
  removed : run.removed = true → next.removed = true
  claimed : next.created = true → run.created = true ∨ files.active = none
  dispatched : next.dispatched = run.dispatched ∨
    run.dispatched = 0 ∧ next.dispatched = 1 ∧ files.active = some r ∧
      files.activeLinked = true ∧ run.Started files
  filling : ∀ stage place, next.phase = .writing stage (.fill place) →
    run.phase = .writing stage (.fill place) ∨ place = files.records.length

theorem Run.Evolves.refl (files : Files) (r : ℕ) (run : Run) : Run.Evolves files r run run :=
  ⟨rfl, fun h ↦ h, fun h ↦ h, .inl, .inl rfl, fun _ _ ↦ .inl⟩

theorem Run.Same.evolves (hsame : run.Same next) : Run.Evolves files r run next :=
  ⟨hsame.id, hsame.created.trans, hsame.removed.trans, fun h ↦ .inl (hsame.created.symm.trans h),
    .inl hsame.dispatched, fun stage place h ↦ absurd h (hsame.unfilled stage place)⟩

/-- The history is read off these fields alone. -/
theorem Run.Same.congr {other : Run} (hsame : other.Same next) (hid : other.id = run.id)
    (hcreated : other.created = run.created) (hremoved : other.removed = run.removed)
    (hdispatched : other.dispatched = run.dispatched) : run.Same next :=
  ⟨hsame.id.trans hid, hsame.created.trans hcreated, hsame.removed.trans hremoved,
    hsame.dispatched.trans hdispatched, hsame.unfilled⟩

@[simp] theorem Run.refuse_phase (run : Run) (message : String) :
    (run.refuse message).phase = .reported := rfl

theorem Run.wrap_same (run : Run) : run.Same run.wrap := by
  unfold Run.wrap
  split_ifs <;> exact ⟨rfl, rfl, rfl, rfl, by simp⟩

theorem Run.settle_same (run : Run) : run.Same run.settle := by
  unfold Run.settle
  split_ifs
  · exact ⟨rfl, rfl, rfl, rfl, by simp⟩
  · exact run.wrap_same

theorem Run.fail_same (run : Run) (message : String) (cleanupUnconfirmed : Bool) :
    run.Same (run.fail message cleanupUnconfirmed) :=
  (Run.settle_same _).congr rfl rfl rfl rfl

theorem work_same {work : Work} {reply : Reply} (hreply : run.work work reply = some next) :
    run.Same next := by
  have hfail : ∀ (facts : Facts) (message : String),
      run.Same ({ run with facts }.fail message false) := fun _ _ ↦
    (Run.fail_same _ _ _).congr rfl rfl rfl rfl
  unfold Run.work at hreply
  split at hreply
  · split_ifs at hreply
    all_goals cases hreply
    · exact ⟨rfl, rfl, rfl, rfl, by simp⟩
    · exact run.fail_same _ _
  · split at hreply
    all_goals cases hreply
    · exact ⟨rfl, rfl, rfl, rfl, by simp⟩
    · exact run.fail_same _ _
  · cases hreply
    exact ⟨rfl, rfl, rfl, rfl, by simp⟩
  · cases hreply
    exact ⟨rfl, rfl, rfl, rfl, by simp⟩
  · cases hreply
    exact ⟨rfl, rfl, rfl, rfl, by simp⟩
  · cases hreply
    exact ⟨rfl, rfl, rfl, rfl, by simp⟩
  · simp only at hreply
    split_ifs at hreply
    all_goals cases hreply
    · exact ⟨rfl, rfl, rfl, rfl, by simp⟩
    · exact hfail _ _
  · simp only at hreply
    split_ifs at hreply
    all_goals cases hreply
    · exact hfail _ _
    · exact ⟨rfl, rfl, rfl, rfl, by simp⟩
  · split_ifs at hreply
    all_goals cases hreply
    · exact run.fail_same _ _
    · exact ⟨rfl, rfl, rfl, rfl, by simp⟩
  · cases hreply
    exact ⟨rfl, rfl, rfl, rfl, by simp⟩
  · split at hreply
    · split_ifs at hreply
      all_goals cases hreply
      · exact ⟨rfl, rfl, rfl, rfl, by simp⟩
      · exact run.fail_same _ _
    · cases hreply
      exact run.fail_same _ _
  · cases hreply
    exact ⟨rfl, rfl, rfl, rfl, by simp⟩
  · cases hreply
    exact (Run.settle_same _).congr rfl rfl rfl rfl
  · cases hreply

theorem scan_same {entry : Entry} (hscan : run.scan entry = some next) : run.Same next := by
  unfold Run.scan at hscan
  split at hscan
  · split_ifs at hscan
    · cases hscan
      exact ⟨rfl, rfl, rfl, rfl, by simp⟩
    · split at hscan
      all_goals cases hscan
      · exact ⟨rfl, rfl, rfl, rfl, by simp⟩
      · exact ⟨rfl, rfl, rfl, rfl, by simp⟩
  · cases hscan

theorem scanned_same (hscanned : run.scanned = some next) : run.Same next := by
  unfold Run.scanned at hscanned
  split at hscanned
  · split_ifs at hscanned
    all_goals cases hscanned
    · exact ⟨rfl, rfl, rfl, rfl, by simp⟩
    · exact ⟨rfl, rfl, rfl, rfl, by simp⟩
  · cases hscanned

theorem stop_same (hstop : run.stop = some next) : run.Same next := by
  unfold Run.stop at hstop
  split at hstop
  · cases hstop
  · cases hstop
    exact ⟨rfl, rfl, rfl, rfl, by simp⟩

theorem fails_same {message : String} {cleanupUnconfirmed : Bool}
    (hfails : run.fails message cleanupUnconfirmed = some next) : run.Same next := by
  unfold Run.fails at hfails
  split at hfails
  · cases hfails
    unfold Run.workFails
    split
    · exact (Run.fail_same _ _ _).congr rfl rfl rfl rfl
    · exact run.fail_same _ _
  · cases hfails
    exact (Run.wrap_same _).congr rfl rfl rfl rfl
  · cases hfails

theorem write_evolves (encodedLength : Body → ℕ) (stage : Stage) (step : WriteStep) (outcome : Io) :
    Run.Evolves files r run (run.write encodedLength files stage outcome step).2 := by
  cases step with
  | check =>
    simp only [Run.write]
    split_ifs <;> exact Run.Same.evolves ⟨rfl, rfl, rfl, rfl, by simp⟩
  | create =>
    simp only [Run.write]
    split_ifs
    · exact Run.Same.evolves ⟨rfl, rfl, rfl, rfl, by simp⟩
    · exact Run.Same.evolves ⟨rfl, rfl, rfl, rfl, by simp⟩
    · refine ⟨rfl, fun h ↦ h, fun h ↦ h, .inl, .inl rfl, fun _ _ hphase ↦ .inr ?_⟩
      cases hphase
      rfl
    · exact Run.Same.evolves ⟨rfl, rfl, rfl, rfl, by simp⟩
  | fill place =>
    cases outcome <;> exact Run.Same.evolves ⟨rfl, rfl, rfl, rfl, by simp [Run.write]⟩
  | link place =>
    cases outcome <;> exact Run.Same.evolves ⟨rfl, rfl, rfl, rfl, by simp [Run.write]⟩
  | recheck place =>
    simp only [Run.write]
    split_ifs
    · cases stage <;> exact Run.Same.evolves ⟨rfl, rfl, rfl, rfl, by simp⟩
    · exact Run.Same.evolves ⟨rfl, rfl, rfl, rfl, by simp⟩

variable {encodedLength : Body → ℕ} {outcome : Io}

theorem io_evolves (hio : run.io encodedLength files r outcome = some (later, next)) :
    Run.Evolves files r run next := by
  unfold Run.io at hio
  cases hrun : run.phase with
  | scanning count => simp [hrun] at hio
  | working work => simp [hrun] at hio
  | reported => simp [hrun] at hio
  | stopped => simp [hrun] at hio
  | starting =>
    simp only [hrun] at hio
    split_ifs at hio
    all_goals
      cases hio
      exact Run.Same.evolves ⟨rfl, rfl, rfl, rfl, by simp⟩
  | claiming =>
    simp only [hrun] at hio
    split_ifs at hio with hrefused hdone
    · cases hio
      exact Run.Same.evolves ⟨rfl, rfl, rfl, rfl, by simp⟩
    all_goals
      cases hio
      refine ⟨rfl, fun _ ↦ rfl, fun h ↦ h, fun _ ↦ .inr ?_, .inl rfl, by simp⟩
      simp only [Bool.or_eq_true, not_or] at hrefused
      simpa using hrefused.2
  | identifying =>
    simp only [hrun] at hio
    split_ifs at hio
    all_goals
      cases hio
      exact Run.Same.evolves ⟨rfl, rfl, rfl, rfl, by simp⟩
  | writing stage step =>
    simp only [hrun, Option.some.injEq] at hio
    have hevolves : Run.Evolves files r run (run.write encodedLength files stage outcome step).2 :=
      write_evolves encodedLength stage step outcome
    rw [hio] at hevolves
    exact hevolves
  | discarding =>
    simp only [hrun] at hio
    split_ifs at hio
    cases hio
    exact Run.Same.evolves ((Run.wrap_same _).congr rfl rfl rfl rfl)
  | releasing place =>
    simp only [hrun] at hio
    cases outcome with
    | refused =>
      cases hio
      exact Run.Same.evolves ⟨rfl, rfl, rfl, rfl, by simp⟩
    | done =>
      cases hio
      exact ⟨rfl, fun h ↦ h, fun _ ↦ rfl, .inl, .inl rfl, by simp⟩
    | uncertain =>
      cases hio
      exact ⟨rfl, fun h ↦ h, fun _ ↦ rfl, .inl, .inl rfl, by simp⟩
  | finishing place =>
    simp only [hrun] at hio
    split_ifs at hio
    all_goals
      cases hio
      exact Run.Same.evolves ⟨rfl, rfl, rfl, rfl, by simp⟩

/-- A step on the files keeps every record but the one the run has open. -/
theorem io_keeps (hio : run.io encodedLength files r outcome = some (later, next)) {place : ℕ}
    {record : Record} (hrecord : files.records[place]? = some record)
    (hclosed : ∀ stage, run.phase ≠ .writing stage (.fill place)) :
    ∃ kept : Record, later.records[place]? = some kept ∧
      kept.operationId = record.operationId ∧ kept.stage = record.stage ∧
        kept.body = record.body ∧ kept.synced = record.synced := by
  have hkept : files.Keeps later → ∃ kept : Record, later.records[place]? = some kept ∧
      kept.operationId = record.operationId ∧ kept.stage = record.stage ∧
        kept.body = record.body ∧ kept.synced = record.synced := fun hkeeps ↦
    hkeeps place record hrecord
  have hsame := fun h : later.records = files.records ↦ hkept (Files.keeps_of_records h)
  unfold Run.io at hio
  split at hio
  · split_ifs at hio
    all_goals
      obtain ⟨rfl, -⟩ := Prod.mk.inj (some.inj hio)
      exact hsame rfl
  · simp only at hio
    split_ifs at hio
    all_goals
      obtain ⟨rfl, -⟩ := Prod.mk.inj (some.inj hio)
      exact hsame rfl
  · split_ifs at hio
    all_goals
      obtain ⟨rfl, -⟩ := Prod.mk.inj (some.inj hio)
      exact hsame rfl
  · rename_i stage step hwriting
    have hlater : (run.write encodedLength files stage outcome step).1 = later := by
      rw [some.inj hio]
    cases step with
    | check =>
      simp only [Run.write] at hlater
      split_ifs at hlater <;> exact hsame (hlater ▸ rfl)
    | create =>
      simp only [Run.write] at hlater
      split_ifs at hlater
      · exact hsame (hlater ▸ rfl)
      · exact hsame (hlater ▸ rfl)
      · exact hkept (hlater ▸ files.create_keeps _ _ _)
      · exact hkept (hlater ▸ files.create_keeps _ _ _)
    | fill other =>
      have hother : other ≠ place := by
        rintro rfl
        exact hclosed stage hwriting
      cases outcome with
      | refused => exact hsame (hlater ▸ rfl)
      | done =>
        refine ⟨record, ?_, rfl, rfl, rfl, rfl⟩
        rw [← hlater]
        exact (Files.fill_other hother _ _).trans hrecord
      | uncertain =>
        refine ⟨record, ?_, rfl, rfl, rfl, rfl⟩
        rw [← hlater]
        exact (Files.fill_other hother _ _).trans hrecord
    | link other =>
      cases outcome with
      | refused => exact hsame (hlater ▸ rfl)
      | done => exact hkept (hlater ▸ files.link_keeps)
      | uncertain => exact hkept (hlater ▸ files.link_keeps)
    | recheck other =>
      simp only [Run.write] at hlater
      split_ifs at hlater
      · cases stage <;> exact hsame (hlater ▸ rfl)
      · exact hsame (hlater ▸ rfl)
  · split_ifs at hio
    obtain ⟨rfl, -⟩ := Prod.mk.inj (some.inj hio)
    exact hsame rfl
  · split at hio
    all_goals
      obtain ⟨rfl, -⟩ := Prod.mk.inj (some.inj hio)
      exact hsame rfl
  · split_ifs at hio
    all_goals obtain ⟨rfl, -⟩ := Prod.mk.inj (some.inj hio)
    · exact hkept files.link_keeps
    · exact hsame rfl
  · cases hio

end History

end ObsMcp.ReplayJournal
