import ObsMcp.ReplayFiles.Verifier

/-!
# The retirement of a private copy

A private copy is removed once, directly behind a lookup that named it, or its fate is reported.
`View` is what a trace says: whether a copy was created, what was recorded as its identity, what was
read and written, whether a helper left something behind, and how often a file was removed. Most
requests leave the view as it is (`Steady`), so each part of the verification is one statement about
the view before and behind it.

`Standing` is the duty to remove the copy, `Closed` the ways to be rid of it. `chain_safe` takes
them through all calls on a copy.
-/

namespace ObsMcp.ReplayFiles

open Foundations List

open Media (MediaError)

open Foundations.Flow (Safe)

/-! ### Reading a trace -/

structure View where
  created : Bool
  recorded : Option Metadata
  copied : List UInt8
  written : List UInt8
  reread : List UInt8
  complete : Bool
  uncertain : Bool
  removals : ℕ

/-- The bytes that are read again count from the last seek on, and are complete at the end of the
file. -/
def View.add (view : View) : (request : Request) → request.Reply → View
  | .create _, true => { view with created := true }
  | .metadata .target, some m => { view with recorded := some m }
  | .read .source, some piece => { view with copied := view.copied ++ piece }
  | .write piece, true => { view with written := view.written ++ piece }
  | .seek, true => { view with reread := [], complete := false }
  | .read .retained, some piece =>
    { view with reread := view.reread ++ piece, complete := piece.isEmpty }
  | .probe _, .error error =>
    { view with uncertain := view.uncertain || error.cleanupIssue.isSome }
  | .decode _, .error error =>
    { view with uncertain := view.uncertain || error.cleanupIssue.isSome }
  | .remove _, _ => { view with removals := view.removals + 1 }
  | _, _ => view

def view : List Event → View
  | [] =>
    { created := false
      recorded := none
      copied := []
      written := []
      reread := []
      complete := false
      uncertain := false
      removals := 0 }
  | .asked _ request reply :: older => (view older).add request reply

/-- The file that was found is an independent one with the identity. -/
def Names (found : Option Metadata) (identity : Metadata) : Prop :=
  ∃ current, found = some current ∧ same current identity = true ∧ independent current = true

/-- Every removal is the first one, is of the copy, is not behind a helper that left something
behind, and directly follows a lookup that named the copy. The path names it at the removal too,
unless it was replaced in between. -/
def Proper (copy : Path) (trace : List Event) : Prop :=
  ∀ newer world path reply older, trace = newer ++ .asked world (.remove path) reply :: older →
    path = copy ∧ (view older).removals = 0 ∧ (view older).uncertain = false ∧
    ∃ seen rest identity, older = .asked seen (.lookup copy) (seen copy) :: rest ∧
      (view older).recorded = some identity ∧ Names (seen copy) identity ∧
      (Names (world copy) identity ∨ world copy ≠ seen copy)

/-- The copy was removed. -/
def Removed (copy : Path) (trace : List Event) : Prop :=
  ∃ world, Event.asked world (.remove copy) true ∈ trace

/-- The requests that leave the view as it is. -/
def Passive : Request → Prop
  | .overdue | .lookup _ | .canonicalize _ | .openFile _ | .tryClone | .spawn | .joined => True
  | .metadata descriptor => descriptor ≠ .target
  | _ => False

section Traces

variable {copy : Path} {trace : List Event} {world : World} {request : Request}

theorem View.add_passive (hpassive : Passive request) (reply : request.Reply) (v : View) :
    v.add request reply = v := by
  cases request with
  | metadata descriptor =>
    cases descriptor with
    | target => exact absurd rfl hpassive
    | source | retained => rfl
  | create | read | write | seek | remove | probe | decode => exact hpassive.elim
  | _ => rfl

/-- Only a removal counts as one. -/
theorem View.removals_add {reply : request.Reply} (hother : ∀ path, request ≠ .remove path)
    (v : View) : (v.add request reply).removals = v.removals := by
  cases request with
  | remove path => exact absurd rfl (hother path)
  | _ =>
    unfold View.add
    split <;> first | rfl | contradiction

theorem View.le_removals_add (v : View) (reply : request.Reply) :
    v.removals ≤ (v.add request reply).removals := by
  by_cases hremove : ∃ path, request = .remove path
  · obtain ⟨path, rfl⟩ := hremove
    exact Nat.le_succ _
  · exact (View.removals_add (fun path hpath ↦ hremove ⟨path, hpath⟩) v).ge

theorem removals_le_append (newer trace : List Event) :
    (view trace).removals ≤ (view (newer ++ trace)).removals := by
  induction newer with
  | nil => exact le_rfl
  | cons event newer ih =>
    obtain ⟨world, request, reply⟩ := event
    exact ih.trans (View.le_removals_add _ _)

theorem proper_of_calm (hcalm : (view trace).removals = 0) : Proper copy trace := by
  rintro newer world path reply older rfl
  have hone := removals_le_append newer (.asked world (.remove path) reply :: older)
  have hadd : (view (.asked world (.remove path) reply :: older)).removals =
      (view older).removals + 1 := rfl
  omega

/-- A request other than a removal keeps the removals proper. -/
theorem Proper.cons (hproper : Proper copy trace) {reply : request.Reply}
    (hother : ∀ path, request ≠ .remove path) :
    Proper copy (.asked world request reply :: trace) := by
  intro newer world' path reply' older htrace
  cases newer with
  | nil =>
    obtain ⟨hevent, -⟩ := cons.inj htrace
    cases hevent
    exact absurd rfl (hother path)
  | cons event newer => exact hproper newer world' path reply' older (cons.inj htrace).2

theorem Removed.cons (hremoved : Removed copy trace) (event : Event) :
    Removed copy (event :: trace) := by
  obtain ⟨world, hmem⟩ := hremoved
  exact ⟨world, mem_cons_of_mem _ hmem⟩

/-- A file is removed at most once. -/
theorem Proper.removals_le (hproper : Proper copy trace) : (view trace).removals ≤ 1 := by
  induction trace with
  | nil => exact Nat.zero_le _
  | cons event older ih =>
    have holder : Proper copy older := fun newer world path reply rest hrest ↦
      hproper (event :: newer) world path reply rest (congrArg (event :: ·) hrest)
    have hbound := ih holder
    obtain ⟨world, request, reply⟩ := event
    cases request with
    | remove path =>
      obtain ⟨-, hnone, -⟩ := hproper [] world path reply older rfl
      exact le_of_eq (congrArg (· + 1) hnone)
    | _ => exact (View.removals_add (by simp) _).trans_le hbound

/-- A removal that directly follows a lookup which named the copy is proper. -/
theorem proper_removal {seen : World} {identity : Metadata} {rest : List Event}
    (htrace : trace = .asked seen (.lookup copy) (seen copy) :: rest)
    (hcalm : (view trace).removals = 0) (hcertain : (view trace).uncertain = false)
    (hrecorded : (view trace).recorded = some identity) (hnames : Names (seen copy) identity)
    (reply : Bool) : Proper copy (.asked world (.remove copy) reply :: trace) := by
  intro newer world' path reply' older hsplit
  cases newer with
  | nil =>
    obtain ⟨hevent, rfl⟩ := cons.inj hsplit
    cases hevent
    refine ⟨rfl, hcalm, hcertain, seen, rest, identity, htrace, hrecorded, hnames, ?_⟩
    by_cases hreplaced : world copy = seen copy
    · rw [hreplaced]
      exact .inl hnames
    · exact .inr hreplaced
  | cons event newer =>
    exact proper_of_calm hcalm newer world' path reply' older (cons.inj hsplit).2

end Traces

/-! ### Parts that leave the view -/

section Steady

variable {copy : Path} {trace : List Event} {ε η τ α β : Type} {x : Work ε τ α}
  {f : α → Work ε τ β} {own : τ} {v : View} {bad : ε → τ → List Event → Prop}

/-- The part leaves the local state and the view as they are. -/
def Steady (copy : Path) (x : Work ε τ α) : Prop :=
  ∀ own trace, (view trace).removals = 0 →
    x.Safe answers (Proper copy) (fun _ left t ↦ left = own ∧ view t = view trace)
      (fun _ left t ↦ left = own ∧ view t = view trace) own trace

theorem Steady.safe {ok : α → τ → List Event → Prop} (hx : Steady copy x) (hview : view trace = v)
    (hcalm : v.removals = 0) (hok : ∀ value t, view t = v → ok value own t)
    (hbad : ∀ fault t, view t = v → bad fault own t) :
    x.Safe answers (Proper copy) ok bad own trace := by
  subst hview
  exact (hx own trace hcalm).mono (fun value _ t ⟨hown, hview⟩ ↦ hown ▸ hok value t hview)
    fun fault _ t ⟨hown, hview⟩ ↦ hown ▸ hbad fault t hview

/-- A steady part, and then what is safe wherever the view is the same. -/
theorem Steady.bind_safe {ok : β → τ → List Event → Prop} (hx : Steady copy x)
    (hview : view trace = v) (hcalm : v.removals = 0)
    (hok : ∀ value t, view t = v → (f value).Safe answers (Proper copy) ok bad own t)
    (hbad : ∀ fault t, view t = v → bad fault own t) :
    (x >>= f).Safe answers (Proper copy) ok bad own trace :=
  Safe.bind (hx.safe hview hcalm hok hbad)

theorem Steady.pure (value : α) : Steady copy (pure value : Work ε τ α) :=
  fun _ _ _ ↦ ⟨rfl, rfl⟩

theorem Steady.ofExcept (result : Except ε α) : Steady copy (Flow.ofExcept result : Work ε τ α) :=
  fun _ _ _ ↦ Safe.ofExcept (fun _ _ ↦ ⟨rfl, rfl⟩) fun _ _ ↦ ⟨rfl, rfl⟩

theorem Steady.require (condition : Prop) [Decidable condition] (fault : ε) :
    Steady copy (Flow.require condition fault : Work ε τ Unit) :=
  fun _ _ _ ↦ Safe.require (fun _ ↦ ⟨rfl, rfl⟩) fun _ ↦ ⟨rfl, rfl⟩

theorem Steady.request (request : Request) (hpassive : Passive request) :
    Steady copy (Flow.request request : Work ε τ request.Reply) := by
  intro own trace hcalm
  refine Safe.request (proper_of_calm hcalm) ?_
  rintro reply t ⟨world, -, rfl⟩
  exact ⟨rfl, View.add_passive hpassive reply _⟩

theorem Steady.bind (hx : Steady copy x) (hf : ∀ value, Steady copy (f value)) :
    Steady copy (x >>= f) :=
  fun _ _ hcalm ↦ hx.bind_safe rfl hcalm
    (fun value _ hview ↦ (hf value).safe hview hcalm (fun _ _ hend ↦ ⟨rfl, hend⟩)
      fun _ _ hend ↦ ⟨rfl, hend⟩)
    fun _ _ hview ↦ ⟨rfl, hview⟩

theorem Steady.mapFault {f : ε → η} (hx : Steady copy x) : Steady copy (Flow.mapFault f x) :=
  fun own trace hcalm ↦ Safe.mapFault (hx own trace hcalm)

theorem steady_present (value : Option α) (message : String) :
    Steady copy (present value message : Work String τ α) :=
  Steady.ofExcept _

theorem steady_budget : Steady copy (budget : Work String τ Unit) :=
  (Steady.request .overdue trivial).bind fun _ ↦ Steady.require _ _

theorem steady_identity (path : Path) : Steady copy (identity path : Work String τ Metadata) :=
  (Steady.request (.lookup path) trivial).bind fun _ ↦ steady_present _ _

theorem steady_checkEntries (entries : List (Path × Metadata)) :
    Steady copy (checkEntries entries : Work String τ Unit) := by
  induction entries with
  | nil => exact Steady.pure ()
  | cons entry entries ih =>
    exact (steady_identity _).bind fun _ ↦ (Steady.require _ _).bind fun _ ↦ ih

theorem steady_checkParents (directory : Path) (parts : List Component) :
    Steady copy (Verifier.checkParents directory parts : Work String τ Unit) := by
  induction parts generalizing directory with
  | nil => exact Steady.pure ()
  | cons part parts ih =>
    exact (steady_identity _).bind fun _ ↦ (Steady.require _ _).bind fun _ ↦
      (Steady.request (.canonicalize _) trivial).bind fun _ ↦
        (Steady.require _ _).bind fun _ ↦ ih _

variable {this : Verifier} {path : Path}

theorem steady_check : Steady copy (this.check : Work String τ Unit) :=
  steady_checkEntries _

/-- The path is below the approved root. -/
def Approved (this : Verifier) (path : Path) : Prop :=
  normalized path = true ∧ this.root <+: path ∧ path ≠ this.root

/-- The source was found below the approved root. -/
theorem safe_source (hcalm : (view trace).removals = 0) :
    (this.source path : Work String τ Metadata).Safe answers (Proper copy)
      (fun _ left t ↦ left = own ∧ view t = view trace ∧ Approved this path)
      (fun _ left t ↦ left = own ∧ view t = view trace) own trace := by
  refine steady_check.bind_safe rfl hcalm (fun _ t hview ↦ ?_) fun _ _ hview ↦ ⟨rfl, hview⟩
  refine Safe.bind (Safe.require (fun hpath ↦ ?_) fun _ ↦ ⟨rfl, hview⟩)
  have happroved : Approved this path := by
    simpa [Approved, and_assoc] using hpath
  have hrest : Steady copy (do
      Verifier.checkParents this.root (path.drop this.root.length).dropLast
      let info ← identity path
      Flow.require (independent info && info.len ≠ 0 && info.len ≤ MAX_BYTES)
        "Replay must be a nonempty independent regular file of at most 512 MiB"
      Pure.pure info : Work String τ Metadata) :=
    (steady_checkParents _ _).bind fun _ ↦ (steady_identity _).bind fun _ ↦
      (Steady.require _ _).bind fun _ ↦ Steady.pure _
  exact hrest.safe hview hcalm (fun _ _ hend ↦ ⟨rfl, hend, happroved⟩) fun _ _ hend ↦ ⟨rfl, hend⟩

theorem steady_source : Steady copy (this.source path : Work String τ Metadata) :=
  fun _ _ hcalm ↦ (safe_source hcalm).mono (fun _ _ _ hend ↦ ⟨hend.1, hend.2.1⟩)
    fun _ _ _ hend ↦ hend

end Steady

/-! ### Reading again -/

section Reread

variable {copy : Path} {trace : List Event} {τ : Type} {own : τ} {this : Verifier}
  {readers : Readers} {snapshot : Snapshot}

/-- The views differ at most in what was read again. -/
def Rereads (v w : View) : Prop :=
  ∃ bytes complete, w = { v with reread := bytes, complete := complete }

theorem Rereads.refl (v : View) : Rereads v v :=
  ⟨v.reread, v.complete, rfl⟩

theorem Rereads.trans {u v w : View} (hfirst : Rereads u v) (hsecond : Rereads v w) :
    Rereads u w := by
  obtain ⟨bytes, complete, rfl⟩ := hfirst
  obtain ⟨last, done, rfl⟩ := hsecond
  exact ⟨last, done, rfl⟩

/-- The bytes that are read again are all bytes since the seek. -/
theorem safe_rereadLoop {hashed : List UInt8} (hcalm : (view trace).removals = 0)
    (hread : (view trace).reread = hashed) :
    (Verifier.rereadLoop hashed : Work String τ (List UInt8)).Safe answers (Proper copy)
      (fun bytes left t ↦ left = own ∧
        view t = { view trace with reread := bytes, complete := true })
      (fun _ left t ↦ left = own ∧ Rereads (view trace) (view t)) own trace := by
  induction hmeasure : MAX_BYTES - hashed.length using Nat.strong_induction_on
    generalizing hashed trace with
  | h measure ih =>
    rw [Verifier.rereadLoop]
    refine steady_budget.bind_safe rfl hcalm (fun _ t hview ↦ ?_)
      fun _ _ hview ↦ ⟨rfl, hview ▸ Rereads.refl _⟩
    have hcalm' : (view t).removals = 0 := by rw [hview, hcalm]
    refine Safe.bind (Safe.request (proper_of_calm hcalm') ?_)
    rintro reply t' ⟨world, -, rfl⟩
    cases reply with
    | none =>
      exact Safe.bind (Safe.fail ⟨rfl, (Rereads.refl _).trans (hview ▸ Rereads.refl _)⟩)
    | some piece =>
      have hstep : view (.asked world (.read .retained) (some piece) :: t) =
          { view trace with reread := hashed ++ piece, complete := piece.isEmpty } := by
        rw [view, hview]
        exact congrArg (fun bytes ↦ ({ view trace with
          reread := bytes ++ piece, complete := piece.isEmpty } : View)) hread
      refine Safe.bind (Safe.pure ?_)
      split_ifs with hempty hlong
      · subst hempty
        rw [append_nil] at hstep
        exact Safe.pure ⟨rfl, hstep⟩
      · exact Safe.fail ⟨rfl, _, _, hstep⟩
      · have hpiece := length_pos_iff.mpr hempty
        have hshort : MAX_BYTES - (hashed ++ piece).length < measure := by
          rw [length_append] at hlong ⊢
          omega
        refine (ih _ hshort ?_ ?_ rfl).mono ?_ ?_
        · rw [hstep]
          exact hcalm
        · rw [hstep]
        · rintro bytes left t'' ⟨hown, hend⟩
          rw [hstep] at hend
          exact ⟨hown, hend⟩
        · rintro _ left t'' ⟨hown, hend⟩
          exact ⟨hown, Rereads.trans ⟨_, _, hstep⟩ hend⟩

/-- A recheck that succeeds read the recorded bytes again. -/
theorem safe_recheck (hcalm : (view trace).removals = 0) :
    (this.recheck readers snapshot : Work String τ Unit).Safe answers (Proper copy)
      (fun _ left t ↦ left = own ∧ ∃ bytes,
        view t = { view trace with reread := bytes, complete := true } ∧
        bytes.length = snapshot.bytes ∧ readers.sha256 bytes = snapshot.hash)
      (fun _ left t ↦ left = own ∧ Rereads (view trace) (view t)) own trace := by
  have hkept : ∀ t, view t = view trace → Rereads (view trace) (view t) :=
    fun t hview ↦ hview ▸ Rereads.refl _
  have hclosing : Steady copy (do
      let current ← this.source snapshot.original
      Flow.require (unchanged current snapshot.before) "Replay bytes changed during verification"
      let copy ← identity snapshot.path
      Flow.require (independent copy && unchanged copy snapshot.identity)
        "Private replay snapshot changed" : Work String τ Unit) :=
    steady_source.bind fun _ ↦ (Steady.require _ _).bind fun _ ↦
      (steady_identity _).bind fun _ ↦ Steady.require _ _
  refine steady_source.bind_safe rfl hcalm (fun _ t hview ↦ ?_) fun _ t hview ↦ ⟨rfl, hkept t hview⟩
  refine (Steady.require _ _).bind_safe hview hcalm (fun _ t hview ↦ ?_)
    fun _ t hview ↦ ⟨rfl, hkept t hview⟩
  refine (Steady.request (.metadata .retained) (by simp [Passive])).bind_safe hview hcalm
    (fun _ t hview ↦ ?_) fun _ t hview ↦ ⟨rfl, hkept t hview⟩
  refine (steady_present _ _).bind_safe hview hcalm (fun _ t hview ↦ ?_)
    fun _ t hview ↦ ⟨rfl, hkept t hview⟩
  refine (Steady.require _ _).bind_safe hview hcalm (fun _ t hview ↦ ?_)
    fun _ t hview ↦ ⟨rfl, hkept t hview⟩
  have hcalm' : (view t).removals = 0 := by rw [hview, hcalm]
  refine Safe.bind (Safe.request (proper_of_calm hcalm') ?_)
  rintro sought t' ⟨world, -, rfl⟩
  cases sought with
  | false => exact Safe.bind (Safe.require (fun hsought ↦ absurd hsought (by decide))
      fun _ ↦ ⟨rfl, hkept t hview⟩)
  | true =>
    refine Safe.bind (Safe.require (fun _ ↦ ?_) fun hsought ↦ absurd rfl hsought)
    have hsought : view (.asked world .seek true :: t) =
        { view trace with reread := [], complete := false } :=
      congrArg (fun v : View ↦ ({ v with reread := [], complete := false } : View)) hview
    refine Safe.bind ((safe_rereadLoop (by rw [hsought]; exact hcalm) (by rw [hsought])).mono
      ?_ ?_)
    · rintro bytes left t' ⟨rfl, hend⟩
      rw [hsought] at hend
      have hreread : Rereads (view trace) (view t') := ⟨bytes, true, hend⟩
      refine Safe.bind (Safe.require (fun hsame ↦ ?_) fun _ ↦ ⟨rfl, hreread⟩)
      have hbytes : bytes.length = snapshot.bytes ∧ readers.sha256 bytes = snapshot.hash := by
        simpa using hsame
      exact hclosing.safe hend hcalm (fun _ _ hview ↦ ⟨rfl, bytes, hview, hbytes⟩)
        fun _ _ hview ↦ ⟨rfl, bytes, true, hview⟩
    · rintro _ left t' ⟨hown, hend⟩
      exact ⟨hown, Rereads.trans ⟨_, _, hsought⟩ hend⟩

end Reread

/-! ### The duty to remove the copy -/

section Duty

variable {copy : Path} {trace : List Event} {this : Verifier} {readers : Readers}
  {snapshot own : Snapshot} {v : View}

/-- The copy of a snapshot is there to be removed, and no helper left something behind. -/
structure Standing (copy : Path) (snapshot : Snapshot) (v : View) : Prop where
  path : snapshot.path = copy
  recorded : v.recorded = some snapshot.identity
  calm : v.removals = 0
  certain : v.uncertain = false

/-- A refusal that leaves the duty standing, or says that a helper left something behind. -/
def Owed (copy : Path) (error : VerifyError) (snapshot : Snapshot) (v : View) : Prop :=
  v.removals = 0 ∧ (error.cleanupUnconfirmed = false → Standing copy snapshot v)

/-- The copy was removed, was never there, or its fate is reported. -/
def Closed (copy : Path) (error : VerifyError) (trace : List Event) : Prop :=
  Proper copy trace ∧
    (error.cleanupUnconfirmed = true ∨ Removed copy trace ∨ (view trace).created = false)

theorem Standing.rereads {w : View} (hstanding : Standing copy snapshot v)
    (hrereads : Rereads v w) : Standing copy snapshot w := by
  obtain ⟨bytes, complete, rfl⟩ := hrereads
  exact ⟨hstanding.path, hstanding.recorded, hstanding.calm, hstanding.certain⟩

theorem Standing.owed (hstanding : Standing copy snapshot v) (error : VerifyError) :
    Owed copy error snapshot v :=
  ⟨hstanding.calm, fun _ ↦ hstanding⟩

variable {error : VerifyError}

theorem Closed.cons {world : World} {request : Request} {reply : request.Reply}
    (hclosed : Closed copy error trace) (hpassive : Passive request) :
    Closed copy error (.asked world request reply :: trace) := by
  obtain ⟨hproper, hfate⟩ := hclosed
  refine ⟨hproper.cons ?_, ?_⟩
  · rintro path rfl
    exact hpassive
  · rcases hfate with hreported | hremoved | habsent
    · exact .inl hreported
    · exact .inr (.inl (hremoved.cons _))
    · refine .inr (.inr ?_)
      rw [view, View.add_passive hpassive]
      exact habsent

/-- A cleanup removes the copy or reports its fate, and is not repeated. -/
theorem safe_cleanup (hcalm : (view trace).removals = 0)
    (hstanding : own.cleanupAllowed = true → Standing copy own (view trace)) :
    Snapshot.cleanup.Safe answers (Proper copy)
      (fun _ left t ↦ left.cleanupAllowed = false ∧ Proper copy t ∧ Removed copy t ∧
        view t = { view trace with removals := 1 })
      (fun error left t ↦ left.cleanupAllowed = false ∧ Proper copy t ∧
        error.cleanupUnconfirmed = true) own trace := by
  refine Safe.bind (Safe.getOwn ?_)
  refine Safe.bind (Safe.change ?_)
  refine Safe.bind (Safe.require (fun hallowed ↦ ?_)
    fun _ ↦ ⟨rfl, proper_of_calm hcalm, rfl⟩)
  obtain ⟨hpath, hrecorded, -, hcertain⟩ := hstanding hallowed
  refine Safe.bind (Safe.mapFault ?_)
  refine Safe.bind (Safe.request (proper_of_calm hcalm) ?_)
  rintro found t ⟨seen, hfound, rfl⟩
  have hcalm' : (view (.asked seen (.lookup own.path) found :: trace)).removals = 0 := hcalm
  cases found with
  | none => exact Safe.fail ⟨rfl, proper_of_calm hcalm', rfl⟩
  | some current =>
    refine Safe.pure ?_
    refine Safe.bind (Safe.require (fun hnames ↦ ?_)
      fun _ ↦ ⟨rfl, proper_of_calm hcalm', rfl⟩)
    refine Safe.bind (Safe.request (proper_of_calm hcalm') ?_)
    rintro removed t ⟨world, -, rfl⟩
    rw [hpath] at hfound hcalm' ⊢
    have hseen : seen copy = some current := by
      rcases hfound with hnone | hsome
      · exact absurd hnone (by simp)
      · exact hsome.symm
    have hproper : Proper copy (.asked world (.remove copy) removed ::
        .asked seen (.lookup copy) (some current) :: trace) := by
      have hlookup : Event.asked seen (.lookup copy) (some current) :: trace =
          .asked seen (.lookup copy) (seen copy) :: trace := by rw [hseen]
      refine proper_removal hlookup hcalm' hcertain hrecorded ?_ removed
      exact ⟨current, hseen, by simpa using hnames⟩
    cases removed with
    | false =>
      exact Safe.require (fun hremoved ↦ absurd hremoved Bool.false_ne_true)
        fun _ ↦ ⟨rfl, hproper, rfl⟩
    | true =>
      refine Safe.require (fun _ ↦ ⟨rfl, hproper, ⟨world, mem_cons_self⟩, ?_⟩)
        fun hremoved ↦ absurd rfl hremoved
      exact congrArg (fun n ↦ ({ view trace with removals := n + 1 } : View)) hcalm

/-- A refused piece of work is retired. -/
theorem safe_retireError (howed : Owed copy error snapshot (view trace)) :
    (Snapshot.retireError error snapshot).Safe answers (Proper copy)
      (fun result t ↦ result.2.cleanupAllowed = false ∧ Closed copy result.1 t) trace := by
  obtain ⟨hcalm, hstanding⟩ := howed
  unfold Snapshot.retireError
  refine Program.Safe.bind (Program.Safe.mono (safe_cleanup hcalm ?_) ?_)
  · split_ifs with hreported
    · exact fun hallowed ↦ hallowed.elim
    · exact fun _ ↦ hstanding (Bool.eq_false_iff.mpr hreported)
  · rintro ⟨result, left⟩ t hresult
    cases result with
    | ok value => exact ⟨hresult.1, hresult.2.1, .inr (.inl hresult.2.2.1)⟩
    | error cleanup => exact ⟨hresult.1, hresult.2.1, .inl rfl⟩

/-- The end of a piece of work on a copy: its value in the postcondition, or the copy retired. -/
def Ends {α : Type} (copy : Path) (post : α → View → Prop) :
    Except VerifyError α → List Event → Prop
  | .ok value, t => post value (view t)
  | .error error, t => Closed copy error t

theorem safe_orRetire {α β : Type} {work : Work VerifyError Snapshot α} {value : α → Snapshot → β}
    {post : β → View → Prop}
    (hwork : work.Safe answers (Proper copy) (fun result left t ↦ post (value result left) (view t))
      (fun error left t ↦ Owed copy error left (view t)) snapshot trace) :
    (Snapshot.orRetire work value snapshot).Safe answers (Proper copy) (Ends copy post) trace := by
  refine Program.Safe.bind (Program.Safe.mono hwork ?_)
  rintro ⟨result, left⟩ t hresult
  cases result with
  | ok value => exact hresult
  | error error =>
    exact Program.Safe.bind ((safe_retireError hresult).mono fun _ _ hend ↦ hend.2)

end Duty

/-! ### The calls on a copy -/

section Calls

variable {trace : List Event} {this : Verifier} {readers : Readers} {copy path : Path}
  {baseline : Baseline} {id : String} {snapshot own : Snapshot} {v : View}

/-- The snapshot records the bytes that were copied. -/
structure Faithful (readers : Readers) (path : Path) (snapshot : Snapshot) (v : View) : Prop where
  original : snapshot.original = path
  bytes : snapshot.bytes = v.copied.length
  hash : snapshot.hash = readers.sha256 v.copied
  written : v.written = v.copied

variable {u w : View} {α : Type} {verified : VerifiedSnapshot}

theorem Faithful.rereads (hfaithful : Faithful readers path snapshot v) (hrereads : Rereads v w) :
    Faithful readers path snapshot w := by
  obtain ⟨bytes, complete, rfl⟩ := hrereads
  exact ⟨hfaithful.original, hfaithful.bytes, hfaithful.hash, hfaithful.written⟩

theorem safe_plain {τ : Type} {x : Work String τ α} {own : τ} {ok : α → τ → List Event → Prop}
    {bad : VerifyError → τ → List Event → Prop}
    (hx : x.Safe answers (Proper copy) ok (fun message ↦ bad (.plain message)) own trace) :
    (Verifier.plain x).Safe answers (Proper copy) ok bad own trace :=
  Safe.mapFault hx

/-- What is copied is what was read and written. -/
theorem safe_copyLoop {hashed : List UInt8} (hstanding : Standing copy own (view trace))
    (hcopied : (view trace).copied = hashed) (hwritten : (view trace).written = hashed)
    (hbytes : own.bytes = hashed.length) :
    (Verifier.copyLoop hashed).Safe answers (Proper copy)
      (fun bytes left t ↦ left = { own with bytes := bytes.length } ∧
        view t = { view trace with copied := bytes, written := bytes })
      (fun _ left t ↦ Standing copy left (view t)) own trace := by
  induction hmeasure : MAX_BYTES - hashed.length using Nat.strong_induction_on
    generalizing hashed trace own with
  | h measure ih =>
    rw [Verifier.copyLoop]
    refine steady_budget.mapFault.bind_safe rfl hstanding.calm (fun _ t hview ↦ ?_)
      fun _ _ hview ↦ hview ▸ hstanding
    have hstanding' : Standing copy own (view t) := hview ▸ hstanding
    refine Safe.bind (Safe.request (proper_of_calm hstanding'.calm) ?_)
    rintro reply t' ⟨world, -, rfl⟩
    cases reply with
    | none => exact Safe.bind (Safe.fail hstanding')
    | some piece =>
      have hread : view (.asked world (.read .source) (some piece) :: t) =
          { view trace with copied := hashed ++ piece } := by
        rw [view, hview]
        exact congrArg (fun bytes ↦ ({ view trace with copied := bytes ++ piece } : View)) hcopied
      have hheld : ∀ n, Standing copy { own with bytes := n }
          (view (.asked world (.read .source) (some piece) :: t)) := by
        intro n
        rw [hread]
        exact ⟨hstanding.path, hstanding.recorded, hstanding.calm, hstanding.certain⟩
      refine Safe.bind (Safe.pure ?_)
      split_ifs with hempty hlong
      · subst hempty
        rw [append_nil] at hread
        refine Safe.pure ⟨?_, ?_⟩
        · rw [← hbytes]
        · rw [hread, ← hwritten]
      · exact Safe.bind (Safe.change (Safe.fail (hheld _)))
      · refine Safe.bind (Safe.change ?_)
        refine Safe.bind (Safe.request (proper_of_calm (hheld 0).calm) ?_)
        rintro written t'' ⟨world', -, rfl⟩
        cases written with
        | false =>
          exact Safe.bind (Safe.require
            (fun hwritten ↦ absurd hwritten Bool.false_ne_true) fun _ ↦ hheld _)
        | true =>
          refine Safe.bind (Safe.require (fun _ ↦ ?_) fun hnone ↦ absurd rfl hnone)
          have hwrite : view (.asked world' (.write piece) true ::
              .asked world (.read .source) (some piece) :: t) =
              { view trace with copied := hashed ++ piece, written := hashed ++ piece } := by
            rw [view, hread]
            exact congrArg (fun bytes ↦ ({ view trace with
              copied := hashed ++ piece, written := bytes ++ piece } : View)) hwritten
          have hpiece := length_pos_iff.mpr hempty
          have hshort : MAX_BYTES - (hashed ++ piece).length < measure := by
            rw [length_append] at hlong ⊢
            omega
          refine (ih _ hshort ?_ ?_ ?_ rfl rfl).mono ?_ ?_
          · rw [hwrite]
            exact ⟨hstanding.path, hstanding.recorded, hstanding.calm, hstanding.certain⟩
          · rw [hwrite]
          · rw [hwrite]
          · rintro bytes left last ⟨hown, hend⟩
            rw [hwrite] at hend
            exact ⟨hown, hend⟩
          · exact fun _ _ _ hend ↦ hend

/-- A finished copy has the bytes that were read. -/
theorem safe_copied (hstanding : Standing copy own (view trace)) (horiginal : own.original = path)
    (hbytes : own.bytes = 0) (hcopied : (view trace).copied = [])
    (hwritten : (view trace).written = []) :
    (this.copied readers).Safe answers (Proper copy)
      (fun _ left t ↦ Standing copy left (view t) ∧ Faithful readers path left (view t))
      (fun error left t ↦ Owed copy error left (view t)) own trace := by
  refine Safe.bind ((safe_copyLoop hstanding hcopied hwritten hbytes).mono ?_
    fun error _ _ hend ↦ hend.owed error)
  rintro hashed left t ⟨rfl, hview⟩
  have hheld : ∀ hash identity, (view t).recorded = some identity →
      Standing copy { own with bytes := hashed.length, hash := hash, identity := identity }
        (view t) := by
    rw [hview]
    exact fun _ _ hrecorded ↦
      ⟨hstanding.path, hrecorded, hstanding.calm, hstanding.certain⟩
  have hrecorded : (view t).recorded = some own.identity := by
    rw [hview]
    exact hstanding.recorded
  have hcalm := (hheld "" _ hrecorded).calm
  refine Safe.bind (Safe.change ?_)
  refine Safe.bind (Safe.request (proper_of_calm hcalm) ?_)
  rintro target t' ⟨world, -, rfl⟩
  cases target with
  | none => exact Safe.bind (Safe.fail ((hheld _ _ hrecorded).owed _))
  | some target =>
    have htarget : view (.asked world (.metadata .target) (some target) :: t) =
        { view t with recorded := some target } := rfl
    have hretaken : Standing copy { own with
        bytes := hashed.length
        hash := readers.sha256 hashed
        identity := target } (view (.asked world (.metadata .target) (some target) :: t)) := by
      obtain ⟨hpath, -, hcalm, hcertain⟩ := hheld (readers.sha256 hashed) _ hrecorded
      exact ⟨hpath, rfl, hcalm, hcertain⟩
    have hfaithful : Faithful readers path { own with
        bytes := hashed.length
        hash := readers.sha256 hashed
        identity := target } (view (.asked world (.metadata .target) (some target) :: t)) := by
      rw [htarget, hview]
      exact ⟨horiginal, rfl, rfl, rfl⟩
    refine Safe.bind (Safe.pure ?_)
    refine Safe.bind (Safe.change ?_)
    refine Safe.bind (Safe.getOwn ?_)
    refine Safe.bind (Safe.require (fun _ ↦ ?_) fun _ ↦ hretaken.owed _)
    refine safe_plain ((safe_recheck hretaken.calm).mono ?_ ?_)
    · rintro _ left t' ⟨rfl, bytes, hend, -⟩
      have hrereads : Rereads (view (.asked world (.metadata .target) (some target) :: t))
          (view t') := ⟨bytes, true, hend⟩
      exact ⟨hretaken.rereads hrereads, hfaithful.rereads hrereads⟩
    · rintro _ left t' ⟨rfl, hrereads⟩
      exact (hretaken.rereads hrereads).owed _

/-- A created copy is of a new path below the approved root; before it was created there is nothing
to remove. -/
theorem safe_createCopy (hview : view trace = view []) :
    (this.createCopy path baseline id).Safe answers (Proper (this.copyPath id))
      (fun snapshot _ t ↦ Standing (this.copyPath id) snapshot (view t) ∧
        snapshot.original = path ∧ snapshot.bytes = 0 ∧ (view t).copied = [] ∧
        (view t).written = [] ∧ path ∉ baseline.names ∧ Approved this path)
      (fun error _ t ↦ Closed (this.copyPath id) error t) () trace := by
  have habsent : ∀ error t, view t = view [] → Closed (this.copyPath id) error t := by
    intro error t hview
    exact ⟨proper_of_calm (congrArg View.removals hview), .inr (.inr (congrArg View.created hview))⟩
  refine steady_budget.mapFault.bind_safe hview rfl (fun _ t hview ↦ ?_) fun _ t ↦ habsent _ t
  refine Safe.bind (Safe.require (fun hfresh ↦ ?_) fun _ ↦ habsent _ t hview)
  refine Safe.bind (safe_plain ((safe_source (congrArg View.removals hview)).mono ?_ ?_))
  swap
  · rintro _ left t' ⟨-, hend⟩
    exact habsent _ t' (hend.trans hview)
  rintro before left t' ⟨-, hend, happroved⟩
  have hview := hend.trans hview
  refine (Steady.request (.openFile path) trivial).bind_safe hview rfl (fun _ t hview ↦ ?_)
    fun _ t ↦ habsent _ t
  refine (Steady.require _ _).bind_safe hview rfl (fun _ t hview ↦ ?_) fun _ t ↦ habsent _ t
  refine (Steady.request (.metadata .source) (by simp [Passive])).bind_safe hview rfl
    (fun _ t hview ↦ ?_) fun _ t ↦ habsent _ t
  refine (steady_present _ _).mapFault.bind_safe hview rfl (fun _ t hview ↦ ?_)
    fun _ t ↦ habsent _ t
  refine (Steady.require _ _).bind_safe hview rfl (fun _ t hview ↦ ?_) fun _ t ↦ habsent _ t
  refine (Steady.request .tryClone trivial).bind_safe hview rfl (fun _ t hview ↦ ?_)
    fun _ t ↦ habsent _ t
  refine (Steady.require _ _).bind_safe hview rfl (fun _ t hview ↦ ?_) fun _ t ↦ habsent _ t
  refine Safe.bind (Safe.request (habsent (.plain "") t hview).1 ?_)
  rintro created t' ⟨world, -, rfl⟩
  cases created with
  | false =>
    exact Safe.bind (Safe.require (fun hcreated ↦ absurd hcreated Bool.false_ne_true)
      fun _ ↦ habsent _ _ hview)
  | true =>
    refine Safe.bind (Safe.require (fun _ ↦ ?_) fun hcreated ↦ absurd rfl hcreated)
    have hcreated : view (.asked world (.create (this.copyPath id)) true :: t) =
        { view [] with created := true } :=
      congrArg (fun v : View ↦ ({ v with created := true } : View)) hview
    have hcalm := congrArg View.removals hcreated
    refine Safe.bind (Safe.request (proper_of_calm hcalm) ?_)
    rintro target t' ⟨world', -, rfl⟩
    cases target with
    | none => exact Safe.bind (Safe.fail ⟨proper_of_calm hcalm, .inl rfl⟩)
    | some target =>
      refine Safe.bind (Safe.pure (Safe.pure ?_))
      have htarget : view (.asked world' (.metadata .target) (some target) ::
          .asked world (.create (this.copyPath id)) true :: t) =
          { view [] with created := true, recorded := some target } :=
        congrArg (fun v : View ↦ ({ v with recorded := some target } : View)) hcreated
      rw [htarget]
      exact ⟨⟨rfl, rfl, rfl, rfl⟩, rfl, rfl, rfl, rfl, hfresh, happroved⟩

/-- A worker that is lost leaves the removals as they are. -/
theorem safe_spawnBlocking {worker : Program Request Request.Reply α}
    {post : Option α → List Event → Prop} (hproper : Proper copy trace)
    (hlost : ∀ t, Proper copy t → post none t)
    (hworker : ∀ t, view t = view trace → Proper copy t →
      worker.Safe answers (Proper copy) (fun value s ↦ Proper copy s ∧
        ∀ world joined, post (some value) (.asked world .joined joined :: s)) t) :
    (spawnBlocking worker).Safe answers (Proper copy) post trace := by
  refine ⟨hproper, ?_⟩
  rintro started t ⟨world, -, rfl⟩
  have hproper' : Proper copy (.asked world .spawn started :: trace) := hproper.cons (by simp)
  cases started with
  | false => exact hlost _ hproper'
  | true =>
    refine Program.Safe.bind ((hworker (.asked world .spawn true :: trace) rfl hproper').mono ?_)
    rintro value s ⟨hend, hpost⟩
    refine ⟨hend, ?_⟩
    rintro joined t ⟨world', -, rfl⟩
    cases joined with
    | false => exact hlost _ (hend.cons (by simp))
    | true => exact hpost world' true

/-- A snapshot whose copy stands: the path is new and below the approved root. -/
def Taken (this : Verifier) (readers : Readers) (path : Path) (baseline : Baseline) (id : String)
    (snapshot : Snapshot) (v : View) : Prop :=
  Standing (this.copyPath id) snapshot v ∧ Faithful readers path snapshot v ∧
    path ∉ baseline.names ∧ Approved this path

theorem safe_snapshot (hview : view trace = view []) :
    (this.snapshot readers path baseline id).Safe answers (Proper (this.copyPath id))
      (Ends (this.copyPath id) (Taken this readers path baseline id)) trace := by
  have hcalm := congrArg View.removals hview
  refine Program.Safe.bind (safe_spawnBlocking (proper_of_calm hcalm)
    (fun t hproper ↦ ⟨hproper, .inl rfl⟩) fun t hstart hproper ↦ ?_)
  refine Program.Safe.bind (Program.Safe.mono (safe_createCopy (hstart.trans hview)) ?_)
  rintro ⟨result, _⟩ t' hresult
  cases result with
  | error error => exact ⟨hresult.1, fun world joined ↦ hresult.cons trivial⟩
  | ok snapshot =>
    obtain ⟨hstanding, horiginal, hbytes, hcopied, hwritten, hfresh, happroved⟩ := hresult
    have hcopied : (Snapshot.orRetire (this.copied readers) (fun _ snapshot ↦ snapshot)
        snapshot).Safe answers (Proper (this.copyPath id))
          (Ends (this.copyPath id) (Taken this readers path baseline id)) t' :=
      safe_orRetire ((safe_copied hstanding horiginal hbytes hcopied hwritten).mono
        (fun _ _ _ hend ↦ ⟨hend.1, hend.2, hfresh, happroved⟩) fun _ _ _ hend ↦ hend)
    refine hcopied.mono fun result s hend ↦ ?_
    cases result with
    | error error => exact ⟨hend.1, fun world joined ↦ hend.cons trivial⟩
    | ok snapshot => exact ⟨proper_of_calm hend.1.calm, fun world joined ↦ hend⟩

/-- The evidence says what the snapshot records. -/
structure Attests (evidence : Evidence) (snapshot : Snapshot) : Prop where
  path : evidence.path = snapshot.original
  sha256 : evidence.sha256 = snapshot.hash
  bytes : evidence.bytes = snapshot.bytes

/-- A helper that fails may have left something behind; its error says so. -/
theorem owed_of_failed {error : MediaError} (hstanding : Standing copy own u) (hview : v = u)
    (hfailed : w = { v with uncertain := v.uncertain || error.cleanupIssue.isSome }) :
    Owed copy (.media error) own w := by
  subst hview hfailed
  refine ⟨hstanding.calm, fun hnone ↦ ⟨hstanding.path, hstanding.recorded, hstanding.calm, ?_⟩⟩
  have hclean : error.cleanupIssue.isSome = false := hnone
  simp [hstanding.certain, hclean]

theorem safe_verifySnapshot (hstanding : Standing copy own (view trace)) :
    (this.verifySnapshot readers).Safe answers (Proper copy)
      (fun evidence left t ↦ left = own ∧ view t = view trace ∧ Attests evidence own)
      (fun error left t ↦ Owed copy error left (view t)) own trace := by
  have howed : ∀ error t, view t = view trace → Owed copy error own (view t) :=
    fun error t hview ↦ hview ▸ hstanding.owed error
  have hcalm := hstanding.calm
  refine Safe.bind (Safe.getOwn ?_)
  refine steady_budget.mapFault.bind_safe rfl hcalm (fun _ t hview ↦ ?_) fun _ t ↦ howed _ t
  refine steady_check.mapFault.bind_safe hview hcalm (fun _ t hview ↦ ?_) fun _ t ↦ howed _ t
  have hproper : Proper copy t := proper_of_calm (by rw [hview, hcalm])
  refine Safe.bind (Safe.bind (Safe.request hproper ?_))
  rintro probed t' ⟨world, -, rfl⟩
  cases probed with
  | error error =>
    exact Safe.fail (owed_of_failed hstanding hview rfl)
  | ok data =>
    have hview : view (.asked world (.probe own.path) (.ok data) :: t) = view trace := hview
    refine Safe.pure ?_
    refine steady_budget.mapFault.bind_safe hview hcalm (fun _ t hview ↦ ?_) fun _ t ↦ howed _ t
    refine (steady_present _ _).mapFault.bind_safe hview hcalm (fun _ t hview ↦ ?_)
      fun _ t ↦ howed _ t
    refine (Steady.ofExcept _).mapFault.bind_safe hview hcalm (fun found t hview ↦ ?_)
      fun _ t ↦ howed _ t
    have hproper : Proper copy t := proper_of_calm (by rw [hview, hcalm])
    refine Safe.bind (Safe.bind (Safe.request hproper ?_))
    rintro decoded t' ⟨world', -, rfl⟩
    cases decoded with
    | error error =>
      exact Safe.fail (owed_of_failed hstanding hview rfl)
    | ok done =>
      have hview : view (.asked world' (.decode own.path) (.ok done) :: t) = view trace := hview
      refine Safe.pure ?_
      refine steady_budget.mapFault.bind_safe hview hcalm (fun _ t hview ↦ ?_)
        fun _ t ↦ howed _ t
      exact Safe.pure ⟨rfl, hview, rfl, rfl, rfl⟩

/-- A verified copy whose evidence is that of the snapshot. -/
def Verified (this : Verifier) (readers : Readers) (path : Path) (baseline : Baseline) (id : String)
    (verified : VerifiedSnapshot) (v : View) : Prop :=
  Taken this readers path baseline id verified.snapshot v ∧
    Attests verified.evidence verified.snapshot

theorem safe_verify (htaken : Taken this readers path baseline id snapshot (view trace)) :
    (this.verify readers snapshot).Safe answers (Proper (this.copyPath id))
      (Ends (this.copyPath id) (Verified this readers path baseline id)) trace := by
  refine safe_orRetire ((safe_verifySnapshot htaken.1).mono ?_ fun _ _ _ hend ↦ hend)
  rintro evidence left t ⟨rfl, hview, hattests⟩
  exact ⟨hview ▸ htaken, hattests⟩

/-- The evidence is that of a new path below the approved root, whose bytes were copied and, up to
the end of the file, read again. -/
structure Proven (this : Verifier) (readers : Readers) (path : Path) (baseline : Baseline)
    (evidence : Evidence) (v : View) : Prop where
  fresh : path ∉ baseline.names
  approved : Approved this path
  path : evidence.path = path
  copied : evidence.bytes = v.copied.length ∧ evidence.sha256 = readers.sha256 v.copied
  written : v.written = v.copied
  reread : evidence.bytes = v.reread.length ∧ evidence.sha256 = readers.sha256 v.reread
  complete : v.complete = true

/-- The end of a call that ends a copy. -/
def Retired {α : Type} (copy : Path) (post : α → View → Prop) :
    Except VerifyError α → List Event → Prop
  | .ok value, t => Proper copy t ∧ Removed copy t ∧ post value (view t)
  | .error error, t => Closed copy error t

theorem safe_discard (hverified : Verified this readers path baseline id verified (view trace)) :
    (Verifier.discard verified).Safe answers (Proper (this.copyPath id))
      (Retired (this.copyPath id) fun _ _ ↦ True) trace := by
  obtain ⟨⟨hstanding, -⟩, -⟩ := hverified
  refine Program.Safe.bind (Program.Safe.mono (safe_cleanup hstanding.calm fun _ ↦ hstanding) ?_)
  rintro ⟨result, left⟩ t hresult
  cases result with
  | ok value => exact ⟨hresult.2.1, hresult.2.2.1, trivial⟩
  | error error => exact ⟨hresult.2.1, .inl hresult.2.2⟩

theorem safe_finish (hverified : Verified this readers path baseline id verified (view trace)) :
    (this.finish readers verified).Safe answers (Proper (this.copyPath id))
      (Retired (this.copyPath id) (Proven this readers path baseline)) trace := by
  obtain ⟨⟨hstanding, hfaithful, hfresh, happroved⟩, hattests⟩ := hverified
  refine Program.Safe.bind (safe_spawnBlocking (proper_of_calm hstanding.calm)
    (fun t hproper ↦ ⟨hproper, .inl rfl⟩) fun t hstart hproper ↦ ?_)
  have hcalm : (view t).removals = 0 := by rw [hstart, hstanding.calm]
  refine Program.Safe.mono (safe_recheck hcalm) ?_
  rintro ⟨result, own⟩ s hresult
  cases result with
  | error message =>
    obtain ⟨-, hrereads⟩ := hresult
    rw [hstart] at hrereads
    have hheld : Standing (this.copyPath id) verified.snapshot (view s) :=
      hstanding.rereads hrereads
    refine ⟨proper_of_calm hheld.calm, fun world joined ↦ ?_⟩
    have howed : Owed (this.copyPath id) (.plain message) verified.snapshot
        (view (.asked world .joined joined :: s)) := hheld.owed _
    exact Program.Safe.bind ((safe_retireError howed).mono fun _ _ hend ↦ hend.2)
  | ok done =>
    obtain ⟨-, bytes, hend, hlength, hhash⟩ := hresult
    rw [hstart] at hend
    have hrereads : Rereads (view trace) (view s) := ⟨bytes, true, hend⟩
    have hheld : Standing (this.copyPath id) verified.snapshot (view s) :=
      hstanding.rereads hrereads
    have hread := hfaithful.rereads hrereads
    refine ⟨proper_of_calm hheld.calm, fun world joined ↦ ?_⟩
    refine Program.Safe.bind (Program.Safe.mono (safe_cleanup hheld.calm fun _ ↦ hheld) ?_)
    rintro ⟨cleaned, left⟩ t' hcleaned
    cases cleaned with
    | error error => exact ⟨hcleaned.2.1, .inl hcleaned.2.2⟩
    | ok value =>
      obtain ⟨-, hproper', hremoved, hview⟩ := hcleaned
      have hview : view t' = { view s with removals := 1 } := hview
      refine ⟨hproper', hremoved, hfresh, happroved, hattests.path.trans hread.original, ?_, ?_, ?_,
        ?_⟩
      · rw [hview]
        exact ⟨hattests.bytes.trans hread.bytes, hattests.sha256.trans hread.hash⟩
      · rw [hview]
        exact hread.written
      · rw [hview, hend]
        exact ⟨hattests.bytes.trans hlength.symm, hattests.sha256.trans hhash.symm⟩
      · rw [hview, hend]

/-- What holds where a chain of calls ends: a refusal has closed the copy, and otherwise it was
removed. -/
def Settled (this : Verifier) (readers : Readers) (path : Path) (baseline : Baseline) (id : String)
    (outcome : Verifier.Outcome) (trace : List Event) : Prop :=
  match outcome with
  | .refused error => Closed (this.copyPath id) error trace
  | .finished evidence => Proper (this.copyPath id) trace ∧ Removed (this.copyPath id) trace ∧
      Proven this readers path baseline evidence (view trace)
  | .discarded => Proper (this.copyPath id) trace ∧ Removed (this.copyPath id) trace

theorem chain_safe (ending : Verifier.Ending) :
    (this.chain readers path baseline id ending).Safe answers (Proper (this.copyPath id))
      (Settled this readers path baseline id) [] := by
  refine Program.Safe.bind ((safe_snapshot rfl).mono fun result t hsnapshot ↦ ?_)
  cases result with
  | error error => exact hsnapshot
  | ok snapshot =>
    refine Program.Safe.bind ((safe_verify hsnapshot).mono fun result t hverify ↦ ?_)
    cases result with
    | error error => exact hverify
    | ok verified =>
      cases ending with
      | finish =>
        refine Program.Safe.bind ((safe_finish hverify).mono fun result t hfinish ↦ ?_)
        cases result with
        | error error => exact hfinish
        | ok evidence => exact hfinish
      | discard =>
        refine Program.Safe.bind ((safe_discard hverify).mono fun result t hdiscard ↦ ?_)
        cases result with
        | error error => exact hdiscard
        | ok done => exact ⟨hdiscard.1, hdiscard.2.1⟩

end Calls

end ObsMcp.ReplayFiles
