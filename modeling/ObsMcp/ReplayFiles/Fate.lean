import ObsMcp.ReplayFiles.Retirement

/-!
# The fate of a private copy

`copy_is_accounted` is what holds of every chain of calls on a private copy, whatever the file
system does: the copy is removed at most once, and directly behind a lookup that named it; when the
chain ends the copy is gone, was never there, or its fate is reported; and what is published has the
bytes that were copied and read again. Once a call has reported an unconfirmed cleanup, no later one
on the snapshot removes anything.

A file that takes the place of the copy between the lookup and the removal is removed
(`removal_of_replacement`): the two are two calls of the file system.
-/

namespace ObsMcp.ReplayFiles

open Foundations

open Program (Run)

/-! ### Calls after a report -/

/-- A call on a snapshot that may remove the copy. -/
inductive Retirement
  | cleanup
  | retireError (error : VerifyError)

/-- The error that the call reports, if any, and the snapshot as it leaves it. -/
def Retirement.perform : Retirement → Snapshot →
    Program Request Request.Reply (Option VerifyError × Snapshot)
  | cleanup, snapshot => (Snapshot.cleanup snapshot).bind fun
    | (.ok (), left) => .done (none, left)
    | (.error error, left) => .done (some error, left)
  | retireError error, snapshot => (Snapshot.retireError error snapshot).bind fun (error, left) ↦
    .done (some error, left)

/-- The calls, one after the other. -/
def performAll : List Retirement → Snapshot → Program Request Request.Reply Snapshot
  | [], snapshot => .done snapshot
  | call :: calls, snapshot => (call.perform snapshot).bind fun (_, left) ↦ performAll calls left

/-- The request removes nothing. -/
def Harmless (request : Request) : Prop :=
  ∀ path, request ≠ .remove path

section Reports

variable {snapshot : Snapshot} {trace : List Event}

/-- A snapshot whose cleanup is not allowed is left as it is. -/
theorem perform_of_disallowed (hdisallowed : snapshot.cleanupAllowed = false)
    (call : Retirement) : ∃ error left, call.perform snapshot = .done (some error, left) ∧
      left.cleanupAllowed = false := by
  obtain ⟨original, before, path, identity, hash, bytes, allowed⟩ := snapshot
  subst hdisallowed
  cases call with
  | cleanup => exact ⟨_, _, rfl, rfl⟩
  | retireError error =>
    obtain ⟨message, reported⟩ := error
    cases reported <;> exact ⟨_, _, rfl, rfl⟩

theorem uses_performAll (hdisallowed : snapshot.cleanupAllowed = false)
    (calls : List Retirement) : (performAll calls snapshot).Uses Harmless := by
  induction calls generalizing snapshot with
  | nil => trivial
  | cons call calls ih =>
    obtain ⟨error, left, hperform, hleft⟩ := perform_of_disallowed hdisallowed call
    rw [performAll, hperform]
    exact ih hleft

/-- A cleanup is not allowed after one. -/
theorem safe_disallows : Snapshot.cleanup.Safe answers (fun _ ↦ True)
    (fun _ left _ ↦ left.cleanupAllowed = false) (fun _ left _ ↦ left.cleanupAllowed = false)
    snapshot trace := by
  refine Flow.Safe.bind (Flow.Safe.getOwn (Flow.Safe.bind (Flow.Safe.change ?_)))
  refine Flow.Safe.bind (Flow.Safe.require (fun _ ↦ ?_) fun _ ↦ rfl)
  refine Flow.Safe.bind (Flow.Safe.mapFault (Flow.Safe.bind (Flow.Safe.request trivial ?_)))
  refine fun found t _ ↦ Flow.Safe.ofExcept (fun current _ ↦ ?_) fun _ _ ↦ rfl
  refine Flow.Safe.bind (Flow.Safe.require (fun _ ↦ ?_) fun _ ↦ rfl)
  exact Flow.Safe.bind (Flow.Safe.request trivial fun _ _ _ ↦
    Flow.Safe.require (fun _ ↦ rfl) fun _ ↦ rfl)

theorem safe_perform (call : Retirement) : (call.perform snapshot).Safe answers (fun _ ↦ True)
    (fun result _ ↦ result.2.cleanupAllowed = false) trace := by
  cases call with
  | cleanup =>
    refine Program.Safe.bind (Program.Safe.mono safe_disallows ?_)
    rintro ⟨result, left⟩ t hresult
    cases result <;> exact hresult
  | retireError error =>
    refine Program.Safe.bind (Program.Safe.bind (Program.Safe.mono safe_disallows ?_))
    rintro ⟨result, left⟩ t hresult
    cases result <;> exact hresult

end Reports

/-! ### A studio -/

section Studio

def clips : Path := [.rootDir, .normal "clips"]

def clip : Path := [.rootDir, .normal "clips", .normal "a.mkv"]

def directory : Metadata := ⟨1, 1, 0, none, .dir, 2⟩

/-- A file of one byte. -/
def file (ino : UInt64) : Metadata := ⟨1, ino, 1, none, .file, 1⟩

def studio : Verifier where
  root := clips
  rootIdentity := directory
  work := [.rootDir, .normal "work"]
  workIdentity := directory
  ffmpeg := [.rootDir, .normal "ffmpeg"]
  ffmpegIdentity := file 2
  ffprobe := [.rootDir, .normal "ffprobe"]
  ffprobeIdentity := file 2

/-- The files of the studio, with a file of the given number at the path of the copy. -/
def files (ino : UInt64) : World := fun path ↦
  if path = clips ∨ path = studio.work then some directory
  else if path = clip then some (file 3)
  else if path = studio.copyPath "0" then some (file ino)
  else some (file 2)

/-- The replies in the studio, and the number of the file at the path of the copy. When the studio
is hostile, the operation is cancelled once there is a copy, and another file takes its place just
before it is removed. -/
def reply (hostile : Bool) (v : View) : (request : Request) → request.Reply × UInt64
  | .overdue => (hostile && v.created, 4)
  | .lookup path => (files 4 path, 4)
  | .canonicalize path => (some path, 4)
  | .openFile _ => (true, 4)
  | .tryClone => (true, 4)
  | .create _ => (true, 4)
  | .metadata .target => (some (file 4), 4)
  | .metadata _ => (some (file 3), 4)
  | .read .source => (some (if v.copied = [] then [7] else []), 4)
  | .read _ => (some (if v.reread = [] then [7] else []), 4)
  | .write _ => (true, 4)
  | .seek => (true, 4)
  | .remove _ => (true, if hostile then 5 else 4)
  | .probe _ => (.ok [], 4)
  | .decode _ => (.ok (), 4)
  | .spawn => (true, 4)
  | .joined => (true, 4)

def respond (hostile : Bool) (trace : List Event) (request : Request) :
    Option (request.Reply × List Event) :=
  let answer := reply hostile (view trace) request
  some (answer.1, .asked (files answer.2) request answer.1 :: trace)

variable {hostile : Bool} {trace : List Event}

theorem answers_respond (trace : List Event) (request : Request) (answer : request.Reply)
    (next : List Event) (hrespond : respond hostile trace request = some (answer, next)) :
    answers trace request answer next := by
  cases hrespond
  refine ⟨_, ?_, rfl⟩
  cases request with
  | lookup path => exact .inr rfl
  | _ => trivial

/-- Every digest is empty and every probe tells of one second of one small video. -/
def readers : Readers where
  sha256 _ := ""
  json _ := some (.object [("format", .object [("duration", .string "1")]), ("streams", .array
    [.object [("codec_type", .string "video"), ("height", .number (.posInt 1)),
      ("width", .number (.posInt 1))]])])
  float _ := some 1.0

/-- The run of the calls on the clip. -/
def played (hostile : Bool) : Option (Verifier.Outcome × List Event) :=
  (studio.chain readers clip ⟨[]⟩ "0" .finish).exec (respond hostile) []

theorem run_played {outcome : Verifier.Outcome} (hplayed : played hostile = some (outcome, trace)) :
    Run answers (studio.chain readers clip ⟨[]⟩ "0" .finish) [] (some outcome) trace :=
  Program.run_of_exec answers_respond hplayed

/-- The last removal of a trace that ends with one, by a worker, is of another file than the
recorded one. -/
def removesOther : List Event → Bool
  | .asked _ .joined _ :: .asked world (.remove path) _ :: older =>
    (view older).recorded.any fun identity ↦ (world path).all fun current ↦ !same current identity
  | _ => false

theorem exists_of_removesOther (hother : removesOther trace = true) :
    ∃ newer world path reply older identity,
      trace = newer ++ .asked world (.remove path) reply :: older ∧
      (view older).recorded = some identity ∧ ¬Names (world path) identity := by
  unfold removesOther at hother
  split at hother
  · rename_i world joined world' path reply older
    obtain ⟨identity, hrecorded, hall⟩ := (Option.any_eq_true _ _).mp hother
    refine ⟨[_], world', path, reply, older, identity, rfl, hrecorded, ?_⟩
    rintro ⟨current, hcurrent, hsame, -⟩
    rw [hcurrent] at hall
    simp [hsame] at hall
  · exact absurd hother (by decide)

/-- A file that takes the place of the copy between the lookup and the removal is removed. -/
theorem removal_of_replacement : ∃ outcome trace,
    Run answers (studio.chain readers clip ⟨[]⟩ "0" .finish) [] (some outcome) trace ∧
    ∃ newer world path reply older identity,
      trace = newer ++ .asked world (.remove path) reply :: older ∧
      (view older).recorded = some identity ∧ ¬Names (world path) identity := by
  have hplayed : (played true).any (fun played ↦ removesOther played.2) = true := by
    decide +kernel
  obtain ⟨⟨outcome, trace⟩, hrun, hother⟩ := (Option.any_eq_true _ _).mp hplayed
  exact ⟨outcome, trace, run_played hrun, exists_of_removesOther hother⟩

end Studio

/-! ### Every chain of calls -/

/-- Whatever the surroundings do, a private copy is removed at most once and directly behind a
lookup that named it; where a chain of calls ends it is gone, was never there, or its fate is
reported; and the bytes that are published were copied and read again. -/
theorem copy_is_accounted (this : Verifier) (readers : Readers) (path : Path) (baseline : Baseline)
    (id : String) (ending : Verifier.Ending) {result : Option Verifier.Outcome}
    {trace : List Event}
    (hrun : Run answers (this.chain readers path baseline id ending) [] result trace) :
    (view trace).removals ≤ 1 ∧ Proper (this.copyPath id) trace ∧
    (∀ outcome, result = some outcome →
      Removed (this.copyPath id) trace ∨ (view trace).created = false ∨
      ∃ error, outcome = .refused error ∧ error.cleanupUnconfirmed = true) ∧
    (∀ evidence, result = some (.finished evidence) →
      Proven this readers path baseline evidence (view trace)) ∧
    (∀ (call : Retirement) (snapshot left : Snapshot) (error : VerifyError) (before after),
      Run answers (call.perform snapshot) before (some (some error, left)) after →
      error.cleanupUnconfirmed = true → ∀ calls, (performAll calls left).Uses Harmless) ∧
    ∀ (error : VerifyError) (snapshot : Snapshot), error.cleanupUnconfirmed = true →
      (Snapshot.retireError error snapshot).Uses Harmless := by
  obtain ⟨hend, hstop⟩ := Program.Safe.of_run (chain_safe ending) hrun
  have hproper : Proper (this.copyPath id) trace := by
    cases result with
    | none => exact hstop rfl
    | some outcome =>
      have hsettled := hend outcome rfl
      cases outcome with
      | refused error => exact hsettled.1
      | finished evidence => exact hsettled.1
      | discarded => exact hsettled.1
  refine ⟨hproper.removals_le, hproper, ?_, ?_, ?_, ?_⟩
  · rintro outcome rfl
    have hsettled := hend outcome rfl
    cases outcome with
    | refused error =>
      rcases hsettled.2 with hreported | hremoved | habsent
      · exact .inr (.inr ⟨error, rfl, hreported⟩)
      · exact .inl hremoved
      · exact .inr (.inl habsent)
    | finished evidence => exact .inl hsettled.2.1
    | discarded => exact .inl hsettled.2
  · rintro evidence rfl
    exact (hend _ rfl).2.2
  · intro call snapshot left error before after hperform _ calls
    exact uses_performAll ((safe_perform call).of_run hperform |>.1 _ rfl) calls
  · rintro ⟨message, reported⟩ snapshot hreported
    have hreported : reported = true := hreported
    subst hreported
    trivial

def Verifier.Outcome.isFinished : Verifier.Outcome → Bool
  | .finished _ => true
  | _ => false

theorem copy_is_accounted_finished : ∃ evidence trace,
    Run answers (studio.chain readers clip ⟨[]⟩ "0" .finish) [] (some (.finished evidence)) trace ∧
    (view trace).removals ≤ 1 ∧ Proper (studio.copyPath "0") trace ∧
    Proven studio readers clip ⟨[]⟩ evidence (view trace) := by
  have hplayed : (played false).any (fun played ↦ played.1.isFinished) = true := by
    decide +kernel
  obtain ⟨⟨outcome, trace⟩, hrun, hfinished⟩ := (Option.any_eq_true _ _).mp hplayed
  cases outcome with
  | finished evidence =>
    obtain ⟨honce, hproper, -, hproven, -⟩ :=
      copy_is_accounted studio readers clip ⟨[]⟩ "0" .finish (run_played hrun)
    exact ⟨evidence, trace, run_played hrun, honce, hproper, hproven evidence rfl⟩
  | refused error => exact absurd hfinished Bool.false_ne_true
  | discarded => exact absurd hfinished Bool.false_ne_true

end ObsMcp.ReplayFiles
