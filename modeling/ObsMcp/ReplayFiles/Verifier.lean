import ObsMcp.Foundations.Json
import ObsMcp.Foundations.Program
import ObsMcp.Media.Driver

/-!
# The verification of a saved replay

A saved replay is verified on a private copy. `snapshot` copies the file under the approved root,
`verify` shows the copy to the helpers and `finish` or `discard` ends it; a refusal retires the
copy. What is asked of the file system, the helpers and the clock is a `Request`, and the replies
are the surroundings': any file can be another one at the next request. The file system as it stands
at a request is a `World`, and only a lookup has to tell the truth about it.
-/

namespace ObsMcp.ReplayFiles

open Foundations List

open Media (MediaError)

/-! ### Paths and metadata -/

inductive Component
  | rootDir
  | curDir
  | parentDir
  | normal (name : String)
  deriving DecidableEq

/-- A path as its components, by which paths are compared. -/
abbrev Path := List Component

/-- The components of a relative path. -/
def components (text : String) : Path :=
  ((text.toList.splitOn '/').map String.ofList).filterMap fun part ↦
    if part = "" ∨ part = "." then none
    else if part = ".." then some .parentDir
    else some (.normal part)

/-- `Path::join` of a relative path. -/
def join (path : Path) (name : String) : Path :=
  path ++ components name

def normalized (path : Path) : Bool :=
  path.head? = some .rootDir && !path.any fun part ↦ part = .curDir || part = .parentDir

inductive Kind
  | file
  | dir
  | symlink
  | other
  deriving DecidableEq

structure Metadata where
  dev : UInt64
  ino : UInt64
  len : ℕ
  modified : Option Int
  kind : Kind
  nlink : UInt64
  deriving DecidableEq

def same (a b : Metadata) : Bool :=
  a.dev = b.dev && a.ino = b.ino

def unchanged (a b : Metadata) : Bool :=
  same a b && a.len = b.len && a.modified = b.modified

def independent (m : Metadata) : Bool :=
  m.kind = .file && m.nlink = 1

/-! ### Requests -/

/-- The open descriptors: the source, its clone and the private copy. -/
inductive Descriptor
  | source
  | retained
  | target
  deriving DecidableEq

/-- What the verification asks: `overdue` whether the deadline is over or the operation cancelled,
`probe` and `decode` a helper process on a file, `spawn` and `joined` the start and the end of a
worker. -/
inductive Request
  | overdue
  | lookup (path : Path)
  | canonicalize (path : Path)
  | openFile (path : Path)
  | tryClone
  | create (path : Path)
  | metadata (descriptor : Descriptor)
  | read (descriptor : Descriptor)
  | write (piece : List UInt8)
  | seek
  | remove (path : Path)
  | probe (path : Path)
  | decode (path : Path)
  | spawn
  | joined

@[reducible] def Request.Reply : Request → Type
  | overdue => Bool
  | lookup _ => Option Metadata
  | canonicalize _ => Option Path
  | openFile _ => Bool
  | tryClone => Bool
  | create _ => Bool
  | metadata _ => Option Metadata
  | read _ => Option (List UInt8)
  | write _ => Bool
  | seek => Bool
  | remove _ => Bool
  | probe _ => Except MediaError (List UInt8)
  | decode _ => Except MediaError Unit
  | spawn => Bool
  | joined => Bool

/-- The files by their paths. -/
abbrev World := Path → Option Metadata

/-- A request with the files as they stood and its reply. -/
inductive Event
  | asked (world : World) (request : Request) (reply : request.Reply)

/-- What a request can be answered: a lookup with the file or a failure, the others with
anything. -/
def Truthful (world : World) : (request : Request) → request.Reply → Prop
  | .lookup path, reply => reply = none ∨ reply = world path
  | _, _ => True

/-- The surroundings as a trace, newest first. The files can be others at each request. -/
def answers (trace : List Event) (request : Request) (reply : request.Reply)
    (next : List Event) : Prop :=
  ∃ world, Truthful world request reply ∧ next = .asked world request reply :: trace

/-- A program with a local state. -/
abbrev Work (ε τ α : Type) := Flow Request Request.Reply ε τ α

/-! ### The verifier -/

def MAX_BYTES : ℕ := 512 * 1024 * 1024

structure Verifier where
  root : Path
  rootIdentity : Metadata
  work : Path
  workIdentity : Metadata
  ffmpeg : Path
  ffmpegIdentity : Metadata
  ffprobe : Path
  ffprobeIdentity : Metadata

structure Baseline where
  names : List Path

structure Snapshot where
  original : Path
  before : Metadata
  path : Path
  identity : Metadata
  hash : String
  bytes : ℕ
  cleanupAllowed : Bool

structure VerifyError where
  message : String
  cleanupUnconfirmed : Bool

/-- The error of a plain message. -/
def VerifyError.plain (message : String) : VerifyError :=
  ⟨message, false⟩

def VerifyError.unconfirmed (message : String) : VerifyError :=
  ⟨message, true⟩

def VerifyError.media (error : MediaError) : VerifyError where
  message := error.message ++
    (error.cleanupIssue.map fun issue ↦ "; cleanup unconfirmed: " ++ issue).getD ""
  cleanupUnconfirmed := error.cleanupIssue.isSome

structure Evidence where
  path : Path
  sha256 : String
  bytes : ℕ
  durationSeconds : Float
  audioStreams : ℕ
  videoStreams : ℕ

structure VerifiedSnapshot where
  snapshot : Snapshot
  evidence : Evidence

/-- The digest of bytes, the parser of JSON and that of decimal numbers. -/
structure Readers where
  sha256 : List UInt8 → String
  json : List UInt8 → Option Json
  float : String → Option Float

section Checks

variable {τ : Type}

def budget : Work String τ Unit := do
  let overdue ← Flow.request .overdue
  Flow.require (overdue = false) "Replay verification cancelled or original deadline expired"

/-- The value, unless it is missing. -/
def present {α : Type} (value : Option α) (message : String) : Work String τ α :=
  Flow.ofExcept (value.elim (.error message) .ok)

def identity (path : Path) : Work String τ Metadata := do
  let found ← Flow.request (.lookup path)
  present found "Replay filesystem identity is unavailable"

def checkEntries : List (Path × Metadata) → Work String τ Unit
  | [] => pure ()
  | (path, before) :: entries => do
    let current ← identity path
    Flow.require (same before current && current.kind ≠ .symlink &&
        (before.kind ≠ .file || unchanged before current))
      "Replay root, workspace or media executable identity changed"
    checkEntries entries

namespace Verifier

variable (this : Verifier)

def check : Work String τ Unit :=
  checkEntries [(this.root, this.rootIdentity), (this.work, this.workIdentity),
    (this.ffmpeg, this.ffmpegIdentity), (this.ffprobe, this.ffprobeIdentity)]

/-- The directories between the root and the file. -/
def checkParents (directory : Path) : List Component → Work String τ Unit
  | [] => pure ()
  | part :: parts => do
    let directory := directory ++ [part]
    let info ← identity directory
    Flow.require (info.kind = .dir) "Replay parent is not a canonical independent directory"
    let canonical ← Flow.request (.canonicalize directory)
    Flow.require (canonical = some directory)
      "Replay parent is not a canonical independent directory"
    checkParents directory parts

def source (path : Path) : Work String τ Metadata := do
  this.check
  Flow.require (normalized path && this.root.isPrefixOf path && path ≠ this.root)
    "Replay file is outside the approved recording root"
  checkParents this.root (path.drop this.root.length).dropLast
  let info ← identity path
  Flow.require (independent info && info.len ≠ 0 && info.len ≤ MAX_BYTES)
    "Replay must be a nonempty independent regular file of at most 512 MiB"
  pure info

end Verifier

end Checks

/-! ### Retirement -/

namespace Snapshot

/-- Retries are disabled before the path is looked up, and stay so. -/
def cleanup : Work VerifyError Snapshot Unit := do
  let snapshot ← Flow.getOwn
  Flow.change fun own ↦ { own with cleanupAllowed := false }
  Flow.require (snapshot.cleanupAllowed = true) (.unconfirmed
    ("Replay snapshot cleanup withheld because helper or filesystem cleanup is " ++
      "unconfirmed"))
  let current ← Flow.mapFault (fun _ ↦ .unconfirmed
      "Replay snapshot cleanup identity is unavailable; cleanup withheld")
    (ReplayFiles.identity snapshot.path)
  Flow.require (same current snapshot.identity && independent current) (.unconfirmed
    "Replay snapshot cleanup identity is unconfirmed; cleanup withheld")
  let removed ← Flow.request (.remove snapshot.path)
  Flow.require (removed = true) (.unconfirmed "Replay snapshot cleanup is unconfirmed")

/-- The error of a refusal, merged with that of the cleanup. -/
def retireError (error : VerifyError) (snapshot : Snapshot) :
    Program Request Request.Reply (VerifyError × Snapshot) :=
  let snapshot := if error.cleanupUnconfirmed then { snapshot with cleanupAllowed := false }
    else snapshot
  (cleanup snapshot).bind fun
    | (.ok (), snapshot) => .done (error, snapshot)
    | (.error cleanup, snapshot) =>
      .done (⟨error.message ++ "; " ++ cleanup.message, true⟩, snapshot)

/-- A piece of work on a snapshot, which is retired when it is refused. -/
def orRetire {α β : Type} (work : Work VerifyError Snapshot α) (value : α → Snapshot → β)
    (snapshot : Snapshot) : Program Request Request.Reply (Except VerifyError β) :=
  (work snapshot).bind fun
    | (.ok result, snapshot) => .done (.ok (value result snapshot))
    | (.error error, snapshot) =>
      (retireError error snapshot).bind fun (error, _) ↦ .done (.error error)

end Snapshot

/-- The value of a blocking worker, unless it is lost. -/
def spawnBlocking {α : Type} (worker : Program Request Request.Reply α) :
    Program Request Request.Reply (Option α) :=
  .ask .spawn fun started ↦
    if started then worker.bind fun value ↦ .ask .joined fun joined ↦
      .done (if joined then some value else none)
    else .done none

namespace Verifier

variable (this : Verifier) (readers : Readers)

/-! ### The second reading -/

/-- The bytes of the retained descriptor behind those that were read. -/
def rereadLoop {τ : Type} (hashed : List UInt8) : Work String τ (List UInt8) := do
  budget
  let piece ← Flow.request (.read .retained)
  let piece ← present piece "Replay recheck failed"
  if _hempty : piece = [] then pure hashed
  else if _hlong : MAX_BYTES < (hashed ++ piece).length then
    Flow.fail "Replay grew during verification"
  else rereadLoop (hashed ++ piece)
termination_by MAX_BYTES - hashed.length
decreasing_by
  have hpiece := length_pos_iff.mpr _hempty
  rw [length_append] at _hlong ⊢
  omega

/-- The source and the private copy are those of the snapshot, and the source has its bytes. -/
def recheck {τ : Type} (snapshot : Snapshot) : Work String τ Unit := do
  let current ← this.source snapshot.original
  Flow.require (unchanged current snapshot.before)
    "Replay source identity, size or modification time changed"
  let descriptor ← Flow.request (.metadata .retained)
  let descriptor ← present descriptor "Replay descriptor unavailable"
  Flow.require (unchanged descriptor snapshot.before)
    "Replay source identity, size or modification time changed"
  let sought ← Flow.request .seek
  Flow.require (sought = true) "Replay descriptor seek failed"
  let hashed ← rereadLoop []
  Flow.require (hashed.length = snapshot.bytes && readers.sha256 hashed = snapshot.hash)
    "Replay bytes changed during verification"
  let current ← this.source snapshot.original
  Flow.require (unchanged current snapshot.before) "Replay bytes changed during verification"
  let copy ← identity snapshot.path
  Flow.require (independent copy && unchanged copy snapshot.identity)
    "Private replay snapshot changed"

/-! ### The copy -/

/-- A refusal without cleanup duty, for there is no copy yet. -/
def plain {τ α : Type} (work : Work String τ α) : Work VerifyError τ α :=
  Flow.mapFault .plain work

/-- The path of the private copy. -/
def copyPath (id : String) : Path :=
  join this.work ("replay-" ++ id ++ ".snapshot")

/-- The checks before the copy, and its creation. -/
def createCopy (path : Path) (baseline : Baseline) (id : String) :
    Work VerifyError Unit Snapshot := do
  plain budget
  Flow.require (path ∉ baseline.names) (.plain ("Replay filename already existed before the " ++
    "save attempt; overwrite freshness is unverified"))
  let before ← plain (this.source path)
  let opened ← Flow.request (.openFile path)
  Flow.require (opened = true) (.plain "Replay file cannot be opened")
  let descriptor ← Flow.request (.metadata .source)
  let descriptor ← plain (present descriptor "Replay descriptor is unavailable")
  Flow.require (unchanged before descriptor) (.plain "Replay source changed before snapshot")
  let cloned ← Flow.request .tryClone
  Flow.require (cloned = true) (.plain "Replay descriptor clone failed")
  let created ← Flow.request (.create (this.copyPath id))
  Flow.require (created = true) (.plain "Private replay snapshot could not be created")
  let target ← Flow.request (.metadata .target)
  let target ← Flow.mapFault (fun _ ↦ .unconfirmed
    "Replay snapshot identity unavailable; cleanup withheld") (present target "")
  pure
    { original := path
      before := before
      path := this.copyPath id
      identity := target
      hash := ""
      bytes := 0
      cleanupAllowed := true }

/-- The bytes of the source behind those that were copied. -/
def copyLoop (hashed : List UInt8) : Work VerifyError Snapshot (List UInt8) := do
  plain budget
  let piece ← Flow.request (.read .source)
  let piece ← plain (present piece "Replay snapshot read failed")
  if _hempty : piece = [] then pure hashed
  else do
    Flow.change fun own ↦ { own with bytes := (hashed ++ piece).length }
    if _hlong : MAX_BYTES < (hashed ++ piece).length then
      Flow.fail (.plain "Replay snapshot exceeds 512 MiB")
    else do
      let written ← Flow.request (.write piece)
      Flow.require (written = true) (.plain "Replay snapshot write failed")
      copyLoop (hashed ++ piece)
termination_by MAX_BYTES - hashed.length
decreasing_by
  have hpiece := length_pos_iff.mpr _hempty
  rw [length_append] at _hlong ⊢
  omega

def copied : Work VerifyError Snapshot Unit := do
  let hashed ← copyLoop []
  Flow.change fun own ↦ { own with hash := readers.sha256 hashed }
  let target ← Flow.request (.metadata .target)
  let target ← plain (present target "Replay snapshot identity unavailable")
  Flow.change fun own ↦ { own with identity := target }
  let snapshot ← Flow.getOwn
  Flow.require (snapshot.bytes = snapshot.before.len)
    (.plain "Replay grew or shrank during snapshot")
  plain (this.recheck readers snapshot)

def snapshot (path : Path) (baseline : Baseline) (id : String) :
    Program Request Request.Reply (Except VerifyError Snapshot) :=
  (spawnBlocking ((this.createCopy path baseline id ()).bind fun
    | (.error error, _) => .done (.error error)
    | (.ok snapshot, _) =>
      Snapshot.orRetire (this.copied readers) (fun _ snapshot ↦ snapshot) snapshot)).bind fun
    | some result => .done result
    | none => .done (.error (.unconfirmed
      "Replay snapshot worker did not join; cleanup is unconfirmed"))

/-! ### The helpers -/

/-- The dimensions of a video are missing, zero or too large. -/
def badDimensions (video : Json) : Bool :=
  let width := (video.index "width").asU64.map UInt64.toNat
  let height := (video.index "height").asU64.map UInt64.toNat
  width.getD 0 = 0 || height.getD 0 = 0 || 8192 < width.getD (2 ^ 64 - 1) ||
    8192 < height.getD (2 ^ 64 - 1) ||
    ((width.bind fun w ↦ height.bind fun h ↦ if w * h < 2 ^ 64 then some (w * h) else none).all
      fun pixels ↦ 33554432 < pixels)

/-- The duration and the number of audio streams that the probe tells. -/
def inspect (data : Json) : Except String (Float × ℕ) := do
  let told := (data.index "format").index "duration"
  let duration := ((told.asStr.bind readers.float).or told.asF64).filter fun n ↦
    n.isFinite && 0.0 < n
  let duration ← duration.elim
    (.error "Replay duration is missing, nonpositive or invalid") .ok
  let streams ← (data.index "streams").asArray.elim
    (.error "Replay streams are unavailable") .ok
  let ofType (type : String) := streams.filter fun stream ↦
    (stream.index "codec_type").asStr = some type
  let audio := (ofType "audio").length
  if 16 < streams.length || (ofType "video").length ≠ 1 || (ofType "video").any badDimensions then
    .error "Replay must contain exactly one video stream with positive dimensions"
  else if 6 < audio then .error "Replay verification supports at most six audio streams"
  else .ok (duration, audio)

def verifySnapshot : Work VerifyError Snapshot Evidence := do
  let snapshot ← Flow.getOwn
  plain budget
  plain this.check
  let data ← Flow.attempt .media (Flow.request (Request.probe snapshot.path))
  plain budget
  let data ← plain (present (readers.json data) "Replay probe returned invalid JSON")
  let found ← plain (Flow.ofExcept (inspect readers data))
  Flow.attempt .media (Flow.request (Request.decode snapshot.path))
  plain budget
  pure
    { path := snapshot.original
      sha256 := snapshot.hash
      bytes := snapshot.bytes
      durationSeconds := found.1
      audioStreams := found.2
      videoStreams := 1 }

def verify (snapshot : Snapshot) :
    Program Request Request.Reply (Except VerifyError VerifiedSnapshot) :=
  Snapshot.orRetire (this.verifySnapshot readers) (fun evidence snapshot ↦ ⟨snapshot, evidence⟩)
    snapshot

/-! ### The end -/

def finish (verified : VerifiedSnapshot) :
    Program Request Request.Reply (Except VerifyError Evidence) :=
  (spawnBlocking (this.recheck readers verified.snapshot ())).bind fun
    | none => .done (.error (.unconfirmed
        "Replay recheck worker did not join; cleanup is unconfirmed"))
    | some (.ok (), _) => (Snapshot.cleanup verified.snapshot).bind fun (result, _) ↦
        .done (result.map fun _ ↦ verified.evidence)
    | some (.error error, _) => (Snapshot.retireError (.plain error) verified.snapshot).bind
        fun (error, _) ↦ .done (.error error)

def discard (verified : VerifiedSnapshot) :
    Program Request Request.Reply (Except VerifyError Unit) :=
  (Snapshot.cleanup verified.snapshot).bind fun (result, _) ↦ .done result

/-- The two calls that end a verified copy. -/
inductive Ending
  | finish
  | discard

/-- How a chain of calls ends. -/
inductive Outcome
  | refused (error : VerifyError)
  | finished (evidence : Evidence)
  | discarded

/-- The calls on one copy: `snapshot`, then `verify`, then `finish` or `discard`. -/
def chain (path : Path) (baseline : Baseline) (id : String) (ending : Ending) :
    Program Request Request.Reply Outcome :=
  (this.snapshot readers path baseline id).bind fun
    | .error error => .done (.refused error)
    | .ok snapshot => (this.verify readers snapshot).bind fun
      | .error error => .done (.refused error)
      | .ok verified =>
        match ending with
        | .finish => (this.finish readers verified).bind fun
          | .error error => .done (.refused error)
          | .ok evidence => .done (.finished evidence)
        | .discard => (discard verified).bind fun
          | .error error => .done (.refused error)
          | .ok () => .done .discarded

end Verifier

end ObsMcp.ReplayFiles
