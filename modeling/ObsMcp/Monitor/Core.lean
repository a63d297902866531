import ObsMcp.Foundations.Json
import ObsMcp.Monitor.Stills

/-!
# The take monitor

`Core` is the state of the monitor of one take, and its methods are those of the source. The
monitor is told what OBS reports and what periodic samples saw, with a clock reading in
milliseconds, and keeps logs, still and blank stretches and statistics. It starts no task: a sample
is admitted with a ticket that any task may finish later, or drop.

Three things decide what a finished picture may still change: the flag behind the ticket, the
identity of the picture history and the time of the stop. Identities and flags are allocated from a
counter, so a new one differs from every older one. Every operation on seconds is rounded, in
doubles or in any other way (`Rounding`); decibels, frame counts and the text of numbers belong to
the parameter `Numerics` too. The publisher of resource changes is left out.
-/

namespace ObsMcp.Monitor

open Foundations

/-! ### Values -/

/-- What the monitor computes with floats: seconds, levels in decibels, frame counts, the order of
levels for the report, and the text of numbers. -/
structure Numerics where
  rounding : Rounding
  Level : Type
  Count : Type
  peaks : List Json → Level × Level
  levelMax : Level → Level → Level
  louder : Level → Level → Bool
  exceeds : Level → ℚ → Bool
  levelText : Level → String
  zero : Count
  add : Count → Count → Count
  delta : String → Json → Json → Count
  isZero : Count → Bool
  countText : Count → String
  numberText : Number → String
  numberTruthy : Number → Bool

/-- The hundredths of a number of seconds, halves up. -/
def hundredths (rounding : Rounding) (n : ℚ) : ℤ :=
  ⌊rounding.nearest (rounding.nearest (n * 100) + 1 / 2)⌋

def round (rounding : Rounding) (n : ℚ) : ℚ :=
  rounding.nearest (hundredths rounding n / 100)

def truthy (num : Numerics) : Option Json → Bool
  | none | some .null => false
  | some (.bool b) => b
  | some (.number n) => num.numberTruthy n
  | some (.string s) => s != ""
  | some _ => true

mutual

/-- The text of a value. -/
def jsText (num : Numerics) : Json → String
  | .null => "null"
  | .bool b => if b then "true" else "false"
  | .number n => num.numberText n
  | .string s => s
  | .array items => String.intercalate "," (jsTexts num items)
  | .object _ => "[object Object]"

/-- The texts of the elements of an array, where a null is silent. -/
def jsTexts (num : Numerics) : List Json → List String
  | [] => []
  | .null :: rest => "" :: jsTexts num rest
  | item :: rest => jsText num item :: jsTexts num rest

end

def jsString (num : Numerics) : Option Json → String
  | none => "undefined"
  | some value => jsText num value

def stringOrEmpty (num : Numerics) : Option Json → String
  | none | some .null => ""
  | some value => jsText num value

def MAX_EVENTS : ℕ := 500

def MAX_WARNINGS_PER_KIND : ℕ := 20

structure MonitorOptions where
  expectSilent : Bool
  silenceThresholdDb : ℚ
  sampleIntervalMs : ℚ
  statsIntervalMs : ℚ
  stillAfterSeconds : ℚ

inductive WarningKind
  | audio
  | blank
  | frames
  | output
  | connection
  deriving DecidableEq

structure Warning where
  atSeconds : ℚ
  kind : WarningKind
  message : String

structure Event where
  atSeconds : ℚ
  type : String
  detail : Option String

structure Chapter where
  atSeconds : ℚ
  name : String

structure InputLevel (num : Numerics) where
  inputName : String
  peakDb : num.Level
  inputPeakDb : num.Level
  recorded : Bool

structure Frames (num : Numerics) where
  renderSkipped : num.Count
  renderTotal : num.Count
  outputSkipped : num.Count
  outputTotal : num.Count

inductive Phase
  | starting
  | running
  | stopping
  | stopped
  deriving DecidableEq

inductive SampleKind
  | stats
  | picture
  deriving DecidableEq

/-- The admission to one sample: the monitor and the picture history it belongs to, and its
flag. -/
structure SampleTicket where
  owner : ℕ
  pictureHistory : ℕ
  active : ℕ
  kind : SampleKind
  deriving DecidableEq

inductive SampleObservation
  | stats (stats : Json)
  | picture (luma : List UInt8)
  | failed

inductive CleanupError
  | notStopping
  | samplesPending
  deriving DecidableEq

structure Summary (num : Numerics) where
  running : Bool
  startedAt : String
  durationSeconds : ℚ
  expectSilent : Bool
  silenceThresholdDb : ℚ
  warnings : List Warning
  events : List Event
  chapters : List Chapter
  audio : List (InputLevel num)
  frames : Frames num
  stills : List (Span ℚ)
  blanks : List (Span ℚ)
  framesSampled : ℕ
  pictureChecks : String

/-! ### The monitor -/

/-- The state of a monitor. `flags` are the flags behind its tickets and `next` is the next identity
to be allocated. -/
structure Core (num : Numerics) where
  options : MonitorOptions
  startedAtMs : ℤ
  startedAt : String
  stoppedAtMs : Option ℤ
  phase : Phase
  stopExpected : Bool
  warnings : List Warning
  events : List Event
  chapters : List Chapter
  levels : List (InputLevel num)
  audibleNow : List String
  inputTracks : List (String × Members)
  recordTracks : List ℕ
  frames : Frames num
  lastStats : Option Json
  lastFrameWarningMs : Option ℤ × Option ℤ
  stills : List (Span ℚ)
  blanks : List (Span ℚ)
  tracker : StillTracker ℚ
  blankSince : Option ℚ
  blankRun : ℕ
  framesSampled : ℕ
  pictureChecks : Bool
  programScene : Option String
  recordingPath : Option String
  pausedMs : ℤ
  pausedSince : Option ℤ
  sampleOwner : ℕ
  pictureHistory : ℕ
  busy : SampleKind → Option ℕ
  flags : ℕ → Bool
  next : ℕ

namespace Core

variable {num : Numerics}

/-- A monitor whose identities are allocated from a given one on. -/
def new (num : Numerics) (identity : ℕ) (startedAtMs : ℤ) (startedAt : String)
    (options : MonitorOptions) : Core num where
  options := options
  startedAtMs := startedAtMs
  startedAt := startedAt
  stoppedAtMs := none
  phase := .starting
  stopExpected := false
  warnings := []
  events := []
  chapters := []
  levels := []
  audibleNow := []
  inputTracks := []
  recordTracks := [1]
  frames := ⟨num.zero, num.zero, num.zero, num.zero⟩
  lastStats := none
  lastFrameWarningMs := (none, none)
  stills := []
  blanks := []
  tracker := .new (atLeast num.rounding options.stillAfterSeconds)
  blankSince := none
  blankRun := 0
  framesSampled := 0
  pictureChecks := false
  programScene := none
  recordingPath := none
  pausedMs := 0
  pausedSince := none
  sampleOwner := identity
  pictureHistory := identity + 1
  busy := fun _ ↦ none
  flags := fun _ ↦ false
  next := identity + 2

variable (core : Core num) (nowMs : ℤ)

/-- The milliseconds that were recorded up to a reading: the stop ends them and pauses are left out.
They are whole, and the doubles of the source have them exactly (`doubles_elapsed`). -/
def elapsed : ℤ :=
  let stop := core.stoppedAtMs.getD nowMs
  let paused := core.pausedMs + (core.pausedSince.map fun start ↦ stop - start).getD 0
  stop - core.startedAtMs - paused

/-- The same in rounded numbers. -/
def doubles : ℚ :=
  let nearest := num.rounding.nearest
  let stop := nearest (core.stoppedAtMs.getD nowMs)
  let paused := nearest (core.pausedMs +
    (core.pausedSince.map fun start : ℤ ↦ nearest (stop - nearest start)).getD 0)
  nearest (nearest (stop - nearest core.startedAtMs) - paused)

def now : ℚ :=
  round num.rounding (num.rounding.nearest (core.elapsed nowMs / 1000))

def isPaused : Bool :=
  core.pausedSince.isSome

def listening : Bool :=
  core.phase == .starting || core.phase == .running

def log (event : String) (detail : Option String) : Core num :=
  if core.events.length < MAX_EVENTS then
    { core with
      events := core.events ++ [⟨core.now nowMs, event, detail.filter fun text ↦ text != ""⟩] }
  else core

def warn (kind : WarningKind) (message : String) : Core num :=
  if (core.warnings.filter fun warning ↦ warning.kind = kind).length < MAX_WARNINGS_PER_KIND then
    { core with warnings := core.warnings ++ [⟨core.now nowMs, kind, message⟩] }
  else core

/-- Reports the still stretch, and begins a new picture history. -/
def closeStill (time : ℚ) : Core num :=
  { core with
    pictureHistory := core.next
    next := core.next + 1
    stills := core.stills ++ (core.tracker.finish time).spans.map fun span ↦
      ⟨round num.rounding span.start, round num.rounding span.stop⟩
    tracker := .new (atLeast num.rounding core.options.stillAfterSeconds) }

def closeBlank (time : ℚ) : Core num :=
  match core.blankSince with
  | some start => { core with blankSince := none, blanks := core.blanks ++ [⟨start, time⟩] }
  | none => core

/-! ### Setup -/

def insertTracks (tracks : List (String × Members)) (entry : String × Members) :
    List (String × Members) :=
  entry :: tracks.filter fun other ↦ other.1 != entry.1

def loadTracks (recorded : List ℕ) (tracks : List (String × Members)) : Core num :=
  if core.listening then
    { core with
      recordTracks := recorded
      inputTracks := tracks.foldl insertTracks core.inputTracks }
  else core

def tracksUnknown (message : String) : Core num :=
  if core.listening then core.log nowMs "tracks-unknown" (some message) else core

def loadProgramScene (response : Json) : Core num :=
  if core.listening then
    let name :=
      match response.get "currentProgramSceneName" with
      | none | some .null => response.get "sceneName"
      | some name => some name
    { core with programScene := name.bind Json.asStr }
  else core

def completeSetup (supportsPpm : Bool) : Bool × Core num :=
  if core.phase ≠ .starting then (false, core)
  else
    let core := { core with phase := .running, pictureChecks := supportsPpm }
    if supportsPpm then (true, core)
    else (true, core.log nowMs "picture-checks-off" (some "OBS cannot return PPM screenshots"))

def mark (name : String) : Core num :=
  { core with chapters := core.chapters ++ [⟨core.now nowMs, name⟩] }

def expectStop : Core num :=
  { core with stopExpected := true }

/-- The expectation before, which the caller may put back, and the monitor that expects a stop. -/
def beginStopExpectation : Bool × Core num :=
  (core.stopExpected, { core with stopExpected := true })

def rollbackStopExpectation (previous : Bool) : Core num :=
  { core with stopExpected := previous }

/-! ### Stopping -/

def beginStop : Bool × Core num :=
  if core.stoppedAtMs.isSome then (false, core)
  else (true, { core with stoppedAtMs := some nowMs, stopExpected := true, phase := .stopping })

/-- The flag of the ticket that was issued last for a kind is still set. -/
def slotBusy (kind : SampleKind) : Bool :=
  (core.busy kind).any core.flags

def samplesPending : Bool :=
  core.slotBusy .stats || core.slotBusy .picture

/-- The stop time is there while the monitor is stopping, so its default is never used. -/
def finishCleanup : Except CleanupError Unit × Core num :=
  if core.phase = .stopped then (.ok (), core)
  else if core.phase ≠ .stopping then (.error .notStopping, core)
  else if core.samplesPending then (.error .samplesPending, core)
  else
    let stop := core.now (core.stoppedAtMs.getD 0)
    (.ok (), { (core.closeStill stop).closeBlank stop with phase := .stopped })

/-! ### Samples -/

def beginSample (kind : SampleKind) : Option SampleTicket × Core num :=
  if core.phase ≠ .running ∨ (kind = .picture ∧ (core.pictureChecks = false ∨
      core.programScene.all (· == "") ∨ core.isPaused)) then (none, core)
  else if core.slotBusy kind then (none, core)
  else
    (some ⟨core.sampleOwner, core.pictureHistory, core.next, kind⟩,
      { core with
        busy := fun other ↦ if other = kind then some core.next else core.busy other
        flags := fun flag ↦ if flag = core.next then true else core.flags flag
        next := core.next + 1 })

/-- Ends the admission of a ticket. -/
def dropTicket (ticket : SampleTicket) : Core num :=
  { core with flags := fun flag ↦ if flag = ticket.active then false else core.flags flag }

/-- The warning for one kind of missed frames, at most one in ten seconds. -/
def frameWarning (skipped : num.Count) (last : Option ℤ)
    (remember : Core num → Core num) (message : String) : Core num :=
  if num.isZero skipped || last.any fun last ↦ nowMs - last < 10000 then core
  else (remember core).warn nowMs .frames message

def observeStats (stats : Json) : Core num :=
  if core.phase = .stopped then core
  else
    match core.lastStats with
    | none => { core with lastStats := some stats }
    | some previous =>
      let core := { core with lastStats := some stats }
      if !truthy num (some previous) || stats.isNull then core
      else
        let delta := fun field ↦ num.delta field stats previous
        let render := delta "renderSkippedFrames"
        let output := delta "outputSkippedFrames"
        let core := { core with
          frames :=
            { renderSkipped := num.add core.frames.renderSkipped render
              renderTotal := num.add core.frames.renderTotal (delta "renderTotalFrames")
              outputSkipped := num.add core.frames.outputSkipped output
              outputTotal := num.add core.frames.outputTotal (delta "outputTotalFrames") } }
        let core := core.frameWarning nowMs render core.lastFrameWarningMs.1
          (fun core ↦
            { core with lastFrameWarningMs := (some nowMs, core.lastFrameWarningMs.2) })
          ("OBS missed " ++ num.countText render ++
            " frame(s) while rendering; the GPU or CPU is overloaded")
        core.frameWarning nowMs output core.lastFrameWarningMs.2
          (fun core ↦
            { core with lastFrameWarningMs := (core.lastFrameWarningMs.1, some nowMs) })
          ("The encoder skipped " ++ num.countText output ++
            " frame(s); lower the encoder preset or resolution")

/-- One more, up to the largest 64-bit number. -/
def saturatingSucc (n : ℕ) : ℕ :=
  min (n + 1) (2 ^ 64 - 1)

/-- The time one sample interval before another one. -/
def backdated (time : ℚ) : ℚ :=
  round num.rounding (num.rounding.nearest
    (time - num.rounding.nearest (core.options.sampleIntervalMs / 1000)))

/-- Begins a blank stretch at the second black picture, and ends it at the first other one. -/
def observeBlank (time : ℚ) (luma : List UInt8) : Core num :=
  if luma.all (· < 16) then
    let core := { core with blankRun := saturatingSucc core.blankRun }
    if core.blankRun = 2 then
      { core with blankSince := some (core.backdated time) }.warn nowMs .blank
        ("The program output (" ++ core.programScene.getD "null" ++
          ") is black. A capture may have lost its window or screen recording permission")
    else core
  else { core with blankRun := 0 }.closeBlank time

def observePicture (luma : List UInt8) : Core num :=
  if core.stoppedAtMs.isSome || core.isPaused then core
  else
    let time := core.now nowMs
    let core := { core with framesSampled := saturatingSucc core.framesSampled }
    let core := core.observeBlank nowMs time luma
    { core with tracker := core.tracker.push ⟨time, luma⟩ }

/-- A ticket of this monitor is used up whatever comes of it; the flag of another monitor's ticket
is there. -/
def finishSample (ticket : SampleTicket) (nowMs : ℤ)
    (observation : SampleObservation) : Bool × Core num :=
  if core.sampleOwner ≠ ticket.owner then (false, core)
  else if core.flags ticket.active = false ∨
      (ticket.kind = .picture ∧ core.pictureHistory ≠ ticket.pictureHistory) then
    (false, core.dropTicket ticket)
  else
    let core := core.dropTicket ticket
    match ticket.kind, observation with
    | .stats, .stats stats => (true, core.observeStats nowMs stats)
    | .picture, .picture luma => (true, core.observePicture nowMs luma)
    | _, .failed => (true, core)
    | _, _ => (false, core)

/-! ### Events -/

def onDisconnect : Core num :=
  if core.listening then
    core.warn nowMs .connection "Lost the connection to OBS; checks paused until it reconnects"
  else core

/-- Whether an input is in a recorded track; an input whose tracks are unknown is. -/
def isRecorded (name : String) : Bool :=
  match core.inputTracks.lookup name with
  | none => true
  | some tracks => core.recordTracks.any fun track ↦
      Members.get tracks (toString track) matches some (.bool true)

/-- The levels with the peaks of one input put in. -/
def raiseLevel (levels : List (InputLevel num)) (name : String) (peaks : num.Level × num.Level)
    (recorded : Bool) : List (InputLevel num) :=
  if levels.any fun level ↦ level.inputName == name then
    levels.map fun level ↦
      if level.inputName == name then
        { level with
          peakDb := num.levelMax level.peakDb peaks.1
          inputPeakDb := num.levelMax level.inputPeakDb peaks.2
          recorded := recorded }
      else level
  else levels ++ [⟨name, peaks.1, peaks.2, recorded⟩]

/-- One input of a meter event. -/
def onMeter (core : Core num) (input : Json) : Core num :=
  match (input.get "inputName").bind Json.asStr, (input.get "inputLevelsMul").bind Json.asArray with
  | some name, some channels =>
    let peaks := num.peaks channels
    let recorded := core.isRecorded name
    let core := { core with levels := raiseLevel core.levels name peaks recorded }
    let audible := recorded && num.exceeds peaks.1 core.options.silenceThresholdDb
    if audible && !core.audibleNow.contains name then
      let core := { core with audibleNow := name :: core.audibleNow }.log nowMs "audio-start"
        (some (name ++ " at " ++ num.levelText peaks.1 ++ " dB"))
      if core.options.expectSilent then
        core.warn nowMs .audio (name ++ " is audible in the recording at " ++
          num.levelText peaks.1 ++
            " dB (expected silence). Mute it or clear its recorded tracks")
      else core
    else if !audible && core.audibleNow.contains name then
      { core with audibleNow := core.audibleNow.filter (· != name) }.log nowMs "audio-end"
        (some name)
    else core
  | _, _ => core

variable (data : Json)

def onMeters : Core num :=
  if core.stoppedAtMs.isSome || core.isPaused then core
  else
    match (data.get "inputs").bind Json.asArray with
    | none => core
    | some inputs => inputs.foldl (onMeter nowMs) core

/-- The picture history ends and the pause begins, unless there is one. -/
def pause : Core num :=
  if core.pausedSince.isNone then
    { core.closeStill (core.now nowMs) with pausedSince := some nowMs }
  else core

def resume : Core num :=
  match core.pausedSince with
  | some since =>
    { core with pausedSince := none, pausedMs := core.pausedMs + (nowMs - since) }
  | none => core

/-- The text of a field. -/
def field (key : String) : Option String :=
  (data.get key).bind Json.asStr

/-- The path that a record state names. -/
def notePath : Core num :=
  match (field data "outputPath").filter fun path ↦ path != "" with
  | some path => { core with recordingPath := some path }
  | none => core

/-- The pauses that a record state begins and ends. -/
def onOutputState (state : Option String) : Core num :=
  if state = some "OBS_WEBSOCKET_OUTPUT_PAUSED" then core.pause nowMs
  else if state = some "OBS_WEBSOCKET_OUTPUT_RESUMED" then core.resume nowMs
  else core

/-- The warning of a stop that was not expected. -/
def warnStopped : Core num :=
  if (data.get "outputActive" matches some (.bool false)) && !core.stopExpected &&
      field data "outputState" == some "OBS_WEBSOCKET_OUTPUT_STOPPED" then
    core.warn nowMs .output "The recording stopped before it was asked to"
  else core

def onRecordState : Core num :=
  ((core.notePath data).onOutputState nowMs (field data "outputState")).warnStopped nowMs data

def onTracksChanged : Core num :=
  match field data "inputName", (data.get "inputAudioTracks").bind Json.asObject with
  | some name, some tracks =>
    { core with inputTracks := insertTracks core.inputTracks (name, tracks) }
  | _, _ => core

/-- The program scene that an event names. -/
def noteScene : Core num :=
  match field data "sceneName" with
  | some name => { core with programScene := some name }
  | none => core

def onProgramScene : Core num :=
  let core := core.noteScene data
  core.closeStill (core.now nowMs)

/-- What an event changes, and the detail under which it is logged; other events are not. -/
def handleEvent (event : String) (data : Json) : Option (Core num × String) :=
  if event = "InputAudioTracksChanged" then
    some (core.onTracksChanged data, stringOrEmpty num (data.get "inputName"))
  else if event = "CurrentProgramSceneChanged" then
    some (core.onProgramScene nowMs data, stringOrEmpty num (data.get "sceneName"))
  else if event = "RecordStateChanged" then
    some (core.onRecordState nowMs data, stringOrEmpty num (data.get "outputState"))
  else if event = "StreamStateChanged" then
    some (core, stringOrEmpty num (data.get "outputState"))
  else if event = "RecordFileChanged" then
    some (core, stringOrEmpty num (data.get "newOutputPath"))
  else if event = "SceneItemEnableStateChanged" then
    some (core, jsString num (data.get "sceneName") ++ " #" ++
      jsString num (data.get "sceneItemId") ++ " " ++
        if truthy num (data.get "sceneItemEnabled") then "shown" else "hidden")
  else if event = "InputMuteStateChanged" then
    some (core, jsString num (data.get "inputName") ++ " " ++
      if truthy num (data.get "inputMuted") then "muted" else "unmuted")
  else none

def onEvent (event : String) (data : Json) : Core num :=
  if core.listening = false then core
  else if event = "InputVolumeMeters" then core.onMeters nowMs data
  else
    match core.handleEvent nowMs event data with
    | none => core
    | some (core, detail) => core.log nowMs event (some detail)

/-! ### The report -/

def summary : Summary num :=
  let running := core.stoppedAtMs.isNone
  let roundSpan := fun span : Span ℚ ↦
    (⟨round num.rounding span.start, round num.rounding span.stop⟩ : Span ℚ)
  let openStill := if running then (core.tracker.stillSince).toList else []
  let openBlank := if running then core.blankSince.toList else []
  { running := running
    startedAt := core.startedAt
    durationSeconds := core.now nowMs
    expectSilent := core.options.expectSilent
    silenceThresholdDb := core.options.silenceThresholdDb
    warnings := core.warnings
    events := core.events
    chapters := core.chapters
    audio := core.levels.mergeSort fun a b ↦ num.louder a.peakDb b.peakDb
    frames := core.frames
    stills := core.stills ++ core.tracker.spans.map roundSpan ++
      openStill.map fun start ↦ ⟨start, core.now nowMs⟩
    blanks := core.blanks ++ openBlank.map fun start ↦ ⟨start, core.now nowMs⟩
    framesSampled := core.framesSampled
    pictureChecks := if core.pictureChecks then "on" else "off" }

end Core

end ObsMcp.Monitor
