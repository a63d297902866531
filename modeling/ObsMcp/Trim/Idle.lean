import ObsMcp.Trim.Evidence
import Mathlib.Tactic.NormNum

/-!
# Idle stretches

A stretch of a recording is idle when the picture stands still and every audio track is silent.
`analyzeSampledIdle` intersects the silences of the tracks one after the other, beginning with the
whole recording, and the still spans with the result; `detectIdle` is the older analysis of one
track, which intersects all pairs. A recording without sound is as idle as its picture: the still
spans are returned as they are.

The walk of `intersectSpans` looks at every span once and is right only for ordered spans. The
evidence of a track is ordered because nothing but the parser builds it, which `AudioEvidence`
records as a field. `idle_exact` is the meaning of the analysis for ordered still spans, and
`idle_of_texts` reads it off the logs of the tracks.
-/

namespace ObsMcp.Trim

open Foundations List

variable {K : Type} [Field K] [LinearOrder K]

/-! ### The analysis -/

structure AudioTrack (K : Type) where
  codec : String
  sampleRate : ℕ
  channels : ℕ
  channelLayout : String
  language : String
  title : Option String
  dispositions : Option (List (String × ℕ))
  startSeconds : Option K

structure MediaProbe (K : Type) where
  duration : K
  audioStreams : ℕ
  audioTracks : List (AudioTrack K)
  formatStartSeconds : Option K
  videoStartSeconds : Option K

/-- A declared start within 50 ms of zero. -/
def nearZero (value : Option K) : Bool :=
  value.any fun value ↦ |value| ≤ 1 / 20

/-- Codec, rate, layout, language and title of a track that an export can represent. -/
def representable (track : AudioTrack K) : Bool :=
  ["aac", "flac", "opus", "pcm_s16le", "pcm_s24le", "pcm_s32le", "pcm_f32le"].contains
      track.codec &&
    (track.sampleRate == 44100 || track.sampleRate == 48000) &&
    ((track.channels == 1 && track.channelLayout == "mono") ||
      (track.channels == 2 && track.channelLayout == "stereo")) &&
    track.language.utf8ByteSize == 3 && track.language.toList.all Char.isLower &&
    !track.title.any fun title ↦ title == "SoundHandler" || 1024 < title.utf8ByteSize ||
      title.toList.any fun c ↦ c.toNat < 0x20 || (0x7f ≤ c.toNat && c.toNat ≤ 0x9f)

/-- Checks one track and counts it when it is a default one. -/
def qualifiedTrack (defaults : ℕ) (track : AudioTrack K) : Except TrimError ℕ :=
  if representable track = false then
    .error (evidence ("Multitrack trim requires supported codecs, mono/stereo 44.1/48 kHz audio " ++
      "and representable track metadata"))
  else
    match track.dispositions with
    | none => .error (evidence "Multitrack audio dispositions are unavailable")
    | some dispositions =>
      if dispositions.any fun ⟨key, value⟩ ↦ 1 < value || (value == 1 && key != "default") then
        .error (evidence "Multitrack trim supports only the default audio disposition")
      else .ok (defaults + if dispositions.lookup "default" = some 1 then 1 else 0)

def qualifiedAudioTracks (info : MediaProbe K) : Except TrimError (List (AudioTrack K)) :=
  if ¬(2 ≤ info.audioStreams ∧ info.audioStreams ≤ 6) ∨
      info.audioTracks.length ≠ info.audioStreams then
    .error (evidence "Multitrack trim requires complete metadata for two through six audio tracks")
  else if !nearZero info.formatStartSeconds || !nearZero info.videoStartSeconds ||
      info.audioTracks.any fun track ↦
        !nearZero track.startSeconds ||
          !track.startSeconds.any fun audio ↦
            info.videoStartSeconds.any fun video ↦ |audio - video| ≤ 1 / 20 then
    .error (evidence
      ("Multitrack trim requires declared audio/video/format starts within 50 ms of " ++
      "zero and each other"))
  else do
    let defaults ← info.audioTracks.foldlM qualifiedTrack 0
    if defaults = 0 then
      .error (evidence "Multitrack MP4 trim requires at least one default audio track")
    else .ok info.audioTracks

/-- Silence as it was parsed, track by track. -/
structure AudioEvidence (K : Type) [LinearOrder K] where
  tracks : List (List (Span K))
  ordered : ∀ track ∈ tracks, Span.Ordered track

def parseAudioEvidence (readSeconds : List Char → Option K) (texts : List (List Char))
    (duration : K) : Except TrimError (AudioEvidence K) :=
  if 6 < texts.length then .error (evidence "Audio analysis supports at most six tracks")
  else
    match hparse : texts.mapM fun text ↦ parseAudioTrackEvidence readSeconds text duration with
    | .error error => .error error
    | .ok tracks =>
      .ok ⟨tracks, fun _ htrack ↦
        let ⟨_, _, htext⟩ := mem_of_mapM hparse htrack
        (silence_of_text htext).1⟩

structure GrayAnalysis (K : Type) [LinearOrder K] where
  audioEvidence : Option (AudioEvidence K)
  spans : List (Span K)

structure IdleAnalysis (K : Type) where
  idle : List (Span K)
  audible : Bool

/-- One silence that fills the recording up to a tenth of a second at its ends. -/
def silentThroughout (duration : K) : List (Span K) → Bool
  | [span] => span.start ≤ 1 / 10 && duration - 1 / 10 ≤ span.stop
  | _ => false

/-- The analysis of all pairs; `silent` are the silences found in the detector's log. -/
def detectIdle (still silent : List (Span K)) (info : MediaProbe K) : IdleAnalysis K :=
  if info.audioStreams = 0 then ⟨still, false⟩
  else if silentThroughout info.duration silent then ⟨still, false⟩
  else ⟨Span.crossings still silent, true⟩

def intersectSpans (lefts rights : List (Span K)) : List (Span K) :=
  Span.intersect lefts rights

/-- Several tracks must be qualified; one track need not be. -/
def checkTracks (info : MediaProbe K) : Except TrimError Unit :=
  if 1 < info.audioStreams then (qualifiedAudioTracks info).map fun _ ↦ () else .ok ()

/-- The silence that all tracks share, within the recording. -/
def commonSilence (duration : K) (tracks : List (List (Span K))) : List (Span K) :=
  tracks.foldl intersectSpans [⟨0, duration⟩]

def analyzeSampledIdle (samples : GrayAnalysis K) (info : MediaProbe K) :
    Except TrimError (IdleAnalysis K) :=
  if info.audioStreams = 0 then .ok (detectIdle samples.spans [] info)
  else do
    checkTracks info
    match samples.audioEvidence.filter fun audio ↦ audio.tracks.length = info.audioStreams with
    | none => .error (evidence "Private audio evidence is unavailable")
    | some audio =>
      .ok ⟨intersectSpans samples.spans (commonSilence info.duration audio.tracks),
        !audio.tracks.all (silentThroughout info.duration)⟩

/-! ### What the analysis gives -/

/-- Ordered spans with interior, as every intersection gives them. -/
structure Positive (spans : List (Span K)) : Prop where
  forward : ∀ span ∈ spans, span.start < span.stop
  apart : spans.Pairwise (fun a b ↦ a.stop ≤ b.start)

omit [Field K] in
/-- The walk and the intersection of all pairs agree on ordered spans, and the result is the
intersection. -/
theorem intersectSpans_exact {lefts rights : List (Span K)} (hlefts : Span.Ordered lefts)
    (hrights : Span.Ordered rights) :
    intersectSpans lefts rights = Span.crossings lefts rights ∧
      Span.inside (intersectSpans lefts rights) = Span.inside lefts ∩ Span.inside rights ∧
        Positive (intersectSpans lefts rights) := by
  have hwalk : intersectSpans lefts rights = Span.crossings lefts rights :=
    Span.intersect_eq_crossings hlefts hrights
  obtain ⟨hforward, hapart⟩ := Span.ordered_crossings hlefts hrights
  rw [hwalk]
  exact ⟨rfl, Span.inside_crossings lefts rights, hforward, hapart⟩

omit [Field K] in
/-- Ordered spans with interior are ordered. -/
theorem Positive.ordered {spans : List (Span K)} (hpositive : Positive spans) :
    Span.Ordered spans :=
  ⟨fun span hspan ↦ (hpositive.forward span hspan).le, hpositive.apart⟩

omit [Field K] in
/-- The walk along the tracks gives what is inside the first list and inside every track. -/
theorem foldl_intersectSpans {tracks : List (List (Span K))}
    (htracks : ∀ track ∈ tracks, Span.Ordered track) {common : List (Span K)}
    (hcommon : Span.Ordered common) :
    Span.Ordered (tracks.foldl intersectSpans common) ∧
      ∀ t, t ∈ Span.inside (tracks.foldl intersectSpans common) ↔
        t ∈ Span.inside common ∧ ∀ track ∈ tracks, t ∈ Span.inside track := by
  induction tracks generalizing common with
  | nil =>
    refine ⟨hcommon, fun t ↦ ?_⟩
    simp only [foldl_nil, not_mem_nil, false_implies, implies_true, and_true]
  | cons track rest ih =>
    obtain ⟨htrack, hrest⟩ := forall_mem_cons.mp htracks
    obtain ⟨-, hinside, hpositive⟩ := intersectSpans_exact hcommon htrack
    obtain ⟨hordered, hmem⟩ := ih hrest hpositive.ordered
    refine ⟨hordered, fun t ↦ ?_⟩
    rw [foldl_cons, hmem t, hinside, Set.mem_inter_iff, forall_mem_cons, and_assoc]

omit [Field K] in
/-- Walking along a span that runs backwards finds nothing. -/
theorem intersectSpans_backwards {span : Span K} (hback : span.stop ≤ span.start)
    (rights : List (Span K)) : intersectSpans [span] rights = [] := by
  induction rights with
  | nil => exact Span.intersect_nil _
  | cons right rest ih =>
    have hnone : Span.shared span right = [] := by
      refine if_neg (not_lt.mpr ?_)
      exact ((min_le_left _ _).trans hback).trans (le_max_left _ _)
    rw [intersectSpans, Span.intersect, hnone, nil_append]
    by_cases hends : span.stop < right.stop
    · rw [if_pos hends, Span.nil_intersect]
    · rw [if_neg hends]
      exact ih

/-- The shared silence of one track or more is inside the recording and inside every track,
whatever the duration. -/
theorem commonSilence_exact (duration : K) {tracks : List (List (Span K))} (hsome : tracks ≠ [])
    (htracks : ∀ track ∈ tracks, Span.Ordered track) :
    Span.Ordered (commonSilence duration tracks) ∧
      ∀ t, t ∈ Span.inside (commonSilence duration tracks) ↔
        (0 < t ∧ t < duration) ∧ ∀ track ∈ tracks, t ∈ Span.inside track := by
  have hwhole : ∀ t, t ∈ Span.inside [(⟨0, duration⟩ : Span K)] ↔ 0 < t ∧ t < duration := by
    intro t
    constructor
    · rintro ⟨span, hspan, hin⟩
      rw [mem_singleton.mp hspan] at hin
      exact hin
    · exact fun hin ↦ ⟨_, mem_cons_self, hin⟩
  by_cases hduration : 0 ≤ duration
  · have hordered : Span.Ordered [(⟨0, duration⟩ : Span K)] := by
      refine ⟨fun span hspan ↦ ?_, pairwise_singleton _ _⟩
      rw [mem_singleton.mp hspan]
      exact hduration
    obtain ⟨hcommon, hinside⟩ := foldl_intersectSpans htracks hordered
    refine ⟨hcommon, fun t ↦ ?_⟩
    rw [commonSilence, hinside t, hwhole t]
  · cases tracks with
    | nil => exact absurd rfl hsome
    | cons track rest =>
      have hnone : commonSilence duration (track :: rest) = rest.foldl intersectSpans [] := by
        rw [commonSilence, foldl_cons, intersectSpans_backwards (not_le.mp hduration).le]
      have hempty : Span.Ordered ([] : List (Span K)) :=
        ⟨fun _ hspan ↦ absurd hspan not_mem_nil, List.Pairwise.nil⟩
      obtain ⟨hcommon, hinside⟩ :=
        foldl_intersectSpans (forall_mem_cons.mp htracks).2 hempty
      rw [hnone]
      refine ⟨hcommon, fun t ↦ ?_⟩
      rw [hinside t]
      constructor
      · rintro ⟨⟨_, hspan, -⟩, -⟩
        exact absurd hspan not_mem_nil
      · rintro ⟨⟨hfrom, hto⟩, -⟩
        exact absurd (hfrom.trans hto).le hduration

/-- An analysis that succeeds on a recording with sound found silence for each of its tracks. -/
theorem analyzeSampledIdle_ok {samples : GrayAnalysis K} {info : MediaProbe K}
    {analysis : IdleAnalysis K} (hsound : info.audioStreams ≠ 0)
    (hanalysis : analyzeSampledIdle samples info = .ok analysis) :
    ∃ audio, samples.audioEvidence = some audio ∧ audio.tracks.length = info.audioStreams ∧
      analysis.idle = intersectSpans samples.spans (commonSilence info.duration audio.tracks) := by
  rw [analyzeSampledIdle, if_neg hsound] at hanalysis
  obtain ⟨-, -, hanalysis⟩ := bind_eq_ok_iff.mp hanalysis
  split at hanalysis
  · cases hanalysis
  · rename_i audio haudio
    obtain ⟨hevidence, hlength⟩ := Option.filter_eq_some_iff.mp haudio
    cases hanalysis
    exact ⟨audio, hevidence, of_decide_eq_true hlength, rfl⟩

/-- What is read of the logs of the tracks. -/
theorem tracks_of_parse {readSeconds : List Char → Option K} {texts : List (List Char)}
    {duration : K} {audio : AudioEvidence K}
    (hparse : parseAudioEvidence readSeconds texts duration = .ok audio) :
    texts.mapM (fun text ↦ parseAudioTrackEvidence readSeconds text duration) =
      .ok audio.tracks := by
  unfold parseAudioEvidence at hparse
  split_ifs at hparse
  split at hparse
  · cases hparse
  · rename_i hmap
    cases hparse
    exact hmap

section

variable {samples : GrayAnalysis K} {info : MediaProbe K} {analysis : IdleAnalysis K}
  (hsound : info.audioStreams ≠ 0) (hstill : Span.Ordered samples.spans)
  (hanalysis : analyzeSampledIdle samples info = .ok analysis)
include hsound hstill hanalysis

/-- The idle stretches of a recording with sound. -/
theorem analyzeSampledIdle_inside :
    ∃ audio, samples.audioEvidence = some audio ∧ audio.tracks.length = info.audioStreams ∧
      (∀ t, t ∈ Span.inside analysis.idle ↔ t ∈ Span.inside samples.spans ∧
        (0 < t ∧ t < info.duration) ∧ ∀ track ∈ audio.tracks, t ∈ Span.inside track) ∧
      Positive analysis.idle := by
  obtain ⟨audio, hevidence, hlength, hidle⟩ := analyzeSampledIdle_ok hsound hanalysis
  have hsome : audio.tracks ≠ [] := by
    intro hnil
    exact hsound (by rw [← hlength, hnil, length_nil])
  obtain ⟨hcommon, hmem⟩ := commonSilence_exact info.duration hsome audio.ordered
  obtain ⟨-, hinside, hpositive⟩ := intersectSpans_exact hstill hcommon
  refine ⟨audio, hevidence, hlength, fun t ↦ ?_, hidle ▸ hpositive⟩
  rw [hidle, hinside, Set.mem_inter_iff, hmem t]

/-- With the evidence that was read from the logs of the tracks, they are what is inside a still
span, the recording and a silence in the log of every track. -/
theorem idle_of_texts {readSeconds : List Char → Option K} {texts : List (List Char)}
    {audio : AudioEvidence K} (hevidence : samples.audioEvidence = some audio)
    (hparse : parseAudioEvidence readSeconds texts info.duration = .ok audio) (t : K) :
    t ∈ Span.inside analysis.idle ↔ t ∈ Span.inside samples.spans ∧ (0 < t ∧ t < info.duration) ∧
      ∀ text ∈ texts, ∃ track, parseAudioTrackEvidence readSeconds text info.duration = .ok track ∧
        t ∈ Span.inside track := by
  obtain ⟨found, hfound, -, hinside, -⟩ := analyzeSampledIdle_inside hsound hstill hanalysis
  cases hevidence.symm.trans hfound
  rw [hinside t, forall_mem_of_mapM_iff (tracks_of_parse hparse)]

end

/-- The idle stretches of a recording with sound are what is inside a still span, the recording and
a silence of every track; without sound the still spans are returned as they are. The silences that
the parser accepts are ordered, and on ordered spans the walk is the intersection of all pairs. -/
theorem idle_exact (samples : GrayAnalysis K) (info : MediaProbe K) :
    (info.audioStreams = 0 → analyzeSampledIdle samples info = .ok ⟨samples.spans, false⟩) ∧
      (info.audioStreams ≠ 0 → Span.Ordered samples.spans → ∀ analysis,
        analyzeSampledIdle samples info = .ok analysis →
          ∃ audio, samples.audioEvidence = some audio ∧
            audio.tracks.length = info.audioStreams ∧
            (∀ t, t ∈ Span.inside analysis.idle ↔ t ∈ Span.inside samples.spans ∧
              (0 < t ∧ t < info.duration) ∧ ∀ track ∈ audio.tracks, t ∈ Span.inside track) ∧
            Positive analysis.idle) ∧
      (∀ readSeconds text duration (spans : List (Span K)),
        parseAudioTrackEvidence readSeconds text duration = .ok spans →
          Span.Ordered spans ∧ Between duration spans) ∧
      ∀ lefts rights : List (Span K), Span.Ordered lefts → Span.Ordered rights →
        intersectSpans lefts rights = Span.crossings lefts rights := by
  refine ⟨fun hsilent ↦ ?_, fun hsound hstill _ hanalysis ↦
    analyzeSampledIdle_inside hsound hstill hanalysis,
    fun _ _ _ _ hparse ↦ silence_of_text hparse,
    fun _ _ hlefts hrights ↦ (intersectSpans_exact hlefts hrights).1⟩
  rw [analyzeSampledIdle, if_pos hsilent, detectIdle, if_pos hsilent]

/-- A recording of six seconds with a number of audio streams and no declared tracks. -/
def sixSeconds (audioStreams : ℕ) : MediaProbe ℚ :=
  ⟨6, audioStreams, [], none, none⟩

/-- One track that is silent for six seconds. -/
def sixSilent : AudioEvidence ℚ where
  tracks := [[⟨0, 6⟩]]
  ordered := by
    intro track htrack
    rw [mem_singleton.mp htrack]
    refine ⟨fun span hspan ↦ ?_, pairwise_singleton _ _⟩
    rw [mem_singleton.mp hspan]
    decide

/-- Without sound a still span that outlasts the recording is returned past its end, and still spans
out of order lose the earlier one to the walk. -/
theorem idle_inexact :
    (analyzeSampledIdle ⟨none, [⟨0, 7⟩]⟩ (sixSeconds 0) = .ok ⟨[⟨0, 7⟩], false⟩ ∧
      (13 / 2 : ℚ) ∈ Span.inside [(⟨0, 7⟩ : Span ℚ)] ∧ ¬(13 / 2 : ℚ) < 6) ∧
    (analyzeSampledIdle ⟨some sixSilent, [⟨4, 6⟩, ⟨0, 2⟩]⟩ (sixSeconds 1) =
        .ok ⟨[⟨4, 6⟩], false⟩ ∧
      (1 : ℚ) ∈ Span.inside [(⟨4, 6⟩ : Span ℚ), ⟨0, 2⟩] ∧
      (1 : ℚ) ∈ Span.inside [(⟨0, 6⟩ : Span ℚ)] ∧
      (1 : ℚ) ∉ Span.inside [(⟨4, 6⟩ : Span ℚ)]) := by
  refine ⟨⟨rfl, ⟨⟨0, 7⟩, mem_cons_self, by norm_num⟩, by norm_num⟩, ?_,
    ⟨⟨0, 2⟩, mem_cons_of_mem _ mem_cons_self, by norm_num⟩,
    ⟨⟨0, 6⟩, mem_cons_self, by norm_num⟩, ?_⟩
  · have hcommon : commonSilence 6 sixSilent.tracks = [(⟨0, 6⟩ : Span ℚ)] := by
      simp [commonSilence, sixSilent, intersectSpans, Span.intersect, Span.shared]
    have hidle : intersectSpans [(⟨4, 6⟩ : Span ℚ), ⟨0, 2⟩] [⟨0, 6⟩] = [⟨4, 6⟩] := by
      norm_num [intersectSpans, Span.intersect, Span.shared]
    rw [analyzeSampledIdle, if_neg (by decide)]
    have hchecked : checkTracks (sixSeconds 1) = .ok () := rfl
    have hsilent : sixSilent.tracks.all (silentThroughout 6) = true := by
      norm_num [sixSilent, silentThroughout]
    rw [hchecked]
    show Except.ok (IdleAnalysis.mk (intersectSpans [(⟨4, 6⟩ : Span ℚ), ⟨0, 2⟩]
      (commonSilence 6 sixSilent.tracks)) !sixSilent.tracks.all (silentThroughout 6)) = _
    rw [hcommon, hidle, hsilent]
    rfl
  · rintro ⟨span, hspan, hin⟩
    rw [mem_singleton.mp hspan] at hin
    norm_num at hin

end ObsMcp.Trim
