import Mathlib
import KmVirtualCamera.Core.LTS
import KmVirtualCamera.L1Encoding.DcWire

/-!
# The browser's video sender (`WebCodecsSender`)

Everything that happens to a sender after `initDataChannels` is an `Event`:
the connection becomes `connected` (`rtc.ts` then calls `start`), the camera
track is switched, a cancelled reader lets `updateTrack` go on after its
`await`, the capture loop delivers a frame, the encoder puts out a chunk or an
error, the channel changes its state, the receiver asks for a keyframe or a
bitrate. JavaScript runs one of them at a time, each up to its next `await`, in
any order; what the browser answers on the way is an argument of the event.
`onEvent` is the new state and the call of `sendAccessUnit`, if there was one.

Numbers: `frameSeq` and `frameCount` are counters, the bitrate is a rational
(as in `JsNumber`; the 53-bit rounding of `0.75 * x` is not modelled). The
control channel, the statistics callback and the log line have no influence on
the video and are left out.

`onEvent_cases` says what an event can do to the frame counter and the gate;
callers need no other fact about `onEvent`.
-/
namespace KmVirtualCamera.L4.WebCodecsSender
open KmVirtualCamera.ByteOrder KmVirtualCamera.L1.H264 KmVirtualCamera.L1.DcWire

/-! ## Access units and parameter sets -/

/-- The two loops are those of `SplitAnnexB` and `SplitLengthPrefixed4`,
without the leading zeros of the first.
mirrors cloud/web/src/webcodecs_sender.ts:5-32 -/
def nalus (data : Bytes) : List Bytes :=
  if data = [] ∨ data.length > DC_MAX_AU_BYTES then []
  else if startCode data ≠ 0 then (splitLoop data.length 0 data).getD []
  else (splitLengthLoop data.length 0 data).getD []

def isSps (n : Bytes) : Bool := naluType n == 7
def isPps (n : Bytes) : Bool := naluType n == 8
def isIdr (n : Bytes) : Bool := naluType n == 5
def isSet (n : Bytes) : Bool := isSps n || isPps n

/-- `count` length-prefixed sets of one type, and what is left.
mirrors cloud/web/src/webcodecs_sender.ts:44-49 -/
def setsLoop (type : UInt8) : Nat → Bytes → Option (List Bytes × Bytes)
  | 0, data => some ([], data)
  | count + 1, b0 :: b1 :: t =>
    let size := (be16 b0 b1).toNat
    if size = 0 ∨ size > t.length ∨ naluType t ≠ type ∨ t.headD 0 &&& 128 ≠ 0 then none
    else (setsLoop type count (t.drop size)).map fun r => (t.take size :: r.1, r.2)
  | _ + 1, _ => none

/-- mirrors cloud/web/src/webcodecs_sender.ts:39-51 -/
def avcConfiguration (data : Bytes) : Option (List Bytes) :=
  match data with
  | version :: _ :: _ :: _ :: size :: count :: t =>
    if t = [] ∨ version ≠ 1 ∨ size &&& 3 ≠ 3 then none
    else
      match setsLoop 7 (count &&& 31).toNat t with
      | none => none
      | some (_, []) => none
      | some (sps, count :: t) => (setsLoop 8 count.toNat t).map fun r => sps ++ r.1
  | _ => none

/-- mirrors cloud/web/src/webcodecs_sender.ts:33-52 -/
def parameterSets (data : Bytes) : List Bytes :=
  if data.length > 131072 then []
  else if data.length ≥ 3 ∧ data.take 2 = [0, 0] then (nalus data).filter isSet
  else (avcConfiguration data).getD []

/-! ## State -/

inductive ReadyState where
  | connecting | open | closing | closed
  deriving DecidableEq

inductive CodecState where
  | unconfigured | configured | closed
  deriving DecidableEq

/-- The identity of a `MediaStreamTrack`. -/
abbrev Track := Nat

structure Config where
  width : Nat
  height : Nat
  bitrateBps : ℚ

/-- `suspended` are the calls of `updateTrack` that wait for `old.cancel()`,
each with the capture it has begun; `activeReader` is the capture the reader
belongs to.
mirrors cloud/web/src/webcodecs_sender.ts:54-73 -/
structure Sender where
  config : Config
  encoder : Option CodecState := none
  videoDc : Option ReadyState := none
  isRunning : Bool := false
  frameSeq : Nat := 0
  frameCount : Nat := 0
  forceKeyframeNext : Bool := true
  waitingForKeyframe : Bool := true
  currentBitrateBps : ℚ := config.bitrateBps
  currentEncoderW : Nat := 0
  currentEncoderH : Nat := 0
  cachedSpsPps : List Bytes := []
  activeReader : Option Nat := none
  captureGeneration : Nat := 0
  encoderGeneration : Nat := 0
  oversizeCount : Nat := 0
  activeVideoTrack : Option Track := none
  suspended : List Nat := []

/-- mirrors cloud/web/src/webcodecs_sender.ts:84-86 -/
def initDataChannels (s : Sender) : Sender :=
  if s.videoDc.isSome then s else { s with videoDc := some .connecting }

/-- The sender as `rtc.ts` makes it for a connection. -/
def create (config : Config) : Sender := initDataChannels { config := config }

/-! ## Tracks and encoders -/

/-- What the browser answers while a track is taken up: its size (0 where the
settings have none), whether `configure` returns, and whether there is a track
processor to read from. -/
structure Setup where
  width : Nat
  height : Nat
  configures : Bool
  reader : Bool

/-- `a || b` of a number. -/
def orElse (a b : Nat) : Nat := if a = 0 then b else a

/-- mirrors cloud/web/src/webcodecs_sender.ts:128-139 -/
def initEncoder (s : Sender) (width height : Nat) (configures : Bool) : Sender :=
  { s with encoderGeneration := s.encoderGeneration + 1, cachedSpsPps := [],
           waitingForKeyframe := true, forceKeyframeNext := true,
           currentEncoderW := width, currentEncoderH := height,
           encoder := some (if configures then .configured else .unconfigured) }

/-- `updateTrack` after the `await`. An encoder that cannot be configured ends
it before the capture begins.
mirrors cloud/web/src/webcodecs_sender.ts:122-126 -/
def takeUp (s : Sender) (capture : Nat) (b : Setup) : Sender :=
  if s.isRunning = false ∨ capture ≠ s.captureGeneration then s
  else
    let s := initEncoder s (orElse b.width s.config.width) (orElse b.height s.config.height) b.configures
    if b.configures = true ∧ b.reader = true then { s with activeReader := some capture } else s

/-- mirrors cloud/web/src/webcodecs_sender.ts:118-127 -/
def updateTrack (s : Sender) (track : Track) (b : Setup) : Sender :=
  let capture := s.captureGeneration + 1
  let old := s.activeReader
  let s := { s with captureGeneration := capture, activeVideoTrack := some track, activeReader := none }
  if old.isSome then { s with suspended := s.suspended ++ [capture] } else takeUp s capture b

/-- mirrors cloud/web/src/webcodecs_sender.ts:114-117 -/
def start (s : Sender) (track : Track) (b : Setup) : Sender :=
  updateTrack { s with isRunning := true, frameSeq := 0, frameCount := 0, oversizeCount := 0 } track b

/-- The encoder that is configured again stays `configured`.
mirrors cloud/web/src/webcodecs_sender.ts:145-152 -/
def setBitrate (s : Sender) : JsNumber → Sender
  | .nonFinite => s
  | .finite bps =>
    let next := max 1500000 (min 8000000 bps)
    if next = s.currentBitrateBps then s
    else { s with currentBitrateBps := next, forceKeyframeNext := true }

/-- mirrors cloud/web/src/webcodecs_sender.ts:245-255 -/
def stop (s : Sender) : Sender :=
  { s with isRunning := false, captureGeneration := s.captureGeneration + 1,
           encoderGeneration := s.encoderGeneration + 1, activeReader := none,
           activeVideoTrack := none, videoDc := none, encoder := none, cachedSpsPps := [] }

/-- A frame from the capture loop, with what the channel and the encoder have
queued and whether `configure` and `encode` return. -/
structure VideoFrame where
  displayWidth : Nat
  displayHeight : Nat
  bufferedAmount : Nat
  encodeQueueSize : Nat
  configures : Bool
  encodes : Bool

/-- The new state, and the `keyFrame` option if the frame went to the encoder.
mirrors cloud/web/src/webcodecs_sender.ts:178-190 -/
def processVideoFrame (s : Sender) (f : VideoFrame) : Sender × Option Bool :=
  if s.isRunning = false ∨ s.encoder ≠ some .configured then (s, none)
  else if s.videoDc ≠ some .open ∨ f.bufferedAmount > 96 * 1024 ∨ f.encodeQueueSize > 2 then
    ({ s with forceKeyframeNext := true }, none)
  else
    let resized := f.displayWidth != s.currentEncoderW || f.displayHeight != s.currentEncoderH
    let s := if resized then initEncoder s f.displayWidth f.displayHeight f.configures else s
    if resized = true ∧ f.configures = false then ({ s with forceKeyframeNext := true }, none)
    else
      let s := { s with frameCount := s.frameCount + 1 }
      let keyFrame := s.forceKeyframeNext || s.frameCount % 60 == 0
      ({ s with forceKeyframeNext := !f.encodes }, some keyFrame)

/-- What every refusal does: nothing is handed on before the next keyframe. -/
def retreat (s : Sender) : Sender := { s with waitingForKeyframe := true, forceKeyframeNext := true }

/-- mirrors cloud/web/src/webcodecs_sender.ts:191-198 -/
def recoverOversize (s : Sender) : Sender :=
  let s := setBitrate (retreat s) (.finite (s.currentBitrateBps * (3 / 4)))
  let s := { s with oversizeCount := s.oversizeCount + 1 }
  if s.oversizeCount ≥ 3 then stop s else s

/-! ## Encoded chunks -/

/-- `key` is `chunk.type === "key"`, `description` the decoder configuration
that came with the chunk. -/
structure Chunk where
  key : Bool
  timestamp : JsNumber
  bytes : Bytes
  description : Option Bytes

/-- The arguments of one call of `sendAccessUnit`; `send i` is whether the
channel takes packet `i`. -/
structure Handed where
  data : Bytes
  seq : Nat
  timestampUs : JsNumber
  keyframe : Bool
  send : Nat → Bool

def Handed.outcome (u : Handed) : SendResult × List Bytes :=
  sendAccessUnit u.data (.finite u.seq) u.timestampUs u.keyframe u.send

def Handed.packets (u : Handed) : List Bytes := u.outcome.2

/-- `Math.floor` -/
def floor : JsNumber → JsNumber
  | .finite q => .finite (q.floor : ℚ)
  | .nonFinite => .nonFinite

/-- The sets in the decoder configuration, if there is one of each type.
mirrors cloud/web/src/webcodecs_sender.ts:203-206 -/
def describedSets (s : Sender) (chunk : Chunk) : List Bytes :=
  match chunk.description with
  | none => s.cachedSpsPps
  | some d =>
    let sets := parameterSets d
    if sets.any isSps && sets.any isPps then sets else s.cachedSpsPps

/-- The sets after those inside the access unit; `none`: only one of the two.
mirrors cloud/web/src/webcodecs_sender.ts:211-215 -/
def inBandSets (cached units : List Bytes) : Option (List Bytes) :=
  let inBand := units.filter isSet
  if inBand = [] then some cached
  else if inBand.any isSps && inBand.any isPps then some inBand
  else none

/-- mirrors cloud/web/src/webcodecs_sender.ts:217 -/
def selectUnits (cached units : List Bytes) (idr : Bool) : List Bytes :=
  (if idr then cached else []) ++ units.filter fun n => naluType n != 9 && !(idr && isSet n)

/-- mirrors cloud/web/src/webcodecs_sender.ts:218 -/
def totalBytes (selected : List Bytes) : Nat := 6 + (selected.map fun n => 4 + n.length).sum

/-- mirrors cloud/web/src/webcodecs_sender.ts:220-221 -/
def accessUnit (selected : List Bytes) : Bytes := [0, 0, 0, 1, 9, 0xf0] ++ annexB selected

/-- The last part of `handleEncodedChunk`.
mirrors cloud/web/src/webcodecs_sender.ts:217-226 -/
def handOver (s : Sender) (chunk : Chunk) (units : List Bytes) (idr : Bool) (send : Nat → Bool) :
    Sender × Option Handed :=
  let selected := selectUnits s.cachedSpsPps units idr
  if totalBytes selected > DC_MAX_AU_BYTES then (recoverOversize s, none)
  else
    let u := Handed.mk (accessUnit selected) (s.frameSeq % 65536) (floor chunk.timestamp) idr send
    let s := { s with frameSeq := s.frameSeq + 1 }
    if u.outcome.1 ≠ .sent then (retreat s, some u)
    else
      ({ s with waitingForKeyframe := if idr then false else s.waitingForKeyframe, oversizeCount := 0 },
       some u)

/-- mirrors cloud/web/src/webcodecs_sender.ts:199-227 -/
def handleEncodedChunk (s : Sender) (chunk : Chunk) (send : Nat → Bool) : Sender × Option Handed :=
  if s.videoDc ≠ some .open then (retreat s, none)
  else if chunk.bytes.length > DC_MAX_AU_BYTES then (recoverOversize s, none)
  else
    let s := { s with cachedSpsPps := describedSets s chunk }
    let units := nalus chunk.bytes
    let idr := units.any isIdr
    if units = [] ∨ (chunk.key = true ∧ idr = false) then (retreat s, none)
    else if s.waitingForKeyframe = true ∧ idr = false then (s, none)
    else
      match inBandSets s.cachedSpsPps units with
      | none => (retreat { s with cachedSpsPps := [] }, none)
      | some sets =>
        let s := { s with cachedSpsPps := sets }
        if idr = true ∧ sets = [] then (retreat s, none)
        else handOver s chunk units idr send

/-! ## Events -/

inductive Event where
  /-- `connectionState` is `connected`; `none`: the stream has no video track. -/
  | connected (track : Option Track) (b : Setup)
  | trackSwitched (track : Track) (b : Setup)
  /-- `old.cancel()` of the `n`-th suspended `updateTrack` has settled. -/
  | cancelled (n : Nat) (b : Setup)
  | readerEnded (capture : Nat)
  | frame (capture : Nat) (track : Track) (f : VideoFrame)
  | encoded (generation : Nat) (chunk : Chunk) (send : Nat → Bool)
  | encoderError (generation : Nat)
  /-- The browser closes the encoder by itself. -/
  | encoderClosed
  | channel (state : ReadyState)
  | pli
  | bitrate (bps : JsNumber)
  | stop

/-- mirrors cloud/web/src/webcodecs_sender.ts:135 -/
def onOutput (s : Sender) (generation : Nat) (chunk : Chunk) (send : Nat → Bool) :
    Sender × Option Handed :=
  if s.isRunning = true ∧ generation = s.encoderGeneration then handleEncodedChunk s chunk send
  else (s, none)

/-- `active()` of a capture.
mirrors cloud/web/src/webcodecs_sender.ts:154 -/
def active (s : Sender) (capture : Nat) (track : Track) : Prop :=
  s.isRunning = true ∧ capture = s.captureGeneration ∧ s.activeVideoTrack = some track

instance (s : Sender) (capture : Nat) (track : Track) : Decidable (active s capture track) :=
  inferInstanceAs (Decidable (_ ∧ _ ∧ _))

/-- The events that never hand anything on.
mirrors cloud/web/src/rtc.ts:421-437, webcodecs_sender.ts:105-106,136,162,167 -/
def settle (s : Sender) : Event → Sender
  | .connected (some track) b => start s track b
  | .connected none _ => s
  | .trackSwitched track b => updateTrack s track b
  | .cancelled n b =>
    match s.suspended[n]? with
    | none => s
    | some capture => takeUp { s with suspended := s.suspended.eraseIdx n } capture b
  | .readerEnded capture => if s.activeReader = some capture then { s with activeReader := none } else s
  | .frame capture track f => if active s capture track then (processVideoFrame s f).1 else s
  | .encoded _ _ _ => s
  | .encoderError generation => if generation = s.encoderGeneration then retreat s else s
  | .encoderClosed => { s with encoder := s.encoder.map fun _ => .closed }
  | .channel state => { s with videoDc := s.videoDc.map fun _ => state }
  | .pli => if s.videoDc.isSome then { s with forceKeyframeNext := true } else s
  | .bitrate bps => if s.videoDc.isSome then setBitrate s bps else s
  | .stop => stop s

def onEvent (s : Sender) : Event → Sender × Option Handed
  | .encoded generation chunk send => onOutput s generation chunk send
  | e => (settle s e, none)

/-! ## What an event can do -/

/-- `start` is called. -/
def Event.Starts : Event → Prop
  | .connected (some _) _ => True
  | _ => False

instance : DecidablePred Event.Starts
  | .connected (some _) _ => .isTrue trivial
  | .connected none _ | .trackSwitched .. | .cancelled .. | .readerEnded _ | .frame .. | .encoded ..
  | .encoderError _ | .encoderClosed | .channel _ | .pli | .bitrate _ | .stop => .isFalse id

/-- The counter stands still and the gate is not opened. -/
structure Quiet (s s' : Sender) : Prop where
  seq : s'.frameSeq = s.frameSeq
  gate : s.waitingForKeyframe = true → s'.waitingForKeyframe = true

/-- The counter is set to zero and the gate is not opened. -/
structure Restarted (s s' : Sender) : Prop where
  seq : s'.frameSeq = 0
  gate : s.waitingForKeyframe = true → s'.waitingForKeyframe = true

/-- One access unit is handed on, under the number the counter shows. -/
structure Sent (s s' : Sender) (u : Handed) : Prop where
  seq : u.seq = s.frameSeq % 65536
  next : s'.frameSeq = s.frameSeq + 1
  gate : s.waitingForKeyframe = true → u.keyframe = true
  nonempty : u.data ≠ []
  fits : u.data.length ≤ DC_MAX_AU_BYTES

inductive Outcome (s : Sender) (e : Event) : Sender × Option Handed → Prop
  | quiet (s' : Sender) (h : ¬ e.Starts) (q : Quiet s s') : Outcome s e (s', none)
  | restarted (s' : Sender) (h : e.Starts) (r : Restarted s s') : Outcome s e (s', none)
  | sent (s' : Sender) (u : Handed) (h : ¬ e.Starts) (r : Sent s s' u) : Outcome s e (s', some u)

theorem Quiet.refl (s : Sender) : Quiet s s := ⟨rfl, id⟩

/-- Neither the counter nor the gate is touched. -/
theorem Quiet.of_eq {s s' : Sender} (hs : s'.frameSeq = s.frameSeq)
    (hw : s'.waitingForKeyframe = s.waitingForKeyframe) : Quiet s s' :=
  ⟨hs, fun h => hw.trans h⟩

theorem Quiet.trans {a b c : Sender} (h : Quiet a b) (h' : Quiet b c) : Quiet a c :=
  ⟨h'.seq.trans h.seq, fun hw => h'.gate (h.gate hw)⟩

theorem quiet_initEncoder (s : Sender) (w h : Nat) (c : Bool) : Quiet s (initEncoder s w h c) :=
  ⟨rfl, fun _ => rfl⟩

theorem quiet_retreat (s : Sender) : Quiet s (retreat s) := ⟨rfl, fun _ => rfl⟩

theorem quiet_stop (s : Sender) : Quiet s (stop s) := ⟨rfl, id⟩

theorem quiet_setBitrate (s : Sender) (bps : JsNumber) : Quiet s (setBitrate s bps) := by
  cases bps with
  | nonFinite => exact .refl s
  | finite q =>
    simp only [setBitrate]
    split
    · exact .refl s
    · exact ⟨rfl, id⟩

theorem quiet_recoverOversize (s : Sender) : Quiet s (recoverOversize s) := by
  have hb := (quiet_retreat s).trans
    (quiet_setBitrate (retreat s) (.finite (s.currentBitrateBps * (3 / 4))))
  unfold recoverOversize
  simp only
  split
  · refine hb.trans (Quiet.trans ?_ (quiet_stop _))
    exact .of_eq rfl rfl
  · refine hb.trans ?_
    exact .of_eq rfl rfl

theorem quiet_takeUp (s : Sender) (capture : Nat) (b : Setup) : Quiet s (takeUp s capture b) := by
  unfold takeUp
  split
  · exact .refl s
  · simp only
    split
    · exact ⟨rfl, fun _ => rfl⟩
    · exact quiet_initEncoder s _ _ _

theorem quiet_updateTrack (s : Sender) (track : Track) (b : Setup) :
    Quiet s (updateTrack s track b) := by
  unfold updateTrack
  simp only
  split
  · exact .of_eq rfl rfl
  · refine Quiet.trans ?_ (quiet_takeUp _ _ b)
    exact .of_eq rfl rfl

theorem restarted_start (s : Sender) (track : Track) (b : Setup) : Restarted s (start s track b) := by
  have h := quiet_updateTrack
    { s with isRunning := true, frameSeq := 0, frameCount := 0, oversizeCount := 0 } track b
  exact ⟨h.seq, h.gate⟩

theorem quiet_processVideoFrame (s : Sender) (f : VideoFrame) : Quiet s (processVideoFrame s f).1 := by
  unfold processVideoFrame
  split
  · exact .refl s
  split
  · exact ⟨rfl, id⟩
  have hs : Quiet s (if (f.displayWidth != s.currentEncoderW || f.displayHeight != s.currentEncoderH) = true
      then initEncoder s f.displayWidth f.displayHeight f.configures else s) := by
    split
    · exact quiet_initEncoder s _ _ _
    · exact .refl s
  simp only
  split
  · refine hs.trans ?_
    exact .of_eq rfl rfl
  · refine hs.trans ?_
    exact .of_eq rfl rfl

theorem quiet_settle (s : Sender) (e : Event) (h : ¬ e.Starts) : Quiet s (settle s e) := by
  cases e with
  | connected track b =>
    cases track with
    | none => exact .refl s
    | some track => exact absurd trivial h
  | trackSwitched track b => exact quiet_updateTrack s track b
  | cancelled n b =>
    simp only [settle]
    split
    · exact .refl s
    · refine Quiet.trans ?_ (quiet_takeUp _ _ b)
      exact .of_eq rfl rfl
  | readerEnded capture =>
    simp only [settle]
    split
    · exact ⟨rfl, id⟩
    · exact .refl s
  | frame capture track f =>
    simp only [settle]
    split
    · exact quiet_processVideoFrame s f
    · exact .refl s
  | encoded => exact .refl s
  | encoderError generation =>
    simp only [settle]
    split
    · exact quiet_retreat s
    · exact .refl s
  | encoderClosed => exact ⟨rfl, id⟩
  | channel state => exact ⟨rfl, id⟩
  | pli =>
    simp only [settle]
    split
    · exact ⟨rfl, id⟩
    · exact .refl s
  | bitrate bps =>
    simp only [settle]
    split
    · exact quiet_setBitrate s bps
    · exact .refl s
  | stop => exact quiet_stop s

theorem length_accessUnit (selected : List Bytes) :
    (accessUnit selected).length = totalBytes selected := by
  unfold accessUnit totalBytes annexB
  simp [List.length_flatMap]
  omega

/-- `handOver` after the gate: the unit is a keyframe if only a keyframe may pass. -/
theorem handOver_cases {s₀ s : Sender} (chunk : Chunk) (units : List Bytes) {idr : Bool}
    (send : Nat → Bool) (hq : Quiet s₀ s) (hgate : s₀.waitingForKeyframe = true → idr = true)
    {e : Event} (he : ¬ e.Starts) : Outcome s₀ e (handOver s chunk units idr send) := by
  unfold handOver
  simp only
  split
  · exact .quiet _ he (hq.trans (quiet_recoverOversize s))
  rename_i hfits
  have hlen := length_accessUnit (selectUnits s.cachedSpsPps units idr)
  have hne : accessUnit (selectUnits s.cachedSpsPps units idr) ≠ [] := by simp [accessUnit]
  split
  · exact .sent _ _ he ⟨by rw [hq.seq], by rw [← hq.seq]; rfl, hgate, hne, by simp only; omega⟩
  · exact .sent _ _ he ⟨by rw [hq.seq], by rw [← hq.seq], hgate, hne, by simp only; omega⟩

theorem handleEncodedChunk_cases (s : Sender) (chunk : Chunk) (send : Nat → Bool) {e : Event}
    (he : ¬ e.Starts) : Outcome s e (handleEncodedChunk s chunk send) := by
  unfold handleEncodedChunk
  split
  · exact .quiet _ he (quiet_retreat s)
  split
  · exact .quiet _ he (quiet_recoverOversize s)
  have hd : Quiet s { s with cachedSpsPps := describedSets s chunk } := ⟨rfl, id⟩
  simp only
  split
  · exact .quiet _ he (hd.trans (quiet_retreat _))
  split
  · exact .quiet _ he hd
  rename_i hgate
  have hgate' : s.waitingForKeyframe = true → (nalus chunk.bytes).any isIdr = true := by
    intro hw
    by_contra hi
    exact hgate ⟨hw, by simpa using hi⟩
  split
  · refine .quiet _ he (Quiet.trans ?_ (quiet_retreat _))
    exact .of_eq rfl rfl
  · split
    · refine .quiet _ he (Quiet.trans ?_ (quiet_retreat _))
      exact .of_eq rfl rfl
    · refine handOver_cases chunk _ send ?_ hgate' he
      exact .of_eq rfl rfl

/-- **What an event can do.** Only `start` sets the counter back, only a chunk
from the encoder hands an access unit on, and the counter then goes on by one. -/
theorem onEvent_cases (s : Sender) (e : Event) : Outcome s e (onEvent s e) := by
  by_cases he : e.Starts
  · cases e with
    | connected track b =>
      cases track with
      | none => exact he.elim
      | some track => exact .restarted _ he (restarted_start s track b)
    | _ => exact he.elim
  · cases e with
    | encoded generation chunk send =>
      simp only [onEvent, onOutput]
      split
      · exact handleEncodedChunk_cases s chunk send he
      · exact .quiet _ he (.refl s)
    | _ => exact .quiet _ he (quiet_settle s _ he)

end KmVirtualCamera.L4.WebCodecsSender
