import Mathlib
import KmVirtualCamera.Core.LTS

/-!
# The sink publisher (`KMCMSinkPublisher`)

The macOS receiver hands its frames to the camera extension through a queue of
CoreMediaIO. All of it runs on one serial queue: `start` and `stop`, the feed
timer that enqueues a frame 30 times a second, the retry timer that opens the
sink again 2 s after it failed.

What a call of the system gives is an `Answers`, one a handled event; the
attestation of the producer, the callback that only counts and what goes to the
system log are left out. A timer is the number of timers created before it, `nil`
is `none`, and a sample is the number of samples created before it. So `_created` and
`_released` are naturals; the source's are `uint64_t`, the same numbers as long as
fewer than 2^64 samples are created, and modulo 2^64 after that. `log` is what
has been asked of the system, oldest first, with two entries the source does not
have: `counted`, a sample `_released` is counted up for, and `notified`, what the
state handler is given.
-/
namespace KmVirtualCamera.L4.SinkPublisher

abbrev Timer := Nat
abbrev Sample := Nat
abbrev Frame := Nat

def kPeriodNs : UInt64 := 33333333
def kBurstPeriodNs : UInt64 := 1000000
def kConsumeWatchdogNs : UInt64 := 3000000000
def kFreshFeedNs : UInt64 := 1000000000
def kRetryDelayNs : UInt64 := 2000000000

/-- mirrors macos/receiver/cmio_sink_publisher.h:7-14 -/
inductive KMSinkPublisherState where
  | stopped | unavailable | opening | ready | backpressure | disconnected
  deriving DecidableEq

/-- An object of CoreMediaIO; 0 is `kCMIOObjectUnknown`. -/
structure ObjectID where
  id : UInt32
  known : id ≠ 0

inductive Op where
  | created (timer : Timer)
  | armed (timer : Option Timer) (delayNs : UInt64)
  | canceled (timer : Timer)
  | startStream (device stream : UInt32)
  | stopStream (device stream : UInt32)
  | releaseQueue (queue : Nat)
  | sample (sample : Sample) (frame : Frame) (target : UInt64)
  | enqueued (sample : Sample)
  | freed (sample : Sample)
  | counted (sample : Sample)
  | notified (state : KMSinkPublisherState) (detail : String)

inductive EnqueueStatus where
  | noErr
  | queueIsFull
  | other (status : Int)
  deriving DecidableEq

/-- What the system answers while one event is handled. -/
structure Answers where
  /-- `HostNanos()`: first, when consumption is seen, last -/
  now : UInt64 := 0
  consumedNow : UInt64 := 0
  later : UInt64 := 0
  /-- the devices with their UID, `none` where a read fails -/
  devicesSize : Option Nat := none
  devices : Option (List (ObjectID × Option String)) := none
  streamsSize : Option Nat := none
  /-- the streams of the device with their direction -/
  streams : Option (List (ObjectID × Option UInt32)) := none
  copyBufferQueue : Int × Option Nat := (-1, none)
  queueCapacity : UInt32 := 0
  format : Bool := true
  startStream : Int := 0
  createTimer : Bool := true
  /-- `CMSimpleQueueGetCount`, for `syncConsumed` and for the watchdog -/
  inQueue : Nat := 0
  queued : Nat := 0
  makeBlack720p : Option Frame := none
  normalize720p : Frame → Bool := fun _ => true
  sampleCreate : Bool := true
  enqueue : EnqueueStatus := .noErr

structure Publisher where
  state : KMSinkPublisherState := .stopped
  desired : Bool := false
  feedTimer : Option Timer := none
  retryTimer : Option Timer := none
  deviceID : UInt32 := 0
  streamID : UInt32 := 0
  streamStarted : Bool := false
  bufferQueue : Option Nat := none
  format : Bool := false
  held : List Sample := []
  pending : Option Frame := none
  pendingPublishNs : UInt64 := 0
  blackFeed : Option Frame := none
  feedStartNs : UInt64 := 0
  feedIndex : UInt64 := 0
  lastConsumeNs : UInt64 := 0
  burstUntilNs : UInt64 := 0
  created : Nat := 0
  released : Nat := 0
  enqueued : Nat := 0
  dropped : Nat := 0
  failed : Nat := 0
  /-- timers created so far -/
  timers : Nat := 0
  log : List Op := []

def Publisher.note (s : Publisher) (op : Op) : Publisher := { s with log := s.log ++ [op] }

/-- mirrors macos/receiver/cmio_sink_publisher.mm:244-254 -/
def setState (s : Publisher) (state : KMSinkPublisherState) (detail : String) : Publisher :=
  if s.state = state then s else { s.note (.notified state detail) with state := state }

/-! ## Timers -/

/-- `dispatch_source_set_timer` and `dispatch_resume`. -/
def setTimer (s : Publisher) (timer : Option Timer) (delayNs : UInt64) : Publisher :=
  s.note (.armed timer delayNs)

/-- `dispatch_source_create`. -/
def createTimer (a : Answers) (s : Publisher) : Option Timer × Publisher :=
  if a.createTimer then (some s.timers, { s.note (.created s.timers) with timers := s.timers + 1 })
  else (none, s)

/-- mirrors macos/receiver/cmio_sink_publisher.mm:426-439 -/
def startFeedTimer (a : Answers) (s : Publisher) : Publisher :=
  let (feedTimer, s) := createTimer a s
  let s := { s with feedTimer := feedTimer }
  if s.feedTimer = none then s
  else
    let target := s.feedStartNs + s.feedIndex * kPeriodNs
    setTimer s s.feedTimer (if target > a.later then target - a.later else 1)

/-- mirrors macos/receiver/cmio_sink_publisher.mm:441-445 -/
def cancelFeedTimer (s : Publisher) : Publisher :=
  match s.feedTimer with
  | none => s
  | some t => { s.note (.canceled t) with feedTimer := none }

/-- mirrors macos/receiver/cmio_sink_publisher.mm:713-717 -/
def cancelRetryTimer (s : Publisher) : Publisher :=
  match s.retryTimer with
  | none => s
  | some t => { s.note (.canceled t) with retryTimer := none }

/-- mirrors macos/receiver/cmio_sink_publisher.mm:696-711 -/
def scheduleRetry (a : Answers) (s : Publisher) : Publisher :=
  if s.desired = false ∨ s.retryTimer ≠ none then s
  else
    let (retryTimer, s) := createTimer a s
    let s := { s with retryTimer := retryTimer }
    if s.retryTimer = none then s else setTimer s s.retryTimer kRetryDelayNs

/-! ## Teardown -/

/-- `_released` is counted up for the samples, in order. -/
def countReleased (s : Publisher) (samples : List Sample) : Publisher :=
  { s with released := s.released + samples.length, log := s.log ++ samples.map Op.counted }

/-- mirrors macos/receiver/cmio_sink_publisher.mm:649-654 -/
def stopStream (s : Publisher) : Publisher :=
  if s.streamStarted = true ∧ s.deviceID ≠ 0 ∧ s.streamID ≠ 0 then
    { s.note (.stopStream s.deviceID s.streamID) with streamStarted := false }
  else s

/-- mirrors macos/receiver/cmio_sink_publisher.mm:655-672 -/
def dropQueue (s : Publisher) : Publisher :=
  match s.bufferQueue with
  | some queue => { s.note (.releaseQueue queue) with bufferQueue := none }
  | none => s

/-- mirrors macos/receiver/cmio_sink_publisher.mm:648-686 -/
def teardown (s : Publisher) : Publisher :=
  let s := dropQueue (stopStream s)
  let s := { s with format := false, deviceID := 0, streamID := 0 }
  { countReleased s s.held with held := [] }

/-- mirrors macos/receiver/cmio_sink_publisher.mm:642-646 -/
def reconnectSoon (a : Answers) (s : Publisher) : Publisher :=
  scheduleRetry a (teardown (cancelFeedTimer s))

/-! ## Opening the sink -/

/-- `caseInsensitiveCompare:` with the device's UUID.
mirrors macos/receiver/cmio_sink_publisher.mm:105-139 -/
def findDeviceByUID (a : Answers) (wanted : String) : Option ObjectID :=
  match a.devicesSize with
  | none => none
  | some size =>
    if size = 0 ∨ size > 8192 then none
    else
      (a.devices.getD []).findSome? fun (device, uid) =>
        if uid.any (fun uid => uid.toList.map Char.toLower == wanted.toList.map Char.toLower) then
          some device
        else none

/-- mirrors macos/camera-extension/ids.h:7 -/
def kKMDeviceIDString : String := "c1b67446-47cf-4d2e-9c5d-76a56127f3de"

/-- mirrors macos/receiver/cmio_sink_publisher.mm:371-422 -/
def locateSink (a : Answers) (s : Publisher) : Bool × Publisher :=
  match findDeviceByUID a kKMDeviceIDString with
  | none =>
    (false, setState { s with deviceID := 0 } .unavailable "device UID not found in CoreMediaIO")
  | some device =>
    let s := { s with deviceID := device.id }
    if a.streamsSize.all (fun size => size == 0 || size > 4096) then
      (false, setState s .unavailable "device has no streams")
    else
      match a.streams with
      | none => (false, setState s .unavailable "stream list read failed")
      | some streams =>
        match streams.find? (fun stream => stream.2 == some 0) with
        | none => (false, setState s .unavailable "sink-direction (output) stream not found")
        | some stream => (true, { s with streamID := stream.1.id })

/-- mirrors macos/receiver/cmio_sink_publisher.mm:258-309 -/
def openSink (a : Answers) (s : Publisher) : Publisher :=
  if s.desired = false then s
  else
    let s := setState (teardown (cancelFeedTimer (cancelRetryTimer s))) .opening "enumerating device"
    match locateSink a s with
    | (false, s) => scheduleRetry a s
    | (true, s) =>
      let status := a.copyBufferQueue.1
      let s := { s with bufferQueue := a.copyBufferQueue.2 }
      if status ≠ 0 ∨ s.bufferQueue = none then
        let s := setState s .disconnected ("CopyBufferQueue failed status=" ++ toString status)
        scheduleRetry a (teardown s)
      else
        let s := { s with format := a.format }
        if s.format = false then
          let s := setState s .disconnected "format description creation failed"
          scheduleRetry a (teardown s)
        else
          let s := s.note (.startStream s.deviceID s.streamID)
          if a.startStream ≠ 0 then
            let s := setState s .disconnected ("StartStream failed status=" ++ toString a.startStream)
            scheduleRetry a (teardown s)
          else
            let s := { s with
              streamStarted := true, feedStartNs := a.now, feedIndex := 1, lastConsumeNs := a.now }
            setState (startFeedTimer a s) .ready
              ("stream started, queue capacity=" ++ toString a.queueCapacity)

/-! ## Feeding it -/

/-- mirrors macos/receiver/cmio_sink_publisher.mm:607-626 -/
def syncConsumed (a : Answers) (s : Publisher) : Publisher :=
  if s.bufferQueue = none then s
  else
    let consumed := s.held.length - a.inQueue
    let s := { countReleased s (s.held.take consumed) with held := s.held.drop consumed }
    if consumed > 0 then { s with lastConsumeNs := a.consumedNow } else s

/-- mirrors macos/receiver/cmio_sink_publisher.mm:527-602 -/
def feedFrame (a : Answers) (s : Publisher) (frame : Frame) (target : UInt64) : Publisher :=
  if a.normalize720p frame = false then { s with failed := s.failed + 1 }
  else if a.sampleCreate = false then { s with failed := s.failed + 1 }
  else
    let sample := s.created
    let s := { s.note (.sample sample frame target) with created := s.created + 1 }
    match a.enqueue with
    | .queueIsFull =>
      let s := { s.note (.freed sample) with dropped := s.dropped + 1 }
      setState (countReleased s [sample]) .backpressure
        ("queue full (dropped=" ++ toString s.dropped ++ ")")
    | .other status =>
      let s := { s.note (.freed sample) with failed := s.failed + 1 }
      let s := setState (countReleased s [sample]) .disconnected
        ("enqueue failed status=" ++ toString status)
      reconnectSoon a s
    | .noErr =>
      let s := { s.note (.enqueued sample) with
        held := s.held ++ [sample], enqueued := s.enqueued + 1 }
      setState s .ready "frame enqueued"

/-- A fresh frame, else black. -/
def chooseFeed (a : Answers) (s : Publisher) : Option Frame × Publisher :=
  if s.pending.isSome && a.now ≤ s.pendingPublishNs + kFreshFeedNs then (s.pending, s)
  else
    let s := { s with blackFeed := s.blackFeed.or a.makeBlack720p }
    (s.blackFeed, s)

/-- The feed timer is armed for the next frame.
mirrors macos/receiver/cmio_sink_publisher.mm:510-525 -/
def rearm (a : Answers) (s : Publisher) (bursting : Bool) : Publisher :=
  if bursting then setTimer s s.feedTimer kBurstPeriodNs
  else
    let s := { s with feedIndex := s.feedIndex + 1 }
    let nextTarget := s.feedStartNs + s.feedIndex * kPeriodNs
    let s := { s with
      feedIndex := if nextTarget ≤ a.later then s.feedIndex + ((a.later - nextTarget) / kPeriodNs + 1)
        else s.feedIndex }
    let nextTarget := s.feedStartNs + s.feedIndex * kPeriodNs
    setTimer s s.feedTimer (nextTarget - a.later)

/-- `feedTick` from the choice of the frame to the end.
mirrors macos/receiver/cmio_sink_publisher.mm:476-525 -/
def feedPending (a : Answers) (s : Publisher) (bursting : Bool) (target : UInt64) : Publisher :=
  match chooseFeed a s with
  | (some feed, s) => rearm a (feedFrame a s feed target) bursting
  | (none, s) => rearm a s bursting

/-- mirrors macos/receiver/cmio_sink_publisher.mm:447-475 -/
def feedTick (a : Answers) (s : Publisher) : Publisher :=
  if s.feedTimer = none ∨ s.bufferQueue = none then s
  else if a.now < s.burstUntilNs then feedPending a (syncConsumed a s) true a.now
  else
    let target := s.feedStartNs + s.feedIndex * kPeriodNs
    let s := { s with
      feedIndex := if a.now > target + kPeriodNs then s.feedIndex + (a.now - target) / kPeriodNs
        else s.feedIndex }
    let target := s.feedStartNs + s.feedIndex * kPeriodNs
    let s := syncConsumed a s
    if a.queued > 0 ∧ a.now > s.lastConsumeNs + kConsumeWatchdogNs then
      reconnectSoon a (setState s .disconnected "extension stopped consuming (watchdog)")
    else feedPending a s false target

/-! ## Events -/

inductive Event where
  | start
  | stop
  | publish (frame : Frame)
  | burst (durationNs : UInt64)
  | feedTimer
  | retryTimer
  | reopen
  deriving DecidableEq

/-- mirrors macos/receiver/cmio_sink_publisher.mm:199-205 -/
def start (a : Answers) (s : Publisher) : Publisher :=
  if s.desired then s else openSink a { s with desired := true }

/-- mirrors macos/receiver/cmio_sink_publisher.mm:207-216 -/
def stop (s : Publisher) : Publisher :=
  let s := { s with desired := false, burstUntilNs := 0 }
  setState (teardown (cancelRetryTimer (cancelFeedTimer s))) .stopped "stopped by request"

/-- mirrors macos/receiver/cmio_sink_publisher.mm:218-227 -/
def publishPixelBuffer (a : Answers) (s : Publisher) (frame : Frame) : Publisher :=
  { s with pending := some frame, pendingPublishNs := a.now }

/-- mirrors macos/receiver/cmio_sink_publisher.mm:229-240 -/
def runFeedBurst (a : Answers) (s : Publisher) (durationNs : UInt64) : Publisher :=
  if s.feedTimer = none ∨ s.bufferQueue = none then s
  else
    let s := { s with burstUntilNs := a.now + durationNs }
    setTimer s s.feedTimer 0

/-- The retry timer is one-shot; `reopen` is the second half of its handler.
mirrors macos/receiver/cmio_sink_publisher.mm:701-706 -/
def handle (s : Publisher) (l : Answers × Event) : Publisher :=
  match l.2 with
  | .start => start l.1 s
  | .stop => stop s
  | .publish frame => publishPixelBuffer l.1 s frame
  | .burst durationNs => runFeedBurst l.1 s durationNs
  | .feedTimer => feedTick l.1 s
  | .retryTimer => openSink l.1 (cancelRetryTimer s)
  | .reopen => openSink l.1 s

end KmVirtualCamera.L4.SinkPublisher
