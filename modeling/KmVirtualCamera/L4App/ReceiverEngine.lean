import Mathlib
import KmVirtualCamera.L2Machine.DcVideo
import KmVirtualCamera.L2Machine.RtpVideo
import KmVirtualCamera.L2Machine.VideoQueue

/-!
# The receiver engine (`ReceiverEngine`)

The engine owns the two depacketizers and stamps what they emit. The first
DataChannel access unit wins the path; a keyframe is asked for, at most every
50 ms, until a configured IDR has arrived.

Every method is a function from the engine to the engine and the handler
calls it makes, in order. Handlers do not re-enter. A depacketizer runs first
and its callbacks are then replayed on the engine, which no depacketizer
reads.
-/
namespace KmVirtualCamera.L4.ReceiverEngine
open KmVirtualCamera.L1.H264 KmVirtualCamera.L2.VideoQueue
open KmVirtualCamera.L2

inductive MediaPath where
  | rtp | dataChannel
  deriving DecidableEq

inductive KeyframeChannel where
  | rtcp | dataChannel
  deriving DecidableEq

inductive TimestampDomain where
  | rtp90kHz | senderMicroseconds
  deriving DecidableEq

/-- mirrors shared/km/receiver_contracts.h:10-16 -/
structure EncodedVideoFrame where
  annexB : Bytes
  mediaTicks : Int
  timestampDomain : TimestampDomain
  receivedMonotonicNs : UInt64
  generation : UInt64
  randomAccess : Bool
  deriving DecidableEq

/-- mirrors shared/receiver/engine/receiver_engine.h:20-30 -/
structure ReceiverStats where
  rtpPackets : UInt64 := 0
  rtpPacketsDropped : UInt64 := 0
  dataChannelPackets : UInt64 := 0
  rtpFrames : UInt64 := 0
  dataChannelFrames : UInt64 := 0
  recoverySignals : UInt64 := 0
  keyframeRequestsDispatched : UInt64 := 0
  controlMessagesOut : UInt64 := 0
  lastFrameArrivalNs : UInt64 := 0

/-- mirrors shared/km/timing.h:23-25 -/
structure TimestampUnwrapper32 where
  last : Option UInt32 := none
  unwrapped : Int := 0

/-- mirrors shared/km/timing.h:15-21 -/
def unwrap (u : TimestampUnwrapper32) (value : UInt32) : TimestampUnwrapper32 × Int :=
  match u.last with
  | none => (⟨some value, value.toNat⟩, value.toNat)
  | some last =>
    let raw := (value - last).toNat
    let delta : Int := if raw ≤ 0x7fffffff then raw else raw - 2 ^ 32
    (⟨some value, u.unwrapped + delta⟩, u.unwrapped + delta)

/-- What the engine tells the platform. -/
inductive Output where
  | frame (f : EncodedVideoFrame)
  | keyframeRequest (c : KeyframeChannel)
  | controlSend (text : String)
  | loss (nowNs : UInt64)
  deriving DecidableEq

/-- mirrors shared/receiver/engine/receiver_engine.h:90-107 -/
structure Engine where
  rtpDepacketizer : RtpVideo.Depacketizer := {}
  dcDepacketizer : DcVideo.Depacketizer := {}
  rtpUnwrapper : TimestampUnwrapper32 := {}
  dcUnwrapper : TimestampUnwrapper32 := {}
  payloadTypes : List UInt8 := []
  stats : ReceiverStats := {}
  generation : UInt64 := 0
  currentArrivalNs : UInt64 := 0
  lastKeyframeRequestNs : Int := -1
  videoSsrc : UInt32 := 0
  haveVideoSsrc : Bool := false
  dataChannelVideo : Bool := false
  videoDcOpen : Bool := false
  needKeyframe : Bool := true

def kKeyframeThrottleNs : Int := 50000000

abbrev Act := Engine × List Output

/-- `int64_t(ns)` -/
def int64 (ns : UInt64) : Int := ns.toInt64.toInt

/-- mirrors shared/receiver/engine/receiver_engine.cpp:80-88 -/
def tryDispatchKeyframeRequest (nowNs : UInt64) (a : Act) : Act :=
  let (g, out) := a
  if g.lastKeyframeRequestNs ≥ 0 ∧ int64 nowNs - g.lastKeyframeRequestNs < kKeyframeThrottleNs then a
  else
    ({ g with lastKeyframeRequestNs := int64 nowNs,
              stats.keyframeRequestsDispatched := g.stats.keyframeRequestsDispatched + 1 },
     out ++ [.keyframeRequest (if g.dataChannelVideo || g.videoDcOpen then .dataChannel else .rtcp)])

/-- mirrors shared/receiver/engine/receiver_engine.cpp:90-104 -/
def emitFrame (data : Bytes) (mediaTicks : Int) (domain : TimestampDomain) (fromDataChannel : Bool)
    (a : Act) : Act :=
  let (g, out) := a
  let frame : EncodedVideoFrame :=
    { annexB := data, mediaTicks := mediaTicks, timestampDomain := domain,
      receivedMonotonicNs := g.currentArrivalNs, generation := g.generation,
      randomAccess := configuredIdr data }
  let g := if frame.randomAccess then { g with needKeyframe := false } else g
  let g := if fromDataChannel then { g with stats.dataChannelFrames := g.stats.dataChannelFrames + 1 }
    else { g with stats.rtpFrames := g.stats.rtpFrames + 1 }
  ({ g with stats.lastFrameArrivalNs := g.currentArrivalNs }, out ++ [.frame frame])

/-! ## The depacketizers' callbacks -/

/-- mirrors shared/receiver/engine/receiver_engine.cpp:9-18 -/
def onRtpEvent (a : Act) : RtpVideo.Event → Act
  | .emit e =>
    let (g, out) := a
    if g.dataChannelVideo then a
    else
      let (u, ticks) := unwrap g.rtpUnwrapper e.timestamp
      emitFrame e.data ticks .rtp90kHz false ({ g with rtpUnwrapper := u }, out)
  | .keyframe =>
    let (g, out) := a
    tryDispatchKeyframeRequest g.currentArrivalNs
      ({ g with stats.recoverySignals := g.stats.recoverySignals + 1, needKeyframe := true },
       out ++ [.loss g.currentArrivalNs])
  | _ => a

/-- mirrors shared/receiver/engine/receiver_engine.cpp:19-22 -/
def onDcFrame (a : Act) (e : DcVideo.Emission) : Act :=
  let (g, out) := a
  let (u, ticks) := unwrap g.dcUnwrapper e.out.timestamp
  emitFrame e.out.data ticks .senderMicroseconds true
    ({ g with dataChannelVideo := true, dcUnwrapper := u }, out)

/-- mirrors shared/receiver/engine/receiver_engine.cpp:23-26 -/
def onDcControl (a : Act) (c : DcVideo.Control) : Act :=
  ({ a.1 with stats.controlMessagesOut := a.1.stats.controlMessagesOut + 1 },
   a.2 ++ [.controlSend c.text])

/-- A batch of the DataChannel depacketizer: controls first, then frames.
mirrors shared/receiver/codec/dc_video_depacketizer.cpp:29-38 -/
def onDcBatch (a : Act) (b : DcVideo.Batch) : Act :=
  b.frames.foldl onDcFrame (b.controls.foldl onDcControl a)

/-! ## The engine's methods -/

/-- mirrors shared/receiver/engine/receiver_engine.cpp:29-44 -/
def processRtpVideoPacket (g : Engine) (data : Bytes) (arrivalNs : UInt64) : Act :=
  let g := { g with currentArrivalNs := arrivalNs, stats.rtpPackets := g.stats.rtpPackets + 1 }
  let dropped (g : Engine) : Act :=
    ({ g with stats.rtpPacketsDropped := g.stats.rtpPacketsDropped + 1 }, [])
  match L1.RtpWire.parseRtp data with
  | none => dropped g
  | some packet =>
    if packet.payloadType ∉ g.payloadTypes then dropped g
    else
      let g := if g.haveVideoSsrc = false ∨ g.videoSsrc ≠ packet.ssrc then
        { g with rtpUnwrapper := {}, videoSsrc := packet.ssrc, haveVideoSsrc := true } else g
      if g.dataChannelVideo then dropped g
      else
        let c := RtpVideo.processRtpPacket g.rtpDepacketizer [] data
        c.2.foldl onRtpEvent ({ g with rtpDepacketizer := c.1 }, [])

/-- `int64_t(ns / 1000)`: microseconds, never negative. -/
def micros (ns : UInt64) : Int := (ns / 1000).toNat

/-- mirrors shared/receiver/engine/receiver_engine.cpp:46-50 -/
def processDataChannelPacket (g : Engine) (data : Bytes) (arrivalNs : UInt64) : Act :=
  let g := { g with currentArrivalNs := arrivalNs,
                    stats.dataChannelPackets := g.stats.dataChannelPackets + 1 }
  let c := DcVideo.processPacketAt g.dcDepacketizer data (micros arrivalNs)
  onDcBatch ({ g with dcDepacketizer := c.1 }, []) c.2

/-- mirrors shared/receiver/engine/receiver_engine.cpp:69-72 -/
def requestKeyframe (g : Engine) (nowNs : UInt64) : Act :=
  tryDispatchKeyframeRequest nowNs ({ g with needKeyframe := true }, [])

/-- mirrors shared/receiver/engine/receiver_engine.cpp:52-56 -/
def onTimer (g : Engine) (nowNs : UInt64) : Act :=
  let g := { g with currentArrivalNs := nowNs }
  let c := DcVideo.onTimerTickAt g.dcDepacketizer (micros nowNs)
  let a := onDcBatch ({ g with dcDepacketizer := c.1 }, []) c.2
  if a.1.needKeyframe then tryDispatchKeyframeRequest nowNs a else a

/-- mirrors shared/receiver/engine/receiver_engine.cpp:58-66 -/
def onDataChannelVideoClosed (g : Engine) : Engine :=
  { g with dataChannelVideo := false, videoDcOpen := false,
           dcDepacketizer := DcVideo.reset g.dcDepacketizer, dcUnwrapper := {},
           rtpDepacketizer := RtpVideo.reset g.rtpDepacketizer, rtpUnwrapper := {},
           needKeyframe := true }

/-- mirrors shared/receiver/engine/receiver_engine.cpp:73-78 -/
def reset (g : Engine) : Engine :=
  { onDataChannelVideoClosed g with haveVideoSsrc := false, videoSsrc := 0, lastKeyframeRequestNs := -1 }

/-- mirrors shared/receiver/engine/receiver_engine.h:62-64 -/
def onVideoDataChannelOpened (g : Engine) : Engine := { g with videoDcOpen := true }

def activePath (g : Engine) : MediaPath := if g.dataChannelVideo then .dataChannel else .rtp

end KmVirtualCamera.L4.ReceiverEngine
