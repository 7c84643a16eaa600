import Mathlib
import KmVirtualCamera.Core.OrdMap
import KmVirtualCamera.L1Encoding.RtpWire
import KmVirtualCamera.L2Machine.DcVideo

/-!
# Opus over RTP (`OpusRtpDecoder`)

A jitter buffer of at most 16 packets in front of libopus. `Receive` keeps a
packet and plays what is due; `Tick` plays a packet 20 ms after it arrived, the
next one the decoder expects or, 40 ms after it arrived, the nearest later one.

libopus is a parameter: `W` is whatever it keeps, `D` a decoder's address. Times
are microseconds as `Int`; the differences of times that are not negative stay
in 64 bits. Two fields are not in the source and no function reads them: the
number its sender gave a packet, of which the 16-bit sequence number is the low
part, and the number `expected` stands for. `log` is what has been handed to the
decoder and to the callback.
-/
namespace KmVirtualCamera.L2.OpusRtp
open L1.RtpWire (Bytes RtpPacket parseRtp sequenceDelta)
open scoped KmVirtualCamera.L2.DcVideo

/-- The part of libopus that is called; `decode` also gives the buffer it filled. -/
structure Opus (W D : Type) where
  create : W → W × Option D × Int
  destroy : W → D → W
  decode : W → D → Option Bytes → Int → W × Int × List Int16
  nbSamples : Bytes → Int

/-- mirrors shared/receiver/audio/opus_rtp_decoder.cpp:27 -/
structure Pending where
  bytes : Bytes
  timestamp : UInt32
  arrival : Int
  /-- the sender's number of the packet -/
  number : Int

inductive Event where
  /-- a payload is given to the decoder -/
  | payload (packet : Pending) (now : Int)
  /-- the callback -/
  | pcm (elements : List Int16) (channels rate : Nat)

/-- mirrors shared/receiver/audio/opus_rtp_decoder.cpp:28-35 -/
structure Impl (W D : Type) where
  pending : OrdMap UInt16 Pending := .empty
  callback : Bool
  payloadType : UInt8 := 111
  expected : UInt16 := 0
  ssrc : Option UInt32 := none
  endTimestamp : Option UInt32 := none
  played : Bool := false
  decoder : Option D := none
  lib : W
  /-- the number `expected` stands for -/
  cursor : Int := 0
  log : List Event := []

variable {W D : Type} (o : Opus W D)

/-- mirrors shared/receiver/audio/opus_rtp_decoder.cpp:37-40 -/
def recreate (s : Impl W D) : Impl W D × Bool :=
  let lib := match s.decoder with
    | some d => o.destroy s.lib d
    | none => s.lib
  let (lib, decoder, error) := o.create lib
  ({ s with lib := lib, decoder := decoder }, decoder.isSome && error == 0)

/-- `capacity` is in frames of two elements.
mirrors shared/receiver/audio/opus_rtp_decoder.cpp:41-48 -/
def decode (s : Impl W D) (bytes : Option Bytes) (capacity : Int) : Impl W D × Bool :=
  let (s, ready) := if s.decoder.isSome then (s, true) else recreate o s
  match ready, s.decoder with
  | true, some d =>
    let (lib, frames, pcm) := o.decode s.lib d bytes capacity
    if frames ≤ 0 ∨ frames > capacity then ({ s with lib := lib }, false)
    else
      let log := if s.callback then s.log ++ [.pcm (pcm.take (frames.toNat * 2)) 2 48000] else s.log
      ({ s with lib := lib, log := log }, true)
  | _, _ => (s, false)

/-- mirrors shared/receiver/audio/opus_rtp_decoder.cpp:59-64 -/
def reset (s : Impl W D) : Impl W D :=
  { s with
    pending := .empty
    ssrc := none
    endTimestamp := none
    played := false
    lib := match s.decoder with
      | some d => o.destroy s.lib d
      | none => s.lib
    decoder := none }

/-- mirrors shared/receiver/audio/opus_rtp_decoder.cpp:55-58 -/
def configure (s : Impl W D) (payloadType : UInt8) (callback : Bool) : Impl W D :=
  (recreate o (reset o { s with payloadType := payloadType, callback := callback })).1

/-! ## `Tick` -/

/-- The candidate met with the least distance so far.
mirrors shared/receiver/audio/opus_rtp_decoder.cpp:93-96 -/
def nearer (expected : UInt16) (best : Int × Option (UInt16 × Pending)) (candidate : UInt16 × Pending) :
    Int × Option (UInt16 × Pending) :=
  let distance := sequenceDelta candidate.1 expected
  if 0 ≤ distance ∧ distance < best.1 then (distance, some candidate) else best

/-- mirrors shared/receiver/audio/opus_rtp_decoder.cpp:92-96 -/
def nearest (s : Impl W D) : Option (UInt16 × Pending) :=
  (s.pending.toList.foldl (nearer s.expected) (32768, none)).2

/-- The packet the loop turns to, and the state that expects it.
mirrors shared/receiver/audio/opus_rtp_decoder.cpp:90-99 -/
def locate (s : Impl W D) (now : Int) : Option (Impl W D × Pending) :=
  match s.pending.find? s.expected with
  | some packet => some (s, packet)
  | none =>
    match nearest s with
    | none => none
    | some (key, packet) =>
      if now - packet.arrival < 40000 then none
      else some ({ s with expected := key, cursor := packet.number }, packet)

/-- mirrors shared/receiver/audio/opus_rtp_decoder.cpp:101 -/
def takeOut (s : Impl W D) : Impl W D :=
  { s with
    pending := s.pending.erase s.expected
    expected := s.expected + 1
    played := true
    cursor := s.cursor + 1 }

/-- How far a timestamp is past the end of what was decoded.
mirrors shared/receiver/audio/opus_rtp_decoder.cpp:106-107 -/
def gap (timestamp endTimestamp : UInt32) : Int :=
  let raw := timestamp - endTimestamp
  if raw.toNat ≤ 2147483647 then raw.toNat else raw.toNat - 4294967296

/-- The decoder starts over.
mirrors shared/receiver/audio/opus_rtp_decoder.cpp:102,104,115 -/
def startOver (s : Impl W D) : Impl W D :=
  { (recreate o s).1 with endTimestamp := none }

/-- mirrors shared/receiver/audio/opus_rtp_decoder.cpp:109-112 -/
def conceal (s : Impl W D) (gap : Int) : Impl W D :=
  if gap > 0 then
    if gap ≤ 5760 ∧ gap % 120 = 0 then (decode o s none gap).1 else (recreate o s).1
  else s

/-- mirrors shared/receiver/audio/opus_rtp_decoder.cpp:114-115 -/
def decodePacket (s : Impl W D) (packet : Pending) (now duration : Int) : Impl W D :=
  let (s, ok) := decode o { s with log := s.log ++ [.payload packet now] } (some packet.bytes) 5760
  if ok then { s with endTimestamp := some (packet.timestamp + UInt32.ofInt duration) } else startOver o s

/-- mirrors shared/receiver/audio/opus_rtp_decoder.cpp:102-115 -/
def playPacket (s : Impl W D) (packet : Pending) (now : Int) : Impl W D :=
  if now - packet.arrival > 120000 then startOver o s
  else
    let duration := o.nbSamples packet.bytes
    if duration ≤ 0 ∨ duration > 5760 then startOver o s
    else
      match s.endTimestamp with
      | some endTimestamp =>
        let gap := gap packet.timestamp endTimestamp
        -- a stale timestamp never takes the decoder back
        if gap < 0 then s else decodePacket o (conceal o s gap) packet now duration
      | none => decodePacket o s packet now duration

/-- The loop of `Tick`; `budget` is what is left of its 16 turns. -/
def tickLoop (s : Impl W D) (now : Int) : Nat → Impl W D
  | 0 => s
  | budget + 1 =>
    if s.pending.size = 0 then s
    else
      match locate s now with
      | none => s
      | some (s, packet) =>
        if now - packet.arrival < 20000 then s else tickLoop (playPacket o (takeOut s) packet now) now budget

/-- mirrors shared/receiver/audio/opus_rtp_decoder.cpp:87-117 -/
def tick (s : Impl W D) (now : Int) : Impl W D := tickLoop o s now 16

/-! ## `Receive` -/

/-- The stream of the packet is the one that is played.
mirrors shared/receiver/audio/opus_rtp_decoder.cpp:69-70 -/
def follow (s : Impl W D) (packet : RtpPacket) (number : Int) : Impl W D :=
  let s := if s.ssrc.any (· ≠ packet.ssrc) then reset o s else s
  if s.ssrc.isNone then { s with ssrc := some packet.ssrc, expected := packet.sequence, cursor := number }
  else s

/-- `none`: the packet is late.
mirrors shared/receiver/audio/opus_rtp_decoder.cpp:71-75 -/
def accept (s : Impl W D) (packet : RtpPacket) (number : Int) : Option (Impl W D) :=
  let delta := sequenceDelta packet.sequence s.expected
  if delta < 0 then
    if s.played ∨ delta < -16 then none
    else some { s with expected := packet.sequence, cursor := number }
  else some s

/-- mirrors shared/receiver/audio/opus_rtp_decoder.cpp:76-81 -/
def keep (s : Impl W D) (packet : RtpPacket) (now number : Int) : Option (Impl W D) :=
  if (s.pending.find? packet.sequence).isSome then none
  else
    let s := if s.pending.size ≥ 16 then
        { reset o s with ssrc := some packet.ssrc, expected := packet.sequence, cursor := number }
      else s
    some { s with pending := s.pending.insert packet.sequence ⟨packet.payload, packet.timestamp, now, number⟩ }

/-- What a packet that is let in by its header does.
mirrors shared/receiver/audio/opus_rtp_decoder.cpp:69-82 -/
def receivePacket (s : Impl W D) (packet : RtpPacket) (now number : Int) : Impl W D :=
  match accept (follow o s packet number) packet number with
  | none => follow o s packet number
  | some s =>
    match keep o s packet now number with
    | none => s
    | some s => tick o s now

/-- The checks before the packet is looked at.
mirrors shared/receiver/audio/opus_rtp_decoder.cpp:67-68 -/
def opusPacket (s : Impl W D) (bytes : Bytes) (now : Int) : Option RtpPacket :=
  (parseRtp bytes).filter fun packet =>
    packet.payloadType = s.payloadType ∧ packet.payload.length ≤ 8192 ∧ 0 ≤ now

/-- `number` is the sender's number of the packet in the datagram.
mirrors shared/receiver/audio/opus_rtp_decoder.cpp:65-86 -/
def receive (s : Impl W D) (bytes : Bytes) (now number : Int) : Impl W D :=
  match opusPacket s bytes now with
  | none => s
  | some packet => receivePacket o s packet now number

end KmVirtualCamera.L2.OpusRtp
