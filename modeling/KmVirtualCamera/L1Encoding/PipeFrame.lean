import Mathlib
import KmVirtualCamera.Core.ByteOrder

/-!
# The header of a frame on the pipe (`km::protocol`)

Before each NV12 picture the publisher writes 64 bytes, little-endian and packed.
`serializeHeader` is the `memcpy` of the packed struct on a little-endian machine.
-/
namespace KmVirtualCamera.L1.PipeFrame
open ByteOrder

abbrev Bytes := List UInt8

/-- `WRTCVF01` -/
def kMagic : Bytes := [87, 82, 84, 67, 86, 70, 48, 49]
def kProtocolVersion : UInt16 := 1
def kHeaderSize : UInt16 := 64
def kWidth : UInt32 := 1280
def kHeight : UInt32 := 720
/-- `NV12` -/
def kFourCcNv12 : UInt32 := 0x3231564E
def kStrideY : UInt32 := 1280
def kStrideUv : UInt32 := 1280
/-- mirrors windows/common/frame_pipe_protocol.h:21 -/
def kPayloadBytes : UInt32 := kStrideY * kHeight + kStrideUv * (kHeight / 2)

/-- mirrors windows/common/frame_pipe_protocol.h:30-45 -/
structure FrameHeader where
  magic : Bytes
  version : UInt16
  headerSize : UInt16
  flags : UInt32
  sequence : UInt64
  captureTimeUs : Int64
  width : UInt32
  height : UInt32
  fourcc : UInt32
  strideY : UInt32
  strideUV : UInt32
  payloadBytes : UInt32
  headerCrc32 : UInt32
  payloadCrc32 : UInt32

/-- mirrors windows/common/frame_pipe_protocol.h:95-112 -/
def createDefaultHeader (sequence : UInt64) (captureTimeUs : Int64) (flags : UInt32) : FrameHeader where
  magic := kMagic
  version := kProtocolVersion
  headerSize := kHeaderSize
  flags := flags
  sequence := sequence
  captureTimeUs := captureTimeUs
  width := kWidth
  height := kHeight
  fourcc := kFourCcNv12
  strideY := kStrideY
  strideUV := kStrideUv
  payloadBytes := kPayloadBytes
  headerCrc32 := 0
  payloadCrc32 := 0

/-- mirrors windows/common/frame_pipe_protocol.h:51-53 -/
def serializeHeader (h : FrameHeader) : Bytes :=
  h.magic ++ leBytes 2 h.version.toNat ++ leBytes 2 h.headerSize.toNat ++ leBytes 4 h.flags.toNat ++
    leBytes 8 h.sequence.toNat ++ leBytes 8 h.captureTimeUs.toUInt64.toNat ++ leBytes 4 h.width.toNat ++
    leBytes 4 h.height.toNat ++ leBytes 4 h.fourcc.toNat ++ leBytes 4 h.strideY.toNat ++
    leBytes 4 h.strideUV.toNat ++ leBytes 4 h.payloadBytes.toNat ++ leBytes 4 h.headerCrc32.toNat ++
    leBytes 4 h.payloadCrc32.toNat

theorem serializeHeader_length {h : FrameHeader} (hm : h.magic.length = 8) :
    (serializeHeader h).length = kHeaderSize.toNat := by
  simp only [serializeHeader, List.length_append, leBytes_length, hm]
  rfl

end KmVirtualCamera.L1.PipeFrame
