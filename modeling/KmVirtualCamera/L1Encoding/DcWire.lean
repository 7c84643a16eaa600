import Mathlib
import KmVirtualCamera.L1Encoding.H264

/-!
# The video DataChannel packet

Both ends of one wire format. The browser cuts an access unit into packets of
a 12-byte little-endian header and at most 1180 payload bytes
(`cloud/web/src/dc_packetizer.ts`); the receiver reads the header byte by byte
(`shared/common/data_channel_protocol.h`, `ProcessPacketAt`).

`parsePacket` is the receiver's header check. A `DcPacket` can only be what
passed it: the fields it proves (an index below the count, a payload of 1 to
1180 bytes) are fields of the structure.

JavaScript numbers are the rationals, plus one value for the NaNs and
infinities; `Number.isInteger`, `ToUint32` and the `DataView` setters follow
their documented meaning.

* `parsePacket_packet`: every packet the sender writes passes the check and
  reads back as the fields it was made from.
* `flatten_parts`: the payloads, in index order, are the access unit.
-/
namespace KmVirtualCamera.L1.DcWire
open KmVirtualCamera.ByteOrder
open KmVirtualCamera.L1.H264 (Bytes)

def kDcMagic : UInt16 := 0x4B4D
def kPayloadH264 : UInt8 := 1
def kMaxDcChunkPayload : Nat := 1180
def kMaxDcPacketSize : Nat := 12 + kMaxDcChunkPayload

/-! ## The receiver's header check -/

structure DcPacket where
  flags : UInt8
  index : UInt8
  count : UInt8
  seq : UInt16
  timestamp : UInt32
  payload : Bytes
  index_lt : index.toNat < count.toNat
  payload_ne : payload ≠ []
  payload_le : payload.length ≤ kMaxDcChunkPayload

/-- The flags every packet of a frame has to agree on (key, config). -/
def DcPacket.stableFlags (p : DcPacket) : UInt8 := p.flags &&& 3

/-- The checks of `ProcessPacketAt` on the packet alone; `none` is its early
return. A packet that does not match the pattern has fewer than 12 bytes.
mirrors shared/receiver/codec/dc_video_depacketizer.cpp:60-65 -/
def parsePacket (p : Bytes) : Option DcPacket :=
  match p with
  | m0 :: m1 :: flags :: payloadType :: index :: count :: s0 :: s1 :: t0 :: t1 :: t2 :: t3 :: payload =>
    if h : payload ≠ [] ∧ payload.length ≤ kMaxDcChunkPayload ∧ index.toNat < count.toNat then
      if le16 m0 m1 ≠ kDcMagic ∨ payloadType ≠ kPayloadH264 ∨ flags &&& 0xf0 ≠ 0 then none
      else if decide (flags &&& 4 ≠ 0) ≠ decide (index = 0) ∨
          decide (flags &&& 8 ≠ 0) ≠ decide (index.toNat + 1 = count.toNat) then none
      else some ⟨flags, index, count, le16 s0 s1, le32 t0 t1 t2 t3, payload, h.2.2, h.1, h.2.1⟩
    else none
  | _ => none

/-! ## JavaScript numbers -/

inductive JsNumber where
  | finite (q : ℚ)
  | nonFinite
  deriving DecidableEq

namespace JsNumber

def isInteger : JsNumber → Bool
  | finite q => q.den == 1
  | nonFinite => false

/-- `Number.isSafeInteger`: an integer of magnitude at most 2^53 - 1. -/
def isSafeInteger : JsNumber → Bool
  | finite q => q.den == 1 && decide (q.num.natAbs ≤ 2 ^ 53 - 1)
  | nonFinite => false

/-- `ToUint32`, which `x >>> 0`, `x & 0xffff` and the setters go through. -/
def toUint32 : JsNumber → UInt32
  | finite q => UInt32.ofNat ((q.num.tdiv q.den) % 2 ^ 32).toNat
  | nonFinite => 0

end JsNumber

/-! ## The browser's packetizer -/

def DC_PAYLOAD_BYTES : Nat := 1180
def DC_MAX_CHUNKS : Nat := 255
def DC_MAX_AU_BYTES : Nat := DC_PAYLOAD_BYTES * DC_MAX_CHUNKS

inductive SendResult where
  | sent | tooLarge | invalid | sendFailed
  deriving DecidableEq, Repr

/-- `data.subarray(i * DC_PAYLOAD_BYTES, (i + 1) * DC_PAYLOAD_BYTES)` -/
def part (data : Bytes) (i : Nat) : Bytes := (data.drop (i * DC_PAYLOAD_BYTES)).take DC_PAYLOAD_BYTES

/-- mirrors cloud/web/src/dc_packetizer.ts:17 -/
def flagByte (keyframe first last : Bool) : UInt8 :=
  (if keyframe then 1 else 0) ||| (if first then 4 else 0) ||| (if last then 8 else 0)

def chunkFlags (keyframe : Bool) (i count : Nat) : UInt8 :=
  flagByte keyframe (i == 0) (i + 1 == count)

/-- The buffer built in one turn of the loop.
mirrors cloud/web/src/dc_packetizer.ts:14-20 -/
def packet (data : Bytes) (seq timestampUs : JsNumber) (keyframe : Bool) (count i : Nat) : Bytes :=
  le16Bytes 0x4b4d ++
  [chunkFlags keyframe i count, 1, UInt8.ofNat i, UInt8.ofNat count] ++
  le16Bytes (seq.toUint32 &&& 0xffff).toUInt16 ++
  le32Bytes timestampUs.toUint32 ++
  part data i

/-- `Math.ceil(data.byteLength / DC_PAYLOAD_BYTES)` -/
def chunkCount (data : Bytes) : Nat := (data.length + (DC_PAYLOAD_BYTES - 1)) / DC_PAYLOAD_BYTES

/-- The loop, `i` chunks sent and `n` to go. `send i` is whether the call for
chunk `i` returns (it may throw); the packets are those whose call returned.
mirrors cloud/web/src/dc_packetizer.ts:13-22 -/
def sendLoop (mk : Nat → Bytes) (send : Nat → Bool) : Nat → Nat → SendResult × List Bytes
  | 0, _ => (.sent, [])
  | n + 1, i =>
    if send i then ((sendLoop mk send n (i + 1)).1, mk i :: (sendLoop mk send n (i + 1)).2)
    else (.sendFailed, [])

/-- mirrors cloud/web/src/dc_packetizer.ts:6-24 -/
def sendAccessUnit (data : Bytes) (seq timestampUs : JsNumber) (keyframe : Bool)
    (send : Nat → Bool) : SendResult × List Bytes :=
  if data.length > DC_MAX_AU_BYTES then (.tooLarge, [])
  else if data.length = 0 ∨ timestampUs.isSafeInteger = false ∨ seq.isInteger = false then (.invalid, [])
  else sendLoop (packet data seq timestampUs keyframe (chunkCount data)) send (chunkCount data) 0

/-! ## Numbers -/

theorem JsNumber.toUint32_int (n : Int) :
    ((finite n).toUint32.toNat : Int) = n % 2 ^ 32 := by
  have h : (n % 2 ^ 32).toNat < 2 ^ 32 := by omega
  simp only [toUint32, Rat.num_intCast, Rat.den_intCast, Nat.cast_one, Int.tdiv_one,
    UInt32.toNat_ofNat', Nat.mod_eq_of_lt h]
  omega

theorem JsNumber.toUint16_int (n : Int) :
    (((finite n).toUint32 &&& 0xffff).toUInt16.toNat : Int) = n % 2 ^ 16 := by
  have h := toUint32_int n
  rw [UInt32.toNat_toUInt16, UInt32.toNat_and]
  have : (0xffff : UInt32).toNat = 2 ^ 16 - 1 := rfl
  rw [this, Nat.and_two_pow_sub_one_eq_mod]
  omega

theorem JsNumber.isInteger_iff (x : JsNumber) : x.isInteger = true ↔ ∃ n : Int, x = finite n := by
  cases x with
  | finite q =>
    simp only [isInteger, beq_iff_eq, JsNumber.finite.injEq]
    constructor
    · intro h; exact ⟨q.num, (Rat.den_eq_one_iff q).mp h |>.symm⟩
    · rintro ⟨n, rfl⟩; simp
  | nonFinite => simp [isInteger]

theorem JsNumber.isSafeInteger_int (n : Int) (h : n.natAbs ≤ 2 ^ 53 - 1) :
    (finite n).isSafeInteger = true := by
  simp only [isSafeInteger, Rat.num_intCast, Rat.den_intCast, beq_self_eq_true, Bool.true_and]
  exact decide_eq_true h

/-! ## Cutting and joining -/

theorem flatMap_slices {α : Type*} (n : Nat) (l : List α) (k : Nat) :
    ((List.range k).flatMap fun i => (l.drop (i * n)).take n) = l.take (k * n) := by
  induction k with
  | zero => simp
  | succ k ih =>
    rw [List.range_succ, List.flatMap_append, ih, Nat.succ_mul, List.take_add]
    simp

/-- The parts, in order, are the access unit. -/
theorem flatten_parts (data : Bytes) :
    ((List.range (chunkCount data)).map (part data)).flatten = data := by
  have h := flatMap_slices DC_PAYLOAD_BYTES data (chunkCount data)
  rw [List.flatMap_def] at h
  show ((List.range (chunkCount data)).map fun i => part data i).flatten = data
  unfold part
  rw [h]
  apply List.take_of_length_le
  unfold chunkCount DC_PAYLOAD_BYTES
  omega

theorem part_ne_nil {data : Bytes} {i : Nat} (h : i < chunkCount data) : part data i ≠ [] := by
  unfold chunkCount DC_PAYLOAD_BYTES at h
  unfold part DC_PAYLOAD_BYTES
  intro h0
  have := congrArg List.length h0
  simp only [List.length_take, List.length_drop, List.length_nil] at this
  omega

theorem part_length_le (data : Bytes) (i : Nat) : (part data i).length ≤ kMaxDcChunkPayload := by
  simp only [part, List.length_take, DC_PAYLOAD_BYTES, kMaxDcChunkPayload]; omega

theorem chunkCount_pos {data : Bytes} (h : data.length ≠ 0) : 0 < chunkCount data := by
  unfold chunkCount DC_PAYLOAD_BYTES; omega

theorem chunkCount_le {data : Bytes} (h : data.length ≤ DC_MAX_AU_BYTES) :
    chunkCount data ≤ DC_MAX_CHUNKS := by
  unfold chunkCount
  simp only [DC_MAX_AU_BYTES, DC_PAYLOAD_BYTES, DC_MAX_CHUNKS] at *
  omega

/-! ## Packets read back -/

theorem flagByte_bits : ∀ k f l : Bool, flagByte k f l &&& 0xf0 = 0 ∧
    decide (flagByte k f l &&& 4 ≠ 0) = f ∧ decide (flagByte k f l &&& 8 ≠ 0) = l ∧
    flagByte k f l &&& 3 = if k then 1 else 0 := by
  decide

/-- The packet the sender means by chunk `i` of `count`. -/
def chunkPacket (data : Bytes) (seq timestampUs : JsNumber) (keyframe : Bool) (count i : Nat)
    (hc : count ≤ DC_MAX_CHUNKS) (hi : i < count) (hne : part data i ≠ []) : DcPacket where
  flags := chunkFlags keyframe i count
  index := UInt8.ofNat i
  count := UInt8.ofNat count
  seq := (seq.toUint32 &&& 0xffff).toUInt16
  timestamp := timestampUs.toUint32
  payload := part data i
  index_lt := by
    unfold DC_MAX_CHUNKS at hc
    rw [UInt8.toNat_ofNat', UInt8.toNat_ofNat']; omega
  payload_ne := hne
  payload_le := part_length_le data i

theorem parsePacket_packet (data : Bytes) (seq timestampUs : JsNumber) (keyframe : Bool)
    (count i : Nat) (hc : count ≤ DC_MAX_CHUNKS) (hi : i < count) (hne : part data i ≠ []) :
    parsePacket (packet data seq timestampUs keyframe count i) =
      some (chunkPacket data seq timestampUs keyframe count i hc hi hne) := by
  have hidx : (UInt8.ofNat i).toNat = i := by
    unfold DC_MAX_CHUNKS at hc; rw [UInt8.toNat_ofNat']; omega
  have hcnt : (UInt8.ofNat count).toNat = count := by
    unfold DC_MAX_CHUNKS at hc; rw [UInt8.toNat_ofNat']; omega
  have hzero : decide (UInt8.ofNat i = 0) = (i == 0) := by
    rw [Bool.eq_iff_iff, decide_eq_true_eq, beq_iff_eq, ← UInt8.toNat_inj, hidx]; simp
  have hlast : decide (i + 1 = count) = (i + 1 == count) := by simp [beq_eq_decide]
  obtain ⟨hb1, hb2, hb3, -⟩ := flagByte_bits keyframe (i == 0) (i + 1 == count)
  have hmagic : le16 (0x4b4d : UInt16).toUInt8 ((0x4b4d : UInt16) >>> 8).toUInt8 = kDcMagic :=
    le16_le16Bytes _
  simp only [packet, le16Bytes, le32Bytes, List.cons_append, List.nil_append, parsePacket, hidx, hcnt,
    hmagic, le16_le16Bytes, le32_le32Bytes, chunkFlags, hb1, hb2, hb3, hzero, hlast]
  rw [dif_pos ⟨hne, part_length_le data i, hi⟩, if_neg (by simp [kPayloadH264]), if_neg (by simp)]
  rfl

theorem sendLoop_all {mk : Nat → Bytes} {send : Nat → Bool} (h : ∀ i, send i = true) :
    ∀ n i, sendLoop mk send n i = (.sent, (List.range' i n).map mk)
  | 0, i => rfl
  | n + 1, i => by
    simp only [sendLoop, h, if_true, sendLoop_all h n (i + 1), List.range'_succ, List.map_cons]

/-- Whatever the sends do, the packets that went out are the first ones. -/
theorem sendLoop_get {mk : Nat → Bytes} {send : Nat → Bool} : ∀ {n i j : Nat} {b : Bytes},
    (sendLoop mk send n i).2[j]? = some b → j < n ∧ b = mk (i + j)
  | 0, i, j, b, h => by cases h
  | n + 1, i, j, b, h => by
    simp only [sendLoop] at h
    split at h
    · cases j with
      | zero =>
        cases h
        exact ⟨Nat.succ_pos n, rfl⟩
      | succ j =>
        obtain ⟨hj, hb⟩ := sendLoop_get h
        refine ⟨Nat.succ_lt_succ hj, ?_⟩
        rw [hb, show i + 1 + j = i + (j + 1) by omega]
    · cases h

theorem sendAccessUnit_get {data : Bytes} {seq timestampUs : JsNumber} {keyframe : Bool}
    {send : Nat → Bool} {i : Nat} {b : Bytes}
    (h : (sendAccessUnit data seq timestampUs keyframe send).2[i]? = some b) :
    i < chunkCount data ∧ b = packet data seq timestampUs keyframe (chunkCount data) i := by
  unfold sendAccessUnit at h
  split at h
  · cases h
  split at h
  · cases h
  obtain ⟨hi, hb⟩ := sendLoop_get h
  exact ⟨hi, by rw [hb, Nat.zero_add]⟩

/-- With every send returning, the whole access unit goes out. -/
theorem sendAccessUnit_all (data : Bytes) (seq timestampUs : JsNumber) (keyframe : Bool)
    (send : Nat → Bool) (h : ∀ i, send i = true) (hlen : data.length ≤ DC_MAX_AU_BYTES)
    (hne : data.length ≠ 0) (ht : timestampUs.isSafeInteger = true) (hs : seq.isInteger = true) :
    sendAccessUnit data seq timestampUs keyframe send =
      (.sent, (List.range (chunkCount data)).map
        (packet data seq timestampUs keyframe (chunkCount data))) := by
  unfold sendAccessUnit
  rw [if_neg (by omega), if_neg (by simp [hne, ht, hs]), sendLoop_all h, List.range_eq_range']

end KmVirtualCamera.L1.DcWire
