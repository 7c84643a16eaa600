import Mathlib
import KmVirtualCamera.Core.ByteOrder

/-!
# The transport-cc feedback packet

The second half of `TwccReceiver::BuildFeedbackPacket` (twcc_receiver.cpp):
packet statuses to chunks and deltas, and these to bytes. `decodeFeedback` is
the sender's side, from the transport-wide-cc draft: chunks until the status
count is reached, then one delta for each packet received.

* `decode_feedbackPacket`: the decoder reads back what was encoded.
* `feedbackPacket_length`: the length field counts the packet.
-/
namespace KmVirtualCamera.L1.TwccFeedback
open KmVirtualCamera.ByteOrder

abbrev Bytes := List UInt8

/-! ## Statuses -/

/-- The deltas a status can carry: none, one unsigned byte, two signed bytes. -/
def Fits : Nat → Int → Prop
  | 0, units => units = 0
  | 1, units => 0 ≤ units ∧ units ≤ 255
  | 2, units => -32768 ≤ units ∧ units ≤ 32767
  | _, _ => False

/-- mirrors shared/receiver/rtc/twcc_receiver.cpp:147-150 -/
structure PacketStatus where
  status : Nat
  deltaUnits : Int
  fits : Fits status deltaUnits

def notReceived : PacketStatus := ⟨0, 0, rfl⟩

def kSmallDeltaMaxUnits : Int := 255

/-- Small if it fits a byte, else clamped to two.
mirrors shared/receiver/rtc/twcc_receiver.cpp:178-202 -/
def received (units : Int) : PacketStatus :=
  if h : 0 ≤ units ∧ units ≤ kSmallDeltaMaxUnits then ⟨1, units, h⟩
  else ⟨2, max (-32768) (min 32767 units), ⟨le_max_left _ _, max_le (by decide) (min_le_left _ _)⟩⟩

theorem PacketStatus.status_le (s : PacketStatus) : s.status ≤ 2 := by
  obtain ⟨status, units, h⟩ := s
  unfold Fits at h
  split at h
  · exact Nat.zero_le 2
  · exact Nat.le_succ 1
  · exact Nat.le_refl 2
  · exact h.elim

/-! ## Chunks and deltas -/

/-- How many packets from here on share the first one's status.
mirrors shared/receiver/rtc/twcc_receiver.cpp:214-218 -/
def runLen : List PacketStatus → Nat
  | [] => 0
  | s :: rest => min 8191 (1 + (rest.takeWhile fun t => t.status == s.status).length)

/-- Bit 15 clear, two bits of status, 13 bits of run length. -/
def runChunk (status runLen : Nat) : Nat := status <<< 13 ||| (runLen &&& 0x1FFF)

def symbol (statuses : List PacketStatus) (j : Nat) : Nat :=
  match statuses[j]? with
  | some s => s.status &&& 0x03
  | none => 0

/-- Bits 15 and 14 set, seven symbols of two bits, zero beyond the end.
mirrors shared/receiver/rtc/twcc_receiver.cpp:241-247 -/
def vectorChunk (statuses : List PacketStatus) : Nat :=
  (List.range 7).foldl (fun chunk j => chunk ||| symbol statuses j <<< (12 - j * 2)) 0xC000

/-- mirrors shared/receiver/rtc/twcc_receiver.cpp:228-236 -/
def deltaBytes (s : PacketStatus) : Bytes :=
  if s.status = 1 then [UInt8.ofNat (s.deltaUnits % 256).toNat]
  else if s.status = 2 then be16Bytes (s.deltaUnits % 65536).toNat
  else []

/-- The packets the next chunk covers. -/
def chunkCount (statuses : List PacketStatus) : Nat :=
  if runLen statuses ≥ 7 then runLen statuses else min 7 statuses.length

def nextChunk (statuses : List PacketStatus) : Nat :=
  if runLen statuses ≥ 7 then runChunk ((statuses.head?.map (·.status)).getD 0) (runLen statuses)
  else vectorChunk statuses

/-- The loop over the statuses; the fuel bounds the iterations.
mirrors shared/receiver/rtc/twcc_receiver.cpp:212-263 -/
def packLoop : Nat → List PacketStatus → List Nat × Bytes
  | 0, _ => ([], [])
  | _ + 1, [] => ([], [])
  | fuel + 1, s :: rest =>
    let n := chunkCount (s :: rest)
    let later := packLoop fuel ((s :: rest).drop n)
    (nextChunk (s :: rest) :: later.1, ((s :: rest).take n).flatMap deltaBytes ++ later.2)

def pack (statuses : List PacketStatus) : List Nat × Bytes := packLoop statuses.length statuses

/-! ## The packet -/

/-- mirrors shared/receiver/rtc/twcc_receiver.cpp:282-291 -/
def padding (chunks : List Nat) (recvDeltas : Bytes) : Nat :=
  (4 - (8 + 4 + 4 + chunks.length * 2 + recvDeltas.length) % 4) % 4

def totalSize (chunks : List Nat) (recvDeltas : Bytes) : Nat :=
  20 + chunks.length * 2 + recvDeltas.length + padding chunks recvDeltas

/-- The 20 bytes before the chunks.
mirrors shared/receiver/rtc/twcc_receiver.cpp:300-321 -/
def header (size : Nat) (senderSsrc mediaSsrc : UInt32) (baseSeq : UInt16)
    (packetStatusCount refTime24 : Nat) (fbPacketCount : UInt8) : Bytes :=
  [(2 : UInt8) <<< 6 ||| 15, 205] ++ be16Bytes (size / 4 - 1) ++
    be32Bytes senderSsrc.toNat ++ be32Bytes mediaSsrc.toNat ++
    be16Bytes baseSeq.toNat ++ be16Bytes packetStatusCount ++
    [UInt8.ofNat (refTime24 >>> 16), UInt8.ofNat (refTime24 >>> 8), UInt8.ofNat refTime24, fbPacketCount]

/-- mirrors shared/receiver/rtc/twcc_receiver.cpp:266-331 -/
def feedbackPacket (senderSsrc mediaSsrc : UInt32) (baseSeq : UInt16) (statuses : List PacketStatus)
    (referenceTimeUs : Int) (fbPacketCount : UInt8) : Bytes :=
  let (chunks, recvDeltas) := pack statuses
  let refTime24 := ((referenceTimeUs.tdiv 64000) % 2 ^ 24).toNat
  header (totalSize chunks recvDeltas) senderSsrc mediaSsrc baseSeq statuses.length refTime24
      fbPacketCount ++
    (chunks.flatMap be16Bytes ++ (recvDeltas ++ List.replicate (padding chunks recvDeltas) 0))

/-! ## The sender's side -/

structure Feedback where
  baseSeq : UInt16
  statusCount : Nat
  /-- in units of 64 ms, 24 bits -/
  referenceTime : Nat
  fbPacketCount : UInt8
  /-- status and delta (in units of 250 µs), one for each packet -/
  statuses : List (Nat × Int)
  deriving DecidableEq

/-- Bit 15 clear: a run. Bits 15 and 14 set: seven symbols of two bits. Bit 15
alone: fourteen of one bit. -/
def decodeChunk (chunk : Nat) : List Nat :=
  if chunk < 2 ^ 15 then List.replicate (chunk % 2 ^ 13) (chunk / 2 ^ 13)
  else if chunk / 2 ^ 14 % 2 = 1 then (List.range 7).map fun j => chunk / 2 ^ (12 - j * 2) % 4
  else (List.range 14).map fun j => chunk / 2 ^ (13 - j) % 2

/-- Chunks until `count` statuses are read; what is left of the last is dropped. -/
def decodeStatuses : Nat → Bytes → Option (List Nat × Bytes)
  | 0, bytes => some ([], bytes)
  | count + 1, b0 :: b1 :: rest =>
    let symbols := decodeChunk (be16 b0 b1).toNat
    (decodeStatuses (count + 1 - symbols.length) rest).map fun later =>
      (symbols.take (count + 1) ++ later.1, later.2)
  | _, _ => none

def signed16 (n : Nat) : Int := if n < 2 ^ 15 then n else n - 2 ^ 16

def decodeDeltas : List Nat → Bytes → Option (List (Nat × Int))
  | [], _ => some []
  | 0 :: later, bytes => (decodeDeltas later bytes).map ((0, 0) :: ·)
  | 1 :: later, b :: bytes => (decodeDeltas later bytes).map ((1, (b.toNat : Int)) :: ·)
  | 2 :: later, b0 :: b1 :: bytes =>
    (decodeDeltas later bytes).map ((2, signed16 (be16 b0 b1).toNat) :: ·)
  | _, _ => none

def decodeFeedback (p : Bytes) : Option Feedback :=
  if p.length < 20 ∨ p.getD 0 0 ≠ 0x8F ∨ p.getD 1 0 ≠ 205 then none
  else do
    let count := (be16 (p.getD 14 0) (p.getD 15 0)).toNat
    let (symbols, rest) ← decodeStatuses count (p.drop 20)
    let statuses ← decodeDeltas symbols rest
    some { baseSeq := be16 (p.getD 12 0) (p.getD 13 0), statusCount := count,
           referenceTime := (p.getD 16 0).toNat * 2 ^ 16 + (p.getD 17 0).toNat * 2 ^ 8 + (p.getD 18 0).toNat,
           fbPacketCount := p.getD 19 0, statuses := statuses }

/-! ## Chunks decode -/

theorem runLen_cons (s : PacketStatus) (rest : List PacketStatus) :
    runLen (s :: rest) = min 8191 (1 + (rest.takeWhile fun t => t.status == s.status).length) := rfl

theorem runLen_pos (s : PacketStatus) (rest : List PacketStatus) : 1 ≤ runLen (s :: rest) := by
  rw [runLen_cons]; omega

theorem runLen_le : ∀ l : List PacketStatus, runLen l ≤ l.length
  | [] => Nat.le_refl 0
  | s :: rest => by
    have := (List.takeWhile_prefix (fun t : PacketStatus => t.status == s.status) (l := rest)).length_le
    rw [runLen_cons, List.length_cons]
    omega

theorem chunkCount_pos (s : PacketStatus) (rest : List PacketStatus) : 1 ≤ chunkCount (s :: rest) := by
  have := runLen_pos s rest
  unfold chunkCount
  rw [List.length_cons]
  split <;> omega

theorem chunkCount_le (l : List PacketStatus) : chunkCount l ≤ l.length := by
  have := runLen_le l
  unfold chunkCount
  split <;> omega

/-- The packets of a run share the status of the first. -/
theorem run_status (s : PacketStatus) (rest : List PacketStatus) :
    ((s :: rest).take (runLen (s :: rest))).map (·.status) = List.replicate (runLen (s :: rest)) s.status := by
  have hle := runLen_le (s :: rest)
  have hrun : runLen (s :: rest) ≤ (s :: rest.takeWhile fun t => t.status == s.status).length := by
    rw [runLen_cons, List.length_cons]
    omega
  generalize runLen (s :: rest) = n at hle hrun ⊢
  rw [List.eq_replicate_iff, List.length_map, List.length_take]
  refine ⟨by omega, fun b hb => ?_⟩
  obtain ⟨t, ht, rfl⟩ := List.mem_map.mp hb
  -- What is taken lies in the part before the first other status.
  rw [← List.takeWhile_append_dropWhile (p := fun t => t.status == s.status) (l := rest),
    ← List.cons_append, List.take_append_of_le_length hrun] at ht
  rcases List.mem_cons.mp (List.mem_of_mem_take ht) with rfl | hw
  · rfl
  · simpa using List.mem_takeWhile_imp hw

theorem runChunk_toNat {status n : Nat} (hn : n < 2 ^ 13) : runChunk status n = status * 2 ^ 13 + n := by
  unfold runChunk
  rw [show (0x1FFF : Nat) = 2 ^ 13 - 1 from rfl, Nat.and_two_pow_sub_one_of_lt_two_pow hn,
    Nat.shiftLeft_eq, mul_or 13 hn]

theorem decode_runChunk {status n : Nat} (hs : status ≤ 2) (hn : n < 2 ^ 13) :
    decodeChunk (runChunk status n) = List.replicate n status := by
  rw [runChunk_toNat hn]
  unfold decodeChunk
  rw [if_pos (by omega), show (status * 2 ^ 13 + n) % 2 ^ 13 = n by omega,
    show (status * 2 ^ 13 + n) / 2 ^ 13 = status by omega]

theorem symbol_le (l : List PacketStatus) (j : Nat) : symbol l j ≤ 3 := by
  unfold symbol
  split
  · exact Nat.and_le_right
  · exact Nat.zero_le 3

/-- Two bits ORed into a place that is still zero. -/
theorem or_field {x y : Nat} (k : Nat) (hx : x % 2 ^ (k + 2) = 0) (hy : y ≤ 3) :
    x ||| y <<< k = x + y * 2 ^ k := by
  have hlt : y * 2 ^ k < 2 ^ (k + 2) := by
    have := Nat.mul_le_mul_right (2 ^ k) hy
    have := Nat.two_pow_pos k
    rw [Nat.pow_add]
    omega
  have hdiv : x = x / 2 ^ (k + 2) * 2 ^ (k + 2) := (Nat.div_mul_cancel (Nat.dvd_of_mod_eq_zero hx)).symm
  rw [Nat.shiftLeft_eq]
  calc x ||| y * 2 ^ k = x / 2 ^ (k + 2) * 2 ^ (k + 2) ||| y * 2 ^ k := by rw [← hdiv]
    _ = x / 2 ^ (k + 2) * 2 ^ (k + 2) + y * 2 ^ k := mul_or (k + 2) hlt
    _ = x + y * 2 ^ k := by rw [← hdiv]

theorem vectorChunk_toNat (l : List PacketStatus) :
    vectorChunk l = 0xC000 + symbol l 0 * 2 ^ 12 + symbol l 1 * 2 ^ 10 + symbol l 2 * 2 ^ 8 +
      symbol l 3 * 2 ^ 6 + symbol l 4 * 2 ^ 4 + symbol l 5 * 2 ^ 2 + symbol l 6 * 2 ^ 0 := by
  have h : ∀ j, symbol l j ≤ 3 := symbol_le l
  simp only [vectorChunk, List.range, List.range.loop, List.foldl, Nat.reduceMul, Nat.reduceSub]
  rw [or_field 12 (by omega) (h 0), or_field 10 (by omega) (h 1), or_field 8 (by omega) (h 2),
    or_field 6 (by omega) (h 3), or_field 4 (by omega) (h 4), or_field 2 (by omega) (h 5),
    or_field 0 (by omega) (h 6)]

theorem decode_vectorChunk (l : List PacketStatus) :
    decodeChunk (vectorChunk l) = (List.range 7).map (symbol l) := by
  have h : ∀ j, symbol l j ≤ 3 := symbol_le l
  rw [vectorChunk_toNat]
  have h0 := h 0
  have h1 := h 1
  have h2 := h 2
  have h3 := h 3
  have h4 := h 4
  have h5 := h 5
  have h6 := h 6
  unfold decodeChunk
  rw [if_neg (by omega), if_pos (by omega)]
  simp only [List.range, List.range.loop, List.map_cons, List.map_nil, List.cons.injEq, and_true]
  refine ⟨?_, ?_, ?_, ?_, ?_, ?_, ?_⟩ <;> omega

theorem symbols_status (l : List PacketStatus) :
    ((List.range 7).map (symbol l)).take l.length = (l.take (min 7 l.length)).map (·.status) := by
  apply List.ext_getElem
  · simp [Nat.min_comm]
  · intro i h₁ h₂
    have hi : i < l.length := by simp at h₂; omega
    have hs := l[i].status_le
    rw [List.getElem_take, List.getElem_map, List.getElem_range, List.getElem_map, List.getElem_take]
    unfold symbol
    rw [List.getElem?_eq_getElem hi]
    exact Nat.and_two_pow_sub_one_of_lt_two_pow (n := 2) (by omega)

/-- A chunk decodes to the statuses of the packets it covers, and the decoder
is left with as many statuses to read as the encoder with packets. -/
theorem decode_nextChunk (s : PacketStatus) (rest : List PacketStatus) :
    nextChunk (s :: rest) < 2 ^ 16 ∧
    (decodeChunk (nextChunk (s :: rest))).take (s :: rest).length =
      ((s :: rest).take (chunkCount (s :: rest))).map (·.status) ∧
    (s :: rest).length - (decodeChunk (nextChunk (s :: rest))).length =
      ((s :: rest).drop (chunkCount (s :: rest))).length := by
  have hs := s.status_le
  by_cases h : runLen (s :: rest) ≥ 7
  · have hn : runLen (s :: rest) < 2 ^ 13 := by rw [runLen_cons]; omega
    have hle := runLen_le (s :: rest)
    have hc : nextChunk (s :: rest) = runChunk s.status (runLen (s :: rest)) := by
      unfold nextChunk; rw [if_pos h]; rfl
    have hk : chunkCount (s :: rest) = runLen (s :: rest) := by unfold chunkCount; rw [if_pos h]
    rw [hc, hk, decode_runChunk hs hn, run_status]
    refine ⟨by rw [runChunk_toNat hn]; omega, ?_, by rw [List.length_replicate, List.length_drop]⟩
    rw [List.take_replicate, Nat.min_eq_right hle]
  · have hc : nextChunk (s :: rest) = vectorChunk (s :: rest) := by unfold nextChunk; rw [if_neg h]
    have hk : chunkCount (s :: rest) = min 7 (s :: rest).length := by unfold chunkCount; rw [if_neg h]
    have hb : ∀ j, symbol (s :: rest) j ≤ 3 := symbol_le (s :: rest)
    rw [hc, hk, decode_vectorChunk, symbols_status]
    refine ⟨?_, rfl, ?_⟩
    · rw [vectorChunk_toNat]
      have h0 := hb 0
      have h1 := hb 1
      have h2 := hb 2
      have h3 := hb 3
      have h4 := hb 4
      have h5 := hb 5
      have h6 := hb 6
      omega
    · rw [List.length_map, List.length_range, List.length_drop]
      omega

theorem packLoop_cons (fuel : Nat) (s : PacketStatus) (rest : List PacketStatus) :
    packLoop (fuel + 1) (s :: rest) =
      (nextChunk (s :: rest) :: (packLoop fuel ((s :: rest).drop (chunkCount (s :: rest)))).1,
        ((s :: rest).take (chunkCount (s :: rest))).flatMap deltaBytes ++
          (packLoop fuel ((s :: rest).drop (chunkCount (s :: rest)))).2) := rfl

theorem drop_chunk_le {fuel : Nat} {s : PacketStatus} {rest : List PacketStatus}
    (h : (s :: rest).length ≤ fuel + 1) :
    ((s :: rest).drop (chunkCount (s :: rest))).length ≤ fuel := by
  have := chunkCount_pos s rest
  rw [List.length_drop]
  omega

/-- The chunks decode to the statuses. -/
theorem decodeStatuses_packLoop (tail : Bytes) : ∀ (fuel : Nat) (l : List PacketStatus), l.length ≤ fuel →
    decodeStatuses l.length ((packLoop fuel l).1.flatMap be16Bytes ++ tail) = some (l.map (·.status), tail) := by
  intro fuel
  induction fuel with
  | zero =>
    intro l h
    obtain rfl := List.length_eq_zero_iff.mp (Nat.le_zero.mp h)
    simp [packLoop, decodeStatuses]
  | succ fuel ih =>
    intro l h
    cases l with
    | nil => simp [packLoop, decodeStatuses]
    | cons s rest =>
      obtain ⟨hlt, htake, hleft⟩ := decode_nextChunk s rest
      have hlater := ih _ (drop_chunk_le h)
      rw [packLoop_cons, List.flatMap_cons, List.append_assoc]
      generalize (packLoop fuel ((s :: rest).drop (chunkCount (s :: rest)))).1.flatMap be16Bytes = bytes
      at hlater ⊢
      rw [List.length_cons, be16Bytes, List.cons_append, List.cons_append, List.nil_append, decodeStatuses]
      simp only [be16_be16Bytes hlt]
      rw [← List.length_cons (a := s), hleft, hlater, htake]
      simp only [Option.map_some, Option.some.injEq, Prod.mk.injEq, and_true]
      rw [← List.map_append, List.take_append_drop]

theorem packLoop_deltas : ∀ (fuel : Nat) (l : List PacketStatus), l.length ≤ fuel →
    (packLoop fuel l).2 = l.flatMap deltaBytes := by
  intro fuel
  induction fuel with
  | zero =>
    intro l h
    obtain rfl := List.length_eq_zero_iff.mp (Nat.le_zero.mp h)
    rfl
  | succ fuel ih =>
    intro l h
    cases l with
    | nil => rfl
    | cons s rest =>
      rw [packLoop_cons]
      show _ ++ _ = _
      rw [ih _ (drop_chunk_le h), ← List.flatMap_append, List.take_append_drop]

theorem packLoop_length : ∀ (fuel : Nat) (l : List PacketStatus), (packLoop fuel l).1.length ≤ fuel := by
  intro fuel
  induction fuel with
  | zero => intro l; exact Nat.le_refl 0
  | succ fuel ih =>
    intro l
    cases l with
    | nil => exact Nat.zero_le _
    | cons s rest =>
      rw [packLoop_cons]
      exact Nat.succ_le_succ (ih _)

/-! ## Deltas decode -/

theorem decodeDeltas_flatMap (tail : Bytes) : ∀ l : List PacketStatus,
    decodeDeltas (l.map (·.status)) (l.flatMap deltaBytes ++ tail) =
      some (l.map fun s => (s.status, s.deltaUnits))
  | [] => rfl
  | ⟨status, units, fits⟩ :: later => by
    have ih := decodeDeltas_flatMap tail later
    rw [List.flatMap_cons, List.append_assoc, List.map_cons, List.map_cons]
    generalize later.flatMap deltaBytes ++ tail = bytes at ih ⊢
    match status, fits with
    | 0, fits =>
      cases fits
      simp [deltaBytes, decodeDeltas, ih]
    | 1, ⟨hlo, hhi⟩ =>
      have hb : ((UInt8.ofNat (units % 256).toNat).toNat : Int) = units := by
        rw [UInt8.toNat_ofNat']
        omega
      simp only [deltaBytes, if_true, List.cons_append, List.nil_append, decodeDeltas, ih, hb,
        Option.map_some]
    | 2, ⟨hlo, hhi⟩ =>
      have hn : (units % 65536).toNat < 2 ^ 16 := by omega
      have hb : signed16 (units % 65536).toNat = units := by
        unfold signed16
        split <;> omega
      simp only [deltaBytes, be16Bytes]
      simp [decodeDeltas, ih, be16_be16Bytes hn, hb]

theorem flatMap_deltaBytes_length : ∀ l : List PacketStatus, (l.flatMap deltaBytes).length ≤ 2 * l.length
  | [] => Nat.le_refl 0
  | s :: later => by
    have ih := flatMap_deltaBytes_length later
    have hs : (deltaBytes s).length ≤ 2 := by
      unfold deltaBytes be16Bytes
      split
      · exact Nat.le_succ 1
      · split <;> simp
    rw [List.flatMap_cons, List.length_append, List.length_cons]
    omega

theorem flatMap_be16Bytes_length : ∀ l : List Nat, (l.flatMap be16Bytes).length = 2 * l.length
  | [] => rfl
  | c :: later => by
    rw [List.flatMap_cons, List.length_append, flatMap_be16Bytes_length later, List.length_cons, be16Bytes,
      List.length_cons, List.length_cons, List.length_nil]
    omega

/-! ## The packet decodes -/

section Packet
variable (senderSsrc mediaSsrc : UInt32) (baseSeq : UInt16) (statuses : List PacketStatus)
  (referenceTimeUs : Int) (fbPacketCount : UInt8)

theorem header_length (size packetStatusCount refTime24 : Nat) :
    (header size senderSsrc mediaSsrc baseSeq packetStatusCount refTime24 fbPacketCount).length = 20 := rfl

theorem feedbackPacket_length :
    (feedbackPacket senderSsrc mediaSsrc baseSeq statuses referenceTimeUs fbPacketCount).length =
      totalSize (pack statuses).1 (pack statuses).2 := by
  unfold feedbackPacket
  simp only [List.length_append, header_length, flatMap_be16Bytes_length, List.length_replicate, totalSize]
  omega

end Packet

theorem totalSize_mod (chunks : List Nat) (recvDeltas : Bytes) : totalSize chunks recvDeltas % 4 = 0 := by
  unfold totalSize padding; omega

theorem totalSize_lt {statuses : List PacketStatus} (h : statuses.length ≤ 512) :
    totalSize (pack statuses).1 (pack statuses).2 < 2 ^ 12 := by
  have hc := packLoop_length statuses.length statuses
  have hd := flatMap_deltaBytes_length statuses
  rw [← packLoop_deltas _ _ (Nat.le_refl _)] at hd
  unfold totalSize padding pack
  omega

theorem le_totalSize (chunks : List Nat) (recvDeltas : Bytes) : 20 ≤ totalSize chunks recvDeltas := by
  unfold totalSize; omega

/-- **Round trip.** At most 512 packets: the sender reads the base, the count,
each status with its delta, the reference time and the counter that were
written. -/
theorem decode_feedbackPacket (senderSsrc mediaSsrc : UInt32) (baseSeq : UInt16)
    {statuses : List PacketStatus} (h : statuses.length ≤ 512) (referenceTimeUs : Int)
    (fbPacketCount : UInt8) :
    decodeFeedback (feedbackPacket senderSsrc mediaSsrc baseSeq statuses referenceTimeUs fbPacketCount) =
      some { baseSeq := baseSeq, statusCount := statuses.length,
             referenceTime := ((referenceTimeUs.tdiv 64000) % 2 ^ 24).toNat,
             fbPacketCount := fbPacketCount,
             statuses := statuses.map fun s => (s.status, s.deltaUnits) } := by
  have hlen : ¬ (feedbackPacket senderSsrc mediaSsrc baseSeq statuses referenceTimeUs
      fbPacketCount).length < 20 := by
    rw [feedbackPacket_length]
    exact Nat.not_lt.mpr (le_totalSize _ _)
  have hst := decodeStatuses_packLoop ((pack statuses).2 ++
    List.replicate (padding (pack statuses).1 (pack statuses).2) 0) statuses.length statuses (Nat.le_refl _)
  unfold pack at hst
  have hdl := decodeDeltas_flatMap (List.replicate (padding (pack statuses).1 (pack statuses).2) 0) statuses
  rw [← packLoop_deltas _ _ (Nat.le_refl _)] at hdl
  have hbase : be16 (UInt8.ofNat (baseSeq.toNat >>> 8)) (UInt8.ofNat baseSeq.toNat) = baseSeq :=
    UInt16.toNat_inj.mp (be16_be16Bytes baseSeq.toNat_lt)
  have hcount := be16_be16Bytes (show statuses.length < 2 ^ 16 by omega)
  have hdrop : (feedbackPacket senderSsrc mediaSsrc baseSeq statuses referenceTimeUs
      fbPacketCount).drop 20 = (pack statuses).1.flatMap be16Bytes ++ ((pack statuses).2 ++
        List.replicate (padding (pack statuses).1 (pack statuses).2) 0) := rfl
  have href : (UInt8.ofNat (((referenceTimeUs.tdiv 64000) % 2 ^ 24).toNat >>> 16)).toNat * 2 ^ 16 +
      (UInt8.ofNat (((referenceTimeUs.tdiv 64000) % 2 ^ 24).toNat >>> 8)).toNat * 2 ^ 8 +
      (UInt8.ofNat ((referenceTimeUs.tdiv 64000) % 2 ^ 24).toNat).toNat =
        ((referenceTimeUs.tdiv 64000) % 2 ^ 24).toNat := by
    simp only [UInt8.toNat_ofNat', Nat.shiftRight_eq_div_pow]
    omega
  unfold decodeFeedback
  rw [if_neg (by simpa using ⟨Nat.not_lt.mp hlen, rfl, rfl⟩), hdrop]
  show (decodeStatuses (be16 (UInt8.ofNat (statuses.length >>> 8)) (UInt8.ofNat statuses.length)).toNat
    _).bind _ = _
  rw [hcount]
  unfold pack at hdl ⊢
  rw [hst]
  show (decodeDeltas (statuses.map (·.status)) _).bind _ = _
  rw [hdl]
  refine congrArg some ?_
  rw [Feedback.mk.injEq]
  exact ⟨hbase, hcount, href, rfl, rfl⟩

end KmVirtualCamera.L1.TwccFeedback
