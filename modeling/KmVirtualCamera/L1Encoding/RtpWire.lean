import Mathlib
import KmVirtualCamera.Core.ByteOrder

/-!
# RTP and RTCP datagrams (`wire::parseRtp`, `wire::parseRtcp`)

`parseRtp` validates one datagram and cuts out its payload; an accepted
payload is never empty, which is a field of `RtpPacket`. `sequenceDelta` is
the signed distance on the 16-bit circle; `sequenceDelta_eq_one` is what the
depacketizer's gap test relies on. `renumber` gives a datagram another sequence
number. `parseRtcp` cuts a datagram into the
members of a compound packet; `parseRtcp_single` is the case of one.
-/
namespace KmVirtualCamera.L1.RtpWire
open KmVirtualCamera.ByteOrder

abbrev Bytes := List UInt8

/-- mirrors shared/km/rtp_wire.h:12-15 -/
def sequenceDelta (a b : UInt16) : Int :=
  if (a - b).toNat < 32768 then (a - b).toNat else (a - b).toNat - 65536

/-- mirrors shared/km/rtp_wire.h:16-22 -/
structure RtpPacket where
  payload : Bytes
  timestamp : UInt32
  ssrc : UInt32
  sequence : UInt16
  payloadType : UInt8
  marker : Bool
  payload_ne : payload ≠ []

/-- The end of the fixed header, the CSRC list and the extension.
mirrors shared/km/rtp_wire.h:25-32 -/
def payloadOffset (b : Bytes) : Option Nat :=
  let offset := 12 + (b.getD 0 0 &&& 15).toNat * 4
  if offset > b.length then none
  else if b.getD 0 0 &&& 16 ≠ 0 then
    if b.length - offset < 4 then none
    else
      let length := 4 + (be16 (b.getD (offset + 2) 0) (b.getD (offset + 3) 0)).toNat * 4
      if length > b.length - offset then none else some (offset + length)
  else some offset

/-- The end of the payload, before the padding.
mirrors shared/km/rtp_wire.h:33-38 -/
def payloadEnd (b : Bytes) (offset : Nat) : Option Nat :=
  if b.getD 0 0 &&& 32 ≠ 0 then
    let padding := (b.getLastD 0).toNat
    if padding = 0 ∨ padding > b.length - offset then none else some (b.length - padding)
  else some b.length

theorem slice_ne_nil {b : Bytes} {i j : Nat} (hij : i < j) (hj : j ≤ b.length) :
    (b.drop i).take (j - i) ≠ [] := by
  apply List.ne_nil_of_length_pos
  rw [List.length_take, List.length_drop]
  omega

theorem payloadEnd_le {b : Bytes} {i j : Nat} (h : payloadEnd b i = some j) : j ≤ b.length := by
  unfold payloadEnd at h
  split at h
  · simp only at h
    split at h
    · cases h
    · cases h; omega
  · cases h; exact Nat.le_refl _

/-- The packet whose payload is `[offset, fin)`.
mirrors shared/km/rtp_wire.h:39-41 -/
def packetAt (b : Bytes) (offset fin : Nat) (hij : offset < fin) (hj : fin ≤ b.length) : RtpPacket where
  payload := (b.drop offset).take (fin - offset)
  timestamp := be32 (b.getD 4 0) (b.getD 5 0) (b.getD 6 0) (b.getD 7 0)
  ssrc := be32 (b.getD 8 0) (b.getD 9 0) (b.getD 10 0) (b.getD 11 0)
  sequence := be16 (b.getD 2 0) (b.getD 3 0)
  payloadType := b.getD 1 0 &&& 127
  marker := b.getD 1 0 &&& 128 ≠ 0
  payload_ne := slice_ne_nil hij hj

/-- mirrors shared/km/rtp_wire.h:23-42 -/
def parseRtp (b : Bytes) : Option RtpPacket :=
  if b.length < 12 ∨ b.length > 65535 ∨ b.getD 0 0 >>> 6 ≠ 2 then none
  else match payloadOffset b with
    | none => none
    | some offset =>
      match h : payloadEnd b offset with
      | none => none
      | some fin =>
        if hij : offset < fin then some (packetAt b offset fin hij (payloadEnd_le h)) else none

/-- What is asked of a datagram before its payload is looked for. -/
def Framed (b : Bytes) : Prop := 12 ≤ b.length ∧ b.length ≤ 65535 ∧ b.getD 0 0 >>> 6 = 2

theorem parseRtp_packetAt {b : Bytes} {offset fin : Nat} (hb : Framed b) (ho : payloadOffset b = some offset)
    (hf : payloadEnd b offset = some fin) (hlt : offset < fin) :
    parseRtp b = some (packetAt b offset fin hlt (payloadEnd_le hf)) := by
  obtain ⟨hmin, hmax, hversion⟩ := hb
  unfold parseRtp
  rw [if_neg (by rw [hversion]; simp; omega)]
  simp only [ho]
  split
  · rename_i hnone
    rw [hf] at hnone
    cases hnone
  · rename_i fin' hf'
    rw [hf] at hf'
    cases hf'
    rw [dif_pos hlt]

/-- Where an accepted packet comes from. -/
theorem parseRtp_some {b : Bytes} {p : RtpPacket} (h : parseRtp b = some p) :
    Framed b ∧ ∃ offset fin, payloadOffset b = some offset ∧ ∃ hf : payloadEnd b offset = some fin,
      ∃ hlt : offset < fin, p = packetAt b offset fin hlt (payloadEnd_le hf) := by
  unfold parseRtp at h
  split at h
  · cases h
  rename_i hb
  have hframed : Framed b := by
    simp only [not_or, not_lt, not_not] at hb
    exact ⟨hb.1, hb.2.1, hb.2.2⟩
  split at h
  · cases h
  rename_i offset ho
  split at h
  · cases h
  rename_i fin hf
  split at h
  · rename_i hlt
    cases h
    exact ⟨hframed, offset, fin, ho, hf, hlt, rfl⟩
  · cases h

/-- A padding-only packet: well formed, and its padding takes all that is
behind the header. -/
def PaddingOnly (b : Bytes) : Prop :=
  Framed b ∧ b.getD 0 0 &&& 32 ≠ 0 ∧ ∃ offset, payloadOffset b = some offset ∧ 0 < (b.getLastD 0).toNat ∧
    offset + (b.getLastD 0).toNat = b.length

/-- The empty payload is refused. -/
theorem parseRtp_paddingOnly {b : Bytes} (h : PaddingOnly b) : parseRtp b = none := by
  obtain ⟨-, hbit, offset, ho, hpos, hlen⟩ := h
  cases hp : parseRtp b with
  | none => rfl
  | some p =>
    obtain ⟨-, offset', fin, ho', hf, hlt, -⟩ := parseRtp_some hp
    rw [ho] at ho'
    cases ho'
    unfold payloadEnd at hf
    rw [if_pos hbit] at hf
    simp only at hf
    split at hf
    · cases hf
    · cases hf
      omega

/-! ## Another sequence number -/

/-- The datagram with another sequence number. -/
def renumber (b : Bytes) (q : UInt16) : Bytes := b.take 2 ++ be16Bytes q.toNat ++ b.drop 4

/-- The packet with another sequence number. -/
def renumbered (p : RtpPacket) (q : UInt16) : RtpPacket := { p with sequence := q }

/-- What `renumber` leaves as it was. -/
structure Renumbered (q : UInt16) (b b' : Bytes) : Prop where
  length : b'.length = b.length
  getD : ∀ i, i ≠ 2 → i ≠ 3 → b'.getD i 0 = b.getD i 0
  last : b'.getLastD 0 = b.getLastD 0
  drop : ∀ i, 4 ≤ i → b'.drop i = b.drop i
  sequence : be16 (b'.getD 2 0) (b'.getD 3 0) = q

theorem renumber_spec {b : Bytes} (h : 12 ≤ b.length) (q : UInt16) : Renumbered q b (renumber b q) := by
  obtain ⟨b0, b1, b2, b3, b4, rest, rfl⟩ : ∃ b0 b1 b2 b3 b4 rest, b = b0 :: b1 :: b2 :: b3 :: b4 :: rest := by
    match b, h with
    | b0 :: b1 :: b2 :: b3 :: b4 :: rest, _ => exact ⟨b0, b1, b2, b3, b4, rest, rfl⟩
  refine ⟨rfl, ?_, ?_, ?_, UInt16.toNat_inj.mp (be16_be16Bytes q.toNat_lt)⟩
  · intro i h2 h3
    match i, h2, h3 with
    | 0, _, _ => rfl
    | 1, _, _ => rfl
    | i + 4, _, _ => rfl
  · cases rest with
    | nil => rfl
    | cons => rfl
  · intro i hi
    obtain ⟨j, rfl⟩ := Nat.exists_eq_add_of_le' hi
    rfl

theorem payloadOffset_renumber {b : Bytes} (h : 12 ≤ b.length) (q : UInt16) :
    payloadOffset (renumber b q) = payloadOffset b := by
  have hr := renumber_spec h q
  unfold payloadOffset
  simp only [hr.length, hr.getD 0 (by decide) (by decide)]
  rw [hr.getD _ (by omega) (by omega), hr.getD _ (by omega) (by omega)]

theorem framed_renumber {b : Bytes} (h : Framed b) (q : UInt16) : Framed (renumber b q) := by
  have hr := renumber_spec h.1 q
  unfold Framed
  rw [hr.length, hr.getD 0 (by decide) (by decide)]
  exact h

theorem parseRtp_renumber {b : Bytes} {p : RtpPacket} (h : parseRtp b = some p) (q : UInt16) :
    parseRtp (renumber b q) = some (renumbered p q) := by
  obtain ⟨hframed, offset, fin, ho, hf, hlt, rfl⟩ := parseRtp_some h
  have hr := renumber_spec hframed.1 q
  have hmin : 12 ≤ offset := by
    unfold payloadOffset at ho
    simp only at ho
    split at ho
    · cases ho
    · split at ho
      · split at ho
        · cases ho
        · split at ho
          · cases ho
          · cases ho
            omega
      · cases ho
        omega
  have hf' : payloadEnd (renumber b q) offset = some fin := by
    unfold payloadEnd
    rw [hr.getD 0 (by decide) (by decide), hr.last, hr.length]
    exact hf
  rw [parseRtp_packetAt (framed_renumber hframed q) ((payloadOffset_renumber hframed.1 q).trans ho) hf' hlt]
  unfold packetAt renumbered
  simp only [hr.drop offset (by omega), hr.sequence]
  simp only [hr.getD 1 (by decide) (by decide), hr.getD 4 (by decide) (by decide),
    hr.getD 5 (by decide) (by decide), hr.getD 6 (by decide) (by decide), hr.getD 7 (by decide) (by decide),
    hr.getD 8 (by decide) (by decide), hr.getD 9 (by decide) (by decide), hr.getD 10 (by decide) (by decide),
    hr.getD 11 (by decide) (by decide)]

theorem paddingOnly_renumber {b : Bytes} (h : PaddingOnly b) (q : UInt16) : PaddingOnly (renumber b q) := by
  obtain ⟨hframed, hbit, offset, ho, hpos, hlen⟩ := h
  have hr := renumber_spec hframed.1 q
  refine ⟨framed_renumber hframed q, ?_, offset, (payloadOffset_renumber hframed.1 q).trans ho, ?_, ?_⟩
  · rw [hr.getD 0 (by decide) (by decide)]
    exact hbit
  · rw [hr.last]
    exact hpos
  · rw [hr.last, hr.length]
    exact hlen

/-! ## The sequence circle -/

/-- The sequence number one above. -/
theorem sequenceDelta_eq_one {a b : UInt16} : sequenceDelta a b = 1 ↔ a = b + 1 := by
  have hlt := (a - b).toNat_lt
  have hone : (1 : UInt16).toNat = 1 := rfl
  have key : sequenceDelta a b = 1 ↔ (a - b).toNat = 1 := by
    unfold sequenceDelta; split <;> omega
  rw [key, ← hone, UInt16.toNat_inj]
  constructor
  · intro h; rw [← h]; exact (sub_add_cancel a b).symm.trans (add_comm _ _)
  · rintro rfl; exact add_sub_cancel_left b 1

/-! ## RTCP -/

/-- mirrors shared/km/rtp_wire.h:43 -/
structure RtcpPacket where
  body : Bytes
  type : UInt8
  count : UInt8
  deriving DecidableEq

/-- The least size of a member, by its type.
mirrors shared/km/rtp_wire.h:64-69 -/
def rtcpMinimum (type count : UInt8) : Nat :=
  if type = 200 then 28 + count.toNat * 24
  else if type = 201 then 8 + count.toNat * 24
  else if type = 203 then 4 + count.toNat * 4
  else if type = 204 ∨ type = 205 ∨ type = 206 then 12
  else if type = 207 then 8
  else 4

/-- The size of a member without its padding, which only the last may have.
mirrors shared/km/rtp_wire.h:55-61 -/
def rtcpContent (rest : Bytes) (length : Nat) : Option Nat :=
  if rest.getD 0 0 &&& 32 ≠ 0 then
    let padding := (rest.getD (length - 1) 0).toNat
    if length ≠ rest.length then none
    else if padding = 0 ∨ padding > length - 4 ∨ padding % 4 ≠ 0 then none
    else some (length - padding)
  else some length

/-- The member at the start of `rest`, after `seen` others, and its length.
mirrors shared/km/rtp_wire.h:51-72 -/
def rtcpMember (rest : Bytes) (seen : Nat) : Option (RtcpPacket × Nat) :=
  if rest.length < 4 ∨ rest.getD 0 0 >>> 6 ≠ 2 ∨ seen ≥ 64 then none
  else
    let length := ((be16 (rest.getD 2 0) (rest.getD 3 0)).toNat + 1) * 4
    if length > rest.length then none
    else match rtcpContent rest length with
      | none => none
      | some content =>
        let type := rest.getD 1 0
        let count := rest.getD 0 0 &&& 31
        if type < 192 ∨ type > 223 then none
        else if content < rtcpMinimum type count then none
        else some (⟨rest.take content, type, count⟩, length)

/-- The loop over the members; the fuel bounds the iterations. -/
def rtcpMembers : Nat → Nat → Bytes → Option (List RtcpPacket)
  | _, _, [] => some []
  | 0, _, _ :: _ => none
  | fuel + 1, seen, b :: rest =>
    match rtcpMember (b :: rest) seen with
    | none => none
    | some (p, length) => (rtcpMembers fuel (seen + 1) ((b :: rest).drop length)).map (p :: ·)

/-- `none` where the source returns false and no packet.
mirrors shared/km/rtp_wire.h:46-75 -/
def parseRtcp (b : Bytes) : Option (List RtcpPacket) :=
  if b = [] ∨ b.length > 65535 ∨ b.length % 4 ≠ 0 then none else rtcpMembers b.length 0 b

theorem parseRtcp_single {b : Bytes} (hmin : 12 ≤ b.length) (hmax : b.length ≤ 65535)
    (hversion : b.getD 0 0 >>> 6 = 2) (hpadding : b.getD 0 0 &&& 32 = 0)
    (hlength : ((be16 (b.getD 2 0) (b.getD 3 0)).toNat + 1) * 4 = b.length)
    (htype : b.getD 1 0 = 204 ∨ b.getD 1 0 = 205 ∨ b.getD 1 0 = 206) :
    parseRtcp b = some [⟨b, b.getD 1 0, b.getD 0 0 &&& 31⟩] := by
  have hcontent : rtcpContent b b.length = some b.length := by
    unfold rtcpContent
    rw [if_neg (not_not.mpr hpadding)]
  have hrange : ¬ (b.getD 1 0 < 192 ∨ b.getD 1 0 > 223) := by
    rcases htype with h | h | h <;> rw [h] <;> decide
  have hminimum : rtcpMinimum (b.getD 1 0) (b.getD 0 0 &&& 31) = 12 := by
    rcases htype with h | h | h <;> rw [h] <;> rfl
  have hmember : rtcpMember b 0 = some (⟨b, b.getD 1 0, b.getD 0 0 &&& 31⟩, b.length) := by
    unfold rtcpMember
    rw [if_neg (by rw [hversion]; simp; omega)]
    simp only [hlength, Nat.lt_irrefl, if_false, hcontent, if_neg hrange, hminimum, gt_iff_lt,
      if_neg (Nat.not_lt.mpr hmin), List.take_length]
  unfold parseRtcp
  cases b with
  | nil => simp at hmin
  | cons x rest =>
    rw [if_neg (by simp; rw [List.length_cons] at hlength hmax; omega), List.length_cons, rtcpMembers, hmember]
    simp [rtcpMembers]

end KmVirtualCamera.L1.RtpWire
