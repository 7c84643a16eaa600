import Mathlib
import KmVirtualCamera.Core.Checked
import KmVirtualCamera.L1Encoding.RtpWire

/-!
# RTP packets as bytes (RFC 3550, section 5)

`Datagram` is an RTP packet as its sender has it: a CSRC list, a header
extension and padding, each of which may be missing, around a payload.
`serialize` writes it down. `parseRtp` reads what `serialize` writes in at most
65535 bytes (`parse_serialize`), and what it reads is a datagram
(`exists_datagram`); `parseRtp_inverts` is both.

`readRtp` is `parseRtp` with every read of the datagram and every subtraction
checked; `readRtp_eq` says that none of them faults.
-/
namespace KmVirtualCamera.L1.RtpDatagram
open KmVirtualCamera.ByteOrder KmVirtualCamera.L1.RtpWire

/-- 32-bit words, as they stand in the CSRC list and in the extension. -/
def wordBytes (ws : List UInt32) : Bytes := ws.flatMap fun w => be32Bytes w.toNat

@[simp] theorem wordBytes_length (ws : List UInt32) : (wordBytes ws).length = 4 * ws.length := by
  induction ws with
  | nil => rfl
  | cons w ws ih =>
    change (be32Bytes w.toNat ++ wordBytes ws).length = _
    rw [List.length_append, ih, List.length_cons]
    change 4 + 4 * ws.length = _
    omega

/-- Any bytes of whole words are words. -/
theorem exists_words {k : Nat} : ∀ {b : Bytes}, b.length = 4 * k → ∃ ws, ws.length = k ∧ wordBytes ws = b := by
  induction k with
  | zero => exact fun h => ⟨[], rfl, (List.eq_nil_of_length_eq_zero h).symm⟩
  | succ k ih =>
    intro b h
    match b, h with
    | b0 :: b1 :: b2 :: b3 :: rest, h =>
      obtain ⟨ws, hlength, hbytes⟩ := ih (b := rest) (by simp only [List.length_cons] at h; omega)
      refine ⟨be32 b0 b1 b2 b3 :: ws, by rw [List.length_cons, hlength], ?_⟩
      change be32Bytes _ ++ wordBytes ws = _
      rw [hbytes, be32Bytes_be32]
      rfl

/-- A header extension of any profile and any number of words. -/
structure Extension where
  profile : UInt16
  words : List UInt32
  words_lt : words.length < 2 ^ 16

def Extension.bytes (e : Extension) : Bytes :=
  be16Bytes e.profile.toNat ++ be16Bytes e.words.length ++ wordBytes e.words

@[simp] theorem Extension.bytes_length (e : Extension) : e.bytes.length = 4 + 4 * e.words.length := by
  unfold Extension.bytes
  rw [List.length_append, wordBytes_length]
  rfl

theorem Extension.bytes_eq (e : Extension) {n : Nat} (h : e.words.length = n) :
    e.bytes = be16Bytes e.profile.toNat ++ be16Bytes n ++ wordBytes e.words := by
  subst h
  rfl

/-- One to 255 bytes of padding; the last of them is their number. -/
structure Padding where
  fill : Bytes
  fill_lt : fill.length < 255

def Padding.bytes (p : Padding) : Bytes := p.fill ++ [UInt8.ofNat (p.fill.length + 1)]

@[simp] theorem Padding.bytes_length (p : Padding) : p.bytes.length = p.fill.length + 1 := by
  simp [Padding.bytes]

structure Datagram where
  marker : Bool
  payloadType : UInt8
  payloadType_lt : payloadType < 128
  sequence : UInt16
  timestamp : UInt32
  ssrc : UInt32
  csrcs : List UInt32
  csrcs_le : csrcs.length ≤ 15
  extension : Option Extension
  payload : Bytes
  payload_ne : payload ≠ []
  padding : Option Padding

namespace Datagram

/-- The first byte: version 2, whether there is padding and an extension, and
the number of CSRCs. -/
def flags (padded extended : Bool) (cc : Nat) : UInt8 :=
  128 ||| (if padded then 32 else 0) ||| (if extended then 16 else 0) ||| UInt8.ofNat cc

/-- The second byte. -/
def markerByte (marker : Bool) (payloadType : UInt8) : UInt8 := (if marker then 128 else 0) ||| payloadType

/-- The first 12 bytes. -/
def fixed (d : Datagram) : Bytes :=
  flags d.padding.isSome d.extension.isSome d.csrcs.length :: markerByte d.marker d.payloadType ::
    (be16Bytes d.sequence.toNat ++ be32Bytes d.timestamp.toNat ++ be32Bytes d.ssrc.toNat)

def extensionBytes (d : Datagram) : Bytes := (d.extension.map Extension.bytes).getD []

def paddingBytes (d : Datagram) : Bytes := (d.padding.map Padding.bytes).getD []

/-- What stands before the payload. -/
def header (d : Datagram) : Bytes := d.fixed ++ wordBytes d.csrcs ++ d.extensionBytes

def serialize (d : Datagram) : Bytes := d.header ++ d.payload ++ d.paddingBytes

/-- What a receiver is to make of it. -/
def packet (d : Datagram) : RtpPacket where
  payload := d.payload
  timestamp := d.timestamp
  ssrc := d.ssrc
  sequence := d.sequence
  payloadType := d.payloadType
  marker := d.marker
  payload_ne := d.payload_ne

theorem flags_spec : ∀ (padded extended : Bool) (cc : Fin 16),
    flags padded extended cc >>> 6 = 2 ∧ (flags padded extended cc &&& 15).toNat = cc ∧
      (flags padded extended cc &&& 16 ≠ 0 ↔ extended) ∧ (flags padded extended cc &&& 32 ≠ 0 ↔ padded) := by
  decide +kernel

theorem flags_inv : ∀ n : Fin 256, UInt8.ofNat n >>> 6 = 2 →
    flags (UInt8.ofNat n &&& 32 ≠ 0) (UInt8.ofNat n &&& 16 ≠ 0) (UInt8.ofNat n &&& 15).toNat = UInt8.ofNat n := by
  decide +kernel

theorem markerByte_spec : ∀ (marker : Bool) (n : Fin 128),
    (markerByte marker (UInt8.ofNat n) &&& 127) = UInt8.ofNat n ∧
      decide (markerByte marker (UInt8.ofNat n) &&& 128 ≠ 0) = marker := by
  decide +kernel

theorem markerByte_inv : ∀ n : Fin 256, UInt8.ofNat n &&& 127 < 128 ∧
    markerByte (UInt8.ofNat n &&& 128 ≠ 0) (UInt8.ofNat n &&& 127) = UInt8.ofNat n := by
  decide +kernel

variable (d : Datagram)

@[simp] theorem fixed_length : d.fixed.length = 12 := rfl

theorem header_length : d.header.length = 12 + 4 * d.csrcs.length + d.extensionBytes.length := by
  unfold header
  rw [List.length_append, List.length_append, fixed_length, wordBytes_length]

theorem serialize_length : d.serialize.length = d.header.length + d.payload.length + d.paddingBytes.length := by
  unfold serialize
  rw [List.length_append, List.length_append]

/-- The first bytes are those of the fixed header. -/
theorem serialize_fixed {i : Nat} (h : i < 12) : d.serialize.getD i 0 = d.fixed.getD i 0 := by
  unfold serialize header
  simp only [List.append_assoc]
  exact List.getD_append _ _ _ _ (by rw [fixed_length]; exact h)

theorem serialize_flags :
    d.serialize.getD 0 0 >>> 6 = 2 ∧ (d.serialize.getD 0 0 &&& 15).toNat = d.csrcs.length ∧
      (d.serialize.getD 0 0 &&& 16 ≠ 0 ↔ d.extension.isSome) ∧
      (d.serialize.getD 0 0 &&& 32 ≠ 0 ↔ d.padding.isSome) :=
  flags_spec d.padding.isSome d.extension.isSome ⟨d.csrcs.length, Nat.lt_succ_of_le d.csrcs_le⟩

/-- The bytes after the CSRC list. -/
theorem serialize_after (i : Nat) :
    d.serialize.getD (12 + d.csrcs.length * 4 + i) 0 =
      (d.extensionBytes ++ (d.payload ++ d.paddingBytes)).getD i 0 := by
  have hlength : (d.fixed ++ wordBytes d.csrcs).length = 12 + d.csrcs.length * 4 := by
    rw [List.length_append, fixed_length, wordBytes_length]
    omega
  unfold serialize header
  rw [List.append_assoc, List.append_assoc, List.getD_append_right _ _ _ _ (by omega), hlength]
  congr 1
  omega

theorem serialize_last {p : Padding} (hp : d.padding = some p) :
    (d.serialize.getLastD 0).toNat = p.fill.length + 1 := by
  have hlt := p.fill_lt
  have hbytes : d.paddingBytes = p.fill ++ [UInt8.ofNat (p.fill.length + 1)] := by
    unfold paddingBytes
    rw [hp]
    rfl
  unfold serialize
  rw [hbytes, ← List.append_assoc, List.getLastD_concat, UInt8.toNat_ofNat']
  omega

theorem payloadOffset_serialize : payloadOffset d.serialize = some d.header.length := by
  obtain ⟨-, hcc, hx, -⟩ := d.serialize_flags
  have htotal := d.serialize_length
  have hheader := d.header_length
  unfold payloadOffset
  simp only [hcc]
  rw [if_neg (by omega)]
  cases he : d.extension with
  | none =>
    have hext : d.extensionBytes.length = 0 := by
      unfold extensionBytes
      rw [he]
      rfl
    rw [if_neg (by rw [hx, he]; simp)]
    exact congrArg some (by omega)
  | some e =>
    have hwords := e.words_lt
    have hbytes : d.extensionBytes = e.bytes := by
      unfold extensionBytes
      rw [he]
      rfl
    have hext := e.bytes_length
    rw [hbytes] at hheader
    have hcount : (be16 (d.serialize.getD (12 + d.csrcs.length * 4 + 2) 0)
        (d.serialize.getD (12 + d.csrcs.length * 4 + 3) 0)).toNat = e.words.length := by
      rw [serialize_after, serialize_after, hbytes]
      exact be16_be16Bytes hwords
    rw [if_pos (by rw [hx, he]; rfl), if_neg (by omega)]
    simp only [hcount]
    rw [if_neg (by omega)]
    exact congrArg some (by omega)

theorem payloadEnd_serialize :
    payloadEnd d.serialize d.header.length = some (d.header.length + d.payload.length) := by
  obtain ⟨-, -, -, hpad⟩ := d.serialize_flags
  have htotal := d.serialize_length
  unfold payloadEnd
  cases hp : d.padding with
  | none =>
    have hnone : d.paddingBytes.length = 0 := by
      unfold paddingBytes
      rw [hp]
      rfl
    rw [if_neg (by rw [hpad, hp]; simp)]
    exact congrArg some (by omega)
  | some p =>
    have hlast := d.serialize_last hp
    have hbytes : d.paddingBytes.length = p.fill.length + 1 := by
      unfold paddingBytes
      rw [hp]
      exact p.bytes_length
    rw [if_pos (by rw [hpad, hp]; rfl)]
    simp only [hlast]
    rw [if_neg (by omega)]
    exact congrArg some (by omega)

theorem serialize_payload : (d.serialize.drop d.header.length).take d.payload.length = d.payload := by
  unfold serialize
  rw [List.append_assoc, List.drop_left, List.take_left]

theorem markerByte_packet :
    markerByte d.marker d.payloadType &&& 127 = d.payloadType ∧
      decide (markerByte d.marker d.payloadType &&& 128 ≠ 0) = d.marker := by
  have h := markerByte_spec d.marker ⟨d.payloadType.toNat, UInt8.lt_iff_toNat_lt.mp d.payloadType_lt⟩
  rw [UInt8.ofNat_toNat] at h
  exact h

theorem packetAt_serialize {fin : Nat} (hfin : fin = d.header.length + d.payload.length)
    (hlt : d.header.length < fin) (hle : fin ≤ d.serialize.length) :
    packetAt d.serialize d.header.length fin hlt hle = d.packet := by
  subst hfin
  obtain ⟨htype, hmarker⟩ := d.markerByte_packet
  unfold packetAt packet
  simp only [RtpPacket.mk.injEq]
  simp only [d.serialize_fixed (show 1 < 12 by omega), d.serialize_fixed (show 2 < 12 by omega),
    d.serialize_fixed (show 3 < 12 by omega), d.serialize_fixed (show 4 < 12 by omega),
    d.serialize_fixed (show 5 < 12 by omega), d.serialize_fixed (show 6 < 12 by omega),
    d.serialize_fixed (show 7 < 12 by omega), d.serialize_fixed (show 8 < 12 by omega),
    d.serialize_fixed (show 9 < 12 by omega), d.serialize_fixed (show 10 < 12 by omega),
    d.serialize_fixed (show 11 < 12 by omega)]
  refine ⟨?_, ?_, ?_, ?_, htype, hmarker⟩
  · rw [Nat.add_sub_cancel_left]
    exact d.serialize_payload
  · exact UInt32.toNat_inj.mp (be32_be32Bytes d.timestamp.toNat_lt rfl)
  · exact UInt32.toNat_inj.mp (be32_be32Bytes d.ssrc.toNat_lt rfl)
  · exact UInt16.toNat_inj.mp (be16_be16Bytes d.sequence.toNat_lt)

theorem parse_serialize (h : d.serialize.length ≤ 65535) : parseRtp d.serialize = some d.packet := by
  have hpayload := List.length_pos_of_ne_nil d.payload_ne
  have htotal := d.serialize_length
  have hheader := d.header_length
  have hframed : Framed d.serialize := ⟨by omega, h, d.serialize_flags.1⟩
  rw [parseRtp_packetAt hframed d.payloadOffset_serialize d.payloadEnd_serialize (by omega)]
  exact congrArg some (d.packetAt_serialize rfl _ _)

end Datagram

/-! ## What is accepted was written so -/

theorem take_words {b : Bytes} {i k : Nat} (h : i + k * 4 ≤ b.length) :
    ∃ ws, ws.length = k ∧ b.take (i + k * 4) = b.take i ++ wordBytes ws := by
  obtain ⟨ws, hlength, hbytes⟩ := exists_words (k := k) (b := (b.drop i).take (k * 4))
    (by rw [List.length_take, List.length_drop]; omega)
  exact ⟨ws, hlength, by rw [List.take_add, hbytes]⟩

theorem take_extension {b : Bytes} {i : Nat} (hfour : 4 ≤ b.length - i)
    (h : 4 + (be16 (b.getD (i + 2) 0) (b.getD (i + 3) 0)).toNat * 4 ≤ b.length - i) :
    ∃ e : Extension, b.take (i + (4 + (be16 (b.getD (i + 2) 0) (b.getD (i + 3) 0)).toNat * 4)) =
      b.take i ++ e.bytes := by
  obtain ⟨p0, p1, n0, n1, data, hdrop⟩ : ∃ p0 p1 n0 n1 data, b.drop i = p0 :: p1 :: n0 :: n1 :: data := by
    have hlength : 4 ≤ (b.drop i).length := by rw [List.length_drop]; exact hfour
    match b.drop i, hlength with
    | p0 :: p1 :: n0 :: n1 :: data, _ => exact ⟨p0, p1, n0, n1, data, rfl⟩
  have hget : ∀ j, b.getD (i + j) 0 = (p0 :: p1 :: n0 :: n1 :: data).getD j 0 := by
    intro j
    rw [← hdrop, List.getD_eq_getElem?_getD, List.getD_eq_getElem?_getD, List.getElem?_drop]
  have hdata : data.length = b.length - i - 4 := by
    have := congrArg List.length hdrop
    rw [List.length_drop] at this
    simp only [List.length_cons] at this
    omega
  rw [hget 2, hget 3] at h ⊢
  change 4 + (be16 n0 n1).toNat * 4 ≤ _ at h
  change ∃ e : Extension, b.take (i + (4 + (be16 n0 n1).toNat * 4)) = _
  obtain ⟨ws, hcount, hwords⟩ := take_words (b := data) (i := 0) (k := (be16 n0 n1).toNat) (by omega)
  refine ⟨⟨be16 p0 p1, ws, by rw [hcount]; exact (be16 n0 n1).toNat_lt⟩, ?_⟩
  rw [Nat.zero_add, List.take_zero, List.nil_append] at hwords
  rw [List.take_add, hdrop, Nat.add_comm 4]
  rw [Extension.bytes_eq _ hcount, be16Bytes_be16, be16Bytes_be16, ← hwords]
  rfl

/-- An accepted header is that of a datagram. -/
theorem take_payloadOffset {b : Bytes} {o : Nat} (h : payloadOffset b = some o) :
    o ≤ b.length ∧ ∃ (csrcs : List UInt32) (extension : Option Extension),
      csrcs.length = (b.getD 0 0 &&& 15).toNat ∧ extension.isSome = decide (b.getD 0 0 &&& 16 ≠ 0) ∧
        b.take o = b.take 12 ++ wordBytes csrcs ++ (extension.map Extension.bytes).getD [] := by
  unfold payloadOffset at h
  simp only at h
  split at h
  · cases h
  rename_i hle
  obtain ⟨csrcs, hcount, htake⟩ := take_words (b := b) (i := 12) (Nat.not_lt.mp hle)
  split at h
  · rename_i hflag
    split at h
    · cases h
    rename_i hfour
    split at h
    · cases h
    rename_i hlength
    obtain rfl := Option.some.inj h
    obtain ⟨e, hext⟩ := take_extension (Nat.not_lt.mp hfour) (Nat.not_lt.mp hlength)
    refine ⟨by omega, csrcs, some e, hcount, (decide_eq_true hflag).symm, ?_⟩
    rw [hext, htake]
    rfl
  · rename_i hflag
    obtain rfl := Option.some.inj h
    refine ⟨Nat.not_lt.mp hle, csrcs, none, hcount, (decide_eq_false hflag).symm, ?_⟩
    rw [htake]
    exact (List.append_nil _).symm

theorem exists_fill {b : Bytes} {i : Nat} (h : b.drop i ≠ []) : ∃ fill, b.drop i = fill ++ [b.getLastD 0] := by
  have hne : b ≠ [] := by
    rintro rfl
    exact h List.drop_nil
  refine ⟨(b.drop i).dropLast, ?_⟩
  rw [List.getLastD_eq_getLast?, List.getLast?_eq_some_getLast hne, Option.getD_some, ← List.getLast_drop h,
    List.dropLast_append_getLast]

/-- Accepted padding is that of a datagram. -/
theorem drop_payloadEnd {b : Bytes} {o fin : Nat} (h : payloadEnd b o = some fin) :
    ∃ padding : Option Padding, padding.isSome = decide (b.getD 0 0 &&& 32 ≠ 0) ∧
      b.drop fin = (padding.map Padding.bytes).getD [] := by
  unfold payloadEnd at h
  split at h
  · rename_i hflag
    simp only at h
    split at h
    · cases h
    rename_i hcount
    obtain rfl := Option.some.inj h
    have hlast := (b.getLastD 0).toNat_lt
    have hlength : (b.drop (b.length - (b.getLastD 0).toNat)).length = (b.getLastD 0).toNat := by
      rw [List.length_drop]
      omega
    have hdrop : b.drop (b.length - (b.getLastD 0).toNat) ≠ [] := by
      apply List.ne_nil_of_length_pos
      rw [hlength]
      omega
    obtain ⟨fill, hfill⟩ := exists_fill hdrop
    rw [hfill, List.length_append, List.length_singleton] at hlength
    refine ⟨some ⟨fill, by omega⟩, (decide_eq_true hflag).symm, ?_⟩
    change _ = fill ++ [UInt8.ofNat (fill.length + 1)]
    rw [hfill, hlength, UInt8.ofNat_toNat]
  · rename_i hflag
    obtain rfl := Option.some.inj h
    exact ⟨none, (decide_eq_false hflag).symm, List.drop_length⟩

/-- The first twelve bytes of an accepted datagram. -/
theorem take_fixed {b : Bytes} (h : Framed b) :
    b.take 12 = Datagram.flags (b.getD 0 0 &&& 32 ≠ 0) (b.getD 0 0 &&& 16 ≠ 0) (b.getD 0 0 &&& 15).toNat ::
      Datagram.markerByte (b.getD 1 0 &&& 128 ≠ 0) (b.getD 1 0 &&& 127) ::
      (be16Bytes (be16 (b.getD 2 0) (b.getD 3 0)).toNat ++
        be32Bytes (be32 (b.getD 4 0) (b.getD 5 0) (b.getD 6 0) (b.getD 7 0)).toNat ++
        be32Bytes (be32 (b.getD 8 0) (b.getD 9 0) (b.getD 10 0) (b.getD 11 0)).toNat) := by
  obtain ⟨hmin, -, hversion⟩ := h
  match b, hmin, hversion with
  | b0 :: b1 :: b2 :: b3 :: b4 :: b5 :: b6 :: b7 :: b8 :: b9 :: b10 :: b11 :: rest, _, hversion =>
    have hflags := Datagram.flags_inv ⟨b0.toNat, b0.toNat_lt⟩
    have hmarker := (Datagram.markerByte_inv ⟨b1.toNat, b1.toNat_lt⟩).2
    simp only [UInt8.ofNat_toNat] at hflags hmarker
    simp only [List.getD_cons_zero, List.getD_cons_succ] at hversion ⊢
    rw [hflags hversion, hmarker, be16Bytes_be16, be32Bytes_be32, be32Bytes_be32]
    rfl

/-- What is accepted is a datagram, and its payload what the datagram has
between header and padding. -/
theorem exists_datagram {b : Bytes} {p : RtpPacket} (h : parseRtp b = some p) :
    b.length ≤ 65535 ∧ ∃ d : Datagram, d.serialize = b ∧ d.packet = p := by
  obtain ⟨hframed, o, fin, ho, hf, hlt, rfl⟩ := parseRtp_some h
  refine ⟨hframed.2.1, ?_⟩
  obtain ⟨hle, csrcs, extension, hcount, hextended, htake⟩ := take_payloadOffset ho
  obtain ⟨padding, hpadded, hdrop⟩ := drop_payloadEnd hf
  have hcc : csrcs.length ≤ 15 := by
    rw [hcount, UInt8.toNat_and]
    exact Nat.and_le_right
  have htype := (Datagram.markerByte_inv ⟨(b.getD 1 0).toNat, (b.getD 1 0).toNat_lt⟩).1
  simp only [UInt8.ofNat_toNat] at htype
  refine ⟨⟨b.getD 1 0 &&& 128 ≠ 0, b.getD 1 0 &&& 127, htype, be16 (b.getD 2 0) (b.getD 3 0),
    be32 (b.getD 4 0) (b.getD 5 0) (b.getD 6 0) (b.getD 7 0),
    be32 (b.getD 8 0) (b.getD 9 0) (b.getD 10 0) (b.getD 11 0), csrcs, hcc, extension,
    (b.drop o).take (fin - o), slice_ne_nil hlt (payloadEnd_le hf), padding⟩, ?_, rfl⟩
  have hfixed := take_fixed hframed
  rw [← hpadded, ← hextended, ← hcount] at hfixed
  calc _ = (b.take 12 ++ wordBytes csrcs ++ (extension.map Extension.bytes).getD []) ++
        (b.drop o).take (fin - o) ++ (padding.map Padding.bytes).getD [] := by rw [hfixed]; rfl
    _ = b.take o ++ (b.drop o).take (fin - o) ++ b.drop fin := by rw [htake, hdrop]
    _ = b.take fin ++ b.drop fin := by rw [← List.take_add, Nat.add_sub_cancel' hlt.le]
    _ = b := List.take_append_drop fin b

/-! ## Every read in bounds -/

/-- The fields of a packet, before anything is known of them. -/
structure RtpFields where
  payload : Bytes
  timestamp : UInt32
  ssrc : UInt32
  sequence : UInt16
  payloadType : UInt8
  marker : Bool

def fields (p : RtpPacket) : RtpFields :=
  ⟨p.payload, p.timestamp, p.ssrc, p.sequence, p.payloadType, p.marker⟩

/-- mirrors shared/km/rtp_wire.h:25-32 -/
def readOffset (b : Bytes) : Checked (Option Nat) := do
  let first ← cget b 0
  let offset := 12 + (first &&& 15).toNat * 4
  if offset > b.length then return none
  else if first &&& 16 ≠ 0 then
    let rest ← csub b.length offset
    if rest < 4 then return none
    else
      let words ← cbe16 b (offset + 2)
      let length := 4 + words.toNat * 4
      if length > rest then return none else return some (offset + length)
  else return some offset

/-- mirrors shared/km/rtp_wire.h:33-38 -/
def readEnd (b : Bytes) (offset : Nat) : Checked (Option Nat) := do
  let first ← cget b 0
  if first &&& 32 ≠ 0 then
    let last ← csub b.length 1
    let padding ← cget b last
    let rest ← csub b.length offset
    if padding.toNat = 0 ∨ padding.toNat > rest then return none
    else return some (← csub b.length padding.toNat)
  else return some b.length

/-- mirrors shared/km/rtp_wire.h:39-41 -/
def readPacket (b : Bytes) (offset fin : Nat) : Checked RtpFields := do
  let payload ← cspan b offset (← csub fin offset)
  let timestamp ← cbe32 b 4
  let ssrc ← cbe32 b 8
  let sequence ← cbe16 b 2
  let second ← cget b 1
  return ⟨payload, timestamp, ssrc, sequence, second &&& 127, second &&& 128 ≠ 0⟩

/-- mirrors shared/km/rtp_wire.h:23-42 -/
def readRtp (b : Bytes) : Checked (Option RtpFields) := do
  if b.length < 12 ∨ b.length > 65535 then return none
  else if (← cget b 0) >>> 6 ≠ 2 then return none
  else
    match ← readOffset b with
    | none => return none
    | some offset =>
      match ← readEnd b offset with
      | none => return none
      | some fin => if fin ≤ offset then return none else return some (← readPacket b offset fin)

theorem readOffset_eq {b : Bytes} (h : 12 ≤ b.length) : readOffset b = .ok (payloadOffset b) := by
  unfold readOffset payloadOffset
  rw [cget_getD (by omega) 0, ok_bind]
  simp only
  split
  · rfl
  rename_i hle
  split
  · rw [csub_ok (by omega), ok_bind]
    split
    · rfl
    rw [cbe16_ok (by omega), ok_bind]
    split <;> rfl
  · rfl

theorem cget_last {b : Bytes} (h : 0 < b.length) : cget b (b.length - 1) = .ok (b.getLastD 0) := by
  rw [cget_getD (by omega) 0, List.getLastD_eq_getLast?, List.getLast?_eq_getElem?, List.getD_eq_getElem?_getD]

theorem readEnd_eq {b : Bytes} {offset : Nat} (hpos : 0 < b.length) (h : offset ≤ b.length) :
    readEnd b offset = .ok (payloadEnd b offset) := by
  unfold readEnd payloadEnd
  rw [cget_getD hpos 0, ok_bind]
  simp only
  split
  · rw [csub_ok (by omega), ok_bind, cget_last hpos, ok_bind, csub_ok h, ok_bind]
    split
    · rfl
    rename_i hcount
    rw [csub_ok (by omega), ok_bind]
    rfl
  · rfl

theorem readPacket_eq {b : Bytes} {offset fin : Nat} (hmin : 12 ≤ b.length) (hlt : offset < fin)
    (hle : fin ≤ b.length) : readPacket b offset fin = .ok (fields (packetAt b offset fin hlt hle)) := by
  unfold readPacket
  rw [csub_ok hlt.le, ok_bind, cspan_ok (by omega), ok_bind, cbe32_ok (by omega), ok_bind, cbe32_ok (by omega),
    ok_bind, cbe16_ok (by omega), ok_bind, cget_getD (by omega) 0, ok_bind]
  rfl

theorem parseRtp_none {b : Bytes}
    (h : ∀ offset fin, payloadOffset b = some offset → payloadEnd b offset = some fin → fin ≤ offset) :
    parseRtp b = none := by
  cases hp : parseRtp b with
  | none => rfl
  | some p =>
    obtain ⟨-, offset, fin, ho, hf, hlt, -⟩ := parseRtp_some hp
    exact absurd (h offset fin ho hf) (Nat.not_le.mpr hlt)

/-- Nothing is read outside the datagram, and no difference wraps. -/
theorem readRtp_eq (b : Bytes) : readRtp b = .ok ((parseRtp b).map fields) := by
  unfold readRtp
  split
  · rename_i hlength
    unfold parseRtp
    rw [if_pos (by rcases hlength with h | h <;> simp [h])]
    rfl
  rename_i hlength
  rw [cget_getD (by omega) 0, ok_bind]
  split
  · rename_i hversion
    unfold parseRtp
    rw [if_pos (.inr (.inr hversion))]
    rfl
  rename_i hversion
  have hframed : Framed b := ⟨by omega, by omega, not_not.mp hversion⟩
  rw [readOffset_eq hframed.1, ok_bind]
  cases ho : payloadOffset b with
  | none =>
    rw [parseRtp_none fun offset fin ho' => by rw [ho] at ho'; cases ho']
    rfl
  | some offset =>
    show (readEnd b offset >>= _) = _
    rw [readEnd_eq (by omega) (take_payloadOffset ho).1, ok_bind]
    cases hf : payloadEnd b offset with
    | none =>
      rw [parseRtp_none fun offset' fin ho' hf' => by rw [ho] at ho'; cases ho'; rw [hf] at hf'; cases hf']
      rfl
    | some fin =>
      simp only
      split
      · rename_i hempty
        rw [parseRtp_none fun offset' fin' ho' hf' => by
          rw [ho] at ho'; cases ho'; rw [hf] at hf'; cases hf'; exact hempty]
        rfl
      · rename_i hlt
        rw [readPacket_eq hframed.1 (Nat.not_le.mp hlt) (payloadEnd_le hf), ok_bind,
          parseRtp_packetAt hframed ho hf (Nat.not_le.mp hlt)]
        rfl

/-- **The reader inverts the writer.** Every datagram of at most 65535 bytes is
read as its packet; whatever is read, no read leaves the bytes; and an accepted
payload is what stands between the header and the padding. -/
theorem parseRtp_inverts :
    (∀ d : Datagram, d.serialize.length ≤ 65535 → parseRtp d.serialize = some d.packet) ∧
      (∀ b, readRtp b = .ok ((parseRtp b).map fields)) ∧
      ∀ b p, parseRtp b = some p → p.payload ≠ [] ∧
        ∃ d : Datagram, d.header ++ p.payload ++ d.paddingBytes = b ∧ d.packet = p := by
  refine ⟨fun d h => d.parse_serialize h, readRtp_eq, fun b p h => ⟨p.payload_ne, ?_⟩⟩
  obtain ⟨-, d, rfl, rfl⟩ := exists_datagram h
  exact ⟨d, rfl, rfl⟩

end KmVirtualCamera.L1.RtpDatagram
