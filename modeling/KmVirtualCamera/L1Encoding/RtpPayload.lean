import Mathlib
import KmVirtualCamera.L1Encoding.RtpWire

/-!
# The sender's RTP packets (RFC 6184, non-interleaved mode)

A sender cuts the NAL units of an access unit into pieces: a unit in a packet
of its own, several units in one STAP-A packet, a unit in two or more FU-A
fragments. Which pieces it takes is up to it; `Piece.Ok` is what the format
asks of each. The packets of an access unit carry one timestamp, and the last
one the marker.

The repository only receives this format. A datagram is whatever `parseRtp`
reads as the packet; `datagram` is the plainest one.
-/
namespace KmVirtualCamera.L1.RtpPayload
open KmVirtualCamera.ByteOrder KmVirtualCamera.L1.RtpWire

inductive Piece where
  /-- a unit in a packet of its own -/
  | single (n : Bytes)
  /-- units in one STAP-A packet, with its first byte -/
  | stapA (indicator : UInt8) (ns : List Bytes)
  /-- a unit, its first byte and then the fragments of the rest -/
  | fuA (header : UInt8) (fragments : List Bytes)

def Piece.nalus : Piece → List Bytes
  | .single n => [n]
  | .stapA _ ns => ns
  | .fuA header fragments => [header :: fragments.flatten]

def stapUnit (n : Bytes) : Bytes := be16Bytes n.length ++ n

/-- The first byte of a fragment: that of the unit with the type FU-A. -/
def fuIndicator (header : UInt8) : UInt8 := (header &&& 0xE0) ||| 28

/-- The second: start and end bit, and the type of the unit. -/
def fuHeader (header : UInt8) (first last : Bool) : UInt8 :=
  (if first then 128 else 0) ||| (if last then 64 else 0) ||| (header &&& 31)

def fuPayloads (header : UInt8) : Bool → List Bytes → List Bytes
  | _, [] => []
  | first, [d] => [fuIndicator header :: fuHeader header first true :: d]
  | first, d :: e :: ds =>
    (fuIndicator header :: fuHeader header first false :: d) :: fuPayloads header false (e :: ds)

def Piece.payloads : Piece → List Bytes
  | .single n => [n]
  | .stapA indicator ns => [indicator :: ns.flatMap stapUnit]
  | .fuA header fragments => fuPayloads header true fragments

/-- A STAP-A packet has 1 to 1024 units, each with a 16-bit length; a unit is
fragmented into two or more fragments that are not empty. -/
def Piece.Ok : Piece → Prop
  | .single _ => True
  | .stapA indicator ns => indicator &&& 31 = 24 ∧ indicator &&& 128 = 0 ∧ 1 ≤ ns.length ∧ ns.length ≤ 1024 ∧
    ∀ n ∈ ns, n.length < 2 ^ 16
  | .fuA _ fragments => 2 ≤ fragments.length ∧ ∀ d ∈ fragments, d ≠ []

/-- An access unit and how it is cut. -/
structure AccessUnit where
  timestamp : UInt32
  pieces : List Piece

def AccessUnit.nalus (u : AccessUnit) : List Bytes := u.pieces.flatMap Piece.nalus

/-- What one packet carries. -/
structure Content where
  payload : Bytes
  timestamp : UInt32
  marker : Bool

def contents (timestamp : UInt32) : List Bytes → List Content
  | [] => []
  | [p] => [⟨p, timestamp, true⟩]
  | p :: p' :: ps => ⟨p, timestamp, false⟩ :: contents timestamp (p' :: ps)

def AccessUnit.contents (u : AccessUnit) : List Content :=
  RtpPayload.contents u.timestamp (u.pieces.flatMap Piece.payloads)

/-- The datagram is read as packet `sequence` of the stream, with this content. -/
def Carries (ssrc : UInt32) (sequence : UInt16) (c : Content) (b : Bytes) : Prop :=
  ∃ p, parseRtp b = some p ∧ p.ssrc = ssrc ∧ p.sequence = sequence ∧ p.payload = c.payload ∧
    p.timestamp = c.timestamp ∧ p.marker = c.marker

/-- The datagrams carry the contents, numbered from `sequence` on. -/
def CarryAll (ssrc : UInt32) : UInt16 → List Content → List Bytes → Prop
  | _, [], [] => True
  | sequence, c :: cs, b :: bs => Carries ssrc sequence c b ∧ CarryAll ssrc (sequence + 1) cs bs
  | _, [], _ :: _ => False
  | _, _ :: _, [] => False

/-- A datagram without CSRC list, extension and padding, of payload type 96. -/
def datagram (ssrc : UInt32) (sequence : UInt16) (c : Content) : Bytes :=
  [0x80, if c.marker then 0xE0 else 0x60] ++ be16Bytes sequence.toNat ++ be32Bytes c.timestamp.toNat ++
    be32Bytes ssrc.toNat ++ c.payload

/-! ## The bytes of a payload -/

/-- What a fragment says of its unit. -/
theorem fu_bits : ∀ header : UInt8, 0 < header &&& 31 → header &&& 31 < 24 →
    ∀ first last : Bool, ¬ (first = true ∧ last = true) →
      fuIndicator header &&& 31 = 28 ∧ fuIndicator header &&& 128 = header &&& 128 ∧
      (fuIndicator header &&& 224) ||| (fuHeader header first last &&& 31) = header ∧
      ¬ (fuHeader header first last &&& 32 ≠ 0 ∨ fuHeader header first last &&& 31 = 0 ∨
        fuHeader header first last &&& 31 > 23 ∨ fuHeader header first last &&& 192 = 192) ∧
      decide (fuHeader header first last &&& 128 ≠ 0) = first ∧
      decide (fuHeader header first last &&& 64 ≠ 0) = last := by
  decide +kernel

theorem parseRtp_datagram (ssrc : UInt32) (sequence : UInt16) {c : Content} (hne : c.payload ≠ [])
    (hlen : c.payload.length ≤ 65523) : Carries ssrc sequence c (datagram ssrc sequence c) := by
  have hpos := List.length_pos_of_ne_nil hne
  have hlength : (datagram ssrc sequence c).length = 12 + c.payload.length := by
    simp [datagram, be16Bytes, be32Bytes]
    omega
  have hfirst : (datagram ssrc sequence c).getD 0 0 = 0x80 := rfl
  have hcsrc : ((0x80 : UInt8) &&& 15).toNat = 0 := rfl
  have hextension : ¬ (0x80 : UInt8) &&& 16 ≠ 0 := by decide
  have hpadding : ¬ (0x80 : UInt8) &&& 32 ≠ 0 := by decide
  have hoffset : payloadOffset (datagram ssrc sequence c) = some 12 := by
    unfold payloadOffset
    rw [hfirst, hcsrc]
    simp only [if_neg hextension]
    rw [if_neg (by omega)]
  have hend : payloadEnd (datagram ssrc sequence c) 12 = some (datagram ssrc sequence c).length := by
    unfold payloadEnd
    rw [hfirst, if_neg hpadding]
  have hbytes : ∀ n : UInt32, be32 (UInt8.ofNat (n.toNat >>> 24)) (UInt8.ofNat (n.toNat >>> 16))
      (UInt8.ofNat (n.toNat >>> 8)) (UInt8.ofNat n.toNat) = n :=
    fun n => UInt32.toNat_inj.mp (be32_be32Bytes n.toNat_lt rfl)
  refine ⟨_, parseRtp_packetAt ⟨by omega, by omega, by rw [hfirst]; rfl⟩ hoffset hend (by omega),
    ?_, ?_, ?_, ?_, ?_⟩
  · exact hbytes ssrc
  · exact UInt16.toNat_inj.mp (be16_be16Bytes sequence.toNat_lt)
  · show ((datagram ssrc sequence c).drop 12).take ((datagram ssrc sequence c).length - 12) = c.payload
    have hdrop : (datagram ssrc sequence c).drop 12 = c.payload := rfl
    rw [hdrop, hlength, List.take_of_length_le (by omega)]
  · exact hbytes c.timestamp
  · show decide ((if c.marker then 0xE0 else 0x60 : UInt8) &&& 128 ≠ 0) = c.marker
    cases c.marker with
    | true => rfl
    | false => rfl

/-- The datagrams of a stream in their plainest form. -/
def datagrams (ssrc : UInt32) : UInt16 → List Content → List Bytes
  | _, [] => []
  | sequence, c :: cs => datagram ssrc sequence c :: datagrams ssrc (sequence + 1) cs

theorem carryAll_datagrams (ssrc : UInt32) : ∀ (sequence : UInt16) (cs : List Content),
    (∀ c ∈ cs, c.payload ≠ [] ∧ c.payload.length ≤ 65523) → CarryAll ssrc sequence cs (datagrams ssrc sequence cs)
  | _, [], _ => trivial
  | sequence, c :: cs, h =>
    have hc := h c List.mem_cons_self
    ⟨parseRtp_datagram ssrc sequence hc.1 hc.2,
      carryAll_datagrams ssrc (sequence + 1) cs fun x hx => h x (List.mem_cons_of_mem c hx)⟩

theorem carryAll_append {ssrc : UInt32} : ∀ {sequence : UInt16} {cs cs' : List Content} {bs : List Bytes},
    CarryAll ssrc sequence (cs ++ cs') bs →
      ∃ bs₁ bs₂, bs = bs₁ ++ bs₂ ∧ CarryAll ssrc sequence cs bs₁ ∧
        CarryAll ssrc (sequence + UInt16.ofNat cs.length) cs' bs₂
  | sequence, [], cs', bs, h => ⟨[], bs, rfl, trivial, by simpa using h⟩
  | sequence, c :: cs, cs', [], h => h.elim
  | sequence, c :: cs, cs', b :: bs, h => by
    obtain ⟨hb, hbs⟩ := h
    obtain ⟨bs₁, bs₂, rfl, h₁, h₂⟩ := carryAll_append hbs
    refine ⟨b :: bs₁, bs₂, rfl, ⟨hb, h₁⟩, ?_⟩
    rw [List.length_cons, UInt16.ofNat_add, ← add_assoc, add_right_comm]
    exact h₂

/-- The datagrams received so far carry the contents sent so far. -/
theorem carryAll_prefix {ssrc : UInt32} : ∀ {sequence : UInt16} {cs : List Content} {bs bs' : List Bytes},
    CarryAll ssrc sequence cs (bs ++ bs') → ∃ cs', CarryAll ssrc sequence cs' bs
  | _, _, [], _, _ => ⟨[], trivial⟩
  | _, [], _ :: _, _, h => h.elim
  | _, c :: _, _ :: _, _, ⟨hb, hbs⟩ =>
    have ⟨cs', hcs'⟩ := carryAll_prefix hbs
    ⟨c :: cs', hb, hcs'⟩

theorem mem_contents {timestamp : UInt32} {c : Content} : ∀ {ps : List Bytes},
    c ∈ contents timestamp ps → c.payload ∈ ps
  | [], h => by cases h
  | [p], h => by
    rw [contents, List.mem_singleton] at h
    rw [h]
    exact List.mem_cons_self
  | p :: p' :: ps, h => by
    rw [contents, List.mem_cons] at h
    rcases h with rfl | h
    · exact List.mem_cons_self
    · exact List.mem_cons_of_mem p (mem_contents h)

theorem contents_length (timestamp : UInt32) : ∀ ps : List Bytes, (contents timestamp ps).length = ps.length
  | [] => rfl
  | [_] => rfl
  | _ :: p :: ps => congrArg Nat.succ (contents_length timestamp (p :: ps))

theorem mem_fuPayloads {header : UInt8} {p : Bytes} : ∀ {first : Bool} {ds : List Bytes},
    p ∈ fuPayloads header first ds → ∃ d ∈ ds, p.length = d.length + 2
  | _, [], h => by cases h
  | first, [d], h => by
    rw [fuPayloads, List.mem_singleton] at h
    exact ⟨d, List.mem_cons_self, by rw [h]; rfl⟩
  | first, d :: e :: ds, h => by
    rw [fuPayloads, List.mem_cons] at h
    rcases h with rfl | h
    · exact ⟨d, List.mem_cons_self, rfl⟩
    · obtain ⟨d', hd', hlen⟩ := mem_fuPayloads h
      exact ⟨d', List.mem_cons_of_mem d hd', hlen⟩

end KmVirtualCamera.L1.RtpPayload
