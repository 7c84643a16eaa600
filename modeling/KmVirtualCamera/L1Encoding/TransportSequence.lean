import Mathlib
import KmVirtualCamera.L1Encoding.RtpDatagram

/-!
# The transport sequence number of an RTP packet (`ParseTransportSequence`)

The number stands in a one-byte-header extension: a block of elements, each a
byte with its id and length and up to sixteen bytes of data, with padding bytes
between. `scan` walks over the block; every read is checked.

* `parse_total`: on any bytes the scan ends and reads inside them.
* `parse_packet`: on a packet whose block is a list of elements and padding the
  result is the first element with the id and at least two bytes.
-/
namespace KmVirtualCamera.L1.TransportSequence
open KmVirtualCamera.ByteOrder KmVirtualCamera.L1.RtpWire KmVirtualCamera.L1.RtpDatagram

/-- The `while` loop, from `pos` on.
mirrors shared/receiver/rtc/twcc_receiver.cpp:65-93 -/
def scan (data : Bytes) (extensionId : UInt8) (extDataEnd pos : Nat) : Checked (Option UInt16) :=
  if pos < extDataEnd then
    match cget data pos with
    | .error e => .error e
    | .ok byte =>
      if byte = 0 then scan data extensionId extDataEnd (pos + 1)
      else
        let id := byte >>> 4 &&& 0x0F
        if id = 15 then .ok none
        else
          let len := ((byte &&& 0x0F) + 1).toNat
          if pos + 1 + len > extDataEnd then .ok none
          else if id = extensionId ∧ len ≥ 2 then (cbe16 data (pos + 1)).map some
          else scan data extensionId extDataEnd (pos + 1 + len)
  else .ok none
termination_by extDataEnd - pos

/-- `none` stands for `false`, with `out_seq` untouched.
mirrors shared/receiver/rtc/twcc_receiver.cpp:37-96 -/
def parseTransportSequence (data : Bytes) (extensionId : UInt8) : Checked (Option UInt16) :=
  if data.length < 12 ∨ extensionId = 0 ∨ extensionId > 14 then .ok none
  else do
    let byte0 ← cget data 0
    if byte0 >>> 6 &&& 0x03 ≠ 2 then return none
    else if byte0 &&& 0x10 = 0 then return none
    else
      let extOffset := 12 + (byte0 &&& 0x0F).toNat * 4
      if data.length < extOffset + 4 then return none
      else do
        let profile ← cbe16 data extOffset
        if profile ≠ 0xBEDE then return none
        else do
          let extLenWords ← cbe16 data (extOffset + 2)
          let extDataOffset := extOffset + 4
          let extDataEnd := extDataOffset + extLenWords.toNat * 4
          if extDataEnd > data.length then return none
          else scan data extensionId extDataEnd extDataOffset

/-! ## Packets -/

structure Element where
  id : Nat
  id_range : 1 ≤ id ∧ id ≤ 14
  body : Bytes
  body_length : 1 ≤ body.length ∧ body.length ≤ 16

inductive Item where
  | padding
  | element (e : Element)

/-- The byte in front of an element: its id, and its length less one. -/
def Element.header (e : Element) : UInt8 := UInt8.ofNat (e.id * 16 + (e.body.length - 1))

def Item.bytes : Item → Bytes
  | .padding => [0]
  | .element e => e.header :: e.body

def blockBytes (items : List Item) : Bytes := items.flatMap Item.bytes

/-- An RTP packet with an extension of the profile 0xBEDE. `fixed` is its
second to twelfth byte, `rest` what follows the extension. -/
structure Packet where
  padded : Bool
  fixed : Bytes
  fixed_length : fixed.length = 11
  csrcs : List UInt32
  csrcs_le : csrcs.length ≤ 15
  items : List Item
  words : Nat
  block_length : (blockBytes items).length = words * 4
  words_lt : words < 2 ^ 16
  rest : Bytes

def Packet.bytes (p : Packet) : Bytes :=
  Datagram.flags p.padded true p.csrcs.length :: p.fixed ++ wordBytes p.csrcs ++
    (be16Bytes 0xBEDE ++ be16Bytes p.words) ++ blockBytes p.items ++ p.rest

/-- The first two bytes of the first element with the id that has as many. -/
def firstOf (id : Nat) : List Item → Option UInt16
  | [] => none
  | .padding :: items => firstOf id items
  | .element e :: items =>
    if e.id = id ∧ 2 ≤ e.body.length then some (be16 (e.body.getD 0 0) (e.body.getD 1 0)) else firstOf id items

/-! ## Any bytes -/

/-- The block ends inside the packet. -/
theorem scan_total {data : Bytes} {extensionId : UInt8} {extDataEnd pos : Nat} (h : extDataEnd ≤ data.length) :
    ∃ r, scan data extensionId extDataEnd pos = .ok r := by
  fun_induction scan data extensionId extDataEnd pos with
  | case1 pos hlt e hread =>
    rw [cget_getD (by omega) 0] at hread
    cases hread
  | case2 pos hlt hread ih => exact ih
  | case3 pos hlt byte hread hzero id hid => exact ⟨none, rfl⟩
  | case4 pos hlt byte hread hzero id hid len hlong => exact ⟨none, rfl⟩
  | case5 pos hlt byte hread hzero id hid len hlong hfound =>
    rw [cbe16_ok (by omega)]
    exact ⟨_, rfl⟩
  | case6 pos hlt byte hread hzero id hid len hlong hother ih => exact ih
  | case7 pos hlt => exact ⟨none, rfl⟩

theorem parse_total (data : Bytes) (extensionId : UInt8) :
    ∃ r, parseTransportSequence data extensionId = .ok r := by
  unfold parseTransportSequence
  split
  · exact ⟨none, rfl⟩
  · next hshort =>
    rw [cget_getD (by omega) 0, ok_bind]
    split
    · exact ⟨none, rfl⟩
    · split
      · exact ⟨none, rfl⟩
      · simp only
        split
        · exact ⟨none, rfl⟩
        · rw [cbe16_ok (by omega), ok_bind]
          split
          · exact ⟨none, rfl⟩
          · rw [cbe16_ok (by omega), ok_bind]
            split
            · exact ⟨none, rfl⟩
            · exact scan_total (by omega)

/-! ## The elements of a block -/

theorem header_spec : ∀ (id : Fin 15) (n : Fin 16), UInt8.ofNat (id * 16 + n) >>> 4 &&& 0x0F = UInt8.ofNat id ∧
    ((UInt8.ofNat (id * 16 + n) &&& 0x0F) + 1).toNat = n + 1 ∧ (id ≠ 0 → UInt8.ofNat (id * 16 + n) ≠ 0) := by
  decide +kernel

theorem Element.header_eq (e : Element) : e.header >>> 4 &&& 0x0F = UInt8.ofNat e.id ∧
    ((e.header &&& 0x0F) + 1).toNat = e.body.length ∧ e.header ≠ 0 := by
  obtain ⟨hlow, hhigh⟩ := e.id_range
  obtain ⟨hone, hsixteen⟩ := e.body_length
  obtain ⟨hid, hlen, hzero⟩ := header_spec ⟨e.id, by omega⟩ ⟨e.body.length - 1, by omega⟩
  refine ⟨hid, hlen.trans (by simp only; omega), hzero ?_⟩
  intro hc
  have := congrArg Fin.val hc
  simp only [Fin.val_zero] at this
  omega

theorem cget_at (pre : Bytes) (b : UInt8) (post : Bytes) : cget (pre ++ b :: post) pre.length = .ok b := by
  apply cget_ok
  rw [List.getElem?_append_right (le_refl _), Nat.sub_self, List.getElem?_cons_zero]

section Items
variable (extensionId : UInt8) {extDataEnd : Nat}

theorem scan_padding (pre post : Bytes) (h : pre.length < extDataEnd) :
    scan (pre ++ 0 :: post) extensionId extDataEnd pre.length =
      scan (pre ++ 0 :: post) extensionId extDataEnd (pre.length + 1) := by
  rw [scan, if_pos h, cget_at]
  rfl

theorem scan_element (e : Element) (pre post : Bytes) (h : pre.length + 1 + e.body.length ≤ extDataEnd) :
    scan (pre ++ e.header :: (e.body ++ post)) extensionId extDataEnd pre.length =
      if e.id = extensionId.toNat ∧ 2 ≤ e.body.length then .ok (some (be16 (e.body.getD 0 0) (e.body.getD 1 0)))
      else scan (pre ++ e.header :: (e.body ++ post)) extensionId extDataEnd (pre.length + 1 + e.body.length) := by
  obtain ⟨hid, hlen, hne⟩ := e.header_eq
  obtain ⟨hlow, hhigh⟩ := e.id_range
  have hvalue : (UInt8.ofNat e.id).toNat = e.id := by
    rw [UInt8.toNat_ofNat']
    omega
  have hlast : UInt8.ofNat e.id ≠ 15 := by
    intro hc
    have h15 := congrArg UInt8.toNat hc
    rw [hvalue] at h15
    simp only [UInt8.reduceToNat] at h15
    omega
  have hsame : UInt8.ofNat e.id = extensionId ↔ e.id = extensionId.toNat := by
    rw [← UInt8.toNat_inj, hvalue]
  rw [scan, if_pos (by omega), cget_at]
  simp only [hid, hlen, hsame, ge_iff_le]
  rw [if_neg hne, if_neg hlast, if_neg (by omega)]
  by_cases hfound : e.id = extensionId.toNat ∧ 2 ≤ e.body.length
  · have hread : ∀ i < e.body.length, (pre ++ e.header :: (e.body ++ post)).getD (pre.length + 1 + i) 0 =
        e.body.getD i 0 := by
      intro i hi
      rw [List.getD_append_right _ _ _ _ (by omega), show pre.length + 1 + i - pre.length = i + 1 by omega,
        List.getD_cons_succ, List.getD_append _ _ _ _ hi]
    rw [if_pos hfound, if_pos hfound, cbe16_ok (by simp only [List.length_append, List.length_cons]; omega)]
    have h0 := hread 0 (by omega)
    have h1 := hread 1 (by omega)
    rw [Nat.add_zero] at h0
    rw [h0, h1]
    rfl
  · rw [if_neg hfound, if_neg hfound]

/-- By induction on the items: what is passed goes into `pre`. -/
theorem scan_items (post : Bytes) : ∀ (items : List Item) (pre : Bytes),
    scan (pre ++ blockBytes items ++ post) extensionId (pre.length + (blockBytes items).length) pre.length =
      .ok (firstOf extensionId.toNat items)
  | [], pre => by
    rw [scan, if_neg (by simp [blockBytes])]
    rfl
  | .padding :: items, pre => by
    have hblock : blockBytes (.padding :: items) = 0 :: blockBytes items := rfl
    have hshift : pre ++ 0 :: (blockBytes items ++ post) = (pre ++ [0]) ++ blockBytes items ++ post := by simp
    have hrest := scan_items post items (pre ++ [0])
    rw [List.length_append, List.length_singleton] at hrest
    rw [hblock, List.append_assoc, List.cons_append, List.length_cons, scan_padding _ _ _ (by omega), hshift,
      firstOf, ← hrest]
    congr 1
    omega
  | .element e :: items, pre => by
    have hblock : blockBytes (.element e :: items) = e.header :: (e.body ++ blockBytes items) := rfl
    have hshift : pre ++ e.header :: (e.body ++ (blockBytes items ++ post)) =
        (pre ++ e.header :: e.body) ++ blockBytes items ++ post := by simp
    have hrest := scan_items post items (pre ++ e.header :: e.body)
    rw [List.length_append, List.length_cons] at hrest
    rw [hblock, List.append_assoc, List.cons_append, List.append_assoc, List.length_cons, List.length_append,
      scan_element _ _ _ _ (by omega), firstOf]
    split
    · rfl
    · rw [hshift, ← hrest]
      congr 1 <;> omega

end Items

/-! ## A packet -/

theorem firstOf_none {id : Nat} (h : id = 0 ∨ 14 < id) : ∀ items, firstOf id items = none
  | [] => rfl
  | .padding :: items => firstOf_none h items
  | .element e :: items => by
    have hrange := e.id_range
    rw [firstOf, if_neg (by omega)]
    exact firstOf_none h items

namespace Packet
variable (p : Packet)

/-- What stands before the extension. -/
def front : Bytes := Datagram.flags p.padded true p.csrcs.length :: p.fixed ++ wordBytes p.csrcs

theorem front_length : p.front.length = 12 + p.csrcs.length * 4 := by
  unfold front
  rw [List.length_append, List.length_cons, p.fixed_length, wordBytes_length]
  omega

theorem bytes_eq : p.bytes = p.front ++ (0xBE :: 0xDE :: UInt8.ofNat (p.words >>> 8) :: UInt8.ofNat p.words ::
    (blockBytes p.items ++ p.rest)) := by
  simp [bytes, front, be16Bytes]

theorem bytes_length : p.bytes.length = p.front.length + 4 + p.words * 4 + p.rest.length := by
  rw [p.bytes_eq, List.length_append, List.length_cons, List.length_cons, List.length_cons, List.length_cons,
    List.length_append, p.block_length]
  omega

theorem bytes_at (i : Nat) : p.bytes.getD (p.front.length + i) 0 = (0xBE :: 0xDE :: UInt8.ofNat (p.words >>> 8) ::
    UInt8.ofNat p.words :: (blockBytes p.items ++ p.rest)).getD i 0 := by
  rw [p.bytes_eq, List.getD_append_right _ _ _ _ (by omega), Nat.add_sub_cancel_left]

/-- The block is scanned from where it starts. -/
theorem scan_block (extensionId : UInt8) :
    scan p.bytes extensionId (p.front.length + 4 + p.words * 4) (p.front.length + 4) =
      .ok (firstOf extensionId.toNat p.items) := by
  have hscan := scan_items extensionId p.rest p.items
    (p.front ++ [0xBE, 0xDE, UInt8.ofNat (p.words >>> 8), UInt8.ofNat p.words])
  rw [p.block_length, List.length_append] at hscan
  rw [p.bytes_eq, ← hscan]
  congr 1
  simp

end Packet

theorem parse_packet (p : Packet) (extensionId : UInt8) :
    parseTransportSequence p.bytes extensionId = .ok (firstOf extensionId.toNat p.items) := by
  obtain ⟨hversion, hcc, hx, -⟩ := Datagram.flags_spec p.padded true ⟨p.csrcs.length, Nat.lt_succ_of_le p.csrcs_le⟩
  have hlen := p.bytes_length
  have hfront := p.front_length
  unfold parseTransportSequence
  by_cases hid : extensionId = 0 ∨ extensionId > 14
  · have hnone : extensionId.toNat = 0 ∨ 14 < extensionId.toNat := by
      rcases hid with rfl | hid
      · exact .inl rfl
      · exact .inr (UInt8.lt_iff_toNat_lt.mp hid)
    rw [if_pos (.inr hid), firstOf_none hnone]
  · rw [if_neg (by rintro (hc | hc); exacts [absurd hc (by omega), hid hc])]
    have hfirst : p.bytes.getD 0 0 = Datagram.flags p.padded true p.csrcs.length := rfl
    simp only [iff_true] at hversion hcc hx
    rw [cget_getD (by omega) 0, ok_bind, hfirst, hversion]
    rw [if_neg (by decide), if_neg hx, hcc, ← hfront]
    simp only
    rw [if_neg (by omega), cbe16_ok (by omega), ok_bind]
    have hprofile := p.bytes_at 0
    have hprofile' := p.bytes_at 1
    have hwords := p.bytes_at 2
    have hwords' : p.bytes.getD (p.front.length + 2 + 1) 0 = _ := p.bytes_at 3
    simp only [Nat.add_zero, List.getD_cons_zero, List.getD_cons_succ] at hprofile hprofile' hwords hwords'
    rw [hprofile, hprofile', if_neg (by decide), cbe16_ok (by omega), ok_bind, hwords, hwords',
      be16_be16Bytes p.words_lt, if_neg (by omega)]
    exact p.scan_block extensionId

/-- **The transport sequence number is extracted** from every packet, and on any
bytes the scan ends inside them. -/
theorem transport_sequence :
    (∀ (p : Packet) (extensionId : UInt8),
      parseTransportSequence p.bytes extensionId = .ok (firstOf extensionId.toNat p.items)) ∧
    ∀ (data : Bytes) (extensionId : UInt8), ∃ r, parseTransportSequence data extensionId = .ok r :=
  ⟨parse_packet, parse_total⟩

end KmVirtualCamera.L1.TransportSequence
