import Mathlib
import KmVirtualCamera.L2Machine.DcInvariant

/-!
# Packets put together again

A `Shipment` is an access unit cut into chunks, `Carries p u i` says that the
packet `p` is chunk `i` of it, and `Frame.Of f u` that every chunk of the frame
`f` that has arrived is the right one. Storing chunks in any order
keeps `Frame.Of` and fills exactly their slots (`fold_store`); a frame with
all slots filled is the access unit (`Frame.Of.raw`).

`sendAccessUnit_roundtrip` is the result between the two languages.
-/
namespace KmVirtualCamera.L2.DcVideo
open KmVirtualCamera.L1.H264 KmVirtualCamera.L1.DcWire

structure Shipment where
  chunks : List Bytes
  seq : UInt16
  timestamp : UInt32
  flags : UInt8

def Shipment.count (u : Shipment) : Nat := u.chunks.length

def Shipment.chunk (u : Shipment) (i : Nat) : Bytes := u.chunks.getD i []

/-- The access unit. -/
def Shipment.data (u : Shipment) : Bytes := u.chunks.flatten

structure Carries (p : DcPacket) (u : Shipment) (i : Nat) : Prop where
  index : p.index.toNat = i
  count : p.count.toNat = u.count
  seq : p.seq = u.seq
  timestamp : p.timestamp = u.timestamp
  flags : p.stableFlags = u.flags
  payload : p.payload = u.chunk i

theorem Carries.lt {p : DcPacket} {u : Shipment} {i : Nat} (h : Carries p u i) : i < u.count := by
  rw [← h.index, ← h.count]; exact p.index_lt

/-- The chunks that have arrived are chunks of the shipment. -/
structure Frame.Of (f : Frame) (u : Shipment) : Prop where
  wf : f.WF
  count : f.count.toNat = u.count
  timestamp : f.timestamp = u.timestamp
  flags : f.stableFlags = u.flags
  chunk : ∀ i, f.chunks.getD i [] = [] ∨ f.chunks.getD i [] = u.chunk i

theorem Frame.Of.agrees {f : Frame} {u : Shipment} {p : DcPacket} {i : Nat} (h : f.Of u)
    (hp : Carries p u i) : f.agrees p :=
  ⟨UInt8.toNat_inj.mp (h.count.trans hp.count.symm), h.timestamp.trans hp.timestamp.symm,
    h.flags.trans hp.flags.symm⟩

/-- A chunk that arrives again is the chunk that is there. -/
theorem Frame.Of.same {f : Frame} {u : Shipment} {p : DcPacket} {i : Nat} (h : f.Of u)
    (hp : Carries p u i) (hne : f.chunks.getD p.index.toNat [] ≠ []) :
    f.chunks.getD p.index.toNat [] = p.payload := by
  rw [hp.payload, hp.index] at *
  exact (h.chunk i).resolve_left hne

theorem fresh_of {p : DcPacket} {u : Shipment} {i : Nat} (hp : Carries p u i) (now : Int) :
    (Frame.fresh p now).Of u where
  wf := Frame.fresh_wf p now
  count := hp.count
  timestamp := hp.timestamp
  flags := hp.flags
  chunk j := .inl (fresh_slot p now j)

/-- The slot of the chunk is filled, the others are as they were. -/
theorem store_getD {f : Frame} {p : DcPacket} (h : p.index.toNat < f.chunks.length) (j : Nat) :
    (f.store p).chunks.getD j [] = if j = p.index.toNat then p.payload else f.chunks.getD j [] := by
  simp only [Frame.store, List.getD_eq_getElem?_getD, List.getElem?_set]
  by_cases hj : p.index.toNat = j
  · subst hj; simp [h]
  · rw [if_neg hj, if_neg (Ne.symm hj)]

theorem Frame.Of.index_lt {f : Frame} {u : Shipment} {p : DcPacket} {i : Nat} (h : f.Of u)
    (hp : Carries p u i) : p.index.toNat < f.chunks.length := by
  rw [h.wf.slots, h.count, hp.index]; exact hp.lt

theorem store_of {f : Frame} {u : Shipment} {p : DcPacket} {i : Nat} (h : f.Of u)
    (hp : Carries p u i) (hempty : f.chunks.getD p.index.toNat [] = []) : (f.store p).Of u where
  wf := Frame.store_wf h.wf (h.agrees hp) hempty
  count := h.count
  timestamp := h.timestamp
  flags := h.flags
  chunk j := by
    rw [store_getD (h.index_lt hp)]
    split
    · rename_i hj
      right; rw [hp.payload, hj, hp.index]
    · exact h.chunk j

/-- A frame whose slots are all filled is complete. -/
theorem Frame.WF.complete {f : Frame} (h : f.WF) (hall : ∀ i < f.count.toNat, f.chunks.getD i [] ≠ []) :
    f.complete := by
  unfold Frame.complete
  rw [h.received, ← h.slots, List.countP_eq_length]
  intro c hc
  obtain ⟨i, hi, rfl⟩ := List.getElem_of_mem hc
  have := hall i (by rw [← h.slots]; exact hi)
  rw [List.getD_eq_getElem _ _ hi] at this
  simpa using this

theorem Frame.WF.slot {f : Frame} (h : f.WF) (hc : f.complete) {i : Nat} (hi : i < f.count.toNat) :
    f.chunks.getD i [] ≠ [] := by
  have hi' : i < f.chunks.length := by rw [h.slots]; exact hi
  rw [List.getD_eq_getElem _ _ hi']
  exact h.filled hc _ (List.getElem_mem hi')

/-- **A complete frame is the access unit.** -/
theorem Frame.Of.raw {f : Frame} {u : Shipment} (h : f.Of u) (hc : f.complete) : f.raw = u.data := by
  have hchunks : f.chunks = u.chunks := by
    have hlen : f.chunks.length = u.chunks.length := h.wf.slots.trans h.count
    apply List.ext_getElem hlen
    intro i hi hi'
    have hslot := h.wf.slot hc (i := i) (by rw [← h.wf.slots]; exact hi)
    have := (h.chunk i).resolve_left hslot
    unfold Shipment.chunk at this
    rwa [List.getD_eq_getElem _ _ hi, List.getD_eq_getElem _ _ hi'] at this
  unfold Frame.raw Shipment.data
  rw [hchunks]

/-- Packets for other slots leave a slot alone. -/
theorem fold_store_other {i : Nat} : ∀ (ps : List DcPacket) {f : Frame},
    (∀ p ∈ ps, p.index.toNat ≠ i) →
    (ps.foldl Frame.store f).chunks.getD i [] = f.chunks.getD i []
  | [], _, _ => rfl
  | p :: ps, f, h => by
    have hne := h p (List.mem_cons_self ..)
    rw [List.foldl_cons, fold_store_other ps fun q hq => h q (List.mem_cons_of_mem _ hq)]
    simp only [Frame.store, List.getD_eq_getElem?_getD, List.getElem?_set_ne hne]

/-- Packets of one shipment stored in any order, each chunk at most once. -/
theorem fold_store {u : Shipment} : ∀ (ps : List DcPacket) {f : Frame}, f.Of u →
    (ps.map fun p => p.index.toNat).Nodup → (∀ p ∈ ps, Carries p u p.index.toNat) →
    (∀ p ∈ ps, f.chunks.getD p.index.toNat [] = []) →
    (ps.foldl Frame.store f).Of u ∧
      ∀ p ∈ ps, (ps.foldl Frame.store f).chunks.getD p.index.toNat [] ≠ []
  | [], f, h, _, _, _ => ⟨h, fun p hp => by cases hp⟩
  | p :: ps, f, h, hn, hc, he => by
    have hp := hc p (List.mem_cons_self ..)
    have hempty := he p (List.mem_cons_self ..)
    rw [List.map_cons, List.nodup_cons] at hn
    have other : ∀ q ∈ ps, q.index.toNat ≠ p.index.toNat := by
      intro q hq heq
      exact hn.1 (heq ▸ List.mem_map_of_mem (f := fun p : DcPacket => p.index.toNat) hq)
    have hrest : ∀ q ∈ ps, (f.store p).chunks.getD q.index.toNat [] = [] := by
      intro q hq
      rw [store_getD (h.index_lt hp), if_neg (other q hq)]
      exact he q (List.mem_cons_of_mem _ hq)
    obtain ⟨hof, hfill⟩ := fold_store ps (store_of h hp hempty) hn.2
      (fun q hq => hc q (List.mem_cons_of_mem _ hq)) hrest
    refine ⟨hof, ?_⟩
    intro q hq
    rw [List.foldl_cons]
    rcases List.mem_cons.mp hq with rfl | hq
    · rw [fold_store_other ps other, store_getD (h.index_lt hp), if_pos rfl]
      exact q.payload_ne
    · exact hfill q hq

/-! ## Between the two languages -/

/-- What the browser means to send. -/
def shipment (data : Bytes) (seq timestampUs : JsNumber) (keyframe : Bool) : Shipment where
  chunks := (List.range (chunkCount data)).map (part data)
  seq := (seq.toUint32 &&& 0xffff).toUInt16
  timestamp := timestampUs.toUint32
  flags := if keyframe then 1 else 0

section Shipment
variable (data : Bytes) (seq timestampUs : JsNumber) (keyframe : Bool)

@[simp] theorem shipment_count : (shipment data seq timestampUs keyframe).count = chunkCount data := by
  simp [shipment, Shipment.count]

@[simp] theorem shipment_data : (shipment data seq timestampUs keyframe).data = data :=
  flatten_parts data

theorem shipment_chunk {i : Nat} (hi : i < chunkCount data) :
    (shipment data seq timestampUs keyframe).chunk i = part data i := by
  simp [shipment, Shipment.chunk, hi]

end Shipment

/-- The packets the receiver parses from one access unit, in sending order. -/
def parsedPackets (data : Bytes) (seq timestampUs : JsNumber) (keyframe : Bool)
    (hle : data.length ≤ DC_MAX_AU_BYTES) : List DcPacket :=
  (List.range (chunkCount data)).pmap
    (fun i hi => chunkPacket data seq timestampUs keyframe (chunkCount data) i (chunkCount_le hle) hi
      (part_ne_nil hi))
    fun _ hi => List.mem_range.mp hi

section Parsed
variable (data : Bytes) (seq timestampUs : JsNumber) (keyframe : Bool)
  (hle : data.length ≤ DC_MAX_AU_BYTES)

theorem parsed_map : ((List.range (chunkCount data)).map
    (packet data seq timestampUs keyframe (chunkCount data))).map parsePacket =
      (parsedPackets data seq timestampUs keyframe hle).map some := by
  unfold parsedPackets
  rw [List.map_pmap, List.map_map, ← List.pmap_eq_map (p := fun i => i < chunkCount data)
    (fun _ hi => List.mem_range.mp hi)]
  apply List.pmap_congr_left
  intro i _ hi _
  exact parsePacket_packet data seq timestampUs keyframe _ i (chunkCount_le hle) hi (part_ne_nil hi)

theorem index_ofNat {i : Nat} (hle : data.length ≤ DC_MAX_AU_BYTES) (hi : i ≤ chunkCount data) :
    (UInt8.ofNat i).toNat = i := by
  have := chunkCount_le hle
  unfold DC_MAX_CHUNKS at this
  rw [UInt8.toNat_ofNat']; omega

theorem parsed_index : (parsedPackets data seq timestampUs keyframe hle).map (fun p => p.index.toNat) =
    List.range (chunkCount data) := by
  unfold parsedPackets
  rw [List.map_pmap]
  conv_rhs => rw [← List.map_id (List.range (chunkCount data)),
    ← List.pmap_eq_map (p := fun i => i < chunkCount data) (fun _ hi => List.mem_range.mp hi)]
  apply List.pmap_congr_left
  intro i _ hi _
  exact index_ofNat data hle (Nat.le_of_lt hi)

theorem chunkPacket_carries {i : Nat} (hi : i < chunkCount data) :
    Carries (chunkPacket data seq timestampUs keyframe (chunkCount data) i (chunkCount_le hle) hi
      (part_ne_nil hi)) (shipment data seq timestampUs keyframe) i where
  index := index_ofNat data hle (Nat.le_of_lt hi)
  count := (index_ofNat data hle (Nat.le_refl _)).trans (shipment_count ..).symm
  seq := rfl
  timestamp := rfl
  flags := (flagByte_bits keyframe (i == 0) (i + 1 == chunkCount data)).2.2.2
  payload := (shipment_chunk data seq timestampUs keyframe hi).symm

theorem parsed_carries : ∀ p ∈ parsedPackets data seq timestampUs keyframe hle,
    Carries p (shipment data seq timestampUs keyframe) p.index.toNat := by
  intro p hp
  obtain ⟨i, hi, rfl⟩ := List.mem_pmap.mp hp
  have hc := chunkPacket_carries data seq timestampUs keyframe hle (List.mem_range.mp hi)
  rw [hc.index]
  exact hc

end Parsed

/-- **Round trip.** With every send returning, an access unit of 1 to 300900
bytes goes out as one packet for every 1180 bytes begun, and these all pass the
receiver's header check and agree on sequence, timestamp, count and stable
flags; their indices are `0` to `count - 1`; and stored in any order they make
a complete frame with the original bytes. An access unit that is empty or longer, or has a sequence
number or a timestamp that is not an integer, sends nothing. -/
theorem sendAccessUnit_roundtrip (data : Bytes) (keyframe : Bool) :
    (∀ seq timestampUs : Int, timestampUs.natAbs ≤ 2 ^ 53 - 1 → 1 ≤ data.length →
      data.length ≤ 300900 →
      ∃ (packets : List Bytes) (ps : List DcPacket),
        sendAccessUnit data (.finite seq) (.finite timestampUs) keyframe (fun _ => true) =
          (.sent, packets) ∧
        ps.length = (data.length + 1179) / 1180 ∧ packets.map parsePacket = ps.map some ∧
        ps.map (fun p => p.index.toNat) = List.range ps.length ∧
        (∀ p ∈ ps, p.count.toNat = ps.length ∧ (p.seq.toNat : Int) = seq % 2 ^ 16 ∧
          (p.timestamp.toNat : Int) = timestampUs % 2 ^ 32 ∧
          p.stableFlags = if keyframe then 1 else 0) ∧
        ∀ order : List DcPacket, order.Perm ps → ∀ p ∈ ps, ∀ now,
          (order.foldl Frame.store (Frame.fresh p now)).complete ∧
          (order.foldl Frame.store (Frame.fresh p now)).raw = data ∧
          (order.foldl Frame.store (Frame.fresh p now)).timestamp = p.timestamp) ∧
    ∀ (seq timestampUs : JsNumber) (send : Nat → Bool),
      data.length = 0 ∨ 300900 < data.length ∨ seq.isInteger = false ∨ timestampUs.isInteger = false →
      (sendAccessUnit data seq timestampUs keyframe send).2 = [] := by
  have hmax : DC_MAX_AU_BYTES = 300900 := rfl
  refine ⟨?_, ?_⟩
  · intro seq ts hts hpos hlen
    have hle : data.length ≤ DC_MAX_AU_BYTES := by omega
    have hne : data.length ≠ 0 := by omega
    have hall := sendAccessUnit_all data (.finite seq) (.finite ts) keyframe (fun _ => true)
      (fun _ => rfl) hle hne (JsNumber.isSafeInteger_int ts hts)
      ((JsNumber.isInteger_iff _).mpr ⟨seq, rfl⟩)
    have hindex := parsed_index data (.finite seq) (.finite ts) keyframe hle
    have hcarries := parsed_carries data (.finite seq) (.finite ts) keyframe hle
    have hlength : (parsedPackets data (.finite seq) (.finite ts) keyframe hle).length =
        chunkCount data := by
      unfold parsedPackets; rw [List.length_pmap, List.length_range]
    refine ⟨_, _, hall, hlength, parsed_map data _ _ keyframe hle, by rw [hindex, hlength], ?_, ?_⟩
    · intro p hp
      have hc := hcarries p hp
      refine ⟨hc.count.trans ((shipment_count ..).trans hlength.symm), ?_, ?_, hc.flags⟩
      · rw [hc.seq]; exact JsNumber.toUint16_int seq
      · rw [hc.timestamp]; exact JsNumber.toUint32_int ts
    · intro order hperm p hp now
      have hperm' := hperm.map fun p : DcPacket => p.index.toNat
      rw [hindex] at hperm'
      have hfresh := fresh_of (hcarries p hp) now
      obtain ⟨hof, hfill⟩ := fold_store order hfresh
        (hperm'.nodup_iff.mpr List.nodup_range)
        (fun q hq => hcarries q (hperm.mem_iff.mp hq))
        (fun q _ => fresh_slot p now q.index.toNat)
      have hcomplete := hof.wf.complete fun i hi => by
        have hmem : i ∈ order.map fun p : DcPacket => p.index.toNat := by
          rw [hperm'.mem_iff, List.mem_range]
          exact hi.trans_eq (hof.count.trans (shipment_count ..))
        obtain ⟨q, hq, rfl⟩ := List.mem_map.mp hmem
        exact hfill q hq
      exact ⟨hcomplete, (hof.raw hcomplete).trans (shipment_data ..),
        hof.timestamp.trans (hcarries p hp).timestamp.symm⟩
  · intro seq ts send hbad
    unfold sendAccessUnit
    split
    · rfl
    · rename_i hlong
      have hsafe : ∀ t : JsNumber, t.isInteger = false → t.isSafeInteger = false := by
        intro t ht
        cases t with
        | finite q => simp only [JsNumber.isInteger] at ht; simp [JsNumber.isSafeInteger, ht]
        | nonFinite => rfl
      have hrefused : data.length = 0 ∨ ts.isSafeInteger = false ∨ seq.isInteger = false := by
        rcases hbad with h | h | h | h
        · exact .inl h
        · omega
        · exact .inr (.inr h)
        · exact .inr (.inl (hsafe ts h))
      rw [if_pos hrefused]

end KmVirtualCamera.L2.DcVideo
