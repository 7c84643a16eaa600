import Mathlib
import KmVirtualCamera.L2Machine.DcReassembly

/-!
# Unordered delivery equals in-order delivery

A `Stream` is up to 32 access units as `sendAccessUnit` sends them, the first
a configured keyframe. `Stream.expected` says what a receiver should hand on:
one output per unit, in sequence order, each made with the parameter sets in
force at that point.

`Ordered S lo D es m s b` is the invariant: the first `m` units have been
handed on and the cursor is at unit `m`; what is pending belongs to later
units; every packet of `D` has been handed on or sits in its slot; and nothing
was lost or asked for. It holds whatever the order of arrival
(`ordered_accept`), and once every packet has arrived `m` is the number of
units (`delivers_expected`).
-/
namespace KmVirtualCamera.L2.DcVideo
open KmVirtualCamera.L1.H264 KmVirtualCamera.L1.DcWire

/-- A well-formed Annex-B access unit that `sendAccessUnit` accepts. -/
structure AccessUnit where
  data : Bytes
  timestampUs : Int
  nalus : List Bytes
  split : splitAnnexB data = some nalus
  fits : data.length ≤ DC_MAX_AU_BYTES
  safe : timestampUs.natAbs ≤ 2 ^ 53 - 1

namespace AccessUnit

def has (u : AccessUnit) (t : UInt8) : Prop := ∃ n ∈ u.nalus, naluType n = t

structure IsKey (u : AccessUnit) : Prop where
  sps : u.has 7
  pps : u.has 8
  idr : u.has 5

theorem nonempty (u : AccessUnit) : u.data.length ≠ 0 := by
  intro h
  have hs := u.split
  rw [List.length_eq_zero_iff.mp h] at hs
  cases hs

end AccessUnit

structure Stream where
  units : List AccessUnit
  base : Int
  few : units.length ≤ 32
  key : ∀ u ∈ units.head?, u.IsKey
  paired : ∀ u ∈ units, u.has 7 ↔ u.has 8
  total : (units.map fun u => u.data.length).sum ≤ kMaxPendingBytes - kMaxDcChunkPayload

namespace Stream
variable (S : Stream)

/-- The sequence number of unit `j` on the wire. -/
def seq (j : Nat) : UInt16 := ((JsNumber.finite (S.base + j : Int)).toUint32 &&& 0xffff).toUInt16

def ship (j : Nat) (u : AccessUnit) : Shipment :=
  shipment u.data (.finite (S.base + j : Int)) (.finite (u.timestampUs : Int)) (j == 0)

@[simp] theorem ship_count (j : Nat) (u : AccessUnit) : (S.ship j u).count = chunkCount u.data :=
  shipment_count ..

@[simp] theorem ship_data (j : Nat) (u : AccessUnit) : (S.ship j u).data = u.data := shipment_data ..

/-- Everything the sender puts on the channel, in sending order. -/
def packets : List Bytes :=
  S.units.zipIdx.flatMap fun e =>
    (sendAccessUnit e.1.data (.finite (S.base + e.2 : Int)) (.finite (e.1.timestampUs : Int)) (e.2 == 0)
      fun _ => true).2

/-! ## Sequence numbers -/

theorem seq_toNat (j : Nat) : ((S.seq j).toNat : Int) = (S.base + j) % 2 ^ 16 :=
  JsNumber.toUint16_int _

theorem seq_succ (j : Nat) : S.seq j + 1 = S.seq (j + 1) := by
  have h1 := S.seq_toNat j
  have h2 := S.seq_toNat (j + 1)
  have hone : (1 : UInt16).toNat = 1 := rfl
  rw [← UInt16.toNat_inj, UInt16.toNat_add, hone]
  omega

theorem delta_seq {i j : Nat} (hi : i < 32768) (hj : j < 32768) :
    delta (S.seq i) (S.seq j) = (i : Int) - j := by
  have h1 := S.seq_toNat i
  have h2 := S.seq_toNat j
  have l1 := (S.seq i).toNat_lt
  have l2 := (S.seq j).toNat_lt
  unfold delta
  rw [UInt16.toNat_sub]
  split <;> omega

theorem seq_inj {i j : Nat} (hi : i < 32768) (hj : j < 32768) (h : S.seq i = S.seq j) : i = j := by
  have := S.delta_seq hi hj
  rw [h, S.delta_seq hj hj] at this
  omega

/-! ## What should come out -/

/-- The parameter sets in force after a unit. -/
def pairAfter (sets : Bytes × Bytes) (u : AccessUnit) : Bytes × Bytes :=
  if lastOf 7 u.nalus = [] then sets else (lastOf 7 u.nalus, lastOf 8 u.nalus)

/-- The parameter sets in force before unit `j`. -/
def setsAt (j : Nat) : Bytes × Bytes := (S.units.take j).foldl pairAfter ([], [])

def output (j : Nat) (u : AccessUnit) : Output where
  data := outData (scan u.nalus).idr (S.setsAt (j + 1)).1 (S.setsAt (j + 1)).2 u.nalus
  timestamp := (JsNumber.finite (u.timestampUs : Int)).toUint32

/-- Sequence number, access unit and output of each unit, in order. -/
def expected : List (UInt16 × Bytes × Output) :=
  S.units.zipIdx.map fun e => (S.seq e.2, e.1.data, S.output e.2 e.1)

variable {S}

theorem setsAt_succ {j : Nat} {u : AccessUnit} (h : S.units[j]? = some u) :
    S.setsAt (j + 1) = pairAfter (S.setsAt j) u := by
  unfold setsAt
  rw [List.take_add_one, h, List.foldl_append]
  rfl

theorem valid_of_mem {u : AccessUnit} {n : Bytes} (h : n ∈ u.nalus) : validNalu n = true :=
  ((splitAnnexB_sound u.split).2.2 n h).1

theorem lastOf_ne {u : AccessUnit} {t : UInt8} : lastOf t u.nalus ≠ [] ↔ u.has t := by
  rw [Ne, lastOf_eq_nil_iff fun n hn => valid_of_mem hn]
  unfold AccessUnit.has
  push Not
  rfl

/-- From the first unit on there is a pair. -/
theorem setsAt_ne {j : Nat} (hj : 0 < j) (hn : 0 < S.units.length) :
    (S.setsAt j).1 ≠ [] ∧ (S.setsAt j).2 ≠ [] := by
  induction j with
  | zero => omega
  | succ j ih =>
    cases hu : S.units[j]? with
    | none =>
      have hlen := List.getElem?_eq_none_iff.mp hu
      have hsame : S.setsAt (j + 1) = S.setsAt j := by
        unfold setsAt
        rw [List.take_of_length_le hlen, List.take_of_length_le (by omega)]
      rw [hsame]
      exact ih (by omega)
    | some u =>
      rw [setsAt_succ hu]
      unfold pairAfter
      have hpair := S.paired u (List.mem_of_getElem? hu)
      split
      · rename_i hno
        -- the first unit has a pair of its own
        have hj' : 0 < j := by
          by_contra h0
          have hz : j = 0 := by omega
          subst hz
          have hhead : u ∈ S.units.head? := by rw [List.head?_eq_getElem?, hu]; rfl
          exact lastOf_ne.mpr (S.key u hhead).sps hno
        exact ih hj'
      · rename_i h7
        exact ⟨h7, lastOf_ne.mpr (hpair.mp (lastOf_ne.mp h7))⟩

/-- The pair rule of the depacketizer is `pairAfter`. -/
theorem nextSets_pairAfter {s : Depacketizer} {u : AccessUnit} (hpair : u.has 7 ↔ u.has 8) :
    nextSets s (scan u.nalus) = some (pairAfter (s.sps, s.pps) u) := by
  obtain ⟨-, h7, h8⟩ := scan_eq u.nalus
  unfold nextSets pairAfter
  rw [h7, h8]
  have hiff : lastOf 7 u.nalus ≠ [] ↔ lastOf 8 u.nalus ≠ [] :=
    lastOf_ne.trans (hpair.trans lastOf_ne.symm)
  by_cases h : lastOf 7 u.nalus = []
  · have h' : lastOf 8 u.nalus = [] := by
      by_contra h0; exact hiff.mpr h0 h
    simp [h, h']
  · simp [h, hiff.mp h]

end Stream

/-! ## The invariant -/

/-- The first `m` units are out, `es` before this call. `lo` is the earliest
time, `D j i` says that chunk `i` of unit `j` has arrived. -/
structure Ordered (S : Stream) (lo : Int) (D : Nat → Nat → Prop) (es : List Emission) (m : Nat)
    (s : Depacketizer) (b : Batch) : Prop where
  inv : Inv s
  m_le : m ≤ S.units.length
  out : (es ++ b.frames).map (fun e => (e.seq, e.frame.raw, e.out)) = S.expected.take m
  quiet : b.controls = []
  cursor : s.initialized = true → s.expected = S.seq m
  unplaced : s.initialized = false → m = 0
  gate : 0 < m → s.waiting = false
  sets : (s.sps, s.pps) = S.setsAt m
  clock : s.lastIncrease < 0 ∨ lo ≤ s.lastIncrease
  pending : ∀ e ∈ s.pending.toList, ∃ j u, m ≤ j ∧ S.units[j]? = some u ∧ e.1 = S.seq j ∧
    e.2.Of (S.ship j u) ∧ lo ≤ e.2.arrival
  cover : ∀ j i, j < S.units.length → D j i → j < m ∨
    ∃ f, s.pending.find? (S.seq j) = some f ∧ f.chunks.getD i [] ≠ []

/-- For some number of units handed on. -/
def InOrder (S : Stream) (lo : Int) (D : Nat → Nat → Prop) (es : List Emission) (s : Depacketizer)
    (b : Batch) : Prop := ∃ m, Ordered S lo D es m s b

namespace Ordered
variable {S : Stream} {lo now : Int} {D : Nat → Nat → Prop} {es : List Emission} {m : Nat}
  {s : Depacketizer} {b : Batch}

theorem unit_lt {j : Nat} {u : AccessUnit} (hu : S.units[j]? = some u) : j < 32 := by
  obtain ⟨hj, -⟩ := List.getElem?_eq_some_iff.mp hu
  exact Nat.lt_of_lt_of_le hj S.few

/-- The pending frame of a unit. -/
theorem frame_of (h : Ordered S lo D es m s b) {j : Nat} {u : AccessUnit} {f : Frame}
    (hu : S.units[j]? = some u) (hf : s.pending.find? (S.seq j) = some f) :
    m ≤ j ∧ f.Of (S.ship j u) ∧ lo ≤ f.arrival := by
  obtain ⟨j', u', hm, hu', hseq, hof, ha⟩ := h.pending _ (OrdMap.find?_eq_some.mp hf)
  have l := unit_lt hu
  have l' := unit_lt hu'
  have hj : j = j' := S.seq_inj (by omega) (by omega) hseq
  subst hj
  rw [hu] at hu'
  cases hu'
  exact ⟨hm, hof, ha⟩

/-- Nothing pending is old: the whole run takes less than 10 ms. -/
theorem not_late (h : Ordered S lo D es m s b) (hnow : now < lo + 10000) {e : UInt16 × Frame}
    (he : e ∈ s.pending.toList) : now - e.2.arrival < 10000 := by
  obtain ⟨-, -, -, -, -, -, ha⟩ := h.pending e he
  omega

/-- A frame leaves the front: unit `m` is out. -/
theorem handOn (h : Ordered S lo D es m s b) (hi : s.initialized = true) {f : Frame}
    (hf : s.pending.find? s.expected = some f) (hc : f.complete) :
    Ordered S lo D es (m + 1) (handOn now s b f).1 (handOn now s b f).2 := by
  have hinv : Inv (DcVideo.handOn now s {} f).1 := (good_handOn ⟨h.inv, by simp⟩ hi hf hc).1
  have hmem := OrdMap.find?_eq_some.mp hf
  rw [h.cursor hi] at hmem
  obtain ⟨j, u, hmj, hu, hseq, hof, ha⟩ := h.pending _ hmem
  have l := unit_lt hu
  have hj : m = j := S.seq_inj (by omega) (by omega) hseq
  subst hj
  have hraw := hof.raw hc
  rw [Stream.ship_data] at hraw
  have hsplit : splitAccessUnit f.raw = some u.nalus := by
    unfold splitAccessUnit
    rw [hraw, u.split]
  have hmu := List.mem_of_getElem? hu
  have hset := Stream.nextSets_pairAfter (s := s) (S.paired u hmu)
  rw [h.sets, ← Stream.setsAt_succ hu] at hset
  have hne := Stream.setsAt_ne (S := S) (Nat.succ_pos m) (by
    have := (List.getElem?_eq_some_iff.mp hu).1; omega)
  -- the first unit is a keyframe
  have hfirst : m = 0 → (scan u.nalus).idr = true := by
    rintro rfl
    have hhead : u ∈ S.units.head? := by rw [List.head?_eq_getElem?, hu]; rfl
    exact (scan_idr_iff _).mpr (S.key u hhead).idr
  have hkey : f.stableFlags &&& 1 ≠ 0 → (scan u.nalus).idr = true := by
    intro hk
    apply hfirst
    rw [hof.flags] at hk
    by_contra h0
    have hfl : (S.ship m u).flags = 0 := by simp [Stream.ship, shipment, h0]
    rw [hfl] at hk
    exact hk (by decide)
  have hgate : s.waiting = true → (scan u.nalus).idr = true := by
    intro hw
    apply hfirst
    by_contra h0
    rw [h.gate (by omega)] at hw; cases hw
  have hout := assemble_output hsplit hset hkey hgate fun _ => hne
  have hm_lt := (List.getElem?_eq_some_iff.mp hu).1
  unfold DcVideo.handOn at hinv ⊢
  rw [hout] at hinv ⊢
  simp only at hinv ⊢
  refine ⟨hinv, hm_lt, ?_, h.quiet, ?_, ?_, ?_, rfl, h.clock, ?_, ?_⟩
  · have hexp : S.expected[m]? = some (S.seq m, u.data, S.output m u) := by
      simp [Stream.expected, hu]
    have htake : S.expected.take (m + 1) = S.expected.take m ++ [(S.seq m, u.data, S.output m u)] := by
      rw [List.take_add_one, hexp]; rfl
    have hts : f.timestamp = (S.output m u).timestamp := hof.timestamp
    rw [htake, ← h.out]
    simp only [List.map_append, List.append_assoc, List.map_cons, List.map_nil, hraw, hts, h.cursor hi]
    rfl
  · intro _
    rw [h.cursor hi]; exact S.seq_succ m
  · intro h0
    simp [erase, hi] at h0
  · intro _
    cases hd : (scan u.nalus).idr with
    | true => rfl
    | false =>
      have hw : ¬ s.waiting = true := fun hw => by rw [hgate hw] at hd; cases hd
      simpa [erase] using hw
  · intro e he
    obtain ⟨he, hk⟩ := OrdMap.mem_erase.mp he
    obtain ⟨j, v, hmj, hv, hs, hof', ha'⟩ := h.pending e he
    refine ⟨j, v, ?_, hv, hs, hof', ha'⟩
    rcases Nat.lt_or_eq_of_le hmj with hlt | rfl
    · exact hlt
    · exact absurd (hs.trans (h.cursor hi).symm) hk
  · intro j i hj hD
    rcases h.cover j i hj hD with hlt | ⟨g, hg, hslot⟩
    · exact .inl (by omega)
    · by_cases hjm : j = m
      · exact .inl (by omega)
      · right
        refine ⟨g, ?_, hslot⟩
        show (s.pending.erase s.expected).find? (S.seq j) = some g
        rw [OrdMap.find?_erase, if_neg, hg]
        intro heq
        rw [h.cursor hi] at heq
        have := S.few
        exact hjm (S.seq_inj (by omega) (by omega) heq)

/-- The cursor is placed on the first unit: no other has the key flag. -/
theorem place (h : Ordered S lo D es m s b) (hi : s.initialized = false) {e : UInt16 × Frame}
    (he : e ∈ s.pending.toList) (hk : e.2.stableFlags &&& 1 ≠ 0) :
    Ordered S lo D es m { s with expected := e.1, initialized := true } b := by
  obtain ⟨j, u, hmj, hu, hseq, hof, -⟩ := h.pending e he
  have hm := h.unplaced hi
  subst hm
  have hj : j = 0 := by
    by_contra h0
    have hfl : (S.ship j u).flags = 0 := by simp [Stream.ship, shipment, h0]
    rw [hof.flags, hfl] at hk
    exact hk (by decide)
  subst hj
  have hinv : Inv { s with expected := e.1, initialized := true } :=
    ⟨h.inv.wf, h.inv.bytes, h.inv.bytes_le, h.inv.size_le, fun h0 => by simp at h0, h.inv.sps, h.inv.pps⟩
  exact ⟨hinv, h.m_le, h.out, h.quiet, fun _ => hseq, (fun h0 => by cases h0), h.gate, h.sets, h.clock,
    h.pending, h.cover⟩

/-- What `increase` may do in a run this short: start the clock. -/
theorem increase (h : Ordered S lo D es m s b) (hlo : lo ≤ now) (hnow : now < lo + 10000) :
    Ordered S lo D es m (increase now s b).1 (increase now s b).2 := by
  have hinv := inv_increase now b h.inv
  unfold DcVideo.increase at hinv ⊢
  split
  · rename_i hout
    rw [if_pos hout] at hinv
    split
    · rename_i hl
      rw [if_pos hl] at hinv
      exact ⟨hinv, h.m_le, h.out, h.quiet, h.cursor, h.unplaced, h.gate, h.sets, .inr hlo,
        h.pending, h.cover⟩
    · split
      · rcases h.clock with hc | hc <;> omega
      · exact h
  · exact h

/-- No event of `drain` but a hand-on, the placing of the cursor and the clock
is possible. -/
theorem drainInv (S : Stream) (D : Nat → Nat → Prop) (es : List Emission) (hlo : lo ≤ now)
    (hnow : now < lo + 10000) : DrainInv now (InOrder S lo D es) where
  expire_ahead s b e h he hl := by
    obtain ⟨m, h⟩ := h
    have := h.not_late hnow he
    omega
  expire_behind s b e h he hl _ := by
    obtain ⟨m, h⟩ := h
    have := h.not_late hnow he
    omega
  place s b e h hi he _ hk := by
    obtain ⟨m, h⟩ := h
    exact ⟨m, h.place hi he hk⟩
  turn s b c h hi ht := by
    obtain ⟨m, h⟩ := h
    cases ht with
    | handOn f hf hc => exact ⟨m + 1, h.handOn hi hf hc⟩
    | giveUp f hf hc hl =>
      have := h.not_late hnow (OrdMap.find?_eq_some.mp hf)
      simp only at this
      omega
    | jump e hf he hl => exact absurd (h.not_late hnow (nearest_some he)) hl
  purge s b e h hi he hd := by
    obtain ⟨m, h⟩ := h
    obtain ⟨j, u, hmj, hu, hseq, -, -⟩ := h.pending e he
    have := unit_lt hu
    rw [hseq, h.cursor hi, S.delta_seq (by omega) (by omega)] at hd
    omega
  increase s b h := by
    obtain ⟨m, h⟩ := h
    exact ⟨m, h.increase hlo hnow⟩

/-! ## The bounds are never hit -/

/-- The unit a key belongs to. -/
def unitOf (S : Stream) (k : UInt16) : Nat := (k - S.seq 0).toNat

theorem unitOf_seq {j : Nat} (hj : j < 32768) : unitOf S (S.seq j) = j := by
  have h := S.delta_seq hj (i := j) (j := 0) (by omega)
  have hlt := (S.seq j - S.seq 0).toNat_lt
  unfold delta at h
  unfold unitOf
  split at h <;> omega

theorem pending_units (h : Ordered S lo D es m s b) :
    (s.pending.toList.map fun e => unitOf S e.1).Nodup ∧
      ∀ e ∈ s.pending.toList, ∃ u, S.units[unitOf S e.1]? = some u ∧ e.1 = S.seq (unitOf S e.1) ∧
        e.2.Of (S.ship (unitOf S e.1) u) := by
  have hall : ∀ e ∈ s.pending.toList, ∃ u, S.units[unitOf S e.1]? = some u ∧
      e.1 = S.seq (unitOf S e.1) ∧ e.2.Of (S.ship (unitOf S e.1) u) := by
    intro e he
    obtain ⟨j, u, -, hu, hseq, hof, -⟩ := h.pending e he
    have hl := unit_lt hu
    have hj : unitOf S e.1 = j := by rw [hseq]; exact unitOf_seq (by omega)
    rw [hj]
    exact ⟨u, hu, hseq, hof⟩
  refine ⟨?_, hall⟩
  refine (List.nodup_map_iff_inj_on (OrdMap.nodup_toList _)).mpr ?_
  intro e he e' he' heq
  obtain ⟨-, -, hs, -⟩ := hall e he
  obtain ⟨-, -, hs', -⟩ := hall e' he'
  have hk : e.1 = e'.1 := by rw [hs, hs', heq]
  have hv : e.2 = e'.2 := OrdMap.mem_unique (k := e.1) he (by rw [hk]; exact he')
  exact Prod.ext hk hv

/-- A frame holds no more bytes than its access unit has. -/
theorem of_bytes_le {f : Frame} {u : Shipment} (h : f.Of u) : f.bytes ≤ u.data.length := by
  have hlen : f.chunks.length = u.chunks.length := h.wf.slots.trans h.count
  unfold Shipment.data
  rw [h.wf.bytes, List.length_flatten]
  apply List.Forall₂.sum_le_sum
  rw [List.forall₂_iff_get]
  refine ⟨by simp [hlen], fun i hi hi' => ?_⟩
  simp only [List.length_map] at hi hi'
  have hc := h.chunk i
  unfold Shipment.chunk at hc
  rw [List.getD_eq_getElem _ _ hi, List.getD_eq_getElem _ _ hi'] at hc
  simp only [List.get_eq_getElem, List.getElem_map]
  rcases hc with hc | hc <;> simp [hc]

/-- The sizes of the access units, by index. -/
def sizeAt (S : Stream) (j : Nat) : Nat := (S.units[j]?.map fun u => u.data.length).getD 0

theorem sum_sizeAt (S : Stream) : ((List.range S.units.length).map (sizeAt S)).sum ≤
    kMaxPendingBytes - kMaxDcChunkPayload := by
  have hmap : (List.range S.units.length).map (sizeAt S) = S.units.map fun u => u.data.length := by
    apply List.ext_getElem
    · simp
    · intro i hi hi'
      simp only [List.length_map] at hi'
      simp [sizeAt, hi']
  rw [hmap]
  exact S.total

theorem bytes_le_total (h : Ordered S lo D es m s b) :
    s.bytes ≤ kMaxPendingBytes - kMaxDcChunkPayload := by
  obtain ⟨hnd, hall⟩ := h.pending_units
  have hle : (s.pending.toList.map fun e => e.2.bytes).sum ≤
      ((s.pending.toList.map fun e => unitOf S e.1).map (sizeAt S)).sum := by
    rw [List.map_map]
    apply List.sum_le_sum
    intro e he
    obtain ⟨u, hu, -, hof⟩ := hall e he
    have hle := of_bytes_le hof
    rw [Stream.ship_data] at hle
    simpa [sizeAt, hu] using hle
  have hsub : (s.pending.toList.map fun e => unitOf S e.1) ⊆ List.range S.units.length := by
    intro j hj
    obtain ⟨e, he, rfl⟩ := List.mem_map.mp hj
    obtain ⟨u, hu, -, -⟩ := hall e he
    exact List.mem_range.mpr (List.getElem?_eq_some_iff.mp hu).1
  obtain ⟨l, hperm, hl⟩ := List.subperm_of_subset hnd hsub
  have hsum := (hl.map (sizeAt S)).sum_le_sum (by simp)
  rw [(hperm.map (sizeAt S)).sum_eq] at hsum
  have := sum_sizeAt S
  rw [h.inv.bytes]
  omega

theorem not_full (h : Ordered S lo D es m s b) {p : DcPacket} {j i : Nat} {u : AccessUnit}
    (hu : S.units[j]? = some u) (hp : Carries p (S.ship j u) i) : ¬ Full s p := by
  rintro (⟨hnew, hsize⟩ | hbytes)
  · obtain ⟨hnd, hall⟩ := h.pending_units
    have hjl := unit_lt hu
    have hseq : p.seq = S.seq j := hp.seq
    have hnot : j ∉ s.pending.toList.map fun e => unitOf S e.1 := by
      intro hj
      obtain ⟨e, he, rfl⟩ := List.mem_map.mp hj
      obtain ⟨-, -, hs, -⟩ := hall e he
      rw [hseq, ← hs, OrdMap.find?_eq_none] at hnew
      exact hnew e he rfl
    have hsub : j :: (s.pending.toList.map fun e => unitOf S e.1) ⊆ List.range S.units.length := by
      intro j' hj'
      rw [List.mem_range]
      rcases List.mem_cons.mp hj' with rfl | hj'
      · exact (List.getElem?_eq_some_iff.mp hu).1
      · obtain ⟨e, he, rfl⟩ := List.mem_map.mp hj'
        obtain ⟨u', hu', -, -⟩ := hall e he
        exact (List.getElem?_eq_some_iff.mp hu').1
    have hlen := (List.subperm_of_subset (List.nodup_cons.mpr ⟨hnot, hnd⟩) hsub).length_le
    simp only [List.length_cons, List.length_map, List.length_range] at hlen
    have hfew := S.few
    unfold OrdMap.size kMaxPendingFrames at hsize
    omega
  · have hb := h.bytes_le_total
    have hl := p.payload_le
    unfold kMaxPendingBytes kMaxDcChunkPayload at *
    omega

/-! ## A packet -/

/-- The chunk has arrived as well. -/
def Also (D : Nat → Nat → Prop) (j i : Nat) : Nat → Nat → Prop := fun j' i' => D j' i' ∨ (j' = j ∧ i' = i)

/-- A packet behind the cursor, or one whose slot is filled. -/
theorem covered (h : Ordered S lo D es m s b) {j i : Nat} (hc : j < m ∨
    ∃ f, s.pending.find? (S.seq j) = some f ∧ f.chunks.getD i [] ≠ []) :
    Ordered S lo (Also D j i) es m s b := by
  refine ⟨h.inv, h.m_le, h.out, h.quiet, h.cursor, h.unplaced, h.gate, h.sets, h.clock, h.pending, ?_⟩
  rintro j' i' hj' (hD | ⟨rfl, rfl⟩)
  · exact h.cover j' i' hj' hD
  · exact hc

/-- The chunk goes into its slot; the frame is pending or new. -/
theorem store (h : Ordered S lo D es m s b) {p : DcPacket} {j i : Nat} {u : AccessUnit} {f : Frame}
    (hu : S.units[j]? = some u) (hp : Carries p (S.ship j u) i) (hmj : m ≤ j)
    (hof : f.Of (S.ship j u)) (ha : lo ≤ f.arrival) (hempty : f.chunks.getD p.index.toNat [] = [])
    (hold : ∀ g, s.pending.find? (S.seq j) = some g → g = f) (hinv : Inv (stored s p f)) :
    Ordered S lo (Also D j i) es m (stored s p f) b := by
  have hslot := store_getD (hof.index_lt hp)
  have hseq : p.seq = S.seq j := hp.seq
  have hfind : ∀ k, (stored s p f).pending.find? k =
      if k = S.seq j then some (f.store p) else s.pending.find? k := by
    intro k
    simp only [stored, hseq, OrdMap.find?_insert]
  refine ⟨hinv, h.m_le, h.out, h.quiet, h.cursor, h.unplaced, h.gate, h.sets, h.clock, ?_, ?_⟩
  · intro e he
    rcases OrdMap.mem_insert.mp he with rfl | ⟨he, -⟩
    · exact ⟨j, u, hmj, hu, hseq, store_of hof hp hempty, ha⟩
    · exact h.pending e he
  · rintro j' i' hj' hD
    simp only [hfind]
    rcases hD with hD | ⟨rfl, rfl⟩
    · rcases h.cover j' i' hj' hD with hlt | ⟨g, hg, hs⟩
      · exact .inl hlt
      · right
        by_cases hk : S.seq j' = S.seq j
        · have hjj : j' = j := S.seq_inj (by have := S.few; omega) (by have := unit_lt hu; omega) hk
          subst hjj
          have hgf := hold g hg
          subst hgf
          refine ⟨g.store p, by rw [if_pos rfl], ?_⟩
          rw [hslot]
          split
          · exact p.payload_ne
          · exact hs
        · exact ⟨g, by rw [if_neg hk, hg], hs⟩
    · right
      refine ⟨f.store p, by rw [if_pos rfl], ?_⟩
      rw [hslot, if_pos hp.index.symm]
      exact p.payload_ne

end Ordered

section Run
variable {S : Stream} {lo now : Int} {D : Nat → Nat → Prop} {es : List Emission} {s : Depacketizer}

/-- **A packet of the stream**, whatever came before it. -/
theorem ordered_accept (h : InOrder S lo D es s {}) (hlo : lo ≤ now) (hnow : now < lo + 10000)
    {p : DcPacket} {j i : Nat} {u : AccessUnit} (hu : S.units[j]? = some u)
    (hp : Carries p (S.ship j u) i) :
    InOrder S lo (Ordered.Also D j i) es (accept now s p).1 (accept now s p).2 ∧
      Settled (accept now s p).1 := by
  have hrule := Ordered.drainInv S (Ordered.Also D j i) es hlo hnow
  have hsettled := drain_settled now s {}
  have hjl := Ordered.unit_lt hu
  have hseq : p.seq = S.seq j := hp.seq
  obtain ⟨m, h⟩ := (Ordered.drainInv S D es hlo hnow).drain h
  have hml := Nat.le_trans h.m_le S.few
  have hc := accept_cases now s p
  generalize drain now s {} = c at h hc hsettled
  generalize accept now s p = r at hc
  cases hc with
  | stale late =>
    refine ⟨⟨m, h.covered (.inl ?_)⟩, hsettled⟩
    have hd := late.2
    rw [h.cursor late.1, hseq, S.delta_seq (by omega) (by omega)] at hd
    omega
  | overflow ahead full => exact absurd full (h.not_full hu hp)
  | fresh ahead room new =>
    have hmj : m ≤ j := by
      cases hi : c.1.initialized with
      | false => rw [h.unplaced hi]; omega
      | true =>
        by_contra hlt
        refine ahead ⟨hi, ?_⟩
        rw [h.cursor hi, hseq, S.delta_seq (by omega) (by omega)]
        omega
    rw [stored_opened]
    have hnone : ∀ g, c.1.pending.find? (S.seq j) = some g → g = Frame.fresh p now := by
      intro g hg
      rw [← hseq, new] at hg; cases hg
    have hst := h.store hu hp hmj (fresh_of hp now) hlo (fresh_slot p now _) hnone
      (h.inv.stored_fresh now room new)
    exact ⟨hrule.drain ⟨m, hst⟩, drain_settled now _ _⟩
  | store f ahead room known agrees empty =>
    have known' := known
    rw [hseq] at known'
    obtain ⟨hmj, hof, ha⟩ := h.frame_of hu known'
    have hst := h.store hu hp hmj hof ha empty
      (fun g hg => Option.some.inj (hg.symm.trans known')) (h.inv.stored room known agrees empty)
    exact ⟨hrule.drain ⟨m, hst⟩, drain_settled now _ _⟩
  | duplicate f ahead known same =>
    rw [hseq] at known
    have hcov := h.covered (i := i) (.inr ⟨f, known, by rw [← hp.index, same]; exact p.payload_ne⟩)
    exact ⟨hrule.drain ⟨m, hcov⟩, drain_settled now _ _⟩
  | conflict f ahead known differs =>
    rw [hseq] at known
    obtain ⟨-, hof, -⟩ := h.frame_of hu known
    obtain ⟨hne, hother⟩ := differs (hof.agrees hp)
    exact absurd (hof.same hp hne) hother

end Run

/-! ## Deliveries -/

/-- The packets as they arrive: every packet of the stream at least once,
nothing else, in any order, all within 10 ms. -/
structure Stream.Delivers (S : Stream) (cs : List (Bytes × Int)) : Prop where
  sound : ∀ c ∈ cs, c.1 ∈ S.packets ∧ 0 ≤ c.2
  complete : ∀ b ∈ S.packets, b ∈ cs.map Prod.fst
  quick : ∀ c ∈ cs, ∀ d ∈ cs, d.2 - c.2 < 10000

def calls (cs : List (Bytes × Int)) : List Call := cs.map fun c => .packet c.1 c.2

section Deliveries
variable {S : Stream}

/-- What is on the channel, and how the receiver parses it. -/
theorem Stream.mem_packets {b : Bytes} : b ∈ S.packets ↔
    ∃ (j : Nat) (u : AccessUnit) (i : Nat), S.units[j]? = some u ∧
    i < chunkCount u.data ∧ b = packet u.data (.finite (S.base + j : Int))
      (.finite (u.timestampUs : Int)) (j == 0) (chunkCount u.data) i := by
  have hsent : ∀ (j : Nat) (u : AccessUnit), (sendAccessUnit u.data (.finite (S.base + j : Int))
      (.finite (u.timestampUs : Int)) (j == 0) fun _ => true).2 =
      (List.range (chunkCount u.data)).map (packet u.data (.finite (S.base + j : Int))
        (.finite (u.timestampUs : Int)) (j == 0) (chunkCount u.data)) := by
    intro j u
    rw [sendAccessUnit_all u.data _ _ _ _ (fun _ => rfl) u.fits u.nonempty
      (JsNumber.isSafeInteger_int _ u.safe) ((JsNumber.isInteger_iff _).mpr ⟨_, rfl⟩)]
  unfold Stream.packets
  simp only [hsent, List.mem_flatMap, List.mem_map, List.mem_range, Prod.exists,
    List.mem_zipIdx_iff_getElem?]
  constructor
  · rintro ⟨u, j, hu, i, hi, rfl⟩
    exact ⟨j, u, i, hu, hi, rfl⟩
  · rintro ⟨j, u, i, hu, hi, rfl⟩
    exact ⟨u, j, hu, i, hi, rfl⟩

theorem Stream.packet_carries {j i : Nat} {u : AccessUnit} (hi : i < chunkCount u.data) :
    ∃ p, parsePacket (packet u.data (.finite (S.base + j : Int)) (.finite (u.timestampUs : Int))
      (j == 0) (chunkCount u.data) i) = some p ∧ Carries p (S.ship j u) i :=
  ⟨_, parsePacket_packet _ _ _ _ _ i (chunkCount_le u.fits) hi (part_ne_nil hi),
    chunkPacket_carries _ _ _ _ u.fits hi⟩

/-- A whole delivery: nothing is asked for, and every packet has arrived. -/
theorem ordered_run {lo : Int} : ∀ (cs : List (Bytes × Int)) {D : Nat → Nat → Prop}
    {es : List Emission} {s : Depacketizer},
    (∀ c ∈ cs, c.1 ∈ S.packets ∧ 0 ≤ c.2 ∧ lo ≤ c.2 ∧ c.2 < lo + 10000) →
    InOrder S lo D es s {} → Settled s →
    ∃ D', InOrder S lo D' (es ++ emitted (run s (calls cs)).2) (run s (calls cs)).1 {} ∧
      Settled (run s (calls cs)).1 ∧ controls (run s (calls cs)).2 = [] ∧ (∀ j i, D j i → D' j i) ∧
      ∀ c ∈ cs, ∀ (j : Nat) (u : AccessUnit) (i : Nat), S.units[j]? = some u → i < chunkCount u.data →
        c.1 = packet u.data (.finite (S.base + j : Int)) (.finite (u.timestampUs : Int)) (j == 0)
          (chunkCount u.data) i → D' j i
  | [], D, es, s, _, h, hs => ⟨D, by simpa [emitted, run, calls] using h, hs, rfl, fun _ _ hD => hD,
      fun c hc => by cases hc⟩
  | c :: cs, D, es, s, hall, h, hs => by
    obtain ⟨hmem, hnn, hlo, hhi⟩ := hall c (List.mem_cons_self ..)
    obtain ⟨j, u, i, hu, hi, hb⟩ := Stream.mem_packets.mp hmem
    obtain ⟨p, hparse, hp⟩ := Stream.packet_carries hi
    have hcall : call s (.packet c.1 c.2) = accept c.2 s p := by
      simp only [call, processPacketAt]
      rw [if_neg (by omega), hb, hparse]
    obtain ⟨⟨m, hacc⟩, hset⟩ := ordered_accept h hlo hhi hu hp
    -- between calls the batch is part of the history
    have hnext : InOrder S lo (Ordered.Also D j i) (es ++ (accept c.2 s p).2.frames)
        (accept c.2 s p).1 {} :=
      ⟨m, hacc.inv, hacc.m_le, by simpa using hacc.out, rfl, hacc.cursor, hacc.unplaced, hacc.gate,
        hacc.sets, hacc.clock, hacc.pending, hacc.cover⟩
    obtain ⟨D', hrun, hset', hctl, hsub, hcov⟩ :=
      ordered_run cs (fun d hd => hall d (List.mem_cons_of_mem _ hd)) hnext hset
    have hcalls : calls (c :: cs) = .packet c.1 c.2 :: calls cs := rfl
    refine ⟨D', ?_, ?_, ?_, fun j i hD => hsub j i (.inl hD), ?_⟩
    · simpa [hcalls, run, hcall, emitted] using hrun
    · simpa [hcalls, run, hcall] using hset'
    · simpa [hcalls, run, hcall, controls, hacc.quiet] using hctl
    · intro d hd j' u' i' hu' hi' hb'
      rcases List.mem_cons.mp hd with rfl | hd
      · -- the packet names its chunk
        obtain ⟨p', hparse', hp'⟩ := Stream.packet_carries hi'
        rw [← hb', hb, hparse] at hparse'
        cases hparse'
        have hl := Ordered.unit_lt hu
        have hl' := Ordered.unit_lt hu'
        have hj : j' = j := S.seq_inj (by omega) (by omega) (hp'.seq.symm.trans hp.seq)
        exact hsub _ _ (.inr ⟨hj, hp'.index.symm.trans hp.index⟩)
      · exact hcov d hd j' u' i' hu' hi' hb'

theorem inOrder_start (S : Stream) (lo : Int) : InOrder S lo (fun _ _ => False) [] {} {} :=
  ⟨0, inv_start 1, Nat.zero_le _, by simp, rfl, fun h => by simp at h, fun _ => rfl,
    fun h => absurd h (by omega), rfl, .inl (by decide), by simp [OrdMap.empty], fun _ _ _ h => h.elim⟩

theorem settled_start : Settled {} := ⟨fun _ => by simp [OrdMap.empty], fun h => by simp at h⟩

/-- Once every packet has arrived, every unit is out. -/
theorem inOrder_done {lo : Int} {D : Nat → Nat → Prop} {es : List Emission} {s : Depacketizer}
    (h : InOrder S lo D es s {}) (hset : Settled s)
    (hall : ∀ (j : Nat) (u : AccessUnit) (i : Nat), S.units[j]? = some u → i < chunkCount u.data → D j i) :
    es.map (fun e => (e.seq, e.frame.raw, e.out)) = S.expected := by
  obtain ⟨m, h⟩ := h
  have hout := h.out
  rcases Nat.lt_or_eq_of_le h.m_le with hlt | heq
  · exfalso
    have hu : S.units[m]? = some S.units[m] := List.getElem?_eq_getElem hlt
    have hpos := chunkCount_pos S.units[m].nonempty
    have hslot : ∀ i < chunkCount S.units[m].data, ∃ f, s.pending.find? (S.seq m) = some f ∧
        f.chunks.getD i [] ≠ [] := by
      intro i hi
      rcases h.cover m i hlt (hall m _ i hu hi) with h0 | h0
      · omega
      · exact h0
    obtain ⟨f, hf, -⟩ := hslot 0 hpos
    obtain ⟨-, hof, -⟩ := h.frame_of hu hf
    have hc : f.complete := by
      apply hof.wf.complete
      intro i hi
      obtain ⟨g, hg, hs⟩ := hslot i (hi.trans_eq (hof.count.trans (S.ship_count ..)))
      rw [hf] at hg
      cases hg
      exact hs
    cases hi : s.initialized with
    | true => exact hset.placed hi f (by rw [h.cursor hi]; exact hf) hc
    | false =>
      have hm := h.unplaced hi
      subst hm
      have hflag := hset.unplaced hi _ (OrdMap.find?_eq_some.mp hf) hc
      have hone : (1 : UInt8) &&& 1 ≠ 0 := by decide
      rw [hof.flags] at hflag
      exact hone hflag
  · have hlen : S.expected.length = m := by simp [Stream.expected, heq]
    rw [← hlen, List.take_length] at hout
    simpa using hout

/-- **Any delivery puts out exactly the stream**, and asks for nothing. -/
theorem delivers_expected {cs : List (Bytes × Int)} (h : S.Delivers cs) :
    (emitted (run {} (calls cs)).2).map (fun e => (e.seq, e.frame.raw, e.out)) = S.expected ∧
      controls (run {} (calls cs)).2 = [] := by
  -- the earliest arrival
  obtain ⟨lo, hlo⟩ : ∃ lo : Int, ∀ c ∈ cs, lo ≤ c.2 ∧ c.2 < lo + 10000 := by
    rcases cs.eq_nil_or_concat with rfl | ⟨l, c, hl⟩
    · exact ⟨0, fun c hc => by cases hc⟩
    · obtain ⟨d, hd, hmin⟩ := Finset.exists_min_image cs.toFinset Prod.snd ⟨c, by simp [hl]⟩
      refine ⟨d.2, fun e he => ⟨hmin e (List.mem_toFinset.mpr he), ?_⟩⟩
      have := h.quick d (List.mem_toFinset.mp hd) e he
      omega
  obtain ⟨D, hrun, hset, hctl, -, hcov⟩ := ordered_run cs
    (fun c hc => ⟨(h.sound c hc).1, (h.sound c hc).2, (hlo c hc).1, (hlo c hc).2⟩)
    (inOrder_start S lo) settled_start
  refine ⟨?_, hctl⟩
  refine inOrder_done (by simpa using hrun) hset fun j u i hu hi => ?_
  obtain ⟨c, hc, hb⟩ := List.mem_map.mp (h.complete _ (Stream.mem_packets.mpr ⟨j, u, i, hu, hi, rfl⟩))
  exact hcov c hc j u i hu hi hb

/-- In-order delivery without duplicates is one of the deliveries. -/
def Stream.inOrder (S : Stream) (t : Int) : List (Bytes × Int) := S.packets.map fun b => (b, t)

theorem Stream.inOrder_delivers {t : Int} (ht : 0 ≤ t) : S.Delivers (S.inOrder t) where
  sound c hc := by
    obtain ⟨b, hb, rfl⟩ := List.mem_map.mp hc
    exact ⟨hb, ht⟩
  complete b hb := by simpa [Stream.inOrder] using hb
  quick c hc d hd := by
    obtain ⟨b, -, rfl⟩ := List.mem_map.mp hc
    obtain ⟨b', -, rfl⟩ := List.mem_map.mp hd
    simp

/-- **Order does not matter.** Every delivery of a stream, in whatever order
and with whatever duplicates, hands on the bytes and timestamps that in-order
delivery without duplicates does: each access unit once, in sequence order, made
of its NAL units with its timestamp, and no PLI is asked for. -/
theorem unordered_eq_inOrder (S : Stream) (cs : List (Bytes × Int)) (h : S.Delivers cs) (t : Int)
    (ht : 0 ≤ t) :
    (emitted (run {} (calls cs)).2).map Emission.out =
        (emitted (run {} (calls (S.inOrder t))).2).map Emission.out ∧
      (emitted (run {} (calls cs)).2).map (fun e => (e.seq, e.frame.raw, e.out)) =
        S.units.zipIdx.map (fun e => (S.seq e.2, e.1.data, S.output e.2 e.1)) ∧
      Control.pli ∉ controls (run {} (calls cs)).2 := by
  obtain ⟨hout, hctl⟩ := delivers_expected h
  obtain ⟨hout', -⟩ := delivers_expected (S.inOrder_delivers ht)
  refine ⟨?_, hout, by simp [hctl]⟩
  have heq := congrArg (List.map fun t : UInt16 × Bytes × Output => t.2.2) (hout.trans hout'.symm)
  simpa [List.map_map, Function.comp_def] using heq

end Deliveries

def keyUnit : AccessUnit where
  data := annexB [[0x67, 1], [0x68, 2], [0x65, 3]]
  timestampUs := -1
  nalus := [[0x67, 1], [0x68, 2], [0x65, 3]]
  split := by decide
  fits := by decide
  safe := by decide

def deltaUnit : AccessUnit where
  data := annexB [[0x41, 4]]
  timestampUs := 33333
  nalus := [[0x41, 4]]
  split := by decide
  fits := by decide
  safe := by decide

/-- A keyframe and a delta unit, the sequence number wrapping between them. -/
def twoUnits : Stream where
  units := [keyUnit, deltaUnit]
  base := 65535
  few := by decide
  key u hu := by
    cases hu
    exact ⟨⟨[0x67, 1], by decide, rfl⟩, ⟨[0x68, 2], by decide, rfl⟩, ⟨[0x65, 3], by decide, rfl⟩⟩
  paired u hu := by
    rcases List.mem_pair.mp hu with rfl | rfl
    · exact iff_of_true ⟨[0x67, 1], by decide, rfl⟩ ⟨[0x68, 2], by decide, rfl⟩
    · exact iff_of_false (by unfold AccessUnit.has; decide) (by unfold AccessUnit.has; decide)
  total := by decide

/-- The delta unit first, then the keyframe, then the delta unit again. -/
def twoUnitsSwapped : List (Bytes × Int) :=
  (twoUnits.packets.reverse ++ twoUnits.packets.drop 1).map fun b => (b, 7)

theorem twoUnitsSwapped_delivers : twoUnits.Delivers twoUnitsSwapped where
  sound := by decide
  complete := by decide
  quick := by decide

theorem unordered_eq_inOrder_twoUnits :
    (emitted (run {} (calls twoUnitsSwapped)).2).map Emission.out =
        (emitted (run {} (calls (twoUnits.inOrder 0))).2).map Emission.out ∧
      (emitted (run {} (calls twoUnitsSwapped)).2).map (fun e => (e.seq, e.frame.raw, e.out)) =
        twoUnits.units.zipIdx.map (fun e => (twoUnits.seq e.2, e.1.data, twoUnits.output e.2 e.1)) ∧
      Control.pli ∉ controls (run {} (calls twoUnitsSwapped)).2 :=
  unordered_eq_inOrder twoUnits twoUnitsSwapped twoUnitsSwapped_delivers 0 (by decide)

end KmVirtualCamera.L2.DcVideo
