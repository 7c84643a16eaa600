import Mathlib
import KmVirtualCamera.Core.LTS
import KmVirtualCamera.L1Encoding.RtpWire
import KmVirtualCamera.L1Encoding.TwccFeedback

/-!
# The transport-cc receiver (`TwccReceiver`)

Arrivals are kept in a ring of 2048 slots, indexed by the transport-wide
sequence number modulo the size; `[pendingBaseSeq, pendingEndSeq)` is the range
that has not been reported. `buildFeedbackPacket` reports up to 512 numbers
from the base on, clears their slots and moves the base.

A time is an `Int` in µs. The ring is a function of the slot.

* `build_cases`: what `buildFeedbackPacket` can do.
* `feedback_roundtrip`: what it returns, read as its receiver reads it, and
  the counter over successive packets.
-/
namespace KmVirtualCamera.L2.Twcc
open KmVirtualCamera.ByteOrder KmVirtualCamera.L1.TwccFeedback
open KmVirtualCamera.L1.RtpWire (sequenceDelta RtcpPacket parseRtcp parseRtcp_single)

def kRingSize : Nat := 2048

/-- mirrors shared/receiver/rtc/twcc_receiver.h:12-16 -/
structure TransportPacketRecord where
  arrivalTimeUs : Int := 0
  packetSize : UInt16 := 0
  received : Bool := false
  deriving DecidableEq

/-- mirrors shared/receiver/rtc/twcc_receiver.h:56-61 -/
structure TwccReceiver where
  records : Nat → TransportPacketRecord := fun _ => {}
  pendingBaseSeq : UInt16 := 0
  pendingEndSeq : UInt16 := 0
  hasPending : Bool := false
  fbPacketCount : UInt8 := 0

def slot (seq : UInt16) : Nat := seq.toNat % kRingSize

/-- mirrors shared/receiver/rtc/twcc_receiver.cpp:98-124 -/
def onPacket (s : TwccReceiver) (transportSeq : UInt16) (arrivalTimeUs : Int) (packetSize : UInt16) :
    TwccReceiver :=
  let records := Function.update s.records (slot transportSeq) ⟨arrivalTimeUs, packetSize, true⟩
  if s.hasPending = false then
    { s with records := records, pendingBaseSeq := transportSeq, pendingEndSeq := transportSeq + 1,
             hasPending := true }
  else
    let diffFromBase := sequenceDelta transportSeq s.pendingBaseSeq
    let diffFromEnd := sequenceDelta transportSeq s.pendingEndSeq
    { s with records := records
             pendingBaseSeq := if diffFromBase < 0 then transportSeq else s.pendingBaseSeq
             pendingEndSeq := if diffFromEnd ≥ 0 then transportSeq + 1 else s.pendingEndSeq }

/-- The arrival time in the number's slot, if there is one. -/
def observed (records : Nat → TransportPacketRecord) (seq : UInt16) : Option Int :=
  if (records (slot seq)).received then some (records (slot seq)).arrivalTimeUs else none

/-- The state of the loop over the packets. -/
structure Scan where
  statuses : List PacketStatus := []
  referenceTimeUs : Int := 0
  hasReference : Bool := false
  prevArrivalUs : Int := 0

/-- The body of the loop.
mirrors shared/receiver/rtc/twcc_receiver.cpp:158-203 -/
def scanStep (scan : Scan) : Option Int → Scan
  | none => { scan with statuses := scan.statuses ++ [notReceived] }
  | some arrivalTimeUs =>
    if scan.hasReference = false then
      let referenceTimeUs := arrivalTimeUs.tdiv 64000 * 64000
      { statuses := scan.statuses ++ [received ((arrivalTimeUs - referenceTimeUs).tdiv 250)]
        referenceTimeUs := referenceTimeUs, hasReference := true, prevArrivalUs := arrivalTimeUs }
    else
      { scan with
        statuses := scan.statuses ++ [received ((arrivalTimeUs - scan.prevArrivalUs).tdiv 250)]
        prevArrivalUs := arrivalTimeUs }

def scan (times : List (Option Int)) : Scan := times.foldl scanStep {}

/-- `count` numbers from `base` on. -/
def window (base : UInt16) (count : Nat) : List UInt16 :=
  (List.range count).map fun i => base + UInt16.ofNat i

/-- mirrors shared/receiver/rtc/twcc_receiver.cpp:328-332 -/
def cleared (records : Nat → TransportPacketRecord) (block : List UInt16) : Nat → TransportPacketRecord :=
  block.foldl (fun records seq => Function.update records (slot seq) {}) records

/-- How many numbers are pending. -/
def pending (s : TwccReceiver) : Nat := (s.pendingEndSeq - s.pendingBaseSeq).toNat

/-- How many of them the next packet reports.
mirrors shared/receiver/rtc/twcc_receiver.cpp:133-140 -/
def packetStatusCount (s : TwccReceiver) : Nat := min 512 (pending s)

/-- The numbers the next packet reports. -/
def block (s : TwccReceiver) : List UInt16 := window s.pendingBaseSeq (packetStatusCount s)

def times (s : TwccReceiver) : List (Option Int) := (block s).map (observed s.records)

/-- The receiver after a packet.
mirrors shared/receiver/rtc/twcc_receiver.cpp:321,328-334 -/
def reported (s : TwccReceiver) : TwccReceiver :=
  let base := s.pendingBaseSeq + UInt16.ofNat (packetStatusCount s)
  { records := cleared s.records (block s), pendingBaseSeq := base, pendingEndSeq := s.pendingEndSeq,
    hasPending := decide (base ≠ s.pendingEndSeq), fbPacketCount := s.fbPacketCount + 1 }

/-- mirrors shared/receiver/rtc/twcc_receiver.cpp:126-337 -/
def buildFeedbackPacket (s : TwccReceiver) (senderSsrc mediaSsrc : UInt32) : TwccReceiver × Bytes :=
  if s.hasPending = false then (s, [])
  else if packetStatusCount s = 0 then (s, [])
  else if (scan (times s)).hasReference = false then (s, [])
  else
    (reported s, feedbackPacket senderSsrc mediaSsrc s.pendingBaseSeq (scan (times s)).statuses
      (scan (times s)).referenceTimeUs s.fbPacketCount)

/-! ## Numbers on the circle -/

theorem offset_ofNat (base : UInt16) {i : Nat} (h : i < 2 ^ 16) :
    (base + UInt16.ofNat i - base).toNat = i := by
  rw [add_sub_cancel_left, UInt16.toNat_ofNat', Nat.mod_eq_of_lt h]

theorem add_offset (base seq : UInt16) : base + UInt16.ofNat (seq - base).toNat = seq := by
  rw [UInt16.ofNat_toNat, add_sub_cancel]

theorem mem_window {base seq : UInt16} {count : Nat} (h : count ≤ 2 ^ 16) :
    seq ∈ window base count ↔ (seq - base).toNat < count := by
  unfold window
  rw [List.mem_map]
  constructor
  · rintro ⟨i, hi, rfl⟩
    rw [List.mem_range] at hi
    rw [offset_ofNat base (by omega)]
    exact hi
  · intro hlt
    exact ⟨(seq - base).toNat, List.mem_range.mpr hlt, add_offset base seq⟩

@[simp] theorem window_length (base : UInt16) (count : Nat) : (window base count).length = count := by
  simp [window]

theorem count_le (s : TwccReceiver) : packetStatusCount s ≤ 512 := Nat.min_le_left _ _

theorem mem_block {s : TwccReceiver} {seq : UInt16} :
    seq ∈ block s ↔ (seq - s.pendingBaseSeq).toNat < packetStatusCount s :=
  mem_window (by have := count_le s; omega)

/-- Two numbers share a slot exactly if their distances from any number agree
modulo the ring size. -/
theorem slot_eq_iff (base x y : UInt16) :
    slot x = slot y ↔ (x - base).toNat % kRingSize = (y - base).toNat % kRingSize := by
  have hb := base.toNat_lt
  have hx := x.toNat_lt
  have hy := y.toNat_lt
  unfold slot kRingSize
  rw [UInt16.toNat_sub, UInt16.toNat_sub]
  omega

/-- The distance from a base that has moved up by `n`. -/
theorem offset_moved (base x : UInt16) {n : Nat} (h : n ≤ (x - base).toNat) :
    (x - (base + UInt16.ofNat n)).toNat = (x - base).toNat - n := by
  have hb := base.toNat_lt
  have hx := x.toNat_lt
  rw [UInt16.toNat_sub] at h ⊢
  rw [UInt16.toNat_sub, UInt16.toNat_add, UInt16.toNat_ofNat']
  omega

theorem sequenceDelta_neg {a b : UInt16} : sequenceDelta a b < 0 ↔ 32768 ≤ (a - b).toNat := by
  have := (a - b).toNat_lt
  unfold sequenceDelta
  split <;> omega

/-! ## An arrival -/

theorem onPacket_observed (s : TwccReceiver) (seq : UInt16) (t : Int) (size : UInt16) (x : UInt16) :
    observed (onPacket s seq t size).records x =
      if slot x = slot seq then some t else observed s.records x := by
  have hr : (onPacket s seq t size).records = Function.update s.records (slot seq) ⟨t, size, true⟩ := by
    unfold onPacket
    split <;> rfl
  rw [hr]
  unfold observed
  by_cases h : slot x = slot seq
  · simp [h]
  · simp [h]

theorem onPacket_first {s : TwccReceiver} (h : s.hasPending = false) (seq : UInt16) (t : Int) (size : UInt16) :
    (onPacket s seq t size).pendingBaseSeq = seq ∧ (onPacket s seq t size).pendingEndSeq = seq + 1 := by
  simp [onPacket, h]

theorem onPacket_later {s : TwccReceiver} (h : s.hasPending = true) (seq : UInt16) (t : Int) (size : UInt16) :
    (onPacket s seq t size).pendingBaseSeq =
        (if 32768 ≤ (seq - s.pendingBaseSeq).toNat then seq else s.pendingBaseSeq) ∧
      (onPacket s seq t size).pendingEndSeq =
        if (seq - s.pendingEndSeq).toNat < 32768 then seq + 1 else s.pendingEndSeq := by
  have hend : sequenceDelta seq s.pendingEndSeq ≥ 0 ↔ (seq - s.pendingEndSeq).toNat < 32768 := by
    rw [ge_iff_le, ← not_lt, sequenceDelta_neg, not_le]
  simp only [onPacket, h, Bool.true_eq_false, if_false, sequenceDelta_neg, hend, and_self]

theorem onPacket_hasPending (s : TwccReceiver) (seq : UInt16) (t : Int) (size : UInt16) :
    (onPacket s seq t size).hasPending = true := by
  unfold onPacket
  split
  · rfl
  · rename_i h
    simpa using h

/-! ## The loops -/

theorem cleared_apply (j : Nat) : ∀ (block : List UInt16) (records : Nat → TransportPacketRecord),
    cleared records block j = if ∃ seq ∈ block, slot seq = j then {} else records j
  | [], records => by simp [cleared]
  | seq :: later, records => by
    have ih := cleared_apply j later (Function.update records (slot seq) {})
    unfold cleared at ih ⊢
    rw [List.foldl_cons, ih]
    by_cases hseq : slot seq = j
    · subst hseq
      simp
    · simp [hseq, Function.update_of_ne (Ne.symm hseq)]

/-- The statuses the loop adds; `prev` is the last arrival before. -/
def statusesFrom : Option Int → List (Option Int) → List PacketStatus
  | _, [] => []
  | prev, none :: later => notReceived :: statusesFrom prev later
  | none, some t :: later => received ((t - t.tdiv 64000 * 64000).tdiv 250) :: statusesFrom (some t) later
  | some p, some t :: later => received ((t - p).tdiv 250) :: statusesFrom (some t) later

def Scan.prev (scan : Scan) : Option Int := if scan.hasReference then some scan.prevArrivalUs else none

theorem scan_statuses : ∀ (l : List (Option Int)) (scan : Scan),
    (l.foldl scanStep scan).statuses = scan.statuses ++ statusesFrom scan.prev l
  | [], scan => by simp [statusesFrom]
  | none :: later, scan => by
    rw [List.foldl_cons, scan_statuses later]
    cases hr : scan.hasReference <;> simp [scanStep, statusesFrom, Scan.prev, hr]
  | some t :: later, scan => by
    rw [List.foldl_cons, scan_statuses later]
    cases hr : scan.hasReference <;> simp [scanStep, statusesFrom, Scan.prev, hr]

theorem scan_reference : ∀ (l : List (Option Int)) (scan : Scan),
    (l.foldl scanStep scan).hasReference = (scan.hasReference || l.any Option.isSome) ∧
    (l.foldl scanStep scan).referenceTimeUs =
      if scan.hasReference then scan.referenceTimeUs
      else (l.reduceOption.head?.map fun t => t.tdiv 64000 * 64000).getD scan.referenceTimeUs
  | [], scan => by simp
  | none :: later, scan => by
    obtain ⟨h1, h2⟩ := scan_reference later (scanStep scan none)
    rw [List.foldl_cons, h1, h2]
    cases hr : scan.hasReference <;> simp [scanStep, hr]
  | some t :: later, scan => by
    obtain ⟨h1, h2⟩ := scan_reference later (scanStep scan (some t))
    rw [List.foldl_cons, h1, h2]
    cases hr : scan.hasReference <;> simp [scanStep, hr]

theorem statusesFrom_length : ∀ (prev : Option Int) (l : List (Option Int)),
    (statusesFrom prev l).length = l.length
  | _, [] => rfl
  | prev, none :: later => congrArg Nat.succ (statusesFrom_length prev later)
  | none, some t :: later => congrArg Nat.succ (statusesFrom_length (some t) later)
  | some _, some t :: later => congrArg Nat.succ (statusesFrom_length (some t) later)

theorem received_status (units : Int) : (received units).status ≠ 0 := by
  unfold received
  split <;> simp

/-- Marked received exactly where there is an arrival. -/
theorem statusesFrom_status : ∀ (prev : Option Int) (l : List (Option Int)),
    (statusesFrom prev l).map (fun s => decide (s.status ≠ 0)) = l.map Option.isSome
  | _, [] => rfl
  | prev, none :: later => by
    simp [statusesFrom, notReceived, ← statusesFrom_status prev later]
  | none, some t :: later => by
    simp [statusesFrom, received_status, ← statusesFrom_status (some t) later]
  | some _, some t :: later => by
    simp [statusesFrom, received_status, ← statusesFrom_status (some t) later]

theorem scan_eq (l : List (Option Int)) : (scan l).statuses = statusesFrom none l := by
  unfold scan
  rw [scan_statuses]
  rfl

theorem scan_hasReference (l : List (Option Int)) : (scan l).hasReference = l.any Option.isSome := by
  unfold scan
  rw [(scan_reference l {}).1]
  rfl

theorem statusesFrom_getElem? (prev : Option Int) (l : List (Option Int)) {i : Nat} {s : PacketStatus}
    (h : (statusesFrom prev l)[i]? = some s) : ∃ t, l[i]? = some t ∧ (s.status ≠ 0 ↔ t.isSome) := by
  have hmap := congrArg (·[i]?) (statusesFrom_status prev l)
  simp only [List.getElem?_map, h, Option.map_some] at hmap
  obtain ⟨t, ht, heq⟩ := Option.map_eq_some_iff.mp hmap.symm
  refine ⟨t, ht, ?_⟩
  rw [heq]
  simp

/-! ## What a build can do -/

/-- What `buildFeedbackPacket` can do. -/
inductive Build (s : TwccReceiver) (senderSsrc mediaSsrc : UInt32) : TwccReceiver × Bytes → Prop
  | idle (nothing : s.hasPending = false ∨ pending s = 0) : Build s senderSsrc mediaSsrc (s, [])
  | parked (some_pending : s.hasPending = true) (none_received : ∀ seq ∈ block s, observed s.records seq = none) :
      Build s senderSsrc mediaSsrc (s, [])
  | reported (some_pending : s.hasPending = true)
      (some_received : ∃ seq ∈ block s, (observed s.records seq).isSome) :
      Build s senderSsrc mediaSsrc (reported s, feedbackPacket senderSsrc mediaSsrc s.pendingBaseSeq
        (statusesFrom none (times s)) (scan (times s)).referenceTimeUs s.fbPacketCount)

theorem any_times (s : TwccReceiver) :
    (times s).any Option.isSome = true ↔ ∃ seq ∈ block s, (observed s.records seq).isSome := by
  simp [times]

theorem build_cases (s : TwccReceiver) (senderSsrc mediaSsrc : UInt32) :
    Build s senderSsrc mediaSsrc (buildFeedbackPacket s senderSsrc mediaSsrc) := by
  unfold buildFeedbackPacket
  split
  · rename_i h
    exact .idle (.inl h)
  rename_i hp
  split
  · rename_i h
    exact .idle (.inr (by unfold packetStatusCount at h; omega))
  split
  · rename_i h
    refine .parked (by simpa using hp) fun seq hseq => ?_
    rw [scan_hasReference, ← Bool.not_eq_true, any_times] at h
    rw [← Option.not_isSome_iff_eq_none]
    exact fun hs => h ⟨seq, hseq, hs⟩
  · rename_i h
    rw [scan_eq]
    refine .reported (by simpa using hp) ((any_times s).mp ?_)
    rw [← scan_hasReference]
    simpa using h

/-! ## The receiver after a packet -/

theorem reported_pending (s : TwccReceiver) : pending (reported s) = pending s - packetStatusCount s := by
  have hle : packetStatusCount s ≤ pending s := Nat.min_le_right _ _
  unfold pending at hle ⊢
  exact offset_moved s.pendingBaseSeq s.pendingEndSeq hle

theorem reported_hasPending (s : TwccReceiver) : (reported s).hasPending = true ↔ 0 < pending (reported s) := by
  have hne : (reported s).hasPending = true ↔ (reported s).pendingBaseSeq ≠ (reported s).pendingEndSeq := by
    simp [reported]
  rw [hne, pending, Nat.pos_iff_ne_zero]
  constructor
  · intro h hz
    apply h
    have := add_offset (reported s).pendingBaseSeq (reported s).pendingEndSeq
    rw [hz] at this
    simpa using this
  · intro h he
    rw [he] at h
    simp at h

/-- Clearing the block clears a number exactly if its distance from the base
is, in the ring, that of a number of the block. -/
theorem slot_in_block (s : TwccReceiver) (x : UInt16) :
    (∃ seq ∈ block s, slot seq = slot x) ↔
      (x - s.pendingBaseSeq).toNat % kRingSize < packetStatusCount s := by
  have hcount := count_le s
  constructor
  · rintro ⟨seq, hmem, hslot⟩
    have hlt := mem_block.mp hmem
    rw [slot_eq_iff s.pendingBaseSeq] at hslot
    unfold kRingSize at hslot ⊢
    omega
  · intro h
    have hlt : (x - s.pendingBaseSeq).toNat % kRingSize < 2 ^ 16 := by omega
    refine ⟨s.pendingBaseSeq + UInt16.ofNat ((x - s.pendingBaseSeq).toNat % kRingSize), ?_, ?_⟩
    · rw [mem_block, offset_ofNat _ hlt]
      exact h
    · rw [slot_eq_iff s.pendingBaseSeq, offset_ofNat _ hlt, Nat.mod_mod]

theorem observed_reported (s : TwccReceiver) (x : UInt16) :
    observed (reported s).records x =
      if (x - s.pendingBaseSeq).toNat % kRingSize < packetStatusCount s then none
      else observed s.records x := by
  unfold observed reported
  simp only [cleared_apply, slot_in_block]
  split
  · rfl
  · rfl

/-! ## What a packet says -/

theorem times_length (s : TwccReceiver) : (times s).length = packetStatusCount s := by
  simp [times, block]

/-- What the next packet says. -/
def feedback (s : TwccReceiver) : Feedback where
  baseSeq := s.pendingBaseSeq
  statusCount := packetStatusCount s
  referenceTime := ((scan (times s)).referenceTimeUs.tdiv 64000 % 2 ^ 24).toNat
  fbPacketCount := s.fbPacketCount
  statuses := (statusesFrom none (times s)).map fun t => (t.status, t.deltaUnits)

/-- A packet comes from a receiver with something to report, and decodes to that. -/
theorem build_packet {s s' : TwccReceiver} {senderSsrc mediaSsrc : UInt32} {p : Bytes}
    (h : buildFeedbackPacket s senderSsrc mediaSsrc = (s', p)) (hp : p ≠ []) :
    s' = reported s ∧ s.hasPending = true ∧ (∃ seq ∈ block s, (observed s.records seq).isSome) ∧
      p = feedbackPacket senderSsrc mediaSsrc s.pendingBaseSeq (statusesFrom none (times s))
        (scan (times s)).referenceTimeUs s.fbPacketCount ∧ decodeFeedback p = some (feedback s) := by
  have hc := build_cases s senderSsrc mediaSsrc
  rw [h] at hc
  cases hc with
  | idle => exact absurd rfl hp
  | parked => exact absurd rfl hp
  | reported hpending hreceived =>
    have hlen : (statusesFrom none (times s)).length = packetStatusCount s := by
      rw [statusesFrom_length, times_length]
    have hcount := count_le s
    refine ⟨rfl, hpending, hreceived, rfl, ?_⟩
    rw [decode_feedbackPacket _ _ _ (by omega), hlen]
    rfl

/-- The status the feedback gives a number it covers. -/
def statusOf (f : Feedback) (seq : UInt16) : Option Nat :=
  f.statuses[(seq - f.baseSeq).toNat]?.map Prod.fst

theorem block_getElem? (s : TwccReceiver) {i : Nat} (h : i < packetStatusCount s) :
    (block s)[i]? = some (s.pendingBaseSeq + UInt16.ofNat i) := by
  unfold block window
  rw [List.getElem?_map, List.getElem?_range h]
  rfl

/-- The next packet covers the numbers of the block, and marks as received
those with an arrival in their slot. -/
theorem statusOf_feedback (s : TwccReceiver) (seq : UInt16) :
    (∀ st, statusOf (feedback s) seq = some st → seq ∈ block s ∧
      (st ≠ 0 ↔ (observed s.records seq).isSome)) ∧
    (seq ∈ block s → ∃ st, statusOf (feedback s) seq = some st) := by
  have hlen : (statusesFrom none (times s)).length = packetStatusCount s := by
    rw [statusesFrom_length, times_length]
  have hget : statusOf (feedback s) seq =
      ((statusesFrom none (times s))[(seq - s.pendingBaseSeq).toNat]?).map (·.status) := by
    unfold statusOf feedback
    rw [List.getElem?_map, Option.map_map]
    rfl
  constructor
  · intro st hst
    rw [hget] at hst
    obtain ⟨t, ht, rfl⟩ := Option.map_eq_some_iff.mp hst
    have hlt : (seq - s.pendingBaseSeq).toNat < packetStatusCount s := by
      obtain ⟨hi, -⟩ := List.getElem?_eq_some_iff.mp ht
      rw [hlen] at hi
      exact hi
    refine ⟨mem_block.mpr hlt, ?_⟩
    obtain ⟨a, ha, hiff⟩ := statusesFrom_getElem? none (times s) ht
    unfold times at ha
    rw [List.getElem?_map, block_getElem? s hlt, add_offset, Option.map_some, Option.some.injEq] at ha
    rw [hiff, ha]
  · intro hmem
    have hlt := mem_block.mp hmem
    rw [hget, List.getElem?_eq_getElem (by rw [hlen]; exact hlt)]
    exact ⟨_, rfl⟩

/-- Its length is the one its length field gives, and it is one RTCP packet. -/
theorem feedbackPacket_rtcp (senderSsrc mediaSsrc : UInt32) (baseSeq : UInt16)
    {statuses : List PacketStatus} (h : statuses.length ≤ 512) (referenceTimeUs : Int)
    (fbPacketCount : UInt8) {p : Bytes}
    (hp : p = feedbackPacket senderSsrc mediaSsrc baseSeq statuses referenceTimeUs fbPacketCount) :
    p.length % 4 = 0 ∧ ((be16 (p.getD 2 0) (p.getD 3 0)).toNat + 1) * 4 = p.length ∧
      parseRtcp p = some [⟨p, 205, 15⟩] := by
  have hlen : p.length = totalSize (pack statuses).1 (pack statuses).2 := by
    rw [hp, feedbackPacket_length]
  have hmod := totalSize_mod (pack statuses).1 (pack statuses).2
  have hle := le_totalSize (pack statuses).1 (pack statuses).2
  have hlt := totalSize_lt h
  have hfield : (be16 (p.getD 2 0) (p.getD 3 0)).toNat =
      totalSize (pack statuses).1 (pack statuses).2 / 4 - 1 := by
    rw [hp]
    exact be16_be16Bytes (n := totalSize (pack statuses).1 (pack statuses).2 / 4 - 1) (by omega)
  have h0 : p.getD 0 0 = 0x8F := by rw [hp]; rfl
  have h1 : p.getD 1 0 = 205 := by rw [hp]; rfl
  have hwords : ((be16 (p.getD 2 0) (p.getD 3 0)).toNat + 1) * 4 = p.length := by
    rw [hfield, hlen]
    omega
  refine ⟨by rw [hlen]; exact hmod, hwords, ?_⟩
  rw [parseRtcp_single (by omega) (by omega) (by rw [h0]; rfl) (by rw [h0]; rfl) hwords (by rw [h1]; simp),
    h0, h1]
  rfl

/-! ## The receiver over its life -/

inductive Op where
  | onPacket (transportSeq : UInt16) (arrivalTimeUs : Int) (packetSize : UInt16)
  | build (senderSsrc mediaSsrc : UInt32) (packet : Bytes)
  | reset

/-- mirrors shared/receiver/rtc/twcc_receiver.cpp:19-28 -/
def reset : TwccReceiver := {}

/-- The label of a build carries what it returns. -/
def lts : LTS TwccReceiver Op where
  init s := s = {}
  step s op s' := match op with
    | .onPacket transportSeq arrivalTimeUs packetSize => s' = onPacket s transportSeq arrivalTimeUs packetSize
    | .build senderSsrc mediaSsrc packet => buildFeedbackPacket s senderSsrc mediaSsrc = (s', packet)
    | .reset => s' = reset

/-- Neither a reset nor a build that returns a packet. -/
def Op.Quiet : Op → Prop
  | .onPacket .. => True
  | .build _ _ packet => packet = []
  | .reset => False

theorem build_nil {s s' : TwccReceiver} {senderSsrc mediaSsrc : UInt32}
    (h : buildFeedbackPacket s senderSsrc mediaSsrc = (s', [])) : s' = s := by
  have hc := build_cases s senderSsrc mediaSsrc
  rw [h] at hc
  generalize hq : ([] : Bytes) = q at hc
  cases hc with
  | idle => rfl
  | parked => rfl
  | reported =>
    have hlen := congrArg List.length hq
    rw [feedbackPacket_length] at hlen
    have := le_totalSize (pack (statusesFrom none (times s))).1 (pack (statusesFrom none (times s))).2
    rw [List.length_nil] at hlen
    omega

theorem onPacket_count (s : TwccReceiver) (seq : UInt16) (t : Int) (size : UInt16) :
    (onPacket s seq t size).fbPacketCount = s.fbPacketCount := by
  unfold onPacket
  split <;> rfl

theorem quiet_run {s s' : TwccReceiver} {ops : List Op} (h : lts.Run s ops s') (hq : ∀ op ∈ ops, op.Quiet) :
    s'.fbPacketCount = s.fbPacketCount := by
  induction h with
  | nil => rfl
  | @cons s t _ op _ hst _ ih =>
    rw [ih fun op' hop => hq op' (List.mem_cons_of_mem op hop)]
    have hquiet := hq op List.mem_cons_self
    cases op with
    | onPacket seq time size => rw [show t = onPacket s seq time size from hst, onPacket_count]
    | build senderSsrc mediaSsrc packet =>
      rw [show packet = [] from hquiet] at hst
      rw [build_nil hst]
    | reset => exact hquiet.elim

/-- The counter a packet carries. -/
def counter (p : Bytes) : Option UInt8 := (decodeFeedback p).map (·.fbPacketCount)

/-- **The packet and its reading.** Every packet of a reachable receiver
decodes to the base, the count and the statuses and deltas that were computed,
has the length its length field says, and is one RTCP packet of type 205 and
count 15. From one packet to the next, with no reset in between, the counter
goes up by one. -/
theorem feedback_roundtrip :
    (∀ s, lts.Reachable s → ∀ senderSsrc mediaSsrc p,
      (buildFeedbackPacket s senderSsrc mediaSsrc).2 = p → p ≠ [] →
        (∃ f, decodeFeedback p = some f ∧ f.baseSeq = s.pendingBaseSeq ∧
          f.statusCount = packetStatusCount s ∧
          f.statuses = (scan (times s)).statuses.map fun t => (t.status, t.deltaUnits)) ∧
        p.length % 4 = 0 ∧ ((be16 (p.getD 2 0) (p.getD 3 0)).toNat + 1) * 4 = p.length ∧
        parseRtcp p = some [⟨p, 205, 15⟩]) ∧
    (∀ s, lts.Reachable s → ∀ senderSsrc mediaSsrc p ops senderSsrc' mediaSsrc' p' s',
      lts.Run s (.build senderSsrc mediaSsrc p :: (ops ++ [.build senderSsrc' mediaSsrc' p'])) s' →
      p ≠ [] → p' ≠ [] → (∀ op ∈ ops, op.Quiet) →
        ∃ c, counter p = some c ∧ counter p' = some (c + 1)) := by
  constructor
  · intro s _ senderSsrc mediaSsrc p heq hp
    have hbuild : buildFeedbackPacket s senderSsrc mediaSsrc =
        ((buildFeedbackPacket s senderSsrc mediaSsrc).1, p) := Prod.ext rfl heq
    obtain ⟨-, -, -, hpacket, hdecode⟩ := build_packet hbuild hp
    have hlen : (statusesFrom none (times s)).length ≤ 512 := by
      rw [statusesFrom_length, times_length]
      exact count_le s
    exact ⟨⟨feedback s, hdecode, rfl, rfl, by rw [scan_eq]; rfl⟩,
      feedbackPacket_rtcp senderSsrc mediaSsrc _ hlen _ _ hpacket⟩
  · intro s _ senderSsrc mediaSsrc p ops senderSsrc' mediaSsrc' p' s' hrun hp hp' hquiet
    cases hrun with
    | cons hst hrest =>
      obtain ⟨t, hops, hlast⟩ := hrest.split
      cases hlast with
      | cons hst' _ =>
        obtain ⟨rfl, -, -, -, hdecode⟩ := build_packet hst hp
        obtain ⟨-, -, -, -, hdecode'⟩ := build_packet hst' hp'
        refine ⟨s.fbPacketCount, by rw [counter, hdecode]; rfl, ?_⟩
        rw [counter, hdecode']
        exact congrArg some (quiet_run hops hquiet)

/-- A receiver that has got packet 0. -/
def one : TwccReceiver := onPacket {} 0 0 100

/-- A second packet arrives after the first feedback, and is reported by the next. -/
theorem feedback_roundtrip_twice :
    let p := (buildFeedbackPacket one 1 2).2
    let s := onPacket (buildFeedbackPacket one 1 2).1 1 700 100
    (∃ f, decodeFeedback p = some f ∧ f.baseSeq = 0 ∧ f.statusCount = 1) ∧
      parseRtcp p = some [⟨p, 205, 15⟩] ∧
      ∃ c, counter p = some c ∧ counter (buildFeedbackPacket s 1 2).2 = some (c + 1) := by
  intro p s
  obtain ⟨hpacket, hcounter⟩ := feedback_roundtrip
  obtain ⟨⟨f, hf, hbase, hcount, -⟩, -, -, hparse⟩ :=
    hpacket one ⟨{}, [.onPacket 0 0 100], rfl, .cons rfl (.nil _)⟩ 1 2 p rfl (by decide)
  refine ⟨⟨f, hf, hbase, hcount⟩, hparse, ?_⟩
  exact hcounter one ⟨{}, [.onPacket 0 0 100], rfl, .cons rfl (.nil _)⟩ 1 2 p [.onPacket 1 700 100] 1 2
    _ (buildFeedbackPacket s 1 2).1 (.cons rfl (.cons rfl (.cons Prod.mk.eta.symm (.nil _)))) (by decide) (by decide)
    (by simp [Op.Quiet])

/-- One packet, a build, a reset, and the same again: both feedbacks carry the
counter 0. -/
theorem counter_after_reset :
    let p := (buildFeedbackPacket one 1 2).2
    lts.Run {} [.onPacket 0 0 100, .build 1 2 p, .reset, .onPacket 0 0 100, .build 1 2 p]
        (buildFeedbackPacket one 1 2).1 ∧
      p ≠ [] ∧ counter p = some 0 :=
  ⟨.cons rfl (.cons rfl (.cons rfl (.cons rfl (.cons rfl (.nil _))))), by decide, by decide⟩

end KmVirtualCamera.L2.Twcc
