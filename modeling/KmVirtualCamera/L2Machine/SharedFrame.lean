import Mathlib

/-!
# Frames in shared memory (`SharedMemoryPublisher`, `SharedMemoryConsumer`)

Two slots and an index. A publish writes the slot that is not active, counts
that slot's `sequence` up by two (odd while it is being written) and then makes
it the active one; a read looks at the active slot and reports half its
`sequence`. The calls do not overlap, so an odd value is never seen. The
counters are `LONG64`: the increments wrap and the division is signed.

After `n` publishes the slots have been written `(n + 1) / 2` and `n / 2` times
(`Holds`, `holds_after`), so a read reports the same number twice for the
publishes `2k - 1` and `2k`.

* `sequence_advances`: a read gives the frame published last; its number is
  larger than that of an earlier read exactly when slot 0 was active then or
  two frames have been published since.
* `second_frame_alike`: the first two frames are reported under one number.
-/
namespace KmVirtualCamera.L2.SharedFrame

abbrev Bytes := List UInt8

def kWidth : UInt32 := 1280
def kHeight : UInt32 := 720
def kStrideY : UInt32 := 1280
def kStrideUv : UInt32 := 1280
/-- mirrors windows/common/frame_pipe_protocol.h:21 -/
def kPayloadBytes : Nat := 1280 * 720 + 1280 * (720 / 2)
def kSharedMemoryVersion : UInt32 := 3
/-- `WRTCVF03` -/
def kMagic : Bytes := [87, 82, 84, 67, 86, 70, 48, 51]

/-- mirrors windows/common/frame_pipe_protocol.h:139-145 -/
def blackNv12 : Bytes := List.replicate (1280 * 720) 0x10 ++ List.replicate (1280 * (720 / 2)) 0x80

/-- mirrors windows/common/shared_memory_frame.h:38-43 -/
structure FrameSlot where
  sequence : Int64
  captureTimeUs : Int64
  writeTick : UInt64
  payload : Bytes

/-- mirrors windows/common/shared_memory_frame.h:45-55 -/
structure SharedMemoryHeader where
  magic : Bytes
  version : UInt32
  width : UInt32
  height : UInt32
  strideY : UInt32
  strideUV : UInt32
  payloadBytes : Nat
  activeSlot : UInt32
  slot0 : FrameSlot
  slot1 : FrameSlot

def SharedMemoryHeader.slot (h : SharedMemoryHeader) (i : UInt32) : FrameSlot :=
  if i = 0 then h.slot0 else h.slot1

/-- What `Open` leaves; `tick` is the tick count it reads.
mirrors windows/common/shared_memory_frame.h:125-143 -/
def opened (tick : UInt64) : SharedMemoryHeader where
  magic := kMagic
  version := kSharedMemoryVersion
  width := kWidth
  height := kHeight
  strideY := kStrideY
  strideUV := kStrideUv
  payloadBytes := kPayloadBytes
  activeSlot := 0
  slot0 := ⟨0, 0, tick, blackNv12⟩
  slot1 := ⟨0, 0, tick, blackNv12⟩

/-- One frame as it is handed to `PublishFrame`, with the tick count it reads. -/
structure Frame where
  nv12 : Bytes
  captureTimeUs : Int64
  tick : UInt64

/-- mirrors windows/common/shared_memory_frame.h:158-165 -/
def FrameSlot.write (s : FrameSlot) (f : Frame) : FrameSlot where
  sequence := s.sequence + 1 + 1
  captureTimeUs := f.captureTimeUs
  writeTick := f.tick
  payload := f.nv12

/-- A frame that is not null and has the size of a frame.
mirrors windows/common/shared_memory_frame.h:149 -/
def Frame.valid (f : Frame) : Prop := f.nv12.length = kPayloadBytes

instance (f : Frame) : Decidable f.valid := inferInstanceAs (Decidable (_ = _))

/-- mirrors windows/common/shared_memory_frame.h:147-174 -/
def publishFrame (h : SharedMemoryHeader) (f : Frame) : SharedMemoryHeader :=
  if ¬ f.valid then h
  else if h.activeSlot = 0 then { h with slot1 := h.slot1.write f, activeSlot := 1 }
  else { h with slot0 := h.slot0.write f, activeSlot := 0 }

/-- The checks on the constants of the header.
mirrors windows/common/shared_memory_frame.h:270-276 -/
def SharedMemoryHeader.known (h : SharedMemoryHeader) : Prop :=
  h.magic = kMagic ∧ h.version = kSharedMemoryVersion ∧ h.width = kWidth ∧ h.height = kHeight ∧
    h.strideY = kStrideY ∧ h.strideUV = kStrideUv ∧ h.payloadBytes = kPayloadBytes

instance (h : SharedMemoryHeader) : Decidable h.known :=
  inferInstanceAs (Decidable (_ ∧ _ ∧ _ ∧ _ ∧ _ ∧ _ ∧ _))

/-- The slot was written at most two seconds before `now`.
mirrors windows/common/shared_memory_frame.h:284-286 -/
def FrameSlot.fresh (s : FrameSlot) (now : UInt64) : Prop :=
  ¬ (now < s.writeTick ∨ now - s.writeTick > 2000)

instance (s : FrameSlot) (now : UInt64) : Decidable (s.fresh now) := inferInstanceAs (Decidable (¬ _))

structure Reading where
  payload : Bytes
  sequence : UInt64
  timestampUs : Int64

/-- mirrors windows/common/shared_memory_frame.h:264-305 -/
def getLatestFrame (h : SharedMemoryHeader) (now : UInt64) : Option Reading :=
  if ¬ h.known then none
  else
    let activeIdx := if h.activeSlot > 1 then 0 else h.activeSlot
    let slot := h.slot activeIdx
    if ¬ slot.fresh now then none
    else some ⟨slot.payload, (slot.sequence / 2).toUInt64, slot.captureTimeUs⟩

/-! ## What a slot counter reports -/

theorem toNat_toUInt64 (x : Int64) :
    (x.toUInt64.toNat : Int) = if 0 ≤ x.toInt then x.toInt else x.toInt + 2 ^ 64 := by
  have h : x.toInt = (x.toUInt64.toNat : Int).bmod (2 ^ 64) := BitVec.toInt_eq_toNat_bmod x.toBitVec
  have hlt := x.toUInt64.toNat_lt
  rw [Int.bmod_def] at h
  split at h <;> split <;> omega

/-- The number reported for a slot that has been written `k` times. The counter
wraps after 2^63 writes; its signed half is negative from 2^62 writes on, and
large as an unsigned number. -/
def reported (k : Nat) : Nat := if k % 2 ^ 63 < 2 ^ 62 then k % 2 ^ 63 else k % 2 ^ 63 + 2 ^ 63

theorem reported_lt {j k : Nat} : reported j < reported k ↔ j % 2 ^ 63 < k % 2 ^ 63 := by
  unfold reported
  split <;> split <;> omega

/-- The counter of a slot that has been written `k` times. -/
theorem toInt_ofNat_twice (k : Nat) : (Int64.ofNat (2 * k)).toInt =
    if k % 2 ^ 63 < 2 ^ 62 then 2 * ((k % 2 ^ 63 : Nat) : Int) else 2 * ((k % 2 ^ 63 : Nat) : Int) - 2 ^ 64 := by
  have hsize : Int64.size = 2 ^ 64 := rfl
  rw [Int64.toInt_ofNat', hsize, Int.bmod_def]
  push_cast
  split <;> split <;> omega

theorem toInt_half (k : Nat) : (Int64.ofNat (2 * k) / 2).toInt =
    if k % 2 ^ 63 < 2 ^ 62 then ((k % 2 ^ 63 : Nat) : Int) else ((k % 2 ^ 63 : Nat) : Int) - 2 ^ 63 := by
  have htwo : (2 : Int64).toInt = 2 := rfl
  rw [Int64.toInt_div_of_ne_right _ _ (by decide), toInt_ofNat_twice, htwo]
  split
  · rw [Int.mul_tdiv_cancel_left _ (by decide)]
  · have htwice : 2 * ((k % 2 ^ 63 : Nat) : Int) - 2 ^ 64 = 2 * (((k % 2 ^ 63 : Nat) : Int) - 2 ^ 63) := by
      omega
    rw [htwice, Int.mul_tdiv_cancel_left _ (by decide)]

theorem half_ofNat (k : Nat) : (Int64.ofNat (2 * k) / 2).toUInt64.toNat = reported k := by
  have hnat := toNat_toUInt64 (Int64.ofNat (2 * k) / 2)
  rw [toInt_half] at hnat
  unfold reported
  split at hnat <;> split at hnat <;> split <;> omega

/-! ## Runs -/

/-- The frames that are taken, of those handed to `PublishFrame`. -/
def accepted (fs : List Frame) : List Frame := fs.filter fun f => decide f.valid

/-- The shared memory after some calls of `PublishFrame`; a read changes nothing. -/
def after (tick : UInt64) (fs : List Frame) : SharedMemoryHeader := fs.foldl publishFrame (opened tick)

/-- The header after `n` publishes, `last` the last of them. -/
structure Holds (h : SharedMemoryHeader) (n : Nat) (last : Option Frame) : Prop where
  known : h.known
  active : h.activeSlot = if n % 2 = 0 then 0 else 1
  count0 : h.slot0.sequence = Int64.ofNat (2 * (n / 2))
  count1 : h.slot1.sequence = Int64.ofNat (2 * ((n + 1) / 2))
  last : ∀ f, last = some f → (h.slot h.activeSlot).payload = f.nv12 ∧
    (h.slot h.activeSlot).captureTimeUs = f.captureTimeUs ∧ (h.slot h.activeSlot).writeTick = f.tick

theorem holds_opened (tick : UInt64) : Holds (opened tick) 0 none where
  known := ⟨rfl, rfl, rfl, rfl, rfl, rfl, rfl⟩
  active := rfl
  count0 := rfl
  count1 := rfl
  last f h := by cases h

theorem ofNat_succ_twice (k : Nat) : Int64.ofNat (2 * k) + 1 + 1 = Int64.ofNat (2 * (k + 1)) := by
  have h : 2 * (k + 1) = 2 * k + 1 + 1 := by omega
  rw [h, Int64.ofNat_add, Int64.ofNat_add]
  rfl

theorem Holds.publish {h : SharedMemoryHeader} {n : Nat} {last : Option Frame} (hh : Holds h n last)
    {f : Frame} (hf : f.valid) : Holds (publishFrame h f) (n + 1) (some f) := by
  unfold publishFrame
  rw [if_neg (not_not.mpr hf)]
  have hactive := hh.active
  by_cases hn : n % 2 = 0
  · rw [if_pos hn] at hactive
    rw [if_pos hactive]
    refine ⟨hh.known, ?_, ?_, ?_, ?_⟩
    · rw [if_neg (by omega)]
    · simp only [hh.count0]
      congr 2
      omega
    · simp only [FrameSlot.write, hh.count1, ofNat_succ_twice]
      congr 2
      omega
    · intro f' hf'
      cases hf'
      exact ⟨rfl, rfl, rfl⟩
  · rw [if_neg hn] at hactive
    rw [if_neg (by rw [hactive]; decide)]
    refine ⟨hh.known, ?_, ?_, ?_, ?_⟩
    · rw [if_pos (by omega)]
    · simp only [FrameSlot.write, hh.count0, ofNat_succ_twice]
      congr 2
      omega
    · simp only [hh.count1]
      congr 2
      omega
    · intro f' hf'
      cases hf'
      exact ⟨rfl, rfl, rfl⟩

theorem publish_refused {h : SharedMemoryHeader} {f : Frame} (hf : ¬ f.valid) : publishFrame h f = h := by
  unfold publishFrame
  rw [if_pos hf]

theorem Holds.publishes : ∀ (fs : List Frame) {h : SharedMemoryHeader} {n : Nat} {last : Option Frame},
    Holds h n last → Holds (fs.foldl publishFrame h) (n + (accepted fs).length)
      ((accepted fs).getLast?.or last)
  | [], _, _, _, hh => hh
  | f :: fs, h, n, last, hh => by
    rw [List.foldl_cons]
    by_cases hf : f.valid
    · have hrest := Holds.publishes fs (hh.publish hf)
      have hacc : accepted (f :: fs) = f :: accepted fs := by simp [accepted, hf]
      have hlast : (accepted (f :: fs)).getLast?.or last = (accepted fs).getLast?.or (some f) := by
        rw [hacc, List.getLast?_cons]
        cases (accepted fs).getLast? <;> rfl
      rw [hlast, hacc, List.length_cons]
      have hn : n + ((accepted fs).length + 1) = n + 1 + (accepted fs).length := by omega
      rw [hn]
      exact hrest
    · have hacc : accepted (f :: fs) = accepted fs := by simp [accepted, hf]
      rw [publish_refused hf, hacc]
      exact Holds.publishes fs hh

theorem holds_after (tick : UInt64) (fs : List Frame) :
    Holds (after tick fs) (accepted fs).length (accepted fs).getLast? := by
  have h := Holds.publishes fs (holds_opened tick)
  rwa [Nat.zero_add, Option.or_none] at h

/-! ## Reads -/

/-- The slot a read looks at. -/
theorem active_slot {h : SharedMemoryHeader} {n : Nat} {last : Option Frame} (hh : Holds h n last) :
    (if h.activeSlot > 1 then 0 else h.activeSlot) = h.activeSlot ∧
      (h.slot h.activeSlot).sequence = Int64.ofNat (2 * ((n + 1) / 2)) := by
  have hactive := hh.active
  by_cases hn : n % 2 = 0
  · rw [if_pos hn] at hactive
    refine ⟨by rw [hactive]; decide, ?_⟩
    rw [hactive, SharedMemoryHeader.slot, if_pos rfl, hh.count0]
    congr 2
    omega
  · rw [if_neg hn] at hactive
    refine ⟨by rw [hactive]; decide, ?_⟩
    rw [hactive, SharedMemoryHeader.slot, if_neg (by decide), hh.count1]

/-- A read of a fresh slot gives that slot. -/
theorem Holds.read {h : SharedMemoryHeader} {n : Nat} {last : Option Frame} (hh : Holds h n last)
    {now : UInt64} (hfresh : (h.slot h.activeSlot).fresh now) : getLatestFrame h now =
      some ⟨(h.slot h.activeSlot).payload, ((h.slot h.activeSlot).sequence / 2).toUInt64,
        (h.slot h.activeSlot).captureTimeUs⟩ := by
  obtain ⟨hidx, -⟩ := active_slot hh
  unfold getLatestFrame
  rw [if_neg (not_not.mpr hh.known)]
  dsimp only
  rw [hidx, if_neg (not_not.mpr hfresh)]

/-- A read that succeeds reports the number of times the active slot was written. -/
theorem Holds.sequence {h : SharedMemoryHeader} {n : Nat} {last : Option Frame} (hh : Holds h n last)
    {now : UInt64} {r : Reading} (hr : getLatestFrame h now = some r) :
    r.sequence.toNat = reported ((n + 1) / 2) := by
  obtain ⟨hidx, hseq⟩ := active_slot hh
  have hfresh : (h.slot h.activeSlot).fresh now := by
    by_contra hstale
    unfold getLatestFrame at hr
    rw [if_neg (not_not.mpr hh.known)] at hr
    dsimp only at hr
    rw [hidx, if_pos hstale] at hr
    cases hr
  rw [hh.read hfresh, Option.some.injEq] at hr
  rw [← hr, hseq]
  exact half_ofNat _

theorem after_refused {tick : UInt64} : ∀ {fs : List Frame}, accepted fs = [] → after tick fs = opened tick
  | [], _ => rfl
  | f :: fs, h => by
    have hf : ¬ f.valid := fun hf => by simp [accepted, hf] at h
    have hfs : accepted fs = [] := by simpa [accepted, hf] using h
    have hrest : after tick fs = opened tick := after_refused hfs
    rw [after, List.foldl_cons, publish_refused hf]
    exact hrest

/-- The tick count read by the last publish, or by `Open`. -/
def lastTick (tick : UInt64) (fs : List Frame) : UInt64 := ((accepted fs).getLast?.map Frame.tick).getD tick

theorem writeTick_after (tick : UInt64) (fs : List Frame) :
    ((after tick fs).slot (after tick fs).activeSlot).writeTick = lastTick tick fs := by
  have hh := holds_after tick fs
  unfold lastTick
  cases hlast : (accepted fs).getLast? with
  | none =>
    rw [after_refused (List.getLast?_eq_none_iff.mp hlast)]
    rfl
  | some f => exact (hh.last f hlast).2.2

/-- How often the active slot has been written. -/
def writes (fs : List Frame) : Nat := ((accepted fs).length + 1) / 2

theorem sequence_after {tick now : UInt64} {fs : List Frame} {r : Reading}
    (hr : getLatestFrame (after tick fs) now = some r) : r.sequence.toNat = reported (writes fs) :=
  (holds_after tick fs).sequence hr

/-- What a read after the frames `fs` promises beside an earlier read. -/
structure Distinguishes (earlier : Reading) (fs : List Frame) (r : Reading) : Prop where
  latest : ∀ f, (accepted fs).getLast? = some f → r.payload = f.nv12 ∧ r.timestampUs = f.captureTimeUs
  larger : accepted fs ≠ [] → earlier.sequence < r.sequence
  same : accepted fs = [] → r.sequence = earlier.sequence

theorem accepted_append (fs gs : List Frame) : accepted (fs ++ gs) = accepted fs ++ accepted gs :=
  List.filter_append ..

/-- Below 2^64 - 1 publishes no counter wraps: the slot read next has been
written more often than the slot read before unless that was slot 1 and one
frame has been published since. -/
theorem writes_lt_iff {tick : UInt64} {fs gs : List Frame} (h : (accepted (fs ++ gs)).length < 2 ^ 64 - 1)
    (hne : accepted gs ≠ []) : writes fs % 2 ^ 63 < writes (fs ++ gs) % 2 ^ 63 ↔
      (after tick fs).activeSlot = 0 ∨ 2 ≤ (accepted gs).length := by
  have hpos := List.length_pos_iff.mpr hne
  have hactive := (holds_after tick fs).active
  unfold writes
  rw [accepted_append, List.length_append] at *
  have hslot : (after tick fs).activeSlot = 0 ↔ (accepted fs).length % 2 = 0 := by
    rw [hactive]
    split
    · exact ⟨fun _ => ‹_›, fun _ => rfl⟩
    · exact ⟨fun h => absurd h (by decide), fun h => absurd h ‹_›⟩
  rw [hslot]
  omega

/-- **A frame has a number of its own**, larger than that of the frame read
before it, exactly when the slot read now has been written more often than the
slot read then. -/
theorem sequence_advances (tick now₁ now₂ : UInt64) (fs gs : List Frame) (r₁ : Reading)
    (hread : getLatestFrame (after tick fs) now₁ = some r₁)
    (hfresh : lastTick tick (fs ++ gs) ≤ now₂ ∧ now₂ - lastTick tick (fs ++ gs) ≤ 2000) :
    ((∃ r₂, getLatestFrame (after tick (fs ++ gs)) now₂ = some r₂ ∧ Distinguishes r₁ gs r₂) ↔
      accepted gs = [] ∨ writes fs % 2 ^ 63 < writes (fs ++ gs) % 2 ^ 63) ∧
    ((accepted (fs ++ gs)).length < 2 ^ 64 - 1 →
      ((∃ r₂, getLatestFrame (after tick (fs ++ gs)) now₂ = some r₂ ∧ Distinguishes r₁ gs r₂) ↔
        accepted gs = [] ∨ (after tick fs).activeSlot = 0 ∨ 2 ≤ (accepted gs).length)) := by
  have hh := holds_after tick (fs ++ gs)
  have hslot : ((after tick (fs ++ gs)).slot (after tick (fs ++ gs)).activeSlot).fresh now₂ := by
    rw [FrameSlot.fresh, writeTick_after, not_or]
    exact ⟨UInt64.not_lt.mpr hfresh.1, UInt64.not_lt.mpr hfresh.2⟩
  have hget := hh.read hslot
  have hlarger : ∀ r₂, getLatestFrame (after tick (fs ++ gs)) now₂ = some r₂ →
      (r₁.sequence < r₂.sequence ↔ writes fs % 2 ^ 63 < writes (fs ++ gs) % 2 ^ 63) := fun r₂ h₂ => by
    rw [UInt64.lt_iff_toNat_lt, sequence_after hread, sequence_after h₂, reported_lt]
  have hexact : (∃ r₂, getLatestFrame (after tick (fs ++ gs)) now₂ = some r₂ ∧ Distinguishes r₁ gs r₂) ↔
      accepted gs = [] ∨ writes fs % 2 ^ 63 < writes (fs ++ gs) % 2 ^ 63 := by
    constructor
    · rintro ⟨r₂, h₂, hd⟩
      by_cases hgs : accepted gs = []
      · exact .inl hgs
      · exact .inr ((hlarger r₂ h₂).mp (hd.larger hgs))
    · intro hcond
      refine ⟨_, hget, ?_, ?_, ?_⟩
      · intro f hf
        have hlast : (accepted (fs ++ gs)).getLast? = some f := by
          rw [accepted_append, List.getLast?_append, hf, Option.some_or]
        obtain ⟨hpay, hcap, -⟩ := hh.last f hlast
        exact ⟨hpay, hcap⟩
      · intro hgs
        exact (hlarger _ hget).mpr (hcond.resolve_left hgs)
      · intro hgs
        have hwrites : writes (fs ++ gs) = writes fs := by
          rw [writes, accepted_append, hgs, List.append_nil, writes]
        exact UInt64.toNat_inj.mp (by rw [sequence_after hget, sequence_after hread, hwrites])
  refine ⟨hexact, fun hcount => hexact.trans ?_⟩
  by_cases hgs : accepted gs = []
  · exact ⟨fun _ => .inl hgs, fun _ => .inl hgs⟩
  · rw [writes_lt_iff hcount hgs]

/-! ## Two frames -/

theorem blackNv12_length : blackNv12.length = kPayloadBytes := by
  rw [blackNv12, List.length_append, List.length_replicate, List.length_replicate, kPayloadBytes]

/-- A black frame published at tick 0. -/
def black (captureTimeUs : Int64) : Frame := ⟨blackNv12, captureTimeUs, 0⟩

theorem accepted_black (t : Int64) (fs : List Frame) : accepted (black t :: fs) = black t :: accepted fs := by
  have h : (black t).valid := by
    unfold Frame.valid black
    exact blackNv12_length
  simp [accepted, h]

theorem read_black (fs : List Int64) :
    ∃ r, getLatestFrame (after 0 (fs.map black)) 0 = some r ∧ r.sequence.toNat = reported ((fs.length + 1) / 2) := by
  have hacc : ∀ ts : List Int64, accepted (ts.map black) = ts.map black := fun ts => by
    induction ts with
    | nil => rfl
    | cons t ts ih => rw [List.map_cons, accepted_black, ih]
  have htick : lastTick 0 (fs.map black) = 0 := by
    rw [lastTick, hacc, List.getLast?_map]
    cases fs.getLast? <;> rfl
  have hfresh : ((after 0 (fs.map black)).slot (after 0 (fs.map black)).activeSlot).fresh 0 := by
    rw [FrameSlot.fresh, writeTick_after, htick]
    decide
  have hget := (holds_after 0 (fs.map black)).read hfresh
  refine ⟨_, hget, ?_⟩
  rw [sequence_after hget, writes, hacc, List.length_map]

/-- Two frames are published and the second is read: the third has a number of its own. -/
theorem sequence_advances_first : ∃ r₁ r₂, getLatestFrame (after 0 [black 7, black 8]) 0 = some r₁ ∧
    getLatestFrame (after 0 [black 7, black 8, black 9]) 0 = some r₂ ∧ Distinguishes r₁ [black 9] r₂ := by
  obtain ⟨r₁, h₁, -⟩ := read_black [7, 8]
  have hpublished : accepted [black 7, black 8] = [black 7, black 8] := by
    rw [accepted_black, accepted_black]
    rfl
  have hall : accepted ([black 7, black 8] ++ [black 9]) = [black 7, black 8, black 9] := by
    rw [List.cons_append, List.cons_append, List.nil_append, accepted_black, accepted_black, accepted_black]
    rfl
  have htick : lastTick 0 ([black 7, black 8] ++ [black 9]) = 0 := by
    rw [lastTick, hall]
    rfl
  have hwrites : writes [black 7, black 8] % 2 ^ 63 < writes ([black 7, black 8] ++ [black 9]) % 2 ^ 63 := by
    rw [writes, writes, hpublished, hall]
    decide
  obtain ⟨r₂, h₂, hd⟩ :=
    (sequence_advances 0 0 0 [black 7, black 8] [black 9] r₁ h₁ (by rw [htick]; decide)).1.mpr (.inr hwrites)
  exact ⟨r₁, r₂, h₁, h₂, hd⟩

/-- The second of two frames, each read, is reported under the number of the first. -/
theorem second_frame_alike : ∃ r₁ r₂, getLatestFrame (after 0 [black 7]) 0 = some r₁ ∧
    getLatestFrame (after 0 [black 7, black 8]) 0 = some r₂ ∧ r₁.sequence = 1 ∧ r₂.sequence = 1 ∧
    ¬ Distinguishes r₁ [black 8] r₂ := by
  obtain ⟨r₁, h₁, hseq₁⟩ := read_black [7]
  obtain ⟨r₂, h₂, hseq₂⟩ := read_black [7, 8]
  have hone₁ : r₁.sequence = 1 := UInt64.toNat_inj.mp (by rw [hseq₁]; decide)
  have hone₂ : r₂.sequence = 1 := UInt64.toNat_inj.mp (by rw [hseq₂]; decide)
  refine ⟨r₁, r₂, h₁, h₂, hone₁, hone₂, ?_⟩
  intro hd
  have hlt := hd.larger (by rw [accepted_black]; exact List.cons_ne_nil _ _)
  rw [hone₁, hone₂] at hlt
  exact absurd hlt (by decide)

end KmVirtualCamera.L2.SharedFrame
