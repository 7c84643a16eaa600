import Mathlib
import KmVirtualCamera.Core.LTS
import KmVirtualCamera.Core.Ring

/-!
# The PCM queue between the RTC callback and the audio device (`AudioPcmQueue`)

A ring of samples with two drop policies: a push that does not fit drops the
oldest samples (and its own oldest, when it is larger than the ring), and a
depth over the high water mark then drops back to the target.

Sizes are natural numbers: no sum the code forms exceeds twice the capacity.
The counters are `uint64_t` and wrap. The queue's lock makes every method one
step; the time a push took is an argument.

`Pcm` says what the queue is for: a list, with counts that never wrap. The ring
refines it call by call (`Refines.push`, `Refines.pop`, `Refines.clear`), so
over every sequence of calls (`refines_list`).
-/
namespace KmVirtualCamera.L2.AudioPcmQueue
open KmVirtualCamera.Ring

/-- mirrors macos/receiver/audio_pcm_queue.h:23-30 -/
structure Stats where
  pushedElements : UInt64 := 0
  poppedElements : UInt64 := 0
  droppedElements : UInt64 := 0
  underruns : UInt64 := 0
  pushMaxNs : UInt64 := 0
  depthHigh : Nat := 0

/-- mirrors macos/receiver/audio_pcm_queue.h:132-141 -/
structure Queue where
  capacity : Nat
  highWater : Nat
  target : Nat
  buffer : List Int16
  head : Nat := 0
  depth : Nat := 0
  stats : Stats := {}

/-- mirrors macos/receiver/audio_pcm_queue.h:32-36 -/
def make (capacityElements highWaterElements targetElements : Nat) : Queue :=
  let capacity := if capacityElements = 0 then 1 else capacityElements
  let highWater := if highWaterElements = 0 then capacity else highWaterElements
  { capacity := capacity
    highWater := highWater
    target := min targetElements highWater
    buffer := List.replicate capacity 0 }

/-- mirrors macos/receiver/audio_pcm_queue.h:119-124 -/
def dropFrontLocked (q : Queue) (elements : Nat) : Queue × Nat :=
  let take := min elements q.depth
  ({ q with head := (q.head + take) % q.capacity, depth := q.depth - take }, take)

/-- mirrors macos/receiver/audio_pcm_queue.h:125-130 -/
def appendLocked (q : Queue) (data : List Int16) : Queue :=
  let pos := (q.head + q.depth) % q.capacity
  let first := min data.length (q.capacity - pos)
  let buffer := copyN data first q.buffer pos
  { q with buffer := if data.length > first then
      copyN (data.drop first) (data.length - first) buffer 0 else buffer }

/-- The oldest samples go where the push does not fit. -/
def makeRoom (q : Queue) (elements : Nat) : Queue × Nat :=
  if elements > q.capacity - q.depth then
    dropFrontLocked q (min q.depth (elements - (q.capacity - q.depth)))
  else (q, 0)

/-- What of the push is skipped when even the empty ring is too small. -/
def skipped (q : Queue) (elements : Nat) : Nat :=
  if elements > q.capacity - q.depth then elements - (q.capacity - q.depth) else 0

/-- The live policy. -/
def backToTarget (q : Queue) : Queue × Nat :=
  if q.depth > q.highWater ∧ q.depth > q.target then dropFrontLocked q (q.depth - q.target)
  else (q, 0)

/-- mirrors macos/receiver/audio_pcm_queue.h:40-66 -/
def push (q : Queue) (data : List Int16) (elapsedNs : UInt64) : Queue :=
  let q := if data = [] then q else
    let (room, front) := makeRoom q data.length
    let skip := skipped room data.length
    let tail := data.drop skip
    let full := appendLocked room tail
    let (live, stale) := backToTarget { full with depth := full.depth + tail.length }
    { live with stats :=
        { live.stats with
          pushedElements := live.stats.pushedElements + UInt64.ofNat data.length
          droppedElements := live.stats.droppedElements + UInt64.ofNat (front + skip + stale)
          depthHigh := max live.stats.depthHigh live.depth } }
  { q with stats := { q.stats with pushMaxNs := max q.stats.pushMaxNs elapsedNs } }

/-- mirrors macos/receiver/audio_pcm_queue.h:70-84 -/
def pop (q : Queue) (capacityElements : Nat) : Queue × List Int16 :=
  let take := min capacityElements q.depth
  if take ≠ 0 then
    let first := min take (q.capacity - q.head)
    let out := (q.buffer.drop q.head).take first ++
      if take > first then q.buffer.take (take - first) else []
    ({ q with
       head := (q.head + take) % q.capacity
       depth := q.depth - take
       stats := { q.stats with poppedElements := q.stats.poppedElements + UInt64.ofNat take } }, out)
  else if capacityElements ≠ 0 then
    ({ q with stats := { q.stats with underruns := q.stats.underruns + 1 } }, [])
  else (q, [])

/-- mirrors macos/receiver/audio_pcm_queue.h:88-93 -/
def clear (q : Queue) : Queue :=
  { q with
    head := 0
    depth := 0
    stats := { q.stats with droppedElements := q.stats.droppedElements + UInt64.ofNat q.depth } }

/-! ## The list it stands for -/

/-- The queued samples with the counts of all that was offered, handed out and
lost, and of the pops that found nothing. -/
structure Pcm where
  items : List Int16 := []
  pushed : Nat := 0
  popped : Nat := 0
  dropped : Nat := 0
  underruns : Nat := 0

/-- The newest `capacity`, and of these the newest `target` when they are over
the high water mark. -/
def keep (capacity highWater target : Nat) (l : List Int16) : List Int16 :=
  if (l.rtake capacity).length > highWater then (l.rtake capacity).rtake target
  else l.rtake capacity

namespace Pcm

def push (capacity highWater target : Nat) (a : Pcm) (data : List Int16) : Pcm :=
  let kept := keep capacity highWater target (a.items ++ data)
  { a with
    items := kept
    pushed := a.pushed + data.length
    dropped := a.dropped + (a.items.length + data.length - kept.length) }

def pop (a : Pcm) (n : Nat) : Pcm × List Int16 :=
  ({ a with
     items := a.items.drop n
     popped := a.popped + min n a.items.length
     underruns := a.underruns + if n ≠ 0 ∧ a.items = [] then 1 else 0 }, a.items.take n)

def clear (a : Pcm) : Pcm := { a with items := [], dropped := a.dropped + a.items.length }

end Pcm

/-! ## The ring -/

def contents (q : Queue) : List Int16 := window q.buffer q.head q.depth

structure Inv (q : Queue) : Prop where
  buffer : q.buffer.length = q.capacity
  head : q.head < q.capacity
  depth : q.depth ≤ q.capacity
  live : q.depth ≤ q.highWater
  target : q.target ≤ q.highWater

/-- Before the live policy ran the depth may be over the high water mark. -/
structure RingInv (q : Queue) : Prop where
  buffer : q.buffer.length = q.capacity
  head : q.head < q.capacity
  depth : q.depth ≤ q.capacity

theorem Inv.ring {q : Queue} (h : Inv q) : RingInv q := ⟨h.buffer, h.head, h.depth⟩

theorem contents_length {q : Queue} (h : RingInv q) : (contents q).length = q.depth :=
  window_length (h.buffer ▸ h.depth)

theorem dropFront_contents {q : Queue} (h : RingInv q) (n : Nat) :
    RingInv (dropFrontLocked q n).1 ∧
      contents (dropFrontLocked q n).1 = (contents q).drop n ∧
      (dropFrontLocked q n).2 = min n q.depth := by
  have hb := h.buffer
  have hd := h.depth
  refine ⟨⟨hb, Nat.mod_lt _ (by have := h.head; omega), ?_⟩, ?_, rfl⟩
  · simp only [dropFrontLocked]
    omega
  · simp only [contents, dropFrontLocked]
    rw [← hb, window_drop (by omega) (by omega)]
    by_cases hn : n ≤ q.depth
    · rw [Nat.min_eq_left hn]
    · rw [List.drop_eq_nil_of_le (by rw [window_length] <;> omega),
        List.drop_eq_nil_of_le (by rw [window_length] <;> omega)]

theorem append_buffer {q : Queue} (h : RingInv q) (data : List Int16) :
    (appendLocked q data).buffer = write q.buffer ((q.head + q.depth) % q.buffer.length) data := by
  simp only [appendLocked, write, h.buffer]

theorem append_contents {q : Queue} (h : RingInv q) (data : List Int16)
    (hfit : q.depth + data.length ≤ q.capacity) :
    let q' := { appendLocked q data with depth := q.depth + data.length }
    RingInv q' ∧ contents q' = contents q ++ data := by
  have hb := h.buffer
  have hh := h.head
  refine ⟨⟨?_, hh, hfit⟩, ?_⟩
  · show (appendLocked q data).buffer.length = q.capacity
    rw [append_buffer h, write_length (Nat.mod_lt _ (by omega)).le (by omega), hb]
  · show window (appendLocked q data).buffer q.head (q.depth + data.length) = _
    rw [append_buffer h, window_write (by omega) (by omega)]
    rfl

/-- The ring after the copy: the newest `capacity` samples. -/
def filled (q : Queue) (data : List Int16) : Queue :=
  let room := (makeRoom q data.length).1
  let tail := data.drop (skipped room data.length)
  { appendLocked room tail with depth := room.depth + tail.length }

theorem makeRoom_eq (q : Queue) (n : Nat) (hd : q.depth ≤ q.capacity) :
    makeRoom q n = dropFrontLocked q (q.depth + n - q.capacity) ∨
      (makeRoom q n = (q, 0) ∧ q.depth + n ≤ q.capacity) := by
  unfold makeRoom
  split
  · have htake : min (min q.depth (n - (q.capacity - q.depth))) q.depth =
        min (q.depth + n - q.capacity) q.depth := by omega
    exact Or.inl (by simp only [dropFrontLocked, htake])
  · exact Or.inr ⟨rfl, by omega⟩

theorem makeRoom_contents {q : Queue} (h : RingInv q) (n : Nat) :
    RingInv (makeRoom q n).1 ∧
      contents (makeRoom q n).1 = (contents q).drop (q.depth + n - q.capacity) ∧
      (makeRoom q n).2 = min (q.depth + n - q.capacity) q.depth ∧
      (makeRoom q n).1.depth = q.depth - (q.depth + n - q.capacity) ∧
      (makeRoom q n).1.capacity = q.capacity := by
  rcases makeRoom_eq q n h.depth with he | ⟨he, hle⟩
  · rw [he]
    obtain ⟨hr, hc, hn⟩ := dropFront_contents h (q.depth + n - q.capacity)
    refine ⟨hr, hc, hn, ?_, rfl⟩
    simp only [dropFrontLocked]
    omega
  · rw [he, Nat.sub_eq_zero_of_le hle]
    exact ⟨h, by simp, by simp, by simp, rfl⟩

theorem filled_contents {q : Queue} (h : RingInv q) (data : List Int16) :
    RingInv (filled q data) ∧
      contents (filled q data) = (contents q ++ data).rtake q.capacity ∧
      (makeRoom q data.length).2 + skipped (makeRoom q data.length).1 data.length +
        (filled q data).depth = q.depth + data.length := by
  obtain ⟨hr, hc, hn, hd, hcap⟩ := makeRoom_contents h data.length
  have hq := h.depth
  -- all that does not fit: first from the ring, then from the push
  have hskip : skipped (makeRoom q data.length).1 data.length =
      q.depth + data.length - q.capacity - q.depth := by
    simp only [skipped, hd, hcap]
    split <;> omega
  have hfit : (makeRoom q data.length).1.depth +
      (data.drop (skipped (makeRoom q data.length).1 data.length)).length ≤
      (makeRoom q data.length).1.capacity := by
    rw [hskip, List.length_drop, hd, hcap]
    omega
  obtain ⟨hr', hc'⟩ := append_contents hr _ hfit
  refine ⟨hr', ?_, ?_⟩
  · refine hc'.trans ?_
    rw [hc, hskip, List.rtake, List.drop_append, List.length_append, contents_length h]
  · simp only [filled]
    rw [hskip, List.length_drop, hd, hn]
    omega

theorem backToTarget_contents {q : Queue} (h : RingInv q) (ht : q.target ≤ q.highWater) :
    Inv (backToTarget q).1 ∧
      contents (backToTarget q).1 =
        (if (contents q).length > q.highWater then (contents q).rtake q.target else contents q) ∧
      (backToTarget q).2 + (backToTarget q).1.depth = q.depth := by
  rw [contents_length h, backToTarget]
  by_cases hhigh : q.depth > q.highWater
  · rw [if_pos ⟨hhigh, by omega⟩, if_pos hhigh]
    obtain ⟨hr, hc, hn⟩ := dropFront_contents h (q.depth - q.target)
    refine ⟨⟨hr.buffer, hr.head, hr.depth, ?_, ht⟩, ?_, ?_⟩
    · simp only [dropFrontLocked]
      omega
    · rw [hc, List.rtake, contents_length h]
    · simp only [dropFrontLocked]
      omega
  · rw [if_neg (fun hc => hhigh hc.1), if_neg hhigh]
    exact ⟨⟨h.buffer, h.head, h.depth, Nat.le_of_not_lt hhigh, ht⟩, rfl, by simp⟩

/-- The copies and drops leave the bounds and the counters alone. -/
theorem live_fields (q : Queue) (data : List Int16) :
    (filled q data).capacity = q.capacity ∧ (filled q data).target = q.target ∧
      (filled q data).highWater = q.highWater ∧
      (backToTarget (filled q data)).1.stats = q.stats := by
  have hroom : (makeRoom q data.length).1.capacity = q.capacity ∧
      (makeRoom q data.length).1.target = q.target ∧
      (makeRoom q data.length).1.highWater = q.highWater ∧
      (makeRoom q data.length).1.stats = q.stats := by
    unfold makeRoom
    split <;> exact ⟨rfl, rfl, rfl, rfl⟩
  refine ⟨hroom.1, hroom.2.1, hroom.2.2.1, ?_⟩
  unfold backToTarget
  split <;> exact hroom.2.2.2

/-! ## Refinement -/

/-- The ring holds the list, its counters are the list's modulo 2^64, and no
sample is unaccounted for. -/
structure Refines (q : Queue) (a : Pcm) : Prop where
  inv : Inv q
  items : contents q = a.items
  pushed : q.stats.pushedElements = UInt64.ofNat a.pushed
  popped : q.stats.poppedElements = UInt64.ofNat a.popped
  dropped : q.stats.droppedElements = UInt64.ofNat a.dropped
  underruns : q.stats.underruns = UInt64.ofNat a.underruns
  total : a.pushed = a.dropped + a.popped + a.items.length

theorem Refines.depth {q : Queue} {a : Pcm} (h : Refines q a) : q.depth = a.items.length := by
  rw [← h.items, contents_length h.inv.ring]

theorem make_refines (c h t : Nat) : Refines (make c h t) {} := by
  refine ⟨⟨by simp [make], ?_, by simp [make], by simp [make], ?_⟩, ?_, rfl, rfl, rfl, rfl, rfl⟩
  · simp only [make]
    split <;> omega
  · simp only [make]
    omega
  · simp [contents, make, window]

theorem keep_length (c h t : Nat) (l : List Int16) : (keep c h t l).length ≤ l.length := by
  unfold keep
  split <;> simp only [List.rtake, List.length_drop] <;> omega

theorem Refines.push {q : Queue} {a : Pcm} (h : Refines q a) (data : List Int16) (ns : UInt64) :
    Refines (AudioPcmQueue.push q data ns) (a.push q.capacity q.highWater q.target data) := by
  by_cases hdata : data = []
  · subst hdata
    have hlen := h.depth
    have hlive := h.inv.live
    have hcap := h.inv.depth
    have hrt : a.items.rtake q.capacity = a.items := by
      simp [List.rtake, Nat.sub_eq_zero_of_le (hlen ▸ hcap)]
    have hkeep : keep q.capacity q.highWater q.target (a.items ++ []) = a.items := by
      rw [keep, List.append_nil, hrt, if_neg (by omega)]
    simp only [AudioPcmQueue.push, Pcm.push, hkeep, if_true, List.length_nil, Nat.add_zero,
      Nat.sub_self]
    exact ⟨⟨h.inv.buffer, h.inv.head, h.inv.depth, h.inv.live, h.inv.target⟩, h.items, h.pushed,
      h.popped, h.dropped, h.underruns, h.total⟩
  · obtain ⟨hf, hfc, hfn⟩ := filled_contents h.inv.ring data
    obtain ⟨hcap, htarget, hhigh, hstats⟩ := live_fields q data
    obtain ⟨hb, hbc, hbn⟩ := backToTarget_contents hf (by rw [htarget, hhigh]; exact h.inv.target)
    have hitems : contents (backToTarget (filled q data)).1 =
        keep q.capacity q.highWater q.target (a.items ++ data) := by
      rw [hbc, hfc, htarget, hhigh, h.items, keep]
    have hkept : (backToTarget (filled q data)).1.depth =
        (keep q.capacity q.highWater q.target (a.items ++ data)).length := by
      rw [← hitems, contents_length hb.ring]
    have hle := keep_length q.capacity q.highWater q.target (a.items ++ data)
    rw [List.length_append] at hle
    -- what was lost is what is missing
    have hlost : (makeRoom q data.length).2 + skipped (makeRoom q data.length).1 data.length +
        (backToTarget (filled q data)).2 = a.items.length + data.length -
          (keep q.capacity q.highWater q.target (a.items ++ data)).length := by
      rw [← hkept, ← h.depth]
      omega
    have hpush : AudioPcmQueue.push q data ns = { (backToTarget (filled q data)).1 with
        stats := { q.stats with
          pushedElements := q.stats.pushedElements + UInt64.ofNat data.length
          droppedElements := q.stats.droppedElements + UInt64.ofNat (a.items.length + data.length -
            (keep q.capacity q.highWater q.target (a.items ++ data)).length)
          depthHigh := max q.stats.depthHigh (backToTarget (filled q data)).1.depth
          pushMaxNs := max q.stats.pushMaxNs ns } } := by
      rw [← hlost, ← hstats]
      simp only [AudioPcmQueue.push, hdata, if_false]
      rfl
    rw [hpush]
    refine ⟨⟨hb.buffer, hb.head, hb.depth, hb.live, hb.target⟩, hitems, ?_, h.popped, ?_,
      h.underruns, ?_⟩
    · simp only [Pcm.push, h.pushed, UInt64.ofNat_add]
    · simp only [Pcm.push, h.dropped, UInt64.ofNat_add]
    · have := h.total
      simp only [Pcm.push]
      omega

theorem Refines.pop {q : Queue} {a : Pcm} (h : Refines q a) (n : Nat) :
    Refines (AudioPcmQueue.pop q n).1 (a.pop n).1 ∧ (AudioPcmQueue.pop q n).2 = (a.pop n).2 := by
  have hlen := h.depth
  have hb := h.inv.buffer
  have hh := h.inv.head
  have hd := h.inv.depth
  have htotal := h.total
  by_cases htake : min n q.depth = 0
  · by_cases hn : n = 0
    · subst hn
      have hpop : AudioPcmQueue.pop q 0 = (q, []) := by simp [AudioPcmQueue.pop]
      rw [hpop]
      refine ⟨⟨h.inv, by simpa [Pcm.pop] using h.items, h.pushed, ?_, h.dropped, ?_, ?_⟩, by simp [Pcm.pop]⟩
      · simpa [Pcm.pop] using h.popped
      · simpa [Pcm.pop] using h.underruns
      · simpa [Pcm.pop] using h.total
    · have hitems : a.items = [] := List.length_eq_zero_iff.mp (by omega)
      have hpop : AudioPcmQueue.pop q n =
          ({ q with stats := { q.stats with underruns := q.stats.underruns + 1 } }, []) := by
        rw [AudioPcmQueue.pop, if_neg (by omega), if_pos hn]
      rw [hpop]
      refine ⟨⟨⟨hb, hh, hd, h.inv.live, h.inv.target⟩, ?_, h.pushed, ?_, h.dropped, ?_, ?_⟩, ?_⟩
      · show contents q = _
        rw [h.items]
        simp [Pcm.pop, hitems]
      · simpa [Pcm.pop, hitems] using h.popped
      · simp [Pcm.pop, hitems, hn, h.underruns, UInt64.ofNat_add]
      · simpa [Pcm.pop, hitems] using htotal
      · simp [Pcm.pop, hitems]
  · have hout : (AudioPcmQueue.pop q n).2 = (contents q).take n := by
      have htn : (contents q).take n = window q.buffer q.head (min n q.depth) := by
        rw [window_take (Nat.min_le_right n q.depth), ← contents, ← contents_length h.inv.ring,
          ← List.take_eq_take_min]
      rw [htn, window_read (by omega) (by omega), AudioPcmQueue.pop, if_pos htake, hb]
      have hfirst : (q.buffer.drop q.head).take (min (min n q.depth) (q.capacity - q.head)) =
          (q.buffer.drop q.head).take (min n q.depth) := by
        rw [List.take_eq_take_min (i := min n q.depth), List.length_drop, hb]
      simp only [hfirst]
      split
      · have hmin : min (min n q.depth) (q.capacity - q.head) = q.capacity - q.head := by omega
        rw [hmin]
      · rw [Nat.sub_eq_zero_of_le (by omega), List.take_zero]
    have hpop : (AudioPcmQueue.pop q n).1 =
        { (dropFrontLocked q n).1 with
          stats := { q.stats with
            poppedElements := q.stats.poppedElements + UInt64.ofNat (min n q.depth) } } := by
      rw [AudioPcmQueue.pop, if_pos htake]
      rfl
    obtain ⟨hr, hc, -⟩ := dropFront_contents h.inv.ring n
    have hne : a.items ≠ [] := by
      intro hnil
      rw [hnil] at hlen
      simp at hlen
      omega
    rw [hpop, hout]
    refine ⟨⟨⟨hr.buffer, hr.head, hr.depth, ?_, h.inv.target⟩, ?_, h.pushed, ?_, h.dropped, ?_, ?_⟩, ?_⟩
    · have := h.inv.live
      simp only [dropFrontLocked]
      omega
    · exact hc.trans (by rw [h.items]; rfl)
    · simp only [Pcm.pop, h.popped, hlen, UInt64.ofNat_add]
    · simpa [Pcm.pop, hne] using h.underruns
    · simp only [Pcm.pop, List.length_drop]
      omega
    · rw [h.items]
      rfl

theorem Refines.clear {q : Queue} {a : Pcm} (h : Refines q a) :
    Refines (AudioPcmQueue.clear q) a.clear := by
  have hlen := h.depth
  have htotal := h.total
  refine ⟨⟨h.inv.buffer, Nat.zero_lt_of_lt h.inv.head, Nat.zero_le _, Nat.zero_le _, h.inv.target⟩,
    by simp [contents, AudioPcmQueue.clear, window, Pcm.clear], h.pushed, h.popped, ?_, h.underruns, ?_⟩
  · simp only [AudioPcmQueue.clear, Pcm.clear, h.dropped, hlen, UInt64.ofNat_add]
  · simp only [Pcm.clear, List.length_nil]
    omega

/-! ## Every sequence of calls -/

inductive Op where
  | push (data : List Int16) (elapsedNs : UInt64)
  | pop (capacityElements : Nat)
  | clear

def exec (q : Queue) : Op → Queue
  | .push data ns => push q data ns
  | .pop n => (pop q n).1
  | .clear => clear q

/-- What the call hands out. -/
def handed (q : Queue) : Op → List Int16
  | .pop n => (pop q n).2
  | _ => []

namespace Pcm

def exec (c h t : Nat) (a : Pcm) : Op → Pcm
  | .push data _ => a.push c h t data
  | .pop n => (a.pop n).1
  | .clear => a.clear

def handed (a : Pcm) : Op → List Int16
  | .pop n => (a.pop n).2
  | _ => []

end Pcm

theorem Refines.exec {q : Queue} {a : Pcm} (h : Refines q a) (op : Op) :
    Refines (AudioPcmQueue.exec q op) (a.exec q.capacity q.highWater q.target op) ∧
      AudioPcmQueue.handed q op = a.handed op := by
  cases op with
  | push data ns => exact ⟨h.push data ns, rfl⟩
  | pop n => exact h.pop n
  | clear => exact ⟨h.clear, rfl⟩

theorem exec_params (q : Queue) (op : Op) : (exec q op).capacity = q.capacity ∧
    (exec q op).highWater = q.highWater ∧ (exec q op).target = q.target := by
  cases op with
  | clear => exact ⟨rfl, rfl, rfl⟩
  | pop n =>
    simp only [exec, pop]
    split
    · exact ⟨rfl, rfl, rfl⟩
    · split <;> exact ⟨rfl, rfl, rfl⟩
  | push data ns =>
    obtain ⟨hc, ht, hh, -⟩ := live_fields q data
    have hlive : (backToTarget (filled q data)).1.capacity = q.capacity ∧
        (backToTarget (filled q data)).1.highWater = q.highWater ∧
        (backToTarget (filled q data)).1.target = q.target := by
      unfold backToTarget
      split <;> exact ⟨hc, hh, ht⟩
    simp only [exec, push]
    split
    · exact ⟨rfl, rfl, rfl⟩
    · exact hlive

theorem run_capacity (q : Queue) (ops : List Op) : (ops.foldl exec q).capacity = q.capacity := by
  induction ops generalizing q with
  | nil => rfl
  | cons op ops ih => exact (ih (exec q op)).trans (exec_params q op).1

theorem Refines.run {q : Queue} {a : Pcm} (h : Refines q a) (ops : List Op) :
    Refines (ops.foldl AudioPcmQueue.exec q)
        (ops.foldl (Pcm.exec q.capacity q.highWater q.target) a) ∧
      collect AudioPcmQueue.exec AudioPcmQueue.handed q ops =
        collect (Pcm.exec q.capacity q.highWater q.target) Pcm.handed a ops := by
  induction ops generalizing q a with
  | nil => exact ⟨h, rfl⟩
  | cons op ops ih =>
    obtain ⟨hstep, hout⟩ := h.exec op
    obtain ⟨hc, hh, ht⟩ := exec_params q op
    have hrest := ih hstep
    rw [hc, hh, ht] at hrest
    exact ⟨hrest.1, by rw [collect, collect, hout, hrest.2]⟩

/-- Whatever the constructor was given and whatever the calls: the ring is the
list, every pop gives what the list gives, the indices stay in the buffer, and
the counters count what the list's do. -/
theorem refines_list (capacityElements highWaterElements targetElements : Nat) (ops : List Op) :
    let q₀ := make capacityElements highWaterElements targetElements
    let q := ops.foldl exec q₀
    let a := ops.foldl (Pcm.exec q₀.capacity q₀.highWater q₀.target) {}
    contents q = a.items ∧
    collect exec handed q₀ ops =
      collect (Pcm.exec q₀.capacity q₀.highWater q₀.target) Pcm.handed {} ops ∧
    q.buffer.length = q₀.capacity ∧ q.head < q₀.capacity ∧ q.depth ≤ q₀.capacity ∧
    UInt64.ofNat q.depth =
      q.stats.pushedElements - q.stats.droppedElements - q.stats.poppedElements ∧
    a.items.length = a.pushed - a.dropped - a.popped ∧
    q.stats.pushedElements = UInt64.ofNat a.pushed ∧
    q.stats.poppedElements = UInt64.ofNat a.popped ∧
    q.stats.droppedElements = UInt64.ofNat a.dropped ∧
    q.stats.underruns = UInt64.ofNat a.underruns := by
  intro q₀ q a
  obtain ⟨h, hout⟩ := (make_refines capacityElements highWaterElements targetElements).run ops
  have hcap : q.capacity = q₀.capacity := run_capacity q₀ ops
  have htotal : a.pushed = a.dropped + a.popped + a.items.length := h.total
  refine ⟨h.items, hout, h.inv.buffer.trans hcap, hcap ▸ h.inv.head, hcap ▸ h.inv.depth, ?_, by omega,
    h.pushed, h.popped, h.dropped, h.underruns⟩
  rw [h.pushed, h.popped, h.dropped, htotal, UInt64.ofNat_add, UInt64.ofNat_add, h.depth]
  grind

end KmVirtualCamera.L2.AudioPcmQueue
