import Mathlib
import KmVirtualCamera.L2Machine.Twcc

/-!
# The times a feedback packet gives

A sender reads the time of a packet as the reference time, in units of 64 ms,
plus the deltas up to it, in units of 250 µs; the reference has 24 bits, so
times are known up to a multiple of `wrapUs`. `buildFeedbackPacket` truncates
each delta by itself: what one delta loses is not made up for by the next, and
the time read is off by the sum of the `remainders` so far.

* `times_within_unit`: every time read is within one unit of the arrival
  exactly if every such sum is.
* `drifting_misread`: three arrivals for which it is not.
-/
namespace KmVirtualCamera.L2.Twcc
open KmVirtualCamera.L1.TwccFeedback

def wrapUs : Int := 2 ^ 24 * 64000

/-- The times of the packets received, from the time `now` on. -/
def arrivalTimes : Int → List (Nat × Int) → List (Option Int)
  | _, [] => []
  | now, (0, _) :: later => none :: arrivalTimes now later
  | now, (_ + 1, units) :: later => some (now + units * 250) :: arrivalTimes (now + units * 250) later

/-- The times as the sender reads them. -/
def readTimes (f : Feedback) : List (Option Int) := arrivalTimes (f.referenceTime * 64000) f.statuses

/-- What each delta leaves over; `prev` is the arrival before. -/
def remainders : Option Int → List Int → List Int
  | _, [] => []
  | none, t :: later => (t - t.tdiv 64000 * 64000).tmod 250 :: remainders (some t) later
  | some p, t :: later => (t - p).tmod 250 :: remainders (some t) later

/-- The differences of consecutive arrivals are 16-bit counts of units. -/
def DeltaFits (p t : Int) : Prop := -32768 ≤ (t - p).tdiv 250 ∧ (t - p).tdiv 250 ≤ 32767

theorem received_units {units : Int} (h : -32768 ≤ units ∧ units ≤ 32767) :
    (received units).deltaUnits = units := by
  unfold received
  split
  · rfl
  · show max (-32768) (min 32767 units) = units
    omega

theorem arrivalTimes_received {units : Int} (h : -32768 ≤ units ∧ units ≤ 32767) (now : Int)
    (later : List (Nat × Int)) :
    arrivalTimes now (((received units).status, (received units).deltaUnits) :: later) =
      some (now + units * 250) :: arrivalTimes (now + units * 250) later := by
  have hne := received_status units
  rw [received_units h]
  cases hs : (received units).status with
  | zero => exact absurd hs hne
  | succ n => rfl

/-- Every arrival is read within one unit, up to the wrap of the reference. -/
def Close (arrivals reads : List (Option Int)) : Prop :=
  ∀ (i : Nat) (t : Int), arrivals[i]? = some (some t) →
    ∃ read wraps : Int, reads[i]? = some (some read) ∧ |read + wraps * wrapUs - t| ≤ 250

theorem close_nil (reads : List (Option Int)) : Close [] reads := by
  intro i t h
  simp at h

theorem close_none (arrivals reads : List (Option Int)) :
    Close (none :: arrivals) (none :: reads) ↔ Close arrivals reads := by
  constructor
  · intro h i t hi
    exact h (i + 1) t hi
  · intro h i t hi
    cases i with
    | zero => simp at hi
    | succ i => exact h i t hi

theorem close_some (t read : Int) (arrivals reads : List (Option Int)) :
    Close (some t :: arrivals) (some read :: reads) ↔
      (∃ wraps : Int, |read + wraps * wrapUs - t| ≤ 250) ∧ Close arrivals reads := by
  constructor
  · intro h
    obtain ⟨read', wraps, hread, hclose⟩ := h 0 t rfl
    have hread : read = read' := by simpa using hread
    rw [← hread] at hclose
    exact ⟨⟨wraps, hclose⟩, fun i t hi => h (i + 1) t hi⟩
  · rintro ⟨⟨wraps, hclose⟩, hlater⟩ i u hi
    cases i with
    | zero =>
      have hu : t = u := by simpa using hi
      rw [← hu]
      exact ⟨read, wraps, rfl, hclose⟩
    | succ i => exact hlater i u hi

/-- A small error stays what it is up to wraps. -/
theorem wraps_iff {t e w : Int} (he : |e| ≤ 500) :
    (∃ wraps : Int, |t - (e + w * wrapUs) + wraps * wrapUs - t| ≤ 250) ↔ |e| ≤ 250 := by
  constructor
  · rintro ⟨wraps, h⟩
    have hw : wrapUs = 1073741824000 := rfl
    rw [hw] at h
    rw [abs_le] at h he ⊢
    have hzero : wraps = w := by
      by_contra hne
      rcases lt_or_gt_of_ne hne with hlt | hgt
      · nlinarith
      · nlinarith
    subst hzero
    constructor <;> linarith
  · intro h
    refine ⟨w, ?_⟩
    rw [show t - (e + w * wrapUs) + w * wrapUs - t = -e by ring, abs_neg]
    exact h

theorem remainder_le {x : Int} : |x.tmod 250| ≤ 249 := by
  have hlt : (x.tmod 250).natAbs < 250 := by
    rw [Int.natAbs_tmod]
    exact Nat.mod_lt _ (by decide)
  rw [abs_le]
  omega

/-- The running sums, one step on. -/
theorem sums_cons {e r : Int} {l : List Int} (he : |e| ≤ 250) :
    (∀ k, |e + ((r :: l).take k).sum| ≤ 250) ↔ ∀ k, |e + r + (l.take k).sum| ≤ 250 := by
  constructor
  · intro h k
    have := h (k + 1)
    rw [List.take_succ_cons, List.sum_cons, ← add_assoc] at this
    exact this
  · intro h k
    cases k with
    | zero => simpa using he
    | succ k =>
      rw [List.take_succ_cons, List.sum_cons, ← add_assoc]
      exact h k

def pair (s : PacketStatus) : Nat × Int := (s.status, s.deltaUnits)

/-- One packet received: the error grows by the remainder. -/
theorem close_step {p t e w : Int} {l : List (Option Int)} (later : List (Nat × Int)) (he : |e| ≤ 250)
    (hfit : DeltaFits p t) :
    Close (some t :: l) (arrivalTimes (p - (e + w * wrapUs)) (pair (received ((t - p).tdiv 250)) :: later)) ↔
      |e + (t - p).tmod 250| ≤ 250 ∧
        Close l (arrivalTimes (t - (e + (t - p).tmod 250 + w * wrapUs)) later) := by
  have hr := remainder_le (x := t - p)
  have hnow : p - (e + w * wrapUs) + (t - p).tdiv 250 * 250 =
      t - (e + (t - p).tmod 250 + w * wrapUs) := by
    have := Int.tmod_add_tdiv_mul (t - p) 250
    linarith
  rw [pair, arrivalTimes_received hfit, hnow, close_some, wraps_iff (by rw [abs_le] at *; omega)]

theorem close_from : ∀ {l : List (Option Int)} {p e w : Int}, |e| ≤ 250 →
    (p :: l.reduceOption).IsChain DeltaFits →
    (Close l (arrivalTimes (p - (e + w * wrapUs)) ((statusesFrom (some p) l).map pair)) ↔
      ∀ k, |e + ((remainders (some p) l.reduceOption).take k).sum| ≤ 250)
  | [], p, e, w, he, _ => by
    refine iff_of_true (close_nil _) ?_
    intro k
    simpa [remainders] using he
  | none :: l, p, e, w, he, hfit => by
    have ih := close_from (l := l) (w := w) he (by simpa using hfit)
    rw [List.reduceOption_cons_of_none, ← ih]
    exact close_none l _
  | some t :: l, p, e, w, he, hfit => by
    rw [List.reduceOption_cons_of_some, List.isChain_cons_cons] at hfit
    rw [List.reduceOption_cons_of_some, remainders, sums_cons he, statusesFrom, List.map_cons,
      close_step _ he hfit.1]
    constructor
    · rintro ⟨herr, hlater⟩
      exact (close_from herr hfit.2).mp hlater
    · intro h
      have herr : |e + (t - p).tmod 250| ≤ 250 := by simpa using h 0
      exact ⟨herr, (close_from herr hfit.2).mpr h⟩

/-- The first packet received sets the reference. -/
theorem close_start : ∀ {l : List (Option Int)} {now : Int},
    (∀ t, l.reduceOption.head? = some t → ∃ w, now = t.tdiv 64000 * 64000 - w * wrapUs) →
    (∀ t ∈ l.reduceOption, 0 ≤ t) → l.reduceOption.IsChain DeltaFits →
    (Close l (arrivalTimes now ((statusesFrom none l).map pair)) ↔
      ∀ k, |((remainders none l.reduceOption).take k).sum| ≤ 250)
  | [], now, _, _, _ => iff_of_true (close_nil _) fun k => by simp [remainders]
  | none :: l, now, hnow, hpos, hfit => by
    have ih := @close_start l now (by simpa using hnow) (by simpa using hpos) (by simpa using hfit)
    rw [List.reduceOption_cons_of_none, ← ih]
    exact close_none l _
  | some t :: l, now, hnow, hpos, hfit => by
    rw [List.reduceOption_cons_of_some] at hnow hpos hfit ⊢
    obtain ⟨w, rfl⟩ := hnow t rfl
    have ht : 0 ≤ t := hpos t List.mem_cons_self
    -- The reference is the multiple of 64 ms below the first arrival.
    have href : t.tdiv 64000 * 64000 = t / 64000 * 64000 := by rw [Int.tdiv_eq_ediv_of_nonneg ht]
    have hfit₀ : DeltaFits (t.tdiv 64000 * 64000) t := by
      unfold DeltaFits
      rw [href, Int.tdiv_eq_ediv_of_nonneg (by omega)]
      omega
    have herr : |(t - t.tdiv 64000 * 64000).tmod 250| ≤ 250 := by
      have := remainder_le (x := t - t.tdiv 64000 * 64000)
      omega
    have hstep := close_step (e := 0) (w := w) (l := l) ((statusesFrom (some t) l).map pair)
      (by decide) hfit₀
    have hsums := sums_cons (e := 0) (r := (t - t.tdiv 64000 * 64000).tmod 250)
      (l := remainders (some t) l.reduceOption) (by decide)
    simp only [zero_add] at hstep hsums
    rw [statusesFrom, List.map_cons, hstep, remainders, hsums]
    constructor
    · rintro ⟨-, hlater⟩
      exact (close_from herr hfit).mp hlater
    · intro h
      exact ⟨herr, (close_from herr hfit).mpr h⟩

/-- **Accuracy.** Take a packet whose arrivals are not negative and whose
consecutive differences fit in 16 bits. Every packet it marks received is read
within one unit of 250 µs of its arrival if and only if, at every packet, what
the deltas so far have left over adds up to at most one unit. -/
theorem times_within_unit {s s' : TwccReceiver} {senderSsrc mediaSsrc : UInt32} {p : Bytes}
    (hbuild : buildFeedbackPacket s senderSsrc mediaSsrc = (s', p)) (hp : p ≠ [])
    (hpos : ∀ t ∈ (times s).reduceOption, 0 ≤ t) (hfit : (times s).reduceOption.IsChain DeltaFits) :
    ∃ f, decodeFeedback p = some f ∧ (Close (times s) (readTimes f) ↔
      ∀ k, |((remainders none (times s).reduceOption).take k).sum| ≤ 250) := by
  obtain ⟨-, -, -, -, hdecode⟩ := build_packet hbuild hp
  refine ⟨feedback s, hdecode, close_start ?_ hpos hfit⟩
  intro t ht
  -- The 24 bits of the reference.
  have href : (scan (times s)).referenceTimeUs = t.tdiv 64000 * 64000 := by
    unfold scan
    rw [(scan_reference (times s) {}).2, ht]
    rfl
  refine ⟨t.tdiv 64000 / 2 ^ 24, ?_⟩
  unfold feedback wrapUs
  rw [href]
  simp only
  have hq : (t.tdiv 64000 * 64000).tdiv 64000 = t.tdiv 64000 := Int.mul_tdiv_cancel _ (by decide)
  rw [hq]
  omega

/-- Packets 0, 1 and 2, so many µs apart. -/
def spaced (us : Int) : TwccReceiver := onPacket (onPacket (onPacket {} 0 0 100) 1 us 100) 2 (2 * us) 100

/-- Whole units. -/
theorem times_within_unit_whole :
    ∃ f, decodeFeedback (buildFeedbackPacket (spaced 1000) 1 2).2 = some f ∧
      Close (times (spaced 1000)) (readTimes f) := by
  have htimes : (times (spaced 1000)).reduceOption = [0, 1000, 2000] := by decide
  obtain ⟨f, hf, hclose⟩ := @times_within_unit (spaced 1000) _ 1 2 _ rfl (by decide)
    (by rw [htimes]; decide) (by rw [htimes]; simp [DeltaFits])
  refine ⟨f, hf, hclose.mpr ?_⟩
  intro k
  rw [htimes, show remainders none [0, 1000, 2000] = [0, 0, 0] by decide]
  have hzero : ∀ n : Nat, ((List.replicate n (0 : Int)).take k).sum = 0 := by
    intro n
    simp [List.take_replicate]
  rw [show [(0 : Int), 0, 0] = List.replicate 3 0 from rfl, hzero 3]
  decide

/-- At 249 µs all three are read as having arrived at once. -/
theorem drifting_misread :
    ∃ f, decodeFeedback (buildFeedbackPacket (spaced 249) 1 2).2 = some f ∧
      times (spaced 249) = [some 0, some 249, some 498] ∧ readTimes f = [some 0, some 0, some 0] ∧
      ¬ Close (times (spaced 249)) (readTimes f) := by
  have htimes : times (spaced 249) = [some 0, some 249, some 498] := by decide
  have hread : readTimes (feedback (spaced 249)) = [some 0, some 0, some 0] := by decide
  refine ⟨feedback (spaced 249), ?_, htimes, hread, ?_⟩
  · exact (build_packet (p := (buildFeedbackPacket (spaced 249) 1 2).2) rfl (by decide)).2.2.2.2
  · intro h
    rw [htimes, hread] at h
    obtain ⟨read, wraps, heq, hclose⟩ := h 2 498 rfl
    have heq : 0 = read := by simpa using heq
    rw [← heq, abs_le, show wrapUs = 1073741824000 from rfl] at hclose
    omega

end KmVirtualCamera.L2.Twcc
