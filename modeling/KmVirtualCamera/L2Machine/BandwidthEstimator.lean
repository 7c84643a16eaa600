import Mathlib
import KmVirtualCamera.Core.LTS
import KmVirtualCamera.Core.Single

/-!
# The bandwidth estimate (`BandwidthEstimator`)

A packet is compared with the one that arrived before it: a step of 2 to 2999
numbers counts all but one of them as lost. A late packet becomes what the next
one is compared with, so the numbers between are counted although they arrived.

* `gaps`: what is counted over a sequence of arrivals.
* `lossless_iff`: where nothing is lost, when the ratio is 0.
* `sound_after`: what is counted over a run, unless a number is counted that is
  received in the window.

The atomics are plain fields, as one thread runs both functions; `float` is
`Float32`. Packets are given their full numbers, of which `seqNum` is the low
part; `window` is what has been seen since the last evaluation, and the last
number before it.
-/
namespace KmVirtualCamera.L2.BandwidthEstimator

/-- mirrors shared/receiver/rtc/bandwidth_estimator.h:11-17 -/
structure Config where
  minBitrateBps : UInt32 := 1000000
  maxBitrateBps : UInt32 := 2800000
  startBitrateBps : UInt32 := 2500000
  windowDurationMs : Int := 1000
  lossThresholdDecrease : Float32 := 0.04

/-- mirrors shared/receiver/rtc/bandwidth_estimator.h:45-57 -/
structure Estimator where
  currentBitrateEstimateBps : UInt32
  measuredThroughputBps : UInt32 := 0
  currentLossRatio : Float32 := 0
  windowStartTimeMs : Int := 0
  lastEvaluationTimeMs : Int := 0
  windowBytesReceived : UInt64 := 0
  windowPacketsReceived : UInt32 := 0
  windowPacketsLost : UInt32 := 0
  hasLastSeq : Bool := false
  lastSeqNum : UInt16 := 0
  consecutiveCleanWindows : Int := 0

/-- mirrors shared/receiver/rtc/bandwidth_estimator.cpp:6-23 -/
def fresh (c : Config) : Estimator := { currentBitrateEstimateBps := c.startBitrateBps }

/-- mirrors shared/receiver/rtc/bandwidth_estimator.cpp:25-42 -/
def onRtpPacketReceived (e : Estimator) (packetSize : UInt64) (seqNum : UInt16) (arrivalTimeMs : Int) : Estimator :=
  let diff := seqNum - e.lastSeqNum
  { e with
    windowStartTimeMs := if e.windowStartTimeMs = 0 then arrivalTimeMs else e.windowStartTimeMs
    windowPacketsLost := if e.hasLastSeq ∧ diff > 1 ∧ diff < 3000 then e.windowPacketsLost + (diff - 1).toUInt32
      else e.windowPacketsLost
    hasLastSeq := true
    lastSeqNum := seqNum
    windowPacketsReceived := e.windowPacketsReceived + 1
    windowBytesReceived := e.windowBytesReceived + packetSize }

/-- mirrors shared/receiver/rtc/bandwidth_estimator.cpp:44-52 -/
def onLossEventDetected (c : Config) (e : Estimator) : Estimator :=
  { e with
    currentBitrateEstimateBps := max c.minBitrateBps (e.currentBitrateEstimateBps.toFloat32 * 0.85).toUInt32
    consecutiveCleanWindows := 0 }

/-- mirrors shared/receiver/rtc/bandwidth_estimator.cpp:75-78 -/
def lossRatio (pktsRecv pktsLost : UInt32) : Float32 :=
  if pktsRecv + pktsLost > 0 then pktsLost.toFloat32 / (pktsRecv + pktsLost).toFloat32 else 0

/-- mirrors shared/receiver/rtc/bandwidth_estimator.cpp:81-102 -/
def adapt (c : Config) (e : Estimator) (lossRatio : Float32) : Estimator :=
  if lossRatio ≥ c.lossThresholdDecrease then
    { e with
      currentBitrateEstimateBps := max c.minBitrateBps (e.currentBitrateEstimateBps.toFloat32 * 0.80).toUInt32
      consecutiveCleanWindows := 0 }
  else if lossRatio == 0 then
    let cleanCount := e.consecutiveCleanWindows + 1
    { e with
      consecutiveCleanWindows := cleanCount
      currentBitrateEstimateBps := if cleanCount ≥ 2 then min c.maxBitrateBps (e.currentBitrateEstimateBps + 100000)
        else e.currentBitrateEstimateBps }
  else e

/-- The window has lasted.
mirrors shared/receiver/rtc/bandwidth_estimator.cpp:56-65 -/
def Closes (c : Config) (e : Estimator) (now : Int) : Prop :=
  e.windowStartTimeMs ≠ 0 ∧ c.windowDurationMs ≤ now - e.windowStartTimeMs

instance (c : Config) (e : Estimator) (now : Int) : Decidable (Closes c e now) :=
  inferInstanceAs (Decidable (_ ∧ _))

/-- mirrors shared/receiver/rtc/bandwidth_estimator.cpp:66-107 -/
def closeWindow (c : Config) (e : Estimator) (now : Int) : Estimator :=
  let elapsed := UInt64.ofInt (now - e.windowStartTimeMs)
  let ratio := lossRatio e.windowPacketsReceived e.windowPacketsLost
  let e := adapt c { e with
    windowBytesReceived := 0, windowPacketsReceived := 0, windowPacketsLost := 0
    measuredThroughputBps := (e.windowBytesReceived * 8 * 1000 / elapsed).toUInt32
    currentLossRatio := ratio } ratio
  { e with windowStartTimeMs := now, lastEvaluationTimeMs := now }

/-- The state, what is returned and what the output argument is set to.
mirrors shared/receiver/rtc/bandwidth_estimator.cpp:54-119 -/
def evaluateEstimation (c : Config) (e : Estimator) (now : Int) : Estimator × Bool × Option UInt32 :=
  if e.windowStartTimeMs = 0 then
    ({ e with windowStartTimeMs := now, lastEvaluationTimeMs := now }, false, some e.currentBitrateEstimateBps)
  else if Closes c e now then
    let e := closeWindow c e now
    (e, true, some e.currentBitrateEstimateBps)
  else if now - e.lastEvaluationTimeMs ≥ 1000 then
    ({ e with lastEvaluationTimeMs := now }, true, some e.currentBitrateEstimateBps)
  else (e, false, none)

/-- A packet with its full number. -/
structure Arrival where
  size : UInt64
  number : Nat
  atMs : Int

def arrive (e : Estimator) (a : Arrival) : Estimator :=
  onRtpPacketReceived e a.size (UInt16.ofNat a.number) a.atMs

def feed (c : Config) (as : List Arrival) : Estimator := as.foldl arrive (fresh c)

/-! ## What is counted -/

/-- What the step from `a` to `b` counts as lost. -/
def gap (a b : Nat) : Nat :=
  let diff := UInt16.ofNat b - UInt16.ofNat a
  if diff > 1 ∧ diff < 3000 then diff.toNat - 1 else 0

def gaps : List Nat → Nat
  | a :: b :: ns => gap a b + gaps (b :: ns)
  | _ => 0

theorem gap_le (a b : Nat) : gap a b ≤ 2998 := by
  unfold gap
  simp only
  split
  · rename_i h
    have := UInt16.lt_iff_toNat_lt.mp h.2
    change _ < 3000 at this
    omega
  · exact Nat.zero_le _

theorem gaps_le (ns : List Nat) : gaps ns ≤ 2998 * ns.length := by
  induction ns with
  | nil => exact Nat.le_refl _
  | cons a ns ih =>
    cases ns with
    | nil => exact Nat.zero_le _
    | cons b ns =>
      have := gap_le a b
      rw [gaps, List.length_cons]
      omega

theorem diff_toNat (a b : Nat) :
    (UInt16.ofNat b - UInt16.ofNat a).toNat = (65536 - a % 65536 + b % 65536) % 65536 := by
  rw [UInt16.toNat_sub, UInt16.toNat_ofNat', UInt16.toNat_ofNat']

theorem gap_eq (a b : Nat) : gap a b =
    if 1 < (65536 - a % 65536 + b % 65536) % 65536 ∧ (65536 - a % 65536 + b % 65536) % 65536 < 3000 then
      (65536 - a % 65536 + b % 65536) % 65536 - 1 else 0 := by
  unfold gap
  simp only [gt_iff_lt, UInt16.lt_iff_toNat_lt, diff_toNat]
  rfl

/-- Of two numbers near each other. -/
theorem gap_near {a b : Nat} (hab : a < b + 6000) (hba : b < a + 6000) :
    gap a b = if a + 1 < b ∧ b < a + 3000 then b - a - 1 else 0 := by
  rw [gap_eq]
  split <;> split <;> omega

/-- Of two numbers in order. -/
theorem gap_forward {a b : Nat} (h : a ≤ b) : gap a b ≤ b - a - 1 := by
  rw [gap_eq]
  split <;> omega

theorem arrive_lost {e : Estimator} {a : Nat} (hlast : e.hasLastSeq = true) (hseq : e.lastSeqNum = UInt16.ofNat a)
    (b : Arrival) : (arrive e b).windowPacketsLost = e.windowPacketsLost + UInt32.ofNat (gap a b.number) := by
  unfold arrive onRtpPacketReceived gap
  simp only [hlast, hseq, true_and]
  split
  · rename_i h
    congr 1
    apply UInt32.toNat_inj.mp
    have hle : (1 : UInt16) ≤ UInt16.ofNat b.number - UInt16.ofNat a := UInt16.le_of_lt h.1
    have hlt := UInt16.lt_iff_toNat_lt.mp h.2
    change _ < 3000 at hlt
    rw [UInt16.toNat_toUInt32, UInt16.toNat_sub_of_le _ _ hle, UInt32.toNat_ofNat']
    change _ - 1 = _
    omega
  · exact (UInt32.add_zero _).symm

theorem foldl_arrive (as : List Arrival) : ∀ {e : Estimator} {a : Nat}, e.hasLastSeq = true →
    e.lastSeqNum = UInt16.ofNat a →
      (as.foldl arrive e).windowPacketsLost =
          e.windowPacketsLost + UInt32.ofNat (gaps (a :: as.map Arrival.number)) ∧
        (as.foldl arrive e).windowPacketsReceived = e.windowPacketsReceived + UInt32.ofNat as.length ∧
        (as.foldl arrive e).currentBitrateEstimateBps = e.currentBitrateEstimateBps ∧
        (as.foldl arrive e).consecutiveCleanWindows = e.consecutiveCleanWindows := by
  induction as with
  | nil => exact fun _ _ => ⟨(UInt32.add_zero _).symm, (UInt32.add_zero _).symm, rfl, rfl⟩
  | cons b as ih =>
    intro e a hlast hseq
    obtain ⟨hlost, hreceived, hcurrent, hclean⟩ := ih (e := arrive e b) (a := b.number) rfl rfl
    refine ⟨?_, ?_, hcurrent, hclean⟩
    · rw [List.foldl_cons, hlost, arrive_lost hlast hseq, List.map_cons, gaps, UInt32.ofNat_add, UInt32.add_assoc]
    · rw [List.foldl_cons, hreceived, List.length_cons, Nat.add_comm, UInt32.ofNat_add, ← UInt32.add_assoc]
      rfl

/-! ## Nothing is lost -/

/-- `n` consecutive numbers from `s` on, the first one first, each less than
3000 places from where it belongs. -/
structure Shuffled (s n : Nat) (ns : List Nat) : Prop where
  perm : ns.Perm (List.range' s n)
  head : ∀ a ∈ ns.head?, a = s
  near : ∀ i a, ns[i]? = some a → a < s + i + 3000 ∧ s + i < a + 3000

/-- No packet is 2 to 2999 numbers after the one that came before it. -/
def NoJump (ns : List Nat) : Prop := ns.IsChain fun a b => ¬ (a + 1 < b ∧ b < a + 3000)

/-- Neighbours are near. -/
theorem Shuffled.chain {s n : Nat} {ns : List Nat} (h : Shuffled s n ns) :
    ns.IsChain fun a b => a < b + 6000 ∧ b < a + 6000 := by
  rw [List.isChain_iff_getElem]
  intro i hi
  have ha := h.near i ns[i] (List.getElem?_eq_getElem (by omega))
  have hb := h.near (i + 1) ns[i + 1] (List.getElem?_eq_getElem hi)
  omega

theorem gaps_eq_zero {ns : List Nat} (h : ns.IsChain fun a b => a < b + 6000 ∧ b < a + 6000) :
    gaps ns = 0 ↔ NoJump ns := by
  unfold NoJump
  induction ns with
  | nil => simp [gaps]
  | cons a ns ih =>
    cases ns with
    | nil => simp [gaps]
    | cons b ns =>
      rw [List.isChain_cons_cons] at h ⊢
      rw [gaps, Nat.add_eq_zero_iff, ih h.2, gap_near h.1.1 h.1.2]
      refine and_congr_left ?_
      intro _
      split
      · rename_i hjump
        exact ⟨fun hzero => by omega, fun hno => absurd hjump hno⟩
      · rename_i hno
        exact ⟨fun _ => hno, fun _ => rfl⟩

/-- What a fresh estimator has after a window of arrivals. -/
theorem feed_counts (c : Config) (as : List Arrival) :
    (feed c as).windowPacketsLost = UInt32.ofNat (gaps (as.map Arrival.number)) ∧
      (feed c as).windowPacketsReceived = UInt32.ofNat as.length ∧
      (feed c as).currentBitrateEstimateBps = c.startBitrateBps ∧ (feed c as).consecutiveCleanWindows = 0 := by
  cases as with
  | nil => exact ⟨rfl, rfl, rfl, rfl⟩
  | cons a as =>
    obtain ⟨hlost, hreceived, hcurrent, hclean⟩ :=
      foldl_arrive as (e := arrive (fresh c) a) (a := a.number) rfl rfl
    refine ⟨?_, ?_, hcurrent, hclean⟩
    · change (as.foldl arrive (arrive (fresh c) a)).windowPacketsLost = _
      rw [hlost]
      exact UInt32.zero_add _
    · change (as.foldl arrive (arrive (fresh c) a)).windowPacketsReceived = _
      rw [hreceived, List.length_cons, Nat.add_comm, UInt32.ofNat_add]
      rfl

theorem lossRatio_zero (received : UInt32) : lossRatio received 0 = 0 := by
  unfold lossRatio
  rw [UInt32.add_zero]
  split
  · rename_i h
    exact Single.zero_div (UInt32.lt_iff_toNat_lt.mp h)
  · rfl

theorem lossRatio_pos {received lost : UInt32} (hlost : 0 < lost.toNat)
    (hsum : received.toNat + lost.toNat < 2 ^ 32) : (lossRatio received lost == 0) = false := by
  have htotal : (received + lost).toNat = received.toNat + lost.toNat := by
    rw [UInt32.toNat_add, Nat.mod_eq_of_lt hsum]
  have hpos : received + lost > 0 := UInt32.lt_iff_toNat_lt.mpr (by rw [htotal]; exact Nat.lt_add_left _ hlost)
  unfold lossRatio
  rw [if_pos hpos]
  exact Single.div_ne_zero hlost (by rw [htotal]; exact Nat.lt_add_left _ hlost)

theorem adapt_ratio (c : Config) (e : Estimator) (ratio : Float32) :
    (adapt c e ratio).currentLossRatio = e.currentLossRatio := by
  unfold adapt
  split
  · rfl
  · split <;> rfl

theorem evaluate_closes {c : Config} {e : Estimator} {now : Int} (h : Closes c e now) :
    (evaluateEstimation c e now).1 = closeWindow c e now := by
  unfold evaluateEstimation
  rw [if_neg h.1, if_pos h]

theorem closeWindow_ratio (c : Config) (e : Estimator) (now : Int) :
    (closeWindow c e now).currentLossRatio = lossRatio e.windowPacketsReceived e.windowPacketsLost := by
  unfold closeWindow
  exact adapt_ratio c _ _

/-- The first clean window leaves the estimate as it is. -/
theorem closeWindow_clean {c : Config} {e : Estimator} (now : Int) (hlost : e.windowPacketsLost = 0)
    (hclean : e.consecutiveCleanWindows = 0) (hthreshold : ¬ (0 : Float32) ≥ c.lossThresholdDecrease) :
    (closeWindow c e now).currentBitrateEstimateBps = e.currentBitrateEstimateBps := by
  unfold closeWindow
  simp only [hlost, lossRatio_zero]
  unfold adapt
  rw [if_neg hthreshold]
  simp only [hclean]
  rw [if_pos (by decide)]
  rfl

theorem lossless {c : Config} {s n : Nat} {as : List Arrival} (h : Shuffled s n (as.map Arrival.number)) {now : Int}
    (hcloses : Closes c (feed c as) now) :
    (NoJump (as.map Arrival.number) →
        (evaluateEstimation c (feed c as) now).1.currentLossRatio = 0 ∧
          (¬ (0 : Float32) ≥ c.lossThresholdDecrease →
            (evaluateEstimation c (feed c as) now).1.currentBitrateEstimateBps = c.startBitrateBps)) ∧
      (n < 2 ^ 20 → ((evaluateEstimation c (feed c as) now).1.currentLossRatio == 0) = true →
        NoJump (as.map Arrival.number)) := by
  obtain ⟨hlost, hreceived, hcurrent, hclean⟩ := feed_counts c as
  have hzero := gaps_eq_zero h.chain
  rw [evaluate_closes hcloses, closeWindow_ratio, hlost, hreceived]
  constructor
  · intro hno
    rw [hzero.mpr hno] at hlost ⊢
    exact ⟨lossRatio_zero _, fun hthreshold => (closeWindow_clean now hlost hclean hthreshold).trans hcurrent⟩
  · intro hn hratio
    have hlength : as.length = n := by
      have := h.perm.length_eq
      rw [List.length_map, List.length_range'] at this
      exact this
    have hle := gaps_le (as.map Arrival.number)
    rw [List.length_map] at hle
    by_contra hjump
    have hpos : gaps (as.map Arrival.number) ≠ 0 := fun h0 => hjump (hzero.mp h0)
    have hl : (UInt32.ofNat (gaps (as.map Arrival.number))).toNat = gaps (as.map Arrival.number) :=
      UInt32.toNat_ofNat_of_lt' (by change _ < 2 ^ 32; omega)
    have hr : (UInt32.ofNat as.length).toNat = as.length :=
      UInt32.toNat_ofNat_of_lt' (by change _ < 2 ^ 32; omega)
    rw [lossRatio_pos (by omega) (by omega)] at hratio
    cases hratio

/-! ## Runs -/

inductive Event where
  | packet (a : Arrival)
  | lossEvent
  | evaluate (now : Int)

structure Watched where
  estimator : Estimator
  /-- the numbers seen since the last evaluation, after the last one before it -/
  window : List Nat := []

def watch (c : Config) (t : Watched) : Event → Watched
  | .packet a => ⟨arrive t.estimator a, t.window ++ [a.number]⟩
  | .lossEvent => ⟨onLossEventDetected c t.estimator, t.window⟩
  | .evaluate now => ⟨(evaluateEstimation c t.estimator now).1,
      if Closes c t.estimator now then t.window.getLast?.toList else t.window⟩

def after (c : Config) (es : List Event) : Watched := es.foldl (watch c) ⟨fresh c, []⟩

/-- The numbers the step from `a` to `b` passes over and counts as lost. -/
def skipped (a b : Nat) : Finset Nat := if 0 < gap a b then Finset.Ioo a b else ∅

/-- The numbers that have been counted as lost. -/
def counted : List Nat → Finset Nat
  | a :: b :: ns => skipped a b ∪ counted (b :: ns)
  | _ => ∅

/-- The packet itself has been counted as lost before, or with it a number that was
received or counted before. -/
def Miscounts (t : Watched) : Event → Prop
  | .packet a => a.number ∈ counted t.window ∨ ∃ b ∈ t.window.getLast?, 0 < gap b a.number ∧
      (a.number < b ∨ ∃ z ∈ skipped b a.number, z ∈ t.window ∨ z ∈ counted t.window)
  | _ => False

/-- The packet comes after one with a higher number. -/
def Late (t : Watched) : Event → Prop
  | .packet a => ∃ b ∈ t.window, a.number < b
  | _ => False

def top (ns : List Nat) : Nat := ns.foldr max 0

/-- How many numbers of the span were not received. -/
def missing (ns : List Nat) : Nat :=
  ((Finset.range (top ns + 1)).filter fun z => z ∉ ns ∧ ∃ a ∈ ns, a ≤ z).card

theorem le_top {ns : List Nat} {a : Nat} (h : a ∈ ns) : a ≤ top ns := by
  induction ns with
  | nil => cases h
  | cons b ns ih =>
    change a ≤ max b (top ns)
    rcases List.mem_cons.mp h with rfl | h
    · exact Nat.le_max_left _ _
    · exact (ih h).trans (Nat.le_max_right _ _)

theorem mem_skipped {a b z : Nat} (h : z ∈ skipped a b) : a < z ∧ z < b := by
  unfold skipped at h
  split at h
  · exact Finset.mem_Ioo.mp h
  · exact absurd h (Finset.notMem_empty z)

/-- A step forward counts no more than it skips. -/
theorem gap_le_skipped {a b : Nat} (h : a ≤ b) : gap a b ≤ (skipped a b).card := by
  have hgap := gap_forward h
  unfold skipped
  split
  · rw [Nat.card_Ioo]
    exact hgap
  · omega

/-- What is counted lies between numbers that were received. -/
theorem mem_counted {ns : List Nat} {z : Nat} (h : z ∈ counted ns) : (∃ a ∈ ns, a < z) ∧ ∃ b ∈ ns, z < b := by
  induction ns using counted.induct with
  | case1 a b ns ih =>
    rcases Finset.mem_union.mp h with h | h
    · obtain ⟨hlow, hhigh⟩ := mem_skipped h
      exact ⟨⟨a, by simp, hlow⟩, b, by simp, hhigh⟩
    · obtain ⟨⟨x, hx, hlow⟩, y, hy, hhigh⟩ := ih h
      exact ⟨⟨x, List.mem_cons_of_mem a hx, hlow⟩, y, List.mem_cons_of_mem a hy, hhigh⟩
  | case2 ns hns =>
    unfold counted at h
    split at h
    · exact absurd rfl (hns _ _ _)
    · exact absurd h (Finset.notMem_empty z)

theorem counted_snoc (ns : List Nat) (b : Nat) :
    counted (ns ++ [b]) = counted ns ∪ (ns.getLast?.elim ∅ fun a => skipped a b) := by
  induction ns using counted.induct with
  | case1 x y ns ih =>
    have hlast : (x :: y :: ns).getLast? = (y :: ns).getLast? := by simp
    rw [hlast]
    simp only [List.cons_append, counted] at ih ⊢
    rw [ih, Finset.union_assoc]
  | case2 ns hns =>
    match ns, hns with
    | [], _ => rfl
    | [x], _ => simp [counted]
    | x :: y :: ns, hns => exact absurd rfl (hns x y ns)

theorem counted_le_missing {ns : List Nat} (h : ∀ z ∈ counted ns, z ∉ ns) : (counted ns).card ≤ missing ns := by
  apply Finset.card_le_card
  intro z hz
  obtain ⟨⟨a, ha, hlow⟩, b, hb, hhigh⟩ := mem_counted hz
  rw [Finset.mem_filter, Finset.mem_range]
  have := le_top hb
  exact ⟨by omega, h z hz, a, ha, hlow.le⟩

/-- No more is counted than the numbers counted, none of which was received. -/
structure Sound (t : Watched) : Prop where
  lost_le : t.estimator.windowPacketsLost.toNat ≤ (counted t.window).card
  missed : ∀ z ∈ counted t.window, z ∉ t.window
  started : t.window ≠ [] ↔ t.estimator.hasLastSeq = true
  last : ∀ a ∈ t.window.getLast?, t.estimator.lastSeqNum = UInt16.ofNat a

theorem sound_packet {t : Watched} (h : Sound t) {a : Arrival} (hmiscounts : ¬ Miscounts t (.packet a)) :
    Sound ⟨arrive t.estimator a, t.window ++ [a.number]⟩ := by
  obtain ⟨hnew, hstep⟩ := not_or.mp hmiscounts
  refine ⟨?_, ?_, ⟨fun _ => rfl, fun _ => List.append_ne_nil_of_right_ne_nil _ (List.cons_ne_nil _ _)⟩, ?_⟩
  · change (arrive t.estimator a).windowPacketsLost.toNat ≤ (counted (t.window ++ [a.number])).card
    cases hs : t.estimator.hasLastSeq with
    | false =>
      have hsame : (arrive t.estimator a).windowPacketsLost = t.estimator.windowPacketsLost := by
        unfold arrive onRtpPacketReceived
        simp [hs]
      rw [hsame, counted_snoc]
      exact h.lost_le.trans (Finset.card_le_card Finset.subset_union_left)
    | true =>
      have hb := List.getLast?_eq_some_getLast (h.started.mpr hs)
      generalize t.window.getLast (h.started.mpr hs) = b at hb
      have hforward : 0 < gap b a.number → b ≤ a.number := by
        intro hgap
        by_contra hlt
        exact hstep ⟨b, hb, hgap, .inl (by omega)⟩
      have hdisjoint : Disjoint (counted t.window) (skipped b a.number) := by
        rw [Finset.disjoint_left]
        intro z hz hskip
        refine hstep ⟨b, hb, ?_, .inr ⟨z, hskip, .inr hz⟩⟩
        by_contra hgap
        rw [skipped, if_neg hgap] at hskip
        exact absurd hskip (Finset.notMem_empty z)
      have hgap : gap b a.number ≤ (skipped b a.number).card := by
        rcases Nat.eq_zero_or_pos (gap b a.number) with h0 | hpos
        · omega
        · exact gap_le_skipped (hforward hpos)
      have hlost := h.lost_le
      rw [arrive_lost hs (h.last b hb), UInt32.toNat_add, UInt32.toNat_ofNat', counted_snoc, hb, Option.elim_some,
        Finset.card_union_of_disjoint hdisjoint]
      omega
  · intro z hz hin
    change z ∈ counted (t.window ++ [a.number]) at hz
    rw [counted_snoc] at hz
    rcases Finset.mem_union.mp hz with hz | hz
    · rcases List.mem_append.mp hin with hin | hin
      · exact h.missed z hz hin
      · rw [List.mem_singleton.mp hin] at hz
        exact hnew hz
    · cases hb : t.window.getLast? with
      | none =>
        rw [hb] at hz
        exact absurd hz (Finset.notMem_empty z)
      | some b =>
        rw [hb, Option.elim_some] at hz
        have hbetween := mem_skipped hz
        rcases List.mem_append.mp hin with hin | hin
        · refine hstep ⟨b, hb, ?_, .inr ⟨z, hz, .inl hin⟩⟩
          by_contra hgap
          rw [skipped, if_neg hgap] at hz
          exact absurd hz (Finset.notMem_empty z)
        · rw [List.mem_singleton.mp hin] at hbetween
          omega
  · intro b hb
    rw [List.getLast?_concat, Option.mem_some_iff] at hb
    subst hb
    rfl

theorem adapt_counts (c : Config) (e : Estimator) (ratio : Float32) :
    (adapt c e ratio).windowPacketsLost = e.windowPacketsLost ∧ (adapt c e ratio).hasLastSeq = e.hasLastSeq ∧
      (adapt c e ratio).lastSeqNum = e.lastSeqNum := by
  unfold adapt
  split
  · exact ⟨rfl, rfl, rfl⟩
  · split <;> exact ⟨rfl, rfl, rfl⟩

theorem closeWindow_counts (c : Config) (e : Estimator) (now : Int) :
    (closeWindow c e now).windowPacketsLost = 0 ∧ (closeWindow c e now).hasLastSeq = e.hasLastSeq ∧
      (closeWindow c e now).lastSeqNum = e.lastSeqNum :=
  adapt_counts c _ _

/-- An evaluation that does not close the window only sets times. -/
theorem evaluate_open {c : Config} {e : Estimator} {now : Int} (h : ¬ Closes c e now) :
    ∃ start last, (evaluateEstimation c e now).1 =
      { e with windowStartTimeMs := start, lastEvaluationTimeMs := last } := by
  unfold evaluateEstimation
  split
  · exact ⟨_, _, rfl⟩
  split
  · exact ⟨e.windowStartTimeMs, _, rfl⟩
  · exact ⟨e.windowStartTimeMs, e.lastEvaluationTimeMs, rfl⟩

theorem sound_watch {c : Config} {t : Watched} (h : Sound t) {ev : Event} (hmiscounts : ¬ Miscounts t ev) :
    Sound (watch c t ev) := by
  cases ev with
  | packet a => exact sound_packet h hmiscounts
  | lossEvent => exact ⟨h.lost_le, h.missed, h.started, h.last⟩
  | evaluate now =>
    unfold watch
    simp only
    by_cases hcloses : Closes c t.estimator now
    · obtain ⟨hlost, hlast, hseq⟩ := closeWindow_counts c t.estimator now
      have hnone : counted t.window.getLast?.toList = ∅ := by
        cases t.window.getLast? with
        | none => rfl
        | some a => rfl
      rw [if_pos hcloses, evaluate_closes hcloses]
      refine ⟨?_, ?_, ?_, ?_⟩
      · change (closeWindow c t.estimator now).windowPacketsLost.toNat ≤ _
        rw [hlost]
        exact Nat.zero_le _
      · intro z hz
        change z ∈ counted t.window.getLast?.toList at hz
        rw [hnone] at hz
        exact absurd hz (Finset.notMem_empty z)
      · rw [hlast, ← h.started]
        cases hw : t.window using List.reverseRecOn with
        | nil => exact Iff.rfl
        | append_singleton pre a => simp
      · intro a ha
        have ha : a ∈ t.window.getLast? := by
          cases hw : t.window.getLast? with
          | none => rw [hw] at ha; cases ha
          | some b => rw [hw] at ha; exact ha
        rw [hseq]
        exact h.last a ha
    · obtain ⟨start, last, hopen⟩ := evaluate_open hcloses
      rw [if_neg hcloses, hopen]
      exact ⟨h.lost_le, h.missed, h.started, h.last⟩

/-- Unless a number is counted wrongly no more is counted than is missing. -/
theorem sound_after (c : Config) {es : List Event}
    (h : EachAfter (fun pre ev => ¬ Miscounts (after c pre) ev) es) : Sound (after c es) := by
  induction es using List.reverseRecOn with
  | nil => exact ⟨Nat.zero_le _, fun _ _ => nofun, ⟨fun h => absurd rfl h, nofun⟩, fun _ => nofun⟩
  | append_singleton es ev ih =>
    have hstep := sound_watch (c := c) (ih h.left) (h es ev [] rfl)
    unfold after at hstep ⊢
    rw [List.foldl_append]
    exact hstep

/-- Behind the highest number only a late packet can be miscounted. -/
theorem late_of_miscounts {t : Watched} (hmax : ∀ b ∈ t.window.getLast?, ∀ x ∈ t.window, x ≤ b) {ev : Event}
    (h : Miscounts t ev) : Late t ev := by
  cases ev with
  | lossEvent => exact h
  | evaluate now => exact h
  | packet a =>
    rcases h with hcounted | ⟨b, hb, -, hback | ⟨z, hz, hin⟩⟩
    · exact (mem_counted hcounted).2
    · exact ⟨b, List.mem_of_getLast? hb, hback⟩
    · have hlow := (mem_skipped hz).1
      rcases hin with hin | hin
      · have := hmax b hb z hin
        omega
      · obtain ⟨y, hy, hhigh⟩ := (mem_counted hin).2
        have := hmax b hb y hy
        omega

theorem last_highest (c : Config) {es : List Event} (h : EachAfter (fun pre ev => ¬ Late (after c pre) ev) es) :
    ∀ b ∈ (after c es).window.getLast?, ∀ x ∈ (after c es).window, x ≤ b := by
  induction es using List.reverseRecOn with
  | nil =>
    intro b hb
    cases hb
  | append_singleton es ev ih =>
    have hmax := ih h.left
    have hlate := h es ev [] rfl
    have hafter : after c (es ++ [ev]) = watch c (after c es) ev := by
      unfold after
      rw [List.foldl_append]
      rfl
    rw [hafter]
    cases ev with
    | lossEvent => exact hmax
    | packet a =>
      intro b hb x hx
      change b ∈ ((after c es).window ++ [a.number]).getLast? at hb
      rw [List.getLast?_concat, Option.mem_some_iff] at hb
      subst hb
      rcases List.mem_append.mp hx with hx | hx
      · by_contra hlt
        exact hlate ⟨x, hx, by omega⟩
      · exact Nat.le_of_eq (List.mem_singleton.mp hx)
    | evaluate now =>
      intro b hb x hx
      change b ∈ (if _ then _ else _ : List Nat).getLast? at hb
      change x ∈ (if _ then _ else _ : List Nat) at hx
      split at hx
      · rename_i hcloses
        rw [if_pos hcloses] at hb
        cases hw : (after c es).window.getLast? with
        | none =>
          rw [hw] at hx
          cases hx
        | some last =>
          rw [hw, Option.toList_some] at hx hb
          rw [List.getLast?_singleton, Option.mem_some_iff] at hb
          exact Nat.le_of_eq ((List.mem_singleton.mp hx).trans hb)
      · rename_i hopen
        rw [if_neg hopen] at hb
        exact hmax b hb x hx

theorem sound_of_ordered (c : Config) {es : List Event} (h : EachAfter (fun pre ev => ¬ Late (after c pre) ev) es) :
    EachAfter (fun pre ev => ¬ Miscounts (after c pre) ev) es := by
  intro pre ev post heq hmiscounts
  have hpre : EachAfter (fun pre ev => ¬ Late (after c pre) ev) pre := by
    rw [heq] at h
    exact h.left
  exact h pre ev post heq (late_of_miscounts (last_highest c hpre) hmiscounts)

/-- **Reordering is not loss**, for a window without loss, if and only if no
packet is 2 to 2999 numbers after the one that came before it; and in every run in
which no number is counted as lost that is received in the window, or counted twice, no
more is counted than is missing. So it is in every run without late packets. -/
theorem lossless_iff (c : Config) :
    (∀ (s n : Nat) (as : List Arrival) (now : Int), Shuffled s n (as.map Arrival.number) →
      Closes c (feed c as) now →
        (NoJump (as.map Arrival.number) →
          (evaluateEstimation c (feed c as) now).1.currentLossRatio = 0 ∧
            (¬ (0 : Float32) ≥ c.lossThresholdDecrease →
              (evaluateEstimation c (feed c as) now).1.currentBitrateEstimateBps = c.startBitrateBps)) ∧
        (n < 2 ^ 20 → ((evaluateEstimation c (feed c as) now).1.currentLossRatio == 0) = true →
          NoJump (as.map Arrival.number))) ∧
    (∀ es : List Event, EachAfter (fun pre ev => ¬ Miscounts (after c pre) ev) es →
      (after c es).estimator.windowPacketsLost.toNat ≤ missing (after c es).window) ∧
    ∀ es : List Event, EachAfter (fun pre ev => ¬ Late (after c pre) ev) es →
      EachAfter (fun pre ev => ¬ Miscounts (after c pre) ev) es := by
  refine ⟨fun _ _ _ _ h hcloses => lossless h hcloses, ?_, fun _ => sound_of_ordered c⟩
  intro es h
  have hsound := sound_after c h
  exact hsound.lost_le.trans (counted_le_missing hsound.missed)

/-- Three packets in order, the numbers about to wrap. -/
def inOrder : List Arrival := [⟨1200, 65534, 1⟩, ⟨1200, 65535, 2⟩, ⟨1200, 65536, 3⟩]

/-- After a loss of three come two late packets, one of them for the second time. -/
def lossy : List Event := [.packet ⟨1200, 10, 1⟩, .packet ⟨1200, 14, 2⟩, .packet ⟨1200, 9, 3⟩, .packet ⟨1200, 10, 4⟩]

theorem lossless_iff_inOrder :
    (evaluateEstimation {} (feed {} inOrder) 1001).1.currentLossRatio = 0 ∧
      NoJump (inOrder.map Arrival.number) ∧
      (after {} lossy).estimator.windowPacketsLost = 3 ∧
      (after {} lossy).estimator.windowPacketsLost.toNat ≤ missing (after {} lossy).window ∧
      EachAfter (fun pre ev => ¬ Miscounts (after {} pre) ev) (lossy.take 2) := by
  obtain ⟨hwindow, hruns, hordered⟩ := lossless_iff {}
  have hshuffled : Shuffled 65534 3 (inOrder.map Arrival.number) := by
    refine ⟨by decide, by decide, ?_⟩
    intro i a h
    match i, h with
    | 0, h => cases h; decide
    | 1, h => cases h; decide
    | 2, h => cases h; decide
  obtain ⟨hclean, hjumps⟩ := hwindow 65534 3 inOrder 1001 hshuffled (by decide)
  have hratio := (hclean (by unfold NoJump; decide)).1
  have hfront : EachAfter (fun pre ev => ¬ Late (after {} pre) ev) (lossy.take 2) := by
    refine EachAfter.snoc (l := lossy.take 1) (EachAfter.snoc (l := []) (eachAfter_nil _) ?_) ?_
    all_goals
      unfold Late
      decide
  have hcounts := hordered (lossy.take 2) hfront
  refine ⟨hratio, hjumps (by decide) (by rw [hratio]; decide +kernel), by decide, hruns lossy ?_, hcounts⟩
  refine EachAfter.snoc (l := lossy.take 3) (EachAfter.snoc hcounts ?_) ?_
  all_goals
    unfold Miscounts
    decide

/-- Three packets, the last two exchanged. -/
def exchanged : List Arrival := [⟨1200, 0, 1⟩, ⟨1200, 2, 2⟩, ⟨1200, 1, 3⟩]

/-- Nothing is missing; a quarter is reported as lost, and the estimate goes down. -/
theorem exchanged_lost :
    Shuffled 0 3 (exchanged.map Arrival.number) ∧ missing (exchanged.map Arrival.number) = 0 ∧
      Closes {} (feed {} exchanged) 1001 ∧ (feed {} exchanged).windowPacketsLost = 1 ∧
      (evaluateEstimation {} (feed {} exchanged) 1001).1.currentLossRatio = 0.25 ∧
      (evaluateEstimation {} (feed {} exchanged) 1001).1.currentBitrateEstimateBps = 2000000 := by
  refine ⟨⟨by decide, by decide, fun i a h => ?_⟩, by decide, by decide, by decide, by decide +kernel,
    by decide +kernel⟩
  match i, h with
  | 0, h => cases h; decide
  | 1, h => cases h; decide
  | 2, h => cases h; decide

end KmVirtualCamera.L2.BandwidthEstimator
