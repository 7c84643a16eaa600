import Mathlib
import KmVirtualCamera.Core.Rounding
import KmVirtualCamera.L2Machine.AudioPcmQueue

/-!
# The channels of the PCM queue

The queue carries interleaved samples: of the samples offered to it, number `k`
is on channel `k % c`. `Aligned c` says that its bounds and indices are whole
frames; pushes and pops of whole frames keep that, so whole frames are dropped,
and the sample that a pop gives in place `i` is on channel `i % c`. The sizes
that `AudioOutput` gives its queue are whole frames: `elementsFor` is computed in
double precision, and what is needed of it is its order of magnitude.
-/
namespace KmVirtualCamera.L2.AudioPcmQueue

/-- Whole frames everywhere. -/
structure Aligned (c : Nat) (q : Queue) : Prop where
  capacity : c ∣ q.capacity
  highWater : c ∣ q.highWater
  target : c ∣ q.target
  head : c ∣ q.head
  depth : c ∣ q.depth

/-- A call that hands over or asks for whole frames. -/
def Whole (c : Nat) : Op → Prop
  | .push data _ => c ∣ data.length
  | .pop capacityElements => c ∣ capacityElements
  | .clear => True

instance (c : Nat) : DecidablePred (Whole c)
  | .push data _ => inferInstanceAs (Decidable (c ∣ data.length))
  | .pop capacityElements => inferInstanceAs (Decidable (c ∣ capacityElements))
  | .clear => inferInstanceAs (Decidable True)

/-- The drops of a call, one for each place where samples are dropped. -/
def drops (q : Queue) : Op → List Nat
  | .push data _ =>
    if data = [] then []
    else [(makeRoom q data.length).2, skipped (makeRoom q data.length).1 data.length,
      (backToTarget (filled q data)).2]
  | .pop _ => []
  | .clear => [q.depth]

variable {c : Nat} {q : Queue}

/-! ## Whole frames stay whole -/

theorem dvd_min {a b : Nat} (ha : c ∣ a) (hb : c ∣ b) : c ∣ min a b := by
  rcases min_choice a b with h | h <;> rwa [h]

theorem dropFront_aligned (h : Aligned c q) {n : Nat} (hn : c ∣ n) :
    Aligned c (dropFrontLocked q n).1 ∧ c ∣ (dropFrontLocked q n).2 := by
  have htake : c ∣ min n q.depth := dvd_min hn h.depth
  exact ⟨⟨h.capacity, h.highWater, h.target, (Nat.dvd_mod_iff h.capacity).mpr (Nat.dvd_add h.head htake),
    Nat.dvd_sub h.depth htake⟩, htake⟩

theorem makeRoom_aligned (h : Aligned c q) {n : Nat} (hn : c ∣ n) :
    Aligned c (makeRoom q n).1 ∧ c ∣ (makeRoom q n).2 := by
  have hfree : c ∣ q.capacity - q.depth := Nat.dvd_sub h.capacity h.depth
  unfold makeRoom
  split
  · exact dropFront_aligned h (dvd_min h.depth (Nat.dvd_sub hn hfree))
  · exact ⟨h, Nat.dvd_zero c⟩

theorem skipped_aligned (h : Aligned c q) {n : Nat} (hn : c ∣ n) : c ∣ skipped q n := by
  have hfree : c ∣ q.capacity - q.depth := Nat.dvd_sub h.capacity h.depth
  unfold skipped
  split
  · exact Nat.dvd_sub hn hfree
  · exact Nat.dvd_zero c

theorem filled_aligned (h : Aligned c q) {data : List Int16} (hd : c ∣ data.length) :
    Aligned c (filled q data) ∧ c ∣ skipped (makeRoom q data.length).1 data.length := by
  obtain ⟨hroom, -⟩ := makeRoom_aligned h hd
  have hskip := skipped_aligned hroom hd
  refine ⟨⟨hroom.capacity, hroom.highWater, hroom.target, hroom.head, Nat.dvd_add hroom.depth ?_⟩, hskip⟩
  rw [List.length_drop]
  exact Nat.dvd_sub hd hskip

theorem backToTarget_aligned (h : Aligned c q) :
    Aligned c (backToTarget q).1 ∧ c ∣ (backToTarget q).2 := by
  unfold backToTarget
  split
  · exact dropFront_aligned h (Nat.dvd_sub h.depth h.target)
  · exact ⟨h, Nat.dvd_zero c⟩

theorem push_eq {data : List Int16} (hdata : data ≠ []) (ns : UInt64) :
    push q data ns = { (backToTarget (filled q data)).1 with
      stats := { q.stats with
        pushedElements := q.stats.pushedElements + UInt64.ofNat data.length
        droppedElements := q.stats.droppedElements + UInt64.ofNat (drops q (.push data ns)).sum
        depthHigh := max q.stats.depthHigh (backToTarget (filled q data)).1.depth
        pushMaxNs := max q.stats.pushMaxNs ns } } := by
  obtain ⟨-, -, -, hstats⟩ := live_fields q data
  have hsum : (drops q (.push data ns)).sum = (makeRoom q data.length).2 +
      skipped (makeRoom q data.length).1 data.length + (backToTarget (filled q data)).2 := by
    simp only [drops, if_neg hdata, List.sum_cons, List.sum_nil]
    omega
  rw [hsum, ← hstats]
  simp only [push, hdata, if_false]
  rfl

theorem pop_head (q : Queue) (n : Nat) : (pop q n).1.depth = q.depth - min n q.depth ∧
    ((pop q n).1.head = (q.head + min n q.depth) % q.capacity ∨ (pop q n).1.head = q.head) ∧
    (pop q n).1.stats.droppedElements = q.stats.droppedElements := by
  unfold pop
  by_cases htake : min n q.depth = 0
  · have hdepth : q.depth - min n q.depth = q.depth := by omega
    rw [if_neg (by omega), hdepth]
    split
    · exact ⟨rfl, .inr rfl, rfl⟩
    · exact ⟨rfl, .inr rfl, rfl⟩
  · simp only
    rw [if_pos htake]
    exact ⟨rfl, .inl rfl, rfl⟩

theorem exec_aligned (h : Aligned c q) {op : Op} (hop : Whole c op) :
    Aligned c (exec q op) ∧ ∀ n ∈ drops q op, c ∣ n := by
  cases op with
  | push data ns =>
    by_cases hdata : data = []
    · subst hdata
      have hnone : drops q (.push [] ns) = [] := by simp [drops]
      rw [hnone]
      exact ⟨⟨h.capacity, h.highWater, h.target, h.head, h.depth⟩, by simp⟩
    · obtain ⟨hfilled, hskip⟩ := filled_aligned h hop
      obtain ⟨hlive, hstale⟩ := backToTarget_aligned hfilled
      constructor
      · rw [exec, push_eq hdata]
        exact ⟨hlive.capacity, hlive.highWater, hlive.target, hlive.head, hlive.depth⟩
      · simp only [drops, if_neg hdata, List.forall_mem_cons]
        exact ⟨(makeRoom_aligned h hop).2, hskip, hstale, by simp⟩
  | pop n =>
    obtain ⟨hcap, hhigh, htarget⟩ := exec_params q (.pop n)
    obtain ⟨hdepth, hhead, -⟩ := pop_head q n
    have htake : c ∣ min n q.depth := dvd_min hop h.depth
    refine ⟨⟨hcap ▸ h.capacity, hhigh ▸ h.highWater, htarget ▸ h.target, ?_, ?_⟩, by simp [drops]⟩
    · change c ∣ (pop q n).1.head
      rcases hhead with hhead | hhead <;> rw [hhead]
      · exact (Nat.dvd_mod_iff h.capacity).mpr (Nat.dvd_add h.head htake)
      · exact h.head
    · change c ∣ (pop q n).1.depth
      rw [hdepth]
      exact Nat.dvd_sub h.depth htake
  | clear =>
    refine ⟨⟨h.capacity, h.highWater, h.target, Nat.dvd_zero c, Nat.dvd_zero c⟩, ?_⟩
    simp only [drops, List.mem_singleton, forall_eq]
    exact h.depth

/-- The drops are what the counter counts. -/
theorem exec_dropped (q : Queue) (op : Op) :
    (exec q op).stats.droppedElements = q.stats.droppedElements + UInt64.ofNat (drops q op).sum := by
  cases op with
  | push data ns =>
    by_cases hdata : data = []
    · subst hdata
      exact (UInt64.add_zero _).symm
    · rw [exec, push_eq hdata]
  | pop n => exact (pop_head q n).2.2.trans (UInt64.add_zero _).symm
  | clear =>
    change q.stats.droppedElements + UInt64.ofNat q.depth = _
    rw [drops, List.sum_singleton]

theorem run_aligned {ops : List Op} (hops : ∀ op ∈ ops, Whole c op) : ∀ {q : Queue}, Aligned c q →
    Aligned c (ops.foldl exec q) := by
  induction ops with
  | nil => exact fun h => h
  | cons op ops ih =>
    intro q h
    obtain ⟨hop, hrest⟩ := List.forall_mem_cons.mp hops
    exact ih hrest (exec_aligned h hop).1

/-! ## Where a sample comes from -/

/-- The samples offered so far. -/
def offered : List Op → List Int16
  | [] => []
  | .push data _ :: ops => data ++ offered ops
  | _ :: ops => offered ops

theorem keep_suffix (capacity highWater target : Nat) (l : List Int16) :
    keep capacity highWater target l <:+ l := by
  have hdrop : ∀ (l : List Int16) (n : Nat), l.rtake n <:+ l := fun l n => List.drop_suffix _ l
  unfold keep
  split
  · exact (hdrop _ _).trans (hdrop _ _)
  · exact hdrop _ _

theorem rtake_whole {n : Nat} (hn : c ∣ n) {l : List Int16} (hl : c ∣ l.length) : c ∣ (l.rtake n).length := by
  rw [List.rtake, List.length_drop]
  exact Nat.dvd_sub hl (Nat.dvd_sub hl hn)

theorem keep_whole {capacity target : Nat} (highWater : Nat) (hcap : c ∣ capacity) (ht : c ∣ target)
    {l : List Int16} (hl : c ∣ l.length) : c ∣ (keep capacity highWater target l).length := by
  unfold keep
  split
  · exact rtake_whole ht (rtake_whole hcap hl)
  · exact rtake_whole hcap hl

/-- What is queued is the end of what was offered, from a frame's first sample on. -/
structure Traced (c : Nat) (o : List Int16) (a : Pcm) : Prop where
  total : o.length = a.dropped + a.popped + a.items.length
  items : a.items = o.drop (a.dropped + a.popped)
  passed : c ∣ a.dropped + a.popped
  whole : c ∣ a.items.length

theorem exec_traced {capacity highWater target : Nat} (hcap : c ∣ capacity) (ht : c ∣ target) {o : List Int16}
    {a : Pcm} (h : Traced c o a) {op : Op} (hop : Whole c op) :
    Traced c (o ++ offered [op]) (a.exec capacity highWater target op) := by
  have htotal := h.total
  cases op with
  | push data ns =>
    have hoffered : offered [.push data ns] = data := List.append_nil data
    have hwhole : c ∣ (a.items ++ data).length := by
      rw [List.length_append]
      exact Nat.dvd_add h.whole hop
    have hall : a.items ++ data = (o ++ data).drop (a.dropped + a.popped) := by
      rw [List.drop_append_of_le_length (by omega), ← h.items]
    have hkept := keep_whole highWater hcap ht hwhole
    have hdrop := List.suffix_iff_eq_drop.mp (keep_suffix capacity highWater target (a.items ++ data))
    have hle := keep_length capacity highWater target (a.items ++ data)
    have hlen : (a.items ++ data).length = a.items.length + data.length := List.length_append
    rw [hoffered]
    simp only [Pcm.exec, Pcm.push]
    generalize keep capacity highWater target (a.items ++ data) = kept at hkept hdrop hle
    rw [hlen] at hdrop hle hwhole
    have hpassed : a.dropped + (a.items.length + data.length - kept.length) + a.popped =
        a.dropped + a.popped + (a.items.length + data.length - kept.length) := by omega
    refine ⟨by simp only [List.length_append]; omega, ?_, ?_, hkept⟩
    · simp only [hpassed]
      rw [← List.drop_drop, ← hall]
      exact hdrop
    · simp only [hpassed]
      exact Nat.dvd_add h.passed (Nat.dvd_sub hwhole hkept)
  | pop n =>
    have htake : c ∣ min n a.items.length := dvd_min hop h.whole
    have hlen : (a.items.drop n).length = a.items.length - n := List.length_drop
    have hsame : a.items.drop n = a.items.drop (min n a.items.length) := by
      rcases Nat.le_total n a.items.length with hle | hle
      · rw [Nat.min_eq_left hle]
      · rw [Nat.min_eq_right hle, List.drop_eq_nil_of_le hle, List.drop_length]
    have hpassed : a.dropped + (a.popped + min n a.items.length) =
        a.dropped + a.popped + min n a.items.length := by omega
    have hoffered : o ++ offered [.pop n] = o := List.append_nil o
    rw [hoffered]
    simp only [Pcm.exec, Pcm.pop]
    refine ⟨by simp only; omega, ?_, ?_, ?_⟩
    · simp only [hpassed]
      rw [← List.drop_drop, ← h.items]
      exact hsame
    · simp only [hpassed]
      exact Nat.dvd_add h.passed htake
    · simp only [hsame, List.length_drop]
      exact Nat.dvd_sub h.whole htake
  | clear =>
    have hoffered : o ++ offered [.clear] = o := List.append_nil o
    rw [hoffered]
    simp only [Pcm.exec, Pcm.clear]
    refine ⟨by simp only [List.length_nil]; omega, ?_, ?_, Nat.dvd_zero c⟩
    · simp only
      rw [List.drop_eq_nil_of_le (by omega)]
    · simp only
      rw [Nat.add_right_comm]
      exact Nat.dvd_add h.passed h.whole

theorem offered_cons (op : Op) (ops : List Op) : offered (op :: ops) = offered [op] ++ offered ops := by
  cases op with
  | push data ns => simp [offered]
  | pop n => rfl
  | clear => rfl

theorem run_traced {capacity target : Nat} (highWater : Nat) (hcap : c ∣ capacity) (ht : c ∣ target)
    {ops : List Op} (hops : ∀ op ∈ ops, Whole c op) : ∀ {o : List Int16} {a : Pcm}, Traced c o a →
    Traced c (o ++ offered ops) (ops.foldl (Pcm.exec capacity highWater target) a) := by
  induction ops with
  | nil =>
    intro o a h
    rw [offered, List.append_nil]
    exact h
  | cons op ops ih =>
    intro o a h
    obtain ⟨hop, hrest⟩ := List.forall_mem_cons.mp hops
    rw [offered_cons, ← List.append_assoc]
    exact ih hrest (exec_traced hcap ht h hop)

/-! ## The sizes of `AudioOutput` -/

/-- mirrors macos/receiver/audio_output.cpp:27-30 -/
def kBufferSeconds : Float := 0.020
def kQueueSeconds : Float := 0.400
def kHighWaterSeconds : Float := 0.120
def kTargetSeconds : Float := 0.040

/-- `size_t(sampleRate * seconds) * channels`
mirrors macos/receiver/audio_output.cpp:97-100 -/
def elementsFor (seconds : Float) (sampleRate channels : UInt32) : UInt64 :=
  (sampleRate.toFloat * seconds).toUInt64 * channels.toUInt64

section Sizes
open Float.Model Float.Model.UnpackedFloat KmVirtualCamera.Rounding

/-- `seconds` lies between 2^-6 and 1/2. -/
def Fraction (seconds : Float) : Prop := Normal Format.binary64 seconds.toModel.unpack (-58) (-54)

theorem seconds_fraction : Fraction kBufferSeconds ∧ Fraction kQueueSeconds ∧ Fraction kHighWaterSeconds ∧
    Fraction kTargetSeconds := by
  refine ⟨⟨5764607523034235, -58, by decide, rfl, ?_, by decide, by decide⟩,
    ⟨7205759403792794, -54, by decide, rfl, ?_, by decide, by decide⟩,
    ⟨8646911284551352, -56, by decide, rfl, ?_, by decide, by decide⟩,
    ⟨5764607523034235, -57, by decide, rfl, ?_, by decide, by decide⟩⟩
  all_goals exact (Nat.log2_eq_iff (by decide)).mpr (by decide)

theorem toFloat_normal {n : UInt32} (h : 8000 ≤ n.toNat) : Normal Format.binary64 n.toFloat.toModel.unpack (-40) (-21) := by
  have hlow : 12 ≤ n.toNat.log2 := (Nat.le_log2 (by omega)).mpr (by omega)
  have hhigh : n.toNat.log2 < 32 := (Nat.log2_lt (by omega)).mpr n.toNat_lt
  have hmin : Format.binary64.minExponent = -1074 := by decide
  have hexact := ofNat_exact (S := Format.binary64) (n := n.toNat) (by omega) (by simp only; omega) (by simp only; omega)
  have hnormal : Normal Format.binary64 (UnpackedFloat.ofNat Format.binary64 n.toNat) (-40) (-21) :=
    hexact.mono (by simp only; omega) (by simp only; omega)
  change Normal Format.binary64 (UnpackedFloat.unpack Format.binary64
    (UnpackedFloat.pack Format.binary64 (UnpackedFloat.ofNat Format.binary64 n.toNat))) (-40) (-21)
  rw [unpack_normal hnormal (by decide) (by decide)]
  exact hnormal

theorem product_bounds {seconds : Float} (hs : Fraction seconds) {n : UInt32} (h : 8000 ≤ n.toNat) :
    1 ≤ (n.toFloat * seconds).toUInt64.toNat ∧ (n.toFloat * seconds).toUInt64.toNat < 2 ^ 32 := by
  have hproduct := mul_normal (toFloat_normal h) hs (by decide)
  have hkept := unpack_normal hproduct (by decide) (by decide)
  obtain ⟨hlow, hhigh⟩ := toInt_bounds (a := 46) (b := 21) hproduct (by decide) 0 (UInt64.size - 1)
  have hvalue : (n.toFloat * seconds).toUInt64 = UInt64.ofNatClamp
      ((UnpackedFloat.unpack Format.binary64 (UnpackedFloat.pack Format.binary64
        (mul Format.binary64 n.toFloat.toModel.unpack seconds.toModel.unpack))).toInt 0 (UInt64.size - 1)).toNat := rfl
  rw [hvalue, hkept]
  generalize (UnpackedFloat.toInt 0 (UInt64.size - 1)
    (mul Format.binary64 n.toFloat.toModel.unpack seconds.toModel.unpack)).toNat = whole at hlow hhigh ⊢
  have hsize : whole < UInt64.size := hhigh.trans_le (by decide)
  rw [UInt64.ofNatClamp, dif_pos hsize, UInt64.toNat_ofNatLT]
  exact ⟨(by decide : 1 ≤ 2 ^ (52 - 46)).trans hlow, hhigh⟩

end Sizes

/-- The product with the channel count does not wrap. -/
theorem elementsFor_whole {seconds : Float} (hs : Fraction seconds) {sampleRate channels : UInt32}
    (hrate : 8000 ≤ sampleRate.toNat) (hc : 1 ≤ channels.toNat) :
    0 < (elementsFor seconds sampleRate channels).toNat ∧
      channels.toNat ∣ (elementsFor seconds sampleRate channels).toNat := by
  obtain ⟨hlow, hhigh⟩ := product_bounds hs hrate
  have hchannels := channels.toNat_lt
  have hfit : (sampleRate.toFloat * seconds).toUInt64.toNat * channels.toNat < 2 ^ 64 := by
    calc _ ≤ (sampleRate.toFloat * seconds).toUInt64.toNat * 2 ^ 32 := Nat.mul_le_mul_left _ hchannels.le
      _ < 2 ^ 32 * 2 ^ 32 := Nat.mul_lt_mul_of_pos_right hhigh (by decide)
      _ = 2 ^ 64 := by decide
  have hvalue : (elementsFor seconds sampleRate channels).toNat =
      (sampleRate.toFloat * seconds).toUInt64.toNat * channels.toNat := by
    rw [elementsFor, UInt64.toNat_mul, UInt32.toNat_toUInt64, Nat.mod_eq_of_lt hfit]
  rw [hvalue]
  exact ⟨Nat.mul_pos hlow hc, Nat.dvd_mul_left ..⟩

/-! ## The channels -/

theorem make_aligned {capacity highWater target : Nat} (hcap : 0 < capacity ∧ c ∣ capacity)
    (hhigh : 0 < highWater ∧ c ∣ highWater) (ht : c ∣ target) : Aligned c (make capacity highWater target) := by
  have hcap' : (if capacity = 0 then 1 else capacity) = capacity := if_neg (by omega)
  have hhigh' : (if highWater = 0 then capacity else highWater) = highWater := if_neg (by omega)
  simp only [make, hcap', hhigh']
  exact ⟨hcap.2, hhigh.2, dvd_min ht hhigh.2, Nat.dvd_zero c, Nat.dvd_zero c⟩

/-- How many of the offered samples have been handed out or dropped. -/
def passed (q : Queue) (ops : List Op) : Nat :=
  (ops.foldl (Pcm.exec q.capacity q.highWater q.target) {}).dropped +
    (ops.foldl (Pcm.exec q.capacity q.highWater q.target) {}).popped

/-- What a call hands out are the next samples. -/
theorem handed_offered {a : Pcm} {o : List Int16} (hr : Refines q a) (ht : Traced c o a) (op : Op) {i : Nat}
    (hi : i < (handed q op).length) : (handed q op)[i]? = o[a.dropped + a.popped + i]? := by
  have hout := (hr.exec op).2
  cases op with
  | push | clear => cases hi
  | pop n =>
    have hitems : handed q (.pop n) = a.items.take n := hout
    rw [hitems] at hi ⊢
    rw [List.length_take] at hi
    rw [List.getElem?_take_of_lt (by omega), ht.items, List.getElem?_drop]

/-- **Channels never swap.** In whole frames, whatever the calls before, the
indices and every drop are whole frames, and a sample that is handed out in
place `i` is on channel `i % c`; and `AudioOutput` works in whole frames. -/
theorem channels_kept :
    (∀ (c capacity highWater target : Nat), 1 ≤ c → 0 < capacity ∧ c ∣ capacity → 0 < highWater ∧ c ∣ highWater →
      0 < target ∧ c ∣ target → ∀ (ops : List Op) (op : Op), (∀ o ∈ ops, Whole c o) → Whole c op →
        let q₀ := make capacity highWater target
        let q := ops.foldl exec q₀
        c ∣ q.head ∧ c ∣ q.depth ∧ (∀ n ∈ drops q op, c ∣ n) ∧
        (exec q op).stats.droppedElements = q.stats.droppedElements + UInt64.ofNat (drops q op).sum ∧
        ∀ i < (handed q op).length, (handed q op)[i]? = (offered ops)[passed q₀ ops + i]? ∧
          (passed q₀ ops + i) % c = i % c) ∧
    ∀ sampleRate channels : UInt32, 8000 ≤ sampleRate → 1 ≤ channels →
      ∀ seconds ∈ [kQueueSeconds, kHighWaterSeconds, kTargetSeconds, kBufferSeconds],
        0 < (elementsFor seconds sampleRate channels).toNat ∧
          channels.toNat ∣ (elementsFor seconds sampleRate channels).toNat := by
  refine ⟨?_, ?_⟩
  · intro c capacity highWater target _ hcap hhigh htarget ops op hops hop q₀ q
    have hmade : Aligned c q₀ := make_aligned hcap hhigh htarget.2
    obtain ⟨hrefines, -⟩ := (make_refines capacity highWater target).run ops
    have hstart : Traced c [] {} := ⟨rfl, rfl, Nat.dvd_zero c, Nat.dvd_zero c⟩
    have htraced := run_traced q₀.highWater hmade.capacity hmade.target hops hstart
    have haligned := run_aligned hops hmade
    refine ⟨haligned.head, haligned.depth, (exec_aligned haligned hop).2, exec_dropped q op, ?_⟩
    intro i hi
    refine ⟨handed_offered hrefines htraced op hi, ?_⟩
    obtain ⟨frames, hframes⟩ := htraced.passed
    rw [show passed q₀ ops = c * frames from hframes, Nat.mul_add_mod]
  · intro sampleRate channels hrate hc seconds hseconds
    have hrate' : 8000 ≤ sampleRate.toNat := UInt32.le_iff_toNat_le.mp hrate
    have hc' : 1 ≤ channels.toNat := UInt32.le_iff_toNat_le.mp hc
    obtain ⟨hbuffer, hqueue, hhigh, htarget⟩ := seconds_fraction
    simp only [List.mem_cons, List.not_mem_nil, or_false] at hseconds
    rcases hseconds with rfl | rfl | rfl | rfl
    · exact elementsFor_whole hqueue hrate' hc'
    · exact elementsFor_whole hhigh hrate' hc'
    · exact elementsFor_whole htarget hrate' hc'
    · exact elementsFor_whole hbuffer hrate' hc'

/-- Stereo: six samples are offered, two are handed out, and the next six drop the oldest. -/
def stereoOps : List Op := [.push [0, 1, 10, 11, 20, 21] 0, .pop 2, .push [30, 31, 40, 41, 50, 51] 1]

theorem channels_kept_stereo :
    (passed (make 8 8 4) stereoOps, handed (stereoOps.foldl exec (make 8 8 4)) (.pop 4)) = (4, [20, 21, 30, 31]) ∧
      (∀ i < 4, (passed (make 8 8 4) stereoOps + i) % 2 = i % 2) ∧
      2 ∣ (elementsFor kQueueSeconds 48000 2).toNat := by
  obtain ⟨hcalls, hsizes⟩ := channels_kept
  have hstereo := hcalls 2 8 8 4 (by decide) (by decide) (by decide) (by decide) stereoOps (.pop 4) (by decide) (by decide)
  have hhanded : handed (stereoOps.foldl exec (make 8 8 4)) (.pop 4) = [20, 21, 30, 31] := by decide +kernel
  refine ⟨by decide +kernel, ?_, (hsizes 48000 2 (by decide) (by decide) kQueueSeconds (by simp)).2⟩
  intro i hi
  obtain ⟨-, -, -, -, hplaces⟩ := hstereo
  rw [hhanded] at hplaces
  exact (hplaces i hi).2

end KmVirtualCamera.L2.AudioPcmQueue
