import Mathlib
import KmVirtualCamera.L2Machine.Twcc

/-!
# Progress of the transport-cc feedback

`buildFeedbackPacket` returns nothing, and leaves the base where it is, when no
packet of the next 512 numbers has arrived. Nothing but an arrival that moves
the base back gets past such a block.

* `feedback_progress`: enough builds in a row report everything that is
  recorded, and leave nothing pending, exactly if the range fits in the ring
  and each of its blocks has an arrival.
* `gap_parks`: a receiver for which they do not.
-/
namespace KmVirtualCamera.L2.Twcc
open KmVirtualCamera.L1.TwccFeedback

/-- `n` builds in a row, and what they return. -/
def builds (senderSsrc mediaSsrc : UInt32) : Nat → TwccReceiver → TwccReceiver × List Bytes
  | 0, s => (s, [])
  | n + 1, s =>
    let out := buildFeedbackPacket s senderSsrc mediaSsrc
    let later := builds senderSsrc mediaSsrc n out.1
    (later.1, out.2 :: later.2)

/-- The packet marks the number as received. -/
def Marks (p : Bytes) (seq : UInt16) : Prop :=
  ∃ f st, decodeFeedback p = some f ∧ statusOf f seq = some st ∧ st ≠ 0

/-- A number of the pending range with an arrival that has not been reported. -/
def Recorded (s : TwccReceiver) (seq : UInt16) : Prop :=
  (seq - s.pendingBaseSeq).toNat < pending s ∧ (observed s.records seq).isSome

/-- The number of blocks the pending range takes. -/
def blocks (s : TwccReceiver) : Nat := (pending s + 511) / 512

/-- As many builds as there are blocks, or fewer, report all that is recorded
and leave nothing pending. -/
def Progresses (senderSsrc mediaSsrc : UInt32) (s : TwccReceiver) : Prop :=
  ∃ n, n ≤ blocks s ∧ (builds senderSsrc mediaSsrc n s).1.hasPending = false ∧
    ∀ seq, Recorded s seq → ∃ p ∈ (builds senderSsrc mediaSsrc n s).2, Marks p seq

/-- The range fits in the ring, and each block of it has an arrival. -/
def Filled (s : TwccReceiver) : Prop :=
  pending s ≤ kRingSize ∧ ∀ j, 512 * j < pending s →
    ∃ seq, Recorded s seq ∧ (seq - s.pendingBaseSeq).toNat / 512 = j

/-! ## A receiver with something pending -/

/-- What is pending is at least one number, and less than half the circle. -/
def Live (s : TwccReceiver) : Prop := s.hasPending = true → 1 ≤ pending s ∧ pending s ≤ 32768

theorem onPacket_live {s : TwccReceiver} (h : Live s) (seq : UInt16) (t : Int) (size : UInt16) :
    Live (onPacket s seq t size) := by
  intro _
  have hb := s.pendingBaseSeq.toNat_lt
  have he := s.pendingEndSeq.toNat_lt
  have hs := seq.toNat_lt
  have hone : (1 : UInt16).toNat = 1 := rfl
  unfold pending
  cases hp : s.hasPending with
  | false =>
    obtain ⟨hbase, hend⟩ := onPacket_first hp seq t size
    rw [hbase, hend, UInt16.toNat_sub, UInt16.toNat_add, hone]
    omega
  | true =>
    obtain ⟨hbase, hend⟩ := onPacket_later hp seq t size
    have hlive := h hp
    unfold pending at hlive
    rw [hbase, hend]
    simp only [UInt16.toNat_sub] at hlive ⊢
    split
    · split
      · rw [UInt16.toNat_add, hone]; omega
      · omega
    · split
      · rw [UInt16.toNat_add, hone]; omega
      · omega

/-! ## One packet -/

theorem live_reported {s : TwccReceiver} (h : Live s) (hp : s.hasPending = true) : Live (reported s) := by
  intro hp'
  have := (reported_hasPending s).mp hp'
  have := reported_pending s
  have := h hp
  omega

/-- What is recorded after a packet was so before, beyond the block. -/
theorem recorded_reported {s : TwccReceiver} {x : UInt16} (h : Recorded (reported s) x) :
    Recorded s x ∧ (x - s.pendingBaseSeq).toNat = (x - (reported s).pendingBaseSeq).toNat + packetStatusCount s ∧
      packetStatusCount s ≤ (x - s.pendingBaseSeq).toNat % kRingSize := by
  obtain ⟨hlt, hobs⟩ := h
  have hcount := count_le s
  have hpend := reported_pending s
  have hle : packetStatusCount s ≤ pending s := Nat.min_le_right _ _
  have hall : pending s < 2 ^ 16 := (s.pendingEndSeq - s.pendingBaseSeq).toNat_lt
  have hbase : (reported s).pendingBaseSeq = s.pendingBaseSeq + UInt16.ofNat (packetStatusCount s) := rfl
  -- The base has moved up by the block.
  have hoff : (x - s.pendingBaseSeq).toNat =
      (x - (reported s).pendingBaseSeq).toNat + packetStatusCount s := by
    rw [hbase] at hlt ⊢
    have hx := x.toNat_lt
    have hb := s.pendingBaseSeq.toNat_lt
    simp only [UInt16.toNat_sub, UInt16.toNat_add, UInt16.toNat_ofNat'] at hlt ⊢
    omega
  rw [observed_reported] at hobs
  by_cases hin : (x - s.pendingBaseSeq).toNat % kRingSize < packetStatusCount s
  · rw [if_pos hin] at hobs
    cases hobs
  · rw [if_neg hin] at hobs
    exact ⟨⟨by omega, hobs⟩, hoff, Nat.not_lt.mp hin⟩

/-- Beyond the block and inside the ring what was recorded still is. -/
theorem recorded_later {s : TwccReceiver} {x : UInt16} (h : Recorded s x)
    (hlo : packetStatusCount s ≤ (x - s.pendingBaseSeq).toNat)
    (hhi : (x - s.pendingBaseSeq).toNat < kRingSize) :
    Recorded (reported s) x ∧
      (x - (reported s).pendingBaseSeq).toNat = (x - s.pendingBaseSeq).toNat - packetStatusCount s := by
  have hoff : (x - (reported s).pendingBaseSeq).toNat = (x - s.pendingBaseSeq).toNat - packetStatusCount s :=
    offset_moved s.pendingBaseSeq x hlo
  have hpend := reported_pending s
  have hlt := h.1
  refine ⟨⟨by omega, ?_⟩, hoff⟩
  rw [observed_reported, Nat.mod_eq_of_lt hhi, if_neg (Nat.not_lt.mpr hlo)]
  exact h.2

theorem build_none {s : TwccReceiver} (senderSsrc mediaSsrc : UInt32)
    (h : ∀ seq ∈ block s, observed s.records seq = none) :
    buildFeedbackPacket s senderSsrc mediaSsrc = (s, []) := by
  have hc := build_cases s senderSsrc mediaSsrc
  generalize buildFeedbackPacket s senderSsrc mediaSsrc = out at hc
  cases hc with
  | idle => rfl
  | parked => rfl
  | reported _ hsome =>
    obtain ⟨seq, hmem, hs⟩ := hsome
    rw [h seq hmem] at hs
    cases hs

theorem build_some {s : TwccReceiver} (senderSsrc mediaSsrc : UInt32) (hp : s.hasPending = true)
    (h : ∃ seq ∈ block s, (observed s.records seq).isSome) :
    ∃ p, buildFeedbackPacket s senderSsrc mediaSsrc = (reported s, p) ∧ decodeFeedback p = some (feedback s) := by
  obtain ⟨seq, hmem, hs⟩ := h
  have hlt := mem_block.mp hmem
  have hc := build_cases s senderSsrc mediaSsrc
  generalize hout : buildFeedbackPacket s senderSsrc mediaSsrc = out at hc
  cases hc with
  | idle hn =>
    rcases hn with hn | hn
    · rw [hp] at hn; cases hn
    · unfold packetStatusCount at hlt
      omega
  | parked _ hnone => rw [hnone seq hmem] at hs; cases hs
  | reported _ hsome =>
    have hne : feedbackPacket senderSsrc mediaSsrc s.pendingBaseSeq (statusesFrom none (times s))
        (scan (times s)).referenceTimeUs s.fbPacketCount ≠ [] := by
      intro hnil
      have hlen := congrArg List.length hnil
      rw [feedbackPacket_length, List.length_nil] at hlen
      have := le_totalSize (pack (statusesFrom none (times s))).1 (pack (statusesFrom none (times s))).2
      omega
    exact ⟨_, rfl, (build_packet hout hne).2.2.2.2⟩

theorem marks_iff {s : TwccReceiver} {p : Bytes} (h : decodeFeedback p = some (feedback s)) (x : UInt16) :
    Marks p x ↔ x ∈ block s ∧ (observed s.records x).isSome := by
  obtain ⟨hst, hcover⟩ := statusOf_feedback s x
  constructor
  · rintro ⟨f, st, hf, hstatus, hne⟩
    rw [h] at hf
    cases hf
    obtain ⟨hmem, hiff⟩ := hst st hstatus
    exact ⟨hmem, hiff.mp hne⟩
  · rintro ⟨hmem, hobs⟩
    obtain ⟨st, hstatus⟩ := hcover hmem
    exact ⟨feedback s, st, h, hstatus, (hst st hstatus).2.mpr hobs⟩

/-! ## Blocks with an arrival -/

theorem filled_head {s : TwccReceiver} (h : Filled s) (hpos : 1 ≤ pending s) :
    ∃ seq ∈ block s, (observed s.records seq).isSome := by
  obtain ⟨seq, hrec, hdiv⟩ := h.2 0 (by omega)
  have hlt := hrec.1
  refine ⟨seq, mem_block.mpr ?_, hrec.2⟩
  unfold packetStatusCount
  omega

theorem filled_reported {s : TwccReceiver} (h : Filled s) : Filled (reported s) := by
  have hpend := reported_pending s
  obtain ⟨hring, hblocks⟩ := h
  refine ⟨by omega, fun j hj => ?_⟩
  -- There is more than one block.
  have hcount : packetStatusCount s = 512 := by
    unfold packetStatusCount at hpend ⊢
    omega
  obtain ⟨seq, hrec, hdiv⟩ := hblocks (j + 1) (by omega)
  have hlt := hrec.1
  obtain ⟨hrec', hoff⟩ := recorded_later hrec (by omega) (by omega)
  exact ⟨seq, hrec', by omega⟩

theorem filled_of_reported {s : TwccReceiver} (h : Filled (reported s))
    (hhead : ∃ seq ∈ block s, (observed s.records seq).isSome) : Filled s := by
  have hpend := reported_pending s
  obtain ⟨hring, hblocks⟩ := h
  obtain ⟨first, hmem, hobs⟩ := hhead
  have hfirst := mem_block.mp hmem
  have hcount : packetStatusCount s = min 512 (pending s) := rfl
  have hlater : ∀ j, 512 * (j + 1) < pending s →
      ∃ seq, Recorded s seq ∧ (seq - s.pendingBaseSeq).toNat / 512 = j + 1 ∧
        512 ≤ (seq - s.pendingBaseSeq).toNat % kRingSize := by
    intro j hj
    obtain ⟨seq, hrec, hdiv⟩ := hblocks j (by omega)
    obtain ⟨hrec', hoff, hmod⟩ := recorded_reported hrec
    exact ⟨seq, hrec', by omega, by omega⟩
  constructor
  · -- A fifth block would have to repeat the slots of the first.
    by_contra hgt
    unfold kRingSize at hring hgt
    obtain ⟨seq, hrec, hdiv, hmod⟩ := hlater 3 (by omega)
    unfold kRingSize at hmod
    omega
  · intro j hj
    cases j with
    | zero => exact ⟨first, ⟨by omega, hobs⟩, by omega⟩
    | succ j =>
      obtain ⟨seq, hrec, hdiv, -⟩ := hlater j hj
      exact ⟨seq, hrec, hdiv⟩

/-! ## Builds in a row -/

theorem builds_parked {s : TwccReceiver} (senderSsrc mediaSsrc : UInt32)
    (h : ∀ seq ∈ block s, observed s.records seq = none) :
    ∀ n, (builds senderSsrc mediaSsrc n s).1 = s
  | 0 => rfl
  | n + 1 => by
    rw [builds, build_none senderSsrc mediaSsrc h]
    exact builds_parked senderSsrc mediaSsrc h n

theorem progresses_of_filled (senderSsrc mediaSsrc : UInt32) : ∀ (m : Nat) {s : TwccReceiver}, pending s ≤ m →
    Live s → s.hasPending = true → Filled s → Progresses senderSsrc mediaSsrc s := by
  intro m
  induction m with
  | zero =>
    intro s hm hlive hp _
    have := hlive hp
    omega
  | succ m ih =>
    intro s hm hlive hp hfill
    have hpos := (hlive hp).1
    have hpend := reported_pending s
    have hcount : packetStatusCount s = min 512 (pending s) := rfl
    obtain ⟨p, hbuild, hdecode⟩ := build_some senderSsrc mediaSsrc hp (filled_head hfill hpos)
    by_cases hmore : (reported s).hasPending = true
    · have hmore' := (reported_hasPending s).mp hmore
      obtain ⟨n, hn, hdone, hall⟩ :=
        ih (s := reported s) (by omega) (live_reported hlive hp) hmore (filled_reported hfill)
      refine ⟨n + 1, ?_, ?_, ?_⟩
      · unfold blocks at hn ⊢
        omega
      · rw [builds, hbuild]
        exact hdone
      · intro x hx
        rw [builds, hbuild]
        by_cases hin : x ∈ block s
        · exact ⟨p, List.mem_cons_self, (marks_iff hdecode x).mpr ⟨hin, hx.2⟩⟩
        · have hlo := Nat.not_lt.mp fun hlt => hin (mem_block.mpr hlt)
          have hhi : (x - s.pendingBaseSeq).toNat < kRingSize := lt_of_lt_of_le hx.1 hfill.1
          obtain ⟨q, hq, hmarks⟩ := hall x (recorded_later hx hlo hhi).1
          exact ⟨q, List.mem_cons_of_mem p hq, hmarks⟩
    · refine ⟨1, ?_, ?_, ?_⟩
      · unfold blocks
        omega
      · rw [builds, hbuild]
        simpa [builds] using hmore
      · intro x hx
        rw [builds, hbuild]
        refine ⟨p, List.mem_cons_self, (marks_iff hdecode x).mpr ⟨mem_block.mpr ?_, hx.2⟩⟩
        have hzero := (not_congr (reported_hasPending s)).mp hmore
        have := hx.1
        omega

theorem filled_of_progresses (senderSsrc mediaSsrc : UInt32) : ∀ (m : Nat) {s : TwccReceiver}, pending s ≤ m →
    Live s → s.hasPending = true → Progresses senderSsrc mediaSsrc s → Filled s := by
  intro m
  induction m with
  | zero =>
    intro s hm hlive hp _
    have := hlive hp
    omega
  | succ m ih =>
    intro s hm hlive hp hprog
    have hpos := (hlive hp).1
    have hpend := reported_pending s
    have hcount : packetStatusCount s = min 512 (pending s) := rfl
    obtain ⟨n, hn, hdone, hall⟩ := hprog
    have hhead : ∃ seq ∈ block s, (observed s.records seq).isSome := by
      -- Else no number of builds gets past the first block.
      by_contra hnone
      have hnone : ∀ seq ∈ block s, observed s.records seq = none := by
        intro seq hmem
        rw [← Option.not_isSome_iff_eq_none]
        exact fun hs => hnone ⟨seq, hmem, hs⟩
      rw [builds_parked senderSsrc mediaSsrc hnone, hp] at hdone
      cases hdone
    obtain ⟨p, hbuild, hdecode⟩ := build_some senderSsrc mediaSsrc hp hhead
    refine filled_of_reported ?_ hhead
    by_cases hmore : (reported s).hasPending = true
    · have hmore' := (reported_hasPending s).mp hmore
      cases n with
      | zero =>
        rw [builds, hp] at hdone
        cases hdone
      | succ n =>
        rw [builds, hbuild] at hdone hall
        refine ih (by omega) (live_reported hlive hp) hmore ⟨n, ?_, hdone, fun x hx => ?_⟩
        · unfold blocks at hn ⊢
          omega
        · obtain ⟨hx', hoff, -⟩ := recorded_reported hx
          obtain ⟨q, hq, hmarks⟩ := hall x hx'
          rcases List.mem_cons.mp hq with rfl | hq
          · -- The first packet does not cover what comes after its block.
            have := mem_block.mp ((marks_iff hdecode x).mp hmarks).1
            omega
          · exact ⟨q, hq, hmarks⟩
    · have hzero := (not_congr (reported_hasPending s)).mp hmore
      refine ⟨by omega, fun j hj => ?_⟩
      omega

/-! ## Reachable receivers -/

theorem live_inductive : lts.Inductive Live where
  init s h := by
    rw [show s = {} from h]
    intro hp
    cases hp
  step s op s' hlive hst := by
    cases op with
    | onPacket seq t size => rw [show s' = onPacket s seq t size from hst]; exact onPacket_live hlive seq t size
    | build senderSsrc mediaSsrc p =>
      by_cases hp : p = []
      · subst hp
        rw [build_nil hst]
        exact hlive
      · obtain ⟨rfl, hpending, -⟩ := build_packet hst hp
        exact live_reported hlive hpending
    | reset =>
      rw [show s' = {} from hst]
      intro hp
      cases hp

/-- **Progress.** Of a reachable receiver with something pending, at most as
many builds in a row as the range has blocks report all that is recorded and
leave nothing pending, if and only if the range fits in the ring and each of
its blocks has an arrival. A build returns nothing, and changes nothing, if and
only if the first block has none. -/
theorem feedback_progress {s : TwccReceiver} (h : lts.Reachable s) (hp : s.hasPending = true)
    (senderSsrc mediaSsrc : UInt32) :
    (Progresses senderSsrc mediaSsrc s ↔ Filled s) ∧
      (buildFeedbackPacket s senderSsrc mediaSsrc = (s, []) ↔
        ∀ seq ∈ block s, observed s.records seq = none) := by
  have hlive := live_inductive.reachable s h
  refine ⟨⟨filled_of_progresses senderSsrc mediaSsrc _ (Nat.le_refl _) hlive hp,
    progresses_of_filled senderSsrc mediaSsrc _ (Nat.le_refl _) hlive hp⟩, ?_,
    build_none senderSsrc mediaSsrc⟩
  intro hbuild seq hmem
  by_contra hne
  obtain ⟨p, hreported, hdecode⟩ :=
    build_some senderSsrc mediaSsrc hp ⟨seq, hmem, Option.isSome_iff_ne_none.mpr hne⟩
  rw [hbuild] at hreported
  obtain ⟨-, rfl⟩ := Prod.mk.inj hreported
  cases hdecode

/-- A receiver that has got packet 0 and one further on. -/
def gap (seq : UInt16) : TwccReceiver := onPacket (onPacket {} 0 0 100) seq 1000 100

theorem gap_reachable (seq : UInt16) : lts.Reachable (gap seq) :=
  ⟨{}, [.onPacket 0 0 100, .onPacket seq 1000 100], rfl, .cons rfl (.cons rfl (.nil _))⟩

/-- Two blocks, an arrival in each. -/
theorem feedback_progress_twoBlocks : Progresses 1 2 (gap 600) := by
  refine (feedback_progress (gap_reachable 600) rfl 1 2).1.mpr ⟨by decide, fun j hj => ?_⟩
  have hpend : pending (gap 600) = 601 := by decide
  have hj' : j = 0 ∨ j = 1 := by omega
  rcases hj' with rfl | rfl
  · exact ⟨0, ⟨by decide, by decide⟩, by decide⟩
  · exact ⟨600, ⟨by decide, by decide⟩, by decide⟩

/-- Packets 0 and 1200: the first build reports 0 to 511, and no later one gets
past 512 to 1023. -/
theorem gap_parks :
    let s := (buildFeedbackPacket (gap 1200) 1 2).1
    lts.Reachable s ∧ Recorded s 1200 ∧ buildFeedbackPacket s 1 2 = (s, []) ∧ ¬ Progresses 1 2 s := by
  have hcount : packetStatusCount (gap 1200) = 512 := by decide
  obtain ⟨p, hbuild, -⟩ := build_some (s := gap 1200) 1 2 rfl
    ⟨0, mem_block.mpr (by rw [hcount]; decide), by decide⟩
  have hobs : ∀ x, observed (reported (gap 1200)).records x =
      if x.toNat % kRingSize < 512 then none else if slot x = slot 1200 then some 1000
        else if slot x = slot 0 then some 0 else none := by
    intro x
    rw [observed_reported, hcount, show (gap 1200).pendingBaseSeq = 0 from rfl, sub_zero]
    unfold gap
    rw [onPacket_observed, onPacket_observed]
    rfl
  have hnone : ∀ seq ∈ block (reported (gap 1200)), observed (reported (gap 1200)).records seq = none := by
    intro x hx
    have hx := mem_block.mp hx
    rw [show (reported (gap 1200)).pendingBaseSeq = 512 by decide,
      show packetStatusCount (reported (gap 1200)) = 512 by decide, UInt16.toNat_sub,
      show (512 : UInt16).toNat = 512 from rfl] at hx
    have hlt := x.toNat_lt
    have h1200 : slot 1200 = 1200 := rfl
    have h0 : slot 0 = 0 := rfl
    rw [hobs, h1200, h0]
    unfold slot kRingSize
    rw [if_neg (by omega), if_neg (by omega), if_neg (by omega)]
  simp only [hbuild]
  refine ⟨?_, ⟨by decide, by rw [hobs]; decide⟩, build_none 1 2 hnone, fun hprog => ?_⟩
  · obtain ⟨s₀, ops, h0, hrun⟩ := gap_reachable 1200
    exact ⟨s₀, ops ++ [.build 1 2 p], h0, hrun.snoc (show lts.step _ (.build 1 2 p) _ from hbuild)⟩
  · obtain ⟨n, -, hdone, -⟩ := hprog
    rw [builds_parked 1 2 hnone] at hdone
    cases hdone

end KmVirtualCamera.L2.Twcc
