import Mathlib
import KmVirtualCamera.L2Machine.DcReassembly

/-!
# Access units that arrive one after the other

Access units numbered from 0, unit `m` under the sequence number `seqOf m`,
each delivered completely before the next one begins. Within a unit the
packets come in any order, and every call comes less than 10 ms after the
unit's first packet.

`Idle m s`: the first `m` units have been delivered and nothing is pending.
`Arriving m u D T s`: unit `m` is under way, `D i` says that its chunk `i` has
arrived and `T t` that one of its packets came at time `t`. In both the cursor
is at unit `m` or, before the first unit is complete, not placed.

`Arriving.accept`: the next packet of the unit is not stale, and with the last
one the depacketizer is idle at the next unit. There is no bound on the number
of units, so the sequence numbers wrap.
-/
namespace KmVirtualCamera.L2.DcVideo
open KmVirtualCamera.L1.H264 KmVirtualCamera.L1.DcWire

/-- The sequence number of unit `m`. -/
def seqOf (m : Nat) : UInt16 := UInt16.ofNat m

theorem seqOf_succ (m : Nat) : seqOf m + 1 = seqOf (m + 1) := (UInt16.ofNat_add m 1).symm

/-- The cursor is at unit `m`, or still to be placed. -/
structure Cursor (m : Nat) (s : Depacketizer) : Prop where
  inv : Inv s
  placed : s.initialized = true → s.expected = seqOf m
  unplaced : s.initialized = false → m = 0

structure Idle (m : Nat) (s : Depacketizer) : Prop extends Cursor m s where
  empty : s.pending.toList = []

structure Arriving (m : Nat) (u : Shipment) (D : Nat → Prop) (T : Int → Prop)
    (s : Depacketizer) : Prop extends Cursor m s where
  pending : ∀ e ∈ s.pending.toList, e.1 = seqOf m ∧ e.2.Of u ∧ T e.2.arrival
  filled : ∀ f, s.pending.find? (seqOf m) = some f → ∀ i, f.chunks.getD i [] ≠ [] → D i
  cover : ∀ i, D i → ∃ f, s.pending.find? (seqOf m) = some f ∧ f.chunks.getD i [] ≠ []

/-- Every chunk has arrived. -/
def AllOf (u : Shipment) (D : Nat → Prop) : Prop := ∀ i < u.count, D i

theorem idle_start : Idle 0 {} :=
  ⟨⟨inv_start 1, fun h => by simp at h, fun _ => rfl⟩, rfl⟩

section Steps
variable {m : Nat} {u : Shipment} {D : Nat → Prop} {T : Int → Prop} {now : Int}
  {s s' : Depacketizer} {b : Batch}

/-- A unit of which nothing has arrived. -/
theorem Idle.arriving (h : Idle m s) (hD : ∀ i, ¬ D i) : Arriving m u D T s where
  toCursor := h.toCursor
  pending e he := by rw [h.empty] at he; cases he
  filled f hf := by
    have := OrdMap.find?_eq_some.mp hf
    rw [h.empty] at this; cases this
  cover i hi := absurd hi (hD i)

theorem Cursor.congr (h : Cursor m s) (hinv : Inv s') (he : s'.expected = s.expected)
    (hi : s'.initialized = s.initialized) : Cursor m s' :=
  ⟨hinv, fun h1 => he.trans (h.placed (hi.symm.trans h1)), fun h0 => h.unplaced (hi.symm.trans h0)⟩

theorem Idle.congr (h : Idle m s) (hinv : Inv s') (hp : s'.pending = s.pending)
    (he : s'.expected = s.expected) (hi : s'.initialized = s.initialized) : Idle m s' :=
  ⟨h.toCursor.congr hinv he hi, by rw [hp]; exact h.empty⟩

theorem Arriving.congr (h : Arriving m u D T s) (hinv : Inv s') (hp : s'.pending = s.pending)
    (he : s'.expected = s.expected) (hi : s'.initialized = s.initialized) :
    Arriving m u D T s' :=
  ⟨h.toCursor.congr hinv he hi, by rw [hp]; exact h.pending, by rw [hp]; exact h.filled,
    by rw [hp]; exact h.cover⟩

/-- The one pending frame. -/
theorem Arriving.frame (h : Arriving m u D T s) {f : Frame}
    (hf : s.pending.find? (seqOf m) = some f) : f.Of u ∧ T f.arrival :=
  (h.pending _ (OrdMap.find?_eq_some.mp hf)).2

theorem Arriving.size_le (h : Arriving m u D T s) : s.pending.size ≤ 1 := by
  have hn := s.pending.nodup_keys
  have hall := h.pending
  unfold OrdMap.size
  rcases hl : s.pending.toList with _ | ⟨a, _ | ⟨b, l⟩⟩
  · simp
  · simp
  · rw [hl] at hn hall
    have ha := (hall a (by simp)).1
    have hb := (hall b (by simp)).1
    simp [ha, hb] at hn

/-- A complete frame has every chunk, and the other way round. -/
theorem Arriving.complete_iff (h : Arriving m u D T s) {f : Frame}
    (hf : s.pending.find? (seqOf m) = some f) : f.complete ↔ AllOf u D := by
  obtain ⟨hof, -⟩ := h.frame hf
  constructor
  · intro hc i hi
    exact h.filled f hf i (hof.wf.slot hc (hi.trans_eq hof.count.symm))
  · intro hall
    apply hof.wf.complete
    intro i hi
    obtain ⟨g, hg, hs⟩ := h.cover i (hall i (hi.trans_eq hof.count))
    rw [hf] at hg
    cases hg
    exact hs

/-- The frame of unit `m` leaves, and the cursor is at unit `m + 1`. -/
theorem Arriving.handOn (h : Arriving m u D T s) (hi : s.initialized = true) {f : Frame}
    (hf : s.pending.find? s.expected = some f) (hc : f.complete) :
    Idle (m + 1) (handOn now s b f).1 := by
  obtain ⟨hp, -, he, hi', -⟩ := handOn_frame now s b f
  have hinv : Inv (DcVideo.handOn now s {} f).1 := (good_handOn ⟨h.inv, by simp⟩ hi hf hc).1
  have hstate : (DcVideo.handOn now s b f).1 = (DcVideo.handOn now s {} f).1 := by
    unfold DcVideo.handOn
    rcases DcVideo.assemble s f with ⟨s', _ | ⟨ns, out⟩⟩
    · simp only [recover]; split <;> rfl
    · rfl
  refine ⟨⟨hstate ▸ hinv, ?_, ?_⟩, ?_⟩
  · intro _
    rw [he, h.placed hi, seqOf_succ]
  · intro h0
    rw [hi', hi] at h0; cases h0
  · rw [hp, List.eq_nil_iff_forall_not_mem]
    intro e hmem
    obtain ⟨hmem, hk⟩ := OrdMap.mem_erase.mp hmem
    exact hk ((h.pending e hmem).1.trans (h.placed hi).symm)

/-- With nothing pending a drain has nothing to do. -/
theorem Idle.drainInv (m : Nat) (now : Int) : DrainInv now fun s _ => Idle m s where
  expire_ahead s b e h he _ := by rw [h.empty] at he; cases he
  expire_behind s b e h he _ _ := by rw [h.empty] at he; cases he
  place s b e h _ he _ _ := by rw [h.empty] at he; cases he
  turn s b c h _ ht := by
    have none_pending : ∀ e : UInt16 × Frame, e ∉ s.pending.toList := by simp [h.empty]
    cases ht with
    | handOn f hf hc => exact absurd (OrdMap.find?_eq_some.mp hf) (none_pending _)
    | giveUp f hf hc hl => exact absurd (OrdMap.find?_eq_some.mp hf) (none_pending _)
    | jump e hf he hl => exact absurd (nearest_some he) (none_pending _)
  purge s b e h _ he _ := by rw [h.empty] at he; cases he
  increase s b h := h.congr (inv_increase now b h.inv) (by simp) (by simp) (by simp)

/-- A drain in time either leaves the unit under way or hands it on. -/
theorem Arriving.drainInv (m : Nat) (u : Shipment) (D : Nat → Prop) (T : Int → Prop)
    (hT : ∀ t, T t → now - t < 10000) : DrainInv now fun s _ =>
      Arriving m u D T s ∨ (AllOf u D ∧ Idle (m + 1) s) := by
  have hidle := Idle.drainInv (m + 1) now
  have in_time : ∀ {s : Depacketizer} {e : UInt16 × Frame}, Arriving m u D T s →
      e ∈ s.pending.toList → now - e.2.arrival < 10000 := fun h he => hT _ (h.pending _ he).2.2
  refine ⟨?_, ?_, ?_, ?_, ?_, ?_⟩
  · rintro s b e (h | h) he hl
    · have := in_time h he
      omega
    · exact .inr ⟨h.1, hidle.expire_ahead s b e h.2 he hl⟩
  · rintro s b e (h | h) he hl hi
    · have := in_time h he
      omega
    · exact .inr ⟨h.1, hidle.expire_behind s b e h.2 he hl hi⟩
  · rintro s b e (h | h) hi he hc hk
    · refine .inl ⟨⟨?_, fun _ => (h.pending e he).1, fun h0 => by cases h0⟩, h.pending, h.filled,
        h.cover⟩
      exact ⟨h.inv.wf, h.inv.bytes, h.inv.bytes_le, h.inv.size_le, fun h0 => by simp at h0,
        h.inv.sps, h.inv.pps⟩
    · exact .inr ⟨h.1, hidle.place s b e h.2 hi he hc hk⟩
  · rintro s b c (h | h) hi ht
    · cases ht with
      | handOn f hf hc =>
        have hf' := hf
        rw [h.placed hi] at hf'
        exact .inr ⟨(h.complete_iff hf').mp hc, h.handOn hi hf hc⟩
      | giveUp f hf hc hl =>
        have := in_time h (OrdMap.find?_eq_some.mp hf)
        simp only at this
        omega
      | jump e hf he hl => exact absurd (in_time h (nearest_some he)) hl
    · exact .inr ⟨h.1, hidle.turn s b c h.2 hi ht⟩
  · rintro s b e (h | h) hi he hd
    · rw [(h.pending e he).1, h.placed hi, delta_self] at hd
      omega
    · exact .inr ⟨h.1, hidle.purge s b e h.2 hi he hd⟩
  · rintro s b (h | h)
    · exact .inl (h.congr (inv_increase now b h.inv) (by simp) (by simp) (by simp))
    · exact .inr ⟨h.1, hidle.increase s b h.2⟩

/-- Before the last chunk a drain leaves the unit under way. -/
theorem Arriving.drain (h : Arriving m u D T s) (hT : ∀ t, T t → now - t < 10000)
    (hD : ¬ AllOf u D) (b : Batch) : Arriving m u D T (drain now s b).1 :=
  ((Arriving.drainInv m u D T hT).drain (b := b) (.inl h)).resolve_right fun hd => hD hd.1

theorem Idle.drain (h : Idle m s) (now : Int) (b : Batch) : Idle m (DcVideo.drain now s b).1 :=
  (Idle.drainInv m now).drain (b := b) h

/-- With the last chunk there it hands the unit on: the first unit is a
keyframe, so the cursor is placed on it. -/
theorem Arriving.drain_all (h : Arriving m u D T s) (hT : ∀ t, T t → now - t < 10000)
    (hkey : m = 0 → u.flags &&& 1 ≠ 0) (hne : 0 < u.count) (hD : AllOf u D) (b : Batch) :
    Idle (m + 1) (DcVideo.drain now s b).1 := by
  rcases (Arriving.drainInv m u D T hT).drain (b := b) (.inl h) with h' | h'
  · exfalso
    have hset := drain_settled now s b
    obtain ⟨f, hf, -⟩ := h'.cover 0 (hD 0 hne)
    have hc := (h'.complete_iff hf).mpr hD
    cases hi : (DcVideo.drain now s b).1.initialized with
    | true => exact hset.placed hi f (by rw [h'.placed hi]; exact hf) hc
    | false =>
      have hflag := hset.unplaced hi _ (OrdMap.find?_eq_some.mp hf) hc
      rw [(h'.frame hf).1.flags] at hflag
      exact hkey (h'.unplaced hi) hflag
  · exact h'.2

/-! ## A tick -/

theorem Idle.tick (h : Idle m s) (now : Int) : Idle m (onTimerTickAt s now).1 := by
  unfold onTimerTickAt
  split
  · exact h
  · have hd := h.drain now {}
    simp only
    split
    · exact hd.congr (hd.inv.recover _ _) (by simp) (by simp) (by simp)
    · exact hd

theorem Arriving.tick (h : Arriving m u D T s) (hT : ∀ t, T t → now - t < 10000)
    (hD : ¬ AllOf u D) : Arriving m u D T (onTimerTickAt s now).1 := by
  unfold onTimerTickAt
  split
  · exact h
  · have hd := h.drain hT hD {}
    simp only
    split
    · exact hd.congr (hd.inv.recover _ _) (by simp) (by simp) (by simp)
    · exact hd

/-! ## A packet -/

/-- A packet in the slot of the frame `f`, which may be new. -/
theorem Arriving.stored (h : Arriving m u D T s) {p : DcPacket} {i : Nat} {f : Frame}
    (hseq : p.seq = seqOf m) (hp : Carries p u i) (hof : f.Of u) (hT : T f.arrival ∨ f.arrival = now)
    (hempty : f.chunks.getD p.index.toNat [] = [])
    (hslots : ∀ j, f.chunks.getD j [] ≠ [] → D j)
    (hold : ∀ g, s.pending.find? (seqOf m) = some g → g = f) (hinv : Inv (stored s p f)) :
    Arriving m u (fun j => D j ∨ j = i) (fun t => T t ∨ t = now) (stored s p f) := by
  have hslot := store_getD (hof.index_lt hp)
  have hfind : (DcVideo.stored s p f).pending.find? (seqOf m) = some (f.store p) := by
    unfold DcVideo.stored
    rw [hseq, OrdMap.find?_insert, if_pos rfl]
  refine ⟨⟨hinv, h.placed, h.unplaced⟩, ?_, ?_, ?_⟩
  · intro e he
    rcases OrdMap.mem_insert.mp he with rfl | ⟨he, hk⟩
    · exact ⟨hseq, store_of hof hp hempty, hT⟩
    · exact absurd ((h.pending e he).1.trans hseq.symm) hk
  · intro g hg j hj
    rw [hfind] at hg
    cases hg
    rw [hslot] at hj
    split at hj
    · rename_i heq
      exact .inr (heq.trans hp.index)
    · exact .inl (hslots j hj)
  · intro j hj
    refine ⟨_, hfind, ?_⟩
    rw [hslot]
    split
    · exact p.payload_ne
    · rename_i hne
      rcases hj with hj | rfl
      · obtain ⟨g, hg, hs⟩ := h.cover j hj
        rw [← hold g hg]
        exact hs
      · exact absurd hp.index.symm hne

/-- One unit at a time is far below both bounds. -/
theorem Arriving.not_full (h : Arriving m u D T s) {p : DcPacket} : ¬ Full s p := by
  have hsize := h.size_le
  rintro (⟨-, hs⟩ | hb)
  · unfold kMaxPendingFrames at hs
    omega
  · have hbytes : s.bytes ≤ kMaxRaw := by
      rw [h.inv.bytes]
      have hle : ∀ e ∈ s.pending.toList, e.2.bytes ≤ kMaxRaw := by
        intro e he
        have hwf := h.inv.wf e he
        rw [hwf.bytes, ← List.length_flatten]
        exact hwf.length_raw
      have hsum := List.sum_le_card_nsmul (s.pending.toList.map fun e => e.2.bytes) kMaxRaw (by
        intro x hx
        obtain ⟨e, he, rfl⟩ := List.mem_map.mp hx
        exact hle e he)
      unfold OrdMap.size at hsize
      simp only [List.length_map, smul_eq_mul] at hsum
      nlinarith
    have := p.payload_le
    unfold kMaxRaw kMaxPendingBytes kMaxDcChunkPayload at *
    omega

/-- **The next packet of the unit under way.** It is not stale; it is the last
one exactly when the depacketizer is idle at the next unit afterwards. -/
theorem Arriving.accept (h : Arriving m u D T s) (hT : ∀ t, T t → now - t < 10000)
    (hseq : u.seq = seqOf m) (hkey : m = 0 → u.flags &&& 1 ≠ 0) {p : DcPacket} {i : Nat}
    (hp : Carries p u i) (hi : ¬ D i) :
    Ahead (DcVideo.drain now s {}).1 p ∧
      (AllOf u (fun j => D j ∨ j = i) → Idle (m + 1) (accept now s p).1) ∧
      (¬ AllOf u (fun j => D j ∨ j = i) →
        Arriving m u (fun j => D j ∨ j = i) (fun t => T t ∨ t = now) (accept now s p).1) := by
  have hd := h.drain hT (fun hall => hi (hall i hp.lt)) {}
  have hseq' : p.seq = seqOf m := hp.seq.trans hseq
  have hT' : ∀ t, (T t ∨ t = now) → now - t < 10000 := by
    rintro t (ht | rfl)
    · exact hT t ht
    · omega
  have hahead : Ahead (DcVideo.drain now s {}).1 p := by
    rintro ⟨hin, hlt⟩
    rw [hseq', hd.placed hin, delta_self] at hlt
    omega
  -- storing the chunk, then the second drain
  have finish : ∀ {t : Depacketizer} {b : Batch},
      Arriving m u (fun j => D j ∨ j = i) (fun t => T t ∨ t = now) t →
      (AllOf u (fun j => D j ∨ j = i) → Idle (m + 1) (DcVideo.drain now t b).1) ∧
      (¬ AllOf u (fun j => D j ∨ j = i) → Arriving m u (fun j => D j ∨ j = i)
        (fun t => T t ∨ t = now) (DcVideo.drain now t b).1) := fun ht =>
    ⟨fun hall => ht.drain_all hT' hkey (Nat.zero_lt_of_lt hp.lt) hall _,
      fun hnot => ht.drain hT' hnot _⟩
  refine ⟨hahead, ?_⟩
  have hc := accept_cases now s p
  generalize DcVideo.drain now s {} = c at hd hahead hc
  generalize DcVideo.accept now s p = r at hc
  cases hc with
  | stale late => exact absurd late hahead
  | overflow ahead full => exact absurd full hd.not_full
  | fresh ahead room new =>
    rw [stored_opened]
    refine finish (hd.stored hseq' hp (fresh_of hp now) (.inr rfl) (fresh_slot p now _) ?_ ?_
      (hd.inv.stored_fresh now room new))
    · intro j hj
      exact absurd (fresh_slot p now j) hj
    · intro g hg
      rw [← hseq', new] at hg
      cases hg
  | store f ahead room known agrees empty =>
    have known' := known
    rw [hseq'] at known'
    obtain ⟨hof, ht⟩ := hd.frame known'
    exact finish (hd.stored hseq' hp hof (.inl ht) empty (hd.filled f known')
      (fun g hg => Option.some.inj (hg.symm.trans known')) (hd.inv.stored room known agrees empty))
  | duplicate f ahead known same =>
    rw [hseq'] at known
    refine absurd (hd.filled f known i ?_) hi
    rw [← hp.index, same]
    exact p.payload_ne
  | conflict f ahead known differs =>
    rw [hseq'] at known
    obtain ⟨hof, -⟩ := hd.frame known
    refine absurd (hd.filled f known i ?_) hi
    rw [← hp.index]
    exact (differs (hof.agrees hp)).1

end Steps

end KmVirtualCamera.L2.DcVideo
