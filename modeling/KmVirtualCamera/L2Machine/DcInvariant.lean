import Mathlib
import KmVirtualCamera.L2Machine.DcDrain

/-!
# The invariant of the depacketizer

`Inv` holds in every reachable state: the byte counter is the sum over the
pending frames, both bounds are respected, every pending frame is well formed,
the gate is closed while the cursor is not placed, and a cached parameter set
is a valid unit of its type.

`Emission.Sound` holds of everything handed on: `assemble` made it from a
well-formed complete frame in a state that satisfied `Inv`. What is true of
`assemble` in such a state is therefore true of every run
(`reachable_inv`, `emitted_sound`).
-/
namespace KmVirtualCamera.L2.DcVideo
open KmVirtualCamera.L1.H264 KmVirtualCamera.L1.DcWire

/-- The longest access unit that fits in one frame. -/
def kMaxRaw : Nat := 255 * kMaxDcChunkPayload

structure Frame.WF (f : Frame) : Prop where
  pos : 0 < f.count.toNat
  slots : f.chunks.length = f.count.toNat
  received : f.received = f.chunks.countP (· ≠ [])
  bytes : f.bytes = (f.chunks.map List.length).sum
  chunk : ∀ c ∈ f.chunks, c.length ≤ kMaxDcChunkPayload

structure Inv (s : Depacketizer) : Prop where
  wf : ∀ e ∈ s.pending.toList, e.2.WF
  bytes : s.bytes = (s.pending.toList.map fun e => e.2.bytes).sum
  bytes_le : s.bytes ≤ kMaxPendingBytes
  size_le : s.pending.size ≤ kMaxPendingFrames
  gate : s.initialized = false → s.waiting = true
  sps : s.sps ≠ [] → validNalu s.sps = true ∧ naluType s.sps = 7 ∧ s.sps.length ≤ kMaxRaw
  pps : s.pps ≠ [] → validNalu s.pps = true ∧ naluType s.pps = 8 ∧ s.pps.length ≤ kMaxRaw

/-- How a handed-on unit came about. -/
structure Emission.Sound (e : Emission) : Prop where
  wf : e.frame.WF
  complete : e.frame.complete
  made : ∃ s, Inv s ∧ (assemble s e.frame).2 = some (e.nalus, e.out)

/-! ## Frames -/

theorem Frame.fresh_wf (p : DcPacket) (now : Int) : (Frame.fresh p now).WF where
  pos := Nat.lt_of_le_of_lt (Nat.zero_le _) p.index_lt
  slots := by simp [Frame.fresh]
  received := by simp [Frame.fresh, List.countP_replicate]
  bytes := by simp [Frame.fresh]
  chunk c hc := by
    obtain ⟨-, rfl⟩ := List.mem_replicate.mp hc
    simp

/-- Filling an empty slot counts one more chunk and its bytes. -/
theorem sum_set_nil : ∀ {l : List Bytes} {i : Nat} {x : Bytes}, i < l.length → l.getD i [] = [] →
    ((l.set i x).map List.length).sum = (l.map List.length).sum + x.length
  | a :: t, 0, x, _, h => by
    simp only [List.getD_cons_zero] at h
    simp [h]; omega
  | a :: t, i + 1, x, hi, h => by
    simp only [List.getD_cons_succ] at h
    have ih := sum_set_nil (x := x) (by simpa using hi) h
    simp only [List.set_cons_succ, List.map_cons, List.sum_cons, ih]; omega

theorem countP_set_nil : ∀ {l : List Bytes} {i : Nat} {x : Bytes}, i < l.length →
    l.getD i [] = [] → x ≠ [] → (l.set i x).countP (· ≠ []) = l.countP (· ≠ []) + 1
  | a :: t, 0, x, _, h, hx => by
    simp only [List.getD_cons_zero] at h
    simp [h, hx]
  | a :: t, i + 1, x, hi, h, hx => by
    simp only [List.getD_cons_succ] at h
    have ih := countP_set_nil (by simpa using hi) h hx
    simp only [List.set_cons_succ, List.countP_cons, ih]; omega

theorem Frame.store_wf {f : Frame} {p : DcPacket} (h : f.WF) (ha : f.agrees p)
    (hempty : f.chunks.getD p.index.toNat [] = []) : (f.store p).WF := by
  have hi : p.index.toNat < f.chunks.length := by
    rw [h.slots, ha.1]; exact p.index_lt
  refine ⟨h.pos, by simpa [Frame.store] using h.slots, ?_, ?_, ?_⟩
  · simp only [Frame.store]
    rw [countP_set_nil hi hempty p.payload_ne, h.received]
  · simp only [Frame.store]
    rw [sum_set_nil hi hempty, h.bytes]
  · intro c hc
    rcases List.mem_or_eq_of_mem_set hc with hc | rfl
    · exact h.chunk c hc
    · exact p.payload_le

theorem Frame.WF.length_raw {f : Frame} (h : f.WF) : f.raw.length ≤ kMaxRaw := by
  have hsum : (f.chunks.map List.length).sum ≤ f.chunks.length * kMaxDcChunkPayload := by
    have := List.sum_le_card_nsmul (f.chunks.map List.length) kMaxDcChunkPayload
      (by intro n hn; obtain ⟨c, hc, rfl⟩ := List.mem_map.mp hn; exact h.chunk c hc)
    simpa using this
  have hslots : f.chunks.length ≤ 255 := by
    rw [h.slots]; have := f.count.toNat_lt; omega
  unfold Frame.raw kMaxRaw
  rw [List.length_flatten]
  exact hsum.trans (Nat.mul_le_mul_right _ hslots)

/-- In a complete frame no slot is empty. -/
theorem Frame.WF.filled {f : Frame} (h : f.WF) (hc : f.complete) : ∀ c ∈ f.chunks, c ≠ [] := by
  have heq : f.chunks.countP (· ≠ []) = f.chunks.length := by
    rw [← h.received, hc, h.slots]
  intro c hm
  simpa using List.countP_eq_length.mp heq c hm

/-! ## The parameter sets -/

/-- The sets after the pair rule: those of the unit, or the cached ones. -/
theorem nextSets_cases {s : Depacketizer} {ns : List Bytes} {sps pps : Bytes}
    (h : nextSets s (scan ns) = some (sps, pps)) :
    (lastOf 7 ns ≠ [] ∧ lastOf 8 ns ≠ [] ∧ sps = lastOf 7 ns ∧ pps = lastOf 8 ns) ∨
      (lastOf 7 ns = [] ∧ lastOf 8 ns = [] ∧ sps = s.sps ∧ pps = s.pps) := by
  obtain ⟨-, h7, h8⟩ := scan_eq ns
  unfold nextSets at h
  rw [h7, h8] at h
  split at h
  · split at h
    · cases h
    · rename_i hne
      cases h
      simp only [not_or] at hne
      exact Or.inl ⟨hne.1, hne.2, rfl, rfl⟩
  · rename_i hno
    cases h
    simp only [not_or, not_not] at hno
    exact Or.inr ⟨hno.1, hno.2, rfl, rfl⟩

/-- A unit of the input is valid and no longer than the input. -/
theorem splitAccessUnit_unit {raw : Bytes} {ns : List Bytes} (h : splitAccessUnit raw = some ns)
    {n : Bytes} (hn : n ∈ ns) : validNalu n = true ∧ n.length ≤ raw.length := by
  obtain ⟨-, -, hv, hsize⟩ := splitAccessUnit_sound h
  have := List.single_le_sum (by simp) n.length (List.mem_map_of_mem (f := List.length) hn)
  exact ⟨hv n hn, by omega⟩

theorem nextSets_inv {s : Depacketizer} {f : Frame} {ns : List Bytes} {sps pps : Bytes}
    (hi : Inv s) (hf : f.WF) (hsp : splitAccessUnit f.raw = some ns)
    (h : nextSets s (scan ns) = some (sps, pps)) :
    (sps ≠ [] → validNalu sps = true ∧ naluType sps = 7 ∧ sps.length ≤ kMaxRaw) ∧
      (pps ≠ [] → validNalu pps = true ∧ naluType pps = 8 ∧ pps.length ≤ kMaxRaw) := by
  have unit : ∀ {t : UInt8}, lastOf t ns ≠ [] → validNalu (lastOf t ns) = true ∧
      naluType (lastOf t ns) = t ∧ (lastOf t ns).length ≤ kMaxRaw := by
    intro t ht
    obtain ⟨hm, hty⟩ := lastOf_mem ht
    obtain ⟨hv, hl⟩ := splitAccessUnit_unit hsp hm
    exact ⟨hv, hty, hl.trans hf.length_raw⟩
  rcases nextSets_cases h with ⟨h7, h8, rfl, rfl⟩ | ⟨-, -, rfl, rfl⟩
  · exact ⟨fun _ => unit h7, fun _ => unit h8⟩
  · exact ⟨hi.sps, hi.pps⟩

/-! ## Preservation -/

/-- Everything `Inv` reads but the gate is unchanged, and the gate is closed. -/
theorem Inv.close {s s' : Depacketizer} (h : Inv s) (hp : s'.pending = s.pending)
    (hb : s'.bytes = s.bytes) (hw : s'.waiting = true) (h7 : s'.sps = s.sps) (h8 : s'.pps = s.pps) :
    Inv s' := by
  refine ⟨?_, ?_, ?_, ?_, fun _ => hw, ?_, ?_⟩
  · rw [hp]; exact h.wf
  · rw [hb, hp]; exact h.bytes
  · rw [hb]; exact h.bytes_le
  · rw [hp]; exact h.size_le
  · rw [h7]; exact h.sps
  · rw [h8]; exact h.pps

theorem Inv.recover {s : Depacketizer} (h : Inv s) (now : Int) (b : Batch) :
    Inv (recover now s b).1 :=
  h.close (by simp) (by simp) (by simp) (by simp) (by simp)

theorem Inv.erase {s : Depacketizer} (h : Inv s) {e : UInt16 × Frame} (he : e ∈ s.pending.toList) :
    Inv (erase s e.1 e.2) where
  wf e' he' := h.wf e' (OrdMap.mem_erase.mp he').1
  bytes := by
    have hs := OrdMap.sum_erase Frame.bytes he
    have hb := h.bytes
    simp only [DcVideo.erase]
    omega
  bytes_le := (Nat.sub_le _ _).trans h.bytes_le
  size_le := (Nat.le_of_lt (OrdMap.size_erase_lt he)).trans h.size_le
  gate := h.gate
  sps := h.sps
  pps := h.pps

/-- The cursor is not part of the invariant once it is placed. -/
theorem Inv.cursor {s : Depacketizer} (h : Inv s) (n : UInt16) (hi : s.initialized = true) :
    Inv { s with expected := n } :=
  ⟨h.wf, h.bytes, h.bytes_le, h.size_le, fun h0 => by simp [hi] at h0, h.sps, h.pps⟩

theorem Inv.sets {s : Depacketizer} (h : Inv s) {sps pps : Bytes} {w : Bool}
    (h7 : sps ≠ [] → validNalu sps = true ∧ naluType sps = 7 ∧ sps.length ≤ kMaxRaw)
    (h8 : pps ≠ [] → validNalu pps = true ∧ naluType pps = 8 ∧ pps.length ≤ kMaxRaw)
    (hi : s.initialized = true) : Inv { s with sps := sps, pps := pps, waiting := w } :=
  ⟨h.wf, h.bytes, h.bytes_le, h.size_le, fun h0 => by simp [hi] at h0, h7, h8⟩

theorem Inv.assemble {s : Depacketizer} (h : Inv s) {f : Frame} (hf : f.WF)
    (hi : s.initialized = true) : Inv (assemble s f).1 := by
  have ha := assemble_cases s f
  generalize DcVideo.assemble s f = r at ha
  cases ha with
  | refused sps pps sets kept =>
    cases hsp : splitAccessUnit f.raw with
    | none =>
      obtain ⟨rfl, rfl⟩ := kept hsp
      exact h
    | some ns =>
      rcases sets ns hsp with hs | ⟨-, rfl, rfl⟩
      · obtain ⟨t7, t8⟩ := nextSets_inv h hf hsp hs
        exact h.sets t7 t8 hi
      · exact h.sets (fun h0 => absurd rfl h0) (fun h0 => absurd rfl h0) hi
  | output ns sps pps split sets key gate configured =>
    obtain ⟨t7, t8⟩ := nextSets_inv h hf split sets
    exact h.sets t7 t8 hi

/-- The state and the batch of a call in progress. -/
def Good (s : Depacketizer) (b : Batch) : Prop := Inv s ∧ ∀ e ∈ b.frames, e.Sound

theorem good_recover {now : Int} {s : Depacketizer} {b : Batch} (hs : Inv s)
    (hb : ∀ e ∈ b.frames, e.Sound) : Good (recover now s b).1 (recover now s b).2 :=
  ⟨hs.recover now b, by simpa using hb⟩

theorem good_handOn {now : Int} {s : Depacketizer} {b : Batch} {f : Frame} (h : Good s b)
    (hi : s.initialized = true) (hf : s.pending.find? s.expected = some f) (hc : f.complete) :
    Good (handOn now s b f).1 (handOn now s b f).2 := by
  have hm := OrdMap.find?_eq_some.mp hf
  have hwf : f.WF := h.1.wf _ hm
  have hinv := h.1.assemble hwf hi
  obtain ⟨h1, h2, h3, h4⟩ := assemble_frame s f
  unfold handOn
  rcases ha : DcVideo.assemble s f with ⟨s', o⟩
  rw [ha] at hinv h1 h2 h3 h4
  simp only at hinv h1 h2 h3 h4
  have hm' : (s'.expected, f) ∈ s'.pending.toList := by rw [h3, h1]; exact hm
  cases o with
  | none =>
    have hr : Inv (recover now s' b).1 := hinv.recover now b
    have hmr : ((recover now s' b).1.expected, f) ∈ (recover now s' b).1.pending.toList := by
      simpa using hm'
    refine ⟨(hr.erase hmr).cursor _ ?_, by simpa using h.2⟩
    simp [erase, h4, hi]
  | some r =>
    obtain ⟨ns, out⟩ := r
    -- the frame counter is not part of the invariant
    have hcount : Inv { s' with frames := s'.frames + 1 } :=
      ⟨hinv.wf, hinv.bytes, hinv.bytes_le, hinv.size_le, hinv.gate, hinv.sps, hinv.pps⟩
    refine ⟨(hcount.erase hm').cursor _ (h4.trans hi), ?_⟩
    intro e he
    rcases List.mem_append.mp he with he | he
    · exact h.2 e he
    · rw [List.mem_singleton] at he
      subst he
      exact ⟨hwf, hc, s, h.1, by rw [ha]⟩

theorem inv_increase {s : Depacketizer} (now : Int) (b : Batch) (h : Inv s) :
    Inv (increase now s b).1 := by
  refine ⟨?_, ?_, ?_, ?_, ?_, ?_, ?_⟩
  · simpa using h.wf
  · simpa using h.bytes
  · simpa using h.bytes_le
  · simpa using h.size_le
  · simpa using h.gate
  · simpa using h.sps
  · simpa using h.pps

theorem inv_fresh {s : Depacketizer} (h : Inv s) {p : DcPacket} (now : Int)
    (hn : s.pending.find? p.seq = none) (hroom : s.pending.size < kMaxPendingFrames) :
    Inv { s with pending := s.pending.insert p.seq (Frame.fresh p now) } where
  wf e he := by
    rcases OrdMap.mem_insert.mp he with rfl | ⟨he, -⟩
    · exact Frame.fresh_wf p now
    · exact h.wf e he
  bytes := by
    have hs := OrdMap.sum_insert s.pending p.seq (Frame.fresh p now) Frame.bytes
    rw [OrdMap.erase_of_find?_none hn] at hs
    have hz : (Frame.fresh p now).bytes = 0 := rfl
    have hb := h.bytes
    simp only [hs]
    omega
  bytes_le := h.bytes_le
  size_le := by
    have := OrdMap.size_insert s.pending p.seq (Frame.fresh p now)
    rw [OrdMap.erase_of_find?_none hn] at this
    simp only [this]; omega
  gate := h.gate
  sps := h.sps
  pps := h.pps

theorem inv_store {s : Depacketizer} (h : Inv s) {p : DcPacket} {f : Frame}
    (hf : s.pending.find? p.seq = some f) (ha : f.agrees p)
    (hempty : f.chunks.getD p.index.toNat [] = [])
    (hroom : s.bytes + p.payload.length ≤ kMaxPendingBytes) :
    Inv { s with pending := s.pending.insert p.seq (f.store p),
                 bytes := s.bytes + p.payload.length } where
  wf e he := by
    rcases OrdMap.mem_insert.mp he with rfl | ⟨he, -⟩
    · exact Frame.store_wf (h.wf _ (OrdMap.find?_eq_some.mp hf)) ha hempty
    · exact h.wf e he
  bytes := by
    have hi := OrdMap.sum_insert s.pending p.seq (f.store p) Frame.bytes
    have he := OrdMap.sum_erase Frame.bytes (OrdMap.find?_eq_some.mp hf)
    have hb := h.bytes
    have hf' : (f.store p).bytes = f.bytes + p.payload.length := rfl
    simp only [hi]
    omega
  bytes_le := hroom
  size_le := by
    have hi := OrdMap.size_insert s.pending p.seq (f.store p)
    have he := OrdMap.size_erase_lt (OrdMap.find?_eq_some.mp hf)
    have hs := h.size_le
    simp only [hi]; omega
  gate := h.gate
  sps := h.sps
  pps := h.pps

/-- A packet that opens a frame, its chunk stored. -/
theorem Inv.stored_fresh {s : Depacketizer} (h : Inv s) {p : DcPacket} (now : Int) (room : ¬ Full s p)
    (new : s.pending.find? p.seq = none) : Inv (stored s p (Frame.fresh p now)) := by
  obtain ⟨hsize, hbytes⟩ := room_of_not_full room
  have hopen : Inv (opened now s p) := inv_fresh h now new (hsize new)
  have hfind : (opened now s p).pending.find? p.seq = some (Frame.fresh p now) := by
    unfold opened
    rw [OrdMap.find?_insert, if_pos rfl]
  rw [← stored_opened now]
  exact inv_store hopen hfind (fresh_agrees p now) (fresh_slot p now _) hbytes

/-- A packet for an empty slot of a pending frame. -/
theorem Inv.stored {s : Depacketizer} (h : Inv s) {p : DcPacket} {f : Frame} (room : ¬ Full s p)
    (known : s.pending.find? p.seq = some f) (agrees : f.agrees p)
    (empty : f.chunks.getD p.index.toNat [] = []) : Inv (stored s p f) :=
  inv_store h known agrees empty (room_of_not_full room).2

theorem good_callInv (now : Int) : CallInv now Good where
  expire_ahead s b e h he _ := good_recover (h.1.erase he) h.2
  expire_behind s b e h he _ _ := ⟨h.1.erase he, h.2⟩
  place s b e h _ _ _ _ :=
    ⟨⟨h.1.wf, h.1.bytes, h.1.bytes_le, h.1.size_le, fun h0 => by simp at h0, h.1.sps, h.1.pps⟩, h.2⟩
  turn s b c h hi ht := by
    cases ht with
    | handOn f hf hc => exact good_handOn h hi hf hc
    | giveUp f hf hc hl =>
      exact good_recover ((h.1.erase (OrdMap.find?_eq_some.mp hf)).cursor _ hi) h.2
    | jump e hf he hl => exact good_recover (h.1.cursor _ hi) h.2
  purge s b e h _ he _ := ⟨h.1.erase he, h.2⟩
  increase s b h := ⟨inv_increase now b h.1, by simpa using h.2⟩
  fresh s b p h hn hroom := ⟨inv_fresh h.1 _ hn hroom, h.2⟩
  store s b p f h hf ha hempty hroom := ⟨inv_store h.1 hf ha hempty hroom, h.2⟩
  conflict s b p f h hf := good_recover (h.1.erase (OrdMap.find?_eq_some.mp hf)) h.2
  idle s b h := good_recover h.1 h.2

/-! ## Runs -/

theorem inv_start (g : UInt64) : Inv { generation := g } where
  wf e he := by cases he
  bytes := rfl
  bytes_le := Nat.zero_le _
  size_le := Nat.zero_le _
  gate _ := rfl
  sps h := absurd rfl h
  pps h := absurd rfl h

theorem good_overflow {now : Int} {s : Depacketizer} {b : Batch} (h : Good s b) :
    Good (overflow now s b).1 (overflow now s b).2 := by
  have hdrop : Inv { s with pending := .empty, bytes := 0, initialized := false, waiting := true } :=
    ⟨by simp [OrdMap.empty], rfl, Nat.zero_le _, Nat.zero_le _, fun _ => rfl, h.1.sps, h.1.pps⟩
  unfold overflow
  exact ⟨hdrop.close (by simp) (by simp) (by simp) (by simp) (by simp), by simpa using h.2⟩

theorem good_call {s : Depacketizer} (h : Inv s) (c : Call) : Good (call s c).1 (call s c).2 := by
  have h0 : Good s {} := ⟨h, fun e he => by cases he⟩
  cases c with
  | packet p now =>
    simp only [call]
    rcases (good_callInv now).packet p h0 with hg | ⟨t, b, hg, heq⟩
    · exact hg
    · rw [heq]; exact good_overflow hg
  | tick now => exact (good_callInv now).tick h0
  | reset => exact ⟨inv_start _, by simp [call]⟩

theorem inv_inductive : lts.Inductive Inv where
  init s hs := by rw [hs]; exact inv_start 1
  step s l s' h hst := by
    have hg := (good_call h l.1).1
    simp only [lts] at hst
    rwa [hst] at hg

/-- **The invariant** of every reachable state. -/
theorem reachable_inv (s : Depacketizer) (h : lts.Reachable s) : Inv s :=
  inv_inductive.reachable s h

/-- Everything handed on in a run from a state that satisfies the invariant. -/
theorem emitted_sound : ∀ (cs : List Call) {s : Depacketizer}, Inv s →
    ∀ e ∈ emitted (run s cs).2, e.Sound
  | [], _, _, e, he => by cases he
  | c :: cs, s, h, e, he => by
    have hg := good_call h c
    simp only [emitted, run, List.flatMap_cons, List.mem_append] at he
    rcases he with he | he
    · exact hg.2 e he
    · exact emitted_sound cs hg.1 e he

/-- What was handed on, as `assemble` made it. -/
theorem Emission.Sound.output {e : Emission} (h : e.Sound) :
    ∃ s ns sps pps, Inv s ∧ splitAccessUnit e.frame.raw = some ns ∧
      nextSets s (scan ns) = some (sps, pps) ∧ ((scan ns).idr = true → sps ≠ [] ∧ pps ≠ []) ∧
      e.nalus = outNalus (scan ns).idr sps pps ns ∧ e.out.data = annexB e.nalus ∧
      e.out.timestamp = e.frame.timestamp := by
  obtain ⟨s, hs, hm⟩ := h.made
  have ha := assemble_cases s e.frame
  generalize DcVideo.assemble s e.frame = r at ha hm
  cases ha with
  | refused => cases hm
  | output ns sps pps split sets key gate configured =>
    simp only [Option.some.injEq, Prod.mk.injEq] at hm
    obtain ⟨hn, ho⟩ := hm
    refine ⟨s, ns, sps, pps, hs, split, sets, configured, hn.symm, ?_, ?_⟩
    · rw [← ho, ← hn, outData_eq]
    · rw [← ho]

end KmVirtualCamera.L2.DcVideo
