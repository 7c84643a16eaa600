import Mathlib
import KmVirtualCamera.L2Machine.DcAssemble

/-!
# The rule for `drain`

Every invariant of the depacketizer is preserved by the same few events: a
frame expires, the cursor is placed, a complete frame is handed on, an
incomplete one is given up, the cursor jumps a gap, a frame behind the cursor
is dropped, the bitrate grows. `DrainInv` lists them with their guards, and
`DrainInv.drain` is the induction over the loops, done once. `accept_cases`
says what a packet can do between two drains; `CallInv` adds these events to
the rule, and `CallInv.accept`, `CallInv.tick` follow.

`drainLoop_done`: the fuel of the `while` loop is never what stops it.
-/
namespace KmVirtualCamera.L2.DcVideo
open KmVirtualCamera.L1.H264 KmVirtualCamera.L1.DcWire

/-! ## Fields that the small steps leave alone -/

section Recover
variable (now : Int) (s : Depacketizer) (b : Batch)

@[simp] theorem recover_pending : (recover now s b).1.pending = s.pending := by
  unfold recover; split <;> rfl
@[simp] theorem recover_bytes : (recover now s b).1.bytes = s.bytes := by
  unfold recover; split <;> rfl
@[simp] theorem recover_expected : (recover now s b).1.expected = s.expected := by
  unfold recover; split <;> rfl
@[simp] theorem recover_initialized : (recover now s b).1.initialized = s.initialized := by
  unfold recover; split <;> rfl
@[simp] theorem recover_waiting : (recover now s b).1.waiting = true := by
  unfold recover; split <;> rfl
@[simp] theorem recover_sps : (recover now s b).1.sps = s.sps := by
  unfold recover; split <;> rfl
@[simp] theorem recover_pps : (recover now s b).1.pps = s.pps := by
  unfold recover; split <;> rfl
@[simp] theorem recover_frames : (recover now s b).2.frames = b.frames := by
  unfold recover; split <;> rfl
@[simp] theorem recover_overflow : (recover now s b).2.overflow = b.overflow := by
  unfold recover; split <;> rfl

end Recover

section Increase
variable (now : Int) (s : Depacketizer) (b : Batch)

@[simp] theorem increase_pending : (increase now s b).1.pending = s.pending := by
  unfold increase; repeat' split
  all_goals rfl
@[simp] theorem increase_bytes : (increase now s b).1.bytes = s.bytes := by
  unfold increase; repeat' split
  all_goals rfl
@[simp] theorem increase_expected : (increase now s b).1.expected = s.expected := by
  unfold increase; repeat' split
  all_goals rfl
@[simp] theorem increase_initialized : (increase now s b).1.initialized = s.initialized := by
  unfold increase; repeat' split
  all_goals rfl
@[simp] theorem increase_waiting : (increase now s b).1.waiting = s.waiting := by
  unfold increase; repeat' split
  all_goals rfl
@[simp] theorem increase_sps : (increase now s b).1.sps = s.sps := by
  unfold increase; repeat' split
  all_goals rfl
@[simp] theorem increase_pps : (increase now s b).1.pps = s.pps := by
  unfold increase; repeat' split
  all_goals rfl
@[simp] theorem increase_frames : (increase now s b).2.frames = b.frames := by
  unfold increase; repeat' split
  all_goals rfl
@[simp] theorem increase_overflow : (increase now s b).2.overflow = b.overflow := by
  unfold increase; repeat' split
  all_goals rfl

end Increase

/-- `assemble` touches the parameter sets and the gate, nothing else. -/
theorem assemble_frame (s : Depacketizer) (f : Frame) :
    (assemble s f).1.pending = s.pending ∧ (assemble s f).1.bytes = s.bytes ∧
      (assemble s f).1.expected = s.expected ∧ (assemble s f).1.initialized = s.initialized := by
  have h := assemble_cases s f
  generalize assemble s f = r at h
  cases h with
  | refused => exact ⟨rfl, rfl, rfl, rfl⟩
  | output => exact ⟨rfl, rfl, rfl, rfl⟩

/-- `handOn` takes the frame under the cursor out and moves the cursor on. -/
theorem handOn_frame (now : Int) (s : Depacketizer) (b : Batch) (f : Frame) :
    (handOn now s b f).1.pending = s.pending.erase s.expected ∧
      (handOn now s b f).1.bytes = s.bytes - f.bytes ∧
      (handOn now s b f).1.expected = s.expected + 1 ∧
      (handOn now s b f).1.initialized = s.initialized ∧
      (handOn now s b f).2.overflow = b.overflow := by
  obtain ⟨h1, h2, h3, h4⟩ := assemble_frame s f
  unfold handOn
  rcases ha : assemble s f with ⟨s', o⟩
  rw [ha] at h1 h2 h3 h4
  rcases o with _ | ⟨ns, out⟩ <;> simp_all [erase]

/-! ## The scans -/

theorem firstKeyframe_some {s : Depacketizer} {e : UInt16 × Frame} (h : firstKeyframe s = some e) :
    e ∈ s.pending.toList ∧ e.2.complete ∧ e.2.stableFlags &&& 1 ≠ 0 := by
  have key : ∀ (l : List (UInt16 × Frame)) (acc : Option (UInt16 × Frame)),
      l.foldl pickFirst acc = some e → acc = some e ∨
        (e ∈ l ∧ e.2.complete ∧ e.2.stableFlags &&& 1 ≠ 0) := by
    intro l
    induction l with
    | nil => intro acc h; exact Or.inl h
    | cons a t ih =>
      intro acc h
      rcases ih _ h with h | ⟨hm, hc⟩
      · unfold pickFirst at h
        split at h
        · rename_i hc
          cases h
          exact Or.inr ⟨List.mem_cons_self .., hc.1, hc.2.1⟩
        · exact Or.inl h
      · exact Or.inr ⟨List.mem_cons_of_mem _ hm, hc⟩
  rcases key _ _ h with h | h
  · cases h
  · exact h

/-- The scan misses no complete keyframe. -/
theorem firstKeyframe_none {s : Depacketizer} (h : firstKeyframe s = none) :
    ∀ e ∈ s.pending.toList, e.2.complete → e.2.stableFlags &&& 1 = 0 := by
  have key : ∀ (l : List (UInt16 × Frame)) (acc : Option (UInt16 × Frame)),
      l.foldl pickFirst acc = none → acc = none ∧ ∀ e ∈ l, e.2.complete → e.2.stableFlags &&& 1 = 0 := by
    intro l
    induction l with
    | nil => intro acc h; exact ⟨h, by simp⟩
    | cons a t ih =>
      intro acc h
      obtain ⟨h1, h2⟩ := ih _ h
      unfold pickFirst at h1
      split at h1
      · cases h1
      · rename_i hn
        subst h1
        refine ⟨rfl, ?_⟩
        intro e he hc
        rcases List.mem_cons.mp he with rfl | he
        · by_contra hf
          exact hn ⟨hc, hf, rfl⟩
        · exact h2 e he hc
  exact (key _ _ h).2

theorem nearest_some {s : Depacketizer} {e : UInt16 × Frame} (h : nearest s = some e) :
    e ∈ s.pending.toList := by
  have key : ∀ (l : List (UInt16 × Frame)) (acc : Option (UInt16 × Frame) × Int),
      (l.foldl (pickNearest s.expected) acc).1 = some e → acc.1 = some e ∨ e ∈ l := by
    intro l
    induction l with
    | nil => intro acc h; exact Or.inl h
    | cons a t ih =>
      intro acc h
      rcases ih _ h with h | hm
      · unfold pickNearest at h
        split at h
        · cases h; exact Or.inr (List.mem_cons_self ..)
        · exact Or.inl h
      · exact Or.inr (List.mem_cons_of_mem _ hm)
  rcases key _ _ h with h | h
  · cases h
  · exact h

/-! ## One turn of the loop -/

/-- What a turn can do, with its guards. -/
inductive Turn (now : Int) (s : Depacketizer) (b : Batch) : Depacketizer × Batch → Prop
  | handOn (f : Frame) (at_cursor : s.pending.find? s.expected = some f) (complete : f.complete) :
      Turn now s b (handOn now s b f)
  | giveUp (f : Frame) (at_cursor : s.pending.find? s.expected = some f) (incomplete : ¬ f.complete)
      (late : now - f.arrival ≥ 10000) :
      Turn now s b (recover now { erase s s.expected f with expected := s.expected + 1 } b)
  | jump (e : UInt16 × Frame) (gap : s.pending.find? s.expected = none) (pick : nearest s = some e)
      (late : ¬ now - e.2.arrival < 10000) :
      Turn now s b (recover now { s with expected := e.1 } b)

theorem drainIter_cases {now : Int} {s : Depacketizer} {b : Batch} {c : Depacketizer × Batch}
    (h : drainIter now s b = some c) : Turn now s b c := by
  unfold drainIter at h
  split at h
  · cases h
  · split at h
    · rename_i f hf
      split at h
      · rename_i hc; cases h; exact .handOn f hf hc
      · rename_i hc
        split at h
        · rename_i hl; cases h; exact .giveUp f hf hc hl
        · cases h
    · rename_i hf
      split at h
      · cases h
      · rename_i e he
        split at h
        · cases h
        · rename_i hl; cases h; exact .jump e hf he hl

/-- Turns left: two for every pending frame, one for a jump. -/
def turnsLeft (s : Depacketizer) : Nat :=
  2 * s.pending.size + if s.pending.find? s.expected = none then 1 else 0

theorem turnsLeft_le (s : Depacketizer) : turnsLeft s ≤ 2 * s.pending.size + 1 := by
  unfold turnsLeft; split <;> omega

theorem turn_decreases {now : Int} {s : Depacketizer} {b : Batch} {c : Depacketizer × Batch}
    (h : Turn now s b c) : turnsLeft c.1 < turnsLeft s := by
  have taken : ∀ {f : Frame} {s' : Depacketizer}, s.pending.find? s.expected = some f →
      s'.pending = s.pending.erase s.expected → turnsLeft s' < turnsLeft s := by
    intro f s' hf hp
    have hlt := OrdMap.size_erase_lt (OrdMap.find?_eq_some.mp hf)
    have hle := turnsLeft_le s'
    have hs : turnsLeft s = 2 * s.pending.size := by simp [turnsLeft, hf]
    rw [hp] at hle
    omega
  cases h with
  | handOn f hf hc => exact taken hf (handOn_frame now s b f).1
  | giveUp f hf hc hl =>
    have hp : (recover now { erase s s.expected f with expected := s.expected + 1 } b).1.pending =
        s.pending.erase s.expected := by simp [erase]
    exact taken hf hp
  | jump e hf he hl =>
    have hm : s.pending.find? e.1 = some e.2 := OrdMap.find?_eq_some.mpr (nearest_some he)
    simp [turnsLeft, hf, hm]

/-- The loop ends because a turn declines, not because the fuel is gone. -/
theorem drainLoop_done (now : Int) : ∀ (n : Nat) (s : Depacketizer) (b : Batch), turnsLeft s ≤ n →
    drainIter now (drainLoop now n s b).1 (drainLoop now n s b).2 = none
  | 0, s, b, h => by
    simp only [drainLoop]
    cases hd : drainIter now s b with
    | none => rfl
    | some c => have := turn_decreases (drainIter_cases hd); omega
  | n + 1, s, b, h => by
    simp only [drainLoop]
    cases hd : drainIter now s b with
    | none => exact hd
    | some c =>
      have := turn_decreases (drainIter_cases hd)
      exact drainLoop_done now n c.1 c.2 (by omega)

/-! ## The rule -/

/-- The events of `drain` preserve `P`. -/
structure DrainInv (now : Int) (P : Depacketizer → Batch → Prop) : Prop where
  expire_ahead : ∀ s b e, P s b → e ∈ s.pending.toList → now - e.2.arrival ≥ 60000 →
    P (recover now (erase s e.1 e.2) b).1 (recover now (erase s e.1 e.2) b).2
  expire_behind : ∀ s b e, P s b → e ∈ s.pending.toList → now - e.2.arrival ≥ 60000 →
    s.initialized = true → P (erase s e.1 e.2) b
  place : ∀ s b e, P s b → s.initialized = false → e ∈ s.pending.toList → e.2.complete →
    e.2.stableFlags &&& 1 ≠ 0 → P { s with expected := e.1, initialized := true } b
  turn : ∀ s b c, P s b → s.initialized = true → Turn now s b c → P c.1 c.2
  purge : ∀ s b e, P s b → s.initialized = true → e ∈ s.pending.toList →
    delta e.1 s.expected < 0 → P (erase s e.1 e.2) b
  increase : ∀ s b, P s b → P (increase now s b).1 (increase now s b).2

theorem mem_erase_other {s : Depacketizer} {a e : UInt16 × Frame} {t : List (UInt16 × Frame)}
    (hn : ((a :: t).map Prod.fst).Nodup) (hsub : ∀ x ∈ a :: t, x ∈ s.pending.toList) (he : e ∈ t) :
    e ∈ (erase s a.1 a.2).pending.toList := by
  refine OrdMap.mem_erase.mpr ⟨hsub e (List.mem_cons_of_mem _ he), ?_⟩
  intro h
  simp only [List.map_cons, List.nodup_cons] at hn
  exact hn.1 (h ▸ List.mem_map_of_mem he)

section Rule
variable {now : Int} {P : Depacketizer → Batch → Prop}

/-- Both erasing loops walk over the entries pending at their start; erasing
one leaves the later ones in place. -/
theorem DrainInv.expire_fold (h : DrainInv now P) : ∀ (l : List (UInt16 × Frame)) (s : Depacketizer)
    (b : Batch), (l.map Prod.fst).Nodup → (∀ e ∈ l, e ∈ s.pending.toList) → P s b →
    P (l.foldl (expireOne now) (s, b)).1 (l.foldl (expireOne now) (s, b)).2
  | [], _, _, _, _, hp => hp
  | a :: t, s, b, hn, hsub, hp => by
    have ha := hsub a (List.mem_cons_self ..)
    have hn' : (t.map Prod.fst).Nodup := by
      rw [List.map_cons, List.nodup_cons] at hn; exact hn.2
    rw [List.foldl_cons]
    unfold expireOne
    split
    · rename_i hlate
      split
      · have hrest : ∀ e ∈ t, e ∈ (recover now (erase s a.1 a.2) b).1.pending.toList := by
          intro e he
          rw [recover_pending]
          exact mem_erase_other hn hsub he
        exact h.expire_fold t _ _ hn' hrest (h.expire_ahead s b a hp ha hlate.2)
      · rename_i hbehind
        have hi : s.initialized = true := by
          by_contra hi; exact hbehind (Or.inl (by simpa using hi))
        exact h.expire_fold t _ _ hn' (fun e he => mem_erase_other hn hsub he)
          (h.expire_behind s b a hp ha hlate.2 hi)
    · exact h.expire_fold t s b hn' (fun e he => hsub e (List.mem_cons_of_mem _ he)) hp

theorem DrainInv.purge_fold (h : DrainInv now P) {b : Batch} : ∀ (l : List (UInt16 × Frame))
    (s : Depacketizer), (l.map Prod.fst).Nodup → (∀ e ∈ l, e ∈ s.pending.toList) →
    s.initialized = true → P s b →
    P (l.foldl (fun s e => if delta e.1 s.expected < 0 then erase s e.1 e.2 else s) s) b
  | [], _, _, _, _, hp => hp
  | a :: t, s, hn, hsub, hi, hp => by
    have ha := hsub a (List.mem_cons_self ..)
    have hn' : (t.map Prod.fst).Nodup := by
      rw [List.map_cons, List.nodup_cons] at hn; exact hn.2
    rw [List.foldl_cons]
    split
    · rename_i hd
      exact h.purge_fold t _ hn' (fun e he => mem_erase_other hn hsub he) hi
        (h.purge s b a hp hi ha hd)
    · exact h.purge_fold t s hn' (fun e he => hsub e (List.mem_cons_of_mem _ he)) hi hp

theorem turn_initialized {s : Depacketizer} {b : Batch} {c : Depacketizer × Batch}
    (h : Turn now s b c) : c.1.initialized = s.initialized := by
  cases h with
  | handOn f hf hc => exact (handOn_frame now s b f).2.2.2.1
  | giveUp f hf hc hl => simp [erase]
  | jump e hf he hl => simp

theorem drainLoop_initialized (now : Int) : ∀ (n : Nat) (s : Depacketizer) (b : Batch),
    (drainLoop now n s b).1.initialized = s.initialized
  | 0, _, _ => rfl
  | n + 1, s, b => by
    simp only [drainLoop]
    cases hd : drainIter now s b with
    | none => rfl
    | some c => exact (drainLoop_initialized now n c.1 c.2).trans (turn_initialized (drainIter_cases hd))

theorem DrainInv.loop (h : DrainInv now P) : ∀ (n : Nat) (s : Depacketizer) (b : Batch),
    s.initialized = true → P s b → P (drainLoop now n s b).1 (drainLoop now n s b).2
  | 0, _, _, _, hp => hp
  | n + 1, s, b, hi, hp => by
    simp only [drainLoop]
    cases hd : drainIter now s b with
    | none => exact hp
    | some c =>
      have ht := drainIter_cases hd
      exact h.loop n c.1 c.2 ((turn_initialized ht).trans hi) (h.turn s b c hp hi ht)

theorem DrainInv.advance (h : DrainInv now P) {s : Depacketizer} {b : Batch}
    (hi : s.initialized = true) (hp : P s b) : P (advance now s b).1 (advance now s b).2 := by
  have hl := h.loop (2 * s.pending.size + 1) s b hi hp
  have hi' := (drainLoop_initialized now (2 * s.pending.size + 1) s b).trans hi
  exact h.increase _ _ (h.purge_fold _ _ (OrdMap.nodup_keys _) (fun _ he => he) hi' hl)

theorem DrainInv.place_some (h : DrainInv now P) {s t : Depacketizer} {b : Batch}
    (hpl : DcVideo.place s = some t) (hp : P s b) : t.initialized = true ∧ P t b := by
  unfold DcVideo.place at hpl
  split at hpl
  · rename_i hi; cases hpl; exact ⟨hi, hp⟩
  · rename_i hi
    obtain ⟨e, he, rfl⟩ := Option.map_eq_some_iff.mp hpl
    obtain ⟨hm, hc, hk⟩ := firstKeyframe_some he
    exact ⟨rfl, h.place s b e hp (by simpa using hi) hm hc hk⟩

/-- **The rule for `drain`.** -/
theorem DrainInv.drain (h : DrainInv now P) {s : Depacketizer} {b : Batch} (hp : P s b) :
    P (drain now s b).1 (drain now s b).2 := by
  have he := h.expire_fold s.pending.toList s b (OrdMap.nodup_keys _) (fun _ he => he) hp
  unfold DcVideo.drain
  simp only [expire]
  split
  · exact he
  · rename_i t ht
    obtain ⟨hi, hp'⟩ := h.place_some ht he
    exact h.advance hi hp'

end Rule

/-! ## What is left after a drain -/

/-- Nothing more can be handed on: no complete keyframe to start at, no
complete frame under the cursor. -/
structure Settled (s : Depacketizer) : Prop where
  unplaced : s.initialized = false → ∀ e ∈ s.pending.toList, e.2.complete → e.2.stableFlags &&& 1 = 0
  placed : s.initialized = true → ∀ f, s.pending.find? s.expected = some f → ¬ f.complete

theorem purge_frame (s : Depacketizer) : (purge s).initialized = s.initialized ∧
    (purge s).expected = s.expected ∧ ∀ e ∈ (purge s).pending.toList, e ∈ s.pending.toList := by
  have key : ∀ (l : List (UInt16 × Frame)) (t : Depacketizer),
      (l.foldl (fun s e => if delta e.1 s.expected < 0 then erase s e.1 e.2 else s) t).initialized =
        t.initialized ∧
      (l.foldl (fun s e => if delta e.1 s.expected < 0 then erase s e.1 e.2 else s) t).expected =
        t.expected ∧
      ∀ e ∈ (l.foldl (fun s e => if delta e.1 s.expected < 0 then erase s e.1 e.2 else s)
        t).pending.toList, e ∈ t.pending.toList := by
    intro l
    induction l with
    | nil => exact fun t => ⟨rfl, rfl, fun e he => he⟩
    | cons a l ih =>
      intro t
      rw [List.foldl_cons]
      split
      · obtain ⟨h1, h2, h3⟩ := ih (erase t a.1 a.2)
        exact ⟨h1, h2, fun e he => (OrdMap.mem_erase.mp (h3 e he)).1⟩
      · exact ih t
  exact key _ s

theorem drain_settled (now : Int) (s : Depacketizer) (b : Batch) : Settled (drain now s b).1 := by
  unfold drain
  simp only
  generalize expire now s b = c
  unfold place
  split
  · rename_i hno
    split at hno
    · cases hno
    · have hk := firstKeyframe_none (Option.map_eq_none_iff.mp hno)
      rename_i hi
      exact ⟨fun _ => hk, fun h0 => absurd h0 hi⟩
  · rename_i t ht
    have hi : t.initialized = true := by
      split at ht
      · rename_i hi; cases ht; exact hi
      · obtain ⟨e, -, rfl⟩ := Option.map_eq_some_iff.mp ht
        rfl
    unfold advance
    simp only
    have hdone := drainLoop_done now _ t c.2 (turnsLeft_le t)
    have hi' := (drainLoop_initialized now (2 * t.pending.size + 1) t c.2).trans hi
    generalize drainLoop now (2 * t.pending.size + 1) t c.2 = d at hdone hi'
    obtain ⟨h1, h2, h3⟩ := purge_frame d.1
    refine ⟨?_, ?_⟩
    · intro h0
      rw [increase_initialized, h1, hi'] at h0; cases h0
    · intro _ f hf hc
      rw [increase_pending, increase_expected, h2] at hf
      have hm : d.1.pending.find? d.1.expected = some f :=
        OrdMap.find?_eq_some.mpr (h3 _ (OrdMap.find?_eq_some.mp hf))
      have hne : d.1.pending.size ≠ 0 := by
        intro h0
        have := OrdMap.find?_eq_some.mp hm
        rw [OrdMap.size_empty_iff.mp h0] at this
        cases this
      unfold drainIter at hdone
      rw [if_neg hne, hm] at hdone
      simp only [hc, if_true] at hdone
      cases hdone

/-! ## A packet -/

theorem fresh_agrees (p : DcPacket) (now : Int) : (Frame.fresh p now).agrees p := ⟨rfl, rfl, rfl⟩

theorem fresh_slot (p : DcPacket) (now : Int) (i : Nat) : (Frame.fresh p now).chunks.getD i [] = [] := by
  simp only [Frame.fresh, List.getD_eq_getElem?_getD, List.getElem?_replicate]
  split <;> rfl

/-- The state with the packet's chunk stored in the frame `f`. -/
def stored (s : Depacketizer) (p : DcPacket) (f : Frame) : Depacketizer :=
  { s with pending := s.pending.insert p.seq (f.store p), bytes := s.bytes + p.payload.length }

/-- The state with a new frame for the packet. -/
def opened (now : Int) (s : Depacketizer) (p : DcPacket) : Depacketizer :=
  { s with pending := s.pending.insert p.seq (Frame.fresh p now) }

theorem stored_opened (now : Int) (s : Depacketizer) (p : DcPacket) (f : Frame) :
    stored (opened now s p) p f = stored s p f := by
  unfold stored opened
  simp only [OrdMap.insert_insert]

/-- The packet is not behind the cursor. -/
def Ahead (s : Depacketizer) (p : DcPacket) : Prop := ¬ (s.initialized = true ∧ delta p.seq s.expected < 0)

/-- The packet would exceed a bound. -/
def Full (s : Depacketizer) (p : DcPacket) : Prop :=
  (s.pending.find? p.seq = none ∧ s.pending.size ≥ kMaxPendingFrames) ∨
    s.bytes + p.payload.length > kMaxPendingBytes

theorem room_of_not_full {s : Depacketizer} {p : DcPacket} (h : ¬ Full s p) :
    (s.pending.find? p.seq = none → s.pending.size < kMaxPendingFrames) ∧
      s.bytes + p.payload.length ≤ kMaxPendingBytes := by
  constructor
  · intro hnone
    by_contra hs
    exact h (.inl ⟨hnone, by omega⟩)
  · by_contra hb
    exact h (.inr (by omega))

/-- What a packet that passed the header check can do, after the first drain
left `c`. -/
inductive Accepted (now : Int) (p : DcPacket) (c : Depacketizer × Batch) : Depacketizer × Batch → Prop
  | stale (late : c.1.initialized = true ∧ delta p.seq c.1.expected < 0) : Accepted now p c c
  | overflow (ahead : Ahead c.1 p) (full : Full c.1 p) : Accepted now p c (overflow now c.1 c.2)
  | fresh (ahead : Ahead c.1 p) (room : ¬ Full c.1 p) (new : c.1.pending.find? p.seq = none) :
      Accepted now p c (drain now (stored (opened now c.1 p) p (Frame.fresh p now)) c.2)
  | store (f : Frame) (ahead : Ahead c.1 p) (room : ¬ Full c.1 p)
      (known : c.1.pending.find? p.seq = some f) (agrees : f.agrees p)
      (empty : f.chunks.getD p.index.toNat [] = []) :
      Accepted now p c (drain now (stored c.1 p f) c.2)
  | duplicate (f : Frame) (ahead : Ahead c.1 p) (known : c.1.pending.find? p.seq = some f)
      (same : f.chunks.getD p.index.toNat [] = p.payload) : Accepted now p c (drain now c.1 c.2)
  | conflict (f : Frame) (ahead : Ahead c.1 p) (known : c.1.pending.find? p.seq = some f)
      (differs : f.agrees p → f.chunks.getD p.index.toNat [] ≠ [] ∧
        f.chunks.getD p.index.toNat [] ≠ p.payload) :
      Accepted now p c
        (drain now (recover now (erase c.1 p.seq f) c.2).1 (recover now (erase c.1 p.seq f) c.2).2)

theorem accept_cases (now : Int) (s : Depacketizer) (p : DcPacket) :
    Accepted now p (drain now s {}) (accept now s p) := by
  unfold accept
  simp only
  generalize drain now s {} = c
  split
  · rename_i hstale
    exact .stale hstale
  rename_i hahead
  split
  · rename_i hfull
    exact .overflow hahead hfull
  rename_i hroom
  cases hf : c.1.pending.find? p.seq with
  | none =>
    rw [Option.getD_none]
    unfold DcVideo.store
    rw [if_neg (not_not.mpr (fresh_agrees p now)), if_pos (fresh_slot p now _)]
    exact .fresh hahead hroom hf
  | some f =>
    rw [Option.getD_some, OrdMap.insert_of_find? hf]
    unfold DcVideo.store
    split
    · rename_i hag
      exact .conflict f hahead hf fun h => absurd h hag
    rename_i hag
    split
    · rename_i hempty
      exact .store f hahead hroom hf (not_not.mp hag) hempty
    rename_i hfilled
    split
    · rename_i hother
      exact .conflict f hahead hf fun _ => ⟨hfilled, hother⟩
    · rename_i hsame
      exact .duplicate f hahead hf (not_not.mp hsame)

/-- The events of a call, besides those of `drain`, preserve `P`. -/
structure CallInv (now : Int) (P : Depacketizer → Batch → Prop) : Prop extends DrainInv now P where
  fresh : ∀ s b (p : DcPacket), P s b → s.pending.find? p.seq = none →
    s.pending.size < kMaxPendingFrames → P (opened now s p) b
  store : ∀ s b (p : DcPacket) f, P s b → s.pending.find? p.seq = some f → f.agrees p →
    f.chunks.getD p.index.toNat [] = [] → s.bytes + p.payload.length ≤ kMaxPendingBytes →
    P (stored s p f) b
  conflict : ∀ s b (p : DcPacket) f, P s b → s.pending.find? p.seq = some f →
    P (recover now (erase s p.seq f) b).1 (recover now (erase s p.seq f) b).2
  idle : ∀ s b, P s b → P (recover now s b).1 (recover now s b).2

section CallRule
variable {now : Int} {P : Depacketizer → Batch → Prop}

/-- **The rule for a packet.** Either `P` holds at the end, or the packet hit
a bound in a state that satisfied `P`; nothing is drained after that. -/
theorem CallInv.accept (h : CallInv now P) {s : Depacketizer} (p : DcPacket) (hp : P s {}) :
    P (accept now s p).1 (accept now s p).2 ∨
      ∃ t b, P t b ∧ accept now s p = overflow now t b := by
  have hd := h.drain hp
  have hc := accept_cases now s p
  generalize DcVideo.drain now s {} = c at hd hc
  generalize DcVideo.accept now s p = r at hc
  cases hc with
  | stale late => exact Or.inl hd
  | overflow ahead full => exact Or.inr ⟨_, _, hd, rfl⟩
  | fresh ahead room new =>
    left
    obtain ⟨hsize, hbytes⟩ := room_of_not_full room
    have hopen := h.fresh _ _ p hd new (hsize new)
    have hfind : (opened now c.1 p).pending.find? p.seq = some (Frame.fresh p now) := by
      unfold opened
      rw [OrdMap.find?_insert, if_pos rfl]
    exact h.drain (h.store _ _ p _ hopen hfind (fresh_agrees p now) (fresh_slot p now _) hbytes)
  | store f ahead room known agrees empty =>
    exact Or.inl (h.drain (h.store _ _ p f hd known agrees empty (room_of_not_full room).2))
  | duplicate f ahead known same => exact Or.inl (h.drain hd)
  | conflict f ahead known differs => exact Or.inl (h.drain (h.conflict _ _ p f hd known))

/-- **The rule for a timer tick.** -/
theorem CallInv.tick (h : CallInv now P) {s : Depacketizer} (hp : P s {}) :
    P (onTimerTickAt s now).1 (onTimerTickAt s now).2 := by
  unfold onTimerTickAt
  split
  · exact hp
  · have hd := h.drain hp
    simp only
    split
    · exact h.idle _ _ hd
    · exact hd

theorem CallInv.packet (h : CallInv now P) {s : Depacketizer} (p : Bytes) (hp : P s {}) :
    P (processPacketAt s p now).1 (processPacketAt s p now).2 ∨
      ∃ t b, P t b ∧ processPacketAt s p now = overflow now t b := by
  unfold processPacketAt
  split
  · exact Or.inl hp
  · split
    · exact Or.inl hp
    · exact h.accept _ hp

end CallRule

end KmVirtualCamera.L2.DcVideo
