import Mathlib
import KmVirtualCamera.L2Machine.DcDrain

/-!
# The `while` loop of `drain` ends

`Iterates now s b n r`: the loop entered with `s` and `b` runs its body `n`
times and is left with `r`. An iteration takes the frame under the cursor out,
or puts the cursor on a pending frame, which the next one takes out if it does
not leave (`drain_terminates`). Nothing is asked of the state.
-/
namespace KmVirtualCamera.L2.DcVideo

/-- The last iteration is the one that breaks, unless nothing is pending. -/
inductive Iterates (now : Int) : Depacketizer → Batch → Nat → Depacketizer × Batch → Prop
  | finished {s : Depacketizer} {b : Batch} : s.pending.size = 0 → Iterates now s b 0 (s, b)
  | left {s : Depacketizer} {b : Batch} : s.pending.size ≠ 0 → drainIter now s b = none →
      Iterates now s b 1 (s, b)
  | turn {s : Depacketizer} {b : Batch} {c r : Depacketizer × Batch} {n : Nat} :
      drainIter now s b = some c → Iterates now c.1 c.2 n r → Iterates now s b (n + 1) r

/-- The frame under the cursor is taken out. -/
def Removes (s s' : Depacketizer) : Prop :=
  (s.pending.find? s.expected).isSome ∧ s'.pending = s.pending.erase s.expected ∧
    s'.pending.size < s.pending.size

/-- The cursor goes to a pending frame. -/
def Jumps (s s' : Depacketizer) : Prop :=
  s.pending.find? s.expected = none ∧ s'.pending = s.pending ∧ (s.pending.find? s'.expected).isSome

variable {now : Int} {s : Depacketizer} {b : Batch} {c r : Depacketizer × Batch}

theorem removes_of {s' : Depacketizer} {f : Frame} (hf : s.pending.find? s.expected = some f)
    (hp : s'.pending = s.pending.erase s.expected) : Removes s s' := by
  refine ⟨by rw [hf]; rfl, hp, ?_⟩
  rw [hp]
  exact OrdMap.size_erase_lt (OrdMap.find?_eq_some.mp hf)

theorem Turn.step (h : Turn now s b c) : Removes s c.1 ∨ Jumps s c.1 := by
  cases h with
  | handOn f hf => exact .inl (removes_of hf (handOn_frame now s b f).1)
  | giveUp f hf => exact .inl (removes_of hf (by simp [erase]))
  | jump e hf he =>
    have hm : s.pending.find? e.1 = some e.2 := OrdMap.find?_eq_some.mpr (nearest_some he)
    exact .inr ⟨hf, by simp, by simp [hm]⟩

/-- After a jump the cursor is on a frame. -/
theorem Jumps.next (h : Jumps s c.1) {c' : Depacketizer × Batch} (hc : Turn now c.1 c.2 c') :
    Removes c.1 c'.1 := by
  obtain ⟨-, hp, hsome⟩ := h
  rw [← hp] at hsome
  rcases hc.step with hremoves | ⟨hnone, -⟩
  · exact hremoves
  · rw [hnone] at hsome
    cases hsome

/-- Every iteration uses up a turn, and the one that breaks leaves two. -/
theorem Iterates.le {n : Nat} (h : Iterates now s b n r) : n + 1 ≤ turnsLeft s := by
  induction h with
  | finished hempty =>
    rename_i s b
    have hnone : s.pending.find? s.expected = none := by
      refine OrdMap.find?_eq_none.mpr fun v hv => ?_
      rw [OrdMap.size_empty_iff.mp hempty] at hv
      cases hv
    simp [turnsLeft, hnone]
  | left hsize _ =>
    unfold turnsLeft
    omega
  | turn hc _ ih =>
    have hless := turn_decreases (drainIter_cases hc)
    omega

/-- The loop of the model is the loop. -/
theorem iterates_loop : ∀ (n : Nat) (s : Depacketizer) (b : Batch), turnsLeft s ≤ n →
    ∃ k, Iterates now s b k (drainLoop now n s b)
  | 0, s, b, h => by
    have hsize : s.pending.size = 0 := by
      unfold turnsLeft at h
      omega
    exact ⟨0, .finished hsize⟩
  | n + 1, s, b, h => by
    simp only [drainLoop]
    cases hd : drainIter now s b with
    | none =>
      by_cases hsize : s.pending.size = 0
      · exact ⟨0, .finished hsize⟩
      · exact ⟨1, .left hsize hd⟩
    | some c =>
      have hless := turn_decreases (drainIter_cases hd)
      obtain ⟨k, hk⟩ := iterates_loop n c.1 c.2 (by omega)
      exact ⟨k + 1, .turn hd hk⟩

theorem expire_size (now : Int) (s : Depacketizer) (b : Batch) :
    (expire now s b).1.pending.size ≤ s.pending.size := by
  have herase : ∀ (m : OrdMap UInt16 Frame) (k : UInt16), (m.erase k).size ≤ m.size :=
    fun m k => List.length_filter_le ..
  have hfold : ∀ (l : List (UInt16 × Frame)) (c : Depacketizer × Batch),
      (l.foldl (expireOne now) c).1.pending.size ≤ c.1.pending.size := by
    intro l
    induction l with
    | nil => exact fun c => le_refl _
    | cons e l ih =>
      intro c
      refine (ih _).trans ?_
      unfold expireOne
      split
      · split
        · rw [recover_pending]
          exact herase ..
        · exact herase ..
      · exact le_refl _
  exact hfold _ _

/-- **The loop of `drain` ends** within `2 * |pending| + 1` iterations, from
every state: as `drain` enters it, and from wherever an iteration starts. -/
theorem drain_terminates (now : Int) (s : Depacketizer) (b : Batch) :
    (∃ n, Iterates now s b n (drainLoop now (2 * s.pending.size + 1) s b)) ∧
    (∀ n r, Iterates now s b n r → n ≤ 2 * s.pending.size + 1) ∧
    (∀ t, place (expire now s b).1 = some t → ∀ n r, Iterates now t (expire now s b).2 n r →
      n ≤ 2 * s.pending.size + 1) ∧
    ∀ c, drainIter now s b = some c → Removes s c.1 ∨
      (Jumps s c.1 ∧ ∀ c', drainIter now c.1 c.2 = some c' → Removes c.1 c'.1) := by
  have hbound : ∀ {s : Depacketizer} {b : Batch} {n : Nat} {r : Depacketizer × Batch},
      Iterates now s b n r → n ≤ 2 * s.pending.size + 1 := by
    intro s b n r h
    have hle := h.le
    have hleft := turnsLeft_le s
    omega
  refine ⟨iterates_loop _ s b (turnsLeft_le s), fun n r h => hbound h, ?_, ?_⟩
  · intro t ht n r h
    have hsize := expire_size now s b
    have hplaced : t.pending = (expire now s b).1.pending := by
      unfold place at ht
      split at ht
      · cases ht
        rfl
      · obtain ⟨e, -, rfl⟩ := Option.map_eq_some_iff.mp ht
        rfl
    have hle := hbound h
    rw [hplaced] at hle
    omega
  · intro c hc
    refine (drainIter_cases hc).step.imp_right fun hjump => ⟨hjump, ?_⟩
    intro c' hc'
    exact hjump.next (drainIter_cases hc')

end KmVirtualCamera.L2.DcVideo
