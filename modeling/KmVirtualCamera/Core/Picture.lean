import Mathlib

/-!
# Pictures

A picture is a width, a height and a sample at every point of it; outside it
`sample` means nothing, so equality is `Same`. Quarter turns are clockwise and
four of them are none (`turn_four`). `scale` takes the nearest sample, rounded
down, and `inset` puts a picture on a ground of one colour.
-/
namespace KmVirtualCamera

structure Picture (α : Type) where
  width : Nat
  height : Nat
  /-- column, row -/
  sample : Nat → Nat → α

namespace Picture

variable {α : Type} {P Q R : Picture α}

structure Same (P Q : Picture α) : Prop where
  width : P.width = Q.width
  height : P.height = Q.height
  sample : ∀ x < P.width, ∀ y < P.height, P.sample x y = Q.sample x y

theorem Same.refl (P : Picture α) : Same P P := ⟨rfl, rfl, fun _ _ _ _ => rfl⟩

theorem Same.symm (h : Same P Q) : Same Q P :=
  ⟨h.width.symm, h.height.symm, fun x hx y hy => (h.sample x (h.width ▸ hx) y (h.height ▸ hy)).symm⟩

theorem Same.trans (h : Same P Q) (h' : Same Q R) : Same P R :=
  ⟨h.width.trans h'.width, h.height.trans h'.height, fun x hx y hy =>
    (h.sample x hx y hy).trans (h'.sample x (h.width ▸ hx) y (h.height ▸ hy))⟩

/-! ## Turns -/

/-- A quarter turn clockwise: the left column, read upwards, becomes the top row. -/
def turn (P : Picture α) : Picture α := ⟨P.height, P.width, fun x y => P.sample y (P.height - 1 - x)⟩

def turns (k : Nat) (P : Picture α) : Picture α := turn^[k] P

@[simp] theorem turns_zero (P : Picture α) : turns 0 P = P := rfl

theorem turns_succ (k : Nat) (P : Picture α) : turns (k + 1) P = turn (turns k P) :=
  Function.iterate_succ_apply' turn k P

theorem turns_add (j k : Nat) (P : Picture α) : turns (j + k) P = turns j (turns k P) :=
  Function.iterate_add_apply turn j k P

/-- Turned an odd number of times, a picture is as wide as it was high. -/
theorem turns_size (k : Nat) (P : Picture α) :
    (turns k P).width = (if k % 2 = 0 then P.width else P.height) ∧
      (turns k P).height = (if k % 2 = 0 then P.height else P.width) := by
  induction k with
  | zero => exact ⟨rfl, rfl⟩
  | succ k ih =>
    obtain ⟨hw, hh⟩ := ih
    rw [turns_succ]
    refine ⟨hh.trans ?_, hw.trans ?_⟩
    · split
      · rw [if_neg (by omega)]
      · rw [if_pos (by omega)]
    · split
      · rw [if_neg (by omega)]
      · rw [if_pos (by omega)]

theorem Same.turn (h : Same P Q) : Same (turn P) (turn Q) := by
  refine ⟨h.height, h.width, ?_⟩
  intro x hx y hy
  simp only [Picture.turn] at hx hy ⊢
  rw [← h.height]
  exact h.sample y hy _ (by omega)

theorem Same.turns (h : Same P Q) (k : Nat) : Same (turns k P) (turns k Q) := by
  induction k with
  | zero => exact h
  | succ k ih =>
    rw [turns_succ, turns_succ]
    exact ih.turn

theorem turn_four (P : Picture α) : Same (turns 4 P) P := by
  refine ⟨rfl, rfl, ?_⟩
  intro x hx y hy
  change x < P.width at hx
  change y < P.height at hy
  change P.sample (P.width - 1 - (P.width - 1 - x)) (P.height - 1 - (P.height - 1 - y)) = P.sample x y
  rw [show P.width - 1 - (P.width - 1 - x) = x by omega,
    show P.height - 1 - (P.height - 1 - y) = y by omega]

/-! ## Scaling -/

/-- Nearest neighbour, rounded down. -/
def scale (P : Picture α) (width height : Nat) : Picture α :=
  ⟨width, height, fun x y => P.sample (x * P.width / width) (y * P.height / height)⟩

theorem scaled_lt {x n m : Nat} (h : x < n) (hm : 0 < m) : x * m / n < m := by
  rw [Nat.div_lt_iff_lt_mul (by omega), Nat.mul_comm m]
  exact Nat.mul_lt_mul_of_pos_right h hm

theorem scale_self (P : Picture α) : Same (scale P P.width P.height) P := by
  refine ⟨rfl, rfl, ?_⟩
  intro x hx y hy
  change x < P.width at hx
  change y < P.height at hy
  change P.sample (x * P.width / P.width) (y * P.height / P.height) = P.sample x y
  rw [Nat.mul_div_cancel _ (by omega), Nat.mul_div_cancel _ (by omega)]

/-! ## A picture on a ground -/

structure Rect where
  x : Nat
  y : Nat
  width : Nat
  height : Nat

def Rect.Has (r : Rect) (x y : Nat) : Prop :=
  (r.x ≤ x ∧ x < r.x + r.width) ∧ r.y ≤ y ∧ y < r.y + r.height

instance (r : Rect) (x y : Nat) : Decidable (r.Has x y) := inferInstanceAs (Decidable (_ ∧ _))

/-- `P` in the rectangle, `ground` around it. -/
def inset (P : Picture α) (r : Rect) (ground : α) (width height : Nat) : Picture α :=
  ⟨width, height, fun x y => if r.Has x y then P.sample (x - r.x) (y - r.y) else ground⟩

/-- A rectangle that is the whole picture. -/
theorem inset_whole (P : Picture α) (ground : α) :
    Same (inset P ⟨0, 0, P.width, P.height⟩ ground P.width P.height) P := by
  refine ⟨rfl, rfl, ?_⟩
  intro x hx y hy
  change x < P.width at hx
  change y < P.height at hy
  exact if_pos ⟨⟨Nat.zero_le _, by simpa using hx⟩, Nat.zero_le _, by simpa using hy⟩

end Picture

end KmVirtualCamera
