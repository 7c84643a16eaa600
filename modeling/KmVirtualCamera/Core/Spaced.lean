import Mathlib

/-!
# Times that are far enough apart

`Spaced d t ts`: the times `ts` are each at least `d` after the one before, the
first after `t`. It is what a timer keeps that is looked at whenever there is
occasion and restarts when it has fired.

* `Spaced.snoc`: the timer fires once more.
* `Spaced.nth`, `Spaced.apart`: how late the times are at least.
* `Spaced.count_le`: how many there can be up to a time.
-/
namespace KmVirtualCamera

def Spaced (d t : Int) (ts : List Int) : Prop := (t :: ts).IsChain fun a b => a + d ≤ b

namespace Spaced
variable {d t x : Int} {ts : List Int}

theorem nil (d t : Int) : Spaced d t [] := List.isChain_singleton t

theorem cons_iff : Spaced d t (x :: ts) ↔ t + d ≤ x ∧ Spaced d x ts := List.isChain_cons_cons

theorem snoc (h : Spaced d t ts) (hx : ts.getLastD t + d ≤ x) : Spaced d t (ts ++ [x]) := by
  induction ts generalizing t with
  | nil => exact cons_iff.mpr ⟨hx, nil d x⟩
  | cons y ts ih =>
    obtain ⟨hy, hts⟩ := cons_iff.mp h
    exact cons_iff.mpr ⟨hy, ih hts (by rwa [List.getLastD_cons] at hx)⟩

/-- The `i`-th time, counted from 0. -/
theorem nth (h : Spaced d t ts) {i : Nat} (hi : ts[i]? = some x) : t + d * (i + 1) ≤ x := by
  induction ts generalizing t i with
  | nil => cases hi
  | cons y ts ih =>
    obtain ⟨hy, hts⟩ := cons_iff.mp h
    cases i with
    | zero =>
      cases hi
      rw [Int.ofNat_zero, Int.zero_add, Int.mul_one]
      exact hy
    | succ i =>
      have hrest := ih hts hi
      rw [Nat.cast_succ, Int.mul_add d (i + 1) 1]
      omega

theorem apart (h : Spaced d t ts) {i k : Nat} {y : Int} (hi : ts[i]? = some x) (hk : ts[i + (k + 1)]? = some y) :
    x + d * (k + 1) ≤ y := by
  induction ts generalizing t i with
  | nil => cases hi
  | cons z ts ih =>
    obtain ⟨hz, hts⟩ := cons_iff.mp h
    cases i with
    | zero =>
      cases hi
      rw [Nat.zero_add] at hk
      exact hts.nth hk
    | succ i =>
      rw [Nat.add_right_comm] at hk
      exact ih hts hi hk

/-- No more than fit between `t` and the last of them. -/
theorem count_le (h : Spaced d t ts) : t + d * ts.length ≤ ts.getLastD t := by
  induction ts generalizing t with
  | nil => simp
  | cons y ts ih =>
    obtain ⟨hy, hts⟩ := cons_iff.mp h
    have hrest := ih hts
    rw [List.length_cons, Nat.cast_succ, Int.mul_add, Int.mul_one, List.getLastD_cons]
    omega

end Spaced
end KmVirtualCamera
