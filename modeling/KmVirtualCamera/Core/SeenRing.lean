import Mathlib

/-!
# A ring of the numbers seen last

Things are numbered by `num`, and the one numbered `i` is kept in slot `i mod n`
of a ring, in place of what was there. The ring then still holds each one that
is less than `n` below the highest (`Tracks`), if nothing is taken that is
further down; so a thing in that window that its slot does not hold is new.
-/
namespace KmVirtualCamera.SeenRing

variable {K : Type*} {n : Nat} [NeZero n] {num : K → Nat} {seen : Fin n → K} {taken : List K} {top : Nat}

def slot (n : Nat) [NeZero n] (i : Nat) : Fin n := Fin.ofNat n i

def Tracks (num : K → Nat) (seen : Fin n → K) (taken : List K) (top : Nat) : Prop :=
  ∀ x ∈ taken, num x ≤ top ∧ (top < num x + n → seen (slot n (num x)) = x)

theorem slot_ne {i j : Nat} (hne : i ≠ j) (hij : i < j + n) (hji : j < i + n) : slot n i ≠ slot n j := by
  intro h
  have hmod : i % n = j % n := congrArg Fin.val h
  rcases Nat.lt_or_gt_of_ne hne with hlt | hlt
  · have hdvd := (Nat.modEq_iff_dvd' hlt.le).mp hmod
    exact absurd (Nat.le_of_dvd (by omega) hdvd) (by omega)
  · have hdvd := (Nat.modEq_iff_dvd' hlt.le).mp hmod.symm
    exact absurd (Nat.le_of_dvd (by omega) hdvd) (by omega)

theorem Tracks.nil : Tracks num seen [] top := fun _ h => nomatch h

/-- What is in the window and not in its slot was not taken. -/
theorem Tracks.fresh (h : Tracks num seen taken top) {e : K} (hwindow : top < num e + n)
    (hslot : seen (slot n (num e)) ≠ e) : e ∉ taken :=
  fun he => hslot ((h e he).2 hwindow)

theorem Tracks.insert (hnum : Function.Injective num) (h : Tracks num seen taken top) {e : K}
    (hwindow : top < num e + n) :
    Tracks num (Function.update seen (slot n (num e)) e) (taken ++ [e]) (max top (num e)) := by
  intro x hx
  by_cases hxe : x = e
  · subst hxe
    exact ⟨Nat.le_max_right _ _, fun _ => Function.update_self ..⟩
  · have hx : x ∈ taken := by
      rcases List.mem_append.mp hx with hx | hx
      · exact hx
      · exact absurd (List.mem_singleton.mp hx) hxe
    obtain ⟨hle, hheld⟩ := h x hx
    refine ⟨hle.trans (Nat.le_max_left _ _), ?_⟩
    intro htop
    have hother : slot n (num x) ≠ slot n (num e) :=
      slot_ne (fun heq => hxe (hnum heq)) (by omega) (by omega)
    rw [Function.update_of_ne hother]
    exact hheld (by omega)

end KmVirtualCamera.SeenRing
