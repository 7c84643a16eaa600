import Mathlib
import KmVirtualCamera.Core.Checked

/-!
# Writes into a buffer

`read` and `write` take a signed index and fault outside the buffer; `loop` is
a counting loop. A loop whose rounds only write is a list of writes (`loop_eq`,
twice for nested loops), and what is in the buffer afterwards is read off the
list: an element that is written to one value has that value (`puts_hit`), one
that is not written is unchanged (`puts_miss`).
-/
namespace KmVirtualCamera.Raster

variable {α σ : Type}

/-- `xs[i]` -/
def read (xs : List α) (i : Int) : Checked α :=
  if i < 0 then .error .outOfBounds else cget xs i.toNat

/-- `xs[i] = v` -/
def write (xs : List α) (i : Int) (v : α) : Checked (List α) :=
  if 0 ≤ i ∧ i.toNat < xs.length then .ok (xs.set i.toNat v) else .error .outOfBounds

/-- `for (int i = 0; i < n; ++i)` -/
def loop (n : Int) (body : Int → σ → Checked σ) (s : σ) : Checked σ :=
  (List.range n.toNat).foldlM (fun s (i : Nat) => body i s) s

theorem read_ok {xs : List α} {i : Nat} {v : α} (h : xs[i]? = some v) : read xs i = .ok v := by
  rw [read, if_neg (by omega), Int.toNat_natCast, cget, h]

theorem write_ok {xs : List α} {i : Nat} (h : i < xs.length) (v : α) :
    write xs i v = .ok (xs.set i v) := by
  rw [write, if_pos ⟨by omega, by rwa [Int.toNat_natCast]⟩, Int.toNat_natCast]

/-! ## Lists of writes -/

/-- The buffer after some writes. -/
def puts (ws : List (Nat × α)) (xs : List α) : List α := ws.foldl (fun xs w => xs.set w.1 w.2) xs

@[simp] theorem puts_nil (xs : List α) : puts [] xs = xs := rfl

theorem puts_append (ws vs : List (Nat × α)) (xs : List α) :
    puts (ws ++ vs) xs = puts vs (puts ws xs) := List.foldl_append

@[simp] theorem puts_length (ws : List (Nat × α)) : ∀ xs : List α, (puts ws xs).length = xs.length := by
  induction ws with
  | nil => exact fun _ => rfl
  | cons w ws ih => exact fun xs => (ih _).trans List.length_set

theorem puts_miss {ws : List (Nat × α)} {i : Nat} : ∀ {xs : List α}, (∀ w ∈ ws, w.1 ≠ i) →
    (puts ws xs)[i]? = xs[i]? := by
  induction ws with
  | nil => exact fun _ => rfl
  | cons w ws ih =>
    intro xs h
    have hrest : (puts ws (xs.set w.1 w.2))[i]? = (xs.set w.1 w.2)[i]? :=
      ih fun v hv => h v (List.mem_cons_of_mem _ hv)
    exact hrest.trans (List.getElem?_set_ne (h w List.mem_cons_self))

theorem puts_hit {ws : List (Nat × α)} {i : Nat} {v : α} : ∀ {xs : List α}, (i, v) ∈ ws →
    (∀ w ∈ ws, w.1 = i → w.2 = v) → i < xs.length → (puts ws xs)[i]? = some v := by
  induction ws with
  | nil => exact fun h => (nomatch h)
  | cons w ws ih =>
    intro xs hmem hone hlt
    change (puts ws (xs.set w.1 w.2))[i]? = some v
    have hlt' : i < (xs.set w.1 w.2).length := by rwa [List.length_set]
    by_cases hlater : ∃ u, (i, u) ∈ ws
    · obtain ⟨u, hu⟩ := hlater
      obtain rfl : u = v := hone (i, u) (List.mem_cons_of_mem _ hu) rfl
      exact ih hu (fun x hx => hone x (List.mem_cons_of_mem _ hx)) hlt'
    · -- the last write of `i`
      rcases List.mem_cons.mp hmem with rfl | hin
      · have hmiss : ∀ w ∈ ws, w.1 ≠ i := by
          rintro ⟨j, u⟩ hu rfl
          exact hlater ⟨u, hu⟩
        rw [puts_miss hmiss, List.getElem?_set_self hlt]
      · exact absurd ⟨v, hin⟩ hlater

/-! ## Loops that write -/

theorem loop_eq {n len : Nat} {body : Int → List α → Checked (List α)} {ws : Nat → List (Nat × α)}
    (h : ∀ i < n, ∀ xs : List α, xs.length = len → body i xs = .ok (puts (ws i) xs)) {xs : List α}
    (hlen : xs.length = len) : loop n body xs = .ok (puts ((List.range n).flatMap ws) xs) := by
  suffices hprefix : ∀ k ≤ n, (List.range k).foldlM (fun s (i : Nat) => body i s) xs =
      .ok (puts ((List.range k).flatMap ws) xs) by
    rw [loop, Int.toNat_natCast]
    exact hprefix n (le_refl n)
  intro k
  induction k with
  | zero => exact fun _ => rfl
  | succ k ih =>
    intro hk
    rw [List.range_succ, List.foldlM_append, ih (by omega), ok_bind, List.flatMap_append, puts_append]
    simp only [List.foldlM_cons, List.foldlM_nil, List.flatMap_cons, List.flatMap_nil, List.append_nil]
    rw [h k (by omega) _ (by rw [puts_length, hlen])]
    rfl

/-- One write a round. -/
theorem loop_write {n len : Nat} {body : Int → List α → Checked (List α)} {w : Nat → Nat × α}
    (h : ∀ i < n, ∀ xs : List α, xs.length = len → body i xs = .ok (xs.set (w i).1 (w i).2))
    {xs : List α} (hlen : xs.length = len) :
    loop n body xs = .ok (puts ((List.range n).map w) xs) := by
  have hloop : loop n body xs = .ok (puts ((List.range n).flatMap fun i => [w i]) xs) :=
    loop_eq (fun i hi xs hx => h i hi xs hx) hlen
  rwa [← List.map_eq_flatMap] at hloop

end KmVirtualCamera.Raster
