import Mathlib

/-!
# Ring buffers

A buffer of fixed length whose occupied part starts at `head` and may wrap.
`window b head n` is that part read from the oldest element: the buffer turned
so that `head` comes first, cut to `n`.

* `window_read`: two straight copies read a window.
* `window_drop`: moving `head` on drops the oldest elements.
* `window_write`: two straight copies behind the window append to it.
-/
namespace KmVirtualCamera.Ring

variable {α : Type*}

/-- `std::copy_n(src, n, dst + pos)`. -/
def copyN (src : List α) (n : Nat) (dst : List α) (pos : Nat) : List α :=
  dst.take pos ++ src.take n ++ dst.drop (pos + n)

def window (b : List α) (head n : Nat) : List α := (b.rotate head).take n

/-- Write `data` from `pos` on, going round at most once. -/
def write (b : List α) (pos : Nat) (data : List α) : List α :=
  let first := min data.length (b.length - pos)
  let b' := copyN data first b pos
  if data.length > first then copyN (data.drop first) (data.length - first) b' 0 else b'

/-! ## Straight copies -/

theorem copyN_length {src dst : List α} {n pos : Nat} (hs : n ≤ src.length)
    (hd : pos + n ≤ dst.length) : (copyN src n dst pos).length = dst.length := by
  simp only [copyN, List.length_append, List.length_take, List.length_drop]
  omega

theorem copyN_get {src dst : List α} {n pos : Nat} (hs : n ≤ src.length)
    (hd : pos + n ≤ dst.length) (i : Nat) : (copyN src n dst pos)[i]? =
      if pos ≤ i ∧ i < pos + n then src[i - pos]? else dst[i]? := by
  have hpos : (dst.take pos).length = pos := by simp; omega
  have hn : (src.take n).length = n := by simp; omega
  rw [copyN, List.append_assoc]
  by_cases h1 : i < pos
  · rw [List.getElem?_append_left (by omega), List.getElem?_take_of_lt h1, if_neg (by omega)]
  · rw [List.getElem?_append_right (by omega), hpos]
    by_cases h2 : i < pos + n
    · rw [List.getElem?_append_left (by omega), List.getElem?_take_of_lt (by omega),
        if_pos ⟨by omega, h2⟩]
    · rw [List.getElem?_append_right (by omega), hn, List.getElem?_drop, if_neg (by omega)]
      congr 1
      omega

/-! ## Windows -/

theorem window_length {b : List α} {head n : Nat} (h : n ≤ b.length) :
    (window b head n).length = n := by
  simp [window, h]

theorem mod_wrap {a c : Nat} (h : a < 2 * c) : a % c = if a < c then a else a - c := by
  split
  · exact Nat.mod_eq_of_lt ‹_›
  · rw [Nat.mod_eq_sub_mod (by omega), Nat.mod_eq_of_lt (by omega)]

theorem window_get {b : List α} {head n i : Nat} (hn : n ≤ b.length) (hi : i < n) :
    (window b head n)[i]? = b[(head + i) % b.length]? := by
  rw [window, List.getElem?_take_of_lt hi, List.getElem?_rotate (by omega), Nat.add_comm]

theorem window_read {b : List α} {head n : Nat} (hh : head ≤ b.length) (hn : n ≤ b.length) :
    window b head n = (b.drop head).take n ++ b.take (n - (b.length - head)) := by
  rw [window, List.rotate_eq_drop_append_take hh, List.take_append, List.length_drop,
    List.take_take, Nat.min_eq_left (by omega)]

theorem window_take {b : List α} {head d n : Nat} (h : n ≤ d) :
    window b head n = (window b head d).take n := by
  rw [window, window, List.take_take, Nat.min_eq_left h]

/-- Moving the head on by `t` drops the oldest `t`. -/
theorem window_drop {b : List α} {head d t : Nat} (ht : t ≤ d) (hd : d ≤ b.length) :
    window b ((head + t) % b.length) (d - t) = (window b head d).drop t := by
  apply List.ext_getElem?
  intro i
  by_cases hi : i < d - t
  · rw [window_get (by omega) hi, List.getElem?_drop, window_get hd (by omega), Nat.mod_add_mod,
      Nat.add_assoc]
  · rw [List.getElem?_eq_none (by rw [window_length] <;> omega),
      List.getElem?_eq_none (by rw [List.length_drop, window_length hd]; omega)]

theorem write_length {b data : List α} {pos : Nat} (hp : pos ≤ b.length)
    (hd : data.length ≤ b.length) : (write b pos data).length = b.length := by
  have h1 : (copyN data (min data.length (b.length - pos)) b pos).length = b.length :=
    copyN_length (by omega) (by omega)
  simp only [write]
  split
  · rw [copyN_length (by simp) (by omega), h1]
  · exact h1

theorem write_get {b data : List α} {pos : Nat} (hp : pos < b.length)
    (hd : data.length ≤ b.length) {i : Nat} (hi : i < b.length) : (write b pos data)[i]? =
      if pos ≤ i ∧ i < pos + data.length then data[i - pos]?
      else if i + b.length < pos + data.length then data[i + b.length - pos]? else b[i]? := by
  have h1 : (copyN data (min data.length (b.length - pos)) b pos).length = b.length :=
    copyN_length (by omega) (by omega)
  simp only [write]
  split
  · rename_i hgt
    have hfirst : min data.length (b.length - pos) = b.length - pos := by omega
    rw [copyN_get (by simp) (by omega), copyN_get (by omega) (by omega), hfirst]
    by_cases h2 : i < pos
    · rw [if_neg (by omega : ¬(pos ≤ i ∧ i < pos + (b.length - pos))),
        if_neg (by omega : ¬(pos ≤ i ∧ i < pos + data.length))]
      by_cases h3 : i + b.length < pos + data.length
      · rw [if_pos h3, if_pos (by omega), List.getElem?_drop]
        congr 1
        omega
      · rw [if_neg h3, if_neg (by omega)]
    · rw [if_neg (by omega), if_pos (by omega), if_pos (by omega)]
  · have hfirst : min data.length (b.length - pos) = data.length := by omega
    rw [copyN_get (by omega) (by omega), hfirst]
    by_cases h2 : pos ≤ i ∧ i < pos + data.length
    · rw [if_pos h2, if_pos h2]
    · rw [if_neg h2, if_neg h2, if_neg (by omega)]

/-- Writing behind the window appends to it. -/
theorem window_write {b data : List α} {head d : Nat} (hh : head < b.length)
    (hd : d + data.length ≤ b.length) :
    window (write b ((head + d) % b.length) data) head (d + data.length) =
      window b head d ++ data := by
  have hpos : (head + d) % b.length < b.length := Nat.mod_lt _ (by omega)
  have hlen : (write b ((head + d) % b.length) data).length = b.length :=
    write_length hpos.le (by omega)
  apply List.ext_getElem?
  intro i
  by_cases hi : i < d + data.length
  · -- a slot of the turned buffer is at `head + i`, once round at most
    have hmod := mod_wrap (a := head + i) (c := b.length) (by omega)
    have hmod' := mod_wrap (a := head + d) (c := b.length) (by omega)
    rw [window_get (by omega) hi, hlen, write_get hpos (by omega) (Nat.mod_lt _ (by omega))]
    by_cases hid : i < d
    · rw [List.getElem?_append_left (by rw [window_length] <;> omega), window_get (by omega) hid,
        if_neg (by grind), if_neg (by grind)]
    · rw [List.getElem?_append_right (by rw [window_length] <;> omega), window_length (by omega)]
      by_cases hw : (head + d) % b.length ≤ (head + i) % b.length
      · rw [if_pos (by grind)]
        congr 1
        grind
      · rw [if_neg (by omega), if_pos (by grind)]
        congr 1
        grind
  · rw [List.getElem?_eq_none (by rw [window_length] <;> omega),
      List.getElem?_eq_none (by rw [List.length_append, window_length] <;> omega)]

end KmVirtualCamera.Ring
