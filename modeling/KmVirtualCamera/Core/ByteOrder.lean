import Mathlib

/-!
# Byte order

Fixed-width integers read from and written to byte strings, both orders. The
readers are written with shifts and ORs, as wire code does; `be16_toNat` to
`le32_toNat` give them their arithmetic meaning, and the writers are their
inverses. `leBytes` writes any number of bytes, the low one first, and `leNat`
reads them.
-/
namespace KmVirtualCamera.ByteOrder

def be16 (b0 b1 : UInt8) : UInt16 := b0.toUInt16 <<< 8 ||| b1.toUInt16

def be32 (b0 b1 b2 b3 : UInt8) : UInt32 :=
  b0.toUInt32 <<< 24 ||| b1.toUInt32 <<< 16 ||| b2.toUInt32 <<< 8 ||| b3.toUInt32

def le16 (b0 b1 : UInt8) : UInt16 := b0.toUInt16 ||| b1.toUInt16 <<< 8

def le32 (b0 b1 b2 b3 : UInt8) : UInt32 :=
  (le16 b0 b1).toUInt32 ||| (le16 b2 b3).toUInt32 <<< 16

def be16Bytes (n : Nat) : List UInt8 := [UInt8.ofNat (n >>> 8), UInt8.ofNat n]

def be32Bytes (n : Nat) : List UInt8 :=
  [UInt8.ofNat (n >>> 24), UInt8.ofNat (n >>> 16), UInt8.ofNat (n >>> 8), UInt8.ofNat n]

def le16Bytes (n : UInt16) : List UInt8 := [n.toUInt8, (n >>> 8).toUInt8]

def le32Bytes (n : UInt32) : List UInt8 :=
  [n.toUInt8, (n >>> 8).toUInt8, (n >>> 16).toUInt8, (n >>> 24).toUInt8]

/-- ORing in bits below position `k` is adding them. -/
theorem mul_or {x y : Nat} (k : Nat) (h : y < 2 ^ k) : x * 2 ^ k ||| y = x * 2 ^ k + y := by
  rw [Nat.mul_comm, Nat.two_pow_add_eq_or_of_lt h]

theorem be16_toNat (b0 b1 : UInt8) : (be16 b0 b1).toNat = b0.toNat * 2 ^ 8 + b1.toNat := by
  have h0 := b0.toNat_lt
  have h1 := b1.toNat_lt
  simp only [be16, UInt16.toNat_or, UInt16.toNat_shiftLeft, UInt8.toNat_toUInt16, Nat.shiftLeft_eq,
    UInt16.reduceToNat, Nat.reduceMod]
  rw [Nat.mod_eq_of_lt (by omega), mul_or 8 h1]

theorem le16_toNat (b0 b1 : UInt8) : (le16 b0 b1).toNat = b0.toNat + b1.toNat * 2 ^ 8 := by
  have h0 := b0.toNat_lt
  have h1 := b1.toNat_lt
  simp only [le16, UInt16.toNat_or, UInt16.toNat_shiftLeft, UInt8.toNat_toUInt16, Nat.shiftLeft_eq,
    UInt16.reduceToNat, Nat.reduceMod]
  rw [Nat.mod_eq_of_lt (by omega), Nat.or_comm, mul_or 8 h0, Nat.add_comm]

theorem be32_toNat (b0 b1 b2 b3 : UInt8) :
    (be32 b0 b1 b2 b3).toNat = b0.toNat * 2 ^ 24 + b1.toNat * 2 ^ 16 + b2.toNat * 2 ^ 8 + b3.toNat := by
  have h0 := b0.toNat_lt
  have h1 := b1.toNat_lt
  have h2 := b2.toNat_lt
  have h3 := b3.toNat_lt
  simp only [be32, UInt32.toNat_or, UInt32.toNat_shiftLeft, UInt8.toNat_toUInt32, Nat.shiftLeft_eq,
    UInt32.reduceToNat, Nat.reduceMod]
  rw [Nat.mod_eq_of_lt (show b0.toNat * 2 ^ 24 < 2 ^ 32 by omega),
    Nat.mod_eq_of_lt (show b1.toNat * 2 ^ 16 < 2 ^ 32 by omega),
    Nat.mod_eq_of_lt (show b2.toNat * 2 ^ 8 < 2 ^ 32 by omega), mul_or 24 (by omega),
    show b0.toNat * 2 ^ 24 + b1.toNat * 2 ^ 16 = (b0.toNat * 2 ^ 8 + b1.toNat) * 2 ^ 16 by omega,
    mul_or 16 (by omega),
    show (b0.toNat * 2 ^ 8 + b1.toNat) * 2 ^ 16 + b2.toNat * 2 ^ 8 =
      (b0.toNat * 2 ^ 16 + b1.toNat * 2 ^ 8 + b2.toNat) * 2 ^ 8 by omega, mul_or 8 h3]

theorem le32_toNat (b0 b1 b2 b3 : UInt8) :
    (le32 b0 b1 b2 b3).toNat = b0.toNat + b1.toNat * 2 ^ 8 + b2.toNat * 2 ^ 16 + b3.toNat * 2 ^ 24 := by
  have h0 := b0.toNat_lt
  have h1 := b1.toNat_lt
  have h2 := b2.toNat_lt
  have h3 := b3.toNat_lt
  simp only [le32, UInt32.toNat_or, UInt32.toNat_shiftLeft, UInt16.toNat_toUInt32, le16_toNat,
    Nat.shiftLeft_eq, UInt32.reduceToNat, Nat.reduceMod]
  rw [Nat.mod_eq_of_lt (by omega), Nat.or_comm, mul_or 16 (by omega)]
  omega

theorem be16_be16Bytes {n : Nat} (h : n < 2 ^ 16) :
    (be16 (UInt8.ofNat (n >>> 8)) (UInt8.ofNat n)).toNat = n := by
  rw [be16_toNat]
  simp only [UInt8.toNat_ofNat', Nat.shiftRight_eq_div_pow]
  omega

theorem be16Bytes_be16 (b0 b1 : UInt8) : be16Bytes (be16 b0 b1).toNat = [b0, b1] := by
  have h0 := b0.toNat_lt
  have h1 := b1.toNat_lt
  rw [be16_toNat]
  simp only [be16Bytes, List.cons.injEq, and_true, ← UInt8.toNat_inj, UInt8.toNat_ofNat',
    Nat.shiftRight_eq_div_pow]
  omega

theorem be32_be32Bytes {n : Nat} (h : n < 2 ^ 32) {b0 b1 b2 b3 : UInt8}
    (hb : be32Bytes n = [b0, b1, b2, b3]) : (be32 b0 b1 b2 b3).toNat = n := by
  simp only [be32Bytes, List.cons.injEq, and_true] at hb
  obtain ⟨rfl, rfl, rfl, rfl⟩ := hb
  rw [be32_toNat]
  simp only [UInt8.toNat_ofNat', Nat.shiftRight_eq_div_pow]
  omega

theorem be32Bytes_be32 (b0 b1 b2 b3 : UInt8) : be32Bytes (be32 b0 b1 b2 b3).toNat = [b0, b1, b2, b3] := by
  have h0 := b0.toNat_lt
  have h1 := b1.toNat_lt
  have h2 := b2.toNat_lt
  have h3 := b3.toNat_lt
  rw [be32_toNat]
  simp only [be32Bytes, List.cons.injEq, and_true, ← UInt8.toNat_inj, UInt8.toNat_ofNat',
    Nat.shiftRight_eq_div_pow]
  omega

theorem le16_le16Bytes (n : UInt16) : le16 n.toUInt8 (n >>> 8).toUInt8 = n := by
  apply UInt16.toNat_inj.mp
  have := n.toNat_lt
  rw [le16_toNat]
  simp only [UInt16.toNat_toUInt8, UInt16.toNat_shiftRight, UInt16.reduceToNat, Nat.reduceMod,
    Nat.shiftRight_eq_div_pow]
  omega

theorem le32_le32Bytes (n : UInt32) :
    le32 n.toUInt8 (n >>> 8).toUInt8 (n >>> 16).toUInt8 (n >>> 24).toUInt8 = n := by
  apply UInt32.toNat_inj.mp
  have := n.toNat_lt
  rw [le32_toNat]
  simp only [UInt32.toNat_toUInt8, UInt32.toNat_shiftRight, UInt32.reduceToNat, Nat.reduceMod,
    Nat.shiftRight_eq_div_pow]
  omega

def leBytes : Nat → Nat → List UInt8
  | 0, _ => []
  | k + 1, n => UInt8.ofNat n :: leBytes k (n / 256)

@[simp] theorem leBytes_length (k n : Nat) : (leBytes k n).length = k := by
  induction k generalizing n with
  | zero => rfl
  | succ k ih => simp [leBytes, ih]

theorem leBytes_inj {k n m : Nat} (hn : n < 256 ^ k) (hm : m < 256 ^ k)
    (h : leBytes k n = leBytes k m) : n = m := by
  induction k generalizing n m with
  | zero =>
    rw [Nat.pow_zero] at hn hm
    omega
  | succ k ih =>
    obtain ⟨hlow, hrest⟩ := List.cons.inj h
    rw [Nat.pow_succ] at hn hm
    have hhigh := ih (by omega) (by omega) hrest
    have := congrArg UInt8.toNat hlow
    rw [UInt8.toNat_ofNat', UInt8.toNat_ofNat'] at this
    omega

/-- The number a byte string writes, the low byte first. -/
def leNat : List UInt8 → Nat
  | [] => 0
  | b :: bs => b.toNat + 256 * leNat bs

theorem leNat_lt (bs : List UInt8) : leNat bs < 256 ^ bs.length := by
  induction bs with
  | nil => exact Nat.one_pos
  | cons b bs ih =>
    have := b.toNat_lt
    rw [leNat, List.length_cons, Nat.pow_succ]
    omega

theorem leBytes_leNat (bs : List UInt8) : leBytes bs.length (leNat bs) = bs := by
  induction bs with
  | nil => rfl
  | cons b bs ih =>
    have hb := b.toNat_lt
    have hlow : UInt8.ofNat (leNat (b :: bs)) = b := by
      rw [← UInt8.toNat_inj, UInt8.toNat_ofNat', leNat]
      omega
    have hhigh : leNat (b :: bs) / 256 = leNat bs := by
      rw [leNat]
      omega
    rw [List.length_cons, leBytes, hlow, hhigh, ih]

end KmVirtualCamera.ByteOrder
