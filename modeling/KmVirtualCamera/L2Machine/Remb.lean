import Mathlib
import KmVirtualCamera.L2Machine.RtcpReception

/-!
# The bitrate request (REMB)

A bitrate of 32 bits is sent as an exponent of six bits and a mantissa of
eighteen. `scale` halves it until it fits; `remb_tight` says that what a
receiver reads is the bitrate with its low bits gone, and never more.
-/
namespace KmVirtualCamera.L2.Remb
open KmVirtualCamera.ByteOrder KmVirtualCamera.L1.RtpWire
open KmVirtualCamera.L2.RtcpReception (Session)

/-- mirrors shared/receiver/rtc/enhanced_rtcp_session.cpp:74 -/
def scale (exponent : UInt8) (bitrate : UInt32) : UInt8 × UInt32 :=
  if bitrate > 0x3ffff then scale (exponent + 1) (bitrate >>> 1) else (exponent, bitrate)
termination_by bitrate.toNat
decreasing_by
  have hbig := UInt32.lt_iff_toNat_lt.mp ‹_›
  simp only [UInt32.toNat_shiftRight, UInt32.reduceToNat, Nat.reduceMod, Nat.shiftRight_eq_div_pow] at hbig ⊢
  omega

/-- mirrors shared/receiver/rtc/enhanced_rtcp_session.cpp:13-18 -/
def header (size : Nat) (type count : UInt8) : Bytes :=
  [128 ||| count, type, UInt8.ofNat ((size / 4 - 1) >>> 8), UInt8.ofNat (size / 4 - 1)] ++ be32Bytes 1

/-- mirrors shared/receiver/rtc/enhanced_rtcp_session.cpp:71-77 -/
def remb (s : Session) (bitrate : UInt32) : Bytes :=
  let (exponent, bitrate) := scale 0 bitrate
  header 24 206 15 ++ ([0, 0, 0, 0, 0x52, 0x45, 0x4d, 0x42, 1] : Bytes) ++
    ([(exponent.toUInt32 <<< 2 ||| bitrate >>> 16).toUInt8, (bitrate >>> 8).toUInt8, bitrate.toUInt8] : Bytes) ++
    be32Bytes s.ssrc.toNat

/-! ## How it is read -/

def exponentOf (m : Bytes) : Nat := (m.getD 17 0).toNat / 2 ^ 2

def mantissaOf (m : Bytes) : Nat :=
  (m.getD 17 0).toNat % 2 ^ 2 * 2 ^ 16 + (m.getD 18 0).toNat * 2 ^ 8 + (m.getD 19 0).toNat

def bitrateOf (m : Bytes) : Nat := mantissaOf m * 2 ^ exponentOf m

/-! ## The loop -/

/-- `e` halvings bring `n` below 2^18, and no fewer do. -/
structure Scaled (n e : Nat) : Prop where
  exponent : e ≤ 14
  fits : n / 2 ^ e < 2 ^ 18
  least : e = 0 ∨ 2 ^ 17 ≤ n / 2 ^ e

theorem half_toNat (b : UInt32) : (b >>> 1).toNat = b.toNat / 2 := by
  rw [UInt32.toNat_shiftRight]
  simp [Nat.shiftRight_eq_div_pow]

theorem scale_small {b : UInt32} (h : b.toNat < 2 ^ 18) (x : UInt8) : scale x b = (x, b) := by
  rw [scale, if_neg]
  intro hbig
  have := UInt32.lt_iff_toNat_lt.mp hbig
  simp only [UInt32.reduceToNat] at this
  omega

theorem scale_big {b : UInt32} (h : 2 ^ 18 ≤ b.toNat) (x : UInt8) : scale x b = scale (x + 1) (b >>> 1) := by
  rw [scale, if_pos]
  refine UInt32.lt_iff_toNat_lt.mpr ?_
  simp only [UInt32.reduceToNat]
  omega

/-- By induction on how many bits above the eighteenth there may be. -/
theorem scale_halves : ∀ (k : Nat) (b : UInt32) (x : UInt8), b.toNat < 2 ^ (18 + k) →
    ∃ e ≤ k, (scale x b).1 = x + UInt8.ofNat e ∧ (scale x b).2.toNat = b.toNat / 2 ^ e ∧
      b.toNat / 2 ^ e < 2 ^ 18 ∧ (e = 0 ∨ 2 ^ 17 ≤ b.toNat / 2 ^ e) := by
  intro k
  induction k with
  | zero =>
    intro b x hb
    rw [scale_small hb]
    exact ⟨0, le_refl 0, by simp, by simp, by simpa using hb, .inl rfl⟩
  | succ k ih =>
    intro b x hb
    by_cases hsmall : b.toNat < 2 ^ 18
    · rw [scale_small hsmall]
      exact ⟨0, Nat.zero_le _, by simp, by simp, by simpa using hsmall, .inl rfl⟩
    · have hhalf := half_toNat b
      have hbound : (b >>> 1).toNat < 2 ^ (18 + k) := by
        rw [← Nat.add_assoc, Nat.pow_succ] at hb
        omega
      obtain ⟨e, he, hexp, hman, hfits, hleast⟩ := ih (b >>> 1) (x + 1) hbound
      have hdiv : (b >>> 1).toNat / 2 ^ e = b.toNat / 2 ^ (e + 1) := by
        rw [hhalf, Nat.div_div_eq_div_mul, Nat.pow_succ']
      rw [scale_big (by omega)]
      refine ⟨e + 1, Nat.succ_le_succ he, ?_, hman.trans hdiv, hdiv ▸ hfits, .inr ?_⟩
      · rw [hexp, Nat.add_comm e 1, UInt8.ofNat_add, UInt8.add_assoc]
        rfl
      · rcases hleast with rfl | hleast
        · rw [← hdiv]
          simp only [Nat.pow_zero, Nat.div_one]
          omega
        · exact hdiv ▸ hleast

theorem scale_spec (b : UInt32) : ∃ e, Scaled b.toNat e ∧ (scale 0 b).1.toNat = e ∧
    (scale 0 b).2.toNat = b.toNat / 2 ^ e := by
  obtain ⟨e, he, hexp, hman, hfits, hleast⟩ := scale_halves 14 b 0 b.toNat_lt
  refine ⟨e, ⟨he, hfits, hleast⟩, ?_, hman⟩
  rw [hexp, UInt8.zero_add, UInt8.toNat_ofNat']
  exact Nat.mod_eq_of_lt (by omega)

/-! ## The three bytes -/

/-- The exponent's bits and the mantissa's do not meet. -/
theorem first_byte {x : UInt8} {b : UInt32} (hx : x.toNat < 64) (hb : b.toNat < 2 ^ 18) :
    (x.toUInt32 <<< 2 ||| b >>> 16).toUInt8.toNat = x.toNat * 2 ^ 2 + b.toNat / 2 ^ 16 := by
  have hhigh : b.toNat / 2 ^ 16 < 2 ^ 2 := by omega
  simp only [UInt32.toNat_toUInt8, UInt32.toNat_or, UInt32.toNat_shiftLeft, UInt32.toNat_shiftRight,
    UInt8.toNat_toUInt32, Nat.shiftLeft_eq, Nat.shiftRight_eq_div_pow, UInt32.reduceToNat, Nat.reduceMod]
  rw [Nat.mod_eq_of_lt (show x.toNat * 2 ^ 2 < 2 ^ 32 by omega), mul_or 2 hhigh]
  omega

theorem disjoint_bits (x : UInt8) {b : UInt32} (hb : b.toNat < 2 ^ 18) : x.toUInt32 <<< 2 &&& b >>> 16 = 0 := by
  have hhigh : b.toNat / 2 ^ 16 < 2 ^ 2 := by omega
  apply UInt32.toNat_inj.mp
  simp only [UInt32.toNat_and, UInt32.toNat_shiftLeft, UInt32.toNat_shiftRight, UInt8.toNat_toUInt32,
    Nat.shiftLeft_eq, Nat.shiftRight_eq_div_pow, UInt32.reduceToNat, Nat.reduceMod]
  rw [Nat.mod_eq_of_lt (show x.toNat * 2 ^ 2 < 2 ^ 32 by have := x.toNat_lt; omega)]
  apply Nat.eq_of_testBit_eq
  intro i
  rw [Nat.testBit_and, Nat.zero_testBit, Nat.testBit_mul_two_pow]
  by_cases hi : 2 ≤ i
  · rw [Nat.testBit_lt_two_pow (hhigh.trans_le (Nat.pow_le_pow_right (by omega) hi)), Bool.and_false]
  · rw [decide_eq_false hi, Bool.false_and, Bool.false_and]

theorem remb_read (s : Session) (b : UInt32) : exponentOf (remb s b) = (scale 0 b).1.toNat ∧
    mantissaOf (remb s b) = (scale 0 b).2.toNat := by
  obtain ⟨e, he, hexp, hman⟩ := scale_spec b
  have hfirst := first_byte (x := (scale 0 b).1) (b := (scale 0 b).2)
    (by have := he.exponent; omega) (by have := he.fits; omega)
  have hsize : (scale 0 b).2.toNat < 2 ^ 18 := by
    rw [hman]
    exact he.fits
  have h17 : (remb s b).getD 17 0 = ((scale 0 b).1.toUInt32 <<< 2 ||| (scale 0 b).2 >>> 16).toUInt8 := rfl
  have h18 : (remb s b).getD 18 0 = ((scale 0 b).2 >>> 8).toUInt8 := rfl
  have h19 : (remb s b).getD 19 0 = (scale 0 b).2.toUInt8 := rfl
  constructor
  · rw [exponentOf, h17, hfirst]
    omega
  · rw [mantissaOf, h17, h18, h19, hfirst]
    simp only [UInt32.toNat_toUInt8, UInt32.toNat_shiftRight, Nat.shiftRight_eq_div_pow, UInt32.reduceToNat,
      Nat.reduceMod]
    omega

/-! ## What is encoded -/

theorem Scaled.below {n e : Nat} (h : Scaled n e) : n < 2 ^ 18 * 2 ^ e :=
  (Nat.div_lt_iff_lt_mul (Nat.two_pow_pos e)).mp h.fits

/-- The larger number keeps at least what the smaller one does. -/
theorem Scaled.mono {n n' e e' : Nat} (h : Scaled n e) (h' : Scaled n' e') (hle : n ≤ n') :
    n / 2 ^ e * 2 ^ e ≤ n' / 2 ^ e' * 2 ^ e' := by
  have hkept : n / 2 ^ e * 2 ^ e ≤ n := Nat.div_mul_le_self ..
  rcases Nat.lt_trichotomy e e' with hlt | rfl | hgt
  · -- The larger number starts at or above twice the smaller one's range.
    have hhigh : 2 ^ 17 ≤ n' / 2 ^ e' := h'.least.resolve_left (by omega)
    calc n / 2 ^ e * 2 ^ e ≤ 2 ^ 18 * 2 ^ e := hkept.trans h.below.le
      _ = 2 ^ 17 * 2 ^ (e + 1) := by rw [Nat.pow_succ]; omega
      _ ≤ 2 ^ 17 * 2 ^ e' := Nat.mul_le_mul_left _ (Nat.pow_le_pow_right (by omega) hlt)
      _ ≤ n' / 2 ^ e' * 2 ^ e' := Nat.mul_le_mul_right _ hhigh
  · exact Nat.mul_le_mul_right _ (Nat.div_le_div_right hle)
  · have hhigh : 2 ^ 17 ≤ n / 2 ^ e := h.least.resolve_left (by omega)
    have hn : n < n := calc n ≤ n' := hle
      _ < 2 ^ 18 * 2 ^ e' := h'.below
      _ = 2 ^ 17 * 2 ^ (e' + 1) := by rw [Nat.pow_succ]; omega
      _ ≤ 2 ^ 17 * 2 ^ e := Nat.mul_le_mul_left _ (Nat.pow_le_pow_right (by omega) hgt)
      _ ≤ n / 2 ^ e * 2 ^ e := Nat.mul_le_mul_right _ hhigh
      _ ≤ n := hkept
    exact absurd hn (Nat.lt_irrefl n)

/-- **The request is tight**, for every bitrate. -/
theorem remb_tight (s : Session) (b : UInt32) :
    exponentOf (remb s b) < 64 ∧ mantissaOf (remb s b) < 2 ^ 18 ∧
    mantissaOf (remb s b) * 2 ^ exponentOf (remb s b) ≤ b.toNat ∧
    b.toNat < (mantissaOf (remb s b) + 1) * 2 ^ exponentOf (remb s b) ∧
    exponentOf (remb s b) = (scale 0 b).1.toNat ∧ mantissaOf (remb s b) = (scale 0 b).2.toNat ∧
    (scale 0 b).1.toUInt32 <<< 2 &&& (scale 0 b).2 >>> 16 = 0 ∧
    (b.toNat < 2 ^ 18 → bitrateOf (remb s b) = b.toNat) ∧
    ∀ b' : UInt32, b ≤ b' → bitrateOf (remb s b) ≤ bitrateOf (remb s b') := by
  obtain ⟨e, he, hexp, hman⟩ := scale_spec b
  obtain ⟨hexponent, hmantissa⟩ := remb_read s b
  rw [bitrateOf, hexponent, hmantissa, hexp, hman]
  refine ⟨by have := he.exponent; omega, he.fits, Nat.div_mul_le_self .., ?_, rfl, rfl, ?_, ?_, ?_⟩
  · exact Nat.lt_mul_of_div_lt (Nat.lt_succ_self _) (Nat.two_pow_pos e)
  · apply disjoint_bits
    rw [hman]
    exact he.fits
  · intro hsmall
    have hzero : e = 0 := by
      rw [← hexp, scale_small hsmall]
      rfl
    rw [hzero, Nat.pow_zero, Nat.div_one, Nat.mul_one]
  · intro b' hle
    obtain ⟨e', he', hexp', hman'⟩ := scale_spec b'
    obtain ⟨hexponent', hmantissa'⟩ := remb_read s b'
    rw [bitrateOf, hexponent', hmantissa', hexp', hman']
    exact he.mono he' (UInt32.le_iff_toNat_le.mp hle)

end KmVirtualCamera.L2.Remb
