import Mathlib
import KmVirtualCamera.Core.Rounding

/-!
# Quotients of counts in single precision

A count below 2^32 is a normal number of `binary32` (`ofNat_normal`), and so is
the quotient of two of them (`div_normal`). So the quotient of two counts is 0
if and only if the first one is: `zero_div`, `div_ne_zero`.
-/
namespace KmVirtualCamera.Single
open Float.Model Float.Model.UnpackedFloat

/-- A positive normal number with its exponent in a range. -/
def Normal (f : UnpackedFloat) (lo hi : Int) : Prop :=
  ∃ m e hm, f = .finite .positive m e hm ∧ m.log2 = 23 ∧ lo ≤ e ∧ e ≤ hi

theorem normal_iff {f : UnpackedFloat} {lo hi : Int} : Normal f lo hi ↔ Rounding.Normal Format.binary32 f lo hi :=
  Iff.rfl

theorem minExponent_eq : Format.binary32.minExponent = -149 := by decide

/-! ## Counts and their quotients -/

theorem ofNat_normal {n : Nat} (hpos : 0 < n) (hn : n < 2 ^ 32) :
    Normal (UnpackedFloat.ofNat Format.binary32 n) (-23) 9 := by
  have hlog : n.log2 < 32 := (Nat.log2_lt (by omega)).mpr hn
  have hmin := minExponent_eq
  have hnormal := Rounding.ofNat_normal (S := Format.binary32) hpos (by simp only; omega)
  exact hnormal.mono (by simp only; omega) (by simp only; omega)

theorem div_normal {f g : UnpackedFloat} (hf : Normal f (-23) 9) (hg : Normal g (-23) 9) :
    Normal (div Format.binary32 f g) (-60) 60 := by
  obtain ⟨m1, e1, h1, rfl, hlog1, hlo1, hhi1⟩ := hf
  obtain ⟨m2, e2, h2, rfl, hlog2, hlo2, hhi2⟩ := hg
  obtain ⟨hlow1, hhigh1⟩ := (Nat.log2_eq_iff (by omega)).mp hlog1
  obtain ⟨hlow2, hhigh2⟩ := (Nat.log2_eq_iff (by omega)).mp hlog2
  have hleast := minExponent_eq
  have hbits : Format.binary32.mantissaBits = 24 := rfl
  have htarget : Format.binary32.targetExponent (totalExponent m1 e1 - totalExponent m2 e2) = e1 - e2 - 24 := by
    unfold totalExponent
    rw [hlog1, hlog2, Rounding.targetExponent_eq (by omega), hbits]
    omega
  have hmin : min (e1 - e2) (e1 - e2 - 24) = e1 - e2 - 24 := by omega
  have hamount : (e1 - e2 - (e1 - e2 - 24)).toNat = 24 := by omega
  have hquotient : 2 ^ 23 ≤ (m1 <<< 24) / m2 ∧ (m1 <<< 24) / m2 < 2 ^ 25 := by
    rw [Nat.shiftLeft_eq, Nat.le_div_iff_mul_le h2, Nat.div_lt_iff_lt_mul h2]
    omega
  have hqlog : 23 ≤ ((m1 <<< 24) / m2).log2 ∧ ((m1 <<< 24) / m2).log2 < 25 :=
    ⟨(Nat.le_log2 (by omega)).mpr hquotient.1, (Nat.log2_lt (by omega)).mpr hquotient.2⟩
  have hround := Rounding.round_normal (S := Format.binary32) (m := (m1 <<< 24) / m2) (e := e1 - e2 - 24)
    (by omega) hqlog.1 (by simp only; omega) (accuracyOfFraction ((m1 <<< 24) % m2) m2)
  unfold UnpackedFloat.div divCore
  simp only
  rw [htarget, hmin, hamount]
  exact hround.mono (by simp only; omega) (by simp only; omega)

/-- A normal number is kept as it is. -/
theorem unpack_normal {f : UnpackedFloat} (hf : Normal f (-60) 60) : (Float32.Model.pack f).unpack = f :=
  Rounding.unpack_normal (normal_iff.mp hf) (by decide) (by decide)

/-! ## On the type itself -/

theorem toFloat32_normal {n : UInt32} (hpos : 0 < n.toNat) : Normal n.toFloat32.toModel.unpack (-23) 9 := by
  have hn := ofNat_normal hpos n.toNat_lt
  have hwide : Normal (UnpackedFloat.ofNat Format.binary32 n.toNat) (-60) 60 :=
    (normal_iff.mp hn).mono (by omega) (by omega)
  change Normal (Float32.Model.pack (UnpackedFloat.ofNat Format.binary32 n.toNat)).unpack (-23) 9
  rw [unpack_normal hwide]
  exact hn

theorem zero_div {n : UInt32} (hpos : 0 < n.toNat) : (0 : UInt32).toFloat32 / n.toFloat32 = 0 := by
  obtain ⟨m, e, hm, heq, -⟩ := toFloat32_normal hpos
  have hzero : (0 : UInt32).toFloat32.toModel.unpack = .zero .positive := rfl
  change Float32.ofModel (Float32.Model.pack (UnpackedFloat.div Format.binary32 _ _)) = _
  rw [heq, hzero]
  rfl

theorem div_ne_zero {a b : UInt32} (ha : 0 < a.toNat) (hb : 0 < b.toNat) :
    (a.toFloat32 / b.toFloat32 == 0) = false := by
  have hdiv := div_normal (toFloat32_normal ha) (toFloat32_normal hb)
  have hkept := unpack_normal hdiv
  obtain ⟨m, e, hm, heq, -⟩ := hdiv
  have hzero : (0 : Float32).toModel.unpack = .zero .positive := rfl
  change UnpackedFloat.beq (Float32.Model.pack (UnpackedFloat.div Format.binary32 _ _)).unpack _ = false
  rw [hkept, heq, hzero]
  rfl

end KmVirtualCamera.Single
