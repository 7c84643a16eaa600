import Mathlib

/-!
# Normal numbers of a binary format

`Normal S f lo hi`: `f` is positive, has the full mantissa of the format `S`,
and its exponent is from `lo` to `hi`. Rounding gives such a number as long as
it stays clear of the least exponent (`round_normal`), counts are such numbers
(`ofNat_normal`), and packing keeps them (`unpack_normal`). With the exponent
goes the size: `toInt_bounds` bounds the whole part.
-/
namespace KmVirtualCamera.Rounding
open Float.Model Float.Model.UnpackedFloat

variable {S : Format}

/-- A positive normal number with its exponent in a range. -/
def Normal (S : Format) (f : UnpackedFloat) (lo hi : Int) : Prop :=
  ∃ m e hm, f = .finite .positive m e hm ∧ m.log2 = S.mantissaBitsWithoutImplicit ∧ lo ≤ e ∧ e ≤ hi

theorem Normal.mono {f : UnpackedFloat} {lo hi lo' hi' : Int} (h : Normal S f lo hi) (hlo : lo' ≤ lo)
    (hhi : hi ≤ hi') : Normal S f lo' hi' := by
  obtain ⟨m, e, hm, heq, hlog, hl, hh⟩ := h
  exact ⟨m, e, hm, heq, hlog, hlo.trans hl, hh.trans hhi⟩

/-! ## Rounding -/

theorem mantissa_shift (em : ExtendedMantissa) (k : Nat) : (em >>> k).mantissa = em.mantissa / 2 ^ k := by
  change (k.repeat ExtendedMantissa.shiftRightOne em).mantissa = _
  induction k with
  | zero => simp [Nat.repeat]
  | succ k ih =>
    rw [Nat.repeat]
    change (k.repeat ExtendedMantissa.shiftRightOne em).mantissa / 2 = _
    rw [ih, Nat.div_div_eq_div_mul, Nat.pow_succ]

theorem rounded_bounds (em : ExtendedMantissa) :
    em.mantissa ≤ em.roundedMantissa ∧ em.roundedMantissa ≤ em.mantissa + 1 := by
  obtain ⟨m, r, s⟩ := em
  unfold ExtendedMantissa.roundedMantissa
  cases r <;> cases s <;> simp only [ExtendedMantissa.accuracy, Accuracy.roundToNearestEven] <;> omega

/-- The format's least exponent is not in the way. -/
theorem targetExponent_eq {t : Int} (h : S.minExponent ≤ t - S.mantissaBits) :
    S.targetExponent t = t - S.mantissaBits := by
  unfold Format.targetExponent
  omega

theorem ofMantissa_mantissa (m : Nat) (acc : Accuracy) :
    (ExtendedMantissa.ofMantissaAndAccuracy m acc).mantissa = m := by
  unfold ExtendedMantissa.ofMantissaAndAccuracy
  cases acc with
  | exact => rfl
  | inexact o => cases o <;> rfl

/-- The shift to the width of the mantissa. -/
theorem shift_target {m : Nat} {e : Int} (hm : S.mantissaBitsWithoutImplicit ≤ m.log2)
    (he : S.minExponent ≤ e + m.log2 - S.mantissaBitsWithoutImplicit) (acc : Accuracy) :
    (shiftToTargetExponent S m e acc).1.mantissa = m / 2 ^ (m.log2 - S.mantissaBitsWithoutImplicit) ∧
      (shiftToTargetExponent S m e acc).2 = e + (m.log2 - S.mantissaBitsWithoutImplicit : Nat) := by
  have hbits : S.mantissaBits = 1 + S.mantissaBitsWithoutImplicit := rfl
  have htotal : totalExponent m e = m.log2 + 1 + e := rfl
  have hamount : (totalExponent m e - S.mantissaBits - e).toNat = m.log2 - S.mantissaBitsWithoutImplicit := by
    omega
  unfold shiftToTargetExponent shiftToExponent
  rw [targetExponent_eq (by omega)]
  simp only [hamount]
  exact ⟨by rw [mantissa_shift, ofMantissa_mantissa], trivial⟩

theorem log2_quotient {m p : Nat} (hm : p ≤ m.log2) (hne : m ≠ 0) :
    2 ^ p ≤ m / 2 ^ (m.log2 - p) ∧ m / 2 ^ (m.log2 - p) < 2 ^ (p + 1) := by
  obtain ⟨hlow, hhigh⟩ := (Nat.log2_eq_iff hne).mp rfl
  have hpos : 0 < 2 ^ (m.log2 - p) := Nat.two_pow_pos _
  constructor
  · rw [Nat.le_div_iff_mul_le hpos, ← Nat.pow_add, Nat.add_sub_cancel' hm]
    exact hlow
  · rw [Nat.div_lt_iff_lt_mul hpos, ← Nat.pow_add, show p + 1 + (m.log2 - p) = m.log2 + 1 by omega]
    exact hhigh

theorem round_normal {m : Nat} {e : Int} (hne : m ≠ 0) (hm : S.mantissaBitsWithoutImplicit ≤ m.log2)
    (he : S.minExponent ≤ e + m.log2 - S.mantissaBitsWithoutImplicit) (acc : Accuracy) :
    Normal S (roundWithAccuracy S .positive m e acc) (e + m.log2 - S.mantissaBitsWithoutImplicit)
      (e + m.log2 - S.mantissaBitsWithoutImplicit + 1) := by
  obtain ⟨hmantissa, hexponent⟩ := shift_target hm he acc
  obtain ⟨hlow, hhigh⟩ := log2_quotient hm hne
  unfold roundWithAccuracy
  generalize shiftToTargetExponent S m e acc = shifted at hmantissa hexponent ⊢
  obtain ⟨em, e1⟩ := shifted
  simp only at hmantissa hexponent ⊢
  obtain ⟨hge, hle⟩ := rounded_bounds em
  generalize em.roundedMantissa = rounded at hge hle ⊢
  generalize hp : S.mantissaBitsWithoutImplicit = p at hm he hmantissa hexponent hlow hhigh
  have hpow := Nat.two_pow_pos p
  -- the last shift takes the mantissa that rounding has made too long
  have hlast : rounded.log2 = p ∨ rounded = 2 ^ (p + 1) := by
    rcases Nat.lt_or_ge rounded (2 ^ (p + 1)) with h | h
    · exact .inl ((Nat.log2_eq_iff (by omega)).mpr ⟨by omega, h⟩)
    · exact .inr (by omega)
  have hlog : rounded.log2 = p ∨ rounded.log2 = p + 1 := hlast.imp_right fun h => by rw [h, Nat.log2_two_pow]
  obtain ⟨hm2, he2⟩ := shift_target (S := S) (m := rounded) (e := e1) (by omega) (by omega) .exact
  generalize shiftToTargetExponent S rounded e1 .exact = last at hm2 he2 ⊢
  obtain ⟨em2, e2⟩ := last
  simp only [hp] at hm2 he2 ⊢
  rcases hlast with hsame | hlong
  · rw [hsame, Nat.sub_self, Nat.pow_zero, Nat.div_one] at hm2
    rw [hsame] at he2
    rw [dif_neg (by omega)]
    exact ⟨_, _, _, rfl, by rw [hm2, hsame, hp], by omega, by omega⟩
  · have hlog2 : rounded.log2 = p + 1 := by rw [hlong, Nat.log2_two_pow]
    have hvalue : em2.mantissa = 2 ^ p := by
      rw [hm2, hlog2, hlong, Nat.add_sub_cancel_left, Nat.pow_succ, Nat.pow_one, Nat.mul_div_cancel _ (by omega)]
    rw [hlog2] at he2
    rw [dif_neg (by omega)]
    exact ⟨_, _, _, rfl, by rw [hvalue, Nat.log2_two_pow, hp], by omega, by omega⟩

/-- A mantissa of the right width stays. -/
theorem round_exact {m : Nat} {e : Int} (h : 0 < m) (hm : m.log2 = S.mantissaBitsWithoutImplicit)
    (he : S.minExponent ≤ e) : roundWithAccuracy S .positive m e .exact = .finite .positive m e h := by
  have hbits : S.mantissaBits = 1 + S.mantissaBitsWithoutImplicit := rfl
  have htotal : totalExponent m e = m.log2 + 1 + e := rfl
  have hshift : shiftToTargetExponent S m e .exact = (.ofMantissaAndAccuracy m .exact, e) := by
    unfold shiftToTargetExponent shiftToExponent
    rw [targetExponent_eq (by omega)]
    simp only [htotal, hbits]
    rw [show ((m.log2 : Int) + 1 + e - (1 + S.mantissaBitsWithoutImplicit : Nat) - e).toNat = 0 by omega]
    exact Prod.ext rfl (Int.add_zero e)
  have hrounded : (ExtendedMantissa.ofMantissaAndAccuracy m .exact).roundedMantissa = m := rfl
  unfold roundWithAccuracy
  simp only [hshift, hrounded, ofMantissa_mantissa]
  rw [dif_neg (by omega)]

/-! ## Counts -/

theorem log2_shiftLeft {n k : Nat} (hn : n ≠ 0) : (n <<< k).log2 = n.log2 + k := by
  obtain ⟨hlow, hhigh⟩ := (Nat.log2_eq_iff hn).mp rfl
  have hpos : 0 < 2 ^ k := Nat.two_pow_pos k
  rw [Nat.shiftLeft_eq]
  refine (Nat.log2_eq_iff (Nat.mul_ne_zero hn hpos.ne')).mpr ⟨?_, ?_⟩
  · rw [Nat.pow_add]
    exact Nat.mul_le_mul_right _ hlow
  · rw [Nat.add_right_comm, Nat.pow_add]
    exact Nat.mul_lt_mul_of_pos_right hhigh hpos

theorem ofNat_round {n : Nat} (hpos : 0 < n) (hmin : S.minExponent ≤ n.log2 - S.mantissaBitsWithoutImplicit) :
    UnpackedFloat.ofNat S n = roundWithAccuracy S .positive
      (n <<< (S.mantissaBitsWithoutImplicit - n.log2)) (-(S.mantissaBitsWithoutImplicit - n.log2 : Nat)) .exact := by
  have hbits : S.mantissaBits = 1 + S.mantissaBitsWithoutImplicit := rfl
  have htotal : totalExponent n 0 = n.log2 + 1 + 0 := rfl
  have hamount : ((0 : Int) - (totalExponent n 0 - S.mantissaBits)).toNat = S.mantissaBitsWithoutImplicit - n.log2 := by
    omega
  unfold UnpackedFloat.ofNat UnpackedFloat.ofInt UnpackedFloat.normalize
  rw [Int.compare_eq_gt.mpr (by omega)]
  simp only [Int.toNat_natCast]
  unfold UnpackedFloat.round decreaseExponent
  rw [targetExponent_eq (by omega)]
  simp only [hamount]
  rw [Int.zero_sub]

theorem ofNat_normal {n : Nat} (hpos : 0 < n) (hmin : S.minExponent ≤ n.log2 - S.mantissaBitsWithoutImplicit) :
    Normal S (UnpackedFloat.ofNat S n) (n.log2 - S.mantissaBitsWithoutImplicit)
      (n.log2 - S.mantissaBitsWithoutImplicit + 1) := by
  have hlog := log2_shiftLeft (n := n) (k := S.mantissaBitsWithoutImplicit - n.log2) (by omega)
  have hne : n <<< (S.mantissaBitsWithoutImplicit - n.log2) ≠ 0 := by
    rw [Nat.shiftLeft_eq]
    exact Nat.mul_ne_zero (by omega) (Nat.two_pow_pos _).ne'
  rw [ofNat_round hpos hmin]
  exact (round_normal hne (by omega) (by omega) .exact).mono (by omega) (by omega)

/-- A count that fits the mantissa is not rounded. -/
theorem ofNat_exact {n : Nat} (hpos : 0 < n) (hfit : n.log2 ≤ S.mantissaBitsWithoutImplicit)
    (hmin : S.minExponent ≤ n.log2 - S.mantissaBitsWithoutImplicit) :
    Normal S (UnpackedFloat.ofNat S n) (n.log2 - S.mantissaBitsWithoutImplicit)
      (n.log2 - S.mantissaBitsWithoutImplicit) := by
  have hlog := log2_shiftLeft (n := n) (k := S.mantissaBitsWithoutImplicit - n.log2) (by omega)
  have hshifted : 0 < n <<< (S.mantissaBitsWithoutImplicit - n.log2) := by
    rw [Nat.shiftLeft_eq]
    exact Nat.mul_pos hpos (Nat.two_pow_pos _)
  rw [ofNat_round hpos hmin, round_exact hshifted (by omega) (by omega)]
  exact ⟨_, _, hshifted, rfl, by omega, by omega, by omega⟩

/-! ## Products and whole parts -/

theorem mul_normal {f g : UnpackedFloat} {lo hi lo' hi' : Int} (hf : Normal S f lo hi) (hg : Normal S g lo' hi')
    (hmin : S.minExponent ≤ lo + lo' + S.mantissaBitsWithoutImplicit) :
    Normal S (mul S f g) (lo + lo' + S.mantissaBitsWithoutImplicit) (hi + hi' + S.mantissaBitsWithoutImplicit + 2) := by
  obtain ⟨m, e, hm, rfl, hlog, hlo, hhi⟩ := hf
  obtain ⟨m', e', hm', rfl, hlog', hlo', hhi'⟩ := hg
  obtain ⟨hlow, hhigh⟩ := (Nat.log2_eq_iff (by omega)).mp hlog
  obtain ⟨hlow', hhigh'⟩ := (Nat.log2_eq_iff (by omega)).mp hlog'
  have hne : m * m' ≠ 0 := Nat.mul_ne_zero (by omega) (by omega)
  have hleast : 2 * S.mantissaBitsWithoutImplicit ≤ (m * m').log2 := by
    rw [Nat.le_log2 hne, Nat.two_mul, Nat.pow_add]
    exact Nat.mul_le_mul hlow hlow'
  have hmost : (m * m').log2 < 2 * S.mantissaBitsWithoutImplicit + 2 := by
    rw [Nat.log2_lt hne, show 2 * S.mantissaBitsWithoutImplicit + 2 =
      (S.mantissaBitsWithoutImplicit + 1) + (S.mantissaBitsWithoutImplicit + 1) by omega, Nat.pow_add]
    exact Nat.mul_lt_mul'' hhigh hhigh'
  exact (round_normal hne (by omega) (by omega) .exact).mono (by omega) (by omega)

/-- The exponent bounds the whole part. -/
theorem toInt_bounds {f : UnpackedFloat} {a b : Nat} (h : Normal S f (-a) (-b)) (ha : a ≤ S.mantissaBitsWithoutImplicit)
    (negativeInfinity positiveInfinity : Int) :
    2 ^ (S.mantissaBitsWithoutImplicit - a) ≤ (f.toInt negativeInfinity positiveInfinity).toNat ∧
      (f.toInt negativeInfinity positiveInfinity).toNat < 2 ^ (S.mantissaBitsWithoutImplicit + 1 - b) := by
  obtain ⟨m, e, hm, rfl, hlog, hlo, hhi⟩ := h
  obtain ⟨k, rfl⟩ : ∃ k : Nat, e = -k := ⟨(-e).toNat, by omega⟩
  obtain ⟨hlow, hhigh⟩ := (Nat.log2_eq_iff (by omega)).mp hlog
  have hvalue : (UnpackedFloat.toInt negativeInfinity positiveInfinity (.finite .positive m (-k) hm)).toNat = m / 2 ^ k := by
    change (roundToInt .positive m (-k)).toNat = _
    unfold roundToInt decreaseExponent shiftToExponent
    simp only [Int.sub_zero, Int.toNat_neg_natCast, Nat.shiftLeft_zero, Int.natCast_zero, Int.sub_neg,
      Int.zero_add, Int.toNat_natCast, mantissa_shift, ofMantissa_mantissa]
    rfl
  have hpos : 0 < 2 ^ k := Nat.two_pow_pos k
  rw [hvalue]
  constructor
  · rw [Nat.le_div_iff_mul_le hpos, ← Nat.pow_add]
    exact (Nat.pow_le_pow_right (by omega) (by omega)).trans hlow
  · rw [Nat.div_lt_iff_lt_mul hpos, ← Nat.pow_add]
    exact hhigh.trans_le (Nat.pow_le_pow_right (by omega) (by omega))

/-! ## As they are kept -/

theorem unpackSign_packComponents (s : Sign) (e : BitVec S.exponentBits)
    (m : BitVec S.mantissaBitsWithoutImplicit) : unpackSign (packComponents S s e m) = s.toBitVec := by
  apply BitVec.eq_of_getLsbD_eq
  intro i hi
  obtain rfl : i = 0 := by omega
  simp [unpackSign, packComponents, BitVec.getLsbD_append, BitVec.getElem_append]

/-- A normal number is kept as it is. -/
theorem unpack_normal {f : UnpackedFloat} {lo hi : Int} (hf : Normal S f lo hi)
    (hlo : 0 < lo + S.exponentBias + S.mantissaBitsWithoutImplicit)
    (hhi : hi + S.exponentBias + S.mantissaBitsWithoutImplicit + 1 < (2 ^ S.exponentBits : Nat)) :
    UnpackedFloat.unpack S (UnpackedFloat.pack S f) = f := by
  obtain ⟨m, e, hm, rfl, hlog, hle, hge⟩ := hf
  obtain ⟨hlow, hhigh⟩ := (Nat.log2_eq_iff (by omega)).mp hlog
  obtain ⟨k, hk⟩ : ∃ k : Nat, e + S.exponentBias + S.mantissaBitsWithoutImplicit = k :=
    ⟨(e + S.exponentBias + S.mantissaBitsWithoutImplicit).toNat, by omega⟩
  have hkpos : 0 < k := by omega
  have hklt : k + 1 < 2 ^ S.exponentBits := by omega
  have hexp : (BitVec.ofNat S.exponentBits k).toNat = k := by
    rw [BitVec.toNat_ofNat, Nat.mod_eq_of_lt (by omega)]
  have hpacked : UnpackedFloat.pack S (.finite .positive m e hm) =
      packComponents S .positive (BitVec.ofNat _ k) (BitVec.ofNat _ m) := by
    have hwidth : S.mantissaBitsWithoutImplicit + 1 = S.mantissaBits := Nat.add_comm ..
    unfold UnpackedFloat.pack
    simp only [hk, hlog, Int.toNat_natCast]
    rw [if_neg (by omega), if_pos hwidth]
  have hones : BitVec.ofNat S.exponentBits k ≠ -1#_ := by
    intro h
    have hvalue := congrArg BitVec.toNat h
    rw [hexp, BitVec.neg_one_eq_allOnes, BitVec.toNat_allOnes] at hvalue
    omega
  have hzero : BitVec.ofNat S.exponentBits k ≠ 0#_ := by
    intro h
    have hvalue := congrArg BitVec.toNat h
    rw [hexp, BitVec.toNat_ofNat, Nat.zero_mod] at hvalue
    omega
  have hmantissa : (1#1 ++ BitVec.ofNat S.mantissaBitsWithoutImplicit m).toNat = m := by
    rw [BitVec.toNat_append, ← Nat.shiftLeft_add_eq_or_of_lt (BitVec.ofNat _ m).isLt, BitVec.toNat_ofNat,
      Nat.shiftLeft_eq]
    change 1 * 2 ^ S.mantissaBitsWithoutImplicit + m % 2 ^ S.mantissaBitsWithoutImplicit = m
    have hmod : m % 2 ^ S.mantissaBitsWithoutImplicit = m - 2 ^ S.mantissaBitsWithoutImplicit := by
      rw [Nat.mod_eq_sub_mod hlow, Nat.mod_eq_of_lt (by rw [Nat.pow_succ] at hhigh; omega)]
    omega
  rw [hpacked]
  unfold UnpackedFloat.unpack
  simp only [unpackMantissa_packComponents, unpackExponent_packComponents, unpackSign_packComponents]
  rw [if_neg hones, if_neg hzero]
  simp only [hmantissa, hexp]
  congr 1
  omega

end KmVirtualCamera.Rounding
