import Mathlib
import KmVirtualCamera.Core.Utf8
import KmVirtualCamera.Core.JsonText
import KmVirtualCamera.L1Encoding.Json

/-!
# The lexical level of the JSON reader

What the reader's scanners accept, against the grammar of `Core.JsonText`. All
of it is stated at a position `Here`: inside the input, with what is left.

Each scanner has two lemmas: on a text the grammar derives it reads exactly
that text (`_reads`), and whatever it returns it read off such a text, every
other outcome being `fail()` (`_outcome`).
-/
namespace KmVirtualCamera.L1.Json
open KmVirtualCamera.L1.H264 KmVirtualCamera.Utf8 KmVirtualCamera.Rfc8259

/-- `p` is a position of `s`, and `r` is what is left there. -/
def Here (s : Bytes) (p : Nat) (r : Bytes) : Prop := ∃ pre, s = pre ++ r ∧ p = pre.length

namespace Here

variable {s r a : Bytes} {p : Nat} {b : UInt8}

theorem start (s : Bytes) : Here s 0 s := ⟨[], rfl, rfl⟩

theorem length (h : Here s p r) : p + r.length = s.length := by
  obtain ⟨pre, rfl, rfl⟩ := h
  simp

theorem drop (h : Here s p r) : s.drop p = r := by
  obtain ⟨pre, rfl, rfl⟩ := h
  simp

theorem get (h : Here s p r) : s[p]? = r.head? := by
  obtain ⟨pre, rfl, rfl⟩ := h
  rw [List.getElem?_append_right (Nat.le_refl _), Nat.sub_self, List.head?_eq_getElem?]

theorem skip (h : Here s p (a ++ r)) : Here s (p + a.length) r := by
  obtain ⟨pre, rfl, rfl⟩ := h
  exact ⟨pre ++ a, by simp, by simp⟩

theorem next (h : Here s p (b :: r)) : Here s (p + 1) r := Here.skip (a := [b]) h

theorem peek_eq (h : Here s p (b :: r)) : peek s p = .ok b := by
  simp [peek, h.get]

theorem split (h : Here s p r) {q : Nat} {r' : Bytes} (h' : Here s q r') (hle : p ≤ q) :
    r = r.take (q - p) ++ r' := by
  obtain ⟨pre, rfl, rfl⟩ := h
  obtain ⟨pre', heq, rfl⟩ := h'
  have hr := congrArg (List.drop pre'.length) heq
  rw [List.drop_left, List.drop_append, List.drop_eq_nil_of_le hle, List.nil_append] at hr
  rw [← hr, List.take_append_drop]

end Here

/-! ## UTF-8 -/

def IsCont (b : UInt8) : Prop := 128 ≤ b.toNat ∧ b.toNat < 192

instance instDecidableIsCont (b : UInt8) : Decidable (IsCont b) := inferInstanceAs (Decidable (_ ∧ _))

theorem and_192 (b : UInt8) : b.toNat &&& 192 = 128 ↔ IsCont b := by
  have h : ∀ n < 256, (n &&& 192 = 128 ↔ 128 ≤ n ∧ n < 192) := by decide +kernel
  exact h b.toNat b.toNat_lt

theorem and_low (n k : Nat) : n &&& (2 ^ k - 1) = n % 2 ^ k := Nat.and_two_pow_sub_one_eq_mod n k

theorem join_six (c n : Nat) : (c <<< 6) ||| (n &&& 63) = c * 64 + n % 64 := by
  rw [show (63 : Nat) = 2 ^ 6 - 1 from rfl, and_low, Nat.shiftLeft_eq,
    show c * 2 ^ 6 = 2 ^ 6 * c from Nat.mul_comm _ _,
    ← Nat.two_pow_add_eq_or_of_lt (Nat.mod_lt _ (by decide))]
  omega

def joined (c : Nat) (bs : Bytes) : Nat := bs.foldl (fun c b => c * 64 + b.toNat % 64) c

theorem continuation_eq {s : Bytes} {k : Nat} {i c : Nat} {bs r : Bytes} (h : Here s i (bs ++ r))
    (hk : bs.length = k) :
    continuation s k i c = .ok (some (i + k, joined c bs)) ∧ (∀ b ∈ bs, IsCont b) ∨
      continuation s k i c = .ok none ∧ ¬∀ b ∈ bs, IsCont b := by
  induction bs generalizing k i c with
  | nil =>
    subst hk
    exact Or.inl ⟨rfl, by simp⟩
  | cons b bs ih =>
    obtain ⟨k, rfl⟩ : ∃ m, k = m + 1 := ⟨bs.length, by simpa using hk.symm⟩
    have hp : peek s i = .ok b := Here.peek_eq h
    simp only [continuation, hp, ok_bind, join_six]
    by_cases hb : IsCont b
    · rcases ih (k := k) (c := c * 64 + b.toNat % 64) (Here.next h) (by simpa using hk) with ⟨he, ha⟩ | ⟨he, ha⟩
      · refine Or.inl ⟨?_, ?_⟩
        · rw [if_neg (not_not.mpr ((and_192 b).mpr hb)), he, joined, joined, List.foldl_cons]
          congr 3
          omega
        · simpa [hb] using ha
      · refine Or.inr ⟨?_, ?_⟩
        · rw [if_neg (not_not.mpr ((and_192 b).mpr hb)), he]
        · simpa [hb] using ha
    · exact Or.inr ⟨by rw [if_pos (fun he => hb ((and_192 b).mp he))], by simp [hb]⟩

/-- A first byte of two or more, and what it says. -/
theorem lead_two {n : Nat} (h : 194 ≤ n) (h' : n ≤ 223) : lead n = some (1, 128, n - 192) := by
  have hl : n &&& 31 = n - 192 := by
    rw [show (31 : Nat) = 2 ^ 5 - 1 from rfl, and_low]
    omega
  simp only [lead, hl]
  rw [if_pos ⟨h, h'⟩]

theorem lead_three {n : Nat} (h : 224 ≤ n) (h' : n ≤ 239) : lead n = some (2, 2048, n - 224) := by
  have hl : n &&& 15 = n - 224 := by
    rw [show (15 : Nat) = 2 ^ 4 - 1 from rfl, and_low]
    omega
  simp only [lead, hl]
  rw [if_neg (by omega), if_pos ⟨h, h'⟩]

theorem lead_four {n : Nat} (h : 240 ≤ n) (h' : n ≤ 244) : lead n = some (3, 65536, n - 240) := by
  have hl : n &&& 7 = n - 240 := by
    rw [show (7 : Nat) = 2 ^ 3 - 1 from rfl, and_low]
    omega
  simp only [lead, hl]
  rw [if_neg (by omega), if_neg (by omega), if_pos ⟨h, h'⟩]

/-- The first byte decides. -/
theorem lead_cases (n : Nat) : (194 ≤ n ∧ n ≤ 223) ∨ (224 ≤ n ∧ n ≤ 239) ∨ (240 ≤ n ∧ n ≤ 244) ∨
    lead n = none := by
  by_cases h2 : 194 ≤ n ∧ n ≤ 223
  · exact Or.inl h2
  by_cases h3 : 224 ≤ n ∧ n ≤ 239
  · exact Or.inr (Or.inl h3)
  by_cases h4 : 240 ≤ n ∧ n ≤ 244
  · exact Or.inr (Or.inr (Or.inl h4))
  · exact Or.inr (Or.inr (Or.inr (by simp only [lead]; rw [if_neg h2, if_neg h3, if_neg h4])))

theorem validUtf8Loop_end {s : Bytes} {i : Nat} (h : Here s i []) (fuel : Nat) :
    validUtf8Loop s (fuel + 1) i = .ok true := by
  have := h.length
  rw [validUtf8Loop, if_neg (by simp at this; omega)]

/-- One step on a first byte and what belongs to it. -/
theorem validUtf8Loop_step {s : Bytes} {i : Nat} {b : UInt8} {t r : Bytes} {m c : Nat}
    (h : Here s i (b :: (t ++ r))) (hb : 128 ≤ b.toNat) (hlead : lead b.toNat = some (t.length, m, c))
    (fuel : Nat) : validUtf8Loop s (fuel + 1) i =
      if (∀ x ∈ t, IsCont x) ∧ m ≤ joined c t ∧ joined c t ≤ 0x10ffff ∧
        ¬(0xd800 ≤ joined c t ∧ joined c t ≤ 0xdfff)
      then validUtf8Loop s fuel (i + 1 + t.length) else .ok false := by
  have hlen := h.length
  simp only [List.length_cons, List.length_append] at hlen
  rw [validUtf8Loop, if_pos (by omega), h.peek_eq, ok_bind, if_neg (by omega), hlead]
  simp only
  rw [if_neg (by omega)]
  rcases continuation_eq (c := c) h.next rfl with ⟨he, ha⟩ | ⟨he, ha⟩
  · rw [he, ok_bind]
    simp only [gt_iff_lt, ge_iff_le]
    by_cases hv : joined c t < m ∨ 0x10ffff < joined c t ∨ 0xd800 ≤ joined c t ∧ joined c t ≤ 0xdfff
    · rw [if_pos hv, if_neg (by omega)]
    · rw [if_neg hv, if_pos ⟨ha, by omega⟩]
  · rw [he, ok_bind, if_neg (fun hc => ha hc.1)]

/-- A character is read in one step. -/
theorem validUtf8Loop_reads {s r : Bytes} {i : Nat} (ch : Char)
    (h : Here s i (String.utf8EncodeChar ch ++ r)) (fuel : Nat) :
    validUtf8Loop s (fuel + 1) i =
      validUtf8Loop s fuel (i + (String.utf8EncodeChar ch).length) := by
  have hlt := toNat_lt ch
  have hns := not_surrogate ch
  rcases Nat.lt_or_ge ch.toNat 0x80 with h1 | h1
  · rw [encode_one h1] at h ⊢
    have hb : (UInt8.ofNat ch.toNat).toNat < 128 := by rw [UInt8.toNat_ofNat']; omega
    have hlen := h.length
    simp only [List.cons_append, List.nil_append, List.length_cons] at h hlen
    rw [validUtf8Loop, if_pos (by omega), h.peek_eq, ok_bind, if_pos hb]
    rfl
  rcases Nat.lt_or_ge ch.toNat 0x800 with h2 | h2
  · rw [encode_two h1 h2] at h ⊢
    have hb : (UInt8.ofNat (ch.toNat / 64 + 0xc0)).toNat = ch.toNat / 64 + 0xc0 := by
      rw [UInt8.toNat_ofNat']; omega
    have hx : (UInt8.ofNat (ch.toNat % 64 + 0x80)).toNat = ch.toNat % 64 + 0x80 := by
      rw [UInt8.toNat_ofNat']; omega
    have hl := lead_two (n := ch.toNat / 64 + 0xc0) (by omega) (by omega)
    rw [validUtf8Loop_step (t := [UInt8.ofNat (ch.toNat % 64 + 0x80)]) (m := 128)
      (c := ch.toNat / 64) h (by omega) (by rw [hb, hl, Nat.add_sub_cancel]; rfl), if_pos]
    · rfl
    · simp only [joined, List.foldl_cons, List.foldl_nil, hx, List.mem_singleton, forall_eq, IsCont]
      omega
  rcases Nat.lt_or_ge ch.toNat 0x10000 with h3 | h3
  · rw [encode_three h2 h3] at h ⊢
    have hb : (UInt8.ofNat (ch.toNat / 4096 + 0xe0)).toNat = ch.toNat / 4096 + 0xe0 := by
      rw [UInt8.toNat_ofNat']; omega
    have hx : (UInt8.ofNat (ch.toNat / 64 % 64 + 0x80)).toNat = ch.toNat / 64 % 64 + 0x80 := by
      rw [UInt8.toNat_ofNat']; omega
    have hy : (UInt8.ofNat (ch.toNat % 64 + 0x80)).toNat = ch.toNat % 64 + 0x80 := by
      rw [UInt8.toNat_ofNat']; omega
    have hl := lead_three (n := ch.toNat / 4096 + 0xe0) (by omega) (by omega)
    rw [validUtf8Loop_step (t := [UInt8.ofNat (ch.toNat / 64 % 64 + 0x80),
      UInt8.ofNat (ch.toNat % 64 + 0x80)]) (m := 2048) (c := ch.toNat / 4096) h (by omega)
      (by rw [hb, hl, Nat.add_sub_cancel]; rfl), if_pos]
    · rfl
    · simp only [joined, List.foldl_cons, List.foldl_nil, hx, hy, List.mem_cons, List.not_mem_nil,
        or_false, forall_eq_or_imp, forall_eq, IsCont]
      omega
  · rw [encode_four h3] at h ⊢
    have hb : (UInt8.ofNat (ch.toNat / 262144 + 0xf0)).toNat = ch.toNat / 262144 + 0xf0 := by
      rw [UInt8.toNat_ofNat']; omega
    have hx : (UInt8.ofNat (ch.toNat / 4096 % 64 + 0x80)).toNat = ch.toNat / 4096 % 64 + 0x80 := by
      rw [UInt8.toNat_ofNat']; omega
    have hy : (UInt8.ofNat (ch.toNat / 64 % 64 + 0x80)).toNat = ch.toNat / 64 % 64 + 0x80 := by
      rw [UInt8.toNat_ofNat']; omega
    have hz : (UInt8.ofNat (ch.toNat % 64 + 0x80)).toNat = ch.toNat % 64 + 0x80 := by
      rw [UInt8.toNat_ofNat']; omega
    have hl := lead_four (n := ch.toNat / 262144 + 0xf0) (by omega) (by omega)
    rw [validUtf8Loop_step (t := [UInt8.ofNat (ch.toNat / 4096 % 64 + 0x80),
      UInt8.ofNat (ch.toNat / 64 % 64 + 0x80), UInt8.ofNat (ch.toNat % 64 + 0x80)]) (m := 65536)
      (c := ch.toNat / 262144) h (by omega) (by rw [hb, hl, Nat.add_sub_cancel]; rfl), if_pos]
    · rfl
    · simp only [joined, List.foldl_cons, List.foldl_nil, hx, hy, hz, List.mem_cons,
        List.not_mem_nil, or_false, forall_eq_or_imp, forall_eq, IsCont]
      omega

theorem validUtf8Loop_short {s : Bytes} {i : Nat} {b : UInt8} {r : Bytes} {k m c : Nat}
    (h : Here s i (b :: r)) (hb : 128 ≤ b.toNat) (hlead : lead b.toNat = some (k, m, c))
    (hk : r.length < k) (fuel : Nat) : validUtf8Loop s (fuel + 1) i = .ok false := by
  have hlen := h.length
  simp only [List.length_cons] at hlen
  rw [validUtf8Loop, if_pos (by omega), h.peek_eq, ok_bind, if_neg (by omega), hlead]
  simp only
  rw [if_pos (by omega)]

theorem ofNat_eq {n : Nat} {b : UInt8} (h : n = b.toNat) : UInt8.ofNat n = b := by
  subst h
  simp

/-- What the loop takes for a character behind a first byte is one. -/
theorem encode_joined {b : UInt8} {bs : Bytes} {m c : Nat}
    (hlead : lead b.toNat = some (bs.length, m, c)) (hc : ∀ x ∈ bs, IsCont x) (hm : m ≤ joined c bs)
    (hmax : joined c bs ≤ 0x10ffff) (hs : ¬(0xd800 ≤ joined c bs ∧ joined c bs ≤ 0xdfff)) :
    String.utf8EncodeChar (Char.ofNat (joined c bs)) = b :: bs := by
  have hn : (Char.ofNat (joined c bs)).toNat = joined c bs := ofNat_toNat (by omega) (by omega)
  rcases lead_cases b.toNat with h2 | h3 | h4 | hnone
  · rw [lead_two h2.1 h2.2] at hlead
    obtain ⟨hl, rfl, rfl⟩ : 1 = bs.length ∧ 128 = m ∧ b.toNat - 192 = c := by simpa using hlead
    obtain ⟨x, rfl⟩ := List.length_eq_one_iff.mp hl.symm
    have hx := hc x (by simp)
    unfold IsCont at hx
    simp only [joined, List.foldl_cons, List.foldl_nil] at hn hm ⊢
    rw [encode_two (by omega) (by omega), hn, ofNat_eq (b := b) (by omega),
      ofNat_eq (b := x) (by omega)]
  · rw [lead_three h3.1 h3.2] at hlead
    obtain ⟨hl, rfl, rfl⟩ : 2 = bs.length ∧ 2048 = m ∧ b.toNat - 224 = c := by simpa using hlead
    obtain ⟨x, y, rfl⟩ := List.length_eq_two.mp hl.symm
    have hx := hc x (by simp)
    have hy := hc y (by simp)
    unfold IsCont at hx hy
    simp only [joined, List.foldl_cons, List.foldl_nil] at hn hm ⊢
    rw [encode_three (by omega) (by omega), hn, ofNat_eq (b := b) (by omega),
      ofNat_eq (b := x) (by omega), ofNat_eq (b := y) (by omega)]
  · rw [lead_four h4.1 h4.2] at hlead
    obtain ⟨hl, rfl, rfl⟩ : 3 = bs.length ∧ 65536 = m ∧ b.toNat - 240 = c := by simpa using hlead
    obtain ⟨x, y, z, rfl⟩ := List.length_eq_three.mp hl.symm
    have hx := hc x (by simp)
    have hy := hc y (by simp)
    have hz := hc z (by simp)
    unfold IsCont at hx hy hz
    simp only [joined, List.foldl_cons, List.foldl_nil] at hn hm ⊢
    rw [encode_four (by omega), hn, ofNat_eq (b := b) (by omega), ofNat_eq (b := x) (by omega),
      ofNat_eq (b := y) (by omega), ofNat_eq (b := z) (by omega)]
  · rw [hnone] at hlead
    simp at hlead

/-- The loop decides, and never reads outside. -/
theorem validUtf8Loop_spec {s : Bytes} (fuel : Nat) : ∀ {i : Nat} {r : Bytes}, Here s i r →
    r.length < fuel →
    (validUtf8Loop s fuel i = .ok true ∧ ∃ cs, r = utf8 cs) ∨
      (validUtf8Loop s fuel i = .ok false ∧ ¬∃ cs, r = utf8 cs) := by
  induction fuel with
  | zero => intro i r _ hf; omega
  | succ fuel ih =>
    intro i r h hf
    by_cases hcs : ∃ cs, r = utf8 cs
    · refine Or.inl ⟨?_, hcs⟩
      obtain ⟨cs, rfl⟩ := hcs
      cases cs with
      | nil => exact validUtf8Loop_end h fuel
      | cons ch cs =>
        rw [utf8_cons] at h hf
        have hpos : 0 < (String.utf8EncodeChar ch).length :=
          List.length_pos_of_ne_nil String.utf8EncodeChar_ne_nil
        rw [List.length_append] at hf
        rw [validUtf8Loop_reads ch h fuel]
        rcases ih h.skip (by omega) with hok | hbad
        · exact hok.1
        · exact absurd ⟨cs, rfl⟩ hbad.2
    · refine Or.inr ⟨?_, hcs⟩
      -- no characters: either the loop stops here, or what follows a character is none
      cases r with
      | nil => exact absurd ⟨[], rfl⟩ hcs
      | cons b r =>
        have hlen := h.length
        simp only [List.length_cons] at hlen hf
        have rest : ∀ (ch : Char) (r' : Bytes), b :: r = String.utf8EncodeChar ch ++ r' →
            validUtf8Loop s (fuel + 1) i = .ok false := by
          intro ch r' heq
          have hpos : 0 < (String.utf8EncodeChar ch).length :=
            List.length_pos_of_ne_nil String.utf8EncodeChar_ne_nil
          have hl := congrArg List.length heq
          simp only [List.length_cons, List.length_append] at hl
          rw [heq] at h
          rw [validUtf8Loop_reads ch h fuel]
          rcases ih h.skip (by omega) with hok | hbad
          · obtain ⟨cs, rfl⟩ := hok.2
            exact absurd ⟨ch :: cs, heq⟩ hcs
          · exact hbad.1
        rcases Nat.lt_or_ge b.toNat 0x80 with hb | hb
        · have hn : (Char.ofNat b.toNat).toNat = b.toNat := ofNat_toNat (by omega) (by omega)
          refine rest (Char.ofNat b.toNat) r ?_
          rw [encode_one (by omega), hn, ofNat_eq rfl]
          rfl
        · cases hlead : lead b.toNat with
          | none =>
            rw [validUtf8Loop, if_pos (by omega), h.peek_eq, ok_bind, if_neg (by omega), hlead]
          | some l =>
            obtain ⟨k, m, c⟩ := l
            rcases Nat.lt_or_ge r.length k with hk | hk
            · exact validUtf8Loop_short h hb hlead hk fuel
            · obtain ⟨bs, r', rfl, rfl⟩ : ∃ bs r', r = bs ++ r' ∧ bs.length = k :=
                ⟨r.take k, r.drop k, (List.take_append_drop k r).symm, List.length_take_of_le hk⟩
              rw [validUtf8Loop_step h hb hlead fuel]
              split
              · rename_i hv
                rw [← validUtf8Loop_step h hb hlead fuel |>.trans (if_pos hv)]
                exact rest _ r' (by rw [encode_joined hlead hv.1 hv.2.1 hv.2.2.1 hv.2.2.2]; rfl)
              · rfl

theorem validUtf8_spec (s : Bytes) : (validUtf8 s = .ok true ∧ ∃ cs, s = utf8 cs) ∨
    (validUtf8 s = .ok false ∧ ¬∃ cs, s = utf8 cs) :=
  validUtf8Loop_spec (s.length + 1) (Here.start s) (Nat.lt_succ_self _)

/-! ## Positions between characters -/

/-- `p` is a position of `s` with the characters `cs` left. -/
def At (s : Bytes) (p : Nat) (cs : List Char) : Prop := Here s p (utf8 cs)

namespace At

variable {s : Bytes} {p : Nat} {c : Char} {t cs : List Char}

theorem next (h : At s p (c :: cs)) (hc : c.toNat < 0x80) : At s (p + 1) cs := by
  rw [At, utf8_ascii hc] at h
  exact Here.next h

theorem skip (h : At s p (t ++ cs)) : At s (p + (utf8 t).length) cs := by
  rw [At, utf8_append] at h
  exact Here.skip h

theorem get (h : At s p (c :: cs)) (hc : c.toNat < 0x80) : s[p]? = some (UInt8.ofNat c.toNat) := by
  rw [Here.get h, utf8_ascii hc]
  rfl

theorem peek_eq (h : At s p (c :: cs)) (hc : c.toNat < 0x80) :
    peek s p = .ok (UInt8.ofNat c.toNat) := by
  simp [peek, h.get hc]

theorem end_iff (h : At s p cs) : p = s.length ↔ cs = [] := by
  have hl := Here.length h
  constructor
  · intro he
    cases cs with
    | nil => rfl
    | cons c cs =>
      have := encode_pos c
      rw [utf8_cons, List.length_append] at hl
      omega
  · rintro rfl
    simpa using hl

theorem lt (h : At s p (c :: cs)) : p < s.length := by
  have hl := Here.length h
  have := encode_pos c
  rw [utf8_cons, List.length_append] at hl
  omega

end At

theorem ofNat_inj {a b : Nat} (ha : a < 256) (hb : b < 256) :
    UInt8.ofNat a = UInt8.ofNat b ↔ a = b := by
  rw [← UInt8.toNat_inj, UInt8.toNat_ofNat', UInt8.toNat_ofNat', Nat.mod_eq_of_lt ha,
    Nat.mod_eq_of_lt hb]

theorem toUInt8_eq (c : Char) : c.toUInt8 = UInt8.ofNat c.toNat := rfl

/-- A first byte is a given ASCII character exactly when the first character is. -/
theorem At.first {s : Bytes} {p : Nat} {x c : Char} {cs : List Char} (h : At s p (x :: cs))
    (hc : c.toNat < 0x80) : s[p]? = some c.toUInt8 ↔ x = c := by
  rcases Nat.lt_or_ge x.toNat 0x80 with hx | hx
  · rw [h.get hx, Option.some_inj, toUInt8_eq, ofNat_inj (by omega) (by omega), Char.toNat_inj]
  · rw [Here.get h, utf8_cons]
    have hpos := encode_pos x
    have hhigh : ∀ b ∈ String.utf8EncodeChar x, 0x80 ≤ b.toNat := fun b hb => encode_high hx hb
    cases he : String.utf8EncodeChar x with
    | nil => simp [he] at hpos
    | cons b bs =>
      have hb := hhigh b (by rw [he]; simp)
      constructor
      · intro heq
        have hbc : b = c.toUInt8 := by simpa using heq
        rw [hbc, toUInt8_eq, UInt8.toNat_ofNat'] at hb
        omega
      · rintro rfl
        omega

theorem take_hit {s : Bytes} {p : Nat} {c : Char} {cs : List Char} (h : At s p (c :: cs))
    (hc : c.toNat < 0x80) : take s p c = some (p + 1) := by
  rw [take, if_pos ((h.first hc).mpr rfl)]

theorem take_miss {s : Bytes} {p : Nat} {c : Char} {cs : List Char} (h : At s p cs)
    (hc : c.toNat < 0x80) (hne : cs.head? ≠ some c) : take s p c = none := by
  rw [take, if_neg]
  cases cs with
  | nil => rw [Here.get h]; simp
  | cons x xs =>
    rw [h.first hc]
    simpa using hne

/-- `take` reads the character or leaves the position. -/
theorem take_cases {s : Bytes} {p : Nat} {c : Char} {cs : List Char} (h : At s p cs)
    (hc : c.toNat < 0x80) :
    (∃ cs', cs = c :: cs' ∧ take s p c = some (p + 1) ∧ At s (p + 1) cs') ∨
      (cs.head? ≠ some c ∧ take s p c = none) := by
  by_cases hh : cs.head? = some c
  · cases cs with
    | nil => simp at hh
    | cons x xs =>
      obtain rfl : x = c := by simpa using hh
      exact Or.inl ⟨xs, rfl, take_hit h hc, h.next hc⟩
  · exact Or.inr ⟨hh, take_miss h hc hh⟩

/-! ## White space -/

def isWs (c : Char) : Bool := c == ' ' || c == '\r' || c == '\n' || c == '\t'

theorem isWs_iff (c : Char) : isWs c = true ↔ IsWs c := by
  simp only [isWs, IsWs, Bool.or_eq_true, beq_iff_eq]
  tauto

theorem space_class : AsciiClass isSpace isWs where
  ascii c hc := by
    simp only [isSpace, isWs, toUInt8_eq]
    have hb : ∀ d : Char, d.toNat < 0x80 →
        (UInt8.ofNat c.toNat == UInt8.ofNat d.toNat) = (c == d) := by
      intro d hd
      rw [Bool.eq_iff_iff, beq_iff_eq, beq_iff_eq, ofNat_inj (by omega) (by omega), Char.toNat_inj]
    rw [hb ' ' (by decide), hb '\r' (by decide), hb '\n' (by decide), hb '\t' (by decide)]
  byte b hb := by
    simp only [isSpace, Bool.or_eq_false_iff, beq_eq_false_iff_ne]
    refine ⟨⟨⟨?_, ?_⟩, ?_⟩, ?_⟩ <;> rintro rfl <;> revert hb <;> decide
  char c hc := by
    simp only [isWs, Bool.or_eq_false_iff, beq_eq_false_iff_ne]
    refine ⟨⟨⟨?_, ?_⟩, ?_⟩, ?_⟩ <;> rintro rfl <;> revert hc <;> decide

def NoWs (cs : List Char) : Prop := ∀ c ∈ cs.head?, ¬IsWs c

/-- A scan stops behind the characters of the class. -/
theorem scan_at {q : UInt8 → Bool} {P : Char → Bool} (hq : AsciiClass q P) {s : Bytes} {p : Nat}
    {cs : List Char} (h : At s p cs) :
    At s (p + ((s.drop p).takeWhile q).length) (cs.dropWhile P) := by
  rw [Here.drop h, (hq.takeWhile cs).1]
  apply At.skip
  rwa [List.takeWhile_append_dropWhile]

theorem spaces_at {s : Bytes} {p : Nat} {cs : List Char} (h : At s p cs) :
    At s (spaces s p) (cs.dropWhile isWs) := scan_at space_class h

theorem dropWhile_ws {w cs : List Char} (hw : Ws w) (hn : NoWs cs) :
    (w ++ cs).dropWhile isWs = cs := by
  rw [List.dropWhile_append_of_pos (fun c hc => (isWs_iff c).mpr (hw c hc))]
  cases cs with
  | nil => rfl
  | cons c cs =>
    rw [List.dropWhile_cons_of_neg]
    rw [isWs_iff]
    exact hn c rfl

/-- Behind the white space the rest is what the scan leaves. -/
theorem spaces_reads {s : Bytes} {p : Nat} {w cs : List Char} (h : At s p (w ++ cs)) (hw : Ws w)
    (hn : NoWs cs) : At s (spaces s p) cs := by
  have := spaces_at h
  rwa [dropWhile_ws hw hn] at this

theorem spaces_outcome {s : Bytes} {p : Nat} {cs : List Char} (h : At s p cs) :
    ∃ w cs', cs = w ++ cs' ∧ Ws w ∧ NoWs cs' ∧ At s (spaces s p) cs' := by
  refine ⟨cs.takeWhile isWs, cs.dropWhile isWs, (List.takeWhile_append_dropWhile).symm, ?_, ?_,
    spaces_at h⟩
  · intro c hc
    exact (isWs_iff c).mp (List.mem_takeWhile_imp hc)
  · intro c hc hws
    have := List.head?_dropWhile_not isWs cs
    rw [Option.mem_def.mp hc] at this
    simp [(isWs_iff c).mpr hws] at this

end KmVirtualCamera.L1.Json
