import Mathlib
import KmVirtualCamera.L1Encoding.JsonLexical

/-!
# Strings of the JSON reader

`string` reads exactly the string texts whose surrogate escapes are paired,
and returns the UTF-8 of the characters they stand for (`string_reads`,
`string_outcome`). One round of the loop takes a piece: a plain character, an
escape, or a pair of surrogate escapes; a character above ASCII takes a round
for each of its bytes.
-/
namespace KmVirtualCamera.L1.Json
open KmVirtualCamera.L1.H264 KmVirtualCamera.Utf8 KmVirtualCamera.Rfc8259

/-! ## Escapes -/

theorem hexDigit_ascii {c : Char} (hc : c.toNat < 0x80) : hexDigit (UInt8.ofNat c.toNat) = hexVal c := by
  have hb : (UInt8.ofNat c.toNat).toNat = c.toNat := by rw [UInt8.toNat_ofNat']; omega
  simp only [hexDigit, hexVal, hb]
  split
  · rfl
  · split
    · rw [show c.toNat - 97 + 10 = c.toNat - 87 by omega]
    · split
      · rw [show c.toNat - 65 + 10 = c.toNat - 55 by omega]
      · rfl

theorem hexVal_ascii {c : Char} {n : Nat} (h : hexVal c = some n) : c.toNat < 0x80 := by
  simp only [hexVal] at h
  split at h
  · omega
  · split at h
    · omega
    · split at h
      · omega
      · simp at h

/-- One digit of the loop: read, or refused. -/
theorem hexLoop_step {s : Bytes} {p : Nat} {cs : List Char} (h : At s p cs) (hne : cs ≠ [])
    (k n : Nat) :
    (∃ c cs' v, cs = c :: cs' ∧ hexVal c = some v ∧ At s (p + 1) cs' ∧
      hexLoop s (k + 1) p n = hexLoop s k (p + 1) (n * 16 + v)) ∨
    ((∀ c ∈ cs.head?, hexVal c = none) ∧ hexLoop s (k + 1) p n = .error .thrown) := by
  cases cs with
  | nil => exact absurd rfl hne
  | cons c cs' =>
    rcases Nat.lt_or_ge c.toNat 0x80 with hc | hc
    · cases hv : hexVal c with
      | some v =>
        refine Or.inl ⟨c, cs', v, rfl, hv, h.next hc, ?_⟩
        simp [hexLoop, h.peek_eq hc, hexDigit_ascii hc, hv]
      | none =>
        refine Or.inr ⟨by simpa using hv, ?_⟩
        simp [hexLoop, h.peek_eq hc, hexDigit_ascii hc, hv]
    · have hnone : hexVal c = none := by
        cases hv : hexVal c with
        | none => rfl
        | some v =>
          have := hexVal_ascii hv
          omega
      refine Or.inr ⟨by simpa using hnone, ?_⟩
      have hpos := encode_pos c
      have hhigh : ∀ b ∈ String.utf8EncodeChar c, 0x80 ≤ b.toNat := fun b hb => encode_high hc hb
      unfold At at h
      rw [utf8_cons] at h
      cases he : String.utf8EncodeChar c with
      | nil => simp [he] at hpos
      | cons b bs =>
        have hb := hhigh b (by rw [he]; simp)
        rw [he] at h
        have hd : hexDigit b = none := by
          simp only [hexDigit]
          rw [if_neg (by omega), if_neg (by omega), if_neg (by omega)]
        simp [hexLoop, Here.peek_eq h, hd]

theorem hexLoop_four {s : Bytes} {p : Nat} {cs : List Char} (h : At s p cs)
    (hlen : 4 ≤ (utf8 cs).length) :
    (∃ a b c d n cs', cs = a :: b :: c :: d :: cs' ∧ hexFour a b c d = some n ∧ At s (p + 4) cs' ∧
      hexLoop s 4 p 0 = .ok n) ∨
    (hexLoop s 4 p 0 = .error .thrown ∧
      ∀ a b c d cs', cs = a :: b :: c :: d :: cs' → hexFour a b c d = none) := by
  have ne : ∀ {p' : Nat} {cs' : List Char}, At s p' cs' → p' < p + 4 → cs' ≠ [] := by
    intro p' cs' h' hp hnil
    subst hnil
    have h1 := Here.length h
    have h2 := Here.length h'
    simp at h2
    omega
  rcases hexLoop_step h (ne h (by omega)) 3 0 with ⟨a, cs, i, rfl, hi, h1, e1⟩ | ⟨hn, e1⟩
  · rcases hexLoop_step h1 (ne h1 (by omega)) 2 (0 * 16 + i) with ⟨b, cs, j, rfl, hj, h2, e2⟩ | ⟨hn, e2⟩
    · rcases hexLoop_step h2 (ne h2 (by omega)) 1 ((0 * 16 + i) * 16 + j) with
        ⟨c, cs, k, rfl, hk, h3, e3⟩ | ⟨hn, e3⟩
      · rcases hexLoop_step h3 (ne h3 (by omega)) 0 (((0 * 16 + i) * 16 + j) * 16 + k) with
          ⟨d, cs, l, rfl, hl, h4, e4⟩ | ⟨hn, e4⟩
        · refine Or.inl ⟨a, b, c, d, ((i * 16 + j) * 16 + k) * 16 + l, cs, rfl, ?_, h4, ?_⟩
          · simp [hexFour, hi, hj, hk, hl]
          · rw [e1, e2, e3, e4, hexLoop, Nat.zero_mul, Nat.zero_add]
        · refine Or.inr ⟨by rw [e1, e2, e3, e4], ?_⟩
          intro a' b' c' d' cs' heq
          obtain ⟨rfl, rfl, rfl, rfl⟩ : a = a' ∧ b = b' ∧ c = c' ∧ cs = d' :: cs' := by simpa using heq
          simp [hexFour, hi, hj, hk, hn d' rfl]
      · refine Or.inr ⟨by rw [e1, e2, e3], ?_⟩
        intro a' b' c' d' cs' heq
        obtain ⟨rfl, rfl, rfl⟩ : a = a' ∧ b = b' ∧ cs = c' :: d' :: cs' := by simpa using heq
        simp [hexFour, hi, hj, hn c' rfl]
    · refine Or.inr ⟨by rw [e1, e2], ?_⟩
      intro a' b' c' d' cs' heq
      obtain ⟨rfl, rfl⟩ : a = a' ∧ cs = b' :: c' :: d' :: cs' := by simpa using heq
      simp [hexFour, hi, hn b' rfl]
  · refine Or.inr ⟨e1, ?_⟩
    rintro a' b' c' d' cs' rfl
    simp [hexFour, hn a' rfl]

theorem hex_cases {s : Bytes} {p : Nat} {cs : List Char} (h : At s p cs) :
    (∃ a b c d n cs', cs = a :: b :: c :: d :: cs' ∧ hexFour a b c d = some n ∧ At s (p + 4) cs' ∧
      hex s p = .ok n) ∨
    (hex s p = .error .thrown ∧
      ∀ a b c d cs', cs = a :: b :: c :: d :: cs' → hexFour a b c d = none) := by
  have hl := Here.length h
  by_cases hs : s.length - p < 4
  · refine Or.inr ⟨by rw [hex, if_pos ⟨by omega, hs⟩], ?_⟩
    rintro a b c d cs' rfl
    have := encode_pos a
    have := encode_pos b
    have := encode_pos c
    have := encode_pos d
    simp only [utf8_cons, List.length_append] at hl
    omega
  · rw [hex, if_neg (fun hc => hs hc.2)]
    exact hexLoop_four h (by omega)

theorem hexFour_lt {a b c d : Char} {n : Nat} (h : hexFour a b c d = some n) : n < 0x10000 := by
  have lt : ∀ {x : Char} {v : Nat}, hexVal x = some v → v < 16 := by
    intro x v hv
    simp only [hexVal] at hv
    split at hv
    · cases hv; omega
    · split at hv
      · cases hv; omega
      · split at hv
        · cases hv; omega
        · simp at hv
  simp only [hexFour, Option.bind_eq_bind, Option.bind_eq_some_iff, Option.pure_def, Option.some_inj] at h
  obtain ⟨i, hi, j, hj, k, hk, l, hl, rfl⟩ := h
  have := lt hi
  have := lt hj
  have := lt hk
  have := lt hl
  omega

theorem or_high {n i a : Nat} (h : n < 2 ^ i) : 2 ^ i * a ||| n = 2 ^ i * a + n :=
  (Nat.two_pow_add_eq_or_of_lt h a).symm

/-- `appendUtf8` is the encoding of a character. -/
theorem appendUtf8_eq (out : Bytes) {n : Nat} (h : n < 0x110000) (hs : n < 0xd800 ∨ 0xdfff < n) :
    appendUtf8 out n = out ++ String.utf8EncodeChar (Char.ofNat n) := by
  have hn := ofNat_toNat h hs
  have e6 : n >>> 6 = n / 64 := Nat.shiftRight_eq_div_pow n 6
  have e12 : n >>> 12 = n / 4096 := Nat.shiftRight_eq_div_pow n 12
  have e18 : n >>> 18 = n / 262144 := Nat.shiftRight_eq_div_pow n 18
  have m6 : ∀ k, k &&& 63 = k % 64 := fun k => and_low k 6
  have o7 : ∀ k, k < 64 → 128 ||| k = k + 0x80 := fun k hk => by
    rw [show (128 : Nat) = 2 ^ 7 * 1 from rfl, or_high (by omega)]; omega
  rw [appendUtf8]
  split
  · rw [encode_one (by omega), hn]
  split
  · have o6 : 192 ||| n / 64 = n / 64 + 0xc0 := by
      rw [show (192 : Nat) = 2 ^ 6 * 3 from rfl, or_high (by omega)]; omega
    rw [encode_two (by omega) (by omega), hn, e6, m6, o6, o7 _ (by omega)]
  split
  · have o5 : 224 ||| n / 4096 = n / 4096 + 0xe0 := by
      rw [show (224 : Nat) = 2 ^ 5 * 7 from rfl, or_high (by omega)]; omega
    rw [encode_three (by omega) (by omega), hn, e12, e6, m6, m6, o5, o7 _ (by omega),
      o7 _ (by omega)]
  · have o4 : 240 ||| n / 262144 = n / 262144 + 0xf0 := by
      rw [show (240 : Nat) = 2 ^ 4 * 15 from rfl, or_high (by omega)]; omega
    rw [encode_four (by omega), hn, e18, e12, e6, m6, m6, m6, o4, o7 _ (by omega), o7 _ (by omega),
      o7 _ (by omega)]

theorem ascii_length {t : List Char} (h : ∀ c ∈ t, c.toNat < 0x80) : (utf8 t).length = t.length := by
  induction t with
  | nil => rfl
  | cons c t ih =>
    rw [utf8_ascii (h c (by simp)), List.length_cons, List.length_cons, ih fun d hd => h d (by simp [hd])]

theorem hexFour_ascii {a b c d : Char} {n : Nat} (h : hexFour a b c d = some n) :
    a.toNat < 0x80 ∧ b.toNat < 0x80 ∧ c.toNat < 0x80 ∧ d.toNat < 0x80 := by
  simp only [hexFour, Option.bind_eq_bind, Option.bind_eq_some_iff] at h
  obtain ⟨i, hi, j, hj, k, hk, l, hl, -⟩ := h
  exact ⟨hexVal_ascii hi, hexVal_ascii hj, hexVal_ascii hk, hexVal_ascii hl⟩

/-- What `unicode` accepts: four digits that are no surrogate, or a pair. -/
inductive UnicodeText : List Char → List Atom → Char → Prop
  | scalar {a b c d : Char} {n : Nat} : hexFour a b c d = some n → ¬(IsHigh n ∨ IsLow n) →
      UnicodeText [a, b, c, d] [.code n] (Char.ofNat n)
  | pair {a b c d e f g h : Char} {hi lo : Nat} : hexFour a b c d = some hi → IsHigh hi →
      hexFour e f g h = some lo → IsLow lo →
      UnicodeText [a, b, c, d, '\\', 'u', e, f, g, h] [.code hi, .code lo] (pairChar hi lo)

theorem UnicodeText.piece {t : List Char} {p : List Atom} {ch : Char} (h : UnicodeText t p ch) :
    AtomsText ('\\' :: 'u' :: t) p ∧ Piece p ch := by
  cases h with
  | scalar hn hs => exact ⟨(AtomText.code hn).single, .scalar hs⟩
  | pair hh hs hl hs' =>
    exact ⟨(AtomText.code hh).single.append (AtomText.code hl).single, .pair hs hs'⟩

theorem unicode_outcome {s : Bytes} {p : Nat} {cs : List Char} (h : At s p cs) (out : Bytes) :
    Outcome Fault.thrown (fun r => ∃ t as ch cs', cs = t ++ cs' ∧ UnicodeText t as ch ∧
      r = (out ++ String.utf8EncodeChar ch, p + t.length) ∧ At s (p + t.length) cs')
      (unicode s p out) := by
  rcases hex_cases h with ⟨a, b, c, d, n, cs, rfl, hn, h4, he⟩ | ⟨he, -⟩
  swap
  · rw [unicode, he]
    exact .raised
  have hlt := hexFour_lt hn
  simp only [unicode, he, ok_bind]
  split
  · rename_i hhigh
    rcases take_cases (c := '\\') h4 (by decide) with ⟨cs, rfl, ht, h5⟩ | ⟨-, ht⟩
    swap
    · simp only [ht]
      exact .raised
    simp only [ht]
    rcases take_cases (c := 'u') h5 (by decide) with ⟨cs, rfl, ht, h6⟩ | ⟨-, ht⟩
    swap
    · simp only [ht]
      exact .raised
    simp only [ht]
    rcases hex_cases h6 with ⟨e, f, g, i, lo, cs, rfl, hlo, h10, he⟩ | ⟨he, -⟩
    swap
    · rw [he]
      exact .raised
    rw [he, ok_bind]
    split
    · exact .raised
    · rename_i hlow
      have hl : IsLow lo := by unfold IsLow; omega
      refine .ok ⟨_, _, _, cs, rfl, .pair hn hhigh hlo hl, ?_, h10⟩
      have hshift : (n - 0xd800) <<< 10 = (n - 0xd800) * 1024 := Nat.shiftLeft_eq _ _
      unfold IsLow at hl
      rw [hshift, appendUtf8_eq _ (by omega) (by omega)]
      rfl
  · rename_i hhigh
    split
    · exact .raised
    · rename_i hlow
      refine .ok ⟨_, _, _, cs, rfl, .scalar hn (fun hs => hs.elim hhigh hlow), ?_, h4⟩
      rw [appendUtf8_eq _ (by omega) (by omega)]
      rfl

theorem unicode_reads {s : Bytes} {p : Nat} {t cs : List Char} {as : List Atom} {ch : Char}
    (ht : UnicodeText t as ch) (h : At s p (t ++ cs)) (out : Bytes) :
    unicode s p out = .ok (out ++ String.utf8EncodeChar ch, p + t.length) := by
  cases ht with
  | scalar hn hs =>
    rename_i n
    rcases hex_cases h with ⟨a, b, c, d, n', cs', heq, hn', h4, he⟩ | ⟨-, hno⟩
    swap
    · rw [hno _ _ _ _ _ rfl] at hn
      simp at hn
    obtain ⟨rfl, rfl, rfl, rfl, rfl⟩ : _ ∧ _ ∧ _ ∧ _ ∧ _ := by simpa using heq
    obtain rfl := Option.some_inj.mp (hn.symm.trans hn')
    have hlt := hexFour_lt hn
    simp only [unicode, he, ok_bind]
    have hhigh : ¬(n ≥ 0xd800 ∧ n ≤ 0xdbff) := fun hc => hs (Or.inl hc)
    have hlow : ¬(n ≥ 0xdc00 ∧ n ≤ 0xdfff) := fun hc => hs (Or.inr hc)
    rw [if_neg hhigh, if_neg hlow, appendUtf8_eq _ (by omega) (by omega)]
    rfl
  | pair hh hs hl hs' =>
    rename_i hi lo
    rcases hex_cases h with ⟨a, b, c, d, n, cs', heq, hn', h4, he⟩ | ⟨-, hno⟩
    swap
    · rw [hno _ _ _ _ _ rfl] at hh
      simp at hh
    obtain ⟨rfl, rfl, rfl, rfl, rfl⟩ : _ ∧ _ ∧ _ ∧ _ ∧ _ := by simpa using heq
    obtain rfl := Option.some_inj.mp (hh.symm.trans hn')
    have h5 := At.next h4 (by decide)
    have h6 := At.next h5 (by decide)
    rcases hex_cases h6 with ⟨a', b', c', d', n', cs', heq, hn'', h10, he'⟩ | ⟨-, hno⟩
    swap
    · rw [hno _ _ _ _ _ rfl] at hl
      simp at hl
    obtain ⟨rfl, rfl, rfl, rfl, rfl⟩ : _ ∧ _ ∧ _ ∧ _ ∧ _ := by simpa using heq
    obtain rfl := Option.some_inj.mp (hl.symm.trans hn'')
    have hlt := hexFour_lt hh
    have hshift : (hi - 0xd800) <<< 10 = (hi - 0xd800) * 1024 := Nat.shiftLeft_eq _ _
    simp only [unicode, he, ok_bind]
    have hhigh : hi ≥ 0xd800 ∧ hi ≤ 0xdbff := hs
    rw [if_pos hhigh]
    simp only [take_hit h4 (by decide), take_hit h5 (by decide), he', ok_bind]
    unfold IsHigh at hs
    unfold IsLow at hs'
    rw [if_neg (by omega), hshift, appendUtf8_eq _ (by omega) (by omega)]
    rfl

/-! ## Strings -/

/-- What may follow a backslash. -/
inductive EscapeText : List Char → List Atom → Char → Prop
  | short {e c : Char} : (e, c) ∈ shorts → EscapeText [e] [.short c] c
  | unicode {t : List Char} {as : List Atom} {ch : Char} : UnicodeText t as ch →
      EscapeText ('u' :: t) as ch

/-- What one round of the loop takes for a character. -/
inductive PieceText : List Char → List Atom → Char → Prop
  | plain {c : Char} : 0x20 ≤ c.toNat → c ≠ '"' → c ≠ '\\' → PieceText [c] [.plain c] c
  | escape {t : List Char} {as : List Atom} {ch : Char} : EscapeText t as ch →
      PieceText ('\\' :: t) as ch

theorem PieceText.piece {t : List Char} {as : List Atom} {ch : Char} (h : PieceText t as ch) :
    AtomsText t as ∧ Piece as ch ∧ t ≠ [] := by
  cases h with
  | plain h1 h2 h3 => exact ⟨(AtomText.plain h1 h2 h3).single, .scalar (fun hf => hf), by simp⟩
  | escape he =>
    cases he with
    | short hs => exact ⟨(AtomText.short hs).single, .scalar (fun hf => hf), by simp⟩
    | unicode hu => exact ⟨hu.piece.1, hu.piece.2, by simp⟩

theorem piece_text {t : List Char} {as : List Atom} {ch : Char} (h : AtomsText t as)
    (hp : Piece as ch) : PieceText t as ch := by
  cases hp with
  | scalar hs =>
    cases h with
    | cons ha hr =>
      cases hr
      rw [List.append_nil]
      cases ha with
      | plain h1 h2 h3 => exact .plain h1 h2 h3
      | short hm => exact .escape (.short hm)
      | code hn => exact .escape (.unicode (.scalar hn hs))
  | pair hh hl =>
    cases h with
    | cons ha hr =>
      cases hr with
      | cons hb hr =>
        cases hr
        cases ha with
        | code hn =>
          cases hb with
          | code hm => exact .escape (.unicode (.pair hn hh hm hl))

theorem shortEscape_shorts : ∀ ec ∈ shorts, shortEscape ec.1.toUInt8 = some ec.2.toUInt8 ∧
    ec.1.toNat < 0x80 ∧ ec.2.toNat < 0x80 := by
  decide

theorem shortEscape_some {e : Char} {b : UInt8} (he : e.toNat < 0x80)
    (h : shortEscape e.toUInt8 = some b) : ∃ c, (e, c) ∈ shorts ∧ b = c.toUInt8 := by
  have hall : ∀ n < 128, (shortEscape (UInt8.ofNat n)).all (fun b =>
      shorts.any fun ec => ec.1.toNat == n && ec.2.toUInt8 == b) = true := by decide +kernel
  have hn := hall e.toNat he
  rw [← toUInt8_eq, h] at hn
  obtain ⟨ec, hmem, hec⟩ := List.any_eq_true.mp hn
  obtain ⟨h1, h2⟩ : ec.1.toNat = e.toNat ∧ ec.2.toUInt8 = b := by simpa using hec
  rw [Char.toNat_inj] at h1
  exact ⟨ec.2, h1 ▸ hmem, h2.symm⟩

theorem escape_high {b : UInt8} (hb : 0x80 ≤ b.toNat) : shortEscape b = none ∧ b ≠ 'u'.toUInt8 := by
  have hall : ∀ n < 256, 128 ≤ n → shortEscape (UInt8.ofNat n) = none ∧
      UInt8.ofNat n ≠ 'u'.toUInt8 := by decide +kernel
  have := hall b.toNat b.toNat_lt hb
  rwa [ofNat_eq rfl] at this

theorem escape_outcome {s : Bytes} {p : Nat} {cs : List Char} (h : At s p cs) (out : Bytes) :
    Outcome Fault.thrown (fun r => ∃ t as ch cs', cs = t ++ cs' ∧ EscapeText t as ch ∧
      r = (out ++ String.utf8EncodeChar ch, p + t.length) ∧ At s (p + t.length) cs')
      (escape s p out) := by
  by_cases hend : p = s.length
  · rw [escape, if_pos hend]
    exact .raised
  rw [escape, if_neg hend]
  cases cs with
  | nil => exact absurd (h.end_iff.mpr rfl) hend
  | cons e cs =>
    rcases Nat.lt_or_ge e.toNat 0x80 with he | he
    · rw [h.peek_eq he, ok_bind, ← toUInt8_eq]
      cases hs : shortEscape e.toUInt8 with
      | some b =>
        obtain ⟨c, hmem, rfl⟩ := shortEscape_some he hs
        refine .ok ⟨[e], _, c, cs, rfl, .short hmem, ?_, h.next he⟩
        rw [encode_one (shortEscape_shorts _ hmem).2.2, toUInt8_eq]
        rfl
      | none =>
        simp only
        split
        · rename_i hu
          rw [toUInt8_eq, toUInt8_eq, ofNat_inj (by omega) (by decide), Char.toNat_inj] at hu
          subst hu
          refine (unicode_outcome (h.next he) out).mono ?_
          rintro r ⟨t, as, ch, cs', rfl, ht, rfl, h'⟩
          refine ⟨'u' :: t, as, ch, cs', rfl, .unicode ht, ?_, ?_⟩
          · simp only [List.length_cons]
            rw [Nat.add_right_comm, Nat.add_assoc]
          · rw [List.length_cons, show p + (t.length + 1) = p + 1 + t.length by omega]
            exact h'
        · exact .raised
    · have hpos := encode_pos e
      have hhigh : ∀ b ∈ String.utf8EncodeChar e, 0x80 ≤ b.toNat := fun b hb => encode_high he hb
      unfold At at h
      rw [utf8_cons] at h
      cases henc : String.utf8EncodeChar e with
      | nil => simp [henc] at hpos
      | cons b bs =>
        obtain ⟨hn, hu⟩ := escape_high (hhigh b (by rw [henc]; simp))
        rw [henc] at h
        rw [Here.peek_eq h, ok_bind, hn]
        simp only
        rw [if_neg hu]
        exact .raised

theorem escape_reads {s : Bytes} {p : Nat} {t cs : List Char} {as : List Atom} {ch : Char}
    (ht : EscapeText t as ch) (h : At s p (t ++ cs)) (out : Bytes) :
    escape s p out = .ok (out ++ String.utf8EncodeChar ch, p + t.length) := by
  cases ht with
  | short hm =>
    obtain ⟨hs, he, hc⟩ := shortEscape_shorts _ hm
    have hlt := At.lt h
    rw [escape, if_neg (by omega), At.peek_eq h he, ok_bind, ← toUInt8_eq, hs, encode_one hc]
    rfl
  | unicode hu =>
    have hlt := At.lt h
    have hnone : shortEscape 'u'.toUInt8 = none := by decide
    rw [escape, if_neg (by omega), At.peek_eq h (by decide), ok_bind, ← toUInt8_eq, hnone]
    simp only [if_true]
    rw [unicode_reads hu (At.next h (by decide)) out, List.length_cons, Nat.add_assoc,
      Nat.add_comm 1]

/-- Bytes above ASCII go through one by one. -/
theorem stringLoop_bytes {s : Bytes} {bs : Bytes} : ∀ {p : Nat} {r out : Bytes}, Here s p (bs ++ r) →
    (∀ b ∈ bs, 0x80 ≤ b.toNat) → ∀ fuel,
    stringLoop s (fuel + bs.length) p out = stringLoop s fuel (p + bs.length) (out ++ bs) := by
  induction bs with
  | nil => simp
  | cons b bs ih =>
    intro p r out h hb fuel
    have hlen := Here.length h
    simp only [List.cons_append, List.length_cons, List.length_append] at hlen
    have hbb := hb b (by simp)
    have hq : b ≠ '"'.toUInt8 := by rintro rfl; revert hbb; decide
    have hs : b ≠ '\\'.toUInt8 := by rintro rfl; revert hbb; decide
    rw [List.length_cons, ← Nat.add_assoc, stringLoop, if_pos (by omega), Here.peek_eq h, ok_bind,
      if_neg hq, if_neg (by omega), if_pos hs, ih (Here.next h) (fun x hx => hb x (by simp [hx]))]
    rw [show p + (bs.length + 1) = p + 1 + bs.length by omega, List.append_assoc]
    rfl

/-- The loop reads a piece in some rounds. -/
theorem stringLoop_piece {s : Bytes} {p : Nat} {t cs : List Char} {as : List Atom} {ch : Char}
    (ht : PieceText t as ch) (h : At s p (t ++ cs)) (out : Bytes) :
    ∃ k ≤ (utf8 t).length, ∀ fuel, stringLoop s (fuel + k) p out =
      stringLoop s fuel (p + (utf8 t).length) (out ++ String.utf8EncodeChar ch) := by
  cases ht with
  | plain h1 h2 h3 =>
    have ht : utf8 [ch] = String.utf8EncodeChar ch := by simp
    rw [ht]
    rcases Nat.lt_or_ge ch.toNat 0x80 with hc | hc
    · refine ⟨1, encode_pos ch, ?_⟩
      intro fuel
      have hlt := At.lt h
      have hq : UInt8.ofNat ch.toNat ≠ '"'.toUInt8 := by
        rw [toUInt8_eq, Ne, ofNat_inj (by omega) (by decide), Char.toNat_inj]
        exact h2
      have hs : UInt8.ofNat ch.toNat ≠ '\\'.toUInt8 := by
        rw [toUInt8_eq, Ne, ofNat_inj (by omega) (by decide), Char.toNat_inj]
        exact h3
      have hb : (UInt8.ofNat ch.toNat).toNat = ch.toNat := by rw [UInt8.toNat_ofNat']; omega
      rw [stringLoop, if_pos hlt, At.peek_eq h hc, ok_bind, if_neg hq, if_neg (by omega), if_pos hs,
        encode_one hc]
      rfl
    · refine ⟨_, Nat.le_refl _, ?_⟩
      intro fuel
      unfold At at h
      rw [utf8_append, ht] at h
      exact stringLoop_bytes h (fun b hb => encode_high hc hb) fuel
  | escape he =>
    rename_i t
    have hascii : ∀ c ∈ t, c.toNat < 0x80 := by
      cases he with
      | short hm => simpa using (shortEscape_shorts _ hm).2.1
      | unicode hu =>
        cases hu with
        | scalar hn _ =>
          obtain ⟨ha, hb, hc, hd⟩ := hexFour_ascii hn
          simp [ha, hb, hc, hd]
        | pair hn _ hm _ =>
          obtain ⟨ha, hb, hc, hd⟩ := hexFour_ascii hn
          obtain ⟨ha', hb', hc', hd'⟩ := hexFour_ascii hm
          simp [ha, hb, hc, hd, ha', hb', hc', hd']
    have hlen : (utf8 ('\\' :: t)).length = t.length + 1 := by
      rw [utf8_ascii (by decide), List.length_cons, ascii_length hascii]
    refine ⟨1, by omega, fun fuel => ?_⟩
    have hlt := At.lt h
    rw [stringLoop, if_pos hlt, At.peek_eq h (by decide), ok_bind, if_neg (by decide),
      if_neg (by decide), if_neg (by decide), escape_reads he (At.next h (by decide)) out, ok_bind, hlen,
      Nat.add_assoc, Nat.add_comm 1]

theorem utf8_pos {t : List Char} (h : t ≠ []) : 0 < (utf8 t).length := by
  cases t with
  | nil => exact absurd rfl h
  | cons c t =>
    have := encode_pos c
    rw [utf8_cons, List.length_append]
    omega

theorem stringLoop_reads {s : Bytes} {cs : List Char} : ∀ (n : Nat) {fuel p : Nat} {body : List Char}
    {as : List Atom} (out : Bytes), body.length ≤ n → AtomsText body as → Paired as →
    At s p (body ++ '"' :: cs) → (utf8 body).length < fuel →
    stringLoop s fuel p out = .ok (out ++ utf8 (unescape as), p + (utf8 body).length + 1) := by
  intro n
  induction n with
  | zero =>
    intro fuel p body as out hn hb hp h hf
    obtain rfl : body = [] := List.length_eq_zero_iff.mp (by omega)
    rcases hb.pieces hp with ⟨rfl, -⟩ | ⟨t, q, ch, body', as', ht, hq, -, -, heq, -⟩
    · obtain ⟨fuel, rfl⟩ : ∃ m, fuel = m + 1 := ⟨fuel - 1, by omega⟩
      have hlt := At.lt h
      rw [stringLoop, if_pos hlt, At.peek_eq h (by decide), ok_bind, if_pos (by decide)]
      simp [unescape]
    · exact absurd (List.append_eq_nil_iff.mp heq.symm).1 (piece_text ht hq).piece.2.2
  | succ n ih =>
    intro fuel p body as out hn hb hp h hf
    rcases hb.pieces hp with ⟨rfl, rfl⟩ | ⟨t, q, ch, body', as', ht, hq, hb', hp', rfl, rfl⟩
    · exact ih out (by simp) .nil .nil h hf
    · have hpt := piece_text ht hq
      have hpos := utf8_pos hpt.piece.2.2
      have htl : 0 < t.length := List.length_pos_of_ne_nil hpt.piece.2.2
      rw [List.append_assoc] at h
      rw [utf8_append, List.length_append] at hf ⊢
      rw [List.length_append] at hn
      obtain ⟨k, hk, hstep⟩ := stringLoop_piece hpt h out
      have hrest := @ih (fuel - k) _ _ _ (out ++ String.utf8EncodeChar ch) (by omega) hb' hp' h.skip
        (by omega)
      have hfuel : fuel = fuel - k + k := by omega
      rw [hfuel, hstep, hrest, (hq.paired hp').2, utf8_cons, List.append_assoc, Nat.add_assoc p]

theorem string_reads {s : Bytes} {p : Nat} {t cs : List Char} {as : List Atom} (ht : StringText t as)
    (hp : Paired as) (h : At s p (t ++ cs)) :
    string s p = .ok (utf8 (unescape as), p + (utf8 t).length) := by
  obtain ⟨body, hb, rfl⟩ := ht
  have h' : At s p ('"' :: (body ++ '"' :: cs)) := by simpa using h
  have hlen := Here.length (At.next h' (by decide))
  rw [utf8_append, List.length_append] at hlen
  rw [string, take_hit h' (by decide)]
  simp only
  rw [stringLoop_reads body.length [] (Nat.le_refl _) hb hp (At.next h' (by decide)) (by omega)]
  have hquote : (utf8 ['"']).length = 1 := by decide
  rw [utf8_ascii (by decide), List.length_cons, utf8_append, List.length_append, hquote,
    List.nil_append, Nat.add_assoc, Nat.add_assoc, Nat.add_comm 1]

theorem stringLoop_outcome {s : Bytes} : ∀ (n : Nat) {fuel p : Nat} {cs : List Char} (out : Bytes),
    cs.length ≤ n → At s p cs → (utf8 cs).length < fuel →
    Outcome Fault.thrown (fun r => ∃ body as cs', cs = body ++ '"' :: cs' ∧ AtomsText body as ∧
      Paired as ∧ r.1 = out ++ utf8 (unescape as) ∧ At s r.2 cs') (stringLoop s fuel p out) := by
  intro n
  induction n with
  | zero =>
    intro fuel p cs out hn h hf
    obtain rfl : cs = [] := List.length_eq_zero_iff.mp (by omega)
    obtain ⟨fuel, rfl⟩ : ∃ m, fuel = m + 1 := ⟨fuel - 1, by omega⟩
    rw [stringLoop, if_neg (by have := h.end_iff.mpr rfl; omega)]
    exact .raised
  | succ n ih =>
    intro fuel p cs out hn h hf
    obtain ⟨fuel, rfl⟩ : ∃ m, fuel = m + 1 := ⟨fuel - 1, by omega⟩
    -- a piece, and the loop goes on behind it
    have piece : ∀ {t as ch cs'}, PieceText t as ch → cs = t ++ cs' →
        Outcome Fault.thrown (fun r => ∃ body as cs', cs = body ++ '"' :: cs' ∧ AtomsText body as ∧
          Paired as ∧ r.1 = out ++ utf8 (unescape as) ∧ At s r.2 cs')
          (stringLoop s (fuel + 1) p out) := by
      intro t as ch cs' ht heq
      subst heq
      obtain ⟨hat, hpc, hne⟩ := ht.piece
      have htl : 0 < t.length := List.length_pos_of_ne_nil hne
      rw [List.length_append] at hn
      obtain ⟨k, hk, hstep⟩ := stringLoop_piece ht h out
      rw [utf8_append, List.length_append] at hf
      have hrest := @ih (fuel + 1 - k) _ _ (out ++ String.utf8EncodeChar ch) (by omega) h.skip
        (by omega)
      rw [show fuel + 1 = fuel + 1 - k + k by omega, hstep]
      refine hrest.mono ?_
      rintro ⟨o, q⟩ ⟨body, bs, cs'', rfl, hb, hp, ho, hq⟩
      refine ⟨t ++ body, as ++ bs, cs'', by simp, hat.append hb, (hpc.paired hp).1, ?_, hq⟩
      rw [ho, (hpc.paired hp).2, utf8_cons, List.append_assoc]
    cases cs with
    | nil =>
      rw [stringLoop, if_neg (by have := h.end_iff.mpr rfl; omega)]
      exact .raised
    | cons c cs =>
      have hlt := h.lt
      by_cases hq : c = '"'
      · subst hq
        rw [stringLoop, if_pos hlt, h.peek_eq (by decide), ok_bind, if_pos (by decide)]
        exact .ok ⟨[], [], cs, rfl, .nil, .nil, by simp [unescape], h.next (by decide)⟩
      by_cases hs : c = '\\'
      · subst hs
        have hrun : stringLoop s (fuel + 1) p out =
            (escape s (p + 1) out >>= fun r => stringLoop s fuel r.2 r.1) := by
          rw [stringLoop, if_pos hlt, h.peek_eq (by decide), ok_bind, if_neg (by decide),
            if_neg (by decide), if_neg (by decide)]
        have hesc := escape_outcome (h.next (by decide)) out
        cases hx : escape s (p + 1) out with
        | error e =>
          rw [hrun, hx, hesc.error_eq hx]
          exact .raised
        | ok r =>
          obtain ⟨t, as, ch, cs', rfl, ht, -, -⟩ := hesc.of_ok hx
          exact piece (.escape ht) rfl
      · rcases Nat.lt_or_ge c.toNat 0x20 with hc | hc
        · have hqb : UInt8.ofNat c.toNat ≠ '"'.toUInt8 := by
            rw [toUInt8_eq, Ne, ofNat_inj (by omega) (by decide), Char.toNat_inj]
            exact hq
          have hb : (UInt8.ofNat c.toNat).toNat = c.toNat := by rw [UInt8.toNat_ofNat']; omega
          rw [stringLoop, if_pos hlt, h.peek_eq (by omega), ok_bind, if_neg hqb, if_pos (by omega)]
          exact .raised
        · exact piece (.plain hc hq hs) rfl

theorem string_outcome {s : Bytes} {p : Nat} {cs : List Char} (h : At s p cs) :
    Outcome Fault.thrown (fun r => ∃ t as cs', cs = t ++ cs' ∧ StringText t as ∧ Paired as ∧
      r.1 = utf8 (unescape as) ∧ At s r.2 cs') (string s p) := by
  rcases take_cases (c := '"') h (by decide) with ⟨cs, rfl, ht, h'⟩ | ⟨-, ht⟩
  · have hlen := Here.length h'
    rw [string, ht]
    refine (stringLoop_outcome cs.length [] (Nat.le_refl _) h' (by omega)).mono ?_
    rintro ⟨o, q⟩ ⟨body, as, cs', rfl, hb, hp, ho, hq⟩
    exact ⟨'"' :: (body ++ ['"']), as, cs', by simp, ⟨body, hb, rfl⟩, hp, ho, hq⟩
  · rw [string, ht]
    exact .raised

end KmVirtualCamera.L1.Json
