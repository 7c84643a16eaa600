import Mathlib

/-!
# UTF-8

A byte string is valid UTF-8 when it is `utf8 cs` for a list of characters (a
`Char` is a Unicode scalar value). An ASCII character is its own byte
(`utf8_ascii`); the bytes of any other character are all above 127
(`encode_high`).
-/
namespace KmVirtualCamera.Utf8

def utf8 (cs : List Char) : List UInt8 := cs.flatMap String.utf8EncodeChar

@[simp] theorem utf8_nil : utf8 [] = [] := rfl

@[simp] theorem utf8_cons (c : Char) (cs : List Char) :
    utf8 (c :: cs) = String.utf8EncodeChar c ++ utf8 cs := rfl

@[simp] theorem utf8_append (as bs : List Char) : utf8 (as ++ bs) = utf8 as ++ utf8 bs := by
  simp [utf8]

/-! ## The four lengths -/

theorem encode_one {c : Char} (h : c.toNat < 0x80) :
    String.utf8EncodeChar c = [UInt8.ofNat c.toNat] := by
  have h1 : c.val.toNat ≤ 0x7f := Nat.le_of_lt_succ h
  simp only [String.utf8EncodeChar, h1, if_true]
  rfl

theorem encode_two {c : Char} (h : 0x80 ≤ c.toNat) (h' : c.toNat < 0x800) :
    String.utf8EncodeChar c =
      [UInt8.ofNat (c.toNat / 64 + 0xc0), UInt8.ofNat (c.toNat % 64 + 0x80)] := by
  have h1 : ¬c.val.toNat ≤ 0x7f := by change ¬c.toNat ≤ _; omega
  have h2 : c.val.toNat ≤ 0x7ff := by change c.toNat ≤ _; omega
  have h3 : c.val.toNat / 64 % 0x20 = c.toNat / 64 := by change c.toNat / 64 % 32 = _; omega
  simp only [String.utf8EncodeChar, h1, h2, h3, if_true, if_false]
  rfl

theorem encode_three {c : Char} (h : 0x800 ≤ c.toNat) (h' : c.toNat < 0x10000) :
    String.utf8EncodeChar c = [UInt8.ofNat (c.toNat / 4096 + 0xe0),
      UInt8.ofNat (c.toNat / 64 % 64 + 0x80), UInt8.ofNat (c.toNat % 64 + 0x80)] := by
  have h1 : ¬c.val.toNat ≤ 0x7f := by change ¬c.toNat ≤ _; omega
  have h2 : ¬c.val.toNat ≤ 0x7ff := by change ¬c.toNat ≤ _; omega
  have h3 : c.val.toNat ≤ 0xffff := by change c.toNat ≤ _; omega
  have h4 : c.val.toNat / 4096 % 0x10 = c.toNat / 4096 := by change c.toNat / 4096 % 16 = _; omega
  simp only [String.utf8EncodeChar, h1, h2, h3, h4, if_true, if_false]
  rfl

theorem toNat_lt (c : Char) : c.toNat < 0x110000 := by
  rcases c.valid with h | h
  · exact lt_trans h (by decide)
  · exact h.2

theorem not_surrogate (c : Char) : c.toNat < 0xd800 ∨ 0xdfff < c.toNat := by
  rcases c.valid with h | h
  · exact Or.inl h
  · exact Or.inr h.1

theorem encode_four {c : Char} (h : 0x10000 ≤ c.toNat) :
    String.utf8EncodeChar c = [UInt8.ofNat (c.toNat / 262144 + 0xf0),
      UInt8.ofNat (c.toNat / 4096 % 64 + 0x80), UInt8.ofNat (c.toNat / 64 % 64 + 0x80),
      UInt8.ofNat (c.toNat % 64 + 0x80)] := by
  have hlt := toNat_lt c
  have h1 : ¬c.val.toNat ≤ 0x7f := by change ¬c.toNat ≤ _; omega
  have h2 : ¬c.val.toNat ≤ 0x7ff := by change ¬c.toNat ≤ _; omega
  have h3 : ¬c.val.toNat ≤ 0xffff := by change ¬c.toNat ≤ _; omega
  have h4 : c.val.toNat / 262144 % 8 = c.toNat / 262144 := by change c.toNat / 262144 % 8 = _; omega
  simp only [String.utf8EncodeChar, h1, h2, h3, h4, if_false]
  rfl

theorem encode_high {c : Char} (h : 0x80 ≤ c.toNat) {b : UInt8}
    (hb : b ∈ String.utf8EncodeChar c) : 0x80 ≤ b.toNat := by
  have hlt := toNat_lt c
  rcases Nat.lt_or_ge c.toNat 0x800 with h2 | h2
  · rw [encode_two h h2] at hb
    simp only [List.mem_cons, List.not_mem_nil, or_false] at hb
    rcases hb with rfl | rfl <;> rw [UInt8.toNat_ofNat'] <;> omega
  rcases Nat.lt_or_ge c.toNat 0x10000 with h3 | h3
  · rw [encode_three h2 h3] at hb
    simp only [List.mem_cons, List.not_mem_nil, or_false] at hb
    rcases hb with rfl | rfl | rfl <;> rw [UInt8.toNat_ofNat'] <;> omega
  · rw [encode_four h3] at hb
    simp only [List.mem_cons, List.not_mem_nil, or_false] at hb
    rcases hb with rfl | rfl | rfl | rfl <;> rw [UInt8.toNat_ofNat'] <;> omega

/-- A number that is a character's. -/
theorem ofNat_toNat {n : Nat} (h : n < 0x110000) (hs : n < 0xd800 ∨ 0xdfff < n) :
    (Char.ofNat n).toNat = n := by
  have hv : n.isValidChar := by
    unfold Nat.isValidChar
    omega
  rw [Char.toNat_ofNat, if_pos hv]

/-! ## Reading off the front -/

theorem utf8_ascii {c : Char} (h : c.toNat < 0x80) (cs : List Char) :
    utf8 (c :: cs) = UInt8.ofNat c.toNat :: utf8 cs := by
  rw [utf8_cons, encode_one h]
  rfl

theorem length_ascii_cons {c : Char} (h : c.toNat < 0x80) (cs : List Char) :
    (utf8 (c :: cs)).length = (utf8 cs).length + 1 := by
  rw [utf8_ascii h, List.length_cons]

theorem length_ascii {cs : List Char} (h : ∀ c ∈ cs, c.toNat < 0x80) : (utf8 cs).length = cs.length := by
  induction cs with
  | nil => rfl
  | cons c cs ih =>
    rw [length_ascii_cons (h c List.mem_cons_self), ih fun d hd => h d (List.mem_cons_of_mem c hd),
      List.length_cons]

theorem ascii_all {q : UInt8 → Bool} {cs : List Char}
    (h : ∀ c ∈ cs, c.toNat < 0x80 ∧ q (UInt8.ofNat c.toNat) = true) : (utf8 cs).all q = true := by
  induction cs with
  | nil => rfl
  | cons c cs ih =>
    obtain ⟨⟨hc, hq⟩, hcs⟩ := List.forall_mem_cons.1 h
    rw [utf8_ascii hc, List.all_cons, hq, ih hcs]
    rfl

theorem encode_pos (c : Char) : 0 < (String.utf8EncodeChar c).length :=
  List.length_pos_of_ne_nil String.utf8EncodeChar_ne_nil

/-- A string that starts with whole characters goes on with whole characters. -/
theorem utf8_split {t : List Char} : ∀ {cs : List Char} {r : List UInt8}, utf8 cs = utf8 t ++ r →
    ∃ cs', cs = t ++ cs' ∧ r = utf8 cs' := by
  induction t with
  | nil => exact fun h => ⟨_, rfl, h.symm⟩
  | cons c t ih =>
    intro cs r h
    rw [utf8_cons, List.append_assoc] at h
    cases cs with
    | nil => exact absurd (List.append_eq_nil_iff.mp h.symm).1 String.utf8EncodeChar_ne_nil
    | cons d cs =>
      rw [utf8_cons] at h
      -- the first character can be decoded again
      have hb := congrArg List.toByteArray h
      rw [List.toByteArray_append, List.toByteArray_append] at hb
      have hd := congrArg (ByteArray.utf8DecodeChar? · 0) hb
      simp only [ByteArray.utf8DecodeChar?_utf8EncodeChar_append, Option.some_inj] at hd
      subst hd
      obtain ⟨cs', rfl, hr⟩ := ih (List.append_cancel_left h)
      exact ⟨cs', rfl, hr⟩

theorem utf8_inj {as bs : List Char} (h : utf8 as = utf8 bs) : as = bs := by
  obtain ⟨cs, rfl, hr⟩ := utf8_split (t := bs) (r := []) (by simpa using h)
  cases cs with
  | nil => simp
  | cons c cs => exact absurd (List.append_eq_nil_iff.mp hr.symm).1 String.utf8EncodeChar_ne_nil

/-- A class of ASCII characters, tested on bytes. -/
structure AsciiClass (q : UInt8 → Bool) (P : Char → Bool) : Prop where
  ascii : ∀ c : Char, c.toNat < 0x80 → q (UInt8.ofNat c.toNat) = P c
  byte : ∀ b : UInt8, 0x80 ≤ b.toNat → q b = false
  char : ∀ c : Char, 0x80 ≤ c.toNat → P c = false

/-- A scan over bytes for such a class is the scan over characters. -/
theorem AsciiClass.takeWhile {q : UInt8 → Bool} {P : Char → Bool} (h : AsciiClass q P) (cs : List Char) :
    (utf8 cs).takeWhile q = utf8 (cs.takeWhile P) ∧
      (utf8 (cs.takeWhile P)).length = (cs.takeWhile P).length := by
  induction cs with
  | nil => exact ⟨rfl, rfl⟩
  | cons c cs ih =>
    rcases Nat.lt_or_ge c.toNat 0x80 with hc | hc
    · rw [utf8_ascii hc, List.takeWhile_cons, List.takeWhile_cons, h.ascii c hc]
      cases P c with
      | false => exact ⟨rfl, rfl⟩
      | true =>
        simp only [if_true, utf8_ascii hc, List.length_cons]
        exact ⟨by rw [ih.1], by rw [ih.2]⟩
    · rw [List.takeWhile_cons, h.char c hc, utf8_cons]
      have hpos := encode_pos c
      have hhigh : ∀ b ∈ String.utf8EncodeChar c, 0x80 ≤ b.toNat := fun b hb => encode_high hc hb
      cases he : String.utf8EncodeChar c with
      | nil => simp [he] at hpos
      | cons b bs =>
        have hb : q b = false := h.byte b (hhigh b (by rw [he]; simp))
        exact ⟨by simp [hb], rfl⟩

end KmVirtualCamera.Utf8
