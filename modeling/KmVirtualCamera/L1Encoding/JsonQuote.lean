import Mathlib
import KmVirtualCamera.L1Encoding.JsonValues

/-!
# What the signaling code writes (`appendUtf8`, `quote`)

Writer against reader. `validUtf8` accepts exactly what `appendUtf8` writes for
a list of scalar values, and the list is determined (`validUtf8_encodes`). The
quotation of a text is a string text of the grammar whose atoms stand for its
characters one by one (`quoted`), so the reader returns the text again
(`parse_quotation`).

`quote` works on bytes. Above ASCII it copies them, and no byte of such a
character is below 128, so byte by byte is character by character
(`quoteByte_char`).
-/
namespace KmVirtualCamera.L1.Json
open KmVirtualCamera.L1.H264 KmVirtualCamera.Utf8 KmVirtualCamera.Rfc8259

/-! ## Scalar values -/

/-- A Unicode scalar value. -/
abbrev Scalar := { n : Nat // n ≤ 0x10ffff ∧ ¬(0xd800 ≤ n ∧ n ≤ 0xdfff) }

def encode (cs : List Scalar) : Bytes := cs.foldl (fun out c => appendUtf8 out c.val) []

def Scalar.char (c : Scalar) : Char := Char.ofNat c.val

theorem Scalar.char_toNat (c : Scalar) : c.char.toNat = c.val := by
  have hlt := c.2.1
  have hs := c.2.2
  exact ofNat_toNat (by omega) (by omega)

theorem Scalar.char_inj {c d : Scalar} (h : c.char = d.char) : c = d := by
  apply Subtype.ext
  rw [← c.char_toNat, h, d.char_toNat]

def Scalar.ofChar (c : Char) : Scalar :=
  ⟨c.toNat, by have := toNat_lt c; omega, by have := not_surrogate c; omega⟩

theorem Scalar.ofChar_char (c : Char) : (Scalar.ofChar c).char = c :=
  Char.toNat_inj.mp (Scalar.ofChar c).char_toNat

theorem encode_eq (cs : List Scalar) : encode cs = utf8 (cs.map Scalar.char) := by
  suffices h : ∀ out, cs.foldl (fun out c => appendUtf8 out c.val) out =
      out ++ utf8 (cs.map Scalar.char) from by simpa [encode] using h []
  induction cs with
  | nil => simp
  | cons c cs ih =>
    intro out
    have hlt := c.2.1
    have hs := c.2.2
    rw [List.foldl_cons, ih, appendUtf8_eq out (by omega) (by omega), List.map_cons, utf8_cons,
      List.append_assoc]
    rfl

theorem encode_inj {cs ds : List Scalar} (h : encode cs = encode ds) : cs = ds := by
  rw [encode_eq, encode_eq] at h
  exact List.map_injective_iff.mpr (fun _ _ => Scalar.char_inj) (utf8_inj h)

theorem utf8_encode (cs : List Char) : utf8 cs = encode (cs.map Scalar.ofChar) := by
  have hmap : cs.map (Scalar.char ∘ Scalar.ofChar) = cs.map id :=
    List.map_congr_left fun c _ => Scalar.ofChar_char c
  rw [encode_eq, List.map_map, hmap, List.map_id]

/-- A byte string is valid exactly when `appendUtf8` writes it for some scalar
values, and then for one list of them only. -/
theorem validUtf8_encodes (s : Bytes) :
    (validUtf8 s = .ok true ↔ ∃ cs, s = encode cs) ∧
      (∀ cs ds, s = encode cs → s = encode ds → cs = ds) ∧
      (validUtf8 s = .ok true ∨ validUtf8 s = .ok false) := by
  refine ⟨⟨?_, ?_⟩, fun cs ds hc hd => encode_inj (hc ▸ hd), ?_⟩
  · intro h
    rcases validUtf8_spec s with ⟨-, cs, hs⟩ | ⟨hv, -⟩
    · exact ⟨cs.map Scalar.ofChar, hs.trans (utf8_encode cs)⟩
    · rw [hv] at h
      cases h
  · intro ⟨cs, hs⟩
    rcases validUtf8_spec s with ⟨hv, -⟩ | ⟨-, hno⟩
    · exact hv
    · exact absurd ⟨_, hs.trans (encode_eq cs)⟩ hno
  · exact (validUtf8_spec s).imp And.left And.left

/-! ## Quotation -/

def hexChar (n : Nat) : Char := "0123456789abcdef".toList.getD n '0'

/-- How a character is written, and what the grammar reads there. -/
def quoted (c : Char) : List Char × Atom :=
  if c = '"' ∨ c = '\\' then (['\\', c], .short c)
  else if c.toNat < 32 then
    (['\\', 'u', '0', '0', hexChar (c.toNat / 16), hexChar (c.toNat % 16)], .code c.toNat)
  else ([c], .plain c)

theorem hexVal_hexChar : ∀ n < 16, hexVal (hexChar n) = some n := by decide

theorem hexFour_code {n : Nat} (h : n < 256) :
    hexFour '0' '0' (hexChar (n / 16)) (hexChar (n % 16)) = some n := by
  have hzero : hexVal '0' = some 0 := by decide
  simp only [hexFour, hzero, hexVal_hexChar (n / 16) (by omega), hexVal_hexChar (n % 16) (by omega),
    Option.bind_eq_bind, Option.bind_some, Option.pure_def, Option.some_inj]
  omega

theorem quoted_text (c : Char) : AtomText (quoted c).1 (quoted c).2 := by
  unfold quoted
  split
  · rename_i h
    refine .short ?_
    rcases h with rfl | rfl <;> decide
  · rename_i h
    obtain ⟨hq, hs⟩ := not_or.mp h
    split
    · exact .code (hexFour_code (by omega))
    · exact .plain (by omega) hq hs

theorem quoted_char (c : Char) : ¬(quoted c).2.IsSurrogate ∧ (quoted c).2.char = c := by
  unfold quoted
  split
  · exact ⟨fun h => h, rfl⟩
  split
  · refine ⟨?_, Char.ofNat_toNat c⟩
    rintro (⟨h, -⟩ | ⟨h, -⟩) <;> omega
  · exact ⟨fun h => h, rfl⟩

theorem quoteByte_ascii : ∀ n < 128,
    quoteByte (UInt8.ofNat n) = utf8 (quoted (Char.ofNat n)).1 := by
  decide +kernel

theorem quoteByte_char (c : Char) :
    (String.utf8EncodeChar c).flatMap quoteByte = utf8 (quoted c).1 := by
  rcases Nat.lt_or_ge c.toNat 0x80 with hc | hc
  · rw [encode_one hc, List.flatMap_singleton, quoteByte_ascii c.toNat hc, Char.ofNat_toNat]
  · -- its bytes are copied, and the character is plain
    have hcopy : ∀ b ∈ String.utf8EncodeChar c, quoteByte b = [b] := by
      intro b hb
      have hhigh := encode_high hc hb
      have hne : ¬(b = '"'.toUInt8 ∨ b = '\\'.toUInt8) := by
        rintro (rfl | rfl) <;> revert hhigh <;> decide
      rw [quoteByte, if_neg hne, if_neg (by omega)]
    have hne : ¬(c = '"' ∨ c = '\\') := by
      rintro (rfl | rfl) <;> revert hc <;> decide
    rw [quoted, if_neg hne, if_neg (by omega), List.flatMap_congr hcopy]
    simp

/-- A text between quotes. -/
def quotation (cs : List Char) : List Char := '"' :: (cs.flatMap (fun c => (quoted c).1) ++ ['"'])

def atoms (cs : List Char) : List Atom := cs.map fun c => (quoted c).2

theorem quoted_writes : Writes quoted := fun c => ⟨quoted_text c, quoted_char c⟩

theorem quotation_text (cs : List Char) : StringText (quotation cs) (atoms cs) := quoted_writes.text cs

theorem atoms_paired (cs : List Char) : Paired (atoms cs) := quoted_writes.paired cs

theorem unescape_atoms (cs : List Char) : unescape (atoms cs) = cs := quoted_writes.unescape cs

theorem quoteByte_utf8 (cs : List Char) :
    (utf8 cs).flatMap quoteByte = utf8 (cs.flatMap fun c => (quoted c).1) := by
  induction cs with
  | nil => rfl
  | cons c cs ih => rw [utf8_cons, List.flatMap_append, quoteByte_char, ih, List.flatMap_cons, utf8_append]

/-- `quote` writes the quotation of a valid text, and throws for any other. -/
theorem quote_spec (s : Bytes) : (∃ cs, s = utf8 cs ∧ quote s = .ok (utf8 (quotation cs))) ∨
    ((¬∃ cs, s = utf8 cs) ∧ quote s = .error "invalid UTF-8") := by
  rcases validUtf8_spec s with ⟨hv, cs, rfl⟩ | ⟨hv, hno⟩
  · refine Or.inl ⟨cs, rfl, ?_⟩
    rw [quote, hv, quotation, utf8_ascii (by decide), utf8_append, quoteByte_utf8]
    rfl
  · exact Or.inr ⟨hno, by rw [quote, hv]⟩

theorem quotation_within {cs : List Char} {left nodes : Nat} (h : nodes < 16384) :
    Within (.string (atoms cs)) left nodes where
  depth := Nat.zero_le _
  values := h
  distinct := trivial
  paired := atoms_paired cs

/-- The reader returns a quoted text, if it takes that many bytes at all. -/
theorem parse_quotation {cs : List Char} (h : (utf8 (quotation cs)).length ≤ 1024 * 1024) :
    parse (utf8 (quotation cs)) = .ok (.string (utf8 cs)) := by
  have htext : JsonText (quotation cs) (.string (atoms cs)) :=
    ⟨[], quotation cs, [], by simp [Ws], .string (quotation_text cs), by simp [Ws], by simp⟩
  rw [read_reads rfl htext (quotation_within (by omega)) h, denote, unescape_atoms]

end KmVirtualCamera.L1.Json
