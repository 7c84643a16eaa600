import Mathlib
import KmVirtualCamera.L1Encoding.JsonLexical

/-!
# Numbers of the JSON reader

`number` reads the longest number text at its position. A text the grammar
derives is read whole when nothing that could continue a number follows
(`number_reads`); what it returns is a number text (`number_outcome`).
-/
namespace KmVirtualCamera.L1.Json
open KmVirtualCamera.L1.H264 KmVirtualCamera.Utf8 KmVirtualCamera.Rfc8259

def isDig (c : Char) : Bool := 48 ≤ c.toNat && c.toNat ≤ 57

theorem isDig_iff (c : Char) : isDig c = true ↔ IsDigit c := by
  simp [isDig, IsDigit]

theorem digit_class : AsciiClass isDigit isDig where
  ascii c hc := by
    have hb : (UInt8.ofNat c.toNat).toNat = c.toNat := by rw [UInt8.toNat_ofNat']; omega
    simp only [isDigit, isDig, hb]
  byte b hb := by
    simp only [isDigit, Bool.and_eq_false_iff, decide_eq_false_iff_not]
    omega
  char c hc := by
    simp only [isDig, Bool.and_eq_false_iff, decide_eq_false_iff_not]
    omega

def NoDigit (cs : List Char) : Prop := ∀ c ∈ cs.head?, ¬IsDigit c

theorem isDigit_ascii {c : Char} (h : IsDigit c) : c.toNat < 0x80 := by
  unfold IsDigit at h
  omega

theorem digit_yes {s : Bytes} {p : Nat} {c : Char} {cs : List Char} (h : At s p (c :: cs))
    (hc : IsDigit c) : digit s p = true := by
  rw [digit, h.get (isDigit_ascii hc)]
  exact (digit_class.ascii c (isDigit_ascii hc)).trans ((isDig_iff c).mpr hc)

theorem digit_no {s : Bytes} {p : Nat} {cs : List Char} (h : At s p cs) (hn : NoDigit cs) :
    digit s p = false := by
  cases cs with
  | nil =>
    rw [digit, Here.get h]
    rfl
  | cons c cs =>
    have hc : isDig c = false := by
      rw [Bool.eq_false_iff, Ne, isDig_iff]
      exact hn c rfl
    rcases Nat.lt_or_ge c.toNat 0x80 with ha | ha
    · rw [digit, h.get ha]
      exact (digit_class.ascii c ha).trans hc
    · rw [digit, Here.get h, utf8_cons]
      cases he : String.utf8EncodeChar c with
      | nil => exact absurd he String.utf8EncodeChar_ne_nil
      | cons b bs => exact digit_class.byte b (encode_high ha (by rw [he]; simp))

theorem digits_reads {s : Bytes} {p : Nat} {ds cs : List Char} (hd : Digits ds) (hn : NoDigit cs)
    (h : At s p (ds ++ cs)) : ∃ q, digits s p = .ok q ∧ At s q cs := by
  obtain ⟨hne, hall⟩ := hd
  have hscan := scan_at digit_class h
  rw [List.dropWhile_append_of_pos (fun c hc => (isDig_iff c).mpr (hall c hc))] at hscan
  have hrest : cs.dropWhile isDig = cs := by
    cases cs with
    | nil => rfl
    | cons c cs =>
      rw [List.dropWhile_cons_of_neg]
      rw [isDig_iff]
      exact hn c rfl
  rw [hrest] at hscan
  refine ⟨_, ?_, hscan⟩
  cases ds with
  | nil => exact absurd rfl hne
  | cons d ds => rw [digits, digit_yes h (hall d (by simp)), if_neg (by decide)]

theorem digits_outcome {s : Bytes} {p : Nat} {cs : List Char} (h : At s p cs) :
    Outcome Fault.thrown (fun q => ∃ ds cs', cs = ds ++ cs' ∧ Digits ds ∧ At s q cs')
      (digits s p) := by
  rw [digits]
  split
  · exact .raised
  · rename_i hdig
    refine .ok ⟨cs.takeWhile isDig, cs.dropWhile isDig, (List.takeWhile_append_dropWhile).symm,
      ⟨?_, fun c hc => (isDig_iff c).mp (List.mem_takeWhile_imp hc)⟩, scan_at digit_class h⟩
    intro hnil
    refine hdig (digit_no h ?_)
    cases cs with
    | nil => simp [NoDigit]
    | cons c cs =>
      intro c' hc' hd
      obtain rfl : c = c' := by simpa using hc'
      rw [List.takeWhile_cons_of_pos ((isDig_iff c).mpr hd)] at hnil
      simp at hnil

theorem int_reads {s : Bytes} {p : Nat} {t cs : List Char} (ht : IntText t) (hn : NoDigit cs)
    (h : At s p (t ++ cs)) : ∃ q, int s p = .ok q ∧ At s q cs := by
  rcases ht with rfl | ⟨c, ds, rfl, hne, hall⟩
  · have h' := At.next h (by decide)
    refine ⟨p + 1, ?_, h'⟩
    rw [int, take_hit h (by decide)]
    simp only
    rw [digit_no h' hn, if_neg (by decide)]
  · rw [int, take_miss h (by decide) (by simpa using hne)]
    exact digits_reads ⟨by simp, hall⟩ hn h

theorem int_outcome {s : Bytes} {p : Nat} {cs : List Char} (h : At s p cs) :
    Outcome Fault.thrown (fun q => ∃ t cs', cs = t ++ cs' ∧ IntText t ∧ At s q cs') (int s p) := by
  rcases take_cases (c := '0') h (by decide) with ⟨cs, rfl, ht, h'⟩ | ⟨hne, ht⟩
  · rw [int, ht]
    simp only
    split
    · exact .raised
    · exact .ok ⟨['0'], cs, rfl, Or.inl rfl, h'⟩
  · rw [int, ht]
    refine (digits_outcome h).mono ?_
    rintro q ⟨ds, cs', rfl, ⟨hd, hall⟩, hq⟩
    refine ⟨ds, cs', rfl, Or.inr ?_, hq⟩
    cases ds with
    | nil => exact absurd rfl hd
    | cons c ds => exact ⟨c, ds, rfl, by simpa using hne, hall⟩

theorem frac_reads {s : Bytes} {p : Nat} {t cs : List Char} (ht : FracText t) (hn : NoDigit cs)
    (hdot : cs.head? ≠ some '.') (h : At s p (t ++ cs)) : ∃ q, frac s p = .ok q ∧ At s q cs := by
  rcases ht with rfl | ⟨ds, hd, rfl⟩
  · exact ⟨p, by rw [frac, take_miss h (by decide) hdot], h⟩
  · rw [frac, take_hit h (by decide)]
    exact digits_reads hd hn (At.next h (by decide))

theorem frac_outcome {s : Bytes} {p : Nat} {cs : List Char} (h : At s p cs) :
    Outcome Fault.thrown (fun q => ∃ t cs', cs = t ++ cs' ∧ FracText t ∧ At s q cs') (frac s p) := by
  rcases take_cases (c := '.') h (by decide) with ⟨cs, rfl, ht, h'⟩ | ⟨-, ht⟩
  · rw [frac, ht]
    refine (digits_outcome h').mono ?_
    rintro q ⟨ds, cs', rfl, hd, hq⟩
    exact ⟨'.' :: ds, cs', rfl, Or.inr ⟨ds, hd, rfl⟩, hq⟩
  · rw [frac, ht]
    exact .ok ⟨[], cs, rfl, Or.inl rfl, h⟩

theorem sign_at {s : Bytes} {p : Nat} {cs : List Char} (h : At s p cs) :
    ∃ t cs', cs = t ++ cs' ∧ SignText t ∧ At s (sign s p) cs' ∧
      (t = [] → cs.head? ≠ some '+' ∧ cs.head? ≠ some '-') := by
  rcases take_cases (c := '+') h (by decide) with ⟨cs, rfl, ht, h'⟩ | ⟨hne, ht⟩
  · exact ⟨['+'], cs, rfl, Or.inr (Or.inl rfl), by rw [sign, ht]; exact h', by simp⟩
  rcases take_cases (c := '-') h (by decide) with ⟨cs, rfl, ht', h'⟩ | ⟨hne', ht'⟩
  · exact ⟨['-'], cs, rfl, Or.inr (Or.inr rfl), by rw [sign, ht, ht']; exact h', by simp⟩
  · exact ⟨[], cs, rfl, Or.inl rfl, by rw [sign, ht, ht']; exact h, fun _ => ⟨hne, hne'⟩⟩

theorem sign_reads {s : Bytes} {p : Nat} {t ds cs : List Char} (ht : SignText t) (hd : Digits ds)
    (h : At s p (t ++ (ds ++ cs))) : At s (sign s p) (ds ++ cs) := by
  obtain ⟨hne, hall⟩ := hd
  rcases ht with rfl | rfl | rfl
  · cases ds with
    | nil => exact absurd rfl hne
    | cons d ds =>
      have hd := hall d (by simp)
      unfold IsDigit at hd
      have hp : d ≠ '+' := by rintro rfl; revert hd; decide
      have hm : d ≠ '-' := by rintro rfl; revert hd; decide
      rw [sign, take_miss h (by decide) (by simpa using hp), take_miss h (by decide) (by simpa using hm)]
      exact h
  · rw [sign, take_hit h (by decide)]
    exact At.next h (by decide)
  · rw [sign, take_miss h (by decide) (by simp), take_hit h (by decide)]
    exact At.next h (by decide)

theorem exp_reads {s : Bytes} {p : Nat} {t cs : List Char} (ht : ExpText t) (hn : NoDigit cs)
    (he : cs.head? ≠ some 'e') (hE : cs.head? ≠ some 'E') (h : At s p (t ++ cs)) :
    ∃ q, exp s p = .ok q ∧ At s q cs := by
  rcases ht with rfl | ⟨e, sg, ds, rfl | rfl, hs, hd, rfl⟩
  · exact ⟨p, by rw [exp, take_miss h (by decide) he, take_miss h (by decide) hE]; rfl, h⟩
  · rw [List.cons_append, List.append_assoc] at h
    rw [exp, take_hit h (by decide)]
    have h' := At.next h (by decide)
    exact digits_reads hd hn (sign_reads hs hd h')
  · rw [List.cons_append, List.append_assoc] at h
    rw [exp, take_miss h (by decide) (by simp), take_hit h (by decide)]
    have h' := At.next h (by decide)
    exact digits_reads hd hn (sign_reads hs hd h')

theorem exp_outcome {s : Bytes} {p : Nat} {cs : List Char} (h : At s p cs) :
    Outcome Fault.thrown (fun q => ∃ t cs', cs = t ++ cs' ∧ ExpText t ∧ At s q cs') (exp s p) := by
  -- behind the letter: a sign and digits
  have behind : ∀ {e : Char} {cs₁ : List Char}, (e = 'e' ∨ e = 'E') → cs = e :: cs₁ →
      At s (p + 1) cs₁ → Outcome Fault.thrown
        (fun q => ∃ t cs', cs = t ++ cs' ∧ ExpText t ∧ At s q cs') (digits s (sign s (p + 1))) := by
    intro e cs₁ he heq h'
    obtain ⟨sg, cs₂, rfl, hs, h2, -⟩ := sign_at h'
    refine (digits_outcome h2).mono ?_
    rintro q ⟨ds, cs', rfl, hd, hq⟩
    exact ⟨e :: (sg ++ ds), cs', by simp [heq], Or.inr ⟨e, sg, ds, he, hs, hd, rfl⟩, hq⟩
  rcases take_cases (c := 'e') h (by decide) with ⟨cs₁, heq, ht, h'⟩ | ⟨-, ht⟩
  · rw [exp, ht]
    exact behind (Or.inl rfl) heq h'
  rcases take_cases (c := 'E') h (by decide) with ⟨cs₁, heq, ht', h'⟩ | ⟨-, ht'⟩
  · rw [exp, ht, ht']
    exact behind (Or.inr rfl) heq h'
  · rw [exp, ht, ht']
    exact .ok ⟨[], cs, rfl, Or.inl rfl, h⟩

/-- Nothing that could continue a number. -/
def NoNumber (cs : List Char) : Prop :=
  ∀ c ∈ cs.head?, ¬IsDigit c ∧ c ≠ '.' ∧ c ≠ 'e' ∧ c ≠ 'E'

theorem NoNumber.digit {cs : List Char} (h : NoNumber cs) : NoDigit cs := fun c hc => (h c hc).1

theorem number_reads {s : Bytes} {p : Nat} {t cs : List Char} (ht : NumberText t) (hn : NoNumber cs)
    (h : At s p (t ++ cs)) : ∃ q, number s p = .ok q ∧ At s q cs := by
  obtain ⟨minus, i, f, e, hm, hi, hf, he, rfl⟩ := ht
  simp only [List.append_assoc] at h
  have hexp : ∀ c ∈ (e ++ cs).head?, ¬IsDigit c ∧ c ≠ '.' := by
    rcases he with rfl | ⟨x, sg, ds, rfl | rfl, -, -, rfl⟩
    · exact fun c hc => ⟨(hn c hc).1, (hn c hc).2.1⟩
    · simp [IsDigit]
    · simp [IsDigit]
  have hfrac : NoDigit (f ++ (e ++ cs)) := by
    rcases hf with rfl | ⟨ds, -, rfl⟩
    · exact fun c hc => (hexp c hc).1
    · simp [NoDigit, IsDigit]
  have hstart : At s ((take s p '-').getD p) (i ++ (f ++ (e ++ cs))) := by
    rcases hm with rfl | rfl
    · have hne : (i ++ (f ++ (e ++ cs))).head? ≠ some '-' := by
        rcases hi with rfl | ⟨c, ds, rfl, -, hall⟩
        · simp
        · have hc := hall c (by simp)
          have : c ≠ '-' := by
            rintro rfl
            unfold IsDigit at hc
            revert hc
            decide
          simpa using this
      rw [take_miss h (by decide) hne]
      exact h
    · rw [take_hit h (by decide)]
      exact At.next h (by decide)
  obtain ⟨q₁, h₁, a₁⟩ := int_reads hi hfrac hstart
  obtain ⟨q₂, h₂, a₂⟩ := frac_reads hf (fun c hc => (hexp c hc).1)
    (fun hc => (hexp '.' hc).2 rfl) a₁
  obtain ⟨q₃, h₃, a₃⟩ := exp_reads he hn.digit (fun hc => (hn 'e' hc).2.2.1 rfl)
    (fun hc => (hn 'E' hc).2.2.2 rfl) a₂
  exact ⟨q₃, by rw [number, h₁, ok_bind, h₂, ok_bind, h₃], a₃⟩

theorem number_outcome {s : Bytes} {p : Nat} {cs : List Char} (h : At s p cs) :
    Outcome Fault.thrown (fun q => ∃ t cs', cs = t ++ cs' ∧ NumberText t ∧ At s q cs')
      (number s p) := by
  obtain ⟨minus, cs₁, rfl, hm, h₁⟩ : ∃ m cs', cs = m ++ cs' ∧ (m = [] ∨ m = ['-']) ∧
      At s ((take s p '-').getD p) cs' := by
    rcases take_cases (c := '-') h (by decide) with ⟨cs', rfl, ht, h'⟩ | ⟨-, ht⟩
    · exact ⟨['-'], cs', rfl, Or.inr rfl, by rw [ht]; exact h'⟩
    · exact ⟨[], cs, rfl, Or.inl rfl, by rw [ht]; exact h⟩
  refine (int_outcome h₁).bind ?_
  rintro q₁ ⟨i, cs₂, rfl, hi, h₂⟩
  refine (frac_outcome h₂).bind ?_
  rintro q₂ ⟨f, cs₃, rfl, hf, h₃⟩
  refine (exp_outcome h₃).mono ?_
  rintro q₃ ⟨e, cs₄, rfl, he, h₄⟩
  exact ⟨_, cs₄, by simp, ⟨minus, i, f, e, hm, hi, hf, he, rfl⟩, h₄⟩

end KmVirtualCamera.L1.Json
