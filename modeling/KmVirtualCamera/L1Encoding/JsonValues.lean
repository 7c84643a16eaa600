import Mathlib
import KmVirtualCamera.L1Encoding.JsonStrings
import KmVirtualCamera.L1Encoding.JsonNumbers

/-!
# The JSON reader accepts exactly its grammar

`denote` is the value a tree stands for: strings unescaped, in UTF-8, numbers
as written. On a text of a tree within the limits the reader returns that
value (`value_reads`, by induction on the text); whatever it returns it read
off such a text, and anything else is `fail()` (`value_outcome`, by induction
on the nesting left). Together: `parse_accepts_grammar`.
-/
namespace KmVirtualCamera.L1.Json
open KmVirtualCamera.L1.H264 KmVirtualCamera.Utf8 KmVirtualCamera.Rfc8259

mutual

def denote : Tree → Value
  | .null => .null
  | .bool true => .bool (utf8 "true".toList)
  | .bool false => .bool (utf8 "false".toList)
  | .number t => .number (utf8 t)
  | .string as => .string (utf8 (unescape as))
  | .array es => .array (denoteElems es)
  | .object ms => .object (denoteMembers ms)

def denoteElems : List Tree → List Value
  | [] => []
  | e :: es => denote e :: denoteElems es

def denoteMembers : List (List Atom × Tree) → List (Bytes × Value)
  | [] => []
  | (key, e) :: ms => (utf8 (unescape key), denote e) :: denoteMembers ms

end

theorem denoteMembers_keys (ms : List (List Atom × Tree)) :
    (denoteMembers ms).map Prod.fst = (ms.map fun m => unescape m.1).map utf8 := by
  induction ms with
  | nil => rfl
  | cons m ms ih =>
    obtain ⟨key, e⟩ := m
    simp [denoteMembers, ih]

theorem keys_nodup (ms : List (List Atom × Tree)) :
    ((denoteMembers ms).map Prod.fst).Nodup ↔ (ms.map fun m => unescape m.1).Nodup := by
  rw [denoteMembers_keys]
  exact List.nodup_map_iff (fun _ _ h => utf8_inj h)

/-! ## First characters -/

theorem number_head {t : List Char} (h : NumberText t) : ∃ c u, t = c :: u ∧ (c = '-' ∨ IsDigit c) := by
  obtain ⟨minus, i, f, e, hm, hi, -, -, rfl⟩ := h
  rcases hm with rfl | rfl
  · rcases hi with rfl | ⟨c, ds, rfl, -, hall⟩
    · exact ⟨'0', _, rfl, Or.inr (by decide)⟩
    · exact ⟨c, _, rfl, Or.inr (hall c (by simp))⟩
  · exact ⟨'-', _, rfl, Or.inl rfl⟩

/-- A value starts with a character of its own. -/
theorem value_head {t : List Char} {e : Tree} (h : ValueText t e) :
    ∃ c u, t = c :: u ∧ ¬IsWs c ∧ c ≠ ']' := by
  cases h with
  | null => exact ⟨_, _, rfl, by decide, by decide⟩
  | true => exact ⟨_, _, rfl, by decide, by decide⟩
  | false => exact ⟨_, _, rfl, by decide, by decide⟩
  | number hn =>
    obtain ⟨c, u, rfl, hc⟩ := number_head hn
    refine ⟨c, u, rfl, ?_, ?_⟩
    · rintro (rfl | rfl | rfl | rfl) <;> revert hc <;> decide
    · rintro rfl
      revert hc
      decide
  | string hs =>
    obtain ⟨body, -, rfl⟩ := hs
    exact ⟨_, _, rfl, by decide, by decide⟩
  | emptyArray hw => exact ⟨_, _, rfl, by decide, by decide⟩
  | array he => exact ⟨_, _, rfl, by decide, by decide⟩
  | emptyObject hw => exact ⟨_, _, rfl, by decide, by decide⟩
  | object hm => exact ⟨_, _, rfl, by decide, by decide⟩

theorem value_noWs {t cs : List Char} {e : Tree} (h : ValueText t e) : NoWs (t ++ cs) := by
  obtain ⟨c, u, rfl, hc, -⟩ := value_head h
  intro c' hc'
  obtain rfl : c = c' := by simpa using hc'
  exact hc

/-- White space and then a bracket or comma: no number goes on there. -/
theorem noNumber_ws {w cs : List Char} (hw : Ws w) (hn : NoNumber cs) : NoNumber (w ++ cs) := by
  cases w with
  | nil => exact hn
  | cons x w =>
    intro c hc
    obtain rfl : x = c := by simpa using hc
    rcases hw x (by simp) with rfl | rfl | rfl | rfl <;> decide

theorem noNumber_of {c : Char} {cs : List Char} (h : c = ',' ∨ c = ']' ∨ c = '}') :
    NoNumber (c :: cs) := by
  intro c' hc'
  obtain rfl : c = c' := by simpa using hc'
  rcases h with rfl | rfl | rfl <;> decide

theorem noWs_of {c : Char} {cs : List Char} (h : c = ',' ∨ c = ']' ∨ c = '}' ∨ c = ':') :
    NoWs (c :: cs) := by
  intro c' hc'
  obtain rfl : c = c' := by simpa using hc'
  rcases h with rfl | rfl | rfl | rfl <;> decide

theorem string_noWs {t cs : List Char} {as : List Atom} (h : StringText t as) : NoWs (t ++ cs) := by
  obtain ⟨body, -, rfl⟩ := h
  intro c hc
  obtain rfl : '"' = c := by simpa using hc
  decide

/-- The bytes between two positions. -/
theorem slice_eq {s : Bytes} {p q : Nat} {t cs : List Char} (h : At s p (t ++ cs)) (hq : At s q cs) :
    (s.drop p).take (q - p) = utf8 t := by
  have h1 := Here.length h
  have h2 := Here.length hq
  rw [utf8_append, List.length_append] at h1
  rw [Here.drop h, utf8_append, show q - p = (utf8 t).length by omega, List.take_left]

/-! ## What the grammar derives is read -/

/-- The limits, for a tree with `left` levels below it and `nodes` values before it. -/
structure Within (e : Tree) (left nodes : Nat) : Prop where
  depth : e.depth ≤ left
  values : nodes + e.values ≤ 16384
  distinct : e.KeysDistinct
  paired : e.Paired

def Reads (s : Bytes) (t : List Char) (e : Tree) : Prop :=
  ∀ (left : Nat) (w cs : List Char) (c : Cursor), Within e left c.nodes → Ws w → NoNumber cs →
    At s c.position (w ++ (t ++ cs)) →
    ∃ q, value s (left + 1) c = .ok (denote e, ⟨q, c.nodes + e.values⟩) ∧ At s q cs

theorem elements_reads {s : Bytes} {left : Nat} {cs : List Char} (es : List Tree) :
    ∀ {ts : List Char} {fuel : Nat} {c : Cursor} (acc : List Value),
    (∀ t e, t.length ≤ ts.length → ValueText t e → Reads s t e) → ElemsText ts es →
    ts.length < fuel → depthElems es ≤ left + 1 → c.nodes + valuesElems es ≤ 16384 →
    distinctElems es → pairedElems es → At s c.position (ts ++ ']' :: cs) →
    ∃ q, elements s (value s (left + 1)) fuel acc c =
      .ok (.array (acc ++ denoteElems es), ⟨q, c.nodes + valuesElems es⟩) ∧ At s q cs := by
  induction es with
  | nil =>
    intro ts fuel c acc _ ht
    cases ht
  | cons e es ih =>
    intro ts fuel c acc hchild ht hf hdepth hvalues hdistinct hpaired h
    obtain ⟨fuel, rfl⟩ : ∃ m, fuel = m + 1 := ⟨fuel - 1, by omega⟩
    simp only [depthElems, valuesElems, distinctElems, pairedElems, Nat.max_le] at hdepth hvalues hdistinct hpaired
    cases ht with
    | one hw hv hw' =>
      rename_i w t w'
      have h' : At s c.position (w ++ (t ++ (w' ++ ']' :: cs))) := by simpa using h
      obtain ⟨q, hq, hat⟩ := hchild t e (by simp; omega) hv left w _ c
        ⟨by omega, by simpa [valuesElems] using hvalues, hdistinct.1, hpaired.1⟩ hw
        (noNumber_ws hw' (noNumber_of (by simp))) h'
      have hsp := spaces_reads hat hw' (noWs_of (by simp))
      refine ⟨spaces s q + 1, ?_, At.next hsp (by decide)⟩
      simp only [elements, hq, ok_bind, take_hit hsp (by decide), denoteElems, valuesElems, Cursor.at,
        Nat.add_zero]
    | cons hw hv hw' hts =>
      rename_i w t w' ts
      have h' : At s c.position (w ++ (t ++ (w' ++ ',' :: (ts ++ ']' :: cs)))) := by simpa using h
      obtain ⟨q, hq, hat⟩ := hchild t e (by simp; omega) hv left w _ c
        ⟨by omega, by omega, hdistinct.1, hpaired.1⟩ hw
        (noNumber_ws hw' (noNumber_of (by simp))) h'
      have hsp := spaces_reads hat hw' (noWs_of (by simp))
      have hcomma := At.next hsp (by decide)
      simp only [List.length_append, List.length_cons] at hf
      have hfuel : ts.length < fuel := by omega
      obtain ⟨q', hq', hat'⟩ := ih (c := ⟨spaces s q + 1, c.nodes + e.values⟩)
        (acc ++ [denote e]) (fun t' e' ht' => hchild t' e' (by simp; omega)) hts hfuel hdepth.2
        (by simp only; omega) hdistinct.2 hpaired.2 hcomma
      refine ⟨q', ?_, hat'⟩
      simp only [elements, hq, ok_bind, take_miss hsp (by decide : (']' : Char).toNat < 0x80) (by simp),
        take_hit hsp (by decide), Cursor.at, hq', denoteElems, valuesElems, List.append_assoc,
        List.singleton_append, Nat.add_assoc]

theorem members_reads {s : Bytes} {left : Nat} {cs : List Char} (ms : List (List Atom × Tree)) :
    ∀ {ts : List Char} {fuel : Nat} {c : Cursor} (acc : List (Bytes × Value)),
    (∀ t e, t.length ≤ ts.length → ValueText t e → Reads s t e) → MembersText ts ms →
    ts.length < fuel → depthMembers ms ≤ left + 1 → c.nodes + valuesMembers ms ≤ 16384 →
    ((acc ++ denoteMembers ms).map Prod.fst).Nodup → distinctMembers ms → pairedMembers ms →
    At s c.position (ts ++ '}' :: cs) →
    ∃ q, members s (value s (left + 1)) fuel acc c =
      .ok (.object (acc ++ denoteMembers ms), ⟨q, c.nodes + valuesMembers ms⟩) ∧ At s q cs := by
  induction ms with
  | nil =>
    intro ts fuel c acc _ ht
    cases ht
  | cons m ms ih =>
    obtain ⟨key, e⟩ := m
    intro ts fuel c acc hchild ht hf hdepth hvalues hnodup hdistinct hpaired h
    obtain ⟨fuel, rfl⟩ : ∃ m, fuel = m + 1 := ⟨fuel - 1, by omega⟩
    simp only [depthMembers, valuesMembers, distinctMembers, pairedMembers, Nat.max_le]
      at hdepth hvalues hdistinct hpaired
    have hkey : utf8 (unescape key) ∉ acc.map Prod.fst := by
      intro hmem
      rw [List.map_append] at hnodup
      exact List.disjoint_of_nodup_append hnodup hmem (by simp [denoteMembers])
    cases ht with
    | one hw hk hv hu ht hw' =>
      rename_i w k v t w' u
      have h' : At s c.position (w ++ (k ++ (v ++ ':' :: (u ++ (t ++ (w' ++ '}' :: cs)))))) := by
        simpa using h
      have h1 := spaces_reads h' hw (string_noWs hk)
      have h2 := spaces_reads h1.skip hv (noWs_of (by simp))
      obtain ⟨q, hq, hat⟩ := hchild t e (by simp; omega) ht left u _
        ⟨spaces s (spaces s c.position + (utf8 k).length) + 1, c.nodes⟩
        ⟨by omega, by simpa [valuesMembers] using hvalues, hdistinct.1, hpaired.2.1⟩ hu
        (noNumber_ws hw' (noNumber_of (by simp))) (At.next h2 (by decide))
      have hsp := spaces_reads hat hw' (noWs_of (by simp))
      refine ⟨spaces s q + 1, ?_, At.next hsp (by decide)⟩
      simp only [members, string_reads hk hpaired.1 h1, ok_bind, take_hit h2 (by decide), Cursor.at, hq,
        if_neg hkey, take_hit hsp (by decide), denoteMembers, valuesMembers, Nat.add_zero]
    | cons hw hk hv hu ht hw' hts =>
      rename_i w k v t w' u ts
      have h' : At s c.position
          (w ++ (k ++ (v ++ ':' :: (u ++ (t ++ (w' ++ ',' :: (ts ++ '}' :: cs))))))) := by
        simpa using h
      have h1 := spaces_reads h' hw (string_noWs hk)
      have h2 := spaces_reads h1.skip hv (noWs_of (by simp))
      obtain ⟨q, hq, hat⟩ := hchild t e (by simp; omega) ht left u _
        ⟨spaces s (spaces s c.position + (utf8 k).length) + 1, c.nodes⟩
        ⟨by omega, by simp only; omega, hdistinct.1, hpaired.2.1⟩ hu
        (noNumber_ws hw' (noNumber_of (by simp))) (At.next h2 (by decide))
      have hsp := spaces_reads hat hw' (noWs_of (by simp))
      have hcomma := At.next hsp (by decide)
      simp only [List.length_append, List.length_cons] at hf
      have hfuel : ts.length < fuel := by omega
      obtain ⟨q', hq', hat'⟩ := ih (c := ⟨spaces s q + 1, c.nodes + e.values⟩)
        (acc ++ [(utf8 (unescape key), denote e)]) (fun t' e' ht' => hchild t' e' (by simp; omega))
        hts hfuel hdepth.2 (by simp only; omega) (by simpa [denoteMembers] using hnodup)
        hdistinct.2 hpaired.2.2 hcomma
      refine ⟨q', ?_, hat'⟩
      simp only [members, string_reads hk hpaired.1 h1, ok_bind, take_hit h2 (by decide), Cursor.at, hq,
        if_neg hkey, take_miss hsp (by decide : ('}' : Char).toNat < 0x80) (by simp),
        take_hit hsp (by decide : (',' : Char).toNat < 0x80), hq', denoteMembers, valuesMembers,
        List.append_assoc, List.singleton_append, Nat.add_assoc]

/-! ## One value -/

theorem byte_ne {a b : Char} (ha : a.toNat < 0x80) (hb : b.toNat < 0x80) (h : a ≠ b) :
    UInt8.ofNat a.toNat ≠ b.toUInt8 := by
  rw [toUInt8_eq, Ne, ofNat_inj (by omega) (by omega), Char.toNat_inj]
  exact h

theorem value_start {s : Bytes} {left : Nat} {c : Cursor} {w t cs : List Char} {e : Tree}
    (ht : ValueText t e) (hw : Ws w) (hn : c.nodes + 1 ≤ 16384) (h : At s c.position (w ++ (t ++ cs))) :
    value s (left + 1) c = dispatch s (value s left) ⟨spaces s c.position, c.nodes + 1⟩ ∧
      At s (spaces s c.position) (t ++ cs) := by
  have hsp := spaces_reads h hw (value_noWs ht)
  have hend : spaces s c.position ≠ s.length := by
    rw [Ne, hsp.end_iff]
    obtain ⟨x, u, rfl, -, -⟩ := value_head ht
    simp
  refine ⟨?_, hsp⟩
  simp only [value, Cursor.at, if_neg (by omega : ¬c.nodes + 1 > 16384), if_neg hend]

/-- Any first character but a quote or an opening bracket. -/
theorem dispatch_scalar {s : Bytes} {child : Cursor → Except Fault (Value × Cursor)} {c : Cursor}
    {x : Char} {u : List Char} (h : At s c.position (x :: u)) (hx : x.toNat < 0x80) (hq : x ≠ '"')
    (ho : x ≠ '{') (ha : x ≠ '[') : dispatch s child c = (do
      let (v, p) ← scalar s c.position (UInt8.ofNat x.toNat)
      .ok (v, c.at p)) := by
  simp only [dispatch, h.peek_eq hx, ok_bind, if_neg (byte_ne hx (by decide) hq),
    take_miss h (by decide : ('{' : Char).toNat < 0x80) (by simpa using ho),
    take_miss h (by decide : ('[' : Char).toNat < 0x80) (by simpa using ha)]

theorem literal_reads {s : Bytes} {p : Nat} {t cs : List Char} (h : At s p (t ++ cs)) :
    literal s p (utf8 t) = .ok (p + (utf8 t).length) := by
  have hl := Here.length h
  rw [literal, if_neg (by omega), Here.drop h, utf8_append, List.take_left, if_neg (by simp)]

theorem scalar_number {s : Bytes} {p q : Nat} {x : Char} (hx : x = '-' ∨ IsDigit x)
    (hn : number s p = .ok q) :
    scalar s p (UInt8.ofNat x.toNat) = .ok (.number ((s.drop p).take (q - p)), q) := by
  have hlt : x.toNat < 0x80 := by
    rcases hx with rfl | hx
    · decide
    · exact isDigit_ascii hx
  have ne : ∀ y : Char, (y = 'n' ∨ y = 't' ∨ y = 'f') → x ≠ y := by
    rintro y hy rfl
    rcases hy with rfl | rfl | rfl <;> rcases hx with hx | hx <;> revert hx <;> decide
  rw [scalar, if_neg (byte_ne hlt (by decide) (ne 'n' (by simp))),
    if_neg (byte_ne hlt (by decide) (ne 't' (by simp))),
    if_neg (byte_ne hlt (by decide) (ne 'f' (by simp))), hn, ok_bind]

theorem scalar_reads {s : Bytes} {p : Nat} {x : Char} {u cs : List Char} {e : Tree}
    (ht : ValueText (x :: u) e) (hq : x ≠ '"') (ho : x ≠ '{') (ha : x ≠ '[') (hn : NoNumber cs)
    (h : At s p (x :: u ++ cs)) :
    x.toNat < 0x80 ∧ e.values = 1 ∧
      ∃ q, scalar s p (UInt8.ofNat x.toNat) = .ok (denote e, q) ∧ At s q cs := by
  generalize heq : x :: u = t at ht h
  have hlit := literal_reads h
  have hskip := At.skip h
  cases ht with
  | null =>
    obtain rfl : x = 'n' := (List.cons.inj heq).1
    refine ⟨by decide, rfl, _, ?_, hskip⟩
    have hl : literal s p ("null".toList.map Char.toUInt8) = _ := hlit
    rw [scalar, if_pos (by decide), hl, ok_bind]
    rfl
  | true =>
    obtain rfl : x = 't' := (List.cons.inj heq).1
    refine ⟨by decide, rfl, _, ?_, hskip⟩
    have hl : literal s p ("true".toList.map Char.toUInt8) = _ := hlit
    rw [scalar, if_neg (by decide), if_pos (by decide), hl, ok_bind]
    rfl
  | false =>
    obtain rfl : x = 'f' := (List.cons.inj heq).1
    refine ⟨by decide, rfl, _, ?_, hskip⟩
    have hl : literal s p ("false".toList.map Char.toUInt8) = _ := hlit
    rw [scalar, if_neg (by decide), if_neg (by decide), if_pos (by decide), hl, ok_bind]
    rfl
  | number hnum =>
    obtain ⟨q, hq', hqat⟩ := number_reads hnum hn h
    obtain ⟨y, v, hy, hhead⟩ := number_head hnum
    obtain rfl : x = y := (List.cons.inj (heq.trans hy)).1
    refine ⟨?_, rfl, q, ?_, hqat⟩
    · rcases hhead with rfl | hd
      · decide
      · exact isDigit_ascii hd
    · rw [scalar_number hhead hq', slice_eq h hqat]
      rfl
  | string hs =>
    obtain ⟨body, -, rfl⟩ := hs
    exact absurd (List.cons.inj heq).1 hq
  | emptyArray hw => exact absurd (List.cons.inj heq).1 ha
  | array he => exact absurd (List.cons.inj heq).1 ha
  | emptyObject hw => exact absurd (List.cons.inj heq).1 ho
  | object hm => exact absurd (List.cons.inj heq).1 ho

theorem dispatch_array {s : Bytes} {child : Cursor → Except Fault (Value × Cursor)} {c : Cursor}
    {u : List Char} (h : At s c.position ('[' :: u)) :
    dispatch s child c = (take s (spaces s (c.position + 1)) ']').elim
      (elements s child (s.length + 1) [] (c.at (spaces s (c.position + 1))))
      (fun p => .ok (.array [], c.at p)) := by
  simp only [dispatch, h.peek_eq (by decide), ok_bind,
    if_neg (byte_ne (by decide : ('[' : Char).toNat < 0x80) (by decide) (by decide : '[' ≠ '"')),
    take_miss h (by decide : ('{' : Char).toNat < 0x80) (by simp), take_hit h (by decide)]
  cases take s (spaces s (c.position + 1)) ']' <;> rfl

theorem dispatch_object {s : Bytes} {child : Cursor → Except Fault (Value × Cursor)} {c : Cursor}
    {u : List Char} (h : At s c.position ('{' :: u)) :
    dispatch s child c = (take s (spaces s (c.position + 1)) '}').elim
      (members s child (s.length + 1) [] (c.at (spaces s (c.position + 1))))
      (fun p => .ok (.object [], c.at p)) := by
  simp only [dispatch, h.peek_eq (by decide), ok_bind,
    if_neg (byte_ne (by decide : ('{' : Char).toNat < 0x80) (by decide) (by decide : '{' ≠ '"')),
    take_hit h (by decide)]
  cases take s (spaces s (c.position + 1)) '}' <;> rfl

/-- The white space in front of the first element is skipped before the loop. -/
theorem elems_spaces {ts : List Char} {es : List Tree} (h : ElemsText ts es) :
    ∃ w ts', ts = w ++ ts' ∧ Ws w ∧ ElemsText ts' es ∧
      ∀ cs, NoWs (ts' ++ cs) ∧ (ts' ++ cs).head? ≠ some ']' := by
  have first : ∀ {t : List Char} {e : Tree}, ValueText t e → ∀ cs,
      NoWs (t ++ cs) ∧ (t ++ cs).head? ≠ some ']' := by
    intro t e ht cs
    refine ⟨value_noWs ht, ?_⟩
    obtain ⟨c, u, rfl, -, hc⟩ := value_head ht
    simpa using hc
  cases h with
  | one hw ht hw' =>
    refine ⟨_, _, rfl, hw, .one (w := []) (by simp [Ws]) ht hw', fun cs => ?_⟩
    rw [List.append_assoc]
    exact first ht _
  | cons hw ht hw' hts =>
    refine ⟨_, _, rfl, hw, .cons (w := []) (by simp [Ws]) ht hw' hts, fun cs => ?_⟩
    rw [List.append_assoc]
    exact first ht _

theorem members_spaces {ts : List Char} {ms : List (List Atom × Tree)} (h : MembersText ts ms) :
    ∃ w ts', ts = w ++ ts' ∧ Ws w ∧ MembersText ts' ms ∧
      ∀ cs, NoWs (ts' ++ cs) ∧ (ts' ++ cs).head? ≠ some '}' := by
  have first : ∀ {t : List Char} {as : List Atom}, StringText t as → ∀ cs,
      NoWs (t ++ cs) ∧ (t ++ cs).head? ≠ some '}' := by
    intro t as ht cs
    refine ⟨string_noWs ht, ?_⟩
    obtain ⟨body, -, rfl⟩ := ht
    simp
  cases h with
  | one hw hk hv hu ht hw' =>
    refine ⟨_, _, rfl, hw, .one (w := []) (by simp [Ws]) hk hv hu ht hw', fun cs => ?_⟩
    rw [List.append_assoc]
    exact first hk _
  | cons hw hk hv hu ht hw' hts =>
    refine ⟨_, _, rfl, hw, .cons (w := []) (by simp [Ws]) hk hv hu ht hw' hts, fun cs => ?_⟩
    rw [List.append_assoc]
    exact first hk _

theorem length_le_utf8 (t : List Char) : t.length ≤ (utf8 t).length := by
  induction t with
  | nil => simp
  | cons c t ih =>
    have := encode_pos c
    rw [utf8_cons, List.length_append, List.length_cons]
    omega

/-- What the grammar derives within the limits is read, and is the value it
stands for. -/
theorem value_reads {s : Bytes} (n : Nat) : ∀ {t : List Char} {e : Tree}, t.length ≤ n →
    ValueText t e → Reads s t e := by
  induction n with
  | zero =>
    intro t e hn ht
    obtain ⟨x, u, rfl, -, -⟩ := value_head ht
    simp at hn
  | succ n ih =>
    intro t e hn ht left w cs c hin hw hfollow h
    have hone : c.nodes + 1 ≤ 16384 := by
      have := hin.values
      cases e <;> simp only [Tree.values] at this <;> omega
    obtain ⟨hval, hat⟩ := value_start ht hw hone h
    have hlen := Here.length hat
    rw [utf8_append, List.length_append] at hlen
    have hlt := length_le_utf8 t
    rw [hval]
    by_cases hscalar : ∃ x u, t = x :: u ∧ x ≠ '"' ∧ x ≠ '{' ∧ x ≠ '['
    · obtain ⟨x, u, rfl, hq, ho, ha⟩ := hscalar
      obtain ⟨hx, hone, q, hs, hqat⟩ := scalar_reads ht hq ho ha hfollow hat
      refine ⟨q, ?_, hqat⟩
      rw [dispatch_scalar (u := u ++ cs) hat hx hq ho ha, hs, ok_bind, hone]
      rfl
    cases ht with
    | null => exact absurd ⟨_, _, rfl, by decide⟩ hscalar
    | true => exact absurd ⟨_, _, rfl, by decide⟩ hscalar
    | false => exact absurd ⟨_, _, rfl, by decide⟩ hscalar
    | number hnum =>
      obtain ⟨x, u, rfl, hx⟩ := number_head hnum
      refine absurd ⟨x, u, rfl, ?_⟩ hscalar
      refine ⟨?_, ?_, ?_⟩ <;> rintro rfl <;> revert hx <;> decide
    | string hs =>
      refine ⟨_, ?_, hat.skip⟩
      have hstr := string_reads hs hin.paired hat
      obtain ⟨body, -, rfl⟩ := hs
      simp only [dispatch, At.peek_eq (c := '"') hat (by decide), ok_bind,
        if_pos (by decide : UInt8.ofNat ('"' : Char).toNat = '"'.toUInt8), hstr, Cursor.at, Tree.values,
        denote]
    | emptyArray hw' =>
      rename_i w'
      have hat' : At s (spaces s c.position) ('[' :: (w' ++ ']' :: cs)) := by simpa using hat
      have hsp := spaces_reads (At.next hat' (by decide)) hw' (noWs_of (by simp))
      refine ⟨_, ?_, At.next hsp (by decide)⟩
      rw [dispatch_array hat', take_hit hsp (by decide)]
      rfl
    | array he =>
      rename_i ts es
      obtain ⟨w', ts', rfl, hw', he', hfirst⟩ := elems_spaces he
      have hat' : At s (spaces s c.position) ('[' :: (w' ++ (ts' ++ ']' :: cs))) := by simpa using hat
      have hsp := spaces_reads (At.next hat' (by decide)) hw' (hfirst _).1
      have hd := hin.depth
      have hv := hin.values
      simp only [Tree.depth, Tree.values] at hd hv
      obtain ⟨left, rfl⟩ : ∃ l, left = l + 1 := by
        refine ⟨left - 1, ?_⟩
        cases es with
        | nil => cases he'
        | cons e es =>
          simp only [depthElems] at hd
          omega
      simp only [List.length_cons, List.length_append] at hn hlt
      have hfuel : ts'.length < s.length + 1 := by omega
      obtain ⟨q, hq, hqat⟩ := elements_reads es
        (c := ⟨spaces s (spaces s c.position + 1), c.nodes + 1⟩) []
        (fun t' e' ht' => ih (by omega)) he' hfuel hd (by simp only; omega) hin.distinct
        hin.paired hsp
      refine ⟨q, ?_, hqat⟩
      rw [dispatch_array hat', take_miss hsp (by decide) (hfirst _).2]
      simp only [Option.elim_none, Cursor.at, hq, denote, List.nil_append, Tree.values]
      congr 3
      omega
    | emptyObject hw' =>
      rename_i w'
      have hat' : At s (spaces s c.position) ('{' :: (w' ++ '}' :: cs)) := by simpa using hat
      have hsp := spaces_reads (At.next hat' (by decide)) hw' (noWs_of (by simp))
      refine ⟨_, ?_, At.next hsp (by decide)⟩
      rw [dispatch_object hat', take_hit hsp (by decide)]
      rfl
    | object hm =>
      rename_i ts ms
      obtain ⟨w', ts', rfl, hw', hm', hfirst⟩ := members_spaces hm
      have hat' : At s (spaces s c.position) ('{' :: (w' ++ (ts' ++ '}' :: cs))) := by simpa using hat
      have hsp := spaces_reads (At.next hat' (by decide)) hw' (hfirst _).1
      have hd := hin.depth
      have hv := hin.values
      simp only [Tree.depth, Tree.values] at hd hv
      obtain ⟨left, rfl⟩ : ∃ l, left = l + 1 := by
        refine ⟨left - 1, ?_⟩
        cases ms with
        | nil => cases hm'
        | cons m ms =>
          simp only [depthMembers] at hd
          omega
      simp only [List.length_cons, List.length_append] at hn hlt
      have hfuel : ts'.length < s.length + 1 := by omega
      obtain ⟨q, hq, hqat⟩ := members_reads ms
        (c := ⟨spaces s (spaces s c.position + 1), c.nodes + 1⟩) []
        (fun t' e' ht' => ih (by omega)) hm' hfuel hd (by simp only; omega)
        ((keys_nodup ms).mpr hin.distinct.1) hin.distinct.2 hin.paired hsp
      refine ⟨q, ?_, hqat⟩
      rw [dispatch_object hat', take_miss hsp (by decide) (hfirst _).2]
      simp only [Option.elim_none, Cursor.at, hq, denote, List.nil_append, Tree.values]
      congr 3
      omega

/-! ## What is read the grammar derives -/

/-- A result read at `cs`: the text of a tree within the limits. -/
def ReadOff (s : Bytes) (left nodes : Nat) (cs : List Char) (r : Value × Cursor) : Prop :=
  ∃ w t e cs', cs = w ++ (t ++ cs') ∧ Ws w ∧ ValueText t e ∧ e.depth + 1 ≤ left ∧
    r.2.nodes = nodes + e.values ∧ r.2.nodes ≤ 16384 ∧ e.KeysDistinct ∧ e.Paired ∧ r.1 = denote e ∧
    At s r.2.position cs'

def Reader (s : Bytes) (left : Nat) (child : Cursor → Except Fault (Value × Cursor)) : Prop :=
  ∀ (cs : List Char) (c : Cursor), At s c.position cs →
    Outcome Fault.thrown (ReadOff s left c.nodes cs) (child c)

theorem value_pos {t : List Char} {e : Tree} (h : ValueText t e) : 0 < t.length := by
  obtain ⟨c, u, rfl, -⟩ := value_head h
  simp

theorem elements_outcome {s : Bytes} {left : Nat} {child : Cursor → Except Fault (Value × Cursor)}
    (hchild : Reader s left child) : ∀ (fuel : Nat) {cs : List Char} {c : Cursor} (acc : List Value),
    At s c.position cs → cs.length < fuel →
    Outcome Fault.thrown (fun r => ∃ ts es cs', cs = ts ++ ']' :: cs' ∧ ElemsText ts es ∧
      depthElems es ≤ left ∧ r.2.nodes = c.nodes + valuesElems es ∧ r.2.nodes ≤ 16384 ∧
      distinctElems es ∧ pairedElems es ∧ r.1 = .array (acc ++ denoteElems es) ∧
      At s r.2.position cs') (elements s child fuel acc c) := by
  intro fuel
  induction fuel with
  | zero => intro cs c acc _ hf; omega
  | succ fuel ih =>
    intro cs c acc h hf
    rw [elements]
    refine (hchild cs c h).bind ?_
    rintro ⟨v, c₁⟩ ⟨w, t, e, cs₁, rfl, hw, ht, hd, hn, hmax, hk, hp, rfl, h₁⟩
    obtain ⟨w', cs₂, rfl, hw', -, h₂⟩ := spaces_outcome h₁
    simp only at hn hmax h₁ h₂ ⊢
    rcases take_cases (c := ']') h₂ (by decide) with ⟨cs₃, rfl, htake, h₃⟩ | ⟨-, htake⟩
    · rw [htake]
      refine .ok ⟨w ++ (t ++ w'), [e], cs₃, by simp, .one hw ht hw', ?_, ?_, hmax, ?_, ?_, rfl, h₃⟩
      · simpa [depthElems] using hd
      · simpa [valuesElems, Cursor.at] using hn
      · simpa [distinctElems] using hk
      · simpa [pairedElems] using hp
    rw [htake]
    rcases take_cases (c := ',') h₂ (by decide) with ⟨cs₃, rfl, htake', h₃⟩ | ⟨-, htake'⟩
    · rw [htake']
      have hpos := value_pos ht
      simp only [List.length_append, List.length_cons] at hf
      refine (ih (c := ⟨_, c₁.nodes⟩) (acc ++ [denote e]) h₃ (by omega)).mono ?_
      rintro ⟨v, c₄⟩ ⟨ts, es, cs₄, rfl, hts, hd', hn', hmax', hk', hp', rfl, h₄⟩
      refine ⟨w ++ (t ++ (w' ++ ',' :: ts)), e :: es, cs₄, by simp, .cons hw ht hw' hts, ?_, ?_, hmax', ?_,
        ?_, by simp [denoteElems], h₄⟩
      · simp only [depthElems]
        omega
      · simp only [valuesElems]
        simp only at hn'
        omega
      · exact ⟨hk, hk'⟩
      · exact ⟨hp, hp'⟩
    · rw [htake']
      exact .raised

theorem members_outcome {s : Bytes} {left : Nat} {child : Cursor → Except Fault (Value × Cursor)}
    (hchild : Reader s left child) : ∀ (fuel : Nat) {cs : List Char} {c : Cursor}
    (acc : List (Bytes × Value)), At s c.position cs → cs.length < fuel → (acc.map Prod.fst).Nodup →
    Outcome Fault.thrown (fun r => ∃ ts ms cs', cs = ts ++ '}' :: cs' ∧ MembersText ts ms ∧
      depthMembers ms ≤ left ∧ r.2.nodes = c.nodes + valuesMembers ms ∧ r.2.nodes ≤ 16384 ∧
      ((acc ++ denoteMembers ms).map Prod.fst).Nodup ∧ distinctMembers ms ∧ pairedMembers ms ∧
      r.1 = .object (acc ++ denoteMembers ms) ∧ At s r.2.position cs')
      (members s child fuel acc c) := by
  intro fuel
  induction fuel with
  | zero => intro cs c acc _ hf; omega
  | succ fuel ih =>
    intro cs c acc h hf hnodup
    obtain ⟨w, cs₁, rfl, hw, -, h₁⟩ := spaces_outcome h
    rw [members]
    refine (string_outcome h₁).bind ?_
    rintro ⟨key, p⟩ ⟨k, as, cs₂, rfl, hk, hpk, hkey, h₂⟩
    simp only at hkey h₂ ⊢
    obtain ⟨v, cs₃, rfl, hv, -, h₃⟩ := spaces_outcome h₂
    rcases take_cases (c := ':') h₃ (by decide) with ⟨cs₄, rfl, htake, h₄⟩ | ⟨-, htake⟩
    swap
    · rw [htake]
      exact .raised
    rw [htake]
    refine (hchild cs₄ ⟨_, c.nodes⟩ h₄).bind ?_
    rintro ⟨val, c₁⟩ ⟨u, t, e, cs₅, rfl, hu, ht, hd, hn, hmax, hke, hpe, rfl, h₅⟩
    obtain ⟨w', cs₆, rfl, hw', -, h₆⟩ := spaces_outcome h₅
    simp only at hn hmax h₆ ⊢
    by_cases hdup : key ∈ acc.map Prod.fst
    · rw [if_pos hdup]
      exact .raised
    rw [if_neg hdup]
    have hnodup' : ((acc ++ [(key, denote e)]).map Prod.fst).Nodup := by
      rw [List.map_append, List.nodup_append]
      refine ⟨hnodup, by simp, ?_⟩
      intro a ha b hb
      rintro rfl
      have : a = key := by simpa using hb
      exact hdup (this ▸ ha)
    rcases take_cases (c := '}') h₆ (by decide) with ⟨cs₇, rfl, htake', h₇⟩ | ⟨-, htake'⟩
    · rw [htake']
      refine .ok ⟨w ++ (k ++ (v ++ ':' :: (u ++ (t ++ w')))), [(as, e)], cs₇, by simp,
        .one hw hk hv hu ht hw', ?_, ?_, hmax, ?_, ?_, ?_, ?_, h₇⟩
      · simpa [depthMembers] using hd
      · simpa [valuesMembers, Cursor.at] using hn
      · simpa [denoteMembers, hkey] using hnodup'
      · simpa [distinctMembers] using hke
      · exact ⟨hpk, hpe, trivial⟩
      · simp [denoteMembers, hkey]
    rw [htake']
    rcases take_cases (c := ',') h₆ (by decide) with ⟨cs₇, rfl, htake'', h₇⟩ | ⟨-, htake''⟩
    · rw [htake'']
      have hpos := value_pos ht
      simp only [List.length_append, List.length_cons] at hf
      refine (ih (c := ⟨_, c₁.nodes⟩) (acc ++ [(key, denote e)]) h₇ (by omega) hnodup').mono ?_
      rintro ⟨val, c₈⟩ ⟨ts, ms, cs₈, rfl, hts, hd', hn', hmax', hnd', hk', hp', rfl, h₈⟩
      refine ⟨w ++ (k ++ (v ++ ':' :: (u ++ (t ++ (w' ++ ',' :: ts))))), (as, e) :: ms, cs₈, by simp,
        .cons hw hk hv hu ht hw' hts, ?_, ?_, hmax', ?_, ?_, ?_, ?_, h₈⟩
      · simp only [depthMembers]
        omega
      · simp only [valuesMembers]
        simp only at hn'
        omega
      · simpa [denoteMembers, hkey] using hnd'
      · exact ⟨hke, hk'⟩
      · exact ⟨hpk, hpe, hp'⟩
      · simp [denoteMembers, hkey]
    · rw [htake'']
      exact .raised

theorem literal_outcome {s : Bytes} {p : Nat} {cs : List Char} (h : At s p cs) (t : List Char) :
    Outcome Fault.thrown (fun q => ∃ cs', cs = t ++ cs' ∧ At s q cs') (literal s p (utf8 t)) := by
  have hl := Here.length h
  rw [literal, if_neg (by omega), Here.drop h]
  split
  · exact .raised
  · rename_i heq
    rw [not_not] at heq
    obtain ⟨cs', rfl, -⟩ := utf8_split (t := t) (r := (utf8 cs).drop (utf8 t).length)
      (by conv_lhs => rw [← List.take_append_drop (utf8 t).length (utf8 cs), heq])
    exact .ok ⟨cs', rfl, h.skip⟩

/-- A tree that is no array or object. -/
def Leaf (e : Tree) : Prop := e.depth = 0 ∧ e.values = 1 ∧ e.KeysDistinct

theorem scalar_outcome {s : Bytes} {p : Nat} {cs : List Char} {b : UInt8} (h : At s p cs) :
    Outcome Fault.thrown (fun r => ∃ t e cs', cs = t ++ cs' ∧ ValueText t e ∧ Leaf e ∧ e.Paired ∧
      r.1 = denote e ∧ At s r.2 cs') (scalar s p b) := by
  rw [scalar]
  split
  · refine (literal_outcome h ['n', 'u', 'l', 'l']).bind ?_
    rintro q ⟨cs', rfl, hq⟩
    exact .ok ⟨_, _, cs', rfl, .null, ⟨rfl, rfl, trivial⟩, trivial, rfl, hq⟩
  split
  · refine (literal_outcome h ['t', 'r', 'u', 'e']).bind ?_
    rintro q ⟨cs', rfl, hq⟩
    exact .ok ⟨_, _, cs', rfl, .true, ⟨rfl, rfl, trivial⟩, trivial, rfl, hq⟩
  split
  · refine (literal_outcome h ['f', 'a', 'l', 's', 'e']).bind ?_
    rintro q ⟨cs', rfl, hq⟩
    exact .ok ⟨_, _, cs', rfl, .false, ⟨rfl, rfl, trivial⟩, trivial, rfl, hq⟩
  · refine (number_outcome h).bind ?_
    rintro q ⟨t, cs', rfl, ht, hq⟩
    exact .ok ⟨t, _, cs', rfl, .number ht, ⟨rfl, rfl, trivial⟩, trivial, by rw [slice_eq h hq]; rfl, hq⟩

/-- Whatever the reader returns it read off a text of the grammar, within the
limits; every other outcome is the exception. -/
theorem value_outcome {s : Bytes} (left : Nat) : Reader s left (value s left) := by
  induction left with
  | zero => exact fun cs c h => .raised
  | succ left ih =>
    intro cs c h
    obtain ⟨w, cs₁, rfl, hw, -, h₁⟩ := spaces_outcome h
    by_cases hnodes : c.nodes + 1 > 16384
    · rw [value]
      simp only [if_pos hnodes]
      exact .raised
    by_cases hend : spaces s c.position = s.length
    · rw [value]
      simp only [if_neg hnodes, if_pos hend]
      exact .raised
    have hval : value s (left + 1) c = dispatch s (value s left) ⟨spaces s c.position, c.nodes + 1⟩ := by
      simp only [value, Cursor.at, if_neg hnodes, if_neg hend]
    rw [hval]
    cases cs₁ with
    | nil => exact absurd (h₁.end_iff.mpr rfl) hend
    | cons x u =>
      by_cases hq : x = '"'
      · subst hq
        have hd : dispatch s (value s left) ⟨spaces s c.position, c.nodes + 1⟩ = (string s (spaces s c.position) >>=
            fun r => .ok (Value.string r.1, ⟨r.2, c.nodes + 1⟩)) := by
          simp only [dispatch, h₁.peek_eq (by decide), ok_bind,
            if_pos (by decide : UInt8.ofNat ('"' : Char).toNat = '"'.toUInt8), Cursor.at]
        rw [hd]
        refine (string_outcome h₁).bind ?_
        rintro ⟨text, p⟩ ⟨t, as, cs', heq, ht, hp, htext, hat⟩
        refine .ok ⟨w, t, .string as, cs', by rw [heq], hw, .string ht, ?_, rfl, ?_, trivial, hp, ?_, hat⟩
        · simp [Tree.depth]
        · simp only
          omega
        · simp only [denote]
          rw [← htext]
      by_cases ho : x = '{'
      · subst ho
        obtain ⟨w', cs₂, rfl, hw', -, h₂⟩ := spaces_outcome (h₁.next (by decide))
        rw [dispatch_object h₁]
        rcases take_cases (c := '}') h₂ (by decide) with ⟨cs₃, rfl, htake, h₃⟩ | ⟨-, htake⟩
        · rw [htake]
          refine .ok ⟨w, '{' :: (w' ++ ['}']), .object [], cs₃, by simp, hw, .emptyObject hw', ?_, rfl, ?_,
            ⟨by simp, trivial⟩, trivial, rfl, h₃⟩
          · simp [Tree.depth, depthMembers]
          · simp only [Cursor.at]
            omega
        · rw [htake]
          have hlen := Here.length h₂
          have hle := length_le_utf8 cs₂
          refine (members_outcome ih (s.length + 1) (c := ⟨_, c.nodes + 1⟩) [] h₂ (by omega) (by simp)).mono ?_
          rintro ⟨v, c'⟩ ⟨ts, ms, cs', rfl, hts, hd, hn, hmax, hnd, hk, hp, rfl, hat⟩
          refine ⟨w, '{' :: (w' ++ ts ++ ['}']), .object ms, cs', by simp, hw, ?_, ?_, ?_, hmax,
            ⟨(keys_nodup ms).mp hnd, hk⟩, hp, rfl, hat⟩
          · exact .object (hts.space hw')
          · simp only [Tree.depth]
            omega
          · simp only [Tree.values]
            simp only at hn
            omega
      by_cases ha : x = '['
      · subst ha
        obtain ⟨w', cs₂, rfl, hw', -, h₂⟩ := spaces_outcome (h₁.next (by decide))
        rw [dispatch_array h₁]
        rcases take_cases (c := ']') h₂ (by decide) with ⟨cs₃, rfl, htake, h₃⟩ | ⟨-, htake⟩
        · rw [htake]
          refine .ok ⟨w, '[' :: (w' ++ [']']), .array [], cs₃, by simp, hw, .emptyArray hw', ?_, rfl, ?_,
            trivial, trivial, rfl, h₃⟩
          · simp [Tree.depth, depthElems]
          · simp only [Cursor.at]
            omega
        · rw [htake]
          have hlen := Here.length h₂
          have hle := length_le_utf8 cs₂
          refine (elements_outcome ih (s.length + 1) (c := ⟨_, c.nodes + 1⟩) [] h₂ (by omega)).mono ?_
          rintro ⟨v, c'⟩ ⟨ts, es, cs', rfl, hts, hd, hn, hmax, hk, hp, rfl, hat⟩
          refine ⟨w, '[' :: (w' ++ ts ++ [']']), .array es, cs', by simp, hw, ?_, ?_, ?_, hmax, hk, hp, rfl,
            hat⟩
          · exact .array (hts.space hw')
          · simp only [Tree.depth]
            omega
          · simp only [Tree.values]
            simp only at hn
            omega
      · -- no quote and no bracket: a literal or a number
        obtain ⟨b, hb⟩ : ∃ b, s[spaces s c.position]? = some b :=
          ⟨_, List.getElem?_eq_getElem h₁.lt⟩
        have hbq : b ≠ '"'.toUInt8 := by
          rintro rfl
          exact hq ((h₁.first (by decide)).mp hb)
        have hd : dispatch s (value s left) ⟨spaces s c.position, c.nodes + 1⟩ = (do
            let (v, p) ← scalar s (spaces s c.position) b
            .ok (v, ⟨p, c.nodes + 1⟩)) := by
          simp only [dispatch, peek, hb, ok_bind, if_neg hbq,
            take_miss h₁ (by decide : ('{' : Char).toNat < 0x80) (by simpa using ho),
            take_miss h₁ (by decide : ('[' : Char).toNat < 0x80) (by simpa using ha), Cursor.at]
        rw [hd]
        refine (scalar_outcome h₁).bind ?_
        rintro ⟨v, p⟩ ⟨t, e, cs', heq, ht, ⟨hdep, hval, hk⟩, hp, hv, hat⟩
        refine .ok ⟨w, t, e, cs', by rw [heq], hw, ht, by omega, by rw [hval], ?_, hk, hp, hv, hat⟩
        simp only
        omega

/-! ## Whole texts -/

theorem read_reads {s : Bytes} {cs : List Char} {e : Tree} (hs : s = utf8 cs) (ht : JsonText cs e)
    (hin : Within e 32 0) (hlen : s.length ≤ 1024 * 1024) : parse s = .ok (denote e) := by
  obtain ⟨w, t, w', hw, hv, hw', rfl⟩ := ht
  have hat : At s 0 (w ++ (t ++ w')) := by
    rw [At, ← hs]
    exact Here.start s
  have hfollow : NoNumber w' := by simpa using @noNumber_ws w' [] hw' (by simp [NoNumber])
  obtain ⟨q, hq, hqat⟩ := value_reads t.length (Nat.le_refl _) hv 32 w w' {} hin hw hfollow hat
  have hend : spaces s q = s.length := by
    have hsp := @spaces_reads s q w' [] (by simpa using hqat) hw' (by simp [NoWs])
    exact hsp.end_iff.mpr rfl
  have hutf : validUtf8 s = .ok true := by
    rcases validUtf8_spec s with h | h
    · exact h.1
    · exact absurd ⟨_, hs⟩ h.2
  rw [parse, if_neg (by omega), hutf, ok_bind, if_neg (by decide), hq, ok_bind]
  simp only [hend, ne_eq, not_true_eq_false, if_false]

theorem parse_outcome (s : Bytes) : Outcome Fault.thrown (fun v => s.length ≤ 1024 * 1024 ∧
    ∃ cs e, s = utf8 cs ∧ JsonText cs e ∧ Within e 32 0 ∧ v = denote e) (parse s) := by
  rw [parse]
  split
  · exact .raised
  rename_i hlen
  rcases validUtf8_spec s with ⟨hv, cs, hs⟩ | ⟨hv, -⟩
  swap
  · rw [hv, ok_bind, if_pos rfl]
    exact .raised
  rw [hv, ok_bind, if_neg (by decide)]
  have hat : At s 0 cs := by
    rw [At, ← hs]
    exact Here.start s
  refine (value_outcome 33 cs {} hat).bind ?_
  rintro ⟨v, c⟩ ⟨w, t, e, cs', hcs, hw, ht, hd, hn, hmax, hk, hp, rfl, h'⟩
  simp only
  split
  · exact .raised
  · rename_i hend
    rw [not_not] at hend
    obtain ⟨w', cs'', rfl, hw', -, h''⟩ := spaces_outcome h'
    have hnil := h''.end_iff.mp hend
    subst hnil
    refine .ok ⟨by omega, cs, e, hs, ⟨w, t, w', hw, ht, hw', by simpa using hcs⟩, ⟨by omega, ?_, hk, hp⟩, rfl⟩
    simp only at hn hmax
    omega

/-- The reader accepts exactly the JSON texts within its limits and returns the
value the text denotes; on any other input it throws, and no read is outside. -/
theorem parse_accepts_grammar (s : Bytes) :
    (∀ v, parse s = .ok v ↔ s.length ≤ 1024 * 1024 ∧ ∃ cs e, s = utf8 cs ∧ JsonText cs e ∧
      e.depth ≤ 32 ∧ e.values ≤ 16384 ∧ e.KeysDistinct ∧ e.Paired ∧ v = denote e) ∧
    ((∃ v, parse s = .ok v) ∨ parse s = .error .thrown) := by
  constructor
  · intro v
    constructor
    · intro h
      obtain ⟨hlen, cs, e, hs, ht, hin, rfl⟩ := (parse_outcome s).of_ok h
      have hv := hin.values
      exact ⟨hlen, cs, e, hs, ht, hin.depth, by omega, hin.distinct, hin.paired, rfl⟩
    · rintro ⟨hlen, cs, e, hs, ht, hd, hv, hk, hp, rfl⟩
      exact read_reads hs ht ⟨hd, by omega, hk, hp⟩ hlen
  · cases h : parse s with
    | ok v => exact Or.inl ⟨v, rfl⟩
    | error f => exact Or.inr (by rw [(parse_outcome s).error_eq h])

end KmVirtualCamera.L1.Json
