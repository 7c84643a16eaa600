import Mathlib
import KmVirtualCamera.L1Encoding.JsonQuote

/-!
# What `JSON.stringify` writes

A document of strings, integers, arrays and objects, the text that
`JSON.stringify` makes of it, and the value that the receiver's reader makes of
the text (`Doc.value`).

* `parse_stringify`: the reader returns the document when it has room for it and
  no object has a key twice.
* `number_uint32`: integers in range come back, and no others.
* `string_size`: without control characters a string takes at most twice its
  bytes.
-/
namespace KmVirtualCamera.L1.JsonWrite
open L1.H264 (Bytes)
open L1.Json
open Utf8 Rfc8259

inductive Doc where
  | null
  | number (n : Int)
  | string (cs : List Char)
  | array (elems : List Doc)
  | object (members : List (List Char × Doc))

/-! ## Strings -/

/-- The characters with a short escape. -/
def shortcuts : List (Char × Char) :=
  [('"', '"'), ('\\', '\\'), ('b', '\x08'), ('f', '\x0c'), ('n', '\n'), ('r', '\r'), ('t', '\t')]

def escaped (c : Char) : List Char × Atom :=
  match shortcuts.find? fun p => p.2 == c with
  | some p => (['\\', p.1], .short p.2)
  | none =>
    if c.toNat < 32 then
      (['\\', 'u', '0', '0', hexChar (c.toNat / 16), hexChar (c.toNat % 16)], .code c.toNat)
    else ([c], .plain c)

theorem shortcuts_shorts : ∀ p ∈ shortcuts, p ∈ shorts := by decide

theorem escaped_writes : Writes escaped := by
  intro c
  unfold escaped
  split
  · rename_i p hp
    have hpc : p.2 = c := by simpa using List.find?_some hp
    exact ⟨.short (shortcuts_shorts p (List.mem_of_find?_eq_some hp)), fun h => h, hpc⟩
  · rename_i hnone
    have hne : ∀ p ∈ shortcuts, p.2 ≠ c := by simpa using hnone
    split
    · refine ⟨.code (hexFour_code (by omega)), ?_, Char.ofNat_toNat c⟩
      rintro (⟨h, -⟩ | ⟨h, -⟩) <;> omega
    · refine ⟨.plain (by omega) (fun h => ?_) fun h => ?_, fun h => h, rfl⟩
      · exact hne ('"', '"') (by decide) h.symm
      · exact hne ('\\', '\\') (by decide) h.symm

def quote (cs : List Char) : List Char := '"' :: (cs.flatMap (fun c => (escaped c).1) ++ ['"'])

def atomsOf (cs : List Char) : List Atom := cs.map fun c => (escaped c).2

/-! ## Integers -/

def integer (n : Int) : List Char :=
  (if n < 0 then ['-'] else []) ++ Nat.toDigits 10 n.natAbs

theorem toDigits_digit {n : Nat} {c : Char} (h : c ∈ Nat.toDigits 10 n) : IsDigit c := by
  have hd := Nat.isDigit_of_mem_toDigits (by decide) (by decide) h
  simpa [Char.isDigit, UInt32.le_iff_toNat_le, IsDigit] using hd

theorem toDigits_head (n : Nat) (hn : 0 < n) : ∃ c cs, Nat.toDigits 10 n = c :: cs ∧ c ≠ '0' := by
  induction n using Nat.strong_induction_on with
  | _ n ih =>
    rcases Nat.lt_or_ge n 10 with h | h
    · refine ⟨n.digitChar, [], Nat.toDigits_of_lt_base h, ?_⟩
      intro hz
      rw [Nat.digitChar_eq_zero] at hz
      omega
    · obtain ⟨c, cs, hcs, hc⟩ := ih (n / 10) (by omega) (by omega)
      rw [Nat.toDigits_of_base_le (by decide) h, hcs]
      exact ⟨c, cs ++ [(n % 10).digitChar], rfl, hc⟩

theorem toDigits_int (n : Nat) : IntText (Nat.toDigits 10 n) := by
  rcases Nat.eq_zero_or_pos n with rfl | hn
  · exact .inl (Nat.toDigits_zero 10)
  · obtain ⟨c, cs, hcs, hc⟩ := toDigits_head n hn
    exact .inr ⟨c, cs, hcs, hc, fun d hd => toDigits_digit hd⟩

theorem integer_text (n : Int) : NumberText (integer n) := by
  refine ⟨if n < 0 then ['-'] else [], Nat.toDigits 10 n.natAbs, [], [], ?_, toDigits_int _, .inl rfl,
    .inl rfl, by simp [integer]⟩
  split
  · exact .inr rfl
  · exact .inl rfl

/-! ## Documents -/

mutual

/-- `JSON.stringify(d)` -/
def stringify : Doc → List Char
  | .null => ['n', 'u', 'l', 'l']
  | .number n => integer n
  | .string cs => quote cs
  | .array [] => ['[', ']']
  | .array (e :: es) => '[' :: (stringify e ++ stringifyElems es ++ [']'])
  | .object [] => ['\x7b', '\x7d']
  | .object ((key, e) :: ms) =>
    '\x7b' :: (quote key ++ ':' :: (stringify e ++ stringifyMembers ms) ++ ['\x7d'])

/-- The elements behind the first, each with its comma. -/
def stringifyElems : List Doc → List Char
  | [] => []
  | e :: es => ',' :: (stringify e ++ stringifyElems es)

def stringifyMembers : List (List Char × Doc) → List Char
  | [] => []
  | (key, e) :: ms => ',' :: (quote key ++ ':' :: (stringify e ++ stringifyMembers ms))

end

mutual

/-- The tree of the grammar it is a text of. -/
def tree : Doc → Tree
  | .null => .null
  | .number n => .number (integer n)
  | .string cs => .string (atomsOf cs)
  | .array es => .array (treeElems es)
  | .object ms => .object (treeMembers ms)

def treeElems : List Doc → List Tree
  | [] => []
  | e :: es => tree e :: treeElems es

def treeMembers : List (List Char × Doc) → List (List Atom × Tree)
  | [] => []
  | (key, e) :: ms => (atomsOf key, tree e) :: treeMembers ms

end

theorem no_ws : Ws [] := fun _ h => absurd h List.not_mem_nil

mutual

theorem stringify_text : ∀ d : Doc, ValueText (stringify d) (tree d)
  | .null => .null
  | .number n => .number (integer_text n)
  | .string cs => .string (escaped_writes.text cs)
  | .array [] => .emptyArray no_ws
  | .array (e :: es) => .array (elems_text es (stringify_text e))
  | .object [] => .emptyObject no_ws
  | .object ((_, e) :: ms) => .object (members_text ms (stringify_text e))

theorem elems_text : ∀ (es : List Doc) {t : List Char} {e : Tree}, ValueText t e →
    ElemsText (t ++ stringifyElems es) (e :: treeElems es)
  | [], _, _, h => .one no_ws h no_ws
  | e :: es, _, _, h => .cons no_ws h no_ws (elems_text es (stringify_text e))

theorem members_text : ∀ (ms : List (List Char × Doc)) {key t : List Char} {e : Tree}, ValueText t e →
    MembersText (quote key ++ ':' :: (t ++ stringifyMembers ms)) ((atomsOf key, e) :: treeMembers ms)
  | [], _, _, _, h => .one no_ws (escaped_writes.text _) no_ws no_ws h no_ws
  | (_, e) :: ms, _, _, _, h =>
    .cons no_ws (escaped_writes.text _) no_ws no_ws h no_ws (members_text ms (stringify_text e))

end

mutual

theorem tree_paired : ∀ d : Doc, (tree d).Paired
  | .null | .number _ => trivial
  | .string cs => escaped_writes.paired cs
  | .array es => elems_paired es
  | .object ms => members_paired ms

theorem elems_paired : ∀ es : List Doc, pairedElems (treeElems es)
  | [] => trivial
  | e :: es => ⟨tree_paired e, elems_paired es⟩

theorem members_paired : ∀ ms : List (List Char × Doc), pairedMembers (treeMembers ms)
  | [] => trivial
  | (key, e) :: ms => ⟨escaped_writes.paired key, tree_paired e, members_paired ms⟩

end

/-! ## What the receiver reads -/

/-- The value the receiver's reader makes of the text. -/
def Doc.value (d : Doc) : Value := denote (tree d)

theorem string_value (cs : List Char) : (Doc.string cs).value = .string (utf8 cs) := by
  have h := escaped_writes.unescape cs
  simp only [Doc.value, tree, denote, atomsOf, h]

theorem array_value (es : List Doc) : (Doc.array es).value = .array (es.map Doc.value) := by
  simp only [Doc.value, tree, denote, Value.array.injEq]
  induction es with
  | nil => rfl
  | cons e es ih => rw [treeElems, denoteElems, ih, List.map_cons, Doc.value]

theorem object_value (ms : List (List Char × Doc)) :
    (Doc.object ms).value = .object (ms.map fun m => (utf8 m.1, m.2.value)) := by
  simp only [Doc.value, tree, denote, Value.object.injEq]
  induction ms with
  | nil => rfl
  | cons m ms ih =>
    have h := escaped_writes.unescape m.1
    rw [treeMembers, denoteMembers, ih, List.map_cons, atomsOf, h]

/-- The bytes of digits, read as `from_chars` does. -/
theorem digits_value (cs : List Char) (k : Nat) (h : ∀ c ∈ cs, IsDigit c) :
    (utf8 cs).all isDigit = true ∧
      (utf8 cs).foldl (fun n b => n * 10 + (b.toNat - 48)) k = Nat.ofDigitChars 10 cs k := by
  induction cs generalizing k with
  | nil => exact ⟨rfl, rfl⟩
  | cons c cs ih =>
    have hc := h c List.mem_cons_self
    have hascii : c.toNat < 0x80 := isDigit_ascii hc
    have hbyte : (UInt8.ofNat c.toNat).toNat = c.toNat := by
      rw [UInt8.toNat_ofNat']
      omega
    have hdigit : isDigit (UInt8.ofNat c.toNat) = true := by
      rw [digit_class.ascii c hascii, isDig_iff]
      exact hc
    have hzero : ('0' : Char).toNat = 48 := rfl
    obtain ⟨hall, hfold⟩ := ih (k * 10 + (c.toNat - 48)) fun d hd => h d (List.mem_cons_of_mem c hd)
    rw [utf8_ascii hascii, List.all_cons, List.foldl_cons, Nat.ofDigitChars_cons, hdigit, hall, hbyte,
      hfold, hzero, Nat.mul_comm 10 k]
    exact ⟨rfl, rfl⟩

theorem integer_digits {n : Int} (h : 0 ≤ n) : integer n = Nat.toDigits 10 n.toNat := by
  rw [integer, if_neg (by omega), List.nil_append]
  congr 1
  omega

/-- `uint32()` takes an integer that is in range. -/
theorem number_uint32 {n : Int} {u : UInt32} : (Doc.number n).value.uint32 = .ok u ↔
    0 ≤ n ∧ n < 2 ^ 32 ∧ u = UInt32.ofNat n.toNat := by
  rcases Int.lt_or_le n 0 with hneg | h
  · have hsign : (utf8 (integer n)).all isDigit = false := by
      rw [integer, if_pos hneg, List.singleton_append, utf8_ascii (by decide)]
      rfl
    simp only [Doc.value, tree, denote, Value.uint32, hsign, Bool.false_eq_true, false_and, and_false,
      if_false, reduceCtorEq, false_iff, not_and]
    omega
  · obtain ⟨hall, hfold⟩ := digits_value (Nat.toDigits 10 n.toNat) 0 fun c => toDigits_digit
    rw [Nat.ofDigitChars_ten_toDigits] at hfold
    have hne : utf8 (Nat.toDigits 10 n.toNat) ≠ [] := by
      intro hnil
      have hle := length_le_utf8 (Nat.toDigits 10 n.toNat)
      have hpos := Nat.length_toDigits_pos (b := 10) (n := n.toNat)
      rw [hnil, List.length_nil] at hle
      omega
    simp only [Doc.value, tree, denote, integer_digits h, Value.uint32, hfold]
    by_cases hn : n.toNat < 2 ^ 32
    · rw [if_pos ⟨hne, hall, hn⟩, Except.ok.injEq]
      exact ⟨fun hu => ⟨h, by omega, hu.symm⟩, fun hu => hu.2.2.symm⟩
    · rw [if_neg fun hc => hn hc.2.2]
      simp only [reduceCtorEq, false_iff, not_and]
      omega

/-! ## What the reader has room for -/

/-- At most `k` levels below the root, and no key twice in an object. -/
structure Nests (d : Doc) (k : Nat) : Prop where
  depth : (tree d).depth ≤ k
  distinct : (tree d).KeysDistinct

theorem Nests.mono {d : Doc} {k n : Nat} (h : Nests d k) (hk : k ≤ n) : Nests d n :=
  ⟨Nat.le_trans h.depth hk, h.distinct⟩

theorem null_nests (k : Nat) : Nests .null k := ⟨Nat.zero_le k, trivial⟩

theorem number_nests (n : Int) (k : Nat) : Nests (.number n) k := ⟨Nat.zero_le k, trivial⟩

theorem string_nests (cs : List Char) (k : Nat) : Nests (.string cs) k := ⟨Nat.zero_le k, trivial⟩

theorem array_nests {es : List Doc} {k : Nat} (h : ∀ e ∈ es, Nests e k) :
    Nests (.array es) (k + 1) := by
  induction es with
  | nil => exact ⟨Nat.zero_le _, trivial⟩
  | cons e es ih =>
    have he := h e List.mem_cons_self
    have hes := ih fun x hx => h x (List.mem_cons_of_mem e hx)
    refine ⟨?_, he.distinct, hes.distinct⟩
    exact Nat.max_le.2 ⟨Nat.succ_le_succ he.depth, hes.depth⟩

theorem object_nests {ms : List (List Char × Doc)} {k : Nat} (hkeys : (ms.map Prod.fst).Nodup)
    (h : ∀ m ∈ ms, Nests m.2 k) : Nests (.object ms) (k + 1) := by
  have hunescape : (treeMembers ms).map (fun m => unescape m.1) = ms.map Prod.fst := by
    clear hkeys h
    induction ms with
    | nil => rfl
    | cons m ms ih =>
      have hm := escaped_writes.unescape m.1
      rw [treeMembers, List.map_cons, ih, List.map_cons, atomsOf, hm]
  have hmembers : depthMembers (treeMembers ms) ≤ k + 1 ∧ distinctMembers (treeMembers ms) := by
    clear hkeys hunescape
    induction ms with
    | nil => exact ⟨Nat.zero_le _, trivial⟩
    | cons m ms ih =>
      have hm := h m List.mem_cons_self
      obtain ⟨hdepth, hdistinct⟩ := ih fun x hx => h x (List.mem_cons_of_mem m hx)
      refine ⟨?_, hm.distinct, hdistinct⟩
      exact Nat.max_le.2 ⟨Nat.succ_le_succ hm.depth, hdepth⟩
  refine ⟨hmembers.1, ?_, hmembers.2⟩
  rw [hunescape]
  exact hkeys

def count (d : Doc) : Nat := (tree d).values

def elemsCount : List Doc → Nat
  | [] => 0
  | e :: es => count e + elemsCount es

def membersCount : List (List Char × Doc) → Nat
  | [] => 0
  | (_, e) :: ms => count e + membersCount ms

theorem array_count (es : List Doc) : count (.array es) = elemsCount es + 1 := by
  have h : valuesElems (treeElems es) = elemsCount es := by
    induction es with
    | nil => rfl
    | cons e es ih => rw [treeElems, valuesElems, ih, elemsCount, count]
  rw [count, tree, Tree.values, h]

theorem object_count (ms : List (List Char × Doc)) : count (.object ms) = membersCount ms + 1 := by
  have h : valuesMembers (treeMembers ms) = membersCount ms := by
    induction ms with
    | nil => rfl
    | cons m ms ih => rw [treeMembers, valuesMembers, ih, membersCount, count]
  rw [count, tree, Tree.values, h]

theorem membersCount_append (ms ms' : List (List Char × Doc)) :
    membersCount (ms ++ ms') = membersCount ms + membersCount ms' := by
  induction ms with
  | nil => rw [List.nil_append, membersCount, Nat.zero_add]
  | cons m ms ih =>
    rw [List.cons_append, membersCount, membersCount, ih]
    omega

def size (d : Doc) : Nat := (utf8 (stringify d)).length

/-- An integer takes its digits. -/
theorem number_size {n : Int} {k : Nat} (h : 0 ≤ n) (hk : 0 < k) (hn : n.toNat < 10 ^ k) :
    size (.number n) ≤ k := by
  rw [size, stringify, integer_digits h, length_ascii fun c hc => isDigit_ascii (toDigits_digit hc)]
  exact (Nat.length_toDigits_le_iff (by decide) hk).2 hn

/-- The elements of an array, each with its comma. -/
def elemsSize : List Doc → Nat
  | [] => 0
  | e :: es => size e + 1 + elemsSize es

/-- The members of an object, each with its key, its colon and its comma. -/
def membersSize : List (List Char × Doc) → Nat
  | [] => 0
  | (key, e) :: ms => size (.string key) + size e + 2 + membersSize ms

theorem membersSize_append (ms ms' : List (List Char × Doc)) :
    membersSize (ms ++ ms') = membersSize ms + membersSize ms' := by
  induction ms with
  | nil => rw [List.nil_append, membersSize, Nat.zero_add]
  | cons m ms ih =>
    rw [List.cons_append, membersSize, membersSize, ih]
    omega

theorem array_size (es : List Doc) : size (.array es) ≤ elemsSize es + 2 := by
  have h : ∀ es, (utf8 (stringifyElems es)).length = elemsSize es := by
    intro es
    induction es with
    | nil => rfl
    | cons e es ih =>
      rw [stringifyElems, length_ascii_cons (by decide), utf8_append, List.length_append, ih, elemsSize, size]
      omega
  cases es with
  | nil => decide
  | cons e es =>
    rw [size, stringify, length_ascii_cons (by decide), utf8_append, utf8_append, List.length_append,
      List.length_append, h, elemsSize, size, length_ascii_cons (by decide)]
    simp only [utf8_nil, List.length_nil]
    omega

theorem object_size (ms : List (List Char × Doc)) : size (.object ms) ≤ membersSize ms + 2 := by
  have h : ∀ ms, (utf8 (stringifyMembers ms)).length = membersSize ms := by
    intro ms
    induction ms with
    | nil => rfl
    | cons m ms ih =>
      rw [stringifyMembers, length_ascii_cons (by decide), utf8_append, List.length_append,
        length_ascii_cons (by decide), utf8_append, List.length_append, ih, membersSize, size, size, stringify]
      omega
  cases ms with
  | nil => decide
  | cons m ms =>
    rw [size, stringify, length_ascii_cons (by decide), utf8_append, utf8_append, List.length_append,
      List.length_append, length_ascii_cons (by decide), utf8_append, List.length_append, h, membersSize, size,
      size, stringify, length_ascii_cons (by decide)]
    simp only [utf8_nil, List.length_nil]
    omega

/-- Without control characters a text takes at most twice its bytes. -/
theorem string_size {cs : List Char} (h : ∀ c ∈ cs, 32 ≤ c.toNat) :
    size (.string cs) ≤ 2 * (utf8 cs).length + 2 := by
  have hbody : (utf8 (cs.flatMap fun c => (escaped c).1)).length ≤ 2 * (utf8 cs).length := by
    induction cs with
    | nil => exact Nat.le_refl 0
    | cons c cs ih =>
      have hrest := ih fun d hd => h d (List.mem_cons_of_mem c hd)
      have hc : (utf8 (escaped c).1).length ≤ 2 * (String.utf8EncodeChar c).length := by
        have hpos := encode_pos c
        unfold escaped
        split
        · rename_i p hp
          have hp2 : p.1.toNat < 0x80 := by
            have hall : ∀ p ∈ shortcuts, p.1.toNat < 0x80 := by decide
            exact hall p (List.mem_of_find?_eq_some hp)
          rw [length_ascii_cons (by decide), length_ascii_cons hp2, utf8_nil, List.length_nil]
          omega
        · rw [if_neg (by have := h c List.mem_cons_self; omega), utf8_cons, utf8_nil, List.append_nil]
          omega
      rw [List.flatMap_cons, utf8_append, utf8_cons, List.length_append, List.length_append]
      omega
  rw [size, stringify, quote, length_ascii_cons (by decide), utf8_append, List.length_append,
    length_ascii_cons (by decide), utf8_nil, List.length_nil]
  omega

/-- The reader returns a document it has room for. -/
theorem parse_stringify {d : Doc} (hnests : Nests d 32) (hcount : count d ≤ 16384)
    (hsize : size d ≤ 1024 * 1024) : parse (utf8 (stringify d)) = .ok d.value := by
  have htext : JsonText (stringify d) (tree d) :=
    ⟨[], stringify d, [], no_ws, stringify_text d, no_ws, by simp⟩
  have hvalues : 0 + (tree d).values ≤ 16384 := by
    rw [Nat.zero_add]
    exact hcount
  exact read_reads rfl htext ⟨hnests.depth, hvalues, hnests.distinct, tree_paired d⟩ hsize

end KmVirtualCamera.L1.JsonWrite
