import Mathlib

/-!
# JSON texts (RFC 8259)

The grammar over Unicode characters, as a relation between a text and the tree
it is written from. A tree keeps what the grammar tells apart: a string is the
list of its characters and escapes, a number its text, an object its members
in order, equal keys included.

On a tree: its nesting depth, the number of its values, whether every
surrogate escape stands in a pair (`Tree.Paired`), what a string unescapes to
(`unescape`, meant for paired strings), and whether the keys of each object
are distinct once unescaped (`Tree.KeysDistinct`).
-/
namespace KmVirtualCamera.Rfc8259

/-! ## Strings -/

/-- One character of a string as written. -/
inductive Atom where
  | plain (c : Char)
  | short (c : Char)
  | code (n : Nat)
  deriving DecidableEq

/-- What may follow a backslash on its own, and the character it stands for. -/
def shorts : List (Char × Char) :=
  [('"', '"'), ('\\', '\\'), ('/', '/'), ('b', '\x08'), ('f', '\x0c'), ('n', '\n'), ('r', '\r'),
    ('t', '\t')]

def hexVal (c : Char) : Option Nat :=
  if 48 ≤ c.toNat ∧ c.toNat ≤ 57 then some (c.toNat - 48)
  else if 97 ≤ c.toNat ∧ c.toNat ≤ 102 then some (c.toNat - 87)
  else if 65 ≤ c.toNat ∧ c.toNat ≤ 70 then some (c.toNat - 55)
  else none

def hexFour (a b c d : Char) : Option Nat := do
  let i ← hexVal a
  let j ← hexVal b
  let k ← hexVal c
  let l ← hexVal d
  return ((i * 16 + j) * 16 + k) * 16 + l

inductive AtomText : List Char → Atom → Prop
  | plain {c : Char} : 0x20 ≤ c.toNat → c ≠ '"' → c ≠ '\\' → AtomText [c] (.plain c)
  | short {e c : Char} : (e, c) ∈ shorts → AtomText ['\\', e] (.short c)
  | code {a b c d : Char} {n : Nat} : hexFour a b c d = some n →
      AtomText ['\\', 'u', a, b, c, d] (.code n)

inductive AtomsText : List Char → List Atom → Prop
  | nil : AtomsText [] []
  | cons {t ts : List Char} {a : Atom} {as : List Atom} :
      AtomText t a → AtomsText ts as → AtomsText (t ++ ts) (a :: as)

def StringText (t : List Char) (as : List Atom) : Prop :=
  ∃ body, AtomsText body as ∧ t = '"' :: (body ++ ['"'])

def IsHigh (n : Nat) : Prop := 0xd800 ≤ n ∧ n ≤ 0xdbff
def IsLow (n : Nat) : Prop := 0xdc00 ≤ n ∧ n ≤ 0xdfff

instance instDecidableIsHigh (n : Nat) : Decidable (IsHigh n) := inferInstanceAs (Decidable (_ ∧ _))
instance instDecidableIsLow (n : Nat) : Decidable (IsLow n) := inferInstanceAs (Decidable (_ ∧ _))

/-- The character a high and a low surrogate stand for together. -/
def pairChar (hi lo : Nat) : Char := Char.ofNat (0x10000 + (hi - 0xd800) * 1024 + (lo - 0xdc00))

def Atom.IsSurrogate : Atom → Prop
  | .code n => IsHigh n ∨ IsLow n
  | _ => False

def Atom.char : Atom → Char
  | .plain c => c
  | .short c => c
  | .code n => Char.ofNat n

/-- Every surrogate escape is half of a pair, the high one first. -/
inductive Paired : List Atom → Prop
  | nil : Paired []
  | scalar {a : Atom} {as : List Atom} : ¬a.IsSurrogate → Paired as → Paired (a :: as)
  | pair {hi lo : Nat} {as : List Atom} : IsHigh hi → IsLow lo → Paired as →
      Paired (.code hi :: .code lo :: as)

/-- The characters a paired string stands for. -/
def unescape : List Atom → List Char
  | [] => []
  | .code hi :: .code lo :: as =>
    if IsHigh hi ∧ IsLow lo then pairChar hi lo :: unescape as
    else Char.ofNat hi :: unescape (.code lo :: as)
  | a :: as => a.char :: unescape as

theorem unescape_scalar {a : Atom} (h : ¬a.IsSurrogate) (as : List Atom) :
    unescape (a :: as) = a.char :: unescape as := by
  cases a with
  | plain c => cases as <;> simp [unescape]
  | short c => cases as <;> simp [unescape]
  | code n =>
    have hn : ¬IsHigh n := fun hh => h (Or.inl hh)
    cases as with
    | nil => simp [unescape]
    | cons b bs => cases b <;> simp [unescape, hn, Atom.char]

theorem unescape_pair {hi lo : Nat} (hh : IsHigh hi) (hl : IsLow lo) (as : List Atom) :
    unescape (.code hi :: .code lo :: as) = pairChar hi lo :: unescape as := by
  simp [unescape, hh, hl]

/-- The atoms that stand for one character. -/
inductive Piece : List Atom → Char → Prop
  | scalar {a : Atom} : ¬a.IsSurrogate → Piece [a] a.char
  | pair {hi lo : Nat} : IsHigh hi → IsLow lo → Piece [.code hi, .code lo] (pairChar hi lo)

theorem Piece.paired {p : List Atom} {ch : Char} (h : Piece p ch) {as : List Atom} (ha : Paired as) :
    Paired (p ++ as) ∧ unescape (p ++ as) = ch :: unescape as := by
  cases h with
  | scalar hs => exact ⟨.scalar hs ha, unescape_scalar hs as⟩
  | pair hh hl => exact ⟨.pair hh hl ha, unescape_pair hh hl as⟩

theorem AtomsText.append {t u : List Char} {as bs : List Atom} (h : AtomsText t as)
    (h' : AtomsText u bs) : AtomsText (t ++ u) (as ++ bs) := by
  induction h with
  | nil => exact h'
  | cons ha _ ih =>
    rw [List.append_assoc]
    exact .cons ha ih

theorem AtomText.single {t : List Char} {a : Atom} (h : AtomText t a) : AtomsText t [a] := by
  simpa using AtomsText.cons h .nil

/-- A paired string is read piece by piece. -/
theorem AtomsText.pieces {body : List Char} {as : List Atom} (h : AtomsText body as)
    (hp : Paired as) : as = [] ∧ body = [] ∨ ∃ t p ch body' as', AtomsText t p ∧ Piece p ch ∧
      AtomsText body' as' ∧ Paired as' ∧ body = t ++ body' ∧ as = p ++ as' := by
  cases hp with
  | nil =>
    cases h
    exact Or.inl ⟨rfl, rfl⟩
  | scalar hs ha =>
    cases h with
    | cons ht hts => exact Or.inr ⟨_, _, _, _, _, ht.single, .scalar hs, hts, ha, rfl, rfl⟩
  | pair hh hl ha =>
    cases h with
    | cons ht hts =>
      cases hts with
      | cons ht' hts' =>
        exact Or.inr ⟨_, _, _, _, _, ht.single.append ht'.single, .pair hh hl, hts', ha, by simp, rfl⟩

/-! ## Numbers -/

def IsDigit (c : Char) : Prop := 48 ≤ c.toNat ∧ c.toNat ≤ 57

instance instDecidableIsDigit (c : Char) : Decidable (IsDigit c) :=
  inferInstanceAs (Decidable (_ ∧ _))

/-- `int`: a zero alone, or digits that do not start with one. -/
def IntText (t : List Char) : Prop :=
  t = ['0'] ∨ ∃ c cs, t = c :: cs ∧ c ≠ '0' ∧ ∀ d ∈ t, IsDigit d

def Digits (t : List Char) : Prop := t ≠ [] ∧ ∀ c ∈ t, IsDigit c

def FracText (t : List Char) : Prop := t = [] ∨ ∃ ds, Digits ds ∧ t = '.' :: ds

def SignText (t : List Char) : Prop := t = [] ∨ t = ['+'] ∨ t = ['-']

def ExpText (t : List Char) : Prop :=
  t = [] ∨ ∃ e sign ds, (e = 'e' ∨ e = 'E') ∧ SignText sign ∧ Digits ds ∧ t = e :: (sign ++ ds)

def NumberText (t : List Char) : Prop :=
  ∃ minus int frac exp, (minus = [] ∨ minus = ['-']) ∧ IntText int ∧ FracText frac ∧ ExpText exp ∧
    t = minus ++ (int ++ (frac ++ exp))

/-! ## Values -/

inductive Tree where
  | null
  | bool (b : Bool)
  | number (text : List Char)
  | string (atoms : List Atom)
  | array (elems : List Tree)
  | object (members : List (List Atom × Tree))

def IsWs (c : Char) : Prop := c = ' ' ∨ c = '\t' ∨ c = '\n' ∨ c = '\r'

instance instDecidableIsWs (c : Char) : Decidable (IsWs c) :=
  inferInstanceAs (Decidable (_ ∨ _ ∨ _ ∨ _))

def Ws (w : List Char) : Prop := ∀ c ∈ w, IsWs c

mutual

inductive ValueText : List Char → Tree → Prop
  | null : ValueText ['n', 'u', 'l', 'l'] .null
  | true : ValueText ['t', 'r', 'u', 'e'] (.bool Bool.true)
  | false : ValueText ['f', 'a', 'l', 's', 'e'] (.bool Bool.false)
  | number {t : List Char} : NumberText t → ValueText t (.number t)
  | string {t : List Char} {as : List Atom} : StringText t as → ValueText t (.string as)
  | emptyArray {w : List Char} : Ws w → ValueText ('[' :: (w ++ [']'])) (.array [])
  | array {t : List Char} {es : List Tree} : ElemsText t es → ValueText ('[' :: (t ++ [']'])) (.array es)
  | emptyObject {w : List Char} : Ws w → ValueText ('{' :: (w ++ ['}'])) (.object [])
  | object {t : List Char} {ms : List (List Atom × Tree)} : MembersText t ms →
      ValueText ('{' :: (t ++ ['}'])) (.object ms)

/-- At least one element, with commas between. -/
inductive ElemsText : List Char → List Tree → Prop
  | one {w t w' : List Char} {e : Tree} : Ws w → ValueText t e → Ws w' →
      ElemsText (w ++ (t ++ w')) [e]
  | cons {w t w' ts : List Char} {e : Tree} {es : List Tree} : Ws w → ValueText t e → Ws w' →
      ElemsText ts es → ElemsText (w ++ (t ++ (w' ++ ',' :: ts))) (e :: es)

/-- At least one member, with commas between. -/
inductive MembersText : List Char → List (List Atom × Tree) → Prop
  | one {w k v t w' u : List Char} {key : List Atom} {e : Tree} : Ws w → StringText k key → Ws v →
      Ws u → ValueText t e → Ws w' →
      MembersText (w ++ (k ++ (v ++ ':' :: (u ++ (t ++ w'))))) [(key, e)]
  | cons {w k v t w' u ts : List Char} {key : List Atom} {e : Tree}
      {ms : List (List Atom × Tree)} : Ws w → StringText k key → Ws v → Ws u → ValueText t e →
      Ws w' → MembersText ts ms →
      MembersText (w ++ (k ++ (v ++ ':' :: (u ++ (t ++ (w' ++ ',' :: ts)))))) ((key, e) :: ms)

end

def JsonText (t : List Char) (e : Tree) : Prop :=
  ∃ w v w', Ws w ∧ ValueText v e ∧ Ws w' ∧ t = w ++ (v ++ w')

theorem Ws.append {w w' : List Char} (h : Ws w) (h' : Ws w') : Ws (w ++ w') := by
  intro c hc
  rcases List.mem_append.mp hc with hc | hc
  · exact h c hc
  · exact h' c hc

theorem ElemsText.space {w t : List Char} {es : List Tree} (h : ElemsText t es) (hw : Ws w) :
    ElemsText (w ++ t) es := by
  cases h with
  | one h1 h2 h3 =>
    rw [← List.append_assoc]
    exact .one (hw.append h1) h2 h3
  | cons h1 h2 h3 h4 =>
    rw [← List.append_assoc]
    exact .cons (hw.append h1) h2 h3 h4

theorem MembersText.space {w t : List Char} {ms : List (List Atom × Tree)} (h : MembersText t ms)
    (hw : Ws w) : MembersText (w ++ t) ms := by
  cases h with
  | one h1 h2 h3 h4 h5 h6 =>
    rw [← List.append_assoc]
    exact .one (hw.append h1) h2 h3 h4 h5 h6
  | cons h1 h2 h3 h4 h5 h6 h7 =>
    rw [← List.append_assoc]
    exact .cons (hw.append h1) h2 h3 h4 h5 h6 h7

/-! ## Writers -/

/-- `w` writes each character as an atom that stands for it. -/
def Writes (w : Char → List Char × Atom) : Prop :=
  ∀ c, AtomText (w c).1 (w c).2 ∧ ¬(w c).2.IsSurrogate ∧ (w c).2.char = c

section
variable {w : Char → List Char × Atom}

theorem Writes.text (h : Writes w) (cs : List Char) :
    StringText ('"' :: (cs.flatMap (fun c => (w c).1) ++ ['"'])) (cs.map fun c => (w c).2) := by
  refine ⟨_, ?_, rfl⟩
  induction cs with
  | nil => exact .nil
  | cons c cs ih => exact .cons (h c).1 ih

theorem Writes.paired (h : Writes w) (cs : List Char) : Paired (cs.map fun c => (w c).2) := by
  induction cs with
  | nil => exact .nil
  | cons c cs ih => exact .scalar (h c).2.1 ih

theorem Writes.unescape (h : Writes w) (cs : List Char) :
    Rfc8259.unescape (cs.map fun c => (w c).2) = cs := by
  induction cs with
  | nil => rfl
  | cons c cs ih => rw [List.map_cons, unescape_scalar (h c).2.1, (h c).2.2, ih]

end

/-! ## Measures of a tree -/

mutual

/-- How far the values below the root nest. -/
def Tree.depth : Tree → Nat
  | .array es => depthElems es
  | .object ms => depthMembers ms
  | _ => 0

def depthElems : List Tree → Nat
  | [] => 0
  | e :: es => max (e.depth + 1) (depthElems es)

def depthMembers : List (List Atom × Tree) → Nat
  | [] => 0
  | (_, e) :: ms => max (e.depth + 1) (depthMembers ms)

end

mutual

/-- The number of values, the root among them. -/
def Tree.values : Tree → Nat
  | .array es => valuesElems es + 1
  | .object ms => valuesMembers ms + 1
  | _ => 1

def valuesElems : List Tree → Nat
  | [] => 0
  | e :: es => e.values + valuesElems es

def valuesMembers : List (List Atom × Tree) → Nat
  | [] => 0
  | (_, e) :: ms => e.values + valuesMembers ms

end

mutual

def Tree.Paired : Tree → Prop
  | .string as => Rfc8259.Paired as
  | .array es => pairedElems es
  | .object ms => pairedMembers ms
  | _ => True

def pairedElems : List Tree → Prop
  | [] => True
  | e :: es => e.Paired ∧ pairedElems es

def pairedMembers : List (List Atom × Tree) → Prop
  | [] => True
  | (key, e) :: ms => Rfc8259.Paired key ∧ e.Paired ∧ pairedMembers ms

end

mutual

def Tree.KeysDistinct : Tree → Prop
  | .array es => distinctElems es
  | .object ms => (ms.map fun m => unescape m.1).Nodup ∧ distinctMembers ms
  | _ => True

def distinctElems : List Tree → Prop
  | [] => True
  | e :: es => e.KeysDistinct ∧ distinctElems es

def distinctMembers : List (List Atom × Tree) → Prop
  | [] => True
  | (_, e) :: ms => e.KeysDistinct ∧ distinctMembers ms

end

end KmVirtualCamera.Rfc8259
