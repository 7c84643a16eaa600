import Mathlib
import KmVirtualCamera.Core.ByteOrder

/-!
# H.264 access units on the wire (`shared/km/h264.h`)

An access unit is a byte string holding a sequence of NAL units, in Annex-B
form (each behind a `00 00 01` or `00 00 00 01` start code) or, from legacy
senders, each behind a four-byte big-endian length.

The source works on positions `p` in a span `b`; the model works on the bytes
from there on, so `StartCode(b, p)` is `startCode (b.drop p)` and an index out
of range cannot be written. The two scanning loops of `SplitAnnexB` are
`skipZeros` and `untilStartCode`, its outer loop is `splitLoop`.

* `splitAnnexB_annexB`: the splitter inverts `AppendAnnexB` on clean units.
* `splitAnnexB_sound`: whatever it accepts is between 1 and 1024 valid, clean units.
* `splitAnnexB_annexB_iff`: so those two conditions are exactly when it does.
* `splitLengthPrefixed4_avcc`, `avcc_startCode`: the length-prefixed form, and
  the only first lengths that can read as a start code (1 and 256..511).
-/
namespace KmVirtualCamera.L1.H264
open KmVirtualCamera.ByteOrder

abbrev Bytes := List UInt8

def kMaxAccessUnitBytes : Nat := 4 * 1024 * 1024
def kMaxNalus : Nat := 1024

/-- mirrors shared/km/h264.h:11-17 -/
def startCode (b : Bytes) : Nat :=
  if b.take 3 = [0, 0, 1] then 3
  else if b.take 4 = [0, 0, 0, 1] then 4
  else 0

/-- mirrors shared/km/h264.h:18-20 -/
def validNalu : Bytes → Bool
  | [] => false
  | h :: _ => h &&& 0x80 == 0 && decide (0 < h &&& 31) && decide (h &&& 31 < 24)

/-- `n[0] & 31` of a non-empty unit. -/
def naluType (n : Bytes) : UInt8 := n.headD 0 &&& 31

/-- mirrors shared/km/h264.h:26 -/
def skipZeros : Bytes → Bytes
  | [] => []
  | x :: t => if startCode (x :: t) = 0 ∧ x = 0 then skipZeros t else x :: t

/-- The bytes before the next start code, and the rest from there.
mirrors shared/km/h264.h:32-33 -/
def untilStartCode : Bytes → Bytes × Bytes
  | [] => ([], [])
  | x :: t =>
    if startCode (x :: t) = 0 then (x :: (untilStartCode t).1, (untilStartCode t).2)
    else ([], x :: t)

/-- Annex-B `trailing_zero_8bits` are not part of the unit.
mirrors shared/km/h264.h:34-35 -/
def trimZeros (n : Bytes) : Bytes := n.rdropWhile (· == 0)

/-- The outer loop of `SplitAnnexB`; `count` units are already in the output.
Every turn consumes a start code, so `fuel` = the bytes left never runs out.
mirrors shared/km/h264.h:28-40 -/
def splitLoop : Nat → Nat → Bytes → Option (List Bytes)
  | _, _, [] => some []
  | 0, _, _ :: _ => none
  | fuel + 1, count, x :: t =>
    if startCode (x :: t) = 0 then none
    else
      let s := untilStartCode ((x :: t).drop (startCode (x :: t)))
      if validNalu (trimZeros s.1) = false ∨ count = kMaxNalus then none
      else (splitLoop fuel (count + 1) s.2).map (trimZeros s.1 :: ·)

/-- mirrors shared/km/h264.h:22-42 -/
def splitAnnexB (b : Bytes) : Option (List Bytes) :=
  if b = [] ∨ b.length > kMaxAccessUnitBytes then none
  else
    let p := skipZeros b
    if startCode p = 0 then none
    else (splitLoop p.length 0 p).filter fun ns => !ns.isEmpty

/-- mirrors shared/km/h264.h:47-56 -/
def splitLengthLoop : Nat → Nat → Bytes → Option (List Bytes)
  | _, _, [] => some []
  | fuel + 1, count, b0 :: b1 :: b2 :: b3 :: t =>
    let n := (be32 b0 b1 b2 b3).toNat
    if n = 0 ∨ t.length < n ∨ count = kMaxNalus ∨ validNalu (t.take n) = false then none
    else (splitLengthLoop fuel (count + 1) (t.drop n)).map (t.take n :: ·)
  | _, _, _ => none

/-- mirrors shared/km/h264.h:43-58 -/
def splitLengthPrefixed4 (b : Bytes) : Option (List Bytes) :=
  if b = [] ∨ b.length > kMaxAccessUnitBytes then none
  else (splitLengthLoop b.length 0 b).filter fun ns => !ns.isEmpty

/-- mirrors shared/km/h264.h:59-61 -/
def appendAnnexB (out n : Bytes) : Bytes := out ++ [0, 0, 0, 1] ++ n

/-- The bytes `AppendAnnexB` makes of a list of units. -/
def annexB (ns : List Bytes) : Bytes := ns.flatMap fun n => [0, 0, 0, 1] ++ n

/-- The four-byte length-prefixed form of a list of units.
mirrors shared/km/h264.h:62-72 -/
def avcc (ns : List Bytes) : Bytes := ns.flatMap fun n => be32Bytes n.length ++ n

/-- A unit that no byte-level reading of Annex-B can cut or shorten. -/
structure Clean (n : Bytes) : Prop where
  noCode : ¬ [0, 0, 1] <:+: n
  last : n.getLast? ≠ some 0

instance (n : Bytes) : Decidable (Clean n) :=
  decidable_of_iff (¬ [0, 0, 1] <:+: n ∧ n.getLast? ≠ some 0)
    ⟨fun h => ⟨h.1, h.2⟩, fun h => ⟨h.1, h.2⟩⟩

/-! ## Start codes -/

theorem startCode_le (b : Bytes) : startCode b ≤ b.length := by
  unfold startCode
  split
  · rename_i h; have := congrArg List.length h; simp at this; omega
  · split
    · rename_i h; have := congrArg List.length h; simp at this; omega
    · omega

theorem startCode_ge {b : Bytes} (h : startCode b ≠ 0) : 3 ≤ startCode b := by
  unfold startCode at h ⊢
  split
  · exact Nat.le_refl _
  · split
    · decide
    · simp_all

@[simp] theorem startCode_annexB_cons (t : Bytes) : startCode (0 :: 0 :: 0 :: 1 :: t) = 4 := by
  simp [startCode]

@[simp] theorem startCode_nil : startCode [] = 0 := by simp [startCode]

theorem startCode_head {x : UInt8} {t : Bytes} (h : startCode (x :: t) ≠ 0) : x = 0 := by
  unfold startCode at h
  split at h
  · rename_i h3; simp at h3; exact h3.1
  · split at h
    · rename_i h4; simp at h4; exact h4.1
    · exact absurd rfl h

/-! ## Scanning one unit -/

theorem untilStartCode_append (b : Bytes) : (untilStartCode b).1 ++ (untilStartCode b).2 = b := by
  induction b with
  | nil => rfl
  | cons x t ih =>
    unfold untilStartCode
    split
    · simp [ih]
    · rfl

theorem untilStartCode_noCode (b : Bytes) : ¬ [0, 0, 1] <:+: (untilStartCode b).1 := by
  induction b with
  | nil => simp [untilStartCode]
  | cons x t ih =>
    unfold untilStartCode
    split
    · rename_i h0
      intro hin
      rcases List.infix_cons_iff.mp hin with hp | hi
      · obtain ⟨c, hc⟩ := hp
        have hb : x :: t = [0, 0, 1] ++ (c ++ (untilStartCode t).2) := by
          have := untilStartCode_append t
          rw [← List.append_assoc, hc, List.cons_append, this]
        rw [hb] at h0
        simp [startCode] at h0
      · exact ih hi
    · simp

/-- In a clean unit followed by a start code (or by nothing) no start code
begins: not inside, and not across its end, whose last byte is not zero. -/
theorem startCode_clean_append {x : UInt8} {t : Bytes} (rest : Bytes) (h : Clean (x :: t)) :
    startCode ((x :: t) ++ rest) = 0 := by
  obtain ⟨hc, hl⟩ := h
  by_contra hne
  have hpre : [0, 0, 1] <+: (x :: t) ++ rest ∨ [0, 0, 0, 1] <+: (x :: t) ++ rest := by
    unfold startCode at hne
    split at hne
    · rename_i h3; exact Or.inl (h3 ▸ List.take_prefix _ _)
    · split at hne
      · rename_i h4; exact Or.inr (h4 ▸ List.take_prefix _ _)
      · exact absurd rfl hne
  match t with
  | [] => simp at hl; rcases hpre with ⟨c, hc⟩ | ⟨c, hc⟩ <;> simp at hc <;> exact hl hc.1.symm
  | [y] => simp at hl; rcases hpre with ⟨c, hc⟩ | ⟨c, hc⟩ <;> simp at hc <;> exact hl hc.2.1.symm
  | [y, z] =>
    rcases hpre with ⟨c, hc'⟩ | ⟨c, hc'⟩
    · simp at hc'
      obtain ⟨rfl, rfl, rfl, -⟩ := hc'
      exact hc ⟨[], [], rfl⟩
    · simp at hc' hl; exact hl hc'.2.2.1.symm
  | y :: z :: w :: u =>
    rcases hpre with ⟨c, hc'⟩ | ⟨c, hc'⟩
    · simp at hc'
      obtain ⟨rfl, rfl, rfl, -⟩ := hc'
      exact hc ⟨[], w :: u, rfl⟩
    · simp at hc'
      obtain ⟨rfl, rfl, rfl, rfl, -⟩ := hc'
      exact hc ⟨[0], u, rfl⟩

theorem Clean.tail {x y : UInt8} {t : Bytes} (h : Clean (x :: y :: t)) : Clean (y :: t) :=
  ⟨fun hi => h.noCode (List.infix_cons hi), by simpa using h.last⟩

theorem untilStartCode_clean : ∀ {n rest : Bytes}, n ≠ [] → Clean n →
    (rest = [] ∨ startCode rest ≠ 0) → untilStartCode (n ++ rest) = (n, rest)
  | [], _, h, _, _ => absurd rfl h
  | [x], rest, _, hc, hr => by
    have h0 := startCode_clean_append rest hc
    have hrest : untilStartCode rest = ([], rest) := by
      cases rest with
      | nil => rfl
      | cons y u =>
        rcases hr with hr | hr
        · cases hr
        · simp only [untilStartCode, if_neg hr]
    rw [List.singleton_append] at h0 ⊢
    simp only [untilStartCode, if_pos h0, hrest]
  | x :: y :: t, rest, _, hc, hr => by
    have h0 := startCode_clean_append rest hc
    have ih := untilStartCode_clean (by simp) hc.tail hr
    rw [List.cons_append] at h0 ⊢
    simp only [untilStartCode, if_pos h0, ih]

theorem trimZeros_clean {n : Bytes} (h : Clean n) : trimZeros n = n := by
  unfold trimZeros
  rw [List.rdropWhile_eq_self_iff]
  intro hne
  have := h.last
  rw [List.getLast?_eq_getLast_of_ne_nil hne] at this
  simpa using this

theorem trimZeros_last (n : Bytes) : (trimZeros n).getLast? ≠ some 0 := by
  unfold trimZeros
  by_cases h : n.rdropWhile (· == 0) = []
  · simp [h]
  · have := List.rdropWhile_last_not (· == 0) n h
    rw [List.getLast?_eq_getLast_of_ne_nil h]
    simpa using this

theorem trimZeros_isPrefix (n : Bytes) : trimZeros n <+: n := List.rdropWhile_prefix _ _

/-! ## Annex-B round trip -/

@[simp] theorem annexB_nil : annexB [] = [] := rfl

theorem annexB_cons (n : Bytes) (ns : List Bytes) :
    annexB (n :: ns) = 0 :: 0 :: 0 :: 1 :: (n ++ annexB ns) := rfl

theorem annexB_append (as bs : List Bytes) : annexB (as ++ bs) = annexB as ++ annexB bs := by
  simp [annexB]

/-- Folding `AppendAnnexB` over a list of units. -/
theorem foldl_appendAnnexB (ns : List Bytes) (out : Bytes) :
    ns.foldl appendAnnexB out = out ++ annexB ns := by
  induction ns generalizing out with
  | nil => simp
  | cons n ns ih => simp [ih, appendAnnexB, annexB_cons]

theorem length_annexB (ns : List Bytes) :
    (annexB ns).length = (ns.map List.length).sum + 4 * ns.length := by
  induction ns with
  | nil => rfl
  | cons n ns ih => simp only [annexB_cons, List.length_cons, List.length_append, ih, List.map_cons,
      List.sum_cons]; omega

theorem annexB_rest (ns : List Bytes) : annexB ns = [] ∨ startCode (annexB ns) ≠ 0 := by
  cases ns with
  | nil => exact Or.inl rfl
  | cons n ns => right; rw [annexB_cons]; simp

theorem validNalu_ne_nil {n : Bytes} (h : validNalu n = true) : n ≠ [] := by
  rintro rfl; simp [validNalu] at h

theorem splitLoop_annexB : ∀ (ns : List Bytes) (fuel count : Nat),
    (∀ n ∈ ns, validNalu n = true ∧ Clean n) → count + ns.length ≤ kMaxNalus → ns.length ≤ fuel →
    splitLoop fuel count (annexB ns) = some ns
  | [], fuel, _, _, _, _ => by cases fuel <;> simp [splitLoop]
  | n :: ns, 0, _, _, _, hf => by simp at hf
  | n :: ns, fuel + 1, count, hns, hc, hf => by
    obtain ⟨hv, hcl⟩ := hns n (List.mem_cons_self ..)
    simp only [List.length_cons] at hc hf
    have ih := splitLoop_annexB ns fuel (count + 1)
      (fun m hm => hns m (List.mem_cons_of_mem _ hm)) (by omega) (by omega)
    have hu := untilStartCode_clean (validNalu_ne_nil hv) hcl (annexB_rest ns)
    have hcount : count ≠ kMaxNalus := by omega
    rw [annexB_cons]
    simp only [splitLoop, startCode_annexB_cons, List.drop_succ_cons, List.drop_zero, hu,
      trimZeros_clean hcl, hv, ih]
    simp [hcount]

theorem length_le_annexB (ns : List Bytes) : ns.length ≤ (annexB ns).length := by
  rw [length_annexB]; omega

/-- **Round trip.** -/
theorem splitAnnexB_annexB (ns : List Bytes) (hne : ns ≠ [])
    (hns : ∀ n ∈ ns, validNalu n = true ∧ Clean n) (hlen : ns.length ≤ kMaxNalus)
    (hsize : (annexB ns).length ≤ kMaxAccessUnitBytes) : splitAnnexB (annexB ns) = some ns := by
  obtain ⟨n, t, rfl⟩ := List.exists_cons_of_ne_nil hne
  have hsp := splitLoop_annexB (n :: t) (annexB (n :: t)).length 0 hns (by omega)
    (length_le_annexB _)
  have hskip : skipZeros (annexB (n :: t)) = annexB (n :: t) := by
    rw [annexB_cons]; simp [skipZeros]
  have hne' : annexB (n :: t) ≠ [] := by rw [annexB_cons]; simp
  unfold splitAnnexB
  rw [if_neg (by simp only [hne', false_or]; omega)]
  simp only [hskip]
  rw [if_neg (by rw [annexB_cons]; simp), hsp]
  simp

/-- What the outer loop returns is valid and clean, and fits the bound. -/
theorem splitLoop_sound : ∀ (fuel count : Nat) (b : Bytes) (ns : List Bytes),
    count ≤ kMaxNalus → splitLoop fuel count b = some ns →
    count + ns.length ≤ kMaxNalus ∧ ∀ n ∈ ns, validNalu n = true ∧ Clean n
  | fuel, count, [], ns, hc, h => by
    cases fuel <;> simp [splitLoop] at h <;> subst h <;> simpa using hc
  | 0, _, _ :: _, _, _, h => by simp [splitLoop] at h
  | fuel + 1, count, x :: t, ns, hc, h => by
    simp only [splitLoop] at h
    split at h
    · cases h
    · split at h
      · cases h
      · rename_i hgood
        obtain ⟨rest, hrest, rfl⟩ := Option.map_eq_some_iff.mp h
        simp only [not_or, Bool.not_eq_false] at hgood
        obtain ⟨hv, hne⟩ := hgood
        obtain ⟨hl, hall⟩ := splitLoop_sound fuel (count + 1) _ rest (by omega) hrest
        refine ⟨by simp only [List.length_cons]; omega, ?_⟩
        intro n hn
        rcases List.mem_cons.mp hn with rfl | hn
        · refine ⟨hv, ?_, trimZeros_last _⟩
          intro hi
          exact untilStartCode_noCode _ (hi.trans (trimZeros_isPrefix _).isInfix)
        · exact hall n hn

/-- The units take no more room than the input, each start code being three
bytes or more. -/
theorem splitLoop_size : ∀ (fuel count : Nat) (b : Bytes) (ns : List Bytes),
    splitLoop fuel count b = some ns → (ns.map List.length).sum + 3 * ns.length ≤ b.length
  | fuel, count, [], ns, h => by
    cases fuel <;> simp [splitLoop] at h <;> subst h <;> simp
  | 0, _, _ :: _, _, h => by simp [splitLoop] at h
  | fuel + 1, count, x :: t, ns, h => by
    simp only [splitLoop] at h
    split at h
    · cases h
    · rename_i hsc
      split at h
      · cases h
      · obtain ⟨rest, hrest, rfl⟩ := Option.map_eq_some_iff.mp h
        have ih := splitLoop_size fuel (count + 1) _ rest hrest
        have h3 := startCode_ge hsc
        have happ := congrArg List.length
          (untilStartCode_append ((x :: t).drop (startCode (x :: t))))
        have htrim := (trimZeros_isPrefix (untilStartCode ((x :: t).drop (startCode (x :: t)))).1).length_le
        have hle := startCode_le (x :: t)
        rw [List.length_append, List.length_drop] at happ
        simp only [List.map_cons, List.sum_cons, List.length_cons] at *
        omega

theorem skipZeros_length_le (b : Bytes) : (skipZeros b).length ≤ b.length := by
  induction b with
  | nil => simp [skipZeros]
  | cons x t ih =>
    unfold skipZeros
    split
    · simp only [List.length_cons]; omega
    · exact Nat.le_refl _

theorem splitAnnexB_size {b : Bytes} {ns : List Bytes} (h : splitAnnexB b = some ns) :
    (ns.map List.length).sum + 3 * ns.length ≤ b.length := by
  unfold splitAnnexB at h
  split at h
  · cases h
  · simp only at h
    split at h
    · cases h
    · obtain ⟨hs, -⟩ := Option.filter_eq_some_iff.mp h
      have := splitLoop_size _ _ _ _ hs
      have := skipZeros_length_le b
      omega

theorem splitAnnexB_sound {b : Bytes} {ns : List Bytes} (h : splitAnnexB b = some ns) :
    ns ≠ [] ∧ ns.length ≤ kMaxNalus ∧ ∀ n ∈ ns, validNalu n = true ∧ Clean n := by
  unfold splitAnnexB at h
  split at h
  · cases h
  · simp only at h
    split at h
    · cases h
    · obtain ⟨hs, hne⟩ := Option.filter_eq_some_iff.mp h
      obtain ⟨hl, hall⟩ := splitLoop_sound _ 0 _ ns (by decide) hs
      exact ⟨by simpa using hne, by omega, hall⟩

/-- The splitter returns the very units that were appended exactly when they
are clean and there are at most 1024 of them. -/
theorem splitAnnexB_annexB_iff (ns : List Bytes) (hne : ns ≠ [])
    (hv : ∀ n ∈ ns, validNalu n = true) (hsize : (annexB ns).length ≤ kMaxAccessUnitBytes) :
    splitAnnexB (annexB ns) = some ns ↔ ns.length ≤ kMaxNalus ∧ ∀ n ∈ ns, Clean n := by
  constructor
  · intro h
    obtain ⟨-, hl, hall⟩ := splitAnnexB_sound h
    exact ⟨hl, fun n hn => (hall n hn).2⟩
  · rintro ⟨hl, hc⟩
    exact splitAnnexB_annexB ns hne (fun n hn => ⟨hv n hn, hc n hn⟩) hl hsize

/-! ## The length-prefixed form -/

theorem avcc_cons (n : Bytes) (ns : List Bytes) : avcc (n :: ns) = be32Bytes n.length ++ (n ++ avcc ns) := by
  simp [avcc]

theorem length_avcc (ns : List Bytes) : (avcc ns).length = (annexB ns).length := by
  induction ns with
  | nil => rfl
  | cons n ns ih => simp [avcc_cons, annexB_cons, be32Bytes, ih]

theorem splitLengthLoop_avcc : ∀ (ns : List Bytes) (fuel count : Nat),
    (∀ n ∈ ns, validNalu n = true ∧ n.length < 2 ^ 32) → count + ns.length ≤ kMaxNalus →
    ns.length ≤ fuel → splitLengthLoop fuel count (avcc ns) = some ns
  | [], fuel, _, _, _, _ => by cases fuel <;> simp [avcc, splitLengthLoop]
  | n :: ns, 0, _, _, _, hf => by simp at hf
  | n :: ns, fuel + 1, count, hns, hc, hf => by
    obtain ⟨hv, hlt⟩ := hns n (List.mem_cons_self ..)
    simp only [List.length_cons] at hc hf
    have ih := splitLengthLoop_avcc ns fuel (count + 1)
      (fun m hm => hns m (List.mem_cons_of_mem _ hm)) (by omega) (by omega)
    obtain ⟨b0, b1, b2, b3, hb⟩ : ∃ b0 b1 b2 b3, be32Bytes n.length = [b0, b1, b2, b3] :=
      ⟨_, _, _, _, rfl⟩
    have hn := be32_be32Bytes hlt hb
    have h0 : n.length ≠ 0 := fun h => validNalu_ne_nil hv (List.length_eq_zero_iff.mp h)
    have hcount : count ≠ kMaxNalus := by omega
    rw [avcc_cons, hb]
    simp only [List.cons_append, List.nil_append, splitLengthLoop, hn, List.take_left', List.drop_left',
      hv, ih, List.length_append, h0, hcount]
    simp

/-- **Round trip** of the length-prefixed form. -/
theorem splitLengthPrefixed4_avcc (ns : List Bytes) (hne : ns ≠ [])
    (hns : ∀ n ∈ ns, validNalu n = true) (hlen : ns.length ≤ kMaxNalus)
    (hsize : (avcc ns).length ≤ kMaxAccessUnitBytes) : splitLengthPrefixed4 (avcc ns) = some ns := by
  have hlong : ∀ n ∈ ns, n.length < 2 ^ 32 := by
    intro n hn
    have h1 : n.length ≤ (ns.map List.length).sum :=
      List.le_sum_of_mem (List.mem_map_of_mem hn)
    rw [length_avcc, length_annexB] at hsize
    simp only [kMaxAccessUnitBytes] at hsize
    omega
  have hs := splitLengthLoop_avcc ns (avcc ns).length 0 (fun n hn => ⟨hns n hn, hlong n hn⟩)
    (by omega) (by rw [length_avcc]; exact length_le_annexB ns)
  have hne' : avcc ns ≠ [] := by
    obtain ⟨n, t, rfl⟩ := List.exists_cons_of_ne_nil hne
    simp [avcc_cons, be32Bytes]
  unfold splitLengthPrefixed4
  rw [if_neg (by simp only [hne', false_or]; omega), hs]
  simp [hne]

/-- What the length-prefixed splitter returns is valid and fits the bounds;
nothing is said about the bytes inside a unit. -/
theorem splitLengthLoop_sound : ∀ (fuel count : Nat) (b : Bytes) (ns : List Bytes),
    count ≤ kMaxNalus → splitLengthLoop fuel count b = some ns →
    count + ns.length ≤ kMaxNalus ∧ (∀ n ∈ ns, validNalu n = true) ∧
      (ns.map List.length).sum + 4 * ns.length ≤ b.length
  | fuel, count, [], ns, hc, h => by
    cases fuel <;> simp [splitLengthLoop] at h <;> subst h <;> simpa using hc
  | 0, _, _ :: _, _, _, h => by simp [splitLengthLoop] at h
  | _ + 1, _, [_], _, _, h => by simp [splitLengthLoop] at h
  | _ + 1, _, [_, _], _, _, h => by simp [splitLengthLoop] at h
  | _ + 1, _, [_, _, _], _, _, h => by simp [splitLengthLoop] at h
  | fuel + 1, count, b0 :: b1 :: b2 :: b3 :: t, ns, hc, h => by
    simp only [splitLengthLoop] at h
    split at h
    · cases h
    · rename_i hgood
      obtain ⟨rest, hrest, rfl⟩ := Option.map_eq_some_iff.mp h
      simp only [not_or, Bool.not_eq_false] at hgood
      obtain ⟨-, hlen, hne, hv⟩ := hgood
      obtain ⟨hl, hall, hsz⟩ := splitLengthLoop_sound fuel (count + 1) _ rest (by omega) hrest
      refine ⟨by simp only [List.length_cons]; omega, ?_, ?_⟩
      · intro n hn
        rcases List.mem_cons.mp hn with rfl | hn
        · exact hv
        · exact hall n hn
      · simp only [List.length_drop, List.map_cons, List.sum_cons, List.length_cons,
          List.length_take] at hsz ⊢
        omega

theorem splitLengthPrefixed4_sound {b : Bytes} {ns : List Bytes}
    (h : splitLengthPrefixed4 b = some ns) :
    ns ≠ [] ∧ ns.length ≤ kMaxNalus ∧ (∀ n ∈ ns, validNalu n = true) ∧
      (ns.map List.length).sum + 4 * ns.length ≤ b.length := by
  unfold splitLengthPrefixed4 at h
  split at h
  · cases h
  · obtain ⟨hs, hne⟩ := Option.filter_eq_some_iff.mp h
    obtain ⟨hl, hall⟩ := splitLengthLoop_sound _ 0 _ ns (by decide) hs
    exact ⟨by simpa using hne, by omega, hall⟩

/-- Four bytes that neither are a start code nor lead to one by zeros. -/
theorem skipZeros_startCode {b0 b1 b2 b3 : UInt8} {t : Bytes}
    (hz : ¬ (b0 = 0 ∧ b1 = 0 ∧ b2 = 0 ∧ b3 = 0)) (h3 : ¬ (b0 = 0 ∧ b1 = 0 ∧ b2 = 1))
    (h4 : ¬ (b0 = 0 ∧ b1 = 0 ∧ b2 = 0 ∧ b3 = 1)) :
    startCode (skipZeros (b0 :: b1 :: b2 :: b3 :: t)) = 0 := by
  have nz : ∀ {x : UInt8} {u : Bytes}, x ≠ 0 → startCode (x :: u) = 0 := fun hx => by
    by_contra h; exact hx (startCode_head h)
  by_cases e0 : b0 = 0
  · subst e0
    by_cases e1 : b1 = 0
    · subst e1
      by_cases e2 : b2 = 0
      · subst e2
        have e3 : b3 ≠ 0 := fun h => hz ⟨rfl, rfl, rfl, h⟩
        have e3' : b3 ≠ 1 := fun h => h4 ⟨rfl, rfl, rfl, h⟩
        have s0 : startCode (0 :: 0 :: 0 :: b3 :: t) = 0 := by simp [startCode, e3']
        have s1 : startCode (0 :: 0 :: b3 :: t) = 0 := by simp [startCode, e3, e3']
        have s2 : startCode (0 :: b3 :: t) = 0 := by simp [startCode, e3]
        simp [skipZeros, s0, s1, s2, nz e3, e3]
      · have e2' : b2 ≠ 1 := fun h => h3 ⟨rfl, rfl, h⟩
        have s0 : startCode (0 :: 0 :: b2 :: b3 :: t) = 0 := by simp [startCode, e2, e2']
        have s1 : startCode (0 :: b2 :: b3 :: t) = 0 := by simp [startCode, e2]
        simp [skipZeros, s0, s1, nz e2, e2]
    · have s0 : startCode (0 :: b1 :: b2 :: b3 :: t) = 0 := by simp [startCode, e1]
      simp [skipZeros, s0, nz e1, e1]
  · simp [skipZeros, nz e0, e0]

/-- A length-prefixed access unit can read as Annex-B only when the first
unit's length is 1 (`00 00 00 01`) or lies in 256..511 (`00 00 01 xx`). -/
theorem avcc_startCode {n : Bytes} {ns : List Bytes} (hlt : n.length < 2 ^ 32)
    (h0 : n.length ≠ 0) (h1 : n.length ≠ 1) (h2 : n.length / 256 ≠ 1) :
    splitAnnexB (avcc (n :: ns)) = none := by
  have key : startCode (skipZeros (avcc (n :: ns))) = 0 := by
    rw [avcc_cons]
    have z : ∀ k, UInt8.ofNat k = 0 ↔ k % 256 = 0 := fun k => by
      rw [← UInt8.toNat_inj]; simp
    have o : ∀ k, UInt8.ofNat k = 1 ↔ k % 256 = 1 := fun k => by
      rw [← UInt8.toNat_inj]; simp
    refine skipZeros_startCode ?_ ?_ ?_ <;>
      simp only [z, o, Nat.shiftRight_eq_div_pow] <;> omega
  unfold splitAnnexB
  split
  · rfl
  · simp [key]

end KmVirtualCamera.L1.H264
