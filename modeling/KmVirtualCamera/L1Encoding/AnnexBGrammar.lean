import Mathlib
import KmVirtualCamera.L1Encoding.H264

/-!
# What `SplitAnnexB` accepts (`shared/km/h264.h`)

The source scans positions of one buffer and returns views of it. Here it is
written that way (`splitAnnexBViews`), beside the splitter on the bytes that
are left (`splitAnnexB`), and the two are shown to agree
(`splitAnnexBViews_eq`): the views are those units, in order, and none reaches
past the next.

`AccessUnit b ns` is the grammar: zero bytes, then groups of a start code, a
NAL unit and zero bytes. A zero before a three-byte start code also reads as
the first byte of a four-byte one, so a string can have several derivations;
the scan takes the earliest start code, which moves at most one zero from the
end of a group to the next (`untilStartCode_zeros`).

* `splitAnnexBViews_accepts`: a string splits into `ns` exactly when it is an
  access unit of `ns` that fits, and nothing is returned otherwise.
* `conversions_inverse`: `AppendAnnexB`, `SplitAnnexB`,
  `AnnexBToLengthPrefixed4` and `SplitLengthPrefixed4` undo one another.
-/
namespace KmVirtualCamera.L1.H264
open KmVirtualCamera.ByteOrder

/-! ## The scan by positions -/

/-- A `std::span` into the input. -/
structure View where
  offset : Nat
  size : Nat
  deriving DecidableEq

/-- mirrors shared/km/h264.h:34 (`b.subspan(offset, size)`) -/
def subspan (b : Bytes) (v : View) : Bytes := (b.drop v.offset).take v.size

/-- `StartCode(b, p)` -/
def startCodeAt (b : Bytes) (p : Nat) : Nat := startCode (b.drop p)

/-- `while (p < b.size() && !StartCode(b, p) && b[p] == 0) ++p;`
mirrors shared/km/h264.h:26 -/
def skipZerosAt (b : Bytes) : Nat → Nat → Nat
  | 0, p => p
  | fuel + 1, p =>
    if p < b.length ∧ startCodeAt b p = 0 ∧ b[p]? = some 0 then skipZerosAt b fuel (p + 1) else p

/-- `while (next < b.size() && !StartCode(b, next)) ++next;`
mirrors shared/km/h264.h:33 -/
def nextStartCode (b : Bytes) : Nat → Nat → Nat
  | 0, next => next
  | fuel + 1, next =>
    if next < b.length ∧ startCodeAt b next = 0 then nextStartCode b fuel (next + 1) else next

/-- `while (end > begin && b[end-1] == 0) --end;`
mirrors shared/km/h264.h:34-35 -/
def trimEnd (b : Bytes) (first : Nat) : Nat → Nat
  | 0 => 0
  | e + 1 => if e + 1 > first ∧ b[e]? = some 0 then trimEnd b first e else e + 1

/-- mirrors shared/km/h264.h:28-41 -/
def splitViewLoop (b : Bytes) : Nat → Nat → List View → Bool × List View
  | 0, p, nalus => if p < b.length then (false, []) else (!nalus.isEmpty, nalus)
  | fuel + 1, p, nalus =>
    if p < b.length then
      let code := startCodeAt b p
      if code = 0 then (false, [])
      else
        let first := p + code
        let next := nextStartCode b (b.length - first) first
        let n : View := ⟨first, trimEnd b first next - first⟩
        if validNalu (subspan b n) = false ∨ nalus.length = kMaxNalus then (false, [])
        else splitViewLoop b fuel next (nalus ++ [n])
    else (!nalus.isEmpty, nalus)

/-- The result and the output list, which is cleared first.
mirrors shared/km/h264.h:22-42 -/
def splitAnnexBViews (b : Bytes) : Bool × List View :=
  if b = [] ∨ b.length > kMaxAccessUnitBytes then (false, [])
  else
    let p := skipZerosAt b b.length 0
    if startCodeAt b p = 0 then (false, []) else splitViewLoop b (b.length - p) p []

/-- Each view is followed by nothing that an earlier one covers, and the last
ends inside the buffer. -/
def InOrder (b : Bytes) : Nat → List View → Prop
  | p, [] => p ≤ b.length
  | p, v :: vs => p ≤ v.offset ∧ InOrder b (v.offset + v.size) vs

/-! ## The two scans agree -/

theorem drop_cons {b : Bytes} {p : Nat} (h : p < b.length) : b.drop p = b[p] :: b.drop (p + 1) :=
  List.drop_eq_getElem_cons h

theorem skipZerosAt_spec (b : Bytes) : ∀ (fuel p : Nat), p ≤ b.length → b.length ≤ p + fuel →
    b.drop (skipZerosAt b fuel p) = skipZeros (b.drop p) ∧ p ≤ skipZerosAt b fuel p ∧
      skipZerosAt b fuel p ≤ b.length
  | 0, p, hp, hf => by
    obtain rfl : p = b.length := by omega
    simp [skipZerosAt, skipZeros]
  | fuel + 1, p, hp, hf => by
    unfold skipZerosAt
    by_cases h : p < b.length
    · have hd := drop_cons h
      by_cases hz : startCodeAt b p = 0 ∧ b[p] = 0
      · rw [if_pos ⟨h, hz.1, by simp [h, hz.2]⟩]
        obtain ⟨ih, hle, hlen⟩ := skipZerosAt_spec b fuel (p + 1) h (by omega)
        refine ⟨?_, by omega, hlen⟩
        have hcode : startCode (b[p] :: b.drop (p + 1)) = 0 := by rw [← hd]; exact hz.1
        rw [ih, hd, skipZeros, if_pos ⟨hcode, hz.2⟩]
      · rw [if_neg (by simpa [h] using hz)]
        refine ⟨?_, Nat.le_refl _, hp⟩
        rw [hd, skipZeros, if_neg]
        rwa [← hd]
    · obtain rfl : p = b.length := by omega
      simp [skipZeros]

theorem nextStartCode_spec (b : Bytes) : ∀ (fuel p : Nat), p ≤ b.length → b.length ≤ p + fuel →
    untilStartCode (b.drop p) =
      ((b.drop p).take (nextStartCode b fuel p - p), b.drop (nextStartCode b fuel p)) ∧
      p ≤ nextStartCode b fuel p ∧ nextStartCode b fuel p ≤ b.length
  | 0, p, hp, hf => by
    obtain rfl : p = b.length := by omega
    simp [nextStartCode, untilStartCode]
  | fuel + 1, p, hp, hf => by
    unfold nextStartCode
    by_cases h : p < b.length
    · have hd := drop_cons h
      by_cases hz : startCodeAt b p = 0
      · rw [if_pos ⟨h, hz⟩]
        obtain ⟨ih, hle, hlen⟩ := nextStartCode_spec b fuel (p + 1) h (by omega)
        have hcode : startCode (b[p] :: b.drop (p + 1)) = 0 := by rw [← hd]; exact hz
        refine ⟨?_, by omega, hlen⟩
        rw [hd, untilStartCode, if_pos hcode, ih]
        have hone : nextStartCode b fuel (p + 1) - p = nextStartCode b fuel (p + 1) - (p + 1) + 1 := by omega
        rw [hone, List.take_succ_cons]
      · rw [if_neg (fun hh => hz hh.2)]
        refine ⟨?_, Nat.le_refl _, hp⟩
        have hcode : startCode (b[p] :: b.drop (p + 1)) ≠ 0 := by rw [← hd]; exact hz
        rw [hd, untilStartCode, if_neg hcode]
        simp
    · obtain rfl : p = b.length := by omega
      simp [untilStartCode]

theorem trimEnd_spec (b : Bytes) (first : Nat) : ∀ m, first + m ≤ b.length →
    trimEnd b first (first + m) = first + (trimZeros ((b.drop first).take m)).length
  | 0, _ => by
    cases first with
    | zero => simp [trimEnd, trimZeros]
    | succ k => simp [trimEnd, trimZeros]
  | m + 1, h => by
    have hlt : first + m < b.length := by omega
    have htake : (b.drop first).take (m + 1) = (b.drop first).take m ++ [b[first + m]] := by
      rw [List.take_add_one, List.getElem?_drop, List.getElem?_eq_getElem hlt]
      rfl
    rw [htake, ← Nat.add_assoc, trimEnd]
    unfold trimZeros
    by_cases hz : b[first + m] = 0
    · rw [if_pos ⟨by omega, by simp [hlt, hz]⟩, List.rdropWhile_concat_pos _ _ _ (by simp [hz])]
      exact trimEnd_spec b first m (by omega)
    · rw [if_neg (by simp [hlt, hz]), List.rdropWhile_concat_neg _ _ _ (by simp [hz])]
      simp
      omega

/-- The unit that one turn of the loop finds, and where the next one begins. -/
theorem turn_spec (b : Bytes) {p : Nat} (hp : p < b.length) :
    let first := p + startCodeAt b p
    let next := nextStartCode b (b.length - first) first
    let s := untilStartCode ((b.drop p).drop (startCode (b.drop p)))
    subspan b ⟨first, trimEnd b first next - first⟩ = trimZeros s.1 ∧ b.drop next = s.2 ∧
      trimEnd b first next ≤ next ∧ first ≤ trimEnd b first next ∧ next ≤ b.length := by
  intro first next s
  have hcode := startCode_le (b.drop p)
  rw [List.length_drop] at hcode
  have hfirst : first ≤ b.length := by
    show p + startCode (b.drop p) ≤ b.length
    omega
  obtain ⟨huntil, hle, hlen⟩ := nextStartCode_spec b (b.length - first) first hfirst (by omega)
  have hs : s = ((b.drop first).take (next - first), b.drop next) := by
    rw [← huntil]
    show untilStartCode ((b.drop p).drop _) = _
    rw [List.drop_drop]
    rfl
  have htrim : trimEnd b first next =
      first + (trimZeros ((b.drop first).take (next - first))).length := by
    rw [← trimEnd_spec b first (next - first) (by omega), Nat.add_sub_cancel' hle]
  have hpre := trimZeros_isPrefix ((b.drop first).take (next - first))
  have hshort := hpre.length_le
  rw [List.length_take] at hshort
  refine ⟨?_, by rw [hs], by omega, by omega, hlen⟩
  rw [hs]
  show (b.drop first).take _ = _
  rw [htrim, Nat.add_sub_cancel_left]
  obtain ⟨t, ht⟩ := hpre
  have hcut := congrArg (List.take (trimZeros ((b.drop first).take (next - first))).length) ht
  rw [List.take_left, List.take_take, Nat.min_eq_left (by omega)] at hcut
  exact hcut.symm

theorem InOrder.append {b : Bytes} {v : View} (hv : v.offset + v.size ≤ b.length) :
    ∀ {vs : List View} {p : Nat}, InOrder b p vs → (∀ w ∈ vs, w.offset + w.size ≤ v.offset) →
      p ≤ v.offset → InOrder b p (vs ++ [v])
  | [], _, _, _, hp => ⟨hp, hv⟩
  | w :: _, _, ⟨h1, h2⟩, hbefore, _ =>
    ⟨h1, h2.append hv (fun u hu => hbefore u (List.mem_cons_of_mem _ hu)) (hbefore w (List.mem_cons_self ..))⟩

/-- The loop by positions against the loop on the bytes left, with the views
already in the output all before `p`. -/
theorem splitViewLoop_spec (b : Bytes) : ∀ (fuel p : Nat) (nalus : List View), p ≤ b.length →
    InOrder b 0 nalus → (∀ v ∈ nalus, v.offset + v.size ≤ p) →
    match splitLoop fuel nalus.length (b.drop p) with
    | none => splitViewLoop b fuel p nalus = (false, [])
    | some ns => ∃ vs, splitViewLoop b fuel p nalus = (!vs.isEmpty, vs) ∧
        vs.map (subspan b) = nalus.map (subspan b) ++ ns ∧ InOrder b 0 vs
  | 0, p, nalus, hp, hin, _ => by
    by_cases h : p < b.length
    · rw [drop_cons h]
      simp [splitLoop, splitViewLoop, h]
    · obtain rfl : p = b.length := by omega
      simp only [List.drop_length, splitLoop, splitViewLoop, if_neg h, List.append_nil]
      exact ⟨nalus, rfl, rfl, hin⟩
  | fuel + 1, p, nalus, hp, hin, hbefore => by
    by_cases h : p < b.length
    · obtain ⟨hsub, hdrop, hend, hfirst, hlen⟩ := turn_spec b h
      rw [drop_cons h] at hsub hdrop ⊢
      unfold splitViewLoop splitLoop
      rw [if_pos h]
      simp only
      have hat : startCodeAt b p = startCode (b[p] :: b.drop (p + 1)) := by
        rw [← drop_cons h]
        rfl
      rw [hat] at hsub hdrop hend hfirst hlen ⊢
      by_cases hcode : startCode (b[p] :: b.drop (p + 1)) = 0
      · simp only [if_pos hcode]
      · simp only [if_neg hcode]
        rw [hsub]
        have hpf : p ≤ p + startCode (b[p] :: b.drop (p + 1)) := Nat.le_add_right ..
        generalize untilStartCode _ = s at hsub hdrop ⊢
        generalize p + startCode (b[p] :: b.drop (p + 1)) = first at *
        generalize nextStartCode b (b.length - first) first = next at *
        by_cases hbad : validNalu (trimZeros s.1) = false ∨ nalus.length = kMaxNalus
        · simp only [if_pos hbad]
        · simp only [if_neg hbad]
          have ih := splitViewLoop_spec b fuel next (nalus ++ [⟨first, trimEnd b first next - first⟩]) hlen
            (hin.append (by simp only; omega) (fun w hw => by have := hbefore w hw; simp only; omega)
              (Nat.zero_le _))
            (by
              intro w hw
              rcases List.mem_append.mp hw with hw | hw
              · have := hbefore w hw; omega
              · rw [List.mem_singleton] at hw; subst hw; simp only; omega)
          rw [hdrop, List.length_append, List.length_singleton] at ih
          cases hs : splitLoop fuel (nalus.length + 1) s.2 with
          | none => rw [hs] at ih; exact ih
          | some ns =>
            rw [hs] at ih
            obtain ⟨vs, h1, h2, h3⟩ := ih
            refine ⟨vs, h1, ?_, h3⟩
            rw [h2, List.map_append, List.map_singleton, hsub, List.append_assoc]
            rfl
    · obtain rfl : p = b.length := by omega
      simp only [List.drop_length, splitLoop, splitViewLoop, if_neg h, List.append_nil]
      exact ⟨nalus, rfl, rfl, hin⟩

/-- The views are the units of the splitter on bytes, in order and apart. -/
theorem splitAnnexBViews_eq (b : Bytes) :
    match splitAnnexB b with
    | none => splitAnnexBViews b = (false, [])
    | some ns => ∃ vs, splitAnnexBViews b = (true, vs) ∧ vs.map (subspan b) = ns ∧ InOrder b 0 vs := by
  unfold splitAnnexB splitAnnexBViews
  by_cases hsize : b = [] ∨ b.length > kMaxAccessUnitBytes
  · simp only [if_pos hsize]
  · simp only [if_neg hsize]
    obtain ⟨hskip, -, hlen⟩ := skipZerosAt_spec b b.length 0 (Nat.zero_le _) (by omega)
    rw [List.drop_zero] at hskip
    unfold startCodeAt
    rw [hskip]
    by_cases hcode : startCode (skipZeros b) = 0
    · simp only [if_pos hcode]
    · simp only [if_neg hcode]
      have hloop := splitViewLoop_spec b (b.length - skipZerosAt b b.length 0) _ [] hlen (Nat.zero_le _)
        (fun v hv => nomatch hv)
      have hfuel : b.length - skipZerosAt b b.length 0 = (skipZeros b).length := by
        rw [← hskip, List.length_drop]
      rw [hskip, hfuel, List.length_nil] at hloop
      rw [hfuel]
      cases hs : splitLoop (skipZeros b).length 0 (skipZeros b) with
      | none =>
        rw [hs] at hloop
        simpa using hloop
      | some ns =>
        rw [hs] at hloop
        obtain ⟨vs, h1, h2, h3⟩ := hloop
        rw [List.map_nil, List.nil_append] at h2
        subst h2
        cases vs with
        | nil => exact h1
        | cons v vs => exact ⟨v :: vs, h1, rfl, h3⟩

/-! ## The grammar -/

/-- A NAL unit: a header with the forbidden bit clear and a type from 1 to 23,
no start code inside, no zero at the end. -/
structure Nalu (n : Bytes) : Prop where
  header : ∃ h t, n = h :: t ∧ h &&& 0x80 = 0 ∧ 1 ≤ h &&& 31 ∧ h &&& 31 ≤ 23
  clean : Clean n

def IsStartCode (c : Bytes) : Prop := c = [0, 0, 1] ∨ c = [0, 0, 0, 1]

/-- `(start-code nalu zero*)*` -/
inductive Groups : Bytes → List Bytes → Prop
  | nil : Groups [] []
  | cons {c n rest : Bytes} {ns : List Bytes} (code : IsStartCode c) (nalu : Nalu n) (zeros : Nat)
      (more : Groups rest ns) : Groups (c ++ n ++ List.replicate zeros 0 ++ rest) (n :: ns)

/-- `zero* (start-code nalu zero*)+`, of at most 1024 groups. -/
def AccessUnit (b : Bytes) (ns : List Bytes) : Prop :=
  ∃ (zeros : Nat) (groups : Bytes), b = List.replicate zeros 0 ++ groups ∧ Groups groups ns ∧
    1 ≤ ns.length ∧ ns.length ≤ kMaxNalus

theorem nalu_iff (n : Bytes) : Nalu n ↔ validNalu n = true ∧ Clean n := by
  have hheader : (∃ h t, n = h :: t ∧ h &&& 0x80 = 0 ∧ 1 ≤ h &&& 31 ∧ h &&& 31 ≤ 23) ↔
      validNalu n = true := by
    cases n with
    | nil => simp [validNalu]
    | cons h t =>
      have hlow : 1 ≤ h &&& 31 ↔ 0 < h &&& 31 := by
        simp only [UInt8.le_iff_toNat_le, UInt8.lt_iff_toNat_lt]; rfl
      have hhigh : h &&& 31 ≤ 23 ↔ h &&& 31 < 24 := by
        simp only [UInt8.le_iff_toNat_le, UInt8.lt_iff_toNat_lt]; exact Nat.lt_succ_iff.symm
      simp only [validNalu, List.cons.injEq, Bool.and_eq_true, beq_iff_eq, decide_eq_true_eq]
      grind
  exact ⟨fun h => ⟨hheader.mp h.header, h.clean⟩, fun h => ⟨hheader.mpr h.1, h.2⟩⟩

theorem IsStartCode.scan {c : Bytes} (h : IsStartCode c) (t : Bytes) :
    startCode (c ++ t) = c.length ∧ c ++ t ≠ [] := by
  rcases h with rfl | rfl <;> simp [startCode]

theorem isStartCode_take {b : Bytes} (h : startCode b ≠ 0) : IsStartCode (b.take (startCode b)) := by
  unfold startCode at h ⊢
  split
  · exact .inl ‹_›
  · split
    · exact .inr ‹_›
    · simp_all

/-! ## Completeness -/

/-- A zero read as part of a start code lengthens the first group's. -/
theorem Groups.zero {rest : Bytes} {ns : List Bytes} (h : Groups rest ns) :
    ∀ k, startCode (0 :: (List.replicate k 0 ++ rest)) ≠ 0 → Groups (0 :: (List.replicate k 0 ++ rest)) ns
  | 0, hne => by
    cases h with
    | nil => simp [startCode] at hne
    | cons code nalu zeros more =>
      rcases code with rfl | rfl
      · exact .cons (c := [0, 0, 0, 1]) (.inr rfl) nalu zeros more
      · simp [startCode] at hne
  | 1, hne => by
    cases h with
    | nil => simp [startCode] at hne
    | cons code nalu zeros more => rcases code with rfl | rfl <;> simp [startCode] at hne
  | 2, hne => by
    cases h with
    | nil => simp [startCode] at hne
    | cons code nalu zeros more => rcases code with rfl | rfl <;> simp [startCode] at hne
  | k + 3, hne => by simp [startCode, List.replicate_succ] at hne

/-- Zeros before groups: the scan stops at groups of the same units. -/
theorem untilStartCode_zeros {rest : Bytes} {ns : List Bytes} (h : Groups rest ns) :
    ∀ k, ∃ j groups, untilStartCode (List.replicate k 0 ++ rest) = (List.replicate j 0, groups) ∧
      Groups groups ns
  | 0 => by
    refine ⟨0, rest, ?_, h⟩
    cases h with
    | nil => rfl
    | cons code nalu zeros more =>
      rename_i c n rest ns
      obtain ⟨hscan, hne⟩ := code.scan (n ++ List.replicate zeros 0 ++ rest)
      have hpos : c.length ≠ 0 := by rcases code with rfl | rfl <;> simp
      simp only [List.replicate_zero, List.nil_append, List.append_assoc] at hscan hne ⊢
      generalize c ++ _ = b at hscan hne
      cases b with
      | nil => exact absurd rfl hne
      | cons x t => rw [untilStartCode, if_neg (by rw [hscan]; exact hpos)]
  | k + 1 => by
    rw [List.replicate_succ, List.cons_append]
    by_cases hcode : startCode (0 :: (List.replicate k 0 ++ rest)) = 0
    · obtain ⟨j, groups, hu, hg⟩ := untilStartCode_zeros h k
      exact ⟨j + 1, groups, by rw [untilStartCode, if_pos hcode, hu, List.replicate_succ], hg⟩
    · exact ⟨0, _, by rw [untilStartCode, if_neg hcode]; rfl, h.zero k hcode⟩

theorem skipZeros_zeros {rest : Bytes} {ns : List Bytes} (h : Groups rest ns) (hne : ns ≠ []) :
    ∀ k, Groups (skipZeros (List.replicate k 0 ++ rest)) ns
  | 0 => by
    cases h with
    | nil => exact absurd rfl hne
    | cons code nalu zeros more =>
      rename_i c n rest ns
      have hfix : skipZeros (c ++ n ++ List.replicate zeros 0 ++ rest) = c ++ n ++ List.replicate zeros 0 ++ rest := by
        rcases code with rfl | rfl <;> simp [skipZeros, startCode]
      rw [List.replicate_zero, List.nil_append, hfix]
      exact .cons code nalu zeros more
  | k + 1 => by
    rw [List.replicate_succ, List.cons_append, skipZeros]
    by_cases hcode : startCode (0 :: (List.replicate k 0 ++ rest)) = 0
    · rw [if_pos ⟨hcode, rfl⟩]
      exact skipZeros_zeros h hne k
    · rw [if_neg (fun hh => hcode hh.1)]
      exact h.zero k hcode

/-- The scan passes over a whole clean unit, whatever comes after it. -/
theorem untilStartCode_unit : ∀ {n : Bytes} (w : Bytes), Clean n → n ≠ [] →
    untilStartCode (n ++ w) = (n ++ (untilStartCode w).1, (untilStartCode w).2)
  | [], _, _, hne => absurd rfl hne
  | [x], w, hc, _ => by
    have h0 := startCode_clean_append w hc
    rw [List.singleton_append] at h0 ⊢
    rw [untilStartCode, if_pos h0]
    rfl
  | x :: y :: t, w, hc, _ => by
    have h0 := startCode_clean_append w hc
    rw [List.cons_append] at h0 ⊢
    rw [untilStartCode, if_pos h0, untilStartCode_unit w hc.tail (by simp)]
    rfl

theorem trimZeros_unit {n : Bytes} (h : Clean n) (j : Nat) : trimZeros (n ++ List.replicate j 0) = n := by
  induction j with
  | zero => rw [List.replicate_zero, List.append_nil, trimZeros_clean h]
  | succ j ih =>
    rw [List.replicate_succ', ← List.append_assoc]
    unfold trimZeros at ih ⊢
    rw [List.rdropWhile_concat_pos _ _ _ (by simp), ih]

theorem Groups.length_le {b : Bytes} {ns : List Bytes} (h : Groups b ns) : ns.length ≤ b.length := by
  induction h with
  | nil => exact Nat.le_refl _
  | cons code nalu zeros more ih =>
    have hpos : 1 ≤ (List.length _) := List.length_pos_of_ne_nil (validNalu_ne_nil ((nalu_iff _).mp nalu).1)
    simp only [List.length_cons, List.length_append]
    omega

/-- Groups are read back as their units. -/
theorem splitLoop_groups : ∀ (ns : List Bytes) (fuel count : Nat) (b : Bytes), Groups b ns →
    count + ns.length ≤ kMaxNalus → ns.length ≤ fuel → splitLoop fuel count b = some ns
  | [], fuel, _, _, h, _, _ => by
    cases h
    cases fuel <;> rfl
  | n :: ns, 0, _, _, _, _, hf => by simp at hf
  | n :: ns, fuel + 1, count, b, h, hc, hf => by
    cases h with
    | cons code nalu zeros more =>
      rename_i c rest
      obtain ⟨hv, hclean⟩ := (nalu_iff n).mp nalu
      obtain ⟨hscan, hne⟩ := code.scan (n ++ List.replicate zeros 0 ++ rest)
      obtain ⟨j, groups, hu, hg⟩ := untilStartCode_zeros more zeros
      have hunit := untilStartCode_unit (List.replicate zeros 0 ++ rest) hclean (validNalu_ne_nil hv)
      rw [hu] at hunit
      have hdrop : (c ++ (n ++ List.replicate zeros 0 ++ rest)).drop c.length =
          n ++ (List.replicate zeros 0 ++ rest) := by
        rw [List.drop_left, List.append_assoc]
      have hpos : c.length ≠ 0 := by rcases code with rfl | rfl <;> simp
      simp only [List.length_cons] at hc hf
      have ih := splitLoop_groups ns fuel (count + 1) groups hg (by omega) (by omega)
      have hcount : count ≠ kMaxNalus := by omega
      simp only [List.append_assoc] at hscan hne hdrop ⊢
      generalize c ++ _ = b at hscan hne hdrop
      cases b with
      | nil => exact absurd rfl hne
      | cons x t =>
        simp only [splitLoop, hscan, hpos, hdrop, hunit, trimZeros_unit hclean, hv, hcount, ih]
        rfl

/-! ## Soundness -/

theorem skipZeros_append (b : Bytes) : ∃ k, b = List.replicate k 0 ++ skipZeros b := by
  induction b with
  | nil => exact ⟨0, rfl⟩
  | cons x t ih =>
    unfold skipZeros
    split
    · rename_i h
      obtain ⟨k, hk⟩ := ih
      exact ⟨k + 1, by rw [List.replicate_succ, List.cons_append, ← hk, h.2]⟩
    · exact ⟨0, rfl⟩

theorem trimZeros_append (n : Bytes) : ∃ k, n = trimZeros n ++ List.replicate k 0 := by
  induction n using List.reverseRecOn with
  | nil => exact ⟨0, rfl⟩
  | append_singleton t x ih =>
    unfold trimZeros at ih ⊢
    by_cases hx : x = 0
    · obtain ⟨k, hk⟩ := ih
      rw [List.rdropWhile_concat_pos _ _ _ (by simp [hx])]
      refine ⟨k + 1, ?_⟩
      rw [List.replicate_succ', ← List.append_assoc, ← hk, hx]
    · rw [List.rdropWhile_concat_neg _ _ _ (by simp [hx])]
      exact ⟨0, by simp⟩

theorem splitLoop_isGroups : ∀ (fuel count : Nat) (b : Bytes) (ns : List Bytes),
    splitLoop fuel count b = some ns → Groups b ns
  | fuel, count, [], ns, h => by
    cases fuel <;> simp [splitLoop] at h <;> subst h <;> exact .nil
  | 0, _, _ :: _, _, h => by simp [splitLoop] at h
  | fuel + 1, count, x :: t, ns, h => by
    simp only [splitLoop] at h
    split at h
    · cases h
    · rename_i hcode
      split at h
      · cases h
      · rename_i hgood
        obtain ⟨rest, hrest, rfl⟩ := Option.map_eq_some_iff.mp h
        simp only [not_or, Bool.not_eq_false] at hgood
        have more := splitLoop_isGroups fuel (count + 1) _ rest hrest
        have hunit := untilStartCode_append ((x :: t).drop (startCode (x :: t)))
        have hno := untilStartCode_noCode ((x :: t).drop (startCode (x :: t)))
        generalize untilStartCode ((x :: t).drop (startCode (x :: t))) = s at *
        obtain ⟨k, hk⟩ := trimZeros_append s.1
        have nalu : Nalu (trimZeros s.1) := (nalu_iff _).mpr
          ⟨hgood.1, fun hi => hno (hi.trans (trimZeros_isPrefix _).isInfix), trimZeros_last _⟩
        have hb : x :: t = (x :: t).take (startCode (x :: t)) ++ trimZeros s.1 ++ List.replicate k 0 ++ s.2 := by
          rw [List.append_assoc _ (trimZeros s.1), ← hk, List.append_assoc, hunit, List.take_append_drop]
        rw [hb]
        exact .cons (isStartCode_take hcode) nalu k more

/-! ## What is accepted -/

theorem splitAnnexB_iff (b : Bytes) (ns : List Bytes) :
    splitAnnexB b = some ns ↔ b.length ≤ kMaxAccessUnitBytes ∧ AccessUnit b ns := by
  constructor
  · intro h
    obtain ⟨hne, hlen, -⟩ := splitAnnexB_sound h
    unfold splitAnnexB at h
    split at h
    · cases h
    · rename_i hsize
      simp only at h
      split at h
      · cases h
      · obtain ⟨hs, -⟩ := Option.filter_eq_some_iff.mp h
        obtain ⟨k, hk⟩ := skipZeros_append b
        exact ⟨by omega, k, _, hk, splitLoop_isGroups _ _ _ _ hs, List.length_pos_of_ne_nil hne, hlen⟩
  · rintro ⟨hsize, k, groups, rfl, hg, hpos, hlen⟩
    have hne : ns ≠ [] := List.ne_nil_of_length_pos hpos
    have hskip := skipZeros_zeros hg hne k
    have hs := splitLoop_groups ns _ 0 _ hskip (by omega) hskip.length_le
    have hcode : startCode (skipZeros (List.replicate k 0 ++ groups)) ≠ 0 := by
      generalize skipZeros _ = g at hskip
      cases hskip with
      | nil => exact absurd rfl hne
      | cons code nalu zeros more =>
        rename_i c n rest ns
        rw [List.append_assoc, List.append_assoc, (code.scan _).1]
        rcases code with rfl | rfl <;> simp
    have hb : List.replicate k 0 ++ groups ≠ [] := by
      have := hg.length_le
      intro h0
      have := congrArg List.length h0
      rw [List.length_append, List.length_nil] at this
      omega
    unfold splitAnnexB
    rw [if_neg (by simp only [hb, false_or]; omega)]
    simp only [if_neg hcode, hs]
    simp [hne]

theorem accessUnit_unique {b : Bytes} {ns ms : List Bytes} (h : AccessUnit b ns) (h' : AccessUnit b ms) :
    ns = ms := by
  have hread : ∀ {ks : List Bytes}, AccessUnit b ks → ∀ fuel, ks.length ≤ fuel →
      splitLoop fuel 0 (skipZeros b) = some ks := by
    rintro ks ⟨k, groups, rfl, hg, hpos, hlen⟩ fuel hf
    have hskip := skipZeros_zeros hg (List.ne_nil_of_length_pos hpos) k
    exact splitLoop_groups ks fuel 0 _ hskip (by omega) hf
  have h1 := hread h (max ns.length ms.length) (le_max_left ..)
  rw [hread h' _ (le_max_right ..)] at h1
  exact (Option.some.inj h1).symm

theorem InOrder.apart {b : Bytes} : ∀ {vs : List View} {p : Nat}, InOrder b p vs →
    vs.Pairwise (fun v w => v.offset + v.size ≤ w.offset) ∧
      ∀ v ∈ vs, p ≤ v.offset ∧ v.offset + v.size ≤ b.length
  | [], _, _ => ⟨.nil, fun _ hv => nomatch hv⟩
  | v :: vs, p, ⟨hp, h⟩ => by
    obtain ⟨hpair, hall⟩ := h.apart
    refine ⟨.cons (fun w hw => (hall w hw).1) hpair, ?_⟩
    intro w hw
    rcases List.mem_cons.mp hw with rfl | hw
    · refine ⟨hp, ?_⟩
      cases vs with
      | nil => exact h
      | cons u us => have := hall u (List.mem_cons_self ..); omega
    · have := hall w hw
      omega

/-- **The grammar, exactly.** The splitter accepts the access units that fit,
and returns their units, of which there is one list only, as views of the input
that lie one after the other. When it refuses, it returns no view. -/
theorem splitAnnexBViews_accepts (b : Bytes) :
    (∀ ns, (splitAnnexBViews b).1 = true ∧ (splitAnnexBViews b).2.map (subspan b) = ns ↔
      b.length ≤ kMaxAccessUnitBytes ∧ AccessUnit b ns) ∧
    (∀ ns ms, AccessUnit b ns → AccessUnit b ms → ns = ms) ∧
    (splitAnnexBViews b).2.Pairwise (fun v w => v.offset + v.size ≤ w.offset) ∧
    (∀ v ∈ (splitAnnexBViews b).2, v.offset + v.size ≤ b.length) ∧
    ((splitAnnexBViews b).1 = false → (splitAnnexBViews b).2 = []) := by
  have hviews := splitAnnexBViews_eq b
  cases hs : splitAnnexB b with
  | none =>
    rw [hs] at hviews
    simp only at hviews
    refine ⟨?_, fun _ _ => accessUnit_unique, ?_⟩
    · intro ns
      rw [← splitAnnexB_iff, hs, hviews]
      simp
    · rw [hviews]
      exact ⟨.nil, fun _ hv => (nomatch hv), fun _ => rfl⟩
  | some ms =>
    rw [hs] at hviews
    obtain ⟨vs, hv, rfl, hin⟩ := hviews
    obtain ⟨hpair, hall⟩ := hin.apart
    refine ⟨?_, fun _ _ => accessUnit_unique, ?_⟩
    · intro ns
      rw [← splitAnnexB_iff, hs, hv, Option.some.injEq]
      exact and_iff_right rfl
    · rw [hv]
      exact ⟨hpair, fun v hmem => (hall v hmem).2, fun h => nomatch h⟩

example : splitAnnexBViews [0, 0, 0, 0, 1, 0x65, 7, 0, 0, 0, 0, 1, 0x41] = (true, [⟨5, 2⟩, ⟨12, 1⟩]) := by
  decide

/-! ## The length-prefixed form -/

/-- mirrors shared/km/h264.h:67-69 -/
def appendLengthPrefixed4 (out n : Bytes) : Bytes := out ++ be32Bytes n.length ++ n

/-- The result and the output, which is cleared first.
mirrors shared/km/h264.h:62-72 -/
def annexBToLengthPrefixed4 (input : Bytes) : Bool × Bytes :=
  match splitAnnexB input with
  | none => (false, [])
  | some nalus => (true, nalus.foldl appendLengthPrefixed4 [])

theorem foldl_appendLengthPrefixed4 (ns : List Bytes) (out : Bytes) :
    ns.foldl appendLengthPrefixed4 out = out ++ avcc ns := by
  induction ns generalizing out with
  | nil => simp [avcc]
  | cons n ns ih => simp [ih, appendLengthPrefixed4, avcc_cons]

/-- A length-prefixed string is the units it splits into, each behind its length. -/
theorem splitLengthLoop_avcc_eq : ∀ (fuel count : Nat) (b : Bytes) (ns : List Bytes),
    splitLengthLoop fuel count b = some ns → avcc ns = b
  | fuel, count, [], ns, h => by
    cases fuel <;> simp [splitLengthLoop] at h <;> subst h <;> rfl
  | 0, _, _ :: _, _, h => by simp [splitLengthLoop] at h
  | _ + 1, _, [_], _, h => by simp [splitLengthLoop] at h
  | _ + 1, _, [_, _], _, h => by simp [splitLengthLoop] at h
  | _ + 1, _, [_, _, _], _, h => by simp [splitLengthLoop] at h
  | fuel + 1, count, b0 :: b1 :: b2 :: b3 :: t, ns, h => by
    simp only [splitLengthLoop] at h
    split at h
    · cases h
    · rename_i hgood
      obtain ⟨rest, hrest, rfl⟩ := Option.map_eq_some_iff.mp h
      have ih := splitLengthLoop_avcc_eq fuel (count + 1) _ rest hrest
      have hlen : (t.take (be32 b0 b1 b2 b3).toNat).length = (be32 b0 b1 b2 b3).toNat := by
        rw [List.length_take]
        omega
      rw [avcc_cons, ih, hlen, be32Bytes_be32, List.take_append_drop]
      rfl

theorem splitLengthPrefixed4_eq {b : Bytes} {ns : List Bytes} (h : splitLengthPrefixed4 b = some ns) :
    avcc ns = b := by
  unfold splitLengthPrefixed4 at h
  split at h
  · cases h
  · exact splitLengthLoop_avcc_eq _ 0 b ns (Option.filter_eq_some_iff.mp h).1

/-- **The conversions undo one another.** Units written in Annex-B form are read
back; converted to the length-prefixed form they are read back from that too;
and a length-prefixed string that splits is its units written again. -/
theorem conversions_inverse (ns : List Bytes) (hpos : 1 ≤ ns.length) (hlen : ns.length ≤ kMaxNalus)
    (hns : ∀ n ∈ ns, Nalu n) :
    ((ns.foldl appendAnnexB []).length ≤ kMaxAccessUnitBytes →
      splitAnnexB (ns.foldl appendAnnexB []) = some ns) ∧
    (∀ b, splitAnnexB b = some ns → (annexBToLengthPrefixed4 b).1 = true ∧
      ((annexBToLengthPrefixed4 b).2.length ≤ kMaxAccessUnitBytes →
        splitLengthPrefixed4 (annexBToLengthPrefixed4 b).2 = some ns)) ∧
    ∀ b ms, splitLengthPrefixed4 b = some ms → ms.foldl appendLengthPrefixed4 [] = b := by
  have hne : ns ≠ [] := List.ne_nil_of_length_pos hpos
  have hvalid : ∀ n ∈ ns, validNalu n = true ∧ Clean n := fun n hn => (nalu_iff n).mp (hns n hn)
  refine ⟨?_, ?_, ?_⟩
  · intro hsize
    rw [foldl_appendAnnexB, List.nil_append] at hsize ⊢
    exact splitAnnexB_annexB ns hne hvalid hlen hsize
  · intro b hb
    unfold annexBToLengthPrefixed4
    rw [hb]
    refine ⟨rfl, ?_⟩
    intro hsize
    simp only [foldl_appendLengthPrefixed4, List.nil_append] at hsize ⊢
    exact splitLengthPrefixed4_avcc ns hne (fun n hn => (hvalid n hn).1) hlen hsize
  · intro b ms hb
    rw [foldl_appendLengthPrefixed4, List.nil_append]
    exact splitLengthPrefixed4_eq hb

/-- Two sets and a slice, the first behind a three-byte start code. -/
theorem conversions_inverse_short :
    let ns : List Bytes := [[0x67, 1], [0x68, 0, 0, 3], [0x65, 7]]
    let b : Bytes := [0, 0, 1, 0x67, 1, 0, 0, 0, 1, 0x68, 0, 0, 3, 0, 0, 0, 1, 0x65, 7]
    splitAnnexB (ns.foldl appendAnnexB []) = some ns ∧
      (annexBToLengthPrefixed4 b).2 = [0, 0, 0, 2, 0x67, 1, 0, 0, 0, 4, 0x68, 0, 0, 3, 0, 0, 0, 2, 0x65, 7] ∧
      splitLengthPrefixed4 (annexBToLengthPrefixed4 b).2 = some ns := by
  intro ns b
  have hread : splitAnnexB b = some ns := by decide
  have hunits : ∀ n ∈ ns, Nalu n := by
    intro n hn
    rw [nalu_iff]
    revert n
    decide
  obtain ⟨hwritten, hconverted, -⟩ := conversions_inverse ns (by decide) (by decide) hunits
  exact ⟨hwritten (by decide), by decide, (hconverted b hread).2 (by decide)⟩

end KmVirtualCamera.L1.H264
