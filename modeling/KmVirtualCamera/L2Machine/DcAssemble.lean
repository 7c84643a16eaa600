import Mathlib
import KmVirtualCamera.L2Machine.DcVideo

/-!
# What `assemble` puts in an access unit

`assemble_cases` is the one inversion lemma of `assemble`; the results on
emitted units and on runs are derived from it, never from its definition.

* `outData_eq`: the bytes are the units of `outNalus` behind start codes.
* `keptNalus_idr`, `keptNalus_delta`: what the last loop lets through.
-/
namespace KmVirtualCamera.L2.DcVideo
open KmVirtualCamera.L1.H264 KmVirtualCamera.L1.DcWire

/-- The last unit of a type, or nothing. -/
def lastOf (t : UInt8) (ns : List Bytes) : Bytes :=
  ((ns.filter fun n => naluType n == t).getLast?).getD []

theorem lastOf_append (t : UInt8) (ns : List Bytes) (n : Bytes) :
    lastOf t (ns ++ [n]) = if naluType n = t then n else lastOf t ns := by
  unfold lastOf
  rw [List.filter_append]
  by_cases h : naluType n = t <;> simp [h]

theorem lastOf_mem {t : UInt8} {ns : List Bytes} (h : lastOf t ns ≠ []) :
    lastOf t ns ∈ ns ∧ naluType (lastOf t ns) = t := by
  unfold lastOf at h ⊢
  cases hl : (ns.filter fun n => naluType n == t).getLast? with
  | none => simp [hl] at h
  | some m =>
    have := List.mem_of_getLast? hl
    simpa using this

theorem lastOf_eq_nil_iff {t : UInt8} {ns : List Bytes} (hv : ∀ n ∈ ns, validNalu n = true) :
    lastOf t ns = [] ↔ ∀ n ∈ ns, naluType n ≠ t := by
  constructor
  · intro h n hn ht
    unfold lastOf at h
    cases hl : (ns.filter fun n => naluType n == t).getLast? with
    | none =>
      have := List.getLast?_eq_none_iff.mp hl
      have hmem : n ∈ ns.filter fun n => naluType n == t := by simp [hn, ht]
      rw [this] at hmem
      cases hmem
    | some m =>
      have hm := List.mem_of_getLast? hl
      rw [List.mem_filter] at hm
      simp only [hl, Option.getD_some] at h
      exact validNalu_ne_nil (hv m hm.1) h
  · intro h
    by_contra hne
    obtain ⟨hm, ht⟩ := lastOf_mem hne
    exact h _ hm ht

/-- The scan of `assemble`, as three queries on the list. -/
theorem scan_eq (ns : List Bytes) :
    (scan ns).idr = ns.any (fun n => naluType n == 5) ∧ (scan ns).sps = lastOf 7 ns ∧
      (scan ns).pps = lastOf 8 ns := by
  induction ns using List.reverseRecOn with
  | nil => exact ⟨rfl, rfl, rfl⟩
  | append_singleton ns n ih =>
    obtain ⟨h1, h2, h3⟩ := ih
    have hs : scan (ns ++ [n]) = (scan ns).see n := by simp [scan]
    rw [hs, lastOf_append, lastOf_append, List.any_append, ← h1, ← h2, ← h3]
    unfold Scan.see
    by_cases h5 : naluType n = 5
    · simp [h5]
    · by_cases h7 : naluType n = 7
      · simp [h7]
      · by_cases h8 : naluType n = 8 <;> simp [h5, h7, h8]

theorem scan_idr_iff (ns : List Bytes) : (scan ns).idr = true ↔ ∃ n ∈ ns, naluType n = 5 := by
  rw [(scan_eq ns).1]; simp

theorem outData_eq (idr : Bool) (sps pps : Bytes) (ns : List Bytes) :
    outData idr sps pps ns = annexB (outNalus idr sps pps ns) := by
  unfold outData outNalus
  rw [foldl_appendAnnexB]
  cases idr <;> simp [annexB_cons, appendAnnexB, aud]

theorem mem_outNalus {n : Bytes} {idr : Bool} {sps pps : Bytes} {ns : List Bytes} :
    n ∈ outNalus idr sps pps ns ↔
      n = aud ∨ (idr = true ∧ (n = sps ∨ n = pps)) ∨ n ∈ keptNalus idr ns := by
  unfold outNalus
  cases idr <;> simp [or_assoc]

theorem outNalus_hasIdr (sps pps : Bytes) (ns : List Bytes) :
    (∃ n ∈ outNalus (scan ns).idr sps pps ns, naluType n = 5) ↔ (scan ns).idr = true := by
  constructor
  · rintro ⟨n, hn, h5⟩
    rcases mem_outNalus.mp hn with rfl | ⟨hi, -⟩ | hk
    · exact absurd h5 (by decide)
    · exact hi
    · exact (scan_idr_iff ns).mpr ⟨n, (List.mem_filter.mp hk).1, h5⟩
  · intro hi
    obtain ⟨n, hn, h5⟩ := (scan_idr_iff ns).mp hi
    refine ⟨n, mem_outNalus.mpr (Or.inr (Or.inr ?_)), h5⟩
    simp [keptNalus, hn, h5]

theorem splitAccessUnit_sound {raw : Bytes} {ns : List Bytes} (h : splitAccessUnit raw = some ns) :
    ns ≠ [] ∧ ns.length ≤ kMaxNalus ∧ (∀ n ∈ ns, validNalu n = true) ∧
      (ns.map List.length).sum + 3 * ns.length ≤ raw.length := by
  unfold splitAccessUnit at h
  split at h
  · rename_i ms hms
    cases h
    obtain ⟨h1, h2, h3⟩ := splitAnnexB_sound hms
    exact ⟨h1, h2, fun n hn => (h3 n hn).1, splitAnnexB_size hms⟩
  · obtain ⟨h1, h2, h3, h4⟩ := splitLengthPrefixed4_sound h
    exact ⟨h1, h2, h3, by omega⟩

/-- How `assemble` ends. A refusal may still store or clear the parameter
sets; an output fixes them, the units and the bytes. -/
inductive Assembled (s : Depacketizer) (f : Frame) :
    Depacketizer × Option (List Bytes × Output) → Prop
  | refused (sps pps : Bytes)
      (sets : ∀ ns, splitAccessUnit f.raw = some ns → nextSets s (scan ns) = some (sps, pps) ∨
        (nextSets s (scan ns) = none ∧ sps = [] ∧ pps = []))
      (kept : splitAccessUnit f.raw = none → sps = s.sps ∧ pps = s.pps) :
      Assembled s f ({ s with sps := sps, pps := pps }, none)
  | output (ns : List Bytes) (sps pps : Bytes) (split : splitAccessUnit f.raw = some ns)
      (sets : nextSets s (scan ns) = some (sps, pps))
      (key : f.stableFlags &&& 1 ≠ 0 → (scan ns).idr = true)
      (gate : s.waiting = true → (scan ns).idr = true)
      (configured : (scan ns).idr = true → sps ≠ [] ∧ pps ≠ []) :
      Assembled s f
        ({ s with sps := sps, pps := pps, waiting := if (scan ns).idr then false else s.waiting },
         some (outNalus (scan ns).idr sps pps ns, ⟨outData (scan ns).idr sps pps ns, f.timestamp⟩))

theorem assemble_cases (s : Depacketizer) (f : Frame) : Assembled s f (assemble s f) := by
  unfold assemble
  cases hsp : splitAccessUnit f.raw with
  | none =>
    exact .refused s.sps s.pps (fun ns h => by rw [hsp] at h; cases h) (fun _ => ⟨rfl, rfl⟩)
  | some ns =>
    simp only
    cases hset : nextSets s (scan ns) with
    | none =>
      refine .refused [] [] ?_ (fun h => by rw [hsp] at h; cases h)
      intro ms h
      rw [hsp] at h; cases h
      exact Or.inr ⟨hset, rfl, rfl⟩
    | some sets =>
      obtain ⟨sps, pps⟩ := sets
      simp only
      have hrefused : Assembled s f ({ s with sps := sps, pps := pps }, none) := by
        refine .refused sps pps ?_ (fun h => by rw [hsp] at h; cases h)
        intro ms h
        rw [hsp] at h; cases h
        exact Or.inl hset
      split
      · exact hrefused
      · rename_i hkey
        split
        · exact hrefused
        · rename_i hgate
          split
          · exact hrefused
          · rename_i hconf
            refine .output ns sps pps hsp hset ?_ ?_ ?_
            · simpa using hkey
            · simpa using hgate
            · simpa using hconf

/-- The converse for an output: what is needed to get one. -/
theorem assemble_output {s : Depacketizer} {f : Frame} {ns : List Bytes} {sps pps : Bytes}
    (split : splitAccessUnit f.raw = some ns) (sets : nextSets s (scan ns) = some (sps, pps))
    (key : f.stableFlags &&& 1 ≠ 0 → (scan ns).idr = true)
    (gate : s.waiting = true → (scan ns).idr = true)
    (configured : (scan ns).idr = true → sps ≠ [] ∧ pps ≠ []) :
    assemble s f =
      ({ s with sps := sps, pps := pps, waiting := if (scan ns).idr then false else s.waiting },
       some (outNalus (scan ns).idr sps pps ns, ⟨outData (scan ns).idr sps pps ns, f.timestamp⟩)) := by
  unfold assemble
  simp only [split, sets]
  rw [if_neg, if_neg, if_neg]
  · rintro ⟨hi, hno⟩
    obtain ⟨h7, h8⟩ := configured hi
    rcases hno with h | h
    · exact h7 h
    · exact h8 h
  · rintro ⟨hw, hi⟩
    rw [gate hw] at hi; cases hi
  · rintro ⟨hk, hi⟩
    rw [key hk] at hi; cases hi

/-! ## Which units survive -/

/-- A unit that is neither a delimiter nor a parameter set. -/
def isOther (n : Bytes) : Bool := !(naluType n == 9 || naluType n == 7 || naluType n == 8)

theorem keptNalus_other (idr : Bool) (ns : List Bytes) :
    (keptNalus idr ns).filter isOther = ns.filter isOther := by
  unfold keptNalus
  rw [List.filter_filter]
  apply List.filter_congr
  intro n _
  unfold isOther
  cases idr <;> cases naluType n == 9 <;> cases naluType n == 7 <;> cases naluType n == 8 <;> rfl

theorem keptNalus_idr (ns : List Bytes) : keptNalus true ns = ns.filter isOther := by
  unfold keptNalus isOther
  apply List.filter_congr
  intro n _
  simp [Bool.or_assoc]

theorem keptNalus_delta (ns : List Bytes) :
    keptNalus false ns = ns.filter fun n => naluType n != 9 := by
  unfold keptNalus
  apply List.filter_congr
  intro n _
  simp [bne]

end KmVirtualCamera.L2.DcVideo
