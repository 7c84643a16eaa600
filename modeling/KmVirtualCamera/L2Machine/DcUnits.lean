import Mathlib
import KmVirtualCamera.L2Machine.DcInvariant

/-!
# Which NAL units an access unit keeps

The parameter sets of an IDR unit are taken out, cached as one pair and put
back in front; everything else passes a filter. A unit that carries several
SPS or several PPS keeps the last of each: the receiver manages one pair
(docs/macos/03_MEDIA_AND_PROTOCOLS.md), it is not a table of parameter-set
ids. `assemble_units` says what is kept and, exactly, what is not.
-/
namespace KmVirtualCamera.L2.DcVideo
open KmVirtualCamera.L1.H264 KmVirtualCamera.L1.DcWire

/-- The parameter sets an IDR unit goes out with: its own last pair, or the
cached pair when it carries none. -/
def PairOf (s : Depacketizer) (ns : List Bytes) (sps pps : Bytes) : Prop :=
  (sps ∈ ns ∧ pps ∈ ns ∧ sps = lastOf 7 ns ∧ pps = lastOf 8 ns) ∨
    ((∀ n ∈ ns, naluType n ≠ 7 ∧ naluType n ≠ 8) ∧ sps = s.sps ∧ pps = s.pps)

theorem nextSets_pair {s : Depacketizer} {f : Frame} {ns : List Bytes} {sps pps : Bytes}
    (hsp : splitAccessUnit f.raw = some ns) (h : nextSets s (scan ns) = some (sps, pps)) :
    PairOf s ns sps pps := by
  obtain ⟨-, -, hv, -⟩ := splitAccessUnit_sound hsp
  rcases nextSets_cases h with ⟨h7, h8, rfl, rfl⟩ | ⟨h7, h8, rfl, rfl⟩
  · exact .inl ⟨(lastOf_mem h7).1, (lastOf_mem h8).1, rfl, rfl⟩
  · rw [lastOf_eq_nil_iff hv] at h7 h8
    exact .inr ⟨fun n hn => ⟨h7 n hn, h8 n hn⟩, rfl, rfl⟩

theorem isOther_of_type {n : Bytes} {t : UInt8} (h : naluType n = t) :
    isOther n = !(t == 9 || t == 7 || t == 8) := by
  unfold isOther; rw [h]

/-- The units of an IDR output that came through the filter. -/
theorem outNalus_other {idr : Bool} {sps pps : Bytes} {ns : List Bytes}
    (h7 : idr = true → naluType sps = 7) (h8 : idr = true → naluType pps = 8) :
    (outNalus idr sps pps ns).filter isOther = ns.filter isOther := by
  have haud : isOther aud = false := by decide
  unfold outNalus
  cases idr with
  | false => simp [haud, keptNalus_other]
  | true =>
    have hs : isOther sps = false := by rw [isOther_of_type (h7 rfl)]; decide
    have hp : isOther pps = false := by rw [isOther_of_type (h8 rfl)]; decide
    simp [haud, hs, hp, keptNalus_other]

/-- A parameter set of an IDR unit is kept iff it is the last of its kind. -/
theorem outNalus_set {s : Depacketizer} {sps pps : Bytes} {ns : List Bytes} {n : Bytes}
    (hpair : PairOf s ns sps pps) (h7 : naluType sps = 7) (h8 : naluType pps = 8) (hn : n ∈ ns)
    (hty : naluType n = 7 ∨ naluType n = 8) :
    n ∈ outNalus true sps pps ns ↔ n = lastOf (naluType n) ns := by
  obtain ⟨-, -, rfl, rfl⟩ | ⟨hno, -, -⟩ := hpair
  · have hother : n ∉ keptNalus true ns := by
      rw [keptNalus_idr, List.mem_filter]
      rintro ⟨-, ho⟩
      rcases hty with ht | ht <;> rw [isOther_of_type ht] at ho <;> exact absurd ho (by decide)
    have haud : n ≠ aud := by
      rintro rfl
      rcases hty with ht | ht <;> exact absurd ht (by decide)
    simp only [outNalus, List.cons_append, List.mem_cons, haud, if_true, List.nil_append, hother,
      false_or, or_false]
    rcases hty with ht | ht
    · rw [ht]
      refine ⟨fun h => h.resolve_right ?_, .inl⟩
      intro h
      rw [h, h8] at ht; exact absurd ht (by decide)
    · rw [ht]
      refine ⟨fun h => h.resolve_left ?_, .inr⟩
      intro h
      rw [h, h7] at ht; exact absurd ht (by decide)
  · rcases hty with ht | ht
    · exact absurd ht (hno n hn).1
    · exact absurd ht (hno n hn).2

/-- **What an accepted unit keeps.** The units that are neither delimiters nor
parameter sets all reach the output, once and in order. A unit without an IDR
is copied but for its delimiters; an IDR unit goes out with one SPS and one
PPS in front. What is lost is exactly the parameter sets of an IDR unit that
are not the last of their kind. -/
theorem assemble_units (s : Depacketizer) (f : Frame) (ns nalus : List Bytes) (out : Output)
    (hr : lts.Reachable s) (hsp : splitAccessUnit f.raw = some ns)
    (ha : (assemble s f).2 = some (nalus, out)) :
    out.data = annexB nalus ∧ nalus.filter isOther = ns.filter isOther ∧
      ((∀ n ∈ ns, naluType n ≠ 5) → nalus = aud :: ns.filter fun n => naluType n != 9) ∧
      ((∃ n ∈ ns, naluType n = 5) → ∃ sps pps, naluType sps = 7 ∧ naluType pps = 8 ∧
        PairOf s ns sps pps ∧ nalus = aud :: sps :: pps :: ns.filter isOther) ∧
      ∀ n ∈ ns, naluType n ≠ 9 → (n ∉ nalus ↔ (∃ m ∈ ns, naluType m = 5) ∧
        (naluType n = 7 ∨ naluType n = 8) ∧ n ≠ lastOf (naluType n) ns) := by
  have hi := reachable_inv s hr
  have hc := assemble_cases s f
  generalize assemble s f = r at hc ha
  cases hc with
  | refused => cases ha
  | output ms sps pps split sets key gate configured =>
    rw [hsp] at split
    cases split
    simp only [Option.some.injEq, Prod.mk.injEq] at ha
    obtain ⟨rfl, rfl⟩ := ha
    have hpair := nextSets_pair hsp sets
    have types : (scan ns).idr = true → naluType sps = 7 ∧ naluType pps = 8 := by
      intro hd
      obtain ⟨n7, n8⟩ := configured hd
      rcases nextSets_cases sets with ⟨-, -, rfl, rfl⟩ | ⟨-, -, rfl, rfl⟩
      · exact ⟨(lastOf_mem n7).2, (lastOf_mem n8).2⟩
      · exact ⟨(hi.sps n7).2.1, (hi.pps n8).2.1⟩
    refine ⟨outData_eq .., outNalus_other (fun hd => (types hd).1) fun hd => (types hd).2, ?_, ?_, ?_⟩
    · intro hno
      have hd : (scan ns).idr = false := by
        by_contra hd
        obtain ⟨n, hn, h5⟩ := (scan_idr_iff ns).mp (by simpa using hd)
        exact hno n hn h5
      simp [hd, outNalus, keptNalus_delta]
    · intro hidr
      have hd := (scan_idr_iff ns).mpr hidr
      obtain ⟨t7, t8⟩ := types hd
      exact ⟨sps, pps, t7, t8, hpair, by simp [hd, outNalus, keptNalus_idr]⟩
    · intro n hn h9
      rw [← scan_idr_iff]
      cases hd : (scan ns).idr with
      | false => simp [mem_outNalus, keptNalus_delta, hn, h9]
      | true =>
        obtain ⟨t7, t8⟩ := types hd
        by_cases hty : naluType n = 7 ∨ naluType n = 8
        · simp [outNalus_set hpair t7 t8 hn hty, hty]
        · simp only [not_or] at hty
          have hk : n ∈ keptNalus true ns := by
            rw [keptNalus_idr]
            simp [hn, isOther, h9, hty.1, hty.2]
          simp [mem_outNalus, hk, hty.1, hty.2]

/-- The packet of a one-chunk access unit with the key flag, sequence 0. -/
def keyPacket (au : Bytes) : Bytes := [0x4d, 0x4b, 13, 1, 0, 1, 0, 0, 0, 0, 0, 0] ++ au

/-- An IDR unit with two SPS, and what goes out for it. -/
def twoSps : List Bytes := [[0x67, 1], [0x67, 2], [0x68, 3], [0x65, 4]]
def twoSpsOut : List Bytes := [aud, [0x67, 2], [0x68, 3], [0x65, 4]]

/-- The first SPS of the unit is not in what goes out. -/
theorem first_sps_lost : splitAnnexB (annexB twoSps) = some twoSps ∧
    (emitted (run {} [.packet (keyPacket (annexB twoSps)) 0]).2).map
      (fun e => (e.frame.raw, e.out.data)) = [(annexB twoSps, annexB twoSpsOut)] ∧
    splitAnnexB (annexB twoSpsOut) = some twoSpsOut ∧
    [0x67, 1] ∈ twoSps ∧ naluType [0x67, 1] = 7 ∧ [0x67, 1] ∉ twoSpsOut := by decide

/-- The unit above, in a fresh depacketizer. -/
theorem assemble_units_twoSps : twoSpsOut.filter isOther = twoSps.filter isOther :=
  (assemble_units {} ⟨0, 1, 1, 1, 24, 0, [annexB twoSps]⟩ twoSps twoSpsOut ⟨annexB twoSpsOut, 0⟩
    ⟨_, [], rfl, .nil _⟩ (by decide) (by decide)).2.1

end KmVirtualCamera.L2.DcVideo
