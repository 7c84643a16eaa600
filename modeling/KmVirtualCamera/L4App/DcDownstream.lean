import Mathlib
import KmVirtualCamera.L2Machine.DcUnits
import KmVirtualCamera.L4App.ReceiverEngine

/-!
# What the engine reads in a DataChannel access unit

The depacketizer re-serialises units that one of two splitters accepted and
adds up to three of its own; the engine and the queue split the result again.
The two readings agree on a unit exactly when it is `Serialisable`. Two kinds
are not: an access unit that has more than 1024 units once the delimiter and
the parameter sets are in front, and a length-prefixed one with a unit that
contains a start code or ends in a zero byte.
-/
namespace KmVirtualCamera.L4.ReceiverEngine
open KmVirtualCamera.L1.H264 KmVirtualCamera.L2.VideoQueue
open KmVirtualCamera.L2 KmVirtualCamera.L2.DcVideo

/-- The access unit has an IDR. -/
def hasIdr (ns : List Bytes) : Bool := ns.any (naluType · == 5)

/-- The unit's own last parameter set of a type, else the cached one. -/
def setFor (t : UInt8) (cached : Bytes) (ns : List Bytes) : Bytes :=
  if ∃ n ∈ ns, naluType n = t then lastOf t ns else cached

/-- Neither a delimiter nor a parameter set of an IDR unit. -/
def copied (ns : List Bytes) (n : Bytes) : Bool :=
  !(naluType n == 9 || (hasIdr ns && (naluType n == 7 || naluType n == 8)))

/-- The access unit `ns`, met in the state `s`, survives being written and
split again. -/
structure Serialisable (s : Depacketizer) (ns : List Bytes) : Prop where
  count : ns.countP (copied ns) + (if hasIdr ns then 3 else 1) ≤ kMaxNalus
  units : ∀ n ∈ ns, copied ns n = true → Clean n
  sets : hasIdr ns = true → Clean (setFor 7 s.sps ns) ∧ Clean (setFor 8 s.pps ns)

/-- The consumer reads the units that were written, and takes the frame for a
random-access one exactly when the access unit `ns` has an IDR. -/
structure Understood (e : Emission) (ns : List Bytes) : Prop where
  split : splitAnnexB e.out.data = some e.nalus
  idr : configuredIdr e.out.data = hasIdr ns
  engine : ∀ a : Act, (onDcFrame a e).1.needKeyframe = if hasIdr ns then false else a.1.needKeyframe

theorem onDcFrame_needKeyframe (a : Act) (e : Emission) :
    (onDcFrame a e).1.needKeyframe = if configuredIdr e.out.data then false else a.1.needKeyframe := by
  simp only [onDcFrame, emitFrame]
  cases configuredIdr e.out.data <;> rfl

theorem hasIdr_scan (ns : List Bytes) : (scan ns).idr = hasIdr ns := (scan_eq ns).1

theorem keptNalus_copied (ns : List Bytes) : keptNalus (hasIdr ns) ns = ns.filter (copied ns) := rfl

/-- The sets the pair rule leaves are those of `setFor`. -/
theorem nextSets_setFor {s : Depacketizer} {f : Frame} {ns : List Bytes} {sps pps : Bytes}
    (hsp : splitAccessUnit f.raw = some ns) (h : nextSets s (scan ns) = some (sps, pps)) :
    sps = setFor 7 s.sps ns ∧ pps = setFor 8 s.pps ns := by
  obtain ⟨-, -, hv, -⟩ := splitAccessUnit_sound hsp
  rcases nextSets_cases h with ⟨h7, h8, rfl, rfl⟩ | ⟨h7, h8, rfl, rfl⟩
  · have m7 := lastOf_mem h7
    have m8 := lastOf_mem h8
    unfold setFor
    rw [if_pos ⟨_, m7⟩, if_pos ⟨_, m8⟩]
    exact ⟨rfl, rfl⟩
  · rw [lastOf_eq_nil_iff hv] at h7 h8
    unfold setFor
    rw [if_neg (by push Not; exact h7), if_neg (by push Not; exact h8)]
    exact ⟨rfl, rfl⟩

/-- What the re-splitting needs to know about an output. -/
structure Bounds (ns out : List Bytes) : Prop where
  valid : ∀ n ∈ out, validNalu n = true
  size : (annexB out).length ≤ kMaxAccessUnitBytes
  nonempty : out ≠ []

theorem output_bounds {s : Depacketizer} {f : Frame} {ns : List Bytes} {sps pps : Bytes}
    (hi : Inv s) (hf : f.WF) (hsp : splitAccessUnit f.raw = some ns)
    (hsets : nextSets s (scan ns) = some (sps, pps))
    (hconf : hasIdr ns = true → sps ≠ [] ∧ pps ≠ []) :
    Bounds ns (outNalus (hasIdr ns) sps pps ns) := by
  obtain ⟨-, hcount, hv, hsize⟩ := splitAccessUnit_sound hsp
  obtain ⟨i7, i8⟩ := nextSets_inv hi hf hsp hsets
  have hraw := hf.length_raw
  have haud : validNalu aud = true := by decide
  refine ⟨?_, ?_, by simp [outNalus]⟩
  · intro n hn
    rcases mem_outNalus.mp hn with rfl | ⟨hd, rfl | rfl⟩ | hk
    · exact haud
    · exact (i7 (hconf hd).1).1
    · exact (i8 (hconf hd).2).1
    · exact hv n (List.mem_filter.mp hk).1
  · -- the copied units are a sublist of the input
    have hsub : (keptNalus (hasIdr ns) ns).Sublist ns := List.filter_sublist
    have hsum : ((keptNalus (hasIdr ns) ns).map List.length).sum ≤ (ns.map List.length).sum :=
      (hsub.map List.length).sum_le_sum (by simp)
    have hlen := hsub.length_le
    have hsets' : hasIdr ns = true → sps.length ≤ kMaxRaw ∧ pps.length ≤ kMaxRaw :=
      fun hd => ⟨(i7 (hconf hd).1).2.2, (i8 (hconf hd).2).2.2⟩
    rw [length_annexB]
    unfold outNalus
    unfold kMaxRaw L1.DcWire.kMaxDcChunkPayload at *
    unfold kMaxNalus at hcount
    unfold kMaxAccessUnitBytes
    cases hd : hasIdr ns with
    | false =>
      rw [hd] at hsum hlen
      simp [aud]
      omega
    | true =>
      obtain ⟨l7, l8⟩ := hsets' hd
      rw [hd] at hsum hlen
      simp [aud]
      omega

/-- The consumer's verdict on one output. -/
theorem understood_iff {s : Depacketizer} {e : Emission} {ns : List Bytes} {sps pps : Bytes}
    (hi : Inv s) (hf : e.frame.WF) (hsp : splitAccessUnit e.frame.raw = some ns)
    (hsets : nextSets s (scan ns) = some (sps, pps))
    (hconf : hasIdr ns = true → sps ≠ [] ∧ pps ≠ [])
    (hn : e.nalus = outNalus (hasIdr ns) sps pps ns) (hdata : e.out.data = annexB e.nalus) :
    Understood e ns ↔ Serialisable s ns := by
  obtain ⟨hv, hsize, hne⟩ := output_bounds hi hf hsp hsets hconf
  obtain ⟨i7, i8⟩ := nextSets_inv hi hf hsp hsets
  obtain ⟨e7, e8⟩ := nextSets_setFor hsp hsets
  have hclean : Clean aud := by decide
  -- the second and third field follow from the first
  have hidr : splitAnnexB e.out.data = some e.nalus → configuredIdr e.out.data = hasIdr ns := by
    intro hs
    have h5 := outNalus_hasIdr sps pps ns
    rw [hasIdr_scan] at h5
    rw [Bool.eq_iff_iff, configuredIdr_of_split hs, hn, h5]
    refine ⟨fun h => h.2.2, fun hd => ⟨⟨sps, ?_, (i7 (hconf hd).1).2.1⟩, ⟨pps, ?_, (i8 (hconf hd).2).2.1⟩, hd⟩⟩
    · simp [outNalus, hd]
    · simp [outNalus, hd]
  have hfirst : Understood e ns ↔ splitAnnexB e.out.data = some e.nalus := by
    refine ⟨Understood.split, fun hs => ⟨hs, hidr hs, ?_⟩⟩
    intro a
    rw [onDcFrame_needKeyframe, hidr hs]
  rw [hfirst, hdata, hn, splitAnnexB_annexB_iff _ hne hv hsize]
  have hcount : (outNalus (hasIdr ns) sps pps ns).length =
      ns.countP (copied ns) + if hasIdr ns then 3 else 1 := by
    unfold outNalus
    rw [keptNalus_copied, List.countP_eq_length_filter]
    cases hasIdr ns <;> simp
  rw [hcount]
  constructor
  · rintro ⟨hl, hall⟩
    refine ⟨hl, fun n hn hc => hall n ?_, fun hd => ⟨hall _ ?_, hall _ ?_⟩⟩
    · exact mem_outNalus.mpr (.inr (.inr (List.mem_filter.mpr ⟨hn, hc⟩)))
    · exact mem_outNalus.mpr (.inr (.inl ⟨hd, .inl e7.symm⟩))
    · exact mem_outNalus.mpr (.inr (.inl ⟨hd, .inr e8.symm⟩))
  · rintro ⟨hl, hu, hs⟩
    refine ⟨hl, ?_⟩
    intro n hn
    rcases mem_outNalus.mp hn with rfl | ⟨hd, rfl | rfl⟩ | hk
    · exact hclean
    · rw [e7]; exact (hs hd).1
    · rw [e8]; exact (hs hd).2
    · obtain ⟨hm, hc⟩ := List.mem_filter.mp hk
      exact hu n hm hc

/-- **What the engine reads.** For every access unit handed on in any run:
it was assembled in some state `s` from the units `ns` of its frame; it goes
out as the delimiter, for an IDR unit the two sets, and the copied units; the
gate opens exactly for an IDR unit; and the consumer understands it if and
only if it is serialisable. -/
theorem emitted_understood (cs : List Call) : ∀ e ∈ emitted (run {} cs).2, ∃ s ns, Inv s ∧
    splitAccessUnit e.frame.raw = some ns ∧ (assemble s e.frame).2 = some (e.nalus, e.out) ∧
    (assemble s e.frame).1.waiting = (if hasIdr ns then false else s.waiting) ∧
    e.nalus = aud :: (if hasIdr ns then [setFor 7 s.sps ns, setFor 8 s.pps ns] else []) ++
      ns.filter (copied ns) ∧
    (Understood e ns ↔ Serialisable s ns) := by
  intro e he
  have hs := emitted_sound cs (inv_start 1) e he
  obtain ⟨s, hi, hm⟩ := hs.made
  have ha := assemble_cases s e.frame
  generalize hr : assemble s e.frame = r at ha hm
  cases ha with
  | refused => cases hm
  | output ns sps pps split sets key gate configured =>
    simp only [Option.some.injEq, Prod.mk.injEq] at hm
    obtain ⟨hn, ho⟩ := hm
    rw [hasIdr_scan] at configured hn ho
    obtain ⟨e7, e8⟩ := nextSets_setFor split sets
    refine ⟨s, ns, hi, split, ?_, ?_, ?_, ?_⟩
    · rw [hr, hasIdr_scan, ← hn, ← ho]
    · rw [hr, hasIdr_scan]
    · rw [← hn, e7, e8]; rfl
    · refine understood_iff hi hs.wf split sets configured hn.symm ?_
      rw [← ho, ← hn, outData_eq]

/-- An IDR unit, length-prefixed, whose slice contains a start code. -/
def startCodeInside : List Bytes := [[0x67, 1], [0x68, 2], [0x65, 0, 0, 1, 0x80]]

/-- The one frame a fresh depacketizer emits for it. -/
theorem emitted_understood_startCodeInside :
    ∃ e ∈ emitted (run {} [.packet (keyPacket (avcc startCodeInside)) 0]).2, ∃ s ns,
      splitAccessUnit e.frame.raw = some ns ∧ (Understood e ns ↔ Serialisable s ns) := by
  obtain ⟨e, he⟩ := List.exists_mem_of_ne_nil
    (emitted (run {} [.packet (keyPacket (avcc startCodeInside)) 0]).2) (by decide)
  obtain ⟨s, ns, -, hsplit, -, -, -, hiff⟩ := emitted_understood _ e he
  exact ⟨e, he, s, ns, hsplit, hiff⟩

/-- The depacketizer emits it and leaves its waiting state, the consumer cannot
split it, and the engine goes on asking for a keyframe. -/
theorem startCodeInside_misread :
    (emitted (run {} [.packet (keyPacket (avcc startCodeInside)) 0]).2).map
      (fun e => (e.frame.raw, e.nalus, e.out.data)) =
        [(avcc startCodeInside, aud :: startCodeInside, annexB (aud :: startCodeInside))] ∧
    splitAccessUnit (avcc startCodeInside) = some startCodeInside ∧ hasIdr startCodeInside = true ∧
    (run {} [.packet (keyPacket (avcc startCodeInside)) 0]).1.waiting = false ∧
    splitAnnexB (annexB (aud :: startCodeInside)) = none ∧
    configuredIdr (annexB (aud :: startCodeInside)) = false ∧
    (processDataChannelPacket {} (keyPacket (avcc startCodeInside)) 0).1.needKeyframe = true := by
  decide

end KmVirtualCamera.L4.ReceiverEngine
