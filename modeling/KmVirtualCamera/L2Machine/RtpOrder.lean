import Mathlib
import KmVirtualCamera.L2Machine.RtpRules

/-!
# The order of the parameter sets in an emitted IDR unit

At emission the cached sets that the access unit is short of are put before it,
the SPS first. When the unit has neither, or only a PPS, or both, the result
begins as a decoder expects. When it has an SPS of its own and no PPS, the
cached PPS comes before that SPS.

* `setsFirst_iff`: for access units that are themselves in order, that is the
  only way to a wrong order.
* `setsFirst_ownSps`: a run that shows it.
-/
namespace KmVirtualCamera.L2.RtpVideo
open KmVirtualCamera.L1.RtpWire
open KmVirtualCamera.L1.H264 (naluType)

/-- The units gathered include one of this type. -/
def Depacketizer.Gathers (s : Depacketizer) (type : UInt8) : Prop := ∃ n ∈ s.nalus, naluType n = type

instance (s : Depacketizer) (type : UInt8) : Decidable (s.Gathers type) :=
  inferInstanceAs (Decidable (∃ n ∈ s.nalus, _))

/-- An SPS before the first PPS, and a PPS before the first IDR slice. -/
def SetsFirst (ns : List Bytes) : Prop :=
  (∃ n ∈ ns.takeWhile (naluType · != 8), naluType n = 7) ∧ ∃ n ∈ ns.takeWhile (naluType · != 5), naluType n = 8

instance (ns : List Bytes) : Decidable (SetsFirst ns) := inferInstanceAs (Decidable (_ ∧ _))

/-- As a sender orders an access unit: no PPS before an SPS, no parameter set
after a slice. Either set may be absent. -/
def Ordered (ns : List Bytes) : Prop :=
  ns.Pairwise fun a b => ¬ (naluType a = 8 ∧ naluType b = 7) ∧
    ¬ (isVcl a = true ∧ (naluType b = 7 ∨ naluType b = 8))

instance (ns : List Bytes) : Decidable (Ordered ns) := inferInstanceAs (Decidable (ns.Pairwise _))

/-! ## The two flags -/

/-- What `hasSps_` and `hasPps_` say. -/
structure SetFlags (s : Depacketizer) : Prop where
  sps : s.damaged = false → (s.hasSps = true ↔ s.Gathers 7)
  pps : s.damaged = false → (s.hasPps = true ↔ s.Gathers 8)

theorem note_flags (s : Depacketizer) (n : Bytes) :
    (s.note n).hasSps = (s.hasSps || naluType n == 7) ∧ (s.note n).hasPps = (s.hasPps || naluType n == 8) := by
  unfold Depacketizer.note
  by_cases h7 : naluType n = 7
  · rw [if_pos h7]
    simp [h7]
  · rw [if_neg h7]
    by_cases h8 : naluType n = 8
    · rw [if_pos h8]
      simp [h8]
    · rw [if_neg h8]
      simp [h7, h8]

theorem gathers_append {ns : List Bytes} {n : Bytes} {type : UInt8} :
    (∃ m ∈ ns ++ [n], naluType m = type) ↔ (∃ m ∈ ns, naluType m = type) ∨ naluType n = type := by
  simp only [List.mem_append, List.mem_singleton, or_and_right, exists_or, exists_eq_left]

theorem setFlags_append {s : Depacketizer} {l : Log} {n : Bytes} {c : Depacketizer × Log} (h : SetFlags s)
    (ha : appendNalu s l n = some c) : SetFlags c.1 := by
  obtain ⟨-, -, -, -, rfl⟩ := appendNalu_some ha
  obtain ⟨-, -, -, -, hd, -⟩ := note_frame s n
  obtain ⟨h7, h8⟩ := note_flags s n
  refine ⟨?_, ?_⟩
  · intro h0
    show (s.note n).hasSps = true ↔ ∃ m ∈ s.nalus ++ [n], naluType m = 7
    rw [gathers_append, h7, Bool.or_eq_true, beq_iff_eq, h.sps (hd.symm.trans h0)]
    rfl
  · intro h0
    show (s.note n).hasPps = true ↔ ∃ m ∈ s.nalus ++ [n], naluType m = 8
    rw [gathers_append, h8, Bool.or_eq_true, beq_iff_eq, h.pps (hd.symm.trans h0)]
    rfl

theorem setFlags_clear (s : Depacketizer) : SetFlags (clearAu s) :=
  ⟨fun _ => by simp [clearAu, Depacketizer.Gathers], fun _ => by simp [clearAu, Depacketizer.Gathers]⟩

theorem setFlags_stable : Stable fun s _ => Inv s ∧ SetFlags s where
  append h ha := ⟨inv_append h.1 ha, setFlags_append h.2 ha⟩
  fragment fu header h hfu := ⟨inv_stable.fragment (l := []) fu header h.1 hfu, h.2.sps, h.2.pps⟩
  init := ⟨inv_reset {}, setFlags_clear {}⟩
  reset {s _} _ _ _ := ⟨inv_reset s, (setFlags_clear s).sps, (setFlags_clear s).pps⟩
  lose _ h _ := ⟨inv_lose h.1 _, nofun, nofun⟩
  emit {s l} h := by
    refine ⟨inv_emit l h.1, ?_⟩
    rcases emit_handedOver h.1 l with ⟨-, he⟩ | ⟨-, w, he, -⟩
    · rw [he]
      exact setFlags_clear _
    · rw [he]
      exact setFlags_clear _
  skip h _ := ⟨inv_clearAu h.1 _, setFlags_clear _⟩
  accepted _ h := h
  header t ssrc q a b d h := ⟨inv_stable.header (l := []) t ssrc q a b d h.1, h.2.sps, h.2.pps⟩

/-! ## One emission -/

/-- What cannot follow anything that fails `q` is in the first stretch of `q`. -/
theorem mem_takeWhile {α : Type*} {R : α → α → Prop} {q : α → Bool} {x : α} : ∀ {xs : List α}, xs.Pairwise R →
    x ∈ xs → q x = true → (∀ y, q y = false → ¬ R y x) → x ∈ xs.takeWhile q
  | y :: ys, h, hx, hq, hlate => by
    obtain ⟨hy, hrest⟩ := List.pairwise_cons.mp h
    cases hqy : q y with
    | true =>
      rw [List.takeWhile_cons_of_pos hqy]
      rcases List.mem_cons.mp hx with rfl | hx
      · exact List.mem_cons_self ..
      · exact List.mem_cons_of_mem _ (mem_takeWhile hrest hx hq hlate)
    | false =>
      rcases List.mem_cons.mp hx with rfl | hx
      · rw [hq] at hqy
        cases hqy
      · exact absurd (hy x hx) (hlate y hqy)

theorem Ordered.ppsBeforeIdr {ns : List Bytes} (h : Ordered ns) (hpps : ∃ n ∈ ns, naluType n = 8) :
    ∃ n ∈ ns.takeWhile (naluType · != 5), naluType n = 8 := by
  obtain ⟨n, hn, h8⟩ := hpps
  refine ⟨n, mem_takeWhile h hn (by simp [h8]) fun y hy hr => hr.2 ⟨?_, .inr h8⟩, h8⟩
  have h5 : naluType y = 5 := by simpa using hy
  simp [isVcl, h5]

theorem Ordered.spsBeforePps {ns : List Bytes} (h : Ordered ns) (hsps : ∃ n ∈ ns, naluType n = 7) :
    ∃ n ∈ ns.takeWhile (naluType · != 8), naluType n = 7 := by
  obtain ⟨n, hn, h7⟩ := hsps
  exact ⟨n, mem_takeWhile h hn (by simp [h7]) fun y hy hr => hr.1 ⟨by simpa using hy, h7⟩, h7⟩

/-- The order of an IDR unit that `emit` hands over. -/
theorem emission_setsFirst {s : Depacketizer} (h : Inv s) (hf : SetFlags s) (hok : good s) (hidr : s.idr = true)
    (ho : Ordered s.nalus) : SetsFirst s.emission.nalus ↔ (s.Gathers 7 → s.Gathers 8) := by
  have hsps := hf.sps hok.1
  have hpps := hf.pps hok.1
  obtain ⟨hs, hp⟩ := hok.2.2.2.2.resolve_left (by simp [hidr])
  have h7 := h.sps hs
  have h8 := h.pps hp
  unfold SetsFirst Depacketizer.emission missing
  rw [if_pos hidr]
  rw [← hsps, ← hpps]
  cases hs' : s.hasSps with
  | false =>
    -- the cached SPS is in front
    have hskip : naluType s.sps != 5 := by simp [h7]
    have hfirst : naluType s.sps != 8 := by simp [h7]
    refine ⟨fun _ hno => (nomatch hno), fun _ => ⟨⟨s.sps, ?_, h7⟩, ?_⟩⟩
    · simp [hfirst]
    · cases hp' : s.hasPps with
      | false => exact ⟨s.pps, by simp [hskip, h8], h8⟩
      | true =>
        obtain ⟨n, hn, hn8⟩ := ho.ppsBeforeIdr (hpps.mp hp')
        exact ⟨n, by simp [hskip, hn], hn8⟩
  | true =>
    cases hp' : s.hasPps with
    | false =>
      -- the cached PPS is in front, and nothing before it
      refine ⟨?_, fun hh => (nomatch hh rfl)⟩
      intro hh
      obtain ⟨n, hn, -⟩ := hh.1
      simp [h8] at hn
    | true => exact ⟨fun _ _ => rfl, fun _ => ⟨ho.spsBeforePps (hsps.mp hs'), ho.ppsBeforeIdr (hpps.mp hp')⟩⟩

/-! ## Runs -/

/-- **When the order is right.** Of a stream whose access units are in order,
every emitted unit with an IDR has its sets first, if and only if no unit handed
over has an IDR and an SPS, and no PPS. -/
theorem setsFirst_iff (cs : List Call) (h : ∀ x ∈ runEnds cs, Ordered x.1.nalus) :
    (∀ e ∈ emissions (run cs).2, e.hasIdr → SetsFirst e.nalus) ↔
      ∀ x ∈ runEnds cs, x.1.HandedOver → x.1.Gathers 5 → x.1.Gathers 7 → x.1.Gathers 8 := by
  have hone : ∀ x ∈ runEnds cs, x.1.HandedOver → (x.1.emission.hasIdr ↔ x.1.Gathers 5) ∧
      (x.1.Gathers 5 → (SetsFirst x.1.emission.nalus ↔ (x.1.Gathers 7 → x.1.Gathers 8))) := by
    intro x hx hh
    obtain ⟨hinv, hflags⟩ := setFlags_stable.ends hx
    have hidr := hinv.idr hh.1.1
    exact ⟨(emission_hasIdr hinv hh.1).trans hidr,
      fun h5 => emission_setsFirst hinv hflags hh.1 (hidr.mpr h5) (h x hx)⟩
  constructor
  · intro hall x hx hh h5
    have he := hall x.1.emission (mem_emissions_run.mpr ⟨x, hx, hh, rfl⟩) ((hone x hx hh).1.mpr h5)
    exact ((hone x hx hh).2 h5).mp he
  · intro hall e he hidr
    obtain ⟨x, hx, hh, rfl⟩ := mem_emissions_run.mp he
    have h5 := (hone x hx hh).1.mp hidr
    exact ((hone x hx hh).2 h5).mpr (hall x hx hh h5)

/-- A packet of one unit, of SSRC 7. -/
def onePacket (sequence timestamp : UInt8) (marker : Bool) (n : Bytes) : Call :=
  .packet ([0x80, if marker then 0xE0 else 0x60, 0, sequence, 0, 0, 0, timestamp, 0, 0, 0, 7] ++ n)

/-- A complete IDR unit, and one that repeats the SPS only. -/
def ownSps : List Call :=
  [onePacket 0 10 false [0x67, 1], onePacket 1 10 false [0x68, 2], onePacket 2 10 true [0x65, 3],
   onePacket 3 20 false [0x67, 1], onePacket 4 20 true [0x65, 4]]

/-- The second unit has no sets of its own. -/
def bareIdr : List Call :=
  [onePacket 0 10 false [0x67, 1], onePacket 1 10 false [0x68, 2], onePacket 2 10 true [0x65, 3],
   onePacket 3 20 true [0x65, 4]]

theorem setsFirst_iff_bareIdr : (∀ x ∈ runEnds bareIdr, Ordered x.1.nalus) ∧
    ∀ e ∈ emissions (run bareIdr).2, e.hasIdr → SetsFirst e.nalus :=
  ⟨by decide, (setsFirst_iff bareIdr (by decide)).mpr (by decide)⟩

/-- The second unit goes out with the cached PPS before its SPS. -/
theorem setsFirst_ownSps : (∀ x ∈ runEnds ownSps, Ordered x.1.nalus) ∧
    ∃ e ∈ emissions (run ownSps).2, e.nalus = [[0x68, 2], [0x67, 1], [0x65, 4]] ∧ ¬ SetsFirst e.nalus := by
  constructor
  · decide
  · decide

end KmVirtualCamera.L2.RtpVideo
