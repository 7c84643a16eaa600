import Mathlib
import KmVirtualCamera.L2Machine.RtpVideo

/-!
# Where the depacketizer reads the sequence number and the SSRC

Only `processRtpPacket` itself does: what it does with a packet that it has
accepted commutes with another SSRC and another sequence number in the state,
and with another log before (`moved`).

* `accept_core`: of an accepted packet the number is recorded, and the rest does
  not depend on it.
* `processRtpPacket_next`, `processRtpPacket_stale`: the packet that comes next
  is accepted; one that is not ahead changes nothing.
-/
namespace KmVirtualCamera.L2.RtpVideo
open KmVirtualCamera.L1.RtpWire
open KmVirtualCamera.L1.H264 (naluType appendAnnexB)

/-- The fields that say which packet comes next. -/
structure Link where
  haveSsrc : Bool
  ssrc : UInt32
  haveSequence : Bool
  sequence : UInt16

def Depacketizer.link (s : Depacketizer) : Link := ⟨s.haveSsrc, s.ssrc, s.haveSequence, s.sequence⟩

def Depacketizer.relink (s : Depacketizer) (k : Link) : Depacketizer :=
  { s with haveSsrc := k.haveSsrc, ssrc := k.ssrc, haveSequence := k.haveSequence, sequence := k.sequence }

@[simp] theorem relink_link (s : Depacketizer) : s.relink s.link = s := rfl

@[simp] theorem link_relink (s : Depacketizer) (k : Link) : (s.relink k).link = k := rfl

@[simp] theorem relink_au (s : Depacketizer) (k : Link) : (s.relink k).au = s.au := rfl

@[simp] theorem relink_fu (s : Depacketizer) (k : Link) : (s.relink k).fu = s.fu := rfl

@[simp] theorem relink_fuHeader (s : Depacketizer) (k : Link) : (s.relink k).fuHeader = s.fuHeader := rfl

@[simp] theorem relink_timestamp (s : Depacketizer) (k : Link) : (s.relink k).timestamp = s.timestamp := rfl

@[simp] theorem relink_haveTimestamp (s : Depacketizer) (k : Link) :
    (s.relink k).haveTimestamp = s.haveTimestamp := rfl

@[simp] theorem relink_damaged (s : Depacketizer) (k : Link) : (s.relink k).damaged = s.damaged := rfl

/-- The same with other link fields, after another log. -/
def moved (k : Link) (pre : Log) (c : Depacketizer × Log) : Depacketizer × Log := (c.1.relink k, pre ++ c.2)

variable (k : Link) (pre : Log) (s : Depacketizer) (l : Log)

/-! ## Access units -/

theorem lose_moved : lose (s.relink k) (pre ++ l) = moved k pre (lose s l) := by
  unfold lose moved
  rw [List.append_assoc]
  rfl

theorem emit_moved : emit (s.relink k) (pre ++ l) = moved k pre (emit s l) := by
  have hgood : good (s.relink k) ↔ good s := Iff.rfl
  have hmissing : missing (s.relink k) = missing s := rfl
  unfold emit moved
  simp only [hgood, hmissing, relink_au]
  by_cases hg : good s
  · simp only [if_pos hg]
    by_cases hbig : s.au.length > kMaxAccessUnitBytes - ((missing s).foldl appendAnnexB []).length
    · rw [if_pos hbig, if_pos hbig, List.append_assoc]
      rfl
    · rw [if_neg hbig, if_neg hbig]
      by_cases hne : (missing s).foldl appendAnnexB [] ++ s.au ≠ []
      · rw [if_pos hne, if_pos hne, List.append_assoc]
        rfl
      · rw [if_neg hne, if_neg hne, List.append_assoc]
        rfl
  · rw [if_neg hg, if_neg hg, List.append_assoc]
    rfl

theorem note_moved (n : Bytes) : (s.relink k).note n = (s.note n).relink k := by
  unfold Depacketizer.note
  show (if naluType n = 7 then _ else _) = _
  by_cases h7 : naluType n = 7
  · rw [if_pos h7, if_pos h7]
    rfl
  · rw [if_neg h7, if_neg h7]
    by_cases h8 : naluType n = 8
    · rw [if_pos h8, if_pos h8]
      rfl
    · rw [if_neg h8, if_neg h8]

theorem appendNalu_moved (n : Bytes) :
    appendNalu (s.relink k) (pre ++ l) n = (appendNalu s l n).map (moved k pre) := by
  unfold appendNalu
  rw [note_moved, List.append_assoc, relink_au]
  split
  · rfl
  · split
    · rfl
    · rfl

/-! ## Payloads -/

/-- `moved`, with the source's `ok`. -/
def movedOk (c : (Depacketizer × Log) × Bool) : (Depacketizer × Log) × Bool := (moved k pre c.1, c.2)

theorem single_moved (p : Bytes) : single (s.relink k) (pre ++ l) p = movedOk k pre (single s l p) := by
  unfold single
  rw [appendNalu_moved, relink_fu]
  split
  · rfl
  · cases appendNalu s l p with
    | none => rfl
    | some c => rfl

theorem appendAll_moved : ∀ (ns : List Bytes) (s : Depacketizer) (l : Log),
    appendAll (s.relink k) (pre ++ l) ns = movedOk k pre (appendAll s l ns)
  | [], _, _ => rfl
  | n :: ns, s, l => by
    unfold appendAll
    rw [appendNalu_moved]
    cases appendNalu s l n with
    | none => rfl
    | some c => exact appendAll_moved ns c.1 c.2

theorem stapA_moved (p : Bytes) : stapA (s.relink k) (pre ++ l) p = movedOk k pre (stapA s l p) := by
  unfold stapA
  cases stapNalus p.length 0 p.tail with
  | none => rfl
  | some ns =>
    dsimp only
    rw [relink_fu, relink_au]
    split
    · exact appendAll_moved k pre ns s l
    · rfl

theorem fuData_moved (data : Bytes) (last : Bool) :
    fuData (s.relink k) (pre ++ l) data last = movedOk k pre (fuData s l data last) := by
  unfold fuData
  rw [relink_fu, relink_au, appendNalu_moved]
  split
  · rfl
  · split
    · cases appendNalu s l (s.fu ++ data) with
      | none => rfl
      | some c => rfl
    · rfl

theorem fuA_moved (p : Bytes) : fuA (s.relink k) (pre ++ l) p = movedOk k pre (fuA s l p) := by
  unfold fuA
  split
  · rename_i p0 p1 p2 data
    dsimp only
    rw [relink_fu, relink_fuHeader]
    split
    · rfl
    · split
      · split
        · rfl
        · exact fuData_moved k pre { s with fuHeader := _, fu := _ } l _ _
      · split
        · rfl
        · exact fuData_moved k pre s l _ _
  · rfl

theorem payload_moved (p : Bytes) : payload (s.relink k) (pre ++ l) p = movedOk k pre (payload s l p) := by
  unfold payload
  simp only [single_moved, stapA_moved, fuA_moved]
  split
  · rfl
  · split
    · rfl
    · split
      · rfl
      · rfl

theorem payload_link (p : Bytes) : (payload s l p).1.1.link = s.link := by
  have hpay := payload_moved s.link [] s l p
  rw [relink_link, List.nil_append] at hpay
  rw [hpay]
  rfl

/-! ## Packets -/

/-- A refused payload loses the access unit. -/
def settle (c : (Depacketizer × Log) × Bool) : Depacketizer × Log :=
  if c.2 then c.1 else lose c.1.1 (c.1.2 ++ [.rejected])

/-- The marker ends the access unit. -/
def finish (c : Depacketizer × Log) (marker : Bool) : Depacketizer × Log :=
  if marker then ({ (emit c.1 c.2).1 with haveTimestamp := false }, (emit c.1 c.2).2) else c

variable (p : RtpPacket)

theorem consume_eq : consume s l p = if p.payload.headD 0 &&& 128 ≠ 0 then lose s (l ++ [.rejected])
    else finish (settle (payload s l p.payload)) p.marker := rfl

theorem settle_moved (c : (Depacketizer × Log) × Bool) :
    settle (movedOk k pre c) = moved k pre (settle c) := by
  unfold settle movedOk
  split
  · rfl
  · show lose (c.1.1.relink k) (pre ++ c.1.2 ++ [.rejected]) = _
    rw [List.append_assoc, lose_moved]

theorem finish_moved (c : Depacketizer × Log) (marker : Bool) :
    finish (moved k pre c) marker = moved k pre (finish c marker) := by
  have hemit : emit (moved k pre c).1 (moved k pre c).2 = moved k pre (emit c.1 c.2) := emit_moved k pre c.1 c.2
  unfold finish
  rw [hemit]
  split
  · rfl
  · rfl

theorem finish_link (c : Depacketizer × Log) (marker : Bool) : (finish c marker).1.link = c.1.link := by
  have hfinish := finish_moved c.1.link [] c marker
  rw [show moved c.1.link [] c = c from rfl] at hfinish
  rw [hfinish]
  rfl

theorem consume_moved (q : UInt16) :
    consume (s.relink k) (pre ++ l) (renumbered p q) = moved k pre (consume s l p) := by
  rw [consume_eq, consume_eq]
  show (if p.payload.headD 0 &&& 128 ≠ 0 then lose (s.relink k) (pre ++ l ++ [.rejected])
    else finish (settle (payload (s.relink k) (pre ++ l) p.payload)) p.marker) = _
  rw [List.append_assoc, lose_moved, payload_moved, settle_moved, finish_moved]
  split
  · rfl
  · rfl

def lost (P : Prop) [Decidable P] (c : Depacketizer × Log) : Depacketizer × Log := if P then lose c.1 c.2 else c

theorem lost_moved (P : Prop) [Decidable P] (c : Depacketizer × Log) :
    lost P (moved k pre c) = moved k pre (lost P c) := by
  unfold lost
  split
  · exact lose_moved k pre c.1 c.2
  · rfl

theorem boundary_moved (q : UInt16) (gap : Bool) :
    boundary (s.relink k) (pre ++ l) (renumbered p q) gap = moved k pre (boundary s l p gap) := by
  have hlost := lost_moved k pre (gap = true ∨ s.fu ≠ []) (s, l)
  show (if s.haveTimestamp = true ∧ p.timestamp ≠ s.timestamp then
      emit (lost (gap = true ∨ s.fu ≠ []) (moved k pre (s, l))).1
        (lost (gap = true ∨ s.fu ≠ []) (moved k pre (s, l))).2
    else moved k pre (s, l)) = moved k pre (if s.haveTimestamp = true ∧ p.timestamp ≠ s.timestamp then
      emit (lost (gap = true ∨ s.fu ≠ []) (s, l)).1 (lost (gap = true ∨ s.fu ≠ []) (s, l)).2
    else (s, l))
  rw [hlost]
  split
  · exact emit_moved k pre _ _
  · rfl

/-- The access unit's timestamp is the packet's. -/
def stamp (c : Depacketizer × Log) : Depacketizer × Log :=
  ({ c.1 with timestamp := p.timestamp, haveTimestamp := true }, c.2)

/-- Of a damaged access unit only the end is of interest. -/
def take (c : Depacketizer × Log) : Depacketizer × Log :=
  if c.1.damaged then
    if p.marker then ({ clearAu c.1 with haveTimestamp := false }, c.2) else c
  else consume c.1 c.2 p

theorem accept_eq (gap : Bool) :
    accept s l p gap = take p (lost (gap = true) (stamp p
      ((boundary { s with sequence := p.sequence, haveSequence := true } l p gap).1,
        (boundary { s with sequence := p.sequence, haveSequence := true } l p gap).2 ++
          [.accepted p.sequence]))) := rfl

theorem take_moved (q : UInt16) (c : Depacketizer × Log) :
    take (renumbered p q) (moved k pre c) = moved k pre (take p c) := by
  show (if c.1.damaged = true then
      if p.marker = true then ({ clearAu (c.1.relink k) with haveTimestamp := false }, pre ++ c.2) else moved k pre c
    else consume (c.1.relink k) (pre ++ c.2) (renumbered p q)) = moved k pre (if c.1.damaged = true then
      if p.marker = true then ({ clearAu c.1 with haveTimestamp := false }, c.2) else c
    else consume c.1 c.2 p)
  rw [consume_moved]
  split
  · split
    · rfl
    · rfl
  · rfl

/-- An accepted packet, seen from a state that differs in the link fields: the
number goes into the state and the log, and the rest is the same. -/
theorem accept_core (q : UInt16) (gap : Bool) :
    accept (s.relink k) l (renumbered p q) gap =
      moved ⟨k.haveSsrc, k.ssrc, true, q⟩ ((boundary s l p gap).2 ++ [.accepted q])
        (take p (lost (gap = true) (stamp p ((boundary s l p gap).1, [])))) := by
  have hb : boundary { s.relink k with sequence := q, haveSequence := true } l (renumbered p q) gap =
      moved ⟨k.haveSsrc, k.ssrc, true, q⟩ [] (boundary s l p gap) :=
    boundary_moved ⟨k.haveSsrc, k.ssrc, true, q⟩ [] s l p q gap
  rw [accept_eq, show (renumbered p q).sequence = q from rfl, hb]
  have hstamp : ((moved ⟨k.haveSsrc, k.ssrc, true, q⟩ [] (boundary s l p gap)).1,
      (moved ⟨k.haveSsrc, k.ssrc, true, q⟩ [] (boundary s l p gap)).2 ++ [.accepted q]) =
      moved ⟨k.haveSsrc, k.ssrc, true, q⟩ ((boundary s l p gap).2 ++ [.accepted q])
        ((boundary s l p gap).1, []) := by
    simp [moved]
  rw [hstamp]
  have hsplit : ∀ (k : Link) (pre : Log) (c : Depacketizer × Log),
      stamp (renumbered p q) (moved k pre c) = moved k pre (stamp p c) := fun _ _ _ => rfl
  rw [hsplit, lost_moved, take_moved]

theorem accept_link (gap : Bool) :
    (accept s l p gap).1.link = ⟨s.haveSsrc, s.ssrc, true, p.sequence⟩ := by
  have hcore := accept_core s.link s l p p.sequence gap
  rw [relink_link] at hcore
  rw [show accept s l p gap = _ from hcore]
  rfl

/-! ## Datagrams -/

section Datagram
variable {s : Depacketizer} {p : RtpPacket} {bytes : Bytes}

theorem processRtpPacket_next (hp : parseRtp bytes = some p) (source : s.haveSsrc = true → s.ssrc = p.ssrc)
    (next : s.haveSequence = true → p.sequence = s.sequence + 1) :
    processRtpPacket s l bytes = accept { s with haveSsrc := true, ssrc := p.ssrc } l p false := by
  have hsame : ¬ (s.haveSsrc = true ∧ p.ssrc ≠ s.ssrc) := fun h => h.2 (source h.1).symm
  unfold processRtpPacket
  rw [hp]
  simp only [if_neg hsame]
  split
  · rename_i hseq
    rw [next hseq, sequenceDelta_eq_one.mpr rfl, if_neg (by decide)]
    rfl
  · rfl

theorem processRtpPacket_stale (hp : parseRtp bytes = some p) (source : s.haveSsrc = true)
    (hsrc : p.ssrc = s.ssrc)
    (hseq : s.haveSequence = true) (hold : sequenceDelta p.sequence s.sequence ≤ 0) :
    processRtpPacket s l bytes = (s, l) := by
  have hsame : ({ s with haveSsrc := true, ssrc := p.ssrc } : Depacketizer) = s := by
    rw [hsrc, ← source]
  have hno : ¬ (s.haveSsrc = true ∧ p.ssrc ≠ s.ssrc) := fun h => h.2 hsrc
  unfold processRtpPacket
  rw [hp]
  simp only [if_neg hno, if_pos hseq, if_pos hold, hsame]

/-- A packet with this SSRC and number is accepted and leaves no gap. -/
def Meets (ssrc : UInt32) (q : UInt16) (s : Depacketizer) : Prop :=
  ¬ (s.haveSsrc = true ∧ ssrc ≠ s.ssrc) → s.haveSequence = true → q = s.sequence + 1

theorem meets_of_link {ssrc : UInt32} {q n : UInt16} {s : Depacketizer} (h : s.link = ⟨true, ssrc, true, q⟩)
    (hn : n = q + 1) : Meets ssrc n s := by
  injection h with _ _ _ hsequence
  intro _ _
  rw [hn, hsequence]

def noLink : Link := ⟨false, 0, false, 0⟩

/-- What becomes of a packet that leaves no gap, with the log before its number
is recorded. -/
def core (s : Depacketizer) (p : RtpPacket) : Log × (Depacketizer × Log) :=
  let c := if s.haveSsrc = true ∧ p.ssrc ≠ s.ssrc then (reset s, [.ssrcChange]) else (s, [])
  let b := boundary (c.1.relink noLink) c.2 p false
  (b.2, take p (stamp p (b.1, [])))

/-- It depends neither on the number nor on the one before. -/
theorem core_sequence (s : Depacketizer) (p : RtpPacket) (q : UInt16) :
    core { s with sequence := q } p = core s p := by
  unfold core
  dsimp only
  split
  · rfl
  · rfl

theorem processRtpPacket_core {q : UInt16} (hp : parseRtp bytes = some (renumbered p q)) (h : Meets p.ssrc q s) :
    processRtpPacket s [] bytes = moved ⟨true, p.ssrc, true, q⟩ ((core s p).1 ++ [.accepted q]) (core s p).2 := by
  unfold processRtpPacket core
  rw [hp]
  dsimp only
  by_cases hsrc : s.haveSsrc = true ∧ p.ssrc ≠ s.ssrc
  · have hother : s.haveSsrc = true ∧ (renumbered p q).ssrc ≠ s.ssrc := hsrc
    simp only [if_pos hsrc, if_pos hother]
    exact accept_core ⟨true, p.ssrc, false, s.sequence⟩ ((reset s).relink noLink) [.ssrcChange] p q false
  · have hsame : ¬ (s.haveSsrc = true ∧ (renumbered p q).ssrc ≠ s.ssrc) := hsrc
    have hcore := accept_core ⟨true, p.ssrc, s.haveSequence, s.sequence⟩ (s.relink noLink) [] p q false
    simp only [if_neg hsrc, if_neg hsame]
    split
    · rename_i hseq
      rw [show (renumbered p q).sequence = s.sequence + 1 from h hsrc hseq, sequenceDelta_eq_one.mpr rfl,
        if_neg (by decide)]
      exact hcore
    · exact hcore

/-- A packet that is ahead, but not the next one, loses the access unit. -/
theorem processRtpPacket_gap (hp : parseRtp bytes = some p) (hsrc : s.haveSsrc = true ∧ s.ssrc = p.ssrc)
    (hseq : s.haveSequence = true) (hahead : 0 < sequenceDelta p.sequence s.sequence)
    (hgap : p.sequence ≠ s.sequence + 1) :
    .keyframe ∈ (processRtpPacket s l bytes).2 ∧
      (processRtpPacket s l bytes).1.link = ⟨true, p.ssrc, true, p.sequence⟩ := by
  have hsame : ¬ (s.haveSsrc = true ∧ p.ssrc ≠ s.ssrc) := fun h => h.2 hsrc.2.symm
  have hone : sequenceDelta p.sequence s.sequence ≠ 1 := fun h => hgap (sequenceDelta_eq_one.mp h)
  have hrun : processRtpPacket s l bytes = accept { s with haveSsrc := true, ssrc := p.ssrc } l p true := by
    unfold processRtpPacket
    rw [hp]
    simp only [if_neg hsame, if_pos hseq, if_neg (not_le.mpr hahead), decide_eq_true hone]
  rw [hrun, accept_link, accept_eq]
  refine ⟨?_, rfl⟩
  generalize boundary _ l p true = b
  show .keyframe ∈ (if p.marker = true then _ else _ : Depacketizer × Log).2
  split
  · simp [lost, lose]
  · simp [lost, lose]

/-- The link fields after the packet that comes next. -/
theorem processRtpPacket_link (hp : parseRtp bytes = some p) (source : s.haveSsrc = true → s.ssrc = p.ssrc)
    (next : s.haveSequence = true → p.sequence = s.sequence + 1) :
    (processRtpPacket s l bytes).1.link = ⟨true, p.ssrc, true, p.sequence⟩ := by
  rw [processRtpPacket_next l hp source next, accept_link]

end Datagram

end KmVirtualCamera.L2.RtpVideo
