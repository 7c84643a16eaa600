import Mathlib
import KmVirtualCamera.L2Machine.RtpChain
import KmVirtualCamera.L2Machine.RtpLink

/-!
# An invariant rule for the depacketizer, and where access units end

A datagram runs through a dozen branches, but there are few things that a
branch can do to the state: append a unit, change the fragment in progress, set
header fields, lose or end the access unit. `Keeps` lists them, `KeepsCall`
adds the resets and `Stable` the start. What they all keep holds after every call
(`Stable.run`) and also inside the calls, whenever `emit` is entered
(`Stable.ends`).

`runEnds` lists the states in which a run enters `emit`, at most two for a
packet: its timestamp ends the unit before, and its marker ends its own. Every
emission of the run is made in one of them (`emissions_run`).
-/
namespace KmVirtualCamera.L2.RtpVideo
open KmVirtualCamera.L1.RtpWire
open KmVirtualCamera.L1.H264 (naluType appendAnnexB annexB)

/-! ## A datagram in stages -/

/-- A packet of another SSRC starts over.
mirrors shared/receiver/codec/h264_rtp_depacketizer.cpp:57-58 -/
def entered (s : Depacketizer) (l : Log) (p : RtpPacket) : Depacketizer × Log :=
  let c := if s.haveSsrc = true ∧ p.ssrc ≠ s.ssrc then (reset s, l ++ [.ssrcChange]) else (s, l)
  ({ c.1 with haveSsrc := true, ssrc := p.ssrc }, c.2)

/-- `none`: late or a duplicate. Otherwise, whether numbers are missing before it.
mirrors shared/receiver/codec/h264_rtp_depacketizer.cpp:59-64 -/
def gapBefore (s : Depacketizer) (p : RtpPacket) : Option Bool :=
  if s.haveSequence then
    if sequenceDelta p.sequence s.sequence ≤ 0 then none
    else some (sequenceDelta p.sequence s.sequence ≠ 1)
  else some false

def numbered (s : Depacketizer) (p : RtpPacket) : Depacketizer :=
  { s with sequence := p.sequence, haveSequence := true }

/-- The state in which the payload is looked at. -/
def arrived (s : Depacketizer) (l : Log) (p : RtpPacket) (gap : Bool) : Depacketizer × Log :=
  let b := boundary (numbered s p) l p gap
  lost (gap = true) (stamp p (b.1, b.2 ++ [.accepted p.sequence]))

theorem accept_arrived (s : Depacketizer) (l : Log) (p : RtpPacket) (gap : Bool) :
    accept s l p gap = take p (arrived s l p gap) := accept_eq s l p gap

theorem process_parsed {s : Depacketizer} {bytes : Bytes} {p : RtpPacket} (hp : parseRtp bytes = some p)
    (l : Log) : processRtpPacket s l bytes = match gapBefore (entered s l p).1 p with
      | none => entered s l p
      | some gap => accept (entered s l p).1 (entered s l p).2 p gap := by
  unfold processRtpPacket
  rw [hp]
  show (if (entered s l p).1.haveSequence = true then
      if sequenceDelta p.sequence (entered s l p).1.sequence ≤ 0 then entered s l p
      else accept (entered s l p).1 (entered s l p).2 p (sequenceDelta p.sequence (entered s l p).1.sequence ≠ 1)
    else accept (entered s l p).1 (entered s l p).2 p false) = _
  unfold gapBefore
  split
  · split
    · rfl
    · rfl
  · rfl

/-! ## The rule -/

/-- Kept while a payload is taken in. -/
structure Appends (P : Depacketizer → Log → Prop) : Prop where
  append : ∀ {s l n c}, P s l → appendNalu s l n = some c → P c.1 c.2
  fragment : ∀ {s l} (fu : Bytes) (header : UInt8), P s l → fu.length ≤ kMaxAccessUnitBytes - 4 →
    P { s with fu := fu, fuHeader := header } l

/-- Kept by everything a packet of the current SSRC can do. -/
structure Keeps (P : Depacketizer → Log → Prop) : Prop extends Appends P where
  lose : ∀ {s l} (why : Log), P s l → why = [] ∨ why = [.unparsed] ∨ why = [.rejected] →
    P (lose s (l ++ why)).1 (lose s (l ++ why)).2
  emit : ∀ {s l}, P s l → P (emit s l).1 (emit s l).2
  skip : ∀ {s l}, P s l → s.damaged = true → P (clearAu s) l
  accepted : ∀ {s l} (q : UInt16), P s l → P s (l ++ [.accepted q])
  header : ∀ {s l} (timestamp ssrc : UInt32) (sequence : UInt16) (haveSsrc haveSequence haveTimestamp : Bool),
    P s l → P { s with timestamp := timestamp, ssrc := ssrc, sequence := sequence, haveSsrc := haveSsrc,
                       haveSequence := haveSequence, haveTimestamp := haveTimestamp } l

/-- Kept by every call. -/
structure KeepsCall (P : Depacketizer → Log → Prop) : Prop extends Keeps P where
  reset : ∀ {s l} (x : Event), P s l → x = .reset ∨ x = .ssrcChange → P (reset s) (l ++ [x])

/-- Kept by every call, and true at the start. -/
structure Stable (P : Depacketizer → Log → Prop) : Prop extends KeepsCall P where
  init : P {} []

section Appends
variable {P : Depacketizer → Log → Prop} (hP : Appends P) {s : Depacketizer} {l : Log}
include hP

theorem Appends.single (h : P s l) (p : Bytes) : P (single s l p).1.1 (single s l p).1.2 := by
  unfold RtpVideo.single
  split
  · exact h
  · cases ha : appendNalu s l p with
    | none => exact h
    | some c => exact hP.append h ha

theorem Appends.appendAll : ∀ (ns : List Bytes) {s : Depacketizer} {l : Log}, P s l →
    P (appendAll s l ns).1.1 (appendAll s l ns).1.2
  | [], _, _, h => h
  | n :: ns, s, l, h => by
    unfold RtpVideo.appendAll
    cases ha : appendNalu s l n with
    | none => exact h
    | some c => exact appendAll ns (hP.append h ha)

theorem Appends.stapA (h : P s l) (p : Bytes) : P (stapA s l p).1.1 (stapA s l p).1.2 := by
  unfold RtpVideo.stapA
  split
  · exact h
  · split
    · exact hP.appendAll _ h
    · exact h

theorem Appends.fuData (h : P s l) (data : Bytes) (last : Bool) :
    P (fuData s l data last).1.1 (fuData s l data last).1.2 := by
  unfold RtpVideo.fuData
  split
  · exact h
  · rename_i hfit
    split
    · cases ha : appendNalu s l (s.fu ++ data) with
      | none => exact hP.fragment [] s.fuHeader h (Nat.zero_le _)
      | some c => exact hP.fragment [] c.1.fuHeader (hP.append h ha) (Nat.zero_le _)
    · refine hP.fragment (s.fu ++ data) s.fuHeader h ?_
      rw [List.length_append]
      omega

theorem Appends.fuA (h : P s l) (p : Bytes) : P (fuA s l p).1.1 (fuA s l p).1.2 := by
  unfold RtpVideo.fuA
  split
  · rename_i p0 p1 p2 data
    simp only
    split
    · exact h
    · split
      · split
        · exact h
        · exact hP.fuData (hP.fragment _ _ h (by rw [List.length_singleton]; decide)) _ _
      · split
        · exact h
        · exact hP.fuData h _ _
  · exact h

theorem Appends.payload (h : P s l) (p : Bytes) : P (payload s l p).1.1 (payload s l p).1.2 := by
  unfold RtpVideo.payload
  simp only
  split
  · exact hP.single h p
  · split
    · exact hP.stapA h p
    · split
      · exact hP.fuA h p
      · exact h

end Appends

section Keeps
variable {P : Depacketizer → Log → Prop} (hP : Keeps P) {s : Depacketizer} {l : Log} {p : RtpPacket}
include hP

theorem Keeps.lost (Q : Prop) [Decidable Q] (h : P s l) :
    P (RtpVideo.lost Q (s, l)).1 (RtpVideo.lost Q (s, l)).2 := by
  unfold RtpVideo.lost
  split
  · have hl := hP.lose [] h (.inl rfl)
    rwa [List.append_nil] at hl
  · exact h

theorem Keeps.stamped (h : P s l) (timestamp : UInt32) (have_ : Bool) :
    P { s with timestamp := timestamp, haveTimestamp := have_ } l :=
  hP.header timestamp s.ssrc s.sequence s.haveSsrc s.haveSequence have_ h

theorem Keeps.settle {c : (Depacketizer × Log) × Bool} (h : P c.1.1 c.1.2) :
    P (RtpVideo.settle c).1 (RtpVideo.settle c).2 := by
  unfold RtpVideo.settle
  split
  · exact h
  · exact hP.lose [.rejected] h (by simp)

theorem Keeps.consume (h : P s l) : P (consume s l p).1 (consume s l p).2 := by
  rw [consume_eq]
  split
  · exact hP.lose [.rejected] h (by simp)
  · have hs := hP.settle (hP.payload h p.payload)
    generalize RtpVideo.settle (RtpVideo.payload s l p.payload) = c at hs
    unfold finish
    split
    · exact hP.stamped (hP.emit hs) _ false
    · exact hs

theorem Keeps.boundary (h : P s l) (gap : Bool) :
    P (boundary s l p gap).1 (boundary s l p gap).2 := by
  unfold RtpVideo.boundary
  split
  · exact hP.emit (hP.lost (gap = true ∨ s.fu ≠ []) h)
  · exact h

theorem Keeps.numbered (h : P s l) : P (numbered s p) l :=
  hP.header s.timestamp s.ssrc p.sequence s.haveSsrc true s.haveTimestamp h

theorem Keeps.arrived (h : P s l) (gap : Bool) : P (arrived s l p gap).1 (arrived s l p gap).2 :=
  hP.lost (gap = true) (hP.stamped (hP.accepted p.sequence (hP.boundary (hP.numbered h) gap)) p.timestamp true)

theorem Keeps.accept (h : P s l) (gap : Bool) : P (accept s l p gap).1 (accept s l p gap).2 := by
  rw [accept_arrived]
  have ha := hP.arrived (p := p) h gap
  generalize RtpVideo.arrived s l p gap = c at ha
  unfold take
  split
  · rename_i hd
    split
    · exact hP.stamped (hP.skip ha hd) _ false
    · exact ha
  · exact hP.consume ha

end Keeps

section KeepsCall
variable {P : Depacketizer → Log → Prop} (hP : KeepsCall P) {s : Depacketizer} {l : Log} {p : RtpPacket}
include hP

theorem KeepsCall.entered (h : P s l) : P (entered s l p).1 (entered s l p).2 := by
  unfold RtpVideo.entered
  split
  · exact hP.header _ _ _ true _ _ (hP.reset .ssrcChange h (.inr rfl))
  · exact hP.header _ _ _ true _ _ h

theorem KeepsCall.packet (h : P s l) (bytes : Bytes) :
    P (processRtpPacket s l bytes).1 (processRtpPacket s l bytes).2 := by
  cases hp : parseRtp bytes with
  | none =>
    have hl := hP.lose [.unparsed] h (by simp)
    unfold processRtpPacket
    rwa [hp]
  | some p =>
    rw [process_parsed hp]
    have he := hP.entered (p := p) h
    cases gapBefore (RtpVideo.entered s l p).1 p with
    | none => exact he
    | some gap => exact hP.accept he gap

theorem KeepsCall.call {c : Depacketizer × Log} (h : P c.1 c.2) (a : Call) : P (call c a).1 (call c a).2 := by
  cases a with
  | packet bytes => exact hP.packet h bytes
  | reset => exact hP.reset .reset h (.inl rfl)

theorem KeepsCall.foldl (cs : List Call) : ∀ {c : Depacketizer × Log}, P c.1 c.2 →
    P (cs.foldl RtpVideo.call c).1 (cs.foldl RtpVideo.call c).2 := by
  induction cs with
  | nil => exact fun h => h
  | cons a cs ih => exact fun h => ih (hP.call h a)

end KeepsCall

/-- **The rule.** -/
theorem Stable.run {P : Depacketizer → Log → Prop} (hP : Stable P) (cs : List Call) : P (run cs).1 (run cs).2 :=
  hP.foldl cs hP.init

/-! ## Where access units end -/

/-- The state in which a change of the timestamp enters `emit`. -/
def boundaryEnd (s : Depacketizer) (l : Log) (p : RtpPacket) (gap : Bool) : List (Depacketizer × Log) :=
  if s.haveTimestamp = true ∧ p.timestamp ≠ s.timestamp then [lost (gap = true ∨ s.fu ≠ []) (s, l)] else []

/-- The state in which the marker enters `emit`. -/
def markerEnd (c : Depacketizer × Log) (p : RtpPacket) : List (Depacketizer × Log) :=
  if c.1.damaged = true ∨ p.payload.headD 0 &&& 128 ≠ 0 ∨ p.marker = false then []
  else [settle (payload c.1 c.2 p.payload)]

/-- The states in which a datagram enters `emit`. -/
def packetEnds (s : Depacketizer) (l : Log) (bytes : Bytes) : List (Depacketizer × Log) :=
  match parseRtp bytes with
  | none => []
  | some p =>
    let c := entered s l p
    match gapBefore c.1 p with
    | none => []
    | some gap => boundaryEnd (numbered c.1 p) c.2 p gap ++ markerEnd (arrived c.1 c.2 p gap) p

def callEnds (c : Depacketizer × Log) : Call → List (Depacketizer × Log)
  | .packet bytes => packetEnds c.1 c.2 bytes
  | .reset => []

/-- The states in which a run enters `emit`. -/
def runEnds (cs : List Call) : List (Depacketizer × Log) := collect call callEnds ({}, []) cs

def emissions (l : Log) : List Emission := l.filterMap fun | .emit e => some e | _ => none

@[simp] theorem emissions_append (l m : Log) : emissions (l ++ m) = emissions l ++ emissions m := by
  simp [emissions]

theorem mem_emissions {e : Emission} {l : Log} : e ∈ emissions l ↔ .emit e ∈ l := by
  unfold emissions
  rw [List.mem_filterMap]
  constructor
  · rintro ⟨x, hx, hxe⟩
    cases x with
    | emit e' =>
      obtain rfl := Option.some.inj hxe
      exact hx
    | _ => cases hxe
  · exact fun h => ⟨.emit e, h, rfl⟩

theorem emissions_snoc {x : Event} (hx : emissions [x] = []) (l : Log) : emissions (l ++ [x]) = emissions l := by
  rw [emissions_append, hx, List.append_nil]

theorem emissions_lose (s : Depacketizer) (l : Log) : emissions (lose s l).2 = emissions l :=
  emissions_snoc rfl l

/-- What `emit` hands over when it is entered in this state. -/
def emissionsAt (x : Depacketizer × Log) : List Emission := emissions (emit x.1 []).2

theorem emissions_emit (s : Depacketizer) (l : Log) :
    emissions (emit s l).2 = emissions l ++ emissionsAt (s, l) := by
  have hmoved := emit_moved s.link l s []
  rw [relink_link, List.append_nil] at hmoved
  rw [hmoved]
  exact emissions_append l _

theorem emissions_lost (Q : Prop) [Decidable Q] (s : Depacketizer) (l : Log) :
    emissions (lost Q (s, l)).2 = emissions l := by
  unfold lost
  split
  · exact emissions_lose s l
  · rfl

theorem emissions_payload (s : Depacketizer) (l : Log) (p : Bytes) :
    emissions (payload s l p).1.2 = emissions l := by
  have hP : Appends fun _ m => emissions m = emissions l := by
    refine ⟨fun h ha => ?_, fun _ _ h _ => h⟩
    unfold appendNalu at ha
    split at ha
    · cases ha
    · split at ha
      · cases ha
      · simp only [Option.some.injEq] at ha
        subst ha
        exact (emissions_snoc rfl _).trans h
  exact hP.payload rfl p

theorem emissions_settle (s : Depacketizer) (l : Log) (p : Bytes) :
    emissions (settle (payload s l p)).2 = emissions l := by
  have hpay := emissions_payload s l p
  unfold settle
  split
  · exact hpay
  · rw [emissions_lose, emissions_snoc rfl, hpay]

theorem emissions_boundary (s : Depacketizer) (l : Log) (p : RtpPacket) (gap : Bool) :
    emissions (boundary s l p gap).2 = emissions l ++ (boundaryEnd s l p gap).flatMap emissionsAt := by
  unfold boundary boundaryEnd
  split
  · rw [List.flatMap_singleton]
    show emissions (emit (lost (gap = true ∨ s.fu ≠ []) (s, l)).1 (lost (gap = true ∨ s.fu ≠ []) (s, l)).2).2 = _
    rw [emissions_emit, emissions_lost]
  · simp

theorem emissions_take (c : Depacketizer × Log) (p : RtpPacket) :
    emissions (take p c).2 = emissions c.2 ++ (markerEnd c p).flatMap emissionsAt := by
  unfold take
  by_cases hd : c.1.damaged = true
  · have hend : markerEnd c p = [] := if_pos (.inl hd)
    rw [if_pos hd, hend, List.flatMap_nil, List.append_nil]
    split
    · rfl
    · rfl
  · unfold markerEnd
    rw [if_neg hd, consume_eq]
    by_cases hf : p.payload.headD 0 &&& 128 ≠ 0
    · rw [if_pos hf, if_pos (.inr (.inl hf))]
      simp [lose, emissions]
    · rw [if_neg hf]
      unfold finish
      by_cases hm : p.marker = true
      · rw [if_pos hm, if_neg (by simp only [hd, hf, hm]; decide), List.flatMap_singleton]
        simp only
        rw [emissions_emit, emissions_settle]
      · rw [if_neg hm, if_pos (.inr (.inr (by simpa using hm))), emissions_settle]
        simp

theorem emissions_call (c : Depacketizer × Log) (a : Call) :
    emissions (call c a).2 = emissions c.2 ++ (callEnds c a).flatMap emissionsAt := by
  cases a with
  | reset => simp [call, callEnds, emissions]
  | packet bytes =>
    show emissions (processRtpPacket c.1 c.2 bytes).2 = emissions c.2 ++ (packetEnds c.1 c.2 bytes).flatMap emissionsAt
    unfold packetEnds
    cases hp : parseRtp bytes with
    | none =>
      unfold processRtpPacket
      rw [hp]
      simp only
      rw [emissions_lose, emissions_snoc rfl]
      simp
    | some p =>
      have hentered : emissions (entered c.1 c.2 p).2 = emissions c.2 := by
        unfold entered
        split <;> simp [emissions]
      rw [process_parsed hp]
      simp only
      generalize entered c.1 c.2 p = d at hentered
      cases gapBefore d.1 p with
      | none => simp [hentered]
      | some gap =>
        simp only
        have harrived : emissions (arrived d.1 d.2 p gap).2 =
            emissions c.2 ++ (boundaryEnd (numbered d.1 p) d.2 p gap).flatMap emissionsAt := by
          show emissions (lost (gap = true)
            ({ (boundary (numbered d.1 p) d.2 p gap).1 with timestamp := p.timestamp, haveTimestamp := true },
              (boundary (numbered d.1 p) d.2 p gap).2 ++ [.accepted p.sequence])).2 = _
          rw [emissions_lost, emissions_snoc rfl,
            emissions_boundary, hentered]
        rw [accept_arrived, emissions_take, harrived, List.flatMap_append, List.append_assoc]

/-- Every emission of a run is made where `emit` is entered. -/
theorem emissions_run (cs : List Call) : emissions (run cs).2 = (runEnds cs).flatMap emissionsAt := by
  unfold run runEnds
  induction cs using List.reverseRecOn with
  | nil => rfl
  | append_singleton cs a ih =>
    rw [List.foldl_append, collect_snoc, List.flatMap_append, ← ih]
    exact emissions_call _ a

/-- What is stable holds wherever `emit` is entered. -/
theorem Stable.ends {P : Depacketizer → Log → Prop} (hP : Stable P) {cs : List Call}
    {x : Depacketizer × Log} (hrun : x ∈ runEnds cs) : P x.1 x.2 := by
  obtain ⟨pre, a, post, rfl, hx⟩ := mem_collect.mp hrun
  clear hrun
  have hpre := hP.run pre
  unfold RtpVideo.run at hpre
  generalize pre.foldl RtpVideo.call ({}, []) = c at hpre hx
  cases a with
  | reset => cases hx
  | packet bytes =>
    change x ∈ packetEnds c.1 c.2 bytes at hx
    unfold packetEnds at hx
    cases hp : parseRtp bytes with
    | none =>
      rw [hp] at hx
      cases hx
    | some p =>
      rw [hp] at hx
      have he := hP.entered (p := p) hpre
      simp only at hx
      generalize RtpVideo.entered c.1 c.2 p = d at he hx
      cases hg : gapBefore d.1 p with
      | none =>
        rw [hg] at hx
        cases hx
      | some gap =>
        rw [hg] at hx
        rcases List.mem_append.mp hx with hx | hx
        · unfold boundaryEnd at hx
          split at hx
          · obtain rfl := List.mem_singleton.mp hx
            exact hP.lost _ (hP.numbered he)
          · cases hx
        · unfold markerEnd at hx
          split at hx
          · cases hx
          · obtain rfl := List.mem_singleton.mp hx
            exact hP.settle (hP.payload (hP.arrived he gap) _)

/-! ## The flags -/

theorem inv_lose {s : Depacketizer} (h : Inv s) (l : Log) : Inv (lose s l).1 where
  au := rfl
  au_le := Nat.zero_le _
  damaged _ := rfl
  idr h0 := by cases h0
  vcl h0 := by cases h0
  sps := h.sps
  pps := h.pps
  hasSps h0 := by cases h0
  hasPps h0 := by cases h0

theorem appendNalu_some {s : Depacketizer} {l : Log} {n : Bytes} {c : Depacketizer × Log}
    (h : appendNalu s l n = some c) : validNal n = true ∧ n.length ≤ kMaxAccessUnitBytes - 4 ∧
      s.au.length ≤ kMaxAccessUnitBytes - n.length - 4 ∧
      (naluType n = 7 ∨ naluType n = 8 → n.length ≤ 65536) ∧
      c = ({ s.note n with idr := s.idr || naluType n == 5, vcl := s.vcl || isVcl n,
                           au := appendAnnexB s.au n, nalus := s.nalus ++ [n] }, l ++ [.nal n]) := by
  unfold appendNalu at h
  split at h
  · cases h
  · rename_i hfit
    split at h
    · cases h
    · rename_i hset
      simp only [not_or, Bool.not_eq_false, gt_iff_lt, Nat.not_lt] at hfit
      obtain ⟨f1, f2, f3, f4, -⟩ := note_frame s n
      refine ⟨hfit.1, hfit.2.1, hfit.2.2, ?_, ?_⟩
      · intro ht
        by_contra hlong
        exact hset ⟨ht, by omega⟩
      · simp only [f1, f2, f3, f4] at h
        exact (Option.some.inj h).symm

theorem inv_append {s : Depacketizer} {l : Log} {n : Bytes} {c : Depacketizer × Log} (h : Inv s)
    (ha : appendNalu s l n = some c) : Inv c.1 := by
  obtain ⟨-, hlen, hroom, -, rfl⟩ := appendNalu_some ha
  obtain ⟨-, -, -, -, hd, hw, -⟩ := note_frame s n
  refine ⟨?_, ?_, ?_, ?_, ?_, ?_, ?_, ?_, ?_⟩
  · simp only [h.au, L1.H264.annexB_append, L1.H264.annexB_cons, appendAnnexB]
    simp
  · simp only [appendAnnexB, List.length_append, List.length_cons, List.length_nil]
    unfold kMaxAccessUnitBytes at hlen hroom ⊢
    omega
  · simp only [hd, hw]
    exact h.damaged
  · intro h0
    simp only [Bool.or_eq_true, h.idr (hd.symm.trans h0), List.mem_append, List.mem_singleton, beq_iff_eq]
    grind
  · intro h0
    simp only [Bool.or_eq_true, h.vcl (hd.symm.trans h0), List.mem_append, List.mem_singleton]
    grind
  · unfold Depacketizer.note
    split
    · exact fun _ => ‹_›
    · split
      · exact h.sps
      · exact h.sps
  · unfold Depacketizer.note
    split
    · intro hne
      simp only at hne ⊢
      split at hne
      · rename_i heq
        rw [if_pos heq]
        exact h.pps hne
      · exact absurd rfl hne
    · split
      · exact fun _ => ‹_›
      · exact h.pps
  · intro h0
    exact (note_sets h (hd.symm.trans h0) n).2.2.1
  · intro h0
    exact (note_sets h (hd.symm.trans h0) n).2.2.2

theorem inv_emit {s : Depacketizer} (l : Log) (h : Inv s) : Inv (emit s l).1 := by
  have hc := emit_cases l h
  generalize emit s l = r at hc
  cases hc with
  | output ok => exact inv_clearAu h _
  | dropped w idle => exact inv_clearAu h w

theorem inv_stable : Stable fun s _ => Inv s where
  append := inv_append
  fragment _ _ h _ := ⟨h.au, h.au_le, h.damaged, h.idr, h.vcl, h.sps, h.pps, h.hasSps, h.hasPps⟩
  init := inv_reset {}
  reset _ _ _ := inv_reset _
  lose _ h _ := inv_lose h _
  emit h := inv_emit _ h
  skip h _ := inv_clearAu h _
  accepted _ h := h
  header _ _ _ _ _ _ h := ⟨h.au, h.au_le, h.damaged, h.idr, h.vcl, h.sps, h.pps, h.hasSps, h.hasPps⟩

/-- What `emit` hands over, in a state whose flags are right. -/
def Depacketizer.emission (s : Depacketizer) : Emission :=
  ⟨annexB (missing s ++ s.nalus), s.timestamp, missing s ++ s.nalus, s.sps, s.pps⟩

/-- The access unit is handed over. -/
def Depacketizer.HandedOver (s : Depacketizer) : Prop :=
  good s ∧ s.au.length ≤ kMaxAccessUnitBytes - ((missing s).foldl appendAnnexB []).length

instance (s : Depacketizer) : Decidable s.HandedOver := inferInstanceAs (Decidable (_ ∧ _))

theorem Inv.nalus_ne_nil {s : Depacketizer} (h : Inv s) (hok : good s) : s.nalus ≠ [] := by
  obtain ⟨n, hn, -⟩ := (h.vcl hok.1).mp hok.2.2.1
  exact List.ne_nil_of_mem hn

/-- The two ways through `emit`, and when each is taken. -/
theorem emit_handedOver {s : Depacketizer} (h : Inv s) (l : Log) :
    (s.HandedOver ∧ emit s l = (clearAu { s with waiting := if s.idr then false else s.waiting },
      l ++ [.emit s.emission])) ∨
    (¬ s.HandedOver ∧ ∃ w, emit s l = (clearAu { s with waiting := w }, l ++ if w then [.keyframe] else []) ∧
      (w = false → s.waiting = false ∧ s.vcl = false ∧ s.fu = [])) := by
  have hhead : (missing s).foldl appendAnnexB [] ++ s.au = annexB (missing s ++ s.nalus) := by
    rw [L1.H264.foldl_appendAnnexB, h.au, L1.H264.annexB_append, List.nil_append]
  unfold emit Depacketizer.HandedOver
  simp only
  by_cases hok : good s
  · rw [if_pos hok]
    by_cases hbig : s.au.length > kMaxAccessUnitBytes - ((missing s).foldl appendAnnexB []).length
    · exact .inr ⟨fun hh => by omega, true, if_pos hbig, fun h0 => nomatch h0⟩
    · refine .inl ⟨⟨hok, by omega⟩, ?_⟩
      have hne : (missing s).foldl appendAnnexB [] ++ s.au ≠ [] := by
        rw [hhead]
        intro h0
        have hlen := congrArg List.length h0
        have hle := L1.H264.length_le_annexB (missing s ++ s.nalus)
        have hpos := List.length_pos_of_ne_nil (h.nalus_ne_nil hok)
        simp only [List.length_nil, List.length_append] at hlen hle
        omega
      rw [if_neg hbig, if_pos hne, hhead]
      rfl
  · rw [if_neg hok]
    refine .inr ⟨fun hh => hok hh.1, _, rfl, ?_⟩
    intro h0
    simp only [Bool.or_eq_false_iff, decide_eq_false_iff_not, not_not] at h0
    exact ⟨h0.1.1, h0.1.2, h0.2⟩

theorem mem_emissionsAt {x : Depacketizer × Log} (h : Inv x.1) {e : Emission} :
    e ∈ emissionsAt x ↔ x.1.HandedOver ∧ e = x.1.emission := by
  unfold emissionsAt
  rcases emit_handedOver h [] with ⟨hh, hemit⟩ | ⟨hh, w, hemit, -⟩
  · rw [hemit]
    simp [emissions, hh]
  · rw [hemit]
    cases w <;> simp [emissions, hh]

/-- Every emission of a run is that of a state in which `emit` is entered. -/
theorem mem_emissions_run {cs : List Call} {e : Emission} :
    e ∈ emissions (run cs).2 ↔ ∃ x ∈ runEnds cs, x.1.HandedOver ∧ e = x.1.emission := by
  rw [emissions_run, List.mem_flatMap]
  constructor
  · rintro ⟨x, hx, he⟩
    exact ⟨x, hx, (mem_emissionsAt (inv_stable.ends hx)).mp he⟩
  · rintro ⟨x, hx, he⟩
    exact ⟨x, hx, (mem_emissionsAt (inv_stable.ends hx)).mpr he⟩

/-- An access unit handed over has an IDR exactly when its flag says so; the
sets put before it are no slices. -/
theorem emission_hasIdr {s : Depacketizer} (h : Inv s) (hok : good s) :
    s.emission.hasIdr ↔ s.idr = true := by
  rw [h.idr hok.1]
  constructor
  · rintro ⟨n, hn, h5⟩
    rcases List.mem_append.mp hn with hn | hn
    · rcases missing_type h hok hn with ht | ht <;> rw [ht] at h5 <;> exact absurd h5 (by decide)
    · exact ⟨n, hn, h5⟩
  · rintro ⟨n, hn, h5⟩
    exact ⟨n, List.mem_append_right _ hn, h5⟩

end KmVirtualCamera.L2.RtpVideo
