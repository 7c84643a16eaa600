import Mathlib
import KmVirtualCamera.L2Machine.RtpStream
import KmVirtualCamera.L2Machine.RtpOrder
import KmVirtualCamera.L4App.PaddingOnly

/-!
# Recovery on the RTP path, seen by the depacketizer and by the engine

Both wait for an IDR, each by its own rule. The depacketizer keeps flags while
it receives units and drops access units until `waiting_` ends. The engine asks
for keyframes until it has split an access unit again and found an IDR with its
sets (`configuredIdr`).

* `rtp_understood`: where no unit contains a start code or ends in a zero, an
  emission is split into the units that the packets of an access unit carry, and
  the emission that ends the one wait ends the other.
* `recovery_armed_iff`: the engine asks whenever the depacketizer waits, as
  long as no packet of another SSRC opens an access unit and leaves it open
  (`Silent`): `Reset` makes the depacketizer wait and calls nobody.
-/
namespace KmVirtualCamera.L4.RtpRecovery
open KmVirtualCamera.L1.H264 hiding Bytes kMaxAccessUnitBytes
open KmVirtualCamera.L1.RtpWire
open KmVirtualCamera.L2.VideoQueue KmVirtualCamera.L4.ReceiverEngine
open KmVirtualCamera.L2 KmVirtualCamera.L2.RtpVideo

/-! ## Two readings of an emission -/

/-- The engine's frame for an emission, and what it does to `needKeyframe_`. -/
structure Reaction (e : Emission) (a : Act) (randomAccess : Prop) : Prop where
  frame : ∃ f, (onRtpEvent a (.emit e)).2 = a.2 ++ [.frame f] ∧ f.annexB = e.data ∧
    (f.randomAccess = true ↔ randomAccess)
  needKeyframe : (onRtpEvent a (.emit e)).1.needKeyframe = true ↔ a.1.needKeyframe = true ∧ ¬ randomAccess

theorem onRtpEvent_emit {a : Act} (hdc : a.1.dataChannelVideo = false) (e : Emission) :
    Reaction e a (configuredIdr e.data = true) := by
  have hstep : onRtpEvent a (.emit e) = emitFrame e.data (unwrap a.1.rtpUnwrapper e.timestamp).2 .rtp90kHz false
      ({ a.1 with rtpUnwrapper := (unwrap a.1.rtpUnwrapper e.timestamp).1 }, a.2) := by
    unfold onRtpEvent
    simp [hdc]
  constructor
  · rw [hstep]
    exact ⟨_, rfl, rfl, Iff.rfl⟩
  · rw [hstep]
    unfold emitFrame
    cases configuredIdr e.data <;> simp

/-- Every unit appended has a valid header. -/
theorem appended_valid : Stable fun _ l => ∀ n ∈ units l, validNalu n = true where
  append {s l n c} h ha := by
    obtain ⟨hv, -, -, -, rfl⟩ := appendNalu_some ha
    have hunits : units (l ++ [.nal n]) = units l ++ [n] := by simp [units]
    rw [hunits]
    intro m hm
    rcases List.mem_append.mp hm with hm | hm
    · exact h m hm
    · rw [List.mem_singleton.mp hm]
      exact hv
  fragment _ _ h _ := h
  init := fun n hn => nomatch hn
  reset {s l} x h hx := by
    have hunits : units (l ++ [x]) = units l := by rcases hx with rfl | rfl <;> simp [units]
    rwa [hunits]
  lose {s l} why h hwhy := by
    have hunits : units (l ++ why ++ [.keyframe]) = units l := by
      rcases hwhy with rfl | rfl | rfl <;> simp [units]
    show ∀ n ∈ units (l ++ why ++ [.keyframe]), _
    rwa [hunits]
  emit {s l} h := by
    have hlog : units (RtpVideo.emit s l).2 = units l := by
      unfold RtpVideo.emit
      simp only
      split
      · split
        · simp [units]
        · split
          · simp [units]
          · split <;> simp [units]
      · split <;> simp [units]
    rwa [hlog]
  skip h _ := h
  accepted {s l} q h := by
    have hunits : units (l ++ [.accepted q]) = units l := by simp [units]
    rwa [hunits]
  header _ _ _ _ _ _ h := h

/-- Every unit of an emission was appended before, and has a valid header. -/
theorem emission_units {cs : List RtpVideo.Call} {e : Emission} (he : e ∈ emissions (run cs).2) :
    ∀ n ∈ e.nalus, n ∈ units (run cs).2 ∧ validNalu n = true := by
  obtain ⟨pre, post, hl⟩ := List.append_of_mem (mem_emissions.mp he)
  intro n hn
  have hmem : n ∈ units (run cs).2 := by
    rw [hl]
    rcases ((traced_stable.run cs).whole pre _ post hl e rfl).2 n hn with h | h
    · exact mem_units_append (units_sinceRejected h) _
    · exact mem_units_append h.2 _
  exact ⟨hmem, appended_valid.run cs n hmem⟩

/-- An emission of clean units is read back as these units, and looks like a
random-access frame exactly when it has an IDR. -/
theorem emission_read {cs : List RtpVideo.Call} {e : Emission} (he : e ∈ emissions (run cs).2)
    (hclean : ∀ n ∈ units (run cs).2, Clean n) (hcount : e.nalus.length ≤ kMaxNalus) :
    splitAnnexB e.data = some e.nalus ∧ (configuredIdr e.data = true ↔ e.hasIdr) := by
  obtain ⟨pre, post, hl⟩ := List.append_of_mem (mem_emissions.mp he)
  have hunits := emission_units he
  have hsound := decodable_run cs pre _ post hl e rfl
  have hdata := hsound.data
  have hfits := emission_fits he
  have hne : e.nalus ≠ [] := by
    obtain ⟨x, hx, hh, rfl⟩ := mem_emissions_run.mp he
    exact List.append_ne_nil_of_right_ne_nil _ ((inv_stable.ends hx).nalus_ne_nil hh.1)
  rw [hdata] at hfits ⊢
  have hsplit := splitAnnexB_annexB e.nalus hne (fun n hn => ⟨(hunits n hn).2, hclean n (hunits n hn).1⟩)
    hcount hfits
  refine ⟨hsplit, ?_⟩
  rw [configuredIdr_of_split hsplit]
  refine ⟨fun h => h.2.2, ?_⟩
  intro hidr
  obtain ⟨hsps, hpps⟩ := hsound.configured hidr
  exact ⟨⟨e.sps, hsps⟩, ⟨e.pps, hpps⟩, hidr⟩

/-- When the depacketizer waits, what it hands over has an IDR, and it waits no
more. -/
theorem waiting_ends {s : Depacketizer} (h : Inv s) (hh : s.HandedOver) (l : Log) :
    (emit s l).1.waiting = false ∧ (s.waiting = true → s.emission.hasIdr) := by
  have hidr := emission_hasIdr h hh.1
  have hopen := hh.1.2.2.2.1
  constructor
  · rcases emit_handedOver h l with ⟨-, he⟩ | ⟨hno, -⟩
    · rw [he]
      show (if s.idr then false else s.waiting) = false
      split
      · rfl
      · rename_i hi
        exact hopen.resolve_right hi
    · exact absurd hh hno
  · intro hw
    exact hidr.mpr (hopen.resolve_left (by simp [hw]))

/-! ## Two gates -/

/-- The depacketizer's wait, read off its log: every emission ends it, and a
keyframe request or a reset begins one. -/
def gate : Bool → RtpVideo.Log → Bool
  | w, [] => w
  | _, .emit _ :: l => gate false l
  | _, .keyframe :: l => gate true l
  | _, .ssrcChange :: l => gate true l
  | _, .reset :: l => gate true l
  | w, _ :: l => gate w l

theorem gate_append (w : Bool) (l m : RtpVideo.Log) : gate w (l ++ m) = gate (gate w l) m := by
  induction l generalizing w with
  | nil => rfl
  | cons x l ih => cases x <;> exact ih _

theorem gate_stable (w : Bool) (l₀ : RtpVideo.Log) : KeepsCall fun s l => Inv s ∧ s.waiting = gate w (l₀ ++ l) where
  append {s l n c} h ha := by
    refine ⟨inv_append h.1 ha, ?_⟩
    obtain ⟨-, -, -, -, rfl⟩ := appendNalu_some ha
    obtain ⟨-, -, -, -, -, hw, -⟩ := note_frame s n
    rw [← List.append_assoc, gate_append, ← h.2]
    exact hw
  fragment fu header h hfu := ⟨inv_stable.fragment (l := []) fu header h.1 hfu, h.2⟩
  reset {s l} x _ hx := by
    refine ⟨inv_reset s, ?_⟩
    rw [← List.append_assoc, gate_append]
    rcases hx with rfl | rfl <;> rfl
  lose {s l} why h _ := by
    refine ⟨inv_lose h.1 _, ?_⟩
    show true = gate w (l₀ ++ (l ++ why ++ [.keyframe]))
    rw [← List.append_assoc, gate_append]
    rfl
  emit {s l} h := by
    refine ⟨inv_emit l h.1, ?_⟩
    have hend := fun hh => (waiting_ends h.1 hh l).1
    rcases emit_handedOver h.1 l with ⟨hh, he⟩ | ⟨-, v, he, hidle⟩
    · rw [hend hh, he, ← List.append_assoc, gate_append]
      rfl
    · rw [he]
      show v = _
      cases v with
      | true =>
        rw [if_pos rfl, ← List.append_assoc, gate_append]
        rfl
      | false =>
        rw [if_neg (by simp), List.append_nil, ← h.2]
        exact (hidle rfl).1.symm
  skip h _ := ⟨inv_clearAu h.1 _, h.2⟩
  accepted q h := ⟨h.1, by rw [← List.append_assoc, gate_append]; exact h.2⟩
  header t ssrc q a b d h := ⟨inv_stable.header (l := []) t ssrc q a b d h.1, h.2⟩

theorem waiting_gate (cs : List RtpVideo.Call) : (run cs).1.waiting = gate true (run cs).2 :=
  ((gate_stable true []).foldl cs (c := ({}, [])) ⟨inv_reset {}, rfl⟩).2

/-- An access unit is understood downstream: all the units its packets carry, behind the
sets an IDR is short of, and a random-access frame if and only if there is an IDR. -/
structure Understood (u : List RtpPacket) (e : Emission) : Prop where
  of : e.Of u
  split : e.nalus.length ≤ kMaxNalus →
    splitAnnexB e.data = some (prepended e.sps e.pps (carried u).1 ++ (carried u).1)
  reaction : e.nalus.length ≤ kMaxNalus → ∀ a : Act, a.1.dataChannelVideo = false →
    Reaction e a (∃ n ∈ (carried u).1, naluType n = 5)

theorem understood {cs : List RtpVideo.Call} (hclean : ∀ n ∈ units (run cs).2, Clean n) {u : List RtpPacket}
    {e : Emission} (he : e ∈ emissions (run cs).2) (hof : e.Of u) : Understood u e := by
  refine ⟨hof, ?_, ?_⟩
  · intro hcount
    rw [← hof.nalus]
    exact (emission_read he hclean hcount).1
  · intro hcount a hdc
    rw [← hof.hasIdr, ← (emission_read he hclean hcount).2]
    exact onRtpEvent_emit hdc e

/-- **Both readings agree.** Of a stream whose units are clean, the emissions are
access units of the stream, in order, and every one of at most 1024 units is read
back as the last sets received and exactly the units its packets carry; the engine
takes it for a random-access frame, and stops asking, if and only if it has an IDR.
While the depacketizer waits it hands over nothing else, and its wait ends with an
emission only. -/
theorem rtp_understood (cs : List RtpVideo.Call) (hclean : ∀ n ∈ units (run cs).2, Clean n) :
    (∃ us : List (List RtpPacket), us.Sublist (heard cs).ended ∧
      List.Forall₂ Understood us (emissions (run cs).2)) ∧
    EachAfter (fun pre x => ∀ e, x = .emit e → e.Pinned pre) (run cs).2 ∧
    (∀ n ∈ units (run cs).2, (heard cs).Carried n) ∧
    (∀ e ∈ emissions (run cs).2, ∃ x ∈ runEnds cs, e = x.1.emission ∧ (emit x.1 x.2).1.waiting = false ∧
      (x.1.waiting = true → e.hasIdr)) ∧
    (run cs).1.waiting = gate true (run cs).2 := by
  refine ⟨?_, sets_received cs, units_heard cs, ?_, waiting_gate cs⟩
  · obtain ⟨last, hledger⟩ := ledger_run cs
    obtain ⟨us, hsub, hall⟩ := hledger.matched
    refine ⟨us, hsub, ?_⟩
    rw [List.forall₂_iff_zip] at hall ⊢
    refine ⟨hall.1, fun {u e} hue => ?_⟩
    exact understood hclean (List.of_mem_zip hue).2 (hall.2 hue)
  · intro e he
    obtain ⟨x, hx, hh, rfl⟩ := mem_emissions_run.mp he
    obtain ⟨hopen, hidr⟩ := waiting_ends (inv_stable.ends hx) hh x.2
    exact ⟨x, hx, rfl, hopen, hidr⟩

/-- A key frame, then a frame that depends on it. -/
def keyThenDelta : List RtpVideo.Call :=
  [onePacket 0 10 false [0x67, 1], onePacket 1 10 false [0x68, 2], onePacket 2 10 true [0x65, 3],
   onePacket 3 20 true [0x41, 4]]

/-- Both access units come out, the second without sets. -/
theorem rtp_understood_keyThenDelta : (run keyThenDelta).1.waiting = gate true (run keyThenDelta).2 ∧
    (emissions (run keyThenDelta).2).map (fun e => splitAnnexB e.data) =
      [some [[0x67, 1], [0x68, 2], [0x65, 3]], some [[0x41, 4]]] ∧
    ∃ us : List (List RtpPacket), us.Sublist (heard keyThenDelta).ended ∧
      List.Forall₂ Understood us (emissions (run keyThenDelta).2) := by
  obtain ⟨hread, -, -, -, hgate⟩ := rtp_understood keyThenDelta (by decide)
  exact ⟨hgate, by decide, hread⟩

/-! ## Armed recovery -/

/-- A call of the engine. -/
inductive Call where
  | processRtpVideoPacket (data : Bytes) (arrivalNs : UInt64)
  | processDataChannelPacket (data : Bytes) (arrivalNs : UInt64)
  | onTimer (nowNs : UInt64)
  | onDataChannelVideoClosed
  | onVideoDataChannelOpened
  | requestKeyframe (nowNs : UInt64)
  | reset
  | setVideoPayloadTypes (types : List UInt8)
  | setGeneration (generation : UInt64)

def next (g : Engine) : Call → Engine
  | .processRtpVideoPacket data arrivalNs => (processRtpVideoPacket g data arrivalNs).1
  | .processDataChannelPacket data arrivalNs => (processDataChannelPacket g data arrivalNs).1
  | .onTimer nowNs => (onTimer g nowNs).1
  | .onDataChannelVideoClosed => onDataChannelVideoClosed g
  | .onVideoDataChannelOpened => onVideoDataChannelOpened g
  | .requestKeyframe nowNs => (requestKeyframe g nowNs).1
  | .reset => ReceiverEngine.reset g
  | .setVideoPayloadTypes types => { g with payloadTypes := types }
  | .setGeneration generation => { g with generation := generation }

/-- The engine after a sequence of calls. -/
def after (cs : List Call) : Engine := cs.foldl next {}

/-- On the RTP path the engine asks for a keyframe whenever the depacketizer
would refuse an access unit without one. -/
def Armed (g : Engine) : Prop :=
  g.dataChannelVideo = false → g.rtpDepacketizer.waiting = true → g.needKeyframe = true

/-- Payloads that an empty access unit takes: a whole unit, units that fit
together, or a first fragment. -/
inductive OpensUnit : Bytes → Prop where
  | single {p : Bytes} (valid : validNal p = true) (fits : p.length ≤ kMaxAccessUnitBytes - 4)
      (set : naluType p = 7 ∨ naluType p = 8 → p.length ≤ 65536) : OpensUnit p
  | stapA {p : Bytes} {ns : List Bytes} (type : naluType p = 24) (split : stapNalus p.length 0 p.tail = some ns)
      (some_ : ns ≠ []) (fits : (ns.map fun n => n.length + 4).sum ≤ kMaxAccessUnitBytes) : OpensUnit p
  | fuA {p0 p1 p2 : UInt8} {data : Bytes} (type : p0 &&& 31 = 28) (reserved : p1 &&& 32 = 0)
      (unit : p1 &&& 31 ≠ 0 ∧ p1 &&& 31 ≤ 23) (first : p1 &&& 128 ≠ 0) (more : p1 &&& 64 = 0)
      (fits : (p2 :: data).length ≤ kMaxAccessUnitBytes - 5) : OpensUnit (p0 :: p1 :: p2 :: data)

/-- A packet of another SSRC opens an access unit and does not end it, while
the engine asks for nothing. -/
structure Silent (g : Engine) (data : Bytes) (p : RtpPacket) : Prop where
  parses : parseRtp data = some p
  negotiated : p.payloadType ∈ g.payloadTypes
  path : g.dataChannelVideo = false
  quiet : g.needKeyframe = false
  have_ : g.rtpDepacketizer.haveSsrc = true
  other : p.ssrc ≠ g.rtpDepacketizer.ssrc
  open_ : p.marker = false
  clean : p.payload.headD 0 &&& 128 = 0
  takes : OpensUnit p.payload

def Call.Silent (g : Engine) : Call → Prop
  | .processRtpVideoPacket data _ => ∃ p, RtpRecovery.Silent g data p
  | _ => False

/-! The payload. -/

theorem first_more {b : UInt8} (hfirst : b &&& 128 ≠ 0) : b &&& 192 = 192 ↔ b &&& 64 ≠ 0 := by
  obtain ⟨b⟩ := b
  revert b
  decide

theorem validNal_type {p : Bytes} (h : validNal p = true) : 1 ≤ naluType p ∧ naluType p ≤ 23 := by
  cases p with
  | nil => cases h
  | cons b rest =>
    simp only [validNal, validNalu, Bool.and_eq_true, decide_eq_true_eq] at h
    obtain ⟨⟨-, hpos⟩, hlt⟩ := h
    simp only [naluType, List.headD_cons, UInt8.le_iff_toNat_le, UInt8.lt_iff_toNat_lt] at hpos hlt ⊢
    simp only [UInt8.reduceToNat] at hpos hlt ⊢
    omega

section Payload
variable {s : Depacketizer} (hau : s.au = []) (hfu : s.fu = []) (l : RtpVideo.Log)

include hau in
theorem append_empty (n : Bytes) : (appendNalu s l n).isSome = true ↔ validNal n = true ∧
    n.length ≤ kMaxAccessUnitBytes - 4 ∧ (naluType n = 7 ∨ naluType n = 8 → n.length ≤ 65536) := by
  constructor
  · intro h
    obtain ⟨c, hc⟩ := Option.isSome_iff_exists.mp h
    obtain ⟨hv, hlen, -, hset, -⟩ := appendNalu_some hc
    exact ⟨hv, hlen, hset⟩
  · rintro ⟨hv, hlen, hset⟩
    unfold appendNalu
    rw [if_neg (by simp [hv, hau]; omega), if_neg fun h => absurd (hset h.1) (by omega)]
    rfl

include hfu in
theorem single_taken (p : Bytes) : (single s l p).2 = (appendNalu s l p).isSome := by
  unfold single
  rw [if_neg (not_not.mpr hfu)]
  cases appendNalu s l p with
  | none => rfl
  | some c => rfl

include hau hfu in
theorem stapA_taken (p : Bytes) : (stapA s l p).2 = true ↔
    ∃ ns, stapNalus p.length 0 p.tail = some ns ∧ ns ≠ [] ∧
      (ns.map fun n => n.length + 4).sum ≤ kMaxAccessUnitBytes := by
  unfold stapA
  cases hns : stapNalus p.length 0 p.tail with
  | none => simp
  | some ns =>
    simp only [Option.some.injEq, exists_eq_left']
    split
    · rename_i hfit
      obtain ⟨-, hne, hsum⟩ := hfit
      rw [hau, List.length_nil, Nat.sub_zero] at hsum
      have hall := appendAll_fits (s := s) l (stapNalus_some hns) (by rw [hau, List.length_nil]; omega)
      exact ⟨fun _ => ⟨hne, hsum⟩, fun _ => hall⟩
    · rename_i hno
      refine ⟨fun h => (nomatch h), fun ⟨hne, hsum⟩ => absurd ⟨hfu, hne, ?_⟩ hno⟩
      rwa [hau, List.length_nil, Nat.sub_zero]

include hau hfu in
theorem fuA_taken (p0 p1 p2 : UInt8) (data : Bytes) : (fuA s l (p0 :: p1 :: p2 :: data)).2 = true ↔
    p1 &&& 32 = 0 ∧ (p1 &&& 31 ≠ 0 ∧ p1 &&& 31 ≤ 23) ∧ p1 &&& 128 ≠ 0 ∧ p1 &&& 64 = 0 ∧
      (p2 :: data).length ≤ kMaxAccessUnitBytes - 5 := by
  unfold fuA
  simp only
  by_cases hfirst : p1 &&& 128 = 0
  · -- no fragment is in progress
    simp [hfirst, hfu]
  by_cases hbad : p1 &&& 32 ≠ 0 ∨ p1 &&& 31 = 0 ∨ p1 &&& 31 > 23 ∨ p1 &&& 192 = 192
  · rw [if_pos hbad]
    refine ⟨fun h => (nomatch h), fun ⟨hres, ⟨hne, hle⟩, _, hmore, _⟩ => ?_⟩
    rcases hbad with h | h | h | h
    · exact absurd hres h
    · exact absurd h hne
    · exact absurd hle (UInt8.not_le.mpr h)
    · exact absurd hmore ((first_more hfirst).mp h)
  · rw [if_neg hbad, if_pos hfirst, if_neg (not_not.mpr hfu)]
    simp only [not_or, not_not] at hbad
    obtain ⟨hres, hne, hle, hboth⟩ := hbad
    have hmore : p1 &&& 64 = 0 := not_not.mp fun h => hboth ((first_more hfirst).mpr h)
    unfold fuData
    simp only [hmore, hau, List.length_nil, List.length_singleton]
    split
    · rename_i hbig
      refine ⟨fun h => (nomatch h), ?_⟩
      intro h
      have hfits := h.2.2.2.2
      unfold kMaxAccessUnitBytes at hbig hfits
      omega
    · rename_i hfits
      refine ⟨fun _ => ⟨hres, ⟨hne, UInt8.not_lt.mp hle⟩, hfirst, trivial, ?_⟩, fun _ => rfl⟩
      unfold kMaxAccessUnitBytes at hfits ⊢
      omega

include hau hfu in
/-- What an empty access unit takes. -/
theorem payload_empty (p : Bytes) : (payload s l p).2 = true ↔ OpensUnit p := by
  unfold payload
  simp only
  constructor
  · intro h
    split at h
    · rw [single_taken hfu, append_empty hau] at h
      exact .single h.1 h.2.1 h.2.2
    · split at h
      · rename_i h24
        obtain ⟨ns, hns, hne, hsum⟩ := (stapA_taken hau hfu l p).mp h
        exact .stapA h24 hns hne hsum
      · split at h
        · rename_i h28
          match p, h28, h with
          | p0 :: p1 :: p2 :: data, h28, h =>
            obtain ⟨hres, hunit, hfirst, hmore, hfits⟩ := (fuA_taken hau hfu l p0 p1 p2 data).mp h
            exact .fuA h28 hres hunit hfirst hmore hfits
        · cases h
  · intro h
    cases h with
    | single valid fits set =>
      rw [if_pos (validNal_type valid), single_taken hfu, append_empty hau]
      exact ⟨valid, fits, set⟩
    | stapA type split some_ fits =>
      rw [if_neg (by rw [type]; decide), if_pos type, stapA_taken hau hfu]
      exact ⟨_, split, some_, fits⟩
    | @fuA p0 p1 p2 data type reserved unit first more fits =>
      have htype : naluType (p0 :: p1 :: p2 :: data) = 28 := type
      rw [htype, if_neg (by decide), if_neg (by decide), if_pos rfl, fuA_taken hau hfu]
      exact ⟨reserved, unit, first, more, fits⟩

end Payload

/-! The flag. -/

/-- `needKeyframe_`, read off a depacketizer's log. -/
def want : Bool → RtpVideo.Log → Bool
  | n, [] => n
  | n, .emit e :: l => want (n && !configuredIdr e.data) l
  | _, .keyframe :: l => want true l
  | n, _ :: l => want n l

theorem want_append (n : Bool) (l m : RtpVideo.Log) : want n (l ++ m) = want (want n l) m := by
  induction l generalizing n with
  | nil => rfl
  | cons x l ih => cases x <;> exact ih _

theorem onRtpEvent_want {a : Act} (hdc : a.1.dataChannelVideo = false) (x : RtpVideo.Event) :
    (onRtpEvent a x).1.needKeyframe = want a.1.needKeyframe [x] := by
  cases x with
  | emit e =>
    rw [Bool.eq_iff_iff, (onRtpEvent_emit hdc e).needKeyframe]
    simp [want]
  | keyframe =>
    unfold onRtpEvent tryDispatchKeyframeRequest
    dsimp only
    split <;> rfl
  | _ => rfl

theorem foldl_want (l : RtpVideo.Log) : ∀ {a : Act}, a.1.dataChannelVideo = false →
    (l.foldl onRtpEvent a).1.needKeyframe = want a.1.needKeyframe l := by
  induction l with
  | nil => exact fun _ => rfl
  | cons x l ih =>
    intro a hdc
    have hstep : (onRtpEvent a x).1.dataChannelVideo = false := (foldl_onRtpEvent_frame [x] a).1.trans hdc
    show (l.foldl onRtpEvent (onRtpEvent a x)).1.needKeyframe = want a.1.needKeyframe ([x] ++ l)
    rw [ih hstep, want_append, onRtpEvent_want hdc]

/-- Without a reset the engine goes on asking as long as the depacketizer waits. -/
theorem mirrored_keeps (w n : Bool) : Keeps fun _ l => gate w l = true → want n l = true where
  append {s l m c} h ha := by
    obtain ⟨-, -, -, -, rfl⟩ := appendNalu_some ha
    rw [gate_append, want_append]
    exact h
  fragment _ _ h _ := h
  lose {s l} why _ _ := by
    show _ → want n (l ++ why ++ [.keyframe]) = true
    rw [want_append]
    exact fun _ => rfl
  emit {s l} h := by
    have hlog : ∀ x, (∃ e, x = RtpVideo.Event.emit e) ∨ x = .keyframe →
        gate w (l ++ [x]) = true → want n (l ++ [x]) = true := by
      intro x hx
      rw [gate_append, want_append]
      rcases hx with ⟨e, rfl⟩ | rfl
      · exact fun hw => nomatch hw
      · exact fun _ => rfl
    have hidle : ∀ v : Bool, gate w (l ++ if v then [.keyframe] else []) = true →
        want n (l ++ if v then [.keyframe] else []) = true := by
      intro v
      cases v with
      | true => exact hlog _ (.inr rfl)
      | false =>
        simp only [Bool.false_eq_true, if_false, List.append_nil]
        exact h
    unfold RtpVideo.emit
    dsimp only
    by_cases hgood : good s
    · rw [if_pos hgood]
      by_cases hbig : s.au.length > kMaxAccessUnitBytes - ((missing s).foldl appendAnnexB []).length
      · rw [if_pos hbig]
        exact hlog _ (.inr rfl)
      · rw [if_neg hbig]
        by_cases hout : (missing s).foldl appendAnnexB [] ++ s.au ≠ []
        · rw [if_pos hout]
          exact hlog _ (.inl ⟨_, rfl⟩)
        · rw [if_neg hout]
          exact hidle _
    · rw [if_neg hgood]
      exact hidle _
  skip h _ := h
  accepted q h := by
    rw [gate_append, want_append]
    exact h
  header _ _ _ _ _ _ h := h

/-- A waiting depacketizer hands over an IDR or asks for one. -/
theorem emit_signals {s : Depacketizer} (h : Inv s) (hw : s.waiting = true) (l : RtpVideo.Log) (w n : Bool) :
    gate w (emit s l).2 = true → want n (emit s l).2 = true := by
  rcases emit_handedOver h l with ⟨-, he⟩ | ⟨-, v, he, hidle⟩
  · rw [he, gate_append]
    exact fun h0 => nomatch h0
  · have hv : v = true := by
      cases v with
      | true => rfl
      | false => exact absurd (hidle rfl).1 (by simp [hw])
    rw [he, if_pos hv, want_append]
    exact fun _ => rfl

section Switch
variable {s : Depacketizer} {l : RtpVideo.Log} {w n : Bool}

/-- The payload that comes with another SSRC is signalled, unless it is taken
and leaves the access unit open. -/
theorem consume_switch (h : Inv s) (hw : s.waiting = true) (hau : s.au = []) (hfu : s.fu = [])
    (hgate : gate w l = true) (hwant : want n l = false) (p : RtpPacket) :
    (gate w (consume s l p).2 = true → want n (consume s l p).2 = true) ↔
      ¬ (p.marker = false ∧ p.payload.headD 0 &&& 128 = 0 ∧ OpensUnit p.payload) := by
  rw [consume_eq]
  by_cases hclean : p.payload.headD 0 &&& 128 = 0
  swap
  · rw [if_pos hclean]
    refine iff_of_true ?_ fun hs => hclean hs.2.1
    intro _
    show want n (l ++ [.rejected] ++ [.keyframe]) = true
    rw [want_append]
    rfl
  rw [if_neg (not_not.mpr hclean), ← payload_empty hau hfu l]
  obtain ⟨ns, hlog⟩ := payload_log s l p.payload
  have hw' : (payload s l p.payload).1.1.waiting = true := by
    have hP : Appends fun s _ => s.waiting = true := by
      refine ⟨fun h ha => ?_, fun _ _ h _ => h⟩
      rename_i s l n c
      obtain ⟨-, -, -, -, rfl⟩ := appendNalu_some ha
      obtain ⟨-, -, -, -, -, hwait, -⟩ := note_frame s n
      exact hwait.trans h
    exact hP.payload hw p.payload
  have hinv := inv_stable.toAppends.payload (l := l) h p.payload
  generalize payload s l p.payload = c at hlog hw' hinv
  have hunits : gate w c.1.2 = true ∧ want n c.1.2 = false := by
    rw [hlog, gate_append, want_append, hgate, hwant]
    clear hlog
    induction ns with
    | nil => exact ⟨rfl, rfl⟩
    | cons n ns ih => exact ih
  unfold settle finish
  by_cases hok : c.2 = true
  · rw [if_pos hok]
    by_cases hm : p.marker = true
    · rw [if_pos hm]
      exact iff_of_true (emit_signals hinv hw' c.1.2 w n) fun hs => absurd hs.1 (by simp [hm])
    · rw [if_neg hm]
      refine iff_of_false (fun hs => absurd (hs hunits.1) (by simp [hunits.2])) (not_not.mpr ?_)
      exact ⟨Bool.not_eq_true _ ▸ hm, hclean, hok⟩
  · rw [if_neg hok]
    refine iff_of_true ?_ fun hs => hok hs.2.2
    have hlost : gate w (lose c.1.1 (c.1.2 ++ [.rejected])).2 = true →
        want n (lose c.1.1 (c.1.2 ++ [.rejected])).2 = true := by
      show _ → want n (c.1.2 ++ [.rejected] ++ [.keyframe]) = true
      rw [want_append]
      exact fun _ => rfl
    split
    · exact (mirrored_keeps w n).emit (s := (lose c.1.1 (c.1.2 ++ [.rejected])).1) hlost
    · exact hlost

/-- Another SSRC starts over, and its first packet is always accepted. -/
theorem process_switch {bytes : Bytes} {p : RtpPacket} (hp : parseRtp bytes = some p)
    (hhave : s.haveSsrc = true) (hne : p.ssrc ≠ s.ssrc) (l : RtpVideo.Log) :
    ∃ s', Inv s' ∧ s'.waiting = true ∧ s'.au = [] ∧ s'.fu = [] ∧
      processRtpPacket s l bytes = consume s' (l ++ [.ssrcChange] ++ [.accepted p.sequence]) p := by
  have hentered : entered s l p = ({ reset s with haveSsrc := true, ssrc := p.ssrc }, l ++ [.ssrcChange]) := by
    unfold entered
    rw [if_pos ⟨hhave, hne⟩]
  refine ⟨{ reset s with haveSsrc := true, ssrc := p.ssrc, sequence := p.sequence, haveSequence := true,
                         timestamp := p.timestamp, haveTimestamp := true }, ?_, rfl, rfl, rfl, ?_⟩
  · exact inv_stable.header (l := []) p.timestamp p.ssrc p.sequence true true true (inv_reset s)
  · rw [process_parsed hp, hentered]
    rfl

end Switch

/-! One call. -/

section Step
variable {g : Engine}

/-- What the engine asks for after a packet that reaches the depacketizer. -/
theorem armed_replay {d : Depacketizer} (h : Inv d) (data : Bytes) {c : Engine}
    (hdc : c.dataChannelVideo = false) :
    Armed (replay c (RtpVideo.processRtpPacket d [] data)).1 ↔
      (gate d.waiting (RtpVideo.processRtpPacket d [] data).2 = true →
        want c.needKeyframe (RtpVideo.processRtpPacket d [] data).2 = true) := by
  set r := RtpVideo.processRtpPacket d [] data with hr
  obtain ⟨hpath, -, hdep⟩ := replay_frame c r
  have hgate : r.1.waiting = gate d.waiting r.2 :=
    ((gate_stable d.waiting []).packet (s := d) (l := []) ⟨h, rfl⟩ data).2
  have hwant : (replay c r).1.needKeyframe = want c.needKeyframe r.2 :=
    foldl_want r.2 (a := ({ c with rtpDepacketizer := r.1 }, [])) hdc
  unfold Armed
  rw [hpath, hdep, hgate, hwant]
  exact ⟨fun h => h hdc, fun h _ => h⟩

theorem enter_need (g : Engine) (ssrc : UInt32) (arrivalNs : UInt64) :
    (enter g ssrc arrivalNs).needKeyframe = g.needKeyframe := by
  unfold enter
  dsimp only
  split <;> rfl

/-- The packet of an SSRC that the depacketizer knows, or of its first. -/
theorem same_source {d : Depacketizer} {n : Bool} (h : d.waiting = true → n = true) {data : Bytes} {p : RtpPacket}
    (hp : parseRtp data = some p) (hsame : d.haveSsrc = true → p.ssrc = d.ssrc) :
    let l := (RtpVideo.processRtpPacket d [] data).2
    gate d.waiting l = true → want n l = true := by
  have hK := mirrored_keeps d.waiting n
  have hentered : entered d [] p = ({ d with haveSsrc := true, ssrc := p.ssrc }, []) := by
    unfold entered
    rw [if_neg fun hc => hc.2 (hsame hc.1)]
  rw [process_parsed hp, hentered]
  cases gapBefore { d with haveSsrc := true, ssrc := p.ssrc } p with
  | none => exact h
  | some gap => exact hK.accept (l := []) h gap

/-- The call leaves the RTP path alone, or the DataChannel has taken over. -/
structure Aside (g g' : Engine) : Prop where
  rtp : g'.rtpDepacketizer = g.rtpDepacketizer
  path : g'.dataChannelVideo = true ∨ g'.dataChannelVideo = g.dataChannelVideo ∧ g'.needKeyframe = g.needKeyframe

theorem Aside.refl (g : Engine) : Aside g g := ⟨rfl, .inr ⟨rfl, rfl⟩⟩

theorem Aside.armed {g' : Engine} (ha : Aside g g') (h : Armed g) : Armed g' := by
  intro hdc hw
  rcases ha.path with ht | ⟨hpath, hneed⟩
  · exact absurd hdc (by simp [ht])
  · rw [hneed]
    exact h (hpath.symm.trans hdc) (ha.rtp ▸ hw)

/-- A datagram is dropped, or it is a packet of a negotiated type that reaches
the depacketizer. -/
theorem process_cases (g : Engine) (data : Bytes) (arrivalNs : UInt64) :
    (Aside g (processRtpVideoPacket g data arrivalNs).1 ∧ ∀ p, ¬ Silent g data p) ∨
    ∃ p, parseRtp data = some p ∧ p.payloadType ∈ g.payloadTypes ∧ g.dataChannelVideo = false ∧
      processRtpVideoPacket g data arrivalNs =
        replay (enter g p.ssrc arrivalNs) (RtpVideo.processRtpPacket g.rtpDepacketizer [] data) := by
  cases hp : parseRtp data with
  | none =>
    obtain ⟨stats, hrun⟩ := process_unparsed (g := g) hp arrivalNs
    rw [hrun]
    exact .inl ⟨⟨rfl, .inr ⟨rfl, rfl⟩⟩, fun p hs => nomatch hp.symm.trans hs.parses⟩
  | some p =>
    by_cases htype : p.payloadType ∈ g.payloadTypes
    · cases hdc : g.dataChannelVideo with
      | false => exact .inr ⟨p, rfl, htype, rfl, process_media hp htype hdc arrivalNs⟩
      | true =>
        refine .inl ⟨?_, fun q hs => absurd hs.path (by simp [hdc])⟩
        unfold processRtpVideoPacket
        rw [hp]
        simp only [htype, not_true_eq_false, if_false]
        split
        · simp only [hdc]
          exact ⟨rfl, .inl rfl⟩
        · simp only [hdc]
          exact ⟨rfl, .inl rfl⟩
    · refine .inl ⟨?_, ?_⟩
      · unfold processRtpVideoPacket
        rw [hp]
        simp only [htype, not_false_eq_true, if_true]
        exact ⟨rfl, .inr ⟨rfl, rfl⟩⟩
      · intro q hs
        obtain rfl := Option.some.inj (hs.parses.symm.trans hp)
        exact htype hs.negotiated

theorem rtp_armed (hinv : Inv g.rtpDepacketizer) (h : Armed g) (data : Bytes) (arrivalNs : UInt64) :
    Armed (processRtpVideoPacket g data arrivalNs).1 ↔ ¬ ∃ p, Silent g data p := by
  rcases process_cases g data arrivalNs with ⟨haside, hno⟩ | ⟨p, hp, htype, hdc, hrun⟩
  · exact iff_of_true (haside.armed h) fun ⟨p, hs⟩ => hno p hs
  have honly : ∀ q, Silent g data q → q = p := fun q hs => Option.some.inj (hs.parses.symm.trans hp)
  rw [hrun, armed_replay hinv data ((enter_frame g p.ssrc arrivalNs).2.1.trans hdc), enter_need]
  by_cases hswitch : g.rtpDepacketizer.haveSsrc = true ∧ p.ssrc ≠ g.rtpDepacketizer.ssrc
  · obtain ⟨s', hi, hw, hau, hfu, hconsume⟩ := process_switch hp hswitch.1 hswitch.2 []
    rw [hconsume]
    cases hneed : g.needKeyframe with
    | true =>
      refine iff_of_true ?_ fun ⟨q, hs⟩ => absurd hs.quiet (by simp [hneed])
      exact (mirrored_keeps g.rtpDepacketizer.waiting true).consume fun _ => rfl
    | false =>
      rw [consume_switch hi hw hau hfu rfl rfl]
      refine not_congr ⟨fun hs => ⟨p, hp, htype, hdc, hneed, hswitch.1, hswitch.2, hs.1, hs.2.1, hs.2.2⟩, ?_⟩
      intro ⟨q, hs⟩
      obtain rfl := honly q hs
      exact ⟨hs.open_, hs.clean, hs.takes⟩
  · refine iff_of_true (same_source (h hdc) hp ?_) fun ⟨q, hs⟩ => ?_
    · intro hhave
      exact not_not.mp fun hne => hswitch ⟨hhave, hne⟩
    · obtain rfl := honly q hs
      exact hswitch ⟨hs.have_, hs.other⟩

/-! The other calls. -/

theorem onDcBatch_aside (a : Act) (b : DcVideo.Batch) : Aside a.1 (onDcBatch a b).1 := by
  have hcontrols : ∀ (cs : List DcVideo.Control) (c : Act), Aside a.1 c.1 → Aside a.1 (cs.foldl onDcControl c).1 := by
    intro cs
    induction cs with
    | nil => exact fun _ h => h
    | cons x cs ih => exact fun c h => ih _ ⟨h.rtp, h.path⟩
  have hframes : ∀ (es : List DcVideo.Emission) (c : Act), Aside a.1 c.1 → Aside a.1 (es.foldl onDcFrame c).1 := by
    intro es
    induction es with
    | nil => exact fun _ h => h
    | cons e es ih =>
      refine fun c h => ih _ ?_
      unfold onDcFrame emitFrame
      cases configuredIdr e.out.data with
      | true => exact ⟨h.rtp, .inl rfl⟩
      | false => exact ⟨h.rtp, .inl rfl⟩
  exact hframes b.frames _ (hcontrols b.controls a (Aside.refl a.1))

theorem processDataChannelPacket_aside (g : Engine) (data : Bytes) (arrivalNs : UInt64) :
    Aside g (processDataChannelPacket g data arrivalNs).1 := by
  unfold processDataChannelPacket
  exact ⟨(onDcBatch_aside _ _).rtp, (onDcBatch_aside _ _).path⟩

theorem dispatch_kept (nowNs : UInt64) (a : Act) :
    (tryDispatchKeyframeRequest nowNs a).1.rtpDepacketizer = a.1.rtpDepacketizer ∧
      (tryDispatchKeyframeRequest nowNs a).1.dataChannelVideo = a.1.dataChannelVideo ∧
      (tryDispatchKeyframeRequest nowNs a).1.needKeyframe = a.1.needKeyframe := by
  unfold tryDispatchKeyframeRequest
  dsimp only
  split
  · exact ⟨rfl, rfl, rfl⟩
  · exact ⟨rfl, rfl, rfl⟩

theorem onTimer_aside (g : Engine) (nowNs : UInt64) : Aside g (onTimer g nowNs).1 := by
  unfold onTimer
  dsimp only
  set a := onDcBatch ({ g with currentArrivalNs := nowNs,
                               dcDepacketizer := (DcVideo.onTimerTickAt g.dcDepacketizer (micros nowNs)).1 }, [])
    (DcVideo.onTimerTickAt g.dcDepacketizer (micros nowNs)).2 with ha
  have hbatch : Aside g a.1 := ⟨(onDcBatch_aside _ _).rtp, (onDcBatch_aside _ _).path⟩
  obtain ⟨hrtp, hpath, hneed⟩ := dispatch_kept nowNs a
  split
  · exact ⟨hrtp.trans hbatch.rtp, by rw [hpath, hneed]; exact hbatch.path⟩
  · exact hbatch

theorem next_inv (h : Inv g.rtpDepacketizer) (c : Call) : Inv (next g c).rtpDepacketizer := by
  cases c with
  | processRtpVideoPacket data arrivalNs =>
    show Inv (processRtpVideoPacket g data arrivalNs).1.rtpDepacketizer
    rcases process_cases g data arrivalNs with ⟨haside, -⟩ | ⟨p, -, -, -, hrun⟩
    · exact haside.rtp ▸ h
    · rw [hrun, (replay_frame _ _).2.2]
      exact inv_stable.packet (l := []) h data
  | processDataChannelPacket data arrivalNs => exact (processDataChannelPacket_aside g data arrivalNs).rtp ▸ h
  | onTimer nowNs => exact (onTimer_aside g nowNs).rtp ▸ h
  | requestKeyframe nowNs => exact (dispatch_kept nowNs ({ g with needKeyframe := true }, [])).1 ▸ h
  | onDataChannelVideoClosed => exact inv_reset _
  | reset => exact inv_reset _
  | _ => exact h

/-- One call keeps the engine armed, and only a silent packet does not. -/
theorem next_armed (hinv : Inv g.rtpDepacketizer) (h : Armed g) (c : Call) : Armed (next g c) ↔ ¬ c.Silent g := by
  cases c with
  | processRtpVideoPacket data arrivalNs => exact rtp_armed hinv h data arrivalNs
  | processDataChannelPacket data arrivalNs =>
    exact iff_of_true ((processDataChannelPacket_aside g data arrivalNs).armed h) id
  | onTimer nowNs => exact iff_of_true ((onTimer_aside g nowNs).armed h) id
  | requestKeyframe nowNs =>
    exact iff_of_true (fun _ _ => (dispatch_kept nowNs ({ g with needKeyframe := true }, [])).2.2) id
  | onDataChannelVideoClosed => exact iff_of_true (fun _ _ => rfl) id
  | reset => exact iff_of_true (fun _ _ => rfl) id
  | _ => exact iff_of_true h id

end Step

/-- The engine asks for a keyframe whenever the depacketizer waits for one, in
every state of a run, if and only if the run has no silent packet. -/
theorem recovery_armed_iff (cs : List Call) :
    (∀ pre, pre <+: cs → Armed (after pre)) ↔ EachAfter (fun pre c => ¬ c.Silent (after pre)) cs := by
  show (∀ pre, pre <+: cs → Armed (pre.foldl next {})) ↔ EachAfter (fun pre c => ¬ c.Silent (pre.foldl next {})) cs
  have hinit : Armed {} := fun _ _ => rfl
  exact prefixes_iff (J := fun g : Engine => Inv g.rtpDepacketizer) (I := Armed) (B := fun g c => c.Silent g)
    (inv_reset {}) hinit (fun _ c h => next_inv h c) (fun _ c hinv h => next_armed hinv h c) cs

/-- The first key frame is complete, and the frame that another SSRC opens is not. -/
def newSource : List Call :=
  .setVideoPayloadTypes [96] :: [[0x80, 96, 0, 0, 0, 0, 0, 10, 0, 0, 0, 7, 0x67, 1],
    [0x80, 96, 0, 1, 0, 0, 0, 10, 0, 0, 0, 7, 0x68, 2], [0x80, 224, 0, 2, 0, 0, 0, 10, 0, 0, 0, 7, 0x65, 3],
    [0x80, 96, 0, 0, 0, 0, 0, 10, 0, 0, 0, 8, 0x41, 4]].map (.processRtpVideoPacket · 0)

/-- The depacketizer waits and the engine has stopped asking. -/
theorem newSource_unarmed : ¬ Armed (after newSource) := by
  intro h
  have hneed : (after newSource).needKeyframe = false := by decide
  exact absurd (h (by decide) (by decide)) (by simp [hneed])

end KmVirtualCamera.L4.RtpRecovery
