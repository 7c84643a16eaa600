import Mathlib
import KmVirtualCamera.L2Machine.RtpChain
import KmVirtualCamera.L2Machine.RtpLink
import KmVirtualCamera.L4App.ReceiverEngine

/-!
# Padding-only packets at the receiver engine

A sender may send packets that are all padding, in the same sequence of numbers
as its media. The engine drops them, as they do not parse, and the depacketizer
never learns of their numbers.

Two streams are compared: one with padding-only packets, and the same one
without them. `Alike` relates the engines that receive them: all that is
different is the statistics, the last arrival and the last sequence number.

* `padding_transparent`: with the media packets still numbered one after the
  other the engine does the same, and a stream that asks for no recovery asks
  for one otherwise.
* `probe_signals_loss`: the stream where one is in between.
-/
namespace KmVirtualCamera.L4.ReceiverEngine
open KmVirtualCamera.L2 KmVirtualCamera.L1.RtpWire
open KmVirtualCamera.L2.RtpVideo (Consecutive)

/-- A datagram of the stream, whatever its number. -/
structure Packet where
  data : Bytes
  arrivalNs : UInt64
  padding : Bool

/-- A media packet of a negotiated type, or a padding-only packet. -/
structure Packet.Ok (types : List UInt8) (ssrc : UInt32) (p : Packet) : Prop where
  media : p.padding = false → ∃ r, parseRtp p.data = some r ∧ r.payloadType ∈ types ∧ r.ssrc = ssrc
  padding : p.padding = true → PaddingOnly p.data

/-- The stream without its padding-only packets. -/
def mediaOnly (ps : List Packet) : List Packet := ps.filter (!·.padding)

/-- The datagrams with the numbers from `q` on. -/
def number : UInt16 → List Packet → List Packet
  | _, [] => []
  | q, p :: ps => { p with data := renumber p.data q } :: number (q + 1) ps

/-- The numbers the media packets get. -/
def numbers : UInt16 → List Packet → List UInt16
  | _, [] => []
  | q, p :: ps => if p.padding then numbers (q + 1) ps else q :: numbers (q + 1) ps

/-- The engine receives one datagram after the other. -/
def deliver : Engine → List Packet → Act
  | g, [] => (g, [])
  | g, p :: ps =>
    let a := processRtpVideoPacket g p.data p.arrivalNs
    let b := deliver a.1 ps
    (b.1, a.2 ++ b.2)

/-- The packet the stream begins with is the first of its SSRC, for the
depacketizer. -/
def Begins (ssrc : UInt32) (g : Engine) : Prop :=
  g.rtpDepacketizer.haveSequence = true →
    g.rtpDepacketizer.haveSsrc = true ∧ g.rtpDepacketizer.ssrc ≠ ssrc

theorem begins_meets {ssrc : UInt32} {g : Engine} (h : Begins ssrc g) (q : UInt16) :
    RtpVideo.Meets ssrc q g.rtpDepacketizer := by
  intro hsame hseq
  obtain ⟨hhave, hne⟩ := h hseq
  exact absurd ⟨hhave, hne.symm⟩ hsame

/-! ## What the callbacks do not read -/

/-- The engine without its statistics and its RTP depacketizer. -/
def sketch (g : Engine) : Engine := { g with stats := {}, rtpDepacketizer := {} }

theorem of_sketch {g g' : Engine} (h : sketch g = sketch g') :
    g' = { g with stats := g'.stats, rtpDepacketizer := g'.rtpDepacketizer } := by
  cases g
  cases g'
  simp only [sketch, Engine.mk.injEq] at h ⊢
  simp [h]

theorem onRtpEvent_sketch {g g' : Engine} (h : sketch g = sketch g') (out : List Output) (e : RtpVideo.Event) :
    sketch (onRtpEvent (g, out) e).1 = sketch (onRtpEvent (g', out) e).1 ∧
      (onRtpEvent (g, out) e).2 = (onRtpEvent (g', out) e).2 ∧
      (onRtpEvent (g, out) e).1.rtpDepacketizer = g.rtpDepacketizer := by
  rw [of_sketch h]
  generalize g'.stats = stats
  generalize g'.rtpDepacketizer = d
  cases e with
  | emit e =>
    unfold onRtpEvent
    cases hdc : g.dataChannelVideo with
    | true => simp [hdc, sketch]
    | false =>
      simp only [hdc, Bool.false_eq_true, if_false]
      unfold emitFrame
      cases H : VideoQueue.configuredIdr e.data <;> simp [sketch]
  | keyframe =>
    unfold onRtpEvent tryDispatchKeyframeRequest
    dsimp only
    split
    · exact ⟨rfl, rfl, rfl⟩
    · exact ⟨rfl, rfl, rfl⟩
  | unparsed => exact ⟨rfl, rfl, rfl⟩
  | ssrcChange => exact ⟨rfl, rfl, rfl⟩
  | accepted => exact ⟨rfl, rfl, rfl⟩
  | nal => exact ⟨rfl, rfl, rfl⟩
  | rejected => exact ⟨rfl, rfl, rfl⟩
  | reset => exact ⟨rfl, rfl, rfl⟩

theorem foldl_onRtpEvent_sketch : ∀ (l : RtpVideo.Log) {g g' : Engine} (_ : sketch g = sketch g')
    (out : List Output),
    sketch (l.foldl onRtpEvent (g, out)).1 = sketch (l.foldl onRtpEvent (g', out)).1 ∧
      (l.foldl onRtpEvent (g, out)).2 = (l.foldl onRtpEvent (g', out)).2 ∧
      (l.foldl onRtpEvent (g, out)).1.rtpDepacketizer = g.rtpDepacketizer
  | [], _, _, h, _ => ⟨h, rfl, rfl⟩
  | e :: l, g, g', h, out => by
    obtain ⟨h1, h2, h3⟩ := onRtpEvent_sketch h out e
    obtain ⟨k1, k2, k3⟩ := foldl_onRtpEvent_sketch l h1 (onRtpEvent (g, out) e).2
    have hpair : ((onRtpEvent (g', out) e).1, (onRtpEvent (g, out) e).2) = onRtpEvent (g', out) e := by
      rw [h2]
    rw [hpair] at k1 k2
    exact ⟨k1, k2, k3.trans h3⟩

/-! ## One packet -/

/-- The engine when it hands a packet on.
mirrors shared/receiver/engine/receiver_engine.cpp:30-41 -/
def enter (g : Engine) (ssrc : UInt32) (arrivalNs : UInt64) : Engine :=
  let g := { g with currentArrivalNs := arrivalNs, stats.rtpPackets := g.stats.rtpPackets + 1 }
  if g.haveVideoSsrc = false ∨ g.videoSsrc ≠ ssrc then
    { g with rtpUnwrapper := {}, videoSsrc := ssrc, haveVideoSsrc := true } else g

theorem enter_frame (g : Engine) (ssrc : UInt32) (arrivalNs : UInt64) :
    (enter g ssrc arrivalNs).rtpDepacketizer = g.rtpDepacketizer ∧
      (enter g ssrc arrivalNs).dataChannelVideo = g.dataChannelVideo ∧
      (enter g ssrc arrivalNs).payloadTypes = g.payloadTypes := by
  unfold enter
  dsimp only
  split
  · exact ⟨rfl, rfl, rfl⟩
  · exact ⟨rfl, rfl, rfl⟩

/-- What the callbacks make of the depacketizer's log. -/
def replay (g : Engine) (c : RtpVideo.Depacketizer × RtpVideo.Log) : Act :=
  c.2.foldl onRtpEvent ({ g with rtpDepacketizer := c.1 }, [])

section Packet
variable {g : Engine} {types : List UInt8} {ssrc : UInt32}

theorem process_media {data : Bytes} {r : RtpPacket} (hr : parseRtp data = some r)
    (htype : r.payloadType ∈ g.payloadTypes) (hdc : g.dataChannelVideo = false) (arrivalNs : UInt64) :
    processRtpVideoPacket g data arrivalNs =
      replay (enter g r.ssrc arrivalNs) (RtpVideo.processRtpPacket g.rtpDepacketizer [] data) := by
  unfold processRtpVideoPacket replay enter
  rw [hr]
  dsimp only
  rw [if_neg (not_not.mpr htype)]
  split
  · simp [hdc]
  · simp [hdc]

/-- A packet that does not parse leaves its arrival time and the count. -/
theorem process_unparsed {data : Bytes} (h : parseRtp data = none) (arrivalNs : UInt64) :
    ∃ stats, processRtpVideoPacket g data arrivalNs =
      ({ g with currentArrivalNs := arrivalNs, stats := stats }, []) := by
  unfold processRtpVideoPacket
  rw [h]
  exact ⟨_, rfl⟩

theorem process_dataChannel (hdc : g.dataChannelVideo = true) (data : Bytes) (arrivalNs : UInt64) :
    (processRtpVideoPacket g data arrivalNs).2 = [] ∧
      (processRtpVideoPacket g data arrivalNs).1.dataChannelVideo = true := by
  unfold processRtpVideoPacket
  dsimp only
  split
  · exact ⟨rfl, hdc⟩
  · split
    · exact ⟨rfl, hdc⟩
    · split
      · simp [hdc]
      · simp [hdc]

/-! ## Engines that differ in the number only -/

/-- The engines agree up to the statistics, the time of the last arrival and
the last sequence number. -/
def Alike (g g' : Engine) : Prop :=
  ∃ arrivalNs stats q, g' = { g with currentArrivalNs := arrivalNs, stats := stats,
                                     rtpDepacketizer := { g.rtpDepacketizer with sequence := q } }

theorem alike_refl (g : Engine) : Alike g g := ⟨g.currentArrivalNs, g.stats, g.rtpDepacketizer.sequence, rfl⟩

theorem alike_of_sketch {g' : Engine} (h : sketch g = sketch g') {q : UInt16}
    (hd : g'.rtpDepacketizer = { g.rtpDepacketizer with sequence := q }) : Alike g g' := by
  refine ⟨g.currentArrivalNs, g'.stats, q, ?_⟩
  rw [← hd]
  exact of_sketch h

theorem Alike.frame {g' : Engine} (h : Alike g g') :
    g'.payloadTypes = g.payloadTypes ∧ g'.dataChannelVideo = g.dataChannelVideo ∧
      ∃ q, g'.rtpDepacketizer = { g.rtpDepacketizer with sequence := q } := by
  obtain ⟨now, stats, q, rfl⟩ := h
  exact ⟨rfl, rfl, q, rfl⟩

theorem Alike.unparsed {g' : Engine} (h : Alike g g') (arrivalNs : UInt64) (stats : ReceiverStats) :
    Alike { g with currentArrivalNs := arrivalNs, stats := stats } g' := by
  obtain ⟨now, stats', q, rfl⟩ := h
  exact ⟨now, stats', q, rfl⟩

theorem Alike.enter {g' : Engine} (h : Alike g g') (ssrc : UInt32) (arrivalNs : UInt64) :
    sketch (enter g ssrc arrivalNs) = sketch (enter g' ssrc arrivalNs) := by
  obtain ⟨now, stats, q, rfl⟩ := h
  unfold ReceiverEngine.enter
  dsimp only
  split
  · rfl
  · rfl

/-- The callbacks do not read the number. -/
theorem replay_alike {g' : Engine} (h : sketch g = sketch g') (k k' : RtpVideo.Link) (pre : RtpVideo.Log)
    (q q' : UInt16) (c : RtpVideo.Depacketizer × RtpVideo.Log)
    (hk : k' = { k with sequence := k'.sequence }) :
    Alike (replay g (RtpVideo.moved k (pre ++ [.accepted q]) c)).1
        (replay g' (RtpVideo.moved k' (pre ++ [.accepted q']) c)).1 ∧
      (replay g (RtpVideo.moved k (pre ++ [.accepted q]) c)).2 =
        (replay g' (RtpVideo.moved k' (pre ++ [.accepted q']) c)).2 := by
  have hskip : ∀ (q : UInt16) (a : Act),
      (pre ++ [RtpVideo.Event.accepted q] ++ c.2).foldl onRtpEvent a = (pre ++ c.2).foldl onRtpEvent a := by
    intro q a
    simp only [List.foldl_append]
    rfl
  have hpre : sketch { g with rtpDepacketizer := c.1.relink k } =
      sketch { g' with rtpDepacketizer := c.1.relink k' } := h
  obtain ⟨h1, h2, h3⟩ := foldl_onRtpEvent_sketch (pre ++ c.2) hpre []
  obtain ⟨-, -, h3'⟩ := foldl_onRtpEvent_sketch (pre ++ c.2) hpre.symm []
  unfold replay RtpVideo.moved
  rw [hskip, hskip]
  exact ⟨alike_of_sketch h1 (h3'.trans (by rw [h3, hk]; rfl)), h2⟩

theorem foldl_onRtpEvent_frame (l : RtpVideo.Log) : ∀ (a : Act),
    (l.foldl onRtpEvent a).1.dataChannelVideo = a.1.dataChannelVideo ∧
      (l.foldl onRtpEvent a).1.payloadTypes = a.1.payloadTypes ∧ a.2 <+: (l.foldl onRtpEvent a).2 := by
  induction l with
  | nil => exact fun a => ⟨rfl, rfl, List.prefix_refl _⟩
  | cons e l ih =>
    intro a
    have hstep : (onRtpEvent a e).1.dataChannelVideo = a.1.dataChannelVideo ∧
        (onRtpEvent a e).1.payloadTypes = a.1.payloadTypes ∧ a.2 <+: (onRtpEvent a e).2 := by
      cases e with
      | emit e =>
        unfold onRtpEvent
        dsimp only
        split
        · exact ⟨rfl, rfl, List.prefix_refl _⟩
        · unfold emitFrame
          cases H : VideoQueue.configuredIdr e.data <;> simp
      | keyframe =>
        unfold onRtpEvent tryDispatchKeyframeRequest
        dsimp only
        split
        · exact ⟨rfl, rfl, List.prefix_append _ _⟩
        · exact ⟨rfl, rfl, by rw [List.append_assoc]; exact List.prefix_append _ _⟩
      | _ => exact ⟨rfl, rfl, List.prefix_refl _⟩
    obtain ⟨h1, h2, h3⟩ := ih (onRtpEvent a e)
    exact ⟨h1.trans hstep.1, h2.trans hstep.2.1, hstep.2.2.trans h3⟩

theorem replay_frame (g : Engine) (c : RtpVideo.Depacketizer × RtpVideo.Log) :
    (replay g c).1.dataChannelVideo = g.dataChannelVideo ∧ (replay g c).1.payloadTypes = g.payloadTypes ∧
      (replay g c).1.rtpDepacketizer = c.1 := by
  obtain ⟨h1, h2, -⟩ := foldl_onRtpEvent_frame c.2 ({ g with rtpDepacketizer := c.1 }, [])
  exact ⟨h1, h2, (foldl_onRtpEvent_sketch c.2 rfl []).2.2⟩

/-- A keyframe request tells the platform of a loss. -/
theorem replay_loss {c : RtpVideo.Depacketizer × RtpVideo.Log} (h : .keyframe ∈ c.2) (g : Engine) :
    ∃ nowNs, .loss nowNs ∈ (replay g c).2 := by
  obtain ⟨l₁, l₂, hl⟩ := List.append_of_mem h
  unfold replay
  rw [hl, List.foldl_append, List.foldl_cons]
  generalize l₁.foldl onRtpEvent _ = a
  have hloss : .loss a.1.currentArrivalNs ∈ (onRtpEvent a .keyframe).2 := by
    unfold onRtpEvent tryDispatchKeyframeRequest
    dsimp only
    split
    · simp
    · simp
  exact ⟨a.1.currentArrivalNs, (foldl_onRtpEvent_frame l₂ (onRtpEvent a .keyframe)).2.2.subset hloss⟩

/-! ## Streams -/

/-- Both engines take the packet, and what comes of it is the same. -/
theorem process_alike {g' : Engine} {data : Bytes} {r : RtpPacket} (hr : parseRtp data = some r)
    (htype : r.payloadType ∈ g.payloadTypes) (hdc : g.dataChannelVideo = false) (halike : Alike g g')
    {q q' : UInt16} (hm : RtpVideo.Meets r.ssrc q g.rtpDepacketizer)
    (hm' : RtpVideo.Meets r.ssrc q' g'.rtpDepacketizer) (arrivalNs : UInt64) :
    let a := processRtpVideoPacket g (renumber data q) arrivalNs
    let a' := processRtpVideoPacket g' (renumber data q') arrivalNs
    a.2 = a'.2 ∧ Alike a.1 a'.1 ∧ a.1.dataChannelVideo = false ∧ a.1.payloadTypes = g.payloadTypes ∧
      a.1.rtpDepacketizer.link = ⟨true, r.ssrc, true, q⟩ ∧ a'.1.rtpDepacketizer.link = ⟨true, r.ssrc, true, q'⟩ := by
  have henter := halike.enter r.ssrc arrivalNs
  obtain ⟨htypes, hsame, x, hx⟩ := halike.frame
  rw [← htypes] at htype
  have hcore : RtpVideo.core g'.rtpDepacketizer r = RtpVideo.core g.rtpDepacketizer r := by
    rw [hx, RtpVideo.core_sequence]
  have hrun := process_media (parseRtp_renumber hr q) (htypes ▸ htype) hdc arrivalNs
  have hrun' := process_media (parseRtp_renumber hr q') htype (hsame.trans hdc) arrivalNs
  rw [RtpVideo.processRtpPacket_core (parseRtp_renumber hr q) hm] at hrun
  rw [RtpVideo.processRtpPacket_core (parseRtp_renumber hr q') hm', hcore] at hrun'
  obtain ⟨hnext, hout⟩ := replay_alike henter ⟨true, r.ssrc, true, q⟩ ⟨true, r.ssrc, true, q'⟩
    (RtpVideo.core g.rtpDepacketizer r).1 q q' (RtpVideo.core g.rtpDepacketizer r).2 rfl
  obtain ⟨hdc', htypes, hdep⟩ := replay_frame (enter g r.ssrc arrivalNs)
    (RtpVideo.moved ⟨true, r.ssrc, true, q⟩ ((RtpVideo.core g.rtpDepacketizer r).1 ++ [.accepted q])
      (RtpVideo.core g.rtpDepacketizer r).2)
  obtain ⟨-, hsame, hsame'⟩ := enter_frame g r.ssrc arrivalNs
  dsimp only
  rw [hrun, hrun']
  refine ⟨hout, hnext, (hdc'.trans hsame).trans hdc, htypes.trans hsame', ?_, ?_⟩
  · exact congrArg RtpVideo.Depacketizer.link hdep
  · exact congrArg RtpVideo.Depacketizer.link (replay_frame _ _).2.2

/-! One packet of a numbered stream. -/

theorem numbers_padding {p : Packet} (h : p.padding = true) (q : UInt16) (ps : List Packet) :
    numbers q (p :: ps) = numbers (q + 1) ps := if_pos h

theorem numbers_media {p : Packet} (h : p.padding = false) (q : UInt16) (ps : List Packet) :
    numbers q (p :: ps) = q :: numbers (q + 1) ps := by
  have hne : ¬ p.padding = true := by rw [h]; exact Bool.false_ne_true
  exact if_neg hne

theorem mediaOnly_padding {p : Packet} (h : p.padding = true) (ps : List Packet) :
    mediaOnly (p :: ps) = mediaOnly ps := by
  simp [mediaOnly, h]

theorem mediaOnly_media {p : Packet} (h : p.padding = false) (ps : List Packet) :
    mediaOnly (p :: ps) = p :: mediaOnly ps := by
  simp [mediaOnly, h]

theorem deliver_number (g : Engine) (q : UInt16) (p : Packet) (ps : List Packet) :
    (deliver g (number q (p :: ps))).2 =
      (processRtpVideoPacket g (renumber p.data q) p.arrivalNs).2 ++
        (deliver (processRtpVideoPacket g (renumber p.data q) p.arrivalNs).1 (number (q + 1) ps)).2 :=
  rfl

/-- The engine drops a padding-only packet. -/
theorem deliver_padding {p : Packet} (hp : p.Ok types ssrc) (hpad : p.padding = true) (g : Engine)
    (q : UInt16) (ps : List Packet) :
    ∃ stats, (deliver g (number q (p :: ps))).2 =
      (deliver { g with currentArrivalNs := p.arrivalNs, stats := stats } (number (q + 1) ps)).2 := by
  obtain ⟨stats, hrun⟩ := @process_unparsed g _
    (parseRtp_paddingOnly (paddingOnly_renumber (hp.padding hpad) q)) p.arrivalNs
  refine ⟨stats, ?_⟩
  rw [deliver_number, hrun, List.nil_append]

/-- **The streams compared.** As long as the media packets are numbered one
after the other, the engine puts out the same. -/
theorem deliver_alike : ∀ (ps : List Packet) {q q' : UInt16} {g g' : Engine},
    (∀ p ∈ ps, p.Ok types ssrc) → g.payloadTypes = types → g.dataChannelVideo = false → Alike g g' →
    Consecutive (numbers q ps) → (∀ n ∈ (numbers q ps).head?, RtpVideo.Meets ssrc n g.rtpDepacketizer) →
    RtpVideo.Meets ssrc q' g'.rtpDepacketizer →
      (deliver g (number q ps)).2 = (deliver g' (number q' (mediaOnly ps))).2
  | [], _, _, _, _, _, _, _, _, _, _, _ => rfl
  | p :: ps, q, q', g, g', hok, htypes, hdc, halike, hchain, hm, hm' => by
    have hp := hok p List.mem_cons_self
    have hps : ∀ x ∈ ps, x.Ok types ssrc := fun x hx => hok x (List.mem_cons_of_mem p hx)
    cases hpad : p.padding with
    | true =>
      -- The engine drops it, and the other stream does not have it.
      obtain ⟨stats, hrun⟩ := deliver_padding hp hpad g q ps
      rw [numbers_padding hpad] at hchain hm
      rw [hrun, mediaOnly_padding hpad]
      exact deliver_alike ps hps htypes hdc (halike.unparsed _ _) hchain hm hm'
    | false =>
      obtain ⟨r, hr, htype, hssrc⟩ := hp.media hpad
      rw [numbers_media hpad] at hchain hm
      rw [← htypes] at htype
      have hm := hm q rfl
      rw [← hssrc] at hm hm'
      obtain ⟨hout, halike', hdc', htypes', hlink, hlink'⟩ :=
        process_alike hr htype hdc halike hm hm' p.arrivalNs
      rw [hssrc] at hlink hlink'
      rw [mediaOnly_media hpad, deliver_number, deliver_number, hout]
      refine congrArg _ (deliver_alike ps hps (htypes'.trans htypes) hdc' halike' hchain.tail ?_ ?_)
      · intro n hn
        exact RtpVideo.meets_of_link hlink (hchain.rel_head? hn)
      · exact RtpVideo.meets_of_link hlink' rfl

/-! ## A gap -/

/-- Where the numbers stop following each other, the engine tells of a loss. -/
theorem deliver_gap : ∀ (ps : List Packet) {q x : UInt16} {g : Engine}, (∀ p ∈ ps, p.Ok types ssrc) →
    g.payloadTypes = types → g.dataChannelVideo = false → g.rtpDepacketizer.link = ⟨true, ssrc, true, x⟩ →
    (x :: numbers q ps).IsChain (fun a b => 0 < sequenceDelta b a) → ¬ Consecutive (x :: numbers q ps) →
      ∃ nowNs, .loss nowNs ∈ (deliver g (number q ps)).2
  | [], _, _, _, _, _, _, _, _, hgap => absurd (List.isChain_singleton _) hgap
  | p :: ps, q, x, g, hok, htypes, hdc, hlink, hahead, hgap => by
    have hp := hok p List.mem_cons_self
    have hps : ∀ x ∈ ps, x.Ok types ssrc := fun x hx => hok x (List.mem_cons_of_mem p hx)
    cases hpad : p.padding with
    | true =>
      obtain ⟨stats, hrun⟩ := deliver_padding hp hpad g q ps
      rw [numbers_padding hpad] at hahead hgap
      rw [hrun]
      exact deliver_gap ps hps htypes hdc hlink hahead hgap
    | false =>
      obtain ⟨r, hr, htype, hssrc⟩ := hp.media hpad
      rw [numbers_media hpad] at hahead hgap
      rw [← htypes] at htype
      rw [← hssrc] at hlink
      have hnew := hahead.rel_head? rfl
      have hahead' := (List.isChain_cons.mp hahead).2
      rw [deliver_number]
      by_cases hq : q = x + 1
      · -- The next number: the gap comes later.
        obtain ⟨-, -, hdc', htypes', hlink', -⟩ := process_alike hr htype hdc (alike_refl g)
          (RtpVideo.meets_of_link hlink hq) (RtpVideo.meets_of_link hlink hq) p.arrivalNs
        rw [hssrc] at hlink'
        have hgap' : ¬ Consecutive (q :: numbers (q + 1) ps) := by
          intro hc
          refine hgap (List.isChain_cons.mpr ⟨?_, hc⟩)
          intro n hn
          obtain rfl := Option.some.inj hn
          exact hq
        obtain ⟨nowNs, hloss⟩ := deliver_gap ps hps (htypes'.trans htypes) hdc' hlink' hahead' hgap'
        exact ⟨nowNs, List.mem_append_right _ hloss⟩
      · injection hlink with hhave hsource hhave' hsequence
        rw [process_media (parseRtp_renumber hr q) htype hdc]
        obtain ⟨hkey, -⟩ := RtpVideo.processRtpPacket_gap [] (parseRtp_renumber hr q) ⟨hhave, hsource⟩ hhave'
          (by rw [hsequence]; exact hnew) (by rw [hsequence]; exact hq)
        obtain ⟨nowNs, hloss⟩ := replay_loss hkey (enter g (renumbered r q).ssrc p.arrivalNs)
        exact ⟨nowNs, List.mem_append_left _ hloss⟩

/-- The same for a stream that begins. -/
theorem deliver_begins : ∀ (ps : List Packet) {q : UInt16} {g : Engine}, (∀ p ∈ ps, p.Ok types ssrc) →
    g.payloadTypes = types → g.dataChannelVideo = false → Begins ssrc g →
    (numbers q ps).IsChain (fun a b => 0 < sequenceDelta b a) → ¬ Consecutive (numbers q ps) →
      ∃ nowNs, .loss nowNs ∈ (deliver g (number q ps)).2
  | [], _, _, _, _, _, _, _, hgap => absurd List.isChain_nil hgap
  | p :: ps, q, g, hok, htypes, hdc, hbegins, hahead, hgap => by
    have hp := hok p List.mem_cons_self
    have hps : ∀ x ∈ ps, x.Ok types ssrc := fun x hx => hok x (List.mem_cons_of_mem p hx)
    cases hpad : p.padding with
    | true =>
      obtain ⟨stats, hrun⟩ := deliver_padding hp hpad g q ps
      rw [numbers_padding hpad] at hahead hgap
      rw [hrun]
      exact deliver_begins ps hps htypes hdc hbegins hahead hgap
    | false =>
      obtain ⟨r, hr, htype, hssrc⟩ := hp.media hpad
      rw [numbers_media hpad] at hahead hgap
      rw [← htypes] at htype
      rw [← hssrc] at hbegins
      have hm : RtpVideo.Meets r.ssrc q g.rtpDepacketizer := begins_meets hbegins q
      obtain ⟨-, -, hdc', htypes', hlink', -⟩ := process_alike hr htype hdc (alike_refl g) hm hm p.arrivalNs
      rw [hssrc] at hlink'
      obtain ⟨nowNs, hloss⟩ := deliver_gap ps hps (htypes'.trans htypes) hdc' hlink' hahead hgap
      exact ⟨nowNs, List.mem_append_right _ hloss⟩

theorem deliver_dataChannel : ∀ (ps : List Packet) {g : Engine}, g.dataChannelVideo = true →
    (deliver g ps).2 = []
  | [], _, _ => rfl
  | p :: ps, g, hdc => by
    obtain ⟨hout, hdc'⟩ := process_dataChannel hdc p.data p.arrivalNs
    show _ ++ (deliver _ ps).2 = []
    rw [hout, deliver_dataChannel ps hdc', List.append_nil]

end Packet

/-- **Padding-only packets.** A stream and the same one without its
padding-only packets, each numbered from any number on, to an engine for which
the stream begins: the engine puts out the same if the DataChannel has the
path, or the media packets are still numbered one after the other. Of streams
that ask for no recovery without padding-only packets, and have no run of them
of half the circle, it does so only then. -/
theorem padding_transparent {types : List UInt8} {ssrc : UInt32} {ps : List Packet}
    (hok : ∀ p ∈ ps, p.Ok types ssrc) {g : Engine} (htypes : g.payloadTypes = types) (hbegins : Begins ssrc g)
    (first first' : UInt16) :
    (g.dataChannelVideo = true ∨ Consecutive (numbers first ps) →
      (deliver g (number first ps)).2 = (deliver g (number first' (mediaOnly ps))).2) ∧
    ((∀ nowNs, .loss nowNs ∉ (deliver g (number first' (mediaOnly ps))).2) →
      (numbers first ps).IsChain (fun a b => 0 < sequenceDelta b a) →
      ((deliver g (number first ps)).2 = (deliver g (number first' (mediaOnly ps))).2 ↔
        g.dataChannelVideo = true ∨ Consecutive (numbers first ps))) := by
  have henough : g.dataChannelVideo = true ∨ Consecutive (numbers first ps) →
      (deliver g (number first ps)).2 = (deliver g (number first' (mediaOnly ps))).2 := by
    intro h
    cases hdc : g.dataChannelVideo with
    | true => rw [deliver_dataChannel _ hdc, deliver_dataChannel _ hdc]
    | false =>
      have hc := h.resolve_left (by rw [hdc]; exact Bool.false_ne_true)
      exact deliver_alike ps hok htypes hdc (alike_refl g) hc (fun n _ => begins_meets hbegins n)
        (begins_meets hbegins first')
  refine ⟨henough, fun hquiet hahead => ⟨?_, henough⟩⟩
  intro heq
  cases hdc : g.dataChannelVideo with
  | true => exact .inl rfl
  | false =>
    right
    by_contra hgap
    obtain ⟨nowNs, hloss⟩ := deliver_begins ps hok htypes hdc hbegins hahead hgap
    rw [heq] at hloss
    exact hquiet nowNs hloss

/-- An SPS, a PPS and an IDR slice in one packet. -/
def key : Packet :=
  ⟨[0x80, 0xE0, 0, 0, 0, 0, 0, 0, 0, 0, 0, 7, 0x78, 0, 2, 0x67, 1, 0, 2, 0x68, 2, 0, 2, 0x65, 3], 0, false⟩

/-- A slice that depends on it. -/
def delta : Packet := ⟨[0x80, 0xE0, 0, 0, 0, 0, 0, 30, 0, 0, 0, 7, 0x41, 4], 2000, false⟩

/-- One byte of padding. -/
def probe : Packet := ⟨[0xA0, 0x60, 0, 0, 0, 0, 0, 0, 0, 0, 0, 7, 1], 1000, true⟩

theorem key_ok : key.Ok [96] 7 := ⟨fun _ => ⟨_, rfl, by decide, rfl⟩, fun h => by cases h⟩

theorem delta_ok : delta.Ok [96] 7 := ⟨fun _ => ⟨_, rfl, by decide, rfl⟩, fun h => by cases h⟩

theorem probe_ok : probe.Ok [96] 7 := by
  have hframed : Framed probe.data := by
    refine ⟨?_, ?_, ?_⟩ <;> decide
  refine ⟨fun h => (by cases h), fun _ => ⟨hframed, ?_, 12, rfl, ?_, rfl⟩⟩
  · decide
  · decide

/-- Padding-only packets before the first media packet and after the last. -/
theorem padding_transparent_around :
    (deliver { payloadTypes := [96] } (number 65534 [probe, key, delta, probe])).2 =
      (deliver { payloadTypes := [96] } (number 0 [key, delta])).2 := by
  have hok : ∀ p ∈ [probe, key, delta, probe], p.Ok [96] 7 := by
    intro p hp
    simp only [List.mem_cons, List.not_mem_nil, or_false] at hp
    rcases hp with rfl | rfl | rfl | rfl
    · exact probe_ok
    · exact key_ok
    · exact delta_ok
    · exact probe_ok
  have hbegins : Begins 7 { payloadTypes := [96] } := fun h => by cases h
  refine (padding_transparent hok rfl hbegins 65534 0).1 (.inr ?_)
  unfold Consecutive
  decide

/-- One between two media packets: the second is lost, and the platform is told
so and asked for a keyframe. -/
theorem probe_signals_loss :
    (∀ p ∈ [key, probe, delta], p.Ok [96] 7) ∧ Begins 7 { payloadTypes := [96] } ∧
      (deliver { payloadTypes := [96] } (number 0 [key, probe, delta])).2 ≠
        (deliver { payloadTypes := [96] } (number 0 (mediaOnly [key, probe, delta]))).2 ∧
      .loss 2000 ∈ (deliver { payloadTypes := [96] } (number 0 [key, probe, delta])).2 := by
  refine ⟨?_, fun h => (by cases h), ?_, ?_⟩
  · intro p hp
    simp only [List.mem_cons, List.not_mem_nil, or_false] at hp
    rcases hp with rfl | rfl | rfl
    · exact key_ok
    · exact probe_ok
    · exact delta_ok
  · decide
  · decide

end KmVirtualCamera.L4.ReceiverEngine
