import Mathlib
import KmVirtualCamera.Core.LTS
import KmVirtualCamera.Core.Spaced
import KmVirtualCamera.L1Encoding.TransportSequence
import KmVirtualCamera.L2Machine.Remb
import KmVirtualCamera.L2Machine.Twcc

/-!
# The receiving session over its life (`EnhancedRtcpReceivingSession`)

`RtcpReception` has the statistics, `Remb` and `Twcc` two of the packets. Here
is the session they are parts of: what arrives, the timers, the requests for a
key frame or a bitrate, and `Stop`. Every public method changes the state
inside the mutex and hands its packets to the callback after it, so `lts` has a
step for the locked part of a call and one for each packet handed over; the
calls of different threads interleave in any order.

A call reads the clock once, in µs; the time is an argument, and so is what the
estimator says. `RequestKeyframeDirect` is a `requestKeyframe` with the
callback that was kept.

* `wire_accepted`: every packet handed over is one this code accepts, and names
  a source that was heard.
* `traffic_paced`: how far apart the packets of one kind are made.
* `keyframe_requests`: the numbers of the key frame requests.
* `report_reads`: what a receiver report says.
-/
namespace KmVirtualCamera.L4.RtcpSession
open KmVirtualCamera.ByteOrder KmVirtualCamera.L1.RtpWire KmVirtualCamera.L1.RtcpCompound
open KmVirtualCamera.L1.TransportSequence (parseTransportSequence)
open KmVirtualCamera.L2.RtcpReception (Tracked Event track report Sound)
open KmVirtualCamera.L2.Remb (header remb)
open KmVirtualCamera.L2.Twcc (TwccReceiver onPacket buildFeedbackPacket pending)

/-- `rtc::Message` by its type; the session looks into two of them. -/
inductive Message where
  | binary (bytes : Bytes)
  | control (bytes : Bytes)
  | other (bytes : Bytes)

inductive Kind where
  | report | remb | bitrate | twcc | pli | fir
  deriving DecidableEq

/-- A packet the session has made, and what the source was then. -/
structure Sent where
  kind : Kind
  bytes : Bytes
  ssrc : UInt32

/-- The reception comes with its history, which the code does not keep.
mirrors shared/receiver/rtc/enhanced_rtcp_session.h:27-40 -/
structure ReceivingSession where
  reception : Tracked := {}
  twcc : TwccReceiver := {}
  estimator : Bool := false
  twccId : UInt8 := 0
  firSequence : UInt8 := 0
  lastRr : Int := 0
  lastRemb : Int := 0
  lastTwcc : Int := 0
  lastPli : Int := -1
  /-- whether a callback is kept -/
  send : Bool := false
  stopped : Bool := false

abbrev ReceivingSession.ssrc (s : ReceivingSession) : UInt32 := s.reception.session.ssrc

/-- mirrors shared/receiver/rtc/enhanced_rtcp_session.cpp:24-26 -/
def fresh (clockRate : UInt32) (nowUs : Int) : ReceivingSession :=
  { reception := ⟨{ clockRate }, {}⟩, lastRr := nowUs.tdiv 1000, lastRemb := nowUs.tdiv 1000,
    lastTwcc := nowUs.tdiv 1000 }

/-- An accepted RTP packet. The reads of the extension do not fault.
mirrors shared/receiver/rtc/enhanced_rtcp_session.cpp:102-106 -/
def arrived (s : ReceivingSession) (bytes : Bytes) (rtp : RtpPacket) (nowUs : Int) : ReceivingSession :=
  let twcc := if s.ssrc ≠ rtp.ssrc then L2.Twcc.reset else s.twcc
  { s with
    reception := track s.reception (.packet rtp nowUs)
    twcc :=
      if s.twccId ≠ 0 then
        match parseTransportSequence bytes s.twccId with
        | .ok (some transportSequence) => onPacket twcc transportSequence nowUs (UInt16.ofNat bytes.length)
        | _ => twcc
      else twcc }

/-- One round of the loop over the messages, with those it lets through.
mirrors shared/receiver/rtc/enhanced_rtcp_session.cpp:98-119 -/
def message (nowUs : Int) : ReceivingSession × List Message → Message → ReceivingSession × List Message
  | (s, output), .binary bytes =>
    match parseRtp bytes with
    | none => (s, output)
    | some rtp => (arrived s bytes rtp nowUs, output ++ [.binary bytes])
  | (s, output), .control bytes =>
    match parseRtcp bytes with
    | none => (s, output)
    | some compound => ({ s with reception := track s.reception (.control compound nowUs) }, output)
  | (s, output), .other _ => (s, output)

section Feedback
variable (s : ReceivingSession) (now : Int)

/-- mirrors shared/receiver/rtc/enhanced_rtcp_session.cpp:81 -/
def feedbackReport : ReceivingSession × List Sent :=
  if s.reception.session.started ∧ now - s.lastRr ≥ 500 then
    ({ s with reception := track s.reception (.report now), lastRr := now },
      [⟨.report, (report s.reception.session now).1, s.ssrc⟩])
  else (s, [])

/-- mirrors shared/receiver/rtc/enhanced_rtcp_session.cpp:82 -/
def feedbackRemb (bitrate : UInt32) : ReceivingSession × List Sent :=
  if s.estimator ∧ now - s.lastRemb ≥ 1000 then
    ({ s with lastRemb := now }, [⟨.remb, remb s.reception.session bitrate, s.ssrc⟩])
  else (s, [])

/-- mirrors shared/receiver/rtc/twcc_receiver.cpp:31-35 -/
def pendingPacketCount (t : TwccReceiver) : Nat := if t.hasPending then pending t else 0

/-- mirrors shared/receiver/rtc/enhanced_rtcp_session.cpp:83-89 -/
def feedbackTwcc : ReceivingSession × List Sent :=
  if s.twccId ≠ 0 ∧ (now - s.lastTwcc ≥ 25 ∨ pendingPacketCount s.twcc ≥ 16) then
    let (twcc, bytes) := buildFeedbackPacket s.twcc 1 s.ssrc
    ({ s with twcc, lastTwcc := now }, if bytes = [] then [] else [⟨.twcc, bytes, s.ssrc⟩])
  else (s, [])

/-- mirrors shared/receiver/rtc/enhanced_rtcp_session.cpp:78-92 -/
def feedback (bitrate : UInt32) : ReceivingSession × List Sent :=
  if s.ssrc = 0 ∨ s.stopped then (s, [])
  else
    let (s, reports) := feedbackReport s now
    let (s, rembs) := feedbackRemb s now bitrate
    let (s, twccs) := feedbackTwcc s now
    (s, reports ++ rembs ++ twccs)

end Feedback

/-- A packet with the source's number at the end of its words.
mirrors shared/receiver/rtc/enhanced_rtcp_session.cpp:142 -/
def pli (ssrc : UInt32) : Bytes := header 12 206 1 ++ be32Bytes ssrc.toNat

/-- mirrors shared/receiver/rtc/enhanced_rtcp_session.cpp:143-144 -/
def fir (ssrc : UInt32) (firSequence : UInt8) : Bytes :=
  header 20 206 4 ++ ([0, 0, 0, 0] : Bytes) ++ be32Bytes ssrc.toNat ++ ([firSequence, 0, 0, 0] : Bytes)

/-- mirrors shared/receiver/rtc/enhanced_rtcp_session.cpp:139-145 -/
def keyframe (s : ReceivingSession) (now : Int) : ReceivingSession × List Sent :=
  if s.ssrc ≠ 0 ∧ (s.lastPli < 0 ∨ now - s.lastPli ≥ 50) then
    ({ s with lastPli := now, firSequence := s.firSequence + 1 },
      [⟨.pli, pli s.ssrc, s.ssrc⟩, ⟨.fir, fir s.ssrc s.firSequence, s.ssrc⟩])
  else (s, [])

inductive Call where
  | incoming (messages : List Message) (send : Bool) (bitrate : UInt32)
  | flushFeedback (bitrate : UInt32)
  | requestBitrate (bitrate : UInt32) (send : Bool)
  | requestKeyframe (send : Bool)
  | setBandwidthEstimator (given : Bool)
  | setTransportCcExtensionId (id : UInt8)
  | stop

/-- What the locked part of a call leaves: the session, the messages let
through, the packets made, and whether there is a callback for them. -/
structure Result where
  session : ReceivingSession
  output : List Message := []
  made : List Sent := []
  send : Bool := false

/-- mirrors shared/receiver/rtc/enhanced_rtcp_session.cpp:27-30,93-149 -/
def perform (s : ReceivingSession) (nowUs : Int) : Call → Result
  | .incoming messages send bitrate =>
    if s.stopped then { session := s }
    else
      let (s, output) := messages.foldl (message nowUs) ({ s with send }, [])
      let (s, made) := feedback s (nowUs.tdiv 1000) bitrate
      { session := s, output, made, send }
  | .flushFeedback bitrate =>
    if s.stopped then { session := s }
    else
      let (s', made) := feedback s (nowUs.tdiv 1000) bitrate
      { session := s', made, send := s.send }
  | .requestBitrate bitrate send =>
    if s.stopped then { session := s }
    else
      { session := { s with send }, send,
        made := if s.ssrc ≠ 0 then [⟨.bitrate, remb s.reception.session bitrate, s.ssrc⟩] else [] }
  | .requestKeyframe send =>
    if s.stopped then { session := s }
    else
      let (s, made) := keyframe { s with send } (nowUs.tdiv 1000)
      { session := s, made, send }
  | .setBandwidthEstimator given => { session := { s with estimator := given } }
  | .setTransportCcExtensionId id => { session := { s with twccId := id } }
  | .stop => { session := { s with stopped := true, send := false, estimator := false } }

/-! ## The session and its callers -/

structure State where
  session : ReceivingSession
  clockUs : Int
  /-- everything made so far, with the time in ms -/
  log : List (Int × Sent) := []
  /-- what the calls that are past their locked part have still to hand over -/
  leaving : List (List Sent) := []
  wire : List Sent := []

inductive Label where
  | call (nowUs : Int) (c : Call)
  | deliver (i : Nat)

/-- `made` is dropped where there is no callback. -/
def called (s : State) (nowUs : Int) (c : Call) : State :=
  let r := perform s.session nowUs c
  { s with
    session := r.session
    clockUs := nowUs
    log := s.log ++ r.made.map fun m => (nowUs.tdiv 1000, m)
    leaving := s.leaving ++ if r.send then [r.made] else [] }

def lts (clockRate : UInt32) (createdUs : Int) : LTS State Label where
  init s := s = { session := fresh clockRate createdUs, clockUs := createdUs }
  step s l s' := match l with
    | .call nowUs c => s.clockUs ≤ nowUs ∧ s' = called s nowUs c
    | .deliver i => ∃ m rest, s.leaving[i]? = some (m :: rest) ∧
        s' = { s with leaving := s.leaving.set i rest, wire := s.wire ++ [m] }

/-! ## The packets -/

def Kind.type : Kind → UInt8
  | .report => 201
  | .twcc => 205
  | .remb | .bitrate | .pli | .fir => 206

def Kind.count : Kind → UInt8
  | .report | .pli => 1
  | .remb | .bitrate | .twcc => 15
  | .fir => 4

/-- Where a packet names its source. -/
def Kind.at : Kind → Nat
  | .report | .twcc | .pli => 8
  | .remb | .bitrate => 20
  | .fir => 12

def word (b : Bytes) (i : Nat) : UInt32 := be32 (b.getD i 0) (b.getD (i + 1) 0) (b.getD (i + 2) 0) (b.getD (i + 3) 0)

/-- One packet of its kind to this code's own reader, from this receiver and
about the source. -/
structure Accepted (m : Sent) : Prop where
  parsed : parseRtcp m.bytes = some [⟨m.bytes, m.kind.type, m.kind.count⟩]
  sender : word m.bytes 4 = 1
  source : word m.bytes m.kind.at = m.ssrc
  known : m.ssrc ≠ 0

theorem be32_word (n : UInt32) : be32 (UInt8.ofNat (n.toNat >>> 24)) (UInt8.ofNat (n.toNat >>> 16))
    (UInt8.ofNat (n.toNat >>> 8)) (UInt8.ofNat n.toNat) = n :=
  UInt32.toNat_inj.mp (be32_be32Bytes n.toNat_lt rfl)

/-- A member without padding is a datagram of its own. -/
theorem parseRtcp_plain {m rest : Bytes} {b t w : UInt8} (hm : m = b :: t :: 0 :: w :: rest)
    (hlength : m.length = (w.toNat + 1) * 4) (hversion : b >>> 6 = 2) (hpadding : b &&& 32 = 0)
    (htype : 192 ≤ t ∧ t ≤ 223) (hminimum : rtcpMinimum t (b &&& 31) ≤ m.length) :
    parseRtcp m = some [⟨m, t, b &&& 31⟩] := by
  have h0 : m.getD 0 0 = b := by rw [hm]; rfl
  have h1 : m.getD 1 0 = t := by rw [hm]; rfl
  have hbody : body m = m := by
    unfold body padding
    rw [if_neg (by unfold padded; rw [h0]; exact not_not.mpr hpadding)]
    exact List.take_length
  have hmember : Member m :=
    { extent_eq := by
        rw [hlength, extent, be16_toNat, hm]
        simp
      version := by rw [h0]; exact hversion
      type := by rw [h1]; exact htype
      minimum := by rw [h0, h1, hbody]; exact hminimum }
  have hcompound : Compound [m] := ⟨by simp, by simpa using hmember, by simp⟩
  have hplain : ¬ padded m := by
    unfold padded
    rw [h0]
    exact not_not.mpr hpadding
  have hwords := w.toNat_lt
  refine (parseRtcp_iff m _).mpr ⟨by omega, [m], ⟨hcompound, ?_⟩, List.flatten_singleton, ?_⟩
  · simpa [WholeWords] using fun hp => absurd hp hplain
  · rw [List.map_singleton, packet, hbody, h0, h1]

section Accepted
variable {ssrc : UInt32} (hknown : ssrc ≠ 0)
include hknown

theorem report_accepted {t : Tracked} (h : t.session.ssrc = ssrc) (now : Int) :
    Accepted ⟨.report, (report t.session now).1, ssrc⟩ := by
  subst h
  exact ⟨parseRtcp_plain (b := 129) (t := 201) (w := 7) rfl rfl rfl rfl (by decide) (Nat.le_refl 32),
    be32_word 1, be32_word t.session.ssrc, hknown⟩

theorem remb_accepted {k : Kind} (hk : k = .remb ∨ k = .bitrate) {t : Tracked} (h : t.session.ssrc = ssrc)
    (bitrate : UInt32) : Accepted ⟨k, remb t.session bitrate, ssrc⟩ := by
  subst h
  have hparsed := parseRtcp_plain (m := remb t.session bitrate) (b := 143) (t := 206) (w := 5) rfl rfl rfl
    rfl (by decide) (show 12 ≤ 24 by decide)
  rcases hk with rfl | rfl <;> exact ⟨hparsed, be32_word 1, be32_word t.session.ssrc, hknown⟩

theorem pli_accepted : Accepted ⟨.pli, pli ssrc, ssrc⟩ :=
  ⟨parseRtcp_plain (b := 129) (t := 206) (w := 2) rfl rfl rfl rfl (by decide) (Nat.le_refl 12), be32_word 1,
    be32_word ssrc, hknown⟩

theorem fir_accepted (n : UInt8) : Accepted ⟨.fir, fir ssrc n, ssrc⟩ :=
  ⟨parseRtcp_plain (b := 132) (t := 206) (w := 4) rfl rfl rfl rfl (by decide) (show 12 ≤ 20 by decide),
    be32_word 1, be32_word ssrc, hknown⟩

theorem twcc_accepted {t t' : TwccReceiver} {bytes : Bytes} (hbuilt : buildFeedbackPacket t 1 ssrc = (t', bytes))
    (hne : bytes ≠ []) : Accepted ⟨.twcc, bytes, ssrc⟩ := by
  obtain ⟨-, -, -, hpacket, -⟩ := L2.Twcc.build_packet hbuilt hne
  have hlength : (L2.Twcc.statusesFrom none (L2.Twcc.times t)).length ≤ 512 := by
    rw [L2.Twcc.statusesFrom_length, L2.Twcc.times_length]
    exact L2.Twcc.count_le t
  obtain ⟨-, -, hparsed⟩ := L2.Twcc.feedbackPacket_rtcp 1 ssrc _ hlength _ _ hpacket
  refine ⟨hparsed, ?_, ?_, hknown⟩
  · rw [hpacket]
    exact be32_word 1
  · rw [hpacket]
    exact be32_word ssrc

end Accepted

/-! ## One call -/

def ofKind (k : Kind) (ms : List Sent) : List Sent := ms.filter fun m => m.kind = k

def keyframes (ms : List Sent) : List Sent := ms.filter fun m => m.kind = .pli ∨ m.kind = .fir

/-- How many packets a transport feedback covers, as it says itself. -/
def covered (m : Sent) : Nat := (be16 (m.bytes.getD 14 0) (m.bytes.getD 15 0)).toNat

/-- What a timer of `d` ms does in a call: its time after it, and the packets. -/
inductive Timer (d now last : Int) : Int → List Sent → Prop
  | idle : Timer d now last last []
  | fired (due : last + d ≤ now) (m : Sent) : Timer d now last now [m]

/-- The timer of the transport feedback restarts also where there is nothing to
report. -/
inductive TwccTimer (now last : Int) : Int → List Sent → Prop
  | idle : TwccTimer now last last []
  | empty : TwccTimer now last now []
  | fired (m : Sent) (due : last + 25 ≤ now ∨ 16 ≤ covered m) : TwccTimer now last now [m]

/-- A request for a key frame: both packets or none. -/
inductive KeyframeTimer (now last : Int) (n : UInt8) : Int → UInt8 → List Sent → Prop
  | idle : KeyframeTimer now last n last n []
  | fired (due : last < 0 ∨ last + 50 ≤ now) (ssrc : UInt32) :
      KeyframeTimer now last n now (n + 1) [⟨.pli, pli ssrc, ssrc⟩, ⟨.fir, fir ssrc n, ssrc⟩]

/-- All that a call does to the timers, and what it makes; `t` is the reception
its report is made on. -/
structure Effect (now : Int) (t : Tracked) (s s' : ReceivingSession) (made : List Sent) : Prop where
  accepted : ∀ m ∈ made, Accepted m ∧ m.ssrc = s'.ssrc
  sound : Sound s.reception → Sound s'.reception
  counted : Sound s.reception → Sound t
  reported : ∀ m ∈ made, m.kind = .report →
    s'.reception = track t (.report now) ∧ m.bytes = (report t.session now).1
  report : Timer 500 now s.lastRr s'.lastRr (ofKind .report made)
  remb : Timer 1000 now s.lastRemb s'.lastRemb (ofKind .remb made)
  twcc : TwccTimer now s.lastTwcc s'.lastTwcc (ofKind .twcc made)
  keyframe : KeyframeTimer now s.lastPli s.firSequence s'.lastPli s'.firSequence (keyframes made)

theorem ofKind_same {k : Kind} {ms : List Sent} (h : ∀ m ∈ ms, m.kind = k) : ofKind k ms = ms :=
  List.filter_eq_self.mpr fun m hm => decide_eq_true (h m hm)

theorem ofKind_other {j k : Kind} (hjk : j ≠ k) {ms : List Sent} (h : ∀ m ∈ ms, m.kind = j) : ofKind k ms = [] :=
  List.filter_eq_nil_iff.mpr fun m hm => by rw [h m hm, decide_eq_true_eq]; exact hjk

theorem keyframes_none {k : Kind} (hp : k ≠ .pli) (hf : k ≠ .fir) {ms : List Sent} (h : ∀ m ∈ ms, m.kind = k) :
    keyframes ms = [] :=
  List.filter_eq_nil_iff.mpr fun m hm => by rw [h m hm, decide_eq_true_eq, not_or]; exact ⟨hp, hf⟩

/-- What one of the three parts of `feedback` makes. -/
structure Part (k : Kind) (s : ReceivingSession) (made : List Sent) : Prop where
  kind : ∀ m ∈ made, m.kind = k
  accepted : s.ssrc ≠ 0 → ∀ m ∈ made, Accepted m ∧ m.ssrc = s.ssrc

theorem Part.nil (k : Kind) (s : ReceivingSession) : Part k s [] := ⟨nofun, fun _ => nofun⟩

theorem Part.one {k : Kind} {s : ReceivingSession} {bytes : Bytes}
    (h : s.ssrc ≠ 0 → Accepted ⟨k, bytes, s.ssrc⟩) : Part k s [⟨k, bytes, s.ssrc⟩] where
  kind m hm := by rw [List.mem_singleton.mp hm]
  accepted hknown m hm := by
    rw [List.mem_singleton.mp hm]
    exact ⟨h hknown, rfl⟩

section OneCall
variable (s : ReceivingSession) (now : Int)

theorem feedbackReport_effect : ∃ s' made, feedbackReport s now = (s', made) ∧ Part .report s made ∧
    Timer 500 now s.lastRr s'.lastRr made ∧ s'.ssrc = s.ssrc ∧
    s' = { s with reception := s'.reception, lastRr := s'.lastRr } ∧
    (made = [] ∧ s'.reception = s.reception ∨ s'.reception = track s.reception (.report now) ∧
      ∀ m ∈ made, m.bytes = (report s.reception.session now).1) := by
  unfold feedbackReport
  split
  · rename_i h
    have hdue := h.2
    exact ⟨_, _, rfl, .one fun hknown => report_accepted hknown rfl now, .fired (by omega) _, rfl, rfl,
      .inr ⟨rfl, fun m hm => by rw [List.mem_singleton.mp hm]⟩⟩
  · exact ⟨s, [], rfl, .nil .report s, .idle, rfl, rfl, .inl ⟨rfl, rfl⟩⟩

theorem feedbackRemb_effect (bitrate : UInt32) : ∃ s' made, feedbackRemb s now bitrate = (s', made) ∧
    Part .remb s made ∧ Timer 1000 now s.lastRemb s'.lastRemb made ∧ s' = { s with lastRemb := s'.lastRemb } := by
  unfold feedbackRemb
  split
  · rename_i h
    have hdue := h.2
    exact ⟨_, _, rfl, .one fun hknown => remb_accepted hknown (.inl rfl) rfl bitrate, .fired (by omega) _, rfl⟩
  · exact ⟨s, [], rfl, .nil .remb s, .idle, rfl⟩

theorem covered_built {t t' : TwccReceiver} {bytes : Bytes} {ssrc : UInt32}
    (hbuilt : buildFeedbackPacket t 1 ssrc = (t', bytes)) (hne : bytes ≠ []) (hmany : pendingPacketCount t ≥ 16) :
    16 ≤ covered ⟨.twcc, bytes, ssrc⟩ := by
  obtain ⟨-, hpending, -, hpacket, -⟩ := L2.Twcc.build_packet hbuilt hne
  have hcount := L2.Twcc.count_le t
  have hlength : (L2.Twcc.statusesFrom none (L2.Twcc.times t)).length = L2.Twcc.packetStatusCount t := by
    rw [L2.Twcc.statusesFrom_length, L2.Twcc.times_length]
  have hcovered : covered ⟨.twcc, bytes, ssrc⟩ = L2.Twcc.packetStatusCount t := by
    rw [hpacket, ← hlength]
    exact be16_be16Bytes (by omega)
  rw [hcovered, L2.Twcc.packetStatusCount]
  rw [pendingPacketCount, if_pos hpending] at hmany
  omega

theorem feedbackTwcc_effect : ∃ s' made, feedbackTwcc s now = (s', made) ∧ Part .twcc s made ∧
    TwccTimer now s.lastTwcc s'.lastTwcc made ∧ s' = { s with twcc := s'.twcc, lastTwcc := s'.lastTwcc } := by
  unfold feedbackTwcc
  split
  · rename_i h
    obtain ⟨twcc, bytes, hbuilt⟩ : ∃ twcc bytes, buildFeedbackPacket s.twcc 1 s.ssrc = (twcc, bytes) :=
      ⟨_, _, rfl⟩
    refine ⟨{ s with twcc, lastTwcc := now }, _, by rw [hbuilt], ?_, ?_, rfl⟩
    · split
      · exact .nil .twcc s
      · rename_i hne
        exact .one fun hknown => twcc_accepted hknown hbuilt hne
    · split
      · exact .empty
      · rename_i hne
        refine .fired _ ?_
        rcases h.2 with hlate | hmany
        · exact .inl (by omega)
        · exact .inr (covered_built hbuilt hne hmany)
  · exact ⟨s, [], rfl, .nil .twcc s, .idle, rfl⟩

theorem feedback_effect (bitrate : UInt32) :
    Effect now s.reception s (feedback s now bitrate).1 (feedback s now bitrate).2 ∧
      (feedback s now bitrate).1.ssrc = s.ssrc := by
  unfold feedback
  split
  · exact ⟨⟨nofun, id, id, nofun, .idle, .idle, .idle, .idle⟩, rfl⟩
  rename_i h
  have hknown : s.ssrc ≠ 0 := (not_or.mp h).1
  obtain ⟨s1, reports, h1, hp1, ht1, hs1, he1, hr1⟩ := feedbackReport_effect s now
  obtain ⟨s2, rembs, h2, hp2, ht2, he2⟩ := feedbackRemb_effect s1 now bitrate
  obtain ⟨s3, twccs, h3, hp3, ht3, he3⟩ := feedbackTwcc_effect s2 now
  simp only [h1, h2, h3]
  have hs2 : s2.ssrc = s.ssrc := by rw [he2]; exact hs1
  have hs3 : s3.ssrc = s.ssrc := by rw [he3]; exact hs2
  have hrr : s3.lastRr = s1.lastRr := by rw [he3, he2]
  have hremb : s1.lastRemb = s.lastRemb := by rw [he1]
  have hremb' : s3.lastRemb = s2.lastRemb := by rw [he3]
  have htwcc : s2.lastTwcc = s.lastTwcc := by rw [he2, he1]
  have hpli : s3.lastPli = s.lastPli ∧ s3.firSequence = s.firSequence := by rw [he3, he2, he1]; exact ⟨rfl, rfl⟩
  have hreception : s3.reception = s1.reception := by rw [he3, he2]
  refine ⟨⟨?_, ?_, id, ?_, ?_, ?_, ?_, ?_⟩, hs3⟩
  · intro m hm
    rw [hs3]
    rcases List.mem_append.mp hm with hm | hm
    · rcases List.mem_append.mp hm with hm | hm
      · exact hp1.accepted hknown m hm
      · exact hs1 ▸ hp2.accepted (hs1.symm ▸ hknown) m hm
    · exact hs2 ▸ hp3.accepted (hs2.symm ▸ hknown) m hm
  · intro hsound
    rw [hreception]
    rcases hr1 with ⟨-, hr1⟩ | ⟨hr1, -⟩
    · exact hr1 ▸ hsound
    · exact hr1 ▸ L2.RtcpReception.sound_track hsound (.report now)
  · intro m hm hk
    have hm : m ∈ reports := by
      rcases List.mem_append.mp hm with hm | hm
      · rcases List.mem_append.mp hm with hm | hm
        · exact hm
        · exact absurd (hp2.kind m hm) (by rw [hk]; decide)
      · exact absurd (hp3.kind m hm) (by rw [hk]; decide)
    rcases hr1 with ⟨hnone, -⟩ | ⟨hr1, hbytes⟩
    · exact absurd hm (by rw [hnone]; exact List.not_mem_nil)
    · exact ⟨hreception.trans hr1, hbytes m hm⟩
  · rw [ofKind, List.filter_append, List.filter_append]
    rw [show reports.filter _ = reports from ofKind_same hp1.kind,
      show rembs.filter _ = [] from ofKind_other (by decide) hp2.kind,
      show twccs.filter _ = [] from ofKind_other (by decide) hp3.kind, List.append_nil, List.append_nil, hrr]
    exact ht1
  · rw [ofKind, List.filter_append, List.filter_append]
    rw [show reports.filter _ = [] from ofKind_other (by decide) hp1.kind,
      show rembs.filter _ = rembs from ofKind_same hp2.kind,
      show twccs.filter _ = [] from ofKind_other (by decide) hp3.kind, List.append_nil, List.nil_append, hremb',
      ← hremb]
    exact ht2
  · rw [ofKind, List.filter_append, List.filter_append]
    rw [show reports.filter _ = [] from ofKind_other (by decide) hp1.kind,
      show rembs.filter _ = [] from ofKind_other (by decide) hp2.kind,
      show twccs.filter _ = twccs from ofKind_same hp3.kind, List.nil_append, List.nil_append, ← htwcc]
    exact ht3
  · rw [keyframes, List.filter_append, List.filter_append]
    rw [show reports.filter _ = [] from keyframes_none (by decide) (by decide) hp1.kind,
      show rembs.filter _ = [] from keyframes_none (by decide) (by decide) hp2.kind,
      show twccs.filter _ = [] from keyframes_none (by decide) (by decide) hp3.kind, hpli.1, hpli.2]
    exact .idle

end OneCall

/-! ## What arrives -/

/-- The sources a message tells of. -/
def Message.sources : Message → List UInt32
  | .binary bytes => ((parseRtp bytes).map (·.ssrc)).toList
  | .control bytes => ((parseRtcp bytes).getD []).filterMap fun part =>
      if part.type = 200 then (reportSource part).toOption else none
  | .other _ => []

def Call.sources : Call → List UInt32
  | .incoming messages _ _ => messages.flatMap Message.sources
  | _ => []

open L2.RtcpReception (arrive controlPart record resetSource sound_track) in
theorem record_ssrc (s : L2.RtcpReception.Session) (p : RtpPacket) (now : Int) :
    (record (arrive s p.ssrc) p.sequence p.timestamp now).ssrc = p.ssrc := by
  have harrive : (arrive s p.ssrc).ssrc = p.ssrc := by
    unfold arrive
    split
    · rfl
    · exact not_not.mp ‹_›
  rw [L2.RtcpReception.record_eq]
  cases L2.RtcpReception.extended (arrive s p.ssrc) p.sequence with
  | none => exact harrive
  | some e =>
    change (L2.RtcpReception.counted _ _ _ _).ssrc = _
    unfold L2.RtcpReception.counted
    split <;> exact harrive

open L2.RtcpReception (controlPart) in
theorem controlPart_ssrc (now : Int) (s : L2.RtcpReception.Session) (part : RtcpPacket) :
    (controlPart now s part).ssrc = s.ssrc ∨
      part.type = 200 ∧ reportSource part = .ok (controlPart now s part).ssrc := by
  unfold controlPart
  split
  · rename_i htype
    split
    · rename_i hsource _
      split
      · exact .inl rfl
      · exact .inr ⟨htype, hsource⟩
    · exact .inl rfl
  · exact .inl rfl

open L2.RtcpReception (controlPart) in
theorem control_ssrc (now : Int) : ∀ (parts : List RtcpPacket) (s : L2.RtcpReception.Session),
    (parts.foldl (controlPart now) s).ssrc = s.ssrc ∨ (parts.foldl (controlPart now) s).ssrc ∈
      parts.filterMap fun part => if part.type = 200 then (reportSource part).toOption else none
  | [], _ => .inl rfl
  | part :: parts, s => by
    rw [List.foldl_cons]
    rcases control_ssrc now parts (controlPart now s part) with h | h
    · rw [h]
      rcases controlPart_ssrc now s part with h | ⟨htype, hsource⟩
      · exact .inl h
      · refine .inr (List.mem_filterMap.mpr ⟨part, List.mem_cons_self .., ?_⟩)
        rw [if_pos htype, hsource]
        rfl
    · obtain ⟨p, hp, hs⟩ := List.mem_filterMap.mp h
      exact .inr (List.mem_filterMap.mpr ⟨p, List.mem_cons_of_mem part hp, hs⟩)

/-- Messages touch the reception and the transport feedback, and nothing else. -/
structure Received (s s' : ReceivingSession) (sources : List UInt32) : Prop where
  frame : ∃ reception twcc, s' = { s with reception, twcc }
  source : s'.ssrc = s.ssrc ∨ s'.ssrc ∈ sources
  sound : Sound s.reception → Sound s'.reception

theorem message_received (nowUs : Int) (s : ReceivingSession) (output : List Message) (m : Message) :
    Received s (message nowUs (s, output) m).1 m.sources := by
  unfold message
  cases m with
  | binary bytes =>
    dsimp only
    cases hparse : parseRtp bytes with
    | none => exact ⟨⟨_, _, rfl⟩, .inl rfl, id⟩
    | some rtp =>
      refine ⟨⟨_, _, rfl⟩, .inr ?_, fun h => L2.RtcpReception.sound_track h _⟩
      rw [Message.sources, hparse]
      exact List.mem_singleton.mpr (record_ssrc s.reception.session rtp nowUs)
  | control bytes =>
    dsimp only
    cases hparse : parseRtcp bytes with
    | none => exact ⟨⟨_, _, rfl⟩, .inl rfl, id⟩
    | some compound =>
      refine ⟨⟨_, _, rfl⟩, ?_, fun h => L2.RtcpReception.sound_track h _⟩
      rw [Message.sources, hparse]
      exact control_ssrc nowUs compound s.reception.session
  | other _ => exact ⟨⟨_, _, rfl⟩, .inl rfl, id⟩

theorem messages_received (nowUs : Int) : ∀ (messages : List Message) (s : ReceivingSession) (output : List Message),
    Received s (messages.foldl (message nowUs) (s, output)).1 (messages.flatMap Message.sources)
  | [], _, _ => ⟨⟨_, _, rfl⟩, .inl rfl, id⟩
  | m :: messages, s, output => by
    obtain ⟨s1, output1, h1⟩ : ∃ s1 output1, message nowUs (s, output) m = (s1, output1) := ⟨_, _, rfl⟩
    have hone := message_received nowUs s output m
    have hrest := messages_received nowUs messages s1 output1
    rw [List.foldl_cons, h1, List.flatMap_cons]
    rw [h1] at hone
    obtain ⟨_, _, hframe⟩ := hone.frame
    obtain ⟨reception, twcc, hframe'⟩ := hrest.frame
    refine ⟨⟨reception, twcc, by rw [hframe', show s1 = _ from hframe]⟩, ?_, hrest.sound ∘ hone.sound⟩
    rcases hrest.source with h | h
    · rw [h]
      exact hone.source.imp_right (List.mem_append_left _)
    · exact .inr (List.mem_append_right _ h)

/-! ## A call as a whole -/

/-- The reception when the messages of a call have been looked at, of a call
that may make a report. -/
def counted (s : ReceivingSession) (nowUs : Int) : Call → Tracked
  | .incoming messages send _ =>
    if s.stopped then s.reception else (messages.foldl (message nowUs) ({ s with send }, [])).1.reception
  | _ => s.reception

theorem Effect.of_received {now : Int} {t : Tracked} {s s0 s1 : ReceivingSession} {made : List Sent}
    {sources : List UInt32} (hr : Received s s0 sources) (h : Effect now t s0 s1 made) : Effect now t s s1 made := by
  obtain ⟨reception, twcc, rfl⟩ := hr.frame
  exact ⟨h.accepted, h.sound ∘ hr.sound, h.counted ∘ hr.sound, h.reported, h.report, h.remb, h.twcc, h.keyframe⟩

theorem Effect.quiet {now : Int} {s s' : ReceivingSession}
    (h : ∃ estimator twccId send stopped, s' = { s with estimator, twccId, send, stopped }) :
    Effect now s.reception s s' [] := by
  obtain ⟨_, _, _, _, rfl⟩ := h
  exact ⟨nofun, id, id, nofun, .idle, .idle, .idle, .idle⟩

theorem keyframe_effect (s : ReceivingSession) (now : Int) :
    Effect now s.reception s (keyframe s now).1 (keyframe s now).2 ∧ (keyframe s now).1.ssrc = s.ssrc := by
  unfold keyframe
  split
  · rename_i h
    refine ⟨⟨?_, id, id, ?_, .idle, .idle, .idle, .fired ?_ _⟩, rfl⟩
    · intro m hm
      rcases List.mem_cons.mp hm with rfl | hm
      · exact ⟨pli_accepted h.1, rfl⟩
      · rw [List.mem_singleton.mp hm]
        exact ⟨fir_accepted h.1 s.firSequence, rfl⟩
    · intro m hm hk
      rcases List.mem_cons.mp hm with rfl | hm
      · cases hk
      · rw [List.mem_singleton.mp hm] at hk
        cases hk
    · exact h.2.imp_right fun hdue => by omega
  · exact ⟨⟨nofun, id, id, nofun, .idle, .idle, .idle, .idle⟩, rfl⟩

/-- **What a call does.** -/
theorem perform_effect (s : ReceivingSession) (nowUs : Int) (c : Call) :
    Effect (nowUs.tdiv 1000) (counted s nowUs c) s (perform s nowUs c).session (perform s nowUs c).made ∧
      ((perform s nowUs c).session.ssrc = s.ssrc ∨ (perform s nowUs c).session.ssrc ∈ c.sources) := by
  cases c with
  | incoming messages send bitrate =>
    unfold perform counted
    dsimp only
    split
    · exact ⟨.quiet ⟨_, _, _, _, rfl⟩, .inl rfl⟩
    have hr := messages_received nowUs messages { s with send } []
    have he := feedback_effect (messages.foldl (message nowUs) ({ s with send }, [])).1 (nowUs.tdiv 1000) bitrate
    refine ⟨?_, he.2 ▸ hr.source⟩
    have heffect := Effect.of_received hr he.1
    exact ⟨heffect.accepted, heffect.sound, heffect.counted, heffect.reported, heffect.report, heffect.remb, heffect.twcc,
      heffect.keyframe⟩
  | flushFeedback bitrate =>
    unfold perform
    dsimp only
    split
    · exact ⟨.quiet ⟨_, _, _, _, rfl⟩, .inl rfl⟩
    · exact (feedback_effect s (nowUs.tdiv 1000) bitrate).imp_right .inl
  | requestBitrate bitrate send =>
    unfold perform
    dsimp only
    split
    · exact ⟨.quiet ⟨_, _, _, _, rfl⟩, .inl rfl⟩
    dsimp only
    split
    · rename_i hknown
      refine ⟨⟨?_, id, id, ?_, .idle, .idle, .idle, .idle⟩, .inl rfl⟩
      · intro m hm
        rw [List.mem_singleton.mp hm]
        exact ⟨remb_accepted hknown (.inr rfl) rfl bitrate, rfl⟩
      · intro m hm hk
        rw [List.mem_singleton.mp hm] at hk
        cases hk
    · exact ⟨.quiet ⟨_, _, _, _, rfl⟩, .inl rfl⟩
  | requestKeyframe send =>
    unfold perform
    dsimp only
    split
    · exact ⟨.quiet ⟨_, _, _, _, rfl⟩, .inl rfl⟩
    have h := keyframe_effect { s with send } (nowUs.tdiv 1000)
    exact ⟨⟨h.1.accepted, h.1.sound, h.1.counted, h.1.reported, h.1.report, h.1.remb, h.1.twcc, h.1.keyframe⟩, .inl h.2⟩
  | setBandwidthEstimator given => exact ⟨.quiet ⟨_, _, _, _, rfl⟩, .inl rfl⟩
  | setTransportCcExtensionId id => exact ⟨.quiet ⟨_, _, _, _, rfl⟩, .inl rfl⟩
  | stop => exact ⟨.quiet ⟨_, _, _, _, rfl⟩, .inl rfl⟩

/-- After `Stop` nothing is made, whatever is called. -/
theorem perform_stopped {s : ReceivingSession} (h : s.stopped = true) (nowUs : Int) (c : Call) :
    (perform s nowUs c).made = [] ∧ (perform s nowUs c).output = [] ∧ (perform s nowUs c).session.stopped = true := by
  cases c with
  | incoming | flushFeedback | requestBitrate | requestKeyframe =>
    unfold perform
    dsimp only
    rw [if_pos h]
    exact ⟨rfl, rfl, h⟩
  | setBandwidthEstimator | setTransportCcExtensionId => exact ⟨rfl, rfl, h⟩
  | stop => exact ⟨rfl, rfl, rfl⟩

end KmVirtualCamera.L4.RtcpSession
