import Mathlib
import KmVirtualCamera.Core.LTS
import KmVirtualCamera.L4App.RtpRecovery

/-!
# Paths and keyframe requests, over a run of the engine

The flags of the engine are read off its trace, the calls and what each has the
handlers told: `dataChannelVideo_` is that the DataChannel has delivered since
the last close, `lastKeyframeRequestNs_` is when a keyframe was asked for last.
`Inv` says so, and each piece of a call keeps it (`Live`).

* `arbitration`: what holds of every run whose times do not go back.
-/
namespace KmVirtualCamera.L4.PathArbitration
open KmVirtualCamera.L1.H264 (Bytes)
open KmVirtualCamera.L2
open KmVirtualCamera.L2.VideoQueue (configuredIdr)
open KmVirtualCamera.L4.ReceiverEngine
open KmVirtualCamera.L4.RtpRecovery (Call next after)

/-! ## The trace -/

def timeOf : Call → Option UInt64
  | .processRtpVideoPacket _ arrivalNs => some arrivalNs
  | .processDataChannelPacket _ arrivalNs => some arrivalNs
  | .onTimer nowNs => some nowNs
  | .requestKeyframe nowNs => some nowNs
  | _ => none

/-- What the handlers are told in a call. -/
def outputs (g : Engine) : Call → List Output
  | .processRtpVideoPacket data arrivalNs => (processRtpVideoPacket g data arrivalNs).2
  | .processDataChannelPacket data arrivalNs => (processDataChannelPacket g data arrivalNs).2
  | .onTimer nowNs => (onTimer g nowNs).2
  | .requestKeyframe nowNs => (requestKeyframe g nowNs).2
  | _ => []

inductive Event where
  | call (c : Call)
  /-- at the time of the call -/
  | output (atNs : UInt64) (o : Output)

def events (g : Engine) (c : Call) : List Event :=
  .call c :: (outputs g c).map (.output ((timeOf c).getD 0))

def trace (cs : List Call) : List Event := collect next events {} cs

/-- The DataChannel delivers a frame. -/
def DcFrame (ev : Event) : Prop :=
  ∃ t f, ev = .output t (.frame f) ∧ f.timestampDomain = .senderMicroseconds

def Closed (ev : Event) : Prop := ev = .call .onDataChannelVideoClosed ∨ ev = .call .reset

/-- Requests go to the DataChannel from here on. -/
def Claims (ev : Event) : Prop := DcFrame ev ∨ ev = .call .onVideoDataChannelOpened

def Reset (ev : Event) : Prop := ev = .call .reset

def Request (t : UInt64) (ev : Event) : Prop := ∃ c, ev = .output t (.keyframeRequest c)

def Event.isFrame : Event → Bool
  | .output _ (.frame _) => true
  | _ => false

def frames (log : List Event) : Nat := log.countP Event.isFrame

theorem frames_snoc (log : List Event) (ev : Event) :
    frames (log ++ [ev]) = frames log + if ev.isFrame then 1 else 0 := by
  simp [frames, List.countP_append, List.countP_cons]

/-! ## What the engine remembers -/

/-- The part of the engine that decides paths and requests. -/
structure View where
  dataChannelVideo : Bool
  videoDcOpen : Bool
  lastKeyframeRequestNs : Int
  delivered : UInt64

def view (g : Engine) : View :=
  ⟨g.dataChannelVideo, g.videoDcOpen, g.lastKeyframeRequestNs, g.stats.rtpFrames + g.stats.dataChannelFrames⟩

/-- No RTP frame after a DataChannel frame; requests 50 ms apart, each to the
channel that is up. -/
structure Good (log : List Event) : Prop where
  oneDomain : EachAfter (fun pre ev => ∀ t f, ev = .output t (.frame f) → f.timestampDomain = .rtp90kHz →
    ¬ Since DcFrame Closed pre) log
  spaced : EachAfter (fun pre ev => ∀ t, Request t ev → ∀ t', Since (Request t') Reset pre →
    t'.toNat + 50000000 ≤ t.toNat) log
  routed : EachAfter (fun pre ev => ∀ t c, ev = .output t (.keyframeRequest c) →
    (c = .dataChannel ↔ Since Claims Closed pre)) log

structure Inv (now : UInt64) (v : View) (log : List Event) : Prop extends Good log where
  path : v.dataChannelVideo = true ↔ Since DcFrame Closed log
  claims : (v.dataChannelVideo || v.videoDcOpen) = true ↔ Since Claims Closed log
  last : (v.lastKeyframeRequestNs = -1 ∧ ∀ t, ¬ Since (Request t) Reset log) ∨
    ∃ t, v.lastKeyframeRequestNs = t.toNat ∧ Since (Request t) Reset log ∧
      ∀ t', Since (Request t') Reset log → t'.toNat ≤ t.toNat
  early : ∀ t, Since (Request t) Reset log → t.toNat ≤ now.toNat
  delivered : v.delivered = UInt64.ofNat (frames log)

variable {now : UInt64} {v : View} {log : List Event}

theorem Inv.later {now' : UInt64} (h : Inv now v log) (hle : now.toNat ≤ now'.toNat) : Inv now' v log :=
  { h with early := fun t ht => (h.early t ht).trans hle }

/-- An entry that has no part in it. -/
structure Inert (ev : Event) : Prop where
  claims : ¬ Claims ev
  closed : ¬ Closed ev
  request : ∀ t, ¬ Request t ev
  frame : ev.isFrame = false

theorem Inert.reset {ev : Event} (h : Inert ev) : ¬ Reset ev := fun hr => h.closed (.inr hr)

theorem Inv.inert {ev : Event} (h : Inv now v log) (hev : Inert ev) : Inv now v (log ++ [ev]) where
  oneDomain := h.oneDomain.snoc fun t f heq => by
    have hframe := hev.frame
    rw [heq] at hframe
    cases hframe
  spaced := h.spaced.snoc fun t ht => absurd ht (hev.request t)
  routed := h.routed.snoc fun t c heq => absurd ⟨c, heq⟩ (hev.request t)
  path := by rw [since_skip (fun hd => hev.claims (.inl hd)) hev.closed]; exact h.path
  claims := by rw [since_skip hev.claims hev.closed]; exact h.claims
  last := by simpa only [since_skip (hev.request _) hev.reset] using h.last
  early := by simpa only [since_skip (hev.request _) hev.reset] using h.early
  delivered := by rw [frames_snoc, hev.frame]; exact h.delivered

theorem not_closed_output (t : UInt64) (o : Output) : ¬ Closed (.output t o) := by
  rintro (h | h) <;> cases h

theorem not_reset_output (t : UInt64) (o : Output) : ¬ Reset (.output t o) := fun h => by cases h

theorem request_output {t t' : UInt64} {o : Output} :
    Request t (.output t' o) ↔ t = t' ∧ ∃ c, o = .keyframeRequest c := by
  constructor
  · rintro ⟨c, h⟩
    cases h
    exact ⟨rfl, c, rfl⟩
  · rintro ⟨rfl, c, rfl⟩
    exact ⟨c, rfl⟩

theorem not_request_frame (t t' : UInt64) (f : EncodedVideoFrame) : ¬ Request t (.output t' (.frame f)) := by
  rw [request_output]
  rintro ⟨-, c, h⟩
  cases h

theorem dcFrame_output {t : UInt64} {f : EncodedVideoFrame} :
    DcFrame (.output t (.frame f)) ↔ f.timestampDomain = .senderMicroseconds := by
  constructor
  · rintro ⟨t', f', h, hf⟩
    cases h
    exact hf
  · exact fun hf => ⟨t, f, rfl, hf⟩

theorem claims_output {t : UInt64} {o : Output} : Claims (.output t o) ↔ DcFrame (.output t o) := by
  constructor
  · rintro (h | h)
    · exact h
    · cases h
  · exact .inl

/-- A frame, on the path that is active with it. -/
theorem Inv.frame (h : Inv now v log) {f : EncodedVideoFrame} (domain : f.timestampDomain = .senderMicroseconds ∨
    f.timestampDomain = .rtp90kHz ∧ v.dataChannelVideo = false) :
    Inv now { v with
      dataChannelVideo := v.dataChannelVideo || f.timestampDomain == .senderMicroseconds
      delivered := v.delivered + 1 } (log ++ [.output now (.frame f)]) where
  oneDomain := h.oneDomain.snoc fun t f' heq hrtp hsince => by
    cases heq
    rcases domain with hdc | ⟨-, hpath⟩
    · rw [hdc] at hrtp
      cases hrtp
    · rw [h.path.mpr hsince] at hpath
      cases hpath
  spaced := h.spaced.snoc fun t ht => absurd ht (not_request_frame t _ _)
  routed := h.routed.snoc fun t c heq => by cases heq
  path := by
    rw [since_snoc, ← h.path, dcFrame_output]
    simp [not_closed_output, or_comm]
  claims := by
    rw [since_snoc, ← h.claims, claims_output, dcFrame_output]
    simp [not_closed_output, or_comm, or_left_comm]
  last := by simpa only [since_skip (not_request_frame _ _ _) (not_reset_output _ _)] using h.last
  early := by simpa only [since_skip (not_request_frame _ _ _) (not_reset_output _ _)] using h.early
  delivered := by
    rw [frames_snoc, h.delivered]
    exact (UInt64.ofNat_add _ _).symm

/-- A request that the throttle lets through. -/
theorem Inv.request (h : Inv now v log)
    (hlate : v.lastKeyframeRequestNs = -1 ∨ v.lastKeyframeRequestNs + 50000000 ≤ now.toNat) :
    Inv now { v with lastKeyframeRequestNs := now.toNat } (log ++
      [.output now (.keyframeRequest (if v.dataChannelVideo || v.videoDcOpen then .dataChannel else .rtcp))]) where
  oneDomain := h.oneDomain.snoc fun t f heq => by cases heq
  spaced := h.spaced.snoc fun t ht t' hsince => by
    obtain ⟨rfl, -⟩ := request_output.mp ht
    rcases h.last with ⟨-, hnone⟩ | ⟨t₀, hlast, -, hmax⟩
    · exact absurd hsince (hnone t')
    · have hle := hmax t' hsince
      omega
  routed := h.routed.snoc fun t c heq => by
    cases heq
    rw [← h.claims]
    split <;> simp_all
  path := by
    rw [since_skip (fun ⟨_, _, hd, _⟩ => by cases hd) (not_closed_output _ _)]
    exact h.path
  claims := by
    rw [since_skip (fun hc => by obtain ⟨_, _, hd, _⟩ := claims_output.mp hc; cases hd) (not_closed_output _ _)]
    exact h.claims
  last := by
    refine .inr ⟨now, rfl, since_snoc.mpr (.inl ⟨_, rfl⟩), ?_⟩
    intro t' ht'
    rcases since_snoc.mp ht' with hr | ⟨hr, -⟩
    · rw [(request_output.mp hr).1]
    · exact h.early t' hr
  early t ht := by
    rcases since_snoc.mp ht with hr | ⟨hr, -⟩
    · rw [(request_output.mp hr).1]
    · exact h.early t hr
  delivered := by
    rw [frames_snoc]
    exact h.delivered

theorem not_dcFrame_call (c : Call) : ¬ DcFrame (.call c) := fun ⟨_, _, h, _⟩ => by cases h

theorem not_request_call (t : UInt64) (c : Call) : ¬ Request t (.call c) := fun ⟨_, h⟩ => by cases h

/-- What a call does to the path before anything is delivered. -/
def called (v : View) : Call → View
  | .onDataChannelVideoClosed => { v with dataChannelVideo := false, videoDcOpen := false }
  | .reset => { v with dataChannelVideo := false, videoDcOpen := false, lastKeyframeRequestNs := -1 }
  | .onVideoDataChannelOpened => { v with videoDcOpen := true }
  | _ => v

theorem inert_call {c : Call} (hc : c ≠ .onDataChannelVideoClosed ∧ c ≠ .reset ∧ c ≠ .onVideoDataChannelOpened) :
    Inert (.call c) where
  claims := by
    rintro (h | h)
    · exact not_dcFrame_call c h
    · exact hc.2.2 (Event.call.inj h)
  closed := by
    rintro (h | h)
    · exact hc.1 (Event.call.inj h)
    · exact hc.2.1 (Event.call.inj h)
  request t := not_request_call t c
  frame := rfl

theorem Inv.call (h : Inv now v log) (c : Call) : Inv now (called v c) (log ++ [.call c]) := by
  have hgood : Good (log ++ [.call c]) :=
    ⟨h.oneDomain.snoc fun t f heq => (by cases heq), h.spaced.snoc fun t ht => absurd ht (not_request_call t c),
      h.routed.snoc fun t c' heq => by cases heq⟩
  have hframes : frames (log ++ [.call c]) = frames log := frames_snoc log (.call c)
  cases c with
  | onDataChannelVideoClosed =>
    have hclosed : Closed (.call .onDataChannelVideoClosed) := .inl rfl
    have hkept : ¬ Reset (.call .onDataChannelVideoClosed) := fun hr => by cases hr
    refine ⟨hgood, ?_, ?_, ?_, ?_, h.delivered.trans (by rw [hframes])⟩
    · simp [called, since_snoc, not_dcFrame_call, hclosed]
    · simp [called, since_snoc, Claims, not_dcFrame_call, hclosed]
    · simpa only [called, since_skip (not_request_call _ _) hkept] using h.last
    · simpa only [since_skip (not_request_call _ _) hkept] using h.early
  | reset =>
    have hclosed : Closed (.call .reset) := .inr rfl
    have hreset : Reset (.call .reset) := rfl
    refine ⟨hgood, ?_, ?_, .inl ⟨rfl, ?_⟩, ?_, h.delivered.trans (by rw [hframes])⟩
    · simp [called, since_snoc, not_dcFrame_call, hclosed]
    · simp [called, since_snoc, Claims, not_dcFrame_call, hclosed]
    · simp [since_snoc, not_request_call, hreset]
    · simp [since_snoc, not_request_call, hreset]
  | onVideoDataChannelOpened =>
    have hopen : ¬ Closed (.call .onVideoDataChannelOpened) := by rintro (hc | hc) <;> cases hc
    have hkept : ¬ Reset (.call .onVideoDataChannelOpened) := fun hr => by cases hr
    refine ⟨hgood, ?_, ?_, ?_, ?_, h.delivered.trans (by rw [hframes])⟩
    · rw [since_skip (not_dcFrame_call _) hopen]
      exact h.path
    · simp [called, since_snoc, Claims]
    · simpa only [called, since_skip (not_request_call _ _) hkept] using h.last
    · simpa only [since_skip (not_request_call _ _) hkept] using h.early
  | _ => exact h.inert (inert_call (by simp))

/-! ## Inside a call -/

/-- Inside a call at `now` that began behind `log`, with `needKeyframe_` as `need`. -/
structure Live (now : UInt64) (need : Bool) (log : List Event) (a : Act) : Prop where
  inv : Inv now (view a.1) (log ++ a.2.map (.output now))
  /-- `needKeyframe_` goes with a configured IDR -/
  idr : need = true → a.1.needKeyframe = false → ∃ f, .frame f ∈ a.2 ∧ configuredIdr f.annexB = true

variable {need : Bool} {a : Act}

theorem int64_toNat (h : now.toNat < 2 ^ 63) : int64 now = now.toNat := by
  have hsmall : 2 * now.toBitVec.toNat < 2 ^ 64 := by
    have htoNat : now.toBitVec.toNat = now.toNat := rfl
    omega
  show now.toInt64.toBitVec.toInt = _
  rw [UInt64.toBitVec_toInt64, BitVec.toInt_eq_toNat_of_lt hsmall]
  rfl

/-- Something is told that is neither a frame nor a request. -/
theorem Live.tell (h : Live now need log a) {o : Output} (hframe : ∀ f, o ≠ .frame f)
    (hrequest : ∀ c, o ≠ .keyframeRequest c) {g : Engine} (hview : view g = view a.1)
    (hneed : g.needKeyframe = true ∨ g.needKeyframe = a.1.needKeyframe) : Live now need log (g, a.2 ++ [o]) where
  inv := by
    have hdc : ¬ DcFrame (.output now o) := fun ⟨_, f, heq, _⟩ => hframe f (Event.output.inj heq).2
    have hinert : Inert (.output now o) := by
      refine ⟨fun hc => hdc (claims_output.mp hc), not_closed_output now o, ?_, ?_⟩
      · intro t ht
        obtain ⟨-, c, hc⟩ := request_output.mp ht
        exact hrequest c hc
      · cases o with
        | frame f => exact absurd rfl (hframe f)
        | _ => rfl
    rw [hview, List.map_append, ← List.append_assoc]
    exact h.inv.inert hinert
  idr hn hf := by
    rcases hneed with ht | hsame
    · rw [ht] at hf
      cases hf
    · obtain ⟨f, hmem, hidr⟩ := h.idr hn (hsame ▸ hf)
      exact ⟨f, List.mem_append_left _ hmem, hidr⟩

theorem dispatch_live (h : Live now need log a) (hrange : now.toNat < 2 ^ 63) :
    Live now need log (tryDispatchKeyframeRequest now a) ∧
      ∃ t, Since (Request t) Reset (log ++ (tryDispatchKeyframeRequest now a).2.map (.output now)) ∧
        now.toNat < t.toNat + 50000000 := by
  unfold tryDispatchKeyframeRequest
  dsimp only
  rw [int64_toNat hrange]
  split
  · next hrecent =>
    refine ⟨h, ?_⟩
    rcases h.inv.last with ⟨hnone, -⟩ | ⟨t, hlast, hsince, -⟩
    · have hneg : a.1.lastKeyframeRequestNs = -1 := hnone
      omega
    · have hval : a.1.lastKeyframeRequestNs = t.toNat := hlast
      refine ⟨t, hsince, ?_⟩
      have hthrottle : kKeyframeThrottleNs = 50000000 := rfl
      omega
  · next hlate =>
    have hout : ∀ o : Output, log ++ (a.2 ++ [o]).map (.output now) =
        log ++ a.2.map (.output now) ++ [.output now o] := by
      intro o
      rw [List.map_append, ← List.append_assoc]
      rfl
    refine ⟨⟨?_, ?_⟩, now, ?_, by omega⟩
    · rw [hout]
      refine h.inv.request ?_
      have hthrottle : kKeyframeThrottleNs = 50000000 := rfl
      rcases h.inv.last with ⟨hnone, -⟩ | ⟨t, hlast, -, -⟩
      · exact .inl hnone
      · have hval : a.1.lastKeyframeRequestNs = t.toNat := hlast
        right
        rw [hlast]
        omega
    · intro hn hf
      obtain ⟨f, hmem, hidr⟩ := h.idr hn hf
      exact ⟨f, List.mem_append_left _ hmem, hidr⟩
    · rw [hout]
      exact since_snoc.mpr (.inl ⟨_, rfl⟩)

/-- What `emitFrame` does, but for the time stamps. -/
structure Emits (data : Bytes) (domain : TimestampDomain) (a a' : Act) (f : EncodedVideoFrame) : Prop where
  out : a'.2 = a.2 ++ [.frame f]
  annexB : f.annexB = data
  timestampDomain : f.timestampDomain = domain
  view : view a'.1 = { view a.1 with delivered := (view a.1).delivered + 1 }
  arrival : a'.1.currentArrivalNs = a.1.currentArrivalNs
  need : a'.1.needKeyframe = true ↔ a.1.needKeyframe = true ∧ configuredIdr data = false

theorem emitFrame_emits (data : Bytes) (ticks : Int) (domain : TimestampDomain) (fromDataChannel : Bool) (a : Act) :
    ∃ f, Emits data domain a (emitFrame data ticks domain fromDataChannel a) f := by
  unfold emitFrame
  cases hidr : configuredIdr data <;> cases fromDataChannel
  all_goals refine ⟨_, ⟨rfl, rfl, rfl, ?_, rfl, by simp [hidr]⟩⟩
  all_goals simp [PathArbitration.view, add_assoc, add_comm, add_left_comm]

/-- A frame is handed over: the DataChannel takes the path with it. -/
theorem Live.frame (h : Live now need log a) {data : Bytes} {domain : TimestampDomain} {f : EncodedVideoFrame}
    {a₁ a₂ : Act} (he : Emits data domain a₁ a₂ f) (hout : a₁.2 = a.2)
    (hdomain : domain = .senderMicroseconds ∨ domain = .rtp90kHz ∧ a.1.dataChannelVideo = false)
    (hview : view a₁.1 = { view a.1 with
      dataChannelVideo := a.1.dataChannelVideo || domain == .senderMicroseconds })
    (hneed : a₁.1.needKeyframe = a.1.needKeyframe) :
    Live now need log a₂ where
  inv := by
    have hinv := h.inv.frame (f := f) (by rw [he.timestampDomain]; exact hdomain)
    rw [he.view, hview, he.out, hout, List.map_append, ← List.append_assoc]
    rw [he.timestampDomain] at hinv
    exact hinv
  idr hn hf := by
    rw [he.out, hout]
    cases hidr : configuredIdr data with
    | true => exact ⟨f, by simp, by rw [he.annexB]; exact hidr⟩
    | false =>
      have hbefore : a.1.needKeyframe = false := by
        rw [← hneed]
        exact Bool.eq_false_iff.mpr fun ht => by simp [he.need.mpr ⟨ht, hidr⟩] at hf
      obtain ⟨f', hmem, hidr'⟩ := h.idr hn hbefore
      exact ⟨f', List.mem_append_left _ hmem, hidr'⟩

theorem dispatch_arrival (nowNs : UInt64) (a : Act) :
    (tryDispatchKeyframeRequest nowNs a).1.currentArrivalNs = a.1.currentArrivalNs := by
  unfold tryDispatchKeyframeRequest
  dsimp only
  split <;> rfl

theorem onDcFrame_live (h : Live now need log a) (e : DcVideo.Emission) :
    Live now need log (onDcFrame a e) := by
  obtain ⟨f, he⟩ := emitFrame_emits e.out.data (unwrap a.1.dcUnwrapper e.out.timestamp).2 .senderMicroseconds true
    ({ a.1 with dataChannelVideo := true, dcUnwrapper := (unwrap a.1.dcUnwrapper e.out.timestamp).1 }, a.2)
  exact h.frame he rfl (.inl rfl) (by simp [view]) rfl

theorem onDcControl_live (h : Live now need log a) (c : DcVideo.Control) :
    Live now need log (onDcControl a c) :=
  h.tell (fun f heq => by cases heq) (fun _ heq => by cases heq) rfl (.inr rfl)

theorem onDcBatch_live (h : Live now need log a) (b : DcVideo.Batch) :
    Live now need log (onDcBatch a b) := by
  have hcontrols : ∀ (cs : List DcVideo.Control) {a : Act}, Live now need log a →
      Live now need log (cs.foldl onDcControl a) := by
    intro cs
    induction cs with
    | nil => exact fun h => h
    | cons c cs ih => exact fun h => ih (onDcControl_live h c)
  have hframes : ∀ (es : List DcVideo.Emission) {a : Act}, Live now need log a →
      Live now need log (es.foldl onDcFrame a) := by
    intro es
    induction es with
    | nil => exact fun h => h
    | cons e es ih => exact fun h => ih (onDcFrame_live h e)
  exact hframes b.frames (hcontrols b.controls h)

theorem onRtpEvent_live (h : Live now need log a) (harrival : a.1.currentArrivalNs = now)
    (hrange : now.toNat < 2 ^ 63) (x : RtpVideo.Event) :
    Live now need log (onRtpEvent a x) ∧ (onRtpEvent a x).1.currentArrivalNs = now := by
  cases x with
  | emit e =>
    obtain ⟨f, he⟩ := emitFrame_emits e.data (unwrap a.1.rtpUnwrapper e.timestamp).2 .rtp90kHz false
      ({ a.1 with rtpUnwrapper := (unwrap a.1.rtpUnwrapper e.timestamp).1 }, a.2)
    unfold onRtpEvent
    dsimp only
    split
    · exact ⟨h, harrival⟩
    · next hdc =>
      exact ⟨h.frame he rfl (.inr ⟨rfl, by simpa using hdc⟩) (by simp [view]) rfl, he.arrival.trans harrival⟩
  | keyframe =>
    subst harrival
    have htold : Live a.1.currentArrivalNs need log ({ a.1 with
        stats.recoverySignals := a.1.stats.recoverySignals + 1, needKeyframe := true },
        a.2 ++ [.loss a.1.currentArrivalNs]) :=
      h.tell (fun f heq => by cases heq) (fun _ heq => by cases heq) rfl (.inl rfl)
    exact ⟨(dispatch_live htold hrange).1, dispatch_arrival _ _⟩
  | _ => exact ⟨h, harrival⟩

theorem replay_live {g : Engine} {c : RtpVideo.Depacketizer × RtpVideo.Log}
    (h : Live now need log ({ g with rtpDepacketizer := c.1 }, [])) (harrival : g.currentArrivalNs = now)
    (hrange : now.toNat < 2 ^ 63) : Live now need log (replay g c) := by
  have hevents : ∀ (l : RtpVideo.Log) {a : Act}, Live now need log a → a.1.currentArrivalNs = now →
      Live now need log (l.foldl onRtpEvent a) := by
    intro l
    induction l with
    | nil => exact fun h _ => h
    | cons x l ih =>
      intro a h harrival
      obtain ⟨hlive, hsame⟩ := onRtpEvent_live h harrival hrange x
      exact ih hlive hsame
  exact hevents c.2 h harrival

/-! ## The calls -/

/-- A call begins: the engine is the same but for counters and depacketizers. -/
structure Begun (g g' : Engine) : Prop where
  path : view g' = view g
  need : g'.needKeyframe = g.needKeyframe

theorem Begun.live {g g' : Engine} (hg : Begun g g') (h : Inv now (view g) log) :
    Live now g.needKeyframe log (g', []) where
  inv := by
    rw [hg.path, List.map_nil, List.append_nil]
    exact h
  idr hn hf := by
    rw [hg.need, hn] at hf
    cases hf

theorem enter_begun (g : Engine) (ssrc : UInt32) (d : RtpVideo.Depacketizer) :
    Begun g { enter g ssrc now with rtpDepacketizer := d } ∧ (enter g ssrc now).currentArrivalNs = now := by
  unfold enter
  dsimp only
  split
  · exact ⟨⟨rfl, rfl⟩, rfl⟩
  · exact ⟨⟨rfl, rfl⟩, rfl⟩

/-- A datagram is dropped and counted, or the depacketizer has it. -/
theorem processRtpVideoPacket_cases (g : Engine) (data : Bytes) :
    (∃ g', processRtpVideoPacket g data now = (g', []) ∧ Begun g g' ∧
      g'.stats.rtpPacketsDropped = g.stats.rtpPacketsDropped + 1) ∨
    g.dataChannelVideo = false ∧ ∃ ssrc c, processRtpVideoPacket g data now = replay (enter g ssrc now) c := by
  cases hp : L1.RtpWire.parseRtp data with
  | none =>
    unfold processRtpVideoPacket
    rw [hp]
    exact .inl ⟨_, rfl, ⟨rfl, rfl⟩, rfl⟩
  | some p =>
    by_cases htype : p.payloadType ∈ g.payloadTypes
    · cases hdc : g.dataChannelVideo with
      | false => exact .inr ⟨rfl, p.ssrc, _, process_media hp htype hdc now⟩
      | true =>
        left
        unfold processRtpVideoPacket
        rw [hp]
        simp only [htype, not_true_eq_false, if_false]
        split
        · simp only [hdc]
          exact ⟨_, rfl, ⟨by simp [view, hdc], rfl⟩, rfl⟩
        · simp only [hdc]
          exact ⟨_, rfl, ⟨by simp [view, hdc], rfl⟩, rfl⟩
    · left
      unfold processRtpVideoPacket
      rw [hp]
      simp only [htype, not_false_eq_true, if_true]
      exact ⟨_, rfl, ⟨rfl, rfl⟩, rfl⟩

theorem processRtpVideoPacket_live {g : Engine} (h : Inv now (view g) log) (hrange : now.toNat < 2 ^ 63)
    (data : Bytes) : Live now g.needKeyframe log (processRtpVideoPacket g data now) := by
  rcases processRtpVideoPacket_cases g data with ⟨g', heq, hbegun, -⟩ | ⟨-, ssrc, c, heq⟩
  · rw [heq]
    exact hbegun.live h
  · obtain ⟨hbegun, harrival⟩ := enter_begun g ssrc c.1
    rw [heq]
    exact replay_live (hbegun.live h) harrival hrange

theorem processDataChannelPacket_live {g : Engine} (h : Inv now (view g) log) (data : Bytes) :
    Live now g.needKeyframe log (processDataChannelPacket g data now) := by
  unfold processDataChannelPacket
  dsimp only
  refine onDcBatch_live (Begun.live ?_ h) _
  exact ⟨rfl, rfl⟩

theorem onTimer_live {g : Engine} (h : Inv now (view g) log) (hrange : now.toNat < 2 ^ 63) :
    Live now g.needKeyframe log (onTimer g now) ∧ ((onTimer g now).1.needKeyframe = true →
      ∃ t, Since (Request t) Reset (log ++ (onTimer g now).2.map (.output now)) ∧
        now.toNat < t.toNat + 50000000) := by
  unfold onTimer
  dsimp only
  set batch := DcVideo.onTimerTickAt g.dcDepacketizer (micros now)
  have hbatch : Live now g.needKeyframe log
      (onDcBatch ({ g with currentArrivalNs := now, dcDepacketizer := batch.1 }, []) batch.2) := by
    refine onDcBatch_live (Begun.live ?_ h) _
    exact ⟨rfl, rfl⟩
  split
  · obtain ⟨hlive, hrecent⟩ := dispatch_live hbatch hrange
    exact ⟨hlive, fun _ => hrecent⟩
  · next hquiet => exact ⟨hbatch, fun hneed => absurd hneed hquiet⟩

theorem requestKeyframe_live {g : Engine} (h : Inv now (view g) log) (hrange : now.toNat < 2 ^ 63) :
    Live now g.needKeyframe log (requestKeyframe g now) := by
  have hbegun : Live now g.needKeyframe log ({ g with needKeyframe := true }, []) :=
    ⟨(Begun.live (⟨rfl, rfl⟩ : Begun g g) h).inv, fun _ hf => by cases hf⟩
  exact (dispatch_live hbegun hrange).1

/-- The times of a run do not go back, and are below 2^63 ns. -/
structure Timely (cs : List Call) : Prop where
  sorted : (cs.filterMap timeOf).Pairwise (· ≤ ·)
  range : ∀ t ∈ cs.filterMap timeOf, t.toNat < 2 ^ 63

theorem called_view (g : Engine) {c : Call} (hc : timeOf c = none) : view (next g c) = called (view g) c := by
  cases c with
  | processRtpVideoPacket | processDataChannelPacket | onTimer | requestKeyframe => cases hc
  | _ => rfl

theorem outputs_untimed (g : Engine) {c : Call} (hc : timeOf c = none) : outputs g c = [] := by
  cases c with
  | processRtpVideoPacket | processDataChannelPacket | onTimer | requestKeyframe => cases hc
  | _ => rfl

/-- A call with a time, from its entry in the trace on. -/
theorem timed_live {g : Engine} {c : Call} (hc : timeOf c = some now) (h : Inv now (view g) log)
    (hrange : now.toNat < 2 ^ 63) :
    Live now g.needKeyframe (log ++ [.call c]) (next g c, outputs g c) := by
  have hbegun := h.call c
  cases c with
  | processRtpVideoPacket data arrivalNs =>
    cases hc
    exact processRtpVideoPacket_live hbegun hrange data
  | processDataChannelPacket data arrivalNs =>
    cases hc
    exact processDataChannelPacket_live hbegun data
  | onTimer nowNs =>
    cases hc
    exact (onTimer_live hbegun hrange).1
  | requestKeyframe nowNs =>
    cases hc
    exact requestKeyframe_live hbegun hrange
  | _ => cases hc

theorem trace_snoc (cs : List Call) (c : Call) : trace (cs ++ [c]) =
    trace cs ++ [.call c] ++ (outputs (after cs) c).map (.output ((timeOf c).getD 0)) := by
  unfold trace
  rw [collect_snoc, List.append_assoc]
  rfl

theorem after_snoc (cs : List Call) (c : Call) : after (cs ++ [c]) = next (after cs) c := by
  simp [after]

theorem inv_start : Inv 0 (view {}) [] where
  oneDomain := eachAfter_nil _
  spaced := eachAfter_nil _
  routed := eachAfter_nil _
  path := by simp [view, not_since_nil]
  claims := by simp [view, not_since_nil]
  last := .inl ⟨rfl, fun _ => not_since_nil _ _⟩
  early _ ht := absurd ht (not_since_nil _ _)
  delivered := rfl

theorem Timely.left {cs post : List Call} (h : Timely (cs ++ post)) : Timely cs := by
  have hsorted := h.sorted
  have hrange := h.range
  rw [List.filterMap_append] at hsorted hrange
  exact ⟨(List.pairwise_append.mp hsorted).1, fun t ht => hrange t (List.mem_append_left _ ht)⟩

/-- The time of a call is after the times before it. -/
theorem Timely.last {cs : List Call} {c : Call} (h : Timely (cs ++ [c])) {t : UInt64} (hc : timeOf c = some t) :
    t.toNat < 2 ^ 63 ∧ ∀ t' ∈ cs.filterMap timeOf, t'.toNat ≤ t.toNat := by
  have hsorted := h.sorted
  have hrange := h.range
  have hone : [c].filterMap timeOf = [t] := by simp [hc]
  rw [List.filterMap_append, hone] at hsorted hrange
  exact ⟨hrange t (by simp), fun t' ht' =>
    UInt64.le_iff_toNat_le.mp ((List.pairwise_append.mp hsorted).2.2 t' ht' t (by simp))⟩

/-- By induction on the calls. -/
theorem inv_run (cs : List Call) (h : Timely cs) :
    ∃ now, Inv now (view (after cs)) (trace cs) ∧ (now = 0 ∨ now ∈ cs.filterMap timeOf) := by
  induction cs using List.reverseRecOn with
  | nil => exact ⟨0, inv_start, .inl rfl⟩
  | append_singleton cs c ih =>
    obtain ⟨now, hinv, hnow⟩ := ih h.left
    rw [after_snoc, trace_snoc]
    cases hc : timeOf c with
    | none =>
      refine ⟨now, ?_, hnow.imp_right fun hmem => by simp [hmem]⟩
      rw [called_view _ hc, outputs_untimed _ hc, List.map_nil, List.append_nil]
      exact hinv.call c
    | some t =>
      obtain ⟨hrange, hlast⟩ := h.last hc
      have hle : now.toNat ≤ t.toNat := by
        rcases hnow with rfl | hmem
        · exact Nat.zero_le _
        · exact hlast now hmem
      exact ⟨t, (timed_live hc (hinv.later hle) hrange).inv, .inr (by simp [hc])⟩

/-! ## What holds of a run -/

structure Arbitrated (cs : List Call) : Prop extends Good (trace cs) where
  /-- while the DataChannel has the path, a datagram is counted as dropped -/
  dropped : EachAfter (fun pre c => ∀ data t, c = .processRtpVideoPacket data t → Since DcFrame Closed (trace pre) →
    (next (after pre) c).stats.rtpPacketsDropped = (after pre).stats.rtpPacketsDropped + 1) cs
  /-- after a timer that needs a keyframe, one was asked for in the last 50 ms -/
  timer : EachAfter (fun pre c => ∀ t, c = .onTimer t → (next (after pre) c).needKeyframe = true →
    ∃ t', Since (Request t') Reset (trace (pre ++ [c])) ∧ t'.toNat ≤ t.toNat ∧ t.toNat < t'.toNat + 50000000) cs
  need : EachAfter (fun pre c => (after pre).needKeyframe = true → (next (after pre) c).needKeyframe = false →
    ∃ f, .frame f ∈ outputs (after pre) c ∧ configuredIdr f.annexB = true) cs
  delivered : (after cs).stats.rtpFrames + (after cs).stats.dataChannelFrames = UInt64.ofNat (frames (trace cs))

/-- The state before a call, brought to the time of the call. -/
theorem inv_before {pre : List Call} {c : Call} (h : Timely (pre ++ [c])) {t : UInt64} (hc : timeOf c = some t) :
    Inv t (view (after pre)) (trace pre) ∧ t.toNat < 2 ^ 63 := by
  obtain ⟨now, hinv, hnow⟩ := inv_run pre h.left
  obtain ⟨hrange, hlast⟩ := h.last hc
  refine ⟨hinv.later ?_, hrange⟩
  rcases hnow with rfl | hmem
  · exact Nat.zero_le _
  · exact hlast now hmem

/-- **Arbitration**, of every run of calls. -/
theorem arbitration (cs : List Call) (h : Timely cs) : Arbitrated cs := by
  have hbefores : ∀ {pre c post}, cs = pre ++ c :: post → Timely (pre ++ [c]) := by
    intro pre c post heq
    have hsplit : cs = (pre ++ [c]) ++ post := by rw [heq, List.append_assoc, List.singleton_append]
    exact Timely.left (hsplit ▸ h)
  obtain ⟨now, hinv, -⟩ := inv_run cs h
  refine ⟨hinv.toGood, ?_, ?_, ?_, hinv.delivered⟩
  · intro pre c post heq data t hc hsince
    obtain ⟨hbefore, -⟩ := inv_before (hbefores heq) (t := t) (by rw [hc]; rfl)
    subst hc
    have hcases := @processRtpVideoPacket_cases t (after pre) data
    rcases hcases with ⟨g', hrun, -, hdropped⟩ | ⟨hdc, -⟩
    · show (processRtpVideoPacket (after pre) data t).1.stats.rtpPacketsDropped = _
      rw [hrun]
      exact hdropped
    · have hpath : (after pre).dataChannelVideo = true := hbefore.path.mpr hsince
      rw [hdc] at hpath
      cases hpath
  · intro pre c post heq t hc hneed
    obtain ⟨hbefore, hrange⟩ := inv_before (hbefores heq) (t := t) (by rw [hc]; rfl)
    subst hc
    have hcall := hbefore.call (.onTimer t)
    obtain ⟨t', hsince, hrecent⟩ := (onTimer_live hcall hrange).2 hneed
    have hafter := (timed_live rfl hbefore hrange).inv.early t' hsince
    rw [trace_snoc]
    exact ⟨t', hsince, hafter, hrecent⟩
  · intro pre c post heq hneed hquiet
    cases hc : timeOf c with
    | none =>
      have hkept : (next (after pre) c).needKeyframe = true := by
        cases c with
        | processRtpVideoPacket | processDataChannelPacket | onTimer | requestKeyframe => cases hc
        | onDataChannelVideoClosed | reset => rfl
        | _ => exact hneed
      rw [hkept] at hquiet
      cases hquiet
    | some t =>
      obtain ⟨hbefore, hrange⟩ := inv_before (hbefores heq) hc
      exact (timed_live hc hbefore hrange).idr hneed hquiet

/-- A key frame on the RTP path, another source, and a DataChannel that opens. -/
def switching : List Call :=
  RtpRecovery.newSource ++ [.requestKeyframe 1000, .onVideoDataChannelOpened, .onTimer 60000000]

theorem arbitration_switching : Timely switching ∧ Arbitrated switching := by
  have htimes : switching.filterMap timeOf = [0, 0, 0, 0, 1000, 60000000] := rfl
  have htimely : Timely switching := ⟨by rw [htimes]; decide, by rw [htimes]; simp⟩
  exact ⟨htimely, arbitration switching htimely⟩

end KmVirtualCamera.L4.PathArbitration
