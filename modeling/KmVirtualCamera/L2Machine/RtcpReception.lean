import Mathlib
import KmVirtualCamera.Core.Checked
import KmVirtualCamera.Core.SeenRing
import KmVirtualCamera.L1Encoding.RtcpCompound

/-!
# Reception statistics (`EnhancedRtcpReceivingSession`)

`record` counts an RTP packet under its extended sequence number, once, and
`report` writes the receiver report; another SSRC starts from nothing
(`resetSource`). The counters are `uint64_t`, and the functions are written over
what a difference of unsigned numbers is: `machine` wraps, `checked` faults
where it would, and `strict` faults also at the difference of two timestamps,
which wraps by design.

The jitter is a `double`; no result is about it. `History` is what happened
since the last reset: the numbers accepted, and what the last report counted.
-/
namespace KmVirtualCamera.L2.RtcpReception
open KmVirtualCamera.ByteOrder KmVirtualCamera.L1.RtpWire KmVirtualCamera.L1.RtcpCompound
open KmVirtualCamera.SeenRing

/-- What a difference is. -/
structure Differences (m : Type → Type) where
  wide : UInt64 → UInt64 → m UInt64
  narrow : UInt32 → UInt32 → m UInt32

def machine : Differences Id := ⟨fun a b => a - b, fun a b => a - b⟩

def checked : Differences Checked := ⟨csub64, fun a b => .ok (a - b)⟩

def strict : Differences Checked := ⟨csub64, fun a b => if b ≤ a then .ok (a - b) else .error .underflow⟩

/-- mirrors shared/receiver/rtc/enhanced_rtcp_session.h:33-40 -/
structure Session where
  started : Bool := false
  ssrc : UInt32 := 0
  lastTimestamp : UInt32 := 0
  clockRate : UInt32 := 90000
  base : UInt64 := 0
  highest : UInt64 := 0
  received : UInt64 := 0
  previousExpected : UInt64 := 0
  previousReceived : UInt64 := 0
  seen : Fin 2048 → UInt64 := fun _ => 18446744073709551615
  lastArrivalUs : Int := 0
  jitter : Float := 0
  srNtp : UInt64 := 0
  srArrivalMs : Int := -1

/-- mirrors shared/receiver/rtc/enhanced_rtcp_session.cpp:31-35 -/
def resetSource (s : Session) (ssrc : UInt32) : Session :=
  { ssrc, lastTimestamp := s.lastTimestamp, clockRate := s.clockRate, lastArrivalUs := s.lastArrivalUs }

section Source
variable {m : Type → Type} [Monad m] (d : Differences m) (s : Session)

/-- What `a` has above `b`, which the source writes three times. -/
def excessM (a b : UInt64) : m UInt64 := if a > b then d.wide a b else pure 0

/-- The number nearest to the highest that a sequence number stands for.
mirrors shared/receiver/rtc/enhanced_rtcp_session.cpp:40-42 -/
def candidateM (seq : UInt16) : m (Option UInt64) := do
  let delta := sequenceDelta seq s.highest.toUInt16
  if delta < 0 ∧ UInt64.ofNat (-delta).toNat > s.highest then return none
  else if 0 ≤ delta then return some (s.highest + UInt64.ofNat delta.toNat)
  else return some (← d.wide s.highest (UInt64.ofNat (-delta).toNat))

/-- mirrors shared/receiver/rtc/enhanced_rtcp_session.cpp:43-44 -/
def orderM (extended : UInt64) : m (Option UInt64) :=
  if extended < s.base then return none
  else do
    let behind ← excessM d s.highest extended
    if behind ≥ 2048 ∨ s.seen (slot 2048 extended.toNat) = extended then return none
    else return some extended

/-- The extended number a packet is counted under, if it is.
mirrors shared/receiver/rtc/enhanced_rtcp_session.cpp:37-44 -/
def extendedM (seq : UInt16) : m (Option UInt64) :=
  if s.started then do
    match ← candidateM d s seq with
    | none => return none
    | some extended => orderM d s extended
  else return some seq.toUInt64

/-- mirrors shared/receiver/rtc/enhanced_rtcp_session.cpp:47-49 -/
def smoothed (raw : UInt32) (arrival : Int) : Float :=
  let timestampDelta : Int := if raw ≤ 2147483647 then raw.toNat else raw.toNat - 4294967296
  let transit := Float.ofInt (arrival - s.lastArrivalUs) * s.clockRate.toNat.toFloat / 1000000 -
    Float.ofInt timestampDelta
  s.jitter + (transit.abs - s.jitter) / 16

/-- mirrors shared/receiver/rtc/enhanced_rtcp_session.cpp:36-53 -/
def recordM (seq : UInt16) (ts : UInt32) (arrival : Int) : m Session := do
  match ← extendedM d s seq with
  | none => return s
  | some extended =>
    let seen := Function.update s.seen (slot 2048 extended.toNat) extended
    if s.started then
      let raw ← d.narrow ts s.lastTimestamp
      return { s with
        highest := max s.highest extended
        jitter := smoothed s raw arrival
        seen, received := s.received + 1, lastTimestamp := ts, lastArrivalUs := arrival }
    else
      return { s with
        base := extended, highest := extended, started := true
        seen, received := s.received + 1, lastTimestamp := ts, lastArrivalUs := arrival }

/-- The fraction byte of an interval.
mirrors shared/receiver/rtc/enhanced_rtcp_session.cpp:62 -/
def fractionLost (intervalExpected intervalLost : UInt64) : UInt8 :=
  if intervalExpected ≠ 0 then (min 255 (intervalLost * 256 / intervalExpected)).toUInt8 else 0

/-- mirrors shared/receiver/rtc/enhanced_rtcp_session.cpp:54-70 -/
def reportM (now : Int) : m (Bytes × Session) := do
  let expected := (← d.wide s.highest s.base) + 1
  let intervalExpected ← d.wide expected s.previousExpected
  let intervalReceived ← d.wide s.received s.previousReceived
  let lost ← excessM d expected s.received
  let intervalLost ← excessM d intervalExpected intervalReceived
  let clamped := (min 8388607 lost).toUInt32
  let delay := if 0 ≤ s.srArrivalMs ∧ s.srArrivalMs ≤ now then
    UInt64.ofInt (now - s.srArrivalMs) * 65536 / 1000 else 0
  let jitter := (min (max s.jitter 0) 4294967295).toUInt32
  return (([129, 201, 0, 7] : Bytes) ++ be32Bytes 1 ++ be32Bytes s.ssrc.toNat ++
    [fractionLost intervalExpected intervalLost] ++ (be32Bytes clamped.toNat).drop 1 ++
    be32Bytes s.highest.toUInt32.toNat ++ be32Bytes jitter.toNat ++ be32Bytes (s.srNtp >>> 16).toUInt32.toNat ++
    be32Bytes (min 4294967295 delay).toUInt32.toNat,
    { s with previousExpected := expected, previousReceived := s.received })

end Source

/-! What the machine does -/

def excess (a b : UInt64) : UInt64 := excessM machine a b

def candidate (s : Session) (seq : UInt16) : Option UInt64 := candidateM machine s seq

def order (s : Session) (e : UInt64) : Option UInt64 := orderM machine s e

def extended (s : Session) (seq : UInt16) : Option UInt64 := extendedM machine s seq

def record (s : Session) (seq : UInt16) (ts : UInt32) (arrival : Int) : Session :=
  recordM machine s seq ts arrival

def report (s : Session) (now : Int) : Bytes × Session := reportM machine s now

/-- mirrors shared/receiver/rtc/enhanced_rtcp_session.cpp:102 -/
def arrive (s : Session) (ssrc : UInt32) : Session := if s.ssrc ≠ ssrc then resetSource s ssrc else s

/-- The reads of an accepted report do not fault.
mirrors shared/receiver/rtc/enhanced_rtcp_session.cpp:113-117 -/
def controlPart (now : Int) (s : Session) (part : RtcpPacket) : Session :=
  if part.type = 200 then
    match reportSource part, reportNtp part with
    | .ok source, .ok ntp =>
      if s.ssrc ≠ 0 ∧ s.ssrc ≠ source then s
      else { s with ssrc := source, srNtp := ntp, srArrivalMs := now.tdiv 1000 }
    | _, _ => s
  else s

/-- What the session is called for. -/
inductive Event where
  /-- a message `parseRtp` accepts -/
  | packet (p : RtpPacket) (now : Int)
  /-- a message `parseRtcp` accepts -/
  | control (parts : List RtcpPacket) (now : Int)
  | report (now : Int)

/-- mirrors shared/receiver/rtc/enhanced_rtcp_session.cpp:97-120 -/
def next (s : Session) : Event → Session
  | .packet p now => record (arrive s p.ssrc) p.sequence p.timestamp now
  | .control parts now => parts.foldl (controlPart now) s
  | .report now => (report s now).2

/-! ## What happened since the last reset -/

structure History where
  accepted : List UInt64 := []
  /-- what the last report counted as expected and as received -/
  expected : Nat := 0
  received : Nat := 0

/-- All numbers from the first to the highest. -/
def spanned (s : Session) : Nat := s.highest.toNat - s.base.toNat + 1

structure Tracked where
  session : Session := {}
  history : History := {}

def Resets (s : Session) : Event → Prop
  | .packet p _ => s.ssrc ≠ p.ssrc
  | _ => False

instance (s : Session) : DecidablePred (Resets s) := fun e =>
  match e with
  | .packet p _ => inferInstanceAs (Decidable (s.ssrc ≠ p.ssrc))
  | .control _ _ | .report _ => inferInstanceAs (Decidable False)

def remember (s : Session) (h : History) : Event → History
  | .packet p _ =>
    let h := if s.ssrc ≠ p.ssrc then {} else h
    { h with accepted := h.accepted ++ (extended (arrive s p.ssrc) p.sequence).toList }
  | .control _ _ => h
  | .report _ => { h with expected := spanned s, received := h.accepted.length }

def track (t : Tracked) (e : Event) : Tracked := ⟨next t.session e, remember t.session t.history e⟩

def after (es : List Event) : Tracked := es.foldl track {}

/-! ## One packet -/

section Extended
variable {s : Session} {seq : UInt16}

theorem toNat_max (a b : UInt64) : (max a b).toNat = max a.toNat b.toNat := by
  change (if a ≤ b then b else a).toNat = _
  split
  · rename_i h
    exact (Nat.max_eq_right (UInt64.le_iff_toNat_le.mp h)).symm
  · rename_i h
    exact (Nat.max_eq_left (UInt64.le_iff_toNat_le.mp (UInt64.le_of_lt (UInt64.not_le.mp h)))).symm

theorem excess_eq (a b : UInt64) : excess a b = if a > b then a - b else 0 := rfl

theorem candidate_eq : candidate s seq =
    if sequenceDelta seq s.highest.toUInt16 < 0 ∧
        UInt64.ofNat (-sequenceDelta seq s.highest.toUInt16).toNat > s.highest then none
    else if 0 ≤ sequenceDelta seq s.highest.toUInt16 then
      some (s.highest + UInt64.ofNat (sequenceDelta seq s.highest.toUInt16).toNat)
    else some (s.highest - UInt64.ofNat (-sequenceDelta seq s.highest.toUInt16).toNat) := rfl

theorem ordered_eq (e : UInt64) : order s e = if e < s.base then none
    else if excess s.highest e ≥ 2048 ∨ s.seen (slot 2048 e.toNat) = e then none else some e := rfl

theorem extended_eq : extended s seq =
    if s.started then (candidate s seq).bind (order s) else some seq.toUInt64 := by
  unfold extended extendedM
  split
  · change (match candidate s seq with | none => none | some e => order s e) = _
    cases candidate s seq <;> rfl
  · rfl

theorem excess_toNat (a b : UInt64) : (excess a b).toNat = a.toNat - b.toNat := by
  rw [excess_eq]
  split
  · rename_i h
    exact UInt64.toNat_sub_of_le a b (UInt64.le_of_lt h)
  · rename_i h
    have := UInt64.le_iff_toNat_le.mp (UInt64.not_lt.mp h)
    change 0 = _
    omega

theorem excess_checked (a b : UInt64) : excessM checked a b = .ok (excess a b) := by
  rw [excess_eq]
  unfold excessM
  split
  · rename_i h
    exact csub64_ok (UInt64.le_of_lt h)
  · rfl

theorem ordered_some {e e' : UInt64} (h : order s e = some e') :
    e' = e ∧ s.base ≤ e ∧ s.highest.toNat < e.toNat + 2048 ∧ s.seen (slot 2048 e.toNat) ≠ e := by
  rw [ordered_eq] at h
  split at h
  · cases h
  rename_i hbase
  split at h
  · cases h
  rename_i hfar
  rw [not_or, ge_iff_le, UInt64.le_iff_toNat_le, excess_toNat] at hfar
  have hnear : ¬ 2048 ≤ s.highest.toNat - e.toNat := hfar.1
  exact ⟨(Option.some.inj h).symm, UInt64.not_lt.mp hbase, by omega, hfar.2⟩

/-- What an accepted number has been checked for. -/
theorem extended_some (hs : s.started = true) {e : UInt64} (h : extended s seq = some e) :
    s.base ≤ e ∧ s.highest.toNat < e.toNat + 2048 ∧ s.seen (slot 2048 e.toNat) ≠ e := by
  rw [extended_eq, if_pos hs, Option.bind_eq_some_iff] at h
  obtain ⟨e', -, h⟩ := h
  obtain ⟨rfl, h⟩ := ordered_some h
  exact h

theorem candidate_checked : candidateM checked s seq = .ok (candidate s seq) := by
  rw [candidate_eq]
  unfold candidateM
  simp only
  split
  · rfl
  rename_i hguard
  split
  · rfl
  rename_i hneg
  rw [not_and] at hguard
  have hle := UInt64.not_lt.mp (hguard (Int.not_le.mp hneg))
  change (csub64 _ _ >>= _) = _
  rw [csub64_ok hle, ok_bind]
  rfl

theorem ordered_checked (e : UInt64) : orderM checked s e = .ok (order s e) := by
  rw [ordered_eq]
  unfold orderM
  split
  · rfl
  rw [excess_checked, ok_bind]
  split <;> rfl

/-- No difference on the way to the number wraps. -/
theorem extended_checked : extendedM checked s seq = .ok (extended s seq) := by
  rw [extended_eq]
  unfold extendedM
  split
  · rw [candidate_checked, ok_bind]
    cases candidate s seq with
    | none => rfl
    | some e => exact ordered_checked e
  · rfl

/-- The session after a packet counted as `e`. -/
def counted (s : Session) (e : UInt64) (ts : UInt32) (arrival : Int) : Session :=
  { s with
    started := true
    base := if s.started then s.base else e
    highest := if s.started then max s.highest e else e
    jitter := if s.started then smoothed s (ts - s.lastTimestamp) arrival else s.jitter
    seen := Function.update s.seen (slot 2048 e.toNat) e
    received := s.received + 1, lastTimestamp := ts, lastArrivalUs := arrival }

theorem counted_seen (e : UInt64) (ts : UInt32) (arrival : Int) (i : Fin 2048) :
    (counted s e ts arrival).seen i = if i = slot 2048 e.toNat then e else s.seen i :=
  Function.update_apply ..

theorem record_eq (ts : UInt32) (arrival : Int) : record s seq ts arrival =
    match extended s seq with
    | none => s
    | some e => counted s e ts arrival := by
  unfold record recordM
  change (match extended s seq with | none => _ | some e => _) = _
  cases extended s seq with
  | none => rfl
  | some e =>
    unfold counted
    simp only
    split
    · rename_i hs
      rw [hs]
      rfl
    · rfl

theorem record_none (h : extended s seq = none) (ts : UInt32) (arrival : Int) : record s seq ts arrival = s := by
  rw [record_eq, h]

theorem record_checked (ts : UInt32) (arrival : Int) :
    recordM checked s seq ts arrival = .ok (record s seq ts arrival) := by
  rw [record_eq]
  unfold recordM
  rw [extended_checked, ok_bind]
  cases extended s seq with
  | none => rfl
  | some e =>
    unfold counted
    simp only
    split
    · rename_i hs
      rw [hs]
      rfl
    · rfl

end Extended

/-! ## The invariant -/

structure Sound (t : Tracked) : Prop where
  unstarted : t.session.started = false → t.history.accepted = [] ∧ t.session.base = 0 ∧ t.session.highest = 0
  nodup : t.history.accepted.Nodup
  base_le : t.session.base.toNat ≤ t.session.highest.toNat
  low : ∀ x ∈ t.history.accepted, t.session.base.toNat ≤ x.toNat
  tracks : Tracks UInt64.toNat t.session.seen t.history.accepted t.session.highest.toNat
  received : t.session.received = UInt64.ofNat t.history.accepted.length
  previousExpected : t.session.previousExpected = UInt64.ofNat t.history.expected
  expected_le : t.history.expected ≤ spanned t.session
  previousReceived : t.session.previousReceived = UInt64.ofNat t.history.received
  received_le : t.history.received ≤ t.history.accepted.length

section Invariant
variable {s : Session} {h : History}

theorem sound_reset (s : Session) (ssrc : UInt32) : Sound ⟨resetSource s ssrc, {}⟩ where
  unstarted _ := ⟨rfl, rfl, rfl⟩
  nodup := List.nodup_nil
  base_le := Nat.le_refl _
  low _ hx := nomatch hx
  tracks := .nil
  received := rfl
  previousExpected := rfl
  expected_le := Nat.zero_le _
  previousReceived := rfl
  received_le := Nat.le_refl _

theorem sound_arrive (hi : Sound ⟨s, h⟩) (ssrc : UInt32) :
    Sound ⟨arrive s ssrc, if s.ssrc ≠ ssrc then {} else h⟩ := by
  unfold arrive
  split
  · exact sound_reset s ssrc
  · exact hi

/-- The first packet is the base; a later one is in the window, and new. -/
theorem sound_counted (hi : Sound ⟨s, h⟩) {seq : UInt16} {e : UInt64} (he : extended s seq = some e) (ts : UInt32)
    (arrival : Int) : Sound ⟨counted s e ts arrival, { h with accepted := h.accepted ++ [e] }⟩ := by
  have hinj : Function.Injective UInt64.toNat := fun a b => UInt64.toNat_inj.mp
  have hcount : s.received + 1 = UInt64.ofNat (h.accepted ++ [e]).length := by
    rw [List.length_append, List.length_singleton, UInt64.ofNat_add]
    exact congrArg (· + 1) hi.received
  have hkept : h.received ≤ (h.accepted ++ [e]).length := by
    rw [List.length_append]
    exact hi.received_le.trans (Nat.le_add_right _ _)
  cases hs : s.started with
  | false =>
    obtain ⟨hnone, hbase, hhighest⟩ := hi.unstarted hs
    change h.accepted = [] at hnone
    change s.base = 0 at hbase
    change s.highest = 0 at hhighest
    have hexp : h.expected ≤ s.highest.toNat - s.base.toNat + 1 := hi.expected_le
    rw [hbase, hhighest, Nat.sub_self] at hexp
    have htracks : Tracks UInt64.toNat (Function.update s.seen (slot 2048 e.toNat) e) ([] ++ [e])
        (max e.toNat e.toNat) := Tracks.nil.insert hinj (by omega)
    unfold counted
    rw [hs]
    rw [hnone] at hcount hkept ⊢
    refine ⟨fun h => (nomatch h), List.nodup_singleton e, Nat.le_refl _, ?_, ?_, hcount,
      hi.previousExpected, ?_, hi.previousReceived, hkept⟩
    · intro x hx
      rw [List.mem_singleton.mp hx]
      exact Nat.le_refl _
    · rw [max_self] at htracks
      exact htracks
    · change h.expected ≤ e.toNat - e.toNat + 1
      rw [Nat.sub_self]
      exact hexp
  | true =>
    obtain ⟨hbase, hwindow, hslot⟩ := extended_some hs he
    have hnew : e ∉ h.accepted := hi.tracks.fresh hwindow hslot
    have hle : s.base.toNat ≤ s.highest.toNat := hi.base_le
    have hexp : h.expected ≤ s.highest.toNat - s.base.toNat + 1 := hi.expected_le
    have htracks := hi.tracks.insert hinj hwindow
    have hbase := UInt64.le_iff_toNat_le.mp hbase
    have hmax := toNat_max s.highest e
    unfold counted
    rw [hs]
    refine ⟨fun h => (nomatch h), ?_, ?_, ?_, ?_, hcount, hi.previousExpected, ?_, hi.previousReceived,
      hkept⟩
    · exact List.nodup_append.mpr ⟨hi.nodup, List.nodup_singleton e,
        fun a ha b hb => by rw [List.mem_singleton.mp hb]; exact fun hab => hnew (hab ▸ ha)⟩
    · change s.base.toNat ≤ (max s.highest e).toNat
      omega
    · intro x hx
      rcases List.mem_append.mp hx with hx | hx
      · exact hi.low x hx
      · rw [List.mem_singleton.mp hx]
        exact hbase
    · change Tracks UInt64.toNat _ _ (max s.highest e).toNat
      rw [hmax]
      exact htracks
    · change h.expected ≤ (max s.highest e).toNat - s.base.toNat + 1
      omega

theorem sound_record (hi : Sound ⟨s, h⟩) (seq : UInt16) (ts : UInt32) (arrival : Int) :
    Sound ⟨record s seq ts arrival, { h with accepted := h.accepted ++ (extended s seq).toList }⟩ := by
  rw [record_eq]
  cases he : extended s seq with
  | none =>
    simp only [Option.toList_none, List.append_nil]
    exact hi
  | some e => exact sound_counted hi he ts arrival

/-- A sender report changes nothing that is counted. -/
theorem controlPart_eq (now : Int) (s : Session) (part : RtcpPacket) :
    ∃ ssrc srNtp srArrivalMs, controlPart now s part = { s with ssrc, srNtp, srArrivalMs } := by
  unfold controlPart
  split
  · split
    · split
      · exact ⟨s.ssrc, s.srNtp, s.srArrivalMs, rfl⟩
      · exact ⟨_, _, _, rfl⟩
    · exact ⟨s.ssrc, s.srNtp, s.srArrivalMs, rfl⟩
  · exact ⟨s.ssrc, s.srNtp, s.srArrivalMs, rfl⟩

theorem control_eq (now : Int) (parts : List RtcpPacket) : ∀ s : Session,
    ∃ ssrc srNtp srArrivalMs, parts.foldl (controlPart now) s = { s with ssrc, srNtp, srArrivalMs } := by
  induction parts with
  | nil => exact fun s => ⟨s.ssrc, s.srNtp, s.srArrivalMs, rfl⟩
  | cons part parts ih =>
    intro s
    obtain ⟨ssrc, srNtp, srArrivalMs, hpart⟩ := controlPart_eq now s part
    obtain ⟨ssrc', srNtp', srArrivalMs', hparts⟩ := ih (controlPart now s part)
    exact ⟨ssrc', srNtp', srArrivalMs', by rw [List.foldl_cons, hparts, hpart]⟩

theorem span_eq (hle : s.base.toNat ≤ s.highest.toNat) : s.highest - s.base + 1 = UInt64.ofNat (spanned s) := by
  unfold spanned
  rw [UInt64.ofNat_add, ← UInt64.toNat_sub_of_le _ _ (UInt64.le_iff_toNat_le.mpr hle), UInt64.ofNat_toNat]
  rfl

theorem sound_track {t : Tracked} (hi : Sound t) (e : Event) : Sound (track t e) := by
  cases e with
  | packet p now => exact sound_record (sound_arrive hi p.ssrc) p.sequence p.timestamp now
  | control parts now =>
    obtain ⟨ssrc, srNtp, srArrivalMs, hparts⟩ := control_eq now parts t.session
    unfold track
    change Sound ⟨parts.foldl (controlPart now) t.session, t.history⟩
    rw [hparts]
    exact ⟨hi.unstarted, hi.nodup, hi.base_le, hi.low, hi.tracks, hi.received, hi.previousExpected, hi.expected_le,
      hi.previousReceived, hi.received_le⟩
  | report now =>
    exact ⟨hi.unstarted, hi.nodup, hi.base_le, hi.low, hi.tracks, hi.received, span_eq hi.base_le, Nat.le_refl _,
      hi.received, Nat.le_refl _⟩

theorem sound_after (es : List Event) : Sound (after es) := by
  induction es using List.reverseRecOn with
  | nil =>
    exact ⟨fun _ => ⟨rfl, rfl, rfl⟩, List.nodup_nil, Nat.le_refl _, fun _ h => (nomatch h), .nil, rfl, rfl,
      Nat.zero_le _, rfl, Nat.le_refl _⟩
  | append_singleton es e ih =>
    unfold after
    rw [List.foldl_append]
    exact sound_track ih e

end Invariant

/-! ## What is reported -/

section Report
variable {t : Tracked}

theorem toNat_ofNat {n : Nat} (h : n < 2 ^ 64) : (UInt64.ofNat n).toNat = n := UInt64.toNat_ofNat_of_lt' h

/-- There are no more distinct numbers than numbers. -/
theorem Sound.length_le (hi : Sound t) : t.history.accepted.length ≤ spanned t.session := by
  have hnodup : (t.history.accepted.map UInt64.toNat).Nodup :=
    hi.nodup.map fun a b => UInt64.toNat_inj.mp
  have hsub : (t.history.accepted.map UInt64.toNat).toFinset ⊆
      Finset.Icc t.session.base.toNat t.session.highest.toNat := by
    intro n hn
    obtain ⟨x, hx, rfl⟩ := List.mem_map.mp (List.mem_toFinset.mp hn)
    exact Finset.mem_Icc.mpr ⟨hi.low x hx, (hi.tracks x hx).1⟩
  have hcard := Finset.card_le_card hsub
  have hle := hi.base_le
  rw [List.toFinset_card_of_nodup hnodup, List.length_map, Nat.card_Icc] at hcard
  unfold spanned
  omega

/-- In the window the 16 bits of a number tell which one it is. -/
theorem candidate_window {s : Session} {x : UInt64} (hle : x.toNat ≤ s.highest.toNat)
    (hwindow : s.highest.toNat < x.toNat + 2048) : candidate s x.toUInt16 = some x := by
  have hlt := s.highest.toNat_lt
  have hdiff : (x.toUInt16 - s.highest.toUInt16).toNat = (65536 - (s.highest.toNat - x.toNat)) % 65536 := by
    rw [UInt16.toNat_sub, UInt64.toNat_toUInt16, UInt64.toNat_toUInt16]
    omega
  rw [candidate_eq]
  by_cases heq : x.toNat = s.highest.toNat
  · obtain rfl := UInt64.toNat_inj.mp heq
    have hdelta : sequenceDelta s.highest.toUInt16 s.highest.toUInt16 = 0 := by
      unfold sequenceDelta
      rw [hdiff, if_pos (by omega)]
      omega
    rw [hdelta]
    simp
  · have hdelta : sequenceDelta x.toUInt16 s.highest.toUInt16 = -((s.highest.toNat - x.toNat : Nat) : Int) := by
      unfold sequenceDelta
      rw [hdiff, if_neg (by omega)]
      omega
    have hsub : s.highest - UInt64.ofNat (s.highest.toNat - x.toNat) = x := by
      apply UInt64.toNat_inj.mp
      have hnat : (UInt64.ofNat (s.highest.toNat - x.toNat)).toNat = s.highest.toNat - x.toNat :=
        toNat_ofNat (by omega)
      rw [UInt64.toNat_sub_of_le _ _ (by rw [UInt64.le_iff_toNat_le, hnat]; omega), hnat]
      omega
    have hsmall : ¬ UInt64.ofNat (s.highest.toNat - x.toNat) > s.highest := by
      rw [gt_iff_lt, UInt64.lt_iff_toNat_lt, toNat_ofNat (by omega)]
      omega
    rw [hdelta, Int.neg_neg, Int.toNat_natCast, if_neg (fun h => hsmall h.2), if_neg (by omega), hsub]

/-- A duplicate is not counted. -/
theorem Sound.duplicate (hi : Sound t) {x : UInt64} (hx : x ∈ t.history.accepted)
    (hwindow : t.session.highest.toNat < x.toNat + 2048) : extended t.session x.toUInt16 = none := by
  obtain ⟨hle, hheld⟩ := hi.tracks x hx
  have hstarted : t.session.started = true := by
    cases hs : t.session.started with
    | true => rfl
    | false =>
      rw [(hi.unstarted hs).1] at hx
      cases hx
  rw [extended_eq, if_pos hstarted, candidate_window hle hwindow, Option.bind_some, ordered_eq]
  split
  · rfl
  · rw [if_pos (.inr (hheld hwindow))]

/-- What the interval since the last report has lost. -/
def lost (t : Tracked) : Nat :=
  (spanned t.session - t.history.expected) - (t.history.accepted.length - t.history.received)

theorem report_checked (hi : Sound t) (hspan : spanned t.session < 2 ^ 64) (now : Int) :
    reportM checked t.session now = .ok (report t.session now) := by
  have hbase := UInt64.le_iff_toNat_le.mpr hi.base_le
  have hlength := hi.length_le
  have hexp := hi.expected_le
  have hrec := hi.received_le
  have hexpected : t.session.previousExpected ≤ t.session.highest - t.session.base + 1 := by
    rw [span_eq hi.base_le, hi.previousExpected, UInt64.le_iff_toNat_le, toNat_ofNat (by omega),
      toNat_ofNat hspan]
    exact hexp
  have hreceived : t.session.previousReceived ≤ t.session.received := by
    rw [hi.received, hi.previousReceived, UInt64.le_iff_toNat_le, toNat_ofNat (by omega),
      toNat_ofNat (by omega)]
    exact hrec
  unfold reportM
  rw [show checked.wide = csub64 from rfl, csub64_ok hbase, ok_bind]
  dsimp only
  rw [csub64_ok hexpected, ok_bind, csub64_ok hreceived, ok_bind, excess_checked, ok_bind, excess_checked,
    ok_bind]
  rfl

theorem report_fraction (s : Session) (now : Int) : (report s now).1.getD 12 0 =
    fractionLost (s.highest - s.base + 1 - s.previousExpected)
      (excess (s.highest - s.base + 1 - s.previousExpected) (s.received - s.previousReceived)) := rfl

theorem fractionLost_toNat {a b : UInt64} (h : b.toNat < 2 ^ 56) :
    (fractionLost a b).toNat = min 255 (256 * b.toNat / a.toNat) := by
  unfold fractionLost
  have hmul : (b * 256).toNat = 256 * b.toNat := by
    rw [UInt64.toNat_mul]
    change b.toNat * 256 % 2 ^ 64 = _
    omega
  split
  · have hmin : (min 255 (b * 256 / a)).toNat = min 255 (256 * b.toNat / a.toNat) := by
      change (if (255 : UInt64) ≤ b * 256 / a then 255 else b * 256 / a).toNat = _
      split
      · rename_i hle
        rw [UInt64.le_iff_toNat_le, UInt64.toNat_div, hmul] at hle
        exact (Nat.min_eq_left hle).symm
      · rename_i hle
        rw [UInt64.le_iff_toNat_le, UInt64.toNat_div, hmul] at hle
        rw [UInt64.toNat_div, hmul]
        exact (Nat.min_eq_right (Nat.le_of_lt (Nat.not_le.mp hle))).symm
    rw [UInt64.toNat_toUInt8, hmin]
    omega
  · rename_i hzero
    rw [not_not.mp hzero]
    change 0 = min 255 (256 * b.toNat / 0)
    rw [Nat.div_zero]
    rfl

theorem Sound.interval (hi : Sound t) (hspan : spanned t.session < 2 ^ 64) :
    (t.session.highest - t.session.base + 1 - t.session.previousExpected).toNat =
        spanned t.session - t.history.expected ∧
      (t.session.received - t.session.previousReceived).toNat =
        t.history.accepted.length - t.history.received := by
  have hlength := hi.length_le
  have hexp := hi.expected_le
  have hrec := hi.received_le
  have hs := toNat_ofNat hspan
  have he : (UInt64.ofNat t.history.expected).toNat = _ := toNat_ofNat (by omega)
  have ha : (UInt64.ofNat t.history.accepted.length).toNat = _ := toNat_ofNat (by omega)
  have hr : (UInt64.ofNat t.history.received).toNat = _ := toNat_ofNat (by omega)
  rw [span_eq hi.base_le, hi.previousExpected, hi.received, hi.previousReceived]
  constructor
  · rw [UInt64.toNat_sub_of_le _ _ (by rw [UInt64.le_iff_toNat_le, hs, he]; exact hexp), hs, he]
  · rw [UInt64.toNat_sub_of_le _ _ (by rw [UInt64.le_iff_toNat_le, ha, hr]; exact hrec), ha, hr]

theorem Sound.fraction (hi : Sound t) (hspan : spanned t.session < 2 ^ 64) (hlost : lost t < 2 ^ 56) (now : Int) :
    ((report t.session now).1.getD 12 0).toNat =
      min 255 (256 * lost t / (spanned t.session - t.history.expected)) := by
  obtain ⟨hexpected, hreceived⟩ := hi.interval hspan
  have hexcess : (excess (t.session.highest - t.session.base + 1 - t.session.previousExpected)
      (t.session.received - t.session.previousReceived)).toNat = lost t := by
    rw [excess_toNat, hexpected, hreceived]
    rfl
  rw [report_fraction, fractionLost_toNat (by rw [hexcess]; exact hlost), hexcess, hexpected]

end Report

theorem highest_le {t : Tracked} (hi : Sound t) {e : Event} (hr : ¬ Resets t.session e) :
    t.session.highest ≤ (next t.session e).highest := by
  cases e with
  | packet p now =>
    have hsame : arrive t.session p.ssrc = t.session := if_neg hr
    change t.session.highest ≤ (record (arrive t.session p.ssrc) p.sequence p.timestamp now).highest
    rw [hsame, record_eq]
    cases he : extended t.session p.sequence with
    | none => exact UInt64.le_refl _
    | some e =>
      rw [UInt64.le_iff_toNat_le]
      unfold counted
      cases hs : t.session.started with
      | true =>
        change _ ≤ (max t.session.highest e).toNat
        rw [toNat_max]
        exact Nat.le_max_left _ _
      | false =>
        rw [(hi.unstarted hs).2.2]
        exact Nat.zero_le _
  | control parts now =>
    obtain ⟨ssrc, srNtp, srArrivalMs, hparts⟩ := control_eq now parts t.session
    change t.session.highest ≤ (parts.foldl (controlPart now) t.session).highest
    rw [hparts]
    exact UInt64.le_refl _
  | report now => exact UInt64.le_refl _

/-- What is promised of the statistics. -/
structure Statistics (t : Tracked) : Prop where
  distinct : t.history.accepted.Nodup
  within : ∀ x ∈ t.history.accepted, t.session.base ≤ x ∧ x ≤ t.session.highest
  received : spanned t.session < 2 ^ 64 → t.session.received.toNat = t.history.accepted.length
  received_le : t.session.received.toNat ≤ spanned t.session
  duplicate : ∀ x ∈ t.history.accepted, t.session.highest.toNat < x.toNat + 2048 →
    ∀ ts arrival, record t.session x.toUInt16 ts arrival = t.session
  highest : ∀ e, ¬ Resets t.session e → t.session.highest ≤ (next t.session e).highest
  record_exact : ∀ p now, recordM checked (arrive t.session p.ssrc) p.sequence p.timestamp now =
    .ok (next t.session (.packet p now))
  report_exact : spanned t.session < 2 ^ 64 → ∀ now, reportM checked t.session now = .ok (report t.session now)
  fraction : spanned t.session < 2 ^ 64 → lost t < 2 ^ 56 → ∀ now,
    ((report t.session now).1.getD 12 0).toNat =
      min 255 (256 * lost t / (spanned t.session - t.history.expected))

/-- **The statistics are sound** after every sequence of packets, control
messages and reports. -/
theorem statistics_sound (es : List Event) : Statistics (after es) := by
  have hi := sound_after es
  have hlength := hi.length_le
  refine ⟨hi.nodup,
    fun x hx => ⟨UInt64.le_iff_toNat_le.mpr (hi.low x hx), UInt64.le_iff_toNat_le.mpr (hi.tracks x hx).1⟩,
    ?_, ?_, fun x hx hwindow => record_none (hi.duplicate hx hwindow), fun e hr => highest_le hi hr,
    fun p now => record_checked p.timestamp now, report_checked hi, hi.fraction⟩
  · intro hspan
    rw [hi.received]
    exact toNat_ofNat (by omega)
  · rw [hi.received, UInt64.toNat_ofNat']
    exact (Nat.mod_le _ _).trans hlength

/-! ## Where 32 and 64 bits are not enough -/

def first : Event := .packet ⟨[0], 3000, 1, 1, 96, false, by simp⟩ 0

/-- A packet 32767 numbers after the last. -/
def leap (i : Nat) : RtpPacket := ⟨[0], 0, 1, UInt16.ofNat (32767 * i), 96, false, by simp⟩

def leaps (n : Nat) : List Event := (List.range n).map fun i => .packet (leap i) 0

/-- The state after the leap numbered `n`. -/
structure Leapt (t : Tracked) (n : Nat) : Prop where
  started : t.session.started = true
  ssrc : t.session.ssrc = 1
  base : t.session.base = 0
  highest : t.session.highest = UInt64.ofNat (32767 * n)
  history : t.history.expected = 0 ∧ t.history.received = 0
  accepted : t.history.accepted.length = n + 1
  seen : ∀ i, t.session.seen i = 18446744073709551615 ∨ (t.session.seen i).toNat ≤ 32767 * n

theorem Leapt.extended {t : Tracked} {n : Nat} (h : Leapt t n) (hn : n < 2 ^ 43) :
    extended t.session (UInt16.ofNat (32767 * (n + 1))) = some (UInt64.ofNat (32767 * (n + 1))) := by
  have hhighest : t.session.highest.toNat = 32767 * n := by
    rw [h.highest]
    exact toNat_ofNat (by omega)
  have hnumber : (UInt64.ofNat (32767 * (n + 1))).toNat = 32767 * (n + 1) := toNat_ofNat (by omega)
  have hdelta : sequenceDelta (UInt16.ofNat (32767 * (n + 1))) t.session.highest.toUInt16 = 32767 := by
    have hdiff : (UInt16.ofNat (32767 * (n + 1)) - t.session.highest.toUInt16).toNat = 32767 := by
      rw [UInt16.toNat_sub, UInt16.toNat_ofNat', UInt64.toNat_toUInt16, hhighest]
      omega
    unfold sequenceDelta
    rw [hdiff]
    rfl
  have hcandidate : candidate t.session (UInt16.ofNat (32767 * (n + 1))) = some (UInt64.ofNat (32767 * (n + 1))) := by
    rw [candidate_eq, hdelta, if_neg (fun h => absurd h.1 (by decide)), if_pos (by decide), h.highest]
    change some (UInt64.ofNat (32767 * n) + UInt64.ofNat 32767) = _
    rw [← UInt64.ofNat_add, Nat.mul_succ]
  have hexcess : excess t.session.highest (UInt64.ofNat (32767 * (n + 1))) = 0 := by
    apply UInt64.toNat_inj.mp
    rw [excess_toNat, hhighest, hnumber]
    change _ = 0
    omega
  have hunseen : t.session.seen (slot 2048 (UInt64.ofNat (32767 * (n + 1))).toNat) ≠
      UInt64.ofNat (32767 * (n + 1)) := by
    intro heq
    have hvalue := congrArg UInt64.toNat heq
    rw [hnumber] at hvalue
    rcases h.seen (slot 2048 (32767 * (n + 1))) with hmax | hle
    · rw [hmax] at hvalue
      change 18446744073709551615 = _ at hvalue
      omega
    · omega
  rw [extended_eq, if_pos h.started, hcandidate, Option.bind_some, ordered_eq, h.base,
    if_neg (fun h => absurd h (UInt64.not_lt.mpr (UInt64.zero_le))), hexcess, if_neg (not_or.mpr ⟨by decide, hunseen⟩)]

theorem Leapt.next {t : Tracked} {n : Nat} (h : Leapt t n) (hn : n < 2 ^ 43) :
    Leapt (track t (.packet (leap (n + 1)) 0)) (n + 1) := by
  have hsame : ¬ t.session.ssrc ≠ (leap (n + 1)).ssrc := not_not.mpr h.ssrc
  have harrive : arrive t.session (leap (n + 1)).ssrc = t.session := if_neg hsame
  have hextended : L2.RtcpReception.extended t.session (leap (n + 1)).sequence = _ := h.extended hn
  have hsession : (track t (.packet (leap (n + 1)) 0)).session =
      counted t.session (UInt64.ofNat (32767 * (n + 1))) 0 0 := by
    change record (arrive t.session (leap (n + 1)).ssrc) (leap (n + 1)).sequence 0 0 = _
    rw [harrive, record_eq, hextended]
  have hhistory : (track t (.packet (leap (n + 1)) 0)).history =
      { t.history with accepted := t.history.accepted ++ [UInt64.ofNat (32767 * (n + 1))] } := by
    change remember t.session t.history (.packet (leap (n + 1)) 0) = _
    unfold remember
    simp only
    rw [harrive, hextended, if_neg hsame]
    rfl
  have hhighest : (max t.session.highest (UInt64.ofNat (32767 * (n + 1)))) = UInt64.ofNat (32767 * (n + 1)) := by
    apply UInt64.toNat_inj.mp
    rw [toNat_max, h.highest, toNat_ofNat (by omega), toNat_ofNat (by omega)]
    omega
  refine ⟨?_, ?_, ?_, ?_, ?_, ?_, ?_⟩
  · rw [hsession]
    rfl
  · rw [hsession]
    exact h.ssrc
  · rw [hsession]
    unfold counted
    rw [h.started]
    exact h.base
  · rw [hsession]
    unfold counted
    rw [h.started]
    exact hhighest
  · rw [hhistory]
    exact h.history
  · rw [hhistory]
    simp only [List.length_append, List.length_singleton, h.accepted]
  · intro i
    rw [hsession, counted_seen]
    split
    · exact .inr (Nat.le_of_eq (toNat_ofNat (by omega)))
    · rcases h.seen i with hmax | hle
      · exact .inl hmax
      · exact .inr (by omega)

theorem leapt_leaps {n : Nat} (hn : n < 2 ^ 43) : Leapt (after (leaps (n + 1))) n := by
  induction n with
  | zero =>
    refine ⟨rfl, rfl, rfl, rfl, ⟨rfl, rfl⟩, rfl, ?_⟩
    intro i
    have hsession : (after (leaps 1)).session = counted (resetSource {} 1) 0 0 0 := rfl
    rw [hsession, counted_seen]
    split
    · exact .inr (Nat.le_refl _)
    · exact .inl rfl
  | succ n ih =>
    have hsnoc : after (leaps (n + 1 + 1)) = track (after (leaps (n + 1))) (.packet (leap (n + 1)) 0) := by
      unfold after leaps
      rw [List.range_succ (n := n + 1), List.map_append, List.foldl_append]
      rfl
    rw [hsnoc]
    exact (ih (by omega)).next (by omega)

/-- After 2^42 leaps of 32767 numbers, 256 times what is lost is above 64 bits. -/
theorem leaps_fraction {n : Nat} (hn : n = 2 ^ 42) :
    ((report (after (leaps (n + 1))).session 0).1.getD 12 0).toNat = 127 ∧
      min 255 (256 * lost (after (leaps (n + 1))) /
        (spanned (after (leaps (n + 1))).session - (after (leaps (n + 1))).history.expected)) = 255 := by
  have hi := sound_after (leaps (n + 1))
  obtain ⟨-, -, hbase, hhighest, ⟨hexpected, hreceived⟩, haccepted, -⟩ := leapt_leaps (n := n) (by omega)
  have hspan : spanned (after (leaps (n + 1))).session = 32767 * n + 1 := by
    unfold spanned
    rw [hbase, hhighest, toNat_ofNat (by omega)]
    rfl
  have hlost : lost (after (leaps (n + 1))) = 32766 * n := by
    unfold lost
    rw [hspan, hexpected, hreceived, haccepted]
    omega
  obtain ⟨hiE, hiR⟩ := hi.interval (by omega)
  rw [hspan, hexpected] at hiE
  rw [haccepted, hreceived] at hiR
  constructor
  · rw [report_fraction]
    generalize (after (leaps (n + 1))).session.highest - _ + 1 - _ = expected at hiE ⊢
    generalize (after (leaps (n + 1))).session.received - _ = received at hiR ⊢
    have hmul : (excess expected received * 256).toNat = 32766 * n * 256 % 2 ^ 64 := by
      rw [UInt64.toNat_mul, excess_toNat, hiE, hiR]
      change (32767 * n + 1 - 0 - (n + 1 - 0)) * 256 % 2 ^ 64 = _
      rw [show 32767 * n + 1 - 0 - (n + 1 - 0) = 32766 * n by omega]
    have hquot : (excess expected received * 256 / expected).toNat = 127 := by
      rw [UInt64.toNat_div, hmul, hiE, hn]
      rfl
    have hne : expected ≠ 0 := by
      intro h0
      rw [h0] at hiE
      change 0 = _ at hiE
      omega
    obtain hvalue := UInt64.toNat_inj.mp (show _ = (127 : UInt64).toNat from hquot)
    unfold fractionLost
    rw [if_pos hne, hvalue]
    rfl
  · rw [hspan, hlost, hexpected, hn]
    rfl

/-- The difference of two timestamps wraps, and so does the product behind the fraction. -/
theorem wide_run :
    recordM strict (after [first]).session 2 0 0 = .error .underflow ∧
      ((report (after (leaps (2 ^ 42 + 1))).session 0).1.getD 12 0).toNat ≠
        min 255 (256 * lost (after (leaps (2 ^ 42 + 1))) /
          (spanned (after (leaps (2 ^ 42 + 1))).session - (after (leaps (2 ^ 42 + 1))).history.expected)) := by
  refine ⟨rfl, ?_⟩
  obtain ⟨hbyte, hformula⟩ := leaps_fraction rfl
  rw [hbyte, hformula]
  decide

end KmVirtualCamera.L2.RtcpReception
