import Mathlib
import KmVirtualCamera.Core.LTS
import KmVirtualCamera.L2Machine.DcSequential
import KmVirtualCamera.L4App.WebCodecsSender

/-!
# The frame counter and the cursor over one video channel

One open DataChannel with the sender's counter at one end and the receiver's
cursor at the other. The channel is unordered and unreliable: a packet that was
sent arrives at most once, at any later time, or never. `handed` and `arrived`
record every call of `sendAccessUnit` and every packet that has arrived.

The counter is set to zero by every `start`, that is, on every change of the
connection to `connected`; the cursor lives as long as the channel.

## Hypotheses

On every step of a run. `StartsFresh`:

* `start` finds the counter at a multiple of 65536, as it does before the first
  access unit.

`Orderly` is that and:

* a packet arrives only after every packet of all earlier access units;
* no packet and no tick comes 10 ms or more after the first packet of an access
  unit that is still incomplete: the depacketizer would give the unit up.

Under the first the access units handed on are numbered without a gap, whatever
arrives when; under all of them no packet is ever found stale
(`numbered_without_gap`). `restart_stale` is a run that breaks the first one only: `start`, two access units, `start`, and a keyframe
that arrives completely and is thrown away.
-/
namespace KmVirtualCamera.L5.VideoChannel
open KmVirtualCamera.L1.H264 KmVirtualCamera.L1.DcWire
open KmVirtualCamera.L2.DcVideo KmVirtualCamera.L4.WebCodecsSender

/-- Packet `index` of access unit `unit` came at `time`. -/
structure Arrival where
  unit : Nat
  index : Nat
  time : Int
  deriving DecidableEq

structure Link where
  sender : Sender
  handed : List Handed := []
  arrived : List Arrival := []
  receiver : Depacketizer := {}

inductive Label where
  | sender (e : Event)
  | packet (unit index : Nat) (now : Int)
  | tick (now : Int)

namespace Link

def Has (s : Link) (k i : Nat) : Prop := ∃ a ∈ s.arrived, a.unit = k ∧ a.index = i

instance (s : Link) (k i : Nat) : Decidable (s.Has k i) :=
  inferInstanceAs (Decidable (∃ a ∈ s.arrived, a.unit = k ∧ a.index = i))

/-- Every packet of the access unit has arrived. -/
def Complete (s : Link) (k : Nat) : Prop := ∃ u ∈ s.handed[k]?, ∀ i < chunkCount u.data, s.Has k i

instance (s : Link) (k : Nat) : Decidable (s.Complete k) :=
  inferInstanceAs (Decidable (∃ u ∈ s.handed[k]?, ∀ i < chunkCount u.data, s.Has k i))

/-- What the channel carries as packet `i` of access unit `k`. -/
def wire (s : Link) (k i : Nat) : Option Bytes := s.handed[k]?.bind fun u => u.packets[i]?

/-- The stale test of `ProcessPacketAt` on a packet that arrives now.
mirrors shared/receiver/codec/dc_video_depacketizer.cpp:71-72 -/
def Stale (s : Link) (k i : Nat) (now : Int) : Prop :=
  ∃ p ∈ (s.wire k i).bind parsePacket, (drain now s.receiver {}).1.initialized = true ∧
    delta p.seq (drain now s.receiver {}).1.expected < 0

instance (s : Link) (k i : Nat) (now : Int) : Decidable (s.Stale k i now) :=
  inferInstanceAs (Decidable (∃ p ∈ (s.wire k i).bind parsePacket, _ ∧ _))

/-- No call comes 10 ms or more after the first packet of an incomplete unit. -/
def Timely (s : Link) (now : Int) : Prop :=
  ∀ a ∈ s.arrived, ¬ s.Complete a.unit → now - a.time < 10000

instance (s : Link) (now : Int) : Decidable (s.Timely now) :=
  inferInstanceAs (Decidable (∀ a ∈ s.arrived, ¬ s.Complete a.unit → now - a.time < 10000))

end Link

def next (s : Link) : Label → Option Link
  | .sender e =>
    some { s with sender := (onEvent s.sender e).1,
                  handed := s.handed ++ (onEvent s.sender e).2.toList }
  | .packet k i now =>
    match s.wire k i with
    | none => none
    | some b =>
      if s.Has k i ∨ now < 0 then none
      else some { s with arrived := s.arrived ++ [⟨k, i, now⟩],
                         receiver := (processPacketAt s.receiver b now).1 }
  | .tick now =>
    if now < 0 then none else some { s with receiver := (onTimerTickAt s.receiver now).1 }

def link (config : Config) : LTS Link Label where
  init s := s = { sender := create config }
  step s l s' := next s l = some s'

/-- The hypothesis on the sender's steps. -/
def StartsFresh (s : Link) : Label → Prop
  | .sender e => e.Starts → s.sender.frameSeq % 65536 = 0
  | _ => True

/-- The hypotheses on a step. -/
def Orderly (s : Link) : Label → Prop
  | .sender e => e.Starts → s.sender.frameSeq % 65536 = 0
  | .packet k _ now => (∀ j < k, s.Complete j) ∧ s.Timely now
  | .tick now => s.Timely now

instance (s : Link) : DecidablePred (Orderly s)
  | .sender e => inferInstanceAs (Decidable (e.Starts → s.sender.frameSeq % 65536 = 0))
  | .packet k _ now => inferInstanceAs (Decidable ((∀ j < k, s.Complete j) ∧ s.Timely now))
  | .tick now => inferInstanceAs (Decidable (s.Timely now))

/-- Each access unit handed on has the number after the one before. -/
def Consecutive (us : List Handed) : Prop := us.IsChain fun u v => v.seq = (u.seq + 1) % 65536

/-! ## What is on the channel -/

def shipmentOf (u : Handed) : Shipment := shipment u.data (.finite u.seq) u.timestampUs u.keyframe

theorem shipmentOf_seq {u : Handed} {m : Nat} (h : u.seq = m % 65536) :
    (shipmentOf u).seq = seqOf m := by
  have hs : ((shipmentOf u).seq.toNat : Int) = (u.seq : Int) % 2 ^ 16 := by
    have := JsNumber.toUint16_int u.seq
    rwa [Int.cast_natCast] at this
  unfold seqOf
  rw [← UInt16.toNat_inj, UInt16.toNat_ofNat']
  omega

theorem shipmentOf_key {u : Handed} (h : u.keyframe = true) : (shipmentOf u).flags &&& 1 ≠ 0 := by
  have hone : (1 : UInt8) &&& 1 ≠ 0 := by decide
  unfold shipmentOf shipment
  rw [h]
  exact hone

theorem chunkCount_ne {u : Handed} (h : u.data ≠ []) : 0 < chunkCount u.data :=
  chunkCount_pos fun h0 => h (List.length_eq_zero_iff.mp h0)

/-- A packet on the channel passes the header check as its chunk. -/
theorem wire_carries {s : Link} {k i : Nat} {u : Handed} {b : Bytes} (hu : s.handed[k]? = some u)
    (hfits : u.data.length ≤ DC_MAX_AU_BYTES) (hb : s.wire k i = some b) :
    ∃ p, parsePacket b = some p ∧ Carries p (shipmentOf u) i ∧ i < chunkCount u.data := by
  unfold Link.wire at hb
  rw [hu, Option.bind_some] at hb
  obtain ⟨hi, rfl⟩ := sendAccessUnit_get hb
  exact ⟨_, parsePacket_packet _ _ _ _ _ i (chunkCount_le hfits) hi (part_ne_nil hi),
    chunkPacket_carries _ _ _ _ hfits hi, hi⟩

/-! ## The receiver's part -/

/-- Times at which packets of unit `m` came. -/
def Times (s : Link) (m : Nat) (t : Int) : Prop := ∃ a ∈ s.arrived, a.unit = m ∧ a.time = t

/-- The first `m` units are complete, and the depacketizer is at unit `m`. -/
structure Caught (s : Link) (m : Nat) : Prop where
  done : ∀ j < m, s.Complete j
  upto : ∀ a ∈ s.arrived, a.unit ≤ m
  receiver : (Idle m s.receiver ∧ ∀ a ∈ s.arrived, a.unit < m) ∨
    ∃ u, s.handed[m]? = some u ∧ ¬ s.Complete m ∧
      Arriving m (shipmentOf u) (s.Has m) (Times s m) s.receiver

section Caught
variable {s s' : Link} {m : Nat}

theorem Complete.mono {k : Nat} (h : s.Complete k)
    (hh : ∀ u, s.handed[k]? = some u → s'.handed[k]? = some u)
    (ha : ∀ i, s.Has k i → s'.Has k i) : s'.Complete k := by
  obtain ⟨u, hu, hall⟩ := h
  exact ⟨u, hh u hu, fun i hi => ha i (hall i hi)⟩

/-- What is complete has its packets among those that have arrived. -/
theorem complete_iff {k : Nat} {u : Handed} (hu : s.handed[k]? = some u) :
    s.Complete k ↔ AllOf (shipmentOf u) (s.Has k) := by
  unfold Link.Complete AllOf shipmentOf
  rw [shipment_count]
  constructor
  · rintro ⟨v, hv, hall⟩
    rw [Option.mem_def, hu] at hv
    cases hv
    exact hall
  · exact fun hall => ⟨u, hu, hall⟩

/-- Unit `m` once it has been handed on: under way, with what has arrived. -/
theorem Caught.arriving (h : Caught s m) {u : Handed} (hu : s.handed[m]? = some u)
    (hne : u.data ≠ []) :
    ¬ s.Complete m ∧ Arriving m (shipmentOf u) (s.Has m) (Times s m) s.receiver := by
  rcases h.receiver with ⟨hidle, hlt⟩ | ⟨v, hv, hnot, harr⟩
  · have hnone : ∀ i, ¬ s.Has m i := by
      rintro i ⟨a, ha, hk, -⟩
      exact absurd hk (Nat.ne_of_lt (hlt a ha))
    refine ⟨?_, ?_⟩
    · intro hc
      exact hnone 0 ((complete_iff hu).mp hc 0 (by
        rw [shipmentOf, shipment_count]; exact chunkCount_ne hne))
    · exact hidle.arriving hnone
  · rw [hu] at hv
    cases hv
    exact ⟨hnot, harr⟩

/-- More access units change nothing for those that were there. -/
theorem Caught.handed (h : Caught s m) (sender : Sender) (us : List Handed) :
    Caught { s with sender := sender, handed := s.handed ++ us } m := by
  have keep : ∀ {k : Nat} {u : Handed}, s.handed[k]? = some u → (s.handed ++ us)[k]? = some u := by
    intro k u hu
    rw [List.getElem?_append_left (List.getElem?_eq_some_iff.mp hu).1, hu]
  refine ⟨fun j hj => Complete.mono (h.done j hj) (fun u hu => keep hu) fun i hi => hi, h.upto, ?_⟩
  rcases h.receiver with hidle | ⟨u, hu, hnot, harr⟩
  · exact .inl hidle
  · refine .inr ⟨u, keep hu, fun hc => hnot ?_, harr⟩
    obtain ⟨v, hv, hall⟩ := hc
    have huv := (keep hu).symm.trans hv
    cases huv
    exact ⟨u, hu, hall⟩

theorem times_timely {now : Int} (ht : s.Timely now) (hnot : ¬ s.Complete m) :
    ∀ t, Times s m t → now - t < 10000 := by
  rintro t ⟨a, ha, hk, rfl⟩
  exact ht a ha (by rw [hk]; exact hnot)

theorem Caught.tick (h : Caught s m) {now : Int} (ht : s.Timely now) :
    Caught { s with receiver := (onTimerTickAt s.receiver now).1 } m := by
  refine ⟨h.done, h.upto, ?_⟩
  rcases h.receiver with ⟨hidle, hlt⟩ | ⟨u, hu, hnot, harr⟩
  · exact .inl ⟨hidle.tick now, hlt⟩
  · exact .inr ⟨u, hu, hnot, harr.tick (times_timely ht hnot) fun hall =>
      hnot ((complete_iff hu).mpr hall)⟩

/-- A packet that comes in its turn belongs to unit `m`. -/
theorem Caught.turn (h : Caught s m) {k i : Nat} {u : Handed} (hu : s.handed[k]? = some u)
    (hi : i < chunkCount u.data) (hnew : ¬ s.Has k i) (hearlier : ∀ j < k, s.Complete j)
    (hne : ∀ v, s.handed[m]? = some v → v.data ≠ []) : k = m := by
  rcases Nat.lt_trichotomy k m with hlt | heq | hgt
  · refine absurd ((complete_iff hu).mp (h.done k hlt) i ?_) hnew
    rw [shipmentOf, shipment_count]
    exact hi
  · exact heq
  · obtain ⟨v, hv, -⟩ := hearlier m hgt
    exact absurd (hearlier m hgt) (h.arriving hv (hne v hv)).1

/-! A packet of unit `m` arrives; what had arrived has still arrived. -/

theorem has_snoc {i : Nat} {now : Int} (h : s'.arrived = s.arrived ++ [⟨m, i, now⟩]) (k j : Nat) :
    s'.Has k j ↔ s.Has k j ∨ (k = m ∧ j = i) := by
  unfold Link.Has
  simp only [h, List.mem_append, List.mem_singleton]
  constructor
  · rintro ⟨a, ha | rfl, hk, hj⟩
    · exact .inl ⟨a, ha, hk, hj⟩
    · exact .inr ⟨hk.symm, hj.symm⟩
  · rintro (⟨a, ha, hk, hj⟩ | ⟨rfl, rfl⟩)
    · exact ⟨a, .inl ha, hk, hj⟩
    · exact ⟨_, .inr rfl, rfl, rfl⟩

theorem has_snoc_self {i : Nat} {now : Int} (h : s'.arrived = s.arrived ++ [⟨m, i, now⟩]) :
    s'.Has m = fun j => s.Has m j ∨ j = i := by
  funext j
  rw [eq_iff_iff, has_snoc h]
  simp

theorem times_snoc {i : Nat} {now : Int} (h : s'.arrived = s.arrived ++ [⟨m, i, now⟩]) :
    Times s' m = fun t => Times s m t ∨ t = now := by
  funext t
  rw [eq_iff_iff]
  unfold Times
  simp only [h, List.mem_append, List.mem_singleton]
  constructor
  · rintro ⟨a, ha | rfl, hk, ht⟩
    · exact .inl ⟨a, ha, hk, ht⟩
    · exact .inr ht.symm
  · rintro (⟨a, ha, hk, ht⟩ | rfl)
    · exact ⟨a, .inl ha, hk, ht⟩
    · exact ⟨_, .inr rfl, rfl, rfl⟩

/-- **A packet in its turn.** It is not stale, and the depacketizer stays with
the unit or, after the last packet, goes on to the next. -/
theorem Caught.packet (h : Caught s m) {i : Nat} {now : Int} {u : Handed} {b : Bytes}
    (hu : s.handed[m]? = some u) (hne : u.data ≠ []) (hfits : u.data.length ≤ DC_MAX_AU_BYTES)
    (hseq : u.seq = m % 65536) (hkey : m = 0 → u.keyframe = true) (hb : s.wire m i = some b)
    (hnew : ¬ s.Has m i) (hnow : 0 ≤ now) (ht : s.Timely now)
    (hs' : s' = { s with arrived := s.arrived ++ [⟨m, i, now⟩],
                         receiver := (processPacketAt s.receiver b now).1 }) :
    ¬ s.Stale m i now ∧ (Caught s' m ∨ Caught s' (m + 1)) := by
  obtain ⟨p, hparse, hp, -⟩ := wire_carries hu hfits hb
  obtain ⟨hnot, harr⟩ := h.arriving hu hne
  obtain ⟨hahead, hlast, hmore⟩ := harr.accept (times_timely ht hnot) (shipmentOf_seq hseq)
    (fun h0 => shipmentOf_key (hkey h0)) hp hnew
  have hhanded : s'.handed = s.handed := by rw [hs']
  have harrived : s'.arrived = s.arrived ++ [⟨m, i, now⟩] := by rw [hs']
  have hreceiver : s'.receiver = (accept now s.receiver p).1 := by
    rw [hs']
    unfold processPacketAt
    rw [if_neg (by omega), hparse]
  have hu' : s'.handed[m]? = some u := by rw [hhanded, hu]
  have hdone : ∀ j < m, s'.Complete j := fun j hj =>
    Complete.mono (h.done j hj) (fun v hv => by rw [hhanded, hv])
      fun i hi => (has_snoc harrived j i).mpr (.inl hi)
  have hupto : ∀ a ∈ s'.arrived, a.unit ≤ m := by
    intro a ha
    rw [harrived] at ha
    rcases List.mem_append.mp ha with ha | ha
    · exact h.upto a ha
    · rw [List.mem_singleton.mp ha]
  rw [← hreceiver, ← has_snoc_self harrived, ← complete_iff hu'] at hlast hmore
  rw [← times_snoc harrived] at hmore
  constructor
  · rintro ⟨q, hq, hstale⟩
    rw [hb, Option.bind_some, hparse] at hq
    cases hq
    exact hahead hstale
  · by_cases hc : s'.Complete m
    · right
      refine ⟨?_, fun a ha => Nat.le_succ_of_le (hupto a ha), .inl ⟨hlast hc, ?_⟩⟩
      · intro j hj
        rcases Nat.lt_succ_iff_lt_or_eq.mp hj with hlt | rfl
        · exact hdone j hlt
        · exact hc
      · intro a ha
        exact Nat.lt_succ_of_le (hupto a ha)
    · left
      exact ⟨hdone, hupto, .inr ⟨u, hu', hc, hmore hc⟩⟩

end Caught

/-! ## The invariant -/

/-- Access unit `k` has number `k`, the counter shows the next one, and nothing but
a keyframe is handed on first. -/
structure Numbered (s : Link) : Prop where
  seq : ∀ k u, s.handed[k]? = some u → u.seq = k % 65536
  counter : s.sender.frameSeq % 65536 = s.handed.length % 65536
  data : ∀ u ∈ s.handed, u.data ≠ [] ∧ u.data.length ≤ DC_MAX_AU_BYTES
  gate : s.handed = [] → s.sender.waitingForKeyframe = true
  key : ∀ u, s.handed[0]? = some u → u.keyframe = true

/-- The depacketizer has kept up. -/
structure Followed (s : Link) : Prop extends Numbered s where
  caught : ∃ m, Caught s m

theorem numbered_start (config : Config) : Numbered { sender := create config } where
  seq k u h := by cases h
  counter := rfl
  data u h := by cases h
  gate _ := rfl
  key u h := by cases h

theorem followed_start (config : Config) : Followed { sender := create config } where
  toNumbered := numbered_start config
  caught := by
    refine ⟨0, fun j hj => absurd hj (Nat.not_lt_zero j), ?_, .inl ⟨idle_start, ?_⟩⟩
    · intro a ha
      cases ha
    · intro a ha
      cases ha

section Invariant
variable {s s' : Link}

theorem Numbered.sender (h : Numbered s) {e : Event}
    (hg : e.Starts → s.sender.frameSeq % 65536 = 0) :
    Numbered { s with sender := (onEvent s.sender e).1,
                      handed := s.handed ++ (onEvent s.sender e).2.toList } := by
  have ho := onEvent_cases s.sender e
  generalize onEvent s.sender e = c at ho
  cases ho with
  | quiet t hs q =>
    simp only [Option.toList_none, List.append_nil]
    exact ⟨h.seq, by rw [← h.counter, q.seq], h.data, fun h0 => q.gate (h.gate h0), h.key⟩
  | restarted t hs r =>
    simp only [Option.toList_none, List.append_nil]
    exact ⟨h.seq, by rw [← h.counter, r.seq, hg hs], h.data, fun h0 => r.gate (h.gate h0), h.key⟩
  | sent t u hs r =>
    simp only [Option.toList_some]
    have hlast : ∀ {k : Nat} {v : Handed}, (s.handed ++ [u])[k]? = some v →
        s.handed[k]? = some v ∨ (k = s.handed.length ∧ v = u) := by
      intro k v hv
      rcases Nat.lt_trichotomy k s.handed.length with hlt | rfl | hgt
      · rw [List.getElem?_append_left hlt] at hv
        exact .inl hv
      · rw [List.getElem?_concat_length] at hv
        cases hv
        exact .inr ⟨rfl, rfl⟩
      · rw [List.getElem?_eq_none (by simp; omega)] at hv
        cases hv
    have hcount := h.counter
    refine ⟨fun k v hv => ?_, ?_, fun v hv => ?_, fun h0 => by simp at h0, fun v hv => ?_⟩
    · rcases hlast hv with hv | ⟨rfl, rfl⟩
      · exact h.seq k v hv
      · rw [r.seq, hcount]
    · rw [r.next, List.length_append, List.length_singleton]
      omega
    · rcases List.mem_append.mp hv with hv | hv
      · exact h.data v hv
      · rw [List.mem_singleton.mp hv]
        exact ⟨r.nonempty, r.fits⟩
    · rcases hlast hv with hv | ⟨hk, rfl⟩
      · exact h.key v hv
      · exact r.gate (h.gate (List.length_eq_zero_iff.mp hk.symm))

/-- What arrives leaves the sender's side as it is. -/
theorem Numbered.arrival (h : Numbered s) (arrived : List Arrival) (receiver : Depacketizer) :
    Numbered { s with arrived := arrived, receiver := receiver } :=
  ⟨h.seq, h.counter, h.data, h.gate, h.key⟩

theorem Numbered.step (h : Numbered s) {l : Label} (hg : StartsFresh s l) (hstep : next s l = some s') :
    Numbered s' := by
  cases l with
  | sender e =>
    simp only [next, Option.some.injEq] at hstep
    subst hstep
    exact h.sender hg
  | packet k i now =>
    simp only [next] at hstep
    split at hstep
    · cases hstep
    split at hstep
    · cases hstep
    · cases hstep
      exact h.arrival _ _
  | tick now =>
    simp only [next] at hstep
    split at hstep
    · cases hstep
    · cases hstep
      exact h.arrival _ _

/-- A packet step: the depacketizer keeps up, and the packet is not stale. -/
theorem Followed.packet (h : Followed s) {k i : Nat} {now : Int}
    (hg : Orderly s (.packet k i now)) (hstep : next s (.packet k i now) = some s') :
    (∃ m, Caught s' m) ∧ ¬ s.Stale k i now := by
  obtain ⟨m, hm⟩ := h.caught
  simp only [next] at hstep
  split at hstep
  · cases hstep
  rename_i b hb
  split at hstep
  · cases hstep
  rename_i hok
  cases hstep
  rw [not_or] at hok
  obtain ⟨u, hu, hbu⟩ := Option.bind_eq_some_iff.mp hb
  have hdata : ∀ {j : Nat} {v : Handed}, s.handed[j]? = some v →
      v.data ≠ [] ∧ v.data.length ≤ DC_MAX_AU_BYTES := fun hv => h.data _ (List.mem_of_getElem? hv)
  obtain ⟨hne, hfits⟩ := hdata hu
  have hk := hm.turn hu (sendAccessUnit_get hbu).1 hok.1 hg.1 fun v hv => (hdata hv).1
  subst hk
  obtain ⟨hfresh, hnext⟩ := hm.packet hu hne hfits (h.seq k u hu) (fun h0 => h.key u (by rw [← h0, hu]))
    hb hok.1 (by omega) hg.2 rfl
  refine ⟨?_, hfresh⟩
  rcases hnext with hnext | hnext
  · exact ⟨k, hnext⟩
  · exact ⟨k + 1, hnext⟩

theorem numbered_inductive (config : Config) : ((link config).guarded StartsFresh).Inductive Numbered where
  init s hs := by
    rw [show s = { sender := create config } from hs]
    exact numbered_start config
  step s l s' h hstep := h.step hstep.2 hstep.1

theorem Orderly.startsFresh {l : Label} (h : Orderly s l) : StartsFresh s l := by
  cases l with
  | sender e => exact h
  | packet k i now => trivial
  | tick now => trivial

theorem followed_inductive (config : Config) : ((link config).guarded Orderly).Inductive Followed where
  init s hs := by
    rw [show s = { sender := create config } from hs]
    exact followed_start config
  step s l s' h hstep := by
    obtain ⟨hstep, hg⟩ := hstep
    refine ⟨h.step hg.startsFresh hstep, ?_⟩
    cases l with
    | sender e =>
      simp only [link, next, Option.some.injEq] at hstep
      subst hstep
      obtain ⟨m, hm⟩ := h.caught
      exact ⟨m, hm.handed _ _⟩
    | packet k i now => exact (h.packet hg hstep).1
    | tick now =>
      simp only [link, next] at hstep
      split at hstep
      · cases hstep
      · cases hstep
        obtain ⟨m, hm⟩ := h.caught
        exact ⟨m, hm.tick hg⟩

theorem Numbered.consecutive (h : Numbered s) : Consecutive s.handed := by
  unfold Consecutive
  rw [List.isChain_iff_getElem]
  intro k hk
  have h1 := h.seq k _ (List.getElem?_eq_getElem (by omega))
  have h2 := h.seq (k + 1) _ (List.getElem?_eq_getElem hk)
  omega

end Invariant

/-- **Numbered without a gap.** In every run whose starts find the counter where it
began the access units carry consecutive numbers modulo 2^16; if the packets are
orderly too, none that arrives is found stale. -/
theorem numbered_without_gap (config : Config) (s : Link)
    (h : ((link config).guarded StartsFresh).Reachable s) :
    Consecutive s.handed ∧ (((link config).guarded Orderly).Reachable s →
      ∀ k i now s', Orderly s (.packet k i now) → (link config).step s (.packet k i now) s' →
        ¬ s.Stale k i now) := by
  refine ⟨((numbered_inductive config).reachable s h).consecutive, ?_⟩
  intro horderly k i now s' hg hstep
  exact (((followed_inductive config).reachable s horderly).packet hg hstep).2

/-! ## A restart -/

/-- An orderly run, step by step. -/
def play (s : Link) : List Label → Option Link
  | [] => some s
  | l :: ls => if Orderly s l then (next s l).bind fun t => play t ls else none

theorem play_run (config : Config) : ∀ {ls : List Label} {s s' : Link}, play s ls = some s' →
    ((link config).guarded Orderly).Run s ls s'
  | [], s, s', h => by
    cases h
    exact .nil s
  | l :: ls, s, s', h => by
    unfold play at h
    split at h
    · rename_i hl
      obtain ⟨t, ht, h⟩ := Option.bind_eq_some_iff.mp h
      exact .cons ⟨ht, hl⟩ (play_run config h)
    · cases h

/-- An orderly run to the state it leads to, `s` itself if it is not one. -/
def after (s : Link) (ls : List Label) : Link := (play s ls).getD s

theorem after_run (config : Config) {s : Link} {ls : List Label} (h : (play s ls).isSome = true) :
    ((link config).guarded Orderly).Run s ls (after s ls) := by
  obtain ⟨t, ht⟩ := Option.isSome_iff_exists.mp h
  have hafter : after s ls = t := by
    unfold after
    rw [ht, Option.getD_some]
  rw [hafter]
  exact play_run config ht

def camera : Config where
  width := 1280
  height := 720
  bitrateBps := 2500000

def setup : Setup where
  width := 1280
  height := 720
  configures := true
  reader := true

def keyUnits : List Bytes := [[0x67, 1], [0x68, 2], [0x65, 3]]

def keyChunk (timestamp : ℚ) : Chunk where
  key := true
  timestamp := .finite timestamp
  bytes := annexB keyUnits
  description := none

def deltaChunk (timestamp : ℚ) : Chunk where
  key := false
  timestamp := .finite timestamp
  bytes := annexB [[0x41, 4]]
  description := none

def opened : Link := { sender := create camera }

/-- The connection comes up, and two access units are handed on. -/
def firstConnection : List Label :=
  [.sender (.channel .open), .sender (.connected (some 0) setup),
   .sender (.encoded 1 (keyChunk 0) fun _ => true), .packet 0 0 1000,
   .sender (.encoded 1 (deltaChunk 33333) fun _ => true)]

/-- The second of them arrives. -/
def beforeRestart : Link := after (after opened firstConnection) [.packet 1 0 34000]

/-- The connection comes up again. -/
def restarted : Link :=
  { beforeRestart with sender := (onEvent beforeRestart.sender (.connected (some 0) setup)).1 }

/-- The old reader is cancelled, and the new encoder puts out a keyframe. -/
def secondConnection : List Label :=
  [.sender (.cancelled 0 setup), .sender (.encoded 2 (keyChunk 66666) fun _ => true)]

theorem numbered_without_gap_first : Consecutive (after opened firstConnection).handed ∧
    ¬ (after opened firstConnection).Stale 1 0 34000 := by
  have hrun : ((link camera).guarded Orderly).Run opened firstConnection (after opened firstConnection) :=
    after_run camera (by decide)
  obtain ⟨hconsecutive, hfresh⟩ := numbered_without_gap camera (after opened firstConnection)
    ⟨opened, firstConnection, rfl, hrun.guard fun _ _ => Orderly.startsFresh⟩
  have hnext : (next (after opened firstConnection) (.packet 1 0 34000)).isSome = true := by decide
  exact ⟨hconsecutive, hfresh ⟨opened, firstConnection, rfl, hrun⟩ 1 0 34000 _ (by decide)
    (Option.some_get hnext).symm⟩

/-- **A restart on the same channel.** The connection leaves `connected` and
comes back: `start` sets the counter to zero while the cursor is at 2. The
keyframe that follows has number 0; its only packet arrives after all earlier
ones, and is stale. -/
theorem restart_stale :
    ((link camera).guarded Orderly).Run opened (firstConnection ++ [.packet 1 0 34000]) beforeRestart ∧
    (link camera).step beforeRestart (.sender (.connected (some 0) setup)) restarted ∧
    ((link camera).guarded Orderly).Run restarted secondConnection (after restarted secondConnection) ∧
    ¬ Consecutive (after restarted secondConnection).handed ∧
    (∃ u ∈ (after restarted secondConnection).handed[2]?, u.keyframe = true ∧ chunkCount u.data = 1 ∧
      splitAnnexB u.data = some ([9, 0xf0] :: keyUnits)) ∧
    Orderly (after restarted secondConnection) (.packet 2 0 67000) ∧
    (next (after restarted secondConnection) (.packet 2 0 67000)).isSome = true ∧
    (after restarted secondConnection).Stale 2 0 67000 := by
  have hseq : (after restarted secondConnection).handed.map Handed.seq = [0, 1, 0] := by decide
  have hrun := (@after_run camera opened firstConnection (by decide)).append
    (@after_run camera (after opened firstConnection) [.packet 1 0 34000] (by decide))
  refine ⟨hrun, rfl, after_run camera (by decide), fun hc => ?_, by decide, by decide, by decide,
    by decide⟩
  have hmap : [0, 1, 0].IsChain fun a b : Nat => b = (a + 1) % 65536 := by
    rw [← hseq, List.isChain_map]
    exact hc
  revert hmap
  decide

end KmVirtualCamera.L5.VideoChannel
