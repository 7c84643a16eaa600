import Mathlib
import KmVirtualCamera.Core.LTS

/-!
# The camera extension's frame relay (`KMFrameRelay`)

The relay consumes images from one authorised producer and sends one picture a
tick to the source stream: the latest image while it is at most a second old,
else standby black. Its methods run on one serial queue. A consume is answered
by a completion handler that posts a block to this queue, so answers come back
in any order and any time later.

`World` is the relay with what is under way around it: the consumes that are
not answered yet, the answers so far and the frames sent so far. `epoch` counts
the changes of the generation without the wrap at 2^64. The `consumeOne` that a
block posts when there is more is a `consumeOne` of the run like any other.

## Hypotheses

`World.Fresh`, on every state of a run: no consume is left unanswered while the
generation changes 2^64 times. Under it everything shown comes from the producer
authorised now (`safe`); without it an answer can outlive its generation
(`stale_shown`).
-/
namespace KmVirtualCamera.L5.FrameRelay

/-- An image buffer; `serial` tells two buffers of one format apart. -/
structure PixelBuffer where
  serial : Nat
  width : Nat
  height : Nat
  format : UInt32
  deriving DecidableEq

/-- `'420v'` -/
def k420YpCbCr8BiPlanarVideoRange : UInt32 := 0x34323076

/-- The counters that only the log reads are left out.
mirrors macos/camera-extension/frame_relay.mm:6-18 -/
structure Relay (Client : Type) where
  producer : Option Client := none
  latest : Option PixelBuffer := none
  generation : UInt64 := 1
  arrival : Nat := 0
  sequence : UInt64 := 0
  notified : UInt64 := 0
  errorStreak : Nat := 0
  consuming : Bool := false
  active : Bool := false
  haveNotified : Bool := false
  lastOutput : Option Nat := none
  discontinuity : UInt32 := 0

/-- A call of `consumeSampleBufferFromClient` with the generation its handler
keeps. -/
structure Request (Client : Type) where
  client : Client
  generation : UInt64

/-- What the handler is called with, and the host clock at that time. -/
structure Completion where
  image : Option PixelBuffer
  sequence : UInt64
  discontinuity : UInt32
  hasMore : Bool
  error : Bool
  ns : Int
  deriving DecidableEq

/-- A frame handed to the source stream; no picture is standby black. -/
structure Sent where
  picture : Option PixelBuffer
  hostTime : Nat
  discontinuity : UInt32

variable {Client : Type}

/-- mirrors macos/camera-extension/frame_relay.mm:31-36 -/
def setAuthorizedProducer (r : Relay Client) (client : Option Client) : Relay Client :=
  { r with generation := r.generation + 1, producer := client, latest := none, arrival := 0,
           haveNotified := false, consuming := false, errorStreak := 0, discontinuity := 0 }

/-- mirrors macos/camera-extension/frame_relay.mm:40 -/
def setSourceActive (r : Relay Client) (active : Bool) : Relay Client := { r with active := active }

/-- mirrors macos/camera-extension/frame_relay.mm:41-46 -/
def consumeOne (r : Relay Client) : Relay Client × Option (Request Client) :=
  match r.producer with
  | none => (r, none)
  | some p =>
    if r.consuming then (r, none) else ({ r with consuming := true }, some ⟨p, r.generation⟩)

/-- mirrors macos/camera-extension/frame_relay.mm:82-84 -/
def usable (i : PixelBuffer) : Bool :=
  i.width == 1280 && i.height == 720 && i.format == k420YpCbCr8BiPlanarVideoRange

/-- The image of an answer without an error.
mirrors macos/camera-extension/frame_relay.mm:82-87 -/
def keep (r : Relay Client) (c : Completion) : Relay Client :=
  match c.image with
  | none => r
  | some i =>
    if 0 ≤ c.ns ∧ usable i then
      { r with latest := some i, arrival := c.ns.toNat, sequence := c.sequence,
               discontinuity := c.discontinuity }
    else r

/-- The block a handler posts, and whether it posts another `consumeOne`.
mirrors macos/camera-extension/frame_relay.mm:54-90 -/
def completed (r : Relay Client) (generation : UInt64) (c : Completion) : Relay Client × Bool :=
  if r.generation ≠ generation then (r, false)
  else
    let r := { r with consuming := false }
    if c.error then
      let r := { r with errorStreak := r.errorStreak + 1 }
      (if r.errorStreak ≥ 10 then setAuthorizedProducer r none else r, false)
    else (keep { r with errorStreak := 0 } c, c.hasMore)

/-- The latest image, at most a second old. -/
def live (r : Relay Client) (nowNs : Nat) : Bool :=
  r.latest.isSome && decide (r.arrival ≤ nowNs) && decide (nowNs - r.arrival ≤ 1000000000)

/-- The rest of a tick, behind its `consumeOne`; `created` is whether the sample
buffer could be made. The last part is the scheduled output that the sink is told.
mirrors macos/camera-extension/frame_relay.mm:96-117 -/
def output (r : Relay Client) (nowNs : Nat) (created : Bool) :
    Relay Client × Option Sent × Option (UInt64 × Nat) :=
  if nowNs > 2 ^ 63 - 1 then (r, none, none)
  else
    let alive := live r nowNs
    let picture := if alive then r.latest else none
    let r := if alive then r else { r with latest := none }
    if r.active = false ∨ (∃ t ∈ r.lastOutput, nowNs ≤ t) ∨ created = false then (r, none, none)
    else
      let sent := ⟨picture, nowNs, r.discontinuity⟩
      let r := { r with lastOutput := some nowNs, discontinuity := 0 }
      if alive && (!r.haveNotified || r.notified != r.sequence) then
        ({ r with notified := r.sequence, haveNotified := true }, some sent, some (r.sequence, nowNs))
      else (r, some sent, none)

/-- mirrors macos/camera-extension/frame_relay.mm:93-124 -/
def tickAtHostTimeNs (r : Relay Client) (nowNs : Nat) (created : Bool) :
    (Relay Client × Option Sent × Option (UInt64 × Nat)) × Option (Request Client) :=
  (output (consumeOne r).1 nowNs created, (consumeOne r).2)

/-- mirrors macos/camera-extension/frame_relay.mm:125-127 -/
def stop (r : Relay Client) : Relay Client :=
  { r with generation := r.generation + 1, producer := none, latest := none, consuming := false,
           active := false }

/-! ## The relay among its consumes -/

/-- A consume and the epoch it was issued in. -/
structure Call (Client : Type) where
  client : Client
  generation : UInt64
  epoch : Nat
  deriving DecidableEq

structure World (Client : Type) where
  relay : Relay Client := {}
  epoch : Nat := 0
  outstanding : List (Call Client) := []
  delivered : List (Call Client × Completion) := []
  sent : List Sent := []

inductive Label (Client : Type) where
  | setAuthorizedProducer (client : Option Client)
  | setSourceActive (active : Bool)
  | consumeOne
  | completed (call : Call Client) (c : Completion)
  | tick (nowNs : Nat) (created : Bool)
  | stop

namespace World

def called (w : World Client) (q : Request Client) : Call Client := ⟨q.client, q.generation, w.epoch⟩

/-- A method has left the relay as `r` and issued `q`. -/
def put (w : World Client) (r : Relay Client) (q : Option (Request Client)) : World Client :=
  { w with relay := r,
           epoch := if r.generation = w.relay.generation then w.epoch else w.epoch + 1,
           outstanding := w.outstanding ++ (q.map w.called).toList }

/-- No consume is as many as 2^64 generations old. -/
def Fresh (w : World Client) : Prop := ∀ c ∈ w.outstanding, w.epoch < c.epoch + 2 ^ 64

instance (w : World Client) : Decidable w.Fresh :=
  inferInstanceAs (Decidable (∀ c ∈ w.outstanding, w.epoch < c.epoch + 2 ^ 64))

/-- The image was brought at `t` by a consume from the producer authorised now,
issued under the generation that is current now. -/
def FromProducer (w : World Client) (i : PixelBuffer) (t : Nat) : Prop :=
  ∃ call c, (call, c) ∈ w.delivered ∧ c.image = some i ∧ c.ns = t ∧
    w.relay.producer = some call.client ∧ call.generation = w.relay.generation ∧ call.epoch = w.epoch

end World

def next [DecidableEq Client] (w : World Client) : Label Client → Option (World Client)
  | .setAuthorizedProducer client => some (w.put (setAuthorizedProducer w.relay client) none)
  | .setSourceActive active => some (w.put (setSourceActive w.relay active) none)
  | .consumeOne => some (w.put (consumeOne w.relay).1 (consumeOne w.relay).2)
  | .completed call c =>
    if call ∈ w.outstanding then
      some { w.put (completed w.relay call.generation c).1 none with
        outstanding := w.outstanding.erase call, delivered := w.delivered ++ [(call, c)] }
    else none
  | .tick nowNs created =>
    let t := tickAtHostTimeNs w.relay nowNs created
    some { w.put t.1.1 t.2 with sent := w.sent ++ t.1.2.1.toList }
  | .stop => some (w.put (stop w.relay) none)

theorem next_completed [DecidableEq Client] {w : World Client} {call : Call Client}
    (h : call ∈ w.outstanding) (c : Completion) : next w (.completed call c) =
      some { w.put (completed w.relay call.generation c).1 none with
        outstanding := w.outstanding.erase call, delivered := w.delivered ++ [(call, c)] } :=
  if_pos h

def relaying (Client : Type) [DecidableEq Client] : LTS (World Client) (Label Client) where
  init w := w = {}
  step w l w' := next w l = some w'

/-! ## What the methods do -/

/-- The relay waits for the same answer from the same producer, and shows no
image it did not hold. -/
structure Quiet (r r' : Relay Client) : Prop where
  generation : r'.generation = r.generation
  producer : r'.producer = r.producer
  consuming : r'.consuming = r.consuming
  latest : r'.latest = none ∨ r'.latest = r.latest ∧ r'.arrival = r.arrival

/-- What a frame sent at `nowNs` is. -/
structure Shown (r : Relay Client) (nowNs : Nat) (s : Sent) : Prop where
  hostTime : s.hostTime = nowNs
  later : ∀ t ∈ r.lastOutput, t < nowNs
  picture : ∀ i, s.picture = some i →
    r.latest = some i ∧ r.arrival ≤ nowNs ∧ nowNs ≤ r.arrival + 1000000000

theorem live_spec {r : Relay Client} {nowNs : Nat} (h : live r nowNs = true) :
    r.arrival ≤ nowNs ∧ nowNs ≤ r.arrival + 1000000000 := by
  simp only [live, Bool.and_eq_true, decide_eq_true_eq] at h
  omega

theorem consumeOne_cases (r : Relay Client) :
    consumeOne r = (r, none) ∨
    ∃ p, r.producer = some p ∧ r.consuming = false ∧
      consumeOne r = ({ r with consuming := true }, some ⟨p, r.generation⟩) := by
  unfold consumeOne
  cases hp : r.producer with
  | none => exact .inl rfl
  | some p =>
    cases hc : r.consuming with
    | true => exact .inl rfl
    | false => exact .inr ⟨p, rfl, rfl, by simp⟩

/-- A tick sends a frame or it does not; either way it is quiet. -/
theorem output_cases (r : Relay Client) (nowNs : Nat) (created : Bool) :
    Quiet r (output r nowNs created).1 ∧
    (((output r nowNs created).2.1 = none ∧
        (output r nowNs created).1.lastOutput = r.lastOutput) ∨
      ∃ s, (output r nowNs created).2.1 = some s ∧ Shown r nowNs s ∧
        (output r nowNs created).1.lastOutput = some nowNs) := by
  unfold output
  by_cases hmax : nowNs > 2 ^ 63 - 1
  · rw [if_pos hmax]
    exact ⟨⟨rfl, rfl, rfl, .inr ⟨rfl, rfl⟩⟩, .inl ⟨rfl, rfl⟩⟩
  rw [if_neg hmax]
  cases halive : live r nowNs with
  | true =>
    have hlive := live_spec halive
    simp only [if_true, Bool.true_and]
    by_cases hstop : r.active = false ∨ (∃ t ∈ r.lastOutput, nowNs ≤ t) ∨ created = false
    · rw [if_pos hstop]
      exact ⟨⟨rfl, rfl, rfl, .inr ⟨rfl, rfl⟩⟩, .inl ⟨rfl, rfl⟩⟩
    rw [if_neg hstop]
    push Not at hstop
    have hshown : Shown r nowNs ⟨r.latest, nowNs, r.discontinuity⟩ :=
      ⟨rfl, hstop.2.1, fun i hi => ⟨hi, hlive⟩⟩
    split
    · exact ⟨⟨rfl, rfl, rfl, .inr ⟨rfl, rfl⟩⟩, .inr ⟨_, rfl, hshown, rfl⟩⟩
    · exact ⟨⟨rfl, rfl, rfl, .inr ⟨rfl, rfl⟩⟩, .inr ⟨_, rfl, hshown, rfl⟩⟩
  | false =>
    simp only [Bool.false_eq_true, if_false, Bool.false_and]
    by_cases hstop : r.active = false ∨ (∃ t ∈ r.lastOutput, nowNs ≤ t) ∨ created = false
    · rw [if_pos hstop]
      exact ⟨⟨rfl, rfl, rfl, .inl rfl⟩, .inl ⟨rfl, rfl⟩⟩
    rw [if_neg hstop]
    push Not at hstop
    refine ⟨⟨rfl, rfl, rfl, .inl rfl⟩, .inr ⟨_, rfl, ⟨rfl, hstop.2.1, ?_⟩, rfl⟩⟩
    rintro i ⟨⟩

/-! ## The invariant -/

/-- What holds of the relay among its consumes. -/
structure Inv (w : World Client) : Prop where
  generation : w.relay.generation = UInt64.ofNat (w.epoch + 1)
  issued : ∀ c ∈ w.outstanding, c.generation = UInt64.ofNat (c.epoch + 1) ∧ c.epoch ≤ w.epoch
  current : ∀ c ∈ w.outstanding, c.epoch = w.epoch →
    w.relay.consuming = true ∧ w.relay.producer = some c.client
  once : (w.outstanding.filter (·.epoch = w.epoch)).length ≤ 1
  latest : ∀ i, w.relay.latest = some i → w.FromProducer i w.relay.arrival
  increasing : w.sent.Pairwise (·.hostTime < ·.hostTime)
  last : ∀ s ∈ w.sent, ∃ t ∈ w.relay.lastOutput, s.hostTime ≤ t

section Inv
variable {w : World Client}

theorem inv_init : Inv ({} : World Client) where
  generation := rfl
  issued := by simp
  current := by simp
  once := by simp
  latest := by simp
  increasing := by simp
  last := by simp

/-- Two epochs with one generation are 2^64 apart or the same. -/
theorem epoch_eq {e f : Nat} (h : UInt64.ofNat (e + 1) = UInt64.ofNat (f + 1)) (hle : e ≤ f)
    (hfresh : f < e + 2 ^ 64) : e = f := by
  have := congrArg UInt64.toNat h
  rw [UInt64.toNat_ofNat', UInt64.toNat_ofNat'] at this
  omega

theorem generation_succ_ne (g : UInt64) : g + 1 ≠ g := by
  intro h
  have := congrArg UInt64.toNat h
  rw [UInt64.toNat_add, UInt64.toNat_one] at this
  have := g.toNat_lt
  omega

/-- A change of the generation leaves every consume behind. -/
theorem Inv.bump (h : Inv w) {r : Relay Client} (hg : r.generation = w.relay.generation + 1)
    (hl : r.latest = none) (ho : r.lastOutput = w.relay.lastOutput) : Inv (w.put r none) := by
  have hne : r.generation ≠ w.relay.generation := by
    rw [hg]
    exact generation_succ_ne _
  have hepoch : (w.put r none).epoch = w.epoch + 1 := if_neg hne
  have hout : (w.put r none).outstanding = w.outstanding := by simp [World.put]
  have hold : ∀ c ∈ w.outstanding, c.epoch ≠ w.epoch + 1 := fun c hc => by
    have := (h.issued c hc).2
    omega
  refine ⟨?_, ?_, ?_, ?_, ?_, h.increasing, ?_⟩
  · rw [hepoch]
    simp only [World.put]
    rw [hg, h.generation, UInt64.ofNat_add (w.epoch + 1) 1]
    rfl
  · intro c hc
    rw [hout] at hc
    rw [hepoch]
    exact ⟨(h.issued c hc).1, Nat.le_succ_of_le (h.issued c hc).2⟩
  · intro c hc he
    rw [hout] at hc
    rw [hepoch] at he
    exact absurd he (hold c hc)
  · rw [hout, hepoch, List.filter_eq_nil_iff.mpr]
    · simp
    · simpa using hold
  · intro i hi
    rw [show (w.put r none).relay.latest = r.latest from rfl, hl] at hi
    cases hi
  · intro s hs
    rw [show (w.put r none).relay.lastOutput = r.lastOutput from rfl, ho]
    exact h.last s hs

/-- A quiet step that sends no frame, or one that is later than those before. -/
theorem Inv.quiet (h : Inv w) {r : Relay Client} (hq : Quiet w.relay r) (sent : List Sent)
    (hsent : sent = [] ∧ r.lastOutput = w.relay.lastOutput ∨
      ∃ s, sent = [s] ∧ (∀ t ∈ w.relay.lastOutput, t < s.hostTime) ∧
        r.lastOutput = some s.hostTime) :
    Inv { w.put r none with sent := w.sent ++ sent } := by
  have hepoch : (w.put r none).epoch = w.epoch := if_pos hq.generation
  have hout : (w.put r none).outstanding = w.outstanding := by simp [World.put]
  refine ⟨?_, ?_, ?_, ?_, ?_, ?_, ?_⟩
  · simp only [hepoch]
    exact hq.generation.trans h.generation
  · simp only [hepoch, hout]
    exact h.issued
  · simp only [hepoch, hout]
    intro c hc he
    have := h.current c hc he
    exact ⟨hq.consuming.trans this.1, hq.producer.trans this.2⟩
  · simp only [hepoch, hout]
    exact h.once
  · intro i hi
    have hi' : r.latest = some i := hi
    rcases hq.latest with hnone | ⟨hsame, harr⟩
    · rw [hnone] at hi'
      cases hi'
    · obtain ⟨call, c, hmem, hc, hns, hp, hg, he⟩ := h.latest i (hsame ▸ hi')
      exact ⟨call, c, hmem, hc, hns.trans (by rw [← harr]; rfl), hq.producer.trans hp,
        hg.trans hq.generation.symm, he.trans hepoch.symm⟩
  · rcases hsent with ⟨rfl, -⟩ | ⟨s, rfl, hlater, -⟩
    · simpa using h.increasing
    · refine List.pairwise_append.mpr ⟨h.increasing, List.pairwise_singleton _ _, ?_⟩
      intro a ha b hb
      rw [List.mem_singleton.mp hb]
      obtain ⟨t, ht, hle⟩ := h.last a ha
      exact Nat.lt_of_le_of_lt hle (hlater t ht)
  · rcases hsent with ⟨rfl, hlast⟩ | ⟨s, rfl, hlater, hlast⟩
    · intro a ha
      rw [List.append_nil] at ha
      rw [show ({ w.put r none with sent := w.sent ++ [] } : World Client).relay.lastOutput =
        r.lastOutput from rfl, hlast]
      exact h.last a ha
    · intro a ha
      refine ⟨s.hostTime, hlast, ?_⟩
      rcases List.mem_append.mp ha with ha | ha
      · obtain ⟨t, ht, hle⟩ := h.last a ha
        exact Nat.le_of_lt (Nat.lt_of_le_of_lt hle (hlater t ht))
      · rw [List.mem_singleton.mp ha]

theorem Inv.silent (h : Inv w) {r : Relay Client} (hq : Quiet w.relay r)
    (ho : r.lastOutput = w.relay.lastOutput) : Inv (w.put r none) := by
  have := h.quiet hq [] (.inl ⟨rfl, ho⟩)
  rw [List.append_nil] at this
  exact this

theorem consumeOne_generation (r : Relay Client) : (consumeOne r).1.generation = r.generation := by
  rcases consumeOne_cases r with h | ⟨p, -, -, h⟩ <;> rw [h]

/-- A consume is issued while none of the current epoch is under way. -/
theorem Inv.consume (h : Inv w) : Inv (w.put (consumeOne w.relay).1 (consumeOne w.relay).2) := by
  rcases consumeOne_cases w.relay with hnone | ⟨p, hp, hidle, hsome⟩
  · rw [hnone]
    exact h.silent ⟨rfl, rfl, rfl, .inr ⟨rfl, rfl⟩⟩ rfl
  rw [hsome]
  have hepoch : (w.put { w.relay with consuming := true } (some ⟨p, w.relay.generation⟩)).epoch =
    w.epoch := if_pos rfl
  have hnone : ∀ c ∈ w.outstanding, c.epoch ≠ w.epoch := fun c hc he => by
    have := (h.current c hc he).1
    rw [hidle] at this
    cases this
  refine ⟨?_, ?_, ?_, ?_, ?_, h.increasing, h.last⟩
  · rw [hepoch]
    exact h.generation
  · intro c hc
    rw [hepoch]
    rcases List.mem_append.mp hc with hc | hc
    · exact h.issued c hc
    · rw [List.mem_singleton.mp hc]
      exact ⟨h.generation, Nat.le_refl _⟩
  · intro c hc he
    rw [hepoch] at he
    rcases List.mem_append.mp hc with hc | hc
    · exact absurd he (hnone c hc)
    · rw [List.mem_singleton.mp hc]
      exact ⟨rfl, hp⟩
  · rw [hepoch]
    simp only [World.put, List.filter_append]
    rw [List.filter_eq_nil_iff.mpr (by simpa using hnone)]
    simp [World.called]
  · intro i hi
    obtain ⟨call, c, hmem, hc, hns, hprod, hg, he⟩ := h.latest i hi
    exact ⟨call, c, hmem, hc, hns, hprod, hg, he.trans hepoch.symm⟩

/-- The consume of a method is issued before the rest of it runs. -/
theorem put_put {r r' : Relay Client} (q : Option (Request Client))
    (hg : r.generation = w.relay.generation) (hg' : r'.generation = r.generation) :
    (w.put r q).put r' none = w.put r' q := by
  simp [World.put, hg, hg']

theorem Inv.tick (h : Inv w) (nowNs : Nat) (created : Bool) :
    Inv { w.put (tickAtHostTimeNs w.relay nowNs created).1.1 (tickAtHostTimeNs w.relay nowNs created).2
      with sent := w.sent ++ (tickAtHostTimeNs w.relay nowNs created).1.2.1.toList } := by
  obtain ⟨hquiet, hsent⟩ := output_cases (consumeOne w.relay).1 nowNs created
  have hc := h.consume
  simp only [tickAtHostTimeNs]
  rw [← put_put _ (consumeOne_generation w.relay) hquiet.generation]
  refine hc.quiet hquiet _ ?_
  rcases hsent with ⟨hnone, hlast⟩ | ⟨s, hsome, hshown, hlast⟩
  · rw [hnone]
    exact .inl ⟨rfl, hlast⟩
  · rw [hsome]
    refine .inr ⟨s, rfl, ?_, hlast.trans (by rw [hshown.hostTime])⟩
    rw [hshown.hostTime]
    exact hshown.later

/-- An answer has come and its consume is no longer waited for. -/
def World.settle [DecidableEq Client] (w : World Client) (call : Call Client) (c : Completion)
    (consuming : Bool) : World Client :=
  { w with relay := { w.relay with consuming := consuming },
           outstanding := w.outstanding.erase call, delivered := w.delivered ++ [(call, c)] }

theorem settle_put [DecidableEq Client] (call : Call Client) (c : Completion) (consuming : Bool)
    (r : Relay Client) : (w.settle call c consuming).put r none =
      { w.put r none with
        outstanding := w.outstanding.erase call, delivered := w.delivered ++ [(call, c)] } := by
  simp only [World.settle, World.put, Option.map_none, Option.toList_none, List.append_nil]
  rfl

/-- An answer to a consume of the current epoch takes the only one away; any
other leaves the flag as it is. -/
theorem Inv.settle [DecidableEq Client] (h : Inv w) {call : Call Client} (hmem : call ∈ w.outstanding)
    (c : Completion) (consuming : Bool)
    (hflag : consuming = w.relay.consuming ∨ call.epoch = w.epoch) :
    Inv (w.settle call c consuming) := by
  have hsub : ∀ d ∈ w.outstanding.erase call, d ∈ w.outstanding := fun d => List.mem_of_mem_erase
  refine ⟨h.generation, fun d hd => h.issued d (hsub d hd), ?_, ?_, ?_,
    h.increasing, h.last⟩
  · intro d hd he
    have hcur := h.current d (hsub d hd) he
    rcases hflag with hflag | hepoch
    · exact ⟨hflag.trans hcur.1, hcur.2⟩
    · -- there would be two consumes of this epoch
      have hperm := (List.perm_cons_erase hmem).filter (·.epoch = w.epoch)
      have hlen := hperm.length_eq
      have honce := h.once
      have hpos : 0 < ((w.outstanding.erase call).filter (·.epoch = w.epoch)).length :=
        List.length_pos_of_mem (List.mem_filter.mpr ⟨hd, decide_eq_true he⟩)
      rw [List.filter_cons_of_pos (by simpa using hepoch), List.length_cons] at hlen
      omega
  · exact Nat.le_trans ((List.erase_sublist.filter _).length_le) h.once
  · intro i hi
    obtain ⟨call', c', hmem', hrest⟩ := h.latest i hi
    exact ⟨call', c', List.mem_append_left _ hmem', hrest⟩

theorem keep_cases (r : Relay Client) (c : Completion) :
    keep r c = r ∨ ∃ i, c.image = some i ∧ 0 ≤ c.ns ∧
      keep r c = { r with latest := some i, arrival := c.ns.toNat, sequence := c.sequence,
                          discontinuity := c.discontinuity } := by
  unfold keep
  cases hi : c.image with
  | none => exact .inl rfl
  | some i =>
    by_cases hns : 0 ≤ c.ns ∧ usable i = true
    · exact .inr ⟨i, rfl, hns.1, if_pos hns⟩
    · exact .inl (if_neg hns)

/-- The image of an answer to a consume of the current epoch is the producer's. -/
theorem Inv.keep (h : Inv w) {call : Call Client} {c : Completion} (hmem : (call, c) ∈ w.delivered)
    (hp : w.relay.producer = some call.client) (hg : call.generation = w.relay.generation)
    (he : call.epoch = w.epoch) : Inv (w.put (keep { w.relay with errorStreak := 0 } c) none) := by
  rcases keep_cases { w.relay with errorStreak := 0 } c with hsame | ⟨i, hi, hns, hnew⟩
  · rw [hsame]
    exact h.silent ⟨rfl, rfl, rfl, .inr ⟨rfl, rfl⟩⟩ rfl
  rw [hnew]
  simp only [World.put, if_pos, Option.map_none, Option.toList_none, List.append_nil]
  refine ⟨h.generation, h.issued, h.current, h.once, ?_, h.increasing, h.last⟩
  intro j hj
  cases hj
  exact ⟨call, c, hmem, hi, (Int.toNat_of_nonneg hns).symm, hp, hg, he⟩

/-- **An answer.** One of an older generation changes nothing; one of the
current generation is of the current epoch. -/
theorem Inv.completed [DecidableEq Client] (h : Inv w) (hfresh : w.Fresh) {call : Call Client}
    (hmem : call ∈ w.outstanding) (c : Completion) :
    Inv { w.put (completed w.relay call.generation c).1 none with
      outstanding := w.outstanding.erase call, delivered := w.delivered ++ [(call, c)] } := by
  rw [FrameRelay.completed]
  by_cases hg : w.relay.generation = call.generation
  · obtain ⟨hissued, hle⟩ := h.issued call hmem
    have he : call.epoch = w.epoch :=
      epoch_eq (hissued.symm.trans (hg.symm.trans h.generation)) hle (hfresh call hmem)
    have hset := h.settle hmem c false (.inr he)
    have hp := (h.current call hmem he).2
    rw [if_neg (by simpa using hg)]
    cases herr : c.error with
    | true =>
      simp only [if_true]
      by_cases hten : w.relay.errorStreak + 1 ≥ 10
      · rw [if_pos hten]
        have := hset.bump (r := setAuthorizedProducer { w.relay with
          consuming := false, errorStreak := w.relay.errorStreak + 1 } none) rfl rfl rfl
        rwa [settle_put] at this
      · rw [if_neg hten]
        have := hset.silent (r := { w.relay with
          consuming := false, errorStreak := w.relay.errorStreak + 1 })
          ⟨rfl, rfl, rfl, .inr ⟨rfl, rfl⟩⟩ rfl
        rwa [settle_put] at this
    | false =>
      have hin : (call, c) ∈ (w.settle call c false).delivered := by simp [World.settle]
      have := hset.keep hin hp hg.symm he
      rwa [settle_put] at this
  · rw [if_pos hg]
    have := (h.settle hmem c w.relay.consuming (.inl rfl)).silent (r := w.relay)
      ⟨rfl, rfl, rfl, .inr ⟨rfl, rfl⟩⟩ rfl
    rwa [settle_put] at this

end Inv

theorem inv_next [DecidableEq Client] {w w' : World Client} {l : Label Client} (h : Inv w)
    (hfresh : w.Fresh) (hs : next w l = some w') : Inv w' := by
  cases l with
  | setAuthorizedProducer client =>
    cases hs
    exact h.bump rfl rfl rfl
  | setSourceActive active =>
    cases hs
    exact h.silent ⟨rfl, rfl, rfl, .inr ⟨rfl, rfl⟩⟩ rfl
  | consumeOne =>
    cases hs
    exact h.consume
  | completed call c =>
    simp only [next] at hs
    split at hs
    · cases hs
      exact h.completed hfresh ‹_› c
    · cases hs
  | tick nowNs created =>
    cases hs
    exact h.tick nowNs created
  | stop =>
    cases hs
    exact h.bump rfl rfl rfl

theorem inv_inductive (Client : Type) [DecidableEq Client] :
    ((relaying Client).guarded fun w _ => w.Fresh).Inductive Inv where
  init w h := by
    rw [h]
    exact inv_init
  step w l w' h hs := inv_next h hs.2 hs.1

/-! ## What is shown -/

structure Safe (w : World Client) : Prop where
  latest : ∀ i, w.relay.latest = some i → w.FromProducer i w.relay.arrival
  sends : ∀ nowNs created s i, (tickAtHostTimeNs w.relay nowNs created).1.2.1 = some s →
    s.picture = some i →
      ∃ t, w.FromProducer i t ∧ t ≤ s.hostTime ∧ s.hostTime ≤ t + 1000000000
  standby : ∀ nowNs created s, w.relay.producer = none →
    (tickAtHostTimeNs w.relay nowNs created).1.2.1 = some s → s.picture = none
  single : (w.outstanding.filter (·.generation = w.relay.generation)).length ≤ 1
  increasing : w.sent.Pairwise (·.hostTime < ·.hostTime)

/-- A tick that sends, sends what `Shown` says of the relay before it. -/
theorem tick_shown {r : Relay Client} {nowNs : Nat} {created : Bool} {s : Sent}
    (h : (tickAtHostTimeNs r nowNs created).1.2.1 = some s) : Shown r nowNs s := by
  have hsame : (consumeOne r).1.latest = r.latest ∧ (consumeOne r).1.arrival = r.arrival ∧
      (consumeOne r).1.lastOutput = r.lastOutput := by
    rcases consumeOne_cases r with hc | ⟨p, -, -, hc⟩ <;> rw [hc] <;> exact ⟨rfl, rfl, rfl⟩
  obtain ⟨-, ⟨hnone, -⟩ | ⟨s', hsome, hshown, -⟩⟩ := output_cases (consumeOne r).1 nowNs created
  · rw [tickAtHostTimeNs, hnone] at h
    cases h
  · rw [tickAtHostTimeNs, hsome] at h
    cases h
    obtain ⟨htime, hlater, hpicture⟩ := hshown
    rw [hsame.2.2] at hlater
    rw [hsame.1, hsame.2.1] at hpicture
    exact ⟨htime, hlater, hpicture⟩

/-- **What the relay holds and sends comes from the producer authorised now**,
for every run on which no consume is left behind for 2^64 generations. -/
theorem safe [DecidableEq Client] {w : World Client}
    (hr : ((relaying Client).guarded fun w _ => w.Fresh).Reachable w) (hf : w.Fresh) : Safe w := by
  have h := (inv_inductive Client).reachable w hr
  refine ⟨h.latest, ?_, ?_, ?_,
    h.increasing⟩
  · intro nowNs created s i hs hi
    have hshown := tick_shown hs
    obtain ⟨hlatest, hle, hage⟩ := hshown.picture i hi
    rw [hshown.hostTime]
    exact ⟨w.relay.arrival, h.latest i hlatest, hle, hage⟩
  · intro nowNs created s hp hs
    rw [Option.eq_none_iff_forall_not_mem]
    intro i hi
    obtain ⟨hlatest, -⟩ := (tick_shown hs).picture i hi
    obtain ⟨call, c, -, -, -, hprod, -⟩ := h.latest i hlatest
    rw [hp] at hprod
    cases hprod
  · have hsub : ∀ c ∈ w.outstanding, decide (c.generation = w.relay.generation) = true →
        decide (c.epoch = w.epoch) = true := by
      intro c hc hg
      obtain ⟨hissued, hle⟩ := h.issued c hc
      rw [decide_eq_true_eq] at hg ⊢
      exact epoch_eq (hissued.symm.trans (hg.trans h.generation)) hle (hf c hc)
    rw [← List.countP_eq_length_filter]
    exact Nat.le_trans (List.countP_mono_left hsub) (by
      rw [List.countP_eq_length_filter]
      exact h.once)

def picture : PixelBuffer := ⟨1, 1280, 720, k420YpCbCr8BiPlanarVideoRange⟩

def brought : Completion where
  image := some picture
  sequence := 1
  discontinuity := 0
  hasMore := true
  error := false
  ns := 5

/-- One image is consumed, and sent twice. -/
def twoTicks : List (Label Nat) :=
  [.setAuthorizedProducer (some 7), .setSourceActive true, .tick 3 true, .completed ⟨7, 2, 1⟩ brought,
    .tick 6 true, .tick 9 true]

theorem safe_twoTicks :
    let w := LTS.played next (fun w _ => World.Fresh w) {} twoTicks
    Safe w ∧ w.sent.map Sent.picture = [none, some picture, some picture] := by
  refine ⟨safe ⟨{}, twoTicks, rfl, LTS.played_run (fun _ _ _ h => h) (by decide)⟩ (by decide), ?_⟩
  decide

/-- Setting the same producer again and again only counts. -/
theorem changes_run (p : Nat) {w : World Nat} (h : setAuthorizedProducer w.relay (some p) =
      { w.relay with generation := w.relay.generation + 1 }) (n : Nat) :
    (relaying Nat).Run w (List.replicate n (.setAuthorizedProducer (some p)))
      { w with relay := { w.relay with generation := w.relay.generation + UInt64.ofNat n },
               epoch := w.epoch + n } := by
  induction n with
  | zero =>
    have hz : w.relay.generation + UInt64.ofNat 0 = w.relay.generation := by simp
    simp only [hz]
    exact .nil w
  | succ n ih =>
    rw [List.replicate_succ']
    refine ih.snoc ?_
    have hset : setAuthorizedProducer
        { w.relay with generation := w.relay.generation + UInt64.ofNat n } (some p) =
        { w.relay with generation := w.relay.generation + UInt64.ofNat n + 1 } := by
      have := congrArg (fun r : Relay Nat =>
        { r with generation := w.relay.generation + UInt64.ofNat n + 1 }) h
      exact this
    have hgen : w.relay.generation + UInt64.ofNat (n + 1) =
        w.relay.generation + UInt64.ofNat n + 1 := by
      rw [UInt64.ofNat_add, ← UInt64.add_assoc]
      rfl
    have hne := generation_succ_ne (w.relay.generation + UInt64.ofNat n)
    simp only [relaying, next, World.put, hset, hgen, if_neg hne, Option.map_none,
      Option.toList_none, List.append_nil, Nat.add_assoc]

/-- Client 1 is asked for an image, and client 2 is authorised in its place. -/
def replacement : List (Label Nat) :=
  [.setAuthorizedProducer (some 1), .consumeOne, .setAuthorizedProducer (some 2)]

def replaced : World Nat := LTS.played next (fun _ _ => True) {} replacement

theorem replaced_run : (relaying Nat).Run {} replacement replaced :=
  (LTS.played_run (fun _ _ _ h => h) (by decide)).of_guarded

/-- The same, 2^64 - 1 changes later. -/
def cameRound : World Nat :=
  { replaced with
    relay := { replaced.relay with generation := replaced.relay.generation + UInt64.ofNat (2 ^ 64 - 1) },
    epoch := replaced.epoch + (2 ^ 64 - 1) }

/-- 2^64 changes later the generation is the old one: the late answer of the
previous producer is taken for one of the producer authorised now. -/
theorem stale_shown : ¬∀ w, (relaying Nat).Reachable w → Safe w := by
  intro h
  have hmem : (⟨1, 2, 1⟩ : Call Nat) ∈ cameRound.outstanding := by decide
  have hcurrent : cameRound.relay.generation = 2 := by decide
  have hrun := (replaced_run.append (changes_run 2 (w := replaced) rfl (2 ^ 64 - 1))).snoc
    (next_completed hmem brought)
  have hlatest : (completed cameRound.relay 2 brought).1.latest = some picture := by
    rw [completed, if_neg (by simpa using hcurrent)]
    rfl
  obtain ⟨call, c, hdelivered, -, -, hp, -⟩ := (h _ ⟨{}, _, rfl, hrun⟩).latest picture hlatest
  have hcall : call = ⟨1, 2, 1⟩ := (Prod.mk.inj (List.mem_singleton.mp hdelivered)).1
  have hproducer : (completed cameRound.relay 2 brought).1.producer = some 2 := by
    rw [completed, if_neg (by simpa using hcurrent)]
    rfl
  rw [hcall] at hp
  cases hproducer.symm.trans hp

end KmVirtualCamera.L5.FrameRelay
