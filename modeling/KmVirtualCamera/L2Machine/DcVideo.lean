import Mathlib
import KmVirtualCamera.Core.LTS
import KmVirtualCamera.Core.OrdMap
import KmVirtualCamera.L1Encoding.DcWire

/-!
# The DataChannel video depacketizer (`DcVideoDepacketizer`)

Reassembles access units from unordered packets. Pending frames sit in a map
keyed by the 16-bit frame sequence; `expected_` is the cursor of the next
frame to hand on, `waiting_` says that only a keyframe may be handed on.

Every method is a function from the state and a `Batch` of effects to the
same. The source collects the effects of one call in its own `Batch` and
dispatches them (controls, then frames) after releasing the mutex; callbacks
do not re-enter, so the generation test of `dispatch` never fails and the
batch is what the callbacks see. Times are `Int`: callers supply nonnegative
microseconds, and negative ones are refused at the door.

A batch entry carries three things the callback does not get, for statements
about runs only: the key the frame was pending under, the frame itself and
the list of NAL units that `assemble` appended. `Batch.overflow` records the
branch that drops everything pending.

`drainIter` is one turn of the `while` loop of `drain`. The loop runs at most
`2 * |pending| + 1` turns, which is the fuel it is given; `drainLoop_done`
says the fuel is never what stops it.
-/
namespace KmVirtualCamera.L2.DcVideo
open KmVirtualCamera.L1.H264 KmVirtualCamera.L1.DcWire

def kMaxPendingFrames : Nat := 32
def kMaxPendingBytes : Nat := 2 * 1024 * 1024

/-- Signed distance of two sequence numbers on the 16-bit circle.
mirrors shared/receiver/codec/dc_video_depacketizer.cpp:15 -/
def delta (a b : UInt16) : Int :=
  if (a - b).toNat < 32768 then (a - b).toNat else (a - b).toNat - 65536

@[simp] theorem delta_self (a : UInt16) : delta a a = 0 := by
  unfold delta
  rw [UInt16.sub_self]
  decide

/-- `uint16_t` keys in numeric order. -/
scoped instance linearOrderUInt16 : LinearOrder UInt16 where
  le_refl a := UInt16.le_refl a
  le_trans _ _ _ h₁ h₂ := UInt16.le_trans h₁ h₂
  le_antisymm _ _ h₁ h₂ := UInt16.le_antisymm h₁ h₂
  le_total a b := UInt16.le_total a b
  lt_iff_le_not_ge a b := by
    simp only [UInt16.lt_iff_toNat_lt, UInt16.le_iff_toNat_le]; omega
  toDecidableLE := inferInstance
  toDecidableEq := inferInstance
  toDecidableLT := inferInstance

/-- mirrors shared/receiver/codec/dc_video_depacketizer.h:33-39 -/
structure Frame where
  timestamp : UInt32
  count : UInt8
  stableFlags : UInt8
  received : Nat := 0
  bytes : Nat := 0
  arrival : Int
  chunks : List Bytes
  deriving DecidableEq

inductive Control where
  | pli
  | bitrate (bps : UInt32)
  deriving DecidableEq

/-- mirrors shared/receiver/codec/dc_video_depacketizer.cpp:46-47 -/
def Control.text : Control → String
  | .pli => "\x7b\"type\":\"pli\"\x7d"
  | .bitrate bps => "\x7b\"type\":\"bitrate\",\"bps\":" ++ toString bps.toNat ++ "\x7d"

structure Output where
  data : Bytes
  timestamp : UInt32
  deriving DecidableEq

/-- One entry of `Batch::frames`; the callback gets `out` only. -/
structure Emission where
  seq : UInt16
  frame : Frame
  nalus : List Bytes
  out : Output
  deriving DecidableEq

structure Batch where
  frames : List Emission := []
  controls : List Control := []
  overflow : Bool := false
  deriving DecidableEq

/-- mirrors shared/receiver/codec/dc_video_depacketizer.h:53-63 -/
structure Depacketizer where
  pending : OrdMap UInt16 Frame := .empty
  bytes : Nat := 0
  expected : UInt16 := 0
  initialized : Bool := false
  waiting : Bool := true
  lastPli : Int := -1
  lastIncrease : Int := -1
  sps : Bytes := []
  pps : Bytes := []
  bitrate : UInt32 := 3000000
  frames : UInt64 := 0
  generation : UInt64 := 1

/-- mirrors shared/receiver/codec/dc_video_depacketizer.cpp:19-23 -/
def reset (s : Depacketizer) : Depacketizer :=
  { generation := s.generation + 1 }

/-- mirrors shared/receiver/codec/dc_video_depacketizer.cpp:39 -/
def erase (s : Depacketizer) (key : UInt16) (f : Frame) : Depacketizer :=
  { s with bytes := s.bytes - f.bytes, pending := s.pending.erase key }

/-- mirrors shared/receiver/codec/dc_video_depacketizer.cpp:40-48 -/
def recover (now : Int) (s : Depacketizer) (b : Batch) : Depacketizer × Batch :=
  if s.lastPli < 0 ∨ now - s.lastPli ≥ 50000 then
    ({ s with waiting := true, lastPli := now, lastIncrease := now,
              bitrate := max 2000000 (s.bitrate * 85 / 100) },
     { b with controls := b.controls ++ [.pli, .bitrate (max 2000000 (s.bitrate * 85 / 100))] })
  else ({ s with waiting := true }, b)

/-! ## assemble -/

/-- The chunks joined in index order. -/
def Frame.raw (f : Frame) : Bytes := f.chunks.flatten

/-- What the first loop of `assemble` collects. -/
structure Scan where
  idr : Bool := false
  sps : Bytes := []
  pps : Bytes := []

/-- mirrors shared/receiver/codec/dc_video_depacketizer.cpp:104-109 -/
def Scan.see (c : Scan) (n : Bytes) : Scan :=
  if naluType n = 5 then { c with idr := true }
  else if naluType n = 7 then { c with sps := n }
  else if naluType n = 8 then { c with pps := n }
  else c

def scan (ns : List Bytes) : Scan := ns.foldl Scan.see {}

/-- Annex-B if it reads as Annex-B, else length-prefixed.
mirrors shared/receiver/codec/dc_video_depacketizer.cpp:101 -/
def splitAccessUnit (raw : Bytes) : Option (List Bytes) :=
  match splitAnnexB raw with
  | some ns => some ns
  | none => splitLengthPrefixed4 raw

/-- The units of the last loop of `assemble` that are not skipped.
mirrors shared/receiver/codec/dc_video_depacketizer.cpp:121-125 -/
def keptNalus (idr : Bool) (ns : List Bytes) : List Bytes :=
  ns.filter fun n => !(naluType n == 9 || (idr && (naluType n == 7 || naluType n == 8)))

/-- The access-unit delimiter put in front of every output, without its start code. -/
def aud : Bytes := [9, 0xf0]

/-- The units an output is made of, in order. -/
def outNalus (idr : Bool) (sps pps : Bytes) (ns : List Bytes) : List Bytes :=
  aud :: (if idr then [sps, pps] else []) ++ keptNalus idr ns

/-- The last part of `assemble`: the output bytes.
mirrors shared/receiver/codec/dc_video_depacketizer.cpp:119-126 -/
def outData (idr : Bool) (sps pps : Bytes) (ns : List Bytes) : Bytes :=
  let data := [0, 0, 0, 1, 9, 0xf0]
  let data := if idr then appendAnnexB (appendAnnexB data sps) pps else data
  (keptNalus idr ns).foldl appendAnnexB data

/-- The parameter sets after the pair rule: a new SPS is never combined with
an old PPS. `none`: only one of the two came, both caches are cleared.
mirrors shared/receiver/codec/dc_video_depacketizer.cpp:111-115 -/
def nextSets (s : Depacketizer) (c : Scan) : Option (Bytes × Bytes) :=
  if c.sps ≠ [] ∨ c.pps ≠ [] then
    if c.sps = [] ∨ c.pps = [] then none else some (c.sps, c.pps)
  else some (s.sps, s.pps)

/-- mirrors shared/receiver/codec/dc_video_depacketizer.cpp:96-128 -/
def assemble (s : Depacketizer) (f : Frame) : Depacketizer × Option (List Bytes × Output) :=
  match splitAccessUnit f.raw with
  | none => (s, none)
  | some ns =>
    let c := scan ns
    match nextSets s c with
    | none => ({ s with sps := [], pps := [] }, none)
    | some (sps, pps) =>
      let s := { s with sps := sps, pps := pps }
      if f.stableFlags &&& 1 ≠ 0 ∧ c.idr = false then (s, none)
      else if s.waiting = true ∧ c.idr = false then (s, none)
      else if c.idr = true ∧ (sps = [] ∨ pps = []) then (s, none)
      else
        ({ s with waiting := if c.idr then false else s.waiting },
         some (outNalus c.idr sps pps ns, ⟨outData c.idr sps pps ns, f.timestamp⟩))

/-! ## drain -/

/-- One turn of the expiry loop.
mirrors shared/receiver/codec/dc_video_depacketizer.cpp:131-134 -/
def expireOne (now : Int) (c : Depacketizer × Batch) (e : UInt16 × Frame) : Depacketizer × Batch :=
  if now ≥ e.2.arrival ∧ now - e.2.arrival ≥ 60000 then
    if c.1.initialized = false ∨ delta e.1 c.1.expected ≥ 0 then recover now (erase c.1 e.1 e.2) c.2
    else (erase c.1 e.1 e.2, c.2)
  else c

/-- mirrors shared/receiver/codec/dc_video_depacketizer.cpp:130-135 -/
def expire (now : Int) (s : Depacketizer) (b : Batch) : Depacketizer × Batch :=
  s.pending.toList.foldl (expireOne now) (s, b)

/-- Every chunk has arrived. -/
def Frame.complete (f : Frame) : Prop := f.received = f.count.toNat

instance (f : Frame) : Decidable f.complete := inferInstanceAs (Decidable (_ = _))

/-- mirrors shared/receiver/codec/dc_video_depacketizer.cpp:138-140 -/
def pickFirst (first : Option (UInt16 × Frame)) (e : UInt16 × Frame) : Option (UInt16 × Frame) :=
  if e.2.complete ∧ e.2.stableFlags &&& 1 ≠ 0 ∧ first.all (fun g => decide (e.2.arrival < g.2.arrival))
  then some e else first

/-- The earliest complete key-flagged frame.
mirrors shared/receiver/codec/dc_video_depacketizer.cpp:137-140 -/
def firstKeyframe (s : Depacketizer) : Option (UInt16 × Frame) :=
  s.pending.toList.foldl pickFirst none

/-- mirrors shared/receiver/codec/dc_video_depacketizer.cpp:157-158 -/
def pickNearest (expected : UInt16) (acc : Option (UInt16 × Frame) × Int) (e : UInt16 × Frame) :
    Option (UInt16 × Frame) × Int :=
  if delta e.1 expected ≥ 0 ∧ delta e.1 expected < acc.2 then (some e, delta e.1 expected) else acc

/-- The pending frame nearest ahead of the cursor.
mirrors shared/receiver/codec/dc_video_depacketizer.cpp:155-159 -/
def nearest (s : Depacketizer) : Option (UInt16 × Frame) :=
  (s.pending.toList.foldl (pickNearest s.expected) (none, 32768)).1

/-- The complete frame under the cursor leaves the map, handed on or not.
mirrors shared/receiver/codec/dc_video_depacketizer.cpp:147-151 -/
def handOn (now : Int) (s : Depacketizer) (b : Batch) (f : Frame) : Depacketizer × Batch :=
  let c := match assemble s f with
    | (s, some (nalus, out)) =>
      ({ s with frames := s.frames + 1 },
       { b with frames := b.frames ++ [Emission.mk s.expected f nalus out] })
    | (s, none) => recover now s b
  ({ erase c.1 c.1.expected f with expected := c.1.expected + 1 }, c.2)

/-- One turn of the `while` loop; `none`: the loop is left.
mirrors shared/receiver/codec/dc_video_depacketizer.cpp:144-164 -/
def drainIter (now : Int) (s : Depacketizer) (b : Batch) : Option (Depacketizer × Batch) :=
  if s.pending.size = 0 then none
  else match s.pending.find? s.expected with
    | some f =>
      if f.complete then some (handOn now s b f)
      else if now - f.arrival ≥ 10000 then
        some (recover now { erase s s.expected f with expected := s.expected + 1 } b)
      else none
    | none =>
      match nearest s with
      | none => none
      | some e =>
        if now - e.2.arrival < 10000 then none
        else some (recover now { s with expected := e.1 } b)

def drainLoop (now : Int) : Nat → Depacketizer → Batch → Depacketizer × Batch
  | 0, s, b => (s, b)
  | n + 1, s, b =>
    match drainIter now s b with
    | none => (s, b)
    | some c => drainLoop now n c.1 c.2

/-- mirrors shared/receiver/codec/dc_video_depacketizer.cpp:165-167 -/
def purge (s : Depacketizer) : Depacketizer :=
  s.pending.toList.foldl (fun s e => if delta e.1 s.expected < 0 then erase s e.1 e.2 else s) s

/-- mirrors shared/receiver/codec/dc_video_depacketizer.cpp:168-174 -/
def increase (now : Int) (s : Depacketizer) (b : Batch) : Depacketizer × Batch :=
  if s.waiting = false ∧ b.frames ≠ [] then
    if s.lastIncrease < 0 then ({ s with lastIncrease := now }, b)
    else if now - s.lastIncrease ≥ 2000000 then
      ({ s with bitrate := min 8000000 (s.bitrate + 300000), lastIncrease := now },
       { b with controls := b.controls ++ [.bitrate (min 8000000 (s.bitrate + 300000))] })
    else (s, b)
  else (s, b)

/-- The cursor is placed on the first complete keyframe; `none`: there is
none yet, and `drain` returns.
mirrors shared/receiver/codec/dc_video_depacketizer.cpp:136-143 -/
def place (s : Depacketizer) : Option Depacketizer :=
  if s.initialized then some s
  else (firstKeyframe s).map fun e => { s with expected := e.1, initialized := true }

/-- What `drain` does once the cursor is placed. -/
def advance (now : Int) (s : Depacketizer) (b : Batch) : Depacketizer × Batch :=
  let c := drainLoop now (2 * s.pending.size + 1) s b
  increase now (purge c.1) c.2

/-- mirrors shared/receiver/codec/dc_video_depacketizer.cpp:129-175 -/
def drain (now : Int) (s : Depacketizer) (b : Batch) : Depacketizer × Batch :=
  let c := expire now s b
  match place c.1 with
  | none => c
  | some s => advance now s c.2

/-! ## The three entry points -/

def Frame.fresh (p : DcPacket) (now : Int) : Frame where
  timestamp := p.timestamp
  count := p.count
  stableFlags := p.stableFlags
  arrival := now
  chunks := List.replicate p.count.toNat []

/-- The frame with the packet's chunk in its (empty) place. -/
def Frame.store (f : Frame) (p : DcPacket) : Frame :=
  { f with chunks := f.chunks.set p.index.toNat p.payload,
           received := f.received + 1, bytes := f.bytes + p.payload.length }

/-- The packet belongs to the frame it is keyed to. -/
def Frame.agrees (f : Frame) (p : DcPacket) : Prop :=
  f.count = p.count ∧ f.timestamp = p.timestamp ∧ f.stableFlags = p.stableFlags

instance (f : Frame) (p : DcPacket) : Decidable (f.agrees p) :=
  inferInstanceAs (Decidable (_ ∧ _ ∧ _))

/-- The chunk goes into `f`, which is pending under the packet's sequence.
mirrors shared/receiver/codec/dc_video_depacketizer.cpp:82-89 -/
def store (now : Int) (s : Depacketizer) (b : Batch) (p : DcPacket) (f : Frame) : Depacketizer × Batch :=
  if ¬ f.agrees p then recover now (erase s p.seq f) b
  else if f.chunks.getD p.index.toNat [] = [] then
    ({ s with pending := s.pending.insert p.seq (f.store p), bytes := s.bytes + p.payload.length }, b)
  else if f.chunks.getD p.index.toNat [] ≠ p.payload then recover now (erase s p.seq f) b
  else (s, b)

/-- The branch taken when the packet would exceed a bound.
mirrors shared/receiver/codec/dc_video_depacketizer.cpp:74-76 -/
def overflow (now : Int) (s : Depacketizer) (b : Batch) : Depacketizer × Batch :=
  let c := recover now { s with pending := .empty, bytes := 0, initialized := false } b
  (c.1, { c.2 with overflow := true })

/-- A packet that passed the header check.
mirrors shared/receiver/codec/dc_video_depacketizer.cpp:69-92 -/
def accept (now : Int) (s : Depacketizer) (p : DcPacket) : Depacketizer × Batch :=
  let c := drain now s {}
  if c.1.initialized = true ∧ delta p.seq c.1.expected < 0 then c
  else
    let it := c.1.pending.find? p.seq
    if (it = none ∧ c.1.pending.size ≥ kMaxPendingFrames) ∨
        c.1.bytes + p.payload.length > kMaxPendingBytes then overflow now c.1 c.2
    else
      let f := it.getD (Frame.fresh p now)
      let c := store now { c.1 with pending := c.1.pending.insert p.seq f } c.2 p f
      drain now c.1 c.2

/-- mirrors shared/receiver/codec/dc_video_depacketizer.cpp:59-95 -/
def processPacketAt (s : Depacketizer) (p : Bytes) (now : Int) : Depacketizer × Batch :=
  if now < 0 then (s, {})
  else match parsePacket p with
    | none => (s, {})
    | some p => accept now s p

/-- mirrors shared/receiver/codec/dc_video_depacketizer.cpp:53-58 -/
def onTimerTickAt (s : Depacketizer) (now : Int) : Depacketizer × Batch :=
  if now < 0 then (s, {})
  else
    let c := drain now s {}
    if c.1.waiting then recover now c.1 c.2 else c

/-! ## Runs -/

inductive Call where
  | packet (p : Bytes) (now : Int)
  | tick (now : Int)
  | reset

def call (s : Depacketizer) : Call → Depacketizer × Batch
  | .packet p now => processPacketAt s p now
  | .tick now => onTimerTickAt s now
  | .reset => (reset s, {})

/-- The depacketizer as a transition system; a label is a call and what it
dispatched. -/
def lts : LTS Depacketizer (Call × Batch) where
  init s := s = {}
  step s l s' := call s l.1 = (s', l.2)

/-- A whole sequence of calls: the final state and the batches in order. -/
def run (s : Depacketizer) : List Call → Depacketizer × List Batch
  | [] => (s, [])
  | c :: cs => ((run (call s c).1 cs).1, (call s c).2 :: (run (call s c).1 cs).2)

/-- Everything the frame callback got. -/
def emitted (bs : List Batch) : List Emission := bs.flatMap Batch.frames

/-- Everything the control callback got. -/
def controls (bs : List Batch) : List Control := bs.flatMap Batch.controls

theorem lts_run (s : Depacketizer) (cs : List Call) :
    lts.Run s (cs.zip (run s cs).2) (run s cs).1 := by
  induction cs generalizing s with
  | nil => exact .nil s
  | cons c cs ih => exact .cons rfl (ih (call s c).1)

/-! ## The accessors -/

/-- mirrors shared/receiver/codec/dc_video_depacketizer.cpp:24-25 -/
def getPendingBytes (s : Depacketizer) : Nat := s.bytes
def getPendingFrames (s : Depacketizer) : Nat := s.pending.size

end KmVirtualCamera.L2.DcVideo
