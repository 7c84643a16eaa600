import Mathlib
import KmVirtualCamera.Core.LTS
import KmVirtualCamera.L1Encoding.H264
import KmVirtualCamera.L1Encoding.RtpWire

/-!
# The RTP depacketizer (`H264RtpDepacketizer`)

Turns RTP datagrams into Annex-B access units, in arrival order: late and
duplicate packets are dropped, a gap closes the gate (`waiting_`) until an
intact IDR. An access unit ends at the marker bit or at a change of the
timestamp.

Every method is a function from the state and the log so far to the same. The
log holds the two callbacks (`emit`, `keyframe`) in the order they are made,
and between them what became of the datagrams; the latter is for statements
about runs and nothing reads it. `nalus` is a ghost too: the NAL units whose
concatenation `au_` is.

Sizes are `Nat`. The one subtraction of the source that no guard protects,
`kMaxAccessUnitBytes - au_.size()`, does not wrap: see `Inv.au_le`.
-/
namespace KmVirtualCamera.L2.RtpVideo
open KmVirtualCamera.ByteOrder KmVirtualCamera.L1.RtpWire
open KmVirtualCamera.L1.H264 (validNalu naluType appendAnnexB annexB)

def kMaxAccessUnitBytes : Nat := 4 * 1024 * 1024

/-- mirrors shared/receiver/codec/h264_rtp_depacketizer.h:28-35 -/
structure Depacketizer where
  au : Bytes := []
  fu : Bytes := []
  sps : Bytes := []
  pps : Bytes := []
  timestamp : UInt32 := 0
  ssrc : UInt32 := 0
  sequence : UInt16 := 0
  fuHeader : UInt8 := 0
  haveSsrc : Bool := false
  haveSequence : Bool := false
  haveTimestamp : Bool := false
  waiting : Bool := true
  damaged : Bool := false
  idr : Bool := false
  vcl : Bool := false
  hasSps : Bool := false
  hasPps : Bool := false
  /-- ghost: the units in `au` -/
  nalus : List Bytes := []

/-- What the frame callback gets (`data`, `timestamp`), the units it is made
of and the parameter sets cached at that moment. -/
structure Emission where
  data : Bytes
  timestamp : UInt32
  nalus : List Bytes
  sps : Bytes
  pps : Bytes
  deriving DecidableEq

inductive Event where
  /-- the frame callback -/
  | emit (e : Emission)
  /-- the keyframe request callback -/
  | keyframe
  /-- a datagram did not parse -/
  | unparsed
  /-- a packet came from another SSRC -/
  | ssrcChange
  /-- a packet that is neither late nor a duplicate -/
  | accepted (sequence : UInt16)
  /-- a unit was appended to the access unit -/
  | nal (n : Bytes)
  /-- the payload of an accepted packet was refused -/
  | rejected
  /-- `Reset` -/
  | reset
  deriving DecidableEq

abbrev Log := List Event

/-- mirrors shared/receiver/codec/h264_rtp_depacketizer.cpp:13-15 -/
def clearAu (s : Depacketizer) : Depacketizer :=
  { s with au := [], fu := [], nalus := [], damaged := false, idr := false, vcl := false,
           hasSps := false, hasPps := false }

/-- mirrors shared/receiver/codec/h264_rtp_depacketizer.cpp:16-19 -/
def reset (s : Depacketizer) : Depacketizer :=
  { clearAu s with sps := [], pps := [], waiting := true, haveSsrc := false, haveSequence := false,
                   haveTimestamp := false }

/-- mirrors shared/receiver/codec/h264_rtp_depacketizer.cpp:20-23 -/
def lose (s : Depacketizer) (l : Log) : Depacketizer × Log :=
  ({ s with au := [], fu := [], nalus := [], damaged := true, waiting := true }, l ++ [.keyframe])

/-- mirrors shared/receiver/codec/h264_rtp_depacketizer.cpp:7 -/
def validNal (n : Bytes) : Bool := validNalu n

/-- The parameter sets after a unit. Another SPS drops the PPS. -/
def Depacketizer.note (s : Depacketizer) (n : Bytes) : Depacketizer :=
  if naluType n = 7 then
    { s with pps := if s.sps = n then s.pps else [], sps := n, hasSps := true }
  else if naluType n = 8 then { s with pps := n, hasPps := true }
  else s

def isVcl (n : Bytes) : Bool := 1 ≤ naluType n && naluType n ≤ 5

/-- `none`: the unit is refused and nothing has changed.
mirrors shared/receiver/codec/h264_rtp_depacketizer.cpp:24-34 -/
def appendNalu (s : Depacketizer) (l : Log) (n : Bytes) : Option (Depacketizer × Log) :=
  if validNal n = false ∨ n.length > kMaxAccessUnitBytes - 4 ∨
      s.au.length > kMaxAccessUnitBytes - n.length - 4 then none
  else if (naluType n = 7 ∨ naluType n = 8) ∧ n.length > 65536 then none
  else
    let s := s.note n
    some ({ s with idr := s.idr || naluType n == 5, vcl := s.vcl || isVcl n,
                   au := appendAnnexB s.au n, nalus := s.nalus ++ [n] }, l ++ [.nal n])

/-- mirrors shared/receiver/codec/h264_rtp_depacketizer.cpp:36-37 -/
def good (s : Depacketizer) : Prop :=
  s.damaged = false ∧ s.fu = [] ∧ s.vcl = true ∧ (s.waiting = false ∨ s.idr = true) ∧
    (s.idr = false ∨ (s.sps ≠ [] ∧ s.pps ≠ []))

instance (s : Depacketizer) : Decidable (good s) :=
  inferInstanceAs (Decidable (_ ∧ _ ∧ _ ∧ _ ∧ _))

/-- The cached sets an IDR unit is short of. -/
def missing (s : Depacketizer) : List Bytes :=
  if s.idr then (if s.hasSps then [] else [s.sps]) ++ (if s.hasPps then [] else [s.pps]) else []

/-- mirrors shared/receiver/codec/h264_rtp_depacketizer.cpp:35-52 -/
def emit (s : Depacketizer) (l : Log) : Depacketizer × Log :=
  let head := (missing s).foldl appendAnnexB []
  if good s then
    if s.au.length > kMaxAccessUnitBytes - head.length then
      (clearAu { s with waiting := true }, l ++ [.keyframe])
    else
      let w := if s.idr then false else s.waiting
      if head ++ s.au ≠ [] then
        (clearAu { s with waiting := w },
         l ++ [.emit ⟨head ++ s.au, s.timestamp, missing s ++ s.nalus, s.sps, s.pps⟩])
      else (clearAu { s with waiting := w }, l ++ if w then [.keyframe] else [])
  else
    let w := s.waiting || s.vcl || s.fu ≠ []
    (clearAu { s with waiting := w }, l ++ if w then [.keyframe] else [])

/-! ## Payloads

Each of these returns the state, the log and the source's `ok`. -/

/-- mirrors shared/receiver/codec/h264_rtp_depacketizer.cpp:84-85 -/
def single (s : Depacketizer) (l : Log) (p : Bytes) : (Depacketizer × Log) × Bool :=
  if s.fu ≠ [] then ((s, l), false)
  else match appendNalu s l p with
    | some c => (c, true)
    | none => ((s, l), false)

/-- The units of a STAP-A payload, its first byte taken off; `none`: refused.
mirrors shared/receiver/codec/h264_rtp_depacketizer.cpp:88-94 -/
def stapNalus : Nat → Nat → Bytes → Option (List Bytes)
  | _, _, [] => some []
  | fuel + 1, count, b0 :: b1 :: rest =>
    let length := (be16 b0 b1).toNat
    if length = 0 ∨ length > rest.length ∨ count ≥ 1024 ∨ validNal (rest.take length) = false then none
    else (stapNalus fuel (count + 1) (rest.drop length)).map (rest.take length :: ·)
  | _, _, _ => none

/-- `for (auto n : nalus) if (!appendNalu(n)) { ok = false; break; }` -/
def appendAll (s : Depacketizer) (l : Log) : List Bytes → (Depacketizer × Log) × Bool
  | [] => ((s, l), true)
  | n :: ns =>
    match appendNalu s l n with
    | some c => appendAll c.1 c.2 ns
    | none => ((s, l), false)

/-- mirrors shared/receiver/codec/h264_rtp_depacketizer.cpp:86-96 -/
def stapA (s : Depacketizer) (l : Log) (p : Bytes) : (Depacketizer × Log) × Bool :=
  match stapNalus p.length 0 p.tail with
  | none => ((s, l), false)
  | some ns =>
    if s.fu = [] ∧ ns ≠ [] ∧ (ns.map fun n => n.length + 4).sum ≤ kMaxAccessUnitBytes - s.au.length
    then appendAll s l ns else ((s, l), false)

/-- The fragment's bytes join the unit in progress; the last one ends it.
mirrors shared/receiver/codec/h264_rtp_depacketizer.cpp:107-113 -/
def fuData (s : Depacketizer) (l : Log) (data : Bytes) (last : Bool) : (Depacketizer × Log) × Bool :=
  if data.length > kMaxAccessUnitBytes - 4 ∨ s.fu.length > kMaxAccessUnitBytes - 4 - data.length ∨
      s.au.length > kMaxAccessUnitBytes - 4 - data.length - s.fu.length then ((s, l), false)
  else if last then
    match appendNalu s l (s.fu ++ data) with
    | some c => (({ c.1 with fu := [] }, c.2), true)
    | none => (({ s with fu := [] }, l), false)
  else (({ s with fu := s.fu ++ data }, l), true)

/-- mirrors shared/receiver/codec/h264_rtp_depacketizer.cpp:97-114 -/
def fuA (s : Depacketizer) (l : Log) (p : Bytes) : (Depacketizer × Log) × Bool :=
  match p with
  | p0 :: p1 :: p2 :: data =>
    if p1 &&& 32 ≠ 0 ∨ p1 &&& 31 = 0 ∨ p1 &&& 31 > 23 ∨ p1 &&& 192 = 192 then ((s, l), false)
    else
      let header := (p0 &&& 224) ||| (p1 &&& 31)
      if p1 &&& 128 ≠ 0 then
        if s.fu ≠ [] then ((s, l), false)
        else fuData { s with fuHeader := header, fu := [header] } l (p2 :: data) (p1 &&& 64 ≠ 0)
      else if s.fu = [] ∨ s.fuHeader ≠ header then ((s, l), false)
      else fuData s l (p2 :: data) (p1 &&& 64 ≠ 0)
  | _ => ((s, l), false)

/-- mirrors shared/receiver/codec/h264_rtp_depacketizer.cpp:82-113 -/
def payload (s : Depacketizer) (l : Log) (p : Bytes) : (Depacketizer × Log) × Bool :=
  let type := naluType p
  if 1 ≤ type ∧ type ≤ 23 then single s l p
  else if type = 24 then stapA s l p
  else if type = 28 then fuA s l p
  else ((s, l), false)

/-! ## Datagrams -/

/-- The access unit in progress ends where the timestamp changes.
mirrors shared/receiver/codec/h264_rtp_depacketizer.cpp:67-71 -/
def boundary (s : Depacketizer) (l : Log) (p : RtpPacket) (gap : Bool) : Depacketizer × Log :=
  if s.haveTimestamp = true ∧ p.timestamp ≠ s.timestamp then
    let c := if gap = true ∨ s.fu ≠ [] then lose s l else (s, l)
    emit c.1 c.2
  else (s, l)

/-- The payload of a packet of an undamaged access unit.
mirrors shared/receiver/codec/h264_rtp_depacketizer.cpp:79-115 -/
def consume (s : Depacketizer) (l : Log) (p : RtpPacket) : Depacketizer × Log :=
  if p.payload.headD 0 &&& 128 ≠ 0 then lose s (l ++ [.rejected])
  else
    let c := payload s l p.payload
    let c := if c.2 then c.1 else lose c.1.1 (c.1.2 ++ [.rejected])
    if p.marker then ({ (emit c.1 c.2).1 with haveTimestamp := false }, (emit c.1 c.2).2) else c

/-- A packet that is neither late nor a duplicate.
mirrors shared/receiver/codec/h264_rtp_depacketizer.cpp:66-115 -/
def accept (s : Depacketizer) (l : Log) (p : RtpPacket) (gap : Bool) : Depacketizer × Log :=
  let s := { s with sequence := p.sequence, haveSequence := true }
  let c := boundary s l p gap
  let s := { c.1 with timestamp := p.timestamp, haveTimestamp := true }
  let l := c.2 ++ [.accepted p.sequence]
  let c := if gap then lose s l else (s, l)
  if c.1.damaged then
    if p.marker then ({ clearAu c.1 with haveTimestamp := false }, c.2) else c
  else consume c.1 c.2 p

/-- mirrors shared/receiver/codec/h264_rtp_depacketizer.cpp:53-116 -/
def processRtpPacket (s : Depacketizer) (l : Log) (bytes : Bytes) : Depacketizer × Log :=
  match parseRtp bytes with
  | none => lose s (l ++ [.unparsed])
  | some p =>
    let c := if s.haveSsrc = true ∧ p.ssrc ≠ s.ssrc then (reset s, l ++ [.ssrcChange]) else (s, l)
    let s := { c.1 with haveSsrc := true, ssrc := p.ssrc }
    if s.haveSequence then
      let delta := sequenceDelta p.sequence s.sequence
      if delta ≤ 0 then (s, c.2) else accept s c.2 p (delta ≠ 1)
    else accept s c.2 p false

/-! ## Runs -/

inductive Call where
  | packet (bytes : Bytes)
  | reset

def call (c : Depacketizer × Log) : Call → Depacketizer × Log
  | .packet bytes => processRtpPacket c.1 c.2 bytes
  | .reset => (reset c.1, c.2 ++ [.reset])

/-- The depacketizer with its log. -/
def lts : LTS (Depacketizer × Log) Call where
  init c := c = ({}, [])
  step c a c' := call c a = c'

/-- The state and the log after a sequence of calls on a fresh depacketizer. -/
def run (cs : List Call) : Depacketizer × Log := cs.foldl call ({}, [])

theorem run_reachable (cs : List Call) : lts.Reachable (run cs) := by
  have key : ∀ (cs : List Call) (c : Depacketizer × Log), lts.Run c cs (cs.foldl call c) := by
    intro cs
    induction cs with
    | nil => exact fun c => .nil c
    | cons a cs ih => exact fun c => .cons rfl (ih (call c a))
  exact ⟨_, cs, rfl, key cs _⟩

end KmVirtualCamera.L2.RtpVideo
