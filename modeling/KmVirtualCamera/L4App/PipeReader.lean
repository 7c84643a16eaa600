import Mathlib
import KmVirtualCamera.L1Encoding.PipeValidation

/-!
# The reader of the frame pipe (`PipeFrameReceiver`)

The virtual camera reads headers and payloads off the pipe, each with as many
`ReadFile` calls as it takes, and shows a frame once it has its payload. A
`Pipe` is what the server writes on one connection and how much each of the
calls gives; where it ends, the server has gone or the reader is stopped.

The protocol has a header announce checksums (`kFlagCrcPresent`) and the camera
test them; the code lets the flag pass and reads neither field. `Follows` is
the protocol's validation order, step by step.

* `readExact_reads`: the calls give the next bytes, in whatever pieces they come.
* `connection_follows`: a connection follows the protocol unless a frame comes
  whole with a checksum that is wrong.
-/
namespace KmVirtualCamera.L4.PipeReader
open L1.PipeFrame

/-! ## The reader -/

structure Pipe where
  stream : Bytes
  /-- how many bytes each `ReadFile` gives at most -/
  reads : List Nat

/-- mirrors windows/virtual-camera/media-source/pipe_frame_receiver.cpp:56-87 -/
def readFiles : List Nat → Bytes → Nat → Option (Bytes × Pipe)
  | reads, stream, 0 => some ([], ⟨stream, reads⟩)
  | [], _, _ + 1 => none
  | n :: reads, stream, bytesToRead + 1 =>
    let bytesRead := stream.take (min n (bytesToRead + 1))
    if bytesRead.length = 0 then none
    else
      (readFiles reads (stream.drop bytesRead.length) (bytesToRead + 1 - bytesRead.length)).map
        fun (rest, pipe) => (bytesRead ++ rest, pipe)

def readExact (pipe : Pipe) (bytesToRead : Nat) : Option (Bytes × Pipe) :=
  readFiles pipe.reads pipe.stream bytesToRead

theorem readFiles_reads {reads : List Nat} {stream : Bytes} {bytesToRead : Nat} {bs : Bytes} {pipe : Pipe}
    (h : readFiles reads stream bytesToRead = some (bs, pipe)) :
    stream = bs ++ pipe.stream ∧ bs.length = bytesToRead ∧
      pipe.reads.length ≤ reads.length ∧ (0 < bytesToRead → pipe.reads.length < reads.length) := by
  induction reads generalizing stream bytesToRead bs with
  | nil =>
    cases bytesToRead with
    | zero =>
      cases h
      simp
    | succ want => cases h
  | cons n reads ih =>
    cases bytesToRead with
    | zero =>
      cases h
      simp
    | succ want =>
      simp only [readFiles] at h
      split at h
      · cases h
      · obtain ⟨⟨rest, last⟩, hrest, hlast⟩ := Option.map_eq_some_iff.1 h
        rw [Prod.mk.injEq] at hlast
        obtain ⟨rfl, rfl⟩ := hlast
        obtain ⟨hstream, hlen, hle, -⟩ := ih hrest
        have hsplit := List.prefix_iff_eq_append.1 (List.take_prefix (min n (want + 1)) stream)
        have hgot : (stream.take (min n (want + 1))).length ≤ want + 1 :=
          (List.length_take_le _ _).trans (Nat.min_le_right _ _)
        refine ⟨?_, ?_, ?_, ?_⟩
        · rw [List.append_assoc, ← hstream, hsplit]
        · rw [List.length_append, hlen]
          omega
        · rw [List.length_cons]
          omega
        · rw [List.length_cons]
          omega

/-- The reader gets the next bytes of the stream, and as many as it asked for. -/
theorem readExact_reads {pipe rest : Pipe} {bytesToRead : Nat} {bs : Bytes}
    (h : readExact pipe bytesToRead = some (bs, rest)) :
    pipe.stream = bs ++ rest.stream ∧ bs.length = bytesToRead :=
  ⟨(readFiles_reads h).1, (readFiles_reads h).2.1⟩

theorem readExact_shorter {pipe rest : Pipe} {bytesToRead : Nat} {bs : Bytes}
    (h : readExact pipe bytesToRead = some (bs, rest)) :
    rest.reads.length ≤ pipe.reads.length ∧ (0 < bytesToRead → rest.reads.length < pipe.reads.length) :=
  (readFiles_reads h).2.2

inductive Op where
  /-- the frame the camera shows from now on -/
  | published (payload : Bytes) (sequence : UInt64) (captureTimeUs : Int64)
  /-- `CloseHandle`, and no frame is valid any more -/
  | closed

/-- `ReaderThreadProc` on one connection, after which it connects again.
mirrors windows/virtual-camera/media-source/pipe_frame_receiver.cpp:119-153 -/
def connection (pipe : Pipe) : List Op :=
  match _hheader : readExact pipe kHeaderSize.toNat with
  | none => [.closed]
  | some (headerBuffer, rest) =>
    match deserializeAndValidateHeader headerBuffer with
    | none => [.closed]
    | some header =>
      match _hpayload : readExact rest kPayloadBytes.toNat with
      | none => [.closed]
      | some (scratchPayload, last) =>
        .published scratchPayload header.sequence header.captureTimeUs :: connection last
termination_by pipe.reads.length
decreasing_by
  have hh := (readExact_shorter _hheader).2 (by decide)
  have hp := (readExact_shorter _hpayload).1
  omega

section
variable {pipe rest last : Pipe} {raw payload : Bytes}

theorem connection_unread (h : readExact pipe kHeaderSize.toNat = none) :
    connection pipe = [.closed] := by
  rw [connection]
  split
  · rfl
  · rename_i hread
    rw [h] at hread
    cases hread

theorem connection_refused (h : readExact pipe kHeaderSize.toNat = some (raw, rest))
    (hv : ¬ ValidHeader raw) : connection pipe = [.closed] := by
  have hnone : deserializeAndValidateHeader raw = none := by
    rw [← Option.not_isSome_iff_eq_none, accepts_iff (readExact_reads h).2]
    exact hv
  rw [connection]
  split
  · rfl
  · rename_i hread
    rw [h] at hread
    cases hread
    rw [hnone]

theorem connection_cut (h : readExact pipe kHeaderSize.toNat = some (raw, rest))
    (hp : readExact rest kPayloadBytes.toNat = none) : connection pipe = [.closed] := by
  rw [connection]
  split
  · rfl
  · rename_i hread
    rw [h] at hread
    cases hread
    split
    · rfl
    · split
      · rfl
      · rename_i hread
        rw [hp] at hread
        cases hread

/-- The frame of a valid header and the payload behind it. -/
def frame (raw payload : Bytes) : Op :=
  .published payload (UInt64.ofNat (field raw 16 8)) (UInt64.ofNat (field raw 24 8)).toInt64

theorem connection_published (h : readExact pipe kHeaderSize.toNat = some (raw, rest))
    (hv : ValidHeader raw) (hp : readExact rest kPayloadBytes.toNat = some (payload, last)) :
    connection pipe = frame raw payload :: connection last := by
  obtain ⟨header, hheader⟩ := Option.isSome_iff_exists.1 ((accepts_iff (readExact_reads h).2).2 hv)
  rw [connection]
  split
  · rename_i hread
    rw [h] at hread
    cases hread
  · rename_i hread
    rw [h] at hread
    cases hread
    rw [hheader]
    dsimp only
    split
    · rename_i hread
      rw [hp] at hread
      cases hread
    · rename_i hread
      rw [hp] at hread
      cases hread
      rw [deserialize_accepted hheader]
      rfl

end

/-! ## The protocol -/

/-- What the protocol lets a camera do on a connection: the steps of its
validation order, the connection closed at the first that fails. -/
inductive Follows : Pipe → List Op → Prop
  | unread {pipe : Pipe} (h : readExact pipe kHeaderSize.toNat = none) : Follows pipe [.closed]
  | refused {pipe rest : Pipe} {raw : Bytes} (h : readExact pipe kHeaderSize.toNat = some (raw, rest))
      (hv : ¬ ValidHeader raw) : Follows pipe [.closed]
  | headerCrc {pipe rest : Pipe} {raw : Bytes} (h : readExact pipe kHeaderSize.toNat = some (raw, rest))
      (hv : ValidHeader raw) (hflag : CrcPresent raw) (hc : ¬ HeaderCrc raw) : Follows pipe [.closed]
  | cut {pipe rest : Pipe} {raw : Bytes} (h : readExact pipe kHeaderSize.toNat = some (raw, rest))
      (hv : ValidHeader raw) (hc : CrcPresent raw → HeaderCrc raw)
      (hp : readExact rest kPayloadBytes.toNat = none) : Follows pipe [.closed]
  | payloadCrc {pipe rest last : Pipe} {raw payload : Bytes}
      (h : readExact pipe kHeaderSize.toNat = some (raw, rest))
      (hv : ValidHeader raw) (hflag : CrcPresent raw) (hc : HeaderCrc raw)
      (hp : readExact rest kPayloadBytes.toNat = some (payload, last))
      (hbad : ¬ PayloadCrc raw payload) : Follows pipe [.closed]
  | published {pipe rest last : Pipe} {raw payload : Bytes} {ops : List Op}
      (h : readExact pipe kHeaderSize.toNat = some (raw, rest)) (hv : ValidHeader raw)
      (hp : readExact rest kPayloadBytes.toNat = some (payload, last)) (hc : Checksums raw payload)
      (hnext : Follows last ops) : Follows pipe (frame raw payload :: ops)

/-- A header and a payload that come whole, the header and those before it valid. -/
inductive Received : Pipe → Bytes → Bytes → Prop
  | first {pipe rest last : Pipe} {raw payload : Bytes}
      (h : readExact pipe kHeaderSize.toNat = some (raw, rest)) (hv : ValidHeader raw)
      (hp : readExact rest kPayloadBytes.toNat = some (payload, last)) : Received pipe raw payload
  | later {pipe rest last : Pipe} {raw payload raw' payload' : Bytes}
      (h : readExact pipe kHeaderSize.toNat = some (raw, rest)) (hv : ValidHeader raw)
      (hp : readExact rest kPayloadBytes.toNat = some (payload, last))
      (hlater : Received last raw' payload') : Received pipe raw' payload'

/-- No frame comes whole whose checksums are announced and wrong. -/
def Unspoilt (pipe : Pipe) : Prop := ∀ raw payload, Received pipe raw payload → Checksums raw payload

section
variable {pipe rest last : Pipe} {raw payload : Bytes} {ops : List Op}

theorem unspoilt_cons (h : readExact pipe kHeaderSize.toNat = some (raw, rest)) (hv : ValidHeader raw)
    (hp : readExact rest kPayloadBytes.toNat = some (payload, last)) :
    Unspoilt pipe ↔ Checksums raw payload ∧ Unspoilt last := by
  constructor
  · intro hu
    exact ⟨hu raw payload (.first h hv hp), fun r p hr => hu r p (.later h hv hp hr)⟩
  · intro hu r p hr
    cases hr with
    | first h' _ hp' =>
      cases h.symm.trans h'
      cases hp.symm.trans hp'
      exact hu.1
    | later h' _ hp' hlater =>
      cases h.symm.trans h'
      cases hp.symm.trans hp'
      exact hu.2 r p hlater

/-- A frame is shown only when its checksums, if any, are right, and then the
protocol goes on behind it. -/
theorem follows_cons (h : readExact pipe kHeaderSize.toNat = some (raw, rest))
    (hp : readExact rest kPayloadBytes.toNat = some (payload, last)) (hv : ValidHeader raw) :
    Follows pipe (frame raw payload :: ops) ↔ Checksums raw payload ∧ Follows last ops := by
  constructor
  · intro hf
    generalize hall : frame raw payload :: ops = all at hf
    cases hf with
    | published h' _ hp' hc hnext =>
      cases h.symm.trans h'
      cases hp.symm.trans hp'
      exact ⟨hc, (List.cons.inj hall).2 ▸ hnext⟩
    | _ => simp [frame] at hall
  · intro hf
    exact .published h hv hp hf.1 hf.2

/-- A connection that ends without a frame whole has none that is spoilt. -/
theorem unspoilt_end (hnone : ∀ raw rest, readExact pipe kHeaderSize.toNat = some (raw, rest) →
    ValidHeader raw → readExact rest kPayloadBytes.toNat = none) : Unspoilt pipe := by
  intro r p hr
  cases hr with
  | first h hv hp =>
    rw [hnone _ _ h hv] at hp
    cases hp
  | later h hv hp =>
    rw [hnone _ _ h hv] at hp
    cases hp

theorem follows_cut (h : readExact pipe kHeaderSize.toNat = some (raw, rest)) (hv : ValidHeader raw)
    (hp : readExact rest kPayloadBytes.toNat = none) : Follows pipe [.closed] := by
  by_cases hc : CrcPresent raw → HeaderCrc raw
  · exact .cut h hv hc hp
  · rw [Classical.not_imp] at hc
    exact .headerCrc h hv hc.1 hc.2

end

theorem connection_follows (pipe : Pipe) : Follows pipe (connection pipe) ↔ Unspoilt pipe := by
  -- along the reads that are left
  induction hn : pipe.reads.length using Nat.strong_induction_on generalizing pipe with
  | _ n ih =>
    cases h : readExact pipe kHeaderSize.toNat with
    | none =>
      rw [connection_unread h]
      exact iff_of_true (.unread h) (unspoilt_end fun raw rest h' => by rw [h] at h'; cases h')
    | some read =>
      obtain ⟨raw, rest⟩ := read
      by_cases hv : ValidHeader raw
      · cases hp : readExact rest kPayloadBytes.toNat with
        | none =>
          rw [connection_cut h hp]
          refine iff_of_true (follows_cut h hv hp) (unspoilt_end ?_)
          intro raw' rest' h' _
          cases h.symm.trans h'
          exact hp
        | some read =>
          obtain ⟨payload, last⟩ := read
          have hheader := (readExact_shorter h).2 (by decide)
          have hpayload := (readExact_shorter hp).1
          rw [connection_published h hv hp, follows_cons h hp hv, unspoilt_cons h hv hp,
            ih last.reads.length (by omega) last rfl]
      · rw [connection_refused h hv]
        refine iff_of_true (.refused h hv) (unspoilt_end ?_)
        intro raw' rest' h' hv'
        cases h.symm.trans h'
        exact absurd hv' hv

/-- The reader of the camera honours the checksum flag on a connection just when
no frame comes whole whose checksums are announced and wrong; and what it takes
for a header is written back byte for byte. -/
theorem checksums_honoured (pipe : Pipe) :
    (Follows pipe (connection pipe) ∧
      ∀ raw header, raw.length = kHeaderSize.toNat → deserializeAndValidateHeader raw = some header →
        serializeHeader header = raw) ↔
      ∀ raw payload, Received pipe raw payload → Checksums raw payload := by
  rw [connection_follows]
  refine and_iff_left ?_
  intro raw header hlen hheader
  rw [deserialize_accepted hheader]
  exact serializeHeader_deserialize hlen

/-! ## A frame with the flag and no checksums -/

/-- The header the publisher writes, with the flag added. -/
def flagged : Bytes := serializeHeader (createDefaultHeader 1 0 kFlagCrcPresent)

/-- It arrives in two reads, with a payload of zeros behind it. -/
def spoilt : Pipe where
  stream := flagged ++ List.replicate kPayloadBytes.toNat 0
  reads := [kHeaderSize.toNat, kPayloadBytes.toNat]

theorem readFiles_zero (reads : List Nat) (stream : Bytes) :
    readFiles reads stream 0 = some ([], ⟨stream, reads⟩) := by
  cases reads with
  | nil => rfl
  | cons => rfl

theorem readExact_whole {bs : Bytes} {n : Nat} (hlen : bs.length = n) (hn : 0 < n) (stream : Bytes)
    (reads : List Nat) : readExact ⟨bs ++ stream, n :: reads⟩ n = some (bs, ⟨stream, reads⟩) := by
  cases n with
  | zero => cases hn
  | succ n =>
    rw [readExact, readFiles, Nat.min_self, List.take_left' hlen, if_neg (by omega), List.drop_left' rfl,
      hlen, Nat.sub_self, readFiles_zero]
    simp

/-- A fold goes through any place of its list. -/
theorem foldl_pause {α β : Type} (f : β → α → β) (n : Nat) (l : List α) (s : β) :
    l.foldl f s = (l.drop n).foldl f ((l.take n).foldl f s) := by
  rw [← List.foldl_append, List.take_append_drop]

/-- The checksum its header should have. -/
theorem flagged_crc : crc32 (flagged.take 56 ++ List.replicate 8 0) = 1073698611 := by
  set zeroed := flagged.take 56 ++ List.replicate 8 0
  have h₁ : (zeroed.take 16).foldl crcByte 0xFFFFFFFF = 3465121719 := by decide +kernel
  have h₂ : ((zeroed.drop 16).take 16).foldl crcByte 3465121719 = 778001019 := by decide +kernel
  have h₃ : (((zeroed.drop 16).drop 16).take 16).foldl crcByte 778001019 = 224787039 := by
    decide +kernel
  have h₄ : (((zeroed.drop 16).drop 16).drop 16).foldl crcByte 224787039 ^^^ 0xFFFFFFFF = 1073698611 := by
    decide +kernel
  rw [crc32, foldl_pause crcByte 16, h₁, foldl_pause crcByte 16, h₂, foldl_pause crcByte 16, h₃, h₄]

/-- It is shown, though the checksum of its header is wrong. -/
theorem flagged_published : ¬ Follows spoilt (connection spoilt) := by
  rw [connection_follows]
  intro hu
  have hlen : flagged.length = kHeaderSize.toNat := serializeHeader_length rfl
  have hvalid : ValidHeader flagged := (accepts_iff hlen).1 (by decide +kernel)
  have hheader := readExact_whole hlen (by decide) (List.replicate kPayloadBytes.toNat 0)
    [kPayloadBytes.toNat]
  have hpayload := readExact_whole (List.length_replicate (n := kPayloadBytes.toNat) (a := (0 : UInt8)))
    (by decide) [] []
  rw [List.append_nil] at hpayload
  have hflag : CrcPresent flagged := by decide +kernel
  have hcrc : ¬ HeaderCrc flagged := by
    rw [HeaderCrc, flagged_crc]
    decide +kernel
  exact hcrc (hu flagged _ (.first hheader hvalid hpayload) hflag).1

end KmVirtualCamera.L4.PipeReader
