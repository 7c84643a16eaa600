import Mathlib
import KmVirtualCamera.Core.Checked
import KmVirtualCamera.L2Machine.RtpRules

/-!
# No size in the depacketizer wraps, and no payload is read out of bounds

The functions of `RtpVideo` subtract as natural numbers and match on the bytes
of a payload. Here each function that subtracts or reads is written again with
`csub` for every `size_t` subtraction of the source and `cget`, `cspan` for
every read, which fault where the machine would wrap or read outside. In every
reachable state the result is that of the unchecked function, so neither ever
happens (`runC_eq`).

Most of the subtractions are guarded where they stand. Three are not: `emit`
subtracts the prepended sets from 4 MiB, a STAP-A the access unit so far, and a
FU-A the fragments so far. They rest on `Sized`.

* `sizes_safe`: the bounds, the absence of faults, and what a refused payload
  leaves behind: nothing.
-/
namespace KmVirtualCamera.L2.RtpVideo
open KmVirtualCamera.ByteOrder KmVirtualCamera.L1.RtpWire
open KmVirtualCamera.L1.H264 (validNalu naluType appendAnnexB annexB)

/-! ## The bounds -/

structure Sized (s : Depacketizer) : Prop where
  au : s.au.length ≤ kMaxAccessUnitBytes
  fu : s.fu.length ≤ kMaxAccessUnitBytes - 4
  sps : s.sps.length ≤ 65536
  pps : s.pps.length ≤ 65536

theorem sized_clear {s : Depacketizer} (h : Sized s) (w : Bool) : Sized (clearAu { s with waiting := w }) :=
  ⟨Nat.zero_le _, Nat.zero_le _, h.sps, h.pps⟩

theorem sized_append {s : Depacketizer} {l : Log} {n : Bytes} {c : Depacketizer × Log} (h : Sized s)
    (ha : appendNalu s l n = some c) : Sized c.1 := by
  obtain ⟨-, hlen, hroom, hset, rfl⟩ := appendNalu_some ha
  have hnote : (s.note n).fu = s.fu ∧ (s.note n).sps.length ≤ 65536 ∧ (s.note n).pps.length ≤ 65536 := by
    unfold Depacketizer.note
    split
    · rename_i h7
      refine ⟨rfl, hset (.inl h7), ?_⟩
      simp only
      split
      · exact h.pps
      · exact Nat.zero_le _
    · split
      · rename_i h8
        exact ⟨rfl, h.sps, hset (.inr h8)⟩
      · exact ⟨rfl, h.sps, h.pps⟩
  refine ⟨?_, ?_, hnote.2.1, hnote.2.2⟩
  · simp only [appendAnnexB, List.length_append, List.length_cons, List.length_nil]
    unfold kMaxAccessUnitBytes at hlen hroom ⊢
    omega
  · show (s.note n).fu.length ≤ _
    rw [hnote.1]
    exact h.fu

theorem sized_stable : Stable fun s _ => Inv s ∧ Sized s where
  append h ha := ⟨inv_append h.1 ha, sized_append h.2 ha⟩
  fragment fu header h hfu := ⟨inv_stable.fragment (l := []) fu header h.1 hfu, h.2.au, hfu, h.2.sps, h.2.pps⟩
  init := ⟨inv_reset {}, Nat.zero_le _, Nat.zero_le _, Nat.zero_le _, Nat.zero_le _⟩
  reset {s _} _ _ _ := ⟨inv_reset s, Nat.zero_le _, Nat.zero_le _, Nat.zero_le _, Nat.zero_le _⟩
  lose _ h _ := ⟨inv_lose h.1 _, Nat.zero_le _, Nat.zero_le _, h.2.sps, h.2.pps⟩
  emit {s l} h := by
    refine ⟨inv_emit l h.1, ?_⟩
    rcases emit_handedOver h.1 l with ⟨-, he⟩ | ⟨-, w, he, -⟩
    · rw [he]
      exact sized_clear h.2 _
    · rw [he]
      exact sized_clear h.2 w
  skip h _ := ⟨inv_clearAu h.1 _, sized_clear h.2 _⟩
  accepted _ h := h
  header t ssrc q a b d h := ⟨inv_stable.header (l := []) t ssrc q a b d h.1, h.2.au, h.2.fu, h.2.sps, h.2.pps⟩

/-- The sets put before an access unit take at most 128 KiB and 8 bytes. -/
theorem Sized.head {s : Depacketizer} (h : Sized s) :
    ((missing s).foldl appendAnnexB []).length ≤ 2 * 65540 := by
  have h7 := h.sps
  have h8 := h.pps
  rw [L1.H264.foldl_appendAnnexB, List.nil_append, L1.H264.length_annexB]
  unfold missing
  split
  · split <;> split <;> simp <;> omega
  · simp

/-! ## The functions, checked

Each mirrors the lines of the function it is named after. -/

def validNalC (n : Bytes) : Checked Bool :=
  if n = [] then pure false
  else do
    let h ← cget n 0
    pure (h &&& 0x80 == 0 && decide (0 < h &&& 31) && decide (h &&& 31 < 24))

def appendNaluC (s : Depacketizer) (l : Log) (n : Bytes) : Checked (Option (Depacketizer × Log)) := do
  let valid ← validNalC n
  if valid = false then pure none
  else do
    let most ← csub kMaxAccessUnitBytes 4
    if n.length > most then pure none
    else do
      let left ← csub kMaxAccessUnitBytes n.length
      let room ← csub left 4
      if s.au.length > room then pure none
      else do
        let h ← cget n 0
        let type := h &&& 31
        if (type = 7 ∨ type = 8) ∧ n.length > 65536 then pure none
        else
          let s := s.note n
          pure (some ({ s with idr := s.idr || type == 5, vcl := s.vcl || (1 ≤ type && type ≤ 5),
                               au := appendAnnexB s.au n, nalus := s.nalus ++ [n] }, l ++ [.nal n]))

def emitC (s : Depacketizer) (l : Log) : Checked (Depacketizer × Log) :=
  let head := (missing s).foldl appendAnnexB []
  if good s then do
    let room ← csub kMaxAccessUnitBytes head.length
    if s.au.length > room then pure (clearAu { s with waiting := true }, l ++ [.keyframe])
    else
      let w := if s.idr then false else s.waiting
      if head ++ s.au ≠ [] then
        pure (clearAu { s with waiting := w },
         l ++ [.emit ⟨head ++ s.au, s.timestamp, missing s ++ s.nalus, s.sps, s.pps⟩])
      else pure (clearAu { s with waiting := w }, l ++ if w then [.keyframe] else [])
  else
    let w := s.waiting || s.vcl || s.fu ≠ []
    pure (clearAu { s with waiting := w }, l ++ if w then [.keyframe] else [])

def singleC (s : Depacketizer) (l : Log) (p : Bytes) : Checked ((Depacketizer × Log) × Bool) :=
  if s.fu ≠ [] then pure ((s, l), false)
  else do
    match ← appendNaluC s l p with
    | some c => pure (c, true)
    | none => pure ((s, l), false)

/-- `offset`, `total` and `nalus` as in the source. -/
def stapNalusC (p : Bytes) : Nat → Nat → Nat → List Bytes → Checked (Option (Nat × List Bytes))
  | 0, offset, total, nalus => if offset < p.length then pure none else pure (some (total, nalus))
  | fuel + 1, offset, total, nalus =>
    if offset < p.length then do
      let rest ← csub p.length offset
      if rest < 2 then pure none
      else do
        let b0 ← cget p offset
        let b1 ← cget p (offset + 1)
        let length := (be16 b0 b1).toNat
        let rest ← csub p.length (offset + 2)
        if length = 0 ∨ length > rest ∨ nalus.length ≥ 1024 then pure none
        else do
          let n ← cspan p (offset + 2) length
          let valid ← validNalC n
          if valid = false then pure none
          else stapNalusC p fuel (offset + 2 + length) (total + (length + 4)) (nalus ++ [n])
    else pure (some (total, nalus))

def appendAllC (s : Depacketizer) (l : Log) : List Bytes → Checked ((Depacketizer × Log) × Bool)
  | [] => pure ((s, l), true)
  | n :: ns => do
    match ← appendNaluC s l n with
    | some c => appendAllC c.1 c.2 ns
    | none => pure ((s, l), false)

def stapAC (s : Depacketizer) (l : Log) (p : Bytes) : Checked ((Depacketizer × Log) × Bool) := do
  match ← stapNalusC p p.length 1 0 [] with
  | none => pure ((s, l), false)
  | some (total, nalus) =>
    if s.fu = [] ∧ nalus ≠ [] then do
      let room ← csub kMaxAccessUnitBytes s.au.length
      if total ≤ room then appendAllC s l nalus else pure ((s, l), false)
    else pure ((s, l), false)

def fuDataC (s : Depacketizer) (l : Log) (p : Bytes) (last : Bool) : Checked ((Depacketizer × Log) × Bool) := do
  let length ← csub p.length 2
  let most ← csub kMaxAccessUnitBytes 4
  if length > most then pure ((s, l), false)
  else do
    let left ← csub most length
    if s.fu.length > left then pure ((s, l), false)
    else do
      let room ← csub left s.fu.length
      if s.au.length > room then pure ((s, l), false)
      else do
        let data ← cspan p 2 length
        if last then do
          match ← appendNaluC s l (s.fu ++ data) with
          | some c => pure (({ c.1 with fu := [] }, c.2), true)
          | none => pure (({ s with fu := [] }, l), false)
        else pure (({ s with fu := s.fu ++ data }, l), true)

def fuAC (s : Depacketizer) (l : Log) (p : Bytes) : Checked ((Depacketizer × Log) × Bool) :=
  if p.length < 3 then pure ((s, l), false)
  else do
    let p1 ← cget p 1
    if p1 &&& 32 ≠ 0 ∨ p1 &&& 31 = 0 ∨ p1 &&& 31 > 23 ∨ p1 &&& 192 = 192 then pure ((s, l), false)
    else do
      let p0 ← cget p 0
      let header := (p0 &&& 224) ||| (p1 &&& 31)
      if p1 &&& 128 ≠ 0 then
        if s.fu ≠ [] then pure ((s, l), false)
        else fuDataC { s with fuHeader := header, fu := [header] } l p (p1 &&& 64 ≠ 0)
      else if s.fu = [] ∨ s.fuHeader ≠ header then pure ((s, l), false)
      else fuDataC s l p (p1 &&& 64 ≠ 0)

def payloadC (s : Depacketizer) (l : Log) (p : Bytes) : Checked ((Depacketizer × Log) × Bool) := do
  let p0 ← cget p 0
  let type := p0 &&& 31
  if 1 ≤ type ∧ type ≤ 23 then singleC s l p
  else if type = 24 then stapAC s l p
  else if type = 28 then fuAC s l p
  else pure ((s, l), false)

def boundaryC (s : Depacketizer) (l : Log) (p : RtpPacket) (gap : Bool) : Checked (Depacketizer × Log) :=
  if s.haveTimestamp = true ∧ p.timestamp ≠ s.timestamp then
    let c := if gap = true ∨ s.fu ≠ [] then lose s l else (s, l)
    emitC c.1 c.2
  else pure (s, l)

def consumeC (s : Depacketizer) (l : Log) (p : RtpPacket) : Checked (Depacketizer × Log) := do
  let p0 ← cget p.payload 0
  if p0 &&& 128 ≠ 0 then pure (lose s (l ++ [.rejected]))
  else do
    let c ← payloadC s l p.payload
    let c := if c.2 then c.1 else lose c.1.1 (c.1.2 ++ [.rejected])
    if p.marker then do
      let c ← emitC c.1 c.2
      pure ({ c.1 with haveTimestamp := false }, c.2)
    else pure c

def acceptC (s : Depacketizer) (l : Log) (p : RtpPacket) (gap : Bool) : Checked (Depacketizer × Log) := do
  let s := { s with sequence := p.sequence, haveSequence := true }
  let c ← boundaryC s l p gap
  let s := { c.1 with timestamp := p.timestamp, haveTimestamp := true }
  let l := c.2 ++ [.accepted p.sequence]
  let c := if gap then lose s l else (s, l)
  if c.1.damaged then
    if p.marker then pure ({ clearAu c.1 with haveTimestamp := false }, c.2) else pure c
  else consumeC c.1 c.2 p

def processRtpPacketC (s : Depacketizer) (l : Log) (bytes : Bytes) : Checked (Depacketizer × Log) :=
  match parseRtp bytes with
  | none => pure (lose s (l ++ [.unparsed]))
  | some p =>
    let c := if s.haveSsrc = true ∧ p.ssrc ≠ s.ssrc then (reset s, l ++ [.ssrcChange]) else (s, l)
    let s := { c.1 with haveSsrc := true, ssrc := p.ssrc }
    if s.haveSequence then
      let delta := sequenceDelta p.sequence s.sequence
      if delta ≤ 0 then pure (s, c.2) else acceptC s c.2 p (delta ≠ 1)
    else acceptC s c.2 p false

def callC (c : Depacketizer × Log) : Call → Checked (Depacketizer × Log)
  | .packet bytes => processRtpPacketC c.1 c.2 bytes
  | .reset => pure (reset c.1, c.2 ++ [.reset])

/-- A run stops at the first fault. -/
def runC (cs : List Call) : Checked (Depacketizer × Log) := cs.foldlM callC ({}, [])

/-! ## No fault -/

theorem validNalC_eq (n : Bytes) : validNalC n = .ok (validNal n) := by
  cases n with
  | nil => rfl
  | cons h t => rfl

theorem appendNaluC_eq (s : Depacketizer) (l : Log) (n : Bytes) :
    appendNaluC s l n = .ok (appendNalu s l n) := by
  unfold appendNaluC appendNalu
  rw [validNalC_eq, ok_bind]
  cases hv : validNal n with
  | false => simp only [if_true, true_or]; rfl
  | true =>
    obtain ⟨h, t, rfl⟩ := List.exists_cons_of_ne_nil (L1.H264.validNalu_ne_nil hv)
    rw [if_neg (by simp), csub_ok (show 4 ≤ kMaxAccessUnitBytes by decide), ok_bind]
    by_cases hlen : (h :: t).length > kMaxAccessUnitBytes - 4
    · rw [if_pos hlen, if_pos (.inr (.inl hlen))]
      rfl
    · have hroom : (h :: t).length ≤ kMaxAccessUnitBytes ∧ 4 ≤ kMaxAccessUnitBytes - (h :: t).length := by
        unfold kMaxAccessUnitBytes at hlen ⊢
        omega
      rw [if_neg hlen, csub_ok hroom.1, ok_bind, csub_ok hroom.2, ok_bind]
      by_cases hau : s.au.length > kMaxAccessUnitBytes - (h :: t).length - 4
      · rw [if_pos hau, if_pos (.inr (.inr hau))]
        rfl
      · rw [if_neg hau, if_neg (by simp only [not_or]; exact ⟨by simp, hlen, hau⟩),
          cget_ok (x := h) rfl, ok_bind]
        have htype : h &&& 31 = naluType (h :: t) := rfl
        simp only [htype]
        by_cases hset : (naluType (h :: t) = 7 ∨ naluType (h :: t) = 8) ∧ (h :: t).length > 65536
        · rw [if_pos hset, if_pos hset]
          rfl
        · rw [if_neg hset, if_neg hset]
          obtain ⟨f1, f2, f3, f4, -⟩ := note_frame s (h :: t)
          simp only [f1, f2, f3, f4]
          rfl

theorem emitC_eq {s : Depacketizer} (l : Log) (h : Sized s) : emitC s l = .ok (emit s l) := by
  have hhead := h.head
  unfold emitC emit
  simp only
  split
  · rw [csub_ok (by unfold kMaxAccessUnitBytes; omega), ok_bind]
    split
    · rfl
    · split
      · rfl
      · rfl
  · rfl

theorem singleC_eq (s : Depacketizer) (l : Log) (p : Bytes) : singleC s l p = .ok (single s l p) := by
  unfold singleC single
  split
  · rfl
  · rw [appendNaluC_eq, ok_bind]
    cases appendNalu s l p with
    | none => rfl
    | some c => rfl

theorem appendAllC_eq : ∀ (ns : List Bytes) (s : Depacketizer) (l : Log),
    appendAllC s l ns = .ok (appendAll s l ns)
  | [], _, _ => rfl
  | n :: ns, s, l => by
    unfold appendAllC appendAll
    rw [appendNaluC_eq, ok_bind]
    cases appendNalu s l n with
    | none => rfl
    | some c => exact appendAllC_eq ns c.1 c.2

/-- The loop by offsets against the loop on the bytes left. -/
theorem stapNalusC_eq (p : Bytes) : ∀ (fuel offset total : Nat) (nalus : List Bytes), offset ≤ p.length →
    stapNalusC p fuel offset total nalus = .ok ((stapNalus fuel nalus.length (p.drop offset)).map fun ns =>
      (total + (ns.map fun n => n.length + 4).sum, nalus ++ ns))
  | 0, offset, total, nalus, ho => by
    unfold stapNalusC
    by_cases h : offset < p.length
    · rw [if_pos h, List.drop_eq_getElem_cons h]
      simp only [stapNalus, Option.map_none]
      rfl
    · rw [if_neg h, List.drop_eq_nil_of_le (by omega)]
      simp [stapNalus]
      rfl
  | fuel + 1, offset, total, nalus, ho => by
    unfold stapNalusC
    by_cases h : offset < p.length
    · rw [if_pos h, csub_ok ho, ok_bind, List.drop_eq_getElem_cons h]
      by_cases h2 : p.length - offset < 2
      · rw [if_pos h2, List.drop_eq_nil_of_le (by omega)]
        rfl
      · have h1 : offset + 1 < p.length := by omega
        rw [if_neg h2, List.drop_eq_getElem_cons h1, cget_ok (List.getElem?_eq_getElem h), ok_bind,
          cget_ok (List.getElem?_eq_getElem h1), ok_bind]
        unfold stapNalus
        simp only
        generalize (be16 p[offset] p[offset + 1]).toNat = length
        rw [csub_ok (show offset + 2 ≤ p.length by omega), ok_bind]
        have hrest : (p.drop (offset + 1 + 1)).length = p.length - (offset + 2) := List.length_drop
        by_cases hbad : length = 0 ∨ length > p.length - (offset + 2) ∨ nalus.length ≥ 1024
        · rw [if_pos hbad, if_pos (by rw [hrest]; tauto)]
          rfl
        · rw [if_neg hbad, cspan_ok (by omega), ok_bind, validNalC_eq, ok_bind]
          show (if validNal ((p.drop (offset + 1 + 1)).take length) = false then _ else _) = _
          by_cases hv : validNal ((p.drop (offset + 1 + 1)).take length) = false
          · rw [if_pos hv, if_pos (.inr (.inr (.inr hv)))]
            rfl
          · have hlen : ((p.drop (offset + 2)).take length).length = length := by
              rw [List.length_take, List.length_drop]
              omega
            have ih := stapNalusC_eq p fuel (offset + 2 + length) (total + (length + 4))
              (nalus ++ [(p.drop (offset + 2)).take length]) (by omega)
            rw [List.length_append, List.length_singleton] at ih
            rw [if_neg hv, if_neg (by rw [hrest]; tauto), ih, List.drop_drop]
            show _ = Except.ok (Option.map _ (Option.map _ (stapNalus fuel (nalus.length + 1)
              (p.drop (offset + 2 + length)))))
            rw [Option.map_map]
            congr 2
            funext ns
            simp only [Function.comp_apply, List.map_cons, List.sum_cons, List.append_assoc, List.singleton_append]
            rw [hlen, Nat.add_assoc]
    · rw [if_neg h, List.drop_eq_nil_of_le (by omega)]
      simp [stapNalus]
      rfl

theorem stapAC_eq {s : Depacketizer} (l : Log) (p : Bytes) (h : Sized s) (hp : p ≠ []) :
    stapAC s l p = .ok (stapA s l p) := by
  unfold stapAC stapA
  rw [stapNalusC_eq p p.length 1 0 [] (List.length_pos_of_ne_nil hp), ok_bind, List.drop_one, List.length_nil]
  cases stapNalus p.length 0 p.tail with
  | none => rfl
  | some ns =>
    simp only [Option.map_some, List.nil_append, Nat.zero_add]
    by_cases hready : s.fu = [] ∧ ns ≠ []
    · rw [if_pos hready, csub_ok h.au, ok_bind]
      by_cases hfit : (ns.map fun n => n.length + 4).sum ≤ kMaxAccessUnitBytes - s.au.length
      · rw [if_pos hfit, if_pos ⟨hready.1, hready.2, hfit⟩, appendAllC_eq]
      · rw [if_neg hfit, if_neg (fun hh => hfit hh.2.2)]
        rfl
    · rw [if_neg hready, if_neg (fun hh => hready ⟨hh.1, hh.2.1⟩)]
      rfl

theorem fuDataC_eq (s : Depacketizer) (l : Log) (p0 p1 : UInt8) (data : Bytes) (last : Bool) :
    fuDataC s l (p0 :: p1 :: data) last = .ok (fuData s l data last) := by
  unfold fuDataC fuData
  have hlen : (p0 :: p1 :: data).length - 2 = data.length := by simp
  rw [csub_ok (by simp), ok_bind, hlen, csub_ok (show 4 ≤ kMaxAccessUnitBytes by decide), ok_bind]
  by_cases h1 : data.length > kMaxAccessUnitBytes - 4
  · rw [if_pos h1, if_pos (.inl h1)]
    rfl
  · rw [if_neg h1, csub_ok (by omega), ok_bind]
    by_cases h2 : s.fu.length > kMaxAccessUnitBytes - 4 - data.length
    · rw [if_pos h2, if_pos (.inr (.inl h2))]
      rfl
    · rw [if_neg h2, csub_ok (by omega), ok_bind]
      by_cases h3 : s.au.length > kMaxAccessUnitBytes - 4 - data.length - s.fu.length
      · rw [if_pos h3, if_pos (.inr (.inr h3))]
        rfl
      · rw [if_neg h3, if_neg (by tauto), cspan_ok (by simp; omega), ok_bind]
        have hspan : ((p0 :: p1 :: data).drop 2).take data.length = data := List.take_length
        rw [hspan]
        split
        · rw [appendNaluC_eq, ok_bind]
          cases appendNalu s l (s.fu ++ data) with
          | none => rfl
          | some c => rfl
        · rfl

theorem fuAC_eq (s : Depacketizer) (l : Log) (p : Bytes) : fuAC s l p = .ok (fuA s l p) := by
  unfold fuAC
  match p with
  | [] => rfl
  | [_] => rfl
  | [_, _] => rfl
  | p0 :: p1 :: p2 :: data =>
    unfold fuA
    rw [if_neg (by simp), cget_ok (x := p1) rfl, ok_bind]
    simp only
    by_cases hbad : p1 &&& 32 ≠ 0 ∨ p1 &&& 31 = 0 ∨ p1 &&& 31 > 23 ∨ p1 &&& 192 = 192
    · rw [if_pos hbad, if_pos hbad]
      rfl
    · rw [if_neg hbad, if_neg hbad, cget_ok (x := p0) rfl, ok_bind]
      split
      · split
        · rfl
        · exact fuDataC_eq _ l p0 p1 (p2 :: data) _
      · split
        · rfl
        · exact fuDataC_eq s l p0 p1 (p2 :: data) _

theorem payloadC_eq {s : Depacketizer} (l : Log) {p : Bytes} (h : Sized s) (hp : p ≠ []) :
    payloadC s l p = .ok (payload s l p) := by
  obtain ⟨p0, t, rfl⟩ := List.exists_cons_of_ne_nil hp
  unfold payloadC payload
  have htype : p0 &&& 31 = naluType (p0 :: t) := rfl
  rw [cget_ok (x := p0) rfl, ok_bind, singleC_eq, stapAC_eq l _ h hp, fuAC_eq]
  simp only [htype]
  split
  · rfl
  · split
    · rfl
    · split
      · rfl
      · rfl

theorem boundaryC_eq {s : Depacketizer} (l : Log) (p : RtpPacket) (gap : Bool) (hs : Inv s ∧ Sized s) :
    boundaryC s l p gap = .ok (boundary s l p gap) := by
  have hcut := sized_stable.lost (gap = true ∨ s.fu ≠ []) (l := l) hs
  unfold boundaryC boundary
  split
  · exact emitC_eq _ hcut.2
  · rfl

theorem consumeC_eq {s : Depacketizer} (l : Log) {p : RtpPacket} (hs : Inv s ∧ Sized s) :
    consumeC s l p = .ok (consume s l p) := by
  have hsettled := sized_stable.settle (sized_stable.payload (l := l) hs p.payload)
  obtain ⟨p0, t, hcons⟩ := List.exists_cons_of_ne_nil p.payload_ne
  have hget : cget p.payload 0 = .ok (p.payload.headD 0) := by
    rw [hcons]
    rfl
  unfold consumeC consume
  rw [hget, ok_bind, payloadC_eq l hs.2 p.payload_ne]
  split
  · rfl
  · simp only [ok_bind]
    split
    · exact (congrArg (· >>= _) (emitC_eq _ hsettled.2)).trans rfl
    · rfl

theorem acceptC_eq {s : Depacketizer} (l : Log) {p : RtpPacket} (gap : Bool) (hs : Inv s ∧ Sized s) :
    acceptC s l p gap = .ok (accept s l p gap) := by
  have hn := sized_stable.numbered (p := p) (l := l) hs
  have ha := sized_stable.arrived (p := p) (l := l) hs gap
  have hb : boundaryC { s with sequence := p.sequence, haveSequence := true } l p gap = .ok _ :=
    boundaryC_eq l p gap hn
  unfold acceptC accept
  simp only
  rw [hb, ok_bind]
  show (if (arrived s l p gap).1.damaged = true then _ else _) = Except.ok
    (if (arrived s l p gap).1.damaged = true then _ else _)
  split
  · split
    · rfl
    · rfl
  · exact consumeC_eq _ ha

theorem processRtpPacketC_eq {s : Depacketizer} (l : Log) (bytes : Bytes) (hs : Inv s ∧ Sized s) :
    processRtpPacketC s l bytes = .ok (processRtpPacket s l bytes) := by
  cases hparse : parseRtp bytes with
  | none =>
    unfold processRtpPacketC processRtpPacket
    rw [hparse]
    rfl
  | some p =>
    have haccept := fun gap => acceptC_eq (p := p) (entered s l p).2 gap (sized_stable.entered (p := p) (l := l) hs)
    unfold processRtpPacketC
    rw [process_parsed hparse, hparse]
    show (if (entered s l p).1.haveSequence = true then
        if sequenceDelta p.sequence (entered s l p).1.sequence ≤ 0 then pure (entered s l p)
        else acceptC (entered s l p).1 (entered s l p).2 p (sequenceDelta p.sequence (entered s l p).1.sequence ≠ 1)
      else acceptC (entered s l p).1 (entered s l p).2 p false) = _
    rw [haccept, haccept]
    unfold gapBefore
    split
    · split
      · rfl
      · rfl
    · rfl

theorem callC_eq {c : Depacketizer × Log} (a : Call) (hs : Inv c.1 ∧ Sized c.1) : callC c a = .ok (call c a) := by
  cases a with
  | packet bytes => exact processRtpPacketC_eq c.2 bytes hs
  | reset => rfl

/-- **No run faults.** -/
theorem runC_eq (cs : List Call) : runC cs = .ok (run cs) := by
  have key : ∀ (cs : List Call) {c : Depacketizer × Log}, Inv c.1 ∧ Sized c.1 →
      cs.foldlM callC c = .ok (cs.foldl call c) := by
    intro cs
    induction cs with
    | nil => exact fun _ => rfl
    | cons a cs ih =>
      intro c hs
      rw [List.foldlM_cons, callC_eq a hs, ok_bind]
      exact ih (sized_stable.call hs a)
  exact key cs sized_stable.init

/-! ## A refused payload leaves nothing -/

theorem stapNalus_some : ∀ {fuel count : Nat} {b : Bytes} {ns : List Bytes}, stapNalus fuel count b = some ns →
    ∀ n ∈ ns, validNal n = true ∧ n.length ≤ 65535
  | fuel, _, [], ns, h => by
    obtain rfl : [] = ns := by
      cases fuel <;> simpa [stapNalus] using h
    exact fun n hn => nomatch hn
  | 0, _, _ :: _, _, h => by simp [stapNalus] at h
  | _ + 1, _, [_], _, h => by simp [stapNalus] at h
  | fuel + 1, count, b0 :: b1 :: rest, ns, h => by
    unfold stapNalus at h
    simp only at h
    split at h
    · cases h
    · rename_i hgood
      obtain ⟨more, hmore, rfl⟩ := Option.map_eq_some_iff.mp h
      intro n hn
      rcases List.mem_cons.mp hn with rfl | hn
      · have hlt := (be16 b0 b1).toNat_lt
        simp only [not_or, Bool.not_eq_false] at hgood
        refine ⟨hgood.2.2.2, ?_⟩
        rw [List.length_take]
        omega
      · exact stapNalus_some hmore n hn

/-- Units that fit together are appended one after the other. -/
theorem appendAll_fits : ∀ {ns : List Bytes} {s : Depacketizer} (l : Log),
    (∀ n ∈ ns, validNal n = true ∧ n.length ≤ 65535) →
    s.au.length + (ns.map fun n => n.length + 4).sum ≤ kMaxAccessUnitBytes → (appendAll s l ns).2 = true
  | [], _, _, _, _ => rfl
  | n :: ns, s, l, hns, hfit => by
    obtain ⟨hv, hlen⟩ := hns n (List.mem_cons_self ..)
    rw [List.map_cons, List.sum_cons] at hfit
    unfold appendAll
    cases ha : appendNalu s l n with
    | none =>
      unfold appendNalu at ha
      rw [if_neg (by simp only [hv, not_or]; exact ⟨by simp, by unfold kMaxAccessUnitBytes; omega,
        by unfold kMaxAccessUnitBytes at hfit ⊢; omega⟩), if_neg (by omega)] at ha
      cases ha
    | some c =>
      obtain ⟨-, -, -, -, rfl⟩ := appendNalu_some ha
      refine appendAll_fits _ (fun m hm => hns m (List.mem_cons_of_mem _ hm)) ?_
      simp only [appendAnnexB, List.length_append, List.length_cons, List.length_nil]
      omega

/-- A refused payload has appended no unit and changed no parameter set. -/
def Untouched (s : Depacketizer) (l : Log) (c : (Depacketizer × Log) × Bool) : Prop :=
  c.2 = false → c.1.2 = l ∧ c.1.1.sps = s.sps ∧ c.1.1.pps = s.pps

theorem untouched_refused (s : Depacketizer) (l : Log) (fu : Bytes) (header : UInt8) :
    Untouched s l (({ s with fu := fu, fuHeader := header }, l), false) := fun _ => ⟨rfl, rfl, rfl⟩

theorem untouched_single (s : Depacketizer) (l : Log) (p : Bytes) : Untouched s l (single s l p) := by
  unfold single
  split
  · exact untouched_refused s l s.fu s.fuHeader
  · cases appendNalu s l p with
    | none => exact untouched_refused s l s.fu s.fuHeader
    | some c => exact fun h => nomatch h

theorem untouched_stapA (s : Depacketizer) (l : Log) (p : Bytes) : Untouched s l (stapA s l p) := by
  unfold stapA
  cases hns : stapNalus p.length 0 p.tail with
  | none => exact untouched_refused s l s.fu s.fuHeader
  | some ns =>
    simp only
    split
    · rename_i hfit
      -- the sizes were added up before, so no unit of the packet is refused
      have hpos : 0 < (ns.map fun n => n.length + 4).sum := by
        obtain ⟨n, t, rfl⟩ := List.exists_cons_of_ne_nil hfit.2.1
        simp only [List.map_cons, List.sum_cons]
        omega
      have hall := appendAll_fits l (stapNalus_some hns) (s := s) (by omega)
      exact fun h => by
        rw [hall] at h
        cases h
    · exact untouched_refused s l s.fu s.fuHeader

theorem untouched_fuData (s : Depacketizer) (l : Log) (data : Bytes) (last : Bool) :
    Untouched s l (fuData s l data last) := by
  unfold fuData
  split
  · exact untouched_refused s l s.fu s.fuHeader
  · split
    · cases appendNalu s l (s.fu ++ data) with
      | none => exact untouched_refused s l [] s.fuHeader
      | some c => exact fun h => nomatch h
    · exact fun h => nomatch h

theorem untouched_fuA (s : Depacketizer) (l : Log) (p : Bytes) : Untouched s l (fuA s l p) := by
  unfold fuA
  split
  · rename_i p0 p1 p2 data
    simp only
    split
    · exact untouched_refused s l s.fu s.fuHeader
    · split
      · split
        · exact untouched_refused s l s.fu s.fuHeader
        · exact untouched_fuData { s with fuHeader := _, fu := _ } l _ _
      · split
        · exact untouched_refused s l s.fu s.fuHeader
        · exact untouched_fuData s l _ _
  · exact untouched_refused s l s.fu s.fuHeader

theorem untouched_payload (s : Depacketizer) (l : Log) (p : Bytes) : Untouched s l (payload s l p) := by
  unfold payload
  simp only
  split
  · exact untouched_single s l p
  · split
    · exact untouched_stapA s l p
    · split
      · exact untouched_fuA s l p
      · exact untouched_refused s l s.fu s.fuHeader

/-- A step that appends no unit and refuses none. The sets are kept, or dropped
by a reset. -/
structure Quietly (s : Depacketizer) (l : Log) (c : Depacketizer × Log) : Prop where
  log : ∃ d, c.2 = l ++ d ∧ .rejected ∉ d ∧ units d = []
  sps : c.1.sps = s.sps ∨ c.1.sps = []
  pps : c.1.pps = s.pps ∨ c.1.pps = []

theorem Quietly.trans {s : Depacketizer} {l : Log} {c c' : Depacketizer × Log} (h : Quietly s l c)
    (h' : Quietly c.1 c.2 c') : Quietly s l c' := by
  obtain ⟨d, hd, hr, hu⟩ := h.log
  obtain ⟨d', hd', hr', hu'⟩ := h'.log
  refine ⟨⟨d ++ d', by rw [hd', hd, List.append_assoc], by simp [hr, hr'], ?_⟩, ?_, ?_⟩
  · unfold units at hu hu' ⊢
    rw [List.filterMap_append, hu, hu']
    rfl
  · rcases h'.sps with e | e
    · exact h.sps.imp e.trans e.trans
    · exact .inr e
  · rcases h'.pps with e | e
    · exact h.pps.imp e.trans e.trans
    · exact .inr e

theorem quietly_lost (Q : Prop) [Decidable Q] (s : Depacketizer) (l : Log) : Quietly s l (lost Q (s, l)) := by
  unfold lost
  split
  · exact ⟨⟨[.keyframe], rfl, by decide, rfl⟩, .inl rfl, .inl rfl⟩
  · exact ⟨⟨[], (List.append_nil l).symm, by decide, rfl⟩, .inl rfl, .inl rfl⟩

theorem quietly_emit {s : Depacketizer} (l : Log) (h : Inv s) : Quietly s l (emit s l) := by
  rcases emit_handedOver h l with ⟨-, he⟩ | ⟨-, w, he, -⟩
  · rw [he]
    exact ⟨⟨_, rfl, by simp, rfl⟩, .inl rfl, .inl rfl⟩
  · rw [he]
    refine ⟨⟨_, rfl, ?_, ?_⟩, .inl rfl, .inl rfl⟩
    · cases w <;> simp
    · cases w <;> rfl

theorem quietly_entered (s : Depacketizer) (l : Log) (p : RtpPacket) : Quietly s l (entered s l p) := by
  unfold entered
  split
  · exact ⟨⟨[.ssrcChange], rfl, by decide, rfl⟩, .inr rfl, .inr rfl⟩
  · exact ⟨⟨[], (List.append_nil l).symm, by decide, rfl⟩, .inl rfl, .inl rfl⟩

theorem quietly_arrived {s : Depacketizer} (l : Log) (p : RtpPacket) (gap : Bool) (h : Inv s) :
    Quietly s l (arrived s l p gap) := by
  have hb : Quietly (numbered s p) l (boundary (numbered s p) l p gap) := by
    have hcut := quietly_lost (gap = true ∨ (numbered s p).fu ≠ []) (numbered s p) l
    have hinv := inv_stable.lost (gap = true ∨ (numbered s p).fu ≠ []) (l := l)
      (inv_stable.numbered (l := l) (p := p) h)
    unfold boundary
    split
    · exact hcut.trans (quietly_emit _ hinv)
    · exact ⟨⟨[], (List.append_nil l).symm, by decide, rfl⟩, .inl rfl, .inl rfl⟩
  have hstamp : Quietly s l (stamp p ((boundary (numbered s p) l p gap).1,
      (boundary (numbered s p) l p gap).2 ++ [.accepted p.sequence])) :=
    Quietly.trans (c := boundary (numbered s p) l p gap) ⟨hb.log, hb.sps, hb.pps⟩
      ⟨⟨[.accepted p.sequence], rfl, by simp, rfl⟩, .inl rfl, .inl rfl⟩
  exact hstamp.trans (quietly_lost _ _ _)

/-- Nothing of a refused payload is left: no unit was appended, nothing is
gathered, and the sets are older. -/
structure Left (s : Depacketizer) (d : Log) (s' : Depacketizer) : Prop where
  units : units d = []
  au : s'.au = []
  fu : s'.fu = []
  sps : s'.sps = s.sps ∨ s'.sps = []
  pps : s'.pps = s.pps ∨ s'.pps = []

theorem Left.after {s : Depacketizer} {l d : Log} {c : Depacketizer × Log} {s' : Depacketizer}
    (h : Quietly s l c) (h' : Left c.1 d s') : ∃ d₀, c.2 = l ++ d₀ ∧ .rejected ∉ d₀ ∧ Left s (d₀ ++ d) s' := by
  obtain ⟨d₀, hd, hr, hu⟩ := h.log
  refine ⟨d₀, hd, hr, ?_, h'.au, h'.fu, ?_, ?_⟩
  · have hu' := h'.units
    unfold RtpVideo.units at hu hu' ⊢
    rw [List.filterMap_append, hu, hu']
    rfl
  · rcases h'.sps with e | e
    · exact h.sps.imp e.trans e.trans
    · exact .inr e
  · rcases h'.pps with e | e
    · exact h.pps.imp e.trans e.trans
    · exact .inr e

/-- A payload that is taken logs its units only. -/
theorem payload_log (s : Depacketizer) (l : Log) (p : Bytes) :
    ∃ ns : List Bytes, (payload s l p).1.2 = l ++ ns.map .nal := by
  have hP : Appends fun _ m => ∃ ns : List Bytes, m = l ++ ns.map .nal := by
    refine ⟨fun h ha => ?_, fun _ _ h _ => h⟩
    obtain ⟨ns, rfl⟩ := h
    rename_i n c
    obtain ⟨-, -, -, -, rfl⟩ := appendNalu_some ha
    exact ⟨ns ++ [n], by simp⟩
  exact hP.payload ⟨[], by simp⟩ p

theorem emit_empties {s : Depacketizer} (l : Log) (h : Inv s) : (emit s l).1.au = [] ∧ (emit s l).1.fu = [] := by
  rcases emit_handedOver h l with ⟨-, he⟩ | ⟨-, w, he, -⟩ <;> rw [he] <;> exact ⟨rfl, rfl⟩

theorem finish_left {s : Depacketizer} {l d : Log} {c : Depacketizer × Log} (marker : Bool) (hinv : Inv c.1)
    (hlog : c.2 = l ++ d) (h : Left s d c.1) :
    ∃ d', (finish c marker).2 = l ++ d' ∧ Left s d' (finish c marker).1 := by
  unfold finish
  split
  · have hq := quietly_emit c.2 hinv
    obtain ⟨d', hd', -, hu'⟩ := hq.log
    obtain ⟨hau, hfu⟩ := emit_empties c.2 hinv
    have hu := h.units
    refine ⟨d ++ d', by rw [hd', hlog, List.append_assoc], ?_, hau, hfu, ?_, ?_⟩
    · unfold units at hu hu' ⊢
      rw [List.filterMap_append, hu, hu']
      rfl
    · rcases hq.sps with e | e
      · exact h.sps.imp e.trans e.trans
      · exact .inr e
    · rcases hq.pps with e | e
      · exact h.pps.imp e.trans e.trans
      · exact .inr e
  · exact ⟨d, hlog, h⟩

theorem consume_left {s : Depacketizer} (l : Log) (p : RtpPacket) (h : Inv s) :
    ∃ d, (consume s l p).2 = l ++ d ∧ (.rejected ∈ d → Left s d (consume s l p).1) := by
  rw [consume_eq]
  split
  · refine ⟨[.rejected, .keyframe], by simp [lose], fun _ => ⟨rfl, rfl, rfl, .inl rfl, .inl rfl⟩⟩
  · have hpay := inv_stable.payload (l := l) h p.payload
    cases hok : (payload s l p.payload).2 with
    | true =>
      obtain ⟨ns, hns⟩ := payload_log s l p.payload
      have hset : settle (payload s l p.payload) = (payload s l p.payload).1 := if_pos hok
      have hno : (.rejected : Event) ∉ ns.map .nal := by simp
      rw [hset]
      unfold finish
      split
      · obtain ⟨d, hd, hr, -⟩ := (quietly_emit (payload s l p.payload).1.2 hpay).log
        refine ⟨ns.map .nal ++ d, by rw [hd, hns, List.append_assoc], fun hrej => ?_⟩
        rcases List.mem_append.mp hrej with hrej | hrej
        · exact absurd hrej hno
        · exact absurd hrej hr
      · exact ⟨ns.map .nal, hns, fun hrej => absurd hrej hno⟩
    | false =>
      obtain ⟨hlog, hsps, hpps⟩ := untouched_payload s l p.payload hok
      have hset : settle (payload s l p.payload) =
          lose (payload s l p.payload).1.1 ((payload s l p.payload).1.2 ++ [.rejected]) := by
        unfold settle
        rw [hok]
        rfl
      rw [hset, hlog]
      obtain ⟨d, hd, hleft⟩ := finish_left p.marker (inv_lose hpay (l ++ [.rejected]))
        (show (lose (payload s l p.payload).1.1 (l ++ [.rejected])).2 = l ++ [.rejected, .keyframe] by simp [lose])
        (s := s) ⟨rfl, rfl, rfl, .inl hsps, .inl hpps⟩
      exact ⟨d, hd, fun _ => hleft⟩

/-- What a datagram adds to the log, and leaves of a payload it refuses. -/
theorem packet_left {s : Depacketizer} (l : Log) (bytes : Bytes) (h : Inv s) :
    ∃ d, (processRtpPacket s l bytes).2 = l ++ d ∧
      (.rejected ∈ d → Left s d (processRtpPacket s l bytes).1) := by
  cases hp : parseRtp bytes with
  | none =>
    refine ⟨[.unparsed, .keyframe], ?_, ?_⟩
    · unfold processRtpPacket
      rw [hp]
      simp [lose]
    · intro hrej
      simp at hrej
  | some p =>
    rw [process_parsed hp]
    have hent := quietly_entered s l p
    have hinv := inv_stable.entered (p := p) (l := l) h
    cases gapBefore (entered s l p).1 p with
    | none =>
      obtain ⟨d, hd, hr, -⟩ := hent.log
      exact ⟨d, hd, fun hrej => absurd hrej hr⟩
    | some gap =>
      simp only
      rw [accept_arrived]
      have harr := hent.trans (quietly_arrived (entered s l p).2 p gap hinv)
      have hinv' := inv_stable.arrived (p := p) (l := (entered s l p).2) hinv gap
      generalize arrived (entered s l p).1 (entered s l p).2 p gap = c at harr hinv'
      obtain ⟨d₀, hd₀, hr₀, -⟩ := harr.log
      unfold take
      split
      · split
        · exact ⟨d₀, hd₀, fun hrej => absurd hrej hr₀⟩
        · exact ⟨d₀, hd₀, fun hrej => absurd hrej hr₀⟩
      · obtain ⟨d, hd, hleft⟩ := consume_left c.2 p hinv'
        refine ⟨d₀ ++ d, by rw [hd, hd₀, List.append_assoc], fun hrej => ?_⟩
        have hin : .rejected ∈ d := (List.mem_append.mp hrej).resolve_left hr₀
        obtain ⟨d₁, hd₁, -, hl⟩ := Left.after harr (hleft hin)
        obtain rfl : d₁ = d₀ := List.append_cancel_left (hd₁.symm.trans hd₀)
        exact hl

/-! ## Later emissions -/

/-- The log since the last refused payload. -/
def sinceRejected (l : Log) : Log := l.rtakeWhile (· != .rejected)

/-- An emission is made of whole units: appended since the last refusal, or
parameter sets cached before. -/
def WholeUnits (l : Log) : Prop :=
  EachAfter (fun pre x => ∀ e, x = .emit e → e.data = annexB e.nalus ∧
    ∀ n ∈ e.nalus, n ∈ units (sinceRejected pre) ∨ ((n = e.sps ∨ n = e.pps) ∧ n ∈ units pre)) l

/-- Where the units and the sets of a state come from. -/
structure Traced (s : Depacketizer) (l : Log) : Prop extends Inv s where
  gathered : ∀ n ∈ s.nalus, n ∈ units (sinceRejected l)
  cachedSps : s.sps ≠ [] → s.sps ∈ units l
  cachedPps : s.pps ≠ [] → s.pps ∈ units l
  whole : WholeUnits l

theorem sinceRejected_snoc {x : Event} (hx : x ≠ .rejected) (l : Log) :
    sinceRejected (l ++ [x]) = sinceRejected l ++ [x] := by
  unfold sinceRejected
  rw [List.rtakeWhile_concat_pos _ _ _ (by simpa using hx)]

theorem mem_units_append {n : Bytes} {l : Log} (h : n ∈ units l) (m : Log) : n ∈ units (l ++ m) := by
  unfold units at h ⊢
  rw [List.filterMap_append]
  exact List.mem_append_left _ h

/-- The log grows by an event that is no emission, and nothing is gathered. -/
theorem Traced.snoc {s s' : Depacketizer} {l : Log} (h : Traced s l) {x : Event} (hx : ∀ e, x ≠ .emit e)
    (hinv : Inv s') (hnone : s'.nalus = []) (hsps : s'.sps = s.sps ∨ s'.sps = [])
    (hpps : s'.pps = s.pps ∨ s'.pps = []) : Traced s' (l ++ [x]) := by
  refine ⟨hinv, ?_, ?_, ?_, h.whole.snoc fun e he => absurd he (hx e)⟩
  · intro n hn
    rw [hnone] at hn
    cases hn
  · intro hne
    rcases hsps with e | e
    · rw [e] at hne ⊢
      exact mem_units_append (h.cachedSps hne) _
    · exact absurd e hne
  · intro hne
    rcases hpps with e | e
    · rw [e] at hne ⊢
      exact mem_units_append (h.cachedPps hne) _
    · exact absurd e hne

theorem traced_append {s : Depacketizer} {l : Log} {n : Bytes} {c : Depacketizer × Log} (h : Traced s l)
    (ha : appendNalu s l n = some c) : Traced c.1 c.2 := by
  have hinv := inv_append h.toInv ha
  obtain ⟨-, -, -, -, rfl⟩ := appendNalu_some ha
  have hnew : n ∈ units (l ++ [.nal n]) := by simp [units]
  have hold : (s.note n).sps = n ∨ (s.note n).sps = s.sps := by
    unfold Depacketizer.note
    split
    · exact .inl rfl
    · split
      · exact .inr rfl
      · exact .inr rfl
  have hold' : (s.note n).pps = n ∨ (s.note n).pps = s.pps ∨ (s.note n).pps = [] := by
    unfold Depacketizer.note
    split
    · simp only
      split
      · exact .inr (.inl rfl)
      · exact .inr (.inr rfl)
    · split
      · exact .inl rfl
      · exact .inr (.inl rfl)
  refine ⟨hinv, ?_, ?_, ?_, h.whole.snoc (by simp)⟩
  · intro m hm
    rw [sinceRejected_snoc (by simp)]
    rcases List.mem_append.mp hm with hm | hm
    · exact mem_units_append (h.gathered m hm) _
    · obtain rfl := List.mem_singleton.mp hm
      simp [units]
  · intro hne
    change (s.note n).sps ≠ [] at hne
    show (s.note n).sps ∈ _
    rcases hold with e | e
    · rw [e]
      exact hnew
    · rw [e] at hne ⊢
      exact mem_units_append (h.cachedSps hne) _
  · intro hne
    change (s.note n).pps ≠ [] at hne
    show (s.note n).pps ∈ _
    rcases hold' with e | e | e
    · rw [e]
      exact hnew
    · rw [e] at hne ⊢
      exact mem_units_append (h.cachedPps hne) _
    · exact absurd e hne

theorem traced_emit {s : Depacketizer} {l : Log} (h : Traced s l) : Traced (emit s l).1 (emit s l).2 := by
  rcases emit_handedOver h.toInv l with ⟨hh, he⟩ | ⟨-, w, he, -⟩
  · rw [he]
    refine ⟨inv_clearAu h.toInv _, fun n hn => (nomatch hn), fun hne => mem_units_append (h.cachedSps hne) _,
      fun hne => mem_units_append (h.cachedPps hne) _, h.whole.snoc ?_⟩
    intro e he
    cases he
    refine ⟨rfl, ?_⟩
    intro n hn
    rcases List.mem_append.mp hn with hn | hn
    · unfold missing at hn
      split at hn
      · rename_i hidr
        obtain ⟨h7, h8⟩ := hh.1.2.2.2.2.resolve_left (by simp [hidr])
        right
        rcases List.mem_append.mp hn with hn | hn
        · split at hn
          · cases hn
          · obtain rfl := List.mem_singleton.mp hn
            exact ⟨.inl rfl, h.cachedSps h7⟩
        · split at hn
          · cases hn
          · obtain rfl := List.mem_singleton.mp hn
            exact ⟨.inr rfl, h.cachedPps h8⟩
      · cases hn
    · exact .inl (h.gathered n hn)
  · rw [he]
    cases w with
    | true => exact h.snoc (fun e he => nomatch he) (inv_clearAu h.toInv true) rfl (.inl rfl) (.inl rfl)
    | false =>
      rw [if_neg (by simp), List.append_nil]
      exact ⟨inv_clearAu h.toInv false, fun n hn => (nomatch hn), h.cachedSps, h.cachedPps, h.whole⟩

theorem traced_stable : Stable Traced where
  append := traced_append
  fragment fu header h hfu :=
    ⟨inv_stable.fragment (l := []) fu header h.toInv hfu, h.gathered, h.cachedSps, h.cachedPps, h.whole⟩
  init :=
    ⟨inv_reset {}, fun n hn => (nomatch hn), fun hne => absurd rfl hne, fun hne => absurd rfl hne, eachAfter_nil _⟩
  reset {s _} x h hx := by
    refine h.snoc ?_ (inv_reset s) rfl (.inr rfl) (.inr rfl)
    intro e he
    rcases hx with rfl | rfl <;> cases he
  lose {s l} why h hwhy := by
    have hlost : ∀ (x : Event), (∀ e, x ≠ .emit e) → Traced (RtpVideo.lose s l).1 (l ++ [x]) := fun x hx =>
      h.snoc hx (inv_lose h.toInv l) rfl (.inl rfl) (.inl rfl)
    have hkey : ∀ {m : Log}, Traced (RtpVideo.lose s l).1 m → Traced (RtpVideo.lose s l).1 (m ++ [.keyframe]) :=
      fun hm => hm.snoc (fun e he => nomatch he) hm.toInv rfl (.inl rfl) (.inl rfl)
    rcases hwhy with rfl | rfl | rfl
    · rw [List.append_nil]
      exact hlost .keyframe fun e he => nomatch he
    · exact hkey (hlost .unparsed fun e he => nomatch he)
    · exact hkey (hlost .rejected fun e he => nomatch he)
  emit := traced_emit
  skip h _ := ⟨inv_clearAu h.toInv _, fun n hn => (nomatch hn), h.cachedSps, h.cachedPps, h.whole⟩
  accepted {s l} q h := by
    refine ⟨h.toInv, ?_, fun hne => mem_units_append (h.cachedSps hne) _,
      fun hne => mem_units_append (h.cachedPps hne) _, h.whole.snoc fun e he => nomatch he⟩
    intro n hn
    rw [sinceRejected_snoc (by simp)]
    exact mem_units_append (h.gathered n hn) _
  header t ssrc q a b d h :=
    ⟨inv_stable.header (l := []) t ssrc q a b d h.toInv, h.gathered, h.cachedSps, h.cachedPps, h.whole⟩

theorem units_sinceRejected {n : Bytes} {l : Log} (h : n ∈ units (sinceRejected l)) : n ∈ units l :=
  ((List.rtakeWhile_suffix _ l).sublist.filterMap _).subset h

/-! ## Every run -/

theorem emission_fits {cs : List Call} {e : Emission} (he : e ∈ emissions (run cs).2) :
    e.data.length ≤ kMaxAccessUnitBytes := by
  obtain ⟨x, hx, hh, rfl⟩ := mem_emissions_run.mp he
  obtain ⟨hinv, hsized⟩ := sized_stable.ends hx
  have hhead := hsized.head
  have hfits := hh.2
  calc x.1.emission.data.length
      = ((missing x.1).foldl appendAnnexB []).length + x.1.au.length := by
        rw [L1.H264.foldl_appendAnnexB, hinv.au, List.nil_append, ← List.length_append, ← L1.H264.annexB_append]
        rfl
    _ ≤ kMaxAccessUnitBytes := by
        unfold kMaxAccessUnitBytes at hfits ⊢
        omega

/-- **Size safety.** In every run no subtraction wraps and no read is out of
bounds; the access unit and the fragments so far, the cached sets and what is
emitted keep to their limits. A datagram whose payload is refused appends no
unit and leaves nothing gathered, and a later emission is made of units that
other datagrams appended whole. -/
theorem sizes_safe (cs : List Call) :
    runC cs = .ok (run cs) ∧ Sized (run cs).1 ∧
    (∀ e ∈ emissions (run cs).2, e.data.length ≤ kMaxAccessUnitBytes) ∧
    (∀ bytes d, (run (cs ++ [.packet bytes])).2 = (run cs).2 ++ d → .rejected ∈ d →
      Left (run cs).1 d (run (cs ++ [.packet bytes])).1) ∧
    WholeUnits (run cs).2 := by
  refine ⟨runC_eq cs, (sized_stable.run cs).2, fun e he => emission_fits he, ?_,
    (traced_stable.run cs).whole⟩
  intro bytes d hd hrej
  have hstep : run (cs ++ [.packet bytes]) = processRtpPacket (run cs).1 (run cs).2 bytes := by
    unfold run
    rw [List.foldl_append]
    rfl
  obtain ⟨d', hd', hleft⟩ := packet_left (run cs).2 bytes (inv_stable.run cs)
  rw [hstep] at hd ⊢
  obtain rfl : d' = d := List.append_cancel_left (hd'.symm.trans hd)
  exact hleft hrej

end KmVirtualCamera.L2.RtpVideo
