import Mathlib
import KmVirtualCamera.L1Encoding.RtpPayload
import KmVirtualCamera.L2Machine.RtpLink

/-!
# Packetized access units come out as they went in

`Gathered` says what the state holds of the access unit in progress: the units
`ns`, and the bytes `fu` of one that is still coming. `Feeds` says what a
payload adds to that; a piece of a packetization feeds its units
(`feeds_piece`), whatever the piece is. The marker then emits them.

* `reassembly_inverts`: whole streams, with packets delivered again in between.
* `oversized_dropped`: the access unit that is lost although it is within the
  size limit.
-/
namespace KmVirtualCamera.L2.RtpVideo
open KmVirtualCamera.ByteOrder KmVirtualCamera.L1.RtpWire KmVirtualCamera.L1.RtpPayload
open KmVirtualCamera.L1.H264 (validNalu naluType appendAnnexB annexB annexB_append annexB_cons annexB_nil
  foldl_appendAnnexB length_annexB validNalu_ne_nil)

/-! ## What comes out -/

def hasType (type : UInt8) (ns : List Bytes) : Bool := ns.any fun n => naluType n == type

/-- The last unit of the type, or the cached one. -/
def lastOf (type : UInt8) (cached : Bytes) (ns : List Bytes) : Bytes :=
  ns.foldl (fun c n => if naluType n = type then n else c) cached

/-- The cached sets an IDR unit is short of. -/
def prepended (sps pps : Bytes) (ns : List Bytes) : List Bytes :=
  if hasType 5 ns then
    (if hasType 7 ns then [] else [sps]) ++ (if hasType 8 ns then [] else [pps])
  else []

/-- What the frame callback is to get for the access units, with the last SPS
and PPS so far. -/
def outputs : Bytes → Bytes → List AccessUnit → List (Bytes × UInt32)
  | _, _, [] => []
  | sps, pps, u :: us =>
    let sps := lastOf 7 sps u.nalus
    let pps := lastOf 8 pps u.nalus
    (annexB (prepended sps pps u.nalus ++ u.nalus), u.timestamp) :: outputs sps pps us

/-- What it got. -/
def emitted (l : Log) : List (Bytes × UInt32) := l.filterMap fun
  | .emit e => some (e.data, e.timestamp)
  | _ => none

/-- An access unit the depacketizer takes. -/
structure Valid (ns : List Bytes) : Prop where
  nalus : ∀ n ∈ ns, validNalu n = true
  vcl : ∃ n ∈ ns, isVcl n = true
  sets : ∀ n ∈ ns, naluType n = 7 ∨ naluType n = 8 → n.length ≤ 65536
  pairs : ∀ pre n post, ns = pre ++ n :: post → naluType n = 7 → ∃ m ∈ post, naluType m = 8
  size : (annexB ns).length ≤ kMaxAccessUnitBytes

/-- The datagrams of a stream, with others in between: of the same SSRC, and at
most 32767 numbers behind the last. -/
inductive Redelivers (ssrc : UInt32) : Option UInt16 → List Bytes → List Bytes → Prop
  | done (last : Option UInt16) : Redelivers ssrc last [] []
  | next {last : Option UInt16} {b : Bytes} {p : RtpPacket} {bs ds : List Bytes} (hp : parseRtp b = some p)
      (h : Redelivers ssrc (some p.sequence) bs ds) : Redelivers ssrc last (b :: bs) (b :: ds)
  | again {last : UInt16} {b : Bytes} {p : RtpPacket} {bs ds : List Bytes} (hp : parseRtp b = some p)
      (hsrc : p.ssrc = ssrc) (hold : (last - p.sequence).toNat ≤ 32767)
      (h : Redelivers ssrc (some last) bs ds) : Redelivers ssrc (some last) bs (b :: ds)

/-! ## The access unit in progress -/

/-- The SPS and PPS cached after a unit. -/
def noteSets (c : Bytes × Bytes) (n : Bytes) : Bytes × Bytes :=
  if naluType n = 7 then (n, if c.1 = n then c.2 else [])
  else if naluType n = 8 then (c.1, n)
  else c

/-- The timestamp of the access unit in progress. -/
def Depacketizer.clock (s : Depacketizer) : Option UInt32 := if s.haveTimestamp then some s.timestamp else none

/-- The units `ns` and the bytes `fu` of an undamaged access unit, begun with
the sets `c` and the gate `w`. -/
structure Gathered (c : Bytes × Bytes) (w : Bool) (t : Option UInt32) (ns : List Bytes) (fu : Bytes)
    (s : Depacketizer) : Prop where
  au : s.au = annexB ns
  fu_eq : s.fu = fu
  header : fu ≠ [] → s.fuHeader = fu.headD 0
  damaged : s.damaged = false
  waiting : s.waiting = w
  idr : s.idr = hasType 5 ns
  vcl : s.vcl = ns.any isVcl
  hasSps : s.hasSps = hasType 7 ns
  hasPps : s.hasPps = hasType 8 ns
  sets : (s.sps, s.pps) = ns.foldl noteSets c
  clock : s.clock = t

theorem hasType_append (type : UInt8) (ns : List Bytes) (n : Bytes) :
    hasType type (ns ++ [n]) = (hasType type ns || naluType n == type) := by
  simp [hasType]

/-- What remembering a parameter set changes. -/
theorem note_spec (s : Depacketizer) (n : Bytes) :
    ((s.note n).sps, (s.note n).pps) = noteSets (s.sps, s.pps) n ∧
      (s.note n).hasSps = (s.hasSps || naluType n == 7) ∧ (s.note n).hasPps = (s.hasPps || naluType n == 8) ∧
      (s.note n).au = s.au ∧ (s.note n).fu = s.fu ∧ (s.note n).fuHeader = s.fuHeader ∧
      (s.note n).damaged = s.damaged ∧ (s.note n).waiting = s.waiting ∧ (s.note n).idr = s.idr ∧
      (s.note n).vcl = s.vcl ∧ (s.note n).clock = s.clock := by
  unfold Depacketizer.note noteSets
  by_cases h7 : naluType n = 7
  · simp [h7, Depacketizer.clock]
  · by_cases h8 : naluType n = 8
    · simp [h8, Depacketizer.clock]
    · simp [h7, h8]

theorem gathered_append {c : Bytes × Bytes} {w : Bool} {t : Option UInt32} {ns : List Bytes} {fu : Bytes}
    {s : Depacketizer} (h : Gathered c w t ns fu s) (l : Log) {n : Bytes} (hn : validNalu n = true)
    (hset : naluType n = 7 ∨ naluType n = 8 → n.length ≤ 65536)
    (hfit : (annexB (ns ++ [n])).length ≤ kMaxAccessUnitBytes) :
    ∃ s', appendNalu s l n = some (s', l ++ [.nal n]) ∧ Gathered c w t (ns ++ [n]) fu s' := by
  obtain ⟨hsets, hsps, hpps, hau, hfu, hheader, hdamaged, hwaiting, hidr, hvcl, hclock⟩ := note_spec s n
  have hlen : (annexB (ns ++ [n])).length = s.au.length + 4 + n.length := by
    rw [annexB_append, List.length_append, ← h.au, annexB_cons, annexB_nil, List.append_nil]
    simp only [List.length_cons]
    omega
  have hvalid : ¬ (validNal n = false ∨ n.length > kMaxAccessUnitBytes - 4 ∨
      s.au.length > kMaxAccessUnitBytes - n.length - 4) := by
    rw [show validNal n = true from hn]
    simp only [Bool.true_eq_false, false_or]
    omega
  have hsize : ¬ ((naluType n = 7 ∨ naluType n = 8) ∧ n.length > 65536) :=
    fun hbig => absurd (hset hbig.1) (Nat.not_le.mpr hbig.2)
  unfold appendNalu
  rw [if_neg hvalid, if_neg hsize]
  refine ⟨_, rfl, ?_, ?_, ?_, ?_, ?_, ?_, ?_, ?_, ?_, ?_, ?_⟩
  · show appendAnnexB (s.note n).au n = _
    rw [hau, h.au, annexB_append]
    simp [appendAnnexB, annexB_cons]
  · exact hfu.trans h.fu_eq
  · exact fun hne => hheader.trans (h.header hne)
  · exact hdamaged.trans h.damaged
  · exact hwaiting.trans h.waiting
  · show ((s.note n).idr || naluType n == 5) = _
    rw [hidr, h.idr, hasType_append]
  · show ((s.note n).vcl || isVcl n) = _
    rw [hvcl, h.vcl, List.any_append]
    simp
  · show (s.note n).hasSps = _
    rw [hsps, h.hasSps, hasType_append]
  · show (s.note n).hasPps = _
    rw [hpps, h.hasPps, hasType_append]
  · show ((s.note n).sps, (s.note n).pps) = _
    rw [hsets, h.sets, List.foldl_concat]
  · exact hclock.trans h.clock

/-! ## Payloads -/

/-- The log has grown by the units that were added. -/
def Grown (l l' : Log) (ns ns' : List Bytes) : Prop := ∃ new : List Bytes, ns' = ns ++ new ∧ l' = l ++ new.map .nal

theorem grown_refl (l : Log) (ns : List Bytes) : Grown l l ns ns := ⟨[], (List.append_nil ns).symm, (List.append_nil l).symm⟩

theorem grown_nal (l : Log) (ns : List Bytes) (n : Bytes) : Grown l (l ++ [.nal n]) ns (ns ++ [n]) := ⟨[n], rfl, rfl⟩

theorem Grown.trans {l l' l'' : Log} {ns ns' ns'' : List Bytes} (h : Grown l l' ns ns') (h' : Grown l' l'' ns' ns'') :
    Grown l l'' ns ns'' := by
  obtain ⟨new, rfl, rfl⟩ := h
  obtain ⟨new', rfl, rfl⟩ := h'
  exact ⟨new ++ new', by rw [List.append_assoc], by rw [List.map_append, List.append_assoc]⟩

theorem Grown.emitted {l l' : Log} {ns ns' : List Bytes} (h : Grown l l' ns ns') : emitted l' = emitted l := by
  obtain ⟨new, -, rfl⟩ := h
  unfold RtpVideo.emitted
  rw [List.filterMap_append, List.filterMap_map]
  simp

theorem emitted_accepted (l : Log) (q : UInt16) : emitted (l ++ [.accepted q]) = emitted l := by
  simp [emitted]

/-- The payload takes the access unit from `ns` and `fu` to `ns'` and `fu'`,
whatever state holds them. -/
def Feeds (c : Bytes × Bytes) (w : Bool) (t : Option UInt32) (ns : List Bytes) (fu p : Bytes)
    (ns' : List Bytes) (fu' : Bytes) : Prop :=
  p.headD 0 &&& 128 = 0 ∧ ∀ s l, Gathered c w t ns fu s →
    ∃ s' l', payload s l p = ((s', l'), true) ∧ Gathered c w t ns' fu' s' ∧ Grown l l' ns ns'

/-- One payload after the other. -/
inductive FeedsAll (c : Bytes × Bytes) (w : Bool) (t : Option UInt32) :
    List Bytes → Bytes → List Bytes → List Bytes → Bytes → Prop
  | nil (ns : List Bytes) (fu : Bytes) : FeedsAll c w t ns fu [] ns fu
  | cons {ns ns₁ ns₂ : List Bytes} {fu fu₁ fu₂ p : Bytes} {ps : List Bytes} (h : Feeds c w t ns fu p ns₁ fu₁)
      (hs : FeedsAll c w t ns₁ fu₁ ps ns₂ fu₂) : FeedsAll c w t ns fu (p :: ps) ns₂ fu₂

/-- What a unit has to be like for `appendNalu`. -/
structure Fit (n : Bytes) : Prop where
  valid : validNalu n = true
  set : naluType n = 7 ∨ naluType n = 8 → n.length ≤ 65536

section Payload
variable {c : Bytes × Bytes} {w : Bool} {t : Option UInt32} {ns : List Bytes}

theorem FeedsAll.append {ns₁ ns₂ : List Bytes} {fu fu₁ fu₂ : Bytes} {ps qs : List Bytes}
    (h : FeedsAll c w t ns fu ps ns₁ fu₁) (h' : FeedsAll c w t ns₁ fu₁ qs ns₂ fu₂) :
    FeedsAll c w t ns fu (ps ++ qs) ns₂ fu₂ := by
  induction h with
  | nil => exact h'
  | cons hp _ ih => exact .cons hp (ih h')

/-- The type of a valid unit. -/
theorem validNalu_type {n : Bytes} (h : validNalu n = true) :
    n.headD 0 &&& 128 = 0 ∧ 1 ≤ naluType n ∧ naluType n ≤ 23 := by
  unfold validNalu at h
  cases n with
  | nil => cases h
  | cons b rest =>
    simp only [Bool.and_eq_true, beq_iff_eq, decide_eq_true_eq] at h
    obtain ⟨⟨h0, hlo⟩, hhi⟩ := h
    simp only [naluType, List.headD_cons]
    rw [UInt8.lt_iff_toNat_lt] at hlo hhi
    rw [UInt8.le_iff_toNat_le, UInt8.le_iff_toNat_le]
    exact ⟨h0, hlo, Nat.le_of_lt_succ hhi⟩

theorem length_annexB_append (ns ns' : List Bytes) :
    (annexB (ns ++ ns')).length = (annexB ns).length + (ns'.map fun n => n.length + 4).sum := by
  induction ns' with
  | nil => simp
  | cons n ns' ih =>
    rw [annexB_append, List.length_append] at ih ⊢
    simp only [annexB_cons, List.length_cons, List.length_append, List.map_cons, List.sum_cons]
    omega

theorem feeds_single {n : Bytes} (hn : Fit n) (hfit : (annexB (ns ++ [n])).length ≤ kMaxAccessUnitBytes) :
    Feeds c w t ns [] n (ns ++ [n]) [] := by
  obtain ⟨hbit, hlo, hhi⟩ := validNalu_type hn.valid
  refine ⟨hbit, ?_⟩
  intro s l h
  obtain ⟨s', happend, h'⟩ := gathered_append h l hn.valid hn.set hfit
  refine ⟨s', l ++ [.nal n], ?_, h', grown_nal l ns n⟩
  unfold payload single
  rw [if_pos ⟨hlo, hhi⟩, if_neg (by rw [h.fu_eq]; simp), happend]

theorem gathered_appendAll : ∀ (ns' : List Bytes) {ns : List Bytes} {s : Depacketizer} (l : Log),
    Gathered c w t ns [] s → (∀ n ∈ ns', Fit n) → (annexB (ns ++ ns')).length ≤ kMaxAccessUnitBytes →
      ∃ s' l', appendAll s l ns' = ((s', l'), true) ∧ Gathered c w t (ns ++ ns') [] s' ∧ Grown l l' ns (ns ++ ns')
  | [], ns, s, l, h, _, _ => by
    rw [List.append_nil]
    exact ⟨s, l, rfl, h, grown_refl l ns⟩
  | n :: ns', ns, s, l, h, hfit, hsize => by
    have hn := hfit n List.mem_cons_self
    have hone : (annexB (ns ++ [n])).length ≤ kMaxAccessUnitBytes := by
      rw [length_annexB_append, List.map_cons, List.sum_cons] at hsize
      rw [length_annexB_append]
      simp only [List.map_cons, List.map_nil, List.sum_cons, List.sum_nil]
      omega
    obtain ⟨s₁, happend, h₁⟩ := gathered_append h l hn.valid hn.set hone
    obtain ⟨s', l', hall, h', hl⟩ := gathered_appendAll ns' (l ++ [.nal n]) h₁
      (fun m hm => hfit m (List.mem_cons_of_mem n hm)) (by simpa using hsize)
    refine ⟨s', l', ?_, by simpa using h', by simpa using (grown_nal l ns n).trans hl⟩
    unfold appendAll
    rw [happend]
    exact hall

theorem stapNalus_units : ∀ (ns : List Bytes) (fuel count : Nat), ns.length ≤ fuel → count + ns.length ≤ 1024 →
    (∀ n ∈ ns, validNalu n = true ∧ n.length < 2 ^ 16) →
      stapNalus fuel count (ns.flatMap stapUnit) = some ns
  | [], _, _, _, _, _ => by simp [stapNalus]
  | n :: ns, 0, _, hfuel, _, _ => absurd hfuel (by simp)
  | n :: ns, fuel + 1, count, hfuel, hcount, hns => by
    obtain ⟨hvalid, hlen⟩ := hns n List.mem_cons_self
    have hpos := List.length_pos_of_ne_nil (validNalu_ne_nil hvalid)
    rw [List.length_cons] at hfuel hcount
    have ih := stapNalus_units ns fuel (count + 1) (by omega) (by omega)
      fun m hm => hns m (List.mem_cons_of_mem n hm)
    have htake : (n ++ ns.flatMap stapUnit).take n.length = n := List.take_left
    have hdrop : (n ++ ns.flatMap stapUnit).drop n.length = ns.flatMap stapUnit := List.drop_left
    rw [List.flatMap_cons, stapUnit, List.append_assoc]
    show stapNalus (fuel + 1) count (UInt8.ofNat (n.length >>> 8) :: UInt8.ofNat n.length ::
      (n ++ ns.flatMap stapUnit)) = some (n :: ns)
    unfold stapNalus
    simp only [be16_be16Bytes hlen, htake, hdrop, ih, Option.map_some]
    rw [if_neg]
    rw [show validNal n = true from hvalid, List.length_append]
    simp only [Bool.true_eq_false, or_false]
    omega

theorem length_le_flatMap_stapUnit (ns : List Bytes) : ns.length ≤ (ns.flatMap stapUnit).length := by
  induction ns with
  | nil => exact Nat.le_refl 0
  | cons n ns ih =>
    rw [List.flatMap_cons, List.length_append, List.length_cons]
    simp only [stapUnit, be16Bytes, List.cons_append, List.length_cons]
    omega

theorem feeds_stapA {indicator : UInt8} {ns' : List Bytes} (hok : (Piece.stapA indicator ns').Ok)
    (hns : ∀ n ∈ ns', Fit n) (hfit : (annexB (ns ++ ns')).length ≤ kMaxAccessUnitBytes) :
    Feeds c w t ns [] (indicator :: ns'.flatMap stapUnit) (ns ++ ns') [] := by
  obtain ⟨htype, hbit, hone, hmax, hlen⟩ := hok
  refine ⟨hbit, ?_⟩
  intro s l h
  obtain ⟨s', l', hall, h', hl⟩ := gathered_appendAll ns' l h hns hfit
  refine ⟨s', l', ?_, h', hl⟩
  have hunits : stapNalus (indicator :: ns'.flatMap stapUnit).length 0 (ns'.flatMap stapUnit) = some ns' := by
    refine stapNalus_units ns' _ 0 ?_ (by omega) fun n hn => ⟨(hns n hn).valid, hlen n hn⟩
    have := length_le_flatMap_stapUnit ns'
    rw [List.length_cons]
    omega
  have hnal : naluType (indicator :: ns'.flatMap stapUnit) = 24 := htype
  have hne : ns' ≠ [] := List.ne_nil_of_length_pos hone
  have hsum : (ns'.map fun n => n.length + 4).sum ≤ kMaxAccessUnitBytes - s.au.length := by
    rw [length_annexB_append, ← h.au] at hfit
    omega
  unfold payload stapA
  rw [hnal, if_neg (by decide), if_pos rfl, List.tail_cons, hunits]
  dsimp only
  rw [if_pos ⟨h.fu_eq, hne, hsum⟩]
  exact hall

/-! ## Fragments -/

/-- A fragment of the unit with this first byte. -/
theorem fuA_fragment {header : UInt8} (hn : 0 < header &&& 31 ∧ header &&& 31 < 24) {first last : Bool}
    (hfl : ¬ (first = true ∧ last = true)) {d : Bytes} (hd : d ≠ []) (s : Depacketizer) (l : Log) :
    payload s l (fuIndicator header :: fuHeader header first last :: d) =
      if first then
        if s.fu ≠ [] then ((s, l), false) else fuData { s with fuHeader := header, fu := [header] } l d last
      else if s.fu = [] ∨ s.fuHeader ≠ header then ((s, l), false) else fuData s l d last := by
  obtain ⟨htype, -, hheader, hok, hfirst, hlast⟩ := fu_bits header hn.1 hn.2 first last hfl
  have hnal : naluType (fuIndicator header :: fuHeader header first last :: d) = 28 := htype
  cases d with
  | nil => exact absurd rfl hd
  | cons x xs =>
    unfold payload fuA
    rw [hnal, if_neg (by decide), if_neg (by decide), if_pos rfl]
    dsimp only
    rw [if_neg hok, hheader, hlast]
    cases first with
    | true => rw [if_pos (of_decide_eq_true hfirst), if_pos rfl]
    | false => rw [if_neg (of_decide_eq_false hfirst), if_neg Bool.false_ne_true]

theorem fuData_fits {s : Depacketizer} {fu d : Bytes} (h : Gathered c w t ns fu s)
    (hfit : (annexB (ns ++ [fu ++ d])).length ≤ kMaxAccessUnitBytes) :
    ¬ (d.length > kMaxAccessUnitBytes - 4 ∨ s.fu.length > kMaxAccessUnitBytes - 4 - d.length ∨
      s.au.length > kMaxAccessUnitBytes - 4 - d.length - s.fu.length) := by
  rw [length_annexB_append, ← h.au] at hfit
  simp only [List.map_cons, List.map_nil, List.sum_cons, List.sum_nil, List.length_append] at hfit
  rw [h.fu_eq]
  omega

theorem fuData_more {s : Depacketizer} {fu d : Bytes} (h : Gathered c w t ns fu s) (l : Log) (hne : fu ≠ [])
    (hfit : (annexB (ns ++ [fu ++ d])).length ≤ kMaxAccessUnitBytes) :
    ∃ s', fuData s l d false = ((s', l), true) ∧ Gathered c w t ns (fu ++ d) s' := by
  unfold fuData
  rw [if_neg (fuData_fits h hfit)]
  refine ⟨_, rfl, h.au, ?_, ?_, h.damaged, h.waiting, h.idr, h.vcl, h.hasSps, h.hasPps, h.sets,
    h.clock⟩
  · show s.fu ++ d = _
    rw [h.fu_eq]
  · intro _
    show s.fuHeader = _
    rw [h.header hne]
    cases fu with
    | nil => exact absurd rfl hne
    | cons b rest => rfl

theorem fuData_last {s : Depacketizer} {fu d : Bytes} (h : Gathered c w t ns fu s) (l : Log)
    (hn : Fit (fu ++ d))
    (hfit : (annexB (ns ++ [fu ++ d])).length ≤ kMaxAccessUnitBytes) :
    ∃ s', fuData s l d true = ((s', l ++ [.nal (fu ++ d)]), true) ∧ Gathered c w t (ns ++ [fu ++ d]) [] s' := by
  obtain ⟨s', happend, h'⟩ := gathered_append h l hn.valid hn.set hfit
  unfold fuData
  rw [if_neg (fuData_fits h hfit), if_pos rfl, h.fu_eq, happend]
  exact ⟨_, rfl, h'.au, rfl, fun hne => absurd rfl hne, h'.damaged, h'.waiting, h'.idr, h'.vcl, h'.hasSps,
    h'.hasPps, h'.sets, h'.clock⟩

/-- A prefix of the fragments fits where all of them do. -/
theorem fits_prefix {fu d : Bytes} {ds : List Bytes}
    (hfit : (annexB (ns ++ [fu ++ (d :: ds).flatten])).length ≤ kMaxAccessUnitBytes) :
    (annexB (ns ++ [fu ++ d])).length ≤ kMaxAccessUnitBytes := by
  rw [length_annexB_append] at hfit ⊢
  simp only [List.map_cons, List.map_nil, List.sum_cons, List.sum_nil, List.length_append,
    List.flatten_cons] at hfit ⊢
  omega

/-- The fragments after the first. -/
theorem feeds_fragments {header : UInt8} (hbits : header &&& 128 = 0)
    (hn : 0 < header &&& 31 ∧ header &&& 31 < 24) :
    ∀ (ds : List Bytes) {fu : Bytes}, ds ≠ [] → (∀ d ∈ ds, d ≠ []) → fu ≠ [] → fu.headD 0 = header →
      Fit (fu ++ ds.flatten) → (annexB (ns ++ [fu ++ ds.flatten])).length ≤ kMaxAccessUnitBytes →
      FeedsAll c w t ns fu (fuPayloads header false ds) (ns ++ [fu ++ ds.flatten]) []
  | [], _, hne, _, _, _, _, _ => absurd rfl hne
  | [d], fu, _, hds, hfu, hheader, hfitn, hfit => by
    have hflat : [d].flatten = d := by simp
    rw [hflat] at hfitn hfit ⊢
    refine .cons ⟨?_, ?_⟩ (.nil _ _)
    · exact (fu_bits header hn.1 hn.2 false true (by simp)).2.1.trans hbits
    · intro s l h
      obtain ⟨s', hdata, h'⟩ := fuData_last h l hfitn hfit
      refine ⟨s', l ++ [.nal (fu ++ d)], ?_, h', grown_nal _ _ _⟩
      rw [fuA_fragment hn (by simp) (hds d List.mem_cons_self), if_neg Bool.false_ne_true, if_neg, hdata]
      rw [h.fu_eq, h.header hfu, hheader]
      simp [hfu]
  | d :: e :: ds, fu, _, hds, hfu, hheader, hfitn, hfit => by
    have hone := fits_prefix hfit
    have hflat : fu ++ (d :: e :: ds).flatten = (fu ++ d) ++ (e :: ds).flatten := by simp
    rw [hflat] at hfitn hfit ⊢
    have hhead : (fu ++ d).headD 0 = header := by
      cases fu with
      | nil => exact absurd rfl hfu
      | cons b rest => exact hheader
    refine .cons ⟨?_, ?_⟩ (feeds_fragments hbits hn (e :: ds) (List.cons_ne_nil e ds)
      (fun x hx => hds x (List.mem_cons_of_mem d hx)) (by simp [hfu]) hhead hfitn hfit)
    · exact (fu_bits header hn.1 hn.2 false false (by simp)).2.1.trans hbits
    · intro s l h
      obtain ⟨s', hdata, h'⟩ := fuData_more h l hfu hone
      refine ⟨s', l, ?_, h', grown_refl l ns⟩
      rw [fuA_fragment hn (by simp) (hds d List.mem_cons_self), if_neg Bool.false_ne_true, if_neg, hdata]
      rw [h.fu_eq, h.header hfu, hheader]
      simp [hfu]

theorem feeds_fuA {header : UInt8} {fragments : List Bytes} (hok : (Piece.fuA header fragments).Ok)
    (hn : Fit (header :: fragments.flatten))
    (hfit : (annexB (ns ++ [header :: fragments.flatten])).length ≤ kMaxAccessUnitBytes) :
    FeedsAll c w t ns [] (fuPayloads header true fragments) (ns ++ [header :: fragments.flatten]) [] := by
  obtain ⟨hlen, hds⟩ := hok
  obtain ⟨hbits, hlo, hhi⟩ := validNalu_type hn.valid
  have htype : 0 < header &&& 31 ∧ header &&& 31 < 24 := by
    rw [UInt8.le_iff_toNat_le] at hlo hhi
    rw [UInt8.lt_iff_toNat_lt, UInt8.lt_iff_toNat_lt]
    exact ⟨hlo, Nat.lt_succ_of_le hhi⟩
  match fragments, hlen with
  | d :: e :: ds, _ =>
    have hone : (annexB (ns ++ [[header] ++ d])).length ≤ kMaxAccessUnitBytes := fits_prefix hfit
    have hflat : header :: (d :: e :: ds).flatten = (header :: d) ++ (e :: ds).flatten := by simp
    rw [hflat] at hn hfit ⊢
    refine .cons ⟨?_, ?_⟩ (feeds_fragments hbits htype (e :: ds) (List.cons_ne_nil e ds)
      (fun x hx => hds x (List.mem_cons_of_mem d hx)) (List.cons_ne_nil header d) rfl hn hfit)
    · exact (fu_bits header htype.1 htype.2 true false (by simp)).2.1.trans hbits
    · intro s l h
      -- The first fragment brings the first byte of the unit.
      have hbegun : Gathered c w t ns [header] { s with fuHeader := header, fu := [header] } :=
        ⟨h.au, rfl, fun _ => rfl, h.damaged, h.waiting, h.idr, h.vcl, h.hasSps, h.hasPps, h.sets, h.clock⟩
      obtain ⟨s', hdata, h'⟩ := fuData_more hbegun l (List.cons_ne_nil header []) hone
      refine ⟨s', l, ?_, h', grown_refl l ns⟩
      rw [fuA_fragment htype (by simp) (hds d List.mem_cons_self), if_pos rfl,
      if_neg (by rw [h.fu_eq]; simp), hdata]

/-- **Any piece.** -/
theorem feeds_piece {piece : Piece} (hok : piece.Ok) (hns : ∀ n ∈ piece.nalus, Fit n)
    (hfit : (annexB (ns ++ piece.nalus)).length ≤ kMaxAccessUnitBytes) :
    FeedsAll c w t ns [] piece.payloads (ns ++ piece.nalus) [] := by
  cases piece with
  | single n => exact .cons (feeds_single (hns n List.mem_cons_self) hfit) (.nil _ _)
  | stapA indicator ns' => exact .cons (feeds_stapA hok hns hfit) (.nil _ _)
  | fuA header fragments => exact feeds_fuA hok (hns _ List.mem_cons_self) hfit

theorem feeds_pieces : ∀ (pieces : List Piece) {ns : List Bytes}, (∀ piece ∈ pieces, piece.Ok) →
    (∀ n ∈ pieces.flatMap Piece.nalus, Fit n) →
    (annexB (ns ++ pieces.flatMap Piece.nalus)).length ≤ kMaxAccessUnitBytes →
      FeedsAll c w t ns [] (pieces.flatMap Piece.payloads) (ns ++ pieces.flatMap Piece.nalus) []
  | [], ns, _, _, _ => by simpa using .nil ns []
  | piece :: pieces, ns, hok, hns, hfit => by
    rw [List.flatMap_cons] at hns hfit
    rw [List.flatMap_cons, List.flatMap_cons, ← List.append_assoc]
    rw [← List.append_assoc] at hfit
    have hone : (annexB (ns ++ piece.nalus)).length ≤ kMaxAccessUnitBytes := by
      rw [length_annexB_append] at hfit
      omega
    exact (feeds_piece (hok piece List.mem_cons_self)
        (fun n hn => hns n (List.mem_append_left _ hn)) hone).append
      (feeds_pieces pieces (fun x hx => hok x (List.mem_cons_of_mem piece hx))
        (fun n hn => hns n (List.mem_append_right _ hn)) hfit)

end Payload

/-! ## Packets -/

/-- `sequence` is the number the next packet of the stream has. -/
structure Awaits (ssrc : UInt32) (sequence : UInt16) (s : Depacketizer) : Prop where
  source : s.haveSsrc = true → s.ssrc = ssrc
  next : s.haveSequence = true → sequence = s.sequence + 1

theorem awaits_of_link {ssrc : UInt32} {sequence : UInt16} {s : Depacketizer}
    (h : s.link = ⟨true, ssrc, true, sequence⟩) : Awaits ssrc (sequence + 1) s := by
  injection h with _ hssrc _ hsequence
  exact ⟨fun _ => hssrc, fun _ => by rw [hsequence]⟩

theorem Awaits.of_link {ssrc : UInt32} {sequence : UInt16} {s s' : Depacketizer} (h : Awaits ssrc sequence s)
    (hlink : s'.link = s.link) : Awaits ssrc sequence s' := by
  injection hlink with hhave hssrc hhave' hsequence
  refine ⟨fun hs => hssrc.trans (h.source (hhave.symm.trans hs)), ?_⟩
  intro hs
  rw [hsequence]
  exact h.next (hhave'.symm.trans hs)

section Stream
variable {c : Bytes × Bytes} {w : Bool} {t : Option UInt32} {ssrc : UInt32}

theorem Gathered.stamp {ns : List Bytes} {fu : Bytes} {s : Depacketizer} (h : Gathered c w t ns fu s)
    (k : Link) (timestamp : UInt32) :
    Gathered c w (some timestamp) ns fu { s.relink k with timestamp := timestamp, haveTimestamp := true } :=
  ⟨h.au, h.fu_eq, h.header, h.damaged, h.waiting, h.idr, h.vcl, h.hasSps, h.hasPps, h.sets, rfl⟩

/-- A packet that feeds the access unit; its marker ends it. -/
theorem process_packet {q : UInt16} {x : Content} {b : Bytes} (hb : Carries ssrc q x b)
    {ns ns' : List Bytes} {fu fu' : Bytes} (hf : Feeds c w (some x.timestamp) ns fu x.payload ns' fu')
    {s : Depacketizer} (l : Log) (ht : t = none ∨ t = some x.timestamp) (h : Gathered c w t ns fu s)
    (ha : Awaits ssrc q s) :
    ∃ s' l', processRtpPacket s l b = finish (s', l') x.marker ∧
      Gathered c w (some x.timestamp) ns' fu' s' ∧ s'.link = ⟨true, ssrc, true, q⟩ ∧
      Grown (l ++ [.accepted q]) l' ns ns' := by
  obtain ⟨p, hp, hssrc, hseq, hpayload, htime, hmarker⟩ := hb
  obtain ⟨hbit, hfeeds⟩ := hf
  have hnext := processRtpPacket_next l hp (fun hs => (ha.source hs).trans hssrc.symm)
    fun hs => hseq.trans (ha.next hs)
  have hsame : ¬ (s.haveTimestamp = true ∧ p.timestamp ≠ s.timestamp) := by
    intro ⟨hhave, hne⟩
    have hclock := h.clock
    unfold Depacketizer.clock at hclock
    rw [if_pos hhave] at hclock
    rcases ht with rfl | rfl
    · cases hclock
    · exact hne (htime.trans (Option.some.inj hclock).symm)
  obtain ⟨s', l', hpay, h', hl⟩ := hfeeds _ (l ++ [.accepted q]) (h.stamp ⟨true, ssrc, true, q⟩ x.timestamp)
  have hlink := payload_link { s.relink ⟨true, ssrc, true, q⟩ with timestamp := x.timestamp, haveTimestamp := true }
    (l ++ [.accepted q]) x.payload
  rw [hpay] at hlink
  refine ⟨s', l', ?_, h', hlink, hl⟩
  have hclean : ¬ s.damaged = true := by rw [h.damaged]; exact Bool.false_ne_true
  rw [hnext]
  unfold accept boundary
  dsimp only
  rw [if_neg hsame]
  dsimp only
  rw [if_neg Bool.false_ne_true]
  dsimp only
  rw [if_neg hclean, consume_eq, hssrc, hseq, htime, hpayload, hmarker, if_neg (not_not.mpr hbit)]
  exact congrArg (fun c => finish (settle c) x.marker) hpay

/-- The datagrams of a stream, one after the other. -/
def receive (c : Depacketizer × Log) (bs : List Bytes) : Depacketizer × Log := (bs.map Call.packet).foldl call c

theorem receive_cons (c : Depacketizer × Log) (b : Bytes) (bs : List Bytes) :
    receive c (b :: bs) = receive (processRtpPacket c.1 c.2 b) bs := rfl

theorem receive_append (c : Depacketizer × Log) (bs bs' : List Bytes) :
    receive c (bs ++ bs') = receive (receive c bs) bs' := by
  simp [receive]

/-- The packets of one access unit, up to where the marker ends it. -/
theorem receive_unit {timestamp : UInt32} {ns' : List Bytes} : ∀ (ps : List Bytes) {q : UInt16}
    {bs : List Bytes}
    {t : Option UInt32} {ns : List Bytes} {fu : Bytes} {s : Depacketizer} (l : Log), ps ≠ [] →
    FeedsAll c w (some timestamp) ns fu ps ns' [] → CarryAll ssrc q (contents timestamp ps) bs →
    (t = none ∨ t = some timestamp) → Gathered c w t ns fu s → Awaits ssrc q s →
      ∃ s' l', receive (s, l) bs = finish (s', l') true ∧ Gathered c w (some timestamp) ns' [] s' ∧
        Awaits ssrc (q + UInt16.ofNat ps.length) s' ∧ emitted l' = emitted l
  | [], _, _, _, _, _, _, _, hne, _, _, _, _, _ => absurd rfl hne
  | [p], q, bs, t, ns, fu, s, l, _, hf, hb, ht, h, ha => by
    match bs, hb with
    | [b], ⟨hb, _⟩ =>
      cases hf with
      | cons hp hrest =>
        cases hrest with
        | nil =>
          obtain ⟨s', l', hrun, h', hlink, hgrown⟩ := process_packet hb hp l ht h ha
          exact ⟨s', l', hrun, h', awaits_of_link hlink, by rw [hgrown.emitted, emitted_accepted]⟩
  | p :: p' :: ps, q, bs, t, ns, fu, s, l, _, hf, hb, ht, h, ha => by
    match bs, hb with
    | b :: bs, ⟨hb, hbs⟩ =>
      cases hf with
      | cons hp hrest =>
        obtain ⟨s₁, l₁, hrun, h₁, hlink, hgrown⟩ := process_packet hb hp l ht h ha
        obtain ⟨s', l', hrun', h', ha', hl'⟩ := receive_unit (p' :: ps) l₁ (List.cons_ne_nil p' ps) hrest hbs
          (.inr rfl) h₁ (awaits_of_link hlink)
        refine ⟨s', l', ?_, h', ?_, by rw [hl', hgrown.emitted, emitted_accepted]⟩
        · rw [receive_cons, hrun]
          exact hrun'
        · rw [List.length_cons, UInt16.ofNat_add, ← add_assoc, add_right_comm]
          exact ha'

/-! ## The end of an access unit -/

/-- The sets at the end of the access unit. -/
structure Ended (c : Bytes × Bytes) (ns : List Bytes) (d : Bytes × Bytes) : Prop where
  eq : ns.foldl noteSets c = d
  sps : hasType 5 ns = true → d.1 ≠ []
  pps : hasType 5 ns = true → d.2 ≠ []

theorem prepended_eq {ns : List Bytes} {fu : Bytes} {s : Depacketizer} (h : Gathered c w t ns fu s) :
    missing s = prepended s.sps s.pps ns := by
  unfold missing prepended
  rw [h.idr, h.hasSps, h.hasPps]

theorem gathered_good {timestamp : UInt32} {ns : List Bytes} {d : Bytes × Bytes} {s : Depacketizer}
    (h : Gathered c w (some timestamp) ns [] s) (hvcl : ns.any isVcl = true)
    (hw : w = false ∨ hasType 5 ns = true) (hd : Ended c ns d) : good s := by
  have hsets : (s.sps, s.pps) = d := h.sets.trans hd.eq
  refine ⟨h.damaged, h.fu_eq, h.vcl.trans hvcl, ?_, ?_⟩
  · rw [h.waiting, h.idr]
    exact hw
  · rw [h.idr]
    cases hidr : hasType 5 ns with
    | false => exact .inl rfl
    | true =>
      have hsps := hd.sps hidr
      have hpps := hd.pps hidr
      rw [← hsets] at hsps hpps
      exact .inr ⟨hsps, hpps⟩

/-- The emission, if it is within the size limit, and the loss if it is not. -/
theorem finish_unit {timestamp : UInt32} {ns : List Bytes} {d : Bytes × Bytes} {s : Depacketizer} (l : Log)
    (h : Gathered c w (some timestamp) ns [] s) (hvcl : ns.any isVcl = true)
    (hw : w = false ∨ hasType 5 ns = true) (hd : Ended c ns d) :
    ((annexB (prepended d.1 d.2 ns ++ ns)).length ≤ kMaxAccessUnitBytes →
      Gathered d false none [] [] (finish (s, l) true).1 ∧
        emitted (finish (s, l) true).2 =
          emitted l ++ [(annexB (prepended d.1 d.2 ns ++ ns), timestamp)]) ∧
    (kMaxAccessUnitBytes < (annexB (prepended d.1 d.2 ns ++ ns)).length →
      emitted (finish (s, l) true).2 = emitted l) := by
  have hgood := gathered_good h hvcl hw hd
  obtain rfl : (s.sps, s.pps) = d := h.sets.trans hd.eq
  have hhead : (missing s).foldl appendAnnexB [] = annexB (prepended s.sps s.pps ns) := by
    rw [foldl_appendAnnexB, prepended_eq h, List.nil_append]
  have hlen : (annexB (prepended s.sps s.pps ns ++ ns)).length =
      (annexB (prepended s.sps s.pps ns)).length + s.au.length := by
    rw [annexB_append, List.length_append, h.au]
  have hclock : s.timestamp = timestamp := by
    have hclock := h.clock
    unfold Depacketizer.clock at hclock
    split at hclock
    · exact Option.some.inj hclock
    · cases hclock
  have hau : s.au ≠ [] := by
    obtain ⟨n, hn, -⟩ := List.any_eq_true.mp hvcl
    obtain ⟨m, ns', rfl⟩ := List.exists_cons_of_ne_nil (List.ne_nil_of_mem hn)
    rw [h.au, annexB_cons]
    exact List.cons_ne_nil _ _
  have hpos := List.length_pos_of_ne_nil hau
  unfold finish emit
  simp only [if_true, if_pos hgood, hhead]
  constructor
  · intro hfit
    have hne : annexB (prepended s.sps s.pps ns) ++ s.au ≠ [] := List.append_ne_nil_of_right_ne_nil _ hau
    rw [if_neg (by omega), if_pos hne]
    have hwaiting : (if s.idr = true then false else s.waiting) = false := by
      rw [h.idr, h.waiting]
      rcases hw with rfl | hidr
      · simp
      · simp [hidr]
    refine ⟨⟨rfl, rfl, fun hne => absurd rfl hne, rfl, hwaiting, rfl, rfl, rfl, rfl, rfl, rfl⟩, ?_⟩
    simp [emitted, h.au, hclock, annexB_append]
  · intro hbig
    rw [if_pos (by omega)]
    simp [emitted]

/-! ## Parameter sets -/

theorem lastOf_of_mem {type : UInt8} : ∀ {ns : List Bytes} (x y : Bytes), (∃ n ∈ ns, naluType n = type) →
    lastOf type x ns = lastOf type y ns
  | [], _, _, ⟨_, hn, _⟩ => absurd hn List.not_mem_nil
  | n :: ns, x, y, h => by
    show lastOf type (if naluType n = type then n else x) ns = lastOf type (if naluType n = type then n else y) ns
    by_cases hn : naluType n = type
    · rw [if_pos hn, if_pos hn]
    · rw [if_neg hn, if_neg hn]
      obtain ⟨m, hm, htype⟩ := h
      rcases List.mem_cons.mp hm with rfl | hm
      · exact absurd htype hn
      · exact lastOf_of_mem x y ⟨m, hm, htype⟩

theorem lastOf_ne_nil {type : UInt8} : ∀ {ns : List Bytes} {x : Bytes}, (∀ n ∈ ns, n ≠ []) →
    x ≠ [] ∨ hasType type ns = true → lastOf type x ns ≠ []
  | [], x, _, h => by
    rcases h with h | h
    · exact h
    · cases h
  | n :: ns, x, hns, h => by
    show lastOf type (if naluType n = type then n else x) ns ≠ []
    refine lastOf_ne_nil (fun m hm => hns m (List.mem_cons_of_mem n hm)) ?_
    by_cases hn : naluType n = type
    · rw [if_pos hn]
      exact .inl (hns n List.mem_cons_self)
    · rw [if_neg hn]
      rcases h with h | h
      · exact .inl h
      · right
        unfold hasType at h ⊢
        rw [List.any_cons, Bool.or_eq_true] at h
        exact h.resolve_left (by simpa using hn)

/-- Every SPS is followed by a PPS, so that the PPS it drops is replaced. -/
theorem foldl_noteSets : ∀ {ns : List Bytes} (sps pps : Bytes),
    (∀ pre n post, ns = pre ++ n :: post → naluType n = 7 → ∃ m ∈ post, naluType m = 8) →
    ns.foldl noteSets (sps, pps) = (lastOf 7 sps ns, lastOf 8 pps ns)
  | [], _, _, _ => rfl
  | n :: ns, sps, pps, hpairs => by
    have hrest : ∀ pre m post, ns = pre ++ m :: post → naluType m = 7 → ∃ m' ∈ post, naluType m' = 8 := by
      intro pre m post heq
      exact hpairs (n :: pre) m post (by rw [heq]; rfl)
    show ns.foldl noteSets (noteSets (sps, pps) n) =
      (lastOf 7 (if naluType n = 7 then n else sps) ns, lastOf 8 (if naluType n = 8 then n else pps) ns)
    by_cases h7 : naluType n = 7
    · have hnote : noteSets (sps, pps) n = (n, if sps = n then pps else []) := if_pos h7
      have h8 : naluType n ≠ 8 := by rw [h7]; decide
      rw [hnote, foldl_noteSets _ _ hrest, if_pos h7, if_neg h8]
      exact congrArg _ (lastOf_of_mem _ _ (hpairs [] n ns rfl h7))
    · have hnote : noteSets (sps, pps) n = (sps, if naluType n = 8 then n else pps) := by
        unfold noteSets
        rw [if_neg h7]
        split
        · rfl
        · rfl
      rw [hnote, foldl_noteSets _ _ hrest, if_neg h7]

/-! ## Access units and streams -/

/-- The gate and the cached sets let the access unit out: they are there, or
the unit brings them. -/
structure Opens (w : Bool) (sps pps : Bytes) (ns : List Bytes) : Prop where
  gate : w = false ∨ hasType 5 ns = true
  sps : sps ≠ [] ∨ hasType 7 ns = true
  pps : pps ≠ [] ∨ hasType 8 ns = true

theorem receive_accessUnit {u : AccessUnit} (hv : Valid u.nalus) (hok : ∀ piece ∈ u.pieces, piece.Ok)
    {sps pps : Bytes} (ho : Opens w sps pps u.nalus) {q : UInt16} {bs : List Bytes} {s : Depacketizer} (l : Log)
    (hb : CarryAll ssrc q u.contents bs) (h : Gathered (sps, pps) w none [] [] s) (ha : Awaits ssrc q s) :
    ∃ s' l', receive (s, l) bs = (s', l') ∧ Awaits ssrc (q + UInt16.ofNat u.contents.length) s' ∧
      ((annexB (prepended (lastOf 7 sps u.nalus) (lastOf 8 pps u.nalus) u.nalus ++ u.nalus)).length ≤
          kMaxAccessUnitBytes →
        Gathered (lastOf 7 sps u.nalus, lastOf 8 pps u.nalus) false none [] [] s' ∧
        emitted l' = emitted l ++
          [(annexB (prepended (lastOf 7 sps u.nalus) (lastOf 8 pps u.nalus) u.nalus ++ u.nalus), u.timestamp)]) ∧
      (kMaxAccessUnitBytes <
          (annexB (prepended (lastOf 7 sps u.nalus) (lastOf 8 pps u.nalus) u.nalus ++ u.nalus)).length →
        emitted l' = emitted l) := by
  have hfit : ∀ n ∈ u.nalus, Fit n := fun n hn => ⟨hv.nalus n hn, hv.sets n hn⟩
  have hfeeds : FeedsAll (sps, pps) w (some u.timestamp) [] [] (u.pieces.flatMap Piece.payloads) u.nalus [] :=
    feeds_pieces u.pieces hok hfit hv.size
  have hvcl : u.nalus.any isVcl = true := List.any_eq_true.mpr hv.vcl
  have hne : u.pieces.flatMap Piece.payloads ≠ [] := by
    intro hnil
    rw [hnil] at hfeeds
    generalize u.nalus = ns at hfeeds hvcl
    cases hfeeds
    cases hvcl
  obtain ⟨s', l', hrun, h', ha', hl⟩ := receive_unit _ l hne hfeeds hb (.inl rfl) h ha
  have hns : ∀ n ∈ u.nalus, n ≠ [] := fun n hn => validNalu_ne_nil (hv.nalus n hn)
  have hend : Ended (sps, pps) u.nalus (lastOf 7 sps u.nalus, lastOf 8 pps u.nalus) :=
    ⟨foldl_noteSets sps pps hv.pairs, fun _ => lastOf_ne_nil hns ho.sps, fun _ => lastOf_ne_nil hns ho.pps⟩
  obtain ⟨hfits, hbig⟩ := finish_unit l' h' hvcl ho.gate hend
  rw [hl] at hfits hbig
  refine ⟨_, _, hrun, ?_, hfits, hbig⟩
  have hlink : (finish (s', l') true).1.link = s'.link := finish_link _ _
  rw [AccessUnit.contents, contents_length]
  exact ha'.of_link hlink

theorem receive_stream : ∀ (us : List AccessUnit) {w : Bool} {sps pps : Bytes} {q : UInt16} {bs : List Bytes}
    {s : Depacketizer} (l : Log), (∀ u ∈ us, Valid u.nalus) → (∀ u ∈ us, ∀ piece ∈ u.pieces, piece.Ok) →
    (∀ u ∈ us.head?, Opens w sps pps u.nalus) → (∀ o ∈ outputs sps pps us, o.1.length ≤ kMaxAccessUnitBytes) →
    CarryAll ssrc q (us.flatMap AccessUnit.contents) bs → Gathered (sps, pps) w none [] [] s → Awaits ssrc q s →
      emitted (receive (s, l) bs).2 = emitted l ++ outputs sps pps us
  | [], _, _, _, _, bs, s, l, _, _, _, _, hb, _, _ => by
    cases bs with
    | nil => simp [receive, outputs]
    | cons => exact hb.elim
  | u :: us, w, sps, pps, q, bs, s, l, hv, hok, ho, hsize, hb, h, ha => by
    rw [List.flatMap_cons] at hb
    obtain ⟨bs₁, bs₂, rfl, hb₁, hb₂⟩ := carryAll_append hb
    obtain ⟨s', l', hrun, ha', hfits, -⟩ := receive_accessUnit (hv u List.mem_cons_self)
      (hok u List.mem_cons_self) (ho u rfl) l hb₁ h ha
    obtain ⟨h', hl⟩ := hfits (hsize _ List.mem_cons_self)
    have hns : ∀ n ∈ u.nalus, n ≠ [] := fun n hn => validNalu_ne_nil ((hv u List.mem_cons_self).nalus n hn)
    have hsps := lastOf_ne_nil hns (ho u rfl).sps
    have hpps := lastOf_ne_nil hns (ho u rfl).pps
    rw [receive_append, hrun, receive_stream us l' (fun x hx => hv x (List.mem_cons_of_mem u hx))
      (fun x hx => hok x (List.mem_cons_of_mem u hx)) (fun x _ => ⟨.inl rfl, .inl hsps, .inl hpps⟩)
      (fun o ho => hsize o (List.mem_cons_of_mem _ ho)) hb₂ h' ha', hl]
    simp [outputs]

end Stream

/-! ## Packets delivered again -/

theorem sequenceDelta_behind {a b : UInt16} (h : (b - a).toNat ≤ 32767) : sequenceDelta a b ≤ 0 := by
  have ha := a.toNat_lt
  have hb := b.toNat_lt
  have hlt := (a - b).toNat_lt
  unfold sequenceDelta
  rw [UInt16.toNat_sub] at h hlt ⊢
  split
  · omega
  · omega

theorem receive_redelivered {ssrc : UInt32} {last : Option UInt16} {bs ds : List Bytes}
    (h : Redelivers ssrc last bs ds) : ∀ {q : UInt16} {cs : List Content} (s : Depacketizer) (l : Log),
    CarryAll ssrc q cs bs → Awaits ssrc q s → (∀ x ∈ last, s.link = ⟨true, ssrc, true, x⟩) →
      receive (s, l) ds = receive (s, l) bs := by
  induction h with
  | done => exact fun _ _ _ _ _ => rfl
  | @next last b p bs ds hp _ ih =>
    intro q cs s l hb ha _
    cases cs with
    | nil => exact hb.elim
    | cons c cs =>
      obtain ⟨⟨p', hp', hssrc, hseq, -⟩, hbs⟩ := hb
      obtain rfl : p = p' := by
        rw [hp] at hp'
        exact Option.some.inj hp'
      have hlink := processRtpPacket_link l hp (fun hs => (ha.source hs).trans hssrc.symm)
        fun hs => hseq.trans (ha.next hs)
      rw [hssrc] at hlink
      have hseq' := hlink
      rw [hseq] at hseq'
      exact ih _ _ hbs (awaits_of_link hseq') fun x hx => hlink.trans (by rw [Option.mem_some_iff.mp hx])
  | @again last b p bs ds hp hsrc hold _ ih =>
    intro q cs s l hb ha hlast
    have hlink := hlast last rfl
    injection hlink with hhave hssrc hhave' hsequence
    have hstale := processRtpPacket_stale l hp hhave (hsrc.trans hssrc.symm) hhave'
      (by rw [hsequence]; exact sequenceDelta_behind hold)
    rw [receive_cons, hstale]
    exact ih s l hb ha hlast

theorem awaits_fresh (ssrc : UInt32) (q : UInt16) : Awaits ssrc q {} :=
  ⟨fun h => absurd h Bool.false_ne_true, fun h => absurd h Bool.false_ne_true⟩

theorem gathered_fresh : Gathered ([], []) true none [] [] {} :=
  ⟨rfl, rfl, fun h => absurd rfl h, rfl, rfl, rfl, rfl, rfl, rfl, rfl, rfl⟩

/-- **Reassembly inverts packetization.** Valid access units, the first with an
SPS, a PPS and an IDR slice, cut into any pieces: a fresh depacketizer emits
one output for each, in order, as long as each output is within the size limit
with the sets prepended to it. Packets delivered again change nothing, at any
point. -/
theorem reassembly_inverts {us : List AccessUnit} {ssrc : UInt32} {sequence : UInt16} {bs ds : List Bytes}
    (hvalid : ∀ u ∈ us, Valid u.nalus) (hpieces : ∀ u ∈ us, ∀ piece ∈ u.pieces, piece.Ok)
    (hfirst : ∀ u ∈ us.head?, hasType 7 u.nalus = true ∧ hasType 8 u.nalus = true ∧ hasType 5 u.nalus = true)
    (hsize : ∀ o ∈ outputs [] [] us, o.1.length ≤ kMaxAccessUnitBytes)
    (hcarry : CarryAll ssrc sequence (us.flatMap AccessUnit.contents) bs) (hds : Redelivers ssrc none bs ds) :
    emitted (run (ds.map .packet)).2 = outputs [] [] us ∧
      ∀ bs₁ bs₂ ds₁, bs = bs₁ ++ bs₂ → Redelivers ssrc none bs₁ ds₁ →
        run (ds₁.map .packet) = run (bs₁.map .packet) := by
  have hsame : ∀ {cs : List Content} {bs ds : List Bytes}, CarryAll ssrc sequence cs bs →
      Redelivers ssrc none bs ds → run (ds.map .packet) = run (bs.map .packet) :=
    fun hb hd => receive_redelivered hd {} [] hb (awaits_fresh ssrc sequence) (by simp)
  constructor
  · rw [hsame hcarry hds]
    exact receive_stream us [] hvalid hpieces
      (fun u hu => ⟨.inr (hfirst u hu).2.2, .inr (hfirst u hu).1, .inr (hfirst u hu).2.1⟩) hsize hcarry
      gathered_fresh (awaits_fresh ssrc sequence)
  · rintro bs₁ bs₂ ds₁ rfl hd
    obtain ⟨cs, hcs⟩ := carryAll_prefix hcarry
    exact hsame hcs hd

/-- SPS and PPS in one packet, the IDR slice in two fragments. -/
def keyUnit : AccessUnit := ⟨0, [.stapA 0x78 [[0x67, 1], [0x68, 2]], .fuA 0x65 [[3], [4]]]⟩

theorem keyUnit_valid : Valid keyUnit.nalus := by
  refine ⟨by decide, by decide, by decide, ?_, by decide⟩
  intro pre n post heq htype
  have hns : keyUnit.nalus = [[0x67, 1], [0x68, 2], [0x65, 3, 4]] := rfl
  rw [hns] at heq
  rcases pre with _ | ⟨a, _ | ⟨b, _ | ⟨c, pre⟩⟩⟩
  · obtain ⟨-, rfl⟩ := List.cons.inj heq
    exact ⟨[0x68, 2], List.mem_cons_self, rfl⟩
  · simp only [List.cons_append, List.nil_append, List.cons.injEq] at heq
    rw [← heq.2.1] at htype
    exact absurd htype (by decide)
  · simp only [List.cons_append, List.nil_append, List.cons.injEq] at heq
    rw [← heq.2.2.1] at htype
    exact absurd htype (by decide)
  · simp at heq

theorem keyUnit_pieces : ∀ piece ∈ keyUnit.pieces, piece.Ok := by
  intro piece hp
  rcases List.mem_cons.mp hp with rfl | hp
  · exact ⟨rfl, rfl, by decide, by decide, by decide⟩
  · rw [List.mem_singleton.mp hp]
    exact ⟨by decide, by decide⟩

/-- A unit without an SPS. -/
theorem valid_slice {n : Bytes} (hn : validNalu n = true) (hvcl : isVcl n = true)
    (hset : ¬ (naluType n = 7 ∨ naluType n = 8)) (hsize : (annexB [n]).length ≤ kMaxAccessUnitBytes) :
    Valid [n] := by
  refine ⟨by simpa using hn, ⟨n, List.mem_cons_self, hvcl⟩, ?_, ?_, hsize⟩
  · intro m hm htype
    rw [List.mem_singleton.mp hm] at htype
    exact absurd htype hset
  · intro pre m post heq htype
    have hm : m ∈ [n] := by rw [heq]; simp
    rw [List.mem_singleton.mp hm] at htype
    exact absurd (.inl htype) hset

/-- An IDR slice without parameter sets. -/
def bareUnit : AccessUnit := ⟨3000, [.single [0x65, 5]]⟩

/-- `keyUnit`, whose first packet is delivered again, and `bareUnit`, which
comes out with the cached sets. -/
theorem reassembly_inverts_bare :
    let bs := datagrams 7 65535 ([keyUnit, bareUnit].flatMap AccessUnit.contents)
    let ds := bs.take 2 ++ bs.take 1 ++ bs.drop 2
    emitted (run (ds.map .packet)).2 =
      [(annexB [[0x67, 1], [0x68, 2], [0x65, 3, 4]], 0), (annexB [[0x67, 1], [0x68, 2], [0x65, 5]], 3000)] := by
  have hcarry := carryAll_datagrams 7 65535 ([keyUnit, bareUnit].flatMap AccessUnit.contents) (by decide)
  have hbare : Valid bareUnit.nalus := valid_slice rfl rfl (by decide) (by decide)
  have hds : Redelivers 7 none (datagrams 7 65535 ([keyUnit, bareUnit].flatMap AccessUnit.contents))
      ((datagrams 7 65535 ([keyUnit, bareUnit].flatMap AccessUnit.contents)).take 2 ++
        (datagrams 7 65535 ([keyUnit, bareUnit].flatMap AccessUnit.contents)).take 1 ++
        (datagrams 7 65535 ([keyUnit, bareUnit].flatMap AccessUnit.contents)).drop 2) := by
    refine .next rfl (.next rfl (.again rfl rfl ?_ (.next rfl (.next rfl (.done _)))))
    decide
  refine (@reassembly_inverts [keyUnit, bareUnit] _ _ _ _ ?_ ?_ ?_ ?_ hcarry hds).1
  · intro u hu
    rcases List.mem_cons.mp hu with rfl | hu
    · exact keyUnit_valid
    · rw [List.mem_singleton.mp hu]
      exact hbare
  · intro u hu
    rcases List.mem_cons.mp hu with rfl | hu
    · exact keyUnit_pieces
    · rw [List.mem_singleton.mp hu]
      intro piece hp
      rw [List.mem_singleton.mp hp]
      trivial
  · intro u hu
    obtain rfl := Option.some.inj hu
    exact ⟨rfl, rfl, rfl⟩
  · decide

/-- The payloads of a fragmented unit. -/
theorem fuA_contents {timestamp : UInt32} {header : UInt8} {fragments : List Bytes}
    (h : ∀ d ∈ fragments, d.length ≤ 65521) {x : Content}
    (hx : x ∈ (AccessUnit.mk timestamp [.fuA header fragments]).contents) :
    x.payload ≠ [] ∧ x.payload.length ≤ 65523 := by
  obtain ⟨piece, hpiece, hp⟩ := List.mem_flatMap.mp (mem_contents hx)
  rw [List.mem_singleton.mp hpiece] at hp
  obtain ⟨d, hd, hlen⟩ := mem_fuPayloads hp
  have := h d hd
  exact ⟨List.ne_nil_of_length_pos (by omega), by omega⟩

/-- An IDR slice of 4194289 bytes, in 72 fragments. -/
def bigUnit : AccessUnit := ⟨3000, [.fuA 0x65 (List.replicate 72 (List.replicate 58254 1))]⟩

/-- `keyUnit`, and then an IDR slice that is within the size limit: it is lost,
because it is not with the cached sets before it. -/
theorem oversized_dropped :
    ∃ (us : List AccessUnit) (ssrc : UInt32) (sequence : UInt16) (bs : List Bytes),
      (∀ u ∈ us, Valid u.nalus) ∧ (∀ u ∈ us, ∀ piece ∈ u.pieces, piece.Ok) ∧
      (∀ u ∈ us.head?, hasType 7 u.nalus = true ∧ hasType 8 u.nalus = true ∧ hasType 5 u.nalus = true) ∧
      CarryAll ssrc sequence (us.flatMap AccessUnit.contents) bs ∧
      emitted (run (bs.map .packet)).2 ≠ outputs [] [] us := by
  obtain ⟨n, hn⟩ : ∃ n, n = 0x65 :: (List.replicate 72 (List.replicate 58254 (1 : UInt8))).flatten := ⟨_, rfl⟩
  have hnalus : bigUnit.nalus = [n] := by rw [hn]; rfl
  have hlen : n.length = 4194289 := by
    rw [hn, List.length_cons, List.length_flatten, List.map_replicate, List.length_replicate, List.sum_replicate]
    rfl
  have htype : naluType n = 5 := by rw [hn]; rfl
  have hvcl : isVcl n = true := by unfold isVcl; rw [htype]; rfl
  have hvalid : validNalu n = true := by rw [hn]; rfl
  have hannexB : (annexB [n]).length = 4194293 := by
    rw [length_annexB]
    simp [hlen]
  have hbig : Valid bigUnit.nalus := by
    rw [hnalus]
    exact valid_slice hvalid hvcl (by rw [htype]; decide) (by rw [hannexB]; decide)
  have hpieces : ∀ piece ∈ bigUnit.pieces, piece.Ok := by
    intro piece hp
    rw [List.mem_singleton.mp hp]
    refine ⟨by rw [List.length_replicate]; decide, fun d hd => ?_⟩
    rw [List.eq_of_mem_replicate hd]
    exact List.ne_nil_of_length_pos (by rw [List.length_replicate]; decide)
  have hcontents : ∀ x ∈ [keyUnit, bigUnit].flatMap AccessUnit.contents,
      x.payload ≠ [] ∧ x.payload.length ≤ 65523 := by
    intro x hx
    rw [List.flatMap_cons, List.mem_append] at hx
    rcases hx with hx | hx
    · revert x
      decide
    · obtain ⟨u, hu, hx⟩ := List.mem_flatMap.mp hx
      rw [List.mem_singleton.mp hu] at hx
      refine fuA_contents ?_ hx
      intro d hd
      rw [List.eq_of_mem_replicate hd, List.length_replicate]
      decide
  have hcarry := carryAll_datagrams 7 0 _ hcontents
  have hkey : Opens true [] [] keyUnit.nalus := ⟨.inr rfl, .inr rfl, .inr rfl⟩
  have hsplit := hcarry
  rw [List.flatMap_cons] at hsplit
  obtain ⟨bs₁, bs₂, hbs, hcarry₁, hcarry₂⟩ := carryAll_append hsplit
  obtain ⟨s₁, l₁, hrun₁, ha₁, hfits, -⟩ := receive_accessUnit keyUnit_valid keyUnit_pieces hkey []
    hcarry₁ gathered_fresh (awaits_fresh 7 0)
  obtain ⟨h₁, hl₁⟩ := hfits (by decide)
  have hcached : Opens false [0x67, 1] [0x68, 2] bigUnit.nalus := ⟨.inl rfl, .inl (by decide), .inl (by decide)⟩
  rw [List.flatMap_cons, List.flatMap_nil, List.append_nil] at hcarry₂
  obtain ⟨s₂, l₂, hrun₂, -, -, hlost⟩ := receive_accessUnit hbig hpieces hcached l₁ hcarry₂ h₁ ha₁
  refine ⟨[keyUnit, bigUnit], 7, 0, _, ?_, ?_, ?_, hcarry, ?_⟩
  · intro u hu
    rcases List.mem_cons.mp hu with rfl | hu
    · exact keyUnit_valid
    · rw [List.mem_singleton.mp hu]
      exact hbig
  · intro u hu
    rcases List.mem_cons.mp hu with rfl | hu
    · exact keyUnit_pieces
    · rw [List.mem_singleton.mp hu]
      exact hpieces
  · intro u hu
    obtain rfl := Option.some.inj hu
    exact ⟨rfl, rfl, rfl⟩
  · have hover : kMaxAccessUnitBytes <
        (annexB (prepended [0x67, 1] [0x68, 2] bigUnit.nalus ++ bigUnit.nalus)).length := by
      have hprepended : prepended [0x67, 1] [0x68, 2] [n] = [[0x67, 1], [0x68, 2]] := by
        simp [prepended, hasType, htype]
      rw [hnalus, hprepended, annexB_append, List.length_append, hannexB]
      decide
    intro heq
    have hcount := congrArg List.length heq
    rw [List.flatMap_cons, hbs] at hcount
    rw [show run ((bs₁ ++ bs₂).map .packet) = receive ({}, []) (bs₁ ++ bs₂) from rfl, receive_append, hrun₁,
      hrun₂,
      hlost hover, hl₁] at hcount
    exact absurd hcount (by simp [outputs, emitted])

end KmVirtualCamera.L2.RtpVideo
