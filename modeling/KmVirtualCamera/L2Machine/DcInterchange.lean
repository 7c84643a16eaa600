import Mathlib
import KmVirtualCamera.L2Machine.DcReassembly
import KmVirtualCamera.L2Machine.DcUnits

/-!
# Two encodings of one access unit

`Twins u u'`: two shipments cut at the same places whose bytes `assemble`
reads as the same units, as the Annex-B and the length-prefixed form of one
list are. `recode` replaces, in the frame pending for `u`, every chunk of `u`
by the chunk of `u'`. It commutes with every operation of the depacketizer
(`recode_drain`, `recode_accept`), so runs fed with `u` and with `u'` stay one
`recode` apart and put out the same (`recode_run`).
-/
namespace KmVirtualCamera.L2.DcVideo
open KmVirtualCamera.ByteOrder KmVirtualCamera.L1.H264 KmVirtualCamera.L1.DcWire

/-- `split` is asked for units only that fit in a frame. -/
structure Twins (u u' : Shipment) : Prop where
  seq : u'.seq = u.seq
  timestamp : u'.timestamp = u.timestamp
  flags : u'.flags = u.flags
  lengths : u'.chunks.map List.length = u.chunks.map List.length
  split : u.data.length ≤ kMaxRaw → splitAccessUnit u'.data = splitAccessUnit u.data

/-- The frame with the chunks of `u'` in the filled slots. -/
def Frame.recode (u' : Shipment) (f : Frame) : Frame :=
  { f with chunks := f.chunks.mapIdx fun i c => if c = [] then [] else u'.chunk i }

/-- A fold follows a change of accumulator and of entries that each turn follows. -/
theorem foldl_follows {α β : Type} {F : α → α} {r : β → β} {g g' : α → β → α}
    (h : ∀ a b, g' (F a) (r b) = F (g a b)) (l : List β) (a : α) :
    (l.map r).foldl g' (F a) = F (l.foldl g a) := by
  induction l generalizing a with
  | nil => rfl
  | cons b l ih => simp only [List.map_cons, List.foldl_cons, h, ih]

section Recode
variable (u' : Shipment)

/-- Only the frame under the shipment's sequence number is recoded. -/
def recodeAt (k : UInt16) (f : Frame) : Frame := if k = u'.seq then f.recode u' else f

def recodeEntry (e : UInt16 × Frame) : UInt16 × Frame := (e.1, recodeAt u' e.1 e.2)

def recode (s : Depacketizer) : Depacketizer :=
  { s with pending := s.pending.mapValues (recodeAt u') }

/-- The frame inside an emission is a ghost; the rest is untouched. -/
def Emission.recode (e : Emission) : Emission := { e with frame := recodeAt u' e.seq e.frame }

def Batch.recode (b : Batch) : Batch := { b with frames := b.frames.map (Emission.recode u') }

def both (c : Depacketizer × Batch) : Depacketizer × Batch := (recode u' c.1, c.2.recode u')

variable {u'}

@[simp] theorem recodeAt_fields (u' : Shipment) (k : UInt16) (f : Frame) :
    (recodeAt u' k f).timestamp = f.timestamp ∧ (recodeAt u' k f).count = f.count ∧
      (recodeAt u' k f).stableFlags = f.stableFlags ∧ (recodeAt u' k f).received = f.received ∧
      (recodeAt u' k f).bytes = f.bytes ∧ (recodeAt u' k f).arrival = f.arrival := by
  unfold recodeAt
  split <;> exact ⟨rfl, rfl, rfl, rfl, rfl, rfl⟩

theorem recodeAt_complete (k : UInt16) (f : Frame) : (recodeAt u' k f).complete ↔ f.complete := by
  unfold Frame.complete; simp

theorem recodeAt_other {k : UInt16} (h : k ≠ u'.seq) (f : Frame) : recodeAt u' k f = f := by
  unfold recodeAt; rw [if_neg h]

theorem recode_toList (s : Depacketizer) :
    (recode u' s).pending.toList = s.pending.toList.map (recodeEntry u') := rfl

theorem recode_find? (s : Depacketizer) (k : UInt16) :
    (recode u' s).pending.find? k = (s.pending.find? k).map (recodeAt u' k) :=
  OrdMap.find?_mapValues _ _ k

@[simp] theorem recode_size (s : Depacketizer) : (recode u' s).pending.size = s.pending.size :=
  OrdMap.size_mapValues _ _

/-! ## The small steps -/

theorem recode_erase (s : Depacketizer) (k : UInt16) (f : Frame) :
    erase (recode u' s) k (recodeAt u' k f) = recode u' (erase s k f) := by
  unfold erase recode
  simp [OrdMap.mapValues_erase]

/-- A frame taken out and the cursor moved. -/
theorem recode_take (s : Depacketizer) (k : UInt16) (f : Frame) (n : UInt16) :
    ({ erase (recode u' s) k (recodeAt u' k f) with expected := n } : Depacketizer) =
      recode u' { erase s k f with expected := n } := by
  rw [recode_erase]; rfl

theorem recode_recover (now : Int) (s : Depacketizer) (b : Batch) :
    recover now (recode u' s) (b.recode u') = both u' (recover now s b) := by
  have hl : (recode u' s).lastPli = s.lastPli := rfl
  unfold recover
  rw [hl]
  split <;> rfl

theorem recode_expireOne (now : Int) (c : Depacketizer × Batch) (e : UInt16 × Frame) :
    expireOne now (both u' c) (recodeEntry u' e) = both u' (expireOne now c e) := by
  have ha := (recodeAt_fields u' e.1 e.2).2.2.2.2.2
  unfold expireOne
  simp only [recodeEntry, ha, both, recode_erase]
  split
  · have hi : ((recode u' c.1).initialized = false ∨ delta e.1 (recode u' c.1).expected ≥ 0) ↔
        (c.1.initialized = false ∨ delta e.1 c.1.expected ≥ 0) := Iff.rfl
    simp only [hi]
    split
    · exact recode_recover now _ _
    · rfl
  · rfl

theorem recode_expire (now : Int) (s : Depacketizer) (b : Batch) :
    expire now (recode u' s) (b.recode u') = both u' (expire now s b) := by
  unfold expire
  rw [recode_toList]
  exact foldl_follows (recode_expireOne now) s.pending.toList (s, b)

theorem recode_pickFirst (acc : Option (UInt16 × Frame)) (e : UInt16 × Frame) :
    pickFirst (acc.map (recodeEntry u')) (recodeEntry u' e) = (pickFirst acc e).map (recodeEntry u') := by
  obtain ⟨-, -, hf, -, -, ha⟩ := recodeAt_fields u' e.1 e.2
  unfold pickFirst
  have hall : (acc.map (recodeEntry u')).all (fun g => decide ((recodeEntry u' e).2.arrival < g.2.arrival)) =
      acc.all fun g => decide (e.2.arrival < g.2.arrival) := by
    cases acc with
    | none => rfl
    | some g => simp [recodeEntry]
  rw [hall]
  simp only [recodeEntry, recodeAt_complete, hf]
  split <;> rfl

theorem recode_firstKeyframe (s : Depacketizer) :
    firstKeyframe (recode u' s) = (firstKeyframe s).map (recodeEntry u') := by
  unfold firstKeyframe
  rw [recode_toList]
  exact foldl_follows recode_pickFirst s.pending.toList none

theorem recode_pickNearest (k : UInt16) (acc : Option (UInt16 × Frame) × Int) (e : UInt16 × Frame) :
    pickNearest k (acc.1.map (recodeEntry u'), acc.2) (recodeEntry u' e) =
      ((pickNearest k acc e).1.map (recodeEntry u'), (pickNearest k acc e).2) := by
  have he : (recodeEntry u' e).1 = e.1 := rfl
  unfold pickNearest
  rw [he]
  by_cases hd : delta e.1 k ≥ 0 ∧ delta e.1 k < acc.2
  · rw [if_pos hd, if_pos hd]; rfl
  · rw [if_neg hd, if_neg hd]

theorem recode_nearest (s : Depacketizer) :
    nearest (recode u' s) = (nearest s).map (recodeEntry u') := by
  unfold nearest
  rw [recode_toList]
  exact congrArg Prod.fst (foldl_follows (recode_pickNearest s.expected) s.pending.toList (none, 32768))

theorem recode_purgeOne (s : Depacketizer) (e : UInt16 × Frame) :
    (if delta (recodeEntry u' e).1 (recode u' s).expected < 0
      then erase (recode u' s) (recodeEntry u' e).1 (recodeEntry u' e).2 else recode u' s) =
    recode u' (if delta e.1 s.expected < 0 then erase s e.1 e.2 else s) := by
  have hexp : (recode u' s).expected = s.expected := rfl
  simp only [recodeEntry, recode_erase, hexp]
  split <;> rfl

theorem recode_purge (s : Depacketizer) : purge (recode u' s) = recode u' (purge s) := by
  unfold purge
  rw [recode_toList]
  exact foldl_follows recode_purgeOne s.pending.toList s

theorem recode_increase (now : Int) (s : Depacketizer) (b : Batch) :
    increase now (recode u' s) (b.recode u') = both u' (increase now s b) := by
  have hw : (recode u' s).waiting = s.waiting := rfl
  have hl : (recode u' s).lastIncrease = s.lastIncrease := rfl
  have hf : (b.recode u').frames ≠ [] ↔ b.frames ≠ [] := by simp [Batch.recode]
  unfold increase
  simp only [hw, hl, hf]
  split
  · split
    · rfl
    · split <;> rfl
  · rfl

theorem recode_overflow (now : Int) (s : Depacketizer) (b : Batch) :
    overflow now (recode u' s) (b.recode u') = both u' (overflow now s b) := by
  have he : ({ recode u' s with pending := .empty, bytes := 0, initialized := false } : Depacketizer) =
      recode u' { s with pending := .empty, bytes := 0, initialized := false } := rfl
  unfold overflow
  rw [he, recode_recover]
  rfl

theorem recode_place (s : Depacketizer) : place (recode u' s) = (place s).map (recode u') := by
  have hi : (recode u' s).initialized = s.initialized := rfl
  unfold place
  rw [hi, recode_firstKeyframe]
  split
  · rfl
  · cases firstKeyframe s <;> rfl

end Recode

/-! ## A frame of the shipment -/

theorem Twins.count {u u' : Shipment} (h : Twins u u') : u'.count = u.count := by
  have := congrArg List.length h.lengths
  simpa [Shipment.count] using this

theorem Twins.length_chunk {u u' : Shipment} (h : Twins u u') (i : Nat) :
    (u'.chunk i).length = (u.chunk i).length := by
  have hget : ∀ cs : List Bytes, (cs.getD i []).length = (cs.map List.length).getD i 0 := by
    intro cs
    simp only [List.getD_eq_getElem?_getD, List.getElem?_map]
    cases cs[i]? <;> rfl
  unfold Shipment.chunk
  rw [hget, hget, h.lengths]

theorem recode_getD (u' : Shipment) (f : Frame) (i : Nat) :
    (f.recode u').chunks.getD i [] = if f.chunks.getD i [] = [] then [] else u'.chunk i := by
  simp only [Frame.recode, List.getD_eq_getElem?_getD, List.getElem?_mapIdx]
  cases f.chunks[i]? <;> simp

/-- What is pending under the sequence number of `u` holds chunks of `u`. -/
def Ours (u : Shipment) (s : Depacketizer) : Prop := ∀ f, s.pending.find? u.seq = some f → f.Of u

theorem Ours.subset {u : Shipment} {s t : Depacketizer} (h : Ours u s)
    (hsub : ∀ e ∈ t.pending.toList, e ∈ s.pending.toList) : Ours u t := fun f hf =>
  h f (OrdMap.find?_eq_some.mpr (hsub _ (OrdMap.find?_eq_some.mp hf)))

/-- A complete frame of `u` recoded holds the bytes of `u'`. -/
theorem Frame.Of.recode_raw {u u' : Shipment} {f : Frame} (hu : Twins u u') (h : f.Of u)
    (hc : f.complete) : (f.recode u').raw = u'.data := by
  have hlen : (f.recode u').chunks.length = u'.chunks.length := by
    have hcount : u'.chunks.length = u.count := hu.count
    simp only [Frame.recode, List.length_mapIdx]
    rw [hcount, ← h.count, h.wf.slots]
  have hchunks : (f.recode u').chunks = u'.chunks := by
    apply List.ext_getElem hlen
    intro i hi hi'
    have hif : i < f.count.toNat := by
      rw [← h.wf.slots]; simpa [Frame.recode] using hi
    have hslot := recode_getD u' f i
    rw [if_neg (h.wf.slot hc hif)] at hslot
    unfold Shipment.chunk at hslot
    rwa [List.getD_eq_getElem _ _ hi, List.getD_eq_getElem _ _ hi'] at hslot
  unfold Frame.raw Shipment.data
  rw [hchunks]

theorem recodeAt_split {u u' : Shipment} {k : UInt16} {f : Frame} (hu : Twins u u')
    (h : k = u.seq → f.Of u) (hc : f.complete) :
    splitAccessUnit (recodeAt u' k f).raw = splitAccessUnit f.raw := by
  unfold recodeAt
  split
  · rename_i hk
    have hof := h (hk.trans hu.seq)
    have hraw := hof.raw hc
    have hlen : u.data.length ≤ kMaxRaw := hraw ▸ hof.wf.length_raw
    rw [hof.recode_raw hu hc, hraw, hu.split hlen]
  · rfl

theorem recode_assemble {u' : Shipment} {s : Depacketizer} {f f' : Frame}
    (hsplit : splitAccessUnit f'.raw = splitAccessUnit f.raw) (hflags : f'.stableFlags = f.stableFlags)
    (hts : f'.timestamp = f.timestamp) :
    assemble (recode u' s) f' = (recode u' (assemble s f).1, (assemble s f).2) := by
  unfold assemble
  rw [hsplit, hflags, hts]
  cases splitAccessUnit f.raw with
  | none => rfl
  | some ns =>
    have hsets : nextSets (recode u' s) (scan ns) = nextSets s (scan ns) := rfl
    have hw : (recode u' s).waiting = s.waiting := rfl
    simp only [hsets]
    cases nextSets s (scan ns) with
    | none => rfl
    | some pair =>
      simp only [hw]
      repeat' split
      all_goals rfl

/-! ## Draining -/

section Drain
variable {u u' : Shipment} {now : Int}

theorem recode_handOn (hu : Twins u u') {s : Depacketizer} (h : Ours u s) (b : Batch) {f : Frame}
    (hf : s.pending.find? s.expected = some f) (hc : f.complete) :
    handOn now (recode u' s) (b.recode u') (recodeAt u' s.expected f) = both u' (handOn now s b f) := by
  obtain ⟨hts, -, hfl, -, -, -⟩ := recodeAt_fields u' s.expected f
  have hsplit := recodeAt_split hu (fun hk => h f (hk ▸ hf)) hc
  have hcur := (assemble_frame s f).2.2.1
  unfold handOn
  rw [recode_assemble hsplit hfl hts]
  generalize assemble s f = r at hcur
  obtain ⟨t, o⟩ := r
  replace hcur : t.expected = s.expected := hcur
  cases o with
  | none =>
    simp only [recode_recover]
    have hrec : (recover now t b).1.expected = s.expected := (recover_expected ..).trans hcur
    have hrec' : (both u' (recover now t b)).1.expected = s.expected := hrec
    rw [hrec, hrec']
    exact congrArg₂ Prod.mk (recode_take _ _ _ _) rfl
  | some o =>
    obtain ⟨ns, out⟩ := o
    have hcur' : (recode u' t).expected = s.expected := hcur
    simp only [hcur, hcur']
    refine congrArg₂ Prod.mk (recode_take { t with frames := t.frames + 1 } _ _ _) ?_
    simp [Batch.recode, Emission.recode]

theorem turn_subset {s : Depacketizer} {b : Batch} {c : Depacketizer × Batch} (h : Turn now s b c) :
    ∀ e ∈ c.1.pending.toList, e ∈ s.pending.toList := by
  intro e he
  cases h with
  | handOn f hf hc =>
    rw [(handOn_frame now s b f).1] at he
    exact (OrdMap.mem_erase.mp he).1
  | giveUp f hf hc hl =>
    simp only [recover_pending, erase] at he
    exact (OrdMap.mem_erase.mp he).1
  | jump e' hf he' hl => simpa using he

theorem recode_drainIter (hu : Twins u u') {s : Depacketizer} (h : Ours u s) (b : Batch) :
    drainIter now (recode u' s) (b.recode u') = (drainIter now s b).map (both u') := by
  have hexp : (recode u' s).expected = s.expected := rfl
  unfold drainIter
  rw [recode_size, hexp, recode_find?, recode_nearest]
  split
  · rfl
  · cases hf : s.pending.find? s.expected with
    | some f =>
      have ha := (recodeAt_fields u' s.expected f).2.2.2.2.2
      simp only [Option.map_some, recodeAt_complete, ha]
      split
      · rename_i hc
        rw [recode_handOn hu h b hf hc]; rfl
      · split
        · have he : erase (recode u' s) s.expected (recodeAt u' s.expected f) =
          recode u' (erase s s.expected f) :=
            recode_erase s s.expected f
          simp only [Option.map_some, Option.some.injEq]
          rw [he]
          exact recode_recover now { erase s s.expected f with expected := s.expected + 1 } b
        · rfl
    | none =>
      simp only [Option.map_none]
      cases nearest s with
      | none => rfl
      | some e =>
        have ha := (recodeAt_fields u' e.1 e.2).2.2.2.2.2
        simp only [Option.map_some, recodeEntry, ha]
        split
        · rfl
        · simp only [Option.map_some, Option.some.injEq]
          exact recode_recover now { s with expected := e.1 } b

theorem recode_drainLoop (hu : Twins u u') : ∀ (n : Nat) {s : Depacketizer} (b : Batch), Ours u s →
    drainLoop now n (recode u' s) (b.recode u') = both u' (drainLoop now n s b)
  | 0, _, _, _ => rfl
  | n + 1, s, b, h => by
    simp only [drainLoop, recode_drainIter hu h]
    cases hd : drainIter now s b with
    | none => rfl
    | some c => exact recode_drainLoop hu n c.2 (h.subset (turn_subset (drainIter_cases hd)))

/-- `drain` only takes frames out. -/
theorem ours_drainInv (u : Shipment) (now : Int) : DrainInv now (fun s _ => Ours u s) where
  expire_ahead s b e h _ _ := by
    refine h.subset ?_
    intro g hg
    simp only [recover_pending] at hg
    exact (OrdMap.mem_erase.mp hg).1
  expire_behind s b e h _ _ _ := h.subset fun g hg => (OrdMap.mem_erase.mp hg).1
  place s b e h _ _ _ _ := h
  turn s b c h _ ht := h.subset (turn_subset ht)
  purge s b e h _ _ _ := h.subset fun g hg => (OrdMap.mem_erase.mp hg).1
  increase s b h := h.subset fun g hg => by simpa using hg

theorem recode_advance (hu : Twins u u') {s : Depacketizer} (h : Ours u s) (b : Batch) :
    advance now (recode u' s) (b.recode u') = both u' (advance now s b) := by
  unfold advance
  rw [recode_size, recode_drainLoop hu _ b h]
  simp only [both, recode_purge]
  exact recode_increase now _ _

theorem recode_drain (hu : Twins u u') {s : Depacketizer} (h : Ours u s) (b : Batch) :
    drain now (recode u' s) (b.recode u') = both u' (drain now s b) := by
  have hours := (ours_drainInv u now).expire_fold s.pending.toList s b (OrdMap.nodup_keys _)
    (fun _ he => he) h
  unfold drain
  rw [recode_expire]
  simp only [both, recode_place]
  cases hpl : place (expire now s b).1 with
  | none => rfl
  | some t =>
    exact recode_advance hu ((ours_drainInv u now).place_some (b := b) hpl hours).2 _

end Drain

/-! ## Packets -/

/-- The same chunk of the two shipments, or one packet under another sequence number. -/
inductive TwinPackets (u u' : Shipment) : DcPacket → DcPacket → Prop
  | chunk {p p' : DcPacket} {i : Nat} (h : Carries p u i) (h' : Carries p' u' i) : TwinPackets u u' p p'
  | other {p : DcPacket} (h : p.seq ≠ u.seq) : TwinPackets u u' p p

section Packet
variable {u u' : Shipment} {p p' : DcPacket}

theorem TwinPackets.seq (hu : Twins u u') (h : TwinPackets u u' p p') : p'.seq = p.seq := by
  cases h with
  | chunk h h' => rw [h'.seq, h.seq, hu.seq]
  | other h => rfl

theorem TwinPackets.length (hu : Twins u u') (h : TwinPackets u u' p p') :
    p'.payload.length = p.payload.length := by
  cases h with
  | chunk h h' => rw [h'.payload, h.payload, hu.length_chunk]
  | other h => rfl

theorem TwinPackets.fresh (hu : Twins u u') (h : TwinPackets u u' p p') (now : Int) :
    Frame.fresh p' now = recodeAt u' p.seq (Frame.fresh p now) := by
  cases h with
  | chunk h h' =>
    have hcount : p'.count = p.count := UInt8.toNat_inj.mp (by rw [h'.count, h.count, hu.count])
    have hts : p'.timestamp = p.timestamp := by rw [h'.timestamp, h.timestamp, hu.timestamp]
    have hfl : p'.stableFlags = p.stableFlags := by rw [h'.flags, h.flags, hu.flags]
    have hnil : (List.replicate p.count.toNat ([] : Bytes)).mapIdx
        (fun i c => if c = [] then [] else u'.chunk i) = List.replicate p.count.toNat [] := by
      apply List.ext_getElem (by simp)
      intro j _ _
      simp
    unfold recodeAt
    rw [if_pos (h.seq.trans hu.seq.symm)]
    simp only [Frame.recode, Frame.fresh, hcount, hts, hfl, hnil]
  | other h => exact (recodeAt_other (fun he => h (he.trans hu.seq)) _).symm

/-- A packet and its twin do the same to a frame and the recoded frame. -/
structure SameStore (u' : Shipment) (p p' : DcPacket) (f : Frame) : Prop where
  agrees : (recodeAt u' p.seq f).agrees p' ↔ f.agrees p
  empty : (recodeAt u' p.seq f).chunks.getD p'.index.toNat [] = [] ↔ f.chunks.getD p.index.toNat [] = []
  same : f.chunks.getD p.index.toNat [] ≠ [] →
    ((recodeAt u' p.seq f).chunks.getD p'.index.toNat [] = p'.payload ↔
      f.chunks.getD p.index.toNat [] = p.payload)
  store : (recodeAt u' p.seq f).store p' = recodeAt u' p.seq (f.store p)

theorem TwinPackets.sameStore (hu : Twins u u') (h : TwinPackets u u' p p') {f : Frame}
    (hf : p.seq = u.seq → f.Of u) : SameStore u' p p' f := by
  cases h with
  | other h =>
    have hne : p.seq ≠ u'.seq := fun he => h (he.trans hu.seq)
    have hid : ∀ g, recodeAt u' p.seq g = g := recodeAt_other hne
    exact ⟨by rw [hid], by rw [hid], fun _ => by rw [hid], by rw [hid, hid]⟩
  | chunk h h' =>
    have hof := hf h.seq
    have hseq : p.seq = u'.seq := h.seq.trans hu.seq.symm
    have hindex : p'.index = p.index := UInt8.toNat_inj.mp (by rw [h'.index, h.index])
    have hat : ∀ g : Frame, recodeAt u' p.seq g = g.recode u' := fun g => by
      unfold recodeAt; rw [if_pos hseq]
    have hpay : p'.payload = u'.chunk p.index.toNat := by rw [h'.payload, h.index]
    have hne : u'.chunk p.index.toNat ≠ [] := hpay ▸ p'.payload_ne
    have hag : (recodeAt u' p.seq f).agrees p' := by
      unfold Frame.agrees
      obtain ⟨hts, hcount, hfl, -⟩ := recodeAt_fields u' p.seq f
      rw [hts, hcount, hfl]
      obtain ⟨a1, a2, a3⟩ := hof.agrees h
      refine ⟨a1.trans (UInt8.toNat_inj.mp ?_), a2.trans ?_, a3.trans ?_⟩
      · rw [h.count, h'.count, hu.count]
      · rw [h.timestamp, h'.timestamp, hu.timestamp]
      · rw [h.flags, h'.flags, hu.flags]
    refine ⟨⟨fun _ => hof.agrees h, fun _ => hag⟩, ?_, ?_, ?_⟩
    · rw [hat, hindex, recode_getD]
      split <;> simp_all
    · intro hfull
      rw [hat, hindex, recode_getD, if_neg hfull, hpay]
      exact ⟨fun _ => hof.same h hfull, fun _ => rfl⟩
    · rw [hat, hat]
      have hlen : p'.payload.length = p.payload.length := by
        rw [h'.payload, h.payload, hu.length_chunk]
      simp only [Frame.store, Frame.recode, hindex, hlen, Frame.mk.injEq, true_and]
      apply List.ext_getElem (by simp)
      intro j _ _
      simp only [List.getElem_set, List.getElem_mapIdx]
      split
      · rename_i hj
        subst hj
        rw [if_neg p.payload_ne, hpay]
      · rfl

theorem recode_store {now : Int} (hu : Twins u u') (h : TwinPackets u u' p p') {s : Depacketizer}
    (b : Batch) {f : Frame} (hf : SameStore u' p p' f) :
    store now (recode u' s) (b.recode u') p' (recodeAt u' p.seq f) = both u' (store now s b p f) := by
  unfold store
  simp only [hf.agrees, h.seq hu, h.length hu, hf.empty, hf.store, recode_erase]
  split
  · exact recode_recover now _ _
  · split
    · simp only [both, recode, OrdMap.mapValues_insert]
    · rename_i hfull
      simp only [ne_eq, hf.same hfull]
      split
      · exact recode_recover now _ _
      · rfl

theorem Ours.insert {s : Depacketizer} (ho : Ours u s) {f : Frame} {n : Nat} (hof : p.seq = u.seq → f.Of u) :
    Ours u { s with pending := s.pending.insert p.seq f, bytes := n } := by
  intro g hg
  rw [OrdMap.find?_insert] at hg
  split at hg
  · rename_i hk
    cases hg
    exact hof hk.symm
  · exact ho g hg

/-- The frame the packet goes into, new or known. -/
theorem TwinPackets.slot (h : TwinPackets u u' p p') (now : Int) {s : Depacketizer} (ho : Ours u s) :
    p.seq = u.seq → ((s.pending.find? p.seq).getD (Frame.fresh p now)).Of u := by
  intro hk
  cases hf : s.pending.find? p.seq with
  | some f => exact ho f (hk ▸ hf)
  | none =>
    cases h with
    | chunk h h' => exact fresh_of h now
    | other h => exact absurd hk h

theorem ours_store {now : Int} (h : TwinPackets u u' p p') {s : Depacketizer} {b : Batch} {f : Frame}
    (ho : Ours u s) (hof : p.seq = u.seq → f.Of u) : Ours u (store now s b p f).1 := by
  have herase : Ours u (recover now (erase s p.seq f) b).1 := by
    refine ho.subset ?_
    intro g hg
    simp only [recover_pending] at hg
    exact (OrdMap.mem_erase.mp hg).1
  unfold store
  split
  · exact herase
  split
  · rename_i hempty
    refine ho.insert ?_
    intro hk
    cases h with
    | chunk h h' => exact store_of (hof hk) h hempty
    | other h => exact absurd hk h
  split
  · exact herase
  · exact ho

theorem ours_accept (h : TwinPackets u u' p p') (now : Int) {s : Depacketizer} (ho : Ours u s) :
    Ours u (accept now s p).1 := by
  have hd : Ours u (drain now s {}).1 := (ours_drainInv u now).drain (b := {}) ho
  unfold accept
  simp only
  generalize drain now s {} = c at hd
  split
  · exact hd
  split
  · refine hd.subset ?_
    intro g hg
    simp [overflow] at hg
  · have hof := h.slot now hd
    exact (ours_drainInv u now).drain (ours_store h (hd.insert hof) hof)

theorem recode_accept (hu : Twins u u') (h : TwinPackets u u' p p') (now : Int) {s : Depacketizer}
    (ho : Ours u s) : accept now (recode u' s) p' = both u' (accept now s p) := by
  have hd : drain now (recode u' s) {} = both u' (drain now s {}) := recode_drain hu ho {}
  have hours : Ours u (drain now s {}).1 := (ours_drainInv u now).drain (b := {}) ho
  unfold accept
  simp only [hd, h.seq hu, h.length hu, both, recode_find?, recode_size, Option.map_eq_none_iff]
  generalize drain now s {} = c at hours
  obtain ⟨t, b⟩ := c
  have hi : (recode u' t).initialized = t.initialized := rfl
  have he : (recode u' t).expected = t.expected := rfl
  have hby : (recode u' t).bytes = t.bytes := rfl
  simp only [hi, he, hby]
  split
  · rfl
  split
  · exact recode_overflow now t b
  have hof := h.slot now hours
  have hgetD : ((t.pending.find? p.seq).map (recodeAt u' p.seq)).getD (Frame.fresh p' now) =
      recodeAt u' p.seq ((t.pending.find? p.seq).getD (Frame.fresh p now)) := by
    rw [h.fresh hu, Option.getD_map]
  rw [hgetD]
  generalize (t.pending.find? p.seq).getD (Frame.fresh p now) = f at hof
  have hs : store now (recode u' { t with pending := t.pending.insert p.seq f }) (b.recode u') p'
      (recodeAt u' p.seq f) = both u' (store now { t with pending := t.pending.insert p.seq f } b p f) :=
    recode_store hu h b (h.sameStore hu hof)
  simp only [recode, OrdMap.mapValues_insert] at hs
  exact (congrArg (fun c => drain now c.1 c.2) hs).trans
    (recode_drain hu (ours_store h (hours.insert hof) hof) _)

end Packet

/-! ## Calls -/

/-- The same call, or one that brings the same chunk of the two shipments. -/
inductive TwinCalls (u u' : Shipment) : Call → Call → Prop
  | chunk {p p' : Bytes} {q q' : DcPacket} {i : Nat} {now : Int} (h : parsePacket p = some q)
      (h' : parsePacket p' = some q') (hq : Carries q u i) (hq' : Carries q' u' i) :
      TwinCalls u u' (.packet p now) (.packet p' now)
  | other {p : Bytes} {now : Int} (h : ∀ q, parsePacket p = some q → q.seq ≠ u.seq) :
      TwinCalls u u' (.packet p now) (.packet p now)
  | tick {now : Int} : TwinCalls u u' (.tick now) (.tick now)
  | reset : TwinCalls u u' .reset .reset

section Calls
variable {u u' : Shipment}

theorem recode_packet (hu : Twins u u') {s : Depacketizer} (ho : Ours u s) {p p' : Bytes}
    {q q' : DcPacket} {now : Int} (h : parsePacket p = some q) (h' : parsePacket p' = some q')
    (hq : TwinPackets u u' q q') : processPacketAt (recode u' s) p' now = both u' (processPacketAt s p now) ∧
      Ours u (processPacketAt s p now).1 := by
  unfold processPacketAt
  rw [h, h']
  split
  · exact ⟨rfl, ho⟩
  · exact ⟨recode_accept hu hq now ho, ours_accept hq now ho⟩

theorem recode_tick (hu : Twins u u') {s : Depacketizer} (ho : Ours u s) (now : Int) :
    onTimerTickAt (recode u' s) now = both u' (onTimerTickAt s now) ∧ Ours u (onTimerTickAt s now).1 := by
  have hd : drain now (recode u' s) {} = both u' (drain now s {}) := recode_drain hu ho {}
  have hours : Ours u (drain now s {}).1 := (ours_drainInv u now).drain (b := {}) ho
  unfold onTimerTickAt
  split
  · exact ⟨rfl, ho⟩
  · simp only [hd]
    have hw : (both u' (drain now s {})).1.waiting = (drain now s {}).1.waiting := rfl
    rw [hw]
    split
    · exact ⟨recode_recover now _ _, hours.subset fun g hg => by simpa using hg⟩
    · exact ⟨rfl, hours⟩

theorem recode_call (hu : Twins u u') {s : Depacketizer} (ho : Ours u s) {c c' : Call}
    (h : TwinCalls u u' c c') : call (recode u' s) c' = both u' (call s c) ∧ Ours u (call s c).1 := by
  cases h with
  | chunk h h' hq hq' => exact recode_packet hu ho h h' (.chunk hq hq')
  | @other p now hother =>
    cases hp : parsePacket p with
    | none => simp only [call, processPacketAt, hp]; split <;> exact ⟨rfl, ho⟩
    | some q => exact recode_packet hu ho hp hp (.other (hother q hp))
  | tick => exact recode_tick hu ho _
  | reset => exact ⟨rfl, fun f hf => by simp [call, reset, OrdMap.find?_eq_some] at hf⟩

/-- Runs fed with twins stay one `recode` apart. -/
theorem recode_run (hu : Twins u u') {cs cs' : List Call} (h : List.Forall₂ (TwinCalls u u') cs cs') :
    ∀ {s : Depacketizer}, Ours u s →
      run (recode u' s) cs' = (recode u' (run s cs).1, (run s cs).2.map (Batch.recode u')) := by
  induction h with
  | nil => exact fun _ => rfl
  | cons hc _ ih =>
    intro s ho
    obtain ⟨h1, h2⟩ := recode_call hu ho hc
    simp only [run, h1, both, ih h2, List.map_cons]

theorem recode_of_absent {u' : Shipment} {s : Depacketizer} (h : s.pending.find? u'.seq = none) :
    recode u' s = s := by
  have hl : s.pending.mapValues (recodeAt u') = s.pending := by
    apply OrdMap.toList_inj
    simp only [OrdMap.mapValues]
    conv_rhs => rw [← List.map_id s.pending.toList]
    apply List.map_congr_left
    intro e he
    rw [recodeAt_other (OrdMap.find?_eq_none.mp h e he)]
    rfl
  unfold recode
  rw [hl]

end Calls

/-! ## The two forms -/

/-- What the callbacks see of a batch. -/
def observed (b : Batch) : List (UInt16 × List Bytes × Output) × List Control × Bool :=
  (b.frames.map fun e => (e.seq, e.nalus, e.out), b.controls, b.overflow)

theorem observed_recode (u' : Shipment) (b : Batch) : observed (b.recode u') = observed b := by
  simp [observed, Batch.recode, Emission.recode, Function.comp_def]

/-- `assemble` reads both forms as the list, unless the length-prefixed one
reads as an Annex-B form of something else. -/
theorem splitAccessUnit_avcc {ns : List Bytes} (hne : ns ≠ []) (hlen : ns.length ≤ 1023)
    (hns : ∀ n ∈ ns, validNalu n = true ∧ Clean n)
    (hread : ∀ ms, splitAnnexB (avcc ns) = some ms → ms = ns)
    (hfit : (annexB ns).length ≤ kMaxRaw) :
    splitAccessUnit (avcc ns) = splitAccessUnit (annexB ns) := by
  have hmax : kMaxRaw ≤ kMaxAccessUnitBytes := by decide
  have hcount : ns.length ≤ kMaxNalus := by unfold kMaxNalus; omega
  have h1 := splitAnnexB_annexB ns hne hns hcount (by omega)
  have h2 := splitLengthPrefixed4_avcc ns hne (fun n hn => (hns n hn).1) hcount
    (by rw [length_avcc]; omega)
  unfold splitAccessUnit
  rw [h1, h2]
  cases hm : splitAnnexB (avcc ns) with
  | none => rfl
  | some ms => rw [hread ms hm]

/-- **Where the two forms are interchangeable.** `u` and `u'` are the Annex-B
and the length-prefixed form of one list, cut at the same places; their chunks
arrive in any order and number, among any calls that bring other sequence
numbers. If the length-prefixed bytes do not read as the Annex-B form of
another list, the callbacks see the same after every call, and the states
differ in the chunks still pending for the unit alone. The length of the first
unit decides: only 1 and 256 to 511 look like a start code. -/
theorem annexB_avcc_interchange (n : Bytes) (t : List Bytes) (u u' : Shipment) (s : Depacketizer)
    (cs cs' : List Call) (hlen : (n :: t).length ≤ 1023)
    (hns : ∀ m ∈ n :: t, validNalu m = true ∧ Clean m)
    (hu : u.data = annexB (n :: t)) (hu' : u'.data = avcc (n :: t))
    (hheader : u'.seq = u.seq ∧ u'.timestamp = u.timestamp ∧ u'.flags = u.flags)
    (hcut : u'.chunks.map List.length = u.chunks.map List.length)
    (hnew : s.pending.find? u.seq = none) (hcs : List.Forall₂ (TwinCalls u u') cs cs') :
    ((∀ ms, splitAnnexB (avcc (n :: t)) = some ms → ms = n :: t) →
      (run s cs').2.map observed = (run s cs).2.map observed ∧
      (run s cs').1 = recode u' (run s cs).1 ∧
      ((run s cs).1.pending.find? u.seq = none → (run s cs').1 = (run s cs).1)) ∧
    (n.length < 2 ^ 32 → n.length ≠ 1 → n.length / 256 ≠ 1 → splitAnnexB (avcc (n :: t)) = none) := by
  obtain ⟨hseq, hts, hflags⟩ := hheader
  refine ⟨?_, ?_⟩
  · intro hread
    have twins : Twins u u' := by
      refine ⟨hseq, hts, hflags, hcut, ?_⟩
      intro hfit
      rw [hu, hu']
      rw [hu] at hfit
      exact splitAccessUnit_avcc (List.cons_ne_nil n t) hlen hns hread hfit
    have hours : Ours u s := fun f hf => by rw [hnew] at hf; cases hf
    have hrun := recode_run twins hcs hours
    rw [recode_of_absent (hseq ▸ hnew)] at hrun
    refine ⟨?_, congrArg Prod.fst hrun, ?_⟩
    · rw [hrun, List.map_map]
      exact List.map_congr_left fun b _ => observed_recode u' b
    · intro habsent
      rw [hrun]
      exact recode_of_absent (hseq ▸ habsent)
  · intro hlt h1 h2
    have h0 : n.length ≠ 0 := by
      have := validNalu_ne_nil (hns n (List.mem_cons_self ..)).1
      simpa using this
    exact avcc_startCode hlt h0 h1 h2

/-- An SPS of 257 bytes: its length prefix is `00 00 01 01`. -/
def longSps : Bytes := 0x67 :: List.replicate 256 1

/-- One packet of a key unit that went out in two, sequence number 0. -/
def halfPacket (i : UInt8) (chunk : Bytes) : Bytes :=
  [0x4d, 0x4b, if i = 0 then 5 else 9, 1, i, 2, 0, 0, 0, 0, 0, 0] ++ chunk

def shortKey : List Bytes := [[0x67, 1], [0x68, 2], [0x65, 3]]

/-- A fresh depacketizer puts the Annex-B form of `[longSps, PPS, IDR]` out and
drops the length-prefixed form of it. The two forms of a short unit part as
well when a chunk is already pending under the sequence number, and their
bytes are different as long as they are pending. -/
theorem longSps_misread :
    (∀ n ∈ [longSps, [0x68, 2], [0x65, 3]], validNalu n = true ∧ Clean n) ∧
    (emitted (run {} [.packet (keyPacket (annexB [longSps, [0x68, 2], [0x65, 3]])) 0]).2).length = 1 ∧
    emitted (run {} [.packet (keyPacket (avcc [longSps, [0x68, 2], [0x65, 3]])) 0]).2 = [] ∧
    (emitted (run {} ([(0, (annexB shortKey).take 6), (0, (annexB shortKey).take 6),
      (1, (annexB shortKey).drop 6)].map fun c => .packet (halfPacket c.1 c.2) 0)).2).length = 1 ∧
    emitted (run {} ([(0, (annexB shortKey).take 6), (0, (avcc shortKey).take 6),
      (1, (avcc shortKey).drop 6)].map fun c => .packet (halfPacket c.1 c.2) 0)).2 = [] ∧
    (run {} [.packet (halfPacket 0 ((annexB shortKey).take 6)) 0]).1.pending.toList ≠
      (run {} [.packet (halfPacket 0 ((avcc shortKey).take 6)) 0]).1.pending.toList := by decide +kernel

/-- The shipment of one chunk that `keyPacket` carries. -/
def keyShipment (au : Bytes) : Shipment := ⟨[au], 0, 0, 1⟩

theorem keyPacket_carries (au : Bytes) (hne : au ≠ []) (hle : au.length ≤ kMaxDcChunkPayload) :
    ∃ q, parsePacket (keyPacket au) = some q ∧ Carries q (keyShipment au) 0 := by
  have hpar : parsePacket (keyPacket au) =
      some ⟨13, 0, 1, le16 0 0, le32 0 0 0 0, au, by decide, hne, hle⟩ := by
    simp only [keyPacket, parsePacket, List.cons_append, List.nil_append]
    rw [dif_pos ⟨hne, hle, by decide⟩]
    rfl
  exact ⟨_, hpar, rfl, rfl, rfl, rfl, (by decide : (13 : UInt8) &&& 3 = 1), rfl⟩

/-- The two forms of the short unit, each in one packet, in a fresh depacketizer. -/
theorem annexB_avcc_interchange_shortKey :
    (run {} [.packet (keyPacket (avcc shortKey)) 0]).2.map observed =
      (run {} [.packet (keyPacket (annexB shortKey)) 0]).2.map observed := by
  obtain ⟨q, hq, hc⟩ := keyPacket_carries (annexB shortKey) (by decide) (by decide)
  obtain ⟨q', hq', hc'⟩ := keyPacket_carries (avcc shortKey) (by decide) (by decide)
  have h := annexB_avcc_interchange [0x67, 1] [[0x68, 2], [0x65, 3]] (keyShipment (annexB shortKey))
    (keyShipment (avcc shortKey)) {} [.packet (keyPacket (annexB shortKey)) 0]
    [.packet (keyPacket (avcc shortKey)) 0] (by decide) (by decide) (by decide) (by decide)
    ⟨rfl, rfl, rfl⟩ (by decide) rfl (.cons (.chunk hq hq' hc hc') .nil)
  have hnone := h.2 (by decide) (by decide) (by decide)
  exact (h.1 fun ms hms => by rw [hnone] at hms; cases hms).1

end KmVirtualCamera.L2.DcVideo
