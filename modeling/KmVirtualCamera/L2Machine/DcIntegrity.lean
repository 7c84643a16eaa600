import Mathlib
import KmVirtualCamera.L2Machine.DcTimely
import KmVirtualCamera.L2Machine.DcReassembly

/-!
# A channel that loses, repeats and reorders

The sender numbers its access units modulo 2^16; the channel may lose packets,
deliver them again and in any order. There is no bound on the number of units.

Two packets of one number go into one frame whatever their units are, so the
depacketizer relies on time: a frame is gone after 60 ms. `Sending.Carried` asks that
no packet is overtaken within that time by 65536 units.

A unit is taken when its frame is complete and under the cursor, and then it is
handed on or refused. `Sending.Taken` says what may come out of the units taken, in
their order: the parameter sets an IDR is short of are those of the units taken
before it. `Guide` is for what else the cursor keeps in order.

* `handed_on_sent`: whatever is handed on is one access unit as it was sent.
* `handed_on_in_order`: between two overflows the units come in the order they
  were sent, each at most once, if those on the way span less than half the
  numbers.

An overflow takes the cursor back: a keyframe that arrives again after it is
handed on a second time.
-/
namespace KmVirtualCamera.L2.DcVideo
open KmVirtualCamera.L1.H264 KmVirtualCamera.L1.DcWire

/-! ## What is sent and what arrives -/

/-- An access unit that `sendAccessUnit` accepts. -/
structure Sent where
  data : Bytes
  timestampUs : Int
  keyframe : Bool
  nonempty : data ≠ []
  fits : data.length ≤ DC_MAX_AU_BYTES
  safe : timestampUs.natAbs ≤ 2 ^ 53 - 1

/-- Unit `k` goes out under the number `base + k`. -/
structure Sending where
  base : Nat
  unit : Nat → Sent

/-- A packet that arrives, chunk `index` of unit `unit`, or a tick of the timer. -/
inductive Incoming where
  | packet (unit index : Nat) (now : Int)
  | tick (now : Int)

namespace Sending
variable (S : Sending)

def seq (k : Nat) : UInt16 := ((JsNumber.finite (S.base + k : Int)).toUint32 &&& 0xffff).toUInt16

def ship (k : Nat) : Shipment :=
  shipment (S.unit k).data (.finite (S.base + k : Int)) (.finite (S.unit k).timestampUs) (S.unit k).keyframe

def wire (k i : Nat) : Bytes :=
  packet (S.unit k).data (.finite (S.base + k : Int)) (.finite (S.unit k).timestampUs) (S.unit k).keyframe
    (chunkCount (S.unit k).data) i

def call : Incoming → Call
  | .packet k i now => .packet (S.wire k i) now
  | .tick now => .tick now

theorem seq_toNat (k : Nat) : ((S.seq k).toNat : Int) = (S.base + k) % 2 ^ 16 := JsNumber.toUint16_int _

theorem seq_inj {j k : Nat} (hj : j < k + 65536) (hk : k < j + 65536) (h : S.seq j = S.seq k) : j = k := by
  have h1 := S.seq_toNat j
  have h2 := S.seq_toNat k
  rw [h] at h1
  omega

@[simp] theorem ship_count (k : Nat) : (S.ship k).count = chunkCount (S.unit k).data := shipment_count ..

@[simp] theorem ship_data (k : Nat) : (S.ship k).data = (S.unit k).data := shipment_data ..

theorem wire_carries {k i : Nat} (hi : i < chunkCount (S.unit k).data) :
    ∃ p, parsePacket (S.wire k i) = some p ∧ Carries p (S.ship k) i :=
  ⟨_, parsePacket_packet _ _ _ _ _ i (chunkCount_le (S.unit k).fits) hi (part_ne_nil hi),
    chunkPacket_carries _ _ _ _ (S.unit k).fits hi⟩

theorem chunkCount_pos (k : Nat) : 0 < chunkCount (S.unit k).data :=
  L1.DcWire.chunkCount_pos fun h => (S.unit k).nonempty (List.length_eq_zero_iff.mp h)

end Sending

/-- Two packets less than 60 ms apart are of units that the numbers tell apart. -/
def Incoming.Near : Incoming → Incoming → Prop
  | .packet k _ t, .packet k' _ t' => t' - t < 60000 → k < k' + 65536 ∧ k' < k + 65536
  | _, _ => True

/-- What the channel may do with the packets of `S`. -/
structure Sending.Carried (S : Sending) (es : List Incoming) : Prop where
  chunk : ∀ k i now, .packet k i now ∈ es → i < chunkCount (S.unit k).data
  near : es.Pairwise Incoming.Near

/-- The cached sets after a unit: its last SPS and its last PPS if it has both, and
none if it has only one of them. -/
def setsOf (c : Bytes × Bytes) (data : Bytes) : Bytes × Bytes :=
  match splitAccessUnit data with
  | none => c
  | some ns =>
    if lastOf 7 ns = [] ∧ lastOf 8 ns = [] then c
    else if lastOf 7 ns = [] ∨ lastOf 8 ns = [] then ([], [])
    else (lastOf 7 ns, lastOf 8 ns)

namespace Sending
variable (S : Sending) (es : List Incoming)

def Arrived (k : Nat) : Prop := ∀ i < chunkCount (S.unit k).data, ∃ t, .packet k i t ∈ es

/-- What is handed on is unit `k`: all its packets have arrived, and it is made
of the NAL units of the data they were cut from. In front of an IDR stand the sets
cached after it. -/
structure Whole (sets : Bytes × Bytes) (k : Nat) (e : Emission) : Prop where
  seq : e.seq = S.seq k
  arrived : S.Arrived es k
  timestamp : e.out.timestamp = (JsNumber.finite (S.unit k).timestampUs).toUint32
  made : ∃ ns, splitAccessUnit (S.unit k).data = some ns ∧
    e.out.data = annexB (outNalus (scan ns).idr sets.1 sets.2 ns)

/-- The sets cached after the units `ks`, `old` before them. -/
def setsAfter (old : Bytes × Bytes) (ks : List Nat) : Bytes × Bytes :=
  ks.foldl (fun c k => setsOf c (S.unit k).data) old

/-- The units taken, all of whose packets have arrived, and what was handed on of them.
One with an IDR is refused only for want of a set. -/
inductive Taken (old : Bytes × Bytes) : List Nat → List Emission → Prop
  | nil : Taken old [] []
  | handedOn {ks : List Nat} {out : List Emission} {k : Nat} {e : Emission} (h : Taken old ks out)
      (whole : S.Whole es (S.setsAfter old (ks ++ [k])) k e) : Taken old (ks ++ [k]) (out ++ [e])
  | refused {ks : List Nat} {out : List Emission} {k : Nat} (h : Taken old ks out) (arrived : S.Arrived es k)
      (short : ∀ ns, splitAccessUnit (S.unit k).data = some ns → (scan ns).idr = true →
        (S.setsAfter old (ks ++ [k])).1 = [] ∨ (S.setsAfter old (ks ++ [k])).2 = []) : Taken old (ks ++ [k]) out

theorem setsAfter_snoc (old : Bytes × Bytes) (ks : List Nat) (k : Nat) :
    S.setsAfter old (ks ++ [k]) = setsOf (S.setsAfter old ks) (S.unit k).data := by
  unfold setsAfter
  rw [List.foldl_append]
  rfl

end Sending

/-! ## Where the chunks are from -/

/-- A pending frame is of unit `k`, and its chunks are among the packets that came. -/
structure Sending.Holds (S : Sending) (es : List Incoming) (k : Nat) (e : UInt16 × Frame) : Prop where
  seq : e.1 = S.seq k
  frame : e.2.Of (S.ship k)
  opened : ∃ i, .packet k i e.2.arrival ∈ es
  chunk : ∀ i, e.2.chunks.getD i [] ≠ [] → ∃ t, .packet k i t ∈ es

/-- `old` are the sets cached at the start, `acc` what the calls before have handed on. -/
structure Traced (S : Sending) (es : List Incoming) (old : Bytes × Bytes) (acc : List Emission) (ks : List Nat)
    (s : Depacketizer) (b : Batch) : Prop where
  pending : ∀ e ∈ s.pending.toList, ∃ k, S.Holds es k e
  sets : (s.sps, s.pps) = S.setsAfter old ks
  taken : S.Taken es old ks (acc ++ b.frames)

section Trace
variable {S : Sending} {es es' : List Incoming} {old : Bytes × Bytes} {acc : List Emission} {ks : List Nat}
  {s : Depacketizer} {b : Batch} {now : Int}

theorem Sending.Holds.mono {k : Nat} {e : UInt16 × Frame} (h : S.Holds es k e) (hsub : es ⊆ es') :
    S.Holds es' k e where
  seq := h.seq
  frame := h.frame
  opened := h.opened.imp fun _ hi => hsub hi
  chunk i hi := (h.chunk i hi).imp fun _ ht => hsub ht

theorem Sending.Arrived.mono {k : Nat} (h : S.Arrived es k) (hsub : es ⊆ es') : S.Arrived es' k :=
  fun i hi => (h i hi).imp fun _ ht => hsub ht

theorem Sending.Taken.mono {out : List Emission} (h : S.Taken es old ks out) (hsub : es ⊆ es') :
    S.Taken es' old ks out := by
  induction h with
  | nil => exact .nil
  | handedOn _ whole ih =>
    exact .handedOn ih ⟨whole.seq, whole.arrived.mono hsub, whole.timestamp, whole.made⟩
  | refused _ arrived short ih => exact .refused ih (arrived.mono hsub) short

theorem Traced.mono (h : Traced S es old acc ks s b) (hsub : es ⊆ es') : Traced S es' old acc ks s b where
  pending e he := (h.pending e he).imp fun _ hk => hk.mono hsub
  sets := h.sets
  taken := h.taken.mono hsub

theorem Traced.pending_sub (h : Traced S es old acc ks s b) {s' : Depacketizer}
    (hp : ∀ e ∈ s'.pending.toList, e ∈ s.pending.toList) {b' : Batch} (hb : b'.frames = b.frames)
    (hsps : s'.sps = s.sps) (hpps : s'.pps = s.pps) : Traced S es old acc ks s' b' where
  pending e he := h.pending e (hp e he)
  sets := by
    rw [hsps, hpps]
    exact h.sets
  taken := by
    rw [hb]
    exact h.taken

/-- A complete frame holds the data of its unit, all of whose packets have arrived. -/
theorem Sending.Holds.complete {k : Nat} {e : UInt16 × Frame} (h : S.Holds es k e) (hc : e.2.complete) :
    S.Arrived es k ∧ e.2.raw = (S.unit k).data := by
  refine ⟨?_, (h.frame.raw hc).trans (S.ship_data k)⟩
  intro i hi
  rw [← S.ship_count, ← h.frame.count] at hi
  exact h.chunk i (h.frame.wf.slot hc hi)

theorem assemble_sets (s : Depacketizer) (f : Frame) :
    ((assemble s f).1.sps, (assemble s f).1.pps) = setsOf (s.sps, s.pps) f.raw := by
  unfold assemble setsOf
  cases splitAccessUnit f.raw with
  | none => rfl
  | some ns =>
    obtain ⟨-, h7, h8⟩ := scan_eq ns
    simp only [nextSets, h7, h8]
    by_cases hs : lastOf 7 ns = []
    · by_cases hp : lastOf 8 ns = []
      · simp only [hs, hp, ne_eq, not_true_eq_false, or_self, if_false, and_self, if_true]
        repeat' split
        all_goals rfl
      · simp [hs, hp]
    · by_cases hp : lastOf 8 ns = []
      · simp [hs, hp]
      · simp only [hs, hp, ne_eq, not_false_eq_true, or_self, if_true, if_false, and_self]
        repeat' split
        all_goals rfl

theorem handOn_sets (now : Int) (s : Depacketizer) (b : Batch) (f : Frame) :
    ((handOn now s b f).1.sps, (handOn now s b f).1.pps) = setsOf (s.sps, s.pps) f.raw := by
  have hsets := assemble_sets s f
  unfold handOn
  generalize assemble s f = r at hsets ⊢
  rcases r with ⟨t, _ | made⟩
  · simpa [erase] using hsets
  · exact hsets

/-- The frame is refused, with an IDR only if a set is missing, or handed on with the
sets cached after it. -/
theorem handOn_frames (now : Int) (s : Depacketizer) (b : Batch) (f : Frame) :
    ((handOn now s b f).2.frames = b.frames ∧ ∀ ns, splitAccessUnit f.raw = some ns → (scan ns).idr = true →
      (setsOf (s.sps, s.pps) f.raw).1 = [] ∨ (setsOf (s.sps, s.pps) f.raw).2 = []) ∨
    ∃ ns nalus out, splitAccessUnit f.raw = some ns ∧
      (handOn now s b f).2.frames = b.frames ++ [⟨s.expected, f, nalus, out⟩] ∧ out.timestamp = f.timestamp ∧
      out.data = annexB (outNalus (scan ns).idr (setsOf (s.sps, s.pps) f.raw).1 (setsOf (s.sps, s.pps) f.raw).2 ns) := by
  have hsets := assemble_sets s f
  have hc := assemble_cases s f
  unfold handOn
  generalize ha : assemble s f = r at hsets hc
  cases hc with
  | refused sps pps sets kept =>
    refine .inl ⟨by simp, ?_⟩
    intro ns hsplit hidr
    rw [← hsets]
    by_contra hboth
    obtain ⟨hsps, hpps⟩ := not_or.mp hboth
    have hnext : nextSets s (scan ns) = some (sps, pps) := (sets ns hsplit).resolve_right fun h => hsps h.2.1
    rw [assemble_output hsplit hnext (fun _ => hidr) (fun _ => hidr) fun _ => ⟨hsps, hpps⟩] at ha
    exact Option.some_ne_none _ (congrArg Prod.snd ha)
  | output ns sps pps split sets key gate configured =>
    refine .inr ⟨ns, _, _, split, rfl, rfl, ?_⟩
    rw [← hsets]
    exact outData_eq _ _ _ _

/-- **The frame under the cursor** is all of one unit. -/
theorem Traced.handOn (now : Int) (h : Traced S es old acc ks s b) {f : Frame} (at_cursor : s.pending.find? s.expected = some f)
    (complete : f.complete) : ∃ k, s.expected = S.seq k ∧ (∃ i t, .packet k i t ∈ es) ∧
      Traced S es old acc (ks ++ [k]) (handOn now s b f).1 (handOn now s b f).2 := by
  obtain ⟨k, hk⟩ := h.pending _ (OrdMap.find?_eq_some.mp at_cursor)
  obtain ⟨harrived, hraw⟩ := hk.complete complete
  obtain ⟨i, hi⟩ := hk.opened
  have hafter : setsOf (s.sps, s.pps) f.raw = S.setsAfter old (ks ++ [k]) := by
    rw [S.setsAfter_snoc, ← h.sets, show f.raw = _ from hraw]
  refine ⟨k, hk.seq, ⟨i, _, hi⟩, fun a ha => h.pending a (turn_mem (.handOn f at_cursor complete) ha), ?_, ?_⟩
  · rw [handOn_sets, hafter]
  · rcases handOn_frames now s b f with ⟨hb, hshort⟩ | ⟨ns, nalus, out, hsplit, hb, htime, hdata⟩
    · rw [hb]
      rw [hafter, show f.raw = _ from hraw] at hshort
      exact .refused h.taken harrived hshort
    · rw [hb, ← List.append_assoc]
      refine .handedOn h.taken ⟨hk.seq, harrived, htime.trans hk.frame.timestamp, ns, hraw ▸ hsplit, ?_⟩
      rw [← hafter]
      exact hdata

/-- The chunk goes into its slot; the frame is pending or new. -/
theorem Traced.stored (h : Traced S es old acc ks s b) {p : DcPacket} {k i : Nat} {f : Frame}
    (hp : Carries p (S.ship k) i) (hi : .packet k i now ∈ es) (hf : f.Of (S.ship k))
    (hopened : ∃ j, .packet k j f.arrival ∈ es)
    (hchunk : ∀ j, f.chunks.getD j [] ≠ [] → ∃ t, .packet k j t ∈ es)
    (empty : f.chunks.getD p.index.toNat [] = []) : Traced S es old acc ks (stored s p f) b where
  pending e he := by
    rcases OrdMap.mem_insert.mp he with rfl | ⟨he, -⟩
    · refine ⟨k, hp.seq, store_of hf hp empty, hopened, ?_⟩
      intro j hj
      change (f.store p).chunks.getD j [] ≠ [] at hj
      rw [store_getD (hf.index_lt hp)] at hj
      split at hj
      · rename_i heq
        rw [heq, hp.index]
        exact ⟨now, hi⟩
      · exact hchunk j hj
    · exact h.pending e he
  sets := h.sets
  taken := h.taken

end Trace

/-! ## What the cursor keeps -/

/-- A property of the units taken that the steps of a call keep. The packets on
the channel are of units that are `ok`. -/
structure Guide (S : Sending) (ok : Nat → Prop) (R : List Nat → Depacketizer → Batch → Prop) : Prop where
  sub : ∀ {ks s b s' b'}, R ks s b → (∀ e ∈ s'.pending.toList, e ∈ s.pending.toList) →
    s'.initialized = s.initialized → s'.expected = s.expected → b'.overflow = b.overflow → R ks s' b'
  place : ∀ {ks s b e}, R ks s b → s.initialized = false → e ∈ s.pending.toList →
    R ks { s with expected := e.1, initialized := true } b
  take : ∀ {ks s b f k now}, R ks s b → s.initialized = true → s.pending.find? s.expected = some f →
    s.expected = S.seq k → ok k → R (ks ++ [k]) (handOn now s b f).1 (handOn now s b f).2
  giveUp : ∀ {ks s b f now}, R ks s b → s.initialized = true → s.pending.find? s.expected = some f →
    R ks (recover now { erase s s.expected f with expected := s.expected + 1 } b).1
      (recover now { erase s s.expected f with expected := s.expected + 1 } b).2
  jump : ∀ {ks s b e now}, R ks s b → s.initialized = true → nearest s = some e →
    R ks (recover now { s with expected := e.1 } b).1 (recover now { s with expected := e.1 } b).2
  insert : ∀ {ks s b k f} {p : DcPacket}, R ks s b → ok k → p.seq = S.seq k → R ks (stored s p f) b
  overflow : ∀ {ks s b now}, R ks s b → R ks (overflow now s b).1 (overflow now s b).2

/-- Nothing in particular. -/
theorem guide_true (S : Sending) : Guide S (fun _ => True) fun _ _ _ => True := by
  constructor <;> intros <;> trivial

/-- The trace of a run with what else is kept. -/
def Guided (R : List Nat → Depacketizer → Batch → Prop) (S : Sending) (es : List Incoming) (old : Bytes × Bytes)
    (acc : List Emission) (s : Depacketizer) (b : Batch) : Prop :=
  ∃ ks, Traced S es old acc ks s b ∧ R ks s b

section Guided
variable {S : Sending} {ok : Nat → Prop} {R : List Nat → Depacketizer → Batch → Prop} {es : List Incoming}
  {old : Bytes × Bytes} {acc : List Emission} {s : Depacketizer} {b : Batch} {now : Int}

theorem Guide.sub_guided (G : Guide S ok R) (h : Guided R S es old acc s b) {s' : Depacketizer} {b' : Batch}
    (hp : ∀ e ∈ s'.pending.toList, e ∈ s.pending.toList) (hb : b'.frames = b.frames) (hover : b'.overflow = b.overflow)
    (hsps : s'.sps = s.sps) (hpps : s'.pps = s.pps) (hi : s'.initialized = s.initialized)
    (he : s'.expected = s.expected) : Guided R S es old acc s' b' := by
  obtain ⟨ks, ht, hr⟩ := h
  exact ⟨ks, ht.pending_sub hp hb hsps hpps, G.sub hr hp hi he hover⟩

theorem Guide.drainInv (G : Guide S ok R) (hok : ∀ k i t, .packet k i t ∈ es → ok k) (old : Bytes × Bytes)
    (acc : List Emission) (now : Int) : DrainInv now (Guided R S es old acc) where
  expire_ahead s b e h _ _ := G.sub_guided h
    (fun a ha => (OrdMap.mem_erase.mp (by simpa [erase] using ha)).1) (by simp) (by simp) (by simp [erase])
    (by simp [erase]) (by simp [erase]) (by simp [erase])
  expire_behind s b e h _ _ _ := G.sub_guided h (fun a ha => (OrdMap.mem_erase.mp ha).1) rfl rfl rfl rfl rfl rfl
  place s b e h hi he _ _ := by
    obtain ⟨ks, ht, hr⟩ := h
    exact ⟨ks, ⟨ht.pending, ht.sets, ht.taken⟩, G.place hr hi he⟩
  turn s b c h hi hturn := by
    obtain ⟨ks, ht, hr⟩ := h
    cases hturn with
    | handOn f at_cursor complete =>
      obtain ⟨k, hseq, ⟨i, t, hmem⟩, htaken⟩ := ht.handOn now at_cursor complete
      exact ⟨ks ++ [k], htaken, G.take hr hi at_cursor hseq (hok k i t hmem)⟩
    | giveUp f at_cursor incomplete late =>
      exact ⟨ks, ht.pending_sub (fun a ha => turn_mem (.giveUp (b := b) f at_cursor incomplete late) ha) (by simp)
        (by simp [erase]) (by simp [erase]), G.giveUp hr hi at_cursor⟩
    | jump e gap pick late =>
      exact ⟨ks, ht.pending_sub (fun a ha => turn_mem (.jump (b := b) e gap pick late) ha) (by simp) (by simp)
        (by simp), G.jump hr hi pick⟩
  purge s b e h _ _ _ := G.sub_guided h (fun a ha => (OrdMap.mem_erase.mp ha).1) rfl rfl rfl rfl rfl rfl
  increase s b h := G.sub_guided h (fun a ha => by simpa using ha) (by simp) (by simp) (by simp) (by simp) (by simp)
    (by simp)

/-- **A packet of a unit.** A frame of its number is of its unit, or would have
expired. -/
theorem Guide.accept (G : Guide S ok R) {k i : Nat} (hok : ∀ j i' t, .packet j i' t ∈ es ++ [.packet k i now] → ok j)
    (hnear : ∀ e ∈ es, e.Near (.packet k i now)) (h : Guided R S es old acc s {}) {p : DcPacket}
    (hp : Carries p (S.ship k) i) :
    Guided R S (es ++ [.packet k i now]) old acc (accept now s p).1 (accept now s p).2 := by
  have hsub : es ⊆ es ++ [.packet k i now] := List.subset_append_left ..
  have hnew : Incoming.packet k i now ∈ es ++ [.packet k i now] := by simp
  have hrule := G.drainInv hok old acc now
  have hyoung : ∀ e ∈ (drain now s {}).1.pending.toList, now - e.2.arrival < 60000 := fun e he => (drain_mem he).2
  have hd := (G.drainInv (fun j i' t hj => hok j i' t (hsub hj)) old acc now).drain h
  have hc := accept_cases now s p
  generalize drain now s {} = c at hd hyoung hc
  generalize DcVideo.accept now s p = r at hc
  obtain ⟨ks, ht, hr⟩ := hd
  have ht' := ht.mono hsub
  cases hc with
  | stale late => exact ⟨ks, ht', hr⟩
  | overflow ahead full =>
    refine ⟨ks, ?_, G.overflow hr⟩
    rw [overflow_eq]
    exact ht'.pending_sub (fun a ha => by simp [OrdMap.empty] at ha) (by simp) (by simp) (by simp)
  | fresh ahead room new =>
    rw [stored_opened]
    refine hrule.drain ⟨ks, ht'.stored hp hnew (fresh_of hp now) ⟨i, hnew⟩ ?_ (fresh_slot p now _),
      G.insert hr (hok k i now hnew) hp.seq⟩
    intro j hj
    exact absurd (fresh_slot p now j) hj
  | store f ahead room known agrees empty =>
    have hm := OrdMap.find?_eq_some.mp known
    obtain ⟨k', hk'⟩ := ht.pending _ hm
    obtain ⟨j, hj⟩ := hk'.opened
    obtain ⟨hlt, hgt⟩ := hnear _ hj (hyoung _ hm)
    obtain rfl := S.seq_inj hlt hgt (hk'.seq.symm.trans hp.seq)
    have hk' := hk'.mono hsub
    exact hrule.drain ⟨ks, ht'.stored hp hnew hk'.frame hk'.opened hk'.chunk empty, G.insert hr (hok _ i now hnew) hp.seq⟩
  | duplicate f ahead known same => exact hrule.drain ⟨ks, ht', hr⟩
  | conflict f ahead known differs =>
    exact hrule.drain (G.sub_guided ⟨ks, ht', hr⟩
      (fun a ha => (OrdMap.mem_erase.mp (by simpa [erase] using ha)).1) (by simp) (by simp) (by simp [erase])
      (by simp [erase]) (by simp [erase]) (by simp [erase]))

theorem Guide.tick (G : Guide S ok R) (hok : ∀ k i t, .packet k i t ∈ es → ok k) (h : Guided R S es old acc s {}) :
    Guided R S (es ++ [.tick now]) old acc (onTimerTickAt s now).1 (onTimerTickAt s now).2 := by
  have hmono : ∀ {s b}, Guided R S es old acc s b → Guided R S (es ++ [.tick now]) old acc s b :=
    fun ⟨ks, ht, hr⟩ => ⟨ks, ht.mono (List.subset_append_left ..), hr⟩
  unfold onTimerTickAt
  split
  · exact hmono h
  · have hd := hmono ((G.drainInv hok old acc now).drain h)
    dsimp only
    split
    · exact G.sub_guided hd (fun a ha => by simpa using ha) (by simp) (by simp) (by simp) (by simp) (by simp) (by simp)
    · exact hd

theorem Guide.call (G : Guide S ok R) {e : Incoming} (hok : ∀ k i t, .packet k i t ∈ es ++ [e] → ok k)
    (hchunk : ∀ k i now, e = .packet k i now → i < chunkCount (S.unit k).data)
    (hnear : ∀ a ∈ es, a.Near e) (h : Guided R S es old acc s {}) :
    Guided R S (es ++ [e]) old acc (call s (S.call e)).1 (call s (S.call e)).2 := by
  cases e with
  | tick now => exact G.tick (fun k i t hk => hok k i t (List.mem_append_left _ hk)) h
  | packet k i now =>
    obtain ⟨p, hparse, hp⟩ := S.wire_carries (hchunk k i now rfl)
    have hcall : DcVideo.call s (S.call (.packet k i now)) = if now < 0 then (s, {}) else DcVideo.accept now s p := by
      simp only [Sending.call, DcVideo.call, processPacketAt, hparse]
    rw [hcall]
    split
    · obtain ⟨ks, ht, hr⟩ := h
      exact ⟨ks, ht.mono (List.subset_append_left ..), hr⟩
    · exact G.accept hok hnear h hp

end Guided

/-! ## Runs -/

/-- The next call starts with an empty batch. -/
def Restarts (R : List Nat → Depacketizer → Batch → Prop) (b : Batch) : Prop := ∀ ks s, R ks s b → R ks s {}

theorem Guide.run {S : Sending} {ok : Nat → Prop} {R : List Nat → Depacketizer → Batch → Prop} (G : Guide S ok R)
    {old : Bytes × Bytes} (pre es : List Incoming) {acc : List Emission} {s : Depacketizer}
    (hc : S.Carried (pre ++ es)) (hok : ∀ k i t, .packet k i t ∈ pre ++ es → ok k)
    (hrestarts : ∀ b ∈ (DcVideo.run s (es.map S.call)).2, Restarts R b) (h : Guided R S pre old acc s {}) :
    ∃ ks, S.Taken (pre ++ es) old ks (acc ++ emitted (DcVideo.run s (es.map S.call)).2) ∧
      ∃ s', R ks s' {} := by
  induction es generalizing pre acc s with
  | nil =>
    obtain ⟨ks, ht, hr⟩ := h
    exact ⟨ks, by simpa [emitted, DcVideo.run] using ht.taken, s, hr⟩
  | cons x es ih =>
    have hsplit : pre ++ x :: es = (pre ++ [x]) ++ es := by simp
    have hcalled := G.call (e := x) (fun k i t hk => hok k i t (by rw [hsplit]; exact List.mem_append_left _ hk))
      (fun k i now hx => hc.chunk k i now (by rw [hx]; simp))
      (fun a ha => (List.pairwise_append.mp hc.near).2.2 a ha x (List.mem_cons_self ..)) h
    rw [hsplit] at hc hok ⊢
    rw [List.map_cons, DcVideo.run] at hrestarts
    obtain ⟨ks, ht, hr⟩ := hcalled
    have hnext : Guided R S (pre ++ [x]) old (acc ++ (DcVideo.call s (S.call x)).2.frames) (DcVideo.call s (S.call x)).1 {} :=
      ⟨ks, ⟨ht.pending, ht.sets, by simpa using ht.taken⟩, hrestarts _ (List.mem_cons_self ..) _ _ hr⟩
    obtain ⟨ks', htaken, hend⟩ := ih (pre ++ [x]) hc hok (fun b hb => hrestarts b (List.mem_cons_of_mem _ hb)) hnext
    refine ⟨ks', ?_, hend⟩
    simpa [emitted, DcVideo.run, List.append_assoc] using htaken

/-- Nothing is pending at the start. -/
theorem traced_start (S : Sending) {s : Depacketizer} (hs : s.pending.toList = []) :
    Traced S [] (s.sps, s.pps) [] [] s {} :=
  ⟨fun a ha => by simp [hs] at ha, rfl, .nil⟩

def offset (a x : UInt16) : Nat := (x - a).toNat

/-- The numbers taken increase up to the cursor, and so does the cursor. -/
structure Forward (a : UInt16) (seqs : List UInt16) (s : Depacketizer) : Prop where
  pending : ∀ e ∈ s.pending.toList, offset a e.1 < 32768
  cursor : s.initialized = true → offset a s.expected ≤ 32768
  behind : s.initialized = true → ∀ x ∈ seqs, offset a x < offset a s.expected
  unplaced : s.initialized = false → seqs = []
  increasing : seqs.Pairwise fun x y => offset a x < offset a y

section Order
variable {a : UInt16} {seqs : List UInt16} {s : Depacketizer} {b : Batch} {now : Int}

theorem offset_succ {x : UInt16} (h : offset a x < 32768) : offset a (x + 1) = offset a x + 1 := by
  have hone : (1 : UInt16).toNat = 1 := rfl
  have hx := UInt16.toNat_sub x a
  have hnext := UInt16.toNat_sub (x + 1) a
  rw [UInt16.toNat_add, hone] at hnext
  have := x.toNat_lt
  have := a.toNat_lt
  unfold offset at *
  omega

/-- What is ahead of the cursor has a larger offset. -/
theorem offset_le_of_delta {x y : UInt16} (hx : offset a x < 32768) (hy : offset a y ≤ 32768) (h : 0 ≤ delta x y) :
    offset a y ≤ offset a x := by
  have hx' := UInt16.toNat_sub x a
  have hy' := UInt16.toNat_sub y a
  have hd := UInt16.toNat_sub x y
  have := x.toNat_lt
  have := y.toNat_lt
  have := a.toNat_lt
  unfold offset at *
  unfold delta at h
  split at h <;> omega

theorem Forward.pending_sub (h : Forward a seqs s) {s' : Depacketizer}
    (hp : ∀ e ∈ s'.pending.toList, e ∈ s.pending.toList)
    (hi : s'.initialized = s.initialized) (he : s'.expected = s.expected) : Forward a seqs s' where
  pending e hm := h.pending e (hp e hm)
  cursor := by rw [hi, he]; exact h.cursor
  behind := by rw [hi, he]; exact h.behind
  unplaced := by rw [hi]; exact h.unplaced
  increasing := h.increasing

/-- The cursor moves on. -/
theorem Forward.move (h : Forward a seqs s) {s' : Depacketizer} (hi : s.initialized = true)
    (hp : ∀ e ∈ s'.pending.toList, e ∈ s.pending.toList)
    (hi' : s'.initialized = true) (hn : offset a s'.expected ≤ 32768)
    (hle : offset a s.expected ≤ offset a s'.expected) : Forward a seqs s' where
  pending e hm := h.pending e (hp e hm)
  cursor _ := hn
  behind _ := fun x hx => Nat.lt_of_lt_of_le (h.behind hi x hx) hle
  unplaced hno := by
    rw [hi'] at hno
    cases hno
  increasing := h.increasing

theorem Forward.place (h : Forward a seqs s) (hi : s.initialized = false) {e : UInt16 × Frame}
    (he : e ∈ s.pending.toList) : Forward a seqs { s with expected := e.1, initialized := true } where
  pending := h.pending
  cursor _ := Nat.le_of_lt (h.pending e he)
  behind _ := by
    rw [h.unplaced hi]
    simp
  unplaced hno := by cases hno
  increasing := h.increasing

theorem Forward.handOn (h : Forward a seqs s) (hi : s.initialized = true) {f : Frame}
    (at_cursor : s.pending.find? s.expected = some f) : Forward a (seqs ++ [s.expected]) (handOn now s b f).1 := by
  have hoff : offset a s.expected < 32768 := h.pending _ (OrdMap.find?_eq_some.mp at_cursor)
  obtain ⟨hpending, -, hexpected, hinit, -⟩ := handOn_frame now s b f
  have hnext : offset a (DcVideo.handOn now s b f).1.expected = offset a s.expected + 1 := by
    rw [hexpected, offset_succ hoff]
  have hmoved : Forward a seqs (DcVideo.handOn now s b f).1 := by
    refine h.move hi ?_ (hinit.trans hi) (by omega) (by omega)
    intro e he
    rw [hpending] at he
    exact (OrdMap.mem_erase.mp he).1
  refine ⟨hmoved.pending, hmoved.cursor, ?_, ?_, ?_⟩
  · intro hi' x hx
    rcases List.mem_append.mp hx with hx | hx
    · exact hmoved.behind hi' x hx
    · rw [List.mem_singleton.mp hx, hnext]
      exact Nat.lt_succ_self _
  · intro hno
    rw [hinit, hi] at hno
    cases hno
  · rw [List.pairwise_append]
    refine ⟨h.increasing, List.pairwise_singleton _ _, ?_⟩
    intro x hx y hy
    rw [List.mem_singleton.mp hy]
    exact h.behind hi x hx

theorem Forward.giveUp (h : Forward a seqs s) (hi : s.initialized = true) {f : Frame}
    (at_cursor : s.pending.find? s.expected = some f) :
    Forward a seqs (recover now { erase s s.expected f with expected := s.expected + 1 } b).1 := by
  have hbound : offset a s.expected < 32768 := h.pending _ (OrdMap.find?_eq_some.mp at_cursor)
  have hoff := offset_succ hbound
  refine h.move hi ?_ ((recover_initialized ..).trans hi) ?_ ?_
  · intro x hx
    rw [recover_pending] at hx
    exact (OrdMap.mem_erase.mp hx).1
  · rw [recover_expected]
    dsimp only
    omega
  · rw [recover_expected]
    dsimp only
    omega

theorem Forward.jump (h : Forward a seqs s) (hi : s.initialized = true) {e : UInt16 × Frame}
    (pick : nearest s = some e) : Forward a seqs (recover now { s with expected := e.1 } b).1 := by
  have hoff := h.pending e (nearest_some pick)
  refine h.move hi (fun x hx => by simpa using hx) ((recover_initialized ..).trans hi) ?_ ?_
  · rw [recover_expected]
    exact Nat.le_of_lt hoff
  · rw [recover_expected]
    exact offset_le_of_delta hoff (h.cursor hi) (nearest_least pick).1

theorem Forward.insert (h : Forward a seqs s) {p : DcPacket} (hp : offset a p.seq < 32768) (f : Frame) :
    Forward a seqs (stored s p f) where
  pending e he := by
    rcases OrdMap.mem_insert.mp he with rfl | ⟨he, -⟩
    · exact hp
    · exact h.pending e he
  cursor := h.cursor
  behind := h.behind
  unplaced := h.unplaced
  increasing := h.increasing

end Order

/-- The units from `first` on, fewer than half the numbers. -/
def Within (first k : Nat) : Prop := first ≤ k ∧ k < first + 32768

def Incoming.Spans (first : Nat) : Incoming → Prop
  | .packet k _ _ => Within first k
  | .tick _ => True

namespace Sending
variable (S : Sending) {first : Nat}

theorem offset_seq {k : Nat} (h : Within first k) : offset (S.seq first) (S.seq k) = k - first := by
  obtain ⟨hle, hlt⟩ := h
  have h1 := S.seq_toNat k
  have h2 := S.seq_toNat first
  have := (S.seq k).toNat_lt
  have := (S.seq first).toNat_lt
  unfold offset
  rw [UInt16.toNat_sub]
  omega

theorem near_of_spans {es : List Incoming} (h : ∀ e ∈ es, e.Spans first) : es.Pairwise Incoming.Near := by
  refine List.pairwise_iff_forall_sublist.mpr fun {x y} hsub => ?_
  have hx := h x (hsub.subset (by simp))
  have hy := h y (hsub.subset (by simp))
  cases x with
  | tick => trivial
  | packet k i t =>
    cases y with
    | tick => trivial
    | packet k' i' t' =>
      intro _
      unfold Incoming.Spans Within at hx hy
      omega

/-- Until an overflow, the units taken are within the span and in order. -/
def Ordered (first : Nat) (ks : List Nat) (s : Depacketizer) (b : Batch) : Prop :=
  b.overflow = true ∨ (∀ k ∈ ks, Within first k) ∧ Forward (S.seq first) (ks.map S.seq) s

theorem handOn_overflow (now : Int) (s : Depacketizer) (b : Batch) (f : Frame) :
    (handOn now s b f).2.overflow = b.overflow := by
  unfold handOn
  rcases assemble s f with ⟨t, _ | made⟩
  · simp
  · rfl

theorem guide_ordered (first : Nat) : Guide S (Within first) (S.Ordered first) where
  sub {ks s b s' b'} h hp hi he hover := by
    unfold Ordered at *
    rw [hover]
    exact h.imp_right fun ⟨hin, hf⟩ => ⟨hin, hf.pending_sub hp hi he⟩
  place h hi he := h.imp_right fun ⟨hin, hf⟩ => ⟨hin, hf.place hi he⟩
  take {ks s b f k now} h hi at_cursor hseq hk := by
    unfold Ordered at *
    rw [handOn_overflow]
    refine h.imp_right fun ⟨hin, hf⟩ => ⟨?_, ?_⟩
    · intro j hj
      rcases List.mem_append.mp hj with hj | hj
      · exact hin j hj
      · rw [List.mem_singleton.mp hj]
        exact hk
    · rw [List.map_append, List.map_singleton, ← hseq]
      exact hf.handOn hi at_cursor
  giveUp h hi at_cursor := by
    unfold Ordered at *
    rw [recover_overflow]
    exact h.imp_right fun ⟨hin, hf⟩ => ⟨hin, hf.giveUp hi at_cursor⟩
  jump h hi pick := by
    unfold Ordered at *
    rw [recover_overflow]
    exact h.imp_right fun ⟨hin, hf⟩ => ⟨hin, hf.jump hi pick⟩
  insert {ks s b k f p} h hk hp := by
    refine h.imp_right fun ⟨hin, hf⟩ => ⟨hin, hf.insert ?_ f⟩
    rw [hp, S.offset_seq hk]
    obtain ⟨hle, hlt⟩ := hk
    omega
  overflow {ks s b now} _ := by
    left
    rw [overflow_eq, recover_overflow]

end Sending

/-- Keyframes of one packet each, the numbers about to wrap. -/
def keyframes : Sending where
  base := 65535
  unit k := ⟨[0, 0, 1, 0x67, 1, 0, 0, 1, 0x68, 2, 0, 0, 1, 0x65, 3], 33333 * k % 2 ^ 32, true, by decide, by decide,
    by omega⟩

/-- The second unit is late, the first comes again and the third is lost. -/
def lossyEvents : List Incoming := [.packet 0 0 5, .packet 3 0 40, .packet 1 0 90, .packet 0 0 95, .tick 20000]

theorem lossyEvents_chunk : ∀ k i now, .packet k i now ∈ lossyEvents → i < chunkCount (keyframes.unit k).data := by
  intro k i now h
  have hi : i = 0 := by
    simp only [lossyEvents, List.mem_cons, Incoming.packet.injEq, List.not_mem_nil] at h
    grind
  rw [hi]
  exact (show 0 < chunkCount [0, 0, 1, 0x67, 1, 0, 0, 1, 0x68, 2, 0, 0, 1, 0x65, 3] by decide)

end KmVirtualCamera.L2.DcVideo
