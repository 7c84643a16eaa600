import Mathlib
import KmVirtualCamera.L2Machine.RtpStream

/-!
# RTP packets lost, repeated, reordered and damaged

A sender cuts its access units into packets, as it likes, and numbers these
modulo 2^16. The network loses some, delivers others again or late, and puts
datagrams between them that do not parse; no packet is overtaken by 32768 others,
and none arrives 32768 numbers after the newest.

The depacketizer does not reorder. Of an access unit it has every packet up to
now, or it is damaged and nothing of it counts; the next one begins undamaged only
with its first packet. What it cannot know is how the unit began in the middle of
which it started to listen.

* `emits_whole`: what is emitted are access units of the sender's, in order, each
  at most once and each with all its NAL units, but for the first one.
-/
namespace KmVirtualCamera.L2.RtpVideo
open KmVirtualCamera.ByteOrder KmVirtualCamera.L1.RtpWire KmVirtualCamera.L1.RtpPayload
open KmVirtualCamera.L1.H264 (validNalu naluType appendAnnexB annexB annexB_append annexB_nil)

/-! ## What is sent and what arrives -/

structure Sending where
  ssrc : UInt32
  base : Nat
  unit : Nat → AccessUnit
  pieces : ∀ k, ∀ piece ∈ (unit k).pieces, piece.Ok
  fit : ∀ k, ∀ n ∈ (unit k).nalus, Fit n
  size : ∀ k, (annexB (unit k).nalus).length ≤ kMaxAccessUnitBytes

/-- A datagram that arrives: packet `index` of unit `unit`, or one that does not parse. -/
inductive Arrival where
  | packet (unit index : Nat) (bytes : Bytes)
  | garbage (bytes : Bytes)

def Arrival.bytes : Arrival → Bytes
  | .packet _ _ bytes => bytes
  | .garbage bytes => bytes

namespace Sending
variable (S : Sending)

def payloads (k : Nat) : List Bytes := (S.unit k).pieces.flatMap Piece.payloads

/-- The number of the first packet of a unit, before it is cut to 16 bits. -/
def start : Nat → Nat
  | 0 => S.base
  | k + 1 => start k + (S.payloads k).length

def number (k i : Nat) : Nat := S.start k + i

def numbers (es : List Arrival) : List Nat := es.filterMap fun
  | .packet k i _ => some (S.number k i)
  | .garbage _ => none

/-- Not overtaken by 32768 packets, and not 32768 ahead of the newest. -/
def Near (pre : List Arrival) : Arrival → Prop
  | .packet k i _ => (∀ n ∈ S.numbers pre, n < S.number k i + 32768) ∧
      (S.numbers pre = [] ∨ ∃ n ∈ S.numbers pre, S.number k i < n + 32768)
  | .garbage _ => True

/-- The datagram is what it is said to be. -/
def Reads : Arrival → Prop
  | .packet k i b => ∃ x, (S.unit k).contents[i]? = some x ∧ Carries S.ssrc (UInt16.ofNat (S.number k i)) x b
  | .garbage b => parseRtp b = none

/-- What the network may do with the packets of `S`. -/
structure Delivers (es : List Arrival) : Prop where
  reads : ∀ e ∈ es, S.Reads e
  near : EachAfter S.Near es

/-- The first packet that arrived is of unit `k`, and not its first. -/
def Begun (es : List Arrival) (k : Nat) : Prop :=
  ∃ pre i b post, es = pre ++ .packet k i b :: post ∧ S.numbers pre = [] ∧ 0 < i

/-- The NAL units of unit `k`; if it was under way already, the last of them. -/
def Units (es : List Arrival) (k : Nat) (ns : List Bytes) : Prop :=
  ns = (S.unit k).nalus ∨ S.Begun es k ∧ ∃ j, ns = ((S.unit k).pieces.drop j).flatMap Piece.nalus

/-- The emission is unit `k`, with those of its sets before it that an IDR is short of. -/
def Whole (es : List Arrival) (k : Nat) (e : Emission) : Prop :=
  e.timestamp = (S.unit k).timestamp ∧
    ∃ ns, S.Units es k ns ∧ e.data = annexB (prepended e.sps e.pps ns ++ ns)

/-! ## Numbers -/

theorem start_le {k k' : Nat} (h : k < k') : S.start k + (S.payloads k).length ≤ S.start k' := by
  induction k' with
  | zero => omega
  | succ k' ih =>
    change S.start k + _ ≤ S.start k' + _
    rcases Nat.lt_succ_iff_lt_or_eq.mp h with hlt | rfl
    · have := ih hlt
      omega
    · exact Nat.le_refl _

/-- The packet after another one is the next of its unit, or the first of the next. -/
theorem next_number {k i k' i' : Nat} (hi : i < (S.payloads k).length) (hi' : i' < (S.payloads k').length)
    (h : S.number k' i' = S.number k i + 1) :
    k' = k ∧ i' = i + 1 ∨ i + 1 = (S.payloads k).length ∧ k < k' ∧ i' = 0 := by
  unfold number at h
  rcases Nat.lt_trichotomy k k' with hlt | rfl | hlt
  · have := S.start_le hlt
    exact .inr (by omega)
  · exact .inl (by omega)
  · have := S.start_le hlt
    omega

/-- A packet ahead of another one is of its unit or a later one. -/
theorem unit_le {k i k' i' : Nat} (hi' : i' < (S.payloads k').length)
    (h : S.number k i < S.number k' i') : k ≤ k' := by
  unfold number at h
  by_contra hlt
  have := S.start_le (Nat.lt_of_not_le hlt)
  omega

end Sending

/-! ## What the packets of a unit carry -/

theorem contents_get {timestamp : UInt32} : ∀ {ps : List Bytes} {i : Nat} {x : Content},
    (contents timestamp ps)[i]? = some x ↔
      ps[i]? = some x.payload ∧ x.timestamp = timestamp ∧ x.marker = decide (i + 1 = ps.length)
  | [], i, x => by simp [contents]
  | [p], i, x => by
    cases i with
    | zero => cases x; simp [contents]; grind
    | succ i => simp [contents]
  | p :: p' :: ps, i, x => by
    cases i with
    | zero => cases x; simp [contents]; grind
    | succ i =>
      have ih : (contents timestamp (p' :: ps))[i]? = some x ↔ _ := contents_get
      simp [contents, ih]

/-- A fragment that does not begin its unit. -/
def Continues (p : Bytes) : Prop :=
  ∃ header last d, p = fuIndicator header :: fuHeader header false last :: d ∧ d ≠ [] ∧ header &&& 128 = 0 ∧
    (0 < header &&& 31 ∧ header &&& 31 < 24)

theorem fuPayloads_get {header : UInt8} : ∀ {ds : List Bytes} {first : Bool} {i : Nat} {p : Bytes},
    (fuPayloads header first ds)[i]? = some p → (i = 0 → first = false) →
    ∃ last d, p = fuIndicator header :: fuHeader header false last :: d ∧ d ∈ ds
  | [], _, _, _, h, _ => by simp [fuPayloads] at h
  | [d], first, i, p, h, h0 => by
    cases i with
    | zero =>
      simp [fuPayloads, h0 rfl] at h
      exact ⟨true, d, h.symm, by simp⟩
    | succ i => simp [fuPayloads] at h
  | d :: e :: ds, first, i, p, h, h0 => by
    cases i with
    | zero =>
      simp [fuPayloads, h0 rfl] at h
      exact ⟨false, d, h.symm, by simp⟩
    | succ i =>
      simp only [fuPayloads, List.getElem?_cons_succ] at h
      obtain ⟨last, d', hp, hd⟩ := fuPayloads_get h fun _ => rfl
      exact ⟨last, d', hp, List.mem_cons_of_mem _ hd⟩

/-- From any packet on, there are the last pieces of the unit, or the rest of
one that began before. -/
theorem drop_payloads : ∀ {pieces : List Piece} {i : Nat} {p : Bytes}, (∀ piece ∈ pieces, piece.Ok) →
    (∀ n ∈ pieces.flatMap Piece.nalus, Fit n) → (pieces.flatMap Piece.payloads)[i]? = some p →
    (∃ j, (pieces.flatMap Piece.payloads).drop i = (pieces.drop j).flatMap Piece.payloads) ∨ Continues p
  | [], _, _, _, _, h => by simp at h
  | piece :: pieces, i, p, hok, hfit, h => by
    rw [List.flatMap_cons] at h hfit ⊢
    rcases Nat.lt_or_ge i piece.payloads.length with hlt | hge
    · rcases Nat.eq_zero_or_pos i with rfl | hpos
      · exact .inl ⟨0, by simp⟩
      · rw [List.getElem?_append_left hlt] at h
        cases piece with
        | single n => simp only [Piece.payloads, List.length_singleton] at hlt; omega
        | stapA indicator ns => simp only [Piece.payloads, List.length_singleton] at hlt; omega
        | fuA header fragments =>
          obtain ⟨last, d, hp, hd⟩ := fuPayloads_get h (fun hzero => absurd hzero (by omega))
          have hn := hfit (header :: fragments.flatten) (by simp [Piece.nalus])
          obtain ⟨hbit, hlo, hhi⟩ := validNalu_type hn.valid
          refine .inr ⟨header, last, d, hp, (hok _ (List.mem_cons_self ..)).2 d hd, hbit, ?_⟩
          rw [UInt8.le_iff_toNat_le] at hlo hhi
          rw [UInt8.lt_iff_toNat_lt, UInt8.lt_iff_toNat_lt]
          exact ⟨hlo, Nat.lt_succ_of_le hhi⟩
    · rw [List.getElem?_append_right hge] at h
      rcases drop_payloads (fun x hx => hok x (List.mem_cons_of_mem _ hx))
        (fun n hn => hfit n (List.mem_append_right _ hn)) h with ⟨j, hj⟩ | hc
      · refine .inl ⟨j + 1, ?_⟩
        rw [List.drop_append, List.drop_eq_nil_of_le hge, List.nil_append, List.drop_succ_cons, hj]
      · exact .inr hc

section Payload
variable {c : Bytes × Bytes} {w : Bool} {t : Option UInt32} {ns : List Bytes} {s : Depacketizer}

/-- The rest of a unit whose beginning did not arrive is refused. -/
theorem refused {p : Bytes} (hp : Continues p) :
    p.headD 0 &&& 128 = 0 ∧ ∀ (s : Depacketizer) l, s.fu = [] → payload s l p = ((s, l), false) := by
  obtain ⟨header, last, d, rfl, hd, hbit, hbits⟩ := hp
  refine ⟨(fu_bits header hbits.1 hbits.2 false last (by simp)).2.1.trans hbit, fun s l hfu => ?_⟩
  rw [fuA_fragment hbits (by simp) hd, if_neg Bool.false_ne_true, if_pos (.inl hfu)]

/-- The marker ends the unit: it is emitted, or not. -/
theorem finish_gathered {timestamp : UInt32} (h : Gathered c w (some timestamp) ns [] s) (l : Log) :
    (∃ d w', Gathered d w' none [] [] (finish (s, l) true).1) ∧ units (finish (s, l) true).2 = units l ∧
      (emissions (finish (s, l) true).2 = emissions l ∨ ∃ e, emissions (finish (s, l) true).2 = emissions l ++ [e] ∧
        e.timestamp = timestamp ∧ e.data = annexB (prepended e.sps e.pps ns ++ ns)) := by
  have hhead : (missing s).foldl appendAnnexB [] = annexB (prepended s.sps s.pps ns) := by
    rw [L1.H264.foldl_appendAnnexB, prepended_eq h, List.nil_append]
  have hclock : s.timestamp = timestamp := by
    have hclock := h.clock
    unfold Depacketizer.clock at hclock
    split at hclock
    · exact Option.some.inj hclock
    · cases hclock
  have hclear : ∀ (s : Depacketizer) (w : Bool), ∃ d w', Gathered d w' none [] []
      ({ clearAu { s with waiting := w } with haveTimestamp := false } : Depacketizer) := fun s w =>
    ⟨(s.sps, s.pps), w, rfl, rfl, fun hne => absurd rfl hne, rfl, rfl, rfl, rfl, rfl, rfl, rfl, rfl⟩
  have hnone : ∀ w : Bool, units (l ++ if w then [.keyframe] else []) = units l ∧
      emissions (l ++ if w then [.keyframe] else []) = emissions l := by
    intro w
    cases w <;> simp [units, emissions]
  unfold finish emit
  simp only [if_true, hhead]
  split
  · split
    · exact ⟨hclear s true, (hnone true).1, .inl (hnone true).2⟩
    · split
      · refine ⟨hclear s _, units_snoc rfl l, .inr ⟨_, emissions_append l [_], hclock, ?_⟩⟩
        rw [h.au, annexB_append]
      · exact ⟨hclear s _, (hnone _).1, .inl (hnone _).2⟩
  · exact ⟨hclear s _, (hnone _).1, .inl (hnone _).2⟩

end Payload

/-! ## What a packet does -/

/-- What the log says of emissions and units. -/
def said (l : Log) : List Emission × List Bytes := (emissions l, units l)

theorem said_snoc {x : Event} (hx : said [x] = ([], [])) (l : Log) : said (l ++ [x]) = said l := by
  injection hx with hemissions hunits
  unfold said
  rw [emissions_snoc hemissions, units_snoc hunits]

/-- After the packet `x` of a unit of which nothing will come out. -/
structure Dropped (x : Content) (l : Log) (c' : Depacketizer × Log) : Prop where
  said : said c'.2 = said l
  ended : x.marker = true → ∃ d w, Gathered d w none [] [] c'.1
  damaged : x.marker = false → c'.1.damaged = true ∧ c'.1.clock = some x.timestamp

section Packet
variable {s : Depacketizer} {l : Log} {x : Content} {b : Bytes} {ssrc : UInt32} {q : UInt16}

theorem emit_damaged (h : s.damaged = true) (l : Log) : said (emit s l).2 = said l := by
  have hbad : ¬ good s := fun hg => by
    rw [hg.1] at h
    cases h
  unfold emit
  simp only [if_neg hbad]
  split
  · exact said_snoc rfl l
  · rw [List.append_nil]

theorem said_lose (s : Depacketizer) (l : Log) : said (lose s l).2 = said l := said_snoc rfl l

/-- A damaged unit. -/
theorem dropped_take {p : RtpPacket} {c : Depacketizer × Log} (h : c.1.damaged = true)
    (hclock : c.1.clock = some p.timestamp) {l : Log} (hl : said c.2 = said l) (htime : p.timestamp = x.timestamp)
    (hmarker : p.marker = x.marker) : Dropped x l (take p c) := by
  unfold take
  rw [if_pos h]
  split
  · rename_i hm
    refine ⟨hl, fun _ => ⟨(c.1.sps, c.1.pps), c.1.waiting, ?_⟩, ?_⟩
    · exact ⟨rfl, rfl, fun hne => absurd rfl hne, rfl, rfl, rfl, rfl, rfl, rfl, rfl, rfl⟩
    · intro hno
      rw [← hmarker, hm] at hno
      cases hno
  · rename_i hm
    refine ⟨hl, ?_, fun _ => ⟨h, htime ▸ hclock⟩⟩
    intro hyes
    rw [← hmarker] at hyes
    exact absurd hyes hm

/-- A packet ahead of the next one. -/
theorem dropped_gap {p : RtpPacket} (s : Depacketizer) (l : Log) (htime : p.timestamp = x.timestamp)
    (hmarker : p.marker = x.marker) : Dropped x l (accept s l p true) := by
  rw [accept_eq]
  refine dropped_take rfl rfl ?_ htime hmarker
  change said ((boundary _ l p true).2 ++ [.accepted p.sequence] ++ [.keyframe]) = said l
  have hboundary : ∀ s : Depacketizer, said (boundary s l p true).2 = said l := fun s => by
    unfold boundary
    split
    · simp only [true_or, if_true]
      rw [emit_damaged rfl, said_lose]
    · rfl
  rw [said_snoc rfl, said_snoc rfl, hboundary]

/-- The next packet of a damaged unit. -/
theorem dropped_next {p : RtpPacket} (h : s.damaged = true)
    (hclock : s.clock = none ∨ s.clock = some p.timestamp) (l : Log) (htime : p.timestamp = x.timestamp)
    (hmarker : p.marker = x.marker) : Dropped x l (accept s l p false) := by
  have hsame : ¬ (s.haveTimestamp = true ∧ p.timestamp ≠ s.timestamp) := fun ⟨hhave, hne⟩ => by
    unfold Depacketizer.clock at hclock
    rw [if_pos hhave] at hclock
    rcases hclock with hclock | hclock
    · cases hclock
    · exact hne (Option.some.inj hclock).symm
  rw [accept_eq]
  unfold boundary
  rw [if_neg hsame]
  exact dropped_take h rfl (said_snoc rfl l) htime hmarker

/-- The unit is under way already. -/
theorem dropped_refused {p : RtpPacket} (hp : Continues p.payload) (h : s.damaged = false) (hfu : s.fu = [])
    (hclock : s.clock = none) (l : Log) (htime : p.timestamp = x.timestamp) (hmarker : p.marker = x.marker) :
    Dropped x l (accept s l p false) := by
  obtain ⟨hbit, hpay⟩ := refused hp
  have hrefused : ∀ l, payload { s with sequence := p.sequence, haveSequence := true, timestamp := p.timestamp, haveTimestamp := true } l p.payload = ((_, l), false) :=
    fun l => hpay _ l hfu
  have hsame : ¬ (s.haveTimestamp = true ∧ p.timestamp ≠ s.timestamp) := fun ⟨hhave, hne⟩ => by
    unfold Depacketizer.clock at hclock
    rw [if_pos hhave] at hclock
    cases hclock
  have hclean : ¬ s.damaged = true := by rw [h]; exact Bool.false_ne_true
  rw [accept_eq]
  unfold boundary lost stamp take
  rw [if_neg hsame]
  dsimp only
  rw [if_neg Bool.false_ne_true]
  dsimp only
  rw [if_neg hclean, consume_eq, if_neg (not_not.mpr hbit), hrefused]
  unfold settle finish
  rw [if_neg Bool.false_ne_true]
  dsimp only
  split
  · rename_i hm
    refine ⟨?_, ?_, ?_⟩
    · dsimp only
      rw [emit_damaged rfl, said_lose, said_snoc rfl, said_snoc rfl]
    · intro _
      unfold emit
      rw [if_neg (fun hgood => absurd hgood.1 (by simp [lose]))]
      exact ⟨_, _, rfl, rfl, fun hne => absurd rfl hne, rfl, rfl, rfl, rfl, rfl, rfl, rfl, rfl⟩
    · intro hno
      rw [← hmarker, hm] at hno
      cases hno
  · rename_i hm
    refine ⟨?_, ?_, fun _ => ⟨rfl, congrArg some htime⟩⟩
    · rw [said_lose, said_snoc rfl, said_snoc rfl]
    · intro hyes
      rw [← hmarker] at hyes
      exact absurd hyes hm

end Packet

/-! ## Runs -/

/-- Between the packets of a unit, or after its last. -/
inductive Sending.Mode (S : Sending) (es : List Arrival) (k i : Nat) (s : Depacketizer) : Prop
  | damaged (lost : s.damaged = true)
      (clock : s.clock = if i + 1 = (S.payloads k).length then none else some (S.unit k).timestamp)
  | between (last : i + 1 = (S.payloads k).length) {c : Bytes × Bytes} {w : Bool} (h : Gathered c w none [] [] s)
  | within (more : i + 1 < (S.payloads k).length) {c : Bytes × Bytes} {w : Bool} {ns : List Bytes} {fu : Bytes}
      {final : List Bytes} (h : Gathered c w (some (S.unit k).timestamp) ns fu s)
      (feeds : FeedsAll c w (some (S.unit k).timestamp) ns fu ((S.payloads k).drop (i + 1)) final [])
      (units : S.Units es k final)

/-- The units that came out, all of them before unit `bound`. -/
structure Sending.Out (S : Sending) (es : List Arrival) (l : Log) (bound : Nat) (ks : List Nat) : Prop where
  sorted : ks.Pairwise (· < ·)
  whole : List.Forall₂ (S.Whole es) ks (emissions l)
  lt : ∀ k ∈ ks, k < bound
  sent : ∀ n ∈ units l, ∃ k, n ∈ (S.unit k).nalus

inductive Sending.Kept (S : Sending) (es : List Arrival) (c : Depacketizer × Log) : Prop
  | silent (nothing : S.numbers es = []) (link : c.1.haveSsrc = false ∧ c.1.haveSequence = false)
      (out : said c.2 = ([], []))
      (mode : c.1.damaged = true ∧ c.1.clock = none ∨ ∃ d w, Gathered d w none [] [] c.1)
  | heard (k i : Nat) (inside : i < (S.payloads k).length) (mem : S.number k i ∈ S.numbers es)
      (newest : ∀ n ∈ S.numbers es, n ≤ S.number k i)
      (link : c.1.link = ⟨true, S.ssrc, true, UInt16.ofNat (S.number k i)⟩) (mode : S.Mode es k i c.1)
      (ks : List Nat) (out : S.Out es c.2 (if i + 1 = (S.payloads k).length then k + 1 else k) ks)

section Run
variable {S : Sending} {es : List Arrival} {c : Depacketizer × Log}

theorem Sending.Units.mono {k : Nat} {ns : List Bytes} (h : S.Units es k ns) (e : Arrival) :
    S.Units (es ++ [e]) k ns := by
  refine h.imp_right fun ⟨⟨pre, i, b, post, hes, hrest⟩, hj⟩ => ⟨⟨pre, i, b, post ++ [e], ?_, hrest⟩, hj⟩
  rw [hes]
  simp

theorem Sending.Units.sent {k : Nat} {ns : List Bytes} (h : S.Units es k ns) : ∀ n ∈ ns, n ∈ (S.unit k).nalus := by
  rcases h with rfl | ⟨-, j, rfl⟩
  · exact fun n hn => hn
  · intro n hn
    obtain ⟨piece, hpiece, hmem⟩ := List.mem_flatMap.mp hn
    exact List.mem_flatMap.mpr ⟨piece, List.mem_of_mem_drop hpiece, hmem⟩

theorem Sending.Whole.mono {k : Nat} {o : Emission} (h : S.Whole es k o) (e : Arrival) :
    S.Whole (es ++ [e]) k o :=
  ⟨h.1, h.2.imp fun _ ⟨hu, ho⟩ => ⟨hu.mono e, ho⟩⟩

theorem Sending.Mode.mono {k i : Nat} {s : Depacketizer} (h : S.Mode es k i s) (e : Arrival) :
    S.Mode (es ++ [e]) k i s := by
  cases h with
  | damaged lost clock => exact .damaged lost clock
  | between last h => exact .between last h
  | within more h feeds units => exact .within more h feeds (units.mono e)

theorem Sending.Out.mono {l l' : Log} {bound bound' : Nat} {ks : List Nat} (h : S.Out es l bound ks) (e : Arrival)
    (hl : emissions l' = emissions l) (hunits : ∀ n ∈ units l', ∃ k, n ∈ (S.unit k).nalus) (hbound : bound ≤ bound') :
    S.Out (es ++ [e]) l' bound' ks where
  sorted := h.sorted
  whole := by
    rw [hl]
    exact h.whole.imp fun _ _ hw => hw.mono e
  lt k hk := Nat.lt_of_lt_of_le (h.lt k hk) hbound
  sent := hunits

theorem Sending.Out.snoc {l l' : Log} {k : Nat} {ks : List Nat} (h : S.Out es l k ks) (e : Arrival)
    {o : Emission} (ho : S.Whole (es ++ [e]) k o) (hl : emissions l' = emissions l ++ [o])
    (hunits : ∀ n ∈ units l', ∃ k, n ∈ (S.unit k).nalus) : S.Out (es ++ [e]) l' (k + 1) (ks ++ [k]) where
  sorted := List.pairwise_append.mpr ⟨h.sorted, List.pairwise_singleton _ _, fun a ha b hb => by
    rw [List.mem_singleton.mp hb]
    exact h.lt a ha⟩
  whole := by
    rw [hl]
    exact List.rel_append (h.whole.imp fun _ _ hw => hw.mono e) (.cons ho .nil)
  lt a ha := by
    rcases List.mem_append.mp ha with ha | ha
    · exact Nat.lt_succ_of_lt (h.lt a ha)
    · rw [List.mem_singleton.mp ha]
      exact Nat.lt_succ_self k
  sent := hunits

/-- What holds after packet `i` of unit `k` was taken, when before it only
units before `k` had come out. -/
structure Sending.Took (S : Sending) (es : List Arrival) (k i : Nat) (l : Log) (c : Depacketizer × Log) : Prop where
  mode : S.Mode es k i c.1
  out : emissions c.2 = emissions l ∨ i + 1 = (S.payloads k).length ∧ ∃ o, S.Whole es k o ∧
    emissions c.2 = emissions l ++ [o]
  added : ∀ n ∈ units c.2, n ∈ units l ∨ n ∈ (S.unit k).nalus

theorem Dropped.took {k i : Nat} {x : Content} {l : Log} (h : Dropped x l c)
    (hx : (S.unit k).contents[i]? = some x) : S.Took es k i l c := by
  obtain ⟨-, htime, hmarker⟩ := contents_get.mp hx
  have hsaid := h.said
  injection hsaid with hemissions hunits
  refine ⟨?_, .inl hemissions, fun n hn => .inl (hunits ▸ hn)⟩
  by_cases hlast : i + 1 = (S.payloads k).length
  · obtain ⟨d, w, hd⟩ := h.ended (hmarker.trans (decide_eq_true hlast))
    exact .between hlast hd
  · obtain ⟨hlost, hclock⟩ := h.damaged (hmarker.trans (decide_eq_false hlast))
    exact .damaged hlost (by rw [if_neg hlast, hclock, htime])

/-- What is fed stays. -/
theorem FeedsAll.begins {cs : Bytes × Bytes} {w : Bool} {t : Option UInt32} {ns final : List Bytes} {fu fu' : Bytes}
    {ps : List Bytes} (h : FeedsAll cs w t ns fu ps final fu') :
    ∀ {s : Depacketizer}, Gathered cs w t ns fu s → ns <+: final := by
  induction h with
  | nil => exact fun _ => List.prefix_refl _
  | cons hp _ ih =>
    intro s hs
    obtain ⟨s', -, -, h', new, rfl, -⟩ := hp.2 s [] hs
    exact (List.prefix_append _ _).trans (ih h')

/-- The packet is the next of the access unit that is put together. -/
theorem took_fed {k i : Nat} {x : Content} {b : Bytes} (hx : (S.unit k).contents[i]? = some x)
    (hb : Carries S.ssrc (UInt16.ofNat (S.number k i)) x b) {cs : Bytes × Bytes} {w : Bool} {t : Option UInt32}
    {ns final : List Bytes} {fu : Bytes} (ht : t = none ∨ t = some (S.unit k).timestamp)
    (h : Gathered cs w t ns fu c.1) (ha : Awaits S.ssrc (UInt16.ofNat (S.number k i)) c.1)
    (hfeeds : FeedsAll cs w (some (S.unit k).timestamp) ns fu ((S.payloads k).drop i) final [])
    (hunits : S.Units es k final) : S.Took es k i c.2 (processRtpPacket c.1 c.2 b) := by
  obtain ⟨hpayload, htime, hmarker⟩ := contents_get.mp hx
  have hi : i < (S.payloads k).length := (List.getElem?_eq_some_iff.mp hpayload).1
  have hdrop : (S.payloads k).drop i = x.payload :: (S.payloads k).drop (i + 1) := by
    rw [List.drop_eq_getElem_cons hi]
    exact congrArg (· :: _) (List.getElem?_eq_some_iff.mp hpayload).2
  rw [hdrop] at hfeeds
  cases hfeeds with
  | cons hp hrest =>
    rw [← htime] at hp
    obtain ⟨s', l', hrun, h', -, new, hnew, hl⟩ := process_packet hb hp c.2 (htime ▸ ht) h ha
    rw [hrun]
    rw [htime] at h'
    have hemissions : emissions l' = emissions c.2 := by
      rw [hl, emissions_append, emissions_nals, List.append_nil, emissions_snoc rfl]
    have hadded : ∀ n ∈ units l', n ∈ units c.2 ∨ n ∈ (S.unit k).nalus := by
      have hsplit : units l' = units c.2 ++ new := by
        rw [hl, units_append, units_nals, units_snoc rfl]
      rw [hsplit]
      intro n hn
      rcases List.mem_append.mp hn with hn | hn
      · exact .inl hn
      · refine .inr (hunits.sent n ((hrest.begins h').subset ?_))
        rw [hnew]
        exact List.mem_append_right _ hn
    by_cases hlast : i + 1 = (S.payloads k).length
    · rw [List.drop_eq_nil_of_le (Nat.le_of_eq hlast.symm)] at hrest
      cases hrest
      rw [hmarker.trans (decide_eq_true hlast)]
      obtain ⟨⟨d, w', hd⟩, hsame, hout⟩ := finish_gathered h' l'
      refine ⟨.between hlast hd, ?_, fun n hn => hadded n (hsame ▸ hn)⟩
      rw [hemissions] at hout
      exact hout.imp_right fun ⟨e, he, htimestamp, hdata⟩ => ⟨hlast, e, ⟨htimestamp, final, hunits, hdata⟩, he⟩
    · rw [hmarker.trans (decide_eq_false hlast)]
      exact ⟨.within (by omega) h' hrest hunits, .inl hemissions, hadded⟩

/-- The whole unit is still to come. -/
theorem feeds_unit (S : Sending) (cs : Bytes × Bytes) (w : Bool) (k : Nat) :
    FeedsAll cs w (some (S.unit k).timestamp) [] [] ((S.payloads k).drop 0) (S.unit k).nalus [] :=
  feeds_pieces (S.unit k).pieces (S.pieces k) (S.fit k) (S.size k)

theorem feeds_suffix (S : Sending) (cs : Bytes × Bytes) (w : Bool) (k j : Nat) :
    FeedsAll cs w (some (S.unit k).timestamp) [] [] (((S.unit k).pieces.drop j).flatMap Piece.payloads)
      (((S.unit k).pieces.drop j).flatMap Piece.nalus) [] := by
  have hsplit : (S.unit k).nalus = ((S.unit k).pieces.take j).flatMap Piece.nalus ++
      ((S.unit k).pieces.drop j).flatMap Piece.nalus := by
    rw [← List.flatMap_append, List.take_append_drop]
    rfl
  have hsize := S.size k
  rw [hsplit, annexB_append, List.length_append] at hsize
  refine feeds_pieces _ (fun piece hp => S.pieces k piece (List.mem_of_mem_drop hp)) ?_ ?_
  · intro n hn
    exact S.fit k n (by rw [hsplit]; exact List.mem_append_right _ hn)
  · rw [List.nil_append]
    omega

theorem process_gap {p : RtpPacket} {b : Bytes} (hp : parseRtp b = some p) (s : Depacketizer) (l : Log)
    (hsrc : s.haveSsrc = true → s.ssrc = p.ssrc) (hseq : s.haveSequence = true)
    (hahead : 1 < sequenceDelta p.sequence s.sequence) :
    processRtpPacket s l b = accept { s with haveSsrc := true, ssrc := p.ssrc } l p true := by
  have hsame : ¬ (s.haveSsrc = true ∧ p.ssrc ≠ s.ssrc) := fun h => h.2 (hsrc h.1).symm
  have hpos : ¬ sequenceDelta p.sequence s.sequence ≤ 0 := by omega
  have hone : sequenceDelta p.sequence s.sequence ≠ 1 := by omega
  unfold processRtpPacket
  rw [hp]
  simp only [if_neg hsame, if_pos hseq, if_neg hpos, decide_eq_true hone]

theorem delta_ahead {n n' : Nat} (h : n < n') (hnear : n' < n + 32768) :
    sequenceDelta (UInt16.ofNat n') (UInt16.ofNat n) = (n' - n : Nat) := by
  unfold sequenceDelta
  have hsub := UInt16.toNat_sub (UInt16.ofNat n') (UInt16.ofNat n)
  rw [UInt16.toNat_ofNat', UInt16.toNat_ofNat'] at hsub
  split <;> omega

theorem delta_behind {n n' : Nat} (h : n' ≤ n) (hnear : n < n' + 32768) :
    sequenceDelta (UInt16.ofNat n') (UInt16.ofNat n) ≤ 0 := by
  refine sequenceDelta_behind ?_
  rw [UInt16.toNat_sub, UInt16.toNat_ofNat', UInt16.toNat_ofNat']
  omega

section Packet
variable {k i : Nat} {b : Bytes} {x : Content}

/-- The first packet that arrives. -/
theorem took_first (hnone : S.numbers es = []) (hlink : c.1.haveSsrc = false ∧ c.1.haveSequence = false)
    (hmode : c.1.damaged = true ∧ c.1.clock = none ∨ ∃ d w, Gathered d w none [] [] c.1)
    (hx : (S.unit k).contents[i]? = some x) (hb : Carries S.ssrc (UInt16.ofNat (S.number k i)) x b) :
    S.Took (es ++ [.packet k i b]) k i c.2 (processRtpPacket c.1 c.2 b) := by
  have ha : Awaits S.ssrc (UInt16.ofNat (S.number k i)) c.1 :=
    ⟨fun h => by simp [hlink.1] at h, fun h => by simp [hlink.2] at h⟩
  obtain ⟨p, hp, hssrc, hseq, hpayload, htime, hmarker⟩ := id hb
  have hnext := processRtpPacket_next c.2 hp (fun hs => (ha.source hs).trans hssrc.symm)
    fun hs => hseq.trans (ha.next hs)
  rcases hmode with ⟨hlost, hclock⟩ | ⟨d, w, hd⟩
  · rw [hnext]
    exact (dropped_next (s := { c.1 with haveSsrc := true, ssrc := p.ssrc }) hlost (.inl hclock) c.2 htime
      hmarker).took hx
  · rcases Nat.eq_zero_or_pos i with rfl | hpos
    · exact took_fed hx hb (.inl rfl) hd ha (feeds_unit S d w k) (.inl rfl)
    · have hbegun : S.Begun (es ++ [.packet k i b]) k := ⟨es, i, b, [], rfl, hnone, hpos⟩
      rcases drop_payloads (S.pieces k) (S.fit k) (contents_get.mp hx).1 with ⟨j, hj⟩ | hrest
      · refine took_fed hx hb (.inl rfl) hd ha ?_ (.inr ⟨hbegun, j, rfl⟩)
        rw [Sending.payloads, hj]
        exact feeds_suffix S d w k j
      · rw [← hpayload] at hrest
        rw [hnext]
        exact (dropped_refused (s := { c.1 with haveSsrc := true, ssrc := p.ssrc }) hrest hd.damaged hd.fu_eq
          hd.clock c.2 htime hmarker).took hx

/-- The packet after the newest. -/
theorem took_next {k' i' : Nat} (hlink : c.1.link = ⟨true, S.ssrc, true, UInt16.ofNat (S.number k' i')⟩)
    (hmode : S.Mode es k' i' c.1) (hx : (S.unit k).contents[i]? = some x)
    (hb : Carries S.ssrc (UInt16.ofNat (S.number k i)) x b) (hseq : S.number k i = S.number k' i' + 1)
    (hpos : k = k' ∧ i = i' + 1 ∨ i' + 1 = (S.payloads k').length ∧ k' < k ∧ i = 0) :
    S.Took (es ++ [.packet k i b]) k i c.2 (processRtpPacket c.1 c.2 b) := by
  have ha : Awaits S.ssrc (UInt16.ofNat (S.number k i)) c.1 := by
    rw [hseq, UInt16.ofNat_add]
    exact awaits_of_link hlink
  obtain ⟨hpayload, -, -⟩ := contents_get.mp hx
  have hi : i < (S.payloads k).length := (List.getElem?_eq_some_iff.mp hpayload).1
  cases hmode with
  | damaged hlost hclock =>
    obtain ⟨p, hp, hssrc, hpseq, -, htime, hmarker⟩ := id hb
    rw [processRtpPacket_next c.2 hp (fun hs => (ha.source hs).trans hssrc.symm)
      fun hs => hpseq.trans (ha.next hs)]
    refine (dropped_next (s := { c.1 with haveSsrc := true, ssrc := p.ssrc }) hlost ?_ c.2 htime hmarker).took hx
    change c.1.clock = none ∨ c.1.clock = some p.timestamp
    rw [htime, (contents_get.mp hx).2.1, hclock]
    rcases hpos with ⟨rfl, rfl⟩ | ⟨hlast, -, -⟩
    · rw [if_neg (by omega)]
      exact .inr rfl
    · rw [if_pos hlast]
      exact .inl rfl
  | between last h =>
    rcases hpos with ⟨rfl, rfl⟩ | ⟨-, -, rfl⟩
    · omega
    · exact took_fed hx hb (.inl rfl) h ha (feeds_unit S _ _ k) (.inl rfl)
  | within more h feeds units =>
    rcases hpos with ⟨rfl, rfl⟩ | ⟨hlast, -, -⟩
    · exact took_fed hx hb (.inr rfl) h ha feeds (units.mono _)
    · omega

/-- **What an arrival does**, whatever came before. -/
theorem Sending.Kept.packet (h : S.Kept es c) (hx : (S.unit k).contents[i]? = some x)
    (hb : Carries S.ssrc (UInt16.ofNat (S.number k i)) x b) (hnear : S.Near es (.packet k i b)) :
    S.Kept (es ++ [.packet k i b]) (processRtpPacket c.1 c.2 b) := by
  obtain ⟨hpayload, -, -⟩ := contents_get.mp hx
  have hi : i < (S.payloads k).length := (List.getElem?_eq_some_iff.mp hpayload).1
  have hnumbers : S.numbers (es ++ [.packet k i b]) = S.numbers es ++ [S.number k i] := by simp [Sending.numbers]
  obtain ⟨p, hp, hssrc, hseq, -, htime, hmarker⟩ := id hb
  -- Once it is taken it is the newest, and nothing of its unit is out.
  have htaken : ∀ ks, (∀ n ∈ S.numbers es, n < S.number k i) → S.Out es c.2 k ks →
      S.Took (es ++ [.packet k i b]) k i c.2 (processRtpPacket c.1 c.2 b) →
      (processRtpPacket c.1 c.2 b).1.link = ⟨true, S.ssrc, true, UInt16.ofNat (S.number k i)⟩ →
      S.Kept (es ++ [.packet k i b]) (processRtpPacket c.1 c.2 b) := by
    intro ks hnewest hout htook hlink
    have hmem : S.number k i ∈ S.numbers (es ++ [.packet k i b]) := by simp [hnumbers]
    have hle : ∀ n ∈ S.numbers (es ++ [.packet k i b]), n ≤ S.number k i := fun n hn => by
      rw [hnumbers] at hn
      rcases List.mem_append.mp hn with hn | hn
      · exact Nat.le_of_lt (hnewest n hn)
      · exact Nat.le_of_eq (List.mem_singleton.mp hn)
    have hunits : ∀ n ∈ units (processRtpPacket c.1 c.2 b).2, ∃ k, n ∈ (S.unit k).nalus := by
      intro n hn
      rcases htook.added n hn with hn | hn
      · exact hout.sent n hn
      · exact ⟨k, hn⟩
    rcases htook.out with hsame | ⟨hlast, o, ho, hadd⟩
    · refine .heard k i hi hmem hle hlink htook.mode ks (hout.mono _ hsame hunits ?_)
      split <;> omega
    · refine .heard k i hi hmem hle hlink htook.mode (ks ++ [k]) ?_
      rw [if_pos hlast]
      exact hout.snoc _ ho hadd hunits
  cases h with
  | silent nothing link out mode =>
    injection out with hemissions hunits
    refine htaken [] (by simp [nothing]) ⟨.nil, by rw [hemissions]; exact .nil, nofun, by rw [hunits]; exact nofun⟩
      (took_first nothing link mode hx hb) ?_
    rw [processRtpPacket_link c.2 hp (fun hs => by simp [link.1] at hs) (fun hs => by simp [link.2] at hs), hssrc, hseq]
  | heard k' i' inside mem newest link mode ks out =>
    have hlink := link
    injection hlink with hhave hsource hhave' hsequence
    obtain ⟨hback, hfar⟩ := hnear
    rcases Nat.lt_or_ge (S.number k' i') (S.number k i) with hlt | hge
    · have hnewest : ∀ n ∈ S.numbers es, n < S.number k i := fun n hn => Nat.lt_of_le_of_lt (newest n hn) hlt
      have hahead : S.number k i < S.number k' i' + 32768 := by
        rcases hfar with hnone | ⟨n, hn, hfar⟩
        · rw [hnone] at mem
          cases mem
        · have := newest n hn
          omega
      have hdelta : sequenceDelta p.sequence c.1.sequence = (S.number k i - S.number k' i' : Nat) := by
        rw [hseq, hsequence]
        exact delta_ahead hlt hahead
      have hout : S.Out es c.2 k ks := by
        refine ⟨out.sorted, out.whole, fun a ha => Nat.lt_of_lt_of_le (out.lt a ha) ?_, out.sent⟩
        have hle := S.unit_le hi hlt
        split
        · rename_i hlast
          by_contra hk
          obtain rfl : k = k' := by omega
          unfold Sending.number at hlt
          omega
        · exact hle
      rcases Nat.lt_or_ge (S.number k' i' + 1) (S.number k i) with hgap | hnext
      · have hrun := process_gap hp c.1 c.2 (fun _ => hsource.trans hssrc.symm) hhave' (by rw [hdelta]; omega)
        refine htaken ks hnewest hout ?_ ?_
        · rw [hrun]
          exact (dropped_gap _ _ htime hmarker).took hx
        · rw [hrun, accept_link, hseq, hssrc]
      · have hone : S.number k i = S.number k' i' + 1 := by omega
        have hpos := S.next_number inside hi hone
        refine htaken ks hnewest hout (took_next link mode hx hb hone hpos) ?_
        rw [processRtpPacket_link c.2 hp (fun _ => hsource.trans hssrc.symm) (fun _ => ?_), hssrc, hseq]
        rw [hseq, hone, UInt16.ofNat_add, hsequence]
        rfl
    · have hstale := processRtpPacket_stale c.2 hp hhave (hssrc.trans hsource.symm) hhave'
        (by rw [hseq, hsequence]; exact delta_behind hge (hback _ mem))
      rw [hstale]
      refine .heard k' i' inside ?_ ?_ link (mode.mono _) ks (out.mono _ rfl out.sent (Nat.le_refl _))
      · rw [hnumbers]
        exact List.mem_append_left _ mem
      · intro n hn
        rw [hnumbers] at hn
        rcases List.mem_append.mp hn with hn | hn
        · exact newest n hn
        · rw [List.mem_singleton.mp hn]
          exact hge

theorem Sending.Kept.garbage (h : S.Kept es c) (hb : parseRtp b = none) :
    S.Kept (es ++ [.garbage b]) (processRtpPacket c.1 c.2 b) := by
  have hrun : processRtpPacket c.1 c.2 b = lose c.1 (c.2 ++ [.unparsed]) := by
    unfold processRtpPacket
    rw [hb]
  have hnumbers : S.numbers (es ++ [.garbage b]) = S.numbers es := by simp [Sending.numbers]
  have hout : said (lose c.1 (c.2 ++ [.unparsed])).2 = said c.2 := by rw [said_lose, said_snoc rfl]
  rw [hrun]
  cases h with
  | silent nothing link out mode =>
    refine .silent (hnumbers.trans nothing) link (hout.trans out) (.inl ⟨rfl, ?_⟩)
    rcases mode with ⟨-, hclock⟩ | ⟨d, w, hd⟩
    · exact hclock
    · exact hd.clock
  | heard k' i' inside mem newest link mode ks out =>
    injection hout with hemissions hunits
    refine .heard k' i' inside (hnumbers ▸ mem) (hnumbers ▸ newest) link (.damaged rfl ?_) ks
      (out.mono _ hemissions (hunits ▸ out.sent) (Nat.le_refl _))
    change c.1.clock = _
    cases mode with
    | damaged lost clock => exact clock
    | between last h => rw [if_pos last, h.clock]
    | within more h feeds units => rw [if_neg (by omega), h.clock]

end Packet

theorem kept_run : ∀ (es : List Arrival), S.Delivers es → S.Kept es (run (es.map fun e => .packet e.bytes)) := by
  intro es
  induction es using List.reverseRecOn with
  | nil => exact fun _ => .silent rfl ⟨rfl, rfl⟩ rfl (.inr ⟨_, _, gathered_fresh⟩)
  | append_singleton es e ih =>
    intro h
    have hkept := ih ⟨fun a ha => h.reads a (List.mem_append_left _ ha), h.near.left⟩
    have hreads := h.reads e (by simp)
    have hnear := h.near es e [] rfl
    have hrun : run ((es ++ [e]).map fun e => .packet e.bytes) =
        call (run (es.map fun e => .packet e.bytes)) (.packet e.bytes) := by
      simp [run]
    rw [hrun]
    cases e with
    | packet k i b =>
      obtain ⟨x, hx, hb⟩ := hreads
      exact hkept.packet hx hb hnear
    | garbage b => exact hkept.garbage hreads

end Run

/-- **What is emitted was sent.** Whatever the network does to the packets, the
access units emitted are units of the sender's in the order they were sent, none of
them twice. Each has all its NAL units and its timestamp; only a unit that was under
way when the first packet arrived may come without its first ones. In front of an IDR
stand the sets it is short of, which are the last received, and whatever was received
are NAL units of the sender's. -/
theorem emits_whole {S : Sending} {es : List Arrival} (h : S.Delivers es) :
    let l := (run (es.map fun e => .packet e.bytes)).2
    (∃ ks : List Nat, ks.Pairwise (· < ·) ∧ List.Forall₂ (S.Whole es) ks (emissions l)) ∧
      EachAfter (fun pre x => ∀ e, x = .emit e → e.Pinned pre) l ∧ ∀ n ∈ units l, ∃ k, n ∈ (S.unit k).nalus := by
  intro l
  have hsets := sets_received (es.map fun e => .packet e.bytes)
  cases kept_run es h with
  | silent nothing link out mode =>
    injection out with hemissions hunits
    refine ⟨⟨[], .nil, ?_⟩, hsets, ?_⟩
    · rw [show emissions l = [] from hemissions]
      exact .nil
    · rw [show units l = [] from hunits]
      exact nofun
  | heard k i inside mem newest link mode ks out => exact ⟨⟨ks, out.sorted, out.whole⟩, hsets, out.sent⟩

/-- `keyUnit`, and IDR slices without parameter sets; the numbers wrap in the
first unit. -/
def camera : Sending where
  ssrc := 7
  base := 65534
  unit k := if k = 0 then keyUnit else bareUnit
  pieces k piece h := by
    split at h
    · exact keyUnit_pieces piece h
    · rw [List.mem_singleton.mp h]
      trivial
  fit k n h := by
    split at h
    · exact ⟨keyUnit_valid.nalus n h, keyUnit_valid.sets n h⟩
    · rw [List.mem_singleton.mp h]
      exact ⟨rfl, by decide⟩
  size k := by
    split
    · exact keyUnit_valid.size
    · decide

def sent (k i : Nat) : Arrival :=
  .packet k i (datagram 7 (UInt16.ofNat (camera.number k i)) ((camera.unit k).contents.getD i ⟨[0], 0, false⟩))

theorem sent_reads {k i : Nat} (hi : i < (camera.unit k).contents.length)
    (hlen : ((camera.unit k).contents.getD i ⟨[0], 0, false⟩).payload ≠ [] ∧
      ((camera.unit k).contents.getD i ⟨[0], 0, false⟩).payload.length ≤ 65523) : camera.Reads (sent k i) :=
  ⟨_, by rw [List.getElem?_eq_getElem hi, List.getD_eq_getElem _ _ hi], parseRtp_datagram 7 _ hlen.1 hlen.2⟩

/-- A packet comes again, and what does not parse comes before the second unit. -/
def arrivals : List Arrival := [sent 0 0, sent 0 1, sent 0 0, sent 0 2, .garbage [], sent 1 0, sent 2 0]

theorem arrivals_near : EachAfter camera.Near arrivals := by
  refine EachAfter.snoc (l := [sent 0 0, sent 0 1, sent 0 0, sent 0 2, .garbage [], sent 1 0])
    (EachAfter.snoc (l := [sent 0 0, sent 0 1, sent 0 0, sent 0 2, .garbage []])
    (EachAfter.snoc (l := [sent 0 0, sent 0 1, sent 0 0, sent 0 2])
    (EachAfter.snoc (l := [sent 0 0, sent 0 1, sent 0 0]) (EachAfter.snoc (l := [sent 0 0, sent 0 1])
    (EachAfter.snoc (l := [sent 0 0]) (EachAfter.snoc (l := []) (eachAfter_nil _) ?_) ?_) ?_) ?_) trivial) ?_) ?_
  all_goals
    unfold Sending.Near sent
    decide

theorem emits_whole_arrivals :
    let l := (run (arrivals.map fun e => .packet e.bytes)).2
    (∃ ks : List Nat, ks.Pairwise (· < ·) ∧ List.Forall₂ (camera.Whole arrivals) ks (emissions l)) ∧
      EachAfter (fun pre x => ∀ e, x = .emit e → e.Pinned pre) l ∧ ∀ n ∈ units l, ∃ k, n ∈ (camera.unit k).nalus := by
  refine emits_whole ⟨?_, arrivals_near⟩
  simp only [arrivals, List.forall_mem_cons]
  refine ⟨sent_reads ?_ ?_, sent_reads ?_ ?_, sent_reads ?_ ?_, sent_reads ?_ ?_, rfl, sent_reads ?_ ?_, sent_reads ?_ ?_,
    nofun⟩
  all_goals decide

end KmVirtualCamera.L2.RtpVideo
