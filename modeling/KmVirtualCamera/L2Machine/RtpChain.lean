import Mathlib
import KmVirtualCamera.L2Machine.RtpVideo

/-!
# Every access unit emitted from RTP can be decoded

`Window l q vcl` says that the log `l` ends in an open window: an emission,
made while the last packet accepted had been `a`, and since then only accepted
packets, each one above its predecessor and the last of them `q`, and appended
units, whose VCL part is `vcl`. No datagram failed to parse in it, no payload
was refused, the SSRC did not change and no keyframe was asked for.

`ChainInv` ties the window to the state: it is open whenever the gate is
(`waiting_ = false`), and its VCL units are those of the access unit in
progress. `decodable_run` is the result over runs.
-/
namespace KmVirtualCamera.L2.RtpVideo
open KmVirtualCamera.L1.RtpWire
open KmVirtualCamera.L1.H264 (validNalu naluType appendAnnexB annexB)

/-! ## What a log says -/

def seqs (l : Log) : List UInt16 := l.filterMap fun | .accepted q => some q | _ => none

def units (l : Log) : List Bytes := l.filterMap fun | .nal n => some n | _ => none

/-- An accepted packet or an appended unit: nothing was lost. -/
def Event.quiet : Event → Bool
  | .accepted _ | .nal _ => true
  | _ => false

def Emission.hasIdr (e : Emission) : Prop := ∃ n ∈ e.nalus, naluType n = 5

/-- The cached SPS and PPS are among the units. -/
structure Emission.Configured (e : Emission) : Prop where
  sps : e.sps ∈ e.nalus ∧ naluType e.sps = 7
  pps : e.pps ∈ e.nalus ∧ naluType e.pps = 8

/-- Since packet `q` only units were appended. -/
def Fresh (l : Log) (q : UInt16) : Prop :=
  ∃ (pre : Log) (ns : List Bytes), l = pre ++ .accepted q :: ns.map .nal

/-- One sequence number after the other, modulo 2^16. -/
def Consecutive (qs : List UInt16) : Prop := qs.IsChain fun a b => b = a + 1

def Window (l : Log) (q : UInt16) (vcl : List Bytes) : Prop :=
  ∃ (pre : Log) (a : UInt16) (ns : List Bytes) (e : Emission) (mid : Log),
    l = pre ++ .accepted a :: ns.map .nal ++ .emit e :: mid ∧
    (∀ x ∈ mid, x.quiet = true) ∧ Consecutive (a :: seqs mid) ∧
    (a :: seqs mid).getLast (List.cons_ne_nil _ _) = q ∧ (units mid).filter isVcl = vcl

/-- What holds of an emission made after the log `l`. -/
structure Emission.Sound (e : Emission) (l : Log) : Prop where
  data : e.data = annexB e.nalus
  configured : e.hasIdr → e.Configured
  continues : ¬ e.hasIdr → ∃ q, Window l q (e.nalus.filter isVcl)

def Decodable (l : Log) : Prop := EachAfter (fun pre x => ∀ e, x = .emit e → e.Sound pre) l

/-! ## Growing the log -/

theorem Fresh.nal {l : Log} {q : UInt16} (h : Fresh l q) (n : Bytes) : Fresh (l ++ [.nal n]) q := by
  obtain ⟨pre, ns, rfl⟩ := h
  exact ⟨pre, ns ++ [n], by simp⟩

theorem fresh_accepted (l : Log) (q : UInt16) : Fresh (l ++ [.accepted q]) q := ⟨l, [], by simp⟩

/-- An emission opens a window. -/
theorem Fresh.window {l : Log} {q : UInt16} (h : Fresh l q) (e : Emission) :
    Window (l ++ [.emit e]) q [] := by
  obtain ⟨pre, ns, rfl⟩ := h
  exact ⟨pre, q, ns, e, [], by simp, by simp, List.isChain_singleton _, by simp [seqs], rfl⟩

theorem Window.accepted {l : Log} {q : UInt16} {vcl : List Bytes} (h : Window l q vcl) :
    Window (l ++ [.accepted (q + 1)]) (q + 1) vcl := by
  obtain ⟨pre, a, ns, e, mid, rfl, hq, hc, hl, hv⟩ := h
  refine ⟨pre, a, ns, e, mid ++ [.accepted (q + 1)], by simp, ?_, ?_, by simp [seqs], ?_⟩
  · intro x hx
    rcases List.mem_append.mp hx with hx | hx
    · exact hq x hx
    · rw [List.mem_singleton] at hx; subst hx; rfl
  · have hs : a :: seqs (mid ++ [.accepted (q + 1)]) = (a :: seqs mid) ++ [q + 1] := by simp [seqs]
    unfold Consecutive
    rw [hs, List.isChain_append]
    refine ⟨hc, List.isChain_singleton _, ?_⟩
    intro x hx y hy
    rw [List.getLast?_eq_getLast_of_ne_nil (List.cons_ne_nil _ _), Option.mem_some_iff, hl] at hx
    simp only [List.head?_cons, Option.mem_some_iff] at hy
    rw [← hx, ← hy]
  · rw [← hv]; simp [units]

theorem Window.nal {l : Log} {q : UInt16} {vcl : List Bytes} (h : Window l q vcl) (n : Bytes) :
    Window (l ++ [.nal n]) q (vcl ++ [n].filter isVcl) := by
  obtain ⟨pre, a, ns, e, mid, rfl, hq, hc, hl, hv⟩ := h
  have hs : seqs (mid ++ [.nal n]) = seqs mid := by simp [seqs]
  refine ⟨pre, a, ns, e, mid ++ [.nal n], by simp, ?_, by rw [hs]; exact hc, ?_, ?_⟩
  · intro x hx
    rcases List.mem_append.mp hx with hx | hx
    · exact hq x hx
    · rw [List.mem_singleton] at hx; subst hx; rfl
  · simp only [hs, hl]
  · rw [← hv]; simp [units]

/-! ## The invariant -/

/-- What the flags say about the units gathered so far. -/
structure Inv (s : Depacketizer) : Prop where
  au : s.au = annexB s.nalus
  au_le : s.au.length ≤ kMaxAccessUnitBytes
  damaged : s.damaged = true → s.waiting = true
  idr : s.damaged = false → (s.idr = true ↔ ∃ n ∈ s.nalus, naluType n = 5)
  vcl : s.damaged = false → (s.vcl = true ↔ ∃ n ∈ s.nalus, isVcl n = true)
  sps : s.sps ≠ [] → naluType s.sps = 7
  pps : s.pps ≠ [] → naluType s.pps = 8
  hasSps : s.damaged = false → s.hasSps = true → s.sps ∈ s.nalus
  hasPps : s.damaged = false → s.hasPps = true → s.pps ≠ [] → s.pps ∈ s.nalus

/-- The invariant with the log; `q` is the last sequence number accepted. -/
structure ChainInv (q : UInt16) (l : Log) (s : Depacketizer) : Prop extends Inv s where
  fresh : s.damaged = false → s.nalus ≠ [] → Fresh l q
  chain : s.waiting = false → Window l q (s.nalus.filter isVcl)
  good : Decodable l

theorem inv_clearAu {s : Depacketizer} (h : Inv s) (w : Bool) : Inv (clearAu { s with waiting := w }) where
  au := rfl
  au_le := Nat.zero_le _
  damaged h0 := by simp [clearAu] at h0
  idr _ := by simp [clearAu]
  vcl _ := by simp [clearAu]
  sps := h.sps
  pps := h.pps
  hasSps _ h0 := by simp [clearAu] at h0
  hasPps _ h0 := by simp [clearAu] at h0

theorem inv_reset (s : Depacketizer) : Inv (reset s) where
  au := rfl
  au_le := Nat.zero_le _
  damaged _ := rfl
  idr _ := by simp [reset, clearAu]
  vcl _ := by simp [reset, clearAu]
  sps h0 := absurd rfl h0
  pps h0 := absurd rfl h0
  hasSps _ h0 := by simp [reset, clearAu] at h0
  hasPps _ h0 := by simp [reset, clearAu] at h0

/-- A closed gate with nothing gathered needs no history. -/
theorem chainInv_closed {q : UInt16} {l : Log} {s : Depacketizer} (h : Inv s) (hw : s.waiting = true)
    (hn : s.nalus = []) (hg : Decodable l) : ChainInv q l s :=
  ⟨h, fun _ h0 => absurd hn h0, fun h0 => by simp [hw] at h0, hg⟩

theorem chainInv_lose {q : UInt16} {l : Log} {s : Depacketizer} (h : Inv s) (hg : Decodable l) :
    ChainInv q (lose s l).2 (lose s l).1 := by
  refine chainInv_closed ⟨rfl, Nat.zero_le _, fun _ => rfl, ?_, ?_, h.sps, h.pps, ?_, ?_⟩ rfl rfl ?_
  · intro h0; cases h0
  · intro h0; cases h0
  · intro h0; cases h0
  · intro h0; cases h0
  · exact hg.snoc fun e he => by cases he

/-! ## emit -/

/-- How `emit` ends: with an output, or with the gate left closed unless
nothing decodable was dropped. -/
inductive Emitted (s : Depacketizer) (l : Log) : Depacketizer × Log → Prop
  | output (ok : good s) :
      Emitted s l (clearAu { s with waiting := if s.idr then false else s.waiting },
        l ++ [.emit ⟨annexB (missing s ++ s.nalus), s.timestamp, missing s ++ s.nalus, s.sps, s.pps⟩])
  | dropped (w : Bool) (idle : w = false → s.waiting = false ∧ s.vcl = false) :
      Emitted s l (clearAu { s with waiting := w }, l ++ if w then [.keyframe] else [])

theorem emit_cases {s : Depacketizer} (l : Log) (h : Inv s) : Emitted s l (emit s l) := by
  have hhead : (missing s).foldl appendAnnexB [] ++ s.au = annexB (missing s ++ s.nalus) := by
    rw [L1.H264.foldl_appendAnnexB, h.au, L1.H264.annexB_append, List.nil_append]
  unfold emit
  simp only
  split
  · rename_i hok
    split
    · exact .dropped true fun h0 => by cases h0
    · rw [if_pos]
      · rw [hhead]; exact .output hok
      · -- a good unit has a VCL unit in it
        obtain ⟨n, hn, -⟩ := (h.vcl hok.1).mp hok.2.2.1
        rw [hhead]
        intro h0
        have hlen := congrArg List.length h0
        have hle := L1.H264.length_le_annexB (missing s ++ s.nalus)
        have hpos := List.length_pos_of_mem hn
        simp only [List.length_nil, List.length_append] at hlen hle
        omega
  · refine .dropped _ ?_
    intro h0
    simp only [Bool.or_eq_false_iff] at h0
    exact h0.1

theorem missing_type {s : Depacketizer} (h : Inv s) (hok : good s) {n : Bytes}
    (hn : n ∈ missing s) : naluType n = 7 ∨ naluType n = 8 := by
  unfold missing at hn
  split at hn
  · rename_i hi
    obtain ⟨h7, h8⟩ := hok.2.2.2.2.resolve_left (by simp [hi])
    rcases List.mem_append.mp hn with hn | hn
    · left
      split at hn
      · cases hn
      · rw [List.mem_singleton] at hn; subst hn; exact h.sps h7
    · right
      split at hn
      · cases hn
      · rw [List.mem_singleton] at hn; subst hn; exact h.pps h8
  · cases hn

/-- The emission of a good access unit. -/
theorem good_sound {q : UInt16} {l : Log} {s : Depacketizer} (h : ChainInv q l s) (hok : good s) :
    Emission.Sound ⟨annexB (missing s ++ s.nalus), s.timestamp, missing s ++ s.nalus, s.sps, s.pps⟩ l := by
  have hidr := h.idr hok.1
  have hd := hok.1
  refine ⟨rfl, ?_, ?_⟩
  · intro hi
    have hi' : s.idr = true := by
      obtain ⟨n, hn, h5⟩ := hi
      rcases List.mem_append.mp hn with hn | hn
      · rcases missing_type h.toInv hok hn with ht | ht <;> rw [ht] at h5 <;>
          exact absurd h5 (by decide)
      · exact hidr.mpr ⟨n, hn, h5⟩
    obtain ⟨n7, n8⟩ := hok.2.2.2.2.resolve_left (by simp [hi'])
    refine ⟨⟨?_, h.sps n7⟩, ⟨?_, h.pps n8⟩⟩
    · cases h7 : s.hasSps with
      | true => exact List.mem_append_right _ (h.hasSps hd h7)
      | false => exact List.mem_append_left _ (by simp [missing, hi', h7])
    · cases h8 : s.hasPps with
      | true => exact List.mem_append_right _ (h.hasPps hd h8 n8)
      | false => exact List.mem_append_left _ (by simp [missing, hi', h8])
  · intro hni
    have hi' : s.idr = false := by
      by_contra hi
      obtain ⟨n, hn, h5⟩ := hidr.mp (by simpa using hi)
      exact hni ⟨n, List.mem_append_right _ hn, h5⟩
    have hw := hok.2.2.2.1.resolve_right (by simp [hi'])
    exact ⟨q, by simpa [missing, hi'] using h.chain hw⟩

theorem chainInv_emit {q : UInt16} {l : Log} {s : Depacketizer} (h : ChainInv q l s) :
    ChainInv q (emit s l).2 (emit s l).1 := by
  have hc := emit_cases l h.toInv
  generalize emit s l = r at hc
  cases hc with
  | output hok =>
    have hne : s.nalus ≠ [] := by
      obtain ⟨n, hn, -⟩ := (h.vcl hok.1).mp hok.2.2.1
      exact List.ne_nil_of_mem hn
    refine ⟨inv_clearAu h.toInv _, fun _ h0 => absurd rfl h0, ?_, ?_⟩
    · intro _
      exact (h.fresh hok.1 hne).window _
    · exact h.good.snoc fun e he => by cases he; exact good_sound h hok
  | dropped w idle =>
    cases w with
    | true =>
      exact chainInv_closed (inv_clearAu h.toInv _) rfl rfl
        (h.good.snoc fun e he => by cases he)
    | false =>
      obtain ⟨hw, hv⟩ := idle rfl
      have hd : s.damaged = false := by
        by_contra hd
        rw [h.damaged (by simpa using hd)] at hw; cases hw
      have hno : s.nalus.filter isVcl = [] := by
        rw [List.filter_eq_nil_iff]
        intro n hn hv'
        rw [(h.vcl hd).mpr ⟨n, hn, hv'⟩] at hv; cases hv
      have hwin := h.chain hw
      rw [hno] at hwin
      refine ⟨inv_clearAu h.toInv _, fun _ h0 => absurd rfl h0, ?_, ?_⟩
      · intro _
        rw [if_neg (by simp), List.append_nil]; exact hwin
      · simpa using h.good

/-- `q` is the sequence number the state holds. -/
def Synced (q : UInt16) (s : Depacketizer) : Prop := s.sequence = q ∧ s.haveSequence = true

theorem synced_emit {q : UInt16} {s : Depacketizer} (l : Log) (h : Synced q s) :
    Synced q (emit s l).1 := by
  unfold emit
  simp only
  repeat' split
  all_goals exact h

/-! ## Payloads -/

/-- While a payload is being read: the access unit is undamaged and the packet
is in the log. -/
structure Ready (q : UInt16) (l : Log) (s : Depacketizer) : Prop extends ChainInv q l s where
  intact : s.damaged = false
  read : Fresh l q
  synced : Synced q s

/-- The invariant does not read the fragment in progress. -/
theorem Ready.fragment {q : UInt16} {l : Log} {s : Depacketizer} (h : Ready q l s) (fu : Bytes)
    (hd : UInt8) : Ready q l { s with fu := fu, fuHeader := hd } :=
  ⟨⟨⟨h.au, h.au_le, h.damaged, h.idr, h.vcl, h.sps, h.pps, h.hasSps, h.hasPps⟩, h.fresh, h.chain,
    h.good⟩, h.intact, h.read, h.synced⟩

theorem Ready.clearFu {q : UInt16} {l : Log} {s : Depacketizer} (h : Ready q l s) :
    Ready q l { s with fu := [] } := h.fragment [] s.fuHeader

/-- What remembering a parameter set does to the invariant's fields. -/
theorem note_frame (s : Depacketizer) (n : Bytes) :
    (s.note n).au = s.au ∧ (s.note n).nalus = s.nalus ∧ (s.note n).idr = s.idr ∧
      (s.note n).vcl = s.vcl ∧ (s.note n).damaged = s.damaged ∧ (s.note n).waiting = s.waiting ∧
      ∀ {q : UInt16}, Synced q s → Synced q (s.note n) := by
  unfold Depacketizer.note
  split
  · exact ⟨rfl, rfl, rfl, rfl, rfl, rfl, id⟩
  · split <;> exact ⟨rfl, rfl, rfl, rfl, rfl, rfl, id⟩

theorem note_sets {s : Depacketizer} (h : Inv s) (hd : s.damaged = false) (n : Bytes) :
    ((s.note n).sps ≠ [] → naluType (s.note n).sps = 7) ∧
      ((s.note n).pps ≠ [] → naluType (s.note n).pps = 8) ∧
      ((s.note n).hasSps = true → (s.note n).sps ∈ s.nalus ++ [n]) ∧
      ((s.note n).hasPps = true → (s.note n).pps ≠ [] → (s.note n).pps ∈ s.nalus ++ [n]) := by
  have old7 : s.hasSps = true → s.sps ∈ s.nalus ++ [n] :=
    fun h7 => List.mem_append_left _ (h.hasSps hd h7)
  have old8 : s.hasPps = true → s.pps ≠ [] → s.pps ∈ s.nalus ++ [n] :=
    fun h8 hne => List.mem_append_left _ (h.hasPps hd h8 hne)
  have new : n ∈ s.nalus ++ [n] := by simp
  unfold Depacketizer.note
  split
  · rename_i ht
    refine ⟨fun _ => ht, ?_, fun _ => new, ?_⟩
    · intro hne
      simp only at hne ⊢
      split at hne
      · rename_i heq; rw [if_pos heq]; exact h.pps hne
      · exact absurd rfl hne
    · intro h8 hne
      simp only at hne ⊢
      split at hne
      · rename_i heq; rw [if_pos heq]; exact old8 h8 hne
      · exact absurd rfl hne
  · split
    · rename_i ht
      exact ⟨h.sps, fun _ => ht, old7, fun _ _ => new⟩
    · exact ⟨h.sps, h.pps, old7, old8⟩

theorem ready_append {q : UInt16} {l : Log} {s : Depacketizer} {n : Bytes} {c : Depacketizer × Log}
    (h : Ready q l s) (ha : appendNalu s l n = some c) : Ready q c.2 c.1 := by
  have hd := h.intact
  unfold appendNalu at ha
  split at ha
  · cases ha
  rename_i hfit
  split at ha
  · cases ha
  simp only [Option.some.injEq] at ha
  subst ha
  obtain ⟨f1, f2, f3, f4, f5, f6, f7⟩ := note_frame s n
  obtain ⟨s7, s8, m7, m8⟩ := note_sets h.toInv hd n
  simp only [not_or, gt_iff_lt, Nat.not_lt] at hfit
  refine ⟨⟨⟨?_, ?_, ?_, ?_, ?_, s7, s8, ?_, ?_⟩, ?_,
    ?_, ?_⟩, f5.trans hd, h.read.nal n, f7 h.synced⟩
  · simp only [f1, f2, h.au, L1.H264.annexB_append, L1.H264.annexB_cons, appendAnnexB]
    simp
  · simp only [f1, appendAnnexB, List.length_append, List.length_cons, List.length_nil]
    unfold kMaxAccessUnitBytes at hfit ⊢
    omega
  · simp only [f5, f6]; exact h.damaged
  · intro _
    simp only [f2, f3, Bool.or_eq_true, h.idr hd, List.mem_append, List.mem_singleton, beq_iff_eq]
    grind
  · intro _
    simp only [f2, f4, Bool.or_eq_true, h.vcl hd, List.mem_append, List.mem_singleton]
    grind
  · intro _
    rw [f2]; exact m7
  · intro _
    rw [f2]; exact m8
  · intro _ _
    exact h.read.nal n
  · intro hw
    simp only [f2, List.filter_append]
    exact (h.chain (f6.symm.trans hw)).nal n
  · exact h.good.snoc fun e he => by cases he

theorem ready_single {q : UInt16} {l : Log} {s : Depacketizer} (h : Ready q l s) (p : Bytes) :
    Ready q (single s l p).1.2 (single s l p).1.1 := by
  unfold single
  split
  · exact h
  · cases ha : appendNalu s l p with
    | none => exact h
    | some c => exact ready_append h ha

theorem ready_appendAll {q : UInt16} : ∀ (ns : List Bytes) {l : Log} {s : Depacketizer},
    Ready q l s → Ready q (appendAll s l ns).1.2 (appendAll s l ns).1.1
  | [], _, _, h => h
  | n :: ns, l, s, h => by
    simp only [appendAll]
    cases ha : appendNalu s l n with
    | none => exact h
    | some c => exact ready_appendAll ns (ready_append h ha)

theorem ready_stapA {q : UInt16} {l : Log} {s : Depacketizer} (h : Ready q l s) (p : Bytes) :
    Ready q (stapA s l p).1.2 (stapA s l p).1.1 := by
  unfold stapA
  split
  · exact h
  · split
    · exact ready_appendAll _ h
    · exact h

theorem ready_fuData {q : UInt16} {l : Log} {s : Depacketizer} (h : Ready q l s) (data : Bytes)
    (last : Bool) : Ready q (fuData s l data last).1.2 (fuData s l data last).1.1 := by
  unfold fuData
  split
  · exact h
  · split
    · cases ha : appendNalu s l (s.fu ++ data) with
      | none => exact h.clearFu
      | some c => exact (ready_append h ha).clearFu
    · exact h.fragment _ s.fuHeader

theorem ready_fuA {q : UInt16} {l : Log} {s : Depacketizer} (h : Ready q l s) (p : Bytes) :
    Ready q (fuA s l p).1.2 (fuA s l p).1.1 := by
  unfold fuA
  split
  · rename_i p0 p1 p2 data
    simp only
    split
    · exact h
    split
    · split
      · exact h
      · exact ready_fuData (h.fragment _ _) _ _
    · split
      · exact h
      · exact ready_fuData h _ _
  · exact h

theorem ready_payload {q : UInt16} {l : Log} {s : Depacketizer} (h : Ready q l s) (p : Bytes) :
    Ready q (payload s l p).1.2 (payload s l p).1.1 := by
  unfold payload
  simp only
  split
  · exact ready_single h p
  split
  · exact ready_stapA h p
  split
  · exact ready_fuA h p
  · exact h

/-! ## Datagrams -/

/-- The invariant reads neither the timestamp nor the sequence fields. -/
theorem ChainInv.header {q : UInt16} {l : Log} {s : Depacketizer} (h : ChainInv q l s)
    (ts ssrc : UInt32) (sq : UInt16) (hs hq ht : Bool) :
    ChainInv q l { s with timestamp := ts, ssrc := ssrc, sequence := sq, haveSsrc := hs,
                          haveSequence := hq, haveTimestamp := ht } :=
  ⟨⟨h.au, h.au_le, h.damaged, h.idr, h.vcl, h.sps, h.pps, h.hasSps, h.hasPps⟩, h.fresh, h.chain,
    h.good⟩

theorem chain_consume {q : UInt16} {l : Log} {s : Depacketizer} (h : Ready q l s) (p : RtpPacket) :
    ChainInv q (consume s l p).2 (consume s l p).1 ∧ Synced q (consume s l p).1 := by
  have rejected : ∀ {l : Log}, Decodable l → Decodable (l ++ [.rejected]) :=
    fun hg => hg.snoc fun e he => by cases he
  unfold consume
  split
  · exact ⟨chainInv_lose h.toInv (rejected h.good), h.synced⟩
  · have hp := ready_payload h p.payload
    generalize payload s l p.payload = c at hp
    have hc : ChainInv q (if c.2 then c.1 else lose c.1.1 (c.1.2 ++ [.rejected])).2
        (if c.2 then c.1 else lose c.1.1 (c.1.2 ++ [.rejected])).1 ∧
        Synced q (if c.2 then c.1 else lose c.1.1 (c.1.2 ++ [.rejected])).1 := by
      split
      · exact ⟨hp.toChainInv, hp.synced⟩
      · exact ⟨chainInv_lose hp.toInv (rejected hp.good), hp.synced⟩
    simp only
    generalize (if c.2 then c.1 else lose c.1.1 (c.1.2 ++ [.rejected])) = d at hc
    split
    · have he := chainInv_emit hc.1
      exact ⟨he.header _ _ _ _ _ false, synced_emit d.2 hc.2⟩
    · exact hc

theorem chain_boundary {q r : UInt16} {l : Log} {s : Depacketizer} (h : ChainInv q l s)
    (hs : Synced r s) (p : RtpPacket) (gap : Bool) :
    ChainInv q (boundary s l p gap).2 (boundary s l p gap).1 ∧ Synced r (boundary s l p gap).1 := by
  unfold boundary
  split
  · simp only
    split
    · exact ⟨chainInv_emit (chainInv_lose h.toInv h.good), synced_emit _ hs⟩
    · exact ⟨chainInv_emit h, synced_emit l hs⟩
  · exact ⟨h, hs⟩

theorem boundary_first (l : Log) (s : Depacketizer) (h : s.haveTimestamp = false) (p : RtpPacket)
    (gap : Bool) : boundary s l p gap = (s, l) := by
  unfold boundary
  rw [if_neg (by simp [h])]

/-- An accepted packet: it is one above the last, or it is the first (the gate
is closed and no access unit is in progress), or there is a gap. -/
theorem chain_accept {q : UInt16} {l : Log} {s : Depacketizer} (h : ChainInv q l s) (p : RtpPacket)
    (gap : Bool) (hp : gap = true ∨ p.sequence = q + 1 ∨ (s.waiting = true ∧ s.haveTimestamp = false)) :
    ChainInv p.sequence (accept s l p gap).2 (accept s l p gap).1 ∧
      Synced p.sequence (accept s l p gap).1 := by
  have hs := h.header s.timestamp s.ssrc p.sequence s.haveSsrc true s.haveTimestamp
  obtain ⟨hb, hsync⟩ := chain_boundary (r := p.sequence) hs ⟨rfl, rfl⟩ p gap
  have hfirst := boundary_first l { s with sequence := p.sequence, haveSequence := true }
  unfold accept
  simp only
  have hclosed : s.waiting = true ∧ s.haveTimestamp = false →
      (boundary { s with sequence := p.sequence, haveSequence := true } l p gap).1.waiting = true := by
    rintro ⟨hw, ht⟩
    rw [hfirst ht p gap]; exact hw
  generalize boundary { s with sequence := p.sequence, haveSequence := true } l p gap = c
    at hb hsync hclosed
  have hg : Decodable (c.2 ++ [.accepted p.sequence]) := hb.good.snoc fun e he => by cases he
  have hb' := hb.header p.timestamp c.1.ssrc c.1.sequence c.1.haveSsrc c.1.haveSequence true
  cases gap with
  | true =>
    -- the access unit is damaged: only its end is looked for
    have hl := chainInv_lose (q := p.sequence) hb'.toInv hg
    simp only [if_true]
    rw [if_pos (by rfl)]
    split
    · have hcl := chainInv_closed (q := p.sequence) (inv_clearAu hl.toInv true) rfl rfl hl.good
      exact ⟨hcl.header _ _ _ _ _ false, hsync⟩
    · exact ⟨hl, hsync⟩
  | false =>
    have hnext : ChainInv p.sequence (c.2 ++ [.accepted p.sequence])
        { c.1 with timestamp := p.timestamp, haveTimestamp := true } := by
      refine ⟨hb'.toInv, fun _ _ => fresh_accepted _ _, ?_, hg⟩
      intro hw
      rcases hp with hp | hp | hp
      · cases hp
      · rw [hp]; exact (hb'.chain hw).accepted
      · rw [hclosed hp] at hw; cases hw
    simp only [Bool.false_eq_true, if_false]
    split
    · rename_i hd
      split
      · have hcl := chainInv_closed (q := p.sequence) (inv_clearAu hnext.toInv c.1.waiting)
          (hb.damaged hd) rfl hg
        exact ⟨hcl.header _ _ _ _ _ false, hsync⟩
      · exact ⟨hnext, hsync⟩
    · rename_i hd
      exact chain_consume ⟨hnext, by simpa using hd, fresh_accepted _ _, hsync⟩ p

/-! ## Runs -/

/-- The invariant between calls. -/
structure RunInv (c : Depacketizer × Log) : Prop extends ChainInv c.1.sequence c.2 c.1 where
  first : c.1.haveSequence = false → c.1.waiting = true ∧ c.1.haveTimestamp = false

theorem runInv_of_synced {q : UInt16} {c : Depacketizer × Log}
    (h : ChainInv q c.2 c.1 ∧ Synced q c.1) : RunInv c := by
  obtain ⟨hc, rfl, hq⟩ := h
  exact ⟨hc, fun h0 => by simp [hq] at h0⟩

theorem runInv_packet {s : Depacketizer} {l : Log} (h : RunInv (s, l)) (bytes : Bytes) :
    RunInv (processRtpPacket s l bytes) := by
  unfold processRtpPacket
  split
  · have hg : Decodable (l ++ [.unparsed]) := h.good.snoc fun e he => by cases he
    exact ⟨chainInv_lose h.toInv hg, fun h0 => ⟨rfl, (h.first h0).2⟩⟩
  · rename_i p _
    have hswitch : RunInv (if s.haveSsrc = true ∧ p.ssrc ≠ s.ssrc then (reset s, l ++ [.ssrcChange])
        else (s, l)) := by
      split
      · have hg : Decodable (l ++ [.ssrcChange]) := h.good.snoc fun e he => by cases he
        exact ⟨chainInv_closed (inv_reset s) rfl rfl hg, fun _ => ⟨rfl, rfl⟩⟩
      · exact h
    simp only
    generalize (if s.haveSsrc = true ∧ p.ssrc ≠ s.ssrc then (reset s, l ++ [.ssrcChange])
        else (s, l)) = c at hswitch
    have hc := hswitch.header c.1.timestamp p.ssrc c.1.sequence true c.1.haveSequence c.1.haveTimestamp
    split
    · split
      · exact ⟨hc, hswitch.first⟩
      · rename_i hpos
        refine runInv_of_synced (chain_accept hc p _ ?_)
        by_cases h1 : sequenceDelta p.sequence c.1.sequence = 1
        · exact .inr (.inl (sequenceDelta_eq_one.mp h1))
        · exact .inl (by simpa using h1)
    · rename_i hq
      exact runInv_of_synced (chain_accept hc p false (.inr (.inr (hswitch.first (by simpa using hq)))))

theorem runInv_inductive : lts.Inductive RunInv where
  init c hc := by
    subst hc
    exact ⟨chainInv_closed (inv_reset {}) rfl rfl (eachAfter_nil _), fun _ => ⟨rfl, rfl⟩⟩
  step c a c' h hst := by
    cases hst
    cases a with
    | packet bytes => exact runInv_packet h bytes
    | reset =>
      have hg : Decodable (c.2 ++ [.reset]) := h.good.snoc fun e he => by cases he
      exact ⟨chainInv_closed (inv_reset c.1) rfl rfl hg, fun _ => ⟨rfl, rfl⟩⟩

/-- What every run leaves behind. -/
theorem decodable_run (cs : List Call) : Decodable (run cs).2 :=
  (runInv_inductive.reachable _ (run_reachable cs)).good

end KmVirtualCamera.L2.RtpVideo
