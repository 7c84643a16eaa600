import Mathlib
import KmVirtualCamera.L2Machine.DcInvariant

/-!
# Every emitted access unit can be decoded

A run of the depacketizer leaves a log: the access units handed on, the
overflows and the resets, in order. `Chained l n` says that `l` ends in an
open chain: a configured IDR unit, then units one sequence number apart, with
nothing between them, and `n` is the number that continues it.

`ChainInv` ties the chain to the state: whenever the gate is open
(`waiting_ = false`) the log ends in a chain that the cursor continues. Every
way to lose or skip a frame closes the gate, so the invariant is kept by each
event of `drain`; `emitted_decodable` is the result over runs.
-/
namespace KmVirtualCamera.L2.DcVideo
open KmVirtualCamera.L1.H264 KmVirtualCamera.L1.DcWire

inductive Mark where
  | emit (e : Emission)
  | overflow
  | reset

/-- What a call leaves in the log. An overflow ends its call. -/
def marks (l : Call × Batch) : List Mark :=
  match l.1 with
  | .reset => [.reset]
  | _ => l.2.frames.map .emit ++ if l.2.overflow then [.overflow] else []

def log (ls : List (Call × Batch)) : List Mark := ls.flatMap marks

/-- The unit contains an IDR NAL. -/
def Emission.hasIdr (e : Emission) : Prop := ∃ n ∈ e.nalus, naluType n = 5

/-- An IDR together with an SPS and a PPS. -/
def Emission.configured (e : Emission) : Prop :=
  e.hasIdr ∧ (∃ n ∈ e.nalus, naluType n = 7) ∧ ∃ n ∈ e.nalus, naluType n = 8

/-- One sequence number after the other, modulo 2^16. -/
def Consecutive (es : List Emission) : Prop := es.IsChain fun a b => b.seq = a.seq + 1

def Chained (l : List Mark) (next : UInt16) : Prop :=
  ∃ pre k es, l = pre ++ (k :: es).map Mark.emit ∧ k.configured ∧ Consecutive (k :: es) ∧
    next = ((k :: es).getLast (List.cons_ne_nil k es)).seq + 1

/-- Every unit without an IDR in the log continues a chain. -/
def Decodable (l : List Mark) : Prop :=
  EachAfter (fun pre m => ∀ e, m = .emit e → ¬ e.hasIdr → Chained pre e.seq) l

structure ChainInv (l : List Mark) (s : Depacketizer) : Prop where
  gate : s.initialized = false → s.waiting = true
  sps : s.sps ≠ [] → naluType s.sps = 7
  pps : s.pps ≠ [] → naluType s.pps = 8
  chain : s.waiting = false → Chained l s.expected
  good : Decodable l

/-! ## Growing the log -/

theorem chained_start (l : List Mark) (e : Emission) (h : e.configured) :
    Chained (l ++ [.emit e]) (e.seq + 1) :=
  ⟨l, e, [], by simp, h, List.isChain_singleton _, by simp⟩

theorem chained_extend {l : List Mark} {e : Emission} (h : Chained l e.seq) :
    Chained (l ++ [.emit e]) (e.seq + 1) := by
  obtain ⟨pre, k, es, rfl, hk, hc, hn⟩ := h
  refine ⟨pre, k, es ++ [e], by simp, hk, ?_, by simp⟩
  have : k :: (es ++ [e]) = (k :: es) ++ [e] := rfl
  unfold Consecutive
  rw [this, List.isChain_append]
  refine ⟨hc, List.isChain_singleton _, ?_⟩
  intro x hx y hy
  rw [List.getLast?_eq_getLast_of_ne_nil (List.cons_ne_nil k es), Option.mem_some_iff] at hx
  simp only [List.head?_cons, Option.mem_some_iff] at hy
  rw [← hx, ← hy]; exact hn

/-! ## Preservation -/

theorem nextSets_types {s : Depacketizer} {ns : List Bytes} {sps pps : Bytes}
    (h : nextSets s (scan ns) = some (sps, pps)) (h7 : s.sps ≠ [] → naluType s.sps = 7)
    (h8 : s.pps ≠ [] → naluType s.pps = 8) :
    (sps ≠ [] → naluType sps = 7) ∧ (pps ≠ [] → naluType pps = 8) := by
  rcases nextSets_cases h with ⟨hs, hp, rfl, rfl⟩ | ⟨-, -, rfl, rfl⟩
  · exact ⟨fun _ => (lastOf_mem hs).2, fun _ => (lastOf_mem hp).2⟩
  · exact ⟨h7, h8⟩

/-- Closing the gate keeps the invariant whatever happens to the cursor. -/
theorem ChainInv.close {l : List Mark} {s s' : Depacketizer} (h : ChainInv l s)
    (hw : s'.waiting = true) (h7 : s'.sps = s.sps) (h8 : s'.pps = s.pps) : ChainInv l s' where
  gate _ := hw
  sps := by rw [h7]; exact h.sps
  pps := by rw [h8]; exact h.pps
  chain h0 := by rw [hw] at h0; cases h0
  good := h.good

/-- Nothing the invariant reads has changed. -/
theorem ChainInv.keep {l : List Mark} {s s' : Depacketizer} (h : ChainInv l s)
    (hi : s'.initialized = s.initialized) (hw : s'.waiting = s.waiting)
    (he : s'.expected = s.expected) (h7 : s'.sps = s.sps) (h8 : s'.pps = s.pps) : ChainInv l s' where
  gate := by rw [hi, hw]; exact h.gate
  sps := by rw [h7]; exact h.sps
  pps := by rw [h8]; exact h.pps
  chain := by rw [hw, he]; exact h.chain
  good := h.good

/-- The log of a call in progress, after the log `l` of the calls before. -/
def logWith (l : List Mark) (b : Batch) : List Mark := l ++ b.frames.map .emit

theorem chain_handOn {now : Int} {l : List Mark} {s : Depacketizer} {b : Batch} {f : Frame}
    (h : ChainInv (logWith l b) s) (hi : s.initialized = true) :
    ChainInv (logWith l (handOn now s b f).2) (handOn now s b f).1 := by
  have ha := assemble_cases s f
  unfold handOn
  generalize assemble s f = r at ha
  cases ha with
  | refused sps pps sets kept =>
    have htypes : (sps ≠ [] → naluType sps = 7) ∧ (pps ≠ [] → naluType pps = 8) := by
      cases hsp : splitAccessUnit f.raw with
      | none =>
        obtain ⟨rfl, rfl⟩ := kept hsp
        exact ⟨h.sps, h.pps⟩
      | some ns =>
        rcases sets ns hsp with hs | ⟨-, rfl, rfl⟩
        · exact nextSets_types hs h.sps h.pps
        · exact ⟨fun h0 => absurd rfl h0, fun h0 => absurd rfl h0⟩
    exact ⟨fun _ => by simp [erase], by simpa [erase] using htypes.1,
      by simpa [erase] using htypes.2, by simp [erase], by simpa [logWith] using h.good⟩
  | output ns sps pps split sets key gate configured =>
    obtain ⟨t7, t8⟩ := nextSets_types sets h.sps h.pps
    have hidr := outNalus_hasIdr sps pps ns
    simp only [logWith, List.map_append, List.map_cons, List.map_nil, ← List.append_assoc, erase]
    cases hd : (scan ns).idr with
    | true =>
      obtain ⟨n7, n8⟩ := configured hd
      refine ⟨fun h0 => by simp [hi] at h0, t7, t8, fun _ => chained_start _ _ ?_, ?_⟩
      · refine ⟨by rw [hd] at hidr; exact hidr.mpr rfl, ⟨sps, ?_, t7 n7⟩, ⟨pps, ?_, t8 n8⟩⟩ <;>
          simp [outNalus]
      · refine h.good.snoc ?_
        intro e he hne
        cases he
        exact absurd (by rw [hd] at hidr; exact hidr.mpr rfl) hne
    | false =>
      have hw : s.waiting = false := by
        cases hw : s.waiting with
        | false => rfl
        | true => rw [gate hw] at hd; cases hd
      have hc := h.chain hw
      refine ⟨fun h0 => by simp [hi] at h0, t7, t8, fun _ => chained_extend hc, ?_⟩
      refine h.good.snoc ?_
      intro e he _
      cases he
      exact hc

theorem logWith_recover (now : Int) (s : Depacketizer) (l : List Mark) (b : Batch) :
    logWith l (recover now s b).2 = logWith l b := by simp [logWith]

/-- The recovery step of every lossy event. -/
theorem chain_recover {now : Int} {l : List Mark} {s t : Depacketizer} {b : Batch}
    (h : b.overflow = false ∧ ChainInv (logWith l b) s) (h7 : t.sps = s.sps) (h8 : t.pps = s.pps) :
    (recover now t b).2.overflow = false ∧
      ChainInv (logWith l (recover now t b).2) (recover now t b).1 := by
  refine ⟨by simpa using h.1, ?_⟩
  rw [logWith_recover]
  exact h.2.close (by simp) (by simpa using h7) (by simpa using h8)

theorem chain_callInv (now : Int) (l : List Mark) :
    CallInv now fun s b => b.overflow = false ∧ ChainInv (logWith l b) s where
  expire_ahead s b e h _ _ := chain_recover h rfl rfl
  expire_behind s b e h _ _ _ := ⟨h.1, h.2.keep rfl rfl rfl rfl rfl⟩
  place s b e h hi _ _ _ := ⟨h.1, h.2.close (h.2.gate hi) rfl rfl⟩
  turn s b c h hi ht := by
    cases ht with
    | handOn f hf hc =>
      exact ⟨by rw [(handOn_frame now s b f).2.2.2.2]; exact h.1, chain_handOn h.2 hi⟩
    | giveUp f hf hc hl => exact chain_recover h rfl rfl
    | jump e hf he hl => exact chain_recover h rfl rfl
  purge s b e h _ _ _ := ⟨h.1, h.2.keep rfl rfl rfl rfl rfl⟩
  increase s b h := by
    refine ⟨by simpa using h.1, ?_⟩
    have hl : logWith l (increase now s b).2 = logWith l b := by simp [logWith]
    rw [hl]
    exact h.2.keep (by simp) (by simp) (by simp) (by simp) (by simp)
  fresh s b p h _ _ := ⟨h.1, h.2.keep rfl rfl rfl rfl rfl⟩
  store s b p f h _ _ _ _ := ⟨h.1, h.2.keep rfl rfl rfl rfl rfl⟩
  conflict s b p f h _ := chain_recover h rfl rfl
  idle s b h := chain_recover h rfl rfl

/-! ## Runs -/

theorem chain_snoc {ls : List (Call × Batch)} {c : Call} {b : Batch} (hc : c ≠ .reset)
    (ho : b.overflow = false) : log (ls ++ [(c, b)]) = logWith (log ls) b := by
  cases c <;> simp_all [log, marks, logWith]

theorem chain_overflow (now : Int) {ls : List (Call × Batch)} {c : Call} {s : Depacketizer}
    {b : Batch} (hc : c ≠ .reset) (h : ChainInv (logWith (log ls) b) s) :
    ChainInv (log (ls ++ [(c, (overflow now s b).2)])) (overflow now s b).1 := by
  have hl : log (ls ++ [(c, (overflow now s b).2)]) = logWith (log ls) b ++ [.overflow] := by
    cases c <;> simp_all [log, marks, logWith, overflow]
  rw [hl]
  refine ⟨fun _ => by simp [overflow], by simpa [overflow] using h.sps,
    by simpa [overflow] using h.pps, by simp [overflow], ?_⟩
  exact h.good.snoc fun e he _ => by cases he

theorem chain_historical : lts.Historical fun ls s => ChainInv (log ls) s where
  init s hs := by
    cases hs
    exact ⟨fun _ => rfl, fun h => absurd rfl h, fun h => absurd rfl h, fun h => by simp at h,
      eachAfter_nil _⟩
  step ls s l s' h hst := by
    obtain ⟨c, b⟩ := l
    have h0 : ({} : Batch).overflow = false ∧ ChainInv (logWith (log ls) {}) s :=
      ⟨rfl, by simpa [logWith] using h⟩
    cases c with
    | packet p now =>
      simp only [lts, call] at hst
      rcases (chain_callInv now (log ls)).packet p h0 with ⟨ho, hc⟩ | ⟨t, b', ⟨-, hc⟩, heq⟩
      · rw [hst] at ho hc
        rw [chain_snoc (by simp) ho]; exact hc
      · rw [heq] at hst
        have hnr : Call.packet p now ≠ .reset := by simp
        have hov := chain_overflow now hnr hc
        rw [hst] at hov; exact hov
    | tick now =>
      simp only [lts, call] at hst
      obtain ⟨ho, hc⟩ := (chain_callInv now (log ls)).tick h0
      rw [hst] at ho hc
      rw [chain_snoc (by simp) ho]; exact hc
    | reset =>
      simp only [lts, call, Prod.mk.injEq] at hst
      obtain ⟨rfl, rfl⟩ := hst
      have hl : log (ls ++ [(Call.reset, ({} : Batch))]) = log ls ++ [.reset] := by simp [log, marks]
      rw [hl]
      exact ⟨fun _ => rfl, fun h => absurd rfl h, fun h => absurd rfl h, fun h => by simp [reset] at h,
        h.good.snoc fun e he _ => by cases he⟩

/-- **No undecodable access unit.** Whatever is called and whenever, an
emitted unit without an IDR continues, one sequence number at a time, a chain
that a configured IDR began, and nothing dropped or reset the stream since. -/
theorem emitted_decodable (cs : List Call) :
    Decodable (log (cs.zip (run {} cs).2)) ∧
      (∀ e ∈ emitted (run {} cs).2, e.out.data = annexB e.nalus) ∧
      ((run {} cs).1.initialized = false → (run {} cs).1.waiting = true) := by
  have h := chain_historical.reachable rfl (lts_run {} cs)
  refine ⟨h.good, ?_, h.gate⟩
  intro e he
  obtain ⟨_, _, _, _, _, _, _, _, _, hdata, _⟩ := (emitted_sound cs (inv_start 1) e he).output
  exact hdata

end KmVirtualCamera.L2.DcVideo
