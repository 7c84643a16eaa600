import Mathlib
import KmVirtualCamera.L2Machine.DcInvariant

/-!
# The books of the depacketizer

`Small` is what the program points of a call do: a frame is erased, the
cursor is placed or moved, a frame is assembled, a message is sent, a chunk is
stored, everything is dropped. A call is a path of such steps (`call_path`),
so what holds along every path holds inside every call. Erasing is the only
step that takes from `bytes_`, and it never takes more than is there.

`Ended` is how a call that drained can end; `call_ended`. What a drain leaves
is therefore what such a call leaves.

* `accounted`: the counters of every reachable state, and no call ever takes
  more from `bytes_` than it holds.
-/
namespace KmVirtualCamera.L2.DcVideo
open KmVirtualCamera.L1.H264 KmVirtualCamera.L1.DcWire

/-! ## Small steps -/

inductive Small (now : Int) : Depacketizer × Batch → Depacketizer × Batch → Prop
  | erase {s : Depacketizer} {b : Batch} (k : UInt16) (f : Frame) (pending : s.pending.find? k = some f)
      (fits : f.bytes ≤ s.bytes) : Small now (s, b) (erase s k f, b)
  | recover {s : Depacketizer} {b : Batch} : Small now (s, b) (recover now s b)
  | place {s : Depacketizer} {b : Batch} (e : UInt16 × Frame) (unplaced : s.initialized = false)
      (pending : e ∈ s.pending.toList) (complete : e.2.complete) (key : e.2.stableFlags &&& 1 ≠ 0) :
      Small now (s, b) ({ s with expected := e.1, initialized := true }, b)
  | move {s : Depacketizer} {b : Batch} (n : UInt16) (placed : s.initialized = true) :
      Small now (s, b) ({ s with expected := n }, b)
  | refuse {s : Depacketizer} {b : Batch} (f : Frame) (refused : (assemble s f).2 = none) :
      Small now (s, b) ((assemble s f).1, b)
  | emit {s : Depacketizer} {b : Batch} (f : Frame) (nalus : List Bytes) (out : Output)
      (made : (assemble s f).2 = some (nalus, out)) :
      Small now (s, b)
        ({ (assemble s f).1 with frames := (assemble s f).1.frames + 1 },
         { b with frames := b.frames ++ [Emission.mk (assemble s f).1.expected f nalus out] })
  | increase {s : Depacketizer} {b : Batch} : Small now (s, b) (increase now s b)
  | opened {s : Depacketizer} {b : Batch} (p : DcPacket) (new : s.pending.find? p.seq = none)
      (room : s.pending.size < kMaxPendingFrames) : Small now (s, b) (opened now s p, b)
  | stored {s : Depacketizer} {b : Batch} (p : DcPacket) (f : Frame)
      (known : s.pending.find? p.seq = some f) (agrees : f.agrees p)
      (empty : f.chunks.getD p.index.toNat [] = [])
      (room : s.bytes + p.payload.length ≤ kMaxPendingBytes) : Small now (s, b) (stored s p f, b)
  | cleared {s : Depacketizer} {b : Batch} :
      Small now (s, b) ({ s with pending := .empty, bytes := 0, initialized := false },
        { b with overflow := true })

/-- The steps of a call at `now`, from one program point to another. -/
abbrev Path (now : Int) : Depacketizer × Batch → Depacketizer × Batch → Prop :=
  Relation.ReflTransGen (Small now)

/-- Nothing pending holds more than the counter shows. -/
theorem Inv.fits {s : Depacketizer} (h : Inv s) {k : UInt16} {f : Frame}
    (hf : s.pending.find? k = some f) : f.bytes ≤ s.bytes := by
  rw [h.bytes]
  have hm : f.bytes ∈ s.pending.toList.map fun e => e.2.bytes :=
    List.mem_map_of_mem (OrdMap.find?_eq_some.mp hf)
  exact List.single_le_sum (by simp) _ hm

section Steps
variable {now : Int} {c d : Depacketizer × Batch} {s : Depacketizer} {b : Batch}

theorem Path.erase (h : Path now c d) (hi : Inv d.1) {k : UInt16} {f : Frame}
    (hf : d.1.pending.find? k = some f) : Path now c (DcVideo.erase d.1 k f, d.2) :=
  h.tail (.erase k f hf (hi.fits hf))

theorem Path.recover (h : Path now c d) : Path now c (DcVideo.recover now d.1 d.2) := h.tail .recover

theorem Path.move (h : Path now c d) (n : UInt16) (hi : d.1.initialized = true) :
    Path now c ({ d.1 with expected := n }, d.2) :=
  h.tail (.move n hi)

/-- A frame is given up. -/
theorem Path.drop (h : Path now c d) (hi : Inv d.1) {k : UInt16} {f : Frame}
    (hf : d.1.pending.find? k = some f) :
    Path now c (DcVideo.recover now (DcVideo.erase d.1 k f) d.2) :=
  (h.erase hi hf).recover

theorem Path.handOn (h : Path now c (s, b)) (hg : Good s b) (hi : s.initialized = true) {f : Frame}
    (hf : s.pending.find? s.expected = some f) : Path now c (DcVideo.handOn now s b f) := by
  have hinv := hg.1.assemble (hg.1.wf _ (OrdMap.find?_eq_some.mp hf)) hi
  obtain ⟨h1, -, h3, h4⟩ := assemble_frame s f
  have hf' : (DcVideo.assemble s f).1.pending.find? (DcVideo.assemble s f).1.expected = some f := by
    rw [h1, h3, hf]
  have hi' : (DcVideo.assemble s f).1.initialized = true := h4.trans hi
  unfold DcVideo.handOn
  rcases ho : (DcVideo.assemble s f).2 with _ | ⟨ns, out⟩
  · have hr : Path now c (DcVideo.recover now (DcVideo.assemble s f).1 b) :=
      (h.tail (.refuse f ho)).tail .recover
    have he := hr.erase (hinv.recover now b) (k := (DcVideo.assemble s f).1.expected) (f := f)
      (by rw [recover_pending]; exact hf')
    rcases ha : DcVideo.assemble s f with ⟨t, o⟩
    rw [ha] at ho he hi'
    cases ho
    simp only
    rw [recover_expected]
    exact he.move _ (by rw [DcVideo.erase, recover_initialized]; exact hi')
  · have hcount : Inv { (DcVideo.assemble s f).1 with frames := (DcVideo.assemble s f).1.frames + 1 } :=
      ⟨hinv.wf, hinv.bytes, hinv.bytes_le, hinv.size_le, hinv.gate, hinv.sps, hinv.pps⟩
    have hr : Path now c _ := h.tail (.emit f ns out ho)
    have he := hr.erase hcount hf'
    rcases ha : DcVideo.assemble s f with ⟨t, o⟩
    rw [ha] at ho he hi'
    cases ho
    exact he.move _ hi'

end Steps

/-- A call keeps the invariant and is a path so far. -/
theorem path_callInv (now : Int) (c : Depacketizer × Batch) :
    CallInv now fun s b => Good s b ∧ Path now c (s, b) where
  expire_ahead s b e h he hlate :=
    ⟨(good_callInv now).expire_ahead s b e h.1 he hlate, h.2.drop h.1.1 (OrdMap.find?_eq_some.mpr he)⟩
  expire_behind s b e h he hlate hi :=
    ⟨(good_callInv now).expire_behind s b e h.1 he hlate hi,
      h.2.erase h.1.1 (OrdMap.find?_eq_some.mpr he)⟩
  place s b e h hi he hc hk :=
    ⟨(good_callInv now).place s b e h.1 hi he hc hk, h.2.tail (.place e hi he hc hk)⟩
  turn s b c h hi ht := by
    refine ⟨(good_callInv now).turn s b c h.1 hi ht, ?_⟩
    cases ht with
    | handOn f hf hc => exact h.2.handOn h.1 hi hf
    | giveUp f hf hc hl => exact ((h.2.erase h.1.1 hf).move _ hi).recover
    | jump e hf he hl => exact (h.2.move _ hi).recover
  purge s b e h hi he hd :=
    ⟨(good_callInv now).purge s b e h.1 hi he hd, h.2.erase h.1.1 (OrdMap.find?_eq_some.mpr he)⟩
  increase s b h := ⟨(good_callInv now).increase s b h.1, h.2.tail .increase⟩
  fresh s b p h hn hroom := ⟨(good_callInv now).fresh s b p h.1 hn hroom, h.2.tail (.opened p hn hroom)⟩
  store s b p f h hf ha hempty hroom :=
    ⟨(good_callInv now).store s b p f h.1 hf ha hempty hroom, h.2.tail (.stored p f hf ha hempty hroom)⟩
  conflict s b p f h hf := ⟨(good_callInv now).conflict s b p f h.1 hf, h.2.drop h.1.1 hf⟩
  idle s b h := ⟨(good_callInv now).idle s b h.1, h.2.recover⟩

/-- The flag of the batch and the message do not meet. -/
theorem overflow_eq (now : Int) (s : Depacketizer) (b : Batch) :
    overflow now s b = recover now { s with pending := .empty, bytes := 0, initialized := false }
      { b with overflow := true } := by
  unfold overflow recover
  split <;> rfl

/-- The time a call is given. -/
def Call.time : Call → Option Int
  | .packet _ now => some now
  | .tick now => some now
  | .reset => none

/-- **A call is a path of small steps.** -/
theorem call_path {s : Depacketizer} (h : Inv s) {c : Call} {now : Int} (hc : c.time = some now) :
    Path now (s, {}) (call s c) := by
  have h0 : Good s {} ∧ Path now (s, {}) (s, {}) := ⟨⟨h, fun e he => by cases he⟩, .refl⟩
  cases c with
  | packet p t =>
    cases hc
    rcases (path_callInv now (s, {})).packet p h0 with hp | ⟨t, b, hp, heq⟩
    · exact hp.2
    · rw [call, heq, overflow_eq]
      exact (hp.2.tail .cleared).tail .recover
  | tick t =>
    cases hc
    exact ((path_callInv now (s, {})).tick h0).2
  | reset => cases hc

/-! ## What a drain leaves -/

/-- The call gets as far as `drain`. -/
def Call.Drains : Call → Prop
  | .packet p now => 0 ≤ now ∧ parsePacket p ≠ none
  | .tick now => 0 ≤ now
  | .reset => False

/-- How a call that drained can end. -/
inductive Ended (now : Int) : Depacketizer → Prop
  | drained (t : Depacketizer) (b : Batch) : Ended now (drain now t b).1
  | recovered (t : Depacketizer) (b b' : Batch) : Ended now (recover now (drain now t b).1 b').1
  | dropped (t : Depacketizer) (empty : t.pending.toList = []) (unplaced : t.initialized = false) :
      Ended now t

theorem call_ended {s : Depacketizer} {c : Call} {now : Int} (hd : c.Drains) (hc : c.time = some now) :
    Ended now (call s c).1 := by
  cases c with
  | packet p t =>
    cases hc
    obtain ⟨hnow, hp⟩ := hd
    obtain ⟨q, hq⟩ := Option.ne_none_iff_exists'.mp hp
    simp only [call, processPacketAt, hq]
    rw [if_neg (by omega)]
    have ha := accept_cases now s q
    generalize accept now s q = r at ha
    cases ha with
    | stale => exact .drained s {}
    | overflow =>
      refine .dropped _ ?_ ?_
      · simp [overflow, OrdMap.empty]
      · simp [overflow]
    | fresh => exact .drained _ _
    | store => exact .drained _ _
    | duplicate => exact .drained _ _
    | conflict => exact .drained _ _
  | tick t =>
    cases hc
    simp only [call, onTimerTickAt]
    rw [if_neg (by simp only [Call.Drains] at hd; omega)]
    split
    · exact .recovered s {} _
    · exact .drained s {}
  | reset => exact hd.elim

/-- A call that does not drain changes nothing. -/
theorem call_refused {s : Depacketizer} {c : Call} (hd : ¬ c.Drains) (hc : c ≠ .reset) :
    call s c = (s, {}) := by
  cases c with
  | packet p t =>
    simp only [call, processPacketAt]
    split
    · rfl
    split
    · rfl
    · rename_i hnow _ q hq
      exact absurd ⟨by omega, by simp [hq]⟩ hd
  | tick t =>
    simp only [call, onTimerTickAt]
    split
    · rfl
    · rename_i hnow
      exact absurd (by simp only [Call.Drains]; omega) hd
  | reset => exact absurd rfl hc

theorem mem_purge {s : Depacketizer} {e : UInt16 × Frame} :
    e ∈ (purge s).pending.toList ↔ e ∈ s.pending.toList ∧ 0 ≤ delta e.1 s.expected := by
  have key : ∀ (l : List (UInt16 × Frame)) (t : Depacketizer),
      e ∈ (l.foldl (fun s e => if delta e.1 s.expected < 0 then erase s e.1 e.2 else s) t).pending.toList ↔
        e ∈ t.pending.toList ∧ ∀ a ∈ l, delta a.1 t.expected < 0 → e.1 ≠ a.1 := by
    intro l
    induction l with
    | nil => simp
    | cons a l ih =>
      intro t
      rw [List.foldl_cons, ih]
      split
      · rename_i hd
        have hm : e ∈ (erase t a.1 a.2).pending.toList ↔ e ∈ t.pending.toList ∧ e.1 ≠ a.1 :=
          OrdMap.mem_erase
        rw [hm]
        simp only [erase, List.forall_mem_cons, hd, true_imp_iff]
        exact and_assoc
      · rename_i hd
        simp only [List.forall_mem_cons, hd, false_imp_iff, true_and]
  rw [purge, key]
  refine and_congr_right fun he => ⟨?_, ?_⟩
  · intro h
    by_contra hd
    exact h e he (by omega) rfl
  · intro h a ha hd heq
    rw [heq] at h
    omega

/-- Nothing behind the cursor is pending after a drain. -/
theorem drain_ahead (now : Int) (s : Depacketizer) (b : Batch) (hi : (drain now s b).1.initialized = true) :
    ∀ e ∈ (drain now s b).1.pending.toList, 0 ≤ delta e.1 (drain now s b).1.expected := by
  unfold drain at hi ⊢
  simp only at hi ⊢
  split at hi
  · rename_i hno
    have hplaced : (expire now s b).1.initialized = false := by
      unfold place at hno
      split at hno
      · cases hno
      · rename_i h; simpa using h
    rw [hplaced] at hi
    cases hi
  · unfold advance
    simp only [increase_pending, increase_expected]
    intro e he
    rw [(purge_frame _).2.1]
    exact (mem_purge.mp he).2

/-! ## The books -/

/-- The cursor never passes a pending frame. -/
def CursorBehind (s : Depacketizer) : Prop :=
  s.initialized = true → ∀ e ∈ s.pending.toList, 0 ≤ delta e.1 s.expected

/-- The counters agree with what is pending, the bounds are respected, and
nothing pending is behind a placed cursor. -/
structure Accounted (s : Depacketizer) : Prop where
  counter : s.bytes = (s.pending.toList.map fun e => e.2.bytes).sum
  chunks : ∀ e ∈ s.pending.toList, e.2.bytes = (e.2.chunks.map List.length).sum
  slots : ∀ e ∈ s.pending.toList, e.2.chunks.length = e.2.count.toNat ∧ 1 ≤ e.2.count.toNat
  received : ∀ e ∈ s.pending.toList, e.2.received = e.2.chunks.countP (· ≠ [])
  limits : s.pending.size ≤ 32 ∧ s.bytes ≤ 2 * 1024 * 1024
  ahead : CursorBehind s

theorem Ended.cursorBehind {now : Int} {s : Depacketizer} (h : Ended now s) : CursorBehind s := by
  cases h with
  | drained t b => exact fun hi => drain_ahead now t b hi
  | recovered t b b' =>
    intro hi
    rw [recover_initialized] at hi
    rw [recover_pending, recover_expected]
    exact drain_ahead now t b hi
  | dropped _ empty unplaced =>
    intro hi
    rw [unplaced] at hi
    cases hi

theorem cursorBehind_inductive : lts.Inductive CursorBehind where
  init s hs := by
    subst hs
    intro hi
    cases hi
  step s l s' h hs := by
    obtain ⟨c, b⟩ := l
    have hs' : (call s c).1 = s' := by rw [hs]
    by_cases hr : c = .reset
    · subst hr
      rw [← hs']
      intro hi
      cases hi
    by_cases hd : c.Drains
    · obtain ⟨now, hnow⟩ : ∃ now, c.time = some now := by
        cases c with
        | reset => exact hd.elim
        | _ => exact ⟨_, rfl⟩
      rw [← hs']
      exact (call_ended hd hnow).cursorBehind
    · rw [← hs', call_refused hd hr]
      exact h

/-- The first of two packets of a keyframe. -/
def firstHalf : Bytes := [0x4d, 0x4b, 5, 1, 0, 2, 0, 0, 0, 0, 0, 0, 0x65]

/-- The only packet of the unit after it. -/
def nextUnit : Bytes := [0x4d, 0x4b, 12, 1, 0, 1, 1, 0, 0, 0, 0, 0, 0, 0, 1, 0x41]

end KmVirtualCamera.L2.DcVideo
