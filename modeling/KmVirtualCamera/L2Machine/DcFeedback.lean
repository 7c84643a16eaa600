import Mathlib
import KmVirtualCamera.L2Machine.DcTimely

/-!
# The feedback of the depacketizer

Two things change the bitrate estimate: `recover` lowers it and sends a PLI
and the new value, `increase` raises it and sends the new value. `Trail` is a
call's path of small steps with the changes on it, so a change stands at a
program point; `readChanges` reads the same changes back from what the control
callback got. `Paced` judges a change by those before it, `RateTracks` says how
the fields of the state follow the changes.

* `feedback_paced`: the estimate, the spacing of the PLIs and of the increases over
  every run without a reset, and the longest gap between PLIs while the
  depacketizer waits and is ticked.
-/
namespace KmVirtualCamera.L2.DcVideo
open KmVirtualCamera.L1.H264 KmVirtualCamera.L1.DcWire

/-! ## The estimate -/

/-- The range of the estimate. -/
def InRateRange (bitrate : UInt32) : Prop := 2000000 ≤ bitrate.toNat ∧ bitrate.toNat ≤ 8000000

/-- mirrors shared/receiver/codec/dc_video_depacketizer.cpp:44 -/
def lowered (bitrate : UInt32) : UInt32 := max 2000000 (bitrate * 85 / 100)

/-- mirrors shared/receiver/codec/dc_video_depacketizer.cpp:171 -/
def raised (bitrate : UInt32) : UInt32 := min 8000000 (bitrate + 300000)

theorem toNat_max (a b : UInt32) : (max a b).toNat = max a.toNat b.toNat := by
  show (if a ≤ b then b else a).toNat = _
  rw [max_def]
  simp only [UInt32.le_iff_toNat_le]
  split <;> rfl

theorem toNat_min (a b : UInt32) : (min a b).toNat = min a.toNat b.toNat := by
  show (if a ≤ b then a else b).toNat = _
  rw [min_def]
  simp only [UInt32.le_iff_toNat_le]
  split <;> rfl

/-- The product stays below 2^32, so the machine computes it exactly. -/
theorem lowered_toNat {bitrate : UInt32} (h : InRateRange bitrate) :
    bitrate.toNat * 85 < 2 ^ 32 ∧ (lowered bitrate).toNat = max 2000000 (bitrate.toNat * 85 / 100) := by
  have hlt : bitrate.toNat * 85 < 2 ^ 32 := by
    have := h.2
    omega
  refine ⟨hlt, ?_⟩
  unfold lowered
  rw [toNat_max, UInt32.toNat_div, UInt32.toNat_mul]
  show max 2000000 (bitrate.toNat * 85 % 2 ^ 32 / 100) = _
  rw [Nat.mod_eq_of_lt hlt]

theorem raised_toNat {bitrate : UInt32} (h : InRateRange bitrate) :
    (raised bitrate).toNat = min 8000000 (bitrate.toNat + 300000) := by
  have hlt : bitrate.toNat + 300000 < 2 ^ 32 := by
    have := h.2
    omega
  unfold raised
  rw [toNat_min, UInt32.toNat_add]
  show min 8000000 ((bitrate.toNat + 300000) % 2 ^ 32) = _
  rw [Nat.mod_eq_of_lt hlt]

theorem lowered_inRange {bitrate : UInt32} (h : InRateRange bitrate) :
    InRateRange (lowered bitrate) ∧ (lowered bitrate).toNat ≤ bitrate.toNat := by
  obtain ⟨-, hl⟩ := lowered_toNat h
  obtain ⟨h1, h2⟩ := h
  unfold InRateRange
  rw [hl]
  omega

theorem raised_inRange {bitrate : UInt32} (h : InRateRange bitrate) :
    InRateRange (raised bitrate) ∧ (raised bitrate).toNat ≤ bitrate.toNat + 300000 := by
  have hr := raised_toNat h
  obtain ⟨h1, h2⟩ := h
  unfold InRateRange
  rw [hr]
  omega

/-! ## Changes -/

/-- One change of the estimate. -/
structure RateChange where
  now : Int
  decrease : Bool
  before : UInt32
  after : UInt32
  deriving DecidableEq

/-- What the control callback gets for it. -/
def RateChange.messages (x : RateChange) : List Control :=
  if x.decrease then [.pli, .bitrate x.after] else [.bitrate x.after]

/-- The changes in what the control callback got. -/
def readChanges (now : Int) : UInt32 → List Control → List RateChange
  | bitrate, .pli :: .bitrate v :: cs => ⟨now, true, bitrate, v⟩ :: readChanges now v cs
  | bitrate, .bitrate v :: cs => ⟨now, false, bitrate, v⟩ :: readChanges now v cs
  | bitrate, .pli :: cs => readChanges now bitrate cs
  | _, [] => []

/-- A path of small steps, with the changes of the estimate on it. -/
inductive Trail (now : Int) (c : Depacketizer × Batch) : List RateChange → Depacketizer × Batch → Prop
  | nil : Trail now c [] c
  | quiet {xs : List RateChange} {d d' : Depacketizer × Batch} (h : Trail now c xs d) (step : Small now d d')
      (estimate : d'.1.bitrate = d.1.bitrate) (messages : d'.2.controls = d.2.controls)
      (pli : d'.1.lastPli = d.1.lastPli)
      (since : d'.1.lastIncrease = d.1.lastIncrease ∨ d.1.lastIncrease < 0 ∧ d'.1.lastIncrease = now) :
      Trail now c xs d'
  | decrease {xs : List RateChange} {d : Depacketizer × Batch} (h : Trail now c xs d)
      (due : d.1.lastPli < 0 ∨ now - d.1.lastPli ≥ 50000) :
      Trail now c (xs ++ [⟨now, true, d.1.bitrate, lowered d.1.bitrate⟩]) (recover now d.1 d.2)
  | increase {xs : List RateChange} {d : Depacketizer × Batch} (h : Trail now c xs d)
      (open_gate : d.1.waiting = false) (emitted : d.2.frames ≠ []) (placed : 0 ≤ d.1.lastIncrease)
      (due : now - d.1.lastIncrease ≥ 2000000) :
      Trail now c (xs ++ [⟨now, false, d.1.bitrate, raised d.1.bitrate⟩]) (increase now d.1 d.2)

/-- The step leaves the feedback alone. -/
theorem Trail.still {now : Int} {c d d' : Depacketizer × Batch} {xs : List RateChange} (h : Trail now c xs d)
    (step : Small now d d') (hb : d'.1.bitrate = d.1.bitrate) (hc : d'.2.controls = d.2.controls)
    (hp : d'.1.lastPli = d.1.lastPli) (hi : d'.1.lastIncrease = d.1.lastIncrease) : Trail now c xs d' :=
  h.quiet step hb hc hp (.inl hi)

/-- `assemble` leaves the feedback alone. -/
theorem assemble_feedback (s : Depacketizer) (f : Frame) :
    (assemble s f).1.bitrate = s.bitrate ∧ (assemble s f).1.lastPli = s.lastPli ∧
      (assemble s f).1.lastIncrease = s.lastIncrease := by
  have h := assemble_cases s f
  generalize assemble s f = r at h
  cases h with
  | refused => exact ⟨rfl, rfl, rfl⟩
  | output => exact ⟨rfl, rfl, rfl⟩

theorem Trail.recover {now : Int} {c d : Depacketizer × Batch} {xs : List RateChange} (h : Trail now c xs d) :
    ∃ ys, Trail now c ys (recover now d.1 d.2) := by
  by_cases hdue : d.1.lastPli < 0 ∨ now - d.1.lastPli ≥ 50000
  · exact ⟨_, h.decrease hdue⟩
  · have heq : DcVideo.recover now d.1 d.2 = ({ d.1 with waiting := true }, d.2) := by
      unfold DcVideo.recover
      rw [if_neg hdue]
    refine ⟨xs, h.still .recover ?_ ?_ ?_ ?_⟩ <;> rw [heq]

theorem Trail.raise {now : Int} {c d : Depacketizer × Batch} {xs : List RateChange} (h : Trail now c xs d) :
    ∃ ys, Trail now c ys (DcVideo.increase now d.1 d.2) := by
  by_cases ho : d.1.waiting = false ∧ d.2.frames ≠ []
  · by_cases hn : d.1.lastIncrease < 0
    · have heq : DcVideo.increase now d.1 d.2 = ({ d.1 with lastIncrease := now }, d.2) := by
        unfold DcVideo.increase
        rw [if_pos ho, if_pos hn]
      refine ⟨xs, h.quiet .increase ?_ ?_ ?_ (.inr ⟨hn, ?_⟩)⟩ <;> rw [heq]
    · by_cases hdue : now - d.1.lastIncrease ≥ 2000000
      · exact ⟨_, h.increase ho.1 ho.2 (by omega) hdue⟩
      · have heq : DcVideo.increase now d.1 d.2 = d := by
          unfold DcVideo.increase
          rw [if_pos ho, if_neg hn, if_neg hdue]
        rw [heq]
        exact ⟨xs, h⟩
  · have heq : DcVideo.increase now d.1 d.2 = d := by
      unfold DcVideo.increase
      rw [if_neg ho]
    rw [heq]
    exact ⟨xs, h⟩

/-- **A call's path, with the changes on it.** -/
theorem trail_of_path {now : Int} {c d : Depacketizer × Batch} (h : Path now c d) :
    ∃ xs, Trail now c xs d := by
  induction h with
  | refl => exact ⟨[], .nil⟩
  | tail _ step ih =>
    obtain ⟨xs, ht⟩ := ih
    cases step with
    | recover => exact ht.recover
    | increase => exact ht.raise
    | refuse f refused =>
      obtain ⟨h1, h2, h3⟩ := assemble_feedback _ f
      exact ⟨xs, ht.still (.refuse f refused) h1 rfl h2 h3⟩
    | emit f nalus out made =>
      obtain ⟨h1, h2, h3⟩ := assemble_feedback _ f
      exact ⟨xs, ht.still (.emit f nalus out made) h1 rfl h2 h3⟩
    | erase k f pending fits => exact ⟨xs, ht.still (.erase k f pending fits) rfl rfl rfl rfl⟩
    | place e unplaced pending complete key =>
      exact ⟨xs, ht.still (.place e unplaced pending complete key) rfl rfl rfl rfl⟩
    | move n placed => exact ⟨xs, ht.still (.move n placed) rfl rfl rfl rfl⟩
    | opened p new room => exact ⟨xs, ht.still (.opened p new room) rfl rfl rfl rfl⟩
    | stored p f known agrees empty room =>
      exact ⟨xs, ht.still (.stored p f known agrees empty room) rfl rfl rfl rfl⟩
    | cleared => exact ⟨xs, ht.still .cleared rfl rfl rfl rfl⟩

theorem recover_due {now : Int} {s : Depacketizer} {b : Batch}
    (due : s.lastPli < 0 ∨ now - s.lastPli ≥ 50000) :
    recover now s b = ({ s with waiting := true, lastPli := now, lastIncrease := now,
                                bitrate := lowered s.bitrate },
      { b with controls := b.controls ++ [.pli, .bitrate (lowered s.bitrate)] }) := by
  unfold recover
  rw [if_pos due]
  rfl

theorem increase_due {now : Int} {s : Depacketizer} {b : Batch} (open_gate : s.waiting = false)
    (emitted : b.frames ≠ []) (placed : 0 ≤ s.lastIncrease) (due : now - s.lastIncrease ≥ 2000000) :
    increase now s b = ({ s with bitrate := raised s.bitrate, lastIncrease := now },
      { b with controls := b.controls ++ [.bitrate (raised s.bitrate)] }) := by
  unfold increase
  rw [if_pos ⟨open_gate, emitted⟩, if_neg (by omega), if_pos due]
  rfl

/-- What the callback gets is the messages of the changes, in order. -/
theorem Trail.controls {now : Int} {c d : Depacketizer × Batch} {xs : List RateChange} (h : Trail now c xs d) :
    d.2.controls = c.2.controls ++ xs.flatMap RateChange.messages := by
  induction h with
  | nil => simp
  | quiet _ _ _ messages _ _ ih => rw [messages, ih]
  | decrease _ due ih =>
    rw [recover_due due]
    simp only [ih, List.flatMap_append, List.append_assoc]
    rfl
  | increase _ open_gate emitted placed due ih =>
    rw [increase_due open_gate emitted placed due]
    simp only [ih, List.flatMap_append, List.append_assoc]
    rfl

/-- The messages say what the changes were. -/
theorem Trail.read {now : Int} {c d : Depacketizer × Batch} {xs : List RateChange} (h : Trail now c xs d) :
    ∀ rest, readChanges now c.1.bitrate (xs.flatMap RateChange.messages ++ rest) =
      xs ++ readChanges now d.1.bitrate rest := by
  induction h with
  | nil => exact fun _ => rfl
  | quiet _ _ estimate _ _ _ ih =>
    intro rest
    rw [ih, estimate]
  | decrease _ due ih =>
    intro rest
    rw [recover_due due, List.flatMap_append, List.append_assoc, ih, List.append_assoc]
    rfl
  | increase _ open_gate emitted placed due ih =>
    intro rest
    rw [increase_due open_gate emitted placed due, List.flatMap_append, List.append_assoc, ih,
      List.append_assoc]
    rfl

/-! ## What is allowed after what -/

/-- The estimate some changes lead to. -/
def estimate (log : List RateChange) : UInt32 := (log.getLast?.map RateChange.after).getD 3000000

theorem estimate_snoc (log : List RateChange) (x : RateChange) : estimate (log ++ [x]) = x.after := by
  simp [estimate]

structure Paced (pre : List RateChange) (x : RateChange) : Prop where
  before : x.before = estimate pre
  range : InRateRange x.after
  /-- A decrease is computed without overflow and 50 ms after the one before it. -/
  lower : x.decrease = true → x.before.toNat * 85 < 2 ^ 32 ∧
    x.after.toNat = max 2000000 (x.before.toNat * 85 / 100) ∧ x.after.toNat ≤ x.before.toNat ∧
    ∀ y ∈ pre, y.decrease = true → x.now - y.now ≥ 50000
  /-- An increase is bounded and 2 s after the change before it. -/
  raise : x.decrease = false → x.after.toNat ≤ x.before.toNat + 300000 ∧
    ∀ y ∈ pre, x.now - y.now ≥ 2000000

/-- How the state follows the changes. -/
structure RateTracks (log : List RateChange) (s : Depacketizer) : Prop where
  estimate : s.bitrate = estimate log
  range : InRateRange s.bitrate
  nonneg : ∀ x ∈ log, 0 ≤ x.now
  pli : ∀ x ∈ log, x.decrease = true → x.now ≤ s.lastPli
  sent : 0 ≤ s.lastPli → ∃ x ∈ log, x.decrease = true ∧ x.now = s.lastPli
  since : ∀ x ∈ log, x.now ≤ s.lastIncrease

/-- The changes so far, all of them up to `now`. -/
structure RateLog (now : Int) (log : List RateChange) (s : Depacketizer) : Prop extends RateTracks log s where
  allowed : EachAfter Paced log
  past : ∀ x ∈ log, x.now ≤ now

theorem forall_mem_snoc {α : Type*} {P : α → Prop} {l : List α} {x : α} (h : ∀ y ∈ l, P y) (hx : P x) :
    ∀ y ∈ l ++ [x], P y := by
  intro y hy
  rcases List.mem_append.mp hy with hy | hy
  · exact h y hy
  · rw [List.mem_singleton.mp hy]
    exact hx

section Step
variable {now : Int} {log : List RateChange} {s : Depacketizer} {b : Batch}

theorem RateLog.decrease (h : RateLog now log s) (h0 : 0 ≤ now) (due : s.lastPli < 0 ∨ now - s.lastPli ≥ 50000) :
    RateLog now (log ++ [⟨now, true, s.bitrate, lowered s.bitrate⟩]) (recover now s b).1 := by
  obtain ⟨hlow, hle⟩ := lowered_inRange h.range
  obtain ⟨hfit, hval⟩ := lowered_toNat h.range
  rw [recover_due due]
  exact {
    estimate := by rw [estimate_snoc]
    range := hlow
    nonneg := forall_mem_snoc h.nonneg h0
    pli := forall_mem_snoc (fun y hy _ => h.past y hy) fun _ => le_refl now
    sent := fun _ => ⟨_, List.mem_append_right _ (List.mem_singleton_self _), rfl, rfl⟩
    since := forall_mem_snoc h.past (le_refl now)
    past := forall_mem_snoc h.past (le_refl now)
    allowed := by
      refine h.allowed.snoc ⟨h.estimate, hlow, fun _ => ⟨hfit, hval, hle, ?_⟩, fun hd => by cases hd⟩
      intro y hy hd
      have h1 := h.nonneg y hy
      have h2 := h.pli y hy hd
      simp only
      omega }

theorem RateLog.increase (h : RateLog now log s) (h0 : 0 ≤ now) (open_gate : s.waiting = false)
    (emitted : b.frames ≠ []) (placed : 0 ≤ s.lastIncrease) (due : now - s.lastIncrease ≥ 2000000) :
    RateLog now (log ++ [⟨now, false, s.bitrate, raised s.bitrate⟩]) (increase now s b).1 := by
  obtain ⟨hraise, hle⟩ := raised_inRange h.range
  rw [increase_due open_gate emitted placed due]
  exact {
    estimate := by rw [estimate_snoc]
    range := hraise
    nonneg := forall_mem_snoc h.nonneg h0
    pli := forall_mem_snoc h.pli fun hd => by cases hd
    sent := by
      intro hp
      obtain ⟨x, hx, hd, hn⟩ := h.sent hp
      exact ⟨x, List.mem_append_left _ hx, hd, hn⟩
    since := forall_mem_snoc h.past (le_refl now)
    past := forall_mem_snoc h.past (le_refl now)
    allowed := by
      refine h.allowed.snoc ⟨h.estimate, hraise, fun hd => (by cases hd), fun _ => ⟨hle, fun y hy => ?_⟩⟩
      have := h.since y hy
      simp only
      omega }

theorem RateLog.quiet (h : RateLog now log s) {s' : Depacketizer} (hb : s'.bitrate = s.bitrate)
    (hp : s'.lastPli = s.lastPli)
    (hi : s'.lastIncrease = s.lastIncrease ∨ s.lastIncrease < 0 ∧ s'.lastIncrease = now) :
    RateLog now log s' := by
  refine ⟨⟨hb.trans h.estimate, by rw [hb]; exact h.range, h.nonneg, by rw [hp]; exact h.pli,
    by rw [hp]; exact h.sent, fun x hx => ?_⟩, h.allowed, h.past⟩
  rcases hi with hi | ⟨-, hi⟩ <;> rw [hi]
  · exact h.since x hx
  · exact h.past x hx

end Step

/-- **The changes of a call.** -/
theorem RateLog.trail {now : Int} {log : List RateChange} {c d : Depacketizer × Batch} {xs : List RateChange}
    (h : RateLog now log c.1) (h0 : 0 ≤ now) (ht : Trail now c xs d) : RateLog now (log ++ xs) d.1 := by
  induction ht with
  | nil => simpa using h
  | quiet _ _ estimate _ pli since ih => exact ih.quiet estimate pli since
  | decrease _ due ih =>
    rw [← List.append_assoc]
    exact ih.decrease h0 due
  | increase _ open_gate emitted placed due ih =>
    rw [← List.append_assoc]
    exact ih.increase h0 open_gate emitted placed due

/-! ## Runs -/

/-- The changes of a run, read from what the control callback got. -/
def changes : Depacketizer → List Call → List RateChange
  | _, [] => []
  | s, c :: cs =>
    readChanges (c.time.getD 0) s.bitrate (call s c).2.controls ++ changes (call s c).1 cs

theorem changes_append : ∀ (s : Depacketizer) (cs ds : List Call),
    changes s (cs ++ ds) = changes s cs ++ changes (run s cs).1 ds
  | _, [], _ => rfl
  | s, c :: cs, ds => by
    simp only [List.cons_append, changes, changes_append _ cs ds, List.append_assoc]
    rfl

/-- One call: its changes, on its path and in its messages. -/
theorem call_trail {s : Depacketizer} (h : Inv s) {c : Call} {now : Int} (hc : c.time = some now) :
    ∃ xs, Trail now (s, {}) xs (call s c) ∧ (call s c).2.controls = xs.flatMap RateChange.messages ∧
      readChanges now s.bitrate (call s c).2.controls = xs := by
  obtain ⟨xs, ht⟩ := trail_of_path (call_path h hc)
  have hctl : (call s c).2.controls = xs.flatMap RateChange.messages := ht.controls
  refine ⟨xs, ht, hctl, ?_⟩
  have hr := ht.read []
  rw [List.append_nil] at hr
  rw [hctl, hr]
  simp [readChanges]

theorem RateLog.at {t now : Int} {log : List RateChange} {s : Depacketizer} (h : RateLog t log s)
    (hp : ∀ x ∈ log, x.now ≤ now) : RateLog now log s :=
  ⟨h.toRateTracks, h.allowed, hp⟩

theorem log_call {s : Depacketizer} (h : Inv s) {c : Call} {now : Int} {log : List RateChange}
    (hl : RateLog now log s) (hc : c.time = some now) :
    RateLog now (log ++ readChanges (c.time.getD 0) s.bitrate (call s c).2.controls) (call s c).1 := by
  by_cases hd : c.Drains
  · obtain ⟨xs, ht, -, hread⟩ := call_trail h hc
    have h0 : 0 ≤ now := by
      cases c with
      | packet p t =>
        cases hc
        exact hd.1
      | tick t =>
        cases hc
        exact hd
      | reset => cases hc
    rw [hc, Option.getD_some, hread]
    exact hl.trail h0 ht
  · rw [call_refused hd (by rintro rfl; cases hc)]
    simpa [readChanges] using hl

theorem time_of_ne_reset {c : Call} (h : c ≠ .reset) : ∃ now, c.time = some now := by
  cases c with
  | reset => exact absurd rfl h
  | _ => exact ⟨_, rfl⟩

theorem Nondecreasing.append_left {cs ds : List Call} (h : Nondecreasing (cs ++ ds)) :
    Nondecreasing cs := by
  unfold Nondecreasing at h ⊢
  rw [List.filterMap_append] at h
  exact (List.pairwise_append.mp h).1

theorem Nondecreasing.append_right {cs ds : List Call} (h : Nondecreasing (cs ++ ds)) :
    Nondecreasing ds := by
  unfold Nondecreasing at h ⊢
  rw [List.filterMap_append] at h
  exact (List.pairwise_append.mp h).2.1

/-- A call earlier in the run is given an earlier time. -/
theorem Nondecreasing.le_of_head {pre post : List Call} {c d : Call} {u t : Int}
    (h : Nondecreasing (pre ++ c :: post)) (hc : c.time = some u) (hd : d ∈ pre) (ht : d.time = some t) :
    t ≤ u := by
  unfold Nondecreasing at h
  rw [List.filterMap_append, List.filterMap_cons_some hc] at h
  obtain ⟨-, -, h⟩ := List.pairwise_append.mp h
  exact h t (List.mem_filterMap.mpr ⟨d, hd, ht⟩) u (List.mem_cons_self ..)

/-- **The changes of a run**, all of them up to the time `w`. -/
theorem log_run {w : Int} : ∀ (cs : List Call) {s : Depacketizer} {log : List RateChange} {t : Int}, Inv s →
    RateLog t log s → (∀ c ∈ cs, c ≠ .reset) → Nondecreasing cs →
    (∀ x ∈ log, ∀ c ∈ cs, ∀ t', c.time = some t' → x.now ≤ t') → (∀ x ∈ log, x.now ≤ w) →
    (∀ c ∈ cs, ∀ t', c.time = some t' → t' ≤ w) → RateLog w (log ++ changes s cs) (run s cs).1
  | [], s, log, t, _, hl, _, _, _, hw, _ => by
    rw [changes, List.append_nil]
    exact hl.at hw
  | c :: cs, s, log, t, hi, hl, hr, hm, hlog, hw, hcs => by
    have hc := List.mem_cons_self (a := c) (l := cs)
    obtain ⟨now, hnow⟩ := time_of_ne_reset (hr c hc)
    have hstep := log_call hi (hl.at fun x hx => hlog x hx c hc now hnow) hnow
    have hm' : Nondecreasing ([] ++ c :: cs) := hm
    have hsuffix : Nondecreasing ([c] ++ cs) := hm
    have hrest := log_run cs (good_call hi c).1 hstep (fun d hd => hr d (List.mem_cons_of_mem _ hd))
      hsuffix.append_right
      (fun x hx d hd t' ht' => (hstep.past x hx).trans (hm'.le_of_tail hnow hd ht'))
      (fun x hx => (hstep.past x hx).trans (hcs c hc now hnow))
      (fun d hd => hcs d (List.mem_cons_of_mem _ hd))
    rw [changes, ← List.append_assoc]
    exact hrest

theorem log_start (g : UInt64) : RateLog 0 [] { generation := g } where
  estimate := rfl
  range := by
    show 2000000 ≤ (3000000 : UInt32).toNat ∧ (3000000 : UInt32).toNat ≤ 8000000
    decide
  nonneg _ h := by cases h
  pli _ h := by cases h
  sent h := absurd h (by show ¬ (0 : Int) ≤ -1; decide)
  since _ h := by cases h
  allowed := eachAfter_nil _
  past _ h := by cases h

theorem exists_bound (cs : List Call) : ∃ w, ∀ c ∈ cs, ∀ t, c.time = some t → t ≤ w := by
  induction cs with
  | nil => exact ⟨0, by simp⟩
  | cons c cs ih =>
    obtain ⟨w, hw⟩ := ih
    refine ⟨max w (c.time.getD 0), ?_⟩
    intro d hd t ht
    rcases List.mem_cons.mp hd with rfl | hd
    · rw [ht]
      exact le_max_right _ _
    · exact (hw d hd t ht).trans (le_max_left _ _)

/-- A tick that leaves the depacketizer waiting is less than 50 ms after a PLI. -/
theorem tick_pli {s : Depacketizer} {u : Int} (hu : 0 ≤ u) (hw : (call s (.tick u)).1.waiting = true) :
    0 ≤ (call s (.tick u)).1.lastPli ∧ u - (call s (.tick u)).1.lastPli < 50000 := by
  simp only [call, onTimerTickAt] at hw ⊢
  rw [if_neg (by omega)] at hw ⊢
  split
  · generalize drain u s {} = d
    by_cases hdue : d.1.lastPli < 0 ∨ u - d.1.lastPli ≥ 50000
    · rw [recover_due hdue]
      exact ⟨hu, by simp⟩
    · unfold recover
      rw [if_neg hdue]
      simp only
      omega
  · rename_i hopen
    rw [if_neg hopen] at hw
    exact absurd hw hopen

/-- What a depacketizer that was just reset has become. -/
abbrev after (g : UInt64) (cs : List Call) : Depacketizer := (run { generation := g } cs).1

/-- What the control callback of a depacketizer that was just reset gets. -/
structure Feedback (g : UInt64) (cs : List Call) : Prop where
  range : InRateRange (after g cs).bitrate
  fits : (after g cs).bitrate.toNat * 85 < 2 ^ 32
  estimate : (after g cs).bitrate = estimate (changes { generation := g } cs)
  allowed : EachAfter Paced (changes { generation := g } cs)
  /-- The messages of a call are those of the changes on its path. -/
  messages : ∀ pre c post now, cs = pre ++ c :: post → c.time = some now →
    ∃ xs, Trail now (after g pre, {}) xs (call (after g pre) c) ∧
      (call (after g pre) c).2.controls = xs.flatMap RateChange.messages ∧
      changes { generation := g } (pre ++ [c]) = changes { generation := g } pre ++ xs
  /-- Whenever a tick leaves the depacketizer waiting, a PLI was just sent. -/
  ticked : ∀ pre u post, cs = pre ++ .tick u :: post → 0 ≤ u →
    (after g (pre ++ [.tick u])).waiting = true →
    ∃ x ∈ changes { generation := g } (pre ++ [.tick u]), x.decrease = true ∧ x.now ≤ u ∧ u - x.now < 50000
  /-- `p` is the time of the last PLI, every tick since then has left the
  depacketizer waiting, and there was one at most `h` before `T`. -/
  gap : ∀ p u T h, (∃ x ∈ changes { generation := g } cs, x.decrease = true ∧ x.now = p) →
    (∀ x ∈ changes { generation := g } cs, x.decrease = true → x.now ≤ p) →
    (∀ pre v post, cs = pre ++ .tick v :: post → p ≤ v → (after g (pre ++ [.tick v])).waiting = true) →
    .tick u ∈ cs → T ≤ u + h → T - p < 50000 + h

section Run
variable {g : UInt64} {cs : List Call}

theorem inv_after (g : UInt64) (cs : List Call) : Inv (after g cs) :=
  inv_inductive.run (lts_run { generation := g } cs) (inv_start g)

theorem log_after {w : Int} (hmono : Nondecreasing cs) (hreset : ∀ c ∈ cs, c ≠ .reset)
    (hw : ∀ c ∈ cs, ∀ t, c.time = some t → t ≤ w) :
    RateLog w (changes { generation := g } cs) (after g cs) := by
  have h := log_run cs (inv_start g) (log_start g) hreset hmono (fun _ hx => by cases hx)
    (fun _ hx => by cases hx) hw
  simpa using h

theorem after_snoc (g : UInt64) (pre : List Call) (c : Call) :
    after g (pre ++ [c]) = (call (after g pre) c).1 := run_append _ _ _

theorem after_ticked (hmono : Nondecreasing cs) (hreset : ∀ c ∈ cs, c ≠ .reset) {pre post : List Call}
    {u : Int} (hcs : cs = pre ++ .tick u :: post) (hu : 0 ≤ u)
    (hw : (after g (pre ++ [.tick u])).waiting = true) :
    ∃ x ∈ changes { generation := g } (pre ++ [.tick u]), x.decrease = true ∧ x.now ≤ u ∧
      u - x.now < 50000 := by
  subst hcs
  have hsplit : pre ++ .tick u :: post = (pre ++ [.tick u]) ++ post := by simp
  have hl : RateLog u (changes { generation := g } (pre ++ [.tick u])) (after g (pre ++ [.tick u])) := by
    refine log_after ?_ (fun c hc => hreset c ?_) ?_
    · rw [hsplit] at hmono
      exact hmono.append_left
    · rw [hsplit]
      exact List.mem_append_left _ hc
    · intro c hc t ht
      rcases List.mem_append.mp hc with hc | hc
      · exact hmono.le_of_head rfl hc ht
      · rw [List.mem_singleton.mp hc] at ht
        cases ht
        exact le_refl _
  rw [after_snoc] at hw hl
  obtain ⟨h0, hlt⟩ := tick_pli hu hw
  obtain ⟨x, hx, hd, hn⟩ := hl.sent h0
  exact ⟨x, hx, hd, hl.past x hx, by omega⟩

/-- **The feedback between two resets.** -/
theorem feedback_paced (g : UInt64) (hmono : Nondecreasing cs) (hreset : ∀ c ∈ cs, c ≠ .reset) :
    Feedback g cs := by
  obtain ⟨w, hw⟩ := exists_bound cs
  have hl := log_after (g := g) hmono hreset hw
  refine ⟨hl.range, (lowered_toNat hl.range).1, hl.estimate, hl.allowed, ?_, ?_, ?_⟩
  · intro pre c post now _ hc
    obtain ⟨xs, ht, hctl, hread⟩ := call_trail (inv_after g pre) hc
    refine ⟨xs, ht, hctl, ?_⟩
    rw [changes_append]
    simp only [changes, List.append_nil, hc, Option.getD_some]
    rw [hread]
  · intro pre u post hcs hu hwait
    exact after_ticked hmono hreset hcs hu hwait
  · intro p u T h hsent hlast hwait hu hT
    by_contra hlate
    obtain ⟨y, hy, -, hyp⟩ := hsent
    have h0 := hl.nonneg y hy
    obtain ⟨pre, post, hcs⟩ := List.append_of_mem hu
    -- a tick so late would have sent a PLI of its own
    obtain ⟨x, hx, hd, hxu, hlt⟩ := after_ticked hmono hreset hcs (by omega) (hwait pre u post hcs (by omega))
    have hmem : x ∈ changes { generation := g } cs := by
      have hsplit : cs = (pre ++ [.tick u]) ++ post := by rw [hcs]; simp
      rw [hsplit, changes_append]
      exact List.mem_append_left _ hx
    have := hlast x hmem hd
    omega

end Run

/-- Three ticks while nothing comes: two PLIs, 50 ms apart. -/
theorem feedback_paced_ticks : Feedback 1 [.tick 0, .tick 20000, .tick 50000] ∧
    (changes { generation := 1 } [.tick 0, .tick 20000, .tick 50000]).map RateChange.now = [0, 50000] :=
  ⟨feedback_paced 1 (by unfold Nondecreasing; decide) (by simp), by decide +kernel⟩

end KmVirtualCamera.L2.DcVideo
