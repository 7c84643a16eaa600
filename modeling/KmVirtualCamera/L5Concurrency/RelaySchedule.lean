import Mathlib
import KmVirtualCamera.Core.Checked
import KmVirtualCamera.Core.LTS

/-!
# The relay's schedule (`startRelayTimer`, `relayTick`)

One timer ticks the relay on an absolute grid: `_startNs` and then one point
every `kPeriodNs`. `_frameIndex` is the point the timer is armed for. A start
takes the first point behind the clock, and so does a tick that finds itself
late, once for the frame it sends and once for the frame it arms.

`Clocked` is the schedule with the last reading of the host clock and the ticks
so far. Stops and restarts come at any time and in any number, and a timer fires
any time after its deadline.

`schedule_on_grid`: every target is on the grid, no target is before or equal to
one that ran already, none is more than a period late when it runs, and the
timer is always armed for later than now. No subtraction wraps.

## Hypotheses

Each is a condition of `next` on the readings of `HostNanos`: they are positive,
fit an `int64_t` and do not go back; a timer does not fire early.
-/
namespace KmVirtualCamera.L5.RelaySchedule

/-- The constant is an `int64_t` that every use converts.
mirrors macos/camera-extension/device.mm:15-16 -/
def kPeriodNs : UInt64 := 1000000000 / 30

/-- `timer` is the deadline the timer is armed for, when there is a timer.
mirrors macos/camera-extension/device.mm:33-35 -/
structure Schedule where
  startNs : UInt64 := 0
  frameIndex : UInt64 := 0
  timer : Option Nat := none
  deriving DecidableEq

namespace Schedule

def target (s : Schedule) : UInt64 := s.startNs + s.frameIndex * kPeriodNs

/-- `dispatch_time(DISPATCH_TIME_NOW, delta)` -/
def arm (s : Schedule) (now delta : UInt64) : Schedule := { s with timer := some (now.toNat + delta.toNat) }

def skip (s : Schedule) (n : UInt64) : Schedule := { s with frameIndex := s.frameIndex + n }

theorem skip_startNs (s : Schedule) (n : UInt64) : (s.skip n).startNs = s.startNs := rfl

theorem arm_startNs (s : Schedule) (now delta : UInt64) : (s.arm now delta).startNs = s.startNs := rfl

/-- The timer could be created.
mirrors macos/camera-extension/device.mm:192-207 -/
def startRelayTimer (s : Schedule) (now : UInt64) : Schedule :=
  let s := if s.startNs = 0 ∨ now < s.startNs then { s with startNs := now } else s
  let s := { s with frameIndex := (now - s.startNs) / kPeriodNs + 1 }
  s.arm now (if s.target > now then s.target - now else 1)

/-- mirrors macos/camera-extension/device.mm:209-214 -/
def stopRelayTimer (s : Schedule) : Schedule := { s with timer := none }

/-- The frame a tick sends.
mirrors macos/camera-extension/device.mm:218-224 -/
def catchUp (s : Schedule) (now : UInt64) : Schedule :=
  if now > s.target + kPeriodNs then s.skip ((now - s.target) / kPeriodNs) else s

/-- The frame a tick arms.
mirrors macos/camera-extension/device.mm:226-236 -/
def rearm (s : Schedule) (now : UInt64) : Schedule :=
  let s := s.skip 1
  let s := if s.target ≤ now then s.skip ((now - s.target) / kPeriodNs + 1) else s
  s.arm now (s.target - now)

/-- A tick reads the clock when it begins and when the relay is done.
mirrors macos/camera-extension/device.mm:217-237 -/
def relayTick (s : Schedule) (now later : UInt64) : Schedule × Option UInt64 :=
  match s.timer with
  | none => (s, none)
  | some _ => ((s.catchUp now).rearm later, some (s.catchUp now).target)

theorem startRelayTimer_timer (s : Schedule) (now : UInt64) : (s.startRelayTimer now).timer.isSome = true := rfl

/-- A tick leaves a timer where there is one. -/
theorem relayTick_cases (s : Schedule) (now later : UInt64) :
    s.timer = none ∧ s.relayTick now later = (s, none) ∨
    ∃ s' target, s'.timer.isSome = true ∧ s.timer.isSome = true ∧ s.relayTick now later = (s', some target) := by
  unfold relayTick
  cases htimer : s.timer with
  | none => exact .inl ⟨rfl, rfl⟩
  | some d => exact .inr ⟨_, _, rfl, rfl, rfl⟩

/-! The same, where a subtraction that wraps is a fault. -/

def startRelayTimerC (s : Schedule) (now : UInt64) : Checked Schedule := do
  let s := if s.startNs = 0 ∨ now < s.startNs then { s with startNs := now } else s
  let elapsed ← csub64 now s.startNs
  let s := { s with frameIndex := elapsed / kPeriodNs + 1 }
  let delta ← if s.target > now then csub64 s.target now else pure 1
  pure (s.arm now delta)

def catchUpC (s : Schedule) (now : UInt64) : Checked Schedule :=
  if now > s.target + kPeriodNs then do
    let late ← csub64 now s.target
    pure (s.skip (late / kPeriodNs))
  else pure s

def rearmC (s : Schedule) (now : UInt64) : Checked Schedule := do
  let s := s.skip 1
  let s ← if s.target ≤ now then do
      let late ← csub64 now s.target
      pure (s.skip (late / kPeriodNs + 1))
    else pure s
  let delta ← csub64 s.target now
  pure (s.arm now delta)

def relayTickC (s : Schedule) (now later : UInt64) : Checked (Schedule × Option UInt64) :=
  match s.timer with
  | none => pure (s, none)
  | some _ => do
    let s ← s.catchUpC now
    let s' ← s.rearmC later
    pure (s', some s.target)

end Schedule

/-! ## Runs -/

/-- A tick that ran: its two readings, its target and the deadline it armed. -/
structure Tick where
  now : UInt64
  later : UInt64
  target : UInt64
  deadline : Option Nat
  deriving DecidableEq

structure Clocked where
  schedule : Schedule := {}
  clock : UInt64 := 0
  ticks : List Tick := []
  deriving DecidableEq

inductive Label where
  | startRelayTimer (now : UInt64)
  | stopRelayTimer
  | relayTick (now later : UInt64)

/-- The clock reads `now`. -/
def Clocked.Reads (w : Clocked) (now : UInt64) : Prop := 0 < now ∧ w.clock ≤ now ∧ now.toNat < 2 ^ 63

instance (w : Clocked) (now : UInt64) : Decidable (w.Reads now) := inferInstanceAs (Decidable (_ ∧ _ ∧ _))

def next (w : Clocked) : Label → Option Clocked
  | .startRelayTimer now =>
    if w.schedule.timer = none ∧ w.Reads now then
      some { w with schedule := w.schedule.startRelayTimer now, clock := now }
    else none
  | .stopRelayTimer => some { w with schedule := w.schedule.stopRelayTimer }
  | .relayTick now later =>
    match w.schedule.timer, w.schedule.relayTick now later with
    | some deadline, (s, some target) =>
      if deadline ≤ now.toNat ∧ w.Reads now ∧ now ≤ later ∧ later.toNat < 2 ^ 63 then
        some { schedule := s, clock := later, ticks := w.ticks ++ [⟨now, later, target, s.timer⟩] }
      else none
    | _, _ => some w

/-- The step with its subtractions checked. -/
def nextC (s : Schedule) : Label → Checked Schedule
  | .startRelayTimer now => s.startRelayTimerC now
  | .stopRelayTimer => pure s.stopRelayTimer
  | .relayTick now later => Prod.fst <$> s.relayTickC now later

def scheduling : LTS Clocked Label where
  init w := w = {}
  step w l w' := next w l = some w'

/-! ## Grids

The arithmetic, for any period. -/

section Grid
variable {P t now : Nat}

/-- The last point that has come. -/
theorem last_point (hP : 0 < P) (h : t ≤ now) :
    t + (now - t) / P * P ≤ now ∧ now < t + (now - t) / P * P + P := by
  have hfloor := Nat.div_mul_le_self (now - t) P
  have hrest := Nat.lt_mul_of_div_lt (Nat.lt_succ_self ((now - t) / P)) hP
  rw [Nat.succ_mul] at hrest
  omega

/-- The first point that has not. -/
theorem first_point (hP : 0 < P) (h : t ≤ now) :
    now < t + ((now - t) / P + 1) * P ∧ t + ((now - t) / P + 1) * P ≤ now + P := by
  obtain ⟨hle, hlt⟩ := last_point hP h
  rw [Nat.succ_mul]
  omega

theorem fits_after (hP : P < 2 ^ 32) (h : t ≤ now) (hnow : now < 2 ^ 63) : t + P < 2 ^ 64 := by
  omega

theorem count_fits (n : Nat) (hnow : now < 2 ^ 63) : (now - n) / P + 1 < 2 ^ 64 := by
  have hle : (now - n) / P ≤ now := (Nat.div_le_self _ _).trans (Nat.sub_le _ _)
  omega

end Grid

theorem period_pos : 0 < kPeriodNs.toNat := by decide

theorem period_small : kPeriodNs.toNat < 2 ^ 32 := by decide

namespace Schedule

/-- The `k`-th point of the grid. -/
def point (s : Schedule) (k : Nat) : Nat := s.startNs.toNat + k * kPeriodNs.toNat

/-- The frame index is that of the point at `t`, and nothing has wrapped. -/
structure Aims (s : Schedule) (t : Nat) : Prop where
  point : s.point s.frameIndex.toNat = t
  target : s.target.toNat = t

variable {s : Schedule} {t : Nat} {now : UInt64}

theorem aims_of_fits (hpoint : s.point s.frameIndex.toNat = t) (h : t < 2 ^ 64) : s.Aims t := by
  refine ⟨hpoint, ?_⟩
  rw [← hpoint] at h ⊢
  unfold Schedule.target
  unfold Schedule.point at h ⊢
  rw [UInt64.toNat_add, UInt64.toNat_mul,
    Nat.mod_eq_of_lt (a := s.frameIndex.toNat * _) (Nat.lt_of_le_of_lt (Nat.le_add_left _ _) h), Nat.mod_eq_of_lt h]

theorem Aims.skip (h : s.Aims t) (n : UInt64) (hfit : t + n.toNat * kPeriodNs.toNat < 2 ^ 64) :
    (s.skip n).Aims (t + n.toNat * kPeriodNs.toNat) := by
  have hsum : (s.frameIndex.toNat + n.toNat) * kPeriodNs.toNat ≤ t + n.toNat * kPeriodNs.toNat := by
    rw [Nat.add_mul, ← h.point]
    exact Nat.add_le_add_right (Nat.le_add_left _ _) _
  have hindex : (s.skip n).frameIndex.toNat = s.frameIndex.toNat + n.toNat := by
    show (s.frameIndex + n).toNat = _
    rw [UInt64.toNat_add, Nat.mod_eq_of_lt]
    calc s.frameIndex.toNat + n.toNat
        ≤ (s.frameIndex.toNat + n.toNat) * kPeriodNs.toNat := Nat.le_mul_of_pos_right _ period_pos
      _ ≤ t + n.toNat * kPeriodNs.toNat := hsum
      _ < 2 ^ 64 := hfit
  refine aims_of_fits ?_ hfit
  rw [← h.point, hindex]
  unfold Schedule.point
  rw [Nat.add_mul, Nat.add_assoc]
  rfl

/-- How long ago the target was. -/
theorem Aims.late (h : s.Aims t) (hle : t ≤ now.toNat) :
    csub64 now s.target = .ok (now - s.target) ∧ (now - s.target).toNat = now.toNat - t := by
  have htarget : s.target ≤ now := by
    rw [UInt64.le_iff_toNat_le, h.target]
    exact hle
  refine ⟨csub64_ok htarget, ?_⟩
  rw [UInt64.toNat_sub_of_le _ _ htarget, h.target]

/-- What a tick sends: the last point that has come, or the one before. -/
structure Sends (s s' : Schedule) (now : UInt64) (t t' : Nat) : Prop where
  aims : s'.Aims t'
  startNs : s'.startNs = s.startNs
  mono : t ≤ t'
  come : t' ≤ now.toNat
  recent : now.toNat ≤ t' + kPeriodNs.toNat
  checked : s.catchUpC now = .ok s'

theorem catchUp_sends (h : s.Aims t) (hdue : t ≤ now.toNat) (hfit : now.toNat < 2 ^ 63) :
    ∃ t', Sends s (s.catchUp now) now t t' := by
  obtain ⟨hchecked, hlate⟩ := h.late hdue
  have hlimit : (s.target + kPeriodNs).toNat = t + kPeriodNs.toNat := by
    rw [UInt64.toNat_add, h.target, Nat.mod_eq_of_lt (fits_after period_small hdue hfit)]
  by_cases hbehind : now > s.target + kPeriodNs
  · obtain ⟨hcome, hrecent⟩ := last_point period_pos hdue
    have hn : ((now - s.target) / kPeriodNs).toNat = (now.toNat - t) / kPeriodNs.toNat := by
      rw [UInt64.toNat_div, hlate]
    rw [← hn] at hcome hrecent
    have hsent : s.catchUp now = s.skip ((now - s.target) / kPeriodNs) := if_pos hbehind
    rw [hsent]
    refine ⟨_, h.skip _ ?_, skip_startNs s _, Nat.le_add_right _ _, hcome, Nat.le_of_lt hrecent, ?_⟩
    · exact Nat.lt_of_le_of_lt hcome (Nat.lt_trans hfit (by decide))
    · unfold catchUpC
      rw [if_pos hbehind, hchecked]
      rfl
  · have hnot : now.toNat ≤ t + kPeriodNs.toNat := by
      rw [← hlimit]
      exact UInt64.le_iff_toNat_le.mp (UInt64.not_lt.mp hbehind)
    have hsent : s.catchUp now = s := if_neg hbehind
    rw [hsent]
    exact ⟨t, h, rfl, Nat.le_refl t, hdue, hnot, if_neg hbehind⟩

/-- The timer is armed for the first point behind the clock. -/
structure Armed (s : Schedule) (now : UInt64) (d : Nat) : Prop where
  timer : s.timer = some d
  aims : s.Aims d
  later : now.toNat < d

theorem Aims.arm (h : s.Aims t) (hlater : now.toNat < t) :
    Armed (s.arm now (s.target - now)) now t ∧ csub64 s.target now = .ok (s.target - now) := by
  have hle : now ≤ s.target := by
    rw [UInt64.le_iff_toNat_le, h.target]
    exact Nat.le_of_lt hlater
  refine ⟨⟨?_, ⟨h.point, h.target⟩, hlater⟩, csub64_ok hle⟩
  show some (now.toNat + (s.target - now).toNat) = some t
  rw [UInt64.toNat_sub_of_le _ _ hle, h.target, Nat.add_sub_of_le (Nat.le_of_lt hlater)]

theorem rearm_armed (h : s.Aims t) (hcome : t ≤ now.toNat) (hfit : now.toNat < 2 ^ 63) :
    ∃ d, Armed (s.rearm now) now d ∧ (s.rearm now).startNs = s.startNs ∧ s.rearmC now = .ok (s.rearm now) := by
  have hone : (s.skip 1).Aims (t + kPeriodNs.toNat) := by
    have hroom := fits_after period_small hcome hfit
    have hskip := h.skip 1
    rw [UInt64.toNat_one, Nat.one_mul] at hskip
    exact hskip hroom
  by_cases hbehind : (s.skip 1).target ≤ now
  · have hle : t + kPeriodNs.toNat ≤ now.toNat := by
      rw [← hone.target]
      exact UInt64.le_iff_toNat_le.mp hbehind
    obtain ⟨hchecked, hlate⟩ := hone.late hle
    obtain ⟨hlater, hsoon⟩ := first_point period_pos hle
    set n := (now - (s.skip 1).target) / kPeriodNs + 1 with hn
    have hcount : n.toNat = (now.toNat - (t + kPeriodNs.toNat)) / kPeriodNs.toNat + 1 := by
      rw [hn, UInt64.toNat_add, UInt64.toNat_div, hlate, UInt64.toNat_one, Nat.mod_eq_of_lt (count_fits _ hfit)]
    rw [← hcount] at hlater hsoon
    have hroom := Nat.lt_of_le_of_lt hsoon (fits_after period_small (Nat.le_refl _) hfit)
    obtain ⟨harmed, hsub⟩ := (hone.skip n hroom).arm hlater
    have hstep : s.rearm now = ((s.skip 1).skip n).arm now (((s.skip 1).skip n).target - now) := by
      unfold rearm
      simp only [hbehind, if_true, hn]
    rw [hstep]
    refine ⟨_, harmed, by rw [arm_startNs, skip_startNs, skip_startNs], ?_⟩
    unfold rearmC
    simp only [hbehind, if_true, hchecked, ok_bind, pure_bind, ← hn]
    rw [hsub]
    rfl
  · have hlt : now.toNat < t + kPeriodNs.toNat := by
      rw [← hone.target]
      exact UInt64.lt_iff_toNat_lt.mp (UInt64.not_le.mp hbehind)
    obtain ⟨harmed, hsub⟩ := hone.arm hlt
    have hstep : s.rearm now = (s.skip 1).arm now ((s.skip 1).target - now) := by
      unfold rearm
      simp only [hbehind, if_false]
    rw [hstep]
    refine ⟨_, harmed, by rw [arm_startNs, skip_startNs], ?_⟩
    unfold rearmC
    simp only [hbehind, if_false, pure_bind]
    rw [hsub]
    rfl

/-- The first point behind the clock. -/
theorem aims_behind (hkept : s.startNs ≤ now) (hfit : now.toNat < 2 ^ 63) {k : UInt64}
    (hk : k = (now - s.startNs) / kPeriodNs + 1) :
    ∃ d, Schedule.Aims { s with frameIndex := k } d ∧ now.toNat < d := by
  obtain ⟨hlater, hsoon⟩ := first_point period_pos (UInt64.le_iff_toNat_le.mp hkept)
  have hcount : k.toNat = (now.toNat - s.startNs.toNat) / kPeriodNs.toNat + 1 := by
    rw [hk, UInt64.toNat_add, UInt64.toNat_div, UInt64.toNat_sub_of_le _ _ hkept, UInt64.toNat_one,
      Nat.mod_eq_of_lt (count_fits _ hfit)]
  rw [← hcount] at hlater hsoon
  clear hk
  exact ⟨_, aims_of_fits rfl (Nat.lt_of_le_of_lt hsoon (fits_after period_small (Nat.le_refl _) hfit)), hlater⟩

/-- The grid there is stays, and the first start begins it. -/
theorem start_armed (hkept : s.startNs ≤ now) (hfit : now.toNat < 2 ^ 63) :
    ∃ d, Armed (s.startRelayTimer now) now d ∧
      (s.startRelayTimer now).startNs = (if s.startNs = 0 then now else s.startNs) ∧
      s.startRelayTimerC now = .ok (s.startRelayTimer now) := by
  -- the grid and the index get names, so that nothing below computes them
  obtain ⟨s₁, hs₁⟩ : ∃ s₁ : Schedule, s₁ = if s.startNs = 0 ∨ now < s.startNs then { s with startNs := now } else s :=
    ⟨_, rfl⟩
  have hsame : s₁.startNs = if s.startNs = 0 then now else s.startNs := by
    rw [hs₁]
    by_cases hzero : s.startNs = 0
    · rw [if_pos (.inl hzero), if_pos hzero]
    · rw [if_neg (not_or.mpr ⟨hzero, UInt64.not_lt.mpr hkept⟩), if_neg hzero]
  have hle : s₁.startNs ≤ now := by
    rw [hsame]
    split
    · exact UInt64.le_refl now
    · exact hkept
  obtain ⟨k, hk⟩ : ∃ k, k = (now - s₁.startNs) / kPeriodNs + 1 := ⟨_, rfl⟩
  obtain ⟨d, haims, hlater⟩ := aims_behind hle hfit hk
  obtain ⟨harmed, hsub⟩ := haims.arm hlater
  have hahead : Schedule.target { s₁ with frameIndex := k } > now := by
    rw [gt_iff_lt, UInt64.lt_iff_toNat_lt, haims.target]
    exact hlater
  have hstep : s.startRelayTimer now =
      Schedule.arm { s₁ with frameIndex := k } now (Schedule.target { s₁ with frameIndex := k } - now) := by
    unfold startRelayTimer
    simp only [← hs₁, ← hk, hahead, if_true]
  rw [hstep]
  refine ⟨d, harmed, (arm_startNs _ _ _).trans hsame, ?_⟩
  unfold startRelayTimerC
  simp only [← hs₁]
  rw [csub64_ok hle, ok_bind, ← hk, if_pos hahead, hsub]
  rfl

end Schedule

/-! ## The invariant -/

/-- What a tick that ran has done. -/
structure Tick.Sound (t : Tick) (startNs : UInt64) : Prop where
  grid : ∃ k, t.target.toNat = startNs.toNat + k * kPeriodNs.toNat
  come : t.target ≤ t.now
  recent : t.now.toNat ≤ t.target.toNat + kPeriodNs.toNat
  deadline : ∃ d, t.deadline = some d ∧ t.later.toNat < d

structure Inv (w : Clocked) : Prop where
  started : w.schedule.startNs = 0 → w.schedule.timer = none ∧ w.ticks = []
  startNs : w.schedule.startNs ≤ w.clock
  armed : ∀ d ∈ w.schedule.timer, w.schedule.Armed w.clock d
  ticks : ∀ t ∈ w.ticks, t.Sound w.schedule.startNs ∧ t.target ≤ w.clock
  increasing : w.ticks.Pairwise (·.target < ·.target)

section Inv
variable {w : Clocked}

theorem inv_init : Inv {} where
  started _ := ⟨rfl, rfl⟩
  startNs := UInt64.le_refl 0
  armed _ hd := nomatch hd
  ticks _ ht := nomatch ht
  increasing := .nil

theorem Inv.start (h : Inv w) {now : UInt64} (hread : w.Reads now) :
    Inv { w with schedule := w.schedule.startRelayTimer now, clock := now } ∧
      w.schedule.startRelayTimerC now = .ok (w.schedule.startRelayTimer now) := by
  obtain ⟨hpos, hmono, hfit⟩ := hread
  have hkept := UInt64.le_trans h.startNs hmono
  obtain ⟨d, harmed, hsame, hchecked⟩ := Schedule.start_armed hkept hfit
  refine ⟨⟨?_, ?_, ?_, ?_, h.increasing⟩, hchecked⟩
  · intro hzero
    rw [hsame] at hzero
    split at hzero
    · exact absurd hzero (UInt64.ne_of_lt hpos).symm
    · contradiction
  · show (w.schedule.startRelayTimer now).startNs ≤ now
    rw [hsame]
    split
    · exact UInt64.le_refl now
    · exact hkept
  · intro d' hd'
    obtain rfl : d = d' := Option.some.inj (harmed.timer.symm.trans hd')
    exact harmed
  · intro t ht
    obtain ⟨hsound, hold⟩ := h.ticks t ht
    have hset : w.schedule.startNs ≠ 0 := fun hzero => by
      rw [(h.started hzero).2] at ht
      cases ht
    rw [if_neg hset] at hsame
    show t.Sound (w.schedule.startRelayTimer now).startNs ∧ t.target ≤ now
    rw [hsame]
    exact ⟨hsound, UInt64.le_trans hold hmono⟩

theorem Inv.stop (h : Inv w) : Inv { w with schedule := w.schedule.stopRelayTimer } where
  started hzero := ⟨rfl, (h.started hzero).2⟩
  startNs := h.startNs
  armed _ hd := nomatch hd
  ticks := h.ticks
  increasing := h.increasing

theorem Inv.tick (h : Inv w) {now later : UInt64} {d : Nat} (htimer : w.schedule.timer = some d)
    (hdue : d ≤ now.toNat) (hread : w.Reads now) (hafter : now ≤ later) (hfit : later.toNat < 2 ^ 63) :
    let s := w.schedule.catchUp now
    Inv { schedule := s.rearm later, clock := later,
          ticks := w.ticks ++ [⟨now, later, s.target, (s.rearm later).timer⟩] } ∧
      w.schedule.relayTickC now later = .ok (s.rearm later, some s.target) := by
  intro s
  obtain ⟨-, hmono, hnow⟩ := hread
  have harmed := h.armed d htimer
  obtain ⟨t, hsends⟩ := Schedule.catchUp_sends harmed.aims hdue hnow
  have hlater := UInt64.le_iff_toNat_le.mp hafter
  obtain ⟨d', harmed', hstart, hchecked⟩ := Schedule.rearm_armed hsends.aims (hsends.come.trans hlater) hfit
  have hsame : (s.rearm later).startNs = w.schedule.startNs := hstart.trans hsends.startNs
  have hset : w.schedule.startNs ≠ 0 := fun hzero => by
    rw [(h.started hzero).1] at htimer
    cases htimer
  have htarget : s.target.toNat = t := hsends.aims.target
  have hcome : s.target ≤ now := by
    rw [UInt64.le_iff_toNat_le, htarget]
    exact hsends.come
  -- the timer was armed for later than everything that ran before
  have hnew : ∀ x ∈ w.ticks, x.target < s.target := by
    intro x hx
    rw [UInt64.lt_iff_toNat_lt, htarget]
    calc x.target.toNat ≤ w.clock.toNat := UInt64.le_iff_toNat_le.mp (h.ticks x hx).2
      _ < d := harmed.later
      _ ≤ t := hsends.mono
  refine ⟨⟨?_, ?_, ?_, ?_, ?_⟩, ?_⟩
  · intro hzero
    exact absurd (hsame.symm.trans hzero) hset
  · show (s.rearm later).startNs ≤ later
    rw [hsame]
    exact UInt64.le_trans (UInt64.le_trans h.startNs hmono) hafter
  · intro x hx
    obtain rfl : d' = x := Option.some.inj (harmed'.timer.symm.trans hx)
    exact harmed'
  · intro x hx
    show x.Sound (s.rearm later).startNs ∧ x.target ≤ later
    rw [hsame]
    rcases List.mem_append.mp hx with hx | hx
    · obtain ⟨hsound, hold⟩ := h.ticks x hx
      exact ⟨hsound, UInt64.le_trans hold (UInt64.le_trans hmono hafter)⟩
    · obtain rfl := List.mem_singleton.mp hx
      refine ⟨⟨⟨s.frameIndex.toNat, ?_⟩, hcome, ?_, d', harmed'.timer, harmed'.later⟩,
        UInt64.le_trans hcome hafter⟩
      · rw [← hsends.startNs]
        exact htarget.trans hsends.aims.point.symm
      · rw [htarget]
        exact hsends.recent
  · refine List.pairwise_append.mpr ⟨h.increasing, List.pairwise_singleton _ _, ?_⟩
    intro x hx y hy
    rw [List.mem_singleton.mp hy]
    exact hnew x hx
  · unfold Schedule.relayTickC
    rw [htimer]
    simp only
    rw [hsends.checked, ok_bind, hchecked]
    rfl

theorem inv_next (h : Inv w) {l : Label} {w' : Clocked} (hs : next w l = some w') :
    Inv w' ∧ nextC w.schedule l = .ok w'.schedule := by
  cases l with
  | startRelayTimer now =>
    simp only [next] at hs
    split at hs
    · rename_i hc
      obtain rfl := Option.some.inj hs
      exact h.start hc.2
    · cases hs
  | stopRelayTimer =>
    obtain rfl := Option.some.inj hs
    exact ⟨h.stop, rfl⟩
  | relayTick now later =>
    cases htimer : w.schedule.timer with
    | none =>
      unfold next Schedule.relayTick at hs
      simp only [htimer] at hs
      obtain rfl := Option.some.inj hs
      unfold nextC Schedule.relayTickC
      rw [htimer]
      exact ⟨h, rfl⟩
    | some d =>
      unfold next Schedule.relayTick at hs
      simp only [htimer] at hs
      split at hs
      · rename_i hc
        obtain rfl := Option.some.inj hs
        obtain ⟨hinv, hchecked⟩ := h.tick htimer hc.1 hc.2.1 hc.2.2.1 hc.2.2.2
        refine ⟨hinv, ?_⟩
        simp only [nextC]
        rw [hchecked]
        rfl
      · cases hs

end Inv

theorem inv_inductive : scheduling.Inductive Inv where
  init _ hw := hw ▸ inv_init
  step _ _ _ h hs := (inv_next h hs).1

/-- **The schedule stays on its grid.** Over any run every tick's target is a
point of the grid that has come, at most a period ago; each target is later than
all before it, so none runs twice; a tick leaves the timer armed for later than
now; and no subtraction of the next step wraps. -/
theorem schedule_on_grid {w : Clocked} (hr : scheduling.Reachable w) :
    (∀ t ∈ w.ticks, t.Sound w.schedule.startNs) ∧ w.ticks.Pairwise (·.target < ·.target) ∧
      (w.ticks.map Tick.target).Nodup ∧
      ∀ l w', next w l = some w' → nextC w.schedule l = .ok w'.schedule := by
  have h := inv_inductive.reachable w hr
  refine ⟨fun t ht => (h.ticks t ht).1, h.increasing, ?_, fun l w' hs => (inv_next h hs).2⟩
  rw [List.Nodup, List.pairwise_map]
  exact h.increasing.imp UInt64.ne_of_lt

/-- A tick on time, one that is four periods late, and a restart. -/
def delayed : List Label :=
  [.startRelayTimer 1000, .relayTick 33334400 33334500, .relayTick 200000000 200000100, .stopRelayTimer,
   .startRelayTimer 200000200, .relayTick 200001000 200001100]

theorem schedule_on_grid_delayed :
    let w := LTS.played next (fun _ _ => True) {} delayed
    w.ticks.map Tick.target = [33334333, 166667665, 200000998] ∧ ∀ t ∈ w.ticks, t.Sound w.schedule.startNs := by
  have hrun := (LTS.played_run (M := scheduling) (s := {}) (G := fun _ _ => True) (fun _ _ _ h => h)
    (show (LTS.play next _ _ delayed).isSome = true by decide))
  exact ⟨by decide, (schedule_on_grid ⟨_, delayed, rfl, hrun.of_guarded⟩).1⟩

end KmVirtualCamera.L5.RelaySchedule
