import Mathlib

/-!
# Frame deadlines (`RationalPacer`)

The pacer keeps the fraction of a nanosecond that a deadline has lost to
rounding, so its deadlines do not drift: the one for frame `i` is
`epoch + i * period / numerator` rounded down, whatever `i` (`deadline_exact`).
A deadline is returned when the one after it still fits in 64 bits; otherwise
`next` throws and nothing changes.

The numbers are machine integers. `Paced` reads them as naturals, and says that
no sum on the way wraps.
-/
namespace KmVirtualCamera.L2.Pacing

/-- mirrors shared/km/timing.h:55-57 -/
structure RationalPacer where
  numerator : UInt32
  deadline : UInt64
  whole : UInt64 := 0
  fraction : UInt64 := 0
  remainder : UInt64 := 0
  deriving DecidableEq, Repr

/-- The constructor.
mirrors shared/km/timing.h:39-45 -/
def create (numerator denominator : UInt32) (epochNs : UInt64) : Except String RationalPacer :=
  if numerator = 0 ∨ denominator = 0 ∨ numerator > 1000000 ∨ denominator > 1000000 then
    .error "invalid frame rate"
  else
    let period := 1000000000 * denominator.toUInt64
    .ok { numerator := numerator, deadline := epochNs
          whole := period / numerator.toUInt64, fraction := period % numerator.toUInt64 }

/-- The test is on naturals: the largest number is not below any step.
mirrors shared/km/timing.h:46-54 -/
def next (p : RationalPacer) : Except String UInt64 × RationalPacer :=
  let result := p.deadline
  let sum := p.remainder + p.fraction
  let step := p.whole + sum / p.numerator.toUInt64
  if p.deadline.toNat > 18446744073709551615 - step.toNat then (.error "deadline out of range", p)
  else
    (.ok result,
      { p with deadline := p.deadline + step, remainder := sum % p.numerator.toUInt64 })

/-- The pacer a call leaves. -/
def left (p : RationalPacer) : RationalPacer := (next p).2

/-- The pacer after `i` calls. -/
def calls (p : RationalPacer) : Nat → RationalPacer
  | 0 => p
  | i + 1 => left (calls p i)

/-! ## Rounding down, step by step -/

/-- The quotient goes on by the whole part and a carry of the remainders. -/
theorem succ_mul_div (a n i : Nat) (hn : 0 < n) :
    (i + 1) * a / n = i * a / n + (a / n + (i * a % n + a % n) / n) := by
  have hi := Nat.div_add_mod (i * a) n
  have ha := Nat.div_add_mod a n
  have hsum : (i + 1) * a = i * a % n + a % n + n * (i * a / n + a / n) := by
    rw [Nat.succ_mul, Nat.mul_add]
    omega
  rw [hsum, Nat.add_mul_div_left _ _ hn]
  omega

theorem succ_mul_mod (a n i : Nat) : (i + 1) * a % n = (i * a % n + a % n) % n := by
  rw [Nat.succ_mul, Nat.add_mod]

/-! ## The invariant -/

/-- Deadline `i` of a pacer, in nanoseconds. -/
def deadlineOf (num den : UInt32) (epochNs : UInt64) (i : Nat) : Nat :=
  epochNs.toNat + i * (1000000000 * den.toNat) / num.toNat

/-- A pacer that has given out the deadlines below `i`. -/
structure Paced (num den : UInt32) (epochNs : UInt64) (i : Nat) (p : RationalPacer) : Prop where
  rate : p.numerator = num
  whole : p.whole.toNat = 1000000000 * den.toNat / num.toNat
  fraction : p.fraction.toNat = 1000000000 * den.toNat % num.toNat
  deadline : p.deadline.toNat = deadlineOf num den epochNs i
  remainder : p.remainder.toNat = i * (1000000000 * den.toNat) % num.toNat

/-- What a frame rate may be. -/
def InRange (num den : UInt32) : Prop :=
  0 < num.toNat ∧ num.toNat ≤ 1000000 ∧ 0 < den.toNat ∧ den.toNat ≤ 1000000

instance (num den : UInt32) : Decidable (InRange num den) := inferInstanceAs (Decidable (_ ∧ _))

variable {num den : UInt32} {epochNs : UInt64}

theorem deadlineOf_succ (h : InRange num den) (i : Nat) :
    deadlineOf num den epochNs (i + 1) = deadlineOf num den epochNs i +
      (1000000000 * den.toNat / num.toNat +
        (i * (1000000000 * den.toNat) % num.toNat +
          1000000000 * den.toNat % num.toNat) / num.toNat) := by
  rw [deadlineOf, deadlineOf, succ_mul_div _ _ _ h.1, Nat.add_assoc]

theorem deadlineOf_mono {i j : Nat} (h : i ≤ j) :
    deadlineOf num den epochNs i ≤ deadlineOf num den epochNs j :=
  Nat.add_le_add_left (Nat.div_le_div_right (Nat.mul_le_mul_right _ h)) _

theorem create_ok (h : InRange num den) :
    ∃ p, create num den epochNs = .ok p ∧ Paced num den epochNs 0 p := by
  obtain ⟨hn, hn', hd, hd'⟩ := h
  have hperiod : (1000000000 * den.toUInt64).toNat = 1000000000 * den.toNat := by
    rw [UInt64.toNat_mul, UInt32.toNat_toUInt64]
    exact Nat.mod_eq_of_lt (by change 1000000000 * _ < _; omega)
  have hvalid : ¬(num = 0 ∨ den = 0 ∨ num > 1000000 ∨ den > 1000000) := by
    rintro (rfl | rfl | h | h)
    · exact absurd hn (by decide)
    · exact absurd hd (by decide)
    · exact absurd (UInt32.lt_iff_toNat_lt.mp h) (not_lt.mpr hn')
    · exact absurd (UInt32.lt_iff_toNat_lt.mp h) (not_lt.mpr hd')
  refine ⟨_, if_neg hvalid, rfl, ?_, ?_, ?_, ?_⟩
  · rw [UInt64.toNat_div, hperiod, UInt32.toNat_toUInt64]
  · rw [UInt64.toNat_mod, hperiod, UInt32.toNat_toUInt64]
  · simp [deadlineOf]
  · simp

theorem create_error (h : ¬InRange num den) :
    create num den epochNs = .error "invalid frame rate" := by
  refine if_pos ?_
  by_contra hvalid
  simp only [not_or, gt_iff_lt, UInt32.not_lt] at hvalid
  obtain ⟨hn, hd, hn', hd'⟩ := hvalid
  have hn0 : num.toNat ≠ 0 := fun hz => hn (UInt32.toNat_inj.mp hz)
  have hd0 : den.toNat ≠ 0 := fun hz => hd (UInt32.toNat_inj.mp hz)
  exact h ⟨Nat.pos_of_ne_zero hn0, UInt32.le_iff_toNat_le.mp hn', Nat.pos_of_ne_zero hd0,
    UInt32.le_iff_toNat_le.mp hd'⟩

/-- How far a call takes the deadline. -/
def RationalPacer.step (p : RationalPacer) : UInt64 :=
  p.whole + (p.remainder + p.fraction) / p.numerator.toUInt64

theorem next_room {p : RationalPacer} (h : p.deadline.toNat + p.step.toNat < 2 ^ 64) :
    next p = (.ok p.deadline, { p with
      deadline := p.deadline + p.step
      remainder := (p.remainder + p.fraction) % p.numerator.toUInt64 }) := by
  have hroom : ¬p.deadline.toNat > 18446744073709551615 - p.step.toNat := by omega
  exact if_neg hroom

theorem next_full {p : RationalPacer} (h : 2 ^ 64 ≤ p.deadline.toNat + p.step.toNat) :
    next p = (.error "deadline out of range", p) := by
  have hfull : p.deadline.toNat > 18446744073709551615 - p.step.toNat := by
    have hlt := p.step.toNat_lt
    omega
  exact if_pos hfull

/-- One call: the deadline, or nothing. -/
theorem Paced.next {i : Nat} {p : RationalPacer} (hr : InRange num den)
    (h : Paced num den epochNs i p) :
    (deadlineOf num den epochNs (i + 1) < 2 ^ 64 ∧ (next p).1 = .ok p.deadline ∧
      Paced num den epochNs (i + 1) (left p)) ∨
    (2 ^ 64 ≤ deadlineOf num den epochNs (i + 1) ∧
      next p = (.error "deadline out of range", p)) := by
  obtain ⟨hnum, hwhole, hfraction, hdeadline, hremainder⟩ := h
  obtain ⟨hn, hn', hd, hd'⟩ := hr
  have hlt := p.deadline.toNat_lt
  have hr1 := Nat.mod_lt (i * (1000000000 * den.toNat)) hn
  have hr2 := Nat.mod_lt (1000000000 * den.toNat) hn
  have hdiv := Nat.div_le_self (1000000000 * den.toNat) num.toNat
  have hsum : (p.remainder + p.fraction).toNat = i * (1000000000 * den.toNat) % num.toNat +
      1000000000 * den.toNat % num.toNat := by
    rw [UInt64.toNat_add, hremainder, hfraction]
    exact Nat.mod_eq_of_lt (by omega)
  have hcarry := Nat.div_le_self (p.remainder + p.fraction).toNat num.toNat
  have hnumerator : p.numerator.toUInt64.toNat = num.toNat := by rw [hnum, UInt32.toNat_toUInt64]
  have hstep : p.step.toNat =
      1000000000 * den.toNat / num.toNat +
        (i * (1000000000 * den.toNat) % num.toNat +
          1000000000 * den.toNat % num.toNat) / num.toNat := by
    rw [RationalPacer.step, UInt64.toNat_add, UInt64.toNat_div, hnumerator, hwhole, ← hsum]
    exact Nat.mod_eq_of_lt (by omega)
  have hsucc : deadlineOf num den epochNs (i + 1) = deadlineOf num den epochNs i + _ :=
    deadlineOf_succ ⟨hn, hn', hd, hd'⟩ i
  rw [← hstep, ← hdeadline] at hsucc
  rcases Nat.lt_or_ge (deadlineOf num den epochNs (i + 1)) (2 ^ 64) with hfits | hover
  · rw [left, next_room (lt_of_eq_of_lt hsucc.symm hfits)]
    refine Or.inl ⟨hfits, rfl, hnum, hwhole, hfraction, ?_, ?_⟩
    · rw [UInt64.toNat_add, hsucc]
      rw [hsucc] at hfits
      exact Nat.mod_eq_of_lt hfits
    · rw [UInt64.toNat_mod, hsum, hnumerator]
      exact (succ_mul_mod _ _ _).symm
  · exact Or.inr ⟨hover, next_full (le_of_le_of_eq hover hsucc)⟩

/-- After any number of calls: all of them have returned, or the pacer stands at
the last deadline that fits. -/
theorem calls_paced {p : RationalPacer} (hr : InRange num den) (h : Paced num den epochNs 0 p) (i : Nat) :
    (deadlineOf num den epochNs i < 2 ^ 64 ∧ Paced num den epochNs i (calls p i)) ∨
      ∃ j, j < i ∧ 2 ^ 64 ≤ deadlineOf num den epochNs (j + 1) ∧ Paced num den epochNs j (calls p i) := by
  induction i with
  | zero =>
    refine Or.inl ⟨?_, h⟩
    rw [← h.deadline]
    exact p.deadline.toNat_lt
  | succ i ih =>
    rw [calls]
    rcases ih with ⟨-, hpaced⟩ | ⟨j, hj, hover, hpaced⟩
    · rcases hpaced.next hr with ⟨hfits, -, hnext⟩ | ⟨hover, hstay⟩
      · exact Or.inl ⟨hfits, hnext⟩
      · refine Or.inr ⟨i, Nat.lt_succ_self i, hover, ?_⟩
        rw [left, hstay]
        exact hpaced
    · rcases hpaced.next hr with ⟨hfits, -⟩ | ⟨-, hstay⟩
      · exact absurd hfits (not_lt.mpr hover)
      · refine Or.inr ⟨j, Nat.lt_succ_of_lt hj, hover, ?_⟩
        rw [left, hstay]
        exact hpaced

/-- A call that throws changes nothing, in any state. -/
theorem next_error {p : RationalPacer} {error : String} (h : (next p).1 = .error error) : (next p).2 = p := by
  rcases Nat.lt_or_ge (p.deadline.toNat + p.step.toNat) (2 ^ 64) with hroom | hfull
  · rw [next_room hroom] at h
    cases h
  · rw [next_full hfull]

/-- **No drift.** -/
theorem deadline_exact (num den : UInt32) (epochNs : UInt64) :
    (InRange num den → ∃ p, create num den epochNs = .ok p ∧ ∀ i,
      (deadlineOf num den epochNs (i + 1) < 2 ^ 64 →
        ∃ result, (next (calls p i)).1 = .ok result ∧ result.toNat = deadlineOf num den epochNs i) ∧
      (2 ^ 64 ≤ deadlineOf num den epochNs (i + 1) →
        next (calls p i) = (.error "deadline out of range", calls p i))) ∧
    (¬InRange num den → create num den epochNs = .error "invalid frame rate") ∧
    ∀ (p : RationalPacer) (error : String), (next p).1 = .error error → (next p).2 = p := by
  refine ⟨?_, create_error, fun p error h => next_error h⟩
  intro hr
  obtain ⟨p, hp, hstart⟩ : ∃ p, create num den epochNs = .ok p ∧ Paced num den epochNs 0 p := create_ok hr
  refine ⟨p, hp, fun i => ⟨?_, ?_⟩⟩
  · intro hfits
    rcases calls_paced hr hstart i with ⟨-, hpaced⟩ | ⟨j, hj, hover, -⟩
    · rcases hpaced.next hr with ⟨-, hresult, -⟩ | ⟨hover, -⟩
      · exact ⟨_, hresult, hpaced.deadline⟩
      · exact absurd hfits (not_lt.mpr hover)
    · have hmono : deadlineOf num den epochNs (j + 1) ≤ deadlineOf num den epochNs (i + 1) :=
        deadlineOf_mono (Nat.succ_le_succ hj.le)
      exact absurd hfits (not_lt.mpr (hover.trans hmono))
  · intro hover
    have hthrows : ∀ {j : Nat}, 2 ^ 64 ≤ deadlineOf num den epochNs (j + 1) →
        Paced num den epochNs j (calls p i) → next (calls p i) = (.error "deadline out of range", calls p i) := by
      intro j hover hpaced
      rcases hpaced.next hr with ⟨hfits, -⟩ | ⟨-, hstay⟩
      · exact absurd hfits (not_lt.mpr hover)
      · exact hstay
    rcases calls_paced hr hstart i with ⟨-, hpaced⟩ | ⟨j, -, hover', hpaced⟩
    · exact hthrows hover hpaced
    · exact hthrows hover' hpaced

/-- Thirty frames in 1.001 seconds, until the clock's end is near. -/
theorem deadline_exact_ntsc :
    (∃ p, create 30000 1001 5 = .ok p ∧ ∃ result, (next (calls p 1000000)).1 = .ok result ∧
      result.toNat = 33366666666671) ∧
    (∃ p, create 30000 1001 18446744073709551000 = .ok p ∧ next (calls p 0) = (.error "deadline out of range", p)) ∧
    create 0 1001 5 = .error "invalid frame rate" := by
  have hr : InRange 30000 1001 := by decide
  obtain ⟨hpaced, -, -⟩ := deadline_exact 30000 1001 5
  obtain ⟨hlate, -, -⟩ := deadline_exact 30000 1001 18446744073709551000
  obtain ⟨p, hp, hcalls⟩ := hpaced hr
  obtain ⟨q, hq, hend⟩ := hlate hr
  exact ⟨⟨p, hp, (hcalls 1000000).1 (by decide)⟩, ⟨q, hq, (hend 0).2 (by decide)⟩,
    (deadline_exact 0 1001 5).2.1 (by decide)⟩

end KmVirtualCamera.L2.Pacing
