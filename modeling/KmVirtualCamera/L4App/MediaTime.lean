import Mathlib
import KmVirtualCamera.Core.Checked
import KmVirtualCamera.Core.Signed
import KmVirtualCamera.L4App.ReceiverEngine

/-!
# Media time (`TimestampUnwrapper32`, `TicksToMicroseconds`)

The engine numbers its frames with 32-bit timestamps unwrapped to 64 bits, and
its owner turns ticks into microseconds. Both are written over `int64_t` here:
`unwrap64` is the engine's `unwrap` with the accumulator bounded (`unwrap64_ok`).

* `unwraps_iff`: the timestamps fed come back as they are, as long as they are
  values of `int64_t`; and no longer (`unwraps_not_beyond`).
* `ticks_exact`: the exact quotient or a refusal, and no operation overflows.
-/
namespace KmVirtualCamera.L4.MediaTime
open KmVirtualCamera.Signed
open KmVirtualCamera.L4.ReceiverEngine (TimestampUnwrapper32 unwrap)

/-! ## The unwrapper -/

/-- mirrors shared/km/timing.h:12-18 -/
def unwrap64 (u : TimestampUnwrapper32) (value : UInt32) : Arith Empty (TimestampUnwrapper32 × Int) :=
  match u.last with
  | none => .ok (⟨some value, value.toNat⟩, value.toNat)
  | some last => do
    let raw := (value - last).toNat
    let delta ← if raw ≤ 0x7fffffff then fit raw else fit (raw - 2 ^ 32)
    let unwrapped ← fit (u.unwrapped + delta)
    return (⟨some value, unwrapped⟩, unwrapped)

/-- mirrors shared/km/timing.h:19 -/
def reset (u : TimestampUnwrapper32) : TimestampUnwrapper32 := { u with last := none, unwrapped := 0 }

/-- What the unwrapper returns for the values, one by one. -/
def unwraps (u : TimestampUnwrapper32) : List UInt32 → Arith Empty (List Int)
  | [] => .ok []
  | value :: values => do
    let (u, t) ← unwrap64 u value
    let ts ← unwraps u values
    return t :: ts

/-- From one timestamp to the next, the short way round. -/
def distance (last value : UInt32) : Int :=
  if (value - last).toNat ≤ 0x7fffffff then (value - last).toNat else (value - last).toNat - 2 ^ 32

variable {u : TimestampUnwrapper32} {value last : UInt32}

theorem unwrap64_none (h : u.last = none) :
    unwrap64 u value = .ok (⟨some value, value.toNat⟩, value.toNat) := by
  unfold unwrap64
  rw [h]

theorem unwrap64_some (h : u.last = some last) : unwrap64 u value =
    (fit (u.unwrapped + distance last value) >>= fun t => .ok (⟨some value, t⟩, t)) := by
  have hraw := (value - last).toNat_lt
  unfold unwrap64 distance
  rw [h]
  simp only
  split
  · rw [fit_ok (by rw [fits_iff]; omega), ok_bind]
    rfl
  · rw [fit_ok (by rw [fits_iff]; omega), ok_bind]
    rfl

/-- The bounded unwrapper does what the unbounded one does, or nothing. -/
theorem unwrap64_ok {r : TimestampUnwrapper32 × Int} (h : unwrap64 u value = .ok r) : unwrap u value = r := by
  unfold unwrap
  cases hlast : u.last with
  | none =>
    rw [unwrap64_none hlast] at h
    exact Except.ok.inj h
  | some last =>
    rw [unwrap64_some hlast] at h
    by_cases hfits : Fits (u.unwrapped + distance last value)
    · rw [fit_ok hfits] at h
      exact Except.ok.inj h
    · rw [fit_undefined hfits] at h
      cases h

/-! ## What it is fed -/

/-- The low 32 bits of a timestamp. -/
def wire (t : Int) : UInt32 := UInt32.ofNat (t % 2 ^ 32).toNat

/-- From `t` to `t'` in less than half a turn. -/
def Near (t t' : Int) : Prop := -2 ^ 31 - 1 < t' - t ∧ t' - t < 2 ^ 31

/-- A stream of timestamps: the first has 32 bits, neighbours are near. -/
def Stream : List Int → Prop
  | [] => True
  | t :: ts => (0 ≤ t ∧ t < 2 ^ 32) ∧ List.IsChain Near (t :: ts)

theorem wire_toNat (t : Int) : ((wire t).toNat : Int) = t % 2 ^ 32 := by
  unfold wire
  rw [UInt32.toNat_ofNat']
  omega

theorem distance_wire {t t' : Int} (h : Near t t') : distance (wire t) (wire t') = t' - t := by
  obtain ⟨hlow, hhigh⟩ := h
  have ht := wire_toNat t
  have ht' := wire_toNat t'
  have hraw := UInt32.toNat_sub (wire t') (wire t)
  unfold distance
  omega

/-- The unwrapper after the timestamp `t`. -/
def reached (t : Int) : TimestampUnwrapper32 := ⟨some (wire t), t⟩

theorem unwrap64_first {t : Int} (h : 0 ≤ t ∧ t < 2 ^ 32) : unwrap64 {} (wire t) = .ok (reached t, t) := by
  have ht := wire_toNat t
  have hvalue : ((wire t).toNat : Int) = t := by omega
  rw [unwrap64_none rfl, hvalue]
  rfl

theorem unwrap64_near {t t' : Int} (h : Near t t') : unwrap64 (reached t) (wire t') =
    if Fits t' then .ok (reached t', t') else .error .undefined := by
  have hsum : (reached t).unwrapped + distance (wire t) (wire t') = t' := by
    rw [distance_wire h]
    exact add_sub_cancel t t'
  rw [unwrap64_some rfl, hsum]
  split
  · next hfits => rw [fit_ok hfits]; rfl
  · next hfits => rw [fit_undefined hfits]; rfl

/-- From `t` on. -/
theorem unwraps_near {ts : List Int} : ∀ {t : Int}, List.IsChain Near (t :: ts) →
    unwraps (reached t) (ts.map wire) = if ∀ t' ∈ ts, Fits t' then .ok ts else .error .undefined := by
  induction ts with
  | nil =>
    intro t _
    rw [if_pos (by simp)]
    rfl
  | cons t' ts ih =>
    intro t h
    obtain ⟨hnear, hrest⟩ := List.isChain_cons_cons.mp h
    rw [List.map_cons, unwraps, unwrap64_near hnear]
    by_cases hfits : Fits t'
    · rw [if_pos hfits, ok_bind]
      simp only
      rw [ih hrest]
      by_cases hall : ∀ t'' ∈ ts, Fits t''
      · rw [if_pos hall, if_pos (List.forall_mem_cons.mpr ⟨hfits, hall⟩)]
        rfl
      · rw [if_neg hall, if_neg fun hc => hall (List.forall_mem_cons.mp hc).2]
        rfl
    · rw [if_neg hfits, if_neg fun hc => hfits (List.forall_mem_cons.mp hc).1]
      rfl

/-- A stream fed after a reset, whatever came before: every timestamp comes
back, up to the first that has no 64 bits. -/
theorem unwraps_stream (u : TimestampUnwrapper32) {ts : List Int} (h : Stream ts) :
    unwraps (reset u) (ts.map wire) = if ∀ t ∈ ts, Fits t then .ok ts else .error .undefined := by
  cases ts with
  | nil =>
    rw [if_pos (by simp)]
    rfl
  | cons t ts =>
    obtain ⟨hfirst, hchain⟩ := h
    have hfits : Fits t := by
      rw [fits_iff]
      omega
    have hfresh : reset u = {} := rfl
    rw [List.map_cons, unwraps, hfresh, unwrap64_first hfirst, ok_bind]
    simp only
    rw [unwraps_near hchain]
    by_cases hall : ∀ t' ∈ ts, Fits t'
    · rw [if_pos hall, if_pos (List.forall_mem_cons.mpr ⟨hfits, hall⟩)]
      rfl
    · rw [if_neg hall, if_neg fun hc => hall (List.forall_mem_cons.mp hc).2]
      rfl

/-- **Unwrapping is exact** while the timestamps are values of `int64_t`, and
not beyond. -/
theorem unwraps_iff (u : TimestampUnwrapper32) (ts : List Int) (h : Stream ts) :
    unwraps (reset u) (ts.map wire) = .ok ts ↔ ∀ t ∈ ts, Fits t := by
  rw [unwraps_stream u h]
  by_cases hall : ∀ t ∈ ts, Fits t
  · rw [if_pos hall]
    exact ⟨fun _ => hall, fun _ => rfl⟩
  · rw [if_neg hall]
    exact ⟨fun hc => (by cases hc), fun hc => absurd hc hall⟩

/-- Once round in each direction. -/
theorem unwraps_both_ways : unwraps (reset {})
    ([4294967280, 6442450927, 4294967312, 2147483664, 16, -2147483632, -4].map wire) =
      .ok [4294967280, 6442450927, 4294967312, 2147483664, 16, -2147483632, -4] := by
  have hchain : List.IsChain Near [4294967280, 6442450927, 4294967312, 2147483664, 16, -2147483632, -4] := by
    simp [Near]
  have hstream : Stream [4294967280, 6442450927, 4294967312, 2147483664, 16, -2147483632, -4] :=
    ⟨by omega, hchain⟩
  exact (unwraps_iff {} _ hstream).mpr (by decide)

/-- The longest steps forward, `n` of them. -/
def climbing (n : Nat) : List Int := (List.range n).map fun (i : Nat) => (i : Int) * (2 ^ 31 - 1)

theorem mem_climbing {n i : Nat} (h : i < n) : (i : Int) * (2 ^ 31 - 1) ∈ climbing n :=
  List.mem_map.mpr ⟨i, List.mem_range.mpr h, rfl⟩

theorem climbing_stream (n : Nat) : Stream (climbing n) := by
  cases n with
  | zero => trivial
  | succ n =>
    have hchain : List.IsChain Near (climbing (n + 1)) := by
      unfold climbing
      rw [List.isChain_map, List.isChain_range_succ]
      intro i _
      unfold Near
      omega
    have hcons : climbing (n + 1) = 0 :: (climbing (n + 1)).tail := by
      unfold climbing
      rw [List.range_succ_eq_map]
      rfl
    rw [hcons] at hchain ⊢
    exact ⟨by omega, hchain⟩

theorem climbing_out {n : Nat} (h : 4294967299 < n) (u : TimestampUnwrapper32) :
    unwraps (reset u) ((climbing n).map wire) ≠ .ok (climbing n) := by
  rw [unwraps_stream u (climbing_stream n)]
  have hout : ¬∀ t ∈ climbing n, Fits t := by
    intro hall
    have hlast := fits_iff.mp (hall _ (mem_climbing h))
    omega
  rw [if_neg hout]
  simp

/-- 2^32 + 3 steps lead out of `int64_t`. -/
theorem unwraps_not_beyond : Stream (climbing (2 ^ 32 + 4)) ∧
    unwraps (reset {}) ((climbing (2 ^ 32 + 4)).map wire) ≠ .ok (climbing (2 ^ 32 + 4)) := by
  have hlong : 4294967299 < 2 ^ 32 + 4 := by omega
  generalize 2 ^ 32 + 4 = n at hlong ⊢
  exact ⟨climbing_stream n, climbing_out hlong {}⟩

/-! ## Microseconds -/

inductive Thrown where
  | invalidArgument (what : String)
  | overflowError (what : String)
  deriving DecidableEq

def outOfRange : Arith Thrown Int := .error (.thrown (.overflowError "timestamp out of range"))

/-- Does `a + b` leave the range? Each difference is formed on its own side only.
mirrors shared/km/timing.h:30-31 -/
def leaves (a b : Int) : Arith Thrown Bool :=
  if b > 0 then do
    let room ← fit (maxValue - b)
    return decide (a > room)
  else if b < 0 then do
    let room ← fit (minValue - b)
    return decide (a < room)
  else return false

/-- mirrors shared/km/timing.h:23-34 -/
def ticksToMicroseconds (ticks : Int64) (rate : UInt32) : Arith Thrown Int :=
  if rate = 0 then .error (.thrown (.invalidArgument "zero clock rate"))
  else do
    let whole ← fit (ticks.toInt.tdiv rate.toNat)
    let remainder ← fit (ticks.toInt.tmod rate.toNat)
    if whole > maxValue.tdiv 1000000 ∨ whole < minValue.tdiv 1000000 then outOfRange
    else do
      let a ← fit (whole * 1000000)
      let product ← fit (remainder * 1000000)
      let b ← fit (product.tdiv rate.toNat)
      let out ← leaves a b
      if out then outOfRange else fit (a + b)

/-- The exact number of microseconds, rounded towards zero. -/
def microseconds (ticks : Int64) (rate : UInt32) : Int := (ticks.toInt * 1000000).tdiv rate.toNat

theorem mul_div_split (n k r : Nat) (hr : 0 < r) : n * k / r = n / r * k + n % r * k / r := by
  have hn : n * k = n % r * k + r * (n / r * k) := by
    calc n * k = (r * (n / r) + n % r) * k := by rw [Nat.div_add_mod]
      _ = n % r * k + r * (n / r * k) := by ring
  rw [hn, Nat.add_mul_div_left _ _ hr, Nat.add_comm]

/-- Quotient and remainder, each times `k`: nothing is lost to rounding between. -/
theorem mul_tdiv_split (t : Int) (k r : Nat) (hr : 0 < r) :
    (t * k).tdiv r = t.tdiv r * k + (t.tmod r * k).tdiv r := by
  have hnat (n : Nat) : ((n : Int) * k).tdiv r = (n : Int).tdiv r * k + ((n : Int).tmod r * k).tdiv r := by
    have h := congrArg (Nat.cast (R := Int)) (mul_div_split n k r hr)
    rw [Int.ofNat_tdiv, Nat.cast_add, Nat.cast_mul, Nat.cast_mul, Int.ofNat_tdiv, Int.ofNat_tdiv,
      Nat.cast_mul, Int.ofNat_tmod] at h
    exact h
  obtain ⟨n, rfl | rfl⟩ := t.eq_nat_or_neg
  · exact hnat n
  · rw [Int.neg_mul, Int.neg_tdiv, Int.neg_tdiv, Int.neg_tmod, Int.neg_mul, Int.neg_mul, Int.neg_tdiv, hnat n]
    omega

/-- The parts lie on the side of `t`, each in its range. -/
theorem parts_range {t : Int} {r : Nat} (hr : 0 < r) :
    let b := (t.tmod r * 1000000).tdiv r
    (0 ≤ t ∧ 0 ≤ t.tdiv r ∧ t.tdiv r ≤ t ∧ 0 ≤ t.tmod r ∧ t.tmod r < r ∧ 0 ≤ b ∧ b < 1000000) ∨
    (t ≤ 0 ∧ t.tdiv r ≤ 0 ∧ t ≤ t.tdiv r ∧ t.tmod r ≤ 0 ∧ -r < t.tmod r ∧ b ≤ 0 ∧ -1000000 < b) := by
  have hnat (n : Nat) : 0 ≤ (n : Int) ∧ 0 ≤ (n : Int).tdiv r ∧ (n : Int).tdiv r ≤ n ∧ 0 ≤ (n : Int).tmod r ∧
      (n : Int).tmod r < r ∧ 0 ≤ ((n : Int).tmod r * 1000000).tdiv r ∧
      ((n : Int).tmod r * 1000000).tdiv r < 1000000 := by
    have hq := Nat.div_le_self n r
    have hm := Nat.mod_lt n hr
    have hb : n % r * 1000000 / r < 1000000 := by
      rw [Nat.div_lt_iff_lt_mul hr, Nat.mul_comm]
      exact Nat.mul_lt_mul_of_pos_left hm (by omega)
    rw [← Int.ofNat_tdiv, ← Int.ofNat_tmod, show ((n % r : Nat) : Int) * 1000000 = (n % r * 1000000 : Nat) by
      push_cast; rfl, ← Int.ofNat_tdiv]
    generalize n % r * 1000000 / r = b at hb ⊢
    generalize n / r = q at hq ⊢
    generalize n % r = m at hm ⊢
    omega
  obtain ⟨n, rfl | rfl⟩ := t.eq_nat_or_neg
  · exact .inl (hnat n)
  · have h := hnat n
    rw [Int.neg_tdiv, Int.neg_tmod, Int.neg_mul, Int.neg_tdiv]
    exact .inr (by omega)

theorem leaves_eq {a b : Int} (ha : Fits a) (hb : Fits b) : leaves a b = .ok (decide ¬Fits (a + b)) := by
  have hmax : maxValue = 9223372036854775807 := rfl
  have hmin : minValue = -9223372036854775808 := rfl
  rw [fits_iff] at ha hb
  unfold leaves
  split
  · rw [fit_ok (by rw [fits_iff]; omega), ok_bind]
    exact congrArg Except.ok (decide_eq_decide.mpr (by rw [fits_iff]; omega))
  · split
    · rw [fit_ok (by rw [fits_iff]; omega), ok_bind]
      exact congrArg Except.ok (decide_eq_decide.mpr (by rw [fits_iff]; omega))
    · have hfits : Fits (a + b) := by rw [fits_iff]; omega
      rw [decide_eq_false fun hc => hc hfits]
      rfl

/-- **The conversion is exact or refused**, and nothing on the way overflows. -/
theorem ticks_exact (ticks : Int64) (rate : UInt32) (h : rate ≠ 0) :
    ticksToMicroseconds ticks rate = if Fits (microseconds ticks rate) then .ok (microseconds ticks rate)
      else .error (.thrown (.overflowError "timestamp out of range")) := by
  have hrate : 0 < rate.toNat := Nat.pos_of_ne_zero fun hz => h (UInt32.toNat_inj.mp hz)
  have hsize := rate.toNat_lt
  have ht := fits_iff.mp (fits_int64 ticks)
  have hsplit : microseconds ticks rate = ticks.toInt.tdiv rate.toNat * 1000000 +
      (ticks.toInt.tmod rate.toNat * 1000000).tdiv rate.toNat := mul_tdiv_split _ 1000000 _ hrate
  have hparts := parts_range (t := ticks.toInt) hrate
  unfold ticksToMicroseconds
  rw [if_neg h, hsplit]
  generalize ticks.toInt.tdiv rate.toNat = whole at hparts ⊢
  have hwhole : Fits whole := by rw [fits_iff]; omega
  have hremainder : Fits (ticks.toInt.tmod rate.toNat) := by rw [fits_iff]; omega
  rw [fit_ok hwhole, ok_bind, fit_ok hremainder, ok_bind]
  have hmax : maxValue.tdiv 1000000 = 9223372036854 := by decide
  have hmin : minValue.tdiv 1000000 = -9223372036854 := by decide
  rw [hmax, hmin]
  by_cases hfar : whole > 9223372036854 ∨ whole < -9223372036854
  · rw [if_pos hfar, if_neg (by rw [fits_iff]; omega)]
    rfl
  · have ha : Fits (whole * 1000000) := by rw [fits_iff]; omega
    have hproduct : Fits (ticks.toInt.tmod rate.toNat * 1000000) := by rw [fits_iff]; omega
    rw [if_neg hfar, fit_ok ha, ok_bind, fit_ok hproduct, ok_bind]
    generalize (ticks.toInt.tmod rate.toNat * 1000000).tdiv rate.toNat = b at hparts ⊢
    have hb : Fits b := by rw [fits_iff]; omega
    rw [fit_ok hb, ok_bind, leaves_eq ha hb, ok_bind]
    by_cases hsum : Fits (whole * 1000000 + b)
    · rw [if_pos hsum, decide_eq_false fun hc => hc hsum, if_neg Bool.false_ne_true, fit_ok hsum]
    · rw [if_neg hsum, decide_eq_true hsum, if_pos rfl]
      rfl

/-- At both ends of the range. -/
theorem ticks_ends : ticksToMicroseconds 9223372036854775807 1000001 = .ok 9223362813491962315 ∧
    ticksToMicroseconds (-9223372036854775808) 999999 =
      .error (.thrown (.overflowError "timestamp out of range")) := by
  refine ⟨(ticks_exact _ _ (by decide)).trans ?_, (ticks_exact _ _ (by decide)).trans ?_⟩
  · decide
  · decide

end KmVirtualCamera.L4.MediaTime
