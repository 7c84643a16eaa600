import Mathlib
import KmVirtualCamera.L5Concurrency.FrameRelay

/-!
# What a relay tick shows of a fresh image

An image is stamped with the host clock when its consume is answered. A tick
tests its age against the target of the schedule, which lies up to a period
behind the clock (`RelaySchedule.schedule_on_grid`). An image that arrived
between the target and the tick is from the future, by that test: the relay
discards it and sends black.

`Timed` is the relay among its consumes with the host clock and, as a ghost, the
most recent valid image of the producer authorised now. Ticks do not touch it.

`fresh_shown_iff`: every tick shows and keeps that image while it is at most a
second less a period old, if and only if no tick meets an image that arrived
after its target.
-/
namespace KmVirtualCamera.L5.RelayFreshness
open KmVirtualCamera.L5.FrameRelay

/-- `kPeriodNs`
mirrors macos/camera-extension/device.mm:16 -/
def periodNs : Nat := 33333333

structure Timed (Client : Type) where
  world : World Client := {}
  clock : Nat := 0
  /-- ghost: the image and when it arrived -/
  recent : Option (PixelBuffer × Nat) := none

/-- Something that happens to the relay, and the host clock at that time. -/
structure Event (Client : Type) where
  now : Nat
  label : Label Client

variable {Client : Type}

/-- An answer was stamped before its block runs, and a tick runs within a period
of its target. -/
def Timely (w : World Client) (now : Nat) : Label Client → Prop
  | .completed call c => call ∈ w.outstanding ∧ c.ns ≤ now
  | .tick target _ => target ≤ now ∧ now ≤ target + periodNs
  | _ => True

instance [DecidableEq Client] (w : World Client) (now : Nat) : ∀ l, Decidable (Timely w now l)
  | .completed _ _ => inferInstanceAs (Decidable (_ ∧ _))
  | .tick _ _ => inferInstanceAs (Decidable (_ ∧ _))
  | .setAuthorizedProducer _ | .setSourceActive _ | .consumeOne | .stop => inferInstanceAs (Decidable True)

/-- The clock does not go back. -/
def Plausible (t : Timed Client) (e : Event Client) : Prop :=
  t.clock ≤ e.now ∧ e.now < 2 ^ 63 ∧ Timely t.world e.now e.label

instance [DecidableEq Client] (t : Timed Client) (e : Event Client) : Decidable (Plausible t e) :=
  inferInstanceAs (Decidable (_ ∧ _ ∧ _))

/-- The image that an answer to a consume of the current generation brings. -/
def brought (r : Relay Client) : Label Client → Option (PixelBuffer × Nat)
  | .completed call c =>
    if r.generation = call.generation ∧ c.error = false ∧ 0 ≤ c.ns then
      (c.image.filter usable).map fun i => (i, c.ns.toNat)
    else none
  | _ => none

/-- A producer that is gone or replaced takes its image along. -/
def remember (t : Timed Client) (l : Label Client) (r : Relay Client) : Option (PixelBuffer × Nat) :=
  if r.generation = t.world.relay.generation then (brought t.world.relay l).or t.recent else none

def handle [DecidableEq Client] (t : Timed Client) (e : Event Client) : Timed Client :=
  match if Plausible t e then next t.world e.label else none with
  | none => t
  | some w => ⟨w, e.now, remember t e.label w.relay⟩

/-- The relay after a sequence of events. -/
def after [DecidableEq Client] (es : List (Event Client)) : Timed Client := es.foldl handle {}

/-- A tick with a fresh image keeps it, sends it when a frame is due, and sends
nothing else. -/
def Shows (t : Timed Client) (e : Event Client) : Prop :=
  ∀ target created, e.label = .tick target created → Plausible t e → ∀ i arrival, t.recent = some (i, arrival) →
    arrival ≤ e.now → e.now + periodNs ≤ arrival + 1000000000 →
    let r := (tickAtHostTimeNs t.world.relay target created).1
    r.1.latest = some i ∧ r.1.arrival = arrival ∧ (∀ s, r.2.1 = some s → s.picture = some i) ∧
      (t.world.relay.active = true → (∀ last ∈ t.world.relay.lastOutput, last < target) → created = true →
        ∃ s, r.2.1 = some s)

/-- The image held arrived after the tick's target. -/
def Late (t : Timed Client) (e : Event Client) : Prop :=
  ∃ target created, e.label = .tick target created ∧ Plausible t e ∧ t.world.relay.latest.isSome = true ∧
    target < t.world.relay.arrival

/-! ## The relay's methods, once more -/

/-- A live image is kept, and sent when a frame is due. -/
theorem output_live {r : Relay Client} {nowNs : Nat} (hmax : nowNs < 2 ^ 63) (hlive : live r nowNs = true)
    (created : Bool) :
    let o := output r nowNs created
    o.1.latest = r.latest ∧ (∀ s, o.2.1 = some s → s.picture = r.latest) ∧
      (r.active = true → (∀ last ∈ r.lastOutput, last < nowNs) → created = true → ∃ s, o.2.1 = some s) := by
  intro o
  have ho : o = output r nowNs created := rfl
  unfold output at ho
  rw [if_neg (by omega)] at ho
  simp only [hlive, if_true, Bool.true_and] at ho
  by_cases hstop : r.active = false ∨ (∃ t ∈ r.lastOutput, nowNs ≤ t) ∨ created = false
  · rw [if_pos hstop] at ho
    rw [ho]
    refine ⟨rfl, fun s hs => (nomatch hs), ?_⟩
    intro ha hl hc
    rcases hstop with h | ⟨t, ht, hle⟩ | h
    · exact absurd ha (by simp [h])
    · exact absurd hle (Nat.not_le.mpr (hl t ht))
    · exact absurd hc (by simp [h])
  · rw [if_neg hstop] at ho
    split at ho
    · rw [ho]
      exact ⟨rfl, fun s hs => by rw [← Option.some.inj hs], fun _ _ _ => ⟨_, rfl⟩⟩
    · rw [ho]
      exact ⟨rfl, fun s hs => by rw [← Option.some.inj hs], fun _ _ _ => ⟨_, rfl⟩⟩

/-- An image that is not live is discarded. -/
theorem output_stale {r : Relay Client} {nowNs : Nat} (hmax : nowNs < 2 ^ 63) (hlive : live r nowNs = false)
    (created : Bool) : (output r nowNs created).1.latest = none := by
  unfold output
  rw [if_neg (by omega)]
  simp only [hlive, Bool.false_eq_true, if_false, Bool.false_and]
  split <;> rfl

theorem live_iff (r : Relay Client) (nowNs : Nat) :
    live r nowNs = true ↔ r.latest.isSome = true ∧ r.arrival ≤ nowNs ∧ nowNs ≤ r.arrival + 1000000000 := by
  simp only [live, Bool.and_eq_true, decide_eq_true_eq, and_assoc]
  refine and_congr_right fun _ => and_congr_right ?_
  intro hle
  omega

/-- What an event other than a tick does to the image held: `b` is what it
brings. -/
inductive Effect (r r' : Relay Client) (b : Option (PixelBuffer × Nat)) : Prop where
  | forgets (generation : r'.generation ≠ r.generation) (latest : r'.latest = none)
  | keeps (generation : r'.generation = r.generation) (nothing : b = none) (latest : r'.latest = r.latest)
      (arrival : r'.arrival = r.arrival)
  | takes {i : PixelBuffer} {arrival : Nat} (generation : r'.generation = r.generation)
      (image : b = some (i, arrival)) (latest : r'.latest = some i) (arrived : r'.arrival = arrival)

theorem completed_effect (r : Relay Client) (call : Call Client) (c : Completion) :
    Effect r (completed r call.generation c).1 (brought r (.completed call c)) := by
  unfold completed
  simp only [brought]
  by_cases hg : r.generation = call.generation
  swap
  · have hno : ¬ (r.generation = call.generation ∧ c.error = false ∧ 0 ≤ c.ns) := fun h => hg h.1
    rw [if_pos hg, if_neg hno]
    exact .keeps rfl rfl rfl rfl
  rw [if_neg (not_not.mpr hg)]
  cases he : c.error with
  | true =>
    simp only [if_true]
    split
    · exact .forgets (generation_succ_ne r.generation) rfl
    · exact .keeps rfl (if_neg fun h => nomatch h.2.1) rfl rfl
  | false =>
    simp only [Bool.false_eq_true, if_false, hg, true_and]
    unfold keep
    by_cases hns : 0 ≤ c.ns
    swap
    · rw [if_neg hns]
      cases c.image with
      | none => exact .keeps hg.symm rfl rfl rfl
      | some i =>
        simp only [hns, false_and, if_false]
        exact .keeps hg.symm rfl rfl rfl
    rw [if_pos hns]
    cases c.image with
    | none => exact .keeps hg.symm rfl rfl rfl
    | some i =>
      simp only [hns, true_and]
      cases hu : usable i with
      | true => exact .takes hg.symm (by simp [Option.filter, hu]) rfl rfl
      | false => exact .keeps hg.symm (by simp [Option.filter, hu]) rfl rfl

/-- Every event but a tick. -/
theorem next_effect [DecidableEq Client] {w w' : World Client} {l : Label Client}
    (hl : ∀ target created, l ≠ .tick target created) (h : next w l = some w') :
    Effect w.relay w'.relay (brought w.relay l) := by
  cases l with
  | setAuthorizedProducer client =>
    obtain rfl := Option.some.inj h
    exact .forgets (generation_succ_ne w.relay.generation) rfl
  | setSourceActive active =>
    obtain rfl := Option.some.inj h
    exact .keeps rfl rfl rfl rfl
  | consumeOne =>
    obtain rfl := Option.some.inj h
    rcases consumeOne_cases w.relay with hr | ⟨p, -, -, hr⟩
    · exact .keeps (congrArg (·.1.generation) hr) rfl (congrArg (·.1.latest) hr) (congrArg (·.1.arrival) hr)
    · exact .keeps (congrArg (·.1.generation) hr) rfl (congrArg (·.1.latest) hr) (congrArg (·.1.arrival) hr)
  | completed call c =>
    simp only [next] at h
    split at h
    · obtain rfl := Option.some.inj h
      exact completed_effect w.relay call c
    · cases h
  | tick target created => exact absurd rfl (hl target created)
  | stop =>
    obtain rfl := Option.some.inj h
    exact .forgets (generation_succ_ne w.relay.generation) rfl

/-! A tick. -/

section Tick
variable (r : Relay Client) {target : Nat} (created : Bool)

/-- `consumeOne` does not touch what the rest of a tick reads. -/
theorem consumeOne_frame : (consumeOne r).1.latest = r.latest ∧ (consumeOne r).1.arrival = r.arrival ∧
    (consumeOne r).1.active = r.active ∧ (consumeOne r).1.lastOutput = r.lastOutput := by
  rcases consumeOne_cases r with h | ⟨p, -, -, h⟩ <;> rw [h] <;> exact ⟨rfl, rfl, rfl, rfl⟩

theorem live_consumeOne (nowNs : Nat) : live (consumeOne r).1 nowNs = live r nowNs := by
  obtain ⟨hlatest, harrival, -, -⟩ := consumeOne_frame r
  unfold live
  rw [hlatest, harrival]

/-- A tick holds the same image or none. -/
theorem tick_quiet (target : Nat) : let r' := (tickAtHostTimeNs r target created).1.1
    r'.generation = r.generation ∧ (r'.latest = none ∨ r'.latest = r.latest ∧ r'.arrival = r.arrival) := by
  obtain ⟨hlatest, harrival, -, -⟩ := consumeOne_frame r
  have hquiet := (output_cases (consumeOne r).1 target created).1
  rw [← hlatest, ← harrival]
  exact ⟨hquiet.generation.trans (consumeOne_generation r), hquiet.latest⟩

/-- A tick that finds a live image keeps it, and sends it when a frame is due. -/
theorem tick_live (hmax : target < 2 ^ 63) (hlive : live r target = true) :
    let o := (tickAtHostTimeNs r target created).1
    o.1.latest = r.latest ∧ (∀ s, o.2.1 = some s → s.picture = r.latest) ∧
      (r.active = true → (∀ last ∈ r.lastOutput, last < target) → created = true → ∃ s, o.2.1 = some s) := by
  obtain ⟨hlatest, -, hactive, hlast⟩ := consumeOne_frame r
  rw [← live_consumeOne] at hlive
  rw [← hlatest, ← hactive, ← hlast]
  exact output_live hmax hlive created

theorem tick_stale (hmax : target < 2 ^ 63) (hlive : live r target = false) :
    (tickAtHostTimeNs r target created).1.1.latest = none :=
  output_stale hmax ((live_consumeOne r target).trans hlive) created

end Tick

/-! ## The invariants -/

/-- The image held is the most recent one, and it arrived before now. -/
def Held (t : Timed Client) : Prop :=
  ∀ i, t.world.relay.latest = some i → t.recent = some (i, t.world.relay.arrival) ∧ t.world.relay.arrival ≤ t.clock

/-- The most recent image is held, or more than a second old. -/
def Known (t : Timed Client) : Prop :=
  ∀ i arrival, t.recent = some (i, arrival) →
    (t.world.relay.latest = some i ∧ t.world.relay.arrival = arrival) ∨ arrival + 1000000000 < t.clock

/-- What an answer brings was stamped before now. -/
theorem brought_arrived {t : Timed Client} {e : Event Client} (hp : Plausible t e) {i : PixelBuffer} {arrival : Nat}
    (h : brought t.world.relay e.label = some (i, arrival)) : arrival ≤ e.now := by
  obtain ⟨-, -, htimely⟩ := hp
  cases hl : e.label with
  | completed call c =>
    rw [hl] at h htimely
    simp only [brought] at h
    split at h
    · obtain ⟨j, -, hj⟩ := Option.map_eq_some_iff.mp h
      obtain ⟨-, rfl⟩ := Prod.mk.inj hj
      have hns := htimely.2
      omega
    · cases h
  | _ => rw [hl] at h; cases h

section Step
variable {t : Timed Client} {e : Event Client}

/-- A tick that is not late shows the image while it is fresh. -/
theorem tick_shows (hk : Known t) (hlate : ¬ Late t e) : Shows t e := by
  intro target created hl hp i arrival hrecent harrived hfresh r
  obtain ⟨hclock, hfit, htimely⟩ := hp
  have hle : target ≤ e.now := by rw [hl] at htimely; exact htimely.1
  rcases hk i arrival hrecent with ⟨hlatest, harr⟩ | hold
  · have hbefore : t.world.relay.arrival ≤ target := by
      by_contra hlt
      exact hlate ⟨target, created, hl, ⟨hclock, hfit, htimely⟩, by simp [hlatest], by omega⟩
    have hlive : live t.world.relay target = true := by
      rw [live_iff]
      exact ⟨by simp [hlatest], hbefore, by omega⟩
    obtain ⟨hkept, hsent, hdue⟩ := tick_live t.world.relay created (by omega) hlive
    obtain ⟨-, hnone | ⟨-, hsame⟩⟩ := tick_quiet t.world.relay created target
    · rw [hkept, hlatest] at hnone
      cases hnone
    · exact ⟨hkept.trans hlatest, hsame.trans harr, fun s hs => (hsent s hs).trans hlatest, hdue⟩
  · omega

/-- A late tick discards an image that is younger than a period. -/
theorem late_discards (h : Held t) (hlate : Late t e) : ¬ Shows t e := by
  obtain ⟨target, created, hl, hp, hsome, hlt⟩ := hlate
  obtain ⟨i, hi⟩ := Option.isSome_iff_exists.mp hsome
  obtain ⟨hrecent, harrived⟩ := h i hi
  have htimely := hp.2.2
  rw [hl] at htimely
  have hclock := hp.1
  have hnear := htimely.2
  unfold periodNs at hnear
  intro hshows
  have hkept := (hshows target created hl hp i _ hrecent (by omega) (by unfold periodNs; omega)).1
  have hlive : live t.world.relay target = false := by
    rw [Bool.eq_false_iff]
    intro hlive
    have := ((live_iff _ _).mp hlive).2.1
    omega
  have hnone := tick_stale t.world.relay created (by have := hp.2.1; have := htimely.1; omega) hlive
  rw [hnone] at hkept
  cases hkept

variable [DecidableEq Client]

theorem next_tick {w w' : World Client} {target : Nat} {created : Bool} (h : next w (.tick target created) = some w') :
    w'.relay = (tickAtHostTimeNs w.relay target created).1.1 := by
  obtain rfl := Option.some.inj h
  rfl

variable (t e) in
theorem handle_cases : handle t e = t ∨
    ∃ w, Plausible t e ∧ next t.world e.label = some w ∧ handle t e = ⟨w, e.now, remember t e.label w.relay⟩ := by
  unfold handle
  by_cases hp : Plausible t e
  · rw [if_pos hp]
    cases hn : next t.world e.label with
    | none => exact .inl rfl
    | some w => exact .inr ⟨w, hp, rfl, rfl⟩
  · rw [if_neg hp]
    exact .inl rfl

theorem handle_held (h : Held t) : Held (handle t e) := by
  rcases handle_cases t e with hrun | ⟨w, hp, hn, hrun⟩
  · rw [hrun]
    exact h
  rw [hrun]
  intro i hi
  by_cases htick : ∃ target created, e.label = .tick target created
  · obtain ⟨target, created, hl⟩ := htick
    rw [hl] at hn
    have hquiet := tick_quiet t.world.relay created target
    rw [← next_tick hn] at hquiet
    obtain ⟨hg, hnone | ⟨hlatest, harrival⟩⟩ := hquiet
    · exact absurd (hnone.symm.trans hi) (by simp)
    · obtain ⟨hrecent, hle⟩ := h i (hlatest.symm.trans hi)
      refine ⟨?_, harrival ▸ hle.trans hp.1⟩
      show remember t e.label _ = some (i, _)
      unfold remember
      rw [if_pos hg, hl]
      exact hrecent.trans (congrArg (fun a => some (i, a)) harrival.symm)
  · have heffect := next_effect (fun target created hl => htick ⟨target, created, hl⟩) hn
    cases heffect with
    | forgets generation latest => exact absurd (latest.symm.trans hi) (by simp)
    | keeps generation nothing latest arrival =>
      obtain ⟨hrecent, hle⟩ := h i (latest.symm.trans hi)
      refine ⟨?_, arrival ▸ hle.trans hp.1⟩
      show remember t e.label w.relay = some (i, w.relay.arrival)
      unfold remember
      rw [if_pos generation, nothing, arrival]
      exact hrecent
    | takes generation image latest arrived =>
      obtain rfl := Option.some.inj (latest.symm.trans hi)
      subst arrived
      refine ⟨?_, brought_arrived hp image⟩
      show remember t e.label w.relay = some (_, w.relay.arrival)
      unfold remember
      rw [if_pos generation, image]
      rfl

theorem handle_known (hk : Known t) (hlate : ¬ Late t e) : Known (handle t e) := by
  rcases handle_cases t e with hrun | ⟨w, hp, hn, hrun⟩
  · rw [hrun]
    exact hk
  rw [hrun]
  intro i arrival hrecent
  change remember t e.label w.relay = some (i, arrival) at hrecent
  unfold remember at hrecent
  show (w.relay.latest = some i ∧ w.relay.arrival = arrival) ∨ arrival + 1000000000 < e.now
  by_cases htick : ∃ target created, e.label = .tick target created
  · obtain ⟨target, created, hl⟩ := htick
    rw [hl] at hn
    have hrelay := next_tick hn
    have hquiet := tick_quiet t.world.relay created target
    rw [← hrelay] at hquiet
    obtain ⟨hg, hquiet⟩ := hquiet
    rw [if_pos hg, hl] at hrecent
    have htimely := hp.2.2
    rw [hl] at htimely
    rcases hk i arrival hrecent with ⟨hlatest, harr⟩ | hold
    · cases hlive : live t.world.relay target with
      | true =>
        have hmax : target < 2 ^ 63 := Nat.lt_of_le_of_lt htimely.1 hp.2.1
        have hkept := (tick_live t.world.relay created hmax hlive).1
        rw [← hrelay] at hkept
        rcases hquiet with hnone | ⟨-, hsame⟩
        · rw [hkept, hlatest] at hnone
          cases hnone
        · exact .inl ⟨hkept.trans hlatest, hsame.trans harr⟩
      | false =>
        -- not late, so more than a second old
        have hbefore : t.world.relay.arrival ≤ target := by
          by_contra hlt
          exact hlate ⟨target, created, hl, hp, by simp [hlatest], by omega⟩
        have hstale : ¬ target ≤ t.world.relay.arrival + 1000000000 := fun hle => by
          rw [(live_iff _ _).mpr ⟨by simp [hlatest], hbefore, hle⟩] at hlive
          cases hlive
        have hle := htimely.1
        exact .inr (by omega)
    · exact .inr (by have := hp.1; omega)
  · have heffect := next_effect (fun target created hl => htick ⟨target, created, hl⟩) hn
    cases heffect with
    | forgets generation latest =>
      rw [if_neg generation] at hrecent
      cases hrecent
    | keeps generation nothing latest arrived =>
      rw [if_pos generation, nothing] at hrecent
      rcases hk i arrival hrecent with ⟨hlatest, harr⟩ | hold
      · exact .inl ⟨latest.trans hlatest, arrived.trans harr⟩
      · exact .inr (by have := hp.1; omega)
    | takes generation image latest arrived =>
      rw [if_pos generation, image] at hrecent
      obtain ⟨rfl, rfl⟩ := Prod.mk.inj (Option.some.inj hrecent)
      exact .inl ⟨latest, arrived⟩

end Step

/-- **A fresh image is shown.** Every tick of a run keeps and shows the most
recent image of the producer while it is fresh, and black only when there is
none, if and only if no tick meets an image that arrived after its target. -/
theorem fresh_shown_iff [DecidableEq Client] (es : List (Event Client)) :
    EachAfter (fun pre e => Shows (after pre) e) es ↔ EachAfter (fun pre e => ¬ Late (after pre) e) es := by
  have hheld : Held ({} : Timed Client) := fun i hi => nomatch hi
  have hknown : Known ({} : Timed Client) := fun i arrival hi => nomatch hi
  exact eachAfter_iff (J := Held) (I := Known) (P := Shows) (B := Late) hheld hknown (fun _ _ h => handle_held h)
    (fun _ _ h hk hlate => ⟨tick_shows hk hlate, handle_known hk hlate⟩)
    (fun _ _ h _ hlate => late_discards h hlate) es

/-- An image of the format the relay takes. -/
def frame720p : PixelBuffer := ⟨1, 1280, 720, k420YpCbCr8BiPlanarVideoRange⟩

/-- The first tick consumes, and its answer comes 6667 ns behind the next target. -/
def betweenTargets : List (Event Nat) :=
  [⟨100000000, .setAuthorizedProducer (some 7)⟩, ⟨100000000, .setSourceActive true⟩,
   ⟨100000000, .tick 100000000 true⟩,
   ⟨133340500, .completed ⟨7, 2, 1⟩ ⟨some frame720p, 1, 0, false, false, 133340000⟩⟩]

/-- The tick of that target runs 16 µs late and the image is gone. -/
theorem betweenTargets_black : ¬ Shows (after betweenTargets) ⟨133350000, .tick 133333333 true⟩ := by
  intro h
  have hkept := (h 133333333 true rfl (by decide) frame720p 133340000 (by decide) (by decide) (by decide)).1
  exact absurd hkept (by decide)

end KmVirtualCamera.L5.RelayFreshness
