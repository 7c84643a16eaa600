import Mathlib
import KmVirtualCamera.Core.LTS
import KmVirtualCamera.Core.OrdMap

/-!
# The callback gate (`CallbackGate`)

A callback enters the gate before it touches its owner and holds a lease until
it is done; the owner closes the gate and waits until no lease is left. Every
section under the mutex is one step, so a label is the thread and what the
section gave it. A lease is destroyed on the thread that took it (the comment
in the header asks for it), so the live leases are a list of threads. A thread
inside `closeAndWait` does nothing else until it is back. Counts are `Nat`: a
`size_t` would have to count 2^64 live leases to wrap.

`asleep` are the closers inside `cv_.wait`, `awake` those a `notify_all` has
reached; both go on by taking the mutex and reading the condition again, the
first kind because a wait may end on its own.

* `excludes`: the counts, what a return of `closeAndWait` means for every later
  step, what a throwing one leaves, and what the last lease does to a closer.
* `throws_shut`: the gate a throwing `closeAndWait` leaves need not be open.
-/
namespace KmVirtualCamera.L5.CallbackGate

variable {Tid : Type} [LinearOrder Tid]

/-- mirrors shared/km/callback_gate.h:42-43 -/
structure Gate (Tid : Type) [LinearOrder Tid] where
  open_ : Bool := true
  users : OrdMap Tid Nat := .empty

/-- The number of leases the gate counts for a thread. -/
def Gate.held (g : Gate Tid) (t : Tid) : Nat := (g.users.find? t).getD 0

/-- The new gate, and whether the lease is a live one.
mirrors shared/km/callback_gate.h:32-36 -/
def enter (g : Gate Tid) (t : Tid) : Gate Tid × Bool :=
  if g.open_ = false then (g, false) else ({ g with users := g.users.insert t (g.held t + 1) }, true)

/-- `none`: the thread is not counted, so `it` is `end()`.
mirrors shared/km/callback_gate.h:22-28 -/
def leave (g : Gate Tid) (t : Tid) : Option (Gate Tid) :=
  (g.users.find? t).map fun n =>
    { g with users := if n - 1 = 0 then g.users.erase t else g.users.insert t (n - 1) }

/-- The condition of the wait.
mirrors shared/km/callback_gate.h:40 -/
def Gate.idle (g : Gate Tid) : Prop := g.users.size = 0

instance (g : Gate Tid) : Decidable g.idle := inferInstanceAs (Decidable (_ = _))

inductive Closing where
  | threw | returned | waits
  deriving DecidableEq

/-- Up to the return, the exception or the first sleep.
mirrors shared/km/callback_gate.h:37-41 -/
def closeAndWait (g : Gate Tid) (t : Tid) : Gate Tid × Closing :=
  if (g.users.find? t).isSome then (g, .threw)
  else ({ g with open_ := false }, if g.idle then .returned else .waits)

/-! ## Threads -/

structure World (Tid : Type) [LinearOrder Tid] where
  gate : Gate Tid := {}
  /-- The thread of every live lease. -/
  leases : List Tid := []
  asleep : List Tid := []
  awake : List Tid := []

/-- The threads inside `closeAndWait`. -/
def World.waiting (w : World Tid) : List Tid := w.asleep ++ w.awake

inductive Label (Tid : Type) where
  | enter (t : Tid) (granted : Bool)
  | leave (t : Tid)
  | close (t : Tid) (r : Closing)
  | recheck (t : Tid) (returned : Bool)

/-- `closeAndWait` returns normally. -/
def Label.Returns : Label Tid → Prop
  | .close _ .returned | .recheck _ true => True
  | _ => False

/-- A live lease is given out. -/
def Label.Grants : Label Tid → Prop
  | .enter _ true => True
  | _ => False

def World.closed (w : World Tid) (t : Tid) : Closing → World Tid
  | .waits => { w with gate := (closeAndWait w.gate t).1, asleep := t :: w.asleep }
  | .threw | .returned => { w with gate := (closeAndWait w.gate t).1 }

/-- One section under the mutex; `none`: the thread cannot do that now. -/
def next (w : World Tid) : Label Tid → Option (World Tid)
  | .enter t granted =>
    if t ∉ w.waiting ∧ (enter w.gate t).2 = granted then
      some { w with gate := (enter w.gate t).1, leases := if granted then t :: w.leases else w.leases }
    else none
  | .leave t =>
    if t ∈ w.leases ∧ t ∉ w.waiting then
      (leave w.gate t).map fun g =>
        { gate := g, leases := w.leases.erase t, asleep := [], awake := w.asleep ++ w.awake }
    else none
  | .close t r =>
    if t ∉ w.waiting ∧ (closeAndWait w.gate t).2 = r then some (w.closed t r) else none
  | .recheck t returned =>
    if t ∈ w.waiting ∧ decide w.gate.idle = returned then
      some { w with asleep := if returned then w.asleep.erase t else t :: w.asleep.erase t,
                    awake := w.awake.erase t }
    else none

def gates : LTS (World Tid) (Label Tid) where
  init w := w = {}
  step w l w' := next w l = some w'

/-! ## The counts -/

theorem held_insert (g : Gate Tid) (t t' : Tid) (n : Nat) :
    Gate.held { g with users := g.users.insert t n } t' = if t' = t then n else g.held t' := by
  unfold Gate.held
  rw [OrdMap.find?_insert]
  split <;> rfl

theorem held_erase (g : Gate Tid) (t t' : Tid) :
    Gate.held { g with users := g.users.erase t } t' = if t' = t then 0 else g.held t' := by
  unfold Gate.held
  rw [OrdMap.find?_erase]
  split <;> rfl

theorem idle_iff (g : Gate Tid) : g.idle ↔ ∀ t, g.users.find? t = none := by
  unfold Gate.idle
  rw [OrdMap.size_empty_iff]
  constructor
  · intro h t
    rw [OrdMap.find?_eq_none, h]
    simp
  · intro h
    refine List.eq_nil_iff_forall_not_mem.mpr ?_
    intro e he
    exact OrdMap.find?_eq_none.mp (h e.1) e he rfl

theorem held_leave {g g' : Gate Tid} {t : Tid} (h : leave g t = some g') (t' : Tid) :
    g'.held t' = if t' = t then g.held t - 1 else g.held t' := by
  obtain ⟨n, hn, rfl⟩ := Option.map_eq_some_iff.mp h
  have hg : g.held t = n := by
    unfold Gate.held
    rw [hn, Option.getD_some]
  split
  · rename_i h0
    rw [held_erase, hg, h0]
  · rw [held_insert, hg]

/-- The counts are those of the live leases, nothing is counted with zero, a
closer has shut the gate and holds no lease, and it sleeps only while somebody
is counted. -/
structure Counted (w : World Tid) : Prop where
  held : ∀ t, w.gate.held t = w.leases.count t
  positive : ∀ t n, w.gate.users.find? t = some n → 0 < n
  shut : w.waiting ≠ [] → w.gate.open_ = false
  apart : ∀ t ∈ w.waiting, t ∉ w.leases
  asleep : w.gate.idle → w.asleep = []

section Counts
variable {w w' : World Tid} {t : Tid}

theorem Counted.counted_iff (h : Counted w) (t : Tid) : (w.gate.users.find? t).isSome = true ↔ t ∈ w.leases := by
  have hc := h.held t
  unfold Gate.held at hc
  rw [← List.count_pos_iff, ← hc]
  cases hf : w.gate.users.find? t with
  | none => simp
  | some n => simpa using h.positive t n hf

theorem Counted.idle_iff (h : Counted w) : w.gate.idle ↔ w.leases = [] := by
  rw [CallbackGate.idle_iff, List.eq_nil_iff_forall_not_mem]
  refine forall_congr' ?_
  intro t
  rw [← h.counted_iff t]
  simp

theorem positive_leave {g g' : Gate Tid} (hg : ∀ t n, g.users.find? t = some n → 0 < n)
    (h : leave g t = some g') : ∀ t n, g'.users.find? t = some n → 0 < n := by
  obtain ⟨n, hn, rfl⟩ := Option.map_eq_some_iff.mp h
  intro t' m hm
  simp only at hm
  split at hm
  · rw [OrdMap.find?_erase] at hm
    split at hm
    · cases hm
    · exact hg t' m hm
  · rw [OrdMap.find?_insert] at hm
    split at hm
    · rename_i hne _
      cases hm
      omega
    · exact hg t' m hm

theorem Counted.enter (h : Counted w) {granted : Bool} (hs : next w (.enter t granted) = some w') :
    Counted w' := by
  simp only [next] at hs
  split at hs
  · rename_i hgo
    obtain ⟨hfree, hres⟩ := hgo
    cases hs
    unfold CallbackGate.enter at hres ⊢
    split at hres
    · rename_i hshut
      subst hres
      rw [if_pos hshut]
      exact ⟨h.held, h.positive, h.shut, h.apart, h.asleep⟩
    · rename_i hopen
      subst hres
      rw [if_neg hopen]
      -- nobody waits at an open gate
      have hnone : w.waiting = [] := by
        by_contra hw
        exact hopen (h.shut hw)
      obtain ⟨hsleep, -⟩ := List.append_eq_nil_iff.mp hnone
      refine ⟨?_, ?_, fun hw => absurd hnone hw, ?_, fun _ => hsleep⟩
      · intro t'
        simp only [if_true]
        rw [held_insert, List.count_cons, ← h.held t']
        by_cases ht : t' = t
        · rw [if_pos ht, ht]
          simp
        · rw [if_neg ht]
          simp [Ne.symm ht]
      · intro t' n hn
        simp only [OrdMap.find?_insert] at hn
        split at hn
        · cases hn
          exact Nat.succ_pos _
        · exact h.positive t' n hn
      · intro t' ht'
        have hw : t' ∈ w.waiting := ht'
        rw [hnone] at hw
        cases hw
  · cases hs

theorem Counted.leave (h : Counted w) (hs : next w (.leave t) = some w') : Counted w' := by
  simp only [next] at hs
  split at hs
  · obtain ⟨g, hg, rfl⟩ := Option.map_eq_some_iff.mp hs
    have hopen : g.open_ = w.gate.open_ := by
      obtain ⟨n, -, rfl⟩ := Option.map_eq_some_iff.mp hg
      rfl
    refine ⟨?_, positive_leave h.positive hg, ?_, ?_, fun _ => rfl⟩
    · intro t'
      rw [held_leave hg, List.count_erase, h.held, h.held]
      by_cases ht : t' = t
      · rw [if_pos ht, ht]
        simp
      · rw [if_neg ht]
        simp [Ne.symm ht]
    · intro hw
      rw [hopen]
      exact h.shut hw
    · intro t' ht'
      exact fun hmem => h.apart t' ht' (List.mem_of_mem_erase hmem)
  · cases hs

theorem Counted.close (h : Counted w) {r : Closing} (hs : next w (.close t r) = some w') : Counted w' := by
  simp only [next] at hs
  split at hs
  · rename_i hgo
    obtain ⟨hfree, hres⟩ := hgo
    cases hs
    unfold closeAndWait at hres
    split at hres
    · rename_i hcounted
      subst hres
      unfold World.closed closeAndWait
      rw [if_pos hcounted]
      exact ⟨h.held, h.positive, h.shut, h.apart, h.asleep⟩
    · rename_i hcounted
      have hfree' : t ∉ w.leases := fun hm => hcounted ((h.counted_iff t).mpr hm)
      simp only at hres
      split at hres
      · subst hres
        unfold World.closed closeAndWait
        rw [if_neg hcounted]
        exact ⟨h.held, h.positive, fun _ => rfl, h.apart, h.asleep⟩
      · rename_i hbusy
        subst hres
        unfold World.closed closeAndWait
        rw [if_neg hcounted]
        refine ⟨h.held, h.positive, fun _ => rfl, ?_, fun hidle => absurd hidle hbusy⟩
        intro t' ht'
        rcases List.mem_cons.mp ht' with rfl | ht'
        · exact hfree'
        · exact h.apart t' ht'
  · cases hs

theorem Counted.recheck (h : Counted w) {returned : Bool} (hs : next w (.recheck t returned) = some w') :
    Counted w' := by
  simp only [next] at hs
  split at hs
  · rename_i hgo
    obtain ⟨hw, hres⟩ := hgo
    cases hs
    have hsub : ∀ t' ∈ (if returned then w.asleep.erase t else t :: w.asleep.erase t) ++ w.awake.erase t,
        t' ∈ w.waiting := by
      intro t' ht'
      rcases List.mem_append.mp ht' with ht' | ht'
      · cases returned with
        | true => exact List.mem_append_left _ (List.mem_of_mem_erase ht')
        | false =>
          rcases List.mem_cons.mp ht' with rfl | ht'
          · exact hw
          · exact List.mem_append_left _ (List.mem_of_mem_erase ht')
      · exact List.mem_append_right _ (List.mem_of_mem_erase ht')
    refine ⟨h.held, h.positive, fun _ => h.shut (List.ne_nil_of_mem hw),
      fun t' ht' => h.apart t' (hsub t' ht'), ?_⟩
    intro hidle
    have hidle' : w.gate.idle := hidle
    rw [decide_eq_true hidle'] at hres
    subst hres
    simp only [if_true, h.asleep hidle']
    rfl
  · cases hs

end Counts

theorem counted_inductive : (gates : LTS (World Tid) (Label Tid)).Inductive Counted where
  init w hw := by
    subst hw
    refine ⟨?_, ?_, fun hw => absurd rfl hw, ?_, fun _ => rfl⟩
    · intro t
      rfl
    · intro t n hn
      cases hn
    · intro t ht
      cases ht
  step w l w' h hs := by
    cases l with
    | enter t granted => exact h.enter hs
    | leave t => exact h.leave hs
    | close t r => exact h.close hs
    | recheck t returned => exact h.recheck hs

/-! ## After a return -/

/-- The gate is shut for good. -/
structure Shut (w : World Tid) : Prop where
  open_ : w.gate.open_ = false
  leases : w.leases = []

theorem enter_shut {g : Gate Tid} (h : g.open_ = false) (t : Tid) : enter g t = (g, false) := by
  unfold enter
  rw [if_pos h]

/-- No step opens a shut gate again or takes a lease at it. -/
theorem Shut.step {w w' : World Tid} {l : Label Tid} (h : Shut w) (hs : next w l = some w') :
    Shut w' ∧ ¬ l.Grants := by
  cases l with
  | enter t granted =>
    simp only [next, enter_shut h.open_] at hs
    split at hs
    · rename_i hgo
      obtain ⟨-, rfl⟩ := hgo
      cases hs
      exact ⟨⟨h.open_, h.leases⟩, id⟩
    · cases hs
  | leave t =>
    simp only [next, h.leases] at hs
    split at hs
    · rename_i hgo
      cases hgo.1
    · cases hs
  | close t r =>
    simp only [next] at hs
    split at hs
    · cases hs
      refine ⟨⟨?_, ?_⟩, id⟩
      · have hopen : (closeAndWait w.gate t).1.open_ = false := by
          unfold closeAndWait
          split
          · exact h.open_
          · rfl
        cases r <;> exact hopen
      · cases r <;> exact h.leases
    · cases hs
  | recheck t returned =>
    simp only [next] at hs
    split at hs
    · cases hs
      exact ⟨⟨h.open_, h.leases⟩, id⟩
    · cases hs

theorem Shut.run {w w' : World Tid} {ls : List (Label Tid)} (hr : gates.Run w ls w') :
    Shut w → w'.leases = [] ∧ ∀ l ∈ ls, ¬ l.Grants := by
  induction hr with
  | nil => exact fun h => ⟨h.leases, by simp⟩
  | cons hs _ ih =>
    intro h
    obtain ⟨h', hl⟩ := h.step hs
    obtain ⟨hend, hall⟩ := ih h'
    refine ⟨hend, ?_⟩
    intro l hmem
    rcases List.mem_cons.mp hmem with rfl | hmem
    · exact hl
    · exact hall l hmem

/-- `closeAndWait` comes back normally only when nobody is inside. -/
theorem Counted.returned {w w' : World Tid} {l : Label Tid} (h : Counted w) (hs : next w l = some w')
    (hl : l.Returns) : Shut w' := by
  have hidle : ∀ {t r}, l = .close t r → r = .returned → (w.gate.users.find? t).isSome = false ∧ w.gate.idle := by
    intro t r hlt hr
    subst hlt hr
    simp only [next] at hs
    split at hs
    · rename_i hgo
      have hres := hgo.2
      unfold closeAndWait at hres
      split at hres
      · cases hres
      · rename_i hcounted
        simp only at hres
        split at hres
        · rename_i hi
          exact ⟨by simpa using hcounted, hi⟩
        · cases hres
    · cases hs
  cases l with
  | close t r =>
    cases r with
    | returned =>
      obtain ⟨hcounted, hi⟩ := hidle rfl rfl
      simp only [next] at hs
      split at hs
      · cases hs
        refine ⟨?_, (h.idle_iff).mp hi⟩
        unfold World.closed closeAndWait
        rw [if_neg (by rw [hcounted]; simp)]
      · cases hs
    | threw => exact hl.elim
    | waits => exact hl.elim
  | recheck t returned =>
    cases returned with
    | true =>
      simp only [next] at hs
      split at hs
      · rename_i hgo
        obtain ⟨hw, hres⟩ := hgo
        cases hs
        exact ⟨h.shut (List.ne_nil_of_mem hw), (h.idle_iff).mp (of_decide_eq_true hres)⟩
      · cases hs
    | false => exact hl.elim
  | enter t granted => exact hl.elim
  | leave t => exact hl.elim

/-- What the gate promises about a run up to `w`. -/
structure Excludes (ls : List (Label Tid)) (w : World Tid) : Prop where
  /-- The count of a thread is the number of its live leases. -/
  held : ∀ t, w.gate.held t = w.leases.count t
  /-- Once `closeAndWait` has returned there is no lease, and none is given out. -/
  returned : ∀ pre l post, ls = pre ++ l :: post → l.Returns →
    w.leases = [] ∧ ∀ l' ∈ post, ¬ l'.Grants
  /-- A thread with a lease gets an exception, and nothing else happens. -/
  throws : ∀ t ∈ w.leases, next w (.close t .threw) = some w ∧
    ∀ r w', next w (.close t r) = some w' → r = .threw ∧ w' = w
  /-- The lease that goes last leaves every closer awake, with its condition true. -/
  last : ∀ t w', next w (.leave t) = some w' → w'.leases = [] → w'.gate.idle ∧ w'.asleep = []
  /-- No closer is asleep while nobody is inside. -/
  awake : w.leases = [] → w.gate.idle ∧ w.asleep = []

theorem Counted.throws {w : World Tid} (h : Counted w) {t : Tid} (ht : t ∈ w.leases) :
    next w (.close t .threw) = some w ∧
      ∀ r w', next w (.close t r) = some w' → r = .threw ∧ w' = w := by
  have hclose : closeAndWait w.gate t = (w.gate, .threw) := by
    unfold closeAndWait
    rw [if_pos ((h.counted_iff t).mpr ht)]
  have hfree : t ∉ w.waiting := fun hw => h.apart t hw ht
  constructor
  · simp only [next, hclose, hfree, not_false_eq_true, and_self, if_true, World.closed]
  · intro r w' hs
    simp only [next, hclose] at hs
    split at hs
    · rename_i hgo
      obtain ⟨-, rfl⟩ := hgo
      cases hs
      refine ⟨rfl, ?_⟩
      simp only [World.closed, hclose]
    · cases hs

/-- **The gate excludes callbacks after close.** -/
theorem excludes {w : World Tid} {ls : List (Label Tid)} (hr : gates.Run {} ls w) : Excludes ls w := by
  have h : Counted w := counted_inductive.run hr (counted_inductive.init _ rfl)
  refine ⟨h.held, ?_, fun t ht => h.throws ht, ?_,
    ?_⟩
  · intro pre l post hls hl
    subst hls
    obtain ⟨u, hpre, hrest⟩ := hr.split
    cases hrest with
    | cons hs hpost =>
      have hu : Counted u := counted_inductive.run hpre (counted_inductive.init _ rfl)
      exact (hu.returned hs hl).run hpost
  · intro t w' hs hnone
    have h' : Counted w' := h.leave hs
    exact ⟨(h'.idle_iff).mpr hnone, h'.asleep ((h'.idle_iff).mpr hnone)⟩
  · intro hnone
    exact ⟨(h.idle_iff).mpr hnone, h.asleep ((h.idle_iff).mpr hnone)⟩

/-! ## Two closers -/

section Scenario

/-- Thread 1 is inside; thread 2 closes and waits. -/
def overlap : List (Label Nat) := [.enter 1 true, .close 2 .waits]

abbrev playGate (ls : List (Label Nat)) : World Nat := LTS.played next (fun _ _ => True) {} ls

theorem overlap_run : gates.Run {} overlap (playGate overlap) :=
  (LTS.played_run (M := gates) (fun _ _ _ h => h) (by decide +kernel)).of_guarded

theorem excludes_overlap : (playGate overlap).gate.held 1 = (playGate overlap).leases.count 1 :=
  (excludes overlap_run).held 1

/-- The gate a throwing `closeAndWait` leaves as it was may be shut already. -/
theorem throws_shut : ∃ w : World Nat, gates.Run {} overlap w ∧ 1 ∈ w.leases ∧
    next w (.close 1 .threw) = some w ∧ w.gate.open_ = false := by
  refine ⟨playGate overlap, overlap_run, by decide +kernel, ?_, by decide +kernel⟩
  rfl

end Scenario

end KmVirtualCamera.L5.CallbackGate
