import Mathlib
import KmVirtualCamera.L2Machine.DcAccounting

/-!
# The depacketizer never stalls

`drain` leaves by one of four exits: there is no keyframe to start at, nothing
is pending, the frame under the cursor is young and incomplete, or the nearest
frame ahead of a gap is young. `Punctual` is what they have in common with the
expiry in front of them: nothing pending is 60 ms old, and a wait at the
cursor is less than 10 ms old.

* `never_stalls`: every call that reaches `drain` leaves the depacketizer
  punctual, and with a timer tick at most `h` ago nothing pending has been
  there for `60000 + h` microseconds or more.
-/
namespace KmVirtualCamera.L2.DcVideo
open KmVirtualCamera.L1.H264 KmVirtualCamera.L1.DcWire

/-! ## The scan for the nearest frame -/

theorem delta_lt (a b : UInt16) : delta a b < 32768 := by
  unfold delta
  have := (a - b).toNat_lt
  split <;> omega

/-- The scan so far: its second part is the distance of its first. -/
structure Scanned (expected : UInt16) (r : Option (UInt16 × Frame) × Int) : Prop where
  found : ∀ e, r.1 = some e → 0 ≤ r.2 ∧ r.2 = delta e.1 expected
  nothing : r.1 = none → r.2 = 32768

theorem Scanned.step {expected : UInt16} {r : Option (UInt16 × Frame) × Int} (h : Scanned expected r)
    (a : UInt16 × Frame) : Scanned expected (pickNearest expected r a) ∧
      (pickNearest expected r a).2 ≤ r.2 ∧
      (0 ≤ delta a.1 expected → (pickNearest expected r a).2 ≤ delta a.1 expected) := by
  unfold pickNearest
  split
  · rename_i hd
    refine ⟨⟨?_, fun hn => by cases hn⟩, by simp only; omega, fun _ => by simp⟩
    intro e he
    cases he
    exact ⟨hd.1, rfl⟩
  · exact ⟨h, le_refl _, fun h0 => by omega⟩

theorem Scanned.fold {expected : UInt16} : ∀ (l : List (UInt16 × Frame)) {r : Option (UInt16 × Frame) × Int},
    Scanned expected r → Scanned expected (l.foldl (pickNearest expected) r) ∧
      (l.foldl (pickNearest expected) r).2 ≤ r.2 ∧
      ∀ e ∈ l, 0 ≤ delta e.1 expected → (l.foldl (pickNearest expected) r).2 ≤ delta e.1 expected
  | [], _, h => ⟨h, le_refl _, by simp⟩
  | a :: l, r, h => by
    obtain ⟨hs, hle, ha⟩ := h.step a
    obtain ⟨hf, hle', hl⟩ := Scanned.fold l hs
    refine ⟨hf, hle'.trans hle, ?_⟩
    intro e he h0
    rcases List.mem_cons.mp he with rfl | he
    · exact hle'.trans (ha h0)
    · exact hl e he h0

theorem nearest_scanned (s : Depacketizer) :
    Scanned s.expected (s.pending.toList.foldl (pickNearest s.expected) (none, 32768)) ∧
      ∀ e ∈ s.pending.toList, 0 ≤ delta e.1 s.expected →
        (s.pending.toList.foldl (pickNearest s.expected) (none, 32768)).2 ≤ delta e.1 s.expected := by
  have h0 : Scanned s.expected (none, 32768) := ⟨fun _ h => (nomatch h), fun _ => rfl⟩
  obtain ⟨hs, -, hl⟩ := Scanned.fold s.pending.toList h0
  exact ⟨hs, hl⟩

/-- Nothing is ahead of the cursor. -/
theorem nearest_none {s : Depacketizer} (h : nearest s = none) :
    ∀ e ∈ s.pending.toList, delta e.1 s.expected < 0 := by
  obtain ⟨hs, hl⟩ := nearest_scanned s
  intro e he
  by_contra hd
  have hle := hl e he (by omega)
  rw [hs.nothing h] at hle
  have := delta_lt e.1 s.expected
  omega

theorem nearest_least {s : Depacketizer} {e : UInt16 × Frame} (h : nearest s = some e) :
    0 ≤ delta e.1 s.expected ∧ ∀ e' ∈ s.pending.toList, 0 ≤ delta e'.1 s.expected →
      delta e.1 s.expected ≤ delta e'.1 s.expected := by
  obtain ⟨hs, hl⟩ := nearest_scanned s
  obtain ⟨h0, heq⟩ := hs.found e h
  rw [heq] at h0 hl
  exact ⟨h0, hl⟩

/-! ## What expires -/

theorem expireOne_mem {now : Int} {c : Depacketizer × Batch} {a e : UInt16 × Frame}
    (h : e ∈ (expireOne now c a).1.pending.toList) :
    e ∈ c.1.pending.toList ∧ (e.1 = a.1 → now - a.2.arrival < 60000) := by
  unfold expireOne at h
  split at h
  · rename_i hlate
    have hm : e ∈ (erase c.1 a.1 a.2).pending.toList := by
      split at h
      · simpa using h
      · exact h
    obtain ⟨hm, hne⟩ := OrdMap.mem_erase.mp hm
    exact ⟨hm, fun heq => absurd heq hne⟩
  · exact ⟨h, fun _ => by omega⟩

theorem expire_fold_mem {now : Int} {e : UInt16 × Frame} : ∀ (l : List (UInt16 × Frame))
    {c : Depacketizer × Batch}, e ∈ (l.foldl (expireOne now) c).1.pending.toList →
    e ∈ c.1.pending.toList ∧ ∀ a ∈ l, e.1 = a.1 → now - a.2.arrival < 60000
  | [], _, h => ⟨h, by simp⟩
  | a :: l, c, h => by
    obtain ⟨h1, h2⟩ := expire_fold_mem l h
    obtain ⟨h1, ha⟩ := expireOne_mem h1
    refine ⟨h1, ?_⟩
    intro x hx heq
    rcases List.mem_cons.mp hx with rfl | hx
    · exact ha heq
    · exact h2 x hx heq

/-- What is still pending after the expiry was pending before, and is young. -/
theorem expire_mem {now : Int} {s : Depacketizer} {b : Batch} {e : UInt16 × Frame}
    (h : e ∈ (expire now s b).1.pending.toList) :
    e ∈ s.pending.toList ∧ now - e.2.arrival < 60000 := by
  obtain ⟨h1, h2⟩ := expire_fold_mem _ h
  exact ⟨h1, h2 e h1 rfl⟩

/-! ## What a drain leaves pending -/

theorem turn_mem {now : Int} {s : Depacketizer} {b : Batch} {c : Depacketizer × Batch}
    (h : Turn now s b c) {e : UInt16 × Frame} (he : e ∈ c.1.pending.toList) : e ∈ s.pending.toList := by
  cases h with
  | handOn f hf hc =>
    rw [(handOn_frame now s b f).1] at he
    exact (OrdMap.mem_erase.mp he).1
  | giveUp f hf hc hl =>
    rw [recover_pending] at he
    exact (OrdMap.mem_erase.mp he).1
  | jump e' hf hp hl =>
    rw [recover_pending] at he
    exact he

theorem drainLoop_mem {now : Int} : ∀ (n : Nat) {s : Depacketizer} {b : Batch} {e : UInt16 × Frame},
    e ∈ (drainLoop now n s b).1.pending.toList → e ∈ s.pending.toList
  | 0, _, _, _, h => h
  | n + 1, s, b, e, h => by
    simp only [drainLoop] at h
    cases hd : drainIter now s b with
    | none =>
      rw [hd] at h
      exact h
    | some c =>
      rw [hd] at h
      exact turn_mem (drainIter_cases hd) (drainLoop_mem n h)

theorem place_mem {s t : Depacketizer} (h : place s = some t) : t.pending = s.pending := by
  unfold place at h
  split at h
  · cases h
    rfl
  · obtain ⟨e, -, rfl⟩ := Option.map_eq_some_iff.mp h
    rfl

theorem drain_of_unplaced {now : Int} {s : Depacketizer} {b : Batch} (h : place (expire now s b).1 = none) :
    drain now s b = expire now s b := by
  unfold drain
  simp only [h]

theorem drain_of_placed {now : Int} {s t : Depacketizer} {b : Batch}
    (h : place (expire now s b).1 = some t) : drain now s b = advance now t (expire now s b).2 := by
  unfold drain
  simp only [h]

/-- A drain adds nothing to what is pending, and what it leaves is young. -/
theorem drain_mem {now : Int} {s : Depacketizer} {b : Batch} {e : UInt16 × Frame}
    (h : e ∈ (drain now s b).1.pending.toList) : e ∈ s.pending.toList ∧ now - e.2.arrival < 60000 := by
  cases ht : place (expire now s b).1 with
  | none =>
    rw [drain_of_unplaced ht] at h
    exact expire_mem h
  | some t =>
    rw [drain_of_placed ht, advance, increase_pending] at h
    have hl := drainLoop_mem _ (mem_purge.mp h).1
    rw [place_mem ht] at hl
    exact expire_mem hl

/-! ## The exits -/

/-- The cursor waits for something young: the frame under it, or the nearest
one ahead of it. -/
def CursorWaits (now : Int) (s : Depacketizer) : Prop :=
  (∃ f, s.pending.find? s.expected = some f ∧ ¬ f.complete ∧ now - f.arrival < 10000) ∨
    (s.pending.find? s.expected = none ∧ ∃ e ∈ s.pending.toList,
      (∀ e' ∈ s.pending.toList, delta e.1 s.expected ≤ delta e'.1 s.expected) ∧
      now - e.2.arrival < 10000)

structure Punctual (now : Int) (s : Depacketizer) : Prop where
  young : ∀ e ∈ s.pending.toList, now - e.2.arrival < 60000
  unplaced : s.initialized = false →
    ∀ e ∈ s.pending.toList, ¬ (e.2.complete ∧ e.2.stableFlags &&& 1 ≠ 0)
  ahead : CursorBehind s
  placed : s.initialized = true → s.pending.toList ≠ [] → CursorWaits now s

/-- The frame under the cursor stays when what is behind the cursor goes. -/
theorem find?_purge (s : Depacketizer) : (purge s).pending.find? s.expected = s.pending.find? s.expected := by
  cases hf : s.pending.find? s.expected with
  | some f =>
    rw [OrdMap.find?_eq_some] at hf ⊢
    exact mem_purge.mpr ⟨hf, (delta_self s.expected).ge⟩
  | none =>
    rw [OrdMap.find?_eq_none] at hf ⊢
    exact fun e he => hf e (mem_purge.mp he).1

/-- The loop is left: what is ahead of the cursor is worth waiting for. -/
theorem waits_of_exit {now : Int} {s : Depacketizer} {b : Batch} (h : drainIter now s b = none)
    (hne : (purge s).pending.toList ≠ []) : CursorWaits now (purge s) := by
  obtain ⟨-, hex, -⟩ := purge_frame s
  obtain ⟨e, he⟩ := List.exists_mem_of_ne_nil _ hne
  obtain ⟨hm, he0⟩ := mem_purge.mp he
  have hsize : s.pending.size ≠ 0 := by
    intro h0
    rw [OrdMap.size_empty_iff.mp h0] at hm
    cases hm
  unfold CursorWaits
  rw [hex, find?_purge]
  unfold drainIter at h
  rw [if_neg hsize] at h
  cases hf : s.pending.find? s.expected with
  | some f =>
    left
    rw [hf] at h
    simp only at h
    split at h
    · cases h
    rename_i hc
    split at h
    · cases h
    rename_i hl
    exact ⟨f, rfl, hc, by omega⟩
  | none =>
    right
    rw [hf] at h
    simp only at h
    cases hn : nearest s with
    | none =>
      have := nearest_none hn e hm
      omega
    | some x =>
      rw [hn] at h
      simp only at h
      split at h
      · rename_i hyoung
        obtain ⟨h0, hleast⟩ := nearest_least hn
        refine ⟨rfl, x, mem_purge.mpr ⟨nearest_some hn, h0⟩, ?_, hyoung⟩
        intro e' he'
        obtain ⟨hm', he0'⟩ := mem_purge.mp he'
        exact hleast e' hm' he0'
      · cases h

theorem drain_waits {now : Int} {s : Depacketizer} {b : Batch} (hi : (drain now s b).1.initialized = true)
    (hne : (drain now s b).1.pending.toList ≠ []) : CursorWaits now (drain now s b).1 := by
  cases ht : place (expire now s b).1 with
  | none =>
    rw [drain_of_unplaced ht] at hi
    unfold place at ht
    split at ht
    · cases ht
    · rename_i h
      exact absurd hi h
  | some t =>
    rw [drain_of_placed ht, advance] at hne ⊢
    rw [increase_pending] at hne
    have hw := waits_of_exit (drainLoop_done now _ t (expire now s b).2 (turnsLeft_le t)) hne
    unfold CursorWaits at hw ⊢
    simpa only [increase_pending, increase_expected] using hw

theorem punctual_drain (now : Int) (s : Depacketizer) (b : Batch) : Punctual now (drain now s b).1 where
  young _ he := (drain_mem he).2
  unplaced hi e he h := h.2 ((drain_settled now s b).unplaced hi e he h.1)
  ahead := fun hi => drain_ahead now s b hi
  placed := drain_waits

theorem Ended.punctual {now : Int} {s : Depacketizer} (h : Ended now s) : Punctual now s := by
  cases h with
  | drained t b => exact punctual_drain now t b
  | recovered t b b' =>
    have hp := punctual_drain now t b
    refine ⟨fun e he => hp.young e (by simpa using he), fun hi e he => ?_, ?_, fun hi hne => ?_⟩
    · exact hp.unplaced (by simpa using hi) e (by simpa using he)
    · intro hi
      rw [recover_pending, recover_expected]
      exact hp.ahead (by simpa using hi)
    · have hw := hp.placed (by simpa using hi) (by simpa using hne)
      unfold CursorWaits at hw ⊢
      simpa only [recover_pending, recover_expected] using hw
  | dropped _ empty unplaced =>
    refine ⟨?_, ?_, ?_, fun _ hne => absurd empty hne⟩
    · rw [empty]
      simp
    · rw [empty]
      simp
    · intro hi
      rw [unplaced] at hi
      cases hi

/-! ## Runs -/

/-- No call is given an earlier time than one before it. -/
def Nondecreasing (cs : List Call) : Prop := (cs.filterMap Call.time).Pairwise (· ≤ ·)

/-- What is pending after a call was pending before, or came with it. -/
theorem accept_mem {now : Int} {s : Depacketizer} {p : DcPacket} {e : UInt16 × Frame}
    (h : e ∈ (accept now s p).1.pending.toList) :
    (∃ e₀ ∈ s.pending.toList, e₀.2.arrival = e.2.arrival) ∨ e.2.arrival = now := by
  have old : ∀ {e : UInt16 × Frame}, e ∈ (drain now s {}).1.pending.toList →
      ∃ e₀ ∈ s.pending.toList, e₀.2.arrival = e.2.arrival := fun he => ⟨_, (drain_mem he).1, rfl⟩
  have ha := accept_cases now s p
  generalize accept now s p = r at ha h
  generalize drain now s {} = c at ha old
  cases ha with
  | stale => exact .inl (old h)
  | overflow => simp [overflow, OrdMap.empty] at h
  | fresh ahead room new =>
    have hm := (drain_mem h).1
    rw [stored_opened] at hm
    rcases OrdMap.mem_insert.mp hm with rfl | ⟨hm, -⟩
    · exact .inr rfl
    · exact .inl (old hm)
  | store f ahead room known =>
    rcases OrdMap.mem_insert.mp (drain_mem h).1 with rfl | ⟨hm, -⟩
    · exact .inl (old (e := (p.seq, f)) (OrdMap.find?_eq_some.mp known))
    · exact .inl (old hm)
  | duplicate => exact .inl (old (drain_mem h).1)
  | conflict f ahead known =>
    have hm := (drain_mem h).1
    rw [recover_pending] at hm
    exact .inl (old (OrdMap.mem_erase.mp hm).1)

theorem call_mem {s : Depacketizer} {c : Call} {e : UInt16 × Frame}
    (h : e ∈ (call s c).1.pending.toList) :
    (∃ e₀ ∈ s.pending.toList, e₀.2.arrival = e.2.arrival) ∨ c.time = some e.2.arrival := by
  cases c with
  | packet p now =>
    simp only [call, processPacketAt] at h
    split at h
    · exact .inl ⟨e, h, rfl⟩
    split at h
    · exact .inl ⟨e, h, rfl⟩
    · rcases accept_mem h with h | h
      · exact .inl h
      · exact .inr (congrArg some h.symm)
  | tick now =>
    simp only [call, onTimerTickAt] at h
    split at h
    · exact .inl ⟨e, h, rfl⟩
    · have hd : e ∈ (drain now s {}).1.pending.toList := by
        split at h
        · simpa using h
        · exact h
      exact .inl ⟨e, (drain_mem hd).1, rfl⟩
  | reset => cases h

theorem run_append (s : Depacketizer) : ∀ cs ds : List Call,
    (run s (cs ++ ds)).1 = (run (run s cs).1 ds).1 := by
  intro cs
  induction cs generalizing s with
  | nil => exact fun _ => rfl
  | cons c cs ih => exact fun ds => ih (call s c).1 ds

/-- Once nothing pending is 60 ms old at time `u`, it stays so by that clock:
what comes later is younger. -/
theorem run_young {u : Int} : ∀ (cs : List Call) {s : Depacketizer},
    (∀ e ∈ s.pending.toList, u - e.2.arrival < 60000) → (∀ c ∈ cs, ∀ t, c.time = some t → u ≤ t) →
    ∀ e ∈ (run s cs).1.pending.toList, u - e.2.arrival < 60000
  | [], _, h, _ => h
  | c :: cs, s, h, hc => by
    refine run_young cs (s := (call s c).1) ?_ fun c' hc' => hc c' (List.mem_cons_of_mem _ hc')
    intro e he
    rcases call_mem he with ⟨e₀, he₀, heq⟩ | ht
    · rw [← heq]
      exact h e₀ he₀
    · have := hc c (List.mem_cons_self ..) _ ht
      omega

/-- A call later in the run is given a later time. -/
theorem Nondecreasing.le_of_tail {pre post : List Call} {c d : Call} {u t : Int}
    (h : Nondecreasing (pre ++ c :: post)) (hc : c.time = some u) (hd : d ∈ post) (ht : d.time = some t) :
    u ≤ t := by
  unfold Nondecreasing at h
  rw [List.filterMap_append, List.filterMap_cons_some hc] at h
  obtain ⟨-, h, -⟩ := List.pairwise_append.mp h
  exact (List.pairwise_cons.mp h).1 t (List.mem_filterMap.mpr ⟨d, hd, ht⟩)

/-- **The depacketizer never stalls.** -/
theorem never_stalls {cs : List Call} (hmono : Nondecreasing cs) :
    (∀ pre c post t, cs = pre ++ c :: post → c.Drains → c.time = some t →
      Punctual t (run {} (pre ++ [c])).1) ∧
    (∀ pre post u T h, cs = pre ++ .tick u :: post → 0 ≤ u → T ≤ u + h →
      ∀ e ∈ (run {} cs).1.pending.toList, T - e.2.arrival < 60000 + h) := by
  constructor
  · intro pre c post t _ hd ht
    rw [run_append]
    exact (call_ended hd ht).punctual
  · intro pre post u T h hcs hu hT e he
    subst hcs
    rw [run_append] at he
    have hp : Punctual u (call (run {} pre).1 (.tick u)).1 := (call_ended (c := .tick u) hu rfl).punctual
    have := run_young post hp.young (fun d hd t ht => hmono.le_of_tail rfl hd ht) e he
    omega

/-- A keyframe of which the second packet never comes is gone after a tick 60 ms later. -/
theorem never_stalls_lost :
    (∀ e ∈ (run {} [.packet firstHalf 5, .tick 60010]).1.pending.toList, 60030 - e.2.arrival < 60000 + 20) ∧
      Punctual 60010 (run {} [.packet firstHalf 5, .tick 60010]).1 := by
  have h := @never_stalls [.packet firstHalf 5, .tick 60010] (by unfold Nondecreasing; decide)
  exact ⟨h.2 [.packet firstHalf 5] [] 60010 60030 20 rfl (by decide) (by decide),
    h.1 [.packet firstHalf 5] (.tick 60010) [] 60010 rfl (by unfold Call.Drains; decide) rfl⟩

end KmVirtualCamera.L2.DcVideo
