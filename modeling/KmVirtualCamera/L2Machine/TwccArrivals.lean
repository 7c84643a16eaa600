import Mathlib
import KmVirtualCamera.L2Machine.TwccProgress

/-!
# What the transport-cc feedback says of the arrivals

The ring has 2048 slots and the pending range can be longer, so a slot can be
read for a number that is not the one it was written for; and a late packet
moves the base back over slots that have been reported and cleared.

* `no_phantom`: as long as the range fits in the ring, a packet reports what
  has arrived since the last report, at the times it arrived.
* `no_false_loss`: as long as no arrival stretches the range over a number
  that has been reported, no number that has arrived is reported missing.
* `phantom_reported`, `loss_reported`: runs in which they do not hold.
-/
namespace KmVirtualCamera.L2.Twcc
open KmVirtualCamera.L1.TwccFeedback

/-- The number is pending. -/
def InRange (s : TwccReceiver) (x : UInt16) : Prop :=
  s.hasPending = true ∧ (x - s.pendingBaseSeq).toNat < pending s

/-- A distance seen from another base. -/
theorem offset_from (base y x : UInt16) :
    (x - y).toNat = ((x - base).toNat + 65536 - (y - base).toNat) % 65536 := by
  have hb := base.toNat_lt
  have hx := x.toNat_lt
  have hy := y.toNat_lt
  simp only [UInt16.toNat_sub]
  omega

theorem offset_inj (base : UInt16) {x y : UInt16} (h : (x - base).toNat = (y - base).toNat) : x = y := by
  have hx := add_offset base x
  rw [h, add_offset] at hx
  exact hx.symm

/-! ## Phantoms -/

/-- The arrivals that have not been reported: the log's last `onPacket` of each
number since a packet covered it, or since a reset. -/
def note (arrivals : UInt16 → Option Int) : Op → UInt16 → Option Int
  | .onPacket seq t _ => Function.update arrivals seq (some t)
  | .build _ _ p => fun x =>
    if ((decodeFeedback p).bind fun f => statusOf f x).isSome then none else arrivals x
  | .reset => fun _ => none

def arrivals (log : List Op) : UInt16 → Option Int := log.foldl note fun _ => none

/-- The arrivals of the numbers a packet covers. -/
def heard (log : List Op) (f : Feedback) : List (Option Int) :=
  (window f.baseSeq f.statusCount).map (arrivals log)

/-- An arrival keeps the pending range within the ring: it is less than the
ring's size above the base, or below the end. -/
def InRing (s : TwccReceiver) : Op → Prop
  | .onPacket seq _ _ => s.hasPending = true →
    (seq - s.pendingBaseSeq).toNat < kRingSize ∨ (s.pendingEndSeq - 1 - seq).toNat < kRingSize
  | .build .. => True
  | .reset => True

/-- The ring holds the arrivals, each at its number's slot, and nothing else. -/
structure Holds (a : UInt16 → Option Int) (s : TwccReceiver) : Prop where
  fits : s.hasPending = true → 1 ≤ pending s ∧ pending s ≤ kRingSize
  inside : ∀ x, InRange s x → observed s.records x = a x
  outside : ∀ x, ¬ InRange s x → a x = none
  clean : ∀ x, (observed s.records x).isSome →
    s.hasPending = true ∧ (x - s.pendingBaseSeq).toNat % kRingSize < pending s

theorem holds_init : Holds (fun _ => none) {} where
  fits h := by cases h
  inside x h := by cases h.1
  outside _ _ := rfl
  clean x h := by cases h

theorem holds_onPacket {a : UInt16 → Option Int} {s : TwccReceiver} (h : Holds a s) {seq : UInt16} {t : Int}
    {size : UInt16} (hfits : pending (onPacket s seq t size) ≤ kRingSize)
    (hself : InRange (onPacket s seq t size) seq)
    (hold : ∀ x, InRange s x → InRange (onPacket s seq t size) x)
    (hslot : ∀ x, InRange (onPacket s seq t size) x → slot x = slot seq → x = seq)
    (hnew : ∀ x, InRange (onPacket s seq t size) x → ¬ InRange s x → observed s.records x = none)
    (hclean : ∀ x, (observed s.records x).isSome →
      (x - (onPacket s seq t size).pendingBaseSeq).toNat % kRingSize < pending (onPacket s seq t size)) :
    Holds (Function.update a seq (some t)) (onPacket s seq t size) where
  fits _ := ⟨by have := hself.2; omega, hfits⟩
  inside x hx := by
    rw [onPacket_observed]
    by_cases hxs : x = seq
    · rw [hxs, if_pos rfl, Function.update_self]
    · rw [if_neg fun he => hxs (hslot x hx he), Function.update_of_ne hxs]
      by_cases hin : InRange s x
      · exact h.inside x hin
      · rw [hnew x hx hin, h.outside x hin]
  outside x hx := by
    have hxs : x ≠ seq := by
      rintro rfl
      exact hx hself
    rw [Function.update_of_ne hxs]
    exact h.outside x fun hin => hx (hold x hin)
  clean x hx := by
    refine ⟨hself.1, ?_⟩
    rw [onPacket_observed] at hx
    by_cases he : slot x = slot seq
    · have hlt := hself.2
      rw [slot_eq_iff (onPacket s seq t size).pendingBaseSeq] at he
      rw [he, Nat.mod_eq_of_lt (by omega)]
      exact hlt
    · rw [if_neg he] at hx
      exact hclean x hx

theorem holds_first {a : UInt16 → Option Int} {s : TwccReceiver} (h : Holds a s) (hp : s.hasPending = false)
    (seq : UInt16) (t : Int) (size : UInt16) :
    Holds (Function.update a seq (some t)) (onPacket s seq t size) := by
  obtain ⟨hbase, hend⟩ := onPacket_first hp seq t size
  have hpend : pending (onPacket s seq t size) = 1 := by
    unfold pending
    rw [hbase, hend, add_sub_cancel_left]
    rfl
  have hnot : ¬ s.hasPending = true := by rw [hp]; exact Bool.false_ne_true
  have honly : ∀ x, InRange (onPacket s seq t size) x → x = seq := by
    rintro x ⟨-, hx⟩
    rw [hpend, hbase] at hx
    exact offset_inj seq (by simp; omega)
  refine holds_onPacket h (by rw [hpend]; decide) ⟨onPacket_hasPending s seq t size, ?_⟩
    (fun x hx => absurd hx.1 hnot) (fun x hx _ => honly x hx) (fun x _ _ => ?_)
    (fun x hx => absurd (h.clean x hx).1 hnot)
  · rw [hpend, hbase, sub_self]
    decide
  · rw [← Option.not_isSome_iff_eq_none]
    exact fun hx => hnot (h.clean x hx).1

/-- An arrival within the ring extends the range at the end, or not at all, or
moves its base back. -/
theorem onPacket_range {s : TwccReceiver} (hp : s.hasPending = true) (hpos : 1 ≤ pending s)
    (hring : pending s ≤ kRingSize) {seq : UInt16} {t : Int} {size : UInt16}
    (h : InRing s (.onPacket seq t size)) :
    ((onPacket s seq t size).pendingBaseSeq = s.pendingBaseSeq ∧
      (seq - s.pendingBaseSeq).toNat < kRingSize ∧
      pending (onPacket s seq t size) = max (pending s) ((seq - s.pendingBaseSeq).toNat + 1)) ∨
    ((onPacket s seq t size).pendingBaseSeq = seq ∧
      pending (onPacket s seq t size) + (seq - s.pendingBaseSeq).toNat = pending s + 65536 ∧
      pending (onPacket s seq t size) ≤ kRingSize) := by
  obtain ⟨hbase, hend⟩ := onPacket_later hp seq t size
  have hin := h hp
  have hone : (1 : UInt16).toNat = 1 := rfl
  have hb := s.pendingBaseSeq.toNat_lt
  have he := s.pendingEndSeq.toNat_lt
  have hs := seq.toNat_lt
  have hpend : pending (onPacket s seq t size) =
      ((onPacket s seq t size).pendingEndSeq - (onPacket s seq t size).pendingBaseSeq).toNat := rfl
  rw [hpend, hbase, hend]
  unfold pending kRingSize at *
  by_cases hlow : (seq - s.pendingBaseSeq).toNat < 2048
  · left
    rw [if_neg (by omega)]
    refine ⟨rfl, hlow, ?_⟩
    simp only [UInt16.toNat_sub] at *
    split
    · rw [UInt16.toNat_add, hone]
      omega
    · omega
  · right
    simp only [UInt16.toNat_sub, hone] at *
    rw [if_pos (by omega), if_neg (by omega)]
    refine ⟨rfl, ?_, ?_⟩
    · omega
    · omega

theorem holds_later {a : UInt16 → Option Int} {s : TwccReceiver} (h : Holds a s) (hp : s.hasPending = true)
    {seq : UInt16} {t : Int} {size : UInt16} (hin : InRing s (.onPacket seq t size)) :
    Holds (Function.update a seq (some t)) (onPacket s seq t size) := by
  obtain ⟨hpos, hring⟩ := h.fits hp
  have hpending := onPacket_hasPending s seq t size
  have hnone : ∀ x, pending s ≤ (x - s.pendingBaseSeq).toNat % kRingSize → observed s.records x = none := by
    intro x hx
    rw [← Option.not_isSome_iff_eq_none]
    intro hobs
    have := (h.clean x hobs).2
    omega
  rcases onPacket_range hp hpos hring hin with ⟨hbase, hq, hpend⟩ | ⟨hbase, hpend, hfit⟩
  · -- The base stays.
    refine holds_onPacket h (by omega) ⟨hpending, by rw [hbase]; omega⟩ (fun x hx => ⟨hpending, ?_⟩)
      (fun x hx he => ?_) (fun x hx hnot => ?_) (fun x hx => ?_)
    · rw [hbase]
      have := hx.2
      omega
    · have hlt := hx.2
      rw [hbase] at hlt
      rw [slot_eq_iff s.pendingBaseSeq, Nat.mod_eq_of_lt (by omega), Nat.mod_eq_of_lt hq] at he
      exact offset_inj s.pendingBaseSeq he
    · have hlt := hx.2
      have hge : pending s ≤ (x - s.pendingBaseSeq).toNat := Nat.not_lt.mp fun hlt => hnot ⟨hp, hlt⟩
      rw [hbase] at hlt
      exact hnone x (by rw [Nat.mod_eq_of_lt (by omega)]; exact hge)
    · have := (h.clean x hx).2
      rw [hbase]
      omega
  · -- The base moves back to the number.
    have hq := (seq - s.pendingBaseSeq).toNat_lt
    have hoff := fun x => offset_from s.pendingBaseSeq seq x
    unfold kRingSize at *
    refine holds_onPacket h hfit ⟨hpending, by rw [hbase, sub_self]; show 0 < _; omega⟩
      (fun x hx => ⟨hpending, ?_⟩) ?_ ?_ ?_
    · rw [hbase, hoff x]
      have := hx.2
      omega
    · intro x hx he
      have hlt := hx.2
      rw [hbase] at hlt
      rw [slot_eq_iff seq, sub_self] at he
      have hzero : (0 : UInt16).toNat = 0 := rfl
      unfold kRingSize at he
      exact offset_inj seq (by rw [sub_self]; omega)
    · intro x hx hnot
      have hlt := hx.2
      have hge : pending s ≤ (x - s.pendingBaseSeq).toNat := Nat.not_lt.mp fun hlt => hnot ⟨hp, hlt⟩
      have hx := (x - s.pendingBaseSeq).toNat_lt
      rw [hbase, hoff x] at hlt
      exact hnone x (by omega)
    · intro x hx
      have := (h.clean x hx).2
      have hx := (x - s.pendingBaseSeq).toNat_lt
      unfold kRingSize at *
      rw [hbase, hoff x]
      omega

theorem holds_arrival {a : UInt16 → Option Int} {s : TwccReceiver} (h : Holds a s) {seq : UInt16} {t : Int}
    {size : UInt16} (hin : InRing s (.onPacket seq t size)) :
    Holds (note a (.onPacket seq t size)) (onPacket s seq t size) := by
  cases hp : s.hasPending with
  | false => exact holds_first h hp seq t size
  | true => exact holds_later h hp hin

theorem note_nil (a : UInt16 → Option Int) (senderSsrc mediaSsrc : UInt32) :
    note a (.build senderSsrc mediaSsrc []) = a := rfl

/-- A packet takes the numbers of its block off the arrivals. -/
theorem note_packet (a : UInt16 → Option Int) {s : TwccReceiver} {p : Bytes}
    (h : decodeFeedback p = some (feedback s)) (senderSsrc mediaSsrc : UInt32) (x : UInt16) :
    note a (.build senderSsrc mediaSsrc p) x = if x ∈ block s then none else a x := by
  obtain ⟨hst, hcover⟩ := statusOf_feedback s x
  show (if ((decodeFeedback p).bind fun f => statusOf f x).isSome then none else a x) = _
  rw [h, Option.bind_some]
  by_cases hmem : x ∈ block s
  · obtain ⟨st, hstatus⟩ := hcover hmem
    rw [if_pos hmem, hstatus]
    rfl
  · have hnone : statusOf (feedback s) x = none := by
      rw [← Option.not_isSome_iff_eq_none, Option.isSome_iff_exists]
      rintro ⟨st, hstatus⟩
      exact hmem (hst st hstatus).1
    rw [if_neg hmem, hnone]
    rfl

/-- What is pending after a packet is what was beyond its block. -/
theorem inRange_reported (s : TwccReceiver) (hp : s.hasPending = true) (x : UInt16) :
    InRange (reported s) x ↔ InRange s x ∧ x ∉ block s := by
  have hle : packetStatusCount s ≤ pending s := Nat.min_le_right _ _
  have hall : pending s < 2 ^ 16 := (s.pendingEndSeq - s.pendingBaseSeq).toNat_lt
  have hpend := reported_pending s
  have hoff := offset_from s.pendingBaseSeq (s.pendingBaseSeq + UInt16.ofNat (packetStatusCount s)) x
  rw [offset_ofNat _ (by omega)] at hoff
  have hx := (x - s.pendingBaseSeq).toNat_lt
  unfold InRange
  rw [reported_hasPending, mem_block, hpend, hp,
    show (reported s).pendingBaseSeq = s.pendingBaseSeq + UInt16.ofNat (packetStatusCount s) from rfl]
  constructor
  · intro ⟨_, hlt⟩
    exact ⟨⟨rfl, by omega⟩, by omega⟩
  · intro ⟨⟨_, hlt⟩, hnot⟩
    omega

theorem holds_packet {a : UInt16 → Option Int} {s : TwccReceiver} (h : Holds a s)
    (hp : s.hasPending = true)
    {p : Bytes} (hdecode : decodeFeedback p = some (feedback s)) (senderSsrc mediaSsrc : UInt32) :
    Holds (note a (.build senderSsrc mediaSsrc p)) (reported s) := by
  have hpend := reported_pending s
  obtain ⟨-, hring⟩ := h.fits hp
  refine ⟨?_, ?_, ?_, ?_⟩
  · intro hp'
    have := (reported_hasPending s).mp hp'
    omega
  · intro x hx
    obtain ⟨hin, hnot⟩ := (inRange_reported s hp x).mp hx
    have hlt := hin.2
    have hge := Nat.not_lt.mp fun hlt => hnot (mem_block.mpr hlt)
    rw [note_packet a hdecode, if_neg hnot, observed_reported, Nat.mod_eq_of_lt (by omega),
      if_neg (Nat.not_lt.mpr hge), h.inside x hin]
  · intro x hx
    rw [note_packet a hdecode]
    by_cases hmem : x ∈ block s
    · rw [if_pos hmem]
    · rw [if_neg hmem]
      exact h.outside x fun hin => hx ((inRange_reported s hp x).mpr ⟨hin, hmem⟩)
  · intro x hx
    rw [observed_reported] at hx
    by_cases hin : (x - s.pendingBaseSeq).toNat % kRingSize < packetStatusCount s
    · rw [if_pos hin] at hx
      cases hx
    · rw [if_neg hin] at hx
      have hlt := (h.clean x hx).2
      have hcount := count_le s
      have hoff := offset_from s.pendingBaseSeq (s.pendingBaseSeq + UInt16.ofNat (packetStatusCount s)) x
      rw [offset_ofNat _ (by omega)] at hoff
      have hbase : (reported s).pendingBaseSeq = s.pendingBaseSeq + UInt16.ofNat (packetStatusCount s) := rfl
      unfold kRingSize at *
      rw [reported_hasPending, hbase]
      omega

theorem holds_historical : (lts.guarded InRing).Historical fun log s => Holds (arrivals log) s where
  init s h := by
    rw [show s = {} from h]
    exact holds_init
  step log s op s' h hst := by
    obtain ⟨hst, hin⟩ := hst
    have hlog : arrivals (log ++ [op]) = note (arrivals log) op := List.foldl_concat note _ op log
    rw [hlog]
    cases op with
    | onPacket seq t size =>
      rw [show s' = onPacket s seq t size from hst]
      exact holds_arrival h hin
    | build senderSsrc mediaSsrc p =>
      by_cases hp : p = []
      · subst hp
        rw [build_nil hst, note_nil]
        exact h
      · obtain ⟨rfl, hpending, -, -, hdecode⟩ := build_packet hst hp
        exact holds_packet h hpending hdecode senderSsrc mediaSsrc
    | reset =>
      rw [show s' = {} from hst]
      exact holds_init

/-- **No phantoms.** In a run in which every arrival keeps the range within the
ring, a packet is computed from the arrivals since its numbers were last
reported, or since the last reset: its statuses and deltas and its reference
time are those of their times, and it marks none that has not arrived. -/
theorem no_phantom {log : List Op} {s s' : TwccReceiver} {senderSsrc mediaSsrc : UInt32} {p : Bytes}
    (hrun : (lts.guarded InRing).Run {} log s)
    (hbuild : buildFeedbackPacket s senderSsrc mediaSsrc = (s', p)) (hp : p ≠ []) :
    ∃ f, decodeFeedback p = some f ∧
      f.statuses = (scan (heard log f)).statuses.map (fun t => (t.status, t.deltaUnits)) ∧
      f.referenceTime = ((scan (heard log f)).referenceTimeUs.tdiv 64000 % 2 ^ 24).toNat ∧
      ∀ x st, statusOf f x = some st → st ≠ 0 → ∃ t, arrivals log x = some t := by
  have hholds := holds_historical.reachable rfl hrun
  obtain ⟨rfl, hpending, -, -, hdecode⟩ := build_packet hbuild hp
  have hinside : ∀ x ∈ block s, observed s.records x = arrivals log x := by
    intro x hx
    have hlt := mem_block.mp hx
    exact hholds.inside x ⟨hpending, lt_of_lt_of_le hlt (Nat.min_le_right _ _)⟩
  have htimes : heard log (feedback s) = times s := (List.map_congr_left hinside).symm
  refine ⟨feedback s, hdecode, ?_, ?_, ?_⟩
  · rw [htimes, scan_eq]
    rfl
  · rw [htimes]
    rfl
  · intro x st hst hne
    obtain ⟨hmem, hiff⟩ := (statusOf_feedback s x).1 st hst
    rw [← hinside x hmem, ← Option.isSome_iff_exists]
    exact hiff.mp hne

/-- Packets 0 and 2. -/
theorem no_phantom_two :
    let log := [.onPacket 0 0 100, .onPacket 2 1000 100]
    ∃ f, decodeFeedback (buildFeedbackPacket (gap 2) 1 2).2 = some f ∧
      f.statuses = (scan (heard log f)).statuses.map (fun t => (t.status, t.deltaUnits)) ∧
      ∀ x st, statusOf f x = some st → st ≠ 0 → ∃ t, arrivals log x = some t := by
  have hrun : (lts.guarded InRing).Run {} [.onPacket 0 0 100, .onPacket 2 1000 100] (gap 2) :=
    .cons ⟨rfl, fun h => by cases h⟩ (.cons ⟨rfl, fun _ => .inl (by decide)⟩ (.nil _))
  have hbuild : buildFeedbackPacket (gap 2) 1 2 = (_, _) := rfl
  obtain ⟨f, hdecode, hstatuses, -, hmarks⟩ := no_phantom hrun hbuild (by decide)
  exact ⟨f, hdecode, hstatuses, hmarks⟩

/-- Packets 0 and 3000, and a build: the next one marks 952, which has the slot
of 3000 and never came. -/
theorem phantom_reported :
    let p := (buildFeedbackPacket (gap 3000) 1 2).2
    let s := (buildFeedbackPacket (gap 3000) 1 2).1
    let log := [.onPacket 0 0 100, .onPacket 3000 1000 100, .build 1 2 p]
    lts.Run {} log s ∧ Marks (buildFeedbackPacket s 1 2).2 952 ∧
      ∀ t size, Op.onPacket 952 t size ∉ log := by
  have hcount : packetStatusCount (gap 3000) = 512 := by decide
  obtain ⟨p, hbuild, -⟩ := build_some (s := gap 3000) 1 2 rfl
    ⟨0, mem_block.mpr (by rw [hcount]; decide), by decide⟩
  have hmem : (952 : UInt16) ∈ block (reported (gap 3000)) := by
    rw [mem_block, show packetStatusCount (reported (gap 3000)) = 512 by decide]
    decide
  have hobs : (observed (reported (gap 3000)).records 952).isSome := by
    rw [observed_reported, hcount]
    decide
  obtain ⟨q, hbuild', hdecode⟩ := build_some (s := reported (gap 3000)) 1 2 (by decide) ⟨952, hmem, hobs⟩
  simp only [hbuild]
  refine ⟨.cons rfl (.cons rfl (.cons hbuild (.nil _))), ?_, ?_⟩
  · rw [hbuild']
    exact (marks_iff hdecode 952).mpr ⟨hmem, hobs⟩
  · intro t size h
    simp at h

/-! ## Losses -/

/-- The receiver, and every number an `onPacket` has named. -/
structure Watched where
  receiver : TwccReceiver := {}
  arrived : List UInt16 := []

def watched : LTS Watched Op where
  init w := w = {}
  step w op w' := lts.step w.receiver op w'.receiver ∧
    w'.arrived = match op with
      | .onPacket seq _ _ => seq :: w.arrived
      | .build .. => w.arrived
      | .reset => w.arrived

/-- How far on in the window. -/
def offset (first x : UInt16) : Nat := (x - first).toNat

/-- An arrival that comes before the pending range or after it, and moves the
range over the number `x`. -/
def MovesOver (first : UInt16) (s : TwccReceiver) (seq x : UInt16) : Prop :=
  s.hasPending = true ∧
    (offset first seq < offset first x ∧ offset first x < offset first s.pendingBaseSeq ∨
      offset first s.pendingBaseSeq + pending s ≤ offset first x ∧ offset first x < offset first seq)
  deriving Decidable

/-- Every number lies in the window of 2048 from `first` on, and there is no reset. -/
def InWindow (first : UInt16) : Op → Prop
  | .onPacket seq _ _ => offset first seq < kRingSize
  | .build .. => True
  | .reset => False

instance (first : UInt16) : DecidablePred (InWindow first)
  | .onPacket seq _ _ => inferInstanceAs (Decidable (offset first seq < kRingSize))
  | .build .. => inferInstanceAs (Decidable True)
  | .reset => inferInstanceAs (Decidable False)

/-- An arrival moves the range over no number that has arrived. -/
def Keeps (first : UInt16) (w : Watched) : Op → Prop
  | .onPacket seq _ _ => ∀ x ∈ w.arrived, ¬ MovesOver first w.receiver seq x
  | .build .. => True
  | .reset => True

instance (first : UInt16) (w : Watched) : DecidablePred (Keeps first w)
  | .onPacket seq _ _ => List.decidableBAll (fun x => ¬ MovesOver first w.receiver seq x) w.arrived
  | .build .. => inferInstanceAs (Decidable True)
  | .reset => inferInstanceAs (Decidable True)

/-- The runs of a window, with every arrival as `Keeps` says. -/
def kept (first : UInt16) : LTS Watched Op :=
  watched.guarded fun w op => InWindow first op ∧ Keeps first w op

/-- The packet gives the number the status 'not received'. -/
def Misses (p : Bytes) (seq : UInt16) : Prop := ∃ f, decodeFeedback p = some f ∧ statusOf f seq = some 0

/-- What has arrived and is pending has its record. -/
structure Kept (first : UInt16) (w : Watched) : Prop where
  window : ∀ x ∈ w.arrived, offset first x < kRingSize
  range : w.receiver.hasPending = true → 1 ≤ pending w.receiver ∧
    offset first w.receiver.pendingBaseSeq + pending w.receiver ≤ kRingSize
  recorded : ∀ x ∈ w.arrived, InRange w.receiver x → (observed w.receiver.records x).isSome

theorem offset_succ {first x : UInt16} (h : offset first x < 65535) :
    offset first (x + 1) = offset first x + 1 := by
  have hone : (1 : UInt16).toNat = 1 := rfl
  have hx := x.toNat_lt
  have hf := first.toNat_lt
  unfold offset at *
  rw [UInt16.toNat_sub] at h ⊢
  rw [UInt16.toNat_sub, UInt16.toNat_add, hone]
  omega

/-- What is pending, by the distances from `first`. -/
theorem inRange_offset {first : UInt16} {s : TwccReceiver} (hp : s.hasPending = true)
    (hrange : offset first s.pendingBaseSeq + pending s ≤ kRingSize) {x : UInt16}
    (hx : offset first x < kRingSize) :
    InRange s x ↔ offset first s.pendingBaseSeq ≤ offset first x ∧
      offset first x < offset first s.pendingBaseSeq + pending s := by
  have hoff := offset_from first s.pendingBaseSeq x
  unfold InRange offset kRingSize at *
  rw [hoff]
  constructor
  · intro ⟨_, hlt⟩
    omega
  · intro ⟨hlo, hhi⟩
    exact ⟨hp, by omega⟩

/-- In the window an arrival moves the base down to it, or the end up past it. -/
theorem onPacket_window {first : UInt16} {s : TwccReceiver} (hp : s.hasPending = true)
    (hpos : 1 ≤ pending s) (hrange : offset first s.pendingBaseSeq + pending s ≤ kRingSize) {seq : UInt16}
    (hseq : offset first seq < kRingSize) (t : Int) (size : UInt16) :
    offset first (onPacket s seq t size).pendingBaseSeq =
        min (offset first seq) (offset first s.pendingBaseSeq) ∧
      offset first (onPacket s seq t size).pendingBaseSeq + pending (onPacket s seq t size) =
        max (offset first seq + 1) (offset first s.pendingBaseSeq + pending s) := by
  obtain ⟨hbase, hend⟩ := onPacket_later hp seq t size
  have hpend : pending (onPacket s seq t size) =
      ((onPacket s seq t size).pendingEndSeq - (onPacket s seq t size).pendingBaseSeq).toNat := rfl
  have hold : offset first s.pendingEndSeq = offset first s.pendingBaseSeq + pending s := by
    have := offset_from first s.pendingBaseSeq s.pendingEndSeq
    have := (s.pendingEndSeq - first).toNat_lt
    unfold pending offset kRingSize at *
    omega
  have hnext : offset first (seq + 1) = offset first seq + 1 := offset_succ (by unfold kRingSize at hseq; omega)
  have hdist : ∀ x y, (x - y).toNat = (offset first x + 65536 - offset first y) % 65536 :=
    fun x y => offset_from first y x
  rw [hpend, hbase, hend]
  simp only [hdist, hold]
  unfold kRingSize at *
  split
  · rw [if_neg (by omega)]
    omega
  · split
    · rw [hnext]
      omega
    · omega

theorem kept_first {first : UInt16} {w : Watched} (h : Kept first w) (hp : w.receiver.hasPending = false)
    {seq : UInt16} (hseq : offset first seq < kRingSize) (t : Int) (size : UInt16) :
    Kept first ⟨onPacket w.receiver seq t size, seq :: w.arrived⟩ := by
  obtain ⟨hbase, hend⟩ := onPacket_first hp seq t size
  have hpend : pending (onPacket w.receiver seq t size) = 1 := by
    unfold pending
    rw [hbase, hend, add_sub_cancel_left]
    rfl
  refine ⟨?_, ?_, ?_⟩
  · intro x hx
    rcases List.mem_cons.mp hx with rfl | hx
    · exact hseq
    · exact h.window x hx
  · intro _
    show 1 ≤ pending (onPacket w.receiver seq t size) ∧ _
    rw [hpend, hbase]
    exact ⟨Nat.le_refl 1, hseq⟩
  · intro x _ hin
    have hlt := hin.2
    rw [hpend, hbase] at hlt
    have hx : x = seq := offset_inj seq (by simp; omega)
    show (observed (onPacket w.receiver seq t size).records x).isSome
    rw [onPacket_observed, hx, if_pos rfl]
    rfl

theorem kept_later {first : UInt16} {w : Watched} (h : Kept first w) (hp : w.receiver.hasPending = true)
    {seq : UInt16} {t : Int} {size : UInt16} (hseq : offset first seq < kRingSize)
    (hkeeps : Keeps first w (.onPacket seq t size)) :
    Kept first ⟨onPacket w.receiver seq t size, seq :: w.arrived⟩ := by
  obtain ⟨hpos, hrange⟩ := h.range hp
  obtain ⟨hbase, hend⟩ := onPacket_window hp hpos hrange hseq t size
  have hrange' : offset first (onPacket w.receiver seq t size).pendingBaseSeq +
      pending (onPacket w.receiver seq t size) ≤ kRingSize := by
    rw [hend]
    omega
  have hwindow : ∀ x ∈ seq :: w.arrived, offset first x < kRingSize := by
    intro x hx
    rcases List.mem_cons.mp hx with rfl | hx
    · exact hseq
    · exact h.window x hx
  refine ⟨hwindow, fun _ => ⟨?_, hrange'⟩, ?_⟩
  · show 1 ≤ pending (onPacket w.receiver seq t size)
    omega
  · intro x hx hin
    show (observed (onPacket w.receiver seq t size).records x).isSome
    rw [onPacket_observed]
    split
    · rfl
    · rename_i hslot
      rcases List.mem_cons.mp hx with rfl | hx
      · exact absurd rfl hslot
      -- It was pending before, or the range has just moved over it.
      have hxlt := h.window x hx
      obtain ⟨hlo, hhi⟩ :=
        (inRange_offset (onPacket_hasPending w.receiver seq t size) hrange' hxlt).mp hin
      have hne : offset first x ≠ offset first seq := fun he => hslot (by rw [offset_inj first he])
      refine h.recorded x hx ((inRange_offset hp hrange hxlt).mpr ?_)
      have hover := hkeeps x hx
      unfold MovesOver at hover
      simp only [hp, true_and] at hover
      omega

theorem kept_packet {first : UInt16} {w : Watched} (h : Kept first w) (hp : w.receiver.hasPending = true) :
    Kept first ⟨reported w.receiver, w.arrived⟩ := by
  obtain ⟨hpos, hrange⟩ := h.range hp
  have hpend := reported_pending w.receiver
  have hcount := count_le w.receiver
  have hle : packetStatusCount w.receiver ≤ pending w.receiver := Nat.min_le_right _ _
  refine ⟨h.window, ?_, ?_⟩
  · intro hp'
    have hmore := (reported_hasPending w.receiver).mp hp'
    have hbase : (reported w.receiver).pendingBaseSeq =
        w.receiver.pendingBaseSeq + UInt16.ofNat (packetStatusCount w.receiver) := rfl
    refine ⟨hmore, ?_⟩
    show offset first (reported w.receiver).pendingBaseSeq + pending (reported w.receiver) ≤ kRingSize
    rw [hbase, hpend]
    have hf := first.toNat_lt
    have hb := w.receiver.pendingBaseSeq.toNat_lt
    unfold offset kRingSize at *
    rw [UInt16.toNat_sub] at hrange ⊢
    rw [UInt16.toNat_add, UInt16.toNat_ofNat']
    omega
  · intro x hx hin
    obtain ⟨hin', hnot⟩ := (inRange_reported w.receiver hp x).mp hin
    have hlt := hin'.2
    have hge := Nat.not_lt.mp fun hlt => hnot (mem_block.mpr hlt)
    show (observed (reported w.receiver).records x).isSome
    rw [observed_reported, Nat.mod_eq_of_lt (by omega), if_neg (Nat.not_lt.mpr hge)]
    exact h.recorded x hx hin'

theorem kept_inductive (first : UInt16) : (kept first).Inductive (Kept first) where
  init w h := by
    rw [show w = {} from h]
    exact ⟨fun x hx => absurd hx List.not_mem_nil, fun h => absurd h Bool.false_ne_true,
      fun x hx => absurd hx List.not_mem_nil⟩
  step w op w' h hst := by
    obtain ⟨⟨hst, harrived⟩, hwindow, hkeeps⟩ := hst
    obtain ⟨receiver', arrived'⟩ := w'
    cases op with
    | onPacket seq t size =>
      obtain rfl : receiver' = onPacket w.receiver seq t size := hst
      obtain rfl : arrived' = seq :: w.arrived := harrived
      cases hp : w.receiver.hasPending with
      | false => exact kept_first h hp hwindow t size
      | true => exact kept_later h hp hwindow hkeeps
    | build senderSsrc mediaSsrc p =>
      obtain rfl : arrived' = w.arrived := harrived
      by_cases hp : p = []
      · subst hp
        obtain rfl : receiver' = w.receiver := build_nil hst
        exact h
      · obtain ⟨rfl, hpending, -⟩ := build_packet hst hp
        exact kept_packet h hpending
    | reset => exact hwindow.elim

/-- **No false losses.** In a run over a window of 2048 numbers in which no
arrival moves the pending range over a number that has arrived, no packet gives
the status 'not received' to a number that has arrived. -/
theorem no_false_loss {first : UInt16} {w : Watched} (h : (kept first).Reachable w)
    (senderSsrc mediaSsrc : UInt32) :
    ∀ x ∈ w.arrived, ¬ Misses (buildFeedbackPacket w.receiver senderSsrc mediaSsrc).2 x := by
  have hkept := (kept_inductive first).reachable w h
  rintro x hx ⟨f, hdecode, hstatus⟩
  have hp : (buildFeedbackPacket w.receiver senderSsrc mediaSsrc).2 ≠ [] := by
    intro hnil
    rw [hnil] at hdecode
    cases hdecode
  have hbuild : buildFeedbackPacket w.receiver senderSsrc mediaSsrc = (_, _) := Prod.mk.eta.symm
  obtain ⟨-, hpending, -, -, hdecode'⟩ := build_packet hbuild hp
  rw [hdecode] at hdecode'
  cases hdecode'
  obtain ⟨hmem, hiff⟩ := (statusOf_feedback w.receiver x).1 0 hstatus
  have hin : InRange w.receiver x :=
    ⟨hpending, lt_of_lt_of_le (mem_block.mp hmem) (Nat.min_le_right _ _)⟩
  exact hiff.mpr (hkept.recorded x hx hin) rfl

theorem watched_onPacket (w : Watched) (seq : UInt16) (t : Int) (size : UInt16) :
    watched.step w (.onPacket seq t size) ⟨onPacket w.receiver seq t size, seq :: w.arrived⟩ :=
  ⟨rfl, rfl⟩

theorem watched_build (w : Watched) (senderSsrc mediaSsrc : UInt32) :
    watched.step w (.build senderSsrc mediaSsrc (buildFeedbackPacket w.receiver senderSsrc mediaSsrc).2)
      ⟨(buildFeedbackPacket w.receiver senderSsrc mediaSsrc).1, w.arrived⟩ :=
  ⟨rfl, rfl⟩

/-- Packets 5 and 4, a feedback that reports them, and 8, 6 and 7. -/
def reordered : TwccReceiver :=
  onPacket (onPacket (onPacket (buildFeedbackPacket (onPacket (onPacket {} 5 0 100) 4 10 100) 1 2).1 8 20 100)
    6 30 100) 7 40 100

theorem no_false_loss_reordered :
    (buildFeedbackPacket (onPacket (onPacket {} 5 0 100) 4 10 100) 1 2).2 ≠ [] ∧
      ∀ x ∈ [7, 6, 8, 4, 5], ¬ Misses (buildFeedbackPacket reordered 1 2).2 x := by
  have hrun : (kept 4).Reachable ⟨reordered, [7, 6, 8, 4, 5]⟩ :=
    ⟨{}, _, rfl, .cons ⟨watched_onPacket {} 5 0 100, by decide, by decide⟩
      (.cons ⟨watched_onPacket _ 4 10 100, by decide, by decide⟩
      (.cons ⟨watched_build _ 1 2, trivial, trivial⟩
      (.cons ⟨watched_onPacket _ 8 20 100, by decide, by decide⟩
      (.cons ⟨watched_onPacket _ 6 30 100, by decide, by decide⟩
      (.cons ⟨watched_onPacket _ 7 40 100, by decide, by decide⟩ (.nil _))))))⟩
  exact ⟨by decide, no_false_loss hrun 1 2⟩

/-- Packets 5 and 6 are reported. Then come 4, which is late, and 7: the next
packet gives 5 and 6 as not received. -/
theorem loss_reported :
    let s := (buildFeedbackPacket (onPacket (onPacket {} 5 0 100) 6 10 100) 1 2).1
    let s' := onPacket (onPacket s 4 20 100) 7 30 100
    (watched.guarded fun _ => InWindow 4).Reachable ⟨s', [7, 4, 6, 5]⟩ ∧
      Misses (buildFeedbackPacket s' 1 2).2 5 ∧ Misses (buildFeedbackPacket s' 1 2).2 6 := by
  have h5 : offset 4 5 < kRingSize := by decide
  have h6 : offset 4 6 < kRingSize := by decide
  have h4 : offset 4 4 < kRingSize := by decide
  have h7 : offset 4 7 < kRingSize := by decide
  refine ⟨⟨{}, _, rfl, .cons ⟨watched_onPacket {} 5 0 100, h5⟩ (.cons ⟨watched_onPacket _ 6 10 100, h6⟩
    (.cons ⟨watched_build _ 1 2, trivial⟩ (.cons ⟨watched_onPacket _ 4 20 100, h4⟩
      (.cons ⟨watched_onPacket _ 7 30 100, h7⟩ (.nil _)))))⟩, ?_, ?_⟩
  · exact ⟨_, rfl, rfl⟩
  · exact ⟨_, rfl, rfl⟩

end KmVirtualCamera.L2.Twcc
