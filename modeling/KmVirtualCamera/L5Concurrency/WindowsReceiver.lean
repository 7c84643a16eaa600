import Mathlib
import KmVirtualCamera.Core.LTS
import KmVirtualCamera.L2Machine.VideoQueue

/-!
# The picture path of the Windows receiver (`AppController`)

The callbacks of a session push access units into the compressed queue, the
video worker decodes and converts them, and the output worker shows the latest
picture thirty times a second, or the test pattern. A new session resets the
queue; a broken connection invalidates it; so does the worker when its decoder
fails. The threads meet in the queue's mutex and in `frameMutex_`, so a step is
one section under either, or what the worker does between two of them.

A picture is known by the units its decoder has been given since `Initialize`,
whatever it made of them: `fed`. `admitted` and `taken` are the units that went
into the queue and out of it since it was last cleared, `cuts` how often that
was; the code keeps none of the three. The serial is of 64 bits, and the result
is for fewer cuts than that.

* `shown_whole`: what the output worker shows besides the test pattern.
-/
namespace KmVirtualCamera.L5.WindowsReceiver
open KmVirtualCamera.L2.VideoQueue

structure Picture where
  unit : QueuedAccessUnit
  fed : List QueuedAccessUnit
  deriving DecidableEq

structure Latest where
  picture : Picture
  arrivalNs : Nat

/-- Where the video worker is, and what it has in its hands: a unit from the
queue, one found current, one the decoder is ready for; a picture, and one whose
unit was found current again. -/
inductive Worker where
  | idle
  | popped (unit : QueuedAccessUnit)
  | checked (unit : QueuedAccessUnit)
  | ready (unit : QueuedAccessUnit)
  | converted (picture : Picture)
  | confirmed (picture : Picture)

/-- What comes back from `DecodeAccessUnit`: nothing, a picture of a size that
is refused, or one that is converted. -/
inductive Decoded where
  | nothing | refused | picture

/-- mirrors windows/receiver/app/app_controller.h:44-62 -/
structure Receiver where
  queue : Queue := {}
  worker : Worker := .idle
  activeGeneration : UInt64 := 0
  activeReset : UInt64 := 0
  noOutput : Nat := 0
  fed : List QueuedAccessUnit := []
  latest : Option Latest := none
  keyframeRequests : Nat := 0
  admitted : List QueuedAccessUnit := []
  taken : List QueuedAccessUnit := []
  cuts : Nat := 0

inductive Label where
  | push (bytes : L1.H264.Bytes) (timestampUs : Int) (generation : UInt64)
  | invalidate
  | reset
  | clearLatest
  | pop
  | check
  | prepare (initialized : Bool)
  | decode (result : Decoded)
  | confirm
  | store (nowNs : Nat)

/-- A call of the queue. -/
def call (s : Receiver) (op : Op) : Receiver :=
  { s with
    queue := exec s.queue op
    admitted := if cuts s.queue op then [] else s.admitted ++ accepts s.queue op
    taken := if cuts s.queue op then [] else s.taken ++ yields s.queue op
    cuts := if cuts s.queue op then s.cuts + 1 else s.cuts }

/-- The queue is cleared and a key frame asked for, each time one after the
other by the worker. -/
def giveUp (s : Receiver) : Receiver :=
  { call s .invalidate with keyframeRequests := s.keyframeRequests + 1, noOutput := 0, worker := .idle }

/-- mirrors windows/receiver/app/app_controller.cpp:209-226 -/
def prepared (s : Receiver) (unit : QueuedAccessUnit) (initialized : Bool) : Receiver :=
  if s.activeGeneration ≠ unit.generation ∨ s.activeReset ≠ unit.resetSerial then
    if initialized then
      { s with activeGeneration := unit.generation, activeReset := unit.resetSerial, noOutput := 0, fed := [],
               worker := .ready unit }
    else { giveUp { s with fed := [] } with noOutput := s.noOutput }
  else { s with worker := .ready unit }

/-- mirrors windows/receiver/app/app_controller.cpp:228-254 -/
def decoded (s : Receiver) (unit : QueuedAccessUnit) (result : Decoded) : Receiver :=
  let s := { s with fed := s.fed ++ [unit] }
  match result with
  | .nothing =>
    if s.noOutput + 1 ≥ 60 then giveUp s else { s with noOutput := s.noOutput + 1, worker := .idle }
  | .refused => giveUp s
  | .picture => { s with noOutput := 0, worker := .converted ⟨unit, s.fed⟩ }

/-- `none`: not now. A callback that cannot push asks for a key frame.
mirrors windows/receiver/app/app_controller.cpp:107-108,134-136,145-152,203-270 -/
def next (s : Receiver) : Label → Option Receiver
  | .push bytes timestampUs generation =>
    let s' := call s (.push bytes timestampUs generation)
    some (if (push s.queue bytes timestampUs generation).2 then s'
      else { s' with keyframeRequests := s.keyframeRequests + 1 })
  | .invalidate => some (call s .invalidate)
  | .reset => some (call s .reset)
  | .clearLatest => some { s with latest := none }
  | .pop =>
    match s.worker, (pop s.queue).2 with
    | .idle, some unit => some { call s .pop with worker := .popped unit }
    | _, _ => none
  | .check =>
    match s.worker with
    | .popped unit => some { s with worker := if current s.queue unit then .checked unit else .idle }
    | _ => none
  | .prepare initialized =>
    match s.worker with
    | .checked unit => some (prepared s unit initialized)
    | _ => none
  | .decode result =>
    match s.worker with
    | .ready unit => some (decoded s unit result)
    | _ => none
  | .confirm =>
    match s.worker with
    | .converted picture =>
      some { s with worker := if current s.queue picture.unit then .confirmed picture else .idle }
    | _ => none
  | .store nowNs =>
    match s.worker with
    | .confirmed picture => some { s with latest := some ⟨picture, nowNs⟩, worker := .idle }
    | _ => none

/-- What the output worker shows; `none`: the test pattern.
mirrors windows/receiver/app/app_controller.cpp:298-301 -/
def shown (s : Receiver) (testPatternMode : Bool) (nowNs : Nat) : Option Picture :=
  match s.latest with
  | some l =>
    if testPatternMode = false ∧ l.arrivalNs ≤ nowNs ∧ nowNs - l.arrivalNs ≤ 1000000000 ∧
        current s.queue l.picture.unit then
      some l.picture
    else none
  | none => none

def receivers : LTS Receiver Label where
  init s := s = {}
  step s l s' := next s l = some s'

/-! ## Stamps -/

/-- The serial after `n` cuts. -/
def serial (n : Nat) : UInt64 := 1 + UInt64.ofNat n

/-- A stamp from before the last of `n` cuts, or none at all. -/
def Old (n : Nat) (x : UInt64) : Prop := x = 0 ∨ ∃ k < n, x = serial k

theorem serial_succ (n : Nat) : serial (n + 1) = serial n + 1 := by
  unfold serial
  rw [UInt64.ofNat_add, UInt64.add_assoc]
  rfl

theorem serial_ne_zero {n : Nat} (h : n + 1 < 2 ^ 64) : serial n ≠ 0 := by
  unfold serial
  intro heq
  have := congrArg UInt64.toNat heq
  rw [UInt64.toNat_add, UInt64.toNat_ofNat'] at this
  simp only [UInt64.reduceToNat] at this
  omega

theorem Old.ne {n : Nat} {x : UInt64} (h : Old n x) (hn : n + 1 < 2 ^ 64) : x ≠ serial n := by
  rcases h with rfl | ⟨k, hk, rfl⟩
  · exact (serial_ne_zero hn).symm
  · exact ofNat_add_ne hk (by omega)

theorem Old.succ {n : Nat} {x : UInt64} (h : Old n x) : Old (n + 1) x :=
  h.imp_right fun ⟨k, hk, hx⟩ => ⟨k, Nat.lt_succ_of_lt hk, hx⟩

theorem old_serial (n : Nat) : Old (n + 1) (serial n) := .inr ⟨n, Nat.lt_succ_self n, rfl⟩

/-! ## The invariant -/

structure Queued (s : Receiver) : Prop where
  serial : s.queue.resetSerial = serial s.cuts
  admitted : s.admitted = s.taken ++ s.queue.queue
  stamped : ∀ u ∈ s.admitted, u.generation = s.queue.generation ∧ u.resetSerial = s.queue.resetSerial
  waiting : s.queue.waiting = true ↔ s.admitted = []
  head : ∀ u ∈ s.admitted.head?, configuredIdr u.bytes = true

def Stamped (s : Receiver) (u : QueuedAccessUnit) : Prop :=
  u.generation = s.queue.generation ∧ u.resetSerial = s.queue.resetSerial

/-- The decoder has been given `prior`, unless it is from before the last cut
and nothing has been taken since. -/
def Fed (s : Receiver) (prior : List QueuedAccessUnit) : Prop :=
  (s.activeGeneration = s.queue.generation ∧ s.activeReset = s.queue.resetSerial) ∧ s.fed = prior ∨
    Old s.cuts s.activeReset ∧ prior = []

/-- A unit in the worker's hands, with what holds if it is a current one. -/
def Held (s : Receiver) (u : QueuedAccessUnit) (P : Prop) : Prop :=
  (Old s.cuts u.resetSerial ∧ s.taken = [] ∧ Old s.cuts s.activeReset) ∨ Stamped s u ∧ P

def WorkerInv (s : Receiver) : Prop :=
  match s.worker with
  | .idle => Fed s s.taken
  | .popped u | .checked u => Held s u (∃ t, s.taken = t ++ [u] ∧ Fed s t)
  | .ready u =>
    Held s u ((s.activeGeneration = s.queue.generation ∧ s.activeReset = s.queue.resetSerial) ∧
      ∃ t, s.taken = t ++ [u] ∧ s.fed = t)
  | .converted p | .confirmed p => Held s p.unit (Fed s s.taken ∧ p.fed = s.taken ∧ s.taken.getLast? = some p.unit)

def LatestInv (s : Receiver) : Prop :=
  ∀ l ∈ s.latest, Old s.cuts l.picture.unit.resetSerial ∨
    Stamped s l.picture.unit ∧ l.picture.fed <+: s.taken ∧ l.picture.fed.getLast? = some l.picture.unit

structure Inv (s : Receiver) : Prop where
  queued : Queued s
  worker : WorkerInv s
  latest : LatestInv s

section Calls
variable {s : Receiver} {op : Op}

theorem call_cut (h : cuts s.queue op = true) : call s op =
    { s with queue := exec s.queue op, admitted := [], taken := [], cuts := s.cuts + 1 } := by
  unfold call
  rw [if_pos h, if_pos h, if_pos h]

theorem call_stays (h : cuts s.queue op = false) : call s op =
    { s with queue := exec s.queue op, admitted := s.admitted ++ accepts s.queue op,
             taken := s.taken ++ yields s.queue op } := by
  unfold call
  have hno : ¬ cuts s.queue op = true := by rw [h]; decide
  rw [if_neg hno, if_neg hno, if_neg hno]

theorem Queued.cut (hq : Queued s) (h : cuts s.queue op = true) : Queued (call s op) := by
  obtain ⟨hqueue, hwaiting, -, hserial, -, -⟩ := exec_cut h
  rw [call_cut h]
  refine ⟨?_, hqueue.symm, nofun, iff_of_true hwaiting rfl, nofun⟩
  change (exec s.queue op).resetSerial = WindowsReceiver.serial (s.cuts + 1)
  rw [hserial, hq.serial, serial_succ]

/-- The units in the worker's hands. -/
def Worker.held : Worker → Option QueuedAccessUnit
  | .idle => none
  | .popped u | .checked u | .ready u => some u
  | .converted p | .confirmed p => some p.unit

theorem Held.old {u : QueuedAccessUnit} {P : Prop} (hq : Queued s) (h : Held s u P)
    (hP : P → Old (s.cuts + 1) s.activeReset) :
    Old (s.cuts + 1) u.resetSerial ∧ Old (s.cuts + 1) s.activeReset := by
  rcases h with ⟨hu, -, ha⟩ | ⟨hu, hp⟩
  · exact ⟨hu.succ, ha.succ⟩
  · rw [hu.2, hq.serial]
    exact ⟨old_serial s.cuts, hP hp⟩

theorem Fed.old {prior : List QueuedAccessUnit} (hq : Queued s) (h : Fed s prior) :
    Old (s.cuts + 1) s.activeReset := by
  rcases h with ⟨⟨-, ha⟩, -⟩ | ⟨ha, -⟩
  · rw [ha, hq.serial]
    exact old_serial s.cuts
  · exact ha.succ

/-- A cut makes everything old that the worker has. -/
theorem WorkerInv.old (hq : Queued s) (h : WorkerInv s) : Old (s.cuts + 1) s.activeReset ∧
    ∀ u ∈ s.worker.held, Old (s.cuts + 1) u.resetSerial := by
  unfold WorkerInv at h
  cases hw : s.worker with
  | idle =>
    rw [hw] at h
    exact ⟨Fed.old hq h, nofun⟩
  | popped u | checked u =>
    rw [hw] at h
    obtain ⟨hu, ha⟩ := Held.old hq h fun ⟨_, _, hfed⟩ => hfed.old hq
    exact ⟨ha, fun v hv => Option.mem_some.mp hv ▸ hu⟩
  | ready u =>
    rw [hw] at h
    obtain ⟨hu, ha⟩ := Held.old hq h fun ⟨⟨_, ha⟩, _⟩ => by rw [ha, hq.serial]; exact old_serial s.cuts
    exact ⟨ha, fun v hv => Option.mem_some.mp hv ▸ hu⟩
  | converted p | confirmed p =>
    rw [hw] at h
    obtain ⟨hu, ha⟩ := Held.old hq h fun ⟨hfed, _⟩ => hfed.old hq
    exact ⟨ha, fun v hv => Option.mem_some.mp hv ▸ hu⟩

theorem workerInv_old (ht : s.taken = []) (ha : Old s.cuts s.activeReset)
    (hu : ∀ u ∈ s.worker.held, Old s.cuts u.resetSerial) : WorkerInv s := by
  unfold WorkerInv
  cases hw : s.worker with
  | idle => exact .inr ⟨ha, ht⟩
  | popped | checked | ready | converted | confirmed =>
    rw [hw] at hu
    exact .inl ⟨hu _ rfl, ht, ha⟩

theorem LatestInv.cut (hq : Queued s) (h : LatestInv s) (hc : cuts s.queue op = true) :
    LatestInv (call s op) := by
  rw [call_cut hc]
  intro l hl
  refine .inl ?_
  rcases h l hl with hold | ⟨⟨-, hu⟩, -⟩
  · exact hold.succ
  · rw [hu, hq.serial]
    exact old_serial s.cuts

theorem Inv.cut (h : Inv s) (hc : cuts s.queue op = true) : Inv (call s op) := by
  refine ⟨h.queued.cut hc, ?_, h.latest.cut h.queued hc⟩
  obtain ⟨ha, hu⟩ := h.worker.old h.queued
  rw [call_cut hc]
  exact workerInv_old rfl ha hu

end Calls

/-! ## Steps without a cut -/

section Steps
variable {s : Receiver}

/-- What the worker and the picture are judged by. -/
structure Same (s s' : Receiver) : Prop where
  generation : s'.queue.generation = s.queue.generation
  resetSerial : s'.queue.resetSerial = s.queue.resetSerial
  taken : s'.taken = s.taken
  cuts : s'.cuts = s.cuts

theorem Held.same {s' : Receiver} {u : QueuedAccessUnit} {P P' : Prop} (h : Held s u P) (hs : Same s s')
    (ha : s'.activeReset = s.activeReset) (hP : P → P') : Held s' u P' := by
  unfold Held Stamped
  rw [hs.generation, hs.resetSerial, hs.taken, hs.cuts, ha]
  exact h.imp_right fun ⟨hu, hp⟩ => ⟨hu, hP hp⟩

theorem Fed.same {s' : Receiver} {prior : List QueuedAccessUnit} (h : Fed s prior) (hs : Same s s')
    (hg : s'.activeGeneration = s.activeGeneration) (ha : s'.activeReset = s.activeReset) (hf : s'.fed = s.fed) :
    Fed s' prior := by
  unfold Fed
  rw [hs.generation, hs.resetSerial, hs.cuts, hg, ha, hf]
  exact h

theorem LatestInv.same {s' : Receiver} (h : LatestInv s) (hs : Same s s') (hl : s'.latest = s.latest) :
    LatestInv s' := by
  unfold LatestInv Stamped
  rw [hl, hs.generation, hs.resetSerial, hs.taken, hs.cuts]
  exact h

theorem WorkerInv.same {s' : Receiver} (h : WorkerInv s) (hs : Same s s') (hw : s'.worker = s.worker)
    (hg : s'.activeGeneration = s.activeGeneration) (ha : s'.activeReset = s.activeReset) (hf : s'.fed = s.fed) :
    WorkerInv s' := by
  unfold WorkerInv Held Fed Stamped at *
  rw [hw, hs.generation, hs.resetSerial, hs.taken, hs.cuts, hg, ha, hf]
  exact h

theorem Queued.same {s' : Receiver} (h : Queued s) (hq : s'.queue = s.queue) (ha : s'.admitted = s.admitted)
    (ht : s'.taken = s.taken) (hc : s'.cuts = s.cuts) : Queued s' where
  serial := by rw [hq, hc]; exact h.serial
  admitted := by rw [hq, ha, ht]; exact h.admitted
  stamped := by rw [hq, ha]; exact h.stamped
  waiting := by rw [hq, ha]; exact h.waiting
  head := by rw [ha]; exact h.head

/-- A push that is refused, or put behind what is there. -/
theorem push_stays {q : Queue} {b : L1.H264.Bytes} {t : Int} {g : UInt64} (h : cuts q (.push b t g) = false) :
    exec q (.push b t g) = q ∧ accepts q (.push b t g) = [] ∨
      exec q (.push b t g) = stored q b t ∧ accepts q (.push b t g) = [⟨b, t, q.generation, q.resetSerial⟩] ∧
        (q.waiting = true → configuredIdr b = true) := by
  have hroom : ¬ Overflows q b g := by simpa [cuts] using h
  have hexec : exec q (.push b t g) = (push q b t g).1 := rfl
  rw [hexec, accepts]
  rcases push_cases q b t g with ⟨-, hp⟩ | ⟨hover, -⟩ | ⟨-, -, -, -, hp⟩ | ⟨-, hg, -, hwaits, hp⟩
  · exact .inl ⟨by rw [hp], by rw [hp]; rfl⟩
  · exact absurd hover hroom
  · exact .inl ⟨by rw [hp], by rw [hp]; rfl⟩
  · refine .inr ⟨by rw [hp], by rw [hp, hg]; rfl, fun hw => ?_⟩
    rw [← Bool.not_eq_false]
    exact fun hk => hwaits ⟨hw, hk⟩

theorem Queued.push {b : L1.H264.Bytes} {t : Int} {g : UInt64} (h : Queued s)
    (hc : cuts s.queue (.push b t g) = false) : Queued (call s (.push b t g)) ∧ Same s (call s (.push b t g)) := by
  have htaken : s.taken ++ yields s.queue (.push b t g) = s.taken := List.append_nil _
  rw [call_stays hc, htaken]
  rcases push_stays hc with ⟨hexec, haccepts⟩ | ⟨hexec, haccepts, hkey⟩
  · rw [hexec, haccepts, List.append_nil]
    exact ⟨h.same rfl rfl rfl rfl, rfl, rfl, rfl, rfl⟩
  · rw [hexec, haccepts]
    refine ⟨⟨h.serial, ?_, ?_, ?_, ?_⟩, rfl, rfl, rfl, rfl⟩
    · change s.admitted ++ _ = s.taken ++ (s.queue.queue ++ _)
      rw [h.admitted, List.append_assoc]
    · intro u hu
      rcases List.mem_append.mp hu with hu | hu
      · exact h.stamped u hu
      · rw [List.mem_singleton.mp hu]
        exact ⟨rfl, rfl⟩
    · refine iff_of_false ?_ (by simp)
      change ¬ (if configuredIdr b then false else s.queue.waiting) = true
      split
      · decide
      · exact fun hw => absurd (hkey hw) ‹_›
    · intro u hu
      change u ∈ (s.admitted ++ [_]).head? at hu
      cases hadmitted : s.admitted with
      | nil =>
        rw [hadmitted] at hu
        cases hu
        exact hkey (h.waiting.mpr hadmitted)
      | cons v rest =>
        rw [hadmitted] at hu
        exact h.head u (by rw [hadmitted]; exact hu)

theorem Queued.pop {u : QueuedAccessUnit} (h : Queued s) (hu : (L2.VideoQueue.pop s.queue).2 = some u) :
    Queued (call s .pop) ∧ Stamped s u ∧ call s .pop =
      { s with queue := (L2.VideoQueue.pop s.queue).1, taken := s.taken ++ [u] } ∧
      (L2.VideoQueue.pop s.queue).1.generation = s.queue.generation ∧
      (L2.VideoQueue.pop s.queue).1.resetSerial = s.queue.resetSerial := by
  have hcall : call s .pop = { s with queue := (L2.VideoQueue.pop s.queue).1, taken := s.taken ++ [u] } := by
    rw [call_stays rfl, yields, hu]
    change { s with queue := _, admitted := s.admitted ++ [], taken := _ } = _
    rw [List.append_nil]
    rfl
  rw [hcall]
  unfold L2.VideoQueue.pop at hu ⊢
  cases hqueue : s.queue.queue with
  | nil =>
    rw [hqueue] at hu
    cases hu
  | cons f rest =>
    rw [hqueue] at hu
    cases hu
    dsimp only
    have hadmitted : s.admitted = (s.taken ++ [u]) ++ rest := by
      rw [h.admitted, hqueue, List.append_assoc]
      rfl
    have hmem : u ∈ s.admitted := by
      rw [hadmitted]
      simp
    exact ⟨⟨h.serial, hadmitted, h.stamped, h.waiting, h.head⟩, h.stamped u hmem, rfl, rfl, rfl⟩

end Steps

/-! ## The worker's steps -/

section Work
variable {s : Receiver}

theorem current_iff {u : QueuedAccessUnit} : current s.queue u = true ↔ Stamped s u := by
  simp [current, Stamped]

/-- A unit found out of date goes, and is as if never taken. -/
theorem Held.dropped {u : QueuedAccessUnit} {P : Prop} (h : Held s u P) (hu : ¬ Stamped s u) : Fed s s.taken := by
  rcases h with ⟨-, ht, ha⟩ | ⟨hs, -⟩
  · exact .inr ⟨ha, ht⟩
  · exact absurd hs hu

theorem Inv.giveUp (h : Inv s) : Inv (giveUp s) := by
  have hcut : Inv (call s .invalidate) := h.cut rfl
  refine ⟨hcut.queued.same rfl rfl rfl rfl, ?_, hcut.latest.same ⟨rfl, rfl, rfl, rfl⟩ rfl⟩
  obtain ⟨ha, -⟩ := h.worker.old h.queued
  exact .inr ⟨ha, rfl⟩

theorem Inv.prepared {u : QueuedAccessUnit} (hn : s.cuts + 1 < 2 ^ 64) (h : Inv s) (hw : s.worker = .checked u)
    (initialized : Bool) : Inv (prepared s u initialized) := by
  have hworker := h.worker
  unfold WorkerInv at hworker
  rw [hw] at hworker
  unfold WindowsReceiver.prepared
  split
  · rename_i hnew
    split
    · refine ⟨h.queued.same rfl rfl rfl rfl, ?_, h.latest.same ⟨rfl, rfl, rfl, rfl⟩ rfl⟩
      rcases hworker with ⟨hold, ht, -⟩ | ⟨hu, t, ht, hfed⟩
      · exact .inl ⟨hold, ht, hold⟩
      · refine .inr ⟨hu, hu, t, ht, ?_⟩
        rcases hfed with ⟨⟨hg, hr⟩, -⟩ | ⟨-, hnone⟩
        · exact absurd hnew (by rw [hg, hr, hu.1, hu.2]; simp)
        · exact hnone.symm
    · have hfresh : Inv { s with fed := [], worker := .popped u } := by
        refine ⟨h.queued.same rfl rfl rfl rfl, ?_, h.latest.same ⟨rfl, rfl, rfl, rfl⟩ rfl⟩
        rcases hworker with hold | ⟨hu, t, ht, hfed⟩
        · exact .inl hold
        · refine .inr ⟨hu, t, ht, ?_⟩
          rcases hfed with ⟨⟨hg, hr⟩, -⟩ | hold
          · exact absurd hnew (by rw [hg, hr, hu.1, hu.2]; simp)
          · exact .inr hold
      have hgive := hfresh.giveUp
      exact ⟨hgive.queued.same rfl rfl rfl rfl, hgive.worker.same ⟨rfl, rfl, rfl, rfl⟩ rfl rfl rfl rfl,
        hgive.latest.same ⟨rfl, rfl, rfl, rfl⟩ rfl⟩
  · rename_i hsame
    simp only [ne_eq, not_or, not_not] at hsame
    refine ⟨h.queued.same rfl rfl rfl rfl, ?_, h.latest.same ⟨rfl, rfl, rfl, rfl⟩ rfl⟩
    rcases hworker with ⟨hold, ht, ha⟩ | ⟨hu, t, ht, hfed⟩
    · exact .inl ⟨hold, ht, ha⟩
    · refine .inr ⟨hu, ⟨hsame.1.trans hu.1, hsame.2.trans hu.2⟩, t, ht, ?_⟩
      rcases hfed with ⟨-, hfed⟩ | ⟨hold, -⟩
      · exact hfed
      · exact absurd ((hsame.2.trans hu.2).trans h.queued.serial) (hold.ne hn)

theorem Inv.decoded {u : QueuedAccessUnit} (h : Inv s) (hw : s.worker = .ready u) (result : Decoded) :
    Inv (decoded s u result) := by
  have hworker := h.worker
  unfold WorkerInv at hworker
  rw [hw] at hworker
  -- The unit is with the decoder now, whatever comes back.
  have hfed : Held s u (Fed { s with fed := s.fed ++ [u], worker := .idle } s.taken ∧ s.fed ++ [u] = s.taken ∧
      s.taken.getLast? = some u) := by
    refine hworker.imp_right fun ⟨hu, hactive, t, ht, hf⟩ => ⟨hu, .inl ⟨hactive, ?_⟩, ?_, ?_⟩
    · rw [ht, hf]
    · rw [ht, hf]
    · rw [ht, List.getLast?_concat]
  have hidle : ∀ n, Inv { s with fed := s.fed ++ [u], noOutput := n, worker := .idle } := fun n => by
    refine ⟨h.queued.same rfl rfl rfl rfl, ?_, h.latest.same ⟨rfl, rfl, rfl, rfl⟩ rfl⟩
    rcases hfed with ⟨-, ht, ha⟩ | ⟨-, hf, -⟩
    · exact .inr ⟨ha, ht⟩
    · exact hf
  have hgive := (hidle s.noOutput).giveUp
  have hgiven : Inv (WindowsReceiver.giveUp { s with fed := s.fed ++ [u] }) :=
    ⟨hgive.queued.same rfl rfl rfl rfl, hgive.worker.same ⟨rfl, rfl, rfl, rfl⟩ rfl rfl rfl rfl,
      hgive.latest.same ⟨rfl, rfl, rfl, rfl⟩ rfl⟩
  unfold WindowsReceiver.decoded
  cases result with
  | nothing =>
    dsimp only
    split
    · exact hgiven
    · exact hidle _
  | refused => exact hgiven
  | picture =>
    refine ⟨h.queued.same rfl rfl rfl rfl, ?_, h.latest.same ⟨rfl, rfl, rfl, rfl⟩ rfl⟩
    exact hfed

end Work

theorem Inv.next {s s' : Receiver} {l : Label} (hn : s.cuts + 1 < 2 ^ 64) (h : Inv s) (hst : next s l = some s') :
    Inv s' := by
  unfold WindowsReceiver.next at hst
  cases l with
  | push bytes timestampUs generation =>
    have hcall : Inv (call s (.push bytes timestampUs generation)) := by
      cases hc : cuts s.queue (.push bytes timestampUs generation) with
      | true => exact h.cut hc
      | false =>
        obtain ⟨hq, hs⟩ := h.queued.push hc
        rw [call_stays hc] at hq hs ⊢
        exact ⟨hq, h.worker.same hs rfl rfl rfl rfl, h.latest.same hs rfl⟩
    cases hst
    split
    · exact hcall
    · exact ⟨hcall.queued.same rfl rfl rfl rfl, hcall.worker.same ⟨rfl, rfl, rfl, rfl⟩ rfl rfl rfl rfl,
        hcall.latest.same ⟨rfl, rfl, rfl, rfl⟩ rfl⟩
  | invalidate =>
    cases hst
    exact h.cut rfl
  | reset =>
    cases hst
    exact h.cut rfl
  | clearLatest =>
    cases hst
    exact ⟨h.queued.same rfl rfl rfl rfl, h.worker.same ⟨rfl, rfl, rfl, rfl⟩ rfl rfl rfl rfl, nofun⟩
  | pop =>
    dsimp only at hst
    split at hst
    · rename_i hw hpop
      cases hst
      obtain ⟨hq, hu, hcall, hg, hr⟩ := h.queued.pop hpop
      have hworker := h.worker
      unfold WorkerInv at hworker
      rw [hw] at hworker
      rw [hcall] at hq ⊢
      refine ⟨hq.same rfl rfl rfl rfl, .inr ⟨⟨hu.1.trans hg.symm, hu.2.trans hr.symm⟩, s.taken, rfl, ?_⟩, ?_⟩
      · unfold Fed at hworker ⊢
        dsimp only
        rw [hg, hr]
        exact hworker
      · intro l hl
        refine (h.latest l hl).imp_right fun ⟨hstamp, hprefix, hlast⟩ => ?_
        exact ⟨⟨hstamp.1.trans hg.symm, hstamp.2.trans hr.symm⟩, hprefix.trans (List.prefix_append ..), hlast⟩
    · cases hst
  | check =>
    dsimp only at hst
    split at hst
    · rename_i u hw
      cases hst
      have hworker := h.worker
      unfold WorkerInv at hworker
      rw [hw] at hworker
      refine ⟨h.queued.same rfl rfl rfl rfl, ?_, h.latest.same ⟨rfl, rfl, rfl, rfl⟩ rfl⟩
      split
      · exact hworker
      · rename_i hno
        exact hworker.dropped (mt current_iff.mpr hno)
    · cases hst
  | prepare initialized =>
    dsimp only at hst
    split at hst
    · cases hst
      exact h.prepared hn ‹_› initialized
    · cases hst
  | decode result =>
    dsimp only at hst
    split at hst
    · cases hst
      exact h.decoded ‹_› result
    · cases hst
  | confirm =>
    dsimp only at hst
    split at hst
    · rename_i p hw
      cases hst
      have hworker := h.worker
      unfold WorkerInv at hworker
      rw [hw] at hworker
      refine ⟨h.queued.same rfl rfl rfl rfl, ?_, h.latest.same ⟨rfl, rfl, rfl, rfl⟩ rfl⟩
      split
      · exact hworker
      · rename_i hno
        exact hworker.dropped (mt current_iff.mpr hno)
    · cases hst
  | store nowNs =>
    dsimp only at hst
    split at hst
    · rename_i p hw
      cases hst
      have hworker := h.worker
      unfold WorkerInv at hworker
      rw [hw] at hworker
      refine ⟨h.queued.same rfl rfl rfl rfl, ?_, ?_⟩
      · rcases hworker with ⟨-, ht, ha⟩ | ⟨-, hf, -⟩
        · exact .inr ⟨ha, ht⟩
        · exact hf
      · intro l hl
        cases hl
        rcases hworker with ⟨hold, -⟩ | ⟨hu, -, hf, hlast⟩
        · exact .inl hold
        · exact .inr ⟨hu, hf ▸ List.prefix_refl _, hf ▸ hlast⟩
    · cases hst

/-! ## Whole runs -/

theorem cuts_call (s : Receiver) (op : Op) : s.cuts ≤ (call s op).cuts := by
  unfold call
  dsimp only
  split
  · exact Nat.le_succ _
  · exact Nat.le_refl _

theorem cuts_next {s s' : Receiver} {l : Label} (hst : next s l = some s') : s.cuts ≤ s'.cuts := by
  have hgive : ∀ s, s.cuts ≤ (giveUp s).cuts := fun s => cuts_call s .invalidate
  unfold next at hst
  cases l with
  | push bytes timestampUs generation =>
    cases hst
    split
    · exact cuts_call s _
    · exact cuts_call s _
  | invalidate | reset =>
    cases hst
    exact cuts_call s _
  | clearLatest =>
    cases hst
    exact Nat.le_refl _
  | pop =>
    dsimp only at hst
    split at hst
    · cases hst
      exact cuts_call s .pop
    · cases hst
  | check | confirm | store =>
    dsimp only at hst
    split at hst
    · cases hst
      exact Nat.le_refl _
    · cases hst
  | prepare initialized =>
    dsimp only at hst
    split at hst
    · cases hst
      unfold prepared
      split
      · split
        · exact Nat.le_refl _
        · exact hgive { s with fed := [] }
      · exact Nat.le_refl _
    · cases hst
  | decode result =>
    dsimp only at hst
    split at hst
    · rename_i u _
      cases hst
      have hdone := hgive { s with fed := s.fed ++ [u] }
      unfold decoded
      cases result with
      | nothing =>
        dsimp only
        split
        · exact hdone
        · exact Nat.le_refl _
      | refused => exact hdone
      | picture => exact Nat.le_refl _
    · cases hst

theorem inv_init : Inv {} :=
  ⟨⟨rfl, rfl, nofun, iff_of_true rfl rfl, nofun⟩, .inr ⟨.inl rfl, rfl⟩, nofun⟩

theorem inductive_inv : receivers.Inductive fun s => s.cuts + 1 < 2 ^ 64 → Inv s where
  init s h := by
    rw [h]
    exact fun _ => inv_init
  step s l s' ih hst hn := by
    have hle := cuts_next hst
    have hbefore : s.cuts + 1 < 2 ^ 64 := by omega
    exact (ih hbefore).next hbefore hst

/-- **What is shown.** Besides the test pattern the output worker shows a
picture that came a second ago at most, of a unit that was admitted since the
queue was last cleared. Its decoder has been given the units admitted since, from
the first, which is a configured IDR, up to this one, each once and in order and
nothing else. -/
theorem shown_whole {s : Receiver} (hr : receivers.Reachable s) (hn : s.cuts + 1 < 2 ^ 64) {testPatternMode : Bool}
    {nowNs : Nat} {p : Picture} (hp : shown s testPatternMode nowNs = some p) :
    (∃ arrivalNs, s.latest = some ⟨p, arrivalNs⟩ ∧ arrivalNs ≤ nowNs ∧ nowNs ≤ arrivalNs + 1000000000) ∧
      (∀ u ∈ s.admitted, u.generation = s.queue.generation ∧ u.resetSerial = s.queue.resetSerial) ∧
      (∃ u, s.admitted.head? = some u ∧ configuredIdr u.bytes = true) ∧
      p.fed <+: s.admitted ∧ p.fed.getLast? = some p.unit := by
  have hinv := inductive_inv.reachable s hr hn
  unfold shown at hp
  split at hp
  · rename_i l hl
    split at hp
    · rename_i hshown
      obtain ⟨-, hle, hage, hcurrent⟩ := hshown
      cases hp
      have hstamp := current_iff.mp hcurrent
      rcases hinv.latest l hl with hold | ⟨-, hprefix, hlast⟩
      · exact absurd (hstamp.2.trans hinv.queued.serial) (hold.ne hn)
      have hfed : l.picture.fed <+: s.admitted := by
        rw [hinv.queued.admitted]
        exact hprefix.trans (List.prefix_append ..)
      refine ⟨⟨l.arrivalNs, hl, hle, by omega⟩, hinv.queued.stamped, ?_, hfed, hlast⟩
      cases hadmitted : s.admitted with
      | nil =>
        rw [hadmitted, List.prefix_nil] at hfed
        rw [hfed] at hlast
        cases hlast
      | cons u rest => exact ⟨u, rfl, hinv.queued.head u (by rw [hadmitted]; rfl)⟩
    · cases hp
  · cases hp

/-- A session starts, and its first picture is made. -/
def firstPicture : List Label :=
  [.reset, .clearLatest, .push idrUnit 7 2, .push idrUnit 8 2, .pop, .check, .prepare true, .decode .picture,
   .confirm, .store 100]

def pictured : Receiver := LTS.played next (fun _ _ => True) {} firstPicture

theorem pictured_whole : ∃ u, pictured.admitted.head? = some u ∧ configuredIdr u.bytes = true := by
  have hr : receivers.Reachable pictured :=
    ⟨{}, firstPicture, rfl, (LTS.played_run (M := receivers) (fun _ _ _ h => h) (by decide +kernel)).of_guarded⟩
  exact (shown_whole hr (p := ⟨⟨idrUnit, 7, 2, 2⟩, [⟨idrUnit, 7, 2, 2⟩]⟩) (by decide +kernel)
    (show shown pictured false 200 = _ by decide +kernel)).2.2.1

end KmVirtualCamera.L5.WindowsReceiver
