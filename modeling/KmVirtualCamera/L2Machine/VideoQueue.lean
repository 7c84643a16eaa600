import Mathlib
import KmVirtualCamera.Core.LTS
import KmVirtualCamera.L1Encoding.H264

/-!
# The compressed video queue (`BoundedVideoQueue`)

A bounded queue of access units between the receiver engine and the decoder.
An overflow drops everything and asks for a configured IDR, so a dependent
unit is never queued behind a hole.

`configuredIdr` is also the engine's test for a random-access frame. On a
string that splits it reads the units only (`configuredIdr_of_split`).

**Runs.** Every method holds the mutex, so an interleaving of calls by several
threads is a list of calls. A call *cuts* when it is a reset, an invalidate or
a push that overflows. Between two cuts the accepted frames are the offered
ones from the first configured IDR on (`chain_between_cuts`), popped in order or
still queued (`fifo_between_cuts`), and both stamps
count: `generation` the resets, `resetSerial` the cuts, modulo 2^64
(`after_stamps`). So a frame popped before a cut stays out of date for as long
as the run has fewer than 2^64 cuts (`chains_stay_whole`), and is current again
once the serial has come round (`popped_current_again`).
-/
namespace KmVirtualCamera.L2.VideoQueue
open KmVirtualCamera.L1.H264

/-- mirrors shared/km/bounded_video_queue.h:9-13 -/
structure QueuedAccessUnit where
  bytes : Bytes
  timestampUs : Int
  generation : UInt64
  resetSerial : UInt64
  deriving DecidableEq

def kMaxFrames : Nat := 8
def kMaxBytes : Nat := 2 * 1024 * 1024

/-- mirrors shared/km/bounded_video_queue.h:19-24 -/
def configuredIdr (bytes : Bytes) : Bool :=
  match splitAnnexB bytes with
  | none => false
  | some ns => ns.any (naluType · == 7) && ns.any (naluType · == 8) && ns.any (naluType · == 5)

/-- mirrors shared/km/bounded_video_queue.h:62-63 -/
structure Queue where
  queue : List QueuedAccessUnit := []
  bytes : Nat := 0
  generation : UInt64 := 1
  resetSerial : UInt64 := 1
  waiting : Bool := true

/-- mirrors shared/km/bounded_video_queue.h:28-30 -/
def invalidate (q : Queue) : Queue :=
  { q with queue := [], bytes := 0, waiting := true, resetSerial := q.resetSerial + 1 }

/-- mirrors shared/km/bounded_video_queue.h:25-27 -/
def reset (q : Queue) : Queue × UInt64 :=
  ({ invalidate q with generation := q.generation + 1 }, q.generation + 1)

/-- mirrors shared/km/bounded_video_queue.h:32-47 -/
def push (q : Queue) (bytes : Bytes) (timestampUs : Int) (generation : UInt64) : Queue × Bool :=
  if bytes = [] then (q, false)
  else if generation ≠ q.generation then (q, false)
  else if bytes.length > kMaxBytes ∨ q.queue.length ≥ kMaxFrames ∨
      bytes.length > kMaxBytes - q.bytes then (invalidate q, false)
  else if q.waiting = true ∧ configuredIdr bytes = false then (q, false)
  else
    ({ q with waiting := if configuredIdr bytes then false else q.waiting,
              queue := q.queue ++ [⟨bytes, timestampUs, generation, q.resetSerial⟩],
              bytes := q.bytes + bytes.length }, true)

/-- mirrors shared/km/bounded_video_queue.h:48-52 -/
def pop (q : Queue) : Queue × Option QueuedAccessUnit :=
  match q.queue with
  | [] => (q, none)
  | f :: rest => ({ q with queue := rest, bytes := q.bytes - f.bytes.length }, some f)

/-- mirrors shared/km/bounded_video_queue.h:53-55 -/
def current (q : Queue) (f : QueuedAccessUnit) : Bool :=
  f.generation == q.generation && f.resetSerial == q.resetSerial

/-- A call of one of the four methods. -/
inductive Op where
  | push (bytes : Bytes) (timestampUs : Int) (generation : UInt64)
  | pop
  | reset
  | invalidate
  deriving DecidableEq

def exec (q : Queue) : Op → Queue
  | .push b t g => (push q b t g).1
  | .pop => (pop q).1
  | .reset => (reset q).1
  | .invalidate => invalidate q

theorem configuredIdr_of_split {b : Bytes} {ns : List Bytes} (h : splitAnnexB b = some ns) :
    configuredIdr b = true ↔ (∃ n ∈ ns, naluType n = 7) ∧ (∃ n ∈ ns, naluType n = 8) ∧
      ∃ n ∈ ns, naluType n = 5 := by
  simp [configuredIdr, h, and_assoc]

/-! ## What one call does -/

/-- The push is for this run and finds no room: the frame is too large, or
the queue has its eight frames, or its bytes do not fit beside the queued ones. -/
def Overflows (q : Queue) (bytes : Bytes) (generation : UInt64) : Prop :=
  bytes ≠ [] ∧ generation = q.generation ∧
    (bytes.length > kMaxBytes ∨ q.queue.length ≥ kMaxFrames ∨ bytes.length > kMaxBytes - q.bytes)

instance instDecidableOverflows (q : Queue) (b : Bytes) (g : UInt64) : Decidable (Overflows q b g) := by
  unfold Overflows
  infer_instance

def cuts (q : Queue) : Op → Bool
  | .push b _ g => decide (Overflows q b g)
  | .pop => false
  | .reset => true
  | .invalidate => true

/-- The frame the call puts into the queue. -/
def accepts (q : Queue) : Op → List QueuedAccessUnit
  | .push b t g => if (push q b t g).2 then [⟨b, t, g, q.resetSerial⟩] else []
  | _ => []

/-- The frame the call takes out of the queue. -/
def yields (q : Queue) : Op → List QueuedAccessUnit
  | .pop => (pop q).2.toList
  | _ => []

/-- A push that is kept waiting for its IDR. -/
def Waits (q : Queue) (b : Bytes) : Prop := q.waiting = true ∧ configuredIdr b = false

def stored (q : Queue) (b : Bytes) (t : Int) : Queue :=
  { q with waiting := if configuredIdr b then false else q.waiting,
           queue := q.queue ++ [⟨b, t, q.generation, q.resetSerial⟩],
           bytes := q.bytes + b.length }

theorem push_cases (q : Queue) (b : Bytes) (t : Int) (g : UInt64) :
    ((b = [] ∨ g ≠ q.generation) ∧ push q b t g = (q, false)) ∨
    (Overflows q b g ∧ push q b t g = (invalidate q, false)) ∨
    (b ≠ [] ∧ g = q.generation ∧ ¬Overflows q b g ∧ Waits q b ∧ push q b t g = (q, false)) ∨
    (b ≠ [] ∧ g = q.generation ∧ ¬Overflows q b g ∧ ¬Waits q b ∧
      push q b t g = (stored q b t, true)) := by
  by_cases hb : b = []
  · exact Or.inl ⟨Or.inl hb, by simp [push, hb]⟩
  by_cases hg : g = q.generation
  · subst hg
    by_cases ho : Overflows q b q.generation
    · exact Or.inr (Or.inl ⟨ho, by rw [push, if_neg hb, if_neg (by simp), if_pos ho.2.2]⟩)
    · have hroom := fun h => ho ⟨hb, rfl, h⟩
      by_cases hw : q.waiting = true ∧ configuredIdr b = false
      · refine Or.inr (Or.inr (Or.inl ⟨hb, rfl, ho, hw, ?_⟩))
        rw [push, if_neg hb, if_neg (by simp), if_neg hroom, if_pos hw]
      · refine Or.inr (Or.inr (Or.inr ⟨hb, rfl, ho, hw, ?_⟩))
        rw [push, if_neg hb, if_neg (by simp), if_neg hroom, if_neg hw, stored]
  · exact Or.inl ⟨Or.inr hg, by simp [push, hb, hg]⟩

/-- A call that does not cut keeps both stamps. -/
theorem exec_stays {q : Queue} {c : Op} (h : cuts q c = false) :
    (exec q c).generation = q.generation ∧ (exec q c).resetSerial = q.resetSerial := by
  cases c with
  | reset => simp [cuts] at h
  | invalidate => simp [cuts] at h
  | pop =>
    simp only [exec, pop]
    split <;> exact ⟨rfl, rfl⟩
  | push b t g =>
    have ho : ¬Overflows q b g := by simpa [cuts] using h
    show (push q b t g).1.generation = _ ∧ (push q b t g).1.resetSerial = _
    rcases push_cases q b t g with ⟨_, hp⟩ | ⟨hn, _⟩ | ⟨_, _, _, _, hp⟩ | ⟨_, _, _, _, hp⟩
    · rw [hp]; exact ⟨rfl, rfl⟩
    · exact absurd hn ho
    · rw [hp]; exact ⟨rfl, rfl⟩
    · rw [hp]; exact ⟨rfl, rfl⟩

/-- A cut empties the queue and asks for an IDR. -/
theorem exec_cut {q : Queue} {c : Op} (h : cuts q c = true) :
    (exec q c).queue = [] ∧ (exec q c).waiting = true ∧ (exec q c).bytes = 0 ∧
      (exec q c).resetSerial = q.resetSerial + 1 ∧ accepts q c = [] ∧ yields q c = [] := by
  cases c with
  | pop => simp [cuts] at h
  | reset => simp [exec, reset, invalidate, accepts, yields]
  | invalidate => simp [exec, invalidate, accepts, yields]
  | push b t g =>
    have ho : Overflows q b g := by simpa [cuts] using h
    have hp : push q b t g = (invalidate q, false) := by
      rcases push_cases q b t g with ⟨hb | hg, _⟩ | ⟨_, hp⟩ | ⟨_, _, hn, _⟩ | ⟨_, _, hn, _⟩
      · exact absurd hb ho.1
      · exact absurd ho.2.1 hg
      · exact hp
      · exact absurd ho hn
      · exact absurd ho hn
    simp [exec, hp, invalidate, accepts, yields]

/-! ## The counters -/

/-- The byte counter is what is queued, and both bounds hold; so neither the
room left in `push` nor the decrement in `pop` goes below zero. -/
structure Accounted (q : Queue) : Prop where
  sum : q.bytes = (q.queue.map (·.bytes.length)).sum
  size : q.bytes ≤ kMaxBytes
  frames : q.queue.length ≤ kMaxFrames

theorem accounted_empty {q : Queue} (hq : q.queue = []) (hb : q.bytes = 0) : Accounted q :=
  ⟨by simp [hq, hb], by omega, by simp [hq]⟩

theorem Accounted.exec {q : Queue} (h : Accounted q) (c : Op) : Accounted (exec q c) := by
  cases c with
  | reset => exact accounted_empty rfl rfl
  | invalidate => exact accounted_empty rfl rfl
  | pop =>
    have hs := h.sum
    have hz := h.size
    have hf := h.frames
    cases hq : q.queue with
    | nil => simpa [VideoQueue.exec, pop, hq] using h
    | cons f rest =>
      rw [hq] at hs hf
      simp only [List.map_cons, List.sum_cons, List.length_cons] at hs hf
      constructor <;> simp only [VideoQueue.exec, pop, hq] <;> omega
  | push b t g =>
    show Accounted (push q b t g).1
    rcases push_cases q b t g with ⟨_, hp⟩ | ⟨_, hp⟩ | ⟨_, _, _, _, hp⟩ | ⟨hb, hg, hroom, _, hp⟩
    · rw [hp]; exact h
    · rw [hp]; exact accounted_empty rfl rfl
    · rw [hp]; exact h
    · have hs := h.sum
      have hz := h.size
      have hlen : ¬q.queue.length ≥ kMaxFrames := fun hl => hroom ⟨hb, hg, Or.inr (Or.inl hl)⟩
      have hfit : ¬b.length > kMaxBytes - q.bytes := fun hl => hroom ⟨hb, hg, Or.inr (Or.inr hl)⟩
      rw [hp]
      constructor
      · simp [stored, hs]
      · simp only [stored]; omega
      · simp only [stored, List.length_append, List.length_singleton]; omega

/-! ## Runs -/

def after (q : Queue) (ls : List Op) : Queue := ls.foldl exec q

/-- The frames put into the queue, in order. -/
def accepted (q : Queue) (ls : List Op) : List QueuedAccessUnit := collect exec accepts q ls

/-- The frames taken out of the queue, in order. -/
def popped (q : Queue) (ls : List Op) : List QueuedAccessUnit := collect exec yields q ls

def cutCalls (q : Queue) (ls : List Op) : List Op :=
  collect exec (fun q c => if cuts q c then [c] else []) q ls

/-- The non-empty pushes for generation `g`. -/
def offers (g : UInt64) (ls : List Op) : List (Bytes × Int) :=
  ls.filterMap fun
    | .push b t g' => if b ≠ [] ∧ g' = g then some (b, t) else none
    | _ => none

/-- The offers from the first configured IDR on, stamped. -/
def chain (g r : UInt64) (ls : List Op) : List QueuedAccessUnit :=
  ((offers g ls).dropWhile fun o => !configuredIdr o.1).map fun o => ⟨o.1, o.2, g, r⟩

theorem after_snoc (q : Queue) (ls : List Op) (c : Op) :
    after q (ls ++ [c]) = exec (after q ls) c := by
  simp [after]

theorem after_append (q : Queue) (xs ys : List Op) :
    after q (xs ++ ys) = after (after q xs) ys := by
  simp [after]

theorem accepted_append (q : Queue) (xs ys : List Op) :
    accepted q (xs ++ ys) = accepted q xs ++ accepted (after q xs) ys :=
  collect_append q xs ys

theorem accepted_snoc (q : Queue) (ls : List Op) (c : Op) :
    accepted q (ls ++ [c]) = accepted q ls ++ accepts (after q ls) c :=
  collect_snoc q ls c

theorem popped_snoc (q : Queue) (ls : List Op) (c : Op) :
    popped q (ls ++ [c]) = popped q ls ++ yields (after q ls) c :=
  collect_snoc q ls c

theorem cutCalls_append (q : Queue) (xs ys : List Op) :
    cutCalls q (xs ++ ys) = cutCalls q xs ++ cutCalls (after q xs) ys :=
  collect_append q xs ys

theorem cutCalls_snoc (q : Queue) (ls : List Op) (c : Op) :
    cutCalls q (ls ++ [c]) = cutCalls q ls ++ if cuts (after q ls) c then [c] else [] :=
  collect_snoc q ls c

theorem after_accounted {q : Queue} (h : Accounted q) (ls : List Op) : Accounted (after q ls) := by
  induction ls using List.reverseRecOn with
  | nil => exact h
  | append_singleton ls c ih => rw [after_snoc]; exact ih.exec c

/-! ## First in, first out -/

/-- A call that does not cut loses no frame: what was queued and what it puts in
is what it takes out and what is queued then. -/
theorem exec_fifo {q : Queue} {c : Op} (h : cuts q c = false) :
    yields q c ++ (exec q c).queue = q.queue ++ accepts q c := by
  cases c with
  | reset => simp [cuts] at h
  | invalidate => simp [cuts] at h
  | pop =>
    cases hq : q.queue with
    | nil => simp [exec, yields, accepts, pop, hq]
    | cons f rest => simp [exec, yields, accepts, pop, hq]
  | push b t g =>
    have hn : ¬Overflows q b g := by simpa [cuts] using h
    rcases push_cases q b t g with ⟨_, hp⟩ | ⟨ho, _⟩ | ⟨_, _, _, _, hp⟩ | ⟨_, hg, _, _, hp⟩
    · simp [exec, yields, accepts, hp]
    · exact absurd ho hn
    · simp [exec, yields, accepts, hp]
    · subst hg
      simp [exec, yields, accepts, hp, stored]

/-- Between two cuts every frame put in has been taken out, in the order they
came in, or is queued. -/
theorem fifo_between_cuts (q : Queue) (seg : List Op) (hcut : cutCalls q seg = []) :
    popped q seg ++ (after q seg).queue = q.queue ++ accepted q seg := by
  induction seg using List.reverseRecOn with
  | nil => simp [popped, accepted, after, collect]
  | append_singleton seg c ih =>
    rw [cutCalls_snoc, List.append_eq_nil_iff] at hcut
    have hstay : cuts (after q seg) c = false := by
      by_contra hc
      simp [hc] at hcut
    calc popped q (seg ++ [c]) ++ (after q (seg ++ [c])).queue
        = popped q seg ++ (yields (after q seg) c ++ (exec (after q seg) c).queue) := by
          rw [popped_snoc, after_snoc, List.append_assoc]
      _ = popped q seg ++ (after q seg).queue ++ accepts (after q seg) c := by
          rw [exec_fifo hstay, List.append_assoc]
      _ = q.queue ++ accepted q (seg ++ [c]) := by
          rw [ih hcut.1, accepted_snoc, List.append_assoc]

/-- Over cuts too, frames leave in the order they came in. -/
theorem popped_sublist (q : Queue) (ls : List Op) :
    (popped q ls ++ (after q ls).queue).Sublist (q.queue ++ accepted q ls) := by
  induction ls using List.reverseRecOn with
  | nil => simp [popped, accepted, after, collect]
  | append_singleton ls c ih =>
    rw [after_snoc, popped_snoc, accepted_snoc, ← List.append_assoc q.queue]
    cases hc : cuts (after q ls) c with
    | true =>
      obtain ⟨he, -, -, -, ha, hy⟩ := exec_cut hc
      rw [he, ha, hy]
      simpa using (List.sublist_append_left _ _).trans ih
    | false =>
      rw [List.append_assoc, exec_fifo hc, ← List.append_assoc]
      exact ih.append_right _

/-! ## Between two cuts -/

/-- What holds `seg` calls after a cut left the queue as `q`. -/
structure Between (q : Queue) (seg : List Op) : Prop where
  generation : (after q seg).generation = q.generation
  serial : (after q seg).resetSerial = q.resetSerial
  chain : accepted q seg = chain q.generation q.resetSerial seg
  waiting : (after q seg).waiting = true ↔ accepted q seg = []

theorem offers_snoc (g : UInt64) (seg : List Op) (b : Bytes) (t : Int) (hb : b ≠ []) :
    offers g (seg ++ [.push b t g]) = offers g seg ++ [(b, t)] := by
  simp [offers, hb]

theorem offers_idle (g : UInt64) (seg : List Op) {c : Op}
    (hc : ∀ b t, c = .push b t g → b = []) : offers g (seg ++ [c]) = offers g seg := by
  cases c with
  | push b t g' =>
    by_cases hg : g' = g
    · subst hg
      simp [offers, hc b t rfl]
    · simp [offers, hg]
  | pop => simp [offers]
  | reset => simp [offers]
  | invalidate => simp [offers]

/-- One more offer: behind the IDR it joins the chain, before it it has to be
the IDR. -/
theorem chain_snoc (g r : UInt64) (seg : List Op) (b : Bytes) (t : Int) (hb : b ≠ []) :
    VideoQueue.chain g r (seg ++ [.push b t g]) = VideoQueue.chain g r seg ++
      if VideoQueue.chain g r seg = [] ∧ configuredIdr b = false then [] else [⟨b, t, g, r⟩] := by
  simp only [VideoQueue.chain, offers_snoc g seg b t hb, List.dropWhile_append, List.map_eq_nil_iff]
  by_cases hn : (offers g seg).dropWhile (fun o => !configuredIdr o.1) = []
  · cases hk : configuredIdr b <;> simp [hn, hk]
  · simp [hn]

/-- A call that is no offer and does not cut. -/
theorem Between.idle {q : Queue} {seg : List Op} {c : Op} (h : Between q seg)
    (hcut : cuts (after q seg) c = false) (ha : accepts (after q seg) c = [])
    (hw : (exec (after q seg) c).waiting = (after q seg).waiting)
    (hc : VideoQueue.chain q.generation q.resetSerial (seg ++ [c]) =
      VideoQueue.chain q.generation q.resetSerial seg) : Between q (seg ++ [c]) := by
  obtain ⟨hg, hr⟩ := exec_stays hcut
  have hacc : accepted q (seg ++ [c]) = accepted q seg := by
    rw [accepted_snoc, ha, List.append_nil]
  constructor
  · rw [after_snoc, hg]; exact h.generation
  · rw [after_snoc, hr]; exact h.serial
  · rw [hacc, h.chain, hc]
  · rw [hacc, after_snoc, hw]; exact h.waiting

theorem Between.step {q : Queue} {seg : List Op} (h : Between q seg) (c : Op)
    (hcut : cuts (after q seg) c = false) : Between q (seg ++ [c]) := by
  cases c with
  | reset => simp [cuts] at hcut
  | invalidate => simp [cuts] at hcut
  | pop =>
    refine h.idle hcut rfl ?_ ?_
    · simp only [exec, pop]
      split <;> rfl
    · rw [VideoQueue.chain, VideoQueue.chain, offers_idle _ _ (by simp)]
  | push b t g =>
    have hn : ¬Overflows (after q seg) b g := by simpa [cuts] using hcut
    rcases push_cases (after q seg) b t g with
      ⟨hoff, hp⟩ | ⟨ho, _⟩ | ⟨hb, hg, _, hw, hp⟩ | ⟨hb, hg, _, hw, hp⟩
    · refine h.idle hcut (by simp [accepts, hp]) (by simp [exec, hp]) ?_
      rw [VideoQueue.chain, VideoQueue.chain, offers_idle]
      intro b' t' heq
      obtain ⟨rfl, -, rfl⟩ := Op.push.inj heq
      exact hoff.resolve_right (by simp [h.generation])
    · exact absurd ho hn
    · rw [h.generation] at hg
      subst hg
      refine h.idle hcut (by simp [accepts, hp]) (by simp [exec, hp]) ?_
      have hnil := h.chain ▸ h.waiting.mp hw.1
      rw [chain_snoc _ _ _ _ _ hb, hnil]
      simp [hw.2]
    · rw [h.generation] at hg
      subst hg
      obtain ⟨hgen, hser⟩ := exec_stays hcut
      have hacc : accepts (after q seg) (.push b t q.generation) =
          [⟨b, t, q.generation, q.resetSerial⟩] := by
        simp [accepts, hp, h.serial]
      have hidr : ¬(accepted q seg = [] ∧ configuredIdr b = false) := by
        rw [← h.waiting]
        exact hw
      constructor
      · rw [after_snoc, hgen]; exact h.generation
      · rw [after_snoc, hser]; exact h.serial
      · rw [accepted_snoc, hacc, chain_snoc _ _ _ _ _ hb, ← h.chain, if_neg hidr]
      · rw [accepted_snoc, hacc, after_snoc]
        simp only [exec, hp, stored, List.append_eq_nil_iff, List.cons_ne_nil, and_false, iff_false]
        rw [← h.waiting] at hidr
        cases hk : configuredIdr b <;> simp_all

theorem chain_between_cuts {q : Queue} (hw : q.waiting = true) (seg : List Op)
    (hcut : cutCalls q seg = []) : Between q seg := by
  induction seg using List.reverseRecOn with
  | nil => exact ⟨rfl, rfl, rfl, by simpa [after, accepted, collect] using hw⟩
  | append_singleton seg c ih =>
    rw [cutCalls_snoc, List.append_eq_nil_iff] at hcut
    refine (ih hcut.1).step c ?_
    by_contra hc
    simp [hc] at hcut

theorem chain_head (g r : UInt64) (seg : List Op) :
    ∀ f ∈ (VideoQueue.chain g r seg).head?, configuredIdr f.bytes = true := by
  intro f hf
  simp only [VideoQueue.chain, List.head?_map, Option.mem_def, Option.map_eq_some_iff] at hf
  obtain ⟨o, ho, rfl⟩ := hf
  have hk := List.head?_dropWhile_not (fun o : Bytes × Int => !configuredIdr o.1) (offers g seg)
  rw [ho] at hk
  simpa using hk

/-! ## The stamps -/

theorem exec_stamps (q : Queue) (c : Op) :
    (exec q c).generation = q.generation + (if c = .reset then 1 else 0) ∧
    (exec q c).resetSerial = q.resetSerial + (if cuts q c = true then 1 else 0) := by
  by_cases hc : cuts q c = true
  · obtain ⟨-, -, -, hr, -, -⟩ := exec_cut hc
    refine ⟨?_, by rw [hr, if_pos hc]⟩
    cases c with
    | reset => simp [exec, reset]
    | invalidate => simp [exec, invalidate]
    | pop => simp [cuts] at hc
    | push b t g =>
      have ho : Overflows q b g := by simpa [cuts] using hc
      rcases push_cases q b t g with ⟨_, hp⟩ | ⟨_, hp⟩ | ⟨_, _, hn, _⟩ | ⟨_, _, hn, _⟩
      · simp [exec, hp]
      · simp [exec, hp, invalidate]
      · exact absurd ho hn
      · exact absurd ho hn
  · obtain ⟨hg, hr⟩ := exec_stays (Bool.eq_false_iff.mpr hc)
    have hreset : c ≠ .reset := by
      rintro rfl
      simp [cuts] at hc
    simp [hg, hr, hc, hreset]

/-- Resets and cuts are counted modulo 2^64. -/
theorem after_stamps (q : Queue) (ls : List Op) :
    (after q ls).generation = q.generation + UInt64.ofNat (ls.count .reset) ∧
    (after q ls).resetSerial = q.resetSerial + UInt64.ofNat (cutCalls q ls).length := by
  induction ls using List.reverseRecOn with
  | nil => simp [after, cutCalls, collect]
  | append_singleton ls c ih =>
    obtain ⟨hg, hr⟩ := exec_stamps (after q ls) c
    rw [after_snoc, cutCalls_snoc, hg, hr, ih.1, ih.2]
    constructor
    · by_cases h : c = .reset
      · simp [h, UInt64.ofNat_add, UInt64.add_assoc]
      · simp [h]
    · by_cases h : cuts (after q ls) c = true
      · simp [h, UInt64.ofNat_add, UInt64.add_assoc]
      · simp [h]

/-- A frame put in `n` cuts after the start is stamped with the start's serial
and `n`. -/
theorem accepted_stamp {q : Queue} {ls : List Op} {f : QueuedAccessUnit} (h : f ∈ accepted q ls) :
    ∃ n ≤ (cutCalls q ls).length, f.resetSerial = q.resetSerial + UInt64.ofNat n := by
  obtain ⟨pre, c, post, rfl, hf⟩ := mem_collect.mp h
  refine ⟨(cutCalls q pre).length, ?_, ?_⟩
  · rw [cutCalls_append]
    simp
  · cases c with
    | push b t g =>
      simp only [accepts] at hf
      split at hf
      · rw [List.mem_singleton.mp hf]
        exact (after_stamps q pre).2
      · simp at hf
    | pop => simp [accepts] at hf
    | reset => simp [accepts] at hf
    | invalidate => simp [accepts] at hf

theorem ofNat_add_ne {s : UInt64} {m n : Nat} (h : m < n) (hn : n < 2 ^ 64) :
    s + UInt64.ofNat m ≠ s + UInt64.ofNat n := by
  intro heq
  have := congrArg UInt64.toNat ((UInt64.add_right_inj s).mp heq)
  rw [UInt64.toNat_ofNat', UInt64.toNat_ofNat', Nat.mod_eq_of_lt (by omega), Nat.mod_eq_of_lt hn] at this
  omega

/-! ## Whole runs -/

/-- A stretch of calls begins here: at the start of the run or behind a cut. -/
def AfterCut (pre : List Op) : Prop :=
  pre = [] ∨ ∃ pre' c, pre = pre' ++ [c] ∧ cuts (after {} pre') c = true

def AtCut (q : Queue) (post : List Op) : Prop :=
  post = [] ∨ ∃ c post', post = c :: post' ∧ cuts q c = true

theorem AfterCut.waiting {pre : List Op} (h : AfterCut pre) : (after {} pre).waiting = true := by
  rcases h with rfl | ⟨pre', c, rfl, hc⟩
  · rfl
  · rw [after_snoc]
    exact (exec_cut hc).2.1

theorem AfterCut.empty {pre : List Op} (h : AfterCut pre) : (after {} pre).queue = [] := by
  rcases h with rfl | ⟨pre', c, rfl, hc⟩
  · rfl
  · rw [after_snoc]
    exact (exec_cut hc).1

/-- Frames of earlier stretches carry an earlier serial. -/
theorem AfterCut.stamp {pre : List Op} (h : AfterCut pre) {f : QueuedAccessUnit}
    (hf : f ∈ accepted {} pre) :
    ∃ n < (cutCalls {} pre).length, f.resetSerial = 1 + UInt64.ofNat n := by
  rcases h with rfl | ⟨pre', c, rfl, hc⟩
  · simp [accepted, collect] at hf
  · rw [accepted_snoc, (exec_cut hc).2.2.2.2.1, List.append_nil] at hf
    obtain ⟨n, hn, hs⟩ := accepted_stamp hf
    exact ⟨n, by rw [cutCalls_snoc, if_pos hc, List.length_append]; simp; omega, hs⟩

theorem AtCut.stamp {q : Queue} {post : List Op} (h : AtCut q post) {f : QueuedAccessUnit}
    (hf : f ∈ accepted q post) :
    ∃ n, 0 < n ∧ n ≤ (cutCalls q post).length ∧ f.resetSerial = q.resetSerial + UInt64.ofNat n := by
  rcases h with rfl | ⟨c, post', rfl, hc⟩
  · simp [accepted, collect] at hf
  · obtain ⟨-, -, -, hr, ha, -⟩ := exec_cut hc
    have hf' : f ∈ accepted (exec q c) post' := by simpa [accepted, collect, ha] using hf
    obtain ⟨n, hn, hs⟩ := accepted_stamp hf'
    refine ⟨n + 1, by omega, ?_, ?_⟩
    · simpa [cutCalls, collect, hc] using hn
    · rw [hs, hr, UInt64.ofNat_add, UInt64.add_assoc, UInt64.add_comm (UInt64.ofNat n)]
      rfl

theorem mem_chain {g r : UInt64} {seg : List Op} {f : QueuedAccessUnit}
    (h : f ∈ VideoQueue.chain g r seg) : f.generation = g ∧ f.resetSerial = r := by
  obtain ⟨o, -, rfl⟩ := List.mem_map.mp h
  exact ⟨rfl, rfl⟩

def Stamped (q : Queue) (f : QueuedAccessUnit) : Prop :=
  f.generation = q.generation ∧ f.resetSerial = q.resetSerial

instance instDecidableStamped (q : Queue) (f : QueuedAccessUnit) : Decidable (Stamped q f) := by
  unfold Stamped
  infer_instance

/-- Only the frames of one stretch carry its pair, as long as the serial has
not come round. -/
theorem stretch_stamped {pre seg post : List Op} (hpre : AfterCut pre)
    (hseg : cutCalls (after {} pre) seg = []) (hpost : AtCut (after {} (pre ++ seg)) post)
    (hn : (cutCalls {} (pre ++ seg ++ post)).length < 2 ^ 64) :
    (accepted {} (pre ++ seg ++ post)).filter (fun f => Stamped (after {} pre) f) =
      accepted (after {} pre) seg := by
  have hb := chain_between_cuts hpre.waiting seg hseg
  have hserial : (after {} pre).resetSerial = 1 + UInt64.ofNat (cutCalls {} pre).length :=
    (after_stamps {} pre).2
  have hlen : (cutCalls {} (pre ++ seg ++ post)).length =
      (cutCalls {} pre).length + (cutCalls (after {} (pre ++ seg)) post).length := by
    rw [cutCalls_append, cutCalls_append, hseg, List.append_nil, List.length_append]
  have before : (accepted {} pre).filter (fun f => Stamped (after {} pre) f) = [] := by
    refine List.filter_eq_nil_iff.mpr ?_
    intro f hf hst
    obtain ⟨n, hlt, hs⟩ := hpre.stamp hf
    have hst := (of_decide_eq_true hst).2
    rw [hs, hserial] at hst
    exact ofNat_add_ne hlt (by omega) hst
  have behind : (accepted (after {} (pre ++ seg)) post).filter
      (fun f => Stamped (after {} pre) f) = [] := by
    refine List.filter_eq_nil_iff.mpr ?_
    intro f hf hst
    obtain ⟨n, hpos, hle, hs⟩ := hpost.stamp hf
    have hst := (of_decide_eq_true hst).2
    rw [hs, after_append, hb.serial] at hst
    refine ofNat_add_ne (s := (after {} pre).resetSerial) (m := 0) hpos (by omega) ?_
    simpa using hst.symm
  have inside : (accepted (after {} pre) seg).filter (fun f => Stamped (after {} pre) f) =
      accepted (after {} pre) seg := by
    refine List.filter_eq_self.mpr fun f hf => decide_eq_true ?_
    rw [hb.chain] at hf
    exact mem_chain hf
  rw [accepted_append, accepted_append, List.filter_append, List.filter_append, before, inside,
    behind, List.nil_append, List.append_nil]

/-- In every interleaving of the four methods the counters are exact, a pop
takes the oldest frame queued and between cuts none is lost, every stretch
between two cuts is a whole chain behind a configured IDR, and a cut leaves
nothing in the queue and nothing current. -/
theorem chains_stay_whole (ls : List Op) :
    Accounted (after {} ls) ∧
    (popped {} ls).Sublist (accepted {} ls) ∧
    yields (after {} ls) .pop = (after {} ls).queue.take 1 ∧
    (∀ pre seg post, ls = pre ++ seg ++ post → AfterCut pre → cutCalls (after {} pre) seg = [] →
      popped (after {} pre) seg ++ (after {} (pre ++ seg)).queue = accepted (after {} pre) seg) ∧
    (∀ pre seg post, ls = pre ++ seg ++ post → AfterCut pre → cutCalls (after {} pre) seg = [] →
      AtCut (after {} (pre ++ seg)) post →
      accepted (after {} pre) seg =
        VideoQueue.chain (after {} pre).generation (after {} pre).resetSerial seg ∧
      (∀ f ∈ (accepted (after {} pre) seg).head?, configuredIdr f.bytes = true) ∧
      ((cutCalls {} ls).length < 2 ^ 64 →
        (accepted {} ls).filter (fun f => Stamped (after {} pre) f) = accepted (after {} pre) seg)) ∧
    (∀ pre c post, ls = pre ++ c :: post → cuts (after {} pre) c = true →
      (after {} (pre ++ [c])).queue = [] ∧
      ((cutCalls {} ls).length < 2 ^ 64 → ∀ f ∈ popped {} pre, current (after {} ls) f = false)) := by
  refine ⟨after_accounted (accounted_empty rfl rfl) ls, ?_, ?_, ?_, ?_, ?_⟩
  · exact (List.sublist_append_left _ _).trans (popped_sublist {} ls)
  · cases hq : (after {} ls).queue with
    | nil => simp [yields, pop, hq]
    | cons f rest => simp [yields, pop, hq]
  · rintro pre seg post rfl hpre hseg
    have hfifo := fifo_between_cuts (after {} pre) seg hseg
    rwa [hpre.empty, List.nil_append, ← after_append] at hfifo
  · rintro pre seg post rfl hpre hseg hpost
    have hb := chain_between_cuts hpre.waiting seg hseg
    refine ⟨hb.chain, ?_, stretch_stamped hpre hseg hpost⟩
    rw [hb.chain]
    exact chain_head _ _ _
  · rintro pre c post rfl hc
    have hcut := exec_cut hc
    refine ⟨by rw [after_snoc]; exact hcut.1, fun hn f hf => ?_⟩
    have hacc : f ∈ accepted {} pre :=
      (popped_sublist {} pre).subset (List.mem_append_left _ hf)
    obtain ⟨n, hle, hs⟩ := accepted_stamp hacc
    have hlt : n < (cutCalls {} (pre ++ c :: post)).length := by
      rw [cutCalls_append, List.length_append]
      simp only [cutCalls, collect, hc, if_true, List.singleton_append, List.length_cons] at hle ⊢
      omega
    have hne : f.resetSerial ≠ (after {} (pre ++ c :: post)).resetSerial := by
      rw [hs, (after_stamps {} (pre ++ c :: post)).2]
      exact ofNat_add_ne hlt hn
    simp [current, hne]

theorem after_replicate_invalidate (q : Queue) (n : Nat) :
    after q (List.replicate n .invalidate) =
      if n = 0 then q else { invalidate q with resetSerial := q.resetSerial + UInt64.ofNat n } := by
  induction n with
  | zero => rfl
  | succ n ih =>
    rw [List.replicate_succ', after_snoc, ih]
    by_cases h : n = 0
    · subst h
      rfl
    · simp [h, exec, invalidate, UInt64.ofNat_add, UInt64.add_assoc]

/-- SPS, PPS and IDR behind start codes. -/
def idrUnit : Bytes := [0, 0, 1, 0x67, 1, 0, 0, 1, 0x68, 1, 0, 0, 1, 0x65, 1]

/-- 2^64 cuts later the serial is the old one: a frame popped before them is
current again. -/
theorem popped_current_again : ¬∀ (pre : List Op) (c : Op) (post : List Op) (f : QueuedAccessUnit),
    f ∈ popped {} pre → cuts (after {} pre) c = true →
      current (after {} (pre ++ c :: post)) f = false := by
  intro h
  have hrun := h [.push idrUnit 0 1, .pop] .invalidate (List.replicate (2 ^ 64 - 1) .invalidate)
    ⟨idrUnit, 0, 1, 1⟩ (by decide) rfl
  have hstart : (after {} [.push idrUnit 0 1, .pop]).generation = 1 ∧
      (after {} [.push idrUnit 0 1, .pop]).resetSerial = 1 := by decide
  rw [← List.replicate_succ, after_append, after_replicate_invalidate, if_neg (by decide)] at hrun
  simp only [current, invalidate, hstart.1, hstart.2] at hrun
  exact absurd hrun (by decide)

end KmVirtualCamera.L2.VideoQueue
