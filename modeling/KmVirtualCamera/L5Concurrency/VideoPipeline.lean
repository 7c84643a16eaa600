import Mathlib
import KmVirtualCamera.Core.LTS
import KmVirtualCamera.L4App.VideoToolbox

/-!
# The macOS video pipeline (`VideoPipeline`)

`submit` puts access units into a bounded queue, one worker thread takes them to
the decoder and hands the frames on. The worker is a program counter between two
regions of the mutex; `submit` runs in one region. `start` and `stop` are called
by one owner, and the second half of each waits for the worker to leave. What
the system decides (the decoder's answers, whether a frame can be normalised) is
an argument of the worker's step. The counters of `stats` and the time stamps
change no decision and are left out.

`log` records what has happened; an accepted access unit carries its number and
its era, the number of epochs so far without the wrap at 2^64. That the queue is
full is recorded before `submit` acts on it, a failure where the decoder answers,
and that it is noticed where the worker takes the mutex for it, whatever it then
does.

## What recovery is

`Allowed` and `InTurn` judge an entry of the log by those before it:

* an access unit without `randomAccess` is accepted only when one with it was,
  since the last start, since a submit last found the queue full, and since the
  worker last noticed the failure of an access unit of the current epoch;
* a failure is noticed before the worker decodes, checks or publishes anything
  else;
* one without an IDR goes into the decoder only when one with it did, since the
  worker began and since the last failure was taken from the window;
* a frame passes its check in the epoch it was accepted in, and is published in
  the order of submission, once, while the pipeline runs its generation.

This holds in every run whose results are checked before 2^64 epochs have passed
(`recovers`). What is in the window, or in the queue behind an access unit that
the decoder turned away, when a failure is noticed is published still, and a
random-access frame may itself stay unseen (`unseen_recovery`).
-/
namespace KmVirtualCamera.L5.VideoPipeline
open KmVirtualCamera.L1.H264 KmVirtualCamera.L4.VideoToolbox

/-- mirrors shared/km/receiver_contracts.h:10-16 -/
structure EncodedVideoFrame where
  annexB : Bytes
  generation : UInt64
  randomAccess : Bool
  deriving DecidableEq

/-- mirrors shared/km/receiver_contracts.h:17 -/
structure OutputFormat where
  width : Int := 1280
  height : Int := 720
  fpsNumerator : UInt32 := 30
  fpsDenominator : UInt32 := 1

/-- mirrors shared/km/receiver_contracts.h:19 -/
inductive SubmitResult where
  | accepted
  | backpressure
  | needKeyframe
  | stopped
  | error
  deriving DecidableEq

/-- `serial` and `era` are the record's.
mirrors macos/receiver/video_pipeline.h:72-76 -/
structure QueuedAu where
  frame : EncodedVideoFrame
  epoch : UInt64
  serial : Nat
  era : Nat
  deriving DecidableEq

/-- What the mutex protects.
mirrors macos/receiver/video_pipeline.h:80-91 -/
structure Pipeline where
  capacity : Nat
  queue : List QueuedAu := []
  running : Bool := false
  stopping : Bool := false
  generation : UInt64 := 0
  epoch : UInt64 := 0
  needKeyframe : Bool := true

/-- Where the worker is. -/
inductive Pc where
  | fill
  | decoding (item : QueuedAu)
  | refused (item : QueuedAu)
  | filled
  | taking
  | taken (head : QueuedAu) (result : Except String Bool)
  | failed (head : QueuedAu)
  | checking (head : QueuedAu) (image : Bool)
  | showing (head : QueuedAu) (image : Bool)
  | exited

structure Worker where
  pc : Pc := .fill
  decoder : Decoder := {}
  inflight : List QueuedAu := []

/-- A call of the owner that waits for the worker; `start` goes on with its
generation. -/
inductive Owner where
  | idle
  | joining (generation : Option UInt64)

inductive Event where
  | started (generation : UInt64)
  | stopped
  | accepted (x : QueuedAu)
  /-- A submit for the run finds the queue full. -/
  | full
  | handed (x : QueuedAu)
  /-- The decoder fails in `submit`. -/
  | refused (x : QueuedAu)
  /-- The oldest result of the window is a failure. -/
  | lost (x : QueuedAu)
  /-- The worker takes the mutex for a failure. -/
  | noticed (x : QueuedAu)
  | checked (x : QueuedAu)
  | published (x : QueuedAu)
  deriving DecidableEq

structure World where
  p : Pipeline
  worker : Option Worker := none
  owner : Owner := .idle
  serial : Nat := 0
  log : List Event := []

/-! ## What the log says -/

/-- An IDR went into the decoder since the last failure was taken from it. -/
def chained (log : List Event) : Bool :=
  log.foldl (fun b e => match e with
    | .handed x => hasIdr x.frame.annexB || b
    | .lost _ | .started _ => false
    | _ => b) false

/-- The number of epochs: each start and each full queue begins one. -/
def era (log : List Event) : Nat :=
  log.foldl (fun n e => match e with
    | .full | .started _ => n + 1
    | _ => n) 0

/-- A random-access frame was accepted since the last start, since the queue was
last full, and since a failure of an access unit of the epoch was last noticed.
The epochs are counted on the way. -/
def keyed (log : List Event) : Bool :=
  (log.foldl (fun c e => match e with
    | .accepted x => (c.1, x.frame.randomAccess || c.2)
    | .noticed x => (c.1, x.era != c.1 && c.2)
    | .full | .started _ => (c.1 + 1, false)
    | _ => c) (0, false)).2

/-- The failure that has not been noticed yet. -/
def pending (log : List Event) : Option QueuedAu :=
  log.foldl (fun o e => match e with
    | .refused x | .lost x => some x
    | .noticed _ | .stopped | .started _ => none
    | _ => o) none

/-- The generation that runs. -/
def generationOf (log : List Event) : Option UInt64 :=
  log.foldl (fun g e => match e with
    | .started generation => some generation
    | .stopped => none
    | _ => g) none

section Log
variable (log : List Event) (e : Event)

theorem chained_snoc : chained (log ++ [e]) = match e with
    | .handed x => hasIdr x.frame.annexB || chained log
    | .lost _ | .started _ => false
    | _ => chained log := by
  unfold chained
  rw [List.foldl_append]
  cases e <;> rfl

theorem era_snoc : era (log ++ [e]) = match e with
    | .full | .started _ => era log + 1
    | _ => era log := by
  unfold era
  rw [List.foldl_append]
  cases e <;> rfl

theorem keyed_snoc : keyed (log ++ [e]) = match e with
    | .accepted x => x.frame.randomAccess || keyed log
    | .noticed x => x.era != era log && keyed log
    | .full | .started _ => false
    | _ => keyed log := by
  have hcount : ∀ (log : List Event) (n : Nat) (b : Bool), (log.foldl (fun c e => match e with
      | .accepted x => (c.1, x.frame.randomAccess || c.2)
      | .noticed x => (c.1, x.era != c.1 && c.2)
      | .full | .started _ => (c.1 + 1, false)
      | _ => c) (n, b)).1 = log.foldl (fun n e => match e with
      | .full | .started _ => n + 1
      | _ => n) n := by
    intro log
    induction log with
    | nil => exact fun _ _ => rfl
    | cons e log ih =>
      intro n b
      cases e <;> exact ih _ _
  unfold keyed era
  rw [List.foldl_append, ← hcount log 0 false]
  cases e <;> rfl

theorem pending_snoc : pending (log ++ [e]) = match e with
    | .refused x | .lost x => some x
    | .noticed _ | .stopped | .started _ => none
    | _ => pending log := by
  unfold pending
  rw [List.foldl_append]
  cases e <;> rfl

theorem generationOf_snoc : generationOf (log ++ [e]) = match e with
    | .started generation => some generation
    | .stopped => none
    | _ => generationOf log := by
  unfold generationOf
  rw [List.foldl_append]
  cases e <;> rfl

end Log

/-! ## The calls -/

/-- What `submit` does to the state under the mutex.
mirrors macos/receiver/video_pipeline.mm:54-85 -/
def submitLocked (w : World) (frame : EncodedVideoFrame) : World × SubmitResult :=
  if w.p.running = false ∨ w.p.stopping = true then (w, .stopped)
  else if frame.generation ≠ w.p.generation then (w, .stopped)
  else if splitAnnexB frame.annexB = none then (w, .error)
  else if w.p.queue.length ≥ w.p.capacity then
    ({ w with p := { w.p with epoch := w.p.epoch + 1, queue := [], needKeyframe := true } }, .backpressure)
  else if w.p.needKeyframe = true ∧ frame.randomAccess = false then (w, .needKeyframe)
  else
    let x : QueuedAu := ⟨frame, w.p.epoch, w.serial, era w.log⟩
    ({ w with
        p := { w.p with needKeyframe := if frame.randomAccess then false else w.p.needKeyframe,
                        queue := w.p.queue ++ [x] },
        serial := w.serial + 1, log := w.log ++ [.accepted x] }, .accepted)

/-- mirrors macos/receiver/video_pipeline.mm:27-35 -/
def formatOk (f : OutputFormat) : Bool :=
  f.width == 1280 && f.height == 720 && f.fpsNumerator != 0 && f.fpsDenominator != 0

/-- The end of `stop`; the worker is gone.
mirrors macos/receiver/video_pipeline.mm:105-108 -/
def stopped (w : World) : World :=
  { w with p := { w.p with running := false, stopping := false, queue := [] }, worker := none,
           owner := .idle, log := w.log ++ [.stopped] }

/-- The locked part of `start`.
mirrors macos/receiver/video_pipeline.mm:39-51 -/
def started (w : World) (generation : UInt64) : World :=
  { w with p := { w.p with running := true, stopping := false, generation := generation,
                           epoch := w.p.epoch + 1, queue := [], needKeyframe := true },
           worker := some {}, log := w.log ++ [.started generation] }

/-- What comes when the worker has left. -/
def finish (w : World) : Option UInt64 → World
  | none => stopped w
  | some generation => started (stopped w) generation

/-- `stop`, at once without a worker; else up to the join.
mirrors macos/receiver/video_pipeline.mm:90-103 -/
def beginStop (w : World) (andStart : Option UInt64) : World :=
  match w.worker with
  | none => finish w andStart
  | some _ => { w with p := { w.p with stopping := true, queue := [] }, owner := .joining andStart }

/-! ## The worker -/

/-- What the system decides in one step of the worker. -/
structure Oracle where
  system : System := {}
  answer : Answer := .image
  normalizes : Bool := true

/-- A decode failure: one of the current epoch asks for a keyframe.
mirrors macos/receiver/video_pipeline.mm:182-185,219-222 -/
def rearm (w : World) (item : QueuedAu) (k : Worker) : World :=
  let w := { w with worker := some k, log := w.log ++ [.noticed item] }
  if item.epoch = w.p.epoch then { w with p := { w.p with needKeyframe := true } } else w

/-- mirrors macos/receiver/video_pipeline.mm:132-261 -/
def work (w : World) (o : Oracle) : Option World :=
  match w.worker with
  | none => none
  | some k =>
    let goto (pc : Pc) : World := { w with worker := some { k with pc := pc } }
    match k.pc with
    | .fill =>
      if w.p.stopping then some (goto .exited)
      else
        match w.p.queue with
        | [] => some (goto .filled)
        | item :: rest =>
          if k.decoder.inflight.length ≥ kMaxOutstanding then some (goto .filled)
          else some { goto (.decoding item) with p := { w.p with queue := rest } }
    | .decoding item =>
      let r := submit k.decoder item.frame.annexB o.system
      match r.2 with
      | .queued =>
        some { w with
          worker := some { pc := .fill, decoder := r.1, inflight := k.inflight ++ [item] },
          log := w.log ++ [.handed item] }
      | .noOutput => some { w with worker := some { k with pc := .fill, decoder := r.1 } }
      | .failed _ =>
        some { w with worker := some { k with pc := .refused item, decoder := r.1 },
                      log := w.log ++ [.refused item] }
    | .refused item => some (rearm w item { k with pc := .fill })
    | .filled =>
      if k.inflight = [] then
        if w.p.stopping then some (goto .exited)
        else if w.p.queue = [] then none
        else some (goto .fill)
      else if w.p.stopping then some (goto .exited)
      else some (goto .taking)
    | .taking =>
      match k.inflight with
      | [] => none
      | head :: rest =>
        let r := takeOldest k.decoder o.answer
        some { w with
          worker := some { pc := .taken head r.2, decoder := r.1, inflight := rest },
          log := w.log ++ match r.2 with
            | .error _ => [.lost head]
            | .ok _ => [] }
    | .taken head result =>
      if w.p.stopping then some (goto .exited)
      else
        match result with
        | .error _ => some (goto (.failed head))
        | .ok image => some (goto (.checking head image))
    | .failed head => some (rearm w head { k with pc := .fill })
    | .checking head image =>
      if head.epoch = w.p.epoch then
        some { goto (.showing head image) with log := w.log ++ [.checked head] }
      else some (goto .fill)
    | .showing head image =>
      if image && o.normalizes then some { goto .fill with log := w.log ++ [.published head] }
      else some (goto .fill)
    | .exited => none

inductive Label where
  | submit (frame : EncodedVideoFrame)
  | start (format : OutputFormat) (generation : UInt64)
  | stop
  | joined
  | work (o : Oracle)

/-- The submit is for the run, and the queue has no room for it. -/
def Full (w : World) (frame : EncodedVideoFrame) : Prop :=
  w.p.running = true ∧ w.p.stopping = false ∧ frame.generation = w.p.generation ∧
    splitAnnexB frame.annexB ≠ none ∧ w.p.capacity ≤ w.p.queue.length

instance (w : World) (frame : EncodedVideoFrame) : Decidable (Full w frame) :=
  inferInstanceAs (Decidable (_ ∧ _ ∧ _ ∧ _ ∧ _))

def recordFull (w : World) (frame : EncodedVideoFrame) : World :=
  if Full w frame then { w with log := w.log ++ [.full] } else w

def next (w : World) : Label → Option World
  | .submit frame => some (submitLocked (recordFull w frame) frame).1
  | .start format generation =>
    match w.owner with
    | .idle => some (if formatOk format then beginStop w (some generation) else w)
    | .joining _ => none
  | .stop =>
    match w.owner with
    | .idle => some (beginStop w none)
    | .joining _ => none
  | .joined =>
    match w.owner, w.worker with
    | .joining andStart, some k =>
      match k.pc with
      | .exited => some (finish w andStart)
      | _ => none
    | _, _ => none
  | .work o => work w o

/-- The pipeline as it is constructed.
mirrors macos/receiver/video_pipeline.mm:21-22 -/
def create (queueCapacity : Nat) : World :=
  { p := { capacity := if queueCapacity = 0 then 1 else queueCapacity } }

def pipelining (queueCapacity : Nat) : LTS World Label where
  init w := w = create queueCapacity
  step w l w' := next w l = some w'

/-! ## What is promised -/

/-- An entry of the log, judged by those before it. -/
def Allowed (log : List Event) : Event → Prop
  | .accepted x => x.era = era log ∧ (∀ y, .accepted y ∈ log → y.serial < x.serial) ∧
      (x.frame.randomAccess = false → keyed log = true)
  | .handed x => .accepted x ∈ log ∧ (hasIdr x.frame.annexB = false → chained log = true)
  | .checked x => .handed x ∈ log ∧ x.era = era log
  | .published x => .checked x ∈ log ∧ (∀ y, .published y ∈ log → y.serial < x.serial) ∧
      generationOf log = some x.frame.generation
  | _ => True

/-- Nothing else is done by the worker while a failure has to be noticed. -/
def InTurn (log : List Event) : Event → Prop
  | .handed _ | .refused _ | .lost _ | .checked _ | .published _ => pending log = none
  | .noticed x => pending log = some x
  | _ => True

/-- An entry of the log was allowed when it was made. -/
theorem allowed_of_mem {log : List Event} (h : EachAfter Allowed log) {e : Event} (he : e ∈ log) :
    ∃ pre, pre ⊆ log ∧ Allowed pre e := by
  obtain ⟨pre, post, heq⟩ := List.append_of_mem he
  refine ⟨pre, ?_, h pre e post heq⟩
  rw [heq]
  exact List.subset_append_left _ _

/-- What is published was accepted. -/
theorem accepted_of_published {log : List Event} (h : EachAfter Allowed log) {x : QueuedAu}
    (hx : .published x ∈ log) : .accepted x ∈ log := by
  obtain ⟨pre, hsub, hchecked, -⟩ := allowed_of_mem h hx
  obtain ⟨pre', hsub', hhanded, -⟩ := allowed_of_mem h (hsub hchecked)
  obtain ⟨pre'', hsub'', haccepted, -⟩ := allowed_of_mem h (hsub' hhanded)
  exact hsub'' haccepted

/-- The access units the worker has taken and not finished, oldest first: those
that went into the decoder, and the one that has not. -/
def Worker.window (k : Worker) : List QueuedAu :=
  (match k.pc with
    | .taken x _ | .failed x | .checking x _ | .showing x _ => [x]
    | _ => []) ++ k.inflight

def Worker.held (k : Worker) : List QueuedAu :=
  k.window ++ match k.pc with
    | .decoding x | .refused x => [x]
    | _ => []

def World.items (w : World) : List QueuedAu :=
  (match w.worker with
    | some k => k.held
    | none => []) ++ w.p.queue

/-- A submit is turned away, or drops the full queue, or is queued. -/
theorem submit_cases (w : World) (frame : EncodedVideoFrame) :
    (submitLocked (recordFull w frame) frame).1 = w ∨
    (Full w frame ∧ (submitLocked (recordFull w frame) frame).1 =
      { w with p := { w.p with epoch := w.p.epoch + 1, queue := [], needKeyframe := true },
               log := w.log ++ [.full] }) ∨
    (w.p.running = true ∧ frame.generation = w.p.generation ∧
      ¬(w.p.needKeyframe = true ∧ frame.randomAccess = false) ∧ (submitLocked (recordFull w frame) frame).1 =
        { w with
          p := { w.p with needKeyframe := if frame.randomAccess then false else w.p.needKeyframe,
                          queue := w.p.queue ++ [⟨frame, w.p.epoch, w.serial, era w.log⟩] },
          serial := w.serial + 1, log := w.log ++ [.accepted ⟨frame, w.p.epoch, w.serial, era w.log⟩] }) := by
  by_cases hfull : Full w frame
  · refine .inr (.inl ⟨hfull, ?_⟩)
    obtain ⟨hrun, hstop, hg, hsplit, hroom⟩ := hfull
    have hrecord : recordFull w frame = { w with log := w.log ++ [.full] } := if_pos ⟨hrun, hstop, hg, hsplit, hroom⟩
    rw [hrecord]
    unfold submitLocked
    rw [if_neg (by simp [hrun, hstop]), if_neg (not_not.mpr hg), if_neg hsplit, if_pos hroom]
  · have hrecord : recordFull w frame = w := if_neg hfull
    rw [hrecord]
    unfold submitLocked
    split
    · exact .inl rfl
    rename_i hopen
    split
    · exact .inl rfl
    rename_i hg
    split
    · exact .inl rfl
    rename_i hsplit
    push Not at hopen hg
    have hrun := Bool.eq_true_of_not_eq_false hopen.1
    split
    · rename_i hroom
      exact absurd ⟨hrun, Bool.eq_false_iff.mpr hopen.2, hg, hsplit, hroom⟩ hfull
    split
    · exact .inl rfl
    · exact .inr (.inr ⟨hrun, hg, ‹_›, rfl⟩)

/-- No access unit is as many as 2^64 epochs old. -/
def World.Fresh (w : World) : Prop := ∀ x ∈ w.items, era w.log < x.era + 2 ^ 64

instance (w : World) : Decidable w.Fresh :=
  inferInstanceAs (Decidable (∀ x ∈ w.items, era w.log < x.era + 2 ^ 64))

/-- What holds of an access unit that is under way. -/
structure Live (w : World) (x : QueuedAu) : Prop where
  accepted : .accepted x ∈ w.log
  epoch : x.epoch = UInt64.ofNat x.era
  era : x.era ≤ era w.log
  generation : generationOf w.log = some x.frame.generation
  serial : x.serial < w.serial

/-- What holds of the worker. -/
structure Working (w : World) (k : Worker) : Prop where
  generation : generationOf w.log = some w.p.generation
  chained : k.decoder.needIdr = false → chained w.log = true
  window : ∀ x ∈ k.window, .handed x ∈ w.log
  showing : ∀ x i, k.pc = .showing x i → .checked x ∈ w.log
  slots : k.decoder.inflight.length = k.inflight.length

structure Inv (w : World) : Prop where
  epoch : w.p.epoch = UInt64.ofNat (era w.log)
  keyed : w.p.needKeyframe = false → keyed w.log = true
  worker : ∀ k, w.worker = some k → Working w k
  idle : w.worker = none → w.p.running = false ∧ w.p.queue = []
  live : ∀ x ∈ w.items, Live w x
  order : w.items.Pairwise (·.serial < ·.serial)
  accepted : ∀ y, .accepted y ∈ w.log → y.serial < w.serial
  published : ∀ y, .published y ∈ w.log → ∀ x ∈ w.items, y.serial < x.serial
  allowed : EachAfter Allowed w.log

/-- The worker or a call goes on without an entry: nothing new is under way. -/
structure Moves (w w' : World) : Prop where
  log : w'.log = w.log
  serial : w'.serial = w.serial
  epoch : w'.p.epoch = w.p.epoch
  generation : w'.p.generation = w.p.generation
  keyframe : w'.p.needKeyframe = false → w.p.needKeyframe = false
  items : w'.items.Sublist w.items
  worker : ∀ k, w'.worker = some k → w.worker.isSome = true ∧
    (k.decoder.needIdr = false → chained w.log = true) ∧ (∀ x ∈ k.window, .handed x ∈ w.log) ∧
    (∀ x i, k.pc = .showing x i → .checked x ∈ w.log) ∧
    k.decoder.inflight.length = k.inflight.length
  idle : w'.worker = none → w'.p.running = false ∧ w'.p.queue = []

section Inv
variable {w w' : World}

theorem Inv.moves (h : Inv w) (hm : Moves w w') : Inv w' where
  epoch := by rw [hm.epoch, hm.log, h.epoch]
  keyed hk := by
    rw [hm.log]
    exact h.keyed (hm.keyframe hk)
  worker k hk := by
    obtain ⟨hsome, hchained, hwindow, hshowing, hslots⟩ := hm.worker k hk
    obtain ⟨k₀, hk₀⟩ := Option.isSome_iff_exists.mp hsome
    rw [← hm.log] at hchained hwindow hshowing
    refine ⟨?_, hchained, hwindow, hshowing, hslots⟩
    rw [hm.log, hm.generation]
    exact (h.worker k₀ hk₀).generation
  idle := hm.idle
  live x hx := by
    obtain ⟨ha, he, hle, hg, hs⟩ := h.live x (hm.items.subset hx)
    rw [← hm.log] at ha hle hg
    exact ⟨ha, he, hle, hg, by rw [hm.serial]; exact hs⟩
  order := h.order.sublist hm.items
  accepted y hy := by
    rw [hm.log] at hy
    rw [hm.serial]
    exact h.accepted y hy
  published y hy x hx := by
    rw [hm.log] at hy
    exact h.published y hy x (hm.items.subset hx)
  allowed := by
    rw [hm.log]
    exact h.allowed

/-- An entry that starts no epoch, ends no run and accepts nothing. -/
theorem Inv.note (h : Inv w) {e : Event} (he : Allowed w.log e)
    (hkeyed : w.p.needKeyframe = false → VideoPipeline.keyed (w.log ++ [e]) = true)
    (hchained : ∀ k, w.worker = some k → k.decoder.needIdr = false → chained (w.log ++ [e]) = true)
    (hera : era (w.log ++ [e]) = era w.log)
    (hgeneration : generationOf (w.log ++ [e]) = generationOf w.log)
    (hnew : ∀ x, e ≠ .accepted x) (hshown : ∀ y, e = .published y → ∀ x ∈ w.items, y.serial < x.serial) :
    Inv { w with log := w.log ++ [e] } where
  epoch := by
    rw [hera]
    exact h.epoch
  keyed := hkeyed
  worker k hk := by
    obtain ⟨hg, -, hwindow, hshowing, hslots⟩ := h.worker k hk
    refine ⟨hgeneration.trans hg, hchained k hk, ?_, ?_, hslots⟩
    · intro x hx
      exact List.mem_append_left _ (hwindow x hx)
    · intro x i hx
      exact List.mem_append_left _ (hshowing x i hx)
  idle := h.idle
  live x hx := by
    obtain ⟨ha, hep, hle, hg, hs⟩ := h.live x hx
    exact ⟨List.mem_append_left _ ha, hep, by rw [hera]; exact hle, hgeneration.trans hg, hs⟩
  order := h.order
  accepted y hy := by
    rcases List.mem_append.mp hy with hy | hy
    · exact h.accepted y hy
    · exact absurd (List.mem_singleton.mp hy).symm (hnew y)
  published y hy x hx := by
    rcases List.mem_append.mp hy with hy | hy
    · exact h.published y hy x hx
    · exact hshown y (List.mem_singleton.mp hy).symm x hx
  allowed := h.allowed.snoc he

theorem inv_create (queueCapacity : Nat) : Inv (create queueCapacity) where
  epoch := rfl
  keyed hk := by cases hk
  worker k hk := by cases hk
  idle _ := ⟨rfl, rfl⟩
  live x hx := by cases hx
  order := .nil
  accepted y hy := by cases hy
  published y hy := by cases hy
  allowed := eachAfter_nil _

theorem ofNat_succ (n : Nat) : UInt64.ofNat (n + 1) = UInt64.ofNat n + 1 := by
  rw [UInt64.ofNat_add]
  rfl

/-- A full queue is dropped and begins an epoch. -/
theorem Inv.discard (h : Inv w) :
    Inv { w with p := { w.p with epoch := w.p.epoch + 1, queue := [], needKeyframe := true },
                 log := w.log ++ [.full] } := by
  have hera := era_snoc w.log .full
  have hgen := generationOf_snoc w.log .full
  have hsub : ({ w with
      p := { w.p with epoch := w.p.epoch + 1, queue := [], needKeyframe := true },
      log := w.log ++ [.full] } : World).items.Sublist w.items := by
    unfold World.items
    exact List.Sublist.append_left (List.nil_sublist _) _
  refine ⟨?_, fun hk => (by cases hk), fun k hk => ?_, fun hn => ⟨(h.idle hn).1, rfl⟩, fun x hx => ?_,
    h.order.sublist hsub, fun y hy => ?_, fun y hy x hx => ?_, h.allowed.snoc trivial⟩
  · simp only [hera]
    rw [h.epoch, ofNat_succ]
  · obtain ⟨hg, hchained, hwindow, hshowing, hslots⟩ := h.worker k hk
    refine ⟨hgen.trans hg, ?_, fun x hx => List.mem_append_left _ (hwindow x hx),
      fun x i hx => List.mem_append_left _ (hshowing x i hx), hslots⟩
    intro hn
    rw [chained_snoc]
    exact hchained hn
  · obtain ⟨ha, he, hle, hg, hs⟩ := h.live x (hsub.subset hx)
    exact ⟨List.mem_append_left _ ha, he, by simp only [hera]; omega, hgen.trans hg, hs⟩
  · exact h.accepted y (by simpa using hy)
  · exact h.published y (by simpa using hy) x (hsub.subset hx)

/-- An access unit is queued behind everything under way. -/
theorem Inv.accept (h : Inv w) {frame : EncodedVideoFrame} (hrun : w.p.running = true)
    (hg : frame.generation = w.p.generation)
    (hkey : ¬(w.p.needKeyframe = true ∧ frame.randomAccess = false)) :
    let x : QueuedAu := ⟨frame, w.p.epoch, w.serial, era w.log⟩
    Inv { w with
      p := { w.p with needKeyframe := if frame.randomAccess then false else w.p.needKeyframe,
                      queue := w.p.queue ++ [x] },
      serial := w.serial + 1, log := w.log ++ [.accepted x] } := by
  intro x
  have hera : era (w.log ++ [.accepted x]) = era w.log := era_snoc _ _
  have hgen : generationOf (w.log ++ [.accepted x]) = generationOf w.log := generationOf_snoc _ _
  obtain ⟨k₀, hk₀⟩ : ∃ k, w.worker = some k := by
    cases hw : w.worker with
    | some k => exact ⟨k, rfl⟩
    | none =>
      rw [(h.idle hw).1] at hrun
      cases hrun
  have hkeyed : frame.randomAccess = false → VideoPipeline.keyed w.log = true := fun hra =>
    h.keyed (by
      by_contra hn
      exact hkey ⟨Bool.eq_true_of_not_eq_false hn, hra⟩)
  have hitems : ({ w with
      p := { w.p with needKeyframe := if frame.randomAccess then false else w.p.needKeyframe,
                      queue := w.p.queue ++ [x] },
      serial := w.serial + 1, log := w.log ++ [.accepted x] } : World).items = w.items ++ [x] := by
    unfold World.items
    rw [List.append_assoc]
  refine ⟨?_, ?_, ?_, ?_, ?_, ?_, ?_,
    ?_, h.allowed.snoc ⟨rfl, h.accepted, hkeyed⟩⟩
  · rw [hera]
    exact h.epoch
  · intro hn
    rw [keyed_snoc]
    cases hra : frame.randomAccess with
    | true => simp [x, hra]
    | false => simp [x, hra, hkeyed hra]
  · intro k hk
    obtain ⟨hkg, hchained, hwindow, hshowing, hslots⟩ := h.worker k hk
    refine ⟨hgen.trans hkg, ?_, fun y hy => List.mem_append_left _ (hwindow y hy),
      fun y i hy => List.mem_append_left _ (hshowing y i hy), hslots⟩
    intro hn
    rw [chained_snoc]
    exact hchained hn
  · intro hn
    have hn' : w.worker = none := hn
    rw [hk₀] at hn'
    cases hn'
  · intro y hy
    rw [hitems] at hy
    rcases List.mem_append.mp hy with hy | hy
    · obtain ⟨ha, he, hle, hyg, hs⟩ := h.live y hy
      exact ⟨List.mem_append_left _ ha, he, by rw [hera]; exact hle, hgen.trans hyg, by
        simp only
        omega⟩
    · rw [List.mem_singleton.mp hy]
      refine ⟨by simp, h.epoch, by rw [hera], ?_, Nat.lt_succ_self _⟩
      rw [hgen, (h.worker k₀ hk₀).generation, ← hg]
  · rw [hitems]
    refine List.pairwise_append.mpr ⟨h.order, List.pairwise_singleton _ _, ?_⟩
    intro y hy z hz
    rw [List.mem_singleton.mp hz]
    exact (h.live y hy).serial
  · intro y hy
    rcases List.mem_append.mp hy with hy | hy
    · exact Nat.lt_succ_of_lt (h.accepted y hy)
    · cases List.mem_singleton.mp hy
      exact Nat.lt_succ_self _
  · intro y hy z hz
    have hy' : .published y ∈ w.log := by simpa using hy
    rw [hitems] at hz
    rcases List.mem_append.mp hz with hz | hz
    · exact h.published y hy' z hz
    · rw [List.mem_singleton.mp hz]
      exact h.accepted y (accepted_of_published h.allowed hy')

theorem Inv.submit (h : Inv w) (frame : EncodedVideoFrame) : Inv (submitLocked (recordFull w frame) frame).1 := by
  rcases submit_cases w frame with hs | ⟨-, hs⟩ | ⟨hrun, hg, hkey, hs⟩
  · rw [hs]
    exact h
  · rw [hs]
    exact h.discard
  · rw [hs]
    exact h.accept hrun hg hkey

/-- The worker is gone and so is everything that was under way. -/
theorem Inv.stopped (h : Inv w) : Inv (stopped w) := by
  have hera := era_snoc w.log .stopped
  refine ⟨?_, ?_, fun k hk => (by cases hk), fun _ => ⟨rfl, rfl⟩, fun x hx => (by cases hx),
    .nil, ?_, fun y hy x hx => (by cases hx), h.allowed.snoc trivial⟩
  · simp only [VideoPipeline.stopped, hera]
    exact h.epoch
  · intro hk
    simp only [VideoPipeline.stopped]
    rw [keyed_snoc]
    exact h.keyed hk
  · intro y hy
    exact h.accepted y (by simpa [VideoPipeline.stopped] using hy)

theorem Inv.started (h : Inv w) (generation : UInt64) : Inv (started w generation) := by
  have hera := era_snoc w.log (.started generation)
  refine ⟨?_, fun hk => (by cases hk), fun k hk => ?_, fun hn => (by cases hn),
    fun x hx => (by cases hx), .nil, fun y hy => ?_, fun y hy x hx => (by cases hx),
    h.allowed.snoc trivial⟩
  · simp only [VideoPipeline.started, hera]
    rw [h.epoch, ofNat_succ]
  · cases hk
    exact ⟨generationOf_snoc _ _, fun hn => (by cases hn), fun x hx => (by cases hx),
      fun x i hx => (by cases hx), rfl⟩
  · exact h.accepted y (by simpa [VideoPipeline.started] using hy)

theorem Inv.finish (h : Inv w) (andStart : Option UInt64) : Inv (finish w andStart) := by
  cases andStart with
  | none => exact h.stopped
  | some generation => exact h.stopped.started generation

theorem Inv.beginStop (h : Inv w) (andStart : Option UInt64) : Inv (beginStop w andStart) := by
  unfold VideoPipeline.beginStop
  cases hw : w.worker with
  | none => exact h.finish andStart
  | some k =>
    refine h.moves ⟨rfl, rfl, rfl, rfl, fun hk => hk, ?_, ?_, fun hn => (by cases hn)⟩
    · simp only [World.items, hw]
      exact List.Sublist.append_left (List.nil_sublist _) _
    · intro k' hk'
      cases hk'
      obtain ⟨-, hchained, hwindow, hshowing, hslots⟩ := h.worker k hw
      exact ⟨by rw [hw]; rfl, hchained, hwindow, hshowing, hslots⟩

/-! The worker's steps. -/

/-- The worker goes on with what it has, or with less. -/
theorem Inv.goOn (h : Inv w) {k k' : Worker} (hw : w.worker = some k)
    (hdecoder : k'.decoder.needIdr = false → k.decoder.needIdr = false)
    (hheld : k'.held.Sublist k.held) (hwindow : k'.window ⊆ k.window)
    (hshowing : ∀ x i, k'.pc ≠ .showing x i)
    (hslots : k'.decoder.inflight.length = k'.inflight.length) : Inv { w with worker := some k' } := by
  obtain ⟨-, hchained, hw', -, -⟩ := h.worker k hw
  refine h.moves ⟨rfl, rfl, rfl, rfl, fun hk => hk, ?_, ?_, fun hn => (by cases hn)⟩
  · simp only [World.items, hw]
    exact hheld.append_right _
  · intro k'' hk''
    cases hk''
    exact ⟨by rw [hw]; rfl, fun hn => hchained (hdecoder hn), fun x hx => hw' x (hwindow hx),
      fun x i hx => absurd hx (hshowing x i), hslots⟩

/-- A failure that is noticed: of another epoch, it leaves the requirement as it is. -/
theorem Inv.rearm (h : Inv w) {k k' : Worker} (hw : w.worker = some k) {item : QueuedAu} (hmem : item ∈ w.items)
    (hdecoder : k'.decoder.needIdr = false → k.decoder.needIdr = false)
    (hheld : k'.held.Sublist k.held) (hwindow : k'.window ⊆ k.window)
    (hshowing : ∀ x i, k'.pc ≠ .showing x i)
    (hslots : k'.decoder.inflight.length = k'.inflight.length) : Inv (rearm w item k') := by
  have hgo := h.goOn hw hdecoder hheld hwindow hshowing hslots
  have hchained : ∀ k'', some k' = some k'' → k''.decoder.needIdr = false →
      VideoPipeline.chained (w.log ++ [.noticed item]) = true := fun k'' hk'' hn => by
    rw [chained_snoc]
    exact (hgo.worker k'' hk'').chained hn
  unfold VideoPipeline.rearm
  dsimp only
  split
  · have harm : Inv { w with p := { w.p with needKeyframe := true }, worker := some k' } :=
      hgo.moves ⟨rfl, rfl, rfl, rfl, fun hk => (by cases hk), .refl _, fun k'' hk'' => by
        obtain ⟨-, hchained, hin, hshow, hlen⟩ := hgo.worker k'' hk''
        exact ⟨rfl, hchained, hin, hshow, hlen⟩, fun hn => (by cases hn)⟩
    exact harm.note (e := .noticed item) trivial (fun hk => (by cases hk)) hchained (era_snoc _ _)
      (generationOf_snoc _ _) (fun x hx => (by cases hx)) fun y hy => (by cases hy)
  · rename_i hepoch
    have hother : item.era ≠ era w.log := fun heq =>
      hepoch ((h.live item hmem).epoch.trans ((congrArg UInt64.ofNat heq).trans h.epoch.symm))
    refine hgo.note (e := .noticed item) trivial ?_ hchained (era_snoc _ _)
      (generationOf_snoc _ _) (fun x hx => (by cases hx)) fun y hy => (by cases hy)
    intro hk
    rw [keyed_snoc]
    simp [hother, h.keyed hk]

/-- An entry about a decode changes nothing for what comes next. -/
theorem Inv.remark (h : Inv w) {e : Event} (he : Allowed w.log e)
    (hk : VideoPipeline.keyed (w.log ++ [e]) = VideoPipeline.keyed w.log)
    (hc : chained w.log = true → chained (w.log ++ [e]) = true)
    (hera : era (w.log ++ [e]) = era w.log)
    (hg : generationOf (w.log ++ [e]) = generationOf w.log) (hnew : ∀ x, e ≠ .accepted x)
    (hshown : ∀ y, e = .published y → ∀ x ∈ w.items, y.serial < x.serial) :
    Inv { w with log := w.log ++ [e] } :=
  h.note he (fun hn => hk.trans (h.keyed hn)) (fun k hw hn => hc ((h.worker k hw).chained hn)) hera hg
    hnew hshown

/-- The worker stays with its decoder and its window and goes to `pc`. -/
theorem Inv.goto (h : Inv w) {k : Worker} (hw : w.worker = some k) {pc : Pc}
    (hheld : (Worker.held { k with pc := pc }).Sublist k.held)
    (hwindow : Worker.window { k with pc := pc } ⊆ k.window) (hshowing : ∀ x i, pc ≠ .showing x i) :
    Inv { w with worker := some { k with pc := pc } } :=
  h.goOn hw (fun hn => hn) hheld hwindow hshowing (h.worker k hw).slots

theorem Inv.fill (h : Inv w) {k : Worker} (hw : w.worker = some k) (hpc : k.pc = .fill)
    {item : QueuedAu} {rest : List QueuedAu} (hq : w.p.queue = item :: rest) :
    Inv { w with p := { w.p with queue := rest },
                 worker := some { k with pc := .decoding item } } := by
  obtain ⟨-, hchained, hwindow, -, hslots⟩ := h.worker k hw
  refine h.moves ⟨rfl, rfl, rfl, rfl, fun hk => hk, ?_, ?_, fun hn => (by cases hn)⟩
  · simp [World.items, Worker.held, Worker.window, hw, hpc, hq]
  · intro k' hk'
    cases hk'
    refine ⟨by rw [hw]; rfl, hchained, fun x hx => hwindow x ?_, fun x i hx => (by cases hx), hslots⟩
    simpa [Worker.window, hpc] using hx

theorem Inv.decode (h : Inv w) {k : Worker} (hw : w.worker = some k) {item : QueuedAu}
    (hpc : k.pc = .decoding item) {o : Oracle} (hs : work w o = some w') : Inv w' := by
  obtain ⟨-, hchained, hwindow, -, hslots⟩ := h.worker k hw
  obtain ⟨hbehind, hclear⟩ := submit_needIdr k.decoder item.frame.annexB o.system
  have hlength := submit_inflight k.decoder item.frame.annexB o.system
  have hmem : item ∈ w.items := by simp [World.items, Worker.held, hw, hpc]
  simp only [work, hw, hpc] at hs
  cases hr : (L4.VideoToolbox.submit k.decoder item.frame.annexB o.system).2 with
  | queued =>
    rw [hr] at hs hlength
    cases hs
    have hnote : Inv { w with log := w.log ++ [.handed item] } :=
      h.remark ⟨(h.live item hmem).accepted, fun hidr => hchained (hbehind hr hidr)⟩ (keyed_snoc _ _)
        (fun hc => by rw [chained_snoc]; simp [hc]) (era_snoc _ _) (generationOf_snoc _ _)
        (fun x hx => (by cases hx)) fun y hy => (by cases hy)
    refine hnote.moves ⟨rfl, rfl, rfl, rfl, fun hk => hk, ?_, ?_,
      fun hn => (by cases hn)⟩
    · simp [World.items, Worker.held, Worker.window, hw, hpc]
    · intro k' hk'
      cases hk'
      refine ⟨by simp [hw], fun hn => ?_, fun x hx => ?_, fun x i hx => (by cases hx), ?_⟩
      · rw [chained_snoc]
        rcases hclear hn with hold | ⟨-, hidr⟩
        · simp [hchained hold]
        · simp [hidr]
      · rcases List.mem_append.mp hx with hx | hx
        · cases hx
        rcases List.mem_append.mp hx with hx | hx
        · exact List.mem_append_left _ (hwindow x (List.mem_append_right _ hx))
        · rw [List.mem_singleton.mp hx]
          exact List.mem_append_right _ (List.mem_singleton_self _)
      · simpa [hslots] using hlength
  | noOutput =>
    rw [hr] at hs hlength
    cases hs
    refine h.goOn hw (fun hn => ?_) ?_ ?_ (fun x i hx => (by cases hx)) ?_
    · rcases hclear hn with hold | ⟨hq, -⟩
      · exact hold
      · rw [hr] at hq
        cases hq
    · simp [Worker.held, Worker.window, hpc]
    · simp [Worker.window, hpc]
    · simpa [hslots] using hlength
  | failed error =>
    rw [hr] at hs hlength
    cases hs
    have hnote : Inv { w with log := w.log ++ [.refused item] } :=
      h.remark trivial (keyed_snoc _ _) (fun hc => by rw [chained_snoc]; exact hc) (era_snoc _ _)
        (generationOf_snoc _ _) (fun x hx => (by cases hx)) fun y hy => (by cases hy)
    refine hnote.goOn hw (fun hn => ?_) ?_ ?_ (fun x i hx => (by cases hx)) ?_
    · rcases hclear hn with hold | ⟨hq, -⟩
      · exact hold
      · rw [hr] at hq
        cases hq
    · simp [Worker.held, Worker.window, hpc]
    · simp [Worker.window, hpc]
    · simpa [hslots] using hlength

theorem Inv.take (h : Inv w) {k : Worker} (hw : w.worker = some k) (hpc : k.pc = .taking)
    {o : Oracle} (hs : work w o = some w') : Inv w' := by
  have hslots := (h.worker k hw).slots
  simp only [work, hw, hpc] at hs
  cases hin : k.inflight with
  | nil =>
    rw [hin] at hs
    cases hs
  | cons head rest =>
    rw [hin] at hs hslots
    have hneed := fun hn => takeOldest_needIdr (d := k.decoder) (a := o.answer) hn
    have hgo : Inv { w with
        worker := some {
          pc := .taken head (takeOldest k.decoder o.answer).2
          decoder := (takeOldest k.decoder o.answer).1
          inflight := rest } } := by
      refine h.goOn hw (fun hn => (hneed hn).1) ?_ ?_ (fun x i hx => (by cases hx)) ?_
      · simp [Worker.held, Worker.window, hpc, hin]
      · simp [Worker.window, hpc, hin]
      · rw [takeOldest_inflight, List.length_tail, hslots]
        simp
    cases hr : (takeOldest k.decoder o.answer).2 with
    | ok image =>
      rw [hr] at hs hgo
      simp only [List.append_nil, Option.some.injEq] at hs
      rw [← hs]
      exact hgo
    | error e =>
      rw [hr] at hs hgo
      cases hs
      refine hgo.note (e := .lost head) trivial ?_ ?_ (era_snoc _ _)
        (generationOf_snoc _ _) (fun x hx => (by cases hx)) fun y hy => (by cases hy)
      · intro hn
        rw [keyed_snoc]
        exact h.keyed hn
      · intro k' hk' hn
        cases hk'
        obtain ⟨-, ⟨shown, hok⟩ | hempty⟩ := hneed hn
        · rw [hr] at hok
          cases hok
        · rw [hempty] at hslots
          simp at hslots

/-- A result passes its check in the epoch it was accepted in. -/
theorem Inv.check (h : Inv w) (hfresh : w.Fresh) {k : Worker} (hw : w.worker = some k)
    {head : QueuedAu} {image : Bool} (hpc : k.pc = .checking head image)
    (hepoch : head.epoch = w.p.epoch) :
    Inv { w with worker := some { k with pc := .showing head image },
                 log := w.log ++ [.checked head] } := by
  obtain ⟨-, hchained, hwindow, -, hslots⟩ := h.worker k hw
  have hmem : head ∈ w.items := by simp [World.items, Worker.held, Worker.window, hw, hpc]
  have hlive := h.live head hmem
  have hera : head.era = era w.log := by
    have heq := congrArg UInt64.toNat (hlive.epoch.symm.trans (hepoch.trans h.epoch))
    rw [UInt64.toNat_ofNat', UInt64.toNat_ofNat'] at heq
    have hle := hlive.era
    have hlt := hfresh head hmem
    omega
  have hnote : Inv { w with log := w.log ++ [.checked head] } :=
    h.remark ⟨hwindow head (by simp [Worker.window, hpc]), hera⟩ (keyed_snoc _ _)
      (fun hc => by rw [chained_snoc]; exact hc) (era_snoc _ _) (generationOf_snoc _ _)
      (fun x hx => (by cases hx)) fun y hy => (by cases hy)
  refine hnote.moves ⟨rfl, rfl, rfl, rfl, fun hk => hk, ?_, ?_, fun hn => (by cases hn)⟩
  · simp [World.items, Worker.held, Worker.window, hw, hpc]
  · intro k' hk'
    cases hk'
    refine ⟨by simp [hw], fun hn => ?_, fun x hx => ?_, fun x i hx => ?_, hslots⟩
    · rw [chained_snoc]
      exact hchained hn
    · refine List.mem_append_left _ (hwindow x ?_)
      simpa [Worker.window, hpc] using hx
    · cases hx
      simp

theorem Inv.publish (h : Inv w) {k : Worker} (hw : w.worker = some k) {head : QueuedAu} {image : Bool}
    (hpc : k.pc = .showing head image) :
    Inv { w with worker := some { k with pc := .fill }, log := w.log ++ [.published head] } := by
  have hitems : w.items = head :: (k.inflight ++ w.p.queue) := by
    simp [World.items, Worker.held, Worker.window, hw, hpc]
  have hmem : head ∈ w.items := by simp [hitems]
  have horder := h.order
  rw [hitems, List.pairwise_cons] at horder
  have hgo : Inv { w with worker := some { k with pc := .fill } } := by
    refine h.goto hw ?_ ?_ fun x i hx => (by cases hx)
    · simp [Worker.held, Worker.window, hpc]
    · simp [Worker.window, hpc]
  refine hgo.remark ⟨(h.worker k hw).showing head image hpc, fun y hy => h.published y hy head hmem,
    (h.live head hmem).generation⟩ (keyed_snoc _ _) (fun hc => by rw [chained_snoc]; exact hc)
    (era_snoc _ _) (generationOf_snoc _ _) (fun x hx => (by cases hx)) fun y hy x hx => ?_
  cases hy
  refine horder.1 x ?_
  simpa [World.items, Worker.held, Worker.window] using hx

theorem Inv.work (h : Inv w) (hfresh : w.Fresh) {o : Oracle} (hs : work w o = some w') : Inv w' := by
  cases hw : w.worker with
  | none =>
    simp only [VideoPipeline.work, hw] at hs
    cases hs
  | some k =>
    have hslots := (h.worker k hw).slots
    cases hpc : k.pc with
    | decoding item => exact h.decode hw hpc hs
    | taking => exact h.take hw hpc hs
    | exited =>
      simp only [VideoPipeline.work, hw, hpc] at hs
      cases hs
    | fill =>
      have hmove : ∀ pc, pc = .exited ∨ pc = .filled → Inv { w with worker := some { k with pc := pc } } := by
        rintro pc (rfl | rfl)
        · exact h.goto hw (by simp [Worker.held, Worker.window, hpc]) (by simp [Worker.window, hpc])
            fun x i hx => (by cases hx)
        · exact h.goto hw (by simp [Worker.held, Worker.window, hpc]) (by simp [Worker.window, hpc])
            fun x i hx => (by cases hx)
      simp only [VideoPipeline.work, hw, hpc] at hs
      split at hs
      · cases hs
        exact hmove _ (.inl rfl)
      split at hs
      · cases hs
        exact hmove _ (.inr rfl)
      rename_i item rest hq
      split at hs
      · cases hs
        exact hmove _ (.inr rfl)
      · cases hs
        exact h.fill hw hpc hq
    | refused item =>
      simp only [VideoPipeline.work, hw, hpc] at hs
      cases hs
      exact h.rearm hw (by simp [World.items, Worker.held, hw, hpc]) (fun hn => hn)
        (by simp [Worker.held, Worker.window, hpc]) (by simp [Worker.window, hpc]) (fun x i hx => (by cases hx)) hslots
    | filled =>
      have hmove : ∀ pc, pc = .exited ∨ pc = .fill ∨ pc = .taking →
          Inv { w with worker := some { k with pc := pc } } := by
        rintro pc (rfl | rfl | rfl)
        · exact h.goto hw (by simp [Worker.held, Worker.window, hpc]) (by simp [Worker.window, hpc])
            fun x i hx => (by cases hx)
        · exact h.goto hw (by simp [Worker.held, Worker.window, hpc]) (by simp [Worker.window, hpc])
            fun x i hx => (by cases hx)
        · exact h.goto hw (by simp [Worker.held, Worker.window, hpc]) (by simp [Worker.window, hpc])
            fun x i hx => (by cases hx)
      simp only [VideoPipeline.work, hw, hpc] at hs
      split at hs
      · split at hs
        · cases hs
          exact hmove _ (.inl rfl)
        split at hs
        · cases hs
        · cases hs
          exact hmove _ (.inr (.inl rfl))
      · split at hs
        · cases hs
          exact hmove _ (.inl rfl)
        · cases hs
          exact hmove _ (.inr (.inr rfl))
    | taken head result =>
      simp only [VideoPipeline.work, hw, hpc] at hs
      split at hs
      · cases hs
        exact h.goto hw (by simp [Worker.held, Worker.window, hpc]) (by simp [Worker.window, hpc])
          fun x i hx => (by cases hx)
      cases result with
      | error e =>
        cases hs
        exact h.goto hw (by simp [Worker.held, Worker.window, hpc]) (by simp [Worker.window, hpc])
          fun x i hx => (by cases hx)
      | ok image =>
        cases hs
        exact h.goto hw (by simp [Worker.held, Worker.window, hpc]) (by simp [Worker.window, hpc])
          fun x i hx => (by cases hx)
    | failed head =>
      simp only [VideoPipeline.work, hw, hpc] at hs
      cases hs
      exact h.rearm hw (by simp [World.items, Worker.held, Worker.window, hw, hpc]) (fun hn => hn)
        (by simp [Worker.held, Worker.window, hpc]) (by simp [Worker.window, hpc]) (fun x i hx => (by cases hx)) hslots
    | checking head image =>
      simp only [VideoPipeline.work, hw, hpc] at hs
      split at hs
      · cases hs
        exact h.check hfresh hw hpc ‹_›
      · cases hs
        exact h.goto hw (by simp [Worker.held, Worker.window, hpc]) (by simp [Worker.window, hpc])
          fun x i hx => (by cases hx)
    | showing head image =>
      simp only [VideoPipeline.work, hw, hpc] at hs
      split at hs
      · cases hs
        exact h.publish hw hpc
      · cases hs
        exact h.goto hw (by simp [Worker.held, Worker.window, hpc]) (by simp [Worker.window, hpc])
          fun x i hx => (by cases hx)

theorem inv_next {l : Label} (h : Inv w) (hfresh : w.Fresh) (hs : next w l = some w') : Inv w' := by
  cases l with
  | submit frame =>
    cases hs
    exact h.submit frame
  | start format generation =>
    simp only [next] at hs
    split at hs
    · cases hs
      split
      · exact h.beginStop _
      · exact h
    · cases hs
  | stop =>
    simp only [next] at hs
    split at hs
    · cases hs
      exact h.beginStop none
    · cases hs
  | joined =>
    simp only [next] at hs
    split at hs
    · split at hs
      · cases hs
        exact h.finish _
      · cases hs
    · cases hs
  | work o => exact h.work hfresh hs

end Inv

theorem inv_inductive (queueCapacity : Nat) :
    ((pipelining queueCapacity).guarded fun w _ => w.Fresh).Inductive Inv where
  init w h := by
    rw [h]
    exact inv_create queueCapacity
  step w l w' h hs := inv_next h hs.2 hs.1

/-! ## Failures are noticed in turn -/

/-- The failure the worker is about to notice. -/
def Pc.failing : Pc → Option QueuedAu
  | .refused x | .failed x | .taken x (.error _) => some x
  | _ => none

/-- The failure that is pending is the one the worker is about to notice, unless
it has left on a stop. -/
structure Noticing (w : World) : Prop where
  worker : ∀ k, w.worker = some k → pending w.log = k.pc.failing ∨ k.pc = .exited ∧ w.p.stopping = true
  gone : w.worker = none → pending w.log = none
  inTurn : EachAfter InTurn w.log

section Noticing
variable {w w' : World}

/-- The worker goes on, perhaps with an entry. -/
theorem Noticing.goOn (h : Noticing w) {k : Worker} (hw : w'.worker = some k) {es : List Event}
    (hlog : w'.log = w.log ++ es) (hes : es = [] ∨ ∃ e, es = [e] ∧ InTurn w.log e)
    (hfailing : pending w'.log = k.pc.failing ∨ k.pc = .exited ∧ w'.p.stopping = true) : Noticing w' where
  worker k' hk' := by
    cases hw.symm.trans hk'
    exact hfailing
  gone hn := by
    rw [hw] at hn
    cases hn
  inTurn := by
    rw [hlog]
    rcases hes with rfl | ⟨e, rfl, he⟩
    · rw [List.append_nil]
      exact h.inTurn
    · exact h.inTurn.snoc he

theorem Noticing.submit (h : Noticing w) (frame : EncodedVideoFrame) :
    Noticing (submitLocked (recordFull w frame) frame).1 := by
  rcases submit_cases w frame with hs | ⟨-, hs⟩ | ⟨-, -, -, hs⟩
  · rw [hs]
    exact h
  · rw [hs]
    refine ⟨?_, fun hn => (pending_snoc _ _).trans (h.gone hn), h.inTurn.snoc trivial⟩
    intro k hk
    rw [pending_snoc]
    exact h.worker k hk
  · rw [hs]
    refine ⟨?_, fun hn => (pending_snoc _ _).trans (h.gone hn), h.inTurn.snoc trivial⟩
    intro k hk
    rw [pending_snoc]
    exact h.worker k hk

theorem Noticing.finish (h : Noticing w) (andStart : Option UInt64) : Noticing (finish w andStart) := by
  have hstopped : Noticing (stopped w) :=
    ⟨fun k hk => (by cases hk), fun _ => pending_snoc _ .stopped, h.inTurn.snoc trivial⟩
  cases andStart with
  | none => exact hstopped
  | some generation =>
    refine ⟨?_, fun hn => (by cases hn), hstopped.inTurn.snoc trivial⟩
    intro k hk
    cases hk
    exact .inl (pending_snoc _ (.started generation))

theorem Noticing.beginStop (h : Noticing w) (andStart : Option UInt64) : Noticing (beginStop w andStart) := by
  unfold VideoPipeline.beginStop
  cases hw : w.worker with
  | none => exact h.finish andStart
  | some k =>
    refine ⟨?_, fun hn => (by cases hn), h.inTurn⟩
    intro k' hk'
    exact (h.worker k' (hw.trans hk')).imp_right fun hleft => ⟨hleft.1, rfl⟩

@[simp] theorem rearm_log (w : World) (item : QueuedAu) (k : Worker) :
    (rearm w item k).log = w.log ++ [.noticed item] := by
  unfold rearm
  dsimp only
  split
  · rfl
  · rfl

@[simp] theorem rearm_worker (w : World) (item : QueuedAu) (k : Worker) : (rearm w item k).worker = some k := by
  unfold rearm
  dsimp only
  split
  · rfl
  · rfl

theorem Noticing.rearm (h : Noticing w) {item : QueuedAu} {k : Worker} (hpc : k.pc = .fill)
    (hpending : pending w.log = some item) : Noticing (rearm w item k) := by
  refine h.goOn (rearm_worker w item k) (rearm_log w item k) (.inr ⟨_, rfl, hpending⟩) (.inl ?_)
  rw [rearm_log, pending_snoc, hpc]
  rfl

theorem Noticing.work (h : Noticing w) {o : Oracle} (hs : work w o = some w') : Noticing w' := by
  cases hw : w.worker with
  | none =>
    simp only [VideoPipeline.work, hw] at hs
    cases hs
  | some k =>
    have hat : k.pc ≠ .exited → pending w.log = k.pc.failing := fun hne =>
      (h.worker k hw).resolve_right fun hleft => hne hleft.1
    -- without an entry the failure stays what it is, unless the worker leaves
    have hgoto : ∀ {p : Pipeline} {k' : Worker}, pending w.log = k'.pc.failing ∨ k'.pc = .exited ∧ p.stopping = true →
        Noticing { w with p := p, worker := some k' } := fun hf =>
      h.goOn rfl (List.append_nil _).symm (.inl rfl) hf
    cases hpc : k.pc with
    | exited =>
      simp only [VideoPipeline.work, hw, hpc] at hs
      cases hs
    | fill =>
      have hnone : pending w.log = none := by simpa [hpc, Pc.failing] using hat (by simp [hpc])
      simp only [VideoPipeline.work, hw, hpc] at hs
      split at hs
      · cases hs
        exact hgoto (.inl hnone)
      split at hs
      · cases hs
        exact hgoto (.inl hnone)
      split at hs
      · cases hs
        exact hgoto (.inl hnone)
      · cases hs
        exact hgoto (.inl hnone)
    | decoding item =>
      have hnone : pending w.log = none := by simpa [hpc, Pc.failing] using hat (by simp [hpc])
      simp only [VideoPipeline.work, hw, hpc] at hs
      split at hs
      · cases hs
        exact h.goOn rfl rfl (.inr ⟨_, rfl, hnone⟩) (.inl ((pending_snoc _ _).trans hnone))
      · cases hs
        exact hgoto (.inl hnone)
      · cases hs
        exact h.goOn rfl rfl (.inr ⟨_, rfl, hnone⟩) (.inl (pending_snoc _ _))
    | refused item =>
      have hsome : pending w.log = some item := by simpa [hpc, Pc.failing] using hat (by simp [hpc])
      simp only [VideoPipeline.work, hw, hpc] at hs
      cases hs
      exact h.rearm rfl hsome
    | filled =>
      have hnone : pending w.log = none := by simpa [hpc, Pc.failing] using hat (by simp [hpc])
      simp only [VideoPipeline.work, hw, hpc] at hs
      split at hs
      · split at hs
        · cases hs
          exact hgoto (.inl hnone)
        split at hs
        · cases hs
        · cases hs
          exact hgoto (.inl hnone)
      · split at hs
        · cases hs
          exact hgoto (.inl hnone)
        · cases hs
          exact hgoto (.inl hnone)
    | taking =>
      have hnone : pending w.log = none := by simpa [hpc, Pc.failing] using hat (by simp [hpc])
      simp only [VideoPipeline.work, hw, hpc] at hs
      split at hs
      · cases hs
      · rename_i head rest hin
        cases hs
        cases hr : (takeOldest k.decoder o.answer).2 with
        | ok image => exact h.goOn rfl rfl (.inl rfl) (.inl (by simpa [Pc.failing] using hnone))
        | error e => exact h.goOn rfl rfl (.inr ⟨_, rfl, hnone⟩) (.inl (pending_snoc _ _))
    | taken head result =>
      have hresult := hat (by simp [hpc])
      rw [hpc] at hresult
      simp only [VideoPipeline.work, hw, hpc] at hs
      split at hs
      · rename_i hstop
        cases hs
        exact hgoto (.inr ⟨rfl, hstop⟩)
      · cases result with
        | error e =>
          cases hs
          exact hgoto (.inl hresult)
        | ok image =>
          cases hs
          exact hgoto (.inl hresult)
    | failed head =>
      have hsome : pending w.log = some head := by simpa [hpc, Pc.failing] using hat (by simp [hpc])
      simp only [VideoPipeline.work, hw, hpc] at hs
      cases hs
      exact h.rearm rfl hsome
    | checking head image =>
      have hnone : pending w.log = none := by simpa [hpc, Pc.failing] using hat (by simp [hpc])
      simp only [VideoPipeline.work, hw, hpc] at hs
      split at hs
      · cases hs
        exact h.goOn rfl rfl (.inr ⟨_, rfl, hnone⟩) (.inl ((pending_snoc _ _).trans hnone))
      · cases hs
        exact hgoto (.inl hnone)
    | showing head image =>
      have hnone : pending w.log = none := by simpa [hpc, Pc.failing] using hat (by simp [hpc])
      simp only [VideoPipeline.work, hw, hpc] at hs
      split at hs
      · cases hs
        exact h.goOn rfl rfl (.inr ⟨_, rfl, hnone⟩) (.inl ((pending_snoc _ _).trans hnone))
      · cases hs
        exact hgoto (.inl hnone)

theorem noticing_next {l : Label} (h : Noticing w) (hs : next w l = some w') : Noticing w' := by
  cases l with
  | submit frame =>
    cases hs
    exact h.submit frame
  | start format generation =>
    simp only [next] at hs
    split at hs
    · cases hs
      split
      · exact h.beginStop _
      · exact h
    · cases hs
  | stop =>
    simp only [next] at hs
    split at hs
    · cases hs
      exact h.beginStop none
    · cases hs
  | joined =>
    simp only [next] at hs
    split at hs
    · split at hs
      · cases hs
        exact h.finish _
      · cases hs
    · cases hs
  | work o => exact h.work hs

/-- The next step of the worker notices the failure, or the one after it does. -/
def Notices (w : World) (x : QueuedAu) : Prop :=
  ∀ o, ∃ w₁, work w o = some w₁ ∧
    (w₁.log = w.log ++ [.noticed x] ∨ ∀ o', ∃ w₂, work w₁ o' = some w₂ ∧ w₂.log = w.log ++ [.noticed x])

theorem Noticing.pending_noticed (h : Noticing w) {x : QueuedAu} (hx : pending w.log = some x) :
    w.p.stopping = true ∨ Notices w x := by
  cases hw : w.worker with
  | none =>
    rw [h.gone hw] at hx
    cases hx
  | some k =>
    rcases h.worker k hw with hfailing | ⟨-, hstop⟩
    swap
    · exact .inl hstop
    rw [hx] at hfailing
    cases hstop : w.p.stopping with
    | true => exact .inl rfl
    | false =>
      right
      intro o
      cases hpc : k.pc with
      | refused y =>
        rw [hpc] at hfailing
        cases hfailing
        exact ⟨VideoPipeline.rearm w x { k with pc := .fill }, by simp only [VideoPipeline.work, hw, hpc],
          .inl (rearm_log _ _ _)⟩
      | failed y =>
        rw [hpc] at hfailing
        cases hfailing
        exact ⟨VideoPipeline.rearm w x { k with pc := .fill }, by simp only [VideoPipeline.work, hw, hpc],
          .inl (rearm_log _ _ _)⟩
      | taken y result =>
        rw [hpc] at hfailing
        cases result with
        | ok image => cases hfailing
        | error e =>
          cases hfailing
          refine ⟨_, by simp only [VideoPipeline.work, hw, hpc, hstop]; rfl, .inr fun o' => ⟨_, rfl, ?_⟩⟩
          exact rearm_log _ _ _
      | _ =>
        rw [hpc] at hfailing
        cases hfailing

end Noticing

theorem noticing_inductive (queueCapacity : Nat) : (pipelining queueCapacity).Inductive Noticing where
  init w h := by
    rw [h]
    exact ⟨fun k hk => (by cases hk), fun _ => rfl, eachAfter_nil _⟩
  step w l w' h hs := noticing_next h hs

/-! ## Recovery -/

/-- **Every entry of the log was allowed when it was made**, in every run whose
access units are finished with before 2^64 epochs have passed. A failure is
noticed in turn, at most two steps of the worker after it, or `stop` has come. -/
theorem recovers {queueCapacity : Nat} {w : World}
    (hr : ((pipelining queueCapacity).guarded fun w _ => w.Fresh).Reachable w) :
    EachAfter Allowed w.log ∧ EachAfter InTurn w.log ∧
      ∀ x, pending w.log = some x → w.p.stopping = true ∨ Notices w x := by
  have hallowed := ((inv_inductive queueCapacity).reachable w hr).allowed
  obtain ⟨w₀, ls, h₀, hrun⟩ := hr
  have hnoticing := (noticing_inductive queueCapacity).reachable w ⟨w₀, ls, h₀, hrun.of_guarded⟩
  exact ⟨hallowed, hnoticing.inTurn, fun x hx => hnoticing.pending_noticed hx⟩

def idrFrame : EncodedVideoFrame where
  annexB := [0, 0, 1, 0x67, 1, 0, 0, 1, 0x68, 1, 0, 0, 1, 0x65, 1]
  generation := 7
  randomAccess := true

def deltaFrame : EncodedVideoFrame where
  annexB := [0, 0, 1, 0x41, 1]
  generation := 7
  randomAccess := false

def go (n : Nat) : List Label := List.replicate n (.work {})

def loses : Label := .work { answer := .status (-1) }

/-- An IDR and two frames behind it are in the window when the first of the two
is lost. -/
def tailRun : List Label :=
  [.start {} 7, .submit idrFrame, .submit deltaFrame, .submit deltaFrame] ++ go 14 ++ [loses] ++ go 8

def tail : World := LTS.played next (fun w _ => w.Fresh) (create 8) tailRun

theorem recovers_tail :
    EachAfter Allowed tail.log ∧ EachAfter InTurn tail.log ∧ .noticed ⟨deltaFrame, 1, 1, 1⟩ ∈ tail.log ∧
      tail.log.filter (· matches .published _) =
        [.published ⟨idrFrame, 1, 0, 1⟩, .published ⟨deltaFrame, 1, 2, 1⟩] := by
  obtain ⟨hallowed, hturn, -⟩ :=
    recovers ⟨create 8, tailRun, rfl, LTS.played_run (fun _ _ _ h => h) (by decide)⟩
  exact ⟨hallowed, hturn, by decide, by decide⟩

/-- After the failure of `k` a frame that is no random-access frame, submitted
after `k` in the same epoch, is published behind a random-access frame submitted
after `k`. -/
def Recovers (log : List Event) : Prop :=
  ∀ pre x post, log = pre ++ .published x :: post → x.frame.randomAccess = false →
    ∀ k, (.refused k ∈ pre ∨ .lost k ∈ pre) → k.era = x.era → k.serial < x.serial →
      ∃ y, .published y ∈ pre ∧ y.frame.randomAccess = true ∧ k.serial < y.serial

/-- A frame is lost, the next random-access frame cannot be normalised, and the
one behind it is shown. -/
def unseenRun : List Label :=
  [.start {} 7, .submit idrFrame, .submit deltaFrame] ++ go 12 ++ [loses] ++ go 2 ++
    [.submit idrFrame, .submit deltaFrame] ++ go 9 ++ [.work { normalizes := false }] ++ go 6

def unseen : World := LTS.played next (fun _ _ => True) (create 8) unseenRun

/-- In both runs a dependent frame is published after the loss of number 1, and
the only random-access frame that has been published is number 0. -/
theorem unseen_recovery :
    ((pipelining 8).Reachable tail ∧ ¬Recovers tail.log) ∧
      (pipelining 8).Reachable unseen ∧ ¬Recovers unseen.log := by
  have key : ∀ {log pre post : List Event} {x k : QueuedAu}, log = pre ++ .published x :: post →
      x.frame.randomAccess = false → .lost k ∈ pre → k.era = x.era → k.serial < x.serial →
      pre.filter (· matches .published _) = [.published ⟨idrFrame, 1, 0, 1⟩] → k.serial = 1 →
      ¬Recovers log := by
    intro log pre post x k hlog hx hk hera hlt hpub hone h
    obtain ⟨y, hy, -, hys⟩ := h pre x post hlog hx k (.inr hk) hera hlt
    have hmem : .published y ∈ pre.filter (· matches .published _) := List.mem_filter.mpr ⟨hy, rfl⟩
    rw [hpub] at hmem
    cases List.mem_singleton.mp hmem
    simp at hys
  refine ⟨⟨⟨create 8, tailRun, rfl, ?_⟩, ?_⟩, ⟨create 8, unseenRun, rfl, ?_⟩, ?_⟩
  · exact (LTS.played_run (fun _ _ _ h => h) (by decide)).of_guarded
  · exact key (x := ⟨deltaFrame, 1, 2, 1⟩) (k := ⟨deltaFrame, 1, 1, 1⟩)
      (show tail.log = tail.log.dropLast ++ _ :: [] by decide) rfl (by decide) rfl (by decide)
      (by decide) rfl
  · exact (LTS.played_run (fun _ _ _ h => h) (by decide)).of_guarded
  · exact key (x := ⟨deltaFrame, 1, 3, 1⟩) (k := ⟨deltaFrame, 1, 1, 1⟩)
      (show unseen.log = unseen.log.dropLast ++ _ :: [] by decide) rfl (by decide) rfl (by decide)
      (by decide) rfl

end KmVirtualCamera.L5.VideoPipeline
