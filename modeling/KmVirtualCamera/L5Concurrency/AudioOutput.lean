import Mathlib
import KmVirtualCamera.Core.LTS
import KmVirtualCamera.L2Machine.AudioPcmQueue

/-!
# The audio output of the macOS host (`AudioOutput`)

One thread calls `start`, `stop` and `setDevice`; a worker makes every
`AudioQueue` call; the device hands finished buffers back on a thread of its
own; the RTC callback pushes. They meet in the mutex, so a step is one section
under it, or what a thread does between two of them.

An `AudioQueue` is a number and a buffer knows the queue it was allocated by.
What the system holds is part of the state: the queues not yet disposed of, the
buffers enqueued, and the completion callbacks that have been made and wait for
the mutex. A queue hands back a buffer that is enqueued at it, and none before
`AudioQueueStart` has succeeded; stopping and disposing of a queue returns when
no callback of it is waiting. `AudioQueueStart`, the building of a queue and
`AudioQueueEnqueueBuffer` may fail at any time. Rate and name of the device are
left out. `disposed` and `answers` are not in the code.

`next_cases` says what a step can do; `AudioBuffers` and `AudioCommands` have
what holds in every run.
-/
namespace KmVirtualCamera.L5.AudioOutput
open KmVirtualCamera.L2

/-- What the constructor computes from rate and channels.
mirrors macos/receiver/audio_output.cpp:93-100 -/
structure Sizes where
  capacity : Nat
  highWater : Nat
  target : Nat
  bufferElements : Nat
  channels : Nat

structure Buffer where
  queue : Nat
  index : Nat
  deriving DecidableEq

inductive Command where
  | start
  | setDevice (device : UInt32)
  deriving DecidableEq

def Command.device : Command → UInt32
  | .start => 0
  | .setDevice device => device

/-- What can go wrong with a new queue before it replaces the current one; of its
buffers some may have been enqueued. -/
inductive Failure where
  | noUid
  | setProperty (status : Int)
  | allocate (status : Int)
  | enqueue (before : Fin 4) (status : Int)

/-- mirrors macos/receiver/audio_output.cpp:32-36 -/
def osError (what : String) (status : Int) : String := what ++ " (" ++ toString status ++ ")"

def Failure.text : Failure → String
  | .noUid => "output device has no UID"
  | .setProperty status => osError "AudioQueueSetProperty(CurrentDevice)" status
  | .allocate status => osError "AudioQueueAllocateBuffer" status
  | .enqueue _ status => osError "AudioQueueEnqueueBuffer" status

def Failure.enqueued : Failure → Nat
  | .enqueue before _ => before
  | _ => 0

/-- What comes of building a queue, by how far it gets. -/
inductive Building where
  | newOutput (status : Int)
  | failed (f : Failure)
  | complete

/-- Where the worker is. From `executing` to `answering` it is in
`ExecuteCommand`, from `filling` to `filled` it has a buffer in its hands; in
`discarding` it disposes of a queue that did not get as far as to play. -/
inductive Worker where
  | absent
  | waiting
  | executing
  | creating (device : UInt32)
  | built (queue : Nat) (target : UInt32)
  | replacing (queue : Nat) (target : UInt32) (previous : Option Nat)
  | starting (queue : Nat) (target : UInt32)
  | refused (queue : Nat) (error : String)
  | discarding (queue : Nat) (error : String)
  | started (target : UInt32)
  | cleared (target : UInt32)
  | reserved (target : UInt32)
  | answering (error : Option String)
  | filling (buffer : Buffer)
  | popped (buffer : Buffer) (data : List Int16)
  | filled (buffer : Buffer) (data : List Int16)
  | closing (queue : Option Nat)
  | closed
  | gone
  deriving DecidableEq

/-- Where the caller is: in `Start` before the thread, in `RunCommand` before
and after its first section, in `Stop` before and after its own. A `Stop` that
ends a failed `Start` has the error to report. -/
inductive Control where
  | idle
  | spawning
  | calling (command : Command)
  | waiting (command : Command)
  | stopping (error : String)
  | joining (error : Option String)
  deriving DecidableEq

/-- mirrors macos/receiver/audio_output.cpp:129-160 -/
structure Output where
  pcm : AudioPcmQueue.Queue
  free : List Buffer := []
  worker : Worker := .absent
  stopRequested : Bool := false
  workerAlive : Bool := false
  running : Bool := false
  muted : Bool := false
  cmdPending : Bool := false
  cmdDone : Bool := false
  cmd : Option Command := none
  cmdOk : Bool := false
  cmdError : String := ""
  aq : Option Nat := none
  deviceID : UInt32 := 0
  buffersCompleted : UInt64 := 0
  mutedBuffers : UInt64 := 0
  enqueuedFrames : UInt64 := 0
  underruns : UInt64 := 0
  enqueueErrors : UInt64 := 0
  control : Control := .idle
  nextQueue : Nat := 0
  alive : List Nat := []
  begun : List Nat := []
  device : List Buffer := []
  callbacks : List Buffer := []
  disposed : List Nat := []
  answers : List (Command × Option String) := []

inductive Label where
  | start
  | spawn
  | setDevice (device : UInt32)
  | post
  | wake
  | timeout
  | stop
  | join
  | mute (muted : Bool)
  | look
  | read
  | create (fallback : UInt32) (building : Building)
  | swap
  | dispose
  | begin (status : Int)
  | withdraw
  | clear
  | reserve
  | adopt
  | answer
  | fill
  | shade
  | enqueue (status : Int)
  | finish
  | push (data : List Int16) (elapsedNs : UInt64)
  | complete (buffer : Buffer)
  | callback (buffer : Buffer)

namespace Output

/-- What `RunCommand` returns; `Start` goes on to `Stop` when it failed.
mirrors macos/receiver/audio_output.cpp:173-177,248-272 -/
def reply (s : Output) (c : Command) (error : Option String) : Output :=
  match c, error with
  | .start, some e => { s with control := .stopping e }
  | _, _ => { s with control := .idle, answers := s.answers ++ [(c, error)] }

/-- mirrors macos/receiver/audio_output.cpp:249-260 -/
def postCommand (s : Output) (c : Command) : Output :=
  if s.cmdPending then s.reply c (some "an audio device command is already in flight")
  else
    { s with cmd := some c, cmdPending := true, cmdDone := false, cmdOk := false, cmdError := "",
             control := .waiting c }

/-- mirrors macos/receiver/audio_output.cpp:267-271 -/
def result (s : Output) : Option String :=
  if s.cmdOk then none
  else some (if s.cmdError = "" then "audio endpoint is no longer available" else s.cmdError)

/-- mirrors macos/receiver/audio_output.cpp:181-191 -/
def beginStop (s : Output) (error : Option String) : Output :=
  let s := { s with stopRequested := true, control := .joining error }
  if s.cmdPending then
    { s with cmdOk := false, cmdError := "audio output stopped", cmdPending := false, cmdDone := true }
  else s

/-- mirrors macos/receiver/audio_output.cpp:192-196 -/
def joined (s : Output) (error : Option String) : Output :=
  { s with worker := .absent, free := [], running := false, control := .idle,
           answers := s.answers ++ (error.map fun e => (Command.start, some e)).toList }

/-- The worker leaves its loop. mirrors macos/receiver/audio_output.cpp:305-312 -/
def leave (s : Output) : Output :=
  { s with worker := .closing s.aq, aq := none, free := [], running := false, cmdPending := false, cmdDone := true }

/-- mirrors macos/receiver/audio_output.cpp:345-349 -/
def target (s : Output) (device fallback : UInt32) : UInt32 :=
  if device ≠ 0 then device else if s.deviceID ≠ 0 then s.deviceID else fallback

/-- A new queue with the first of its buffers enqueued. mirrors macos/receiver/audio_output.cpp:364-410 -/
def opened (s : Output) (buffers : Nat) (worker : Worker) : Output :=
  { s with worker := worker, nextQueue := s.nextQueue + 1, alive := s.alive ++ [s.nextQueue],
           device := s.device ++ (List.range buffers).map fun i => ⟨s.nextQueue, i⟩ }

def build (s : Output) (target : UInt32) : Output := s.opened 4 (.built s.nextQueue target)

/-- The exits that leave an open queue to dispose of.
mirrors macos/receiver/audio_output.cpp:372-376,381-383,392-394,405-407 -/
def abandon (s : Output) (f : Failure) : Output := s.opened f.enqueued (.discarding s.nextQueue f.text)

/-- mirrors macos/receiver/audio_output.cpp:412-419 -/
def swap (s : Output) (queue : Nat) (target : UInt32) : Output :=
  { s with worker := .replacing queue target s.aq, aq := some queue, free := [] }

/-- The system's side of `DisposeQueue`. mirrors macos/receiver/audio_output.cpp:455-460 -/
def dispose (s : Output) (queue : Nat) : Output :=
  { s with alive := s.alive.erase queue, device := s.device.filter (·.queue ≠ queue), disposed := s.disposed ++ [queue] }

def disposeIf (s : Output) (queue : Option Nat) : Output := queue.elim s s.dispose

/-- mirrors macos/receiver/audio_output.cpp:334-339 -/
def answer (s : Output) (error : Option String) : Output :=
  { s with worker := .waiting, cmdOk := error.isNone, cmdError := error.getD "", cmdPending := false, cmdDone := true }

/-- mirrors macos/receiver/audio_output.cpp:471-476 -/
def fill (s : Output) (z : Sizes) (b : Buffer) : Output :=
  let (pcm, got) := AudioPcmQueue.pop s.pcm z.bufferElements
  { s with pcm := pcm, worker := .popped b (got ++ List.replicate (z.bufferElements - got.length) 0),
           underruns := if got.length < z.bufferElements then s.underruns + 1 else s.underruns }

/-- mirrors macos/receiver/audio_output.cpp:477-489 -/
def shade (s : Output) (z : Sizes) (b : Buffer) (data : List Int16) : Output :=
  { s with worker := .filled b (if s.muted then List.replicate z.bufferElements 0 else data),
           mutedBuffers := if s.muted then s.mutedBuffers + 1 else s.mutedBuffers,
           enqueuedFrames := s.enqueuedFrames + UInt64.ofNat (z.bufferElements / z.channels) }

/-- mirrors macos/receiver/audio_output.cpp:462-468 -/
def onBufferDone (s : Output) (b : Buffer) : Output :=
  let s := { s with callbacks := s.callbacks.erase b }
  if s.aq = some b.queue then { s with free := s.free ++ [b], buffersCompleted := s.buffersCompleted + 1 } else s

/-- No callback of the queue is waiting for the mutex. -/
def Quiet (s : Output) (queue : Option Nat) : Prop := ∀ b ∈ s.callbacks, some b.queue ≠ queue

instance (s : Output) (queue : Option Nat) : Decidable (s.Quiet queue) := by
  unfold Quiet
  infer_instance

end Output
open Output

/-- The caller. mirrors macos/receiver/audio_output.cpp:162-206,248-272 -/
def nextControl (s : Output) : Label → Option Output
  | .start =>
    if s.control = .idle then
      some (if s.worker = .absent then
        { s with stopRequested := false, workerAlive := true, control := .spawning }
      else { s with answers := s.answers ++ [(.start, some "audio output is already running")] })
    else none
  | .spawn =>
    if s.control = .spawning then some { s with worker := .waiting, control := .calling .start } else none
  | .setDevice device => if s.control = .idle then some { s with control := .calling (.setDevice device) } else none
  | .post =>
    match s.control with
    | .calling c => some (s.postCommand c)
    | _ => none
  | .wake =>
    match s.control with
    | .waiting c => if s.cmdDone ∨ ¬ s.workerAlive then some (s.reply c s.result) else none
    | _ => none
  | .timeout =>
    match s.control with
    | .waiting c =>
      if s.cmdDone ∨ ¬ s.workerAlive then none else some (s.reply c (some "audio device command timed out"))
    | _ => none
  | .stop =>
    match s.control with
    | .idle => some (s.beginStop none)
    | .stopping e => some (s.beginStop (some e))
    | _ => none
  | .join =>
    match s.control with
    | .joining e => if s.worker = .absent ∨ s.worker = .gone then some (s.joined e) else none
    | _ => none
  | .mute muted => if s.control = .idle then some { s with muted := muted } else none
  | _ => none

/-- The worker. mirrors macos/receiver/audio_output.cpp:276-340,344-453,470-490 -/
def nextWorker (z : Sizes) (s : Output) : Label → Option Output
  | .look =>
    if s.worker = .waiting then
      if s.stopRequested then some s.leave
      else if s.cmdPending then some { s with worker := .executing }
      else match s.free.getLast? with
        | some b => some { s with worker := .filling b, free := s.free.dropLast }
        | none => none
    else none
  | .read =>
    if s.worker = .executing then
      some { s with worker := match s.cmd with
        | some c => .creating c.device
        | none => .answering (some "unknown audio device command") }
    else none
  | .create fallback building =>
    match s.worker with
    | .creating device =>
      some (if s.target device fallback = 0 then { s with worker := .answering (some "no output device") }
        else match building with
          | .newOutput status => { s with worker := .answering (some (osError "AudioQueueNewOutput" status)) }
          | .failed f => s.abandon f
          | .complete => s.build (s.target device fallback))
    | _ => none
  | .swap =>
    match s.worker with
    | .built queue target => some (s.swap queue target)
    | _ => none
  | .dispose =>
    match s.worker with
    | .replacing queue target previous =>
      if s.Quiet previous then some { s.disposeIf previous with worker := .starting queue target } else none
    | .discarding queue error =>
      if s.Quiet (some queue) then some { s.dispose queue with worker := .answering (some error) } else none
    | .closing queue => if s.Quiet queue then some { s.disposeIf queue with worker := .closed } else none
    | _ => none
  | .begin status =>
    match s.worker with
    | .starting queue target =>
      some (if status = 0 then { s with worker := .started target, begun := s.begun ++ [queue] }
        else { s with worker := .refused queue (osError "AudioQueueStart" status) })
    | _ => none
  | .withdraw =>
    match s.worker with
    | .refused queue error => some { s with worker := .discarding queue error, aq := none }
    | _ => none
  | .clear =>
    match s.worker with
    | .started target => some { s with worker := .cleared target, pcm := AudioPcmQueue.clear s.pcm }
    | _ => none
  | .reserve =>
    match s.worker with
    | .cleared target =>
      some { s with worker := .reserved target, pcm := AudioPcmQueue.push s.pcm (List.replicate z.target 0) 0,
                    buffersCompleted := 0, mutedBuffers := 0, enqueuedFrames := 0, underruns := 0, enqueueErrors := 0 }
    | _ => none
  | .adopt =>
    match s.worker with
    | .reserved target => some { s with worker := .answering none, deviceID := target, running := true }
    | _ => none
  | .answer =>
    match s.worker with
    | .answering error => some (s.answer error)
    | _ => none
  | .fill =>
    match s.worker with
    | .filling b => some (s.fill z b)
    | _ => none
  | .shade =>
    match s.worker with
    | .popped b data => some (s.shade z b data)
    | _ => none
  | .enqueue status =>
    match s.worker with
    | .filled b _ =>
      some (if s.stopRequested then s.leave
        else if s.aq = none then { s with worker := .waiting }
        else if status = 0 then { s with worker := .waiting, device := s.device ++ [b] }
        else { s.leave with enqueueErrors := s.enqueueErrors + 1 })
    | _ => none
  | .finish => if s.worker = .closed then some { s with worker := .gone, workerAlive := false } else none
  | _ => none

/-- The RTC callback, the device and its callback thread. -/
def nextOther (s : Output) : Label → Option Output
  | .push data elapsedNs => some { s with pcm := AudioPcmQueue.push s.pcm data elapsedNs }
  | .complete b =>
    if b ∈ s.device ∧ b.queue ∈ s.begun then
      some { s with device := s.device.erase b, callbacks := s.callbacks ++ [b] }
    else none
  | .callback b => if b ∈ s.callbacks then some (s.onBufferDone b) else none
  | _ => none

def next (z : Sizes) (s : Output) (l : Label) : Option Output :=
  (nextControl s l).or ((nextWorker z s l).or (nextOther s l))

def initial (z : Sizes) : Output := { pcm := AudioPcmQueue.make z.capacity z.highWater z.target }

def outputs (z : Sizes) : LTS Output Label where
  init s := s = initial z
  step s l s' := next z s l = some s'

/-! ## What a step does -/

section Steps
variable {z : Sizes} {s s' : Output} {l : Label}

/-- What a step of the caller leaves as it is. -/
structure Kept (s s' : Output) : Prop where
  pcm : s'.pcm = s.pcm
  free : s'.free = s.free
  worker : s'.worker = s.worker
  aq : s'.aq = s.aq
  deviceID : s'.deviceID = s.deviceID
  nextQueue : s'.nextQueue = s.nextQueue
  alive : s'.alive = s.alive
  begun : s'.begun = s.begun
  device : s'.device = s.device
  callbacks : s'.callbacks = s.callbacks
  disposed : s'.disposed = s.disposed

inductive Calls (s : Output) : Label → Output → Prop
  | running (idle : s.control = .idle) (there : s.worker ≠ .absent) :
      Calls s .start { s with answers := s.answers ++ [(.start, some "audio output is already running")] }
  | start (idle : s.control = .idle) (absent : s.worker = .absent) :
      Calls s .start { s with stopRequested := false, workerAlive := true, control := .spawning }
  | spawn (spawning : s.control = .spawning) : Calls s .spawn { s with worker := .waiting, control := .calling .start }
  | setDevice {device : UInt32} (idle : s.control = .idle) :
      Calls s (.setDevice device) { s with control := .calling (.setDevice device) }
  | post {c : Command} (calling : s.control = .calling c) : Calls s .post (s.postCommand c)
  | wake {c : Command} (waiting : s.control = .waiting c) (finished : s.cmdDone ∨ ¬ s.workerAlive) :
      Calls s .wake (s.reply c s.result)
  | timeout {c : Command} (waiting : s.control = .waiting c) :
      Calls s .timeout (s.reply c (some "audio device command timed out"))
  | stop {error : Option String} (from_ : s.control = .idle ∨ ∃ e, s.control = .stopping e) :
      Calls s .stop (s.beginStop error)
  | join {error : Option String} (joining : s.control = .joining error) (ended : s.worker = .absent ∨ s.worker = .gone) :
      Calls s .join (s.joined error)
  | mute {muted : Bool} (idle : s.control = .idle) : Calls s (.mute muted) { s with muted := muted }

theorem calls (h : nextControl s l = some s') : Calls s l s' := by
  unfold nextControl at h
  split at h
  · split at h
    · cases h
      split
      · exact .start ‹_› ‹_›
      · exact .running ‹_› ‹_›
    · cases h
  · split at h
    · cases h
      exact .spawn ‹_›
    · cases h
  · split at h
    · cases h
      exact .setDevice ‹_›
    · cases h
  · split at h
    · cases h
      exact .post ‹_›
    · cases h
  · split at h
    · split at h
      · cases h
        exact .wake ‹_› ‹_›
      · cases h
    · cases h
  · split at h
    · split at h
      · cases h
      · cases h
        exact .timeout ‹_›
    · cases h
  · split at h
    · cases h
      exact .stop (.inl ‹_›)
    · cases h
      exact .stop (.inr ⟨_, ‹_›⟩)
    · cases h
  · split at h
    · split at h
      · cases h
        exact .join ‹_› ‹_›
      · cases h
    · cases h
  · split at h
    · cases h
      exact .mute ‹_›
    · cases h
  · cases h

inductive Works (z : Sizes) (s : Output) : Output → Prop
  | leave (waiting : s.worker = .waiting) (stop : s.stopRequested = true) : Works z s s.leave
  | execute (waiting : s.worker = .waiting) (go : s.stopRequested = false) (pending : s.cmdPending = true) :
      Works z s { s with worker := .executing }
  | take {b : Buffer} (waiting : s.worker = .waiting) (go : s.stopRequested = false)
      (unasked : s.cmdPending = false) (last : s.free.getLast? = some b) :
      Works z s { s with worker := .filling b, free := s.free.dropLast }
  | read {c : Command} (executing : s.worker = .executing) (cmd : s.cmd = some c) :
      Works z s { s with worker := .creating c.device }
  | unknown (executing : s.worker = .executing) (cmd : s.cmd = none) :
      Works z s { s with worker := .answering (some "unknown audio device command") }
  | noDevice {d fallback : UInt32} (creating : s.worker = .creating d) (zero : s.target d fallback = 0) :
      Works z s { s with worker := .answering (some "no output device") }
  | unopened {d : UInt32} {e : String} (creating : s.worker = .creating d) :
      Works z s { s with worker := .answering (some e) }
  | abandon {d : UInt32} {f : Failure} (creating : s.worker = .creating d) : Works z s (s.abandon f)
  | build {d fallback : UInt32} (creating : s.worker = .creating d) (target : s.target d fallback ≠ 0) :
      Works z s (s.build (s.target d fallback))
  | swap {q : Nat} {t : UInt32} (built : s.worker = .built q t) : Works z s (s.swap q t)
  | replace {q : Nat} {t : UInt32} {previous : Option Nat} (replacing : s.worker = .replacing q t previous)
      (quiet : s.Quiet previous) : Works z s { s.disposeIf previous with worker := .starting q t }
  | discard {q : Nat} {e : String} (discarding : s.worker = .discarding q e) (quiet : s.Quiet (some q)) :
      Works z s { s.dispose q with worker := .answering (some e) }
  | close {q : Option Nat} (closing : s.worker = .closing q) (quiet : s.Quiet q) :
      Works z s { s.disposeIf q with worker := .closed }
  | started {q : Nat} {t : UInt32} (starting : s.worker = .starting q t) :
      Works z s { s with worker := .started t, begun := s.begun ++ [q] }
  | refused {q : Nat} {t : UInt32} {e : String} (starting : s.worker = .starting q t) :
      Works z s { s with worker := .refused q e }
  | withdraw {q : Nat} {e : String} (refused : s.worker = .refused q e) :
      Works z s { s with worker := .discarding q e, aq := none }
  | clear {t : UInt32} (started : s.worker = .started t) :
      Works z s { s with worker := .cleared t, pcm := AudioPcmQueue.clear s.pcm }
  | reserve {t : UInt32} (cleared : s.worker = .cleared t) :
      Works z s { s with worker := .reserved t, pcm := AudioPcmQueue.push s.pcm (List.replicate z.target 0) 0,
                         buffersCompleted := 0, mutedBuffers := 0, enqueuedFrames := 0, underruns := 0,
                         enqueueErrors := 0 }
  | adopt {t : UInt32} (reserved : s.worker = .reserved t) :
      Works z s { s with worker := .answering none, deviceID := t, running := true }
  | answer {e : Option String} (answering : s.worker = .answering e) : Works z s (s.answer e)
  | fill {b : Buffer} (filling : s.worker = .filling b) : Works z s (s.fill z b)
  | shade {b : Buffer} {data : List Int16} (popped : s.worker = .popped b data) : Works z s (s.shade z b data)
  | stopped {b : Buffer} {data : List Int16} (filled : s.worker = .filled b data) (stop : s.stopRequested = true) :
      Works z s s.leave
  | orphan {b : Buffer} {data : List Int16} (filled : s.worker = .filled b data) (unset : s.aq = none) :
      Works z s { s with worker := .waiting }
  | enqueue {b : Buffer} {data : List Int16} (filled : s.worker = .filled b data) (go : s.stopRequested = false) :
      Works z s { s with worker := .waiting, device := s.device ++ [b] }
  | failed {b : Buffer} {data : List Int16} (filled : s.worker = .filled b data) (go : s.stopRequested = false) :
      Works z s { s.leave with enqueueErrors := s.enqueueErrors + 1 }
  | finish (closed : s.worker = .closed) : Works z s { s with worker := .gone, workerAlive := false }

theorem works (h : nextWorker z s l = some s') : Works z s s' := by
  unfold nextWorker at h
  split at h
  · split at h
    · split at h
      · cases h
        exact .leave ‹_› ‹_›
      · have hgo : s.stopRequested = false := by simpa using ‹¬ s.stopRequested = true›
        split at h
        · cases h
          exact .execute ‹_› hgo ‹_›
        · split at h
          · cases h
            exact .take ‹_› hgo (by simpa using ‹¬ s.cmdPending = true›) ‹_›
          · cases h
    · cases h
  · split at h
    · cases h
      split
      · exact .read ‹_› ‹_›
      · exact .unknown ‹_› ‹_›
    · cases h
  · split at h
    · cases h
      split
      · exact .noDevice ‹_› ‹_›
      · split
        · exact .unopened ‹_›
        · exact .abandon ‹_›
        · exact .build ‹_› ‹_›
    · cases h
  · split at h
    · cases h
      exact .swap ‹_›
    · cases h
  · split at h
    · split at h
      · cases h
        exact .replace ‹_› ‹_›
      · cases h
    · split at h
      · cases h
        exact .discard ‹_› ‹_›
      · cases h
    · split at h
      · cases h
        exact .close ‹_› ‹_›
      · cases h
    · cases h
  · split at h
    · cases h
      split
      · exact .started ‹_›
      · exact .refused ‹_›
    · cases h
  · split at h
    · cases h
      exact .withdraw ‹_›
    · cases h
  · split at h
    · cases h
      exact .clear ‹_›
    · cases h
  · split at h
    · cases h
      exact .reserve ‹_›
    · cases h
  · split at h
    · cases h
      exact .adopt ‹_›
    · cases h
  · split at h
    · cases h
      exact .answer ‹_›
    · cases h
  · split at h
    · cases h
      exact .fill ‹_›
    · cases h
  · split at h
    · cases h
      exact .shade ‹_›
    · cases h
  · split at h
    · cases h
      split
      · exact .stopped ‹_› ‹_›
      · have hgo : s.stopRequested = false := by simpa using ‹¬ s.stopRequested = true›
        split
        · exact .orphan ‹_› ‹_›
        · split
          · exact .enqueue ‹_› hgo
          · exact .failed ‹_› hgo
    · cases h
  · split at h
    · cases h
      exact .finish ‹_›
    · cases h
  · cases h

inductive Happens (s : Output) : Label → Output → Prop
  | push {data : List Int16} {ns : UInt64} : Happens s (.push data ns) { s with pcm := AudioPcmQueue.push s.pcm data ns }
  | complete {b : Buffer} (mem : b ∈ s.device) (begun : b.queue ∈ s.begun) :
      Happens s (.complete b) { s with device := s.device.erase b, callbacks := s.callbacks ++ [b] }
  | taken {b : Buffer} (mem : b ∈ s.callbacks) (mine : s.aq = some b.queue) :
      Happens s (.callback b)
        { s with callbacks := s.callbacks.erase b, free := s.free ++ [b], buffersCompleted := s.buffersCompleted + 1 }
  | ignored {b : Buffer} (mem : b ∈ s.callbacks) (other : s.aq ≠ some b.queue) :
      Happens s (.callback b) { s with callbacks := s.callbacks.erase b }

theorem happens (h : nextOther s l = some s') : Happens s l s' := by
  unfold nextOther at h
  split at h
  · cases h
    exact .push
  · split at h
    · cases h
      exact .complete (‹_ ∧ _›).1 (‹_ ∧ _›).2
    · cases h
  · split at h
    · cases h
      unfold onBufferDone
      dsimp only
      split
      · exact .taken ‹_› ‹_›
      · exact .ignored ‹_› ‹_›
    · cases h
  · cases h

/-- A step is the caller's, the worker's or another's. -/
theorem next_cases (h : next z s l = some s') : Calls s l s' ∨ Works z s s' ∨ Happens s l s' := by
  rcases Option.or_eq_some_iff.mp h with h | ⟨-, h⟩
  · exact .inl (calls h)
  · rcases Option.or_eq_some_iff.mp h with h | ⟨-, h⟩
    · exact .inr (.inl (works h))
    · exact .inr (.inr (happens h))

theorem reply_kept (c : Command) (error : Option String) :
    Kept s (s.reply c error) ∧ (s.reply c error).control ≠ .spawning := by
  unfold reply
  split <;> exact ⟨⟨rfl, rfl, rfl, rfl, rfl, rfl, rfl, rfl, rfl, rfl, rfl⟩, nofun⟩

theorem Calls.kept (h : Calls s l s') : Kept s s' ∧ (s'.control = .spawning → s.worker = .absent) ∨
    (s.control = .spawning ∧ s' = { s with worker := .waiting, control := .calling .start }) ∨
    ∃ error, (s.worker = .absent ∨ s.worker = .gone) ∧ s' = s.joined error := by
  cases h with
  | running idle there => exact .inl ⟨⟨rfl, rfl, rfl, rfl, rfl, rfl, rfl, rfl, rfl, rfl, rfl⟩, by simp [idle]⟩
  | start idle absent => exact .inl ⟨⟨rfl, rfl, rfl, rfl, rfl, rfl, rfl, rfl, rfl, rfl, rfl⟩, fun _ => absent⟩
  | spawn spawning => exact .inr (.inl ⟨spawning, rfl⟩)
  | setDevice idle => exact .inl ⟨⟨rfl, rfl, rfl, rfl, rfl, rfl, rfl, rfl, rfl, rfl, rfl⟩, nofun⟩
  | post calling =>
    refine .inl ?_
    unfold postCommand
    split
    · exact (reply_kept ..).imp_right fun hne hs => absurd hs hne
    · exact ⟨⟨rfl, rfl, rfl, rfl, rfl, rfl, rfl, rfl, rfl, rfl, rfl⟩, nofun⟩
  | wake waiting finished => exact .inl ((reply_kept ..).imp_right fun hne hs => absurd hs hne)
  | timeout waiting => exact .inl ((reply_kept ..).imp_right fun hne hs => absurd hs hne)
  | stop from_ =>
    refine .inl ?_
    unfold beginStop
    dsimp only
    split <;> exact ⟨⟨rfl, rfl, rfl, rfl, rfl, rfl, rfl, rfl, rfl, rfl, rfl⟩, nofun⟩
  | join joining ended => exact .inr (.inr ⟨_, ended, rfl⟩)
  | mute idle => exact .inl ⟨⟨rfl, rfl, rfl, rfl, rfl, rfl, rfl, rfl, rfl, rfl, rfl⟩, by simp [idle]⟩

end Steps
end KmVirtualCamera.L5.AudioOutput
