import Mathlib
import KmVirtualCamera.Core.LTS

/-!
# The camera's media stream (`WebRtcBridgeMediaStream`)

An application asks for samples with `RequestSample`; a delivery thread answers
them one at a time. The thread runs while `isDeliveryRunning_` is set and waits
on an event that `Stop` and `Shutdown` signal so that it leaves at once. The
event resets itself when a wait takes it, and only then: a thread that leaves
because it has read the flag leaves the event signalled.

Every section under the lock is one step, and so is every access to the flag or
the event. `control` is what a call that starts or stops has still to do; in
`streams` these calls come one after the other. `Start`, `Stop`, `Pause` and
`Shutdown` do, since the media source makes them under its own lock.
`SetStreamState` is called from outside and takes no such lock, so it may come
while one of them is under way: that is `shared`. `RequestSample` and the
thread's steps come at any time.

* `requests_answered`: a sample answers the oldest request there is, once, while
  the stream is started, and never one from before a stop.
* `delivers_iff`: a started stream answers exactly if the event was clear when
  its thread began, as long as no `SetStreamState` overlaps another call; where
  one does, a thread that has still to be joined may be overwritten.
* `left_signalled`: where the event is never signalled that is always so; where
  a thread is gone by the time it is signalled no later start helps.
-/
namespace KmVirtualCamera.L5.MediaStream

variable {α : Type}

inductive StreamState where
  | stopped | paused | running

/-- Where the thread is; `none`: there is nothing to join. `woken` has the
result of the wait. -/
inductive Delivery where
  | none | head | waiting | woken (stop : Bool) | delivering | done
  deriving DecidableEq

inductive Control where
  | idle | starting | stopping (wakes : Bool) | waking | joining
  deriving DecidableEq

/-- A token with the number of stops before it. -/
structure Request (α : Type) where
  token : α
  period : Nat

structure Sample (α : Type) where
  request : Request α
  discontinuity : Bool

/-- mirrors windows/virtual-camera/media-source/webrtc_bridge_media_stream.h:116-132 -/
structure Stream (α : Type) where
  isStarted : Bool := false
  isShutdown : Bool := false
  isDeliveryRunning : Bool := false
  hWakeEvent : Bool := false
  sampleRequests : List (Request α) := []
  sampleIndex : Nat := 0
  deliveryThread : Delivery := .none
  control : Control := .idle
  /-- a thread object was overwritten that had not been joined -/
  terminated : Bool := false
  period : Nat := 0
  /-- whether the event was signalled when the thread began -/
  signalled : Bool := false
  requested : List (Request α) := []
  samples : List (Sample α) := []

inductive Label (α : Type) where
  | start (queued : Bool)
  | setStreamState (value : StreamState)
  | stop
  | pause
  | shutdown
  | proceed
  | requestSample (token : α)
  | loop
  | wait (stop : Bool)
  | check
  | deliver (created queued : Bool)

section Source
variable (s : Stream α)

/-- mirrors windows/virtual-camera/media-source/webrtc_bridge_media_stream.cpp:191-195 -/
def clearRequests : Stream α := { s with isStarted := false, sampleRequests := [], period := s.period + 1 }

/-- mirrors windows/virtual-camera/media-source/webrtc_bridge_media_stream.cpp:305-328 -/
def start (queued : Bool) : Stream α :=
  if s.isShutdown then s
  else
    { s with isStarted := true, sampleIndex := 0, control := if queued then .starting else s.control }

/-- mirrors windows/virtual-camera/media-source/webrtc_bridge_media_stream.cpp:165-206 -/
def setStreamState : StreamState → Stream α
  | .running => { s with isStarted := true, sampleIndex := 0, control := .starting }
  | .paused => { s with isStarted := false, control := .stopping false }
  | .stopped => { clearRequests s with control := .stopping false }

/-- mirrors windows/virtual-camera/media-source/webrtc_bridge_media_stream.cpp:330-339 -/
def stop : Stream α := if s.isShutdown then s else { clearRequests s with control := .stopping true }

/-- mirrors windows/virtual-camera/media-source/webrtc_bridge_media_stream.cpp:355-367 -/
def pause : Stream α := if s.isShutdown then s else { s with isStarted := false }

/-- mirrors windows/virtual-camera/media-source/webrtc_bridge_media_stream.cpp:369-379 -/
def shutdown : Stream α :=
  if s.isShutdown then s else { clearRequests s with isShutdown := true, control := .stopping true }

/-- mirrors windows/virtual-camera/media-source/webrtc_bridge_media_stream.cpp:292-303 -/
def requestSample (token : α) : Stream α :=
  if s.isShutdown ∨ s.isStarted = false then s
  else
    { s with sampleRequests := s.sampleRequests ++ [⟨token, s.period⟩],
             requested := s.requested ++ [⟨token, s.period⟩] }

/-- The rest of a call, after its section under the lock. `none`: the join waits.
mirrors windows/virtual-camera/media-source/webrtc_bridge_media_stream.cpp:208-217,324-326,341-345,381-385 -/
def proceed : Option (Stream α) :=
  match s.control with
  | .idle => none
  | .starting =>
    some (if s.isDeliveryRunning then { s with control := .idle }
      else
        { s with isDeliveryRunning := true, deliveryThread := .head, signalled := s.hWakeEvent, control := .idle,
                 terminated := s.terminated || decide (s.deliveryThread ≠ .none) })
  | .stopping wakes => some { s with isDeliveryRunning := false, control := if wakes then .waking else .joining }
  | .waking => some { s with hWakeEvent := true, control := .joining }
  | .joining =>
    if s.deliveryThread = .none ∨ s.deliveryThread = .done then
      some { s with deliveryThread := .none, control := .idle }
    else none

/-- mirrors windows/virtual-camera/media-source/webrtc_bridge_media_stream.cpp:426-456,682-687 -/
def deliverSamples (created queued : Bool) : Stream α :=
  if s.isShutdown ∨ s.isStarted = false then s
  else
    match s.sampleRequests with
    | [] => s
    | r :: rest =>
      if created = false then { s with sampleRequests := rest }
      else
        { s with sampleRequests := rest, sampleIndex := s.sampleIndex + 1,
                 samples := if queued then s.samples ++ [⟨r, s.sampleIndex + 1 = 1⟩] else s.samples }

end Source

/-- `none`: not now.
mirrors windows/virtual-camera/media-source/webrtc_bridge_media_stream.cpp:397-420 -/
def next (s : Stream α) : Label α → Option (Stream α)
  | .start queued => if s.control = .idle then some (start s queued) else none
  | .setStreamState value => if s.control = .idle then some (setStreamState s value) else none
  | .stop => if s.control = .idle then some (stop s) else none
  | .pause => if s.control = .idle then some (pause s) else none
  | .shutdown => if s.control = .idle then some (shutdown s) else none
  | .proceed => proceed s
  | .requestSample token => some (requestSample s token)
  | .loop =>
    if s.deliveryThread = .head then
      some { s with deliveryThread := if s.isDeliveryRunning then .waiting else .done }
    else none
  | .wait stop =>
    -- A signalled event comes first among those the thread waits for.
    if s.deliveryThread = .waiting ∧ s.hWakeEvent = stop then
      some { s with hWakeEvent := false, deliveryThread := .woken stop }
    else none
  | .check =>
    match s.deliveryThread with
    | .woken stop =>
      some { s with deliveryThread := if s.isDeliveryRunning = false ∨ stop then .done else .delivering }
    | _ => none
  | .deliver created queued =>
    if s.deliveryThread = .delivering then some { deliverSamples s created queued with deliveryThread := .head }
    else none

def streams (α : Type) : LTS (Stream α) (Label α) where
  init s := s = {}
  step s l s' := next s l = some s'

/-- What a step can do. -/
inductive Step (s : Stream α) : Label α → Stream α → Prop
  | start (idle : s.control = .idle) (queued : Bool) : Step s (.start queued) (start s queued)
  | setStreamState (idle : s.control = .idle) (value : StreamState) :
      Step s (.setStreamState value) (setStreamState s value)
  | stop (idle : s.control = .idle) : Step s .stop (stop s)
  | pause (idle : s.control = .idle) : Step s .pause (pause s)
  | shutdown (idle : s.control = .idle) : Step s .shutdown (shutdown s)
  | starting (at_start : s.control = .starting) (running : s.isDeliveryRunning = true) :
      Step s .proceed { s with control := .idle }
  | began (at_start : s.control = .starting) (resting : s.isDeliveryRunning = false) :
      Step s .proceed
        { s with isDeliveryRunning := true, deliveryThread := .head, signalled := s.hWakeEvent, control := .idle,
                 terminated := s.terminated || decide (s.deliveryThread ≠ .none) }
  | stopping (wakes : Bool) (at_stop : s.control = .stopping wakes) :
      Step s .proceed { s with isDeliveryRunning := false, control := if wakes then .waking else .joining }
  | waking (at_event : s.control = .waking) : Step s .proceed { s with hWakeEvent := true, control := .joining }
  | joined (at_join : s.control = .joining) (gone : s.deliveryThread = .none ∨ s.deliveryThread = .done) :
      Step s .proceed { s with deliveryThread := .none, control := .idle }
  | requestSample (token : α) : Step s (.requestSample token) (requestSample s token)
  | loop (at_head : s.deliveryThread = .head) :
      Step s .loop { s with deliveryThread := if s.isDeliveryRunning then .waiting else .done }
  | wait (at_wait : s.deliveryThread = .waiting) :
      Step s (.wait s.hWakeEvent) { s with hWakeEvent := false, deliveryThread := .woken s.hWakeEvent }
  | check {stop : Bool} (at_check : s.deliveryThread = .woken stop) :
      Step s .check
        { s with deliveryThread := if s.isDeliveryRunning = false ∨ stop then .done else .delivering }
  | deliver (delivering : s.deliveryThread = .delivering) (created queued : Bool) :
      Step s (.deliver created queued) { deliverSamples s created queued with deliveryThread := .head }

theorem next_cases {s s' : Stream α} {l : Label α} (h : next s l = some s') : Step s l s' := by
  cases l with
  | start | setStreamState | stop | pause | shutdown =>
    simp only [next, Option.ite_none_right_eq_some, Option.some.injEq] at h
    obtain ⟨hidle, rfl⟩ := h
    constructor
    exact hidle
  | proceed =>
    simp only [next, proceed] at h
    split at h
    · cases h
    · rename_i hc
      cases h
      split
      · exact .starting hc ‹_›
      · exact .began hc (Bool.not_eq_true _ ▸ ‹_›)
    · cases h
      exact .stopping _ ‹_›
    · cases h
      exact .waking ‹_›
    · simp only [Option.ite_none_right_eq_some, Option.some.injEq] at h
      obtain ⟨hgone, rfl⟩ := h
      exact .joined ‹_› hgone
  | requestSample token =>
    cases h
    exact .requestSample token
  | loop =>
    simp only [next, Option.ite_none_right_eq_some, Option.some.injEq] at h
    obtain ⟨hhead, rfl⟩ := h
    exact .loop hhead
  | wait stop =>
    simp only [next, Option.ite_none_right_eq_some, Option.some.injEq] at h
    obtain ⟨⟨hwait, rfl⟩, rfl⟩ := h
    exact .wait hwait
  | check =>
    simp only [next] at h
    split at h
    · cases h
      exact .check ‹_›
    · cases h
  | deliver created queued =>
    simp only [next, Option.ite_none_right_eq_some, Option.some.injEq] at h
    obtain ⟨hdelivering, rfl⟩ := h
    exact .deliver hdelivering created queued

/-! ## The thread and the event -/

/-- The thread goes on, having found the event clear. -/
def Delivery.Lives : Delivery → Prop
  | .head | .waiting | .woken false | .delivering => True
  | _ => False

/-- A thread that began with the event signalled, on its way out. -/
def Delivery.Leaves (signalled : Bool) : Delivery → Prop
  | .head | .waiting => signalled = true
  | .woken stop => stop = true
  | .delivering => False
  | .none | .done => True

structure Inv (s : Stream α) : Prop where
  kept : s.terminated = false
  joined : s.isDeliveryRunning = false → s.control = .idle ∨ s.control = .starting → s.deliveryThread = .none
  running : s.isDeliveryRunning = true → s.deliveryThread ≠ .none ∧ s.control ≠ .waking ∧ s.control ≠ .joining
  lives : s.isDeliveryRunning = true → s.signalled = false → s.hWakeEvent = false ∧ s.deliveryThread.Lives
  leaves : s.signalled = true → s.deliveryThread.Leaves s.hWakeEvent

/-- What is the same before and after most calls. -/
structure Frame (s s' : Stream α) : Prop where
  terminated : s'.terminated = s.terminated
  isDeliveryRunning : s'.isDeliveryRunning = s.isDeliveryRunning
  hWakeEvent : s'.hWakeEvent = s.hWakeEvent
  deliveryThread : s'.deliveryThread = s.deliveryThread
  signalled : s'.signalled = s.signalled

theorem frame_requestSample (s : Stream α) (token : α) :
    Frame s (requestSample s token) ∧ (requestSample s token).control = s.control := by
  unfold requestSample
  split <;> exact ⟨⟨rfl, rfl, rfl, rfl, rfl⟩, rfl⟩

theorem frame_deliverSamples (s : Stream α) (created queued : Bool) :
    Frame s (deliverSamples s created queued) ∧ (deliverSamples s created queued).control = s.control := by
  unfold deliverSamples
  split
  · exact ⟨⟨rfl, rfl, rfl, rfl, rfl⟩, rfl⟩
  · split
    · exact ⟨⟨rfl, rfl, rfl, rfl, rfl⟩, rfl⟩
    · split <;> exact ⟨⟨rfl, rfl, rfl, rfl, rfl⟩, rfl⟩

/-- A call goes no further than its section under the lock. -/
structure Called (s s' : Stream α) : Prop extends Frame s s' where
  control : s'.control ≠ .waking ∧ s'.control ≠ .joining

section Calls
variable {s : Stream α} (h : s.control = .idle)
include h

theorem called_same : Called s s := ⟨⟨rfl, rfl, rfl, rfl, rfl⟩, by rw [h]; exact ⟨nofun, nofun⟩⟩

theorem called_start (queued : Bool) : Called s (start s queued) := by
  unfold start
  split
  · exact called_same h
  · cases queued
    · exact ⟨⟨rfl, rfl, rfl, rfl, rfl⟩, (called_same h).control⟩
    · exact ⟨⟨rfl, rfl, rfl, rfl, rfl⟩, nofun, nofun⟩

theorem called_stop : Called s (stop s) := by
  unfold stop
  split
  · exact called_same h
  · exact ⟨⟨rfl, rfl, rfl, rfl, rfl⟩, nofun, nofun⟩

theorem called_pause : Called s (pause s) := by
  unfold pause
  split
  · exact called_same h
  · exact ⟨⟨rfl, rfl, rfl, rfl, rfl⟩, (called_same h).control⟩

theorem called_shutdown : Called s (shutdown s) := by
  unfold shutdown
  split
  · exact called_same h
  · exact ⟨⟨rfl, rfl, rfl, rfl, rfl⟩, nofun, nofun⟩

end Calls

theorem called_setStreamState (s : Stream α) (value : StreamState) : Called s (setStreamState s value) := by
  cases value <;> exact ⟨⟨rfl, rfl, rfl, rfl, rfl⟩, nofun, nofun⟩

section Invariant
variable {s s' : Stream α}

theorem Inv.called (h : Inv s) (hidle : s.control = .idle) (hc : Called s s') : Inv s' where
  kept := hc.terminated.trans h.kept
  joined hrun _ := hc.deliveryThread.trans (h.joined (hc.isDeliveryRunning ▸ hrun) (.inl hidle))
  running hrun := ⟨hc.deliveryThread ▸ (h.running (hc.isDeliveryRunning ▸ hrun)).1, hc.control⟩
  lives hrun hsig := by
    rw [hc.hWakeEvent, hc.deliveryThread]
    exact h.lives (hc.isDeliveryRunning ▸ hrun) (hc.signalled ▸ hsig)
  leaves hsig := by
    rw [hc.hWakeEvent, hc.deliveryThread]
    exact h.leaves (hc.signalled ▸ hsig)

theorem Inv.requested (h : Inv s) (token : α) : Inv (requestSample s token) := by
  obtain ⟨⟨ht, hr, hw, hd, hs⟩, hc⟩ := frame_requestSample s token
  refine ⟨ht.trans h.kept, ?_, ?_, ?_, ?_⟩
  · rw [hr, hc, hd]
    exact h.joined
  · rw [hr, hc, hd]
    exact h.running
  · rw [hr, hs, hw, hd]
    exact h.lives
  · rw [hs, hd, hw]
    exact h.leaves

/-- A step of the thread leaves the flag and the calls alone. -/
theorem Inv.stepped (h : Inv s) {t : Delivery} {e : Bool} (hbefore : s.deliveryThread ≠ .none)
    (hafter : t ≠ .none)
    (hlives : s.isDeliveryRunning = true → s.hWakeEvent = false → s.deliveryThread.Lives →
      e = false ∧ t.Lives)
    (hleaves : s.deliveryThread.Leaves s.hWakeEvent → t.Leaves e) :
    Inv { s with deliveryThread := t, hWakeEvent := e } where
  kept := h.kept
  joined hrun hc := absurd (h.joined hrun hc) hbefore
  running hrun := ⟨hafter, (h.running hrun).2⟩
  lives hrun hsig := hlives hrun (h.lives hrun hsig).1 (h.lives hrun hsig).2
  leaves hsig := hleaves (h.leaves hsig)

theorem Inv.step {l : Label α} (h : Inv s) (hst : Step s l s') : Inv s' := by
  cases hst with
  | start idle queued => exact h.called idle (called_start idle queued)
  | setStreamState idle value => exact h.called idle (called_setStreamState s value)
  | stop idle => exact h.called idle (called_stop idle)
  | pause idle => exact h.called idle (called_pause idle)
  | shutdown idle => exact h.called idle (called_shutdown idle)
  | starting at_start running =>
    exact ⟨h.kept, fun hrun => absurd running (by rw [hrun]; decide), fun _ => ⟨(h.running running).1, nofun, nofun⟩,
      h.lives, h.leaves⟩
  | began at_start resting =>
    refine ⟨?_, nofun, fun _ => ⟨nofun, nofun, nofun⟩, fun _ hsig => ⟨hsig, trivial⟩, fun hsig => hsig⟩
    rw [h.kept, h.joined resting (.inr at_start)]
    rfl
  | stopping wakes at_stop =>
    refine ⟨h.kept, ?_, nofun, nofun, h.leaves⟩
    intro _ hc
    cases wakes <;> rcases hc with hc | hc <;> cases hc
  | waking at_event =>
    have hrest : ¬ s.isDeliveryRunning = true := fun hrun => (h.running hrun).2.1 at_event
    refine ⟨h.kept, ?_, fun hrun => absurd hrun hrest, fun hrun => absurd hrun hrest, ?_⟩
    · intro _ hc
      rcases hc with hc | hc <;> cases hc
    · intro hsig
      have hleaves := h.leaves hsig
      revert hleaves
      cases s.deliveryThread <;> simp [Delivery.Leaves]
  | joined at_join gone =>
    have hrest : ¬ s.isDeliveryRunning = true := fun hrun => (h.running hrun).2.2 at_join
    exact ⟨h.kept, fun _ _ => rfl, fun hrun => absurd hrun hrest, fun hrun => absurd hrun hrest, fun _ => trivial⟩
  | requestSample token => exact h.requested token
  | loop at_head =>
    refine h.stepped (e := s.hWakeEvent) (by rw [at_head]; nofun) ?_ (fun hrun hw _ => ?_) fun hl => ?_
    · split <;> nofun
    · rw [if_pos hrun]
      exact ⟨hw, trivial⟩
    · rw [at_head] at hl
      split
      · exact hl
      · trivial
  | wait at_wait =>
    refine h.stepped (by rw [at_wait]; nofun) nofun (fun _ hw _ => ?_) fun hl => ?_
    · rw [hw]
      exact ⟨rfl, trivial⟩
    · rw [at_wait] at hl
      exact hl
  | @check stop at_check =>
    refine h.stepped (e := s.hWakeEvent) (by rw [at_check]; nofun) ?_ (fun hrun hw hl => ?_) fun hl => ?_
    · split <;> nofun
    · rw [at_check] at hl
      cases stop with
      | false =>
        rw [hrun, if_neg (by simp)]
        exact ⟨hw, trivial⟩
      | true => exact hl.elim
    · rw [at_check] at hl
      rw [show stop = true from hl, if_pos (.inr rfl)]
      trivial
  | deliver delivering created queued =>
    obtain ⟨⟨ht, hr, hw, hd, hs⟩, hc⟩ := frame_deliverSamples s created queued
    have hthread := h.stepped (t := .head) (e := s.hWakeEvent) (by rw [delivering]; nofun) nofun
      (fun _ hw _ => ⟨hw, trivial⟩) (fun hl => by rw [delivering] at hl; exact hl.elim)
    refine ⟨ht.trans hthread.kept, ?_, ?_, ?_, ?_⟩
    · rw [hr, hc]
      exact hthread.joined
    · rw [hr, hc]
      exact hthread.running
    · rw [hr, hs, hw]
      exact hthread.lives
    · rw [hs, hw]
      exact hthread.leaves

end Invariant

theorem inductive_inv : (streams α).Inductive Inv where
  init s hs := by
    rw [hs]
    exact ⟨rfl, fun _ _ => rfl, nofun, nofun, nofun⟩
  step _ _ _ h hst := h.step (next_cases hst)

/-! ## Requests and samples -/

structure Answering (s : Stream α) : Prop where
  order : (s.samples.map Sample.request ++ s.sampleRequests).Sublist s.requested
  period : ∀ r ∈ s.sampleRequests, r.period = s.period

theorem Answering.clear {s : Stream α} (h : Answering s) : Answering (clearRequests s) where
  order := by
    refine List.Sublist.trans ?_ h.order
    change (s.samples.map Sample.request ++ []).Sublist _
    rw [List.append_nil]
    exact List.sublist_append_left ..
  period := nofun

/-- What is delivered, if anything. -/
inductive Answered (s : Stream α) : Stream α → Prop
  | nothing {s' : Stream α} (same : s'.samples = s.samples) (left : s'.sampleRequests.Sublist s.sampleRequests) :
      Answered s s'
  | sample {s' : Stream α} {r : Request α} {rest : List (Request α)} (oldest : s.sampleRequests = r :: rest)
      (started : s.isStarted = true ∧ s.isShutdown = false) (left : s'.sampleRequests = rest)
      (added : s'.samples = s.samples ++ [⟨r, s.sampleIndex + 1 = 1⟩]) : Answered s s'

theorem deliverSamples_answered (s : Stream α) (created queued : Bool) :
    Answered s (deliverSamples s created queued) ∧ (deliverSamples s created queued).requested = s.requested ∧
      (deliverSamples s created queued).period = s.period := by
  unfold deliverSamples
  split
  · exact ⟨.nothing rfl (.refl _), rfl, rfl⟩
  rename_i hstarted
  split
  · exact ⟨.nothing rfl (.refl _), rfl, rfl⟩
  · rename_i r rest hrequests
    have hrest : rest.Sublist s.sampleRequests := hrequests ▸ List.sublist_cons_self r rest
    split
    · exact ⟨.nothing rfl hrest, rfl, rfl⟩
    · cases queued with
      | false => exact ⟨.nothing rfl hrest, rfl, rfl⟩
      | true =>
        simp only [not_or, Bool.not_eq_true, Bool.not_eq_false] at hstarted
        exact ⟨.sample hrequests ⟨hstarted.2, hstarted.1⟩ rfl rfl, rfl, rfl⟩

theorem Answering.delivered {s : Stream α} (h : Answering s) (created queued : Bool) (thread : Delivery) :
    Answering { deliverSamples s created queued with deliveryThread := thread } := by
  obtain ⟨hanswered, hrequested, hperiod⟩ := deliverSamples_answered s created queued
  refine ⟨?_, ?_⟩
  · change (List.map _ (deliverSamples s created queued).samples ++ _).Sublist
      (deliverSamples s created queued).requested
    rw [hrequested]
    cases hanswered with
    | nothing same left =>
      rw [same]
      exact (left.append_left _).trans h.order
    | sample oldest started left added =>
      have horder := h.order
      rw [oldest] at horder
      rw [left, added, List.map_append, List.append_assoc]
      exact horder
  · intro r hr
    rw [hperiod]
    cases hanswered with
    | nothing same left => exact h.period r (left.subset hr)
    | sample oldest started left added =>
      rw [left] at hr
      exact h.period r (oldest ▸ List.mem_cons_of_mem _ hr)

theorem Answering.step {s s' : Stream α} {l : Label α} (h : Answering s) (hst : Step s l s') : Answering s' := by
  cases hst with
  | start idle queued =>
    unfold start
    split <;> exact ⟨h.order, h.period⟩
  | setStreamState idle value =>
    cases value with
    | stopped => exact ⟨h.clear.order, h.clear.period⟩
    | paused | running => exact ⟨h.order, h.period⟩
  | stop idle =>
    unfold stop
    split
    · exact h
    · exact ⟨h.clear.order, h.clear.period⟩
  | pause idle =>
    unfold pause
    split <;> exact ⟨h.order, h.period⟩
  | shutdown idle =>
    unfold shutdown
    split
    · exact h
    · exact ⟨h.clear.order, h.clear.period⟩
  | starting | began | stopping | waking | joined | loop | wait | check => exact ⟨h.order, h.period⟩
  | requestSample token =>
    unfold requestSample
    split
    · exact h
    · refine ⟨?_, ?_⟩
      · change (List.map _ s.samples ++ (s.sampleRequests ++ _)).Sublist (s.requested ++ _)
        rw [← List.append_assoc]
        exact h.order.append (.refl _)
      · intro r hr
        rcases List.mem_append.mp hr with hr | hr
        · exact h.period r hr
        · rw [List.mem_singleton.mp hr]
  | deliver delivering created queued => exact h.delivered created queued .head

theorem inductive_answering : (streams α).Inductive Answering where
  init s hs := by
    rw [hs]
    exact ⟨List.nil_sublist _, nofun⟩
  step _ _ _ h hst := h.step (next_cases hst)

/-- Only the thread's own step delivers. -/
theorem samples_step {s s' : Stream α} {l : Label α} (hst : Step s l s') : s'.samples = s.samples ∨
    s.deliveryThread = .delivering ∧ ∃ r rest, s.sampleRequests = r :: rest ∧
      (s.isStarted = true ∧ s.isShutdown = false) ∧ s'.samples = s.samples ++ [⟨r, s.sampleIndex + 1 = 1⟩] := by
  cases hst with
  | start =>
    unfold start
    split <;> exact .inl rfl
  | setStreamState idle value => cases value <;> exact .inl rfl
  | stop =>
    unfold stop
    split <;> exact .inl rfl
  | pause =>
    unfold pause
    split <;> exact .inl rfl
  | shutdown =>
    unfold shutdown
    split <;> exact .inl rfl
  | starting | began | stopping | waking | joined | loop | wait | check => exact .inl rfl
  | requestSample =>
    unfold requestSample
    split <;> exact .inl rfl
  | deliver delivering created queued =>
    cases (deliverSamples_answered s created queued).1 with
    | nothing same left => exact .inl same
    | sample oldest started left added => exact .inr ⟨delivering, _, _, oldest, started, added⟩

/-- **Requests and samples.** In every run the samples answer requests in the
order they were made, each once; a sample is delivered only while the stream is
started and not shut down, and answers the oldest request, made since the last
stop. -/
theorem requests_answered {s : Stream α} (h : (streams α).Reachable s) :
    (s.samples.map Sample.request).Sublist s.requested ∧
      ∀ l s', next s l = some s' → s'.samples = s.samples ∨ ∃ r rest d, s.sampleRequests = r :: rest ∧
        s.isStarted = true ∧ s.isShutdown = false ∧ r.period = s.period ∧ s'.samples = s.samples ++ [⟨r, d⟩] := by
  have ha := inductive_answering.reachable s h
  refine ⟨(List.sublist_append_left ..).trans ha.order, ?_⟩
  intro l s' hst
  refine (samples_step (next_cases hst)).imp_right ?_
  rintro ⟨-, r, rest, hrequests, hstarted, hadded⟩
  exact ⟨r, rest, _, hrequests, hstarted.1, hstarted.2, ha.period r (hrequests ▸ List.mem_cons_self ..), hadded⟩

/-- Started, with one request. -/
def asked : Stream Nat :=
  { isStarted := true, isDeliveryRunning := true, deliveryThread := .head, sampleRequests := [⟨5, 0⟩],
    requested := [⟨5, 0⟩] }

/-- The first of two requests is answered, the stream stopped, and another made and answered. -/
def answering : List (Label Nat) :=
  [.start true, .proceed, .requestSample 5, .requestSample 6, .loop, .wait false, .check, .deliver true true,
    .setStreamState .stopped, .proceed, .loop, .proceed, .start true, .proceed, .requestSample 7, .loop, .wait false,
    .check, .deliver true true]

def answered : Stream Nat := LTS.played next (fun _ _ => True) {} answering

theorem answered_requests : answered.samples = [⟨⟨5, 0⟩, true⟩, ⟨⟨7, 1⟩, true⟩] ∧
    (answered.samples.map Sample.request).Sublist answered.requested :=
  ⟨rfl, (requests_answered ⟨{}, answering, rfl, (LTS.played_run (fun _ _ _ h => h) rfl).of_guarded⟩).1⟩

/-! ## Whether a started stream answers -/

/-- A step of the delivery thread. -/
def Label.Thread : Label α → Prop
  | .loop | .wait _ | .check | .deliver _ _ => True
  | _ => False

/-- The thread on its own answers the oldest request. -/
def Answers (s : Stream α) (r : Request α) : Prop :=
  ∃ ls s', (streams α).Run s ls s' ∧ (∀ l ∈ ls, l.Thread) ∧ s'.samples = s.samples ++ [⟨r, s.sampleIndex + 1 = 1⟩]

theorem Answers.cons {s t : Stream α} {r : Request α} {l : Label α} (hl : l.Thread) (hst : next s l = some t)
    (hsame : t.samples = s.samples ∧ t.sampleIndex = s.sampleIndex) (h : Answers t r) : Answers s r := by
  obtain ⟨ls, u, hrun, hls, hadded⟩ := h
  refine ⟨l :: ls, u, .cons hst hrun, List.forall_mem_cons.mpr ⟨hl, hls⟩, ?_⟩
  rw [hadded, hsame.1, hsame.2]

section Alive
variable {s : Stream α} {r : Request α} {rest : List (Request α)} (hstarted : s.isStarted = true)
  (hshutdown : s.isShutdown = false) (hrequests : s.sampleRequests = r :: rest)
include hstarted hshutdown hrequests

theorem answers_delivering (h : s.deliveryThread = .delivering) : Answers s r := by
  refine ⟨[.deliver true true], _, .cons (if_pos h) (.nil _), by simp [Label.Thread], ?_⟩
  change (deliverSamples s true true).samples = _
  unfold deliverSamples
  rw [if_neg (by simp [hstarted, hshutdown]), hrequests]
  rfl

variable (hrunning : s.isDeliveryRunning = true)
include hrunning

theorem answers_woken (h : s.deliveryThread = .woken false) : Answers s r := by
  refine Answers.cons (l := .check) (t := { s with deliveryThread := .delivering }) trivial ?_ ⟨rfl, rfl⟩
    (answers_delivering hstarted hshutdown hrequests rfl)
  simp only [next, h]
  rw [if_neg (by simp [hrunning])]

theorem answers_waiting (h : s.deliveryThread = .waiting) (hclear : s.hWakeEvent = false) : Answers s r :=
  Answers.cons (l := .wait false) (t := { s with hWakeEvent := false, deliveryThread := .woken false }) trivial
    (if_pos ⟨h, hclear⟩) ⟨rfl, rfl⟩ (answers_woken hstarted hshutdown hrequests hrunning rfl)

theorem answers_head (h : s.deliveryThread = .head) (hclear : s.hWakeEvent = false) : Answers s r := by
  refine Answers.cons (l := .loop) (t := { s with deliveryThread := .waiting }) trivial ?_ ⟨rfl, rfl⟩
    (answers_waiting hstarted hshutdown hrequests hrunning rfl hclear)
  simp only [next]
  rw [if_pos h, if_pos hrunning]

end Alive

/-- The thread neither clears nor sets what it found when it began. -/
theorem thread_signalled {s s' : Stream α} {l : Label α} (hl : l.Thread) (hst : Step s l s') :
    s'.signalled = s.signalled := by
  cases hst with
  | start | setStreamState | stop | pause | shutdown | starting | began | stopping | waking | joined |
      requestSample => exact hl.elim
  | loop | wait | check => rfl
  | deliver delivering created queued => exact (frame_deliverSamples s created queued).1.signalled

theorem silent {s s' : Stream α} {ls : List (Label α)} (hrun : (streams α).Run s ls s') (hls : ∀ l ∈ ls, l.Thread)
    (h : Inv s) (hsig : s.signalled = true) : s'.samples = s.samples := by
  induction hrun with
  | nil => rfl
  | @cons s t _ l ls hst _ ih =>
    obtain ⟨hl, hls⟩ := List.forall_mem_cons.mp hls
    have hstep := next_cases hst
    rw [ih hls (h.step hstep) ((thread_signalled hl hstep).trans hsig)]
    refine (samples_step hstep).resolve_right fun ⟨hd, _⟩ => ?_
    have hleaves := h.leaves hsig
    rw [hd] at hleaves
    exact hleaves

/-- In every run of calls one after the other. -/
theorem one_by_one {s : Stream α} (h : (streams α).Reachable s) : s.terminated = false ∧
    (s.isDeliveryRunning = true → s.isStarted = true → s.isShutdown = false →
      ∀ r rest, s.sampleRequests = r :: rest → (Answers s r ↔ s.signalled = false)) := by
  have hi := inductive_inv.reachable s h
  refine ⟨hi.kept, fun hrunning hstarted hshutdown r rest hrequests => ⟨?_, ?_⟩⟩
  · rintro ⟨ls, s', hrun, hls, hadded⟩
    rw [← Bool.not_eq_true]
    intro hsig
    rw [silent hrun hls hi hsig] at hadded
    exact absurd hadded (by simp)
  · intro hsig
    obtain ⟨hclear, hlives⟩ := hi.lives hrunning hsig
    cases hthread : s.deliveryThread with
    | none => exact absurd hthread (hi.running hrunning).1
    | head => exact answers_head hstarted hshutdown hrequests hrunning hthread hclear
    | waiting => exact answers_waiting hstarted hshutdown hrequests hrunning hthread hclear
    | woken stop =>
      cases stop with
      | false => exact answers_woken hstarted hshutdown hrequests hrunning hthread
      | true =>
        rw [hthread] at hlives
        exact hlives.elim
    | delivering => exact answers_delivering hstarted hshutdown hrequests hthread
    | done =>
      rw [hthread] at hlives
      exact hlives.elim

/-! ## A call from outside -/

/-- The stream, and what a `SetStreamState` has still to do; of these there is
one at a time. -/
structure Shared (α : Type) where
  stream : Stream α := {}
  framework : Control := .idle

inductive Turn (α : Type) where
  | setStreamState (value : StreamState)
  /-- `SetStreamState` goes on -/
  | goOn
  | step (l : Label α)

/-- A step of `SetStreamState`; the other call stays where it is. -/
def Shared.byFramework (s : Shared α) (f : Stream α → Option (Stream α)) : Option (Shared α) :=
  (f { s.stream with control := s.framework }).map fun t =>
    { stream := { t with control := s.stream.control }, framework := t.control }

def Shared.next (s : Shared α) : Turn α → Option (Shared α)
  | .setStreamState value =>
    if s.framework = .idle then s.byFramework fun t => some (setStreamState t value) else none
  | .goOn => s.byFramework proceed
  | .step (.setStreamState _) => none
  | .step l => (MediaStream.next s.stream l).map fun t => { s with stream := t }

def shared (α : Type) : LTS (Shared α) (Turn α) where
  init s := s = {}
  step s l s' := s.next l = some s'

def Label.Calls : Label α → Prop
  | .start _ | .stop | .pause | .shutdown => True
  | _ => False

/-- No call begins while another is under way. -/
def Serial (s : Shared α) : Turn α → Prop
  | .setStreamState _ => s.stream.control = .idle
  | .goOn => True
  | .step l => l.Calls → s.framework = .idle

/-- The stream with the one call that is under way. -/
def Shared.merged (s : Shared α) : Stream α :=
  if s.framework = .idle then s.stream else { s.stream with control := s.framework }

/-- Where the calls are is nothing to the thread and to `RequestSample`. -/
theorem next_control {s s' : Stream α} {l : Label α} (hst : next s l = some s')
    (hl : l.Thread ∨ ∃ token, l = .requestSample token) (c : Control) :
    next { s with control := c } l = some { s' with control := c } := by
  cases next_cases hst with
  | start | setStreamState | stop | pause | shutdown | starting | began | stopping | waking | joined =>
    rcases hl with hl | ⟨_, hl⟩
    · exact hl.elim
    · cases hl
  | requestSample token =>
    simp only [next, requestSample]
    split <;> rfl
  | loop at_head => exact if_pos at_head
  | wait at_wait => exact if_pos ⟨at_wait, rfl⟩
  | check at_check =>
    simp only [next, at_check]
  | deliver delivering created queued =>
    refine (if_pos delivering).trans ?_
    simp only [deliverSamples]
    split
    · rfl
    · split
      · rfl
      · split <;> rfl

theorem merged_framework {s : Shared α} {t : Stream α} (hidle : s.stream.control = .idle) :
    Shared.merged { stream := { t with control := s.stream.control }, framework := t.control } = t := by
  unfold Shared.merged
  rw [hidle]
  dsimp only
  split
  · rename_i ht
    rw [← ht]
  · rfl

/-- With one call at a time the stream goes through the same states. -/
theorem serial_simulation : LTS.Simulation ((shared α).guarded Serial) (streams α) fun s t =>
    t = s.merged ∧ (s.framework = .idle ∨ s.stream.control = .idle) where
  init s hs := by
    rw [show s = {} from hs]
    exact ⟨{}, rfl, rfl, .inl rfl⟩
  step s l s' t hR hst := by
    obtain ⟨rfl, halone⟩ := hR
    obtain ⟨hnext, hserial⟩ := hst
    cases l with
    | setStreamState value =>
      have hidle : s.stream.control = .idle := hserial
      simp only [shared, Shared.next, Option.ite_none_right_eq_some] at hnext
      obtain ⟨hframework, hnext⟩ := hnext
      cases hnext
      refine ⟨.setStreamState value, _, ?_, (merged_framework hidle).symm, .inr hidle⟩
      have hmerged : s.merged = { s.stream with control := s.framework } := by
        unfold Shared.merged
        rw [if_pos hframework, hframework, ← hidle]
      rw [hmerged]
      exact if_pos hframework
    | goOn =>
      obtain ⟨u, hu, rfl⟩ := Option.map_eq_some_iff.mp hnext
      have hbusy : s.framework ≠ .idle := fun hframework => by
        rw [hframework] at hu
        cases hu
      have hidle := halone.resolve_left hbusy
      refine ⟨.proceed, u, ?_, (merged_framework hidle).symm, .inr hidle⟩
      unfold Shared.merged
      rw [if_neg hbusy]
      exact hu
    | step l =>
      have hl : ∀ value, l ≠ .setStreamState value := by
        rintro value rfl
        cases hnext
      obtain ⟨u, hu, rfl⟩ : ∃ u, next s.stream l = some u ∧ { s with stream := u } = s' := by
        cases l with
        | setStreamState value => cases hnext
        | _ => exact Option.map_eq_some_iff.mp hnext
      by_cases hframework : s.framework = .idle
      · refine ⟨l, u, ?_, ?_, .inl hframework⟩
        · unfold Shared.merged
          rw [if_pos hframework]
          exact hu
        · unfold Shared.merged
          rw [if_pos hframework]
      · have hidle := halone.resolve_left hframework
        have hfree : l.Thread ∨ ∃ token, l = .requestSample token := by
          cases l with
          | start | stop | pause | shutdown => exact absurd (hserial trivial) hframework
          | setStreamState value => exact absurd rfl (hl value)
          | proceed =>
            simp only [next, proceed, hidle] at hu
            cases hu
          | requestSample token => exact .inr ⟨token, rfl⟩
          | loop | wait | check | deliver => exact .inl trivial
        have hcontrol : u.control = .idle := by
          have hsame := next_control hu hfree s.stream.control
          rw [show ({ s.stream with control := s.stream.control } : Stream α) = s.stream from rfl, hu] at hsame
          rw [Option.some.inj hsame, ← hidle]
        refine ⟨l, { u with control := s.framework }, ?_, ?_, .inr hcontrol⟩
        · unfold Shared.merged
          rw [if_neg hframework]
          exact next_control hu hfree s.framework
        · unfold Shared.merged
          rw [if_neg hframework]

theorem answers_control {s : Stream α} {r : Request α} (h : Answers s r) (c : Control) :
    Answers { s with control := c } r := by
  obtain ⟨ls, s', hrun, hls, hadded⟩ := h
  have hcontrol : (streams α).Run { s with control := c } ls { s' with control := c } := by
    clear hadded
    induction hrun with
    | nil => exact .nil _
    | cons hst _ ih =>
      obtain ⟨hl, hls⟩ := List.forall_mem_cons.mp hls
      exact .cons (next_control hst (.inl hl) c) (ih hls)
  exact ⟨ls, _, hcontrol, hls, hadded⟩

/-- **Whether a started stream answers.** As long as no call begins while another
is under way, no thread object is overwritten that has not been joined, and while
the flag is set the thread can answer the oldest request exactly if the event was
clear when it began. A `SetStreamState` that overlaps a `Stop` may overwrite one. -/
theorem delivers_iff :
    (∀ s : Shared α, ((shared α).guarded Serial).Reachable s → s.stream.terminated = false ∧
      (s.stream.isDeliveryRunning = true → s.stream.isStarted = true → s.stream.isShutdown = false →
        ∀ r rest, s.stream.sampleRequests = r :: rest → (Answers s.stream r ↔ s.stream.signalled = false))) ∧
    ∃ s : Shared α, (shared α).Reachable s ∧ s.stream.terminated = true := by
  refine ⟨?_, ?_⟩
  · intro s h
    obtain ⟨t, ht, rfl, -⟩ := serial_simulation.reachable h
    have hone := one_by_one ht
    unfold Shared.merged at hone
    split at hone
    · exact hone
    · refine ⟨hone.1, ?_⟩
      intro hrunning hstarted hshutdown r rest hrequests
      refine Iff.trans ⟨fun ha => answers_control ha _, ?_⟩ (hone.2 hrunning hstarted hshutdown r rest hrequests)
      intro ha
      exact answers_control ha s.stream.control
  · -- `Stop` has cleared the flag and not yet joined
    exact ⟨_, ⟨{}, [.step (.start true), .step .proceed, .step .stop, .step .proceed, .setStreamState .running, .goOn],
      rfl, .cons rfl (.cons rfl (.cons rfl (.cons rfl (.cons rfl (.cons rfl (.nil _))))))⟩, rfl⟩

theorem reachable_shared : ((shared Nat).guarded Serial).Reachable { stream := asked } :=
  ⟨{}, [.setStreamState .running, .goOn, .step (.requestSample 5)], rfl,
    .cons ⟨rfl, rfl⟩ (.cons ⟨rfl, trivial⟩ (.cons ⟨rfl, nofun⟩ (.nil _)))⟩

theorem asked_answers : Answers asked ⟨5, 0⟩ :=
  ((delivers_iff.1 { stream := asked } reachable_shared).2 rfl rfl rfl _ _ rfl).mpr rfl

/-! ## An event left signalled -/

/-- The calls that signal the event. -/
def Label.Signals : Label α → Prop
  | .stop | .shutdown => True
  | _ => False

/-- Only `Stop` and `Shutdown` get as far as the event. -/
structure Clear (s : Stream α) : Prop where
  event : s.hWakeEvent = false
  signalled : s.signalled = false
  calls : s.control ≠ .stopping true ∧ s.control ≠ .waking

theorem Clear.step {s s' : Stream α} {l : Label α} (h : Clear s) (hl : ¬ l.Signals) (hst : Step s l s') :
    Clear s' := by
  cases hst with
  | start idle queued =>
    unfold start
    split
    · exact h
    · cases queued
      · exact ⟨h.event, h.signalled, h.calls⟩
      · exact ⟨h.event, h.signalled, nofun, nofun⟩
  | setStreamState idle value => cases value <;> exact ⟨h.event, h.signalled, nofun, nofun⟩
  | stop | shutdown => exact absurd trivial hl
  | pause =>
    unfold pause
    split <;> exact ⟨h.event, h.signalled, h.calls⟩
  | starting | joined => exact ⟨h.event, h.signalled, nofun, nofun⟩
  | began => exact ⟨h.event, h.event, nofun, nofun⟩
  | stopping wakes at_stop =>
    cases wakes with
    | false => exact ⟨h.event, h.signalled, nofun, nofun⟩
    | true => exact absurd at_stop h.calls.1
  | waking at_event => exact absurd at_event h.calls.2
  | requestSample token =>
    obtain ⟨⟨-, -, hw, -, hs⟩, hc⟩ := frame_requestSample s token
    exact ⟨hw.trans h.event, hs.trans h.signalled, hc ▸ h.calls⟩
  | loop | check => exact ⟨h.event, h.signalled, h.calls⟩
  | wait => exact ⟨rfl, h.signalled, h.calls⟩
  | deliver delivering created queued =>
    obtain ⟨⟨-, -, hw, -, hs⟩, hc⟩ := frame_deliverSamples s created queued
    exact ⟨hw.trans h.event, hs.trans h.signalled, hc ▸ h.calls⟩

theorem clear_run {s s' : Stream α} {ls : List (Label α)} (hrun : (streams α).Run s ls s')
    (hls : ∀ l ∈ ls, ¬ l.Signals) (h : Clear s) : Clear s' := by
  induction hrun with
  | nil => exact h
  | cons hst _ ih =>
    obtain ⟨hl, hls⟩ := List.forall_mem_cons.mp hls
    exact ih hls (h.step hl (next_cases hst))

/-- The flag is set and the thread gone: it has taken the event of an earlier
stop. -/
structure Deaf (s : Stream α) : Prop where
  signalled : s.signalled = true
  thread : s.deliveryThread = .done
  idle : s.control = .idle

/-- `Stop` and `Shutdown` find the thread gone, and `SetStreamState` neither
pauses nor stops the stream. -/
def Settled (s : Stream α) : Label α → Prop
  | .setStreamState .stopped | .setStreamState .paused => False
  | .stop | .shutdown => s.deliveryThread = .none ∨ s.deliveryThread = .done
  | _ => True

structure Stuck (s : Stream α) : Prop where
  signalled : s.signalled = true
  calls : s.control ≠ .stopping false
  gone : s.control = .stopping true ∨ s.control = .waking ∨ s.control = .joining →
    s.deliveryThread = .none ∨ s.deliveryThread = .done
  event : s.deliveryThread = .none ∨ s.control = .joining → s.hWakeEvent = true

theorem Stuck.stopped {s : Stream α} (h : Stuck s)
    (hgone : s.deliveryThread = .none ∨ s.deliveryThread = .done) {t : Stream α} (ht : Frame s t)
    (hc : t.control = .stopping true) : Stuck t where
  signalled := ht.signalled.trans h.signalled
  calls := by rw [hc]; nofun
  gone _ := ht.deliveryThread ▸ hgone
  event hjoin := by
    rw [ht.hWakeEvent]
    refine h.event (.inl ?_)
    rw [← ht.deliveryThread]
    exact hjoin.resolve_right (by rw [hc]; nofun)

/-- A step of the thread, while no call waits for it. -/
theorem Stuck.stepped {s : Stream α} (h : Stuck s) {t : Delivery} {e : Bool}
    (hbusy : ¬ (s.deliveryThread = .none ∨ s.deliveryThread = .done)) (hafter : t ≠ .none) :
    Stuck { s with deliveryThread := t, hWakeEvent := e } where
  signalled := h.signalled
  calls := h.calls
  gone hc := absurd (h.gone hc) hbusy
  event hjoin := absurd (h.gone (.inr (.inr (hjoin.resolve_left hafter)))) hbusy

theorem Stuck.step {s s' : Stream α} {l : Label α} (h : Stuck s) (hi : Inv s) (hl : Settled s l)
    (hst : Step s l s') : Stuck s' := by
  cases hst with
  | start idle queued =>
    unfold start
    split
    · exact h
    · cases queued with
      | false => exact ⟨h.signalled, h.calls, h.gone, h.event⟩
      | true =>
        refine ⟨h.signalled, nofun, ?_, fun hjoin => h.event (hjoin.imp_right nofun)⟩
        intro hc
        rcases hc with hc | hc | hc <;> cases hc
  | setStreamState idle value =>
    cases value with
    | stopped | paused => exact hl.elim
    | running =>
      refine ⟨h.signalled, nofun, ?_, fun hjoin => h.event (hjoin.imp_right nofun)⟩
      intro hc
      rcases hc with hc | hc | hc <;> cases hc
  | stop idle =>
    unfold stop
    split
    · exact h
    · exact h.stopped hl ⟨rfl, rfl, rfl, rfl, rfl⟩ rfl
  | pause =>
    unfold pause
    split <;> exact ⟨h.signalled, h.calls, h.gone, h.event⟩
  | shutdown idle =>
    unfold shutdown
    split
    · exact h
    · exact h.stopped hl ⟨rfl, rfl, rfl, rfl, rfl⟩ rfl
  | starting =>
    refine ⟨h.signalled, nofun, ?_, fun hjoin => h.event (hjoin.imp_right nofun)⟩
    intro hc
    rcases hc with hc | hc | hc <;> cases hc
  | began at_start resting =>
    have hevent := h.event (.inl (hi.joined resting (.inr at_start)))
    refine ⟨hevent, nofun, ?_, fun _ => hevent⟩
    intro hc
    rcases hc with hc | hc | hc <;> cases hc
  | stopping wakes at_stop =>
    cases wakes with
    | false => exact absurd at_stop h.calls
    | true =>
      have hgone := h.gone (.inl at_stop)
      exact ⟨h.signalled, nofun, fun _ => hgone, fun hjoin => h.event (hjoin.imp_right nofun)⟩
  | waking at_event => exact ⟨h.signalled, nofun, fun _ => h.gone (.inr (.inl at_event)), fun _ => rfl⟩
  | joined at_join =>
    refine ⟨h.signalled, nofun, ?_, fun _ => h.event (.inr at_join)⟩
    intro hc
    rcases hc with hc | hc | hc <;> cases hc
  | requestSample token =>
    obtain ⟨⟨-, -, hw, hd, hs⟩, hc⟩ := frame_requestSample s token
    exact ⟨hs.trans h.signalled, hc ▸ h.calls, by rw [hc, hd]; exact h.gone, by rw [hc, hd, hw]; exact h.event⟩
  | loop at_head =>
    refine h.stepped (e := s.hWakeEvent) (by rw [at_head]; simp) ?_
    split <;> nofun
  | wait at_wait => exact h.stepped (by rw [at_wait]; simp) nofun
  | check at_check =>
    refine h.stepped (e := s.hWakeEvent) (by rw [at_check]; simp) ?_
    split <;> nofun
  | deliver delivering created queued =>
    have hleaves := hi.leaves h.signalled
    rw [delivering] at hleaves
    exact hleaves.elim

theorem stuck_silent {s s' : Stream α} {ls : List (Label α)} (hrun : ((streams α).guarded Settled).Run s ls s')
    (h : Stuck s) (hi : Inv s) : s'.samples = s.samples := by
  induction hrun with
  | nil => rfl
  | @cons s t _ l _ hst _ ih =>
    have hstep := next_cases hst.1
    rw [ih (h.step hi hst.2 hstep) (hi.step hstep)]
    refine (samples_step hstep).resolve_right fun ⟨hd, _⟩ => ?_
    have hleaves := hi.leaves h.signalled
    rw [hd] at hleaves
    exact hleaves

/-- **An event left signalled.** A stream on which neither `Stop` nor `Shutdown`
is called never has the event signalled. Once a thread has taken the event of
an earlier stop, no sample is delivered any more, however often the stream is
started and stopped, as long as each stop comes after the thread has gone and
`SetStreamState` neither pauses nor stops it. -/
theorem left_signalled :
    (∀ ls (s : Stream α), (streams α).Run {} ls s → (∀ l ∈ ls, ¬ l.Signals) →
      s.hWakeEvent = false ∧ s.signalled = false) ∧
    ∀ s : Stream α, (streams α).Reachable s → Deaf s →
      ∀ ls s', ((streams α).guarded Settled).Run s ls s' → s'.samples = s.samples := by
  refine ⟨?_, ?_⟩
  · intro ls s hrun hls
    have hclear := clear_run hrun hls ⟨rfl, rfl, nofun, nofun⟩
    exact ⟨hclear.event, hclear.signalled⟩
  · intro s h hdeaf ls s' hrun
    refine stuck_silent hrun ⟨hdeaf.signalled, ?_, fun _ => .inr hdeaf.thread, ?_⟩
      (inductive_inv.reachable s h)
    · rw [hdeaf.idle]
      nofun
    · intro hjoin
      rcases hjoin with hjoin | hjoin
      · exact absurd (hdeaf.thread.symm.trans hjoin) nofun
      · exact absurd (hdeaf.idle.symm.trans hjoin) nofun

/-- Stopped before it was ever started, and then started. -/
def deaf : Stream Nat :=
  { isStarted := true, isDeliveryRunning := true, deliveryThread := .done, signalled := true, period := 1 }

theorem reachable_deaf : (streams Nat).Reachable deaf :=
  ⟨{}, [.stop, .proceed, .proceed, .proceed, .start true, .proceed, .loop, .wait true, .check], rfl,
    .cons rfl (.cons rfl (.cons rfl (.cons rfl (.cons rfl (.cons rfl (.cons rfl (.cons rfl (.cons rfl
    (.nil _)))))))))⟩

theorem deaf_silent : ∀ ls s', ((streams Nat).guarded Settled).Run deaf ls s' → s'.samples = [] :=
  left_signalled.2 deaf reachable_deaf ⟨rfl, rfl, rfl⟩

end KmVirtualCamera.L5.MediaStream
