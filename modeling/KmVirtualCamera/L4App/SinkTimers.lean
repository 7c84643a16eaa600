import Mathlib
import KmVirtualCamera.L4App.SinkPublisher

/-!
# The timers of the sink publisher

Between two events a publisher is in one of three phases: not wanted and with
nothing open (`Idle`), feeding an open sink (`Feeding`), or waiting to open it
again with everything torn down (`Retrying`). Every event leads from a phase to
a phase, whatever the system answers, as long as it creates timers.

`feedFrame` tears the sink down when the enqueue fails, and clears the feed
timer; `feedTick` then goes on and arms `_feedTimer`, which is nil. That is the
only way to arm a timer that is not there.

* `timers_settled`: every event ends in a phase, and every timer that is armed
  is alive, exactly when no feed tick has its enqueue fail in that way.
* `enqueue_failed`: the sink is opened, the first frame is refused.
-/
namespace KmVirtualCamera.L4.SinkPublisher

/-! ## Timers in the log -/

def Op.timers (alive : List Timer) : Op → List Timer
  | .created t => alive ++ [t]
  | .canceled t => alive.erase t
  | _ => alive

/-- The timers created and not cancelled. -/
def live (log : List Op) : List Timer := log.foldl Op.timers []

/-- A timer is armed while it is alive. -/
def Op.OnLive (pre : List Op) : Op → Prop
  | .armed t _ => ∃ id, t = some id ∧ id ∈ live pre
  | _ => True

def ArmsLive (log : List Op) : Prop := EachAfter (fun pre op => op.OnLive pre) log

@[simp] theorem live_append (log : List Op) (op : Op) : live (log ++ [op]) = op.timers (live log) := by
  simp [live]

def Op.isTimer : Op → Bool
  | .created _ | .armed _ _ | .canceled _ => true
  | _ => false

theorem timers_other {op : Op} (h : op.isTimer = false) (alive : List Timer) :
    op.timers alive = alive := by
  cases op with
  | created | canceled => cases h
  | _ => rfl

theorem onLive_other {op : Op} (h : op.isTimer = false) (pre : List Op) : op.OnLive pre := by
  cases op with
  | armed => cases h
  | _ => trivial

/-- The log goes on, and only with arms on timers that are alive. -/
structure Clean (s s' : Publisher) : Prop where
  grows : s.log <+: s'.log
  arms : ArmsLive s.log → ArmsLive s'.log

theorem Clean.refl (s : Publisher) : Clean s s := ⟨List.prefix_rfl, id⟩

theorem Clean.trans {a b c : Publisher} (h : Clean a b) (h' : Clean b c) : Clean a c :=
  ⟨h.grows.trans h'.grows, fun ha => h'.arms (h.arms ha)⟩

/-- Nothing is done to a timer. -/
structure Untimed (s s' : Publisher) : Prop where
  desired : s'.desired = s.desired
  feedTimer : s'.feedTimer = s.feedTimer
  retryTimer : s'.retryTimer = s.retryTimer
  log : ∃ ops, s'.log = s.log ++ ops ∧ ∀ op ∈ ops, op.isTimer = false

theorem Untimed.refl (s : Publisher) : Untimed s s := ⟨rfl, rfl, rfl, [], by simp, by simp⟩

theorem Untimed.trans {a b c : Publisher} (h : Untimed a b) (h' : Untimed b c) : Untimed a c := by
  obtain ⟨ops, hops, hq⟩ := h.log
  obtain ⟨ops', hops', hq'⟩ := h'.log
  refine ⟨h'.desired.trans h.desired, h'.feedTimer.trans h.feedTimer, h'.retryTimer.trans h.retryTimer,
    ops ++ ops', by rw [hops', hops, List.append_assoc], ?_⟩
  intro op hop
  rcases List.mem_append.1 hop with hop | hop
  · exact hq op hop
  · exact hq' op hop

theorem live_untimed {ops : List Op} (h : ∀ op ∈ ops, op.isTimer = false) (log : List Op) :
    live (log ++ ops) = live log := by
  induction ops generalizing log with
  | nil => simp
  | cons op ops ih =>
    rw [List.append_cons, ih (fun o ho => h o (List.mem_cons_of_mem _ ho)), live_append,
      timers_other (h op List.mem_cons_self)]

theorem arms_untimed {ops : List Op} (h : ∀ op ∈ ops, op.isTimer = false) {log : List Op}
    (ha : ArmsLive log) : ArmsLive (log ++ ops) := by
  induction ops generalizing log with
  | nil => simpa using ha
  | cons op ops ih =>
    rw [List.append_cons]
    exact ih (fun o ho => h o (List.mem_cons_of_mem _ ho))
      (EachAfter.snoc ha (onLive_other (h op List.mem_cons_self) _))

theorem Untimed.live {s s' : Publisher} (h : Untimed s s') : live s'.log = live s.log := by
  obtain ⟨ops, hops, hq⟩ := h.log
  rw [hops, live_untimed hq]

theorem Untimed.clean {s s' : Publisher} (h : Untimed s s') : Clean s s' := by
  obtain ⟨ops, hops, hq⟩ := h.log
  exact ⟨⟨ops, hops.symm⟩, fun ha => hops ▸ arms_untimed hq ha⟩

/-! ## The connection -/

/-- Nothing is done to the connection. -/
structure SameSink (s s' : Publisher) : Prop where
  streamStarted : s'.streamStarted = s.streamStarted
  deviceID : s'.deviceID = s.deviceID
  streamID : s'.streamID = s.streamID
  bufferQueue : s'.bufferQueue = s.bufferQueue
  format : s'.format = s.format

theorem SameSink.refl (s : Publisher) : SameSink s s := ⟨rfl, rfl, rfl, rfl, rfl⟩

theorem SameSink.trans {a b c : Publisher} (h : SameSink a b) (h' : SameSink b c) : SameSink a c :=
  ⟨h'.streamStarted.trans h.streamStarted, h'.deviceID.trans h.deviceID, h'.streamID.trans h.streamID,
    h'.bufferQueue.trans h.bufferQueue, h'.format.trans h.format⟩

structure TornDown (s : Publisher) : Prop where
  streamStarted : s.streamStarted = false
  bufferQueue : s.bufferQueue = none
  format : s.format = false
  held : s.held = []

/-- A stream that was started can be named. -/
def Named (s : Publisher) : Prop := s.streamStarted = true → s.deviceID ≠ 0 ∧ s.streamID ≠ 0

theorem Named.same {s s' : Publisher} (h : Named s) (hs : SameSink s s') : Named s' := by
  unfold Named
  rw [hs.streamStarted, hs.deviceID, hs.streamID]
  exact h

theorem setState_untimed (s : Publisher) (state : KMSinkPublisherState) (detail : String) :
    Untimed s (setState s state detail) := by
  unfold setState
  split
  · exact Untimed.refl s
  · exact ⟨rfl, rfl, rfl, [.notified state detail], rfl, by simp [Op.isTimer]⟩

theorem setState_same (s : Publisher) (state : KMSinkPublisherState) (detail : String) :
    SameSink s (setState s state detail) := by
  unfold setState
  split <;> exact ⟨rfl, rfl, rfl, rfl, rfl⟩

@[simp] theorem setState_held (s : Publisher) (state : KMSinkPublisherState) (detail : String) :
    (setState s state detail).held = s.held := by
  unfold setState
  split <;> rfl

theorem countReleased_untimed (s : Publisher) (samples : List Sample) :
    Untimed s (countReleased s samples) :=
  ⟨rfl, rfl, rfl, samples.map Op.counted, rfl, by simp [Op.isTimer]⟩

theorem note_untimed (s : Publisher) {op : Op} (h : op.isTimer = false) : Untimed s (s.note op) :=
  ⟨rfl, rfl, rfl, [op], rfl, by simpa using h⟩

theorem TornDown.same {s s' : Publisher} (h : TornDown s) (hs : SameSink s s')
    (hheld : s'.held = s.held) : TornDown s' :=
  ⟨hs.streamStarted.trans h.streamStarted, hs.bufferQueue.trans h.bufferQueue,
    hs.format.trans h.format, hheld.trans h.held⟩

theorem stopStream_untimed (s : Publisher) : Untimed s (stopStream s) := by
  unfold stopStream
  split
  · exact ⟨rfl, rfl, rfl, [.stopStream s.deviceID s.streamID], rfl, by simp [Op.isTimer]⟩
  · exact Untimed.refl s

theorem stopStream_streamStarted {s : Publisher} (h : Named s) :
    (stopStream s).streamStarted = false := by
  unfold stopStream
  split
  · rfl
  · next hc => exact Bool.eq_false_iff.2 fun hs => hc ⟨hs, h hs⟩

theorem dropQueue_untimed (s : Publisher) : Untimed s (dropQueue s) := by
  unfold dropQueue
  split
  · next queue _ => exact ⟨rfl, rfl, rfl, [.releaseQueue queue], rfl, by simp [Op.isTimer]⟩
  · exact Untimed.refl s

theorem dropQueue_bufferQueue (s : Publisher) : (dropQueue s).bufferQueue = none := by
  unfold dropQueue
  split
  · rfl
  · next hq => exact hq

theorem dropQueue_streamStarted (s : Publisher) : (dropQueue s).streamStarted = s.streamStarted := by
  unfold dropQueue
  split <;> rfl

theorem teardown_untimed (s : Publisher) : Untimed s (teardown s) := by
  refine ((stopStream_untimed s).trans (dropQueue_untimed _)).trans ?_
  exact ⟨rfl, rfl, rfl, (dropQueue (stopStream s)).held.map Op.counted, rfl, by simp [Op.isTimer]⟩

theorem teardown_tornDown {s : Publisher} (h : Named s) : TornDown (teardown s) where
  streamStarted := (dropQueue_streamStarted _).trans (stopStream_streamStarted h)
  bufferQueue := dropQueue_bufferQueue _
  format := rfl
  held := rfl

/-! ## Phases -/

/-- Nothing is open and no timer is alive. -/
structure Cleared (s : Publisher) : Prop where
  feedTimer : s.feedTimer = none
  retryTimer : s.retryTimer = none
  live : live s.log = []
  torn : TornDown s

structure Idle (s : Publisher) : Prop extends Cleared s where
  desired : s.desired = false

/-- The one timer that is alive is the feed timer, of a sink that is open. -/
structure Feeding (s : Publisher) : Prop where
  desired : s.desired = true
  timer : ∃ t, s.feedTimer = some t ∧ live s.log = [t]
  retryTimer : s.retryTimer = none
  streamStarted : s.streamStarted = true
  named : s.deviceID ≠ 0 ∧ s.streamID ≠ 0
  bufferQueue : s.bufferQueue ≠ none

/-- The one timer that is alive is the retry timer. -/
structure Retrying (s : Publisher) : Prop where
  desired : s.desired = true
  timer : ∃ t, s.retryTimer = some t ∧ live s.log = [t]
  feedTimer : s.feedTimer = none
  torn : TornDown s

def Settled (s : Publisher) : Prop := Idle s ∨ Feeding s ∨ Retrying s

/-- The timers that are alive are those the publisher knows, and not both. -/
structure Handles (s : Publisher) : Prop where
  live : live s.log = s.feedTimer.toList ++ s.retryTimer.toList
  one : s.feedTimer = none ∨ s.retryTimer = none

theorem Settled.handles {s : Publisher} (h : Settled s) : Handles s := by
  rcases h with h | h | h
  · exact ⟨by rw [h.live, h.feedTimer, h.retryTimer]; rfl, .inl h.feedTimer⟩
  · obtain ⟨t, ht, hl⟩ := h.timer
    exact ⟨by rw [hl, ht, h.retryTimer]; rfl, .inr h.retryTimer⟩
  · obtain ⟨t, ht, hl⟩ := h.timer
    exact ⟨by rw [hl, ht, h.feedTimer]; rfl, .inl h.feedTimer⟩

theorem TornDown.named {s : Publisher} (h : TornDown s) : Named s := fun hs => by
  rw [h.streamStarted] at hs
  cases hs

theorem Settled.named {s : Publisher} (h : Settled s) : Named s := by
  rcases h with h | h | h
  · exact h.torn.named
  · exact fun _ => h.named
  · exact h.torn.named

theorem Settled.idle {s : Publisher} (h : Settled s) (hd : s.desired = false) : Idle s := by
  rcases h with h | h | h
  · exact h
  · exact absurd h.desired (by simp [hd])
  · exact absurd h.desired (by simp [hd])

theorem Settled.feeding {s : Publisher} (h : Settled s) (ht : s.feedTimer ≠ none) : Feeding s := by
  rcases h with h | h | h
  · exact absurd h.feedTimer ht
  · exact h
  · exact absurd h.feedTimer ht

theorem Feeding.kept {s s' : Publisher} (h : Feeding s) (hu : Untimed s s') (hs : SameSink s s') :
    Feeding s' where
  desired := hu.desired.trans h.desired
  timer := by rw [hu.feedTimer, hu.live]; exact h.timer
  retryTimer := hu.retryTimer.trans h.retryTimer
  streamStarted := hs.streamStarted.trans h.streamStarted
  named := by rw [hs.deviceID, hs.streamID]; exact h.named
  bufferQueue := by rw [hs.bufferQueue]; exact h.bufferQueue

/-! ## Operations on timers -/

@[simp] theorem cancelFeedTimer_feedTimer (s : Publisher) : (cancelFeedTimer s).feedTimer = none := by
  unfold cancelFeedTimer
  split
  · next h => exact h
  · rfl

@[simp] theorem cancelFeedTimer_retryTimer (s : Publisher) :
    (cancelFeedTimer s).retryTimer = s.retryTimer := by
  unfold cancelFeedTimer
  split <;> rfl

@[simp] theorem cancelFeedTimer_desired (s : Publisher) : (cancelFeedTimer s).desired = s.desired := by
  unfold cancelFeedTimer
  split <;> rfl

theorem cancelFeedTimer_same (s : Publisher) : SameSink s (cancelFeedTimer s) := by
  unfold cancelFeedTimer
  split <;> exact ⟨rfl, rfl, rfl, rfl, rfl⟩

theorem cancelFeedTimer_clean (s : Publisher) : Clean s (cancelFeedTimer s) := by
  unfold cancelFeedTimer
  split
  · exact Clean.refl s
  · next t _ => exact ⟨List.prefix_append _ _, fun h => EachAfter.snoc h trivial⟩

theorem Handles.cancelFeed {s : Publisher} (h : Handles s) : Handles (cancelFeedTimer s) := by
  refine ⟨?_, .inl (cancelFeedTimer_feedTimer s)⟩
  rw [cancelFeedTimer_feedTimer, cancelFeedTimer_retryTimer]
  have hl := h.live
  cases ht : s.feedTimer with
  | none => simpa [cancelFeedTimer, ht] using hl
  | some t =>
    have hr : s.retryTimer = none := h.one.resolve_left (by simp [ht])
    simp [cancelFeedTimer, ht, Publisher.note, hl, hr, Op.timers]

@[simp] theorem cancelRetryTimer_retryTimer (s : Publisher) :
    (cancelRetryTimer s).retryTimer = none := by
  unfold cancelRetryTimer
  split
  · next h => exact h
  · rfl

@[simp] theorem cancelRetryTimer_feedTimer (s : Publisher) :
    (cancelRetryTimer s).feedTimer = s.feedTimer := by
  unfold cancelRetryTimer
  split <;> rfl

@[simp] theorem cancelRetryTimer_desired (s : Publisher) :
    (cancelRetryTimer s).desired = s.desired := by
  unfold cancelRetryTimer
  split <;> rfl

theorem cancelRetryTimer_same (s : Publisher) : SameSink s (cancelRetryTimer s) := by
  unfold cancelRetryTimer
  split <;> exact ⟨rfl, rfl, rfl, rfl, rfl⟩

theorem cancelRetryTimer_clean (s : Publisher) : Clean s (cancelRetryTimer s) := by
  unfold cancelRetryTimer
  split
  · exact Clean.refl s
  · next t _ => exact ⟨List.prefix_append _ _, fun h => EachAfter.snoc h trivial⟩

theorem Handles.cancelRetry {s : Publisher} (h : Handles s) : Handles (cancelRetryTimer s) := by
  refine ⟨?_, .inr (cancelRetryTimer_retryTimer s)⟩
  rw [cancelRetryTimer_retryTimer, cancelRetryTimer_feedTimer]
  have hl := h.live
  cases ht : s.retryTimer with
  | none => simpa [cancelRetryTimer, ht] using hl
  | some t =>
    have hf : s.feedTimer = none := h.one.resolve_right (by simp [ht])
    simp [cancelRetryTimer, ht, Publisher.note, hl, hf, Op.timers]

/-- Once both timers are cancelled a teardown leaves nothing. -/
theorem teardown_cleared {s : Publisher} (hh : Handles s) (hn : Named s) (hf : s.feedTimer = none)
    (hr : s.retryTimer = none) : Cleared (teardown s) := by
  have hu := teardown_untimed s
  refine ⟨hu.feedTimer.trans hf, hu.retryTimer.trans hr, ?_, teardown_tornDown hn⟩
  rw [hu.live, hh.live, hf, hr]
  rfl

/-- What a timer that is created and armed at once does. -/
theorem armed_fresh {log : List Op} (t : Timer) (delayNs : UInt64) (h : live log = []) :
    live (log ++ [.created t] ++ [.armed (some t) delayNs]) = [t] ∧
      (ArmsLive log → ArmsLive (log ++ [.created t] ++ [.armed (some t) delayNs])) := by
  have hl : live (log ++ [.created t]) = [t] := by simp [h, Op.timers]
  refine ⟨by rw [live_append, hl]; rfl, fun ha => EachAfter.snoc (EachAfter.snoc ha trivial) ?_⟩
  exact ⟨t, rfl, by rw [hl]; exact List.mem_singleton_self t⟩

variable {a : Answers}

theorem scheduleRetry_retrying {s : Publisher} (hc : a.createTimer = true) (h : Cleared s)
    (hd : s.desired = true) : Retrying (scheduleRetry a s) ∧ Clean s (scheduleRetry a s) := by
  have harmed := armed_fresh s.timers kRetryDelayNs h.live
  have heq : scheduleRetry a s = { s with
      retryTimer := some s.timers, timers := s.timers + 1
      log := s.log ++ [.created s.timers] ++ [.armed (some s.timers) kRetryDelayNs] } := by
    simp [scheduleRetry, createTimer, hc, hd, h.retryTimer, setTimer, Publisher.note]
  rw [heq]
  refine ⟨⟨hd, ⟨s.timers, rfl, harmed.1⟩, h.feedTimer, h.torn.same ⟨rfl, rfl, rfl, rfl, rfl⟩ rfl⟩, ?_,
    harmed.2⟩
  exact ⟨_, (List.append_assoc ..).symm⟩

theorem startFeedTimer_feeding {s : Publisher} (hc : a.createTimer = true) (hd : s.desired = true)
    (hl : live s.log = []) (hr : s.retryTimer = none) (hs : s.streamStarted = true)
    (hids : s.deviceID ≠ 0 ∧ s.streamID ≠ 0) (hq : s.bufferQueue ≠ none) :
    Feeding (startFeedTimer a s) ∧ Clean s (startFeedTimer a s) := by
  obtain ⟨delayNs, heq⟩ : ∃ delayNs, startFeedTimer a s = { s with
      feedTimer := some s.timers, timers := s.timers + 1
      log := s.log ++ [.created s.timers] ++ [.armed (some s.timers) delayNs] } := by
    simp [startFeedTimer, createTimer, hc, setTimer, Publisher.note]
  have harmed := armed_fresh s.timers delayNs hl
  rw [heq]
  exact ⟨⟨hd, ⟨s.timers, rfl, harmed.1⟩, hr, hs, hids, hq⟩, ⟨_, (List.append_assoc ..).symm⟩, harmed.2⟩

theorem reconnectSoon_retrying {s : Publisher} (hc : a.createTimer = true) (h : Feeding s) :
    Retrying (reconnectSoon a s) ∧ Clean s (reconnectSoon a s) := by
  have hh := (Settled.handles (.inr (.inl h))).cancelFeed
  have hn : Named (cancelFeedTimer s) := Named.same (fun _ => h.named) (cancelFeedTimer_same s)
  have hcl := teardown_cleared hh hn (cancelFeedTimer_feedTimer s)
    ((cancelFeedTimer_retryTimer s).trans h.retryTimer)
  have hu := teardown_untimed (cancelFeedTimer s)
  have hret := scheduleRetry_retrying hc hcl (by rw [hu.desired, cancelFeedTimer_desired, h.desired])
  exact ⟨hret.1, ((cancelFeedTimer_clean s).trans hu.clean).trans hret.2⟩

/-! ## Opening -/

/-- Looking for the sink opens nothing; a stream that is found has a name. -/
theorem locateSink_spec (a : Answers) (s : Publisher) : Untimed s (locateSink a s).2 ∧
    (TornDown s → TornDown (locateSink a s).2) ∧
    ((locateSink a s).1 = true → (locateSink a s).2.deviceID ≠ 0 ∧ (locateSink a s).2.streamID ≠ 0) := by
  have hids : ∀ d st : UInt32, Untimed s { s with deviceID := d, streamID := st } ∧
      (TornDown s → TornDown { s with deviceID := d, streamID := st }) := fun d st =>
    ⟨⟨rfl, rfl, rfl, [], by simp, by simp⟩, fun h => ⟨h.1, h.2, h.3, h.4⟩⟩
  have hmiss : ∀ d st : UInt32, ∀ detail,
      Untimed s (setState { s with deviceID := d, streamID := st } .unavailable detail) ∧
        (TornDown s → TornDown (setState { s with deviceID := d, streamID := st } .unavailable detail)) :=
    fun d st detail => ⟨(hids d st).1.trans (setState_untimed ..),
      fun h => ((hids d st).2 h).same (setState_same ..) (setState_held ..)⟩
  unfold locateSink
  split
  · exact ⟨(hmiss 0 s.streamID _).1, (hmiss 0 s.streamID _).2, fun h => by cases h⟩
  · next device _ =>
    dsimp only
    split
    · exact ⟨(hmiss device.id s.streamID _).1, (hmiss device.id s.streamID _).2, fun h => by cases h⟩
    · split
      · exact ⟨(hmiss device.id s.streamID _).1, (hmiss device.id s.streamID _).2, fun h => by cases h⟩
      · split
        · exact ⟨(hmiss device.id s.streamID _).1, (hmiss device.id s.streamID _).2, fun h => by cases h⟩
        · next stream _ =>
          exact ⟨(hids device.id stream.1.id).1, (hids device.id stream.1.id).2,
            fun _ => ⟨device.known, stream.1.known⟩⟩

/-- No timer is alive, and the stream is not started: whatever is there can go. -/
structure Unarmed (s : Publisher) : Prop where
  desired : s.desired = true
  feedTimer : s.feedTimer = none
  retryTimer : s.retryTimer = none
  live : live s.log = []
  streamStarted : s.streamStarted = false

theorem Unarmed.untimed {s s' : Publisher} (h : Unarmed s) (hu : Untimed s s')
    (hs : s'.streamStarted = s.streamStarted) : Unarmed s' :=
  ⟨hu.desired.trans h.desired, hu.feedTimer.trans h.feedTimer, hu.retryTimer.trans h.retryTimer,
    hu.live.trans h.live, hs.trans h.streamStarted⟩

theorem Cleared.unarmed {s : Publisher} (h : Cleared s) (hd : s.desired = true) : Unarmed s :=
  ⟨hd, h.feedTimer, h.retryTimer, h.live, h.torn.streamStarted⟩

/-- An attempt that fails: what is there goes, and the retry timer is set. -/
theorem Unarmed.retry {s : Publisher} (hc : a.createTimer = true) (h : Unarmed s)
    (state : KMSinkPublisherState) (detail : String) :
    Retrying (scheduleRetry a (teardown (setState s state detail))) ∧
      Clean s (scheduleRetry a (teardown (setState s state detail))) := by
  have hset := setState_untimed s state detail
  have h' := h.untimed hset (setState_same s state detail).streamStarted
  have hdown := teardown_untimed (setState s state detail)
  have hn : Named (setState s state detail) := fun hs => by
    rw [h'.streamStarted] at hs
    cases hs
  have hcl : Cleared (teardown (setState s state detail)) :=
    ⟨hdown.feedTimer.trans h'.feedTimer, hdown.retryTimer.trans h'.retryTimer,
      hdown.live.trans h'.live, teardown_tornDown hn⟩
  have hret := scheduleRetry_retrying hc hcl (hdown.desired.trans h'.desired)
  exact ⟨hret.1, (hset.trans hdown).clean.trans hret.2⟩

theorem openSink_settled {s : Publisher} (hc : a.createTimer = true) (hh : Handles s) (hn : Named s)
    (hi : s.desired = false → Idle s) : Settled (openSink a s) ∧ Clean s (openSink a s) := by
  unfold openSink
  split
  · next hd => exact ⟨.inl (hi hd), Clean.refl s⟩
  · next hd =>
    dsimp only
    have hwanted : s.desired = true := by simpa using hd
    set s₁ := cancelFeedTimer (cancelRetryTimer s) with hs₁
    have hclean₁ : Clean s s₁ := (cancelRetryTimer_clean s).trans (cancelFeedTimer_clean _)
    have hcl : Cleared (teardown s₁) := teardown_cleared hh.cancelRetry.cancelFeed
      ((hn.same (cancelRetryTimer_same s)).same (cancelFeedTimer_same _)) (by simp [s₁]) (by simp [s₁])
    set s₂ := setState (teardown s₁) .opening "enumerating device" with hs₂
    have hu₂ : Untimed s₁ s₂ := (teardown_untimed s₁).trans (setState_untimed ..)
    have htorn₂ : TornDown s₂ := hcl.torn.same (setState_same ..) (setState_held ..)
    have hspec := locateSink_spec a s₂
    rcases hlocate : locateSink a s₂ with ⟨found, s₃⟩
    rw [hlocate] at hspec
    obtain ⟨hu₃, htorn₃, hnamed⟩ := hspec
    have hclean₃ : Clean s s₃ := hclean₁.trans (hu₂.trans hu₃).clean
    have hcl₃ : Cleared s₃ := by
      have hu := (setState_untimed (teardown s₁) .opening "enumerating device").trans hu₃
      exact ⟨hu.feedTimer.trans hcl.feedTimer, hu.retryTimer.trans hcl.retryTimer,
        hu.live.trans hcl.live, htorn₃ htorn₂⟩
    have hd₃ : s₃.desired = true := by rw [hu₃.desired, hu₂.desired]; simpa [s₁] using hwanted
    have hun := hcl₃.unarmed hd₃
    cases found with
    | false =>
      have hret := scheduleRetry_retrying hc hcl₃ hd₃
      exact ⟨.inr (.inr hret.1), hclean₃.trans hret.2⟩
    | true =>
      dsimp only
      have hwith : ∀ q f, Untimed s₃ { s₃ with bufferQueue := q, format := f } := fun q f =>
        ⟨rfl, rfl, rfl, [], by simp, by simp⟩
      split_ifs with hcopy hformat hstart
      · have hu := hwith a.copyBufferQueue.2 s₃.format
        have hret := (hun.untimed hu rfl).retry hc .disconnected
          ("CopyBufferQueue failed status=" ++ toString a.copyBufferQueue.1)
        exact ⟨.inr (.inr hret.1), (hclean₃.trans hu.clean).trans hret.2⟩
      · have hu := hwith a.copyBufferQueue.2 a.format
        have hret := (hun.untimed hu rfl).retry hc .disconnected "format description creation failed"
        exact ⟨.inr (.inr hret.1), (hclean₃.trans hu.clean).trans hret.2⟩
      · have hnote : Op.isTimer (.startStream s₃.deviceID s₃.streamID) = false := rfl
        have hu := (hwith a.copyBufferQueue.2 a.format).trans (note_untimed _ hnote)
        have hret := (hun.untimed hu rfl).retry hc .disconnected
          ("StartStream failed status=" ++ toString a.startStream)
        exact ⟨.inr (.inr hret.1), (hclean₃.trans hu.clean).trans hret.2⟩
      · set s₄ : Publisher := { ({ s₃ with bufferQueue := a.copyBufferQueue.2, format := a.format } :
            Publisher).note (.startStream s₃.deviceID s₃.streamID) with
          streamStarted := true, feedStartNs := a.now, feedIndex := 1, lastConsumeNs := a.now } with hs₄
        have hu₄ : Untimed s₃ s₄ :=
          ⟨rfl, rfl, rfl, [.startStream s₃.deviceID s₃.streamID], rfl, by simp [Op.isTimer]⟩
        have hq : s₄.bufferQueue ≠ none := fun hq => hcopy (.inr hq)
        have hfeed := startFeedTimer_feeding (s := s₄) hc (hu₄.desired.trans hd₃)
          (hu₄.live.trans hcl₃.live) (hu₄.retryTimer.trans hcl₃.retryTimer) rfl (hnamed rfl) hq
        refine ⟨.inr (.inl (hfeed.1.kept (setState_untimed ..) (setState_same ..))), ?_⟩
        exact ((hclean₃.trans hu₄.clean).trans hfeed.2).trans (setState_untimed ..).clean

/-! ## Feeding -/

theorem syncConsumed_untimed (a : Answers) (s : Publisher) : Untimed s (syncConsumed a s) := by
  unfold syncConsumed
  split
  · exact Untimed.refl s
  · have hu : Untimed s { countReleased s (s.held.take (s.held.length - a.inQueue)) with
        held := s.held.drop (s.held.length - a.inQueue) } :=
      (countReleased_untimed s (s.held.take (s.held.length - a.inQueue))).trans
        ⟨rfl, rfl, rfl, [], by simp, by simp⟩
    dsimp only
    split
    · exact hu.trans ⟨rfl, rfl, rfl, [], by simp, by simp⟩
    · exact hu

theorem syncConsumed_same (a : Answers) (s : Publisher) : SameSink s (syncConsumed a s) := by
  unfold syncConsumed
  split
  · exact SameSink.refl s
  · dsimp only
    split <;> exact ⟨rfl, rfl, rfl, rfl, rfl⟩

theorem chooseFeed_untimed (a : Answers) (s : Publisher) : Untimed s (chooseFeed a s).2 := by
  unfold chooseFeed
  split
  · exact Untimed.refl s
  · exact ⟨rfl, rfl, rfl, [], by simp, by simp⟩

theorem chooseFeed_same (a : Answers) (s : Publisher) : SameSink s (chooseFeed a s).2 := by
  unfold chooseFeed
  split
  · exact SameSink.refl s
  · exact ⟨rfl, rfl, rfl, rfl, rfl⟩

/-- The frame becomes a sample, and the queue does not take it, and not because it is full. -/
def Refused (a : Answers) (frame : Frame) : Prop :=
  a.normalize720p frame = true ∧ a.sampleCreate = true ∧ ∃ status, a.enqueue = .other status

theorem feedFrame_kept {s : Publisher} {frame : Frame} (h : ¬ Refused a frame) (target : UInt64) :
    Untimed s (feedFrame a s frame target) ∧ SameSink s (feedFrame a s frame target) := by
  unfold feedFrame
  split_ifs with hn hc
  · exact ⟨⟨rfl, rfl, rfl, [], by simp, by simp⟩, ⟨rfl, rfl, rfl, rfl, rfl⟩⟩
  · exact ⟨⟨rfl, rfl, rfl, [], by simp, by simp⟩, ⟨rfl, rfl, rfl, rfl, rfl⟩⟩
  · dsimp only
    split
    · -- the queue is full
      refine ⟨Untimed.trans ?_ (setState_untimed ..), SameSink.trans ?_ (setState_same ..)⟩
      · exact ⟨rfl, rfl, rfl, [.sample s.created frame target, .freed s.created, .counted s.created],
          by simp [Publisher.note, countReleased], by simp [Op.isTimer]⟩
      · exact ⟨rfl, rfl, rfl, rfl, rfl⟩
    · next status he => exact absurd ⟨by simpa using hn, by simpa using hc, status, he⟩ h
    · refine ⟨Untimed.trans ?_ (setState_untimed ..), SameSink.trans ?_ (setState_same ..)⟩
      · exact ⟨rfl, rfl, rfl, [.sample s.created frame target, .enqueued s.created],
          by simp [Publisher.note], by simp [Op.isTimer]⟩
      · exact ⟨rfl, rfl, rfl, rfl, rfl⟩

theorem feedFrame_refused {s : Publisher} {frame : Frame} (hc : a.createTimer = true)
    (hf : Feeding s) (h : Refused a frame) (target : UInt64) :
    Retrying (feedFrame a s frame target) ∧ Clean s (feedFrame a s frame target) := by
  obtain ⟨hn, hcreate, status, he⟩ := h
  simp only [feedFrame, hn, hcreate, he, Bool.true_eq_false, if_false]
  set s₁ : Publisher := countReleased { ({ s.note (.sample s.created frame target) with
    created := s.created + 1 } : Publisher).note (.freed s.created) with failed := s.failed + 1 }
    [s.created] with hs₁
  have hu₁ : Untimed s s₁ :=
    ⟨rfl, rfl, rfl, [.sample s.created frame target, .freed s.created, .counted s.created],
      by simp [s₁, Publisher.note, countReleased], by simp [Op.isTimer]⟩
  have hset := setState_untimed s₁ .disconnected ("enqueue failed status=" ++ toString status)
  have hf₁ := (hf.kept hu₁ ⟨rfl, rfl, rfl, rfl, rfl⟩).kept hset (setState_same ..)
  have hret := reconnectSoon_retrying hc hf₁
  exact ⟨hret.1, (hu₁.trans hset).clean.trans hret.2⟩

/-- `rearm` is one `setTimer` of the feed timer there is, or is not. -/
theorem rearm_eq (a : Answers) (s : Publisher) (bursting : Bool) :
    ∃ feedIndex delayNs, rearm a s bursting = { s with
      feedIndex := feedIndex, log := s.log ++ [.armed s.feedTimer delayNs] } := by
  unfold rearm
  split
  · exact ⟨s.feedIndex, kBurstPeriodNs, rfl⟩
  · exact ⟨_, _, rfl⟩

theorem rearm_feeding {s : Publisher} (h : Feeding s) (bursting : Bool) :
    Feeding (rearm a s bursting) ∧ Clean s (rearm a s bursting) := by
  obtain ⟨feedIndex, delayNs, heq⟩ := rearm_eq a s bursting
  obtain ⟨t, ht, hl⟩ := h.timer
  rw [heq]
  refine ⟨⟨h.desired, ⟨t, ht, ?_⟩, h.retryTimer, h.streamStarted, h.named, h.bufferQueue⟩,
    ⟨_, rfl⟩, fun ha => EachAfter.snoc ha ⟨t, ht, by simp [hl]⟩⟩
  rw [live_append, hl]
  rfl

/-- The slip: after the reconnect the feed timer is nil. -/
theorem rearm_retrying {s : Publisher} (h : Retrying s) (bursting : Bool) :
    Retrying (rearm a s bursting) ∧ s.log <+: (rearm a s bursting).log ∧
      ¬ ArmsLive (rearm a s bursting).log := by
  obtain ⟨feedIndex, delayNs, heq⟩ := rearm_eq a s bursting
  obtain ⟨t, ht, hl⟩ := h.timer
  rw [heq]
  refine ⟨⟨h.desired, ⟨t, ht, ?_⟩, h.feedTimer, h.torn.same ⟨rfl, rfl, rfl, rfl, rfl⟩ rfl⟩, ⟨_, rfl⟩, ?_⟩
  · rw [live_append, hl]
    rfl
  · intro ha
    obtain ⟨id, hid, -⟩ := ha s.log (.armed s.feedTimer delayNs) [] rfl
    rw [h.feedTimer] at hid
    cases hid

/-- What an event does to a settled publisher, `fails` being the way to the slip. -/
structure Handled (s s' : Publisher) (fails : Prop) : Prop where
  settled : Settled s'
  grows : s.log <+: s'.log
  clean : ¬ fails → ArmsLive s.log → ArmsLive s'.log
  stray : fails → ¬ ArmsLive s'.log

theorem Handled.of_clean {s s' : Publisher} {fails : Prop} (hs : Settled s') (hc : Clean s s')
    (hf : ¬ fails) : Handled s s' fails := ⟨hs, hc.grows, fun _ => hc.arms, fun h => absurd h hf⟩

theorem Handled.after {s s₁ s' : Publisher} {fails : Prop} (hc : Clean s s₁) (h : Handled s₁ s' fails) :
    Handled s s' fails :=
  ⟨h.settled, hc.grows.trans h.grows, fun hf ha => h.clean hf (hc.arms ha), h.stray⟩

theorem feedPending_handled {s : Publisher} (hc : a.createTimer = true) (h : Feeding s) (bursting : Bool)
    (target : UInt64) : Handled s (feedPending a s bursting target)
      (∃ frame, (chooseFeed a s).1 = some frame ∧ Refused a frame) := by
  have hu := chooseFeed_untimed a s
  have hfeeding := h.kept hu (chooseFeed_same a s)
  unfold feedPending
  generalize chooseFeed a s = choice at hu hfeeding ⊢
  obtain ⟨feed, s₁⟩ := choice
  cases feed with
  | none =>
    have hre := rearm_feeding (a := a) hfeeding bursting
    exact .of_clean (.inr (.inl hre.1)) (hu.clean.trans hre.2) (by simp)
  | some frame =>
    refine Handled.after hu.clean ?_
    dsimp only
    by_cases hr : Refused a frame
    · have hfed := feedFrame_refused hc hfeeding hr target
      have hre := rearm_retrying (a := a) hfed.1 bursting
      refine ⟨.inr (.inr hre.1), hfed.2.grows.trans hre.2.1, ?_, fun _ => hre.2.2⟩
      intro hf
      exact absurd ⟨frame, rfl, hr⟩ hf
    · have hfed := feedFrame_kept (s := s₁) hr target
      have hre := rearm_feeding (a := a) (hfeeding.kept hfed.1 hfed.2) bursting
      refine .of_clean (.inr (.inl hre.1)) (hfed.1.clean.trans hre.2) ?_
      intro hf
      obtain ⟨frame', heq, hr'⟩ := hf
      cases heq
      exact hr hr'

/-- The connection looks broken: frames are queued and none was consumed for 3 s. -/
def Watchdog (a : Answers) (s : Publisher) : Prop :=
  a.queued > 0 ∧ a.now > (syncConsumed a s).lastConsumeNs + kConsumeWatchdogNs

/-- A feed tick on an open sink gets as far as the queue, which refuses the frame. -/
def Fails (s : Publisher) (l : Answers × Event) : Prop :=
  l.2 = .feedTimer ∧ s.feedTimer ≠ none ∧ s.bufferQueue ≠ none ∧
    (l.1.now < s.burstUntilNs ∨ ¬ Watchdog l.1 s) ∧
    ∃ frame, (chooseFeed l.1 s).1 = some frame ∧ Refused l.1 frame

theorem syncConsumed_feedIndex (a : Answers) (s : Publisher) (feedIndex : UInt64) :
    syncConsumed a { s with feedIndex := feedIndex } =
      { syncConsumed a s with feedIndex := feedIndex } := by
  unfold syncConsumed
  dsimp only
  split
  · rfl
  · split <;> rfl

theorem chooseFeed_sync (a : Answers) (s : Publisher) (feedIndex : UInt64) :
    (chooseFeed a { syncConsumed a s with feedIndex := feedIndex }).1 = (chooseFeed a s).1 := by
  have hp : (syncConsumed a s).pending = s.pending ∧
      (syncConsumed a s).pendingPublishNs = s.pendingPublishNs ∧
      (syncConsumed a s).blackFeed = s.blackFeed := by
    unfold syncConsumed
    split
    · exact ⟨rfl, rfl, rfl⟩
    · dsimp only
      split <;> exact ⟨rfl, rfl, rfl⟩
  unfold chooseFeed
  simp only [hp]
  split <;> rfl

theorem feedTick_handled {s : Publisher} (hc : a.createTimer = true) (h : Settled s) :
    Handled s (feedTick a s) (Fails s (a, .feedTimer)) := by
  unfold feedTick
  split
  · next hno =>
    refine .of_clean h (Clean.refl s) ?_
    intro hf
    rcases hno with hno | hno
    · exact hf.2.1 hno
    · exact hf.2.2.1 hno
  · next hopen =>
    rw [not_or] at hopen
    have hf := h.feeding hopen.1
    have hsync := syncConsumed_untimed a s
    have hfed := hf.kept hsync (syncConsumed_same a s)
    dsimp only
    split
    · next hburst =>
      have hp := feedPending_handled hc hfed true a.now
      have hfeed : (chooseFeed a (syncConsumed a s)).1 = (chooseFeed a s).1 :=
        chooseFeed_sync a s (syncConsumed a s).feedIndex
      rw [hfeed] at hp
      have hiff : Fails s (a, .feedTimer) ↔ ∃ frame, (chooseFeed a s).1 = some frame ∧ Refused a frame :=
        ⟨fun hf => hf.2.2.2.2, fun hr => ⟨rfl, hopen.1, hopen.2, .inl hburst, hr⟩⟩
      rw [hiff]
      exact Handled.after hsync.clean hp
    · next hburst =>
      rw [syncConsumed_feedIndex]
      set i : UInt64 := if a.now > s.feedStartNs + s.feedIndex * kPeriodNs + kPeriodNs then
        s.feedIndex + (a.now - (s.feedStartNs + s.feedIndex * kPeriodNs)) / kPeriodNs else s.feedIndex
      have hidx : Untimed (syncConsumed a s) { syncConsumed a s with feedIndex := i } :=
        ⟨rfl, rfl, rfl, [], by simp, by simp⟩
      have hfed' := hfed.kept hidx ⟨rfl, rfl, rfl, rfl, rfl⟩
      have hclean := (hsync.trans hidx).clean
      dsimp only
      split
      · next hwatch =>
        have hset := setState_untimed { syncConsumed a s with feedIndex := i } .disconnected
          "extension stopped consuming (watchdog)"
        have hret := reconnectSoon_retrying hc (hfed'.kept hset (setState_same ..))
        refine .of_clean (.inr (.inr hret.1)) ((hclean.trans hset.clean).trans hret.2) ?_
        intro hf
        rcases hf.2.2.2.1 with hlt | hno
        · exact hburst hlt
        · exact hno hwatch
      · next hwatch =>
        have hp := feedPending_handled hc hfed' false (s.feedStartNs + i * kPeriodNs)
        rw [chooseFeed_sync] at hp
        have hiff : Fails s (a, .feedTimer) ↔
            ∃ frame, (chooseFeed a s).1 = some frame ∧ Refused a frame :=
          ⟨fun hf => hf.2.2.2.2, fun hr => ⟨rfl, hopen.1, hopen.2, .inr hwatch, hr⟩⟩
        rw [hiff]
        exact Handled.after hclean hp

/-! ## Events and runs -/

theorem stop_settled {s : Publisher} (h : Settled s) : Settled (stop s) ∧ Clean s (stop s) := by
  set s₁ : Publisher := { s with desired := false, burstUntilNs := 0 } with hs₁
  have hu₁ : Untimed { s with desired := false } s₁ := ⟨rfl, rfl, rfl, [], by simp [s₁], by simp⟩
  have hclean₁ : Clean s s₁ := ⟨List.prefix_rfl, id⟩
  have hh : Handles s₁ := ⟨h.handles.live, h.handles.one⟩
  set s₂ := cancelRetryTimer (cancelFeedTimer s₁) with hs₂
  have hcl : Cleared (teardown s₂) := teardown_cleared hh.cancelFeed.cancelRetry
    ((Named.same (s := s₁) h.named (cancelFeedTimer_same s₁)).same (cancelRetryTimer_same _))
    (by simp [s₂]) (by simp [s₂])
  have hu := (teardown_untimed s₂).trans (setState_untimed (teardown s₂) .stopped "stopped by request")
  have hset := setState_untimed (teardown s₂) .stopped "stopped by request"
  refine ⟨.inl ⟨⟨hset.feedTimer.trans hcl.feedTimer, hset.retryTimer.trans hcl.retryTimer,
    hset.live.trans hcl.live, hcl.torn.same (setState_same ..) (setState_held ..)⟩, ?_⟩, ?_⟩
  · exact hu.desired.trans (by simp [s₂, s₁])
  · exact ((hclean₁.trans (cancelFeedTimer_clean s₁)).trans (cancelRetryTimer_clean _)).trans hu.clean

theorem runFeedBurst_settled {s : Publisher} (h : Settled s) (durationNs : UInt64) :
    Settled (runFeedBurst a s durationNs) ∧ Clean s (runFeedBurst a s durationNs) := by
  unfold runFeedBurst
  split
  · exact ⟨h, Clean.refl s⟩
  · next hopen =>
    rw [not_or] at hopen
    have hf := h.feeding hopen.1
    obtain ⟨t, ht, hl⟩ := hf.timer
    refine ⟨.inr (.inl ⟨hf.desired, ⟨t, ht, ?_⟩, hf.retryTimer, hf.streamStarted, hf.named,
      hf.bufferQueue⟩), ⟨_, rfl⟩, fun ha => EachAfter.snoc ha ⟨t, ht, by simp [hl]⟩⟩
    simp only [setTimer, Publisher.note, live_append, hl]
    rfl

/-- One event, whatever the system answers. -/
theorem handle_handled {s : Publisher} {l : Answers × Event} (hc : l.1.createTimer = true)
    (h : Settled s) : Handled s (handle s l) (Fails s l) := by
  obtain ⟨a, ev⟩ := l
  have hother : ∀ {s' : Publisher}, ev ≠ .feedTimer → Settled s' ∧ Clean s s' →
      Handled s s' (Fails s (a, ev)) := fun hne hs => .of_clean hs.1 hs.2 fun hf => hne hf.1
  have hreopen : ∀ {s₁ : Publisher}, Handles s₁ → Named s₁ → (s₁.desired = false → Idle s₁) →
      Clean s s₁ → Settled (openSink a s₁) ∧ Clean s (openSink a s₁) := fun hh hn hi hcl =>
    have ho := openSink_settled hc hh hn hi
    ⟨ho.1, hcl.trans ho.2⟩
  cases ev with
  | start =>
    refine hother (by simp) ?_
    simp only [handle, start]
    split
    · exact ⟨h, Clean.refl s⟩
    · exact hreopen ⟨h.handles.live, h.handles.one⟩ h.named (fun hd => by cases hd)
        ⟨List.prefix_rfl, id⟩
  | stop => exact hother (by simp) (stop_settled h)
  | publish frame =>
    refine hother (by simp) ?_
    have hu : Untimed s (publishPixelBuffer a s frame) := ⟨rfl, rfl, rfl, [], by simp [publishPixelBuffer], by simp⟩
    refine ⟨?_, hu.clean⟩
    rcases h with h | h | h
    · exact .inl ⟨⟨h.feedTimer, h.retryTimer, h.live, h.torn.same ⟨rfl, rfl, rfl, rfl, rfl⟩ rfl⟩, h.desired⟩
    · exact .inr (.inl (h.kept hu ⟨rfl, rfl, rfl, rfl, rfl⟩))
    · exact .inr (.inr ⟨h.desired, h.timer, h.feedTimer, h.torn.same ⟨rfl, rfl, rfl, rfl, rfl⟩ rfl⟩)
  | burst durationNs => exact hother (by simp) (runFeedBurst_settled h durationNs)
  | feedTimer => exact feedTick_handled hc h
  | retryTimer =>
    refine hother (by simp) (hreopen h.handles.cancelRetry (h.named.same (cancelRetryTimer_same s))
      ?_ (cancelRetryTimer_clean s))
    intro hd
    have hi := h.idle (by simpa using hd)
    simpa [cancelRetryTimer, hi.retryTimer] using hi
  | reopen => exact hother (by simp) (hreopen h.handles h.named h.idle (Clean.refl s))

theorem init_settled : Settled {} := .inl ⟨⟨rfl, rfl, rfl, ⟨rfl, rfl, rfl, rfl⟩⟩, rfl⟩

/-- The publisher after the events `ls`. -/
def after (ls : List (Answers × Event)) : Publisher := ls.foldl handle {}

theorem after_snoc (ls : List (Answers × Event)) (l : Answers × Event) :
    after (ls ++ [l]) = handle (after ls) l := by
  simp [after]

theorem after_settled {ls : List (Answers × Event)} (hc : ∀ l ∈ ls, l.1.createTimer = true) :
    Settled (after ls) := by
  induction ls using List.reverseRecOn with
  | nil => exact init_settled
  | append_singleton ls l ih =>
    rw [after_snoc]
    exact (handle_handled (hc l (by simp)) (ih fun x hx => hc x (by simp [hx]))).settled

theorem after_arms {ls : List (Answers × Event)} (hc : ∀ l ∈ ls, l.1.createTimer = true) :
    ArmsLive (after ls).log ↔ EachAfter (fun pre l => ¬ Fails (after pre) l) ls := by
  induction ls using List.reverseRecOn with
  | nil => exact ⟨fun _ => eachAfter_nil _, fun _ => eachAfter_nil _⟩
  | append_singleton ls l ih =>
    have hc' : ∀ x ∈ ls, x.1.createTimer = true := fun x hx => hc x (by simp [hx])
    have hstep := handle_handled (hc l (by simp)) (after_settled hc')
    rw [after_snoc]
    constructor
    · intro ha
      obtain ⟨ops, hops⟩ := hstep.grows
      refine EachAfter.snoc ((ih hc').1 ?_) fun hf => hstep.stray hf ha
      rw [← hops] at ha
      exact ha.left
    · intro he
      exact hstep.clean (he ls l [] rfl) ((ih hc').2 he.left)

/-- After every event the publisher is settled, and no timer but a live one is
ever armed, if and only if no feed tick has its enqueue fail. -/
theorem timers_settled (ls : List (Answers × Event)) (hc : ∀ l ∈ ls, l.1.createTimer = true) :
    ((∀ pre, pre <+: ls → Settled (after pre)) ∧ ArmsLive (after ls).log) ↔
      EachAfter (fun pre l => ¬ Fails (after pre) l) ls := by
  rw [← after_arms hc]
  refine ⟨And.right, fun ha => ⟨fun pre hpre => after_settled fun l hl => hc l ?_, ha⟩⟩
  exact hpre.subset hl

/-- The sink is found and opens. -/
def opening : Answers where
  devicesSize := some 4
  devices := some [(⟨40, by decide⟩, some kKMDeviceIDString)]
  streamsSize := some 8
  streams := some [(⟨41, by decide⟩, some 1), (⟨42, by decide⟩, some 0)]
  copyBufferQueue := (0, some 1)
  queueCapacity := 30

/-- A black frame is made and enqueued. -/
def accepting : Answers := { makeBlack720p := some 7 }

/-- The queue is not what it was: `kCMSimpleQueueError_ParameterOutOfRange`. -/
def refusing : Answers := { makeBlack720p := some 7, enqueue := .other (-12772) }

theorem timers_settled_accepted :
    (∀ pre, pre <+: [(opening, .start), (accepting, .feedTimer), (accepting, .stop)] → Settled (after pre)) ∧
      ArmsLive (after [(opening, .start), (accepting, .feedTimer), (accepting, .stop)]).log := by
  refine (timers_settled _ (by simp [opening, accepting])).2 fun pre l post heq hf => ?_
  obtain ⟨-, -, -, -, frame, -, -, -, status, he⟩ := hf
  have hl : l ∈ [(opening, .start), (accepting, .feedTimer), (accepting, .stop)] := by rw [heq]; simp
  have hok : l.1.enqueue = .noErr := by
    simp only [List.mem_cons, List.not_mem_nil, or_false] at hl
    rcases hl with rfl | rfl | rfl <;> rfl
  rw [hok] at he
  cases he

/-- The first frame is refused: the feed timer is cleared and then armed. -/
theorem enqueue_failed : ¬ ∀ ls : List (Answers × Event), (∀ l ∈ ls, l.1.createTimer = true) →
    (∀ pre, pre <+: ls → Settled (after pre)) ∧ ArmsLive (after ls).log := by
  intro h
  have hc : ∀ l ∈ [(opening, Event.start), (refusing, .feedTimer)], l.1.createTimer = true := by
    simp [opening, refusing]
  have harms := (after_arms hc).1 (h _ hc).2
  refine harms [(opening, .start)] (refusing, .feedTimer) [] rfl ?_
  have hfeed : (after [(opening, .start)]).feedTimer = some 0 := by decide +kernel
  have hqueue : (after [(opening, .start)]).bufferQueue = some 1 := by decide +kernel
  have hframe : (chooseFeed refusing (after [(opening, .start)])).1 = some 7 := by decide +kernel
  refine ⟨rfl, by simp [hfeed], by simp [hqueue], .inr fun hw => ?_, 7, hframe, rfl, rfl, -12772, rfl⟩
  exact absurd hw.1 (by simp [refusing])

end KmVirtualCamera.L4.SinkPublisher
