import Mathlib
import KmVirtualCamera.L4App.SinkPublisher

/-!
# The samples of the sink publisher

A sample the publisher creates is its own until the enqueue is answered: an
enqueue that is taken hands it to the framework and leaves a borrowed pointer in
`_held`, one that is refused makes the publisher release it. `_released` counts
both, the second at once and the first when the extension has consumed the
sample or the sink is torn down.

`Books` is that account kept apart from everything else, with five entries to
make: `settle`, `enter`, `refuse`, `shut` and `unlock`. `Sound` is what every
entry keeps.

* `handle_moves`: an event of the publisher is a list of such entries, and one
  that shuts an open queue leaves nothing held.
* `sample_accounting`: the counters after every event.
-/
namespace KmVirtualCamera.L4.SinkPublisher

/-! ## The account -/

structure Books where
  created : Nat
  released : Nat
  held : List Sample
  /-- the samples created, taken by the queue, released by the publisher and
  counted as released, oldest first -/
  made : List Sample
  entered : List Sample
  freed : List Sample
  counted : List Sample
  opened : Bool
  /-- how often an open queue was given up -/
  closed : Nat

namespace Books

/-- The `n` oldest samples of the queue are gone. -/
def settle (b : Books) (n : Nat) : Books :=
  { b with
    released := b.released + (b.held.take n).length
    held := b.held.drop n
    counted := b.counted ++ b.held.take n }

/-- A new sample enters the queue. -/
def enter (b : Books) : Books :=
  { b with
    created := b.created + 1
    held := b.held ++ [b.created]
    made := b.made ++ [b.created]
    entered := b.entered ++ [b.created] }

/-- A new sample is refused and released. -/
def refuse (b : Books) : Books :=
  { b with
    created := b.created + 1
    released := b.released + 1
    made := b.made ++ [b.created]
    freed := b.freed ++ [b.created]
    counted := b.counted ++ [b.created] }

/-- The queue is given up, with what is in it. -/
def shut (b : Books) : Books :=
  { b with
    released := b.released + b.held.length
    held := []
    counted := b.counted ++ b.held
    opened := false
    closed := b.closed + b.opened.toNat }

inductive Step : Books → Books → Prop
  | settle (b : Books) (n : Nat) : Step b (b.settle n)
  | enter (b : Books) (ho : b.opened = true) : Step b b.enter
  | refuse (b : Books) : Step b b.refuse
  | shut (b : Books) : Step b b.shut
  | unlock (b : Books) (hh : b.held = []) : Step b { b with opened := true }

abbrev Steps : Books → Books → Prop := Relation.ReflTransGen Step

structure Sound (b : Books) : Prop where
  balance : b.created = b.released + b.held.length
  made : b.made = List.range b.created
  counted : (b.counted ++ b.held).Perm (List.range b.created)
  order : b.held <:+ b.entered
  parted : (b.freed ++ b.entered).Perm (List.range b.created)
  open_ : b.opened = false → b.held = []

theorem Sound.settle {b : Books} (h : b.Sound) (n : Nat) : (b.settle n).Sound where
  balance := by
    have hlen : (b.held.take n).length + (b.held.drop n).length = b.held.length := by
      rw [← List.length_append, List.take_append_drop]
    have := h.balance
    simp only [Books.settle]
    omega
  made := h.made
  counted := by
    have hc : b.counted ++ b.held.take n ++ b.held.drop n = b.counted ++ b.held := by
      rw [List.append_assoc, List.take_append_drop]
    simpa only [Books.settle, hc] using h.counted
  order := (List.drop_suffix n b.held).trans h.order
  parted := h.parted
  open_ ho := by simp [Books.settle, h.open_ ho]

theorem Sound.enter {b : Books} (h : b.Sound) (ho : b.opened = true) : b.enter.Sound where
  balance := by
    have := h.balance
    simp only [Books.enter, List.length_append, List.length_singleton]
    omega
  made := by simp only [Books.enter, h.made, List.range_succ]
  counted := by
    simp only [Books.enter, List.range_succ, ← List.append_assoc]
    exact h.counted.append_right _
  order := by
    obtain ⟨gone, hg⟩ := h.order
    exact ⟨gone, by simp only [Books.enter, ← hg, List.append_assoc]⟩
  parted := by
    simp only [Books.enter, List.range_succ, ← List.append_assoc]
    exact h.parted.append_right _
  open_ hc := by simp [Books.enter, ho] at hc

theorem Sound.refuse {b : Books} (h : b.Sound) : b.refuse.Sound where
  balance := by
    have := h.balance
    simp only [Books.refuse]
    omega
  made := by simp only [Books.refuse, h.made, List.range_succ]
  counted := by
    simp only [Books.refuse, List.range_succ]
    -- the refused sample is counted before those still held
    have hswap : (b.counted ++ [b.created] ++ b.held).Perm (b.counted ++ b.held ++ [b.created]) := by
      rw [List.append_assoc, List.append_assoc]
      exact List.perm_append_comm.append_left _
    exact hswap.trans (h.counted.append_right _)
  order := h.order
  parted := by
    simp only [Books.refuse, List.range_succ]
    have hswap : (b.freed ++ [b.created] ++ b.entered).Perm (b.freed ++ b.entered ++ [b.created]) := by
      rw [List.append_assoc, List.append_assoc]
      exact List.perm_append_comm.append_left _
    exact hswap.trans (h.parted.append_right _)
  open_ := h.open_

theorem Sound.shut {b : Books} (h : b.Sound) : b.shut.Sound where
  balance := by simpa [Books.shut] using h.balance
  made := h.made
  counted := by simpa [Books.shut] using h.counted
  order := List.nil_suffix
  parted := h.parted
  open_ _ := rfl

theorem Sound.step {b b' : Books} (h : b.Sound) (hs : Step b b') : b'.Sound := by
  cases hs with
  | settle n => exact h.settle n
  | enter ho => exact h.enter ho
  | refuse => exact h.refuse
  | shut => exact h.shut
  | unlock hh =>
    refine ⟨h.balance, h.made, h.counted, h.order, h.parted, ?_⟩
    intro ho
    cases ho

theorem Sound.steps {b b' : Books} (h : b.Sound) (hs : Steps b b') : b'.Sound := by
  induction hs with
  | refl => exact h
  | tail _ hstep ih => exact ih.step hstep

/-- With nothing held, everything created has been counted. -/
theorem Sound.even {b : Books} (h : b.Sound) (hh : b.held = []) : b.created = b.released := by
  simpa [hh] using h.balance

/-- A sample is counted once it is no longer held, and only once. -/
theorem Sound.count {b : Books} (h : b.Sound) (x : Sample) :
    b.counted.count x = if x < b.created ∧ x ∉ b.held then 1 else 0 := by
  have hsum : b.counted.count x + b.held.count x = if x < b.created then 1 else 0 := by
    rw [← List.count_append, h.counted.count_eq, List.nodup_range.count]
    simp only [List.mem_range]
  by_cases hm : x ∈ b.held
  · have hpos := List.count_pos_iff.2 hm
    have hle : (if x < b.created then 1 else 0) ≤ 1 := by split <;> omega
    rw [if_neg (fun h => h.2 hm)]
    omega
  · rw [List.count_eq_zero_of_not_mem hm, Nat.add_zero] at hsum
    simp only [hsum, hm, not_false_eq_true, and_true]

theorem Sound.apart {b : Books} (h : b.Sound) : (b.freed ++ b.entered).Nodup :=
  h.parted.nodup_iff.2 List.nodup_range

end Books

/-! ## What the publisher enters -/

inductive Entry where
  | made | entered | freed | counted

def Op.entry : Entry → Op → Option Sample
  | .made, .sample x _ _ => some x
  | .entered, .enqueued x => some x
  | .freed, .freed x => some x
  | .counted, .counted x => some x
  | _, _ => none

/-- The samples of one kind of entry, oldest first. -/
def entries (e : Entry) (log : List Op) : List Sample := log.filterMap (Op.entry e)

def Op.closes : Op → Bool
  | .releaseQueue _ => true
  | _ => false

def books (s : Publisher) : Books where
  created := s.created
  released := s.released
  held := s.held
  made := entries .made s.log
  entered := entries .entered s.log
  freed := entries .freed s.log
  counted := entries .counted s.log
  opened := s.bufferQueue.isSome
  closed := s.log.countP Op.closes

@[simp] theorem entries_append (e : Entry) (log ops : List Op) :
    entries e (log ++ ops) = entries e log ++ entries e ops :=
  List.filterMap_append

@[simp] theorem entries_nil (e : Entry) : entries e [] = [] := rfl

@[simp] theorem entries_cons (e : Entry) (op : Op) (log : List Op) :
    entries e (op :: log) = (op.entry e).toList ++ entries e log := by
  cases h : op.entry e with
  | none => simp [entries, h]
  | some x => simp [entries, h]

theorem entries_counted (e : Entry) (samples : List Sample) :
    entries e (samples.map Op.counted) = match e with | .counted => samples | _ => [] := by
  induction samples with
  | nil => cases e <;> rfl
  | cons x xs ih =>
    rw [List.map_cons, entries_cons, ih]
    cases e <;> rfl

/-- Nothing the account keeps. -/
structure Op.Silent (op : Op) : Prop where
  entry : ∀ e, op.entry e = none
  closes : op.closes = false

theorem books_note {op : Op} (h : op.Silent) (s : Publisher) : books (s.note op) = books s := by
  simp [books, Publisher.note, h.entry, h.closes]

theorem silent_armed (t : Option Timer) (delayNs : UInt64) : (Op.armed t delayNs).Silent :=
  ⟨fun e => by cases e <;> rfl, rfl⟩

theorem silent_created (t : Timer) : (Op.created t).Silent := ⟨fun e => by cases e <;> rfl, rfl⟩

theorem silent_canceled (t : Timer) : (Op.canceled t).Silent := ⟨fun e => by cases e <;> rfl, rfl⟩

theorem silent_notified (state : KMSinkPublisherState) (detail : String) :
    (Op.notified state detail).Silent :=
  ⟨fun e => by cases e <;> rfl, rfl⟩

theorem silent_startStream (d t : UInt32) : (Op.startStream d t).Silent :=
  ⟨fun e => by cases e <;> rfl, rfl⟩

theorem silent_stopStream (d t : UInt32) : (Op.stopStream d t).Silent :=
  ⟨fun e => by cases e <;> rfl, rfl⟩

/-! ## Calls that leave the account alone -/

@[simp] theorem books_setState (s : Publisher) (state : KMSinkPublisherState) (detail : String) :
    books (setState s state detail) = books s := by
  unfold setState
  split
  · rfl
  · exact books_note (silent_notified state detail) s

@[simp] theorem books_setTimer (s : Publisher) (t : Option Timer) (delayNs : UInt64) :
    books (setTimer s t delayNs) = books s :=
  books_note (silent_armed t delayNs) s

theorem books_createTimer (a : Answers) (s : Publisher) : books (createTimer a s).2 = books s := by
  unfold createTimer
  split
  · exact books_note (silent_created s.timers) s
  · rfl

@[simp] theorem books_startFeedTimer (a : Answers) (s : Publisher) :
    books (startFeedTimer a s) = books s := by
  have h := books_createTimer a s
  simp only [startFeedTimer]
  split
  · exact h
  · rw [books_setTimer]
    exact h

@[simp] theorem books_cancelFeedTimer (s : Publisher) : books (cancelFeedTimer s) = books s := by
  unfold cancelFeedTimer
  split
  · rfl
  · rename_i t _
    exact books_note (silent_canceled t) s

@[simp] theorem books_cancelRetryTimer (s : Publisher) : books (cancelRetryTimer s) = books s := by
  unfold cancelRetryTimer
  split
  · rfl
  · rename_i t _
    exact books_note (silent_canceled t) s

@[simp] theorem books_scheduleRetry (a : Answers) (s : Publisher) :
    books (scheduleRetry a s) = books s := by
  have h := books_createTimer a s
  simp only [scheduleRetry]
  split
  · rfl
  · split
    · exact h
    · rw [books_setTimer]
      exact h

theorem books_stopStream (s : Publisher) : books (stopStream s) = books s := by
  unfold stopStream
  split
  · exact books_note (silent_stopStream s.deviceID s.streamID) s
  · rfl

@[simp] theorem books_locateSink (a : Answers) (s : Publisher) : books (locateSink a s).2 = books s := by
  unfold locateSink
  split
  · exact books_setState _ _ _
  · dsimp only
    split
    · exact books_setState _ _ _
    · split
      · exact books_setState _ _ _
      · split
        · exact books_setState _ _ _
        · rfl

theorem books_feedIndex (s : Publisher) (i : UInt64) : books { s with feedIndex := i } = books s := rfl

theorem books_started (s : Publisher) (now i : UInt64) :
    books { s with streamStarted := true, feedStartNs := now, feedIndex := i, lastConsumeNs := now } =
      books s :=
  rfl

@[simp] theorem books_rearm (a : Answers) (s : Publisher) (bursting : Bool) :
    books (rearm a s bursting) = books s := by
  unfold rearm
  split
  · exact books_setTimer _ _ _
  · rw [books_setTimer]
    exact books_feedIndex s _

theorem books_chooseFeed (a : Answers) (s : Publisher) : books (chooseFeed a s).2 = books s := by
  unfold chooseFeed
  split
  · rfl
  · rfl

/-! ## Calls that enter something -/

/-- The account goes on by its entries, and ends with nothing held if an open
queue was given up. -/
structure Books.Moves (b b' : Books) : Prop where
  steps : b.Steps b'
  closed : b'.closed = b.closed ∨ b'.held = []

theorem Books.Moves.refl (b : Books) : b.Moves b := ⟨.refl, .inl rfl⟩

/-- Entries that give up no queue, before others. -/
theorem Books.Moves.after {a b c : Books} (hs : a.Steps b) (hc : b.closed = a.closed)
    (h : b.Moves c) : a.Moves c :=
  ⟨hs.trans h.steps, h.closed.imp_left fun hcl => hcl.trans hc⟩

theorem Books.Moves.shut {a b : Books} (hs : a.Steps b) : a.Moves b.shut :=
  ⟨hs.tail (.shut b), .inr rfl⟩

theorem books_dropQueue (s : Publisher) : books (dropQueue s) =
    { books s with
      opened := false
      closed := (books s).closed + (books s).opened.toNat } := by
  unfold dropQueue
  split
  · rename_i queue hq
    simp [books, Publisher.note, Op.entry, Op.closes, hq]
  · rename_i hq
    simp [books, hq]

theorem books_countReleased (s : Publisher) (samples : List Sample) :
    books (countReleased s samples) =
      { books s with
        released := (books s).released + samples.length
        counted := (books s).counted ++ samples } := by
  simp [books, countReleased, entries_counted, Op.closes]

theorem books_teardown (s : Publisher) : books (teardown s) = (books s).shut := by
  have hd : books (dropQueue (stopStream s)) = _ := books_dropQueue (stopStream s)
  rw [books_stopStream] at hd
  have ht : books (teardown s) =
      { books (countReleased (dropQueue (stopStream s)) (dropQueue (stopStream s)).held) with
        held := [] } := rfl
  have hh : (dropQueue (stopStream s)).held = (books s).held := congrArg Books.held hd
  rw [ht, books_countReleased, hd, hh]
  rfl

theorem books_reconnectSoon (a : Answers) (s : Publisher) :
    books (reconnectSoon a s) = (books s).shut := by
  rw [reconnectSoon, books_scheduleRetry, books_teardown, books_cancelFeedTimer]

theorem books_syncConsumed (a : Answers) (s : Publisher) :
    books (syncConsumed a s) = books s ∨ ∃ n, books (syncConsumed a s) = (books s).settle n := by
  unfold syncConsumed
  split
  · exact .inl rfl
  · refine .inr ⟨s.held.length - a.inQueue, ?_⟩
    have hc := books_countReleased s (s.held.take (s.held.length - a.inQueue))
    have hb : books { countReleased s (s.held.take (s.held.length - a.inQueue)) with
        held := s.held.drop (s.held.length - a.inQueue) } =
          (books s).settle (s.held.length - a.inQueue) :=
      congrArg (fun b : Books => { b with held := s.held.drop (s.held.length - a.inQueue) }) hc
    dsimp only
    split
    · exact hb
    · exact hb

theorem syncConsumed_steps (a : Answers) (s : Publisher) :
    (books s).Steps (books (syncConsumed a s)) ∧
      (books (syncConsumed a s)).closed = (books s).closed ∧
      (books (syncConsumed a s)).opened = (books s).opened := by
  rcases books_syncConsumed a s with h | ⟨n, h⟩
  · rw [h]
    exact ⟨.refl, rfl, rfl⟩
  · rw [h]
    exact ⟨.single (.settle _ n), rfl, rfl⟩

/-- The five exits of `feedFrame`, the first two leaving no sample. -/
theorem books_feedFrame (a : Answers) (s : Publisher) (frame : Frame) (target : UInt64) :
    books (feedFrame a s frame target) = books s ∨
      books (feedFrame a s frame target) = (books s).refuse ∨
      books (feedFrame a s frame target) = (books s).refuse.shut ∨
      books (feedFrame a s frame target) = (books s).enter := by
  unfold feedFrame
  split
  · exact .inl rfl
  · split
    · exact .inl rfl
    · dsimp only
      cases a.enqueue with
      | queueIsFull =>
        refine .inr (.inl ?_)
        dsimp only
        rw [books_setState, books_countReleased]
        simp [books, Publisher.note, Op.entry, Op.closes, Books.refuse]
      | other status =>
        refine .inr (.inr (.inl ?_))
        dsimp only
        rw [books_reconnectSoon, books_setState, books_countReleased]
        simp [books, Publisher.note, Op.entry, Op.closes, Books.refuse]
      | noErr =>
        refine .inr (.inr (.inr ?_))
        dsimp only
        rw [books_setState]
        simp [books, Publisher.note, Op.entry, Op.closes, Books.enter]

theorem feedFrame_moves {s : Publisher} (ho : (books s).opened = true) (a : Answers) (frame : Frame)
    (target : UInt64) : (books s).Moves (books (feedFrame a s frame target)) := by
  have hrefuse : (books s).Steps (books s).refuse := .single (.refuse _)
  rcases books_feedFrame a s frame target with h | h | h | h
  · exact h ▸ .refl _
  · exact h ▸ ⟨hrefuse, .inl rfl⟩
  · exact h ▸ .shut hrefuse
  · exact h ▸ ⟨.single (.enter _ ho), .inl rfl⟩

theorem feedPending_moves {s : Publisher} (ho : (books s).opened = true) (a : Answers)
    (bursting : Bool) (target : UInt64) :
    (books s).Moves (books (feedPending a s bursting target)) := by
  have hc := books_chooseFeed a s
  unfold feedPending
  generalize chooseFeed a s = c at hc
  obtain ⟨feed, s'⟩ := c
  rw [← hc] at ho ⊢
  cases feed with
  | none =>
    rw [books_rearm]
    exact .refl _
  | some frame =>
    rw [books_rearm]
    exact feedFrame_moves ho a frame target

theorem feedTick_moves (a : Answers) (s : Publisher) : (books s).Moves (books (feedTick a s)) := by
  unfold feedTick
  split
  · exact .refl _
  · rename_i hopen
    rw [not_or] at hopen
    have ho : (books s).opened = true := Option.isSome_iff_ne_none.2 hopen.2
    split
    · obtain ⟨hs, hc, hk⟩ := syncConsumed_steps a s
      exact .after hs hc (feedPending_moves (hk.trans ho) a _ _)
    · dsimp only
      set i : UInt64 := if a.now > s.feedStartNs + s.feedIndex * kPeriodNs + kPeriodNs then
        s.feedIndex + (a.now - (s.feedStartNs + s.feedIndex * kPeriodNs)) / kPeriodNs else s.feedIndex
      clear_value i
      have hi := books_feedIndex s i
      obtain ⟨hs, hc, hk⟩ := syncConsumed_steps a { s with feedIndex := i }
      refine hi ▸ .after hs hc ?_
      split
      · rw [books_reconnectSoon, books_setState]
        exact .shut .refl
      · exact feedPending_moves (hk.trans ho) a _ _

/-- The account goes on to one with nothing held. -/
structure Books.Clears (b b' : Books) : Prop where
  steps : b.Steps b'
  held : b'.held = []

theorem Books.Clears.shut {b b' : Books} (h : b.Clears b') : b.Clears b'.shut :=
  ⟨h.steps.tail (.shut b'), rfl⟩

theorem Books.Clears.moves {b b' : Books} (h : b.Clears b') : b.Moves b' := ⟨h.steps, .inr h.held⟩

/-- A queue is opened, or none comes back. -/
theorem Books.Clears.queue {b : Books} {s : Publisher} (h : b.Clears (books s))
    (hc : s.bufferQueue = none) (queue : Option Nat) :
    b.Clears (books { s with bufferQueue := queue }) := by
  cases queue with
  | none =>
    have hb : books { s with bufferQueue := none } = books s := by simp [books, hc]
    exact hb ▸ h
  | some q => exact ⟨h.steps.tail (.unlock (books s) h.held), h.held⟩

theorem openSink_clears {a : Answers} {s : Publisher} (hd : s.desired = true) :
    (books s).Clears (books (openSink a s)) := by
  have hopening : ∀ detail, books (setState (teardown (cancelFeedTimer (cancelRetryTimer s))) .opening
      detail) = (books s).shut := by
    intro detail
    rw [books_setState, books_teardown, books_cancelFeedTimer, books_cancelRetryTimer]
  have hshut : (books s).Clears (books s).shut := ⟨.single (.shut _), rfl⟩
  unfold openSink
  rw [if_neg (by simp [hd])]
  dsimp only
  generalize hs₁ : setState (teardown (cancelFeedTimer (cancelRetryTimer s))) .opening _ = s₁
  have hb₁ : books s₁ = (books s).shut := hs₁ ▸ hopening _
  have hl := (books_locateSink a s₁).trans hb₁
  generalize locateSink a s₁ = located at hl
  obtain ⟨found, s₂⟩ := located
  cases found with
  | false =>
    dsimp only
    rw [books_scheduleRetry, hl]
    exact hshut
  | true =>
    dsimp only
    have hopened : s₂.bufferQueue.isSome = false := congrArg Books.opened hl
    have hnone : s₂.bufferQueue = none := by simpa using hopened
    have hq := Books.Clears.queue (b := books s) (s := s₂) (hl ▸ hshut) hnone a.copyBufferQueue.2
    have hwith : ∀ f, (books s).Clears
        (books { s₂ with bufferQueue := a.copyBufferQueue.2, format := f }) := fun f => hq
    split_ifs with hcopy hformat hstart
    · rw [books_scheduleRetry, books_teardown, books_setState]
      exact hq.shut
    · rw [books_scheduleRetry, books_teardown, books_setState]
      exact (hwith a.format).shut
    · rw [books_scheduleRetry, books_teardown, books_setState, books_note (silent_startStream _ _)]
      exact (hwith a.format).shut
    · rw [books_setState, books_startFeedTimer]
      have hnote := books_note (silent_startStream s₂.deviceID s₂.streamID)
        { s₂ with bufferQueue := a.copyBufferQueue.2, format := a.format }
      exact (books_started _ a.now 1).trans hnote ▸ hwith a.format

theorem openSink_moves (a : Answers) (s : Publisher) : (books s).Moves (books (openSink a s)) := by
  by_cases hd : s.desired = true
  · exact (openSink_clears hd).moves
  · have hopen : openSink a s = s := by simp [openSink, hd]
    rw [hopen]
    exact .refl _

theorem handle_moves (s : Publisher) (l : Answers × Event) :
    (books s).Moves (books (handle s l)) := by
  obtain ⟨a, event⟩ := l
  cases event with
  | start =>
    unfold handle start
    dsimp only
    split
    · exact .refl _
    · exact openSink_moves a { s with desired := true }
  | stop =>
    have hb : books (stop s) = (books s).shut := by
      rw [stop, books_setState, books_teardown, books_cancelRetryTimer, books_cancelFeedTimer]
      rfl
    exact hb ▸ .shut .refl
  | publish frame => exact .refl _
  | burst durationNs =>
    unfold handle runFeedBurst
    dsimp only
    split
    · exact .refl _
    · rw [books_setTimer]
      exact .refl _
  | feedTimer => exact feedTick_moves a s
  | retryTimer =>
    have hm := openSink_moves a (cancelRetryTimer s)
    rw [books_cancelRetryTimer] at hm
    exact hm
  | reopen => exact openSink_moves a s

theorem handles_steps (s : Publisher) (ls : List (Answers × Event)) :
    (books s).Steps (books (ls.foldl handle s)) := by
  induction ls generalizing s with
  | nil => exact .refl
  | cons l ls ih => exact (handle_moves s l).steps.trans (ih (handle s l))

theorem sound_start : (books {}).Sound :=
  ⟨rfl, rfl, .refl _, List.suffix_rfl, .refl _, fun _ => rfl⟩

/-! ## The counters -/

/-- What the counters and the log say of each other. -/
structure Accounted (s : Publisher) : Prop where
  balance : s.created = s.released + s.held.length
  made : entries .made s.log = List.range s.created
  /-- a sample created is counted once, when it is no longer held -/
  counted : ∀ x, (entries .counted s.log).count x = if x < s.created ∧ x ∉ s.held then 1 else 0
  order : s.held <:+ entries .entered s.log
  /-- the publisher releases no sample that has entered, and none twice -/
  freed : (entries .freed s.log ++ entries .entered s.log).Nodup
  closed : s.bufferQueue = none → s.created = s.released

theorem sound_accounted {s : Publisher} (h : (books s).Sound) : Accounted s where
  balance := h.balance
  made := h.made
  counted := h.count
  order := h.order
  freed := h.apart
  closed hq := h.even (h.open_ (by simp [books, hq]))

/-- Whatever happens and whatever the system answers, the counters agree with
what is held, each sample is counted once, the samples held are the last that
entered, in order, the publisher releases none of those that entered, and a
teardown leaves as many released as created. -/
theorem sample_accounting (ls : List (Answers × Event)) (l : Answers × Event) :
    Accounted (ls.foldl handle {}) ∧
      (teardown (ls.foldl handle {})).created = (teardown (ls.foldl handle {})).released ∧
      ((handle (ls.foldl handle {}) l).log.countP Op.closes ≠
          (ls.foldl handle {}).log.countP Op.closes →
        (handle (ls.foldl handle {}) l).created = (handle (ls.foldl handle {}) l).released) := by
  set s := ls.foldl handle {}
  have hs : (books s).Sound := sound_start.steps (handles_steps {} ls)
  have ht : (books (teardown s)).Sound := books_teardown s ▸ hs.shut
  have hm := handle_moves s l
  refine ⟨sound_accounted hs, ht.even (by rw [books_teardown]; rfl), fun hclosed => ?_⟩
  exact (hs.steps hm.steps).even (hm.closed.resolve_left hclosed)

end KmVirtualCamera.L4.SinkPublisher
