import Mathlib
import KmVirtualCamera.Core.LTS
import KmVirtualCamera.L2Machine.VideoQueue
import KmVirtualCamera.L5Concurrency.WindowsReceiver

/-!
# Work posted to the UI thread (`AppController::PostUi`)

The threads of a session and the video worker do not touch the window: they post
work, and the UI thread runs it from its message loop. A call of `PostUi` is
four steps, any number of calls are under way at once, and the UI thread goes
its own way between them: it dispatches, replaces the session, shuts down.

The threads of a session are its signaling thread and the callbacks behind the
gate. `join` and `closeAndWait` return when none of them is in `PostUi`, and no
other is started before the session is replaced; the video worker is joined at
the end. What `run` does is kept as it is. `log` is not in the code. Running out
of memory between the count and the post is left out.

* `posts_bounded`: the count, and what is ever waiting.
* `runs_current`: the order work is handled in, and which of it is run.
* `shutdown_ends`: what is left after `Shutdown`, and that it gets there.
-/
namespace KmVirtualCamera.L5.UiPosts
open KmVirtualCamera.L2 KmVirtualCamera.L5.WindowsReceiver

variable {W : Type}

/-- mirrors windows/receiver/app/app_controller.h:30 -/
structure UiWork (W : Type) where
  generation : UInt64
  run : W
  deriving DecidableEq

/-- Where a call of `PostUi` is: past the first test; counted, with 128 before
it; counted, and about to post; refused by `PostMessageW`. -/
inductive Stage where
  | accepted | full | counted | failed
  deriving DecidableEq

structure Post (W : Type) where
  work : UiWork W
  fromSession : Bool
  stage : Stage
  deriving DecidableEq

/-- Where the UI thread is: in the message loop; in `StartNewSignalingSession`
before the threads are joined; in `Shutdown` before the session's threads are
joined, before the workers are, and while it empties the queue; past it. -/
inductive Ui where
  | loop | starting | stopping | closed | draining | gone
  deriving DecidableEq

inductive Event (W : Type) where
  | posted (work : UiWork W)
  | ran (work : UiWork W)
  | skipped (work : UiWork W)
  | deleted (work : UiWork W)
  | restarted
  | stopping
  deriving DecidableEq

/-- mirrors windows/receiver/app/app_controller.h:48-53. `session`: what the
threads of the session were given; `posts`: the calls under way; `messages`: the
`kUiWorkMessage`s of the thread's queue. `queuedUi` is a `std::atomic<unsigned>`;
by `posts_bounded` it is never negative and passes 128 by one for each call that
is turned back, so it could wrap around only with 2^32 - 128 of these at once. -/
structure Controller (W : Type) where
  queue : VideoQueue.Queue := {}
  ui : Ui := .starting
  session : Option UInt64 := none
  acceptingUi : Bool := true
  queuedUi : Int := 0
  posts : List (Post W) := []
  messages : List (UiWork W) := []
  log : List (Event W) := []

inductive Label (W : Type) where
  | post (fromSession : Bool) (run : W)
  | count (p : Post W)
  | send (p : Post W) (delivered : Bool)
  | undo (p : Post W)
  | media (op : VideoQueue.Op)
  | dispatch
  | start
  | restart
  | shutdown
  | close
  | join
  | drain
  | destroy

def Ui.workers : Ui → Bool
  | .draining => false
  | .gone => false
  | _ => true

/-- The generation a call passes, if the thread is there to make it. -/
def Controller.stamp (s : Controller W) (fromSession : Bool) : Option UInt64 :=
  if fromSession then s.session else if s.ui.workers then some 0 else none

/-- mirrors windows/receiver/app/app_controller.cpp:31-33 -/
def Controller.current (s : Controller W) (work : UiWork W) : Bool :=
  s.acceptingUi && (work.generation == 0 || work.generation == s.queue.generation)

variable [DecidableEq W]

/-- A call goes on, or returns. -/
def Controller.goOn (s : Controller W) (p : Post W) (stages : List Stage) : Controller W :=
  { s with posts := stages.map (fun t => { p with stage := t }) ++ s.posts.erase p }

/-- `none`: not now.
mirrors windows/receiver/app/app_controller.cpp:14-36,113-123,310-348 -/
def next (s : Controller W) : Label W → Option (Controller W)
  | .post fromSession run =>
    if s.acceptingUi then
      (s.stamp fromSession).map fun g => { s with posts := ⟨⟨g, run⟩, fromSession, .accepted⟩ :: s.posts }
    else none
  | .count p =>
    if p ∈ s.posts ∧ p.stage = .accepted then
      some { s.goOn p [if s.queuedUi ≥ 128 then .full else .counted] with queuedUi := s.queuedUi + 1 }
    else none
  | .send p delivered =>
    if p ∈ s.posts ∧ p.stage = .counted then
      some (if delivered then
        { s.goOn p [] with messages := s.messages ++ [p.work], log := s.log ++ [.posted p.work] }
      else s.goOn p [.failed])
    else none
  | .undo p =>
    if p ∈ s.posts ∧ (p.stage = .full ∨ p.stage = .failed) then
      some { s.goOn p [] with queuedUi := s.queuedUi - 1 }
    else none
  | .media op => if op = .reset then none else some { s with queue := VideoQueue.exec s.queue op }
  | .dispatch =>
    match s.ui, s.messages with
    | .loop, work :: rest =>
      some { s with messages := rest, queuedUi := s.queuedUi - 1,
                    log := s.log ++ [if s.current work then .ran work else .skipped work] }
    | _, _ => none
  | .start => if s.ui = .loop then some { s with ui := .starting } else none
  | .restart =>
    if s.ui = .starting ∧ ∀ p ∈ s.posts, p.fromSession = false then
      some { s with ui := .loop, queue := (VideoQueue.reset s.queue).1,
                    session := some (VideoQueue.reset s.queue).2, log := s.log ++ [.restarted] }
    else none
  | .shutdown =>
    if s.ui = .loop then some { s with ui := .stopping, acceptingUi := false, log := s.log ++ [.stopping] }
    else none
  | .close =>
    if s.ui = .stopping ∧ ∀ p ∈ s.posts, p.fromSession = false then
      some { s with ui := .closed, session := none, queue := (VideoQueue.reset s.queue).1 }
    else none
  | .join => if s.ui = .closed ∧ s.posts = [] then some { s with ui := .draining } else none
  | .drain =>
    match s.ui, s.messages with
    | .draining, work :: rest =>
      some { s with messages := rest, queuedUi := s.queuedUi - 1, log := s.log ++ [.deleted work] }
    | _, _ => none
  | .destroy => if s.ui = .draining ∧ s.messages = [] then some { s with ui := .gone } else none

def controllers (W : Type) [DecidableEq W] : LTS (Controller W) (Label W) where
  init s := s = {}
  step s l s' := next s l = some s'

/-! ## What a step does -/

inductive Does (s : Controller W) : Label W → Controller W → Prop
  | post {b : Bool} {g : UInt64} {run : W} (accepting : s.acceptingUi = true) (stamp : s.stamp b = some g) :
      Does s (.post b run) { s with posts := ⟨⟨g, run⟩, b, .accepted⟩ :: s.posts }
  | count {p : Post W} {t : Stage} (mem : p ∈ s.posts) (stage : p.stage = .accepted)
      (turn : t = .full ∧ s.queuedUi ≥ 128 ∨ t = .counted ∧ s.queuedUi < 128) :
      Does s (.count p) { s.goOn p [t] with queuedUi := s.queuedUi + 1 }
  | delivered {p : Post W} (mem : p ∈ s.posts) (stage : p.stage = .counted) :
      Does s (.send p true)
        { s.goOn p [] with messages := s.messages ++ [p.work], log := s.log ++ [.posted p.work] }
  | failed {p : Post W} (mem : p ∈ s.posts) (stage : p.stage = .counted) :
      Does s (.send p false) (s.goOn p [.failed])
  | undo {p : Post W} (mem : p ∈ s.posts) (stage : p.stage = .full ∨ p.stage = .failed) :
      Does s (.undo p) { s.goOn p [] with queuedUi := s.queuedUi - 1 }
  | media {op : VideoQueue.Op} (other : op ≠ .reset) :
      Does s (.media op) { s with queue := VideoQueue.exec s.queue op }
  | dispatch {work : UiWork W} {rest : List (UiWork W)} (ui : s.ui = .loop) (head : s.messages = work :: rest) :
      Does s .dispatch { s with messages := rest, queuedUi := s.queuedUi - 1,
                                log := s.log ++ [if s.current work then .ran work else .skipped work] }
  | start (ui : s.ui = .loop) : Does s .start { s with ui := .starting }
  | restart (ui : s.ui = .starting) (joined : ∀ p ∈ s.posts, p.fromSession = false) :
      Does s .restart { s with ui := .loop, queue := (VideoQueue.reset s.queue).1,
                               session := some (VideoQueue.reset s.queue).2, log := s.log ++ [.restarted] }
  | shutdown (ui : s.ui = .loop) :
      Does s .shutdown { s with ui := .stopping, acceptingUi := false, log := s.log ++ [.stopping] }
  | close (ui : s.ui = .stopping) (joined : ∀ p ∈ s.posts, p.fromSession = false) :
      Does s .close { s with ui := .closed, session := none, queue := (VideoQueue.reset s.queue).1 }
  | join (ui : s.ui = .closed) (joined : s.posts = []) : Does s .join { s with ui := .draining }
  | drain {work : UiWork W} {rest : List (UiWork W)} (ui : s.ui = .draining) (head : s.messages = work :: rest) :
      Does s .drain
        { s with messages := rest, queuedUi := s.queuedUi - 1, log := s.log ++ [.deleted work] }
  | destroy (ui : s.ui = .draining) (empty : s.messages = []) : Does s .destroy { s with ui := .gone }

variable {s s' : Controller W} {l : Label W} {p q : Post W} {stages : List Stage}

theorem does (h : next s l = some s') : Does s l s' := by
  unfold next at h
  split at h
  · split at h
    · obtain ⟨g, hg, rfl⟩ := Option.map_eq_some_iff.mp h
      exact .post ‹_› hg
    · cases h
  · split at h
    · obtain ⟨hp, ht⟩ := ‹_ ∧ _›
      cases h
      by_cases hover : s.queuedUi ≥ 128
      · rw [if_pos hover]
        exact .count hp ht (.inl ⟨rfl, hover⟩)
      · rw [if_neg hover]
        exact .count hp ht (.inr ⟨rfl, by omega⟩)
    · cases h
  · split at h
    · obtain ⟨hp, ht⟩ := ‹_ ∧ _›
      rename_i delivered _
      cases h
      cases delivered with
      | true => exact .delivered hp ht
      | false => exact .failed hp ht
    · cases h
  · split at h
    · cases h
      exact .undo (‹_ ∧ _›).1 (‹_ ∧ _›).2
    · cases h
  · split at h
    · cases h
    · cases h
      exact .media ‹_›
  · split at h
    · cases h
      exact .dispatch ‹_› ‹_›
    · cases h
  · split at h
    · cases h
      exact .start ‹_›
    · cases h
  · split at h
    · cases h
      exact .restart (‹_ ∧ _›).1 (‹_ ∧ _›).2
    · cases h
  · split at h
    · cases h
      exact .shutdown ‹_›
    · cases h
  · split at h
    · cases h
      exact .close (‹_ ∧ _›).1 (‹_ ∧ _›).2
    · cases h
  · split at h
    · cases h
      exact .join (‹_ ∧ _›).1 (‹_ ∧ _›).2
    · cases h
  · split at h
    · cases h
      exact .drain ‹_› ‹_›
    · cases h
  · split at h
    · cases h
      exact .destroy (‹_ ∧ _›).1 (‹_ ∧ _›).2
    · cases h

theorem perm_erase (h : p ∈ s.posts) : s.posts.Perm (p :: s.posts.erase p) := List.perm_cons_erase h

theorem mem_goOn (h : p ∈ s.posts) (hq : q ∈ (s.goOn p stages).posts) :
    ∃ q' ∈ s.posts, q'.work = q.work ∧ q'.fromSession = q.fromSession := by
  rcases List.mem_append.mp hq with hq | hq
  · obtain ⟨t, -, rfl⟩ := List.mem_map.mp hq
    exact ⟨p, h, rfl, rfl⟩
  · exact ⟨q, List.mem_of_mem_erase hq, rfl, rfl⟩

/-! ## The count -/

/-- The call is in the count. -/
def Stage.holds : Stage → Bool
  | .accepted => false
  | _ => true

/-- It is in the count, and was not one too many. -/
def Stage.admitted : Stage → Bool
  | .counted => true
  | .failed => true
  | _ => false

/-- The calls that are at some of the stages. -/
def among (f : Stage → Bool) (posts : List (Post W)) : Nat := posts.countP fun p => f p.stage

structure Counted (s : Controller W) : Prop where
  count : s.queuedUi = s.messages.length + among Stage.holds s.posts
  bound : s.messages.length + among Stage.admitted s.posts ≤ 128

@[simp] theorem goOn_messages : (s.goOn p stages).messages = s.messages := rfl
@[simp] theorem goOn_queuedUi : (s.goOn p stages).queuedUi = s.queuedUi := rfl

theorem among_goOn (f : Stage → Bool) (stages : List Stage) (h : p ∈ s.posts) :
    among f (s.goOn p stages).posts + (if f p.stage then 1 else 0) = among f s.posts + stages.countP f := by
  have herase := (List.perm_cons_erase h).countP_eq fun p => f p.stage
  rw [List.countP_cons] at herase
  unfold among Controller.goOn
  rw [List.countP_append, List.countP_map, herase]
  have hstages : stages.countP ((fun p : Post W => f p.stage) ∘ fun t => { p with stage := t }) = stages.countP f := rfl
  omega

omit [DecidableEq W] in
theorem admitted_le (posts : List (Post W)) : among Stage.admitted posts ≤ among Stage.holds posts := by
  refine List.countP_mono_left ?_
  intro p _ hp
  cases hs : p.stage with
  | accepted => simp [hs, Stage.admitted] at hp
  | _ => rfl

theorem Counted.does (h : Counted s) (hd : Does s l s') : Counted s' := by
  obtain ⟨hcount, hbound⟩ := h
  cases hd with
  | post accepting stamp => exact ⟨by simpa [among, Stage.holds] using hcount,
      by simpa [among, Stage.admitted] using hbound⟩
  | @count p t mem stage turn =>
    have hholds := among_goOn Stage.holds [t] mem
    have hadmitted := among_goOn Stage.admitted [t] mem
    have hle := admitted_le s.posts
    rcases turn with ⟨rfl, hfull⟩ | ⟨rfl, hroom⟩ <;>
      simp [stage, Stage.holds, Stage.admitted] at hholds hadmitted <;>
      constructor <;> simp only [goOn_messages] <;> omega
  | @delivered p mem stage =>
    have hholds := among_goOn Stage.holds [] mem
    have hadmitted := among_goOn Stage.admitted [] mem
    simp [stage, Stage.holds, Stage.admitted] at hholds hadmitted
    constructor <;> simp <;> omega
  | @failed p mem stage =>
    have hholds := among_goOn Stage.holds [.failed] mem
    have hadmitted := among_goOn Stage.admitted [.failed] mem
    simp [stage, Stage.holds, Stage.admitted] at hholds hadmitted
    constructor <;> simp <;> omega
  | @undo p mem stage =>
    have hholds := among_goOn Stage.holds [] mem
    have hadmitted := among_goOn Stage.admitted [] mem
    rcases stage with stage | stage <;> simp [stage, Stage.holds, Stage.admitted] at hholds hadmitted <;>
      constructor <;> simp <;> omega
  | dispatch ui head =>
    rw [head, List.length_cons] at hcount hbound
    constructor <;> dsimp only <;> omega
  | drain ui head =>
    rw [head, List.length_cons] at hcount hbound
    constructor <;> dsimp only <;> omega
  | _ => exact ⟨hcount, hbound⟩

/-! ## Who is still there -/

structure Phased (s : Controller W) : Prop where
  accepting : s.acceptingUi = true ↔ s.ui = .loop ∨ s.ui = .starting
  session : ∀ g ∈ s.session, g = s.queue.generation ∧ (s.ui = .loop ∨ s.ui = .starting ∨ s.ui = .stopping)
  stamped : ∀ p ∈ s.posts, if p.fromSession then p.work.generation ∈ s.session else p.work.generation = 0
  workers : s.posts ≠ [] → s.ui.workers = true
  gone : s.ui = .gone → s.messages = []

theorem media_generation {q : VideoQueue.Queue} {op : VideoQueue.Op} (h : op ≠ .reset) :
    (VideoQueue.exec q op).generation = q.generation := by
  rw [(VideoQueue.exec_stamps q op).1, if_neg h, UInt64.add_zero]

theorem Phased.does (h : Phased s) (hd : Does s l s') : Phased s' := by
  have hgoOn {p : Post W} {stages : List Stage} (mem : p ∈ s.posts) :
      (∀ q ∈ (s.goOn p stages).posts, if q.fromSession then q.work.generation ∈ s.session else q.work.generation = 0) ∧
        ((s.goOn p stages).posts ≠ [] → s.ui.workers = true) := by
    refine ⟨?_, fun _ => h.workers (List.ne_nil_of_mem mem)⟩
    intro q hq
    obtain ⟨q', hq', hwork, hfrom⟩ := mem_goOn mem hq
    rw [← hwork, ← hfrom]
    exact h.stamped q' hq'
  cases hd with
  | @post b g run accepting stamp =>
    have hworkers : s.ui.workers = true := by
      rcases h.accepting.mp accepting with hu | hu <;> rw [hu] <;> rfl
    refine ⟨h.accepting, h.session, ?_, fun _ => hworkers, h.gone⟩
    intro q hq
    rcases List.mem_cons.mp hq with rfl | hq
    · cases b with
      | true => exact stamp
      | false =>
        simp only [Controller.stamp, Bool.false_eq_true, if_false, hworkers, if_true, Option.some.injEq] at stamp
        exact stamp.symm
    · exact h.stamped q hq
  | count mem stage turn => exact ⟨h.accepting, h.session, (hgoOn mem).1, (hgoOn mem).2, h.gone⟩
  | delivered mem stage =>
    refine ⟨h.accepting, h.session, (hgoOn mem).1, (hgoOn mem).2, ?_⟩
    intro hui
    have hworkers := h.workers (List.ne_nil_of_mem mem)
    rw [show s.ui = .gone from hui] at hworkers
    cases hworkers
  | failed mem stage => exact ⟨h.accepting, h.session, (hgoOn mem).1, (hgoOn mem).2, h.gone⟩
  | undo mem stage => exact ⟨h.accepting, h.session, (hgoOn mem).1, (hgoOn mem).2, h.gone⟩
  | media other =>
    exact ⟨h.accepting, fun g hg => by rw [media_generation other]; exact h.session g hg, h.stamped, h.workers, h.gone⟩
  | dispatch ui head =>
    exact ⟨h.accepting, h.session, h.stamped, h.workers, fun hui => by rw [ui] at hui; cases hui⟩
  | start ui =>
    refine ⟨by simp [h.accepting, ui], fun g hg => ⟨(h.session g hg).1, by simp⟩, h.stamped, fun _ => rfl, nofun⟩
  | restart ui joined =>
    refine ⟨by simp [h.accepting, ui], fun g hg => ?_, fun p hp => ?_, fun _ => rfl, nofun⟩
    · cases hg
      exact ⟨rfl, .inl rfl⟩
    · have hstamp := h.stamped p hp
      rw [joined p hp] at hstamp ⊢
      exact hstamp
  | shutdown ui =>
    exact ⟨by simp, fun g hg => ⟨(h.session g hg).1, by simp⟩, h.stamped, fun _ => rfl, nofun⟩
  | close ui joined =>
    refine ⟨by simp [h.accepting, ui], nofun, fun p hp => ?_, fun _ => rfl, nofun⟩
    have hstamp := h.stamped p hp
    rw [joined p hp] at hstamp ⊢
    exact hstamp
  | join ui joined =>
    have hsession : s.session = none := by
      rw [Option.eq_none_iff_forall_not_mem]
      intro g hg
      simpa [ui] using (h.session g hg).2
    exact ⟨by simp [h.accepting, ui], by simp [hsession], h.stamped, fun hne => absurd joined hne, nofun⟩
  | drain ui head =>
    exact ⟨h.accepting, h.session, h.stamped, h.workers, fun hui => by rw [ui] at hui; cases hui⟩
  | destroy ui empty =>
    have hnone : s.posts = [] := by
      by_contra hne
      have hworkers := h.workers hne
      rw [ui] at hworkers
      cases hworkers
    have hsession : s.session = none := by
      rw [Option.eq_none_iff_forall_not_mem]
      intro g hg
      simpa [ui] using (h.session g hg).2
    exact ⟨by simp [h.accepting, ui], by simp [hsession], h.stamped, fun hne => absurd hnone hne, fun _ => empty⟩

/-! ## What is handled -/

def Event.posted? : Event W → Option (UiWork W)
  | .posted work => some work
  | _ => none

def Event.handled? : Event W → Option (UiWork W)
  | .ran work | .skipped work | .deleted work => some work
  | _ => none

/-- What was posted has been handled, in this order, or waits. -/
def Ordered (s : Controller W) : Prop :=
  s.log.filterMap Event.posted? = s.log.filterMap Event.handled? ++ s.messages

/-- Work of no session, or posted since the session was last replaced. -/
def Live (log : List (Event W)) (work : UiWork W) : Prop :=
  work.generation = 0 ∨ Since (· = Event.posted work) (· = .restarted) log

/-- An entry of the log, by those before it: a session posts while it is the
current one, and what is dispatched is run unless its session has been replaced. -/
def Judged (log : List (Event W)) : Event W → Prop
  | .posted work => work.generation = 0 ∨ work.generation = serial (log.count .restarted)
  | .ran work => .stopping ∉ log ∧ Live log work
  | .skipped work => .stopping ∉ log ∧ ¬ Live log work
  | _ => True

structure Logged (s : Controller W) : Prop where
  stopping : .stopping ∈ s.log → s.acceptingUi = false
  generation : s.ui = .loop ∨ s.ui = .starting ∨ s.ui = .stopping →
    s.queue.generation = serial (s.log.count .restarted)
  messages : ∀ work ∈ s.messages, Live s.log work ∨ Old (s.log.count .restarted) work.generation
  judged : EachAfter Judged s.log

theorem Ordered.does (h : Ordered s) (hd : Does s l s') : Ordered s' := by
  unfold Ordered at h ⊢
  cases hd with
  | delivered mem stage => simp [h, Event.posted?, Event.handled?]
  | @dispatch work rest ui head =>
    dsimp only
    rw [List.filterMap_append, List.filterMap_append, h, head]
    split <;> simp [Event.posted?, Event.handled?]
  | restart ui joined => simpa [List.filterMap_cons, Event.posted?, Event.handled?] using h
  | shutdown ui => simpa [List.filterMap_cons, Event.posted?, Event.handled?] using h
  | drain ui head => simp [h, head, Event.posted?, Event.handled?]
  | _ => exact h

variable {log : List (Event W)} {work : UiWork W} {e : Event W}

/-- Work posted since the session was replaced is that session's. -/
theorem since_generation (h : EachAfter Judged log) (hs : Since (· = Event.posted work) (· = .restarted) log) :
    work.generation = 0 ∨ work.generation = serial (log.count .restarted) := by
  obtain ⟨pre, x, post, rfl, rfl, hpost⟩ := hs
  have hcount : (pre ++ Event.posted work :: post).count .restarted = pre.count .restarted := by
    rw [List.count_append, List.count_cons_of_ne (by simp), List.count_eq_zero_of_not_mem fun hm => hpost _ hm rfl,
      Nat.add_zero]
  rw [hcount]
  exact h pre _ post rfl

omit [DecidableEq W] in
theorem Live.snoc (h : Live log work) (he : e ≠ .restarted) : Live (log ++ [e]) work :=
  h.imp_right fun hs => since_snoc.mpr (.inr ⟨hs, he⟩)

/-- What was live before the session was replaced is old, unless it is of none. -/
theorem live_restarted (h : EachAfter Judged log) (hw : Live log work ∨ Old (log.count .restarted) work.generation) :
    Old (log.count .restarted + 1) work.generation := by
  rcases hw with (h0 | hs) | hold
  · exact .inl h0
  · rcases since_generation h hs with h0 | hgen
    · exact .inl h0
    · rw [hgen]
      exact old_serial _
  · exact hold.succ

/-- The test of `UiDispatchProc`. -/
theorem current_iff_live (h : Logged s) (hui : s.ui = .loop) (ha : s.acceptingUi = true)
    (hn : s.log.count .restarted + 1 < 2 ^ 64) (hw : work ∈ s.messages) : s.current work = true ↔ Live s.log work := by
  have hgen := h.generation (.inl hui)
  unfold Controller.current
  rw [ha, Bool.true_and, Bool.or_eq_true, beq_iff_eq, beq_iff_eq, hgen]
  constructor
  · rintro (h0 | hserial)
    · exact .inl h0
    · exact (h.messages work hw).resolve_right fun hold => hold.ne hn hserial
  · rintro (h0 | hs)
    · exact .inl h0
    · exact since_generation h.judged hs

/-- An entry that does not replace the session. -/
theorem Logged.snoc (h : Logged s) (he : e ≠ .restarted) (hj : Judged s.log e) (hlog : s'.log = s.log ++ [e])
    (hstopping : .stopping ∈ s'.log → s'.acceptingUi = false)
    (hgeneration : s'.ui = .loop ∨ s'.ui = .starting ∨ s'.ui = .stopping →
      s'.queue.generation = serial (s.log.count .restarted))
    (hmessages : ∀ work ∈ s'.messages, work ∈ s.messages ∨ Live s'.log work) : Logged s' := by
  have hcount : s'.log.count .restarted = s.log.count .restarted := by simp [hlog, he]
  refine ⟨hstopping, fun hui => by rw [hcount]; exact hgeneration hui, fun work hw => ?_, ?_⟩
  · rcases hmessages work hw with hw | hw
    · rw [hcount, hlog]
      exact (h.messages work hw).imp_left fun hl => hl.snoc he
    · exact .inl hw
  · rw [hlog]
    exact h.judged.snoc hj

theorem Logged.does (hp : Phased s) (h : Logged s) (hd : Does s l s') (hn : s.log.count .restarted + 1 < 2 ^ 64) :
    Logged s' := by
  have hopen (ha : s.acceptingUi = true) : .stopping ∉ s.log := fun hm => by simp [h.stopping hm] at ha
  cases hd with
  | post accepting stamp => exact ⟨h.stopping, h.generation, h.messages, h.judged⟩
  | count mem stage turn => exact ⟨h.stopping, h.generation, h.messages, h.judged⟩
  | @delivered p mem stage =>
    refine h.snoc (by simp) ?_ rfl (fun hm => h.stopping (by simpa using hm)) h.generation fun work hw => ?_
    · have hstamp := hp.stamped p mem
      cases hb : p.fromSession with
      | true =>
        rw [hb] at hstamp
        obtain ⟨hgen, hui⟩ := hp.session _ hstamp
        exact .inr (hgen.trans (h.generation hui))
      | false =>
        rw [hb] at hstamp
        exact .inl hstamp
    · rcases List.mem_append.mp hw with hw | hw
      · exact .inl hw
      · rw [List.mem_singleton.mp hw]
        exact .inr (.inr (since_snoc.mpr (.inl rfl)))
  | failed mem stage => exact ⟨h.stopping, h.generation, h.messages, h.judged⟩
  | undo mem stage => exact ⟨h.stopping, h.generation, h.messages, h.judged⟩
  | media other =>
    exact ⟨h.stopping, fun hui => (media_generation other).trans (h.generation hui), h.messages, h.judged⟩
  | @dispatch work rest ui head =>
    have ha := hp.accepting.mpr (.inl ui)
    have hmem : work ∈ s.messages := by simp [head]
    have hlive := current_iff_live h ui ha hn hmem
    refine h.snoc (e := if s.current work then .ran work else .skipped work) (by split <;> simp) ?_ rfl
      (fun hm => ?_) h.generation fun w hw => .inl (by simp [head, show w ∈ rest from hw])
    · split
      · exact ⟨hopen ha, hlive.mp ‹_›⟩
      · exact ⟨hopen ha, fun hl => absurd (hlive.mpr hl) ‹_›⟩
    · refine absurd ?_ (hopen ha)
      dsimp only at hm
      split at hm <;> simpa using hm
  | start ui => exact ⟨h.stopping, fun _ => h.generation (.inl ui), h.messages, h.judged⟩
  | restart ui joined =>
    have hcount : (s.log ++ [Event.restarted]).count Event.restarted = s.log.count .restarted + 1 := by simp
    refine ⟨fun hm => h.stopping (by simpa using hm), fun _ => ?_, fun work hw => .inr ?_, h.judged.snoc trivial⟩
    · rw [hcount, serial_succ, ← h.generation (.inr (.inl ui))]
      rfl
    · rw [hcount]
      exact live_restarted h.judged (h.messages work hw)
  | shutdown ui =>
    exact h.snoc (e := .stopping) (by simp) trivial rfl (fun _ => rfl) (fun _ => h.generation (.inl ui)) fun _ hw => .inl hw
  | close ui joined => exact ⟨h.stopping, by simp, h.messages, h.judged⟩
  | join ui joined => exact ⟨h.stopping, by simp, h.messages, h.judged⟩
  | @drain work rest ui head =>
    exact h.snoc (e := .deleted work) (by simp) trivial rfl (fun hm => h.stopping (by simpa using hm)) h.generation
      fun w hw => .inl (by simp [head, show w ∈ rest from hw])
  | destroy ui empty => exact ⟨h.stopping, by simp, h.messages, h.judged⟩

theorem count_does (hd : Does s l s') : s.log.count .restarted ≤ s'.log.count .restarted := by
  cases hd <;> simp [Controller.goOn]

/-! ## Every run -/

theorem counted_inductive : (controllers W).Inductive Counted where
  init := by rintro _ rfl; exact ⟨rfl, Nat.zero_le _⟩
  step _ _ _ hi hn := hi.does (does hn)

theorem phased_inductive : (controllers W).Inductive Phased where
  init := by rintro _ rfl; exact ⟨by simp, nofun, nofun, fun h => absurd rfl h, nofun⟩
  step _ _ _ hi hn := hi.does (does hn)

theorem ordered_inductive : (controllers W).Inductive Ordered where
  init := by rintro _ rfl; rfl
  step _ _ _ hi hn := hi.does (does hn)

theorem logged_inductive : (controllers W).Inductive fun s =>
    Phased s ∧ (s.log.count .restarted + 1 < 2 ^ 64 → Logged s) where
  init := by
    rintro _ rfl
    refine ⟨phased_inductive.init _ rfl, fun _ => ⟨nofun, fun _ => rfl, nofun, eachAfter_nil _⟩⟩
  step _ _ _ hi hn := by
    have hd := does hn
    have hle := count_does hd
    exact ⟨hi.1.does hd, fun hbound => (hi.2 (by omega)).does hi.1 hd (by omega)⟩

/-- Two updates are posted; the first is run, and the second waits while the
session is replaced. -/
def replacing : List (Label Nat) :=
  [.restart, .post true 1, .count ⟨⟨2, 1⟩, true, .accepted⟩, .send ⟨⟨2, 1⟩, true, .counted⟩ true, .post true 2,
    .count ⟨⟨2, 2⟩, true, .accepted⟩, .send ⟨⟨2, 2⟩, true, .counted⟩ true, .dispatch, .start, .restart]

/-- The worker posts while the window closes. -/
def closing : List (Label Nat) :=
  replacing ++ [.dispatch, .post false 3, .shutdown, .close, .count ⟨⟨0, 3⟩, false, .accepted⟩,
    .send ⟨⟨0, 3⟩, false, .counted⟩ true, .join, .drain, .destroy]

def after (ls : List (Label Nat)) : Controller Nat := LTS.played next (fun _ _ => True) {} ls

theorem after_reachable {ls : List (Label Nat)} (h : (LTS.play next (fun _ _ => True) {} ls).isSome = true) :
    (controllers Nat).Reachable (after ls) :=
  ⟨{}, ls, rfl, (LTS.played_run (fun _ _ _ hs => hs) h).of_guarded⟩

theorem posts_bounded (h : (controllers W).Reachable s) :
    s.queuedUi = s.messages.length + among Stage.holds s.posts ∧
      s.messages.length + among Stage.admitted s.posts ≤ 128 ∧
      s.queuedUi ≤ 128 + among (· == .full) s.posts := by
  obtain ⟨hcount, hbound⟩ := counted_inductive.reachable s h
  have hsplit : among Stage.holds s.posts = among Stage.admitted s.posts + among (· == .full) s.posts := by
    unfold among
    induction s.posts with
    | nil => rfl
    | cons p posts ih =>
      simp only [List.countP_cons, ih]
      cases p.stage <;> simp [Stage.holds, Stage.admitted] <;> omega
  exact ⟨hcount, hbound, by omega⟩

theorem posts_bounded_replacing : (after replacing).queuedUi = 1 ∧
    (after replacing).messages.length + among Stage.admitted (after replacing).posts ≤ 128 :=
  ⟨by decide, (posts_bounded (after_reachable (by decide))).2.1⟩

theorem runs_current (h : (controllers W).Reachable s) (hn : s.log.count .restarted + 1 < 2 ^ 64) :
    s.log.filterMap Event.posted? = s.log.filterMap Event.handled? ++ s.messages ∧ EachAfter Judged s.log :=
  ⟨ordered_inductive.reachable s h, ((logged_inductive.reachable s h).2 hn).judged⟩

theorem runs_current_closing : (after closing).log = [.restarted, .posted ⟨2, 1⟩, .posted ⟨2, 2⟩, .ran ⟨2, 1⟩,
    .restarted, .skipped ⟨2, 2⟩, .stopping, .posted ⟨0, 3⟩, .deleted ⟨0, 3⟩] ∧ EachAfter Judged (after closing).log :=
  ⟨by decide, (runs_current (after_reachable (by decide)) (by decide)).2⟩

/-! ## Shutdown -/

def Stage.left : Stage → Nat
  | .accepted => 3
  | .counted => 2
  | .full => 1
  | .failed => 1

def Ui.left : Ui → Nat
  | .stopping => 3
  | .closed => 2
  | .draining => 1
  | _ => 0

def ahead (posts : List (Post W)) : Nat := (posts.map fun p => p.stage.left).sum

/-- The steps that are left at most once `Shutdown` has begun. -/
def Controller.left (s : Controller W) : Nat := ahead s.posts + s.messages.length + s.ui.left

/-- A step of the threads that post or of the UI thread. -/
def Label.own : Label W → Bool
  | .media _ => false
  | _ => true

@[simp] theorem goOn_ui : (s.goOn p stages).ui = s.ui := rfl

theorem ahead_goOn (stages : List Stage) (h : p ∈ s.posts) :
    ahead (s.goOn p stages).posts + p.stage.left = ahead s.posts + (stages.map Stage.left).sum := by
  have herase := ((List.perm_cons_erase h).map fun q : Post W => q.stage.left).sum_eq
  rw [List.map_cons, List.sum_cons] at herase
  unfold ahead Controller.goOn
  rw [List.map_append, List.sum_append, List.map_map, herase]
  have hstages : (stages.map ((fun q : Post W => q.stage.left) ∘ fun t => { p with stage := t })) = stages.map Stage.left :=
    rfl
  rw [hstages]
  omega

omit [DecidableEq W] in
theorem ahead_le (posts : List (Post W)) : ahead posts ≤ 3 * posts.length := by
  have hmul : ahead posts ≤ posts.length * 3 := by
    unfold ahead
    rw [← List.length_map (fun p : Post W => p.stage.left), ← smul_eq_mul]
    refine List.sum_le_card_nsmul _ _ ?_
    intro n hn
    obtain ⟨p, -, rfl⟩ := List.mem_map.mp hn
    cases p.stage <;> decide
  omega

theorem left_does (hp : Phased s) (ha : s.acceptingUi = false) (hd : Does s l s') :
    s'.acceptingUi = false ∧ s'.left + (if l.own then 1 else 0) ≤ s.left := by
  have hui : s.ui ≠ .loop ∧ s.ui ≠ .starting := by
    rw [← not_or, ← hp.accepting, ha]
    exact Bool.false_ne_true
  unfold Controller.left
  cases hd with
  | post accepting stamp => simp [ha] at accepting
  | @count p t mem stage turn =>
    have hahead := ahead_goOn [t] mem
    refine ⟨ha, ?_⟩
    rcases turn with ⟨rfl, -⟩ | ⟨rfl, -⟩ <;> simp [stage, Stage.left] at hahead <;> simp [Label.own] <;> omega
  | @delivered p mem stage =>
    have hahead := ahead_goOn [] mem
    simp [stage, Stage.left] at hahead
    exact ⟨ha, by simp [Label.own]; omega⟩
  | @failed p mem stage =>
    have hahead := ahead_goOn [.failed] mem
    simp [stage, Stage.left] at hahead
    exact ⟨ha, by simp [Label.own]; omega⟩
  | @undo p mem stage =>
    have hahead := ahead_goOn [] mem
    refine ⟨ha, ?_⟩
    rcases stage with stage | stage <;> simp [stage, Stage.left] at hahead <;> simp [Label.own] <;> omega
  | media other => exact ⟨ha, Nat.le_refl _⟩
  | dispatch ui head => exact absurd ui hui.1
  | start ui => exact absurd ui hui.1
  | restart ui joined => exact absurd ui hui.2
  | shutdown ui => exact absurd ui hui.1
  | close ui joined => exact ⟨ha, by simp [Label.own, ui, Ui.left]⟩
  | join ui joined => exact ⟨ha, by simp [Label.own, ui, Ui.left]⟩
  | drain ui head => exact ⟨ha, by simp [Label.own, head]⟩
  | destroy ui empty => exact ⟨ha, by simp [Label.own, ui, Ui.left]⟩

theorem left_run {ls : List (Label W)} (hr : (controllers W).Run s ls s') (hp : Phased s) (ha : s.acceptingUi = false) :
    ls.countP Label.own ≤ s.left := by
  induction hr with
  | nil => exact Nat.zero_le _
  | @cons s t s' l ls hstep hrun ih =>
    obtain ⟨hat, hleft⟩ := left_does hp ha (does hstep)
    have hrest := ih (hp.does (does hstep)) hat
    rw [List.countP_cons]
    omega

/-- A call under way can go on, whatever the UI thread waits for. -/
theorem post_enabled (h : p ∈ s.posts) : ∃ l s', l.own = true ∧ next s l = some s' := by
  cases hs : p.stage with
  | accepted => exact ⟨.count p, _, rfl, if_pos ⟨h, hs⟩⟩
  | full => exact ⟨.undo p, _, rfl, if_pos ⟨h, .inl hs⟩⟩
  | counted => exact ⟨.send p false, _, rfl, if_pos ⟨h, hs⟩⟩
  | failed => exact ⟨.undo p, _, rfl, if_pos ⟨h, .inr hs⟩⟩

theorem stopping_enabled (hp : Phased s) (ha : s.acceptingUi = false) (hui : s.ui ≠ .gone) :
    ∃ l s', l.own = true ∧ next s l = some s' := by
  rcases List.eq_nil_or_concat s.posts with hnil | ⟨posts, p, hposts⟩
  · cases hs : s.ui with
    | loop => simp [hp.accepting.mpr (.inl hs)] at ha
    | starting => simp [hp.accepting.mpr (.inr hs)] at ha
    | stopping => exact ⟨.close, _, rfl, if_pos ⟨hs, by simp [hnil]⟩⟩
    | closed => exact ⟨.join, _, rfl, if_pos ⟨hs, hnil⟩⟩
    | draining =>
      cases hm : s.messages with
      | nil => exact ⟨.destroy, _, rfl, if_pos ⟨hs, hm⟩⟩
      | cons work rest => exact ⟨.drain, _, rfl, by simp only [next, hs, hm]; rfl⟩
    | gone => exact absurd hs hui
  · exact post_enabled (p := p) (by simp [hposts])

theorem shutdown_ends (h : (controllers W).Reachable s) (ha : s.acceptingUi = false) :
    (∀ ls s', (controllers W).Run s ls s' → ls.countP Label.own ≤ 3 * s.posts.length + 131) ∧
      (s.ui ≠ .gone → ∃ l s', l.own = true ∧ (controllers W).step s l s') ∧
      (s.ui = .gone → s.queuedUi = 0 ∧ s.messages = [] ∧ s.posts = [] ∧ s.session = none ∧
        s.log.filterMap Event.posted? = s.log.filterMap Event.handled?) := by
  have hp := phased_inductive.reachable s h
  obtain ⟨hcount, hbound⟩ := counted_inductive.reachable s h
  refine ⟨?_, stopping_enabled hp ha, ?_⟩
  · intro ls s' hr
    have hrun := left_run hr hp ha
    have hahead := ahead_le s.posts
    have hleft : s.ui.left ≤ 3 := by cases s.ui <;> decide
    unfold Controller.left at hrun
    omega
  · intro hui
    have hposts : s.posts = [] := by
      by_contra hne
      simpa [hui, Ui.workers] using hp.workers hne
    have hmessages := hp.gone hui
    have hsession : s.session = none := by
      rw [Option.eq_none_iff_forall_not_mem]
      intro g hg
      simpa [hui] using (hp.session g hg).2
    have hordered := ordered_inductive.reachable s h
    unfold Ordered at hordered
    rw [hmessages, List.append_nil] at hordered
    exact ⟨by rw [hcount, hposts, hmessages]; rfl, hmessages, hposts, hsession, hordered⟩

theorem shutdown_ends_closing : (after closing).ui = .gone ∧ (after closing).queuedUi = 0 :=
  ⟨by decide, ((shutdown_ends (after_reachable (by decide)) (by decide)).2.2 (by decide)).1⟩

end KmVirtualCamera.L5.UiPosts
