import Mathlib
import KmVirtualCamera.Core.LTS
import KmVirtualCamera.L5Concurrency.AudioOutput
import KmVirtualCamera.L5Concurrency.AudioBuffers

/-!
# The commands of the audio output

`stop` joins the worker, the worker may be disposing of a queue, and that waits
for callbacks which want the mutex: nobody waits in a circle, and the way is
short. A command is answered by the worker or by nobody, however often an
earlier one has run into its timeout.

* `stop_ends`: `stop` gets past the worker.
* `answers_true`: what a command that succeeded has done.
-/
namespace KmVirtualCamera.L5.AudioOutput
open KmVirtualCamera.L2 Output

variable {z : Sizes} {s s' : Output} {l : Label}

/-! ## Stopping -/

/-- The steps the worker is from its end at most, with what a new queue adds. -/
def Worker.left : Worker → Nat
  | .absent | .gone => 0
  | .closed => 1
  | .closing _ => 2
  | .waiting => 3
  | .answering _ | .filled .. => 4
  | .reserved _ | .discarding .. | .popped .. => 5
  | .cleared _ | .refused .. | .filling _ => 6
  | .started _ => 7
  | .starting .. => 8
  | .replacing .. => 9
  | .built .. => 10
  | .creating _ => 19
  | .executing => 20

/-- A buffer at the device has two steps to make. -/
def left (s : Output) : Nat := 2 * s.device.length + s.callbacks.length + s.worker.left

def Label.own : Label → Bool
  | .push .. => false
  | _ => true

/-- The worker gets on, and the device gets no more buffers. -/
theorem left_go (hd : s'.device.length ≤ s.device.length) (hc : s'.callbacks.length = s.callbacks.length)
    (hw : s'.worker.left + 1 ≤ s.worker.left) : left s' + 1 ≤ left s := by
  unfold left
  omega

theorem left_works (hstop : s.stopRequested = true) (hw : Works z s s') :
    s'.control = s.control ∧ s'.stopRequested = true ∧ left s' + 1 ≤ left s := by
  cases hw with
  | leave waiting stop =>
    exact ⟨rfl, hstop, left_go (Nat.le_refl _) rfl (by simp [Output.leave, waiting, Worker.left])⟩
  | execute waiting go pending => simp [hstop] at go
  | take waiting go unasked last => simp [hstop] at go
  | read executing cmd => exact ⟨rfl, hstop, left_go (Nat.le_refl _) rfl (by simp [executing, Worker.left])⟩
  | unknown executing cmd => exact ⟨rfl, hstop, left_go (Nat.le_refl _) rfl (by simp [executing, Worker.left])⟩
  | noDevice creating zero => exact ⟨rfl, hstop, left_go (Nat.le_refl _) rfl (by simp [creating, Worker.left])⟩
  | unopened creating => exact ⟨rfl, hstop, left_go (Nat.le_refl _) rfl (by simp [creating, Worker.left])⟩
  | @abandon d f creating =>
    have hle := enqueued_le f
    exact ⟨rfl, hstop, by simp [left, Output.abandon, Output.opened, creating, Worker.left]; omega⟩
  | build creating target =>
    exact ⟨rfl, hstop, by simp [left, Output.build, Output.opened, creating, Worker.left]; omega⟩
  | swap built => exact ⟨rfl, hstop, left_go (Nat.le_refl _) rfl (by simp [Output.swap, built, Worker.left])⟩
  | @replace q t previous replacing quiet =>
    cases previous with
    | none => exact ⟨rfl, hstop, left_go (Nat.le_refl _) rfl (by simp [replacing, Worker.left])⟩
    | some p => exact ⟨rfl, hstop, left_go (List.length_filter_le ..) rfl (by simp [replacing, Worker.left])⟩
  | discard discarding quiet =>
    exact ⟨rfl, hstop, left_go (List.length_filter_le ..) rfl (by simp [discarding, Worker.left])⟩
  | @close q closing quiet =>
    cases q with
    | none => exact ⟨rfl, hstop, left_go (Nat.le_refl _) rfl (by simp [closing, Worker.left])⟩
    | some q => exact ⟨rfl, hstop, left_go (List.length_filter_le ..) rfl (by simp [closing, Worker.left])⟩
  | started starting => exact ⟨rfl, hstop, left_go (Nat.le_refl _) rfl (by simp [starting, Worker.left])⟩
  | refused starting => exact ⟨rfl, hstop, left_go (Nat.le_refl _) rfl (by simp [starting, Worker.left])⟩
  | withdraw refused => exact ⟨rfl, hstop, left_go (Nat.le_refl _) rfl (by simp [refused, Worker.left])⟩
  | clear started => exact ⟨rfl, hstop, left_go (Nat.le_refl _) rfl (by simp [started, Worker.left])⟩
  | reserve cleared => exact ⟨rfl, hstop, left_go (Nat.le_refl _) rfl (by simp [cleared, Worker.left])⟩
  | adopt reserved => exact ⟨rfl, hstop, left_go (Nat.le_refl _) rfl (by simp [reserved, Worker.left])⟩
  | answer answering =>
    exact ⟨rfl, hstop, left_go (Nat.le_refl _) rfl (by simp [Output.answer, answering, Worker.left])⟩
  | fill filling =>
    exact ⟨rfl, hstop, left_go (Nat.le_refl _) rfl (by simp [Output.fill, filling, Worker.left])⟩
  | shade popped =>
    exact ⟨rfl, hstop, left_go (Nat.le_refl _) rfl (by simp [Output.shade, popped, Worker.left])⟩
  | stopped filled stop =>
    exact ⟨rfl, hstop, left_go (Nat.le_refl _) rfl (by simp [Output.leave, filled, Worker.left])⟩
  | orphan filled unset => exact ⟨rfl, hstop, left_go (Nat.le_refl _) rfl (by simp [filled, Worker.left])⟩
  | enqueue filled go => simp [hstop] at go
  | failed filled go => simp [hstop] at go
  | finish closed => exact ⟨rfl, hstop, left_go (Nat.le_refl _) rfl (by simp [closed, Worker.left])⟩

theorem left_step {e : Option String} (hj : s.control = .joining e) (hstop : s.stopRequested = true)
    (hn : next z s l = some s') (hl : l ≠ .join) :
    s'.control = .joining e ∧ s'.stopRequested = true ∧ left s' + (if l.own then 1 else 0) ≤ left s := by
  rcases next_cases hn with hc | hw | hh
  · cases hc with
    | join joining ended => exact absurd rfl hl
    | stop from_ => rcases from_ with h | ⟨_, h⟩ <;> simp [hj] at h
    | spawn h | post h | wake h | timeout h => simp [hj] at h
    | running h | start h | setDevice h | mute h => simp [hj] at h
  · obtain ⟨hcontrol, hstop', hleft⟩ := left_works hstop hw
    refine ⟨hcontrol.trans hj, hstop', ?_⟩
    split <;> omega
  · cases hh with
    | push => exact ⟨hj, hstop, Nat.le_refl _⟩
    | @complete b mem begun =>
      have hpos := List.length_pos_of_mem mem
      refine ⟨hj, hstop, ?_⟩
      simp only [left, Label.own, List.length_erase_of_mem mem, List.length_append, List.length_singleton, if_true]
      omega
    | @taken b mem mine =>
      have hpos := List.length_pos_of_mem mem
      refine ⟨hj, hstop, ?_⟩
      simp only [left, Label.own, List.length_erase_of_mem mem, if_true]
      omega
    | @ignored b mem other =>
      have hpos := List.length_pos_of_mem mem
      refine ⟨hj, hstop, ?_⟩
      simp only [left, Label.own, List.length_erase_of_mem mem, if_true]
      omega

theorem left_run {e : Option String} {ls : List Label} (hr : (outputs z).Run s ls s') (hj : s.control = .joining e)
    (hstop : s.stopRequested = true) (hl : .join ∉ ls) : ls.countP Label.own ≤ left s := by
  induction hr with
  | nil => exact Nat.zero_le _
  | @cons s t s' l ls hstep hrun ih =>
    simp only [List.mem_cons, not_or] at hl
    obtain ⟨hj', hstop', hleft⟩ := left_step hj hstop hstep (Ne.symm hl.1)
    have hrest := ih hj' hstop' hl.2
    rw [List.countP_cons]
    omega

/-- Disposing of a queue waits for callbacks only, and these wait for nothing. -/
theorem dispose_enabled {q : Option Nat} (h : s.Quiet q → ∃ s', next z s .dispose = some s') :
    ∃ l s', l.own = true ∧ next z s l = some s' := by
  by_cases hq : s.Quiet q
  · obtain ⟨s', hs⟩ := h hq
    exact ⟨.dispose, s', rfl, hs⟩
  · unfold Quiet at hq
    push Not at hq
    obtain ⟨b, hb, -⟩ := hq
    exact ⟨.callback b, s.onBufferDone b, rfl, if_pos hb⟩

theorem joining_enabled {e : Option String} (hj : s.control = .joining e) (hstop : s.stopRequested = true) :
    ∃ l s', l.own = true ∧ next z s l = some s' := by
  cases hw : s.worker with
  | absent => exact ⟨.join, s.joined e, rfl, by simp [next, nextControl, hj, hw]⟩
  | gone => exact ⟨.join, s.joined e, rfl, by simp [next, nextControl, hj, hw]⟩
  | waiting => exact ⟨.look, s.leave, rfl, by simp [next, nextControl, nextWorker, hw, hstop]⟩
  | executing => exact ⟨.read, _, rfl, by simp [next, nextControl, nextWorker, hw]; rfl⟩
  | creating d => exact ⟨.create 0 (.failed .noUid), _, rfl, by simp [next, nextControl, nextWorker, hw]; rfl⟩
  | built q t => exact ⟨.swap, _, rfl, by simp [next, nextControl, nextWorker, hw]; rfl⟩
  | replacing q t previous =>
    exact dispose_enabled (q := previous) fun hq => ⟨_, by simp [next, nextControl, nextWorker, hw, hq]; rfl⟩
  | starting q t => exact ⟨.begin 0, _, rfl, by simp [next, nextControl, nextWorker, hw]; rfl⟩
  | refused q error => exact ⟨.withdraw, _, rfl, by simp [next, nextControl, nextWorker, hw]; rfl⟩
  | discarding r error =>
    exact dispose_enabled (q := some r) fun hq => ⟨_, by simp [next, nextControl, nextWorker, hw, hq]; rfl⟩
  | started t => exact ⟨.clear, _, rfl, by simp [next, nextControl, nextWorker, hw]; rfl⟩
  | cleared t => exact ⟨.reserve, _, rfl, by simp [next, nextControl, nextWorker, hw]; rfl⟩
  | reserved t => exact ⟨.adopt, _, rfl, by simp [next, nextControl, nextWorker, hw]; rfl⟩
  | answering error => exact ⟨.answer, _, rfl, by simp [next, nextControl, nextWorker, hw]; rfl⟩
  | filling b => exact ⟨.fill, _, rfl, by simp [next, nextControl, nextWorker, hw]; rfl⟩
  | popped b data => exact ⟨.shade, _, rfl, by simp [next, nextControl, nextWorker, hw]; rfl⟩
  | filled b data => exact ⟨.enqueue 0, s.leave, rfl, by simp [next, nextControl, nextWorker, hw, hstop]⟩
  | closing r =>
    exact dispose_enabled (q := r) fun hq => ⟨_, by simp [next, nextControl, nextWorker, hw, hq]; rfl⟩
  | closed => exact ⟨.finish, _, rfl, by simp [next, nextControl, nextWorker, hw]; rfl⟩

/-! ## Commands -/

/-- The device a command asks for; any will do for a start. -/
def Selects (c : Command) (device : UInt32) : Prop := device ≠ 0 ∧ (c.device ≠ 0 → device = c.device)

/-- The worker is in `ExecuteCommand`. -/
def Worker.busy : Worker → Bool
  | .executing | .creating _ | .built .. | .replacing .. | .starting .. | .refused .. | .discarding .. | .started _
  | .cleared _ | .reserved _ | .answering _ => true
  | _ => false

/-- What the worker executes is `c`. -/
def Worker.Carries (c : Command) (deviceID : UInt32) : Worker → Prop
  | .creating device => device = c.device
  | .built _ target | .replacing _ target _ | .starting _ target | .started target | .cleared target
  | .reserved target => Selects c target
  | .answering error => error = none → Selects c deviceID
  | _ => True

structure Commanded (s : Output) : Prop where
  spawning : s.control = .spawning → s.stopRequested = false
  joining : ∀ e, s.control = .joining e → s.stopRequested = true
  stopped : s.stopRequested = true → (∃ e, s.control = .joining e) ∨ s.worker = .absent
  busy : s.worker.busy = true → s.cmdPending = true ∨ s.stopRequested = true
  waiting : ∀ c, s.control = .waiting c → s.cmd = some c ∧
    (s.cmdPending = true ∧ s.cmdOk = false ∧ s.worker.Carries c s.deviceID ∨
      s.cmdPending = false ∧ (s.cmdOk = true → Selects c s.deviceID))

/-- While a caller waits for an answer it has, the worker is in no command. -/
theorem Commanded.free (h : Commanded s) {c : Command} (hc : s.control = .waiting c) (hp : s.cmdPending = false) :
    s.worker.busy = false := by
  by_contra hb
  rcases h.busy (by simpa using hb) with hp' | hs
  · simp [hp] at hp'
  · rcases h.stopped hs with ⟨e, he⟩ | hw
    · simp [hc] at he
    · simp [hw, Worker.busy] at hb

theorem target_selects {c : Command} {fallback : UInt32} (h : s.target c.device fallback ≠ 0) :
    Selects c (s.target c.device fallback) := by
  refine ⟨h, ?_⟩
  intro hd
  unfold Output.target
  rw [if_pos hd]

/-- A step of the worker within a command, or outside of one. -/
theorem Commanded.go (h : Commanded s) (hcontrol : s'.control = s.control) (hstop : s'.stopRequested = s.stopRequested)
    (hpending : s'.cmdPending = s.cmdPending) (hcmd : s'.cmd = s.cmd) (hok : s'.cmdOk = s.cmdOk)
    (hw : s.worker ≠ .absent) (hbusy : s'.worker.busy = true → s.worker.busy = true ∨ s.cmdPending = true)
    (hdevice : s.worker.busy = false → s'.deviceID = s.deviceID)
    (hcarries : ∀ c, s.control = .waiting c → s.cmd = some c → s.cmdPending = true → s.worker.Carries c s.deviceID →
      s'.worker.Carries c s'.deviceID) : Commanded s' := by
  refine ⟨?_, ?_, ?_, ?_, ?_⟩
  · rw [hcontrol, hstop]
    exact h.spawning
  · rw [hcontrol, hstop]
    exact h.joining
  · intro hs
    rw [hstop] at hs
    rw [hcontrol]
    exact .inl ((h.stopped hs).resolve_right hw)
  · intro hb
    rw [hpending, hstop]
    rcases hbusy hb with hb | hp
    · exact h.busy hb
    · exact .inl hp
  · intro c hc
    rw [hcontrol] at hc
    obtain ⟨hcmd', hcase⟩ := h.waiting c hc
    rw [hcmd, hpending, hok]
    refine ⟨hcmd', ?_⟩
    rcases hcase with ⟨hp, hok', hcar⟩ | ⟨hp, hsel⟩
    · exact .inl ⟨hp, hok', hcarries c hc hcmd' hp hcar⟩
    · rw [hdevice (h.free hc hp)]
      exact .inr ⟨hp, hsel⟩

theorem Commanded.leave (h : Commanded s) (hw : s.worker ≠ .absent) : Commanded s.leave := by
  refine ⟨h.spawning, h.joining, fun hs => .inl ((h.stopped hs).resolve_right hw), nofun, ?_⟩
  intro c hc
  obtain ⟨hcmd, hcase⟩ := h.waiting c hc
  refine ⟨hcmd, .inr ⟨rfl, ?_⟩⟩
  intro hok
  rcases hcase with ⟨-, hno, -⟩ | ⟨-, hsel⟩
  · rw [show s.cmdOk = true from hok] at hno
    cases hno
  · exact hsel hok

theorem Commanded.works (h : Commanded s) (hw : Works z s s') : Commanded s' := by
  cases hw with
  | leave waiting stop => exact h.leave (by simp [waiting])
  | execute waiting go pending =>
    exact h.go rfl rfl rfl rfl rfl (by simp [waiting]) (fun _ => .inr pending) (fun _ => rfl) fun _ _ _ _ _ => trivial
  | take waiting go unasked last =>
    exact h.go rfl rfl rfl rfl rfl (by simp [waiting]) nofun (fun _ => rfl) fun _ _ _ _ _ => trivial
  | @read c executing cmd =>
    refine h.go rfl rfl rfl rfl rfl (by simp [executing]) (fun _ => by simp [executing, Worker.busy]) (fun _ => rfl)
      ?_
    intro c' _ hcmd _ _
    rw [cmd] at hcmd
    exact congrArg Command.device (Option.some.inj hcmd)
  | unknown executing cmd =>
    exact h.go rfl rfl rfl rfl rfl (by simp [executing]) (fun _ => by simp [executing, Worker.busy]) (fun _ => rfl)
      fun _ _ _ _ _ => nofun
  | noDevice creating zero =>
    exact h.go rfl rfl rfl rfl rfl (by simp [creating]) (fun _ => by simp [creating, Worker.busy]) (fun _ => rfl)
      fun _ _ _ _ _ => nofun
  | unopened creating =>
    exact h.go rfl rfl rfl rfl rfl (by simp [creating]) (fun _ => by simp [creating, Worker.busy]) (fun _ => rfl)
      fun _ _ _ _ _ => nofun
  | abandon creating =>
    exact h.go rfl rfl rfl rfl rfl (by simp [creating]) (fun _ => by simp [creating, Worker.busy]) (fun _ => rfl)
      fun _ _ _ _ _ => trivial
  | @build d fallback creating target =>
    refine h.go rfl rfl rfl rfl rfl (by simp [creating]) (fun _ => by simp [creating, Worker.busy]) (fun _ => rfl)
      ?_
    intro c _ _ _ hcar
    rw [creating] at hcar
    rw [show d = c.device from hcar] at target ⊢
    exact target_selects target
  | swap built =>
    exact h.go rfl rfl rfl rfl rfl (by simp [built]) (fun _ => by simp [built, Worker.busy]) (fun _ => rfl)
      fun c _ _ _ hcar => by rw [built] at hcar; exact hcar
  | @replace q t previous replacing quiet =>
    cases previous <;>
      exact h.go rfl rfl rfl rfl rfl (by simp [replacing]) (fun _ => by simp [replacing, Worker.busy]) (fun _ => rfl)
        fun c _ _ _ hcar => by rw [replacing] at hcar; exact hcar
  | discard discarding quiet =>
    exact h.go rfl rfl rfl rfl rfl (by simp [discarding]) (fun _ => by simp [discarding, Worker.busy]) (fun _ => rfl)
      fun _ _ _ _ _ => nofun
  | @close q closing quiet =>
    cases q <;>
      exact h.go rfl rfl rfl rfl rfl (by simp [closing]) nofun (fun _ => rfl) fun _ _ _ _ _ => trivial
  | started starting =>
    exact h.go rfl rfl rfl rfl rfl (by simp [starting]) (fun _ => by simp [starting, Worker.busy]) (fun _ => rfl)
      fun c _ _ _ hcar => by rw [starting] at hcar; exact hcar
  | refused starting =>
    exact h.go rfl rfl rfl rfl rfl (by simp [starting]) (fun _ => by simp [starting, Worker.busy]) (fun _ => rfl)
      fun _ _ _ _ _ => trivial
  | withdraw refused =>
    exact h.go rfl rfl rfl rfl rfl (by simp [refused]) (fun _ => by simp [refused, Worker.busy]) (fun _ => rfl)
      fun _ _ _ _ _ => trivial
  | clear started =>
    exact h.go rfl rfl rfl rfl rfl (by simp [started]) (fun _ => by simp [started, Worker.busy]) (fun _ => rfl)
      fun c _ _ _ hcar => by rw [started] at hcar; exact hcar
  | reserve cleared =>
    exact h.go rfl rfl rfl rfl rfl (by simp [cleared]) (fun _ => by simp [cleared, Worker.busy]) (fun _ => rfl)
      fun c _ _ _ hcar => by rw [cleared] at hcar; exact hcar
  | adopt reserved =>
    exact h.go rfl rfl rfl rfl rfl (by simp [reserved]) (fun _ => by simp [reserved, Worker.busy])
      (by simp [reserved, Worker.busy]) fun c _ _ _ hcar _ => by rw [reserved] at hcar; exact hcar
  | @answer e answering =>
    have hbusy : s.worker.busy = true := by simp [answering, Worker.busy]
    refine ⟨h.spawning, h.joining, fun hs => .inl ((h.stopped hs).resolve_right (by simp [answering])), nofun, fun c hc => ?_⟩
    obtain ⟨hcmd, hcase⟩ := h.waiting c hc
    refine ⟨hcmd, .inr ⟨rfl, ?_⟩⟩
    intro hok
    rcases hcase with ⟨-, -, hcar⟩ | ⟨hp, -⟩
    · rw [answering] at hcar
      exact hcar (Option.isNone_iff_eq_none.mp hok)
    · simp [h.free hc hp] at hbusy
  | fill filling =>
    exact h.go rfl rfl rfl rfl rfl (by simp [filling]) nofun (fun _ => rfl) fun _ _ _ _ _ => trivial
  | shade popped =>
    exact h.go rfl rfl rfl rfl rfl (by simp [popped]) nofun (fun _ => rfl) fun _ _ _ _ _ => trivial
  | stopped filled stop => exact h.leave (by simp [filled])
  | orphan filled unset =>
    exact h.go rfl rfl rfl rfl rfl (by simp [filled]) nofun (fun _ => rfl) fun _ _ _ _ _ => trivial
  | enqueue filled go =>
    exact h.go rfl rfl rfl rfl rfl (by simp [filled]) nofun (fun _ => rfl) fun _ _ _ _ _ => trivial
  | failed filled go =>
    have hleave := h.leave (by simp [filled])
    exact ⟨hleave.spawning, hleave.joining, hleave.stopped, hleave.busy, hleave.waiting⟩
  | finish closed =>
    exact h.go rfl rfl rfl rfl rfl (by simp [closed]) nofun (fun _ => rfl) fun _ _ _ _ _ => trivial

theorem carries_idle {w : Worker} (h : w.busy = false) (c : Command) (device : UInt32) : w.Carries c device := by
  cases w with
  | creating | built | replacing | starting | started | cleared | reserved | answering => cases h
  | _ => trivial

/-- The caller is in no `stop`. -/
theorem Commanded.absent (h : Commanded s) (hj : ∀ e, s.control ≠ .joining e) (hs : s.stopRequested = true) :
    s.worker = .absent :=
  (h.stopped hs).resolve_left fun ⟨e, he⟩ => hj e he

theorem Commanded.reply (h : Commanded s) (hj : ∀ e, s.control ≠ .joining e) (c : Command) (error : Option String) :
    Commanded (s.reply c error) := by
  unfold Output.reply
  split <;> exact ⟨nofun, nofun, fun hs => .inr (h.absent hj hs), h.busy, nofun⟩

theorem Commanded.calls (h : Commanded s) (hc : Calls s l s') : Commanded s' := by
  cases hc with
  | running idle there => exact ⟨h.spawning, h.joining, h.stopped, h.busy, h.waiting⟩
  | start idle absent => exact ⟨fun _ => rfl, nofun, nofun, by simp [absent, Worker.busy], nofun⟩
  | spawn spawning =>
    have hgo := h.spawning spawning
    exact ⟨nofun, nofun, fun hs => by simp [hgo] at hs, nofun, nofun⟩
  | setDevice idle => exact ⟨nofun, nofun, fun hs => .inr (h.absent (by simp [idle]) hs), h.busy, nofun⟩
  | @post c calling =>
    have hj : ∀ e, s.control ≠ .joining e := by simp [calling]
    unfold Output.postCommand
    split
    · exact h.reply hj c _
    · rename_i hpending
      refine ⟨nofun, nofun, fun hs => .inr (h.absent hj hs), fun _ => .inl rfl, ?_⟩
      intro c' hc'
      obtain rfl := Control.waiting.inj hc'
      refine ⟨rfl, .inl ⟨rfl, rfl, carries_idle ?_ c _⟩⟩
      by_contra hb
      have hs := (h.busy (by simpa using hb)).resolve_left hpending
      simp [h.absent hj hs, Worker.busy] at hb
  | wake waiting finished => exact h.reply (by simp [waiting]) _ _
  | timeout waiting => exact h.reply (by simp [waiting]) _ _
  | stop from_ =>
    unfold Output.beginStop
    dsimp only
    split <;> exact ⟨nofun, fun _ _ => rfl, fun _ => .inl ⟨_, rfl⟩, fun _ => .inr rfl, nofun⟩
  | join joining ended => exact ⟨nofun, nofun, fun _ => .inr rfl, nofun, nofun⟩
  | mute idle => exact ⟨h.spawning, h.joining, h.stopped, h.busy, h.waiting⟩

theorem Commanded.happens (h : Commanded s) (hh : Happens s l s') : Commanded s' := by
  cases hh <;> exact ⟨h.spawning, h.joining, h.stopped, h.busy, h.waiting⟩

theorem commanded_inductive (z : Sizes) : (outputs z).Inductive Commanded where
  init := by rintro _ rfl; exact ⟨nofun, nofun, nofun, nofun, nofun⟩
  step s l s' hi hn := by
    rcases next_cases hn with hc | hw | hh
    · exact hi.calls hc
    · exact hi.works hw
    · exact hi.happens hh

/-- The answer a caller that waits is given is to its own command. -/
theorem answers_true (h : (outputs z).Reachable s) {c : Command} (hc : s.control = .waiting c) (hok : s.result = none) :
    s.cmdPending = false ∧ s.deviceID ≠ 0 ∧ (c.device ≠ 0 → s.deviceID = c.device) := by
  have hcmdOk : s.cmdOk = true := by
    by_contra hno
    simp [Output.result, hno] at hok
  obtain ⟨-, hcase⟩ := ((commanded_inductive z).reachable s h).waiting c hc
  rcases hcase with ⟨-, hno, -⟩ | ⟨hp, hsel⟩
  · simp [hcmdOk] at hno
  · exact ⟨hp, hsel hcmdOk⟩

theorem answers_true_opening : (after opening).control = .waiting .start ∧ (after opening).deviceID ≠ 0 :=
  ⟨by decide +kernel, (answers_true (after_reachable (by decide +kernel)) (c := .start) (by decide +kernel)
    (by decide +kernel)).2.1⟩

/-- A live queue has four buffers at most. -/
theorem places_length (hb : Buffers s) : (places s).length ≤ 4 * s.alive.length := by
  have hsub : places s ⊆ s.alive.flatMap fun q => (List.range 4).map fun i => ⟨q, i⟩ := by
    intro b hm
    obtain ⟨ha, hi⟩ := hb.owned b hm
    exact List.mem_flatMap.mpr ⟨b.queue, ha, List.mem_map.mpr ⟨b.index, List.mem_range.mpr hi, rfl⟩⟩
  have hle := (hb.nodup.subperm hsub).length_le
  simp only [List.length_flatMap, List.length_map, List.length_range, List.map_const', List.sum_replicate, smul_eq_mul] at hle
  omega

theorem stop_ends {e : Option String} (h : (outputs z).Reachable s) (hj : s.control = .joining e) :
    (∀ ls s', (outputs z).Run s ls s' → .join ∉ ls → ls.countP Label.own ≤ 36) ∧
      ∃ l s', l.own = true ∧ (outputs z).step s l s' := by
  have hstop := ((commanded_inductive z).reachable s h).joining e hj
  refine ⟨?_, joining_enabled hj hstop⟩
  intro ls s' hr hl
  obtain ⟨hq, hb, -⟩ := (custody_inductive z).reachable s h
  have hrun := left_run hr hj hstop hl
  have hworker : s.worker.left ≤ 20 := by cases s.worker <;> simp [Worker.left]
  have hplaces := places_length hb
  have halive := hq.alive_le
  unfold left at hrun
  simp only [places, List.length_append] at hplaces
  omega

theorem stop_ends_stopping : (after stopping).callbacks = [⟨0, 1⟩] ∧
    ∃ l s', l.own = true ∧ (outputs small).step (after stopping) l s' :=
  ⟨by decide +kernel, (stop_ends (after_reachable (by decide +kernel)) (e := none) (by decide +kernel)).2⟩

end KmVirtualCamera.L5.AudioOutput
