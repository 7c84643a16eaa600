import Mathlib
import KmVirtualCamera.Core.LTS
import KmVirtualCamera.L5Concurrency.AudioOutput

/-!
# The buffers of the audio output

`AudioQueueDispose` frees the buffers of a queue, so none of them may be filled
or enqueued afterwards; and a queue nobody disposes of plays on. The worker is
the only thread that disposes of anything, and the queue it fills a buffer for
is still the current one when it enqueues it.

* `buffers_accounted`: where the four buffers of the current queue are.
* `queues_disposed`: every queue is disposed of once, and none is left.
-/
namespace KmVirtualCamera.L5.AudioOutput
open KmVirtualCamera.L2 Output

variable {z : Sizes} {s s' : Output} {l : Label}

/-! ## The queues -/

/-- The queues the worker has in its hands besides the current one. -/
@[simp] def Worker.queues : Worker → List Nat
  | .built q _ => [q]
  | .replacing _ _ previous => previous.toList
  | .discarding q _ => [q]
  | .closing q => q.toList
  | _ => []

/-- What is known of the current queue and of the one being set up. -/
def Worker.Stands (aq : Option Nat) (begun : List Nat) : Worker → Prop
  | .built q _ => q ∉ begun
  | .replacing q _ _ | .starting q _ | .refused q _ => aq = some q ∧ q ∉ begun
  | .absent | .closing _ | .closed | .gone => aq = none
  | _ => True

structure Queues (s : Output) : Prop where
  alive : s.alive.Perm (s.aq.toList ++ s.worker.queues)
  once : (s.disposed ++ s.alive).Perm (List.range s.nextQueue)
  begun : ∀ q ∈ s.begun, q < s.nextQueue
  stands : s.worker.Stands s.aq s.begun
  spawning : s.control = .spawning → s.worker = .absent

theorem Queues.nodup (h : Queues s) : s.alive.Nodup :=
  (h.once.nodup_iff.mpr List.nodup_range).of_append_right

theorem Queues.lt (h : Queues s) {q : Nat} (hq : q ∈ s.alive) : q < s.nextQueue :=
  List.mem_range.mp (h.once.mem_iff.mp (List.mem_append_right _ hq))

/-- The current queue, and one in the worker's hands. -/
theorem Queues.alive_le (h : Queues s) : s.alive.length ≤ 2 := by
  have hqueues : s.worker.queues.length ≤ 1 := by
    cases hw : s.worker with
    | replacing _ _ previous => exact Option.length_toList_le
    | closing q => exact Option.length_toList_le
    | _ => simp
  have haq : s.aq.toList.length ≤ 1 := Option.length_toList_le
  rw [h.alive.length_eq, List.length_append]
  omega

theorem Queues.caller (h : Queues s) (hw : s.worker ≠ .absent) : s.control ≠ .spawning :=
  fun hs => hw (h.spawning hs)

/-- A step that creates and disposes of nothing. -/
theorem Queues.move (h : Queues s) (ha : s'.alive = s.alive) (hd : s'.disposed = s.disposed)
    (hn : s'.nextQueue = s.nextQueue) (hq : (s.aq.toList ++ s.worker.queues).Perm (s'.aq.toList ++ s'.worker.queues))
    (hb : ∀ q ∈ s'.begun, q < s.nextQueue) (hstands : s'.worker.Stands s'.aq s'.begun)
    (hspawning : s'.control = .spawning → s'.worker = .absent) : Queues s' := by
  refine ⟨?_, ?_, ?_, hstands, hspawning⟩
  · rw [ha]
    exact h.alive.trans hq
  · rw [ha, hd, hn]
    exact h.once
  · rw [hn]
    exact hb

/-- What a step of the worker leaves as it is that touches no queue. -/
structure Steady (s s' : Output) : Prop where
  alive : s'.alive = s.alive
  disposed : s'.disposed = s.disposed
  nextQueue : s'.nextQueue = s.nextQueue
  aq : s'.aq = s.aq
  begun : s'.begun = s.begun
  control : s'.control = s.control

theorem Queues.go (h : Queues s) (hs : Steady s s') (hw : s.worker ≠ .absent)
    (hq : s.worker.queues = s'.worker.queues) (hstands : s'.worker.Stands s.aq s.begun) : Queues s' := by
  refine h.move hs.alive hs.disposed hs.nextQueue (by rw [hs.aq, hq]) (by rw [hs.begun]; exact h.begun)
    (by rw [hs.aq, hs.begun]; exact hstands) fun hc => ?_
  rw [hs.control] at hc
  exact absurd hc (h.caller hw)

theorem Queues.calls (h : Queues s) (hc : Calls s l s') : Queues s' := by
  rcases hc.kept with ⟨hk, hspawning⟩ | ⟨hs, rfl⟩ | ⟨e, hended, rfl⟩
  · exact h.move hk.alive hk.disposed hk.nextQueue (by rw [hk.aq, hk.worker]) (by rw [hk.begun]; exact h.begun)
      (by rw [hk.aq, hk.worker, hk.begun]; exact h.stands) (by rw [hk.worker]; exact hspawning)
  · have hw := h.spawning hs
    exact h.move rfl rfl rfl (by simp [hw, Worker.queues]) h.begun trivial nofun
  · have hstands := h.stands
    refine h.move rfl rfl rfl ?_ h.begun ?_ nofun
    · rcases hended with hw | hw <;> simp [joined, hw, Worker.queues]
    · rcases hended with hw | hw <;> simpa [joined, hw, Worker.Stands] using hstands

theorem Queues.leave (h : Queues s) (hw : s.worker ≠ .absent) (hq : s.worker.queues = []) : Queues s.leave :=
  h.move rfl rfl rfl (by rw [hq, List.append_nil]; rfl) h.begun rfl fun hs => absurd hs (h.caller hw)

/-- A queue in the worker's hands is disposed of. -/
theorem Queues.dispose (h : Queues s) {q : Nat} {w : Worker} (hw : s.worker ≠ .absent)
    (hq : s.worker.queues = q :: w.queues) (hstands : w.Stands s.aq s.begun) :
    Queues { s.dispose q with worker := w } := by
  have hperm : s.alive.Perm (q :: (s.aq.toList ++ w.queues)) := by
    have halive := h.alive
    rw [hq] at halive
    exact halive.trans List.perm_middle
  have herase : (s.alive.erase q).Perm (s.aq.toList ++ w.queues) := by
    have := hperm.erase q
    rwa [List.erase_cons_head] at this
  refine ⟨herase, ?_, h.begun, hstands, fun hs => absurd hs (h.caller hw)⟩
  have hsplit : (s.disposed ++ [q] ++ s.alive.erase q).Perm (s.disposed ++ s.alive) := by
    rw [List.append_assoc]
    exact (List.perm_cons_erase (hperm.mem_iff.mpr (by simp))).symm.append_left _
  exact hsplit.trans h.once

/-- A new queue goes into the worker's hands. -/
theorem Queues.opened (h : Queues s) {n : Nat} {w : Worker} (hw : s.worker ≠ .absent) (hnone : s.worker.queues = [])
    (hq : w.queues = [s.nextQueue]) (hstands : w.Stands s.aq s.begun) : Queues (s.opened n w) := by
  have halive := h.alive
  rw [hnone, List.append_nil] at halive
  refine ⟨?_, ?_, fun q hq => Nat.lt_succ_of_lt (h.begun q hq), hstands, fun hs => absurd hs (h.caller hw)⟩
  · show (s.alive ++ [s.nextQueue]).Perm (s.aq.toList ++ w.queues)
    rw [hq]
    exact halive.append_right _
  · show (s.disposed ++ (s.alive ++ [s.nextQueue])).Perm (List.range (s.nextQueue + 1))
    rw [List.range_succ, ← List.append_assoc]
    exact h.once.append_right _

theorem Queues.works (h : Queues s) (hw : Works z s s') : Queues s' := by
  have hstands := h.stands
  cases hw with
  | leave waiting stop => exact h.leave (by simp [waiting]) (by simp [waiting])
  | execute waiting go pending =>
    exact h.go ⟨rfl, rfl, rfl, rfl, rfl, rfl⟩ (by simp [waiting]) (by simp [waiting]) trivial
  | take waiting go unasked last =>
    exact h.go ⟨rfl, rfl, rfl, rfl, rfl, rfl⟩ (by simp [waiting]) (by simp [waiting]) trivial
  | read executing cmd =>
    exact h.go ⟨rfl, rfl, rfl, rfl, rfl, rfl⟩ (by simp [executing]) (by simp [executing]) trivial
  | unknown executing cmd =>
    exact h.go ⟨rfl, rfl, rfl, rfl, rfl, rfl⟩ (by simp [executing]) (by simp [executing]) trivial
  | noDevice creating zero =>
    exact h.go ⟨rfl, rfl, rfl, rfl, rfl, rfl⟩ (by simp [creating]) (by simp [creating]) trivial
  | unopened creating =>
    exact h.go ⟨rfl, rfl, rfl, rfl, rfl, rfl⟩ (by simp [creating]) (by simp [creating]) trivial
  | abandon creating => exact h.opened (by simp [creating]) (by simp [creating]) rfl trivial
  | build creating target =>
    exact h.opened (by simp [creating]) (by simp [creating]) rfl fun hq => Nat.lt_irrefl _ (h.begun _ hq)
  | swap built =>
    rw [built] at hstands
    refine h.move rfl rfl rfl ?_ h.begun ⟨rfl, hstands⟩ fun hs => absurd hs (h.caller (by simp [built]))
    simp only [built, Worker.queues, Output.swap]
    exact List.perm_append_comm
  | @replace q t previous replacing quiet =>
    rw [replacing] at hstands
    cases previous with
    | none => exact h.go ⟨rfl, rfl, rfl, rfl, rfl, rfl⟩ (by simp [replacing]) (by simp [replacing]) hstands
    | some p => exact h.dispose (by simp [replacing]) (by simp [replacing]) hstands
  | discard discarding quiet => exact h.dispose (by simp [discarding]) (by simp [discarding]) trivial
  | @close q closing quiet =>
    rw [closing] at hstands
    cases q with
    | none => exact h.go ⟨rfl, rfl, rfl, rfl, rfl, rfl⟩ (by simp [closing]) (by simp [closing]) hstands
    | some q => exact h.dispose (by simp [closing]) (by simp [closing]) hstands
  | @started q t starting => 
    rw [starting] at hstands
    refine h.move rfl rfl rfl (by simp [starting]) (fun r hr => ?_) trivial fun hs => absurd hs (h.caller (by simp [starting]))
    rcases List.mem_append.mp hr with hr | hr
    · exact h.begun r hr
    · rw [List.mem_singleton.mp hr]
      exact h.lt (h.alive.mem_iff.mpr (by simp [hstands.1]))
  | refused starting =>
    rw [starting] at hstands
    exact h.go ⟨rfl, rfl, rfl, rfl, rfl, rfl⟩ (by simp [starting]) (by simp [starting]) hstands
  | withdraw refused =>
    rw [refused] at hstands
    exact h.move rfl rfl rfl (by simp [refused, hstands.1]) h.begun trivial fun hs =>
      absurd hs (h.caller (by simp [refused]))
  | clear started => exact h.go ⟨rfl, rfl, rfl, rfl, rfl, rfl⟩ (by simp [started]) (by simp [started]) trivial
  | reserve cleared => exact h.go ⟨rfl, rfl, rfl, rfl, rfl, rfl⟩ (by simp [cleared]) (by simp [cleared]) trivial
  | adopt reserved =>
    exact h.go ⟨rfl, rfl, rfl, rfl, rfl, rfl⟩ (by simp [reserved]) (by simp [reserved]) trivial
  | answer answering =>
    exact h.go ⟨rfl, rfl, rfl, rfl, rfl, rfl⟩ (by simp [answering]) (by simp [answering, Output.answer]) trivial
  | fill filling =>
    exact h.go ⟨rfl, rfl, rfl, rfl, rfl, rfl⟩ (by simp [filling]) (by simp [filling, Output.fill]) trivial
  | shade popped =>
    exact h.go ⟨rfl, rfl, rfl, rfl, rfl, rfl⟩ (by simp [popped]) (by simp [popped, Output.shade]) trivial
  | stopped filled stop => exact h.leave (by simp [filled]) (by simp [filled])
  | orphan filled unset =>
    exact h.go ⟨rfl, rfl, rfl, rfl, rfl, rfl⟩ (by simp [filled]) (by simp [filled]) trivial
  | enqueue filled go => exact h.go ⟨rfl, rfl, rfl, rfl, rfl, rfl⟩ (by simp [filled]) (by simp [filled]) trivial
  | failed filled go =>
    have hleave := h.leave (by simp [filled]) (by simp [filled])
    exact ⟨hleave.alive, hleave.once, hleave.begun, hleave.stands, hleave.spawning⟩
  | finish closed =>
    rw [closed] at hstands
    exact h.go ⟨rfl, rfl, rfl, rfl, rfl, rfl⟩ (by simp [closed]) (by simp [closed]) hstands

theorem Queues.happens (h : Queues s) (hh : Happens s l s') : Queues s' := by
  cases hh <;> exact ⟨h.alive, h.once, h.begun, h.stands, h.spawning⟩

/-! ## The buffers -/

/-- The buffer in the worker's hands. -/
@[simp] def Worker.hand : Worker → List Buffer
  | .filling b | .popped b _ | .filled b _ => [b]
  | _ => []

/-- The queue that is complete and not yet the current one. -/
@[simp] def Worker.fresh : Worker → List Nat
  | .built q _ => [q]
  | _ => []

/-- The buffers at the device, in a callback, free, and in the worker's hands. -/
def places (s : Output) : List Buffer := s.device ++ s.callbacks ++ s.free ++ s.worker.hand

structure Buffers (s : Output) : Prop where
  nodup : (places s).Nodup
  owned : ∀ b ∈ places s, b.queue ∈ s.alive ∧ b.index < 4
  whole : ∀ q ∈ s.aq.toList ++ s.worker.fresh, ∀ i < 4, (⟨q, i⟩ : Buffer) ∈ places s
  mine : ∀ b ∈ s.free ++ s.worker.hand, s.aq = some b.queue
  begun : ∀ b ∈ s.callbacks ++ s.free ++ s.worker.hand, b.queue ∈ s.begun

/-- A buffer changes hands. -/
theorem Buffers.move (h : Buffers s) (hp : (places s').Perm (places s)) (ha : s'.alive = s.alive)
    (hq : ∀ q ∈ s'.aq.toList ++ s'.worker.fresh, q ∈ s.aq.toList ++ s.worker.fresh)
    (hmine : ∀ b ∈ s'.free ++ s'.worker.hand, s'.aq = some b.queue)
    (hbegun : ∀ b ∈ s'.callbacks ++ s'.free ++ s'.worker.hand, b.queue ∈ s'.begun) : Buffers s' := by
  refine ⟨hp.nodup_iff.mpr h.nodup, ?_, ?_, hmine, hbegun⟩
  · intro b hb
    rw [ha]
    exact h.owned b (hp.mem_iff.mp hb)
  · intro q hq' i hi
    exact hp.mem_iff.mpr (h.whole q (hq q hq') i hi)

/-- The worker goes on with the same buffer, or with none. -/
theorem Buffers.go (h : Buffers s) (hs : Steady s s') (hd : s'.device = s.device) (hc : s'.callbacks = s.callbacks)
    (hf : s'.free = s.free) (hhand : s'.worker.hand = s.worker.hand) (hfresh : s'.worker.fresh = []) : Buffers s' := by
  refine h.move ?_ hs.alive ?_ ?_ ?_
  · unfold places
    rw [hd, hc, hf, hhand]
  · intro q hq
    rw [hfresh, List.append_nil, hs.aq] at hq
    exact List.mem_append_left _ hq
  · rw [hf, hhand, hs.aq]
    exact h.mine
  · rw [hc, hf, hhand, hs.begun]
    exact h.begun

/-- Buffers are given up when there is no current queue. -/
theorem Buffers.drop (h : Buffers s) (hd : s'.device = s.device) (hc : s'.callbacks = s.callbacks) (hf : s'.free = [])
    (hhand : s'.worker.hand = []) (ha : s'.alive = s.alive) (hb : s'.begun = s.begun) (haq : s'.aq = none)
    (hfresh : s'.worker.fresh = []) : Buffers s' := by
  have hplaces : places s' = s.device ++ s.callbacks := by
    unfold places
    rw [hd, hc, hf, hhand, List.append_nil, List.append_nil]
  have hsub : (places s').Sublist (places s) := by
    rw [hplaces]
    unfold places
    rw [List.append_assoc (s.device ++ s.callbacks)]
    exact List.sublist_append_left ..
  refine ⟨h.nodup.sublist hsub, ?_, by rw [haq, hfresh]; simp, by rw [hf, hhand]; simp,
    ?_⟩
  · intro b hb'
    rw [ha]
    exact h.owned b (hsub.subset hb')
  · intro b hb'
    rw [hf, hhand, hc, List.append_nil, List.append_nil] at hb'
    rw [hb]
    exact h.begun b (by simp [hb'])

theorem Buffers.leave (h : Buffers s) : Buffers s.leave := h.drop rfl rfl rfl rfl rfl rfl rfl rfl

/-- A buffer of a queue that was not begun is at the device. -/
theorem Buffers.primed (h : Buffers s) {b : Buffer} (hb : b ∈ places s) (hnot : b.queue ∉ s.begun) : b ∈ s.device := by
  unfold places at hb
  rw [List.append_assoc, List.append_assoc] at hb
  rcases List.mem_append.mp hb with hb | hb
  · exact hb
  · rw [← List.append_assoc] at hb
    exact absurd (h.begun b hb) hnot

/-- All buffers of a queue go with it. -/
theorem Buffers.dispose (h : Buffers s) {q : Nat} {w : Worker} (hnodup : s.alive.Nodup) (haq : s.aq ≠ some q)
    (hquiet : s.Quiet (some q)) (hhand : s.worker.hand = w.hand) (hfresh : w.fresh = []) :
    Buffers { s.dispose q with worker := w } := by
  have hkept {b : Buffer} (hb : b ∈ places s) (hne : b.queue ≠ q) : b ∈ places { s.dispose q with worker := w } := by
    unfold places at hb ⊢
    simp only [List.mem_append, hhand] at hb ⊢
    refine hb.imp_left (Or.imp_left (Or.imp_left ?_))
    intro hd
    exact List.mem_filter.mpr ⟨hd, by simpa using hne⟩
  have hsub : (places { s.dispose q with worker := w }).Sublist (places s) := by
    unfold places
    rw [hhand]
    exact ((List.filter_sublist.append_right _).append_right _).append_right _
  refine ⟨h.nodup.sublist hsub, ?_, ?_, ?_, ?_⟩
  · intro b hb
    have howned := h.owned b (hsub.subset hb)
    have hne : b.queue ≠ q := by
      rintro rfl
      unfold places at hb
      simp only [List.mem_append] at hb
      rcases hb with ((hb | hb) | hb) | hb
      · simpa using (List.mem_filter.mp hb).2
      · exact hquiet b hb rfl
      · exact haq (h.mine b (by simp [show b ∈ s.free from hb]))
      · exact haq (h.mine b (List.mem_append_right _ (by rw [hhand]; exact hb)))
    exact ⟨(hnodup.mem_erase_iff).mpr ⟨hne, howned.1⟩, howned.2⟩
  · intro r hr i hi
    rw [hfresh, List.append_nil] at hr
    have hr' : s.aq = some r := Option.mem_toList.mp hr
    refine hkept (h.whole r (by simp [hr']) i hi) ?_
    rintro rfl
    exact haq hr'
  · rw [← hhand]
    exact h.mine
  · rw [← hhand]
    exact h.begun

theorem enqueued_le (f : Failure) : f.enqueued ≤ 4 := by
  cases f with
  | enqueue before status => exact before.isLt.le
  | _ => exact Nat.zero_le _

/-- The first buffers of a new queue come to the device. -/
theorem places_opened {n : Nat} {w : Worker} (hhand : s.worker.hand = []) (hhand' : w.hand = []) :
    (places (s.opened n w)).Perm (places s ++ (List.range n).map fun i => ⟨s.nextQueue, i⟩) := by
  refine List.perm_iff_count.mpr ?_
  intro b
  simp only [places, Output.opened, hhand, hhand', List.count_append]
  omega

/-- A new queue, complete or not. -/
theorem Buffers.opened (hq : Queues s) (h : Buffers s) {n : Nat} {w : Worker} (hn : n ≤ 4) (hhand : s.worker.hand = [])
    (hhand' : w.hand = []) (hfresh : ∀ q ∈ w.fresh, q = s.nextQueue ∧ n = 4) : Buffers (s.opened n w) := by
  have hnew : s.nextQueue ∉ s.alive := fun hm => Nat.lt_irrefl _ (hq.lt hm)
  have hplaces := places_opened (n := n) hhand hhand'
  refine ⟨hplaces.nodup_iff.mpr (h.nodup.append ?_ ?_), ?_, fun r hr i hi => hplaces.mem_iff.mpr ?_, ?_, ?_⟩
  · exact List.nodup_range.map fun i j hij => congrArg Buffer.index hij
  · intro b hb hadded
    obtain ⟨i, -, rfl⟩ := List.mem_map.mp hadded
    exact hnew (h.owned _ hb).1
  · intro b hb
    rcases List.mem_append.mp (hplaces.mem_iff.mp hb) with hb | hb
    · exact (h.owned b hb).imp_left fun hm => List.mem_append_left _ hm
    · obtain ⟨i, hi, rfl⟩ := List.mem_map.mp hb
      exact ⟨List.mem_append_right _ (List.mem_singleton.mpr rfl), (List.mem_range.mp hi).trans_le hn⟩
  · rcases List.mem_append.mp hr with hr | hr
    · exact List.mem_append_left _ (h.whole r (List.mem_append_left _ hr) i hi)
    · obtain ⟨rfl, rfl⟩ := hfresh r hr
      exact List.mem_append_right _ (List.mem_map.mpr ⟨i, List.mem_range.mpr hi, rfl⟩)
  · intro b hb
    refine h.mine b ?_
    rw [hhand]
    rwa [show (s.opened n w).worker.hand = [] from hhand'] at hb
  · intro b hb
    refine h.begun b ?_
    rw [hhand]
    rwa [show (s.opened n w).worker.hand = [] from hhand'] at hb

theorem Buffers.works (hq : Queues s) (h : Buffers s) (hw : Works z s s') : Buffers s' := by
  have hstands := hq.stands
  have hnodup : (s.aq.toList ++ s.worker.queues).Nodup := hq.alive.nodup_iff.mp hq.nodup
  cases hw with
  | leave waiting stop => exact h.leave
  | execute waiting go pending => exact h.go ⟨rfl, rfl, rfl, rfl, rfl, rfl⟩ rfl rfl rfl (by simp [waiting]) rfl
  | @take b waiting go unasked last =>
    have hlast : s.free = s.free.dropLast ++ [b] := (List.dropLast_append_getLast? b last).symm
    have hfree : s.free ++ s.worker.hand = s.free.dropLast ++ [b] := by simpa [waiting] using hlast
    have hmine := h.mine
    have hbegun := h.begun
    rw [hfree] at hmine
    rw [List.append_assoc, hfree, ← List.append_assoc] at hbegun
    refine h.move ?_ rfl (by simp [waiting]) hmine hbegun
    unfold places
    rw [List.append_assoc (s.device ++ s.callbacks) s.free, hfree, List.append_assoc]
    exact .refl _
  | read executing cmd => exact h.go ⟨rfl, rfl, rfl, rfl, rfl, rfl⟩ rfl rfl rfl (by simp [executing]) rfl
  | unknown executing cmd => exact h.go ⟨rfl, rfl, rfl, rfl, rfl, rfl⟩ rfl rfl rfl (by simp [executing]) rfl
  | noDevice creating zero => exact h.go ⟨rfl, rfl, rfl, rfl, rfl, rfl⟩ rfl rfl rfl (by simp [creating]) rfl
  | unopened creating => exact h.go ⟨rfl, rfl, rfl, rfl, rfl, rfl⟩ rfl rfl rfl (by simp [creating]) rfl
  | @abandon d f creating => exact h.opened hq (enqueued_le f) (by simp [creating]) rfl nofun
  | build creating target =>
    exact h.opened hq (Nat.le_refl 4) (by simp [creating]) rfl fun q hm => ⟨List.mem_singleton.mp hm, rfl⟩
  | @swap q t built =>
    rw [built] at hstands
    have hsub : (places (s.swap q t)).Sublist (places s) := by
      simp only [places, Output.swap, built, Worker.hand, List.append_nil]
      exact List.sublist_append_left ..
    refine ⟨h.nodup.sublist hsub, fun b hb => h.owned b (hsub.subset hb), ?_, nofun, ?_⟩
    · intro r hr i hi
      simp only [Output.swap, Option.toList_some, Worker.fresh, List.append_nil, List.mem_singleton] at hr
      subst hr
      have hdevice := h.primed (h.whole r (by simp [built]) i hi) hstands
      simp [places, Output.swap, hdevice]
    · intro b hb
      simp only [Output.swap, Worker.hand, List.append_nil] at hb
      exact h.begun b (by simp [hb])
  | @replace q t previous replacing quiet =>
    rw [replacing] at hstands hnodup
    cases previous with
    | none => exact h.go ⟨rfl, rfl, rfl, rfl, rfl, rfl⟩ rfl rfl rfl (by simp [replacing]) rfl
    | some p =>
      refine h.dispose hq.nodup ?_ quiet (by simp [replacing]) rfl
      rw [hstands.1] at hnodup ⊢
      simpa using hnodup
  | @discard q e discarding quiet =>
    refine h.dispose hq.nodup ?_ quiet (by simp [discarding]) rfl
    intro haq
    rw [discarding, haq] at hnodup
    simp at hnodup
  | @close q closing quiet =>
    rw [closing] at hstands
    cases q with
    | none => exact h.go ⟨rfl, rfl, rfl, rfl, rfl, rfl⟩ rfl rfl rfl (by simp [closing]) rfl
    | some q =>
      exact h.dispose hq.nodup (by rw [show s.aq = none from hstands]; simp) quiet (by simp [closing]) rfl
  | @started q t starting =>
    refine h.move ?_ rfl (by simp [starting]) ?_ fun b hb => List.mem_append_left _ (h.begun b ?_)
    · simp [places, starting]
    · simpa [starting] using h.mine
    · simpa [starting] using hb
  | refused starting => exact h.go ⟨rfl, rfl, rfl, rfl, rfl, rfl⟩ rfl rfl rfl (by simp [starting]) rfl
  | @withdraw q e refused =>
    rw [refused] at hstands
    refine h.drop rfl rfl ?_ rfl rfl rfl rfl rfl
    rw [List.eq_nil_iff_forall_not_mem]
    intro b hb
    have hmine := h.mine b (by simp [hb])
    rw [hstands.1] at hmine
    exact hstands.2 (Option.some.inj hmine ▸ h.begun b (by simp [hb]))
  | clear started => exact h.go ⟨rfl, rfl, rfl, rfl, rfl, rfl⟩ rfl rfl rfl (by simp [started]) rfl
  | reserve cleared => exact h.go ⟨rfl, rfl, rfl, rfl, rfl, rfl⟩ rfl rfl rfl (by simp [cleared]) rfl
  | adopt reserved => exact h.go ⟨rfl, rfl, rfl, rfl, rfl, rfl⟩ rfl rfl rfl (by simp [reserved]) rfl
  | answer answering =>
    exact h.go ⟨rfl, rfl, rfl, rfl, rfl, rfl⟩ rfl rfl rfl (by simp [answering, Output.answer]) rfl
  | fill filling => exact h.go ⟨rfl, rfl, rfl, rfl, rfl, rfl⟩ rfl rfl rfl (by simp [filling, Output.fill]) rfl
  | shade popped => exact h.go ⟨rfl, rfl, rfl, rfl, rfl, rfl⟩ rfl rfl rfl (by simp [popped, Output.shade]) rfl
  | stopped filled stop => exact h.leave
  | @orphan b data filled unset =>
    have hmine := h.mine b (by simp [filled])
    rw [unset] at hmine
    cases hmine
  | @enqueue b data filled go =>
    refine h.move ?_ rfl (by simp [filled]) (fun c hc => h.mine c ?_) fun c hc => h.begun c ?_
    · unfold places
      simp only [filled, Worker.hand, List.append_nil, List.append_assoc]
      refine List.Perm.append_left _ ?_
      rw [← List.append_assoc s.callbacks]
      exact List.perm_append_comm
    · simp only [Worker.hand, List.append_nil] at hc
      simp [show c ∈ s.free from hc]
    · simp only [Worker.hand, List.append_nil] at hc
      exact List.mem_append_left _ hc
  | failed filled go =>
    have hleave := h.leave
    exact ⟨hleave.nodup, hleave.owned, hleave.whole, hleave.mine, hleave.begun⟩
  | finish closed => exact h.go ⟨rfl, rfl, rfl, rfl, rfl, rfl⟩ rfl rfl rfl (by simp [closed]) rfl

theorem Buffers.calls (hq : Queues s) (h : Buffers s) (hc : Calls s l s') : Buffers s' := by
  have hstands := hq.stands
  rcases hc.kept with ⟨hk, -⟩ | ⟨hs, rfl⟩ | ⟨e, hended, rfl⟩
  · refine h.move ?_ hk.alive ?_ ?_ ?_
    · unfold places
      rw [hk.device, hk.callbacks, hk.free, hk.worker]
    · rw [hk.aq, hk.worker]
      exact fun _ => id
    · rw [hk.aq, hk.worker, hk.free]
      exact h.mine
    · rw [hk.callbacks, hk.worker, hk.free, hk.begun]
      exact h.begun
  · have hw := hq.spawning hs
    exact h.move (by simp [places, hw]) rfl (by simp [hw]) (by simpa [hw] using h.mine) (by simpa [hw] using h.begun)
  · have haq : s.aq = none := by
      rcases hended with hw | hw <;> rw [hw] at hstands <;> exact hstands
    exact h.drop rfl rfl rfl rfl rfl rfl haq rfl

theorem Buffers.happens (hq : Queues s) (h : Buffers s) (hh : Happens s l s') : Buffers s' := by
  cases hh with
  | push => exact ⟨h.nodup, h.owned, h.whole, h.mine, h.begun⟩
  | @complete b mem begun =>
    refine h.move (List.perm_iff_count.mpr ?_) rfl (fun _ => id) h.mine ?_
    · intro c
      have herase := (List.perm_cons_erase mem).count_eq c
      simp only [places, List.count_append, List.count_cons, List.count_nil] at herase ⊢
      omega
    · intro c hc
      simp only [List.mem_append, List.mem_singleton] at hc
      rcases hc with ((hc | rfl) | hc) | hc
      · exact h.begun c (by simp [hc])
      · exact begun
      · exact h.begun c (by simp [hc])
      · exact h.begun c (List.mem_append_right _ hc)
  | @taken b mem mine =>
    refine h.move (List.perm_iff_count.mpr ?_) rfl (fun _ => id) ?_ ?_
    · intro c
      have herase := (List.perm_cons_erase mem).count_eq c
      simp only [places, List.count_append, List.count_cons, List.count_nil] at herase ⊢
      omega
    · intro c hc
      simp only [List.mem_append, List.mem_singleton] at hc
      rcases hc with (hc | rfl) | hc
      · exact h.mine c (List.mem_append_left _ hc)
      · exact mine
      · exact h.mine c (List.mem_append_right _ hc)
    · intro c hc
      simp only [List.mem_append, List.mem_singleton] at hc
      rcases hc with (hc | hc | rfl) | hc
      · exact h.begun c (by simp [List.mem_of_mem_erase hc])
      · exact h.begun c (by simp [hc])
      · exact h.begun c (by simp [mem])
      · exact h.begun c (List.mem_append_right _ hc)
  | @ignored b mem other =>
    have hperm : (places s).Perm (b :: places { s with callbacks := s.callbacks.erase b }) := by
      refine List.perm_iff_count.mpr ?_
      intro c
      have herase := (List.perm_cons_erase mem).count_eq c
      simp only [places, List.count_append, List.count_cons] at herase ⊢
      omega
    have hnodup := hperm.nodup_iff.mp h.nodup
    refine ⟨hnodup.of_cons, fun c hc => h.owned c (hperm.mem_iff.mpr (List.mem_cons_of_mem _ hc)), ?_,
      h.mine, ?_⟩
    · intro r hr i hi
      rcases List.mem_cons.mp (hperm.mem_iff.mp (h.whole r hr i hi)) with rfl | hm
      · have hbegun : r ∈ s.begun := h.begun ⟨r, i⟩ (by simp [mem])
        have hstands := hq.stands
        cases hw : s.worker with
        | built q t =>
          rw [hw] at hstands hr
          simp only [Worker.fresh, List.mem_append, Option.mem_toList, List.mem_singleton] at hr
          rcases hr with hr | rfl
          · exact absurd hr other
          · exact absurd hbegun hstands
        | _ => exact absurd (by simpa [hw] using hr) other
      · exact hm
    · intro c hc
      simp only [List.mem_append] at hc
      rcases hc with (hc | hc) | hc
      · exact h.begun c (by simp [List.mem_of_mem_erase hc])
      · exact h.begun c (by simp [hc])
      · exact h.begun c (List.mem_append_right _ hc)

/-! ## The samples -/

/-- The queue of samples works, and a buffer that is about to be enqueued is full. -/
structure Filled (z : Sizes) (s : Output) : Prop where
  pcm : ∃ a, AudioPcmQueue.Refines s.pcm a
  popped : ∀ b data, s.worker = .popped b data → data.length = z.bufferElements
  filled : ∀ b data, s.worker = .filled b data → data.length = z.bufferElements

theorem Filled.works (h : Filled z s) (hw : Works z s s') : Filled z s' := by
  obtain ⟨⟨a, ha⟩, hpopped, hfilled⟩ := h
  cases hw with
  | clear started => exact ⟨⟨_, ha.clear⟩, nofun, nofun⟩
  | reserve cleared => exact ⟨⟨_, ha.push _ _⟩, nofun, nofun⟩
  | fill filling =>
    have hpop := ha.pop z.bufferElements
    refine ⟨⟨_, hpop.1⟩, ?_, nofun⟩
    intro b data hb
    have hdata : (AudioPcmQueue.pop s.pcm z.bufferElements).2 ++
        List.replicate (z.bufferElements - (AudioPcmQueue.pop s.pcm z.bufferElements).2.length) 0 = data :=
      (Worker.popped.inj hb).2
    have hle : (AudioPcmQueue.pop s.pcm z.bufferElements).2.length ≤ z.bufferElements := by
      rw [hpop.2]
      exact List.length_take_le ..
    rw [← hdata, List.length_append, List.length_replicate]
    omega
  | shade popped =>
    refine ⟨⟨a, ha⟩, nofun, ?_⟩
    intro b data hb
    obtain ⟨-, rfl⟩ := Worker.filled.inj hb
    split
    · exact List.length_replicate
    · exact hpopped _ _ popped
  | @replace q t previous replacing quiet => cases previous <;> exact ⟨⟨a, ha⟩, nofun, nofun⟩
  | @close q closing quiet => cases q <;> exact ⟨⟨a, ha⟩, nofun, nofun⟩
  | _ => exact ⟨⟨a, ha⟩, nofun, nofun⟩

theorem Filled.calls (h : Filled z s) (hc : Calls s l s') : Filled z s' := by
  rcases hc.kept with ⟨hk, -⟩ | ⟨-, rfl⟩ | ⟨e, -, rfl⟩
  · refine ⟨?_, ?_, ?_⟩
    · rw [hk.pcm]
      exact h.pcm
    · rw [hk.worker]
      exact h.popped
    · rw [hk.worker]
      exact h.filled
  · exact ⟨h.pcm, nofun, nofun⟩
  · exact ⟨h.pcm, nofun, nofun⟩

theorem Filled.happens (h : Filled z s) (hh : Happens s l s') : Filled z s' := by
  cases hh with
  | push =>
    obtain ⟨a, ha⟩ := h.pcm
    exact ⟨⟨_, ha.push _ _⟩, h.popped, h.filled⟩
  | _ => exact ⟨h.pcm, h.popped, h.filled⟩

/-! ## Every run -/

theorem custody_inductive (z : Sizes) : (outputs z).Inductive fun s => Queues s ∧ Buffers s ∧ Filled z s where
  init := by
    rintro _ rfl
    exact ⟨⟨.nil, .nil, nofun, rfl, nofun⟩, ⟨.nil, nofun, nofun, nofun, nofun⟩,
      ⟨⟨_, AudioPcmQueue.make_refines ..⟩, nofun, nofun⟩⟩
  step s l s' hi hn := by
    obtain ⟨hq, hb, hf⟩ := hi
    rcases next_cases hn with hc | hw | hh
    · exact ⟨hq.calls hc, hb.calls hq hc, hf.calls hc⟩
    · exact ⟨hq.works hw, hb.works hq hw, hf.works hw⟩
    · exact ⟨hq.happens hh, hb.happens hq hh, hf.happens hh⟩

/-- `start` up to the worker's answer. -/
def opening : List Label :=
  [.start, .spawn, .post, .look, .read, .create 5 .complete, .swap, .dispose, .begin 0, .clear, .reserve, .adopt, .answer]

/-- A buffer comes back and is filled again. -/
def refilling : List Label :=
  opening ++ [.wake, .complete ⟨0, 0⟩, .callback ⟨0, 0⟩, .look, .fill, .shade]

/-- The device is changed, and `stop` is called while the first queue is being disposed of. -/
def stopping : List Label :=
  refilling ++ [.enqueue 0, .setDevice 7, .post, .look, .read, .create 5 .complete, .swap, .complete ⟨0, 1⟩, .timeout, .stop]

/-- The worker gets through. -/
def stopped : List Label :=
  stopping ++ [.callback ⟨0, 1⟩, .dispose, .begin 0, .clear, .reserve, .adopt, .answer, .look, .dispose, .finish]

/-- The new device takes two buffers and no third; the queue that plays is kept until `stop`. -/
def abandoned : List Label :=
  refilling ++ [.enqueue 0, .setDevice 7, .post, .look, .read, .create 5 (.failed (.enqueue 2 (-1))), .dispose,
    .answer, .wake, .stop, .look, .dispose, .finish]

def small : Sizes := ⟨16, 8, 4, 2, 1⟩

def after (ls : List Label) : Output := LTS.played (next small) (fun _ _ => True) (initial small) ls

theorem after_reachable {ls : List Label}
    (h : (LTS.play (next small) (fun _ _ => True) (initial small) ls).isSome = true) :
    (outputs small).Reachable (after ls) :=
  ⟨initial small, ls, rfl, (LTS.played_run (fun _ _ _ hs => hs) h).of_guarded⟩

/-- What is enqueued is a full buffer of the current queue that the device has not got. -/
theorem buffers_accounted (h : (outputs z).Reachable s) :
    (∀ q, s.aq = some q → q ∈ s.alive ∧
      ∀ i < 4, (s.device ++ s.callbacks ++ s.free ++ s.worker.hand).count ⟨q, i⟩ = 1) ∧
    (∀ b ∈ s.free ++ s.worker.hand, s.aq = some b.queue ∧ b.index < 4) ∧
    ∀ b data, s.worker = .filled b data → b ∉ s.device ∧ data.length = z.bufferElements := by
  obtain ⟨hq, hb, hf⟩ := (custody_inductive z).reachable s h
  refine ⟨fun q haq => ⟨hq.alive.mem_iff.mpr (by simp [haq]), fun i hi => ?_⟩, fun b hm => ?_, fun b data hw => ?_⟩
  · exact List.count_eq_one_of_mem hb.nodup (hb.whole q (by simp [haq]) i hi)
  · have hplace : b ∈ places s := by
      unfold places
      rw [List.append_assoc]
      exact List.mem_append_right _ hm
    exact ⟨hb.mine b hm, (hb.owned b hplace).2⟩
  · have hnodup := hb.nodup
    unfold places at hnodup
    rw [List.append_assoc, List.append_assoc] at hnodup
    refine ⟨fun hd => (List.nodup_append.mp hnodup).2.2 b hd b (by simp [hw]) rfl, hf.filled b data hw⟩

theorem buffers_accounted_refilling : (after refilling).worker = .filled ⟨0, 0⟩ [0, 0] ∧
    (after refilling).aq = some 0 ∧ (⟨0, 0⟩ : Buffer) ∉ (after refilling).device := by
  have hworker : (after refilling).worker = .filled ⟨0, 0⟩ [0, 0] := by decide +kernel
  have hreachable : (outputs small).Reachable (after refilling) := after_reachable (by decide +kernel)
  have h := buffers_accounted hreachable
  exact ⟨hworker, (h.2.1 ⟨0, 0⟩ (by simp [hworker])).1, (h.2.2 _ _ hworker).1⟩

theorem queues_disposed (h : (outputs z).Reachable s) :
    (s.disposed ++ s.alive).Perm (List.range s.nextQueue) ∧ s.alive.length ≤ 2 ∧
      (s.worker = .absent ∨ s.worker = .closed ∨ s.worker = .gone →
        s.alive = [] ∧ s.device = [] ∧ s.callbacks = [] ∧ s.free = []) := by
  obtain ⟨hq, hb, -⟩ := (custody_inductive z).reachable s h
  refine ⟨hq.once, hq.alive_le, ?_⟩
  intro hw
  have hstands := hq.stands
  have halive := hq.alive
  have hnil : s.alive = [] := by
    rcases hw with hw | hw | hw <;> rw [hw] at hstands halive <;>
      simpa [show s.aq = none from hstands] using halive
  have hplaces : places s = [] := List.eq_nil_iff_forall_not_mem.mpr fun b hm => by
    simpa [hnil] using (hb.owned b hm).1
  unfold places at hplaces
  simp only [List.append_eq_nil_iff] at hplaces
  exact ⟨hnil, hplaces.1.1.1, hplaces.1.1.2, hplaces.1.2⟩

theorem queues_disposed_stopped : ((after stopped).disposed = [0, 1] ∧ (after stopped).alive = []) ∧
    (after abandoned).disposed = [1, 0] ∧ (after abandoned).alive = [] :=
  ⟨⟨by decide +kernel, ((queues_disposed (after_reachable (by decide +kernel))).2.2 (by decide +kernel)).1⟩,
    by decide +kernel, ((queues_disposed (after_reachable (by decide +kernel))).2.2 (by decide +kernel)).1⟩

end KmVirtualCamera.L5.AudioOutput
