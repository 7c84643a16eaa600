import Mathlib
import KmVirtualCamera.Core.LTS
import KmVirtualCamera.L1Encoding.PipeFrame
import KmVirtualCamera.L2Machine.SharedFrame

/-!
# The frame pipe (`PipePublisher`)

`PublishFrame` and `PublishGpuTexture` may run on other threads than the server
loop. A section under `srwLock_` is one step, and so is every access outside it:
`PublishGpuTexture` counts and stamps in two steps, without the lock. The server
thread wakes at any time (a new frame, or 33 ms without one), and a client may
be gone at every write.

`sent` are the headers written on the connection at hand, each with the branch
it comes from: `sequence_` counts the live frames, `standbySeq`, which outlives
a connection, the standby ones.

* `ordered`: the numbers on a connection start at 1 or more and never decrease
  as long as no live frame is copied under a number below `standbySeq` on a
  connection that has carried standby frames, and no counter wraps.
* `live_restarts`: two standby frames and then the first live one: 1, 2, 1.
-/
namespace KmVirtualCamera.L5.FramePipe
open L1.PipeFrame
open L2.SharedFrame (blackNv12)

/-- A call past its checks. -/
inductive Call where
  /-- `PublishFrame` before the section that copies the frame -/
  | frame (nv12Data : Bytes) (captureTimeUs : Int64)
  /-- `PublishGpuTexture` before `sequence_++` -/
  | texture (captureTimeUs : Int64)
  /-- `PublishGpuTexture` after it -/
  | counted (captureTimeUs : Int64)

/-- A header on its way to the client; `standby` if no frame had been published
when it was made. -/
structure Sent where
  standby : Bool
  header : FrameHeader

/-- Where the server thread is.
mirrors windows/receiver/media/pipe_publisher.cpp:174-262 -/
inductive Server where
  | stopped
  /-- the outer loop, up to a client -/
  | listening
  /-- the wait of the inner loop -/
  | waiting
  | copying
  | writingHeader (frame : Sent) (framePayload : Bytes)
  | writingPayload (framePayload : Bytes)
  /-- past the inner loop -/
  | closing

structure PipePublisher where
  isRunning : Bool := false
  latestPayload : Bytes := blackNv12
  sequence : UInt64 := 0
  latestCaptureTimeUs : Int64 := 0
  calls : List Call := []
  server : Server := .stopped
  standbySeq : UInt64 := 0
  sent : List Sent := []

inductive Label where
  | start
  | stop
  | enter (c : Call)
  /-- the next step of the call at a place -/
  | commit (i : Nat)
  | listen (connected : Bool)
  | wake
  | copy (tickCount64 : UInt64)
  | writeHeader (ok : Bool)
  | writePayload (ok : Bool)
  | close

/-- The checks a call begins with.
mirrors windows/receiver/media/pipe_publisher.cpp:70,87 -/
def Call.enters (p : PipePublisher) : Call → Prop
  | .frame nv12Data _ => nv12Data.length = kPayloadBytes.toNat ∧ p.isRunning
  | .texture _ => p.isRunning
  | .counted _ => False

instance (p : PipePublisher) : ∀ c, Decidable (Call.enters p c)
  | .frame _ _ => inferInstanceAs (Decidable (_ ∧ _))
  | .texture _ => inferInstanceAs (Decidable (_ = true))
  | .counted _ => inferInstanceAs (Decidable False)

/-- The next step of a call and what is left of it.
mirrors windows/receiver/media/pipe_publisher.cpp:78-82,111-112 -/
def commit (p : PipePublisher) (i : Nat) : Call → PipePublisher
  | .frame nv12Data captureTimeUs =>
    { p with
      latestPayload := nv12Data
      sequence := p.sequence + 1
      latestCaptureTimeUs := captureTimeUs
      calls := p.calls.eraseIdx i }
  | .texture captureTimeUs =>
    { p with sequence := p.sequence + 1, calls := p.calls.set i (.counted captureTimeUs) }
  | .counted captureTimeUs =>
    { p with latestCaptureTimeUs := captureTimeUs, calls := p.calls.eraseIdx i }

/-- The copy under the lock, and the header made of it.
mirrors windows/receiver/media/pipe_publisher.cpp:223-236 -/
def copy (p : PipePublisher) (tickCount64 : UInt64) : PipePublisher :=
  if p.sequence = 0 then
    let seq := p.standbySeq + 1
    { p with
      standbySeq := seq
      server := .writingHeader ⟨true, createDefaultHeader seq (tickCount64 * 1000).toInt64 0⟩ p.latestPayload }
  else
    { p with
      server := .writingHeader ⟨false, createDefaultHeader p.sequence p.latestCaptureTimeUs 0⟩ p.latestPayload }

/-- The thread goes round the outer loop while the publisher runs. -/
def PipePublisher.again (p : PipePublisher) : PipePublisher :=
  { p with server := if p.isRunning then .listening else .stopped }

/-- `none`: not enabled. `Start` is called with no server thread left: `Stop`
joins it. -/
def next (p : PipePublisher) : Label → Option PipePublisher
  | .start =>
    match p.server with
    | .stopped =>
      some (if p.isRunning then p
        else { p with isRunning := true, server := .listening, standbySeq := 0, sent := [] })
    | _ => none
  | .stop => some { p with isRunning := false }
  | .enter c => some (if c.enters p then { p with calls := p.calls ++ [c] } else p)
  | .commit i => (p.calls[i]?).map (commit p i)
  | .listen connected =>
    match p.server with
    | .listening => some (if connected then { p with server := .waiting, sent := [] } else p.again)
    | _ => none
  | .wake =>
    match p.server with
    | .waiting => some { p with server := if p.isRunning then .copying else .closing }
    | _ => none
  | .copy tickCount64 =>
    match p.server with
    | .copying => some (copy p tickCount64)
    | _ => none
  | .writeHeader ok =>
    match p.server with
    | .writingHeader frame framePayload =>
      some (if ok then { p with server := .writingPayload framePayload, sent := p.sent ++ [frame] }
        else { p with server := .closing })
    | _ => none
  | .writePayload ok =>
    match p.server with
    | .writingPayload _ => some { p with server := if ok then .waiting else .closing }
    | _ => none
  | .close =>
    match p.server with
    | .closing => some p.again
    | _ => none

def pipe : LTS PipePublisher Label where
  init p := p = {}
  step p l p' := next p l = some p'

def Sent.seq (x : Sent) : UInt64 := x.header.sequence

/-! ## Numbers in order -/

/-- The numbers on the connection at hand start at 1 or more and never decrease. -/
def Monotonic (p : PipePublisher) : Prop :=
  (∀ x ∈ p.sent, 1 ≤ x.seq) ∧ p.sent.Pairwise fun x y => x.seq ≤ y.seq

/-- The next step of the call is `sequence_++`. -/
def Call.counts : Call → Bool
  | .counted _ => false
  | _ => true

/-- A live frame is copied under a number that the standby frames of the
connection have not passed, and no counter wraps. -/
def InOrder (p : PipePublisher) : Label → Prop
  | .commit i => (p.calls[i]?).any Call.counts → p.sequence + 1 ≠ 0
  | .copy _ => (p.sequence = 0 → p.standbySeq + 1 ≠ 0) ∧
      (p.sequence ≠ 0 → ∀ x ∈ p.sent, x.standby → p.standbySeq ≤ p.sequence)
  | _ => True

instance (p : PipePublisher) : ∀ l, Decidable (InOrder p l)
  | .commit _ => inferInstanceAs (Decidable (_ → _))
  | .copy _ => inferInstanceAs (Decidable (_ ∧ _))
  | .start | .stop | .enter _ | .listen _ | .wake | .writeHeader _ | .writePayload _ | .close =>
    inferInstanceAs (Decidable True)

theorem succ_of_ne {x : UInt64} (h : x + 1 ≠ 0) : x ≤ x + 1 ∧ 1 ≤ x + 1 := by
  have hne : (x + 1).toNat ≠ 0 := fun heq => h (UInt64.toNat_inj.mp heq)
  have hlt := x.toNat_lt
  rw [UInt64.toNat_add, UInt64.toNat_one] at hne
  rw [UInt64.le_iff_toNat_le, UInt64.le_iff_toNat_le, UInt64.toNat_add, UInt64.toNat_one]
  omega

theorem one_le_of_ne_zero {x : UInt64} (h : x ≠ 0) : 1 ≤ x := by
  have hne : x.toNat ≠ 0 := fun heq => h (UInt64.toNat_inj.mp heq)
  rw [UInt64.le_iff_toNat_le, UInt64.toNat_one]
  omega

/-- The counter a header was numbered by. -/
def PipePublisher.counter (p : PipePublisher) (standby : Bool) : UInt64 :=
  if standby then p.standbySeq else p.sequence

/-- A header that has a number its counter has reached. -/
def Numbered (p : PipePublisher) (x : Sent) : Prop := 1 ≤ x.seq ∧ x.seq ≤ p.counter x.standby

structure Inv (p : PipePublisher) : Prop where
  numbered : ∀ x ∈ p.sent, Numbered p x
  ordered : p.sent.Pairwise fun x y => x.seq ≤ y.seq
  pending : ∀ x payload, p.server = .writingHeader x payload → Numbered p x ∧ ∀ y ∈ p.sent, y.seq ≤ x.seq

theorem Numbered.mono {p q : PipePublisher} {x : Sent} (h : Numbered p x)
    (hseq : p.sequence ≤ q.sequence) (hstandby : p.standbySeq ≤ q.standbySeq) : Numbered q x := by
  refine ⟨h.1, UInt64.le_trans h.2 ?_⟩
  unfold PipePublisher.counter
  split
  · exact hstandby
  · exact hseq

/-- Before the first publish only standby frames are sent. -/
theorem Numbered.standby {p : PipePublisher} {x : Sent} (h : Numbered p x) (h0 : p.sequence = 0) :
    x.standby = true := by
  by_contra hlive
  have hle := UInt64.le_trans h.1 h.2
  rw [PipePublisher.counter, if_neg hlive, h0] at hle
  exact absurd hle (by decide)

/-- What leaves the headers and the counters alone, or raises the counters. -/
theorem Inv.frame {p q : PipePublisher} (h : Inv p) (hsent : q.sent = p.sent)
    (hseq : p.sequence ≤ q.sequence) (hstandby : p.standbySeq ≤ q.standbySeq)
    (hserver : ∀ x payload, q.server = .writingHeader x payload → p.server = .writingHeader x payload) :
    Inv q where
  numbered x hx := (h.numbered x (hsent ▸ hx)).mono hseq hstandby
  ordered := hsent ▸ h.ordered
  pending x payload hq := by
    obtain ⟨hnum, hle⟩ := h.pending x payload (hserver x payload hq)
    exact ⟨hnum.mono hseq hstandby, hsent ▸ hle⟩

/-- The server moves on to a place that holds no header. -/
theorem Inv.goto {p : PipePublisher} (h : Inv p) (s : Server) (hs : ∀ x payload, s ≠ .writingHeader x payload) :
    Inv { p with server := s } :=
  h.frame rfl (UInt64.le_refl _) (UInt64.le_refl _) fun x payload hq => absurd hq (hs x payload)

theorem inv_unsent {p : PipePublisher} (hsent : p.sent = [])
    (hserver : ∀ x payload, p.server ≠ .writingHeader x payload) : Inv p where
  numbered x hx := by rw [hsent] at hx; cases hx
  ordered := by rw [hsent]; exact List.Pairwise.nil
  pending x payload hp := absurd hp (hserver x payload)

theorem Inv.again {p : PipePublisher} (h : Inv p) : Inv p.again := by
  refine h.goto _ ?_
  intro x payload
  split <;> exact nofun

theorem Inv.commit {p : PipePublisher} (h : Inv p) {i : Nat} {c : Call} (hc : p.calls[i]? = some c)
    (hg : InOrder p (.commit i)) : Inv (commit p i c) := by
  cases c with
  | frame nv12Data captureTimeUs =>
    have hle := (succ_of_ne (hg (by rw [hc]; rfl))).1
    exact h.frame rfl hle (UInt64.le_refl _) fun _ _ hq => hq
  | texture captureTimeUs =>
    have hle := (succ_of_ne (hg (by rw [hc]; rfl))).1
    exact h.frame rfl hle (UInt64.le_refl _) fun _ _ hq => hq
  | counted captureTimeUs => exact h.frame rfl (UInt64.le_refl _) (UInt64.le_refl _) fun _ _ hq => hq

theorem Inv.copy {p : PipePublisher} (h : Inv p) {tickCount64 : UInt64} (hg : InOrder p (.copy tickCount64)) :
    Inv (copy p tickCount64) := by
  obtain ⟨hwrap, hlive⟩ := hg
  unfold FramePipe.copy
  by_cases h0 : p.sequence = 0
  · rw [if_pos h0]
    obtain ⟨hle, hpos⟩ := succ_of_ne (hwrap h0)
    refine ⟨fun x hx => (h.numbered x hx).mono (UInt64.le_refl _) hle, h.ordered, ?_⟩
    intro x payload hq
    cases hq
    refine ⟨⟨hpos, UInt64.le_refl _⟩, ?_⟩
    intro y hy
    have hy' := h.numbered y hy
    have hcount := hy'.2
    rw [PipePublisher.counter, if_pos (hy'.standby h0)] at hcount
    exact UInt64.le_trans hcount hle
  · rw [if_neg h0]
    refine ⟨fun x hx => h.numbered x hx, h.ordered, ?_⟩
    intro x payload hq
    cases hq
    refine ⟨⟨one_le_of_ne_zero h0, UInt64.le_refl _⟩, ?_⟩
    intro y hy
    have hcount := (h.numbered y hy).2
    unfold PipePublisher.counter at hcount
    by_cases hstandby : y.standby
    · rw [if_pos hstandby] at hcount
      exact UInt64.le_trans hcount (hlive h0 y hy hstandby)
    · rw [if_neg hstandby] at hcount
      exact hcount

/-- The header is written: it comes after all that were. -/
theorem Inv.writeHeader {p : PipePublisher} (h : Inv p) {x : Sent} {payload : Bytes}
    (hserver : p.server = .writingHeader x payload) :
    Inv { p with server := .writingPayload payload, sent := p.sent ++ [x] } := by
  obtain ⟨hnum, hle⟩ := h.pending x payload hserver
  refine ⟨?_, ?_, fun y payload' hq => by cases hq⟩
  · intro y hy
    rcases List.mem_append.mp hy with hy | hy
    · exact h.numbered y hy
    · rw [List.mem_singleton.mp hy]
      exact hnum
  · refine List.pairwise_append.mpr ⟨h.ordered, List.pairwise_singleton .., ?_⟩
    intro y hy z hz
    rw [List.mem_singleton.mp hz]
    exact hle y hy

theorem inv_inductive : (pipe.guarded InOrder).Inductive Inv where
  init p hp := by
    rw [hp]
    exact inv_unsent rfl nofun
  step p l p' h hs := by
    obtain ⟨hstep, hg⟩ := hs
    change next p l = some p' at hstep
    cases l with
    | start =>
      simp only [next] at hstep
      split at hstep
      · rw [Option.some.injEq] at hstep
        rw [← hstep]
        split
        · exact h
        · exact inv_unsent rfl nofun
      · cases hstep
    | stop =>
      cases hstep
      exact h.frame rfl (UInt64.le_refl _) (UInt64.le_refl _) fun _ _ hq => hq
    | enter c =>
      simp only [next, Option.some.injEq] at hstep
      rw [← hstep]
      split
      · exact h.frame rfl (UInt64.le_refl _) (UInt64.le_refl _) fun _ _ hq => hq
      · exact h
    | commit i =>
      obtain ⟨c, hc, rfl⟩ := Option.map_eq_some_iff.mp hstep
      exact h.commit hc hg
    | listen connected =>
      simp only [next] at hstep
      split at hstep
      · rw [Option.some.injEq] at hstep
        rw [← hstep]
        split
        · exact inv_unsent rfl nofun
        · exact h.again
      · cases hstep
    | wake =>
      simp only [next] at hstep
      split at hstep
      · cases hstep
        refine h.goto _ ?_
        intro x payload
        split <;> exact nofun
      · cases hstep
    | copy tickCount64 =>
      simp only [next] at hstep
      split at hstep
      · cases hstep
        exact h.copy hg
      · cases hstep
    | writeHeader ok =>
      simp only [next] at hstep
      split at hstep
      · rename_i x payload hserver
        rw [Option.some.injEq] at hstep
        rw [← hstep]
        split
        · exact h.writeHeader hserver
        · exact h.goto _ nofun
      · cases hstep
    | writePayload ok =>
      simp only [next] at hstep
      split at hstep
      · cases hstep
        refine h.goto _ ?_
        intro x payload
        split <;> exact nofun
      · cases hstep
    | close =>
      simp only [next] at hstep
      split at hstep
      · cases hstep
        exact h.again
      · cases hstep

/-- **In order.** In a run whose steps are all in order, the numbers on every
connection start at 1 or more and never decrease. -/
theorem ordered (p : PipePublisher) (h : (pipe.guarded InOrder).Reachable p) : Monotonic p := by
  have hi := inv_inductive.reachable p h
  exact ⟨fun x hx => (hi.numbered x hx).1, hi.ordered⟩

/-! ## The first live frame -/

/-- The steps of the server for one frame that the client takes. -/
def oneFrame : List Label := [.wake, .copy 33, .writeHeader true, .writePayload true]

/-- A client connects and is sent `n` standby frames. -/
def standbyFrames (n : Nat) : List Label := [.start, .listen true] ++ (List.replicate n oneFrame).flatten

/-- A black frame is published. -/
def firstFrame : Call := .frame blackNv12 7

def anyStep (_ : PipePublisher) (_ : Label) : Prop := True

instance (p : PipePublisher) (l : Label) : Decidable (anyStep p l) := inferInstanceAs (Decidable True)

theorem step_enter {p : PipePublisher} (hrun : p.isRunning = true) :
    pipe.step p (.enter firstFrame) { p with calls := p.calls ++ [firstFrame] } := by
  have hlen : blackNv12.length = kPayloadBytes.toNat := L2.SharedFrame.blackNv12_length
  have henters : Call.enters p firstFrame := ⟨hlen, hrun⟩
  change next p _ = _
  rw [next, if_pos henters]

/-- After `n` standby frames the first live one is sent. -/
def liveAfter (n : Nat) : PipePublisher :=
  let p := LTS.played next anyStep {} (standbyFrames n)
  LTS.played next anyStep { p with calls := p.calls ++ [firstFrame] } (.commit 0 :: oneFrame)

/-- After one standby frame the first live one has the same number. -/
theorem ordered_one : Monotonic (liveAfter 1) := by
  have hstandby : (pipe.guarded InOrder).Run {} (standbyFrames 1) (LTS.played next InOrder {} (standbyFrames 1)) :=
    LTS.played_run (fun _ _ _ h => h) rfl
  have hlive : (pipe.guarded InOrder).Run
      { LTS.played next InOrder {} (standbyFrames 1) with calls := [firstFrame] } (.commit 0 :: oneFrame)
      (liveAfter 1) :=
    LTS.play_run (fun _ _ _ h => h) rfl
  exact ordered _ ⟨{}, _, rfl, hstandby.append (.cons ⟨step_enter rfl, trivial⟩ hlive)⟩

/-- **Starts again.** Two standby frames and then the first live one are sent as 1, 2, 1. -/
theorem live_restarts : pipe.Reachable (liveAfter 2) ∧ (liveAfter 2).sent.map Sent.seq = [1, 2, 1] ∧
    ¬ Monotonic (liveAfter 2) := by
  have hseq : (liveAfter 2).sent.map Sent.seq = [1, 2, 1] := rfl
  have hstandby : pipe.Run {} (standbyFrames 2) (LTS.played next anyStep {} (standbyFrames 2)) :=
    (LTS.played_run (fun _ _ _ h => h) rfl).of_guarded
  have hlive : pipe.Run _ (.commit 0 :: oneFrame) (liveAfter 2) :=
    (LTS.played_run (fun _ _ _ h => h) rfl).of_guarded
  refine ⟨⟨{}, _, rfl, hstandby.append (.cons (step_enter rfl) hlive)⟩, hseq, ?_⟩
  intro hmono
  have hsorted := List.pairwise_map.mpr hmono.2
  rw [hseq] at hsorted
  exact absurd hsorted (by decide)

end KmVirtualCamera.L5.FramePipe
