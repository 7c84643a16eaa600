import Mathlib
import KmVirtualCamera.L5Concurrency.VideoPipeline

/-!
# A failure that is noticed late

`needKeyframe_` of the pipeline and `needIdr` of the decoder carry no position:
a failure raises them when it is noticed, whatever has come in behind the access
unit that failed. A random-access unit that was accepted meanwhile has then
repaired the chain for nothing: the frames behind it are turned away.

* `unbroken`: behind a random-access unit with no failure at or after it, no
  access unit is turned away for want of a keyframe or an IDR, in every run in
  which failures are noticed before such a unit comes in behind them (`Prompt`).
* `late_failure`: a failure noticed behind the repairing IDR.
-/
namespace KmVirtualCamera.L5.VideoPipeline
open KmVirtualCamera.L1.H264 KmVirtualCamera.L4.VideoToolbox

/-! ## The decoder -/

def needIdrText : String := "Need IDR and SPS/PPS"

/-- The next frame may go in without an IDR. -/
structure Ready (d : Decoder) : Prop where
  sps : d.sps ≠ []
  pps : d.pps ≠ []
  needIdr : d.needIdr = false

/-- The access unit brings parameter sets other than those in use. -/
def bringsSets (d : Decoder) (annexB : Bytes) : Bool :=
  match splitAnnexB annexB with
  | none => false
  | some nalus =>
    let sps := lastOf 7 nalus
    let pps := lastOf 8 nalus
    decide ((sps ≠ [] ∨ pps ≠ []) ∧ (sps ≠ d.sps ∨ pps ≠ d.pps))

theorem ensureOpen_some {d d' : Decoder} {s : System} {error : String} (h : ensureOpen d s = (d', some error)) :
    ∃ behindFormat, s.opens = some (error, behindFormat) := by
  unfold ensureOpen at h
  split at h
  · cases h
  · split at h
    · cases h
    · rename_i e behindFormat hopens
      obtain ⟨-, he⟩ := Prod.mk.inj h
      rw [Option.some.inj he] at hopens
      exact ⟨behindFormat, hopens⟩

theorem ensureOpen_none {d d' : Decoder} {s : System} (h : ensureOpen d s = (d', none)) :
    d'.sps = d.sps ∧ d'.pps = d.pps ∧ d'.needIdr = d.needIdr := by
  unfold ensureOpen at h
  split at h
  · rw [← (Prod.mk.inj h).1]
    exact ⟨rfl, rfl, rfl⟩
  · split at h
    · rw [← (Prod.mk.inj h).1]
      exact ⟨rfl, rfl, rfl⟩
    · cases h

/-- What goes into the window leaves the decoder ready. -/
theorem submit_ready {d : Decoder} {annexB : Bytes} {s : System} (h : (submit d annexB s).2 = .queued) :
    Ready (submit d annexB s).1 := by
  unfold submit at h ⊢
  cases hsplit : splitAnnexB annexB with
  | none =>
    rw [hsplit] at h
    cases h
  | some nalus =>
    rw [hsplit] at h
    dsimp only at h ⊢
    split at h
    · cases h
    · rename_i hpair
      rw [if_neg hpair]
      split at h
      · cases h
      · rename_i hvcl
        rw [if_neg hvcl]
        split at h
        · cases h
        · rename_i hready
          rw [if_neg hready]
          cases hopen : ensureOpen (adoptSets d (lastOf 7 nalus) (lastOf 8 nalus)) s with
          | mk d' refused =>
            rw [hopen] at h
            cases refused with
            | some error => cases h
            | none =>
              dsimp only at h ⊢
              split at h
              · cases h
              · rename_i hroom
                rw [if_neg hroom]
                cases hsample : s.sample with
                | some status =>
                  rw [hsample] at h
                  cases h
                | none =>
                  obtain ⟨hsps, hpps, hidr⟩ := ensureOpen_none hopen
                  push Not at hready
                  refine ⟨by rw [hsps]; exact hready.1, by rw [hpps]; exact hready.2.1, ?_⟩
                  dsimp only
                  cases hany : nalus.any (naluType · == 5) with
                  | true => rfl
                  | false =>
                    rw [if_neg Bool.false_ne_true, hidr]
                    by_contra hn
                    exact hready.2.2 (Bool.eq_true_of_not_eq_false hn) hany

/-- An access unit without a picture that brings no other parameter sets changes nothing. -/
theorem submit_noOutput {d : Decoder} {annexB : Bytes} {s : System} (h : (submit d annexB s).2 = .noOutput)
    (hsets : bringsSets d annexB = true → hasIdr annexB = true) : (submit d annexB s).1 = d := by
  unfold submit at h ⊢
  unfold bringsSets hasIdr at hsets
  cases hsplit : splitAnnexB annexB with
  | none => rfl
  | some nalus =>
    rw [hsplit] at h hsets
    dsimp only at h hsets ⊢
    split at h
    · cases h
    · rename_i hpair
      rw [if_neg hpair]
      split at h
      · rename_i hvcl
        rw [if_pos hvcl]
        unfold adoptSets
        split
        · rename_i hchange
          rw [hsets (decide_eq_true hchange), Bool.or_true] at hvcl
          cases hvcl
        · rfl
      · split at h
        · cases h
        · split at h
          · cases h
          · split at h
            · cases h
            · split at h <;> cases h

/-- A ready decoder asks for an IDR only where other parameter sets come without one. -/
theorem submit_needsNone {d : Decoder} {annexB : Bytes} {s : System} (hd : Ready d)
    (hsets : bringsSets d annexB = true → hasIdr annexB = true)
    (hs : ∀ behindFormat, s.opens ≠ some (needIdrText, behindFormat)) :
    (submit d annexB s).2 ≠ .failed needIdrText := by
  unfold submit
  unfold bringsSets hasIdr at hsets
  cases hsplit : splitAnnexB annexB with
  | none => exact fun h => by simp [needIdrText] at h
  | some nalus =>
    rw [hsplit] at hsets
    dsimp only at hsets ⊢
    split
    · exact fun h => by simp [needIdrText] at h
    · rename_i hpair
      split
      · exact fun h => by cases h
      · split
        · rename_i hneed
          exfalso
          unfold adoptSets at hneed
          split at hneed
          · rename_i hchange
            have hidr := hsets (decide_eq_true hchange)
            rcases hneed with hsps | hpps | ⟨-, hnone⟩
            · exact hpair ⟨hchange.1, .inl hsps⟩
            · exact hpair ⟨hchange.1, .inr hpps⟩
            · rw [hidr] at hnone
              cases hnone
          · rcases hneed with hsps | hpps | ⟨hn, -⟩
            · exact hd.sps hsps
            · exact hd.pps hpps
            · rw [hd.needIdr] at hn
              cases hn
        · cases hopen : ensureOpen (adoptSets d (lastOf 7 nalus) (lastOf 8 nalus)) s with
          | mk d' refused =>
            cases refused with
            | some error =>
              obtain ⟨behindFormat, hopens⟩ := ensureOpen_some hopen
              intro h
              have herror : error = needIdrText := SubmitOutcome.failed.inj h
              exact hs behindFormat (herror ▸ hopens)
            | none =>
              dsimp only
              split
              · exact fun h => by simp [needIdrText] at h
              · split
                · intro h
                  have htext := congrArg (fun t => t.toList.head?) (SubmitOutcome.failed.inj h)
                  simp [needIdrText, toString] at htext
                · exact fun h => by cases h

/-- A failure that is not taken leaves the decoder ready. -/
theorem takeOldest_ready {d : Decoder} {a : Answer} {image : Bool} (hd : Ready d)
    (h : (takeOldest d a).2 = .ok image) : Ready (takeOldest d a).1 := by
  unfold takeOldest at h ⊢
  cases hin : d.inflight with
  | nil =>
    rw [hin] at h
    cases h
  | cons slot rest =>
    rw [hin] at h
    cases slot with
    | some error => cases h
    | none =>
      cases a with
      | image => exact ⟨hd.sps, hd.pps, hd.needIdr⟩
      | dropped => exact ⟨hd.sps, hd.pps, hd.needIdr⟩
      | status status => cases h
      | invalidated => cases h

/-! ## The chain -/

/-- The access unit failed in the decoder. -/
def Failed (log : List Event) (y : QueuedAu) : Prop := .refused y ∈ log ∨ .lost y ∈ log

/-- A random-access unit of the current epoch with no failure at or after it. -/
structure Repairs (log : List Event) (r : QueuedAu) : Prop where
  accepted : .accepted r ∈ log
  randomAccess : r.frame.randomAccess = true
  era : r.era = era log
  later : ∀ y, Failed log y → y.serial < r.serial

/-- The step turns away no access unit behind such a unit: not in `submit` for
want of a keyframe, nor, once the unit went into the decoder, in the decoder for
want of an IDR. The system's errors are its own. -/
def Unbroken (w : World) : Label → Prop
  | .submit frame => ∀ r, Repairs w.log r → (submitLocked w frame).2 ≠ .needKeyframe
  | .work o => ∀ r k item, Repairs w.log r → .handed r ∈ w.log → w.worker = some k → k.pc = .decoding item →
      r.serial < item.serial → (∀ behindFormat, o.system.opens ≠ some (needIdrText, behindFormat)) →
        (submit k.decoder item.frame.annexB o.system).2 ≠ .failed needIdrText
  | _ => True

def Event.accepted? : Event → Option QueuedAu
  | .accepted x => some x
  | _ => none

def Event.handed? : Event → Option QueuedAu
  | .handed x => some x
  | _ => none

def Event.failed? : Event → Option QueuedAu
  | .refused x | .lost x => some x
  | _ => none

theorem mem_failed {log : List Event} {y : QueuedAu} (h : Failed log y) : y ∈ log.filterMap Event.failed? := by
  rw [List.mem_filterMap]
  rcases h with h | h
  · exact ⟨_, h, rfl⟩
  · exact ⟨_, h, rfl⟩

theorem mem_accepted {log : List Event} {y : QueuedAu} :
    y ∈ log.filterMap Event.accepted? ↔ .accepted y ∈ log := by
  rw [List.mem_filterMap]
  constructor
  · intro ⟨e, he, hy⟩
    cases e <;> cases hy
    exact he
  · exact fun h => ⟨_, h, rfl⟩

/-- Other entries accept nothing. -/
theorem accepted_mem_snoc {log : List Event} {e : Event} {y : QueuedAu} (h : .accepted y ∈ log ++ [e])
    (hnew : e.accepted? = none) : .accepted y ∈ log := by
  rcases List.mem_append.mp h with h | h
  · exact h
  · rw [← List.mem_singleton.mp h] at hnew
    cases hnew

/-- Other entries hand nothing over. -/
theorem handed_mem_snoc {log : List Event} {e : Event} {y : QueuedAu} (h : .handed y ∈ log ++ [e]) :
    .handed y ∈ log ∨ e.handed? = some y := by
  rcases List.mem_append.mp h with h | h
  · exact .inl h
  · rw [← List.mem_singleton.mp h]
    exact .inr rfl

theorem mem_handed {log : List Event} {y : QueuedAu} : y ∈ log.filterMap Event.handed? ↔ .handed y ∈ log := by
  rw [List.mem_filterMap]
  constructor
  · intro ⟨e, he, hy⟩
    cases e <;> cases hy
    exact he
  · exact fun h => ⟨_, h, rfl⟩

/-- None of the access units is a random-access one of the epoch behind number `n`. -/
def NoneBehind (ys : List QueuedAu) (era n : Nat) : Prop :=
  ∀ y ∈ ys, y.era = era → y.frame.randomAccess = true → y.serial ≤ n

instance (ys : List QueuedAu) (era n : Nat) : Decidable (NoneBehind ys era n) :=
  inferInstanceAs (Decidable (∀ y ∈ ys, _ → _ → _))

def Pc.decoding? : Pc → Option QueuedAu
  | .decoding x => some x
  | _ => none

/-- The access unit whose failure is about to arm `needKeyframe_`. -/
def Pc.noticing? : Pc → Option QueuedAu
  | .refused x | .failed x => some x
  | _ => none

def Pc.isTaking : Pc → Bool
  | .taking => true
  | _ => false

/-- A failure is noticed before a random-access unit behind it goes into the
decoder (where it raises `needIdr`) or is accepted (where it arms
`needKeyframe_`), and once such a unit is in the decoder other parameter sets
come with an IDR. -/
structure PromptWork (w : World) (k : Worker) (o : Oracle) : Prop where
  sets : ∀ item ∈ k.pc.decoding?, bringsSets k.decoder item.frame.annexB = true →
    (∃ y ∈ w.log.filterMap Event.handed?, y.era = era w.log ∧ y.frame.randomAccess = true) →
      hasIdr item.frame.annexB = true
  taken : k.pc.isTaking = true → (takeOldest k.decoder o.answer).2.isOk = false →
    ∀ head ∈ k.inflight.head?, NoneBehind (w.log.filterMap Event.handed?) (era w.log) head.serial
  armed : ∀ item ∈ k.pc.noticing?, item.epoch = w.p.epoch →
    NoneBehind (w.log.filterMap Event.accepted?) (era w.log) item.serial

instance (w : World) (k : Worker) (o : Oracle) : Decidable (PromptWork w k o) :=
  decidable_of_iff
    ((∀ item ∈ k.pc.decoding?, bringsSets k.decoder item.frame.annexB = true →
        (∃ y ∈ w.log.filterMap Event.handed?, y.era = era w.log ∧ y.frame.randomAccess = true) →
          hasIdr item.frame.annexB = true) ∧
      (k.pc.isTaking = true → (takeOldest k.decoder o.answer).2.isOk = false →
        ∀ head ∈ k.inflight.head?, NoneBehind (w.log.filterMap Event.handed?) (era w.log) head.serial) ∧
      (∀ item ∈ k.pc.noticing?, item.epoch = w.p.epoch →
        NoneBehind (w.log.filterMap Event.accepted?) (era w.log) item.serial))
    ⟨fun h => ⟨h.1, h.2.1, h.2.2⟩, fun h => ⟨h.sets, h.taken, h.armed⟩⟩

/-- What the steps of the run keep to; `Fresh` is that no epoch wraps around. -/
def Prompt (w : World) : Label → Prop
  | .work o => w.Fresh ∧ ∀ k ∈ w.worker, PromptWork w k o
  | _ => w.Fresh

instance (w : World) : ∀ l, Decidable (Prompt w l)
  | .work o => inferInstanceAs (Decidable (w.Fresh ∧ ∀ k ∈ w.worker, PromptWork w k o))
  | .submit _ | .start .. | .stop | .joined => inferInstanceAs (Decidable w.Fresh)

/-! ## The invariant -/

/-- The access units that have not been handed to the decoder yet. -/
def World.coming (w : World) : List QueuedAu :=
  (match w.worker with
    | some k => k.pc.decoding?.toList
    | none => []) ++ w.p.queue

/-- The failure behind the worker's place is in the log. -/
def Pc.Blames (log : List Event) : Pc → Prop
  | .refused x | .failed x | .taken x (.error _) => Failed log x
  | _ => True

structure Newer (w : World) : Prop where
  past : ∀ y, .accepted y ∈ w.log → y.era ≤ era w.log
  behind : ∀ y, .handed y ∈ w.log → ∀ x ∈ w.coming, y.serial < x.serial
  blames : ∀ k, w.worker = some k → k.pc.Blames w.log
  keyframe : ∀ r, Repairs w.log r → w.p.needKeyframe = false
  ready : ∀ r, Repairs w.log r → .handed r ∈ w.log → ∀ k, w.worker = some k → Ready k.decoder

section Newer
variable {w w' : World}

theorem Failed.mono {log log' : List Event} {y : QueuedAu} (h : Failed log y) (hsub : log ⊆ log') : Failed log' y :=
  h.imp (fun h => hsub h) fun h => hsub h

theorem Pc.Blames.mono {log log' : List Event} {pc : Pc} (h : pc.Blames log) (hsub : log ⊆ log') : pc.Blames log' := by
  unfold Pc.Blames at h ⊢
  split
  · exact Failed.mono h hsub
  · exact Failed.mono h hsub
  · exact Failed.mono h hsub
  · trivial

/-- The log stays as it is. -/
theorem Newer.moves (h : Newer w) (hlog : w'.log = w.log) (hcoming : w'.coming ⊆ w.coming)
    (hkeyframe : w'.p.needKeyframe = w.p.needKeyframe)
    (hblames : ∀ k, w'.worker = some k → k.pc.Blames w.log)
    (hready : ∀ r, Repairs w.log r → .handed r ∈ w.log → ∀ k, w'.worker = some k → Ready k.decoder) : Newer w' where
  past := hlog ▸ h.past
  behind y hy x hx := h.behind y (hlog ▸ hy) x (hcoming hx)
  blames := hlog ▸ hblames
  keyframe r hr := hkeyframe.trans (h.keyframe r (hlog ▸ hr))
  ready := hlog ▸ hready

/-- What repairs the chain after an entry that accepts nothing did so before it. -/
theorem Repairs.before {log : List Event} {e : Event} {r : QueuedAu} (h : Repairs (log ++ [e]) r)
    (hnew : e.accepted? = none) (hera : VideoPipeline.era (log ++ [e]) = VideoPipeline.era log) : Repairs log r where
  accepted := accepted_mem_snoc h.accepted hnew
  randomAccess := h.randomAccess
  era := h.era.trans hera
  later y hy := h.later y (hy.mono (List.subset_append_left _ _))

/-- An entry that accepts nothing and starts no epoch. -/
theorem Newer.note (h : Newer w) {e : Event} (hnew : e.accepted? = none) (hera : era (w.log ++ [e]) = era w.log)
    (hhanded : ∀ y, e.handed? = some y → (∀ x ∈ w.coming, y.serial < x.serial) ∧
      ∀ k, w.worker = some k → Ready k.decoder) : Newer { w with log := w.log ++ [e] } where
  past y hy := by
    rw [hera]
    exact h.past y (accepted_mem_snoc hy hnew)
  behind y hy x hx := by
    rcases handed_mem_snoc hy with hy | he
    · exact h.behind y hy x hx
    · exact (hhanded y he).1 x hx
  blames k hk := (h.blames k hk).mono (List.subset_append_left _ _)
  keyframe r hr := h.keyframe r (hr.before hnew hera)
  ready r hr hy k hk := by
    rcases handed_mem_snoc hy with hy | he
    · exact h.ready r (hr.before hnew hera) hy k hk
    · exact (hhanded r he).2 k hk

/-- An entry that only remarks on what happened. -/
theorem Newer.remark (h : Newer w) {e : Event} (hnew : e.accepted? = none) (hhanded : e.handed? = none)
    (hera : era (w.log ++ [e]) = era w.log) : Newer { w with log := w.log ++ [e] } :=
  h.note hnew hera fun y hy => by
    rw [hhanded] at hy
    cases hy

/-- The worker goes to a place that holds nothing back. -/
theorem Newer.goto (h : Newer w) {k : Worker} (hw : w.worker = some k) {pc : Pc} (hdecoding : pc.decoding? = none)
    (hblames : pc.Blames w.log) : Newer { w with worker := some { k with pc := pc } } := by
  refine h.moves rfl ?_ rfl ?_ ?_
  · unfold World.coming
    dsimp only
    rw [hdecoding]
    exact List.subset_append_right _ _
  · intro k' hk'
    cases hk'
    exact hblames
  · intro r hr hy k' hk'
    cases hk'
    exact h.ready r hr hy k hw

/-- A new epoch: nothing has been accepted in it. -/
theorem Newer.epoch (h : Newer w) {e : Event} (hnew : e.accepted? = none) (hhanded : e.handed? = none)
    (hera : era (w.log ++ [e]) = era w.log + 1) (hlog : w'.log = w.log ++ [e])
    (hcoming : w'.coming ⊆ w.coming) (hblames : ∀ k, w'.worker = some k → k.pc.Blames w'.log) : Newer w' := by
  have hold : ∀ y, .accepted y ∈ w'.log → y.era ≤ era w.log := fun y hy =>
    h.past y (accepted_mem_snoc (hlog ▸ hy) hnew)
  have hnone : ∀ r, ¬ Repairs w'.log r := fun r hr => by
    have hle := hold r hr.accepted
    have heq := hr.era
    rw [hlog, hera] at heq
    omega
  refine ⟨?_, ?_, hblames, fun r hr => absurd hr (hnone r),
    fun r hr => absurd hr (hnone r)⟩
  · intro y hy
    rw [hlog, hera]
    exact Nat.le_succ_of_le (hold y hy)
  · intro y hy x hx
    rw [hlog] at hy
    rcases handed_mem_snoc hy with hy | he
    · exact h.behind y hy x (hcoming hx)
    · rw [hhanded] at he
      cases he

theorem accepted_of_handed (hi : Inv w) {y : QueuedAu} (hy : .handed y ∈ w.log) : .accepted y ∈ w.log := by
  obtain ⟨pre, hsub, hacc, -⟩ := allowed_of_mem hi.allowed hy
  exact hsub hacc

/-- An access unit is accepted; one that is no random-access unit, behind one that is. -/
theorem Newer.accept (h : Newer w) (hi : Inv w) {frame : EncodedVideoFrame} :
    let x : QueuedAu := ⟨frame, w.p.epoch, w.serial, era w.log⟩
    Newer { w with
      p := { w.p with needKeyframe := if frame.randomAccess then false else w.p.needKeyframe,
                      queue := w.p.queue ++ [x] },
      serial := w.serial + 1, log := w.log ++ [.accepted x] } := by
  intro x
  have hera : era (w.log ++ [.accepted x]) = era w.log := era_snoc _ _
  have hcases : ∀ y, .accepted y ∈ w.log ++ [.accepted x] → .accepted y ∈ w.log ∨ y = x := fun y hy => by
    rcases List.mem_append.mp hy with hy | hy
    · exact .inl hy
    · exact .inr (Event.accepted.inj (List.mem_singleton.mp hy))
  have hfailed : ∀ y, Failed w.log y → Failed (w.log ++ [.accepted x]) y := fun y hy =>
    hy.mono (List.subset_append_left _ _)
  have hrepairs : ∀ r, Repairs (w.log ++ [.accepted x]) r → r ≠ x → Repairs w.log r := fun r hr hne =>
    ⟨(hcases r hr.accepted).resolve_right hne, hr.randomAccess, hr.era.trans hera,
      fun y hy => hr.later y (hfailed y hy)⟩
  have hhanded : ∀ y, .handed y ∈ w.log ++ [.accepted x] → .handed y ∈ w.log := fun y hy => by simpa using hy
  refine ⟨?_, ?_, fun k hk => (h.blames k hk).mono (List.subset_append_left _ _),
    ?_, ?_⟩
  · intro y hy
    rw [hera]
    rcases hcases y hy with hy | rfl
    · exact h.past y hy
    · exact le_refl _
  · intro y hy z hz
    unfold World.coming at hz
    dsimp only at hz
    rw [← List.append_assoc] at hz
    rcases List.mem_append.mp hz with hz | hz
    · exact h.behind y (hhanded y hy) z hz
    · rw [List.mem_singleton.mp hz]
      exact hi.accepted y (accepted_of_handed hi (hhanded y hy))
  · intro r hr
    dsimp only
    cases hra : frame.randomAccess with
    | true => rfl
    | false =>
      have hne : r ≠ x := fun heq => by
        have hr' := hr.randomAccess
        rw [heq] at hr'
        exact absurd (hra.symm.trans hr') Bool.false_ne_true
      exact h.keyframe r (hrepairs r hr hne)
  · intro r hr hy k hk
    have hold := hhanded r hy
    have hne : r ≠ x := fun heq => by
      have hlt := hi.accepted r (accepted_of_handed hi hold)
      rw [heq] at hlt
      exact absurd hlt (lt_irrefl _)
    exact h.ready r (hrepairs r hr hne) hold k hk

theorem Newer.submit (h : Newer w) (hi : Inv w) (frame : EncodedVideoFrame) :
    Newer (submitLocked (recordFull w frame) frame).1 := by
  rcases submit_cases w frame with hs | ⟨-, hs⟩ | ⟨-, -, -, hs⟩
  · rw [hs]
    exact h
  · rw [hs]
    refine h.epoch rfl rfl (era_snoc _ .full) rfl ?_ fun k hk => (h.blames k hk).mono (List.subset_append_left _ _)
    exact List.append_subset.mpr ⟨List.subset_append_left _ _, List.nil_subset _⟩
  · rw [hs]
    exact h.accept hi

theorem Newer.stopped (h : Newer w) : Newer (stopped w) := by
  have hnote : Newer { w with log := w.log ++ [.stopped] } := h.remark rfl rfl (era_snoc _ _)
  exact hnote.moves rfl (List.nil_subset _) rfl (fun k hk => (by cases hk)) fun r _ _ k hk => (by cases hk)

theorem Newer.started (h : Newer w) (generation : UInt64) : Newer (started w generation) := by
  refine h.epoch rfl rfl (era_snoc _ (.started generation)) rfl (List.nil_subset _) ?_
  intro k hk
  cases hk
  trivial

theorem Newer.finish (h : Newer w) (andStart : Option UInt64) : Newer (finish w andStart) := by
  cases andStart with
  | none => exact h.stopped
  | some generation => exact h.stopped.started generation

theorem Newer.beginStop (h : Newer w) (andStart : Option UInt64) : Newer (beginStop w andStart) := by
  unfold VideoPipeline.beginStop
  cases hw : w.worker with
  | none => exact h.finish andStart
  | some k =>
    refine h.moves rfl ?_ rfl ?_ ?_
    · exact List.append_subset.mpr ⟨by
        unfold World.coming
        rw [hw]
        exact List.subset_append_left _ _, List.nil_subset _⟩
    · intro k' hk'
      exact h.blames k' (hw.trans hk')
    · intro r hr hy k' hk'
      exact h.ready r hr hy k' (hw.trans hk')

/-! The worker's steps. -/

theorem Newer.rearm (h : Newer w) {k : Worker} (hw : w.worker = some k) {item : QueuedAu} (hfailed : Failed w.log item)
    (harmed : item.epoch = w.p.epoch → NoneBehind (w.log.filterMap Event.accepted?) (era w.log) item.serial) :
    Newer (rearm w item { k with pc := .fill }) := by
  have hgo : Newer { w with worker := some { k with pc := .fill }, log := w.log ++ [.noticed item] } :=
    (h.remark rfl rfl (era_snoc _ _)).goto hw rfl trivial
  unfold VideoPipeline.rearm
  dsimp only
  split
  · rename_i hepoch
    have hnone : ∀ r, ¬ Repairs (w.log ++ [.noticed item]) r := fun r hr => by
      have hrep := hr.before rfl (era_snoc _ _)
      have hle := harmed hepoch r (mem_accepted.mpr hrep.accepted) hrep.era hrep.randomAccess
      exact absurd (hrep.later item hfailed) (not_lt.mpr hle)
    exact ⟨hgo.past, hgo.behind, hgo.blames, fun r hr => absurd hr (hnone r), fun r hr => absurd hr (hnone r)⟩
  · exact hgo

theorem Newer.decode (h : Newer w) (hi : Inv w) {k : Worker} (hw : w.worker = some k) {item : QueuedAu}
    (hpc : k.pc = .decoding item) {o : Oracle} (hprompt : PromptWork w k o) (hs : work w o = some w') : Newer w' := by
  have hcoming : w.coming = item :: w.p.queue := by
    unfold World.coming
    rw [hw]
    dsimp only
    rw [hpc]
    rfl
  have hbehind : ∀ r, .handed r ∈ w.log → r.serial < item.serial := fun r hr =>
    h.behind r hr item (by rw [hcoming]; exact List.mem_cons_self ..)
  have hnew : ∀ x ∈ w.p.queue, item.serial < x.serial := by
    have horder := hi.order
    unfold World.items Worker.held at horder
    rw [hw] at horder
    dsimp only at horder
    rw [hpc] at horder
    intro x hx
    obtain ⟨-, -, horder⟩ := List.pairwise_append.mp horder
    exact horder item (List.mem_append_right _ (List.mem_singleton_self _)) x hx
  simp only [work, hw, hpc] at hs
  cases hr : (L4.VideoToolbox.submit k.decoder item.frame.annexB o.system).2 with
  | queued =>
    rw [hr] at hs
    cases hs
    have hready := submit_ready hr
    have hgo : Newer { w with
        worker := some {
          pc := .fill
          decoder := (L4.VideoToolbox.submit k.decoder item.frame.annexB o.system).1
          inflight := k.inflight ++ [item] } } := by
      refine h.moves rfl ?_ rfl ?_ ?_
      · rw [hcoming]
        exact List.subset_cons_self _ _
      · intro k' hk'
        cases hk'
        trivial
      · intro r _ _ k' hk'
        cases hk'
        exact hready
    refine hgo.note rfl (era_snoc _ _) ?_
    intro y hy
    cases hy
    refine ⟨fun x hx => hnew x ?_, ?_⟩
    · exact hx
    · intro k' hk'
      cases hk'
      exact hready
  | noOutput =>
    rw [hr] at hs
    cases hs
    refine h.moves rfl ?_ rfl ?_ ?_
    · rw [hcoming]
      exact List.subset_cons_self _ _
    · intro k' hk'
      cases hk'
      trivial
    · intro r hrep hy k' hk'
      cases hk'
      have hsets : bringsSets k.decoder item.frame.annexB = true → hasIdr item.frame.annexB = true := fun hb =>
        hprompt.sets item (by rw [hpc]; rfl) hb ⟨r, mem_handed.mpr hy, hrep.era, hrep.randomAccess⟩
      dsimp only
      rw [submit_noOutput hr hsets]
      exact h.ready r hrep hy k hw
  | failed error =>
    rw [hr] at hs
    cases hs
    have hnote : Newer { w with log := w.log ++ [.refused item] } := h.remark rfl rfl (era_snoc _ _)
    have hmem : Failed (w.log ++ [.refused item]) item :=
      .inl (List.mem_append_right _ (List.mem_singleton_self _))
    refine hnote.moves rfl ?_ rfl ?_ ?_
    · have hcoming' : World.coming { w with log := w.log ++ [.refused item] } = item :: w.p.queue := hcoming
      rw [hcoming']
      exact List.subset_cons_self _ _
    · intro k' hk'
      cases hk'
      exact hmem
    · intro r hrep hy k' hk'
      have hy' : .handed r ∈ w.log := by simpa using hy
      exact absurd (hrep.later item hmem) (not_lt.mpr (le_of_lt (hbehind r hy')))

theorem Newer.take (h : Newer w) {k : Worker} (hw : w.worker = some k) (hpc : k.pc = .taking) {o : Oracle}
    (hprompt : PromptWork w k o) (hs : work w o = some w') : Newer w' := by
  simp only [work, hw, hpc] at hs
  cases hin : k.inflight with
  | nil =>
    rw [hin] at hs
    cases hs
  | cons head rest =>
    rw [hin] at hs
    cases hr : (takeOldest k.decoder o.answer).2 with
    | ok image =>
      rw [hr] at hs
      simp only [List.append_nil, Option.some.injEq] at hs
      rw [← hs]
      refine h.moves rfl (List.subset_append_right _ _) rfl ?_ ?_
      · intro k' hk'
        cases hk'
        trivial
      · intro r hrep hy k' hk'
        cases hk'
        exact takeOldest_ready (h.ready r hrep hy k hw) hr
    | error error =>
      rw [hr] at hs
      cases hs
      have hnote : Newer { w with log := w.log ++ [.lost head] } := h.remark rfl rfl (era_snoc _ _)
      have hmem : Failed (w.log ++ [.lost head]) head :=
        .inr (List.mem_append_right _ (List.mem_singleton_self _))
      have hnone := hprompt.taken (by rw [hpc]; rfl) (by rw [hr]; rfl) head (by rw [hin]; rfl)
      refine hnote.moves rfl (List.subset_append_right _ _) rfl ?_ ?_
      · intro k' hk'
        cases hk'
        exact hmem
      · intro r hrep hy k' hk'
        have hy' : .handed r ∈ w.log := by simpa using hy
        have hle := hnone r (mem_handed.mpr hy') (hrep.era.trans (era_snoc _ _)) hrep.randomAccess
        exact absurd (hrep.later head hmem) (not_lt.mpr hle)

theorem Newer.fill (h : Newer w) {k : Worker} (hw : w.worker = some k) {item : QueuedAu} {rest : List QueuedAu}
    (hq : w.p.queue = item :: rest) :
    Newer { w with p := { w.p with queue := rest }, worker := some { k with pc := .decoding item } } := by
  refine h.moves rfl ?_ rfl ?_ ?_
  · unfold World.coming
    rw [hq]
    exact List.subset_append_right _ _
  · intro k' hk'
    cases hk'
    trivial
  · intro r hr hy k' hk'
    cases hk'
    exact h.ready r hr hy k hw

theorem Newer.work (h : Newer w) (hi : Inv w) {o : Oracle} (hprompt : ∀ k ∈ w.worker, PromptWork w k o)
    (hs : work w o = some w') : Newer w' := by
  cases hw : w.worker with
  | none =>
    simp only [VideoPipeline.work, hw] at hs
    cases hs
  | some k =>
    have hprompt := hprompt k hw
    have hblames := h.blames k hw
    cases hpc : k.pc with
    | decoding item => exact h.decode hi hw hpc hprompt hs
    | taking => exact h.take hw hpc hprompt hs
    | exited =>
      simp only [VideoPipeline.work, hw, hpc] at hs
      cases hs
    | fill =>
      simp only [VideoPipeline.work, hw, hpc] at hs
      split at hs
      · cases hs
        exact h.goto hw rfl trivial
      split at hs
      · cases hs
        exact h.goto hw rfl trivial
      rename_i item rest hq
      split at hs
      · cases hs
        exact h.goto hw rfl trivial
      · cases hs
        exact h.fill hw hq
    | refused item =>
      simp only [VideoPipeline.work, hw, hpc] at hs
      rw [hpc] at hblames
      cases hs
      exact h.rearm hw hblames (hprompt.armed item (by rw [hpc]; rfl))
    | failed item =>
      simp only [VideoPipeline.work, hw, hpc] at hs
      rw [hpc] at hblames
      cases hs
      exact h.rearm hw hblames (hprompt.armed item (by rw [hpc]; rfl))
    | filled =>
      simp only [VideoPipeline.work, hw, hpc] at hs
      split at hs
      · split at hs
        · cases hs
          exact h.goto hw rfl trivial
        split at hs
        · cases hs
        · cases hs
          exact h.goto hw rfl trivial
      · split at hs
        · cases hs
          exact h.goto hw rfl trivial
        · cases hs
          exact h.goto hw rfl trivial
    | taken head result =>
      simp only [VideoPipeline.work, hw, hpc] at hs
      rw [hpc] at hblames
      split at hs
      · cases hs
        exact h.goto hw rfl trivial
      cases result with
      | error e =>
        cases hs
        exact h.goto hw rfl hblames
      | ok image =>
        cases hs
        exact h.goto hw rfl trivial
    | checking head image =>
      simp only [VideoPipeline.work, hw, hpc] at hs
      split at hs
      · cases hs
        have hnote : Newer { w with log := w.log ++ [.checked head] } := h.remark rfl rfl (era_snoc _ _)
        exact hnote.goto hw rfl trivial
      · cases hs
        exact h.goto hw rfl trivial
    | showing head image =>
      simp only [VideoPipeline.work, hw, hpc] at hs
      split at hs
      · cases hs
        have hnote : Newer { w with log := w.log ++ [.published head] } := h.remark rfl rfl (era_snoc _ _)
        exact hnote.goto hw rfl trivial
      · cases hs
        exact h.goto hw rfl trivial

theorem newer_next {l : Label} (h : Newer w) (hi : Inv w) (hprompt : Prompt w l) (hs : next w l = some w') :
    Newer w' := by
  cases l with
  | submit frame =>
    cases hs
    exact h.submit hi frame
  | start format generation =>
    simp only [next] at hs
    split at hs
    · cases hs
      split
      · exact h.beginStop _
      · exact h
    · cases hs
  | stop =>
    simp only [next] at hs
    split at hs
    · cases hs
      exact h.beginStop none
    · cases hs
  | joined =>
    simp only [next] at hs
    split at hs
    · split at hs
      · cases hs
        exact h.finish _
      · cases hs
    · cases hs
  | work o => exact h.work hi hprompt.2 hs

end Newer

theorem newer_create (queueCapacity : Nat) : Newer (create queueCapacity) where
  past y hy := by cases hy
  behind y hy := by cases hy
  blames k hk := by cases hk
  keyframe r hr := by cases hr.accepted
  ready r hr := by cases hr.accepted

theorem prompt_fresh {w : World} {l : Label} (h : Prompt w l) : w.Fresh := by
  cases l with
  | work o => exact h.1
  | submit frame => exact h
  | start format generation => exact h
  | stop => exact h
  | joined => exact h

theorem newer_inductive (queueCapacity : Nat) :
    ((pipelining queueCapacity).guarded Prompt).Inductive fun w => Inv w ∧ Newer w where
  init w h := by
    rw [h]
    exact ⟨inv_create queueCapacity, newer_create queueCapacity⟩
  step w l w' h hs := ⟨inv_next h.1 (prompt_fresh hs.2) hs.1, newer_next h.2 h.1 hs.2 hs.1⟩

/-- `submit` asks for a keyframe only where one is missing. -/
theorem submitLocked_needKeyframe {w : World} {frame : EncodedVideoFrame}
    (h : (submitLocked w frame).2 = .needKeyframe) : w.p.needKeyframe = true := by
  unfold submitLocked at h
  split at h
  · cases h
  split at h
  · cases h
  split at h
  · cases h
  split at h
  · cases h
  split at h
  · rename_i hkey
    exact hkey.1
  · cases h

/-- **The newer chain stays whole** in a run in which failures are noticed
before a random-access unit comes in behind them. -/
theorem unbroken {queueCapacity : Nat} {w : World} {l : Label}
    (hr : ((pipelining queueCapacity).guarded Prompt).Reachable w) (hl : Prompt w l) : Unbroken w l := by
  obtain ⟨-, hnewer⟩ := (newer_inductive queueCapacity).reachable w hr
  cases l with
  | submit frame =>
    intro r hrep hsubmit
    have hneed := submitLocked_needKeyframe hsubmit
    rw [hnewer.keyframe r hrep] at hneed
    cases hneed
  | work o =>
    intro r k item hrep hy hw hpc _ ho
    refine submit_needsNone (hnewer.ready r hrep hy k hw) ?_ ho
    intro hbrings
    exact (hl.2 k hw).sets item (by rw [hpc]; rfl) hbrings ⟨r, mem_handed.mpr hy, hrep.era, hrep.randomAccess⟩
  | start format generation => trivial
  | stop => trivial
  | joined => trivial

/-- The loss of number 1 is noticed, and then an IDR accepted. -/
def repairedRun : List Label :=
  [.start {} 7, .submit idrFrame, .submit deltaFrame] ++ go 12 ++ [loses] ++ go 2 ++ [.submit idrFrame]

def repaired : World := LTS.played next Prompt (create 8) repairedRun

theorem unbroken_repaired : Unbroken repaired (.submit deltaFrame) :=
  unbroken ⟨create 8, repairedRun, rfl, LTS.played_run (fun _ _ _ h => h) (by decide)⟩ (by decide)

/-- Number 1 is lost when the IDR that repairs it is in the decoder. -/
def lateRun : List Label :=
  [.start {} 7, .submit idrFrame, .submit deltaFrame] ++ go 10 ++ [.submit idrFrame] ++ go 4

def late (ls : List Label) : World := LTS.played next (fun _ _ => True) (create 8) (lateRun ++ ls)

theorem late_reachable {ls : List Label}
    (h : (LTS.play next (fun _ _ => True) (create 8) (lateRun ++ ls)).isSome = true) :
    (pipelining 8).Reachable (late ls) :=
  ⟨create 8, lateRun ++ ls, rfl, (LTS.played_run (fun _ _ _ h => h) h).of_guarded⟩

def repairing : QueuedAu := ⟨idrFrame, 1, 2, 1⟩

/-- What is left of the late run is noticed and shown, or meets the next frame in the decoder. -/
def noticed : World := late ([loses] ++ go 8)

def met : World := late ([.submit deltaFrame, loses] ++ go 3)

/-- **Noticed late.** The loss of number 1 is noticed behind the IDR number 2,
which is shown; the next frame is refused for want of a keyframe, and one that
was queued before by the decoder for want of an IDR. -/
theorem late_failure :
    ((pipelining 8).Reachable noticed ∧ Repairs noticed.log repairing ∧ .lost ⟨deltaFrame, 1, 1, 1⟩ ∈ noticed.log ∧
      .published repairing ∈ noticed.log ∧ ¬ Unbroken noticed (.submit deltaFrame)) ∧
    (pipelining 8).Reachable met ∧ Repairs met.log repairing ∧ .lost ⟨deltaFrame, 1, 1, 1⟩ ∈ met.log ∧
      ¬ Unbroken met (.work {}) := by
  have hnoticed : Repairs noticed.log repairing := by
    refine ⟨by decide, rfl, by decide, fun y hy => ?_⟩
    have hall : ∀ z ∈ noticed.log.filterMap Event.failed?, z.serial < repairing.serial := by decide
    exact hall y (mem_failed hy)
  have hmet : Repairs met.log repairing := by
    refine ⟨by decide, rfl, by decide, fun y hy => ?_⟩
    have hall : ∀ z ∈ met.log.filterMap Event.failed?, z.serial < repairing.serial := by decide
    exact hall y (mem_failed hy)
  refine ⟨⟨late_reachable (by decide), hnoticed, by decide, by decide, fun h => h repairing hnoticed (by decide)⟩,
    late_reachable (by decide), hmet, by decide, fun h => ?_⟩
  have hworker : met.worker = some
      { pc := .decoding ⟨deltaFrame, 1, 3, 1⟩,
        decoder := { session := true, sps := [0x67, 1], pps := [0x68, 1], needIdr := true, inflight := [none] },
        inflight := [repairing] } := rfl
  exact h repairing _ _ hmet (by decide) hworker rfl (by decide) (fun _ h => by cases h) (by decide)

end KmVirtualCamera.L5.VideoPipeline
