import Mathlib
import KmVirtualCamera.L1Encoding.H264

/-!
# The VideoToolbox decoder (`VideoToolboxDecoder`)

The decoder keeps a bounded window of submitted access units. `submit` puts an
access unit in, `takeOldest` waits for the oldest one and takes it out. The
system's session is an oracle: it may refuse to open, refuse the input sample,
refuse the frame at once, or answer it later with an image, with nothing or with
an error. What a slot holds is read only when it is taken, so the answer is an
argument of `takeOldest`; an answer that a drained session gives up is one of
them. Presentation times change no decision and are left out.
-/
namespace KmVirtualCamera.L4.VideoToolbox
open KmVirtualCamera.L1.H264

/-- mirrors macos/receiver/native_media.h:51 -/
def kMaxOutstanding : Nat := 4

/-- A slot's own error: the system refused the frame and no callback will come. -/
abbrev Slot := Option String

/-- mirrors macos/receiver/video_toolbox_decoder.mm:33-41 -/
structure Decoder where
  session : Bool := false
  sps : Bytes := []
  pps : Bytes := []
  needIdr : Bool := true
  inflight : List Slot := []

/-- mirrors macos/receiver/native_media.h:52-56 -/
inductive SubmitOutcome where
  | queued
  | noOutput
  | failed (error : String)
  deriving DecidableEq

/-- What the system does with the next access unit. -/
structure System where
  /-- the error and whether it comes behind the format description -/
  opens : Option (String × Bool) := none
  sample : Option Int := none
  frame : Option Int := none

/-- What a slot holds when it is taken. -/
inductive Answer where
  | image
  | dropped
  | status (status : Int)
  | invalidated
  deriving DecidableEq

/-- mirrors macos/receiver/video_toolbox_decoder.mm:65-79 -/
def close (d : Decoder) : Decoder := { d with session := false, needIdr := true }

/-- mirrors macos/receiver/video_toolbox_decoder.mm:116-120 -/
def reset (d : Decoder) : Decoder := { close d with sps := [], pps := [] }

/-- The last unit of a type, nothing when there is none.
mirrors macos/receiver/video_toolbox_decoder.mm:132-142 -/
def lastOf (t : UInt8) (nalus : List Bytes) : Bytes :=
  ((nalus.filter (naluType · == t)).getLast?).getD []

def hasIdr (annexB : Bytes) : Bool :=
  match splitAnnexB annexB with
  | none => false
  | some nalus => nalus.any (naluType · == 5)

/-- mirrors macos/receiver/video_toolbox_decoder.mm:143-154 -/
def adoptSets (d : Decoder) (sps pps : Bytes) : Decoder :=
  if (sps ≠ [] ∨ pps ≠ []) ∧ (sps ≠ d.sps ∨ pps ≠ d.pps) then { close d with sps := sps, pps := pps }
  else d

/-- mirrors macos/receiver/video_toolbox_decoder.mm:81-114,160 -/
def ensureOpen (d : Decoder) (s : System) : Decoder × Option String :=
  if d.session then (d, none)
  else
    match s.opens with
    | none => ({ d with session := true }, none)
    | some (error, behindFormat) => (if behindFormat then close d else d, some error)

/-- `AnnexBToLengthPrefixed4` splits the access unit again, so it cannot fail here.
mirrors macos/receiver/video_toolbox_decoder.mm:124-205 -/
def submit (d : Decoder) (annexB : Bytes) (s : System) : Decoder × SubmitOutcome :=
  match splitAnnexB annexB with
  | none => (d, .failed "Malformed Annex-B access unit")
  | some nalus =>
    let sps := lastOf 7 nalus
    let pps := lastOf 8 nalus
    let idr := nalus.any (naluType · == 5)
    let hasVcl := nalus.any (naluType · == 1) || idr
    if (sps ≠ [] ∨ pps ≠ []) ∧ (sps = [] ∨ pps = []) then
      (reset d, .failed "Require a complete SPS/PPS pair")
    else
      let d := adoptSets d sps pps
      if hasVcl = false then (d, .noOutput)
      else if d.sps = [] ∨ d.pps = [] ∨ (d.needIdr = true ∧ idr = false) then
        (d, .failed "Need IDR and SPS/PPS")
      else
        match ensureOpen d s with
        | (d, some error) => (d, .failed error)
        | (d, none) =>
          if d.inflight.length ≥ kMaxOutstanding then (d, .failed "Decoder window is full")
          else
            match s.sample with
            | some status => (d, .failed s!"Input CMSampleBuffer: {status}")
            | none =>
              let slot : Slot := s.frame.map fun status => s!"VTDecompressionSessionDecodeFrame: {status}"
              ({ d with inflight := d.inflight ++ [slot],
                        needIdr := if idr then false else d.needIdr }, .queued)

/-- The image if there is one, or the error.
mirrors macos/receiver/video_toolbox_decoder.mm:207-239 -/
def takeOldest (d : Decoder) (a : Answer) : Decoder × Except String Bool :=
  match d.inflight with
  | [] => (d, .error "Decoder window is empty")
  | some error :: rest => ({ d with inflight := rest, needIdr := true }, .error error)
  | none :: rest =>
    match a with
    | .image => ({ d with inflight := rest }, .ok true)
    | .dropped => ({ d with inflight := rest }, .ok false)
    | .status status =>
      ({ d with inflight := rest, needIdr := true }, .error s!"VT decode failed: {status}")
    | .invalidated =>
      ({ d with inflight := rest, needIdr := true },
        .error "Decoder session invalidated before the frame completed")

/-! ## When an IDR is needed -/

theorem ensureOpen_needIdr {d : Decoder} {s : System} (h : (ensureOpen d s).1.needIdr = false) :
    d.needIdr = false := by
  unfold ensureOpen at h
  split at h
  · exact h
  split at h
  · exact h
  · split at h
    · cases h
    · exact h

theorem adoptSets_needIdr {d : Decoder} {sps pps : Bytes}
    (h : (adoptSets d sps pps).needIdr = false) : d.needIdr = false := by
  unfold adoptSets at h
  split at h
  · cases h
  · exact h

/-- An access unit goes into the window only behind an IDR, and only an IDR
makes the next one go without. -/
theorem submit_needIdr (d : Decoder) (annexB : Bytes) (s : System) :
    ((submit d annexB s).2 = .queued → hasIdr annexB = false → d.needIdr = false) ∧
    ((submit d annexB s).1.needIdr = false →
      d.needIdr = false ∨ (submit d annexB s).2 = .queued ∧ hasIdr annexB = true) := by
  unfold submit hasIdr
  cases hsplit : splitAnnexB annexB with
  | none => exact ⟨fun h => (by cases h), fun h => .inl h⟩
  | some nalus =>
    simp only
    split
    · exact ⟨fun h => (by cases h), fun h => by cases h⟩
    split
    · exact ⟨fun h => (by cases h), fun h => .inl (adoptSets_needIdr h)⟩
    split
    · exact ⟨fun h => (by cases h), fun h => .inl (adoptSets_needIdr h)⟩
    rename_i hready
    cases hopen : ensureOpen (adoptSets d (lastOf 7 nalus) (lastOf 8 nalus)) s with
    | mk d' refused =>
      have hkept : d'.needIdr = false → d.needIdr = false := fun h =>
        adoptSets_needIdr (ensureOpen_needIdr (by rw [hopen]; exact h))
      cases refused with
      | some error => exact ⟨fun h => (by cases h), fun h => .inl (hkept h)⟩
      | none =>
        simp only
        split
        · exact ⟨fun h => (by cases h), fun h => .inl (hkept h)⟩
        cases s.sample with
        | some status => exact ⟨fun h => (by cases h), fun h => .inl (hkept h)⟩
        | none =>
          refine ⟨?_, ?_⟩
          · intro _ hidr
            have hneed : (adoptSets d (lastOf 7 nalus) (lastOf 8 nalus)).needIdr = false := by
              push Not at hready
              by_contra hn
              exact hready.2.2 (Bool.eq_true_of_not_eq_false hn) hidr
            exact adoptSets_needIdr hneed
          · intro h
            cases hidr : nalus.any (naluType · == 5) with
            | true => exact .inr ⟨rfl, rfl⟩
            | false =>
              simp only [hidr, Bool.false_eq_true, if_false] at h
              exact .inl (hkept h)

/-- A session that is closed keeps its slots. -/
theorem adoptSets_inflight (d : Decoder) (sps pps : Bytes) :
    (adoptSets d sps pps).inflight = d.inflight := by
  unfold adoptSets
  split <;> rfl

theorem ensureOpen_inflight (d : Decoder) (s : System) :
    (ensureOpen d s).1.inflight = d.inflight := by
  unfold ensureOpen
  split
  · rfl
  split
  · rfl
  · split <;> rfl

/-- The window grows by the access units that are queued, and by no others. -/
theorem submit_inflight (d : Decoder) (annexB : Bytes) (s : System) :
    (submit d annexB s).1.inflight.length =
      d.inflight.length + if (submit d annexB s).2 = .queued then 1 else 0 := by
  unfold submit
  cases splitAnnexB annexB with
  | none => rfl
  | some nalus =>
    simp only
    split
    · rfl
    have hadopt := adoptSets_inflight d (lastOf 7 nalus) (lastOf 8 nalus)
    split
    · simp [hadopt]
    split
    · simp [hadopt]
    cases hopen : ensureOpen (adoptSets d (lastOf 7 nalus) (lastOf 8 nalus)) s with
    | mk d' refused =>
      have hkept : d'.inflight = d.inflight := by
        have := ensureOpen_inflight (adoptSets d (lastOf 7 nalus) (lastOf 8 nalus)) s
        rw [hopen] at this
        exact this.trans hadopt
      cases refused with
      | some error => simp [hkept]
      | none =>
        simp only
        split
        · simp [hkept]
        cases s.sample with
        | some status => simp [hkept]
        | none => simp [hkept]

theorem takeOldest_inflight (d : Decoder) (a : Answer) :
    (takeOldest d a).1.inflight = d.inflight.tail := by
  unfold takeOldest
  cases hin : d.inflight with
  | nil => simpa using hin
  | cons slot rest =>
    cases slot with
    | some error => rfl
    | none => cases a <;> rfl

/-- A failure that is taken asks for an IDR again; anything else changes nothing. -/
theorem takeOldest_needIdr {d : Decoder} {a : Answer} (h : (takeOldest d a).1.needIdr = false) :
    d.needIdr = false ∧
      ((∃ shown, (takeOldest d a).2 = .ok shown) ∨ d.inflight = []) := by
  unfold takeOldest at h ⊢
  cases hin : d.inflight with
  | nil =>
    rw [hin] at h
    exact ⟨h, .inr rfl⟩
  | cons slot rest =>
    rw [hin] at h
    cases slot with
    | some error => cases h
    | none =>
      cases a with
      | image => exact ⟨h, .inl ⟨true, rfl⟩⟩
      | dropped => exact ⟨h, .inl ⟨false, rfl⟩⟩
      | status status => cases h
      | invalidated => cases h

end KmVirtualCamera.L4.VideoToolbox
