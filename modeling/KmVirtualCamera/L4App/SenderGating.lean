import Mathlib
import KmVirtualCamera.L4App.WebCodecsSender

/-!
# What the browser's sender lets through

A delta frame is of use only if everything it refers to has arrived. The
sender sees no references; it has one flag, `waitingForKeyframe`, that every
refusal sets and a keyframe that went out whole clears. Over the runs of
`onEvent`, with what each event handed on as part of its label:

* `gated`: an access unit without an IDR is handed on only if, since a
  keyframe of the same encoder that went out whole, every output of that
  encoder went out whole. Every unit handed on is one delimiter followed by
  valid units, none a delimiter, and an IDR comes after an SPS and a PPS.
* `delimiter_alone`: the list after the delimiter can be empty, and outputs of
  an encoder that has been replaced do not count.

The invariant is `Gated`. `Held` is what an event other than an output can do
to the gate, the sets and the reader, `Output` what an output can do.
-/
namespace KmVirtualCamera.L4.WebCodecsSender
open KmVirtualCamera.ByteOrder KmVirtualCamera.L1.H264 KmVirtualCamera.L1.DcWire

/-! ## Units and sets are valid -/

theorem nalus_valid {data n : Bytes} (h : n ∈ nalus data) : validNalu n = true := by
  unfold nalus at h
  split at h
  · cases h
  split at h
  · cases hs : splitLoop data.length 0 data with
    | none => simp [hs] at h
    | some ns => exact ((splitLoop_sound _ 0 data ns (by decide) hs).2 n (by simpa [hs] using h)).1
  · cases hs : splitLengthLoop data.length 0 data with
    | none => simp [hs] at h
    | some ns =>
      exact (splitLengthLoop_sound _ 0 data ns (by decide) hs).2.1 n (by simpa [hs] using h)

/-- A type is all that tells the units apart. -/
theorem not_idr_of_isSet {n : Bytes} (h : isSet n = true) : isIdr n = false := by
  unfold isSet isSps isPps at h
  unfold isIdr
  rcases (by simpa using h : naluType n = 7 ∨ naluType n = 8) with h | h <;> simp [h]

theorem not_delimiter_of_isSet {n : Bytes} (h : isSet n = true) : naluType n ≠ 9 := by
  unfold isSet isSps isPps at h
  rcases (by simpa using h : naluType n = 7 ∨ naluType n = 8) with h | h <;> simp [h]

/-- The header checks of `avcConfiguration` are those of `valid`. -/
theorem validNalu_of_header {n : Bytes} {type : UInt8} (hne : n ≠ []) (ht : naluType n = type)
    (hb : n.headD 0 &&& 128 = 0) (h0 : 0 < type) (h1 : type < 24) : validNalu n = true := by
  cases n with
  | nil => exact absurd rfl hne
  | cons b t =>
    have hb' : b &&& 0x80 = 0 := hb
    have ht' : b &&& 31 = type := ht
    simp [validNalu, hb', ht', h0, h1]

theorem setsLoop_valid {type : UInt8} (h0 : 0 < type) (h1 : type < 24) :
    ∀ (count : Nat) (data : Bytes) (r : List Bytes × Bytes), setsLoop type count data = some r →
      ∀ n ∈ r.1, validNalu n = true ∧ naluType n = type
  | 0, data, r, h, n, hn => by
    simp only [setsLoop, Option.some.injEq] at h
    subst h
    cases hn
  | _ + 1, [], r, h, n, hn => by simp [setsLoop] at h
  | _ + 1, [_], r, h, n, hn => by simp [setsLoop] at h
  | count + 1, b0 :: b1 :: t, r, h, n, hn => by
    simp only [setsLoop] at h
    split at h
    · cases h
    rename_i hgood
    simp only [not_or, not_lt, not_not, gt_iff_lt] at hgood
    obtain ⟨hsize, hfit, ht, hb⟩ := hgood
    obtain ⟨r', hr', rfl⟩ := Option.map_eq_some_iff.mp h
    rcases List.mem_cons.mp hn with rfl | hn
    · obtain ⟨m, hm⟩ := Nat.exists_eq_succ_of_ne_zero hsize
      cases t with
      | nil => simp [hm] at hfit
      | cons b t =>
        rw [hm, List.take_succ_cons]
        exact ⟨validNalu_of_header (by simp) ht hb h0 h1, ht⟩
    · exact setsLoop_valid h0 h1 count _ r' hr' n hn

theorem parameterSets_valid {data n : Bytes} (h : n ∈ parameterSets data) :
    validNalu n = true ∧ isSet n = true := by
  unfold parameterSets at h
  split at h
  · cases h
  split at h
  · obtain ⟨hn, hs⟩ := List.mem_filter.mp h
    exact ⟨nalus_valid hn, hs⟩
  cases ha : avcConfiguration data with
  | none => simp [ha] at h
  | some sets =>
    simp only [ha, Option.getD_some] at h
    unfold avcConfiguration at ha
    split at ha
    · split at ha
      · cases ha
      split at ha
      · cases ha
      · cases ha
      rename_i sps _ _ hsps
      obtain ⟨r, hpps, rfl⟩ := Option.map_eq_some_iff.mp ha
      rcases List.mem_append.mp h with hn | hn
      · obtain ⟨hv, ht⟩ := setsLoop_valid (by decide) (by decide) _ _ _ hsps n hn
        exact ⟨hv, by simp [isSet, isSps, ht]⟩
      · obtain ⟨hv, ht⟩ := setsLoop_valid (by decide) (by decide) _ _ _ hpps n hn
        exact ⟨hv, by simp [isSet, isPps, ht]⟩
    · cases ha

/-- What the sender keeps: parameter sets only, and if any then of both types. -/
structure Sets (cached : List Bytes) : Prop where
  valid : ∀ n ∈ cached, validNalu n = true ∧ isSet n = true
  both : cached ≠ [] → cached.any isSps = true ∧ cached.any isPps = true

theorem Sets.nil : Sets [] := ⟨fun _ h => (List.not_mem_nil h).elim, fun h => (h rfl).elim⟩

theorem describedSets_sets {s : Sender} (chunk : Chunk) (h : Sets s.cachedSpsPps) :
    Sets (describedSets s chunk) := by
  unfold describedSets
  split
  · exact h
  simp only
  split
  · rename_i hboth
    exact ⟨fun n hn => parameterSets_valid hn, fun _ => by simpa using hboth⟩
  · exact h

theorem inBandSets_sets {cached units sets : List Bytes} (h : Sets cached)
    (hu : ∀ n ∈ units, validNalu n = true) (hs : inBandSets cached units = some sets) : Sets sets := by
  simp only [inBandSets] at hs
  split at hs
  · cases hs
    exact h
  split at hs
  · rename_i hboth
    cases hs
    refine ⟨?_, fun _ => by simpa using hboth⟩
    intro n hn
    obtain ⟨hn, ht⟩ := List.mem_filter.mp hn
    exact ⟨hu n hn, ht⟩
  · cases hs

/-! ## The unit that is handed on -/

/-- `u` is a delimiter followed by the units `ns`, made from `chunk`. -/
structure Delivers (chunk : Chunk) (u : Handed) (ns : List Bytes) : Prop where
  data : u.data = [0, 0, 0, 1, 9, 0xf0] ++ annexB ns
  fits : u.data.length ≤ DC_MAX_AU_BYTES
  valid : ∀ n ∈ ns, validNalu n = true ∧ naluType n ≠ 9
  idr : ns.any isIdr = u.keyframe
  configured : ∀ pre n post, ns = pre ++ n :: post → isIdr n = true →
    pre.any isSps = true ∧ pre.any isPps = true
  /-- Nothing is left after the delimiter only if the encoder put out
  delimiters and nothing else. -/
  empty : ns = [] ↔ ∀ n ∈ nalus chunk.bytes, naluType n = 9

/-- An element of the second part of a list stands behind all of the first. -/
theorem prefix_of_not_mem {α : Type*} {as bs pre post : List α} {n : α}
    (h : as ++ bs = pre ++ n :: post) (hn : n ∉ as) : as <+: pre := by
  rcases List.append_eq_append_iff.mp h with ⟨c, hc, -⟩ | ⟨c, hc, hd⟩
  · exact ⟨c, hc.symm⟩
  · cases c with
    | nil => exact ⟨[], by simpa using hc⟩
    | cons x c =>
      obtain ⟨rfl, -⟩ := List.cons.inj hd
      exact absurd (by rw [hc]; simp) hn

theorem any_extends {α : Type*} {p : α → Bool} {as bs : List α} (h : as <+: bs)
    (ha : as.any p = true) : bs.any p = true := by
  obtain ⟨c, rfl⟩ := h
  rw [List.any_append, ha, Bool.true_or]

section Select
variable {cached units : List Bytes} {idr : Bool}

theorem mem_selectUnits {n : Bytes} (h : n ∈ selectUnits cached units idr) :
    idr = true ∧ n ∈ cached ∨ n ∈ units ∧ naluType n ≠ 9 := by
  unfold selectUnits at h
  rcases List.mem_append.mp h with hn | hn
  · cases idr with
    | true => exact .inl ⟨rfl, hn⟩
    | false => cases hn
  · obtain ⟨hn, hp⟩ := List.mem_filter.mp hn
    rw [Bool.and_eq_true] at hp
    exact .inr ⟨hn, by simpa using hp.1⟩

theorem selectUnits_any_idr (hi : idr = units.any isIdr) :
    (selectUnits cached units idr).any isIdr = idr := by
  rw [Bool.eq_iff_iff, List.any_eq_true]
  constructor
  · intro hany
    obtain ⟨n, hn, hidr⟩ := hany
    rcases mem_selectUnits hn with ⟨h, -⟩ | ⟨hu, -⟩
    · exact h
    · rw [hi]
      exact List.any_eq_true.mpr ⟨n, hu, hidr⟩
  · intro h
    have hany := hi.symm.trans h
    obtain ⟨n, hn, hidr⟩ := List.any_eq_true.mp hany
    refine ⟨n, List.mem_append_right _ (List.mem_filter.mpr ⟨hn, ?_⟩), hidr⟩
    have hset : isSet n = false := by
      by_contra hset
      have := not_idr_of_isSet (by simpa using hset : isSet n = true)
      rw [hidr] at this
      cases this
    have ht : naluType n = 5 := by simpa [isIdr] using hidr
    simp [hset, ht]

theorem selectUnits_configured (hc : Sets cached) (hi : idr = units.any isIdr)
    (hne : idr = true → cached ≠ []) {pre post : List Bytes} {n : Bytes}
    (h : selectUnits cached units idr = pre ++ n :: post) (hn : isIdr n = true) :
    pre.any isSps = true ∧ pre.any isPps = true := by
  have hidr : idr = true := by
    rw [← selectUnits_any_idr hi, h]
    exact List.any_eq_true.mpr ⟨n, by simp, hn⟩
  have hcached : n ∉ cached := fun hmem => by
    rw [not_idr_of_isSet (hc.valid n hmem).2] at hn
    cases hn
  have hpre : cached <+: pre := by
    rw [selectUnits, if_pos hidr] at h
    exact prefix_of_not_mem h hcached
  obtain ⟨hsps, hpps⟩ := hc.both (hne hidr)
  exact ⟨any_extends hpre hsps, any_extends hpre hpps⟩

theorem selectUnits_empty (hi : idr = units.any isIdr) :
    selectUnits cached units idr = [] ↔ ∀ n ∈ units, naluType n = 9 := by
  constructor
  · intro h n hn
    have hidr : idr = false := by
      rw [← selectUnits_any_idr hi, h]
      rfl
    by_contra hne
    have hmem : n ∈ selectUnits cached units idr :=
      List.mem_append_right _ (List.mem_filter.mpr ⟨hn, by simp [hidr, hne]⟩)
    rw [h] at hmem
    cases hmem
  · intro h
    have hidr : idr = false := by
      rw [hi]
      refine List.any_eq_false.mpr ?_
      intro n hn
      simp [isIdr, h n hn]
    refine List.eq_nil_iff_forall_not_mem.mpr ?_
    intro n hn
    rcases mem_selectUnits hn with ⟨ht, -⟩ | ⟨hu, ht⟩
    · rw [hidr] at ht
      cases ht
    · exact ht (h n hu)

end Select

/-! ## The gate over one event -/

/-- Deltas may pass. -/
def Passing (s : Sender) : Prop := s.isRunning = true ∧ s.waitingForKeyframe = false

/-- A sender that was stopped has given its reader up, so the next `start` goes
on to a new encoder without waiting. -/
def Idle (s : Sender) : Prop := s.isRunning = false → s.activeReader = none

/-- The gate is not opened, and while it is open the encoder stays the same. -/
structure Held (s s' : Sender) : Prop where
  gate : Passing s' → Passing s ∧ s'.encoderGeneration = s.encoderGeneration
  sets : Sets s.cachedSpsPps → Sets s'.cachedSpsPps
  idle : Idle s → Idle s'

theorem Held.refl (s : Sender) : Held s s := ⟨fun h => ⟨h, rfl⟩, id, id⟩

theorem Held.trans {a b c : Sender} (h : Held a b) (h' : Held b c) : Held a c where
  gate hc := by
    obtain ⟨hb, hg'⟩ := h'.gate hc
    obtain ⟨ha, hg⟩ := h.gate hb
    exact ⟨ha, hg'.trans hg⟩
  sets := h'.sets ∘ h.sets
  idle := h'.idle ∘ h.idle

/-- Neither the gate nor what it depends on is touched. -/
theorem Held.of_eq {s s' : Sender} (hr : s'.isRunning = s.isRunning)
    (hw : s'.waitingForKeyframe = s.waitingForKeyframe)
    (hg : s'.encoderGeneration = s.encoderGeneration) (hc : s'.cachedSpsPps = s.cachedSpsPps)
    (ha : s'.activeReader = s.activeReader) : Held s s' where
  gate h := ⟨⟨hr.symm.trans h.1, hw.symm.trans h.2⟩, hg⟩
  sets h := by rwa [hc]
  idle h hr' := ha.trans (h (hr.symm.trans hr'))

/-- The gate is shut. -/
theorem Held.of_shut {s s' : Sender} (hw : s'.waitingForKeyframe = true)
    (hc : s'.cachedSpsPps = s.cachedSpsPps ∨ s'.cachedSpsPps = []) (hi : Idle s → Idle s') :
    Held s s' where
  gate h := by
    rw [Passing, hw] at h
    cases h.2
  sets h := by
    rcases hc with hc | hc <;> rw [hc]
    · exact h
    · exact .nil
  idle := hi

theorem held_retreat (s : Sender) : Held s (retreat s) := .of_shut rfl (.inl rfl) id

theorem held_initEncoder (s : Sender) (w h : Nat) (c : Bool) : Held s (initEncoder s w h c) :=
  .of_shut rfl (.inr rfl) id

theorem held_stop (s : Sender) : Held s (stop s) where
  gate h := by cases h.1
  sets _ := .nil
  idle _ _ := rfl

theorem held_setBitrate (s : Sender) (bps : JsNumber) : Held s (setBitrate s bps) := by
  cases bps with
  | nonFinite => exact .refl s
  | finite q =>
    simp only [setBitrate]
    split
    · exact .refl s
    · exact .of_eq rfl rfl rfl rfl rfl

theorem waiting_setBitrate (s : Sender) (bps : JsNumber) :
    (setBitrate s bps).waitingForKeyframe = s.waitingForKeyframe := by
  cases bps with
  | nonFinite => rfl
  | finite q =>
    simp only [setBitrate]
    split <;> rfl

/-- An oversized unit shuts the gate, also where it ends the capture. -/
theorem waiting_recoverOversize (s : Sender) : (recoverOversize s).waitingForKeyframe = true := by
  have hw := waiting_setBitrate (retreat s) (.finite (s.currentBitrateBps * (3 / 4)))
  unfold recoverOversize
  simp only
  split
  · exact hw
  · exact hw

theorem held_recoverOversize (s : Sender) : Held s (recoverOversize s) := by
  have hb := (held_retreat s).trans
    (held_setBitrate (retreat s) (.finite (s.currentBitrateBps * (3 / 4))))
  unfold recoverOversize
  simp only
  split
  · refine hb.trans (Held.trans ?_ (held_stop _))
    exact .of_eq rfl rfl rfl rfl rfl
  · refine hb.trans ?_
    exact .of_eq rfl rfl rfl rfl rfl

theorem held_takeUp (s : Sender) (capture : Nat) (b : Setup) : Held s (takeUp s capture b) := by
  unfold takeUp
  split
  · exact .refl s
  rename_i hr
  simp only
  split
  · refine .of_shut rfl (.inr rfl) ?_
    intro _ h
    exact absurd (.inl h) hr
  · exact held_initEncoder s _ _ _

theorem held_updateTrack (s : Sender) (track : Track) (b : Setup) : Held s (updateTrack s track b) := by
  have h0 : Held s { s with captureGeneration := s.captureGeneration + 1, activeVideoTrack := some track,
                            activeReader := none } :=
    ⟨fun h => ⟨h, rfl⟩, id, fun _ _ => rfl⟩
  unfold updateTrack
  simp only
  split
  · refine h0.trans ?_
    exact .of_eq rfl rfl rfl rfl rfl
  · exact h0.trans (held_takeUp _ _ b)

/-- A sender that runs already goes on with its encoder; one that was stopped
has no reader to wait for, so its gate is shut by the new encoder. -/
theorem held_start {s : Sender} (track : Track) (b : Setup) (hi : Idle s) : Held s (start s track b) := by
  have hu := held_updateTrack
    { s with isRunning := true, frameSeq := 0, frameCount := 0, oversizeCount := 0 } track b
  cases hr : s.isRunning with
  | true =>
    refine Held.trans ?_ hu
    exact .of_eq hr.symm rfl rfl rfl rfl
  | false =>
    refine ⟨?_, hu.sets, fun _ => hu.idle fun h => by cases h⟩
    intro h
    have hnone : s.activeReader = none := hi hr
    have hw : (start s track b).waitingForKeyframe = true := by
      unfold start updateTrack takeUp
      simp only [hnone, Option.isSome_none, Bool.false_eq_true, if_false, Bool.true_eq_false,
        ne_eq, not_true_eq_false, or_self]
      split <;> rfl
    rw [Passing, hw] at h
    cases h.2

theorem held_processVideoFrame (s : Sender) (f : VideoFrame) : Held s (processVideoFrame s f).1 := by
  unfold processVideoFrame
  split
  · exact .refl s
  split
  · exact .of_eq rfl rfl rfl rfl rfl
  have hs : Held s (if (f.displayWidth != s.currentEncoderW || f.displayHeight != s.currentEncoderH) = true
      then initEncoder s f.displayWidth f.displayHeight f.configures else s) := by
    split
    · exact held_initEncoder s _ _ _
    · exact .refl s
  simp only
  split
  · refine hs.trans ?_
    exact .of_eq rfl rfl rfl rfl rfl
  · refine hs.trans ?_
    exact .of_eq rfl rfl rfl rfl rfl

/-- **What the other events can do.** -/
theorem held_settle {s : Sender} (e : Event) (hi : Idle s) : Held s (settle s e) := by
  cases e with
  | connected track b =>
    cases track with
    | none => exact .refl s
    | some track => exact held_start track b hi
  | trackSwitched track b => exact held_updateTrack s track b
  | cancelled n b =>
    simp only [settle]
    split
    · exact .refl s
    · refine Held.trans ?_ (held_takeUp _ _ b)
      exact .of_eq rfl rfl rfl rfl rfl
  | readerEnded capture =>
    simp only [settle]
    split
    · exact ⟨fun h => ⟨h, rfl⟩, id, fun _ _ => rfl⟩
    · exact .refl s
  | frame capture track f =>
    simp only [settle]
    split
    · exact held_processVideoFrame s f
    · exact .refl s
  | encoded => exact .refl s
  | encoderError generation =>
    simp only [settle]
    split
    · exact held_retreat s
    · exact .refl s
  | encoderClosed => exact .of_eq rfl rfl rfl rfl rfl
  | channel state => exact .of_eq rfl rfl rfl rfl rfl
  | pli =>
    simp only [settle]
    split
    · exact .of_eq rfl rfl rfl rfl rfl
    · exact .refl s
  | bitrate bps =>
    simp only [settle]
    split
    · exact held_setBitrate s bps
    · exact .refl s
  | stop => exact held_stop s

/-! ## The gate over one output -/

/-- What becomes of an output of the current encoder: it is kept back and the
gate is shut, or it is handed on, and the gate is open afterwards only if all
of it went out. -/
inductive Output (s : Sender) (chunk : Chunk) : Sender × Option Handed → Prop
  | dropped (s' : Sender) (hsets : Sets s'.cachedSpsPps) (hidle : Idle s')
      (shut : s'.waitingForKeyframe = true) : Output s chunk (s', none)
  | cut (s' : Sender) (u : Handed) (ns : List Bytes) (hsets : Sets s'.cachedSpsPps) (hidle : Idle s')
      (h : Delivers chunk u ns) (gate : s.waitingForKeyframe = true → u.keyframe = true)
      (shut : s'.waitingForKeyframe = true) : Output s chunk (s', some u)
  | whole (s' : Sender) (u : Handed) (ns : List Bytes) (hsets : Sets s'.cachedSpsPps) (hidle : Idle s')
      (h : Delivers chunk u ns) (gate : s.waitingForKeyframe = true → u.keyframe = true)
      (sent : u.outcome.1 = .sent) (same : s'.encoderGeneration = s.encoderGeneration) :
      Output s chunk (s', some u)

theorem handOver_output {s₀ s : Sender} (chunk : Chunk) {idr : Bool} (send : Nat → Bool)
    (hi : Idle s) (hc : Sets s.cachedSpsPps) (hidr : idr = (nalus chunk.bytes).any isIdr)
    (hne : idr = true → s.cachedSpsPps ≠ []) (hgate : s₀.waitingForKeyframe = true → idr = true)
    (hgen : s.encoderGeneration = s₀.encoderGeneration) :
    Output s₀ chunk (handOver s chunk (nalus chunk.bytes) idr send) := by
  unfold handOver
  simp only
  split
  · have h := held_recoverOversize s
    exact .dropped _ (h.sets hc) (h.idle hi) (waiting_recoverOversize s)
  rename_i hfits
  have hlen := length_accessUnit (selectUnits s.cachedSpsPps (nalus chunk.bytes) idr)
  have hd : Delivers chunk
      ⟨accessUnit (selectUnits s.cachedSpsPps (nalus chunk.bytes) idr), s.frameSeq % 65536,
        floor chunk.timestamp, idr, send⟩ (selectUnits s.cachedSpsPps (nalus chunk.bytes) idr) := by
    refine ⟨rfl, by simp only; omega, fun n hn => ?_, selectUnits_any_idr hidr,
      fun pre n post h hn => selectUnits_configured hc hidr hne h hn, selectUnits_empty hidr⟩
    rcases mem_selectUnits hn with ⟨-, hn⟩ | ⟨hn, ht⟩
    · obtain ⟨hv, hs⟩ := hc.valid n hn
      exact ⟨hv, not_delimiter_of_isSet hs⟩
    · exact ⟨nalus_valid hn, ht⟩
  split
  · exact .cut _ _ _ hc hi hd hgate rfl
  · rename_i hsent
    exact .whole _ _ _ hc hi hd hgate (not_not.mp hsent) hgen

theorem handleEncodedChunk_output {s : Sender} (chunk : Chunk) (send : Nat → Bool) (hi : Idle s)
    (hc : Sets s.cachedSpsPps) : Output s chunk (handleEncodedChunk s chunk send) := by
  unfold handleEncodedChunk
  split
  · exact .dropped _ hc hi rfl
  split
  · have h := held_recoverOversize s
    exact .dropped _ (h.sets hc) (h.idle hi) (waiting_recoverOversize s)
  have hd := describedSets_sets chunk hc
  simp only
  split
  · exact .dropped _ hd hi rfl
  split
  · rename_i hw
    exact .dropped _ hd hi hw.1
  rename_i hgate
  have hgate' : s.waitingForKeyframe = true → (nalus chunk.bytes).any isIdr = true := by
    intro hw
    by_contra hidr
    exact hgate ⟨hw, by simpa using hidr⟩
  split
  · exact .dropped _ .nil hi rfl
  rename_i sets hsets
  have hc' := inBandSets_sets hd (fun n hn => nalus_valid hn) hsets
  split
  · exact .dropped _ hc' hi rfl
  rename_i hne
  refine handOver_output chunk send ?_ hc' rfl ?_ hgate' rfl
  · exact hi
  · exact fun hidr hnil => hne ⟨hidr, hnil⟩

/-! ## Runs -/

/-- An event and what it handed on. -/
structure Label where
  event : Event
  handed : Option Handed := none

/-- The encoder whose output this is. -/
def Label.encoder : Label → Option Nat
  | ⟨.encoded generation _ _, _⟩ => some generation
  | _ => none

/-- All of an access unit went out. -/
def Label.complete (l : Label) : Bool :=
  match l.handed with
  | some u => u.outcome.1 == .sent
  | none => false

def Label.keyframe (l : Label) : Bool :=
  match l.handed with
  | some u => u.keyframe
  | none => false

def sender (config : Config) : LTS Sender Label where
  init s := s = create config
  step s l s' := onEvent s l.event = (s', l.handed)

/-- A keyframe of the encoder went out whole, and since then every output of
the encoder did. -/
def Unbroken (ls : List Label) (generation : Nat) : Prop :=
  ∃ pre x post, ls = pre ++ x :: post ∧
    (x.encoder = some generation ∧ x.keyframe = true ∧ x.complete = true) ∧
    ∀ y ∈ post, y.encoder = some generation → y.complete = true

theorem Unbroken.snoc {ls : List Label} {generation : Nat} {l : Label} (h : Unbroken ls generation)
    (hl : l.encoder = some generation → l.complete = true) : Unbroken (ls ++ [l]) generation := by
  obtain ⟨pre, x, post, rfl, hx, hpost⟩ := h
  refine ⟨pre, x, post ++ [l], by simp, hx, fun y hy => ?_⟩
  rcases List.mem_append.mp hy with hy | hy
  · exact hpost y hy
  · rw [List.mem_singleton.mp hy]
    exact hl

theorem Unbroken.start (ls : List Label) {generation : Nat} {l : Label}
    (hl : l.encoder = some generation ∧ l.keyframe = true ∧ l.complete = true) :
    Unbroken (ls ++ [l]) generation :=
  ⟨ls, l, [], rfl, hl, fun _ h => (List.not_mem_nil h).elim⟩

/-- An open gate has been opened by the encoder it is open for. -/
structure Gated (ls : List Label) (s : Sender) : Prop where
  sets : Sets s.cachedSpsPps
  idle : Idle s
  gate : Passing s → Unbroken ls s.encoderGeneration

theorem gated_settle {ls : List Label} {s : Sender} {e : Event} (h : Gated ls s)
    (he : Label.encoder ⟨e, none⟩ = none) : Gated (ls ++ [⟨e, none⟩]) (settle s e) := by
  have hs := held_settle e h.idle
  refine ⟨hs.sets h.sets, hs.idle h.idle, ?_⟩
  intro hp
  obtain ⟨hp, hg⟩ := hs.gate hp
  rw [hg]
  refine (h.gate hp).snoc ?_
  intro hl
  rw [he] at hl
  cases hl

/-- One output, together with what it handed on. -/
theorem gated_output {ls : List Label} {s s' : Sender} {generation : Nat} {chunk : Chunk}
    {send : Nat → Bool} {o : Option Handed} (h : Gated ls s) (hr : s.isRunning = true)
    (hg : generation = s.encoderGeneration) (ho : Output s chunk (s', o)) :
    Gated (ls ++ [⟨.encoded generation chunk send, o⟩]) s' := by
  subst hg
  cases ho with
  | dropped _ hsets hidle shut =>
    refine ⟨hsets, hidle, ?_⟩
    intro hp
    rw [Passing, shut] at hp
    cases hp.2
  | cut _ u ns hsets hidle _ _ shut =>
    refine ⟨hsets, hidle, ?_⟩
    intro hp
    rw [Passing, shut] at hp
    cases hp.2
  | whole _ u ns hsets hidle hd gate sent same =>
    refine ⟨hsets, hidle, ?_⟩
    intro _
    have hcomplete : Label.complete ⟨.encoded s.encoderGeneration chunk send, some u⟩ = true := by
      simp [Label.complete, sent]
    rw [same]
    cases hk : u.keyframe with
    | true => exact .start ls ⟨rfl, hk, hcomplete⟩
    | false =>
      have hw : s.waitingForKeyframe = false := by
        by_contra hw
        have := gate (by simpa using hw)
        rw [hk] at this
        cases this
      exact (h.gate ⟨hr, hw⟩).snoc fun _ => hcomplete

theorem gated_historical (config : Config) : (sender config).Historical Gated where
  init s hs := by
    subst hs
    exact ⟨.nil, fun _ => rfl, fun h => by cases h.1⟩
  step ls s l s' h hs := by
    obtain ⟨e, o⟩ := l
    cases e with
    | encoded generation chunk send =>
      simp only [sender, onEvent, onOutput] at hs
      split at hs
      · rename_i hr
        exact gated_output h hr.1 hr.2 (hs ▸ handleEncodedChunk_output chunk send h.idle h.sets)
      · rename_i hr
        cases hs
        refine ⟨h.sets, h.idle, fun hp => (h.gate hp).snoc ?_⟩
        intro hl
        exact absurd ⟨hp.1, Option.some.inj hl⟩ hr
    | _ =>
      cases hs
      exact gated_settle h rfl

/-- **What is handed on.** Whatever happened before, in whatever order. -/
theorem gated {config : Config} {ls : List Label} {s s' : Sender} {e : Event} {u : Handed}
    (hrun : (sender config).Run (create config) ls s) (h : onEvent s e = (s', some u)) :
    ∃ generation chunk send ns, e = .encoded generation chunk send ∧ Delivers chunk u ns ∧
      (ns.any isIdr = false → Unbroken ls generation) := by
  have hi := (gated_historical config).reachable rfl hrun
  cases e with
  | encoded generation chunk send =>
    simp only [onEvent, onOutput] at h
    split at h
    · rename_i hr
      have ho := handleEncodedChunk_output chunk send hi.idle hi.sets
      rw [h] at ho
      have hpass : (s.waitingForKeyframe = true → u.keyframe = true) → u.keyframe = false →
          Unbroken ls generation := by
        intro gate hk
        rw [hr.2]
        refine hi.gate ⟨hr.1, ?_⟩
        by_contra hw
        have := gate (by simpa using hw)
        rw [hk] at this
        cases this
      cases ho with
      | cut _ _ ns _ _ hd gate _ =>
        exact ⟨generation, chunk, send, ns, rfl, hd, fun hk => hpass gate (hd.idr.symm.trans hk)⟩
      | whole _ _ ns _ _ hd gate _ _ =>
        exact ⟨generation, chunk, send, ns, rfl, hd, fun hk => hpass gate (hd.idr.symm.trans hk)⟩
    · cases h
  | _ => cases h

/-! ## A run -/

section Scenario

/-- SPS, PPS and IDR of one byte each. -/
def keyChunk : Chunk := ⟨true, .finite 0, [0, 0, 0, 1, 0x67, 0, 0, 0, 1, 0x68, 0, 0, 0, 1, 0x65], none⟩

def delimiterChunk : Chunk := ⟨false, .finite 1, [0, 0, 0, 1, 9, 0xf0], none⟩

def capturing : List Event :=
  [.connected (some 1) ⟨1280, 720, true, true⟩, .channel .open]

/-- The state after some events, with the labels. -/
def follow : Sender → List Event → Sender × List Label
  | s, [] => (s, [])
  | s, e :: es =>
    ((follow (onEvent s e).1 es).1, ⟨e, (onEvent s e).2⟩ :: (follow (onEvent s e).1 es).2)

theorem follow_run (config : Config) : ∀ (es : List Event) (s : Sender),
    (sender config).Run s (follow s es).2 (follow s es).1
  | [], _ => .nil _
  | _ :: es, _ => .cons rfl (follow_run config es _)

def small : Config := ⟨1280, 720, 2000000⟩

def opened : List Event := capturing ++ [.encoded 1 keyChunk fun _ => true]

def deltaChunk : Chunk := ⟨false, .finite 1, [0, 0, 0, 1, 0x41, 7], none⟩

/-- The unit handed on for an output of the encoder after the events `es`. -/
def handedAfter (es : List Event) (generation : Nat) (chunk : Chunk) : Option Handed :=
  (onEvent (follow (create small) es).1 (.encoded generation chunk fun _ => true)).2

theorem handedAfter_step {es : List Event} {generation : Nat} {chunk : Chunk} {u : Handed}
    (h : handedAfter es generation chunk = some u) :
    ∃ s', onEvent (follow (create small) es).1 (.encoded generation chunk fun _ => true) = (s', some u) :=
  ⟨_, Prod.ext rfl h⟩

theorem gated_twoUnits : ∃ ns, (ns.any isIdr = false → Unbroken (follow (create small) opened).2 1) ∧
    annexB ns = [0, 0, 0, 1, 0x41, 7] := by
  have h : (handedAfter opened 1 deltaChunk).map (·.data) =
      some ([0, 0, 0, 1, 9, 0xf0] ++ [0, 0, 0, 1, 0x41, 7]) := by decide +kernel
  obtain ⟨u, hu, hdata⟩ := Option.map_eq_some_iff.mp h
  obtain ⟨s', hs⟩ := handedAfter_step hu
  obtain ⟨generation, chunk, send, ns, he, hd, hgate⟩ := gated (follow_run small opened _) hs
  cases he
  exact ⟨ns, hgate, List.append_cancel_left (hd.data.symm.trans hdata)⟩

/-- The first encoder gets a frame. -/
def encoding : List Event := capturing ++ [.frame 1 1 ⟨1280, 720, 0, 0, true, true⟩]

/-- A frame of another size, for which the encoder is replaced. -/
def turned : Event := .frame 1 1 ⟨720, 1280, 0, 0, true, true⟩

def secondKey : Event := .encoded 2 keyChunk fun _ => true

/-- What the first encoder makes of its frame, after it has been replaced. -/
def stale : Event := .encoded 1 deltaChunk fun _ => true

/-- A chunk of nothing but delimiters is handed on as a delimiter alone, and
the output of an encoder that has been replaced, which nobody sends, does not
shut the gate. -/
theorem delimiter_alone : ∃ pre mid key late s₀ s s' generation chunk send u,
    (sender small).Run (create small) pre s₀ ∧ s₀.encoder = some .configured ∧
    (sender small).Run s₀ (mid ++ [key, late]) s ∧ (∀ l ∈ pre ++ mid, l.encoder = none) ∧
    (key.encoder = some generation ∧ key.keyframe = true ∧ key.complete = true) ∧
    late.encoder = some s₀.encoderGeneration ∧ s₀.encoderGeneration < generation ∧ late.complete = false ∧
    onEvent s (.encoded generation chunk send) = (s', some u) ∧ u.keyframe = false ∧
    ¬ ∃ ns, ns ≠ [] ∧ u.data = [0, 0, 0, 1, 9, 0xf0] ++ annexB ns := by
  have hfirst : (follow (create small) encoding).1.encoder = some .configured ∧
      (follow (create small) encoding).1.encoderGeneration = 1 := by decide
  have hkeyed : (handedAfter (encoding ++ [turned]) 2 keyChunk).map (fun u => (u.keyframe, u.outcome.1)) =
      some (true, .sent) := by decide +kernel
  have halone : (handedAfter (encoding ++ [turned, secondKey, stale]) 2 delimiterChunk).map
      (fun u => (u.data, u.keyframe)) = some ([0, 0, 0, 1, 9, 0xf0], false) := by decide +kernel
  obtain ⟨k, hk, hsent⟩ := Option.map_eq_some_iff.mp hkeyed
  obtain ⟨u, hu, hdata⟩ := Option.map_eq_some_iff.mp halone
  obtain ⟨s', hs⟩ := handedAfter_step hu
  obtain ⟨hkeyframe, hsent⟩ := Prod.mk.inj hsent
  obtain ⟨hdata, hdelta⟩ := Prod.mk.inj hdata
  refine ⟨(follow (create small) encoding).2, [⟨turned, none⟩],
    ⟨secondKey, handedAfter (encoding ++ [turned]) 2 keyChunk⟩, ⟨stale, none⟩, (follow (create small) encoding).1,
    _, s', 2, delimiterChunk, _, u, follow_run small encoding _, hfirst.1, ?_, ?_, ⟨rfl, ?_, ?_⟩, ?_, ?_, rfl, hs,
    hdelta, ?_⟩
  · exact follow_run small [turned, secondKey, stale] _
  · intro l hl
    rcases (by simpa [follow, encoding, capturing] using hl : l = _ ∨ l = _ ∨ l = _ ∨ l = _) with
      rfl | rfl | rfl | rfl
    all_goals rfl
  · rw [hk]
    exact hkeyframe
  · rw [hk]
    exact beq_iff_eq.mpr hsent
  · rw [hfirst.2]
    rfl
  · rw [hfirst.2]
    decide
  · rintro ⟨ns, hne, hns⟩
    have hnil : annexB ns = [] := List.append_cancel_left (hns.symm.trans hdata)
    obtain ⟨n, ns', rfl⟩ := List.exists_cons_of_ne_nil hne
    rw [annexB_cons] at hnil
    cases hnil

end Scenario

end KmVirtualCamera.L4.WebCodecsSender
