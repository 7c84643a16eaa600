import Mathlib
import KmVirtualCamera.Core.Checked
import KmVirtualCamera.Core.Ring

/-!
# The PCM ring of the Windows renderer (`WasapiAudioRenderer`)

A ring of 200 ms of stereo. `RenderPcm16` appends frames, a mono sample twice,
and drops the oldest where they do not fit; the worker reads from the front;
`Flush` empties it. The renderer's mutex makes each of them one step. Unsigned
differences and accesses are checked.

`Newest` is the list the ring stands for; `run_newest` is the refinement, over
every sequence of calls.
-/
namespace KmVirtualCamera.L2.WasapiRing
open KmVirtualCamera.Ring

/-- 200 ms at 48 kHz.
mirrors windows/receiver/audio/wasapi_audio_renderer.cpp:15 -/
def kCapacity : Nat := 19200

/-- mirrors windows/receiver/audio/wasapi_audio_renderer.cpp:16-19 -/
structure Impl where
  pcm : List Int16
  size : pcm.length = kCapacity
  head : Nat := 0
  count : Nat := 0
  ok : Bool := false
  run : Bool := false

/-- `pcm[(head + count++) % kCapacity] = x` -/
def put (r : Impl) (x : Int16) : Impl :=
  { r with
    pcm := r.pcm.set ((r.head + r.count) % kCapacity) x
    size := by rw [List.length_set, r.size]
    count := r.count + 1 }

/-- Frame `i` of the samples.
mirrors windows/receiver/audio/wasapi_audio_renderer.cpp:97-98 -/
def putFrame (samples : List Int16) (channels : Nat) (r : Impl) (i : Nat) : Checked Impl := do
  let left ← cget samples (i * channels)
  let right ← cget samples (i * channels + (channels - 1))
  return put (put r left) right

/-- mirrors windows/receiver/audio/wasapi_audio_renderer.cpp:92-95 -/
def makeRoom (r : Impl) (elements : Nat) : Checked Impl := do
  let free ← csub kCapacity r.count
  if elements > free then do
    let drop ← csub elements free
    let count ← csub r.count drop
    return { r with head := (r.head + drop) % kCapacity, count }
  else return r

/-- The newest samples that fit the empty ring.
mirrors windows/receiver/audio/wasapi_audio_renderer.cpp:90 -/
def trim (samples : List Int16) (channels : Nat) : List Int16 :=
  if samples.length / channels > kCapacity / 2 then samples.rtake (kCapacity / 2 * channels) else samples

/-- The call is refused: other channels, no samples, or half a frame.
mirrors windows/receiver/audio/wasapi_audio_renderer.cpp:87 -/
def refuses (samples : List Int16) (channels : Int) : Prop :=
  (channels ≠ 1 ∧ channels ≠ 2) ∨ samples = [] ∨ samples.length % channels.toNat ≠ 0

instance (samples : List Int16) (channels : Int) : Decidable (refuses samples channels) :=
  inferInstanceAs (Decidable (_ ∨ _))

/-- mirrors windows/receiver/audio/wasapi_audio_renderer.cpp:86-100 -/
def renderPcm16 (r : Impl) (samples : List Int16) (channels : Int) : Checked Impl :=
  if refuses samples channels then .ok r
  else if r.ok = false ∨ r.run = false then .ok r
  else do
    let samples := trim samples channels.toNat
    let frames := samples.length / channels.toNat
    let r ← makeRoom r (frames * 2)
    (List.range frames).foldlM (putFrame samples channels.toNat) r

/-- The worker fills a device buffer of `frames`.
mirrors windows/receiver/audio/wasapi_audio_renderer.cpp:54-61 -/
def process (r : Impl) (frames : Nat) : Checked (Impl × List Int16) := do
  let elements := frames * 2
  let available := min elements r.count
  let dst ← (List.range available).mapM fun i => cget r.pcm ((r.head + i) % kCapacity)
  let count ← csub r.count available
  return ({ r with head := (r.head + available) % kCapacity, count },
    dst ++ List.replicate (elements - available) 0)

/-- mirrors windows/receiver/audio/wasapi_audio_renderer.cpp:85 -/
def flush (r : Impl) : Impl := { r with head := 0, count := 0 }

inductive Op where
  | renderPcm16 (samples : List Int16) (channels : Int)
  | process (frames : Nat)
  | flush

/-- The step and what it hands to the device. -/
def exec (r : Impl) : Op → Checked (Impl × List Int16)
  | .renderPcm16 samples channels => do
    let r ← renderPcm16 r samples channels
    return (r, [])
  | .process frames => process r frames
  | .flush => return (flush r, [])

def run (r : Impl) : List Op → Checked (Impl × List (List Int16))
  | [] => return (r, [])
  | op :: ops => do
    let (r, out) ← exec r op
    let (r, outs) ← run r ops
    return (r, out :: outs)

/-! ## The newest audio -/

namespace Newest

/-- The stereo elements of a call, of mono samples or of whole frames. -/
def stereo (samples : List Int16) (channels : Int) : List Int16 :=
  if channels = 1 then samples.flatMap fun x => [x, x]
  else if channels = 2 ∧ samples.length % 2 = 0 then samples
  else []

def exec (l : List Int16) : Op → List Int16 × List Int16
  | .renderPcm16 samples channels => ((l ++ stereo samples channels).rtake kCapacity, [])
  | .process frames =>
    (l.drop (frames * 2), l.take (frames * 2) ++ List.replicate (frames * 2 - l.length) 0)
  | .flush => ([], [])

def run (l : List Int16) : List Op → List Int16 × List (List Int16)
  | [] => (l, [])
  | op :: ops => ((run (exec l op).1 ops).1, (exec l op).2 :: (run (exec l op).1 ops).2)

end Newest

/-! ## The ring -/

def contents (r : Impl) : List Int16 := window r.pcm r.head r.count

/-- The indices are in the buffer, and on a left sample. -/
structure Inv (r : Impl) : Prop where
  head : r.head < kCapacity
  count : r.count ≤ kCapacity
  head_even : r.head % 2 = 0
  count_even : r.count % 2 = 0
  ok : r.ok = true
  run : r.run = true

theorem contents_length {r : Impl} (h : r.count ≤ kCapacity) : (contents r).length = r.count :=
  window_length (r.size ▸ h)

theorem write_one {α : Type} {b : List α} {pos : Nat} (h : pos < b.length) (x : α) :
    write b pos [x] = b.set pos x := by
  have hone : min 1 (b.length - pos) = 1 := by omega
  simp only [write, List.length_singleton, hone, Nat.lt_irrefl, gt_iff_lt, if_false, copyN]
  rw [List.set_eq_take_append_cons_drop, if_pos h, List.append_assoc]
  rfl

theorem put_contents {r : Impl} (hh : r.head < kCapacity) (hc : r.count < kCapacity) (x : Int16) :
    contents (put r x) = contents r ++ [x] := by
  have hpos : (r.head + r.count) % kCapacity < r.pcm.length := by
    rw [r.size]
    exact Nat.mod_lt _ (by decide)
  have hwrite := @window_write _ r.pcm [x] r.head r.count
    (by rwa [r.size]) (by rw [r.size]; exact hc)
  rw [r.size, write_one hpos] at hwrite
  exact hwrite

/-! ## Appending frames -/

/-- A mono sample goes to both sides. -/
def twice (samples : List Int16) : List Int16 := samples.flatMap fun x => [x, x]

/-- The elements of the first `n` frames. -/
def elements (samples : List Int16) (channels n : Nat) : List Int16 :=
  if channels = 1 then twice (samples.take n) else samples.take (n * 2)

theorem elements_succ {samples : List Int16} {channels n : Nat} (hc : channels = 1 ∨ channels = 2)
    (h : (n + 1) * channels ≤ samples.length) : elements samples channels (n + 1) =
      elements samples channels n ++
        [samples.getD (n * channels) 0, samples.getD (n * channels + (channels - 1)) 0] := by
  have hget : ∀ i < samples.length, samples[i]? = some (samples.getD i 0) := fun i hi => by
    rw [List.getElem?_eq_getElem hi, List.getD_eq_getElem samples 0 hi]
  rcases hc with rfl | rfl
  · rw [elements, elements, if_pos rfl, if_pos rfl, List.take_add_one, hget n (by omega), twice, List.flatMap_append]
    simp [twice]
  · rw [elements, elements, if_neg (by omega), if_neg (by omega), Nat.succ_mul, List.take_add_one, List.take_add_one,
      hget (n * 2) (by omega), hget (n * 2 + 1) (by omega)]
    simp

/-- What an append leaves alone. -/
structure Appended (r r' : Impl) (data : List Int16) : Prop where
  contents : contents r' = WasapiRing.contents r ++ data
  head : r'.head = r.head
  count : r'.count = r.count + data.length
  ok : r'.ok = r.ok
  run : r'.run = r.run

theorem elements_length {samples : List Int16} {channels n : Nat} (hc : channels = 1 ∨ channels = 2)
    (h : n * channels ≤ samples.length) : (elements samples channels n).length = n * 2 := by
  induction n with
  | zero =>
    unfold elements
    split <;> simp [twice]
  | succ n ih =>
    rw [elements_succ hc h, List.length_append, ih (by rw [Nat.succ_mul] at h; omega), Nat.succ_mul]
    rfl

theorem putFrame_ok {r : Impl} {samples : List Int16} {channels i : Nat} (hc : channels = 1 ∨ channels = 2)
    (h : (i + 1) * channels ≤ samples.length) (hh : r.head < kCapacity) (hroom : r.count + 2 ≤ kCapacity) :
    ∃ r', putFrame samples channels r i = .ok r' ∧ Appended r r'
      [samples.getD (i * channels) 0, samples.getD (i * channels + (channels - 1)) 0] := by
  rw [Nat.succ_mul] at h
  unfold putFrame
  rw [cget_getD (by omega) 0, ok_bind, cget_getD (by omega) 0, ok_bind]
  refine ⟨_, rfl, ?_, rfl, rfl, rfl, rfl⟩
  have hput := put_contents hh (by omega) (samples.getD (i * channels) 0)
  rw [put_contents (by exact hh) (by change r.count + 1 < kCapacity; omega), hput, List.append_assoc]
  rfl

theorem putFrames {r : Impl} {samples : List Int16} {channels : Nat} (hc : channels = 1 ∨ channels = 2)
    (hh : r.head < kCapacity) : ∀ n, n * channels ≤ samples.length → r.count + n * 2 ≤ kCapacity →
      ∃ r', (List.range n).foldlM (putFrame samples channels) r = .ok r' ∧
        Appended r r' (elements samples channels n) := by
  intro n
  induction n with
  | zero =>
    intro _ _
    have hnil : elements samples channels 0 = [] := List.eq_nil_of_length_eq_zero (elements_length hc (by omega))
    rw [hnil]
    exact ⟨r, rfl, (List.append_nil _).symm, rfl, rfl, rfl, rfl⟩
  | succ n ih =>
    intro hlen hroom
    have hlen' : n * channels ≤ samples.length := (Nat.mul_le_mul_right _ (Nat.le_succ n)).trans hlen
    obtain ⟨r', hr', ha⟩ := ih hlen' (by omega)
    have hcount : r'.count = r.count + n * 2 := by rw [ha.count, elements_length hc hlen']
    obtain ⟨r'', hr'', ha'⟩ := putFrame_ok hc hlen (ha.head ▸ hh) (by omega)
    refine ⟨r'', ?_, ?_, ha'.head.trans ha.head, ?_, ha'.ok.trans ha.ok, ha'.run.trans ha.run⟩
    · rw [List.range_succ, List.foldlM_append, hr', ok_bind]
      simp only [List.foldlM_cons, List.foldlM_nil, hr'', ok_bind]
      rfl
    · rw [ha'.contents, ha.contents, elements_succ hc hlen, List.append_assoc]
    · rw [ha'.count, ha.count, elements_succ hc hlen, List.length_append, Nat.add_assoc]

/-! ## One call -/

/-- The front goes, to the left sample that follows. -/
theorem drop_front {r : Impl} (h : Inv r) {n : Nat} (hn : n ≤ r.count) (heven : n % 2 = 0) :
    let r' := { r with head := (r.head + n) % kCapacity, count := r.count - n }
    Inv r' ∧ contents r' = (contents r).drop n := by
  have hhead := h.head_even
  have hcount := h.count_even
  have hle := h.count
  refine ⟨⟨Nat.mod_lt _ (by decide), ?_, ?_, ?_, h.ok, h.run⟩, ?_⟩
  · change r.count - n ≤ kCapacity
    omega
  · change (r.head + n) % 19200 % 2 = 0
    omega
  · change (r.count - n) % 2 = 0
    omega
  · have hdrop := @window_drop _ r.pcm r.head r.count n hn (by rw [r.size]; exact hle)
    rwa [r.size] at hdrop

theorem makeRoom_ok {r : Impl} (h : Inv r) {n : Nat} (hn : n ≤ kCapacity) (heven : n % 2 = 0) :
    ∃ r', makeRoom r n = .ok r' ∧ Inv r' ∧ r'.count + n ≤ kCapacity ∧
      contents r' = (contents r).drop (r.count + n - kCapacity) := by
  have hle := h.count
  have hcount := h.count_even
  have hcap : kCapacity % 2 = 0 := rfl
  unfold makeRoom
  rw [csub_ok hle, ok_bind]
  by_cases hfull : n > kCapacity - r.count
  · rw [if_pos hfull, csub_ok hfull.le, ok_bind, csub_ok (by omega), ok_bind]
    obtain ⟨hinv, hcontents⟩ := drop_front h (n := n - (kCapacity - r.count)) (by omega) (by omega)
    refine ⟨_, rfl, hinv, ?_, ?_⟩
    · change r.count - (n - (kCapacity - r.count)) + n ≤ kCapacity
      omega
    · rw [show r.count + n - kCapacity = n - (kCapacity - r.count) by omega]
      exact hcontents
  · rw [if_neg hfull, Nat.sub_eq_zero_of_le (by omega), List.drop_zero]
    exact ⟨r, rfl, h, by omega, rfl⟩

theorem twice_length (l : List Int16) : (twice l).length = l.length * 2 := by
  induction l with
  | nil => rfl
  | cons x l ih =>
    rw [twice, List.flatMap_cons, List.length_append]
    change 2 + (twice l).length = _
    rw [ih, List.length_cons]
    omega

theorem twice_drop (l : List Int16) : ∀ n, twice (l.drop n) = (twice l).drop (n * 2) := by
  induction l with
  | nil => intro n; simp [twice]
  | cons x l ih =>
    intro n
    cases n with
    | zero => rfl
    | succ n =>
      rw [List.drop_succ_cons, ih, Nat.succ_mul]
      rfl

/-- The elements of all the frames. -/
theorem elements_all {samples : List Int16} {channels : Nat} (hc : channels = 1 ∨ channels = 2)
    (h : samples.length % channels = 0) : elements samples channels (samples.length / channels) =
      if channels = 1 then twice samples else samples := by
  rcases hc with rfl | rfl
  · rw [elements, if_pos rfl, if_pos rfl, Nat.div_one, List.take_length]
  · rw [elements, if_neg (by omega), if_neg (by omega), List.take_of_length_le (by omega)]

theorem rtake_of_le {α : Type} {l : List α} {n : Nat} (h : l.length ≤ n) : l.rtake n = l := by
  rw [List.rtake, Nat.sub_eq_zero_of_le h, List.drop_zero]

theorem rtake_append_rtake {α : Type} (l m : List α) (n : Nat) : (l ++ m.rtake n).rtake n = (l ++ m).rtake n := by
  simp only [List.rtake_eq_reverse_take_reverse, List.reverse_append, List.reverse_reverse, List.take_append,
    List.take_take, List.length_take, Nat.min_self]
  congr 3
  omega

/-- Of the elements of a call, the trimmed samples are the newest. -/
theorem trim_elements {samples : List Int16} {channels : Nat} (hc : channels = 1 ∨ channels = 2)
    (h : samples.length % channels = 0) :
    (trim samples channels).length % channels = 0 ∧ (trim samples channels).length / channels * 2 ≤ kCapacity ∧
      elements (trim samples channels) channels ((trim samples channels).length / channels) =
        (elements samples channels (samples.length / channels)).rtake kCapacity := by
  have hcap : kCapacity = 19200 := rfl
  have hlen : ∀ n, (samples.rtake n).length = samples.length - (samples.length - n) := fun n => List.length_drop
  have heven : (trim samples channels).length % channels = 0 := by
    unfold trim
    split
    · rw [hlen]
      rcases hc with rfl | rfl <;> omega
    · exact h
  refine ⟨heven, ?_, ?_⟩
  · unfold trim
    split
    · rw [hlen]
      rcases hc with rfl | rfl <;> omega
    · omega
  · rw [elements_all hc h, elements_all hc heven]
    by_cases hlong : samples.length / channels > kCapacity / 2
    · rw [trim, if_pos hlong]
      rcases hc with rfl | rfl
      · rw [if_pos rfl, if_pos rfl, List.rtake, List.rtake, twice_drop, twice_length]
        have hskip : (samples.length - kCapacity / 2 * 1) * 2 = samples.length * 2 - kCapacity := by omega
        rw [hskip]
      · rw [if_neg (by omega), if_neg (by omega)]
        rfl
    · rw [trim, if_neg hlong, rtake_of_le]
      rcases hc with rfl | rfl
      · rw [if_pos rfl, twice_length]
        omega
      · rw [if_neg (by omega)]
        omega

theorem stereo_eq {samples : List Int16} {channels : Int} (h : ¬refuses samples channels) :
    (channels.toNat = 1 ∨ channels.toNat = 2) ∧ samples.length % channels.toNat = 0 ∧
      Newest.stereo samples channels = elements samples channels.toNat (samples.length / channels.toNat) := by
  have hparts := h
  unfold refuses at hparts
  have hc : channels.toNat = 1 ∨ channels.toNat = 2 := by omega
  have hmod : samples.length % channels.toNat = 0 := by
    by_contra hmod
    exact hparts (.inr (.inr hmod))
  refine ⟨hc, hmod, ?_⟩
  rw [Newest.stereo, elements_all hc hmod]
  by_cases hone : channels = 1
  · subst hone
    rfl
  · have htwo : channels = 2 := by omega
    subst htwo
    rw [if_neg hone, if_pos ⟨rfl, hmod⟩, if_neg (by decide)]

/-- A call that is refused has nothing to play. -/
theorem stereo_refused {samples : List Int16} {channels : Int} (h : refuses samples channels) :
    Newest.stereo samples channels = [] := by
  unfold Newest.stereo
  rcases h with ⟨hmono, hstereo⟩ | hnone | hhalf
  · rw [if_neg hmono, if_neg fun h => hstereo h.1]
  · subst hnone
    simp
  · split_ifs with hmono hstereo
    · subst hmono
      exact absurd (Nat.mod_one _) hhalf
    · obtain ⟨htwo, heven⟩ := hstereo
      subst htwo
      exact absurd heven hhalf
    · rfl

/-- The newest of what there is and what comes. -/
theorem renderPcm16_ok {r : Impl} (h : Inv r) (samples : List Int16) (channels : Int) :
    ∃ r', renderPcm16 r samples channels = .ok r' ∧ Inv r' ∧
      contents r' = (contents r ++ Newest.stereo samples channels).rtake kCapacity := by
  unfold renderPcm16
  by_cases hrefuses : refuses samples channels
  · rw [if_pos hrefuses, stereo_refused hrefuses, List.append_nil,
      rtake_of_le (by rw [contents_length h.count]; exact h.count)]
    exact ⟨r, rfl, h, rfl⟩
  · obtain ⟨hc, hmod, hstereo⟩ := stereo_eq hrefuses
    obtain ⟨heven, hfit, hnewest⟩ := trim_elements hc hmod
    generalize trim samples channels.toNat = trimmed at heven hfit hnewest
    have hframes : trimmed.length / channels.toNat * channels.toNat ≤ trimmed.length := Nat.div_mul_le_self ..
    have hlen := elements_length hc hframes
    obtain ⟨room, hroom, hinv, hspace, hfront⟩ := makeRoom_ok h hfit (by omega)
    obtain ⟨r', hr', ha⟩ := putFrames hc hinv.head _ hframes hspace
    rw [if_neg hrefuses, if_neg (by rw [h.ok, h.run]; simp)]
    simp only
    rw [hroom, ok_bind]
    have hcount : r'.count = room.count + trimmed.length / channels.toNat * 2 := by rw [ha.count, hlen]
    refine ⟨r', hr', ⟨ha.head ▸ hinv.head, by omega, ha.head ▸ hinv.head_even, ?_, ha.ok.trans hinv.ok,
      ha.run.trans hinv.run⟩, ?_⟩
    · have hroomEven := hinv.count_even
      omega
    · rw [ha.contents, hfront, hstereo, ← rtake_append_rtake, ← hnewest, List.rtake, List.drop_append,
        List.length_append, contents_length h.count, hlen]
      have hnone : r.count + trimmed.length / channels.toNat * 2 - kCapacity - r.count = 0 := by omega
      rw [hnone, List.drop_zero]

theorem reads_ok {r : Impl} : ∀ n, n ≤ kCapacity →
    (List.range n).mapM (fun i => cget r.pcm ((r.head + i) % kCapacity)) = .ok (window r.pcm r.head n) := by
  intro n
  induction n with
  | zero => exact fun _ => rfl
  | succ n ih =>
    intro hn
    have hmod : (r.head + n) % kCapacity < r.pcm.length := by
      rw [r.size]
      exact Nat.mod_lt _ (by decide)
    have hget := @window_get _ r.pcm r.head (n + 1) n (by rwa [r.size]) (Nat.lt_succ_self n)
    rw [r.size] at hget
    have hlast : (window r.pcm r.head (n + 1)).take (n + 1) = window r.pcm r.head n ++
        [r.pcm.getD ((r.head + n) % kCapacity) 0] := by
      rw [List.take_add_one, ← window_take (Nat.le_succ n), hget, List.getElem?_eq_getElem hmod,
        List.getD_eq_getElem _ _ hmod]
      rfl
    rw [← window_take (le_refl _)] at hlast
    rw [List.range_succ, List.mapM_append, ih (by omega), ok_bind, List.mapM_cons, List.mapM_nil,
      cget_getD hmod 0, ok_bind, hlast]
    rfl

theorem process_ok {r : Impl} (h : Inv r) (frames : Nat) :
    ∃ r', process r frames = .ok (r', (contents r).take (frames * 2) ++
        List.replicate (frames * 2 - r.count) 0) ∧ Inv r' ∧ contents r' = (contents r).drop (frames * 2) := by
  have hcount := h.count_even
  obtain ⟨hinv, hcontents⟩ := drop_front h (n := min (frames * 2) r.count) (by omega) (by omega)
  have hread : (List.range (min (frames * 2) r.count)).mapM (fun i => cget r.pcm ((r.head + i) % kCapacity)) =
      .ok ((contents r).take (frames * 2)) := by
    have hle := h.count
    rw [reads_ok _ (by omega), window_take (d := r.count) (by omega)]
    have hlen := contents_length h.count
    refine congrArg Except.ok (List.take_eq_take_iff.mpr ?_)
    change min (min (frames * 2) r.count) (contents r).length = min (frames * 2) (contents r).length
    omega
  unfold process
  simp only
  rw [hread, ok_bind, csub_ok (by omega), ok_bind]
  have hzeros : frames * 2 - min (frames * 2) r.count = frames * 2 - r.count := by omega
  refine ⟨_, by rw [hzeros]; rfl, hinv, hcontents.trans ?_⟩
  by_cases hfew : frames * 2 ≤ r.count
  · rw [Nat.min_eq_left hfew]
  · have hlen := contents_length h.count
    rw [List.drop_eq_nil_of_le (by omega), List.drop_eq_nil_of_le (by omega)]

theorem flush_ok {r : Impl} (h : Inv r) : Inv (flush r) ∧ contents (flush r) = [] :=
  ⟨⟨Nat.succ_pos _, Nat.zero_le _, rfl, rfl, h.ok, h.run⟩, rfl⟩

/-! ## Every sequence of calls -/

theorem exec_newest {r : Impl} (h : Inv r) (op : Op) : ∃ r', exec r op = .ok (r', (Newest.exec (contents r) op).2) ∧
    Inv r' ∧ contents r' = (Newest.exec (contents r) op).1 := by
  cases op with
  | renderPcm16 samples channels =>
    obtain ⟨r', hr', hinv, hcontents⟩ := renderPcm16_ok h samples channels
    simp only [exec, Newest.exec, hr', ok_bind]
    exact ⟨r', rfl, hinv, hcontents⟩
  | process frames =>
    obtain ⟨r', hr', hinv, hcontents⟩ := process_ok h frames
    refine ⟨r', ?_, hinv, hcontents⟩
    rw [exec, hr', Newest.exec, contents_length h.count]
  | flush =>
    obtain ⟨hinv, hcontents⟩ := flush_ok h
    exact ⟨flush r, rfl, hinv, hcontents⟩

theorem run_inv (ops : List Op) : ∀ {r : Impl}, Inv r → ∃ r',
    run r ops = .ok (r', (Newest.run (contents r) ops).2) ∧ Inv r' ∧
      contents r' = (Newest.run (contents r) ops).1 := by
  induction ops with
  | nil =>
    intro r h
    rw [Newest.run]
    exact ⟨r, rfl, h, rfl⟩
  | cons op ops ih =>
    intro r h
    obtain ⟨r', hr', hinv, hcontents⟩ := exec_newest h op
    obtain ⟨r'', hr'', hinv', hcontents'⟩ := ih hinv
    rw [hcontents] at hr'' hcontents'
    refine ⟨r'', ?_, hinv', hcontents'⟩
    rw [run, hr', ok_bind]
    simp only
    rw [hr'', ok_bind]
    rfl

/-- The renderer that runs, with nothing queued; the buffer holds anything. -/
def started (pcm : { b : List Int16 // b.length = kCapacity }) : Impl :=
  { pcm := pcm.1, size := pcm.2, ok := true, run := true }

/-- **The ring keeps the newest audio**: whatever is called while the renderer
runs, nothing wraps or leaves the buffer, the ring is the list, the device gets
what the list gives, and the indices stay on left samples. -/
theorem run_newest (pcm : { b : List Int16 // b.length = kCapacity }) (ops : List Op) :
    ∃ r, run (started pcm) ops = .ok (r, (Newest.run [] ops).2) ∧ contents r = (Newest.run [] ops).1 ∧
      r.head < kCapacity ∧ r.count ≤ kCapacity ∧ r.head % 2 = 0 ∧ r.count % 2 = 0 := by
  have hinv : Inv (started pcm) := ⟨Nat.succ_pos _, Nat.zero_le _, rfl, rfl, rfl, rfl⟩
  obtain ⟨r, hr, h, hcontents⟩ := run_inv ops hinv
  exact ⟨r, hr, hcontents, h.head, h.count, h.head_even, h.count_even⟩

end KmVirtualCamera.L2.WasapiRing
