import Mathlib
import KmVirtualCamera.L2Machine.OpusJitter

/-!
# The timeline of the Opus output

`endTimestamp` is where the output has got to, in the sender's timestamps of
48 kHz. As long as it is neither cleared nor the decoder made anew, it goes
forward by what is delivered, concealed gaps included (`timeline`); a stale
packet delivers nothing and leaves it alone.

libopus has to do what it is documented to do (`Exact`): a packet is decoded to
as many frames as `opus_packet_get_nb_samples` says, and a gap is concealed in
full. `created` counts the decoders it has made. A call that clears
`endTimestamp` either makes a decoder at once or takes the one there is away;
the next packet then makes one, so between two points at which `endTimestamp`
is set and `created` is the same it has not been cleared.
-/
namespace KmVirtualCamera.L2.OpusRtp
open L1.RtpWire (Bytes RtpPacket)

variable {W D : Type}

structure Exact (o : Opus W D) (created : W → Nat) : Prop where
  create : ∀ w, created (o.create w).1 = created w + 1
  destroy : ∀ w d, created (o.destroy w d) = created w
  decode : ∀ w d bytes capacity, created (o.decode w d bytes capacity).1 = created w
  packet : ∀ w d bytes, 0 < o.nbSamples bytes → o.nbSamples bytes ≤ 5760 →
    (o.decode w d (some bytes) 5760).2.1 = o.nbSamples bytes
  conceal : ∀ w d n, 0 < n → n ≤ 5760 → n % 120 = 0 → (o.decode w d none n).2.1 = n
  /-- the buffer has two elements a frame -/
  buffer : ∀ w d bytes capacity, (o.decode w d bytes capacity).2.1 ≤ capacity →
    (o.decode w d bytes capacity).2.1.toNat * 2 ≤ (o.decode w d bytes capacity).2.2.length

def Event.frames : Event → Nat
  | .payload _ _ => 0
  | .pcm elements channels _ => elements.length / channels

/-- The PCM frames delivered. -/
def frames (log : List Event) : Nat := (log.map Event.frames).sum

@[simp] theorem frames_append (as bs : List Event) : frames (as ++ bs) = frames as + frames bs := by
  simp [frames]

/-- What the timeline is about, in a state with the callback set. -/
structure Output (created : W → Nat) (s : Impl W D) (endTimestamp : Option UInt32) (decoder : Option D)
    (made delivered : Nat) : Prop where
  endTimestamp : s.endTimestamp = endTimestamp
  decoder : s.decoder = decoder
  callback : s.callback = true
  made : created s.lib = made
  delivered : frames s.log = delivered

def run (o : Opus W D) (s : Impl W D) (calls : List Call) : Impl W D := calls.foldl (call o) s

/-- The end of `decode`, with a decoder or without. -/
def deliver (o : Opus W D) (p : Impl W D × Bool) (bytes : Option Bytes) (capacity : Int) : Impl W D × Bool :=
  match p.2, p.1.decoder with
  | true, some d =>
    let (lib, frames, pcm) := o.decode p.1.lib d bytes capacity
    if frames ≤ 0 ∨ frames > capacity then ({ p.1 with lib := lib }, false)
    else
      let log := if p.1.callback then p.1.log ++ [.pcm (pcm.take (frames.toNat * 2)) 2 48000] else p.1.log
      ({ p.1 with lib := lib, log := log }, true)
  | _, _ => (p.1, false)

theorem decode_eq (o : Opus W D) (s : Impl W D) (bytes : Option Bytes) (capacity : Int) :
    decode o s bytes capacity =
      deliver o (if s.decoder.isSome then (s, true) else recreate o s) bytes capacity := rfl

/-- A timestamp that is not behind is the end and the gap. -/
theorem gap_reaches {timestamp endTimestamp : UInt32} (h : 0 ≤ gap timestamp endTimestamp) :
    timestamp = endTimestamp + UInt32.ofNat (gap timestamp endTimestamp).toNat := by
  unfold gap at h ⊢
  dsimp only at h ⊢
  have hlt := (timestamp - endTimestamp).toNat_lt
  split at h
  · rename_i hle
    rw [if_pos hle, Int.toNat_natCast, UInt32.ofNat_toNat]
    rw [UInt32.add_comm, UInt32.sub_add_cancel]
  · omega

theorem ofInt_eq {n : Int} (h : 0 ≤ n) : UInt32.ofInt n = UInt32.ofNat n.toNat := by
  apply UInt32.toNat_inj.mp
  rw [UInt32.ofInt, UInt32.toNat_ofNat', UInt32.toNat_ofNat']
  omega

/-- A state `k` packets after a point at which the output had got to `e`, with
`f` frames delivered and `c` decoders made. -/
inductive Timeline (created : W → Nat) (e : UInt32) (f c k : Nat) (s : Impl W D) : Prop
  | made : c < created s.lib → Timeline created e f c k s
  | cleared : created s.lib = c → s.decoder = none → s.endTimestamp = none → Timeline created e f c k s
  | set (n : Nat) : n ≤ 11520 * k → Output created s (some (e + UInt32.ofNat n)) s.decoder c (f + n) →
      Timeline created e f c k s

/-- What `Timeline` reads. -/
def outlet (s : Impl W D) : Option D × Option UInt32 × Bool × W × List Event :=
  (s.decoder, s.endTimestamp, s.callback, s.lib, s.log)

section
variable {created : W → Nat} {e : UInt32} {f c k : Nat} {s s' : Impl W D}

theorem Timeline.outlet (h : Timeline created e f c k s) (heq : outlet s' = outlet s) :
    Timeline created e f c k s' := by
  simp only [OpusRtp.outlet, Prod.mk.injEq] at heq
  obtain ⟨hd, he, hcallback, hlib, hlog⟩ := heq
  cases h with
  | made h => exact .made (hlib ▸ h)
  | cleared hc hno hclear => exact .cleared (hlib ▸ hc) (hd.trans hno) (he.trans hclear)
  | set n hn h =>
    exact .set n hn ⟨he.trans h.endTimestamp, rfl, hcallback.trans h.callback, hlib ▸ h.made, hlog ▸ h.delivered⟩

theorem Timeline.mono {k' : Nat} (h : Timeline created e f c k s) (hk : k ≤ k') :
    Timeline created e f c k' s := by
  cases h with
  | made h => exact .made h
  | cleared hc hd he => exact .cleared hc hd he
  | set n hn h => exact .set n (by omega) h

theorem Timeline.at_end (h : Timeline created e f c k s) {e' : UInt32} (he : s.endTimestamp = some e')
    (hmade : created s.lib = c) :
    ∃ n ≤ 11520 * k, e' = e + UInt32.ofNat n ∧ frames s.log = f + n := by
  cases h with
  | made h => omega
  | cleared _ _ hno => cases hno.symm.trans he
  | set n hn h => exact ⟨n, hn, Option.some.inj (he.symm.trans h.endTimestamp), h.delivered⟩

theorem locate_outlet {now : Int} {packet : Pending} (h : locate s now = some (s', packet)) :
    OpusRtp.outlet s' = OpusRtp.outlet s := by
  unfold locate at h
  split at h
  · rw [(Prod.mk.inj (Option.some.inj h)).1]
  · split at h
    · cases h
    · split at h
      · cases h
      · rw [← (Prod.mk.inj (Option.some.inj h)).1]
        rfl

theorem follow_outlet {o : Opus W D} (packet : RtpPacket) (number : Int) :
    OpusRtp.outlet (follow o s packet number) = OpusRtp.outlet s ∨
      OpusRtp.outlet (follow o s packet number) = OpusRtp.outlet (reset o s) := by
  unfold follow
  dsimp only
  split
  · split
    · exact Or.inr rfl
    · exact Or.inr rfl
  · split
    · exact Or.inl rfl
    · exact Or.inl rfl

theorem accept_outlet {packet : RtpPacket} {number : Int} (h : accept s packet number = some s') :
    OpusRtp.outlet s' = OpusRtp.outlet s := by
  unfold accept at h
  dsimp only at h
  split at h
  · split at h
    · cases h
    · rw [← Option.some.inj h]
      rfl
  · rw [Option.some.inj h]

theorem keep_outlet {o : Opus W D} {packet : RtpPacket} {now number : Int}
    (h : keep o s packet now number = some s') :
    OpusRtp.outlet s' = OpusRtp.outlet s ∨ OpusRtp.outlet s' = OpusRtp.outlet (reset o s) := by
  unfold keep at h
  split at h
  · cases h
  · rw [← Option.some.inj h]
    split
    · exact Or.inr rfl
    · exact Or.inl rfl

end

section
variable {o : Opus W D} {created : W → Nat} (ho : Exact o created)
include ho

/-! ## Decoders made -/

theorem recreate_created (s : Impl W D) : created (recreate o s).1.lib = created s.lib + 1 := by
  unfold recreate
  cases s.decoder with
  | none => exact ho.create s.lib
  | some d => exact (ho.create _).trans (by rw [ho.destroy])

theorem reset_created (s : Impl W D) : created (reset o s).lib = created s.lib := by
  unfold reset
  cases s.decoder with
  | none => rfl
  | some d => exact ho.destroy s.lib d

theorem deliver_created (p : Impl W D × Bool) (bytes : Option Bytes) (capacity : Int) :
    created (deliver o p bytes capacity).1.lib = created p.1.lib := by
  unfold deliver
  split
  · rename_i d _ _
    have hkept := ho.decode p.1.lib d bytes capacity
    dsimp only
    by_cases hno : (o.decode p.1.lib d bytes capacity).2.1 ≤ 0 ∨ (o.decode p.1.lib d bytes capacity).2.1 > capacity
    · rw [if_pos hno]
      exact hkept
    · rw [if_neg hno]
      exact hkept
  · rfl

theorem decode_created (s : Impl W D) (bytes : Option Bytes) (capacity : Int) :
    created s.lib ≤ created (decode o s bytes capacity).1.lib ∧
      (s.decoder = none → created s.lib < created (decode o s bytes capacity).1.lib) := by
  rw [decode_eq, deliver_created ho]
  cases hd : s.decoder with
  | none =>
    have hmade := recreate_created ho s
    simp only [Option.isSome_none, Bool.false_eq_true, if_false]
    omega
  | some d => exact ⟨le_refl _, nofun⟩

/-- A call of a decoder that gives `n` frames. -/
theorem decode_spec {s : Impl W D} {d : D} (hd : s.decoder = some d) (hcallback : s.callback = true)
    {bytes : Option Bytes} {capacity n : Int} (hn : 0 < n ∧ n ≤ capacity)
    (hframes : (o.decode s.lib d bytes capacity).2.1 = n) :
    (decode o s bytes capacity).2 = true ∧
      Output created (decode o s bytes capacity).1 s.endTimestamp (some d) (created s.lib)
        (frames s.log + n.toNat) := by
  have hbuffer := ho.buffer s.lib d bytes capacity (by rw [hframes]; exact hn.2)
  rw [hframes] at hbuffer
  have hlen : min (n.toNat * 2) (o.decode s.lib d bytes capacity).2.2.length = n.toNat * 2 := by omega
  rw [decode_eq, hd]
  simp only [Option.isSome_some, if_true, deliver, hd]
  rw [if_neg (by rw [hframes]; omega)]
  refine ⟨rfl, rfl, rfl, hcallback, ho.decode _ _ _ _, ?_⟩
  simp [hcallback, hframes, frames, Event.frames, hlen]

/-! ## One packet -/

theorem startOver_created (s : Impl W D) : created s.lib < created (startOver o s).lib := by
  have hmade := recreate_created ho s
  change _ < created (recreate o s).1.lib
  omega

theorem conceal_created (s : Impl W D) (gap : Int) : created s.lib ≤ created (conceal o s gap).lib := by
  unfold conceal
  split
  · split
    · exact (decode_created ho s none gap).1
    · rw [recreate_created ho]
      exact Nat.le_succ _
  · exact le_refl _

theorem conceal_none {s : Impl W D} (hd : s.decoder = none) (gap : Int) :
    created s.lib < created (conceal o s gap).lib ∨ conceal o s gap = s := by
  unfold conceal
  split
  · refine Or.inl ?_
    split
    · exact (decode_created ho s none gap).2 hd
    · rw [recreate_created ho]
      exact Nat.lt_succ_self _
  · exact Or.inr rfl

theorem decodePacket_created (s : Impl W D) (packet : Pending) (now duration : Int) :
    created s.lib ≤ created (decodePacket o s packet now duration).lib ∧
      (s.decoder = none → created s.lib < created (decodePacket o s packet now duration).lib) := by
  have hdecode := decode_created ho { s with log := s.log ++ [.payload packet now] } (some packet.bytes) 5760
  unfold decodePacket
  simp only at hdecode ⊢
  split
  · exact hdecode
  · have hover := startOver_created ho
      (decode o { s with log := s.log ++ [.payload packet now] } (some packet.bytes) 5760).1
    exact ⟨by omega, fun _ => by omega⟩

theorem playPacket_created (s : Impl W D) (packet : Pending) (now : Int) :
    created s.lib ≤ created (playPacket o s packet now).lib := by
  have hover := (startOver_created ho s).le
  unfold playPacket
  split
  · exact hover
  dsimp only
  split
  · exact hover
  split
  · split
    · exact le_refl _
    · exact le_trans (conceal_created ho s _) (decodePacket_created ho _ packet now _).1
  · exact (decodePacket_created ho s packet now _).1

/-- A gap of at most 5760 frames, in steps of 120, is delivered; for any other a
decoder is made. -/
theorem conceal_spec {s : Impl W D} {end? : Option UInt32} {d : D} {c f : Nat}
    (h : Output created s end? (some d) c f) {gap : Int} (hgap : 0 ≤ gap) :
    c < created (conceal o s gap).lib ∨
      (gap ≤ 5760 ∧ Output created (conceal o s gap) end? (some d) c (f + gap.toNat)) := by
  obtain ⟨hend, hd, hcallback, rfl, rfl⟩ := h
  unfold conceal
  split
  · rename_i hpos
    split
    · rename_i hshort
      have hspec := decode_spec ho hd hcallback ⟨hpos, le_refl _⟩
        (ho.conceal s.lib d gap hpos hshort.1 hshort.2)
      exact Or.inr ⟨hshort.1, hend ▸ hspec.2⟩
    · rw [recreate_created ho]
      exact Or.inl (Nat.lt_succ_self _)
  · obtain rfl : gap = 0 := by omega
    exact Or.inr ⟨by decide, hend, hd, hcallback, rfl, rfl⟩

theorem decodePacket_spec {s : Impl W D} {end? : Option UInt32} {d : D} {c f : Nat}
    (h : Output created s end? (some d) c f) (packet : Pending) (now : Int)
    (hpos : 0 < o.nbSamples packet.bytes) (hle : o.nbSamples packet.bytes ≤ 5760) :
    Output created (decodePacket o s packet now (o.nbSamples packet.bytes))
      (some (packet.timestamp + UInt32.ofInt (o.nbSamples packet.bytes))) (some d) c
      (f + (o.nbSamples packet.bytes).toNat) := by
  obtain ⟨-, hd, hcallback, rfl, rfl⟩ := h
  have hspec := decode_spec ho (s := { s with log := s.log ++ [.payload packet now] }) hd hcallback
    ⟨hpos, hle⟩ (ho.packet s.lib d packet.bytes hpos hle)
  unfold decodePacket
  simp only [hspec.1, if_true]
  obtain ⟨-, -, hdecoder, hcallback', hmade, hdelivered⟩ := hspec
  refine ⟨rfl, hdecoder, hcallback', hmade, ?_⟩
  simpa [frames, Event.frames] using hdelivered

/-! ## The invariant -/

theorem Timeline.play {e : UInt32} {f c k : Nat} {s : Impl W D} (h : Timeline created e f c k s)
    (packet : Pending) (now : Int) : Timeline created e f c (k + 1) (playPacket o s packet now) := by
  have hover := startOver_created ho s
  have hle := playPacket_created ho s packet now
  cases h with
  | made h => exact .made (by omega)
  | cleared hc hd he =>
    unfold playPacket
    split
    · exact .made (by omega)
    dsimp only
    split
    · exact .made (by omega)
    · simp only [he]
      have hmade := (decodePacket_created ho s packet now (o.nbSamples packet.bytes)).2 hd
      exact .made (by omega)
  | set n hn h =>
    have he := h.endTimestamp
    have hc := h.made
    unfold playPacket
    split
    · exact .made (by omega)
    dsimp only
    split
    · exact .made (by omega)
    rename_i hduration
    simp only [he]
    split
    · exact .set n (by omega) h
    rename_i hgap
    cases hd : s.decoder with
    | none =>
      -- the first call of the decoder makes one
      have hpacket := decodePacket_created ho (conceal o s (gap packet.timestamp (e + UInt32.ofNat n))) packet
        now (o.nbSamples packet.bytes)
      rcases conceal_none ho hd (gap packet.timestamp (e + UInt32.ofNat n)) with hmade | hstay
      · exact .made (by omega)
      · rw [hstay] at hpacket ⊢
        have hmade := hpacket.2 hd
        exact .made (by omega)
    | some d =>
      rw [hd] at h
      have hpacket := decodePacket_created ho (conceal o s (gap packet.timestamp (e + UInt32.ofNat n))) packet
        now (o.nbSamples packet.bytes)
      rcases conceal_spec ho h (not_lt.mp hgap) with hmade | ⟨hshort, hconceal⟩
      · exact .made (by omega)
      · have hplayed := decodePacket_spec ho hconceal packet now (by omega) (by omega)
        refine .set (n + (gap packet.timestamp (e + UInt32.ofNat n)).toNat + (o.nbSamples packet.bytes).toNat)
          (by omega) ?_
        obtain ⟨hend, hdecoder, hcallback, hmade, hdelivered⟩ := hplayed
        refine ⟨hend.trans (congrArg some ?_), rfl, hcallback, hmade, by omega⟩
        have hreach := gap_reaches (not_lt.mp hgap)
        rw [UInt32.ofNat_add, UInt32.ofNat_add, ← UInt32.add_assoc, ← UInt32.add_assoc, ← hreach,
          ofInt_eq (by omega)]

theorem Timeline.turns {e : UInt32} {f c : Nat} (now : Int) : ∀ (budget : Nat) {k : Nat} {s : Impl W D},
    Timeline created e f c k s → Timeline created e f c (k + budget) (tickLoop o s now budget)
  | 0, _, _, h => h
  | budget + 1, k, s, h => by
    unfold tickLoop
    split
    · exact h.mono (Nat.le_add_right _ _)
    split
    · exact h.mono (Nat.le_add_right _ _)
    rename_i s' packet hlocate
    have h' := h.outlet (locate_outlet hlocate)
    split
    · exact h'.mono (Nat.le_add_right _ _)
    · have htaken : Timeline created e f c k (takeOut s') := h'.outlet rfl
      have hplay := htaken.play ho packet now
      have hturns := Timeline.turns now budget hplay
      rwa [Nat.add_assoc, Nat.add_comm 1] at hturns

theorem Timeline.reset {e : UInt32} {f c k : Nat} {s : Impl W D} (h : Timeline created e f c k s) :
    Timeline created e f c k (reset o s) := by
  have hcreated := reset_created ho s
  cases h with
  | made h => exact .made (by omega)
  | cleared hc _ _ => exact .cleared (by omega) rfl rfl
  | set n _ h =>
    have hc := h.made
    exact .cleared (by omega) rfl rfl

theorem Timeline.receive {e : UInt32} {f c k : Nat} {s : Impl W D} (h : Timeline created e f c k s)
    (bytes : Bytes) (now number : Int) : Timeline created e f c (k + 16) (receive o s bytes now number) := by
  unfold OpusRtp.receive
  split
  · exact h.mono (Nat.le_add_right _ _)
  rename_i packet _
  have hfollow : Timeline created e f c k (follow o s packet number) := by
    rcases follow_outlet (o := o) (s := s) packet number with heq | heq
    · exact h.outlet heq
    · exact (h.reset ho).outlet heq
  unfold receivePacket
  split
  · exact hfollow.mono (Nat.le_add_right _ _)
  rename_i s₁ haccept
  have h₁ := hfollow.outlet (accept_outlet haccept)
  split
  · exact h₁.mono (Nat.le_add_right _ _)
  rename_i s₂ hkeep
  refine Timeline.turns ho now 16 ?_
  rcases keep_outlet hkeep with heq | heq
  · exact h₁.outlet heq
  · exact (h₁.reset ho).outlet heq

theorem Timeline.call {e : UInt32} {f c k : Nat} {s : Impl W D} (h : Timeline created e f c k s) (ev : Call) :
    Timeline created e f c (k + 16) (call o s ev) := by
  cases ev with
  | receive bytes now number => exact h.receive ho bytes now number
  | tick now => exact h.turns ho now 16

theorem Timeline.run {e : UInt32} {f c : Nat} (calls : List Call) : ∀ {k : Nat} {s : Impl W D},
    Timeline created e f c k s → ∃ k', Timeline created e f c k' (run o s calls) := by
  induction calls with
  | nil => exact fun h => ⟨_, h⟩
  | cons ev calls ih => exact fun h => ih (h.call ho ev)

end

/-- No turn takes `endTimestamp` back, whatever the gap. -/
theorem playPacket_onward {o : Opus W D} {s : Impl W D} {e e' : UInt32} (he : s.endTimestamp = some e)
    {packet : Pending} {now : Int} (h : (playPacket o s packet now).endTimestamp = some e') :
    e' = e ∨ 0 ≤ gap packet.timestamp e ∧ e' = packet.timestamp + UInt32.ofInt (o.nbSamples packet.bytes) := by
  unfold playPacket at h
  split at h
  · cases h
  dsimp only at h
  split at h
  · cases h
  simp only [he] at h
  split at h
  · exact Or.inl (Option.some.inj (h.symm.trans he))
  · rename_i hgap
    unfold decodePacket at h
    dsimp only at h
    split at h
    · exact Or.inr ⟨not_lt.mp hgap, (Option.some.inj h).symm⟩
    · cases h

/-- **Sample accurate.** Between two points at which `endTimestamp` is set, with
no decoder made in between, it has gone forward by the frames delivered; a call
does not take it back, and neither does any turn of the loop. -/
theorem timeline {o : Opus W D} {created : W → Nat} (ho : Exact o created) (s : Impl W D)
    (hcallback : s.callback = true) (e : UInt32) (he : s.endTimestamp = some e) :
    (∀ calls e', (run o s calls).endTimestamp = some e' → created (run o s calls).lib = created s.lib →
      frames s.log ≤ frames (run o s calls).log ∧
        (frames (run o s calls).log - frames s.log) % 2 ^ 32 = (e' - e).toNat) ∧
    (∀ ev e', (call o s ev).endTimestamp = some e' → created (call o s ev).lib = created s.lib →
      0 ≤ gap e' e ∧ gap e' e ≤ 184320) ∧
    ∀ packet now e', (playPacket o s packet now).endTimestamp = some e' →
      e' = e ∨ 0 ≤ gap packet.timestamp e ∧ e' = packet.timestamp + UInt32.ofInt (o.nbSamples packet.bytes) := by
  have hstart : Timeline created e (frames s.log) (created s.lib) 0 s :=
    .set 0 (le_refl _) ⟨by simpa using he, rfl, hcallback, rfl, rfl⟩
  refine ⟨?_, ?_, fun packet now e' => playPacket_onward he⟩
  · intro calls e' he' hmade
    obtain ⟨k, h⟩ := hstart.run ho calls
    obtain ⟨n, -, hend, hdelivered⟩ := h.at_end he' hmade
    rw [hdelivered, hend]
    refine ⟨Nat.le_add_right _ _, ?_⟩
    rw [Nat.add_sub_cancel_left, UInt32.add_comm, UInt32.add_sub_cancel, UInt32.toNat_ofNat']
  · intro ev e' he' hmade
    obtain ⟨n, hn, hend, -⟩ := (hstart.call ho ev).at_end he' hmade
    rw [hend]
    have hsub : (e + UInt32.ofNat n - e).toNat = n := by
      rw [UInt32.add_comm, UInt32.add_sub_cancel, UInt32.toNat_ofNat']
      omega
    unfold gap
    dsimp only
    rw [hsub, if_pos (by omega)]
    omega

/-- A codec of packets of 20 ms, which counts its decoders. -/
def precise : Opus Nat Unit where
  create := fun made => (made + 1, some (), 0)
  destroy := fun made _ => made
  decode := fun made _ bytes capacity =>
    let frames := if bytes.isSome then 960 else capacity
    (made, frames, List.replicate (frames.toNat * 2) 0)
  nbSamples := fun _ => 960

theorem precise_exact : Exact precise id where
  create _ := rfl
  destroy _ _ := rfl
  decode _ _ _ _ := rfl
  packet _ _ _ _ _ := rfl
  conceal _ _ _ _ _ _ := rfl
  buffer _ _ bytes capacity _ := by
    unfold precise
    simp

/-- Packet `n` with its timestamp. -/
def stamped (n : Nat) (timestamp : Nat) (now : Int) : Call :=
  .receive ([0x80, 111] ++ ByteOrder.be16Bytes n ++ ByteOrder.be32Bytes timestamp ++ [0, 0, 0, 1, 0xf8, 0xff, 0xfe])
    now n

def opened : Impl Nat Unit :=
  run precise (configure precise { callback := true, lib := 0 } 111 true) [stamped 65535 0 0, .tick 20000]

/-- The next packet, and the one behind a packet that is missing. -/
def behindGap : List Call :=
  [stamped 0 960 20001, .tick 40001, stamped 2 2880 70001, .tick 110001]

/-- The missing packet is concealed and counted. -/
theorem timeline_gap : frames (run precise opened behindGap).log - frames opened.log = 2880 ∧
    (frames (run precise opened behindGap).log - frames opened.log) % 2 ^ 32 = (3840 - 960 : UInt32).toNat :=
  ⟨by decide +kernel,
    ((timeline precise_exact opened (by decide +kernel) 960 (by decide +kernel)).1 behindGap 3840
      (by decide +kernel) (by decide +kernel)).2⟩

end KmVirtualCamera.L2.OpusRtp
