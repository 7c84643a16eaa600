import Mathlib
import KmVirtualCamera.Core.LTS
import KmVirtualCamera.L2Machine.OpusRtp

/-!
# What the jitter buffer plays (`OpusRtpDecoder`)

The decoder seen without libopus is a `Queue`: what is pending, what is expected
and what has been decoded. A run is any sequence of `Receive` and `Tick` at
times that do not go back, with the packets of one SSRC; the buffer reads the
distance of a packet to its cursor right (`Belongs`).

Before anything is played the cursor may go back by 16. That is also so after an
overflow, which forgets that packets were played: one of them that comes again
is then played again.

* `plays`: at most 16 packets pending, what is decoded was received 20 to 120 ms
  before, and the numbers strictly increase, as long as no packet takes the
  cursor back to a number already decoded.
* `played_again`: an overflow and then a duplicate: packet 0 is decoded twice.
-/
namespace KmVirtualCamera.L2.OpusRtp
open L1.RtpWire (Bytes RtpPacket parseRtp sequenceDelta)
open scoped KmVirtualCamera.L2.DcVideo

/-! ## Numbers and sequence numbers -/

theorem ofInt_toNat (n : Int) : ((UInt16.ofInt n).toNat : Int) = n % 65536 := by
  have h : (UInt16.ofInt n).toNat = (n % 2 ^ 16).toNat % 2 ^ 16 := UInt16.toNat_ofNat'
  rw [h]
  omega

/-- The distance the code computes, of the numbers that two sequence numbers stand for. -/
theorem sequenceDelta_ofInt (a b : Int) :
    sequenceDelta (UInt16.ofInt a) (UInt16.ofInt b) = (a - b + 32768) % 65536 - 32768 := by
  have ha := ofInt_toNat a
  have hb := ofInt_toNat b
  have hsub : (UInt16.ofInt a - UInt16.ofInt b).toNat =
      (2 ^ 16 - (UInt16.ofInt b).toNat + (UInt16.ofInt a).toNat) % 2 ^ 16 := UInt16.toNat_sub ..
  have hlt := (UInt16.ofInt b).toNat_lt
  unfold sequenceDelta
  rw [hsub]
  split <;> omega

theorem ofInt_inj {a b : Int} (h : UInt16.ofInt a = UInt16.ofInt b) (hl : -65536 < a - b)
    (hu : a - b < 65536) : a = b := by
  have ha := ofInt_toNat a
  have hb := ofInt_toNat b
  rw [h] at ha
  omega

/-! ## Without libopus -/

structure Queue where
  pending : OrdMap UInt16 Pending
  expected : UInt16
  ssrc : Option UInt32
  played : Bool
  cursor : Int
  /-- what was given to the decoder, and when -/
  decoded : List (Pending × Int)

def Event.decoded? : Event → Option (Pending × Int)
  | .payload packet now => some (packet, now)
  | .pcm .. => none

variable {W D : Type} {o : Opus W D}

def queue (s : Impl W D) : Queue where
  pending := s.pending
  expected := s.expected
  ssrc := s.ssrc
  played := s.played
  cursor := s.cursor
  decoded := s.log.filterMap Event.decoded?

theorem queue_recreate (s : Impl W D) : queue (recreate o s).1 = queue s := rfl

theorem queue_startOver (s : Impl W D) : queue (startOver o s) = queue s := rfl

theorem queue_decode (s : Impl W D) (bytes : Option Bytes) (capacity : Int) :
    queue (decode o s bytes capacity).1 = queue s := by
  have hready : queue (if s.decoder.isSome then (s, true) else recreate o s).1 = queue s := by
    split
    · rfl
    · exact queue_recreate s
  unfold decode
  generalize (if s.decoder.isSome then (s, true) else recreate o s) = r at hready
  dsimp only
  split
  · split
    · exact hready
    · rw [← hready]
      unfold queue
      dsimp only
      split
      · rw [List.filterMap_append]
        simp [Event.decoded?]
      · rfl
  · exact hready

theorem queue_conceal (s : Impl W D) (gap : Int) : queue (conceal o s gap) = queue s := by
  unfold conceal
  split
  · split
    · exact queue_decode s _ _
    · exact queue_recreate s
  · rfl

/-- The packet is given to the decoder. -/
def Queue.hear (q : Queue) (packet : Pending) (now : Int) : Queue :=
  { q with decoded := q.decoded ++ [(packet, now)] }

theorem queue_decodePacket (s : Impl W D) (packet : Pending) (now duration : Int) :
    queue (decodePacket o s packet now duration) = (queue s).hear packet now := by
  have hlog : queue { s with log := s.log ++ [.payload packet now] } = (queue s).hear packet now := by
    unfold queue Queue.hear
    dsimp only
    rw [List.filterMap_append]
    rfl
  have hdecode := queue_decode (o := o) { s with log := s.log ++ [.payload packet now] } (some packet.bytes) 5760
  unfold decodePacket
  dsimp only
  split
  · exact hdecode.trans hlog
  · rw [queue_startOver]
    exact hdecode.trans hlog

/-- A packet taken out is given to the decoder at most 120 ms after it arrived, or not at all. -/
theorem queue_playPacket (s : Impl W D) (packet : Pending) (now : Int) :
    queue (playPacket o s packet now) = queue s ∨
      (now - packet.arrival ≤ 120000 ∧ queue (playPacket o s packet now) = (queue s).hear packet now) := by
  unfold playPacket
  split
  · exact .inl (queue_startOver s)
  · rename_i hlate
    dsimp only
    split
    · exact .inl (queue_startOver s)
    · split
      · split
        · exact .inl rfl
        · refine .inr ⟨by omega, ?_⟩
          rw [queue_decodePacket, queue_conceal]
      · exact .inr ⟨by omega, queue_decodePacket s packet now _⟩

/-! ## The packet the loop turns to -/

/-- After the scan of `l` the best is the one it began with or a candidate of
`l`, and none of `l` that is ahead is nearer. -/
theorem foldl_nearer (expected : UInt16) : ∀ (l : List (UInt16 × Pending)) (best : Int × Option (UInt16 × Pending)),
    (l.foldl (nearer expected) best = best ∨
      ∃ e ∈ l, l.foldl (nearer expected) best = (sequenceDelta e.1 expected, some e) ∧
        0 ≤ sequenceDelta e.1 expected) ∧
    (l.foldl (nearer expected) best).1 ≤ best.1 ∧
    ∀ e ∈ l, 0 ≤ sequenceDelta e.1 expected → (l.foldl (nearer expected) best).1 ≤ sequenceDelta e.1 expected
  | [], best => ⟨.inl rfl, le_refl _, nofun⟩
  | a :: l, best => by
    obtain ⟨hform, hle, hall⟩ := foldl_nearer expected l (nearer expected best a)
    rw [List.foldl_cons]
    by_cases ha : 0 ≤ sequenceDelta a.1 expected ∧ sequenceDelta a.1 expected < best.1
    · have hnear : nearer expected best a = (sequenceDelta a.1 expected, some a) := if_pos ha
      rw [hnear] at hform hle hall ⊢
      refine ⟨.inr ?_, hle.trans (le_of_lt ha.2), ?_⟩
      · rcases hform with heq | ⟨e, he, heq⟩
        · exact ⟨a, List.mem_cons_self .., heq, ha.1⟩
        · exact ⟨e, List.mem_cons_of_mem _ he, heq⟩
      · intro e he hpos
        rcases List.mem_cons.mp he with rfl | he
        · exact hle
        · exact hall e he hpos
    · have hnear : nearer expected best a = best := if_neg ha
      rw [hnear] at hform hle hall ⊢
      refine ⟨?_, hle, ?_⟩
      · rcases hform with heq | ⟨e, he, heq⟩
        · exact .inl heq
        · exact .inr ⟨e, List.mem_cons_of_mem _ he, heq⟩
      · intro e he hpos
        rcases List.mem_cons.mp he with rfl | he
        · exact hle.trans (not_lt.mp fun hlt => ha ⟨hpos, hlt⟩)
        · exact hall e he hpos

theorem nearest_some {s : Impl W D} {e : UInt16 × Pending} (h : nearest s = some e) :
    e ∈ s.pending.toList ∧ 0 ≤ sequenceDelta e.1 s.expected ∧
      ∀ x ∈ s.pending.toList, 0 ≤ sequenceDelta x.1 s.expected →
        sequenceDelta e.1 s.expected ≤ sequenceDelta x.1 s.expected := by
  obtain ⟨hform, -, hall⟩ := foldl_nearer s.expected s.pending.toList (32768, none)
  unfold nearest at h
  rcases hform with heq | ⟨a, ha, heq, hpos⟩
  · rw [heq] at h
    cases h
  · rw [heq] at h hall
    obtain rfl := Option.some.inj h
    exact ⟨ha, hpos, hall⟩

/-! ## The invariant -/

inductive Call where
  | receive (bytes : Bytes) (now number : Int)
  | tick (now : Int)

def Call.now : Call → Int
  | .receive _ now _ => now
  | .tick now => now

/-- The packet came in one of the calls, at the time it says. -/
def Received (calls : List Call) (p : Pending) : Prop :=
  ∃ bytes packet, .receive bytes p.arrival p.number ∈ calls ∧ parseRtp bytes = some packet ∧
    p.bytes = packet.payload ∧ p.timestamp = packet.timestamp

/-- What the claims of the buffer are: a packet has a number of its own, so none
is decoded twice where the numbers increase. -/
structure Plays (calls : List Call) (q : Queue) : Prop where
  few : q.pending.size ≤ 16
  increasing : q.decoded.Pairwise fun x y => x.1.number < y.1.number
  timely : ∀ x ∈ q.decoded, 20000 ≤ x.2 - x.1.arrival ∧ x.2 - x.1.arrival ≤ 120000
  received : ∀ x ∈ q.decoded, Received calls x.1 ∧ ∃ c ∈ calls, c.now = x.2

/-- How far ahead of the cursor a packet may be: one is taken in up to 2^15
ahead, and before anything is played the cursor may go back 16 for each. -/
def slackOf (played : Bool) (size : Nat) : Int := if played then 256 else 16 * size

def Queue.slack (q : Queue) : Int := slackOf q.played q.pending.size

theorem slackOf_le {played : Bool} {n : Nat} (h : n ≤ 16) : 0 ≤ slackOf played n ∧ slackOf played n ≤ 256 := by
  cases played
  · change 0 ≤ (16 * n : Int) ∧ (16 * n : Int) ≤ 256
    omega
  · change (0 : Int) ≤ 256 ∧ (256 : Int) ≤ 256
    omega

theorem slackOf_succ {played : Bool} {n : Nat} : slackOf played n ≤ slackOf played (n + 1) := by
  cases played
  · change (16 * n : Int) ≤ 16 * (n + 1 : Nat)
    omega
  · exact le_refl _

theorem slackOf_false {n : Nat} : slackOf false n + 16 = slackOf false (n + 1) := by
  change (16 * n : Int) + 16 = 16 * (n + 1 : Nat)
  omega

structure Inv (calls : List Call) (slack : Int) (q : Queue) : Prop extends Plays calls q where
  expected : q.expected = UInt16.ofInt q.cursor
  keys : ∀ e ∈ q.pending.toList, e.1 = UInt16.ofInt e.2.number ∧ Received calls e.2
  window : ∀ e ∈ q.pending.toList, q.cursor ≤ e.2.number ∧ e.2.number < q.cursor + 32768 + slack
  behind : ∀ x ∈ q.decoded, x.1.number < q.cursor

theorem Queue.slack_le {q : Queue} (h : q.pending.size ≤ 16) : q.slack ≤ 256 := (slackOf_le h).2

theorem Received.mono {calls calls' : List Call} {p : Pending} (h : Received calls p)
    (hsub : ∀ c ∈ calls, c ∈ calls') : Received calls' p := by
  obtain ⟨bytes, packet, hmem, hrest⟩ := h
  exact ⟨bytes, packet, hsub _ hmem, hrest⟩

theorem Plays.mono {calls calls' : List Call} {q : Queue} (h : Plays calls q)
    (hsub : ∀ c ∈ calls, c ∈ calls') : Plays calls' q where
  few := h.few
  increasing := h.increasing
  timely := h.timely
  received x hx := by
    obtain ⟨hrec, c, hc, hnow⟩ := h.received x hx
    exact ⟨hrec.mono hsub, c, hsub c hc, hnow⟩

theorem Inv.mono {calls calls' : List Call} {slack slack' : Int} {q : Queue} (h : Inv calls slack q)
    (hsub : ∀ c ∈ calls, c ∈ calls') (hle : slack ≤ slack') : Inv calls' slack' q where
  toPlays := h.toPlays.mono hsub
  expected := h.expected
  keys e he := ⟨(h.keys e he).1, (h.keys e he).2.mono hsub⟩
  window e he := by
    have hw := h.window e he
    omega
  behind := h.behind

/-- The distance the code reads for a pending packet, where it reads one ahead. -/
theorem Inv.distance {calls : List Call} {slack : Int} {q : Queue} (h : Inv calls slack q) (hs : slack ≤ 256)
    {e : UInt16 × Pending} (he : e ∈ q.pending.toList) :
    sequenceDelta e.1 q.expected = e.2.number - q.cursor ∨
      (sequenceDelta e.1 q.expected < 0 ∧ 32768 ≤ e.2.number - q.cursor) := by
  have hw := h.window e he
  rw [(h.keys e he).1, h.expected, sequenceDelta_ofInt]
  omega

/-- The packet the loop turns to is the first of those pending, and the one expected then. -/
theorem locate_some {calls : List Call} {slack : Int} {s s' : Impl W D} {now : Int} {p : Pending}
    (h : Inv calls slack (queue s)) (hs : slack ≤ 256) (hl : locate s now = some (s', p)) :
    (UInt16.ofInt p.number, p) ∈ s.pending.toList ∧ (∀ e ∈ s.pending.toList, p.number ≤ e.2.number) ∧
      queue s' = { queue s with expected := UInt16.ofInt p.number, cursor := p.number } := by
  unfold locate at hl
  split at hl
  · rename_i packet hfind
    obtain ⟨rfl, rfl⟩ := Prod.mk.inj (Option.some.inj hl)
    have hmem := OrdMap.find?_eq_some.mp hfind
    have hw := h.window _ hmem
    have hcursor : packet.number = s.cursor :=
      ofInt_inj ((h.keys _ hmem).1.symm.trans h.expected) (by dsimp only [queue] at hw; omega)
        (by dsimp only [queue] at hw; omega)
    have hexp : s.expected = UInt16.ofInt packet.number := (h.keys _ hmem).1
    refine ⟨hexp ▸ hmem, ?_, ?_⟩
    · intro e he
      rw [hcursor]
      exact (h.window e he).1
    · rw [← hexp, hcursor]
      rfl
  · split at hl
    · cases hl
    · rename_i key packet hnear
      split at hl
      · cases hl
      · obtain ⟨rfl, rfl⟩ := Prod.mk.inj (Option.some.inj hl)
        obtain ⟨hmem, hpos, hall⟩ := nearest_some hnear
        have hkey : key = UInt16.ofInt packet.number := (h.keys _ hmem).1
        have hdist : sequenceDelta key s.expected = packet.number - s.cursor := by
          rcases h.distance hs hmem with hd | ⟨hneg, -⟩
          · exact hd
          · exact absurd hpos (not_le.mpr hneg)
        refine ⟨hkey ▸ hmem, ?_, ?_⟩
        · intro e he
          rcases h.distance hs he with hd | ⟨hneg, hfar⟩
          · have hw := (h.window e he).1
            have hle := hall e he (by
              change 0 ≤ sequenceDelta e.1 (queue s).expected
              omega)
            change sequenceDelta e.1 s.expected = e.2.number - s.cursor at hd
            dsimp only at hle
            omega
          · have hlt : sequenceDelta key s.expected < 32768 := by
              have hbound := (key - s.expected).toNat_lt
              unfold sequenceDelta
              split <;> omega
            change 32768 ≤ e.2.number - s.cursor at hfar
            omega
        · rw [← hkey]
          rfl

/-- What the loop turns to without moving the cursor may still have to wait. -/
theorem locate_moves {s s' : Impl W D} {now : Int} {p : Pending} (h : locate s now = some (s', p)) :
    s' = s ∨ 40000 ≤ now - p.arrival := by
  unfold locate at h
  split at h
  · exact .inl (Prod.mk.inj (Option.some.inj h)).1.symm
  · split at h
    · cases h
    · split at h
      · cases h
      · rename_i hwait
        rw [← (Prod.mk.inj (Option.some.inj h)).2]
        exact .inr (not_lt.mp hwait)

/-- The first packet is taken out. -/
def Queue.play (q : Queue) (p : Pending) : Queue :=
  { q with
    pending := q.pending.erase (UInt16.ofInt p.number)
    expected := UInt16.ofInt (p.number + 1)
    played := true
    cursor := p.number + 1 }

theorem queue_takeOut {s : Impl W D} {q : Queue} {p : Pending}
    (h : queue s = { q with expected := UInt16.ofInt p.number, cursor := p.number }) :
    queue (takeOut s) = q.play p := by
  obtain ⟨hpending, hexpected, hssrc, hplayed, hcursor, hdecoded⟩ := Queue.mk.inj h
  unfold queue takeOut Queue.play
  dsimp only
  rw [hpending, hexpected, hssrc, hcursor, hdecoded, UInt16.ofInt_add]
  rfl

theorem Inv.play {calls : List Call} {slack : Int} {q : Queue} {p : Pending} (h : Inv calls slack q)
    (hs : slack ≤ 256) (hp : (UInt16.ofInt p.number, p) ∈ q.pending.toList)
    (hfirst : ∀ e ∈ q.pending.toList, p.number ≤ e.2.number) : Inv calls 256 (q.play p) := by
  have hw := (h.window _ hp).1
  refine ⟨⟨(le_of_lt (OrdMap.size_erase_lt hp)).trans h.few, h.increasing, h.timely, h.received⟩, rfl,
    fun e he => h.keys e (OrdMap.mem_erase.mp he).1, ?_, ?_⟩
  · intro e he
    obtain ⟨hmem, hne⟩ := OrdMap.mem_erase.mp he
    have hwe := h.window e hmem
    have hle := hfirst e hmem
    have hnum : e.2.number ≠ p.number := fun heq => hne (by rw [(h.keys e hmem).1, heq])
    dsimp only [Queue.play] at hw ⊢
    omega
  · intro x hx
    have hx' := h.behind x hx
    dsimp only [Queue.play] at hw ⊢
    omega

/-- The packet that was taken out is given to the decoder. -/
theorem Inv.hear {calls : List Call} {slack : Int} {q : Queue} {p : Pending} {now : Int} (h : Inv calls slack q)
    (hs : slack ≤ 256) (hp : (UInt16.ofInt p.number, p) ∈ q.pending.toList)
    (hfirst : ∀ e ∈ q.pending.toList, p.number ≤ e.2.number)
    (hdue : 20000 ≤ now - p.arrival ∧ now - p.arrival ≤ 120000) (hnow : ∃ c ∈ calls, c.now = now) :
    Inv calls 256 ((q.play p).hear p now) := by
  have hplay := h.play hs hp hfirst
  have hw := (h.window _ hp).1
  have hsnoc : ∀ {P : Pending × Int → Prop}, (∀ x ∈ q.decoded, P x) → P (p, now) →
      ∀ x ∈ q.decoded ++ [(p, now)], P x := fun hall hlast x hx => by
    rcases List.mem_append.mp hx with hx | hx
    · exact hall x hx
    · rw [List.mem_singleton.mp hx]
      exact hlast
  refine ⟨⟨hplay.few, ?_, hsnoc hplay.timely hdue, hsnoc hplay.received ⟨(h.keys _ hp).2, hnow⟩⟩,
    hplay.expected, hplay.keys, hplay.window, hsnoc hplay.behind ?_⟩
  · refine List.pairwise_append.mpr ⟨h.increasing, List.pairwise_singleton .., ?_⟩
    intro x hx y hy
    rw [List.mem_singleton.mp hy]
    have hx' := h.behind x hx
    dsimp only at hw ⊢
    omega
  · dsimp only [Queue.hear, Queue.play]
    omega

/-- One turn of the loop of `Tick`. -/
theorem Inv.turn {calls : List Call} {slack : Int} {s s' : Impl W D} {now : Int} {p : Pending}
    (h : Inv calls slack (queue s)) (hs : slack ≤ 256) (hl : locate s now = some (s', p))
    (hdue : ¬ now - p.arrival < 20000)
    (hnow : ∃ c ∈ calls, c.now = now) : Inv calls 256 (queue (playPacket o (takeOut s') p now)) ∧
      (queue (playPacket o (takeOut s') p now)).played = true := by
  obtain ⟨hp, hfirst, hs'⟩ := locate_some h hs hl
  have htake := queue_takeOut hs'
  rcases queue_playPacket (o := o) (takeOut s') p now with heq | ⟨hlate, heq⟩
  · rw [heq, htake]
    exact ⟨h.play hs hp hfirst, rfl⟩
  · rw [heq, htake]
    exact ⟨h.hear hs hp hfirst ⟨not_lt.mp hdue, hlate⟩ hnow, rfl⟩

theorem inv_tickLoop {calls : List Call} {now : Int} (hnow : ∃ c ∈ calls, c.now = now) : ∀ (budget : Nat)
    {s : Impl W D}, Inv calls (queue s).slack (queue s) →
    Inv calls (queue (tickLoop o s now budget)).slack (queue (tickLoop o s now budget))
  | 0, _, h => h
  | budget + 1, s, h => by
    unfold tickLoop
    split
    · exact h
    · split
      · exact h
      · rename_i s' p hl
        split
        · rename_i hearly
          rcases locate_moves hl with rfl | hmoved
          · exact h
          · omega
        · rename_i hdue
          obtain ⟨hturn, hplayed⟩ := h.turn (o := o) (Queue.slack_le h.few) hl hdue hnow
          refine inv_tickLoop hnow budget ?_
          rw [Queue.slack, hplayed]
          exact hturn

/-! ## A packet comes in -/

/-- The packet is of the stream, has the low bits of its number as sequence
number, and is within 2^15 of what is expected. -/
structure Belongs (ssrc : UInt32) (s : Impl W D) (packet : RtpPacket) (number : Int) : Prop where
  ssrc : packet.ssrc = ssrc
  sequence : packet.sequence = UInt16.ofInt number
  near : s.ssrc.isSome → -32768 ≤ number - s.cursor ∧ number - s.cursor < 32768

/-- A packet that takes the cursor back takes it to a number that is past all
that were decoded. -/
def Onward (s : Impl W D) : Call → Prop
  | .receive bytes now number => ∀ packet, opusPacket s bytes now = some packet → s.ssrc.isSome →
      s.played = false → sequenceDelta packet.sequence s.expected < 0 →
      -16 ≤ sequenceDelta packet.sequence s.expected → ∀ x ∈ (queue s).decoded, x.1.number < number
  | .tick _ => True

/-- The invariant between calls. -/
structure Good (ssrc : UInt32) (calls : List Call) (s : Impl W D) : Prop where
  inv : Inv calls (queue s).slack (queue s)
  stream : ∀ x, s.ssrc = some x → x = ssrc
  idle : s.ssrc = none → s.pending.toList = [] ∧ s.played = false ∧ (queue s).decoded = []

/-- `s` after it was made to follow the stream of the packet. -/
structure Followed (ssrc : UInt32) (calls : List Call) (number : Int) (s s' : Impl W D) : Prop where
  good : Good ssrc calls s'
  stream : s'.ssrc = some ssrc
  near : -32768 ≤ number - s'.cursor ∧ number - s'.cursor < 32768
  kept : s' = s ∨ (s.ssrc = none ∧ s'.cursor = number)

/-- The stream of the first packet is the one followed; no later packet changes it. -/
theorem Good.follow {ssrc : UInt32} {calls : List Call} {s : Impl W D} {packet : RtpPacket} {number : Int}
    (h : Good ssrc calls s) (hb : Belongs ssrc s packet number) :
    Followed ssrc calls number s (follow o s packet number) := by
  cases hssrc : s.ssrc with
  | none =>
    obtain ⟨hpend, hplayed, hdec⟩ := h.idle hssrc
    have hfollow : OpusRtp.follow o s packet number =
        { s with ssrc := some packet.ssrc, expected := packet.sequence, cursor := number } := by
      simp [OpusRtp.follow, hssrc]
    rw [hfollow]
    refine ⟨⟨⟨⟨h.inv.few, h.inv.increasing, h.inv.timely, h.inv.received⟩, hb.sequence, h.inv.keys,
      ?_, ?_⟩, ?_, nofun⟩, by rw [hb.ssrc],
      ⟨by dsimp only; omega, by dsimp only; omega⟩, .inr ⟨hssrc, rfl⟩⟩
    · intro e he
      dsimp only [queue] at he
      rw [hpend] at he
      cases he
    · intro x hx
      change x ∈ (queue s).decoded at hx
      rw [hdec] at hx
      cases hx
    · intro x hx
      cases hx
      exact hb.ssrc
  | some x =>
    have hx : x = packet.ssrc := (h.stream x hssrc).trans hb.ssrc.symm
    have hfollow : OpusRtp.follow o s packet number = s := by
      simp [OpusRtp.follow, hx, hssrc]
    rw [hfollow]
    exact ⟨h, by rw [hssrc, h.stream x hssrc], hb.near (by rw [hssrc]; rfl), .inl rfl⟩

/-- `s` once the packet is let in: the cursor is not past it, and is `back`
behind where it may have been. -/
structure Admitted (ssrc : UInt32) (calls : List Call) (number back : Int) (s : Impl W D) : Prop where
  inv : Inv calls ((queue s).slack + back) (queue s)
  stream : s.ssrc = some ssrc
  ahead : s.cursor ≤ number ∧ number < s.cursor + 32768
  back : back = 0 ∨ (back = 16 ∧ s.played = false ∧ s.cursor = number ∧
    ∀ e ∈ s.pending.toList, number < e.2.number)

theorem Followed.accept {ssrc : UInt32} {calls : List Call} {s₀ s s' : Impl W D} {packet : RtpPacket}
    {number : Int} (h : Followed ssrc calls number s₀ s) (hseq : packet.sequence = UInt16.ofInt number)
    (hon : s = s₀ → s.played = false → sequenceDelta packet.sequence s.expected < 0 →
      -16 ≤ sequenceDelta packet.sequence s.expected → ∀ x ∈ (queue s).decoded, x.1.number < number)
    (ha : accept s packet number = some s') : ∃ back, Admitted ssrc calls number back s' := by
  have hnear := h.near
  have hdelta : sequenceDelta packet.sequence s.expected = number - s.cursor := by
    have hexp : s.expected = UInt16.ofInt s.cursor := h.good.inv.expected
    rw [hseq, hexp, sequenceDelta_ofInt]
    omega
  unfold OpusRtp.accept at ha
  rw [hdelta] at ha hon
  dsimp only at ha
  split at ha
  · rename_i hneg
    split at ha
    · cases ha
    · rename_i hlate
      obtain rfl := Option.some.inj ha
      obtain ⟨hplayed, hback⟩ := not_or.mp hlate
      have hplayed : s.played = false := Bool.eq_false_iff.mpr hplayed
      have hsame : s = s₀ := by
        rcases h.kept with heq | ⟨-, heq⟩
        · exact heq
        · omega
      have hinv := h.good.inv
      refine ⟨16, ⟨⟨hinv.few, hinv.increasing, hinv.timely, hinv.received⟩, hseq, hinv.keys, ?_,
        hon hsame hplayed hneg (by omega)⟩, h.stream, ⟨le_refl _, by dsimp only; omega⟩,
        .inr ⟨rfl, hplayed, rfl, ?_⟩⟩
      · intro e he
        have hw := hinv.window e he
        dsimp only [queue] at hw ⊢
        have hslack : (queue { s with expected := packet.sequence, cursor := number }).slack = (queue s).slack := rfl
        dsimp only [queue] at hslack
        omega
      · intro e he
        have hw := (hinv.window e he).1
        dsimp only [queue] at hw
        omega
  · rename_i hpos
    obtain rfl := Option.some.inj ha
    refine ⟨0, ?_, h.stream, ⟨by omega, by omega⟩, .inl rfl⟩
    rw [add_zero]
    exact h.good.inv

/-- A packet that is there already is not let in by going back. -/
theorem Admitted.contained {ssrc : UInt32} {calls : List Call} {number back : Int} {s : Impl W D}
    (h : Admitted ssrc calls number back s) (hin : (s.pending.find? (UInt16.ofInt number)).isSome) :
    Good ssrc calls s := by
  have hinv : Inv calls (queue s).slack (queue s) := by
    rcases h.back with rfl | ⟨rfl, -, hcursor, hpast⟩
    · exact (add_zero (queue s).slack) ▸ h.inv
    · obtain ⟨p, hp⟩ := Option.isSome_iff_exists.mp hin
      have hmem := OrdMap.find?_eq_some.mp hp
      have hw := (h.inv.window _ hmem).2
      have hlt := hpast _ hmem
      have hslack := Queue.slack_le h.inv.few
      have heq : number = p.number := ofInt_inj (h.inv.keys _ hmem).1 (by dsimp only [queue] at hw hslack hlt; omega)
        (by dsimp only at hlt; omega)
      dsimp only at hlt
      omega
  exact ⟨hinv, fun x hx => Option.some.inj (hx.symm.trans h.stream), fun hn => by rw [h.stream] at hn; cases hn⟩

/-- A packet at most 2^15 ahead joins those pending. -/
theorem Inv.insert {calls : List Call} {q : Queue} {back : Int} {p : Pending} (h : Inv calls (q.slack + back) q)
    (hroom : q.pending.size < 16) (hnew : q.pending.find? (UInt16.ofInt p.number) = none)
    (hrec : Received calls p) (hahead : q.cursor ≤ p.number ∧ p.number < q.cursor + 32768)
    (hback : back = 0 ∨ (back = 16 ∧ q.played = false)) :
    Inv calls (slackOf q.played (q.pending.size + 1))
      { q with pending := q.pending.insert (UInt16.ofInt p.number) p } ∧
      (q.pending.insert (UInt16.ofInt p.number) p).size = q.pending.size + 1 := by
  have hsize : (q.pending.insert (UInt16.ofInt p.number) p).size = q.pending.size + 1 := by
    rw [OrdMap.size_insert, OrdMap.erase_of_find?_none hnew]
  have hslack : q.slack + back ≤ slackOf q.played (q.pending.size + 1) := by
    rcases hback with rfl | ⟨rfl, hplayed⟩
    · rw [add_zero]
      exact slackOf_succ
    · rw [Queue.slack, hplayed, slackOf_false]
  have hnonneg : 0 ≤ slackOf q.played (q.pending.size + 1) := (slackOf_le (by omega)).1
  refine ⟨⟨⟨?_, h.increasing, h.timely, h.received⟩, h.expected, ?_, ?_, h.behind⟩, hsize⟩
  · dsimp only
    omega
  · intro e he
    rcases OrdMap.mem_insert.mp he with rfl | ⟨he, -⟩
    · exact ⟨rfl, hrec⟩
    · exact h.keys e he
  · intro e he
    rcases OrdMap.mem_insert.mp he with rfl | ⟨he, -⟩
    · dsimp only
      omega
    · have hw := h.window e he
      dsimp only
      omega

/-- What an overflow leaves before the packet joins. -/
def Queue.overflow (q : Queue) (number : Int) : Queue :=
  { q with pending := .empty, expected := UInt16.ofInt number, played := false, cursor := number }

theorem Inv.overflow {calls : List Call} {slack number : Int} {q : Queue} (h : Inv calls slack q)
    (hnumber : q.cursor ≤ number) : Inv calls ((q.overflow number).slack + 0) (q.overflow number) := by
  refine ⟨⟨Nat.zero_le 16, h.increasing, h.timely, h.received⟩, rfl, nofun, nofun, ?_⟩
  intro x hx
  exact lt_of_lt_of_le (h.behind x hx) hnumber

/-- The packet is kept, with those pending or, where there are 16, instead of them. -/
theorem Admitted.keep {ssrc : UInt32} {calls : List Call} {number back now : Int} {s s' : Impl W D}
    {packet : RtpPacket} (h : Admitted ssrc calls number back s) (hssrc : packet.ssrc = ssrc)
    (hseq : packet.sequence = UInt16.ofInt number)
    (hrec : Received calls ⟨packet.payload, packet.timestamp, now, number⟩)
    (hk : keep o s packet now number = some s') : Good ssrc calls s' := by
  have hinv := h.inv
  unfold OpusRtp.keep at hk
  rw [hseq] at hk
  split at hk
  · cases hk
  · rename_i hnew
    have hnone : s.pending.find? (UInt16.ofInt number) = none := by simpa using hnew
    obtain rfl := Option.some.inj hk
    by_cases hfull : s.pending.size ≥ 16
    · rw [if_pos hfull]
      have hins := ((hinv.overflow h.ahead.1).insert (p := ⟨packet.payload, packet.timestamp, now, number⟩)
        (show (0 : Nat) < 16 by omega) rfl hrec ⟨le_refl number, by change number < number + 32768; omega⟩ (.inl rfl)).1
      exact ⟨⟨⟨hins.few, hins.increasing, hins.timely, hins.received⟩, hins.expected, hins.keys, hins.window,
        hins.behind⟩, fun x hx => (Option.some.inj hx).symm.trans hssrc, nofun⟩
    · rw [if_neg hfull]
      obtain ⟨hins, hsize⟩ := hinv.insert (p := ⟨packet.payload, packet.timestamp, now, number⟩)
        (not_le.mp hfull) hnone hrec h.ahead (h.back.imp_right fun hb => ⟨hb.1, hb.2.1⟩)
      rw [← hsize] at hins
      exact ⟨hins, fun x hx => Option.some.inj (hx.symm.trans h.stream), fun hn => by rw [h.stream] at hn; cases hn⟩

theorem Good.mono {ssrc : UInt32} {calls calls' : List Call} {s : Impl W D} (h : Good ssrc calls s)
    (hsub : ∀ c ∈ calls, c ∈ calls') : Good ssrc calls' s where
  inv := h.inv.mono hsub (le_refl _)
  stream := h.stream
  idle := h.idle

theorem keep_none {s : Impl W D} {packet : RtpPacket} {now number : Int} (h : keep o s packet now number = none) :
    (s.pending.find? packet.sequence).isSome := by
  unfold OpusRtp.keep at h
  split at h
  · assumption
  · cases h

theorem locate_ssrc {s s' : Impl W D} {now : Int} {p : Pending} (h : locate s now = some (s', p)) :
    s'.ssrc = s.ssrc := by
  unfold locate at h
  split at h
  · rw [(Prod.mk.inj (Option.some.inj h)).1]
  · split at h
    · cases h
    · split at h
      · cases h
      · rw [← (Prod.mk.inj (Option.some.inj h)).1]

theorem ssrc_tickLoop (now : Int) : ∀ (budget : Nat) (s : Impl W D), (tickLoop o s now budget).ssrc = s.ssrc
  | 0, _ => rfl
  | budget + 1, s => by
    unfold tickLoop
    split
    · rfl
    · split
      · rfl
      · rename_i s' p hl
        split
        · exact locate_ssrc hl
        · have hplay : (queue (playPacket o (takeOut s') p now)).ssrc = s'.ssrc := by
            rcases queue_playPacket (o := o) (takeOut s') p now with heq | ⟨-, heq⟩
            · rw [heq]
              rfl
            · rw [heq]
              rfl
          exact (ssrc_tickLoop now budget _).trans (hplay.trans (locate_ssrc hl))

theorem Good.tick {ssrc : UInt32} {calls : List Call} {s : Impl W D} {now : Int} (h : Good ssrc calls s)
    (hnow : ∃ c ∈ calls, c.now = now) : Good ssrc calls (tick o s now) := by
  have hssrc : (OpusRtp.tick o s now).ssrc = s.ssrc := ssrc_tickLoop now 16 s
  refine ⟨inv_tickLoop hnow 16 h.inv, fun x hx => h.stream x (hssrc.symm.trans hx), ?_⟩
  intro hn
  have hnone := hssrc.symm.trans hn
  have hsize : s.pending.size = 0 := OrdMap.size_empty_iff.mpr (h.idle hnone).1
  have hstay : OpusRtp.tick o s now = s := by
    unfold OpusRtp.tick tickLoop
    rw [if_pos hsize]
  rw [hstay]
  exact h.idle hnone

/-! ## Runs -/

structure World (W D : Type) where
  impl : Impl W D
  clock : Int

def call (o : Opus W D) (s : Impl W D) : Call → Impl W D
  | .receive bytes now number => receive o s bytes now number
  | .tick now => tick o s now

/-- What the run brings: packets of one stream. -/
def Brings (ssrc : UInt32) (s : Impl W D) : Call → Prop
  | .receive bytes _ number => ∀ packet, parseRtp bytes = some packet → Belongs ssrc s packet number
  | .tick _ => True

/-- The runs of a decoder that was configured and is called with the packets of
one stream at times that do not go back. -/
def decoder (o : Opus W D) (ssrc : UInt32) : LTS (World W D) Call where
  init w := ∃ (lib : W) (payloadType : UInt8) (callback : Bool),
    w.impl = configure o { callback := callback, lib := lib } payloadType callback
  step w c w' := w.clock ≤ c.now ∧ Brings ssrc w.impl c ∧ w' = ⟨call o w.impl c, c.now⟩

instance {ssrc : UInt32} {s : Impl W D} {packet : RtpPacket} {number : Int} :
    Decidable (Belongs ssrc s packet number) :=
  decidable_of_iff (packet.ssrc = ssrc ∧ packet.sequence = UInt16.ofInt number ∧
      (s.ssrc.isSome → -32768 ≤ number - s.cursor ∧ number - s.cursor < 32768))
    ⟨fun h => ⟨h.1, h.2.1, h.2.2⟩, fun h => ⟨h.ssrc, h.sequence, h.near⟩⟩

instance {ssrc : UInt32} {s : Impl W D} : ∀ c, Decidable (Brings ssrc s c)
  | .receive bytes _ number => inferInstanceAs (Decidable (∀ packet ∈ parseRtp bytes, Belongs ssrc s packet number))
  | .tick _ => inferInstanceAs (Decidable True)

instance {s : Impl W D} : ∀ c, Decidable (Onward s c)
  | .receive bytes now number =>
    inferInstanceAs (Decidable (∀ packet ∈ opusPacket s bytes now, s.ssrc.isSome → s.played = false →
      sequenceDelta packet.sequence s.expected < 0 → -16 ≤ sequenceDelta packet.sequence s.expected →
      ∀ x ∈ (queue s).decoded, x.1.number < number))
  | .tick _ => inferInstanceAs (Decidable True)

/-- The next state of a run, if the call can be one of it. -/
def next (o : Opus W D) (ssrc : UInt32) (w : World W D) (c : Call) : Option (World W D) :=
  if w.clock ≤ c.now ∧ Brings ssrc w.impl c then some ⟨call o w.impl c, c.now⟩ else none

theorem next_step {ssrc : UInt32} (w : World W D) (c : Call) (w' : World W D) (h : next o ssrc w c = some w') :
    (decoder o ssrc).step w c w' := by
  unfold next at h
  split at h
  · rename_i hc
    exact ⟨hc.1, hc.2, (Option.some.inj h).symm⟩
  · cases h

theorem good_configure (ssrc : UInt32) (lib : W) (payloadType : UInt8) (callback : Bool) :
    Good ssrc [] (configure o { callback := callback, lib := lib } payloadType callback) := by
  refine ⟨⟨⟨Nat.zero_le 16, List.Pairwise.nil, nofun, nofun⟩, rfl, nofun, nofun, nofun⟩, nofun,
    fun _ => ⟨rfl, rfl, rfl⟩⟩

theorem Good.receive {ssrc : UInt32} {calls : List Call} {s : Impl W D} {bytes : Bytes} {now number : Int}
    (h : Good ssrc calls s) (hb : Brings ssrc s (.receive bytes now number))
    (hon : Onward s (.receive bytes now number)) :
    Good ssrc (calls ++ [.receive bytes now number]) (receive o s bytes now number) := by
  have h' : Good ssrc (calls ++ [.receive bytes now number]) s := h.mono fun c hc => List.mem_append_left _ hc
  have hlast : Call.receive bytes now number ∈ calls ++ [.receive bytes now number] :=
    List.mem_append_right _ (List.mem_singleton_self _)
  unfold OpusRtp.receive
  split
  · exact h'
  · rename_i packet hopus
    have hparse : parseRtp bytes = some packet := (Option.filter_eq_some_iff.mp hopus).1
    have hbelongs := hb packet hparse
    have hfollow := h'.follow (o := o) hbelongs
    have hrec : Received (calls ++ [.receive bytes now number]) ⟨packet.payload, packet.timestamp, now, number⟩ :=
      ⟨bytes, packet, hlast, hparse, rfl, rfl⟩
    unfold receivePacket
    split
    · exact hfollow.good
    · rename_i s' ha
      obtain ⟨back, haccept⟩ := hfollow.accept hbelongs.sequence (fun hsame hplayed hneg hback => by
        have hsome : s.ssrc.isSome := by
          rw [← hsame, hfollow.stream]
          rfl
        rw [hsame] at hplayed hneg hback ⊢
        exact hon packet hopus hsome hplayed hneg hback) ha
      split
      · rename_i hk
        have hin := keep_none hk
        rw [hbelongs.sequence] at hin
        exact haccept.contained hin
      · rename_i s'' hk
        exact (haccept.keep hbelongs.ssrc hbelongs.sequence hrec hk).tick ⟨_, hlast, rfl⟩

theorem good_historical (ssrc : UInt32) :
    ((decoder o ssrc).guarded fun w c => Onward w.impl c).Historical fun calls w => Good ssrc calls w.impl where
  init w hw := by
    obtain ⟨lib, payloadType, callback, heq⟩ := hw
    rw [heq]
    exact good_configure ssrc lib payloadType callback
  step calls w c w' h hs := by
    obtain ⟨⟨-, hb, rfl⟩, hon⟩ := hs
    cases c with
    | receive bytes now number => exact h.receive hb hon
    | tick now =>
      exact (h.mono fun c hc => List.mem_append_left _ hc).tick
        ⟨.tick now, List.mem_append_right _ (List.mem_singleton_self _), rfl⟩

/-- **Once and in order.** In a run in which no packet takes the cursor back to
a number already decoded, at most 16 packets are pending, what is decoded was
received 20 to 120 ms before, and its numbers strictly increase. -/
theorem plays {ssrc : UInt32} {w₀ w : World W D} {calls : List Call} (h0 : (decoder o ssrc).init w₀)
    (hr : ((decoder o ssrc).guarded fun w c => Onward w.impl c).Run w₀ calls w) : Plays calls (queue w.impl) :=
  ((good_historical ssrc).reachable h0 hr).inv.toPlays

/-! ## A duplicate after an overflow -/

/-- A codec that decodes whatever it is given to 960 frames. -/
def constant : Opus Unit Unit where
  create := fun _ => ((), some (), 0)
  destroy := fun _ _ => ()
  decode := fun _ _ _ _ => ((), 960, List.replicate 1920 0)
  nbSamples := fun _ => 960

/-- The datagram of packet `n`: 20 ms of the stream with SSRC 1. -/
def datagram (n : Nat) : Bytes :=
  [0x80, 111, 0, UInt8.ofNat n] ++ ByteOrder.be32Bytes (960 * n) ++ [0, 0, 0, 1, 0xf8, 0xff, 0xfe]

def arrives (n : Nat) (now : Int) : Call := .receive (datagram n) now n

def configured : World Unit Unit := ⟨configure constant { callback := true, lib := () } 111 true, 0⟩

/-- Packet 1 comes before 0. Both are played; 3 to 18 wait for 2 until the overflow by
20, which 19 comes after. -/
def turned : List Call :=
  [arrives 1 0, arrives 0 5000, .tick 25000, .tick 45000] ++ (List.range 16).map (fun i => arrives (i + 3) 45000) ++
    [arrives 20 45000, arrives 19 50000, .tick 70000, .tick 90000]

def afterTurned : World Unit Unit := LTS.played (next constant 1) (fun w c => Onward w.impl c) configured turned

/-- The cursor is taken back twice, the second time with packets already decoded. -/
theorem plays_first : (queue afterTurned.impl).decoded.map (fun x => x.1.number) = [0, 1, 19, 20] ∧
    Plays turned (queue afterTurned.impl) :=
  ⟨by decide +kernel, plays ⟨(), 111, true, rfl⟩ (LTS.played_run next_step (by decide +kernel))⟩

/-- Packet 0 is played; 2 to 17 wait for 1, which comes last, and 0 once more. -/
def burst : List Call :=
  [arrives 0 0, .tick 20000] ++ (List.range 16).map (fun i => arrives (i + 2) 20000) ++
    [arrives 1 20000, arrives 0 20000, .tick 40000]

def afterBurst : World Unit Unit := LTS.played (next constant 1) (fun _ _ => True) configured burst

/-- **Played again.** The overflow by packet 1 forgets that packet 0 was played. -/
theorem played_again : (decoder constant 1).init configured ∧
    (decoder constant 1).Run configured burst afterBurst ∧
    (queue afterBurst.impl).decoded.map (fun x => x.1.number) = [0, 0, 1] ∧
    ¬ Plays burst (queue afterBurst.impl) := by
  have hnumbers : (queue afterBurst.impl).decoded.map (fun x => x.1.number) = [0, 0, 1] := by decide +kernel
  refine ⟨⟨(), 111, true, rfl⟩, (LTS.played_run next_step (by decide +kernel)).of_guarded, hnumbers, fun h => ?_⟩
  have hsorted := List.pairwise_map.mpr h.increasing
  rw [hnumbers] at hsorted
  exact absurd hsorted (by decide)

end KmVirtualCamera.L2.OpusRtp
