import Mathlib
import KmVirtualCamera.L5Concurrency.ProducerAuth
import KmVirtualCamera.L5Concurrency.RelaySchedule

/-!
# When the relay timer runs (`updateRelayTimer`)

The device starts and stops the timer on its own events: consumers of the source
come and go, a producer is authorised, stops or disconnects. The relay can also
drop its producer by itself, after ten consume errors in a row, and tells nobody.

`policy_iff`: after every event the timer runs if and only if there is a
consumer or a producer, as long as no such drop happens while no consumer
captures the source.

The device is that of `ProducerAuth`, the relay that of `FrameRelay` and the
schedule that of `RelaySchedule`, which the device runs (`handle_simulates`): it
starts no timer that runs already. A timer can always be created. The readings
of the host clock are part of the events, and any readings will do here.
-/
namespace KmVirtualCamera.L5.RelayTimer
open KmVirtualCamera.L5.FrameRelay KmVirtualCamera.L5.ProducerAuth KmVirtualCamera.L5.RelaySchedule

deriving instance DecidableEq for Request

/-- The device source with its streams. `calls` are the consumes that are not
answered yet.
mirrors macos/camera-extension/device.mm:27-43 -/
structure Extension where
  device : Device := {}
  activeConsumers : Nat := 0
  schedule : Schedule := {}
  calls : List (Request KMClient) := []

def Extension.withRelay (e : Extension) (r : Relay KMClient) : Extension :=
  { e with device := { e.device with relay := r } }

/-- mirrors macos/camera-extension/device.mm:184 -/
def Extension.want (e : Extension) : Bool := decide (e.activeConsumers > 0) || e.device.relay.producer.isSome

/-- mirrors macos/camera-extension/device.mm:183-190 -/
def updateRelayTimer (e : Extension) (now : UInt64) : Extension :=
  if e.want = true ∧ e.schedule.timer = none then { e with schedule := e.schedule.startRelayTimer now }
  else if e.want = false ∧ e.schedule.timer ≠ none then { e with schedule := e.schedule.stopRelayTimer }
  else e

/-- mirrors macos/camera-extension/device.mm:60-65 -/
def consumersChanged (e : Extension) (count : Nat) (now : UInt64) : Extension :=
  updateRelayTimer (e.withRelay (setSourceActive e.device.relay (decide (count > 0)))) now

/-- mirrors macos/camera-extension/source_stream.mm:137-143 -/
def startStream (e : Extension) (now : UInt64) : Extension :=
  consumersChanged { e with activeConsumers := e.activeConsumers + 1 } (e.activeConsumers + 1) now

/-- mirrors macos/camera-extension/source_stream.mm:145-152 -/
def stopStream (e : Extension) (now : UInt64) : Extension :=
  let count := if e.activeConsumers > 0 then e.activeConsumers - 1 else e.activeConsumers
  consumersChanged { e with activeConsumers := count } count now

/-- mirrors macos/camera-extension/device.mm:130-159 -/
def authorizeClient (verify : Bytes → Bytes → Bool) (publicKey : Bool) (time : Int64) (ladder : Bool)
    (e : Extension) (client : KMClient) (now : UInt64) : Extension :=
  match sinkAuthorizeClient verify publicKey time ladder e.device client with
  | (device, some _) => updateRelayTimer { e with device := device } now
  | (_, none) => e

/-- mirrors macos/camera-extension/device.mm:171-176 -/
def clearProducer (e : Extension) (now : UInt64) : Extension :=
  updateRelayTimer { e with device := ProducerAuth.clearProducer e.device } now

/-- mirrors macos/camera-extension/device.mm:161-164 -/
def sinkStreamStopped (e : Extension) (now : UInt64) : Extension :=
  if e.device.producerClientID = none then e else clearProducer e now

/-- mirrors macos/camera-extension/device.mm:166-169 -/
def clientDisconnected (e : Extension) (client : KMClient) (now : UInt64) : Extension :=
  if some client.clientID ≠ e.device.producerClientID then e else clearProducer e now

/-- mirrors macos/camera-extension/device.mm:217-237 -/
def relayTick (e : Extension) (now later : UInt64) (created : Bool) : Extension :=
  match e.schedule.relayTick now later with
  | (_, none) => e
  | (schedule, some target) =>
    let t := tickAtHostTimeNs e.device.relay target.toNat created
    { e.withRelay t.1.1 with schedule := schedule, calls := e.calls ++ t.2.toList }

/-- A block that `consumeOne` posted.
mirrors macos/camera-extension/frame_relay.mm:88-89 -/
def consumeMore (e : Extension) : Extension :=
  { e.withRelay (consumeOne e.device.relay).1 with calls := e.calls ++ (consumeOne e.device.relay).2.toList }

/-- The block of an answered consume. -/
def answered (e : Extension) (q : Request KMClient) (c : Completion) : Extension :=
  if q ∈ e.calls then
    { e.withRelay (completed e.device.relay q.generation c).1 with calls := e.calls.erase q }
  else e

inductive Event where
  | startStream (now : UInt64)
  | stopStream (now : UInt64)
  | authorizeClient (publicKey : Bool) (time : Int64) (ladder : Bool) (client : KMClient) (now : UInt64)
  | sinkStreamStopped (now : UInt64)
  | clientDisconnected (client : KMClient) (now : UInt64)
  | setDeviceProperties (ps : List Property)
  | relayTick (now later : UInt64) (created : Bool)
  | consumeMore
  | answered (q : Request KMClient) (c : Completion)

/-- `verify` is the signature check of the platform. -/
def handle (verify : Bytes → Bytes → Bool) (e : Extension) : Event → Extension
  | .startStream now => startStream e now
  | .stopStream now => stopStream e now
  | .authorizeClient publicKey time ladder client now => authorizeClient verify publicKey time ladder e client now
  | .sinkStreamStopped now => sinkStreamStopped e now
  | .clientDisconnected client now => clientDisconnected e client now
  | .setDeviceProperties ps => { e with device := setDeviceProperties e.device ps }
  | .relayTick now later created => relayTick e now later created
  | .consumeMore => consumeMore e
  | .answered q c => answered e q c

/-- The device after a sequence of events. -/
def after (verify : Bytes → Bytes → Bool) (es : List Event) : Extension := es.foldl (handle verify) {}

/-! ## The policy -/

/-- The timer runs exactly when somebody needs it. -/
def Policy (e : Extension) : Prop :=
  e.schedule.timer.isSome = true ↔ e.activeConsumers > 0 ∨ e.device.relay.producer.isSome = true

instance (e : Extension) : Decidable (Policy e) := inferInstanceAs (Decidable (_ ↔ _))

/-- The tenth error in a row, of a producer whose frames nobody captures. -/
structure Drops (e : Extension) (q : Request KMClient) (c : Completion) : Prop where
  issued : q ∈ e.calls
  current : q.generation = e.device.relay.generation
  error : c.error = true
  streak : e.device.relay.errorStreak + 1 ≥ 10
  producer : e.device.relay.producer.isSome = true
  unwatched : e.activeConsumers = 0

def Event.Drops (e : Extension) : Event → Prop
  | .answered q c => RelayTimer.Drops e q c
  | _ => False

theorem want_iff (e : Extension) :
    e.want = true ↔ e.activeConsumers > 0 ∨ e.device.relay.producer.isSome = true := by
  simp [Extension.want]

/-- Whatever it finds, the update leaves the policy in force. -/
theorem updateRelayTimer_policy (e : Extension) (now : UInt64) : Policy (updateRelayTimer e now) := by
  unfold updateRelayTimer Policy
  split
  · rename_i h
    exact iff_of_true (e.schedule.startRelayTimer_timer now) ((want_iff e).mp h.1)
  · rename_i hstart
    split
    · rename_i h
      refine iff_of_false (by simp [Schedule.stopRelayTimer]) fun hw => ?_
      rw [(want_iff e).mpr hw] at h
      cases h.1
    · rename_i hstop
      rw [← want_iff]
      cases htimer : e.schedule.timer with
      | none => exact iff_of_false (by simp) fun hw => hstart ⟨hw, htimer⟩
      | some d =>
        refine iff_of_true rfl ?_
        by_contra hw
        exact hstop ⟨Bool.eq_false_iff.mpr hw, by simp [htimer]⟩

/-- An event that keeps the consumers, the producer and whether there is a
timer. -/
theorem Policy.same {e e' : Extension} (h : Policy e) (ht : e'.schedule.timer.isSome = e.schedule.timer.isSome)
    (hc : e'.activeConsumers = e.activeConsumers) (hp : e'.device.relay.producer = e.device.relay.producer) :
    Policy e' := by
  unfold Policy
  rw [ht, hc, hp]
  exact h

theorem consumeOne_producer (r : Relay KMClient) : (consumeOne r).1.producer = r.producer := by
  rcases consumeOne_cases r with h | ⟨p, -, -, h⟩ <;> rw [h]

theorem tick_producer (r : Relay KMClient) (nowNs : Nat) (created : Bool) :
    (tickAtHostTimeNs r nowNs created).1.1.producer = r.producer :=
  (output_cases (consumeOne r).1 nowNs created).1.producer.trans (consumeOne_producer r)

theorem relayTick_policy {e : Extension} (h : Policy e) (now later : UInt64) (created : Bool) :
    Policy (relayTick e now later created) := by
  unfold relayTick
  rcases e.schedule.relayTick_cases now later with ⟨-, hrun⟩ | ⟨s', target, hafter, hbefore, hrun⟩
  · rw [hrun]
    exact h
  · rw [hrun]
    exact h.same (hafter.trans hbefore.symm) rfl (tick_producer _ _ _)

/-- What an answer does to the producer. -/
theorem completed_producer (r : Relay KMClient) (g : UInt64) (c : Completion) :
    (completed r g c).1.producer =
      if r.generation = g ∧ c.error = true ∧ r.errorStreak + 1 ≥ 10 then none else r.producer := by
  unfold completed
  by_cases hg : r.generation = g
  · rw [if_neg (not_not.mpr hg)]
    simp only
    by_cases he : c.error = true
    · rw [if_pos he]
      by_cases hs : r.errorStreak + 1 ≥ 10
      · have hdrop : r.generation = g ∧ c.error = true ∧ r.errorStreak + 1 ≥ 10 := ⟨hg, he, hs⟩
        rw [if_pos hdrop, if_pos hs]
        rfl
      · have hno : ¬ (r.generation = g ∧ c.error = true ∧ r.errorStreak + 1 ≥ 10) := fun h => hs h.2.2
        rw [if_neg hno, if_neg hs]
    · have hno : ¬ (r.generation = g ∧ c.error = true ∧ r.errorStreak + 1 ≥ 10) := fun h => he h.2.1
      rw [if_neg he, if_neg hno]
      rcases keep_cases { r with consuming := false, errorStreak := 0 } c with hk | ⟨i, -, -, hk⟩ <;> rw [hk]
  · have hno : ¬ (r.generation = g ∧ c.error = true ∧ r.errorStreak + 1 ≥ 10) := fun h => hg h.1
    rw [if_pos hg, if_neg hno]

theorem setDeviceProperties_relay (ps : List Property) (d : Device) :
    (setDeviceProperties d ps).relay = d.relay := by
  unfold setDeviceProperties
  induction ps generalizing d with
  | nil => rfl
  | cons p ps ih =>
    rw [List.foldl_cons, ih]
    split
    · unfold acceptResponse issueAuthChallenge
      cases p.random <;> rfl
    · rfl

theorem answered_policy {e : Extension} (h : Policy e) (q : Request KMClient) (c : Completion) :
    Policy (answered e q c) ↔ ¬ Drops e q c := by
  unfold answered
  by_cases hq : q ∈ e.calls
  swap
  · rw [if_neg hq]
    exact iff_of_true h fun hd => hq hd.issued
  rw [if_pos hq]
  have hproducer := completed_producer e.device.relay q.generation c
  by_cases hdrop : e.device.relay.generation = q.generation ∧ c.error = true ∧ e.device.relay.errorStreak + 1 ≥ 10
  swap
  · rw [if_neg hdrop] at hproducer
    exact iff_of_true (h.same rfl rfl hproducer) fun hd => hdrop ⟨hd.current.symm, hd.error, hd.streak⟩
  rw [if_pos hdrop] at hproducer
  have hpolicy : Policy { e.withRelay (completed e.device.relay q.generation c).1 with calls := e.calls.erase q } ↔
      (e.schedule.timer.isSome = true ↔ e.activeConsumers > 0) := by
    unfold Policy
    show (_ ↔ _ ∨ (completed e.device.relay q.generation c).1.producer.isSome = true) ↔ _
    rw [hproducer]
    simp [Extension.withRelay]
  rw [hpolicy]
  constructor
  · intro hafter hd
    -- the timer ran for the producer
    have hrun := h.mpr (.inr hd.producer)
    have hpos := hafter.mp hrun
    rw [hd.unwatched] at hpos
    exact absurd hpos (Nat.lt_irrefl 0)
  · intro hno
    refine ⟨?_, fun hpos => h.mpr (.inl hpos)⟩
    intro hw
    by_contra hzero
    have hp := (h.mp hw).resolve_left hzero
    exact hno ⟨hq, hdrop.1.symm, hdrop.2.1, hdrop.2.2, hp, Nat.eq_zero_of_not_pos hzero⟩

/-- One event keeps the policy, and only a drop that nobody watches does not. -/
theorem handle_policy (verify : Bytes → Bytes → Bool) {e : Extension} (h : Policy e) (ev : Event) :
    Policy (handle verify e ev) ↔ ¬ ev.Drops e := by
  cases ev with
  | startStream now => exact iff_of_true (updateRelayTimer_policy _ now) id
  | stopStream now => exact iff_of_true (updateRelayTimer_policy _ now) id
  | authorizeClient publicKey time ladder client now =>
    refine iff_of_true ?_ id
    show Policy (authorizeClient verify publicKey time ladder e client now)
    unfold authorizeClient
    split
    · exact updateRelayTimer_policy _ now
    · exact h
  | sinkStreamStopped now =>
    refine iff_of_true ?_ id
    show Policy (sinkStreamStopped e now)
    unfold sinkStreamStopped
    split
    · exact h
    · exact updateRelayTimer_policy _ now
  | clientDisconnected client now =>
    refine iff_of_true ?_ id
    show Policy (clientDisconnected e client now)
    unfold clientDisconnected
    split
    · exact h
    · exact updateRelayTimer_policy _ now
  | setDeviceProperties ps =>
    exact iff_of_true (h.same rfl rfl (congrArg Relay.producer (setDeviceProperties_relay ps e.device))) id
  | relayTick now later created => exact iff_of_true (relayTick_policy h now later created) id
  | consumeMore => exact iff_of_true (h.same rfl rfl (consumeOne_producer e.device.relay)) id
  | answered q c => exact answered_policy h q c

/-- After every event the timer runs if and only if a consumer or a producer
needs it, exactly when no producer is dropped for its errors while nobody
captures the source. -/
theorem policy_iff (verify : Bytes → Bytes → Bool) (es : List Event) :
    (∀ pre, pre <+: es → Policy (after verify pre)) ↔ EachAfter (fun pre ev => ¬ ev.Drops (after verify pre)) es := by
  show (∀ pre, pre <+: es → Policy (pre.foldl (handle verify) {})) ↔
    EachAfter (fun pre ev => ¬ ev.Drops (pre.foldl (handle verify) {})) es
  have hinit : Policy {} := by decide
  exact prefixes_iff (J := fun _ => True) (I := Policy) (B := fun e ev => ev.Drops e) trivial hinit
    (fun _ _ _ => trivial) (fun _ ev _ h => handle_policy verify h ev) es

/-- A consume that failed. -/
def failed : Completion := ⟨none, 0, 0, false, true, 0⟩

/-- The host is authorised, and each of ten ticks has its consume fail. -/
def tenErrors : List Event :=
  .authorizeClient false 0 true host 1000 :: (List.range 10).flatMap fun k =>
    [.relayTick (UInt64.ofNat (33334400 + 33333333 * k)) (UInt64.ofNat (33334500 + 33333333 * k)) true,
      .answered ⟨host, 2⟩ failed]

/-- Nobody captures the source, the producer is gone and the timer runs on. -/
theorem tenErrors_unneeded : ¬ Policy (after (fun _ _ => false) tenErrors) := by
  decide

/-! ## The schedule below -/

/-- The readings of the event are those of a clock that has come to `c.clock`. -/
def Event.Honest (c : Clocked) : Event → Prop
  | .startStream now | .stopStream now | .sinkStreamStopped now => c.Reads now
  | .authorizeClient _ _ _ _ now | .clientDisconnected _ now => c.Reads now
  | .relayTick now later _ =>
    (∀ d ∈ c.schedule.timer, d ≤ now.toNat) ∧ c.Reads now ∧ now ≤ later ∧ later.toNat < 2 ^ 63
  | .setDeviceProperties _ | .consumeMore | .answered _ _ => True

/-- A run of the schedule leads from `c` to the schedule `s`. -/
def Leads (c : Clocked) (s : Schedule) : Prop := ∃ ls c', scheduling.Run c ls c' ∧ c'.schedule = s

theorem Leads.stays {c : Clocked} {s : Schedule} (h : c.schedule = s) : Leads c s := ⟨[], c, .nil c, h⟩

theorem Leads.one {c c' : Clocked} {l : RelaySchedule.Label} (h : RelaySchedule.next c l = some c') :
    Leads c c'.schedule :=
  ⟨[l], c', .cons h (.nil c'), rfl⟩

theorem updateRelayTimer_leads {e : Extension} {c : Clocked} (h : c.schedule = e.schedule) {now : UInt64}
    (hreads : c.Reads now) : Leads c (updateRelayTimer e now).schedule := by
  unfold updateRelayTimer
  split
  · rename_i hstart
    have hnext : RelaySchedule.next c (.startRelayTimer now) =
        some { c with schedule := c.schedule.startRelayTimer now, clock := now } :=
      if_pos ⟨h ▸ hstart.2, hreads⟩
    have hl := Leads.one hnext
    rwa [h] at hl
  · split
    · have hl := Leads.one (c := c) (l := .stopRelayTimer) rfl
      rwa [h] at hl
    · exact .stays h

/-- **The device runs the schedule.** With honest readings, an event is a run of
the schedule. -/
theorem handle_simulates (verify : Bytes → Bytes → Bool) {e : Extension} {c : Clocked}
    (h : c.schedule = e.schedule) {ev : Event} (hh : ev.Honest c) : Leads c (handle verify e ev).schedule := by
  cases ev with
  | startStream now => exact updateRelayTimer_leads (by exact h) hh
  | stopStream now => exact updateRelayTimer_leads (by exact h) hh
  | authorizeClient publicKey time ladder client now =>
    show Leads c (authorizeClient verify publicKey time ladder e client now).schedule
    unfold authorizeClient
    split
    · exact updateRelayTimer_leads (by exact h) hh
    · exact .stays h
  | sinkStreamStopped now =>
    show Leads c (sinkStreamStopped e now).schedule
    unfold sinkStreamStopped
    split
    · exact .stays h
    · exact updateRelayTimer_leads (by exact h) hh
  | clientDisconnected client now =>
    show Leads c (clientDisconnected e client now).schedule
    unfold clientDisconnected
    split
    · exact .stays h
    · exact updateRelayTimer_leads (by exact h) hh
  | setDeviceProperties ps => exact .stays h
  | relayTick now later created =>
    show Leads c (relayTick e now later created).schedule
    unfold relayTick
    rcases e.schedule.relayTick_cases now later with ⟨-, hrun⟩ | ⟨s', target, -, htimer, hrun⟩
    · rw [hrun]
      exact .stays h
    · obtain ⟨d, hd⟩ := Option.isSome_iff_exists.mp htimer
      have hnext : RelaySchedule.next c (.relayTick now later) =
          some { schedule := s', clock := later, ticks := c.ticks ++ [⟨now, later, target, s'.timer⟩] } := by
        simp only [RelaySchedule.next, h, hd, hrun]
        exact if_pos ⟨hh.1 d (by rw [h, hd]; rfl), hh.2⟩
      rw [hrun]
      exact Leads.one hnext
  | consumeMore => exact .stays h
  | answered q completion =>
    show Leads c (answered e q completion).schedule
    unfold answered
    split
    · exact .stays h
    · exact .stays h

end KmVirtualCamera.L5.RelayTimer
