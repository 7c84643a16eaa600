import Mathlib
import KmVirtualCamera.Core.LTS
import KmVirtualCamera.L4App.SignalingRun
import KmVirtualCamera.L4App.SignalingPolling

/-!
# What a run reports

The phases a run has reported when it returns are one of a few sequences
(`Shape`): the run is cancelled before it begins, or it gets no session, or it
answers `n` offers and then ends. Nothing is assumed of the transport, of
`makeAnswer`, of the clock or of the moment of the cancellation.

`AtHead` holds where the loop begins an iteration, with the number of the
accepted answers; what lies between two reports is a step of `Unsaid`.

* `phase_protocol`: the phases, the session handed out with them, and when an
  answer is made and put.
-/
namespace KmVirtualCamera.L4.SignalingRun
open L1.H264 (Bytes)
open L1.Json (ascii)
open L1.SessionCodec
open L4.SignalingWorker (SignalingPhase)

/-! ## The sequences -/

/-- What `fail` reports. -/
inductive Last where
  | failed | canceled
  deriving DecidableEq

def Last.phase : Last → SignalingPhase
  | .failed => .failed
  | .canceled => .canceled

/-- What follows the last accepted answer. -/
inductive Ending where
  | quiet
  | timedOut
  | canceled
  | generating (last : Last)
  | sending (last : Last)
  deriving DecidableEq

def Ending.phases : Ending → List SignalingPhase
  | .quiet => []
  | .timedOut => [.timedOut]
  | .canceled => [.canceled]
  | .generating last => [.generatingAnswer, last.phase]
  | .sending last => [.generatingAnswer, .sendingAnswer, last.phase]

def opening : List SignalingPhase := [.creatingSession, .sessionCreated, .waitingForOffer]

/-- An offer is answered. -/
def cycle : List SignalingPhase := [.generatingAnswer, .sendingAnswer, .succeeded]

def cycles (n : Nat) : List SignalingPhase := (List.replicate n cycle).flatten

inductive Shape where
  | canceled
  | refused (last : Last)
  | served (n : Nat) (ending : Ending)

def Shape.phases : Shape → List SignalingPhase
  | .canceled => [.canceled]
  | .refused last => [.creatingSession, last.phase]
  | .served n ending => opening ++ cycles n ++ ending.phases

/-- A quiet end comes after an answer, a timeout before the first; without
`keepPollingAfterAnswer` the first answer is the end. -/
def Shape.Allowed (keepPollingAfterAnswer : Bool) : Shape → Prop
  | .served n ending => (ending = .quiet → 1 ≤ n) ∧ (ending = .timedOut → n = 0) ∧
      (keepPollingAfterAnswer = false → n ≤ 1 ∧ (n = 1 → ending = .quiet))
  | _ => True

theorem cycles_succ (n : Nat) : cycles (n + 1) = cycles n ++ cycle := by
  simp [cycles, List.replicate_succ']

theorem Last.phase_injective : Function.Injective Last.phase := by
  intro a b h
  cases a <;> cases b <;> first | rfl | cases h

theorem Ending.phases_injective : Function.Injective Ending.phases := by
  intro a b h
  cases a <;> cases b <;> simp_all [Ending.phases, Last.phase_injective.eq_iff]

/-- The accepted answers are the `Succeeded` of the sequence. -/
theorem Shape.succeeded (n : Nat) (ending : Ending) :
    (Shape.served n ending).phases.count .succeeded = n := by
  have hcycles : (cycles n).count .succeeded = n := by
    induction n with
    | zero => rfl
    | succ n ih => rw [cycles_succ, List.count_append, ih]; rfl
  have hending : ending.phases.count .succeeded = 0 := by
    cases ending with
    | generating last => cases last <;> rfl
    | sending last => cases last <;> rfl
    | _ => rfl
  simp only [Shape.phases, List.count_append, hcycles, hending]
  simp [opening]

theorem Shape.phases_injective : Function.Injective Shape.phases := by
  intro a b h
  cases a with
  | canceled => cases b <;> simp_all [Shape.phases, opening]
  | refused last =>
    cases b with
    | refused last' =>
      have hlast : last.phase = last'.phase := by simpa [Shape.phases] using h
      rw [Last.phase_injective hlast]
    | canceled => simp [Shape.phases] at h
    | served n ending => simp [Shape.phases, opening] at h
  | served n ending =>
    cases b with
    | served m ending' =>
      have hn : n = m := by rw [← Shape.succeeded n ending, h, Shape.succeeded]
      subst hn
      rw [Ending.phases_injective (List.append_cancel_left h)]
    | canceled => simp [Shape.phases, opening] at h
    | refused last => simp [Shape.phases, opening] at h

/-! ## What the log says -/

def Event.reported : Event → Option SignalingPhase
  | .phase p _ => some p
  | _ => none

def phases (log : List Event) : List SignalingPhase := log.filterMap Event.reported

def Event.isSession : Event → Bool
  | .sessionCreated _ => true
  | _ => false

/-- The calls of `onSessionCreated`. -/
def sessions (log : List Event) : Nat := log.countP Event.isSession

/-- The offer `makeAnswer` was last called for, and the last one whose answer
was accepted. -/
structure Offers where
  asked : Option Bytes := none
  accepted : Option Bytes := none

def Offers.after (o : Offers) : Event → Offers
  | .makeAnswer offer => { o with asked := some offer }
  | .phase .succeeded _ => { o with accepted := o.asked }
  | _ => o

def offers (log : List Event) : Offers := log.foldl Offers.after {}

def Event.IsPut (ev : Event) : Prop := ∃ q, ev = .request q ∧ q.method = ascii "PUT"

/-- In all of the log: nothing is put once a cancellation was observed, and the
offer last accepted is not answered again. -/
structure Clean (r : Run) : Prop where
  seen : Event.canceled ∈ r.log → r.cancelRequested = true
  puts : EachAfter (fun pre ev => ev.IsPut → Event.canceled ∉ pre) r.log
  fresh : EachAfter (fun pre ev => ∀ offer, ev = .makeAnswer offer → (offers pre).accepted ≠ some offer) r.log

@[simp] theorem phases_append (log : List Event) (ev : Event) :
    phases (log ++ [ev]) = phases log ++ ev.reported.toList := by
  cases h : ev.reported <;> simp [phases, h]

@[simp] theorem sessions_append (log : List Event) (ev : Event) :
    sessions (log ++ [ev]) = sessions log + if ev.isSession then 1 else 0 := by
  simp [sessions, List.countP_append, List.countP_cons]

@[simp] theorem offers_append (log : List Event) (ev : Event) :
    offers (log ++ [ev]) = (offers log).after ev := by
  simp [offers]

/-- Without a `Succeeded` no answer was accepted. -/
theorem accepted_none {log : List Event} (h : SignalingPhase.succeeded ∉ phases log) :
    (offers log).accepted = none := by
  induction log using List.reverseRecOn with
  | nil => rfl
  | append_singleton log ev ih =>
    rw [phases_append, List.mem_append, not_or] at h
    rw [offers_append]
    cases ev with
    | phase p detail =>
      cases p with
      | succeeded => exact absurd (by simp [Event.reported]) h.2
      | _ => exact ih h.1
    | _ => exact ih h.1

theorem Clean.emit {r : Run} {ev : Event} (h : Clean r) (hseen : ev = .canceled → r.cancelRequested = true)
    (hput : ev.IsPut → r.cancelRequested = false)
    (hfresh : ∀ offer, ev = .makeAnswer offer → (offers r.log).accepted ≠ some offer) : Clean (r.emit ev) where
  seen hmem := by
    rcases List.mem_append.mp hmem with hmem | hmem
    · exact h.seen hmem
    · exact hseen (List.mem_singleton.mp hmem).symm
  puts := h.puts.snoc fun hp hmem => by
    have hc := h.seen hmem
    rw [hput hp] at hc
    cases hc
  fresh := h.fresh.snoc hfresh

/-! ## Between two reports -/

/-- `r'` comes later in the run, and nothing was reported or asked. -/
structure Unsaid (r r' : Run) : Prop where
  phases : phases r'.log = phases r.log
  sessions : sessions r'.log = sessions r.log
  offers : offers r'.log = offers r.log
  clean : Clean r → Clean r'

theorem Unsaid.refl (r : Run) : Unsaid r r := ⟨rfl, rfl, rfl, id⟩

theorem Unsaid.trans {a b c : Run} (h : Unsaid a b) (h' : Unsaid b c) : Unsaid a c :=
  ⟨h'.phases.trans h.phases, h'.sessions.trans h.sessions, h'.offers.trans h.offers,
    fun hc => h'.clean (h.clean hc)⟩

/-- A step that writes nothing. -/
theorem Unsaid.step {r r' : Run} (hlog : r'.log = r.log)
    (hc : r.cancelRequested = true → r'.cancelRequested = true) : Unsaid r r' := by
  refine ⟨by rw [hlog], by rw [hlog], by rw [hlog], fun h => ⟨fun hmem => ?_, ?_, ?_⟩⟩
  · exact hc (h.seen (by rwa [hlog] at hmem))
  · rw [hlog]; exact h.puts
  · rw [hlog]; exact h.fresh

theorem Unsaid.op (r : Run) : Unsaid r r.op := .step rfl id

/-- An entry that is no report. -/
theorem Unsaid.emit (r : Run) {ev : Event} (hreported : ev.reported = none) (hsession : ev.isSession = false)
    (hoffer : ∀ offer, ev ≠ .makeAnswer offer) (hseen : ev = .canceled → r.cancelRequested = true)
    (hput : ev.IsPut → r.cancelRequested = false) : Unsaid r (r.emit ev) where
  phases := by simp [Run.emit, hreported]
  sessions := by simp [Run.emit, hsession]
  offers := by
    cases ev with
    | phase => cases hreported
    | makeAnswer offer => exact absurd rfl (hoffer offer)
    | _ => simp [Run.emit, Offers.after]
  clean h := h.emit hseen hput fun offer hev => absurd hev (hoffer offer)

variable (e : Env) (base : Bytes)

theorem read_unsaid (r : Run) : Unsaid r (read e r) := by
  unfold read
  dsimp only
  have hset : Unsaid r { r.op with cancelRequested := r.cancelRequested || e.cancel r.n } :=
    .step rfl fun h => by simp [h]
  split
  · next hc =>
    refine hset.trans (.emit _ rfl rfl (fun _ h => by cases h) (fun _ => hc) fun hput => ?_)
    obtain ⟨_, hq, _⟩ := hput
    cases hq
  · exact hset

theorem Micro.unsaid {r r' : Run} (h : Micro e r r') : Unsaid r r' := by
  cases h with
  | op => exact Unsaid.op r
  | error error => exact .step rfl id
  | read => exact read_unsaid e r
  | request q hq =>
    refine .emit r rfl rfl (fun _ h => by cases h) (fun h => by cases h) fun hput => ?_
    obtain ⟨q', heq, hmethod⟩ := hput
    cases heq
    exact hq hmethod

theorem Unsaid.silently {e : Env} {r r' : Run} (h : Silently e r r') : Unsaid r r' := by
  induction h with
  | refl => exact Unsaid.refl r
  | tail _ hstep ih => exact ih.trans (hstep.unsaid e)

theorem pause_unsaid (intervalMs slept : Int) (r : Run) : Unsaid r (pause e intervalMs slept r) := by
  fun_induction pause e intervalMs slept r with
  | case1 slept r hlt r' hc => exact read_unsaid e r
  | case2 slept r hlt r' hc ih =>
    have hslice : Unsaid r' { r'.op with slept := r'.slept + 20000000 } := .step rfl id
    exact ((read_unsaid e r).trans hslice).trans ih
  | case3 => exact Unsaid.refl _

/-! ## Reports -/

/-- From `r` to `r'` the phases `ps` were reported, and no session. -/
structure Says (ps : List SignalingPhase) (r r' : Run) : Prop where
  phases : phases r'.log = phases r.log ++ ps
  sessions : sessions r'.log = sessions r.log
  clean : Clean r → Clean r'

theorem Unsaid.reported {r r' : Run} (h : Unsaid r r') : Says [] r r' :=
  ⟨by rw [h.phases, List.append_nil], h.sessions, h.clean⟩

theorem Says.trans {ps qs : List SignalingPhase} {a b c : Run} (h : Says ps a b) (h' : Says qs b c) :
    Says (ps ++ qs) a c :=
  ⟨by rw [h'.phases, h.phases, List.append_assoc], h'.sessions.trans h.sessions,
    fun hc => h'.clean (h.clean hc)⟩

theorem report_reported (r : Run) (phase : SignalingPhase) (detail : String) :
    Says [phase] r (report r phase detail) where
  phases := by simp [report, Run.emit, Event.reported]
  sessions := by simp [report, Run.emit, Event.isSession]
  clean h := h.emit (fun hev => by cases hev) (fun ⟨_, hev, _⟩ => by cases hev) fun _ hev => by cases hev

theorem fail_reported (r : Run) (error fallback : String) :
    ∃ last : Last, Says [last.phase] r (fail e r error fallback) := by
  have hread := (read_unsaid e r).reported
  unfold fail
  dsimp only
  split
  · exact ⟨.canceled, hread.trans (report_reported ..)⟩
  · exact ⟨.failed, hread.trans (report_reported ..)⟩

theorem report_offers (r : Run) {phase : SignalingPhase} (h : phase ≠ .succeeded) (detail : String) :
    offers (report r phase detail).log = offers r.log := by
  cases phase <;> first | exact absurd rfl h | simp [report, Run.emit, Offers.after]

/-- `makeAnswer` is called for another offer than the one accepted last. -/
theorem asks_reported {r : Run} {offer : Bytes} (h : (offers r.log).accepted ≠ some offer) :
    Says [] r (r.emit (.makeAnswer offer)) where
  phases := by simp [Run.emit, Event.reported]
  sessions := by simp [Run.emit, Event.isSession]
  clean hc := hc.emit (fun hev => by cases hev) (fun ⟨_, hev, _⟩ => by cases hev) fun _ hev => by
    cases hev
    exact h

/-! ## The run between two iterations, and its end -/

/-- The session was handed out, and `n` answers were accepted. -/
structure Said (n : Nat) (r : Run) : Prop extends Clean r where
  reported : phases r.log = opening ++ cycles n
  session : sessions r.log = 1

structure Ended (keepPollingAfterAnswer : Bool) (r : Run) : Prop extends Clean r where
  shape : ∃ s : Shape, s.Allowed keepPollingAfterAnswer ∧ phases r.log = s.phases
  session : sessions r.log = if SignalingPhase.sessionCreated ∈ phases r.log then 1 else 0

structure AtHead (keepPollingAfterAnswer : Bool) (n : Nat) (h : Head) : Prop extends Said n h.run where
  answered : h.answered = true ↔ 1 ≤ n
  accepted : ∀ sdp, (offers h.run.log).accepted = some sdp → sdp = h.answeredOfferSdp
  once : keepPollingAfterAnswer = false → n = 0

def Next.Reports (keepPollingAfterAnswer : Bool) : Next → Prop
  | .again h => ∃ n, AtHead keepPollingAfterAnswer n h
  | .returned r => Ended keepPollingAfterAnswer r

variable {e} {keepPollingAfterAnswer : Bool} {n : Nat}

theorem Said.ends {r r' : Run} (h : Said n r) (ending : Ending) (hs : Says ending.phases r r')
    (hallowed : (Shape.served n ending).Allowed keepPollingAfterAnswer) : Ended keepPollingAfterAnswer r' where
  toClean := hs.clean h.toClean
  shape := ⟨.served n ending, hallowed, by rw [hs.phases, h.reported]; rfl⟩
  session := by
    have hmem : SignalingPhase.sessionCreated ∈ phases r'.log := by
      rw [hs.phases, h.reported]
      simp [opening]
    rw [if_pos hmem, hs.sessions, h.session]

/-- Any end with a report of its own, but the timeout. -/
theorem AtHead.stops {h : Head} (hh : AtHead keepPollingAfterAnswer n h) (ending : Ending) {r : Run}
    (hs : Says ending.phases h.run r) (hquiet : ending ≠ .quiet) (htime : ending ≠ .timedOut) :
    Ended keepPollingAfterAnswer r := by
  refine hh.toSaid.ends ending hs ⟨fun he => absurd he hquiet, fun he => absurd he htime, ?_⟩
  intro hk
  have hzero := hh.once hk
  exact ⟨by omega, fun hone => by omega⟩

theorem AtHead.unsaid {h h' : Head} (hh : AtHead keepPollingAfterAnswer n h) (hq : Unsaid h.run h'.run)
    (ha : h'.answered = h.answered) (ho : h'.answeredOfferSdp = h.answeredOfferSdp) :
    AtHead keepPollingAfterAnswer n h' where
  toClean := hq.clean hh.toClean
  reported := hq.phases.trans hh.reported
  session := hq.sessions.trans hh.session
  answered := by rw [ha]; exact hh.answered
  accepted sdp hsdp := by
    rw [hq.offers] at hsdp
    rw [ho]
    exact hh.accepted sdp hsdp
  once := hh.once

variable (session : CreateSessionResponse) (keepPollingAfterAnswer)

/-- An answer is made, and put. -/
theorem answer_reports {h : Head} (hh : AtHead keepPollingAfterAnswer n h) {offer : Bytes}
    (hnew : offer ≠ h.answeredOfferSdp) :
    (answer e base session keepPollingAfterAnswer h offer).Reports keepPollingAfterAnswer := by
  unfold answer
  dsimp only
  set r₁ := report h.run .generatingAnswer "" with hr₁
  set r₂ := read e (r₁.emit (.makeAnswer offer)).op with hr₂
  have hoffers₁ : offers r₁.log = offers h.run.log := report_offers _ (by decide) _
  have hasks : Says [] r₁ (r₁.emit (.makeAnswer offer)) := asks_reported fun hacc => by
    rw [hoffers₁] at hacc
    exact hnew (hh.accepted offer hacc)
  have hquiet₂ : Unsaid (r₁.emit (.makeAnswer offer)) r₂ := (Unsaid.op _).trans (read_unsaid e _)
  have h₂ : Says [.generatingAnswer] h.run r₂ := ((report_reported ..).trans hasks).trans hquiet₂.reported
  have hasked₂ : (offers r₂.log).asked = some offer := by
    rw [hquiet₂.offers]
    simp [Run.emit, Offers.after]
  split
  · exact hh.stops (.generating .canceled) (h₂.trans (report_reported ..)) (by decide) (by decide)
  · next hc =>
    split
    · exact hh.stops (.generating .failed) (h₂.trans (report_reported ..)) (by decide) (by decide)
    · next answer _ =>
      split
      · exact hh.stops (.generating .failed) (h₂.trans (report_reported ..)) (by decide) (by decide)
      · set r₃ := report r₂ .sendingAnswer ""
        have hput := Unsaid.silently (putAnswer_silently e base (r := r₃) session.sessionId
          session.receiverToken answer (Bool.eq_false_iff.2 hc))
        have h₃ : Says [.generatingAnswer, .sendingAnswer] h.run r₃ := h₂.trans (report_reported ..)
        split
        · next r hr =>
          rw [hr] at hput
          obtain ⟨last, hlast⟩ := fail_reported e r r.error "answer send failed"
          exact hh.stops (.sending last) ((h₃.trans hput.reported).trans hlast) (by simp) (by simp)
        · next r hr =>
          rw [hr] at hput
          have hdone : Says cycle h.run (report r .succeeded "") := (h₃.trans hput.reported).trans (report_reported ..)
          have hasked : (offers r.log).asked = some offer := by
            rw [hput.offers, report_offers _ (by decide)]
            exact hasked₂
          have hreported : phases (report r .succeeded "").log = opening ++ cycles (n + 1) := by
            rw [hdone.phases, hh.reported, cycles_succ, List.append_assoc]
          have hsaid : Said (n + 1) (report r .succeeded "") :=
            ⟨hdone.clean hh.toClean, hreported, hdone.sessions.trans hh.session⟩
          split
          · next hk =>
            refine ⟨n + 1, hsaid, by simp, fun sdp hsdp => ?_, fun hk' => ?_⟩
            · have hacc : (offers (report r .succeeded "").log).accepted = some offer := by
                simp [report, Run.emit, Offers.after, hasked]
              rw [hacc] at hsdp
              exact (Option.some.inj hsdp).symm
            · rw [hk] at hk'
              cases hk'
          · next hk =>
            have hzero := hh.once (Bool.eq_false_iff.2 hk)
            refine hsaid.ends .quiet (Unsaid.refl _).reported ⟨fun _ => by omega, fun he => ?_, fun _ => ?_⟩
            · cases he
            · exact ⟨by omega, fun _ => rfl⟩

theorem offered_reports {h : Head} (hh : AtHead keepPollingAfterAnswer n h) (offer : Option OfferDescription) :
    (offered e base session keepPollingAfterAnswer h offer).Reports keepPollingAfterAnswer := by
  unfold offered
  split
  · exact ⟨n, hh⟩
  · next offer =>
    have hread : AtHead keepPollingAfterAnswer n { h with run := read e h.run } :=
      hh.unsaid (read_unsaid e h.run) rfl rfl
    dsimp only
    split
    · exact ⟨n, hread⟩
    · split
      · exact ⟨n, hread⟩
      · next hne => exact answer_reports base keepPollingAfterAnswer session hread hne

theorem rest_reports {h : Head} (hh : AtHead keepPollingAfterAnswer n h) (poll : PollPolicy) (elapsedMs : Int) :
    (rest e poll elapsedMs h).Reports keepPollingAfterAnswer := by
  have hread := read_unsaid e h.run
  unfold rest
  dsimp only
  split
  · exact hh.stops .canceled (hread.reported.trans (report_reported ..)) (by decide) (by decide)
  · set interval := backoff poll elapsedMs h.intervalMs
    have hpaced : Unsaid (read e h.run) ((read e h.run).emit (.paced elapsedMs interval)) :=
      .emit _ rfl rfl (fun _ hev => by cases hev) (fun hev => by cases hev) fun ⟨_, hev, _⟩ => by cases hev
    exact ⟨n, hh.unsaid ((hread.trans hpaced).trans (pause_unsaid e _ _ _)) rfl rfl⟩

theorem iteration_reports {h : Head} (hh : AtHead keepPollingAfterAnswer n h) (begin : Int) :
    (iteration e base session keepPollingAfterAnswer begin h).Reports keepPollingAfterAnswer := by
  unfold iteration
  dsimp only
  set elapsedMs := (e.now h.run.n h.run.slept - begin).tdiv 1000000
  split
  · cases ha : h.answered with
    | true =>
      refine hh.toSaid.ends .quiet (Unsaid.op _).reported
        ⟨fun _ => hh.answered.mp ha, ?_, ?_⟩
      · intro he
        cases he
      · intro hk
        exact ⟨by have := hh.once hk; omega, fun _ => rfl⟩
    | false =>
      have hzero : n = 0 := by
        have hno : ¬ 1 ≤ n := fun hn => by simp [hh.answered.mpr hn] at ha
        omega
      refine hh.toSaid.ends .timedOut ((Unsaid.op _).reported.trans (report_reported ..))
        ⟨?_, fun _ => hzero, fun _ => ⟨by omega, fun hone => by omega⟩⟩
      intro he
      cases he
  · set r₁ := h.run.op.emit (.poll elapsedMs h.intervalMs)
    have hpoll : Unsaid h.run r₁ := (Unsaid.op h.run).trans
      (.emit _ rfl rfl (fun _ hev => by cases hev) (fun hev => by cases hev) fun ⟨_, hev, _⟩ => by cases hev)
    have hreply := Unsaid.silently (pollOffer_silently e base r₁ session.sessionId session.receiverToken)
    generalize pollOffer e base r₁ session.sessionId session.receiverToken = reply at hreply
    have hhead : AtHead keepPollingAfterAnswer n { h with run := reply.2 } :=
      hh.unsaid (hpoll.trans hreply) rfl rfl
    have ho := offered_reports (e := e) base keepPollingAfterAnswer session hhead reply.1
    generalize offered e base session keepPollingAfterAnswer { h with run := reply.2 } reply.1 = next at ho
    cases next with
    | returned r => exact ho
    | again h' =>
      obtain ⟨m, hm⟩ := ho
      exact rest_reports keepPollingAfterAnswer hm session.poll elapsedMs

/-- By induction on the fuel: every iteration goes on from a head, or ends the run. -/
theorem loop_reports {begin : Int} {fuel : Nat} {h : Head} (hh : AtHead keepPollingAfterAnswer n h) {r : Run}
    (hr : loop e base session keepPollingAfterAnswer begin fuel h = some r) : Ended keepPollingAfterAnswer r := by
  induction fuel generalizing n h with
  | zero => cases hr
  | succ fuel ih =>
    have hread := read_unsaid e h.run
    simp only [loop] at hr
    split at hr
    · cases hr
      exact hh.stops .canceled (hread.reported.trans (report_reported ..)) (by decide) (by decide)
    · have hhead : AtHead keepPollingAfterAnswer n { h with run := read e h.run } := hh.unsaid hread rfl rfl
      have hi := iteration_reports (e := e) base keepPollingAfterAnswer session hhead begin
      split at hr
      · next hn =>
        cases hr
        rw [hn] at hi
        exact hi
      · next hn =>
        rw [hn] at hi
        obtain ⟨m, hm⟩ := hi
        exact ih hm hr

/-! ## The whole run -/

theorem clean_start : Clean {} := ⟨fun h => absurd h List.not_mem_nil, eachAfter_nil _, eachAfter_nil _⟩

/-- The run ends before it has a session. -/
theorem ended_unserved {s : Shape} {r : Run} (hs : Says s.phases {} r)
    (hallowed : s.Allowed keepPollingAfterAnswer) (hnone : SignalingPhase.sessionCreated ∉ s.phases) :
    Ended keepPollingAfterAnswer r where
  toClean := hs.clean clean_start
  shape := ⟨s, hallowed, hs.phases⟩
  session := by
    have hphases : phases r.log = s.phases := hs.phases
    rw [hphases, if_neg hnone]
    exact hs.sessions

theorem serve_reports {fuel : Nat} {r r' : Run} (hs : Says [.creatingSession] {} r)
    (hr : serve e base session keepPollingAfterAnswer fuel r = some r') : Ended keepPollingAfterAnswer r' := by
  have hread : Says [.creatingSession] {} (read e r) := hs.trans (read_unsaid e r).reported
  unfold serve at hr
  dsimp only at hr
  split at hr
  · cases hr
    exact ended_unserved (s := .refused .canceled) keepPollingAfterAnswer (hread.trans (report_reported ..)) trivial
      (by decide)
  · set r₁ := report (read e r) .sessionCreated ""
    set r₂ := report (r₁.emit (.sessionCreated session)) .waitingForOffer ""
    have h₁ : Says [.creatingSession, .sessionCreated] {} r₁ := hread.trans (report_reported ..)
    have hclean : Clean (r₁.emit (.sessionCreated session)) :=
      (h₁.clean clean_start).emit (fun hev => by cases hev) (fun ⟨_, hev, _⟩ => by cases hev) fun _ hev => by
        cases hev
    have h₂ := report_reported (r₁.emit (.sessionCreated session)) .waitingForOffer ""
    have hphases : phases r₂.log = opening := by
      rw [h₂.phases, Run.emit, phases_append, h₁.phases]
      rfl
    have hsessions : sessions r₂.log = 1 := by
      rw [h₂.sessions, Run.emit, sessions_append, h₁.sessions]
      rfl
    have haccepted : (offers r₂.log).accepted = none := accepted_none (by rw [hphases]; decide)
    have hsaid : Said 0 r₂ := ⟨h₂.clean hclean, by rw [hphases]; rfl, hsessions⟩
    have hhead : AtHead keepPollingAfterAnswer 0
        { run := r₂.op, intervalMs := session.poll.initialIntervalMs.toNat } := by
      refine ⟨⟨(Unsaid.op r₂).clean hsaid.toClean, hsaid.reported, hsaid.session⟩, by simp, fun sdp hsdp => ?_,
        fun _ => rfl⟩
      have hop : offers r₂.op.log = offers r₂.log := rfl
      rw [hop, haccepted] at hsdp
      cases hsdp
    exact loop_reports base keepPollingAfterAnswer session hhead hr

/-- What holds of the log of a run that has returned. -/
structure Protocol (keepPollingAfterAnswer : Bool) (log : List Event) : Prop where
  shape : ∃! s : Shape, s.Allowed keepPollingAfterAnswer ∧ phases log = s.phases
  /-- `onSessionCreated` is called once with `SessionCreated`, else never -/
  session : sessions log = if SignalingPhase.sessionCreated ∈ phases log then 1 else 0
  /-- the offer whose answer was accepted last is not answered again -/
  fresh : EachAfter (fun pre ev => ∀ offer, ev = .makeAnswer offer → (offers pre).accepted ≠ some offer) log
  /-- nothing is put after a cancellation was observed -/
  puts : EachAfter (fun pre ev => ev.IsPut → Event.canceled ∉ pre) log

theorem Ended.protocol {r : Run} (h : Ended keepPollingAfterAnswer r) : Protocol keepPollingAfterAnswer r.log where
  shape := by
    obtain ⟨s, hallowed, hs⟩ := h.shape
    refine ⟨s, ⟨hallowed, hs⟩, ?_⟩
    intro s' hs'
    exact Shape.phases_injective (hs'.2.symm.trans hs)
  session := h.session
  fresh := h.fresh
  puts := h.puts

/-- **The phase protocol**, of every run that returns. -/
theorem phase_protocol (e : Env) (base clientName : Bytes) (keepPollingAfterAnswer : Bool) (fuel : Nat) (r : Run)
    (h : run e base keepPollingAfterAnswer clientName fuel = some r) : Protocol keepPollingAfterAnswer r.log := by
  have hread : Says [] {} (read e {}) := (read_unsaid e {}).reported
  suffices hended : Ended keepPollingAfterAnswer r from hended.protocol
  unfold run at h
  dsimp only at h
  split at h
  · cases h
    exact ended_unserved (s := .canceled) keepPollingAfterAnswer (hread.trans (report_reported ..)) trivial (by decide)
  · have hcreating : Says [.creatingSession] {} (report (read e {}) .creatingSession "") :=
      hread.trans (report_reported ..)
    have hreply := Unsaid.silently
      (createSession_silently e base (report (read e {}) .creatingSession "") clientName)
    split at h
    · next r' hr' =>
      cases h
      rw [hr'] at hreply
      obtain ⟨last, hlast⟩ := fail_reported e r' r'.error "session creation failed"
      refine ended_unserved (s := .refused last) keepPollingAfterAnswer ((hcreating.trans hreply.reported).trans hlast)
        trivial ?_
      cases last <;> decide
    · next session r' hr' =>
      rw [hr'] at hreply
      exact serve_reports base keepPollingAfterAnswer session (hcreating.trans hreply.reported) h

/-- `slowOffer`'s session, with an offer at once and no objection to the answer. -/
def willing : Env where
  cancel _ := false
  perform n q :=
    if q.method = ascii "POST" then slowOffer.perform n q
    else if q.method = ascii "GET" then
      .ok { status := 200, body := ascii "\x7b\"type\":\"offer\",\"sdp\":\"v=0\"\x7d" }
    else .ok { status := 204 }
  makeAnswer _ _ _ := some (ascii "v=0")
  now _ t := t

theorem phase_protocol_willing :
    ∃ r, run willing (ascii "https://example.test") false (ascii "receiver") 1 = some r ∧
      phases r.log = (Shape.served 1 .quiet).phases ∧ Protocol false r.log := by
  have hphases : (run willing (ascii "https://example.test") false (ascii "receiver") 1).map (fun r => phases r.log) =
      some (Shape.served 1 .quiet).phases := by decide +kernel
  obtain ⟨r, hr, hp⟩ := Option.map_eq_some_iff.mp hphases
  exact ⟨r, hr, hp, phase_protocol willing _ _ false 1 r hr⟩

end KmVirtualCamera.L4.SignalingRun
