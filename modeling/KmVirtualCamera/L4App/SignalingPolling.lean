import Mathlib
import KmVirtualCamera.L4App.SignalingRun

/-!
# The poll loop ends, and polls no faster than the server asked

The loop has no counter. What bounds it is the sleep: the limits `decodeSession`
puts on the policy make every interval at least `initialIntervalMs` long, an
iteration that is not cancelled asks for that much sleep, and the clock shows
it at the next look (`Env.Steady`). So the `k`-th iteration begins `k` intervals
after the first at the earliest (`Paced.slept`), and polls only before
`timeoutMs`.

The one hypothesis is on the clock:

* `Env.Steady`: a later reading is not smaller, and shows all the sleep that was
  asked for in between.
-/
namespace KmVirtualCamera.L4.SignalingRun
open L1.H264 (Bytes)
open L1.Json (ascii)
open L1.SessionCodec
open L4.SignalingWorker (SignalingPhase)

/-- The clock never goes back and advances by at least each requested sleep. -/
def Env.Steady (e : Env) : Prop :=
  ∀ m n s t, m ≤ n → s ≤ t → e.now m s + (t - s) ≤ e.now n t

/-- The interval, and when the iteration began that has it. -/
structure Sample where
  elapsedMs : Int
  intervalMs : Int
  deriving DecidableEq

def Event.sample : Event → Option Sample
  | .poll elapsedMs intervalMs => some ⟨elapsedMs, intervalMs⟩
  | .paced elapsedMs intervalMs => some ⟨elapsedMs, intervalMs⟩
  | _ => none

def samples (log : List Event) : List Sample := log.filterMap Event.sample

def Event.isPoll : Event → Bool
  | .poll .. => true
  | _ => false

def polls (log : List Event) : Nat := log.countP Event.isPoll

@[simp] theorem samples_append (log : List Event) (ev : Event) :
    samples (log ++ [ev]) = samples log ++ ev.sample.toList := by
  cases h : ev.sample <;> simp [samples, h]

@[simp] theorem polls_append (log : List Event) (ev : Event) :
    polls (log ++ [ev]) = polls log + if ev.isPoll then 1 else 0 := by
  simp [polls, List.countP_append, List.countP_cons]

/-- From one sample to the next the interval does not shrink, and it changes
only inside an iteration that began later than `backoffAfterMs`. -/
def Grows (p : PollPolicy) (a b : Sample) : Prop :=
  a.intervalMs ≤ b.intervalMs ∧
    (a.intervalMs ≠ b.intervalMs → a.elapsedMs = b.elapsedMs ∧ p.backoffAfterMs.toNat < b.elapsedMs)

/-- All intervals of a run, from `initialIntervalMs` on. -/
def intervals (p : PollPolicy) (log : List Event) : List Sample :=
  ⟨0, p.initialIntervalMs.toNat⟩ :: samples log

structure Bounded (p : PollPolicy) (log : List Event) : Prop where
  polls : polls log ≤ p.timeoutMs.toNat ⌈/⌉ p.initialIntervalMs.toNat
  within : ∀ s ∈ intervals p log,
    (p.initialIntervalMs.toNat : Int) ≤ s.intervalMs ∧ s.intervalMs ≤ p.maxIntervalMs.toNat
  sorted : ((intervals p log).map Sample.intervalMs).Pairwise (· ≤ ·)
  late : (intervals p log).IsChain (Grows p)

/-! ## Steps that do not poll -/

/-- `r'` comes later in the run and has not touched the cadence. -/
structure Quiet (r r' : Run) : Prop where
  n : r.n ≤ r'.n
  slept : r.slept ≤ r'.slept
  canceled : r.cancelRequested = true → r'.cancelRequested = true
  samples : samples r'.log = samples r.log
  polls : polls r'.log = polls r.log

theorem Quiet.refl (r : Run) : Quiet r r := ⟨le_rfl, le_rfl, id, rfl, rfl⟩

theorem Quiet.trans {a b c : Run} (h : Quiet a b) (h' : Quiet b c) : Quiet a c :=
  ⟨h.n.trans h'.n, h.slept.trans h'.slept, fun hc => h'.canceled (h.canceled hc),
    h'.samples.trans h.samples, h'.polls.trans h.polls⟩

theorem Quiet.emit (r : Run) {ev : Event} (h : ev.sample = none) (h' : ev.isPoll = false) :
    Quiet r (r.emit ev) := by
  refine ⟨le_rfl, le_rfl, id, ?_, ?_⟩ <;> simp [Run.emit, h, h']

theorem Quiet.op (r : Run) : Quiet r r.op := ⟨Nat.le_succ _, le_rfl, id, rfl, rfl⟩

theorem Quiet.error (r : Run) (error : String) : Quiet r { r with error := error } :=
  ⟨le_rfl, le_rfl, id, rfl, rfl⟩

variable (e : Env) (base : Bytes)

theorem report_quiet (r : Run) (phase : SignalingPhase) (detail : String) :
    Quiet r (report r phase detail) := Quiet.emit r rfl rfl

theorem read_quiet (r : Run) : Quiet r (read e r) := by
  unfold read
  dsimp only
  have hset : Quiet r { r.op with cancelRequested := r.cancelRequested || e.cancel r.n } :=
    ⟨Nat.le_succ _, le_rfl, fun h => by simp [h], rfl, rfl⟩
  split
  · exact hset.trans (Quiet.emit _ rfl rfl)
  · exact hset

theorem fail_quiet (r : Run) (error fallback : String) : Quiet r (fail e r error fallback) := by
  unfold fail
  dsimp only
  split <;> exact (read_quiet e r).trans (report_quiet ..)

theorem Micro.quiet {r r' : Run} (h : Micro e r r') : Quiet r r' := by
  cases h with
  | op => exact Quiet.op r
  | error error => exact Quiet.error r error
  | read => exact read_quiet e r
  | request q _ => exact Quiet.emit r rfl rfl

theorem Quiet.silently {e : Env} {r r' : Run} (h : Silently e r r') : Quiet r r' := by
  induction h with
  | refl => exact Quiet.refl r
  | tail _ hstep ih => exact ih.trans (hstep.quiet e)

/-- The same, for the part of an iteration that may answer. -/
def Next.Quiet (h : Head) : Next → Prop
  | .again h' => SignalingRun.Quiet h.run h'.run ∧ h'.intervalMs = h.intervalMs
  | .returned r => SignalingRun.Quiet h.run r

variable (session : CreateSessionResponse) (keepPollingAfterAnswer : Bool)

theorem answer_quiet (h : Head) (offer : Bytes) :
    (answer e base session keepPollingAfterAnswer h offer).Quiet h := by
  unfold answer
  dsimp only
  set r₁ := report h.run .generatingAnswer ""
  set r₂ := read e (r₁.emit (.makeAnswer offer)).op
  have h₂ : Quiet h.run r₂ :=
    (((report_quiet ..).trans (Quiet.emit r₁ rfl rfl)).trans (Quiet.op _)).trans (read_quiet e _)
  split
  · exact h₂.trans (report_quiet ..)
  · next hc =>
    split
    · exact h₂.trans (report_quiet ..)
    · next answer _ =>
      split
      · exact h₂.trans (report_quiet ..)
      · have hput := putAnswer_silently e base (r := report r₂ .sendingAnswer "") session.sessionId
          session.receiverToken answer (Bool.eq_false_iff.2 hc)
        have h₃ := (h₂.trans (report_quiet r₂ .sendingAnswer "")).trans (Quiet.silently hput)
        split
        · next r hr =>
          rw [hr] at h₃
          exact h₃.trans (fail_quiet ..)
        · next r hr =>
          rw [hr] at h₃
          split
          · exact ⟨h₃.trans (report_quiet ..), rfl⟩
          · exact h₃.trans (report_quiet ..)

theorem offered_quiet (h : Head) (offer : Option OfferDescription) :
    (offered e base session keepPollingAfterAnswer h offer).Quiet h := by
  have hread := read_quiet e h.run
  unfold offered
  split
  · exact ⟨Quiet.refl _, rfl⟩
  · next offer =>
    dsimp only
    split
    · exact ⟨hread, rfl⟩
    · split
      · exact ⟨hread, rfl⟩
      · have ha := answer_quiet e base session keepPollingAfterAnswer
          { h with run := read e h.run } offer.sdp
        generalize answer e base session keepPollingAfterAnswer { h with run := read e h.run } offer.sdp
          = next at ha
        cases next with
        | again h' => exact ⟨hread.trans ha.1, ha.2⟩
        | returned r => exact hread.trans ha

/-! ## The sleep -/

theorem pause_quiet (intervalMs slept : Int) (r : Run) : Quiet r (pause e intervalMs slept r) := by
  fun_induction pause e intervalMs slept r with
  | case1 slept r hlt r' hc => exact read_quiet e r
  | case2 slept r hlt r' hc ih =>
    have hslice : Quiet r' { r'.op with slept := r'.slept + 20000000 } :=
      ⟨Nat.le_succ _, by dsimp only; omega, id, rfl, rfl⟩
    exact ((read_quiet e r).trans hslice).trans ih
  | case3 => exact Quiet.refl _

/-- What is left of the interval is slept, or the run is cancelled. -/
theorem pause_slept (intervalMs slept : Int) (r : Run) :
    (pause e intervalMs slept r).cancelRequested = true ∨
      r.slept + (intervalMs - slept) * 1000000 ≤ (pause e intervalMs slept r).slept := by
  fun_induction pause e intervalMs slept r with
  | case1 slept r hlt r' hc => exact .inl hc
  | case2 slept r hlt r' hc ih =>
    have hread : r.slept ≤ r'.slept := (read_quiet e r).slept
    refine ih.imp_right ?_
    intro ih
    dsimp only at ih ⊢
    omega
  | case3 slept r hlt => right; omega

/-! ## One iteration -/

/-- What the log says of the cadence so far. -/
structure Kept (p : PollPolicy) (log : List Event) : Prop where
  few : polls log * p.initialIntervalMs.toNat < p.timeoutMs.toNat + p.initialIntervalMs.toNat
  within : ∀ s ∈ intervals p log,
    (p.initialIntervalMs.toNat : Int) ≤ s.intervalMs ∧ s.intervalMs ≤ p.maxIntervalMs.toNat
  late : (intervals p log).IsChain (Grows p)

variable {e} {p : PollPolicy} {log : List Event} {elapsedMs intervalMs : Int}

theorem intervals_append (ev : Event) :
    intervals p (log ++ [ev]) = intervals p log ++ ev.sample.toList := by
  simp [intervals]

theorem Kept.quiet {r r' : Run} (h : Kept p r.log) (hq : Quiet r r') : Kept p r'.log := by
  have hi : intervals p r'.log = intervals p r.log := by simp [intervals, hq.samples]
  exact ⟨by rw [hq.polls]; exact h.few, by rw [hi]; exact h.within, by rw [hi]; exact h.late⟩

theorem Kept.append {ev : Event} {b : Sample} (h : Kept p log) (hev : ev.sample = some b)
    (hfew : polls (log ++ [ev]) * p.initialIntervalMs.toNat <
      p.timeoutMs.toNat + p.initialIntervalMs.toNat)
    (hb : (p.initialIntervalMs.toNat : Int) ≤ b.intervalMs ∧ b.intervalMs ≤ p.maxIntervalMs.toNat)
    (hlast : ∀ a ∈ (intervals p log).getLast?, Grows p a b) : Kept p (log ++ [ev]) := by
  have hi : intervals p (log ++ [ev]) = intervals p log ++ [b] := by rw [intervals_append, hev]; rfl
  refine ⟨hfew, ?_, ?_⟩
  · rw [hi]
    intro s hs
    rcases List.mem_append.1 hs with hs | hs
    · exact h.within s hs
    · rwa [List.mem_singleton.1 hs]
  · rw [hi]
    exact List.isChain_append.2 ⟨h.late, .singleton b, by simpa using hlast⟩

/-- The last interval is in force. -/
def InForce (p : PollPolicy) (log : List Event) (intervalMs : Int) : Prop :=
  ∀ a ∈ (intervals p log).getLast?, a.intervalMs = intervalMs

theorem Kept.bounds (h : Kept p log) (hi : InForce p log intervalMs) :
    (p.initialIntervalMs.toNat : Int) ≤ intervalMs ∧ intervalMs ≤ p.maxIntervalMs.toNat := by
  have hne : intervals p log ≠ [] := List.cons_ne_nil _ _
  have hlast := List.getLast?_eq_some_getLast hne
  have heq := hi _ hlast
  exact heq ▸ h.within _ (List.getLast_mem hne)

theorem Kept.poll (h : Kept p log) (hi : InForce p log intervalMs)
    (hle : ((polls log * p.initialIntervalMs.toNat : Nat) : Int) ≤ elapsedMs)
    (hlt : elapsedMs < p.timeoutMs.toNat) : Kept p (log ++ [.poll elapsedMs intervalMs]) := by
  refine h.append rfl ?_ (h.bounds hi) ?_
  · have hpolls : polls (log ++ [.poll elapsedMs intervalMs]) = polls log + 1 := by
      simp [Event.isPoll]
    rw [hpolls, Nat.add_mul, Nat.one_mul]
    omega
  · intro a ha
    have heq := hi a ha
    exact ⟨heq.le, fun hne => absurd heq hne⟩

theorem backoff_bounds (elapsedMs : Int) (h : intervalMs ≤ p.maxIntervalMs.toNat) :
    intervalMs ≤ backoff p elapsedMs intervalMs ∧
      backoff p elapsedMs intervalMs ≤ p.maxIntervalMs.toNat := by
  unfold backoff
  split <;> omega

theorem backoff_late (h : intervalMs ≠ backoff p elapsedMs intervalMs) :
    p.backoffAfterMs.toNat < elapsedMs := by
  unfold backoff at h
  split at h
  · next hlt => exact hlt
  · exact absurd rfl h

theorem Kept.paced (h : Kept p log) (hi : (intervals p log).getLast? = some ⟨elapsedMs, intervalMs⟩) :
    Kept p (log ++ [.paced elapsedMs (backoff p elapsedMs intervalMs)]) := by
  have hforce : InForce p log intervalMs := fun a ha => by
    rw [hi] at ha
    cases ha
    rfl
  have hbounds := h.bounds hforce
  have hback := backoff_bounds elapsedMs hbounds.2
  refine h.append rfl ?_ ⟨hbounds.1.trans hback.1, hback.2⟩ ?_
  · simpa [Event.isPoll] using h.few
  · intro a ha
    rw [hi] at ha
    cases ha
    exact ⟨hback.1, fun hne => ⟨rfl, backoff_late hne⟩⟩

/-- The head of the loop, `begin` read after `m` operations and `s` ns of sleep. -/
structure Paced (p : PollPolicy) (m : Nat) (s : Int) (h : Head) : Prop extends Kept p h.run.log where
  later : m ≤ h.run.n
  /-- one interval of sleep a poll -/
  slept : h.run.cancelRequested = true ∨
    s + (polls h.run.log * p.initialIntervalMs.toNat : Nat) * 1000000 ≤ h.run.slept
  inForce : InForce p h.run.log h.intervalMs

theorem elapsed_ge (hs : e.Steady) {m n k : Nat} {s t : Int} (hm : m ≤ n)
    (hle : s + k * 1000000 ≤ t) : (k : Int) ≤ (e.now n t - e.now m s).tdiv 1000000 := by
  have hclock := hs m n s t hm (by omega)
  rw [Int.tdiv_eq_ediv_of_nonneg (by omega)]
  exact (Int.le_ediv_iff_mul_le (by decide)).2 (by omega)

theorem rest_kept {m k : Nat} {s : Int} {h : Head} (hk : Kept p h.run.log)
    (hi : (intervals p h.run.log).getLast? = some ⟨elapsedMs, h.intervalMs⟩) (hm : m ≤ h.run.n)
    (hpolls : polls h.run.log = k + 1)
    (hslept : s + (k * p.initialIntervalMs.toNat : Nat) * 1000000 ≤ h.run.slept) :
    match rest e p elapsedMs h with
    | .again h' => Paced p m s h' ∧ polls h'.run.log = k + 1
    | .returned r => Kept p r.log := by
  have hread := read_quiet e h.run
  unfold rest
  dsimp only
  split
  · next hc =>
    split at hc
    · cases hc
    · next hcan =>
      cases hc
      dsimp only
      have hi' : (intervals p (read e h.run).log).getLast? = some ⟨elapsedMs, h.intervalMs⟩ := by
        simpa [intervals, hread.samples] using hi
      have hpaced := (hk.quiet hread).paced hi'
      have hback := backoff_bounds elapsedMs (hk.within _ (List.mem_of_getLast? hi)).2
      set interval := backoff p elapsedMs h.intervalMs
      set r := (read e h.run).emit (.paced elapsedMs interval) with hr
      have hq := pause_quiet e interval 0 r
      have hp : polls (pause e interval 0 r).log = k + 1 := by
        rw [hq.polls, hr]
        simpa [Run.emit, Event.isPoll, hread.polls] using hpolls
      refine ⟨⟨hpaced.quiet hq, (hm.trans hread.n).trans hq.n, ?_, ?_⟩, hp⟩
      · refine (pause_slept e interval 0 r).imp_right ?_
        intro hsl
        have hfirst : (p.initialIntervalMs.toNat : Int) ≤ h.intervalMs :=
          (hk.within _ (List.mem_of_getLast? hi)).1
        have hgrown : h.intervalMs ≤ interval := hback.1
        have hrs : h.run.slept ≤ r.slept := hread.slept
        rw [hp, Nat.add_mul, Nat.one_mul]
        push_cast
        push_cast at hslept
        omega
      · intro a ha
        have hlog : intervals p (pause e interval 0 r).log = intervals p r.log := by
          simp [intervals, hq.samples]
        rw [hlog, hr, Run.emit, intervals_append] at ha
        simp [Event.sample] at ha
        rw [← ha]
  · next hc =>
    split at hc
    · cases hc
      exact (hk.quiet hread).quiet (report_quiet ..)
    · cases hc

theorem iteration_kept (hs : e.Steady) {m : Nat} {s : Int} {h : Head} (hp : Paced session.poll m s h)
    (hc : h.run.cancelRequested = false) :
    match iteration e base session keepPollingAfterAnswer (e.now m s) h with
    | .again h' => Paced session.poll m s h' ∧ polls h'.run.log = polls h.run.log + 1
    | .returned r => Kept session.poll r.log := by
  have hslept := hp.slept.resolve_left (by simp [hc])
  have helapsed := elapsed_ge hs hp.later hslept
  unfold iteration
  dsimp only
  set elapsedMs := (e.now h.run.n h.run.slept - e.now m s).tdiv 1000000
  set r₁ := h.run.op.emit (.poll elapsedMs h.intervalMs) with hr₁
  split_ifs with hout hans
  · exact hp.toKept.quiet (Quiet.op _)
  · exact (hp.toKept.quiet (Quiet.op _)).quiet (report_quiet ..)
  · have hpoll : Kept session.poll r₁.log := hp.toKept.poll hp.inForce helapsed (by omega)
    have hq := Quiet.silently (pollOffer_silently e base r₁ session.sessionId session.receiverToken)
    generalize pollOffer e base r₁ session.sessionId session.receiverToken = reply at hq
    have ho := offered_quiet e base session keepPollingAfterAnswer { h with run := reply.2 } reply.1
    generalize offered e base session keepPollingAfterAnswer { h with run := reply.2 } reply.1
      = next at ho
    cases next with
    | returned r => exact hpoll.quiet (hq.trans ho)
    | again h' =>
      have hq' : Quiet r₁ h'.run := hq.trans ho.1
      refine rest_kept (hpoll.quiet hq') ?_ ?_ ?_ ?_
      · have hlog : intervals session.poll h'.run.log = intervals session.poll r₁.log := by
          simp [intervals, hq'.samples]
        have hi : h'.intervalMs = h.intervalMs := ho.2
        rw [hlog, hr₁, Run.emit, intervals_append, hi]
        simp [Event.sample]
      · exact (hp.later.trans (Nat.le_succ _)).trans hq'.n
      · rw [hq'.polls, hr₁]
        simp [Run.emit, Run.op, Event.isPoll]
      · exact hslept.trans hq'.slept

/-! ## The run -/

/-- A run that has ended has not used up its fuel. -/
theorem loop_mono {begin : Int} {n m : Nat} {h : Head} {r : Run} (hle : n ≤ m)
    (hr : loop e base session keepPollingAfterAnswer begin n h = some r) :
    loop e base session keepPollingAfterAnswer begin m h = some r := by
  induction n generalizing m h with
  | zero => cases hr
  | succ n ih =>
    obtain ⟨k, rfl⟩ : ∃ k, m = k + 1 := ⟨m - 1, by omega⟩
    simp only [loop] at hr ⊢
    split
    · next hc => rwa [if_pos hc] at hr
    · next hc =>
      rw [if_neg hc] at hr
      split
      · next hi => rwa [hi] at hr
      · next hi =>
        rw [hi] at hr
        exact ih (by omega) hr

/-- Every iteration that goes on has polled, and there are few polls. -/
theorem loop_ends (hs : e.Steady) {m : Nat} {s : Int} {fuel : Nat} {h : Head}
    (hp : Paced session.poll m s h)
    (hfuel : session.poll.timeoutMs.toNat + session.poll.initialIntervalMs.toNat ≤
      (polls h.run.log + fuel) * session.poll.initialIntervalMs.toNat) :
    ∃ r, loop e base session keepPollingAfterAnswer (e.now m s) fuel h = some r ∧
      Kept session.poll r.log := by
  induction fuel generalizing h with
  | zero =>
    have hfew := hp.few
    rw [Nat.add_zero] at hfuel
    omega
  | succ fuel ih =>
    have hread := read_quiet e h.run
    have hkept := hp.toKept.quiet hread
    simp only [loop]
    split
    · exact ⟨_, rfl, hkept.quiet (report_quiet ..)⟩
    · next hc =>
      have hhead : Paced session.poll m s { h with run := read e h.run } := by
        refine ⟨hkept, hp.later.trans hread.n, .inr ?_, ?_⟩
        · dsimp only
          rw [hread.polls]
          exact (hp.slept.resolve_left fun hcan => hc (hread.canceled hcan)).trans hread.slept
        · simpa [InForce, intervals, hread.samples] using hp.inForce
      have hi := iteration_kept base session keepPollingAfterAnswer hs hhead (by simpa using hc)
      split
      · next hn =>
        rw [hn] at hi
        exact ⟨_, rfl, hi⟩
      · next hn =>
        rw [hn] at hi
        refine ih hi.1 ?_
        rw [hi.2]
        simp only [hread.polls]
        rwa [show polls h.run.log + 1 + fuel = polls h.run.log + (fuel + 1) by omega]

theorem Kept.bounded (hv : p.Valid) (h : Kept p log) : Bounded p log where
  polls := by
    have hslice := hv.slice
    rw [Nat.ceilDiv_eq_add_pred_div, Nat.le_div_iff_mul_le (by omega)]
    have hfew := h.few
    omega
  within := h.within
  sorted := by
    have hgrows : ((intervals p log).map Sample.intervalMs).IsChain (· ≤ ·) :=
      (List.isChain_map _).2 (h.late.imp fun _ _ hab => hab.1)
    exact List.isChain_iff_pairwise.1 hgrows
  late := h.late

theorem Kept.fresh (hv : p.Valid) (hsamples : samples log = []) (hpolls : polls log = 0) :
    Kept p log := by
  have hi : intervals p log = [⟨0, p.initialIntervalMs.toNat⟩] := by simp [intervals, hsamples]
  refine ⟨?_, ?_, by rw [hi]; exact .singleton _⟩
  · have hslice := hv.slice
    rw [hpolls]
    omega
  · intro s hs
    rw [hi] at hs
    rw [List.mem_singleton.1 hs]
    exact ⟨le_rfl, Int.ofNat_le.2 hv.initial⟩

/-- An hour of fuel is enough for an accepted session. -/
theorem serve_ends (hs : e.Steady) (hv : session.poll.Valid) {r : Run} (hsamples : samples r.log = [])
    (hpolls : polls r.log = 0) :
    ∃ r', (∀ fuel, 3600000 < fuel →
      serve e base session keepPollingAfterAnswer fuel r = some r') ∧ Kept session.poll r'.log := by
  have hread := read_quiet e r
  have hfresh : ∀ r', Quiet r r' → Kept session.poll r'.log := fun r' hq =>
    Kept.fresh hv (hq.samples.trans hsamples) (hq.polls.trans hpolls)
  by_cases hc : (read e r).cancelRequested = true
  · exact ⟨report (read e r) .canceled "", fun fuel _ => by simp [serve, hc],
      hfresh _ (hread.trans (report_quiet ..))⟩
  · set r₁ := report ((report (read e r) .sessionCreated "").emit (.sessionCreated session))
      .waitingForOffer "" with hr₁
    have hq : Quiet r r₁ := ((hread.trans (report_quiet ..)).trans (Quiet.emit _ rfl rfl)).trans
      (report_quiet ..)
    set h₁ : Head := { run := r₁.op, intervalMs := session.poll.initialIntervalMs.toNat } with hh₁
    have hzero : polls h₁.run.log = 0 := hq.polls.trans hpolls
    have hhead : Paced session.poll r₁.n r₁.slept h₁ := by
      refine ⟨hfresh _ (hq.trans (Quiet.op _)), Nat.le_succ _, .inr ?_, ?_⟩
      · rw [hzero]
        simp [h₁, Run.op]
      · intro a ha
        have hi : intervals session.poll h₁.run.log = [⟨0, session.poll.initialIntervalMs.toNat⟩] := by
          simp [intervals, h₁, Run.op, hq.samples, hsamples]
        rw [hi] at ha
        cases ha
        rfl
    have hfuel : session.poll.timeoutMs.toNat + session.poll.initialIntervalMs.toNat ≤
        (polls h₁.run.log + 3600001) * session.poll.initialIntervalMs.toNat := by
      have hslice := hv.slice
      have hhour := hv.hour
      have hmul : (session.poll.timeoutMs.toNat + 1) * session.poll.initialIntervalMs.toNat ≤
          3600001 * session.poll.initialIntervalMs.toNat := Nat.mul_le_mul_right _ (by omega)
      have hone : session.poll.timeoutMs.toNat ≤
          session.poll.timeoutMs.toNat * session.poll.initialIntervalMs.toNat :=
        Nat.le_mul_of_pos_right _ (by omega)
      rw [Nat.add_mul, Nat.one_mul] at hmul
      rw [hzero, Nat.zero_add]
      omega
    obtain ⟨r', hr', hkept⟩ := loop_ends base session keepPollingAfterAnswer hs hhead hfuel
    refine ⟨r', ?_, hkept⟩
    intro fuel hlt
    simp only [serve, if_neg hc]
    exact loop_mono base session keepPollingAfterAnswer hlt hr'

/-- The session a run is given, unless it was cancelled before it asked. -/
def created (e : Env) (base clientName : Bytes) : Option CreateSessionResponse :=
  let r := read e {}
  if r.cancelRequested then none
  else (createSession e base (report r .creatingSession "") clientName).1

theorem caught_some {α : Type} {x : Except String α} {r : Run} {a : α}
    (h : (caught x r).1 = some a) : x = .ok a := by
  cases x with
  | ok b => cases h; rfl
  | error what => cases h

theorem decoded_some {α : Type} {status : Int} {decode : Bytes → Except String α}
    {reply : Except String HttpResponse × Run} {a : α}
    (h : (decoded status decode reply).1 = some a) : ∃ body, decode body = .ok a := by
  unfold decoded at h
  split at h
  · cases h
  · next response r _ =>
    split at h
    · cases h
    · exact ⟨response.body, caught_some h⟩

theorem createSession_accepted {r : Run} {name : Bytes} {session : CreateSessionResponse}
    (h : (createSession e base r name).1 = some session) :
    ∃ body, decodeSession body = .ok session := by
  unfold createSession at h
  split at h
  · cases h
  · exact decoded_some h

/-- Every run ends; one that was given a session has polled at most once an
`initialIntervalMs` of its `timeoutMs`, on an interval that only grows, between
the two limits, and only after `backoffAfterMs`. -/
theorem polling_ends (e : Env) (base clientName : Bytes) (keepPollingAfterAnswer : Bool)
    (hs : e.Steady) :
    ∃ r, (∀ fuel, 3600000 < fuel → run e base keepPollingAfterAnswer clientName fuel = some r) ∧
      ∀ session, created e base clientName = some session → Bounded session.poll r.log := by
  by_cases hc : (read e {}).cancelRequested = true
  · refine ⟨report (read e {}) .canceled "", fun fuel _ => by simp [run, hc], fun session hsession => ?_⟩
    simp [created, hc] at hsession
  · have hcreate := Quiet.silently
      (createSession_silently e base (report (read e {}) .creatingSession "") clientName)
    rcases hreply : createSession e base (report (read e {}) .creatingSession "") clientName with ⟨_ | session, r⟩
    · refine ⟨fail e r r.error "session creation failed", fun fuel _ => by simp [run, hc, hreply],
        ?_⟩
      intro session hsession
      simp [created, hc, hreply] at hsession
    · rw [hreply] at hcreate
      have hq : Quiet {} r := ((read_quiet e {}).trans (report_quiet ..)).trans hcreate
      obtain ⟨body, hbody⟩ := createSession_accepted (e := e) base (by rw [hreply])
      have hv := decodeSession_poll hbody
      obtain ⟨r', hr', hkept⟩ := serve_ends base session keepPollingAfterAnswer hs hv hq.samples hq.polls
      refine ⟨r', ?_, ?_⟩
      · intro fuel hfuel
        simpa [run, hc, hreply] using hr' fuel hfuel
      · intro session' hsession
        have heq : session = session' := by simpa [created, hc, hreply] using hsession
        exact heq ▸ hkept.bounded hv

/-- A server whose only reply is a session, and a clock that shows the sleep alone. -/
def slowOffer : Env where
  cancel _ := false
  perform _ _ := .ok {
    status := 201
    body := ascii ("\x7b\"sessionId\":\"a\",\"receiverToken\":\"s\",\"joinUrl\":\"http://x\"," ++
      "\"expiresAt\":\"\",\"poll\":\x7b\"initialIntervalMs\":500,\"backoffAfterMs\":15000," ++
      "\"maxIntervalMs\":2000,\"timeoutMs\":60000\x7d,\"rtcConfiguration\":\x7b\"iceServers\":[]\x7d\x7d") }
  makeAnswer _ _ _ := none
  now _ t := t

theorem polling_ends_slowOffer :
    ∃ r session, created slowOffer (ascii "https://example.test") (ascii "receiver") = some session ∧
      (∀ fuel, 3600000 < fuel → run slowOffer (ascii "https://example.test") false (ascii "receiver") fuel =
        some r) ∧ Bounded session.poll r.log := by
  have hs : slowOffer.Steady := fun _ _ s t _ _ => by dsimp only [slowOffer]; omega
  have hcreated : (created slowOffer (ascii "https://example.test") (ascii "receiver")).isSome = true := by
    decide +kernel
  obtain ⟨session, hsession⟩ := Option.isSome_iff_exists.1 hcreated
  obtain ⟨r, hr, hbounded⟩ :=
    polling_ends slowOffer (ascii "https://example.test") (ascii "receiver") false hs
  exact ⟨r, session, hsession, hr, hbounded session hsession⟩

end KmVirtualCamera.L4.SignalingRun
