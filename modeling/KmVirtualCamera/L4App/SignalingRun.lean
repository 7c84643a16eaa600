import Mathlib
import KmVirtualCamera.L1Encoding.SessionCodec
import KmVirtualCamera.L4App.SignalingWorker

/-!
# One run of the signaling worker (`SignalingWorker::run`)

The whole run, statement by statement: the session is created, its offer polled
on the server's cadence, an answer made and put, and in between the worker
sleeps in slices of 20 ms. `L4.SignalingWorker` is the loop's protocol without
the clock; this is the thread.

`Env` is what the run cannot decide. It is asked once an operation, and `n`
counts the operations: whether `cancel` came in before this read of
`cancelRequested_`, what the transport replies (an exception is its text), what
`makeAnswer` returns, and what the clock shows, which may also follow the sleep
the worker has asked for. The callbacks are set. `log` is what the run has done;
times are nanoseconds as `Int`, and two readings of a clock are not 2^63 ns apart.
-/
namespace KmVirtualCamera.L4.SignalingRun
open L1.H264 (Bytes)
open L1.Json (ascii quote)
open L1.SessionCodec
open L4.SignalingWorker (SignalingPhase)

/-- mirrors shared/km/receiver_contracts.h:30-35 -/
structure HttpRequest where
  method : Bytes
  url : Bytes
  body : Bytes
  headers : List (Bytes × Bytes)
  timeoutMs : UInt32 := 10000
  maxResponseBytes : Nat := 1024 * 1024

/-- mirrors shared/km/receiver_contracts.h:36-40 -/
structure HttpResponse where
  status : Int := 0
  body : Bytes := []
  error : String := ""

structure Env where
  cancel : Nat → Bool
  perform : Nat → HttpRequest → Except String HttpResponse
  makeAnswer : Nat → Bytes → CreateSessionResponse → Option Bytes
  /-- the reading after `n` operations and `t` ns of requested sleep -/
  now : Nat → Int → Int

inductive Event where
  | phase (phase : SignalingPhase) (detail : String)
  | sessionCreated (session : CreateSessionResponse)
  | request (request : HttpRequest)
  | makeAnswer (offer : Bytes)
  /-- `cancelRequested_` was read and is set -/
  | canceled
  /-- `PollOffer`, in an iteration that began at `elapsedMs` -/
  | poll (elapsedMs intervalMs : Int)
  /-- the interval that iteration goes on with -/
  | paced (elapsedMs intervalMs : Int)

structure Run where
  n : Nat := 0
  /-- requested sleep -/
  slept : Int := 0
  cancelRequested : Bool := false
  /-- `client_.error_` -/
  error : String := ""
  log : List Event := []

def Run.op (r : Run) : Run := { r with n := r.n + 1 }

def Run.emit (r : Run) (ev : Event) : Run := { r with log := r.log ++ [ev] }

/-- mirrors shared/receiver/signaling/signaling_worker.cpp:119-121 -/
def report (r : Run) (phase : SignalingPhase) (detail : String) : Run := r.emit (.phase phase detail)

/-- A read of `cancelRequested_`. Nothing clears it during a run. -/
def read (e : Env) (r : Run) : Run :=
  let cancelRequested := r.cancelRequested || e.cancel r.n
  let r := { r.op with cancelRequested := cancelRequested }
  if cancelRequested then r.emit .canceled else r

/-- mirrors shared/receiver/signaling/signaling_worker.cpp:123-126 -/
def fail (e : Env) (r : Run) (error fallback : String) : Run :=
  let r := read e r
  if r.cancelRequested then report r .canceled ""
  else report r .failed (if error = "" then fallback else error)

/-! ## `SessionClient` -/

/-- mirrors shared/receiver/signaling/session_client.h:39-50 -/
def request (e : Env) (base : Bytes) (r : Run) (method path token body : Bytes) :
    Except String HttpResponse × Run :=
  let r := { r with error := "" }
  if !safeHeader token || token.length > 8192 then
    (.ok { error := "invalid bearer token" }, { r with error := "invalid bearer token" })
  else
    let request : HttpRequest :=
      { method := method, url := base ++ path, body := body
        headers := [(ascii "Accept", ascii "application/json")] ++
          (if body.isEmpty then [] else [(ascii "Content-Type", ascii "application/json")]) ++
          (if token.isEmpty then [] else [(ascii "Authorization", ascii "Bearer " ++ token)]) }
    let reply := e.perform r.n request
    let r := (r.emit (.request request)).op
    match reply with
    | .error what => (.error what, r)
    | .ok response =>
      let response : HttpResponse :=
        if response.body.length > request.maxResponseBytes then
          { error := "response exceeds byte limit" }
        else response
      (.ok response, { r with error := response.error })

/-- `catch (const std::exception& e) { error_ = e.what(); return {}; }` -/
def caught {α : Type} (x : Except String α) (r : Run) : Option α × Run :=
  match x with
  | .ok a => (some a, r)
  | .error what => (none, { r with error := what })

/-- The reply's body, decoded, when its status is the expected one. -/
def decoded {α : Type} (status : Int) (decode : Bytes → Except String α)
    (reply : Except String HttpResponse × Run) : Option α × Run :=
  match caught reply.1 reply.2 with
  | (none, r) => (none, r)
  | (some response, r) =>
    if response.status ≠ status then (none, r) else caught (decode response.body) r

/-- mirrors shared/receiver/signaling/session_client.h:13-19 -/
def createSession (e : Env) (base : Bytes) (r : Run) (name : Bytes) :
    Option CreateSessionResponse × Run :=
  match caught (quote name) r with
  | (none, r) => (none, r)
  | (some name, r) =>
    decoded 201 decodeSession (request e base r (ascii "POST") (ascii "/v1/sessions") []
      (ascii "\x7b\"client\":\x7b\"name\":" ++ name ++ ascii ",\"version\":\"0.2.0\"\x7d\x7d"))

/-- mirrors shared/receiver/signaling/session_client.h:20-27 -/
def pollOffer (e : Env) (base : Bytes) (r : Run) (id token : Bytes) :
    Option OfferDescription × Run :=
  if !safeSessionId id then (none, { r with error := "invalid session ID" })
  else decoded 200 decodeOffer
    (request e base r (ascii "GET") (ascii "/v1/sessions/" ++ id ++ ascii "/offer") token [])

/-- mirrors shared/receiver/signaling/session_client.h:28-32 -/
def putAnswer (e : Env) (base : Bytes) (r : Run) (id token sdp : Bytes) : Bool × Run :=
  if !safeSessionId id || sdp.isEmpty || sdp.length > 512 * 1024 then (false, r)
  else
    match caught (quote sdp) r with
    | (none, r) => (false, r)
    | (some text, r) =>
      let reply := request e base r (ascii "PUT") (ascii "/v1/sessions/" ++ id ++ ascii "/answer") token
        (ascii "\x7b\"type\":\"answer\",\"sdp\":" ++ text ++ ascii "\x7d")
      match caught reply.1 reply.2 with
      | (none, r) => (false, r)
      | (some response, r) => (response.status == 204, r)

/-! ## `run` -/

/-- What a run's loop keeps from one iteration to the next. -/
structure Head where
  run : Run
  intervalMs : Int
  answered : Bool := false
  answeredOfferSdp : Bytes := []

inductive Next where
  /-- goes on behind the statement -/
  | again (head : Head)
  /-- `run` has returned -/
  | returned (run : Run)

/-- A new offer is answered.
mirrors shared/receiver/signaling/signaling_worker.cpp:92-107 -/
def answer (e : Env) (base : Bytes) (session : CreateSessionResponse) (keepPollingAfterAnswer : Bool)
    (h : Head) (offer : Bytes) : Next :=
  let r := report h.run .generatingAnswer ""
  let answer := e.makeAnswer r.n offer session
  let r := read e (r.emit (.makeAnswer offer)).op
  if r.cancelRequested then .returned (report r .canceled "")
  else
    match answer with
    | none => .returned (report r .failed "answer generation failed")
    | some answer =>
      if answer.isEmpty then .returned (report r .failed "answer generation failed")
      else
        let r := report r .sendingAnswer ""
        match putAnswer e base r session.sessionId session.receiverToken answer with
        | (false, r) => .returned (fail e r r.error "answer send failed")
        | (true, r) =>
          let r := report r .succeeded ""
          if keepPollingAfterAnswer then
            .again { h with run := r, answered := true, answeredOfferSdp := offer }
          else .returned r

/-- `if (offer && !cancelRequested_ && offer->sdp != answeredOfferSdp)`
mirrors shared/receiver/signaling/signaling_worker.cpp:91-108 -/
def offered (e : Env) (base : Bytes) (session : CreateSessionResponse) (keepPollingAfterAnswer : Bool)
    (h : Head) (offer : Option OfferDescription) : Next :=
  match offer with
  | none => .again h
  | some offer =>
    let r := read e h.run
    if r.cancelRequested then .again { h with run := r }
    else if offer.sdp = h.answeredOfferSdp then .again { h with run := r }
    else answer e base session keepPollingAfterAnswer { h with run := r } offer.sdp

/-- mirrors shared/receiver/signaling/signaling_worker.cpp:113-114 -/
def pause (e : Env) (intervalMs slept : Int) (r : Run) : Run :=
  if slept < intervalMs then
    let r := read e r
    if r.cancelRequested then r
    else pause e intervalMs (slept + 20) { r.op with slept := r.slept + 20000000 }
  else r
termination_by (intervalMs - slept).toNat

/-- mirrors shared/receiver/signaling/signaling_worker.cpp:111-112 -/
def backoff (poll : PollPolicy) (elapsedMs intervalMs : Int) : Int :=
  if elapsedMs > poll.backoffAfterMs.toNat then min (intervalMs + 500) poll.maxIntervalMs.toNat
  else intervalMs

/-- From `if (cancelRequested_) break` to the end of the iteration.
mirrors shared/receiver/signaling/signaling_worker.cpp:109-114,116 -/
def rest (e : Env) (poll : PollPolicy) (elapsedMs : Int) (h : Head) : Next :=
  let r := read e h.run
  if r.cancelRequested then .returned (report r .canceled "")
  else
    let intervalMs := backoff poll elapsedMs h.intervalMs
    let r := pause e intervalMs 0 (r.emit (.paced elapsedMs intervalMs))
    .again { h with run := r, intervalMs := intervalMs }

/-- The body of the loop.
mirrors shared/receiver/signaling/signaling_worker.cpp:77-114 -/
def iteration (e : Env) (base : Bytes) (session : CreateSessionResponse) (keepPollingAfterAnswer : Bool)
    (begin : Int) (h : Head) : Next :=
  let elapsedMs := (e.now h.run.n h.run.slept - begin).tdiv 1000000
  let r := h.run.op
  if elapsedMs ≥ session.poll.timeoutMs.toNat then
    .returned (if h.answered then r else report r .timedOut "")
  else
    let (offer, r) := pollOffer e base (r.emit (.poll elapsedMs h.intervalMs))
      session.sessionId session.receiverToken
    match offered e base session keepPollingAfterAnswer { h with run := r } offer with
    | .returned r => .returned r
    | .again h => rest e session.poll elapsedMs h

/-- `while (!cancelRequested_)`
mirrors shared/receiver/signaling/signaling_worker.cpp:76-116 -/
def loop (e : Env) (base : Bytes) (session : CreateSessionResponse) (keepPollingAfterAnswer : Bool)
    (begin : Int) : Nat → Head → Option Run
  | 0, _ => none
  | fuel + 1, h =>
    let r := read e h.run
    if r.cancelRequested then some (report r .canceled "")
    else
      match iteration e base session keepPollingAfterAnswer begin { h with run := r } with
      | .returned r => some r
      | .again h => loop e base session keepPollingAfterAnswer begin fuel h

/-- The session is created.
mirrors shared/receiver/signaling/signaling_worker.cpp:67-116 -/
def serve (e : Env) (base : Bytes) (session : CreateSessionResponse) (keepPollingAfterAnswer : Bool)
    (fuel : Nat) (r : Run) : Option Run :=
  let r := read e r
  if r.cancelRequested then some (report r .canceled "")
  else
    let r := (report r .sessionCreated "").emit (.sessionCreated session)
    let r := report r .waitingForOffer ""
    loop e base session keepPollingAfterAnswer (e.now r.n r.slept) fuel
      { run := r.op, intervalMs := session.poll.initialIntervalMs.toNat }

/-- mirrors shared/receiver/signaling/signaling_worker.cpp:57-117 -/
def run (e : Env) (base : Bytes) (keepPollingAfterAnswer : Bool) (clientName : Bytes) (fuel : Nat) :
    Option Run :=
  let r := read e {}
  if r.cancelRequested then some (report r .canceled "")
  else
    match createSession e base (report r .creatingSession "") clientName with
    | (none, r) => some (fail e r r.error "session creation failed")
    | (some session, r) => serve e base session keepPollingAfterAnswer fuel r

/-! ## What a request does to the run -/

/-- The steps a call of the client is made of. Nothing is put once a
cancellation has been seen. -/
inductive Micro (e : Env) : Run → Run → Prop
  | op (r : Run) : Micro e r r.op
  | error (r : Run) (error : String) : Micro e r { r with error := error }
  | read (r : Run) : Micro e r (read e r)
  | request (r : Run) (q : HttpRequest) (h : q.method = ascii "PUT" → r.cancelRequested = false) :
      Micro e r (r.emit (.request q))

abbrev Silently (e : Env) : Run → Run → Prop := Relation.ReflTransGen (Micro e)

variable (e : Env) (base : Bytes)

theorem request_silently {r : Run} {method : Bytes} (path token body : Bytes)
    (h : method = ascii "PUT" → r.cancelRequested = false) :
    Silently e r (request e base r method path token body).2 := by
  have hcleared : Silently e r { r with error := "" } := .single (.error r "")
  unfold request
  dsimp only
  split
  · exact hcleared.tail (.error _ _)
  · have hsent : ∀ q : HttpRequest, q.method = method →
        Silently e r (({ r with error := "" } : Run).emit (.request q)).op := fun q hq =>
      (hcleared.tail (.request _ q fun hput => h (hq ▸ hput))).tail (.op _)
    split
    · exact hsent _ rfl
    · exact (hsent _ rfl).tail (.error _ _)

theorem caught_silently {α : Type} (x : Except String α) (r : Run) : Silently e r (caught x r).2 := by
  cases x with
  | ok a => exact .refl
  | error what => exact .single (.error r what)

theorem decoded_silently {α : Type} {status : Int} {decode : Bytes → Except String α} {r : Run}
    {reply : Except String HttpResponse × Run} (h : Silently e r reply.2) :
    Silently e r (decoded status decode reply).2 := by
  have hcaught := caught_silently e reply.1 reply.2
  unfold decoded
  split
  · next hc => exact h.trans (by rw [hc] at hcaught; exact hcaught)
  · next hc =>
    rw [hc] at hcaught
    split
    · exact h.trans hcaught
    · exact (h.trans hcaught).trans (caught_silently e _ _)

theorem pollOffer_silently (r : Run) (id token : Bytes) :
    Silently e r (pollOffer e base r id token).2 := by
  unfold pollOffer
  split
  · exact .single (.error r _)
  · exact decoded_silently e (request_silently e base _ _ _ fun hput => absurd hput (by decide))

theorem createSession_silently (r : Run) (name : Bytes) :
    Silently e r (createSession e base r name).2 := by
  have hcaught := caught_silently e (quote name) r
  unfold createSession
  split
  · next hc => rw [hc] at hcaught; exact hcaught
  · next hc =>
    rw [hc] at hcaught
    exact decoded_silently e (hcaught.trans (request_silently e base _ _ _ fun hput => absurd hput (by decide)))

theorem caught_cancelRequested {α : Type} (x : Except String α) (r : Run) :
    (caught x r).2.cancelRequested = r.cancelRequested := by
  cases x <;> rfl

theorem putAnswer_silently {r : Run} (id token sdp : Bytes) (h : r.cancelRequested = false) :
    Silently e r (putAnswer e base r id token sdp).2 := by
  unfold putAnswer
  split
  · exact .refl
  · have hcaught := caught_silently e (quote sdp) r
    have hflag := caught_cancelRequested (quote sdp) r
    split
    · next hc => rw [hc] at hcaught; exact hcaught
    · next r₁ hc =>
      rw [hc] at hcaught hflag
      dsimp only
      generalize hreply : request e base r₁ _ _ token _ = reply
      have hsent : Silently e r reply.2 :=
        hreply ▸ hcaught.trans (request_silently e base _ _ _ fun _ => hflag.trans h)
      have hcaught' := caught_silently e reply.1 reply.2
      split
      · next hc' => rw [hc'] at hcaught'; exact hsent.trans hcaught'
      · next hc' => rw [hc'] at hcaught'; exact hsent.trans hcaught'

end KmVirtualCamera.L4.SignalingRun
