import Mathlib
import KmVirtualCamera.Core.LTS
import KmVirtualCamera.L1Encoding.HttpHeaders
import KmVirtualCamera.L4App.SignalingRun

/-!
# The HTTP transport of the macOS host (`UrlSessionTransport`)

`IHttpTransport` is one blocking call: the signaling worker sits in `perform`
until the response is whole, the deadline has passed or somebody cancels. Behind
it `NSURLSession` works on its own queue and calls a delegate, so a request is
many steps, and `cancel` and the deadline come in between any two of them.

`Answers` is the contract: what a response says about the exchange it stands
for. It does not mention a session; the other transport meets it as well.

The session keeps what it promises: it calls back only for a task that was
resumed, in one serial queue, and the last call of a task is its completion.
There is one thread in `perform`; response headers, which nobody reads, are left
out. A callback and the `cancel` it leads to are one step. `live`, `asked`,
`created`, `exchange` and `returned` are not in the code.

* `performed`: every response of every run meets the contract.
* `cancel_ends`: nothing begins after `cancel`, and the wait in `perform` ends.
-/
namespace KmVirtualCamera.L5
open L1.H264 (Bytes)
open L1.Json (ascii)
open L1.HttpHeaders (validHeader)
open L4.SignalingRun (HttpRequest HttpResponse)

/-! ## The contract -/

namespace Http

/-- What went over the wire for one request: the status lines, the lengths they
announced (if any), the data, and how it ended (`some true` if in order).
`interrupted`: it was cancelled, or its deadline passed, before it ended. -/
structure Exchange where
  statuses : List Int := []
  declared : List Nat := []
  data : List Bytes := []
  ended : Option Bool := none
  interrupted : Bool := false

/-- It came to its end undisturbed, and within the limit. -/
structure Exchange.Clean (limit : Nat) (x : Exchange) : Prop where
  ended : x.ended = some true
  undisturbed : x.interrupted = false
  announced : ∀ n ∈ x.declared, n ≤ limit
  received : x.data.flatten.length ≤ limit

/-- A response without an error is the whole of a clean exchange; any other is
empty. -/
structure Answers (limit : Nat) (x : Exchange) (r : HttpResponse) : Prop where
  clean : r.error = "" ↔ x.Clean limit
  whole : x.Clean limit → r.status = x.statuses.getLastD 0 ∧ r.body = x.data.flatten
  nothing : ¬ x.Clean limit → r.status = 0 ∧ r.body = []

theorem Answers.le {limit : Nat} {x : Exchange} {r : HttpResponse} (h : Answers limit x r) :
    r.body.length ≤ limit := by
  by_cases hx : x.Clean limit
  · rw [(h.whole hx).2]
    exact hx.received
  · rw [(h.nothing hx).2]
    exact Nat.zero_le limit

end Http

namespace UrlSession
open Http

/-! ## The transport -/

/-- What `NSURL` makes of a text; scheme and host in lower case. -/
structure NsUrl where
  scheme : Bytes
  host : Bytes
  user : Option Bytes := none
  password : Option Bytes := none

inductive NsError where
  | cancelled | timedOut
  | other (localizedDescription : String)

/-- mirrors macos/receiver/url_session_transport.mm:189-193 -/
structure Transport where
  task : Option Nat := none
  inflight : Bool := false
  failed : Bool := false
  cancelled : Bool := false
  status : Int := 0
  maxBytes : Nat := 0
  body : Bytes := []
  error : String := ""

/-- mirrors macos/receiver/url_session_transport.mm:87 -/
def loopback (host : Bytes) : Bool :=
  host == ascii "localhost" || host == ascii "127.0.0.1" || host == ascii "::1"

/-- The checks before a task is made, with what fails.
mirrors macos/receiver/url_session_transport.mm:76-100 -/
def refusal (parse : Bytes → Option NsUrl) (t : Transport) (request : HttpRequest) : Option String :=
  if t.cancelled then some "HTTP request cancelled"
  else if t.inflight then some "HTTP request busy"
  else if request.timeoutMs = 0 ∨ request.body.length > 1024 * 1024 ∨ request.url.length > 8192 ∨
      35 ∈ request.url then some "invalid HTTP request limits or URL"
  else match parse request.url with
  | none => some "invalid signaling URL"
  | some url =>
    if url.scheme = [] ∨ url.host = [] ∨ url.user.isSome ∨ url.password.isSome then
      some "invalid signaling URL"
    else if url.scheme ≠ ascii "https" ∧ ¬ (url.scheme = ascii "http" ∧ loopback url.host = true) then
      some "signaling requires HTTPS (except explicit loopback development)"
    else if request.headers.all validHeader then none
    else some "invalid HTTP header"

/-- mirrors macos/receiver/url_session_transport.mm:180-184 -/
def fail (message : String) : HttpResponse := { error := message }

/-- mirrors macos/receiver/url_session_transport.mm:105-113 -/
def Transport.resume (t : Transport) (task : Nat) (request : HttpRequest) : Transport :=
  { t with status := 0, body := [], error := "", maxBytes := request.maxResponseBytes, failed := false
           inflight := true, task := some task }

/-- mirrors macos/receiver/url_session_transport.mm:61-71 -/
def Transport.cancel (t : Transport) : Transport :=
  if t.inflight && !t.failed then
    { t with cancelled := true, status := 0, body := [], error := "HTTP request cancelled", failed := true }
  else { t with cancelled := true }

/-- mirrors macos/receiver/url_session_transport.mm:119-122 -/
def Transport.timeOut (t : Transport) : Transport :=
  { t with status := 0, body := [], error := "HTTP deadline exceeded", failed := true }

/-- What `perform` returns.
mirrors macos/receiver/url_session_transport.mm:127-135 -/
def Transport.response (t : Transport) : HttpResponse :=
  if t.error = "" then { status := t.status, body := t.body, error := t.error }
  else { error := t.error }

/-- mirrors macos/receiver/url_session_transport.mm:126,132-133 -/
def Transport.release (t : Transport) : Transport := { t with task := none, body := [], error := "" }

/-- mirrors macos/receiver/url_session_transport.mm:140-152 -/
def Transport.onResponse (t : Transport) (task : Nat) (statusCode declaredBytes : Int) : Transport × Bool :=
  if !t.inflight || t.task != some task || t.failed then (t, true)
  else
    let t := { t with status := statusCode }
    if 0 ≤ declaredBytes ∧ t.maxBytes < declaredBytes.toNat then
      ({ t with error := "HTTP response too large", failed := true }, true)
    else (t, false)

/-- mirrors macos/receiver/url_session_transport.mm:153-163 -/
def Transport.onData (t : Transport) (task : Nat) (bytes : Bytes) : Transport × Bool :=
  if !t.inflight || t.task != some task || t.failed then (t, true)
  else if t.maxBytes - t.body.length < bytes.length then
    ({ t with error := "HTTP response too large", failed := true }, true)
  else ({ t with body := t.body ++ bytes }, false)

/-- mirrors macos/receiver/url_session_transport.mm:170-172 -/
def NsError.message : NsError → String
  | .cancelled => "HTTP request cancelled"
  | .timedOut => "HTTP deadline exceeded"
  | .other localizedDescription => "HTTP request failed: " ++ localizedDescription

/-- mirrors macos/receiver/url_session_transport.mm:164-177 -/
def Transport.onComplete (t : Transport) (task : Nat) (error : Option NsError) : Transport :=
  if t.task ≠ some task then t
  else match error with
  | some e =>
    if t.failed then { t with inflight := false }
    else { t with status := 0, body := [], error := e.message, failed := true, inflight := false }
  | none => { t with inflight := false }

/-! ## The system -/

/-- Where the signaling worker is: not in `perform`; in its wait; in its wait
behind the deadline. -/
inductive Caller where
  | idle
  | waiting (request : HttpRequest)
  | draining (request : HttpRequest)

def Caller.request : Caller → Option HttpRequest
  | .idle => none
  | .waiting q | .draining q => some q

/-- What a call of `perform` has given: its request, its task if it made one. -/
structure Returned where
  request : HttpRequest
  task : Option Nat
  response : HttpResponse

/-- `live`: the tasks that are resumed and not complete; `asked`: those that were
cancelled; `created`: how many there have been; `wire t`: what the session has
said of task `t`. -/
structure System where
  transport : Transport := {}
  caller : Caller := .idle
  live : List Nat := []
  asked : List Nat := []
  created : Nat := 0
  wire : Nat → Exchange := fun _ => {}
  returned : List Returned := []

inductive Label where
  | perform (request : HttpRequest)
  | cancel
  | deadline
  | wake
  | response (task : Nat) (statusCode declaredBytes : Int)
  | data (task : Nat) (bytes : Bytes)
  | complete (task : Nat) (error : Option NsError)

namespace System

/-- What is on the wire is interrupted. -/
def interrupt (s : System) (t : Nat) : Exchange :=
  { s.wire t with interrupted := (s.wire t).interrupted || t ∈ s.live }

def perform (parse : Bytes → Option NsUrl) (s : System) (q : HttpRequest) : System :=
  match refusal parse s.transport q with
  | some message => { s with returned := s.returned ++ [⟨q, none, fail message⟩] }
  | none =>
    { s with transport := s.transport.resume s.created q, caller := .waiting q
             live := s.live ++ [s.created], created := s.created + 1 }

def cancel (s : System) : System :=
  { s with transport := s.transport.cancel, wire := s.interrupt
           asked := if s.transport.inflight && !s.transport.failed then s.asked ++ s.transport.task.toList
                    else s.asked }

/-- mirrors macos/receiver/url_session_transport.mm:117-124 -/
def timeOut (s : System) (q : HttpRequest) : System :=
  { s with transport := s.transport.timeOut, caller := .draining q, wire := s.interrupt
           asked := s.asked ++ s.transport.task.toList }

def wake (s : System) (q : HttpRequest) : System :=
  { s with transport := s.transport.release, caller := .idle
           returned := s.returned ++ [⟨q, s.transport.task, s.transport.response⟩] }

/-- mirrors macos/receiver/url_session_transport.mm:217-228 -/
def didReceiveResponse (s : System) (t : Nat) (statusCode declaredBytes : Int) : System :=
  let (transport, cancel) := s.transport.onResponse t statusCode declaredBytes
  let x := s.wire t
  { s with transport := transport, asked := if cancel then s.asked ++ [t] else s.asked
           wire := Function.update s.wire t
             { x with statuses := x.statuses ++ [statusCode]
                      declared := x.declared ++ (if 0 ≤ declaredBytes then [declaredBytes.toNat] else []) } }

/-- mirrors macos/receiver/url_session_transport.mm:229-239 -/
def didReceiveData (s : System) (t : Nat) (bytes : Bytes) : System :=
  let (transport, cancel) := s.transport.onData t bytes
  { s with transport := transport, asked := if cancel then s.asked ++ [t] else s.asked
           wire := Function.update s.wire t { s.wire t with data := (s.wire t).data ++ [bytes] } }

/-- mirrors macos/receiver/url_session_transport.mm:240-247 -/
def didComplete (s : System) (t : Nat) (error : Option NsError) : System :=
  { s with transport := s.transport.onComplete t error, live := s.live.erase t
           wire := Function.update s.wire t { s.wire t with ended := some error.isNone } }

end System

def next (parse : Bytes → Option NsUrl) (s : System) : Label → Option System
  | .perform q => match s.caller with
    | .idle => some (s.perform parse q)
    | _ => none
  | .cancel => some s.cancel
  | .deadline => match s.caller with
    | .waiting q => if s.transport.inflight then some (s.timeOut q) else none
    | _ => none
  | .wake => if s.transport.inflight then none else s.caller.request.map s.wake
  | .response t statusCode declaredBytes =>
    if t ∈ s.live then some (s.didReceiveResponse t statusCode declaredBytes) else none
  | .data t bytes => if t ∈ s.live then some (s.didReceiveData t bytes) else none
  | .complete t error => if t ∈ s.live then some (s.didComplete t error) else none

def sessions (parse : Bytes → Option NsUrl) : LTS System Label where
  init s := s = {}
  step s l s' := next parse s l = some s'

/-! ## The request -/

/-- What leaves the machine. -/
structure Sendable (parse : Bytes → Option NsUrl) (q : HttpRequest) : Prop where
  limits : q.timeoutMs ≠ 0 ∧ q.body.length ≤ 1024 * 1024 ∧ q.url.length ≤ 8192 ∧ 35 ∉ q.url
  secure : ∃ url, parse q.url = some url ∧ url.host ≠ [] ∧ url.user = none ∧ url.password = none ∧
    (url.scheme = ascii "https" ∨ url.scheme = ascii "http" ∧ loopback url.host = true)
  headers : ∀ h ∈ q.headers, validHeader h = true

theorem refusal_none {parse : Bytes → Option NsUrl} {t : Transport} {q : HttpRequest}
    (h : refusal parse t q = none) : t.cancelled = false ∧ Sendable parse q := by
  unfold refusal at h
  split at h
  · cases h
  split at h
  · cases h
  split at h
  · cases h
  rename_i hc hi hl
  push Not at hl
  split at h
  · cases h
  rename_i url hurl
  split at h
  · cases h
  split at h
  · cases h
  split at h
  · rename_i hu hs hh
    push Not at hu hs
    refine ⟨by simpa using hc, ⟨hl.1, hl.2.1, hl.2.2.1, hl.2.2.2⟩, ⟨url, hurl, hu.2.1, ?_, ?_, ?_⟩, ?_⟩
    · simpa using hu.2.2.1
    · simpa using hu.2.2.2
    · by_cases hscheme : url.scheme = ascii "https"
      · exact Or.inl hscheme
      · exact Or.inr (hs hscheme)
    · exact List.all_eq_true.mp hh
  · cases h

/-- The only caller is never told that the transport is busy. -/
theorem refusal_some {parse : Bytes → Option NsUrl} {t : Transport} {q : HttpRequest} {message : String}
    (h : refusal parse t q = some message) (hidle : t.inflight = false) :
    message ≠ "" ∧ message ≠ "HTTP request busy" := by
  unfold refusal at h
  rw [hidle] at h
  split at h
  · cases h; decide
  · split at h
    · contradiction
    split at h
    · cases h; decide
    split at h
    · cases h; decide
    split at h
    · cases h; decide
    split at h
    · cases h; decide
    split at h
    · cases h
    · cases h; decide

/-! ## The transport and the wire -/

/-- Nothing that still comes makes it clean. -/
def Spoiled (limit : Nat) (x : Exchange) : Prop :=
  x.interrupted = true ∨ (∃ n ∈ x.declared, limit < n) ∨ limit < x.data.flatten.length ∨ x.ended = some false

theorem Spoiled.not_clean {limit : Nat} {x : Exchange} (h : Spoiled limit x) : ¬ x.Clean limit := by
  intro hc
  rcases h with h | ⟨n, hn, h⟩ | h | h
  · rw [hc.undisturbed] at h
    cases h
  · exact absurd (hc.announced n hn) (Nat.not_le.mpr h)
  · exact absurd hc.received (Nat.not_le.mpr h)
  · rw [hc.ended] at h
    cases h

/-- What the transport knows of the exchange its task stands for. -/
structure Tracks (t : Transport) (x : Exchange) : Prop where
  going : t.inflight = true → x.ended = none
  good : t.failed = false → t.error = "" ∧ t.status = x.statuses.getLastD 0 ∧ t.body = x.data.flatten ∧
    x.interrupted = false ∧ (∀ n ∈ x.declared, n ≤ t.maxBytes) ∧ t.body.length ≤ t.maxBytes ∧
    (t.inflight = false → x.ended = some true)
  bad : t.failed = true → t.error ≠ "" ∧ Spoiled t.maxBytes x

theorem Tracks.answers {t : Transport} {x : Exchange} (h : Tracks t x) (hdone : t.inflight = false) :
    Answers t.maxBytes x t.response := by
  unfold Transport.response
  cases hf : t.failed with
  | false =>
    obtain ⟨herror, hstatus, hbody, hint, hdeclared, hlen, hended⟩ := h.good hf
    have hclean : x.Clean t.maxBytes := ⟨hended hdone, hint, hdeclared, hbody ▸ hlen⟩
    rw [if_pos herror]
    exact ⟨⟨fun _ => hclean, fun _ => herror⟩, fun _ => ⟨hstatus, hbody⟩, fun hn => absurd hclean hn⟩
  | true =>
    obtain ⟨herror, hspoiled⟩ := h.bad hf
    rw [if_neg herror]
    exact ⟨⟨fun he => absurd he herror, fun hc => absurd hc hspoiled.not_clean⟩,
      fun hc => absurd hc hspoiled.not_clean, fun _ => ⟨rfl, rfl⟩⟩

theorem Tracks.resume (t : Transport) (task : Nat) (q : HttpRequest) : Tracks (t.resume task q) {} where
  going _ := rfl
  good _ := by simp [Transport.resume]
  bad hf := by simp [Transport.resume] at hf

theorem Tracks.cancel {t : Transport} {x : Exchange} (h : Tracks t x) :
    Tracks t.cancel { x with interrupted := x.interrupted || t.inflight } := by
  unfold Transport.cancel
  split
  · rename_i hgo
    obtain ⟨hi, -⟩ := Bool.and_eq_true_iff.mp hgo
    refine ⟨fun _ => h.going hi, fun hf => by simp at hf, fun _ => ⟨by simp, Or.inl ?_⟩⟩
    simp [hi]
  · rename_i hgo
    rcases Bool.eq_false_or_eq_true t.failed with hf | hf
    · obtain ⟨herror, hspoiled⟩ := h.bad hf
      refine ⟨h.going, ?_, fun _ => ⟨herror, ?_⟩⟩
      · intro hf'
        rw [show t.failed = false from hf'] at hf
        cases hf
      · rcases hspoiled with hs | hs | hs | hs
        · exact Or.inl (by simp [hs])
        · exact Or.inr (Or.inl hs)
        · exact Or.inr (Or.inr (Or.inl hs))
        · exact Or.inr (Or.inr (Or.inr hs))
    · have hi : t.inflight = false := by simpa [hf] using hgo
      have hx : { x with interrupted := x.interrupted || t.inflight } = x := by simp [hi]
      rw [hx]
      exact ⟨h.going, h.good, h.bad⟩

theorem Tracks.timeOut {t : Transport} {x : Exchange} (h : Tracks t x) :
    Tracks t.timeOut { x with interrupted := x.interrupted || true } where
  going hi := h.going hi
  good hf := by simp [Transport.timeOut] at hf
  bad _ := ⟨by simp [Transport.timeOut], Or.inl (by simp)⟩

theorem Tracks.onResponse {t : Transport} {x : Exchange} {task : Nat} (h : Tracks t x)
    (hi : t.inflight = true) (ht : t.task = some task) (code n : Int) :
    Tracks (t.onResponse task code n).1
      { x with statuses := x.statuses ++ [code], declared := x.declared ++ (if 0 ≤ n then [n.toNat] else []) } := by
  unfold Transport.onResponse
  cases hf : t.failed with
  | true =>
    obtain ⟨herror, hspoiled⟩ := h.bad hf
    simp only [hi, ht, Bool.not_true, bne_self_eq_false, Bool.or_true, if_true]
    refine ⟨fun _ => h.going hi, fun hf' => by simp [hf] at hf', fun _ => ⟨herror, ?_⟩⟩
    rcases hspoiled with hs | ⟨k, hk, hlt⟩ | hs | hs
    · exact Or.inl hs
    · exact Or.inr (Or.inl ⟨k, List.mem_append_left _ hk, hlt⟩)
    · exact Or.inr (Or.inr (Or.inl hs))
    · exact Or.inr (Or.inr (Or.inr hs))
  | false =>
    obtain ⟨herror, hstatus, hbody, hint, hdeclared, hlen, hended⟩ := h.good hf
    simp only [hi, ht, Bool.not_true, bne_self_eq_false, Bool.or_false, Bool.false_eq_true, if_false]
    split
    · rename_i hlarge
      refine ⟨fun _ => h.going hi, fun hf' => by simp at hf', fun _ => ⟨by simp, Or.inr (Or.inl ?_)⟩⟩
      exact ⟨n.toNat, by simp [hlarge.1], hlarge.2⟩
    · rename_i hsmall
      refine ⟨fun _ => h.going hi, fun _ => ⟨herror, by simp, hbody, hint, ?_, hlen, fun hd => ?_⟩,
        fun hf' => by simp at hf'⟩
      · intro k hk
        rcases List.mem_append.mp hk with hk | hk
        · exact hdeclared k hk
        · split at hk
          · rename_i hpos
            rw [List.mem_singleton.mp hk]
            exact Nat.le_of_not_lt fun hlt => hsmall ⟨hpos, hlt⟩
          · cases hk
      · simp at hd

theorem Tracks.onData {t : Transport} {x : Exchange} {task : Nat} (h : Tracks t x)
    (hi : t.inflight = true) (ht : t.task = some task) (bytes : Bytes) :
    Tracks (t.onData task bytes).1 { x with data := x.data ++ [bytes] } := by
  have hflat : (x.data ++ [bytes]).flatten = x.data.flatten ++ bytes := by simp
  unfold Transport.onData
  cases hf : t.failed with
  | true =>
    obtain ⟨herror, hspoiled⟩ := h.bad hf
    simp only [hi, ht, Bool.not_true, bne_self_eq_false, Bool.or_true, if_true]
    refine ⟨fun _ => h.going hi, fun hf' => by simp [hf] at hf', fun _ => ⟨herror, ?_⟩⟩
    rcases hspoiled with hs | hs | hs | hs
    · exact Or.inl hs
    · exact Or.inr (Or.inl hs)
    · refine Or.inr (Or.inr (Or.inl ?_))
      dsimp only
      rw [hflat, List.length_append]
      omega
    · exact Or.inr (Or.inr (Or.inr hs))
  | false =>
    obtain ⟨herror, hstatus, hbody, hint, hdeclared, hlen, hended⟩ := h.good hf
    simp only [hi, ht, Bool.not_true, bne_self_eq_false, Bool.or_false, Bool.false_eq_true, if_false]
    split
    · rename_i hlarge
      refine ⟨fun _ => h.going hi, fun hf' => by simp at hf', fun _ => ⟨by simp, Or.inr (Or.inr (Or.inl ?_))⟩⟩
      dsimp only
      rw [hflat, List.length_append, ← hbody]
      omega
    · rename_i hsmall
      refine ⟨fun _ => h.going hi, fun _ => ⟨herror, hstatus, ?_, hint, hdeclared, ?_, ?_⟩,
        fun hf' => by simp at hf'⟩
      · dsimp only
        rw [hflat, hbody]
      · dsimp only
        rw [List.length_append]
        omega
      · intro hd
        simp at hd

theorem NsError.message_ne (e : NsError) : e.message ≠ "" := by
  cases e with
  | cancelled => decide
  | timedOut => decide
  | other description =>
    intro h
    exact absurd (String.append_eq_empty_iff.mp h).1 (by decide)

theorem Tracks.onComplete {t : Transport} {x : Exchange} {task : Nat} (h : Tracks t x)
    (hi : t.inflight = true) (ht : t.task = some task) (error : Option NsError) :
    Tracks (t.onComplete task error) { x with ended := some error.isNone } := by
  have hopen := h.going hi
  unfold Transport.onComplete
  rw [if_neg (by simp [ht])]
  cases hf : t.failed with
  | true =>
    obtain ⟨herror, hspoiled⟩ := h.bad hf
    have hstill : Spoiled t.maxBytes { x with ended := some error.isNone } := by
      rcases hspoiled with hs | hs | hs | hs
      · exact Or.inl hs
      · exact Or.inr (Or.inl hs)
      · exact Or.inr (Or.inr (Or.inl hs))
      · rw [hopen] at hs
        cases hs
    cases error with
    | none => exact ⟨fun hgo => by simp at hgo, fun hf' => by simp at hf', fun _ => ⟨herror, hstill⟩⟩
    | some e => exact ⟨fun hgo => by simp at hgo, fun hf' => by simp at hf', fun _ => ⟨herror, hstill⟩⟩
  | false =>
    obtain ⟨herror, hstatus, hbody, hint, hdeclared, hlen, -⟩ := h.good hf
    cases error with
    | none =>
      exact ⟨fun hgo => by simp at hgo, fun _ => ⟨herror, hstatus, hbody, hint, hdeclared, hlen, fun _ => rfl⟩,
        fun hf' => by simp at hf'⟩
    | some e =>
      exact ⟨fun hgo => by simp at hgo, fun hf' => by simp at hf',
        fun _ => ⟨e.message_ne, Or.inr (Or.inr (Or.inr rfl))⟩⟩

/-! ## The invariant -/

variable {parse : Bytes → Option NsUrl} {s s' : System}

/-- The call that is not back yet waits for task `t`. -/
structure Waits (s : System) (t : Nat) : Prop where
  task : s.transport.task = some t
  newest : s.created = t + 1
  live : s.live = if s.transport.inflight then [t] else []
  tracks : Tracks s.transport (s.wire t)
  asked : s.transport.inflight = true → s.transport.failed = true → t ∈ s.asked

/-- A call that is back: refused, or with the response of its task. -/
def Settled (parse : Bytes → Option NsUrl) (wire : Nat → Exchange) (e : Returned) : Prop :=
  match e.task with
  | none => ∃ message, e.response = fail message ∧ message ≠ "" ∧ message ≠ "HTTP request busy"
  | some t => Sendable parse e.request ∧ Answers e.request.maxResponseBytes (wire t) e.response

/-- The task that is waited for. -/
def System.pending (s : System) : List Nat := if s.caller.request.isSome then s.transport.task.toList else []

structure Inv (parse : Bytes → Option NsUrl) (s : System) : Prop where
  idle : s.caller.request = none → s.transport.inflight = false ∧ s.live = []
  waits : ∀ q ∈ s.caller.request,
    Sendable parse q ∧ s.transport.maxBytes = q.maxResponseBytes ∧ ∃ t, Waits s t
  fresh : ∀ t, s.created ≤ t → s.wire t = {}
  settled : ∀ e ∈ s.returned, Settled parse s.wire e
  order : s.returned.filterMap Returned.task ++ s.pending = List.range s.created

theorem Settled.congr {wire wire' : Nat → Exchange} {e : Returned} (h : Settled parse wire e)
    (hw : ∀ t ∈ e.task, wire' t = wire t) : Settled parse wire' e := by
  unfold Settled at h ⊢
  cases ht : e.task with
  | none =>
    rw [ht] at h
    exact h
  | some t =>
    rw [ht] at h
    dsimp only at h ⊢
    rw [hw t ht]
    exact h

/-- A task whose call is back is not the one that is waited for. -/
theorem Inv.apart (h : Inv parse s) {q : HttpRequest} (hq : s.caller.request = some q) {t : Nat}
    (ht : s.transport.task = some t) {e : Returned} (he : e ∈ s.returned) {t' : Nat} (ht' : e.task = some t') :
    t' ≠ t := by
  have hnodup : (s.returned.filterMap Returned.task ++ s.pending).Nodup := h.order ▸ List.nodup_range
  have hpending : s.pending = [t] := by simp [System.pending, hq, ht]
  rw [hpending, List.nodup_append] at hnodup
  exact hnodup.2.2 t' (List.mem_filterMap.mpr ⟨e, he, ht'⟩) t List.mem_cons_self

/-- A step of the session, of `cancel` or of the deadline. -/
theorem Inv.move (h : Inv parse s) (hcreated : s'.created = s.created) (hreturned : s'.returned = s.returned)
    (hcaller : s'.caller.request = s.caller.request) (htask : s'.transport.task = s.transport.task)
    (hmax : s'.transport.maxBytes = s.transport.maxBytes) (hwire : ∀ t, t ∉ s.live → s'.wire t = s.wire t)
    (hidle : s.caller.request = none → s'.transport.inflight = false ∧ s'.live = [])
    (hwaits : ∀ t, Waits s t → Waits s' t) : Inv parse s' where
  idle hi := hidle (hcaller ▸ hi)
  waits q hq := by
    obtain ⟨hsend, hlimit, t, hw⟩ := h.waits q (hcaller ▸ hq)
    exact ⟨hsend, hmax.trans hlimit, t, hwaits t hw⟩
  fresh t ht := by
    rw [hcreated] at ht
    rw [hwire t ?_, h.fresh t ht]
    intro hl
    cases hq : s.caller.request with
    | none => simp [(h.idle hq).2] at hl
    | some q =>
      obtain ⟨-, -, t', hw⟩ := h.waits q hq
      have hnewest := hw.newest
      rw [hw.live] at hl
      split at hl
      · have := List.mem_singleton.mp hl
        omega
      · cases hl
  settled e he := by
    rw [hreturned] at he
    refine (h.settled e he).congr fun t ht => hwire t ?_
    intro hl
    cases hq : s.caller.request with
    | none => simp [(h.idle hq).2] at hl
    | some q =>
      obtain ⟨-, -, t', hw⟩ := h.waits q hq
      rw [hw.live] at hl
      split at hl
      · exact h.apart hq hw.task he ht (List.mem_singleton.mp hl)
      · cases hl
  order := by
    have hpending : s'.pending = s.pending := by simp [System.pending, hcaller, htask]
    rw [hreturned, hpending, hcreated, h.order]

theorem Inv.perform (h : Inv parse s) {q : HttpRequest} (hc : s.caller = .idle) : Inv parse (s.perform parse q) := by
  have hnone : s.caller.request = none := by rw [hc]; rfl
  obtain ⟨hi, hlive⟩ := h.idle hnone
  have hempty : s.pending = [] := by simp [System.pending, hnone]
  unfold System.perform
  split
  · rename_i message hr
    refine ⟨h.idle, ?_, h.fresh, ?_, ?_⟩
    · intro q hq
      rw [hnone] at hq
      cases hq
    · intro e he
      rcases List.mem_append.mp he with he | he
      · exact h.settled e he
      · rw [List.mem_singleton.mp he]
        exact ⟨message, rfl, refusal_some hr hi⟩
    · have horder := h.order
      rw [hempty, List.append_nil] at horder
      simpa [System.pending, hnone] using horder
  · rename_i hr
    refine ⟨fun hn => by simp [Caller.request] at hn, ?_, ?_, h.settled, ?_⟩
    · intro q' hq'
      obtain rfl : q = q' := by simpa [Caller.request] using hq'
      refine ⟨(refusal_none hr).2, rfl, s.created, rfl, rfl, ?_, ?_, ?_⟩
      · simp [hlive, Transport.resume]
      · dsimp only
        rw [h.fresh s.created (Nat.le_refl _)]
        exact Tracks.resume ..
      · intro _ hf
        simp [Transport.resume] at hf
    · intro t ht
      exact h.fresh t (Nat.le_of_succ_le ht)
    · have horder := h.order
      rw [hempty, List.append_nil] at horder
      simp [System.pending, Caller.request, Transport.resume, horder, List.range_succ]

theorem Inv.interrupt_out {t : Nat} (ht : t ∉ s.live) : s.interrupt t = s.wire t := by
  simp [System.interrupt, ht]

theorem Waits.interrupt {t : Nat} (hw : Waits s t) :
    s.interrupt t = { s.wire t with interrupted := (s.wire t).interrupted || s.transport.inflight } := by
  unfold System.interrupt
  cases hi : s.transport.inflight with
  | true => simp [hw.live, hi]
  | false => simp [hw.live, hi]

theorem cancel_fields (t : Transport) : t.cancel.task = t.task ∧ t.cancel.inflight = t.inflight ∧
    t.cancel.maxBytes = t.maxBytes ∧ t.cancel.cancelled = true := by
  unfold Transport.cancel
  split <;> exact ⟨rfl, rfl, rfl, rfl⟩

theorem Inv.cancel (h : Inv parse s) : Inv parse s.cancel := by
  obtain ⟨htask, hinflight, hmax, -⟩ := cancel_fields s.transport
  refine h.move rfl rfl rfl htask hmax (fun t ht => Inv.interrupt_out ht) ?_ ?_
  · intro hn
    obtain ⟨hi, hl⟩ := h.idle hn
    exact ⟨hinflight.trans hi, hl⟩
  · intro t hw
    refine ⟨htask.trans hw.task, hw.newest, ?_, ?_, ?_⟩
    · rw [show s.cancel.transport.inflight = s.transport.inflight from hinflight]
      exact hw.live
    · have htracks := hw.tracks.cancel
      rw [← hw.interrupt] at htracks
      exact htracks
    · intro hi _
      have hi : s.transport.inflight = true := hinflight ▸ hi
      unfold System.cancel
      dsimp only
      split
      · simp [hw.task]
      · rename_i hgo
        exact hw.asked hi (by simpa [hi] using hgo)

theorem Inv.timeOut (h : Inv parse s) {q : HttpRequest} (hc : s.caller = .waiting q)
    (hi : s.transport.inflight = true) : Inv parse (s.timeOut q) := by
  have hq : s.caller.request = some q := by rw [hc]; rfl
  refine h.move rfl rfl hq.symm rfl rfl (fun t ht => Inv.interrupt_out ht) ?_ ?_
  · intro hn
    rw [hq] at hn
    cases hn
  · intro t hw
    refine ⟨hw.task, hw.newest, hw.live, ?_, ?_⟩
    · have htracks := hw.tracks.timeOut
      have hinterrupt := hw.interrupt
      rw [hi] at hinterrupt
      rw [← hinterrupt] at htracks
      exact htracks
    · intro _ _
      simp [System.timeOut, hw.task]

theorem Inv.wake (h : Inv parse s) {q : HttpRequest} (hq : s.caller.request = some q)
    (hi : s.transport.inflight = false) : Inv parse (s.wake q) := by
  obtain ⟨hsend, hlimit, t, hw⟩ := h.waits q hq
  refine ⟨fun _ => ⟨hi, ?_⟩, fun q' hq' => by simp [System.wake, Caller.request] at hq', h.fresh, ?_, ?_⟩
  · have hlive := hw.live
    rw [hi] at hlive
    exact hlive
  · intro e he
    rcases List.mem_append.mp he with he | he
    · exact h.settled e he
    · rw [List.mem_singleton.mp he]
      unfold Settled
      dsimp only
      rw [hw.task]
      exact ⟨hsend, hlimit ▸ hw.tracks.answers hi⟩
  · have horder := h.order
    have hpending : s.pending = [t] := by simp [System.pending, hq, hw.task]
    rw [hpending] at horder
    simpa [System.wake, System.pending, Caller.request, hw.task] using horder

/-- The session calls back for the task that is waited for. -/
theorem Inv.called (h : Inv parse s) {t : Nat} (ht : t ∈ s.live) : s.transport.inflight = true ∧ Waits s t := by
  cases hq : s.caller.request with
  | none => simp [(h.idle hq).2] at ht
  | some q =>
    obtain ⟨-, -, t', hw⟩ := h.waits q hq
    have hlive := hw.live
    split at hlive
    · rename_i hi
      rw [hlive] at ht
      rw [List.mem_singleton.mp ht]
      exact ⟨hi, hw⟩
    · rw [hlive] at ht
      cases ht

theorem Inv.not_idle (h : Inv parse s) {t : Nat} (ht : t ∈ s.live) : s.caller.request ≠ none := by
  intro hn
  rw [(h.idle hn).2] at ht
  cases ht

theorem Waits.unique {t t' : Nat} (hw : Waits s t) (hw' : Waits s t') : t = t' :=
  Option.some.inj (hw.task.symm.trans hw'.task)

/-- What a callback before the last leaves alone; a failed transport has the
task cancelled. -/
structure Heard (t : Transport) (r : Transport × Bool) : Prop where
  task : r.1.task = t.task
  inflight : r.1.inflight = t.inflight
  maxBytes : r.1.maxBytes = t.maxBytes
  cancelled : r.1.cancelled = t.cancelled
  cancel : r.1.failed = true → r.2 = true

theorem onResponse_heard (t : Transport) (task : Nat) (code n : Int) : Heard t (t.onResponse task code n) := by
  unfold Transport.onResponse
  split
  · exact ⟨rfl, rfl, rfl, rfl, fun _ => rfl⟩
  · rename_i hgo
    dsimp only
    split
    · exact ⟨rfl, rfl, rfl, rfl, fun _ => rfl⟩
    · refine ⟨rfl, rfl, rfl, rfl, ?_⟩
      intro hf
      have hf : t.failed = true := hf
      simp [hf] at hgo

theorem onData_heard (t : Transport) (task : Nat) (bytes : Bytes) : Heard t (t.onData task bytes) := by
  unfold Transport.onData
  split
  · exact ⟨rfl, rfl, rfl, rfl, fun _ => rfl⟩
  · rename_i hgo
    split
    · exact ⟨rfl, rfl, rfl, rfl, fun _ => rfl⟩
    · refine ⟨rfl, rfl, rfl, rfl, ?_⟩
      intro hf
      have hf : t.failed = true := hf
      simp [hf] at hgo

theorem onComplete_fields (t : Transport) (task : Nat) (error : Option NsError) :
    (t.onComplete task error).task = t.task ∧ (t.onComplete task error).maxBytes = t.maxBytes ∧
      (t.onComplete task error).cancelled = t.cancelled ∧
      (t.task = some task → (t.onComplete task error).inflight = false) := by
  unfold Transport.onComplete
  split
  · rename_i hne
    exact ⟨rfl, rfl, rfl, fun he => absurd he hne⟩
  · cases error with
    | none => exact ⟨rfl, rfl, rfl, fun _ => rfl⟩
    | some e =>
      dsimp only
      split <;> exact ⟨rfl, rfl, rfl, fun _ => rfl⟩

theorem Inv.heard (h : Inv parse s) {t : Nat} (ht : t ∈ s.live) {r : Transport × Bool} {x : Exchange}
    (hr : Heard s.transport r)
    (hx : s.transport.inflight = true → s.transport.task = some t → Tracks s.transport (s.wire t) →
      Tracks r.1 x) :
    Inv parse { s with transport := r.1, asked := if r.2 then s.asked ++ [t] else s.asked
                       wire := Function.update s.wire t x } := by
  obtain ⟨hi, hw⟩ := h.called ht
  refine h.move rfl rfl rfl hr.task hr.maxBytes ?_ (fun hn => absurd hn (h.not_idle ht)) ?_
  · intro t' ht'
    have hne : t' ≠ t := fun he => ht' (he ▸ ht)
    exact Function.update_of_ne hne ..
  · intro t' hw'
    obtain rfl := hw.unique hw'
    refine ⟨hr.task.trans hw.task, hw.newest, ?_, ?_, ?_⟩
    · dsimp only
      rw [hr.inflight]
      exact hw.live
    · dsimp only
      rw [Function.update_self]
      exact hx hi hw.task hw.tracks
    · intro _ hf
      dsimp only
      rw [if_pos (hr.cancel hf)]
      simp

theorem Inv.didComplete (h : Inv parse s) {t : Nat} (ht : t ∈ s.live) (error : Option NsError) :
    Inv parse (s.didComplete t error) := by
  obtain ⟨hi, hw⟩ := h.called ht
  obtain ⟨htask, hmax, -, hdone⟩ := onComplete_fields s.transport t error
  have hdone : (s.didComplete t error).transport.inflight = false := hdone hw.task
  refine h.move rfl rfl rfl htask hmax ?_ (fun hn => absurd hn (h.not_idle ht)) ?_
  · intro t' ht'
    have hne : t' ≠ t := fun he => ht' (he ▸ ht)
    exact Function.update_of_ne hne ..
  · intro t' hw'
    obtain rfl := hw.unique hw'
    refine ⟨htask.trans hw.task, hw.newest, ?_, ?_, ?_⟩
    · rw [hdone]
      simp [System.didComplete, hw.live, hi]
    · unfold System.didComplete
      dsimp only
      rw [Function.update_self]
      exact hw.tracks.onComplete hi hw.task error
    · intro hgo
      rw [hdone] at hgo
      cases hgo

theorem inv_init : Inv parse {} where
  idle _ := ⟨rfl, rfl⟩
  waits q hq := by cases hq
  fresh _ _ := rfl
  settled e he := by cases he
  order := rfl

theorem inv_next {l : Label} (h : Inv parse s) (hn : next parse s l = some s') : Inv parse s' := by
  cases l with
  | perform q =>
    simp only [next] at hn
    split at hn
    · rename_i hc
      cases hn
      exact h.perform hc
    · cases hn
  | cancel =>
    cases hn
    exact h.cancel
  | deadline =>
    simp only [next] at hn
    split at hn
    · rename_i hc
      split at hn
      · rename_i hi
        cases hn
        exact h.timeOut hc hi
      · cases hn
    · cases hn
  | wake =>
    simp only [next] at hn
    split at hn
    · cases hn
    · rename_i hi
      obtain ⟨q, hq, rfl⟩ := Option.map_eq_some_iff.mp hn
      exact h.wake hq (by simpa using hi)
  | response t code n =>
    obtain ⟨ht, hs⟩ := Option.ite_none_right_eq_some.mp hn
    cases hs
    exact h.heard ht (onResponse_heard ..) fun hi htask htracks => htracks.onResponse hi htask code n
  | data t bytes =>
    obtain ⟨ht, hs⟩ := Option.ite_none_right_eq_some.mp hn
    cases hs
    exact h.heard ht (onData_heard ..) fun hi htask htracks => htracks.onData hi htask bytes
  | complete t error =>
    obtain ⟨ht, hs⟩ := Option.ite_none_right_eq_some.mp hn
    cases hs
    exact h.didComplete ht error

theorem inv_inductive : (sessions parse).Inductive (Inv parse) where
  init s hs := by
    rw [show s = {} from hs]
    exact inv_init
  step _ _ _ h hn := inv_next h hn

/-- Every response is that of its own exchange, whole or an error; every task is
answered once, in order; outside `perform` nothing is called back. -/
theorem performed (h : (sessions parse).Reachable s) : (∀ e ∈ s.returned, Settled parse s.wire e) ∧
    s.returned.filterMap Returned.task ++ s.pending = List.range s.created ∧
    (s.caller = .idle → s.live = []) := by
  have hinv := inv_inductive.reachable s h
  refine ⟨hinv.settled, hinv.order, fun hc => (hinv.idle ?_).2⟩
  rw [hc]
  rfl

/-- The address of a development server. -/
def development (url : Bytes) : Option NsUrl :=
  if url = ascii "http://127.0.0.1:8787/v1/sessions" then some ⟨ascii "http", ascii "127.0.0.1", none, none⟩
  else none

def create : HttpRequest :=
  { method := ascii "POST", url := ascii "http://127.0.0.1:8787/v1/sessions", body := []
    headers := [(ascii "Accept", ascii "application/json")] }

def after (ls : List Label) : System := LTS.played (next development) (fun _ _ => True) {} ls

theorem after_reachable {ls : List Label}
    (h : (LTS.play (next development) (fun _ _ => True) {} ls).isSome = true) :
    (sessions development).Reachable (after ls) :=
  ⟨{}, ls, rfl, (LTS.played_run (fun _ _ _ hs => hs) h).of_guarded⟩

/-- One request is answered, one is cancelled on the wire, one never leaves. -/
def three : List Label :=
  [.perform create, .response 0 201 2, .data 0 [123], .data 0 [125], .complete 0 none, .wake,
    .perform create, .response 1 201 (-1), .data 1 [123], .cancel, .complete 1 none, .wake, .perform create]

theorem performed_three : (after three).returned.map (fun e => (e.task, e.response.status, e.response.body)) =
      [(some 0, 201, [123, 125]), (some 1, 0, []), (none, 0, [])] ∧
    (after three).returned.filterMap Returned.task ++ (after three).pending = List.range (after three).created :=
  ⟨by decide, (performed (after_reachable (by decide))).2.1⟩

/-! ## After `cancel` -/

/-- Nothing was made since, and what was returned without an error since had been
complete before. -/
structure Silent (s s' : System) : Prop where
  cancelled : s'.transport.cancelled = true
  created : s'.created = s.created
  returned : ∃ more, s'.returned = s.returned ++ more ∧
    ∀ e ∈ more, e.response.error = "" → ∃ t ∈ e.task, (s.wire t).ended = some true

/-- So it goes on: what is on the wire fails. -/
structure Muted (s s' : System) : Prop extends Silent s s' where
  going : s'.transport.inflight = true → s'.transport.failed = true
  kept : s'.transport.failed = false → ∀ t ∈ s'.pending, (s.wire t).ended = some true

theorem next_cancelled {l : Label} (hc : s.transport.cancelled = true) (hn : next parse s l = some s') :
    s'.transport.cancelled = true ∧ s'.created = s.created := by
  cases l with
  | perform q =>
    simp only [next] at hn
    split at hn
    · cases hn
      unfold System.perform
      rw [show refusal parse s.transport q = some "HTTP request cancelled" by simp [refusal, hc]]
      exact ⟨hc, rfl⟩
    · cases hn
  | cancel =>
    cases hn
    exact ⟨(cancel_fields s.transport).2.2.2, rfl⟩
  | deadline =>
    simp only [next] at hn
    split at hn
    · split at hn
      · cases hn
        exact ⟨hc, rfl⟩
      · cases hn
    · cases hn
  | wake =>
    simp only [next] at hn
    split at hn
    · cases hn
    · obtain ⟨q, -, rfl⟩ := Option.map_eq_some_iff.mp hn
      exact ⟨hc, rfl⟩
  | response t code n =>
    obtain ⟨-, hs⟩ := Option.ite_none_right_eq_some.mp hn
    cases hs
    exact ⟨(onResponse_heard s.transport t code n).cancelled.trans hc, rfl⟩
  | data t bytes =>
    obtain ⟨-, hs⟩ := Option.ite_none_right_eq_some.mp hn
    cases hs
    exact ⟨(onData_heard s.transport t bytes).cancelled.trans hc, rfl⟩
  | complete t error =>
    obtain ⟨-, hs⟩ := Option.ite_none_right_eq_some.mp hn
    cases hs
    exact ⟨(onComplete_fields s.transport t error).2.2.1.trans hc, rfl⟩

theorem response_error (t : Transport) : t.response.error = t.error := by
  unfold Transport.response
  split <;> rfl

theorem Silent.same (hm : Silent s s') {s'' : System} (hcancelled : s''.transport.cancelled = true)
    (hcreated : s''.created = s'.created) (hreturned : s''.returned = s'.returned) : Silent s s'' :=
  ⟨hcancelled, hcreated.trans hm.created, hreturned ▸ hm.returned⟩

theorem Silent.snoc (hm : Silent s s') {s'' : System} (hcancelled : s''.transport.cancelled = true)
    (hcreated : s''.created = s'.created) {e : Returned} (hreturned : s''.returned = s'.returned ++ [e])
    (he : e.response.error = "" → ∃ t ∈ e.task, (s.wire t).ended = some true) : Silent s s'' := by
  refine ⟨hcancelled, hcreated.trans hm.created, ?_⟩
  obtain ⟨more, hmore, hall⟩ := hm.returned
  refine ⟨more ++ [e], by rw [hreturned, hmore, List.append_assoc], fun e' he' => ?_⟩
  rcases List.mem_append.mp he' with he' | he'
  · exact hall e' he'
  · rw [List.mem_singleton.mp he']
    exact he

theorem muted_next {l : Label} {base : System} (h : Inv parse s) (hm : Muted base s)
    (hn : next parse s l = some s') : Muted base s' := by
  obtain ⟨hcancelled, hcreated⟩ := next_cancelled hm.cancelled hn
  cases l with
  | perform q =>
    simp only [next] at hn
    split at hn
    · cases hn
      have hr : refusal parse s.transport q = some "HTTP request cancelled" := by simp [refusal, hm.cancelled]
      have hs : s.perform parse q =
          { s with returned := s.returned ++ [⟨q, none, fail "HTTP request cancelled"⟩] } := by
        unfold System.perform
        rw [hr]
      refine ⟨hm.toSilent.snoc hcancelled hcreated (by rw [hs]) (fun he => absurd he (by simp [fail])), ?_, ?_⟩
      · rw [hs]
        exact hm.going
      · rw [hs]
        exact hm.kept
    · cases hn
  | cancel =>
    cases hn
    have hstill : s.transport.cancel = { s.transport with cancelled := true } := by
      unfold Transport.cancel
      split
      · rename_i hgo
        obtain ⟨hi, hf⟩ := Bool.and_eq_true_iff.mp hgo
        simp [hm.going hi] at hf
      · rfl
    refine ⟨hm.toSilent.same hcancelled hcreated rfl, ?_, ?_⟩
    · intro hi
      have hi : s.transport.cancel.inflight = true := hi
      show s.transport.cancel.failed = true
      rw [hstill] at hi ⊢
      exact hm.going hi
    · intro hf
      have hf : s.transport.cancel.failed = false := hf
      rw [hstill] at hf
      have hpending : s.cancel.pending = s.pending := by
        simp [System.pending, System.cancel, (cancel_fields s.transport).1]
      rw [hpending]
      exact hm.kept hf
  | deadline =>
    simp only [next] at hn
    split at hn
    · split at hn
      · cases hn
        exact ⟨hm.toSilent.same hcancelled hcreated rfl, fun _ => rfl, fun hf => by cases hf⟩
      · cases hn
    · cases hn
  | wake =>
    simp only [next] at hn
    split at hn
    · cases hn
    rename_i hi
    obtain ⟨q, hq, rfl⟩ := Option.map_eq_some_iff.mp hn
    obtain ⟨-, -, t, hw⟩ := h.waits q hq
    refine ⟨hm.toSilent.snoc hcancelled hcreated rfl fun he => ⟨t, hw.task, ?_⟩, fun hgo => absurd hgo hi, ?_⟩
    · dsimp only at he
      rw [response_error] at he
      refine hm.kept ?_ t (by simp [System.pending, hq, hw.task])
      rw [← Bool.not_eq_true]
      exact fun hf => (hw.tracks.bad hf).1 he
    · intro _ t' ht'
      cases ht'
  | response t code n =>
    obtain ⟨ht, hs⟩ := Option.ite_none_right_eq_some.mp hn
    cases hs
    have hf := hm.going (h.called ht).1
    have hstill : s.transport.onResponse t code n = (s.transport, true) := by simp [Transport.onResponse, hf]
    refine ⟨hm.toSilent.same hcancelled hcreated rfl, ?_, ?_⟩
    · intro _
      simpa [System.didReceiveResponse, hstill] using hf
    · intro hf'
      simp [System.didReceiveResponse, hstill, hf] at hf'
  | data t bytes =>
    obtain ⟨ht, hs⟩ := Option.ite_none_right_eq_some.mp hn
    cases hs
    have hf := hm.going (h.called ht).1
    have hstill : s.transport.onData t bytes = (s.transport, true) := by simp [Transport.onData, hf]
    refine ⟨hm.toSilent.same hcancelled hcreated rfl, ?_, ?_⟩
    · intro _
      simpa [System.didReceiveData, hstill] using hf
    · intro hf'
      simp [System.didReceiveData, hstill, hf] at hf'
  | complete t error =>
    obtain ⟨ht, hs⟩ := Option.ite_none_right_eq_some.mp hn
    cases hs
    obtain ⟨hi, hw⟩ := h.called ht
    have hf := hm.going hi
    have hstill : (s.transport.onComplete t error).failed = true := by
      unfold Transport.onComplete
      rw [if_neg (by simp [hw.task])]
      cases error with
      | none => exact hf
      | some e => simp [hf]
    refine ⟨hm.toSilent.same hcancelled hcreated rfl, fun _ => hstill, ?_⟩
    intro hf'
    rw [show (s.didComplete t error).transport.failed = true from hstill] at hf'
    cases hf'

theorem muted_cancel (h : Inv parse s) : Muted s.cancel s.cancel := by
  have hgoing : s.transport.cancel.inflight = true → s.transport.cancel.failed = true := by
    unfold Transport.cancel
    split
    · exact fun _ => rfl
    · rename_i hgo
      intro hi
      have hi : s.transport.inflight = true := hi
      simpa [hi] using hgo
  refine ⟨⟨(cancel_fields s.transport).2.2.2, rfl, [], by simp, by simp⟩, hgoing, fun hf t ht => ?_⟩
  have hinv := h.cancel
  unfold System.pending at ht
  split at ht
  · rename_i hq
    obtain ⟨q, hq⟩ := Option.isSome_iff_exists.mp hq
    obtain ⟨-, -, t', hw⟩ := hinv.waits q hq
    rw [hw.task] at ht
    obtain rfl : t = t' := by simpa using ht
    refine (hw.tracks.good hf).2.2.2.2.2.2 ?_
    rw [← Bool.not_eq_true]
    intro hi
    rw [show s.cancel.transport.failed = true from hgoing hi] at hf
    cases hf
  · cases ht

/-! ## The wait -/

/-- The steps that lead out of `perform`. -/
def Label.own : Label → Bool
  | .deadline | .wake | .complete .. => true
  | _ => false

def Label.begins : Label → Bool
  | .perform _ => true
  | _ => false

/-- How many of them are left at most. -/
def left (s : System) : Nat :=
  match s.caller with
  | .idle => 0
  | .waiting _ => if s.transport.inflight then 3 else 1
  | .draining _ => if s.transport.inflight then 2 else 1

theorem left_same {s s' : System} (hcaller : s'.caller = s.caller)
    (hinflight : s'.transport.inflight = s.transport.inflight) : left s' = left s := by
  unfold left
  rw [hcaller, hinflight]

theorem left_next {l : Label} (h : Inv parse s) (hl : l.begins = false) (hn : next parse s l = some s') :
    left s' + (if l.own then 1 else 0) ≤ left s := by
  cases l with
  | perform q => cases hl
  | cancel =>
    cases hn
    exact Nat.le_of_eq (left_same rfl (cancel_fields s.transport).2.1)
  | deadline =>
    simp only [next] at hn
    split at hn
    · rename_i q hc
      split at hn
      · rename_i hi
        cases hn
        simp [left, System.timeOut, Transport.timeOut, hc, hi, Label.own]
      · cases hn
    · cases hn
  | wake =>
    simp only [next] at hn
    split at hn
    · cases hn
    · rename_i hi
      obtain ⟨q, hq, rfl⟩ := Option.map_eq_some_iff.mp hn
      cases hc : s.caller with
      | idle => simp [hc, Caller.request] at hq
      | waiting q => simp [left, System.wake, hc, hi, Label.own]
      | draining q => simp [left, System.wake, hc, hi, Label.own]
  | response t code n =>
    obtain ⟨-, hs⟩ := Option.ite_none_right_eq_some.mp hn
    cases hs
    exact Nat.le_of_eq (left_same rfl (onResponse_heard s.transport t code n).inflight)
  | data t bytes =>
    obtain ⟨-, hs⟩ := Option.ite_none_right_eq_some.mp hn
    cases hs
    exact Nat.le_of_eq (left_same rfl (onData_heard s.transport t bytes).inflight)
  | complete t error =>
    obtain ⟨ht, hs⟩ := Option.ite_none_right_eq_some.mp hn
    cases hs
    obtain ⟨hi, hw⟩ := h.called ht
    have hdone := (onComplete_fields s.transport t error).2.2.2 hw.task
    cases hc : s.caller with
    | idle => exact absurd (by rw [hc]; rfl) (h.not_idle ht)
    | waiting q => simp [left, System.didComplete, hc, hi, hdone, Label.own]
    | draining q => simp [left, System.didComplete, hc, hi, hdone, Label.own]

theorem left_le (s : System) : left s ≤ 3 := by
  unfold left
  split
  · omega
  · split <;> omega
  · split <;> omega

theorem left_run {ls : List Label} (h : Inv parse s) (hr : (sessions parse).Run s ls s')
    (hl : ∀ l ∈ ls, l.begins = false) : ls.countP Label.own ≤ left s := by
  induction hr with
  | nil => exact Nat.zero_le _
  | @cons s t s' l ls hn hrun ih =>
    have hstep := left_next h (hl l List.mem_cons_self) hn
    have hrest := ih (inv_next h hn) fun l' hl' => hl l' (List.mem_cons_of_mem _ hl')
    rw [List.countP_cons]
    omega

/-- The end is the session's to report, or the caller's to notice. -/
theorem end_enabled (h : Inv parse s) (hc : s.caller ≠ .idle) :
    ∃ s', next parse s .wake = some s' ∨ ∃ t, next parse s (.complete t none) = some s' := by
  have hq : s.caller.request ≠ none := by
    cases hcaller : s.caller with
    | idle => exact absurd hcaller hc
    | waiting q => simp [Caller.request]
    | draining q => simp [Caller.request]
  obtain ⟨q, hq⟩ := Option.ne_none_iff_exists'.mp hq
  obtain ⟨-, -, t, hw⟩ := h.waits q hq
  cases hi : s.transport.inflight with
  | false => exact ⟨s.wake q, .inl (by simp [next, hi, hq])⟩
  | true => exact ⟨s.didComplete t none, .inr ⟨t, by simp [next, hw.live, hi]⟩⟩

/-- After `cancel` no task is made and no request answered that was not complete
before. A call that is under way is three steps from its end at most; whatever
is on the wire has been cancelled, and `complete` or `wake` is always open. -/
theorem cancel_ends {ls : List Label} (h : (sessions parse).Reachable s)
    (hr : (sessions parse).Run s.cancel ls s') : Silent s.cancel s' ∧
      (s'.caller ≠ .idle → s'.live ⊆ s'.asked ∧
        ∃ s'', next parse s' .wake = some s'' ∨ ∃ t, next parse s' (.complete t none) = some s'') ∧
      ((∀ l ∈ ls, l.begins = false) → ls.countP Label.own ≤ 3) := by
  have hinv := inv_inductive.reachable s h
  have hboth : Inv parse s' ∧ Muted s.cancel s' := by
    have hrun : ∀ {t t' : System} {ls : List Label}, (sessions parse).Run t ls t' →
        Inv parse t → Muted s.cancel t → Inv parse t' ∧ Muted s.cancel t' := by
      intro t t' ls hr
      induction hr with
      | nil => exact fun hi hm => ⟨hi, hm⟩
      | cons hn _ ih => exact fun hi hm => ih (inv_next hi hn) (muted_next hi hm hn)
    exact hrun hr hinv.cancel (muted_cancel hinv)
  obtain ⟨hinv', hmuted⟩ := hboth
  refine ⟨hmuted.toSilent, fun hc => ⟨?_, end_enabled hinv' hc⟩, ?_⟩
  · intro t ht
    obtain ⟨hi, hw⟩ := hinv'.called ht
    exact hw.asked hi (hmuted.going hi)
  · intro hl
    exact (left_run hinv.cancel hr hl).trans (left_le _)

def sent : List Label := [.perform create, .response 0 201 (-1), .data 0 [123]]

def afterCancel (ls : List Label) : System :=
  LTS.played (next development) (fun _ _ => True) (after sent).cancel ls

theorem cancel_ends_sent : (afterCancel [.complete 0 none, .wake]).returned.map (fun e => e.response.error) =
      ["HTTP request cancelled"] ∧
    Silent (after sent).cancel (afterCancel [.complete 0 none, .wake]) :=
  ⟨by decide, (cancel_ends (after_reachable (by decide))
    (LTS.played_run (fun _ _ _ hs => hs) (by decide)).of_guarded).1⟩

end UrlSession
end KmVirtualCamera.L5
