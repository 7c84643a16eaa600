import Mathlib
import KmVirtualCamera.Core.LTS
import KmVirtualCamera.L1Encoding.HttpHeaders
import KmVirtualCamera.L5Concurrency.UrlSession

/-!
# The HTTP transport of the Windows receiver (`WinHttpTransport`)

`perform` calls one blocking function of WinHTTP after the other. `cancel` only
counts, from any thread; `perform` remembers the count it began with and looks
at it, and at the clock, in five places: before it connects, sends, asks for the
status and reads, and once more at the end. So neither a call that is under way
nor those that follow it up to the next check are cut short, and a cancel is for
the requests that have begun, not for those that come later.

Each check and the return of each call is a step, and in between the counter and
the clock go on. Several `perform`s share nothing but the counter, so this is one.
`sent`, `begun`, `start` and `wire` of a call are not in the code, nor are
`cancels` and `returned`.

* `fetched`: every response of every run meets the contract, `Http.Answers`.
* `cancel_reaches`: how far a cancelled request still gets.
-/
namespace KmVirtualCamera.L5.WinHttp
open L1.H264 (Bytes)
open L1.HttpHeaders
open L4.SignalingRun (HttpRequest HttpResponse)
open Http

/-! ## The transport -/

inductive Scheme where
  | http | https | other
  deriving DecidableEq

/-- What `WinHttpCrackUrl` makes of a text. -/
structure Components where
  scheme : Scheme
  hostName : List Char
  userName : List Char := []
  password : List Char := []

/-- mirrors windows/receiver/signaling/win_http_client.cpp:52 -/
def loopback (host : List Char) : Bool :=
  host == "localhost".toList || host == "127.0.0.1".toList || host == "::1".toList || host == "[::1]".toList

/-- The checks before the first call, with what is thrown.
mirrors windows/receiver/signaling/win_http_client.cpp:44-53 -/
def refusal (crack : List Char → Option Components) (input : HttpRequest) : Option String :=
  if input.timeoutMs = 0 ∨ input.body.length > 1024 * 1024 ∨ input.url.length > 8192 ∨ 35 ∈ input.url then
    some "invalid HTTP request limits or URL"
  else match wide input.url with
  | none => some "invalid UTF-8 URL/header"
  | some url => match crack url with
    | none => some "invalid signaling URL"
    | some c =>
      if c.userName ≠ [] ∨ c.password ≠ [] then some "invalid signaling URL"
      else if c.scheme ≠ .https ∧ ¬ (c.scheme = .http ∧ loopback c.hostName = true) then
        some "signaling requires HTTPS (except explicit loopback development)"
      else none

/-- The functions between the first check and the second. -/
inductive Setup where
  | connect | openRequest | setTimeouts | setOption
  deriving DecidableEq

def Setup.message : Setup → String
  | .connect => "HTTP connection failed"
  | .openRequest => "HTTP request creation failed"
  | .setTimeouts => "HTTP timeout configuration failed"
  | .setOption => "HTTP redirect policy failed"

/-- What a `perform` has in its frame. -/
structure Call where
  input : HttpRequest
  epoch : UInt64
  deadline : Nat
  headers : List Char := []
  status : UInt32 := 0
  body : Bytes := []
  sent : Bool := false
  begun : Nat
  start : Nat
  wire : Exchange := {}

/-- What a check is in front of; `finish`: the last check. -/
inductive Stage where
  | connect | send | query | read | finish
  deriving DecidableEq

/-- The function of WinHTTP that is called. -/
inductive Fn where
  | setup (step : Setup)
  | sendRequest | receiveResponse | queryStatus | queryLength | readData
  deriving DecidableEq

inductive Pc where
  | idle
  | checking (stage : Stage) (c : Call)
  | calling (fn : Fn) (c : Call)

def Pc.call : Pc → Option Call
  | .idle => none
  | .checking _ c | .calling _ c => some c

/-- What a `perform` has given, and when. -/
structure Returned where
  call : Call
  response : HttpResponse
  cancels : Nat
  now : Nat

structure System where
  cancellation : UInt64 := 0
  now : Nat := 0
  pc : Pc := .idle
  cancels : Nat := 0
  returned : List Returned := []

inductive Label where
  | perform (input : HttpRequest)
  | cancel
  | tick (ms : Nat)
  | check
  | setUp (ok : Bool)
  | sent (ok : Bool)
  | responded (ok : Bool)
  | queried (status : Option UInt32)
  | announced (declared : Option UInt32)
  | received (chunk : Option Bytes)

namespace System

/-- mirrors windows/receiver/signaling/win_http_client.cpp:34 -/
def cancel (s : System) : System := { s with cancellation := s.cancellation + 1, cancels := s.cancels + 1 }

/-- mirrors windows/receiver/signaling/win_http_client.cpp:39-42 -/
def interrupted (s : System) (c : Call) : Option String :=
  if c.epoch ≠ s.cancellation then some "HTTP request cancelled"
  else if c.deadline ≤ s.now then some "HTTP deadline exceeded"
  else none

def give (s : System) (c : Call) (response : HttpResponse) : System :=
  { s with pc := .idle, returned := s.returned ++ [⟨c, response, s.cancels, s.now⟩] }

/-- mirrors windows/receiver/signaling/win_http_client.cpp:95-96 -/
def throws (s : System) (c : Call) (what : String) : System := s.give c { error := what }

/-- mirrors windows/receiver/signaling/win_http_client.cpp:36-53 -/
def perform (crack : List Char → Option Components) (s : System) (input : HttpRequest) : System :=
  let c : Call := { input := input, epoch := s.cancellation, deadline := s.now + input.timeoutMs.toNat
                    begun := s.cancels, start := s.now }
  match refusal crack input with
  | some what => s.throws c what
  | none => { s with pc := .checking .connect c }

/-- A check, and what follows it at once. -/
def check (s : System) (stage : Stage) (c : Call) : System :=
  match s.interrupted c with
  | some what => s.throws { c with wire := { c.wire with interrupted := true } } what
  | none => match stage with
    | .connect => { s with pc := .calling (.setup .connect) c }
    | .send => { s with pc := .calling .sendRequest { c with sent := true } }
    | .query => { s with pc := .calling .queryStatus c }
    | .read => { s with pc := .calling .readData c }
    | .finish => s.give c { status := c.status.toInt32.toInt, body := c.body }

/-- After `WinHttpConnect` the method is converted, after the last of them the
headers are put together.
mirrors windows/receiver/signaling/win_http_client.cpp:56-73 -/
def setUp (s : System) (step : Setup) (c : Call) (ok : Bool) : System :=
  if ok then
    match step with
    | .connect => match wide c.input.method with
      | none => s.throws c "invalid UTF-8 URL/header"
      | some _ => { s with pc := .calling (.setup .openRequest) c }
    | .openRequest => { s with pc := .calling (.setup .setTimeouts) c }
    | .setTimeouts => { s with pc := .calling (.setup .setOption) c }
    | .setOption => match headerBlock c.input.headers with
      | .error what => s.throws c what
      | .ok headers => { s with pc := .checking .send { c with headers := headers } }
  else s.throws c step.message

/-- The exchange breaks off. -/
def fails (s : System) (c : Call) (what : String) : System :=
  s.throws { c with wire := { c.wire with ended := some false } } what

/-- mirrors windows/receiver/signaling/win_http_client.cpp:75-77 -/
def sent (s : System) (c : Call) (ok : Bool) : System :=
  if ok then { s with pc := .calling .receiveResponse c } else s.fails c "HTTP send/receive failed"

/-- mirrors windows/receiver/signaling/win_http_client.cpp:77 -/
def responded (s : System) (c : Call) (ok : Bool) : System :=
  if ok then { s with pc := .checking .query c } else s.fails c "HTTP send/receive failed"

/-- mirrors windows/receiver/signaling/win_http_client.cpp:78-80 -/
def queried (s : System) (c : Call) (status : Option UInt32) : System :=
  match status with
  | none => s.fails c "HTTP status missing"
  | some status =>
    { s with pc := .calling .queryLength { c with
        status := status
        wire := { c.wire with statuses := c.wire.statuses ++ [status.toInt32.toInt] } } }

/-- mirrors windows/receiver/signaling/win_http_client.cpp:81-84 -/
def announced (s : System) (c : Call) (declared : Option UInt32) : System :=
  let c := { c with wire := { c.wire with declared := c.wire.declared ++ declared.toList.map UInt32.toNat } }
  if declared.any (fun n => decide (c.input.maxResponseBytes < n.toNat)) then s.throws c "HTTP response too large"
  else { s with pc := .checking .read c }

/-- mirrors windows/receiver/signaling/win_http_client.cpp:88-92 -/
def received (s : System) (c : Call) (chunk : Option Bytes) : System :=
  match chunk with
  | none => s.fails c "HTTP response read failed"
  | some bytes =>
    if bytes = [] then { s with pc := .checking .finish { c with wire := { c.wire with ended := some true } } }
    else
      let c := { c with wire := { c.wire with data := c.wire.data ++ [bytes] } }
      if c.input.maxResponseBytes - c.body.length < bytes.length then s.throws c "HTTP response too large"
      else { s with pc := .checking .read { c with body := c.body ++ bytes } }

end System

def next (crack : List Char → Option Components) (s : System) : Label → Option System
  | .perform input => match s.pc with
    | .idle => some (s.perform crack input)
    | _ => none
  | .cancel => some s.cancel
  | .tick ms => some { s with now := s.now + ms }
  | .check => match s.pc with
    | .checking stage c => some (s.check stage c)
    | _ => none
  | .setUp ok => match s.pc with
    | .calling (.setup step) c => some (s.setUp step c ok)
    | _ => none
  | .sent ok => match s.pc with
    | .calling .sendRequest c => some (s.sent c ok)
    | _ => none
  | .responded ok => match s.pc with
    | .calling .receiveResponse c => some (s.responded c ok)
    | _ => none
  | .queried status => match s.pc with
    | .calling .queryStatus c => some (s.queried c status)
    | _ => none
  | .announced declared => match s.pc with
    | .calling .queryLength c => some (s.announced c declared)
    | _ => none
  | .received chunk => match s.pc with
    | .calling .readData c => some (s.received c chunk)
    | _ => none

def transports (crack : List Char → Option Components) : LTS System Label where
  init s := s = {}
  step s l s' := next crack s l = some s'

/-! ## What is sent -/

/-- What leaves the machine. -/
structure Sendable (crack : List Char → Option Components) (q : HttpRequest) : Prop where
  limits : q.timeoutMs ≠ 0 ∧ q.body.length ≤ 1024 * 1024 ∧ q.url.length ≤ 8192 ∧ 35 ∉ q.url
  secure : ∃ url c, wide q.url = some url ∧ crack url = some c ∧ c.userName = [] ∧ c.password = [] ∧
    (c.scheme = .https ∨ c.scheme = .http ∧ loopback c.hostName = true)

variable {crack : List Char → Option Components} {s s' : System}

theorem refusal_none {q : HttpRequest} (h : refusal crack q = none) : Sendable crack q := by
  unfold refusal at h
  split at h
  · cases h
  rename_i hl
  push Not at hl
  split at h
  · cases h
  rename_i url hurl
  split at h
  · cases h
  rename_i c hc
  split at h
  · cases h
  rename_i hu
  push Not at hu
  split at h
  · cases h
  rename_i hs
  push Not at hs
  refine ⟨⟨hl.1, hl.2.1, hl.2.2.1, hl.2.2.2⟩, url, c, hurl, hc, hu.1, hu.2, ?_⟩
  by_cases hscheme : c.scheme = .https
  · exact Or.inl hscheme
  · exact Or.inr (hs hscheme)

theorem refusal_some {q : HttpRequest} {what : String} (h : refusal crack q = some what) : what ≠ "" := by
  unfold refusal at h
  split at h
  · cases h; decide
  split at h
  · cases h; decide
  split at h
  · cases h; decide
  split at h
  · cases h; decide
  split at h
  · cases h; decide
  · cases h

/-! ## The invariant -/

/-- The headers have been put together. -/
def Stage.prepared : Stage → Bool
  | .connect => false
  | _ => true

def Fn.prepared : Fn → Bool
  | .setup _ => false
  | _ => true

def Stage.complete : Stage → Bool
  | .finish => true
  | _ => false

/-- The call that is under way: what it has of its exchange, and what it began with. -/
structure Going (crack : List Char → Option Components) (s : System) (prepared complete : Bool) (c : Call) : Prop where
  sendable : Sendable crack c.input
  epoch : c.epoch = UInt64.ofNat c.begun
  begun : c.begun ≤ s.cancels
  deadline : c.deadline = c.start + c.input.timeoutMs.toNat
  headers : prepared = true → headerBlock c.input.headers = .ok c.headers
  sent : c.sent = true → prepared = true
  undisturbed : c.wire.interrupted = false
  status : c.status.toInt32.toInt = c.wire.statuses.getLastD 0
  body : c.body = c.wire.data.flatten
  announced : ∀ n ∈ c.wire.declared, n ≤ c.input.maxResponseBytes
  fits : c.body.length ≤ c.input.maxResponseBytes
  ended : c.wire.ended = if complete then some true else none

/-- A call that is back. A response without an error was read before any cancel
and before the deadline, and what was sent was fit to be sent. -/
structure Settled (crack : List Char → Option Components) (e : Returned) : Prop where
  answers : Answers e.call.input.maxResponseBytes e.call.wire e.response
  sent : e.call.sent = true → Sendable crack e.call.input ∧ headerBlock e.call.input.headers = .ok e.call.headers
  begun : e.call.begun ≤ e.cancels
  cancels : e.response.error = "" → UInt64.ofNat e.call.begun = UInt64.ofNat e.cancels
  timely : e.response.error = "" → e.now < e.call.start + e.call.input.timeoutMs.toNat

structure Inv (crack : List Char → Option Components) (s : System) : Prop where
  counted : s.cancellation = UInt64.ofNat s.cancels
  checking : ∀ stage c, s.pc = .checking stage c → Going crack s stage.prepared stage.complete c
  calling : ∀ fn c, s.pc = .calling fn c → Going crack s fn.prepared false c
  settled : ∀ e ∈ s.returned, Settled crack e

theorem Going.later {prepared complete : Bool} {c : Call} (h : Going crack s prepared complete c)
    (hc : s.cancels ≤ s'.cancels) : Going crack s' prepared complete c :=
  { h with begun := h.begun.trans hc }

theorem failed_answers {limit : Nat} {x : Exchange} {what : String} (hne : what ≠ "") (hx : ¬ x.Clean limit) :
    Answers limit x { error := what } :=
  ⟨⟨fun h => absurd h hne, fun h => absurd h hx⟩, fun h => absurd h hx, fun _ => ⟨rfl, rfl⟩⟩

theorem Inv.give (h : Inv crack s) {c : Call} {r : HttpResponse}
    (he : Settled crack ⟨c, r, s.cancels, s.now⟩) : Inv crack (s.give c r) where
  counted := h.counted
  checking _ _ hp := by cases hp
  calling _ _ hp := by cases hp
  settled e hm := by
    rcases List.mem_append.mp hm with hm | hm
    · exact h.settled e hm
    · rw [List.mem_singleton.mp hm]
      exact he

theorem Inv.throws (h : Inv crack s) {prepared complete : Bool} {c c' : Call} {what : String}
    (hg : Going crack s prepared complete c)
    (hsame : c'.input = c.input ∧ c'.headers = c.headers ∧ c'.sent = c.sent ∧ c'.begun = c.begun)
    (hne : what ≠ "") (hx : ¬ c'.wire.Clean c'.input.maxResponseBytes) : Inv crack (s.throws c' what) := by
  obtain ⟨hinput, hheaders, hsent, hbegun⟩ := hsame
  refine h.give ⟨failed_answers hne hx, ?_, hbegun ▸ hg.begun, fun he => absurd he hne,
    fun he => absurd he hne⟩
  intro hs
  dsimp only at hs ⊢
  rw [hinput, hheaders]
  exact ⟨hg.sendable, hg.headers (hg.sent (hsent ▸ hs))⟩

/-- The exchange breaks off; before the last check it has not ended. -/
theorem Inv.fails (h : Inv crack s) {prepared complete : Bool} {c : Call} {what : String}
    (hg : Going crack s prepared complete c) (hne : what ≠ "") : Inv crack (s.fails c what) :=
  h.throws hg ⟨rfl, rfl, rfl, rfl⟩ hne fun hc => by cases hc.ended

theorem Going.unclean {prepared : Bool} {c : Call} (h : Going crack s prepared false c) {limit : Nat} :
    ¬ c.wire.Clean limit := fun hc => by
  have hended := h.ended
  rw [hc.ended] at hended
  cases hended

theorem Inv.goChecking (h : Inv crack s) {stage : Stage} {c : Call}
    (hg : Going crack s stage.prepared stage.complete c) : Inv crack { s with pc := .checking stage c } where
  counted := h.counted
  checking stage' c' hp := by
    cases hp
    exact hg.later (Nat.le_refl _)
  calling _ _ hp := by cases hp
  settled := h.settled

theorem Inv.goCalling (h : Inv crack s) {fn : Fn} {c : Call} (hg : Going crack s fn.prepared false c) :
    Inv crack { s with pc := .calling fn c } where
  counted := h.counted
  checking _ _ hp := by cases hp
  calling fn' c' hp := by
    cases hp
    exact hg.later (Nat.le_refl _)
  settled := h.settled

theorem Inv.later (h : Inv crack s) (hpc : s'.pc = s.pc) (hreturned : s'.returned = s.returned)
    (hcancels : s.cancels ≤ s'.cancels) (hcounted : s'.cancellation = UInt64.ofNat s'.cancels) : Inv crack s' where
  counted := hcounted
  checking stage c hp := (h.checking stage c (hpc ▸ hp)).later hcancels
  calling fn c hp := (h.calling fn c (hpc ▸ hp)).later hcancels
  settled := hreturned ▸ h.settled

theorem interrupted_some {c : Call} {what : String} (h : s.interrupted c = some what) : what ≠ "" := by
  unfold System.interrupted at h
  split at h
  · cases h; decide
  split at h
  · cases h; decide
  · cases h

theorem interrupted_none {c : Call} (h : s.interrupted c = none) : c.epoch = s.cancellation ∧ s.now < c.deadline := by
  unfold System.interrupted at h
  split at h
  · cases h
  rename_i hepoch
  split at h
  · cases h
  rename_i hnow
  exact ⟨not_not.mp hepoch, Nat.lt_of_not_le hnow⟩

theorem Inv.perform (h : Inv crack s) (input : HttpRequest) : Inv crack (s.perform crack input) := by
  unfold System.perform
  dsimp only
  split
  · rename_i what hr
    refine h.give ⟨failed_answers (refusal_some hr) ?_, ?_, Nat.le_refl _, ?_, ?_⟩
    · intro hc
      cases hc.ended
    · intro hs
      cases hs
    · intro he
      exact absurd he (refusal_some hr)
    · intro he
      exact absurd he (refusal_some hr)
  · rename_i hr
    refine h.goChecking ⟨refusal_none hr, h.counted, Nat.le_refl _, rfl, ?_, ?_, rfl, rfl, rfl, ?_,
      Nat.zero_le _, ?_⟩
    · exact fun hprepared => by cases hprepared
    · exact fun hs => by cases hs
    · exact fun n hn => by cases hn
    · rfl

theorem Inv.check (h : Inv crack s) {stage : Stage} {c : Call} (hp : s.pc = .checking stage c) :
    Inv crack (s.check stage c) := by
  have hg := h.checking stage c hp
  unfold System.check
  split
  · rename_i what hi
    refine h.throws hg ⟨rfl, rfl, rfl, rfl⟩ (interrupted_some hi) ?_
    intro hc
    cases hc.undisturbed
  · rename_i hi
    obtain ⟨hepoch, hnow⟩ := interrupted_none hi
    cases stage with
    | connect => exact h.goCalling hg
    | send => exact h.goCalling { hg with sent := fun _ => rfl }
    | query => exact h.goCalling hg
    | read => exact h.goCalling hg
    | finish =>
      have hclean : c.wire.Clean c.input.maxResponseBytes :=
        ⟨hg.ended, hg.undisturbed, hg.announced, hg.body ▸ hg.fits⟩
      have hanswers : Answers c.input.maxResponseBytes c.wire { status := c.status.toInt32.toInt, body := c.body } :=
        ⟨⟨fun _ => hclean, fun _ => rfl⟩, fun _ => ⟨hg.status, hg.body⟩, fun hn => absurd hclean hn⟩
      refine h.give ⟨hanswers, fun hs => ⟨hg.sendable, hg.headers (hg.sent hs)⟩, hg.begun, ?_, ?_⟩
      · intro _
        rw [← hg.epoch, hepoch, h.counted]
      · intro _
        exact hg.deadline ▸ hnow

theorem setup_message (step : Setup) : step.message ≠ "" := by cases step <;> decide

theorem Inv.setUp (h : Inv crack s) {step : Setup} {c : Call} (hp : s.pc = .calling (.setup step) c) (ok : Bool) :
    Inv crack (s.setUp step c ok) := by
  have hg := h.calling _ c hp
  unfold System.setUp
  cases ok with
  | false => exact h.throws hg ⟨rfl, rfl, rfl, rfl⟩ (setup_message step) hg.unclean
  | true =>
    cases step with
    | connect =>
      rw [if_pos rfl]
      dsimp only
      split
      · exact h.throws hg ⟨rfl, rfl, rfl, rfl⟩ (by decide) hg.unclean
      · exact h.goCalling hg
    | openRequest => exact h.goCalling hg
    | setTimeouts => exact h.goCalling hg
    | setOption =>
      rw [if_pos rfl]
      dsimp only
      split
      · rename_i what hw
        exact h.throws hg ⟨rfl, rfl, rfl, rfl⟩ (headerBlock_error hw) hg.unclean
      · rename_i headers hw
        exact h.goChecking { hg with headers := fun _ => hw, sent := fun _ => rfl }

theorem Inv.sent (h : Inv crack s) {c : Call} (hp : s.pc = .calling .sendRequest c) (ok : Bool) :
    Inv crack (s.sent c ok) := by
  have hg := h.calling _ c hp
  cases ok with
  | false => exact h.fails hg (by decide)
  | true => exact h.goCalling hg

theorem Inv.responded (h : Inv crack s) {c : Call} (hp : s.pc = .calling .receiveResponse c) (ok : Bool) :
    Inv crack (s.responded c ok) := by
  have hg := h.calling _ c hp
  cases ok with
  | false => exact h.fails hg (by decide)
  | true => exact h.goChecking hg

theorem Inv.queried (h : Inv crack s) {c : Call} (hp : s.pc = .calling .queryStatus c) (status : Option UInt32) :
    Inv crack (s.queried c status) := by
  have hg := h.calling _ c hp
  cases status with
  | none => exact h.fails hg (by decide)
  | some status => exact h.goCalling { hg with status := by simp }

theorem Inv.announced (h : Inv crack s) {c : Call} (hp : s.pc = .calling .queryLength c) (declared : Option UInt32) :
    Inv crack (s.announced c declared) := by
  have hg := h.calling _ c hp
  unfold System.announced
  dsimp only
  split
  · rename_i hlarge
    refine h.throws hg ⟨rfl, rfl, rfl, rfl⟩ (by decide) fun hc => ?_
    rw [Option.any_eq_true] at hlarge
    obtain ⟨n, hn, hlt⟩ := hlarge
    have hannounced := hc.announced n.toNat (by simp [hn])
    exact absurd hannounced (Nat.not_le.mpr (of_decide_eq_true hlt))
  · rename_i hsmall
    refine h.goChecking { hg with announced := ?_ }
    intro n hn
    rcases List.mem_append.mp hn with hn | hn
    · exact hg.announced n hn
    · obtain ⟨m, hm, rfl⟩ := List.mem_map.mp hn
      have hm : declared = some m := by simpa using hm
      simpa [hm] using hsmall

theorem Inv.received (h : Inv crack s) {c : Call} (hp : s.pc = .calling .readData c) (chunk : Option Bytes) :
    Inv crack (s.received c chunk) := by
  have hg := h.calling _ c hp
  unfold System.received
  cases chunk with
  | none => exact h.fails hg (by decide)
  | some bytes =>
    have hflat : (c.wire.data ++ [bytes]).flatten = c.body ++ bytes := by simp [hg.body]
    dsimp only
    split
    · exact h.goChecking { hg with ended := rfl }
    split
    · rename_i hlarge
      refine h.throws hg ⟨rfl, rfl, rfl, rfl⟩ (by decide) fun hc => ?_
      have hreceived := hc.received
      dsimp only at hreceived
      rw [hflat, List.length_append] at hreceived
      omega
    · rename_i hsmall
      refine h.goChecking { hg with body := hflat.symm, fits := ?_ }
      dsimp only
      rw [List.length_append]
      have hfits := hg.fits
      omega

theorem inv_init : Inv crack {} where
  counted := rfl
  checking _ _ hp := by cases hp
  calling _ _ hp := by cases hp
  settled e he := by cases he

/-- What a step does: it is one of the functions above. -/
theorem inv_next {l : Label} (h : Inv crack s) (hn : next crack s l = some s') : Inv crack s' := by
  cases l with
  | perform input =>
    simp only [next] at hn
    split at hn
    · cases hn
      exact h.perform input
    · cases hn
  | cancel =>
    cases hn
    refine h.later rfl rfl (Nat.le_succ _) ?_
    simp [System.cancel, h.counted]
  | tick ms =>
    cases hn
    exact h.later rfl rfl (Nat.le_refl _) h.counted
  | check =>
    simp only [next] at hn
    split at hn
    · rename_i stage c hp
      cases hn
      exact h.check hp
    · cases hn
  | setUp ok =>
    simp only [next] at hn
    split at hn
    · rename_i step c hp
      cases hn
      exact h.setUp hp ok
    · cases hn
  | sent ok =>
    simp only [next] at hn
    split at hn
    · rename_i c hp
      cases hn
      exact h.sent hp ok
    · cases hn
  | responded ok =>
    simp only [next] at hn
    split at hn
    · rename_i c hp
      cases hn
      exact h.responded hp ok
    · cases hn
  | queried status =>
    simp only [next] at hn
    split at hn
    · rename_i c hp
      cases hn
      exact h.queried hp status
    · cases hn
  | announced declared =>
    simp only [next] at hn
    split at hn
    · rename_i c hp
      cases hn
      exact h.announced hp declared
    · cases hn
  | received chunk =>
    simp only [next] at hn
    split at hn
    · rename_i c hp
      cases hn
      exact h.received hp chunk
    · cases hn

theorem inv_inductive : (transports crack).Inductive (Inv crack) where
  init s hs := by
    rw [show s = {} from hs]
    exact inv_init
  step _ _ _ h hn := inv_next h hn

theorem count_inj {m n : Nat} (hle : m ≤ n) (hn : n < 2 ^ 64) (h : UInt64.ofNat m = UInt64.ofNat n) : m = n := by
  have hnat := congrArg UInt64.toNat h
  rwa [UInt64.toNat_ofNat_of_lt' (Nat.lt_of_le_of_lt hle hn), UInt64.toNat_ofNat_of_lt' hn] at hnat

/-- Every response is that of its own exchange, whole or an error. One without an
error was read out before any cancel since its start, and in time; what was sent
was fit to be sent, with the headers in one block. -/
theorem fetched (h : (transports crack).Reachable s) : ∀ e ∈ s.returned,
    Answers e.call.input.maxResponseBytes e.call.wire e.response ∧
    (e.response.error = "" → (e.cancels < 2 ^ 64 → e.call.begun = e.cancels) ∧
      e.now < e.call.start + e.call.input.timeoutMs.toNat) ∧
    (e.call.sent = true → Sendable crack e.call.input ∧ headerBlock e.call.input.headers = .ok e.call.headers) := by
  intro e he
  have hsettled := (inv_inductive.reachable s h).settled e he
  refine ⟨hsettled.answers, fun hok => ⟨?_, hsettled.timely hok⟩, hsettled.sent⟩
  intro hn
  exact count_inj hsettled.begun hn (hsettled.cancels hok)

/-- A development server. -/
def development (url : List Char) : Option Components :=
  if url = "http://localhost:8787/v1/sessions".toList then some ⟨.http, "localhost".toList, [], []⟩ else none

def create : HttpRequest :=
  { method := L1.Json.ascii "POST", url := L1.Json.ascii "http://localhost:8787/v1/sessions", body := []
    headers := [(L1.Json.ascii "Accept", L1.Json.ascii "application/json")] }

def after (ls : List Label) : System := LTS.played (next development) (fun _ _ => True) {} ls

theorem after_reachable {ls : List Label}
    (h : (LTS.play (next development) (fun _ _ => True) {} ls).isSome = true) :
    (transports development).Reachable (after ls) :=
  ⟨{}, ls, rfl, (LTS.played_run (fun _ _ _ hs => hs) h).of_guarded⟩

def fetch : List Label :=
  [.perform create, .check, .setUp true, .setUp true, .setUp true, .setUp true, .check, .sent true, .responded true,
    .tick 1500, .check, .queried (some 201), .announced none, .check, .received (some [123]), .check,
    .received (some [125]), .check, .received (some []), .check]

theorem fetched_fetch : ∃ e, (after fetch).returned = [e] ∧ e.response.body = [123, 125] ∧
    (e.cancels < 2 ^ 64 → e.call.begun = e.cancels) ∧ e.now < e.call.start + e.call.input.timeoutMs.toNat := by
  have hlength : (after fetch).returned.length = 1 := by decide +kernel
  have hgot : (after fetch).returned.map (fun e => (e.response.error, e.response.body)) = [("", [123, 125])] := by
    decide +kernel
  obtain ⟨e, he⟩ := List.length_eq_one_iff.mp hlength
  rw [he] at hgot
  obtain ⟨herror, hbody⟩ : e.response.error = "" ∧ e.response.body = [123, 125] := by simpa using hgot
  have hreachable : (transports development).Reachable (after fetch) := after_reachable (by decide +kernel)
  have hfetched := fetched hreachable e (by rw [he]; simp)
  exact ⟨e, he, hbody, hfetched.2.1 herror⟩

/-! ## After `cancel` -/

/-- The steps a `perform` makes. -/
def Label.own : Label → Bool
  | .perform _ | .cancel | .tick _ => false
  | _ => true

def Label.begins : Label → Bool
  | .perform _ => true
  | _ => false

/-- The calls of WinHTTP up to the next check. -/
def Fn.left : Fn → Nat
  | .setup .connect => 4
  | .setup .openRequest => 3
  | .setup .setTimeouts | .sendRequest | .queryStatus => 2
  | .setup .setOption | .receiveResponse | .queryLength | .readData => 1

/-- These calls, and the check. -/
def Pc.left : Pc → Nat
  | .idle => 0
  | .checking .. => 1
  | .calling fn _ => fn.left + 1

/-- A call that is under way has gone to `WinHttpSendRequest`. -/
def System.sending (s : System) : Prop := ∃ c ∈ s.pc.call, c.sent = true

/-- The call under way, if any, is a cancelled one and was sent before; what was
returned since is an error. -/
structure Cancelled (s s' : System) : Prop where
  begun : ∀ c ∈ s'.pc.call, c.begun < s'.cancels
  sent : ∀ c ∈ s'.pc.call, c.sent = true → s.sending
  returned : ∃ more, s'.returned = s.returned ++ more ∧
    ∀ e ∈ more, e.response.error ≠ "" ∧ (e.call.sent = true → s.sending)

theorem Inv.going (h : Inv crack s) {c : Call} (hc : s.pc.call = some c) :
    c.epoch = UInt64.ofNat c.begun ∧ c.begun ≤ s.cancels := by
  cases hp : s.pc with
  | idle => simp [hp, Pc.call] at hc
  | checking stage c' =>
    obtain rfl : c' = c := by simpa [hp, Pc.call] using hc
    have hg := h.checking stage _ hp
    exact ⟨hg.epoch, hg.begun⟩
  | calling fn c' =>
    obtain rfl : c' = c := by simpa [hp, Pc.call] using hc
    have hg := h.calling fn _ hp
    exact ⟨hg.epoch, hg.begun⟩

theorem Cancelled.throws {base : System} (h : Cancelled base s) {c c' : Call} (hc : s.pc.call = some c)
    (hsent : c'.sent = c.sent) {what : String} (hne : what ≠ "") : Cancelled base (s.throws c' what) where
  begun c hc := by cases hc
  sent c hc := by cases hc
  returned := by
    obtain ⟨more, hmore, hall⟩ := h.returned
    refine ⟨more ++ [⟨c', { error := what }, s.cancels, s.now⟩],
      by rw [System.throws, System.give, hmore, List.append_assoc], fun e he => ?_⟩
    rcases List.mem_append.mp he with he | he
    · exact hall e he
    · rw [List.mem_singleton.mp he]
      exact ⟨hne, fun hs => h.sent c hc (hsent.symm.trans hs)⟩

theorem Cancelled.goes {base : System} (h : Cancelled base s) {c c' : Call} (hc : s.pc.call = some c)
    (hbegun : c'.begun = c.begun) (hsent : c'.sent = c.sent) {pc : Pc} (hpc : pc.call = some c') :
    Cancelled base { s with pc := pc } where
  begun d hd := by
    dsimp only at hd
    obtain rfl : c' = d := by simpa [hpc] using hd
    rw [hbegun]
    exact h.begun c hc
  sent d hd hs := by
    dsimp only at hd
    obtain rfl : c' = d := by simpa [hpc] using hd
    exact h.sent c hc (hsent.symm.trans hs)
  returned := h.returned

/-- A function of WinHTTP has returned: `perform` throws, or goes on. -/
inductive Outcome (s : System) (fn : Fn) (c : Call) : System → Prop
  | thrown (c' : Call) (what : String) (hne : what ≠ "") (hsent : c'.sent = c.sent) : Outcome s fn c (s.throws c' what)
  | on (pc : Pc) (c' : Call) (hcall : pc.call = some c') (hbegun : c'.begun = c.begun) (hsent : c'.sent = c.sent)
      (hleft : pc.left ≤ fn.left) : Outcome s fn c { s with pc := pc }

theorem setUp_outcome (s : System) (step : Setup) (c : Call) (ok : Bool) :
    Outcome s (.setup step) c (s.setUp step c ok) := by
  unfold System.setUp
  cases ok with
  | false => exact .thrown c _ (setup_message step) rfl
  | true =>
    cases step with
    | connect =>
      rw [if_pos rfl]
      dsimp only
      split
      · exact .thrown c _ (by decide) rfl
      · exact .on _ c rfl rfl rfl (Nat.le_refl 4)
    | openRequest => exact .on _ c rfl rfl rfl (Nat.le_refl 3)
    | setTimeouts => exact .on _ c rfl rfl rfl (Nat.le_refl 2)
    | setOption =>
      rw [if_pos rfl]
      dsimp only
      split
      · rename_i hw
        exact .thrown c _ (headerBlock_error hw) rfl
      · exact .on _ _ rfl rfl rfl (Nat.le_refl 1)

theorem sent_outcome (s : System) (c : Call) (ok : Bool) : Outcome s .sendRequest c (s.sent c ok) := by
  cases ok with
  | false => exact .thrown _ _ (by decide) rfl
  | true => exact .on _ c rfl rfl rfl (Nat.le_refl 2)

theorem responded_outcome (s : System) (c : Call) (ok : Bool) : Outcome s .receiveResponse c (s.responded c ok) := by
  cases ok with
  | false => exact .thrown _ _ (by decide) rfl
  | true => exact .on _ c rfl rfl rfl (Nat.le_refl 1)

theorem queried_outcome (s : System) (c : Call) (status : Option UInt32) :
    Outcome s .queryStatus c (s.queried c status) := by
  cases status with
  | none => exact .thrown _ _ (by decide) rfl
  | some status => exact .on _ _ rfl rfl rfl (Nat.le_refl 2)

theorem announced_outcome (s : System) (c : Call) (declared : Option UInt32) :
    Outcome s .queryLength c (s.announced c declared) := by
  unfold System.announced
  dsimp only
  split
  · exact .thrown _ _ (by decide) rfl
  · exact .on _ _ rfl rfl rfl (Nat.le_refl 1)

theorem received_outcome (s : System) (c : Call) (chunk : Option Bytes) :
    Outcome s .readData c (s.received c chunk) := by
  unfold System.received
  cases chunk with
  | none => exact .thrown _ _ (by decide) rfl
  | some bytes =>
    dsimp only
    split
    · exact .on _ _ rfl rfl rfl (Nat.le_refl 1)
    split
    · exact .thrown _ _ (by decide) rfl
    · exact .on _ _ rfl rfl rfl (Nat.le_refl 1)

/-- What a step is. -/
theorem next_cases {l : Label} (hn : next crack s l = some s') :
    (∃ input, l = .perform input ∧ s' = s.perform crack input) ∨ (l = .cancel ∧ s' = s.cancel) ∨
      (∃ ms, l = .tick ms ∧ s' = { s with now := s.now + ms }) ∨
      (∃ stage c, l = .check ∧ s.pc = .checking stage c ∧ s' = s.check stage c) ∨
      ∃ fn c, l.own = true ∧ s.pc = .calling fn c ∧ Outcome s fn c s' := by
  cases l with
  | perform input =>
    simp only [next] at hn
    split at hn
    · cases hn
      exact .inl ⟨input, rfl, rfl⟩
    · cases hn
  | cancel =>
    cases hn
    exact .inr (.inl ⟨rfl, rfl⟩)
  | tick ms =>
    cases hn
    exact .inr (.inr (.inl ⟨ms, rfl, rfl⟩))
  | check =>
    simp only [next] at hn
    split at hn
    · rename_i stage c hp
      cases hn
      exact .inr (.inr (.inr (.inl ⟨stage, c, rfl, hp, rfl⟩)))
    · cases hn
  | setUp ok =>
    simp only [next] at hn
    split at hn
    · rename_i step c hp
      cases hn
      exact .inr (.inr (.inr (.inr ⟨_, c, rfl, hp, setUp_outcome s step c ok⟩)))
    · cases hn
  | sent ok =>
    simp only [next] at hn
    split at hn
    · rename_i c hp
      cases hn
      exact .inr (.inr (.inr (.inr ⟨_, c, rfl, hp, sent_outcome s c ok⟩)))
    · cases hn
  | responded ok =>
    simp only [next] at hn
    split at hn
    · rename_i c hp
      cases hn
      exact .inr (.inr (.inr (.inr ⟨_, c, rfl, hp, responded_outcome s c ok⟩)))
    · cases hn
  | queried status =>
    simp only [next] at hn
    split at hn
    · rename_i c hp
      cases hn
      exact .inr (.inr (.inr (.inr ⟨_, c, rfl, hp, queried_outcome s c status⟩)))
    · cases hn
  | announced declared =>
    simp only [next] at hn
    split at hn
    · rename_i c hp
      cases hn
      exact .inr (.inr (.inr (.inr ⟨_, c, rfl, hp, announced_outcome s c declared⟩)))
    · cases hn
  | received chunk =>
    simp only [next] at hn
    split at hn
    · rename_i c hp
      cases hn
      exact .inr (.inr (.inr (.inr ⟨_, c, rfl, hp, received_outcome s c chunk⟩)))
    · cases hn

theorem Outcome.cancelled {base : System} {fn : Fn} {c : Call} (ho : Outcome s fn c s') (hm : Cancelled base s)
    (hp : s.pc = .calling fn c) : Cancelled base s' ∧ s'.pc.left + 1 ≤ s.pc.left := by
  have hc : s.pc.call = some c := by rw [hp]; rfl
  cases ho with
  | thrown c' what hne hsent =>
    refine ⟨hm.throws hc hsent hne, ?_⟩
    rw [hp]
    exact Nat.succ_le_succ (Nat.zero_le _)
  | on pc c' hcall hbegun hsent hleft =>
    refine ⟨hm.goes hc hbegun hsent hcall, ?_⟩
    rw [hp]
    exact Nat.succ_le_succ hleft

/-- The next check throws. -/
theorem check_cancelled {base : System} {stage : Stage} {c : Call} (h : Inv crack s) (hm : Cancelled base s)
    (hp : s.pc = .checking stage c) (hlt : s.cancels < 2 ^ 64) :
    Cancelled base (s.check stage c) ∧ (s.check stage c).pc.left + 1 ≤ s.pc.left := by
  have hc : s.pc.call = some c := by rw [hp]; rfl
  have hbegun := hm.begun c hc
  have hi : s.interrupted c = some "HTTP request cancelled" := by
    unfold System.interrupted
    rw [if_pos]
    rw [(h.going hc).1, h.counted]
    intro he
    exact absurd (count_inj (Nat.le_of_lt hbegun) hlt he) (Nat.ne_of_lt hbegun)
  unfold System.check
  rw [hi]
  have hsent : ({ c with wire := { c.wire with interrupted := true } } : Call).sent = c.sent := rfl
  have hwhat : "HTTP request cancelled" ≠ "" := by decide
  have hthrown := hm.throws hc hsent hwhat
  refine ⟨hthrown, ?_⟩
  rw [hp]
  exact Nat.le_refl _

theorem cancelled_next {base : System} {l : Label} (h : Inv crack s) (hm : Cancelled base s)
    (hl : l.begins = false) (hlt : s.cancels < 2 ^ 64) (hn : next crack s l = some s') :
    Cancelled base s' ∧ s'.pc.left + (if l.own then 1 else 0) ≤ s.pc.left := by
  rcases next_cases hn with ⟨input, rfl, -⟩ | ⟨rfl, rfl⟩ | ⟨ms, rfl, rfl⟩ | ⟨stage, c, rfl, hp, rfl⟩ |
    ⟨fn, c, hown, hp, ho⟩
  · cases hl
  · exact ⟨⟨fun c hc => Nat.lt_succ_of_lt (hm.begun c hc), hm.sent, hm.returned⟩, Nat.le_refl _⟩
  · exact ⟨⟨hm.begun, hm.sent, hm.returned⟩, Nat.le_refl _⟩
  · exact check_cancelled h hm hp hlt
  · rw [if_pos hown]
    exact ho.cancelled hm hp

theorem cancels_next {l : Label} (hn : next crack s l = some s') : s.cancels ≤ s'.cancels := by
  rcases next_cases hn with ⟨input, -, rfl⟩ | ⟨-, rfl⟩ | ⟨ms, -, rfl⟩ | ⟨stage, c, -, -, rfl⟩ | ⟨fn, c, -, -, ho⟩
  · unfold System.perform
    dsimp only
    split <;> exact Nat.le_refl _
  · exact Nat.le_succ _
  · exact Nat.le_refl _
  · unfold System.check
    split
    · exact Nat.le_refl _
    · split <;> exact Nat.le_refl _
  · cases ho <;> exact Nat.le_refl _

theorem cancels_run {ls : List Label} (hr : (transports crack).Run s ls s') : s.cancels ≤ s'.cancels := by
  induction hr with
  | nil => exact Nat.le_refl _
  | cons hn _ ih => exact (cancels_next hn).trans ih

theorem cancelled_run {base : System} {ls : List Label} (hr : (transports crack).Run s ls s')
    (hl : ∀ l ∈ ls, l.begins = false) (hlt : s'.cancels < 2 ^ 64) :
    Inv crack s → Cancelled base s → Cancelled base s' ∧ Inv crack s' ∧ ls.countP Label.own ≤ s.pc.left := by
  induction hr with
  | nil => exact fun h hm => ⟨hm, h, Nat.zero_le _⟩
  | @cons s t s' l ls hn hrun ih =>
    intro h hm
    have hs : s.cancels < 2 ^ 64 := Nat.lt_of_le_of_lt ((cancels_next hn).trans (cancels_run hrun)) hlt
    obtain ⟨hmt, hleft⟩ := cancelled_next h hm (hl l List.mem_cons_self) hs hn
    obtain ⟨hm', h', hrest⟩ := ih (fun l' hl' => hl l' (List.mem_cons_of_mem _ hl')) hlt (inv_next h hn) hmt
    refine ⟨hm', h', ?_⟩
    rw [List.countP_cons]
    omega

/-- A `perform` never waits for anything but WinHTTP. -/
theorem own_enabled (hp : s.pc ≠ .idle) : ∃ l s', l.own = true ∧ next crack s l = some s' := by
  cases hpc : s.pc with
  | idle => exact absurd hpc hp
  | checking stage c => exact ⟨.check, s.check stage c, rfl, by simp [next, hpc]⟩
  | calling fn c =>
    cases fn with
    | setup step => exact ⟨.setUp true, s.setUp step c true, rfl, by simp [next, hpc]⟩
    | sendRequest => exact ⟨.sent true, s.sent c true, rfl, by simp [next, hpc]⟩
    | receiveResponse => exact ⟨.responded true, s.responded c true, rfl, by simp [next, hpc]⟩
    | queryStatus => exact ⟨.queried none, s.queried c none, rfl, by simp [next, hpc]⟩
    | queryLength => exact ⟨.announced none, s.announced c none, rfl, by simp [next, hpc]⟩
    | readData => exact ⟨.received none, s.received c none, rfl, by simp [next, hpc]⟩

theorem left_le (pc : Pc) : pc.left ≤ 5 := by
  have hfn : ∀ fn : Fn, fn.left ≤ 4 := by
    intro fn
    cases fn with
    | setup step => cases step <;> decide
    | _ => decide
  cases pc with
  | idle => exact Nat.zero_le _
  | checking stage c => exact Nat.succ_le_succ (Nat.zero_le 4)
  | calling fn c => exact Nat.succ_le_succ (hfn fn)

/-- A cancelled request comes no further than its next check: the calls of WinHTTP
up to there are made, it is not sent if it was not before, and it ends in an error. -/
theorem cancel_reaches {ls : List Label} (h : (transports crack).Reachable s)
    (hr : (transports crack).Run s.cancel ls s') (hl : ∀ l ∈ ls, l.begins = false) (hlt : s'.cancels < 2 ^ 64) :
    ls.countP Label.own ≤ s.pc.left ∧ s.pc.left ≤ 5 ∧
    (∃ more, s'.returned = s.returned ++ more ∧
      ∀ e ∈ more, e.response.error ≠ "" ∧ (e.call.sent = true → s.sending)) ∧
    (s'.pc ≠ .idle → ∃ l s'', l.own = true ∧ next crack s' l = some s'') := by
  have hinv := inv_inductive.reachable s h
  have hm : Cancelled s s.cancel :=
    ⟨fun c hc => Nat.lt_succ_of_le (hinv.going hc).2, fun c hc hs => ⟨c, hc, hs⟩, [], by simp [System.cancel], by simp⟩
  obtain ⟨hm', -, hcount⟩ := cancelled_run hr hl hlt (inv_next (l := .cancel) hinv rfl) hm
  exact ⟨hcount, left_le s.pc, hm'.returned, own_enabled⟩

def connecting : List Label := [.perform create, .check]

/-- The calls from `WinHttpConnect` to the second check. -/
def settingUp : List Label := [.setUp true, .setUp true, .setUp true, .setUp true, .check]

def afterCancel (ls : List Label) : System :=
  LTS.played (next development) (fun _ _ => True) (after connecting).cancel ls

theorem cancel_reaches_connecting :
    (afterCancel settingUp).returned.map (fun e => (e.response.error, e.call.sent)) =
      [("HTTP request cancelled", false)] ∧ List.countP Label.own settingUp ≤ 5 := by
  have hreachable : (transports development).Reachable (after connecting) := after_reachable (by decide +kernel)
  have hrun : (transports development).Run (after connecting).cancel settingUp (afterCancel settingUp) :=
    (LTS.played_run (G := fun _ _ => True) (fun _ _ _ hs => hs) (by decide +kernel)).of_guarded
  have hreaches := cancel_reaches hreachable hrun (by simp [settingUp, Label.begins]) (by decide +kernel)
  exact ⟨by decide +kernel, hreaches.1.trans hreaches.2.1⟩

end KmVirtualCamera.L5.WinHttp
