import Mathlib
import KmVirtualCamera.L1Encoding.Json

/-!
# The signaling messages (`session_codec.h`)

What the receiver takes from the signaling server's JSON: a created session
with its poll policy and ICE servers, and an offer. An exception is its text.

The limits on the poll policy are what the worker's loop relies on
(`decodeSession_poll`): no interval is shorter than one slice of its sleep, the
interval has a ceiling, and the session ends within an hour.
-/
namespace KmVirtualCamera.L1.SessionCodec
open L1.H264 (Bytes)
open L1.Json (Value ascii)

/-- mirrors shared/receiver/signaling/signaling_models.h:9-13 -/
structure IceServer where
  urls : List Bytes
  username : Bytes := []
  credential : Bytes := []

/-- mirrors shared/receiver/signaling/signaling_models.h:15-18 -/
structure RtcConfiguration where
  iceServers : List IceServer := []
  iceTransportPolicy : Bytes := ascii "all"

/-- mirrors shared/receiver/signaling/signaling_models.h:20-25 -/
structure PollPolicy where
  initialIntervalMs : UInt32 := 1000
  backoffAfterMs : UInt32 := 15000
  maxIntervalMs : UInt32 := 2000
  timeoutMs : UInt32 := 60000

/-- mirrors shared/receiver/signaling/signaling_models.h:27-34 -/
structure CreateSessionResponse where
  sessionId : Bytes
  receiverToken : Bytes
  joinUrl : Bytes
  expiresAt : Bytes
  poll : PollPolicy := {}
  rtcConfiguration : RtcConfiguration := {}

/-- mirrors shared/receiver/signaling/signaling_models.h:36-39 -/
structure OfferDescription where
  type : Bytes := ascii "offer"
  sdp : Bytes

/-! ## Checks -/

/-- mirrors shared/receiver/signaling/session_codec.h:8-11 -/
def safeHeader (s : Bytes) : Bool := s.all fun c => !(c.toNat < 32 || c.toNat == 127)

def sessionIdByte (c : UInt8) : Bool :=
  ('a'.toUInt8 ≤ c && c ≤ 'z'.toUInt8) || ('A'.toUInt8 ≤ c && c ≤ 'Z'.toUInt8) ||
    ('0'.toUInt8 ≤ c && c ≤ '9'.toUInt8) || c == '_'.toUInt8 || c == '-'.toUInt8

/-- mirrors shared/receiver/signaling/session_codec.h:12-16 -/
def safeSessionId (s : Bytes) : Bool :=
  !(s.isEmpty || s.length > 128) && s.all sessionIdByte

def startsWith (s : Bytes) (p : String) : Bool := (ascii p).isPrefixOf s

/-- mirrors shared/receiver/signaling/session_codec.h:17-20 -/
def supportedIceUrl (s : Bytes) : Bool :=
  s.length ≤ 2048 && safeHeader s && !s.contains ' '.toUInt8 &&
    (startsWith s "stun:" || startsWith s "turn:" || startsWith s "turns:")

/-- mirrors shared/km/json.h:154 -/
def parse (body : Bytes) : Except String Value :=
  match Json.parse body with
  | .ok v => .ok v
  | .error _ => .error "invalid or oversized JSON"

/-- mirrors shared/receiver/signaling/session_codec.h:25-28 -/
def checkIdentity (out : CreateSessionResponse) : Except String Unit :=
  if !safeSessionId out.sessionId || out.receiverToken.isEmpty || out.receiverToken.length > 8192 ||
      !safeHeader out.receiverToken || !safeHeader out.joinUrl || out.joinUrl.length > 8192 ||
      !(startsWith out.joinUrl "https://" || startsWith out.joinUrl "http://") then
    .error "invalid session identity or URL"
  else .ok ()

/-- mirrors shared/receiver/signaling/session_codec.h:34-37 -/
def checkPoll (poll : PollPolicy) : Except String Unit :=
  if poll.initialIntervalMs < 20 || poll.maxIntervalMs < poll.initialIntervalMs ||
      poll.maxIntervalMs > 60000 || poll.timeoutMs < poll.maxIntervalMs ||
      poll.timeoutMs > 3600000 || poll.backoffAfterMs > poll.timeoutMs then
    .error "invalid poll policy"
  else .ok ()

/-! ## ICE servers -/

/-- mirrors shared/receiver/signaling/session_codec.h:46-49 -/
def decodeUrls (urls : Value) : Except String (List Bytes) :=
  match urls with
  | .string url => .ok [url]
  | .array urls => urls.mapM Value.asString
  | _ => .error "invalid ICE URLs"

/-- An optional string member.
mirrors shared/receiver/signaling/session_codec.h:39,51-52,55 -/
def optional (item : Value) (name : String) : Except String (Option Bytes) :=
  match item.find (ascii name) with
  | some v => do
    let text ← v.asString
    .ok (some text)
  | none => .ok none

/-- mirrors shared/receiver/signaling/session_codec.h:57-59 -/
def checkUrl (server : IceServer) (url : Bytes) : Except String Unit :=
  if !supportedIceUrl url then .error "unsupported ICE URL"
  else if (startsWith url "turn:" || startsWith url "turns:") &&
      (server.username.isEmpty || server.credential.isEmpty) then .error "missing TURN credentials"
  else .ok ()

/-- One server, after `urlCount` URLs of those before it.
mirrors shared/receiver/signaling/session_codec.h:45-61 -/
def decodeServer (urlCount : Nat) (item : Value) : Except String (IceServer × Nat) := do
  let urls ← decodeUrls (← item.at (ascii "urls"))
  if urls.isEmpty || urlCount + urls.length > 64 then .error "too many ICE URLs"
  else do
    let username ← optional item "username"
    let credential ← optional item "credential"
    let server : IceServer :=
      { urls := urls, username := username.getD [], credential := credential.getD [] }
    if server.username.length > 4096 || server.credential.length > 4096 ||
        !safeHeader server.username || !safeHeader server.credential then
      .error "invalid ICE credentials"
    else do
      let kind ← optional item "credentialType"
      if kind.any (· != ascii "password") then .error "unsupported ICE credential type"
      else do
        server.urls.forM (checkUrl server)
        .ok (server, urlCount + urls.length)

def decodeServers : List Value → Nat → Except String (List IceServer)
  | [], _ => .ok []
  | item :: items, urlCount => do
    let (server, urlCount) ← decodeServer urlCount item
    let servers ← decodeServers items urlCount
    .ok (server :: servers)

/-- mirrors shared/receiver/signaling/session_codec.h:38-62 -/
def decodeRtcConfiguration (config : Value) : Except String RtcConfiguration := do
  let policy ← optional config "iceTransportPolicy"
  let policy := policy.getD (ascii "all")
  if policy != ascii "all" && policy != ascii "relay" then .error "invalid ICE transport policy"
  else do
    match ← config.at (ascii "iceServers") with
    | .array servers =>
      if servers.length > 32 then .error "invalid ICE server list"
      else do
        let servers ← decodeServers servers 0
        .ok { iceServers := servers, iceTransportPolicy := policy }
    | _ => .error "invalid ICE server list"

/-! ## Messages -/

/-- mirrors shared/receiver/signaling/session_codec.h:21-64 -/
def decodeSession (body : Bytes) : Except String CreateSessionResponse := do
  let root ← parse body
  let sessionId ← (← root.at (ascii "sessionId")).asString
  let receiverToken ← (← root.at (ascii "receiverToken")).asString
  let joinUrl ← (← root.at (ascii "joinUrl")).asString
  let expiresAt ← (← root.at (ascii "expiresAt")).asString
  let out : CreateSessionResponse :=
    { sessionId := sessionId, receiverToken := receiverToken, joinUrl := joinUrl, expiresAt := expiresAt }
  checkIdentity out
  let poll ← root.at (ascii "poll")
  let initialIntervalMs ← (← poll.at (ascii "initialIntervalMs")).uint32
  let backoffAfterMs ← (← poll.at (ascii "backoffAfterMs")).uint32
  let maxIntervalMs ← (← poll.at (ascii "maxIntervalMs")).uint32
  let timeoutMs ← (← poll.at (ascii "timeoutMs")).uint32
  let poll : PollPolicy :=
    { initialIntervalMs := initialIntervalMs, backoffAfterMs := backoffAfterMs
      maxIntervalMs := maxIntervalMs, timeoutMs := timeoutMs }
  checkPoll poll
  let rtcConfiguration ← decodeRtcConfiguration (← root.at (ascii "rtcConfiguration"))
  .ok { out with poll := poll, rtcConfiguration := rtcConfiguration }

/-- mirrors shared/receiver/signaling/session_codec.h:65-71 -/
def decodeOffer (body : Bytes) : Except String OfferDescription := do
  let root ← parse body
  let type ← (← root.at (ascii "type")).asString
  let sdp ← (← root.at (ascii "sdp")).asString
  if type != ascii "offer" || sdp.isEmpty || sdp.length > 512 * 1024 || sdp.contains 0 then
    .error "invalid SDP offer"
  else .ok { type := type, sdp := sdp }

/-! ## What is accepted -/

/-- The limits `decodeSession` puts on a poll policy. -/
structure PollPolicy.Valid (p : PollPolicy) : Prop where
  slice : 20 ≤ p.initialIntervalMs.toNat
  initial : p.initialIntervalMs.toNat ≤ p.maxIntervalMs.toNat
  max : p.maxIntervalMs.toNat ≤ p.timeoutMs.toNat
  ceiling : p.maxIntervalMs.toNat ≤ 60000
  hour : p.timeoutMs.toNat ≤ 3600000
  backoff : p.backoffAfterMs.toNat ≤ p.timeoutMs.toNat

theorem checkPoll_ok {p : PollPolicy} (h : checkPoll p = .ok ()) : p.Valid := by
  unfold checkPoll at h
  split at h
  · cases h
  · next hc =>
    simp only [Bool.or_eq_true, decide_eq_true_eq, not_or, UInt32.lt_iff_toNat_lt, gt_iff_lt] at hc
    obtain ⟨⟨⟨⟨⟨h₁, h₂⟩, h₃⟩, h₄⟩, h₅⟩, h₆⟩ := hc
    exact ⟨by simpa using h₁, by omega, by omega, by simpa using h₃, by simpa using h₅, by omega⟩

theorem bind_ok {ε α β : Type} {x : Except ε α} {f : α → Except ε β} {b : β}
    (h : (x >>= f) = .ok b) : ∃ a, x = .ok a ∧ f a = .ok b := by
  cases x with
  | error e => cases h
  | ok a => exact ⟨a, rfl, h⟩

/-- Every accepted session has a poll policy in range. -/
theorem decodeSession_poll {body : Bytes} {s : CreateSessionResponse}
    (h : decodeSession body = .ok s) : s.poll.Valid := by
  unfold decodeSession at h
  obtain ⟨root, -, h⟩ := bind_ok h
  iterate 18 obtain ⟨_, -, h⟩ := bind_ok h
  obtain ⟨_, hp, h⟩ := bind_ok h
  obtain ⟨_, -, h⟩ := bind_ok h
  obtain ⟨_, -, h⟩ := bind_ok h
  cases h
  exact checkPoll_ok hp

end KmVirtualCamera.L1.SessionCodec
