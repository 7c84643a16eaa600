import Mathlib
import KmVirtualCamera.L4App.CreateSession

/-!
# What the receiver reads in the answer

`decodeSession` on the document the route writes, from the inside out: the ICE
servers, the configuration, the poll policy, the session. Each lemma says what
is accepted, and that it is returned as it was sent.
-/
namespace KmVirtualCamera.L4.CreateSession
open L1.H264 (Bytes)
open L1.Json (Value ascii)
open L1.JsonWrite
open L1.SessionCodec (decodeSession decodeServer decodeServers decodeRtcConfiguration decodeUrls
  checkIdentity checkPoll checkUrl safeHeader supportedIceUrl startsWith bind_ok)
open L4.TurnFilter (Text IceServer Urls RtcConfigurationDto IceTransportPolicy allUrls)
open Utf8

/-! ## ICE servers -/

def receivedServer (s : IceServer Text) : L1.SessionCodec.IceServer where
  urls := s.urls.list.map utf8
  username := utf8 (s.username.getD "").toList
  credential := utf8 (s.credential.getD "").toList

/-- `decodeSession` takes the server's credentials. -/
def CredentialTaken (c : Bytes) : Prop := c.length ≤ 4096 ∧ safeHeader c = true

/-- `decodeSession` takes the URL of a server with these credentials. -/
def UrlTaken (s : L1.SessionCodec.IceServer) (u : Bytes) : Prop :=
  supportedIceUrl u = true ∧
    (startsWith u "turn:" = true ∨ startsWith u "turns:" = true → s.username ≠ [] ∧ s.credential ≠ [])

/-- What `decodeSession` wants of a server that has URLs. -/
structure ServerTaken (s : L1.SessionCodec.IceServer) : Prop where
  username : CredentialTaken s.username
  credential : CredentialTaken s.credential
  urls : ∀ u ∈ s.urls, UrlTaken s u

theorem server_urls (s : IceServer Text) :
    (serverDoc s).value.at (ascii "urls") = .ok (urlsDoc s.urls).value := by
  rw [serverDoc, object_value, List.map_cons]
  rfl

theorem server_find (s : IceServer Text) :
    (serverDoc s).value.find (ascii "username") = s.username.map (fun t => .string (utf8 t.toList)) ∧
      (serverDoc s).value.find (ascii "credential") =
        s.credential.map (fun t => .string (utf8 t.toList)) ∧
      (serverDoc s).value.find (ascii "credentialType") = none := by
  rw [serverDoc, object_value]
  rcases s with ⟨urls, _ | u, _ | c⟩ <;>
    simp only [member, List.nil_append, List.append_nil, List.map_cons, List.map_nil, List.cons_append,
      string_value] <;>
    exact ⟨rfl, rfl, rfl⟩

theorem optional_string {v : Value} {name : String} {t : Option String}
    (h : v.find (ascii name) = t.map fun t => .string (utf8 t.toList)) :
    L1.SessionCodec.optional v name = .ok (t.map fun t => utf8 t.toList) := by
  rw [L1.SessionCodec.optional, h]
  cases t with
  | none => rfl
  | some t => rfl

theorem decodeUrls_value (urls : Urls Text) :
    decodeUrls (urlsDoc urls).value = .ok (urls.list.map utf8) := by
  cases urls with
  | one url =>
    rw [urlsDoc, string_value]
    rfl
  | many urls =>
    rw [urlsDoc, array_value, decodeUrls, List.map_map]
    induction urls with
    | nil => rfl
    | cons u us ih =>
      rw [List.map_cons, List.mapM_cons, ih]
      rw [Function.comp_apply, string_value]
      rfl

theorem checkUrl_ok (s : L1.SessionCodec.IceServer) (u : Bytes) :
    checkUrl s u = .ok () ↔ UrlTaken s u := by
  unfold checkUrl UrlTaken
  split
  · rename_i h
    simp_all
  split
  · rename_i h
    simp_all
    tauto
  · rename_i h
    simp_all

theorem decodeServer_value (n : Nat) {s : IceServer Text} (hne : s.urls.list ≠ [])
    (r : L1.SessionCodec.IceServer × Nat) : decodeServer n (serverDoc s).value = .ok r ↔
      ServerTaken (receivedServer s) ∧ n + s.urls.list.length ≤ 64 ∧
        r = (receivedServer s, n + s.urls.list.length) := by
  obtain ⟨huser, hcred, hkind⟩ := server_find s
  have hname : ∀ t : Option String, (t.map fun t => utf8 t.toList).getD [] = utf8 (t.getD "").toList := by
    intro t
    cases t with
    | none => rfl
    | some t => rfl
  rw [decodeServer, server_urls]
  have hnone : L1.SessionCodec.optional (serverDoc s).value "credentialType" = .ok none := by
    rw [L1.SessionCodec.optional, hkind]
  simp only [ok_bind, decodeUrls_value, optional_string huser, optional_string hcred, hname, hnone,
    check_ok, unit_bind_ok, forM_ok, checkUrl_ok, Option.any_none, Bool.or_eq_false_iff, Except.ok.injEq,
    true_and, List.length_map, decide_eq_false_iff_not, Bool.not_eq_false', Nat.not_lt, gt_iff_lt,
    List.isEmpty_eq_false_iff, ne_eq, List.map_eq_nil_iff]
  constructor
  · rintro ⟨⟨-, hroom⟩, ⟨⟨⟨hu, hc⟩, husafe⟩, hcsafe⟩, hurls, hr⟩
    exact ⟨⟨⟨hu, husafe⟩, ⟨hc, hcsafe⟩, hurls⟩, hroom, hr.symm⟩
  · rintro ⟨⟨⟨hu, husafe⟩, ⟨hc, hcsafe⟩, hurls⟩, hroom, hr⟩
    exact ⟨⟨hne, hroom⟩, ⟨⟨⟨hu, hc⟩, husafe⟩, hcsafe⟩, hurls, hr.symm⟩

theorem allUrls_length (s : IceServer Text) (l : List (IceServer Text)) :
    (allUrls (s :: l)).length = s.urls.list.length + (allUrls l).length := by
  simp [allUrls]

/-- The servers are taken when each is and their URLs are at most 64. -/
theorem decodeServers_value {n : Nat} (hn : n ≤ 64) {l : List (IceServer Text)}
    (hne : ∀ s ∈ l, s.urls.list ≠ []) (r : List L1.SessionCodec.IceServer) :
    decodeServers (l.map fun s => (serverDoc s).value) n = .ok r ↔
      (∀ s ∈ l, ServerTaken (receivedServer s)) ∧ n + (allUrls l).length ≤ 64 ∧
        r = l.map receivedServer := by
  induction l generalizing n r with
  | nil =>
    rw [List.map_nil, decodeServers, Except.ok.injEq]
    simp [allUrls, hn, eq_comm]
  | cons s l ih =>
    obtain ⟨hs, hl⟩ := List.forall_mem_cons.1 hne
    rw [List.map_cons, decodeServers, List.forall_mem_cons, allUrls_length, List.map_cons]
    constructor
    · intro h
      obtain ⟨⟨server, urlCount⟩, hserver, h⟩ := bind_ok h
      obtain ⟨servers, hservers, h⟩ := bind_ok h
      obtain ⟨htaken, hroom, hr⟩ := (decodeServer_value n hs _).1 hserver
      obtain ⟨rfl, rfl⟩ := Prod.mk.inj hr
      obtain ⟨hall, hrest, rfl⟩ := (ih hroom hl _).1 hservers
      exact ⟨⟨htaken, hall⟩, by omega, (Except.ok.inj h).symm⟩
    · rintro ⟨⟨htaken, hall⟩, hroom, rfl⟩
      have hserver := (decodeServer_value n hs _).2 ⟨htaken, by omega, rfl⟩
      have hrest := (@ih (n + s.urls.list.length) (by omega) hl _).2 ⟨hall, by omega, rfl⟩
      rw [hserver, ok_bind]
      dsimp only
      rw [hrest, ok_bind]

/-! ## The configuration -/

def receivedConfig (c : RtcConfigurationDto) : L1.SessionCodec.RtcConfiguration where
  iceServers := c.iceServers.map receivedServer
  iceTransportPolicy := utf8 (policyText c.iceTransportPolicy)

structure ServersTaken (l : List (IceServer Text)) : Prop where
  servers : l.length ≤ 32
  urls : (allUrls l).length ≤ 64
  each : ∀ s ∈ l, ServerTaken (receivedServer s)

theorem config_policy (c : RtcConfigurationDto) :
    (configDoc c).value.find (ascii "iceTransportPolicy") =
      some (.string (utf8 (policyText c.iceTransportPolicy))) := by
  rw [configDoc, object_value, List.map_cons, List.map_cons, string_value]
  rfl

theorem config_servers (c : RtcConfigurationDto) : (configDoc c).value.at (ascii "iceServers") =
    .ok (.array (c.iceServers.map fun s => (serverDoc s).value)) := by
  rw [configDoc, object_value, List.map_cons, array_value, List.map_map]
  rfl

theorem policy_known (p : IceTransportPolicy) :
    (utf8 (policyText p) != ascii "all" && utf8 (policyText p) != ascii "relay") = false := by
  cases p with
  | all => decide
  | relay => decide

theorem decodeConfig_value {c : RtcConfigurationDto} (hne : ∀ s ∈ c.iceServers, s.urls.list ≠ [])
    (r : L1.SessionCodec.RtcConfiguration) :
    decodeRtcConfiguration (configDoc c).value = .ok r ↔
      ServersTaken c.iceServers ∧ r = receivedConfig c := by
  have hpolicy : L1.SessionCodec.optional (configDoc c).value "iceTransportPolicy" =
      .ok (some (utf8 (policyText c.iceTransportPolicy))) := by
    rw [L1.SessionCodec.optional, config_policy]
    rfl
  rw [decodeRtcConfiguration, hpolicy, ok_bind]
  simp only [Option.getD_some, policy_known, config_servers, ok_bind, Bool.false_eq_true, if_false,
    List.length_map]
  constructor
  · intro h
    split at h
    · cases h
    rename_i hlength
    obtain ⟨servers, hservers, h⟩ := bind_ok h
    obtain ⟨hall, hroom, rfl⟩ := (decodeServers_value (by decide) hne _).1 hservers
    rw [Nat.zero_add] at hroom
    exact ⟨⟨by omega, hroom, hall⟩, (Except.ok.inj h).symm⟩
  · rintro ⟨⟨hlength, hroom, hall⟩, rfl⟩
    rw [if_neg (by omega), (decodeServers_value (by decide) hne _).2 ⟨hall, by omega, rfl⟩, ok_bind]
    rfl

/-! ## The poll policy -/

theorem checkPoll_iff (p : L1.SessionCodec.PollPolicy) : checkPoll p = .ok () ↔ p.Valid := by
  refine ⟨L1.SessionCodec.checkPoll_ok, ?_⟩
  intro h
  have hslice := h.slice
  have hinitial := h.initial
  have hmax := h.max
  have hceiling := h.ceiling
  have hhour := h.hour
  have hbackoff := h.backoff
  have h20 : (20 : UInt32).toNat = 20 := rfl
  have h60000 : (60000 : UInt32).toNat = 60000 := rfl
  have hhour' : (3600000 : UInt32).toNat = 3600000 := rfl
  rw [checkPoll, if_neg]
  simp only [Bool.or_eq_true, decide_eq_true_eq, not_or, UInt32.lt_iff_toNat_lt, gt_iff_lt, h20, h60000,
    hhour']
  omega

theorem poll_at (t : Option Int) :
    (pollDoc t).value.at (ascii "initialIntervalMs") = .ok (Doc.number 1000).value ∧
      (pollDoc t).value.at (ascii "backoffAfterMs") = .ok (Doc.number 15000).value ∧
      (pollDoc t).value.at (ascii "maxIntervalMs") = .ok (Doc.number 2000).value ∧
      (pollDoc t).value.at (ascii "timeoutMs") = .ok (timeoutDoc t).value := by
  rw [pollDoc, object_value]
  exact ⟨rfl, rfl, rfl, rfl⟩

theorem timeout_uint32 {t : Option Int} {u : UInt32} : (timeoutDoc t).value.uint32 = .ok u ↔
    ∃ n, t = some n ∧ 0 ≤ n ∧ n < 2 ^ 32 ∧ u = UInt32.ofNat n.toNat := by
  cases t with
  | none =>
    constructor
    · intro h
      cases h
    · rintro ⟨n, h, -⟩
      cases h
  | some n =>
    rw [timeoutDoc, number_uint32]
    simp

/-! ## The session -/

theorem response_at (r : CreateSessionResponse) :
    (responseDoc r).value.at (ascii "sessionId") = .ok (.string (utf8 r.sessionId)) ∧
      (responseDoc r).value.at (ascii "receiverToken") = .ok (.string (utf8 r.receiverToken)) ∧
      (responseDoc r).value.at (ascii "joinUrl") = .ok (.string (utf8 r.joinUrl)) ∧
      (responseDoc r).value.at (ascii "expiresAt") = .ok (.string (utf8 r.expiresAt)) ∧
      (responseDoc r).value.at (ascii "poll") = .ok (pollDoc r.timeoutMs).value ∧
      (responseDoc r).value.at (ascii "rtcConfiguration") = .ok (configDoc r.rtcConfiguration).value := by
  rw [responseDoc, object_value]
  simp only [List.map_cons, List.map_nil, string_value]
  exact ⟨rfl, rfl, rfl, rfl, rfl, rfl⟩

/-- The session as the receiver is to have it. -/
def received (r : CreateSessionResponse) : L1.SessionCodec.CreateSessionResponse where
  sessionId := utf8 r.sessionId
  receiverToken := utf8 r.receiverToken
  joinUrl := utf8 r.joinUrl
  expiresAt := utf8 r.expiresAt
  poll := { initialIntervalMs := 1000, backoffAfterMs := 15000, maxIntervalMs := 2000
            timeoutMs := UInt32.ofNat (r.timeoutMs.getD 0).toNat }
  rtcConfiguration := receivedConfig r.rtcConfiguration

def identity (r : CreateSessionResponse) : L1.SessionCodec.CreateSessionResponse :=
  { received r with poll := {}, rtcConfiguration := {} }

def TimeoutTaken (t : Option Int) : Prop := ∃ n, t = some n ∧ 15000 ≤ n ∧ n ≤ 3600000

theorem timeout_valid {n : Int} (h : 0 ≤ n) (hn : n < 2 ^ 32) :
    checkPoll { initialIntervalMs := 1000, backoffAfterMs := 15000, maxIntervalMs := 2000
                timeoutMs := UInt32.ofNat n.toNat } = .ok () ↔ 15000 ≤ n ∧ n ≤ 3600000 := by
  have hvalue : (UInt32.ofNat n.toNat).toNat = n.toNat := by
    rw [UInt32.toNat_ofNat', Nat.mod_eq_of_lt (by omega)]
  rw [checkPoll_iff]
  constructor
  · intro hvalid
    have hhour := hvalid.hour
    have hbackoff := hvalid.backoff
    have h15000 : (15000 : UInt32).toNat = 15000 := rfl
    dsimp only at hhour hbackoff
    rw [hvalue] at hhour hbackoff
    omega
  · intro hn
    have h20 : 20 ≤ (1000 : UInt32).toNat := by decide
    have h1000 : (1000 : UInt32).toNat ≤ (2000 : UInt32).toNat := by decide
    have h2000 : (2000 : UInt32).toNat = 2000 := rfl
    have h15000 : (15000 : UInt32).toNat = 15000 := rfl
    refine ⟨h20, h1000, ?_, ?_, ?_, ?_⟩ <;>
      dsimp only <;>
      omega

/-- Of a text it reads, `decodeSession` accepts a session with an identity, a
timeout and ICE servers it takes, and returns it as it is. -/
theorem decodeSession_read {r : CreateSessionResponse}
    (hparse : L1.Json.parse (utf8 (stringify (responseDoc r))) = .ok (responseDoc r).value)
    (hne : ∀ s ∈ r.rtcConfiguration.iceServers, s.urls.list ≠ [])
    (out : L1.SessionCodec.CreateSessionResponse) :
    decodeSession (utf8 (stringify (responseDoc r))) = .ok out ↔
      checkIdentity (identity r) = .ok () ∧ TimeoutTaken r.timeoutMs ∧
        ServersTaken r.rtcConfiguration.iceServers ∧ out = received r := by
  obtain ⟨hid, htoken, hjoin, hexpires, hpoll, hconfig⟩ := response_at r
  obtain ⟨hinitial, hbackoff, hmax, htimeout⟩ := poll_at r.timeoutMs
  have h1000 : (Doc.number 1000).value.uint32 = .ok 1000 := number_uint32.2 ⟨by decide, by decide, rfl⟩
  have h15000 : (Doc.number 15000).value.uint32 = .ok 15000 :=
    number_uint32.2 ⟨by decide, by decide, rfl⟩
  have h2000 : (Doc.number 2000).value.uint32 = .ok 2000 := number_uint32.2 ⟨by decide, by decide, rfl⟩
  have hbody : L1.SessionCodec.parse (utf8 (stringify (responseDoc r))) = .ok (responseDoc r).value := by
    rw [L1.SessionCodec.parse, hparse]
  rw [decodeSession, hbody]
  simp only [ok_bind, hid, htoken, hjoin, hexpires, hpoll, hconfig, hinitial, hbackoff, hmax, htimeout,
    h1000, h15000, h2000, Value.asString]
  constructor
  · intro h
    obtain ⟨_, hidentity, h⟩ := bind_ok h
    obtain ⟨t, ht, h⟩ := bind_ok h
    obtain ⟨_, hcheck, h⟩ := bind_ok h
    obtain ⟨c, hc, h⟩ := bind_ok h
    obtain ⟨n, hn, hpos, hlt, rfl⟩ := timeout_uint32.1 ht
    obtain ⟨hservers, rfl⟩ := (decodeConfig_value hne _).1 hc
    refine ⟨hidentity, ⟨n, hn, (timeout_valid hpos hlt).1 hcheck⟩, hservers, ?_⟩
    rw [received, hn]
    exact (Except.ok.inj h).symm
  · rintro ⟨hidentity, ⟨n, hn, hlow, hhigh⟩, hservers, rfl⟩
    have hpos : 0 ≤ n := by omega
    have hlt : n < 2 ^ 32 := by omega
    have ht := timeout_uint32.2 ⟨n, hn, hpos, hlt, rfl⟩
    have hcheck := (timeout_valid hpos hlt).2 ⟨hlow, hhigh⟩
    have hc := (decodeConfig_value hne _).2 ⟨hservers, rfl⟩
    rw [identity, received] at hidentity
    rw [hidentity, ok_bind, ht, ok_bind, hcheck, ok_bind, hc, ok_bind, received, hn]
    rfl

end KmVirtualCamera.L4.CreateSession
