import Mathlib
import KmVirtualCamera.L4App.SessionReading

/-!
# A new session, from the worker to the receiver

The two have no limits in common: the worker answers whatever it is configured
with, the receiver checks what it is given.

* `created_usable`: within the receiver's limits (`Limits`), and only there, an
  answer of 201 is a session to it, and the same session.
* `ten_seconds_refused`: a timeout of ten seconds is not within them.
-/
namespace KmVirtualCamera.L4.CreateSession
open L1.H264 (Bytes)
open L1.Json (ascii)
open L1.JsonWrite
open L1.SessionCodec (decodeSession checkIdentity safeHeader safeSessionId supportedIceUrl startsWith)
open L4.TurnFilter (Text IceServer Urls RtcConfigurationDto allUrls getRtcConfiguration)
open Utf8

/-! ## The join URL -/

theorem startsWith_iff {p : String} (hp : ascii p = utf8 p.toList) (cs : Text) :
    startsWith (utf8 cs) p = true ↔ p.toList <+: cs := by
  rw [startsWith, List.isPrefixOf_iff_prefix, hp]
  constructor
  · rintro ⟨r, hr⟩
    obtain ⟨cs', rfl, -⟩ := utf8_split hr.symm
    exact List.prefix_append _ _
  · rintro ⟨cs', rfl⟩
    rw [utf8_append]
    exact List.prefix_append _ _

/-- A scheme is not completed by the path behind it. -/
theorem scheme_path {p q base rest : Text} (hp : p = q ++ ['/', '/']) (hsend : ¬ ['/', 's'] <:+: p)
    (hbase : ∀ b, base ≠ b ++ ['/']) : p <+: base ++ '/' :: 's' :: rest ↔ p <+: base := by
  constructor
  · rintro ⟨r, hr⟩
    rcases List.append_eq_append_iff.1 hr with ⟨a, hb, -⟩ | ⟨a, hpa, htail⟩
    · exact ⟨a, hb.symm⟩
    · -- the scheme would end in the path: its slash closes the base, or an `s` follows it
      cases a with
      | nil => exact ⟨[], by rw [hpa, List.append_nil, List.append_nil]⟩
      | cons x a =>
        rw [List.cons_append] at htail
        obtain ⟨rfl, hrest⟩ := List.cons.inj htail
        cases a with
        | nil =>
          have hends : base ++ ['/'] = (q ++ ['/']) ++ ['/'] := by rw [← hpa, hp, List.append_assoc]; rfl
          exact absurd (List.append_left_injective ['/'] hends) (hbase q)
        | cons y a =>
          obtain ⟨rfl, -⟩ := List.cons.inj hrest
          exact absurd ⟨base, a, by rw [hpa, List.append_assoc]; rfl⟩ hsend
  · rintro ⟨r, rfl⟩
    rw [List.append_assoc]
    exact List.prefix_append _ _

theorem scheme_join {p : String} {base : Text} (hp : p = "https://" ∨ p = "http://")
    (hbase : ∀ b, base ≠ b ++ ['/']) (sessionId joinToken : Text) :
    startsWith (utf8 (joinUrl base sessionId joinToken)) p = true ↔ startsWith (utf8 base) p = true := by
  have hpath : ∃ rest, joinUrl base sessionId joinToken = base ++ '/' :: 's' :: rest := ⟨_, rfl⟩
  obtain ⟨rest, hpath⟩ := hpath
  rw [hpath]
  rcases hp with rfl | rfl
  · rw [startsWith_iff (by decide), startsWith_iff (by decide)]
    exact scheme_path (q := "https:".toList) (by decide) (by decide) hbase
  · rw [startsWith_iff (by decide), startsWith_iff (by decide)]
    exact scheme_path (q := "http:".toList) (by decide) (by decide) hbase

/-- A base URL that makes a join URL the receiver takes. -/
structure BaseTaken (base : Text) : Prop where
  scheme : startsWith (utf8 base) "https://" = true ∨ startsWith (utf8 base) "http://" = true
  header : safeHeader (utf8 base) = true
  room : (utf8 base).length + 81 ≤ 8192

theorem join_header {sessionId joinToken : Text} (hid : IsToken sessionId) (hjoin : IsToken joinToken)
    (base : Text) : safeHeader (utf8 (joinUrl base sessionId joinToken)) = safeHeader (utf8 base) := by
  have hid := hid.header
  have hjoin := hjoin.header
  have hsend : safeHeader (utf8 "/send/#v=1&s=".toList) = true := by decide
  have hj : safeHeader (utf8 "&j=".toList) = true := by decide
  rw [safeHeader] at hid hjoin hsend hj
  rw [safeHeader, safeHeader, joinUrl]
  simp only [utf8_append, List.all_append, hid, hjoin, hsend, hj, Bool.and_true]

theorem join_size {sessionId joinToken : Text} (hid : (utf8 sessionId).length = 22)
    (hjoin : (utf8 joinToken).length = 43) (base : Text) :
    (utf8 (joinUrl base sessionId joinToken)).length = (utf8 base).length + 81 := by
  have hsend : (utf8 "/send/#v=1&s=".toList).length = 13 := by decide
  have hj : (utf8 "&j=".toList).length = 3 := by decide
  rw [joinUrl, utf8_append, utf8_append, utf8_append, utf8_append]
  simp only [List.length_append, hid, hjoin, hsend, hj]

/-- The identity of a session is taken for what the base URL is. -/
theorem identity_taken (env : Env) (req : Request) (expiresAt : Text) (c : RtcConfigurationDto) :
    checkIdentity (identity (responsePayload env req expiresAt c)) = .ok () ↔
      BaseTaken (baseUrl env req.origin) := by
  have hend : ∀ b, baseUrl env req.origin ≠ b ++ ['/'] := rdropWhile_end rfl _
  obtain ⟨hid, hidLength⟩ := vector_token req.sessionId
  obtain ⟨htoken, htokenLength⟩ := vector_token req.receiverToken
  obtain ⟨hjoin, hjoinLength⟩ := vector_token req.joinToken
  have hsafe : safeSessionId (utf8 (toBase64Url req.sessionId.toList)) = true := by
    have hlong : ¬ (utf8 (toBase64Url req.sessionId.toList)).length > 128 := by omega
    have hne : utf8 (toBase64Url req.sessionId.toList) ≠ [] := by
      intro h
      rw [h] at hidLength
      cases hidLength
    rw [safeSessionId, hid.ids, List.isEmpty_eq_false_iff.2 hne, decide_eq_false hlong]
    rfl
  have hne : (utf8 (toBase64Url req.receiverToken.toList)).isEmpty = false := by
    rw [List.isEmpty_eq_false_iff]
    intro h
    rw [h] at htokenLength
    cases htokenLength
  have hlong : ¬ (utf8 (toBase64Url req.receiverToken.toList)).length > 8192 := by omega
  rw [checkIdentity, check_ok]
  simp only [Bool.or_eq_false_iff, Bool.not_eq_false', Bool.or_eq_true, decide_eq_false_iff_not, and_true]
  dsimp only [identity, received, responsePayload]
  rw [join_header hid hjoin, join_size hidLength hjoinLength, scheme_join (.inl rfl) hend,
    scheme_join (.inr rfl) hend]
  constructor
  · rintro ⟨⟨⟨-, hheader⟩, hroom⟩, hscheme⟩
    exact ⟨hscheme, hheader, by omega⟩
  · rintro ⟨hscheme, hheader, hroom⟩
    exact ⟨⟨⟨⟨⟨⟨hsafe, hne⟩, hlong⟩, htoken.header⟩, hheader⟩, by omega⟩, hscheme⟩

/-! ## Room for the answer -/

theorem header_plain {cs : Text} (h : safeHeader (utf8 cs) = true) : ∀ c ∈ cs, 32 ≤ c.toNat := by
  intro c hc
  rcases Nat.lt_or_ge c.toNat 32 with hlt | hge
  · have hmem : UInt8.ofNat c.toNat ∈ utf8 cs := by
      refine List.mem_flatMap.2 ⟨c, hc, ?_⟩
      rw [encode_one (by omega)]
      exact List.mem_singleton.2 rfl
    have hbyte := List.all_eq_true.1 h _ hmem
    have hvalue : (UInt8.ofNat c.toNat).toNat = c.toNat := by
      rw [UInt8.toNat_ofNat', Nat.mod_eq_of_lt (by omega)]
    simp [hvalue, hlt] at hbyte
  · exact hge

theorem safe_size {cs : Text} (h : safeHeader (utf8 cs) = true) :
    size (.string cs) ≤ 2 * (utf8 cs).length + 2 := string_size (header_plain h)

theorem member_size {key : String} {value : Option String}
    (h : CredentialTaken (utf8 (value.getD "").toList)) :
    membersSize (member key value) ≤ size (.string key.toList) + 8196 := by
  cases value with
  | none => exact Nat.zero_le _
  | some t =>
    have hsize := safe_size h.2
    have hlength := h.1
    simp only [Option.getD_some] at hsize hlength
    simp only [member, membersSize]
    omega

theorem urls_size {urls : Urls Text} (h : ∀ u ∈ urls.list, supportedIceUrl (utf8 u) = true) :
    size (urlsDoc urls) ≤ 4099 * urls.list.length + 2 := by
  have hurl : ∀ u ∈ urls.list, size (.string u) ≤ 4098 := by
    intro u hu
    have hsupported := h u hu
    simp only [supportedIceUrl, Bool.and_eq_true, decide_eq_true_eq] at hsupported
    have hsize := safe_size hsupported.1.1.2
    omega
  cases urls with
  | one u =>
    have hu := hurl u List.mem_cons_self
    rw [urlsDoc, Urls.list, List.length_singleton]
    omega
  | many us =>
    have harray := array_size (us.map Doc.string)
    have hsum : ∀ us : List Text, (∀ u ∈ us, size (.string u) ≤ 4098) →
        elemsSize (us.map Doc.string) ≤ 4099 * us.length := by
      intro us hus
      induction us with
      | nil => exact Nat.le_refl 0
      | cons u us ih =>
        obtain ⟨hu, hus⟩ := List.forall_mem_cons.1 hus
        have := ih hus
        rw [List.map_cons, elemsSize, List.length_cons]
        omega
    have := hsum us hurl
    rw [urlsDoc, Urls.list]
    omega

theorem server_size {s : IceServer Text} (h : ServerTaken (receivedServer s)) :
    size (serverDoc s) ≤ 4099 * s.urls.list.length + 16430 := by
  have hurls : size (urlsDoc s.urls) ≤ 4099 * s.urls.list.length + 2 := by
    refine urls_size ?_
    intro u hu
    exact (h.urls _ (List.mem_map_of_mem hu)).1
  have husername := @member_size "username" s.username h.username
  have hcredential := @member_size "credential" s.credential h.credential
  have hobject := object_size (("urls".toList, urlsDoc s.urls) ::
    (member "username" s.username ++ member "credential" s.credential))
  have hkey₁ : size (.string "urls".toList) = 6 := by decide
  have hkey₂ : size (.string "username".toList) = 10 := by decide
  have hkey₃ : size (.string "credential".toList) = 12 := by decide
  rw [membersSize, membersSize_append] at hobject
  rw [serverDoc]
  omega

theorem servers_size {l : List (IceServer Text)} (h : ∀ s ∈ l, ServerTaken (receivedServer s)) :
    elemsSize (l.map serverDoc) ≤ 4099 * (allUrls l).length + 16431 * l.length := by
  induction l with
  | nil => exact Nat.le_refl 0
  | cons s l ih =>
    obtain ⟨htaken, hall⟩ := List.forall_mem_cons.1 h
    have hserver := server_size htaken
    have hrest := ih hall
    rw [List.map_cons, elemsSize, List.length_cons, allUrls_length]
    omega

theorem config_size {c : RtcConfigurationDto} (h : ServersTaken c.iceServers) :
    size (configDoc c) ≤ 800000 := by
  have hservers := servers_size h.each
  have hcount := h.servers
  have hurls := h.urls
  have harray := array_size (c.iceServers.map serverDoc)
  have hobject := object_size [("iceServers".toList, .array (c.iceServers.map serverDoc)),
    ("iceTransportPolicy".toList, .string (policyText c.iceTransportPolicy))]
  have hkey₁ : size (.string "iceServers".toList) = 12 := by decide
  have hkey₂ : size (.string "iceTransportPolicy".toList) = 20 := by decide
  have hpolicy : size (.string (policyText c.iceTransportPolicy)) ≤ 7 := by
    cases c.iceTransportPolicy <;> decide
  simp only [membersSize] at hobject
  rw [configDoc]
  omega

theorem member_nests (key : String) (value : Option String) : ∀ m ∈ member key value, Nests m.2 1 := by
  cases value with
  | none => exact fun m hm => absurd hm List.not_mem_nil
  | some t =>
    intro m hm
    rw [List.mem_singleton.1 hm]
    exact string_nests _ 1

theorem urls_nests (urls : Urls Text) : Nests (urlsDoc urls) 1 := by
  cases urls with
  | one u => exact string_nests u 1
  | many us =>
    refine array_nests ?_
    intro e he
    obtain ⟨u, -, rfl⟩ := List.mem_map.1 he
    exact string_nests u 0

theorem server_nests (s : IceServer Text) : Nests (serverDoc s) 2 := by
  refine object_nests ?_ ?_
  · rcases s with ⟨urls, _ | u, _ | c⟩ <;>
      simp only [member, List.nil_append, List.append_nil, List.map_cons, List.map_nil, List.cons_append] <;>
      decide
  · refine List.forall_mem_cons.2 ⟨urls_nests s.urls, List.forall_mem_append.2 ⟨?_, ?_⟩⟩
    · exact member_nests _ _
    · exact member_nests _ _

theorem config_nests (c : RtcConfigurationDto) : Nests (configDoc c) 4 := by
  have hservers : Nests (.array (c.iceServers.map serverDoc)) 3 := by
    refine array_nests ?_
    intro e he
    obtain ⟨s, -, rfl⟩ := List.mem_map.1 he
    exact server_nests s
  refine object_nests ?_ ?_
  · simp only [List.map_cons, List.map_nil]
    decide
  · simp only [List.forall_mem_cons]
    exact ⟨hservers, string_nests _ 3, fun m hm => absurd hm List.not_mem_nil⟩

theorem poll_nests (t : Option Int) : Nests (pollDoc t) 4 := by
  have htimeout : Nests (timeoutDoc t) 3 := by
    cases t with
    | none => exact null_nests 3
    | some n => exact number_nests n 3
  refine object_nests ?_ ?_
  · simp only [List.map_cons, List.map_nil]
    decide
  · simp only [List.forall_mem_cons]
    exact ⟨number_nests _ 3, number_nests _ 3, number_nests _ 3, htimeout,
      fun m hm => absurd hm List.not_mem_nil⟩

theorem response_nests (r : CreateSessionResponse) : Nests (responseDoc r) 32 := by
  have h : Nests (responseDoc r) 5 := by
    refine object_nests ?_ ?_
    · simp only [List.map_cons, List.map_nil]
      decide
    · simp only [List.forall_mem_cons]
      exact ⟨string_nests _ 4, string_nests _ 4, string_nests _ 4, string_nests _ 4, poll_nests _,
        config_nests _, fun m hm => absurd hm List.not_mem_nil⟩
  exact h.mono (by decide)

theorem urls_count (urls : Urls Text) : count (urlsDoc urls) ≤ urls.list.length + 1 := by
  cases urls with
  | one u => exact Nat.le_add_left 1 _
  | many us =>
    have hsum : elemsCount (us.map Doc.string) = us.length := by
      induction us with
      | nil => rfl
      | cons u us ih =>
        have hu : count (.string u) = 1 := rfl
        rw [List.map_cons, elemsCount, ih, hu, List.length_cons, Nat.add_comm]
    rw [urlsDoc, array_count, hsum, Urls.list]

theorem member_count (key : String) (value : Option String) : membersCount (member key value) ≤ 1 := by
  cases value with
  | none => exact Nat.zero_le 1
  | some t => exact Nat.le_refl 1

theorem servers_count (l : List (IceServer Text)) :
    elemsCount (l.map serverDoc) ≤ (allUrls l).length + 4 * l.length := by
  induction l with
  | nil => exact Nat.le_refl 0
  | cons s l ih =>
    have hurls := urls_count s.urls
    have husername := member_count "username" s.username
    have hcredential := member_count "credential" s.credential
    rw [List.map_cons, elemsCount, List.length_cons, allUrls_length, serverDoc, object_count, membersCount,
      membersCount_append]
    omega

theorem response_count (r : CreateSessionResponse) (h : ServersTaken r.rtcConfiguration.iceServers) :
    count (responseDoc r) ≤ 16384 := by
  have hservers := servers_count r.rtcConfiguration.iceServers
  have hcount := h.servers
  have hurls := h.urls
  have htimeout : count (timeoutDoc r.timeoutMs) = 1 := by cases r.timeoutMs <;> rfl
  have hstring : ∀ s, count (.string s) = 1 := fun _ => rfl
  have hnumber : ∀ n, count (.number n) = 1 := fun _ => rfl
  simp only [responseDoc, pollDoc, configDoc, object_count, membersCount, array_count, hstring, hnumber,
    htimeout]
  omega

theorem poll_size {t : Option Int} (h : ∀ n ∈ t, 0 ≤ n ∧ n.toNat < 10 ^ 7) : size (pollDoc t) ≤ 200 := by
  have htimeout : size (timeoutDoc t) ≤ 7 := by
    cases t with
    | none => decide
    | some n => exact number_size (h n rfl).1 (by decide) (h n rfl).2
  have hobject := object_size [("initialIntervalMs".toList, .number 1000),
    ("backoffAfterMs".toList, .number 15000), ("maxIntervalMs".toList, .number 2000),
    ("timeoutMs".toList, timeoutDoc t)]
  have hkey₁ : size (.string "initialIntervalMs".toList) = 19 := by decide
  have hkey₂ : size (.string "backoffAfterMs".toList) = 16 := by decide
  have hkey₃ : size (.string "maxIntervalMs".toList) = 15 := by decide
  have hkey₄ : size (.string "timeoutMs".toList) = 11 := by decide
  have h1000 : size (.number 1000) = 4 := by decide
  have h15000 : size (.number 15000) = 5 := by decide
  have h2000 : size (.number 2000) = 4 := by decide
  simp only [membersSize] at hobject
  rw [pollDoc]
  omega

/-- An answer within the limits fits, whatever its timeout of seven digits. -/
theorem response_size {env : Env} {req : Request} {expiresAt : Text} {c : RtcConfigurationDto} {ms : Int}
    (hexpires : toISOString ms = some expiresAt) (hbase : BaseTaken (baseUrl env req.origin))
    (hservers : ServersTaken c.iceServers)
    (htimeout : ∀ n ∈ (responsePayload env req expiresAt c).timeoutMs, 0 ≤ n ∧ n.toNat < 10 ^ 7) :
    size (responseDoc (responsePayload env req expiresAt c)) ≤ 1024 * 1024 := by
  obtain ⟨hid, hidLength⟩ := vector_token req.sessionId
  obtain ⟨htoken, htokenLength⟩ := vector_token req.receiverToken
  obtain ⟨hjoin, hjoinLength⟩ := vector_token req.joinToken
  obtain ⟨hplain, hdate⟩ := toISOString_plain hexpires
  have hidSize := safe_size hid.header
  have htokenSize := safe_size htoken.header
  have hexpiresSize := hplain.size
  have hjoinSize := safe_size ((join_header hid hjoin (baseUrl env req.origin)).trans hbase.header)
  rw [join_size hidLength hjoinLength] at hjoinSize
  have hroom := hbase.room
  have hconfig := config_size hservers
  have hpoll := poll_size htimeout
  have hobject := object_size [("sessionId".toList, .string (toBase64Url req.sessionId.toList)),
    ("receiverToken".toList, .string (toBase64Url req.receiverToken.toList)),
    ("joinUrl".toList, .string (joinUrl (baseUrl env req.origin) (toBase64Url req.sessionId.toList)
      (toBase64Url req.joinToken.toList))),
    ("expiresAt".toList, .string expiresAt),
    ("poll".toList, pollDoc (responsePayload env req expiresAt c).timeoutMs),
    ("rtcConfiguration".toList, configDoc c)]
  have hkey₁ : size (.string "sessionId".toList) = 11 := by decide
  have hkey₂ : size (.string "receiverToken".toList) = 15 := by decide
  have hkey₃ : size (.string "joinUrl".toList) = 9 := by decide
  have hkey₄ : size (.string "expiresAt".toList) = 11 := by decide
  have hkey₅ : size (.string "poll".toList) = 6 := by decide
  have hkey₆ : size (.string "rtcConfiguration".toList) = 18 := by decide
  simp only [membersSize] at hobject
  refine Nat.le_trans hobject ?_
  omega

/-! ## From the worker to the receiver -/

/-- The limits of the receiver, on what the worker is configured with. -/
structure Limits (env : Env) (origin : Option Text) (c : RtcConfigurationDto) : Prop where
  timeout : ∃ n, timeoutSeconds env = some n ∧ 15 ≤ n ∧ n ≤ 3600
  base : BaseTaken (baseUrl env origin)
  servers : ServersTaken c.iceServers

theorem timeout_taken (env : Env) : TimeoutTaken ((timeoutSeconds env).map (· * 1000)) ↔
    ∃ n, timeoutSeconds env = some n ∧ 15 ≤ n ∧ n ≤ 3600 := by
  constructor
  · rintro ⟨ms, hms, hlow, hhigh⟩
    obtain ⟨n, hn, rfl⟩ := Option.map_eq_some_iff.1 hms
    exact ⟨n, hn, by omega, by omega⟩
  · rintro ⟨n, hn, hlow, hhigh⟩
    exact ⟨n * 1000, by rw [hn]; rfl, by omega, by omega⟩

/-- A session that is created within the limits of the receiver is accepted by it,
with the values the worker gave it. An answer that its JSON reader has room for is
accepted only within the limits. -/
theorem created_usable {env : Env} {req : Request} {body : Bytes}
    (h : createSession env req = .created body) : ∃ expiresAt c,
      getRtcConfiguration env.toEnv req.turn = .ok c ∧
      body = utf8 (stringify (responseDoc (responsePayload env req expiresAt c))) ∧
      (Limits env req.origin c →
        decodeSession body = .ok (received (responsePayload env req expiresAt c))) ∧
      (body.length ≤ 1024 * 1024 → count (responseDoc (responsePayload env req expiresAt c)) ≤ 16384 →
        ∀ out, decodeSession body = .ok out → Limits env req.origin c) := by
  obtain ⟨ms, expiresAt, c, hexpires, hc, rfl⟩ := created_payload h
  have hne := config_nonempty hc
  refine ⟨expiresAt, c, hc, rfl, ?_, ?_⟩
  · intro hlimits
    have htimeout := (timeout_taken env).2 hlimits.timeout
    have hdigits : ∀ n ∈ (responsePayload env req expiresAt c).timeoutMs, 0 ≤ n ∧ n.toNat < 10 ^ 7 := by
      intro n hn
      obtain ⟨m, hm, hlow, hhigh⟩ := htimeout
      obtain rfl : m = n := Option.some_inj.1 (hm.symm.trans hn)
      omega
    have hparse := parse_stringify (response_nests _)
      (response_count (responsePayload env req expiresAt c) hlimits.servers)
      (response_size hexpires hlimits.base hlimits.servers hdigits)
    exact (decodeSession_read hparse hne _).2
      ⟨(identity_taken env req expiresAt c).2 hlimits.base, htimeout, hlimits.servers, rfl⟩
  · intro hlength hcount out hout
    have hparse := parse_stringify (response_nests _) hcount hlength
    obtain ⟨hidentity, htimeout, hservers, -⟩ := (decodeSession_read hparse hne out).1 hout
    exact ⟨(timeout_taken env).1 htimeout, (identity_taken env req expiresAt c).1 hidentity, hservers⟩

instance instDecidableCredentialTaken (c : Bytes) : Decidable (CredentialTaken c) :=
  inferInstanceAs (Decidable (_ ∧ _))

instance instDecidableUrlTaken (s : L1.SessionCodec.IceServer) (u : Bytes) : Decidable (UrlTaken s u) :=
  inferInstanceAs (Decidable (_ ∧ _))

theorem default_taken : ServersTaken TurnFilter.defaultIce where
  servers := by decide
  urls := by decide
  each s hs := by
    rw [List.mem_singleton.1 hs]
    exact ⟨by decide, by decide, by decide⟩

/-- The deployment of `wrangler.jsonc` under a name of its own. -/
def deployed (timeout : String) : Env where
  ENABLE_TURN := some "false"
  PUBLIC_BASE_URL := some "https://webrtc.example".toList
  SESSION_TTL_SECONDS := some "600".toList
  SIGNALING_TIMEOUT_SECONDS := some timeout.toList

def request : Request where
  origin := none
  sessionId := Vector.replicate 16 0
  receiverToken := Vector.replicate 32 0
  joinToken := Vector.replicate 32 0
  now := 0
  turn := .failed

theorem deployed_base (timeout : String) : BaseTaken (baseUrl (deployed timeout) none) := by
  have hbase : baseUrl (deployed timeout) none = "https://webrtc.example".toList := rfl
  rw [hbase]
  exact ⟨.inl (by decide), by decide, by decide⟩

theorem deployed_servers {timeout : String} {c : RtcConfigurationDto}
    (h : getRtcConfiguration (deployed timeout).toEnv request.turn = .ok c) :
    ServersTaken c.iceServers := by
  have hconfig : c = ⟨TurnFilter.defaultIce ++ [], .all⟩ := (Except.ok.inj h).symm
  rw [hconfig]
  exact default_taken

/-- The session of the default deployment is usable. -/
theorem deployed_usable : ∃ body out, createSession (deployed "600") request = .created body ∧
    decodeSession body = .ok out ∧ out.poll.timeoutMs = 600000 := by
  have hcreated : ∃ body, createSession (deployed "600") request = .created body := ⟨_, rfl⟩
  obtain ⟨body, hbody⟩ := hcreated
  obtain ⟨expiresAt, c, hc, -, husable, -⟩ := created_usable hbody
  have htimeout : ∃ n, timeoutSeconds (deployed "600") = some n ∧ 15 ≤ n ∧ n ≤ 3600 :=
    ⟨600, rfl, by decide, by decide⟩
  exact ⟨body, _, hbody, husable ⟨htimeout, deployed_base "600", deployed_servers hc⟩, rfl⟩

/-- A timeout of ten seconds is positive, and is less than the interval after
which the receiver is told to back off. -/
theorem ten_seconds_refused : ¬ ∀ (env : Env) (req : Request) (body : Bytes),
    (∃ n, ttlSeconds env = some n ∧ 0 < n) → (∃ n, timeoutSeconds env = some n ∧ 0 < n) →
    createSession env req = .created body → ∃ out, decodeSession body = .ok out := by
  intro h
  have hcreated : ∃ body, createSession (deployed "10") request = .created body := ⟨_, rfl⟩
  obtain ⟨body, hbody⟩ := hcreated
  obtain ⟨out, hout⟩ := h (deployed "10") request body ⟨600, rfl, by decide⟩ ⟨10, rfl, by decide⟩ hbody
  obtain ⟨ms, expiresAt, c, hexpires, hc, rfl⟩ := created_payload hbody
  have hne := config_nonempty hc
  have hservers := deployed_servers hc
  have hdigits : ∀ n ∈ (some 10000 : Option Int), 0 ≤ n ∧ n.toNat < 10 ^ 7 := by
    intro n hn
    obtain rfl := Option.some_inj.1 hn
    decide
  have hparse := parse_stringify (response_nests _)
    (response_count (responsePayload (deployed "10") request expiresAt c) hservers)
    (response_size hexpires (deployed_base "10") hservers hdigits)
  obtain ⟨-, ⟨n, hn, hlow, -⟩, -⟩ := (decodeSession_read hparse hne out).1 hout
  obtain rfl : 10000 = n := Option.some_inj.1 hn
  omega

end KmVirtualCamera.L4.CreateSession
