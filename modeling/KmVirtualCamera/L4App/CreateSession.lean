import Mathlib
import KmVirtualCamera.L1Encoding.JsonWrite
import KmVirtualCamera.L1Encoding.SessionCodec
import KmVirtualCamera.L4App.TurnFilter

/-!
# A new session (`POST /v1/sessions`)

The route makes an id and two tokens out of random bytes, asks for the ICE
servers, and answers with them, the poll policy and a URL to join by, in JSON.
Its configuration it passes on unchecked.

* `vector_token`: ids and tokens hold letters, digits, `-` and `_` only.
* `config_nonempty`: every ICE server has a URL.
* `created_payload`: what an answer of 201 says.

Texts are Unicode, and numbers are integers. JavaScript's are up to 2^53, and a
date or a timeout beyond that is refused in either form.
-/
namespace KmVirtualCamera.L4.CreateSession
open L1.H264 (Bytes)
open L1.JsonWrite
open L1.SessionCodec (safeHeader)
open L4.TurnFilter (Text IceServer Urls RtcConfigurationDto IceTransportPolicy Reply includes truthy
  getRtcConfiguration)
open Utf8

/-! ## The platform -/

/-- `WhiteSpace` and `LineTerminator`. -/
def isSpace (c : Char) : Bool :=
  [9, 10, 11, 12, 13, 32, 0xa0, 0x1680, 0x2028, 0x2029, 0x202f, 0x205f, 0x3000, 0xfeff].contains
    c.toNat || (0x2000 ≤ c.toNat && c.toNat ≤ 0x200a)

def trim (s : Text) : Text := (s.dropWhile isSpace).rdropWhile isSpace

def unsigned : Text → Text
  | '+' :: s => s
  | '-' :: s => s
  | s => s

/-- `parseInt(s, 10)`, where `none` is `NaN`. -/
def parseInt (s : Text) : Option Int :=
  let s := s.dropWhile isSpace
  let digits := (unsigned s).takeWhile Char.isDigit
  let n : Int := Nat.ofDigitChars 10 digits 0
  if digits = [] then none else some (if s.head? = some '-' then -n else n)

/-- The last `w` digits of `n`. -/
def pad : Nat → Nat → Text
  | 0, _ => []
  | w + 1, n => pad w (n / 10) ++ [(n % 10).digitChar]

def yearText (y : Int) : Text :=
  if 0 ≤ y ∧ y ≤ 9999 then pad 4 y.toNat
  else (if y < 0 then '-' else '+') :: pad 6 y.natAbs

/-- The day in the proleptic Gregorian calendar, counted from 1970-01-01, as year,
month and day. -/
def civil (days : Int) : Int × Nat × Nat :=
  let z := days + 719468
  let era := z / 146097
  let doe := (z % 146097).toNat
  let yoe := (doe - doe / 1460 + doe / 36524 - doe / 146096) / 365
  let doy := doe - (365 * yoe + yoe / 4 - yoe / 100)
  let mp := (5 * doy + 2) / 153
  let month := if mp < 10 then mp + 3 else mp - 9
  (era * 400 + yoe + (if month ≤ 2 then 1 else 0), month, doy - (153 * mp + 2) / 5 + 1)

/-- `new Date(ms).toISOString()`, which throws outside the range of dates. -/
def toISOString (ms : Int) : Option Text :=
  if ms.natAbs > 8640000000000000 then none
  else
    let date := civil (ms / 86400000)
    let time := (ms % 86400000).toNat
    some (yearText date.1 ++ '-' :: (pad 2 date.2.1 ++ '-' :: (pad 2 date.2.2 ++ 'T' ::
      (pad 2 (time / 3600000) ++ ':' :: (pad 2 (time / 60000 % 60) ++ ':' ::
        (pad 2 (time / 1000 % 60) ++ '.' :: (pad 3 (time % 1000) ++ ['Z'])))))))

/-! ## Tokens -/

/-- `A` to `Z`, `a` to `z`, `0` to `9` and two more. -/
def alphabet : Text :=
  (List.range' 65 26 ++ List.range' 97 26 ++ List.range' 48 10).map Char.ofNat ++ ['+', '/']

def sixBits (n : Nat) : Char := alphabet.getD n 'A'

/-- Base 64, padded. -/
def btoa : List UInt8 → Text
  | a :: b :: c :: rest =>
    sixBits (a.toNat / 4) :: sixBits (a.toNat % 4 * 16 + b.toNat / 16) ::
      sixBits (b.toNat % 16 * 4 + c.toNat / 64) :: sixBits (c.toNat % 64) :: btoa rest
  | [a, b] =>
    [sixBits (a.toNat / 4), sixBits (a.toNat % 4 * 16 + b.toNat / 16), sixBits (b.toNat % 16 * 4), '=']
  | [a] => [sixBits (a.toNat / 4), sixBits (a.toNat % 4 * 16), '=', '=']
  | [] => []

def replaced (c : Char) : Char :=
  let c := if c = '+' then '-' else c
  if c = '/' then '_' else c

/-- mirrors cloud/src/signaling/tokens.ts:1-10 -/
def toBase64Url (bytes : List UInt8) : Text := ((btoa bytes).map replaced).rdropWhile (· == '=')

/-! ## The route -/

/-- mirrors cloud/src/env.ts:1-18 -/
structure Env extends TurnFilter.Env where
  PUBLIC_BASE_URL : Option Text := none
  SESSION_TTL_SECONDS : Option Text := none
  SIGNALING_TIMEOUT_SECONDS : Option Text := none

/-- A request, with what the platform gives the route on the way. -/
structure Request where
  /-- a body that says it is JSON and is not -/
  malformed : Bool := false
  /-- `new URL(c.req.url).origin`, unless it throws -/
  origin : Option Text
  sessionId : Vector UInt8 16
  receiverToken : Vector UInt8 32
  joinToken : Vector UInt8 32
  now : Int
  turn : Reply
  /-- `result.success` of the durable object -/
  stored : Bool := true

/-- mirrors cloud/src/signaling/types.ts:32-39; `timeoutMs` is the one number of
the poll policy that is not constant, and `NaN` when `none`. -/
structure CreateSessionResponse where
  sessionId : Text
  receiverToken : Text
  joinUrl : Text
  expiresAt : Text
  timeoutMs : Option Int
  rtcConfiguration : RtcConfigurationDto

inductive Response where
  | created (body : Bytes)
  | refused (status : Nat) (code : String)
  | thrown

/-- `value || "600"` -/
def orDefault : Option Text → Text
  | none | some [] => ['6', '0', '0']
  | some s => s

def ttlSeconds (env : Env) : Option Int := parseInt (orDefault env.SESSION_TTL_SECONDS)

def timeoutSeconds (env : Env) : Option Int := parseInt (orDefault env.SIGNALING_TIMEOUT_SECONDS)

/-- mirrors cloud/src/routes/sessions.ts:87-95 -/
def baseUrl (env : Env) (origin : Option Text) : Text :=
  let own := (env.PUBLIC_BASE_URL.map trim).getD []
  let chosen :=
    if own = [] ∨ includes own "127.0.0.1".toList ∨ includes own "localhost".toList then
      origin.getD (if own = [] then "http://127.0.0.1:8787".toList else own)
    else own
  chosen.rdropWhile (· == '/')

def joinUrl (base sessionId joinToken : Text) : Text :=
  base ++ ("/send/#v=1&s=".toList ++ (sessionId ++ ("&j=".toList ++ joinToken)))

def urlsDoc : Urls Text → Doc
  | .one url => .string url
  | .many urls => .array (urls.map .string)

/-- A member, unless it is `undefined`. -/
def member (key : String) (value : Option String) : List (Text × Doc) :=
  match value with
  | some s => [(key.toList, .string s.toList)]
  | none => []

def serverDoc (s : IceServer Text) : Doc :=
  .object (("urls".toList, urlsDoc s.urls) ::
    (member "username" s.username ++ member "credential" s.credential))

def policyText : IceTransportPolicy → Text
  | .all => "all".toList
  | .relay => "relay".toList

def configDoc (c : RtcConfigurationDto) : Doc :=
  .object [("iceServers".toList, .array (c.iceServers.map serverDoc)),
    ("iceTransportPolicy".toList, .string (policyText c.iceTransportPolicy))]

def timeoutDoc : Option Int → Doc
  | some n => .number n
  | none => .null

def pollDoc (timeoutMs : Option Int) : Doc :=
  .object [("initialIntervalMs".toList, .number 1000), ("backoffAfterMs".toList, .number 15000),
    ("maxIntervalMs".toList, .number 2000), ("timeoutMs".toList, timeoutDoc timeoutMs)]

/-- mirrors cloud/src/routes/sessions.ts:98-110 -/
def responseDoc (r : CreateSessionResponse) : Doc :=
  .object [("sessionId".toList, .string r.sessionId),
    ("receiverToken".toList, .string r.receiverToken), ("joinUrl".toList, .string r.joinUrl),
    ("expiresAt".toList, .string r.expiresAt), ("poll".toList, pollDoc r.timeoutMs),
    ("rtcConfiguration".toList, configDoc r.rtcConfiguration)]

def responsePayload (env : Env) (req : Request) (expiresAt : Text)
    (rtcConfiguration : RtcConfigurationDto) : CreateSessionResponse where
  sessionId := toBase64Url req.sessionId.toList
  receiverToken := toBase64Url req.receiverToken.toList
  joinUrl := joinUrl (baseUrl env req.origin) (toBase64Url req.sessionId.toList)
    (toBase64Url req.joinToken.toList)
  expiresAt := expiresAt
  timeoutMs := (timeoutSeconds env).map (· * 1000)
  rtcConfiguration := rtcConfiguration

/-- mirrors cloud/src/routes/sessions.ts:30-113 -/
def createSession (env : Env) (req : Request) : Response :=
  if req.malformed then .refused 400 "INVALID_JSON"
  else
    match (ttlSeconds env).bind fun ttl => toISOString (req.now + ttl * 1000) with
    | none => .thrown
    | some expiresAt =>
      match getRtcConfiguration env.toEnv req.turn with
      | .error _ => .refused 503 "DEPENDENCY_FAILED"
      | .ok rtcConfiguration =>
        if !req.stored then .refused 409 "SESSION_CONFLICT"
        else .created (utf8 (stringify (responseDoc (responsePayload env req expiresAt rtcConfiguration))))

/-! ## Tokens, as written -/

theorem sixBits_mem (n : Nat) : sixBits n ∈ alphabet := by
  rw [sixBits, List.getD_eq_getElem?_getD]
  cases h : alphabet[n]? with
  | none => decide
  | some c => exact List.mem_of_getElem? h

/-- Characters of the alphabet, four for three bytes, and padding. -/
theorem btoa_shape (bytes : List UInt8) : ∃ body k, btoa bytes = body ++ List.replicate k '=' ∧
    (∀ c ∈ body, c ∈ alphabet) ∧ body.length = (4 * bytes.length + 2) / 3 := by
  fun_induction btoa bytes with
  | case1 a b c rest ih =>
    obtain ⟨body, k, hbody, hmem, hlength⟩ := ih
    refine ⟨sixBits (a.toNat / 4) :: sixBits (a.toNat % 4 * 16 + b.toNat / 16) ::
      sixBits (b.toNat % 16 * 4 + c.toNat / 64) :: sixBits (c.toNat % 64) :: body, k, ?_, ?_, ?_⟩
    · rw [hbody]
      rfl
    · simp only [List.forall_mem_cons, sixBits_mem, true_and]
      exact hmem
    · simp only [List.length_cons, hlength]
      omega
  | case2 a b =>
    exact ⟨[sixBits (a.toNat / 4), sixBits (a.toNat % 4 * 16 + b.toNat / 16),
      sixBits (b.toNat % 16 * 4)], 1, rfl, by simp [sixBits_mem], by simp⟩
  | case3 a =>
    exact ⟨[sixBits (a.toNat / 4), sixBits (a.toNat % 4 * 16)], 2, rfl, by simp [sixBits_mem],
      by simp⟩
  | case4 => exact ⟨[], 0, rfl, by simp, rfl⟩

theorem rdropWhile_end {α : Type} {p : α → Bool} {a : α} (ha : p a = true) (l b : List α) :
    l.rdropWhile p ≠ b ++ [a] := by
  intro h
  have hne : l.rdropWhile p ≠ [] := by
    rw [h]
    exact List.append_ne_nil_of_right_ne_nil b (List.cons_ne_nil _ _)
  have hlast := List.rdropWhile_last_not _ _ hne
  simp [h, ha] at hlast

theorem rdropWhile_replicate {α : Type} {p : α → Bool} {l : List α} {a : α} (hl : ∀ x ∈ l, p x = false)
    (ha : p a = true) (k : Nat) : (l ++ List.replicate k a).rdropWhile p = l := by
  induction k with
  | zero =>
    rw [List.replicate_zero, List.append_nil, List.rdropWhile_eq_self_iff]
    intro hne hp
    rw [hl _ (List.getLast_mem hne)] at hp
    cases hp
  | succ k ih => rw [List.replicate_succ', ← List.append_assoc, List.rdropWhile_concat_pos _ _ _ ha, ih]

def headerByte (b : UInt8) : Bool := !(b.toNat < 32 || b.toNat == 127)

/-- In ASCII, and fit for an id and for a header. -/
def tokenChar (c : Char) : Bool :=
  decide (c.toNat < 0x80) && L1.SessionCodec.sessionIdByte (UInt8.ofNat c.toNat) &&
    headerByte (UInt8.ofNat c.toNat)

def IsToken (s : Text) : Prop := ∀ c ∈ s, tokenChar c = true

theorem tokenChar_iff {c : Char} : tokenChar c = true ↔ c.toNat < 0x80 ∧
    L1.SessionCodec.sessionIdByte (UInt8.ofNat c.toNat) = true ∧
      headerByte (UInt8.ofNat c.toNat) = true := by
  simp only [tokenChar, Bool.and_eq_true, decide_eq_true_eq, and_assoc]

theorem IsToken.size {s : Text} (h : IsToken s) : (utf8 s).length = s.length :=
  length_ascii fun c hc => (tokenChar_iff.1 (h c hc)).1

theorem IsToken.ids {s : Text} (h : IsToken s) :
    (utf8 s).all L1.SessionCodec.sessionIdByte = true :=
  ascii_all fun c hc => ⟨(tokenChar_iff.1 (h c hc)).1, (tokenChar_iff.1 (h c hc)).2.1⟩

theorem IsToken.header {s : Text} (h : IsToken s) : safeHeader (utf8 s) = true :=
  ascii_all fun c hc => ⟨(tokenChar_iff.1 (h c hc)).1, (tokenChar_iff.1 (h c hc)).2.2⟩

theorem replaced_token : ∀ c ∈ alphabet.map replaced, (!(c == '=') && tokenChar c) = true := by
  rw [← List.all_eq_true]
  rfl

theorem toBase64Url_token (bytes : List UInt8) : IsToken (toBase64Url bytes) ∧
    (toBase64Url bytes).length = (4 * bytes.length + 2) / 3 := by
  obtain ⟨body, k, hbody, hmem, hlength⟩ := btoa_shape bytes
  have hchar : ∀ c ∈ body.map replaced, (c == '=') = false ∧ tokenChar c = true := by
    intro c hc
    obtain ⟨d, hd, rfl⟩ := List.mem_map.1 hc
    simpa using replaced_token _ (List.mem_map_of_mem (hmem d hd))
  have htext : toBase64Url bytes = body.map replaced := by
    have hpad : replaced '=' = '=' := by decide
    rw [toBase64Url, hbody, List.map_append, List.map_replicate, hpad]
    exact rdropWhile_replicate (fun c hc => (hchar c hc).1) rfl k
  rw [htext, List.length_map]
  exact ⟨fun c hc => (hchar c hc).2, hlength⟩

/-- The form in which the route makes its id and its tokens. -/
theorem vector_token {n : Nat} (bytes : Vector UInt8 n) : IsToken (toBase64Url bytes.toList) ∧
    (utf8 (toBase64Url bytes.toList)).length = (4 * n + 2) / 3 := by
  obtain ⟨htoken, hlength⟩ := toBase64Url_token bytes.toList
  rw [← htoken.size, Vector.length_toList] at hlength
  exact ⟨htoken, hlength⟩

/-! ## Dates, as written -/

/-- ASCII without control characters. -/
def Plain (s : Text) : Prop := ∀ c ∈ s, 32 ≤ c.toNat ∧ c.toNat < 0x80

theorem Plain.size {s : Text} (h : Plain s) : L1.JsonWrite.size (.string s) ≤ 2 * s.length + 2 := by
  rw [← length_ascii fun c hc => (h c hc).2]
  exact string_size fun c hc => (h c hc).1

theorem Plain.cons {c : Char} {s : Text} (hc : 32 ≤ c.toNat ∧ c.toNat < 0x80) (h : Plain s) :
    Plain (c :: s) := List.forall_mem_cons.2 ⟨hc, h⟩

theorem Plain.append {s t : Text} (h : Plain s) (h' : Plain t) : Plain (s ++ t) :=
  List.forall_mem_append.2 ⟨h, h'⟩

theorem pad_plain (w n : Nat) : Plain (pad w n) ∧ (pad w n).length = w := by
  induction w generalizing n with
  | zero => exact ⟨fun c hc => absurd hc List.not_mem_nil, rfl⟩
  | succ w ih =>
    obtain ⟨hplain, hlength⟩ := ih (n / 10)
    have hdigit : ∀ d < 10, 32 ≤ (Nat.digitChar d).toNat ∧ (Nat.digitChar d).toNat < 0x80 := by decide
    have hlast : Plain [(n % 10).digitChar] :=
      .cons (hdigit _ (Nat.mod_lt n (by decide))) fun c hc => absurd hc List.not_mem_nil
    rw [pad]
    exact ⟨hplain.append hlast, by rw [List.length_append, hlength, List.length_singleton]⟩

theorem yearText_plain (y : Int) : Plain (yearText y) ∧ (yearText y).length ≤ 7 := by
  unfold yearText
  split
  · obtain ⟨hplain, hlength⟩ := pad_plain 4 y.toNat
    exact ⟨hplain, by omega⟩
  · obtain ⟨hplain, hlength⟩ := pad_plain 6 y.natAbs
    refine ⟨.cons ?_ hplain, by rw [List.length_cons, hlength]⟩
    split <;> decide

theorem toISOString_plain {ms : Int} {s : Text} (h : toISOString ms = some s) :
    Plain s ∧ s.length ≤ 27 := by
  unfold toISOString at h
  split at h
  · cases h
  cases h
  obtain ⟨hyear, hyearLength⟩ := yearText_plain (civil (ms / 86400000)).1
  refine ⟨?_, ?_⟩
  · refine hyear.append (.cons (by decide) (.append (pad_plain _ _).1 (.cons (by decide) ?_)))
    refine .append (pad_plain _ _).1 (.cons (by decide) (.append (pad_plain _ _).1 (.cons (by decide) ?_)))
    refine .append (pad_plain _ _).1 (.cons (by decide) (.append (pad_plain _ _).1 (.cons (by decide) ?_)))
    exact .append (pad_plain _ _).1 (.cons (by decide) fun c hc => absurd hc List.not_mem_nil)
  · simp only [List.length_append, List.length_cons, (pad_plain _ _).2, List.length_nil]
    omega

example : toISOString 1709164800000 = some "2024-02-29T00:00:00.000Z".toList := by decide

/-! ## The answer -/

theorem config_nonempty {env : TurnFilter.Env} {reply : Reply} {c : RtcConfigurationDto}
    (h : getRtcConfiguration env reply = .ok c) : ∀ s ∈ c.iceServers, s.urls.list ≠ [] := by
  have hdefault : ∀ s ∈ TurnFilter.defaultIce, s.urls.list ≠ [] := by
    intro s hs
    rw [List.mem_singleton.1 hs]
    exact List.cons_ne_nil _ _
  have hfallback : ∀ s ∈ TurnFilter.defaultIce ++ TurnFilter.staticIce env, s.urls.list ≠ [] := by
    intro s hs
    rcases List.mem_append.1 hs with hs | hs
    · exact hdefault s hs
    · unfold TurnFilter.staticIce at hs
      split at hs
      · cases hs
      split at hs
      · rw [List.mem_singleton.1 hs]
        exact List.cons_ne_nil _ _
      · cases hs
  unfold getRtcConfiguration at h
  dsimp only at h
  split at h
  · split at h
    · cases h
    · cases h
    · cases h
      exact hfallback
    · cases h
      intro s hs
      rcases List.mem_append.1 hs with hs | hs
      · exact hdefault s hs
      · rw [TurnFilter.filteredServers, List.mem_filter] at hs
        exact List.length_pos_iff.1 (of_decide_eq_true hs.2)
  · cases h
    exact hfallback

/-- What a route that answers 201 has answered. -/
theorem created_payload {env : Env} {req : Request} {body : Bytes}
    (h : createSession env req = .created body) : ∃ ms expiresAt c, toISOString ms = some expiresAt ∧
      getRtcConfiguration env.toEnv req.turn = .ok c ∧
      body = utf8 (stringify (responseDoc (responsePayload env req expiresAt c))) := by
  unfold createSession at h
  split at h
  · cases h
  split at h
  · cases h
  rename_i expiresAt hexpires
  obtain ⟨ttl, -, hexpires⟩ := Option.bind_eq_some_iff.1 hexpires
  split at h
  · cases h
  rename_i c hc
  split at h
  · cases h
  · cases h
    exact ⟨_, expiresAt, c, hexpires, hc, rfl⟩

end KmVirtualCamera.L4.CreateSession
