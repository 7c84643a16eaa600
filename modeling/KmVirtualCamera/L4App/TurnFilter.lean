import Mathlib
import KmVirtualCamera.Core.Infix

/-!
# The ICE servers a session is given (`getRtcConfiguration`)

The worker adds the servers of the TURN API to its own, less the URLs on port
53. It looks for them in the text of a URL, as `:53` or `port=53`.

`IceUrl` is a URL by its parts (RFC 7064, RFC 7065), `IceUrl.text` how it is
written, `withoutPort53` what the filter is meant to do.

* `keeps_text`: which parts make a URL look like one on port 53.
* `filter_right`: the filter does what it is meant to do unless some URL is
  `Misread`; ports such as 5349 and hosts such as 53.1.2.3 are.
-/
namespace KmVirtualCamera.L4.TurnFilter

/-! ## The worker -/

abbrev Text := List Char

/-- `urls: string | string[]`. -/
inductive Urls (υ : Type) where
  | one (url : υ)
  | many (urls : List υ)

def Urls.list {υ : Type} : Urls υ → List υ
  | .one url => [url]
  | .many urls => urls

structure IceServer (υ : Type) where
  urls : Urls υ
  username : Option String := none
  credential : Option String := none

/-- `u.includes(word)`. -/
def includes (u word : Text) : Bool := decide (word <:+: u)

/-- mirrors cloud/src/signaling/turn.ts:48 -/
def keeps (u : Text) : Bool :=
  !includes u [':', '5', '3'] && !includes u ['p', 'o', 'r', 't', '=', '5', '3']

/-- mirrors cloud/src/signaling/turn.ts:46-50 -/
def filteredServers (iceServers : List (IceServer Text)) : List (IceServer Text) :=
  (iceServers.map fun server =>
    { server with urls := .many (server.urls.list.filter keeps) }).filter
      fun s => decide (s.urls.list.length > 0)

structure Env where
  ICE_TRANSPORT_POLICY : Option String := none
  ENABLE_TURN : Option String := none
  TURN_KEY_ID : Option String := none
  TURN_KEY_API_TOKEN : Option String := none
  TURN_STATIC_URL : Option Text := none
  TURN_STATIC_USERNAME : Option String := none
  TURN_STATIC_CREDENTIAL : Option String := none

inductive IceTransportPolicy where
  | all | relay
  deriving DecidableEq

structure RtcConfigurationDto where
  iceServers : List (IceServer Text)
  iceTransportPolicy : IceTransportPolicy

/-- What the TURN API answers; `failed` when the request or its JSON throws. -/
inductive Reply where
  | failed
  | status (status : Nat)
  | data (iceServers : Option (List (IceServer Text)))

/-- mirrors cloud/src/signaling/turn.ts:9-20 -/
def defaultIce : List (IceServer Text) :=
  [{ urls := .many
      ["stun:stun.l.google.com:19302".toList, "stun:stun1.l.google.com:19302".toList,
        "stun:stun2.l.google.com:19302".toList, "stun:stun3.l.google.com:19302".toList,
        "stun:stun4.l.google.com:19302".toList, "stun:stun.cloudflare.com:3478".toList,
        "stun:global.stun.twilio.com:3478".toList] }]

def truthy (s : Option String) : Bool := s.any fun s => s != ""

/-- The server with static credentials, when it is configured.
mirrors cloud/src/signaling/turn.ts:70-79 -/
def staticIce (env : Env) : List (IceServer Text) :=
  match env.TURN_STATIC_URL with
  | none => []
  | some url =>
    if url ≠ [] ∧ truthy env.TURN_STATIC_USERNAME ∧ truthy env.TURN_STATIC_CREDENTIAL then
      [{ urls := .one url, username := env.TURN_STATIC_USERNAME,
         credential := env.TURN_STATIC_CREDENTIAL }]
    else []

/-- mirrors cloud/src/signaling/turn.ts:4-82 -/
def getRtcConfiguration (env : Env) (reply : Reply) : Except String RtcConfigurationDto :=
  let iceTransportPolicy :=
    if env.ICE_TRANSPORT_POLICY = some "relay" then IceTransportPolicy.relay else .all
  let fallback : RtcConfigurationDto := ⟨defaultIce ++ staticIce env, iceTransportPolicy⟩
  if env.ENABLE_TURN = some "true" ∧ truthy env.TURN_KEY_ID ∧ truthy env.TURN_KEY_API_TOKEN then
    match reply with
    | .failed => .error "TURN_CREDENTIALS_FAILED"
    | .status _ => .error "TURN_CREDENTIALS_FAILED"
    | .data none => .ok fallback
    | .data (some iceServers) =>
      .ok ⟨defaultIce ++ filteredServers iceServers, iceTransportPolicy⟩
  else .ok fallback

/-! ## URLs by their parts -/

inductive Scheme where
  | stun | turn | turns
  deriving DecidableEq

def Scheme.text : Scheme → Text
  | .stun => ['s', 't', 'u', 'n']
  | .turn => ['t', 'u', 'r', 'n']
  | .turns => ['t', 'u', 'r', 'n', 's']

/-- The port of a URL that names none. -/
def Scheme.defaultPort : Scheme → Nat
  | .stun | .turn => 3478
  | .turns => 5349

def unreserved (c : Char) : Bool := c.isAlphanum || ['-', '.', '_', '~'].contains c

/-- In a registered name or an IPv4 address: also `sub-delims` and `%`. -/
def regName (c : Char) : Bool :=
  unreserved c || ['!', '$', '&', '\'', '(', ')', '*', '+', ',', ';', '=', '%'].contains c

/-- In an IPv6 address, between its brackets. -/
def inV6 (c : Char) : Bool :=
  c.isDigit || ['a', 'b', 'c', 'd', 'e', 'f', 'A', 'B', 'C', 'D', 'E', 'F', ':', '.'].contains c

inductive Host where
  | name (cs : Text) (ok : ∀ c ∈ cs, regName c = true)
  | v6 (cs : Text) (ok : ∀ c ∈ cs, inV6 c = true)

def Host.text : Host → Text
  | .name cs _ => cs
  | .v6 cs _ => '[' :: (cs ++ [']'])

structure Transport where
  text : Text
  ok : ∀ c ∈ text, unreserved c = true

abbrev Digits := List (Fin 10)

def digit (d : Fin 10) : Char := Nat.digitChar d.val

def Digits.text (ds : Digits) : Text := ds.map digit

def Digits.value (ds : Digits) : Nat := ds.foldl (fun n d => 10 * n + d.val) 0

structure IceUrl where
  scheme : Scheme
  host : Host
  /-- `:port`, whose digits may be missing or start with zeros -/
  digits : Option Digits := none
  /-- `?transport=…` -/
  transport : Option Transport := none

def portText : Option Digits → Text
  | none => []
  | some ds => ':' :: ds.text

def transportText : Option Transport → Text
  | none => []
  | some t => '?' :: (['t', 'r', 'a', 'n', 's', 'p', 'o', 'r', 't'] ++ '=' :: t.text)

def IceUrl.text (u : IceUrl) : Text :=
  u.scheme.text ++ ':' :: (u.host.text ++ (portText u.digits ++ transportText u.transport))

/-- The port a client connects to. -/
def IceUrl.port (u : IceUrl) : Nat :=
  match u.digits with
  | none | some [] => u.scheme.defaultPort
  | some ds => ds.value

/-- The filter as it is meant: every URL on port 53 goes, and the servers left
with none. -/
def withoutPort53 (iceServers : List (IceServer IceUrl)) : List (IceServer IceUrl) :=
  (iceServers.map fun server =>
    { server with urls := .many (server.urls.list.filter fun u => decide (u.port ≠ 53)) }).filter
      fun s => decide (s.urls.list.length > 0)

/-- The server as the API writes it. -/
def IceServer.written (s : IceServer IceUrl) : IceServer Text :=
  { s with
    urls := match s.urls with
      | .one u => .one u.text
      | .many us => .many (us.map IceUrl.text) }

/-! ## What the filter reads -/

/-- `53` where no port is: at the start of a name or an IPv4 address or after a
colon of an IPv6 address; or `port=53` in a name. -/
def Host.Stray : Host → Prop
  | .name cs _ => ['5', '3'] <+: cs ∨ ['p', 'o', 'r', 't', '=', '5', '3'] <:+: cs
  | .v6 cs _ => [':', '5', '3'] <:+: cs

/-- The host reads so, or the transport starts with `53`. -/
def IceUrl.Stray (u : IceUrl) : Prop := u.host.Stray ∨ ∃ t ∈ u.transport, ['5', '3'] <+: t.text

/-- The port is written with `53` first: 53, 530, 5349, … -/
def IceUrl.Leads53 (u : IceUrl) : Prop := ∃ ds ∈ u.digits, [5, 3] <+: ds

theorem absent {p : Char → Bool} {cs : Text} (ok : ∀ c ∈ cs, p c = true) {c : Char}
    (hc : p c = false) : c ∉ cs := by
  intro hm
  rw [ok c hm] at hc
  cases hc

theorem digit_absent {c : Char} (hc : ∀ d, digit d ≠ c) (ds : Digits) :
    c ∉ ds.text := by
  intro hm
  obtain ⟨d, -, hd⟩ := List.mem_map.1 hm
  exact hc d hd

theorem transport_absent {c : Char} (hc : c ∉ ['?', 't', 'r', 'a', 'n', 's', 'p', 'o', 'r', 't', '='])
    (hu : unreserved c = false) (t : Option Transport) : c ∉ transportText t := by
  cases t with
  | none => exact List.not_mem_nil
  | some t =>
    have ht := absent t.ok hu
    simp only [List.mem_cons, List.not_mem_nil, not_or, or_false] at hc
    simp [transportText, hc, ht]

theorem transport_head {d : Char} {t : Option Transport} (hd : d ∈ (transportText t).head?) :
    d = '?' := by
  cases t with
  | none => cases hd
  | some t => simpa [transportText] using hd.symm

/-- What follows the host starts with a colon or a question mark. -/
theorem rest_head {d : Char} {ds : Option Digits} {t : Option Transport}
    (hd : d ∈ (portText ds ++ transportText t).head?) : d = ':' ∨ d = '?' := by
  cases ds with
  | none => exact .inr (transport_head hd)
  | some ds => exact .inl (by simpa [portText] using hd.symm)

theorem digits_prefix (ds : Digits) : ['5', '3'] <+: ds.text ↔ [5, 3] <+: ds := by
  have hinj : Function.Injective digit := by decide
  have h53 : ['5', '3'] = List.map digit [5, 3] := rfl
  rw [h53, Digits.text]
  constructor
  · intro h
    obtain ⟨es, hes, htext⟩ := List.prefix_map_iff.1 h
    exact List.map_injective_iff.2 hinj htext ▸ hes
  · intro h
    exact h.map digit

/-- `:53` behind the host is the port. -/
theorem colon_rest (ds : Option Digits) (t : Option Transport) :
    [':', '5', '3'] <:+: portText ds ++ transportText t ↔ ∃ es ∈ ds, [5, 3] <+: es := by
  have ht : ':' ∉ transportText t := transport_absent (by decide) (by decide) t
  cases ds with
  | none => simpa [portText] using not_infix_of_absent List.mem_cons_self ht
  | some ds =>
    have hds : ':' ∉ ds.text ++ transportText t := by
      rw [List.mem_append, not_or]
      exact ⟨digit_absent (by decide) ds, ht⟩
    have hstop : ∀ d ∈ (transportText t).head?, d ∉ ['5', '3'] := by
      intro d hd
      rw [transport_head hd]
      decide
    rw [portText, List.cons_append, infix_head, prefix_stop hstop, digits_prefix]
    simp [not_infix_of_absent List.mem_cons_self hds]

/-- `port=53` behind the host is the end of `?transport=` and a transport. -/
theorem query_rest (ds : Option Digits) (t : Option Transport) :
    ['p', 'o', 'r', 't', '=', '5', '3'] <:+: portText ds ++ transportText t ↔
      ∃ s ∈ t, ['5', '3'] <+: s.text := by
  have hport : '=' ∉ portText ds := by
    cases ds with
    | none => exact List.not_mem_nil
    | some ds => simpa [portText] using digit_absent (by decide) ds
  have hmem : '=' ∈ ['p', 'o', 'r', 't', '=', '5', '3'] := by decide
  cases t with
  | none => simpa [transportText] using not_infix_of_absent hmem hport
  | some t =>
    have ht : '=' ∉ t.text := absent t.ok (by decide)
    have hends : ['p', 'o', 'r', 't'] <:+ ['t', 'r', 'a', 'n', 's', 'p', 'o', 'r', 't'] := by decide
    have haround := infix_around (v := ['p', 'o', 'r', 't']) (w := ['5', '3'])
      (a := ['t', 'r', 'a', 'n', 's', 'p', 'o', 'r', 't']) (by decide) ht
    rw [transportText, infix_mid (by decide)]
    simp only [not_infix_of_absent hmem hport, false_or, Option.mem_some_iff, exists_eq_left']
    exact haround.trans (and_iff_right hends)

/-- `:53` is the start of a name, in an IPv6 address, or the port. -/
theorem colon_text (u : IceUrl) : [':', '5', '3'] <:+: u.text ↔
    (match u.host with
      | .name cs _ => ['5', '3'] <+: cs
      | .v6 cs _ => [':', '5', '3'] <:+: cs) ∨ u.Leads53 := by
  obtain ⟨scheme, host, ds, t⟩ := u
  have hscheme : ':' ∉ scheme.text := by cases scheme <;> decide
  rw [IceUrl.text, infix_skip hscheme, infix_head]
  dsimp only
  cases host with
  | name cs ok =>
    have hstop : ∀ d ∈ (portText ds ++ transportText t).head?, d ∉ ['5', '3'] := by
      intro d hd
      rcases rest_head hd with rfl | rfl
      · decide
      · decide
    have hcs : ':' ∉ cs := absent ok (by decide)
    rw [Host.text, prefix_stop hstop, infix_skip hcs, colon_rest]
    rfl
  | v6 cs ok =>
    have hcut : Host.text (.v6 cs ok) ++ (portText ds ++ transportText t) =
        [] ++ '[' :: (cs ++ ']' :: (portText ds ++ transportText t)) := by simp [Host.text]
    rw [hcut, infix_mid (by decide), infix_mid (by decide), colon_rest]
    simp [IceUrl.Leads53]

/-- `port=53` is in a name, or the transport starts with `53`. -/
theorem query_text (u : IceUrl) : ['p', 'o', 'r', 't', '=', '5', '3'] <:+: u.text ↔
    (match u.host with
      | .name cs _ => ['p', 'o', 'r', 't', '=', '5', '3'] <:+: cs
      | .v6 _ _ => False) ∨ ∃ t ∈ u.transport, ['5', '3'] <+: t.text := by
  obtain ⟨scheme, host, ds, t⟩ := u
  have hscheme : ¬ ['p', 'o', 'r', 't', '=', '5', '3'] <:+: scheme.text := by
    cases scheme <;> decide
  rw [IceUrl.text, infix_mid (by decide)]
  simp only [hscheme, false_or]
  cases host with
  | name cs ok =>
    have hstop : ∀ d ∈ (portText ds ++ transportText t).head?,
        d ∉ ['p', 'o', 'r', 't', '=', '5', '3'] := by
      intro d hd
      rcases rest_head hd with rfl | rfl
      · decide
      · decide
    rw [Host.text, infix_stop hstop, query_rest]
  | v6 cs ok =>
    have hcut : Host.text (.v6 cs ok) ++ (portText ds ++ transportText t) =
        [] ++ '[' :: (cs ++ ']' :: (portText ds ++ transportText t)) := by simp [Host.text]
    have hcs : ¬ ['p', 'o', 'r', 't', '=', '5', '3'] <:+: cs :=
      not_infix_of_absent List.mem_cons_self (absent ok (by decide))
    rw [hcut, infix_mid (by decide), infix_mid (by decide), query_rest]
    simp [hcs]

theorem keeps_text (u : IceUrl) : keeps u.text = false ↔ u.Stray ∨ u.Leads53 := by
  have hkeeps : keeps u.text = false ↔
      [':', '5', '3'] <:+: u.text ∨ ['p', 'o', 'r', 't', '=', '5', '3'] <:+: u.text := by
    rw [keeps, includes, includes, Bool.and_eq_false_iff]
    simp only [Bool.not_eq_false', decide_eq_true_eq]
  rw [hkeeps, colon_text, query_text, IceUrl.Stray]
  generalize (∃ t ∈ u.transport, ['5', '3'] <+: t.text) = strayTransport
  cases u.host with
  | name cs ok =>
    simp only [Host.Stray]
    tauto
  | v6 cs ok =>
    simp only [Host.Stray]
    tauto

/-! ## What it keeps -/

/-- The filter takes the URL for one on port 53 that it is not, or the other way. -/
inductive Misread (u : IceUrl) : Prop
  | dropped (hp : u.port ≠ 53) (h : u.Stray ∨ u.Leads53)
  | kept (hp : u.port = 53) (hd : u.digits ≠ some [5, 3]) (hs : ¬ u.Stray)

theorem value_from (ds : Digits) (n : Nat) : n ≤ ds.foldl (fun n d => 10 * n + d.val) n := by
  induction ds generalizing n with
  | nil => exact Nat.le_refl n
  | cons d ds ih =>
    have := ih (10 * n + d.val)
    rw [List.foldl_cons]
    omega

/-- Port 53 is written `53` when its digits start so. -/
theorem leads_port (u : IceUrl) (hp : u.port = 53) : u.Leads53 ↔ u.digits = some [5, 3] := by
  constructor
  · intro h
    obtain ⟨ds, hds, more, rfl⟩ := h
    rw [Option.mem_def] at hds
    cases more with
    | nil => exact hds
    | cons d more =>
      have hvalue : u.port = Digits.value (5 :: 3 :: d :: more) := by simp [IceUrl.port, hds]
      have := value_from more (10 * 53 + d.val)
      have hfrom : Digits.value (5 :: 3 :: d :: more) =
          more.foldl (fun n d => 10 * n + d.val) (10 * 53 + d.val) := rfl
      omega
  · intro h
    exact ⟨[5, 3], h, List.prefix_rfl⟩

theorem keeps_iff (u : IceUrl) : keeps u.text = decide (u.port ≠ 53) ↔ ¬ Misread u := by
  have hkeeps := keeps_text u
  by_cases hp : u.port = 53
  · rw [leads_port u hp] at hkeeps
    have hmis : Misread u ↔ ¬ (u.Stray ∨ u.digits = some [5, 3]) := by
      refine ⟨?_, fun h => .kept hp (fun hd => h (.inr hd)) fun hs => h (.inl hs)⟩
      intro h
      cases h with
      | dropped hne => exact absurd hp hne
      | kept _ hd hs => exact not_or.2 ⟨hs, hd⟩
    rw [hmis, not_not, ← hkeeps]
    simp [hp]
  · have hmis : Misread u ↔ (u.Stray ∨ u.Leads53) := by
      refine ⟨?_, .dropped hp⟩
      intro h
      cases h with
      | dropped _ h => exact h
      | kept he => exact absurd he hp
    rw [hmis, ← hkeeps]
    simp [hp]

/-! ## The list -/

/-- The server with the URLs that `p` keeps. -/
def IceServer.trim {υ : Type} (p : υ → Bool) (s : IceServer υ) : IceServer υ :=
  { s with urls := .many (s.urls.list.filter p) }

@[simp] theorem list_trim {υ : Type} (p : υ → Bool) (s : IceServer υ) :
    (s.trim p).urls.list = s.urls.list.filter p := rfl

/-- Both filters are of this form. -/
def filterUrls {υ : Type} (p : υ → Bool) (l : List (IceServer υ)) : List (IceServer υ) :=
  (l.map (IceServer.trim p)).filter fun s => decide (s.urls.list.length > 0)

def allUrls {υ : Type} (l : List (IceServer υ)) : List υ := l.flatMap fun s => s.urls.list

theorem allUrls_filterUrls {υ : Type} (p : υ → Bool) (l : List (IceServer υ)) :
    allUrls (filterUrls p l) = (allUrls l).filter p := by
  induction l with
  | nil => rfl
  | cons s l ih =>
    have hcons : allUrls (s :: l) = s.urls.list ++ allUrls l := rfl
    rw [hcons, List.filter_append, ← ih]
    cases hs : s.urls.list.filter p with
    | nil => simp [filterUrls, hs]
    | cons u us => simp [filterUrls, allUrls, hs]

theorem written_list (s : IceServer IceUrl) : s.written.urls.list = s.urls.list.map IceUrl.text := by
  obtain ⟨urls, username, credential⟩ := s
  cases urls with
  | one u => rfl
  | many us => rfl

theorem allUrls_written (l : List (IceServer IceUrl)) :
    allUrls (l.map IceServer.written) = (allUrls l).map IceUrl.text := by
  simp only [allUrls, List.flatMap_map, List.map_flatMap, written_list]

/-- Where the filter reads every URL right, it does what it is meant to. -/
theorem filtered_of_read {l : List (IceServer IceUrl)}
    (h : ∀ u ∈ allUrls l, keeps u.text = decide (u.port ≠ 53)) :
    filteredServers (l.map IceServer.written) = (withoutPort53 l).map IceServer.written := by
  have hserver : ∀ s ∈ l, (IceServer.trim keeps ∘ IceServer.written) s =
      (IceServer.written ∘ IceServer.trim fun u => decide (u.port ≠ 53)) s := by
    intro s hs
    have hurls := (filter_map_iff IceUrl.text keeps (fun u => decide (u.port ≠ 53)) s.urls.list).2
      fun u hu => h u (List.mem_flatMap.2 ⟨s, hs, hu⟩)
    simp only [Function.comp_apply, IceServer.trim, written_list, hurls]
    rfl
  have hfilter : filterUrls keeps (l.map IceServer.written) =
      (filterUrls (fun u => decide (u.port ≠ 53)) l).map IceServer.written := by
    rw [filterUrls, filterUrls, List.map_map, List.map_congr_left hserver, ← List.map_map,
      List.filter_map]
    congr 1
    refine List.filter_congr ?_
    intro s _
    simp only [Function.comp_apply, written_list, List.length_map]
  exact hfilter

/-- What the client is given, where the filter reads every URL right. -/
theorem served {env : Env} {l : List (IceServer IceUrl)} (hon : env.ENABLE_TURN = some "true")
    (hid : truthy env.TURN_KEY_ID) (htoken : truthy env.TURN_KEY_API_TOKEN)
    (h : ∀ u ∈ allUrls l, ¬ Misread u) :
    (getRtcConfiguration env (.data (some (l.map IceServer.written)))).map (·.iceServers) =
      .ok (defaultIce ++ (withoutPort53 l).map IceServer.written) := by
  rw [← filtered_of_read fun u hu => (keeps_iff u).2 (h u hu), getRtcConfiguration,
    if_pos ⟨hon, hid, htoken⟩]
  rfl

/-- The filter keeps exactly the URLs that are not on port 53, in order, and
drops the servers left with none, just when it misreads no URL. -/
theorem filter_right (l : List (IceServer IceUrl)) :
    filteredServers (l.map IceServer.written) = (withoutPort53 l).map IceServer.written ↔
      ∀ s ∈ l, ∀ u ∈ s.urls.list, ¬ Misread u := by
  constructor
  · intro h s hs u hu
    have hall := congrArg allUrls h
    have hfiltered : allUrls (filteredServers (l.map IceServer.written)) =
        ((allUrls l).map IceUrl.text).filter keeps := by
      rw [← allUrls_written]
      exact allUrls_filterUrls keeps _
    have hmeant : allUrls ((withoutPort53 l).map IceServer.written) =
        ((allUrls l).filter fun u => decide (u.port ≠ 53)).map IceUrl.text := by
      rw [allUrls_written]
      exact congrArg (List.map IceUrl.text) (allUrls_filterUrls _ l)
    rw [hfiltered, hmeant, filter_map_iff] at hall
    exact (keeps_iff u).1 (hall u (List.mem_flatMap.2 ⟨s, hs, hu⟩))
  · intro h
    refine filtered_of_read ?_
    intro u hu
    obtain ⟨s, hs, hu⟩ := List.mem_flatMap.1 hu
    exact (keeps_iff u).2 (h s hs u hu)

/-- TURN over TLS on its standard port, `turns:example.com:5349?transport=tcp`. -/
def overTls : IceServer IceUrl where
  urls := .many [{
    scheme := .turns
    host := .name ['e', 'x', 'a', 'm', 'p', 'l', 'e', '.', 'c', 'o', 'm'] (List.all_eq_true.1 rfl)
    digits := some [5, 3, 4, 9]
    transport := some ⟨['t', 'c', 'p'], List.all_eq_true.1 rfl⟩ }]

/-- It is not on port 53, and it is dropped. -/
theorem drops_tls : filteredServers ([overTls].map IceServer.written) ≠
    (withoutPort53 [overTls]).map IceServer.written := by
  intro h
  have hlength := congrArg List.length h
  revert hlength
  decide

end KmVirtualCamera.L4.TurnFilter
