import Mathlib
import KmVirtualCamera.Core.LTS

/-!
# The signaling session object

`cloud/src/durable/session-object.ts`: one record under one storage key, and
methods that each run to completion. A method is a function of the storage, its
arguments and `Date.now()` (in ms); it returns the new storage and the reply.
JavaScript strings are lists of UTF-16 code units. `hashToken` (SHA-256,
base64url) is a parameter; nothing is assumed of it.

* `putOffer_cases`, `putAnswer_cases`: what the two writers can do.
* `session_shape`: in every reachable storage the state says which of the
  optional fields are there.
* `putOffer_again`: what a repeated offer does to the record.
-/
namespace KmVirtualCamera.L3.Session

abbrev JsString := List UInt16

/-! ## Tokens -/

/-- The loop over the code units, from index `i` on, is the fold over the pairs.
mirrors cloud/src/signaling/tokens.ts:49-58 -/
def timingSafeEqual (a b : JsString) : Bool :=
  if a.length ≠ b.length then false
  else (a.zip b).foldl (fun result p => result ||| (p.1 ^^^ p.2)) 0 == 0

theorem or_eq_zero {a b : UInt16} : a ||| b = 0 ↔ a = 0 ∧ b = 0 := by
  rw [← UInt16.toNat_inj, ← UInt16.toNat_inj, ← UInt16.toNat_inj]
  simp

theorem foldl_or_eq_zero : ∀ (l : List (UInt16 × UInt16)) (r : UInt16),
    l.foldl (fun result p => result ||| (p.1 ^^^ p.2)) r = 0 ↔ r = 0 ∧ ∀ p ∈ l, p.1 = p.2
  | [], r => by simp
  | p :: l, r => by
    rw [List.foldl_cons, foldl_or_eq_zero l, or_eq_zero, UInt16.xor_eq_zero_iff]
    simp [and_assoc]

/-- The comparison is equality. -/
theorem timingSafeEqual_iff (a b : JsString) : timingSafeEqual a b = true ↔ a = b := by
  unfold timingSafeEqual
  split
  · rename_i h
    simp only [Bool.false_eq_true, false_iff]
    rintro rfl
    exact h rfl
  · rename_i h
    rw [beq_iff_eq, foldl_or_eq_zero]
    simp only [true_and]
    constructor
    · intro hall
      apply List.ext_getElem (not_not.mp h)
      intro i hi hi'
      have hz : i < (a.zip b).length := by simp; omega
      have := hall _ (List.getElem_mem hz)
      simpa using this
    · rintro rfl p hp
      obtain ⟨i, hi, rfl⟩ := List.getElem_of_mem hp
      simp

/-! ## The record -/

/-- mirrors cloud/src/signaling/types.ts:1-6 -/
inductive SessionState where
  | created | claimed | offerReady | answerReady | closed
  deriving DecidableEq

/-- The text of the state in the record and in a message. -/
def SessionState.text : SessionState → String
  | .created => "CREATED"
  | .claimed => "CLAIMED"
  | .offerReady => "OFFER_READY"
  | .answerReady => "ANSWER_READY"
  | .closed => "CLOSED"

/-- A stored offer or answer. -/
structure Description where
  sdp : JsString
  storedAtMs : Int
  deriving DecidableEq

/-- mirrors cloud/src/signaling/types.ts:8-12 -/
structure IceServer where
  urls : List JsString
  username : Option JsString := none
  credential : Option JsString := none
  deriving DecidableEq

/-- Kept and returned with the record; no method looks inside.
mirrors cloud/src/signaling/types.ts:14-17 -/
structure RtcConfiguration where
  iceServers : List IceServer
  iceTransportPolicy : Option JsString := none
  deriving DecidableEq

/-- mirrors cloud/src/signaling/types.ts:77-98 -/
structure SessionRecord where
  sessionId : JsString
  state : SessionState
  createdAtMs : Int
  expiresAtMs : Int
  receiverTokenHash : JsString
  joinTokenHash : JsString
  claimNonceHash : Option JsString := none
  senderTokenHash : Option JsString := none
  offer : Option Description := none
  answer : Option Description := none
  rtcConfiguration : RtcConfiguration
  deriving DecidableEq

abbrev Storage := Option SessionRecord

structure Reply where
  status : Nat
  code : Option String := none
  message : Option String := none
  record : Option SessionRecord := none
  offer : Option JsString := none
  answer : Option JsString := none
  deriving DecidableEq

/-- The record is there and has not expired. -/
def live (storage : Storage) (now : Int) : Storage :=
  storage.filter fun record => decide (now < record.expiresAtMs)

/-- A string field that is set; the empty string counts as unset. -/
def truthy (field : Option JsString) : Option JsString := field.filter (· ≠ [])

def expired (message : String) : Reply := ⟨410, "SESSION_EXPIRED", message, none, none, none⟩

section Methods
variable (hashToken : JsString → JsString)

/-- The record a request for a session makes.
mirrors cloud/src/routes/sessions.ts:65-74 -/
def newRecord (sessionId receiverToken joinToken : JsString) (now expiresAtMs : Int)
    (rtcConfiguration : RtcConfiguration) : SessionRecord where
  sessionId := sessionId
  state := .created
  createdAtMs := now
  expiresAtMs := expiresAtMs
  receiverTokenHash := hashToken receiverToken
  joinTokenHash := hashToken joinToken
  rtcConfiguration := rtcConfiguration

/-- mirrors cloud/src/durable/session-object.ts:19-28 -/
def createSession (storage : Storage) (record : SessionRecord) : Storage × Bool × Option String :=
  match storage with
  | some existing => (some existing, false, "SESSION_EXISTS")
  | none => (some record, true, none)

/-- mirrors cloud/src/durable/session-object.ts:30-60 -/
def claimSession (storage : Storage) (joinToken claimNonce senderToken : JsString) (now : Int) :
    Storage × Reply :=
  match live storage now with
  | none => (storage, expired "Signaling session has expired or does not exist.")
  | some record =>
    if timingSafeEqual (hashToken joinToken) record.joinTokenHash = false then
      (storage, { status := 403, code := "INVALID_TOKEN", message := "Invalid join token." })
    else if record.state ≠ .created then
      if (truthy record.claimNonceHash).any (timingSafeEqual (hashToken claimNonce)) then
        (storage, { status := 200, record := record })
      else (storage, { status := 409, code := "SESSION_ALREADY_CLAIMED",
                       message := "Session has already been claimed by another sender." })
    else
      let record := { record with state := .claimed, claimNonceHash := hashToken claimNonce,
                                  senderTokenHash := hashToken senderToken }
      (some record, { status := 200, record := record })

/-- mirrors cloud/src/durable/session-object.ts:62-90 -/
def putOffer (storage : Storage) (senderToken sdp : JsString) (now : Int) : Storage × Reply :=
  match live storage now with
  | none => (storage, expired "Signaling session has expired.")
  | some record =>
    match truthy record.senderTokenHash with
    | none => (storage, { status := 403, code := "INVALID_STATE",
                          message := "Session has not been claimed yet." })
    | some senderTokenHash =>
      if timingSafeEqual (hashToken senderToken) senderTokenHash = false then
        (storage, { status := 403, code := "FORBIDDEN", message := "Invalid sender token." })
      else
        (some { record with offer := some ⟨sdp, now⟩, answer := none, state := .offerReady },
         { status := 204 })

/-- mirrors cloud/src/durable/session-object.ts:92-110 -/
def getOffer (storage : Storage) (receiverToken : JsString) (now : Int) : Reply :=
  match live storage now with
  | none => expired "Signaling session has expired."
  | some record =>
    if timingSafeEqual (hashToken receiverToken) record.receiverTokenHash = false then
      { status := 403, code := "FORBIDDEN", message := "Invalid receiver token." }
    else match record.offer with
      | none => { status := 204 }
      | some offer => { status := 200, offer := offer.sdp }

/-- mirrors cloud/src/durable/session-object.ts:112-146 -/
def putAnswer (storage : Storage) (receiverToken sdp : JsString) (now : Int) : Storage × Reply :=
  match live storage now with
  | none => (storage, expired "Signaling session has expired.")
  | some record =>
    if timingSafeEqual (hashToken receiverToken) record.receiverTokenHash = false then
      (storage, { status := 403, code := "FORBIDDEN", message := "Invalid receiver token." })
    else match record.answer with
      | some answer =>
        if answer.sdp = sdp then (storage, { status := 204 })
        else (storage, { status := 409, code := "INVALID_STATE",
                         message := "Conflicting answer has already been submitted." })
      | none =>
        if record.state ≠ .offerReady then
          (storage, { status := 409, code := "INVALID_STATE",
                      message := "Cannot submit answer before offer is ready (current state: " ++
                        record.state.text ++ ")." })
        else (some { record with answer := some ⟨sdp, now⟩, state := .answerReady }, { status := 204 })

/-- mirrors cloud/src/durable/session-object.ts:148-170 -/
def getAnswer (storage : Storage) (senderToken : JsString) (now : Int) : Reply :=
  match live storage now with
  | none => expired "Signaling session has expired."
  | some record =>
    match truthy record.senderTokenHash with
    | none => { status := 403, code := "INVALID_STATE", message := "Session not claimed." }
    | some senderTokenHash =>
      if timingSafeEqual (hashToken senderToken) senderTokenHash = false then
        { status := 403, code := "FORBIDDEN", message := "Invalid sender token." }
      else match record.answer with
        | none => { status := 204 }
        | some answer => { status := 200, answer := answer.sdp }

/-- An expired record is deleted like any other.
mirrors cloud/src/durable/session-object.ts:172-190 -/
def deleteSession (storage : Storage) (token : JsString) : Storage × Reply :=
  match storage with
  | none => (none, { status := 204 })
  | some record =>
    if timingSafeEqual (hashToken token) record.receiverTokenHash = false ∧
        (truthy record.senderTokenHash).any (timingSafeEqual (hashToken token)) = false then
      (storage, { status := 403, code := "FORBIDDEN",
                  message := "Invalid authorization token for delete." })
    else (none, { status := 204 })

/-! ## What the methods can do -/

/-- The token is the one the record has the (non-empty) hash of. -/
def IsSender (r : SessionRecord) (token : JsString) : Prop :=
  r.senderTokenHash = some (hashToken token) ∧ hashToken token ≠ []

def IsReceiver (r : SessionRecord) (token : JsString) : Prop :=
  r.receiverTokenHash = hashToken token

instance decidableIsSender (r : SessionRecord) (token : JsString) :
    Decidable (IsSender hashToken r token) := inferInstanceAs (Decidable (_ ∧ _))

instance decidableIsReceiver (r : SessionRecord) (token : JsString) :
    Decidable (IsReceiver hashToken r token) := inferInstanceAs (Decidable (_ = _))

variable {hashToken}

theorem live_some {storage : Storage} {now : Int} {r : SessionRecord} :
    live storage now = some r ↔ storage = some r ∧ now < r.expiresAtMs := by
  unfold live
  rw [Option.filter_eq_some_iff]
  simp

theorem live_none {storage : Storage} {now : Int} :
    live storage now = none ↔ ∀ r, storage = some r → r.expiresAtMs ≤ now := by
  cases storage <;> simp [live, Option.filter]

theorem sender_iff {r : SessionRecord} {token h : JsString} (hh : truthy r.senderTokenHash = some h) :
    timingSafeEqual (hashToken token) h = true ↔ IsSender hashToken r token := by
  obtain ⟨hs, hne⟩ := Option.filter_eq_some_iff.mp hh
  have hne : h ≠ [] := by simpa using hne
  rw [timingSafeEqual_iff]
  unfold IsSender
  rw [hs]
  constructor
  · rintro rfl; exact ⟨rfl, hne⟩
  · rintro ⟨he, -⟩; exact (Option.some.inj he).symm

theorem any_equal_iff {field : Option JsString} {h : JsString} :
    (truthy field).any (timingSafeEqual h) = true ↔ field = some h ∧ h ≠ [] := by
  rw [Option.any_eq_true]
  constructor
  · rintro ⟨f, hf, he⟩
    obtain ⟨hfield, hne⟩ := Option.filter_eq_some_iff.mp hf
    rw [timingSafeEqual_iff] at he
    subst he
    exact ⟨hfield, by simpa using hne⟩
  · rintro ⟨hfield, hne⟩
    exact ⟨h, Option.filter_eq_some_iff.mpr ⟨hfield, by simpa using hne⟩, (timingSafeEqual_iff _ _).mpr rfl⟩

/-- The record after its first claim. -/
def SessionRecord.claimedBy (r : SessionRecord) (nonceHash senderHash : JsString) : SessionRecord :=
  { r with state := .claimed, claimNonceHash := nonceHash, senderTokenHash := senderHash }

/-- What `claimSession` can do. -/
inductive Claim (hashToken : JsString → JsString) (storage : Storage)
    (joinToken claimNonce senderToken : JsString) (now : Int) : Storage × Reply → Prop
  | claimed (r : SessionRecord) (there : storage = some r) (unexpired : now < r.expiresAtMs)
      (join : r.joinTokenHash = hashToken joinToken) (first : r.state = .created) :
      Claim hashToken storage joinToken claimNonce senderToken now
        (some (r.claimedBy (hashToken claimNonce) (hashToken senderToken)),
          { status := 200, record := r.claimedBy (hashToken claimNonce) (hashToken senderToken) })
  | repeated (r : SessionRecord) (there : storage = some r) (unexpired : now < r.expiresAtMs)
      (join : r.joinTokenHash = hashToken joinToken) (taken : r.state ≠ .created)
      (same : r.claimNonceHash = some (hashToken claimNonce)) (nonempty : hashToken claimNonce ≠ []) :
      Claim hashToken storage joinToken claimNonce senderToken now
        (storage, { status := 200, record := r })
  | refused (reply : Reply) (error : reply.status = 410 ∨ reply.status = 403 ∨ reply.status = 409) :
      Claim hashToken storage joinToken claimNonce senderToken now (storage, reply)

theorem claim_cases (hashToken : JsString → JsString) (storage : Storage)
    (joinToken claimNonce senderToken : JsString) (now : Int) :
    Claim hashToken storage joinToken claimNonce senderToken now
      (claimSession hashToken storage joinToken claimNonce senderToken now) := by
  unfold claimSession
  split
  · exact .refused _ (.inl rfl)
  rename_i r hr
  obtain ⟨hst, hnow⟩ := live_some.mp hr
  split
  · exact .refused _ (.inr (.inl rfl))
  rename_i hjoin
  have hjoin : r.joinTokenHash = hashToken joinToken :=
    ((timingSafeEqual_iff _ _).mp (by simpa using hjoin)).symm
  split
  · rename_i htaken
    split
    · rename_i hsame
      obtain ⟨hsame, hne⟩ := any_equal_iff.mp hsame
      exact .repeated r hst hnow hjoin htaken hsame hne
    · exact .refused _ (.inr (.inr rfl))
  · rename_i hfirst
    exact .claimed r hst hnow hjoin (not_not.mp hfirst)

/-- What `putOffer` can do. -/
inductive PutOffer (hashToken : JsString → JsString) (storage : Storage) (token sdp : JsString)
    (now : Int) : Storage × Reply → Prop
  | stored (r : SessionRecord) (there : storage = some r) (unexpired : now < r.expiresAtMs)
      (sender : IsSender hashToken r token) :
      PutOffer hashToken storage token sdp now
        (some { r with offer := some ⟨sdp, now⟩, answer := none, state := .offerReady },
          { status := 204 })
  | refused (reply : Reply) (error : reply.status = 410 ∨ reply.status = 403) :
      PutOffer hashToken storage token sdp now (storage, reply)

theorem putOffer_cases (hashToken : JsString → JsString) (storage : Storage) (token sdp : JsString)
    (now : Int) : PutOffer hashToken storage token sdp now (putOffer hashToken storage token sdp now) := by
  unfold putOffer
  split
  · exact .refused _ (.inl rfl)
  · rename_i r hr
    obtain ⟨hst, hnow⟩ := live_some.mp hr
    split
    · exact .refused _ (.inr rfl)
    · rename_i h hh
      split
      · exact .refused _ (.inr rfl)
      · rename_i htok
        exact .stored r hst hnow ((sender_iff hh).mp (by simpa using htok))

/-- What `putAnswer` can do. -/
inductive PutAnswer (hashToken : JsString → JsString) (storage : Storage) (token sdp : JsString)
    (now : Int) : Storage × Reply → Prop
  | stored (r : SessionRecord) (there : storage = some r) (unexpired : now < r.expiresAtMs)
      (receiver : IsReceiver hashToken r token) (first : r.answer = none) (ready : r.state = .offerReady) :
      PutAnswer hashToken storage token sdp now
        (some { r with answer := some ⟨sdp, now⟩, state := .answerReady }, { status := 204 })
  | repeated (r : SessionRecord) (a : Description) (there : storage = some r)
      (unexpired : now < r.expiresAtMs) (receiver : IsReceiver hashToken r token)
      (answered : r.answer = some a) (same : a.sdp = sdp) :
      PutAnswer hashToken storage token sdp now (storage, { status := 204 })
  | refused (reply : Reply) (error : reply.status = 410 ∨ reply.status = 403 ∨ reply.status = 409) :
      PutAnswer hashToken storage token sdp now (storage, reply)

theorem putAnswer_cases (hashToken : JsString → JsString) (storage : Storage) (token sdp : JsString)
    (now : Int) : PutAnswer hashToken storage token sdp now (putAnswer hashToken storage token sdp now) := by
  unfold putAnswer
  split
  · exact .refused _ (.inl rfl)
  rename_i r hr
  obtain ⟨hst, hnow⟩ := live_some.mp hr
  split
  · exact .refused _ (.inr (.inl rfl))
  rename_i htok
  have hrec : IsReceiver hashToken r token :=
    ((timingSafeEqual_iff _ _).mp (by simpa using htok)).symm
  split
  · rename_i a ha
    split
    · rename_i hsame
      exact .repeated r a hst hnow hrec ha hsame
    · exact .refused _ (.inr (.inr rfl))
  · rename_i hno
    split
    · exact .refused _ (.inr (.inr rfl))
    · rename_i hready
      exact .stored r hst hnow hrec hno (not_not.mp hready)

/-- What `deleteSession` can do. -/
inductive Delete (hashToken : JsString → JsString) (storage : Storage) (token : JsString) :
    Storage × Reply → Prop
  | gone (nothing : storage = none) : Delete hashToken storage token (none, { status := 204 })
  | deleted (r : SessionRecord) (there : storage = some r)
      (allowed : IsReceiver hashToken r token ∨ IsSender hashToken r token) :
      Delete hashToken storage token (none, { status := 204 })
  | refused (r : SessionRecord) (there : storage = some r) (reply : Reply)
      (error : reply.status = 403) : Delete hashToken storage token (storage, reply)

theorem delete_cases (hashToken : JsString → JsString) (storage : Storage) (token : JsString) :
    Delete hashToken storage token (deleteSession hashToken storage token) := by
  unfold deleteSession
  split
  · exact .gone rfl
  rename_i r
  split
  · exact .refused r rfl _ rfl
  · rename_i h
    refine .deleted r rfl ?_
    by_cases hr : timingSafeEqual (hashToken token) r.receiverTokenHash = true
    · exact .inl ((timingSafeEqual_iff _ _).mp hr).symm
    · refine .inr (any_equal_iff.mp ?_)
      by_contra hs
      exact h ⟨by simpa using hr, by simpa using hs⟩

/-- A poll that returns an offer returns the stored one. -/
theorem getOffer_some {storage : Storage} {token sdp : JsString} {now : Int}
    (h : (getOffer hashToken storage token now).offer = some sdp) :
    ∃ r o, storage = some r ∧ r.offer = some o ∧ o.sdp = sdp := by
  unfold getOffer at h
  split at h
  · cases h
  rename_i r hr
  split at h
  · cases h
  split at h
  · cases h
  · rename_i o ho
    exact ⟨r, o, (live_some.mp hr).1, ho, Option.some.inj h⟩

/-- Status 200: the stored answer, to the sender, before the record expires. -/
theorem getAnswer_ok {storage : Storage} {token : JsString} {now : Int}
    (h : (getAnswer hashToken storage token now).status = 200) :
    ∃ r a, storage = some r ∧ now < r.expiresAtMs ∧ IsSender hashToken r token ∧
      r.answer = some a ∧ (getAnswer hashToken storage token now).answer = some a.sdp := by
  unfold getAnswer at h ⊢
  split at h
  · cases h
  rename_i r hr
  obtain ⟨hst, hnow⟩ := live_some.mp hr
  split at h
  · cases h
  rename_i hh
  split at h
  · cases h
  rename_i htok
  split at h
  · cases h
  · rename_i a ha
    refine ⟨r, a, hst, hnow, (sender_iff hh).mp (by simpa using htok), ha, ?_⟩
    simp [htok]

/-! ## The object over its life -/

inductive Call where
  | create (sessionId receiverToken joinToken : JsString) (now expiresAtMs : Int)
      (rtcConfiguration : RtcConfiguration)
  | claim (joinToken claimNonce senderToken : JsString) (now : Int)
  | putOffer (senderToken sdp : JsString) (now : Int)
  | putAnswer (receiverToken sdp : JsString) (now : Int)
  | delete (token : JsString)
  | alarm

/-- The storage after a call; the two getters leave it alone. -/
def call (hashToken : JsString → JsString) (storage : Storage) : Call → Storage
  | .create sessionId receiverToken joinToken now expiresAtMs rtc =>
    (createSession storage (newRecord hashToken sessionId receiverToken joinToken now expiresAtMs rtc)).1
  | .claim joinToken claimNonce senderToken now =>
    (claimSession hashToken storage joinToken claimNonce senderToken now).1
  | .putOffer senderToken sdp now => (Session.putOffer hashToken storage senderToken sdp now).1
  | .putAnswer receiverToken sdp now => (Session.putAnswer hashToken storage receiverToken sdp now).1
  | .delete token => (deleteSession hashToken storage token).1
  | .alarm => none

def lts (hashToken : JsString → JsString) : LTS Storage Call where
  init st := st = none
  step st c st' := st' = call hashToken st c

/-- What a call can make of a stored record. -/
inductive Change (hashToken : JsString → JsString) (r : SessionRecord) : Call → Storage → Prop
  | same (c : Call) : Change hashToken r c (some r)
  | deleted (token : JsString) (allowed : IsReceiver hashToken r token ∨ IsSender hashToken r token) :
      Change hashToken r (.delete token) none
  | alarm : Change hashToken r .alarm none
  | claimed (joinToken claimNonce senderToken : JsString) (now : Int) (unexpired : now < r.expiresAtMs)
      (join : r.joinTokenHash = hashToken joinToken) (first : r.state = .created) :
      Change hashToken r (.claim joinToken claimNonce senderToken now)
        (some (r.claimedBy (hashToken claimNonce) (hashToken senderToken)))
  | offered (senderToken sdp : JsString) (now : Int) (unexpired : now < r.expiresAtMs)
      (sender : IsSender hashToken r senderToken) :
      Change hashToken r (.putOffer senderToken sdp now)
        (some { r with offer := some ⟨sdp, now⟩, answer := none, state := .offerReady })
  | answered (receiverToken sdp : JsString) (now : Int) (unexpired : now < r.expiresAtMs)
      (receiver : IsReceiver hashToken r receiverToken) (first : r.answer = none)
      (ready : r.state = .offerReady) :
      Change hashToken r (.putAnswer receiverToken sdp now)
        (some { r with answer := some ⟨sdp, now⟩, state := .answerReady })

theorem call_change (hashToken : JsString → JsString) (r : SessionRecord) (c : Call) :
    Change hashToken r c (call hashToken (some r) c) := by
  cases c with
  | create => exact .same _
  | claim jt nonce tok now =>
    have hc := claim_cases hashToken (some r) jt nonce tok now
    simp only [call]
    generalize claimSession hashToken (some r) jt nonce tok now = o at hc
    cases hc with
    | claimed r₀ there unexpired join first => cases there; exact .claimed _ _ _ _ unexpired join first
    | repeated => exact .same _
    | refused => exact .same _
  | putOffer tok sdp now =>
    have hc := putOffer_cases hashToken (some r) tok sdp now
    simp only [call]
    generalize Session.putOffer hashToken (some r) tok sdp now = o at hc
    cases hc with
    | stored r₀ there unexpired sender => cases there; exact .offered _ _ _ unexpired sender
    | refused => exact .same _
  | putAnswer tok sdp now =>
    have hc := putAnswer_cases hashToken (some r) tok sdp now
    simp only [call]
    generalize Session.putAnswer hashToken (some r) tok sdp now = o at hc
    cases hc with
    | stored r₀ there unexpired receiver first ready =>
      cases there; exact .answered _ _ _ unexpired receiver first ready
    | repeated => exact .same _
    | refused => exact .same _
  | delete tok =>
    have hc := delete_cases hashToken (some r) tok
    simp only [call]
    generalize deleteSession hashToken (some r) tok = o at hc
    cases hc with
    | gone nothing => cases nothing
    | deleted r₀ there allowed => cases there; exact .deleted _ allowed
    | refused => exact .same _
  | alarm => exact .alarm

/-- On an empty storage only a creation does something. -/
theorem call_none (hashToken : JsString → JsString) {c : Call} {r : SessionRecord}
    (h : call hashToken none c = some r) : ∃ id rt jt now ex rtc,
      c = .create id rt jt now ex rtc ∧ r = newRecord hashToken id rt jt now ex rtc := by
  cases c with
  | create id rt jt now ex rtc => exact ⟨id, rt, jt, now, ex, rtc, rfl, (Option.some.inj h).symm⟩
  | claim => cases h
  | putOffer => cases h
  | putAnswer => cases h
  | delete => cases h
  | alarm => cases h

/-- Which optional fields a record holds, state by state. -/
structure SessionRecord.Shape (r : SessionRecord) : Prop where
  created : r.state = .created →
    r.claimNonceHash = none ∧ r.senderTokenHash = none ∧ r.offer = none ∧ r.answer = none
  claimed : r.state ≠ .created → r.claimNonceHash ≠ none ∧ r.senderTokenHash ≠ none
  offer : r.state = .claimed → r.offer = none ∧ r.answer = none
  offerReady : r.state = .offerReady → r.offer ≠ none ∧ r.answer = none
  answerReady : r.state = .answerReady → r.offer ≠ none ∧ r.answer ≠ none
  notClosed : r.state ≠ .closed

/-- The state of a record says which descriptions it holds. -/
structure SessionRecord.WF (r : SessionRecord) : Prop where
  offerReady : r.state = .offerReady ↔ r.offer ≠ none ∧ r.answer = none
  answerReady : r.state = .answerReady ↔ r.offer ≠ none ∧ r.answer ≠ none
  offered : r.answer ≠ none → r.offer ≠ none

theorem SessionRecord.Shape.wf {r : SessionRecord} (h : r.Shape) : r.WF := by
  obtain ⟨hcreated, -, hclaimed, hoffer, hanswer, hclosed⟩ := h
  cases hs : r.state with
  | created =>
    obtain ⟨-, -, ho, ha⟩ := hcreated hs
    constructor <;> simp [hs, ho, ha]
  | claimed =>
    obtain ⟨ho, ha⟩ := hclaimed hs
    constructor <;> simp [hs, ho, ha]
  | offerReady =>
    obtain ⟨ho, ha⟩ := hoffer hs
    constructor <;> simp [hs, ho, ha]
  | answerReady =>
    obtain ⟨ho, ha⟩ := hanswer hs
    constructor <;> simp [hs, ho, ha]
  | closed => exact absurd hs hclosed

theorem newRecord_shape (id rt jt : JsString) (now ex : Int) (rtc : RtcConfiguration) :
    (newRecord hashToken id rt jt now ex rtc).Shape :=
  ⟨fun _ => ⟨rfl, rfl, rfl, rfl⟩, fun h => absurd rfl h, nofun, nofun, nofun, nofun⟩

theorem Change.shape {r r' : SessionRecord} {c : Call} (hr : r.Shape)
    (h : Change hashToken r c (some r')) : r'.Shape := by
  cases h with
  | same => exact hr
  | claimed _ _ _ _ _ _ first =>
    obtain ⟨-, -, ho, ha⟩ := hr.created first
    exact ⟨nofun, fun _ => ⟨nofun, nofun⟩, fun _ => ⟨ho, ha⟩, nofun, nofun, nofun⟩
  | offered _ _ _ _ sender =>
    have hne : r.state ≠ .created := by
      intro hcr
      have hs := (hr.created hcr).2.1
      rw [sender.1] at hs
      cases hs
    exact ⟨nofun, fun _ => hr.claimed hne, nofun, fun _ => ⟨nofun, rfl⟩, nofun, nofun⟩
  | answered _ _ _ _ _ _ ready =>
    have hne : r.state ≠ .created := by rw [ready]; decide
    exact ⟨nofun, fun _ => hr.claimed hne, nofun, nofun,
      fun _ => ⟨(hr.offerReady ready).1, nofun⟩, nofun⟩

theorem call_shape {st : Storage} (h : ∀ r, st = some r → r.Shape) (c : Call) :
    ∀ r, call hashToken st c = some r → r.Shape := by
  intro r hr
  cases st with
  | none =>
    obtain ⟨id, rt, jt, now, ex, rtc, -, rfl⟩ := call_none hashToken hr
    exact newRecord_shape id rt jt now ex rtc
  | some r₀ =>
    have hc := call_change hashToken r₀ c
    rw [hr] at hc
    exact hc.shape (h r₀ rfl)

theorem shape_inductive (hashToken : JsString → JsString) :
    (lts hashToken).Inductive fun st => ∀ r, st = some r → r.Shape where
  init st h r hr := by rw [h] at hr; cases hr
  step st c st' h hst := by
    intro r hr
    exact call_shape h c r (by rw [← hst]; exact hr)

theorem session_shape {st : Storage} (h : (lts hashToken).Reachable st) :
    ∀ r, st = some r → r.Shape := (shape_inductive hashToken).reachable st h

theorem session_inv {st : Storage} (h : (lts hashToken).Reachable st) : ∀ r, st = some r → r.WF :=
  fun r hr => (session_shape h r hr).wf

/-- **A repeated offer.** The authorised sender puts the SDP that is stored:
the offer's SDP is unchanged, and so are the answer and the state exactly when
there was no answer. -/
theorem putOffer_again {r : SessionRecord} {o : Description} {token : JsString} {now : Int}
    (hwf : r.WF) (hnow : now < r.expiresAtMs) (hs : IsSender hashToken r token)
    (ho : r.offer = some o) :
    ∃ r', putOffer hashToken (some r) token o.sdp now = (some r', { status := 204 }) ∧
      r'.offer.map (·.sdp) = some o.sdp ∧
      (r'.answer = r.answer ∧ r'.state = r.state ↔ r.answer = none) := by
  have hc := putOffer_cases hashToken (some r) token o.sdp now
  have hok : (putOffer hashToken (some r) token o.sdp now).2.status = 204 := by
    have hl : live (some r) now = some r := live_some.mpr ⟨rfl, hnow⟩
    have ht : truthy r.senderTokenHash = some (hashToken token) := by
      rw [hs.1]; simp [truthy, hs.2]
    have he := (sender_iff ht).mpr hs
    unfold putOffer
    simp [hl, ht, he]
  generalize putOffer hashToken (some r) token o.sdp now = out at hc hok
  cases hc with
  | refused reply error => simp only at hok; omega
  | stored r₀ there _ _ =>
    cases there
    refine ⟨_, rfl, rfl, fun h => h.1.symm, fun h => ⟨h.symm, ?_⟩⟩
    exact (hwf.offerReady.mpr ⟨by simp [ho], h⟩).symm

end Methods
end KmVirtualCamera.L3.Session
