import Mathlib
import KmVirtualCamera.Core.ByteOrder
import KmVirtualCamera.Core.LTS
import KmVirtualCamera.L5Concurrency.FrameRelay

/-!
# Key attestation of the sink producer

The extension serves a random challenge. The host signs it together with its
pid and the time and writes the response; the extension then freezes the served
challenge, the one this response must be signed over, and issues a fresh one. A
client that starts the sink is authorised when the stored response verifies for
the frozen challenge and the client's pid.

`World` is the device with the host's signer beside it. The signature scheme is
ideal: a signature verifies for the payload the signer made it for and for no
other. `writes` and `accepted` record the response writes and the successful
attestations.

When `SecRandomCopyBytes` fails the served challenge stays, frozen as it is.
`single_use` says exactly when this breaks the single use of a response: when a
response write that found a challenge got no random bytes and another write
followed. `replayed` is such a run.
-/
namespace KmVirtualCamera.L5.ProducerAuth
open KmVirtualCamera.ByteOrder KmVirtualCamera.L5.FrameRelay

abbrev Bytes := List UInt8

/-- mirrors macos/camera-extension/ids.h:51 -/
def kKMAuthChallengeLength : Nat := 32

/-- mirrors macos/camera-extension/ids.h:52 -/
def kKMAuthMaxClockSkewSeconds : Int64 := 10

/-- mirrors macos/camera-extension/ids.h:20 -/
def kKMHostSigningIdentifier : String := "jp.yasagure.kmvirtualcamera.macos"

/-- The identifier is there from macOS 13 on. -/
structure KMClient where
  clientID : Nat
  pid : Int32
  signingID : Option String
  deriving DecidableEq

/-- Why a client was turned away; the unified log shows the two numbers. -/
structure Reject where
  reason : String
  stage : Nat
  status : Int
  deriving DecidableEq

/-- mirrors macos/camera-extension/ids.h:56-58 -/
def KMWriteLE32 (value : UInt32) : Bytes := leBytes 4 value.toNat

/-- mirrors macos/camera-extension/ids.h:59-61 -/
def KMWriteLE64 (value : UInt64) : Bytes := leBytes 8 value.toNat

/-- mirrors macos/camera-extension/ids.h:62-66 -/
def KMReadLE64 (src : Bytes) : UInt64 := UInt64.ofNat (Nat.ofDigits 256 ((src.take 8).map UInt8.toNat))

/-- What is signed.
mirrors macos/camera-extension/producer_auth.mm:165-171, macos/host/host_auth_signer.mm:114-120 -/
def payload (challenge : Bytes) (pid : Int32) (time : Int64) : Bytes :=
  challenge ++ (KMWriteLE32 pid.toUInt32 ++ KMWriteLE64 time.toUInt64)

/-- mirrors macos/camera-extension/producer_auth.mm:67-81 -/
def KMCheckSigningID (client : KMClient) : Except Reject Unit :=
  match client.signingID with
  | none => .ok ()
  | some signingID =>
    if signingID.length > 0 ∧ signingID ≠ "unknown" ∧ signingID ≠ kKMHostSigningIdentifier then
      .error ⟨"signingID mismatch: " ++ signingID, 5, 0⟩
    else .ok ()

/-- mirrors macos/camera-extension/producer_auth.mm:139 -/
def skew (now signedTime : Int64) : Int64 :=
  if now > signedTime then now - signedTime else signedTime - now

/-- `verify` is `SecKeyVerifySignature` under the pinned key, `publicKey` whether
that key is there. Differences of 64-bit times wrap.
mirrors macos/camera-extension/producer_auth.mm:120-181 -/
def KMVerifyKeyAttestation (verify : Bytes → Bytes → Bool) (publicKey : Bool) (now : Int64)
    (client : Option KMClient) (challenge response : Option Bytes) : Except Reject Unit :=
  match client with
  | none => .error ⟨"no client", 50, 0⟩
  | some client =>
    let challenge := challenge.getD []
    let response := response.getD []
    if client.pid ≤ 0 then .error ⟨s!"pid unavailable ({client.pid})", 50, 0⟩
    else if challenge.length ≠ kKMAuthChallengeLength then
      .error ⟨"challenge length invalid", 60, challenge.length⟩
    else if response.length ≤ 8 then
      .error ⟨"attestation response missing", 61, response.length⟩
    else
      let signedTime := (KMReadLE64 response).toInt64
      let delta := skew now signedTime
      if delta > kKMAuthMaxClockSkewSeconds then
        .error ⟨"attestation timestamp outside window", 62, delta.toInt32.toInt⟩
      else if publicKey = false then .error ⟨"attestation public key unavailable", 63, 0⟩
      else if verify (payload challenge client.pid signedTime) (response.drop 8) = false then
        .error ⟨"attestation signature invalid", 64, 0⟩
      else KMCheckSigningID client

/-- The producer's part of the device source; the relay is the one it owns.
mirrors macos/camera-extension/device.mm:27-43 -/
structure Device where
  relay : Relay KMClient := {}
  producerClientID : Option Nat := none
  authChallenge : Option Bytes := none
  authVerifyChallenge : Option Bytes := none
  authResponse : Option Bytes := none

/-- `random` is what `SecRandomCopyBytes` gives, nothing when it fails.
mirrors macos/camera-extension/device.mm:110-128 -/
def issueAuthChallenge (d : Device) (random : Option Bytes) : Device :=
  match random with
  | none => d
  | some bytes => { d with authChallenge := some bytes }

/-- What a client reads.
mirrors macos/camera-extension/device.mm:271-274 -/
def servedChallenge (d : Device) : Bytes := d.authChallenge.getD []

/-- An entry of the property dictionary: the value when it is an `NSData`, and
the random bytes its write will get. -/
structure Property where
  key : List Char
  value : Option Bytes
  random : Option Bytes

def Property.isResponse (p : Property) : Bool := "4cc_resp_".toList.isPrefixOf p.key

/-- mirrors macos/camera-extension/device.mm:293-296 -/
def acceptResponse (d : Device) (p : Property) : Device :=
  issueAuthChallenge
    { d with authVerifyChallenge := d.authChallenge, authResponse := some (p.value.getD []) } p.random

/-- mirrors macos/camera-extension/device.mm:283-301 -/
def setDeviceProperties (d : Device) (ps : List Property) : Device :=
  ps.foldl (fun d p => if p.isResponse then acceptResponse d p else d) d

inductive Mode where
  | keyAttestation
  | osCheckLadder
  deriving DecidableEq

/-- No mode when the start is rejected. `ladder` is the answer of
`KMVerifyHostProducer`, the checks the system makes of the client's code.
mirrors macos/camera-extension/device.mm:130-159 -/
def sinkAuthorizeClient (verify : Bytes → Bytes → Bool) (publicKey : Bool) (now : Int64)
    (ladder : Bool) (d : Device) (client : KMClient) : Device × Option Mode :=
  if d.relay.producer.isSome ∧ some client.clientID ≠ d.producerClientID then (d, none)
  else
    let authorized : Device :=
      { d with producerClientID := some client.clientID,
               relay := setAuthorizedProducer d.relay (some client) }
    match KMVerifyKeyAttestation verify publicKey now (some client) d.authVerifyChallenge
      d.authResponse with
    | .ok () => (authorized, some .keyAttestation)
    | .error _ => if ladder then (authorized, some .osCheckLadder) else (d, none)

/-- mirrors macos/camera-extension/device.mm:171-176 -/
def clearProducer (d : Device) : Device :=
  { d with producerClientID := none, relay := setAuthorizedProducer d.relay none }

/-- mirrors macos/camera-extension/device.mm:161-164 -/
def sinkStreamStopped (d : Device) : Device :=
  if d.producerClientID = none then d else clearProducer d

/-- mirrors macos/camera-extension/device.mm:166-169 -/
def clientDisconnected (d : Device) (client : KMClient) : Device :=
  if some client.clientID ≠ d.producerClientID then d else clearProducer d

/-! ## The device and the signer -/

/-- A signature the host has made. -/
structure Signing where
  challenge : Bytes
  pid : Int32
  time : Int64
  signature : Bytes
  deriving DecidableEq

def Signing.payload (g : Signing) : Bytes := ProducerAuth.payload g.challenge g.pid g.time

/-- A response write: the challenge it froze and the random bytes it got. `frozen` is
read off `authChallenge` before the write; after it the device has the same in
`authVerifyChallenge` (`Inv.stored`). -/
structure Write where
  frozen : Option Bytes
  response : Bytes
  random : Option Bytes
  deriving DecidableEq

/-- The challenge served after the write. -/
def Write.served (x : Write) : Option Bytes :=
  match x.random with
  | some bytes => some bytes
  | none => x.frozen

/-- A successful attestation and the number of response writes before it. -/
structure Acceptance where
  response : Bytes
  writes : Nat
  deriving DecidableEq

structure World where
  device : Device
  returned : List Bytes
  signed : List Signing := []
  writes : List Write := []
  accepted : List Acceptance := []

inductive Label where
  | sign (g : Signing)
  | read (challenge : Bytes)
  | setProperties (ps : List Property)
  | authorize (client : KMClient) (now : Int64) (publicKey ladder : Bool)
  | stopped
  | disconnected (client : KMClient)
  | relay (r : Relay KMClient)

namespace World

/-- The verification of an ideal signature scheme. -/
def verifies (w : World) (p signature : Bytes) : Bool :=
  decide (∃ g ∈ w.signed, g.payload = p ∧ g.signature = signature)

/-- The device as `initWithQueue` leaves it. -/
def start (random : Option Bytes) : World where
  device := issueAuthChallenge {} random
  returned := random.toList

/-- The random bytes are 32 that were never returned before. -/
def Draws (w : World) (random : Option Bytes) : Prop :=
  ∀ c ∈ random, c.length = kKMAuthChallengeLength ∧ c ∉ w.returned

instance (w : World) (random : Option Bytes) : Decidable (w.Draws random) :=
  inferInstanceAs (Decidable (∀ c ∈ random, _ ∧ _))

/-- One entry of the property dictionary. -/
def write (w : World) (p : Property) : Option World :=
  if p.isResponse then
    if w.Draws p.random then
      some { w with
        device := acceptResponse w.device p, returned := w.returned ++ p.random.toList,
        writes := w.writes ++ [⟨w.device.authChallenge, p.value.getD [], p.random⟩] }
    else none
  else some w

def attest (w : World) (client : KMClient) (now : Int64) (publicKey ladder : Bool) :
    Device × Option Mode :=
  sinkAuthorizeClient w.verifies publicKey now ladder w.device client

/-- A signature is made of a 32-byte challenge by a clock set after 1970, and
stands for one payload. -/
def Signs (w : World) (g : Signing) : Prop :=
  g.challenge.length = kKMAuthChallengeLength ∧ 0 ≤ g.time ∧
    ∀ h ∈ w.signed, h.signature = g.signature → h.payload = g.payload

instance (w : World) (g : Signing) : Decidable (w.Signs g) :=
  inferInstanceAs (Decidable (_ ∧ _ ∧ ∀ h ∈ w.signed, _ → _))

end World

def next (w : World) : Label → Option World
  | .sign g => if w.Signs g then some { w with signed := w.signed ++ [g] } else none
  | .read challenge => if challenge = servedChallenge w.device then some w else none
  | .setProperties ps => ps.foldlM World.write w
  | .authorize client now publicKey ladder =>
    if 0 ≤ now then
      let r := w.attest client now publicKey ladder
      some { w with
        device := r.1,
        accepted := w.accepted ++ if r.2 = some .keyAttestation then
          [⟨w.device.authResponse.getD [], w.writes.length⟩] else [] }
    else none
  | .stopped => some { w with device := sinkStreamStopped w.device }
  | .disconnected client => some { w with device := clientDisconnected w.device client }
  | .relay r => some { w with device := { w.device with relay := r } }

def attesting : LTS World Label where
  init w := ∃ random : Option Bytes,
    (∀ c ∈ random, c.length = kKMAuthChallengeLength) ∧ w = World.start random
  step w l w' := next w l = some w'

/-! ## What is claimed -/

def frozenValues (ws : List Write) : List Bytes := ws.filterMap Write.frozen

/-- Every write that found a challenge got its random bytes. -/
def AllReplaced (ws : List Write) : Prop := ∀ x ∈ ws, x.frozen ≠ none → x.random ≠ none

/-- The same of every write that another one follows. -/
def Replaced (ws : List Write) : Prop := AllReplaced ws.dropLast

instance (ws : List Write) : Decidable (Replaced ws) :=
  inferInstanceAs (Decidable (∀ x ∈ ws.dropLast, x.frozen ≠ none → x.random ≠ none))

/-- An attestation that succeeds at `now` does so on a signature that the host
made over the frozen challenge, the client's pid and a time within the skew. -/
def Attested (w : World) (client : KMClient) (now : Int64) : Prop :=
  ∃ g ∈ w.signed, w.device.authVerifyChallenge = some g.challenge ∧ g.pid = client.pid ∧
    |now.toInt - g.time.toInt| ≤ 10 ∧
    ∃ r, w.device.authResponse = some r ∧ g.signature = r.drop 8

structure SingleUse (w : World) : Prop where
  signed : ∀ client now publicKey, 0 ≤ now →
    KMVerifyKeyAttestation w.verifies publicKey now (some client) w.device.authVerifyChallenge
      w.device.authResponse = .ok () → Attested w client now
  frozen : (frozenValues w.writes).Nodup
  once : ∀ a ∈ w.accepted, ∀ b ∈ w.accepted, a.response = b.response → a.writes = b.writes

/-! ## A successful attestation -/

theorem payload_inj {c c' : Bytes} {p p' : Int32} {t t' : Int64} (hlen : c.length = c'.length)
    (h : payload c p t = payload c' p' t') : c = c' ∧ p = p' ∧ t = t' := by
  obtain ⟨hc, hrest⟩ := List.append_inj h hlen
  obtain ⟨hp, ht⟩ := List.append_inj hrest (by simp [KMWriteLE32])
  have hp' := leBytes_inj p.toUInt32.toNat_lt p'.toUInt32.toNat_lt hp
  have ht' := leBytes_inj t.toUInt64.toNat_lt t'.toUInt64.toNat_lt ht
  refine ⟨hc, ?_, ?_⟩
  · simpa using congrArg UInt32.toInt32 (UInt32.toNat_inj.mp hp')
  · simpa using congrArg UInt64.toInt64 (UInt64.toNat_inj.mp ht')

/-- Between two times after 1970 the difference does not wrap. -/
theorem skew_within {now t : Int64} (hn : 0 ≤ now) (ht : 0 ≤ t)
    (h : ¬skew now t > kKMAuthMaxClockSkewSeconds) :
    |now.toInt - t.toInt| ≤ 10 := by
  have hn' : 0 ≤ now.toInt := Int64.le_iff_toInt_le.mp hn
  have ht' : 0 ≤ t.toInt := Int64.le_iff_toInt_le.mp ht
  have hn2 := now.toInt_lt
  have ht2 := t.toInt_lt
  have hten : kKMAuthMaxClockSkewSeconds.toInt = 10 := rfl
  rw [gt_iff_lt, Int64.lt_iff_toInt_lt, hten, not_lt, skew] at h
  by_cases hlt : now > t
  · rw [if_pos hlt, Int64.toInt_sub, Int.bmod_eq_of_le (by omega) (by omega)] at h
    have := Int64.lt_iff_toInt_lt.mp hlt
    rw [abs_le]
    omega
  · rw [if_neg hlt, Int64.toInt_sub, Int.bmod_eq_of_le (by omega) (by omega)] at h
    rw [gt_iff_lt, Int64.lt_iff_toInt_lt, not_lt] at hlt
    rw [abs_le]
    omega

theorem attestation_ok {verify : Bytes → Bytes → Bool} {publicKey : Bool} {now : Int64}
    {client : KMClient} {challenge response : Option Bytes}
    (h : KMVerifyKeyAttestation verify publicKey now (some client) challenge response = .ok ()) :
    ∃ c r t, challenge = some c ∧ response = some r ∧ c.length = kKMAuthChallengeLength ∧
      ¬skew now t > kKMAuthMaxClockSkewSeconds ∧
      verify (payload c client.pid t) (r.drop 8) = true := by
  unfold KMVerifyKeyAttestation at h
  simp only at h
  split at h
  · cases h
  split at h
  · cases h
  split at h
  · cases h
  split at h
  · cases h
  split at h
  · cases h
  split at h
  · cases h
  rename_i hpid hlen hresp hskew hkey hverify
  cases challenge with
  | none => simp [kKMAuthChallengeLength] at hlen
  | some c =>
    cases response with
    | none => simp at hresp
    | some r => exact ⟨c, r, _, rfl, rfl, by simpa using hlen, hskew, by simpa using hverify⟩

/-! ## The invariant -/

/-- An acceptance that the record bears out: the response was the one of its
write, and the host signed it over the challenge that write froze. -/
def Founded (w : World) (a : Acceptance) : Prop :=
  ∃ x g, w.writes[a.writes - 1]? = some x ∧ 0 < a.writes ∧ x.response = a.response ∧
    x.frozen = some g.challenge ∧ g ∈ w.signed ∧ g.signature = a.response.drop 8

structure Inv (w : World) : Prop where
  /-- The device holds what the last write left. -/
  stored : ∀ x, w.writes.getLast? = some x → w.device.authVerifyChallenge = x.frozen ∧
    w.device.authResponse = some x.response ∧ w.device.authChallenge = x.served
  unwritten : w.writes = [] → w.device.authVerifyChallenge = none
  chain : w.writes.IsChain fun x y => y.frozen = x.served
  known : (∀ c, w.device.authChallenge = some c → c ∈ w.returned) ∧
    ∀ c ∈ frozenValues w.writes, c ∈ w.returned
  fresh : AllReplaced w.writes → ∀ c, w.device.authChallenge = some c → c ∉ frozenValues w.writes
  nodup : Replaced w.writes → (frozenValues w.writes).Nodup
  signer : ∀ g ∈ w.signed, g.challenge.length = kKMAuthChallengeLength ∧ 0 ≤ g.time
  binding : ∀ g ∈ w.signed, ∀ h ∈ w.signed, g.signature = h.signature → g.payload = h.payload
  accepted : ∀ a ∈ w.accepted, Founded w a

section Inv
variable {w : World}

theorem issued_challenge (d : Device) (random : Option Bytes) {c : Bytes}
    (h : (issueAuthChallenge d random).authChallenge = some c) :
    random = some c ∨ random = none ∧ d.authChallenge = some c := by
  cases random with
  | none => exact .inr ⟨rfl, h⟩
  | some b => exact .inl h

theorem inv_start (random : Option Bytes) : Inv (World.start random) where
  stored x hx := by cases hx
  unwritten _ := by cases random <;> rfl
  chain := .nil
  known := by
    refine ⟨?_, fun c hc => by cases hc⟩
    intro c hc
    rcases issued_challenge {} random hc with h | ⟨-, h⟩
    · simp [World.start, h]
    · cases h
  fresh _ c _ h := by cases h
  nodup _ := List.nodup_nil
  signer g hg := by cases hg
  binding g hg := by cases hg
  accepted a ha := by cases ha

/-- A step that leaves the three attestation fields alone. -/
theorem Inv.device (h : Inv w) {d : Device} (hc : d.authChallenge = w.device.authChallenge)
    (hv : d.authVerifyChallenge = w.device.authVerifyChallenge)
    (hr : d.authResponse = w.device.authResponse) : Inv { w with device := d } where
  stored x hx := by
    simp only [hc, hv, hr]
    exact h.stored x hx
  unwritten he := hv.trans (h.unwritten he)
  chain := h.chain
  known := by
    simp only [hc]
    exact h.known
  fresh := by
    simp only [hc]
    exact h.fresh
  nodup := h.nodup
  signer := h.signer
  binding := h.binding
  accepted := h.accepted

theorem Inv.sign (h : Inv w) {g : Signing} (hg : w.Signs g) :
    Inv { w with signed := w.signed ++ [g] } where
  stored := h.stored
  unwritten := h.unwritten
  chain := h.chain
  known := h.known
  fresh := h.fresh
  nodup := h.nodup
  signer k hk := by
    rcases List.mem_append.mp hk with hk | hk
    · exact h.signer k hk
    · rw [List.mem_singleton.mp hk]
      exact ⟨hg.1, hg.2.1⟩
  binding k hk l hl heq := by
    rcases List.mem_append.mp hk with hk | hk <;> rcases List.mem_append.mp hl with hl | hl
    · exact h.binding k hk l hl heq
    · rw [List.mem_singleton.mp hl] at heq ⊢
      exact hg.2.2 k hk heq
    · rw [List.mem_singleton.mp hk] at heq ⊢
      exact (hg.2.2 l hl heq.symm).symm
    · rw [List.mem_singleton.mp hk, List.mem_singleton.mp hl]
  accepted a ha := by
    obtain ⟨x, k, hx, hpos, hresp, hfroz, hk, hsig⟩ := h.accepted a ha
    exact ⟨x, k, hx, hpos, hresp, hfroz, List.mem_append_left _ hk, hsig⟩

theorem acceptResponse_served (d : Device) (p : Property) :
    (acceptResponse d p).authChallenge =
      (⟨d.authChallenge, p.value.getD [], p.random⟩ : Write).served := by
  unfold acceptResponse issueAuthChallenge Write.served
  cases p.random <;> rfl

theorem acceptResponse_stored (d : Device) (p : Property) :
    (acceptResponse d p).authVerifyChallenge = d.authChallenge ∧
      (acceptResponse d p).authResponse = some (p.value.getD []) := by
  unfold acceptResponse issueAuthChallenge
  cases p.random <;> exact ⟨rfl, rfl⟩

theorem frozenValues_snoc (ws : List Write) (x : Write) :
    frozenValues (ws ++ [x]) = frozenValues ws ++ x.frozen.toList := by
  unfold frozenValues
  rw [List.filterMap_append]
  cases hx : x.frozen <;> simp [hx]

/-- A response write freezes the served challenge and records it. -/
theorem Inv.respond (h : Inv w) {p : Property} (hdraw : w.Draws p.random) :
    Inv { w with
      device := acceptResponse w.device p, returned := w.returned ++ p.random.toList,
      writes := w.writes ++ [⟨w.device.authChallenge, p.value.getD [], p.random⟩] } := by
  obtain ⟨hverify, hresponse⟩ := acceptResponse_stored w.device p
  have hserved := acceptResponse_served w.device p
  have hfrozen := frozenValues_snoc w.writes ⟨w.device.authChallenge, p.value.getD [], p.random⟩
  have hknown : ∀ c ∈ frozenValues w.writes ++ w.device.authChallenge.toList, c ∈ w.returned := by
    intro c hc
    rcases List.mem_append.mp hc with hc | hc
    · exact h.known.2 c hc
    · exact h.known.1 c (by simpa using hc)
  refine ⟨?_, ?_, ?_, ⟨?_, ?_⟩, ?_,
    ?_, h.signer, h.binding, ?_⟩
  · intro x hx
    rw [List.getLast?_concat] at hx
    cases hx
    exact ⟨hverify, hresponse, hserved⟩
  · intro he
    exact absurd he (by simp)
  · refine List.isChain_append.mpr ⟨h.chain, .singleton _, ?_⟩
    intro x hx y hy
    cases hy
    exact (h.stored x hx).2.2
  · intro c hc
    rcases issued_challenge _ p.random hc with hr | ⟨-, hold⟩
    · exact List.mem_append_right _ (by simp [hr])
    · exact List.mem_append_left _ (h.known.1 c hold)
  · intro c hc
    rw [hfrozen] at hc
    exact List.mem_append_left _ (hknown c hc)
  · intro hall c hc
    -- the challenge served now is a fresh one, or there was none
    rw [hfrozen]
    rcases issued_challenge _ p.random hc with hr | ⟨hr, hold⟩
    · exact fun hmem => (hdraw c hr).2 (hknown c hmem)
    · have hlast := hall ⟨w.device.authChallenge, p.value.getD [], p.random⟩ (by simp)
      exact absurd hr (hlast (by
        have hold' : w.device.authChallenge = some c := hold
        simp [hold']))
  · intro hrep
    have hall : AllReplaced w.writes := by
      have : Replaced (w.writes ++ [_]) := hrep
      rwa [Replaced, List.dropLast_concat] at this
    rw [hfrozen, List.nodup_append]
    refine ⟨h.nodup fun x hx => hall x (List.dropLast_subset _ hx), ?_, ?_⟩
    · cases w.device.authChallenge <;> simp
    · rintro c hc d hd rfl
      exact h.fresh hall c (by simpa using hd) hc
  · intro a ha
    obtain ⟨x, g, hx, hpos, hrest⟩ := h.accepted a ha
    refine ⟨x, g, ?_, hpos, hrest⟩
    rw [List.getElem?_append_left (List.getElem?_eq_some_iff.mp hx).1]
    exact hx

theorem Inv.write (h : Inv w) {p : Property} {w' : World} (hs : w.write p = some w') : Inv w' := by
  unfold World.write at hs
  split at hs
  · split at hs
    · cases hs
      exact h.respond ‹_›
    · cases hs
  · cases hs
    exact h

theorem Inv.setProperties {ps : List Property} : ∀ {w w' : World}, Inv w →
    ps.foldlM World.write w = some w' → Inv w' := by
  induction ps with
  | nil =>
    intro w w' h hs
    cases hs
    exact h
  | cons p ps ih =>
    intro w w' h hs
    rw [List.foldlM_cons] at hs
    obtain ⟨v, hv, hs⟩ := Option.bind_eq_some_iff.mp hs
    exact ih (h.write hv) hs

/-- What a successful attestation says, and the write it stands on. -/
theorem Inv.attested (h : Inv w) {client : KMClient} {now : Int64} {publicKey : Bool} (hnow : 0 ≤ now)
    (hok : KMVerifyKeyAttestation w.verifies publicKey now (some client)
      w.device.authVerifyChallenge w.device.authResponse = .ok ()) :
    Attested w client now ∧ Founded w ⟨w.device.authResponse.getD [], w.writes.length⟩ := by
  obtain ⟨c, r, t, hc, hr, hlen, hskew, hverify⟩ := attestation_ok hok
  obtain ⟨g, hg, hpayload, hsig⟩ := of_decide_eq_true hverify
  obtain ⟨hglen, hgtime⟩ := h.signer g hg
  obtain ⟨hgc, hgpid, hgt⟩ := payload_inj (hglen.trans hlen.symm) hpayload
  refine ⟨⟨g, hg, by rw [hc, hgc], hgpid, ?_, r, hr, hsig⟩, ?_⟩
  · rw [← hgt] at hskew
    exact skew_within hnow hgtime hskew
  · cases hlast : w.writes.getLast? with
    | none =>
      have hempty := h.unwritten (List.getLast?_eq_none_iff.mp hlast)
      rw [hc] at hempty
      cases hempty
    | some x =>
      obtain ⟨hfroz, hresp, -⟩ := h.stored x hlast
      have hpos : 0 < w.writes.length := by
        apply List.length_pos_of_ne_nil
        intro he
        rw [he] at hlast
        cases hlast
      rw [List.getLast?_eq_getElem?] at hlast
      refine ⟨x, g, hlast, hpos, ?_, ?_, hg, ?_⟩
      · rw [hresp, Option.getD_some]
      · rw [← hfroz, hc, hgc]
      · rw [hr, Option.getD_some, hsig]

theorem attest_cases (w : World) (client : KMClient) (now : Int64) (publicKey ladder : Bool) :
    let r := w.attest client now publicKey ladder
    (r.1.authChallenge = w.device.authChallenge ∧
      r.1.authVerifyChallenge = w.device.authVerifyChallenge ∧
      r.1.authResponse = w.device.authResponse) ∧
    (r.2 = some .keyAttestation →
      KMVerifyKeyAttestation w.verifies publicKey now (some client) w.device.authVerifyChallenge
        w.device.authResponse = .ok ()) := by
  simp only [World.attest, sinkAuthorizeClient]
  split
  · exact ⟨⟨rfl, rfl, rfl⟩, fun h => by cases h⟩
  cases hv : KMVerifyKeyAttestation w.verifies publicKey now (some client)
    w.device.authVerifyChallenge w.device.authResponse with
  | ok u => exact ⟨⟨rfl, rfl, rfl⟩, fun _ => rfl⟩
  | error e =>
    cases ladder with
    | true => exact ⟨⟨rfl, rfl, rfl⟩, fun h => by cases h⟩
    | false => exact ⟨⟨rfl, rfl, rfl⟩, fun h => by cases h⟩

theorem Inv.authorize (h : Inv w) {now : Int64} (hnow : 0 ≤ now) (client : KMClient)
    (publicKey ladder : Bool) :
    let r := w.attest client now publicKey ladder
    Inv { w with
      device := r.1,
      accepted := w.accepted ++ if r.2 = some .keyAttestation then
        [⟨w.device.authResponse.getD [], w.writes.length⟩] else [] } := by
  obtain ⟨⟨hc, hv, hr⟩, hkey⟩ := attest_cases w client now publicKey ladder
  have hd := h.device hc hv hr
  refine ⟨hd.stored, hd.unwritten, hd.chain, hd.known, hd.fresh, hd.nodup, hd.signer, hd.binding,
    ?_⟩
  intro a ha
  rcases List.mem_append.mp ha with ha | ha
  · exact h.accepted a ha
  · split at ha
    · rw [List.mem_singleton.mp ha]
      exact (h.attested hnow (hkey ‹_›)).2
    · cases ha

theorem inv_next {w' : World} {l : Label} (h : Inv w) (hs : next w l = some w') : Inv w' := by
  cases l with
  | sign g =>
    simp only [next] at hs
    split at hs
    · cases hs
      exact h.sign ‹_›
    · cases hs
  | read challenge =>
    simp only [next] at hs
    split at hs
    · cases hs
      exact h
    · cases hs
  | setProperties ps => exact h.setProperties hs
  | authorize client now publicKey ladder =>
    simp only [next] at hs
    split at hs
    · cases hs
      exact h.authorize ‹_› client publicKey ladder
    · cases hs
  | stopped =>
    cases hs
    unfold sinkStreamStopped
    split <;> exact h.device rfl rfl rfl
  | disconnected client =>
    cases hs
    unfold clientDisconnected
    split <;> exact h.device rfl rfl rfl
  | relay r =>
    cases hs
    exact h.device rfl rfl rfl

end Inv

theorem inv_inductive : attesting.Inductive Inv where
  init w h := by
    obtain ⟨random, -, rfl⟩ := h
    exact inv_start random
  step w l w' h hs := inv_next h hs

/-! ## Single use -/

/-- Two writes that froze one challenge are one write. -/
theorem frozen_index {c : Bytes} : ∀ {ws : List Write} {i j : Nat} {x y : Write},
    (frozenValues ws).Nodup → ws[i]? = some x → ws[j]? = some y → x.frozen = some c →
    y.frozen = some c → i = j := by
  intro ws
  induction ws with
  | nil => intro i j x y _ hx; cases hx
  | cons z ws ih =>
    intro i j x y hnodup hx hy hfx hfy
    have hmem : ∀ {k : Nat} {v : Write}, ws[k]? = some v → v.frozen = some c →
        c ∈ frozenValues ws := fun hv hf =>
      List.mem_filterMap.mpr ⟨_, List.mem_of_getElem? hv, hf⟩
    have htail : (frozenValues ws).Nodup :=
      hnodup.sublist ((List.sublist_cons_self z ws).filterMap _)
    have hhead : z.frozen = some c → c ∉ frozenValues ws := by
      intro hz hin
      rw [frozenValues, List.filterMap_cons_some hz] at hnodup
      exact (List.nodup_cons.mp hnodup).1 hin
    cases i with
    | zero =>
      cases j with
      | zero => rfl
      | succ j =>
        cases hx
        exact absurd (hmem hy hfy) (hhead hfx)
    | succ i =>
      cases j with
      | zero =>
        cases hy
        exact absurd (hmem hx hfx) (hhead hfy)
      | succ j => rw [ih htail hx hy hfx hfy]

/-- A write that got no random bytes leaves the next one the same challenge. -/
theorem Inv.refrozen {w : World} (h : Inv w) (hn : ¬Replaced w.writes) :
    ¬(frozenValues w.writes).Nodup := by
  unfold Replaced AllReplaced at hn
  push Not at hn
  obtain ⟨x, hx, hfroz, hrand⟩ := hn
  obtain ⟨c, hc⟩ := Option.ne_none_iff_exists'.mp hfroz
  rcases List.eq_nil_or_concat w.writes with hnil | ⟨ws, last, hws⟩
  · rw [hnil] at hx
    cases hx
  rw [hws, List.concat_eq_append, List.dropLast_concat] at hx
  obtain ⟨pre, post, rfl⟩ := List.append_of_mem hx
  have hsplit : w.writes = pre ++ x :: (post ++ [last]) := by simpa using hws
  have hchain := h.chain
  rw [hsplit] at hchain
  have htail := (List.isChain_append.mp hchain).2.1
  obtain ⟨y, rest, hy⟩ : ∃ y rest, post ++ [last] = y :: rest := by
    cases post with
    | nil => exact ⟨last, [], rfl⟩
    | cons y post => exact ⟨y, post ++ [last], rfl⟩
  rw [hy] at htail hsplit
  have hserved : y.frozen = some c := by
    rw [(List.isChain_cons_cons.mp htail).1, Write.served, hrand, hc]
  rw [hsplit, frozenValues, List.filterMap_append, List.nodup_append]
  intro hnodup
  have := hnodup.2.1
  simp [hc, hserved] at this

/-- **A response is good for one write** exactly when every response write that
found a challenge and is followed by another one got its random bytes. -/
theorem single_use {w : World} (hr : attesting.Reachable w) : SingleUse w ↔ Replaced w.writes := by
  have h := inv_inductive.reachable w hr
  constructor
  · intro hs
    by_contra hn
    exact h.refrozen hn hs.frozen
  · intro hrep
    have hnodup := h.nodup hrep
    refine ⟨fun client now publicKey hnow hok => (h.attested hnow hok).1, hnodup,
      ?_⟩
    intro a ha b hb heq
    obtain ⟨x, g, hx, hposa, -, hfx, hg, hsg⟩ := h.accepted a ha
    obtain ⟨y, k, hy, hposb, -, hfy, hk, hsk⟩ := h.accepted b hb
    -- one signature, so one payload, so one challenge, so one write
    have hpayload := h.binding g hg k hk (by rw [hsg, hsk, heq])
    obtain ⟨hchallenge, -, -⟩ :=
      payload_inj ((h.signer g hg).1.trans (h.signer k hk).1.symm) hpayload
    rw [← hchallenge] at hfy
    have hsame := frozen_index hnodup hx hy hfx hfy
    omega

def host : KMClient := ⟨7, 501, none⟩

def firstChallenge : Bytes := List.replicate 32 1

def secondChallenge : Bytes := List.replicate 32 2

/-- The host signs the first challenge at time 100. -/
def signing : Signing := ⟨firstChallenge, 501, 100, [9]⟩

/-- The write of its response. -/
def responding (random : Option Bytes) : Property where
  key := "4cc_resp_glob_0000".toList
  value := some (KMWriteLE64 100 ++ [9])
  random := random

/-- An attestation, and the response once more: the challenge is another one. -/
def honest : List Label :=
  [.read firstChallenge, .sign signing, .setProperties [responding (some secondChallenge)],
    .authorize host 103 true false, .setProperties [responding none], .authorize host 105 true false]

theorem single_use_honest :
    let w := LTS.played next (fun _ _ => True) (World.start (some firstChallenge)) honest
    SingleUse w ∧ w.accepted.map Acceptance.writes = [1] := by
  have hrun := (LTS.played_run (M := attesting) (s := World.start (some firstChallenge))
    (G := fun _ _ => True) (fun _ _ _ h => h) (show (LTS.play next _ _ honest).isSome = true by decide))
  exact ⟨(single_use ⟨_, honest, ⟨some firstChallenge, by decide, rfl⟩, hrun.of_guarded⟩).mpr (by decide),
    by decide⟩

/-- The random source fails at the first write, and the response is written
again. -/
def stuck : List Label :=
  [.sign signing, .setProperties [responding none], .authorize host 103 true false,
    .setProperties [responding none], .authorize host 105 true false]

/-- Both writes freeze the one challenge, and the response is accepted for both. -/
theorem replayed : ¬∀ w, attesting.Reachable w → SingleUse w := by
  intro h
  have hrun := (LTS.played_run (M := attesting) (s := World.start (some firstChallenge))
    (G := fun _ _ => True) (fun _ _ _ h => h) (show (LTS.play next _ _ stuck).isSome = true by decide))
  have huse := h _ ⟨_, stuck, ⟨some firstChallenge, by decide, rfl⟩, hrun.of_guarded⟩
  have htwo : (LTS.played next (fun _ _ => True) (World.start (some firstChallenge)) stuck).accepted =
      [⟨KMWriteLE64 100 ++ [9], 1⟩, ⟨KMWriteLE64 100 ++ [9], 2⟩] := by decide
  have := huse.once ⟨KMWriteLE64 100 ++ [9], 1⟩ (by rw [htwo]; simp) ⟨KMWriteLE64 100 ++ [9], 2⟩
    (by rw [htwo]; simp) rfl
  exact absurd this (by decide)

end KmVirtualCamera.L5.ProducerAuth
