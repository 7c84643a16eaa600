import Mathlib
import KmVirtualCamera.L3Protocol.Session

/-!
# Over the life of a session

What the methods of the session object keep, one call at a time and over whole
runs, and what a caller without the right token gets.

* `session_invariants`: the record's shape, the fields nothing changes, errors
  and getters without effect, retries without effect, expiry.
* `foreign_calls_alike`: to a caller whose tokens fit no role, two records of
  the same shape answer alike, whatever they store.
-/
namespace KmVirtualCamera.L3.Session

/-! ## Every method as one request -/

inductive Request where
  | change (c : Call)
  | getOffer (receiverToken : JsString) (now : Int)
  | getAnswer (senderToken : JsString) (now : Int)

inductive Response where
  | created (success : Bool) (error : Option String)
  | reply (r : Reply)
  | void
  deriving DecidableEq

def Response.ok : Response → Bool
  | .created success _ => success
  | .reply r => decide (200 ≤ r.status ∧ r.status < 300)
  | .void => true

def Request.IsGet : Request → Prop
  | .change _ => False
  | .getOffer .. => True
  | .getAnswer .. => True

/-- The response to a call; `call` is its storage. -/
def respond (hashToken : JsString → JsString) (storage : Storage) : Call → Response
  | .create sessionId receiverToken joinToken now expiresAtMs rtc =>
    let out := createSession storage
      (newRecord hashToken sessionId receiverToken joinToken now expiresAtMs rtc)
    .created out.2.1 out.2.2
  | .claim joinToken claimNonce senderToken now =>
    .reply (claimSession hashToken storage joinToken claimNonce senderToken now).2
  | .putOffer senderToken sdp now => .reply (putOffer hashToken storage senderToken sdp now).2
  | .putAnswer receiverToken sdp now => .reply (putAnswer hashToken storage receiverToken sdp now).2
  | .delete token => .reply (deleteSession hashToken storage token).2
  | .alarm => .void

def handle (hashToken : JsString → JsString) (storage : Storage) : Request → Storage × Response
  | .change c => (call hashToken storage c, respond hashToken storage c)
  | .getOffer receiverToken now => (storage, .reply (getOffer hashToken storage receiverToken now))
  | .getAnswer senderToken now => (storage, .reply (getAnswer hashToken storage senderToken now))

def serve (hashToken : JsString → JsString) (storage : Storage) : List Request → Storage × List Response
  | [] => (storage, [])
  | q :: qs =>
    let out := handle hashToken storage q
    let rest := serve hashToken out.1 qs
    (rest.1, out.2 :: rest.2)

variable {hashToken : JsString → JsString}

/-! ## What a call keeps -/

/-- The fields no call changes, and those that are set once. -/
structure SessionRecord.Keeps (r r' : SessionRecord) : Prop where
  sessionId : r'.sessionId = r.sessionId
  expiresAtMs : r'.expiresAtMs = r.expiresAtMs
  receiverTokenHash : r'.receiverTokenHash = r.receiverTokenHash
  joinTokenHash : r'.joinTokenHash = r.joinTokenHash
  claimNonceHash : r.claimNonceHash ≠ none → r'.claimNonceHash = r.claimNonceHash
  senderTokenHash : r.senderTokenHash ≠ none → r'.senderTokenHash = r.senderTokenHash

theorem SessionRecord.Keeps.refl (r : SessionRecord) : r.Keeps r :=
  ⟨rfl, rfl, rfl, rfl, fun _ => rfl, fun _ => rfl⟩

theorem SessionRecord.Keeps.trans {a b d : SessionRecord} (h₁ : a.Keeps b) (h₂ : b.Keeps d) :
    a.Keeps d where
  sessionId := h₂.sessionId.trans h₁.sessionId
  expiresAtMs := h₂.expiresAtMs.trans h₁.expiresAtMs
  receiverTokenHash := h₂.receiverTokenHash.trans h₁.receiverTokenHash
  joinTokenHash := h₂.joinTokenHash.trans h₁.joinTokenHash
  claimNonceHash hne := by
    have he := h₁.claimNonceHash hne
    rw [h₂.claimNonceHash (by rw [he]; exact hne), he]
  senderTokenHash hne := by
    have he := h₁.senderTokenHash hne
    rw [h₂.senderTokenHash (by rw [he]; exact hne), he]

theorem call_keeps {r r' : SessionRecord} (hr : r.Shape) {c : Call}
    (h : call hashToken (some r) c = some r') : r.Keeps r' := by
  have hc := call_change hashToken r c
  rw [h] at hc
  cases hc with
  | same => exact .refl r
  | claimed _ _ _ _ _ _ first =>
    -- Nothing was set before the claim.
    obtain ⟨hn, hs, -, -⟩ := hr.created first
    exact ⟨rfl, rfl, rfl, rfl, fun h => absurd hn h, fun h => absurd hs h⟩
  | offered => exact ⟨rfl, rfl, rfl, rfl, fun _ => rfl, fun _ => rfl⟩
  | answered => exact ⟨rfl, rfl, rfl, rfl, fun _ => rfl, fun _ => rfl⟩

/-- The runs over which the record is never removed. -/
def kept (hashToken : JsString → JsString) : LTS Storage Call :=
  (lts hashToken).guarded fun st c => call hashToken st c ≠ none

/-- The same, with no new offer. -/
def keptOffer (hashToken : JsString → JsString) : LTS Storage Call :=
  (lts hashToken).guarded fun st c =>
    call hashToken st c ≠ none ∧ ∀ tok sdp now, c ≠ .putOffer tok sdp now

theorem kept_run {r : SessionRecord} (hr : r.Shape) {st st' : Storage} {cs : List Call}
    (h : (kept hashToken).Run st cs st') (hst : st = some r) :
    ∃ r', st' = some r' ∧ r'.Shape ∧ r.Keeps r' := by
  induction h generalizing r with
  | nil => exact ⟨r, hst, hr, .refl r⟩
  | cons hs _ ih =>
    obtain ⟨heq, hne⟩ := hs
    subst hst
    obtain ⟨r₁, h₁⟩ := Option.ne_none_iff_exists'.mp hne
    have hshape : r₁.Shape := call_shape (fun _ he => by cases he; exact hr) _ r₁ h₁
    obtain ⟨r', hst', hr', hkeep⟩ := ih hshape (heq.trans h₁)
    exact ⟨r', hst', hr', (call_keeps hr h₁).trans hkeep⟩

/-- Without a new offer an answered record stays as it is. -/
theorem keptOffer_run {r : SessionRecord} (hr : r.Shape) (ha : r.answer ≠ none) {st st' : Storage}
    {cs : List Call} (h : (keptOffer hashToken).Run st cs st') (hst : st = some r) : st' = some r := by
  induction h with
  | nil => exact hst
  | @cons _ _ _ c _ hs _ ih =>
    obtain ⟨heq, hne, hno⟩ := hs
    subst hst
    refine ih (heq.trans ?_)
    have hc := call_change hashToken r c
    generalize call hashToken (some r) c = out at hc hne
    cases hc with
    | same => rfl
    | deleted => exact absurd rfl hne
    | alarm => exact absurd rfl hne
    | claimed _ _ _ _ _ _ first => exact absurd (hr.created first).2.2.2 ha
    | offered tok sdp now => exact absurd rfl (hno tok sdp now)
    | answered _ _ _ _ _ first => exact absurd first ha

/-! ## Repeats -/

/-- The record is the outcome of a claim with this token and nonce. -/
structure ClaimedWith (hashToken : JsString → JsString) (r : SessionRecord)
    (joinToken claimNonce : JsString) : Prop where
  join : r.joinTokenHash = hashToken joinToken
  nonce : r.claimNonceHash = some (hashToken claimNonce)
  nonempty : hashToken claimNonce ≠ []

theorem claimedWith_of_ok (hh : ∀ token, hashToken token ≠ []) {st : Storage}
    {joinToken claimNonce senderToken : JsString} {now : Int}
    (h : (claimSession hashToken st joinToken claimNonce senderToken now).2.status = 200) :
    ∃ r, (claimSession hashToken st joinToken claimNonce senderToken now).1 = some r ∧
      ClaimedWith hashToken r joinToken claimNonce := by
  have hc := claim_cases hashToken st joinToken claimNonce senderToken now
  generalize claimSession hashToken st joinToken claimNonce senderToken now = o at h hc
  cases hc with
  | claimed r _ _ join => exact ⟨_, rfl, join, rfl, hh _⟩
  | repeated r there _ join _ same nonempty => exact ⟨r, there, join, same, nonempty⟩
  | refused reply error => simp only at h; omega

theorem ClaimedWith.keeps {r r' : SessionRecord} {joinToken claimNonce : JsString}
    (h : ClaimedWith hashToken r joinToken claimNonce) (hk : r.Keeps r') :
    ClaimedWith hashToken r' joinToken claimNonce :=
  ⟨hk.joinTokenHash.trans h.join,
    (hk.claimNonceHash (by rw [h.nonce]; exact Option.some_ne_none _)).trans h.nonce, h.nonempty⟩

theorem ClaimedWith.again {r : SessionRecord} {joinToken claimNonce : JsString}
    (h : ClaimedWith hashToken r joinToken claimNonce) (hr : r.Shape) (senderToken : JsString)
    {now : Int} (hnow : now < r.expiresAtMs) :
    claimSession hashToken (some r) joinToken claimNonce senderToken now =
      (some r, { status := 200, record := r }) := by
  have hne : r.state ≠ .created := by
    intro hcr
    have hn := (hr.created hcr).1
    rw [h.nonce] at hn
    cases hn
  have hl : live (some r) now = some r := live_some.mpr ⟨rfl, hnow⟩
  have hj : timingSafeEqual (hashToken joinToken) r.joinTokenHash = true :=
    (timingSafeEqual_iff _ _).mpr h.join.symm
  have hn := any_equal_iff.mpr ⟨h.nonce, h.nonempty⟩
  simp [claimSession, hl, hj, hne, hn]

/-- The record holds this answer, and the token is the receiver's. -/
structure AnsweredWith (hashToken : JsString → JsString) (r : SessionRecord)
    (receiverToken sdp : JsString) : Prop where
  receiver : IsReceiver hashToken r receiverToken
  answer : ∃ a, r.answer = some a ∧ a.sdp = sdp

theorem answeredWith_of_ok {st : Storage} {receiverToken sdp : JsString} {now : Int}
    (h : (putAnswer hashToken st receiverToken sdp now).2.status = 204) :
    ∃ r, (putAnswer hashToken st receiverToken sdp now).1 = some r ∧
      AnsweredWith hashToken r receiverToken sdp := by
  have hc := putAnswer_cases hashToken st receiverToken sdp now
  generalize putAnswer hashToken st receiverToken sdp now = o at h hc
  cases hc with
  | stored r _ _ receiver => exact ⟨_, rfl, receiver, _, rfl, rfl⟩
  | repeated r a there _ receiver answered same => exact ⟨r, there, receiver, a, answered, same⟩
  | refused reply error => simp only at h; omega

theorem AnsweredWith.again {r : SessionRecord} {receiverToken sdp : JsString}
    (h : AnsweredWith hashToken r receiverToken sdp) {now : Int} (hnow : now < r.expiresAtMs) :
    putAnswer hashToken (some r) receiverToken sdp now = (some r, { status := 204 }) := by
  obtain ⟨hrec, a, ha, hsdp⟩ := h
  have hl : live (some r) now = some r := live_some.mpr ⟨rfl, hnow⟩
  have ht : timingSafeEqual (hashToken receiverToken) r.receiverTokenHash = true :=
    (timingSafeEqual_iff _ _).mpr hrec.symm
  simp [putAnswer, hl, ht, ha, hsdp]

/-! ## Errors and expiry -/

/-- A response that reports an error comes with an unchanged storage. -/
theorem handle_error {st : Storage} {q : Request} (h : (handle hashToken st q).2.ok = false) :
    (handle hashToken st q).1 = st := by
  cases q with
  | getOffer => rfl
  | getAnswer => rfl
  | change c =>
    cases c with
    | create id rt jt now ex rtc =>
      cases st with
      | none => cases h
      | some r => rfl
    | claim jt nonce tok now =>
      have hc := claim_cases hashToken st jt nonce tok now
      simp only [handle, call, respond] at h ⊢
      generalize claimSession hashToken st jt nonce tok now = o at h hc
      cases hc with
      | claimed => simp [Response.ok] at h
      | repeated => rfl
      | refused => rfl
    | putOffer tok sdp now =>
      have hc := putOffer_cases hashToken st tok sdp now
      simp only [handle, call, respond] at h ⊢
      generalize putOffer hashToken st tok sdp now = o at h hc
      cases hc with
      | stored => simp [Response.ok] at h
      | refused => rfl
    | putAnswer tok sdp now =>
      have hc := putAnswer_cases hashToken st tok sdp now
      simp only [handle, call, respond] at h ⊢
      generalize putAnswer hashToken st tok sdp now = o at h hc
      cases hc with
      | stored => simp [Response.ok] at h
      | repeated => rfl
      | refused => rfl
    | delete tok =>
      have hc := delete_cases hashToken st tok
      simp only [handle, call, respond] at h ⊢
      generalize deleteSession hashToken st tok = o at h hc
      cases hc with
      | gone => simp [Response.ok] at h
      | deleted => simp [Response.ok] at h
      | refused => rfl
    | alarm => simp [handle, respond, Response.ok] at h

theorem handle_get {st : Storage} {q : Request} (h : q.IsGet) : (handle hashToken st q).1 = st := by
  cases q with
  | change => exact h.elim
  | getOffer => rfl
  | getAnswer => rfl

/-- **The session record over its life.** -/
theorem session_invariants (hh : ∀ token, hashToken token ≠ []) :
    -- The state says which optional fields there are.
    (∀ st, (lts hashToken).Reachable st → ∀ r, st = some r → r.Shape) ∧
    -- Errors and getters change nothing.
    (∀ st q, (handle hashToken st q).2.ok = false ∨ q.IsGet → (handle hashToken st q).1 = st) ∧
    -- While the record is there, its identity never changes and the rest is set once.
    (∀ r, (lts hashToken).Reachable (some r) → ∀ cs r',
      (kept hashToken).Run (some r) cs (some r') → r.Keeps r') ∧
    -- A successful claim may be repeated at any later time.
    (∀ st, (lts hashToken).Reachable st → ∀ joinToken claimNonce senderToken now,
      (claimSession hashToken st joinToken claimNonce senderToken now).2.status = 200 →
      ∀ cs st', (kept hashToken).Run
        (claimSession hashToken st joinToken claimNonce senderToken now).1 cs st' →
      ∃ r, st' = some r ∧ ∀ senderToken' now', now' < r.expiresAtMs →
        claimSession hashToken st' joinToken claimNonce senderToken' now' =
          (st', { status := 200, record := r })) ∧
    -- So may a successful answer, as long as no offer follows it.
    (∀ st, (lts hashToken).Reachable st → ∀ receiverToken sdp now,
      (putAnswer hashToken st receiverToken sdp now).2.status = 204 →
      ∀ cs st', (keptOffer hashToken).Run (putAnswer hashToken st receiverToken sdp now).1 cs st' →
      ∃ r, st' = some r ∧ ∀ now', now' < r.expiresAtMs →
        putAnswer hashToken st' receiverToken sdp now' = (st', { status := 204 })) ∧
    -- From the expiry time on everything but a deletion answers 410.
    (∀ st now, (∀ r, st = some r → r.expiresAtMs ≤ now) → ∀ a b d,
      (claimSession hashToken st a b d now).2.status = 410 ∧
      (putOffer hashToken st a b now).2.status = 410 ∧ (getOffer hashToken st a now).status = 410 ∧
      (putAnswer hashToken st a b now).2.status = 410 ∧ (getAnswer hashToken st a now).status = 410) := by
  refine ⟨fun st h => session_shape h, ?_, ?_, ?_, ?_, ?_⟩
  · intro st q h
    rcases h with h | h
    · exact handle_error h
    · exact handle_get h
  · intro r hreach cs r' hrun
    obtain ⟨r₁, h₁, -, hkeep⟩ := kept_run (session_shape hreach r rfl) hrun rfl
    cases h₁
    exact hkeep
  · intro st hreach jt nonce tok now hok cs st' hrun
    obtain ⟨r, hr, hclaimed⟩ := claimedWith_of_ok hh hok
    have hshape : r.Shape := call_shape (session_shape hreach) (.claim jt nonce tok now) r hr
    obtain ⟨r', rfl, hshape', hkeep⟩ := kept_run hshape hrun hr
    exact ⟨r', rfl, fun tok' now' hnow => (hclaimed.keeps hkeep).again hshape' tok' hnow⟩
  · intro st hreach tok sdp now hok cs st' hrun
    obtain ⟨r, hr, hans⟩ := answeredWith_of_ok hok
    have hshape : r.Shape := call_shape (session_shape hreach) (.putAnswer tok sdp now) r hr
    obtain ⟨a, ha, -⟩ := hans.answer
    have hst' := keptOffer_run hshape (by rw [ha]; exact Option.some_ne_none a) hrun hr
    subst hst'
    exact ⟨r, rfl, fun now' hnow => hans.again hnow⟩
  · intro st now hexp a b d
    have hl : live st now = none := live_none.mpr hexp
    simp [claimSession, putOffer, getOffer, putAnswer, getAnswer, hl, expired]

/-! A session whose tokens are one code unit each: receiver `1`, join `2`; the
sender claims it with nonce `4` and gets the token `3`. A token's hash is the
token behind a mark. -/

def marked (token : JsString) : JsString := 0x23 :: token

def opened : Storage := some (newRecord marked [9] [1] [2] 0 600000 ⟨[], none⟩)

theorem opened_reachable : (lts marked).Reachable opened :=
  ⟨none, [.create [9] [1] [2] 0 600000 ⟨[], none⟩], rfl, .cons rfl (.nil _)⟩

/-- The claim, an offer, and the claim once more. -/
theorem session_invariants_claimAgain :
    ∃ r, call marked (call marked opened (.claim [2] [4] [3] 1)) (.putOffer [3] [7] 2) = some r ∧
      r.state = .offerReady ∧
      claimSession marked (some r) [2] [4] [3] 3 = (some r, { status := 200, record := r }) := by
  obtain ⟨-, -, -, hagain, -, -⟩ := @session_invariants marked (by simp [marked])
  obtain ⟨r, hr, hsame⟩ := hagain opened opened_reachable [2] [4] [3] 1 rfl [.putOffer [3] [7] 2] _
    (.cons ⟨rfl, by decide⟩ (.nil _))
  refine ⟨r, hr, ?_, hr ▸ hsame [3] 3 ?_⟩
  · cases hr; rfl
  · cases hr; decide

/-- A claim, the deletion of the session by its sender, and the claim once
more, all before the expiry. -/
theorem claim_after_delete :
    let claimed := (claimSession marked opened [2] [4] [3] 1).1
    let deleted := (deleteSession marked claimed [3]).1
    (lts marked).Reachable opened ∧ opened.any (fun r => decide (3 < r.expiresAtMs)) = true ∧
      (claimSession marked opened [2] [4] [3] 1).2.status = 200 ∧
      (claimSession marked deleted [2] [4] [3] 3).2.status = 410 :=
  ⟨opened_reachable, rfl, rfl, rfl⟩

/-! ## A caller without a role -/

/-- What a caller is not told: everything but the state, the hashes, the
expiry and which optional fields are there. -/
structure Alike (r₁ r₂ : SessionRecord) : Prop where
  state : r₁.state = r₂.state
  expiresAtMs : r₁.expiresAtMs = r₂.expiresAtMs
  receiverTokenHash : r₁.receiverTokenHash = r₂.receiverTokenHash
  joinTokenHash : r₁.joinTokenHash = r₂.joinTokenHash
  claimNonceHash : r₁.claimNonceHash = r₂.claimNonceHash
  senderTokenHash : r₁.senderTokenHash = r₂.senderTokenHash
  offer : r₁.offer.isSome = r₂.offer.isSome
  answer : r₁.answer.isSome = r₂.answer.isSome

/-- The request has no token of a role its method asks for. The alarm is not
a caller's. -/
def Foreign (hashToken : JsString → JsString) (r : SessionRecord) : Request → Prop
  | .change (.create ..) => True
  | .change (.claim joinToken _ _ _) => r.joinTokenHash ≠ hashToken joinToken
  | .change (.putOffer senderToken _ _) => ¬ IsSender hashToken r senderToken
  | .change (.putAnswer receiverToken _ _) => ¬ IsReceiver hashToken r receiverToken
  | .change (.delete token) => ¬ IsReceiver hashToken r token ∧ ¬ IsSender hashToken r token
  | .change .alarm => False
  | .getOffer receiverToken _ => ¬ IsReceiver hashToken r receiverToken
  | .getAnswer senderToken _ => ¬ IsSender hashToken r senderToken

/-- What such a request gets, from the expiry and the sender's hash alone. -/
def refusal (expiresAtMs : Int) (senderTokenHash : Option JsString) : Request → Response
  | .change (.create ..) => .created false "SESSION_EXISTS"
  | .change (.claim _ _ _ now) =>
    .reply (if now < expiresAtMs then ⟨403, "INVALID_TOKEN", "Invalid join token.", none, none, none⟩
      else expired "Signaling session has expired or does not exist.")
  | .change (.putOffer _ _ now) =>
    .reply (if now < expiresAtMs then
        if truthy senderTokenHash = none then
          ⟨403, "INVALID_STATE", "Session has not been claimed yet.", none, none, none⟩
        else ⟨403, "FORBIDDEN", "Invalid sender token.", none, none, none⟩
      else expired "Signaling session has expired.")
  | .change (.putAnswer _ _ now) | .getOffer _ now =>
    .reply (if now < expiresAtMs then ⟨403, "FORBIDDEN", "Invalid receiver token.", none, none, none⟩
      else expired "Signaling session has expired.")
  | .change (.delete _) =>
    .reply ⟨403, "FORBIDDEN", "Invalid authorization token for delete.", none, none, none⟩
  | .change .alarm => .void
  | .getAnswer _ now =>
    .reply (if now < expiresAtMs then
        if truthy senderTokenHash = none then
          ⟨403, "INVALID_STATE", "Session not claimed.", none, none, none⟩
        else ⟨403, "FORBIDDEN", "Invalid sender token.", none, none, none⟩
      else expired "Signaling session has expired.")

theorem live_record (r : SessionRecord) (now : Int) :
    live (some r) now = if now < r.expiresAtMs then some r else none := by
  simp [live, Option.filter]

theorem timingSafeEqual_false {a b : JsString} (h : b ≠ a) : timingSafeEqual a b = false := by
  rw [← Bool.not_eq_true, timingSafeEqual_iff]
  exact h.symm

theorem receiver_false {r : SessionRecord} {token : JsString} (h : ¬ IsReceiver hashToken r token) :
    timingSafeEqual (hashToken token) r.receiverTokenHash = false := timingSafeEqual_false h

theorem sender_false {r : SessionRecord} {token h : JsString} (hs : ¬ IsSender hashToken r token)
    (hh : truthy r.senderTokenHash = some h) : timingSafeEqual (hashToken token) h = false := by
  rw [← Bool.not_eq_true, sender_iff hh]
  exact hs

theorem handle_foreign {r : SessionRecord} {q : Request} (h : Foreign hashToken r q) :
    handle hashToken (some r) q = (some r, refusal r.expiresAtMs r.senderTokenHash q) := by
  cases q with
  | getOffer tok now =>
    by_cases hnow : now < r.expiresAtMs
    · simp [handle, refusal, getOffer, live_record, hnow, receiver_false h]
    · simp [handle, refusal, getOffer, live_record, hnow]
  | getAnswer tok now =>
    by_cases hnow : now < r.expiresAtMs
    · cases hs : truthy r.senderTokenHash with
      | none => simp [handle, refusal, getAnswer, live_record, hnow, hs]
      | some s => simp [handle, refusal, getAnswer, live_record, hnow, hs, sender_false h hs]
    · simp [handle, refusal, getAnswer, live_record, hnow]
  | change c =>
    cases c with
    | create => rfl
    | claim jt nonce tok now =>
      by_cases hnow : now < r.expiresAtMs
      · simp [handle, call, respond, refusal, claimSession, live_record, hnow, timingSafeEqual_false h]
      · simp [handle, call, respond, refusal, claimSession, live_record, hnow]
    | putOffer tok sdp now =>
      by_cases hnow : now < r.expiresAtMs
      · cases hs : truthy r.senderTokenHash with
        | none => simp [handle, call, respond, refusal, putOffer, live_record, hnow, hs]
        | some s =>
          simp [handle, call, respond, refusal, putOffer, live_record, hnow, hs, sender_false h hs]
      · simp [handle, call, respond, refusal, putOffer, live_record, hnow]
    | putAnswer tok sdp now =>
      by_cases hnow : now < r.expiresAtMs
      · simp [handle, call, respond, refusal, putAnswer, live_record, hnow, receiver_false h]
      · simp [handle, call, respond, refusal, putAnswer, live_record, hnow]
    | delete tok =>
      have hs : (truthy r.senderTokenHash).any (timingSafeEqual (hashToken tok)) = false := by
        rw [← Bool.not_eq_true, any_equal_iff]
        exact h.2
      simp [handle, call, respond, refusal, deleteSession, receiver_false h.1, hs]
    | alarm => exact h.elim

theorem Alike.refusal {r₁ r₂ : SessionRecord} (h : Alike r₁ r₂) (q : Request) :
    refusal r₁.expiresAtMs r₁.senderTokenHash q = refusal r₂.expiresAtMs r₂.senderTokenHash q := by
  rw [h.expiresAtMs, h.senderTokenHash]

/-- Who a caller is depends on the hashes alone. -/
theorem Alike.foreign {r₁ r₂ : SessionRecord} (h : Alike r₁ r₂) {q : Request}
    (hf : Foreign hashToken r₁ q) : Foreign hashToken r₂ q := by
  have hsender : ∀ tok, IsSender hashToken r₂ tok ↔ IsSender hashToken r₁ tok := by
    intro tok
    unfold IsSender
    rw [h.senderTokenHash]
  have hreceiver : ∀ tok, IsReceiver hashToken r₂ tok ↔ IsReceiver hashToken r₁ tok := by
    intro tok
    unfold IsReceiver
    rw [h.receiverTokenHash]
  cases q with
  | getOffer tok now => exact fun he => hf ((hreceiver tok).mp he)
  | getAnswer tok now => exact fun he => hf ((hsender tok).mp he)
  | change c =>
    cases c with
    | create => trivial
    | claim jt nonce tok now => exact fun he => hf (h.joinTokenHash.trans he)
    | putOffer tok sdp now => exact fun he => hf ((hsender tok).mp he)
    | putAnswer tok sdp now => exact fun he => hf ((hreceiver tok).mp he)
    | delete tok => exact ⟨fun he => hf.1 ((hreceiver tok).mp he), fun he => hf.2 ((hsender tok).mp he)⟩
    | alarm => exact hf

theorem serve_foreign {r : SessionRecord} : ∀ {qs : List Request}, (∀ q ∈ qs, Foreign hashToken r q) →
    serve hashToken (some r) qs = (some r, qs.map (refusal r.expiresAtMs r.senderTokenHash))
  | [], _ => rfl
  | q :: qs, h => by
    rw [serve, handle_foreign (h q List.mem_cons_self),
      serve_foreign (fun q' hq' => h q' (List.mem_cons_of_mem q hq'))]
    rfl

/-- **A caller without a role learns nothing.** Against two records that agree
on all but what they store, any sequence of requests whose tokens fit none of
the roles asked for gets the same responses, and leaves both records alone. -/
theorem foreign_calls_alike {r₁ r₂ : SessionRecord} (h : Alike r₁ r₂) {qs : List Request}
    (hf : ∀ q ∈ qs, Foreign hashToken r₁ q) :
    (serve hashToken (some r₁) qs).2 = (serve hashToken (some r₂) qs).2 ∧
      (serve hashToken (some r₁) qs).1 = some r₁ ∧ (serve hashToken (some r₂) qs).1 = some r₂ := by
  rw [serve_foreign hf, serve_foreign (fun q hq => h.foreign (hf q hq))]
  exact ⟨List.map_congr_left fun q _ => h.refusal q, rfl, rfl⟩

/-- The record `opened` holds, with an offer. -/
def offered (sdp : JsString) (iceServers : List IceServer) : SessionRecord :=
  { newRecord marked [9] [1] [2] 0 600000 ⟨iceServers, none⟩ with
    state := .offerReady, claimNonceHash := marked [4], senderTokenHash := marked [3],
    offer := some ⟨sdp, 2⟩ }

/-- The receiver's token as the sender's, the join token as the receiver's,
and a deletion with the join token. -/
theorem foreign_calls_alike_confused :
    (serve marked (some (offered [7] [])) [.getAnswer [1] 3, .getOffer [2] 4, .change (.delete [2])]).2 =
      (serve marked (some (offered [8] [⟨[[5]], none, none⟩]))
        [.getAnswer [1] 3, .getOffer [2] 4, .change (.delete [2])]).2 := by
  refine (@foreign_calls_alike marked (offered [7] []) _ ⟨rfl, rfl, rfl, rfl, rfl, rfl, rfl, rfl⟩ _ ?_).1
  intro q hq
  fin_cases hq
  · exact fun h => absurd h.1 (by decide)
  · exact fun h => absurd h (by decide)
  · exact ⟨fun h => absurd h (by decide), fun h => absurd h.1 (by decide)⟩

end KmVirtualCamera.L3.Session
