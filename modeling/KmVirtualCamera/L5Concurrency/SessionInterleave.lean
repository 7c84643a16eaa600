import Mathlib
import KmVirtualCamera.Core.LTS
import KmVirtualCamera.Core.Serial
import KmVirtualCamera.L3Protocol.SessionInvariant

/-!
# Overlapping calls of the session object

A method of `cloud/src/durable/session-object.ts` reads the record, then awaits
one to three token hashes, and other requests may run at each of them; then it
goes on with the record it read and, if it writes, writes that record back
whole. `storage.get`, `put` and `deleteAll` are atomic, so `createSession` and
`alarm` are too. `begin` is a method up to its first `hashToken`, `resume` from
one to the next or to its end; the ghost `read` is the storage at `begin`.

* `alone_now`: with nothing in between, a method is the one of
  `L3Protocol.Session`.
* `interleaved_serial`: if no method writes a record back that has changed
  since it was read, overlapping calls have a one-at-a-time order.
* `two_claims`: without that they need not.
-/
namespace KmVirtualCamera.L5.SessionInterleave

open KmVirtualCamera.L3.Session

/-! ## One method -/

/-- Where a method waits for a hash: the record it read, and what it still
needs of its arguments. `senderHash` is the third wait of a claim. -/
inductive Await where
  | joinHash (record : SessionRecord) (joinToken claimNonce senderToken : JsString)
  | nonceHash (record : SessionRecord) (claimNonce senderToken : JsString)
  | senderHash (record : SessionRecord) (nonceHash senderToken : JsString)
  | putOffer (record : SessionRecord) (senderToken sdp : JsString)
  | getOffer (record : SessionRecord) (receiverToken : JsString)
  | putAnswer (record : SessionRecord) (receiverToken sdp : JsString)
  | getAnswer (record : SessionRecord) (senderToken : JsString)
  | delete (record : SessionRecord) (token : JsString)

inductive Write where
  | none
  | put (record : SessionRecord)
  | deleteAll

def Write.apply : Write → Storage → Storage
  | .none, storage => storage
  | .put record, _ => some record
  | .deleteAll, _ => Option.none

inductive Progress where
  | wait (a : Await)
  | done (w : Write) (response : Response)

def Progress.reply (r : Reply) : Progress := .done .none (.reply r)

section Method
variable (hashToken : JsString → JsString)

/-- A method up to its first await of a hash. -/
def start (storage : Storage) : Request → Progress
  | .change (.create sessionId receiverToken joinToken now expiresAtMs rtc) =>
    match storage with
    | some _ => .done .none (.created false "SESSION_EXISTS")
    | none =>
      .done (.put (newRecord hashToken sessionId receiverToken joinToken now expiresAtMs rtc))
        (.created true none)
  | .change (.claim joinToken claimNonce senderToken now) =>
    match live storage now with
    | none => .reply (expired "Signaling session has expired or does not exist.")
    | some record => .wait (.joinHash record joinToken claimNonce senderToken)
  | .change (.putOffer senderToken sdp now) =>
    match live storage now with
    | none => .reply (expired "Signaling session has expired.")
    | some record =>
      match truthy record.senderTokenHash with
      | none => .reply { status := 403, code := "INVALID_STATE",
                         message := "Session has not been claimed yet." }
      | some _ => .wait (.putOffer record senderToken sdp)
  | .change (.putAnswer receiverToken sdp now) =>
    match live storage now with
    | none => .reply (expired "Signaling session has expired.")
    | some record => .wait (.putAnswer record receiverToken sdp)
  | .change (.delete token) =>
    match storage with
    | none => .reply { status := 204 }
    | some record => .wait (.delete record token)
  | .change .alarm => .done .deleteAll .void
  | .getOffer receiverToken now =>
    match live storage now with
    | none => .reply (expired "Signaling session has expired.")
    | some record => .wait (.getOffer record receiverToken)
  | .getAnswer senderToken now =>
    match live storage now with
    | none => .reply (expired "Signaling session has expired.")
    | some record =>
      match truthy record.senderTokenHash with
      | none => .reply { status := 403, code := "INVALID_STATE", message := "Session not claimed." }
      | some _ => .wait (.getAnswer record senderToken)

/-- From one hash to the next await or the end; `later` is `Date.now()` there. -/
def resume (later : Int) : Await → Progress
  | .joinHash record joinToken claimNonce senderToken =>
    if timingSafeEqual (hashToken joinToken) record.joinTokenHash = false then
      .reply { status := 403, code := "INVALID_TOKEN", message := "Invalid join token." }
    else .wait (.nonceHash record claimNonce senderToken)
  | .nonceHash record claimNonce senderToken =>
    if record.state ≠ .created then
      if (truthy record.claimNonceHash).any (timingSafeEqual (hashToken claimNonce)) then
        .reply { status := 200, record := record }
      else .reply { status := 409, code := "SESSION_ALREADY_CLAIMED",
                    message := "Session has already been claimed by another sender." }
    else .wait (.senderHash record (hashToken claimNonce) senderToken)
  | .senderHash record nonceHash senderToken =>
    let record := { record with state := .claimed, claimNonceHash := nonceHash,
                                senderTokenHash := hashToken senderToken }
    .done (.put record) (.reply { status := 200, record := record })
  | .putOffer record senderToken sdp =>
    if (truthy record.senderTokenHash).any (timingSafeEqual (hashToken senderToken)) = false then
      .reply { status := 403, code := "FORBIDDEN", message := "Invalid sender token." }
    else
      .done (.put { record with offer := some ⟨sdp, later⟩, answer := none, state := .offerReady })
        (.reply { status := 204 })
  | .getOffer record receiverToken =>
    if timingSafeEqual (hashToken receiverToken) record.receiverTokenHash = false then
      .reply { status := 403, code := "FORBIDDEN", message := "Invalid receiver token." }
    else match record.offer with
      | none => .reply { status := 204 }
      | some offer => .reply { status := 200, offer := offer.sdp }
  | .putAnswer record receiverToken sdp =>
    if timingSafeEqual (hashToken receiverToken) record.receiverTokenHash = false then
      .reply { status := 403, code := "FORBIDDEN", message := "Invalid receiver token." }
    else match record.answer with
      | some answer =>
        if answer.sdp = sdp then .reply { status := 204 }
        else .reply { status := 409, code := "INVALID_STATE",
                      message := "Conflicting answer has already been submitted." }
      | none =>
        if record.state ≠ .offerReady then
          .reply { status := 409, code := "INVALID_STATE",
                   message := "Cannot submit answer before offer is ready (current state: " ++
                     record.state.text ++ ")." }
        else .done (.put { record with answer := some ⟨sdp, later⟩, state := .answerReady })
          (.reply { status := 204 })
  | .getAnswer record senderToken =>
    if (truthy record.senderTokenHash).any (timingSafeEqual (hashToken senderToken)) = false then
      .reply { status := 403, code := "FORBIDDEN", message := "Invalid sender token." }
    else match record.answer with
      | none => .reply { status := 204 }
      | some answer => .reply { status := 200, answer := answer.sdp }
  | .delete record token =>
    if timingSafeEqual (hashToken token) record.receiverTokenHash = false ∧
        (truthy record.senderTokenHash).any (timingSafeEqual (hashToken token)) = false then
      .reply { status := 403, code := "FORBIDDEN",
               message := "Invalid authorization token for delete." }
    else .done .deleteAll (.reply { status := 204 })

/-- A method from an await to its end; a claim waits three times. -/
def finish (later : Int) (a : Await) : Write × Response :=
  match resume hashToken later a with
  | .done w r => (w, r)
  | .wait b =>
    match resume hashToken later b with
    | .done w r => (w, r)
    | .wait c =>
      match resume hashToken later c with
      | .done w r => (w, r)
      | .wait _ => (.none, .void)

/-- A method with nothing in between; `later` is `Date.now()` at its write. -/
def alone (storage : Storage) (op : Request × Int) : Storage × Response :=
  match start hashToken storage op.1 with
  | .done w r => (w.apply storage, r)
  | .wait a =>
    let out := finish hashToken op.2 a
    (out.1.apply storage, out.2)

end Method

/-- `Date.now()` at the start of a method that reads it. -/
def now : Request → Int
  | .change (.create _ _ _ now _ _) => now
  | .change (.claim _ _ _ now) => now
  | .change (.putOffer _ _ now) => now
  | .change (.putAnswer _ _ now) => now
  | .change (.delete _) => 0
  | .change .alarm => 0
  | .getOffer _ now => now
  | .getAnswer _ now => now

variable {hashToken : JsString → JsString}

@[simp] theorem reply_done (r : Reply) : Progress.reply r = .done .none (.reply r) := rfl

/-- A method alone is the method of `L3Protocol.Session`. -/
theorem alone_now (storage : Storage) (q : Request) :
    alone hashToken storage (q, now q) = handle hashToken storage q := by
  cases q with
  | getOffer tok nw =>
    cases hl : live storage nw with
    | none => simp [alone, start, handle, getOffer, hl, Write.apply]
    | some r =>
      by_cases ht : timingSafeEqual (hashToken tok) r.receiverTokenHash = false
      · simp [alone, start, finish, resume, handle, getOffer, hl, ht, Write.apply]
      · cases ho : r.offer <;>
          simp [alone, start, finish, resume, handle, getOffer, hl, ht, ho, Write.apply]
  | getAnswer tok nw =>
    cases hl : live storage nw with
    | none => simp [alone, start, handle, getAnswer, hl, Write.apply]
    | some r =>
      cases hs : truthy r.senderTokenHash with
      | none => simp [alone, start, handle, getAnswer, hl, hs, Write.apply]
      | some h =>
        by_cases ht : timingSafeEqual (hashToken tok) h = false
        · simp [alone, start, finish, resume, handle, getAnswer, hl, hs, ht, Write.apply]
        · cases ha : r.answer <;>
            simp [alone, start, finish, resume, handle, getAnswer, hl, hs, ht, ha, Write.apply]
  | change c =>
    cases c with
    | create id rt jt nw ex rtc => cases storage <;> rfl
    | claim jt nonce tok nw =>
      cases hl : live storage nw with
      | none => simp [alone, start, handle, call, respond, claimSession, hl, Write.apply]
      | some r =>
        by_cases ht : timingSafeEqual (hashToken jt) r.joinTokenHash = false
        · simp [alone, start, finish, resume, handle, call, respond, claimSession, hl, ht, Write.apply]
        · by_cases hc : r.state = .created
          · simp [alone, start, finish, resume, handle, call, respond, claimSession, hl, ht, hc,
              Write.apply]
          · by_cases hn : (truthy r.claimNonceHash).any (timingSafeEqual (hashToken nonce)) = true <;>
              simp [alone, start, finish, resume, handle, call, respond, claimSession, hl, ht, hc, hn,
                Write.apply]
    | putOffer tok sdp nw =>
      cases hl : live storage nw with
      | none => simp [alone, start, handle, call, respond, putOffer, hl, Write.apply]
      | some r =>
        cases hs : truthy r.senderTokenHash with
        | none => simp [alone, start, handle, call, respond, putOffer, hl, hs, Write.apply]
        | some h =>
          by_cases ht : timingSafeEqual (hashToken tok) h = false <;>
            simp [alone, start, finish, resume, handle, call, respond, putOffer, now, hl, hs, ht,
              Write.apply]
    | putAnswer tok sdp nw =>
      cases hl : live storage nw with
      | none => simp [alone, start, handle, call, respond, putAnswer, hl, Write.apply]
      | some r =>
        by_cases ht : timingSafeEqual (hashToken tok) r.receiverTokenHash = false
        · simp [alone, start, finish, resume, handle, call, respond, putAnswer, hl, ht, Write.apply]
        · cases ha : r.answer with
          | some a =>
            by_cases hsdp : a.sdp = sdp <;>
              simp [alone, start, finish, resume, handle, call, respond, putAnswer, hl, ht, ha, hsdp,
                Write.apply]
          | none =>
            by_cases hr : r.state = .offerReady <;>
              simp [alone, start, finish, resume, handle, call, respond, putAnswer, now, hl, ht, ha, hr,
                Write.apply]
    | delete tok =>
      cases storage with
      | none => rfl
      | some r =>
        by_cases ht : timingSafeEqual (hashToken tok) r.receiverTokenHash = false ∧
            (truthy r.senderTokenHash).any (timingSafeEqual (hashToken tok)) = false <;>
          simp [alone, start, finish, resume, handle, call, respond, deleteSession, ht, Write.apply]
    | alarm => rfl

/-! ## Calls in flight -/

/-- A call that waits; `read` is the storage when it began. -/
structure Flight where
  request : Request
  read : Storage
  await : Await

/-- `done` has each finished call with its `Date.now()` at the write, and its
response. -/
structure System where
  storage : Storage
  flight : Nat → Option Flight := fun _ => none
  done : List ((Request × Int) × Response) := []

inductive Event where
  | begin (i : Nat) (q : Request)
  | resume (i : Nat) (later : Int)

/-- One step of call `i`. -/
def step (hashToken : JsString → JsString) (s : System) : Event → Option System
  | .begin i q =>
    match s.flight i with
    | some _ => none
    | none =>
      match start hashToken s.storage q with
      | .done w r => some { s with storage := w.apply s.storage, done := s.done ++ [((q, 0), r)] }
      | .wait a => some { s with flight := Function.update s.flight i (some ⟨q, s.storage, a⟩) }
  | .resume i later =>
    match s.flight i with
    | none => none
    | some f =>
      match resume hashToken later f.await with
      | .wait a => some { s with flight := Function.update s.flight i (some { f with await := a }) }
      | .done w r =>
        some ⟨w.apply s.storage, Function.update s.flight i none, s.done ++ [((f.request, later), r)]⟩

def lts (hashToken : JsString → JsString) : LTS System Event where
  init s := s.flight = (fun _ => none) ∧ s.done = []
  step s e s' := step hashToken s e = some s'

/-- What a method is about to write back is still so: a claim or an answer
finds the record it read (a claim also the record it writes), an offer all of
it but what an offer overwrites, and a deletion nothing or a record its token
may delete. -/
def Current (hashToken : JsString → JsString) (storage : Storage) : Await → Prop
  | .senderHash record nonceHash senderToken =>
    storage = some record ∨
      storage = some (record.claimedBy nonceHash (hashToken senderToken)) ∧ nonceHash ≠ []
  | .putOffer record senderToken _ => IsSender hashToken record senderToken →
    ∃ r, storage = some r ∧
      { r with offer := record.offer, answer := record.answer, state := record.state } = record
  | .putAnswer record receiverToken _ => IsReceiver hashToken record receiverToken →
    record.answer = none → record.state = .offerReady → storage = some record
  | .delete record token => IsReceiver hashToken record token ∨ IsSender hashToken record token →
    ∀ r, storage = some r → IsReceiver hashToken r token ∨ IsSender hashToken r token
  | _ => True

def Unchanged (hashToken : JsString → JsString) (s : System) : Event → Prop
  | .begin .. => True
  | .resume i _ => ∀ f, s.flight i = some f → Current hashToken s.storage f.await

/-! ## What a waiting call has read and checked -/

inductive Waits (hashToken : JsString → JsString) (read : Storage) : Request → Await → Prop
  | joinHash {record : SessionRecord} {joinToken claimNonce senderToken : JsString} {now : Int}
      (there : live read now = some record) :
      Waits hashToken read (.change (.claim joinToken claimNonce senderToken now))
        (.joinHash record joinToken claimNonce senderToken)
  | nonceHash {record : SessionRecord} {joinToken claimNonce senderToken : JsString} {now : Int}
      (there : live read now = some record) (join : record.joinTokenHash = hashToken joinToken) :
      Waits hashToken read (.change (.claim joinToken claimNonce senderToken now))
        (.nonceHash record claimNonce senderToken)
  | senderHash {record : SessionRecord} {joinToken claimNonce senderToken : JsString} {now : Int}
      (there : live read now = some record) (join : record.joinTokenHash = hashToken joinToken)
      (first : record.state = .created) :
      Waits hashToken read (.change (.claim joinToken claimNonce senderToken now))
        (.senderHash record (hashToken claimNonce) senderToken)
  | putOffer {record : SessionRecord} {senderToken sdp : JsString} {now : Int}
      (there : live read now = some record) (claimed : truthy record.senderTokenHash ≠ none) :
      Waits hashToken read (.change (.putOffer senderToken sdp now)) (.putOffer record senderToken sdp)
  | getOffer {record : SessionRecord} {receiverToken : JsString} {now : Int}
      (there : live read now = some record) :
      Waits hashToken read (.getOffer receiverToken now) (.getOffer record receiverToken)
  | putAnswer {record : SessionRecord} {receiverToken sdp : JsString} {now : Int}
      (there : live read now = some record) :
      Waits hashToken read (.change (.putAnswer receiverToken sdp now))
        (.putAnswer record receiverToken sdp)
  | getAnswer {record : SessionRecord} {senderToken : JsString} {now : Int}
      (there : live read now = some record) (claimed : truthy record.senderTokenHash ≠ none) :
      Waits hashToken read (.getAnswer senderToken now) (.getAnswer record senderToken)
  | delete {record : SessionRecord} {token : JsString} (there : read = some record) :
      Waits hashToken read (.change (.delete token)) (.delete record token)

theorem start_waits {storage : Storage} {q : Request} {a : Await}
    (h : start hashToken storage q = .wait a) : Waits hashToken storage q a := by
  cases q with
  | getOffer tok nw =>
    simp only [start] at h
    split at h
    · cases h
    · rename_i r hr; cases h; exact .getOffer hr
  | getAnswer tok nw =>
    simp only [start] at h
    split at h
    · cases h
    rename_i r hr
    split at h
    · cases h
    · rename_i hs; cases h; exact .getAnswer hr (by rw [hs]; exact Option.some_ne_none _)
  | change c =>
    cases c with
    | create =>
      simp only [start] at h
      split at h
      · cases h
      · cases h
    | claim jt nonce tok nw =>
      simp only [start] at h
      split at h
      · cases h
      · rename_i r hr; cases h; exact .joinHash hr
    | putOffer tok sdp nw =>
      simp only [start] at h
      split at h
      · cases h
      rename_i r hr
      split at h
      · cases h
      · rename_i hs; cases h; exact .putOffer hr (by rw [hs]; exact Option.some_ne_none _)
    | putAnswer tok sdp nw =>
      simp only [start] at h
      split at h
      · cases h
      · rename_i r hr; cases h; exact .putAnswer hr
    | delete tok =>
      simp only [start] at h
      split at h
      · cases h
      · cases h; exact .delete rfl
    | alarm => cases h

theorem equal_of_not_false {a b : JsString} (h : ¬ timingSafeEqual a b = false) : b = a :=
  ((timingSafeEqual_iff a b).mp (by simpa using h)).symm

theorem resume_waits {read : Storage} {q : Request} {a b : Await} {later : Int}
    (h : Waits hashToken read q a) (hb : resume hashToken later a = .wait b) :
    Waits hashToken read q b := by
  cases h with
  | joinHash there =>
    simp only [resume] at hb
    split at hb
    · cases hb
    · rename_i ht; cases hb; exact .nonceHash there (equal_of_not_false ht)
  | nonceHash there join =>
    simp only [resume] at hb
    split at hb
    · split at hb <;> cases hb
    · rename_i hc; cases hb; exact .senderHash there join (not_not.mp hc)
  | senderHash => cases hb
  | putOffer => simp only [resume] at hb; split at hb <;> cases hb
  | getOffer => simp only [resume] at hb; split at hb <;> [cases hb; (split at hb <;> cases hb)]
  | putAnswer =>
    simp only [resume] at hb
    split at hb
    · cases hb
    · split at hb <;> (split at hb <;> cases hb)
  | getAnswer => simp only [resume] at hb; split at hb <;> [cases hb; (split at hb <;> cases hb)]
  | delete => simp only [resume] at hb; split at hb <;> cases hb

theorem finish_joinHash {record : SessionRecord} {jt nonce tok : JsString}
    (join : record.joinTokenHash = hashToken jt) (later : Int) :
    finish hashToken later (.joinHash record jt nonce tok) =
      finish hashToken later (.nonceHash record nonce tok) := by
  have hj := (timingSafeEqual_iff _ _).mpr join.symm
  by_cases hc : record.state = .created
  · simp [finish, resume, hj, hc]
  · by_cases hn : (truthy record.claimNonceHash).any (timingSafeEqual (hashToken nonce)) = true <;>
      simp [finish, resume, hj, hc, hn]

theorem finish_nonceHash {record : SessionRecord} {nonce tok : JsString}
    (first : record.state = .created) (later : Int) :
    finish hashToken later (.nonceHash record nonce tok) =
      finish hashToken later (.senderHash record (hashToken nonce) tok) := by
  simp [finish, resume, first]

theorem finish_done {a : Await} {later : Int} {w : Write} {r : Response}
    (h : resume hashToken later a = .done w r) : finish hashToken later a = (w, r) := by
  unfold finish
  rw [h]

/-- A waiting call goes on as it would have gone on at its reading. -/
theorem waits_alone {read : Storage} {q : Request} {a : Await} (h : Waits hashToken read q a)
    (later : Int) : alone hashToken read (q, later) =
      ((finish hashToken later a).1.apply read, (finish hashToken later a).2) := by
  cases h with
  | joinHash there => simp [alone, start, there]
  | nonceHash there join => simp [alone, start, there, finish_joinHash join]
  | senderHash there join first =>
    simp [alone, start, there, finish_joinHash join, finish_nonceHash first]
  | putOffer there claimed =>
    obtain ⟨h, hs⟩ := Option.ne_none_iff_exists'.mp claimed
    simp [alone, start, there, hs]
  | getOffer there => simp [alone, start, there]
  | putAnswer there => simp [alone, start, there]
  | getAnswer there claimed =>
    obtain ⟨h, hs⟩ := Option.ne_none_iff_exists'.mp claimed
    simp [alone, start, there, hs]
  | delete there => simp [alone, start, there]

theorem alone_claimed {r : SessionRecord} {joinToken claimNonce senderToken : JsString} {now : Int}
    (hnow : now < r.expiresAtMs) (hj : r.joinTokenHash = hashToken joinToken) (hc : r.state ≠ .created)
    (hn : r.claimNonceHash = some (hashToken claimNonce)) (hne : hashToken claimNonce ≠ []) (later : Int) :
    alone hashToken (some r) (.change (.claim joinToken claimNonce senderToken now), later) =
      (some r, .reply { status := 200, record := r }) := by
  have hl : live (some r) now = some r := live_some.mpr ⟨rfl, hnow⟩
  have hj := (timingSafeEqual_iff _ _).mpr hj.symm
  have hn := any_equal_iff.mpr ⟨hn, hne⟩
  simp [alone, start, finish, resume, hl, hj, hc, hn, Write.apply]

theorem alone_putOffer {r : SessionRecord} {senderToken sdp : JsString} {now : Int}
    (hnow : now < r.expiresAtMs) (hs : IsSender hashToken r senderToken) (later : Int) :
    alone hashToken (some r) (.change (.putOffer senderToken sdp now), later) =
      (some { r with offer := some ⟨sdp, later⟩, answer := none, state := .offerReady },
        .reply { status := 204 }) := by
  have hl : live (some r) now = some r := live_some.mpr ⟨rfl, hnow⟩
  have ht : truthy r.senderTokenHash = some (hashToken senderToken) := by
    rw [hs.1]; simp [truthy, hs.2]
  have he := (timingSafeEqual_iff (hashToken senderToken) _).mpr rfl
  simp [alone, start, finish, resume, hl, ht, he, Write.apply]

theorem alone_delete {storage : Storage} {token : JsString}
    (h : ∀ r, storage = some r → IsReceiver hashToken r token ∨ IsSender hashToken r token) (later : Int) :
    alone hashToken storage (.change (.delete token), later) = (none, .reply { status := 204 }) := by
  cases storage with
  | none => rfl
  | some r =>
    rcases h r rfl with hr | hs
    · have ht := (timingSafeEqual_iff _ _).mpr hr.symm
      simp [alone, start, finish, resume, ht, Write.apply]
    · have ht := any_equal_iff.mpr hs
      simp [alone, start, finish, resume, ht, Write.apply]

/-- A call that ends either changes nothing, or does to the storage what it
would do alone. -/
theorem resume_done {read storage : Storage} {q : Request} {a : Await} {later : Int} {w : Write}
    {r : Response} (h : Waits hashToken read q a) (hc : Current hashToken storage a)
    (hd : resume hashToken later a = .done w r) :
    alone hashToken read (q, later) = (w.apply read, r) ∧
      (w = .none ∨ alone hashToken storage (q, later) = (w.apply storage, r)) := by
  have hw := waits_alone h later
  rw [finish_done hd] at hw
  refine ⟨hw, ?_⟩
  cases h with
  | joinHash =>
    simp only [resume] at hd
    split at hd <;> cases hd
    exact .inl rfl
  | nonceHash =>
    simp only [resume] at hd
    split at hd
    · split at hd <;> (cases hd; exact .inl rfl)
    · cases hd
  | senderHash there join first =>
    right
    obtain ⟨hread, hnow⟩ := live_some.mp there
    rcases hc with hst | ⟨hst, hne⟩
    · rw [hst, ← hread]
      exact hw
    · -- The same claim has been made in between.
      cases hd
      rw [hst]
      refine alone_claimed ?_ ?_ ?_ ?_ hne later
      · exact hnow
      · exact join
      · exact nofun
      · rfl
  | @putOffer record tok sdp now there claimed =>
    simp only [resume] at hd
    split at hd
    · cases hd; exact .inl rfl
    rename_i ht
    right
    cases hd
    have hs : IsSender hashToken record tok := any_equal_iff.mp (by simpa using ht)
    obtain ⟨r, hst, heq⟩ := hc hs
    -- The stored record has the sender and the expiry of the one read.
    have hs' : IsSender hashToken r tok := by rw [← heq] at hs; exact hs
    have hnow : now < r.expiresAtMs := by
      have hnow := (live_some.mp there).2
      rw [← heq] at hnow
      exact hnow
    rw [hst, alone_putOffer hnow hs' later, ← heq]
    rfl
  | getOffer =>
    simp only [resume] at hd
    split at hd
    · cases hd; exact .inl rfl
    · split at hd <;> (cases hd; exact .inl rfl)
  | putAnswer there =>
    simp only [resume] at hd
    split at hd
    · cases hd; exact .inl rfl
    rename_i ht
    split at hd
    · split at hd <;> (cases hd; exact .inl rfl)
    rename_i hno
    split at hd
    · cases hd; exact .inl rfl
    rename_i hready
    right
    rw [hc (equal_of_not_false ht) hno (not_not.mp hready), ← (live_some.mp there).1]
    exact hw
  | getAnswer =>
    simp only [resume] at hd
    split at hd
    · cases hd; exact .inl rfl
    · split at hd <;> (cases hd; exact .inl rfl)
  | @delete record tok there =>
    simp only [resume] at hd
    split at hd
    · cases hd; exact .inl rfl
    rename_i ht
    right
    cases hd
    refine alone_delete (hc ?_) later
    by_cases hr : timingSafeEqual (hashToken tok) record.receiverTokenHash = false
    · exact .inr (any_equal_iff.mp (by simpa using fun h => ht ⟨hr, h⟩))
    · exact .inl (equal_of_not_false hr)

/-! ## The one-at-a-time order -/

/-- What the waiting calls have read. -/
def reads (flight : Nat → Option Flight) (i : Nat) : Option Storage := (flight i).map Flight.read

theorem reads_update (flight : Nat → Option Flight) (i : Nat) (f : Option Flight) :
    reads (Function.update flight i f) = Function.update (reads flight) i (f.map Flight.read) := by
  funext j
  by_cases hj : j = i
  · subst hj; simp [reads]
  · simp [hj, reads]

structure Inv (hashToken : JsString → JsString) (s₀ : Storage) (s : System) : Prop where
  serial : Serialisable (alone hashToken) s₀ s.done (reads s.flight) s.storage
  waits : ∀ i f, s.flight i = some f → Waits hashToken f.read f.request f.await

theorem waits_update {flight : Nat → Option Flight} {i : Nat} {f : Option Flight}
    (h : ∀ j g, flight j = some g → Waits hashToken g.read g.request g.await)
    (hf : ∀ g, f = some g → Waits hashToken g.read g.request g.await) :
    ∀ j g, Function.update flight i f j = some g → Waits hashToken g.read g.request g.await := by
  intro j g hg
  by_cases hj : j = i
  · subst hj
    rw [Function.update_self] at hg
    exact hf g hg
  · rw [Function.update_of_ne hj] at hg
    exact h j g hg

theorem begin_inv {s₀ : Storage} {s s' : System} {i : Nat} {q : Request} (h : Inv hashToken s₀ s)
    (hst : step hashToken s (.begin i q) = some s') : Inv hashToken s₀ s' := by
  simp only [step] at hst
  split at hst
  · cases hst
  split at hst
  · rename_i w r hd
    cases hst
    have ha : alone hashToken s.storage (q, 0) = (w.apply s.storage, r) := by simp [alone, hd]
    exact ⟨h.serial.commits ha, h.waits⟩
  · rename_i a hw
    cases hst
    refine ⟨?_, waits_update h.waits ?_⟩
    · rw [reads_update]
      exact h.serial.begins i
    · intro g hg
      cases hg
      exact start_waits hw

theorem resume_inv {s₀ : Storage} {s s' : System} {i : Nat} {later : Int} (h : Inv hashToken s₀ s)
    (hc : Unchanged hashToken s (.resume i later))
    (hst : step hashToken s (.resume i later) = some s') : Inv hashToken s₀ s' := by
  simp only [step] at hst
  split at hst
  · cases hst
  rename_i f hf
  have hread : reads s.flight i = some f.read := by simp [reads, hf]
  have hcur : Current hashToken s.storage f.await := hc f hf
  split at hst
  · rename_i a hw
    cases hst
    refine ⟨?_, waits_update h.waits ?_⟩
    · -- It has still read what it had read.
      rw [reads_update, Option.map_some, ← hread, Function.update_eq_self]
      exact h.serial
    · intro g hg
      cases hg
      exact resume_waits (h.waits i f hf) hw
  · rename_i w r hd
    cases hst
    refine ⟨?_, waits_update h.waits fun g hg => by cases hg⟩
    rw [reads_update]
    have hdone := resume_done (h.waits i f hf) hcur hd
    by_cases hw : w = .none
    · subst hw
      exact (h.serial.reads hread hdone.1).forgets i
    · exact (h.serial.commits (hdone.2.resolve_left hw)).forgets i

theorem init_inv {s₀ : System} (h0 : (lts hashToken).init s₀) : Inv hashToken s₀.storage s₀ := by
  obtain ⟨hflight, hdone⟩ := h0
  constructor
  · rw [hdone, hflight]
    exact .start fun i => rfl
  · intro i f hf
    rw [hflight] at hf
    cases hf

theorem run_inv {st : Storage} {s s' : System} {es : List Event} (h : Inv hashToken st s)
    (hrun : ((lts hashToken).guarded (Unchanged hashToken)).Run s es s') : Inv hashToken st s' := by
  induction hrun with
  | nil => exact h
  | @cons _ _ _ e _ hst _ ih =>
    obtain ⟨hst, hc⟩ := hst
    cases e with
    | begin i q => exact ih (begin_inv h hst)
    | resume i later => exact ih (resume_inv h hc hst)

theorem alone_none {q : Request} {later : Int} (h : (alone hashToken none (q, later)).1 ≠ none) :
    ∃ id rt jt nw ex rtc, q = .change (.create id rt jt nw ex rtc) := by
  cases q with
  | getOffer => exact absurd rfl h
  | getAnswer => exact absurd rfl h
  | change c =>
    cases c with
    | create id rt jt nw ex rtc => exact ⟨id, rt, jt, nw, ex, rtc, rfl⟩
    | claim => exact absurd rfl h
    | putOffer => exact absurd rfl h
    | putAnswer => exact absurd rfl h
    | delete => exact absurd rfl h
    | alarm => exact absurd rfl h

/-- Only a creation stores a record where there is none. -/
theorem only_creates {st : Storage} {s s' : System} {e : Event} (h : Inv hashToken st s)
    (hc : Unchanged hashToken s e) (hst : step hashToken s e = some s') (hnone : s.storage = none)
    (hsome : s'.storage ≠ none) :
    ∃ i id rt jt nw ex rtc, e = .begin i (.change (.create id rt jt nw ex rtc)) := by
  cases e with
  | begin i q =>
    simp only [step] at hst
    split at hst
    · cases hst
    split at hst
    · rename_i w r hd
      cases hst
      have ha : alone hashToken none (q, 0) = (w.apply none, r) := by
        rw [hnone] at hd
        simp [alone, hd]
      obtain ⟨id, rt, jt, nw, ex, rtc, rfl⟩ := @alone_none hashToken q 0
        (by rw [ha]; rw [hnone] at hsome; exact hsome)
      exact ⟨i, id, rt, jt, nw, ex, rtc, rfl⟩
    · cases hst
      exact absurd hnone hsome
  | resume i later =>
    simp only [step] at hst
    split at hst
    · cases hst
    rename_i f hf
    have hcur : Current hashToken s.storage f.await := hc f hf
    split at hst
    · cases hst
      exact absurd hnone hsome
    · rename_i w r hd
      cases hst
      rw [hnone] at hcur hsome
      have hwaits := h.waits i f hf
      rcases (resume_done hwaits hcur hd).2 with rfl | ha
      · exact absurd rfl hsome
      · -- A call that waits is no creation.
        obtain ⟨id, rt, jt, nw, ex, rtc, hq⟩ := alone_none (by rw [ha]; exact hsome)
        rw [hq] at hwaits
        cases hwaits

/-- **Overlapping calls.** In a run in which nothing that is written back has
changed since it was read, the finished calls have an order in which, one at
a time, they give the same responses and the same storage; and a removed
session comes back only by a creation. -/
theorem interleaved_serial {s₀ s : System} {es : List Event} (h0 : (lts hashToken).init s₀)
    (hrun : ((lts hashToken).guarded (Unchanged hashToken)).Run s₀ es s) :
    (∃ order, order.Perm s.done ∧ Serial (alone hashToken) s₀.storage order s.storage) ∧
      ∀ e s', Unchanged hashToken s e → step hashToken s e = some s' → s.storage = none →
        s'.storage ≠ none → ∃ i id rt jt nw ex rtc, e = .begin i (.change (.create id rt jt nw ex rtc)) := by
  have hinv := run_inv (init_inv h0) hrun
  obtain ⟨order, hperm, hser, -⟩ := hinv.serial
  exact ⟨⟨order, hperm, hser⟩, fun e s' => only_creates hinv⟩

/-! ## Runs

On the session `opened`: join token `2`, receiver token `1`. -/

def exec (hashToken : JsString → JsString) (s : System) : List Event → Option System
  | [] => some s
  | e :: es => (step hashToken s e).bind fun s => exec hashToken s es

theorem exec_run {hashToken : JsString → JsString} : ∀ (es : List Event) {s s' : System},
    exec hashToken s es = some s' → (lts hashToken).Run s es s'
  | [], s, s', h => by cases h; exact .nil s
  | e :: es, s, s', h => by
    obtain ⟨t, ht, hes⟩ := Option.bind_eq_some_iff.mp h
    exact .cons ht (exec_run es hes)

/-- A poll for the offer while a claim waits for its hashes. -/
def polled : List Event :=
  [.begin 0 (.change (.claim [2] [4] [3] 1)), .begin 1 (.getOffer [1] 2), .resume 0 3, .resume 1 3,
    .resume 0 4, .resume 0 5]

theorem interleaved_serial_polled :
    ∃ s, exec marked ⟨opened, fun _ => none, []⟩ polled = some s ∧ s.done.length = 2 ∧
      ∃ order, order.Perm s.done ∧ Serial (alone marked) opened order s.storage := by
  obtain ⟨s, hs⟩ : ∃ s, exec marked ⟨opened, fun _ => none, []⟩ polled = some s := ⟨_, rfl⟩
  cases hs
  refine ⟨_, rfl, rfl, (@interleaved_serial marked ⟨opened, fun _ => none, []⟩ _ polled ⟨rfl, rfl⟩ ?_).1⟩
  have wait : ∀ {s : System} {i : Nat} {l : Int} {f : Flight}, s.flight i = some f →
      Current marked s.storage f.await → Unchanged marked s (.resume i l) :=
    fun hf hc g hg => by cases hf.symm.trans hg; exact hc
  exact .cons ⟨rfl, trivial⟩ (.cons ⟨rfl, trivial⟩ (.cons ⟨rfl, wait rfl trivial⟩
    (.cons ⟨rfl, wait rfl trivial⟩ (.cons ⟨rfl, wait rfl trivial⟩
      (.cons ⟨rfl, wait rfl (.inl rfl)⟩ (.nil _))))))

/-- Two claims of one session, the second begun while the first waits. -/
def claims : List Event :=
  [.begin 0 (.change (.claim [2] [4] [3] 1)), .begin 1 (.change (.claim [2] [5] [6] 1)),
    .resume 0 2, .resume 0 2, .resume 0 2, .resume 1 3, .resume 1 3, .resume 1 3]

/-- Both get 200, the second one's sender token replaces the first one's, and
neither order explains it. -/
theorem two_claims :
    ∃ s, (lts marked).Run ⟨opened, fun _ => none, []⟩ claims s ∧
      s.done.map (fun d => d.2.ok) = [true, true] ∧
      s.storage.bind (·.senderTokenHash) = some (marked [6]) ∧
      ¬ ∃ order, order.Perm s.done ∧ Serial (alone marked) opened order s.storage := by
  obtain ⟨s, hs⟩ : ∃ s, exec marked ⟨opened, fun _ => none, []⟩ claims = some s := ⟨_, rfl⟩
  cases hs
  refine ⟨_, exec_run claims rfl, rfl, rfl, ?_⟩
  rintro ⟨order, hperm, hser⟩
  rcases List.perm_pair.mp hperm with rfl | rfl
  · cases hser with
    | cons ha ht =>
      cases ha
      cases ht with
      | cons hb => cases hb
  · cases hser with
    | cons ha ht =>
      cases ha
      cases ht with
      | cons hb => cases hb

end KmVirtualCamera.L5.SessionInterleave
