import Mathlib
import KmVirtualCamera.L4App.SignalingWorker

/-!
# The session object, its sender and the receiver's worker

The three parties take steps in any order over one record. The methods of the
object are atomic; a request of the worker may reach the object and its reply
be lost. Claims, offers, answer requests and deletions come with any token and
any SDP: the object itself tells the authorised sender from the others. The
answer is put by the worker alone.

Two ghosts: `answerFor` is the offer the stored answer was made for, `accepted`
the offer of the last answer the object replied 204 to.

* `answer_matches_offer`: what `getAnswer` returns was made for the stored
  offer, as long as no answer is stored over another offer than its own.
* `offer_retry`: a session is not wedged, as long as no offer is put again
  whose answer was accepted last.
-/
namespace KmVirtualCamera.L5.Signaling
open KmVirtualCamera.L3.Session KmVirtualCamera.L4.SignalingWorker

structure System where
  storage : Storage
  receiverToken : JsString
  worker : Worker := {}
  answerFor : Option Sdp := none
  accepted : Option Sdp := none
  deriving DecidableEq

inductive Event where
  | claim (joinToken claimNonce senderToken : JsString) (now : Int)
  | putOffer (senderToken sdp : JsString) (now : Int)
  | getAnswer (senderToken : JsString) (now : Int)
  | delete (token : JsString)
  | alarm
  | poll (now : Int)
  | pollFailed
  | makeAnswer (answer : Option Sdp)
  | putAnswer (now : Int) (heard : Bool) (error : String)
  | putAnswerFailed (error : String)
  | cancel
  | wake
  | timeOut

section Steps
variable (hashToken : JsString → JsString) (keepPollingAfterAnswer : Bool)

/-- The worker's PUT reaches the object; `heard`: the reply reaches the worker. -/
def deliver (s : System) (offer answer : Sdp) (now : Int) (heard : Bool) (error : String) : System :=
  let out := putAnswer hashToken s.storage s.receiverToken answer now
  { s with
    storage := out.1
    worker := sent keepPollingAfterAnswer s.worker offer (heard && out.2.status == 204) error
    answerFor := if out.1 = s.storage then s.answerFor else some offer
    accepted := if out.2.status = 204 then some offer else s.accepted }

/-- `none`: the event cannot happen in this state. -/
def step (s : System) : Event → Option System
  | .claim joinToken claimNonce senderToken now =>
    some { s with storage := (claimSession hashToken s.storage joinToken claimNonce senderToken now).1 }
  | .putOffer senderToken sdp now =>
    some { s with storage := (putOffer hashToken s.storage senderToken sdp now).1 }
  | .getAnswer _ _ => some s
  | .delete token => some { s with storage := (deleteSession hashToken s.storage token).1 }
  | .alarm => some { s with storage := none }
  | .cancel => some { s with worker := { s.worker with cancelRequested := true } }
  | .poll now => match s.worker.pc with
    | .polling =>
      let reply := getOffer hashToken s.storage s.receiverToken now
      some { s with worker := polled s.worker (if reply.status = 200 then reply.offer.bind decodeOffer else none) }
    | _ => none
  | .pollFailed => match s.worker.pc with
    | .polling => some { s with worker := polled s.worker none }
    | _ => none
  | .wake => match s.worker.pc with
    | .polling => some { s with worker := wake s.worker }
    | _ => none
  | .timeOut => match s.worker.pc with
    | .polling => some { s with worker := timeOut s.worker }
    | _ => none
  | .makeAnswer answer => match s.worker.pc with
    | .answering offer => some { s with worker := made s.worker offer answer }
    | _ => none
  | .putAnswer now heard error => match s.worker.pc with
    | .sending offer answer => some (deliver hashToken keepPollingAfterAnswer s offer answer now heard error)
    | _ => none
  | .putAnswerFailed error => match s.worker.pc with
    | .sending offer _ => some { s with worker := sent keepPollingAfterAnswer s.worker offer false error }
    | _ => none

/-- The worker has created the session. -/
def Start (s : System) : Prop :=
  ∃ sessionId receiverToken joinToken now expiresAtMs rtc,
    s = ⟨some (newRecord hashToken sessionId receiverToken joinToken now expiresAtMs rtc), receiverToken,
      {}, none, none⟩

def lts : LTS System Event where
  init := Start hashToken
  step s e s' := step hashToken keepPollingAfterAnswer s e = some s'

end Steps

section Results
variable {hashToken : JsString → JsString} {keepPollingAfterAnswer : Bool}

/-! ## One step -/

/-- What a step does to the record and the ghosts. -/
inductive Effect (hashToken : JsString → JsString) (s : System) : Event → System → Prop
  | idle (e : Event) (w : Worker) : Effect hashToken s e { s with worker := w }
  | claimed (e : Event) (r : SessionRecord) (nonce sender : Option JsString) (there : s.storage = some r)
      (created : r.state = .created) :
      Effect hashToken s e { s with storage := some { r with state := .claimed, claimNonceHash := nonce,
                                                             senderTokenHash := sender } }
  | gone (e : Event) : Effect hashToken s e { s with storage := none }
  | offered (r : SessionRecord) (token sdp : JsString) (now : Int) (there : s.storage = some r)
      (unexpired : now < r.expiresAtMs) (sender : IsSender hashToken r token) :
      Effect hashToken s (.putOffer token sdp now)
        { s with storage := some { r with offer := some ⟨sdp, now⟩, answer := none, state := .offerReady } }
  | answered (r : SessionRecord) (offer answer : Sdp) (now : Int) (heard : Bool) (error : String)
      (w : Worker) (sending : s.worker.pc = .sending offer answer) (there : s.storage = some r)
      (first : r.answer = none) (ready : r.state = .offerReady) :
      Effect hashToken s (.putAnswer now heard error)
        { s with storage := some { r with answer := some ⟨answer, now⟩, state := .answerReady },
                 worker := w, answerFor := some offer, accepted := some offer }
  | repeated (r : SessionRecord) (a : Description) (offer answer : Sdp) (now : Int) (heard : Bool)
      (error : String) (w : Worker) (sending : s.worker.pc = .sending offer answer)
      (there : s.storage = some r) (already : r.answer = some a) :
      Effect hashToken s (.putAnswer now heard error) { s with worker := w, accepted := some offer }

theorem deliver_effect (s : System) (offer answer : Sdp) (now : Int) (heard : Bool) (error : String)
    (hpc : s.worker.pc = .sending offer answer) :
    Effect hashToken s (.putAnswer now heard error)
      (deliver hashToken keepPollingAfterAnswer s offer answer now heard error) := by
  have hc := putAnswer_cases hashToken s.storage s.receiverToken answer now
  unfold deliver
  generalize putAnswer hashToken s.storage s.receiverToken answer now = out at hc
  cases hc with
  | stored r there _ _ first ready =>
    have hne : (some { r with answer := some ⟨answer, now⟩, state := .answerReady } : Storage) ≠
        s.storage := by
      rw [there]
      intro he
      have := congrArg SessionRecord.answer (Option.some.inj he)
      rw [first] at this
      cases this
    simp only [if_neg hne, if_true]
    exact .answered r offer answer now heard error _ hpc there first ready
  | repeated r a there _ _ answered same =>
    simp only [if_true]
    exact .repeated r a offer answer now heard error _ hpc there answered
  | refused reply error' =>
    have hst : reply.status ≠ 204 := by omega
    simp only [if_true, if_neg hst]
    exact .idle _ _

theorem step_effect {s s' : System} {e : Event}
    (h : step hashToken keepPollingAfterAnswer s e = some s') : Effect hashToken s e s' := by
  cases e with
  | claim jt nonce tok now =>
    simp only [step, Option.some.injEq] at h
    subst h
    unfold claimSession
    split
    · exact .idle _ _
    rename_i r hr
    split
    · exact .idle _ _
    split
    · split <;> exact .idle _ _
    · rename_i hc
      exact .claimed _ r _ _ (live_some.mp hr).1 (not_not.mp hc)
  | putOffer tok sdp now =>
    simp only [step, Option.some.injEq] at h
    subst h
    have hc := putOffer_cases hashToken s.storage tok sdp now
    generalize putOffer hashToken s.storage tok sdp now = out at hc
    cases hc with
    | stored r there unexpired sender => exact .offered r tok sdp now there unexpired sender
    | refused reply error => exact .idle _ _
  | getAnswer tok now => simp only [step, Option.some.injEq] at h; subst h; exact .idle _ _
  | delete tok =>
    simp only [step, Option.some.injEq] at h
    subst h
    unfold deleteSession
    split
    · exact .gone _
    · split
      · exact .idle _ _
      · exact .gone _
  | alarm => simp only [step, Option.some.injEq] at h; subst h; exact .gone _
  | cancel => simp only [step, Option.some.injEq] at h; subst h; exact .idle _ _
  | putAnswer now heard error =>
    simp only [step] at h
    split at h
    · rename_i offer answer hpc
      cases h
      exact deliver_effect s offer answer now heard error hpc
    · cases h
  | poll => simp only [step] at h; split at h <;> cases h; exact .idle _ _
  | pollFailed => simp only [step] at h; split at h <;> cases h; exact .idle _ _
  | wake => simp only [step] at h; split at h <;> cases h; exact .idle _ _
  | timeOut => simp only [step] at h; split at h <;> cases h; exact .idle _ _
  | makeAnswer => simp only [step] at h; split at h <;> cases h; exact .idle _ _
  | putAnswerFailed => simp only [step] at h; split at h <;> cases h; exact .idle _ _

/-! ## Agreement -/

/-- What the sender gets was made for the offer that is stored. -/
def Agreement (hashToken : JsString → JsString) (s : System) : Prop :=
  ∀ token now, (getAnswer hashToken s.storage token now).status = 200 →
    ∃ r o, s.storage = some r ∧ r.offer = some o ∧ s.answerFor = some o.sdp

/-- A PUT that finds the record waiting for an answer finds the offer it was
made for. -/
def OfferUnchanged (s : System) (e : Event) : Prop :=
  ∀ now heard error offer answer r, e = .putAnswer now heard error →
    s.worker.pc = .sending offer answer → s.storage = some r → r.state = .offerReady →
    r.offer.map (·.sdp) = some offer

/-- The stored answer was made for the stored offer. -/
def Matched (s : System) : Prop :=
  ∀ r, s.storage = some r → r.answer ≠ none → ∃ o, r.offer = some o ∧ s.answerFor = some o.sdp

theorem matched_effect {s s' : System} {e : Event} (h : Matched s) (hg : OfferUnchanged s e)
    (he : Effect hashToken s e s') : Matched s' := by
  intro r' hr' ha'
  cases he with
  | idle e w => exact h r' hr' ha'
  | claimed e r nonce sender there created => cases hr'; exact h r there ha'
  | gone e => cases hr'
  | offered r => cases hr'; exact absurd rfl ha'
  | answered r offer answer now heard error w sending there first ready =>
    have ho := hg now heard error offer answer r rfl sending there ready
    obtain ⟨o, hoo, rfl⟩ := Option.map_eq_some_iff.mp ho
    cases hr'
    exact ⟨o, hoo, rfl⟩
  | repeated r a offer answer now heard error w sending there already => exact h r' hr' ha'

theorem matched_inductive (hashToken : JsString → JsString) (keepPollingAfterAnswer : Bool) :
    ((lts hashToken keepPollingAfterAnswer).guarded OfferUnchanged).Inductive Matched where
  init s h := by
    obtain ⟨id, rt, jt, now, ex, rtc, rfl⟩ := h
    intro r hr ha
    cases hr
    exact absurd rfl ha
  step s e s' h hst := matched_effect h hst.2 (step_effect hst.1)

/-- **Agreement under the condition.** In every run in which each answer that
is stored reaches the object while the offer it was made for is still there,
whatever `getAnswer` returns was made for the stored offer. -/
theorem answer_matches_offer (hashToken : JsString → JsString) (keepPollingAfterAnswer : Bool) :
    ∀ s, ((lts hashToken keepPollingAfterAnswer).guarded OfferUnchanged).Reachable s →
      Agreement hashToken s := by
  intro s hs token now hok
  obtain ⟨r, a, hst, -, -, ha, -⟩ := getAnswer_ok hok
  obtain ⟨o, ho, hf⟩ := (matched_inductive hashToken keepPollingAfterAnswer).reachable s hs r hst
    (by rw [ha]; exact Option.some_ne_none a)
  exact ⟨r, o, hst, ho, hf⟩

/-! ## A retried offer -/

/-- The polling worker does nothing about the offer it has answered. -/
theorem poll_skips {s : System} (hpc : s.worker.pc = .polling)
    (hsame : ∀ r o, s.storage = some r → r.offer = some o → o.sdp = s.worker.answeredOfferSdp)
    (now : Int) : step hashToken keepPollingAfterAnswer s (.poll now) = some s := by
  have hskip : ∀ offer : Option Sdp, (∀ sdp, offer = some sdp → sdp = s.worker.answeredOfferSdp) →
      polled s.worker offer = s.worker := by
    intro offer h
    unfold polled
    split
    · rename_i sdp
      rw [if_neg fun hnew => hnew.2 (h sdp rfl)]
    · rfl
  simp only [step, hpc]
  rw [hskip]
  intro sdp hsdp
  split at hsdp
  · obtain ⟨sdp', hreply, hdec⟩ := Option.bind_eq_some_iff.mp hsdp
    unfold decodeOffer at hdec
    split at hdec
    · cases hdec
    · cases hdec
      obtain ⟨r, o, hr, ho, rfl⟩ := getOffer_some hreply
      exact hsame r o hr ho
  · cases hsdp

/-- The worker's answer to an offer was accepted, that offer is stored, and
there is no answer: the worker skips the offer it has answered, and the sender
waits. -/
def Wedged (s : System) : Prop :=
  ∃ r o, s.storage = some r ∧ r.offer = some o ∧ s.accepted = some o.sdp ∧ r.answer = none

/-- An offer the object takes is not the one whose answer it accepted last. -/
def NewOffer (hashToken : JsString → JsString) (s : System) (e : Event) : Prop :=
  ∀ token sdp now r, e = .putOffer token sdp now → s.storage = some r → now < r.expiresAtMs →
    IsSender hashToken r token → s.accepted ≠ some sdp

theorem unwedged_effect {s s' : System} {e : Event} (h : ¬ Wedged s) (hg : NewOffer hashToken s e)
    (he : Effect hashToken s e s') : ¬ Wedged s' := by
  rintro ⟨r', o', hr', ho', hacc, ha'⟩
  cases he with
  | idle e w => exact h ⟨r', o', hr', ho', hacc, ha'⟩
  | claimed e r nonce sender there created => cases hr'; exact h ⟨r, o', there, ho', hacc, ha'⟩
  | gone e => cases hr'
  | offered r token sdp now there unexpired sender =>
    cases hr'
    cases ho'
    exact hg token sdp now r rfl there unexpired sender hacc
  | answered r => cases hr'; cases ha'
  | repeated r a offer answer now heard error w sending there already =>
    have hrr : r' = r := Option.some.inj (hr'.symm.trans there)
    rw [hrr, already] at ha'
    cases ha'

theorem unwedged_inductive (hashToken : JsString → JsString) (keepPollingAfterAnswer : Bool) :
    ((lts hashToken keepPollingAfterAnswer).guarded (NewOffer hashToken)).Inductive
      fun s => ¬ Wedged s where
  init s h := by
    obtain ⟨id, rt, jt, now, ex, rtc, rfl⟩ := h
    rintro ⟨r, o, -, -, hacc, -⟩
    cases hacc
  step s e s' h hst := unwedged_effect h hst.2 (step_effect hst.1)

/-- **A retried offer.** Putting the stored SDP again leaves the offer's SDP,
the answer and the state of a reachable record as they were exactly when there
is no answer yet; and no session is wedged in a run in which no offer is taken
whose answer was accepted last. -/
theorem offer_retry (hashToken : JsString → JsString) (keepPollingAfterAnswer : Bool) :
    (∀ (r : SessionRecord) (o : Description) (token : JsString) (now : Int),
      (L3.Session.lts hashToken).Reachable (some r) → now < r.expiresAtMs →
      IsSender hashToken r token → r.offer = some o →
      ∃ r', putOffer hashToken (some r) token o.sdp now = (some r', { status := 204 }) ∧
        (r'.offer.map (·.sdp) = r.offer.map (·.sdp) ∧ r'.answer = r.answer ∧ r'.state = r.state ↔
          r.answer = none)) ∧
    ∀ s, ((lts hashToken keepPollingAfterAnswer).guarded (NewOffer hashToken)).Reachable s → ¬ Wedged s := by
  refine ⟨?_, (unwedged_inductive hashToken keepPollingAfterAnswer).reachable⟩
  intro r o token now hr hnow hs ho
  obtain ⟨r', hput, hsdp, hrest⟩ := putOffer_again (session_inv hr r rfl) hnow hs ho
  refine ⟨r', hput, ?_⟩
  rw [ho, Option.map_some, ← hrest]
  exact ⟨fun h => h.2, fun h => ⟨hsdp, h⟩⟩

end Results

/-! ## The runs that break them -/

def exec (hashToken : JsString → JsString) (keepPollingAfterAnswer : Bool) (s : System) :
    List Event → Option System
  | [] => some s
  | e :: es => (step hashToken keepPollingAfterAnswer s e).bind fun s => exec hashToken keepPollingAfterAnswer s es

theorem exec_run {hashToken : JsString → JsString} {keepPollingAfterAnswer : Bool} :
    ∀ (es : List Event) {s s' : System}, exec hashToken keepPollingAfterAnswer s es = some s' →
      (lts hashToken keepPollingAfterAnswer).Run s es s'
  | [], s, s', h => by cases h; exact .nil s
  | e :: es, s, s', h => by
    obtain ⟨t, ht, hes⟩ := Option.bind_eq_some_iff.mp h
    exact .cons ht (exec_run es hes)

/-- A session whose tokens are one character each and hash to themselves:
receiver `1`, join `2`, sender `3`. -/
def opened : System := ⟨some (newRecord id [9] [1] [2] 0 600000 ⟨[], none⟩), [1], {}, none, none⟩

/-- The worker polls the offer `7`, the sender puts the offer `8`, the answer
`77` to the first one arrives. -/
def replaced : List Event :=
  [.claim [2] [4] [3] 0, .putOffer [3] [7] 1, .poll 2, .makeAnswer (some [77]), .putOffer [3] [8] 3,
    .putAnswer 4 true ""]

/-- The sender is handed the answer to the offer it has replaced. -/
theorem stale_answer_returned :
    ∃ s, (lts id true).Reachable s ∧ ¬ Agreement id s ∧
      (getAnswer id s.storage [3] 5).answer = some [77] ∧ s.answerFor = some [7] ∧
      (s.storage.bind (·.offer)).map (·.sdp) = some [8] := by
  obtain ⟨s, hs⟩ : ∃ s, exec id true opened replaced = some s := ⟨_, rfl⟩
  cases hs
  refine ⟨_, ⟨opened, replaced, ⟨_, _, _, _, _, _, rfl⟩, exec_run replaced rfl⟩, ?_, rfl, rfl, rfl⟩
  intro h
  obtain ⟨r, o, hr, ho, hf⟩ := h [3] 5 rfl
  cases hr
  cases ho
  exact absurd hf (by decide)

theorem offerUnchanged_other {s : System} {e : Event} (h : ∀ now heard error, e ≠ .putAnswer now heard error) :
    OfferUnchanged s e := fun now heard error _ _ _ he => absurd he (h now heard error)

/-- The offer `7` and its answer. -/
def answeredOnce : List Event :=
  [.claim [2] [4] [3] 0, .putOffer [3] [7] 1, .poll 2, .makeAnswer (some [77]), .putAnswer 3 true ""]

/-- No other offer in between. -/
theorem answer_matches_offer_first :
    ∃ s, exec id true opened answeredOnce = some s ∧ (getAnswer id s.storage [3] 5).status = 200 ∧
      Agreement id s := by
  obtain ⟨s, hs⟩ : ∃ s, exec id true opened answeredOnce = some s := ⟨_, rfl⟩
  cases hs
  refine ⟨_, rfl, rfl, answer_matches_offer id true _ ⟨opened, answeredOnce, ⟨_, _, _, _, _, _, rfl⟩, ?_⟩⟩
  refine .cons ⟨rfl, offerUnchanged_other (by simp)⟩ (.cons ⟨rfl, offerUnchanged_other (by simp)⟩
    (.cons ⟨rfl, offerUnchanged_other (by simp)⟩ (.cons ⟨rfl, offerUnchanged_other (by simp)⟩
      (.cons ⟨rfl, ?_⟩ (.nil _)))))
  intro now heard error offer answer r he hpc hr hready
  cases hr
  cases hpc
  rfl

/-- The answered offer put again because the reply was lost. -/
def retried : List Event := answeredOnce ++ [.putOffer [3] [7] 4]

/-- The retry takes the answer away, and a poll of the worker changes nothing. -/
theorem retry_wedges :
    ∃ s, (lts id true).Reachable s ∧ Wedged s ∧ s.worker.pc = .polling ∧
      ∀ now, step id true s (.poll now) = some s := by
  obtain ⟨s, hs⟩ : ∃ s, exec id true opened retried = some s := ⟨_, rfl⟩
  cases hs
  refine ⟨_, ⟨opened, retried, ⟨_, _, _, _, _, _, rfl⟩, exec_run retried rfl⟩,
    ⟨_, _, rfl, rfl, rfl, rfl⟩, rfl, ?_⟩
  intro now
  refine poll_skips rfl ?_ now
  intro r o hr ho
  cases hr
  cases ho
  rfl

end KmVirtualCamera.L5.Signaling
