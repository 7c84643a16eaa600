import Mathlib
import KmVirtualCamera.L3Protocol.Session

/-!
# The receiver's signaling worker

`SignalingWorker::run` from the point where the session exists: the loop that
polls the offer, has an answer made and puts it. Each function is what the
worker does between two blocking calls; a `Pc` is a blocking call, with the
locals that live across it. The poll interval, the backoff and the clock are
left out: a poll or a timeout can come at any time.
-/
namespace KmVirtualCamera.L4.SignalingWorker
open KmVirtualCamera.L3.Session

/-- An SDP is the same string on both ends of the transport. -/
abbrev Sdp := JsString

/-- mirrors shared/receiver/signaling/signaling_worker.h:12-22 -/
inductive SignalingPhase where
  | creatingSession | sessionCreated | waitingForOffer | generatingAnswer | sendingAnswer
  | succeeded | timedOut | failed | canceled
  deriving DecidableEq

inductive Pc where
  | polling
  | answering (offer : Sdp)
  | sending (offer answer : Sdp)
  | done
  deriving DecidableEq

structure Worker where
  pc : Pc := .polling
  answered : Bool := false
  answeredOfferSdp : Sdp := []
  cancelRequested : Bool := false
  phases : List (SignalingPhase × String) :=
    [(.creatingSession, ""), (.sessionCreated, ""), (.waitingForOffer, "")]
  deriving DecidableEq

/-- mirrors shared/receiver/signaling/signaling_worker.cpp:119-121 -/
def report (w : Worker) (phase : SignalingPhase) (detail : String) : Worker :=
  { w with phases := w.phases ++ [(phase, detail)] }

/-- mirrors shared/receiver/signaling/signaling_worker.cpp:123-126 -/
def fail (w : Worker) (error fallback : String) : Worker :=
  if w.cancelRequested then report w .canceled ""
  else report w .failed (if error = "" then fallback else error)

/-- `return` from `run`. -/
def done (w : Worker) : Worker := { w with pc := .done }

/-- The session's age is over.
mirrors shared/receiver/signaling/signaling_worker.cpp:77-83 -/
def timeOut (w : Worker) : Worker := done (if w.answered then w else report w .timedOut "")

/-- The loop condition.
mirrors shared/receiver/signaling/signaling_worker.cpp:76,109,116 -/
def wake (w : Worker) : Worker := if w.cancelRequested then done (report w .canceled "") else w

/-- `decodeOffer` on the SDP of a 200 reply; its byte limit is above what the
server takes.
mirrors shared/receiver/signaling/session_codec.h:65-71 -/
def decodeOffer (sdp : Sdp) : Option Sdp := if sdp = [] ∨ 0 ∈ sdp then none else some sdp

/-- `PollOffer` has returned.
mirrors shared/receiver/signaling/signaling_worker.cpp:84-92 -/
def polled (w : Worker) (offer : Option Sdp) : Worker :=
  match offer with
  | some sdp =>
    if w.cancelRequested = false ∧ sdp ≠ w.answeredOfferSdp then
      { report w .generatingAnswer "" with pc := .answering sdp }
    else w
  | none => w

/-- `makeAnswer` has returned.
mirrors shared/receiver/signaling/signaling_worker.cpp:93-99 -/
def made (w : Worker) (offer : Sdp) (answer : Option Sdp) : Worker :=
  if w.cancelRequested then done (report w .canceled "")
  else match answer with
    | none => done (report w .failed "answer generation failed")
    | some answer =>
      if answer = [] then done (report w .failed "answer generation failed")
      else { report w .sendingAnswer "" with pc := .sending offer answer }

/-- `PutAnswer` has returned; `error` is the client's `LastError`.
mirrors shared/receiver/signaling/signaling_worker.cpp:100-107 -/
def sent (keepPollingAfterAnswer : Bool) (w : Worker) (offer : Sdp) (accepted : Bool) (error : String) :
    Worker :=
  if accepted = false then done (fail w error "answer send failed")
  else
    let w := { report w .succeeded "" with answeredOfferSdp := offer, answered := true }
    if keepPollingAfterAnswer then { w with pc := .polling } else done w

end KmVirtualCamera.L4.SignalingWorker
