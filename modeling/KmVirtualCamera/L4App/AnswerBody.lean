import Mathlib
import KmVirtualCamera.L1Encoding.JsonQuote
import KmVirtualCamera.L4App.SignalingRun

/-!
# The answer on the wire (`SessionClient::PutAnswer`)

The body of a PUT is put together from constant text and the quoted SDP.
Whatever the SDP holds, the body is the JSON text of an object with the two
members `type` and `sdp` (`answer_text`), and the second is the SDP.

`json::parse` takes 1 MiB. An SDP may have 512 KiB, and a quoted control
character takes six bytes, so a body can be more than the reader takes; it then
throws (`control_bytes_refused`), and this is the only case.
-/
namespace KmVirtualCamera.L4.SignalingRun
open L1.H264 (Bytes)
open L1.Json
open L1.SessionCodec (safeSessionId safeHeader)
open Utf8 Rfc8259

/-- What a PUT has to say. -/
def answerObject (sdp : Bytes) : Value :=
  .object [(ascii "type", .string (ascii "answer")), (ascii "sdp", .string sdp)]

/-- `body` says it: as a text of the grammar, and to the reader as long as it
takes the text. -/
structure Carries (sdp body : Bytes) : Prop where
  text : ∃ cs tree, body = utf8 cs ∧ JsonText cs tree ∧ denote tree = answerObject sdp
  parsed : body.length ≤ 1024 * 1024 → parse body = .ok (answerObject sdp)
  refused : 1024 * 1024 < body.length → parse body = .error .thrown

/-- What `PutAnswer` and `request` check before anything is sent. -/
def Sends (id token sdp : Bytes) : Prop :=
  safeSessionId id = true ∧ sdp ≠ [] ∧ sdp.length ≤ 512 * 1024 ∧ (∃ cs, sdp = utf8 cs) ∧
    safeHeader token = true ∧ token.length ≤ 8192

/-! ## The body -/

def answerText (cs : List Char) : List Char :=
  '\x7b' :: (quotation "type".toList ++ ':' :: (quotation "answer".toList ++ ',' ::
    (quotation "sdp".toList ++ ':' :: (quotation cs ++ ['\x7d']))))

def answerTree (cs : List Char) : Tree :=
  .object [(atoms "type".toList, .string (atoms "answer".toList)),
    (atoms "sdp".toList, .string (atoms cs))]

theorem answer_body (cs : List Char) :
    ascii "\x7b\"type\":\"answer\",\"sdp\":" ++ utf8 (quotation cs) ++ ascii "\x7d" =
      utf8 (answerText cs) := by
  have hhead : ascii "\x7b\"type\":\"answer\",\"sdp\":" =
      utf8 ('\x7b' :: (quotation "type".toList ++ ':' :: (quotation "answer".toList ++ ',' ::
        (quotation "sdp".toList ++ [':'])))) := by decide
  have htail : ascii "\x7d" = utf8 ['\x7d'] := by decide
  rw [hhead, htail, ← utf8_append, ← utf8_append, answerText]
  simp only [List.append_assoc, List.cons_append, List.nil_append]

theorem answer_text (cs : List Char) : JsonText (answerText cs) (answerTree cs) := by
  have ws : Ws [] := by simp [Ws]
  have hsdp := MembersText.one ws (quotation_text "sdp".toList) ws ws (.string (quotation_text cs)) ws
  have hboth := MembersText.cons ws (quotation_text "type".toList) ws ws
    (.string (quotation_text "answer".toList)) ws hsdp
  have hobject := ValueText.object hboth
  refine ⟨[], _, [], ws, hobject, ws, ?_⟩
  simp [answerText]

theorem answer_denotes (cs : List Char) : denote (answerTree cs) = answerObject (utf8 cs) := by
  have htype : utf8 "type".toList = ascii "type" := by decide
  have hanswer : utf8 "answer".toList = ascii "answer" := by decide
  have hkey : utf8 "sdp".toList = ascii "sdp" := by decide
  simp only [answerTree, denote, denoteMembers, unescape_atoms, htype, hanswer, hkey, answerObject]

theorem answer_within (cs : List Char) : Within (answerTree cs) 32 0 where
  depth := by simp [answerTree, Tree.depth, depthMembers]
  values := by simp [answerTree, Tree.values, valuesMembers]
  distinct := by
    refine ⟨?_, trivial, trivial, trivial⟩
    simp only [List.map_cons, List.map_nil, unescape_atoms]
    decide
  paired := ⟨atoms_paired _, atoms_paired _, atoms_paired _, atoms_paired _, trivial⟩

theorem answer_carries (cs : List Char) : Carries (utf8 cs) (utf8 (answerText cs)) where
  text := ⟨_, _, rfl, answer_text cs, answer_denotes cs⟩
  parsed h := by rw [read_reads rfl (answer_text cs) (answer_within cs) h, answer_denotes]
  refused h := by rw [parse, if_pos h]

/-! ## What is sent -/

theorem request_log (e : Env) (base : Bytes) (r : Run) (method path token body : Bytes) :
    (!safeHeader token || token.length > 8192) = true ∧
        (request e base r method path token body).2.log = r.log ∨
      (!safeHeader token || token.length > 8192) = false ∧ ∃ sent : HttpRequest,
        (request e base r method path token body).2.log = r.log ++ [.request sent] ∧ sent.body = body := by
  unfold request
  split
  · rename_i h
    exact Or.inl ⟨h, rfl⟩
  · rename_i h
    refine Or.inr ⟨by simpa using h, ?_⟩
    dsimp only
    split
    · exact ⟨_, rfl, rfl⟩
    · exact ⟨_, rfl, rfl⟩

/-- Behind the quotation the log is the request's. -/
theorem put_log (e : Env) (base : Bytes) (r : Run) (id token sdp text : Bytes)
    (hid : (!safeSessionId id || sdp.isEmpty || sdp.length > 512 * 1024) = false)
    (hq : quote sdp = .ok text) :
    (putAnswer e base r id token sdp).2.log =
      (request e base r (ascii "PUT") (ascii "/v1/sessions/" ++ id ++ ascii "/answer") token
        (ascii "\x7b\"type\":\"answer\",\"sdp\":" ++ text ++ ascii "\x7d")).2.log := by
  unfold putAnswer
  rw [if_neg (by simp [hid]), hq]
  simp only [caught]
  generalize request e base r _ _ token _ = reply
  rcases reply with ⟨_ | response, r⟩ <;> rfl

theorem putAnswer_log (e : Env) (base : Bytes) (r : Run) (id token sdp : Bytes) :
    (Sends id token sdp ∧ ∃ request cs,
      (putAnswer e base r id token sdp).2.log = r.log ++ [.request request] ∧ sdp = utf8 cs ∧
        request.body = utf8 (answerText cs)) ∨
      (¬Sends id token sdp ∧ (putAnswer e base r id token sdp).2.log = r.log) := by
  by_cases hid : (!safeSessionId id || sdp.isEmpty || sdp.length > 512 * 1024) = true
  · refine Or.inr ⟨?_, by rw [putAnswer, if_pos hid]⟩
    intro h
    obtain ⟨h1, h2, h3, -⟩ := h
    simp [h1, h2] at hid
    omega
  have hid' := Bool.eq_false_iff.mpr hid
  rcases quote_spec sdp with ⟨cs, rfl, hq⟩ | ⟨hno, hq⟩
  · have hput := put_log e base r id token _ _ hid' hq
    rw [answer_body] at hput
    rcases request_log e base r (ascii "PUT") (ascii "/v1/sessions/" ++ id ++ ascii "/answer") token
      (utf8 (answerText cs)) with ⟨htoken, hlog⟩ | ⟨htoken, request, hlog, hbody⟩
    · refine Or.inr ⟨?_, hput.trans hlog⟩
      intro h
      obtain ⟨-, -, -, -, h5, h6⟩ := h
      simp [h5] at htoken
      omega
    · refine Or.inl ⟨?_, request, cs, hput.trans hlog, rfl, hbody⟩
      simp only [Bool.or_eq_false_iff, Bool.not_eq_false', decide_eq_false_iff_not, not_lt] at hid' htoken
      refine ⟨hid'.1.1, ?_, hid'.2, ⟨cs, rfl⟩, htoken.1, htoken.2⟩
      intro hnil
      simp [hnil] at hid'
  · refine Or.inr ⟨fun h => hno h.2.2.2.1, ?_⟩
    rw [putAnswer, if_neg hid, hq]
    rfl

/-- **Quoting round trip**: `quote` throws exactly for what is not UTF-8, the
reader returns what was quoted, and what `PutAnswer` sends is the two-member
object with that SDP, refused by the reader only for its size. -/
theorem quoted_survives :
    (∀ s : Bytes, (∃ error, quote s = .error error) ↔ ¬∃ cs, s = utf8 cs) ∧
    (∀ s text : Bytes, quote s = .ok text → text.length ≤ 1024 * 1024 → parse text = .ok (.string s)) ∧
    ∀ (e : Env) (base : Bytes) (r : Run) (id token sdp : Bytes),
      (Sends id token sdp → ∃ request, Carries sdp request.body ∧
        (putAnswer e base r id token sdp).2.log = r.log ++ [.request request]) ∧
      (¬Sends id token sdp → (putAnswer e base r id token sdp).2.log = r.log) := by
  refine ⟨?_, ?_, ?_⟩
  · intro s
    rcases quote_spec s with ⟨cs, hs, hq⟩ | ⟨hno, hq⟩
    · refine ⟨?_, fun hno => absurd ⟨cs, hs⟩ hno⟩
      intro h
      obtain ⟨error, herror⟩ := h
      rw [hq] at herror
      cases herror
    · exact ⟨fun _ => hno, fun _ => ⟨_, hq⟩⟩
  · intro s text hq hlen
    rcases quote_spec s with ⟨cs, rfl, hq'⟩ | ⟨-, hq'⟩
    · rw [hq'] at hq
      cases hq
      exact parse_quotation hlen
    · rw [hq'] at hq
      cases hq
  · intro e base r id token sdp
    rcases putAnswer_log e base r id token sdp with ⟨hs, request, cs, hlog, rfl, hbody⟩ | ⟨hno, hlog⟩
    · exact ⟨fun _ => ⟨request, hbody ▸ answer_carries cs, hlog⟩, fun hno => absurd hs hno⟩
    · exact ⟨fun hs => absurd hs hno, fun _ => hlog⟩

/-- An SDP of 200000 times U+0001. -/
def controls : List Char := List.replicate 200000 '\x01'

theorem controls_utf8 (n : Nat) : utf8 (List.replicate n '\x01') = List.replicate n 1 := by
  induction n with
  | zero => rfl
  | succ n ih =>
    rw [List.replicate_succ, List.replicate_succ, utf8_ascii (by decide), ih]
    rfl

theorem controls_quoted (n : Nat) :
    (utf8 ((List.replicate n '\x01').flatMap fun c => (quoted c).1)).length = 6 * n := by
  have hone : utf8 (quoted '\x01').1 = ascii "\\u0001" := by decide
  induction n with
  | zero => rfl
  | succ n ih =>
    rw [List.replicate_succ, List.flatMap_cons, utf8_append, List.length_append, ih, hone, Nat.mul_succ,
      Nat.add_comm]
    rfl

theorem quoted_length (cs : List Char) :
    (utf8 (cs.flatMap fun c => (quoted c).1)).length ≤ (utf8 (answerText cs)).length := by
  rw [← answer_body, quotation, utf8_cons, utf8_append]
  simp only [List.length_append]
  omega

/-- It is valid, it is sent, and the reader refuses the body. -/
theorem control_bytes_refused :
    (∃ cs, utf8 controls = utf8 cs) ∧ ∃ (e : Env) (request : HttpRequest),
      (putAnswer e [] {} (ascii "a") (ascii "t") (utf8 controls)).2.log = [.request request] ∧
        parse request.body = .error .thrown := by
  have hlength : (utf8 controls).length = 200000 := by
    rw [controls, controls_utf8, List.length_replicate]
  have hsends : Sends (ascii "a") (ascii "t") (utf8 controls) := by
    refine ⟨by decide, ?_, by omega, ⟨_, rfl⟩, by decide, by decide⟩
    intro hnil
    rw [hnil] at hlength
    cases hlength
  refine ⟨⟨controls, rfl⟩, ⟨fun _ => false, fun _ _ => .ok {}, fun _ _ _ => none, fun _ _ => 0⟩, ?_⟩
  rcases putAnswer_log _ [] {} (ascii "a") (ascii "t") (utf8 controls) with
    ⟨-, request, cs, hlog, hcs, hbody⟩ | ⟨hno, -⟩
  swap
  · exact absurd hsends hno
  obtain rfl := utf8_inj hcs
  refine ⟨request, hlog, ?_⟩
  have hlong : 1024 * 1024 < (utf8 (answerText controls)).length := by
    have hmany := controls_quoted 200000
    have hlower := quoted_length controls
    rw [controls] at hlower ⊢
    omega
  rw [hbody]
  exact (answer_carries controls).refused hlong

end KmVirtualCamera.L4.SignalingRun
