import Mathlib
import KmVirtualCamera.L2Machine.RtpRules

/-!
# A change of the SSRC forgets everything before it

`Reset` clears the flags and the buffers and leaves `timestamp_`, `sequence_`
and `fuHeader_` as they are. The first packet of the new SSRC writes the former
two before anything reads them. `fuHeader_` stays, but it is compared only
while a unit is in fragments, and the first fragment has written it.

`Forgets f` says that `f` does the same from a state with another, stale
`fuHeader_` and after another log. Every call does (`forgets_call`).

* `ssrc_isolated`: from the first packet of another SSRC on, the callbacks are
  those of a fresh depacketizer.
-/
namespace KmVirtualCamera.L2.RtpVideo
open KmVirtualCamera.L1.RtpWire
open KmVirtualCamera.L1.H264 (naluType appendAnnexB)

inductive Output where
  /-- the frame callback -/
  | accessUnit (data : Bytes) (timestamp : UInt32)
  /-- the keyframe request callback -/
  | keyframeRequest
  deriving DecidableEq

/-- The callbacks made. -/
def callbacks (l : Log) : List Output := l.filterMap fun
  | .emit e => some (.accessUnit e.data e.timestamp)
  | .keyframe => some .keyframeRequest
  | _ => none

theorem callbacks_append (l m : Log) : callbacks (l ++ m) = callbacks l ++ callbacks m := List.filterMap_append ..

/-! ## A stale header -/

def Depacketizer.refu (s : Depacketizer) (header : UInt8) : Depacketizer := { s with fuHeader := header }

variable (header : UInt8) (s : Depacketizer) (l : Log)

@[simp] theorem refu_au : (s.refu header).au = s.au := rfl

@[simp] theorem refu_fu : (s.refu header).fu = s.fu := rfl

theorem emit_refu : emit (s.refu header) l = ((emit s l).1.refu header, (emit s l).2) := by
  have hgood : good (s.refu header) ↔ good s := Iff.rfl
  have hmissing : missing (s.refu header) = missing s := rfl
  unfold emit
  simp only [hgood, hmissing, refu_au]
  split
  · split
    · rfl
    · split
      · rfl
      · rfl
  · rfl

theorem note_refu (n : Bytes) : (s.refu header).note n = (s.note n).refu header := by
  unfold Depacketizer.note
  show (if naluType n = 7 then _ else _) = _
  by_cases h7 : naluType n = 7
  · rw [if_pos h7, if_pos h7]
    rfl
  · rw [if_neg h7, if_neg h7]
    by_cases h8 : naluType n = 8
    · rw [if_pos h8, if_pos h8]
      rfl
    · rw [if_neg h8, if_neg h8]

theorem appendNalu_refu (n : Bytes) :
    appendNalu (s.refu header) l n = (appendNalu s l n).map fun c => (c.1.refu header, c.2) := by
  unfold appendNalu
  rw [note_refu, refu_au]
  split
  · rfl
  · split
    · rfl
    · rfl

/-- Appending leaves the fragments in progress alone. -/
theorem appendNalu_fu {s : Depacketizer} {l : Log} {n : Bytes} {c : Depacketizer × Log}
    (h : appendNalu s l n = some c) : c.1.fu = s.fu := by
  obtain ⟨-, -, -, -, rfl⟩ := appendNalu_some h
  show (s.note n).fu = s.fu
  unfold Depacketizer.note
  split
  · rfl
  · split
    · rfl
    · rfl

/-- The result is the same up to a header that nothing is going to read. -/
def Stale (c c' : (Depacketizer × Log) × Bool) : Prop :=
  ∃ header, c' = ((c.1.1.refu header, c.1.2), c.2) ∧ (c.1.1.fu = [] ∨ header = c.1.1.fuHeader)

theorem stale_refused {s : Depacketizer} (hfu : s.fu = []) :
    Stale ((s, l), false) ((s.refu header, l), false) := ⟨header, rfl, .inl hfu⟩

theorem stale_same (c : (Depacketizer × Log) × Bool) : Stale c c := ⟨c.1.1.fuHeader, rfl, .inr rfl⟩

theorem stale_appendAll : ∀ (ns : List Bytes) {s : Depacketizer} (l : Log), s.fu = [] →
    Stale (appendAll s l ns) (appendAll (s.refu header) l ns)
  | [], _, _, hfu => ⟨header, rfl, .inl hfu⟩
  | n :: ns, s, l, hfu => by
    unfold appendAll
    rw [appendNalu_refu]
    cases ha : appendNalu s l n with
    | none => exact stale_refused header l hfu
    | some c => exact stale_appendAll ns c.2 ((appendNalu_fu ha).trans hfu)

theorem stale_fuA {s : Depacketizer} (hfu : s.fu = []) (p : Bytes) :
    Stale (fuA s l p) (fuA (s.refu header) l p) := by
  unfold fuA
  split
  · rename_i p0 p1 p2 data
    simp only
    split
    · exact stale_refused header l hfu
    · split
      · -- the first fragment writes the header
        rw [if_neg (by simp [hfu]), if_neg (by simp [hfu])]
        exact stale_same _
      · rw [if_pos (.inl hfu), if_pos (.inl hfu)]
        exact stale_refused header l hfu
  · exact stale_refused header l hfu

theorem stale_payload {s : Depacketizer} (hfu : s.fu = []) (p : Bytes) :
    Stale (payload s l p) (payload (s.refu header) l p) := by
  unfold payload
  simp only
  split
  · unfold single
    rw [if_neg (by simp [hfu]), if_neg (by simp [hfu]), appendNalu_refu]
    cases ha : appendNalu s l p with
    | none => exact stale_refused header l hfu
    | some c => exact ⟨header, rfl, .inl ((appendNalu_fu ha).trans hfu)⟩
  · split
    · unfold stapA
      cases stapNalus p.length 0 p.tail with
      | none => exact stale_refused header l hfu
      | some ns =>
        simp only
        rw [refu_fu, refu_au]
        split
        · exact stale_appendAll header ns l hfu
        · exact stale_refused header l hfu
    · split
      · exact stale_fuA header l hfu p
      · exact stale_refused header l hfu

/-! ## What does not depend on it -/

def Forgets (f : Depacketizer → Log → Depacketizer × Log) : Prop :=
  ∀ (header : UInt8) (s : Depacketizer) (pre l : Log), s.fu = [] ∨ header = s.fuHeader →
    ∃ header', f (s.refu header) (pre ++ l) = ((f s l).1.refu header', pre ++ (f s l).2) ∧
      ((f s l).1.fu = [] ∨ header' = (f s l).1.fuHeader)

theorem Forgets.comp {f g : Depacketizer → Log → Depacketizer × Log} (hf : Forgets f) (hg : Forgets g) :
    Forgets fun s l => g (f s l).1 (f s l).2 := by
  intro header s pre l hs
  obtain ⟨h', he, hs'⟩ := hf header s pre l hs
  obtain ⟨h'', he', hs''⟩ := hg h' (f s l).1 pre (f s l).2 hs'
  exact ⟨h'', by beta_reduce; rw [he]; exact he', hs''⟩

/-- A condition that the header has no part in. -/
theorem Forgets.ite {Q : Depacketizer → Prop} [DecidablePred Q] {f g : Depacketizer → Log → Depacketizer × Log}
    (hQ : ∀ header s, Q (s.refu header) ↔ Q s) (hf : Forgets f) (hg : Forgets g) :
    Forgets fun s l => if Q s then f s l else g s l := by
  intro header s pre l hs
  simp only [hQ]
  split
  · exact hf header s pre l hs
  · exact hg header s pre l hs

theorem forgets_id : Forgets Prod.mk := fun header _ _ _ hs => ⟨header, rfl, hs⟩

theorem forgets_log (x : Event) : Forgets fun s l => (s, l ++ [x]) :=
  fun header s pre l hs => ⟨header, by beta_reduce; rw [List.append_assoc], hs⟩

theorem forgets_lose : Forgets lose := fun header s pre l _ =>
  ⟨header, by unfold lose; rw [List.append_assoc]; rfl, .inl rfl⟩

theorem emit_shift (pre : Log) : emit s (pre ++ l) = ((emit s l).1, pre ++ (emit s l).2) := by
  have hlink : (emit s l).1.link = s.link := finish_link (s, l) true
  have hmoved := emit_moved s.link pre s l
  rw [relink_link, moved, ← hlink, relink_link] at hmoved
  exact hmoved

theorem payload_shift (pre : Log) (p : Bytes) :
    payload s (pre ++ l) p = (((payload s l p).1.1, pre ++ (payload s l p).1.2), (payload s l p).2) := by
  have hmoved := payload_moved s.link pre s l p
  rw [relink_link, movedOk, moved, ← payload_link s l p, relink_link] at hmoved
  exact hmoved

theorem emit_fu : (emit s l).1.fu = [] := by
  unfold emit
  simp only
  repeat' split
  all_goals rfl

theorem forgets_emit : Forgets emit := fun header s pre l _ =>
  ⟨header, by rw [emit_shift, emit_refu], .inl (emit_fu s l)⟩

theorem settle_shift (c : (Depacketizer × Log) × Bool) (pre : Log) :
    settle ((c.1.1, pre ++ c.1.2), c.2) = ((settle c).1, pre ++ (settle c).2) := by
  unfold settle
  split
  · rfl
  · simp [lose]

theorem forgets_payload (p : Bytes) : Forgets fun s l => settle (payload s l p) := by
  intro header s pre l hs
  rcases hs with hfu | rfl
  · obtain ⟨h', he, hfu'⟩ := stale_payload header l hfu p
    simp only
    rw [payload_shift, settle_shift, he]
    unfold settle
    split
    · exact ⟨h', rfl, hfu'⟩
    · exact ⟨h', rfl, .inl rfl⟩
  · refine ⟨(settle (payload s l p)).1.fuHeader, ?_, .inr rfl⟩
    show settle (payload s (pre ++ l) p) = _
    rw [payload_shift, settle_shift]
    rfl

/-! ## Calls -/

variable (p : RtpPacket)

theorem forgets_finish (marker : Bool) : Forgets fun s l => finish (s, l) marker := by
  have hlast : Forgets fun s l => ({ s with haveTimestamp := false }, l) := fun header _ _ _ hs => ⟨header, rfl, hs⟩
  cases marker with
  | true => exact forgets_emit.comp hlast
  | false => exact forgets_id

theorem forgets_consume : Forgets fun s l => consume s l p := by
  have hrefuse : Forgets fun s l => lose s (l ++ [.rejected]) := (forgets_log .rejected).comp forgets_lose
  simp only [consume_eq]
  by_cases hf : p.payload.headD 0 &&& 128 ≠ 0
  · simpa only [if_pos hf] using hrefuse
  · simpa only [if_neg hf] using (forgets_payload p.payload).comp (forgets_finish p.marker)

theorem forgets_lost (Q : Prop) [Decidable Q] : Forgets fun s l => lost Q (s, l) := by
  unfold lost
  split
  · exact forgets_lose
  · exact forgets_id

theorem forgets_boundary (gap : Bool) : Forgets fun s l => boundary s l p gap := by
  have hcut : Forgets fun s l => if gap = true ∨ s.fu ≠ [] then lose s l else (s, l) :=
    Forgets.ite (fun _ _ => Iff.rfl) forgets_lose forgets_id
  exact Forgets.ite (Q := fun s => s.haveTimestamp = true ∧ p.timestamp ≠ s.timestamp) (fun _ _ => Iff.rfl)
    (hcut.comp forgets_emit) forgets_id

theorem forgets_take : Forgets fun s l => take p (s, l) := by
  have hskip : Forgets fun s l => ({ clearAu s with haveTimestamp := false }, l) :=
    fun header _ _ _ _ => ⟨header, rfl, .inl rfl⟩
  exact Forgets.ite (Q := fun s => s.damaged = true) (fun _ _ => Iff.rfl)
    (Forgets.ite (Q := fun _ => p.marker = true) (fun _ _ => Iff.rfl) hskip forgets_id) (forgets_consume p)

theorem forgets_accept (gap : Bool) : Forgets fun s l => accept s l p gap := by
  have hnumber : Forgets fun s l => (numbered s p, l) := fun header _ _ _ hs => ⟨header, rfl, hs⟩
  have hstamp : Forgets fun s l => stamp p (s, l) := fun header _ _ _ hs => ⟨header, rfl, hs⟩
  exact ((((hnumber.comp (forgets_boundary p gap)).comp (forgets_log (.accepted p.sequence))).comp hstamp).comp
    (forgets_lost (gap = true))).comp (forgets_take p)

theorem forgets_entered : Forgets fun s l => entered s l p := by
  have hreset : Forgets fun s l => (reset s, l ++ [.ssrcChange]) :=
    fun header s pre l _ => ⟨header, by beta_reduce; rw [List.append_assoc]; rfl, .inl rfl⟩
  have hsource : Forgets fun s l => ({ s with haveSsrc := true, ssrc := p.ssrc }, l) :=
    fun header _ _ _ hs => ⟨header, rfl, hs⟩
  exact (Forgets.ite (Q := fun s => s.haveSsrc = true ∧ p.ssrc ≠ s.ssrc) (fun _ _ => Iff.rfl) hreset
    forgets_id).comp hsource

theorem forgets_numbered : Forgets fun s l => match gapBefore s p with
    | none => (s, l)
    | some gap => accept s l p gap := by
  intro header s pre l hs
  have hgap : gapBefore (s.refu header) p = gapBefore s p := rfl
  simp only [hgap]
  cases gapBefore s p with
  | none => exact forgets_id header s pre l hs
  | some gap => exact forgets_accept p gap header s pre l hs

theorem forgets_packet (bytes : Bytes) : Forgets fun s l => processRtpPacket s l bytes := by
  cases hp : parseRtp bytes with
  | none =>
    have hdrop : ∀ s l, processRtpPacket s l bytes = lose s (l ++ [.unparsed]) := by
      intro s l
      unfold processRtpPacket
      rw [hp]
    simp only [hdrop]
    exact (forgets_log .unparsed).comp forgets_lose
  | some p =>
    simp only [process_parsed hp]
    exact (forgets_entered p).comp (forgets_numbered p)

theorem forgets_call (a : Call) : Forgets fun s l => call (s, l) a := by
  cases a with
  | packet bytes => exact forgets_packet bytes
  | reset => exact fun header s pre l _ => ⟨header, by simp only [call]; rw [List.append_assoc]; rfl, .inl rfl⟩

theorem forgets_calls (cs : List Call) : Forgets fun s l => cs.foldl call (s, l) := by
  induction cs with
  | nil => exact forgets_id
  | cons a cs ih => exact (forgets_call a).comp ih

/-! ## The switch -/

theorem calls_shift (cs : List Call) (s : Depacketizer) (l : Log) :
    (cs.foldl call (s, l)).2 = l ++ (cs.foldl call (s, [])).2 := by
  obtain ⟨_, he, _⟩ := forgets_calls cs s.fuHeader s l [] (.inr rfl)
  rw [List.append_nil] at he
  exact congrArg Prod.snd he

/-- A datagram that does not parse asks for a keyframe, and the SSRC stays. -/
theorem unparsed_run (junk : List Bytes) (hjunk : ∀ b ∈ junk, parseRtp b = none) :
    ∀ (c : Depacketizer × Log), callbacks ((junk.map Call.packet).foldl call c).2 =
      callbacks c.2 ++ List.replicate junk.length .keyframeRequest ∧
      ((junk.map Call.packet).foldl call c).1.link = c.1.link := by
  induction junk with
  | nil => exact fun c => ⟨by simp, rfl⟩
  | cons b junk ih =>
    intro c
    obtain ⟨hout, hlink⟩ := ih (fun b' hb' => hjunk b' (List.mem_cons_of_mem _ hb')) (call c (.packet b))
    have hb : call c (.packet b) = lose c.1 (c.2 ++ [.unparsed]) := by
      unfold call processRtpPacket
      simp only
      rw [hjunk b (List.mem_cons_self ..)]
    have hone : callbacks (call c (.packet b)).2 = callbacks c.2 ++ [.keyframeRequest] := by
      rw [hb]
      show callbacks (c.2 ++ [.unparsed] ++ [.keyframe]) = _
      rw [callbacks_append, callbacks_append]
      exact congrArg (· ++ _) (List.append_nil _)
    rw [List.map_cons, List.foldl_cons]
    refine ⟨?_, hlink.trans (by rw [hb]; rfl)⟩
    rw [hout, hone, List.append_assoc, List.length_cons, List.replicate_succ]
    rfl

/-- The first packet of another SSRC, on a depacketizer in any state and on a
fresh one. -/
theorem switch_packet {s : Depacketizer} {bytes : Bytes} {p : RtpPacket} (hp : parseRtp bytes = some p)
    (hssrc : s.haveSsrc = true ∧ p.ssrc ≠ s.ssrc) (l : Log) :
    ∃ header d, (processRtpPacket s l bytes).2 = l ++ [.ssrcChange] ++ d ∧
      (processRtpPacket {} [] bytes).2 = d ∧
      (processRtpPacket s l bytes).1 = (processRtpPacket {} [] bytes).1.refu header ∧
      ((processRtpPacket {} [] bytes).1.fu = [] ∨ header = (processRtpPacket {} [] bytes).1.fuHeader) := by
  -- what is looked at is the state after the header fields are written
  have htake := forgets_take p s.fuHeader (arrived (entered {} [] p).1 [] p false).1 (l ++ [.ssrcChange])
    [.accepted p.sequence] (.inl rfl)
  obtain ⟨header, he, hs⟩ := htake
  have hold : processRtpPacket s l bytes = accept (entered s l p).1 (entered s l p).2 p false := by
    rw [process_parsed hp]
    unfold entered
    rw [if_pos hssrc]
    rfl
  have hnew : processRtpPacket {} [] bytes =
      take p ((arrived (entered {} [] p).1 [] p false).1, [.accepted p.sequence]) := by
    rw [process_parsed hp]
    rfl
  have hstart : processRtpPacket s l bytes = take p
      ((arrived (entered {} [] p).1 [] p false).1.refu s.fuHeader, l ++ [.ssrcChange] ++ [.accepted p.sequence]) := by
    rw [hold, accept_arrived]
    unfold entered
    rw [if_pos hssrc]
    rfl
  refine ⟨header, _, ?_, rfl, ?_, ?_⟩
  · rw [hstart, hnew]
    exact congrArg Prod.snd he
  · rw [hstart, hnew]
    exact congrArg Prod.fst he
  · rw [hnew]
    exact hs

/-- **Isolation.** After any history, and datagrams that do not parse, a packet
of another SSRC and whatever follows it give the callbacks they give on a fresh
depacketizer. -/
theorem ssrc_isolated (history : List Call) (junk : List Bytes) (first : Bytes) (p : RtpPacket)
    (rest : List Call) (hjunk : ∀ b ∈ junk, parseRtp b = none) (hp : parseRtp first = some p)
    (hssrc : (run history).1.haveSsrc = true ∧ p.ssrc ≠ (run history).1.ssrc) :
    callbacks (run (history ++ junk.map Call.packet ++ .packet first :: rest)).2 =
      callbacks (run history).2 ++ List.replicate junk.length .keyframeRequest ++
        callbacks (run (.packet first :: rest)).2 := by
  obtain ⟨hout, hlink⟩ := unparsed_run junk hjunk (run history)
  unfold run at hout hlink hssrc ⊢
  rw [List.foldl_append, List.foldl_append, List.foldl_cons, List.foldl_cons, ← hout]
  generalize (junk.map Call.packet).foldl call (history.foldl call ({}, [])) = c at hlink ⊢
  injection hlink with hhave hsource
  obtain ⟨header, d, hlog, hfresh, hstate, hfu⟩ := switch_packet (s := c.1) (l := c.2) hp
    ⟨hhave.trans hssrc.1, by rw [hsource]; exact hssrc.2⟩
  have hc : call c (.packet first) = ((processRtpPacket {} [] first).1.refu header, c.2 ++ [.ssrcChange] ++ d) :=
    Prod.ext hstate hlog
  have hf : call ({}, []) (.packet first) = ((processRtpPacket {} [] first).1, d) := Prod.ext rfl hfresh
  obtain ⟨_, he, _⟩ := forgets_calls rest header (processRtpPacket {} [] first).1 (c.2 ++ [.ssrcChange]) d hfu
  rw [hc, hf]
  have hrest := congrArg Prod.snd he
  simp only at hrest
  rw [hrest, callbacks_append, callbacks_append, calls_shift rest _ d]
  simp [callbacks]

/-- The first fragment of an IDR slice, of SSRC 7. -/
def openFragment : Bytes := [0x80, 0x60, 0, 1, 0, 0, 0, 7, 0, 0, 0, 7, 0x7C, 0x85, 1]

/-- A later fragment of SSRC 8 that would continue it. -/
def otherFragment : Bytes := [0x80, 0xE0, 0, 2, 0, 0, 0, 7, 0, 0, 0, 8, 0x7C, 0x45, 2]

theorem ssrc_isolated_fragment :
    callbacks (run ([.packet openFragment] ++ [[1]].map Call.packet ++ [.packet otherFragment])).2 =
      [.keyframeRequest] ++ callbacks (run [.packet otherFragment]).2 :=
  ssrc_isolated [.packet openFragment] [[1]] otherFragment _ [] (by decide) rfl (by decide)

end KmVirtualCamera.L2.RtpVideo
