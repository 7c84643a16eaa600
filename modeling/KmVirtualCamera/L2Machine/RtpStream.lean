import Mathlib
import KmVirtualCamera.L2Machine.RtpReassembly
import KmVirtualCamera.L2Machine.RtpSizes

/-!
# What the packets carry, and what is made of it

`heard` reads the calls of a run without the depacketizer: which packets are
ahead of those before them, and which of these belong to one access unit.
`carried` reads the NAL units off their payloads and joins the fragments as they
come. Neither knows of a loss or refuses anything.

`Ledger` says which emissions these access units can make: all of one, and one
without an IDR only when since the emission before no number is missing and no
slice was passed over.

* `ledger_run`: the emissions of every run are such.
* `sets_received`: the parameter sets of an emission are the last received.
* `emissions_sound`: nothing that cannot be decoded is emitted.
-/
namespace KmVirtualCamera.L2.RtpVideo
open KmVirtualCamera.ByteOrder KmVirtualCamera.L1.RtpWire
open KmVirtualCamera.L1.H264 (validNalu naluType appendAnnexB annexB)

/-! ## What payloads carry -/

/-- The units of a STAP-A packet, each behind its 16-bit length. -/
def aggregated : Nat → Bytes → List Bytes
  | fuel + 1, b0 :: b1 :: rest =>
    let length := (be16 b0 b1).toNat
    rest.take length :: aggregated fuel (rest.drop length)
  | _, _ => []

/-- A payload after the fragments `fu`: the units that are whole with it, and
the fragments of one that is not. -/
def carriedBy (fu p : Bytes) : List Bytes × Bytes :=
  if naluType p = 24 then (aggregated p.length p.tail, fu)
  else if naluType p = 28 then
    match p with
    | p0 :: p1 :: data =>
      let unit := (if p1 &&& 128 ≠ 0 then [(p0 &&& 224) ||| (p1 &&& 31)] else fu) ++ data
      if p1 &&& 64 ≠ 0 then ([unit], []) else ([], unit)
    | _ => ([], fu)
  else ([p], fu)

def gather (c : List Bytes × Bytes) (p : Bytes) : List Bytes × Bytes :=
  (c.1 ++ (carriedBy c.2 p).1, (carriedBy c.2 p).2)

/-- The units that packets carry, and the fragments left over. -/
def carried (ps : List RtpPacket) : List Bytes × Bytes := (ps.map (·.payload)).foldl gather ([], [])

theorem carried_snoc (ps : List RtpPacket) (p : RtpPacket) : carried (ps ++ [p]) = gather (carried ps) p.payload := by
  unfold carried
  rw [List.map_append, List.foldl_append]
  rfl

/-! ## Which packets count -/

/-- The newest packet, the access unit it is of, and those that have ended. -/
structure Hearing where
  newest : Option RtpPacket := none
  unit : List RtpPacket := []
  ended : List (List RtpPacket) := []

/-- The access unit ends. -/
def Hearing.cut (h : Hearing) : Hearing :=
  if h.unit = [] then h else { h with unit := [], ended := h.ended ++ [h.unit] }

/-- The access unit ends where the timestamp changes. -/
def Hearing.turn (h : Hearing) (p : RtpPacket) : Hearing :=
  if ∀ q ∈ h.unit, q.timestamp = p.timestamp then h else h.cut

def Hearing.push (h : Hearing) (p : RtpPacket) : Hearing := { h with newest := some p, unit := h.unit ++ [p] }

/-- And at the marker. -/
def Hearing.take (h : Hearing) (p : RtpPacket) : Hearing :=
  let h := (h.turn p).push p
  if p.marker then h.cut else h

def Hearing.restart (h : Hearing) : Hearing := { h.cut with newest := none }

/-- Another SSRC starts over. A packet counts if it is ahead of the newest. -/
def Hearing.packet (h : Hearing) (p : RtpPacket) : Hearing :=
  let h := if ∀ q ∈ h.newest, q.ssrc = p.ssrc then h else h.restart
  if ∀ q ∈ h.newest, 0 < sequenceDelta p.sequence q.sequence then h.take p else h

def Hearing.hear (h : Hearing) : Call → Hearing
  | .packet bytes => match parseRtp bytes with
    | some p => h.packet p
    | none => h
  | .reset => h.restart

def heard (cs : List Call) : Hearing := cs.foldl Hearing.hear {}

/-- `b` comes right after `a`. -/
def Next (a b : RtpPacket) : Prop := b.ssrc = a.ssrc ∧ b.sequence = a.sequence + 1

/-! ## What can be made of them -/

/-- The emission is the access unit: its packets follow one another, and the
data are the units they carry, with the sets an IDR is short of before them. -/
structure Emission.Of (e : Emission) (u : List RtpPacket) : Prop where
  timestamp : ∀ p ∈ u, p.timestamp = e.timestamp
  next : u.IsChain Next
  whole : (carried u).2 = []
  nalus : e.nalus = prepended e.sps e.pps (carried u).1 ++ (carried u).1
  data : e.data = annexB e.nalus

/-- The access units that have ended, the emissions made of them, and the last
packet of all, provided that since the last emission every packet came right
after the one before and that no access unit had a slice or an open fragment. -/
inductive Ledger : List (List RtpPacket) → List Emission → Option RtpPacket → Prop
  | start : Ledger [] [] none
  | emitted {us : List (List RtpPacket)} {es : List Emission} {last : Option RtpPacket} {u : List RtpPacket}
      {e : Emission} (h : Ledger us es last) (of : e.Of u)
      (follows : e.hasIdr ∨ ∃ q, last = some q ∧ (q :: u).IsChain Next) : Ledger (us ++ [u]) (es ++ [e]) u.getLast?
  | passed {us : List (List RtpPacket)} {es : List Emission} {q : RtpPacket} {u : List RtpPacket}
      (h : Ledger us es (some q)) (follows : (q :: u).IsChain Next) (whole : (carried u).2 = [])
      (empty : ∀ n ∈ (carried u).1, isVcl n = false) : Ledger (us ++ [u]) es (q :: u).getLast?
  | dropped {us : List (List RtpPacket)} {es : List Emission} {last : Option RtpPacket} {u : List RtpPacket}
      (h : Ledger us es last) : Ledger (us ++ [u]) es none

/-! ## A payload -/

/-- A payload that is taken adds the units it carries, and keeps its fragments. -/
def Gathers (s : Depacketizer) (l : Log) (p : Bytes) (c : (Depacketizer × Log) × Bool) : Prop :=
  c.2 = true → c.1.1.nalus = s.nalus ++ (carriedBy s.fu p).1 ∧ c.1.1.fu = (carriedBy s.fu p).2 ∧
    c.1.2 = l ++ (carriedBy s.fu p).1.map .nal

section Payload
variable {s : Depacketizer} {l : Log}

theorem appendNalu_gathers {n : Bytes} {c : Depacketizer × Log} (h : appendNalu s l n = some c) :
    c.1.nalus = s.nalus ++ [n] ∧ c.1.fu = s.fu ∧ c.2 = l ++ [.nal n] := by
  obtain ⟨-, -, -, -, rfl⟩ := appendNalu_some h
  obtain ⟨-, -, -, -, hfu, -⟩ := note_spec s n
  exact ⟨rfl, hfu, rfl⟩

theorem appendAll_gathers : ∀ {ns : List Bytes} {s : Depacketizer} {l : Log}, (appendAll s l ns).2 = true →
    (appendAll s l ns).1.1.nalus = s.nalus ++ ns ∧ (appendAll s l ns).1.1.fu = s.fu ∧
      (appendAll s l ns).1.2 = l ++ ns.map .nal
  | [], s, l, _ => ⟨(List.append_nil _).symm, rfl, (List.append_nil _).symm⟩
  | n :: ns, s, l, h => by
    unfold appendAll at h ⊢
    cases ha : appendNalu s l n with
    | none =>
      rw [ha] at h
      cases h
    | some c =>
      rw [ha] at h
      obtain ⟨hnalus, hfu, hlog⟩ := appendNalu_gathers ha
      obtain ⟨hnalus', hfu', hlog'⟩ := appendAll_gathers h
      refine ⟨?_, hfu'.trans hfu, ?_⟩
      · rw [hnalus', hnalus, List.append_assoc]
        rfl
      · rw [hlog', hlog, List.append_assoc]
        rfl

theorem stapNalus_aggregated : ∀ {fuel count : Nat} {b : Bytes} {ns : List Bytes},
    stapNalus fuel count b = some ns → aggregated fuel b = ns
  | fuel, _, [], ns, h => by
    obtain rfl : [] = ns := by cases fuel <;> simpa [stapNalus] using h
    cases fuel <;> rfl
  | 0, _, _ :: _, _, h => by simp [stapNalus] at h
  | _ + 1, _, [_], _, h => by simp [stapNalus] at h
  | fuel + 1, count, b0 :: b1 :: rest, ns, h => by
    unfold stapNalus at h
    simp only at h
    split at h
    · cases h
    · obtain ⟨more, hmore, rfl⟩ := Option.map_eq_some_iff.mp h
      have htail := stapNalus_aggregated hmore
      unfold aggregated
      simp only [htail]

theorem stapA_gathers {p : Bytes} (htype : naluType p = 24) : Gathers s l p (stapA s l p) := by
  intro hok
  unfold stapA at hok ⊢
  unfold carriedBy
  rw [if_pos htype]
  cases hns : stapNalus p.length 0 p.tail with
  | none =>
    rw [hns] at hok
    cases hok
  | some ns =>
    rw [hns] at hok
    simp only at hok ⊢
    rw [stapNalus_aggregated hns]
    split at hok
    · rename_i hfit
      rw [if_pos hfit]
      exact appendAll_gathers hok
    · cases hok

/-- What the fragments make with another one. -/
theorem fuData_gathers {data : Bytes} {last : Bool} (hok : (fuData s l data last).2 = true) :
    let ns := if last then [s.fu ++ data] else []
    (fuData s l data last).1.1.nalus = s.nalus ++ ns ∧
      (fuData s l data last).1.1.fu = (if last then [] else s.fu ++ data) ∧
      (fuData s l data last).1.2 = l ++ ns.map .nal := by
  unfold fuData at hok ⊢
  split at hok
  · cases hok
  · rename_i hfit
    rw [if_neg hfit]
    cases last with
    | false => exact ⟨(List.append_nil _).symm, rfl, (List.append_nil _).symm⟩
    | true =>
      simp only [if_true] at hok ⊢
      cases ha : appendNalu s l (s.fu ++ data) with
      | none =>
        rw [ha] at hok
        cases hok
      | some c =>
        obtain ⟨hnalus, -, hlog⟩ := appendNalu_gathers ha
        exact ⟨hnalus, rfl, hlog⟩

theorem fuA_gathers {p : Bytes} (htype : naluType p = 28) : Gathers s l p (fuA s l p) := by
  intro hok
  have hno : ¬ naluType p = 24 := by
    rw [htype]
    decide
  unfold fuA at hok ⊢
  unfold carriedBy
  rw [if_neg hno, if_pos htype]
  match p with
  | [] => cases hok
  | [_] => cases hok
  | [_, _] => cases hok
  | p0 :: p1 :: p2 :: data =>
    simp only at hok ⊢
    split at hok
    · cases hok
    · rename_i hbits
      rw [if_neg hbits]
      by_cases hfirst : p1 &&& 128 ≠ 0
      · rw [if_pos hfirst] at hok
        simp only [if_pos hfirst]
        split at hok
        · cases hok
        · rename_i hfu
          rw [if_neg hfu]
          have hdata := fuData_gathers hok
          by_cases hlast : p1 &&& 64 ≠ 0
          · simpa [hlast] using hdata
          · simpa [hlast] using hdata
      · rw [if_neg hfirst] at hok
        simp only [if_neg hfirst]
        split at hok
        · cases hok
        · rename_i hheader
          rw [if_neg hheader]
          have hdata := fuData_gathers hok
          by_cases hlast : p1 &&& 64 ≠ 0
          · simpa [hlast] using hdata
          · simpa [hlast] using hdata

/-- **Any payload.** -/
theorem payload_gathers (s : Depacketizer) (l : Log) (p : Bytes) : Gathers s l p (payload s l p) := by
  unfold payload
  simp only
  split
  · rename_i htype
    intro hok
    have hbound : naluType p ≠ 24 ∧ naluType p ≠ 28 := by
      obtain ⟨-, hle⟩ := htype
      rw [UInt8.le_iff_toNat_le] at hle
      constructor <;> intro heq <;> rw [heq] at hle <;> exact absurd hle (by decide)
    unfold single at hok ⊢
    unfold carriedBy
    rw [if_neg hbound.1, if_neg hbound.2]
    split at hok
    · cases hok
    · rename_i hfu
      rw [if_neg hfu]
      cases ha : appendNalu s l p with
      | none =>
        rw [ha] at hok
        cases hok
      | some c => exact appendNalu_gathers ha
  · split
    · exact stapA_gathers ‹_›
    · split
      · exact fuA_gathers ‹_›
      · exact fun hok => nomatch hok

end Payload

/-! ## The parameter sets -/

/-- The last SPS and PPS received from the source. -/
def received (l : Log) : Bytes × Bytes := l.foldl (fun c x => match x with
  | .nal n => noteSets c n
  | .ssrcChange | .reset => ([], [])
  | _ => c) ([], [])

theorem received_snoc (l : Log) (x : Event) : received (l ++ [x]) = match x with
    | .nal n => noteSets (received l) n
    | .ssrcChange | .reset => ([], [])
    | _ => received l := by
  unfold received
  rw [List.foldl_append]
  cases x <;> rfl

/-- The sets are the last received, and the units of its own the last appended. -/
def Emission.Pinned (e : Emission) (l : Log) : Prop :=
  (e.sps, e.pps) = received l ∧ ∃ ns, ns <:+ units l ∧ e.nalus = prepended e.sps e.pps ns ++ ns

/-- What the depacketizer remembers of the sets and of the units appended. -/
structure Noted (s : Depacketizer) (l : Log) : Prop extends Inv s where
  sets : (s.sps, s.pps) = received l
  flags : s.damaged = false → s.hasSps = hasType 7 s.nalus ∧ s.hasPps = hasType 8 s.nalus
  tail : s.nalus <:+ units l
  pinned : EachAfter (fun pre x => ∀ e, x = .emit e → e.Pinned pre) l

theorem units_append (l m : Log) : units (l ++ m) = units l ++ units m := List.filterMap_append

theorem units_snoc {x : Event} (hx : units [x] = []) (l : Log) : units (l ++ [x]) = units l := by
  rw [units_append, hx, List.append_nil]

theorem units_nals (ns : List Bytes) : units (ns.map .nal) = ns := by
  unfold units
  rw [List.filterMap_map]
  exact List.filterMap_some

theorem emissions_nals (ns : List Bytes) : emissions (ns.map .nal) = [] := by
  induction ns with
  | nil => rfl
  | cons n ns ih => exact ih

/-- The sets an undamaged access unit is short of. -/
theorem Noted.missing {s : Depacketizer} {l : Log} (h : Noted s l) (hd : s.damaged = false) :
    missing s = prepended s.sps s.pps s.nalus := by
  obtain ⟨h7, h8⟩ := h.flags hd
  have h5 : s.idr = hasType 5 s.nalus := by
    rw [Bool.eq_iff_iff, h.idr hd]
    simp [hasType]
  unfold RtpVideo.missing prepended
  rw [h5, h7, h8]

/-- The log grows by an event that says nothing of units and sets. -/
theorem Noted.quiet {s : Depacketizer} {l : Log} (h : Noted s l) {x : Event} (hx : ∀ e, x ≠ .emit e)
    (hsets : received (l ++ [x]) = received l) (hunits : units [x] = []) : Noted s (l ++ [x]) where
  toInv := h.toInv
  sets := h.sets.trans hsets.symm
  flags := h.flags
  tail := by
    rw [units_snoc hunits]
    exact h.tail
  pinned := h.pinned.snoc fun e he => absurd he (hx e)

/-- The access unit is given up. -/
theorem Noted.empty {s s' : Depacketizer} {l : Log} (h : Noted s l) (hinv : Inv s')
    (hsets : (s'.sps, s'.pps) = (s.sps, s.pps)) (hnone : s'.nalus = [])
    (hflags : s'.damaged = false → s'.hasSps = false ∧ s'.hasPps = false) : Noted s' l where
  toInv := hinv
  sets := hsets.trans h.sets
  flags hd := by
    rw [hnone]
    exact hflags hd
  tail := by
    rw [hnone]
    exact List.nil_suffix
  pinned := h.pinned

theorem noted_stable : Stable Noted where
  append {s l n c} h ha := by
    have hinv := inv_append h.toInv ha
    obtain ⟨-, -, -, -, rfl⟩ := appendNalu_some ha
    obtain ⟨hsets, hsps, hpps, -, -, -, hdamaged, -⟩ := note_spec s n
    have hunits : units (l ++ [.nal n]) = units l ++ [n] := units_append l [.nal n]
    refine ⟨hinv, ?_, ?_, ?_, h.pinned.snoc fun e he => nomatch he⟩
    · rw [received_snoc]
      exact hsets.trans (congrArg (noteSets · n) h.sets)
    · intro hd
      obtain ⟨h7, h8⟩ := h.flags (hdamaged.symm.trans hd)
      rw [hasType_append, hasType_append, ← h7, ← h8]
      exact ⟨hsps, hpps⟩
    · obtain ⟨before, hbefore⟩ := h.tail
      rw [hunits]
      exact ⟨before, by rw [← hbefore, List.append_assoc]⟩
  fragment {s l} fu header h hfu :=
    ⟨inv_stable.fragment (l := l) fu header h.toInv hfu, h.sets, h.flags, h.tail, h.pinned⟩
  init := ⟨inv_reset {}, rfl, fun _ => ⟨rfl, rfl⟩, List.nil_suffix, eachAfter_nil _⟩
  reset {s l} x h hx := by
    refine ⟨inv_reset s, ?_, fun _ => ⟨rfl, rfl⟩, List.nil_suffix, h.pinned.snoc ?_⟩
    · rw [received_snoc]
      rcases hx with rfl | rfl <;> rfl
    · intro e he
      rcases hx with rfl | rfl <;> cases he
  lose {s l} why h hwhy := by
    have hwhy' : Noted s (l ++ why) := by
      rcases hwhy with rfl | rfl | rfl
      · rwa [List.append_nil]
      · exact h.quiet (fun e he => nomatch he) (received_snoc l _) rfl
      · exact h.quiet (fun e he => nomatch he) (received_snoc l _) rfl
    have hlogged := hwhy'.quiet (x := .keyframe) (fun e he => nomatch he) (received_snoc _ _) rfl
    exact hlogged.empty (inv_lose h.toInv _) rfl rfl fun hd => nomatch hd
  emit {s l} h := by
    rcases emit_handedOver h.toInv l with ⟨hh, he⟩ | ⟨-, w, he, -⟩
    · rw [he]
      have hpinned : s.emission.Pinned l :=
        ⟨h.sets, s.nalus, h.tail, congrArg (· ++ s.nalus) (h.missing hh.1.1)⟩
      refine ⟨inv_clearAu h.toInv _, ?_, fun _ => ⟨rfl, rfl⟩, List.nil_suffix, h.pinned.snoc ?_⟩
      · rw [received_snoc]
        exact h.sets
      · intro e hx
        obtain rfl := Event.emit.inj hx
        exact hpinned
    · rw [he]
      have hlogged : Noted s (l ++ if w then [.keyframe] else []) := by
        cases w with
        | false =>
          rw [if_neg Bool.false_ne_true, List.append_nil]
          exact h
        | true => exact h.quiet (fun e hx => nomatch hx) (received_snoc l _) rfl
      exact hlogged.empty (inv_clearAu h.toInv _) rfl rfl fun _ => ⟨rfl, rfl⟩
  skip {s l} h _ := h.empty (inv_clearAu h.toInv _) rfl rfl fun _ => ⟨rfl, rfl⟩
  accepted {s l} q h := h.quiet (fun e hx => nomatch hx) (received_snoc l _) rfl
  header {s l} t ssrc q a b d h :=
    ⟨inv_stable.header (l := l) t ssrc q a b d h.toInv, h.sets, h.flags, h.tail, h.pinned⟩

/-- **The sets of an emission** are the last received before it. -/
theorem sets_received (cs : List Call) :
    EachAfter (fun pre x => ∀ e, x = .emit e → e.Pinned pre) (run cs).2 :=
  (noted_stable.run cs).pinned

/-! ## The access unit in progress -/

section Cut
variable (h : Hearing)

theorem cut_newest : h.cut.newest = h.newest := by
  unfold Hearing.cut
  split <;> rfl

theorem cut_unit : h.cut.unit = [] := by
  unfold Hearing.cut
  split
  · assumption
  · rfl

/-- Every access unit, with the one in progress. -/
def Hearing.units : List (List RtpPacket) := h.ended ++ [h.unit]

/-- The unit was carried by the packets of one access unit. -/
def Hearing.Carried (n : Bytes) : Prop := ∃ u ∈ h.units, n ∈ (carried u).1

theorem cut_carried {h : Hearing} {n : Bytes} (hn : h.Carried n) : h.cut.Carried n := by
  obtain ⟨u, hu, hmem⟩ := hn
  refine ⟨u, ?_, hmem⟩
  unfold Hearing.units Hearing.cut at *
  split
  · exact hu
  · exact List.mem_append_left _ hu

end Cut

/-- What the depacketizer holds of the access unit in progress. Of a damaged one
it holds nothing, and then it waits. -/
structure Told (h : Hearing) (last : Option RtpPacket) (s : Depacketizer) (l : Log) : Prop extends Noted s l where
  newest : ∀ q ∈ h.unit.getLast?, h.newest = some q
  gathered : s.damaged = false → carried h.unit = (s.nalus, s.fu) ∧ h.unit.IsChain Next
  chain : s.waiting = false → ∃ q, last = some q ∧ (q :: h.unit).IsChain Next ∧ h.newest = (q :: h.unit).getLast?
  ledger : Ledger h.ended (emissions l) last
  logged : ∀ n ∈ units l, h.Carried n

section Told
variable {h : Hearing} {last : Option RtpPacket} {s : Depacketizer} {l : Log}

/-- Nothing is held of a damaged access unit. -/
theorem told_damaged (hnoted : Noted s l) (hd : s.damaged = true) (hnew : ∀ q ∈ h.unit.getLast?, h.newest = some q)
    (hledger : Ledger h.ended (emissions l) last) (hlogged : ∀ n ∈ units l, h.Carried n) : Told h last s l where
  toNoted := hnoted
  newest := hnew
  gathered hno := by
    rw [hd] at hno
    cases hno
  chain hw := by
    rw [hnoted.damaged hd] at hw
    cases hw
  ledger := hledger
  logged := hlogged

theorem Told.lose (ht : Told h last s l) (why : Log) (hwhy : why = [] ∨ why = [.unparsed] ∨ why = [.rejected]) :
    Told h last (lose s (l ++ why)).1 (lose s (l ++ why)).2 := by
  refine told_damaged (noted_stable.lose why ht.toNoted hwhy) rfl ht.newest ?_ ?_
  · rw [emissions_lose, emissions_append]
    rcases hwhy with rfl | rfl | rfl
    all_goals
      show Ledger h.ended (emissions l ++ []) last
      rw [List.append_nil]
      exact ht.ledger
  · have hunits : units (RtpVideo.lose s (l ++ why)).2 = units l := by
      rcases hwhy with rfl | rfl | rfl <;> simp [units, RtpVideo.lose]
    rw [hunits]
    exact ht.logged

theorem Told.lost (ht : Told h last s l) (Q : Prop) [Decidable Q] :
    Told h last (lost Q (s, l)).1 (lost Q (s, l)).2 := by
  unfold RtpVideo.lost
  split
  · have hl := ht.lose [] (.inl rfl)
    rwa [List.append_nil] at hl
  · exact ht

theorem Told.header (ht : Told h last s l) (timestamp ssrc : UInt32) (sequence : UInt16)
    (haveSsrc haveSequence haveTimestamp : Bool) :
    Told h last { s with timestamp := timestamp, ssrc := ssrc, sequence := sequence, haveSsrc := haveSsrc,
                         haveSequence := haveSequence, haveTimestamp := haveTimestamp } l :=
  ⟨noted_stable.header timestamp ssrc sequence haveSsrc haveSequence haveTimestamp ht.toNoted, ht.newest, ht.gathered,
    ht.chain, ht.ledger, ht.logged⟩

theorem Told.accepted (ht : Told h last s l) (q : UInt16) : Told h last s (l ++ [.accepted q]) := by
  refine ⟨noted_stable.accepted q ht.toNoted, ht.newest, ht.gathered, ht.chain, ?_, ?_⟩
  · rw [emissions_snoc rfl]
    exact ht.ledger
  · rw [units_snoc rfl]
    exact ht.logged

/-- An access unit of which nothing comes ends. -/
theorem ledger_cut (hl : Ledger h.ended (emissions l) last) : ∃ last', Ledger h.cut.ended (emissions l) last' := by
  unfold Hearing.cut
  split
  · exact ⟨last, hl⟩
  · exact ⟨none, hl.dropped⟩

theorem Told.cut_damaged (ht : Told h last s l) (hd : s.damaged = true) : ∃ last', Told h.cut last' s l := by
  obtain ⟨last', hl⟩ := ledger_cut ht.ledger
  refine ⟨last', told_damaged ht.toNoted hd ?_ hl fun n hn => cut_carried (ht.logged n hn)⟩
  rw [cut_unit]
  exact fun q hq => nomatch hq

/-- Between two access units. -/
theorem told_between (hnoted : Noted s l) (hunit : h.unit = []) (hempty : s.nalus = [] ∧ s.fu = [])
    (hchain : s.waiting = false → ∃ q, last = some q ∧ h.newest = some q)
    (hledger : Ledger h.ended (emissions l) last) (hlogged : ∀ n ∈ units l, h.Carried n) : Told h last s l where
  toNoted := hnoted
  newest := by
    rw [hunit]
    exact fun q hq => nomatch hq
  gathered _ := by
    rw [hunit, hempty.1, hempty.2]
    exact ⟨rfl, .nil⟩
  chain hw := by
    obtain ⟨q, hq, hnew⟩ := hchain hw
    rw [hunit]
    exact ⟨q, hq, .singleton q, hnew⟩
  ledger := hledger
  logged := hlogged

theorem Told.skip (ht : Told h last s l) (hd : s.damaged = true) : ∃ last', Told h.cut last' (clearAu s) l := by
  obtain ⟨last', hl⟩ := ht.cut_damaged hd
  refine ⟨last', told_between (noted_stable.skip ht.toNoted hd) (cut_unit h) ⟨rfl, rfl⟩ ?_ hl.ledger hl.logged⟩
  intro hw
  have hwait : s.waiting = false := hw
  rw [ht.damaged hd] at hwait
  cases hwait

theorem Told.reset (ht : Told h last s l) (x : Event) (hx : x = .reset ∨ x = .ssrcChange) :
    ∃ last', Told h.restart last' (reset s) (l ++ [x]) := by
  obtain ⟨last', hl⟩ := ledger_cut ht.ledger
  have hlog : emissions (l ++ [x]) = emissions l ∧ units (l ++ [x]) = units l := by
    rcases hx with rfl | rfl <;> exact ⟨emissions_snoc rfl l, units_snoc rfl l⟩
  refine ⟨last', told_between (noted_stable.reset x ht.toNoted hx) (cut_unit h) ⟨rfl, rfl⟩ (fun hw => nomatch hw) ?_ ?_⟩
  · rw [hlog.1]
    exact hl
  · rw [hlog.2]
    exact fun n hn => cut_carried (ht.logged n hn)

/-- **Where `emit` is entered**, the access unit ends: all of it comes out, or it
had no slice, or the gate is closed. -/
theorem Told.emit (ht : Told h last s l) (hclock : ∀ q ∈ h.unit, q.timestamp = s.timestamp) :
    ∃ last', Told h.cut last' (emit s l).1 (emit s l).2 := by
  have hnoted := noted_stable.emit ht.toNoted
  rcases emit_handedOver ht.toInv l with ⟨hh, he⟩ | ⟨-, w, he, hidle⟩
  · rw [he] at hnoted ⊢
    obtain ⟨hdamaged, hfu, -, hopen, -⟩ := hh.1
    obtain ⟨hcarried, hnext⟩ := ht.gathered hdamaged
    have hne : h.unit ≠ [] := by
      intro hnil
      rw [hnil] at hcarried
      exact ht.toInv.nalus_ne_nil hh.1 (congrArg Prod.fst hcarried).symm
    have hcut : h.cut = { h with unit := [], ended := h.ended ++ [h.unit] } := if_neg hne
    have hof : s.emission.Of h.unit := by
      refine ⟨hclock, hnext, ?_, ?_, rfl⟩
      · rw [hcarried]
        exact hfu
      · rw [hcarried]
        exact congrArg (· ++ s.nalus) (ht.toNoted.missing hdamaged)
    have hlast : h.unit.getLast? = some (h.unit.getLast hne) := List.getLast?_eq_some_getLast hne
    refine ⟨h.unit.getLast?, told_between hnoted (cut_unit h) ⟨rfl, rfl⟩ ?_ ?_ ?_⟩
    · intro _
      refine ⟨h.unit.getLast hne, hlast, ?_⟩
      rw [cut_newest]
      exact ht.newest _ hlast
    · rw [emissions_append, hcut]
      refine ht.ledger.emitted hof ?_
      rcases hopen with hw | hidr
      · obtain ⟨q, hq, hchain, -⟩ := ht.chain hw
        exact .inr ⟨q, hq, hchain⟩
      · exact .inl ((emission_hasIdr ht.toInv hh.1).mpr hidr)
    · rw [units_snoc rfl]
      exact fun n hn => cut_carried (ht.logged n hn)
  · rw [he] at hnoted ⊢
    have hlog : emissions (l ++ if w then [.keyframe] else []) = emissions l ∧
        units (l ++ if w then [.keyframe] else []) = units l := by
      cases w with
      | true => exact ⟨emissions_snoc rfl l, units_snoc rfl l⟩
      | false => exact ⟨congrArg emissions (List.append_nil l), congrArg units (List.append_nil l)⟩
    have hlogged : ∀ n ∈ units (l ++ if w then [.keyframe] else []), h.cut.Carried n := by
      rw [hlog.2]
      exact fun n hn => cut_carried (ht.logged n hn)
    cases w with
    | true =>
      obtain ⟨last', hl⟩ := ledger_cut ht.ledger
      refine ⟨last', told_between hnoted (cut_unit h) ⟨rfl, rfl⟩ (fun hw => nomatch hw) ?_ hlogged⟩
      rw [hlog.1]
      exact hl
    | false =>
      obtain ⟨hw, hvcl, hfu⟩ := hidle rfl
      have hdamaged : s.damaged = false := by
        by_contra hd
        rw [ht.damaged (by simpa using hd)] at hw
        cases hw
      obtain ⟨hcarried, -⟩ := ht.gathered hdamaged
      obtain ⟨q, hq, hchain, hnew⟩ := ht.chain hw
      have hnone : ∀ n ∈ s.nalus, isVcl n = false := by
        intro n hn
        by_contra hv
        rw [(ht.vcl hdamaged).mpr ⟨n, hn, by simpa using hv⟩] at hvcl
        cases hvcl
      by_cases hnil : h.unit = []
      · refine ⟨last, told_between hnoted (cut_unit h) ⟨rfl, rfl⟩ (fun _ => ⟨q, hq, ?_⟩) ?_ hlogged⟩
        · rw [cut_newest, hnew, hnil]
          rfl
        · rw [hlog.1, show h.cut = h from if_pos hnil]
          exact ht.ledger
      · have hcut : h.cut = { h with unit := [], ended := h.ended ++ [h.unit] } := if_neg hnil
        refine ⟨(q :: h.unit).getLast?, told_between hnoted (cut_unit h) ⟨rfl, rfl⟩ ?_ ?_ hlogged⟩
        · intro _
          refine ⟨_, List.getLast?_eq_some_getLast (List.cons_ne_nil q h.unit), ?_⟩
          rw [cut_newest, hnew, List.getLast?_eq_some_getLast]
        · rw [hlog.1, hcut]
          have hl := ht.ledger
          rw [hq] at hl
          refine hl.passed hchain ?_ ?_
          · rw [hcarried]
            exact hfu
          · rw [hcarried]
            exact hnone

end Told

/-! ## A packet -/

/-- A payload changes neither the timestamp nor the flags of the access unit. -/
theorem payload_frame (s : Depacketizer) (l : Log) (p : Bytes) :
    (payload s l p).1.1.clock = s.clock ∧ (payload s l p).1.1.damaged = s.damaged ∧
      (payload s l p).1.1.waiting = s.waiting := by
  have hP : Appends fun t _ => t.clock = s.clock ∧ t.damaged = s.damaged ∧ t.waiting = s.waiting := by
    refine ⟨fun {t l n c} h ha => ?_, fun _ _ h _ => h⟩
    obtain ⟨-, -, -, -, rfl⟩ := appendNalu_some ha
    obtain ⟨-, -, -, -, -, -, hdamaged, hwaiting, -, -, hclock⟩ := note_spec t n
    exact ⟨hclock.trans h.1, hdamaged.trans h.2.1, hwaiting.trans h.2.2⟩
  exact hP.payload ⟨rfl, rfl, rfl⟩ p

/-- The timestamp is that of the access unit in progress. -/
structure Timed (h : Hearing) (s : Depacketizer) : Prop where
  unit : ∀ q ∈ h.unit, s.clock = some q.timestamp
  between : s.damaged = false → h.unit = [] → s.clock = none

section Packet
variable {h : Hearing} {last : Option RtpPacket} {s : Depacketizer} {l : Log} {p : RtpPacket}

theorem push_carried {n : Bytes} (hn : h.Carried n) : (h.push p).Carried n := by
  obtain ⟨u, hu, hmem⟩ := hn
  rcases List.mem_append.mp hu with hu | hu
  · exact ⟨u, List.mem_append_left _ hu, hmem⟩
  · obtain rfl := List.mem_singleton.mp hu
    refine ⟨h.unit ++ [p], List.mem_append_right _ (List.mem_singleton_self _), ?_⟩
    rw [carried_snoc]
    exact List.mem_append_left _ hmem

theorem push_newest : ∀ q ∈ (h.push p).unit.getLast?, (h.push p).newest = some q := by
  intro q hq
  have hlast : (h.unit ++ [p]).getLast? = some q := hq
  rw [List.getLast?_concat] at hlast
  exact hlast

theorem told_turn (ht : Told h last s l) (hunit : ∀ q ∈ h.unit, s.clock = some q.timestamp) (gap : Bool) :
    (∃ last', Told (h.turn p) last' (boundary s l p gap).1 (boundary s l p gap).2) ∧
      ∀ q ∈ (h.turn p).unit, q.timestamp = p.timestamp := by
  unfold boundary Hearing.turn
  by_cases hturn : s.haveTimestamp = true ∧ p.timestamp ≠ s.timestamp
  · rw [if_pos hturn]
    have hclock : s.clock = some s.timestamp := if_pos hturn.1
    have hsame : ∀ q ∈ h.unit, q.timestamp = s.timestamp := by
      intro q hq
      exact (Option.some.inj (hclock.symm.trans (hunit q hq))).symm
    have hlost := ht.lost (gap = true ∨ s.fu ≠ [])
    have htime : (lost (gap = true ∨ s.fu ≠ []) (s, l)).1.timestamp = s.timestamp := by
      unfold lost
      split <;> rfl
    have hcut := hlost.emit (fun q hq => (hsame q hq).trans htime.symm)
    by_cases hnil : h.unit = []
    · have hall : ∀ q ∈ h.unit, q.timestamp = p.timestamp := by
        rw [hnil]
        exact fun q hq => nomatch hq
      have hsplit : h.cut = h := if_pos hnil
      rw [if_pos hall]
      rw [hsplit] at hcut
      exact ⟨hcut, hall⟩
    · obtain ⟨q, hq⟩ := List.exists_mem_of_ne_nil _ hnil
      have hno : ¬ ∀ q ∈ h.unit, q.timestamp = p.timestamp := by
        intro hall
        exact hturn.2 ((hall q hq).symm.trans (hsame q hq))
      rw [if_neg hno, cut_unit]
      exact ⟨hcut, fun q hq => nomatch hq⟩
  · have hall : ∀ q ∈ h.unit, q.timestamp = p.timestamp := by
      intro q hq
      have hclock := hunit q hq
      unfold Depacketizer.clock at hclock
      split at hclock
      · rename_i hhave
        by_contra hne
        exact hturn ⟨hhave, fun heq => hne (heq.trans (Option.some.inj hclock)).symm⟩
      · cases hclock
    rw [if_neg hturn, if_pos hall]
    exact ⟨⟨last, ht⟩, hall⟩

theorem Told.push_damaged (ht : Told h last s l) (hd : s.damaged = true) (p : RtpPacket) :
    Told (h.push p) last s l :=
  told_damaged ht.toNoted hd push_newest ht.ledger fun n hn => push_carried (ht.logged n hn)

/-- The packets of the access unit still follow one another. -/
theorem chain_push {us : List RtpPacket} (hchain : us.IsChain Next) (hlast : ∀ q ∈ us.getLast?, Next q p) :
    (us ++ [p]).IsChain Next := by
  rw [List.isChain_append]
  refine ⟨hchain, .singleton p, ?_⟩
  intro q hq r hr
  rw [List.head?_cons, Option.mem_some_iff] at hr
  exact hr ▸ hlast q hq

/-- The payload of the next packet. -/
theorem Told.push_payload (ht : Told h last s l) (hd : s.damaged = false) (hnext : ∀ q ∈ h.newest, Next q p) :
    Told (h.push p) last (settle (payload s l p.payload)).1 (settle (payload s l p.payload)).2 := by
  have hnoted := noted_stable.payload ht.toNoted p.payload
  have hemissions := emissions_payload s l p.payload
  obtain ⟨-, hdamaged, hwaiting⟩ := payload_frame s l p.payload
  obtain ⟨hcarried, hchain⟩ := ht.gathered hd
  have hunit : carried (h.unit ++ [p]) = gather (s.nalus, s.fu) p.payload := by rw [carried_snoc, hcarried]
  unfold settle
  cases hok : (payload s l p.payload).2 with
  | true =>
    obtain ⟨hnalus, hfu, hlog⟩ := payload_gathers s l p.payload hok
    rw [if_pos rfl]
    refine ⟨hnoted, push_newest, fun _ => ⟨?_, chain_push hchain fun q hq => hnext q (ht.newest q hq)⟩, ?_, ?_, ?_⟩
    · rw [hnalus, hfu]
      exact hunit
    · intro hw
      obtain ⟨q, hq, hfollows, hnew⟩ := ht.chain (hwaiting.symm.trans hw)
      have hpushed : (q :: h.unit ++ [p]).IsChain Next := chain_push hfollows fun r hr => hnext r (hnew.trans hr)
      have hlast : (q :: h.unit ++ [p]).getLast? = some p := List.getLast?_concat
      exact ⟨q, hq, hpushed, hlast.symm⟩
    · rw [hemissions]
      exact ht.ledger
    · intro n hn
      have hunits : units (l ++ (carriedBy s.fu p.payload).1.map .nal) = units l ++ (carriedBy s.fu p.payload).1 := by
        rw [units_append, units_nals]
      rw [hlog, hunits] at hn
      rcases List.mem_append.mp hn with hn | hn
      · exact push_carried (ht.logged n hn)
      · refine ⟨h.unit ++ [p], List.mem_append_right _ (List.mem_singleton_self _), ?_⟩
        rw [hunit]
        exact List.mem_append_right _ hn
  | false =>
    obtain ⟨hlog, -, -⟩ := untouched_payload s l p.payload hok
    have hlose := noted_stable.lose [.rejected] hnoted (by simp)
    rw [if_neg Bool.false_ne_true]
    refine told_damaged hlose rfl push_newest ?_ fun n hn => push_carried (ht.logged n ?_)
    · rw [emissions_lose, emissions_snoc rfl, hemissions]
      exact ht.ledger
    · rw [hlog] at hn
      have hunits : units (RtpVideo.lose (payload s l p.payload).1.1 (l ++ [.rejected])).2 = units l := by
        simp [units, RtpVideo.lose]
      rwa [hunits] at hn

theorem timed_cut {h' : Hearing} (hclock : s.clock = none) : Timed h'.cut s := by
  refine ⟨?_, fun _ _ => hclock⟩
  rw [cut_unit]
  exact fun q hq => nomatch hq

theorem timed_push (hsame : ∀ q ∈ h.unit, q.timestamp = p.timestamp) (hclock : s.clock = some p.timestamp) :
    Timed (h.push p) s := by
  refine ⟨?_, fun _ hnil => absurd hnil (by simp [Hearing.push])⟩
  intro q hq
  rcases List.mem_append.mp hq with hq | hq
  · rw [hsame q hq]
    exact hclock
  · rw [List.mem_singleton.mp hq]
    exact hclock

/-- A packet in its access unit. -/
theorem told_take {c : Depacketizer × Log} (ht : Told h last c.1 c.2) (hclock : c.1.clock = some p.timestamp)
    (hsame : ∀ q ∈ h.unit, q.timestamp = p.timestamp)
    (hnext : c.1.damaged = false → ∀ q ∈ h.newest, Next q p) :
    let h' := if p.marker then (h.push p).cut else h.push p
    (∃ last', Told h' last' (take p c).1 (take p c).2) ∧ Timed h' (take p c).1 := by
  have hpushed : ∀ q ∈ (h.push p).unit, q.timestamp = p.timestamp := by
    intro q hq
    rcases List.mem_append.mp hq with hq | hq
    · exact hsame q hq
    · rw [List.mem_singleton.mp hq]
  unfold take
  by_cases hd : c.1.damaged = true
  · have hpush := ht.push_damaged hd p
    rw [if_pos hd]
    by_cases hm : p.marker = true
    · obtain ⟨last', hskip⟩ := hpush.skip hd
      rw [if_pos hm, if_pos hm]
      exact ⟨⟨last', hskip.header _ _ _ _ _ false⟩, timed_cut rfl⟩
    · rw [if_neg hm, if_neg hm]
      exact ⟨⟨last, hpush⟩, timed_push hsame hclock⟩
  · rw [if_neg hd, consume_eq]
    have hintact : c.1.damaged = false := by simpa using hd
    by_cases hbit : p.payload.headD 0 &&& 128 ≠ 0
    · -- the access unit is lost, and its end goes unnoticed
      have hlose := (ht.lose [.rejected] (by simp)).push_damaged rfl p
      rw [if_pos hbit]
      by_cases hm : p.marker = true
      · rw [if_pos hm]
        refine ⟨hlose.cut_damaged rfl, ?_, fun hno => nomatch hno⟩
        rw [cut_unit]
        exact fun q hq => nomatch hq
      · rw [if_neg hm]
        exact ⟨⟨last, hlose⟩, timed_push hsame hclock⟩
    · have hpay := ht.push_payload hintact (hnext hintact)
      have htime : (settle (payload c.1 c.2 p.payload)).1.clock = some p.timestamp := by
        obtain ⟨hframe, -, -⟩ := payload_frame c.1 c.2 p.payload
        unfold settle
        split
        · exact hframe.trans hclock
        · exact hframe.trans hclock
      rw [if_neg hbit]
      generalize settle (payload c.1 c.2 p.payload) = d at hpay htime
      unfold finish
      by_cases hm : p.marker = true
      · have hstamp : d.1.timestamp = p.timestamp := by
          unfold Depacketizer.clock at htime
          split at htime
          · exact Option.some.inj htime
          · cases htime
        obtain ⟨last', hemit⟩ := hpay.emit fun q hq => (hpushed q hq).trans hstamp.symm
        rw [if_pos hm, if_pos hm]
        exact ⟨⟨last', hemit.header _ _ _ _ _ false⟩, timed_cut rfl⟩
      · rw [if_neg hm, if_neg hm]
        exact ⟨⟨last, hpay⟩, timed_push hsame htime⟩

/-- A packet that is ahead. -/
theorem told_accept (ht : Told h last s l) (htimed : Timed h s) (gap : Bool)
    (hgap : gap = false → ∀ q ∈ h.newest, Next q p) :
    (∃ last', Told (h.take p) last' (accept s l p gap).1 (accept s l p gap).2) ∧ Timed (h.take p) (accept s l p gap).1 := by
  obtain ⟨⟨last', hturn⟩, hsame⟩ := told_turn (p := p)
    (ht.header s.timestamp s.ssrc p.sequence s.haveSsrc true s.haveTimestamp) htimed.unit gap
  have hnew : (h.turn p).newest = h.newest := by
    unfold Hearing.turn
    split
    · rfl
    · exact cut_newest h
  have hnumbered : Told (h.turn p) last' (boundary (numbered s p) l p gap).1 (boundary (numbered s p) l p gap).2 := hturn
  have hstamped : Told (h.turn p) last' (stamp p ((boundary (numbered s p) l p gap).1,
      (boundary (numbered s p) l p gap).2 ++ [.accepted p.sequence])).1 _ :=
    (hnumbered.accepted p.sequence).header p.timestamp _ _ _ _ true
  have harrived := hstamped.lost (gap = true)
  rw [accept_arrived]
  refine told_take (c := arrived s l p gap) harrived ?_ hsame ?_
  · unfold arrived lost
    split <;> rfl
  · intro hd
    rw [hnew]
    refine hgap ?_
    cases gap with
    | false => rfl
    | true => cases hd

end Packet

/-! ## Runs -/

/-- The depacketizer has heard the packets. -/
structure Follows (h : Hearing) (s : Depacketizer) (l : Log) : Prop extends Timed h s where
  told : ∃ last, Told h last s l
  link : s.haveSsrc = h.newest.isSome ∧ s.haveSequence = h.newest.isSome
  source : ∀ q ∈ h.newest, s.ssrc = q.ssrc ∧ s.sequence = q.sequence

section Run
variable {h : Hearing} {s : Depacketizer} {l : Log} {p : RtpPacket}

theorem Follows.reset (hf : Follows h s l) (x : Event) (hx : x = .reset ∨ x = .ssrcChange) :
    Follows h.restart (reset s) (l ++ [x]) := by
  obtain ⟨last, ht⟩ := hf.told
  exact ⟨⟨(timed_cut rfl).unit, fun _ _ => rfl⟩, ht.reset x hx, ⟨rfl, rfl⟩, fun q hq => nomatch hq⟩

theorem take_newest (h : Hearing) (p : RtpPacket) : (h.take p).newest = some p := by
  unfold Hearing.take
  dsimp only
  split
  · rw [cut_newest]
    rfl
  · rfl

/-- A packet of the SSRC that is heard, or the first one. -/
theorem Follows.packet (hf : Follows h s l) (hsrc : ∀ q ∈ h.newest, q.ssrc = p.ssrc) :
    let s' : Depacketizer := { s with haveSsrc := true, ssrc := p.ssrc }
    let c := match gapBefore s' p with
      | none => (s', l)
      | some gap => accept s' l p gap
    Follows (if ∀ q ∈ h.newest, 0 < sequenceDelta p.sequence q.sequence then h.take p else h) c.1 c.2 := by
  intro s'
  obtain ⟨last, ht⟩ := hf.told
  have ht' : Told h last s' l := ht.header s.timestamp p.ssrc s.sequence true s.haveSequence s.haveTimestamp
  have htimed : Timed h s' := ⟨hf.unit, hf.between⟩
  have hheard : ∀ gap, (gap = false → ∀ q ∈ h.newest, Next q p) →
      Follows (h.take p) (accept s' l p gap).1 (accept s' l p gap).2 := by
    intro gap hgap
    obtain ⟨htold, htimes⟩ := told_accept ht' htimed gap hgap
    have hlink := accept_link s' l p gap
    injection hlink with hhave hssrc hhave' hsequence
    refine ⟨htimes, htold, ?_, ?_⟩
    · rw [take_newest, hhave, hhave']
      exact ⟨rfl, rfl⟩
    · rw [take_newest]
      intro q hq
      obtain rfl := Option.some.inj hq
      exact ⟨hssrc, hsequence⟩
  unfold gapBefore
  cases hnew : h.newest with
  | none =>
    have hno : ¬ s'.haveSequence = true := by
      intro hyes
      rw [show s'.haveSequence = s.haveSequence from rfl, hf.link.2, hnew] at hyes
      cases hyes
    rw [if_neg hno, if_pos (fun q hq => nomatch hq)]
    exact hheard false fun _ q hq => nomatch hnew.symm.trans hq
  | some q =>
    obtain ⟨hssrc, hsequence⟩ := hf.source q hnew
    have hyes : s'.haveSequence = true := by
      rw [show s'.haveSequence = s.haveSequence from rfl, hf.link.2, hnew]
      rfl
    have hdelta : sequenceDelta p.sequence s'.sequence = sequenceDelta p.sequence q.sequence :=
      congrArg (sequenceDelta p.sequence) hsequence
    rw [if_pos hyes, hdelta]
    by_cases hold : sequenceDelta p.sequence q.sequence ≤ 0
    · have hbehind : ¬ ∀ r ∈ some q, 0 < sequenceDelta p.sequence r.sequence :=
        fun hall => absurd (hall q rfl) (not_lt.mpr hold)
      rw [if_pos hold, if_neg hbehind]
      refine ⟨htimed, ⟨last, ht'⟩, ?_, ?_⟩
      · rw [hnew]
        exact ⟨rfl, hyes⟩
      · rw [hnew]
        intro r hr
        obtain rfl := Option.some.inj hr
        exact ⟨(hsrc q hnew).symm, hsequence⟩
    · have hahead : ∀ r ∈ some q, 0 < sequenceDelta p.sequence r.sequence := by
        intro r hr
        obtain rfl := Option.some.inj hr
        exact not_le.mp hold
      rw [if_neg hold, if_pos hahead]
      refine hheard _ ?_
      intro hgap r hr
      obtain rfl := Option.some.inj (hnew.symm.trans hr)
      refine ⟨(hsrc q hnew).symm, sequenceDelta_eq_one.mp ?_⟩
      simpa using hgap

theorem Follows.hear {c : Depacketizer × Log} (hf : Follows h c.1 c.2) (a : Call) :
    Follows (h.hear a) (call c a).1 (call c a).2 := by
  cases a with
  | reset => exact hf.reset .reset (.inl rfl)
  | packet bytes =>
    show Follows (h.hear (.packet bytes)) (processRtpPacket c.1 c.2 bytes).1 (processRtpPacket c.1 c.2 bytes).2
    cases hp : parseRtp bytes with
    | none =>
      obtain ⟨last, ht⟩ := hf.told
      have hrun : processRtpPacket c.1 c.2 bytes = lose c.1 (c.2 ++ [.unparsed]) := by
        unfold processRtpPacket
        rw [hp]
      have hhear : h.hear (.packet bytes) = h := by
        unfold Hearing.hear
        simp only [hp]
      rw [hrun, hhear]
      refine ⟨⟨hf.unit, ?_⟩, ⟨last, ht.lose [.unparsed] (by simp)⟩, hf.link, hf.source⟩
      exact fun hno => nomatch hno
    | some p =>
      have hhear : h.hear (.packet bytes) = h.packet p := by
        unfold Hearing.hear
        simp only [hp]
      rw [process_parsed hp, hhear]
      unfold Hearing.packet entered
      by_cases hsrc : ∀ q ∈ h.newest, q.ssrc = p.ssrc
      · have hsame : ¬ (c.1.haveSsrc = true ∧ p.ssrc ≠ c.1.ssrc) := by
          intro ⟨hhave, hne⟩
          rw [hf.link.1] at hhave
          obtain ⟨q, hq⟩ := Option.isSome_iff_exists.mp hhave
          exact hne ((hsrc q hq).symm.trans (hf.source q hq).1.symm)
        simp only [if_pos hsrc, if_neg hsame]
        exact hf.packet hsrc
      · have hother : c.1.haveSsrc = true ∧ p.ssrc ≠ c.1.ssrc := by
          by_contra hsame
          refine hsrc ?_
          intro q hq
          have hhave : c.1.haveSsrc = true := by
            rw [hf.link.1, show h.newest = some q from hq]
            rfl
          rw [← (hf.source q hq).1]
          by_contra hne
          exact hsame ⟨hhave, fun heq => hne heq.symm⟩
        simp only [if_neg hsrc, if_pos hother]
        exact (hf.reset .ssrcChange (.inr rfl)).packet fun q hq => nomatch hq

theorem follows_run (cs : List Call) : Follows (heard cs) (run cs).1 (run cs).2 := by
  have key : ∀ (cs : List Call) {h : Hearing} {c : Depacketizer × Log}, Follows h c.1 c.2 →
      Follows (cs.foldl Hearing.hear h) (cs.foldl call c).1 (cs.foldl call c).2 := by
    intro cs
    induction cs with
    | nil => exact fun hf => hf
    | cons a cs ih => exact fun hf => ih (hf.hear a)
  have hstart : Told {} none {} [] :=
    told_between noted_stable.init rfl ⟨rfl, rfl⟩ (fun hw => nomatch hw) .start fun n hn => nomatch hn
  have htimed : Timed {} {} := ⟨(fun q hq => nomatch hq), fun _ _ => rfl⟩
  exact key cs ⟨htimed, ⟨none, hstart⟩, ⟨rfl, rfl⟩, fun q hq => nomatch hq⟩

end Run

/-- **Every emission is all of one access unit**, and follows on the last. -/
theorem ledger_run (cs : List Call) : ∃ last, Ledger (heard cs).ended (emissions (run cs).2) last := by
  obtain ⟨last, ht⟩ := (follows_run cs).told
  exact ⟨last, ht.ledger⟩

theorem units_heard (cs : List Call) : ∀ n ∈ units (run cs).2, (heard cs).Carried n := by
  obtain ⟨last, ht⟩ := (follows_run cs).told
  exact ht.logged

/-- The access units that came out, in order. -/
theorem Ledger.matched {us : List (List RtpPacket)} {es : List Emission} {last : Option RtpPacket}
    (h : Ledger us es last) : ∃ vs, vs.Sublist us ∧ List.Forall₂ (fun u e => e.Of u) vs es := by
  induction h with
  | start => exact ⟨[], .slnil, .nil⟩
  | emitted _ of _ ih =>
    obtain ⟨vs, hsub, hall⟩ := ih
    exact ⟨vs ++ [_], hsub.append (List.Sublist.refl _), List.rel_append hall (.cons of .nil)⟩
  | passed _ _ _ _ ih =>
    obtain ⟨vs, hsub, hall⟩ := ih
    exact ⟨vs, hsub.trans (List.sublist_append_left _ _), hall⟩
  | dropped _ ih =>
    obtain ⟨vs, hsub, hall⟩ := ih
    exact ⟨vs, hsub.trans (List.sublist_append_left _ _), hall⟩

/-- The sets are put only before an access unit with an IDR. -/
theorem Emission.Of.hasIdr {e : Emission} {u : List RtpPacket} (h : e.Of u) :
    e.hasIdr ↔ ∃ n ∈ (carried u).1, naluType n = 5 := by
  unfold Emission.hasIdr
  rw [h.nalus]
  constructor
  · rintro ⟨n, hn, h5⟩
    rcases List.mem_append.mp hn with hn | hn
    · unfold prepended at hn
      split at hn
      · rename_i hidr
        simpa [hasType] using hidr
      · cases hn
    · exact ⟨n, hn, h5⟩
  · rintro ⟨n, hn, h5⟩
    exact ⟨n, List.mem_append_right _ hn, h5⟩

/-- **No undecodable access unit.** In the log of every run, an emission with
an IDR contains the known SPS and PPS, and one without an IDR closes a window
that an earlier emission opened: every packet accepted in it is one above its
predecessor, nothing in it was lost, and its VCL units are the emission's. By
what the packets say, each emission is all the units that one access unit
carries, and without an IDR it follows the emission before with no number
missing and no slice passed over. No unit was appended that no packet carried. -/
theorem emissions_sound (cs : List Call) : Decodable (run cs).2 ∧
    (∃ last, Ledger (heard cs).ended (emissions (run cs).2) last) ∧ ∀ n ∈ units (run cs).2, (heard cs).Carried n :=
  ⟨decodable_run cs, ledger_run cs, units_heard cs⟩

end KmVirtualCamera.L2.RtpVideo
