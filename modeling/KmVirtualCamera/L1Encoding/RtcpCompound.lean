import Mathlib
import KmVirtualCamera.Core.Checked
import KmVirtualCamera.L1Encoding.RtpWire

/-!
# Compound RTCP datagrams (RFC 3550, section 6.1)

A datagram is a row of members, each of which declares its extent. `Member` is
what is asked of one, `Compound` of a row; `rtcpMember_iff` says what
`parseRtcp` accepts as the next member and `rtcpMembers_iff` what as the rest
of a datagram. Padding is for the last member and is whole words.

`readRtcp` is `parseRtcp` as the source has it: the offset, the packets so far,
a false with no packet, every read and difference checked. `reportSource` and
`reportNtp` are what the receiving session reads of a sender report.
-/
namespace KmVirtualCamera.L1.RtcpCompound
open KmVirtualCamera.ByteOrder KmVirtualCamera.L1.RtpWire

/-- The size a member declares. -/
def extent (m : Bytes) : Nat := ((be16 (m.getD 2 0) (m.getD 3 0)).toNat + 1) * 4

def padded (m : Bytes) : Prop := m.getD 0 0 &&& 32 ≠ 0

instance : DecidablePred padded := fun _ => inferInstanceAs (Decidable (_ ≠ _))

/-- The number of padding bytes, which the last byte tells. -/
def padding (m : Bytes) : Nat := if padded m then (m.getLastD 0).toNat else 0

def body (m : Bytes) : Bytes := m.take (m.length - padding m)

def packet (m : Bytes) : RtcpPacket := ⟨body m, m.getD 1 0, m.getD 0 0 &&& 31⟩

structure Member (m : Bytes) : Prop where
  extent_eq : extent m = m.length
  version : m.getD 0 0 >>> 6 = 2
  type : 192 ≤ m.getD 1 0 ∧ m.getD 1 0 ≤ 223
  minimum : rtcpMinimum (m.getD 1 0) (m.getD 0 0 &&& 31) ≤ (body m).length

/-- Padding, where there is any, is a number of whole words. -/
def WholeWords (m : Bytes) : Prop := padded m → 0 < padding m ∧ padding m % 4 = 0

structure Compound (ms : List Bytes) : Prop where
  count : 1 ≤ ms.length ∧ ms.length ≤ 64
  members : ∀ m ∈ ms, Member m
  last : ∀ m ∈ ms.dropLast, ¬ padded m

theorem extent_pos (m : Bytes) : 4 ≤ extent m := by
  unfold extent
  omega

theorem Member.length_pos {m : Bytes} (h : Member m) : 4 ≤ m.length := h.extent_eq ▸ extent_pos m

@[simp] theorem body_length (m : Bytes) : (body m).length = m.length - padding m := by
  unfold body
  rw [List.length_take]
  omega

theorem four_le_minimum (type count : UInt8) : 4 ≤ rtcpMinimum type count := by
  unfold rtcpMinimum
  split_ifs <;> omega

/-- A sender report has at least a header, its source and 20 bytes of times. -/
theorem minimum_report (count : UInt8) : 28 ≤ rtcpMinimum 200 count := by
  unfold rtcpMinimum
  rw [if_pos rfl]
  omega

/-! ## One member -/

section OneMember
variable {m r : Bytes} {seen : Nat}

theorem getD_append (hm : 4 ≤ m.length) {i : Nat} (hi : i < 4) : (m ++ r).getD i 0 = m.getD i 0 :=
  List.getD_append _ _ _ _ (by omega)

theorem getD_last (hm : 4 ≤ m.length) : (m ++ r).getD (m.length - 1) 0 = m.getLastD 0 := by
  rw [List.getD_append _ _ _ _ (by omega), List.getLastD_eq_getLast?, List.getLast?_eq_getElem?,
    List.getD_eq_getElem?_getD]

theorem rtcpContent_iff (hm : 4 ≤ m.length) (content : Nat) :
    rtcpContent (m ++ r) m.length = some content ↔
      WholeWords m ∧ (padded m → r = []) ∧ padding m ≤ m.length - 4 ∧ content = m.length - padding m := by
  unfold rtcpContent
  rw [getD_append hm (by omega), getD_last hm, List.length_append]
  by_cases hpad : padded m
  · have hvalue : padding m = (m.getLastD 0).toNat := if_pos hpad
    rw [if_pos (show m.getD 0 0 &&& 32 ≠ 0 from hpad), ← hvalue]
    simp only
    by_cases hr : r = []
    · subst hr
      rw [if_neg (show ¬ m.length ≠ m.length + ([] : Bytes).length from fun h => h rfl)]
      split
      · exact ⟨fun h => (nomatch h), fun ⟨h, _, hle, _⟩ => by have := h hpad; omega⟩
      · rw [Option.some.injEq]
        exact ⟨fun h => ⟨fun _ => by omega, fun _ => rfl, by omega, h.symm⟩, fun ⟨_, _, _, h⟩ => h.symm⟩
    · have hlength := List.length_pos_of_ne_nil hr
      rw [if_pos (by omega)]
      exact ⟨fun h => (nomatch h), fun ⟨_, h, _, _⟩ => absurd (h hpad) hr⟩
  · have hvalue : padding m = 0 := if_neg hpad
    rw [if_neg (show ¬ m.getD 0 0 &&& 32 ≠ 0 from hpad), hvalue, Option.some.injEq]
    exact ⟨fun h => ⟨fun h => absurd h hpad, fun h => absurd h hpad, Nat.zero_le _, h.symm⟩,
      fun ⟨_, _, _, h⟩ => h.symm⟩

theorem rtcpContent_le {rest : Bytes} {length content : Nat} (h : rtcpContent rest length = some content) :
    content ≤ length := by
  unfold rtcpContent at h
  split at h
  · simp only at h
    split at h
    · cases h
    · split at h
      · cases h
      · cases h
        omega
  · cases h
    exact Nat.le_refl _

/-- The next member is the one that declares it. -/
theorem rtcpMember_iff (hm : extent m = m.length) (p : RtcpPacket) (length : Nat) :
    rtcpMember (m ++ r) seen = some (p, length) ↔
      seen < 64 ∧ Member m ∧ WholeWords m ∧ (padded m → r = []) ∧ p = packet m ∧ length = m.length := by
  have hfour : 4 ≤ m.length := hm ▸ extent_pos m
  have hlength : ((be16 (m.getD 2 0) (m.getD 3 0)).toNat + 1) * 4 = m.length := hm
  unfold rtcpMember
  simp only [getD_append hfour (show 0 < 4 by omega), getD_append hfour (show 1 < 4 by omega),
    getD_append hfour (show 2 < 4 by omega), getD_append hfour (show 3 < 4 by omega), hlength, List.length_append]
  by_cases hguard : m.getD 0 0 >>> 6 = 2 ∧ seen < 64
  · rw [if_neg (not_or.mpr ⟨by omega, not_or.mpr ⟨not_not.mpr hguard.1, by omega⟩⟩), if_neg (by omega)]
    cases hcontent : rtcpContent (m ++ r) m.length with
    | none =>
      refine ⟨fun h => (nomatch h), fun ⟨_, hmem, hwords, hlast, _⟩ => ?_⟩
      have hmin := hmem.minimum
      have := four_le_minimum (m.getD 1 0) (m.getD 0 0 &&& 31)
      rw [body_length] at hmin
      have hsome := (rtcpContent_iff (r := r) hfour _).mpr ⟨hwords, hlast, by omega, rfl⟩
      rw [hcontent] at hsome
      cases hsome
    | some content =>
      obtain ⟨hwords, hlast, -, rfl⟩ := (rtcpContent_iff hfour content).mp hcontent
      simp only
      split
      · rename_i htype
        refine ⟨fun h => (nomatch h), fun ⟨_, hmem, _⟩ => ?_⟩
        rcases htype with h | h
        · exact absurd hmem.type.1 (UInt8.not_le.mpr h)
        · exact absurd hmem.type.2 (UInt8.not_le.mpr h)
      rename_i htype
      split
      · rename_i hmin
        refine ⟨fun h => (nomatch h), fun ⟨_, hmem, _⟩ => ?_⟩
        have := hmem.minimum
        rw [body_length] at this
        omega
      rename_i hmin
      have hmember : Member m :=
        { extent_eq := hm
          version := hguard.1
          type := by
            rw [not_or] at htype
            exact ⟨UInt8.not_lt.mp htype.1, UInt8.not_lt.mp htype.2⟩
          minimum := by rw [body_length]; exact Nat.not_lt.mp hmin }
      have htake : (m ++ r).take (m.length - padding m) = body m := List.take_append_of_le_length (by omega)
      rw [htake, Option.some.injEq, Prod.mk.injEq]
      exact ⟨fun ⟨hp, hl⟩ => ⟨hguard.2, hmember, hwords, hlast, hp.symm, hl.symm⟩,
        fun ⟨_, _, _, _, hp, hl⟩ => ⟨hp.symm, hl.symm⟩⟩
  · rw [if_pos (by by_contra h; simp only [not_or, not_not, not_le, ge_iff_le] at h; exact hguard h.2)]
    exact ⟨fun h => (nomatch h), fun ⟨hseen, hmem, _⟩ => absurd ⟨hmem.version, hseen⟩ hguard⟩

/-- An accepted member lies in what is left, at its start. -/
theorem rtcpMember_extent {rest : Bytes} {p : RtcpPacket} {length : Nat}
    (h : rtcpMember rest seen = some (p, length)) :
    length = extent rest ∧ length ≤ rest.length ∧ ∃ m r, rest = m ++ r ∧ extent m = m.length := by
  unfold rtcpMember at h
  split at h
  · cases h
  rename_i hguard
  simp only at h
  split at h
  · cases h
  rename_i hlength
  have hle : extent rest ≤ rest.length := Nat.not_lt.mp hlength
  have hfour := extent_pos rest
  have htake : (rest.take (extent rest)).length = extent rest := by
    rw [List.length_take]
    omega
  have hextent : extent (rest.take (extent rest)) = extent rest := by
    have hget : ∀ i < 4, (rest.take (extent rest)).getD i 0 = rest.getD i 0 := by
      intro i hi
      conv_rhs => rw [← List.take_append_drop (extent rest) rest]
      exact (getD_append (by omega) hi).symm
    change ((be16 (List.getD _ 2 0) (List.getD _ 3 0)).toNat + 1) * 4 = _
    rw [hget 2 (by omega), hget 3 (by omega)]
    rfl
  have hend : length = extent rest := by
    split at h
    · cases h
    split at h
    · cases h
    split at h
    · cases h
    · exact (Prod.mk.inj (Option.some.inj h)).2.symm
  exact ⟨hend, hend ▸ hle, _, _, (List.take_append_drop (extent rest) rest).symm, by rw [hextent, htake]⟩

end OneMember

/-! ## A row of members -/

/-- What is left of a datagram, after `seen` members. -/
structure Row (seen : Nat) (ms : List Bytes) : Prop where
  count : seen + ms.length ≤ 64
  members : ∀ m ∈ ms, Member m
  words : ∀ m ∈ ms, WholeWords m
  last : ∀ m ∈ ms.dropLast, ¬ padded m

theorem Row.tail {seen : Nat} {m : Bytes} {ms : List Bytes} (h : Row seen (m :: ms)) :
    Row (seen + 1) ms where
  count := by
    have := h.count
    rw [List.length_cons] at this
    omega
  members n hn := h.members n (List.mem_cons_of_mem m hn)
  words n hn := h.words n (List.mem_cons_of_mem m hn)
  last n hn := by
    cases ms with
    | nil => cases hn
    | cons m' ms => exact h.last n (List.mem_cons_of_mem m hn)

/-- Padding ends the datagram. -/
theorem Row.padded_last {seen : Nat} {m : Bytes} {ms : List Bytes} (h : Row seen (m :: ms)) (hm : padded m) :
    ms.flatten = [] := by
  cases ms with
  | nil => rfl
  | cons m' ms => exact absurd hm (h.last m (List.mem_cons_self ..))

theorem Row.cons {seen : Nat} {m : Bytes} {ms : List Bytes} (h : Row (seen + 1) ms) (hm : Member m)
    (hw : WholeWords m) (hlast : padded m → ms.flatten = []) : Row seen (m :: ms) where
  count := by
    have := h.count
    rw [List.length_cons]
    omega
  members n hn := by
    rcases List.mem_cons.mp hn with rfl | hn
    · exact hm
    · exact h.members n hn
  words n hn := by
    rcases List.mem_cons.mp hn with rfl | hn
    · exact hw
    · exact h.words n hn
  last n hn := by
    cases ms with
    | nil => cases hn
    | cons m' ms =>
      rcases List.mem_cons.mp hn with rfl | hn
      · intro hpad
        have hpos := (h.members m' (List.mem_cons_self ..)).length_pos
        rw [(List.append_eq_nil_iff.mp (hlast hpad)).1] at hpos
        cases hpos
      · exact h.last n hn

theorem members_nil {seen : Nat} (hseen : seen ≤ 64) {fuel : Nat} (ps : List RtcpPacket) :
    rtcpMembers fuel seen [] = some ps ↔ ∃ ms, Row seen ms ∧ ms.flatten = [] ∧ ps = ms.map packet := by
  rw [rtcpMembers, Option.some.injEq]
  constructor
  · rintro rfl
    have hrow : Row seen [] := ⟨hseen, by simp, by simp, by simp⟩
    exact ⟨[], hrow, rfl, rfl⟩
  · rintro ⟨ms, hrow, hflat, rfl⟩
    cases ms with
    | nil => rfl
    | cons m ms =>
      have hpos := (hrow.members m (List.mem_cons_self ..)).length_pos
      rw [(List.append_eq_nil_iff.mp hflat).1] at hpos
      cases hpos

/-- What is accepted is a row of members. -/
theorem rtcpMembers_iff (fuel : Nat) : ∀ {seen : Nat} {rest : Bytes}, seen ≤ 64 → rest.length ≤ fuel →
    ∀ ps, rtcpMembers fuel seen rest = some ps ↔ ∃ ms, Row seen ms ∧ ms.flatten = rest ∧ ps = ms.map packet := by
  induction fuel with
  | zero =>
    intro seen rest hseen hfuel ps
    obtain rfl := List.eq_nil_of_length_eq_zero (Nat.le_zero.mp hfuel)
    exact members_nil hseen ps
  | succ fuel ih =>
    intro seen rest hseen hfuel ps
    cases rest with
    | nil => exact members_nil hseen ps
    | cons b rest =>
      rw [rtcpMembers]
      constructor
      · intro h
        cases hmember : rtcpMember (b :: rest) seen with
        | none => rw [hmember] at h; cases h
        | some r =>
          obtain ⟨p, length⟩ := r
          rw [hmember] at h
          obtain ⟨-, -, m, r, hrest, hextent⟩ := rtcpMember_extent hmember
          rw [hrest] at hmember h hfuel ⊢
          obtain ⟨hcount, hm, hw, hlast, rfl, rfl⟩ := (rtcpMember_iff hextent p length).mp hmember
          have hpos := hm.length_pos
          rw [List.length_append] at hfuel
          simp only [List.drop_left, Option.map_eq_some_iff] at h
          obtain ⟨qs, hqs, rfl⟩ := h
          obtain ⟨ms, hrow, rfl, rfl⟩ := (ih (by omega) (by omega) qs).mp hqs
          exact ⟨m :: ms, hrow.cons hm hw hlast, rfl, rfl⟩
      · rintro ⟨ms, hrow, hflat, rfl⟩
        cases ms with
        | nil => cases hflat
        | cons m ms =>
          have hm := hrow.members m (List.mem_cons_self ..)
          have hcount := hrow.count
          have hpos := hm.length_pos
          rw [List.length_cons] at hcount
          rw [← hflat, List.flatten_cons, List.length_append] at hfuel
          rw [← hflat, List.flatten_cons, (rtcpMember_iff hm.extent_eq _ _).mpr
            ⟨by omega, hm, hrow.words m (List.mem_cons_self ..), hrow.padded_last, rfl, rfl⟩]
          simp only [List.drop_left]
          rw [(ih (by omega) (by omega) _).mpr ⟨ms, hrow.tail, rfl, rfl⟩]
          rfl

/-! ## The loop of the source, every read in bounds -/

/-- mirrors shared/km/rtp_wire.h:55-61 -/
def readContent (bytes : Bytes) (offset length : Nat) : Checked (Option Nat) := do
  if (← cget bytes offset) &&& 32 ≠ 0 then
    if offset + length ≠ bytes.length then return none
    else
      let padding := (← cget bytes (← csub (offset + length) 1)).toNat
      if padding = 0 ∨ padding > (← csub length 4) ∨ padding % 4 ≠ 0 then return none
      else return some (← csub length padding)
  else return some length

/-- The member at `offset`, and the number it declares of words after its first.
mirrors shared/km/rtp_wire.h:51-71 -/
def readMember (bytes : Bytes) (offset seen : Nat) : Checked (Option (RtcpPacket × UInt16)) := do
  let rest ← csub bytes.length offset
  if rest < 4 then return none
  else
    let first ← cget bytes offset
    if first >>> 6 ≠ 2 ∨ seen ≥ 64 then return none
    else
      let words ← cbe16 bytes (offset + 2)
      let length := (words.toNat + 1) * 4
      if length > rest then return none
      else
        match ← readContent bytes offset length with
        | none => return none
        | some content =>
          let type ← cget bytes (offset + 1)
          let count := first &&& 31
          if type < 192 ∨ type > 223 then return none
          else if content < rtcpMinimum type count then return none
          else return some (⟨← cspan bytes offset content, type, count⟩, words)

/-- mirrors shared/km/rtp_wire.h:49-74 -/
def readMembers (bytes : Bytes) (offset : Nat) (packets : List RtcpPacket) : Checked (Bool × List RtcpPacket) :=
  if offset < bytes.length then do
    match ← readMember bytes offset packets.length with
    | none => return (false, [])
    | some (p, words) => readMembers bytes (offset + (words.toNat + 1) * 4) (packets ++ [p])
  else return (true, packets)
termination_by bytes.length - offset

/-- mirrors shared/km/rtp_wire.h:46-75 -/
def readRtcp (bytes : Bytes) (_packets : List RtcpPacket) : Checked (Bool × List RtcpPacket) :=
  if bytes = [] ∨ bytes.length > 65535 ∨ bytes.length % 4 ≠ 0 then return (false, [])
  else readMembers bytes 0 []

section Reads
variable {bytes : Bytes} {offset : Nat}

theorem getD_drop (i : Nat) : (bytes.drop offset).getD i 0 = bytes.getD (offset + i) 0 := by
  rw [List.getD_eq_getElem?_getD, List.getD_eq_getElem?_getD, List.getElem?_drop]

theorem readContent_eq {length : Nat} (hfour : 4 ≤ length) (h : offset + length ≤ bytes.length) :
    readContent bytes offset length = .ok (rtcpContent (bytes.drop offset) length) := by
  unfold readContent rtcpContent
  rw [cget_getD (by omega) 0, ok_bind, getD_drop, getD_drop, List.length_drop, Nat.add_zero]
  split
  · simp only
    by_cases hend : offset + length = bytes.length
    · rw [if_neg (not_not.mpr hend), if_neg (by omega), csub_ok (by omega), ok_bind, cget_getD (by omega) 0, ok_bind,
        csub_ok (by omega), ok_bind, Nat.add_sub_assoc (by omega)]
      split
      · rfl
      · rw [csub_ok (by omega), ok_bind]
        rfl
    · rw [if_pos hend, if_pos (by omega)]
      rfl
  · rfl

theorem readMember_eq (h : offset ≤ bytes.length) (seen : Nat) :
    readMember bytes offset seen = .ok ((rtcpMember (bytes.drop offset) seen).map fun r =>
      (r.1, be16 (bytes.getD (offset + 2) 0) (bytes.getD (offset + 3) 0))) := by
  unfold readMember rtcpMember
  rw [csub_ok h, ok_bind]
  simp only [getD_drop, List.length_drop, Nat.add_zero]
  by_cases hfour : bytes.length - offset < 4
  · rw [if_pos hfour, if_pos (.inl hfour)]
    rfl
  rw [if_neg hfour, cget_getD (by omega) 0, ok_bind]
  by_cases hguard : bytes.getD offset 0 >>> 6 ≠ 2 ∨ seen ≥ 64
  · rw [if_pos hguard, if_pos (.inr hguard)]
    rfl
  rw [if_neg hguard, if_neg (not_or.mpr ⟨hfour, hguard⟩), cbe16_ok (by omega), ok_bind]
  split
  · rfl
  rename_i hlength
  rw [readContent_eq (by omega) (by omega), ok_bind]
  cases hcontent : rtcpContent (bytes.drop offset) _ with
  | none => rfl
  | some content =>
    have hle := rtcpContent_le hcontent
    simp only
    rw [cget_getD (by omega) 0, ok_bind]
    split
    · rfl
    split
    · rfl
    rw [cspan_ok (by omega), ok_bind]
    rfl

theorem readMembers_eq (fuel : Nat) : ∀ {offset : Nat} (packets : List RtcpPacket), offset ≤ bytes.length →
    bytes.length - offset ≤ fuel → readMembers bytes offset packets =
      .ok (match rtcpMembers fuel packets.length (bytes.drop offset) with
        | none => (false, [])
        | some ps => (true, packets ++ ps)) := by
  induction fuel with
  | zero =>
    intro offset packets h hfuel
    have hend : bytes.drop offset = [] := List.drop_eq_nil_of_le (by omega)
    rw [readMembers, if_neg (by omega), hend, rtcpMembers]
    simp only [List.append_nil]
    rfl
  | succ fuel ih =>
    intro offset packets h hfuel
    rw [readMembers]
    by_cases hlt : offset < bytes.length
    · obtain ⟨b, rest, hrest⟩ : ∃ b rest, bytes.drop offset = b :: rest :=
        ⟨_, _, List.drop_eq_getElem_cons hlt⟩
      rw [if_pos hlt, readMember_eq h, ok_bind, hrest, rtcpMembers, ← hrest]
      cases hmember : rtcpMember (bytes.drop offset) packets.length with
      | none => rfl
      | some r =>
        obtain ⟨p, length⟩ := r
        obtain ⟨rfl, hlength, -⟩ := rtcpMember_extent hmember
        have hextent : extent (bytes.drop offset) =
            ((be16 (bytes.getD (offset + 2) 0) (bytes.getD (offset + 3) 0)).toNat + 1) * 4 := by
          unfold extent
          rw [getD_drop, getD_drop]
        rw [List.length_drop] at hlength
        simp only [Option.map_some]
        rw [← hextent, ih (packets ++ [p]) (by omega) (by have := extent_pos (bytes.drop offset); omega),
          List.length_append, List.length_singleton, ← List.drop_drop]
        cases rtcpMembers fuel (packets.length + 1) ((bytes.drop offset).drop (extent (bytes.drop offset))) with
        | none => rfl
        | some ps => simp
    · have hend : bytes.drop offset = [] := List.drop_eq_nil_of_le (by omega)
      rw [if_neg hlt, hend, rtcpMembers]
      simp only [List.append_nil]
      rfl

/-- False with no packet, or true with all of them. -/
theorem readRtcp_eq (packets : List RtcpPacket) :
    readRtcp bytes packets = .ok (match parseRtcp bytes with
      | none => (false, [])
      | some ps => (true, ps)) := by
  unfold readRtcp parseRtcp
  split
  · rfl
  · rw [readMembers_eq bytes.length [] (Nat.zero_le _) (by omega)]
    rfl

end Reads

/-! ## Whole datagrams -/

theorem Member.length_mod {m : Bytes} (h : Member m) : m.length % 4 = 0 := by
  rw [← h.extent_eq]
  exact Nat.mul_mod_left _ 4

theorem flatten_mod {ms : List Bytes} (h : ∀ m ∈ ms, Member m) : ms.flatten.length % 4 = 0 := by
  induction ms with
  | nil => rfl
  | cons m ms ih =>
    have hm := (h m (List.mem_cons_self ..)).length_mod
    have hms := ih fun n hn => h n (List.mem_cons_of_mem m hn)
    rw [List.flatten_cons, List.length_append]
    omega

theorem compound_iff {ms : List Bytes} :
    Compound ms ∧ (∀ m ∈ ms, WholeWords m) ↔ ms.flatten ≠ [] ∧ Row 0 ms := by
  constructor
  · rintro ⟨h, hw⟩
    refine ⟨?_, by rw [Nat.zero_add]; exact h.count.2, h.members, hw, h.last⟩
    intro hflat
    obtain ⟨m, hm⟩ := List.exists_mem_of_length_pos h.count.1
    have hpos := (h.members m hm).length_pos
    rw [List.flatten_eq_nil_iff.mp hflat m hm] at hpos
    cases hpos
  · rintro ⟨hne, hrow⟩
    refine ⟨⟨⟨List.length_pos_of_ne_nil ?_, by rw [← Nat.zero_add ms.length]; exact hrow.count⟩, hrow.members,
      hrow.last⟩, hrow.words⟩
    rintro rfl
    exact hne rfl

theorem parseRtcp_iff (b : Bytes) (ps : List RtcpPacket) :
    parseRtcp b = some ps ↔ b.length ≤ 65535 ∧
      ∃ ms, (Compound ms ∧ ∀ m ∈ ms, WholeWords m) ∧ ms.flatten = b ∧ ps = ms.map packet := by
  unfold parseRtcp
  constructor
  · intro h
    split at h
    · cases h
    rename_i hguard
    simp only [not_or] at hguard
    obtain ⟨ms, hrow, rfl, rfl⟩ := (rtcpMembers_iff b.length (Nat.zero_le 64) (Nat.le_refl _) ps).mp h
    exact ⟨Nat.not_lt.mp hguard.2.1, ms, compound_iff.mpr ⟨hguard.1, hrow⟩, rfl, rfl⟩
  · rintro ⟨hlength, ms, hcompound, rfl, rfl⟩
    obtain ⟨hne, hrow⟩ := compound_iff.mp hcompound
    have hmod := flatten_mod hrow.members
    rw [if_neg (not_or.mpr ⟨hne, not_or.mpr ⟨Nat.not_lt.mpr hlength, not_not.mpr hmod⟩⟩)]
    exact (rtcpMembers_iff _ (Nat.zero_le 64) (Nat.le_refl _) _).mpr ⟨ms, hrow, rfl, rfl⟩

/-! ## Sender reports -/

/-- mirrors shared/receiver/rtc/enhanced_rtcp_session.cpp:114 -/
def reportSource (part : RtcpPacket) : Checked UInt32 := cbe32 part.body 4

/-- mirrors shared/receiver/rtc/enhanced_rtcp_session.cpp:116 -/
def reportNtp (part : RtcpPacket) : Checked UInt64 := cbe64 part.body 8

theorem report_fields {ms : List Bytes} (h : Compound ms) {p : RtcpPacket} (hp : p ∈ ms.map packet)
    (ht : p.type = 200) : (∃ source, reportSource p = .ok source) ∧ ∃ ntp, reportNtp p = .ok ntp := by
  obtain ⟨m, hm, rfl⟩ := List.mem_map.mp hp
  have hmin := (h.members m hm).minimum
  have htype : m.getD 1 0 = 200 := ht
  rw [htype] at hmin
  have hreport := minimum_report (m.getD 0 0 &&& 31)
  exact ⟨⟨_, cbe32_ok (by change 8 ≤ (body m).length; omega)⟩, cbe64_ok (by change 16 ≤ (body m).length; omega)⟩

/-- **All or nothing.** Either nothing is accepted, or the datagram is a row of
1 to 64 members and its packets are theirs; every such row of at most 65535
bytes with whole words of padding is accepted; and what the session reads of a
sender report lies inside its body. -/
theorem parseRtcp_partitions (packets : List RtcpPacket) :
    (∀ b, readRtcp b packets = .ok (false, []) ∨ ∃ ms, Compound ms ∧ (∀ m ∈ ms, WholeWords m) ∧
        ms.flatten = b ∧ readRtcp b packets = .ok (true, ms.map packet)) ∧
      (∀ ms, Compound ms → (∀ m ∈ ms, WholeWords m) → ms.flatten.length ≤ 65535 →
        readRtcp ms.flatten packets = .ok (true, ms.map packet)) ∧
      ∀ b ps, readRtcp b packets = .ok (true, ps) → ∀ p ∈ ps, p.type = 200 →
        (∃ source, reportSource p = .ok source) ∧ ∃ ntp, reportNtp p = .ok ntp := by
  refine ⟨?_, ?_, ?_⟩
  · intro b
    rw [readRtcp_eq]
    cases hparse : parseRtcp b with
    | none => exact .inl rfl
    | some ps =>
      obtain ⟨-, ms, ⟨hms, hw⟩, hflat, rfl⟩ := (parseRtcp_iff b ps).mp hparse
      exact .inr ⟨ms, hms, hw, hflat, rfl⟩
  · intro ms hms hw hlength
    rw [readRtcp_eq, (parseRtcp_iff ms.flatten (ms.map packet)).mpr ⟨hlength, ms, ⟨hms, hw⟩, rfl, rfl⟩]
  · intro b ps h p hp ht
    rw [readRtcp_eq] at h
    cases hparse : parseRtcp b with
    | none =>
      rw [hparse] at h
      cases h
    | some qs =>
      rw [hparse] at h
      cases h
      obtain ⟨-, ms, ⟨hms, -⟩, -, rfl⟩ := (parseRtcp_iff b ps).mp hparse
      exact report_fields hms hp ht

/-- A member of eight bytes, the last of which says that it is padding. -/
def oddlyPadded : Bytes := [0xA0, 192, 0, 1, 0, 0, 0, 1]

/-- A member of 65536 bytes. -/
def oversized : Bytes := [0x80, 192, 0x3F, 0xFF] ++ List.replicate 65532 0

theorem oversized_length : oversized.length = 65536 := by
  unfold oversized
  rw [List.length_append, List.length_replicate]
  rfl

theorem oversized_compound : Compound [oversized] where
  count := ⟨Nat.le_refl 1, by decide⟩
  members m hm := by
    obtain rfl := List.mem_singleton.mp hm
    have hpad : padding oversized = 0 := if_neg (by decide)
    exact ⟨by rw [oversized_length]; rfl, by decide, by decide, by rw [body_length, hpad, oversized_length]; decide⟩
  last m hm := nomatch hm

/-- Padding of one byte is refused, and so is a member above the limit. -/
theorem unwhole_refused :
    (Compound [oddlyPadded] ∧ readRtcp [oddlyPadded].flatten [] = .ok (false, [])) ∧
      Compound [oversized] ∧ readRtcp [oversized].flatten [] = .ok (false, []) := by
  refine ⟨⟨⟨by decide, fun m hm => ?_, fun m hm => nomatch hm⟩, ?_⟩, oversized_compound, ?_⟩
  · obtain rfl := List.mem_singleton.mp hm
    exact ⟨by decide, by decide, by decide, by decide⟩
  · rw [readRtcp_eq]
    decide
  · have hlength := oversized_length
    unfold readRtcp
    rw [List.flatten_cons, List.flatten_nil, List.append_nil, if_pos (.inr (.inl (by omega)))]
    rfl

end KmVirtualCamera.L1.RtcpCompound
