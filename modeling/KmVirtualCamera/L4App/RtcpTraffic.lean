import Mathlib
import KmVirtualCamera.L4App.RtcpSession

/-!
# What the receiving session sends

Results over every run of `RtcpSession.lts`: any calls from any threads, in any
order, at any times of a clock that does not go back, with the packets handed
over whenever their call gets to it.

* `wire_accepted`: what is handed over, and that `Stop` is the end.
* `traffic_paced`: reports, the feedback's bitrate limits and transport feedback
  over time; what `RequestBitrate` asks for is not paced.
* `keyframe_requests`: the requests for a key frame, one after the other.
* `report_reads`: what a receiver report says of the packets counted.
-/
namespace KmVirtualCamera.L4.RtcpTraffic
open KmVirtualCamera.ByteOrder KmVirtualCamera.L1.RtpWire KmVirtualCamera.L4.RtcpSession
open KmVirtualCamera.L2.RtcpReception (Tracked Event track report Sound spanned lost excess)

variable {clockRate : UInt32} {createdUs : Int}

/-! ## A short run

One packet arrives; after half a second the timers are looked at, a key frame is
asked for, and its first packet leaves. -/

def begun : State := { session := fresh 90000 0, clockUs := 0 }

def arrival : Call := .incoming [.binary [128, 96, 0, 1, 0, 0, 0, 0, 0, 0, 0, 7, 1]] true 0

def reported : State := called (called begun 0 arrival) 500000 (.flushFeedback 0)

def asked : State := called reported 500000 (.requestKeyframe true)

def firstPli : Sent := ⟨.pli, pli 7, 7⟩

def left : State :=
  { asked with leaving := asked.leaving.set 2 [⟨.fir, fir 7 0, 7⟩], wire := [firstPli] }

def shortRun : List Label :=
  [.call 0 arrival, .call 500000 (.flushFeedback 0), .call 500000 (.requestKeyframe true), .deliver 2]

theorem run_shortRun : (lts 90000 0).Run begun shortRun left :=
  .cons ⟨by decide, rfl⟩ (.cons ⟨by decide, rfl⟩ (.cons ⟨by decide, rfl⟩ (.cons ⟨firstPli, _, rfl, rfl⟩ (.nil _))))

theorem reachable_arrival : (lts 90000 0).Reachable (called begun 0 arrival) :=
  ⟨begun, [.call 0 arrival], rfl, .cons ⟨by decide, rfl⟩ (.nil _)⟩

theorem reachable_left : (lts 90000 0).Reachable left := ⟨begun, shortRun, rfl, run_shortRun⟩

/-! ## What is handed over -/

def sources : Label → List UInt32
  | .call _ c => c.sources
  | .deliver _ => []

def heard (ls : List Label) : List UInt32 := ls.flatMap sources

/-- A packet leaves the call that holds it. -/
theorem flatten_set {α : Type} {m : α} {rest : List α} : ∀ (ls : List (List α)) {i : Nat}, ls[i]? = some (m :: rest) →
    ls.flatten.Perm (m :: (ls.set i rest).flatten)
  | [], _, h => nomatch h
  | l :: ls, 0, h => by
    cases h
    exact .refl _
  | l :: ls, i + 1, h => by
    rw [List.set_cons_succ, List.flatten_cons, List.flatten_cons]
    exact ((flatten_set ls h).append_left l).trans List.perm_middle

structure Traffic (ls : List Label) (s : State) : Prop where
  source : s.session.ssrc = 0 ∨ s.session.ssrc ∈ heard ls
  made : ∀ e ∈ s.log, Accepted e.2 ∧ e.2.ssrc ∈ heard ls
  once : (s.wire ++ s.leaving.flatten).Subperm (s.log.map Prod.snd)

theorem Traffic.called {ls : List Label} {s : State} (h : Traffic ls s) (nowUs : Int) (c : Call) :
    Traffic (ls ++ [.call nowUs c]) (called s nowUs c) := by
  obtain ⟨heffect, hsource⟩ := perform_effect s.session nowUs c
  have hheard : heard (ls ++ [.call nowUs c]) = heard ls ++ c.sources := by
    unfold heard
    rw [List.flatMap_append, List.flatMap_singleton]
    rfl
  have hnew : (perform s.session nowUs c).session.ssrc = 0 ∨
      (perform s.session nowUs c).session.ssrc ∈ heard ls ++ c.sources := by
    rcases hsource with hsame | hnew
    · rw [hsame]
      exact h.source.imp_right (List.mem_append_left _)
    · exact .inr (List.mem_append_right _ hnew)
  refine ⟨by rw [hheard]; exact hnew, fun e he => ?_, ?_⟩
  · rw [hheard]
    rcases List.mem_append.mp he with he | he
    · exact (h.made e he).imp_right (List.mem_append_left _)
    · obtain ⟨m, hm, rfl⟩ := List.mem_map.mp he
      obtain ⟨haccepted, hssrc⟩ := heffect.accepted m hm
      exact ⟨haccepted, hssrc ▸ hnew.resolve_left (hssrc ▸ haccepted.known)⟩
  · have hlog : (RtcpSession.called s nowUs c).log.map Prod.snd =
        s.log.map Prod.snd ++ (perform s.session nowUs c).made := by
      unfold RtcpSession.called
      rw [List.map_append, List.map_map]
      exact congrArg _ (List.map_id _)
    rw [hlog]
    change (s.wire ++ (s.leaving ++ _).flatten).Subperm _
    rw [List.flatten_append, ← List.append_assoc]
    refine List.Subperm.append h.once ?_
    split
    · rw [List.flatten_singleton]
    · exact List.nil_subperm

theorem Traffic.deliver {ls : List Label} {s : State} (h : Traffic ls s) {i : Nat} {m : Sent} {rest : List Sent}
    (hi : s.leaving[i]? = some (m :: rest)) :
    Traffic (ls ++ [.deliver i]) { s with leaving := s.leaving.set i rest, wire := s.wire ++ [m] } := by
  have hheard : heard (ls ++ [.deliver i]) = heard ls := by
    unfold heard
    rw [List.flatMap_append]
    exact List.append_nil _
  refine ⟨by rw [hheard]; exact h.source, by rw [hheard]; exact h.made, ?_⟩
  refine List.Perm.subperm ?_ |>.trans h.once
  rw [List.append_assoc, List.singleton_append]
  exact (flatten_set _ hi).symm.append_left _

theorem historical_traffic : (lts clockRate createdUs).Historical Traffic where
  init s hs := by
    rw [hs]
    exact ⟨.inl rfl, nofun, List.nil_subperm⟩
  step ls s l s' h hst := by
    cases l with
    | call nowUs c =>
      obtain ⟨-, rfl⟩ := hst
      exact h.called nowUs c
    | deliver i =>
      obtain ⟨m, rest, hi, rfl⟩ := hst
      exact h.deliver hi

theorem stopped_log {s s' : State} {ls : List Label} (h : (lts clockRate createdUs).Run s ls s')
    (hs : s.session.stopped = true) : s'.log = s.log := by
  induction h with
  | nil => rfl
  | @cons s t _ l _ hst _ ih =>
    cases l with
    | call nowUs c =>
      obtain ⟨-, rfl⟩ := hst
      obtain ⟨hmade, -, hstopped⟩ := perform_stopped hs nowUs c
      rw [ih hstopped]
      change s.log ++ (perform s.session nowUs c).made.map _ = s.log
      rw [hmade, List.map_nil, List.append_nil]
    | deliver i =>
      obtain ⟨m, rest, -, rfl⟩ := hst
      exact ih hs

/-- **What is handed over.** In every run, each packet on the wire is one that
this code's reader accepts and names a source that was heard; no packet is
there that was not made, and none twice; and after `Stop` nothing more is
made. -/
theorem wire_accepted {s₀ s : State} {ls : List Label} (h0 : (lts clockRate createdUs).init s₀)
    (hr : (lts clockRate createdUs).Run s₀ ls s) :
    (∀ m ∈ s.wire, Accepted m ∧ m.ssrc ∈ heard ls) ∧
      (s.wire ++ s.leaving.flatten).Subperm (s.log.map Prod.snd) ∧
      ∀ pre nowUs post, ls = pre ++ .call nowUs .stop :: post →
        ∃ t, (lts clockRate createdUs).Run s₀ pre t ∧ s.log = t.log := by
  have ht := historical_traffic.reachable h0 hr
  refine ⟨?_, ht.once, ?_⟩
  · intro m hm
    obtain ⟨e, he, rfl⟩ := List.mem_map.mp (ht.once.subset (List.mem_append_left _ hm))
    exact ht.made e he
  · intro pre nowUs post hls
    subst hls
    obtain ⟨t, hpre, hpost⟩ := hr.split
    cases hpost with
    | cons hst hrest =>
      obtain ⟨-, rfl⟩ := hst
      refine ⟨t, hpre, ?_⟩
      rw [stopped_log hrest rfl]
      exact List.append_nil _

theorem shortRun_accepted : firstPli ∈ left.wire ∧ Accepted firstPli ∧ firstPli.ssrc ∈ heard shortRun :=
  ⟨List.mem_singleton.mpr rfl, (wire_accepted rfl run_shortRun).1 firstPli (List.mem_singleton.mpr rfl)⟩

/-! ## When -/

def times (k : Kind) (log : List (Int × Sent)) : List Int := (log.filter fun e => e.2.kind = k).map Prod.fst

def feedbacks (log : List (Int × Sent)) : List (Int × Sent) := log.filter fun e => e.2.kind = .twcc

/-- A transport feedback follows another after 25 ms, or covers 16 packets. -/
def Follows (a b : Int × Sent) : Prop := a.1 + 25 ≤ b.1 ∨ 16 ≤ covered b.2

theorem filter_made (P : Sent → Bool) (now : Int) (log : List (Int × Sent)) (made : List Sent) :
    (log ++ made.map fun m => (now, m)).filter (fun e => P e.2) =
      log.filter (fun e => P e.2) ++ (made.filter P).map fun m => (now, m) := by
  rw [List.filter_append, List.filter_map]
  rfl

theorem times_made (k : Kind) (now : Int) (log : List (Int × Sent)) (made : List Sent) :
    times k (log ++ made.map fun m => (now, m)) = times k log ++ (ofKind k made).map fun _ => now := by
  unfold times ofKind
  rw [filter_made (fun m => m.kind = k), List.map_append, List.map_map]
  rfl

/-- A timer, and the times at which it has fired. -/
structure Clocked (d t last : Int) (ts : List Int) : Prop where
  spaced : Spaced d t ts
  last_eq : ts.getLastD t = last

theorem Clocked.next {d t now last last' : Int} {ts : List Int} {ms : List Sent} (h : Clocked d t last ts)
    (ht : Timer d now last last' ms) : Clocked d t last' (ts ++ ms.map fun _ => now) := by
  cases ht with
  | idle =>
    rw [List.map_nil, List.append_nil]
    exact h
  | fired due m => exact ⟨h.spaced.snoc (h.last_eq ▸ due), List.getLastD_concat ..⟩

/-- The same of the transport feedback, which may restart without a packet. -/
structure Following (now last : Int) (es : List (Int × Sent)) : Prop where
  chain : es.IsChain Follows
  last_le : ∀ e ∈ es.getLast?, e.1 ≤ last
  le_now : last ≤ now

theorem Following.next {now now' last last' : Int} {es : List (Int × Sent)} {ms : List Sent}
    (h : Following now last es) (hnow : now ≤ now') (ht : TwccTimer now' last last' ms) :
    Following now' last' (es ++ ms.map fun m => (now', m)) := by
  have hle := h.le_now.trans hnow
  cases ht with
  | idle =>
    rw [List.map_nil, List.append_nil]
    exact ⟨h.chain, h.last_le, hle⟩
  | empty =>
    rw [List.map_nil, List.append_nil]
    exact ⟨h.chain, fun e he => (h.last_le e he).trans hle, Int.le_refl _⟩
  | fired m due =>
    refine ⟨List.isChain_append.mpr ⟨h.chain, List.isChain_singleton _, ?_⟩, ?_,
      Int.le_refl _⟩
    · intro e he f hf
      cases hf
      have hlast := h.last_le e he
      exact due.imp_left fun hlate => show e.1 + 25 ≤ now' by omega
    · intro e he
      rw [List.map_singleton, List.getLast?_concat] at he
      cases he
      exact Int.le_refl _

structure Paced (t : Int) (s : State) : Prop where
  report : Clocked 500 t s.session.lastRr (times .report s.log)
  remb : Clocked 1000 t s.session.lastRemb (times .remb s.log)
  twcc : Following (s.clockUs.tdiv 1000) s.session.lastTwcc (feedbacks s.log)

theorem Paced.called {t : Int} {s : State} (h : Paced t s) {nowUs : Int} (hclock : s.clockUs ≤ nowUs) (c : Call) :
    Paced t (called s nowUs c) := by
  obtain ⟨heffect, -⟩ := perform_effect s.session nowUs c
  have hfeedbacks : feedbacks (RtcpSession.called s nowUs c).log = feedbacks s.log ++
      (ofKind .twcc (perform s.session nowUs c).made).map fun m => (nowUs.tdiv 1000, m) :=
    filter_made (fun m => m.kind = .twcc) ..
  refine ⟨?_, ?_, ?_⟩
  · exact times_made .. ▸ h.report.next heffect.report
  · exact times_made .. ▸ h.remb.next heffect.remb
  · exact hfeedbacks ▸ h.twcc.next (Int.tdiv_le_tdiv (by decide) hclock) heffect.twcc

theorem inductive_paced : (lts clockRate createdUs).Inductive (Paced (createdUs.tdiv 1000)) where
  init s hs := by
    rw [hs]
    exact ⟨⟨.nil _ _, rfl⟩, ⟨.nil _ _, rfl⟩, ⟨.nil, nofun, Int.le_refl _⟩⟩
  step s l s' h hst := by
    cases l with
    | call nowUs c =>
      obtain ⟨hclock, rfl⟩ := hst
      exact h.called hclock c
    | deliver i =>
      obtain ⟨m, rest, -, rfl⟩ := hst
      exact ⟨h.report, h.remb, h.twcc⟩

/-- **How often.** In every run receiver reports are at least 500 ms apart, the
first 500 ms after the session began, and the bitrate limits of the feedback
1000 ms; a transport feedback follows another after 25 ms unless it covers 16
packets. -/
theorem traffic_paced {s : State} (h : (lts clockRate createdUs).Reachable s) :
    Spaced 500 (createdUs.tdiv 1000) (times .report s.log) ∧
      Spaced 1000 (createdUs.tdiv 1000) (times .remb s.log) ∧ (feedbacks s.log).IsChain Follows ∧
      500 * (times .report s.log).length ≤ s.session.lastRr - createdUs.tdiv 1000 ∧
      1000 * (times .remb s.log).length ≤ s.session.lastRemb - createdUs.tdiv 1000 := by
  have hp := inductive_paced.reachable s h
  have hreports := hp.report.spaced.count_le
  have hrembs := hp.remb.spaced.count_le
  rw [hp.report.last_eq] at hreports
  rw [hp.remb.last_eq] at hrembs
  exact ⟨hp.report.spaced, hp.remb.spaced, hp.twcc.chain, by omega, by omega⟩

theorem shortRun_paced : times .report left.log = [500] ∧ Spaced 500 0 (times .report left.log) :=
  ⟨rfl, (traffic_paced reachable_left).1⟩

/-! ## Requests for a key frame -/

def requested (log : List (Int × Sent)) : List (Int × Sent) :=
  log.filter fun e => e.2.kind = .pli ∨ e.2.kind = .fir

/-- Both packets of the `n`-th request. -/
def request (n : Nat) (r : Int × UInt32) : List (Int × Sent) :=
  [(r.1, ⟨.pli, pli r.2, r.2⟩), (r.1, ⟨.fir, fir r.2 (UInt8.ofNat n), r.2⟩)]

def requests (rs : List (Int × UInt32)) : List (Int × Sent) := (rs.mapIdx request).flatten

/-- The time before the clock's zero stands for no request. -/
def Apart (a b : Int × UInt32) : Prop := 0 ≤ a.1 → a.1 + 50 ≤ b.1

structure Requesting (last : Int) (n : UInt8) (es : List (Int × Sent)) (rs : List (Int × UInt32)) : Prop where
  entries : es = requests rs
  number : n = UInt8.ofNat rs.length
  apart : rs.IsChain Apart
  last_eq : ∀ r ∈ rs.getLast?, r.1 = last

theorem Requesting.next {now last last' : Int} {n n' : UInt8} {es : List (Int × Sent)} {rs : List (Int × UInt32)}
    {ms : List Sent} (h : Requesting last n es rs) (ht : KeyframeTimer now last n last' n' ms) :
    ∃ rs', Requesting last' n' (es ++ ms.map fun m => (now, m)) rs' := by
  cases ht with
  | idle =>
    rw [List.map_nil, List.append_nil]
    exact ⟨rs, h⟩
  | fired due ssrc =>
    refine ⟨rs ++ [(now, ssrc)], ?_, ?_, ?_, ?_⟩
    · rw [h.entries, requests, requests, List.mapIdx_concat, List.flatten_append, List.flatten_singleton, request,
        h.number]
      rfl
    · rw [h.number, List.length_append, UInt8.ofNat_add]
      rfl
    · refine List.isChain_append.mpr ⟨h.apart, List.isChain_singleton _, ?_⟩
      intro a ha b hb hpos
      cases hb
      have hlast := h.last_eq a ha
      change a.1 + 50 ≤ now
      omega
    · intro r hr
      rw [List.getLast?_concat] at hr
      cases hr
      rfl

theorem inductive_requests : (lts clockRate createdUs).Inductive fun s =>
    ∃ rs, Requesting s.session.lastPli s.session.firSequence (requested s.log) rs where
  init s hs := by
    rw [hs]
    exact ⟨[], rfl, rfl, .nil, nofun⟩
  step s l s' h hst := by
    obtain ⟨rs, h⟩ := h
    cases l with
    | call nowUs c =>
      obtain ⟨-, rfl⟩ := hst
      have hrequested : requested (called s nowUs c).log = requested s.log ++
          (keyframes (perform s.session nowUs c).made).map fun m => (nowUs.tdiv 1000, m) :=
        filter_made (fun m => m.kind = .pli ∨ m.kind = .fir) ..
      exact hrequested ▸ h.next (perform_effect s.session nowUs c).1.keyframe
    | deliver i =>
      obtain ⟨m, rest, -, rfl⟩ := hst
      exact ⟨rs, h⟩

/-- **Requests for a key frame.** In every run each request is the loss
indication and then the full request, for one source; the full requests count
up from 0, also over a change of the source; and a request follows one at a time
that is not negative after 50 ms. -/
theorem keyframe_requests {s : State} (h : (lts clockRate createdUs).Reachable s) :
    ∃ rs, requested s.log = requests rs ∧ rs.IsChain Apart ∧ s.session.firSequence = UInt8.ofNat rs.length := by
  obtain ⟨rs, hr⟩ := inductive_requests.reachable s h
  exact ⟨rs, hr.entries, hr.apart, hr.number⟩

theorem shortRun_requests : left.session.firSequence = 1 ∧
    ∃ rs, requested left.log = requests rs ∧ rs.IsChain Apart ∧ left.session.firSequence = UInt8.ofNat rs.length :=
  ⟨rfl, keyframe_requests reachable_left⟩

/-! ## What a report says -/

/-- A report `b` at `now`, read as its receiver reads it, against the packets
counted since the source began (`RtcpReception`). -/
structure Reads (t : Tracked) (now : Int) (b : Bytes) : Prop where
  source : word b 8 = t.session.ssrc
  highest : (word b 16).toNat = t.session.highest.toNat % 2 ^ 32
  within : t.history.accepted.Nodup ∧ ∀ x ∈ t.history.accepted, t.session.base ≤ x ∧ x ≤ t.session.highest
  missing : spanned t.session < 2 ^ 64 → (word b 12).toNat % 2 ^ 24 =
    min 0x7fffff (spanned t.session - t.history.accepted.length)
  fraction : spanned t.session < 2 ^ 64 → lost t < 2 ^ 56 → (word b 12).toNat / 2 ^ 24 =
    min 255 (256 * lost t / (spanned t.session - t.history.expected))
  /-- the middle of the time the last sender report gave -/
  lastReport : (word b 24).toNat = t.session.srNtp.toNat / 2 ^ 16 % 2 ^ 32
  /-- since then, in units of 1/65536 s -/
  delay : t.session.srArrivalMs ≤ now → now < t.session.srArrivalMs + 2 ^ 48 → (word b 28).toNat =
    if 0 ≤ t.session.srArrivalMs then min (2 ^ 32 - 1) ((now - t.session.srArrivalMs).toNat * 65536 / 1000) else 0

theorem toNat_min (a b : UInt64) : (min a b).toNat = min a.toNat b.toNat := by
  change (if a ≤ b then a else b).toNat = _
  split
  · rename_i h
    exact (Nat.min_eq_left (UInt64.le_iff_toNat_le.mp h)).symm
  · rename_i h
    exact (Nat.min_eq_right (UInt64.le_iff_toNat_le.mp (UInt64.le_of_lt (UInt64.not_le.mp h)))).symm

section Words
variable (s : L2.RtcpReception.Session) (now : Int)

/-- The packets missing, as the report has them. -/
def missing : UInt32 := (min 8388607 (excess (s.highest - s.base + 1) s.received)).toUInt32

theorem word_lost : word (report s now).1 12 = be32 ((report s now).1.getD 12 0)
    (UInt8.ofNat ((missing s).toNat >>> 16)) (UInt8.ofNat ((missing s).toNat >>> 8)) (UInt8.ofNat (missing s).toNat) :=
  rfl

theorem word_highest : word (report s now).1 16 = s.highest.toUInt32 := be32_word _

theorem word_lastReport : word (report s now).1 24 = (s.srNtp >>> 16).toUInt32 := be32_word _

theorem word_delay : word (report s now).1 28 = (min 4294967295 (if 0 ≤ s.srArrivalMs ∧ s.srArrivalMs ≤ now then
    UInt64.ofInt (now - s.srArrivalMs) * 65536 / 1000 else 0)).toUInt32 := be32_word _

theorem lost_toNat : (word (report s now).1 12).toNat % 2 ^ 24 = (missing s).toNat ∧
    (word (report s now).1 12).toNat / 2 ^ 24 = ((report s now).1.getD 12 0).toNat := by
  have hmissing : (missing s).toNat ≤ 8388607 := by
    unfold missing
    rw [UInt64.toNat_toUInt32, toNat_min]
    exact (Nat.mod_le _ _).trans (Nat.min_le_left _ _)
  rw [word_lost, be32_toNat]
  simp only [UInt8.toNat_ofNat', Nat.shiftRight_eq_div_pow]
  omega

theorem delay_toNat (hle : s.srArrivalMs ≤ now) (hlt : now < s.srArrivalMs + 2 ^ 48) :
    (word (report s now).1 28).toNat =
      if 0 ≤ s.srArrivalMs then min (2 ^ 32 - 1) ((now - s.srArrivalMs).toNat * 65536 / 1000) else 0 := by
  rw [word_delay, UInt64.toNat_toUInt32, toNat_min]
  split
  · rename_i h
    rw [if_pos h.1]
    have hofInt : (UInt64.ofInt (now - s.srArrivalMs)).toNat = (now - s.srArrivalMs).toNat := by
      obtain ⟨n, hn⟩ := Int.eq_ofNat_of_zero_le (show 0 ≤ now - s.srArrivalMs by omega)
      rw [hn, Int.toNat_natCast]
      change (UInt64.ofNat (Int.toNat _)).toNat = n
      rw [UInt64.toNat_ofNat']
      omega
    rw [UInt64.toNat_div, UInt64.toNat_mul, hofInt]
    simp only [UInt64.reduceToNat]
    rw [Nat.mod_eq_of_lt (show (now - s.srArrivalMs).toNat * 65536 < 2 ^ 64 by omega)]
    exact Nat.mod_eq_of_lt (by omega)
  · rename_i h
    rw [if_neg fun hpos => h ⟨hpos, hle⟩]
    rfl

end Words

theorem sound_reads {t : Tracked} (h : Sound t) (now : Int) : Reads t now (report t.session now).1 := by
  have hlength := h.length_le
  refine ⟨be32_word _, ?_, ⟨h.nodup, fun x hx => ⟨UInt64.le_iff_toNat_le.mpr (h.low x hx),
    UInt64.le_iff_toNat_le.mpr (h.tracks x hx).1⟩⟩, ?_, ?_, ?_, ?_⟩
  · rw [word_highest, UInt64.toNat_toUInt32]
  · intro hspan
    have hexcess : (excess (t.session.highest - t.session.base + 1) t.session.received).toNat =
        spanned t.session - t.history.accepted.length := by
      rw [L2.RtcpReception.excess_toNat, L2.RtcpReception.span_eq h.base_le, h.received,
        L2.RtcpReception.toNat_ofNat hspan, L2.RtcpReception.toNat_ofNat (by omega)]
    rw [(lost_toNat t.session now).1, missing, UInt64.toNat_toUInt32, toNat_min, hexcess]
    simp only [UInt64.reduceToNat]
    omega
  · intro hspan hlost
    rw [(lost_toNat t.session now).2]
    exact h.fraction hspan hlost now
  · rw [word_lastReport, UInt64.toNat_toUInt32, UInt64.toNat_shiftRight]
    simp [Nat.shiftRight_eq_div_pow]
  · exact delay_toNat t.session now

theorem inductive_sound : (lts clockRate createdUs).Inductive fun s => Sound s.session.reception where
  init s hs := by
    rw [hs]
    exact L2.RtcpReception.sound_reset { clockRate } 0
  step s l s' h hst := by
    cases l with
    | call nowUs c =>
      obtain ⟨-, rfl⟩ := hst
      exact (perform_effect s.session nowUs c).1.sound h
    | deliver i =>
      obtain ⟨m, rest, -, rfl⟩ := hst
      exact h

/-- **What a report says**, in every run: whatever call makes it, it tells what
the session has counted when the call's messages have been looked at, since the
source began and since the report before. -/
theorem report_reads {s : State} (h : (lts clockRate createdUs).Reachable s) {nowUs : Int} {c : Call} {m : Sent}
    (hm : m ∈ (perform s.session nowUs c).made) (hk : m.kind = .report) :
    (perform s.session nowUs c).session.reception =
        track (counted s.session nowUs c) (.report (nowUs.tdiv 1000)) ∧
      Reads (counted s.session nowUs c) (nowUs.tdiv 1000) m.bytes := by
  have heffect := (perform_effect s.session nowUs c).1
  obtain ⟨htrack, hbytes⟩ := heffect.reported m hm hk
  refine ⟨htrack, ?_⟩
  rw [hbytes]
  exact sound_reads (heffect.counted (inductive_sound.reachable s h)) _

theorem shortRun_reads : ∃ m, m ∈ (perform (called begun 0 arrival).session 500000 (.flushFeedback 0)).made ∧
    Reads (called begun 0 arrival).session.reception 500 m.bytes := by
  obtain ⟨m, hm⟩ : ∃ m, (perform (called begun 0 arrival).session 500000 (.flushFeedback 0)).made = [m] := ⟨_, rfl⟩
  have hmem := hm ▸ List.mem_singleton.mpr (rfl : m = m)
  have hkind : m.kind = .report := by
    cases hm
    rfl
  exact ⟨m, hmem, (report_reads reachable_arrival hmem hkind).2⟩

end KmVirtualCamera.L4.RtcpTraffic
