import Mathlib

/-!
# Words inside texts put together from parts

A word occurs in a text of parts (`<:+:`) only where the symbols that stand
between the parts let it.

* `infix_stop`, `infix_mid`: no occurrence of a word goes across a symbol it does
  not have.
* `infix_skip`: a word is not looked for before its first symbol can stand.
* `infix_around`: a symbol the word and the text have once pins the occurrence.
* `filter_map_iff`: to filter by what is written or by what is meant is the same
  when the two agree on each member.
-/
namespace KmVirtualCamera

variable {α β : Type*} {w v a b : List α} {c d : α}

theorem prefix_cons_absent (hd : d ∉ w) : w <+: d :: b ↔ w = [] := by
  constructor
  · intro h
    cases w with
    | nil => rfl
    | cons x xs =>
      rw [List.cons_prefix_cons] at h
      exact absurd (h.1 ▸ List.mem_cons_self) hd
  · intro h
    exact h ▸ List.nil_prefix

theorem infix_cons_absent (hd : d ∉ w) : w <:+: d :: b ↔ w <:+: b := by
  refine ⟨?_, List.infix_cons⟩
  intro h
  rcases List.infix_cons_iff.1 h with h | h
  · rw [(prefix_cons_absent hd).1 h]
    exact List.nil_infix
  · exact h

/-- A word that has not the symbol after a part is in the part or behind it. -/
theorem infix_stop (hb : ∀ d ∈ b.head?, d ∉ w) : w <:+: a ++ b ↔ w <:+: a ∨ w <:+: b := by
  constructor
  · intro h
    rcases List.infix_append_iff.1 h with h | h | ⟨r, s, rfl, hr, hs⟩
    · exact .inl h
    · exact .inr h
    · cases s with
      | nil => exact .inl ((List.append_nil r).symm ▸ hr.isInfix)
      | cons x xs =>
        obtain ⟨y, rfl⟩ := hs
        exact absurd (List.mem_append_right r List.mem_cons_self) (hb x (by simp))
  · intro h
    rcases h with h | h
    · exact List.infix_append_of_infix_left h
    · exact List.infix_append_of_infix_right h

theorem infix_mid (hd : d ∉ w) : w <:+: a ++ d :: b ↔ w <:+: a ∨ w <:+: b := by
  rw [infix_stop (by simpa using hd), infix_cons_absent hd]

theorem infix_skip (hc : c ∉ a) : (c :: w) <:+: a ++ b ↔ (c :: w) <:+: b := by
  refine ⟨?_, List.infix_append_of_infix_right⟩
  intro h
  rcases List.infix_append_iff.1 h with h | h | ⟨r, s, hrs, hr, hs⟩
  · exact absurd (h.subset List.mem_cons_self) hc
  · exact h
  · cases r with
    | nil =>
      rw [List.nil_append] at hrs
      exact (hrs ▸ hs).isInfix
    | cons x xs =>
      rw [List.cons_append, List.cons.injEq] at hrs
      exact absurd (hr.subset (hrs.1 ▸ List.mem_cons_self)) hc

theorem infix_head : (c :: w) <:+: c :: b ↔ w <+: b ∨ (c :: w) <:+: b := by
  rw [List.infix_cons_iff, List.cons_prefix_cons]
  simp only [true_and]

theorem not_infix_of_absent (hc : c ∈ w) (ha : c ∉ a) : ¬ w <:+: a := fun h => ha (h.subset hc)

theorem infix_around (ha : c ∉ a) (hb : c ∉ b) :
    (v ++ c :: w) <:+: a ++ c :: b ↔ v <:+ a ∧ w <+: b := by
  constructor
  · intro h
    obtain ⟨x, y, hxy⟩ := h
    have hsplit : (x ++ v) ++ c :: (w ++ y) = a ++ c :: b := by simpa using hxy
    obtain ⟨hxv, -, hwy⟩ := (List.append_cons_inj_of_notMem ha hb).1 hsplit.symm
    exact ⟨⟨x, hxv.symm⟩, ⟨y, hwy.symm⟩⟩
  · intro h
    obtain ⟨⟨x, rfl⟩, ⟨y, rfl⟩⟩ := h
    exact ⟨x, y, by simp⟩

/-- A word that has not the symbol after a part starts in the part or not at all. -/
theorem prefix_stop (hb : ∀ d ∈ b.head?, d ∉ w) : w <+: a ++ b ↔ w <+: a := by
  refine ⟨?_, fun h => h.trans (List.prefix_append a b)⟩
  intro h
  rcases List.prefix_or_prefix_of_prefix h (List.prefix_append a b) with hw | hw
  · exact hw
  · obtain ⟨s, rfl⟩ := hw
    have hs : s <+: b := (List.prefix_append_right_inj a).1 h
    cases s with
    | nil => simp
    | cons x xs =>
      obtain ⟨y, rfl⟩ := hs
      exact absurd (List.mem_append_right a List.mem_cons_self) (hb x (by simp))

/-- Two filters on the members of a list that keep the same written members keep
the same members. -/
theorem filter_map_iff [DecidableEq β] (f : α → β) (p : β → Bool) (q : α → Bool) (l : List α) :
    (l.map f).filter p = (l.filter q).map f ↔ ∀ x ∈ l, p (f x) = q x := by
  constructor
  · intro h x hx
    -- count what is written like `x`
    have hcount := congrArg (List.count (f x)) h
    cases hp : p (f x) with
    | true =>
      set same := l.filter fun y => f y == f x
      have hall : (same.filter q).length = same.length := by
        rw [List.count_filter hp, List.count_eq_countP, List.count_eq_countP, List.countP_map,
          List.countP_map, List.countP_filter, List.countP_eq_length_filter,
          List.countP_eq_length_filter] at hcount
        simpa [same, List.filter_filter, Bool.and_comm, Function.comp_def] using hcount.symm
      have hself := List.filter_eq_self.1 (List.filter_sublist.eq_of_length hall)
      exact (hself x (List.mem_filter.2 ⟨hx, by simp⟩)).symm
    | false =>
      have hnone : f x ∉ (l.map f).filter p := fun hm => by simp [hp] at hm
      rw [h] at hnone
      by_contra hq
      exact hnone (List.mem_map_of_mem (List.mem_filter.2 ⟨hx, by simpa using Ne.symm hq⟩))
  · intro h
    rw [List.filter_map]
    exact congrArg (List.map f) (List.filter_congr h)

end KmVirtualCamera
