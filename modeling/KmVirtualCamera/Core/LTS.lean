import Mathlib

/-!
# Labelled transition systems

The one vocabulary every machine of this development is stated in. A run is
a list of labels between two states; a label may carry what the step put out,
so the labels of a run are also its trace.

* `Inductive.reachable`: an inductive invariant holds in every reachable state.
* `Historical.reachable`: the same for a predicate that also reads the labels
  of the run so far.
* `guarded`: the system cut down to the steps that meet a condition.
* `Simulation.reachable`: what one system reaches has a counterpart in another.
* `play`: a run of a next-state function, for systems whose steps are one.
* `EachAfter.snoc`: a log whose entries are judged by those before them grows.
* `since_snoc`: so does what has been there since the last entry of some kind.
* `collect`: what the calls of a deterministic machine put out, in order.
* `eachAfter_iff`, `prefixes_iff`: what every step of such a machine does, when
  its steps do it unless they are of one bad kind.
-/
namespace KmVirtualCamera

structure LTS (S L : Type*) where
  init : S → Prop
  step : S → L → S → Prop

namespace LTS

variable {S L : Type*}

/-- `Run s ls s'`: the labels `ls`, in order, lead from `s` to `s'`. -/
inductive Run (M : LTS S L) : S → List L → S → Prop
  | nil (s : S) : Run M s [] s
  | cons {s s' s'' : S} {l : L} {ls : List L} :
      M.step s l s' → Run M s' ls s'' → Run M s (l :: ls) s''

variable {M : LTS S L}

theorem Run.append {a b d : S} {l₁ l₂ : List L} (h₁ : M.Run a l₁ b) (h₂ : M.Run b l₂ d) :
    M.Run a (l₁ ++ l₂) d := by
  induction h₁ with
  | nil => exact h₂
  | cons hs _ ih => exact .cons hs (ih h₂)

theorem Run.snoc {a b d : S} {ls : List L} {l : L} (h : M.Run a ls b) (hs : M.step b l d) :
    M.Run a (ls ++ [l]) d :=
  h.append (.cons hs (.nil _))

/-- A run over an appended trace passes through a state in between. -/
theorem Run.split {a d : S} {l₂ : List L} : ∀ {l₁ : List L}, M.Run a (l₁ ++ l₂) d →
    ∃ b, M.Run a l₁ b ∧ M.Run b l₂ d
  | [], h => ⟨a, .nil a, h⟩
  | l :: l₁, h => by
    cases h with
    | cons hs ht =>
      obtain ⟨b, h₁, h₂⟩ := Run.split ht
      exact ⟨b, .cons hs h₁, h₂⟩

def Reachable (M : LTS S L) (s : S) : Prop := ∃ s₀ ls, M.init s₀ ∧ M.Run s₀ ls s

/-- The invariant rule. -/
structure Inductive (M : LTS S L) (I : S → Prop) : Prop where
  init : ∀ s, M.init s → I s
  step : ∀ s l s', I s → M.step s l s' → I s'

theorem Inductive.run {I : S → Prop} (h : M.Inductive I) {s s' : S} {ls : List L}
    (hr : M.Run s ls s') (hs : I s) : I s' := by
  induction hr with
  | nil => exact hs
  | cons hst _ ih => exact ih (h.step _ _ _ hs hst)

theorem Inductive.reachable {I : S → Prop} (h : M.Inductive I) (s : S) (hr : M.Reachable s) :
    I s := by
  obtain ⟨s₀, ls, h0, hrun⟩ := hr
  exact h.run hrun (h.init s₀ h0)

/-- The invariant rule for predicates over the labels so far and the state
they led to. -/
structure Historical (M : LTS S L) (I : List L → S → Prop) : Prop where
  init : ∀ s, M.init s → I [] s
  step : ∀ ls s l s', I ls s → M.step s l s' → I (ls ++ [l]) s'

theorem Historical.run {I : List L → S → Prop} (h : M.Historical I) {s s' : S} {ls : List L}
    (hr : M.Run s ls s') : ∀ {pre : List L}, I pre s → I (pre ++ ls) s' := by
  induction hr with
  | nil => intro pre hp; simpa using hp
  | cons hst _ ih =>
    intro pre hp
    have := ih (h.step _ _ _ _ hp hst)
    simpa using this

theorem Historical.reachable {I : List L → S → Prop} (h : M.Historical I) {s₀ s : S} {ls : List L}
    (h0 : M.init s₀) (hr : M.Run s₀ ls s) : I ls s := by
  simpa using h.run hr (h.init s₀ h0)

/-- The system cut down to the steps that meet `G`. -/
def guarded (M : LTS S L) (G : S → L → Prop) : LTS S L where
  init := M.init
  step s l s' := M.step s l s' ∧ G s l

theorem Run.of_guarded {G : S → L → Prop} {s s' : S} {ls : List L} (h : (M.guarded G).Run s ls s') :
    M.Run s ls s' := by
  induction h with
  | nil => exact .nil _
  | cons hs _ ih => exact .cons hs.1 ih

theorem Run.guard {G G' : S → L → Prop} (hG : ∀ s l, G s l → G' s l) {s s' : S} {ls : List L}
    (h : (M.guarded G).Run s ls s') : (M.guarded G').Run s ls s' := by
  induction h with
  | nil => exact .nil _
  | cons hs _ ih => exact .cons ⟨hs.1, hG _ _ hs.2⟩ ih

/-- The simulation rule: each step of `M` is one of `N`, and `R` is kept. -/
structure Simulation {S' L' : Type*} (M : LTS S L) (N : LTS S' L') (R : S → S' → Prop) : Prop where
  init : ∀ s, M.init s → ∃ t, N.init t ∧ R s t
  step : ∀ s l s' t, R s t → M.step s l s' → ∃ l' t', N.step t l' t' ∧ R s' t'

theorem Simulation.run {S' L' : Type*} {N : LTS S' L'} {R : S → S' → Prop} (h : Simulation M N R) {s s' : S}
    {ls : List L} (hr : M.Run s ls s') : ∀ {t : S'}, R s t → ∃ ls' t', N.Run t ls' t' ∧ R s' t' := by
  induction hr with
  | nil => exact fun hR => ⟨[], _, .nil _, hR⟩
  | cons hst _ ih =>
    intro t hR
    obtain ⟨l', u, hu, hRu⟩ := h.step _ _ _ _ hR hst
    obtain ⟨ls', t', hrun, hR'⟩ := ih hRu
    exact ⟨l' :: ls', t', .cons hu hrun, hR'⟩

theorem Simulation.reachable {S' L' : Type*} {N : LTS S' L'} {R : S → S' → Prop} (h : Simulation M N R) {s : S}
    (hr : M.Reachable s) : ∃ t, N.Reachable t ∧ R s t := by
  obtain ⟨s₀, ls, h0, hrun⟩ := hr
  obtain ⟨t₀, ht0, hR0⟩ := h.init s₀ h0
  obtain ⟨ls', t, hrun', hR⟩ := h.run hrun hR0
  exact ⟨t, ⟨t₀, ls', ht0, hrun'⟩, hR⟩

section Play
variable {next : S → L → Option S} {G : S → L → Prop} [∀ s l, Decidable (G s l)]

/-- The labels played one after the other, each where `G` allows it. -/
def play (next : S → L → Option S) (G : S → L → Prop) [∀ s l, Decidable (G s l)] :
    S → List L → Option S
  | s, [] => some s
  | s, l :: ls => if G s l then (next s l).bind fun t => play next G t ls else none

/-- The state a played run leads to, `s` itself if it cannot be played. -/
def played (next : S → L → Option S) (G : S → L → Prop) [∀ s l, Decidable (G s l)] (s : S)
    (ls : List L) : S :=
  (play next G s ls).getD s

theorem play_run (hstep : ∀ s l s', next s l = some s' → M.step s l s') : ∀ {ls : List L} {s s' : S},
    play next G s ls = some s' → (M.guarded G).Run s ls s'
  | [], s, s', h => by
    cases h
    exact .nil s
  | l :: ls, s, s', h => by
    unfold play at h
    split at h
    · obtain ⟨t, ht, h⟩ := Option.bind_eq_some_iff.mp h
      exact .cons ⟨hstep _ _ _ ht, ‹_›⟩ (play_run hstep h)
    · cases h

theorem played_run (hstep : ∀ s l s', next s l = some s' → M.step s l s') {s : S} {ls : List L}
    (h : (play next G s ls).isSome = true) : (M.guarded G).Run s ls (played next G s ls) := by
  obtain ⟨t, ht⟩ := Option.isSome_iff_exists.mp h
  have hplayed : played next G s ls = t := by
    unfold played
    rw [ht, Option.getD_some]
  rw [hplayed]
  exact play_run hstep ht

end Play
end LTS

/-! ## Logs

A log is read from its start: an entry is judged by the entries before it. -/

section Log
variable {α : Type*}

/-- Every entry of the log satisfies `P` of the entries before it. -/
def EachAfter (P : List α → α → Prop) (l : List α) : Prop :=
  ∀ pre x post, l = pre ++ x :: post → P pre x

theorem eachAfter_nil (P : List α → α → Prop) : EachAfter P [] := by
  intro pre x post h
  simp at h

theorem EachAfter.snoc {P : List α → α → Prop} {l : List α} {m : α} (h : EachAfter P l)
    (hm : P l m) : EachAfter P (l ++ [m]) := by
  intro pre x post heq
  rcases List.eq_nil_or_concat post with rfl | ⟨post', y, rfl⟩
  · obtain ⟨rfl, hx⟩ := List.append_inj' heq (by simp)
    rw [List.singleton_inj.mp hx] at hm
    exact hm
  · have hl : l ++ [m] = (pre ++ x :: post') ++ [y] := by simpa using heq
    exact h pre x post' (List.append_inj' hl rfl).1

theorem EachAfter.left {P : List α → α → Prop} {l m : List α} (h : EachAfter P (l ++ m)) :
    EachAfter P l := by
  intro pre x post heq
  exact h pre x (post ++ m) (by rw [heq, List.append_assoc, List.cons_append])

/-- There is an entry with `P`, and none with `Q` after it. -/
def Since (P Q : α → Prop) (l : List α) : Prop :=
  ∃ pre x post, l = pre ++ x :: post ∧ P x ∧ ∀ y ∈ post, ¬ Q y

variable {P Q : α → Prop} {l : List α} {m : α}

theorem not_since_nil (P Q : α → Prop) : ¬ Since P Q [] := by
  rintro ⟨pre, x, post, h, -⟩
  simp at h

theorem since_snoc : Since P Q (l ++ [m]) ↔ P m ∨ Since P Q l ∧ ¬ Q m := by
  constructor
  · rintro ⟨pre, x, post, heq, hx, hpost⟩
    rcases List.eq_nil_or_concat post with rfl | ⟨post', y, rfl⟩
    · obtain ⟨-, hm⟩ := List.append_inj' heq (by simp)
      rw [List.singleton_inj.mp hm]
      exact .inl hx
    · have hl : l ++ [m] = (pre ++ x :: post') ++ [y] := by simpa using heq
      obtain ⟨rfl, hm⟩ := List.append_inj' hl rfl
      rw [List.singleton_inj.mp hm]
      exact .inr ⟨⟨pre, x, post', rfl, hx, fun z hz => hpost z (by simp [hz])⟩, hpost y (by simp)⟩
  · rintro (hm | ⟨⟨pre, x, post, rfl, hx, hpost⟩, hm⟩)
    · exact ⟨l, m, [], rfl, hm, by simp⟩
    · refine ⟨pre, x, post ++ [m], by simp, hx, fun y hy => ?_⟩
      rcases List.mem_append.mp hy with hy | hy
      · exact hpost y hy
      · exact List.mem_singleton.mp hy ▸ hm

/-- An entry that neither begins nor ends it. -/
theorem since_skip (hP : ¬ P m) (hQ : ¬ Q m) : Since P Q (l ++ [m]) ↔ Since P Q l := by
  rw [since_snoc]
  exact ⟨fun h => h.elim (fun hm => absurd hm hP) And.left, fun h => .inr ⟨h, hQ⟩⟩

end Log

/-! ## Deterministic machines

A machine with one next state a call runs by `List.foldl`. -/

section Machine
variable {S L O : Type*} {step : S → L → S} {out : S → L → List O}

/-- The outputs of the calls `ls` made one after the other from `s`. -/
def collect (step : S → L → S) (out : S → L → List O) : S → List L → List O
  | _, [] => []
  | s, l :: ls => out s l ++ collect step out (step s l) ls

theorem collect_append (s : S) (xs ys : List L) :
    collect step out s (xs ++ ys) = collect step out s xs ++ collect step out (xs.foldl step s) ys := by
  induction xs generalizing s with
  | nil => rfl
  | cons x xs ih => simp [collect, ih]

theorem collect_snoc (s : S) (xs : List L) (x : L) :
    collect step out s (xs ++ [x]) = collect step out s xs ++ out (xs.foldl step s) x := by
  rw [collect_append]
  simp [collect]

theorem mem_collect {s : S} {ls : List L} {o : O} : o ∈ collect step out s ls ↔
    ∃ pre l post, ls = pre ++ l :: post ∧ o ∈ out (pre.foldl step s) l := by
  induction ls generalizing s with
  | nil => simp [collect]
  | cons x ls ih =>
    simp only [collect, List.mem_append, ih]
    constructor
    · rintro (h | ⟨pre, l, post, rfl, h⟩)
      · exact ⟨[], x, ls, rfl, h⟩
      · exact ⟨x :: pre, l, post, rfl, h⟩
    · rintro ⟨pre, l, post, heq, h⟩
      cases pre with
      | nil =>
        obtain ⟨rfl, rfl⟩ := List.cons.inj heq
        exact Or.inl h
      | cons y pre =>
        obtain ⟨rfl, rfl⟩ := List.cons.inj heq
        exact Or.inr ⟨pre, l, post, rfl, h⟩

/-- Every step has `P` if and only if none is bad. `J` holds always, and `I` as
long as there was no bad step. -/
theorem eachAfter_iff {J I : S → Prop} {P B : S → L → Prop} {s : S} (hJ : J s) (hI : I s)
    (hkeep : ∀ s l, J s → J (step s l)) (hgood : ∀ s l, J s → I s → ¬ B s l → P s l ∧ I (step s l))
    (hbad : ∀ s l, J s → I s → B s l → ¬ P s l) (ls : List L) :
    EachAfter (fun pre l => P (pre.foldl step s) l) ls ↔ EachAfter (fun pre l => ¬ B (pre.foldl step s) l) ls := by
  have hJall : ∀ pre : List L, J (pre.foldl step s) := fun pre => by
    induction pre using List.reverseRecOn with
    | nil => exact hJ
    | append_singleton pre l ih => simpa using hkeep _ l ih
  have hIall : ∀ pre post, EachAfter (fun pre l => ¬ B (pre.foldl step s) l) (pre ++ post) →
      I (pre.foldl step s) := fun pre => by
    induction pre using List.reverseRecOn with
    | nil => exact fun _ _ => hI
    | append_singleton pre l ih =>
      intro post h
      have hstep := hgood _ l (hJall pre) (ih (l :: post) (by simpa using h)) (h pre l post (by simp))
      simpa using hstep.2
  constructor
  · intro h
    induction ls using List.reverseRecOn with
    | nil => exact eachAfter_nil _
    | append_singleton ls l ih =>
      have hleft := ih h.left
      exact hleft.snoc fun hb => hbad _ l (hJall ls) (hIall ls [] (by simpa using hleft)) hb (h ls l [] rfl)
  · intro h pre l post heq
    subst heq
    exact (hgood _ l (hJall pre) (hIall pre (l :: post) h) (h pre l post rfl)).1

/-- A property of every state of a run that only bad steps break. -/
theorem prefixes_iff {J I : S → Prop} {B : S → L → Prop} {s : S} (hJ : J s) (hI : I s)
    (hkeep : ∀ s l, J s → J (step s l)) (hstep : ∀ s l, J s → I s → (I (step s l) ↔ ¬ B s l)) (ls : List L) :
    (∀ pre, pre <+: ls → I (pre.foldl step s)) ↔ EachAfter (fun pre l => ¬ B (pre.foldl step s) l) ls := by
  rw [← eachAfter_iff (P := fun s l => I (step s l)) hJ hI hkeep
    (fun s l hj hi hb => ⟨(hstep s l hj hi).mpr hb, (hstep s l hj hi).mpr hb⟩)
    (fun s l hj hi hb h => (hstep s l hj hi).mp h hb)]
  constructor
  · intro h pre l post heq
    have hpre := h (pre ++ [l]) ⟨post, by simp [heq]⟩
    simpa using hpre
  · intro h pre
    cases pre using List.reverseRecOn with
    | nil => exact fun _ => hI
    | append_singleton pre l =>
      rintro ⟨post, rfl⟩
      simpa using h pre l post (by simp)

end Machine
end KmVirtualCamera
