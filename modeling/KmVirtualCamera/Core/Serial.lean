import Mathlib.Data.List.Perm.Basic
import Mathlib.Logic.Function.Basic

/-!
# One-at-a-time orders

An object is a function from a state and an operation to the next state and a
result. Operations that overlap are *serialised* by an order in which they,
one at a time, give the same results and end in the same state.

* `Serial`: what one order gives.
* `Serialisable`: some order of the finished operations does, and the state
  that each unfinished one has read is a state this order passes through.
* `Serialisable.begins`, `.commits`, `.reads`: the three things an operation
  can do. It may act on what it read, if it leaves that as it is, however old
  the reading; to write, it must do what it would do now.
-/
namespace KmVirtualCamera

variable {S O R ι : Type*}

inductive Serial (apply : S → O → S × R) : S → List (O × R) → S → Prop
  | nil (s : S) : Serial apply s [] s
  | cons {s s' s'' : S} {o : O} {r : R} {es : List (O × R)} :
      apply s o = (s', r) → Serial apply s' es s'' → Serial apply s ((o, r) :: es) s''

variable {apply : S → O → S × R}

theorem Serial.append {a b d : S} {es fs : List (O × R)} (h₁ : Serial apply a es b)
    (h₂ : Serial apply b fs d) : Serial apply a (es ++ fs) d := by
  induction h₁ with
  | nil => exact h₂
  | cons ha _ ih => exact .cons ha (ih h₂)

theorem Serial.one {s s' : S} {o : O} {r : R} (h : apply s o = (s', r)) :
    Serial apply s [(o, r)] s' := .cons h (.nil s')

theorem Serial.split {a d : S} {fs : List (O × R)} : ∀ {es : List (O × R)}, Serial apply a (es ++ fs) d →
    ∃ b, Serial apply a es b ∧ Serial apply b fs d
  | [], h => ⟨a, .nil a, h⟩
  | e :: es, h => by
    cases h with
    | cons ha ht =>
      obtain ⟨b, h₁, h₂⟩ := Serial.split ht
      exact ⟨b, .cons ha h₁, h₂⟩

theorem Serial.det {a b b' : S} {es : List (O × R)} (h : Serial apply a es b)
    (h' : Serial apply a es b') : b = b' := by
  induction h with
  | nil => cases h'; rfl
  | cons ha _ ih =>
    cases h' with
    | cons ha' ht =>
      rw [ha] at ha'
      cases ha'
      exact ih ht

/-- The rest of an order leads from where its start ends. -/
theorem Serial.rest {a b d : S} {es fs : List (O × R)} (h : Serial apply a (es ++ fs) d)
    (h₁ : Serial apply a es b) : Serial apply b fs d := by
  obtain ⟨b', h₁', h₂⟩ := h.split
  rw [h₁.det h₁']
  exact h₂

/-- The order passes through the state `t`. -/
def Through (apply : S → O → S × R) (s₀ : S) (order : List (O × R)) (t s : S) : Prop :=
  ∃ pre post, order = pre ++ post ∧ Serial apply s₀ pre t ∧ Serial apply t post s

theorem Through.last {s₀ s : S} {order : List (O × R)} (h : Serial apply s₀ order s) :
    Through apply s₀ order s s :=
  ⟨order, [], (List.append_nil order).symm, h, .nil s⟩

theorem Through.snoc {s₀ t s s' : S} {order : List (O × R)} {o : O} {r : R}
    (h : Through apply s₀ order t s) (ha : apply s o = (s', r)) :
    Through apply s₀ (order ++ [(o, r)]) t s' := by
  obtain ⟨pre, post, rfl, h₁, h₂⟩ := h
  exact ⟨pre, post ++ [(o, r)], by simp, h₁, h₂.append (.one ha)⟩

/-- An operation that changes nothing fits in wherever its state is passed. -/
theorem Through.insert {s₀ t u s : S} {pre post : List (O × R)} {o : O} {r : R}
    (hpre : Serial apply s₀ pre u) (hpost : Serial apply u post s) (ha : apply u o = (u, r))
    (h : Through apply s₀ (pre ++ post) t s) : Through apply s₀ (pre ++ (o, r) :: post) t s := by
  obtain ⟨pre', post', heq, h₁, h₂⟩ := h
  rcases List.append_eq_append_iff.mp heq with ⟨mid, rfl, rfl⟩ | ⟨mid, rfl, rfl⟩
  · -- `t` is passed after `u`.
    refine ⟨pre ++ (o, r) :: mid, post', by simp, hpre.append (.cons ha (h₁.rest hpre)), h₂⟩
  · -- `t` is passed before `u`.
    refine ⟨pre', mid ++ (o, r) :: post, by simp, h₁, (hpre.rest h₁).append (.cons ha hpost)⟩

/-! ## Operations in flight -/

/-- The finished operations have an order, and each state read by an unfinished
one (`read i`) is on it. -/
def Serialisable (apply : S → O → S × R) (s₀ : S) (done : List (O × R)) (read : ι → Option S)
    (s : S) : Prop :=
  ∃ order, order.Perm done ∧ Serial apply s₀ order s ∧ ∀ i t, read i = some t → Through apply s₀ order t s

theorem Serialisable.start {s₀ : S} {read : ι → Option S} (h : ∀ i, read i = none) :
    Serialisable apply s₀ [] read s₀ :=
  ⟨[], .nil, .nil s₀, fun i t hi => by rw [h i] at hi; cases hi⟩

theorem Serialisable.begins [DecidableEq ι] {s₀ s : S} {done : List (O × R)} {read : ι → Option S}
    (h : Serialisable apply s₀ done read s) (i : ι) :
    Serialisable apply s₀ done (Function.update read i (some s)) s := by
  obtain ⟨order, hperm, hser, hread⟩ := h
  refine ⟨order, hperm, hser, ?_⟩
  intro j t hj
  by_cases hji : j = i
  · subst hji
    rw [Function.update_self] at hj
    cases hj
    exact .last hser
  · rw [Function.update_of_ne hji] at hj
    exact hread j t hj

theorem Serialisable.forgets [DecidableEq ι] {s₀ s : S} {done : List (O × R)} {read : ι → Option S}
    (h : Serialisable apply s₀ done read s) (i : ι) :
    Serialisable apply s₀ done (Function.update read i none) s := by
  obtain ⟨order, hperm, hser, hread⟩ := h
  refine ⟨order, hperm, hser, ?_⟩
  intro j t hj
  by_cases hji : j = i
  · subst hji
    rw [Function.update_self] at hj
    cases hj
  · rw [Function.update_of_ne hji] at hj
    exact hread j t hj

/-- An operation takes effect now. -/
theorem Serialisable.commits {s₀ s s' : S} {done : List (O × R)} {read : ι → Option S} {o : O} {r : R}
    (h : Serialisable apply s₀ done read s) (ha : apply s o = (s', r)) :
    Serialisable apply s₀ (done ++ [(o, r)]) read s' := by
  obtain ⟨order, hperm, hser, hread⟩ := h
  exact ⟨order ++ [(o, r)], hperm.append_right _, hser.append (.one ha),
    fun i t hi => (hread i t hi).snoc ha⟩

/-- An operation that changes nothing took effect when it read. -/
theorem Serialisable.reads {s₀ s t : S} {done : List (O × R)} {read : ι → Option S} {o : O} {r : R}
    (h : Serialisable apply s₀ done read s) {i : ι} (hi : read i = some t) (ha : apply t o = (t, r)) :
    Serialisable apply s₀ (done ++ [(o, r)]) read s := by
  obtain ⟨order, hperm, hser, hread⟩ := h
  obtain ⟨pre, post, rfl, hpre, hpost⟩ := hread i t hi
  refine ⟨pre ++ (o, r) :: post, ?_, hpre.append (.cons ha hpost),
    fun j u hj => .insert hpre hpost ha (hread j u hj)⟩
  exact List.perm_middle.trans ((hperm.cons _).trans (List.perm_append_singleton _ _).symm)

end KmVirtualCamera
