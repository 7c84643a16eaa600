import Mathlib

/-!
# Ordered maps

The C++ sources keep their keyed state in `std::map`: distinct keys, iterated
in increasing order. `OrdMap` is that value type: an association list whose
keys are strictly increasing, the order being a field, so that two maps with
the same entries are equal and a scan meets the entries in the order the
program does.
-/
namespace KmVirtualCamera

structure OrdMap (κ α : Type) [LinearOrder κ] where
  toList : List (κ × α)
  sorted : toList.Pairwise fun a b => a.1 < b.1

namespace OrdMap

variable {κ α β : Type} [LinearOrder κ]

theorem toList_inj {m n : OrdMap κ α} (h : m.toList = n.toList) : m = n := by
  cases m; cases n; cases h; rfl

def empty : OrdMap κ α := ⟨[], .nil⟩

def size (m : OrdMap κ α) : Nat := m.toList.length

def find? (m : OrdMap κ α) (k : κ) : Option α :=
  (m.toList.find? fun e => decide (e.1 = k)).map Prod.snd

def insertL (k : κ) (v : α) : List (κ × α) → List (κ × α)
  | [] => [(k, v)]
  | e :: t =>
    if k < e.1 then (k, v) :: e :: t
    else if k = e.1 then (k, v) :: t
    else e :: insertL k v t

theorem mem_insertL {k : κ} {v : α} {e : κ × α} : ∀ {l : List (κ × α)},
    l.Pairwise (fun a b => a.1 < b.1) → (e ∈ insertL k v l ↔ e = (k, v) ∨ (e ∈ l ∧ e.1 ≠ k))
  | [], _ => by simp [insertL]
  | a :: t, h => by
    obtain ⟨ha, ht⟩ := List.pairwise_cons.mp h
    unfold insertL
    split
    · rename_i hlt
      have hne : ∀ x ∈ a :: t, x.1 ≠ k := by
        intro x hx
        rcases List.mem_cons.mp hx with rfl | hx
        · exact ne_of_gt hlt
        · exact ne_of_gt (lt_trans hlt (ha x hx))
      grind
    · split
      · rename_i heq
        have hne : ∀ x ∈ t, x.1 ≠ k := fun x hx => heq ▸ ne_of_gt (ha x hx)
        grind
      · rename_i hne
        have := mem_insertL (k := k) (v := v) (e := e) ht
        grind

theorem sorted_insertL {k : κ} {v : α} : ∀ {l : List (κ × α)},
    l.Pairwise (fun a b => a.1 < b.1) → (insertL k v l).Pairwise fun a b => a.1 < b.1
  | [], _ => by simp [insertL]
  | a :: t, h => by
    obtain ⟨ha, ht⟩ := List.pairwise_cons.mp h
    unfold insertL
    split
    · rename_i hlt
      refine List.pairwise_cons.mpr ⟨?_, h⟩
      intro x hx
      rcases List.mem_cons.mp hx with rfl | hx
      · exact hlt
      · exact lt_trans hlt (ha x hx)
    · split
      · rename_i heq
        exact List.pairwise_cons.mpr ⟨fun x hx => heq ▸ ha x hx, ht⟩
      · rename_i hge hne
        refine List.pairwise_cons.mpr ⟨?_, sorted_insertL ht⟩
        intro x hx
        rcases (mem_insertL ht).mp hx with rfl | ⟨hx, -⟩
        · exact lt_of_le_of_ne (not_lt.mp hge) (Ne.symm hne)
        · exact ha x hx

/-- Insert, or overwrite the value already under `k`. -/
def insert (m : OrdMap κ α) (k : κ) (v : α) : OrdMap κ α :=
  ⟨insertL k v m.toList, sorted_insertL m.sorted⟩

/-- The entries that satisfy `p`. -/
def filter (m : OrdMap κ α) (p : κ × α → Bool) : OrdMap κ α :=
  ⟨m.toList.filter p, m.sorted.filter _⟩

def erase (m : OrdMap κ α) (k : κ) : OrdMap κ α := m.filter fun e => decide (e.1 ≠ k)

/-- Rewrite every value, keys untouched. -/
def mapValues (m : OrdMap κ α) (f : κ → α → β) : OrdMap κ β :=
  ⟨m.toList.map fun e => (e.1, f e.1 e.2), by
    rw [List.pairwise_map]; exact m.sorted⟩

/-! ## Membership -/

@[simp] theorem toList_empty : (empty : OrdMap κ α).toList = [] := rfl

theorem mem_insert {m : OrdMap κ α} {k : κ} {v : α} {e : κ × α} :
    e ∈ (m.insert k v).toList ↔ e = (k, v) ∨ (e ∈ m.toList ∧ e.1 ≠ k) :=
  mem_insertL m.sorted

theorem mem_filter {m : OrdMap κ α} {p : κ × α → Bool} {e : κ × α} :
    e ∈ (m.filter p).toList ↔ e ∈ m.toList ∧ p e = true := List.mem_filter

theorem mem_erase {m : OrdMap κ α} {k : κ} {e : κ × α} :
    e ∈ (m.erase k).toList ↔ e ∈ m.toList ∧ e.1 ≠ k := by
  simp [erase, mem_filter]

theorem nodup_keys (m : OrdMap κ α) : (m.toList.map Prod.fst).Nodup := by
  rw [List.Nodup, List.pairwise_map]
  exact m.sorted.imp fun h => ne_of_lt h

/-- A key has one value. -/
theorem mem_unique {m : OrdMap κ α} {k : κ} {v w : α} (h₁ : (k, v) ∈ m.toList)
    (h₂ : (k, w) ∈ m.toList) : v = w := by
  have := List.inj_on_of_nodup_map m.nodup_keys h₁ h₂ rfl
  exact congrArg Prod.snd this

theorem find?_eq_some {m : OrdMap κ α} {k : κ} {v : α} :
    m.find? k = some v ↔ (k, v) ∈ m.toList := by
  unfold find?
  constructor
  · intro h
    obtain ⟨e, he, rfl⟩ := Option.map_eq_some_iff.mp h
    have hk : e.1 = k := by simpa using List.find?_some he
    have := List.mem_of_find?_eq_some he
    rw [← hk]; exact this
  · intro h
    cases hf : m.toList.find? fun e => decide (e.1 = k) with
    | none =>
      have := List.find?_eq_none.mp hf _ h
      simp at this
    | some e =>
      have hk : e.1 = k := by simpa using List.find?_some hf
      have he := List.mem_of_find?_eq_some hf
      have : (k, e.2) ∈ m.toList := by rw [← hk]; exact he
      simp [mem_unique this h]

theorem find?_eq_none {m : OrdMap κ α} {k : κ} :
    m.find? k = none ↔ ∀ e ∈ m.toList, e.1 ≠ k := by
  simp [find?, List.find?_eq_none]

theorem find?_insert {m : OrdMap κ α} {k j : κ} {v : α} :
    (m.insert k v).find? j = if j = k then some v else m.find? j := by
  split
  · rename_i h; subst h
    rw [find?_eq_some, mem_insert]; exact Or.inl rfl
  · rename_i h
    cases hj : m.find? j with
    | none =>
      rw [find?_eq_none] at hj ⊢
      intro e he
      rcases mem_insert.mp he with rfl | ⟨he, -⟩
      · exact fun h' => h h'.symm
      · exact hj e he
    | some w =>
      rw [find?_eq_some] at hj ⊢
      exact mem_insert.mpr (Or.inr ⟨hj, h⟩)

theorem insertL_insertL {k : κ} {v w : α} : ∀ l : List (κ × α),
    insertL k v (insertL k w l) = insertL k v l
  | [] => by simp [insertL]
  | e :: t => by
    by_cases hlt : k < e.1
    · simp [insertL, hlt]
    · by_cases heq : k = e.1
      · simp [insertL, heq]
      · simp [insertL, hlt, heq, insertL_insertL t]

theorem insert_insert (m : OrdMap κ α) (k : κ) (v w : α) : (m.insert k w).insert k v = m.insert k v :=
  toList_inj (insertL_insertL m.toList)

theorem insertL_of_mem {k : κ} {v : α} : ∀ {l : List (κ × α)},
    l.Pairwise (fun a b => a.1 < b.1) → (k, v) ∈ l → insertL k v l = l
  | a :: t, h, hm => by
    obtain ⟨ha, ht⟩ := List.pairwise_cons.mp h
    rcases List.mem_cons.mp hm with rfl | hm
    · simp [insertL]
    · have hlt := ha _ hm
      simp only [insertL, if_neg (not_lt.mpr (le_of_lt hlt)), if_neg (ne_of_gt hlt), insertL_of_mem ht hm]

/-- Writing what is there changes nothing. -/
theorem insert_of_find? {m : OrdMap κ α} {k : κ} {v : α} (h : m.find? k = some v) : m.insert k v = m :=
  toList_inj (insertL_of_mem m.sorted (find?_eq_some.mp h))

theorem find?_erase {m : OrdMap κ α} {k j : κ} :
    (m.erase k).find? j = if j = k then none else m.find? j := by
  split
  · rename_i h; subst h
    rw [find?_eq_none]
    intro e he
    exact (mem_erase.mp he).2
  · rename_i h
    cases hj : m.find? j with
    | none =>
      rw [find?_eq_none] at hj ⊢
      exact fun e he => hj e (mem_erase.mp he).1
    | some w =>
      rw [find?_eq_some] at hj ⊢
      exact mem_erase.mpr ⟨hj, h⟩

/-! ## Size -/

theorem size_empty_iff {m : OrdMap κ α} : m.size = 0 ↔ m.toList = [] := List.length_eq_zero_iff

theorem size_erase_lt {m : OrdMap κ α} {k : κ} {v : α} (h : (k, v) ∈ m.toList) :
    (m.erase k).size < m.size := by
  refine List.length_filter_lt_length_iff_exists.mpr ⟨(k, v), h, by simp⟩

theorem nodup_toList (m : OrdMap κ α) : m.toList.Nodup := m.nodup_keys.of_map _

/-- An entry and the rest. -/
theorem perm_erase {m : OrdMap κ α} {k : κ} {v : α} (h : (k, v) ∈ m.toList) :
    m.toList.Perm ((k, v) :: (m.erase k).toList) := by
  refine (List.perm_ext_iff_of_nodup m.nodup_toList ?_).mpr ?_
  · exact List.nodup_cons.mpr ⟨fun hm => (mem_erase.mp hm).2 rfl, nodup_toList _⟩
  · rintro ⟨j, w⟩
    rw [List.mem_cons, mem_erase]
    constructor
    · intro hm
      by_cases hj : j = k
      · subst hj; exact Or.inl (by rw [mem_unique hm h])
      · exact Or.inr ⟨hm, hj⟩
    · rintro (he | ⟨hm, -⟩)
      · rw [he]; exact h
      · exact hm

theorem perm_insert (m : OrdMap κ α) (k : κ) (v : α) :
    (m.insert k v).toList.Perm ((k, v) :: (m.erase k).toList) := by
  refine (List.perm_ext_iff_of_nodup (nodup_toList _) ?_).mpr ?_
  · exact List.nodup_cons.mpr ⟨fun hm => (mem_erase.mp hm).2 rfl, nodup_toList _⟩
  · intro e
    rw [List.mem_cons, mem_erase, mem_insert]

/-- A total over the values, with one entry taken apart. -/
theorem sum_erase {m : OrdMap κ α} {k : κ} {v : α} (g : α → Nat) (h : (k, v) ∈ m.toList) :
    (m.toList.map fun e => g e.2).sum = g v + ((m.erase k).toList.map fun e => g e.2).sum := by
  rw [((perm_erase h).map fun e => g e.2).sum_eq]; rfl

theorem sum_insert (m : OrdMap κ α) (k : κ) (v : α) (g : α → Nat) :
    ((m.insert k v).toList.map fun e => g e.2).sum =
      g v + ((m.erase k).toList.map fun e => g e.2).sum := by
  rw [((perm_insert m k v).map fun e => g e.2).sum_eq]; rfl

theorem erase_of_find?_none {m : OrdMap κ α} {k : κ} (h : m.find? k = none) : m.erase k = m := by
  apply toList_inj
  rw [find?_eq_none] at h
  simpa [erase, filter, List.filter_eq_self] using h

theorem size_insert (m : OrdMap κ α) (k : κ) (v : α) : (m.insert k v).size = (m.erase k).size + 1 :=
  (perm_insert m k v).length_eq

/-! ## Rewriting values commutes with every operation -/

@[simp] theorem size_mapValues (m : OrdMap κ α) (f : κ → α → β) : (m.mapValues f).size = m.size := by
  simp [size, mapValues]

theorem find?_mapValues (m : OrdMap κ α) (f : κ → α → β) (k : κ) :
    (m.mapValues f).find? k = (m.find? k).map (f k) := by
  cases h : m.find? k with
  | none =>
    rw [find?_eq_none] at h
    rw [Option.map_none, find?_eq_none]
    intro e he
    simp only [mapValues, List.mem_map] at he
    obtain ⟨a, ha, rfl⟩ := he
    exact h a ha
  | some v =>
    rw [find?_eq_some] at h
    rw [Option.map_some, find?_eq_some]
    simp only [mapValues, List.mem_map]
    exact ⟨(k, v), h, rfl⟩

theorem mapValues_insert (m : OrdMap κ α) (f : κ → α → β) (k : κ) (v : α) :
    (m.insert k v).mapValues f = (m.mapValues f).insert k (f k v) := by
  apply toList_inj
  simp only [mapValues, insert]
  induction m.toList with
  | nil => rfl
  | cons e t ih =>
    simp only [insertL, List.map_cons]
    split
    · rfl
    · split
      · rfl
      · rw [List.map_cons, ih]

theorem mapValues_erase (m : OrdMap κ α) (f : κ → α → β) (k : κ) :
    (m.erase k).mapValues f = (m.mapValues f).erase k := by
  apply toList_inj
  simp only [mapValues, erase, filter, List.filter_map]
  rfl

end OrdMap

end KmVirtualCamera
