import Mathlib
import KmVirtualCamera.Core.ByteOrder

/-!
# Computations that may fault

`Outcome e P x`: the computation `x` returns a value that satisfies `P`, or
raises `e`, and nothing else. The rules are those of a partial-correctness
logic whose every other exception is a fault (`bind`, `mono`).

`Checked` is for unsigned arithmetic and reads of a buffer: `csub`, `cget` and
`cspan` fault where the machine would wrap or read out of bounds, so that
"never wraps, never reads outside" is a statement about a result. `cbe16`,
`cbe32` and `cbe64` read a number, the high byte first.
-/
namespace KmVirtualCamera

universe u v

inductive Outcome {ε : Type u} {α : Type v} (e : ε) (P : α → Prop) : Except ε α → Prop
  | ok {a : α} : P a → Outcome e P (.ok a)
  | raised : Outcome e P (.error e)

@[simp] theorem ok_bind {ε : Type u} {α β : Type v} (a : α) (f : α → Except ε β) :
    (Except.ok a >>= f) = f a := rfl

@[simp] theorem error_bind {ε : Type u} {α β : Type v} (e : ε) (f : α → Except ε β) :
    (Except.error e >>= f) = .error e := rfl

theorem unit_bind_ok {ε α : Type} {x : Except ε Unit} {f : Unit → Except ε α} {r : α} :
    (x >>= f) = .ok r ↔ x = .ok () ∧ f () = .ok r := by
  cases x with
  | error e => simp
  | ok u => simp

/-- A check made with `throw`. -/
theorem check_ok {ε α : Type} {c : Bool} {e : ε} {x : Except ε α} {r : α} :
    (if c = true then .error e else x) = .ok r ↔ c = false ∧ x = .ok r := by
  cases c with
  | false => simp
  | true => simp

theorem forM_ok {ε α : Type} {f : α → Except ε Unit} (l : List α) :
    l.forM f = .ok () ↔ ∀ a ∈ l, f a = .ok () := by
  induction l with
  | nil => simp [pure, Except.pure]
  | cons a l ih =>
    have hcons : (a :: l).forM f = (f a >>= fun _ => l.forM f) := rfl
    rw [hcons, List.forall_mem_cons, unit_bind_ok, ih]

namespace Outcome

variable {ε : Type u} {α β : Type v} {e : ε} {P : α → Prop} {Q : β → Prop} {x : Except ε α}

theorem mono {P' : α → Prop} (h : Outcome e P x) (hp : ∀ a, P a → P' a) : Outcome e P' x := by
  cases h with
  | ok ha => exact .ok (hp _ ha)
  | raised => exact .raised

theorem bind (h : Outcome e P x) {f : α → Except ε β} (hf : ∀ a, P a → Outcome e Q (f a)) :
    Outcome e Q (x >>= f) := by
  cases h with
  | ok ha => exact hf _ ha
  | raised => exact .raised

theorem of_ok {a : α} (h : Outcome e P x) (hx : x = .ok a) : P a := by
  subst hx
  cases h with
  | ok ha => exact ha

theorem error_eq {e' : ε} (h : Outcome e P x) (hx : x = .error e') : e' = e := by
  subst hx
  cases h with
  | raised => rfl

end Outcome

inductive Fault where
  | underflow | outOfBounds
  deriving DecidableEq

abbrev Checked := Except Fault

/-- `a - b` of unsigned numbers. -/
def csub (a b : Nat) : Checked Nat := if b ≤ a then .ok (a - b) else .error .underflow

/-- `a - b` of `uint64_t`. -/
def csub64 (a b : UInt64) : Checked UInt64 := if b ≤ a then .ok (a - b) else .error .underflow

/-- `xs[i]` -/
def cget {α : Type} (xs : List α) (i : Nat) : Checked α :=
  match xs[i]? with
  | some x => .ok x
  | none => .error .outOfBounds

/-- The `count` elements from `offset` on. -/
def cspan {α : Type} (xs : List α) (offset count : Nat) : Checked (List α) :=
  if offset + count ≤ xs.length then .ok ((xs.drop offset).take count) else .error .outOfBounds

theorem csub_ok {a b : Nat} (h : b ≤ a) : csub a b = .ok (a - b) := if_pos h

theorem csub64_ok {a b : UInt64} (h : b ≤ a) : csub64 a b = .ok (a - b) := if_pos h

theorem cget_ok {α : Type} {xs : List α} {i : Nat} {x : α} (h : xs[i]? = some x) : cget xs i = .ok x := by
  unfold cget
  rw [h]

theorem cget_getD {α : Type} {xs : List α} {i : Nat} (h : i < xs.length) (d : α) :
    cget xs i = .ok (xs.getD i d) := by
  apply cget_ok
  rw [List.getElem?_eq_getElem h, List.getD_eq_getElem xs d h]

theorem cspan_ok {α : Type} {xs : List α} {offset count : Nat} (h : offset + count ≤ xs.length) :
    cspan xs offset count = .ok ((xs.drop offset).take count) := if_pos h

/-! ## Numbers in a byte string -/

open ByteOrder

def cbe16 (b : List UInt8) (i : Nat) : Checked UInt16 := do
  let b0 ← cget b i
  let b1 ← cget b (i + 1)
  return be16 b0 b1

def cbe32 (b : List UInt8) (i : Nat) : Checked UInt32 := do
  let high ← cbe16 b i
  let low ← cbe16 b (i + 2)
  return high.toUInt32 <<< 16 ||| low.toUInt32

def cbe64 (b : List UInt8) (i : Nat) : Checked UInt64 := do
  let high ← cbe32 b i
  let low ← cbe32 b (i + 4)
  return high.toUInt64 <<< 32 ||| low.toUInt64

theorem cbe16_ok {b : List UInt8} {i : Nat} (h : i + 2 ≤ b.length) :
    cbe16 b i = .ok (be16 (b.getD i 0) (b.getD (i + 1) 0)) := by
  unfold cbe16
  rw [cget_getD (by omega) 0, ok_bind, cget_getD (by omega) 0, ok_bind]
  rfl

/-- Two halves make the whole. -/
theorem be32_halves (b0 b1 b2 b3 : UInt8) :
    (be16 b0 b1).toUInt32 <<< 16 ||| (be16 b2 b3).toUInt32 = be32 b0 b1 b2 b3 := by
  apply UInt32.toNat_inj.mp
  have h01 := (be16 b0 b1).toNat_lt
  have h23 := (be16 b2 b3).toNat_lt
  rw [be32_toNat]
  simp only [UInt32.toNat_or, UInt32.toNat_shiftLeft, UInt16.toNat_toUInt32, Nat.shiftLeft_eq,
    UInt32.reduceToNat, Nat.reduceMod]
  rw [Nat.mod_eq_of_lt (by omega), mul_or 16 h23, be16_toNat, be16_toNat]
  omega

theorem cbe32_ok {b : List UInt8} {i : Nat} (h : i + 4 ≤ b.length) :
    cbe32 b i = .ok (be32 (b.getD i 0) (b.getD (i + 1) 0) (b.getD (i + 2) 0) (b.getD (i + 3) 0)) := by
  unfold cbe32
  rw [cbe16_ok (by omega), ok_bind, cbe16_ok (by omega), ok_bind, be32_halves]
  rfl

theorem cbe64_ok {b : List UInt8} {i : Nat} (h : i + 8 ≤ b.length) : ∃ n, cbe64 b i = .ok n := by
  unfold cbe64
  rw [cbe32_ok (by omega), ok_bind, cbe32_ok (by omega), ok_bind]
  exact ⟨_, rfl⟩

end KmVirtualCamera
