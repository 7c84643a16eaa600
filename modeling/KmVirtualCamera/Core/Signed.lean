import Mathlib

/-!
# Signed 64-bit arithmetic

`Fits x`: `x` is a value of `int64_t`. `fit x` is an operation of that type
whose exact result is `x`: an overflow has no meaning (`undefined`), so that
"never overflows" is a statement about a result. A computation may also throw.
-/
namespace KmVirtualCamera.Signed

inductive Stop (ε : Type) where
  | undefined
  | thrown (e : ε)
  deriving DecidableEq

abbrev Arith (ε : Type) := Except (Stop ε)

def maxValue : Int := 9223372036854775807

def minValue : Int := -9223372036854775808

def Fits (x : Int) : Prop := minValue ≤ x ∧ x ≤ maxValue

instance (x : Int) : Decidable (Fits x) := inferInstanceAs (Decidable (_ ∧ _))

def fit {ε : Type} (x : Int) : Arith ε Int := if Fits x then .ok x else .error .undefined

theorem fits_iff {x : Int} : Fits x ↔ -9223372036854775808 ≤ x ∧ x ≤ 9223372036854775807 := Iff.rfl

theorem fits_int64 (x : Int64) : Fits x.toInt := by
  have hlow := x.le_toInt
  have hhigh := x.toInt_lt
  rw [fits_iff]
  omega

variable {ε : Type} {x : Int}

theorem fit_ok (h : Fits x) : (fit x : Arith ε Int) = .ok x := if_pos h

theorem fit_undefined (h : ¬Fits x) : (fit x : Arith ε Int) = .error .undefined := if_neg h

end KmVirtualCamera.Signed
