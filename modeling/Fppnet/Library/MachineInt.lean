import Mathlib.Tactic

/-!
# The type `int`

Values of 32 bits with a sign, as integers. An operation whose result is not such a value has no
result (`int`). A conversion from a wider type keeps the last 32 bits (`toInt`).
-/

namespace MachineInt

/-- A value of `int`: its bounds are `2 ^ 31`. -/
def IsInt (x : ℤ) : Prop := -2147483648 ≤ x ∧ x < 2147483648

instance (x : ℤ) : Decidable (IsInt x) := inferInstanceAs (Decidable (_ ∧ _))

/-- The result of an operation, which must not overflow. -/
def int (x : ℤ) : Option ℤ := if IsInt x then some x else none

theorem int_of {x : ℤ} (h : IsInt x) : int x = some x := if_pos h

theorem int_bind {α : Type} {x : ℤ} (h : IsInt x) (f : ℤ → Option α) : (int x >>= f) = f x := by
  rw [int_of h]
  rfl

theorem some_bind {α β : Type} (x : α) (f : α → Option β) : (some x >>= f) = f x := rfl

theorem int_of_not {x : ℤ} (h : ¬ IsInt x) : int x = none := if_neg h

/-- The conversion of a value of a wider type. -/
def toInt (x : ℤ) : ℤ :=
  if x % 4294967296 < 2147483648 then x % 4294967296 else x % 4294967296 - 4294967296

theorem toInt_of {x : ℤ} (h : IsInt x) : toInt x = x := by
  unfold toInt IsInt at *
  split_ifs <;> omega

end MachineInt
