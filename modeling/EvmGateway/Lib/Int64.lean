import Mathlib.Data.Int.Init
import Mathlib.Tactic.NormNum

/-!
# Signed 64-bit arithmetic

Signed 64-bit integers are modelled as integers, and an operation on them as the operation on
integers followed by `wrap64`.  Inside `InInt64` nothing wraps.
-/

namespace EvmGateway.Lib

/-- The largest signed 64-bit integer. -/
def maxInt64 : ℤ := 2 ^ 63 - 1

/-- The integer is a signed 64-bit one. -/
def InInt64 (x : ℤ) : Prop := -2 ^ 63 ≤ x ∧ x < 2 ^ 63

instance (x : ℤ) : Decidable (InInt64 x) := inferInstanceAs (Decidable (_ ∧ _))

/-- The signed 64-bit integer with the same low bits. -/
def wrap64 (x : ℤ) : ℤ := x.bmod (2 ^ 64)

theorem wrap64_eq_self {x : ℤ} (h : InInt64 x) : wrap64 x = x :=
  Int.bmod_eq_of_le (by have := h.1; omega) (by have := h.2; omega)

theorem inInt64_wrap64 (x : ℤ) : InInt64 (wrap64 x) := by
  have hlow := @Int.le_bmod x (2 ^ 64) (by norm_num)
  have hhigh := @Int.bmod_lt x (2 ^ 64) (by norm_num)
  unfold wrap64
  exact ⟨by omega, by omega⟩

theorem wrap64_eq_self_iff {x : ℤ} : wrap64 x = x ↔ InInt64 x :=
  ⟨fun h => h ▸ inInt64_wrap64 x, wrap64_eq_self⟩

theorem wrap64_natCast_le (n : ℕ) : wrap64 n ≤ n := by
  simp only [wrap64, Int.bmod]
  split_ifs <;> omega

theorem wrap64_of_ge {x : ℤ} (hlow : 2 ^ 63 ≤ x) (hhigh : x < 2 ^ 64) :
    wrap64 x = x - 2 ^ 64 :=
  calc wrap64 x = wrap64 (x - (2 ^ 64 : ℕ)) := (Int.sub_bmod_right x (2 ^ 64)).symm
    _ = x - 2 ^ 64 := by
      rw [wrap64_eq_self ⟨by omega, by omega⟩]
      norm_num

theorem wrap64_maxInt64_add_one : wrap64 (maxInt64 + 1) = -2 ^ 63 := by decide

theorem wrap64_wrap64_add (x y : ℤ) : wrap64 (wrap64 x + y) = wrap64 (x + y) :=
  Int.bmod_add_bmod

theorem wrap64_add_wrap64 (x y : ℤ) : wrap64 (x + wrap64 y) = wrap64 (x + y) :=
  Int.add_bmod_bmod

end EvmGateway.Lib
