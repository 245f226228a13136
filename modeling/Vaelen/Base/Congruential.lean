import Mathlib.NumberTheory.Multiplicity
import Mathlib.Tactic

/-!
Linear congruential generators modulo powers of two. With a multiplier that is 1 modulo 4 and an odd
increment, n steps come back to a state modulo 2^k exactly when 2^k divides n; so every state is
visited, and the lower bits have shorter periods.
-/

namespace Vaelen.Base.Congruential

def next (a c x : ℤ) : ℤ := a * x + c

variable {a c : ℤ}

theorem iterate_sub (x : ℤ) (n : ℕ) :
    (next a c)^[n] x - x = ((a - 1) * x + c) * ∑ i ∈ Finset.range n, a ^ i := by
  induction n with
  | zero => simp
  | succ n ih =>
    have geometric := mul_geom_sum a n
    rw [Function.iterate_succ_apply', next, Finset.sum_range_succ]
    linear_combination a * ih + ((a - 1) * x + c) * geometric

section full
variable (multiplier : 4 ∣ a - 1) (increment : Odd c)
include multiplier

theorem two_pow_dvd_geometric (n k : ℕ) : 2 ^ k ∣ ∑ i ∈ Finset.range n, a ^ i ↔ 2 ^ k ∣ n := by
  by_cases unit : a = 1
  · simp only [unit, one_pow, Finset.sum_const, Finset.card_range, nsmul_eq_mul, mul_one]
    exact_mod_cast Iff.rfl
  · have odd : ¬(2 : ℤ) ∣ a := by omega
    have lifted := Int.two_pow_sub_pow' n multiplier odd
    rw [one_pow, ← mul_geom_sum, emultiplicity_mul Int.prime_two] at lifted
    have finite : emultiplicity 2 (a - 1) ≠ ⊤ := by
      rw [finiteMultiplicity_iff_emultiplicity_ne_top.symm, Int.finiteMultiplicity_iff]
      exact ⟨by decide, sub_ne_zero.mpr unit⟩
    have same := ENat.add_right_injective_of_ne_top finite lifted
    rw [pow_dvd_iff_le_emultiplicity, same, ← pow_dvd_iff_le_emultiplicity]
    exact_mod_cast Iff.rfl

include increment

/-- The steps that come back to a state modulo 2^k are the multiples of 2^k. -/
theorem iterate_modEq_iff (x : ℤ) (n k : ℕ) : (next a c)^[n] x ≡ x [ZMOD 2 ^ k] ↔ 2 ^ k ∣ n := by
  have odd : Odd ((a - 1) * x + c) := by
    have even : Even (a - 1) := even_iff_two_dvd.mpr (dvd_trans (by decide) multiplier)
    exact (even.mul_right x).add_odd increment
  have coprime : IsCoprime ((2 : ℤ) ^ k) ((a - 1) * x + c) :=
    (Int.isCoprime_two_left.mpr odd).pow_left
  rw [Int.modEq_comm, Int.modEq_iff_dvd, iterate_sub, ← two_pow_dvd_geometric multiplier]
  exact ⟨coprime.dvd_of_dvd_mul_left, fun divides => divides.mul_left _⟩

/-- Two numbers of steps lead to the same state modulo 2^k exactly when they agree modulo 2^k. -/
theorem iterate_modEq_iterate_iff (x : ℤ) {m n : ℕ} (order : m ≤ n) (k : ℕ) :
    (next a c)^[n] x ≡ (next a c)^[m] x [ZMOD 2 ^ k] ↔ 2 ^ k ∣ n - m := by
  have split : (next a c)^[n] x = (next a c)^[n - m] ((next a c)^[m] x) := by
    rw [← Function.iterate_add_apply, Nat.sub_add_cancel order]
  rw [split, iterate_modEq_iff multiplier increment]

end full

end Vaelen.Base.Congruential
