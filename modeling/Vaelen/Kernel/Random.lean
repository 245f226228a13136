import Vaelen.Base.Congruential
import Vaelen.Base.Memory

/-!
rand and srand of stdlib.c. rand_seed runs through all words before it repeats; the result is bits
16 to 30 of it, so that the results repeat after half as many calls.
-/

namespace Vaelen.Kernel.Random
open Vaelen.Base Congruential

/-- The result of the call and the new value of rand_seed. -/
def rand (randSeed : Word) : Nat × Word :=
  let randSeed := randSeed * 1103515245 + 12345
  (((randSeed / 65536) % 32768).toNat, randSeed)

def srand (seed : Word) : Word := seed

/-- rand_seed after `n` calls of rand. -/
def randSeed (seed : Word) (n : Nat) : Word := (fun s => (rand s).2)^[n] (srand seed)

/-- The result of the call after those. -/
def result (seed : Word) (n : Nat) : Nat := (rand (randSeed seed n)).1

variable (seed : Word)

theorem rand_seed (s : Word) : (rand s).2 = s * 1103515245 + 12345 := rfl

theorem rand_result (s : Word) : (rand s).1 = (rand s).2.toNat / 2 ^ 16 % 2 ^ 15 := by
  change (((rand s).2 / 65536) % 32768).toNat = _
  rw [BitVec.toNat_umod, BitVec.toNat_udiv]
  rfl

theorem rand_toNat (s : Word) : (rand s).2.toNat = (s.toNat * 1103515245 + 12345) % 2 ^ 32 := by
  rw [rand_seed, BitVec.toNat_add, BitVec.toNat_mul, Nat.mod_add_mod]
  rfl

theorem rand_next (s : Word) :
    ((rand s).2.toNat : ℤ) ≡ next 1103515245 12345 s.toNat [ZMOD 2 ^ 32] := by
  have cast : next 1103515245 12345 s.toNat = ((s.toNat * 1103515245 + 12345 : ℕ) : ℤ) := by
    rw [next]
    push_cast
    ring
  rw [rand_toNat, Int.natCast_mod _ (2 ^ 32), cast]
  exact Int.mod_modEq _ _

theorem randSeed_succ (n : Nat) : randSeed seed (n + 1) = (rand (randSeed seed n)).2 :=
  Function.iterate_succ_apply' _ n _

theorem result_eq (n : Nat) : result seed n = (randSeed seed (n + 1)).toNat / 2 ^ 16 % 2 ^ 15 := by
  rw [randSeed_succ]
  exact rand_result _

theorem randSeed_iterate (n : Nat) :
    ((randSeed seed n).toNat : ℤ) ≡ (next 1103515245 12345)^[n] seed.toNat [ZMOD 2 ^ 32] := by
  induction n with
  | zero => exact Int.ModEq.refl _
  | succ n ih =>
    rw [randSeed_succ, Function.iterate_succ_apply']
    exact (rand_next _).trans ((ih.mul_left _).add_right _)

/-- The lower k bits of rand_seed agree exactly after numbers of calls that agree modulo 2^k. -/
theorem randSeed_low_iff {m n k : Nat} (order : m ≤ n) (bits : k ≤ 32) :
    (randSeed seed n).toNat % 2 ^ k = (randSeed seed m).toNat % 2 ^ k ↔ 2 ^ k ∣ n - m := by
  have multiplier : (4 : ℤ) ∣ 1103515245 - 1 := by decide
  have increment : Odd (12345 : ℤ) := by decide
  have weaker : (2 : ℤ) ^ k ∣ 2 ^ 32 := pow_dvd_pow 2 bits
  have first := (randSeed_iterate seed n).of_dvd weaker
  have second := (randSeed_iterate seed m).of_dvd weaker
  rw [← iterate_modEq_iterate_iff multiplier increment seed.toNat order k]
  change (randSeed seed n).toNat ≡ (randSeed seed m).toNat [MOD 2 ^ k] ↔ _
  rw [← Int.natCast_modEq_iff]
  push_cast
  exact ⟨fun same => first.symm.trans (same.trans second), fun same => first.trans (same.trans second.symm)⟩

/-- Bits 16 to 30 and the bits below them are the lower 31 bits. -/
theorem low_eq_of_parts {x y : Nat} (high : x / 2 ^ 16 % 2 ^ 15 = y / 2 ^ 16 % 2 ^ 15)
    (low : x % 2 ^ 16 = y % 2 ^ 16) : x % 2 ^ 31 = y % 2 ^ 31 := by
  omega

/-- The results repeat after p calls, whatever the seed, exactly when p is a multiple of 2^31. -/
theorem result_period_iff (p : Nat) : (∀ i, result seed (i + p) = result seed i) ↔ 2 ^ 31 ∣ p := by
  have later : ∀ i q, i + q + 1 - (i + 1) = q := by omega
  constructor
  · intro repeats
    have multiple : ∀ k i, result seed (i + k * p) = result seed i := by
      intro k i
      induction k with
      | zero => simp
      | succ k ih => rw [Nat.succ_mul, ← Nat.add_assoc, repeats, ih]
    -- a multiple of p that keeps the lower 16 bits keeps all 31
    have whole : ∀ k, 2 ^ 16 ∣ k * p → 2 ^ 31 ∣ k * p := by
      intro k divides
      have high := multiple k 0
      rw [result_eq, result_eq] at high
      have low := (randSeed_low_iff seed (show 0 + 1 ≤ 0 + k * p + 1 by omega) (by decide)).mpr
        ((later 0 (k * p)).symm ▸ divides)
      have same := (randSeed_low_iff seed (show 0 + 1 ≤ 0 + k * p + 1 by omega) (by decide)).mp
        (low_eq_of_parts high low)
      rwa [later] at same
    rcases Nat.eq_zero_or_pos p with rfl | positive
    · exact dvd_zero _
    · obtain ⟨v, odd, shape, same⟩ := Nat.exists_eq_two_pow_mul_odd positive.ne'
      by_cases long : 16 ≤ v
      · have divides : 2 ^ 16 ∣ 1 * p := by
          rw [Nat.one_mul, same]
          exact (pow_dvd_pow 2 long).mul_right odd
        simpa using whole 1 divides
      · have padded : 2 ^ (16 - v) * p = 2 ^ 16 * odd := by
          rw [same, ← Nat.mul_assoc, ← pow_add, Nat.sub_add_cancel (by omega)]
        have divides := whole (2 ^ (16 - v)) (padded ▸ Nat.dvd_mul_right _ _)
        rw [padded] at divides
        have even : 2 ∣ odd := by omega
        exact absurd even (Nat.two_dvd_ne_zero.mpr (Nat.odd_iff.mp shape))
  · intro divides i
    have same := (randSeed_low_iff seed (show i + 1 ≤ i + p + 1 by omega) (by decide)).mpr
      ((later i p).symm ▸ divides)
    rw [result_eq, result_eq]
    omega

/-- The lower 31 bits of rand_seed behind the calls from `start` on. -/
def low (start i : Nat) : Nat := (randSeed seed (start + i + 1)).toNat % 2 ^ 31

theorem low_injOn (start : Nat) : Set.InjOn (low seed start) (Finset.range (2 ^ 31)) := by
  have apart : ∀ i j, i < j → j < 2 ^ 31 → low seed start i ≠ low seed start j := by
    intro i j order bound same
    have divides := (randSeed_low_iff seed (show start + i + 1 ≤ start + j + 1 by omega) (by decide)).mp
      same.symm
    have small := Nat.le_of_dvd (by omega) divides
    omega
  intro i first j second same
  rw [Finset.coe_range, Set.mem_Iio] at first second
  rcases Nat.lt_trichotomy i j with before | here | after
  · exact absurd same (apart i j before second)
  · exact here
  · exact absurd same.symm (apart j i after first)

theorem image_low (start : Nat) :
    (Finset.range (2 ^ 31)).image (low seed start) = Finset.range (2 ^ 31) := by
  refine Finset.eq_of_subset_of_card_le (Finset.image_subset_iff.mpr fun i _ => ?_) ?_
  · exact Finset.mem_range.mpr (Nat.mod_lt _ (Nat.two_pow_pos 31))
  · rw [Finset.card_image_of_injOn (low_injOn seed start)]

/-- In any 2^31 calls in a row each of the 2^15 results comes 2^16 times. -/
theorem result_count (start v : Nat) (small : v < 2 ^ 15) :
    ((Finset.range (2 ^ 31)).filter fun i => result seed (start + i) = v).card = 2 ^ 16 := by
  have results : ((Finset.range (2 ^ 31)).filter fun i => result seed (start + i) = v) =
      (Finset.range (2 ^ 31)).filter fun i => low seed start i / 2 ^ 16 = v := by
    refine Finset.filter_congr fun i _ => ?_
    rw [result_eq, low]
    omega
  have moved : ((Finset.range (2 ^ 31)).image (low seed start)).filter (fun r => r / 2 ^ 16 = v) =
      ((Finset.range (2 ^ 31)).filter fun i => low seed start i / 2 ^ 16 = v).image (low seed start) :=
    Finset.filter_image
  have block : ((Finset.range (2 ^ 31)).filter fun r => r / 2 ^ 16 = v) =
      Finset.Ico (v * 2 ^ 16) (v * 2 ^ 16 + 2 ^ 16) := by
    ext r
    rw [Finset.mem_filter, Finset.mem_range, Finset.mem_Ico]
    omega
  have injective := (low_injOn seed start).mono (Finset.coe_subset.mpr
    (Finset.filter_subset (fun i => low seed start i / 2 ^ 16 = v) (Finset.range (2 ^ 31))))
  calc
    _ = ((Finset.range (2 ^ 31)).filter fun i => low seed start i / 2 ^ 16 = v).card := by rw [results]
    _ = ((Finset.range (2 ^ 31)).filter fun r => r / 2 ^ 16 = v).card := by
      rw [← Finset.card_image_of_injOn injective, ← moved, image_low]
    _ = 2 ^ 16 := by rw [block, Nat.card_Ico, Nat.add_sub_cancel_left]

/-- Zeros of the first 2^31 calls after boot. -/
theorem result_count_boot :
    ((Finset.range (2 ^ 31)).filter fun i => result 1 (0 + i) = 0).card = 2 ^ 16 :=
  result_count 1 0 0 (by decide)

end Vaelen.Kernel.Random
