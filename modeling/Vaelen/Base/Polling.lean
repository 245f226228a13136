import Mathlib.Tactic

/-!
Polling an endless sequence: the first place, from a given one on, that passes a test.
-/

namespace Vaelen.Base

def FirstFrom (p : Nat → Prop) (i m : Nat) : Prop :=
  i ≤ m ∧ p m ∧ ∀ k, i ≤ k → k < m → ¬p k

namespace FirstFrom
variable {p q : Nat → Prop} {i m n k : Nat}

theorem here (hit : p i) : FirstFrom p i i :=
  ⟨le_rfl, hit, fun _ after before => absurd before (Nat.not_lt.mpr after)⟩

theorem later (miss : ¬p i) : FirstFrom p i m ↔ FirstFrom p (i + 1) m := by
  constructor
  · rintro ⟨after, hit, misses⟩
    have other : i ≠ m := fun same => miss (same ▸ hit)
    exact ⟨by omega, hit, fun k above => misses k (by omega)⟩
  · rintro ⟨after, hit, misses⟩
    refine ⟨by omega, hit, fun k above before => ?_⟩
    rcases Nat.eq_or_lt_of_le above with rfl | above
    · exact miss
    · exact misses k above before

theorem unique (first : FirstFrom p i m) (other : FirstFrom p i n) : m = n := by
  by_contra different
  rcases Nat.lt_or_gt_of_ne different with before | before
  · exact other.2.2 m first.1 before first.2.1
  · exact first.2.2 n other.1 before other.2.1

theorem exists_le (after : i ≤ k) (hit : p k) : ∃ m ≤ k, FirstFrom p i m := by
  classical
  have found : ∃ m, i ≤ m ∧ p m := ⟨k, after, hit⟩
  have least := Nat.find_spec found
  refine ⟨Nat.find found, Nat.find_min' found ⟨after, hit⟩, least.1, least.2, fun j above before passes => ?_⟩
  exact Nat.find_min found before ⟨above, passes⟩

/-- A place of the one kind with none of the other kind before it is the first of either. -/
theorem either (first : FirstFrom p i m) (misses : ∀ k, i ≤ k → k < m → ¬q k) :
    FirstFrom (fun k => p k ∨ q k) i m :=
  ⟨first.1, Or.inl first.2.1, fun k above before hit => hit.elim (first.2.2 k above before) (misses k above before)⟩

end FirstFrom

end Vaelen.Base
