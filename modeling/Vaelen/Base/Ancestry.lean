import Mathlib.Tactic

/-!
Parent pointers of nodes that are listed youngest first. The parent of a node is older, so the chain
of its ancestors stays in the list and ends at the null pointer.
-/

namespace Vaelen.Base
variable {ι : Type}

def Rooted (parent : ι → ι) (null : ι) : List ι → Prop
  | [] => True
  | node :: older => (parent node = null ∨ parent node ∈ older) ∧ Rooted parent null older

/-- The nodes count as 1, 2, ... from the oldest on. -/
def Ranked (rank : ι → Nat) : List ι → Prop
  | [] => True
  | node :: older => rank node = older.length + 1 ∧ Ranked rank older

variable {parent other : ι → ι} {rank same : ι → Nat} {null node : ι} {list older : List ι}

theorem Rooted.congr (rooted : Rooted parent null list)
    (equal : ∀ node ∈ list, other node = parent node) : Rooted other null list := by
  induction list with
  | nil => trivial
  | cons node older ih =>
    refine ⟨?_, ih rooted.2 fun elder member => equal elder (List.mem_cons_of_mem node member)⟩
    rw [equal node List.mem_cons_self]
    exact rooted.1

theorem Ranked.congr (ranked : Ranked rank list) (equal : ∀ node ∈ list, same node = rank node) :
    Ranked same list := by
  induction list with
  | nil => trivial
  | cons node older ih =>
    refine ⟨?_, ih ranked.2 fun elder member => equal elder (List.mem_cons_of_mem node member)⟩
    rw [equal node List.mem_cons_self]
    exact ranked.1

theorem Ranked.le (ranked : Ranked rank list) (member : node ∈ list) : rank node ≤ list.length := by
  induction list with
  | nil => exact absurd member List.not_mem_nil
  | cons first older ih =>
    rcases List.mem_cons.mp member with rfl | later
    · exact Nat.le_of_eq ranked.1
    · exact (ih ranked.2 later).trans (Nat.le_succ _)

theorem Ranked.pos (ranked : Ranked rank list) (member : node ∈ list) : 0 < rank node := by
  induction list with
  | nil => exact absurd member List.not_mem_nil
  | cons first older ih =>
    rcases List.mem_cons.mp member with rfl | later
    · rw [ranked.1]
      exact Nat.succ_pos _
    · exact ih ranked.2 later

/-- Every node has a line of parents in the list, to one whose parent is null. -/
theorem Rooted.reaches (rooted : Rooted parent null list) (member : node ∈ list) :
    ∃ depth < list.length, parent^[depth + 1] node = null ∧ ∀ k ≤ depth, parent^[k] node ∈ list := by
  induction list generalizing node with
  | nil => exact absurd member List.not_mem_nil
  | cons first older ih =>
    have widen : ∀ {start : ι}, start ∈ older →
        ∃ depth < older.length, parent^[depth + 1] start = null ∧ ∀ k ≤ depth, parent^[k] start ∈ first :: older := by
      intro start inside
      obtain ⟨depth, short, ends, line⟩ := ih rooted.2 inside
      exact ⟨depth, short, ends, fun k bound => List.mem_cons_of_mem first (line k bound)⟩
    rcases List.mem_cons.mp member with rfl | later
    · rcases rooted.1 with none | elder
      · refine ⟨0, Nat.succ_pos _, none, fun k bound => ?_⟩
        rw [Nat.le_zero.mp bound]
        exact member
      · obtain ⟨depth, short, ends, line⟩ := widen elder
        refine ⟨depth + 1, Nat.succ_lt_succ short, ends, fun k bound => ?_⟩
        cases k with
        | zero => exact member
        | succ k => exact line k (Nat.le_of_succ_le_succ bound)
    · obtain ⟨depth, short, rest⟩ := widen later
      exact ⟨depth, Nat.lt_succ_of_lt short, rest⟩

theorem Rooted.parent_mem (rooted : Rooted parent null list) (member : node ∈ list) :
    parent node = null ∨ parent node ∈ list := by
  obtain ⟨depth, _, ends, line⟩ := rooted.reaches member
  cases depth with
  | zero => exact Or.inl ends
  | succ depth => exact Or.inr (line 1 (Nat.succ_le_succ (Nat.zero_le depth)))

/-- A parent counts less than its child. -/
theorem Rooted.rank_lt (rooted : Rooted parent null list) (ranked : Ranked rank list)
    (member : node ∈ list) :
    parent node = null ∨ parent node ∈ list ∧ rank (parent node) < rank node := by
  induction list with
  | nil => exact absurd member List.not_mem_nil
  | cons first older ih =>
    rcases List.mem_cons.mp member with rfl | later
    · refine rooted.1.imp_right fun elder => ⟨List.mem_cons_of_mem _ elder, ?_⟩
      have bound := ranked.2.le elder
      have here := ranked.1
      omega
    · exact (ih rooted.2 ranked.2 later).imp_right fun ⟨elder, less⟩ =>
        ⟨List.mem_cons_of_mem first elder, less⟩

/-- The line of ancestors of a node: at most as many as it counts, each counting less than the one
before, and no further one behind the last. -/
theorem Rooted.lineage (rooted : Rooted parent null list) (ranked : Ranked rank list)
    (member : node ∈ list) :
    ∃ depth, depth < rank node ∧ parent^[depth + 1] node = null ∧
      ∀ k ≤ depth, parent^[k] node ∈ list ∧ rank (parent^[k] node) + k ≤ rank node := by
  induction count : rank node using Nat.strong_induction_on generalizing node with
  | _ bound ih =>
    have positive := ranked.pos member
    rcases rooted.rank_lt ranked member with none | ⟨elder, less⟩
    · refine ⟨0, count ▸ positive, none, fun k first => ?_⟩
      obtain rfl : k = 0 := Nat.le_zero.mp first
      exact ⟨member, Nat.le_of_eq count⟩
    · obtain ⟨depth, short, ends, line⟩ := ih _ (count ▸ less) elder rfl
      refine ⟨depth + 1, by omega, ends, fun k inside => ?_⟩
      cases k with
      | zero => exact ⟨member, Nat.le_of_eq count⟩
      | succ k =>
        obtain ⟨listed, counts⟩ := line k (Nat.le_of_succ_le_succ inside)
        exact ⟨listed, by rw [Function.iterate_succ_apply]; omega⟩

end Vaelen.Base
