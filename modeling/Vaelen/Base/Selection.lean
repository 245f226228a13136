import Mathlib.Tactic

/-!
Picking one item of a list by a test and a key. A scan that keeps the best item so far ends with
the first of the greatest ones; a search that stops at its first hit finds a least one only when
no later hit is smaller.
-/

namespace Vaelen.Base
variable {α β : Type} [LinearOrder β] {test : α → Prop} {key : α → β}

/-- In a list without repetition an item has one place. -/
theorem split_unique {list before after front back : List α} {item : α} (nodup : list.Nodup)
    (split : list = before ++ item :: after) (cut : list = front ++ item :: back) :
    before = front := by
  rw [split] at nodup cut
  obtain ⟨_, distinct, apart⟩ := List.nodup_append.mp nodup
  have fresh : item ∉ before := fun inside => apart item inside item List.mem_cons_self rfl
  exact ((List.append_cons_inj_of_notMem fresh (List.nodup_cons.mp distinct).1).mp cut).1

/-- The first item of the list among those that pass the test with the greatest key. -/
def FirstGreatest (test : α → Prop) (key : α → β) (list : List α) (item : α) : Prop :=
  ∃ before after, list = before ++ item :: after ∧ test item ∧
    (∀ other ∈ before, test other → key other < key item) ∧
    ∀ other ∈ after, test other → key other ≤ key item

namespace FirstGreatest
variable {list : List α} {item held : α}

theorem mem (first : FirstGreatest test key list item) : item ∈ list := by
  obtain ⟨before, after, split, _⟩ := first
  rw [split]
  exact List.mem_append_right before List.mem_cons_self

theorem passes (first : FirstGreatest test key list item) : test item := by
  obtain ⟨_, _, _, hit, _⟩ := first
  exact hit

theorem greatest (first : FirstGreatest test key list item) {other : α} (member : other ∈ list)
    (hit : test other) : key other ≤ key item := by
  obtain ⟨before, after, split, _, earlier, later⟩ := first
  rw [split] at member
  rcases List.mem_append.mp member with inside | inside
  · exact le_of_lt (earlier other inside hit)
  · rcases List.mem_cons.mp inside with same | inside
    · rw [same]
    · exact later other inside hit

/-- The scan meets its first hit. -/
theorem start (none : ∀ other ∈ list, ¬test other) (hit : test item) :
    FirstGreatest test key (list ++ [item]) item :=
  ⟨list, [], rfl, hit, fun other member passes => absurd passes (none other member),
    fun _ member => absurd member List.not_mem_nil⟩

/-- The scan meets a hit with a greater key. -/
theorem replace (first : FirstGreatest test key list held) (hit : test item)
    (greater : key held < key item) : FirstGreatest test key (list ++ [item]) item :=
  ⟨list, [], rfl, hit, fun _ member passes => lt_of_le_of_lt (first.greatest member passes) greater,
    fun _ member => absurd member List.not_mem_nil⟩

/-- The scan passes an item by. -/
theorem keep (first : FirstGreatest test key list held)
    (worse : ¬(test item ∧ key held < key item)) :
    FirstGreatest test key (list ++ [item]) held := by
  obtain ⟨before, after, split, hit, earlier, later⟩ := first
  refine ⟨before, after ++ [item], by simp [split], hit, earlier, fun other member passes => ?_⟩
  rcases List.mem_append.mp member with inside | last
  · exact later other inside passes
  · rw [List.mem_singleton.mp last] at passes ⊢
    exact not_lt.mp fun greater => worse ⟨passes, greater⟩

/-- An item with a key that is no greater never overtakes one that stands before it. -/
theorem not_overtaken (first : FirstGreatest test key list item) (nodup : list.Nodup)
    {before after : List α} (split : list = before ++ held :: after) (hit : test held)
    (level : key item ≤ key held) : item ∉ after := by
  intro member
  obtain ⟨front, back, cut, _, earlier, _⟩ := first
  obtain ⟨middle, rest, shape⟩ := List.append_of_mem member
  have whole : list = (before ++ held :: middle) ++ item :: rest := by simp [split, shape]
  have here : held ∈ front := by
    rw [← split_unique nodup whole cut]
    exact List.mem_append_right before List.mem_cons_self
  exact absurd level (not_le.mpr (earlier held here hit))

/-- An item with the greatest key is the first one exactly when no item before it has that key. -/
theorem ne_iff (first : FirstGreatest test key list held) (nodup : list.Nodup)
    {before after : List α} (split : list = before ++ item :: after) (hit : test item)
    (same : key item = key held) :
    held ≠ item ↔ ∃ other ∈ before, test other ∧ key other = key item := by
  constructor
  · intro other
    have member := first.mem
    have behind := first.not_overtaken nodup split hit (le_of_eq same.symm)
    rw [split] at member
    have ahead : held ∈ before := (List.mem_append.mp member).resolve_right fun inside =>
      behind ((List.mem_cons.mp inside).resolve_left other)
    exact ⟨held, ahead, first.passes, same.symm⟩
  · rintro ⟨other, member, also, level⟩ rfl
    obtain ⟨front, back, cut, _, earlier, _⟩ := first
    rw [split_unique nodup split cut] at member
    exact absurd level (ne_of_lt (earlier other member also))

end FirstGreatest

/-- The first hit is a least one exactly when no hit behind it is smaller. -/
theorem find_least_iff (hits : α → Bool) (key : α → β) (list : List α) :
    (∀ hit, list.find? hits = some hit →
        ∀ other ∈ list, hits other = true → key hit ≤ key other) ↔
      ∀ before hit after, list = before ++ hit :: after → hits hit = true →
        (∀ other ∈ before, ¬hits other = true) →
        ∀ other ∈ after, hits other = true → key hit ≤ key other := by
  constructor
  · intro least before hit after split passes missed other member also
    have found : list.find? hits = some hit :=
      List.find?_eq_some_iff_append.mpr
        ⟨passes, before, after, split, fun item inside => by simpa using missed item inside⟩
    apply least hit found other _ also
    rw [split]
    exact List.mem_append_right before (List.mem_cons_of_mem hit member)
  · intro least hit found other member also
    obtain ⟨passes, before, after, split, missed⟩ := List.find?_eq_some_iff_append.mp found
    have none : ∀ item ∈ before, ¬hits item = true := fun item inside => by
      simpa using missed item inside
    rw [split] at member
    rcases List.mem_append.mp member with inside | inside
    · exact absurd also (none other inside)
    · rcases List.mem_cons.mp inside with same | inside
      · rw [same]
      · exact least before hit after split passes none other inside also

end Vaelen.Base
