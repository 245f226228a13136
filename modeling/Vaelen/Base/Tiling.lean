import Mathlib.Tactic

/-!
Lists of intervals that tile a range. Every interval starts where its
predecessor ends, so the members are ordered and pairwise disjoint, and cutting
one interval in two or joining two neighbours tiles the same range.
-/

namespace Vaelen.Base
variable {α : Type}

def Tiles (start length : α → Nat) : Nat → List α → Nat → Prop
  | low, [], high => low = high
  | low, item :: rest, high => start item = low ∧ Tiles start length (low + length item) rest high

variable {start length : α → Nat} {low high : Nat}

theorem tiles_append (low high : Nat) (first second : List α) :
    Tiles start length low (first ++ second) high ↔
      ∃ middle, Tiles start length low first middle ∧ Tiles start length middle second high := by
  induction first generalizing low with
  | nil => simp [Tiles]
  | cons item rest ih => simp only [List.cons_append, Tiles, ih, and_assoc, exists_and_left]

theorem Tiles.le {items : List α} (tiles : Tiles start length low items high) : low ≤ high := by
  induction items generalizing low with
  | nil => exact Nat.le_of_eq tiles
  | cons item rest ih =>
    have bound := ih tiles.2
    omega

theorem Tiles.bounds {items : List α} (tiles : Tiles start length low items high)
    {item : α} (member : item ∈ items) :
    low ≤ start item ∧ start item + length item ≤ high := by
  induction items generalizing low with
  | nil => simp at member
  | cons first rest ih =>
    have bound := tiles.2.le
    rcases List.mem_cons.mp member with same | later
    · subst same
      exact ⟨tiles.1.ge, tiles.1 ▸ bound⟩
    · have inside := ih tiles.2 later
      omega

theorem Tiles.ordered {items : List α} (tiles : Tiles start length low items high) :
    items.Pairwise (fun first second => start first + length first ≤ start second) := by
  induction items generalizing low with
  | nil => exact List.Pairwise.nil
  | cons item rest ih =>
    refine List.Pairwise.cons (fun later member => ?_) (ih tiles.2)
    have inside := tiles.2.bounds member
    have here := tiles.1
    omega

/-- What lies before an interval of the tiling ends by its start, and what lies
after it starts no sooner than its end. -/
theorem Tiles.around {before after : List α} {item : α}
    (tiles : Tiles start length low (before ++ item :: after) high) :
    (∀ other ∈ before, start other + length other ≤ start item) ∧
      ∀ other ∈ after, start item + length item ≤ start other := by
  have ordered := List.pairwise_append.mp tiles.ordered
  constructor
  · intro other member
    exact ordered.2.2 other member item (by simp)
  · intro other member
    exact (List.pairwise_cons.mp ordered.2.1).1 other member

/-- Replacing one interval by a list that tiles it keeps the tiling. -/
theorem Tiles.replace {before after items : List α} {item : α}
    (tiles : Tiles start length low (before ++ item :: after) high)
    (refined : Tiles start length (start item) items (start item + length item)) :
    Tiles start length low (before ++ (items ++ after)) high := by
  obtain ⟨middle, first, here, rest⟩ := (tiles_append low high before (item :: after)).mp tiles
  refine (tiles_append low high before _).mpr ⟨middle, first, ?_⟩
  rw [here] at refined
  exact (tiles_append middle high items after).mpr ⟨_, refined, rest⟩

/-- Two neighbours can be replaced by one interval of their joint length. -/
theorem Tiles.merge {before after : List α} {first second joined : α}
    (tiles : Tiles start length low (before ++ first :: second :: after) high)
    (sameStart : start joined = start first)
    (sum : length joined = length first + length second) :
    Tiles start length low (before ++ joined :: after) high := by
  obtain ⟨middle, left, here, _, rest⟩ :=
    (tiles_append low high before (first :: second :: after)).mp tiles
  refine (tiles_append low high before _).mpr ⟨middle, left, sameStart.trans here, ?_⟩
  rwa [sum, ← Nat.add_assoc]

/-! A range is tiled in one way only once the marked intervals are given, as long as no two
unmarked ones are neighbours. -/

section unique
variable {marked : α → Prop} {item other : α} {rest tail : List α}

theorem Tiles.head_le (here : Tiles start length low (item :: rest) high)
    (there : Tiles start length low (other :: tail) high)
    (apart : (other :: tail).IsChain fun first second => marked first ∨ marked second)
    (bare : ¬marked item) (unmarked : ¬marked other)
    (same : ∀ next, marked next → next ∈ other :: tail → next ∈ item :: rest) :
    length item ≤ length other := by
  by_contra shorter
  have bound := here.2.le
  cases tail with
  | nil =>
    have last : low + length other = high := there.2
    omega
  | cons next later =>
    have takes : marked next := (List.isChain_cons_cons.mp apart).1.resolve_left unmarked
    have begins : start next = low + length other := there.2.1
    rcases List.mem_cons.mp (same next takes (by simp)) with first | inside
    · exact bare (first ▸ takes)
    · have behind := (here.2.bounds inside).1
      omega

/-- An interval behind the head starts behind it. -/
theorem Tiles.start_ne (here : Tiles start length low (item :: rest) high)
    (positive : 0 < length item) {next : α} (inside : next ∈ rest) : start next ≠ low := by
  have behind := (here.2.bounds inside).1
  omega

theorem Tiles.mem_tail (here : Tiles start length low (item :: rest) high)
    (positive : 0 < length item) {next : α} (inside : next ∈ rest) (found : next ∈ item :: tail) :
    next ∈ tail := by
  rcases List.mem_cons.mp found with equal | later
  · exact absurd (equal ▸ here.1) (here.start_ne positive inside)
  · exact later

/-- Two tilings of one range start with the same interval. -/
theorem Tiles.head_eq (here : Tiles start length low (item :: rest) high)
    (there : Tiles start length low (other :: tail) high) (positive : ∀ item, 0 < length item)
    (apart : (item :: rest).IsChain fun item next => marked item ∨ marked next)
    (also : (other :: tail).IsChain fun item next => marked item ∨ marked next)
    (same : ∀ next, marked next → (next ∈ item :: rest ↔ next ∈ other :: tail))
    (determined : ∀ item other, ¬marked item → ¬marked other → start item = start other →
      length item = length other → item = other) : item = other := by
  by_cases takes : marked item
  · rcases List.mem_cons.mp ((same item takes).mp (by simp)) with equal | inside
    · exact equal
    · exact absurd here.1 (there.start_ne (positive other) inside)
  · by_cases holds : marked other
    · rcases List.mem_cons.mp ((same other holds).mpr (by simp)) with equal | inside
      · exact equal.symm
      · exact absurd there.1 (here.start_ne (positive item) inside)
    · apply determined item other takes holds (here.1.trans there.1.symm)
      apply Nat.le_antisymm
      · exact here.head_le there also takes holds fun next is => (same next is).mpr
      · exact there.head_le here apart holds takes fun next is => (same next is).mp

theorem Tiles.unique {first second : List α} (here : Tiles start length low first high)
    (there : Tiles start length low second high) (positive : ∀ item, 0 < length item)
    (apart : first.IsChain fun item next => marked item ∨ marked next)
    (also : second.IsChain fun item next => marked item ∨ marked next)
    (same : ∀ item, marked item → (item ∈ first ↔ item ∈ second))
    (determined : ∀ item other, ¬marked item → ¬marked other → start item = start other →
      length item = length other → item = other) : first = second := by
  induction first generalizing low second with
  | nil =>
    cases second with
    | nil => rfl
    | cons other tail =>
      have bound := there.2.le
      have long := positive other
      have whole : low = high := here
      omega
  | cons item rest ih =>
    cases second with
    | nil =>
      have bound := here.2.le
      have long := positive item
      have whole : low = high := there
      omega
    | cons other tail =>
      have heads := here.head_eq there positive apart also same determined
      subst heads
      have long := positive item
      have tails : rest = tail := by
        apply ih here.2 there.2 apart.tail also.tail
        intro next takes
        constructor
        · intro inside
          exact here.mem_tail long inside ((same next takes).mp (List.mem_cons_of_mem item inside))
        · intro inside
          exact there.mem_tail long inside ((same next takes).mpr (List.mem_cons_of_mem item inside))
      rw [tails]

end unique

end Vaelen.Base
