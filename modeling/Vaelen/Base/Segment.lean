import Mathlib.Tactic

/-!
Segments of linked lists in a store. `view` reads the record at a key, and
`node item before after` is the record an item must have between a predecessor
and a successor key. Singly linked lists ignore `before`.
-/

namespace Vaelen.Base
variable {κ α ν : Type}

def headKey (key : α → κ) : List α → κ → κ
  | [], after => after
  | item :: _, _ => key item

def lastKey (key : α → κ) : κ → List α → κ
  | before, [] => before
  | _, item :: rest => lastKey key (key item) rest

/-- The items lie in the store in this order, entered from `before` and left for `after`. -/
def Segment (view : κ → ν) (key : α → κ) (node : α → κ → κ → ν) : κ → List α → κ → Prop
  | _, [], _ => True
  | before, item :: rest, after =>
      view (key item) = node item before (headKey key rest after) ∧
        Segment view key node (key item) rest after

variable {view other : κ → ν} {key : α → κ} {node : α → κ → κ → ν}

theorem headKey_append (first second : List α) (after : κ) :
    headKey key (first ++ second) after = headKey key first (headKey key second after) := by
  cases first <;> rfl

theorem lastKey_append (before : κ) (first second : List α) :
    lastKey key before (first ++ second) = lastKey key (lastKey key before first) second := by
  induction first generalizing before with
  | nil => rfl
  | cons item rest ih => exact ih (key item)

theorem segment_append (before after : κ) (first second : List α) :
    Segment view key node before (first ++ second) after ↔
      Segment view key node before first (headKey key second after) ∧
        Segment view key node (lastKey key before first) second after := by
  induction first generalizing before with
  | nil => simp [Segment, lastKey]
  | cons item rest ih =>
    simp only [List.cons_append, Segment, lastKey, ih, headKey_append, and_assoc]

/-- What the records of a segment say of their items, whatever the neighbours. -/
theorem Segment.record {before after : κ} {items : List α}
    (segment : Segment view key node before items after) {item : α} (member : item ∈ items) :
    ∃ left right, view (key item) = node item left right := by
  induction items generalizing before with
  | nil => exact absurd member List.not_mem_nil
  | cons first rest ih =>
    rcases List.mem_cons.mp member with here | later
    · rw [here]
      exact ⟨_, _, segment.1⟩
    · exact ih segment.2 later

theorem headKey_keys (items : List α) (after : κ) :
    headKey id (items.map key) after = headKey key items after := by
  cases items <;> rfl

/-- The keys of a segment, linked by one field of its records. -/
theorem Segment.keys {before entry after : κ} {items : List α}
    (segment : Segment view key node before items after) {field : ν → κ}
    (link : ∀ item left right, field (node item left right) = right) :
    Segment (fun place => field (view place)) id (fun _ _ right => right) entry (items.map key)
      after := by
  induction items generalizing before entry with
  | nil => trivial
  | cons item rest ih =>
    refine ⟨?_, ih segment.2⟩
    rw [headKey_keys]
    exact (congrArg field segment.1).trans (link item _ _)

/-- A segment only depends on the records at its own keys. -/
theorem Segment.congr {before after : κ} {items : List α}
    (segment : Segment view key node before items after)
    (same : ∀ item ∈ items, other (key item) = view (key item)) :
    Segment other key node before items after := by
  induction items generalizing before with
  | nil => trivial
  | cons item rest ih =>
    refine ⟨(same item (by simp)).trans segment.1, ?_⟩
    exact ih segment.2 (fun next member => same next (by simp [member]))

/-- A segment entered from another key: the head's record names the new key, and
every later record is as before. -/
theorem Segment.reenter {before after entry : κ} {items : List α}
    (segment : Segment view key node before items after)
    (head : ∀ item rest, items = item :: rest →
      other (key item) = node item entry (headKey key rest after))
    (tail : ∀ item ∈ items.tail, other (key item) = view (key item)) :
    Segment other key node entry items after := by
  cases items with
  | nil => trivial
  | cons item rest => exact ⟨head item rest rfl, segment.2.congr tail⟩

end Vaelen.Base
