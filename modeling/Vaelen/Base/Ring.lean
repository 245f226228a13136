import Mathlib.Tactic

/-!
Ring buffers. The items that were put into a ring are numbered from the start, and item `k`
lies in slot `k % capacity`. `Window` says that the items from `taken` on are still there.
-/

namespace Vaelen.Base
variable {α : Type}

structure Window (capacity : Nat) (slots : Nat → α) (items : List α) (taken : Nat) : Prop where
  taken_le : taken ≤ items.length
  le_capacity : items.length ≤ taken + capacity
  slot : ∀ k, taken ≤ k → (inside : k < items.length) → slots (k % capacity) = items.get ⟨k, inside⟩

variable {capacity taken : Nat} {slots : Nat → α} {items : List α}

theorem Window.empty (capacity : Nat) (slots : Nat → α) : Window capacity slots [] 0 :=
  ⟨Nat.le_refl 0, Nat.zero_le _, fun _ _ inside => absurd inside (Nat.not_lt_zero _)⟩

/-- Two numbers less than `capacity` apart lie in different slots. -/
theorem slot_ne {first second : Nat} (order : first < second) (near : second < first + capacity) :
    first % capacity ≠ second % capacity := by
  intro same
  have multiple : capacity ∣ second - first := (Nat.modEq_iff_dvd' order.le).mp same
  have bound := Nat.le_of_dvd (by omega) multiple
  omega

/-- An item put behind the others overwrites none that is still to be taken. -/
theorem Window.put (window : Window capacity slots items taken)
    (room : items.length < taken + capacity) (item : α) :
    Window capacity (Function.update slots (items.length % capacity) item) (items ++ [item])
      taken := by
  apply Window.mk
  · have bound := window.taken_le
    rw [List.length_append, List.length_singleton]
    omega
  · rw [List.length_append, List.length_singleton]
    omega
  · intro k later inside
    rw [List.length_append, List.length_singleton] at inside
    by_cases last : k = items.length
    · subst last
      rw [Function.update_self]
      simp
    · have early : k < items.length := by omega
      rw [Function.update_of_ne (slot_ne early (by omega)), window.slot k later early]
      simp [List.getElem_append_left early]

/-- The next item, as long as there is one. -/
theorem Window.next (window : Window capacity slots items taken) (some : taken < items.length) :
    slots (taken % capacity) = items.get ⟨taken, some⟩ :=
  window.slot taken (Nat.le_refl taken) some

theorem Window.take (window : Window capacity slots items taken) (some : taken < items.length) :
    Window capacity slots items (taken + 1) := by
  have bound := window.le_capacity
  exact ⟨some, by omega, fun k later inside => window.slot k (by omega) inside⟩

/-- A ring that is never emptied holds the latest items, and a new one pushes the oldest out. -/
theorem Window.push (window : Window capacity slots items (items.length - capacity))
    (positive : 0 < capacity) (item : α) :
    Window capacity (Function.update slots (items.length % capacity) item) (items ++ [item])
      ((items ++ [item]).length - capacity) := by
  have longer : (items ++ [item]).length = items.length + 1 := List.length_append
  rw [longer]
  by_cases full : capacity ≤ items.length
  · have oldest : items.length - capacity < items.length := by omega
    have shifted : items.length + 1 - capacity = items.length - capacity + 1 := Nat.sub_add_comm full
    rw [shifted]
    exact (window.take oldest).put (by omega) item
  · have none : items.length + 1 - capacity = items.length - capacity := by omega
    rw [none]
    exact window.put (by omega) item

/-- Before the ring wraps, its slots are the items in order. -/
theorem Window.slots_eq (window : Window capacity slots items taken) (fresh : taken = 0)
    (few : items.length ≤ capacity) : (List.range items.length).map slots = items := by
  apply List.ext_get (by simp)
  intro k _ inside
  have held := window.slot k (fresh.le.trans (Nat.zero_le k)) inside
  by_cases wraps : k < capacity
  · rw [Nat.mod_eq_of_lt wraps] at held
    simpa using held
  · omega

/-- A full ring holds the latest items, turned by the number of all of them. -/
theorem Window.slots_rotate (window : Window capacity slots items (items.length - capacity))
    (full : capacity ≤ items.length) :
    ((List.range capacity).map slots).rotate items.length = items.drop (items.length - capacity) := by
  apply List.ext_get
  · rw [List.length_rotate, List.length_map, List.length_range, List.length_drop]
    omega
  · intro k inside _
    rw [List.length_rotate, List.length_map, List.length_range] at inside
    have held := window.slot (items.length - capacity + k) (Nat.le_add_right _ k) (by omega)
    have place : (k + items.length) % capacity = (items.length - capacity + k) % capacity := by
      rw [← Nat.add_mod_right (items.length - capacity + k)]
      congr 1
      omega
    rw [← place] at held
    simpa [List.getElem_rotate] using held

/-- A prefix and the item behind it form a prefix. -/
theorem prefix_snoc {first items : List α} (prior : first <+: items)
    (more : first.length < items.length) :
    first ++ [items.get ⟨first.length, more⟩] <+: items := by
  obtain ⟨rest, same⟩ := prior
  subst same
  cases rest with
  | nil => simp at more
  | cons item rest => exact ⟨rest, by simp⟩

end Vaelen.Base
