import Mathlib.Tactic

/-!
Computations that read an array, with the places they read on record. A computation that does not
end has no result.
-/

namespace Vaelen.Base

/-- The value and the places read, in order. -/
def Reading (ι β α : Type) : Type := (ι → β) → Option (α × List ι)

namespace Reading
variable {ι β α γ : Type}

def done (a : α) : Reading ι β α := fun _ => some (a, [])

def stuck : Reading ι β α := fun _ => none

def read (k : ι) : Reading ι β β := fun array => some (array k, [k])

/-- A result that may be missing. -/
def lift : Option α → Reading ι β α
  | none => stuck
  | some a => done a

def andThen (m : Reading ι β α) (next : α → Reading ι β γ) : Reading ι β γ := fun array =>
  (m array).bind fun first => (next first.1 array).map fun second => (second.1, first.2 ++ second.2)

instance : Monad (Reading ι β) where
  pure := done
  bind := andThen

/-- It ends with `a` and has read only `within`. -/
def Returns (m : Reading ι β α) (array : ι → β) (within : ι → Prop) (a : α) : Prop :=
  ∃ reads, m array = some (a, reads) ∧ ∀ k ∈ reads, within k

variable {m : Reading ι β α} {next : α → Reading ι β γ} {array : ι → β} {within wider : ι → Prop} {a : α} {b : γ}

theorem returns_pure (a : α) : Returns (pure a) array within a :=
  ⟨[], rfl, fun _ member => absurd member List.not_mem_nil⟩

theorem returns_read {k : ι} (inside : within k) : Returns (read k) array within (array k) :=
  ⟨[k], rfl, fun _ member => List.mem_singleton.mp member ▸ inside⟩

theorem Returns.bind (first : Returns m array within a) (rest : Returns (next a) array within b) :
    Returns (m >>= next) array within b := by
  obtain ⟨reads, ended, inside⟩ := first
  obtain ⟨later, finished, also⟩ := rest
  refine ⟨reads ++ later, ?_, ?_⟩
  · calc
      _ = (m array).bind fun first => (next first.1 array).map fun second =>
          (second.1, first.2 ++ second.2) := rfl
      _ = (next a array).map fun second => (second.1, reads ++ second.2) := by rw [ended]; rfl
      _ = _ := by rw [finished]; rfl
  · intro k member
    rcases List.mem_append.mp member with early | late
    · exact inside k early
    · exact also k late

theorem returns_lift {result : Option α} (found : result = some a) : Returns (lift result) array within a := by
  rw [found]
  exact returns_pure a

/-- What is read next decides how it goes on. -/
theorem Returns.then_read {k : ι} {next : β → Reading ι β γ} (inside : within k)
    (rest : Returns (next (array k)) array within b) : Returns (read k >>= next) array within b :=
  (returns_read inside).bind rest

theorem Returns.mono (returned : Returns m array within a) (weaker : ∀ k, within k → wider k) :
    Returns m array wider a := by
  obtain ⟨reads, ended, inside⟩ := returned
  exact ⟨reads, ended, fun k member => weaker k (inside k member)⟩

/-- However it ends, it has read this place. -/
def MustRead (m : Reading ι β α) (array : ι → β) (k : ι) : Prop :=
  ∀ a reads, m array = some (a, reads) → k ∈ reads

theorem mustRead_read (k : ι) : MustRead (read k) array k := by
  intro a reads ended
  have same := congrArg Prod.snd (Option.some.inj ended)
  change [k] = reads at same
  rw [← same]
  exact List.mem_singleton_self k

theorem mustRead_stuck (k : ι) : MustRead (stuck : Reading ι β α) array k := fun _ _ ended =>
  absurd ended (Option.some_ne_none _).symm

/-- The two parts of a computation that has ended. -/
theorem bind_ended {reads : List ι} (ended : (m >>= next) array = some (b, reads)) :
    ∃ a first second, m array = some (a, first) ∧ next a array = some (b, second) ∧ reads = first ++ second := by
  obtain ⟨parts, begun, finished⟩ := Option.bind_eq_some_iff.mp ended
  obtain ⟨rest, later, same⟩ := Option.map_eq_some_iff.mp finished
  obtain ⟨rfl, rfl⟩ := Prod.mk.inj same
  exact ⟨parts.1, parts.2, rest.2, begun, later, rfl⟩

theorem MustRead.bind {k : ι} (first : MustRead m array k) : MustRead (m >>= next) array k := by
  intro b reads ended
  obtain ⟨a, early, late, begun, _, rfl⟩ := bind_ended ended
  exact List.mem_append_left late (first a early begun)

/-- Every way to go on from where the first part ends. -/
theorem MustRead.after {k : ι}
    (rest : ∀ a reads, m array = some (a, reads) → MustRead (next a) array k) :
    MustRead (m >>= next) array k := by
  intro b reads ended
  obtain ⟨a, early, late, begun, finished, rfl⟩ := bind_ended ended
  exact List.mem_append_right early (rest a early begun b late finished)

/-- A read goes on with what stands there. -/
theorem MustRead.then_read {k place : ι} {next : β → Reading ι β γ} (rest : MustRead (next (array place)) array k) :
    MustRead (read place >>= next) array k := by
  apply MustRead.after
  intro value reads ended
  have same : array place = value := congrArg Prod.fst (Option.some.inj ended)
  rw [← same]
  exact rest

end Reading

end Vaelen.Base
