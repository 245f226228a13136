import Mathlib.Tactic

/-!
Runs of a labelled transition relation: the induction that turns a fact about
one step into a fact about every run is done here once.
-/

namespace Vaelen.Base
variable {σ α : Type}

inductive Runs (step : σ → α → σ → Prop) : σ → List α → σ → Prop
  | done (s : σ) : Runs step s [] s
  | next {s t u : σ} {op : α} {ops : List α} (first : step s op t) (rest : Runs step t ops u) :
      Runs step s (op :: ops) u

variable {step : σ → α → σ → Prop} {s t u : σ} {ops later : List α}

theorem Runs.append (first : Runs step s ops t) (second : Runs step t later u) :
    Runs step s (ops ++ later) u := by
  induction first with
  | done s => exact second
  | next here _ ih => exact Runs.next here (ih second)

theorem Runs.snoc {op : α} (run : Runs step s ops t) (last : step t op u) :
    Runs step s (ops ++ [op]) u :=
  run.append (Runs.next last (Runs.done u))

theorem Runs.split (run : Runs step s (ops ++ later) u) :
    ∃ t, Runs step s ops t ∧ Runs step t later u := by
  induction ops generalizing s with
  | nil => exact ⟨s, Runs.done s, run⟩
  | cons op rest ih =>
    cases run with
    | next first tail =>
      obtain ⟨t, left, right⟩ := ih tail
      exact ⟨t, Runs.next first left, right⟩

theorem Runs.last {op : α} (run : Runs step s (ops ++ [op]) u) :
    ∃ t, Runs step s ops t ∧ step t op u := by
  obtain ⟨t, first, tail⟩ := run.split
  cases tail with
  | next here rest =>
    cases rest
    exact ⟨t, first, here⟩

/-- What holds at the start and is kept by every step of `ops` holds in every state on the way. -/
@[elab_as_elim]
theorem Runs.along {holds : σ → Prop} (initial : holds s)
    (kept : ∀ before op after t u, ops = before ++ op :: after → Runs step s before t →
      step t op u → holds t → holds u)
    (before after : List α) (t : σ) (split : ops = before ++ after)
    (run : Runs step s before t) : holds t := by
  induction before using List.reverseRecOn generalizing after t with
  | nil =>
    cases run
    exact initial
  | append_singleton before op ih =>
    obtain ⟨middle, first, here⟩ := run.last
    have whole : ops = before ++ op :: after := by simp [split]
    exact kept before op after middle t whole first here (ih (op :: after) middle whole first)

theorem Runs.deterministic (unique : ∀ s op t u, step s op t → step s op u → t = u)
    (first : Runs step s ops t) (second : Runs step s ops u) : t = u := by
  induction first with
  | done s =>
    cases second
    rfl
  | next here _ ih =>
    cases second with
    | next also rest =>
      rw [← unique _ _ _ _ here also] at rest
      exact ih rest

theorem Runs.mono {other : σ → α → σ → Prop} (run : Runs step s ops t)
    (weaker : ∀ s op t, step s op t → other s op t) : Runs other s ops t := by
  induction run with
  | done s => exact Runs.done s
  | next first _ ih => exact Runs.next (weaker _ _ _ first) ih

/-- Folding a partial transition function over the operations follows a run. -/
theorem Runs.of_foldlM {call : σ → α → Option σ} (returned : ops.foldlM call s = some t) :
    Runs (fun s op t => call s op = some t) s ops t := by
  induction ops generalizing s with
  | nil =>
    rw [← Option.some.inj returned]
    exact Runs.done s
  | cons op rest ih =>
    rw [List.foldlM_cons] at returned
    obtain ⟨middle, first, tail⟩ := Option.bind_eq_some_iff.mp returned
    exact Runs.next first (ih tail)

/-- What every step preserves holds at the end of every run. -/
theorem Runs.invariant {holds : σ → Prop} (run : Runs step s ops t) (initial : holds s)
    (preserved : ∀ s op t, holds s → step s op t → holds t) : holds t := by
  induction run with
  | done s => exact initial
  | next first _ ih => exact ih (preserved _ _ _ initial first)

/-! What was done last. -/

/-- An operation that sets has come, and none that clears has come since. -/
def Since (sets clears : α → Prop) (ops : List α) : Prop :=
  ∃ before op after, ops = before ++ op :: after ∧ sets op ∧ ∀ later ∈ after, ¬clears later

section since
variable {sets clears : α → Prop} {op : α}

theorem not_since_nil : ¬Since sets clears [] := by
  rintro ⟨before, op, after, split, _⟩
  exact absurd split (by simp)

theorem since_snoc : Since sets clears (ops ++ [op]) ↔ sets op ∨ ¬clears op ∧ Since sets clears ops := by
  constructor
  · rintro ⟨before, found, after, split, set, kept⟩
    rcases List.eq_nil_or_concat after with rfl | ⟨rest, last, rfl⟩
    · obtain ⟨_, same⟩ := List.append_inj' split rfl
      rw [List.singleton_inj.mp same]
      exact Or.inl set
    · rw [List.concat_eq_append, ← List.cons_append, ← List.append_assoc] at split
      obtain ⟨front, same⟩ := List.append_inj' split rfl
      rw [List.singleton_inj.mp same]
      exact Or.inr ⟨kept last (by simp), before, found, rest, front, set,
        fun later member => kept later (by simp [member])⟩
  · rintro (set | ⟨kept, before, found, after, rfl, set, rest⟩)
    · exact ⟨ops, op, [], rfl, set, by simp⟩
    · refine ⟨before, found, after ++ [op], by simp, set, fun later member => ?_⟩
      rcases List.mem_append.mp member with inside | last
      · exact rest later inside
      · rwa [List.mem_singleton.mp last]

/-- A flag that is down at the start, and that every step raises, lowers or leaves. -/
theorem Runs.since {start : σ} (run : Runs step start ops t) (holds : σ → Prop)
    (down : ¬holds start)
    (stepped : ∀ ops s op t, Runs step start ops s → step s op t →
      (holds t ↔ sets op ∨ ¬clears op ∧ holds s)) : holds t ↔ Since sets clears ops := by
  induction ops using List.reverseRecOn generalizing t with
  | nil =>
    cases run
    exact iff_of_false down not_since_nil
  | append_singleton before op ih =>
    obtain ⟨s, first, here⟩ := run.last
    rw [stepped before s op t first here, since_snoc, ih first]

end since

/-! Runs whose steps climb. -/

section climbing
variable {rank : σ → Nat} (climbs : ∀ s op t, step s op t → rank s < rank t)
include climbs

theorem Runs.climb (run : Runs step s ops t) : rank s ≤ rank t := by
  induction run with
  | done s => exact Nat.le_refl _
  | next first _ ih => exact Nat.le_trans (Nat.le_of_lt (climbs _ _ _ first)) ih

/-- Of two runs that have no choice, the one that ends lower is the beginning of the other. -/
theorem Runs.part (unique : ∀ s op t other u, step s op t → step s other u → op = other ∧ t = u)
    (first : Runs step s ops t) (second : Runs step s later u) (order : rank t ≤ rank u) :
    ∃ rest, later = ops ++ rest ∧ Runs step t rest u := by
  induction first generalizing later with
  | done s => exact ⟨later, rfl, second⟩
  | next here tail ih =>
    cases second with
    | done =>
      have above := climbs _ _ _ here
      have along := Runs.climb climbs tail
      omega
    | next also rest =>
      obtain ⟨rfl, rfl⟩ := unique _ _ _ _ _ here also
      obtain ⟨more, rfl, run⟩ := ih rest order
      exact ⟨more, rfl, run⟩

/-- Two that end equally high are the same. -/
theorem Runs.same (unique : ∀ s op t other u, step s op t → step s other u → op = other ∧ t = u)
    (first : Runs step s ops t) (second : Runs step s later u) (level : rank t = rank u) : ops = later ∧ t = u := by
  obtain ⟨rest, rfl, run⟩ := Runs.part climbs unique first second (Nat.le_of_eq level)
  cases run with
  | done => exact ⟨(List.append_nil ops).symm, rfl⟩
  | next here tail =>
    have above := climbs _ _ _ here
    have along := Runs.climb climbs tail
    omega

end climbing

end Vaelen.Base
