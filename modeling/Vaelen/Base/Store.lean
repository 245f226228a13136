import Vaelen.Base.Runs

/-!
A store of values under keys, and what a history of accesses leaves in it. A system refines the store
when each of its steps is one access.
-/

namespace Vaelen.Base
variable {κ ν σ α : Type} [DecidableEq κ]

inductive Access (κ ν : Type) where
  | put (key : κ) (value : ν)
  | get (key : κ)

def Access.apply (store : κ → ν) : Access κ ν → κ → ν
  | .put key value => Function.update store key value
  | .get _ => store

def latest (store : κ → ν) (history : List (Access κ ν)) : κ → ν := history.foldl Access.apply store

variable {store : κ → ν} {before after history : List (Access κ ν)} {key : κ} {value : ν}

/-- What was never put is what the store began with. -/
theorem latest_initial (quiet : ∀ value, Access.put key value ∉ history) :
    latest store history key = store key := by
  induction history generalizing store with
  | nil => rfl
  | cons access history ih =>
    have later : latest (Access.apply store access) history key = Access.apply store access key :=
      ih fun value member => quiet value (List.mem_cons_of_mem access member)
    have here : Access.apply store access key = store key := by
      cases access with
      | get other => rfl
      | put other value =>
        have different : key ≠ other := by
          rintro rfl
          exact quiet value List.mem_cons_self
        exact Function.update_of_ne different value store
    exact later.trans here

/-- What was put last under a key is there. -/
theorem latest_put (quiet : ∀ other, Access.put key other ∉ after) :
    latest store (before ++ .put key value :: after) key = value := by
  have split : latest store (before ++ .put key value :: after) =
      latest (Function.update (latest store before) key value) after := by
    simp [latest, Access.apply]
  rw [split, latest_initial quiet, Function.update_self]

/-- A run that makes one access with each step. -/
theorem Runs.latest {step : σ → α → σ → Prop} {s t : σ} {ops : List α} (view : σ → κ → ν)
    (access : α → Access κ ν)
    (refines : ∀ s op t, step s op t → view t = Access.apply (view s) (access op))
    (run : Runs step s ops t) : view t = Base.latest (view s) (ops.map access) := by
  induction run with
  | done s => rfl
  | @next s t u op ops first rest ih =>
    calc view u
      _ = Base.latest (view t) (ops.map access) := ih
      _ = Base.latest (Access.apply (view s) (access op)) (ops.map access) := by rw [refines s op t first]

end Vaelen.Base
