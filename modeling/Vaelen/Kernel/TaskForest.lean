import Vaelen.Base.Ancestry
import Vaelen.Kernel.TaskPids

/-!
The parents of the tasks. No call frees a task: a record stays in the list once it is made, and its
parent with it, so parent pointers never dangle.
-/

namespace Vaelen.Kernel.TaskForest
open Vaelen.Base Platform Tasks SchedulerPasses TaskPids
open SchedulerStates (listed_iff)
open TaskStacks (Untouched makes call_kept call_links)

variable {s t u : Scheduler} {list : List Word} {fuel : Nat} {op : Call} {ops later : List Call}

/-! What a task keeps from its creation on. -/

/-- The fields that say which task it is and where it lives. -/
def identity (task : Task) : Word × List Byte × Word × Word × Word × Word × Word × Word :=
  (task.pid, task.name, task.priority, task.parent, task.next, task.pageDirectory, task.kernelStack,
    task.kernelStackTop)

theorem identity_untouched : Untouched identity :=
  ⟨fun _ _ => rfl, fun _ _ => rfl, fun _ _ => rfl, fun _ _ => rfl⟩

/-- The list has grown by new tasks in front. -/
structure Grown (s t : Scheduler) (list new : List Word) : Prop where
  links : TaskList t.tasks t.taskListHead (new ++ list)
  idle : t.idleTask = 0
  kept : ∀ task ∈ list, identity (t.tasks task) = identity (s.tasks task)

theorem Grown.refl (links : TaskList s.tasks s.taskListHead list) (idle : s.idleTask = 0) :
    Grown s s list [] :=
  ⟨links, idle, fun _ _ => rfl⟩

theorem Grown.push (links : TaskList s.tasks s.taskListHead list) (idle : s.idleTask = 0)
    {addr : Word} {task : Task} (fresh : FreshTask s addr) (next : task.next = s.taskListHead)
    (tasks : t.tasks = Function.update s.tasks addr task) (head : t.taskListHead = addr)
    (same : t.idleTask = s.idleTask) : Grown s t list [addr] := by
  obtain ⟨present, unlisted⟩ := fresh
  have new : addr ∉ list := mt (listed_iff links addr).mpr unlisted
  refine ⟨?_, same.trans idle, fun other member => ?_⟩
  · rw [tasks, head]
    exact links.push present new next
  · have different : other ≠ addr := fun here => new (here ▸ member)
    rw [tasks, Function.update_of_ne different]

/-- A call makes one task at most and leaves the listed ones what they are. -/
theorem step_grown (links : TaskList s.tasks s.taskListHead list) (idle : s.idleTask = 0)
    (step : Step s op t) : ∃ new, new.length ≤ creations [op] ∧ Grown s t list new := by
  obtain ⟨allocates, fuel, returned⟩ := step
  have rests : makes op = false → Grown s t list [] := by
    intro made
    obtain ⟨same, kept⟩ := call_kept identity_untouched links idle made returned
    exact ⟨call_links links idle made returned, same.idle.trans idle, fun task _ => kept task⟩
  cases op with
  | taskCreate name entry priority allocated =>
    cases returned
    exact ⟨_, le_rfl, Grown.push links idle allocates rfl rfl rfl rfl⟩
  | taskFork allocated =>
    simp only [call, taskFork] at returned
    by_cases none : s.currentTask = 0
    · rw [if_pos none] at returned
      cases returned
      exact ⟨[], Nat.zero_le _, Grown.refl links idle⟩
    · rw [if_neg none] at returned
      cases returned
      exact ⟨_, le_rfl, Grown.push links idle (allocates none) rfl rfl rfl rfl⟩
  | _ => exact ⟨[], Nat.zero_le _, rests rfl⟩

theorem Grown.trans {new more : List Word} (first : Grown s t list new)
    (second : Grown t u (new ++ list) more) : Grown s u list (more ++ new) := by
  refine ⟨?_, second.idle, fun task member => ?_⟩
  · rw [List.append_assoc]
    exact second.links
  · exact (second.kept task (List.mem_append_right new member)).trans (first.kept task member)

theorem run_grown (links : TaskList s.tasks s.taskListHead list) (idle : s.idleTask = 0)
    (run : Runs Step s ops t) : ∃ new, new.length ≤ creations ops ∧ Grown s t list new := by
  induction run generalizing list with
  | done s => exact ⟨[], Nat.le_refl 0, Grown.refl links idle⟩
  | @next s t u op ops first rest ih =>
    obtain ⟨new, one, grown⟩ := step_grown links idle first
    obtain ⟨more, few, after⟩ := ih grown.links grown.idle
    have count := creations_cons op ops
    have single := creations_cons op []
    have empty : creations ([] : List Call) = 0 := rfl
    refine ⟨more ++ new, ?_, grown.trans after⟩
    rw [List.length_append]
    omega

/-- The first task, created and scheduled, forks. -/
theorem forks : ∃ s t, Runs Step (start (fun _ => Task.zero) 0 0) [.taskCreate [] 0 5 ⟨0x1000, 0x10000, 0, 0⟩] s ∧
    Runs Step s [.taskYield ⟨0, 0, 0, 0, 0, 0⟩, .taskFork ⟨0x2000, 0x20000, 0, 0⟩] t ∧
    (t.tasks 0x2000).parent = 0x1000 := by
  let created := taskCreate [] 0 5 ⟨0x1000, 0x10000, 0, 0⟩ (start (fun _ => Task.zero) 0 0)
  have scheduled : (call 2 created (.taskYield ⟨0, 0, 0, 0, 0, 0⟩)).map (·.currentTask) = some 0x1000 := by
    decide
  obtain ⟨current, returned, running⟩ := Option.map_eq_some_iff.mp scheduled
  have initial := start_numbered (fun _ => Task.zero) 0 0
  have unlisted : ¬SchedulerStates.Listed (start (fun _ => Task.zero) 0 0) 0x1000 := by
    rw [listed_iff initial.links]
    exact List.not_mem_nil
  have first : TaskList created.tasks created.taskListHead [0x1000] :=
    initial.links.push (by decide) List.not_mem_nil rfl
  have fresh : ¬SchedulerStates.Listed current 0x2000 := by
    rw [listed_iff (call_links first rfl rfl returned)]
    decide
  have present : current.currentTask ≠ 0 := by
    rw [running]
    decide
  refine ⟨created, taskFork ⟨0x2000, 0x20000, 0, 0⟩ current, Runs.next ⟨⟨by decide, unlisted⟩, 0, rfl⟩ (Runs.done _),
    Runs.next ⟨trivial, 2, returned⟩ (Runs.next ⟨fun _ => ⟨by decide, fresh⟩, 0, rfl⟩ (Runs.done _)), ?_⟩
  rw [taskFork, if_neg present, ← running]
  simp

/-- No run of calls takes a task out of the list, gives it another place, pid, parent, priority or
stack, or puts a new one behind it. -/
theorem run_permanent (tasks : Word → Task) (timerTicks currentDirectory : Word)
    (run : Runs Step (start tasks timerTicks currentDirectory) ops t) (rest : Runs Step t later u) :
    ∃ list new, TaskList t.tasks t.taskListHead list ∧
      TaskList u.tasks u.taskListHead (new ++ list) ∧ new.length ≤ creations later ∧
      ∀ task ∈ list, identity (u.tasks task) = identity (t.tasks task) := by
  have initial := start_numbered tasks timerTicks currentDirectory
  obtain ⟨list, _, grown⟩ := run_grown initial.links initial.idle run
  obtain ⟨new, few, after⟩ := run_grown grown.links grown.idle rest
  exact ⟨list ++ [], new, grown.links, after.links, few, after.kept⟩

theorem run_permanent_fork : ∃ s t : Scheduler, (t.tasks 0x2000).parent = 0x1000 ∧
    ∃ list new, TaskList s.tasks s.taskListHead list ∧ TaskList t.tasks t.taskListHead (new ++ list) ∧
      new.length ≤ creations [.taskYield ⟨0, 0, 0, 0, 0, 0⟩, .taskFork ⟨0x2000, 0x20000, 0, 0⟩] ∧
      ∀ task ∈ list, identity (t.tasks task) = identity (s.tasks task) := by
  obtain ⟨s, t, run, rest, parent⟩ := forks
  exact ⟨s, t, parent, run_permanent (fun _ => Task.zero) 0 0 run rest⟩

/-! The forest of the tasks. -/

theorem taskSchedule_current {regs : Switched} (links : TaskList s.tasks s.taskListHead list)
    (idle : s.idleTask = 0) (returned : taskSchedule fuel regs s = some t) :
    t.currentTask = s.currentTask ∨ t.currentTask ∈ list := by
  rcases taskSchedule_cases links idle returned with ⟨_, rfl⟩ | ⟨_, _, rfl⟩ | ⟨found, _, rfl⟩
  · exact Or.inl rfl
  · exact Or.inl rfl
  · right
    rw [(switchTo_globals _ regs _).1]
    rcases choose_cases s.tasks list 0 with none | ⟨member, _⟩
    · exact absurd none found
    · exact member

theorem store_taskSchedule_current {regs : Switched} {addr : Word} {task : Task}
    (links : TaskList s.tasks s.taskListHead list) (idle : s.idleTask = 0)
    (next : task.next = (s.tasks addr).next)
    (returned : taskSchedule fuel regs (s.store addr task) = some t) :
    t.currentTask = s.currentTask ∨ t.currentTask ∈ list := by
  have stored := links.store next
  have scheduled := taskSchedule_current stored idle returned
  exact scheduled

theorem call_current (links : TaskList s.tasks s.taskListHead list) (idle : s.idleTask = 0)
    (rests : makes op = false) (returned : call fuel s op = some t) :
    t.currentTask = s.currentTask ∨ t.currentTask ∈ list := by
  cases op with
  | taskCreate name entry priority allocated => exact Bool.noConfusion rests
  | taskFork allocated => exact Bool.noConfusion rests
  | taskExit code regs =>
    simp only [call, taskExit] at returned
    by_cases none : s.currentTask = 0
    · rw [if_pos none] at returned
      cases returned
      exact Or.inl rfl
    · rw [if_neg none] at returned
      apply store_taskSchedule_current links idle ?_ returned
      rfl
  | taskYield regs => exact taskSchedule_current links idle returned
  | taskSleep ticks regs =>
    simp only [call, taskSleep] at returned
    by_cases none : s.currentTask = 0
    · rw [if_pos none] at returned
      cases returned
      exact Or.inl rfl
    · rw [if_neg none] at returned
      apply store_taskSchedule_current links idle ?_ returned
      rfl
  | taskWake task =>
    simp only [call, taskWake] at returned
    left
    split at returned <;> exact Option.some.inj returned ▸ rfl
  | timerHandler =>
    simp only [call, timerHandler, links.timerLoop] at returned
    by_cases enough : list.length < fuel
    · rw [if_pos enough] at returned
      cases returned
      exact Or.inl rfl
    · rw [if_neg enough] at returned
      exact absurd returned (by simp)

def parentOf (s : Scheduler) (task : Word) : Word := (s.tasks task).parent

def pidOf (s : Scheduler) (task : Word) : Nat := (s.tasks task).pid.toNat

/-- The pids count the tasks from the first one on, and parents are older tasks. -/
structure Family (s : Scheduler) (list : List Word) : Prop where
  links : TaskList s.tasks s.taskListHead list
  idle : s.idleTask = 0
  next : s.nextPid.toNat = list.length + 1
  current : s.currentTask = 0 ∨ s.currentTask ∈ list
  rooted : Rooted (parentOf s) 0 list
  ranked : Ranked (pidOf s) list

theorem start_family (tasks : Word → Task) (timerTicks currentDirectory : Word) :
    Family (start tasks timerTicks currentDirectory) [] where
  links := (start_numbered tasks timerTicks currentDirectory).links
  idle := rfl
  next := rfl
  current := Or.inl rfl
  rooted := trivial
  ranked := trivial

theorem Family.rests (family : Family s list) (made : makes op = false)
    (returned : call fuel s op = some t) : Family t list := by
  obtain ⟨same, kept⟩ := call_kept identity_untouched family.links family.idle made returned
  refine ⟨call_links family.links family.idle made returned, same.idle.trans family.idle, ?_, ?_, ?_, ?_⟩
  · rw [same.nextPid]
    exact family.next
  · rcases call_current family.links family.idle made returned with current | listed
    · rw [current]
      exact family.current
    · exact Or.inr listed
  · exact family.rooted.congr fun task _ => congrArg (fun i => i.2.2.2.1) (kept task)
  · exact family.ranked.congr fun task _ => congrArg (fun i => i.1.toNat) (kept task)

theorem Family.push (family : Family s list) (room : list.length + 2 < 2 ^ 32) {addr : Word}
    {task : Task} (fresh : FreshTask s addr) (next : task.next = s.taskListHead)
    (pid : task.pid = s.nextPid) (parent : task.parent = 0 ∨ task.parent ∈ list)
    (tasks : t.tasks = Function.update s.tasks addr task) (head : t.taskListHead = addr)
    (idle : t.idleTask = s.idleTask) (nextPid : t.nextPid = s.nextPid + 1)
    (current : t.currentTask = s.currentTask) : Family t (addr :: list) := by
  have grown := Grown.push family.links family.idle fresh next tasks head idle
  have first := family.next
  have here : t.tasks addr = task := by rw [tasks, Function.update_self]
  refine ⟨grown.links, grown.idle, ?_, ?_, ⟨?_, ?_⟩, ?_, ?_⟩
  · rw [nextPid, List.length_cons]
    bv_omega
  · rw [current]
    exact family.current.imp_right (List.mem_cons_of_mem addr)
  · rw [parentOf, here]
    exact parent
  · exact family.rooted.congr fun task member => congrArg (fun i => i.2.2.2.1) (grown.kept task member)
  · rw [pidOf, here, pid]
    exact first
  · exact family.ranked.congr fun task member => congrArg (fun i => i.1.toNat) (grown.kept task member)

theorem step_family (family : Family s list) (step : Step s op t)
    (room : list.length + creations [op] + 1 < 2 ^ 32) :
    ∃ after, Family t after ∧ after.length ≤ list.length + creations [op] := by
  obtain ⟨allocates, fuel, returned⟩ := step
  cases op with
  | taskCreate name entry priority allocated =>
    cases returned
    exact ⟨_, family.push room allocates rfl rfl (Or.inl rfl) rfl rfl rfl rfl rfl, le_rfl⟩
  | taskFork allocated =>
    simp only [call, taskFork] at returned
    by_cases none : s.currentTask = 0
    · rw [if_pos none] at returned
      cases returned
      exact ⟨list, family, Nat.le_succ _⟩
    · rw [if_neg none] at returned
      cases returned
      exact ⟨_, family.push room (allocates none) rfl rfl family.current rfl rfl rfl rfl rfl, le_rfl⟩
  | _ => exact ⟨list, family.rests rfl returned, Nat.le_add_right _ _⟩

theorem run_family (family : Family s list) (run : Runs Step s ops t)
    (room : list.length + creations ops + 1 < 2 ^ 32) : ∃ after, Family t after := by
  induction run generalizing list with
  | done s => exact ⟨list, family⟩
  | @next s t u op ops first rest ih =>
    have total := creations_cons op ops
    have single := creations_cons op []
    have empty : creations ([] : List Call) = 0 := rfl
    obtain ⟨after, next, longer⟩ := step_family family first (by omega)
    exact ih next (by omega)

/-- In every state the chain of parents of a listed task stays in the list, its pids fall, and it ends
at null after fewer steps than its pid: no cycle and no dangling parent, exited tasks included. -/
theorem run_forest (tasks : Word → Task) (timerTicks currentDirectory : Word)
    (run : Runs Step (start tasks timerTicks currentDirectory) ops t) (few : creations ops < 2 ^ 32 - 1) :
    ∃ list, TaskList t.tasks t.taskListHead list ∧ ∀ task ∈ list,
      ∃ depth, depth < pidOf t task ∧ (parentOf t)^[depth + 1] task = 0 ∧
        ∀ k ≤ depth, (parentOf t)^[k] task ∈ list ∧
          pidOf t ((parentOf t)^[k] task) + k ≤ pidOf t task := by
  obtain ⟨list, family⟩ :=
    run_family (start_family tasks timerTicks currentDirectory) run (by simp; omega)
  exact ⟨list, family.links, fun task member => family.rooted.lineage family.ranked member⟩

theorem run_forest_fork : ∃ t, parentOf t 0x2000 = 0x1000 ∧
    ∃ list, TaskList t.tasks t.taskListHead list ∧ ∀ task ∈ list,
      ∃ depth, depth < pidOf t task ∧ (parentOf t)^[depth + 1] task = 0 ∧
        ∀ k ≤ depth, (parentOf t)^[k] task ∈ list ∧
          pidOf t ((parentOf t)^[k] task) + k ≤ pidOf t task := by
  obtain ⟨s, t, run, rest, parent⟩ := forks
  exact ⟨t, parent, run_forest (fun _ => Task.zero) 0 0 (run.append rest) (by decide)⟩

end Vaelen.Kernel.TaskForest
