import Vaelen.Kernel.TaskStacks

/-!
The process ids of the listed tasks. task_fork copies the record of its parent, pid and next
included, before it writes them; task_get_by_pid returns the first match.
-/

namespace Vaelen.Kernel.TaskPids
open Vaelen.Base Platform Tasks SchedulerPasses SchedulerStates TaskStacks

/-- The loop of task_get_by_pid, `none` when the fuel runs out. -/
def getByPidLoop : Nat → (Word → Task) → Word → Word → Option Word
  | 0, _, _, _ => none
  | fuel + 1, tasks, pid, task =>
      if task = 0 then some 0
      else if (tasks task).pid = pid then some task
      else getByPidLoop fuel tasks pid (tasks task).next

def taskGetByPid (fuel : Nat) (pid : Word) (s : Scheduler) : Option Word :=
  getByPidLoop fuel s.tasks pid s.taskListHead

/-- A block of kmalloc is not null and holds no listed task. -/
def FreshTask (s : Scheduler) (task : Word) : Prop := task ≠ 0 ∧ ¬Listed s task

/-- task_fork allocates only when there is a current task. -/
def Allocates (s : Scheduler) : Call → Prop
  | .taskCreate _ _ _ allocated => FreshTask s allocated.task
  | .taskFork allocated => s.currentTask ≠ 0 → FreshTask s allocated.task
  | _ => True

/-- Any call run to completion, by any caller. -/
def Step (s : Scheduler) (op : Call) (t : Scheduler) : Prop :=
  Allocates s op ∧ ∃ fuel, call fuel s op = some t

/-- The pids of the list are distinct and lie between 0 and next_pid. -/
structure Numbered (s : Scheduler) (list : List Word) : Prop where
  links : TaskList s.tasks s.taskListHead list
  idle : s.idleTask = 0
  count : s.taskCount.toNat = list.length
  next : s.nextPid.toNat = list.length + 1
  nonzero : ∀ task ∈ list, (s.tasks task).pid ≠ 0
  below : ∀ task ∈ list, (s.tasks task).pid < s.nextPid
  distinct : (list.map fun task => (s.tasks task).pid).Nodup

variable {s t : Scheduler} {list : List Word} {fuel : Nat} {op : Call}

theorem pid_untouched : Untouched Task.pid :=
  ⟨fun _ _ => rfl, fun _ _ => rfl, fun _ _ => rfl, fun _ _ => rfl⟩

theorem Numbered.rests (numbered : Numbered s list) (made : makes op = false)
    (returned : call fuel s op = some t) : Numbered t list := by
  obtain ⟨same, pids⟩ := call_kept pid_untouched numbered.links numbered.idle made returned
  refine ⟨call_links numbered.links numbered.idle made returned, same.idle.trans numbered.idle,
    ?_, ?_, ?_, ?_, ?_⟩
  · rw [same.count, numbered.count]
  · rw [same.nextPid]
    exact numbered.next
  · intro task member
    rw [pids task]
    exact numbered.nonzero task member
  · intro task member
    rw [pids task, same.nextPid]
    exact numbered.below task member
  · simp only [pids]
    exact numbered.distinct

/-- What task_create and task_fork both do at the end. -/
theorem Numbered.push (numbered : Numbered s list) {addr : Word} {task : Task}
    (fresh : FreshTask s addr) (room : list.length + 2 < 2 ^ 32) (pid : task.pid = s.nextPid)
    (next : task.next = s.taskListHead) (tasks : t.tasks = Function.update s.tasks addr task)
    (head : t.taskListHead = addr) (idle : t.idleTask = s.idleTask)
    (nextPid : t.nextPid = s.nextPid + 1) (count : t.taskCount = s.taskCount + 1) :
    Numbered t (addr :: list) := by
  obtain ⟨present, unlisted⟩ := fresh
  have new : addr ∉ list := mt (listed_iff numbered.links addr).mpr unlisted
  have here : (t.tasks addr).pid = s.nextPid := by
    rw [tasks, Function.update_self, pid]
  have elsewhere : ∀ other ∈ list, t.tasks other = s.tasks other := by
    intro other member
    have different : other ≠ addr := fun same => new (same ▸ member)
    rw [tasks, Function.update_of_ne different]
  have first := numbered.next
  have total := numbered.count
  have successor : (s.nextPid + 1).toNat = s.nextPid.toNat + 1 := by bv_omega
  have rest : (list.map fun task => (t.tasks task).pid) = list.map fun task => (s.tasks task).pid :=
    List.map_congr_left fun other member => congrArg Task.pid (elsewhere other member)
  refine ⟨?_, idle.trans numbered.idle, ?_, ?_, ?_, ?_, ?_⟩
  · rw [tasks, head]
    exact numbered.links.push present new next
  · rw [count, List.length_cons]
    bv_omega
  · rw [nextPid, successor, List.length_cons]
    omega
  · intro other member
    rcases List.mem_cons.mp member with rfl | member
    · rw [here]
      bv_omega
    · rw [elsewhere other member]
      exact numbered.nonzero other member
  · intro other member
    rw [nextPid]
    rcases List.mem_cons.mp member with rfl | member
    · rw [here]
      bv_omega
    · rw [elsewhere other member]
      have bound := numbered.below other member
      bv_omega
  · rw [List.map_cons, rest, here]
    apply List.nodup_cons.mpr
    refine ⟨fun member => ?_, numbered.distinct⟩
    obtain ⟨other, listed, same⟩ := List.mem_map.mp member
    have bound := numbered.below other listed
    rw [same] at bound
    exact absurd bound (BitVec.lt_irrefl _)

/-- How many of the calls make a task. -/
def creations (ops : List Call) : Nat := ops.countP makes

theorem creations_cons (op : Call) (ops : List Call) :
    creations (op :: ops) = creations ops + if makes op then 1 else 0 := List.countP_cons

theorem step_numbered (numbered : Numbered s list) (step : Step s op t)
    (room : list.length + creations [op] + 1 < 2 ^ 32) :
    ∃ after, Numbered t after ∧ after.length ≤ list.length + creations [op] := by
  obtain ⟨allocates, fuel, returned⟩ := step
  cases op with
  | taskCreate name entry priority allocated =>
    cases returned
    exact ⟨_, numbered.push allocates room rfl rfl rfl rfl rfl rfl rfl, le_rfl⟩
  | taskFork allocated =>
    simp only [call, taskFork] at returned
    by_cases none : s.currentTask = 0
    · rw [if_pos none] at returned
      cases returned
      exact ⟨list, numbered, Nat.le_succ _⟩
    · rw [if_neg none] at returned
      cases returned
      exact ⟨_, numbered.push (allocates none) room rfl rfl rfl rfl rfl rfl rfl, le_rfl⟩
  | _ => exact ⟨list, numbered.rests rfl returned, Nat.le_add_right _ _⟩

theorem run_numbered {ops : List Call} (numbered : Numbered s list) (run : Runs Step s ops t)
    (room : list.length + creations ops + 1 < 2 ^ 32) : ∃ after, Numbered t after := by
  induction run generalizing list with
  | done s => exact ⟨list, numbered⟩
  | @next s t u op ops first rest ih =>
    have total := creations_cons op ops
    have single := creations_cons op []
    have empty : creations [] = 0 := rfl
    obtain ⟨after, next, longer⟩ := step_numbered numbered first (by omega)
    exact ih next (by omega)

theorem start_numbered (tasks : Word → Task) (timerTicks currentDirectory : Word) :
    Numbered (start tasks timerTicks currentDirectory) [] where
  links := (start_scheduled tasks timerTicks currentDirectory).links
  idle := rfl
  count := rfl
  next := rfl
  nonzero _ member := absurd member List.not_mem_nil
  below _ member := absurd member List.not_mem_nil
  distinct := List.nodup_nil

/-! The lookup. -/

/-- The first task of a list with the given pid, 0 when there is none. -/
def firstByPid (tasks : Word → Task) (pid : Word) (list : List Word) : Word :=
  (list.find? fun task => (tasks task).pid = pid).getD 0

theorem getByPidLoop_eq {tasks : Word → Task} {before : Word} {list : List Word}
    (chained : Segment (fun addr => (tasks addr).next) id (fun _ _ after => after) before list 0)
    (present : 0 ∉ list) (pid : Word) (fuel : Nat) (enough : list.length < fuel) :
    getByPidLoop fuel tasks pid (headKey id list 0) = some (firstByPid tasks pid list) := by
  induction list generalizing before fuel with
  | nil =>
    cases fuel with
    | zero => exact absurd enough (Nat.not_lt_zero _)
    | succ fuel => rfl
  | cons first rest ih =>
    obtain ⟨nonzero, later⟩ := not_or.mp (mt List.mem_cons.mpr present)
    cases fuel with
    | zero => exact absurd enough (Nat.not_lt_zero _)
    | succ fuel =>
      rw [show headKey id (first :: rest) 0 = first from rfl, getByPidLoop,
        if_neg (Ne.symm nonzero)]
      by_cases found : (tasks first).pid = pid
      · rw [if_pos found]
        simp [firstByPid, found]
      · rw [if_neg found]
        have entry : (tasks first).next = headKey id rest 0 := chained.1
        rw [entry, ih chained.2 later fuel (Nat.lt_of_succ_lt_succ enough)]
        simp [firstByPid, found]

theorem Numbered.lookup (numbered : Numbered s list) (pid : Word) (fuel : Nat)
    (enough : list.length < fuel) :
    taskGetByPid fuel pid s = some (firstByPid s.tasks pid list) := by
  rw [taskGetByPid, ← numbered.links.entry]
  exact getByPidLoop_eq numbered.links.chained numbered.links.present pid fuel enough

theorem firstByPid_of_mem {tasks : Word → Task} {list : List Word}
    (distinct : (list.map fun task => (tasks task).pid).Nodup) {task : Word}
    (member : task ∈ list) : firstByPid tasks (tasks task).pid list = task := by
  cases found : list.find? fun other => (tasks other).pid = (tasks task).pid with
  | none => exact absurd (List.find?_eq_none.mp found task member) (by simp)
  | some other =>
    have listed := List.mem_of_find?_eq_some found
    have same : (tasks other).pid = (tasks task).pid := by simpa using List.find?_some found
    rw [firstByPid, found, Option.getD_some]
    exact List.inj_on_of_nodup_map distinct listed member same

theorem firstByPid_of_absent {tasks : Word → Task} {list : List Word} {pid : Word}
    (absent : ∀ task ∈ list, (tasks task).pid ≠ pid) : firstByPid tasks pid list = 0 := by
  have none : list.find? (fun task => (tasks task).pid = pid) = none := by
    apply List.find?_eq_none.mpr
    intro task member
    simpa using absent task member
  rw [firstByPid, none, Option.getD_none]

/-- The list of tasks and task_get_by_pid after any run that creates fewer than 2^32 - 1 tasks. -/
theorem run_pids (tasks : Word → Task) (timerTicks currentDirectory : Word) (ops : List Call)
    (s : Scheduler) (run : Runs Step (start tasks timerTicks currentDirectory) ops s)
    (few : creations ops < 2 ^ 32 - 1) :
    ∃ list, TaskList s.tasks s.taskListHead list ∧ s.taskCount.toNat = list.length ∧
      (∀ task ∈ list, (s.tasks task).pid ≠ 0) ∧
      (list.map fun task => (s.tasks task).pid).Nodup ∧
      ∀ fuel, list.length < fuel →
        (∀ task ∈ list, taskGetByPid fuel (s.tasks task).pid s = some task) ∧
        ∀ pid, (∀ task ∈ list, (s.tasks task).pid ≠ pid) → taskGetByPid fuel pid s = some 0 := by
  obtain ⟨list, numbered⟩ :=
    run_numbered (start_numbered tasks timerTicks currentDirectory) run (by simp; omega)
  refine ⟨list, numbered.links, numbered.count, numbered.nonzero, numbered.distinct, ?_⟩
  intro fuel enough
  constructor
  · intro task member
    rw [numbered.lookup _ fuel enough, firstByPid_of_mem numbered.distinct member]
  · intro pid absent
    rw [numbered.lookup pid fuel enough, firstByPid_of_absent absent]

/-- A task is created, scheduled and forks; its child has pid 2. -/
theorem run_pids_fork :
    ∃ s list, TaskList s.tasks s.taskListHead list ∧ s.taskCount.toNat = list.length ∧
      0x2000 ∈ list ∧ (s.tasks 0x2000).pid = 2 ∧
      ∀ fuel, list.length < fuel → taskGetByPid fuel 2 s = some 0x2000 := by
  let created := taskCreate [] 0 5 ⟨0x1000, 0x10000, 0, 0⟩ (start (fun _ => Task.zero) 0 0)
  have facts : (call 2 created (.taskYield ⟨0, 0, 0, 0, 0, 0⟩)).map
      (fun s => (s.nextPid, s.currentTask)) = some (2, 0x1000) := by decide
  obtain ⟨current, returned, same⟩ := Option.map_eq_some_iff.mp facts
  obtain ⟨nextPid, scheduled⟩ := Prod.mk.inj same
  have initial := start_numbered (fun _ => Task.zero) 0 0
  have unlisted : ¬Listed (start (fun _ => Task.zero) 0 0) 0x1000 := by
    rw [listed_iff initial.links]
    exact List.not_mem_nil
  have single : TaskList created.tasks created.taskListHead [0x1000] :=
    initial.links.push (by decide) List.not_mem_nil rfl
  have kept := call_links single rfl rfl returned
  have fresh : ¬Listed current 0x2000 := by
    rw [listed_iff kept]
    decide
  have some : current.currentTask ≠ 0 := by
    rw [scheduled]
    decide
  have forked : call 0 current (.taskFork ⟨0x2000, 0x20000, 0, 0⟩) =
      Option.some (taskFork ⟨0x2000, 0x20000, 0, 0⟩ current) := rfl
  have run : Runs Step (start (fun _ => Task.zero) 0 0)
      [.taskCreate [] 0 5 ⟨0x1000, 0x10000, 0, 0⟩, .taskYield ⟨0, 0, 0, 0, 0, 0⟩,
        .taskFork ⟨0x2000, 0x20000, 0, 0⟩] (taskFork ⟨0x2000, 0x20000, 0, 0⟩ current) :=
    Runs.next ⟨⟨by decide, unlisted⟩, 0, rfl⟩
      (Runs.next ⟨trivial, 2, returned⟩
        (Runs.next ⟨fun _ => ⟨by decide, fresh⟩, 0, forked⟩ (Runs.done _)))
  obtain ⟨list, links, count, nonzero, distinct, lookup⟩ :=
    run_pids (fun _ => Task.zero) 0 0 _ _ run (by decide)
  have head : (taskFork ⟨0x2000, 0x20000, 0, 0⟩ current).taskListHead = 0x2000 := by
    rw [taskFork, if_neg some]
  have pid : ((taskFork ⟨0x2000, 0x20000, 0, 0⟩ current).tasks 0x2000).pid = 2 := by
    rw [taskFork, if_neg some, ← nextPid]
    simp
  have member : 0x2000 ∈ list := by
    cases list with
    | nil => exact absurd (links.entry.trans head) (by decide)
    | cons task rest => exact (links.entry.trans head) ▸ List.mem_cons_self
  refine ⟨_, list, links, count, member, pid, fun fuel enough => ?_⟩
  have found := (lookup fuel enough).1 0x2000 member
  rwa [pid] at found

end Vaelen.Kernel.TaskPids
