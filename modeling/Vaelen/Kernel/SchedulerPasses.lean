import Vaelen.Base.Segment
import Vaelen.Kernel.Tasks

/-!
The two loops over the task list, and task_schedule on a list that is well formed.
-/

namespace Vaelen.Kernel.SchedulerPasses
open Vaelen.Base Platform Tasks

/-- The tasks from task_list_head on, in the order of the next fields. -/
structure TaskList (tasks : Word → Task) (head : Word) (list : List Word) : Prop where
  entry : headKey id list 0 = head
  chained : Segment (fun addr => (tasks addr).next) id (fun _ _ after => after) 0 list 0
  present : 0 ∉ list
  nodup : list.Nodup

theorem TaskList.congr {tasks other : Word → Task} {head : Word} {list : List Word}
    (links : TaskList tasks head list) (same : ∀ addr ∈ list, (other addr).next = (tasks addr).next) :
    TaskList other head list :=
  ⟨links.entry, links.chained.congr same, links.present, links.nodup⟩

theorem TaskList.push {tasks : Word → Task} {head addr : Word} {list : List Word} {task : Task}
    (links : TaskList tasks head list) (present : addr ≠ 0) (fresh : addr ∉ list)
    (next : task.next = head) :
    TaskList (Function.update tasks addr task) addr (addr :: list) where
  entry := rfl
  chained := by
    constructor
    · change (Function.update tasks addr task addr).next = _
      rw [Function.update_self, next, links.entry]
    · have same : ∀ item ∈ list, (Function.update tasks addr task item).next = (tasks item).next := by
        intro item member
        have other : item ≠ addr := fun same => fresh (same ▸ member)
        rw [Function.update_of_ne other]
      refine links.chained.reenter (fun item rest split => ?_) fun item member =>
        same item (List.mem_of_mem_tail member)
      rw [split] at same links
      exact (same item List.mem_cons_self).trans links.chained.1
  present := fun member => (List.mem_cons.mp member).elim present.symm links.present
  nodup := List.nodup_cons.mpr ⟨fresh, links.nodup⟩

theorem chained_unique {tasks : Word → Task} {before other : Word} {list same : List Word}
    (entry : headKey id list 0 = headKey id same 0)
    (first : Segment (fun addr => (tasks addr).next) id (fun _ _ after => after) before list 0)
    (second : Segment (fun addr => (tasks addr).next) id (fun _ _ after => after) other same 0)
    (present : 0 ∉ list) (also : 0 ∉ same) : list = same := by
  induction list generalizing before other same with
  | nil =>
    cases same with
    | nil => rfl
    | cons task rest =>
      have zero : task = 0 := entry.symm
      exact absurd (zero ▸ List.mem_cons_self) also
  | cons task rest ih =>
    cases same with
    | nil =>
      have zero : task = 0 := entry
      exact absurd (zero ▸ List.mem_cons_self) present
    | cons next others =>
      have here : task = next := entry
      subst here
      rw [ih (first.1.symm.trans second.1) first.2 second.2
        (fun member => present (List.mem_cons_of_mem _ member))
        (fun member => also (List.mem_cons_of_mem _ member))]

theorem TaskList.unique {tasks : Word → Task} {head : Word} {list same : List Word}
    (first : TaskList tasks head list) (second : TaskList tasks head same) : list = same :=
  chained_unique (first.entry.trans second.entry.symm) first.chained second.chained first.present
    second.present

/-- The store after one pass that counts down every listed task. -/
def countAll (tasks : Word → Task) (list : List Word) (addr : Word) : Task :=
  if addr ∈ list then countDown (tasks addr) else tasks addr

/-- The task the loop of task_schedule ends with. -/
def choose (tasks : Word → Task) : List Word → Word → Word
  | [], next => next
  | task :: rest, next => choose tasks rest (if preferred tasks next task then task else next)

section countDown
variable (task : Task)

@[simp] theorem countDown_next : (countDown task).next = task.next := by
  unfold countDown
  split
  · dsimp only
    split <;> rfl
  · rfl

@[simp] theorem countDown_priority : (countDown task).priority = task.priority := by
  unfold countDown
  split
  · dsimp only
    split <;> rfl
  · rfl

theorem countDown_awake (awake : task.state ≠ .sleeping) : countDown task = task := by
  unfold countDown
  rw [if_neg fun both => awake both.1]

/-- A sleeper with ticks left loses one, and wakes when it was the last. -/
theorem countDown_asleep (asleep : task.state = .sleeping ∧ 0 < task.sleepTicks) :
    (countDown task).sleepTicks = task.sleepTicks - 1 ∧
      (countDown task).state = if (countDown task).sleepTicks = 0 then .ready else .sleeping := by
  have same : countDown task =
      if task.sleepTicks - 1 = 0 then
        { task with sleepTicks := task.sleepTicks - 1, state := .ready }
      else { task with sleepTicks := task.sleepTicks - 1 } := if_pos asleep
  rw [same]
  by_cases last : task.sleepTicks - 1 = 0
  · rw [if_pos last]
    exact ⟨rfl, (if_pos last).symm⟩
  · rw [if_neg last]
    exact ⟨rfl, asleep.1.trans (if_neg last).symm⟩

theorem countDown_running : (countDown task).state = .running ↔ task.state = .running := by
  unfold countDown
  by_cases asleep : task.state = .sleeping ∧ 0 < task.sleepTicks
  · rw [if_pos asleep]
    dsimp only
    split
    · simp [asleep.1]
    · simp [asleep.1]
  · rw [if_neg asleep]

end countDown

/-! Switching. -/

/-- A store that keeps a field of its task keeps it everywhere. -/
theorem store_field {β : Type} (field : Task → β) (s : Scheduler) (addr other : Word) (task : Task)
    (same : field task = field (s.tasks addr)) :
    field ((s.store addr task).tasks other) = field (s.tasks other) := by
  rw [store_tasks]
  by_cases here : other = addr
  · rw [here, Function.update_self, same]
  · rw [Function.update_of_ne here]

@[simp] theorem setState_currentTask (s : Scheduler) (addr : Word) (state : TaskState) :
    (s.setState addr state).currentTask = s.currentTask := rfl

theorem setState_state (s : Scheduler) (addr other : Word) (state : TaskState) :
    ((s.setState addr state).tasks other).state =
      if other = addr then state else (s.tasks other).state := by
  rw [Scheduler.setState, store_tasks]
  by_cases here : other = addr
  · rw [here, Function.update_self, if_pos rfl]
  · rw [Function.update_of_ne here, if_neg here]

theorem TaskList.store {s : Scheduler} {list : List Word} {addr : Word} {task : Task}
    (links : TaskList s.tasks s.taskListHead list) (next : task.next = (s.tasks addr).next) :
    TaskList (s.store addr task).tasks (s.store addr task).taskListHead list :=
  links.congr fun other _ => store_field Task.next s addr other task next

theorem preempt_field {β : Type} (field : Task → β) (s : Scheduler) (addr : Word)
    (state : ∀ task state, field { task with state := state } = field task) :
    field ((preempt s).tasks addr) = field (s.tasks addr) := by
  unfold preempt
  split
  · exact store_field field s _ addr _ (state _ _)
  · rfl

theorem preempt_globals (s : Scheduler) :
    (preempt s).currentTask = s.currentTask ∧ (preempt s).taskListHead = s.taskListHead ∧
      (preempt s).idleTask = s.idleTask ∧ (preempt s).halted = s.halted := by
  unfold preempt
  split <;> exact ⟨rfl, rfl, rfl, rfl⟩

theorem preempt_state (s : Scheduler) (addr : Word) :
    ((preempt s).tasks addr).state =
      if addr = s.currentTask ∧ s.currentTask ≠ 0 ∧ (s.tasks addr).state = .running then .ready
      else (s.tasks addr).state := by
  unfold preempt
  by_cases running : s.currentTask ≠ 0 ∧ (s.tasks s.currentTask).state = .running
  · rw [if_pos running, setState_state]
    by_cases here : addr = s.currentTask
    · rw [if_pos here, here, if_pos ⟨rfl, running⟩]
    · rw [if_neg here, if_neg fun both => here both.1]
  · rw [if_neg running]
    by_cases here : addr = s.currentTask
    · rw [here, if_neg fun both => running both.2]
    · rw [if_neg fun both => here both.1]

section switchTo
variable (next : Word) (regs : Switched) (s : Scheduler)

/-- After the states are written nothing but contexts changes in the records. -/
theorem switchTo_preempt {β : Type} (field : Task → β) (addr : Word)
    (context : ∀ task context, field { task with context := context } = field task) :
    field ((switchTo next regs s).tasks addr) =
      field ((preempt (s.setState next .running)).tasks addr) := by
  unfold switchTo
  dsimp only
  split
  · exact store_field field _ _ addr _ (context _ _)
  · rfl

theorem switchTo_field {β : Type} (field : Task → β) (addr : Word)
    (state : ∀ task state, field { task with state := state } = field task)
    (context : ∀ task context, field { task with context := context } = field task) :
    field ((switchTo next regs s).tasks addr) = field (s.tasks addr) := by
  rw [switchTo_preempt next regs s field addr context, preempt_field field _ addr state]
  exact store_field field s next addr _ (state _ _)

@[simp] theorem switchTo_next (addr : Word) :
    ((switchTo next regs s).tasks addr).next = (s.tasks addr).next :=
  switchTo_field next regs s Task.next addr (fun _ _ => rfl) fun _ _ => rfl

@[simp] theorem switchTo_sleepTicks (addr : Word) :
    ((switchTo next regs s).tasks addr).sleepTicks = (s.tasks addr).sleepTicks :=
  switchTo_field next regs s Task.sleepTicks addr (fun _ _ => rfl) fun _ _ => rfl

theorem switchTo_globals :
    (switchTo next regs s).currentTask = next ∧
      (switchTo next regs s).taskListHead = s.taskListHead ∧
      (switchTo next regs s).idleTask = s.idleTask ∧
      (switchTo next regs s).halted = s.halted := by
  have kept := preempt_globals (s.setState next .running)
  unfold switchTo
  dsimp only
  split <;> exact ⟨rfl, kept.2⟩

/-- The chosen task runs, a current task that was running becomes ready, the rest stay. -/
theorem switchTo_state (different : next ≠ s.currentTask) (addr : Word) :
    ((switchTo next regs s).tasks addr).state =
      if addr = next then .running
      else if addr = s.currentTask ∧ s.currentTask ≠ 0 ∧ (s.tasks addr).state = .running then .ready
      else (s.tasks addr).state := by
  rw [switchTo_preempt next regs s Task.state addr fun _ _ => rfl, preempt_state]
  simp only [setState_currentTask, setState_state]
  by_cases chosen : addr = next
  · simp only [chosen, if_true, different, false_and, if_false]
  · simp only [chosen, if_false]

end switchTo

theorem countAll_mem {tasks : Word → Task} {list : List Word} {addr : Word}
    (member : addr ∈ list) : countAll tasks list addr = countDown (tasks addr) := if_pos member

theorem countAll_other {tasks : Word → Task} {list : List Word} {addr : Word}
    (member : addr ∉ list) : countAll tasks list addr = tasks addr := if_neg member

@[simp] theorem countAll_next (tasks : Word → Task) (list : List Word) (addr : Word) :
    (countAll tasks list addr).next = (tasks addr).next := by
  unfold countAll
  split
  · rw [countDown_next]
  · rfl

theorem countAll_nil (tasks : Word → Task) : countAll tasks [] = tasks := by
  funext addr
  exact countAll_other List.not_mem_nil

theorem countAll_cons (tasks : Word → Task) (first : Word) (rest : List Word)
    (fresh : first ∉ rest) :
    countAll (Function.update tasks first (countDown (tasks first))) rest =
      countAll tasks (first :: rest) := by
  funext addr
  unfold countAll
  by_cases here : addr = first
  · rw [here, if_neg fresh, if_pos List.mem_cons_self, Function.update_self]
  · simp only [Function.update_of_ne here, List.mem_cons, here, false_or]

theorem preferred_congr {tasks other : Word → Task} {next task : Word}
    (same : other task = tasks task) (priority : (other next).priority = (tasks next).priority) :
    preferred other next task ↔ preferred tasks next task := by
  rw [preferred, preferred, same, priority]

/-- The choice only reads the tasks it passes and the priority of the one it holds. -/
theorem choose_congr {tasks other : Word → Task} {list : List Word} {next : Word}
    (same : ∀ task ∈ list, other task = tasks task)
    (priority : (other next).priority = (tasks next).priority) :
    choose other list next = choose tasks list next := by
  induction list generalizing next with
  | nil => rfl
  | cons first rest ih =>
    have here := same first List.mem_cons_self
    have later : ∀ task ∈ rest, other task = tasks task :=
      fun task member => same task (List.mem_cons_of_mem first member)
    rw [choose, choose]
    by_cases taken : preferred tasks next first
    · rw [if_pos taken, if_pos ((preferred_congr here priority).mpr taken)]
      exact ih later (congrArg Task.priority here)
    · rw [if_neg taken, if_neg (taken ∘ (preferred_congr here priority).mp)]
      exact ih later priority

theorem choose_cases (tasks : Word → Task) (list : List Word) (next : Word) :
    choose tasks list next = next ∨
      choose tasks list next ∈ list ∧ runnable (tasks (choose tasks list next)) := by
  induction list generalizing next with
  | nil => exact Or.inl rfl
  | cons first rest ih =>
    rw [choose]
    by_cases taken : preferred tasks next first
    · rw [if_pos taken]
      rcases ih first with same | ⟨member, ready⟩
      · rw [same]
        exact Or.inr ⟨List.mem_cons_self, taken.1⟩
      · exact Or.inr ⟨List.mem_cons_of_mem first member, ready⟩
    · rw [if_neg taken]
      exact (ih next).imp_right fun found => ⟨List.mem_cons_of_mem first found.1, found.2⟩

/-- Counting the first task down leaves the rest of the list where it was. -/
theorem chained_countDown {tasks : Word → Task} {before first : Word} {rest : List Word}
    (chained : Segment (fun addr => (tasks addr).next) id (fun _ _ after => after) before
      (first :: rest) 0) (fresh : first ∉ rest) :
    Segment (fun addr => (Function.update tasks first (countDown (tasks first)) addr).next) id
        (fun _ _ after => after) first rest 0 ∧
      (Function.update tasks first (countDown (tasks first)) first).next = headKey id rest 0 := by
  constructor
  · refine chained.2.congr fun task member => ?_
    have other : task ≠ first := fun same => fresh (same ▸ member)
    change (Function.update tasks first (countDown (tasks first)) task).next = (tasks task).next
    rw [Function.update_of_ne other]
  · rw [Function.update_self, countDown_next]
    exact chained.1

/-- What the loop of task_schedule returns on a chained list, and when it returns. -/
theorem scheduleLoop_eq {tasks : Word → Task} {before : Word} {list : List Word}
    (chained : Segment (fun addr => (tasks addr).next) id (fun _ _ after => after) before list 0)
    (present : 0 ∉ list) (nodup : list.Nodup) (fuel : Nat) (next : Word) :
    scheduleLoop fuel tasks (headKey id list 0) next =
      if list.length < fuel then some (countAll tasks list, choose tasks list next) else none := by
  induction list generalizing tasks before fuel next with
  | nil =>
    cases fuel with
    | zero => rfl
    | succ fuel => simp [scheduleLoop, headKey, choose, countAll_nil]
  | cons first rest ih =>
    obtain ⟨fresh, distinct⟩ := List.nodup_cons.mp nodup
    obtain ⟨nonzero, later⟩ := not_or.mp (mt List.mem_cons.mpr present)
    cases fuel with
    | zero => rfl
    | succ fuel =>
      obtain ⟨tail, entry⟩ := chained_countDown chained fresh
      have unchanged : ∀ task ∈ rest,
          Function.update tasks first (countDown (tasks first)) task = tasks task := by
        intro task member
        have other : task ≠ first := fun same => fresh (same ▸ member)
        exact Function.update_of_ne other _ _
      have priority : ∀ addr, (Function.update tasks first (countDown (tasks first))
          addr).priority = (tasks addr).priority := by
        intro addr
        by_cases here : addr = first
        · rw [here, Function.update_self, countDown_priority]
        · rw [Function.update_of_ne here]
      rw [show headKey id (first :: rest) 0 = first from rfl, scheduleLoop, if_neg (Ne.symm nonzero)]
      simp only [entry, ih tail later distinct, countAll_cons tasks first rest fresh,
        choose_congr unchanged (priority _), choose, List.length_cons, Nat.add_lt_add_iff_right]

/-- The loop of timer_handler counts the same tasks down. -/
theorem timerLoop_eq {tasks : Word → Task} {before : Word} {list : List Word}
    (chained : Segment (fun addr => (tasks addr).next) id (fun _ _ after => after) before list 0)
    (present : 0 ∉ list) (nodup : list.Nodup) (fuel : Nat) :
    timerLoop fuel tasks (headKey id list 0) =
      if list.length < fuel then some (countAll tasks list) else none := by
  induction list generalizing tasks before fuel with
  | nil =>
    cases fuel with
    | zero => rfl
    | succ fuel => simp [timerLoop, headKey, countAll_nil]
  | cons first rest ih =>
    obtain ⟨fresh, distinct⟩ := List.nodup_cons.mp nodup
    obtain ⟨nonzero, later⟩ := not_or.mp (mt List.mem_cons.mpr present)
    cases fuel with
    | zero => rfl
    | succ fuel =>
      obtain ⟨tail, entry⟩ := chained_countDown chained fresh
      rw [show headKey id (first :: rest) 0 = first from rfl, timerLoop, if_neg (Ne.symm nonzero)]
      simp only [entry, ih tail later distinct, countAll_cons tasks first rest fresh,
        List.length_cons, Nat.add_lt_add_iff_right]

theorem TaskList.scheduleLoop {tasks : Word → Task} {head : Word} {list : List Word}
    (links : TaskList tasks head list) (fuel : Nat) (next : Word) :
    Tasks.scheduleLoop fuel tasks head next =
      if list.length < fuel then some (countAll tasks list, choose tasks list next) else none := by
  rw [← links.entry]
  exact scheduleLoop_eq links.chained links.present links.nodup fuel next

theorem TaskList.timerLoop {tasks : Word → Task} {head : Word} {list : List Word}
    (links : TaskList tasks head list) (fuel : Nat) :
    Tasks.timerLoop fuel tasks head =
      if list.length < fuel then some (countAll tasks list) else none := by
  rw [← links.entry]
  exact timerLoop_eq links.chained links.present links.nodup fuel

/-- The state after one pass over the list. -/
def passed (s : Scheduler) (list : List Word) : Scheduler :=
  { s with tasks := countAll s.tasks list }

/-- What task_schedule leaves when its pass has ended. -/
def outcome (regs : Switched) (s : Scheduler) (list : List Word) : Scheduler :=
  let found := choose s.tasks list 0
  let next := if found = 0 then s.idleTask else found
  if next = 0 then { passed s list with halted := true }
  else if next = s.currentTask then passed s list
  else switchTo next regs (passed s list)

theorem outcome_some {s : Scheduler} {list : List Word} (found : choose s.tasks list 0 ≠ 0)
    (regs : Switched) :
    outcome regs s list =
      if choose s.tasks list 0 = s.currentTask then passed s list
      else switchTo (choose s.tasks list 0) regs (passed s list) := by
  dsimp only [outcome]
  rw [if_neg found, if_neg found]

theorem outcome_none {s : Scheduler} {list : List Word} (none : choose s.tasks list 0 = 0)
    (regs : Switched) :
    outcome regs s list =
      if s.idleTask = 0 then { passed s list with halted := true }
      else if s.idleTask = s.currentTask then passed s list
      else switchTo s.idleTask regs (passed s list) := by
  dsimp only [outcome]
  rw [if_pos none]

theorem taskSchedule_eq {s : Scheduler} {list : List Word} {fuel : Nat}
    (links : TaskList s.tasks s.taskListHead list) (regs : Switched) :
    taskSchedule fuel regs s = if list.length < fuel then some (outcome regs s list) else none := by
  unfold taskSchedule
  rw [links.scheduleLoop]
  by_cases enough : list.length < fuel
  · rw [if_pos enough, if_pos enough]
    dsimp only [outcome, passed]
    split_ifs <;> rfl
  · rw [if_neg enough, if_neg enough]

theorem taskSchedule_outcome {s t : Scheduler} {list : List Word} {fuel : Nat} {regs : Switched}
    (links : TaskList s.tasks s.taskListHead list) (returned : taskSchedule fuel regs s = some t) :
    t = outcome regs s list := by
  rw [taskSchedule_eq links] at returned
  by_cases enough : list.length < fuel
  · rw [if_pos enough] at returned
    exact (Option.some.inj returned).symm
  · rw [if_neg enough] at returned
    exact absurd returned (by simp)

/-- What task_schedule can do: halt, keep the current task, or switch to another. -/
theorem taskSchedule_cases {s t : Scheduler} {list : List Word} {fuel : Nat} {regs : Switched}
    (links : TaskList s.tasks s.taskListHead list) (idle : s.idleTask = 0)
    (returned : taskSchedule fuel regs s = some t) :
    (choose s.tasks list 0 = 0 ∧
        t = { passed s list with halted := true }) ∨
      (choose s.tasks list 0 ≠ 0 ∧ choose s.tasks list 0 = s.currentTask ∧
        t = passed s list) ∨
      (choose s.tasks list 0 ≠ 0 ∧ choose s.tasks list 0 ≠ s.currentTask ∧
        t = switchTo (choose s.tasks list 0) regs (passed s list)) := by
  rw [taskSchedule_outcome links returned]
  by_cases none : choose s.tasks list 0 = 0
  · rw [outcome_none none, if_pos idle]
    exact Or.inl ⟨none, rfl⟩
  · rw [outcome_some none]
    by_cases same : choose s.tasks list 0 = s.currentTask
    · rw [if_pos same]
      exact Or.inr (Or.inl ⟨none, same, rfl⟩)
    · rw [if_neg same]
      exact Or.inr (Or.inr ⟨none, same, rfl⟩)

/-- The pass ends once the fuel covers the list. -/
theorem taskSchedule_returns {s : Scheduler} {list : List Word} {fuel : Nat}
    (links : TaskList s.tasks s.taskListHead list) (enough : list.length < fuel)
    (regs : Switched) : ∃ t, taskSchedule fuel regs s = some t :=
  ⟨_, (taskSchedule_eq links regs).trans (if_pos enough)⟩

end Vaelen.Kernel.SchedulerPasses
