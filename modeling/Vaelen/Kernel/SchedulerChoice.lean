import Vaelen.Base.Selection
import Vaelen.Kernel.SchedulerStates

/-!
Which task task_schedule picks: the first in list order among the runnable ones of the greatest
signed priority on entry. Sleepers that the same pass wakes are not seen, and a task that yields
to its equals is picked again whenever it stands before them.
-/

namespace Vaelen.Kernel.SchedulerChoice
open Vaelen.Base Platform Tasks SchedulerPasses SchedulerStates

def priorityOf (tasks : Word → Task) (task : Word) : Int := (tasks task).priority.toInt

/-- The first of the listed runnable tasks with the greatest priority. -/
def FirstBest (tasks : Word → Task) (list : List Word) (task : Word) : Prop :=
  FirstGreatest (fun task => runnable (tasks task)) (priorityOf tasks) list task

/-- What the loop knows of the tasks it has passed. -/
def Scanned (tasks : Word → Task) (done : List Word) (next : Word) : Prop :=
  (next = 0 ∧ ∀ task ∈ done, ¬runnable (tasks task)) ∨ (next ≠ 0 ∧ FirstBest tasks done next)

variable {tasks : Word → Task} {s t : Scheduler} {list : List Word} {fuel : Nat} {regs : Switched}

theorem Scanned.step {done : List Word} {next task : Word} (scanned : Scanned tasks done next)
    (present : task ≠ 0) :
    Scanned tasks (done ++ [task]) (if preferred tasks next task then task else next) := by
  by_cases taken : preferred tasks next task
  · rw [if_pos taken]
    refine Or.inr ⟨present, ?_⟩
    rcases scanned with ⟨_, none⟩ | ⟨some, first⟩
    · exact FirstGreatest.start none taken.1
    · exact first.replace taken.1 (taken.2.resolve_left some)
  · rw [if_neg taken]
    rcases scanned with ⟨zero, none⟩ | ⟨some, first⟩
    · refine Or.inl ⟨zero, fun other member ready => ?_⟩
      rcases List.mem_append.mp member with inside | last
      · exact none other inside ready
      · rw [List.mem_singleton.mp last] at ready
        exact taken ⟨ready, Or.inl zero⟩
    · exact Or.inr ⟨some, first.keep fun better => taken ⟨better.1, Or.inr better.2⟩⟩

theorem Scanned.run {done rest : List Word} {next : Word} (scanned : Scanned tasks done next)
    (present : 0 ∉ rest) : Scanned tasks (done ++ rest) (choose tasks rest next) := by
  induction rest generalizing done next with
  | nil =>
    rw [List.append_nil]
    exact scanned
  | cons task rest ih =>
    obtain ⟨nonzero, later⟩ := not_or.mp (mt List.mem_cons.mpr present)
    have passed := ih (scanned.step (Ne.symm nonzero)) later
    rwa [List.append_assoc] at passed

theorem scanned_choose (links : TaskList s.tasks s.taskListHead list) :
    Scanned s.tasks list (choose s.tasks list 0) :=
  Scanned.run (show Scanned s.tasks [] 0 from Or.inl ⟨rfl, fun _ member => absurd member List.not_mem_nil⟩)
    links.present

/-- With a runnable task the loop ends with the first best one. -/
theorem choose_firstBest (links : TaskList s.tasks s.taskListHead list)
    (some : ∃ task ∈ list, runnable (s.tasks task)) :
    choose s.tasks list 0 ≠ 0 ∧
      FirstBest s.tasks list (choose s.tasks list 0) := by
  obtain ⟨task, member, ready⟩ := some
  exact (scanned_choose links).resolve_left fun none => none.2 task member ready

theorem choose_eq_zero_iff (links : TaskList s.tasks s.taskListHead list) :
    choose s.tasks list 0 = 0 ↔ ∀ task ∈ list, ¬runnable (s.tasks task) := by
  constructor
  · intro zero
    rcases scanned_choose links with ⟨_, none⟩ | ⟨some, _⟩
    · exact none
    · exact absurd zero some
  · intro none
    by_contra some
    rcases scanned_choose links with ⟨zero, _⟩ | ⟨_, first⟩
    · exact some zero
    · exact none _ first.mem first.passes

/-! The records behind the call. -/

def Asleep (task : Task) : Prop := task.state = .sleeping ∧ 0 < task.sleepTicks

theorem countAll_unless {addr : Word} (awake : ¬(addr ∈ list ∧ Asleep (tasks addr))) :
    countAll tasks list addr = tasks addr := by
  by_cases member : addr ∈ list
  · rw [countAll_mem member]
    exact if_neg fun asleep => awake ⟨member, asleep⟩
  · exact countAll_other member

theorem countAll_priority (tasks : Word → Task) (list : List Word) (addr : Word) :
    (countAll tasks list addr).priority = (tasks addr).priority := by
  unfold countAll
  split
  · exact countDown_priority _
  · rfl

/-- A field that neither a change of state nor one of context touches is what the pass left. -/
theorem outcome_field {β : Type} (field : Task → β) (addr : Word)
    (found : choose s.tasks list 0 ≠ 0)
    (state : ∀ task state, field { task with state := state } = field task)
    (context : ∀ task context, field { task with context := context } = field task) :
    field ((outcome regs s list).tasks addr) = field (countAll s.tasks list addr) := by
  rw [outcome_some found]
  by_cases same : choose s.tasks list 0 = s.currentTask
  · rw [if_pos same]
    rfl
  · rw [if_neg same]
    exact switchTo_field _ regs (passed s list) field addr state context

theorem outcome_priority (found : choose s.tasks list 0 ≠ 0) (addr : Word) :
    ((outcome regs s list).tasks addr).priority = (s.tasks addr).priority := by
  calc
    _ = (countAll s.tasks list addr).priority :=
      outcome_field Task.priority addr found (fun _ _ => rfl) fun _ _ => rfl
    _ = _ := countAll_priority s.tasks list addr

theorem outcome_next (found : choose s.tasks list 0 ≠ 0) (addr : Word) :
    ((outcome regs s list).tasks addr).next = (s.tasks addr).next := by
  calc
    _ = (countAll s.tasks list addr).next :=
      outcome_field Task.next addr found (fun _ _ => rfl) fun _ _ => rfl
    _ = _ := countAll_next s.tasks list addr

theorem outcome_currentTask (found : choose s.tasks list 0 ≠ 0) :
    (outcome regs s list).currentTask = choose s.tasks list 0 := by
  rw [outcome_some found]
  by_cases same : choose s.tasks list 0 = s.currentTask
  · rw [if_pos same]
    exact same.symm
  · rw [if_neg same]
    exact (switchTo_globals _ _ _).1

theorem outcome_state (found : choose s.tasks list 0 ≠ 0) (addr : Word) :
    ((outcome regs s list).tasks addr).state =
      if choose s.tasks list 0 = s.currentTask then (countAll s.tasks list addr).state
      else if addr = choose s.tasks list 0 then .running
      else if addr = s.currentTask ∧ s.currentTask ≠ 0 ∧
          (countAll s.tasks list addr).state = .running then .ready
      else (countAll s.tasks list addr).state := by
  rw [outcome_some found]
  by_cases same : choose s.tasks list 0 = s.currentTask
  · rw [if_pos same, if_pos same]
    rfl
  · rw [if_neg same, if_neg same, switched_state same]

/-- The decision of one call, and what it does to the records of all tasks. -/
structure Decision (s : Scheduler) (list : List Word) (t : Scheduler) : Prop where
  chosen : FirstBest s.tasks list t.currentTask
  asleep : ∀ task ∈ list, Asleep (s.tasks task) →
    (t.tasks task).sleepTicks = (s.tasks task).sleepTicks - 1 ∧
      (t.tasks task).state = if (t.tasks task).sleepTicks = 0 then .ready else .sleeping
  runs : t.currentTask ≠ s.currentTask → (t.tasks t.currentTask).state = .running
  former : t.currentTask ≠ s.currentTask → s.currentTask ≠ 0 →
    (s.tasks s.currentTask).state = .running → (t.tasks s.currentTask).state = .ready
  ticks : ∀ task, ¬(task ∈ list ∧ Asleep (s.tasks task)) →
    (t.tasks task).sleepTicks = (s.tasks task).sleepTicks
  states : ∀ task, ¬(task ∈ list ∧ Asleep (s.tasks task)) →
    (t.currentTask ≠ s.currentTask → task ≠ t.currentTask ∧
      ¬(task = s.currentTask ∧ s.currentTask ≠ 0 ∧ (s.tasks task).state = .running)) →
    (t.tasks task).state = (s.tasks task).state
  priority : ∀ task, (t.tasks task).priority = (s.tasks task).priority

theorem not_asleep_of_runnable {task : Task} (ready : runnable task) : ¬Asleep task := by
  rintro ⟨asleep, _⟩
  rw [runnable, asleep] at ready
  exact absurd ready (by decide)

/-- A task that is neither chosen nor displaced keeps the state of the pass. -/
theorem outcome_state_kept {addr : Word} (found : choose s.tasks list 0 ≠ 0)
    (aside : choose s.tasks list 0 ≠ s.currentTask → addr ≠ choose s.tasks list 0 ∧
      ¬(addr = s.currentTask ∧ s.currentTask ≠ 0 ∧ (s.tasks addr).state = .running)) :
    ((outcome regs s list).tasks addr).state = (countAll s.tasks list addr).state := by
  rw [outcome_state found]
  by_cases same : choose s.tasks list 0 = s.currentTask
  · rw [if_pos same]
  · obtain ⟨other, resting⟩ := aside same
    rw [← countAll_running s.tasks list] at resting
    rw [if_neg same, if_neg other, if_neg resting]

theorem outcome_decision (links : TaskList s.tasks s.taskListHead list)
    (some : ∃ task ∈ list, runnable (s.tasks task)) : Decision s list (outcome regs s list) := by
  obtain ⟨found, best⟩ := choose_firstBest links some
  have current : (outcome regs s list).currentTask = choose s.tasks list 0 :=
    outcome_currentTask found
  have ticks : ∀ addr, ((outcome regs s list).tasks addr).sleepTicks =
      (countAll s.tasks list addr).sleepTicks := fun addr =>
    outcome_field Task.sleepTicks addr found (fun _ _ => rfl) fun _ _ => rfl
  constructor
  · rw [current]
    exact best
  · intro task member asleep
    obtain ⟨left, state⟩ := countDown_asleep _ asleep
    have aside : task ≠ choose s.tasks list 0 := by
      rintro rfl
      exact not_asleep_of_runnable best.passes asleep
    rw [ticks, outcome_state_kept found fun _ => ⟨aside, fun both => ?_⟩, countAll_mem member]
    · exact ⟨left, state⟩
    · exact absurd (asleep.1.symm.trans both.2.2) (by decide)
  · intro different
    rw [current] at different ⊢
    rw [outcome_state found, if_neg different, if_pos rfl]
  · intro different present running
    rw [current] at different
    have ran := (countAll_running s.tasks list s.currentTask).mpr running
    rw [outcome_state found, if_neg different, if_neg (Ne.symm different),
      if_pos ⟨rfl, present, ran⟩]
  · intro task awake
    rw [ticks, countAll_unless awake]
  · intro task awake aside
    rw [current] at aside
    rw [outcome_state_kept found aside, countAll_unless awake]
  · exact fun task => outcome_priority found task

/-- On any finite task list with a runnable task, task_schedule picks the first best one, counts
the sleepers down and changes nothing else. -/
theorem taskSchedule_decision (s : Scheduler) (list : List Word) (fuel : Nat) (regs : Switched)
    (links : TaskList s.tasks s.taskListHead list) (enough : list.length < fuel)
    (ready : ∃ task ∈ list, runnable (s.tasks task)) :
    ∃ t, taskSchedule fuel regs s = some t ∧ Decision s list t :=
  ⟨_, (taskSchedule_eq links regs).trans (if_pos enough), outcome_decision links ready⟩

theorem twoTasks_links {first second : Word} (present : first ≠ 0) (also : second ≠ 0)
    (distinct : second ≠ first) :
    TaskList (twoTasks first second).tasks (twoTasks first second).taskListHead [second, first] := by
  have empty := (start_scheduled (fun _ => Task.zero) 0 0).links
  have single : TaskList (taskCreate [] 0 5 ⟨first, 0, 0, 0⟩ (start (fun _ => Task.zero) 0 0)).tasks
      first [first] := empty.push present List.not_mem_nil rfl
  exact single.push also (fun member => distinct (List.mem_singleton.mp member)) rfl

/-- Two tasks of one priority: the one created last is the first of the list. -/
theorem taskSchedule_decision_two :
    ∃ t, taskSchedule 3 ⟨0, 0, 0, 0, 0, 0⟩ (twoTasks 0x1000 0x2000) = some t ∧
      Decision (twoTasks 0x1000 0x2000) [0x2000, 0x1000] t :=
  taskSchedule_decision (twoTasks 0x1000 0x2000) [0x2000, 0x1000] 3 ⟨0, 0, 0, 0, 0, 0⟩
    (twoTasks_links (by decide) (by decide) (by decide)) (by decide)
    ⟨0x2000, by decide, Or.inl (by decide)⟩

/-! Halting. -/

/-- A sleeper whose last tick the pass takes. -/
def Waking (task : Task) : Prop := task.state = .sleeping ∧ task.sleepTicks = 1

theorem countDown_runnable {task : Task} (dormant : ¬runnable task) :
    runnable (countDown task) ↔ Waking task := by
  by_cases asleep : Asleep task
  · obtain ⟨left, state⟩ := countDown_asleep _ asleep
    rw [runnable, state, left]
    by_cases last : task.sleepTicks = 1
    · rw [last, if_pos (by decide)]
      exact iff_of_true (Or.inl rfl) ⟨asleep.1, last⟩
    · rw [if_neg (by bv_omega)]
      exact iff_of_false (by decide) fun waking => last waking.2
  · have same : countDown task = task := if_neg asleep
    rw [same]
    refine iff_of_false dormant fun waking => asleep ⟨waking.1, ?_⟩
    rw [waking.2]
    decide

theorem outcome_halted (live : s.halted = false) :
    (outcome regs s list).halted = true ↔ choose s.tasks list 0 = 0 ∧ s.idleTask = 0 := by
  have running : (passed s list).halted ≠ true := Bool.eq_false_iff.mp live
  have switched : ∀ next, (switchTo next regs (passed s list)).halted ≠ true := fun next =>
    (switchTo_globals next regs (passed s list)).2.2.2 ▸ running
  by_cases none : choose s.tasks list 0 = 0
  · rw [outcome_none none]
    by_cases idle : s.idleTask = 0
    · rw [if_pos idle]
      exact iff_of_true rfl ⟨none, idle⟩
    · rw [if_neg idle, iff_false_right fun both => idle both.2]
      split
      · exact running
      · exact switched _
  · rw [outcome_some none, iff_false_right fun both => none both.1]
    split
    · exact running
    · exact switched _

/-- What the message before the halt loop says. -/
def HaltsIdle (s : Scheduler) (list : List Word) : Prop :=
  ∀ fuel regs t, taskSchedule fuel regs s = some t → t.halted = true →
    ∀ task ∈ list, ¬runnable (t.tasks task)

/-- Halting leaves what the pass left. -/
theorem halted_tasks (links : TaskList s.tasks s.taskListHead list) (live : s.halted = false)
    (returned : taskSchedule fuel regs s = some t) (halts : t.halted = true) :
    (∀ task ∈ list, ¬runnable (s.tasks task)) ∧ s.idleTask = 0 ∧
      ∀ task ∈ list, (runnable (t.tasks task) ↔ Waking (s.tasks task)) := by
  rw [taskSchedule_outcome links returned] at halts ⊢
  obtain ⟨none, idle⟩ := (outcome_halted live).mp halts
  have dormant := (choose_eq_zero_iff links).mp none
  refine ⟨dormant, idle, fun task member => ?_⟩
  rw [outcome_none none, if_pos idle]
  change runnable (countAll s.tasks list task) ↔ _
  rw [countAll_mem member]
  exact countDown_runnable (dormant task member)

/-- The scheduler halts with a runnable task exactly when nothing was runnable on entry and the
pass itself wakes a sleeper. -/
theorem taskSchedule_haltsIdle_iff (s : Scheduler) (list : List Word)
    (links : TaskList s.tasks s.taskListHead list) (live : s.halted = false) :
    HaltsIdle s list ↔
      s.idleTask ≠ 0 ∨ (∃ task ∈ list, runnable (s.tasks task)) ∨
        ∀ task ∈ list, ¬Waking (s.tasks task) := by
  constructor
  · intro halts
    by_contra neither
    obtain ⟨idle, rest⟩ := not_or.mp neither
    obtain ⟨dormant, waking⟩ := not_or.mp rest
    have none := (choose_eq_zero_iff links).mpr fun task member ready => dormant ⟨task, member, ready⟩
    obtain ⟨t, returned⟩ := taskSchedule_returns links (Nat.lt_succ_self _) ⟨0, 0, 0, 0, 0, 0⟩
    have halted : t.halted = true := by
      rw [taskSchedule_outcome links returned, outcome_halted live]
      exact ⟨none, not_not.mp idle⟩
    obtain ⟨_, _, woken⟩ := halted_tasks links live returned halted
    exact waking fun task member last =>
      halts _ _ t returned halted task member ((woken task member).mpr last)
  · intro some fuel regs t returned halted task member ready
    obtain ⟨dormant, idle, woken⟩ := halted_tasks links live returned halted
    rcases some with present | ⟨other, listed, runs⟩ | asleep
    · exact present idle
    · exact dormant other listed runs
    · exact asleep task member ((woken task member).mp ready)

/-- Two tasks that are ready. -/
theorem taskSchedule_haltsIdle_two : HaltsIdle (twoTasks 0x1000 0x2000) [0x2000, 0x1000] :=
  (taskSchedule_haltsIdle_iff (twoTasks 0x1000 0x2000) [0x2000, 0x1000]
    (twoTasks_links (by decide) (by decide) (by decide)) rfl).mpr
    (Or.inr (Or.inl ⟨0x2000, by decide, Or.inl (by decide)⟩))

/-- The only task calls task_sleep(1): the pass makes it ready and the kernel halts. -/
theorem taskSleep_halts :
    ∃ s list, Runs Step (start (fun _ => Task.zero) 0 0)
        [.taskCreate [] 0 5 ⟨0x1000, 0, 0, 0⟩, .taskYield ⟨0, 0, 0, 0, 0, 0⟩] s ∧
      TaskList (park s (.taskSleep 1 ⟨0, 0, 0, 0, 0, 0⟩)).tasks s.taskListHead list ∧
      ¬HaltsIdle (park s (.taskSleep 1 ⟨0, 0, 0, 0, 0, 0⟩)) list := by
  let created := taskCreate [] 0 5 ⟨0x1000, 0, 0, 0⟩ (start (fun _ => Task.zero) 0 0)
  have facts : ((call 2 created (.taskYield ⟨0, 0, 0, 0, 0, 0⟩)).bind fun s =>
      (taskSchedule 2 ⟨0, 0, 0, 0, 0, 0⟩ (park s (.taskSleep 1 ⟨0, 0, 0, 0, 0, 0⟩))).map fun t =>
        (s.halted, t.halted, s.taskListHead, (t.tasks 0x1000).state)) =
      some (false, true, 0x1000, .ready) := by decide
  obtain ⟨s, yielded, rest⟩ := Option.bind_eq_some_iff.mp facts
  obtain ⟨t, returned, same⟩ := Option.map_eq_some_iff.mp rest
  simp only [Prod.mk.injEq] at same
  obtain ⟨live, halted, head, ready⟩ := same
  have empty := (start_scheduled (fun _ => Task.zero) 0 0).links
  have first : Step (start (fun _ => Task.zero) 0 0) (.taskCreate [] 0 5 ⟨0x1000, 0, 0, 0⟩) created :=
    ⟨nofun, ⟨by decide, fun listed => List.not_mem_nil ((listed_iff empty _).mp listed)⟩, 0, rfl⟩
  have second : Step created (.taskYield ⟨0, 0, 0, 0, 0, 0⟩) s := step_of_call rfl trivial yielded
  have run := Runs.next first (Runs.next second (Runs.done s))
  obtain ⟨list, scheduled⟩ := run_scheduled (start_scheduled _ 0 0) run
  have links := (park_entering scheduled live (.taskSleep 1 ⟨0, 0, 0, 0, 0, 0⟩)).links
  have member : 0x1000 ∈ list := by
    cases list with
    | nil => exact absurd (scheduled.links.entry.trans head) (by decide)
    | cons task rest => exact (scheduled.links.entry.trans head) ▸ List.mem_cons_self
  exact ⟨s, list, run, links, fun halts => halts 2 _ t returned halted 0x1000 member (Or.inl ready)⟩

/-! Yielding. -/

/-- The current task runs with the greatest priority, and another ready task has that priority. -/
structure Tied (s : Scheduler) (list : List Word) : Prop where
  present : s.currentTask ≠ 0
  running : (s.tasks s.currentTask).state = .running
  greatest : ∀ task ∈ list, runnable (s.tasks task) →
    priorityOf s.tasks task ≤ priorityOf s.tasks s.currentTask
  equal : ∃ task ∈ list, task ≠ s.currentTask ∧ (s.tasks task).state = .ready ∧
    priorityOf s.tasks task = priorityOf s.tasks s.currentTask

/-- task_yield leaves another task of the same priority as the current one. -/
def GivesWay (s : Scheduler) (list : List Word) : Prop :=
  ∀ fuel regs t, taskYield fuel regs s = some t → t.currentTask ≠ s.currentTask ∧
    t.currentTask ∈ list ∧ priorityOf s.tasks t.currentTask = priorityOf s.tasks s.currentTask

/-- A ready task of the current task's priority stands before it in the list. -/
def StandsBehind (s : Scheduler) (list : List Word) : Prop :=
  ∃ before after, list = before ++ s.currentTask :: after ∧ ∃ task ∈ before,
    (s.tasks task).state = .ready ∧ priorityOf s.tasks task = priorityOf s.tasks s.currentTask

theorem givesWay_iff (scheduled : Scheduled s list) (tied : Tied s list) :
    GivesWay s list ↔ StandsBehind s list := by
  have ready : runnable (s.tasks s.currentTask) := Or.inr tied.running
  have member := scheduled.listed tied.present
  obtain ⟨found, best⟩ := choose_firstBest scheduled.links ⟨_, member, ready⟩
  have level : priorityOf s.tasks s.currentTask = priorityOf s.tasks (choose s.tasks list 0) :=
    le_antisymm (best.greatest member ready) (tied.greatest _ best.mem best.passes)
  obtain ⟨before, after, split⟩ := List.append_of_mem member
  have nodup := scheduled.links.nodup
  have first := best.ne_iff nodup split ready level
  have outside : s.currentTask ∉ before := by
    rw [split] at nodup
    exact fun inside => (List.nodup_append.mp nodup).2.2 _ inside _ List.mem_cons_self rfl
  constructor
  · intro gives
    obtain ⟨t, returned⟩ :=
      taskSchedule_returns scheduled.links (Nat.lt_succ_self _) ⟨0, 0, 0, 0, 0, 0⟩
    have other := (gives _ _ t returned).1
    rw [taskSchedule_outcome scheduled.links returned, outcome_currentTask found] at other
    obtain ⟨task, ahead, runs, same⟩ := first.mp other
    refine ⟨before, after, split, task, ahead, runs.resolve_right fun running => ?_, same⟩
    have listed : task ∈ list := by
      rw [split]
      exact List.mem_append_left _ ahead
    exact outside (scheduled.single task listed running ▸ ahead)
  · rintro ⟨front, back, cut, task, ahead, ready, same⟩ fuel regs t returned
    rw [split_unique nodup cut split] at ahead
    rw [taskSchedule_outcome scheduled.links returned, outcome_currentTask found]
    exact ⟨first.mpr ⟨task, ahead, Or.inl ready, same⟩, best.mem, level.symm⟩

/-! Runs of yields. -/

def YieldStep (s : Scheduler) (regs : Switched) (t : Scheduler) : Prop :=
  ∃ fuel, taskYield fuel regs s = some t

/-- `first` is runnable and stands before `task`, whose priority is no greater. -/
def Overtaken (first task : Word) (s : Scheduler) : Prop :=
  ∃ list before after, TaskList s.tasks s.taskListHead list ∧ list = before ++ first :: after ∧
    task ∈ after ∧ runnable (s.tasks first) ∧ priorityOf s.tasks task ≤ priorityOf s.tasks first

theorem outcome_taskListHead (found : choose s.tasks list 0 ≠ 0) :
    (outcome regs s list).taskListHead = s.taskListHead := by
  rw [outcome_some found]
  split
  · rfl
  · exact (switchTo_globals _ _ _).2.1

/-- A runnable task stays one over the pass and the switch. -/
theorem outcome_runnable {addr : Word} (found : choose s.tasks list 0 ≠ 0)
    (ready : runnable (s.tasks addr)) : runnable ((outcome regs s list).tasks addr) := by
  have kept : runnable (countAll s.tasks list addr) := by
    rw [countAll_unless fun both => not_asleep_of_runnable ready both.2]
    exact ready
  rw [runnable, outcome_state found]
  split_ifs
  · exact kept
  · exact Or.inr rfl
  · exact Or.inl rfl
  · exact kept

theorem step_overtaken {first task : Word} (overtaken : Overtaken first task s)
    (step : YieldStep s regs t) : Overtaken first task t ∧ t.currentTask ≠ task := by
  obtain ⟨list, before, after, links, split, behind, ready, level⟩ := overtaken
  obtain ⟨fuel, returned⟩ := step
  have member : first ∈ list := by
    rw [split]
    exact List.mem_append_right before List.mem_cons_self
  obtain ⟨found, best⟩ := choose_firstBest links ⟨first, member, ready⟩
  rw [taskSchedule_outcome links returned]
  have priority : ∀ addr, priorityOf (outcome regs s list).tasks addr = priorityOf s.tasks addr :=
    fun addr => congrArg BitVec.toInt (outcome_priority found addr)
  constructor
  · refine ⟨list, before, after, ?_, split, behind, outcome_runnable found ready, ?_⟩
    · rw [outcome_taskListHead found]
      exact links.congr fun addr _ => outcome_next found addr
    · rw [priority, priority]
      exact level
  · rw [outcome_currentTask found]
    rintro rfl
    exact best.not_overtaken links.nodup split ready level behind

/-- However often the tasks yield, an overtaken one is not scheduled. -/
theorem run_overtaken {first task : Word} {rest : List Switched} (overtaken : Overtaken first task s)
    (run : Runs YieldStep s (regs :: rest) t) : t.currentTask ≠ task := by
  cases run with
  | next here later =>
    have both := later.invariant (step_overtaken overtaken here) fun _ _ _ holds step =>
      step_overtaken holds.1 step
    exact both.2

/-- Of two runnable tasks of one priority the later one is overtaken. -/
theorem tied_overtaken (scheduled : Scheduled s list) (tied : Tied s list) :
    ∃ first, ∃ task ∈ list, runnable (s.tasks task) ∧
      priorityOf s.tasks task = priorityOf s.tasks s.currentTask ∧ Overtaken first task s := by
  obtain ⟨other, member, different, ready, same⟩ := tied.equal
  obtain ⟨before, after, split⟩ := List.append_of_mem (scheduled.listed tied.present)
  rw [split] at member
  rcases List.mem_append.mp member with ahead | inside
  · obtain ⟨front, middle, shape⟩ := List.append_of_mem ahead
    refine ⟨other, s.currentTask, scheduled.listed tied.present, Or.inr tied.running, rfl, list,
      front, middle ++ s.currentTask :: after, scheduled.links, by simp [split, shape], by simp,
      Or.inl ready, le_of_eq same.symm⟩
  · have behind := (List.mem_cons.mp inside).resolve_left different
    refine ⟨s.currentTask, other, ?_, Or.inl ready, same, list, before, after, scheduled.links, split,
      behind, Or.inr tied.running, le_of_eq same⟩
    rw [split]
    exact member

/-- After the yield, no ready task of the same priority is passed over by all the yields to come. -/
def NoneOvertaken (s : Scheduler) (list : List Word) : Prop :=
  ∀ fuel regs t, taskYield fuel regs s = some t → ∀ task ∈ list, (t.tasks task).state = .ready →
    priorityOf s.tasks task = priorityOf s.tasks s.currentTask →
      ∃ regs rest u, Runs YieldStep t (regs :: rest) u ∧ u.currentTask = task

/-- What task_yield does not schedule is ready behind it. -/
theorem yield_ready (scheduled : Scheduled s list) (tied : Tied s list)
    (returned : taskYield fuel regs s = some t) {task : Word} (member : task ∈ list)
    (before : runnable (s.tasks task)) (other : t.currentTask ≠ task) : (t.tasks task).state = .ready := by
  have decision : Decision s list (outcome regs s list) :=
    outcome_decision scheduled.links ⟨task, member, before⟩
  rw [← taskSchedule_outcome scheduled.links returned] at decision
  by_cases current : task = s.currentTask
  · rw [current] at other ⊢
    exact decision.former other tied.present tied.running
  · have resting : (s.tasks task).state ≠ .running := fun running =>
      current (scheduled.single task member running)
    rw [decision.states task (fun both => not_asleep_of_runnable before both.2)
      fun _ => ⟨Ne.symm other, fun both => current both.1⟩]
    exact before.resolve_right resting

theorem not_noneOvertaken (scheduled : Scheduled s list) (tied : Tied s list) : ¬NoneOvertaken s list := by
  intro fair
  obtain ⟨first, task, member, ready, level, overtaken⟩ := tied_overtaken scheduled tied
  obtain ⟨t, returned⟩ :=
    taskSchedule_returns scheduled.links (Nat.lt_succ_self _) ⟨0, 0, 0, 0, 0, 0⟩
  obtain ⟨behind, other⟩ := step_overtaken overtaken ⟨_, returned⟩
  obtain ⟨_, _, u, yields, scheduledThen⟩ :=
    fair _ _ t returned task member (yield_ready scheduled tied returned member ready other) level
  exact run_overtaken behind yields scheduledThen

/-- In every reachable state with a tie task_yield gives way exactly when an equal stands before the
current task in the list, and in none of them it also leaves every task of that priority its turn. -/
theorem run_yield_unfair (tasks : Word → Task) (timerTicks currentDirectory : Word) (ops : List Call)
    (s : Scheduler) (run : Runs Step (start tasks timerTicks currentDirectory) ops s)
    (list : List Word) (links : TaskList s.tasks s.taskListHead list) (tied : Tied s list) :
    ¬(GivesWay s list ∧ NoneOvertaken s list) ∧ (GivesWay s list ↔ StandsBehind s list) := by
  obtain ⟨same, scheduled⟩ :=
    run_scheduled (start_scheduled tasks timerTicks currentDirectory) run
  rw [← links.unique scheduled.links] at scheduled
  exact ⟨fun both => not_noneOvertaken scheduled tied both.2, givesWay_iff scheduled tied⟩

/-- Two tasks of one priority after a yield, and after the first of the list has yielded again. -/
theorem tied_two :
    ∃ s t, Runs Step (start (fun _ => Task.zero) 0 0)
        [.taskCreate [] 0 5 ⟨0x1000, 0, 0, 0⟩, .taskCreate [] 0 5 ⟨0x2000, 0, 0, 0⟩,
          .taskYield ⟨0, 0, 0, 0, 0, 0⟩] s ∧
      TaskList s.tasks s.taskListHead [0x2000, 0x1000] ∧ Tied s [0x2000, 0x1000] ∧
      taskYield 3 ⟨0, 0, 0, 0, 0, 0⟩ s = some t ∧ t.currentTask = s.currentTask := by
  have facts : ((call 3 (twoTasks 0x1000 0x2000) (.taskYield ⟨0, 0, 0, 0, 0, 0⟩)).bind fun s =>
      (taskYield 3 ⟨0, 0, 0, 0, 0, 0⟩ s).map fun t => decide
        (s.currentTask = 0x2000 ∧ t.currentTask = 0x2000 ∧ s.taskListHead = 0x2000 ∧
          (s.tasks 0x2000).next = 0x1000 ∧ (s.tasks 0x1000).next = 0 ∧
          (s.tasks 0x2000).state = .running ∧ (s.tasks 0x1000).state = .ready ∧
          priorityOf s.tasks 0x2000 = 5 ∧ priorityOf s.tasks 0x1000 = 5)) = some true := by decide
  obtain ⟨s, yielded, rest⟩ := Option.bind_eq_some_iff.mp facts
  obtain ⟨t, again, same⟩ := Option.map_eq_some_iff.mp rest
  obtain ⟨current, stays, head, second, first, running, ready, here, there⟩ := of_decide_eq_true same
  have created : Runs Step (start (fun _ => Task.zero) 0 0) _ (twoTasks 0x1000 0x2000) :=
    run_twoTasks (by decide) (by decide) (by decide)
  have switched : Step (twoTasks 0x1000 0x2000) (.taskYield ⟨0, 0, 0, 0, 0, 0⟩) s :=
    step_of_call rfl trivial yielded
  refine ⟨s, t, created.snoc switched,
    ⟨head.symm, ⟨second, first, trivial⟩, by decide, by decide⟩, ?_, again, stays.trans current.symm⟩
  constructor
  · rw [current]
    decide
  · rw [current]
    exact running
  · intro task member _
    rw [current, here]
    rcases List.mem_cons.mp member with rfl | last
    · exact le_of_eq here
    · rw [List.mem_singleton.mp last]
      exact le_of_eq there
  · rw [current]
    exact ⟨0x1000, by decide, by decide, ready, there.trans here.symm⟩

theorem run_yield_two :
    ∃ s, Runs Step (start (fun _ => Task.zero) 0 0)
        [.taskCreate [] 0 5 ⟨0x1000, 0, 0, 0⟩, .taskCreate [] 0 5 ⟨0x2000, 0, 0, 0⟩,
          .taskYield ⟨0, 0, 0, 0, 0, 0⟩] s ∧
      ¬(GivesWay s [0x2000, 0x1000] ∧ NoneOvertaken s [0x2000, 0x1000]) := by
  obtain ⟨s, _, run, links, tied, _⟩ := tied_two
  exact ⟨s, run, (run_yield_unfair (fun _ => Task.zero) 0 0 _ s run _ links tied).1⟩

/-- The first of the two in the list yields to itself. -/
theorem run_yield_stays :
    ¬∀ (tasks : Word → Task) (timerTicks currentDirectory : Word) (ops : List Call) (s : Scheduler)
      (list : List Word), Runs Step (start tasks timerTicks currentDirectory) ops s →
      TaskList s.tasks s.taskListHead list → Tied s list → GivesWay s list ∧ NoneOvertaken s list := by
  intro claim
  obtain ⟨s, t, run, links, tied, again, same⟩ := tied_two
  obtain ⟨gives, _⟩ := claim _ 0 0 _ s _ run links tied
  exact (gives 3 _ t again).1 same

end Vaelen.Kernel.SchedulerChoice
