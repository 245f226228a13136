import Vaelen.Kernel.SchedulerStates

/-!
The kernel stacks of the listed tasks. task_create puts the saved stack pointer on the new
stack; task_fork copies the parent's, which still points into the parent's stack.
-/

namespace Vaelen.Kernel.TaskStacks
open Vaelen.Base Platform Tasks SchedulerPasses SchedulerStates

/-- The bytes from kernel_stack up to kernel_stack_top. -/
def OnStack (task : Task) (addr : Nat) : Prop :=
  task.kernelStack.toNat ≤ addr ∧ addr < task.kernelStackTop.toNat

/-- A block of kmalloc for a stack meets no stack of a listed task. -/
def Fresh (s : Scheduler) (kernelStack : Word) : Prop :=
  kernelStack.toNat + 8192 < 2 ^ 32 ∧
    ∀ task, Listed s task → ∀ addr, OnStack (s.tasks task) addr →
      ¬(kernelStack.toNat ≤ addr ∧ addr < kernelStack.toNat + 8192)

def Allocates (s : Scheduler) : Call → Prop
  | .taskCreate _ _ _ allocated => Fresh s allocated.kernelStack
  | .taskFork allocated => Fresh s allocated.kernelStack
  | _ => True

def Step (s : Scheduler) (op : Call) (t : Scheduler) : Prop :=
  SchedulerStates.Step s op t ∧ Allocates s op

structure Private (s : Scheduler) : Prop where
  within : ∀ task, Listed s task →
    (s.tasks task).kernelStack.toNat ≤ (s.tasks task).context.esp.toNat ∧
      (s.tasks task).context.esp.toNat ≤ (s.tasks task).kernelStackTop.toNat
  apart : ∀ task other, Listed s task → Listed s other → task ≠ other →
    ∀ addr, OnStack (s.tasks task) addr → ¬OnStack (s.tasks other) addr

variable {s t : Scheduler} {list : List Word} {fuel : Nat} {regs : Switched} {op : Call}

/-! What the calls that make no task leave alone. -/

/-- The fields of the scheduler that only task_create and task_fork write. -/
structure SameList (s t : Scheduler) : Prop where
  head : t.taskListHead = s.taskListHead
  idle : t.idleTask = s.idleTask
  nextPid : t.nextPid = s.nextPid
  count : t.taskCount = s.taskCount

theorem SameList.refl (s : Scheduler) : SameList s s := ⟨rfl, rfl, rfl, rfl⟩

theorem preempt_sameList (s : Scheduler) : SameList s (preempt s) := by
  unfold preempt
  split <;> exact ⟨rfl, rfl, rfl, rfl⟩

theorem switchTo_sameList (next : Word) (regs : Switched) (s : Scheduler) :
    SameList s (switchTo next regs s) := by
  have kept := preempt_sameList (s.setState next .running)
  unfold switchTo
  dsimp only
  split <;> exact ⟨kept.head, kept.idle, kept.nextPid, kept.count⟩

/-- A field that neither the countdown, a change of state nor a context switch writes. -/
structure Untouched {β : Type} (field : Task → β) : Prop where
  state : ∀ task state, field { task with state := state } = field task
  sleepTicks : ∀ task ticks, field { task with sleepTicks := ticks } = field task
  exitCode : ∀ task code, field { task with exitCode := code } = field task
  switched : ∀ (task : Task) (regs : Switched), field { task with
      context := { task.context with
        eax := regs.eax
        ebx := regs.ebx
        ecx := regs.ecx
        edx := regs.edx
        esi := regs.esi
        edi := regs.edi } } = field task

section untouched
variable {β : Type} {field : Task → β} (untouched : Untouched field)
include untouched

theorem countDown_field (task : Task) : field (countDown task) = field task := by
  unfold countDown
  split
  · dsimp only
    split
    · exact (untouched.state { task with sleepTicks := task.sleepTicks - 1 } .ready).trans
        (untouched.sleepTicks task _)
    · exact untouched.sleepTicks _ _
  · rfl

theorem countAll_field (tasks : Word → Task) (list : List Word) (addr : Word) :
    field (countAll tasks list addr) = field (tasks addr) := by
  unfold countAll
  split
  · exact countDown_field untouched _
  · rfl

theorem switchTo_untouched (next : Word) (regs : Switched) (s : Scheduler) (addr : Word) :
    field ((switchTo next regs s).tasks addr) = field (s.tasks addr) := by
  have written : field ((preempt (s.setState next .running)).tasks addr) = field (s.tasks addr) := by
    rw [preempt_field field _ addr untouched.state]
    exact store_field field s next addr _ (untouched.state _ _)
  unfold switchTo
  dsimp only
  split
  · exact (store_field field _ _ addr _ (untouched.switched _ regs)).trans written
  · exact written

theorem taskSchedule_kept (links : TaskList s.tasks s.taskListHead list) (idle : s.idleTask = 0)
    (returned : taskSchedule fuel regs s = some t) :
    SameList s t ∧ ∀ addr, field (t.tasks addr) = field (s.tasks addr) := by
  have counted := countAll_field untouched s.tasks list
  rcases taskSchedule_cases links idle returned with ⟨_, rfl⟩ | ⟨_, _, rfl⟩ | ⟨_, _, rfl⟩
  · exact ⟨⟨rfl, rfl, rfl, rfl⟩, counted⟩
  · exact ⟨⟨rfl, rfl, rfl, rfl⟩, counted⟩
  · have kept := switchTo_sameList (choose s.tasks list 0) regs (passed s list)
    exact ⟨⟨kept.head, kept.idle, kept.nextPid, kept.count⟩,
      fun addr => (switchTo_untouched untouched _ regs _ addr).trans (counted addr)⟩

/-- A call that writes the current task before it schedules. -/
theorem store_taskSchedule_kept {addr : Word} {task : Task}
    (links : TaskList s.tasks s.taskListHead list) (idle : s.idleTask = 0)
    (next : task.next = (s.tasks addr).next) (same : field task = field (s.tasks addr))
    (returned : taskSchedule fuel regs (s.store addr task) = some t) :
    SameList s t ∧ ∀ other, field (t.tasks other) = field (s.tasks other) := by
  obtain ⟨kept, fields⟩ := taskSchedule_kept untouched (links.store next) idle returned
  exact ⟨⟨kept.head, kept.idle, kept.nextPid, kept.count⟩,
    fun other => (fields other).trans (store_field field s addr other task same)⟩

end untouched

/-- task_create and task_fork make a task, the other calls do not. -/
def makes : Call → Bool
  | .taskCreate _ _ _ _ => true
  | .taskFork _ => true
  | _ => false

theorem call_kept {β : Type} {field : Task → β} (untouched : Untouched field)
    (links : TaskList s.tasks s.taskListHead list) (idle : s.idleTask = 0)
    (rests : makes op = false) (returned : call fuel s op = some t) :
    SameList s t ∧ ∀ addr, field (t.tasks addr) = field (s.tasks addr) := by
  cases op with
  | taskCreate name entry priority allocated => exact Bool.noConfusion rests
  | taskFork allocated => exact Bool.noConfusion rests
  | taskExit code regs =>
    simp only [call, taskExit] at returned
    by_cases none : s.currentTask = 0
    · rw [if_pos none] at returned
      cases returned
      exact ⟨SameList.refl s, fun _ => rfl⟩
    · rw [if_neg none] at returned
      have same := (untouched.exitCode { s.tasks s.currentTask with state := .zombie } code).trans
        (untouched.state _ .zombie)
      apply store_taskSchedule_kept untouched links idle ?_ same returned
      rfl
  | taskYield regs => exact taskSchedule_kept untouched links idle returned
  | taskSleep ticks regs =>
    simp only [call, taskSleep] at returned
    by_cases none : s.currentTask = 0
    · rw [if_pos none] at returned
      cases returned
      exact ⟨SameList.refl s, fun _ => rfl⟩
    · rw [if_neg none] at returned
      have same := (untouched.sleepTicks { s.tasks s.currentTask with state := .sleeping }
        ticks).trans (untouched.state _ .sleeping)
      apply store_taskSchedule_kept untouched links idle ?_ same returned
      rfl
  | taskWake task =>
    simp only [call, taskWake] at returned
    by_cases asleep : (s.tasks task).state = .sleeping
    · rw [if_pos asleep] at returned
      cases returned
      have same := (untouched.sleepTicks { s.tasks task with state := .ready } 0).trans
        (untouched.state _ .ready)
      exact ⟨⟨rfl, rfl, rfl, rfl⟩, fun addr => store_field field s task addr _ same⟩
    · rw [if_neg asleep] at returned
      cases returned
      exact ⟨SameList.refl s, fun _ => rfl⟩
  | timerHandler =>
    simp only [call, timerHandler, links.timerLoop] at returned
    by_cases enough : list.length < fuel
    · rw [if_pos enough] at returned
      cases returned
      exact ⟨⟨rfl, rfl, rfl, rfl⟩, countAll_field untouched s.tasks list⟩
    · rw [if_neg enough] at returned
      exact absurd returned (by simp)

/-! The layout of the stacks. -/

/-- The saved stack pointer is where task_create puts it. -/
def Layout (task : Task) : Prop :=
  task.kernelStackTop.toNat = task.kernelStack.toNat + 8192 ∧
    task.context.esp.toNat + 68 = task.kernelStackTop.toNat

structure Laid (s : Scheduler) (list : List Word) : Prop where
  scheduled : Scheduled s list
  layout : ∀ task ∈ list, Layout (s.tasks task)
  apart : ∀ task ∈ list, ∀ other ∈ list, task ≠ other →
    ∀ addr, OnStack (s.tasks task) addr → ¬OnStack (s.tasks other) addr

theorem Laid.isPrivate (laid : Laid s list) : Private s where
  within := by
    intro task listed
    obtain ⟨top, saved⟩ := laid.layout task ((listed_iff laid.scheduled.links task).mp listed)
    omega
  apart := by
    intro task other listed also
    rw [listed_iff laid.scheduled.links] at listed also
    exact laid.apart task listed other also

/-- What the stack of a task depends on. -/
def stackOf (task : Task) : Word × Word × Word :=
  (task.kernelStack, task.kernelStackTop, task.context.esp)

theorem stackOf_untouched : Untouched stackOf :=
  ⟨fun _ _ => rfl, fun _ _ => rfl, fun _ _ => rfl, fun _ _ => rfl⟩

theorem next_untouched : Untouched Task.next :=
  ⟨fun _ _ => rfl, fun _ _ => rfl, fun _ _ => rfl, fun _ _ => rfl⟩

/-- A call that makes no task keeps the list. -/
theorem call_links (links : TaskList s.tasks s.taskListHead list) (idle : s.idleTask = 0)
    (rests : makes op = false) (returned : call fuel s op = some t) :
    TaskList t.tasks t.taskListHead list := by
  obtain ⟨same, kept⟩ := call_kept next_untouched links idle rests returned
  rw [same.head]
  exact links.congr fun addr _ => kept addr

theorem layout_congr {task other : Task} (same : stackOf task = stackOf other) :
    Layout task ↔ Layout other := by
  simp only [stackOf, Prod.mk.injEq] at same
  rw [Layout, Layout, same.1, same.2.1, same.2.2]

theorem onStack_congr {task other : Task} (same : stackOf task = stackOf other) (addr : Nat) :
    OnStack task addr ↔ OnStack other addr := by
  simp only [stackOf, Prod.mk.injEq] at same
  rw [OnStack, OnStack, same.1, same.2.1]

/-- A call that makes no task. -/
theorem step_rests (laid : Laid s list) (step : Step s op t) (rests : makes op = false) :
    Laid t list := by
  obtain ⟨⟨only, admissible, fuel, returned⟩, _⟩ := step
  obtain ⟨after, scheduled, _⟩ := step_scheduled laid.scheduled ⟨only, admissible, fuel, returned⟩
  obtain ⟨_, kept⟩ :=
    call_kept stackOf_untouched laid.scheduled.links laid.scheduled.idle rests returned
  have links := call_links laid.scheduled.links laid.scheduled.idle rests returned
  rw [scheduled.links.unique links] at scheduled
  refine ⟨scheduled, fun task member => ?_, fun task member other also different addr on => ?_⟩
  · exact (layout_congr (kept task)).mpr (laid.layout task member)
  · rw [onStack_congr (kept task)] at on
    rw [onStack_congr (kept other)]
    exact laid.apart task member other also different addr on

/-- A new task in front of the list, on a fresh stack. -/
theorem step_makes {addr : Word} {task : Task} (laid : Laid s list) (step : Step s op t)
    (present : addr ≠ 0) (unlisted : ¬Listed s addr) (next : task.next = s.taskListHead)
    (tasks : t.tasks = Function.update s.tasks addr task) (head : t.taskListHead = addr) :
    Scheduled t (addr :: list) ∧ t.tasks addr = task ∧
      ∀ other ∈ list, t.tasks other = s.tasks other := by
  have fresh : addr ∉ list := mt (listed_iff laid.scheduled.links addr).mpr unlisted
  obtain ⟨after, scheduled, _⟩ := step_scheduled laid.scheduled step.1
  have links : TaskList t.tasks t.taskListHead (addr :: list) := by
    rw [tasks, head]
    exact laid.scheduled.links.push present fresh next
  rw [scheduled.links.unique links] at scheduled
  refine ⟨scheduled, ?_, fun other member => ?_⟩
  · rw [tasks, Function.update_self]
  · have different : other ≠ addr := fun same => fresh (same ▸ member)
    rw [tasks, Function.update_of_ne different]

theorem step_create {name : List Byte} {entry priority : Word} {allocated : Allocated}
    (laid : Laid s list) (step : Step s (.taskCreate name entry priority allocated) t) :
    Laid t (allocated.task :: list) := by
  have whole := step
  obtain ⟨⟨_, ⟨present, unlisted⟩, _, returned⟩, room, clear⟩ := step
  have made := (Option.some.inj returned).symm
  obtain ⟨scheduled, here, elsewhere⟩ := step_makes laid whole present unlisted rfl
    (congrArg Scheduler.tasks made) (congrArg Scheduler.taskListHead made)
  have top : (allocated.kernelStack + TASK_STACK_SIZE).toNat =
      allocated.kernelStack.toNat + 8192 := by
    change (allocated.kernelStack + 8192).toNat = _
    bv_omega
  have saved : (allocated.kernelStack + TASK_STACK_SIZE - sizeofTaskContext).toNat + 68 =
      allocated.kernelStack.toNat + 8192 := by
    change (allocated.kernelStack + 8192 - 68).toNat + 68 = _
    bv_omega
  have new : ∀ addr, OnStack (t.tasks allocated.task) addr →
      allocated.kernelStack.toNat ≤ addr ∧ addr < allocated.kernelStack.toNat + 8192 := by
    intro addr on
    rw [here] at on
    exact ⟨on.1, on.2.trans_eq top⟩
  have old : ∀ task ∈ list, ∀ addr, OnStack (t.tasks task) addr →
      ¬OnStack (t.tasks allocated.task) addr := by
    intro task member addr on also
    rw [elsewhere task member] at on
    exact clear task ((listed_iff laid.scheduled.links task).mpr member) addr on (new addr also)
  refine ⟨scheduled, fun task member => ?_, fun task member other also different addr on => ?_⟩
  · rcases List.mem_cons.mp member with rfl | member
    · rw [here]
      exact ⟨top, saved.trans top.symm⟩
    · rw [elsewhere task member]
      exact laid.layout task member
  · rcases List.mem_cons.mp member with rfl | member
    · rcases List.mem_cons.mp also with rfl | also
      · exact absurd rfl different
      · exact fun stack => old other also addr stack on
    · rcases List.mem_cons.mp also with rfl | also
      · exact old task member addr on
      · rw [elsewhere task member] at on
        rw [elsewhere other also]
        exact laid.apart task member other also different addr on

/-- The child of task_fork keeps the parent's stack pointer. -/
theorem step_fork {allocated : Allocated} (laid : Laid s list) (some : s.currentTask ≠ 0)
    (step : Step s (.taskFork allocated) t) : ¬Private t := by
  have whole := step
  obtain ⟨⟨_, ⟨present, unlisted⟩, _, returned⟩, room, clear⟩ := step
  simp only [call, taskFork, if_neg some, Option.some.injEq] at returned
  subst returned
  obtain ⟨scheduled, here, _⟩ := step_makes laid whole present unlisted rfl rfl rfl
  have parent := laid.scheduled.listed some
  obtain ⟨top, saved⟩ := laid.layout s.currentTask parent
  intro separate
  have inside := separate.within allocated.task
    ((listed_iff scheduled.links _).mpr List.mem_cons_self)
  rw [here] at inside
  have limit : (allocated.kernelStack + TASK_STACK_SIZE).toNat =
      allocated.kernelStack.toNat + 8192 := by
    change (allocated.kernelStack + 8192).toNat = _
    bv_omega
  -- The byte below the saved stack pointer lies in the parent's stack.
  have below : OnStack (s.tasks s.currentTask) ((s.tasks s.currentTask).context.esp.toNat - 1) := by
    constructor <;> omega
  have outside := clear s.currentTask ((listed_iff laid.scheduled.links _).mpr parent) _ below
  have also : OnStack (s.tasks s.currentTask) (s.tasks s.currentTask).context.esp.toNat := by
    constructor <;> omega
  have apart := clear s.currentTask ((listed_iff laid.scheduled.links _).mpr parent) _ also
  dsimp only at inside
  omega

theorem start_laid (tasks : Word → Task) (timerTicks currentDirectory : Word) :
    Laid (start tasks timerTicks currentDirectory) [] where
  scheduled := start_scheduled tasks timerTicks currentDirectory
  layout _ member := absurd member List.not_mem_nil
  apart _ member := absurd member List.not_mem_nil

theorem step_laid (laid : Laid s list) (step : Step s op t)
    (unforked : ∀ allocated, op = .taskFork allocated → s.currentTask = 0) :
    ∃ after, Laid t after := by
  cases op with
  | taskCreate name entry priority allocated => exact ⟨_, step_create laid step⟩
  | taskFork allocated =>
    obtain ⟨⟨_, _, _, returned⟩, _⟩ := step
    simp only [call, taskFork, if_pos (unforked allocated rfl), Option.some.injEq] at returned
    exact ⟨list, returned ▸ laid⟩
  | _ => exact ⟨list, step_rests laid step rfl⟩

/-- Up to the first fork made by a task every stack is laid out by task_create. -/
theorem run_laid {tasks : Word → Task} {timerTicks currentDirectory : Word} {ops : List Call}
    (unforked : ∀ before allocated after t u list, ops = before ++ .taskFork allocated :: after →
      Laid t list → Runs Step (start tasks timerTicks currentDirectory) before t →
      Step t (.taskFork allocated) u → t.currentTask = 0)
    (before after : List Call) (t : Scheduler) (split : ops = before ++ after)
    (run : Runs Step (start tasks timerTicks currentDirectory) before t) :
    ∃ list, Laid t list := by
  refine Runs.along ⟨[], start_laid tasks timerTicks currentDirectory⟩ ?_ before after t split run
  rintro before op after middle next whole first step ⟨list, laid⟩
  refine step_laid laid step fun allocated same => ?_
  subst same
  exact unforked before allocated after middle next list whole laid first step

/-- Every state of a run keeps the stacks private exactly when no task_fork of the run is made
by a task. -/
theorem run_private_iff (tasks : Word → Task) (timerTicks currentDirectory : Word)
    (ops : List Call) :
    (∀ before after t, ops = before ++ after →
        Runs Step (start tasks timerTicks currentDirectory) before t → Private t) ↔
      ∀ before allocated after t u, ops = before ++ .taskFork allocated :: after →
        Runs Step (start tasks timerTicks currentDirectory) before t →
        Step t (.taskFork allocated) u → t.currentTask = 0 := by
  constructor
  · intro separate
    have unforked : ∀ before allocated after t u list,
        ops = before ++ .taskFork allocated :: after → Laid t list →
        Runs Step (start tasks timerTicks currentDirectory) before t →
        Step t (.taskFork allocated) u → t.currentTask = 0 := by
      intro before allocated after t u list split laid here step
      by_contra some
      apply step_fork laid some step
      exact separate (before ++ [.taskFork allocated]) after u (by simp [split]) (here.snoc step)
    intro before allocated after t u split here step
    obtain ⟨list, laid⟩ := run_laid unforked before _ t split here
    exact unforked before allocated after t u list split laid here step
  · intro unforked before after t split here
    have laid : ∃ list, Laid t list := by
      apply run_laid ?_ before after t split here
      intro before allocated after t u list split _
      exact unforked before allocated after t u split
    obtain ⟨list, laid⟩ := laid
    exact laid.isPrivate

/-- A task is created, scheduled and forks. -/
theorem run_shared :
    ¬∀ (tasks : Word → Task) (timerTicks currentDirectory : Word) (ops : List Call)
      (s : Scheduler), Runs Step (start tasks timerTicks currentDirectory) ops s → Private s := by
  intro claim
  have initial := start_laid (fun _ => Task.zero) 0 0
  let created := taskCreate [] 0 5 ⟨0x1000, 0x10000, 0, 0⟩ (start (fun _ => Task.zero) 0 0)
  have unlisted : ∀ task, ¬Listed (start (fun _ => Task.zero) 0 0) task := by
    intro task listed
    exact List.not_mem_nil ((listed_iff initial.scheduled.links task).mp listed)
  have first : Step (start (fun _ => Task.zero) 0 0)
      (.taskCreate [] 0 5 ⟨0x1000, 0x10000, 0, 0⟩) created := by
    refine ⟨⟨?_, ⟨by decide, unlisted _⟩, 0, rfl⟩, by decide, ?_⟩
    · exact fun halted => Bool.noConfusion halted
    · exact fun task listed => absurd listed (unlisted task)
  have facts : (call 2 created (.taskYield ⟨0, 0, 0, 0, 0, 0⟩)).map
      (fun s => (s.halted, s.currentTask)) = some (false, 0x1000) := by decide
  obtain ⟨current, returned, same⟩ := Option.map_eq_some_iff.mp facts
  obtain ⟨live, scheduled⟩ := Prod.mk.inj same
  have one := step_create initial first
  have second : Step created (.taskYield ⟨0, 0, 0, 0, 0, 0⟩) current :=
    ⟨step_of_call rfl trivial returned, trivial⟩
  have laid := step_rests one second rfl
  have kept :=
    (call_kept stackOf_untouched one.scheduled.links one.scheduled.idle rfl returned).2 0x1000
  have listed : ∀ task, Listed current task → task = 0x1000 := by
    intro task listed
    exact List.mem_singleton.mp ((listed_iff laid.scheduled.links task).mp listed)
  have third : Step current (.taskFork ⟨0x2000, 0x20000, 0, 0⟩)
      (taskFork ⟨0x2000, 0x20000, 0, 0⟩ current) := by
    have forked : call 0 current (.taskFork ⟨0x2000, 0x20000, 0, 0⟩) =
        some (taskFork ⟨0x2000, 0x20000, 0, 0⟩ current) := rfl
    refine ⟨step_of_call live ⟨by decide, fun also => ?_⟩ forked, by decide, ?_⟩
    · exact absurd (listed _ also) (by decide)
    · intro task also addr on inside
      rw [listed task also, onStack_congr kept] at on
      have limit : addr < 0x12000 := on.2
      have base : 0x20000 ≤ addr := inside.1
      omega
  have run := Runs.next first (Runs.next second (Runs.next third (Runs.done _)))
  exact step_fork laid (by rw [scheduled]; decide) third (claim _ 0 0 _ _ run)

end Vaelen.Kernel.TaskStacks
