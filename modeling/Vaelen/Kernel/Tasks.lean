import Vaelen.Base.Runs
import Vaelen.Kernel.Platform

/-!
The scheduler of task.c and the timer interrupt of timer.c. Tasks live in a store
keyed by the address kmalloc gave them, and the loops follow the next fields.
-/

namespace Vaelen.Kernel.Tasks
open Vaelen.Base Platform

abbrev TASK_STACK_SIZE : Word := 8192
abbrev TASK_NAME_MAX : Nat := 32

inductive TaskState where
  | running | ready | blocked | sleeping | zombie | stopped
  deriving DecidableEq, Repr

structure TaskContext where
  eax : Word
  ebx : Word
  ecx : Word
  edx : Word
  esi : Word
  edi : Word
  esp : Word
  ebp : Word
  eip : Word
  eflags : Word
  cr3 : Word
  ss : Word
  cs : Word
  ds : Word
  es : Word
  fs : Word
  gs : Word
  deriving DecidableEq, Repr

abbrev sizeofTaskContext : Word := 68

def TaskContext.zero : TaskContext := ⟨0, 0, 0, 0, 0, 0, 0, 0, 0, 0, 0, 0, 0, 0, 0, 0, 0⟩

structure Task where
  pid : Word
  name : List Byte
  state : TaskState
  context : TaskContext
  pageDirectory : Word
  kernelStack : Word
  kernelStackTop : Word
  userStack : Word
  sleepTicks : Word
  priority : Word
  exitCode : Word
  next : Word
  parent : Word
  heapStart : Word
  heapEnd : Word
  brk : Word
  deriving DecidableEq, Repr

/-- What memset leaves: state 0 is TASK_RUNNING. -/
def Task.zero : Task :=
  ⟨0, [], .running, .zero, 0, 0, 0, 0, 0, 0, 0, 0, 0, 0, 0, 0⟩

structure Scheduler where
  tasks : Word → Task
  taskListHead : Word
  currentTask : Word
  idleTask : Word
  nextPid : Word
  taskCount : Word
  timerTicks : Word
  currentDirectory : Word
  /-- The loop after "No tasks to run. Halting." has been entered. -/
  halted : Bool

/-- What kmalloc and mm_clone_directory return to task_create and task_fork. -/
structure Allocated where
  task : Word
  kernelStack : Word
  pageDirectory : Word
  physicalAddr : Word

/-- The registers that task_switch_context stores in the context it leaves. -/
structure Switched where
  eax : Word
  ebx : Word
  ecx : Word
  edx : Word
  esi : Word
  edi : Word

def Scheduler.store (s : Scheduler) (addr : Word) (task : Task) : Scheduler :=
  { s with tasks := Function.update s.tasks addr task }

def Scheduler.setState (s : Scheduler) (addr : Word) (state : TaskState) : Scheduler :=
  s.store addr { s.tasks addr with state := state }

section store
variable (s : Scheduler) (addr : Word) (task : Task)

@[simp] theorem store_tasks : (s.store addr task).tasks = Function.update s.tasks addr task := rfl
@[simp] theorem store_taskListHead : (s.store addr task).taskListHead = s.taskListHead := rfl
@[simp] theorem store_currentTask : (s.store addr task).currentTask = s.currentTask := rfl
@[simp] theorem store_idleTask : (s.store addr task).idleTask = s.idleTask := rfl
@[simp] theorem store_halted : (s.store addr task).halted = s.halted := rfl

end store

def taskInit (s : Scheduler) : Scheduler :=
  { s with taskListHead := 0, currentTask := 0, nextPid := 1, taskCount := 0 }

def taskCreate (name : List Byte) (entry priority : Word) (allocated : Allocated)
    (s : Scheduler) : Scheduler :=
  let stack := allocated.kernelStack + TASK_STACK_SIZE - sizeofTaskContext
  let task : Task := { Task.zero with
    pid := s.nextPid
    name := name.take (TASK_NAME_MAX - 1)
    state := .ready
    priority := priority
    brk := KERNEL_HEAP_START + KERNEL_HEAP_SIZE
    kernelStack := allocated.kernelStack
    kernelStackTop := allocated.kernelStack + TASK_STACK_SIZE
    pageDirectory := allocated.pageDirectory
    context := { TaskContext.zero with
      cr3 := allocated.physicalAddr
      esp := stack
      eip := entry }
    next := s.taskListHead
    parent := 0 }
  { s.store allocated.task task with
    nextPid := s.nextPid + 1
    taskListHead := allocated.task
    taskCount := s.taskCount + 1 }

def taskFork (allocated : Allocated) (s : Scheduler) : Scheduler :=
  if s.currentTask = 0 then s
  else
    let parent := s.tasks s.currentTask
    let child : Task := { parent with
      pid := s.nextPid
      state := .ready
      parent := s.currentTask
      pageDirectory := allocated.pageDirectory
      context := { parent.context with cr3 := allocated.physicalAddr }
      kernelStack := allocated.kernelStack
      kernelStackTop := allocated.kernelStack + TASK_STACK_SIZE
      next := s.taskListHead }
    { s.store allocated.task child with
      nextPid := s.nextPid + 1
      taskListHead := allocated.task
      taskCount := s.taskCount + 1 }

def taskWake (task : Word) (s : Scheduler) : Scheduler :=
  if (s.tasks task).state = .sleeping then
    s.store task { s.tasks task with state := .ready, sleepTicks := 0 }
  else s

/-- The countdown of one task, the same in task_schedule and timer_handler. -/
def countDown (task : Task) : Task :=
  if task.state = .sleeping ∧ 0 < task.sleepTicks then
    let task := { task with sleepTicks := task.sleepTicks - 1 }
    if task.sleepTicks = 0 then { task with state := .ready } else task
  else task

def runnable (task : Task) : Prop := task.state = .ready ∨ task.state = .running

instance (task : Task) : Decidable (runnable task) :=
  inferInstanceAs (Decidable (_ ∨ _))

/-- Whether the loop of task_schedule replaces `next` by `task`. -/
def preferred (tasks : Word → Task) (next task : Word) : Prop :=
  runnable (tasks task) ∧
    (next = 0 ∨ (tasks next).priority.toInt < (tasks task).priority.toInt)

instance (tasks : Word → Task) (next task : Word) : Decidable (preferred tasks next task) :=
  inferInstanceAs (Decidable (_ ∧ _))

/-- The loop of task_schedule, `none` when the fuel runs out. -/
def scheduleLoop : Nat → (Word → Task) → Word → Word → Option ((Word → Task) × Word)
  | 0, _, _, _ => none
  | fuel + 1, tasks, task, next =>
      if task = 0 then some (tasks, next)
      else
        let next := if preferred tasks next task then task else next
        let tasks := Function.update tasks task (countDown (tasks task))
        scheduleLoop fuel tasks (tasks task).next next

/-- task_switch_context as far as the records of the two tasks go. -/
def taskSwitchContext (prev : Word) (regs : Switched) (s : Scheduler) : Scheduler :=
  s.store prev { s.tasks prev with
    context := { (s.tasks prev).context with
      eax := regs.eax
      ebx := regs.ebx
      ecx := regs.ecx
      edx := regs.edx
      esi := regs.esi
      edi := regs.edi } }

/-- A current task that is still running becomes ready. -/
def preempt (s : Scheduler) : Scheduler :=
  if s.currentTask ≠ 0 ∧ (s.tasks s.currentTask).state = .running then
    s.setState s.currentTask .ready
  else s

/-- The end of task_schedule, once another task than the current one is chosen. -/
def switchTo (next : Word) (regs : Switched) (s : Scheduler) : Scheduler :=
  let s := preempt (s.setState next .running)
  let prev := s.currentTask
  let s := { s with currentTask := next, currentDirectory := (s.tasks next).pageDirectory }
  if prev ≠ 0 then taskSwitchContext prev regs s else s

def taskSchedule (fuel : Nat) (regs : Switched) (s : Scheduler) : Option Scheduler :=
  match scheduleLoop fuel s.tasks s.taskListHead 0 with
  | none => none
  | some (tasks, found) =>
      let s := { s with tasks := tasks }
      let next := if found = 0 then s.idleTask else found
      if next = 0 then some { s with halted := true }
      else if next = s.currentTask then some s
      else some (switchTo next regs s)

def taskExit (fuel : Nat) (code : Word) (regs : Switched) (s : Scheduler) : Option Scheduler :=
  if s.currentTask = 0 then some s
  else
    taskSchedule fuel regs
      (s.store s.currentTask { s.tasks s.currentTask with state := .zombie, exitCode := code })

def taskYield (fuel : Nat) (regs : Switched) (s : Scheduler) : Option Scheduler :=
  taskSchedule fuel regs s

def taskSleep (fuel : Nat) (ticks : Word) (regs : Switched) (s : Scheduler) : Option Scheduler :=
  if s.currentTask = 0 then some s
  else
    taskSchedule fuel regs
      (s.store s.currentTask { s.tasks s.currentTask with state := .sleeping, sleepTicks := ticks })

def timerLoop : Nat → (Word → Task) → Word → Option (Word → Task)
  | 0, _, _ => none
  | fuel + 1, tasks, task =>
      if task = 0 then some tasks
      else
        let tasks := Function.update tasks task (countDown (tasks task))
        timerLoop fuel tasks (tasks task).next

def timerHandler (fuel : Nat) (s : Scheduler) : Option Scheduler :=
  match timerLoop fuel s.tasks s.taskListHead with
  | none => none
  | some tasks => some { s with tasks := tasks, timerTicks := s.timerTicks + 1 }

/-! The scheduler as a transition system. -/

inductive Call where
  | taskCreate (name : List Byte) (entry priority : Word) (allocated : Allocated)
  | taskFork (allocated : Allocated)
  | taskExit (code : Word) (regs : Switched)
  | taskYield (regs : Switched)
  | taskSleep (ticks : Word) (regs : Switched)
  | taskWake (task : Word)
  | timerHandler

def call (fuel : Nat) (s : Scheduler) : Call → Option Scheduler
  | .taskCreate name entry priority allocated =>
      some (Tasks.taskCreate name entry priority allocated s)
  | .taskFork allocated => some (Tasks.taskFork allocated s)
  | .taskExit code regs => Tasks.taskExit fuel code regs s
  | .taskYield regs => Tasks.taskYield fuel regs s
  | .taskSleep ticks regs => Tasks.taskSleep fuel ticks regs s
  | .taskWake task => some (Tasks.taskWake task s)
  | .timerHandler => Tasks.timerHandler fuel s

/-- The state after task_init at boot: idle_task is never assigned. -/
def start (tasks : Word → Task) (timerTicks currentDirectory : Word) : Scheduler :=
  taskInit
    { tasks := tasks, taskListHead := 0, currentTask := 0, idleTask := 0, nextPid := 1,
      taskCount := 0, timerTicks := timerTicks, currentDirectory := currentDirectory,
      halted := false }

end Vaelen.Kernel.Tasks
