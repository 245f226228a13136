import Vaelen.Base.Runs
import Vaelen.Kernel.Paging
import Vaelen.Kernel.Strings
import Vaelen.Kernel.Tasks

/-!
task.c and timer.c on the memory that the heap is in: a task is the record at an address that kmalloc
returned, and each statement is a load or a store there. Whatever else is written to those bytes
changes the task.
-/

namespace Vaelen.Kernel.TaskRecords
open Vaelen.Base Platform Kmalloc Paging Strings
open Tasks (TASK_STACK_SIZE TASK_NAME_MAX TaskState Task Switched sizeofTaskContext)

abbrev sizeofTask : Word := 156

/-- The fields of task_t that task.c and timer.c use, those of its context among them. -/
inductive Field where
  | pid | state | eax | ebx | ecx | edx | esi | edi | esp | eip | cr3 | pageDirectory | kernelStack
  | kernelStackTop | sleepTicks | priority | exitCode | next | parent | brk
  deriving DecidableEq, Repr

def Field.offset : Field → Word
  | .pid => 0
  | .state => 36
  | .eax => 40
  | .ebx => 44
  | .ecx => 48
  | .edx => 52
  | .esi => 56
  | .edi => 60
  | .esp => 64
  | .eip => 72
  | .cr3 => 80
  | .pageDirectory => 108
  | .kernelStack => 112
  | .kernelStackTop => 116
  | .sleepTicks => 124
  | .priority => 128
  | .exitCode => 132
  | .next => 136
  | .parent => 140
  | .brk => 152

def field (memory : Mem) (task : Word) (name : Field) : Word := load32 memory (task + name.offset)

def setField (memory : Mem) (task : Word) (name : Field) (value : Word) : Mem :=
  store32 memory (task + name.offset) value

/-- The values of the enumeration task_state_t. -/
def code : TaskState → Word
  | .running => 0
  | .ready => 1
  | .blocked => 2
  | .sleeping => 3
  | .zombie => 4
  | .stopped => 5

/-- The memory and the static variables of mm.c and task.c, which lie elsewhere. -/
structure System where
  mm : Mm
  taskListHead : Word
  currentTask : Word
  idleTask : Word
  nextPid : Word
  taskCount : Word
  timerTicks : Word
  /-- The loop after "No tasks to run. Halting." has been entered. -/
  halted : Bool

namespace System

def mem (s : System) : Mem := s.mm.mem
def write (s : System) (memory : Mem) : System := { s with mm := s.mm.write memory }
def withHeap (s : System) (heap : Heap) : System := { s with mm := { s.mm with heap := heap } }

@[simp] theorem write_mem (s : System) (memory : Mem) : (s.write memory).mem = memory := rfl
@[simp] theorem write_currentTask (s : System) (memory : Mem) : (s.write memory).currentTask = s.currentTask := rfl
@[simp] theorem withHeap_mem (s : System) (heap : Heap) : (s.withHeap heap).mem = heap.mem := rfl

end System

def taskInit (s : System) : System :=
  { s with taskListHead := 0, currentTask := 0, nextPid := 1, taskCount := 0 }

/-! Making a task, cut where kmalloc and mm_clone_directory are called. -/

/-- The record of task_create up to its second call of kmalloc. -/
def initRecord (memory : Mem) (task pid name priority : Word) : Mem :=
  let memory := memset memory task 0 sizeofTask.toNat
  let memory := setField memory task .pid pid
  let memory := strncpy memory (task + 4) name (TASK_NAME_MAX - 1)
  let memory := setField memory task .state (code .ready)
  let memory := setField memory task .priority priority
  setField memory task .brk (KERNEL_HEAP_START + KERNEL_HEAP_SIZE)

def setStack (memory : Mem) (task stack : Word) : Mem :=
  let memory := setField memory task .kernelStack stack
  setField memory task .kernelStackTop (field memory task .kernelStack + TASK_STACK_SIZE)

def setDirectory (memory : Mem) (task dir : Word) : Mem :=
  let memory := setField memory task .pageDirectory dir
  setField memory task .cr3 (load32 memory (physicalAddrAt (field memory task .pageDirectory)))

/-- The context that task_create puts at the top of the stack. -/
def initContext (memory : Mem) (stack entry : Word) : Mem :=
  let memory := memset memory stack 0 sizeofTaskContext.toNat
  let memory := store32 memory (stack + 32) entry
  let memory := store32 memory (stack + 36) 0x202
  let memory := store32 memory (stack + 48) 0x08
  let memory := store32 memory (stack + 44) 0x10
  let memory := store32 memory (stack + 52) 0x10
  let memory := store32 memory (stack + 56) 0x10
  let memory := store32 memory (stack + 60) 0x10
  store32 memory (stack + 64) 0x10

/-- The rest of task_create, up to the list. -/
def finishRecord (memory : Mem) (task dir entry head : Word) : Mem :=
  let memory := setDirectory memory task dir
  let stack := field memory task .kernelStackTop - sizeofTaskContext
  let memory := initContext memory stack entry
  let memory := setField memory task .esp stack
  let memory := setField memory task .eip entry
  let memory := setField memory task .next head
  setField memory task .parent 0

/-- `dir` is what the local pointer of mm_clone_directory holds before it is assigned. -/
def taskCreate (fuel : Nat) (name entry priority dir : Word) (s : System) : Except Stop (Word × System) := do
  let (task, heap) ← kmalloc fuel sizeofTask s.mm.heap
  let s := s.withHeap heap
  let s := { s.write (initRecord s.mem task s.nextPid name priority) with nextPid := s.nextPid + 1 }
  let (stack, heap) ← kmalloc fuel TASK_STACK_SIZE s.mm.heap
  let s := s.withHeap heap
  let s := s.write (setStack s.mem task stack)
  let (dir, mm) ← mmCloneDirectory fuel dir s.mm
  let s := { s with mm := mm }
  let s := s.write (finishRecord s.mem task dir entry s.taskListHead)
  return (task, { s with taskListHead := task, taskCount := s.taskCount + 1 })

/-- The record of task_fork up to its call of mm_clone_directory. -/
def copyRecord (memory : Mem) (child parent pid : Word) : Mem :=
  let memory := memcpy memory child parent sizeofTask.toNat
  let memory := setField memory child .pid pid
  let memory := setField memory child .state (code .ready)
  setField memory child .parent parent

/-- The rest of task_fork, up to the list. -/
def copyStack (memory : Mem) (child parent stack head : Word) : Mem :=
  let memory := setField memory child .kernelStack stack
  let memory := memcpy memory (field memory child .kernelStack) (field memory parent .kernelStack)
    TASK_STACK_SIZE.toNat
  let memory := setField memory child .kernelStackTop (field memory child .kernelStack + TASK_STACK_SIZE)
  setField memory child .next head

def taskFork (fuel : Nat) (dir : Word) (s : System) : Except Stop (Word × System) :=
  let parent := s.currentTask
  if parent = 0 then .ok (0, s)
  else do
    let (child, heap) ← kmalloc fuel sizeofTask s.mm.heap
    let s := s.withHeap heap
    let s := { s.write (copyRecord s.mem child parent s.nextPid) with nextPid := s.nextPid + 1 }
    let (dir, mm) ← mmCloneDirectory fuel dir s.mm
    let s := { s with mm := mm }
    let s := s.write (setDirectory s.mem child dir)
    let (stack, heap) ← kmalloc fuel TASK_STACK_SIZE s.mm.heap
    let s := s.withHeap heap
    let s := s.write (copyStack s.mem child parent stack s.taskListHead)
    return (child, { s with taskListHead := child, taskCount := s.taskCount + 1 })

/-! The other calls. -/

def taskWake (task : Word) (s : System) : System :=
  if field s.mem task .state = code .sleeping then
    let s := s.write (setField s.mem task .state (code .ready))
    s.write (setField s.mem task .sleepTicks 0)
  else s

/-- The countdown of one task, the same in task_schedule and timer_handler. -/
def countDown (memory : Mem) (task : Word) : Mem :=
  if field memory task .state = code .sleeping ∧ 0 < field memory task .sleepTicks then
    let memory := setField memory task .sleepTicks (field memory task .sleepTicks - 1)
    if field memory task .sleepTicks = 0 then setField memory task .state (code .ready) else memory
  else memory

/-- Whether the loop of task_schedule replaces `next` by `task`. -/
def preferred (memory : Mem) (next task : Word) : Prop :=
  (field memory task .state = code .ready ∨ field memory task .state = code .running) ∧
    (next = 0 ∨ (field memory next .priority).toInt < (field memory task .priority).toInt)

instance (memory : Mem) (next task : Word) : Decidable (preferred memory next task) :=
  inferInstanceAs (Decidable (_ ∧ _))

/-- The loop of task_schedule, `none` when the fuel runs out. -/
def scheduleLoop : Nat → Mem → Word → Word → Option (Mem × Word)
  | 0, _, _, _ => none
  | fuel + 1, memory, task, next =>
      if task = 0 then some (memory, next)
      else
        let next := if preferred memory next task then task else next
        let memory := countDown memory task
        scheduleLoop fuel memory (field memory task .next) next

/-- task_switch_context as far as the records of the two tasks go. -/
def taskSwitchContext (prev : Word) (regs : Switched) (s : System) : System :=
  let memory := setField s.mem prev .eax regs.eax
  let memory := setField memory prev .ebx regs.ebx
  let memory := setField memory prev .ecx regs.ecx
  let memory := setField memory prev .edx regs.edx
  let memory := setField memory prev .esi regs.esi
  s.write (setField memory prev .edi regs.edi)

def preempt (s : System) : System :=
  if s.currentTask ≠ 0 ∧ field s.mem s.currentTask .state = code .running then
    s.write (setField s.mem s.currentTask .state (code .ready))
  else s

/-- The end of task_schedule, once another task than the current one is chosen. -/
def switchTo (next : Word) (regs : Switched) (s : System) : System :=
  let s := preempt (s.write (setField s.mem next .state (code .running)))
  let prev := s.currentTask
  let s := { s with
    currentTask := next
    mm := { s.mm with currentDirectory := field s.mem next .pageDirectory } }
  if prev ≠ 0 then taskSwitchContext prev regs s else s

def taskSchedule (fuel : Nat) (regs : Switched) (s : System) : Except Stop System :=
  match scheduleLoop fuel s.mem s.taskListHead 0 with
  | none => .error .running
  | some (memory, found) =>
      let s := s.write memory
      let next := if found = 0 then s.idleTask else found
      if next = 0 then .ok { s with halted := true }
      else if next = s.currentTask then .ok s
      else .ok (switchTo next regs s)

def taskExit (fuel : Nat) (exitCode : Word) (regs : Switched) (s : System) : Except Stop System :=
  if s.currentTask = 0 then .ok s
  else
    let s := s.write (setField s.mem s.currentTask .state (code .zombie))
    let s := s.write (setField s.mem s.currentTask .exitCode exitCode)
    taskSchedule fuel regs s

def taskYield (fuel : Nat) (regs : Switched) (s : System) : Except Stop System :=
  taskSchedule fuel regs s

def taskSleep (fuel : Nat) (ticks : Word) (regs : Switched) (s : System) : Except Stop System :=
  if s.currentTask = 0 then .ok s
  else
    let s := s.write (setField s.mem s.currentTask .sleepTicks ticks)
    let s := s.write (setField s.mem s.currentTask .state (code .sleeping))
    taskSchedule fuel regs s

def timerLoop : Nat → Mem → Word → Option Mem
  | 0, _, _ => none
  | fuel + 1, memory, task =>
      if task = 0 then some memory
      else
        let memory := countDown memory task
        timerLoop fuel memory (field memory task .next)

def timerHandler (fuel : Nat) (s : System) : Except Stop System :=
  let s := { s with timerTicks := s.timerTicks + 1 }
  match timerLoop fuel s.mem s.taskListHead with
  | none => .error .running
  | some memory => .ok (s.write memory)

/-! The scheduler as a transition system. -/

inductive Call where
  | taskCreate (name entry priority dir : Word)
  | taskFork (dir : Word)
  | taskExit (exitCode : Word) (regs : Switched)
  | taskYield (regs : Switched)
  | taskSleep (ticks : Word) (regs : Switched)
  | taskWake (task : Word)
  | timerHandler

def call (fuel : Nat) (s : System) : Call → Except Stop System
  | .taskCreate name entry priority dir => (TaskRecords.taskCreate fuel name entry priority dir s).map Prod.snd
  | .taskFork dir => (TaskRecords.taskFork fuel dir s).map Prod.snd
  | .taskExit exitCode regs => TaskRecords.taskExit fuel exitCode regs s
  | .taskYield regs => TaskRecords.taskYield fuel regs s
  | .taskSleep ticks regs => TaskRecords.taskSleep fuel ticks regs s
  | .taskWake task => .ok (TaskRecords.taskWake task s)
  | .timerHandler => TaskRecords.timerHandler fuel s

/-- The state after task_init at boot: idle_task is never assigned. -/
def start (mm : Mm) (timerTicks : Word) : System :=
  taskInit
    { mm := mm, taskListHead := 0, currentTask := 0, idleTask := 0, nextPid := 1, taskCount := 0,
      timerTicks := timerTicks, halted := false }

/-! Fields and the bytes of records. -/

section field
variable {memory other : Mem} {task address value : Word} {name : Field}

theorem offset_aligned (name : Field) : name.offset.toNat % 4 = 0 := by
  cases name <;> rfl

theorem offset_bound (name : Field) : name.offset.toNat + 4 ≤ 156 := by
  cases name <;> decide

def Field.all : List Field :=
  [.pid, .state, .eax, .ebx, .ecx, .edx, .esi, .edi, .esp, .eip, .cr3, .pageDirectory, .kernelStack,
    .kernelStackTop, .sleepTicks, .priority, .exitCode, .next, .parent, .brk]

theorem find_offset (name : Field) : Field.all.find? (fun other => other.offset = name.offset) = some name := by
  cases name <;> decide

theorem offset_injective : Function.Injective Field.offset := by
  intro first second same
  have found := find_offset first
  rw [same, find_offset second] at found
  exact (Option.some.inj found).symm

@[simp] theorem field_setField (memory : Mem) (task value : Word) (name read : Field) :
    field (setField memory task name value) task read = if read = name then value else field memory task read := by
  by_cases same : read = name
  · rw [if_pos same, same, field, setField, load32_store32]
  · rw [if_neg same, field, setField]
    have different : read.offset ≠ name.offset := fun equal => same (offset_injective equal)
    have first := offset_aligned read
    have second := offset_aligned name
    exact load32_store32_apart (apart_words (by bv_omega) (by bv_omega))

theorem within_field (inside : Within (task + name.offset) 4 address) : Within task 156 address :=
  within_sub name.offset (offset_bound name) inside

theorem setField_outside (memory : Mem) (task value : Word) (name : Field) :
    SameOutside (Within task 156) memory (setField memory task name value) :=
  (SameOutside.store32 memory _ value).mono fun _ => within_field

theorem field_congr (same : ∀ x, Within task 156 x → other x = memory x) :
    field other task name = field memory task name :=
  load32_congr fun x inside => same x (within_field inside)

end field

end Vaelen.Kernel.TaskRecords
