import Vaelen.Kernel.SchedulerRecords

/-!
task_create and task_fork on memory. What kmalloc returns and what it and mm_clone_directory write on
the way decides whether the records of the listed tasks are still there afterwards.
-/

namespace Vaelen.Kernel.TaskCreation
open Vaelen.Base Platform Kmalloc Paging Strings SchedulerPasses TaskRecords SchedulerRecords
open Tasks (TASK_STACK_SIZE TASK_NAME_MAX Task Scheduler sizeofTaskContext)

/-- No byte of these records has changed. -/
def Keeps (list : List Word) (before after : Mem) : Prop :=
  ∀ task ∈ list, ∀ x, Within task 156 x → after x = before x

/-- A block touches none of these records. -/
def Clear (list : List Word) (block : Word) (size : Nat) : Prop := ∀ task ∈ list, Apart task 156 block size

/-- In a call of task_create neither the blocks of kmalloc nor another store of kmalloc or of
mm_clone_directory touch the records of the list or the new one. -/
def CreateSpares (fuel : Nat) (name priority dir : Word) (s : System) (list : List Word) : Prop :=
  ∀ task heap, kmalloc fuel sizeofTask s.mm.heap = .ok (task, heap) →
    (task ≠ 0 ∧ Clear list task 156 ∧ Keeps list s.mem heap.mem) ∧
    let s := (s.withHeap heap).write (initRecord heap.mem task s.nextPid name priority)
    ∀ stack heap, kmalloc fuel TASK_STACK_SIZE s.mm.heap = .ok (stack, heap) →
      (Clear (task :: list) stack 8192 ∧ Keeps (task :: list) s.mem heap.mem) ∧
      let s := (s.withHeap heap).write (setStack heap.mem task stack)
      ∀ found mm, mmCloneDirectory fuel dir s.mm = .ok (found, mm) → Keeps (task :: list) s.mem mm.mem

/-- The same for a call of task_fork. -/
def ForkSpares (fuel : Nat) (dir : Word) (s : System) (list : List Word) : Prop :=
  ∀ child heap, kmalloc fuel sizeofTask s.mm.heap = .ok (child, heap) →
    (child ≠ 0 ∧ Clear list child 156 ∧ Keeps list s.mem heap.mem) ∧
    let s := (s.withHeap heap).write (copyRecord heap.mem child s.currentTask s.nextPid)
    ∀ found mm, mmCloneDirectory fuel dir s.mm = .ok (found, mm) → Keeps (child :: list) s.mem mm.mem ∧
      let s := { s with mm := mm }.write (setDirectory mm.mem child found)
      ∀ stack heap, kmalloc fuel TASK_STACK_SIZE s.mm.heap = .ok (stack, heap) →
        Clear (child :: list) stack 8192 ∧ Keeps (child :: list) s.mem heap.mem

variable {list : List Word} {memory other third : Mem} {task block value : Word} {size : Nat}

theorem Keeps.trans (first : Keeps list memory other) (second : Keeps list other third) : Keeps list memory third :=
  fun task member x inside => (second task member x inside).trans (first task member x inside)

theorem Keeps.tail (keeps : Keeps (task :: list) memory other) : Keeps list memory other :=
  fun item member => keeps item (List.mem_cons_of_mem task member)

theorem keeps_outside (same : SameOutside (Within block size) memory other) (clear : Clear list block size) :
    Keeps list memory other :=
  fun task member x inside => same x (clear task member x inside)

theorem Keeps.view (keeps : Keeps list memory other) (member : task ∈ list) : view other task = view memory task :=
  view_congr (keeps task member)

theorem Keeps.field (keeps : Keeps list memory other) (member : task ∈ list) (name : Field) :
    field other task name = field memory task name :=
  field_congr (keeps task member)

theorem Clear.fresh (clear : Clear list task 156) : task ∉ list := by
  intro member
  have inside : Within task 156 task := by
    unfold Within
    simp
  exact clear task member task inside inside

theorem Clear.part {inner : Nat} (clear : Clear list block size) (offset : Word)
    (room : offset.toNat + inner ≤ size) : Clear list (block + offset) inner :=
  fun task member x own inside => clear task member x own (within_sub offset room inside)

/-! The parts of a new record. -/

theorem field_late (name : Field) (late : 36 ≤ name.offset.toNat)
    (same : SameOutside (Within (task + 4) 31) memory other) : field other task name = field memory task name := by
  apply same.load32
  intro x inside early
  have bound := offset_bound name
  unfold Within at inside early
  bv_omega

theorem view_late (same : SameOutside (Within (task + 4) 31) memory other) : view other task = view memory task := by
  simp only [SchedulerRecords.view, field_late _ (by decide : 36 ≤ Field.state.offset.toNat) same,
    field_late _ (by decide : 36 ≤ Field.sleepTicks.offset.toNat) same,
    field_late _ (by decide : 36 ≤ Field.priority.offset.toNat) same,
    field_late _ (by decide : 36 ≤ Field.next.offset.toNat) same]

section cleared
variable (memory : Mem) (task : Word) {size : Nat} (room : 156 ≤ size) (fits : size ≤ 2 ^ 32)
include room fits

theorem field_cleared (name : Field) : field (memset memory task 0 size) task name = 0 := by
  rw [← load32_zero (task + name.offset)]
  apply load32_congr
  intro x inside
  have covered : Within task size x := Nat.lt_of_lt_of_le (within_field inside) room
  rw [memset_spec memory task 0 size fits, if_pos covered]

theorem view_cleared : view (memset memory task 0 size) task = Task.zero := by
  simp only [SchedulerRecords.view, field_cleared memory task room fits]
  rfl

end cleared

theorem view_copied {parent : Word} (apart : Apart task 156 parent 156) :
    view (memcpy memory task parent 156) task = view memory parent := by
  have same (name : Field) : field (memcpy memory task parent 156) task name = field memory parent name :=
    load32_memcpy (by decide) apart name.offset (offset_bound name)
  simp only [SchedulerRecords.view, same]

theorem initRecord_outside (memory : Mem) (task pid name priority : Word) :
    SameOutside (Within task 156) memory (initRecord memory task pid name priority) := by
  have named (m : Mem) : SameOutside (Within task 156) m (strncpy m (task + 4) name (TASK_NAME_MAX - 1)) :=
    (strncpy_outside m (task + 4) name 31 (by decide)).mono fun x inside => within_sub 4 (by decide) inside
  exact (memset_outside memory task 0 156 (by decide)).trans ((setField_outside _ task _ _).trans
    ((named _).trans ((setField_outside _ task _ _).trans ((setField_outside _ task _ _).trans
      (setField_outside _ task _ _)))))

theorem view_initRecord (memory : Mem) (task pid name priority : Word) :
    view (initRecord memory task pid name priority) task = { Task.zero with state := .ready, priority := priority } := by
  have named (m : Mem) : view (strncpy m (task + 4) name (TASK_NAME_MAX - 1)) task = view m task :=
    view_late (strncpy_outside m (task + 4) name 31 (by decide))
  have cleared : view (memset memory task 0 sizeofTask.toNat) task = Task.zero :=
    view_cleared memory task (by decide) (by decide)
  simp only [initRecord, view_setField, named, cleared, stateOf_code]

theorem setStack_outside (memory : Mem) (task stack : Word) :
    SameOutside (Within task 156) memory (setStack memory task stack) :=
  (setField_outside memory task stack .kernelStack).trans (setField_outside _ task _ .kernelStackTop)

theorem setDirectory_outside (memory : Mem) (task dir : Word) :
    SameOutside (Within task 156) memory (setDirectory memory task dir) :=
  (setField_outside memory task dir .pageDirectory).trans (setField_outside _ task _ .cr3)

theorem initContext_outside (memory : Mem) (stack entry : Word) :
    SameOutside (Within stack 68) memory (initContext memory stack entry) := by
  have stored (m : Mem) (offset value : Word) (room : offset.toNat + 4 ≤ 68) :
      SameOutside (Within stack 68) m (store32 m (stack + offset) value) :=
    (SameOutside.store32 m _ value).mono fun x inside => within_sub offset room inside
  exact (memset_outside memory stack 0 68 (by decide)).trans ((stored _ 32 _ (by decide)).trans
    ((stored _ 36 _ (by decide)).trans ((stored _ 48 _ (by decide)).trans ((stored _ 44 _ (by decide)).trans
      ((stored _ 52 _ (by decide)).trans ((stored _ 56 _ (by decide)).trans ((stored _ 60 _ (by decide)).trans
        (stored _ 64 _ (by decide)))))))))

section finish
variable {head top : Word} (dir entry : Word) (held : field memory task .kernelStackTop = top)
  (clear : Clear (task :: list) (top - 68) 68) (fresh : Clear list task 156)
include held clear

theorem context_keeps : Keeps (task :: list) (setDirectory memory task dir)
    (initContext (setDirectory memory task dir)
      (field (setDirectory memory task dir) task .kernelStackTop - sizeofTaskContext) entry) := by
  have same : field (setDirectory memory task dir) task .kernelStackTop = top := by
    simp [setDirectory, held]
  rw [same]
  exact keeps_outside (initContext_outside _ _ entry) clear

theorem view_finishRecord :
    view (finishRecord memory task dir entry head) task = { view memory task with next := head } := by
  have context := (context_keeps dir entry held clear).view List.mem_cons_self
  simp only [finishRecord, view_setField, context]
  simp [setDirectory]

include fresh in
theorem finishRecord_keeps : Keeps list memory (finishRecord memory task dir entry head) := by
  have own (m : Mem) (name : Field) (value : Word) : Keeps list m (setField m task name value) :=
    keeps_outside (setField_outside m task value name) fresh
  have directory : Keeps list memory (setDirectory memory task dir) :=
    keeps_outside (setDirectory_outside memory task dir) fresh
  have context := (context_keeps dir entry held clear).tail
  exact directory.trans (context.trans ((own _ _ _).trans ((own _ _ _).trans ((own _ _ _).trans (own _ _ _)))))

end finish

theorem copyRecord_outside (memory : Mem) (child parent pid : Word) :
    SameOutside (Within child 156) memory (copyRecord memory child parent pid) :=
  (memcpy_outside memory child parent 156 (by decide)).trans ((setField_outside _ child _ _).trans
    ((setField_outside _ child _ _).trans (setField_outside _ child _ _)))

theorem view_copyRecord {child parent : Word} (apart : Apart child 156 parent 156) (pid : Word) :
    view (copyRecord memory child parent pid) child = { view memory parent with state := .ready } := by
  have copied : view (memcpy memory child parent sizeofTask.toNat) child = view memory parent := view_copied apart
  simp only [copyRecord, view_setField, copied, stateOf_code]

section copyStack
variable {stack head parent : Word} (clear : Clear (task :: list) stack 8192)
include clear

/-- The bytes of the parent's stack go where no record is. -/
theorem stack_keeps (memory : Mem) (parent : Word) : Keeps (task :: list) (setField memory task .kernelStack stack)
    (memcpy (setField memory task .kernelStack stack)
      (field (setField memory task .kernelStack stack) task .kernelStack)
      (field (setField memory task .kernelStack stack) parent .kernelStack) TASK_STACK_SIZE.toNat) := by
  rw [field_setField, if_pos rfl]
  exact keeps_outside (memcpy_outside _ stack _ 8192 (by decide)) clear

theorem view_copyStack :
    view (copyStack memory task parent stack head) task = { view memory task with next := head } := by
  have copied := (stack_keeps clear memory parent).view List.mem_cons_self
  simp only [copyStack, view_setField, copied]

theorem copyStack_keeps (fresh : Clear list task 156) :
    Keeps list memory (copyStack memory task parent stack head) := by
  have own (m : Mem) (name : Field) (value : Word) : Keeps list m (setField m task name value) :=
    keeps_outside (setField_outside m task value name) fresh
  have copied := (stack_keeps clear memory parent).tail
  exact (own _ _ _).trans (copied.trans ((own _ _ _).trans (own _ _ _)))

end copyStack

/-! The two calls. -/

theorem spread_push (spread : Spread list) (clear : Clear list task 156) : Spread (task :: list) := by
  intro first member second also different
  rcases List.mem_cons.mp member with rfl | member
  · rcases List.mem_cons.mp also with rfl | also
    · exact absurd rfl different
    · exact fun x own inside => clear second also x inside own
  · rcases List.mem_cons.mp also with same | also
    · exact same ▸ clear first member
    · exact spread first member second also different

theorem mirrors_push {tasks : Word → Task} {record : Task} (mirrors : Mirrors list memory tasks)
    (keeps : Keeps list memory other) (stored : view other task = core record) :
    Mirrors (task :: list) other (Function.update tasks task record) := by
  intro item member
  by_cases here : item = task
  · rw [here, Function.update_self, stored]
  · have inside := (List.mem_cons.mp member).resolve_left here
    rw [Function.update_of_ne here, keeps.view inside, mirrors item inside]

section calls
variable {s after : System} {t : Scheduler} {fuel : Nat} {name entry priority dir : Word}

theorem taskCreate_agrees (agrees : Agrees list s t) (spares : CreateSpares fuel name priority dir s list)
    (returned : taskCreate fuel name entry priority dir s = .ok (task, after)) :
    task ≠ 0 ∧ task ∉ list ∧ Agrees (task :: list) after (Tasks.taskCreate [] 0 priority ⟨task, 0, 0, 0⟩ t) := by
  rw [taskCreate] at returned
  obtain ⟨⟨record, heap⟩, first, returned⟩ := bind_eq_ok returned
  obtain ⟨⟨present, fresh, keeps⟩, spares⟩ := spares record heap first
  obtain ⟨⟨stack, heap'⟩, second, returned⟩ := bind_eq_ok returned
  obtain ⟨⟨apart, keeps'⟩, spares⟩ := spares stack heap' second
  obtain ⟨⟨found, mm⟩, third, returned⟩ := bind_eq_ok returned
  have cloned := spares found mm third
  simp only [pure, Except.pure, Except.ok.injEq, Prod.mk.injEq] at returned
  obtain ⟨rfl, rfl⟩ := returned
  have own (m : Mem) : Keeps list m (setStack m record stack) :=
    keeps_outside (setStack_outside m record stack) fresh
  have top : field mm.mem record .kernelStackTop = stack + TASK_STACK_SIZE := by
    rw [cloned.field List.mem_cons_self]
    simp [setStack]
  have context : Clear (record :: list) (stack + TASK_STACK_SIZE - 68) 68 := by
    have part := apart.part 8124 (by decide : (8124 : Word).toNat + 68 ≤ 8192)
    have same : stack + TASK_STACK_SIZE - 68 = stack + 8124 := by bv_omega
    rwa [same]
  have started : Keeps list s.mem (initRecord heap.mem record s.nextPid name priority) :=
    keeps.trans (keeps_outside (initRecord_outside heap.mem record s.nextPid name priority) fresh)
  have stacked := (started.trans keeps'.tail).trans (own heap'.mem)
  have finished : Keeps list mm.mem (finishRecord mm.mem record found entry s.taskListHead) :=
    finishRecord_keeps found entry top context fresh
  have stored : view (finishRecord mm.mem record found entry s.taskListHead) record =
      { Task.zero with state := .ready, priority := priority, next := s.taskListHead } := by
    rw [view_finishRecord found entry top context, cloned.view List.mem_cons_self]
    simp only [System.write_mem, setStack, view_setField]
    rw [keeps'.view List.mem_cons_self, System.write_mem, view_initRecord]
  refine ⟨present, fresh.fresh, ?_⟩
  exact { agrees with
    spread := spread_push agrees.spread fresh
    tasks := by
      refine mirrors_push agrees.tasks ((stacked.trans cloned.tail).trans finished) ?_
      rw [agrees.head]
      exact stored
    head := rfl }

/-- Without a current task task_fork changes nothing. -/
theorem taskFork_agrees (agrees : Agrees list s t) (spares : ForkSpares fuel dir s list)
    (member : s.currentTask ∈ list) (present : s.currentTask ≠ 0)
    (returned : taskFork fuel dir s = .ok (task, after)) :
    task ≠ 0 ∧ task ∉ list ∧ Agrees (task :: list) after (Tasks.taskFork ⟨task, 0, 0, 0⟩ t) := by
  rw [taskFork] at returned
  simp only [if_neg present] at returned
  obtain ⟨⟨child, heap⟩, first, returned⟩ := bind_eq_ok returned
  obtain ⟨⟨some, fresh, keeps⟩, spares⟩ := spares child heap first
  obtain ⟨⟨found, mm⟩, second, returned⟩ := bind_eq_ok returned
  obtain ⟨cloned, spares⟩ := spares found mm second
  obtain ⟨⟨stack, heap'⟩, third, returned⟩ := bind_eq_ok returned
  obtain ⟨apart, keeps'⟩ := spares stack heap' third
  simp only [pure, Except.pure, Except.ok.injEq, Prod.mk.injEq] at returned
  obtain ⟨rfl, rfl⟩ := returned
  have copied : Keeps list s.mem (copyRecord heap.mem child s.currentTask s.nextPid) :=
    keeps.trans (keeps_outside (copyRecord_outside heap.mem child s.currentTask s.nextPid) fresh)
  have directed : Keeps list mm.mem (setDirectory mm.mem child found) :=
    keeps_outside (setDirectory_outside mm.mem child found) fresh
  have stacked : Keeps list s.mem heap'.mem :=
    ((copied.trans cloned.tail).trans directed).trans keeps'.tail
  have finished : Keeps list heap'.mem (copyStack heap'.mem child s.currentTask stack s.taskListHead) :=
    copyStack_keeps apart fresh
  have beside : Apart child 156 s.currentTask 156 := fun x own inside => fresh _ member x inside own
  have stored : view (copyStack heap'.mem child s.currentTask stack s.taskListHead) child =
      { view s.mem s.currentTask with state := .ready, next := s.taskListHead } := by
    rw [view_copyStack apart, keeps'.view List.mem_cons_self]
    simp only [System.write_mem, setDirectory, view_setField]
    rw [cloned.view List.mem_cons_self, System.write_mem, view_copyRecord beside, keeps.view member]
  have forked : Tasks.taskFork ⟨child, 0, 0, 0⟩ t = _ := if_neg (agrees.current ▸ present)
  refine ⟨some, fresh.fresh, ?_⟩
  rw [forked]
  exact { agrees with
    spread := spread_push agrees.spread fresh
    tasks := by
      refine mirrors_push agrees.tasks (stacked.trans finished) ?_
      dsimp only
      rw [agrees.head, agrees.current]
      refine stored.trans ?_
      rw [agrees.tasks _ member]
      rfl
    head := rfl }

end calls

end Vaelen.Kernel.TaskCreation
