import Vaelen.Kernel.SchedulerStates
import Vaelen.Kernel.TaskRecords

/-!
The records in memory and the tasks of the scheduler's model. As long as kmalloc and
mm_clone_directory stay off the records of the listed tasks, every call on memory is one of the model.
-/

namespace Vaelen.Kernel.SchedulerRecords
open Vaelen.Base Platform Kmalloc Paging SchedulerPasses TaskRecords
open Tasks (TaskState Task Switched Scheduler runnable)

def stateOf (word : Word) : TaskState :=
  if word = 0 then .running else if word = 1 then .ready else if word = 2 then .blocked
  else if word = 3 then .sleeping else if word = 4 then .zombie else .stopped

/-- What the scheduler reads of a record. -/
def view (memory : Mem) (task : Word) : Task :=
  { Task.zero with
    state := stateOf (field memory task .state)
    sleepTicks := field memory task .sleepTicks
    priority := field memory task .priority
    next := field memory task .next }

def core (task : Task) : Task :=
  { Task.zero with
    state := task.state
    sleepTicks := task.sleepTicks
    priority := task.priority
    next := task.next }

theorem stateOf_code (state : TaskState) : stateOf (code state) = state := by
  cases state <;> decide

theorem stateOf_eq_iff {word : Word} {state : TaskState} (named : state ≠ .stopped) :
    stateOf word = state ↔ word = code state := by
  constructor
  · intro same
    unfold stateOf at same
    split_ifs at same <;> subst same <;> first | assumption | exact absurd rfl named
  · rintro rfl
    exact stateOf_code state

section view
variable {memory other : Mem} {task value : Word}

theorem view_congr (same : ∀ x, Within task 156 x → other x = memory x) : view other task = view memory task := by
  simp only [view, field_congr same]

@[simp] theorem view_setField (name : Field) : view (setField memory task name value) task =
    match name with
    | .state => { view memory task with state := stateOf value }
    | .sleepTicks => { view memory task with sleepTicks := value }
    | .priority => { view memory task with priority := value }
    | .next => { view memory task with next := value }
    | _ => view memory task := by
  cases name <;> simp [view]

theorem state_iff {state : TaskState} (named : state ≠ .stopped) :
    field memory task .state = code state ↔ (view memory task).state = state :=
  (stateOf_eq_iff named).symm

theorem core_countDown (task : Task) : core (Tasks.countDown task) = Tasks.countDown (core task) := by
  unfold Tasks.countDown
  by_cases asleep : task.state = .sleeping ∧ 0 < task.sleepTicks
  · have also : (core task).state = .sleeping ∧ 0 < (core task).sleepTicks := asleep
    have ticks : (core task).sleepTicks = task.sleepTicks := rfl
    rw [if_pos asleep, if_pos also]
    dsimp only
    rw [ticks]
    by_cases last : task.sleepTicks - 1 = 0
    · rw [if_pos last, if_pos last]
      rfl
    · rw [if_neg last, if_neg last]
      rfl
  · have also : ¬((core task).state = .sleeping ∧ 0 < (core task).sleepTicks) := asleep
    rw [if_neg asleep, if_neg also]

theorem view_countDown (memory : Mem) (task : Word) :
    view (countDown memory task) task = Tasks.countDown (view memory task) := by
  unfold countDown Tasks.countDown
  have same : field memory task .state = code .sleeping ∧ 0 < field memory task .sleepTicks ↔
      (view memory task).state = .sleeping ∧ 0 < (view memory task).sleepTicks :=
    and_congr_left fun _ => state_iff (by decide)
  by_cases asleep : field memory task .state = code .sleeping ∧ 0 < field memory task .sleepTicks
  · rw [if_pos asleep, if_pos (same.mp asleep)]
    simp only [field_setField, if_true]
    have ticks : (view memory task).sleepTicks = field memory task .sleepTicks := rfl
    rw [ticks]
    by_cases last : field memory task .sleepTicks - 1 = 0
    · rw [if_pos last, if_pos last]
      simp [stateOf_code]
    · rw [if_neg last, if_neg last]
      simp
  · rw [if_neg asleep, if_neg (mt same.mpr asleep)]

theorem countDown_outside (memory : Mem) (task : Word) :
    SameOutside (Within task 156) memory (countDown memory task) := by
  unfold countDown
  by_cases asleep : field memory task .state = code .sleeping ∧ 0 < field memory task .sleepTicks
  · rw [if_pos asleep]
    dsimp only
    split
    · exact (setField_outside memory task _ .sleepTicks).trans (setField_outside _ task _ .state)
    · exact setField_outside memory task _ .sleepTicks
  · rw [if_neg asleep]
    exact SameOutside.refl memory

end view

/-! Memory and tasks. -/

/-- No two records share a byte. -/
def Spread (list : List Word) : Prop := ∀ task ∈ list, ∀ other ∈ list, task ≠ other → Apart task 156 other 156

def Mirrors (list : List Word) (memory : Mem) (tasks : Word → Task) : Prop :=
  ∀ task ∈ list, view memory task = core (tasks task)

/-- The next fields do not lead out of the list. -/
def Closed (list : List Word) (tasks : Word → Task) : Prop :=
  ∀ task ∈ list, (tasks task).next = 0 ∨ (tasks task).next ∈ list

section mirrors
variable {list : List Word} {memory other : Mem} {tasks : Word → Task} {task : Word} {record : Task}

theorem Mirrors.store (mirrors : Mirrors list memory tasks) (spread : Spread list) (member : task ∈ list)
    (same : SameOutside (Within task 156) memory other) (stored : view other task = core record) :
    Mirrors list other (Function.update tasks task record) := by
  intro item inside
  by_cases here : item = task
  · rw [here, Function.update_self, stored]
  · rw [Function.update_of_ne here, ← mirrors item inside]
    exact view_congr fun x own => same x (spread item inside task member here x own)

theorem Mirrors.next (mirrors : Mirrors list memory tasks) (member : task ∈ list) :
    field memory task .next = (tasks task).next :=
  congrArg Task.next (mirrors task member)

theorem Mirrors.state_iff {state : TaskState} (mirrors : Mirrors list memory tasks) (member : task ∈ list)
    (named : state ≠ .stopped) : field memory task .state = code state ↔ (tasks task).state = state := by
  rw [SchedulerRecords.state_iff named, mirrors task member]
  rfl

theorem Mirrors.countDown (mirrors : Mirrors list memory tasks) (spread : Spread list) (member : task ∈ list) :
    Mirrors list (TaskRecords.countDown memory task) (Function.update tasks task (Tasks.countDown (tasks task))) := by
  apply mirrors.store spread member (countDown_outside memory task)
  rw [view_countDown, mirrors task member, core_countDown]

theorem Mirrors.preferred_iff {next : Word} (mirrors : Mirrors list memory tasks) (member : task ∈ list)
    (candidate : next = 0 ∨ next ∈ list) : preferred memory next task ↔ Tasks.preferred tasks next task := by
  have priority : ∀ item ∈ list, field memory item .priority = (tasks item).priority := fun item inside =>
    congrArg Task.priority (mirrors item inside)
  unfold preferred Tasks.preferred Tasks.runnable
  rw [mirrors.state_iff member (by decide), mirrors.state_iff member (by decide), priority task member]
  rcases candidate with none | listed
  · simp [none]
  · rw [priority next listed]

theorem Closed.update (closed : Closed list tasks) (same : record.next = (tasks task).next) :
    Closed list (Function.update tasks task record) := by
  intro item member
  by_cases here : item = task
  · rw [here, Function.update_self, same, ← here]
    exact closed item member
  · rw [Function.update_of_ne here]
    exact closed item member

theorem closed_of_links {head : Word} (links : TaskList tasks head list) : Closed list tasks := by
  intro task member
  obtain ⟨before, after, split⟩ := List.append_of_mem member
  have chained := links.chained
  rw [split, segment_append] at chained
  have next : (tasks task).next = headKey id after 0 := chained.2.1
  rw [next, split]
  cases after with
  | nil => exact Or.inl rfl
  | cons first rest => exact Or.inr (by simp [headKey])

/-! The loops. -/

theorem timerLoop_mirrors (spread : Spread list) (fuel : Nat) {after : Mem} (mirrors : Mirrors list memory tasks)
    (closed : Closed list tasks) (inside : task = 0 ∨ task ∈ list)
    (returned : timerLoop fuel memory task = some after) :
    ∃ result, Tasks.timerLoop fuel tasks task = some result ∧ Mirrors list after result := by
  induction fuel generalizing memory tasks task with
  | zero => exact absurd returned.symm (Option.some_ne_none _)
  | succ fuel ih =>
    rw [timerLoop] at returned
    rw [Tasks.timerLoop]
    by_cases last : task = 0
    · rw [if_pos last] at returned ⊢
      exact ⟨tasks, rfl, Option.some.inj returned ▸ mirrors⟩
    · rw [if_neg last] at returned ⊢
      have member := inside.resolve_left last
      have counted := mirrors.countDown spread member
      have still := closed.update (countDown_next (tasks task))
      dsimp only at returned
      rw [counted.next member] at returned
      exact ih counted still (still task member) returned

theorem scheduleLoop_mirrors (spread : Spread list) (fuel : Nat) {after : Mem} {next found : Word}
    (mirrors : Mirrors list memory tasks) (closed : Closed list tasks) (inside : task = 0 ∨ task ∈ list)
    (candidate : next = 0 ∨ next ∈ list) (returned : scheduleLoop fuel memory task next = some (after, found)) :
    ∃ result, Tasks.scheduleLoop fuel tasks task next = some (result, found) ∧ Mirrors list after result ∧
      (found = 0 ∨ found ∈ list) := by
  induction fuel generalizing memory tasks task next with
  | zero => exact absurd returned.symm (Option.some_ne_none _)
  | succ fuel ih =>
    rw [scheduleLoop] at returned
    rw [Tasks.scheduleLoop]
    by_cases last : task = 0
    · rw [if_pos last, Option.some.injEq, Prod.mk.injEq] at returned
      obtain ⟨rfl, rfl⟩ := returned
      rw [if_pos last]
      exact ⟨tasks, rfl, mirrors, candidate⟩
    · rw [if_neg last] at returned ⊢
      have member := inside.resolve_left last
      have counted := mirrors.countDown spread member
      have still := closed.update (countDown_next (tasks task))
      dsimp only at returned ⊢
      rw [counted.next member] at returned
      have same := mirrors.preferred_iff member candidate
      refine ih counted still (still task member) ?_ (by simpa only [same] using returned)
      split
      · exact Or.inr member
      · exact candidate

end mirrors

theorem head_listed {tasks : Word → Task} {head : Word} {list : List Word} (links : TaskList tasks head list) :
    head = 0 ∨ head ∈ list := by
  rw [← links.entry]
  cases list with
  | nil => exact Or.inl rfl
  | cons first rest => exact Or.inr List.mem_cons_self

/-! The calls that make no task. -/

/-- The memory and the model have the same listed tasks and the same variables. -/
structure Agrees (list : List Word) (s : System) (t : Scheduler) : Prop where
  spread : Spread list
  tasks : Mirrors list s.mem t.tasks
  head : t.taskListHead = s.taskListHead
  current : t.currentTask = s.currentTask
  idle : t.idleTask = s.idleTask
  halted : t.halted = s.halted

section agrees
variable {list : List Word} {s after : System} {t : Scheduler} {memory : Mem} {task next value : Word}
  {record : Task} {regs : Switched} {fuel : Nat}

theorem Agrees.store (agrees : Agrees list s t) (member : task ∈ list)
    (same : SameOutside (Within task 156) s.mem memory) (stored : view memory task = core record) :
    Agrees list (s.write memory) (t.store task record) :=
  { agrees with tasks := agrees.tasks.store agrees.spread member same stored }

theorem Agrees.setField {name : Field} (agrees : Agrees list s t) (member : task ∈ list)
    (stored : view (TaskRecords.setField s.mem task name value) task = core record) :
    Agrees list (s.write (TaskRecords.setField s.mem task name value)) (t.store task record) :=
  agrees.store member (setField_outside s.mem task value name) stored

/-- Two fields of one record. -/
theorem Agrees.setFields {first second : Field} {other : Word} (agrees : Agrees list s t) (member : task ∈ list)
    (stored : view (TaskRecords.setField (TaskRecords.setField s.mem task first value) task second other) task =
      core record) :
    Agrees list ((s.write (TaskRecords.setField s.mem task first value)).write
      (TaskRecords.setField (TaskRecords.setField s.mem task first value) task second other)) (t.store task record) :=
  agrees.store member ((setField_outside s.mem task value first).trans (setField_outside _ task other second)) stored

theorem Agrees.setState {state : TaskState} (agrees : Agrees list s t) (member : task ∈ list) :
    Agrees list (s.write (TaskRecords.setField s.mem task .state (code state))) (t.setState task state) := by
  apply agrees.setField member
  rw [view_setField, agrees.tasks task member, stateOf_code]
  rfl

theorem preempt_agrees (agrees : Agrees list s t) (listed : t.currentTask = 0 ∨ t.currentTask ∈ list) :
    Agrees list (preempt s) (Tasks.preempt t) := by
  unfold preempt Tasks.preempt
  rw [agrees.current] at listed ⊢
  rcases listed with none | member
  · rw [if_neg fun both => both.1 none, if_neg fun both => both.1 none]
    exact agrees
  · have running : (s.currentTask ≠ 0 ∧ field s.mem s.currentTask .state = code .running) ↔
        s.currentTask ≠ 0 ∧ (t.tasks s.currentTask).state = .running :=
      and_congr_right fun _ => agrees.tasks.state_iff member (by decide)
    by_cases both : s.currentTask ≠ 0 ∧ field s.mem s.currentTask .state = code .running
    · rw [if_pos both, if_pos (running.mp both)]
      exact agrees.setState member
    · rw [if_neg both, if_neg (mt running.mpr both)]
      exact agrees

theorem taskSwitchContext_agrees (agrees : Agrees list s t) (member : task ∈ list) (regs : Switched) :
    Agrees list (taskSwitchContext task regs s) (Tasks.taskSwitchContext task regs t) := by
  unfold taskSwitchContext Tasks.taskSwitchContext
  apply agrees.store member
  · exact (setField_outside _ task _ _).trans ((setField_outside _ task _ _).trans
      ((setField_outside _ task _ _).trans ((setField_outside _ task _ _).trans
        ((setField_outside _ task _ _).trans (setField_outside _ task _ _)))))
  · simp only [view_setField]
    exact agrees.tasks task member

theorem switchTo_agrees (agrees : Agrees list s t) (listed : t.currentTask = 0 ∨ t.currentTask ∈ list)
    (member : next ∈ list) (regs : Switched) : Agrees list (switchTo next regs s) (Tasks.switchTo next regs t) := by
  have running : Agrees list (s.write (TaskRecords.setField s.mem next .state (code .running)))
      (t.setState next .running) := agrees.setState member
  have preempted := preempt_agrees running listed
  have former : (Tasks.preempt (t.setState next .running)).currentTask = t.currentTask :=
    (preempt_globals _).1
  have switched (directory other : Word) : Agrees list
      { preempt (s.write (TaskRecords.setField s.mem next .state (code .running))) with
        currentTask := next
        mm := { (preempt (s.write (TaskRecords.setField s.mem next .state (code .running)))).mm with
          currentDirectory := directory } }
      { Tasks.preempt (t.setState next .running) with currentTask := next, currentDirectory := other } :=
    { preempted with current := rfl }
  unfold switchTo Tasks.switchTo
  dsimp only
  rw [← preempted.current, former]
  by_cases none : t.currentTask = 0
  · rw [if_neg (not_not.mpr none), if_neg (not_not.mpr none)]
    exact switched _ _
  · rw [if_pos none, if_pos none]
    exact taskSwitchContext_agrees (switched _ _) (listed.resolve_left none) regs

/-- The model takes the same decision. -/
theorem taskSchedule_agrees (agrees : Agrees list s t) (links : TaskList t.tasks t.taskListHead list)
    (listed : t.currentTask = 0 ∨ t.currentTask ∈ list) (idle : t.idleTask = 0)
    (returned : taskSchedule fuel regs s = .ok after) :
    ∃ result, Tasks.taskSchedule fuel regs t = some result ∧ Agrees list after result := by
  rw [taskSchedule] at returned
  cases walked : scheduleLoop fuel s.mem s.taskListHead 0 with
  | none =>
    rw [walked] at returned
    exact absurd returned (by simp)
  | some pair =>
    obtain ⟨memory, found⟩ := pair
    rw [walked] at returned
    rw [← agrees.head] at walked
    obtain ⟨tasks, same, mirrors, candidate⟩ := scheduleLoop_mirrors agrees.spread fuel agrees.tasks
      (closed_of_links links) (head_listed links) (Or.inl rfl) walked
    have passed : Agrees list (s.write memory) { t with tasks := tasks } := { agrees with tasks := mirrors }
    rw [Tasks.taskSchedule, same]
    dsimp only at returned ⊢
    have fallback (other : Word) (none : other = 0) : (if found = 0 then other else found) = found := by
      split
      · next zero => rw [none, zero]
      · rfl
    have current : (s.write memory).currentTask = t.currentTask := agrees.current.symm
    rw [fallback (s.write memory).idleTask (agrees.idle.symm.trans idle)] at returned
    rw [fallback _ idle]
    by_cases none : found = 0
    · rw [if_pos none, Except.ok.injEq] at returned
      rw [if_pos none]
      exact ⟨_, rfl, returned ▸ { passed with halted := rfl }⟩
    · rw [if_neg none] at returned ⊢
      by_cases kept : found = t.currentTask
      · rw [if_pos (kept.trans current.symm), Except.ok.injEq] at returned
        rw [if_pos kept]
        exact ⟨_, rfl, returned ▸ passed⟩
      · rw [if_neg fun same => kept (same.trans current), Except.ok.injEq] at returned
        rw [if_neg kept]
        exact ⟨_, rfl, returned ▸ switchTo_agrees passed listed (candidate.resolve_left none) regs⟩

theorem taskWake_agrees (agrees : Agrees list s t) (member : task ∈ list) :
    Agrees list (taskWake task s) (Tasks.taskWake task t) := by
  have asleep : field s.mem task .state = code .sleeping ↔ (t.tasks task).state = .sleeping :=
    agrees.tasks.state_iff member (by decide)
  unfold taskWake Tasks.taskWake
  by_cases sleeps : field s.mem task .state = code .sleeping
  · rw [if_pos sleeps, if_pos (asleep.mp sleeps)]
    apply agrees.setFields member
    simp only [view_setField, stateOf_code]
    rw [agrees.tasks task member]
    rfl
  · rw [if_neg sleeps, if_neg (mt asleep.mpr sleeps)]
    exact agrees

theorem timerHandler_agrees (agrees : Agrees list s t) (links : TaskList t.tasks t.taskListHead list)
    (returned : timerHandler fuel s = .ok after) :
    ∃ result, Tasks.timerHandler fuel t = some result ∧ Agrees list after result := by
  rw [timerHandler] at returned
  dsimp only at returned
  cases walked : timerLoop fuel s.mem s.taskListHead with
  | none =>
    have stuck : timerLoop fuel ({ s with timerTicks := s.timerTicks + 1 } : System).mem s.taskListHead = none := walked
    rw [stuck] at returned
    exact absurd returned (by simp)
  | some memory =>
    have passed : timerLoop fuel ({ s with timerTicks := s.timerTicks + 1 } : System).mem s.taskListHead =
      some memory := walked
    rw [passed, Except.ok.injEq] at returned
    rw [← agrees.head] at walked
    obtain ⟨tasks, same, mirrors⟩ :=
      timerLoop_mirrors agrees.spread fuel agrees.tasks (closed_of_links links) (head_listed links) walked
    rw [Tasks.timerHandler, same]
    exact ⟨_, rfl, returned ▸ { agrees with tasks := mirrors }⟩

section calls
variable (agrees : Agrees list s t) (links : TaskList t.tasks t.taskListHead list)
  (listed : t.currentTask = 0 ∨ t.currentTask ∈ list) (idle : t.idleTask = 0)
include agrees links listed idle

theorem taskExit_agrees {exitCode : Word} (returned : taskExit fuel exitCode regs s = .ok after) :
    ∃ result, Tasks.taskExit fuel exitCode regs t = some result ∧ Agrees list after result := by
  rw [taskExit] at returned
  simp only [System.write_mem, System.write_currentTask, ← agrees.current] at returned
  rw [Tasks.taskExit]
  by_cases none : t.currentTask = 0
  · rw [if_pos none, Except.ok.injEq] at returned
    rw [if_pos none]
    exact ⟨t, rfl, returned ▸ agrees⟩
  · rw [if_neg none] at returned ⊢
    have member := listed.resolve_left none
    refine taskSchedule_agrees (agrees.setFields member ?_) (links.store rfl) listed idle returned
    simp only [view_setField, stateOf_code]
    rw [agrees.tasks _ member]
    rfl

theorem taskSleep_agrees {ticks : Word} (returned : taskSleep fuel ticks regs s = .ok after) :
    ∃ result, Tasks.taskSleep fuel ticks regs t = some result ∧ Agrees list after result := by
  rw [taskSleep] at returned
  simp only [System.write_mem, System.write_currentTask, ← agrees.current] at returned
  rw [Tasks.taskSleep]
  by_cases none : t.currentTask = 0
  · rw [if_pos none, Except.ok.injEq] at returned
    rw [if_pos none]
    exact ⟨t, rfl, returned ▸ agrees⟩
  · rw [if_neg none] at returned ⊢
    have member := listed.resolve_left none
    refine taskSchedule_agrees (agrees.setFields member ?_) (links.store rfl) listed idle returned
    simp only [view_setField, stateOf_code]
    rw [agrees.tasks _ member]
    rfl

end calls

end agrees

end Vaelen.Kernel.SchedulerRecords
