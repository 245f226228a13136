import Vaelen.Kernel.SchedulerPasses

/-!
The states of the listed tasks over any run of the scheduler: only current_task is
running, and a zombie is never scheduled again.
-/

namespace Vaelen.Kernel.SchedulerStates
open Vaelen.Base Platform Tasks SchedulerPasses

def Listed (s : Scheduler) (task : Word) : Prop :=
  ∃ list, TaskList s.tasks s.taskListHead list ∧ task ∈ list

/-- kmalloc returns a block that holds no listed task, and task_wake is called on one. -/
def Admissible (s : Scheduler) : Call → Prop
  | .taskCreate _ _ _ allocated => allocated.task ≠ 0 ∧ ¬Listed s allocated.task
  | .taskFork allocated => allocated.task ≠ 0 ∧ ¬Listed s allocated.task
  | .taskWake task => Listed s task
  | _ => True

/-- One call run to completion. Once halted only the timer interrupt runs. -/
def Step (s : Scheduler) (op : Call) (t : Scheduler) : Prop :=
  (s.halted = true → op = .timerHandler) ∧ Admissible s op ∧ ∃ fuel, call fuel s op = some t

/-- Between two calls. -/
structure Scheduled (s : Scheduler) (list : List Word) : Prop where
  links : TaskList s.tasks s.taskListHead list
  idle : s.idleTask = 0
  listed : s.currentTask ≠ 0 → s.currentTask ∈ list
  single : ∀ task ∈ list, (s.tasks task).state = .running → task = s.currentTask
  active : s.halted = false → s.currentTask ≠ 0 → (s.tasks s.currentTask).state = .running

/-- On entry to task_schedule the current task may already be asleep or a zombie. -/
structure Entering (s : Scheduler) (list : List Word) : Prop where
  links : TaskList s.tasks s.taskListHead list
  idle : s.idleTask = 0
  listed : s.currentTask ≠ 0 → s.currentTask ∈ list
  single : ∀ task ∈ list, (s.tasks task).state = .running → task = s.currentTask
  unready : s.currentTask ≠ 0 → (s.tasks s.currentTask).state ≠ .ready

variable {s t : Scheduler} {list : List Word} {fuel : Nat} {regs : Switched} {op : Call}

theorem listed_iff (links : TaskList s.tasks s.taskListHead list) (task : Word) :
    Listed s task ↔ task ∈ list := by
  constructor
  · intro ⟨same, also, member⟩
    rwa [links.unique also]
  · intro member
    exact ⟨list, links, member⟩

theorem Scheduled.entering (scheduled : Scheduled s list) (live : s.halted = false) :
    Entering s list where
  links := scheduled.links
  idle := scheduled.idle
  listed := scheduled.listed
  single := scheduled.single
  unready := by
    intro present
    rw [scheduled.active live present]
    exact TaskState.noConfusion

/-- The current task parked, as task_exit and task_sleep do before they schedule. -/
theorem Scheduled.park (scheduled : Scheduled s list) {task : Task}
    (next : task.next = (s.tasks s.currentTask).next) (parked : ¬runnable task) :
    Entering (s.store s.currentTask task) list where
  links := scheduled.links.store next
  idle := scheduled.idle
  listed := scheduled.listed
  single := by
    intro addr member running
    rw [store_tasks] at running
    by_cases here : addr = s.currentTask
    · exact here
    · rw [Function.update_of_ne here] at running
      exact scheduled.single addr member running
  unready := by
    intro _ ready
    rw [store_tasks, store_currentTask, Function.update_self] at ready
    exact parked (Or.inl ready)

theorem countAll_running (tasks : Word → Task) (list : List Word) (addr : Word) :
    (countAll tasks list addr).state = .running ↔ (tasks addr).state = .running := by
  unfold countAll
  split
  · exact countDown_running _
  · rfl

/-- The states after a switch away from the current task. -/
theorem switched_state {next : Word} (different : next ≠ s.currentTask) (addr : Word) :
    ((switchTo next regs (passed s list)).tasks addr).state =
      if addr = next then .running
      else if addr = s.currentTask ∧ s.currentTask ≠ 0 ∧
          (countAll s.tasks list addr).state = .running then .ready
      else (countAll s.tasks list addr).state :=
  switchTo_state next regs (passed s list) different addr

theorem switched_sleepTicks (next addr : Word) :
    ((switchTo next regs (passed s list)).tasks addr).sleepTicks =
      (countAll s.tasks list addr).sleepTicks :=
  switchTo_sleepTicks next regs (passed s list) addr

/-- A task that is listed but not runnable on entry is counted down and not chosen. -/
theorem Entering.dormant (entering : Entering s list)
    (returned : taskSchedule fuel regs s = some t) {addr : Word} (member : addr ∈ list)
    (dormant : ¬runnable (s.tasks addr)) :
    (t.tasks addr).state = (countDown (s.tasks addr)).state ∧
      (t.tasks addr).sleepTicks = (countDown (s.tasks addr)).sleepTicks ∧
      (t.currentTask = addr → s.currentTask = addr) := by
  have counted : countAll s.tasks list addr = countDown (s.tasks addr) := countAll_mem member
  rcases taskSchedule_cases entering.links entering.idle returned with
    ⟨_, rfl⟩ | ⟨_, _, rfl⟩ | ⟨some, different, rfl⟩
  · exact ⟨congrArg Task.state counted, congrArg Task.sleepTicks counted, id⟩
  · exact ⟨congrArg Task.state counted, congrArg Task.sleepTicks counted, id⟩
  · have unchosen : addr ≠ choose s.tasks list 0 := by
      intro same
      rcases choose_cases s.tasks list 0 with none | ⟨_, ready⟩
      · exact some none
      · exact dormant (same ▸ ready)
    have resting : (countAll s.tasks list addr).state ≠ .running := by
      rw [counted, Ne, countDown_running]
      exact fun running => dormant (Or.inr running)
    refine ⟨?_, ?_, fun same => absurd (same.symm.trans (switchTo_globals _ _ _).1) unchosen⟩
    · rw [switched_state different, if_neg unchosen, if_neg fun both => resting both.2.2, counted]
    · rw [switched_sleepTicks, counted]

/-- A current task that went to sleep or exited is not kept. -/
theorem Entering.leaves (entering : Entering s list)
    (returned : taskSchedule fuel regs s = some t) (dormant : ¬runnable (s.tasks s.currentTask))
    (live : t.halted = false) : t.currentTask ≠ s.currentTask := by
  rcases taskSchedule_cases entering.links entering.idle returned with
    ⟨_, rfl⟩ | ⟨some, same, _⟩ | ⟨_, different, rfl⟩
  · exact Bool.noConfusion live
  · rcases choose_cases s.tasks list 0 with none | ⟨_, ready⟩
    · exact absurd none some
    · exact absurd (same ▸ ready) dormant
  · rw [(switchTo_globals _ _ _).1]
    exact different

/-- task_schedule leaves the chosen task, and only it, running. -/
theorem Entering.scheduled (entering : Entering s list)
    (returned : taskSchedule fuel regs s = some t) : Scheduled t list := by
  have links : TaskList (countAll s.tasks list) s.taskListHead list :=
    entering.links.congr fun addr _ => countAll_next s.tasks list addr
  have single : ∀ task ∈ list, (countAll s.tasks list task).state = .running →
      task = s.currentTask := fun task member running =>
    entering.single task member ((countAll_running s.tasks list task).mp running)
  rcases taskSchedule_cases entering.links entering.idle returned with
    ⟨_, rfl⟩ | ⟨some, same, rfl⟩ | ⟨some, different, rfl⟩
  · exact ⟨links, entering.idle, entering.listed, single, fun live => Bool.noConfusion live⟩
  · refine ⟨links, entering.idle, entering.listed, single, fun _ present => ?_⟩
    rw [passed, countAll_running]
    rcases choose_cases s.tasks list 0 with none | ⟨_, ready⟩
    · exact absurd none some
    · rw [same] at ready
      exact ready.resolve_left (entering.unready present)
  · obtain ⟨current, head, idle, _⟩ := switchTo_globals (choose s.tasks list 0) regs
      (passed s list)
    have member : choose s.tasks list 0 ∈ list := by
      rcases choose_cases s.tasks list 0 with none | ⟨member, _⟩
      · exact absurd none some
      · exact member
    refine ⟨?_, idle.trans entering.idle, fun _ => current.symm ▸ member, ?_, fun _ _ => ?_⟩
    · rw [head]
      exact links.congr fun addr _ => switchTo_next _ _ _ addr
    · intro task inside running
      rw [current]
      by_contra other
      rw [switched_state different, if_neg other] at running
      split at running
      · exact TaskState.noConfusion running
      · next resumed =>
        have here := single task inside running
        have present : s.currentTask ≠ 0 := by
          rw [← here]
          exact fun zero => entering.links.present (zero ▸ inside)
        exact resumed ⟨here, present, running⟩
    · rw [current, switched_state different, if_pos rfl]

/-! One call. -/

/-- The calls that pass over the list and count every sleeper down. -/
def counts : Call → Bool
  | .taskExit _ _ => true
  | .taskYield _ => true
  | .taskSleep _ _ => true
  | .timerHandler => true
  | _ => false

/-- What task_exit and task_sleep write before they schedule. -/
def park (s : Scheduler) : Call → Scheduler
  | .taskExit code _ =>
      s.store s.currentTask { s.tasks s.currentTask with state := .zombie, exitCode := code }
  | .taskSleep ticks _ =>
      s.store s.currentTask { s.tasks s.currentTask with state := .sleeping, sleepTicks := ticks }
  | _ => s

theorem park_exit (s : Scheduler) (code : Word) (regs : Switched) :
    (park s (.taskExit code regs)).tasks s.currentTask =
      { s.tasks s.currentTask with state := .zombie, exitCode := code } :=
  Function.update_self _ _ _

theorem park_sleep (s : Scheduler) (n : Word) (regs : Switched) :
    (park s (.taskSleep n regs)).tasks s.currentTask =
      { s.tasks s.currentTask with state := .sleeping, sleepTicks := n } :=
  Function.update_self _ _ _

theorem park_other {s : Scheduler} {addr : Word} (other : addr ≠ s.currentTask) (op : Call) :
    (park s op).tasks addr = s.tasks addr := by
  cases op with
  | taskExit code regs => exact Function.update_of_ne other _ _
  | taskSleep n regs => exact Function.update_of_ne other _ _
  | _ => rfl

@[simp] theorem park_currentTask (s : Scheduler) (op : Call) :
    (park s op).currentTask = s.currentTask := by
  cases op <;> rfl

/-- What one call can do to the listed tasks. -/
inductive Effect (s : Scheduler) (list : List Word) (op : Call) : Scheduler → List Word → Prop
  | nothing (idle : counts op = true → s.currentTask = 0) : Effect s list op s list
  | pushed {t : Scheduler} {addr : Word} {task : Task} (rests : counts op = false)
      (present : addr ≠ 0) (fresh : addr ∉ list) (ready : task.state = .ready)
      (next : task.next = s.taskListHead) (tasks : t.tasks = Function.update s.tasks addr task)
      (head : t.taskListHead = addr) (current : t.currentTask = s.currentTask)
      (idle : t.idleTask = s.idleTask) (halted : t.halted = s.halted) :
      Effect s list op t (addr :: list)
  | woken {addr : Word} (wakes : op = .taskWake addr) (live : s.halted = false)
      (asleep : (s.tasks addr).state = .sleeping) :
      Effect s list op
        (s.store addr { s.tasks addr with state := .ready, sleepTicks := 0 }) list
  | counted (tick : op = .timerHandler) :
      Effect s list op { passed s list with timerTicks := s.timerTicks + 1 } list
  | scheduled {t : Scheduler} {fuel : Nat} {regs : Switched} (passes : counts op = true)
      (live : s.halted = false) (entering : Entering (park s op) list)
      (returned : taskSchedule fuel regs (park s op) = some t) : Effect s list op t list

theorem park_entering (scheduled : Scheduled s list) (live : s.halted = false)
    (op : Call) : Entering (park s op) list := by
  cases op with
  | taskExit code regs => exact scheduled.park rfl (by simp [runnable])
  | taskSleep ticks regs => exact scheduled.park rfl (by simp [runnable])
  | _ => exact scheduled.entering live

theorem step_effect (scheduled : Scheduled s list) (step : Step s op t) :
    ∃ after, Effect s list op t after := by
  obtain ⟨only, admissible, fuel, returned⟩ := step
  have live : op ≠ .timerHandler → s.halted = false := fun other =>
    Bool.eq_false_iff.mpr fun halted => other (only halted)
  cases op with
  | taskCreate name entry priority allocated =>
    obtain ⟨present, fresh⟩ := admissible
    rw [listed_iff scheduled.links] at fresh
    cases returned
    exact ⟨_, .pushed rfl present fresh rfl rfl rfl rfl rfl rfl rfl⟩
  | taskFork allocated =>
    obtain ⟨present, fresh⟩ := admissible
    rw [listed_iff scheduled.links] at fresh
    simp only [call, taskFork] at returned
    by_cases none : s.currentTask = 0
    · rw [if_pos none] at returned
      cases returned
      exact ⟨list, .nothing fun _ => none⟩
    · rw [if_neg none] at returned
      cases returned
      exact ⟨_, .pushed rfl present fresh rfl rfl rfl rfl rfl rfl rfl⟩
  | taskExit code regs =>
    simp only [call, taskExit] at returned
    by_cases none : s.currentTask = 0
    · rw [if_pos none] at returned
      cases returned
      exact ⟨list, .nothing fun _ => none⟩
    · rw [if_neg none] at returned
      exact ⟨list, .scheduled rfl (live nofun) (park_entering scheduled (live nofun) _) returned⟩
  | taskYield regs =>
    exact ⟨list, .scheduled rfl (live nofun) (park_entering scheduled (live nofun) _) returned⟩
  | taskSleep ticks regs =>
    simp only [call, taskSleep] at returned
    by_cases none : s.currentTask = 0
    · rw [if_pos none] at returned
      cases returned
      exact ⟨list, .nothing fun _ => none⟩
    · rw [if_neg none] at returned
      exact ⟨list, .scheduled rfl (live nofun) (park_entering scheduled (live nofun) _) returned⟩
  | taskWake task =>
    simp only [call, taskWake] at returned
    by_cases asleep : (s.tasks task).state = .sleeping
    · rw [if_pos asleep] at returned
      cases returned
      exact ⟨list, .woken rfl (live nofun) asleep⟩
    · rw [if_neg asleep] at returned
      cases returned
      exact ⟨list, .nothing nofun⟩
  | timerHandler =>
    simp only [call, timerHandler, scheduled.links.timerLoop] at returned
    by_cases enough : list.length < fuel
    · rw [if_pos enough] at returned
      cases returned
      exact ⟨list, .counted rfl⟩
    · rw [if_neg enough] at returned
      exact absurd returned nofun

theorem Effect.invariant {after : List Word} (effect : Effect s list op t after)
    (scheduled : Scheduled s list) : Scheduled t after ∧ list ⊆ after := by
  cases effect with
  | nothing idle => exact ⟨scheduled, List.Subset.refl list⟩
  | @pushed t addr task rests present fresh ready next tasks head current idle halted =>
    refine ⟨⟨?_, idle.trans scheduled.idle, ?_, ?_, ?_⟩, List.subset_cons_self addr list⟩
    · rw [tasks, head]
      exact scheduled.links.push present fresh next
    · intro some
      rw [current] at some ⊢
      exact List.mem_cons_of_mem addr (scheduled.listed some)
    · intro other member running
      rw [tasks] at running
      by_cases here : other = addr
      · rw [here, Function.update_self, ready] at running
        exact TaskState.noConfusion running
      · rw [Function.update_of_ne here] at running
        rw [current]
        exact scheduled.single other ((List.mem_cons.mp member).resolve_left here) running
    · intro live some
      rw [halted] at live
      rw [current] at some
      have other : s.currentTask ≠ addr := fun same => fresh (same ▸ scheduled.listed some)
      rw [tasks, current, Function.update_of_ne other]
      exact scheduled.active live some
  | @woken addr wakes live asleep =>
    refine ⟨⟨?_, scheduled.idle, scheduled.listed, ?_, ?_⟩, List.Subset.refl list⟩
    · exact scheduled.links.store rfl
    · intro other member running
      rw [store_tasks] at running
      by_cases here : other = addr
      · rw [here, Function.update_self] at running
        exact TaskState.noConfusion running
      · rw [Function.update_of_ne here] at running
        exact scheduled.single other member running
    · intro _ some
      have active := scheduled.active live some
      have other : s.currentTask ≠ addr := by
        intro same
        rw [same, asleep] at active
        exact TaskState.noConfusion active
      rw [store_tasks, store_currentTask, Function.update_of_ne other]
      exact active
  | counted tick =>
    refine ⟨⟨?_, scheduled.idle, scheduled.listed, ?_, ?_⟩, List.Subset.refl list⟩
    · exact scheduled.links.congr fun addr _ => countAll_next s.tasks list addr
    · intro addr member running
      exact scheduled.single addr member ((countAll_running s.tasks list addr).mp running)
    · intro live some
      exact (countAll_running s.tasks list s.currentTask).mpr (scheduled.active live some)
  | scheduled passes live entering returned =>
    exact ⟨entering.scheduled returned, List.Subset.refl list⟩

/-- Once a task has been scheduled there always is a current task, and halting is final. -/
theorem Effect.present {after : List Word} (effect : Effect s list op t after)
    (some : s.currentTask ≠ 0) :
    t.currentTask ≠ 0 ∧ (t.halted = false → s.halted = false) := by
  cases effect with
  | nothing idle => exact ⟨some, id⟩
  | pushed rests present fresh ready next tasks head current idle halted =>
    exact ⟨current.symm ▸ some, halted.symm.trans⟩
  | woken wakes live asleep => exact ⟨some, id⟩
  | counted tick => exact ⟨some, id⟩
  | scheduled passes live entering returned =>
    have same := park_currentTask s op
    refine ⟨?_, fun _ => live⟩
    rcases taskSchedule_cases entering.links entering.idle returned with
      ⟨_, rfl⟩ | ⟨_, _, rfl⟩ | ⟨chosen, _, rfl⟩
    · exact same.symm ▸ some
    · exact same.symm ▸ some
    · rw [(switchTo_globals _ _ _).1]
      exact chosen

theorem step_scheduled (scheduled : Scheduled s list) (step : Step s op t) :
    ∃ after, Scheduled t after ∧ list ⊆ after := by
  obtain ⟨after, effect⟩ := step_effect scheduled step
  exact ⟨after, effect.invariant scheduled⟩

/-- Every call runs to completion once the fuel covers the list. -/
theorem call_returns (scheduled : Scheduled s list) (op : Call) :
    ∃ t, call (list.length + 1) s op = some t := by
  have enough : list.length < list.length + 1 := Nat.lt_succ_self _
  cases op with
  | taskCreate name entry priority allocated => exact ⟨_, rfl⟩
  | taskFork allocated => exact ⟨_, rfl⟩
  | taskWake task => exact ⟨_, rfl⟩
  | taskYield regs => exact taskSchedule_returns scheduled.links enough regs
  | taskExit code regs =>
    simp only [call, taskExit]
    by_cases none : s.currentTask = 0
    · rw [if_pos none]
      exact ⟨s, rfl⟩
    · rw [if_neg none]
      refine taskSchedule_returns (scheduled.links.store ?_) enough regs
      rfl
  | taskSleep ticks regs =>
    simp only [call, taskSleep]
    by_cases none : s.currentTask = 0
    · rw [if_pos none]
      exact ⟨s, rfl⟩
    · rw [if_neg none]
      refine taskSchedule_returns (scheduled.links.store ?_) enough regs
      rfl
  | timerHandler =>
    simp only [call, timerHandler, scheduled.links.timerLoop, if_pos enough]
    exact ⟨_, rfl⟩

theorem step_of_call (live : s.halted = false) (admissible : Admissible s op)
    (returned : call fuel s op = some t) : Step s op t :=
  ⟨fun halted => absurd (live.symm.trans halted) (by decide), admissible, fuel, returned⟩

/-! Tasks that wait. -/

/-- The part of a task that says whether and how long it still sleeps. -/
def SameSleep (task other : Task) : Prop :=
  task.state = other.state ∧ task.sleepTicks = other.sleepTicks

/-- A task that neither runs nor is ready is counted down by the calls that pass over the list,
left alone by the others, and not scheduled. -/
theorem Effect.bystander {after : List Word} (effect : Effect s list op t after) {addr : Word}
    (member : addr ∈ list) (dormant : ¬runnable (s.tasks addr))
    (other : s.halted = false → s.currentTask ≠ addr)
    (unwoken : op = .taskWake addr → (s.tasks addr).state ≠ .sleeping) :
    (t.currentTask = addr → s.currentTask = addr) ∧
      ((counts op = true → s.currentTask = 0) ∧ SameSleep (t.tasks addr) (s.tasks addr) ∨
        counts op = true ∧ SameSleep (t.tasks addr) (countDown (s.tasks addr))) := by
  cases effect with
  | nothing idle => exact ⟨id, Or.inl ⟨idle, rfl, rfl⟩⟩
  | @pushed t pushed task rests present fresh ready next tasks head current idle halted =>
    have elsewhere : addr ≠ pushed := fun same => fresh (same ▸ member)
    have same : t.tasks addr = s.tasks addr := by
      rw [tasks, Function.update_of_ne elsewhere]
    refine ⟨current.symm.trans, Or.inl ⟨fun passes => ?_, same ▸ ⟨rfl, rfl⟩⟩⟩
    rw [rests] at passes
    exact Bool.noConfusion passes
  | @woken woken wakes live asleep =>
    have elsewhere : addr ≠ woken := by
      intro same
      rw [← same] at wakes asleep
      exact unwoken wakes asleep
    refine ⟨id, Or.inl ⟨fun passes => ?_, ?_⟩⟩
    · rw [wakes] at passes
      exact Bool.noConfusion passes
    · rw [store_tasks, Function.update_of_ne elsewhere]
      exact ⟨rfl, rfl⟩
  | counted tick =>
    refine ⟨id, Or.inr ⟨tick ▸ rfl, ?_⟩⟩
    change SameSleep (countAll s.tasks list addr) _
    rw [countAll_mem member]
    exact ⟨rfl, rfl⟩
  | scheduled passes live entering returned =>
    have parked := park_other (Ne.symm (other live)) op
    obtain ⟨state, ticks, current⟩ := entering.dormant returned member (parked.symm ▸ dormant)
    rw [parked] at state ticks
    rw [park_currentTask] at current
    exact ⟨current, Or.inr ⟨passes, state, ticks⟩⟩

/-- A zombie that is not the current task. -/
def Buried (task : Word) (s : Scheduler) : Prop :=
  ∃ list, Scheduled s list ∧ task ∈ list ∧ (s.tasks task).state = .zombie ∧ s.currentTask ≠ task

theorem step_buried {task : Word} (buried : Buried task s) (step : Step s op t) :
    Buried task t := by
  obtain ⟨list, scheduled, member, zombie, other⟩ := buried
  obtain ⟨after, effect⟩ := step_effect scheduled step
  obtain ⟨next, kept⟩ := effect.invariant scheduled
  have dormant : ¬runnable (s.tasks task) := by
    rw [runnable, zombie]
    exact nofun
  obtain ⟨elsewhere, same⟩ := effect.bystander member dormant (fun _ => other)
    fun _ asleep => TaskState.noConfusion (zombie.symm.trans asleep)
  have awake : countDown (s.tasks task) = s.tasks task := countDown_awake _ fun asleep =>
    TaskState.noConfusion (zombie.symm.trans asleep)
  refine ⟨after, next, kept member, ?_, other ∘ elsewhere⟩
  rcases same with ⟨_, state, _⟩ | ⟨_, state, _⟩
  · exact state.trans zombie
  · rw [awake] at state
    exact state.trans zombie

theorem run_buried {task : Word} {later : List Call} (buried : Buried task s)
    (run : Runs Step s later t) : Buried task t :=
  run.invariant buried fun _ _ _ buried step => step_buried buried step

/-! Runs from task_init. -/

theorem start_scheduled (tasks : Word → Task) (timerTicks currentDirectory : Word) :
    Scheduled (start tasks timerTicks currentDirectory) [] where
  links := ⟨rfl, trivial, List.not_mem_nil, List.nodup_nil⟩
  idle := rfl
  listed some := absurd rfl some
  single _ member := absurd member List.not_mem_nil
  active _ some := absurd rfl some

theorem run_scheduled {ops : List Call} (scheduled : Scheduled s list) (run : Runs Step s ops t) :
    ∃ after, Scheduled t after := by
  induction run generalizing list with
  | done s => exact ⟨list, scheduled⟩
  | next step _ ih =>
    obtain ⟨after, next, _⟩ := step_scheduled scheduled step
    exact ih next

/-- Two tasks created at the addresses `first` and `second`. -/
def twoTasks (first second : Word) : Scheduler :=
  taskCreate [] 0 5 ⟨second, 0, 0, 0⟩
    (taskCreate [] 0 5 ⟨first, 0, 0, 0⟩ (start (fun _ => Task.zero) 0 0))

theorem run_twoTasks {first second : Word} (present : first ≠ 0) (also : second ≠ 0)
    (distinct : second ≠ first) :
    Runs Step (start (fun _ => Task.zero) 0 0)
      [.taskCreate [] 0 5 ⟨first, 0, 0, 0⟩, .taskCreate [] 0 5 ⟨second, 0, 0, 0⟩]
      (twoTasks first second) := by
  have empty := (start_scheduled (fun _ => Task.zero) 0 0).links
  have single : TaskList (taskCreate [] 0 5 ⟨first, 0, 0, 0⟩ (start (fun _ => Task.zero) 0 0)).tasks
      first [first] := empty.push present List.not_mem_nil rfl
  refine Runs.next ⟨nofun, ⟨present, fun listed => ?_⟩, 0, rfl⟩
    (Runs.next ⟨nofun, ⟨also, fun listed => ?_⟩, 0, rfl⟩ (Runs.done _))
  · exact List.not_mem_nil ((listed_iff empty _).mp listed)
  · exact distinct (List.mem_singleton.mp ((listed_iff single _).mp listed))

/-- In every state that has not halted at most one listed task runs, it is current_task,
which is listed, and a zombie stays one and never becomes current_task again. -/
theorem run_states (tasks : Word → Task) (timerTicks currentDirectory : Word) (ops : List Call)
    (s : Scheduler) (run : Runs Step (start tasks timerTicks currentDirectory) ops s)
    (live : s.halted = false) :
    ∃ list, TaskList s.tasks s.taskListHead list ∧
      (∀ task ∈ list, ∀ other ∈ list, (s.tasks task).state = .running →
        (s.tasks other).state = .running → task = other) ∧
      (∀ task ∈ list, (s.tasks task).state = .running → task = s.currentTask) ∧
      (s.currentTask ≠ 0 → s.currentTask ∈ list) ∧
      ∀ task ∈ list, (s.tasks task).state = .zombie →
        s.currentTask ≠ task ∧ ∀ later t, Runs Step s later t →
          (t.tasks task).state = .zombie ∧ t.currentTask ≠ task := by
  obtain ⟨list, scheduled⟩ := run_scheduled (start_scheduled tasks timerTicks currentDirectory) run
  refine ⟨list, scheduled.links, ?_, scheduled.single, scheduled.listed, ?_⟩
  · intro task member other also running runs
    exact (scheduled.single task member running).trans (scheduled.single other also runs).symm
  · intro task member zombie
    have other : s.currentTask ≠ task := by
      intro same
      have present : s.currentTask ≠ 0 := by
        rw [same]
        exact fun zero => scheduled.links.present (zero ▸ member)
      have active := scheduled.active live present
      rw [same, zombie] at active
      exact TaskState.noConfusion active
    refine ⟨other, fun later t rest => ?_⟩
    obtain ⟨_, _, _, stays, elsewhere⟩ :=
      run_buried ⟨list, scheduled, member, zombie, other⟩ rest
    exact ⟨stays, elsewhere⟩

end Vaelen.Kernel.SchedulerStates
