import Vaelen.Kernel.SchedulerChoice

/-!
Strict priorities over whole runs. A task with a runnable one of greater priority in the list waits
for as long as that one neither exits nor sleeps, whatever the other tasks and the timer do.
-/

namespace Vaelen.Kernel.SchedulerStarvation
open Vaelen.Base Platform Tasks SchedulerPasses SchedulerStates SchedulerChoice

/-- The calls by which the current task stops being runnable. -/
def rests : Call → Bool
  | .taskExit _ _ | .taskSleep _ _ => true
  | _ => false

/-- `low` waits behind `high`. -/
structure Waits (high low : Word) (s : Scheduler) : Prop where
  listed : Listed s high
  ready : runnable (s.tasks high)
  also : Listed s low
  below : priorityOf s.tasks low < priorityOf s.tasks high
  other : s.currentTask ≠ low

variable {s t : Scheduler} {list after : List Word} {op : Call} {high low addr : Word} {fuel : Nat}
  {regs : Switched}

/-! One call. -/

theorem park_priority (s : Scheduler) (op : Call) (addr : Word) :
    ((park s op).tasks addr).priority = (s.tasks addr).priority := by
  by_cases here : addr = s.currentTask
  · rw [here]
    cases op with
    | taskExit code regs => rw [park_exit]
    | taskSleep ticks regs => rw [park_sleep]
    | _ => rfl
  · rw [park_other here]

theorem park_runnable (busy : s.currentTask = addr → rests op = false) (ready : runnable (s.tasks addr)) :
    runnable ((park s op).tasks addr) := by
  by_cases here : addr = s.currentTask
  · have stays := busy here.symm
    cases op with
    | taskExit code regs => exact Bool.noConfusion stays
    | taskSleep ticks regs => exact Bool.noConfusion stays
    | _ => exact ready
  · rw [park_other here]
    exact ready

theorem park_halted (s : Scheduler) (op : Call) : (park s op).halted = s.halted := by
  cases op <;> rfl

/-- No call changes the priority of a listed task. -/
theorem effect_priority (effect : Effect s list op t after) (some : ∃ task ∈ list, runnable ((park s op).tasks task))
    (member : addr ∈ list) : (t.tasks addr).priority = (s.tasks addr).priority := by
  cases effect with
  | nothing idle => rfl
  | @pushed t pushed task rests present fresh ready next tasks head current idle halted =>
    have elsewhere : addr ≠ pushed := fun same => fresh (same ▸ member)
    rw [tasks, Function.update_of_ne elsewhere]
  | woken wakes live asleep => exact store_field Task.priority s _ addr _ rfl
  | counted tick => exact countAll_priority s.tasks list addr
  | scheduled passes live entering returned =>
    obtain ⟨found, _⟩ := choose_firstBest entering.links some
    rw [taskSchedule_outcome entering.links returned, outcome_priority found, park_priority]

/-- A runnable task stays one, unless it exits or sleeps. -/
theorem effect_runnable (effect : Effect s list op t after) (member : addr ∈ list)
    (busy : s.currentTask = addr → rests op = false) (ready : runnable (s.tasks addr)) :
    runnable (t.tasks addr) := by
  cases effect with
  | nothing idle => exact ready
  | @pushed t pushed task rests present fresh new next tasks head current idle halted =>
    have elsewhere : addr ≠ pushed := fun same => fresh (same ▸ member)
    rwa [tasks, Function.update_of_ne elsewhere]
  | @woken woken wakes live asleep =>
    have elsewhere : addr ≠ woken := by
      intro same
      rw [same, runnable, asleep] at ready
      exact absurd ready (by decide)
    rwa [store_tasks, Function.update_of_ne elsewhere]
  | counted tick =>
    change runnable (countAll s.tasks list addr)
    rwa [countAll_unless fun both => not_asleep_of_runnable ready both.2]
  | scheduled passes live entering returned =>
    have stays := park_runnable busy ready
    obtain ⟨found, _⟩ := choose_firstBest entering.links ⟨addr, member, stays⟩
    rw [taskSchedule_outcome entering.links returned]
    exact outcome_runnable found stays

/-- The pass picks a task of at least the priority of `high`, and does not halt. -/
theorem effect_current (effect : Effect s list op t after) (first : high ∈ list)
    (busy : s.currentTask = high → rests op = false) (ready : runnable (s.tasks high))
    (below : priorityOf s.tasks low < priorityOf s.tasks high) (other : s.currentTask ≠ low) :
    t.currentTask ≠ low ∧ t.halted = s.halted := by
  cases effect with
  | nothing idle => exact ⟨other, rfl⟩
  | pushed rests present fresh new next tasks head current idle halted => exact ⟨current ▸ other, halted⟩
  | woken wakes live asleep => exact ⟨other, rfl⟩
  | counted tick => exact ⟨other, rfl⟩
  | scheduled passes live entering returned =>
    have stays := park_runnable busy ready
    have same : ∀ task, priorityOf (park s op).tasks task = priorityOf s.tasks task := fun task =>
      congrArg BitVec.toInt (park_priority s op task)
    obtain ⟨found, best⟩ := choose_firstBest entering.links ⟨high, first, stays⟩
    have enough := best.greatest first stays
    rw [taskSchedule_outcome entering.links returned]
    constructor
    · rw [outcome_currentTask found]
      intro chosen
      rw [chosen, same, same] at enough
      exact absurd below (not_lt_of_ge enough)
    · have parked : (park s op).halted = false := (park_halted s op).trans live
      rw [live, Bool.eq_false_iff]
      exact fun halts => found ((outcome_halted parked).mp halts).1

theorem step_waits (scheduled : Scheduled s list) (waits : Waits high low s)
    (busy : s.currentTask = high → rests op = false) (step : Step s op t) :
    Waits high low t ∧ t.halted = s.halted := by
  obtain ⟨listed, ready, also, below, other⟩ := waits
  have first := (listed_iff scheduled.links high).mp listed
  have second := (listed_iff scheduled.links low).mp also
  obtain ⟨after, effect⟩ := step_effect scheduled step
  obtain ⟨next, kept⟩ := effect.invariant scheduled
  have some : ∃ task ∈ list, runnable ((park s op).tasks task) := ⟨high, first, park_runnable busy ready⟩
  have priority : ∀ task ∈ list, priorityOf t.tasks task = priorityOf s.tasks task := fun task member =>
    congrArg BitVec.toInt (effect_priority effect some member)
  obtain ⟨away, halted⟩ := effect_current effect first busy ready below other
  refine ⟨⟨(listed_iff next.links high).mpr (kept first), effect_runnable effect first busy ready,
    (listed_iff next.links low).mpr (kept second), ?_, away⟩, halted⟩
  rw [priority low second, priority high first]
  exact below

/-! Runs. -/

/-- From a reachable state on in which `low` waits behind a runnable task of greater priority, no run
of calls and ticks schedules it or halts, as long as that task makes no call of task_exit or
task_sleep itself; and it stays runnable. -/
theorem run_waits (tasks : Word → Task) (timerTicks currentDirectory : Word) {ops later : List Call}
    (run : Runs Step (start tasks timerTicks currentDirectory) ops s) (waits : Waits high low s)
    (rest : Runs Step s later t)
    (busy : ∀ before op after middle, later = before ++ op :: after → Runs Step s before middle →
      middle.currentTask = high → rests op = false) :
    Waits high low t ∧ t.halted = s.halted := by
  refine Runs.along ⟨waits, rfl⟩ ?_ later [] t (List.append_nil later).symm rest
  intro before op after middle u split first step ⟨held, live⟩
  obtain ⟨list, scheduled⟩ := run_scheduled (start_scheduled tasks timerTicks currentDirectory) (run.append first)
  obtain ⟨next, same⟩ := step_waits scheduled held (busy before op after middle split first) step
  exact ⟨next, same.trans live⟩

/-- A task of priority 1, and then one of priority 5. -/
def unequal : Scheduler :=
  taskCreate [] 0 5 ⟨0x2000, 0, 0, 0⟩ (taskCreate [] 0 1 ⟨0x1000, 0, 0, 0⟩ (start (fun _ => Task.zero) 0 0))

theorem run_waits_yield : ∃ t, Runs Step unequal [.taskYield ⟨0, 0, 0, 0, 0, 0⟩] t ∧
    Waits 0x2000 0x1000 t ∧ t.halted = false := by
  have empty := (start_scheduled (fun _ => Task.zero) 0 0).links
  have single : TaskList (taskCreate [] 0 1 ⟨0x1000, 0, 0, 0⟩ (start (fun _ => Task.zero) 0 0)).tasks
      0x1000 [0x1000] := empty.push (by decide) List.not_mem_nil rfl
  have both : TaskList unequal.tasks 0x2000 [0x2000, 0x1000] := single.push (by decide) (by decide) rfl
  have run : Runs Step (start (fun _ => Task.zero) 0 0)
      [.taskCreate [] 0 1 ⟨0x1000, 0, 0, 0⟩, .taskCreate [] 0 5 ⟨0x2000, 0, 0, 0⟩] unequal := by
    refine Runs.next ⟨nofun, ⟨by decide, ?_⟩, 0, rfl⟩ (Runs.next ⟨nofun, ⟨by decide, ?_⟩, 0, rfl⟩ (Runs.done _))
    · exact mt (listed_iff empty _).mp List.not_mem_nil
    · exact mt (listed_iff single _).mp (by decide)
  have waits : Waits 0x2000 0x1000 unequal :=
    ⟨⟨_, both, by decide⟩, by decide, ⟨_, both, by decide⟩, by decide, by decide⟩
  obtain ⟨t, returned⟩ := taskSchedule_returns both (Nat.lt_succ_self _) ⟨0, 0, 0, 0, 0, 0⟩
  have yielded : call 3 unequal (.taskYield ⟨0, 0, 0, 0, 0, 0⟩) = some t := returned
  have step : Step unequal (.taskYield ⟨0, 0, 0, 0, 0, 0⟩) t := ⟨nofun, trivial, 3, yielded⟩
  have rest : Runs Step unequal [.taskYield ⟨0, 0, 0, 0, 0, 0⟩] t := Runs.next step (Runs.done t)
  refine ⟨t, rest, run_waits (fun _ => Task.zero) 0 0 run waits rest ?_⟩
  intro before op after middle split _ _
  have member : op ∈ [Call.taskYield ⟨0, 0, 0, 0, 0, 0⟩] := by
    rw [split]
    exact List.mem_append_right before List.mem_cons_self
  rw [List.mem_singleton.mp member]
  rfl

end Vaelen.Kernel.SchedulerStarvation
