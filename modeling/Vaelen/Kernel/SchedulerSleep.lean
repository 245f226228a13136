import Vaelen.Kernel.SchedulerStates

/-!
Sleeping tasks. task_schedule counts every sleeper down as the timer interrupt does, the
caller of task_sleep included, and neither loop ever wakes a task with no ticks left.
-/

namespace Vaelen.Kernel.SchedulerSleep
open Vaelen.Base Platform Tasks SchedulerPasses SchedulerStates

def isTick : Call → Bool
  | .timerHandler => true
  | _ => false

/-- The timer interrupts of a run. -/
def ticks (ops : List Call) : Nat := ops.countP isTick

/-- The passes over the task list: every tick, task_yield, task_sleep and task_exit is one. -/
def passes (ops : List Call) : Nat := ops.countP counts

theorem ticks_le_passes (ops : List Call) : ticks ops ≤ passes ops := by
  apply List.countP_mono_left
  intro op _ tick
  cases op with
  | timerHandler => rfl
  | _ => exact Bool.noConfusion tick

theorem passes_idle {op : Call} (idle : counts op = false) (ops : List Call) :
    passes (op :: ops) = passes ops :=
  List.countP_cons_of_neg (by simp [idle])

theorem passes_counting {op : Call} (counting : counts op = true) (ops : List Call) :
    passes (op :: ops) = passes ops + 1 :=
  List.countP_cons_of_pos counting

theorem countDown_zero {task : Task} (none : task.sleepTicks = 0) : countDown task = task := by
  unfold countDown
  rw [none, if_neg fun both => absurd both.2 (by decide)]

theorem countDown_last {task : Task} (asleep : task.state = .sleeping)
    (last : task.sleepTicks.toNat = 1) : (countDown task).state = .ready := by
  have positive : 0 < task.sleepTicks := by
    rw [BitVec.lt_def, last]
    decide
  obtain ⟨left, state⟩ := countDown_asleep task ⟨asleep, positive⟩
  have gone : task.sleepTicks - 1 = 0 := by bv_omega
  rw [state, left, if_pos gone]

theorem countDown_more {task : Task} {k : Nat} (asleep : task.state = .sleeping)
    (more : task.sleepTicks.toNat = k + 2) :
    (countDown task).state = .sleeping ∧ (countDown task).sleepTicks.toNat = k + 1 := by
  have positive : 0 < task.sleepTicks := by
    rw [BitVec.lt_def, more]
    exact Nat.succ_pos _
  obtain ⟨left, state⟩ := countDown_asleep task ⟨asleep, positive⟩
  have fewer : (countDown task).sleepTicks.toNat = k + 1 := by
    rw [left]
    bv_omega
  have some : (countDown task).sleepTicks ≠ 0 := by
    intro zero
    rw [zero] at fewer
    exact absurd fewer (by simp)
  rw [state, if_neg some]
  exact ⟨rfl, fewer⟩

variable {s t : Scheduler} {list : List Word} {op : Call} {task : Word} {k : Nat}

/-- `task` sleeps with `k` ticks left, and another task has been scheduled since. -/
def Sleeping (task : Word) (k : Nat) (s : Scheduler) : Prop :=
  ∃ list, Scheduled s list ∧ task ∈ list ∧ (s.tasks task).state = .sleeping ∧
    (s.tasks task).sleepTicks.toNat = k ∧ s.currentTask ≠ 0 ∧
    (s.halted = false → s.currentTask ≠ task)

theorem not_runnable {sleeper : Task} (asleep : sleeper.state = .sleeping) : ¬runnable sleeper := by
  rw [runnable, asleep]
  decide

theorem Sleeping.asleep (sleeping : Sleeping task k s) : ¬runnable (s.tasks task) := by
  obtain ⟨_, _, _, asleep, _⟩ := sleeping
  exact not_runnable asleep

/-- One call: a pass over the list takes one tick off, the others none. -/
theorem step_sleeping (sleeping : Sleeping task k s) (step : Step s op t)
    (unwoken : op ≠ .taskWake task) :
    (counts op = false ∧ Sleeping task k t) ∨
      (counts op = true ∧
        ((k = 0 ∧ Sleeping task 0 t) ∨ (k = 1 ∧ runnable (t.tasks task)) ∨
          ∃ left, k = left + 2 ∧ Sleeping task (left + 1) t)) := by
  have dormant := sleeping.asleep
  obtain ⟨list, scheduled, member, asleep, remaining, some, other⟩ := sleeping
  obtain ⟨after, effect⟩ := step_effect scheduled step
  obtain ⟨next, kept⟩ := effect.invariant scheduled
  obtain ⟨present, live⟩ := effect.present some
  obtain ⟨current, same⟩ := effect.bystander member dormant other fun wakes => absurd wakes unwoken
  have elsewhere : t.halted = false → t.currentTask ≠ task := fun running here =>
    other (live running) (current here)
  rcases same with ⟨idle, state, left⟩ | ⟨counting, state, left⟩
  · refine Or.inl ⟨Bool.eq_false_iff.mpr fun counting => some (idle counting), after, next,
      kept member, state.trans asleep, ?_, present, elsewhere⟩
    rw [left, remaining]
  · refine Or.inr ⟨counting, ?_⟩
    match k with
    | 0 =>
      have none : (s.tasks task).sleepTicks = 0 := BitVec.eq_of_toNat_eq remaining
      rw [countDown_zero none] at state left
      refine Or.inl ⟨rfl, after, next, kept member, state.trans asleep, ?_, present, elsewhere⟩
      rw [left, remaining]
    | 1 => exact Or.inr (Or.inl ⟨rfl, Or.inl (state.trans (countDown_last asleep remaining))⟩)
    | more + 2 =>
      obtain ⟨still, fewer⟩ := countDown_more asleep remaining
      refine Or.inr (Or.inr ⟨more, rfl, after, next, kept member, state.trans still, ?_, present,
        elsewhere⟩)
      rw [left, fewer]

theorem run_forever {ops : List Call} (sleeping : Sleeping task 0 s) (run : Runs Step s ops t)
    (unwoken : ∀ op ∈ ops, op ≠ .taskWake task) : Sleeping task 0 t := by
  induction run with
  | done s => exact sleeping
  | next step _ ih =>
    have later := fun op member => unwoken op (List.mem_cons_of_mem _ member)
    rcases step_sleeping sleeping step (unwoken _ List.mem_cons_self) with
      ⟨_, still⟩ | ⟨_, ⟨_, still⟩ | ⟨one, _⟩ | ⟨left, more, _⟩⟩
    · exact ih still later
    · exact ih still later
    · exact absurd one (by decide)
    · exact absurd more (by omega)

/-- Fewer passes than ticks left: still asleep. -/
theorem run_asleep {ops : List Call} (sleeping : Sleeping task k s) (run : Runs Step s ops t)
    (unwoken : ∀ op ∈ ops, op ≠ .taskWake task) (few : passes ops < k) :
    Sleeping task (k - passes ops) t := by
  induction run generalizing k with
  | done s => exact sleeping
  | next step _ ih =>
    have later := fun op member => unwoken op (List.mem_cons_of_mem _ member)
    rcases step_sleeping sleeping step (unwoken _ List.mem_cons_self) with
      ⟨idle, still⟩ | ⟨counting, ⟨none, _⟩ | ⟨one, _⟩ | ⟨left, more, still⟩⟩
    · rw [passes_idle idle] at few ⊢
      exact ih still later few
    · omega
    · rw [passes_counting counting] at few
      omega
    · rw [passes_counting counting] at few ⊢
      have result := ih still later (by omega)
      rwa [more, Nat.add_sub_add_right (left + 1) 1]

/-- As many passes as ticks left: awake after one of the calls. -/
theorem run_awake {ops : List Call} (sleeping : Sleeping task k s) (run : Runs Step s ops t)
    (unwoken : ∀ op ∈ ops, op ≠ .taskWake task) (positive : 0 < k) (many : k ≤ passes ops) :
    ∃ before after u, ops = before ++ after ∧ Runs Step s before u ∧ passes before = k ∧
      runnable (u.tasks task) := by
  induction run generalizing k with
  | done s => exact absurd (Nat.lt_of_lt_of_le positive many) (Nat.lt_irrefl 0)
  | @next s middle t op ops step _ ih =>
    have later := fun op member => unwoken op (List.mem_cons_of_mem _ member)
    rcases step_sleeping sleeping step (unwoken _ List.mem_cons_self) with
      ⟨idle, still⟩ | ⟨counting, ⟨none, _⟩ | ⟨one, awake⟩ | ⟨left, more, still⟩⟩
    · rw [passes_idle idle] at many
      obtain ⟨before, after, u, split, run, count, awake⟩ := ih still later positive many
      refine ⟨op :: before, after, u, congrArg (op :: ·) split, Runs.next step run, ?_, awake⟩
      rw [passes_idle idle, count]
    · omega
    · refine ⟨[op], ops, middle, rfl, Runs.next step (Runs.done middle), ?_, awake⟩
      rw [passes_counting counting, one]
      rfl
    · rw [passes_counting counting] at many
      obtain ⟨before, after, u, split, run, count, awake⟩ :=
        ih still later (Nat.succ_pos left) (by omega)
      refine ⟨op :: before, after, u, congrArg (op :: ·) split, Runs.next step run, ?_, awake⟩
      rw [passes_counting counting, count, more]

/-! task_sleep. -/

/-- The pass of task_sleep itself already counts the caller down. -/
theorem step_sleep {n : Word} {regs : Switched} (scheduled : Scheduled s list)
    (some : s.currentTask ≠ 0) (step : Step s (.taskSleep n regs) t) :
    Scheduled t list ∧ t.currentTask ≠ 0 ∧ (t.halted = false → t.currentTask ≠ s.currentTask) ∧
      SameSleep (t.tasks s.currentTask) (countDown
        { s.tasks s.currentTask with state := .sleeping, sleepTicks := n }) := by
  obtain ⟨only, _, fuel, returned⟩ := step
  have live : s.halted = false := Bool.eq_false_iff.mpr fun halted => Call.noConfusion (only halted)
  simp only [call, taskSleep, if_neg some] at returned
  have entering := park_entering scheduled live (.taskSleep n regs)
  have effect : Effect s list (.taskSleep n regs) t list :=
    Effect.scheduled rfl live entering returned
  have parked := park_sleep s n regs
  have dormant : ¬runnable ((park s (.taskSleep n regs)).tasks s.currentTask) := by
    rw [parked]
    exact not_runnable rfl
  obtain ⟨state, left, _⟩ := entering.dormant returned (scheduled.listed some) dormant
  rw [parked] at state left
  exact ⟨entering.scheduled returned, (effect.present some).1,
    fun running => entering.leaves returned dormant running, state, left⟩

theorem unwoken_before {before after : List Call}
    (unwoken : ∀ op ∈ before ++ after, op ≠ .taskWake task) : ∀ op ∈ before, op ≠ .taskWake task :=
  fun op inside => unwoken op (List.mem_append_left after inside)

theorem passes_before (before after : List Call) : passes before ≤ passes (before ++ after) := by
  rw [passes, passes, List.countP_append]
  exact Nat.le_add_right _ _

/-- With `k` ticks left after the first pass, the sleeper wakes with the pass that takes the last
one, and too early whenever the run gets that far. -/
theorem Sleeping.early_iff {later : List Call} {u : Scheduler} (sleeping : Sleeping task k t)
    (positive : 0 < k) (rest : Runs Step t later u) (unwoken : ∀ op ∈ later, op ≠ .taskWake task) :
    (∀ before after v, later = before ++ after → Runs Step t before v →
        runnable (v.tasks task) → k + 1 ≤ ticks before) ↔ passes later < k := by
  constructor
  · intro never
    by_contra many
    obtain ⟨before, after, v, split, run, count, awake⟩ :=
      run_awake sleeping rest unwoken positive (Nat.le_of_not_lt many)
    have late := never before after v split run awake
    have bound := ticks_le_passes before
    omega
  · rintro few before after v rfl run awake
    have short := Nat.lt_of_le_of_lt (passes_before before after) few
    exact absurd awake (run_asleep sleeping run (unwoken_before unwoken) short).asleep

/-- In a run from the call task_sleep(n) on, with no task_wake on the caller, the caller is never
ready again before n ticks exactly when it is not ready again at all: when it sleeps forever or
fewer than n - 1 passes have been made. -/
theorem sleep_early_iff (tasks : Word → Task) (timerTicks currentDirectory : Word)
    (ops : List Call) (s t u : Scheduler) (n : Word) (regs : Switched) (later : List Call)
    (run : Runs Step (start tasks timerTicks currentDirectory) ops s) (some : s.currentTask ≠ 0)
    (slept : Step s (.taskSleep n regs) t) (rest : Runs Step t later u)
    (unwoken : ∀ op ∈ later, op ≠ .taskWake s.currentTask) :
    (∀ before after v, later = before ++ after → Runs Step t before v →
        runnable (v.tasks s.currentTask) → n.toNat ≤ ticks before) ↔
      n = 0 ∨ passes later + 1 < n.toNat := by
  obtain ⟨list, scheduled⟩ := run_scheduled (start_scheduled tasks timerTicks currentDirectory) run
  obtain ⟨next, present, elsewhere, state, left⟩ := step_sleep scheduled some slept
  have member := scheduled.listed some
  by_cases zero : n = 0
  · refine iff_of_true (fun before after v split run awake => ?_) (Or.inl zero)
    rw [countDown_zero zero] at state left
    have forever : Sleeping s.currentTask 0 t :=
      ⟨list, next, member, state, by rw [left, zero]; rfl, present, elsewhere⟩
    rw [split] at unwoken
    exact absurd awake (run_forever forever run (unwoken_before unwoken)).asleep
  · by_cases one : n.toNat = 1
    · refine iff_of_false (fun never => ?_) (not_or.mpr ⟨zero, by omega⟩)
      have awake : runnable (t.tasks s.currentTask) :=
        Or.inl (state.trans (countDown_last rfl one))
      have late := never [] later t rfl (Runs.done t) awake
      rw [one] at late
      exact absurd late (by decide)
    · obtain ⟨k, more⟩ : ∃ k, n.toNat = k + 2 := by
        refine ⟨n.toNat - 2, ?_⟩
        have positive : n.toNat ≠ 0 := fun none => zero (BitVec.eq_of_toNat_eq none)
        omega
      have counted : (countDown { s.tasks s.currentTask with
          state := .sleeping, sleepTicks := n }).state = .sleeping ∧
          (countDown { s.tasks s.currentTask with
            state := .sleeping, sleepTicks := n }).sleepTicks.toNat = k + 1 :=
        countDown_more rfl more
      obtain ⟨still, fewer⟩ := counted
      have sleeping : Sleeping s.currentTask (k + 1) t :=
        ⟨list, next, member, state.trans still, by rw [left, fewer], present, elsewhere⟩
      rw [more, sleeping.early_iff (Nat.succ_pos k) rest unwoken, or_iff_right zero]
      exact Nat.succ_lt_succ_iff.symm

/-- The other task yields once while the caller sleeps for five ticks. -/
theorem sleep_early_iff_five :
    ∃ s t u, Runs Step (start (fun _ => Task.zero) 0 0)
        [.taskCreate [] 0 5 ⟨0x1000, 0, 0, 0⟩, .taskCreate [] 0 5 ⟨0x2000, 0, 0, 0⟩,
          .taskYield ⟨0, 0, 0, 0, 0, 0⟩] s ∧
      Step s (.taskSleep 5 ⟨0, 0, 0, 0, 0, 0⟩) t ∧
      Runs Step t [.taskYield ⟨0, 0, 0, 0, 0, 0⟩] u ∧
      ∀ before after v, [Call.taskYield ⟨0, 0, 0, 0, 0, 0⟩] = before ++ after →
        Runs Step t before v → runnable (v.tasks s.currentTask) → 5 ≤ ticks before := by
  have facts : ((call 3 (twoTasks 0x1000 0x2000) (.taskYield ⟨0, 0, 0, 0, 0, 0⟩)).bind fun s =>
      (call 3 s (.taskSleep 5 ⟨0, 0, 0, 0, 0, 0⟩)).bind fun t =>
        (call 3 t (.taskYield ⟨0, 0, 0, 0, 0, 0⟩)).map fun _ =>
          (s.halted, s.currentTask, t.halted)) = some (false, 0x2000, false) := by decide +kernel
  obtain ⟨s, first, rest⟩ := Option.bind_eq_some_iff.mp facts
  obtain ⟨t, second, rest⟩ := Option.bind_eq_some_iff.mp rest
  obtain ⟨u, third, same⟩ := Option.map_eq_some_iff.mp rest
  simp only [Prod.mk.injEq] at same
  obtain ⟨running, current, live⟩ := same
  have created : Runs Step (start (fun _ => Task.zero) 0 0) _ (twoTasks 0x1000 0x2000) :=
    run_twoTasks (by decide) (by decide) (by decide)
  have switched : Step (twoTasks 0x1000 0x2000) (.taskYield ⟨0, 0, 0, 0, 0, 0⟩) s :=
    step_of_call rfl trivial first
  have run := created.snoc switched
  have slept : Step s (.taskSleep 5 ⟨0, 0, 0, 0, 0, 0⟩) t :=
    step_of_call running trivial second
  have yielded : Runs Step t [.taskYield ⟨0, 0, 0, 0, 0, 0⟩] u :=
    Runs.next (step_of_call live trivial third) (Runs.done u)
  refine ⟨s, t, u, run, slept, yielded, ?_⟩
  apply (sleep_early_iff _ 0 0 _ s t u 5 _ _ run (by rw [current]; decide) slept yielded ?_).mpr
  · exact Or.inr (by decide)
  · intro op member wakes
    rw [List.mem_singleton.mp member] at wakes
    exact nomatch wakes

/-- task_sleep(1) with another task ready: ready again before any tick. -/
theorem sleep_early :
    ¬∀ (tasks : Word → Task) (timerTicks currentDirectory : Word) (ops : List Call)
      (s t u : Scheduler) (n : Word) (regs : Switched) (later : List Call),
      Runs Step (start tasks timerTicks currentDirectory) ops s → s.currentTask ≠ 0 →
      Step s (.taskSleep n regs) t → Runs Step t later u →
      (∀ op ∈ later, op ≠ .taskWake s.currentTask) → runnable (u.tasks s.currentTask) →
        n.toNat ≤ ticks later := by
  intro claim
  have facts : ((call 3 (twoTasks 0x1000 0x2000) (.taskYield ⟨0, 0, 0, 0, 0, 0⟩)).bind fun s =>
      (call 3 s (.taskSleep 1 ⟨0, 0, 0, 0, 0, 0⟩)).map fun t =>
        (s.halted, s.currentTask, (t.tasks 0x2000).state)) = some (false, 0x2000, .ready) := by
    decide
  obtain ⟨s, first, rest⟩ := Option.bind_eq_some_iff.mp facts
  obtain ⟨t, second, same⟩ := Option.map_eq_some_iff.mp rest
  simp only [Prod.mk.injEq] at same
  obtain ⟨running, current, ready⟩ := same
  have created : Runs Step (start (fun _ => Task.zero) 0 0) _ (twoTasks 0x1000 0x2000) :=
    run_twoTasks (by decide) (by decide) (by decide)
  have switched : Step (twoTasks 0x1000 0x2000) (.taskYield ⟨0, 0, 0, 0, 0, 0⟩) s :=
    step_of_call rfl trivial first
  have run := created.snoc switched
  have slept : Step s (.taskSleep 1 ⟨0, 0, 0, 0, 0, 0⟩) t :=
    step_of_call running trivial second
  have late := claim _ 0 0 _ s t t 1 _ [] run (by rw [current]; decide) slept (Runs.done t)
    (fun _ member => absurd member List.not_mem_nil) (Or.inl (current ▸ ready))
  exact absurd late (by decide)

/-! Sleepers without ticks. -/

/-- Every listed sleeper has ticks left. -/
def Ticking (s : Scheduler) (list : List Word) : Prop :=
  ∀ task ∈ list, (s.tasks task).state = .sleeping → (s.tasks task).sleepTicks ≠ 0

theorem countDown_ticking {task : Task}
    (ticking : task.state = .sleeping → task.sleepTicks ≠ 0)
    (asleep : (countDown task).state = .sleeping) : (countDown task).sleepTicks ≠ 0 := by
  by_cases sleeping : task.state = .sleeping
  · match left : task.sleepTicks.toNat with
    | 0 => exact absurd (BitVec.eq_of_toNat_eq left) (ticking sleeping)
    | 1 => exact TaskState.noConfusion ((countDown_last sleeping left).symm.trans asleep)
    | more + 2 =>
      intro zero
      have remaining := (countDown_more sleeping left).2
      rw [zero] at remaining
      exact absurd remaining (by simp)
  · rw [countDown_awake task sleeping] at asleep
    exact absurd asleep sleeping

/-- task_schedule puts nobody to sleep: who sleeps after it slept through the pass. -/
theorem asleep_through {fuel : Nat} {regs : Switched} (entering : Entering s list)
    (returned : taskSchedule fuel regs s = some t) (asleep : (t.tasks task).state = .sleeping) :
    SameSleep (t.tasks task) (countAll s.tasks list task) := by
  rcases taskSchedule_cases entering.links entering.idle returned with
    ⟨_, rfl⟩ | ⟨_, _, rfl⟩ | ⟨_, different, rfl⟩
  · exact ⟨rfl, rfl⟩
  · exact ⟨rfl, rfl⟩
  · refine ⟨?_, switched_sleepTicks _ _⟩
    rw [switched_state different] at asleep ⊢
    split at asleep
    · exact TaskState.noConfusion asleep
    · next unchosen =>
      rw [if_neg unchosen]
      split at asleep
      · exact TaskState.noConfusion asleep
      · next resting => rw [if_neg resting]

/-- Only task_sleep(0) makes a sleeper without ticks. -/
theorem step_ticking (scheduled : Scheduled s list) (ticking : Ticking s list)
    (step : Step s op t)
    (nonzero : ∀ n regs, op = .taskSleep n regs → s.currentTask ≠ 0 → n ≠ 0) :
    ∃ after, Scheduled t after ∧ Ticking t after := by
  obtain ⟨after, effect⟩ := step_effect scheduled step
  refine ⟨after, (effect.invariant scheduled).1, fun task member asleep => ?_⟩
  cases effect with
  | nothing idle => exact ticking task member asleep
  | @pushed t addr created rests present fresh ready next tasks head current idle halted =>
    rw [tasks] at asleep ⊢
    by_cases here : task = addr
    · rw [here, Function.update_self, ready] at asleep
      exact TaskState.noConfusion asleep
    · rw [Function.update_of_ne here] at asleep ⊢
      exact ticking task ((List.mem_cons.mp member).resolve_left here) asleep
  | @woken addr wakes live slept =>
    rw [store_tasks] at asleep ⊢
    by_cases here : task = addr
    · rw [here, Function.update_self] at asleep
      exact TaskState.noConfusion asleep
    · rw [Function.update_of_ne here] at asleep ⊢
      exact ticking task member asleep
  | counted tick =>
    have counted : countAll s.tasks list task = countDown (s.tasks task) := countAll_mem member
    change (countAll s.tasks list task).sleepTicks ≠ 0
    rw [counted]
    exact countDown_ticking (ticking task member) (counted ▸ asleep)
  | scheduled passes live entering returned =>
    have through := asleep_through entering returned asleep
    rw [SameSleep, countAll_mem member] at through
    rw [through.2]
    refine countDown_ticking (fun sleeping => ?_) (through.1.symm.trans asleep)
    have present : task ≠ 0 := fun zero => scheduled.links.present (zero ▸ member)
    by_cases here : task = s.currentTask
    · cases op with
      | taskSleep n regs =>
        rw [here, park_sleep]
        exact nonzero n regs rfl (here ▸ present)
      | taskExit code regs =>
        rw [here, park_exit] at sleeping
        exact TaskState.noConfusion sleeping
      | _ => exact ticking task member sleeping
    · rw [park_other here] at sleeping ⊢
      exact ticking task member sleeping

theorem step_tick (scheduled : Scheduled s list) :
    ∃ t, Step s .timerHandler t ∧ Scheduled t list ∧
      ∀ task ∈ list, t.tasks task = countDown (s.tasks task) := by
  have effect : Effect s list .timerHandler
      { passed s list with timerTicks := s.timerTicks + 1 } list := Effect.counted rfl
  refine ⟨_, ⟨fun _ => rfl, trivial, list.length + 1, ?_⟩, (effect.invariant scheduled).1,
    fun task member => countAll_mem member⟩
  simp only [call, timerHandler, scheduled.links.timerLoop, if_pos (Nat.lt_succ_self _)]
  rfl

/-- A sleeper with ticks left is ready after that many timer interrupts. -/
theorem run_ticks (scheduled : Scheduled s list) (member : task ∈ list)
    (asleep : (s.tasks task).state = .sleeping) (left : (s.tasks task).sleepTicks.toNat = k + 1) :
    ∃ t, Runs Step s (List.replicate (k + 1) .timerHandler) t ∧ (t.tasks task).state = .ready := by
  induction k generalizing s with
  | zero =>
    obtain ⟨t, step, _, counted⟩ := step_tick scheduled
    refine ⟨t, Runs.next step (Runs.done t), ?_⟩
    rw [counted task member]
    exact countDown_last asleep left
  | succ k ih =>
    obtain ⟨t, step, next, counted⟩ := step_tick scheduled
    obtain ⟨still, fewer⟩ := countDown_more asleep left
    rw [← counted task member] at still fewer
    obtain ⟨u, rest, ready⟩ := ih next still fewer
    exact ⟨u, Runs.next step rest, ready⟩

/-- Every listed sleeper has ticks left, and that many timer interrupts make it ready. -/
def Unstuck (s : Scheduler) : Prop :=
  ∀ task, Listed s task → (s.tasks task).state = .sleeping →
    (s.tasks task).sleepTicks ≠ 0 ∧
      ∃ t, Runs Step s (List.replicate (s.tasks task).sleepTicks.toNat .timerHandler) t ∧
        (t.tasks task).state = .ready

theorem Ticking.unstuck (ticking : Ticking s list) (scheduled : Scheduled s list) : Unstuck s := by
  intro task listed asleep
  have member := (listed_iff scheduled.links task).mp listed
  have some := ticking task member asleep
  refine ⟨some, ?_⟩
  match left : (s.tasks task).sleepTicks.toNat with
  | 0 => exact absurd (BitVec.eq_of_toNat_eq left) some
  | k + 1 => exact run_ticks scheduled member asleep left

/-- After task_sleep(0) the caller is stuck. -/
theorem step_stuck {regs : Switched} (scheduled : Scheduled s list) (some : s.currentTask ≠ 0)
    (step : Step s (.taskSleep 0 regs) t) : ¬Unstuck t := by
  intro unstuck
  obtain ⟨next, _, _, state, left⟩ := step_sleep scheduled some step
  rw [countDown_zero rfl] at state left
  exact (unstuck s.currentTask ((listed_iff next.links _).mpr (scheduled.listed some)) state).1 left

/-- No state of a run has a stuck sleeper exactly when no task calls task_sleep(0) in it. -/
theorem run_unstuck_iff (tasks : Word → Task) (timerTicks currentDirectory : Word)
    (ops : List Call) :
    (∀ before after t, ops = before ++ after →
        Runs Step (start tasks timerTicks currentDirectory) before t → Unstuck t) ↔
      ∀ before n regs after t u, ops = before ++ .taskSleep n regs :: after →
        Runs Step (start tasks timerTicks currentDirectory) before t →
        Step t (.taskSleep n regs) u → t.currentTask ≠ 0 → n ≠ 0 := by
  constructor
  · intro unstuck before n regs after t u split here step some zero
    obtain ⟨list, scheduled⟩ :=
      run_scheduled (start_scheduled tasks timerTicks currentDirectory) here
    have later := unstuck (before ++ [.taskSleep n regs]) after u (by simp [split]) (here.snoc step)
    subst zero
    exact step_stuck scheduled some step later
  · intro nonzero before after t split here
    have ticking : ∃ list, Scheduled t list ∧ Ticking t list := by
      refine Runs.along ⟨[], start_scheduled tasks timerTicks currentDirectory,
        fun task member => absurd member List.not_mem_nil⟩ ?_ before after t split here
      rintro before op after middle next whole first step ⟨list, scheduled, ticking⟩
      refine step_ticking scheduled ticking step fun n regs same some => ?_
      subst same
      exact nonzero before n regs after middle next whole first step some
    obtain ⟨list, scheduled, ticking⟩ := ticking
    exact ticking.unstuck scheduled

/-- task_sleep(0) with another task ready. -/
theorem run_stuck :
    ¬∀ (tasks : Word → Task) (timerTicks currentDirectory : Word) (ops : List Call)
      (s : Scheduler), Runs Step (start tasks timerTicks currentDirectory) ops s → Unstuck s := by
  intro claim
  have facts : ((call 3 (twoTasks 0x1000 0x2000) (.taskYield ⟨0, 0, 0, 0, 0, 0⟩)).bind fun s =>
      (call 3 s (.taskSleep 0 ⟨0, 0, 0, 0, 0, 0⟩)).map fun _ => (s.halted, s.currentTask)) =
      some (false, 0x2000) := by decide
  obtain ⟨s, first, rest⟩ := Option.bind_eq_some_iff.mp facts
  obtain ⟨t, second, same⟩ := Option.map_eq_some_iff.mp rest
  obtain ⟨running, current⟩ := Prod.mk.inj same
  have created : Runs Step (start (fun _ => Task.zero) 0 0) _ (twoTasks 0x1000 0x2000) :=
    run_twoTasks (by decide) (by decide) (by decide)
  have switched : Step (twoTasks 0x1000 0x2000) (.taskYield ⟨0, 0, 0, 0, 0, 0⟩) s :=
    step_of_call rfl trivial first
  have slept : Step s (.taskSleep 0 ⟨0, 0, 0, 0, 0, 0⟩) t := step_of_call running trivial second
  have run := created.snoc switched
  obtain ⟨list, scheduled⟩ := run_scheduled (start_scheduled _ 0 0) run
  exact step_stuck scheduled (by rw [current]; decide) slept (claim _ 0 0 _ t (run.snoc slept))

end Vaelen.Kernel.SchedulerSleep
