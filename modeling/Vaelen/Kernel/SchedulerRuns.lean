import Vaelen.Kernel.TaskCreation

/-!
Runs of the scheduler on memory. Every run in which the new blocks and the stores of kmalloc stay off
the records follows one of the scheduler's model, so its invariants hold of the records.
-/

namespace Vaelen.Kernel.SchedulerRuns
open Vaelen.Base Platform Kmalloc Paging SchedulerPasses TaskRecords SchedulerRecords TaskCreation
open Tasks (TASK_STACK_SIZE TaskState Task Switched Scheduler Allocated)
open SchedulerStates (Scheduled)

/-- The records from task_list_head on, read from memory. -/
def Listing (s : System) (list : List Word) : Prop := TaskList (view s.mem) s.taskListHead list

/-- task_wake is called on a listed task, and once halted only the timer interrupt runs. -/
structure Allowed (s : System) (op : Call) : Prop where
  halted : s.halted = true → op = .timerHandler
  wakes : ∀ task, op = .taskWake task → ∃ list, Listing s list ∧ task ∈ list

/-- One call run to completion. -/
def Step (s : System) (op : Call) (t : System) : Prop := Allowed s op ∧ ∃ fuel, call fuel s op = .ok t

/-- What a call takes and writes for a new task spares the records of the list. -/
def Spares (fuel : Nat) (s : System) (list : List Word) : Call → Prop
  | .taskCreate name _ priority dir => CreateSpares fuel name priority dir s list
  | .taskFork dir => s.currentTask ≠ 0 → ForkSpares fuel dir s list
  | _ => True

def SparingStep (s : System) (op : Call) (t : System) : Prop :=
  Allowed s op ∧ ∃ fuel, call fuel s op = .ok t ∧ ∀ list, Listing s list → Spares fuel s list op

variable {s after : System} {t : Scheduler} {list : List Word} {op : Call} {regs : Switched} {fuel : Nat}

/-- The records in memory are a scheduled list of the model. -/
structure Follows (s : System) (t : Scheduler) (list : List Word) : Prop where
  scheduled : Scheduled t list
  agrees : Agrees list s t

theorem Follows.listing (follows : Follows s t list) : Listing s list := by
  unfold Listing
  rw [← follows.agrees.head]
  exact follows.scheduled.links.congr fun task member => follows.agrees.tasks.next member

theorem Follows.current (follows : Follows s t list) : t.currentTask = 0 ∨ t.currentTask ∈ list := by
  by_cases none : t.currentTask = 0
  · exact Or.inl none
  · exact Or.inr (follows.scheduled.listed none)

theorem Follows.state_iff {task : Word} {state : TaskState} (follows : Follows s t list) (member : task ∈ list)
    (named : state ≠ .stopped) : field s.mem task .state = code state ↔ (t.tasks task).state = state :=
  follows.agrees.tasks.state_iff member named

/-- A call of the model that passes over the list keeps the list. -/
theorem scheduled_counting {result : Scheduler} {op : Tasks.Call} (scheduled : Scheduled t list)
    (passes : SchedulerStates.counts op = true) (step : SchedulerStates.Step t op result) :
    Scheduled result list := by
  obtain ⟨_, effect⟩ := SchedulerStates.step_effect scheduled step
  have kept := (effect.invariant scheduled).1
  cases effect with
  | nothing _ => exact kept
  | pushed rests =>
    rw [passes] at rests
    exact Bool.noConfusion rests
  | woken _ _ _ => exact kept
  | counted _ => exact kept
  | scheduled _ _ _ _ => exact kept

/-- A call of the model that pushes a task has this list. -/
theorem scheduled_pushed {result : Scheduler} {op : Tasks.Call} {task : Word} {record : Task}
    (scheduled : Scheduled t list) (step : SchedulerStates.Step t op result) (present : task ≠ 0)
    (fresh : task ∉ list) (tasks : result.tasks = Function.update t.tasks task record)
    (head : result.taskListHead = task) (next : record.next = t.taskListHead) :
    Scheduled result (task :: list) := by
  obtain ⟨other, kept, _⟩ := SchedulerStates.step_scheduled scheduled step
  have links : TaskList result.tasks result.taskListHead (task :: list) := by
    rw [tasks, head]
    exact scheduled.links.push present fresh next
  rw [links.unique kept.links]
  exact kept

theorem map_eq_ok {α β : Type} {first : Except Stop α} {next : α → β} {result : β}
    (finished : first.map next = .ok result) : ∃ value, first = .ok value ∧ next value = result := by
  cases first with
  | error stop =>
    have stopped : Except.error stop = Except.ok result := finished
    exact absurd stopped (by simp)
  | ok value => exact ⟨value, rfl, Except.ok.inj finished⟩

/-- The model gets to the records of this state too, and no task has left the list. -/
def Matched (t : Scheduler) (list : List Word) (s : System) : Prop :=
  ∃ ops result later, Runs SchedulerStates.Step t ops result ∧ Follows s result later ∧ list ⊆ later

theorem matched_same (follows : Follows s t list) : Matched t list s :=
  ⟨[], t, list, Runs.done t, follows, List.Subset.refl list⟩

theorem matched_step {result : Scheduler} {op : Tasks.Call} {later : List Word}
    (step : SchedulerStates.Step t op result) (follows : Follows s result later) (grows : list ⊆ later) :
    Matched t list s :=
  ⟨[op], result, later, Runs.next step (Runs.done result), follows, grows⟩

section step
variable (follows : Follows s t list)
include follows

theorem matched_counting {result : Scheduler} (op : Tasks.Call) (passes : SchedulerStates.counts op = true)
    (allowed : t.halted = true → op = .timerHandler) (admissible : SchedulerStates.Admissible t op)
    (returned : Tasks.call fuel t op = some result) (agrees : Agrees list after result) : Matched t list after := by
  have step : SchedulerStates.Step t op result := ⟨allowed, admissible, fuel, returned⟩
  exact matched_step step ⟨scheduled_counting follows.scheduled passes step, agrees⟩ (List.Subset.refl list)

theorem taskCreate_matched {name entry priority dir task : Word} (live : t.halted = false)
    (spares : CreateSpares fuel name priority dir s list)
    (returned : taskCreate fuel name entry priority dir s = .ok (task, after)) : Matched t list after := by
  obtain ⟨present, fresh, agrees⟩ := taskCreate_agrees follows.agrees spares returned
  have unlisted : ¬SchedulerStates.Listed t task := fun listed =>
    fresh ((SchedulerStates.listed_iff follows.scheduled.links task).mp listed)
  have step : SchedulerStates.Step t (.taskCreate [] 0 priority ⟨task, 0, 0, 0⟩) _ :=
    SchedulerStates.step_of_call live ⟨present, unlisted⟩ (rfl : Tasks.call 0 t _ = some _)
  exact matched_step step ⟨scheduled_pushed follows.scheduled step present fresh rfl rfl rfl, agrees⟩
    (List.subset_cons_self task list)

theorem taskFork_matched {dir task : Word} (live : t.halted = false)
    (spares : s.currentTask ≠ 0 → ForkSpares fuel dir s list)
    (returned : taskFork fuel dir s = .ok (task, after)) : Matched t list after := by
  by_cases none : s.currentTask = 0
  · have same : taskFork fuel dir s = .ok (0, s) := if_pos none
    rw [same, Except.ok.injEq, Prod.mk.injEq] at returned
    exact returned.2 ▸ matched_same follows
  · have member : s.currentTask ∈ list :=
      follows.agrees.current ▸ follows.current.resolve_left (follows.agrees.current ▸ none)
    obtain ⟨present, fresh, agrees⟩ := taskFork_agrees follows.agrees (spares none) member none returned
    have unlisted : ¬SchedulerStates.Listed t task := fun listed =>
      fresh ((SchedulerStates.listed_iff follows.scheduled.links task).mp listed)
    have step : SchedulerStates.Step t (.taskFork ⟨task, 0, 0, 0⟩) _ :=
      SchedulerStates.step_of_call live ⟨present, unlisted⟩ (rfl : Tasks.call 0 t _ = some _)
    have forked : Tasks.taskFork ⟨task, 0, 0, 0⟩ t = _ := if_neg (follows.agrees.current ▸ none)
    refine matched_step step ⟨?_, agrees⟩ (List.subset_cons_self task list)
    apply scheduled_pushed follows.scheduled step present fresh
    · rw [forked]
      rfl
    · rw [forked]
    · rfl

theorem taskWake_matched {task : Word} (live : t.halted = false) (member : task ∈ list) :
    Matched t list (taskWake task s) := by
  have listed := (SchedulerStates.listed_iff follows.scheduled.links task).mpr member
  have step : SchedulerStates.Step t (.taskWake task) (Tasks.taskWake task t) :=
    SchedulerStates.step_of_call live listed (rfl : Tasks.call 0 t _ = some _)
  obtain ⟨other, kept, _⟩ := SchedulerStates.step_scheduled follows.scheduled step
  have links : TaskList (Tasks.taskWake task t).tasks (Tasks.taskWake task t).taskListHead list := by
    unfold Tasks.taskWake
    split
    · exact follows.scheduled.links.store rfl
    · exact follows.scheduled.links
  have same := links.unique kept.links
  exact matched_step step ⟨same ▸ kept, taskWake_agrees follows.agrees member⟩ (List.Subset.refl list)

/-- One step on memory is one of the model, or none when there is no current task. -/
theorem step_matched (step : SparingStep s op after) : Matched t list after := by
  obtain ⟨allowed, fuel, returned, spared⟩ := step
  have spares := spared list follows.listing
  have live (other : op ≠ .timerHandler) : t.halted = false := by
    rw [follows.agrees.halted]
    exact Bool.eq_false_iff.mpr fun halted => other (allowed.halted halted)
  have idle := follows.scheduled.idle
  have running (other : op ≠ .timerHandler) {action : Tasks.Call} : t.halted = true → action = .timerHandler :=
    fun halted => absurd ((live other).symm.trans halted) Bool.false_ne_true
  have links := follows.scheduled.links
  cases op with
  | taskCreate name entry priority dir =>
    obtain ⟨⟨task, result⟩, created, rfl⟩ := map_eq_ok returned
    exact taskCreate_matched follows (live nofun) spares created
  | taskFork dir =>
    obtain ⟨⟨task, result⟩, forked, rfl⟩ := map_eq_ok returned
    exact taskFork_matched follows (live nofun) spares forked
  | taskExit exitCode regs =>
    obtain ⟨result, called, agrees⟩ := taskExit_agrees follows.agrees links follows.current idle returned
    exact matched_counting follows (.taskExit exitCode regs) rfl (running nofun) trivial called agrees
  | taskYield regs =>
    obtain ⟨result, called, agrees⟩ := taskSchedule_agrees follows.agrees links follows.current idle returned
    exact matched_counting follows (.taskYield regs) rfl (running nofun) trivial called agrees
  | taskSleep ticks regs =>
    obtain ⟨result, called, agrees⟩ := taskSleep_agrees follows.agrees links follows.current idle returned
    exact matched_counting follows (.taskSleep ticks regs) rfl (running nofun) trivial called agrees
  | taskWake task =>
    obtain ⟨other, listing, member⟩ := allowed.wakes task rfl
    rw [Except.ok.inj returned.symm]
    exact taskWake_matched follows (live nofun) (follows.listing.unique listing ▸ member)
  | timerHandler =>
    obtain ⟨result, called, agrees⟩ := timerHandler_agrees follows.agrees links returned
    exact matched_counting follows .timerHandler rfl (fun _ => rfl) trivial called agrees

end step

theorem run_matched {ops : List Call} (follows : Follows s t list) (run : Runs SparingStep s ops after) :
    Matched t list after := by
  induction run generalizing t list with
  | done s => exact matched_same follows
  | next first _ ih =>
    obtain ⟨actions, middle, listed, reached, follows, grows⟩ := step_matched follows first
    obtain ⟨later, result, others, rest, follows, also⟩ := ih follows
    exact ⟨actions ++ later, result, others, reached.append rest, follows, List.Subset.trans grows also⟩

theorem start_follows (mm : Mm) (timerTicks : Word) :
    Follows (start mm timerTicks) (Tasks.start (fun _ => Task.zero) 0 0) [] where
  scheduled := SchedulerStates.start_scheduled _ 0 0
  agrees := {
    spread := fun _ member => absurd member List.not_mem_nil
    tasks := fun _ member => absurd member List.not_mem_nil
    head := rfl
    current := rfl
    idle := rfl
    halted := rfl }

/-- Of the listed tasks at most one runs, and it is current_task, which is listed; a zombie stays one
and never becomes current_task again, whatever these steps do. -/
structure Orderly (step : System → Call → System → Prop) (s : System) (list : List Word) : Prop where
  links : TaskList (view s.mem) s.taskListHead list
  alone : ∀ task ∈ list, ∀ other ∈ list, field s.mem task .state = code .running →
    field s.mem other .state = code .running → task = other
  current : ∀ task ∈ list, field s.mem task .state = code .running → task = s.currentTask
  listed : s.currentTask ≠ 0 → s.currentTask ∈ list
  buried : ∀ task ∈ list, field s.mem task .state = code .zombie → s.currentTask ≠ task ∧
    ∀ later t, Runs step s later t → field t.mem task .state = code .zombie ∧ t.currentTask ≠ task

/-- Every state of a sparing run that has not halted is in order. -/
theorem sparingRun_orderly (mm : Mm) (timerTicks : Word) (ops : List Call) (s : System)
    (run : Runs SparingStep (start mm timerTicks) ops s) (live : s.halted = false) :
    ∃ list, Orderly SparingStep s list := by
  obtain ⟨actions, model, list, reached, follows, _⟩ := run_matched (start_follows mm timerTicks) run
  have awake : model.halted = false := follows.agrees.halted.trans live
  obtain ⟨same, links, alone, single, listed, buried⟩ :=
    SchedulerStates.run_states (fun _ => Task.zero) 0 0 actions model reached awake
  obtain rfl := follows.scheduled.links.unique links
  have current := follows.agrees.current
  have running {task : Word} (member : task ∈ list) (runs : field s.mem task .state = code .running) :
      (model.tasks task).state = .running := (follows.state_iff member (by decide)).mp runs
  refine ⟨list, follows.listing, ?_, ?_, ?_, ?_⟩
  · exact fun task member other also first second =>
      alone task member other also (running member first) (running also second)
  · exact fun task member runs => (single task member (running member runs)).trans current
  · exact fun some => current ▸ listed (current ▸ some)
  · intro task member zombie
    obtain ⟨elsewhere, stays⟩ := buried task member ((follows.state_iff member (by decide)).mp zombie)
    refine ⟨current ▸ elsewhere, fun later t rest => ?_⟩
    obtain ⟨others, result, final, onward, after, grows⟩ := run_matched follows rest
    obtain ⟨still, never⟩ := stays others result onward
    exact ⟨(after.state_iff (grows member) (by decide)).mpr still, after.agrees.current ▸ never⟩

end Vaelen.Kernel.SchedulerRuns
