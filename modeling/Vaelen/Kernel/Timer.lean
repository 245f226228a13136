import Vaelen.Kernel.Tasks

/-!
timer_sleep of timer.c, one C statement at a time, with the timer interrupt running between any two of
them. The product, the target and the counter are words of 32 bits.
-/

namespace Vaelen.Kernel.Timer
open Vaelen.Base

/-- Where timer_sleep is in its loop, with its local variable `target`. -/
inductive Sleeper where
  | testing (target : Word)
  | halting (target : Word)
  | returned
  deriving DecidableEq, Repr

/-- The static variables of timer.c and the caller of timer_sleep. -/
structure System where
  timerTicks : Word
  timerFrequency : Word
  sleeper : Sleeper

inductive Event where
  | timerHandler
  | statement
  deriving DecidableEq, Repr

/-- The call, once the target is computed. -/
def timerSleep (ms timerTicks timerFrequency : Word) : System where
  timerTicks := timerTicks
  timerFrequency := timerFrequency
  sleeper := .testing (timerTicks + ms * timerFrequency / 1000)

/-- hlt ends with any interrupt, of the timer or not. -/
def statement (s : System) : System :=
  match s.sleeper with
  | .testing target => { s with sleeper := if s.timerTicks < target then .halting target else .returned }
  | .halting target => { s with sleeper := .testing target }
  | .returned => s

def step (s : System) : Event → System
  | .timerHandler => { s with timerTicks := s.timerTicks + 1 }
  | .statement => statement s

/-- This is what timer_handler does to the counter. -/
theorem timerHandler_timerTicks {fuel : Nat} {s t : Tasks.Scheduler} (returned : Tasks.timerHandler fuel s = some t) :
    t.timerTicks = s.timerTicks + 1 := by
  unfold Tasks.timerHandler at returned
  cases walked : Tasks.timerLoop fuel s.tasks s.taskListHead with
  | none =>
    rw [walked] at returned
    exact absurd returned (Option.some_ne_none t).symm
  | some tasks =>
    rw [walked] at returned
    exact (congrArg Tasks.Scheduler.timerTicks (Option.some.inj returned)).symm

def ticks (events : List Event) : Nat := events.count .timerHandler

/-- However the interrupts come, the call does not return before the time has passed. -/
def Waits (ms timerTicks timerFrequency : Word) : Prop :=
  ∀ events, (events.foldl step (timerSleep ms timerTicks timerFrequency)).sleeper = .returned →
    ms.toNat * timerFrequency.toNat / 1000 ≤ ticks events

/-! The run of a call. -/

variable {start wait frequency : Word} {s : System} {passed : Nat}

/-- The state `passed` ticks after the target was put `wait` ahead. -/
structure Elapsed (start wait : Word) (passed : Nat) (s : System) : Prop where
  counter : s.timerTicks = start + BitVec.ofNat 32 passed
  testing : ∀ target, s.sleeper = .testing target → target = start + wait
  halting : ∀ target, s.sleeper = .halting target → target = start + wait
  returned : s.sleeper = .returned → wait.toNat ≤ passed

theorem Elapsed.timerHandler (elapsed : Elapsed start wait passed s) :
    Elapsed start wait (passed + 1) (step s .timerHandler) := by
  refine ⟨?_, elapsed.testing, elapsed.halting, fun ended => (elapsed.returned ended).trans (Nat.le_succ _)⟩
  change s.timerTicks + 1 = _
  rw [elapsed.counter, BitVec.ofNat_add, BitVec.add_assoc]
  rfl

/-- The test fails only once the counter has reached a target that has not wrapped. -/
theorem Elapsed.statement (elapsed : Elapsed start wait passed s) (room : start.toNat + wait.toNat < 2 ^ 32) :
    Elapsed start wait passed (step s .statement) := by
  obtain ⟨timerTicks, timerFrequency, sleeper⟩ := s
  have counter : timerTicks = start + BitVec.ofNat 32 passed := elapsed.counter
  cases sleeper with
  | testing target =>
    have place : target = start + wait := elapsed.testing target rfl
    by_cases before : timerTicks < target
    · have same : step ⟨timerTicks, timerFrequency, .testing target⟩ .statement =
          ⟨timerTicks, timerFrequency, .halting target⟩ := by
        simp only [step, Timer.statement, if_pos before]
      rw [same]
      exact ⟨counter, fun _ => Sleeper.noConfusion, fun _ here => (Sleeper.halting.inj here) ▸ place, Sleeper.noConfusion⟩
    · have same : step ⟨timerTicks, timerFrequency, .testing target⟩ .statement =
          ⟨timerTicks, timerFrequency, .returned⟩ := by
        simp only [step, Timer.statement, if_neg before]
      rw [same]
      refine ⟨counter, fun _ => Sleeper.noConfusion, fun _ => Sleeper.noConfusion, fun _ => ?_⟩
      by_contra early
      apply before
      rw [counter, place]
      bv_omega
  | halting target =>
    have place : target = start + wait := elapsed.halting target rfl
    exact ⟨counter, fun _ here => (Sleeper.testing.inj here) ▸ place, fun _ => Sleeper.noConfusion, Sleeper.noConfusion⟩
  | returned => exact elapsed

theorem run_elapsed (events : List Event) (room : start.toNat + wait.toNat < 2 ^ 32)
    (elapsed : Elapsed start wait passed s) : Elapsed start wait (passed + ticks events) (events.foldl step s) := by
  induction events generalizing s passed with
  | nil => exact elapsed
  | cons event events ih =>
    cases event with
    | timerHandler =>
      have later := ih elapsed.timerHandler
      have count : passed + 1 + ticks events = passed + ticks (.timerHandler :: events) := by
        rw [ticks, ticks, List.count_cons_self]
        omega
      rwa [count] at later
    | statement =>
      have count : ticks (.statement :: events) = ticks events := List.count_cons_of_ne (by decide)
      rw [count]
      exact ih (elapsed.statement room)

theorem foldl_timerHandler (n : Nat) (s : System) :
    (List.replicate n Event.timerHandler).foldl step s = { s with timerTicks := s.timerTicks + BitVec.ofNat 32 n } := by
  induction n generalizing s with
  | zero =>
    have none : s.timerTicks + BitVec.ofNat 32 0 = s.timerTicks := BitVec.add_zero _
    rw [none]
    rfl
  | succ n ih =>
    have sum : s.timerTicks + 1 + BitVec.ofNat 32 n = s.timerTicks + BitVec.ofNat 32 (n + 1) := by
      rw [BitVec.add_assoc, Nat.add_comm n, BitVec.ofNat_add]
      rfl
    rw [List.replicate_succ, List.foldl_cons, ih, ← sum]
    rfl

/-- Ticks only and then a test. -/
theorem Waits.enough {ms : Word} (waits : Waits ms start frequency) (n : Nat)
    (reached : ¬start + BitVec.ofNat 32 n < start + ms * frequency / 1000) :
    ms.toNat * frequency.toNat / 1000 ≤ n := by
  have ended := waits (List.replicate n .timerHandler ++ [.statement])
  rw [List.foldl_append, foldl_timerHandler, ticks, List.count_append, List.count_replicate_self] at ended
  apply ended
  exact if_neg reached

theorem wait_toNat (ms frequency : Word) :
    (ms * frequency / 1000).toNat = ms.toNat * frequency.toNat % 2 ^ 32 / 1000 := by
  rw [BitVec.toNat_udiv, BitVec.toNat_mul]
  rfl

/-- A wrapped target lies behind the counter at once, and a wrapped product is reached too early. -/
theorem Waits.unwrapped {ms : Word} (waits : Waits ms start frequency) :
    ms.toNat * frequency.toNat < 2 ^ 32 ∧ start.toNat + ms.toNat * frequency.toNat / 1000 < 2 ^ 32 := by
  have wait := wait_toNat ms frequency
  have counter := start.isLt
  have room : start.toNat + (ms * frequency / 1000).toNat < 2 ^ 32 := by
    by_contra wraps
    have passed : ∀ w : Word, ¬start.toNat + w.toNat < 2 ^ 32 → ¬start + BitVec.ofNat 32 0 < start + w := by
      intro w around
      bv_omega
    have early := waits.enough 0 (passed _ wraps)
    omega
  have reached : ∀ w : Word, ¬start + BitVec.ofNat 32 w.toNat < start + w := by
    intro w
    rw [BitVec.ofNat_toNat, BitVec.setWidth_eq]
    exact BitVec.lt_irrefl _
  have late := waits.enough _ (reached _)
  omega

/-- timer_sleep waits long enough exactly when neither the product nor the target wraps. -/
theorem timerSleep_waits_iff (ms timerTicks timerFrequency : Word) :
    Waits ms timerTicks timerFrequency ↔
      ms.toNat * timerFrequency.toNat < 2 ^ 32 ∧
        timerTicks.toNat + ms.toNat * timerFrequency.toNat / 1000 < 2 ^ 32 := by
  constructor
  · exact Waits.unwrapped
  · rintro ⟨exact, room⟩ events ended
    have wait := wait_toNat ms timerFrequency
    rw [Nat.mod_eq_of_lt exact] at wait
    have called : Elapsed timerTicks (ms * timerFrequency / 1000) 0 (timerSleep ms timerTicks timerFrequency) :=
      ⟨(BitVec.add_zero _).symm, fun _ here => (Sleeper.testing.inj here).symm, fun _ => Sleeper.noConfusion,
        Sleeper.noConfusion⟩
    have elapsed := run_elapsed events (by rw [wait]; exact room) called
    have passed := elapsed.returned ended
    rwa [wait, Nat.zero_add] at passed

/-- `sleep 43000` at 100 Hz returns after 5032 ticks. -/
theorem timerSleep_early : ¬∀ ms timerTicks timerFrequency : Word, Waits ms timerTicks timerFrequency := by
  intro claim
  have waits : Waits 43000000 0 100 := claim _ _ _
  exact absurd waits.unwrapped.1 (by decide)

end Vaelen.Kernel.Timer
