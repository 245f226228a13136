import Vaelen.Base.IntervalTimer
import Vaelen.Kernel.Timer

/-!
timer_init of timer.c and what it makes of timer_sleep: the clocks of the interval timer that a sleep
takes.
-/

namespace Vaelen.Kernel.TimerClock
open Vaelen.Base IntervalTimer Timer
open Timer (System)

/-- outb as far as channel 0 of the timer hears it. -/
def outb (port : BitVec 16) (value : Byte) (c : Channel) : Channel :=
  if port = 0x43 then c.control value
  else if port = 0x40 then c.data value
  else c

/-- The static variable of timer.c and the timer. -/
structure Driver where
  timerFrequency : Word
  channel : Channel

/-- none when the division faults. -/
def timerInit (frequency : Word) (d : Driver) : Option Driver :=
  if frequency = 0 then none
  else
    let divisor := 1193180 / frequency
    let channel := outb 0x43 0x36 d.channel
    let channel := outb 0x40 ((divisor &&& 0xFF).setWidth 8) channel
    let channel := outb 0x40 (((divisor >>> 8) &&& 0xFF).setWidth 8) channel
    some { timerFrequency := frequency, channel := channel }

theorem halves (x : Word) :
    (((x >>> 8) &&& 0xFF).setWidth 8 ++ (x &&& 0xFF).setWidth 8 : BitVec 16) = x.setWidth 16 := by
  ext i inside
  rw [BitVec.getElem_append]
  by_cases low : i < 8
  · interval_cases i <;> simp
  · have high : i - 8 < 8 := by omega
    have place : 8 + (i - 8) = i := by omega
    rw [dif_neg low]
    interval_cases i <;> simp

/-- The two bytes are the low half of the divisor. -/
theorem timerInit_eq {frequency : Word} (nonzero : frequency ≠ 0) (d : Driver) :
    timerInit frequency d = some
      { timerFrequency := frequency
        channel :=
          { writing := .both, mode := 3, first := none
            reload := ((1193180 : Word) / frequency).setWidth 16, elapsed := 0 } } := by
  rw [timerInit, if_neg nonzero]
  have control : ∀ c : Channel, outb 0x43 0x36 c = { c with writing := .both, mode := 3, first := none } :=
    fun _ => rfl
  have data : ∀ (value : Byte) (c : Channel), outb 0x40 value c = c.data value := fun _ _ => rfl
  rw [← halves]
  simp only [control, data, Channel.data, Channel.load]

/-- The divisor that the timer is given. -/
theorem timerInit_period {frequency : Word} (nonzero : frequency ≠ 0) (d : Driver) :
    ∃ e, timerInit frequency d = some e ∧ e.timerFrequency = frequency ∧
      (e.channel.periodic = true ↔ 1193180 / frequency.toNat % 65536 ≠ 1) ∧
      e.channel.elapsed = 0 ∧ e.channel.period =
        if 1193180 / frequency.toNat % 65536 = 0 then 65536 else 1193180 / frequency.toNat % 65536 := by
  have reload : (((1193180 : Word) / frequency).setWidth 16).toNat = 1193180 / frequency.toNat % 65536 := by
    rw [BitVec.toNat_setWidth, BitVec.toNat_udiv]
    rfl
  have zero : ((1193180 : Word) / frequency).setWidth 16 = 0 ↔ 1193180 / frequency.toNat % 65536 = 0 := by
    rw [← reload]
    exact ⟨fun same => congrArg BitVec.toNat same, fun same => BitVec.eq_of_toNat_eq same⟩
  have one : ((1193180 : Word) / frequency).setWidth 16 = 1 ↔ 1193180 / frequency.toNat % 65536 = 1 := by
    rw [← reload]
    exact ⟨fun same => congrArg BitVec.toNat same, fun same => BitVec.eq_of_toNat_eq same⟩
  refine ⟨_, timerInit_eq nonzero d, rfl, ?_, rfl, ?_⟩
  · simp only [Channel.periodic, Bool.and_eq_true, decide_eq_true_eq]
    exact (and_iff_right (by decide)).trans (not_congr one)
  · simp only [Channel.period, zero, reload]

theorem divisor_iff {f : Nat} (positive : 0 < f) :
    1193180 / f % 65536 ≠ 1 ∧
        (if 1193180 / f % 65536 = 0 then 65536 else 1193180 / f % 65536) = 1193180 / f ↔
      19 ≤ f ∧ f ≤ 596590 := by
  constructor
  · intro ⟨around, same⟩
    constructor
    · by_contra slow
      have large : 1193180 / 18 ≤ 1193180 / f := Nat.div_le_div_left (by omega) positive
      split at same <;> omega
    · by_contra fast
      have few : 1193180 / f ≤ 1193180 / 596591 := Nat.div_le_div_left (by omega) (by decide)
      split at same <;> omega
  · rintro ⟨slow, fast⟩
    have small : 1193180 / f ≤ 1193180 / 19 := Nat.div_le_div_left slow (by decide)
    have some : 1193180 / 596590 ≤ 1193180 / f := Nat.div_le_div_left fast positive
    have whole : 1193180 / f % 65536 = 1193180 / f := Nat.mod_eq_of_lt (by omega)
    rw [whole, if_neg (by omega)]
    exact ⟨by omega, rfl⟩

/-- timer_init makes the timer count around with the period of its frequency exactly when the divisor
fits 16 bits and is at least 2; it divides by zero only for frequency 0. -/
theorem timerInit_period_iff (frequency : Word) (d : Driver) :
    (timerInit frequency d = none ↔ frequency = 0) ∧
      ∀ e, timerInit frequency d = some e →
        (e.channel.periodic = true ∧ e.channel.period = 1193180 / frequency.toNat ↔
          19 ≤ frequency.toNat ∧ frequency.toNat ≤ 596590) := by
  by_cases nonzero : frequency = 0
  · subst nonzero
    refine ⟨iff_of_true rfl rfl, fun e started => ?_⟩
    exact absurd started.symm (Option.some_ne_none e)
  · obtain ⟨e, started, _, periodic, _, period⟩ := timerInit_period nonzero d
    have positive : 0 < frequency.toNat := by bv_omega
    refine ⟨iff_of_false (by simp [started]) nonzero, fun other same => ?_⟩
    obtain rfl : e = other := Option.some.inj (started.symm.trans same)
    rw [periodic, period]
    exact divisor_iff positive

/-! The timer beside a caller of timer_sleep. -/

structure Machine where
  channel : Channel
  system : System

inductive Event where
  | clock
  | statement
  deriving DecidableEq, Repr

/-- An output of the timer runs timer_handler. -/
def step (m : Machine) : Event → Machine
  | .clock =>
      { channel := m.channel.clock.2
        system := if m.channel.clock.1 then Timer.step m.system .timerHandler else m.system }
  | .statement => { m with system := Timer.step m.system .statement }

def clocks (events : List Event) : Nat := events.count .clock

/-- What timer.c sees of the clocks. -/
def outputs : Channel → List Event → List Timer.Event
  | _, [] => []
  | c, .clock :: events =>
      if c.clock.1 then .timerHandler :: outputs c.clock.2 events else outputs c.clock.2 events
  | c, .statement :: events => .statement :: outputs c events

theorem run_outputs (m : Machine) (events : List Event) :
    (events.foldl step m).system = (outputs m.channel events).foldl Timer.step m.system := by
  induction events generalizing m with
  | nil => rfl
  | cons event events ih =>
    rw [List.foldl_cons, ih]
    cases event with
    | statement => rfl
    | clock =>
      rw [step, outputs]
      cases m.channel.clock.1 with
      | false => rfl
      | true => rfl

theorem ticks_outputs {c : Channel} (periodic : c.periodic = true) (inside : c.elapsed < c.period)
    (events : List Event) : ticks (outputs c events) = (c.elapsed + clocks events) / c.period := by
  induction events generalizing c with
  | nil => exact (Nat.div_eq_of_lt inside).symm
  | cons event events ih =>
    cases event with
    | statement =>
      have count : clocks (.statement :: events) = clocks events := List.count_cons_of_ne (by decide)
      rw [count, ← ih periodic inside]
      exact List.count_cons_of_ne (by decide)
    | clock =>
      have count : clocks (.clock :: events) = clocks events + 1 := List.count_cons_self
      have later := ih (c := c.clock.2) (by rw [clock_periodic, periodic])
        (by rw [clock_period]; exact clock_elapsed c)
      rw [clock_period] at later
      rw [count, clock_outputs periodic inside, ← later, outputs]
      cases c.clock.1 with
      | false => exact (Nat.zero_add _).symm
      | true => exact List.count_cons_self.trans (Nat.add_comm _ _)

theorem called_elapsed (ms start frequency : Word) :
    Elapsed start (ms * frequency / 1000) 0 (timerSleep ms start frequency) :=
  ⟨(BitVec.add_zero _).symm, fun _ here => (Sleeper.testing.inj here).symm, fun _ => Sleeper.noConfusion,
    Sleeper.noConfusion⟩

/-- Two statements end a sleep whose time has passed, wherever it stands in its loop. -/
theorem sleep_ends {start wait : Word} {passed : Nat} {s : System} (elapsed : Elapsed start wait passed s)
    (enough : wait.toNat ≤ passed) (room : start.toNat + passed < 2 ^ 32) :
    (Timer.step (Timer.step s .statement) .statement).sleeper = .returned := by
  have reached : ¬s.timerTicks < start + wait := by
    rw [elapsed.counter]
    bv_omega
  obtain ⟨timerTicks, timerFrequency, sleeper⟩ := s
  cases sleeper with
  | testing target =>
    obtain rfl := elapsed.testing target rfl
    simp [Timer.step, Timer.statement, reached]
  | halting target =>
    obtain rfl := elapsed.halting target rfl
    simp [Timer.step, Timer.statement, reached]
  | returned => rfl

/-- Once the timer has its period, timer_sleep returns no earlier than so many periods after the last
output, and two statements after them it has returned. -/
theorem sleep_clocks (ms start frequency : Word) (d e : Driver) (started : timerInit frequency d = some e)
    (slow : 19 ≤ frequency.toNat) (fast : frequency.toNat ≤ 596590)
    (product : ms.toNat * frequency.toNat < 2 ^ 32)
    (target : start.toNat + ms.toNat * frequency.toNat / 1000 < 2 ^ 32)
    (elapsed : Nat) (inside : elapsed < 1193180 / frequency.toNat) (events : List Event) :
    let m : Machine := ⟨{ e.channel with elapsed := elapsed }, timerSleep ms start frequency⟩
    let time := ms.toNat * frequency.toNat / 1000 * (1193180 / frequency.toNat)
    ((events.foldl step m).system.sleeper = .returned → time ≤ elapsed + clocks events) ∧
      (time ≤ elapsed + clocks events →
        start.toNat + (elapsed + clocks events) / (1193180 / frequency.toNat) < 2 ^ 32 →
        ((events ++ [Event.statement, Event.statement]).foldl step m).system.sleeper = .returned) := by
  intro m time
  have nonzero : frequency ≠ 0 := by bv_omega
  have positive : 0 < 1193180 / frequency.toNat := Nat.zero_lt_of_lt inside
  obtain ⟨f, same, _, around, _, period⟩ := timerInit_period nonzero d
  obtain rfl : f = e := Option.some.inj (same.symm.trans started)
  obtain ⟨some, whole⟩ := (divisor_iff (Nat.zero_lt_of_lt slow)).mpr ⟨slow, fast⟩
  have periodic := around.mpr some
  rw [whole] at period
  have wait := wait_toNat ms frequency
  rw [Nat.mod_eq_of_lt product] at wait
  have count : ticks (outputs m.channel events) = (elapsed + clocks events) / (1193180 / frequency.toNat) := by
    have counted := ticks_outputs (c := m.channel) periodic (period ▸ inside) events
    exact counted.trans (congrArg _ period)
  have run := run_elapsed (outputs m.channel events) (by rw [wait]; exact target) (called_elapsed ms start frequency)
  rw [Nat.zero_add, count] at run
  change Elapsed _ _ _ ((outputs m.channel events).foldl Timer.step m.system) at run
  rw [← run_outputs] at run
  constructor
  · intro ended
    have passed := run.returned ended
    rw [wait] at passed
    exact (Nat.le_div_iff_mul_le positive).mp passed
  · intro passed room
    rw [List.foldl_append]
    refine sleep_ends run ?_ room
    rw [wait]
    exact (Nat.le_div_iff_mul_le positive).mpr passed

/-- A tenth of a second at 100 Hz. -/
theorem sleep_clocks_tenth : ∃ e, timerInit 100 ⟨0, ⟨.latch, 0, none, 0, 0⟩⟩ = some e ∧
    ∀ events : List Event,
      let m : Machine := ⟨{ e.channel with elapsed := 0 }, timerSleep 100 0 100⟩
      ((events.foldl step m).system.sleeper = .returned → 119310 ≤ 0 + clocks events) ∧
        (119310 ≤ 0 + clocks events → 0 + (0 + clocks events) / 11931 < 2 ^ 32 →
          ((events ++ [Event.statement, Event.statement]).foldl step m).system.sleeper = .returned) :=
  ⟨_, rfl, fun events => sleep_clocks 100 0 100 _ _ rfl (by decide) (by decide) (by decide) (by decide) 0
    (by decide) events⟩

end Vaelen.Kernel.TimerClock
