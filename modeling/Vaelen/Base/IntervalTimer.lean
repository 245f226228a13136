import Mathlib.Tactic

/-!
Channel 0 of an 8254 interval timer: a control word says how its count is written and whether it counts
around, and the count is the number of input clocks from one output to the next, 0 standing for 2^16.
To count around it needs a count of at least 2.
-/

namespace Vaelen.Base.IntervalTimer

inductive Writing where
  | latch | low | high | both
  deriving DecidableEq, Repr

/-- `first` is the low byte while the high one is awaited, `elapsed` the clocks since the last output. -/
structure Channel where
  writing : Writing
  mode : BitVec 3
  first : Option (BitVec 8)
  reload : BitVec 16
  elapsed : Nat
  deriving DecidableEq, Repr

/-- Bits 7 and 6 select the channel, 5 and 4 the bytes written, 3 to 1 the mode. -/
def Channel.control (value : BitVec 8) (c : Channel) : Channel :=
  if value >>> 6 ≠ 0 then c
  else match ((value >>> 4).setWidth 2).toNat with
    | 0 => c
    | 1 => { c with writing := .low, mode := (value >>> 1).setWidth 3, first := none }
    | 2 => { c with writing := .high, mode := (value >>> 1).setWidth 3, first := none }
    | _ => { c with writing := .both, mode := (value >>> 1).setWidth 3, first := none }

def Channel.load (count : BitVec 16) (c : Channel) : Channel :=
  { c with reload := count, first := none, elapsed := 0 }

def Channel.data (value : BitVec 8) (c : Channel) : Channel :=
  match c.writing, c.first with
  | .latch, _ => c
  | .low, _ => c.load (value.setWidth 16)
  | .high, _ => c.load (value.setWidth 16 <<< 8)
  | .both, none => { c with first := some value }
  | .both, some low => c.load (value ++ low)

def Channel.period (c : Channel) : Nat := if c.reload = 0 then 65536 else c.reload.toNat

/-- Modes 2 and 3 start over by themselves, and do not take 1 for a count. -/
def Channel.periodic (c : Channel) : Bool := c.mode.getLsbD 1 && decide (c.reload ≠ 1)

/-- One input clock, and whether it brings the output. -/
def Channel.clock (c : Channel) : Bool × Channel :=
  if c.elapsed + 1 < c.period then (false, { c with elapsed := c.elapsed + 1 })
  else (c.periodic, { c with elapsed := 0 })

theorem period_pos (c : Channel) : 0 < c.period := by
  unfold Channel.period
  split
  · decide
  · next nonzero => exact Nat.pos_of_ne_zero fun zero => nonzero (BitVec.eq_of_toNat_eq zero)

@[simp] theorem clock_period (c : Channel) : c.clock.2.period = c.period := by
  unfold Channel.clock
  split <;> rfl

@[simp] theorem clock_periodic (c : Channel) : c.clock.2.periodic = c.periodic := by
  unfold Channel.clock
  split <;> rfl

theorem clock_elapsed (c : Channel) : c.clock.2.elapsed < c.period := by
  unfold Channel.clock
  split
  · next before => exact before
  · exact period_pos c

/-- The outputs of the clocks to come: one for each whole period. -/
theorem clock_outputs {c : Channel} (periodic : c.periodic = true) (inside : c.elapsed < c.period) (n : Nat) :
    (c.elapsed + (n + 1)) / c.period = (if c.clock.1 then 1 else 0) + (c.clock.2.elapsed + n) / c.period := by
  have positive := period_pos c
  unfold Channel.clock
  by_cases before : c.elapsed + 1 < c.period
  · simp only [if_pos before, Bool.false_eq_true, if_false, Nat.zero_add]
    congr 1
    omega
  · have last : c.elapsed + (n + 1) = n + c.period := by omega
    simp only [if_neg before, periodic, if_true, Nat.zero_add]
    rw [last, Nat.add_div_right n positive, Nat.add_comm]

end Vaelen.Base.IntervalTimer
