import Vaelen.Base.Memory

/-!
Straight-line code of a 32-bit x86 machine in a flat address space: general and
segment registers, the stack, and the instructions that move words between them.
-/

namespace Vaelen.Base.X86

inductive Reg where
  | eax | ecx | edx | ebx | esp | ebp | esi | edi
  deriving DecidableEq, Repr

inductive Seg where
  | cs | ds | es | fs | gs | ss
  deriving DecidableEq, Repr

structure Machine where
  reg : Reg → Word
  seg : Seg → BitVec 16
  eip : Word
  eflags : Word
  mem : Mem

/-- The address that a base register and a displacement name. -/
structure Operand where
  base : Reg
  displacement : Word

inductive Instr where
  | cli
  | push (source : Reg)
  | pushByte (value : Byte)
  | pushSeg (source : Seg)
  | pusha
  | pop (target : Reg)
  | mov (target source : Reg)
  | movAx (value : BitVec 16)
  | movSeg (target : Seg)
  | load (target : Reg) (address : Operand)
  | store (address : Operand) (source : Reg)
  | call (returnAddress : Word)
  | ret

namespace Machine

def set (m : Machine) (target : Reg) (value : Word) : Machine :=
  { m with reg := Function.update m.reg target value }

def push (m : Machine) (value : Word) : Machine :=
  { m.set .esp (m.reg .esp - 4) with mem := store32 m.mem (m.reg .esp - 4) value }

def pushAll (m : Machine) (values : List Word) : Machine := values.foldl push m

def address (m : Machine) (operand : Operand) : Word := m.reg operand.base + operand.displacement

end Machine

/-- The stack word a segment register is pushed into: `zeroExtend` machines clear its upper
half, the others leave it as it was. -/
def segmentWord (zeroExtend : Bool) (memory : Mem) (slot : Word) (selector : BitVec 16) : Word :=
  if zeroExtend then selector.setWidth 32
  else (load32 memory slot).extractLsb' 16 16 ++ selector

def step (zeroExtend : Bool) (m : Machine) : Instr → Machine
  | .cli => { m with eflags := m.eflags &&& ~~~0x200 }
  | .push source => m.push (m.reg source)
  | .pushByte value => m.push (value.signExtend 32)
  | .pushSeg source =>
      m.push (segmentWord zeroExtend m.mem (m.reg .esp - 4) (m.seg source))
  | .pusha =>
      m.pushAll [m.reg .eax, m.reg .ecx, m.reg .edx, m.reg .ebx, m.reg .esp, m.reg .ebp,
        m.reg .esi, m.reg .edi]
  | .pop target => (m.set .esp (m.reg .esp + 4)).set target (load32 m.mem (m.reg .esp))
  | .mov target source => m.set target (m.reg source)
  | .movAx value => m.set .eax ((m.reg .eax).extractLsb' 16 16 ++ value)
  | .movSeg target =>
      { m with seg := Function.update m.seg target ((m.reg .eax).setWidth 16) }
  | .load target operand => m.set target (load32 m.mem (m.address operand))
  | .store operand source => { m with mem := store32 m.mem (m.address operand) (m.reg source) }
  | .call returnAddress => m.push returnAddress
  | .ret => { m.set .esp (m.reg .esp + 4) with eip := load32 m.mem (m.reg .esp) }

def exec (zeroExtend : Bool) (code : List Instr) (m : Machine) : Machine :=
  code.foldl (step zeroExtend) m

theorem exec_append (zeroExtend : Bool) (first second : List Instr) (m : Machine) :
    exec zeroExtend (first ++ second) m = exec zeroExtend second (exec zeroExtend first m) :=
  List.foldl_append

section registers
variable (m : Machine) (target : Reg) (value : Word)

@[simp] theorem set_reg_self : (m.set target value).reg target = value :=
  Function.update_self _ _ _
@[simp] theorem set_mem : (m.set target value).mem = m.mem := rfl
@[simp] theorem set_seg : (m.set target value).seg = m.seg := rfl
@[simp] theorem push_esp : (m.push value).reg .esp = m.reg .esp - 4 := set_reg_self m .esp _
@[simp] theorem push_mem : (m.push value).mem = store32 m.mem (m.reg .esp - 4) value := rfl
@[simp] theorem push_seg : (m.push value).seg = m.seg := rfl

theorem set_reg_other {other : Reg} (different : other ≠ target) :
    (m.set target value).reg other = m.reg other :=
  Function.update_of_ne different _ _

theorem push_reg {other : Reg} (different : other ≠ .esp) :
    (m.push value).reg other = m.reg other := set_reg_other m .esp _ different

theorem push_set {other : Reg} (different : other ≠ .esp) (before : Word) :
    (m.set other before).push value = (m.push value).set other before := by
  have esp : (m.set other before).reg .esp = m.reg .esp := set_reg_other m other before different.symm
  rw [Machine.push, esp]
  change Machine.mk _ _ _ _ _ = Machine.mk _ _ _ _ _
  congr 1
  exact Function.update_comm different before _ m.reg

end registers

/-! Words pushed one after another. -/

variable (m : Machine) (values : List Word)

theorem pushAll_append (more : List Word) :
    m.pushAll (values ++ more) = (m.pushAll values).pushAll more :=
  List.foldl_append

theorem pushAll_esp : (m.pushAll values).reg .esp = m.reg .esp - BitVec.ofNat 32 (4 * values.length) := by
  induction values generalizing m with
  | nil => simp [Machine.pushAll]
  | cons value rest ih =>
    change ((m.push value).pushAll rest).reg .esp = _
    rw [ih, push_esp, List.length_cons]
    bv_omega

theorem pushAll_reg {other : Reg} (different : other ≠ .esp) :
    (m.pushAll values).reg other = m.reg other := by
  induction values generalizing m with
  | nil => rfl
  | cons value rest ih => exact (ih (m.push value)).trans (push_reg m value different)

theorem pushAll_seg : (m.pushAll values).seg = m.seg := by
  induction values generalizing m with
  | nil => rfl
  | cons value rest ih => exact ih (m.push value)

/-- Words above the stack pointer, up to the pushed ones from below, are kept. -/
theorem load32_pushAll_kept {address : Word}
    (room : (address - m.reg .esp).toNat + 4 + 4 * values.length ≤ 2 ^ 32) :
    load32 (m.pushAll values).mem address = load32 m.mem address := by
  induction values generalizing m with
  | nil => rfl
  | cons value rest ih =>
    change load32 ((m.push value).pushAll rest).mem address = _
    simp only [List.length_cons] at room
    rw [ih (m.push value) (by rw [push_esp]; bv_omega), push_mem,
      load32_store32_apart (apart_words (by bv_omega) (by bv_omega))]

/-- Pushing writes nothing but the slots of the pushed words. -/
theorem pushAll_outside (room : 4 * values.length ≤ 2 ^ 32) :
    SameOutside (Within (m.reg .esp - BitVec.ofNat 32 (4 * values.length)) (4 * values.length))
      m.mem (m.pushAll values).mem := by
  induction values generalizing m with
  | nil => exact SameOutside.refl _
  | cons value rest ih =>
    rw [List.length_cons] at room ⊢
    have first : SameOutside (Within (m.reg .esp - 4) 4) m.mem (m.push value).mem :=
      SameOutside.store32 m.mem _ value
    have later := ih (m.push value) (by omega)
    rw [push_esp] at later
    apply (first.mono fun x inside => ?_).trans (later.mono fun x inside => ?_)
    · unfold Within at inside ⊢
      bv_omega
    · unfold Within at inside ⊢
      bv_omega

/-- So every word that shares no byte with them is kept. -/
theorem load32_pushAll_apart {address : Word} (fits : 4 * values.length < 2 ^ 32)
    (apart : Apart address 4 (m.reg .esp - BitVec.ofNat 32 (4 * values.length))
      (4 * values.length)) :
    load32 (m.pushAll values).mem address = load32 m.mem address :=
  (pushAll_outside m values fits.le).load32 apart

/-- Each pushed word is read back from its slot. -/
theorem load32_pushAll (room : 4 * values.length ≤ 2 ^ 32) (i : Nat) (bound : i < values.length) :
    load32 (m.pushAll values).mem (m.reg .esp - BitVec.ofNat 32 (4 * (i + 1))) =
      values[i] := by
  induction values generalizing m i with
  | nil => exact absurd bound (Nat.not_lt_zero i)
  | cons value rest ih =>
    simp only [List.length_cons] at room bound
    change load32 ((m.push value).pushAll rest).mem _ = _
    cases i with
    | zero =>
      rw [load32_pushAll_kept (m.push value) rest (by rw [push_esp]; bv_omega), push_mem]
      exact load32_store32 _ _ _
    | succ i =>
      have slot : m.reg .esp - BitVec.ofNat 32 (4 * (i + 1 + 1)) =
          (m.push value).reg .esp - BitVec.ofNat 32 (4 * (i + 1)) := by
        rw [push_esp]
        bv_omega
      rw [slot, ih (m.push value) (by omega) i (by omega)]
      rfl

/-- The words on the stack from the top down. -/
theorem load32_pushAll_top (room : 4 * values.length ≤ 2 ^ 32) (j : Nat)
    (bound : j < values.length) :
    load32 (m.pushAll values).mem ((m.pushAll values).reg .esp + BitVec.ofNat 32 (4 * j)) =
      values[values.length - 1 - j] := by
  have slot : (m.pushAll values).reg .esp + BitVec.ofNat 32 (4 * j) =
      m.reg .esp - BitVec.ofNat 32 (4 * (values.length - 1 - j + 1)) := by
    rw [pushAll_esp]
    bv_omega
  rw [slot, load32_pushAll m values room _ (by omega)]

/-- The last two words pushed. -/
theorem load32_push_push (first second : Word) :
    load32 ((m.push first).push second).mem (((m.push first).push second).reg .esp) = second ∧
      load32 ((m.push first).push second).mem (((m.push first).push second).reg .esp + 4) =
        first := by
  have slot : ((m.push first).push second).reg .esp + 4 = m.reg .esp - 4 := by
    simp only [push_esp]
    bv_omega
  rw [slot]
  constructor
  · simp only [push_mem, push_esp, load32_store32]
  · rw [push_mem, push_esp, load32_store32_apart (apart_words (by bv_omega) (by bv_omega)),
      push_mem, load32_store32]

/-- A segment register pushed after other words. -/
theorem step_pushSeg (zeroExtend : Bool) (source : Seg)
    (room : 4 * (values.length + 1) ≤ 2 ^ 32) :
    step zeroExtend (m.pushAll values) (.pushSeg source) =
      m.pushAll (values ++ [segmentWord zeroExtend m.mem
        (m.reg .esp - BitVec.ofNat 32 (4 * (values.length + 1))) (m.seg source)]) := by
  have slot : (m.pushAll values).reg .esp - 4 =
      m.reg .esp - BitVec.ofNat 32 (4 * (values.length + 1)) := by
    rw [pushAll_esp]
    bv_omega
  have kept : load32 (m.pushAll values).mem
      (m.reg .esp - BitVec.ofNat 32 (4 * (values.length + 1))) =
        load32 m.mem (m.reg .esp - BitVec.ofNat 32 (4 * (values.length + 1))) :=
    load32_pushAll_kept m values (by bv_omega)
  rw [pushAll_append]
  simp only [step, segmentWord, slot, kept, pushAll_seg]
  rfl

end Vaelen.Base.X86
