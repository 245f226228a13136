import Vaelen.Kernel.Interrupts

/-!
What an exception or interrupt leaves of the interrupted state. The frame is undone word for
word; iret finds its own three words only when the stub and the processor together have
pushed one error word below them.
-/

namespace Vaelen.Kernel.InterruptReturn
open Vaelen.Base X86 TrapFrame Interrupts

/-- The C handler has returned and kept the stack between its arguments and `top`. -/
structure Preserves (top : Word) (called after : Machine) : Prop where
  esp : after.reg .esp = called.reg .esp + 4
  ss : after.seg .ss = called.seg .ss
  stack : ∀ x, Within (called.reg .esp + 8) (top - (called.reg .esp + 8)).toNat x →
    after.mem x = called.mem x

/-- At iret the stack pointer is at the interrupted eip, cs and eflags, and the interrupted code
goes on with all its registers. -/
structure Transparent (m after : Machine) : Prop where
  esp : (unwind after).reg .esp = m.reg .esp - 12
  eip : load32 (unwind after).mem ((unwind after).reg .esp) = m.eip
  cs : load32 (unwind after).mem ((unwind after).reg .esp + 4) = (m.seg .cs).setWidth 32
  eflags : load32 (unwind after).mem ((unwind after).reg .esp + 8) = m.eflags
  reg : ∀ source, (resume after).reg source = m.reg source
  seg : ∀ source, (resume after).seg source = m.seg source

variable {zeroExtend : Bool} {stub : Stub} {error returnAddress : Word} {m after : Machine}

/-- Five words lie between the interrupted stack pointer and the frame, or six. -/
theorem depth_eq_iff (stub : Stub) : depth stub = 5 ↔ stub.vector ≠ 21 := by
  cases stub with
  | isr n =>
    revert n
    decide
  | irq n =>
    revert n
    decide
  | isr128 => decide

theorem iret_seg (m : Machine) (source : Seg) :
    (iret m).seg source =
      if source = .cs then (load32 m.mem (m.reg .esp + 4)).setWidth 16 else m.seg source :=
  Function.update_apply m.seg .cs _ source

theorem handled_ss (zeroExtend : Bool) (stub : Stub) (error returnAddress : Word) (m : Machine) :
    (handled zeroExtend stub error returnAddress m).seg .ss = m.seg .ss := by
  obtain ⟨entry, _, _, segs, _, same⟩ := handled_entry zeroExtend stub error returnAddress m
  rw [same, ← segs, commonStub, exec_append, exec_append, exec_pushes,
    ← congrFun (pushAll_seg entry (frameWords zeroExtend entry)) .ss]
  rfl

section preserved
variable (kept : Preserves (m.reg .esp) (handled zeroExtend stub error returnAddress m) after)
include kept

/-- A word of the stack above the argument of the handler. -/
theorem preserved_word (slot : Word) (low : 4 ≤ slot.toNat)
    (high : slot.toNat + 4 ≤ 4 * depth stub + 52) :
    load32 after.mem ((handled zeroExtend stub error returnAddress m).reg .esp + 4 + slot) =
      load32 (handled zeroExtend stub error returnAddress m).mem
        ((handled zeroExtend stub error returnAddress m).reg .esp + 4 + slot) := by
  have small := depth_le stub
  apply load32_congr
  intro x inside
  apply kept.stack
  rw [handled_esp] at inside ⊢
  unfold Within at inside ⊢
  bv_omega

theorem unwound_esp :
    (unwind after).reg .esp = m.reg .esp + 8 - BitVec.ofNat 32 (4 * depth stub) := by
  have small := depth_le stub
  rw [unwind_esp, kept.esp, handled_esp]
  bv_omega

theorem unwound_reg {source : Reg} (other : source ≠ .esp) :
    (unwind after).reg source = m.reg source := by
  have low : 4 ≤ (savedAt source).toNat := by cases source <;> decide
  have high : (savedAt source).toNat ≤ 48 := by cases source <;> decide
  rw [unwind_reg after other, kept.esp, preserved_word kept _ low (by omega)]
  exact handled_saved zeroExtend stub error returnAddress m other

theorem unwound_segment {source : Seg} (code : source ≠ .cs) :
    (unwind after).seg source = m.seg source := by
  by_cases stack : source = .ss
  · rw [stack, unwind_ss, kept.ss, handled_ss]
  · have low : 4 ≤ (segmentAt source).toNat := by
      cases source with
      | cs => exact absurd rfl code
      | ss => exact absurd rfl stack
      | _ => decide
    have high : (segmentAt source).toNat ≤ 16 := by cases source <;> decide
    rw [unwind_segment after code stack, kept.esp, preserved_word kept _ low (by omega)]
    exact handled_segment zeroExtend stub error returnAddress m code stack

/-- The words the processor pushed first are still there. -/
theorem unwound_interrupted :
    load32 (unwind after).mem (m.reg .esp - 12) = m.eip ∧
      load32 (unwind after).mem (m.reg .esp - 8) = (m.seg .cs).setWidth 32 ∧
      load32 (unwind after).mem (m.reg .esp - 4) = m.eflags := by
  have small := depth_le stub
  have word : ∀ back : Nat, 4 ≤ back → back ≤ 12 →
      load32 after.mem (m.reg .esp - BitVec.ofNat 32 back) =
        load32 (handled zeroExtend stub error returnAddress m).mem
          (m.reg .esp - BitVec.ofNat 32 back) := by
    intro back low high
    have slot : (handled zeroExtend stub error returnAddress m).reg .esp + 4 +
        BitVec.ofNat 32 (4 * depth stub + 52 - back) = m.reg .esp - BitVec.ofNat 32 back := by
      rw [handled_esp]
      bv_omega
    have same := preserved_word kept (BitVec.ofNat 32 (4 * depth stub + 52 - back))
      (by bv_omega) (by bv_omega)
    rwa [slot] at same
  obtain ⟨eip, cs, eflags⟩ := handled_interrupted zeroExtend stub error returnAddress m
  rw [unwind_mem]
  exact ⟨(word 12 (by decide) (by decide)).trans eip, (word 8 (by decide) (by decide)).trans cs,
    (word 4 (by decide) (by decide)).trans eflags⟩

/-- The stack pointer alone decides. -/
theorem transparent_of_esp (esp : (unwind after).reg .esp = m.reg .esp - 12) :
    Transparent m after := by
  obtain ⟨eip, cs, eflags⟩ := unwound_interrupted kept
  have second : m.reg .esp - 12 + 4 = m.reg .esp - 8 := by bv_omega
  have third : m.reg .esp - 12 + 8 = m.reg .esp - 4 := by bv_omega
  refine ⟨esp, esp ▸ eip, ?_, ?_, fun source => ?_, fun source => ?_⟩
  · rw [esp, second, cs]
  · rw [esp, third, eflags]
  · by_cases other : source = .esp
    · rw [other, resume_esp, esp, BitVec.sub_add_cancel]
    · rw [resume_reg after other, unwound_reg kept other]
  · by_cases code : source = .cs
    · rw [resume_eq, iret_seg, if_pos code, esp, second, cs, code]
      simp
    · rw [resume_eq, iret_seg, if_neg code, unwound_segment kept code]

end preserved

/-- Exceptions and interrupts are transparent exactly when the vector is not 21. -/
theorem transparent_iff (zeroExtend : Bool) (stub : Stub) (error returnAddress : Word)
    (m after : Machine)
    (kept : Preserves (m.reg .esp) (handled zeroExtend stub error returnAddress m) after) :
    Transparent m after ↔ stub.vector ≠ 21 := by
  rw [← depth_eq_iff]
  have small := depth_le stub
  have top := unwound_esp kept
  constructor
  · intro transparent
    have same := transparent.esp
    rw [top] at same
    bv_omega
  · intro five
    apply transparent_of_esp kept
    rw [top, five]
    bv_omega

/-- Code that uses 0x90000 as its stack. -/
def running : Machine where
  reg source := if source = .esp then 0x90000 else 0
  seg _ := 0x10
  eip := 0x100000
  eflags := 0x202
  mem _ := 0

/-- A handler that does nothing. -/
theorem preserves_ret (top : Word) (called : Machine) :
    Preserves top called (called.set .esp (called.reg .esp + 4)) where
  esp := set_reg_self called .esp _
  ss := rfl
  stack _ _ := rfl

/-- A page fault is transparent. -/
theorem transparent_iff_pageFault :
    Transparent running ((handled true (.isr 14) 2 0x100100 running).set .esp
        ((handled true (.isr 14) 2 0x100100 running).reg .esp + 4)) ↔
      (Stub.isr 14).vector ≠ 21 :=
  transparent_iff true (.isr 14) 2 0x100100 running _ (preserves_ret _ _)

/-- After a control protection exception iret takes the error code for eip. -/
theorem not_transparent :
    ¬∀ (zeroExtend : Bool) (stub : Stub) (error returnAddress : Word) (m after : Machine),
      Preserves (m.reg .esp) (handled zeroExtend stub error returnAddress m) after →
        Transparent m after := by
  intro claim
  have kept := preserves_ret (running.reg .esp) (handled true (.isr 21) 3 0x100100 running)
  have same := (claim true (.isr 21) 3 0x100100 running _ kept).esp
  rw [unwound_esp kept] at same
  exact absurd same (by decide)

end Vaelen.Kernel.InterruptReturn
