import Vaelen.Kernel.Platform
import Vaelen.Kernel.Syscalls
import Vaelen.Kernel.TrapFrame

/-!
The way of int 0x80: the gates of idt.c, the stub, the table of handlers that isr.c
dispatches through, and the return to the interrupted code.
-/

namespace Vaelen.Kernel.Interrupts
open Vaelen.Base X86 Platform TrapFrame Tasks Syscalls

/-- The addresses the linker gives to what the path names. -/
structure Symbols where
  stub : Stub → Word
  isrHandlers : Word
  syscallHandler : Word
  distinct : Function.Injective stub

/-! idt.c. -/

structure IdtEntry where
  baseLo : BitVec 16
  sel : BitVec 16
  always0 : Byte
  flags : Byte
  baseHi : BitVec 16

abbrev Idt := Byte → IdtEntry

def idtSetGate (num : Byte) (base : Word) (sel : BitVec 16) (flags : Byte) (idt : Idt) : Idt :=
  Function.update idt num
    { baseLo := (base &&& 0xFFFF).setWidth 16
      baseHi := ((base >>> 16) &&& 0xFFFF).setWidth 16
      sel := sel
      always0 := 0
      flags := flags }

/-- idt_init, the table it clears first included: the gates 0 to 31 lead to the isr stubs,
32 to 47 to the irq stubs, and 0x80 to isr128. -/
def idtInit (symbols : Symbols) : Idt :=
  let cleared : Idt := fun _ => ⟨0, 0, 0, 0, 0⟩
  let exceptions := (List.finRange 32).foldl
    (fun idt (n : Fin 32) => idtSetGate (BitVec.ofNat 8 n) (symbols.stub (.isr n)) 0x08 0x8E idt)
    cleared
  let requests := (List.finRange 16).foldl
    (fun idt (n : Fin 16) =>
      idtSetGate (BitVec.ofNat 8 (32 + n)) (symbols.stub (.irq n)) 0x08 0x8E idt) exceptions
  idtSetGate 0x80 (symbols.stub .isr128) 0x08 0xEE requests

/-- The gate is a present 32-bit interrupt gate that leads to the stub. -/
def Vectored (symbols : Symbols) (idt : Idt) (vector : Byte) (stub : Stub) : Prop :=
  (idt vector).flags &&& 0x9F = 0x8E ∧ (idt vector).baseHi ++ (idt vector).baseLo = symbols.stub stub

/-- int with the given vector, up to the first instruction of the C handler. -/
def Trapped (symbols : Symbols) (idt : Idt) (zeroExtend : Bool) (returnAddress : Word)
    (vector : Byte) (m called : Machine) : Prop :=
  ∃ stub, Vectored symbols idt vector stub ∧ called = handled zeroExtend stub 0 returnAddress m

/-! isr.c and syscall_init. -/

/-- A call through a function pointer. -/
structure Invocation where
  function : Word
  arguments : List Word
  deriving DecidableEq

def isrHandler (symbols : Symbols) (memory : Mem) (regs : Word) : Option Invocation :=
  let handler := load32 memory (symbols.isrHandlers + 4 * (readRegisters memory regs).intNo)
  if handler ≠ 0 then some ⟨handler, [regs]⟩ else none

def isrRegisterHandler (symbols : Symbols) (n : Byte) (handler : Word) (memory : Mem) : Mem :=
  store32 memory (symbols.isrHandlers + 4 * n.setWidth 32) handler

def isrInit (symbols : Symbols) (memory : Mem) : Mem := memset memory symbols.isrHandlers 0 1024

def syscallInit (symbols : Symbols) (memory : Mem) : Mem :=
  isrRegisterHandler symbols 0x80 0 memory

/-- Any machine, with the table of handlers as the initialisation leaves it. -/
def initialised (symbols : Symbols) (m : Machine) : Machine :=
  { m with mem := syscallInit symbols (isrInit symbols m.mem) }

/-! The end of isr_common_stub. -/

def addEsp (bytes : Word) (m : Machine) : Machine := m.set .esp (m.reg .esp + bytes)

def popReg (target : Reg) (m : Machine) : Machine :=
  (m.set .esp (m.reg .esp + 4)).set target (load32 m.mem (m.reg .esp))

def popSeg (target : Seg) (m : Machine) : Machine :=
  { m.set .esp (m.reg .esp + 4) with
    seg := Function.update m.seg target ((load32 m.mem (m.reg .esp)).setWidth 16) }

/-- popa passes over the slot of esp. -/
def popa (m : Machine) : Machine :=
  popReg .eax (popReg .ecx (popReg .edx (popReg .ebx (addEsp 4
    (popReg .ebp (popReg .esi (popReg .edi m)))))))

def iret (m : Machine) : Machine :=
  { m.set .esp (m.reg .esp + 12) with
    eip := load32 m.mem (m.reg .esp)
    seg := Function.update m.seg .cs ((load32 m.mem (m.reg .esp + 4)).setWidth 16)
    eflags := load32 m.mem (m.reg .esp + 8) }

/-- From the return of isr_handler to the interrupted code. -/
def resume (m : Machine) : Machine :=
  iret (addEsp 8 (popa (popSeg .ds (popSeg .es (popSeg .fs (popSeg .gs (addEsp 4 m)))))))

/-- A C function that stores nothing has returned: it used some of the stack below it. -/
structure Returned (called after : Machine) : Prop where
  esp : after.reg .esp = called.reg .esp + 4
  stack : ∃ count ≤ 2 ^ 31,
    SameOutside (Within (called.reg .esp - BitVec.ofNat 32 count) count) called.mem after.mem

/-- What isr_handler calls, given the argument that the stub pushed. -/
def dispatched (symbols : Symbols) (called : Machine) : Option Invocation :=
  isrHandler symbols called.mem (load32 called.mem (called.reg .esp + 4))

/-- int 0x80 runs syscall_handler on the six registers, and the interrupted code finds the
result in eax and its other registers unchanged. -/
structure Served (symbols : Symbols) (idt : Idt) (zeroExtend : Bool) (returnAddress : Word)
    (m : Machine) (fuel : Nat) (allocated : Allocated) (switched : Switched) (s : Services) :
    Prop where
  invoked : ∀ called, Trapped symbols idt zeroExtend returnAddress 0x80 m called →
    dispatched symbols called = some ⟨symbols.syscallHandler,
      [m.reg .eax, m.reg .ebx, m.reg .ecx, m.reg .edx, m.reg .esi, m.reg .edi]⟩
  resumed : ∀ called after result t, Trapped symbols idt zeroExtend returnAddress 0x80 m called →
    syscallHandler fuel allocated switched called.mem (m.reg .eax) (m.reg .ebx) (m.reg .ecx)
      (m.reg .edx) (m.reg .esi) (m.reg .edi) s = some (result, t) →
    Returned called after → (resume after).reg .eax = result ∧
      ∀ source, source ≠ .eax → (resume after).reg source = m.reg source

variable (symbols : Symbols)

/-! The gates. -/

theorem halves (base : Word) :
    ((base >>> 16) &&& 0xFFFF).setWidth 16 ++ (base &&& 0xFFFF).setWidth 16 = base := by
  have mask : ∀ i < 16, (0xFFFF : Word).getLsbD i = true := by decide
  ext i hi
  simp only [BitVec.getElem_append, BitVec.getElem_setWidth, BitVec.getLsbD_and]
  by_cases low : i < 16
  · rw [dif_pos low, mask i low, Bool.and_true, BitVec.getLsbD_eq_getElem hi]
  · have back : 16 + (i - 16) = i := by omega
    rw [dif_neg low, mask (i - 16) (by omega), Bool.and_true, BitVec.getLsbD_ushiftRight, back,
      BitVec.getLsbD_eq_getElem hi]

theorem idtSetGate_vectored {num : Byte} {stub : Stub} {sel : BitVec 16} {flags : Byte}
    (idt : Idt) (interrupt : flags &&& 0x9F = 0x8E) :
    Vectored symbols (idtSetGate num (symbols.stub stub) sel flags idt) num stub := by
  unfold Vectored idtSetGate
  rw [Function.update_self]
  exact ⟨interrupt, halves _⟩

theorem idtSetGate_other {num k : Byte} {stub : Stub} {base : Word} {sel : BitVec 16} {flags : Byte}
    {idt : Idt} (other : k ≠ num) :
    Vectored symbols (idtSetGate num base sel flags idt) k stub ↔ Vectored symbols idt k stub := by
  unfold Vectored idtSetGate
  rw [Function.update_of_ne other]

/-- A run of gates for distinct vectors. -/
theorem foldl_vectored {n : Nat} {num : Fin n → Byte} {stub : Fin n → Stub} {flags : Byte}
    (distinct : Function.Injective num) (interrupt : flags &&& 0x9F = 0x8E) (list : List (Fin n))
    (idt : Idt) {i : Fin n} (member : i ∈ list) :
    Vectored symbols (list.foldl (fun idt i =>
      idtSetGate (num i) (symbols.stub (stub i)) 0x08 flags idt) idt) (num i) (stub i) := by
  induction list using List.reverseRecOn with
  | nil => exact absurd member List.not_mem_nil
  | append_singleton before last ih =>
    rw [List.foldl_append]
    by_cases here : i = last
    · rw [here]
      exact idtSetGate_vectored symbols _ interrupt
    · apply (idtSetGate_other symbols fun same => here (distinct same)).mpr
      exact ih ((List.mem_append.mp member).resolve_right fun also => here (List.mem_singleton.mp also))

theorem foldl_other {n : Nat} {num : Fin n → Byte} {base : Fin n → Word} {k : Byte} {stub : Stub}
    {flags : Byte} (other : ∀ i, k ≠ num i) (list : List (Fin n)) (idt : Idt) :
    Vectored symbols (list.foldl (fun idt i => idtSetGate (num i) (base i) 0x08 flags idt) idt) k stub ↔
      Vectored symbols idt k stub := by
  induction list generalizing idt with
  | nil => exact Iff.rfl
  | cons first rest ih => exact (ih _).trans (idtSetGate_other symbols (other first))

/-- After idt_init the gate of every vector leads to the stub of the same number. -/
theorem idtInit_vectored (stub : Stub) : Vectored symbols (idtInit symbols) stub.vector stub := by
  unfold idtInit
  cases stub with
  | isr n =>
    have isr128 : (Stub.isr n).vector ≠ 0x80 := by
      revert n
      decide
    have requests : ∀ i : Fin 16, (Stub.isr n).vector ≠ BitVec.ofNat 8 (32 + i) := by
      revert n
      decide
    rw [idtSetGate_other symbols isr128, foldl_other symbols requests]
    exact foldl_vectored symbols (by decide) (by decide) _ _ (List.mem_finRange n)
  | irq n =>
    have isr128 : (Stub.irq n).vector ≠ 0x80 := by
      revert n
      decide
    rw [idtSetGate_other symbols isr128]
    exact foldl_vectored symbols (by decide) (by decide) _ _ (List.mem_finRange n)
  | isr128 => exact idtSetGate_vectored symbols _ (by decide)

theorem trapped_iff {zeroExtend : Bool} {returnAddress : Word} {m called : Machine} :
    Trapped symbols (idtInit symbols) zeroExtend returnAddress 0x80 m called ↔
      called = handled zeroExtend .isr128 0 returnAddress m := by
  have gate : Vectored symbols (idtInit symbols) 0x80 .isr128 := idtInit_vectored symbols .isr128
  constructor
  · intro ⟨other, vectored, same⟩
    rwa [symbols.distinct (vectored.2.symm.trans gate.2)] at same
  · intro same
    exact ⟨.isr128, gate, same⟩

/-! The call of the handler. -/

/-- The stub enters isr_common_stub or irq_common_stub with its words on the stack. -/
theorem handled_entry (zeroExtend : Bool) (stub : Stub) (error returnAddress : Word) (m : Machine) :
    ∃ entry : Machine, entry.reg .esp = m.reg .esp - BitVec.ofNat 32 (4 * depth stub) ∧
      (∀ source, source ≠ .esp → entry.reg source = m.reg source) ∧ entry.seg = m.seg ∧
      entry.mem = (m.pushAll (entryWords stub error m)).mem ∧
      handled zeroExtend stub error returnAddress m =
        exec zeroExtend (commonStub returnAddress) entry := by
  obtain ⟨eflags, entered⟩ := exec_entry zeroExtend stub error m
  have esp := pushAll_esp m (entryWords stub error m)
  rw [entryWords_length] at esp
  refine ⟨{ m.pushAll (entryWords stub error m) with eflags := eflags }, esp,
    fun source other => pushAll_reg m (entryWords stub error m) other,
    pushAll_seg m (entryWords stub error m), rfl, ?_⟩
  rw [handled, Stub.code, exec_append, entered]

theorem commonStub_esp (zeroExtend : Bool) (returnAddress : Word) (m : Machine) :
    (exec zeroExtend (commonStub returnAddress) m).reg .esp = m.reg .esp - 56 := by
  obtain ⟨loaded, _, top, same⟩ := exec_commonStub zeroExtend returnAddress m
  rw [same, pushAll_esp, top]
  simp only [List.length_cons, List.length_nil]
  bv_omega

/-- The frame, the argument and the return address. -/
theorem commonStub_outside (zeroExtend : Bool) (returnAddress : Word) (m : Machine) :
    SameOutside (Within (m.reg .esp - 56) 56) m.mem
      (exec zeroExtend (commonStub returnAddress) m).mem := by
  obtain ⟨loaded, saved, top, same⟩ := exec_commonStub zeroExtend returnAddress m
  have first : SameOutside (Within (m.reg .esp - 48) 48) m.mem loaded.mem :=
    saved ▸ pushAll_outside m (frameWords zeroExtend m) (Nat.le_of_ble_eq_true rfl)
  have second := pushAll_outside loaded [loaded.reg .esp, returnAddress] (Nat.le_of_ble_eq_true rfl)
  rw [same]
  apply (first.mono fun x inside => ?_).trans
  apply second.mono fun x inside => ?_
  · rw [top] at inside
    simp only [List.length_cons, List.length_nil] at inside
    unfold Within at inside ⊢
    bv_omega
  · unfold Within at inside ⊢
    bv_omega

theorem handled_esp (zeroExtend : Bool) (stub : Stub) (error returnAddress : Word) (m : Machine) :
    (handled zeroExtend stub error returnAddress m).reg .esp =
      m.reg .esp - BitVec.ofNat 32 (4 * depth stub + 56) := by
  obtain ⟨entry, esp, _, _, _, same⟩ := handled_entry zeroExtend stub error returnAddress m
  have small := depth_le stub
  rw [same, commonStub_esp, esp]
  bv_omega

/-- The stack of the call: the interrupted state, the frame and the argument. -/
theorem handled_outside (zeroExtend : Bool) (stub : Stub) (error returnAddress : Word)
    (m : Machine) :
    SameOutside (Within (m.reg .esp - BitVec.ofNat 32 (4 * depth stub + 56)) (4 * depth stub + 56))
      m.mem (handled zeroExtend stub error returnAddress m).mem := by
  obtain ⟨entry, esp, _, _, mem, same⟩ := handled_entry zeroExtend stub error returnAddress m
  have small := depth_le stub
  have length := entryWords_length stub error m
  have first := pushAll_outside m (entryWords stub error m) (by omega)
  have second := commonStub_outside zeroExtend returnAddress entry
  rw [length] at first
  rw [same]
  apply (first.mono fun x inside => ?_).trans
  apply (mem ▸ second).mono fun x inside => ?_
  · rw [esp] at inside
    unfold Within at inside ⊢
    bv_omega
  · unfold Within at inside ⊢
    bv_omega

/-- The word the frame keeps for a general register, above the argument of the handler. -/
def savedAt : Reg → Word
  | .edi => 20
  | .esi => 24
  | .ebp => 28
  | .esp => 32
  | .ebx => 36
  | .edx => 40
  | .ecx => 44
  | .eax => 48

/-- The same for the segment registers; cs and ss are not in the frame. -/
def segmentAt : Seg → Word
  | .gs => 4
  | .fs => 8
  | .es => 12
  | .ds => 16
  | _ => 0

/-- The words of the frame as the handler's caller finds them. -/
theorem handled_word (zeroExtend : Bool) (stub : Stub) (error returnAddress : Word) (m : Machine) :
    ∃ entry : Machine, (∀ source, source ≠ .esp → entry.reg source = m.reg source) ∧
      entry.seg = m.seg ∧ ∀ j, j < 12 →
        load32 (handled zeroExtend stub error returnAddress m).mem
            ((handled zeroExtend stub error returnAddress m).reg .esp + 4 +
              (4 + BitVec.ofNat 32 (4 * j))) =
          (frameWords zeroExtend entry).get ⟨11 - j, Nat.lt_succ_of_le (Nat.sub_le 11 j)⟩ := by
  obtain ⟨entry, _, kept, segs, _, same⟩ := handled_entry zeroExtend stub error returnAddress m
  refine ⟨entry, kept, segs, fun j bound => ?_⟩
  have slot : entry.reg .esp - 56 + 4 + (4 + BitVec.ofNat 32 (4 * j)) =
      entry.reg .esp - 48 + BitVec.ofNat 32 (4 * j) := by bv_omega
  rw [same, commonStub_esp, slot]
  exact frame_word zeroExtend returnAddress entry j bound

theorem handled_saved (zeroExtend : Bool) (stub : Stub) (error returnAddress : Word) (m : Machine)
    {source : Reg} (other : source ≠ .esp) :
    load32 (handled zeroExtend stub error returnAddress m).mem
        ((handled zeroExtend stub error returnAddress m).reg .esp + 4 + savedAt source) =
      m.reg source := by
  obtain ⟨entry, kept, _, word⟩ := handled_word zeroExtend stub error returnAddress m
  cases source with
  | edi => exact (word 4 (by decide)).trans (kept .edi other)
  | esi => exact (word 5 (by decide)).trans (kept .esi other)
  | ebp => exact (word 6 (by decide)).trans (kept .ebp other)
  | esp => exact absurd rfl other
  | ebx => exact (word 8 (by decide)).trans (kept .ebx other)
  | edx => exact (word 9 (by decide)).trans (kept .edx other)
  | ecx => exact (word 10 (by decide)).trans (kept .ecx other)
  | eax => exact (word 11 (by decide)).trans (kept .eax other)

/-- The lower half of a pushed segment word is the selector, whatever the upper half. -/
theorem segmentWord_selector (zeroExtend : Bool) (memory : Mem) (slot : Word)
    (selector : BitVec 16) : (segmentWord zeroExtend memory slot selector).setWidth 16 = selector := by
  unfold segmentWord
  cases zeroExtend with
  | true => simp
  | false =>
    ext i hi
    simp only [Bool.false_eq_true, if_false, BitVec.getElem_setWidth, BitVec.getLsbD_append]
    simp [hi]

theorem handled_segment (zeroExtend : Bool) (stub : Stub) (error returnAddress : Word)
    (m : Machine) {source : Seg} (code : source ≠ .cs) (stack : source ≠ .ss) :
    (load32 (handled zeroExtend stub error returnAddress m).mem
        ((handled zeroExtend stub error returnAddress m).reg .esp + 4 +
          segmentAt source)).setWidth 16 = m.seg source := by
  obtain ⟨entry, _, segs, word⟩ := handled_word zeroExtend stub error returnAddress m
  rw [← segs]
  cases source with
  | cs => exact absurd rfl code
  | ss => exact absurd rfl stack
  | gs => exact (congrArg _ (word 0 (by decide))).trans (segmentWord_selector _ _ _ _)
  | fs => exact (congrArg _ (word 1 (by decide))).trans (segmentWord_selector _ _ _ _)
  | es => exact (congrArg _ (word 2 (by decide))).trans (segmentWord_selector _ _ _ _)
  | ds => exact (congrArg _ (word 3 (by decide))).trans (segmentWord_selector _ _ _ _)

/-- The three words the processor pushed first. -/
theorem handled_interrupted (zeroExtend : Bool) (stub : Stub) (error returnAddress : Word)
    (m : Machine) :
    load32 (handled zeroExtend stub error returnAddress m).mem (m.reg .esp - 12) = m.eip ∧
      load32 (handled zeroExtend stub error returnAddress m).mem (m.reg .esp - 8) =
        (m.seg .cs).setWidth 32 ∧
      load32 (handled zeroExtend stub error returnAddress m).mem (m.reg .esp - 4) = m.eflags := by
  obtain ⟨entry, esp, _, _, mem, same⟩ := handled_entry zeroExtend stub error returnAddress m
  have small := depth_le stub
  have large : 4 ≤ depth stub := by
    unfold depth
    omega
  have length := entryWords_length stub error m
  have long : 3 ≤ (entryWords stub error m).length := by omega
  have word : ∀ i (bound : i < 3),
      load32 (handled zeroExtend stub error returnAddress m).mem
          (m.reg .esp - BitVec.ofNat 32 (4 * (i + 1))) =
        (entryWords stub error m).get ⟨i, Nat.lt_of_lt_of_le bound long⟩ := by
    intro i bound
    rw [same, (commonStub_outside zeroExtend returnAddress entry).load32, mem]
    · exact load32_pushAll m (entryWords stub error m) (by omega) i (Nat.lt_of_lt_of_le bound long)
    · intro x inside below
      rw [esp] at below
      unfold Within at inside below
      bv_omega
  exact ⟨word 2 (by decide), word 1 (by decide), word 0 (by decide)⟩

/-! The return. -/

/-- From the return of the handler to iret. -/
def unwind (m : Machine) : Machine :=
  addEsp 8 (popa (popSeg .ds (popSeg .es (popSeg .fs (popSeg .gs (addEsp 4 m))))))

theorem resume_eq (m : Machine) : resume m = iret (unwind m) := rfl

@[simp] theorem unwind_mem (m : Machine) : (unwind m).mem = m.mem := rfl

theorem unwind_esp (m : Machine) : (unwind m).reg .esp = m.reg .esp + 60 := by
  simp [unwind, addEsp, popa, popReg, popSeg, Machine.set, Function.update, BitVec.add_assoc]

theorem unwind_reg (m : Machine) {source : Reg} (other : source ≠ .esp) :
    (unwind m).reg source = load32 m.mem (m.reg .esp + savedAt source) := by
  cases source with
  | esp => exact absurd rfl other
  | _ =>
    simp [savedAt, unwind, addEsp, popa, popReg, popSeg, Machine.set, Function.update,
      BitVec.add_assoc]

theorem unwind_segment (m : Machine) {source : Seg} (code : source ≠ .cs) (stack : source ≠ .ss) :
    (unwind m).seg source = (load32 m.mem (m.reg .esp + segmentAt source)).setWidth 16 := by
  cases source with
  | cs => exact absurd rfl code
  | ss => exact absurd rfl stack
  | _ =>
    simp [segmentAt, unwind, addEsp, popa, popReg, popSeg, Machine.set, Function.update,
      BitVec.add_assoc]

theorem unwind_ss (m : Machine) : (unwind m).seg .ss = m.seg .ss := rfl

theorem resume_reg (m : Machine) {source : Reg} (other : source ≠ .esp) :
    (resume m).reg source = (unwind m).reg source :=
  set_reg_other (unwind m) .esp _ other

theorem resume_esp (m : Machine) : (resume m).reg .esp = (unwind m).reg .esp + 12 :=
  set_reg_self (unwind m) .esp _

/-- A handler that stores nothing gives every register back as it was, eax among them. -/
theorem resume_handled {zeroExtend : Bool} {returnAddress : Word} {m after : Machine}
    (returned : Returned (handled zeroExtend .isr128 0 returnAddress m) after) :
    (∀ source, (resume after).reg source = m.reg source) ∧ (resume after).eip = m.eip := by
  obtain ⟨esp, count, small, same⟩ := returned
  have top := handled_esp zeroExtend .isr128 0 returnAddress m
  have five : 4 * depth .isr128 + 56 = 76 := rfl
  rw [five] at top
  have above : ∀ slot : Word, slot.toNat ≤ 60 →
      load32 after.mem (m.reg .esp - 72 + slot) =
        load32 (handled zeroExtend .isr128 0 returnAddress m).mem (m.reg .esp - 72 + slot) := by
    intro slot bound
    apply same.load32
    intro x inside below
    unfold Within at inside below
    bv_omega
  have frame : (handled zeroExtend .isr128 0 returnAddress m).reg .esp + 4 = m.reg .esp - 72 := by
    bv_omega
  constructor
  · intro source
    by_cases other : source = .esp
    · rw [other, resume_esp, unwind_esp, esp]
      bv_omega
    · have bound : (savedAt source).toNat ≤ 60 := by cases source <;> decide
      rw [resume_reg after other, unwind_reg after other, esp, frame, above _ bound, ← frame]
      exact handled_saved zeroExtend .isr128 0 returnAddress m other
  · have slot : m.reg .esp - 72 + 60 = m.reg .esp - 12 := by bv_omega
    change load32 (unwind after).mem ((unwind after).reg .esp) = m.eip
    rw [unwind_mem, unwind_esp, esp, frame, above 60 (by decide), slot]
    exact (handled_interrupted zeroExtend .isr128 0 returnAddress m).1

/-! The system call. -/

/-- isr_handler passes one argument. -/
theorem dispatched_arguments {called : Machine} {invocation : Invocation}
    (invoked : dispatched symbols called = some invocation) : invocation.arguments.length = 1 := by
  simp only [dispatched, isrHandler] at invoked
  split at invoked
  · rw [← Option.some.inj invoked]
    rfl
  · exact absurd invoked (by simp)

theorem load32_initialised (m : Machine) {n : Word} (small : n.toNat < 256) :
    load32 (initialised symbols m).mem (symbols.isrHandlers + 4 * n) = 0 := by
  by_cases here : n = 0x80
  · rw [here]
    exact load32_store32 _ _ _
  · have apart : Apart (symbols.isrHandlers + 4 * n) 4 (symbols.isrHandlers + 4 * 0x80) 4 :=
      apart_words (by bv_omega) (by bv_omega)
    rw [initialised, syscallInit, isrRegisterHandler]
    refine (load32_store32_apart apart).trans ?_
    rw [← load32_zero (symbols.isrHandlers + 4 * n)]
    apply load32_congr
    intro x inside
    rw [isrInit, memset_spec _ _ _ _ (by decide), if_pos (within_sub _ (by bv_omega) inside)]

/-- The entry is looked up under the interrupted edx, not under the vector. -/
theorem dispatched_none {zeroExtend : Bool} {returnAddress : Word} {m : Machine}
    (small : (m.reg .edx).toNat < 256) (apart : Apart symbols.isrHandlers 1024 (m.reg .esp - 76) 76) :
    dispatched symbols (handled zeroExtend .isr128 0 returnAddress (initialised symbols m)) =
      none := by
  obtain ⟨useresp, ss, frame⟩ := passed_handled zeroExtend .isr128 0 returnAddress
    (initialised symbols m)
  have number := congrArg Registers.intNo frame
  rw [passed] at number
  have entry : load32 (handled zeroExtend .isr128 0 returnAddress (initialised symbols m)).mem
      (symbols.isrHandlers + 4 * m.reg .edx) = 0 := by
    have same := handled_outside zeroExtend .isr128 0 returnAddress (initialised symbols m)
    rw [same.load32, load32_initialised symbols m small]
    intro x inside
    exact apart x (within_sub _ (by bv_omega) inside)
  rw [dispatched, isrHandler, number]
  exact if_neg fun some => some entry

/-- int 0x80 never runs syscall_handler on the six registers. While edx is a vector no handler
runs at all, and every register, eax included, comes back as it was. -/
theorem int128_unserved (zeroExtend : Bool) (returnAddress : Word) (m : Machine) (fuel : Nat)
    (allocated : Allocated) (switched : Switched) (s : Services) :
    ¬Served symbols (idtInit symbols) zeroExtend returnAddress (initialised symbols m) fuel allocated
        switched s ∧
      ((m.reg .edx).toNat < 256 → Apart symbols.isrHandlers 1024 (m.reg .esp - 76) 76 →
        ∀ called, Trapped symbols (idtInit symbols) zeroExtend returnAddress 0x80
            (initialised symbols m) called →
          dispatched symbols called = none ∧ ∀ after, Returned called after →
            (∀ source, (resume after).reg source = m.reg source) ∧ (resume after).eip = m.eip) := by
  constructor
  · intro served
    have arguments := dispatched_arguments symbols
      (served.invoked _ ((trapped_iff symbols).mpr rfl))
    exact absurd arguments (by simp)
  · intro small apart called trapped
    rw [(trapped_iff symbols).mp trapped]
    refine ⟨dispatched_none symbols small apart, fun after returned => ?_⟩
    exact resume_handled (m := initialised symbols m) returned

theorem vector_toNat (stub : Stub) :
    stub.vector.toNat = match stub with
      | .isr n => n.val
      | .irq n => 32 + n.val
      | .isr128 => 128 := by
  cases stub with
  | isr n => exact Nat.mod_eq_of_lt (by omega)
  | irq n => exact Nat.mod_eq_of_lt (by omega)
  | isr128 => rfl

theorem vector_injective : Function.Injective Stub.vector := by
  intro stub other same
  have numbers := congrArg BitVec.toNat same
  simp only [vector_toNat] at numbers
  cases stub <;> cases other <;> dsimp only at numbers
  all_goals first
    | rfl
    | exact congrArg _ (Fin.ext (by omega))
    | omega

/-- The stubs 16 bytes after one another, the table of handlers and syscall_handler. -/
def linked : Symbols where
  stub stub := 0x100000 + 16 * stub.vector.setWidth 32
  isrHandlers := 0x110000
  syscallHandler := 0x120000
  distinct := by
    intro stub other same
    apply vector_injective
    bv_omega

/-- SYS_GETPID with 0 in edx. -/
theorem int128_lost :
    ¬∀ (symbols : Symbols) (zeroExtend : Bool) (returnAddress : Word) (m : Machine) (fuel : Nat)
      (allocated : Allocated) (switched : Switched) (s : Services),
      Served symbols (idtInit symbols) zeroExtend returnAddress (initialised symbols m) fuel
        allocated switched s := by
  intro claim
  let m : Machine :=
    { reg := fun source =>
        match source with
        | .eax => SYS_GETPID
        | .esp => 0x90000
        | _ => 0
      seg := fun _ => 0x10
      eip := 0x130000
      eflags := 0x202
      mem := fun _ => 0 }
  have served := claim linked true 0x100100 m 0 ⟨0, 0, 0, 0⟩ ⟨0, 0, 0, 0, 0, 0⟩
    ⟨⟨0, fun _ => ⟨0, 0, 0⟩, 0⟩, unset, start (fun _ => Task.zero) 0 0⟩
  have apart : Apart linked.isrHandlers 1024 (m.reg .esp - 76) 76 := by
    intro x inside also
    have table : (x - 0x110000).toNat < 1024 := inside
    have stack : (x - (0x90000 - 76)).toNat < 76 := also
    bv_omega
  have invoked := served.invoked _ ((trapped_iff linked).mpr rfl)
  rw [dispatched_none linked (by decide) apart] at invoked
  exact absurd invoked (by simp)

end Vaelen.Kernel.Interrupts
