import Vaelen.Base.X86

/-!
The interrupt stubs of irq.s up to the call of the C handler, and the registers_t
through which isr.c reads the stack they leave.
-/

namespace Vaelen.Kernel.TrapFrame
open Vaelen.Base X86

/-- registers_t, in the order of its fields. -/
structure Registers where
  ds : Word
  edi : Word
  esi : Word
  ebp : Word
  esp : Word
  ebx : Word
  edx : Word
  ecx : Word
  eax : Word
  intNo : Word
  errCode : Word
  eip : Word
  cs : Word
  eflags : Word
  useresp : Word
  ss : Word

def readRegisters (memory : Mem) (regs : Word) : Registers where
  ds := load32 memory regs
  edi := load32 memory (regs + 4)
  esi := load32 memory (regs + 8)
  ebp := load32 memory (regs + 12)
  esp := load32 memory (regs + 16)
  ebx := load32 memory (regs + 20)
  edx := load32 memory (regs + 24)
  ecx := load32 memory (regs + 28)
  eax := load32 memory (regs + 32)
  intNo := load32 memory (regs + 36)
  errCode := load32 memory (regs + 40)
  eip := load32 memory (regs + 44)
  cs := load32 memory (regs + 48)
  eflags := load32 memory (regs + 52)
  useresp := load32 memory (regs + 56)
  ss := load32 memory (regs + 60)

/-! The code of irq.s. -/

def isrNoerrcode (vector : Byte) : List Instr := [.cli, .pushByte 0, .pushByte vector]
def isrErrcode (vector : Byte) : List Instr := [.cli, .pushByte vector]
def irq (vector : Byte) : List Instr := [.cli, .pushByte 0, .pushByte vector]

/-- isr_common_stub and irq_common_stub, which differ in the function they call. -/
def commonStub (returnAddress : Word) : List Instr :=
  [.pusha, .pushSeg .ds, .pushSeg .es, .pushSeg .fs, .pushSeg .gs] ++
    [.movAx 0x10, .movSeg .ds, .movSeg .es, .movSeg .fs, .movSeg .gs] ++
    [.push .esp, .call returnAddress]

inductive Stub where
  | isr (n : Fin 32)
  | irq (n : Fin 16)
  | isr128
  deriving DecidableEq, Repr

namespace Stub

def vector : Stub → Byte
  | isr n => BitVec.ofNat 8 n
  | irq n => BitVec.ofNat 8 (32 + n)
  | isr128 => 128

/-- The stubs that irq.s defines with ISR_ERRCODE. -/
def errcode : Stub → Bool
  | isr n => [8, 10, 11, 12, 13, 14, 17, 30].contains n
  | _ => false

def entry : Stub → List Instr
  | isr n =>
      if errcode (isr n) then isrErrcode (vector (isr n)) else isrNoerrcode (vector (isr n))
  | irq n => TrapFrame.irq (vector (irq n))
  | isr128 => isrNoerrcode 128

def code (stub : Stub) (returnAddress : Word) : List Instr :=
  stub.entry ++ commonStub returnAddress

/-- The vectors for which the processor pushes an error code itself. -/
def pushesErrorCode (stub : Stub) : Bool :=
  [8, 10, 11, 12, 13, 14, 17, 21, 30].contains stub.vector

end Stub

/-- What the processor pushes before it jumps to the stub. -/
def interrupted (stub : Stub) (error : Word) (m : Machine) : Machine :=
  m.pushAll ([m.eflags, (m.seg .cs).setWidth 32, m.eip] ++
    if stub.pushesErrorCode then [error] else [])

/-- The machine at the first instruction of isr_handler or irq_handler. -/
def handled (zeroExtend : Bool) (stub : Stub) (error returnAddress : Word) (m : Machine) : Machine :=
  exec zeroExtend (stub.code returnAddress) (interrupted stub error m)

/-- The registers_t that the handler is passed: its argument lies above the return address. -/
def passed (called : Machine) : Registers :=
  readRegisters called.mem (load32 called.mem (called.reg .esp + 4))

/-! The words on the stack. -/

/-- A segment register in the frame of isr_common_stub, `slot` words below its entry. -/
def segmentSlot (zeroExtend : Bool) (m : Machine) (slot : Nat) (source : Seg) : Word :=
  segmentWord zeroExtend m.mem (m.reg .esp - BitVec.ofNat 32 (4 * slot)) (m.seg source)

def frameWords (zeroExtend : Bool) (m : Machine) : List Word :=
  [m.reg .eax, m.reg .ecx, m.reg .edx, m.reg .ebx, m.reg .esp, m.reg .ebp, m.reg .esi, m.reg .edi,
    segmentSlot zeroExtend m 9 .ds, segmentSlot zeroExtend m 10 .es,
    segmentSlot zeroExtend m 11 .fs, segmentSlot zeroExtend m 12 .gs]

theorem exec_pushes (zeroExtend : Bool) (m : Machine) :
    exec zeroExtend [.pusha, .pushSeg .ds, .pushSeg .es, .pushSeg .fs, .pushSeg .gs] m =
      m.pushAll (frameWords zeroExtend m) := by
  simp only [exec, List.foldl_cons, List.foldl_nil]
  rw [show step zeroExtend m .pusha = m.pushAll _ from rfl, step_pushSeg _ _ _ _ (by simp),
    step_pushSeg _ _ _ _ (by simp), step_pushSeg _ _ _ _ (by simp), step_pushSeg _ _ _ _ (by simp)]
  rfl

theorem exec_loadSegments (zeroExtend : Bool) (m : Machine) :
    (exec zeroExtend [.movAx 0x10, .movSeg .ds, .movSeg .es, .movSeg .fs, .movSeg .gs] m).mem =
        m.mem ∧
      (exec zeroExtend [.movAx 0x10, .movSeg .ds, .movSeg .es, .movSeg .fs, .movSeg .gs]
        m).reg .esp = m.reg .esp := by
  refine ⟨rfl, ?_⟩
  simp only [exec, List.foldl_cons, List.foldl_nil, step]
  rw [set_reg_other]
  decide

/-- The pointer to the frame is pushed for the handler, below everything that was saved. -/
theorem exec_commonStub (zeroExtend : Bool) (returnAddress : Word) (m : Machine) :
    ∃ loaded : Machine, loaded.mem = (m.pushAll (frameWords zeroExtend m)).mem ∧
      loaded.reg .esp = m.reg .esp - 48 ∧
      exec zeroExtend (commonStub returnAddress) m =
        loaded.pushAll [loaded.reg .esp, returnAddress] := by
  have top : (m.pushAll (frameWords zeroExtend m)).reg .esp = m.reg .esp - 48 := pushAll_esp m _
  obtain ⟨mem, esp⟩ := exec_loadSegments zeroExtend (m.pushAll (frameWords zeroExtend m))
  refine ⟨_, mem, esp.trans top, ?_⟩
  rw [commonStub, exec_append, exec_append, exec_pushes]
  rfl

/-- A word at or above the frame pointer, seen by the handler. -/
theorem load32_commonStub (zeroExtend : Bool) (returnAddress : Word) (m : Machine) (j : Nat)
    (bound : j < 16) :
    load32 (exec zeroExtend (commonStub returnAddress) m).mem
        (m.reg .esp - 48 + BitVec.ofNat 32 (4 * j)) =
      load32 (m.pushAll (frameWords zeroExtend m)).mem
        (m.reg .esp - 48 + BitVec.ofNat 32 (4 * j)) := by
  obtain ⟨loaded, mem, top, same⟩ := exec_commonStub zeroExtend returnAddress m
  have room : (m.reg .esp - 48 + BitVec.ofNat 32 (4 * j) - loaded.reg .esp).toNat + 4 + 4 * 2 ≤
      2 ^ 32 := by
    rw [top]
    bv_omega
  rw [same, load32_pushAll_kept loaded [loaded.reg .esp, returnAddress] room, mem]

theorem frame_word (zeroExtend : Bool) (returnAddress : Word) (m : Machine) (j : Nat)
    (bound : j < 12) :
    load32 (exec zeroExtend (commonStub returnAddress) m).mem
        (m.reg .esp - 48 + BitVec.ofNat 32 (4 * j)) =
      (frameWords zeroExtend m).get ⟨11 - j, Nat.lt_succ_of_le (Nat.sub_le 11 j)⟩ := by
  have length : (frameWords zeroExtend m).length = 12 := rfl
  have top : (m.pushAll (frameWords zeroExtend m)).reg .esp = m.reg .esp - 48 := pushAll_esp m _
  rw [load32_commonStub zeroExtend returnAddress m j (by omega), ← top]
  exact load32_pushAll_top m _ (by rw [length]; decide) j (by rw [length]; exact bound)

theorem stack_word (zeroExtend : Bool) (returnAddress : Word) (m : Machine) (j : Nat)
    (bound : j < 4) :
    load32 (exec zeroExtend (commonStub returnAddress) m).mem
        (m.reg .esp - 48 + BitVec.ofNat 32 (4 * (j + 12))) =
      load32 m.mem (m.reg .esp + BitVec.ofNat 32 (4 * j)) := by
  have length : (frameWords zeroExtend m).length = 12 := rfl
  have slot : m.reg .esp - 48 + BitVec.ofNat 32 (4 * (j + 12)) =
      m.reg .esp + BitVec.ofNat 32 (4 * j) := by bv_omega
  rw [load32_commonStub zeroExtend returnAddress m _ (by omega), slot]
  exact load32_pushAll_kept m _ (by rw [length]; bv_omega)

/-- The frame as registers_t shows it: the four segment words stand where ds, edi, esi and ebp
are expected, and everything after them is read three words too low. -/
theorem passed_commonStub (zeroExtend : Bool) (returnAddress : Word) (m : Machine) :
    passed (exec zeroExtend (commonStub returnAddress) m) =
      { ds := segmentSlot zeroExtend m 12 .gs
        edi := segmentSlot zeroExtend m 11 .fs
        esi := segmentSlot zeroExtend m 10 .es
        ebp := segmentSlot zeroExtend m 9 .ds
        esp := m.reg .edi
        ebx := m.reg .esi
        edx := m.reg .ebp
        ecx := m.reg .esp
        eax := m.reg .ebx
        intNo := m.reg .edx
        errCode := m.reg .ecx
        eip := m.reg .eax
        cs := load32 m.mem (m.reg .esp)
        eflags := load32 m.mem (m.reg .esp + 4)
        useresp := load32 m.mem (m.reg .esp + 8)
        ss := load32 m.mem (m.reg .esp + 12) } := by
  have pointer : load32 (exec zeroExtend (commonStub returnAddress) m).mem
      ((exec zeroExtend (commonStub returnAddress) m).reg .esp + 4) = m.reg .esp - 48 := by
    obtain ⟨loaded, _, top, same⟩ := exec_commonStub zeroExtend returnAddress m
    have argument := load32_pushAll_top loaded [loaded.reg .esp, returnAddress] (by simp) 1 (by simp)
    rw [same]
    exact argument.trans top
  have frame := frame_word zeroExtend returnAddress m
  have stack := stack_word zeroExtend returnAddress m
  have zero : m.reg .esp - 48 + BitVec.ofNat 32 (4 * 0) = m.reg .esp - 48 := by simp
  have first : m.reg .esp + BitVec.ofNat 32 (4 * 0) = m.reg .esp := by simp
  rw [passed, pointer, readRegisters, Registers.mk.injEq]
  refine ⟨zero ▸ frame 0 (by decide), frame 1 (by decide), frame 2 (by decide), frame 3 (by decide),
    frame 4 (by decide), frame 5 (by decide), frame 6 (by decide), frame 7 (by decide),
    frame 8 (by decide), frame 9 (by decide), frame 10 (by decide), frame 11 (by decide),
    (stack 0 (by decide)).trans (congrArg _ first), stack 1 (by decide), stack 2 (by decide),
    stack 3 (by decide)⟩

/-! The stubs. -/

/-- The words on the stack when isr_common_stub is entered, in the order they are pushed. -/
def entryWords (stub : Stub) (error : Word) (m : Machine) : List Word :=
  [m.eflags, (m.seg .cs).setWidth 32, m.eip] ++ (if stub.pushesErrorCode then [error] else []) ++
    if stub.errcode then [stub.vector.signExtend 32] else [0, stub.vector.signExtend 32]

/-- Five words, and one more where the processor and the stub both push an error code. -/
def depth (stub : Stub) : Nat :=
  4 + (if stub.pushesErrorCode then 1 else 0) + if stub.errcode then 0 else 1

theorem entryWords_length (stub : Stub) (error : Word) (m : Machine) :
    (entryWords stub error m).length = depth stub := by
  unfold entryWords depth
  cases stub.pushesErrorCode <;> cases stub.errcode <;> rfl

theorem depth_le (stub : Stub) : depth stub ≤ 6 := by
  unfold depth
  cases stub.pushesErrorCode <;> cases stub.errcode <;> decide

theorem errcode_pushes (stub : Stub) (errcode : stub.errcode = true) :
    stub.pushesErrorCode = true := by
  cases stub with
  | isr n =>
    revert n
    decide
  | irq n => exact Bool.noConfusion errcode
  | isr128 => exact Bool.noConfusion errcode

theorem exec_noerrcode (zeroExtend : Bool) (vector : Byte) (m : Machine) :
    ∃ eflags, exec zeroExtend [.cli, .pushByte 0, .pushByte vector] m =
      { m.pushAll [0, vector.signExtend 32] with eflags := eflags } :=
  ⟨_, rfl⟩

theorem exec_errcode (zeroExtend : Bool) (vector : Byte) (m : Machine) :
    ∃ eflags, exec zeroExtend [.cli, .pushByte vector] m =
      { m.pushAll [vector.signExtend 32] with eflags := eflags } :=
  ⟨_, rfl⟩

/-- The stubs push their words and change nothing else but the interrupt flag. -/
theorem exec_entry (zeroExtend : Bool) (stub : Stub) (error : Word) (m : Machine) :
    ∃ eflags, exec zeroExtend stub.entry (interrupted stub error m) =
      { m.pushAll (entryWords stub error m) with eflags := eflags } := by
  have words : m.pushAll (entryWords stub error m) = (interrupted stub error m).pushAll
      (if stub.errcode then [stub.vector.signExtend 32]
        else [0, stub.vector.signExtend 32]) := pushAll_append m _ _
  rw [words]
  cases stub with
  | isr n =>
    rw [Stub.entry]
    cases (Stub.isr n).errcode with
    | true => exact exec_errcode zeroExtend _ _
    | false => exact exec_noerrcode zeroExtend _ _
  | irq n => exact exec_noerrcode zeroExtend _ _
  | isr128 => exact exec_noerrcode zeroExtend _ _

/-- The word pushed just before the vector. -/
def errorWord (stub : Stub) (error : Word) : Word := if stub.errcode then error else 0

theorem entryWords_top (stub : Stub) (error : Word) (m : Machine) :
    ∃ words, entryWords stub error m =
      words ++ [errorWord stub error, stub.vector.signExtend 32] := by
  unfold entryWords errorWord
  cases kind : stub.errcode with
  | true =>
    refine ⟨[m.eflags, (m.seg .cs).setWidth 32, m.eip], ?_⟩
    rw [errcode_pushes stub kind]
    rfl
  | false => exact ⟨_, rfl⟩

theorem entry_top (stub : Stub) (error : Word) (m : Machine) :
    load32 (m.pushAll (entryWords stub error m)).mem
        ((m.pushAll (entryWords stub error m)).reg .esp) = stub.vector.signExtend 32 ∧
      load32 (m.pushAll (entryWords stub error m)).mem
        ((m.pushAll (entryWords stub error m)).reg .esp + 4) = errorWord stub error := by
  obtain ⟨words, same⟩ := entryWords_top stub error m
  rw [same, pushAll_append]
  exact load32_push_push (m.pushAll words) _ _

/-- The word in the frame that `source` was pushed into, `slot` words below the stub's own. -/
def frameSlot (zeroExtend : Bool) (stub : Stub) (m : Machine) (slot : Nat) (source : Seg) : Word :=
  segmentWord zeroExtend m.mem (m.reg .esp - BitVec.ofNat 32 (4 * (depth stub + slot)))
    (m.seg source)

theorem segmentSlot_entry (zeroExtend : Bool) (stub : Stub) (error eflags : Word) (m : Machine)
    (slot : Nat) (low : 1 ≤ slot) (high : slot ≤ 12) (source : Seg) :
    segmentSlot zeroExtend { m.pushAll (entryWords stub error m) with eflags := eflags } slot source =
      frameSlot zeroExtend stub m slot source := by
  have bound := depth_le stub
  have length := entryWords_length stub error m
  have address : (m.pushAll (entryWords stub error m)).reg .esp - BitVec.ofNat 32 (4 * slot) =
      m.reg .esp - BitVec.ofNat 32 (4 * (depth stub + slot)) := by
    rw [pushAll_esp, length]
    bv_omega
  have kept : load32 (m.pushAll (entryWords stub error m)).mem
      (m.reg .esp - BitVec.ofNat 32 (4 * (depth stub + slot))) =
        load32 m.mem (m.reg .esp - BitVec.ofNat 32 (4 * (depth stub + slot))) := by
    apply load32_pushAll_kept
    rw [length]
    bv_omega
  change segmentWord zeroExtend (m.pushAll (entryWords stub error m)).mem
    ((m.pushAll (entryWords stub error m)).reg .esp - BitVec.ofNat 32 (4 * slot))
    ((m.pushAll (entryWords stub error m)).seg source) = _
  rw [address, pushAll_seg, frameSlot, segmentWord, segmentWord, kept]

/-- What a handler of isr.c relies on. -/
structure Agrees (stub : Stub) (error : Word) (m : Machine) (regs : Registers) : Prop where
  intNo : regs.intNo = stub.vector.setWidth 32
  errCode : regs.errCode = if stub.pushesErrorCode then error else 0
  edi : regs.edi = m.reg .edi
  esi : regs.esi = m.reg .esi
  ebp : regs.ebp = m.reg .ebp
  ebx : regs.ebx = m.reg .ebx
  edx : regs.edx = m.reg .edx
  ecx : regs.ecx = m.reg .ecx
  eax : regs.eax = m.reg .eax
  eip : regs.eip = m.eip
  cs : regs.cs = (m.seg .cs).setWidth 32
  eflags : regs.eflags = m.eflags

/-- The interrupted code happens to hold in each register what the shifted frame shows for
the field three words further up. -/
structure Coincides (zeroExtend : Bool) (stub : Stub) (error : Word) (m : Machine) : Prop where
  vector : m.reg .edx = stub.vector.setWidth 32
  code : m.reg .ecx = if stub.pushesErrorCode then error else 0
  fs : frameSlot zeroExtend stub m 11 .fs = m.reg .edi
  es : frameSlot zeroExtend stub m 10 .es = m.reg .esi
  ds : frameSlot zeroExtend stub m 9 .ds = m.reg .ebp
  esi : m.reg .esi = m.reg .ebx
  ebp : m.reg .ebp = m.reg .edx
  esp : m.reg .esp - BitVec.ofNat 32 (4 * depth stub) = m.reg .ecx
  ebx : m.reg .ebx = m.reg .eax
  eax : m.reg .eax = m.eip
  cs : stub.vector.signExtend 32 = (m.seg .cs).setWidth 32
  eflags : errorWord stub error = m.eflags

/-- The registers_t of every stub, for all register contents. -/
theorem passed_handled (zeroExtend : Bool) (stub : Stub) (error returnAddress : Word)
    (m : Machine) :
    ∃ useresp ss, passed (handled zeroExtend stub error returnAddress m) =
      { ds := frameSlot zeroExtend stub m 12 .gs
        edi := frameSlot zeroExtend stub m 11 .fs
        esi := frameSlot zeroExtend stub m 10 .es
        ebp := frameSlot zeroExtend stub m 9 .ds
        esp := m.reg .edi
        ebx := m.reg .esi
        edx := m.reg .ebp
        ecx := m.reg .esp - BitVec.ofNat 32 (4 * depth stub)
        eax := m.reg .ebx
        intNo := m.reg .edx
        errCode := m.reg .ecx
        eip := m.reg .eax
        cs := stub.vector.signExtend 32
        eflags := errorWord stub error
        useresp := useresp
        ss := ss } := by
  obtain ⟨eflags, entered⟩ := exec_entry zeroExtend stub error m
  obtain ⟨vector, word⟩ := entry_top stub error m
  have esp := pushAll_esp m (entryWords stub error m)
  rw [entryWords_length] at esp
  have other : ∀ source : Reg, source ≠ .esp →
      (m.pushAll (entryWords stub error m)).reg source = m.reg source :=
    fun source => pushAll_reg m _
  let stack := m.pushAll (entryWords stub error m)
  refine ⟨load32 stack.mem (stack.reg .esp + 8), load32 stack.mem (stack.reg .esp + 12), ?_⟩
  rw [handled, Stub.code, exec_append, entered, passed_commonStub, Registers.mk.injEq]
  refine ⟨segmentSlot_entry _ _ _ _ _ 12 (by decide) (by decide) _,
    segmentSlot_entry _ _ _ _ _ 11 (by decide) (by decide) _,
    segmentSlot_entry _ _ _ _ _ 10 (by decide) (by decide) _,
    segmentSlot_entry _ _ _ _ _ 9 (by decide) (by decide) _,
    other .edi (by decide), other .esi (by decide), other .ebp (by decide), esp,
    other .ebx (by decide), other .edx (by decide), other .ecx (by decide),
    other .eax (by decide), vector, word, rfl, rfl⟩

/-- The handlers of every stub see the interrupted state exactly when it coincides with itself
shifted by the three segment words that registers_t does not have. -/
theorem handled_agrees_iff (zeroExtend : Bool) (stub : Stub) (error returnAddress : Word)
    (m : Machine) :
    Agrees stub error m (passed (handled zeroExtend stub error returnAddress m)) ↔
      Coincides zeroExtend stub error m := by
  obtain ⟨useresp, ss, same⟩ := passed_handled zeroExtend stub error returnAddress m
  rw [same]
  constructor
  · intro ⟨intNo, errCode, edi, esi, ebp, ebx, edx, ecx, eax, eip, cs, eflags⟩
    exact ⟨intNo, errCode, edi, esi, ebp, ebx, edx, ecx, eax, eip, cs, eflags⟩
  · intro ⟨vector, code, fs, es, ds, esi, ebp, esp, ebx, eax, cs, eflags⟩
    exact ⟨vector, code, fs, es, ds, esi, ebp, esp, ebx, eax, cs, eflags⟩

/-- int3 with 0x41 in edx: the handler looks up vector 0x41. -/
theorem handled_disagrees :
    ¬∀ (zeroExtend : Bool) (stub : Stub) (error returnAddress : Word) (m : Machine),
      Agrees stub error m (passed (handled zeroExtend stub error returnAddress m)) := by
  intro claim
  let m : Machine :=
    { reg := fun source => if source = .edx then 0x41 else 0
      seg := fun _ => 0x10
      eip := 0x100000
      eflags := 0x202
      mem := fun _ => 0 }
  obtain ⟨useresp, ss, same⟩ := passed_handled true (.isr 3) 0 0x100100 m
  have intNo := (claim true (.isr 3) 0 0x100100 m).intNo
  rw [same] at intNo
  have wrong : (0x41 : Word) = 3 := intNo
  exact absurd wrong (by decide)

end Vaelen.Kernel.TrapFrame
