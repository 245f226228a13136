import Vaelen.Base.X86

/-!
task_switch_context of gdt_flush.s: what it stores in the old task's context and with
which registers it continues.
-/

namespace Vaelen.Kernel.ContextSwitch
open Vaelen.Base X86

/-- task_context_t, in the order of its fields. -/
structure TaskContext where
  eax : Word
  ebx : Word
  ecx : Word
  edx : Word
  esi : Word
  edi : Word
  esp : Word
  ebp : Word
  eip : Word
  eflags : Word
  cr3 : Word
  ss : Word
  cs : Word
  ds : Word
  es : Word
  fs : Word
  gs : Word

abbrev sizeofTaskContext : Nat := 68

def taskContext (memory : Mem) (context : Word) : TaskContext where
  eax := load32 memory context
  ebx := load32 memory (context + 4)
  ecx := load32 memory (context + 8)
  edx := load32 memory (context + 12)
  esi := load32 memory (context + 16)
  edi := load32 memory (context + 20)
  esp := load32 memory (context + 24)
  ebp := load32 memory (context + 28)
  eip := load32 memory (context + 32)
  eflags := load32 memory (context + 36)
  cr3 := load32 memory (context + 40)
  ss := load32 memory (context + 44)
  cs := load32 memory (context + 48)
  ds := load32 memory (context + 52)
  es := load32 memory (context + 56)
  fs := load32 memory (context + 60)
  gs := load32 memory (context + 64)

/-! The code, in its four parts. -/

def saveFrame : List Instr :=
  [.push .ebp, .mov .ebp .esp, .push .ebx, .push .esi, .push .edi]

def storeContext : List Instr :=
  [.load .eax ⟨.ebp, 8⟩, .store ⟨.eax, 0⟩ .eax, .store ⟨.eax, 4⟩ .ebx, .store ⟨.eax, 8⟩ .ecx,
    .store ⟨.eax, 12⟩ .edx, .store ⟨.eax, 16⟩ .esi, .store ⟨.eax, 20⟩ .edi]

def loadContext : List Instr :=
  [.load .edx ⟨.ebp, 12⟩, .load .eax ⟨.edx, 0⟩, .load .ebx ⟨.edx, 4⟩, .load .ecx ⟨.edx, 8⟩,
    .load .edx ⟨.edx, 12⟩, .load .esi ⟨.edx, 16⟩, .load .edi ⟨.edx, 20⟩]

def restoreFrame : List Instr := [.pop .edi, .pop .esi, .pop .ebx, .pop .ebp, .ret]

def taskSwitchContext (zeroExtend : Bool) (m : Machine) : Machine :=
  exec zeroExtend (saveFrame ++ (storeContext ++ loadContext) ++ restoreFrame) m

/-! What each part does. -/

/-- The memory after storeContext, entered with the registers of `m`. -/
def savedContext (m : Machine) (context : Word) : Mem :=
  store32 (store32 (store32 (store32 (store32 (store32 m.mem (context + 0) context)
    (context + 4) (m.reg .ebx)) (context + 8) (m.reg .ecx)) (context + 12) (m.reg .edx))
    (context + 16) (m.reg .esi)) (context + 20) (m.reg .edi)

def frame (m : Machine) : List Word := [m.reg .ebp, m.reg .ebx, m.reg .esi, m.reg .edi]

theorem exec_saveFrame (zeroExtend : Bool) (m : Machine) :
    exec zeroExtend saveFrame m = (m.pushAll (frame m)).set .ebp (m.reg .esp - 4) := by
  simp [exec, saveFrame, step, push_set, set_reg_other, push_reg, frame, Machine.pushAll]

theorem exec_storeContext (zeroExtend : Bool) (m : Machine) :
    (exec zeroExtend (storeContext ++ loadContext) m).mem =
        savedContext m (load32 m.mem (m.reg .ebp + 8)) ∧
      (exec zeroExtend (storeContext ++ loadContext) m).reg .esp = m.reg .esp := by
  constructor
  · simp [exec, storeContext, loadContext, step, Machine.address, savedContext, set_reg_other]
  · simp [exec, storeContext, loadContext, step, Machine.address, set_reg_other]

theorem exec_restoreFrame (zeroExtend : Bool) (m : Machine) :
    (exec zeroExtend restoreFrame m).mem = m.mem ∧
      (exec zeroExtend restoreFrame m).reg .edi = load32 m.mem (m.reg .esp) ∧
      (exec zeroExtend restoreFrame m).reg .esi = load32 m.mem (m.reg .esp + 4) ∧
      (exec zeroExtend restoreFrame m).reg .ebx = load32 m.mem (m.reg .esp + 8) ∧
      (exec zeroExtend restoreFrame m).reg .ebp = load32 m.mem (m.reg .esp + 12) ∧
      (exec zeroExtend restoreFrame m).reg .esp = m.reg .esp + 20 := by
  simp [exec, restoreFrame, step, set_reg_other, BitVec.add_assoc]

theorem load32_savedContext_apart (m : Machine) {context other : Word}
    (apart : Apart other 4 context 24) :
    load32 (savedContext m context) other = load32 m.mem other := by
  have field : ∀ offset : Word, offset.toNat + 4 ≤ 24 → Apart other 4 (context + offset) 4 :=
    fun offset room x first second => apart x first (within_sub offset room second)
  rw [savedContext, load32_store32_apart (field 20 (by decide)),
    load32_store32_apart (field 16 (by decide)), load32_store32_apart (field 12 (by decide)),
    load32_store32_apart (field 8 (by decide)), load32_store32_apart (field 4 (by decide)),
    load32_store32_apart (field 0 (by decide))]

theorem load32_savedContext (m : Machine) (context : Word) :
    load32 (savedContext m context) (context + 4) = m.reg .ebx ∧
      load32 (savedContext m context) (context + 16) = m.reg .esi ∧
      load32 (savedContext m context) (context + 20) = m.reg .edi := by
  have apart : ∀ first second : Word, 4 ≤ (first - second).toNat → 4 ≤ (second - first).toNat →
      Apart (context + first) 4 (context + second) 4 := fun first second after before =>
    apart_words (by bv_omega) (by bv_omega)
  refine ⟨?_, ?_, ?_⟩
  · rw [savedContext, load32_store32_apart (apart 4 20 (by decide) (by decide)),
      load32_store32_apart (apart 4 16 (by decide) (by decide)),
      load32_store32_apart (apart 4 12 (by decide) (by decide)),
      load32_store32_apart (apart 4 8 (by decide) (by decide)), load32_store32]
  · rw [savedContext, load32_store32_apart (apart 16 20 (by decide) (by decide)), load32_store32]
  · rw [savedContext, load32_store32]

/-! The whole function. -/

/-- A call of task_switch_context, at its first instruction. -/
structure Called (m : Machine) (oldCtx newCtx : Word) : Prop where
  old : load32 m.mem (m.reg .esp + 4) = oldCtx
  new : load32 m.mem (m.reg .esp + 8) = newCtx
  apart : Apart oldCtx sizeofTaskContext (m.reg .esp - 16) 28

theorem taskSwitchContext_mem (zeroExtend : Bool) {m : Machine} {oldCtx newCtx : Word}
    (called : Called m oldCtx newCtx) :
    (taskSwitchContext zeroExtend m).mem =
      savedContext ((m.pushAll (frame m)).set .ebp (m.reg .esp - 4)) oldCtx := by
  have argument : load32 (m.pushAll (frame m)).mem (m.reg .esp - 4 + 8) = oldCtx := by
    rw [load32_pushAll_kept m (frame m) (by simp [frame]; bv_omega), ← called.old]
    congr 1
    bv_omega
  rw [taskSwitchContext, exec_append, exec_append, (exec_restoreFrame zeroExtend _).1,
    (exec_storeContext zeroExtend _).1, exec_saveFrame, set_reg_self, set_mem, argument]

theorem taskSwitchContext_frame (zeroExtend : Bool) {m : Machine} {oldCtx newCtx : Word}
    (called : Called m oldCtx newCtx) (j : Nat) (bound : j < 4) :
    load32 (taskSwitchContext zeroExtend m).mem (m.reg .esp - 16 + BitVec.ofNat 32 (4 * j)) =
      (frame m).get ⟨3 - j, Nat.lt_succ_of_le (Nat.sub_le 3 j)⟩ := by
  have length : (frame m).length = 4 := rfl
  have top : (m.pushAll (frame m)).reg .esp = m.reg .esp - 16 := pushAll_esp m _
  have apart : Apart (m.reg .esp - 16 + BitVec.ofNat 32 (4 * j)) 4 oldCtx 24 := by
    intro x slot context
    apply called.apart x
    · exact Nat.lt_of_lt_of_le context (by decide)
    · unfold Within at *
      bv_omega
  rw [taskSwitchContext_mem zeroExtend called, load32_savedContext_apart _ apart, set_mem, ← top]
  exact load32_pushAll_top m _ (by rw [length]; decide) j (by rw [length]; exact bound)

/-- The registers that a function must leave to its caller as it found them. -/
structure CalleeSaved where
  ebx : Word
  esi : Word
  edi : Word
  esp : Word
  ebp : Word
  deriving DecidableEq

/-- What the code goes on with after the return. -/
def resumed (m : Machine) : CalleeSaved where
  ebx := m.reg .ebx
  esi := m.reg .esi
  edi := m.reg .edi
  esp := m.reg .esp
  ebp := m.reg .ebp

/-- The registers of the caller at the call, the return address taken off its stack. -/
def caller (m : Machine) : CalleeSaved := { resumed m with esp := m.reg .esp + 4 }

def TaskContext.calleeSaved (context : TaskContext) : CalleeSaved where
  ebx := context.ebx
  esi := context.esi
  edi := context.edi
  esp := context.esp
  ebp := context.ebp

/-- Whatever the new context holds, the caller goes on with its own registers. -/
theorem resumed_taskSwitchContext (zeroExtend : Bool) {m : Machine} {oldCtx newCtx : Word}
    (called : Called m oldCtx newCtx) :
    resumed (taskSwitchContext zeroExtend m) = caller m := by
  have word := taskSwitchContext_frame zeroExtend called
  let loaded := exec zeroExtend (saveFrame ++ (storeContext ++ loadContext)) m
  have final : taskSwitchContext zeroExtend m = exec zeroExtend restoreFrame loaded :=
    exec_append zeroExtend _ restoreFrame m
  obtain ⟨mem, edi, esi, ebx, ebp, esp⟩ := exec_restoreFrame zeroExtend loaded
  have top : loaded.reg .esp = m.reg .esp - 16 := by
    calc loaded.reg .esp
      _ = (exec zeroExtend saveFrame m).reg .esp := by
        change (exec zeroExtend (saveFrame ++ (storeContext ++ loadContext)) m).reg .esp = _
        rw [exec_append]
        exact (exec_storeContext zeroExtend _).2
      _ = (m.pushAll (frame m)).reg .esp := by
        rw [exec_saveFrame]
        exact set_reg_other _ _ _ (by decide)
      _ = m.reg .esp - 16 := pushAll_esp m _
  have zero : m.reg .esp - 16 + BitVec.ofNat 32 (4 * 0) = m.reg .esp - 16 := by simp
  rw [final, mem] at word
  rw [top] at edi esi ebx ebp esp
  rw [final, resumed, caller, CalleeSaved.mk.injEq]
  refine ⟨ebx.trans (word 2 (by decide)), esi.trans (word 1 (by decide)),
    edi.trans (zero ▸ word 0 (by decide)), ?_, ebp.trans (word 3 (by decide))⟩
  rw [esp]
  bv_omega

theorem saved_taskSwitchContext (zeroExtend : Bool) {m : Machine} {oldCtx newCtx : Word}
    (called : Called m oldCtx newCtx) :
    (taskContext (taskSwitchContext zeroExtend m).mem oldCtx).calleeSaved =
      { caller m with
        esp := (taskContext m.mem oldCtx).esp
        ebp := (taskContext m.mem oldCtx).ebp } := by
  let entered := (m.pushAll (frame m)).set .ebp (m.reg .esp - 4)
  have register : ∀ source : Reg, source ≠ .ebp → source ≠ .esp →
      entered.reg source = m.reg source := fun source ebp esp =>
    (set_reg_other _ _ _ ebp).trans (pushAll_reg m _ esp)
  obtain ⟨ebx, esi, edi⟩ := load32_savedContext entered oldCtx
  have kept : ∀ offset : Word, 24 ≤ offset.toNat → offset.toNat + 4 ≤ 68 →
      load32 (savedContext entered oldCtx) (oldCtx + offset) = load32 m.mem (oldCtx + offset) := by
    intro offset above below
    have outside : Apart (oldCtx + offset) 4 oldCtx 24 := by
      intro x field stored
      unfold Within at *
      bv_omega
    rw [load32_savedContext_apart entered outside]
    apply load32_pushAll_apart m (frame m) (by simp [frame])
    intro x field slot
    apply called.apart x
    · exact within_sub offset below field
    · exact Nat.lt_of_lt_of_le slot (show 16 ≤ 28 by decide)
  rw [taskSwitchContext_mem zeroExtend called]
  change CalleeSaved.mk _ _ _ _ _ = CalleeSaved.mk _ _ _ _ _
  rw [CalleeSaved.mk.injEq]
  exact ⟨ebx.trans (register .ebx (by decide) (by decide)),
    esi.trans (register .esi (by decide) (by decide)),
    edi.trans (register .edi (by decide) (by decide)),
    kept 24 (by decide) (by decide), kept 28 (by decide) (by decide)⟩

/-- What the two records hold for the caller and for the task that is switched to. -/
structure Switches (zeroExtend : Bool) (m : Machine) (oldCtx newCtx : Word) : Prop where
  stored : (taskContext (taskSwitchContext zeroExtend m).mem oldCtx).calleeSaved = caller m
  loaded : resumed (taskSwitchContext zeroExtend m) = (taskContext m.mem newCtx).calleeSaved

/-- The old record holds the caller's stack already, and the new one the caller's registers. -/
structure Coincides (m : Machine) (oldCtx newCtx : Word) : Prop where
  esp : (taskContext m.mem oldCtx).esp = m.reg .esp + 4
  ebp : (taskContext m.mem oldCtx).ebp = m.reg .ebp
  new : (taskContext m.mem newCtx).calleeSaved = caller m

/-- The switch does what it is for exactly where it has nothing to do: the switch back goes on
with the registers of its own caller, whatever the first switch was called with. -/
theorem switches_iff (zeroExtend : Bool) {m n : Machine} {oldCtx newCtx : Word}
    (called : Called m oldCtx newCtx) (back : Called n newCtx oldCtx) :
    (Switches zeroExtend m oldCtx newCtx ↔ Coincides m oldCtx newCtx) ∧
      (resumed (taskSwitchContext zeroExtend n) = caller m ↔ caller n = caller m) := by
  have stored := saved_taskSwitchContext zeroExtend called
  have loaded := resumed_taskSwitchContext zeroExtend called
  constructor
  · constructor
    · intro switches
      have same := stored.symm.trans switches.stored
      exact ⟨congrArg CalleeSaved.esp same, congrArg CalleeSaved.ebp same,
        switches.loaded.symm.trans loaded⟩
    · intro coincides
      constructor
      · rw [stored, coincides.esp, coincides.ebp]
        rfl
      · exact loaded.trans coincides.new.symm
  · rw [resumed_taskSwitchContext zeroExtend back]

/-- A call with the stack at 0x8000 and every other register zero. -/
def callAt (memory : Mem) (oldCtx newCtx : Word) : Machine where
  reg := Function.update (fun _ => 0) .esp 0x8000
  seg := fun _ => 0x10
  eip := 0x100000
  eflags := 0x202
  mem := store32 (store32 memory 0x8004 oldCtx) 0x8008 newCtx

theorem callAt_called (memory : Mem) (oldCtx newCtx : Word)
    (apart : Apart oldCtx sizeofTaskContext 0x7FF0 28) :
    Called (callAt memory oldCtx newCtx) oldCtx newCtx := by
  have esp : (callAt memory oldCtx newCtx).reg .esp = 0x8000 := rfl
  have other : Apart 0x8004 4 0x8008 4 := apart_words (by decide) (by decide)
  apply Called.mk
  · rw [esp]
    exact (load32_store32_apart other).trans (load32_store32 memory 0x8004 oldCtx)
  · rw [esp]
    exact load32_store32 _ 0x8008 newCtx
  · rw [esp]
    exact apart

theorem below_stack (context : Word) (low : context.toNat ≤ 0x2000) :
    Apart context sizeofTaskContext 0x7FF0 28 := by
  intro x field slot
  have inside : (x - context).toNat < 68 := field
  unfold Within at slot
  bv_omega

/-- Two records that name the same stack: there is nothing to switch. -/
theorem switches_iff_same :
    let memory := store32 (store32 (fun _ => 0) 0x1018 0x8004) 0x2018 0x8004
    Switches true (callAt memory 0x1000 0x2000) 0x1000 0x2000 ∧
      resumed (taskSwitchContext true (callAt memory 0x2000 0x1000)) =
        caller (callAt memory 0x1000 0x2000) := by
  intro memory
  have called := callAt_called memory 0x1000 0x2000 (below_stack _ (by decide))
  have back := callAt_called memory 0x2000 0x1000 (below_stack _ (by decide))
  obtain ⟨switch, resume⟩ := switches_iff true called back
  constructor
  · apply switch.mpr
    exact ⟨by decide +kernel, by decide +kernel, by decide +kernel⟩
  · exact resume.mpr rfl

/-- The new task's stack pointer is 0, and the code goes on with the old task's. -/
theorem switches_to_itself :
    ¬∀ (zeroExtend : Bool) (m n : Machine) (oldCtx newCtx : Word), Called m oldCtx newCtx →
      Called n newCtx oldCtx → Switches zeroExtend m oldCtx newCtx ∧
        resumed (taskSwitchContext zeroExtend n) = caller m := by
  intro claim
  have called := callAt_called (fun _ => 0) 0x1000 0x2000 (below_stack _ (by decide))
  have back := callAt_called (fun _ => 0) 0x2000 0x1000 (below_stack _ (by decide))
  have loaded := (claim true _ _ _ _ called back).1.loaded
  rw [resumed_taskSwitchContext true called] at loaded
  exact absurd (congrArg CalleeSaved.esp loaded) (by decide +kernel)

end Vaelen.Kernel.ContextSwitch
