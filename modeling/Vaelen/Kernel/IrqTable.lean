import Vaelen.Kernel.Irq

/-!
The table of handlers over any sequence of the calls that write it, against a function from vectors
to handlers, and what irq_handler finds there.
-/

namespace Vaelen.Kernel.IrqTable
open Vaelen.Base X86 Platform TrapFrame Interrupts Irq InterruptController

/-- The int irq and the addition are taken modulo 2^32. -/
def irqInstallHandler (symbols : Symbols) (irq handler : Word) (memory : Mem) : Mem :=
  store32 memory (symbols.isrHandlers + 4 * (irq + 32)) handler

def irqUninstallHandler (symbols : Symbols) (irq : Word) (memory : Mem) : Mem :=
  store32 memory (symbols.isrHandlers + 4 * (irq + 32)) 0

inductive Call where
  | isrInit
  | isrRegisterHandler (n : Byte) (handler : Word)
  | irqInstallHandler (irq handler : Word)
  | irqUninstallHandler (irq : Word)

def perform (symbols : Symbols) (memory : Mem) : Call → Mem
  | .isrInit => isrInit symbols memory
  | .isrRegisterHandler n handler => isrRegisterHandler symbols n handler memory
  | .irqInstallHandler irq handler => irqInstallHandler symbols irq handler memory
  | .irqUninstallHandler irq => irqUninstallHandler symbols irq memory

/-- The call names an entry of the table; only the two with an int can miss it. -/
def Call.Inside : Call → Prop
  | .irqInstallHandler irq _ | .irqUninstallHandler irq => (irq + 32).toNat < 256
  | _ => True

/-- What the calls are for: the handler of each vector. -/
abbrev Handlers := Byte → Word

def assign (handlers : Handlers) : Call → Handlers
  | .isrInit => fun _ => 0
  | .isrRegisterHandler n handler => Function.update handlers n handler
  | .irqInstallHandler irq handler => Function.update handlers ((irq + 32).setWidth 8) handler
  | .irqUninstallHandler irq => Function.update handlers ((irq + 32).setWidth 8) 0

def entry (symbols : Symbols) (memory : Mem) : Handlers :=
  fun n => load32 memory (symbols.isrHandlers + 4 * n.setWidth 32)

variable (symbols : Symbols) (memory : Mem)

theorem entry_store32 {slot : Word} (inside : slot.toNat < 256) (handler : Word) :
    entry symbols (store32 memory (symbols.isrHandlers + 4 * slot) handler) =
      Function.update (entry symbols memory) (slot.setWidth 8) handler := by
  funext n
  by_cases here : n = slot.setWidth 8
  · have same : n.setWidth 32 = slot := by bv_omega
    rw [here, Function.update_self, ← here, entry, same, load32_store32]
  · rw [Function.update_of_ne here]
    exact load32_store32_apart (apart_words (by bv_omega) (by bv_omega))

theorem entry_isrInit : entry symbols (isrInit symbols memory) = fun _ => 0 := by
  funext n
  rw [entry, ← load32_zero (symbols.isrHandlers + 4 * n.setWidth 32)]
  apply load32_congr
  intro x inside
  rw [isrInit, memset_spec _ _ _ _ (by decide), if_pos (within_sub _ (by bv_omega) inside)]

theorem entry_perform {call : Call} (inside : call.Inside) :
    entry symbols (perform symbols memory call) = assign (entry symbols memory) call := by
  cases call with
  | isrInit => exact entry_isrInit symbols memory
  | isrRegisterHandler n handler =>
    have byte : (n.setWidth 32).setWidth 8 = n := by bv_omega
    have inside : (n.setWidth 32 : Word).toNat < 256 := by bv_omega
    have stored := entry_store32 symbols memory inside handler
    rwa [byte] at stored
  | irqInstallHandler irq handler => exact entry_store32 symbols memory inside handler
  | irqUninstallHandler irq => exact entry_store32 symbols memory inside 0

/-- The table refines the function from vectors to handlers. -/
theorem entry_performed {calls : List Call} (inside : ∀ call ∈ calls, call.Inside) :
    entry symbols (calls.foldl (perform symbols) memory) =
      calls.foldl assign (entry symbols memory) := by
  induction calls generalizing memory with
  | nil => rfl
  | cons call rest ih =>
    rw [List.foldl_cons, List.foldl_cons, ih _ fun later member => inside later (by simp [member]),
      entry_perform symbols memory (inside call List.mem_cons_self)]

theorem depth_irq : ∀ n : Fin 16, depth (.irq n) = 5 := by decide

/-- Whatever line was interrupted for, irq_handler runs the handler that was assigned last to the
number in the interrupted edx, or none if there is none. -/
theorem performed_dispatch {calls : List Call} (inside : ∀ call ∈ calls, call.Inside)
    (zeroExtend : Bool) (n : Fin 16) (returnAddress : Word) (p : Pics) {m called : Machine}
    (entered : called = handled zeroExtend (.irq n) 0 returnAddress m)
    (table : m.mem = calls.foldl (perform symbols) memory)
    (apart : Apart symbols.isrHandlers 1024 (m.reg .esp - 76) 76) (vector : Byte)
    (number : m.reg .edx = vector.setWidth 32) :
    (irqHandler symbols called.mem (load32 called.mem (called.reg .esp + 4)) p).1 =
      let handler := calls.foldl assign (entry symbols memory) vector
      if handler = 0 then none else some ⟨handler, [load32 called.mem (called.reg .esp + 4)]⟩ := by
  subst entered
  have stack := handled_outside zeroExtend (.irq n) 0 returnAddress m
  rw [depth_irq n] at stack
  have same : load32 (handled zeroExtend (.irq n) 0 returnAddress m).mem
      (symbols.isrHandlers + 4 * vector.setWidth 32) = calls.foldl assign (entry symbols memory) vector := by
    rw [← entry_performed symbols memory inside, ← table]
    apply stack.load32
    intro x within
    exact apart x (within_sub _ (by bv_omega) within)
  obtain ⟨useresp, ss, frame⟩ := passed_handled zeroExtend (.irq n) 0 returnAddress m
  have intNo := congrArg Registers.intNo frame
  rw [passed] at intNo
  simp only [irqHandler, intNo, number, same, ite_not]

/-- kernel_main installs the timer, the keyboard and the system calls; then the timer interrupts
code that has 33 in edx. -/
theorem performed_dispatch_boot :
    let m := { interruptedCode.set .edx 33 with
      mem := [.isrInit, .irqInstallHandler 0 0x130000, .irqInstallHandler 1 0x140000,
        .isrRegisterHandler 0x80 0].foldl (perform linked) (fun _ => 0) }
    let called := handled true (.irq 0) 0 0x100100 m
    (irqHandler linked called.mem (load32 called.mem (called.reg .esp + 4)) (irqInit powerOn)).1 =
      some ⟨0x140000, [load32 called.mem (called.reg .esp + 4)]⟩ := by
  intro m called
  have apart : Apart linked.isrHandlers 1024 (m.reg .esp - 76) 76 := by
    intro x inside also
    have table : (x - 0x110000).toNat < 1024 := inside
    have stack : (x - (0x90000 - 76)).toNat < 76 := also
    bv_omega
  have inside : ∀ call ∈ [Call.isrInit, .irqInstallHandler 0 0x130000, .irqInstallHandler 1 0x140000,
      .isrRegisterHandler 0x80 0], call.Inside := by
    simp [Call.Inside]
  exact performed_dispatch linked (fun _ => 0) inside true 0 0x100100 (irqInit powerOn)
    (m := m) rfl rfl apart 33 rfl

end Vaelen.Kernel.IrqTable
