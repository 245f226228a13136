import Vaelen.Base.InterruptController
import Vaelen.Base.Runs
import Vaelen.Kernel.Ata
import Vaelen.Kernel.Interrupts

/-!
The interrupt requests of isr.c: irq_init and irq_handler with the two controllers of the machine
beside them. irq_handler takes the word of the interrupted edx for the vector, so that it ends an
interrupt of the second controller only when that word is 40 or more.
-/

namespace Vaelen.Kernel.Irq
open Vaelen.Base X86 InterruptController TrapFrame Interrupts
open Ata (Port)

/-- The line of the first controller that the second one is on. -/
abbrev wire : Line := ⟨2, by decide⟩

abbrev Pics := Pair wire

def outb (port : Port) (value : Byte) (p : Pics) : Pics :=
  if port = 0x20 then { p with master := p.master.command value }
  else if port = 0x21 then { p with master := p.master.data value }
  else if port = 0xA0 then { p with slave := p.slave.command value }
  else if port = 0xA1 then { p with slave := p.slave.data value }
  else p

def irqInit (p : Pics) : Pics :=
  let p := outb 0x20 0x11 p
  let p := outb 0xA0 0x11 p
  let p := outb 0x21 0x20 p
  let p := outb 0xA1 0x28 p
  let p := outb 0x21 0x04 p
  let p := outb 0xA1 0x02 p
  let p := outb 0x21 0x01 p
  let p := outb 0xA1 0x01 p
  let p := outb 0x21 0x00 p
  outb 0xA1 0x00 p

/-- What irq_handler calls, and what its end of interrupt leaves of the controllers. -/
def irqHandler (symbols : Symbols) (memory : Mem) (regs : Word) (p : Pics) :
    Option Invocation × Pics :=
  let intNo := (readRegisters memory regs).intNo
  let p := if intNo ≥ 40 then outb 0xA0 0x20 p else p
  let p := outb 0x20 0x20 p
  let handler := load32 memory (symbols.isrHandlers + 4 * intNo)
  (if handler ≠ 0 then some ⟨handler, [regs]⟩ else none, p)

/-- An interrupt is recorded with the code it came upon, the input it was for, none if the request
was gone, and what irq_handler called. -/
inductive Event where
  | raise (input : Input wire)
  | withdraw (input : Input wire)
  | interrupt (m : Machine) (taken : Option (Input wire)) (invoked : Option Invocation)

/-- The event ends a request that the input has made. -/
def Event.Clears (input : Input wire) : Event → Prop
  | .raise _ => False
  | .withdraw other => other = input
  | .interrupt _ taken _ => taken = some input

/-- The devices raise and withdraw requests at any time, and the processor takes an interrupt
whenever the interrupted code has them enabled. The handlers use other ports. -/
inductive Step (symbols : Symbols) (zeroExtend : Bool) (returnAddress : Word) :
    Pics → Event → Pics → Prop
  | raise (p : Pics) (input : Input wire) :
      Step symbols zeroExtend returnAddress p (.raise input) (p.raise input)
  | withdraw (p : Pics) (input : Input wire) :
      Step symbols zeroExtend returnAddress p (.withdraw input) (p.withdraw input)
  | interrupt {p q : Pics} {m called : Machine} {n : Fin 16} {invoked : Option Invocation}
      (enabled : m.eflags.getLsbD 9 = true)
      (vectored : Vectored symbols (idtInit symbols) p.acknowledge.1 (.irq n))
      (entered : called = handled zeroExtend (.irq n) 0 returnAddress m)
      (returned : irqHandler symbols called.mem (load32 called.mem (called.reg .esp + 4))
        p.acknowledge.2 = (invoked, q)) :
      Step symbols zeroExtend returnAddress p (.interrupt m p.accept invoked) q

/-! Between two interrupts. -/

def masterProgram : Program := ⟨.ocw, false, true, 0x20, 4, 1, 0⟩
def slaveProgram : Program := ⟨.ocw, false, true, 0x28, 2, 1, 0⟩

/-- The controllers are programmed, and the first one has nothing in service. -/
structure Ready (p : Pics) : Prop where
  master : p.master.program = masterProgram
  slave : p.slave.program = slaveProgram
  idle : p.master.service = ∅

/-- Whatever state the controllers were in, in the middle of an initialisation too. -/
theorem irqInit_eq (p : Pics) : irqInit p = ⟨⟨masterProgram, ∅, ∅⟩, ⟨slaveProgram, ∅, ∅⟩⟩ := rfl

theorem irqInit_ready (p : Pics) : Ready (irqInit p) := ⟨rfl, rfl, rfl⟩

/-- The number of the stub for what was accepted. -/
def irqNumber : Option (Input wire) → Fin 16
  | some (.master line _) => ⟨line, by omega⟩
  | some (.slave line) => ⟨8 + line, by omega⟩
  | none => ⟨7, by decide⟩

/-- What an interrupt leaves: `ends` says that irq_handler ends one of the second controller. -/
def settle (ends : Bool) (p : Pics) : Pics :=
  match p.accept with
  | some (.master line _) => ⟨p.master.drop line, if ends then p.slave.retire else p.slave⟩
  | some (.slave line) =>
      ⟨p.master.drop wire, if ends then p.slave.drop line else p.slave.take line⟩
  | none => ⟨p.master, if ends then p.slave.retire else p.slave⟩

theorem endOfInterrupt (ends : Bool) (p : Pics) :
    outb 0x20 0x20 (if ends then outb 0xA0 0x20 p else p) =
      ⟨p.master.retire, if ends then p.slave.retire else p.slave⟩ := by
  cases ends <;> rfl

section ready
variable {p q : Pics} (ready : Ready p)
include ready

theorem Ready.raise (input : Input wire) : Ready (p.raise input) := by
  obtain ⟨master, slave, idle⟩ := ready
  cases input <;> exact ⟨master, slave, idle⟩

theorem Ready.withdraw (input : Input wire) : Ready (p.withdraw input) := by
  obtain ⟨master, slave, idle⟩ := ready
  cases input <;> exact ⟨master, slave, idle⟩

theorem Ready.vector : p.acknowledge.1 = (Stub.irq (irqNumber p.accept)).vector := by
  have cascaded : p.cascaded = true := by
    rw [Pair.cascaded, ready.master, ready.slave]
    decide
  have firstVectors : ∀ line : Line,
      masterProgram.vectors + BitVec.ofNat 8 line = BitVec.ofNat 8 (32 + line) := by decide
  have secondVectors : ∀ line : Line,
      slaveProgram.vectors + BitVec.ofNat 8 line = BitVec.ofNat 8 (32 + (8 + line)) := by decide
  unfold Pair.acknowledge Controller.vector
  rw [ready.master, ready.slave]
  cases p.accept with
  | none => exact firstVectors (Fin.last 7)
  | some input =>
    cases input with
    | master line device => exact firstVectors line
    | slave line =>
      simp only [if_pos cascaded]
      exact secondVectors line

/-- The end of interrupt of the first controller undoes what was taken; that of the second one
does when irq_handler sends it. -/
theorem Ready.settles (ends : Bool) :
    outb 0x20 0x20 (if ends then outb 0xA0 0x20 p.acknowledge.2 else p.acknowledge.2) =
      settle ends p := by
  have masterKept : p.master.program.mode.getLsbD 1 = false := by
    rw [ready.master]
    rfl
  have slaveKept : p.slave.program.mode.getLsbD 1 = false := by
    rw [ready.slave]
    rfl
  have first : ∀ line, ∀ busy ∈ p.master.service, line < busy := by simp [ready.idle]
  rw [endOfInterrupt]
  unfold Pair.acknowledge Irq.settle
  cases accepted : p.accept with
  | none => simp only [Controller.retire_idle ready.idle]
  | some input =>
    cases input with
    | master line device => simp only [Controller.retire_take (first line) masterKept]
    | slave line =>
      have selected := Controller.select_eligible (Pair.accept_slave accepted).2
      have least := (Controller.mem_eligible_iff.mp selected).2.2
      simp only [Controller.retire_take (first wire) masterKept, Controller.retire_take least slaveKept]

theorem Ready.settle (ends : Bool) : Ready (settle ends p) := by
  obtain ⟨master, slave, idle⟩ := ready
  unfold Irq.settle
  split <;> cases ends <;> exact ⟨by simpa using master, by simpa using slave, idle⟩

end ready

/-! What settling does to the requests and to the second controller. -/

section settle
variable {p : Pics} {line : Line}

theorem requested_settle (ends : Bool) (p : Pics) (input : Input wire) :
    (settle ends p).Requested input ↔ p.accept ≠ some input ∧ p.Requested input := by
  unfold settle
  cases p.accept with
  | none => cases ends <;> cases input <;> simp [Pair.Requested]
  | some other =>
    cases other with
    | master line device =>
      cases ends <;> cases input <;> simp [Pair.Requested, eq_comm]
    | slave line =>
      cases input with
      | master next device => cases ends <;> simp [Pair.Requested, device]
      | slave next => cases ends <;> simp [Pair.Requested, eq_comm]

theorem settle_clear {ends : Bool} (clear : p.slave.service = ∅)
    (ended : ∀ line, p.accept = some (.slave line) → ends = true) :
    (settle ends p).slave.service = ∅ := by
  unfold settle
  split
  · cases ends <;> simp [Controller.retire_idle clear, clear]
  · next line accepted => simp [ended line accepted, clear]
  · cases ends <;> simp [Controller.retire_idle clear, clear]

theorem settle_held (ready : Ready p) (accepted : p.accept = some (.slave line)) :
    line ∈ (settle false p).slave.service := by
  have kept : p.slave.program.mode.getLsbD 1 = false := by
    rw [ready.slave]
    rfl
  unfold settle
  rw [accepted]
  simp [Controller.take_service kept]

theorem settle_keeps (held : line ∈ p.slave.service) : line ∈ (settle false p).slave.service := by
  unfold settle
  split
  · simpa using held
  · exact Controller.service_take held
  · simpa using held

/-- A line in service holds back the lines after it. -/
theorem accept_before {higher : Line} (held : line ∈ p.slave.service)
    (accepted : p.accept = some (.slave higher)) : higher < line := by
  have selected := Controller.select_eligible (Pair.accept_slave accepted).2
  exact (Controller.mem_eligible_iff.mp selected).2.2 line held

end settle

/-! Steps. -/

variable {symbols : Symbols} {zeroExtend : Bool} {returnAddress : Word}

theorem irqHandler_handled (symbols : Symbols) (zeroExtend : Bool) (stub : Stub)
    (error returnAddress : Word) (m : Machine) (p : Pics) :
    (irqHandler symbols (handled zeroExtend stub error returnAddress m).mem
        (load32 (handled zeroExtend stub error returnAddress m).mem
          ((handled zeroExtend stub error returnAddress m).reg .esp + 4)) p).2 =
      outb 0x20 0x20 (if decide (m.reg .edx ≥ 40) then outb 0xA0 0x20 p else p) := by
  obtain ⟨useresp, ss, same⟩ := passed_handled zeroExtend stub error returnAddress m
  have number := congrArg Registers.intNo same
  rw [passed] at number
  simp only [irqHandler, number, decide_eq_true_eq]

section step
variable {p q : Pics} {m : Machine} {taken : Option (Input wire)} {invoked : Option Invocation}

theorem interrupt_settles (ready : Ready p)
    (step : Step symbols zeroExtend returnAddress p (.interrupt m taken invoked) q) :
    taken = p.accept ∧ q = settle (decide (m.reg .edx ≥ 40)) p := by
  cases step with
  | interrupt enabled vectored entered returned =>
    subst entered
    refine ⟨rfl, ?_⟩
    rw [← ready.settles, ← irqHandler_handled symbols zeroExtend _ 0 returnAddress m, returned]

/-- The processor can always take an interrupt that is enabled. -/
theorem interrupt_taken (symbols : Symbols) (zeroExtend : Bool) (returnAddress : Word)
    (ready : Ready p) (enabled : m.eflags.getLsbD 9 = true) :
    ∃ invoked, Step symbols zeroExtend returnAddress p (.interrupt m p.accept invoked)
      (settle (decide (m.reg .edx ≥ 40)) p) := by
  let called := handled zeroExtend (.irq (irqNumber p.accept)) 0 returnAddress m
  let outcome := irqHandler symbols called.mem (load32 called.mem (called.reg .esp + 4)) p.acknowledge.2
  have left : outcome.2 = settle (decide (m.reg .edx ≥ 40)) p := by
    rw [← ready.settles]
    exact irqHandler_handled symbols zeroExtend _ 0 returnAddress m _
  refine ⟨outcome.1, ?_⟩
  rw [← left]
  refine .interrupt enabled ?_ rfl rfl
  rw [ready.vector]
  exact idtInit_vectored symbols _

theorem step_ready {event : Event} (ready : Ready p)
    (step : Step symbols zeroExtend returnAddress p event q) : Ready q := by
  cases event with
  | raise input =>
    cases step
    exact ready.raise input
  | withdraw input =>
    cases step
    exact ready.withdraw input
  | interrupt m taken invoked =>
    rw [(interrupt_settles ready step).2]
    exact ready.settle _

theorem step_requested {event : Event} (ready : Ready p)
    (step : Step symbols zeroExtend returnAddress p event q) (input : Input wire) :
    q.Requested input ↔ event = .raise input ∨ ¬event.Clears input ∧ p.Requested input := by
  cases event with
  | raise other =>
    cases step
    simp [Pair.requested_raise, Event.Clears, eq_comm]
  | withdraw other =>
    cases step
    simp [Pair.requested_withdraw, Event.Clears, eq_comm]
  | interrupt m taken invoked =>
    obtain ⟨rfl, rfl⟩ := interrupt_settles ready step
    simp [requested_settle, Event.Clears]

end step

/-! Runs. -/

section runs
variable {p q : Pics} {ops : List Event}
variable (run : Runs (Step symbols zeroExtend returnAddress) (irqInit p) ops q)
include run

theorem run_ready : Ready q :=
  run.invariant (irqInit_ready p) fun _ _ _ ready step => step_ready ready step

/-- Between interrupts nothing is in service while each of the second controller came upon 40 or
more in edx. -/
theorem run_idle (large : ∀ m line invoked,
    .interrupt m (some (.slave line)) invoked ∈ ops → m.reg .edx ≥ 40) :
    q.slave.service = ∅ := by
  refine Runs.along rfl ?_ ops [] q (List.append_nil ops).symm run
  intro before event after t u split first step clear
  cases event with
  | raise input =>
    cases step
    cases input <;> exact clear
  | withdraw input =>
    cases step
    cases input <;> exact clear
  | interrupt m taken invoked =>
    obtain ⟨accepted, settled⟩ := interrupt_settles (run_ready first) step
    rw [settled]
    refine settle_clear clear fun line same => ?_
    rw [same] at accepted
    subst accepted
    exact decide_eq_true (large m line invoked (by simp [split]))

/-- The second controller is left with an interrupt in service by exactly the interrupts for it
that come upon less than 40 in edx. -/
theorem run_clear_iff :
    (∀ before after t, ops = before ++ after →
      Runs (Step symbols zeroExtend returnAddress) (irqInit p) before t →
        t.master.service = ∅ ∧ t.slave.service = ∅) ↔
      ∀ m line invoked, .interrupt m (some (.slave line)) invoked ∈ ops → m.reg .edx ≥ 40 := by
  constructor
  · intro clear m line invoked member
    obtain ⟨before, after, split⟩ := List.append_of_mem member
    subst split
    obtain ⟨t, first, rest⟩ := run.split
    cases rest with
    | next here tail =>
      obtain ⟨accepted, settled⟩ := interrupt_settles (run_ready first) here
      by_contra small
      rw [decide_eq_false small] at settled
      have held := settle_held (run_ready first) accepted.symm
      rw [← settled, (clear (before ++ [_]) after _ (by simp) (first.snoc here)).2] at held
      exact Finset.notMem_empty line held
  · intro large before after t split first
    refine ⟨(run_ready first).idle, run_idle first fun m line invoked member => ?_⟩
    exact large m line invoked (split ▸ List.mem_append_left after member)

/-- No request is lost, and none is answered twice: an input has a request exactly when it was
raised and has been neither withdrawn nor answered since, and only then is it answered. -/
theorem run_requested (input : Input wire) :
    (q.Requested input ↔ Since (· = .raise input) (Event.Clears input) ops) ∧
      ∀ before m invoked after, ops = before ++ .interrupt m (some input) invoked :: after →
        Since (· = .raise input) (Event.Clears input) before := by
  have latched : ∀ {ops t}, Runs (Step symbols zeroExtend returnAddress) (irqInit p) ops t →
      (t.Requested input ↔ Since (· = .raise input) (Event.Clears input) ops) := by
    intro ops t run
    refine run.since (fun t => t.Requested input) ?_
      fun _ _ _ _ first step => step_requested (run_ready first) step input
    cases input <;> simp [irqInit_eq, Pair.Requested]
  refine ⟨latched run, ?_⟩
  rintro before m invoked after rfl
  obtain ⟨t, first, rest⟩ := run.split
  cases rest with
  | next here tail =>
    rw [← latched first]
    exact Pair.accept_requested (interrupt_settles (run_ready first) here).1.symm

/-- As long as nothing stays in service, every interrupt is for the first of the requests. -/
theorem run_first (large : ∀ m line invoked,
    .interrupt m (some (.slave line)) invoked ∈ ops → m.reg .edx ≥ 40)
    {before after : List Event} {m : Machine} {taken : Option (Input wire)}
    {invoked : Option Invocation} (split : ops = before ++ .interrupt m taken invoked :: after)
    (input : Input wire) :
    taken = some input ↔ Since (· = .raise input) (Event.Clears input) before ∧
      ∀ other, Since (· = .raise other) (Event.Clears other) before →
        Pair.rank input ≤ Pair.rank other := by
  subst split
  obtain ⟨t, first, rest⟩ := run.split
  cases rest with
  | next here tail =>
    have ready := run_ready first
    have idle := run_idle first fun m line invoked member =>
      large m line invoked (List.mem_append_left _ member)
    have opened : Pair.Open t :=
      ⟨by rw [ready.master]; rfl, by rw [ready.slave]; rfl, ready.idle, idle⟩
    rw [(interrupt_settles ready here).1, opened.accept_iff, (run_requested first input).1]
    simp only [fun other => (run_requested first other).1]

end runs

/-! A second controller that is left in service. -/

theorem held_back {p q : Pics} {ops : List Event} {line : Line} (ready : Ready p)
    (held : line ∈ p.slave.service)
    (small : ∀ m taken invoked, .interrupt m taken invoked ∈ ops → m.reg .edx < 40)
    (run : Runs (Step symbols zeroExtend returnAddress) p ops q) :
    line ∈ q.slave.service ∧
      ∀ m other invoked, .interrupt m (some (.slave other)) invoked ∈ ops → other < line := by
  induction run with
  | done p => exact ⟨held, by simp⟩
  | @next p t q event ops first rest ih =>
    have kept : line ∈ t.slave.service := by
      cases event with
      | raise input =>
        cases first
        cases input <;> exact held
      | withdraw input =>
        cases first
        cases input <;> exact held
      | interrupt m taken invoked =>
        have low := BitVec.not_le.mpr (small m taken invoked List.mem_cons_self)
        rw [(interrupt_settles ready first).2, decide_eq_false low]
        exact settle_keeps held
    obtain ⟨left, later⟩ := ih (step_ready ready first) kept
      fun m taken invoked member => small m taken invoked (List.mem_cons_of_mem _ member)
    refine ⟨left, fun m other invoked member => ?_⟩
    rcases List.mem_cons.mp member with rfl | tail
    · exact accept_before held (interrupt_settles ready first).1.symm
    · exact later m other invoked tail

/-- Once an interrupt of the second controller has come upon less than 40 in edx, its line and
those after it are cut off until an interrupt comes upon more. -/
theorem run_blocked {p q : Pics} {before after : List Event} {m : Machine} {line : Line}
    {invoked : Option Invocation}
    (run : Runs (Step symbols zeroExtend returnAddress) (irqInit p)
      (before ++ .interrupt m (some (.slave line)) invoked :: after) q)
    (low : m.reg .edx < 40)
    (small : ∀ n taken call, .interrupt n taken call ∈ after → n.reg .edx < 40) :
    line ∈ q.slave.service ∧
      ∀ n other call, .interrupt n (some (.slave other)) call ∈ after → other < line := by
  obtain ⟨t, first, rest⟩ := run.split
  cases rest with
  | next here tail =>
    have ready := run_ready first
    obtain ⟨accepted, settled⟩ := interrupt_settles ready here
    refine held_back (step_ready ready here) ?_ small tail
    rw [settled, decide_eq_false (BitVec.not_le.mpr low)]
    exact settle_held ready accepted.symm

/-! The disk interrupt, raised once, with 0 in edx. -/

def interruptedCode : Machine where
  reg source := if source = .esp then 0x90000 else 0
  seg _ := 0x10
  eip := 0x100000
  eflags := 0x202
  mem _ := 0

def powerOn : Pics := ⟨⟨⟨.ocw, false, false, 0, 0, 0, 0⟩, ∅, ∅⟩, ⟨⟨.ocw, false, false, 0, 0, 0, 0⟩, ∅, ∅⟩⟩

def disk : Input wire := .slave ⟨6, by decide⟩

def mouse : Input wire := .slave ⟨4, by decide⟩

def keyboard : Input wire := .master ⟨1, by decide⟩ (by decide)

theorem disk_accepted : ((irqInit powerOn).raise disk).accept = some disk := by decide

theorem disk_run : ∃ invoked q, Runs (Step linked true 0x100100) (irqInit powerOn)
    [.raise disk, .interrupt interruptedCode (some disk) invoked] q := by
  obtain ⟨invoked, step⟩ := interrupt_taken linked true 0x100100
    ((irqInit_ready powerOn).raise disk) (m := interruptedCode) (by decide)
  rw [disk_accepted] at step
  exact ⟨invoked, _, .next (.raise _ _) (.next step (.done _))⟩

theorem run_clear_iff_disk : ∃ invoked q,
    Runs (Step linked true 0x100100) (irqInit powerOn)
      [.raise disk, .interrupt interruptedCode (some disk) invoked] q ∧
    ((∀ before after t, [.raise disk, .interrupt interruptedCode (some disk) invoked] = before ++ after →
      Runs (Step linked true 0x100100) (irqInit powerOn) before t →
        t.master.service = ∅ ∧ t.slave.service = ∅) ↔
      ∀ m line call, Event.interrupt m (some (.slave line)) call ∈
          [Event.raise disk, .interrupt interruptedCode (some disk) invoked] → m.reg .edx ≥ 40) := by
  obtain ⟨invoked, q, run⟩ := disk_run
  exact ⟨invoked, q, run, run_clear_iff run⟩

theorem run_requested_disk : ∃ invoked q,
    Runs (Step linked true 0x100100) (irqInit powerOn)
      [.raise disk, .interrupt interruptedCode (some disk) invoked] q ∧
    (q.Requested disk ↔ Since (· = .raise disk) (Event.Clears disk)
      [.raise disk, .interrupt interruptedCode (some disk) invoked]) := by
  obtain ⟨invoked, q, run⟩ := disk_run
  exact ⟨invoked, q, run, (run_requested run disk).1⟩

/-- The keyboard is answered before the disk, which was raised first. -/
theorem run_first_keyboard :
    ∃ m invoked later q, Runs (Step linked true 0x100100) (irqInit powerOn)
      [.raise disk, .raise keyboard, .interrupt m (some keyboard) invoked, .interrupt m (some disk) later] q ∧
      m.reg .edx = 0x1F0 ∧ ∀ input, some keyboard = some input ↔
        Since (· = .raise input) (Event.Clears input) [.raise disk, .raise keyboard] ∧
          ∀ other, Since (· = .raise other) (Event.Clears other) [.raise disk, .raise keyboard] →
            Pair.rank input ≤ Pair.rank other := by
  let m := interruptedCode.set .edx 0x1F0
  have ready := ((irqInit_ready powerOn).raise disk).raise keyboard
  obtain ⟨invoked, step⟩ := interrupt_taken linked true 0x100100 ready (m := m) (by decide)
  obtain ⟨later, next⟩ := interrupt_taken linked true 0x100100 (step_ready ready step) (m := m) (by decide)
  have first : (((irqInit powerOn).raise disk).raise keyboard).accept = some keyboard := by decide
  have second : (settle (decide (m.reg .edx ≥ 40)) (((irqInit powerOn).raise disk).raise keyboard)).accept =
      some disk := by decide
  rw [first] at step
  rw [second] at next
  have run := Runs.next (.raise (irqInit powerOn) disk) (.next (.raise _ keyboard) (.next step (.next next (.done _))))
  refine ⟨m, invoked, later, _, run, rfl, fun input => run_first run ?_ rfl input⟩
  intro n line call member
  have large : m.reg .edx ≥ 40 := by decide
  rcases List.mem_cons.mp member with same | member
  · exact Event.noConfusion same
  rcases List.mem_cons.mp member with same | member
  · exact Event.noConfusion same
  rcases List.mem_cons.mp member with same | member
  · injection same with code
    exact code ▸ large
  · injection List.mem_singleton.mp member with code
    exact code ▸ large

/-- With the disk in service the mouse, which comes before it, is still answered. -/
theorem run_blocked_disk : ∃ invoked later q, Runs (Step linked true 0x100100) (irqInit powerOn)
    [.raise disk, .interrupt interruptedCode (some disk) invoked, .raise mouse,
      .interrupt interruptedCode (some mouse) later] q ∧
    ⟨6, by decide⟩ ∈ q.slave.service ∧
    ∀ n other call, Event.interrupt n (some (.slave other)) call ∈
      [Event.raise mouse, .interrupt interruptedCode (some mouse) later] → other < ⟨6, by decide⟩ := by
  have ready := (irqInit_ready powerOn).raise disk
  obtain ⟨invoked, step⟩ := interrupt_taken linked true 0x100100 ready (m := interruptedCode) (by decide)
  have raised := (step_ready ready step).raise mouse
  obtain ⟨later, next⟩ := interrupt_taken linked true 0x100100 raised (m := interruptedCode) (by decide)
  have answered : ((settle (decide (interruptedCode.reg .edx ≥ 40)) ((irqInit powerOn).raise disk)).raise mouse).accept =
      some mouse := by decide
  rw [disk_accepted] at step
  rw [answered] at next
  have run := Runs.next (.raise (irqInit powerOn) disk) (.next step (.next (.raise _ mouse) (.next next (.done _))))
  refine ⟨invoked, later, _, run, @run_blocked linked true 0x100100 powerOn _ [.raise disk]
    [.raise mouse, .interrupt interruptedCode (some mouse) later] interruptedCode ⟨6, by decide⟩ invoked run
    (by decide) ?_⟩
  intro n taken call member
  have small : interruptedCode.reg .edx < 40 := by decide
  rcases List.mem_cons.mp member with same | member
  · exact Event.noConfusion same
  · injection List.mem_singleton.mp member with code
    exact code ▸ small

end Vaelen.Kernel.Irq
