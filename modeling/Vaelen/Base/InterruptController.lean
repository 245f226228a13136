import Vaelen.Base.Memory

/-!
A pair of programmable interrupt controllers of the 8259A family, the second one on a line of the
first. Requests are edges that are latched until they are acknowledged or withdrawn, lines with
smaller numbers go first, and a line in service holds back itself and the lines after it.
-/

namespace Vaelen.Base.InterruptController

abbrev Line := Fin 8

/-- The next byte of an initialisation that a controller waits for, or none. -/
inductive Expecting where
  | icw2
  | icw3
  | icw4
  | ocw
  deriving DecidableEq, Repr

/-- What the command words have set. -/
structure Program where
  expecting : Expecting
  single : Bool
  needsIcw4 : Bool
  vectors : Byte
  cascade : Byte
  mode : Byte
  mask : Byte
  deriving DecidableEq

structure Controller where
  program : Program
  requests : Finset Line
  service : Finset Line
  deriving DecidableEq

def lowest (lines : Finset Line) : Option Line :=
  if member : lines.Nonempty then some (lines.min' member) else none

theorem lowest_eq_some_iff {lines : Finset Line} {line : Line} :
    lowest lines = some line ↔ line ∈ lines ∧ ∀ other ∈ lines, line ≤ other := by
  unfold lowest
  by_cases member : lines.Nonempty
  · rw [dif_pos member, Option.some.injEq, Finset.min'_eq_iff]
  · rw [dif_neg member, Finset.not_nonempty_iff_eq_empty.mp member]
    simp

theorem lowest_eq_none_iff {lines : Finset Line} : lowest lines = none ↔ lines = ∅ := by
  unfold lowest
  by_cases member : lines.Nonempty
  · simp [member, member.ne_empty]
  · simp [Finset.not_nonempty_iff_eq_empty.mp member]

namespace Controller

/-- The non-specific end of interrupt retires the first line in service. -/
def retire (c : Controller) : Controller :=
  match lowest c.service with
  | some line => { c with service := c.service.erase line }
  | none => c

/-- A byte at the first port: ICW1, or the operation command words that end an interrupt. -/
def command (value : Byte) (c : Controller) : Controller :=
  if value.getLsbD 4 then
    { program :=
        { c.program with
          expecting := .icw2
          single := value.getLsbD 1
          needsIcw4 := value.getLsbD 0
          mode := 0
          mask := 0 }
      requests := ∅
      service := ∅ }
  else if value &&& 0xF8 = 0x20 then c.retire
  else if value &&& 0xF8 = 0x60 then { c with service := c.service.erase (value.setWidth 3).toFin }
  else c

/-- A byte at the second port: the rest of an initialisation, and then the mask. -/
def data (value : Byte) (c : Controller) : Controller :=
  let last : Expecting := if c.program.needsIcw4 then .icw4 else .ocw
  { c with
    program :=
      match c.program.expecting with
      | .icw2 =>
          { c.program with
            vectors := value &&& 0xF8
            expecting := if c.program.single then last else .icw3 }
      | .icw3 => { c.program with cascade := value, expecting := last }
      | .icw4 => { c.program with mode := value, expecting := .ocw }
      | .ocw => { c.program with mask := value } }

def eligible (c : Controller) : Finset Line :=
  c.requests.filter fun line => c.program.mask.getLsbD line = false ∧ ∀ busy ∈ c.service, line < busy

/-- The line that the controller interrupts for. -/
def select (c : Controller) : Option Line := lowest c.eligible

/-- The processor has taken the line. Bit 1 of the mode ends an interrupt at once. -/
def take (line : Line) (c : Controller) : Controller :=
  { c with
    requests := c.requests.erase line
    service := if c.program.mode.getLsbD 1 then c.service else insert line c.service }

def vector (line : Line) (c : Controller) : Byte := c.program.vectors + BitVec.ofNat 8 line

/-- The request of the line has been met and nothing is in service for it. -/
def drop (line : Line) (c : Controller) : Controller :=
  { c with requests := c.requests.erase line }

variable {c : Controller} {line : Line}

theorem mem_eligible_iff : line ∈ c.eligible ↔
    line ∈ c.requests ∧ c.program.mask.getLsbD line = false ∧ ∀ busy ∈ c.service, line < busy := by
  simp [eligible]

@[simp] theorem take_program : (c.take line).program = c.program := rfl
@[simp] theorem take_requests : (c.take line).requests = c.requests.erase line := rfl
@[simp] theorem drop_requests : (c.drop line).requests = c.requests.erase line := rfl
@[simp] theorem drop_service : (c.drop line).service = c.service := rfl
@[simp] theorem drop_program : (c.drop line).program = c.program := rfl

@[simp] theorem retire_program : c.retire.program = c.program := by
  unfold retire
  split <;> rfl

@[simp] theorem retire_requests : c.retire.requests = c.requests := by
  unfold retire
  split <;> rfl

theorem take_service (kept : c.program.mode.getLsbD 1 = false) :
    (c.take line).service = insert line c.service :=
  if_neg (Bool.eq_false_iff.mp kept)

theorem service_take : c.service ⊆ (c.take line).service := by
  simp only [take]
  split
  · exact subset_rfl
  · exact Finset.subset_insert line _

theorem select_eligible (selected : c.select = some line) : line ∈ c.eligible :=
  (lowest_eq_some_iff.mp selected).1

theorem select_isSome_iff : c.select.isSome ↔ c.eligible.Nonempty := by
  rw [Finset.nonempty_iff_ne_empty, ne_eq, ← lowest_eq_none_iff, Option.isSome_iff_ne_none]
  rfl

theorem retire_idle (idle : c.service = ∅) : c.retire = c := by
  rw [retire, lowest_eq_none_iff.mpr idle]

/-- Ending the interrupt that was taken last leaves the service as it was before. -/
theorem retire_take (first : ∀ busy ∈ c.service, line < busy) (kept : c.program.mode.getLsbD 1 = false) :
    (c.take line).retire = c.drop line := by
  have fresh : line ∉ c.service := fun inside => lt_irrefl line (first line inside)
  have chosen : lowest (c.take line).service = some line := by
    rw [take_service kept, lowest_eq_some_iff]
    refine ⟨Finset.mem_insert_self line _, fun other member => ?_⟩
    rcases Finset.mem_insert.mp member with same | inside
    · exact same.ge
    · exact (first other inside).le
  rw [retire, chosen]
  simp only [take_service kept, Finset.erase_insert fresh]
  rfl

end Controller

/-- The two controllers; `wire` is the line of the first that the second one drives. -/
structure Pair (wire : Line) where
  master : Controller
  slave : Controller
  deriving DecidableEq

/-- A line that a device can be on. -/
inductive Input (wire : Line) where
  | master (line : Line) (device : line ≠ wire)
  | slave (line : Line)
  deriving DecidableEq

variable {wire : Line}

namespace Pair

/-- The first controller, with the line that the second one drives. -/
def front (p : Pair wire) : Controller :=
  { p.master with
    requests := if p.slave.select.isSome then insert wire p.master.requests
      else p.master.requests.erase wire }

/-- Both have been told of the wire. -/
def cascaded (p : Pair wire) : Bool :=
  p.master.program.cascade.getLsbD wire && (p.slave.program.cascade.setWidth 3).toFin == wire

/-- The input that the processor is interrupted for. -/
def accept (p : Pair wire) : Option (Input wire) :=
  p.front.select.bind fun line =>
    if device : line ≠ wire then some (.master line device) else p.slave.select.map .slave

/-- The vector that an acknowledgement reads, and what it leaves. Nobody answers for the wire when
the two do not agree on it; without a request the last line of the first one is answered. -/
def acknowledge (p : Pair wire) : Byte × Pair wire :=
  match p.accept with
  | some (.master line _) => (p.master.vector line, { p with master := p.master.take line })
  | some (.slave line) =>
      (if p.cascaded then p.slave.vector line else 0xFF,
        ⟨p.master.take wire, p.slave.take line⟩)
  | none => (p.master.vector (Fin.last 7), p)

def raise : Input wire → Pair wire → Pair wire
  | .master line _, p =>
      { p with master := { p.master with requests := insert line p.master.requests } }
  | .slave line, p => { p with slave := { p.slave with requests := insert line p.slave.requests } }

def withdraw : Input wire → Pair wire → Pair wire
  | .master line _, p => { p with master := p.master.drop line }
  | .slave line, p => { p with slave := p.slave.drop line }

def Requested (p : Pair wire) : Input wire → Prop
  | .master line _ => line ∈ p.master.requests
  | .slave line => line ∈ p.slave.requests

variable {p : Pair wire} {input other : Input wire}

theorem accept_master {line : Line} {device : line ≠ wire}
    (accepted : p.accept = some (.master line device)) : p.front.select = some line := by
  obtain ⟨chosen, selected, reached⟩ := Option.bind_eq_some_iff.mp accepted
  split at reached
  · cases Option.some.inj reached
    exact selected
  · obtain ⟨_, _, same⟩ := Option.map_eq_some_iff.mp reached
    exact absurd same (by simp)

theorem accept_slave {line : Line} (accepted : p.accept = some (.slave line)) :
    p.front.select = some wire ∧ p.slave.select = some line := by
  obtain ⟨chosen, selected, reached⟩ := Option.bind_eq_some_iff.mp accepted
  split at reached
  · exact absurd (Option.some.inj reached) (by simp)
  · next wired =>
    obtain ⟨found, inside, same⟩ := Option.map_eq_some_iff.mp reached
    cases same
    exact ⟨selected.trans (congrArg some (not_not.mp wired)), inside⟩

theorem accept_requested (accepted : p.accept = some input) : p.Requested input := by
  cases input with
  | master line device =>
    have inside : line ∈ p.front.requests :=
      (Controller.mem_eligible_iff.mp (Controller.select_eligible (accept_master accepted))).1
    rw [front] at inside
    split at inside
    · exact Finset.mem_of_mem_insert_of_ne inside device
    · exact Finset.mem_of_mem_erase inside
  | slave line =>
    exact (Controller.mem_eligible_iff.mp (Controller.select_eligible (accept_slave accepted).2)).1

theorem requested_raise : (p.raise input).Requested other ↔ other = input ∨ p.Requested other := by
  cases input <;> cases other <;> simp [raise, Requested]

theorem requested_withdraw :
    (p.withdraw input).Requested other ↔ other ≠ input ∧ p.Requested other := by
  cases input <;> cases other <;> simp [withdraw, Requested, Controller.drop]

/-! Which input is accepted. -/

/-- The place of the input among all of them: those of the second controller come where the wire is. -/
def rank : Input wire → Nat
  | .master line _ => 9 * line
  | .slave line => 9 * wire + line

theorem rank_injective : Function.Injective (@rank wire) := by
  intro input other same
  cases input with
  | master line device =>
    cases other with
    | master next _ =>
      have equal : line = next := by simpa [rank, Fin.ext_iff] using same
      subst equal
      rfl
    | slave next =>
      simp only [rank] at same
      exact absurd (Fin.ext (by omega)) device
  | slave line =>
    cases other with
    | master next device =>
      simp only [rank] at same
      exact absurd (Fin.ext (by omega)) device
    | slave next =>
      have equal : line = next := by simpa [rank, Fin.ext_iff] using same
      rw [equal]

/-- Neither controller holds anything back. -/
structure Open (p : Pair wire) : Prop where
  masterMask : p.master.program.mask = 0
  slaveMask : p.slave.program.mask = 0
  masterService : p.master.service = ∅
  slaveService : p.slave.service = ∅

section open_pair
variable (opened : Open p)
include opened

theorem Open.slave_eligible : p.slave.eligible = p.slave.requests := by
  ext line
  simp [Controller.mem_eligible_iff, opened.slaveMask, opened.slaveService]

theorem Open.front_eligible : p.front.eligible = p.front.requests := by
  ext line
  simp [Controller.mem_eligible_iff, front, opened.masterMask, opened.masterService]

theorem Open.mem_front_iff {line : Line} : line ∈ p.front.eligible ↔
    if line = wire then p.slave.requests.Nonempty else line ∈ p.master.requests := by
  have output := @Controller.select_isSome_iff p.slave
  rw [opened.slave_eligible] at output
  rw [opened.front_eligible, front]
  by_cases wired : line = wire
  · rw [if_pos wired, wired, ← output]
    split <;> simp_all
  · rw [if_neg wired]
    split <;> simp [wired]

theorem Open.slave_front {line : Line} (requested : p.Requested (.slave line)) :
    wire ∈ p.front.eligible := by
  rw [opened.mem_front_iff, if_pos rfl]
  exact ⟨line, requested⟩

theorem Open.accept_least (accepted : p.accept = some input) :
    p.Requested input ∧ ∀ other, p.Requested other → rank input ≤ rank other := by
  cases input with
  | master line device =>
    obtain ⟨inside, first⟩ := lowest_eq_some_iff.mp (accept_master accepted)
    rw [opened.mem_front_iff, if_neg device] at inside
    refine ⟨inside, fun other requested => ?_⟩
    cases other with
    | master next apart =>
      have order : line.val ≤ next.val :=
        first next (opened.mem_front_iff.mpr (by rwa [if_neg apart]))
      simp only [rank]
      omega
    | slave next =>
      have order : line.val ≤ wire.val := first wire (opened.slave_front requested)
      simp only [rank]
      omega
  | slave line =>
    obtain ⟨wired, selected⟩ := accept_slave accepted
    obtain ⟨_, first⟩ := lowest_eq_some_iff.mp wired
    obtain ⟨inside, least⟩ := lowest_eq_some_iff.mp selected
    rw [opened.slave_eligible] at inside least
    refine ⟨inside, fun other requested => ?_⟩
    cases other with
    | master next apart =>
      have order : wire.val ≤ next.val :=
        first next (opened.mem_front_iff.mpr (by rwa [if_neg apart]))
      have unequal : wire.val ≠ next.val := fun same => apart (Fin.ext same.symm)
      simp only [rank]
      omega
    | slave next =>
      have order : line.val ≤ next.val := least next requested
      simp only [rank]
      omega

theorem Open.accept_isSome (requested : p.Requested other) : p.accept.isSome := by
  have output := @Controller.select_isSome_iff p.slave
  rw [opened.slave_eligible] at output
  have pending : p.front.eligible.Nonempty := by
    cases other with
    | master next apart => exact ⟨next, opened.mem_front_iff.mpr (by rwa [if_neg apart])⟩
    | slave next => exact ⟨wire, opened.slave_front requested⟩
  obtain ⟨line, selected⟩ := Option.isSome_iff_exists.mp (Controller.select_isSome_iff.mpr pending)
  have inside := opened.mem_front_iff.mp (Controller.select_eligible selected)
  rw [accept, selected, Option.bind_some]
  by_cases wired : line = wire
  · rw [if_pos wired] at inside
    rw [dif_neg (not_not.mpr wired), Option.isSome_map, output]
    exact inside
  · rw [dif_pos wired]
    rfl

/-- The input that is accepted is the first of those requested. -/
theorem Open.accept_iff : p.accept = some input ↔
    p.Requested input ∧ ∀ other, p.Requested other → rank input ≤ rank other := by
  constructor
  · exact opened.accept_least
  · intro ⟨requested, least⟩
    obtain ⟨found, accepted⟩ := Option.isSome_iff_exists.mp (opened.accept_isSome requested)
    obtain ⟨inside, first⟩ := opened.accept_least accepted
    rw [accepted, rank_injective (le_antisymm (first input requested) (least found inside))]

end open_pair

end Pair
end Vaelen.Base.InterruptController
