import Vaelen.Base.Store
import Vaelen.Kernel.Ata

/-!
The disk over whole runs of ata_read_sector and ata_write_sector: a store of sectors under the low 28
bits of their numbers.
-/

namespace Vaelen.Kernel.AtaRuns
open Vaelen.Base Ata

inductive Request where
  | read (lba : Word) (out : Buffer)
  | write (lba : Word) (buffer : Buffer)

/-- One call with the drive present, which returns 0. -/
def Step (d : Device) (request : Request) (e : Device) : Prop :=
  match request with
  | .read lba out => ∃ result, Returns (ataReadSector · true lba out d) (0, result, e)
  | .write lba buffer => Returns (ataWriteSector · true lba buffer d) (0, e)

abbrev Sector := Fin 512 → Byte

def sectors (d : Device) (address : BitVec 28) : Sector := fun i => sectorByte (d.sector address) i

def access : Request → Access (BitVec 28) Sector
  | .read lba _ => .get (lba.setWidth 28)
  | .write lba buffer => .put (lba.setWidth 28) fun i => buffer i

theorem sectors_settled (lba : Word) (d : Device) : sectors (settled lba d) = sectors d := rfl

theorem sectors_written (lba : Word) (buffer : Buffer) (d : Device) :
    sectors (written lba buffer d) = Function.update (sectors d) (lba.setWidth 28) fun i => buffer i := by
  funext address i
  by_cases here : address = lba.setWidth 28
  · subst here
    have half : i.val / 2 < 256 := by omega
    rw [Function.update_self, sectors, ← sectorByte_packed buffer i]
    simp [sectorByte, written, fill, half]
  · rw [Function.update_of_ne here]
    have kept : (written lba buffer d).sector address = d.sector address := Function.update_of_ne here _ _
    rw [sectors, kept, sectors]

/-- Each call is one access to the store. -/
theorem step_refines (d : Device) (request : Request) (e : Device) (step : Step d request e) :
    sectors e = Access.apply (sectors d) (access request) := by
  cases request with
  | read lba out =>
    obtain ⟨result, returned⟩ := step
    have same := returned.unique (read_returns lba out d)
    simp only [Prod.mk.injEq] at same
    rw [same.2.2]
    exact sectors_settled lba d
  | write lba buffer =>
    have same := Returns.unique step (write_returns lba buffer d)
    simp only [Prod.mk.injEq] at same
    rw [same.2]
    exact sectors_written lba buffer d

theorem step_exists (d : Device) (request : Request) : ∃ e, Step d request e := by
  cases request with
  | read lba out => exact ⟨_, _, read_returns lba out d⟩
  | write lba buffer => exact ⟨_, write_returns lba buffer d⟩

theorem run_exists (d : Device) (requests : List Request) : ∃ e, Runs Step d requests e := by
  induction requests generalizing d with
  | nil => exact ⟨d, Runs.done d⟩
  | cons request requests ih =>
    obtain ⟨e, first⟩ := step_exists d request
    obtain ⟨f, rest⟩ := ih e
    exact ⟨f, Runs.next first rest⟩

/-- No write after this one goes to the same sector. -/
def Unwritten (lba : Word) (requests : List Request) : Prop :=
  ∀ other buffer, Request.write other buffer ∈ requests → other.setWidth 28 ≠ lba.setWidth 28

theorem Unwritten.quiet {lba : Word} {requests : List Request} (unwritten : Unwritten lba requests)
    (value : Sector) : Access.put (lba.setWidth 28) value ∉ requests.map access := by
  intro member
  obtain ⟨request, listed, same⟩ := List.mem_map.mp member
  cases request with
  | read other out => cases same
  | write other buffer => exact unwritten other buffer listed (Access.put.inj same).1

/-- Any calls can be made, all return 0, and a read then sees what was written last to its sector, or
what the disk held before, and leaves the caller's bytes behind the sector. -/
theorem run_disk (d : Device) (requests : List Request) :
    (∃ e, Runs Step d requests e) ∧ ∀ e, Runs Step d requests e → ∀ lba out,
      ∃ result f, Returns (ataReadSector · true lba out e) (0, result, f) ∧
        (∀ i, 512 ≤ i → result i = out i) ∧
        (∀ before other buffer after, requests = before ++ .write other buffer :: after →
          other.setWidth 28 = lba.setWidth 28 → Unwritten lba after → SameSector result buffer) ∧
        (Unwritten lba requests → SameSector result (contents d lba)) := by
  refine ⟨run_exists d requests, fun e run lba out => ?_⟩
  have seen : ∀ i (inside : i < 512), received e lba out i =
      latest (sectors d) (requests.map access) (lba.setWidth 28) ⟨i, inside⟩ := by
    intro i inside
    rw [← run.latest sectors access step_refines, received_inside e lba out inside]
    rfl
  refine ⟨received e lba out, settled lba e, read_returns lba out e, ?_, ?_, ?_⟩
  · intro i beyond
    exact if_neg (Nat.not_lt_of_le beyond)
  · intro before other buffer after split same unwritten i inside
    rw [seen i inside, split, List.map_append, List.map_cons, access, same,
      latest_put unwritten.quiet]
  · intro unwritten i inside
    rw [seen i inside, latest_initial unwritten.quiet]
    rfl

end Vaelen.Kernel.AtaRuns
