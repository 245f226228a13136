import Vaelen.Base.Memory

/-!
Segments of a 32-bit x86 machine: the eight bytes of a descriptor, the table a selector looks it up
in, and the linear address of an access. A segment that starts at 0 and ends at the last address
makes every linear address the offset itself.
-/

namespace Vaelen.Base.Segmentation

structure Descriptor where
  base : Word
  limit : BitVec 20
  access : Byte
  flags : BitVec 4
  deriving DecidableEq, Repr

def readDescriptor (memory : Mem) (address : Word) : Descriptor where
  base := memory (address + 7) ++ memory (address + 4) ++ memory (address + 3) ++ memory (address + 2)
  limit := (memory (address + 6)).extractLsb' 0 4 ++ memory (address + 1) ++ memory address
  access := memory (address + 5)
  flags := (memory (address + 6)).extractLsb' 4 4

theorem readDescriptor_eq {first second : Mem} {address other : Word}
    (same : ∀ k : Word, k.toNat < 8 → first (address + k) = second (other + k)) :
    readDescriptor first address = readDescriptor second other := by
  have start : first address = second other := by simpa using same 0 (by decide)
  simp only [readDescriptor, start, same 1 (by decide), same 2 (by decide), same 3 (by decide),
    same 4 (by decide), same 5 (by decide), same 6 (by decide), same 7 (by decide)]

namespace Descriptor

def present (d : Descriptor) : Bool := d.access.getLsbD 7
def privilege (d : Descriptor) : BitVec 2 := d.access.extractLsb' 5 2
def code (d : Descriptor) : Bool := d.access.getLsbD 4 && d.access.getLsbD 3
def writable (d : Descriptor) : Bool := d.access.getLsbD 4 && !d.access.getLsbD 3 && d.access.getLsbD 1

/-- The last offset; with the granularity flag the limit counts pages. -/
def last (d : Descriptor) : Word :=
  if d.flags.getLsbD 3 then d.limit ++ (0xFFF : BitVec 12) else d.limit.setWidth 32

/-- Where an access to `size` bytes goes, none if it faults. -/
def linear (d : Descriptor) (offset : Word) (size : Nat) : Option Word :=
  if d.present ∧ offset.toNat + size ≤ d.last.toNat + 1 then some (d.base + offset) else none

/-- The segment is the whole address space. -/
structure Flat (d : Descriptor) : Prop where
  present : d.present = true
  base : d.base = 0
  last : d.last = 0xFFFFFFFF

theorem Flat.linear {d : Descriptor} (flat : d.Flat) {offset : Word} {size : Nat}
    (fits : offset.toNat + size ≤ 2 ^ 32) : d.linear offset size = some offset := by
  have inside : d.present ∧ offset.toNat + size ≤ d.last.toNat + 1 := by
    rw [flat.last]
    exact ⟨flat.present, fits⟩
  rw [Descriptor.linear, if_pos inside, flat.base]
  simp

end Descriptor

/-- The operand of lgdt. -/
structure TableRegister where
  limit : BitVec 16
  base : Word
  deriving DecidableEq, Repr

/-- The descriptor of a selector of the global table; selector 0 has none. -/
def resolve (memory : Mem) (table : TableRegister) (selector : BitVec 16) : Option Descriptor :=
  if selector.getLsbD 2 = false ∧ selector &&& 0xFFFC ≠ 0 ∧ selector ||| 7 ≤ table.limit then
    some (readDescriptor memory (table.base + (selector &&& 0xFFF8).setWidth 32))
  else none

end Vaelen.Base.Segmentation
