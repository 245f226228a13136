import Vaelen.Base.Memory

/-!
Address translation of a 32-bit x86 processor with pages of 4 KiB: a linear address selects an entry
of the directory, which points to a table, and an entry of that table. Both pointers are page
numbers, so the low twelve bits of what holds them say nothing about where they point.
-/

namespace Vaelen.Base.PageWalk

/-- The page that an entry or cr3 points to. -/
def pointer (entry : Word) : Word := entry &&& ~~~0xFFF

def present (entry : Word) : Bool := entry.getLsbD 0

/-- The address of the table entry for a linear address, none where the directory has no table. -/
def entryAddress (memory : Mem) (cr3 linear : Word) : Option Word :=
  let entry := load32 memory (pointer cr3 + (4 : Word) * (linear >>> 22))
  if present entry then some (pointer entry + (4 : Word) * (linear >>> 12 &&& 0x3FF)) else none

def physicalAddress (memory : Mem) (cr3 linear : Word) : Option Word :=
  (entryAddress memory cr3 linear).bind fun address =>
    let entry := load32 memory address
    if present entry then some (pointer entry ||| linear &&& 0xFFF) else none

theorem pointer_toNat (entry : Word) : (pointer entry).toNat = entry.toNat / 4096 * 4096 := by
  have shifted : pointer entry = entry >>> 12 <<< 12 := by
    apply BitVec.eq_of_getLsbD_eq
    intro i bound
    have mask : ∀ k < 32, (~~~0xFFF : Word).getLsbD k = decide (12 ≤ k) := by decide
    rw [pointer, BitVec.getLsbD_and, mask i bound, BitVec.getLsbD_shiftLeft, BitVec.getLsbD_ushiftRight]
    by_cases low : i < 12
    · simp [low]
    · have high : 12 ≤ i := Nat.le_of_not_lt low
      simp [low, high, bound]
  have size := entry.isLt
  rw [shifted, BitVec.toNat_shiftLeft, BitVec.toNat_ushiftRight, Nat.shiftRight_eq_div_pow,
    Nat.shiftLeft_eq, Nat.mod_eq_of_lt (by omega)]

theorem pointer_eq_iff (entry : Word) : pointer entry = entry ↔ entry.toNat % 4096 = 0 := by
  rw [← BitVec.toNat_inj, pointer_toNat]
  omega

/-- Flags in the low bits do not move a pointer. -/
theorem pointer_or_flags (entry flags : Word) (low : pointer flags = 0) :
    pointer (entry ||| flags) = pointer entry := by
  have apart : (entry ||| flags) &&& ~~~0xFFF = entry &&& ~~~0xFFF ||| flags &&& ~~~0xFFF := by
    apply BitVec.eq_of_getLsbD_eq
    intro i bound
    simp only [BitVec.getLsbD_and, BitVec.getLsbD_or]
    exact Bool.and_or_distrib_right _ _ _
  unfold pointer at *
  rw [apart, low]
  exact BitVec.or_zero

/-- A translated address is a page number in front of the place in the page. -/
theorem pointer_append (entry linear : Word) :
    pointer entry ||| linear &&& 0xFFF = entry.extractLsb' 12 20 ++ linear.setWidth 12 := by
  apply BitVec.eq_of_getLsbD_eq
  intro i bound
  have mask : ∀ k < 32, (0xFFF : Word).getLsbD k = decide (k < 12) := by decide
  rw [pointer, BitVec.getLsbD_or, BitVec.getLsbD_and, BitVec.getLsbD_and, BitVec.getLsbD_not, mask i bound,
    BitVec.getLsbD_append]
  by_cases low : i < 12
  · simp [low]
  · have high : i - 12 < 20 := by omega
    have place : 12 + (i - 12) = i := by omega
    simp [low, bound, high, place]

/-! The indices of a linear address. -/

theorem four_mul (x : Word) : (4 : Word) * x = BitVec.ofNat 32 (4 * x.toNat) := by
  rw [BitVec.ofNat_mul, BitVec.ofNat_toNat, BitVec.setWidth_eq]
  rfl

theorem directory_index (linear : Word) :
    (4 : Word) * (linear >>> 22) = BitVec.ofNat 32 (4 * (linear.toNat / 4096 / 1024)) := by
  have shift : (linear >>> 22).toNat = linear.toNat / 4194304 := by
    rw [BitVec.toNat_ushiftRight, Nat.shiftRight_eq_div_pow]
  rw [four_mul, shift, Nat.div_div_eq_div_mul]

theorem table_index (linear : Word) :
    (4 : Word) * (linear >>> 12 &&& 0x3FF) = BitVec.ofNat 32 (4 * (linear.toNat / 4096 % 1024)) := by
  have low : (linear >>> 12 &&& 0x3FF).toNat = linear.toNat / 4096 % 1024 := by
    rw [BitVec.toNat_and, BitVec.toNat_ushiftRight, Nat.shiftRight_eq_div_pow]
    exact Nat.and_two_pow_sub_one_eq_mod _ 10
  rw [four_mul, low]

end Vaelen.Base.PageWalk
