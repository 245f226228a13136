import Vaelen.Kernel.Platform

/-!
The physical frame allocator of mm.c: the bitmap as an array of words, page
entries with their bit fields, and the counters mm_init sets up.
-/

namespace Vaelen.Kernel.Frames
open Vaelen.Base Platform

/-- The page table entry page_t, field by field from bit 0 on. -/
structure Page where
  present : BitVec 1
  rw : BitVec 1
  user : BitVec 1
  accessed : BitVec 1
  dirty : BitVec 1
  unused : BitVec 7
  frame : BitVec 20
  deriving DecidableEq, Repr

/-- mem_bitmap as the words from its address on, with the three counters. -/
structure FrameState where
  memBitmap : Nat → Word
  totalMemory : Word
  totalBlocks : Word
  usedBlocks : Word

namespace FrameState

def mmSetBit (state : FrameState) (bit : Nat) : FrameState :=
  { state with
    memBitmap := Function.update state.memBitmap (bit / 32)
      (state.memBitmap (bit / 32) ||| (1 : Word) <<< (bit % 32)) }

def mmUnsetBit (state : FrameState) (bit : Nat) : FrameState :=
  { state with
    memBitmap := Function.update state.memBitmap (bit / 32)
      (state.memBitmap (bit / 32) &&& ~~~((1 : Word) <<< (bit % 32))) }

def mmTestBit (state : FrameState) (bit : Nat) : Word :=
  state.memBitmap (bit / 32) &&& (1 : Word) <<< (bit % 32)

/-- `none` is the return value -1. -/
def mmFirstFree (state : FrameState) : Option Nat :=
  (List.range state.totalBlocks.toNat).find? fun i => state.mmTestBit i == 0

def mmAllocFrame (state : FrameState) (page : Page) (isKernel isWriteable : Word) :
    Except Stop (FrameState × Page) :=
  if page.frame ≠ 0 then .ok (state, page)
  else
    match state.mmFirstFree with
    | none => kernelPanic "Out of memory"
    | some idx =>
        let state := state.mmSetBit idx
        let page := { page with
          present := 1
          rw := if isWriteable ≠ 0 then 1 else 0
          user := if isKernel ≠ 0 then 0 else 1
          frame := BitVec.ofNat 20 idx }
        .ok ({ state with usedBlocks := state.usedBlocks + 1 }, page)

def mmFreeFrame (state : FrameState) (page : Page) : FrameState × Page :=
  let frame := page.frame
  if frame = 0 then (state, page)
  else
    let state := state.mmUnsetBit frame.toNat
    ({ state with usedBlocks := state.usedBlocks - 1 }, { page with frame := 0 })

def mmGetFreeMemory (state : FrameState) : Word :=
  (state.totalBlocks - state.usedBlocks) * PAGE_SIZE
def mmGetUsedMemory (state : FrameState) : Word := state.usedBlocks * PAGE_SIZE

end FrameState

/-- One byte store into the array of words. -/
def storeByte (words : Nat → Word) (i : Nat) (c : Byte) : Nat → Word :=
  Function.update words (i / 4) (words (i / 4) &&& ~~~((0xFF : Word) <<< (8 * (i % 4))) |||
    c.setWidth 32 <<< (8 * (i % 4)))

def memsetWords (words : Nat → Word) (c : Byte) : Nat → Nat → Word
  | 0 => words
  | n + 1 => storeByte (memsetWords words c n) n c

abbrev kernelBlocks : Word := (KERNEL_HEAP_START - KERNEL_BASE) / PAGE_SIZE

/-- mm_init over the former contents of the memory at `bitmap`. -/
def mmInit (memSize : Word) (bitmap : Nat → Word) : FrameState :=
  let totalBlocks := memSize / PAGE_SIZE
  let bitmapSize := totalBlocks / 8
  let state : FrameState :=
    { memBitmap := memsetWords bitmap 0xFF bitmapSize.toNat, totalMemory := memSize,
      totalBlocks := totalBlocks, usedBlocks := 0 }
  let state := (List.range kernelBlocks.toNat).foldl FrameState.mmUnsetBit state
  { state with usedBlocks := kernelBlocks }

/-! The bitmap as a set of frames. -/

/-- Bit `bit` of the array is set. -/
def bitSet (words : Nat → Word) (bit : Nat) : Bool := (words (bit / 32)).getLsbD (bit % 32)

/-- The frames below total_blocks that are marked used. -/
def usedFrames (state : FrameState) : Finset Nat :=
  (Finset.range state.totalBlocks.toNat).filter fun bit => bitSet state.memBitmap bit = true

theorem getLsbD_one_shiftLeft (shift bit : Nat) (bound : shift < 32) :
    ((1 : Word) <<< shift).getLsbD bit = decide (bit = shift) := by
  have power : (1 : Word) <<< shift = BitVec.twoPow 32 shift := (BitVec.twoPow_eq 32 shift).symm
  rw [power, BitVec.getLsbD_twoPow]
  simp [bound, eq_comm]

theorem mmTestBit_eq_zero (state : FrameState) (bit : Nat) :
    state.mmTestBit bit = 0 ↔ bitSet state.memBitmap bit = false := by
  unfold FrameState.mmTestBit bitSet
  have one : (1 : Word) <<< (bit % 32) = BitVec.twoPow 32 (bit % 32) :=
    (BitVec.twoPow_eq 32 (bit % 32)).symm
  have power : BitVec.twoPow 32 (bit % 32) ≠ 0 := by
    intro zero
    have value := congrArg BitVec.toNat zero
    rw [BitVec.toNat_twoPow_of_lt (Nat.mod_lt bit (by decide))] at value
    exact absurd value (Nat.two_pow_pos _).ne'
  rw [one, BitVec.and_twoPow]
  cases (state.memBitmap (bit / 32)).getLsbD (bit % 32) with
  | false => simp
  | true => simpa using power

theorem bitSet_update (words : Nat → Word) (index bit : Nat) (word : Word) :
    bitSet (Function.update words index word) bit =
      if bit / 32 = index then word.getLsbD (bit % 32) else bitSet words bit := by
  unfold bitSet
  by_cases here : bit / 32 = index
  · rw [if_pos here, here, Function.update_self]
  · rw [if_neg here, Function.update_of_ne here]

theorem same_bit_iff {bit other : Nat} (word : other / 32 = bit / 32) :
    other % 32 = bit % 32 ↔ other = bit := by
  omega

@[simp] theorem bitSet_mmSetBit (state : FrameState) (bit other : Nat) :
    bitSet (state.mmSetBit bit).memBitmap other =
      (decide (other = bit) || bitSet state.memBitmap other) := by
  simp only [FrameState.mmSetBit, bitSet_update]
  by_cases word : other / 32 = bit / 32
  · rw [if_pos word, BitVec.getLsbD_or, getLsbD_one_shiftLeft _ _ (Nat.mod_lt bit (by decide))]
    simp only [same_bit_iff word, bitSet, word, Bool.or_comm]
  · have other_ne : other ≠ bit := fun same => word (same ▸ rfl)
    simp [if_neg word, other_ne]

@[simp] theorem bitSet_mmUnsetBit (state : FrameState) (bit other : Nat) :
    bitSet (state.mmUnsetBit bit).memBitmap other =
      (!decide (other = bit) && bitSet state.memBitmap other) := by
  simp only [FrameState.mmUnsetBit, bitSet_update]
  by_cases word : other / 32 = bit / 32
  · have low : other % 32 < 32 := Nat.mod_lt other (by decide)
    rw [if_pos word, BitVec.getLsbD_and, BitVec.getLsbD_not,
      getLsbD_one_shiftLeft _ _ (Nat.mod_lt bit (by decide))]
    simp only [same_bit_iff word, bitSet, word, low, decide_true, Bool.true_and, Bool.and_comm]
  · have other_ne : other ≠ bit := fun same => word (same ▸ rfl)
    simp [if_neg word, other_ne]

theorem getLsbD_ones (bit : Nat) (bound : bit < 32) :
    (0xFF : Word).getLsbD bit = decide (bit < 8) := by
  have ones : (0xFF : Word) = BitVec.ofNat 32 (2 ^ 8 - 1) := rfl
  rw [ones, BitVec.getLsbD_ofNat, Nat.testBit_two_pow_sub_one]
  simp [bound]

theorem getLsbD_byte_ones (bit : Nat) :
    ((0xFF : Byte).setWidth 32).getLsbD bit = decide (bit < 8) := by
  have ones : (0xFF : Byte) = BitVec.ofNat 8 (2 ^ 8 - 1) := rfl
  rw [BitVec.getLsbD_setWidth, ones, BitVec.getLsbD_ofNat, Nat.testBit_two_pow_sub_one]
  by_cases low : bit < 8
  · have wide : bit < 32 := by omega
    simp [low, wide]
  · simp [low]

theorem bitSet_storeByte (words : Nat → Word) (i bit : Nat) :
    bitSet (storeByte words i 0xFF) bit = (decide (bit / 8 = i) || bitSet words bit) := by
  simp only [storeByte, bitSet_update]
  by_cases word : bit / 32 = i / 4
  · have low : bit % 32 < 32 := Nat.mod_lt bit (by decide)
    rw [if_pos word, bitSet, word, BitVec.getLsbD_or, BitVec.getLsbD_and, BitVec.getLsbD_not,
      BitVec.getLsbD_shiftLeft, BitVec.getLsbD_shiftLeft, getLsbD_byte_ones,
      getLsbD_ones _ (by omega)]
    by_cases here : bit / 8 = i
    · have first : ¬bit % 32 < 8 * (i % 4) := by omega
      have last : bit % 32 - 8 * (i % 4) < 8 := by omega
      simp [low, here, first, last]
    · have outside : bit % 32 < 8 * (i % 4) ∨ ¬bit % 32 - 8 * (i % 4) < 8 := by omega
      rcases outside with before | after
      · simp [low, here, before]
      · simp [low, here, after]
  · have elsewhere : bit / 8 ≠ i := by omega
    simp [if_neg word, elsewhere]

theorem bitSet_memsetWords (words : Nat → Word) (n bit : Nat) :
    bitSet (memsetWords words 0xFF n) bit = (decide (bit / 8 < n) || bitSet words bit) := by
  induction n with
  | zero => simp [memsetWords]
  | succ n ih =>
    rw [memsetWords, bitSet_storeByte, ih, ← Bool.or_assoc]
    congr 1
    rw [← Bool.decide_or, decide_eq_decide]
    omega

end Vaelen.Kernel.Frames
