import Vaelen.Kernel.FrameAccounting

/-!
The bitmap bit by bit: its operations as operations on a set of frames, what mm_init leaves of
the memory it is given, and what is left when a frame is allocated and freed again.
-/

namespace Vaelen.Kernel.FrameBitmap
open Vaelen.Base Platform Frames FrameOwnership FrameAccounting

/-! The operations on one bit. -/

/-- The bits for which mm_test_bit is true. -/
def testedBits (state : FrameState) : Set Nat := {bit | state.mmTestBit bit ≠ 0}

theorem mem_testedBits (state : FrameState) (bit : Nat) :
    bit ∈ testedBits state ↔ bitSet state.memBitmap bit = true := by
  change state.mmTestBit bit ≠ 0 ↔ _
  rw [ne_eq, mmTestBit_eq_zero, Bool.not_eq_false]

theorem testedBits_mmSetBit (state : FrameState) (bit : Nat) :
    testedBits (state.mmSetBit bit) = insert bit (testedBits state) := by
  ext other
  rw [Set.mem_insert_iff, mem_testedBits, mem_testedBits, bitSet_mmSetBit, Bool.or_eq_true,
    decide_eq_true_eq]

theorem testedBits_mmUnsetBit (state : FrameState) (bit : Nat) :
    testedBits (state.mmUnsetBit bit) = testedBits state \ {bit} := by
  ext other
  rw [Set.mem_sdiff, Set.mem_singleton_iff, mem_testedBits, mem_testedBits, bitSet_mmUnsetBit,
    Bool.and_eq_true, Bool.not_eq_true', decide_eq_false_iff_not]
  exact and_comm

/-- The highest bit of a word is the pattern 0x80000000, also for a signed shift. -/
example : FrameState.mmTestBit ⟨fun _ => 0x80000000, 0x20000, 32, 1⟩ 31 = 0x80000000 := by decide

/-- The frames below total_blocks whose bit is clear. -/
def freeFrames (state : FrameState) : Set Nat :=
  {bit | bit < state.totalBlocks.toNat ∧ bit ∉ testedBits state}

theorem not_mem_testedBits (state : FrameState) (bit : Nat) :
    bit ∉ testedBits state ↔ (state.mmTestBit bit == 0) = true :=
  not_not.trans beq_iff_eq.symm

/-- The search stops at the least free frame. -/
theorem mmFirstFree_eq_some (state : FrameState) (idx : Nat) :
    state.mmFirstFree = some idx ↔ IsLeast (freeFrames state) idx := by
  unfold FrameState.mmFirstFree
  rw [List.find?_range_eq_some, List.mem_range]
  constructor
  · rintro ⟨clear, bound, before⟩
    refine ⟨⟨bound, (not_mem_testedBits state idx).mpr clear⟩, fun other free => ?_⟩
    by_contra earlier
    have taken := before other (Nat.lt_of_not_le earlier)
    rw [(not_mem_testedBits state other).mp free.2] at taken
    exact Bool.noConfusion taken
  · rintro ⟨⟨bound, clear⟩, least⟩
    refine ⟨(not_mem_testedBits state idx).mp clear, bound, fun other earlier => ?_⟩
    rw [Bool.not_eq_true', Bool.eq_false_iff]
    intro free
    have later := least ⟨earlier.trans bound, (not_mem_testedBits state other).mpr free⟩
    exact absurd earlier (Nat.not_lt.mpr later)

theorem mmFirstFree_eq_none (state : FrameState) :
    state.mmFirstFree = none ↔ ∀ bit < state.totalBlocks.toNat, bit ∈ testedBits state := by
  unfold FrameState.mmFirstFree
  rw [List.find?_range_eq_none]
  apply forall₂_congr
  intro bit _
  rw [Bool.not_eq_true', ← Bool.not_eq_true, ← not_mem_testedBits, not_not]

/-- Without a free frame mm_alloc_frame panics, and with one it returns. -/
theorem mmAllocFrame_panics (state : FrameState) {page : Page} (empty : page.frame = 0)
    (isKernel isWriteable : Word) :
    state.mmAllocFrame page isKernel isWriteable = kernelPanic "Out of memory" ↔
      state.mmFirstFree = none := by
  rw [FrameState.mmAllocFrame, if_neg (not_not.mpr empty)]
  cases state.mmFirstFree with
  | none => simp
  | some idx => simp [kernelPanic]

/-- The bitmap is a set of frames: its operations insert, remove and test one element, and the
search finds the least frame that is not in it. -/
structure FrameSet (state : FrameState) : Prop where
  set : ∀ bit, testedBits (state.mmSetBit bit) = insert bit (testedBits state)
  unset : ∀ bit, testedBits (state.mmUnsetBit bit) = testedBits state \ {bit}
  least : ∀ idx, state.mmFirstFree = some idx ↔ IsLeast (freeFrames state) idx
  full : state.mmFirstFree = none ↔ ∀ bit < state.totalBlocks.toNat, bit ∈ testedBits state
  panics : ∀ page isKernel isWriteable, page.frame = 0 →
    (state.mmAllocFrame page isKernel isWriteable = kernelPanic "Out of memory" ↔
      ∀ bit < state.totalBlocks.toNat, bit ∈ testedBits state)

theorem bitmap_frameSet (state : FrameState) : FrameSet state := by
  refine ⟨testedBits_mmSetBit state, testedBits_mmUnsetBit state, mmFirstFree_eq_some state,
    mmFirstFree_eq_none state, ?_⟩
  intro page isKernel isWriteable empty
  rw [mmAllocFrame_panics state empty, mmFirstFree_eq_none]

/-! mm_init. -/

/-- The bits of the whole words that hold a bitmap of `blocks` bits. -/
def wordBits (blocks : Nat) : Nat := (blocks + 31) / 32 * 32

/-- Every frame has the same status over any former memory, and no bit behind the bitmap changes. -/
structure InitialisesExactly (memSize : Word) : Prop where
  determined : ∀ (first second : Nat → Word), ∀ bit < (memSize / PAGE_SIZE).toNat,
    bitSet (mmInit memSize first).memBitmap bit = bitSet (mmInit memSize second).memBitmap bit
  kept : ∀ (former : Nat → Word) (bit : Nat), wordBits (memSize / PAGE_SIZE).toNat ≤ bit →
    bitSet (mmInit memSize former).memBitmap bit = bitSet former bit

theorem bitSet_full (bit : Nat) : bitSet (fun _ => BitVec.allOnes 32) bit = true := by
  unfold bitSet
  rw [BitVec.getLsbD_allOnes]
  exact decide_eq_true (Nat.mod_lt bit (by decide))

theorem bitSet_clear (bit : Nat) : bitSet (fun _ => 0) bit = false := BitVec.getLsbD_zero

/-- The 65536 cleared bits have to fit the bitmap, and the bytes set before that have to fill it. -/
theorem mmInit_exactly_iff (memSize : Word) :
    InitialisesExactly memSize ↔
      65504 < (memSize / PAGE_SIZE).toNat ∧
        ((memSize / PAGE_SIZE).toNat ≤ 65536 ∨ (memSize / PAGE_SIZE).toNat % 8 = 0) := by
  have bytes : (memSize / PAGE_SIZE / 8).toNat = (memSize / PAGE_SIZE).toNat / 8 := BitVec.toNat_udiv
  have status : ∀ (former : Nat → Word) (bit : Nat),
      bitSet (mmInit memSize former).memBitmap bit =
        (!decide (bit < 65536) &&
          (decide (bit / 8 < (memSize / PAGE_SIZE).toNat / 8) || bitSet former bit)) :=
    fun former bit => bytes ▸ mmInit_bitSet memSize former bit
  constructor
  · intro exactly
    constructor
    · by_contra few
      have cleared := exactly.kept (fun _ => BitVec.allOnes 32) 65535 (by unfold wordBits; omega)
      rw [status, bitSet_full, decide_eq_true (by decide)] at cleared
      exact Bool.noConfusion cleared
    · by_contra rest
      have last := exactly.determined (fun _ => 0) (fun _ => BitVec.allOnes 32)
        ((memSize / PAGE_SIZE).toNat - 1) (by omega)
      rw [status, status, bitSet_clear, bitSet_full, decide_eq_false (by omega),
        decide_eq_false (by omega)] at last
      exact Bool.noConfusion last
  · rintro ⟨many, whole⟩
    constructor
    · intro first second bit bound
      rw [status, status]
      by_cases kernel : bit < 65536
      · rw [decide_eq_true kernel]
        rfl
      · rw [decide_eq_true (show bit / 8 < (memSize / PAGE_SIZE).toNat / 8 by omega)]
        rfl
    · intro former bit behind
      unfold wordBits at behind
      rw [status, decide_eq_false (by omega), decide_eq_false (by omega)]
      rfl

/-- The memory size that kernel_main passes, 8 GiB in 32 bits: no frame at all, and the words
behind the bitmap are cleared. -/
theorem mmInit_beyond : ¬∀ memSize : Word, InitialisesExactly memSize := by
  intro claim
  have cleared := (claim 0).kept (fun _ => BitVec.allOnes 32) 0 (Nat.le_refl 0)
  rw [mmInit_bitSet, bitSet_full] at cleared
  exact absurd cleared (by simp)

/-! One frame allocated and freed. -/

/-- The bitmap and the counter are back, the entry is empty, and a second allocation before the
frame was freed would have changed nothing. -/
structure Restored (state middle : FrameState) (given : Page) : Prop where
  bits : ∀ bit, bitSet (middle.mmFreeFrame given).1.memBitmap bit = bitSet state.memBitmap bit
  count : (middle.mmFreeFrame given).1.usedBlocks = state.usedBlocks
  frame : (middle.mmFreeFrame given).2.frame = 0
  again : ∀ isKernel isWriteable, middle.mmAllocFrame given isKernel isWriteable = .ok (middle, given)

/-- What mm_alloc_frame does with the first free frame. -/
theorem mmAllocFrame_first {state : FrameState} {page : Page} {idx : Nat} (empty : page.frame = 0)
    (first : state.mmFirstFree = some idx) (isKernel isWriteable : Word) :
    ∃ given, state.mmAllocFrame page isKernel isWriteable =
        .ok ({ state.mmSetBit idx with usedBlocks := state.usedBlocks + 1 }, given) ∧
      given.frame = BitVec.ofNat 20 idx ∧ given.present = 1 := by
  rw [FrameState.mmAllocFrame, if_neg (not_not.mpr empty), first]
  exact ⟨_, rfl, rfl, rfl⟩

theorem mmFreeFrame_present (state : FrameState) (page : Page) :
    (state.mmFreeFrame page).2.present = page.present := by
  unfold FrameState.mmFreeFrame
  dsimp only
  split <;> rfl

/-- Frame 0 is taken for no frame, and a number of more than 20 bits is cut. -/
theorem restored_iff {state : FrameState} {given : Page} {idx : Nat}
    (first : state.mmFirstFree = some idx) (frame : given.frame = BitVec.ofNat 20 idx) :
    Restored state { state.mmSetBit idx with usedBlocks := state.usedBlocks + 1 } given ↔
      0 < idx ∧ idx < 2 ^ 20 := by
  obtain ⟨bound, free⟩ := mmFirstFree_spec first
  have clear : bitSet state.memBitmap idx = false :=
    Bool.eq_false_iff.mpr fun marked => free ((mem_usedFrames state idx).mpr ⟨bound, marked⟩)
  have set : bitSet (state.mmSetBit idx).memBitmap idx = true := by
    rw [bitSet_mmSetBit, decide_eq_true rfl, Bool.true_or]
  constructor
  · intro restored
    have back := restored.bits idx
    rw [clear, FrameState.mmFreeFrame] at back
    by_cases none : given.frame = 0
    · simp only [if_pos none, set] at back
      exact Bool.noConfusion back
    · simp only [if_neg none, bitSet_mmUnsetBit, set, Bool.and_true, Bool.not_eq_false',
        decide_eq_true_eq] at back
      have small := given.frame.isLt
      have positive : given.frame.toNat ≠ 0 := fun zero => none (BitVec.eq_of_toNat_eq zero)
      omega
  · rintro ⟨positive, small⟩
    have value : given.frame.toNat = idx := by
      rw [frame, BitVec.toNat_ofNat]
      exact Nat.mod_eq_of_lt small
    have some : given.frame ≠ 0 := fun none => by simp [none] at value; omega
    constructor
    · intro bit
      simp only [FrameState.mmFreeFrame, if_neg some, value, bitSet_mmUnsetBit, bitSet_mmSetBit]
      by_cases here : bit = idx
      · rw [here, clear, decide_eq_true rfl]
        rfl
      · rw [decide_eq_false here]
        rfl
    · simp only [FrameState.mmFreeFrame, if_neg some]
      exact BitVec.add_sub_cancel _ 1
    · simp only [FrameState.mmFreeFrame, if_neg some]
    · intro isKernel isWriteable
      exact if_pos some

/-- The whole round trip: one allocation, its repetition, and the frame given back. -/
def RoundTrip (state : FrameState) (page : Page) (isKernel isWriteable : Word) : Prop :=
  ∃ middle given, state.mmAllocFrame page isKernel isWriteable = .ok (middle, given) ∧
    Restored state middle given ∧ (middle.mmFreeFrame given).2.present = 0

/-- mm_free_frame never clears the present bit. -/
theorem not_roundTrip {state : FrameState} {page : Page} {idx : Nat} (empty : page.frame = 0)
    (first : state.mmFirstFree = some idx) (isKernel isWriteable : Word) :
    ¬RoundTrip state page isKernel isWriteable := by
  obtain ⟨given, returned, _, present⟩ := mmAllocFrame_first empty first isKernel isWriteable
  rintro ⟨middle, other, same, _, gone⟩
  obtain ⟨rfl, rfl⟩ := Prod.mk.inj (Except.ok.inj (returned.symm.trans same))
  rw [mmFreeFrame_present, present] at gone
  exact absurd gone (by decide)

/-- No frame makes the round trip neutral. What else is asked of it holds exactly when the first
free frame is neither 0 nor too large for the entry. -/
theorem roundTrip_never (state : FrameState) (page : Page) (isKernel isWriteable : Word)
    (empty : page.frame = 0)
    (room : ∃ bit < state.totalBlocks.toNat, bitSet state.memBitmap bit = false) :
    ¬RoundTrip state page isKernel isWriteable ∧
      ∃ idx middle given, state.mmFirstFree = some idx ∧
        state.mmAllocFrame page isKernel isWriteable = .ok (middle, given) ∧
        (middle.mmFreeFrame given).2.present = 1 ∧
        (Restored state middle given ↔ 0 < idx ∧ idx < 2 ^ 20) := by
  obtain ⟨bit, bound, clear⟩ := room
  obtain ⟨idx, first⟩ := Option.ne_none_iff_exists'.mp (mmFirstFree_ne_none bit bound clear)
  obtain ⟨given, returned, frame, present⟩ := mmAllocFrame_first empty first isKernel isWriteable
  exact ⟨not_roundTrip empty first isKernel isWriteable, idx, _, given, first, returned,
    (mmFreeFrame_present _ _).trans present, restored_iff first frame⟩

/-- Frame 0 taken and frame 1 free. -/
theorem roundTrip_never_one :
    ∃ middle given, FrameState.mmAllocFrame ⟨fun _ => 1, 0x20000, 32, 1⟩ ⟨0, 0, 0, 0, 0, 0, 0⟩ 1 1 =
        .ok (middle, given) ∧
      (middle.mmFreeFrame given).2.present = 1 := by
  obtain ⟨_, _, middle, given, _, returned, present, _⟩ := roundTrip_never
    ⟨fun _ => 1, 0x20000, 32, 1⟩ ⟨0, 0, 0, 0, 0, 0, 0⟩ 1 1 rfl ⟨1, by decide, by decide⟩
  exact ⟨middle, given, returned, present⟩

theorem roundTrip_present :
    ¬∀ (state : FrameState) (page : Page) (isKernel isWriteable : Word), page.frame = 0 →
      page.present = 0 →
      (∃ bit < state.totalBlocks.toNat, bitSet state.memBitmap bit = false) →
      RoundTrip state page isKernel isWriteable := by
  intro claim
  have first : FrameState.mmFirstFree ⟨fun _ => 1, 0x20000, 32, 1⟩ = some 1 := by decide
  exact not_roundTrip rfl first 1 1
    (claim _ ⟨0, 0, 0, 0, 0, 0, 0⟩ 1 1 rfl rfl ⟨1, by decide, by decide⟩)

end Vaelen.Kernel.FrameBitmap
