import Vaelen.Kernel.FrameAccounting

/-!
The stores of mm_init where kernel_main puts the bitmap: in the flat memory that the image and its
static variables are in. The linker script places the image at 1 MiB, and kernel_main gives mm_init
the same address.
-/

namespace Vaelen.Kernel.BootImage
open Vaelen.Base Platform Frames FrameAccounting

/-- The addresses of the static variables that mm_init sets. -/
structure Statics where
  totalMemory : Word
  totalBlocks : Word
  memBitmap : Word
  usedBlocks : Word

/-- `mem_bitmap[bit / 32] &= ~(1 << (bit % 32))` -/
def mmUnsetBit (statics : Statics) (memory : Mem) (bit : Nat) : Mem :=
  let word := load32 memory statics.memBitmap + BitVec.ofNat 32 (4 * (bit / 32))
  store32 memory word (load32 memory word &&& ~~~((1 : Word) <<< (bit % 32)))

/-- What mm_init does to memory. -/
def mmInit (statics : Statics) (memSize bitmap : Word) (memory : Mem) : Mem :=
  let memory := store32 memory statics.totalMemory memSize
  let memory := store32 memory statics.totalBlocks (memSize / PAGE_SIZE)
  let memory := store32 memory statics.memBitmap bitmap
  let memory := store32 memory statics.usedBlocks 0
  let bitmapSize := load32 memory statics.totalBlocks / 8
  let memory := memset memory (load32 memory statics.memBitmap) 0xFF bitmapSize.toNat
  let memory := (List.range kernelBlocks.toNat).foldl (mmUnsetBit statics) memory
  store32 memory statics.usedBlocks kernelBlocks

/-- mm_unset_bit, and below the filling and the loop of mm_init, once mem_bitmap is known to be `bitmap`. -/
def unsetBit (bitmap : Word) (memory : Mem) (bit : Nat) : Mem :=
  let word := bitmap + BitVec.ofNat 32 (4 * (bit / 32))
  store32 memory word (load32 memory word &&& ~~~((1 : Word) <<< (bit % 32)))

def fillBitmap (memSize bitmap : Word) (memory : Mem) : Mem :=
  let bitmapSize := memSize / PAGE_SIZE / 8
  let memory := memset memory bitmap 0xFF bitmapSize.toNat
  (List.range kernelBlocks.toNat).foldl (unsetBit bitmap) memory

/-- `uint32_t mem_size = 8 * 1024 * 1024 * 1024ULL` -/
abbrev memSize : Word := BitVec.ofNat 32 (8 * 1024 * 1024 * 1024)

/-- The address of the image in linker.ld. -/
abbrev loadAddress : Word := 0x100000

/-- The array of words that the bitmap is. -/
def wordsAt (memory : Mem) (bitmap : Word) (k : Nat) : Word :=
  load32 memory (bitmap + BitVec.ofNat 32 (4 * k))

/-- An array and the memory hold the same words. The last one ends before the first. -/
def Mirrors (words : Nat → Word) (memory : Mem) (bitmap : Word) : Prop :=
  ∀ k < 2 ^ 30, wordsAt memory bitmap k = words k

variable {memory : Mem} {bitmap : Word} {words : Nat → Word}

theorem bitSet_wordsAt (memory : Mem) (bitmap : Word) (bit : Nat) :
    bitSet (wordsAt memory bitmap) bit = (memory (bitmap + BitVec.ofNat 32 (bit / 8))).getLsbD (bit % 8) := by
  have byte := byte_load32 memory (bitmap + BitVec.ofNat 32 (4 * (bit / 32))) (bit % 32 / 8) (by omega)
  have place : bitmap + BitVec.ofNat 32 (4 * (bit / 32)) + BitVec.ofNat 32 (bit % 32 / 8) =
      bitmap + BitVec.ofNat 32 (bit / 8) := by
    have whole : bit / 8 = 4 * (bit / 32) + bit % 32 / 8 := by omega
    rw [whole, BitVec.ofNat_add, BitVec.add_assoc]
  have within : bit % 8 < 8 := Nat.mod_lt bit (by decide)
  have split : 8 * (bit % 32 / 8) + bit % 8 = bit % 32 := by omega
  rw [place] at byte
  rw [← byte, BitVec.getLsbD_extractLsb', split, decide_eq_true within, Bool.true_and]
  rfl

theorem word_eq_of_bits {other : Nat → Word} {k : Nat}
    (same : ∀ i < 32, bitSet words (32 * k + i) = bitSet other (32 * k + i)) : words k = other k := by
  apply BitVec.eq_of_getLsbD_eq
  intro i inside
  have bits := same i inside
  have index : (32 * k + i) / 32 = k := by omega
  have offset : (32 * k + i) % 32 = i := by omega
  simpa only [bitSet, index, offset] using bits

/-- The byte mm_init fills the bitmap with marks eight blocks as used. -/
theorem getLsbD_fill {bit : Nat} (bound : bit < 8) : (0xFF : Byte).getLsbD bit = true := by
  have all : ∀ k < 8, (0xFF : Byte).getLsbD k = true := by decide
  exact all bit bound

/-! Both operations, on the memory and on the array. -/

theorem memset_mirrors (mirrors : Mirrors words memory bitmap) {n : Nat} (fits : n ≤ 2 ^ 32) :
    Mirrors (memsetWords words 0xFF n) (memset memory bitmap 0xFF n) bitmap := by
  intro k bound
  apply word_eq_of_bits
  intro i inside
  have same : bitSet (wordsAt memory bitmap) (32 * k + i) = bitSet words (32 * k + i) := by
    have index : (32 * k + i) / 32 = k := by omega
    rw [bitSet, bitSet, index, mirrors k bound]
  have small : (32 * k + i) / 8 < 2 ^ 32 := by omega
  have reached : Within bitmap n (bitmap + BitVec.ofNat 32 ((32 * k + i) / 8)) ↔ (32 * k + i) / 8 < n := by
    have cancel : ∀ y : Word, bitmap + y - bitmap = y := by
      intro y
      bv_omega
    rw [Within, cancel, BitVec.toNat_ofNat, Nat.mod_eq_of_lt small]
  have ones : (0xFF : Byte).getLsbD ((32 * k + i) % 8) = true := getLsbD_fill (Nat.mod_lt _ (by decide))
  rw [bitSet_memsetWords, bitSet_wordsAt, memset_spec _ _ _ _ fits, ← same, bitSet_wordsAt]
  by_cases here : (32 * k + i) / 8 < n
  · rw [if_pos (reached.mpr here), ones, decide_eq_true here, Bool.true_or]
  · rw [if_neg (mt reached.mp here), decide_eq_false here, Bool.false_or]

theorem unsetBit_mirrors {state : FrameState} (mirrors : Mirrors state.memBitmap memory bitmap) {bit : Nat}
    (bound : bit / 32 < 2 ^ 30) :
    Mirrors (state.mmUnsetBit bit).memBitmap (unsetBit bitmap memory bit) bitmap := by
  intro k small
  have held : load32 memory (bitmap + BitVec.ofNat 32 (4 * (bit / 32))) = state.memBitmap (bit / 32) :=
    mirrors _ bound
  change load32 (store32 memory (bitmap + BitVec.ofNat 32 (4 * (bit / 32)))
      (load32 memory (bitmap + BitVec.ofNat 32 (4 * (bit / 32))) &&& ~~~((1 : Word) <<< (bit % 32))))
      (bitmap + BitVec.ofNat 32 (4 * k)) =
    Function.update state.memBitmap (bit / 32) (state.memBitmap (bit / 32) &&& ~~~((1 : Word) <<< (bit % 32))) k
  rw [held]
  by_cases here : k = bit / 32
  · rw [here, load32_store32, Function.update_self]
  · rw [Function.update_of_ne here, load32_store32_apart (apart_words (by bv_omega) (by bv_omega))]
    exact mirrors k small

theorem unsetBelow_mirrors {state : FrameState} (mirrors : Mirrors state.memBitmap memory bitmap) {n : Nat}
    (bound : n ≤ 2 ^ 35) :
    Mirrors ((List.range n).foldl FrameState.mmUnsetBit state).memBitmap
      ((List.range n).foldl (unsetBit bitmap) memory) bitmap := by
  induction n with
  | zero => exact mirrors
  | succ n ih =>
    rw [List.range_succ, List.foldl_append, List.foldl_append]
    exact unsetBit_mirrors (ih (by omega)) (by omega)

/-- The memory holds the bitmap of the allocator's state. -/
theorem fillBitmap_mirrors (size bitmap : Word) (memory : Mem) :
    Mirrors (Frames.mmInit size (wordsAt memory bitmap)).memBitmap (fillBitmap size bitmap memory) bitmap := by
  have first : Mirrors (wordsAt memory bitmap) memory bitmap := fun _ _ => rfl
  have filled := memset_mirrors first (Nat.le_of_lt (size / PAGE_SIZE / 8).isLt)
  -- for a variable bound, so that nothing unfolds the loop of 65536 passes
  have cleared : ∀ (n : Nat) (state : FrameState), n ≤ 2 ^ 35 →
      Mirrors state.memBitmap (memset memory bitmap 0xFF (size / PAGE_SIZE / 8).toNat) bitmap →
      Mirrors { (List.range n).foldl FrameState.mmUnsetBit state with usedBlocks := kernelBlocks }.memBitmap
        ((List.range n).foldl (unsetBit bitmap) (memset memory bitmap 0xFF (size / PAGE_SIZE / 8).toNat)) bitmap :=
    fun n state bound mirrors => unsetBelow_mirrors mirrors bound
  unfold Frames.mmInit fillBitmap
  exact cleared _ _ (by decide) filled

/-! Every byte of memory. -/

theorem fillBitmap_byte (size bitmap : Word) (memory : Mem) (x : Word) : fillBitmap size bitmap memory x =
    if Within bitmap 8192 x then 0
    else if Within bitmap (size / PAGE_SIZE / 8).toNat x then 0xFF else memory x := by
  have place : ∀ j < 8, bitmap + BitVec.ofNat 32 ((8 * (x - bitmap).toNat + j) / 8) = x ∧
      (8 * (x - bitmap).toNat + j) % 8 = j := by
    intro j inside
    have offset : (8 * (x - bitmap).toNat + j) / 8 = (x - bitmap).toNat := by omega
    refine ⟨?_, by omega⟩
    rw [offset, BitVec.ofNat_toNat, BitVec.setWidth_eq]
    bv_omega
  apply BitVec.eq_of_getLsbD_eq
  intro j inside
  obtain ⟨address, index⟩ := place j inside
  have after := bitSet_wordsAt (fillBitmap size bitmap memory) bitmap (8 * (x - bitmap).toNat + j)
  have before := bitSet_wordsAt memory bitmap (8 * (x - bitmap).toNat + j)
  have word : (8 * (x - bitmap).toNat + j) / 32 < 2 ^ 30 := by
    have bound := (x - bitmap).isLt
    omega
  have bits : bitSet (wordsAt (fillBitmap size bitmap memory) bitmap) (8 * (x - bitmap).toNat + j) =
      bitSet (Frames.mmInit size (wordsAt memory bitmap)).memBitmap (8 * (x - bitmap).toNat + j) := by
    rw [bitSet, bitSet, fillBitmap_mirrors size bitmap memory _ word]
  rw [address, index] at after before
  rw [← after, bits, mmInit_bitSet, before]
  by_cases low : Within bitmap 8192 x
  · have kernel : 8 * (x - bitmap).toNat + j < 65536 := by
      unfold Within at low
      omega
    rw [if_pos low, decide_eq_true kernel]
    simp
  · have above : ¬8 * (x - bitmap).toNat + j < 65536 := by
      unfold Within at low
      omega
    have offset : (8 * (x - bitmap).toNat + j) / 8 = (x - bitmap).toNat := by omega
    rw [if_neg low, decide_eq_false above, Bool.not_false, Bool.true_and, offset]
    by_cases filled : Within bitmap (size / PAGE_SIZE / 8).toNat x
    · rw [if_pos filled, decide_eq_true (show (x - bitmap).toNat < _ from filled), Bool.true_or,
        getLsbD_fill inside]
    · rw [if_neg filled, decide_eq_false (show ¬(x - bitmap).toNat < _ from filled), Bool.false_or]

/-! The static variables. -/

def Statics.addresses (statics : Statics) : List Word :=
  [statics.totalMemory, statics.totalBlocks, statics.memBitmap, statics.usedBlocks]

/-- The words of the bitmap that mm_init writes or the allocator reads, in bytes. -/
def bitmapBytes (size : Word) : Nat := max 8192 (4 * ((size / PAGE_SIZE).toNat / 32 + 1))

/-- No static variable overlaps another one or the bitmap. -/
structure Placed (statics : Statics) (bitmap : Word) (count : Nat) : Prop where
  apart : statics.addresses.Pairwise fun first second => Apart first 4 second 4
  beside : ∀ address ∈ statics.addresses, Apart address 4 bitmap count

def OfStatics (statics : Statics) (x : Word) : Prop := ∃ address ∈ statics.addresses, Within address 4 x

/-- The memory holds the variables and the bitmap of the allocator's state, and is else as it was. -/
structure Initialised (statics : Statics) (size bitmap : Word) (before after : Mem) : Prop where
  totalMemory : load32 after statics.totalMemory = (Frames.mmInit size (wordsAt before bitmap)).totalMemory
  totalBlocks : load32 after statics.totalBlocks = (Frames.mmInit size (wordsAt before bitmap)).totalBlocks
  memBitmap : load32 after statics.memBitmap = bitmap
  usedBlocks : load32 after statics.usedBlocks = (Frames.mmInit size (wordsAt before bitmap)).usedBlocks
  words : ∀ k, 4 * k + 4 ≤ bitmapBytes size →
    wordsAt after bitmap k = (Frames.mmInit size (wordsAt before bitmap)).memBitmap k
  bytes : ∀ x, ¬OfStatics statics x → after x =
    if Within bitmap 8192 x then 0
    else if Within bitmap (size / PAGE_SIZE / 8).toNat x then 0xFF else before x

variable {statics : Statics} {size address value : Word}

theorem totalMemory_unsetBelow (n : Nat) (state : FrameState) :
    ((List.range n).foldl FrameState.mmUnsetBit state).totalMemory = state.totalMemory := by
  induction n with
  | zero => rfl
  | succ n ih =>
    rw [List.range_succ, List.foldl_append]
    exact ih

theorem mmInit_totalMemory (size : Word) (words : Nat → Word) :
    (Frames.mmInit size words).totalMemory = size := by
  simp only [Frames.mmInit, totalMemory_unsetBelow]

/-- The values that the variables get before the bitmap is filled. -/
def setStatics (statics : Statics) (size bitmap : Word) (memory : Mem) : Mem :=
  let memory := store32 memory statics.totalMemory size
  let memory := store32 memory statics.totalBlocks (size / PAGE_SIZE)
  let memory := store32 memory statics.memBitmap bitmap
  store32 memory statics.usedBlocks 0

theorem setStatics_outside (statics : Statics) (size bitmap : Word) (memory : Mem) :
    SameOutside (OfStatics statics) memory (setStatics statics size bitmap memory) := by
  have inside : ∀ address ∈ statics.addresses, ∀ x, Within address 4 x → OfStatics statics x :=
    fun address member x within => ⟨address, member, within⟩
  have first := (SameOutside.store32 memory statics.totalMemory size).mono (inside _ (by simp [Statics.addresses]))
  have second := first.trans
    ((SameOutside.store32 _ statics.totalBlocks (size / PAGE_SIZE)).mono (inside _ (by simp [Statics.addresses])))
  have third := second.trans
    ((SameOutside.store32 _ statics.memBitmap bitmap).mono (inside _ (by simp [Statics.addresses])))
  exact third.trans ((SameOutside.store32 _ statics.usedBlocks 0).mono (inside _ (by simp [Statics.addresses])))

namespace Placed
variable {count : Nat}

theorem pairs (placed : Placed statics bitmap count) :
    (Apart statics.totalMemory 4 statics.totalBlocks 4 ∧ Apart statics.totalMemory 4 statics.memBitmap 4 ∧
      Apart statics.totalMemory 4 statics.usedBlocks 4) ∧
    (Apart statics.totalBlocks 4 statics.memBitmap 4 ∧ Apart statics.totalBlocks 4 statics.usedBlocks 4) ∧
    Apart statics.memBitmap 4 statics.usedBlocks 4 := by
  have apart := placed.apart
  simp only [Statics.addresses, List.pairwise_cons, List.mem_cons, List.not_mem_nil, or_false,
    forall_eq_or_imp, forall_eq] at apart
  exact ⟨apart.1, apart.2.1, apart.2.2.1⟩

theorem set (placed : Placed statics bitmap count) (size : Word) (memory : Mem) :
    load32 (setStatics statics size bitmap memory) statics.totalMemory = size ∧
      load32 (setStatics statics size bitmap memory) statics.totalBlocks = size / PAGE_SIZE ∧
      load32 (setStatics statics size bitmap memory) statics.memBitmap = bitmap := by
  obtain ⟨⟨first, second, third⟩, ⟨fourth, fifth⟩, sixth⟩ := placed.pairs
  refine ⟨?_, ?_, ?_⟩
  · rw [setStatics, load32_store32_apart third, load32_store32_apart second, load32_store32_apart first,
      load32_store32]
  · rw [setStatics, load32_store32_apart fifth, load32_store32_apart fourth, load32_store32]
  · rw [setStatics, load32_store32_apart sixth, load32_store32]

end Placed

/-- While mem_bitmap is apart from the bitmap, every turn of the loop reads the same address there. -/
theorem unsetBelow_eq (apart : Apart statics.memBitmap 4 bitmap 8192)
    (held : load32 memory statics.memBitmap = bitmap) {n : Nat} (bound : n ≤ 65536) :
    (List.range n).foldl (mmUnsetBit statics) memory = (List.range n).foldl (unsetBit bitmap) memory ∧
      load32 ((List.range n).foldl (unsetBit bitmap) memory) statics.memBitmap = bitmap := by
  induction n with
  | zero => exact ⟨rfl, held⟩
  | succ n ih =>
    obtain ⟨same, still⟩ := ih (by omega)
    rw [List.range_succ, List.foldl_append, List.foldl_append, same]
    have aside : Apart statics.memBitmap 4 (bitmap + BitVec.ofNat 32 (4 * (n / 32))) 4 := fun x own word =>
      apart x own (within_sub _ (by bv_omega) word)
    constructor
    · simp only [List.foldl_cons, List.foldl_nil, mmUnsetBit, unsetBit, still]
    · exact (load32_store32_apart aside).trans still

theorem bitmapBytes_bounds (size : Word) : 8192 ≤ bitmapBytes size ∧
    (size / PAGE_SIZE / 8).toNat ≤ bitmapBytes size ∧ bitmapBytes size ≤ 2 ^ 18 := by
  have eighth : (size / PAGE_SIZE / 8).toNat = (size / PAGE_SIZE).toNat / 8 := BitVec.toNat_udiv
  have blocks : (size / PAGE_SIZE).toNat = size.toNat / 4096 := BitVec.toNat_udiv
  have small := size.isLt
  rw [eighth, bitmapBytes, blocks]
  omega

/-- The variables once set, mm_init fills the bitmap and sets used_blocks again. -/
theorem mmInit_eq (placed : Placed statics bitmap (bitmapBytes size)) (memory : Mem) :
    mmInit statics size bitmap memory =
      store32 (fillBitmap size bitmap (setStatics statics size bitmap memory)) statics.usedBlocks kernelBlocks := by
  obtain ⟨enough, covered, _⟩ := bitmapBytes_bounds size
  obtain ⟨_, blocks, held⟩ := placed.set size memory
  have beside := placed.beside statics.memBitmap (by simp [Statics.addresses])
  have filled : load32 (memset (setStatics statics size bitmap memory) bitmap 0xFF
      (size / PAGE_SIZE / 8).toNat) statics.memBitmap = bitmap := by
    rw [SameOutside.load32 (memset_outside _ bitmap 0xFF _ (Nat.le_of_lt (size / PAGE_SIZE / 8).isLt)), held]
    exact fun x own word => beside x own (Nat.lt_of_lt_of_le word covered)
  have near : Apart statics.memBitmap 4 bitmap 8192 := fun x own word =>
    beside x own (Nat.lt_of_lt_of_le word enough)
  have loop : ∀ n ≤ 65536, ∀ m, load32 m statics.memBitmap = bitmap →
      (List.range n).foldl (mmUnsetBit statics) m = (List.range n).foldl (unsetBit bitmap) m :=
    fun n bound m still => (unsetBelow_eq near still bound).1
  change store32 ((List.range kernelBlocks.toNat).foldl (mmUnsetBit statics)
    (memset (setStatics statics size bitmap memory) (load32 (setStatics statics size bitmap memory) statics.memBitmap)
      0xFF (load32 (setStatics statics size bitmap memory) statics.totalBlocks / 8).toNat)) _ _ = _
  rw [blocks, held, loop _ (by decide) _ filled]
  rfl

/-- What the call leaves of a word that the bitmap and the other variables do not touch. -/
theorem mmInit_load (placed : Placed statics bitmap (bitmapBytes size)) (memory : Mem)
    (beside : Apart address 4 bitmap (bitmapBytes size)) (other : Apart address 4 statics.usedBlocks 4) :
    load32 (mmInit statics size bitmap memory) address = load32 (setStatics statics size bitmap memory) address := by
  obtain ⟨enough, covered, _⟩ := bitmapBytes_bounds size
  rw [mmInit_eq placed, load32_store32_apart other]
  apply load32_congr
  intro x inside
  have low : ¬Within bitmap 8192 x := fun word => beside x inside (Nat.lt_of_lt_of_le word enough)
  have filled : ¬Within bitmap (size / PAGE_SIZE / 8).toNat x := fun word =>
    beside x inside (Nat.lt_of_lt_of_le word covered)
  rw [fillBitmap_byte, if_neg low, if_neg filled]

/-- mm_init leaves the state of the allocator in its variables and at the bitmap, and writes no other
byte than these and those it fills or clears. -/
theorem mmInit_memory (statics : Statics) (size bitmap : Word) (memory : Mem)
    (placed : Placed statics bitmap (bitmapBytes size)) :
    Initialised statics size bitmap memory (mmInit statics size bitmap memory) := by
  obtain ⟨_, _, most⟩ := bitmapBytes_bounds size
  obtain ⟨memorySize, blocks, held⟩ := placed.set size memory
  obtain ⟨⟨_, _, first⟩, ⟨_, second⟩, third⟩ := placed.pairs
  have bytes : ∀ x, ¬OfStatics statics x →
      mmInit statics size bitmap memory x = fillBitmap size bitmap memory x := by
    intro x outside
    have aside : ¬Within statics.usedBlocks 4 x := fun inside =>
      outside ⟨_, by simp [Statics.addresses], inside⟩
    rw [mmInit_eq placed, store32_outside aside, fillBitmap_byte, fillBitmap_byte,
      setStatics_outside statics size bitmap memory x outside]
  constructor
  · rw [mmInit_load placed memory (placed.beside _ (by simp [Statics.addresses])) first, memorySize,
      mmInit_totalMemory]
  · rw [mmInit_load placed memory (placed.beside _ (by simp [Statics.addresses])) second, blocks,
      mmInit_totalBlocks]
  · rw [mmInit_load placed memory (placed.beside _ (by simp [Statics.addresses])) third, held]
  · rw [mmInit_eq placed, load32_store32, mmInit_usedBlocks]
  · intro k inside
    have word : wordsAt (mmInit statics size bitmap memory) bitmap k =
        wordsAt (fillBitmap size bitmap memory) bitmap k := by
      apply load32_congr
      intro x covered
      apply bytes
      rintro ⟨address, member, own⟩
      exact placed.beside address member x own (within_sub _ (by bv_omega) covered)
    rw [word]
    exact fillBitmap_mirrors size bitmap memory k (by omega)
  · intro x outside
    rw [bytes x outside, fillBitmap_byte]

/-- As kernel_main calls it, over an image of no-operations with the variables at its end. -/
theorem mmInit_memory_boot :
    let statics : Statics := ⟨0x110000, 0x110004, 0x110008, 0x11000C⟩
    ∀ x, ¬OfStatics statics x → mmInit statics memSize loadAddress (fun _ => 0x90) x =
      if Within loadAddress 8192 x then 0 else 0x90 := by
  intro statics x outside
  have placed : Placed statics loadAddress (bitmapBytes memSize) := by
    constructor
    · simp only [statics, Statics.addresses, List.pairwise_cons, List.mem_cons, List.not_mem_nil, or_false,
        forall_eq_or_imp, forall_eq, false_imp_iff, implies_true, List.Pairwise.nil, and_true]
      exact ⟨⟨apart_words (by simp) (by simp), apart_words (by simp) (by simp), apart_words (by simp) (by simp)⟩,
        ⟨apart_words (by simp) (by simp), apart_words (by simp) (by simp)⟩, apart_words (by simp) (by simp)⟩
    · intro address member x own inside
      have place : 0x110000 ≤ address.toNat ∧ address.toNat < 0x110010 := by
        simp only [statics, Statics.addresses, List.mem_cons, List.not_mem_nil, or_false] at member
        rcases member with rfl | rfl | rfl | rfl <;> simp
      have few : bitmapBytes memSize = 8192 := by decide
      rw [few] at inside
      unfold Within at own inside
      bv_omega
  have none : (memSize / PAGE_SIZE / 8).toNat = 0 := by decide
  have empty : ¬Within loadAddress (memSize / PAGE_SIZE / 8).toNat x := by
    rw [none]
    exact Nat.not_lt_zero _
  rw [(mmInit_memory statics memSize loadAddress _ placed).bytes x outside, if_neg empty]

end Vaelen.Kernel.BootImage
