import Vaelen.Kernel.Platform

/-!
The kernel heap of mm.c: block headers threaded through flat memory, the hole
search, the bump placement kmalloc_ap falls back to, and kfree with its two
merges. Headers may lie at any address, so overlaps are as the machine has them.
-/

namespace Vaelen.Kernel.Kmalloc
open Vaelen.Base Platform

structure MemBlock where
  size : Word
  next : Word
  prev : Word
  free : Word
  deriving DecidableEq, Repr

abbrev sizeofMemBlock : Word := 16

def memBlock (memory : Mem) (block : Word) : MemBlock :=
  { size := load32 memory block, next := load32 memory (block + 4),
    prev := load32 memory (block + 8), free := load32 memory (block + 12) }

def setSize (memory : Mem) (block value : Word) : Mem := store32 memory block value
def setNext (memory : Mem) (block value : Word) : Mem := store32 memory (block + 4) value
def setPrev (memory : Mem) (block value : Word) : Mem := store32 memory (block + 8) value
def setFree (memory : Mem) (block value : Word) : Mem := store32 memory (block + 12) value

/-- The memory with the heap's three static variables. -/
structure Heap where
  mem : Mem
  heapStart : Word
  heapEnd : Word
  heapPlacement : Word

/-- The state before the first call, over any former memory contents. -/
def uninitialised (memory : Mem) : Heap :=
  { mem := memory, heapStart := 0, heapEnd := 0, heapPlacement := KERNEL_HEAP_START }

/-- `some (some hole)` is the return value 1, `some none` is 0; `none` has not returned yet. -/
def mmFindSmallestHole (memory : Mem) (size : Word) : Nat → Word → Option (Option Word)
  | 0, _ => none
  | fuel + 1, current =>
      if current = 0 then some none
      else if (memBlock memory current).free ≠ 0 ∧ size ≤ (memBlock memory current).size then
        some (some current)
      else mmFindSmallestHole memory size fuel (memBlock memory current).next

/-- The `if (!heap_start)` block of kmalloc_ap. -/
def initHeap (heap : Heap) : Heap :=
  if heap.heapStart = 0 then
    let memory := setSize heap.mem KERNEL_HEAP_START (KERNEL_HEAP_SIZE - sizeofMemBlock)
    let memory := setFree memory KERNEL_HEAP_START 1
    let memory := setNext memory KERNEL_HEAP_START 0
    let memory := setPrev memory KERNEL_HEAP_START 0
    { heap with mem := memory, heapStart := KERNEL_HEAP_START, heapEnd := KERNEL_HEAP_START }
  else heap

def storePhys (memory : Mem) (phys value : Word) : Mem :=
  if phys ≠ 0 then store32 memory phys value else memory

/-- kmalloc_ap when no hole was found: the block goes to heap_placement. -/
def placeBlock (size phys : Word) (heap : Heap) : Except Stop (Word × Heap) :=
  let oldPlacement := heap.heapPlacement
  let placement := oldPlacement + (size + sizeofMemBlock)
  if KERNEL_HEAP_START + KERNEL_HEAP_SIZE < placement then
    kernelPanic "Kernel heap exhausted"
  else
    let memory := setSize heap.mem oldPlacement size
    let memory := setFree memory oldPlacement 0
    let memory := setNext memory oldPlacement 0
    let memory := setPrev memory oldPlacement heap.heapEnd
    let memory := if heap.heapEnd ≠ 0 then setNext memory heap.heapEnd oldPlacement else memory
    let memory := storePhys memory phys (oldPlacement + sizeofMemBlock)
    .ok (oldPlacement + sizeofMemBlock,
      { heap with mem := memory, heapEnd := oldPlacement, heapPlacement := placement })

/-- The split of kmalloc_ap: the rest of the hole becomes a free block of its own. -/
def splitHole (memory : Mem) (hole size : Word) : Mem :=
  let remaining := (memBlock memory hole).size - size - sizeofMemBlock
  let newBlock := hole + sizeofMemBlock + size
  let memory := setSize memory newBlock remaining
  let memory := setFree memory newBlock 1
  let memory := setNext memory newBlock (memBlock memory hole).next
  let memory := setPrev memory newBlock hole
  let memory := if (memBlock memory hole).next ≠ 0 then
    setPrev memory (memBlock memory hole).next newBlock else memory
  let memory := setNext memory hole newBlock
  setSize memory hole size

/-- kmalloc_ap when a hole was found. -/
def takeHole (size phys hole : Word) (heap : Heap) : Word × Heap :=
  let memory := if size + sizeofMemBlock + 8 ≤ (memBlock heap.mem hole).size then
    splitHole heap.mem hole size else heap.mem
  let memory := setFree memory hole 0
  let memory := storePhys memory phys (hole + sizeofMemBlock)
  (hole + sizeofMemBlock, { heap with mem := memory })

def kmallocAp (fuel : Nat) (size phys : Word) (heap : Heap) : Except Stop (Word × Heap) :=
  let heap := initHeap heap
  if size = 0 then .ok (0, heap)
  else
    match mmFindSmallestHole heap.mem (size + sizeofMemBlock) fuel heap.heapStart with
    | none => .error .running
    | some none => placeBlock size phys heap
    | some (some hole) => .ok (takeHole size phys hole heap)

def kmallocP (fuel : Nat) (size phys : Word) (heap : Heap) : Except Stop (Word × Heap) :=
  kmallocAp fuel size phys heap

def kmalloc (fuel : Nat) (size : Word) (heap : Heap) : Except Stop (Word × Heap) :=
  kmallocP fuel size 0 heap

/-- The first merge of kfree, with the block the second one goes on from. -/
def mergeBackward (memory : Mem) (block : Word) : Mem × Word :=
  let prev := (memBlock memory block).prev
  if prev ≠ 0 ∧ (memBlock memory prev).free ≠ 0 then
    let memory := setSize memory prev
      ((memBlock memory prev).size + ((memBlock memory block).size + sizeofMemBlock))
    let memory := setNext memory (memBlock memory block).prev (memBlock memory block).next
    let memory := if (memBlock memory block).next ≠ 0 then
      setPrev memory (memBlock memory block).next (memBlock memory block).prev else memory
    (memory, (memBlock memory block).prev)
  else (memory, block)

/-- The second merge of kfree. -/
def mergeForward (memory : Mem) (block : Word) : Mem :=
  let next := (memBlock memory block).next
  if next ≠ 0 ∧ (memBlock memory next).free ≠ 0 then
    let memory := setSize memory block
      ((memBlock memory block).size + ((memBlock memory next).size + sizeofMemBlock))
    let memory := setNext memory block (memBlock memory (memBlock memory block).next).next
    if (memBlock memory block).next ≠ 0 then
      setPrev memory (memBlock memory block).next block
    else memory
  else memory

def kfree (ptr : Word) (heap : Heap) : Heap :=
  if ptr = 0 then heap
  else
    let block := ptr - sizeofMemBlock
    let memory := setFree heap.mem block 1
    let (memory, block) := mergeBackward memory block
    { heap with mem := mergeForward memory block }

/-! The parts that do not touch the headers. -/

@[simp] theorem initHeap_placement (heap : Heap) :
    (initHeap heap).heapPlacement = heap.heapPlacement := by
  unfold initHeap
  split <;> rfl

theorem placeBlock_ok {size phys ptr : Word} {heap next : Heap}
    (returned : placeBlock size phys heap = .ok (ptr, next)) :
    ptr = heap.heapPlacement + sizeofMemBlock ∧
      next.heapPlacement = heap.heapPlacement + (size + sizeofMemBlock) ∧
      heap.heapPlacement + (size + sizeofMemBlock) ≤ KERNEL_HEAP_START + KERNEL_HEAP_SIZE := by
  unfold placeBlock at returned
  by_cases full :
      KERNEL_HEAP_START + KERNEL_HEAP_SIZE < heap.heapPlacement + (size + sizeofMemBlock)
  · simp only [if_pos full, kernelPanic] at returned
    exact absurd returned (by simp)
  · simp only [if_neg full, Except.ok.injEq, Prod.mk.injEq] at returned
    exact ⟨returned.1.symm, returned.2 ▸ rfl, BitVec.not_lt.mp full⟩

/-! Reading one header back after a store to another field or another block. -/

variable (memory : Mem) (block value : Word)

@[simp] theorem memBlock_setSize :
    memBlock (setSize memory block value) block = { memBlock memory block with size := value } := by
  simp only [memBlock, setSize, load32_store32, MemBlock.mk.injEq, true_and]
  refine ⟨?_, ?_, ?_⟩ <;> exact load32_store32_apart (apart_words (by bv_omega) (by bv_omega))

@[simp] theorem memBlock_setNext :
    memBlock (setNext memory block value) block = { memBlock memory block with next := value } := by
  simp only [memBlock, setNext, load32_store32, MemBlock.mk.injEq, true_and]
  refine ⟨?_, ?_, ?_⟩ <;> exact load32_store32_apart (apart_words (by bv_omega) (by bv_omega))

@[simp] theorem memBlock_setPrev :
    memBlock (setPrev memory block value) block = { memBlock memory block with prev := value } := by
  simp only [memBlock, setPrev, load32_store32, MemBlock.mk.injEq, true_and]
  refine ⟨?_, ?_, ?_⟩ <;> exact load32_store32_apart (apart_words (by bv_omega) (by bv_omega))

@[simp] theorem memBlock_setFree :
    memBlock (setFree memory block value) block = { memBlock memory block with free := value } := by
  simp only [memBlock, setFree, load32_store32, MemBlock.mk.injEq, and_true]
  refine ⟨?_, ?_, ?_⟩ <;> exact load32_store32_apart (apart_words (by bv_omega) (by bv_omega))

theorem memBlock_congr {first second : Mem} {block : Word}
    (same : ∀ x, Within block 16 x → first x = second x) :
    memBlock first block = memBlock second block := by
  have field : ∀ offset : Word, offset.toNat + 4 ≤ 16 →
      load32 first (block + offset) = load32 second (block + offset) := fun offset room =>
    load32_congr fun x inside => same x (within_sub offset room inside)
  have size : load32 first block = load32 second block :=
    load32_congr fun x inside => same x (by unfold Within at *; omega)
  simp only [memBlock, size, field 4 (by decide), field 8 (by decide), field 12 (by decide)]

/-- Headers at these addresses share no byte. -/
def Spaced (block other : Word) : Prop := 16 ≤ (other - block).toNat ∧ 16 ≤ (block - other).toNat

theorem Spaced.symm {block other : Word} (spaced : Spaced block other) : Spaced other block :=
  ⟨spaced.2, spaced.1⟩

theorem memBlock_store_spaced {block other : Word} (spaced : Spaced block other) (offset : Word)
    (field : offset.toNat + 4 ≤ 16) :
    memBlock (store32 memory (block + offset) value) other = memBlock memory other := by
  apply memBlock_congr
  intro x inside
  apply store32_outside
  intro covered
  have header := within_sub offset field covered
  obtain ⟨after, before⟩ := spaced
  unfold Within at *
  bv_omega

variable {memory block value} {other : Word}

theorem memBlock_setSize_spaced (spaced : Spaced block other) :
    memBlock (setSize memory block value) other = memBlock memory other := by
  have shifted := memBlock_store_spaced memory value spaced 0 (by decide)
  rwa [show block + 0 = block by bv_omega] at shifted

theorem memBlock_setNext_spaced (spaced : Spaced block other) :
    memBlock (setNext memory block value) other = memBlock memory other :=
  memBlock_store_spaced memory value spaced 4 (by decide)

theorem memBlock_setPrev_spaced (spaced : Spaced block other) :
    memBlock (setPrev memory block value) other = memBlock memory other :=
  memBlock_store_spaced memory value spaced 8 (by decide)

theorem memBlock_setFree_spaced (spaced : Spaced block other) :
    memBlock (setFree memory block value) other = memBlock memory other :=
  memBlock_store_spaced memory value spaced 12 (by decide)

/-- What the two merges of kfree write: the first block takes over the second one. -/
def joinBlocks (memory : Mem) (first second : Word) : Mem :=
  let joined := setNext (setSize memory first
    ((memBlock memory first).size + ((memBlock memory second).size + sizeofMemBlock)))
    first (memBlock memory second).next
  if (memBlock memory second).next ≠ 0 then setPrev joined (memBlock memory second).next first
  else joined

theorem mergeBackward_eq {memory : Mem} {block : Word}
    (before : Spaced (memBlock memory block).prev block)
    (after : (memBlock memory block).next ≠ 0 → Spaced (memBlock memory block).next block) :
    mergeBackward memory block =
      if (memBlock memory block).prev ≠ 0 ∧ (memBlock memory (memBlock memory block).prev).free ≠ 0
      then (joinBlocks memory (memBlock memory block).prev block, (memBlock memory block).prev)
      else (memory, block) := by
  unfold mergeBackward joinBlocks
  simp only [memBlock_setSize_spaced before, memBlock_setNext_spaced before]
  by_cases stop : (memBlock memory block).next = 0
  · simp only [stop, ne_eq, not_true_eq_false, if_false, memBlock_setSize_spaced before,
      memBlock_setNext_spaced before]
  · simp only [stop, ne_eq, not_false_eq_true, if_true, memBlock_setPrev_spaced (after stop),
      memBlock_setSize_spaced before, memBlock_setNext_spaced before]

theorem mergeForward_eq {memory : Mem} {block : Word}
    (after : (memBlock memory block).next ≠ 0 → Spaced block (memBlock memory block).next) :
    mergeForward memory block =
      if (memBlock memory block).next ≠ 0 ∧ (memBlock memory (memBlock memory block).next).free ≠ 0
      then joinBlocks memory block (memBlock memory block).next
      else memory := by
  unfold mergeForward joinBlocks
  by_cases stop : (memBlock memory block).next = 0
  · simp only [stop, ne_eq, not_true_eq_false, false_and, if_false]
  · simp only [memBlock_setSize, memBlock_setNext, memBlock_setSize_spaced (after stop)]

/-- The four kinds of header after a split: the hole, its rest, their successor, any other. -/
theorem memBlock_splitHole (memory : Mem) {hole size : Word}
    (inner : Spaced (hole + sizeofMemBlock + size) hole)
    (outer : (memBlock memory hole).next ≠ 0 → Spaced (memBlock memory hole).next hole ∧
      Spaced (memBlock memory hole).next (hole + sizeofMemBlock + size)) :
    memBlock (splitHole memory hole size) hole =
        { memBlock memory hole with size := size, next := hole + sizeofMemBlock + size } ∧
      memBlock (splitHole memory hole size) (hole + sizeofMemBlock + size) =
        { size := (memBlock memory hole).size - size - sizeofMemBlock,
          next := (memBlock memory hole).next, prev := hole, free := 1 } ∧
      ((memBlock memory hole).next ≠ 0 →
        memBlock (splitHole memory hole size) (memBlock memory hole).next =
          { memBlock memory (memBlock memory hole).next with
            prev := hole + sizeofMemBlock + size }) ∧
      ∀ other, Spaced hole other → Spaced (hole + sizeofMemBlock + size) other →
        ((memBlock memory hole).next ≠ 0 → Spaced (memBlock memory hole).next other) →
        memBlock (splitHole memory hole size) other = memBlock memory other := by
  generalize rest : hole + sizeofMemBlock + size = newBlock at *
  unfold splitHole
  simp only [rest, memBlock_setSize_spaced inner, memBlock_setFree_spaced inner,
    memBlock_setNext_spaced inner, memBlock_setPrev_spaced inner]
  by_cases stop : (memBlock memory hole).next = 0
  · simp only [stop, ne_eq, not_true_eq_false, if_false]
    refine ⟨?_, ?_, fun absurd => absurd.elim, ?_⟩
    · simp [memBlock_setSize_spaced inner, memBlock_setFree_spaced inner,
        memBlock_setNext_spaced inner, memBlock_setPrev_spaced inner]
    · simp [memBlock_setSize_spaced inner.symm, memBlock_setNext_spaced inner.symm]
    · intro other first second _
      simp only [memBlock_setSize_spaced first, memBlock_setNext_spaced first,
        memBlock_setSize_spaced second, memBlock_setFree_spaced second,
        memBlock_setNext_spaced second, memBlock_setPrev_spaced second]
  · obtain ⟨far, near⟩ := outer stop
    simp only [stop, ne_eq, not_false_eq_true, if_true]
    refine ⟨?_, ?_, fun _ => ?_, ?_⟩
    · simp [memBlock_setSize_spaced inner, memBlock_setFree_spaced inner,
        memBlock_setNext_spaced inner, memBlock_setPrev_spaced inner, memBlock_setPrev_spaced far]
    · simp [memBlock_setSize_spaced inner.symm, memBlock_setNext_spaced inner.symm,
        memBlock_setPrev_spaced near]
    · simp [memBlock_setSize_spaced far.symm, memBlock_setNext_spaced far.symm,
        memBlock_setSize_spaced near.symm, memBlock_setFree_spaced near.symm,
        memBlock_setNext_spaced near.symm, memBlock_setPrev_spaced near.symm]
    · intro other first second third
      simp only [memBlock_setSize_spaced first, memBlock_setNext_spaced first,
        memBlock_setSize_spaced second, memBlock_setFree_spaced second,
        memBlock_setNext_spaced second, memBlock_setPrev_spaced second,
        memBlock_setPrev_spaced (third trivial)]

/-- The headers after a join; the second block's own header is no longer of use. -/
theorem memBlock_joinBlocks (memory : Mem) (first second : Word)
    (outer : (memBlock memory second).next ≠ 0 → Spaced (memBlock memory second).next first) :
    memBlock (joinBlocks memory first second) first =
        { memBlock memory first with
          size := (memBlock memory first).size + ((memBlock memory second).size + sizeofMemBlock),
          next := (memBlock memory second).next } ∧
      ((memBlock memory second).next ≠ 0 →
        memBlock (joinBlocks memory first second) (memBlock memory second).next =
          { memBlock memory (memBlock memory second).next with prev := first }) ∧
      ∀ other, Spaced first other →
        ((memBlock memory second).next ≠ 0 → Spaced (memBlock memory second).next other) →
        memBlock (joinBlocks memory first second) other = memBlock memory other := by
  unfold joinBlocks
  by_cases stop : (memBlock memory second).next = 0
  · simp only [stop, ne_eq, not_true_eq_false, if_false]
    refine ⟨by simp, fun absurd => absurd.elim, ?_⟩
    intro other spaced _
    simp only [memBlock_setSize_spaced spaced, memBlock_setNext_spaced spaced]
  · have far := outer stop
    simp only [stop, ne_eq, not_false_eq_true, if_true]
    refine ⟨?_, fun _ => ?_, ?_⟩
    · simp [memBlock_setPrev_spaced far]
    · simp [memBlock_setSize_spaced far.symm, memBlock_setNext_spaced far.symm]
    · intro other spaced third
      simp only [memBlock_setSize_spaced spaced, memBlock_setNext_spaced spaced,
        memBlock_setPrev_spaced (third trivial)]

end Vaelen.Kernel.Kmalloc
