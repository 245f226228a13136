import Vaelen.Base.Segment
import Vaelen.Base.Tiling
import Vaelen.Kernel.Kmalloc

/-!
The heap as a list of blocks. `Layout` says that the headers in memory are this
list, linked both ways, and that the list tiles the heap range. The memory
operations of kmalloc_ap and kfree are matched by list operations.
-/

namespace Vaelen.Kernel.KmallocBlocks
open Vaelen.Base Platform Kmalloc

structure Block where
  addr : Word
  size : Word
  free : Bool
  deriving DecidableEq, Repr

def flag (free : Bool) : Word := if free then 1 else 0

theorem flag_ne_zero (free : Bool) : flag free ≠ 0 ↔ free = true := by
  cases free <;> decide

namespace Block

def header (block : Block) (prev next : Word) : MemBlock :=
  { size := block.size, next := next, prev := prev, free := flag block.free }

def start (block : Block) : Nat := block.addr.toNat
def extent (block : Block) : Nat := 16 + block.size.toNat

/-- The first block takes over the second one. -/
def join (first second : Block) : Block :=
  { first with size := first.size + (second.size + sizeofMemBlock) }

end Block

structure Layout (memory : Mem) (blocks : List Block) : Prop where
  chained : Segment (memBlock memory) Block.addr Block.header 0 blocks 0
  tiled : Tiles Block.start Block.extent KERNEL_HEAP_START.toNat blocks
    (KERNEL_HEAP_START.toNat + KERNEL_HEAP_SIZE.toNat)

/-- The block of a hole that serves a request, and the free rest when it is split off. -/
def carve (size : Word) (hole : Block) : List Block :=
  if size + sizeofMemBlock + 8 ≤ hole.size then
    [{ addr := hole.addr, size := size, free := false },
      { addr := hole.addr + sizeofMemBlock + size,
        size := hole.size - size - sizeofMemBlock, free := true }]
  else [{ hole with free := false }]

def absorbBefore (before : List Block) (block : Block) : List Block × Block :=
  match before.getLast? with
  | some prev => if prev.free then (before.dropLast, prev.join block) else (before, block)
  | none => (before, block)

def absorbAfter (block : Block) : List Block → List Block
  | next :: rest => if next.free then block.join next :: rest else block :: next :: rest
  | [] => [block]

/-- The list after the block between `before` and `after` has been freed. -/
def release (before : List Block) (block : Block) (after : List Block) : List Block :=
  let (kept, merged) := absorbBefore before { block with free := true }
  kept ++ absorbAfter merged after

theorem spaced_of_le {block other : Word} (order : block.toNat + 16 ≤ other.toNat)
    (bound : other.toNat + 16 ≤ 2 ^ 32) : Spaced block other := by
  unfold Spaced
  bv_omega

theorem heap_low : KERNEL_HEAP_START.toNat = 0xD0000000 := rfl
theorem heap_high : KERNEL_HEAP_START.toNat + KERNEL_HEAP_SIZE.toNat = 0xD1000000 := rfl

namespace Layout
variable {memory : Mem} {blocks before after : List Block} {block : Block}

theorem bounds (layout : Layout memory blocks) (member : block ∈ blocks) :
    0xD0000000 ≤ block.addr.toNat ∧
      block.addr.toNat + 16 + block.size.toNat ≤ 0xD1000000 := by
  have inside := layout.tiled.bounds member
  rw [heap_high, heap_low] at inside
  simp only [Block.start, Block.extent] at inside
  omega

theorem inside (layout : Layout memory (before ++ block :: after)) :
    0xD0000000 ≤ block.addr.toNat ∧
      block.addr.toNat + 16 + block.size.toNat ≤ 0xD1000000 :=
  layout.bounds (List.mem_append_right _ List.mem_cons_self)

theorem inside_after (layout : Layout memory (before ++ block :: after)) {other : Block}
    (member : other ∈ after) :
    0xD0000000 ≤ other.addr.toNat ∧
      other.addr.toNat + 16 + other.size.toNat ≤ 0xD1000000 :=
  layout.bounds (List.mem_append_right _ (List.mem_cons_of_mem _ member))

theorem before_end (layout : Layout memory (before ++ block :: after)) {other : Block}
    (member : other ∈ before) :
    other.addr.toNat + 16 + other.size.toNat ≤ block.addr.toNat := by
  have order := layout.tiled.around.1 other member
  simp only [Block.start, Block.extent] at order
  omega

theorem after_start (layout : Layout memory (before ++ block :: after)) {other : Block}
    (member : other ∈ after) :
    block.addr.toNat + 16 + block.size.toNat ≤ other.addr.toNat := by
  have order := layout.tiled.around.2 other member
  simp only [Block.start, Block.extent] at order
  omega

theorem spaced_before (layout : Layout memory (before ++ block :: after)) {other : Block}
    (member : other ∈ before) : Spaced block.addr other.addr := by
  have order := layout.before_end member
  have bound := layout.inside
  exact (spaced_of_le (by omega) (by omega)).symm

theorem spaced_after (layout : Layout memory (before ++ block :: after)) {other : Block}
    (member : other ∈ after) : Spaced block.addr other.addr := by
  have order := layout.after_start member
  have bound := layout.inside_after member
  exact spaced_of_le (by omega) (by omega)

/-- Blocks at different addresses do not overlap. -/
theorem separate (layout : Layout memory blocks) {other : Block} (member : block ∈ blocks)
    (also : other ∈ blocks) (different : other.addr ≠ block.addr) :
    block.addr.toNat + 16 + block.size.toNat ≤ other.addr.toNat ∨
      other.addr.toNat + 16 + other.size.toNat ≤ block.addr.toNat := by
  obtain ⟨before, after, split⟩ := List.append_of_mem member
  subst split
  rcases List.mem_append.mp also with early | late
  · exact Or.inr (layout.before_end early)
  · rcases List.mem_cons.mp late with here | later
    · exact absurd (congrArg Block.addr here) different
    · exact Or.inl (layout.after_start later)

theorem addr_injective (layout : Layout memory blocks) {other : Block} (member : block ∈ blocks)
    (also : other ∈ blocks) (same : other.addr = block.addr) : other = block := by
  obtain ⟨before, after, split⟩ := List.append_of_mem member
  subst split
  rcases List.mem_append.mp also with early | late
  · have order := layout.before_end early
    rw [same] at order
    omega
  · rcases List.mem_cons.mp late with here | later
    · exact here
    · have order := layout.after_start later
      rw [same] at order
      omega

theorem addr_ne_zero (layout : Layout memory blocks) (member : block ∈ blocks) :
    block.addr ≠ 0 := by
  have inside := (layout.bounds member).1
  intro zero
  rw [zero] at inside
  exact absurd inside (by decide)

theorem header_eq (layout : Layout memory (before ++ block :: after)) :
    memBlock memory block.addr =
      block.header (lastKey Block.addr 0 before) (headKey Block.addr after 0) :=
  ((segment_append _ _ _ _).mp layout.chained).2.1

theorem size_eq (layout : Layout memory (before ++ block :: after)) :
    (memBlock memory block.addr).size = block.size :=
  congrArg MemBlock.size layout.header_eq

theorem next_eq (layout : Layout memory (before ++ block :: after)) :
    (memBlock memory block.addr).next = headKey Block.addr after 0 :=
  congrArg MemBlock.next layout.header_eq

theorem prev_eq (layout : Layout memory (before ++ block :: after)) :
    (memBlock memory block.addr).prev = lastKey Block.addr 0 before :=
  congrArg MemBlock.prev layout.header_eq

theorem free_eq (layout : Layout memory (before ++ block :: after)) :
    (memBlock memory block.addr).free = flag block.free :=
  congrArg MemBlock.free layout.header_eq

theorem headKey_ne_zero (present : headKey Block.addr after 0 ≠ 0) :
    ∃ next ∈ after, headKey Block.addr after 0 = next.addr := by
  cases after with
  | nil => exact absurd rfl present
  | cons next rest => exact ⟨next, by simp, rfl⟩

theorem next_listed (layout : Layout memory (before ++ block :: after))
    (present : (memBlock memory block.addr).next ≠ 0) :
    ∃ next ∈ after, (memBlock memory block.addr).next = next.addr := by
  rw [layout.next_eq] at present ⊢
  exact headKey_ne_zero present

/-- The rest of a split block starts behind the header and the payload of the first part. -/
theorem rest_start {size : Word} (layout : Layout memory (before ++ block :: after))
    (room : size.toNat + 16 ≤ block.size.toNat) :
    (block.addr + sizeofMemBlock + size).toNat = block.addr.toNat + 16 + size.toNat := by
  have bound := layout.inside
  bv_omega

/-- A hole is split when a second header and 8 more bytes fit. -/
theorem splits_iff {size : Word} (layout : Layout memory (before ++ block :: after))
    (room : size.toNat + 16 ≤ block.size.toNat) :
    size + sizeofMemBlock + 8 ≤ block.size ↔ size.toNat + 24 ≤ block.size.toNat := by
  have bound := layout.inside
  change size + 16 + 8 ≤ block.size ↔ _
  bv_omega

/-- A header written in place: only this block's free flag changes. -/
theorem setFree (layout : Layout memory (before ++ block :: after)) (free : Bool) :
    Layout (setFree memory block.addr (flag free))
      (before ++ { block with free := free } :: after) := by
  obtain ⟨left, here, right⟩ := (segment_append _ _ _ _).mp layout.chained
  refine ⟨(segment_append _ _ _ _).mpr ⟨?_, ?_, ?_⟩, ?_⟩
  · exact left.congr fun other member => memBlock_setFree_spaced (layout.spaced_before member)
  · change memBlock (Kmalloc.setFree memory block.addr (flag free)) block.addr = _
    rw [memBlock_setFree, here]
    rfl
  · exact right.congr fun other member => memBlock_setFree_spaced (layout.spaced_after member)
  · have single : Tiles Block.start Block.extent block.start [{ block with free := free }]
        (block.start + block.extent) := ⟨rfl, rfl⟩
    exact layout.tiled.replace single

/-- Joining two neighbours in memory joins them in the list. -/
theorem join {second : Block} (layout : Layout memory (before ++ block :: second :: after)) :
    Layout (joinBlocks memory block.addr second.addr) (before ++ block.join second :: after) := by
  obtain ⟨left, firstHeader, secondHeader, right⟩ := (segment_append _ _ _ _).mp layout.chained
  have nextEq : (memBlock memory second.addr).next = headKey Block.addr after 0 := by
    rw [secondHeader]
    rfl
  have tiled : Tiles Block.start Block.extent KERNEL_HEAP_START.toNat
      (before ++ block.join second :: after)
      (KERNEL_HEAP_START.toNat + KERNEL_HEAP_SIZE.toNat) := by
    refine layout.tiled.merge rfl ?_
    have firstBound := layout.inside
    have order := layout.after_start (List.mem_cons_self ..)
    have secondBound := layout.inside_after (List.mem_cons_self ..)
    simp only [Block.extent, Block.join]
    bv_omega
  cases after with
  | nil =>
    have stop : (memBlock memory second.addr).next = 0 := nextEq
    obtain ⟨atFirst, _, elsewhere⟩ := memBlock_joinBlocks memory
      block.addr second.addr (fun present => absurd stop present)
    refine ⟨(segment_append _ _ _ _).mpr ⟨?_, ?_, trivial⟩, tiled⟩
    · exact left.congr fun other member => elsewhere other.addr (layout.spaced_before member)
        (fun present => absurd stop present)
    · change memBlock (joinBlocks memory block.addr second.addr) block.addr = _
      rw [atFirst, firstHeader, secondHeader]
      rfl
  | cons next rest =>
    have around : Layout memory ((before ++ [block, second]) ++ next :: rest) := by
      simpa using layout
    have stop : (memBlock memory second.addr).next = next.addr := nextEq
    obtain ⟨atFirst, atNext, elsewhere⟩ := memBlock_joinBlocks memory
      block.addr second.addr (fun _ => stop ▸ around.spaced_before (by simp))
    rw [stop] at atNext elsewhere
    refine ⟨(segment_append _ _ _ _).mpr ⟨?_, ?_, ?_, ?_⟩, tiled⟩
    · exact left.congr fun other member => elsewhere other.addr (layout.spaced_before member)
        (fun _ => around.spaced_before (by simp [member]))
    · change memBlock (joinBlocks memory block.addr second.addr) block.addr = _
      rw [atFirst, firstHeader, secondHeader]
      rfl
    · rw [atNext (layout.addr_ne_zero (by simp)), right.1]
      rfl
    · exact right.2.congr fun other member =>
        elsewhere other.addr (layout.spaced_after (by simp [member]))
          (fun _ => around.spaced_after member)

/-- The two parts of a hole take up its place. -/
theorem split_tiled {size : Word} (layout : Layout memory (before ++ block :: after))
    (room : size.toNat + 24 ≤ block.size.toNat) :
    Tiles Block.start Block.extent KERNEL_HEAP_START.toNat
      (before ++ { block with size := size } ::
        { addr := block.addr + sizeofMemBlock + size,
          size := block.size - size - sizeofMemBlock, free := true } :: after)
      (KERNEL_HEAP_START.toNat + KERNEL_HEAP_SIZE.toNat) := by
  have bound := layout.inside
  have newStart := layout.rest_start (show size.toNat + 16 ≤ block.size.toNat by omega)
  have parts : Tiles Block.start Block.extent block.start
      [{ block with size := size },
        { addr := block.addr + sizeofMemBlock + size,
          size := block.size - size - sizeofMemBlock, free := true }]
      (block.start + block.extent) := by
    refine ⟨rfl, ?_, ?_⟩
    · simp only [Block.start, Block.extent]
      omega
    · change _ = _
      simp only [Block.start, Block.extent]
      bv_omega
  exact layout.tiled.replace parts

/-- Splitting a block in memory puts its rest behind it in the list. -/
theorem splitHole {size : Word} (layout : Layout memory (before ++ block :: after))
    (room : size.toNat + 24 ≤ block.size.toNat) :
    Layout (splitHole memory block.addr size) (before ++ { block with size := size } ::
      { addr := block.addr + sizeofMemBlock + size,
        size := block.size - size - sizeofMemBlock, free := true } :: after) := by
  obtain ⟨left, header, right⟩ := (segment_append _ _ _ _).mp layout.chained
  have bound := layout.inside
  have newStart := layout.rest_start (show size.toNat + 16 ≤ block.size.toNat by omega)
  have nextEq := layout.next_eq
  have inner : Spaced (block.addr + sizeofMemBlock + size) block.addr :=
    (spaced_of_le (by omega) (by omega)).symm
  have earlier : ∀ other ∈ before, Spaced (block.addr + sizeofMemBlock + size) other.addr := by
    intro other member
    have order := layout.before_end member
    exact (spaced_of_le (by omega) (by omega)).symm
  have later : ∀ other ∈ after, Spaced (block.addr + sizeofMemBlock + size) other.addr := by
    intro other member
    have order := layout.after_start member
    have limit := layout.inside_after member
    exact spaced_of_le (by omega) (by omega)
  cases after with
  | nil =>
    have stop : (memBlock memory block.addr).next = 0 := nextEq
    obtain ⟨atHole, atRest, _, elsewhere⟩ := memBlock_splitHole memory inner
      (fun present => absurd stop present)
    refine ⟨(segment_append _ _ _ _).mpr ⟨?_, ?_, ?_, trivial⟩, split_tiled layout room⟩
    · exact left.congr fun other member => elsewhere other.addr (layout.spaced_before member)
        (earlier other member) (fun present => absurd stop present)
    · change memBlock (Kmalloc.splitHole memory block.addr size) block.addr = _
      rw [atHole, header]
      rfl
    · rw [atRest, header]
      rfl
  | cons next rest =>
    have around : Layout memory ((before ++ [block]) ++ next :: rest) := by
      simpa using layout
    have stop : (memBlock memory block.addr).next = next.addr := nextEq
    obtain ⟨atHole, atRest, atNext, elsewhere⟩ := memBlock_splitHole memory inner
      (fun _ => stop ▸ ⟨(layout.spaced_after (by simp)).symm, (later next (by simp)).symm⟩)
    rw [stop] at atNext elsewhere
    refine ⟨(segment_append _ _ _ _).mpr ⟨?_, ?_, ?_, ?_, ?_⟩, split_tiled layout room⟩
    · exact left.congr fun other member => elsewhere other.addr (layout.spaced_before member)
        (earlier other member) (fun _ => around.spaced_before (by simp [member]))
    · change memBlock (Kmalloc.splitHole memory block.addr size) block.addr = _
      rw [atHole, header]
      rfl
    · rw [atRest, header]
      rfl
    · rw [atNext (layout.addr_ne_zero (by simp)), right.1]
      rfl
    · exact right.2.congr fun other member =>
        elsewhere other.addr (layout.spaced_after (by simp [member]))
          (later other (by simp [member])) (fun _ => around.spaced_after member)

/-- Serving a request from a hole replaces the hole by its two parts, or marks it used. -/
theorem takeHole {heap : Heap} {size : Word} (layout : Layout heap.mem (before ++ block :: after))
    (room : size.toNat + 16 ≤ block.size.toNat) :
    Layout (takeHole size 0 block.addr heap).2.mem (before ++ (carve size block ++ after)) := by
  simp only [Kmalloc.takeHole, storePhys, layout.size_eq, ne_eq, not_true_eq_false, if_false, carve]
  by_cases split : size + sizeofMemBlock + 8 ≤ block.size
  · rw [if_pos split, if_pos split]
    exact (layout.splitHole ((layout.splits_iff room).mp split)).setFree false
  · rw [if_neg split, if_neg split]
    exact layout.setFree false

theorem next_spaced (layout : Layout memory (before ++ block :: after))
    (present : (memBlock memory block.addr).next ≠ 0) :
    Spaced block.addr (memBlock memory block.addr).next := by
  obtain ⟨next, member, same⟩ := layout.next_listed present
  rw [same]
  exact layout.spaced_after member

/-- The first merge of kfree at a block of the list. -/
theorem mergeBackward (layout : Layout memory (before ++ block :: after)) :
    (mergeBackward memory block.addr).2 = (absorbBefore before block).2.addr ∧
      Layout (mergeBackward memory block.addr).1
        ((absorbBefore before block).1 ++ (absorbBefore before block).2 :: after) := by
  have prevEq := layout.prev_eq
  rcases List.eq_nil_or_concat before with empty | ⟨kept, prev, split⟩
  · subst empty
    have stop : (memBlock memory block.addr).prev = 0 := prevEq
    simp only [Kmalloc.mergeBackward, stop, ne_eq, not_true_eq_false, false_and, if_false]
    exact ⟨rfl, layout⟩
  · subst split
    rw [List.concat_eq_append] at layout prevEq ⊢
    have here : (memBlock memory block.addr).prev = prev.addr := by
      rw [prevEq, lastKey_append]
      rfl
    have shifted : Layout memory (kept ++ prev :: block :: after) := by simpa using layout
    rw [mergeBackward_eq (here ▸ shifted.spaced_after (by simp))
      (fun present => (layout.next_spaced present).symm), here, shifted.free_eq]
    have present := shifted.addr_ne_zero (List.mem_append_right _ List.mem_cons_self)
    simp only [absorbBefore, List.getLast?_append, List.getLast?_singleton, Option.some_or,
      List.dropLast_concat]
    by_cases free : prev.free = true
    · rw [if_pos ⟨present, (flag_ne_zero _).mpr free⟩, if_pos free]
      exact ⟨rfl, shifted.join⟩
    · rw [if_neg (fun both => free ((flag_ne_zero _).mp both.2)), if_neg free]
      exact ⟨rfl, layout⟩

/-- The second merge of kfree at a block of the list. -/
theorem mergeForward (layout : Layout memory (before ++ block :: after)) :
    Layout (mergeForward memory block.addr) (before ++ absorbAfter block after) := by
  rw [mergeForward_eq layout.next_spaced, layout.next_eq]
  cases after with
  | nil => simpa [headKey, absorbAfter] using layout
  | cons next rest =>
    have around : Layout memory ((before ++ [block]) ++ next :: rest) := by simpa using layout
    have present := around.addr_ne_zero (List.mem_append_right _ List.mem_cons_self)
    simp only [headKey, absorbAfter, around.free_eq]
    by_cases free : next.free = true
    · rw [if_pos ⟨present, (flag_ne_zero _).mpr free⟩, if_pos free]
      exact layout.join
    · rw [if_neg (fun both => free ((flag_ne_zero _).mp both.2)), if_neg free]
      exact layout

/-- kfree of a block's pointer releases the block in the list. -/
theorem kfree {heap : Heap} (layout : Layout heap.mem (before ++ block :: after)) :
    Layout (kfree (block.addr + sizeofMemBlock) heap).mem (release before block after) := by
  have bound := layout.inside
  have present : block.addr + sizeofMemBlock ≠ 0 := by bv_omega
  have back : block.addr + sizeofMemBlock - sizeofMemBlock = block.addr := BitVec.add_sub_cancel _ _
  have freed : Layout (Kmalloc.setFree heap.mem block.addr 1)
      (before ++ { block with free := true } :: after) := layout.setFree true
  obtain ⟨same, merged⟩ := freed.mergeBackward
  simp only [Kmalloc.kfree, if_neg present, back, release]
  rw [show (Kmalloc.mergeBackward (Kmalloc.setFree heap.mem block.addr 1) block.addr).2 = _
    from same]
  exact merged.mergeForward

end Layout

end Vaelen.Kernel.KmallocBlocks
