import Vaelen.Kernel.KmallocBlocks

/-!
The representation invariant of the heap on the hole path. The hole search is
first fit on the block list, and serving a request from a hole or freeing a
block keeps the list tiled, linked and free of adjacent free blocks.
-/

namespace Vaelen.Kernel.KmallocTiling
open Vaelen.Base Platform Kmalloc KmallocBlocks

/-- No two free blocks are neighbours. -/
def Coalesced (blocks : List Block) : Prop :=
  blocks.IsChain fun first second => ¬(first.free = true ∧ second.free = true)

structure Tiling (heap : Heap) (blocks : List Block) : Prop where
  start : heap.heapStart = KERNEL_HEAP_START
  layout : Layout heap.mem blocks
  coalesced : Coalesced blocks

/-- The test of the hole search on one block. -/
def fits (request : Word) (block : Block) : Bool :=
  block.free && decide (request ≤ block.size)

theorem mmFindSmallestHole_mono {memory : Mem} {size current : Word} {result : Option Word}
    {fuel more : Nat} (found : mmFindSmallestHole memory size fuel current = some result)
    (enough : fuel ≤ more) : mmFindSmallestHole memory size more current = some result := by
  induction fuel generalizing current more with
  | zero => simp [mmFindSmallestHole] at found
  | succ fuel ih =>
    obtain ⟨rest, same⟩ : ∃ rest, more = rest + 1 := ⟨more - 1, by omega⟩
    subst same
    simp only [mmFindSmallestHole] at found ⊢
    split
    · next stop => rwa [if_pos stop] at found
    · next go =>
      rw [if_neg go] at found
      split
      · next hit => rwa [if_pos hit] at found
      · next miss =>
        rw [if_neg miss] at found
        exact ih found (by omega)

/-- The search walks a linked list to the first free block that is large enough. -/
theorem search_segment {memory : Mem} {before : Word} {list : List Word} (size : Word)
    (chained : Segment (fun addr => (memBlock memory addr).next) id (fun _ _ after => after) before
      list 0)
    (present : 0 ∉ list) {fuel : Nat} (enough : list.length < fuel) :
    mmFindSmallestHole memory size fuel (headKey id list 0) =
      some (list.find? fun block =>
        decide ((memBlock memory block).free ≠ 0 ∧ size ≤ (memBlock memory block).size)) := by
  induction list generalizing before fuel with
  | nil =>
    cases fuel with
    | zero => simp at enough
    | succ fuel => rfl
  | cons block rest ih =>
    obtain ⟨nonzero, later⟩ := not_or.mp (mt List.mem_cons.mpr present)
    cases fuel with
    | zero => simp at enough
    | succ fuel =>
      have next : (memBlock memory block).next = headKey id rest 0 := chained.1
      rw [show headKey id (block :: rest) 0 = block from rfl, mmFindSmallestHole,
        if_neg (Ne.symm nonzero), List.find?_cons]
      by_cases hit : (memBlock memory block).free ≠ 0 ∧ size ≤ (memBlock memory block).size
      · rw [if_pos hit, decide_eq_true hit]
      · rw [if_neg hit, decide_eq_false hit, next]
        exact ih chained.2 later (by simpa using enough)

/-- On the blocks that the headers describe. -/
theorem mmFindSmallestHole_segment {memory : Mem} {prev : Word} {blocks : List Block}
    (size : Word) (fuel : Nat) (chained : Segment (memBlock memory) Block.addr Block.header prev blocks 0)
    (present : ∀ block ∈ blocks, block.addr ≠ 0) (enough : blocks.length < fuel) :
    mmFindSmallestHole memory size fuel (headKey Block.addr blocks 0) =
      some ((blocks.find? (fits size)).map Block.addr) := by
  have links : Segment (fun addr => (memBlock memory addr).next) id (fun _ _ after => after) prev
      (blocks.map Block.addr) 0 := chained.keys fun _ _ _ => rfl
  have nonzero : 0 ∉ blocks.map Block.addr := by
    intro member
    obtain ⟨block, listed, zero⟩ := List.mem_map.mp member
    exact present block listed zero
  have test : ∀ block ∈ blocks, decide ((memBlock memory block.addr).free ≠ 0 ∧
      size ≤ (memBlock memory block.addr).size) = fits size block := by
    intro block member
    obtain ⟨before, after, header⟩ := chained.record member
    simp only [header, Block.header, flag_ne_zero, fits, Bool.decide_and, Bool.decide_eq_true]
  rw [← headKey_keys, search_segment size links nonzero (by simpa using enough), List.find?_map]
  exact congrArg (fun found => some (found.map Block.addr)) (List.find?_congr test)

namespace Tiling
variable {heap : Heap} {blocks before after : List Block} {block : Block}

theorem started (tiling : Tiling heap blocks) : heap.heapStart ≠ 0 := by
  rw [tiling.start]
  decide

theorem head (tiling : Tiling heap blocks) : ∃ first rest, blocks = first :: rest ∧
    first.addr = KERNEL_HEAP_START := by
  have tiled := tiling.layout.tiled
  cases blocks with
  | nil =>
    have same : KERNEL_HEAP_START.toNat = KERNEL_HEAP_START.toNat + KERNEL_HEAP_SIZE.toNat := tiled
    exact absurd same (by decide)
  | cons first rest => exact ⟨first, rest, rfl, BitVec.eq_of_toNat_eq tiled.1⟩

theorem search_within (tiling : Tiling heap blocks) (size : Word) {fuel : Nat}
    (enough : blocks.length < fuel) :
    mmFindSmallestHole heap.mem size fuel heap.heapStart =
      some ((blocks.find? (fits size)).map Block.addr) := by
  obtain ⟨first, rest, split, same⟩ := tiling.head
  have entry : heap.heapStart = headKey Block.addr blocks 0 := by
    rw [tiling.start, split]
    exact same.symm
  rw [entry]
  exact mmFindSmallestHole_segment size fuel tiling.layout.chained
    (fun other member => tiling.layout.addr_ne_zero member) enough

/-- Whatever the fuel, a search that returns has found the first fit. -/
theorem search (tiling : Tiling heap blocks) {size : Word} {fuel : Nat} {result : Option Word}
    (found : mmFindSmallestHole heap.mem size fuel heap.heapStart = some result) :
    result = (blocks.find? (fits size)).map Block.addr := by
  have full := tiling.search_within size
    (Nat.lt_of_lt_of_le (Nat.lt_succ_self blocks.length) (Nat.le_max_right fuel _))
  have longer := mmFindSmallestHole_mono found (Nat.le_max_left fuel (blocks.length + 1))
  exact Option.some.inj (longer.symm.trans full)

end Tiling

theorem find_split {request : Word} {blocks : List Block} {hole : Block}
    (found : blocks.find? (fits request) = some hole) :
    ∃ before after, blocks = before ++ hole :: after ∧ hole.free = true ∧ request ≤ hole.size := by
  obtain ⟨hit, before, after, split, _⟩ := List.find?_eq_some_iff_append.mp found
  simp only [fits, Bool.and_eq_true, decide_eq_true_eq] at hit
  exact ⟨before, after, split, hit⟩

/-- Coalescing is a matter of the free flags only. -/
theorem Coalesced.congr {first second : List Block} (coalesced : Coalesced first)
    (same : second.map Block.free = first.map Block.free) : Coalesced second := by
  have flags : ∀ blocks : List Block,
      (blocks.IsChain fun first second => ¬(first.free = true ∧ second.free = true)) ↔
      (blocks.map Block.free).IsChain fun first second => ¬(first = true ∧ second = true) :=
    fun blocks => Iff.symm (List.isChain_map Block.free)
  exact (flags second).mpr (same ▸ (flags first).mp coalesced)

theorem coalesced_carve {size : Word} {before after : List Block} {hole : Block}
    (free : hole.free = true) (coalesced : Coalesced (before ++ hole :: after)) :
    Coalesced (before ++ (carve size hole ++ after)) := by
  obtain ⟨left, right⟩ := List.isChain_split.mp coalesced
  have kept : Coalesced before := left.left_of_append
  have used : ∀ (block : Block) (rest : List Block), block.free = false →
      Coalesced rest → Coalesced (before ++ block :: rest) := by
    intro block rest taken chain
    refine List.isChain_split.mpr ⟨?_, ?_⟩
    · refine List.isChain_append.mpr ⟨kept, List.isChain_singleton _, ?_⟩
      intro _ _ other same
      simp only [List.head?_cons, Option.mem_def, Option.some.injEq] at same
      subst same
      simp [taken]
    · refine chain.cons fun other _ => ?_
      simp [taken]
  unfold carve
  split
  · refine used _ _ rfl ?_
    exact right.imp_head (fun step => by simpa [free] using step)
  · exact used _ _ rfl right.tail

theorem coalesced_absorbAfter {before after : List Block} {block : Block}
    (left : Coalesced (before ++ [block])) (right : Coalesced after)
    (free : block.free = true) : Coalesced (before ++ absorbAfter block after) := by
  cases after with
  | nil => exact left
  | cons next rest =>
    simp only [absorbAfter]
    split
    · next nextFree =>
      refine List.isChain_split.mpr ⟨left.congr (by simp [Block.join]), ?_⟩
      exact right.imp_head fun step => by simpa [Block.join, free, nextFree] using step
    · next used =>
      refine List.isChain_split.mpr ⟨left, right.cons fun other same => ?_⟩
      simp only [List.head?_cons, Option.mem_def, Option.some.injEq] at same
      subst same
      exact fun both => used both.2

/-- Freeing a used block of a coalesced list leaves a coalesced list. -/
theorem coalesced_release {before after : List Block} {block : Block}
    (coalesced : Coalesced (before ++ block :: after)) :
    Coalesced (release before block after) := by
  obtain ⟨left, right⟩ := List.isChain_split.mp coalesced
  have rest : Coalesced after := right.tail
  simp only [release]
  rcases List.eq_nil_or_concat before with empty | ⟨kept, prev, split⟩
  · subst empty
    have alone : Coalesced ([] ++ [{ block with free := true }]) := List.isChain_singleton _
    exact coalesced_absorbAfter alone rest rfl
  · rw [List.concat_eq_append] at split
    subst split
    have front : Coalesced (kept ++ [prev]) := left.left_of_append
    simp only [absorbBefore, List.getLast?_append, List.getLast?_singleton, Option.some_or,
      List.dropLast_concat]
    by_cases free : prev.free = true
    · rw [if_pos free]
      exact coalesced_absorbAfter (front.congr (by simp [Block.join])) rest free
    · rw [if_neg free]
      refine coalesced_absorbAfter ?_ rest rfl
      refine List.isChain_append.mpr ⟨front, List.isChain_singleton _, ?_⟩
      intro last isLast _ _
      simp only [List.getLast?_append, List.getLast?_singleton, Option.some_or, Option.mem_def,
        Option.some.injEq] at isLast
      subst isLast
      exact fun both => free both.1

/-- The used blocks after a release are the used blocks around the released one. -/
theorem mem_release_used {before after : List Block} {block other : Block}
    (used : other.free = false) :
    other ∈ release before block after ↔ other ∈ before ∨ other ∈ after := by
  have absorbed : ∀ merged : Block, merged.free = true →
      (other ∈ absorbAfter merged after ↔ other ∈ after) := by
    intro merged free
    have fresh : other ≠ merged := fun same => by simp [same, free] at used
    cases after with
    | nil => simp [absorbAfter, fresh]
    | cons next rest =>
      simp only [absorbAfter]
      split
      · next nextFree =>
        have joined : other ≠ merged.join next := fun same => by
          simp [same, Block.join, free] at used
        have gone : other ≠ next := fun same => by simp [same, nextFree] at used
        simp [joined, gone]
      · simp [fresh]
  simp only [release]
  rcases List.eq_nil_or_concat before with empty | ⟨kept, prev, split⟩
  · subst empty
    simpa [absorbBefore] using absorbed _ rfl
  · rw [List.concat_eq_append] at split
    subst split
    simp only [absorbBefore, List.getLast?_append, List.getLast?_singleton, Option.some_or,
      List.dropLast_concat]
    by_cases free : prev.free = true
    · have gone : other ≠ prev := fun same => by simp [same, free] at used
      rw [if_pos free, List.mem_append, absorbed (prev.join _) free]
      simp [gone]
    · rw [if_neg free, List.mem_append, absorbed _ rfl]

namespace Tiling
variable {heap : Heap} {blocks before after : List Block} {block : Block}

/-- One request served by a hole. -/
theorem takeHole (tiling : Tiling heap (before ++ block :: after)) {size : Word}
    (free : block.free = true) (room : size.toNat + 16 ≤ block.size.toNat) :
    Tiling (takeHole size 0 block.addr heap).2 (before ++ (carve size block ++ after)) :=
  ⟨tiling.start, tiling.layout.takeHole room, coalesced_carve free tiling.coalesced⟩

/-- One block freed. -/
theorem kfree (tiling : Tiling heap (before ++ block :: after)) :
    Tiling (kfree (block.addr + sizeofMemBlock) heap) (release before block after) := by
  refine ⟨?_, tiling.layout.kfree, coalesced_release tiling.coalesced⟩
  unfold Kmalloc.kfree
  split
  · exact tiling.start
  · exact tiling.start

end Tiling

/-- The first call lays one free block over the whole heap. -/
theorem initHeap_tiling {heap : Heap} (fresh : heap.heapStart = 0) :
    Tiling (initHeap heap)
      [{ addr := KERNEL_HEAP_START, size := KERNEL_HEAP_SIZE - sizeofMemBlock, free := true }] := by
  simp only [initHeap, if_pos fresh]
  refine ⟨rfl, ⟨⟨?_, trivial⟩, ⟨rfl, rfl⟩⟩, List.isChain_singleton _⟩
  simp [Block.header, headKey, flag]

/-- A fresh heap is one hole. -/
theorem search_fresh {heap : Heap} {size : Word} (fresh : heap.heapStart = 0)
    (fitting : size ≤ KERNEL_HEAP_SIZE - sizeofMemBlock) :
    mmFindSmallestHole (initHeap heap).mem size 2 (initHeap heap).heapStart =
      some (some KERNEL_HEAP_START) := by
  rw [(initHeap_tiling fresh).search_within size (Nat.lt_succ_self 1), List.find?_singleton, fits,
    Bool.true_and, if_pos (decide_eq_true fitting)]
  rfl

theorem initHeap_started {heap : Heap} (started : heap.heapStart ≠ 0) : initHeap heap = heap :=
  if_neg started

/-- A tiled heap has been through its first call already. -/
theorem initHeap_tiled {heap : Heap} {blocks : List Block} (tiling : Tiling heap blocks) :
    initHeap heap = heap :=
  initHeap_started tiling.started

theorem initHeap_initHeap (heap : Heap) : initHeap (initHeap heap) = initHeap heap := by
  by_cases fresh : heap.heapStart = 0
  · exact initHeap_tiled (initHeap_tiling fresh)
  · rw [initHeap_started fresh, initHeap_started fresh]

end Vaelen.Kernel.KmallocTiling
