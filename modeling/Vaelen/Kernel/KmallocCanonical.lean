import Vaelen.Kernel.KmallocRuns

/-!
The block list of a heap on the hole path is a function of its live blocks: the list tiles
the heap and has no adjacent free blocks, so everything between the live blocks is one free
block. How the state was reached, and in which order blocks were freed, leaves no trace.
-/

namespace Vaelen.Kernel.KmallocCanonical
open Vaelen.Base Platform Kmalloc KmallocBlocks KmallocTiling KmallocRuns

/-- The blocks from `current` on with their headers; `none` has not come to the end yet. -/
def blockList (memory : Mem) : Nat → Word → Option (List (Word × MemBlock))
  | 0, _ => none
  | fuel + 1, current =>
      if current = 0 then some []
      else
        (blockList memory fuel (memBlock memory current).next).map
          ((current, memBlock memory current) :: ·)

/-- The block list of a heap; before the first call it is the one that call begins with. -/
def Listed (heap : Heap) (list : List (Word × MemBlock)) : Prop :=
  ∃ fuel, blockList (initHeap heap).mem fuel (initHeap heap).heapStart = some list

/-- The blocks of the live pointers, with the sizes recorded in their headers. -/
def liveBlocks (s : State) : Set (Word × Word) :=
  {block | ∃ alloc ∈ s.live, block =
    (alloc.ptr - sizeofMemBlock, (memBlock s.heap.mem (alloc.ptr - sizeofMemBlock)).size)}

def freeAll (ptrs : List Word) (heap : Heap) : Heap :=
  ptrs.foldl (fun heap ptr => kfree ptr heap) heap

/-! The list in memory. -/

theorem blockList_mono {memory : Mem} {current : Word} {list : List (Word × MemBlock)}
    {fuel more : Nat} (walked : blockList memory fuel current = some list) (enough : fuel ≤ more) :
    blockList memory more current = some list := by
  induction fuel generalizing current list more with
  | zero => simp [blockList] at walked
  | succ fuel ih =>
    obtain ⟨rest, same⟩ : ∃ rest, more = rest + 1 := ⟨more - 1, by omega⟩
    subst same
    by_cases stop : current = 0
    · rw [blockList, if_pos stop] at walked ⊢
      exact walked
    · rw [blockList, if_neg stop] at walked ⊢
      obtain ⟨tail, later, same⟩ := Option.map_eq_some_iff.mp walked
      rw [ih later (by omega), Option.map_some, same]

theorem Listed.unique {heap : Heap} {first second : List (Word × MemBlock)}
    (here : Listed heap first) (there : Listed heap second) : first = second := by
  obtain ⟨fuel, walked⟩ := here
  obtain ⟨more, also⟩ := there
  have longer := blockList_mono walked (Nat.le_max_left fuel more)
  rw [blockList_mono also (Nat.le_max_right fuel more)] at longer
  exact (Option.some.inj longer).symm

/-- The headers that a block list has when it is entered from `prev`. -/
def headers : Word → List Block → List (Word × MemBlock)
  | _, [] => []
  | prev, block :: rest =>
      (block.addr, block.header prev (headKey Block.addr rest 0)) :: headers block.addr rest

theorem blockList_segment {memory : Mem} {prev : Word} {blocks : List Block}
    (chained : Segment (memBlock memory) Block.addr Block.header prev blocks 0)
    (present : ∀ block ∈ blocks, block.addr ≠ 0) :
    blockList memory (blocks.length + 1) (headKey Block.addr blocks 0) =
      some (headers prev blocks) := by
  induction blocks generalizing prev with
  | nil => rfl
  | cons block rest ih =>
    obtain ⟨header, tail⟩ := chained
    have later := ih tail fun other member => present other (by simp [member])
    rw [List.length_cons, headKey, blockList, if_neg (present block (by simp)), header]
    change (blockList memory (rest.length + 1) (headKey Block.addr rest 0)).map _ = _
    rw [later]
    rfl

variable {heap : Heap} {blocks : List Block}

theorem listed (tiling : Tiling heap blocks) : Listed heap (headers 0 blocks) := by
  obtain ⟨first, rest, split, same⟩ := tiling.head
  have entry : heap.heapStart = headKey Block.addr blocks 0 := by
    rw [tiling.start, split]
    exact same.symm
  refine ⟨blocks.length + 1, ?_⟩
  rw [initHeap_tiled tiling, entry]
  exact blockList_segment tiling.layout.chained fun _ member => tiling.layout.addr_ne_zero member

theorem listed_initHeap (tiling : Tiling (initHeap heap) blocks) :
    Listed heap (headers 0 blocks) := by
  obtain ⟨fuel, walked⟩ := listed tiling
  rw [initHeap_tiled tiling] at walked
  exact ⟨fuel, walked⟩

/-! The used blocks determine the list. -/

theorem coalesced_apart (coalesced : Coalesced blocks) :
    blocks.IsChain fun first second => first.free = false ∨ second.free = false := by
  apply coalesced.imp
  intro first second apart
  cases free : first.free with
  | false => exact Or.inl rfl
  | true => exact Or.inr (Bool.eq_false_iff.mpr fun also => apart ⟨free, also⟩)

/-- Two tiled heaps with the same used blocks have the same blocks. -/
theorem blocks_unique {other : Heap} {others : List Block} (tiling : Tiling heap blocks)
    (also : Tiling other others)
    (same : ∀ block : Block, block.free = false → (block ∈ blocks ↔ block ∈ others)) :
    blocks = others := by
  apply tiling.layout.tiled.unique also.layout.tiled (fun block => Nat.lt_add_right _ (by decide))
    (coalesced_apart tiling.coalesced) (coalesced_apart also.coalesced) same
  intro first second free unused start length
  obtain ⟨addr, size, flag⟩ := first
  obtain ⟨place, room, mark⟩ := second
  simp only [Bool.not_eq_false] at free unused
  simp only [Block.start, Block.extent, Nat.add_left_cancel_iff] at start length
  rw [Block.mk.injEq]
  exact ⟨BitVec.eq_of_toNat_eq start, BitVec.eq_of_toNat_eq length, free.trans unused.symm⟩

/-- The used blocks of a state are its live blocks. -/
theorem mem_liveBlocks {s : State} (represented : Represented s)
    (tiling : Tiling (initHeap s.heap) blocks) (backed : Backed blocks s.live) {block : Block}
    (used : block.free = false) : block ∈ blocks ↔ (block.addr, block.size) ∈ liveBlocks s := by
  have back : ∀ addr : Word, addr + sizeofMemBlock - sizeofMemBlock = addr :=
    fun addr => BitVec.add_sub_cancel addr sizeofMemBlock
  rcases represented with ⟨_, empty⟩ | ⟨others, started, _⟩
  · constructor
    · intro member
      obtain ⟨alloc, inside, _⟩ := backed.alloc block member used
      rw [empty] at inside
      exact absurd inside List.not_mem_nil
    · rintro ⟨alloc, inside, _⟩
      rw [empty] at inside
      exact absurd inside List.not_mem_nil
  · rw [initHeap_tiled started] at tiling
    have recorded : ∀ home ∈ blocks, (memBlock s.heap.mem home.addr).size = home.size := by
      intro home member
      obtain ⟨before, after, split⟩ := List.append_of_mem member
      subst split
      exact tiling.layout.size_eq
    constructor
    · intro member
      obtain ⟨alloc, inside, ptr⟩ := backed.alloc block member used
      refine ⟨alloc, inside, ?_⟩
      rw [ptr, back, recorded block member]
    · rintro ⟨alloc, inside, same⟩
      obtain ⟨home, member, taken, ptr, _⟩ := backed.block alloc inside
      rw [ptr, back, recorded home member, Prod.mk.injEq] at same
      obtain ⟨addr, size, flag⟩ := block
      obtain ⟨place, room, mark⟩ := home
      simp only at same used taken
      rw [same.1, same.2, used, ← taken]
      exact member

/-! Frees. -/

/-- Freeing pointers of used blocks one after the other leaves the other used blocks. -/
theorem freeAll_used {ptrs : List Word} (tiling : Tiling heap blocks) (distinct : ptrs.Nodup)
    (held : ∀ ptr ∈ ptrs, ∃ block ∈ blocks, block.free = false ∧ ptr = block.addr + sizeofMemBlock) :
    ∃ rest, Tiling (freeAll ptrs heap) rest ∧ ∀ block : Block, block.free = false →
      (block ∈ rest ↔ block ∈ blocks ∧ block.addr + sizeofMemBlock ∉ ptrs) := by
  induction ptrs generalizing heap blocks with
  | nil => exact ⟨blocks, tiling, fun block _ => by simp⟩
  | cons ptr ptrs ih =>
    obtain ⟨block, member, _, place⟩ := held ptr (by simp)
    obtain ⟨before, after, split⟩ := List.append_of_mem member
    subst split
    obtain ⟨fresh, others⟩ := List.nodup_cons.mp distinct
    have kept : ∀ other : Block, other.free = false → (other ∈ release before block after ↔
        other ∈ before ++ block :: after ∧ other.addr ≠ block.addr) :=
      fun _ used => used_release tiling.layout used
    have freed : Tiling (kfree ptr heap) (release before block after) := place ▸ tiling.kfree
    obtain ⟨rest, tiled, remaining⟩ := ih freed others (by
      intro other later
      obtain ⟨home, inside, used, located⟩ := held other (by simp [later])
      refine ⟨home, (kept home used).mpr ⟨inside, fun same => fresh ?_⟩, used, located⟩
      rw [place, ← same, ← located]
      exact later)
    refine ⟨rest, tiled, fun other used => ?_⟩
    rw [remaining other used, kept other used, List.mem_cons, place, BitVec.add_left_inj]
    tauto

/-- The pointers that may be freed from a state: the live ones, each once. -/
structure Freeable (s : State) (ptrs : List Word) : Prop where
  distinct : ptrs.Nodup
  live : ∀ ptr ∈ ptrs, ∃ alloc ∈ s.live, alloc.ptr = ptr

theorem freeAll_represented {s : State} {ptrs : List Word} (represented : Represented s)
    (tiling : Tiling (initHeap s.heap) blocks) (backed : Backed blocks s.live)
    (freeable : Freeable s ptrs) :
    ∃ rest, Tiling (initHeap (freeAll ptrs s.heap)) rest ∧ ∀ block : Block, block.free = false →
      (block ∈ rest ↔ block ∈ blocks ∧ block.addr + sizeofMemBlock ∉ ptrs) := by
  rcases represented with ⟨_, empty⟩ | ⟨_, started, _⟩
  · have none : ptrs = [] := by
      apply List.eq_nil_iff_forall_not_mem.mpr
      intro ptr member
      obtain ⟨alloc, inside, _⟩ := freeable.live ptr member
      rw [empty] at inside
      exact List.not_mem_nil inside
    subst none
    exact ⟨blocks, tiling, fun block _ => by simp⟩
  · rw [initHeap_tiled started] at tiling
    obtain ⟨rest, tiled, remaining⟩ := freeAll_used tiling freeable.distinct (by
      intro ptr member
      obtain ⟨alloc, inside, same⟩ := freeable.live ptr member
      obtain ⟨block, home, used, place, _⟩ := backed.block alloc inside
      exact ⟨block, home, used, same.symm.trans place⟩)
    exact ⟨rest, (initHeap_tiled tiled).symm ▸ tiled, remaining⟩

/-- A request and the release of its result leave the used blocks as they were. -/
theorem kmalloc_kfree {s : State} {fuel : Nat} {size ptr : Word} {next : Heap}
    (represented : Represented s)
    (path : size ≠ 0 → size.toNat < 2 ^ 32 - 16 ∧ FindsHole s.heap size)
    (returned : kmalloc fuel size s.heap = .ok (ptr, next)) :
    ∃ blocks, Tiling (initHeap s.heap) blocks ∧ Tiling (kfree ptr next) blocks := by
  obtain ⟨blocks, tiling, backed⟩ := represented.initHeap
  refine ⟨blocks, tiling, ?_⟩
  by_cases zero : size = 0
  · subst zero
    obtain ⟨null, same⟩ := kmalloc_zero returned
    rw [null, same, kfree, if_pos rfl]
    exact tiling
  · obtain ⟨small, found⟩ := path zero
    obtain ⟨before, hole, after, split, free, room, first⟩ := found.split tiling small
    obtain ⟨samePtr, sameHeap⟩ := kmalloc_served tiling zero first returned
    subst split
    obtain ⟨taken, others, parts, sameAddr, used, unused, _⟩ := carve_used size hole
    have served := tiling.takeHole free room
    rw [parts, List.cons_append] at served
    have freed := served.kfree
    rw [sameAddr, ← sameHeap, ← samePtr] at freed
    have same : ∀ block : Block, block.free = false →
        (block ∈ release before taken (others ++ after) ↔ block ∈ before ++ hole :: after) := by
      intro block kept
      have notHole : block ≠ hole := fun same => by simp [same, free] at kept
      have notRest : block ∉ others := fun member => by simp [unused block member] at kept
      rw [mem_release_used kept]
      simp [notHole, notRest]
    exact blocks_unique freed tiling same ▸ freed

/-- The block list is determined by the live blocks alone. -/
structure Canonical (s : State) : Prop where
  determined : ∀ memory ops t, Runs HoleStep (start memory) ops t → liveBlocks s = liveBlocks t →
    ∃ list, Listed s.heap list ∧ Listed t.heap list
  /-- Frees in any two orders. -/
  reordered : ∀ ptrs others, Freeable s ptrs → others.Perm ptrs →
    ∃ list, Listed (freeAll ptrs s.heap) list ∧ Listed (freeAll others s.heap) list
  /-- A request and the release of its result. -/
  restored : ∀ fuel size ptr next, (size ≠ 0 → size.toNat < 2 ^ 32 - 16 ∧ FindsHole s.heap size) →
    kmalloc fuel size s.heap = .ok (ptr, next) →
    ∃ list, Listed s.heap list ∧ Listed (kfree ptr next) list
  /-- Nothing is live any more. -/
  emptied : ∀ ptrs, ptrs.Perm (s.live.map Alloc.ptr) →
    Listed (freeAll ptrs s.heap) [(KERNEL_HEAP_START,
      { size := KERNEL_HEAP_SIZE - sizeofMemBlock, next := 0, prev := 0, free := 1 })]

/-- Every state of the hole path is canonical. -/
theorem holeRun_canonical (memory : Mem) (ops : List Call) (s : State)
    (run : Runs HoleStep (start memory) ops s) : Canonical s := by
  have represented := holeRun_represented run
  apply Canonical.mk
  · intro memory ops t also equal
    have reached := holeRun_represented also
    obtain ⟨blocks, tiling, backed⟩ := represented.initHeap
    obtain ⟨others, tiled, backs⟩ := reached.initHeap
    have same : blocks = others := blocks_unique tiling tiled fun block used => by
      rw [mem_liveBlocks represented tiling backed used, equal,
        ← mem_liveBlocks reached tiled backs used]
    exact ⟨_, listed_initHeap tiling, same ▸ listed_initHeap tiled⟩
  · intro ptrs others freeable permuted
    have also : Freeable s others := ⟨permuted.nodup_iff.mpr freeable.distinct,
      fun ptr member => freeable.live ptr (permuted.mem_iff.mp member)⟩
    obtain ⟨blocks, tiling, backed⟩ := represented.initHeap
    obtain ⟨rest, tiled, remaining⟩ := freeAll_represented represented tiling backed freeable
    obtain ⟨last, second, left⟩ := freeAll_represented represented tiling backed also
    have same : rest = last := blocks_unique tiled second fun block used => by
      rw [remaining block used, left block used, permuted.mem_iff]
    exact ⟨_, listed_initHeap tiled, same ▸ listed_initHeap second⟩
  · intro fuel size ptr next path returned
    obtain ⟨blocks, tiling, restored⟩ := kmalloc_kfree represented path returned
    exact ⟨_, listed_initHeap tiling, listed restored⟩
  · intro ptrs permuted
    obtain ⟨blocks, tiling, backed⟩ := represented.initHeap
    have freeable : Freeable s ptrs := by
      refine ⟨permuted.nodup_iff.mpr backed.distinct, fun ptr member => ?_⟩
      exact List.mem_map.mp (permuted.mem_iff.mp member)
    obtain ⟨rest, tiled, remaining⟩ := freeAll_represented represented tiling backed freeable
    have initial : Tiling (initHeap (uninitialised memory)) _ := initHeap_tiling rfl
    have single : rest = _ := blocks_unique tiled initial fun block used => by
      rw [remaining block used]
      constructor
      · rintro ⟨member, kept⟩
        obtain ⟨alloc, inside, ptr⟩ := backed.alloc block member used
        rw [← ptr, permuted.mem_iff] at kept
        exact absurd (List.mem_map_of_mem inside) kept
      · intro member
        rw [List.mem_singleton.mp member] at used
        exact absurd used Bool.noConfusion
    have list := listed_initHeap tiled
    rw [single] at list
    exact list

/-- Two requests over zeroed memory, and the release of the first. -/
theorem holeRun_canonical_requests :
    ∃ s, Runs HoleStep (start fun _ => 0) [.kmalloc 64, .kmalloc 32, .kfree 0xD0000010] s ∧
      s.live = [⟨0xD0000060, 32⟩] ∧ Canonical s := by
  have thrice : ((call 2 (start fun _ => 0) (.kmalloc 64)).bind fun s =>
      (call 3 s (.kmalloc 32)).bind fun t => (call 0 t (.kfree 0xD0000010)).map fun u =>
        (mmFindSmallestHole (initHeap s.heap).mem (32 + sizeofMemBlock) 3 (initHeap s.heap).heapStart, u.live)) =
      some (some (some 0xD0000050), [⟨0xD0000060, 32⟩]) := by decide +kernel
  obtain ⟨s, first, rest⟩ := Option.bind_eq_some_iff.mp thrice
  obtain ⟨t, second, rest⟩ := Option.bind_eq_some_iff.mp rest
  obtain ⟨u, third, same⟩ := Option.map_eq_some_iff.mp rest
  obtain ⟨found, live⟩ := Prod.mk.inj same
  have middle : HoleStep s (.kmalloc 32) t := by
    refine ⟨⟨3, second⟩, fun size same _ => ?_⟩
    cases same
    exact ⟨by decide, 3, _, found⟩
  have last : HoleStep t (.kfree 0xD0000010) u := ⟨⟨0, third⟩, nofun⟩
  have run := Runs.next (holeStep_fresh first (by decide) (by decide)) (Runs.next middle (Runs.next last (Runs.done u)))
  exact ⟨u, run, live, holeRun_canonical (fun _ => 0) _ u run⟩

end Vaelen.Kernel.KmallocCanonical
