import Vaelen.Kernel.KmallocRuns

/-!
The bytes the allocator leaves alone: everything outside the heap, and the payloads of
its used blocks. A request that a hole serves writes nowhere else, and the payload it
returns becomes one of them.
-/

namespace Vaelen.Kernel.KmallocKept
open Vaelen.Base Platform Kmalloc KmallocBlocks KmallocTiling KmallocRuns

/-- The bytes of a block that the allocator may write: a free block belongs to it as a whole. -/
def reserved (block : Block) : Nat := if block.free then 16 + block.size.toNat else 16

def Kept (blocks : List Block) (x : Word) : Prop :=
  ∀ block ∈ blocks, ¬Within block.addr (reserved block) x

theorem reserved_free {block : Block} (free : block.free = true) :
    reserved block = 16 + block.size.toNat := if_pos free

theorem reserved_le (block : Block) : reserved block ≤ 16 + block.size.toNat := by
  unfold reserved
  split
  · exact Nat.le_refl _
  · omega

theorem header_reserved (block : Block) : 16 ≤ reserved block := by
  unfold reserved
  split
  · omega
  · exact Nat.le_refl 16

variable {blocks before after : List Block} {block hole : Block} {x size : Word}

theorem Kept.header (kept : Kept blocks x) (member : block ∈ blocks) : ¬Within block.addr 16 x :=
  fun inside => kept block member (Nat.lt_of_lt_of_le inside (header_reserved block))

/-- No header of the list holds the byte. -/
def OutsideHeaders (blocks : List Block) (x : Word) : Prop :=
  ∀ block ∈ blocks, ¬Within block.addr 16 x

theorem Kept.outsideHeaders (kept : Kept blocks x) : OutsideHeaders blocks x :=
  fun _ member => kept.header member

/-- Only the addresses of the blocks count. -/
theorem OutsideHeaders.subset {more : List Block} (outside : OutsideHeaders blocks x)
    (fewer : more.map Block.addr ⊆ blocks.map Block.addr) : OutsideHeaders more x := by
  intro block member
  obtain ⟨other, listed, same⟩ := List.mem_map.mp (fewer (List.mem_map_of_mem member))
  rw [← same]
  exact outside other listed

theorem OutsideHeaders.next {memory : Mem} (outside : OutsideHeaders (before ++ block :: after) x)
    (layout : Layout memory (before ++ block :: after))
    (present : (memBlock memory block.addr).next ≠ 0) :
    ¬Within (memBlock memory block.addr).next 16 x := by
  obtain ⟨next, later, same⟩ := layout.next_listed present
  rw [same]
  exact outside next (List.mem_append_right _ (List.mem_cons_of_mem _ later))

/-! The stores of a served request. -/

section stores
variable {memory : Mem} {address value : Word}

theorem store_header_outside (offset : Word) (field : offset.toNat + 4 ≤ 16)
    (outside : ¬Within address 16 x) : store32 memory (address + offset) value x = memory x :=
  store32_outside fun inside => outside (within_sub offset field inside)

theorem setSize_outside (outside : ¬Within address 16 x) : setSize memory address value x = memory x :=
  store32_outside fun inside => outside (Nat.lt_of_lt_of_le inside (by decide))

theorem setNext_outside (outside : ¬Within address 16 x) : setNext memory address value x = memory x :=
  store_header_outside 4 (by decide) outside

theorem setPrev_outside (outside : ¬Within address 16 x) : setPrev memory address value x = memory x :=
  store_header_outside 8 (by decide) outside

theorem setFree_outside (outside : ¬Within address 16 x) : setFree memory address value x = memory x :=
  store_header_outside 12 (by decide) outside

theorem initHeap_outside {heap : Heap} (outside : ¬Within KERNEL_HEAP_START 16 x) :
    (initHeap heap).mem x = heap.mem x := by
  unfold initHeap
  by_cases fresh : heap.heapStart = 0
  · rw [if_pos fresh]
    change setPrev _ KERNEL_HEAP_START 0 x = heap.mem x
    rw [setPrev_outside outside, setNext_outside outside, setFree_outside outside,
      setSize_outside outside]
  · rw [if_neg fresh]

/-- A split writes into three headers: the hole's, its rest's and their successor's. -/
theorem splitHole_outside (inner : Spaced (address + sizeofMemBlock + size) address)
    (atHole : ¬Within address 16 x) (atRest : ¬Within (address + sizeofMemBlock + size) 16 x)
    (atNext : (memBlock memory address).next ≠ 0 → ¬Within (memBlock memory address).next 16 x) :
    splitHole memory address size x = memory x := by
  unfold splitHole
  simp only [memBlock_setSize_spaced inner, memBlock_setFree_spaced inner,
    memBlock_setNext_spaced inner, memBlock_setPrev_spaced inner]
  rw [setSize_outside atHole, setNext_outside atHole]
  by_cases stop : (memBlock memory address).next = 0
  · rw [if_neg (fun present => present stop), setPrev_outside atRest, setNext_outside atRest,
      setFree_outside atRest, setSize_outside atRest]
  · rw [if_pos stop, setPrev_outside (atNext stop), setPrev_outside atRest,
      setNext_outside atRest, setFree_outside atRest, setSize_outside atRest]

end stores

/-- The rest that is split off a hole lies in it. -/
theorem within_rest {length : Nat} (room : size.toNat + 16 ≤ hole.size.toNat)
    (short : length ≤ hole.size.toNat - size.toNat)
    (inside : Within (hole.addr + sizeofMemBlock + size) length x) :
    Within hole.addr (16 + hole.size.toNat) x := by
  unfold Within at *
  bv_omega

/-- Serving a request changes no kept byte. -/
theorem takeHole_same {heap : Heap} (layout : Layout heap.mem (before ++ hole :: after))
    (free : hole.free = true) (room : size.toNat + 16 ≤ hole.size.toNat)
    (kept : Kept (before ++ hole :: after) x) :
    (takeHole size 0 hole.addr heap).2.mem x = heap.mem x := by
  have bound := layout.inside
  have member : hole ∈ before ++ hole :: after := List.mem_append_right _ List.mem_cons_self
  simp only [takeHole, storePhys, ne_eq, not_true_eq_false, if_false, layout.size_eq]
  rw [setFree_outside (kept.header member)]
  by_cases split : size + sizeofMemBlock + 8 ≤ hole.size
  · rw [if_pos split]
    have larger := (layout.splits_iff room).mp split
    have restStart := layout.rest_start room
    apply splitHole_outside
    · exact (spaced_of_le (by omega) (by omega)).symm
    · exact kept.header member
    · intro inside
      apply kept hole member
      rw [reserved_free free]
      exact within_rest (by omega) (by omega) inside
    · exact kept.outsideHeaders.next layout
  · rw [if_neg split]

/-! The stores of a release. -/

theorem joinBlocks_outside {memory : Mem} {first second : Word} (atFirst : ¬Within first 16 x)
    (atNext : (memBlock memory second).next ≠ 0 → ¬Within (memBlock memory second).next 16 x) :
    joinBlocks memory first second x = memory x := by
  unfold joinBlocks
  by_cases stop : (memBlock memory second).next = 0
  · rw [if_neg fun present => present stop, setNext_outside atFirst, setSize_outside atFirst]
  · rw [if_pos stop, setPrev_outside (atNext stop), setNext_outside atFirst, setSize_outside atFirst]

theorem mergeBackward_same {memory : Mem} (layout : Layout memory (before ++ block :: after))
    (outside : OutsideHeaders (before ++ block :: after) x) :
    (mergeBackward memory block.addr).1 x = memory x := by
  have prevEq := layout.prev_eq
  rcases List.eq_nil_or_concat before with empty | ⟨kept, prev, split⟩
  · subst empty
    have stop : (memBlock memory block.addr).prev = 0 := prevEq
    simp only [mergeBackward, stop, ne_eq, not_true_eq_false, false_and, if_false]
  · rw [List.concat_eq_append] at split
    subst split
    have here : (memBlock memory block.addr).prev = prev.addr := by
      rw [prevEq, lastKey_append]
      rfl
    have shifted : Layout memory (kept ++ prev :: block :: after) := by simpa using layout
    rw [mergeBackward_eq (here ▸ shifted.spaced_after (by simp))
      (fun present => (layout.next_spaced present).symm), here]
    split
    · exact joinBlocks_outside (outside prev (by simp)) (outside.next layout)
    · rfl

theorem mergeForward_same {memory : Mem} (layout : Layout memory (before ++ block :: after))
    (outside : OutsideHeaders (before ++ block :: after) x) :
    mergeForward memory block.addr x = memory x := by
  rw [mergeForward_eq layout.next_spaced]
  split
  · next both =>
    rw [layout.next_eq] at both ⊢
    cases after with
    | nil => exact absurd rfl both.1
    | cons next rest =>
      have around : Layout memory ((before ++ [block]) ++ next :: rest) := by simpa using layout
      have also : OutsideHeaders ((before ++ [block]) ++ next :: rest) x := by simpa using outside
      exact joinBlocks_outside (outside block (by simp)) (also.next around)
  · rfl

theorem OutsideHeaders.absorbBefore (outside : OutsideHeaders (before ++ block :: after) x) :
    OutsideHeaders ((absorbBefore before block).1 ++ (absorbBefore before block).2 :: after) x := by
  rcases List.eq_nil_or_concat before with empty | ⟨kept, prev, split⟩
  · subst empty
    exact outside
  · rw [List.concat_eq_append] at split
    subst split
    simp only [KmallocBlocks.absorbBefore, List.getLast?_append, List.getLast?_singleton,
      Option.some_or, List.dropLast_concat]
    by_cases free : prev.free = true
    · rw [if_pos free]
      apply outside.subset
      intro addr member
      simp only [List.map_append, List.map_cons, List.mem_append, List.mem_cons] at member ⊢
      tauto
    · rw [if_neg free]
      exact outside

/-- Freeing a block writes nothing but headers of the list. -/
theorem kfree_same {heap : Heap} (layout : Layout heap.mem (before ++ block :: after))
    (outside : OutsideHeaders (before ++ block :: after) x) :
    (kfree (block.addr + sizeofMemBlock) heap).mem x = heap.mem x := by
  have bound := layout.inside
  have present : block.addr + sizeofMemBlock ≠ 0 := by bv_omega
  have back : block.addr + sizeofMemBlock - sizeofMemBlock = block.addr := BitVec.add_sub_cancel _ _
  have freed : Layout (setFree heap.mem block.addr 1) (before ++ { block with free := true } :: after) :=
    layout.setFree true
  have same : OutsideHeaders (before ++ { block with free := true } :: after) x := by
    apply outside.subset
    rw [List.map_append, List.map_append]
    exact List.Subset.refl _
  obtain ⟨merged, joined⟩ := freed.mergeBackward
  simp only [kfree, if_neg present, back]
  rw [show (mergeBackward (setFree heap.mem block.addr 1) block.addr).2 = _ from merged,
    mergeForward_same joined same.absorbBefore]
  exact (mergeBackward_same freed same).trans (setFree_outside (outside block (by simp)))

/-! The kept bytes after a served request. -/

/-- Both parts of a carved hole lie in it. -/
theorem reserved_carve (room : size.toNat + 16 ≤ hole.size.toNat) {part : Block}
    (member : part ∈ carve size hole) (inside : Within part.addr (reserved part) x) :
    Within hole.addr (16 + hole.size.toNat) x := by
  unfold carve at member
  split at member
  · next split =>
    simp only [List.mem_cons, List.not_mem_nil, or_false] at member
    rcases member with taken | rest
    · subst taken
      exact Nat.lt_of_lt_of_le inside (by simp [reserved])
    · subst rest
      apply within_rest room _ inside
      rw [reserved_free rfl]
      bv_omega
  · simp only [List.mem_singleton] at member
    subst member
    exact Nat.lt_of_lt_of_le inside (by simp [reserved])

theorem Kept.carve (kept : Kept (before ++ hole :: after) x) (free : hole.free = true)
    (room : size.toNat + 16 ≤ hole.size.toNat) : Kept (before ++ (carve size hole ++ after)) x := by
  intro block member inside
  rcases List.mem_append.mp member with early | later
  · exact kept block (List.mem_append_left _ early) inside
  · rcases List.mem_append.mp later with part | late
    · apply kept hole (List.mem_append_right _ List.mem_cons_self)
      rw [reserved_free free]
      exact reserved_carve room part inside
    · exact kept block (List.mem_append_right _ (List.mem_cons_of_mem _ late)) inside

/-- The payload of a served request is new among the kept bytes. -/
theorem payload_not_kept (free : hole.free = true) (room : size.toNat + 16 ≤ hole.size.toNat)
    (inside : Within (hole.addr + sizeofMemBlock) size.toNat x) :
    ¬Kept (before ++ hole :: after) x := by
  intro kept
  apply kept hole (List.mem_append_right _ List.mem_cons_self)
  rw [reserved_free free]
  unfold Within at *
  bv_omega

theorem payload_kept {memory : Mem} (layout : Layout memory (before ++ hole :: after))
    (room : size.toNat + 16 ≤ hole.size.toNat)
    (inside : Within (hole.addr + sizeofMemBlock) size.toNat x) :
    Kept (before ++ (carve size hole ++ after)) x := by
  have bound := layout.inside
  have position : hole.addr.toNat + 16 ≤ x.toNat ∧ x.toNat < hole.addr.toNat + 16 + size.toNat := by
    unfold Within at inside
    bv_omega
  intro block member
  have short := reserved_le block
  rcases List.mem_append.mp member with early | later
  · have order := layout.before_end early
    exact not_within (by omega) (by omega)
  · rcases List.mem_append.mp later with part | late
    · unfold carve at part
      split at part
      · next split =>
        simp only [List.mem_cons, List.not_mem_nil, or_false] at part
        rcases part with taken | rest
        · subst taken
          exact not_within (by simp [reserved]; omega) (by simp [reserved]; omega)
        · have restStart : block.addr.toNat = hole.addr.toNat + 16 + size.toNat := by
            rw [rest]
            bv_omega
          have restSize : block.size.toNat + size.toNat + 16 = hole.size.toNat := by
            rw [rest]
            bv_omega
          exact not_within (by omega) (by omega)
      · simp only [List.mem_singleton] at part
        subst part
        exact not_within (by simp [reserved]; omega) (by simp [reserved]; omega)
    · have order := layout.after_start late
      have limit := layout.inside_after late
      exact not_within (by omega) (by omega)

/-- The payload of a used block. -/
theorem used_kept {memory : Mem} (layout : Layout memory blocks) (member : block ∈ blocks)
    (used : block.free = false)
    (inside : Within (block.addr + sizeofMemBlock) block.size.toNat x) : Kept blocks x := by
  have bound := layout.bounds member
  have position : block.addr.toNat + 16 ≤ x.toNat ∧
      x.toNat < block.addr.toNat + 16 + block.size.toNat := by
    unfold Within at inside
    bv_omega
  intro other also
  have limit := layout.bounds also
  have short := reserved_le other
  by_cases here : other.addr = block.addr
  · have same : reserved other = 16 := by
      rw [layout.addr_injective member also here, reserved, used]
      rfl
    rw [same, here]
    exact not_within (by omega) (by omega)
  · have order := layout.separate member also here
    exact not_within (by omega) (by omega)

theorem below_heap {base : Word} {count : Nat} (below : base.toNat + count ≤ 0xD0000000)
    (inside : Within base count x) : ¬Within KERNEL_HEAP_START KERNEL_HEAP_SIZE.toNat x := by
  have start : KERNEL_HEAP_START.toNat = 0xD0000000 := rfl
  apply not_within (by decide)
  unfold Within at inside
  bv_omega

theorem outside_kept {memory : Mem} (layout : Layout memory blocks)
    (outside : ¬Within KERNEL_HEAP_START KERNEL_HEAP_SIZE.toNat x) : Kept blocks x := by
  intro block member inside
  have bound := layout.bounds member
  have short := reserved_le block
  apply outside
  unfold Within at *
  bv_omega

/-- The first call writes the header of the first block. -/
theorem initHeap_same {heap : Heap} (tiling : Tiling (initHeap heap) blocks)
    (kept : Kept blocks x) : (initHeap heap).mem x = heap.mem x := by
  obtain ⟨first, rest, split, addr⟩ := tiling.head
  apply initHeap_outside
  rw [← addr]
  exact kept.header (split ▸ List.mem_cons_self)

/-- The list and its tiling depend on no kept byte. -/
theorem tiling_congr {heap : Heap} {memory : Mem} (tiling : Tiling heap blocks)
    (same : SameOutside (Kept blocks) heap.mem memory) :
    Tiling { heap with mem := memory } blocks := by
  have started : ({ heap with mem := memory } : Heap).heapStart = KERNEL_HEAP_START := tiling.start
  apply Tiling.mk started _ tiling.coalesced
  apply Layout.mk _ tiling.layout.tiled
  apply tiling.layout.chained.congr
  intro block member
  apply memBlock_congr
  intro x inside
  exact same x fun kept => kept.header member inside

/-! Requests from a heap with room for them. -/

def Room (blocks : List Block) (bytes : Nat) : Prop :=
  ∃ block ∈ blocks, block.free = true ∧ bytes ≤ block.size.toNat

theorem Room.find {bytes : Nat} (room : Room blocks bytes) (fitting : size.toNat + 16 ≤ bytes) :
    ∃ hole, blocks.find? (fits (size + sizeofMemBlock)) = some hole := by
  obtain ⟨block, member, free, large⟩ := room
  apply Option.isSome_iff_exists.mp
  apply List.find?_isSome.mpr
  refine ⟨block, member, ?_⟩
  have enough : size + sizeofMemBlock ≤ block.size := by bv_omega
  rw [KmallocTiling.fits, free, decide_eq_true enough]
  rfl

/-- A request leaves the rest of the room, whichever hole serves it. -/
theorem Room.carve {bytes : Nat} (room : Room (before ++ hole :: after) (bytes + (size.toNat + 16)))
    (spare : 8 ≤ bytes) : Room (before ++ (carve size hole ++ after)) bytes := by
  obtain ⟨block, member, free, large⟩ := room
  rcases List.mem_append.mp member with early | later
  · exact ⟨block, List.mem_append_left _ early, free, by omega⟩
  · rcases List.mem_cons.mp later with here | late
    · subst here
      have split : size + sizeofMemBlock + 8 ≤ block.size := by bv_omega
      let rest : Block :=
        { addr := block.addr + sizeofMemBlock + size
          size := block.size - size - sizeofMemBlock
          free := true }
      have large : bytes ≤ rest.size.toNat := by
        change bytes ≤ (block.size - size - sizeofMemBlock).toNat
        bv_omega
      refine ⟨rest, ?_, rfl, large⟩
      apply List.mem_append_right
      apply List.mem_append_left
      rw [KmallocBlocks.carve, if_pos split]
      exact List.mem_cons_of_mem _ List.mem_cons_self
    · exact ⟨block, by simp [late], free, by omega⟩

/-- What a request served by a hole gives its caller. -/
structure Served (heap : Heap) (blocks : List Block) (size phys ptr : Word) (next : Heap)
    (rest : List Block) : Prop where
  tiling : Tiling next rest
  kept : ∀ x, Kept blocks x → Kept rest x
  payload : ∀ x, Within ptr size.toNat x → Kept rest x ∧ ¬Kept blocks x
  low : 0xD0000000 ≤ ptr.toNat
  high : ptr.toNat + size.toNat ≤ 0xD1000000
  same : ∀ x, Kept blocks x → (phys ≠ 0 → ¬Within phys 4 x) → next.mem x = heap.mem x
  stored : phys ≠ 0 → load32 next.mem phys = ptr
  length : rest.length ≤ blocks.length + 1

theorem takeHole_phys (heap : Heap) (size phys hole : Word) :
    (takeHole size phys hole heap).2 =
      { (takeHole size 0 hole heap).2 with
        mem := storePhys (takeHole size 0 hole heap).2.mem phys (hole + sizeofMemBlock) } := rfl

theorem storePhys_same {memory : Mem} {phys value : Word}
    (outside : phys ≠ 0 → ¬Within phys 4 x) : storePhys memory phys value x = memory x := by
  unfold storePhys
  by_cases null : phys = 0
  · rw [if_neg fun present => present null]
  · rw [if_pos null, store32_outside (outside null)]

theorem takeHole_served {heap : Heap} {phys : Word} (tiling : Tiling heap (before ++ hole :: after))
    (free : hole.free = true) (room : size.toNat + 16 ≤ hole.size.toNat)
    (harmless : phys ≠ 0 → ∀ x, Within phys 4 x → Kept (before ++ hole :: after) x) :
    Served heap (before ++ hole :: after) size phys (hole.addr + sizeofMemBlock)
      (takeHole size phys hole.addr heap).2 (before ++ (carve size hole ++ after)) := by
  have bound := tiling.layout.inside
  have start : (hole.addr + sizeofMemBlock).toNat = hole.addr.toNat + 16 := by bv_omega
  have kept : ∀ x, Kept (before ++ hole :: after) x → Kept (before ++ (carve size hole ++ after)) x :=
    fun x inside => inside.carve free room
  rw [takeHole_phys]
  apply Served.mk
  · apply tiling_congr (tiling.takeHole free room)
    intro x outside
    exact storePhys_same fun present inside => outside (kept x (harmless present x inside))
  · exact kept
  · intro x inside
    exact ⟨payload_kept tiling.layout room inside, payload_not_kept free room inside⟩
  · omega
  · omega
  · intro x inside elsewhere
    exact (storePhys_same elsewhere).trans (takeHole_same tiling.layout free room inside)
  · intro present
    simp only [storePhys, if_pos present, load32_store32]
  · unfold carve
    split
    · simp only [List.length_append, List.length_cons, List.length_nil]
      omega
    · simp only [List.length_append, List.length_cons, List.length_nil]
      omega

/-- A request served by the first hole that fits, with the list it leaves. -/
theorem kmallocAp_carve (before after : List Block) (hole : Block) (size : Word) {heap : Heap}
    {phys : Word} {fuel : Nat} (tiling : Tiling heap (before ++ hole :: after)) (nonzero : size ≠ 0)
    (first : (before ++ hole :: after).find? (fits (size + sizeofMemBlock)) = some hole)
    (wide : size.toNat + 16 < 2 ^ 32)
    (harmless : phys ≠ 0 → ∀ x, Within phys 4 x → Kept (before ++ hole :: after) x)
    (enough : (before ++ hole :: after).length < fuel) {parts : List Block} (carved : carve size hole = parts) :
    ∃ next, kmallocAp fuel size phys heap = .ok (hole.addr + sizeofMemBlock, next) ∧
      Served heap (before ++ hole :: after) size phys (hole.addr + sizeofMemBlock) next
        (before ++ (parts ++ after)) := by
  subst carved
  have found := tiling.search_within (size + sizeofMemBlock) enough
  rw [first] at found
  have passes := List.find?_some first
  rw [KmallocTiling.fits, Bool.and_eq_true, decide_eq_true_eq] at passes
  have fitting : size.toNat + 16 ≤ hole.size.toNat := by
    have large := passes.2
    bv_omega
  refine ⟨_, ?_, takeHole_served tiling passes.1 fitting harmless⟩
  simp only [kmallocAp, initHeap_tiled tiling, if_neg nonzero, found, Option.map_some]
  rfl

/-- Every request that the heap has room for returns, and leaves the rest of the room. -/
theorem kmallocAp_served {heap : Heap} {phys : Word} {bytes fuel : Nat} (tiling : Tiling heap blocks)
    (nonzero : size ≠ 0) (room : Room blocks (bytes + (size.toNat + 16))) (spare : 8 ≤ bytes)
    (harmless : phys ≠ 0 → ∀ x, Within phys 4 x → Kept blocks x) (enough : blocks.length < fuel) :
    ∃ ptr next rest, kmallocAp fuel size phys heap = .ok (ptr, next) ∧
      Served heap blocks size phys ptr next rest ∧ Room rest bytes := by
  obtain ⟨hole, first⟩ := room.find (Nat.le_add_left _ _)
  obtain ⟨before, after, split, _, _⟩ := find_split first
  have wide : size.toNat + 16 < 2 ^ 32 := by
    obtain ⟨block, _, _, limit⟩ := room
    have top := block.size.isLt
    omega
  subst split
  obtain ⟨next, returned, served⟩ :=
    kmallocAp_carve before after hole size tiling nonzero first wide harmless enough rfl
  exact ⟨_, next, _, returned, served, room.carve spare⟩

/-- More fuel does not change what a request returns. -/
theorem kmallocAp_mono (heap : Heap) (size phys : Word) {fuel more : Nat} (enough : fuel ≤ more) :
    kmallocAp fuel size phys heap = .error .running ∨
      kmallocAp fuel size phys heap = kmallocAp more size phys heap := by
  by_cases zero : size = 0
  · right
    simp only [kmallocAp, if_pos zero]
  · simp only [kmallocAp, if_neg zero]
    cases found : mmFindSmallestHole (initHeap heap).mem (size + sizeofMemBlock) fuel
        (initHeap heap).heapStart with
    | none => exact Or.inl rfl
    | some result =>
      rw [mmFindSmallestHole_mono found enough]
      exact Or.inr rfl

/-- A request that the heap has room for, whatever the fuel. -/
theorem kmallocAp_cases {heap : Heap} {phys : Word} {bytes : Nat} (fuel : Nat)
    (tiling : Tiling heap blocks) (nonzero : size ≠ 0) (room : Room blocks (bytes + (size.toNat + 16)))
    (spare : 8 ≤ bytes) (harmless : phys ≠ 0 → ∀ x, Within phys 4 x → Kept blocks x) :
    (kmallocAp fuel size phys heap = .error .running ∧ fuel ≤ blocks.length) ∨
      ∃ ptr next rest, kmallocAp fuel size phys heap = .ok (ptr, next) ∧
        Served heap blocks size phys ptr next rest ∧ Room rest bytes := by
  by_cases enough : blocks.length < fuel
  · exact Or.inr (kmallocAp_served tiling nonzero room spare harmless enough)
  · have later : fuel ≤ blocks.length + 1 := by omega
    rcases kmallocAp_mono heap size phys later with running | same
    · exact Or.inl ⟨running, Nat.le_of_not_lt enough⟩
    · rw [same]
      exact Or.inr (kmallocAp_served tiling nonzero room spare harmless (Nat.lt_succ_self _))

theorem kmallocAp_initHeap (fuel : Nat) (size phys : Word) (heap : Heap) :
    kmallocAp fuel size phys (initHeap heap) = kmallocAp fuel size phys heap := by
  unfold kmallocAp
  rw [initHeap_initHeap]

end Vaelen.Kernel.KmallocKept
