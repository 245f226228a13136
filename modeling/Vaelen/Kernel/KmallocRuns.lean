import Vaelen.Base.Runs
import Vaelen.Kernel.KmallocTiling

/-!
Runs of kmalloc and kfree from the uninitialised heap, with the set of live
allocations. Every request that a hole serves keeps the tiling; the fallback to
heap_placement lays a block over the first one of the heap.
-/

namespace Vaelen.Kernel.KmallocRuns
open Vaelen.Base Platform Kmalloc KmallocBlocks KmallocTiling

/-- A pointer kmalloc returned that has not been freed, with the size that was asked for. -/
structure Alloc where
  ptr : Word
  size : Word
  deriving DecidableEq, Repr

/-- The addresses of the header and the requested payload, in exact integers. -/
def Alloc.region (alloc : Alloc) : Set Nat :=
  Set.Ico (alloc.ptr.toNat - sizeofMemBlock.toNat) (alloc.ptr.toNat + alloc.size.toNat)

structure State where
  heap : Heap
  live : List Alloc

inductive Call where
  | kmalloc (size : Word)
  | kfree (ptr : Word)

def start (memory : Mem) : State := { heap := uninitialised memory, live := [] }

/-- One call that returns. A pointer is freed only while it is live. -/
def call (fuel : Nat) (s : State) : Call → Option State
  | .kmalloc size =>
      match kmalloc fuel size s.heap with
      | .ok (ptr, heap) =>
          some { heap := heap, live := if ptr = 0 then s.live else ⟨ptr, size⟩ :: s.live }
      | .error _ => none
  | .kfree ptr =>
      if ∃ alloc ∈ s.live, alloc.ptr = ptr then
        some { heap := kfree ptr s.heap, live := s.live.eraseP fun alloc => alloc.ptr = ptr }
      else none

def Step (s : State) (op : Call) (t : State) : Prop := ∃ fuel, call fuel s op = some t

/-- mm_find_smallest_hole returns 1 for a request of this size. -/
def FindsHole (heap : Heap) (size : Word) : Prop :=
  ∃ fuel hole, mmFindSmallestHole (initHeap heap).mem (size + sizeofMemBlock) fuel
    (initHeap heap).heapStart = some (some hole)

/-- A step of the hole path: no request wraps, and every non-zero request finds a hole. -/
def HoleStep (s : State) (op : Call) (t : State) : Prop :=
  Step s op t ∧ ∀ size, op = .kmalloc size → size ≠ 0 →
    size.toNat < 2 ^ 32 - 16 ∧ FindsHole s.heap size

/-- The used blocks are exactly the live allocations, each at least as large as requested. -/
structure Backed (blocks : List Block) (live : List Alloc) : Prop where
  block : ∀ alloc ∈ live, ∃ block ∈ blocks, block.free = false ∧
    alloc.ptr = block.addr + sizeofMemBlock ∧ alloc.size ≤ block.size
  alloc : ∀ block ∈ blocks, block.free = false →
    ∃ alloc ∈ live, alloc.ptr = block.addr + sizeofMemBlock
  distinct : (live.map Alloc.ptr).Nodup

/-- The tiled states, and the state before the first call. -/
def Represented (s : State) : Prop :=
  (s.heap.heapStart = 0 ∧ s.live = []) ∨ ∃ blocks, Tiling s.heap blocks ∧ Backed blocks s.live

theorem backed_initial (addr size : Word) :
    Backed [{ addr := addr, size := size, free := true }] [] := by
  refine ⟨by simp, ?_, List.nodup_nil⟩
  intro block member used
  simp only [List.mem_singleton] at member
  subst member
  exact absurd used Bool.noConfusion

/-- The first step of every kmalloc leaves a tiled heap. -/
theorem Represented.initHeap {s : State} (represented : Represented s) :
    ∃ blocks, Tiling (initHeap s.heap) blocks ∧ Backed blocks s.live := by
  rcases represented with ⟨fresh, empty⟩ | ⟨blocks, tiling, backed⟩
  · exact ⟨_, initHeap_tiling fresh, empty ▸ backed_initial _ _⟩
  · exact ⟨blocks, (initHeap_tiled tiling).symm ▸ tiling, backed⟩

theorem findsHole_iff {heap : Heap} {blocks : List Block} (tiling : Tiling (initHeap heap) blocks)
    (size : Word) :
    FindsHole heap size ↔ ∃ hole, blocks.find? (fits (size + sizeofMemBlock)) = some hole := by
  constructor
  · rintro ⟨fuel, addr, hit⟩
    have same := tiling.search hit
    cases first : blocks.find? (fits (size + sizeofMemBlock)) with
    | none =>
      rw [first] at same
      exact absurd same (by simp)
    | some hole => exact ⟨hole, rfl⟩
  · rintro ⟨hole, first⟩
    have hit := tiling.search_within (size + sizeofMemBlock) (Nat.lt_succ_self _)
    rw [first] at hit
    exact ⟨_, hole.addr, hit⟩

theorem findsHole_fresh {heap : Heap} {size : Word} (fresh : heap.heapStart = 0)
    (fitting : size + sizeofMemBlock ≤ KERNEL_HEAP_SIZE - sizeofMemBlock) : FindsHole heap size :=
  ⟨2, KERNEL_HEAP_START, search_fresh fresh fitting⟩

theorem FindsHole.split {s : State} {size : Word} (found : FindsHole s.heap size)
    {blocks : List Block} (tiling : Tiling (initHeap s.heap) blocks)
    (small : size.toNat < 2 ^ 32 - 16) :
    ∃ before hole after, blocks = before ++ hole :: after ∧ hole.free = true ∧
      size.toNat + 16 ≤ hole.size.toNat ∧
      blocks.find? (fits (size + sizeofMemBlock)) = some hole := by
  obtain ⟨hole, first⟩ := (findsHole_iff tiling size).mp found
  obtain ⟨before, after, split, free, room⟩ := find_split first
  exact ⟨before, hole, after, split, free, by bv_omega, first⟩

/-- A request served by a hole, as one equation. -/
theorem kmallocAp_returned {fuel : Nat} {heap next : Heap} {size phys ptr : Word}
    {blocks : List Block} {hole : Block} (tiling : Tiling (initHeap heap) blocks) (nonzero : size ≠ 0)
    (first : blocks.find? (fits (size + sizeofMemBlock)) = some hole)
    (returned : kmallocAp fuel size phys heap = .ok (ptr, next)) :
    ptr = hole.addr + sizeofMemBlock ∧
      next = (takeHole size phys hole.addr (initHeap heap)).2 := by
  simp only [kmallocAp, if_neg nonzero] at returned
  split at returned
  · exact absurd returned (by simp)
  · next missed =>
    have nothing := tiling.search missed
    rw [first] at nothing
    exact absurd nothing (by simp)
  · next addr hit =>
    have same := tiling.search hit
    rw [first, Option.map_some, Option.some.injEq] at same
    rw [same, Except.ok.injEq] at returned
    exact ⟨(congrArg Prod.fst returned).symm, (congrArg Prod.snd returned).symm⟩

theorem kmalloc_served {fuel : Nat} {heap next : Heap} {size ptr : Word} {blocks : List Block}
    {hole : Block} (tiling : Tiling (initHeap heap) blocks) (nonzero : size ≠ 0)
    (first : blocks.find? (fits (size + sizeofMemBlock)) = some hole)
    (returned : kmalloc fuel size heap = .ok (ptr, next)) :
    ptr = hole.addr + sizeofMemBlock ∧
      next = (takeHole size 0 hole.addr (initHeap heap)).2 :=
  kmallocAp_returned tiling nonzero first returned

/-- A carved hole is one used block at the hole's address, perhaps with a free rest. -/
theorem carve_used (size : Word) (hole : Block) :
    ∃ taken rest, carve size hole = taken :: rest ∧ taken.addr = hole.addr ∧
      taken.free = false ∧ (∀ other ∈ rest, other.free = true) ∧
      (size ≤ hole.size → size ≤ taken.size) := by
  unfold carve
  split
  · exact ⟨_, _, rfl, rfl, rfl, by simp, fun _ => BitVec.le_refl size⟩
  · exact ⟨_, _, rfl, rfl, rfl, by simp, fun room => room⟩

theorem backed_carve {before after : List Block} {hole : Block} {live : List Alloc} {size : Word}
    {memory : Mem} (layout : Layout memory (before ++ hole :: after))
    (backed : Backed (before ++ hole :: after) live) (free : hole.free = true)
    (room : size.toNat + 16 ≤ hole.size.toNat) :
    Backed (before ++ (carve size hole ++ after))
      (⟨hole.addr + sizeofMemBlock, size⟩ :: live) := by
  obtain ⟨taken, rest, parts, sameAddr, used, unused, fits⟩ := carve_used size hole
  have kept : ∀ block : Block, block.free = false →
      (block ∈ before ++ (carve size hole ++ after) ↔
        block = taken ∨ block ∈ before ++ hole :: after) := by
    intro block taking
    have notHole : block ≠ hole := fun same => by simp [same, free] at taking
    have notRest : block ∉ rest := fun member => by simp [unused block member] at taking
    simp only [parts, List.mem_append, List.mem_cons, notHole, notRest, false_or]
    tauto
  refine ⟨?_, ?_, ?_⟩
  · intro alloc member
    rcases List.mem_cons.mp member with same | older
    · subst same
      exact ⟨taken, (kept taken used).mpr (Or.inl rfl), used, by rw [sameAddr],
        fits (by bv_omega)⟩
    · obtain ⟨block, inside, taking, rest⟩ := backed.block alloc older
      exact ⟨block, (kept block taking).mpr (Or.inr inside), taking, rest⟩
  · intro block member taking
    rcases (kept block taking).mp member with same | older
    · exact ⟨_, List.mem_cons_self, by rw [same, sameAddr]⟩
    · obtain ⟨alloc, inside, same⟩ := backed.alloc block older taking
      exact ⟨alloc, List.mem_cons_of_mem _ inside, same⟩
  · refine List.nodup_cons.mpr ⟨?_, backed.distinct⟩
    intro clash
    obtain ⟨alloc, member, same⟩ := List.mem_map.mp clash
    obtain ⟨block, inside, taking, ptr, _⟩ := backed.block alloc member
    have addr : block.addr = hole.addr := (BitVec.add_left_inj _).mp (ptr.symm.trans same)
    have equal := layout.addr_injective (List.mem_append_right _ List.mem_cons_self) inside addr
    rw [equal, free] at taking
    exact absurd taking Bool.noConfusion

theorem mem_eraseP_ptr {live : List Alloc} (distinct : (live.map Alloc.ptr).Nodup) (ptr : Word)
    (alloc : Alloc) :
    alloc ∈ live.eraseP (fun other => other.ptr = ptr) ↔ alloc ∈ live ∧ alloc.ptr ≠ ptr := by
  induction live with
  | nil => simp
  | cons first rest ih =>
    obtain ⟨fresh, tail⟩ := List.nodup_cons.mp distinct
    have later := ih tail
    by_cases hit : first.ptr = ptr
    · rw [List.eraseP_cons_of_pos (by simpa using hit)]
      constructor
      · intro member
        refine ⟨List.mem_cons_of_mem _ member, fun same => fresh ?_⟩
        rw [hit, ← same]
        exact List.mem_map_of_mem member
      · rintro ⟨member, other⟩
        rcases List.mem_cons.mp member with same | older
        · exact absurd (same ▸ hit) other
        · exact older
    · rw [List.eraseP_cons_of_neg (by simpa using hit), List.mem_cons, List.mem_cons, later]
      constructor
      · rintro (same | older)
        · exact ⟨Or.inl same, same ▸ hit⟩
        · exact ⟨Or.inr older.1, older.2⟩
      · rintro ⟨same | older, other⟩
        · exact Or.inl same
        · exact Or.inr ⟨older, other⟩

/-- The used blocks after a release are the others. -/
theorem used_release {before after : List Block} {block other : Block} {memory : Mem}
    (layout : Layout memory (before ++ block :: after)) (used : other.free = false) :
    other ∈ release before block after ↔
      other ∈ before ++ block :: after ∧ other.addr ≠ block.addr := by
  rw [mem_release_used used]
  constructor
  · rintro (early | late)
    · refine ⟨List.mem_append_left _ early, fun same => ?_⟩
      have order := layout.before_end early
      rw [same] at order
      omega
    · refine ⟨List.mem_append_right _ (List.mem_cons_of_mem _ late), fun same => ?_⟩
      have order := layout.after_start late
      rw [same] at order
      omega
  · rintro ⟨member, elsewhere⟩
    rcases List.mem_append.mp member with early | late
    · exact Or.inl early
    · rcases List.mem_cons.mp late with here | later
      · exact absurd (congrArg Block.addr here) elsewhere
      · exact Or.inr later

theorem backed_release {before after : List Block} {block : Block} {live : List Alloc}
    {memory : Mem} (layout : Layout memory (before ++ block :: after))
    (backed : Backed (before ++ block :: after) live) :
    Backed (release before block after)
      (live.eraseP fun alloc => alloc.ptr = block.addr + sizeofMemBlock) := by
  have kept : ∀ other : Block, other.free = false →
      (other ∈ release before block after ↔
        other ∈ before ++ block :: after ∧ other.addr ≠ block.addr) :=
    fun _ used => used_release layout used
  have erased := mem_eraseP_ptr backed.distinct (block.addr + sizeofMemBlock)
  refine ⟨?_, ?_, ?_⟩
  · intro alloc member
    obtain ⟨older, other⟩ := (erased alloc).mp member
    obtain ⟨home, inside, used, ptr, size⟩ := backed.block alloc older
    refine ⟨home, (kept home used).mpr ⟨inside, fun same => other ?_⟩, used, ptr, size⟩
    rw [ptr, same]
  · intro home member used
    obtain ⟨inside, elsewhere⟩ := (kept home used).mp member
    obtain ⟨alloc, older, ptr⟩ := backed.alloc home inside used
    refine ⟨alloc, (erased alloc).mpr ⟨older, fun same => elsewhere ?_⟩, ptr⟩
    exact (BitVec.add_left_inj _).mp (ptr.symm.trans same)
  · exact backed.distinct.sublist (List.eraseP_sublist.map _)

/-! One call. -/

theorem call_kmalloc {fuel : Nat} {s t : State} {size : Word}
    (step : call fuel s (.kmalloc size) = some t) :
    ∃ ptr heap, kmalloc fuel size s.heap = .ok (ptr, heap) ∧ t.heap = heap ∧
      t.live = if ptr = 0 then s.live else ⟨ptr, size⟩ :: s.live := by
  simp only [call] at step
  split at step
  · next ptr heap returned =>
    have same := Option.some.inj step
    subst same
    exact ⟨ptr, heap, returned, rfl, rfl⟩
  · exact absurd step (by simp)

theorem call_kfree {fuel : Nat} {s t : State} {ptr : Word}
    (step : call fuel s (.kfree ptr) = some t) :
    (∃ alloc ∈ s.live, alloc.ptr = ptr) ∧ t.heap = kfree ptr s.heap ∧
      t.live = s.live.eraseP fun alloc => alloc.ptr = ptr := by
  simp only [call] at step
  split at step
  · next held =>
    have same := Option.some.inj step
    subst same
    exact ⟨held, rfl, rfl⟩
  · exact absurd step (by simp)

theorem kmalloc_zero {fuel : Nat} {heap next : Heap} {ptr : Word}
    (returned : kmalloc fuel 0 heap = .ok (ptr, next)) : ptr = 0 ∧ next = initHeap heap := by
  simp only [kmalloc, kmallocP, kmallocAp, if_true, Except.ok.injEq, Prod.mk.injEq] at returned
  exact ⟨returned.1.symm, returned.2.symm⟩

/-- What a request of the hole path does to the blocks: a hole is carved, or nothing happens. -/
theorem kmalloc_blocks {fuel : Nat} {s t : State} {size : Word} {blocks : List Block}
    (tiling : Tiling (initHeap s.heap) blocks) (step : call fuel s (.kmalloc size) = some t)
    (path : size ≠ 0 → size.toNat < 2 ^ 32 - 16 ∧ FindsHole s.heap size) :
    (size = 0 ∧ Tiling t.heap blocks ∧ t.live = s.live) ∨
      ∃ before hole after, blocks = before ++ hole :: after ∧ hole.free = true ∧
        size ≠ 0 ∧ size.toNat + 16 ≤ hole.size.toNat ∧
        Tiling t.heap (before ++ (carve size hole ++ after)) ∧
        t.live = ⟨hole.addr + sizeofMemBlock, size⟩ :: s.live := by
  obtain ⟨ptr, heap, returned, sameHeap, sameLive⟩ := call_kmalloc step
  rw [sameHeap, sameLive]
  by_cases nonzero : size = 0
  · subst nonzero
    obtain ⟨null, same⟩ := kmalloc_zero returned
    rw [if_pos null, same]
    exact Or.inl ⟨rfl, tiling, rfl⟩
  · obtain ⟨small, found⟩ := path nonzero
    obtain ⟨before, hole, after, split, free, room, first⟩ := found.split tiling small
    obtain ⟨samePtr, same⟩ := kmalloc_served tiling nonzero first returned
    subst split
    have bound := tiling.layout.inside
    have present : ptr ≠ 0 := by
      rw [samePtr]
      bv_omega
    rw [if_neg present, same, samePtr]
    exact Or.inr ⟨before, hole, after, rfl, free, nonzero, room, tiling.takeHole free room, rfl⟩

/-- A request of the hole path leaves a tiled heap that backs the live allocations. -/
theorem kmalloc_represented {fuel : Nat} {s t : State} {size : Word}
    (represented : Represented s) (step : call fuel s (.kmalloc size) = some t)
    (path : size ≠ 0 → size.toNat < 2 ^ 32 - 16 ∧ FindsHole s.heap size) :
    ∃ blocks, Tiling t.heap blocks ∧ Backed blocks t.live := by
  obtain ⟨blocks, tiling, backed⟩ := represented.initHeap
  rcases kmalloc_blocks tiling step path with
    ⟨_, same, live⟩ | ⟨before, hole, after, split, free, _, room, carved, live⟩
  · exact ⟨blocks, same, live ▸ backed⟩
  · subst split
    exact ⟨_, carved, live ▸ backed_carve tiling.layout backed free room⟩

/-- A release frees the block of a live pointer. -/
theorem kfree_blocks {fuel : Nat} {s t : State} {ptr : Word} {blocks : List Block}
    (tiling : Tiling s.heap blocks) (backed : Backed blocks s.live)
    (step : call fuel s (.kfree ptr) = some t) :
    ∃ before block after, blocks = before ++ block :: after ∧ block.free = false ∧
      Tiling t.heap (release before block after) ∧
      t.live = s.live.eraseP fun alloc => alloc.ptr = block.addr + sizeofMemBlock := by
  obtain ⟨⟨alloc, member, samePtr⟩, sameHeap, sameLive⟩ := call_kfree step
  obtain ⟨block, inside, used, addr, _⟩ := backed.block alloc member
  obtain ⟨before, after, split⟩ := List.append_of_mem inside
  subst split
  rw [sameHeap, sameLive, ← samePtr, addr]
  exact ⟨before, block, after, rfl, used, tiling.kfree, rfl⟩

theorem kfree_represented {fuel : Nat} {s t : State} {ptr : Word} {blocks : List Block}
    (tiling : Tiling s.heap blocks) (backed : Backed blocks s.live)
    (step : call fuel s (.kfree ptr) = some t) :
    ∃ blocks, Tiling t.heap blocks ∧ Backed blocks t.live := by
  obtain ⟨before, block, after, split, _, freed, live⟩ := kfree_blocks tiling backed step
  subst split
  exact ⟨_, freed, live ▸ backed_release tiling.layout backed⟩

/-- Every state of the hole path is tiled, except the one before the first call. -/
theorem holeStep_represented {s t : State} {op : Call} (represented : Represented s)
    (step : HoleStep s op t) : ∃ blocks, Tiling t.heap blocks ∧ Backed blocks t.live := by
  obtain ⟨⟨fuel, step⟩, path⟩ := step
  cases op with
  | kmalloc size => exact kmalloc_represented represented step (path size rfl)
  | kfree ptr =>
    rcases represented with ⟨_, empty⟩ | ⟨blocks, tiling, backed⟩
    · obtain ⟨⟨alloc, member, _⟩, _⟩ := call_kfree step
      rw [empty] at member
      exact absurd member List.not_mem_nil
    · exact kfree_represented tiling backed step

theorem represented_start (memory : Mem) : Represented (start memory) := Or.inl ⟨rfl, rfl⟩

theorem holeRun_represented {memory : Mem} {ops : List Call} {s : State}
    (run : Runs HoleStep (start memory) ops s) : Represented s :=
  run.invariant (represented_start memory) fun _ _ _ represented step =>
    Or.inr (holeStep_represented represented step)

/-- Over every run of the hole path the list from heap_start tiles the heap, its prev
links invert its next links, no two free blocks are adjacent, and the used blocks are
the live allocations. -/
theorem holeRun_tiles (memory : Mem) (ops : List Call) (s : State) (called : ops ≠ [])
    (run : Runs HoleStep (start memory) ops s) :
    ∃ blocks, s.heap.heapStart = KERNEL_HEAP_START ∧
      Segment (memBlock s.heap.mem) Block.addr Block.header 0 blocks 0 ∧
      Tiles Block.start Block.extent KERNEL_HEAP_START.toNat blocks
        (KERNEL_HEAP_START.toNat + KERNEL_HEAP_SIZE.toNat) ∧
      Coalesced blocks ∧ Backed blocks s.live := by
  obtain ⟨first, last, split⟩ : ∃ first last, ops = first ++ [last] :=
    ⟨_, _, (List.dropLast_append_getLast called).symm⟩
  subst split
  obtain ⟨middle, front, step⟩ := run.last
  obtain ⟨blocks, tiling, backed⟩ := holeStep_represented (holeRun_represented front) step
  exact ⟨blocks, tiling.start, tiling.layout.chained, tiling.layout.tiled, tiling.coalesced, backed⟩

/-- A first request that is no larger than the heap has room for. -/
theorem holeStep_fresh {memory : Mem} {fuel : Nat} {size : Word} {s : State}
    (returned : call fuel (start memory) (.kmalloc size) = some s)
    (small : size.toNat < 2 ^ 32 - 16)
    (fitting : size + sizeofMemBlock ≤ KERNEL_HEAP_SIZE - sizeofMemBlock) :
    HoleStep (start memory) (.kmalloc size) s := by
  refine ⟨⟨fuel, returned⟩, fun other same _ => ?_⟩
  cases same
  exact ⟨small, findsHole_fresh rfl fitting⟩

/-- One request and its release, over zeroed memory. -/
theorem holeRun_tiles_request_and_free :
    ∃ s, Runs HoleStep (start fun _ => 0)
        [.kmalloc 64, .kfree (KERNEL_HEAP_START + sizeofMemBlock)] s ∧
      ∃ blocks, s.heap.heapStart = KERNEL_HEAP_START ∧
        Segment (memBlock s.heap.mem) Block.addr Block.header 0 blocks 0 ∧
        Tiles Block.start Block.extent KERNEL_HEAP_START.toNat blocks
          (KERNEL_HEAP_START.toNat + KERNEL_HEAP_SIZE.toNat) ∧
        Coalesced blocks ∧ Backed blocks s.live := by
  have both : ((call 2 (start fun _ => 0) (.kmalloc 64)).bind fun s =>
      call 2 s (.kfree (KERNEL_HEAP_START + sizeofMemBlock))).isSome = true := by decide +kernel
  obtain ⟨t, run⟩ := Option.isSome_iff_exists.mp both
  obtain ⟨s, first, second⟩ := Option.bind_eq_some_iff.mp run
  have steps : Runs HoleStep (start fun _ => 0)
      [.kmalloc 64, .kfree (KERNEL_HEAP_START + sizeofMemBlock)] t := by
    refine Runs.next (holeStep_fresh first (by decide) (by decide))
      (Runs.next ⟨⟨2, second⟩, fun size same => ?_⟩ (Runs.done t))
    exact absurd same (by simp)
  exact ⟨t, steps, holeRun_tiles (fun _ => 0) _ t (by simp) steps⟩

end Vaelen.Kernel.KmallocRuns
