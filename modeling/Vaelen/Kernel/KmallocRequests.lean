import Vaelen.Kernel.KmallocSafety

/-!
Single requests of every size on a tiled heap. The search is asked for the size and a header
in 32 bits, and compares that with the recorded sizes, which leave the header out.
-/

namespace Vaelen.Kernel.KmallocRequests
open Vaelen.Base Platform Kmalloc KmallocBlocks KmallocTiling KmallocRuns KmallocSafety

/-- Some free block of the list has a recorded size of at least `bytes`. -/
def Usable (blocks : List Block) (bytes : Word) : Prop :=
  ∃ block ∈ blocks, block.free = true ∧ bytes ≤ block.size

instance (blocks : List Block) (bytes : Word) : Decidable (Usable blocks bytes) :=
  inferInstanceAs (Decidable (∃ block ∈ blocks, _))

variable {heap : Heap} {blocks : List Block} {hole : Block} {size : Word} {fuel : Nat}

theorem usable_iff (bytes : Word) :
    Usable blocks bytes ↔ ∃ hole, blocks.find? (fits bytes) = some hole := by
  rw [← Option.isSome_iff_exists, List.find?_isSome]
  apply exists_congr
  intro block
  rw [fits, Bool.and_eq_true, decide_eq_true_eq]

/-- kmalloc on a tiled heap, once the fuel covers the list. -/
theorem kmalloc_eq (tiling : Tiling (initHeap heap) blocks) (nonzero : size ≠ 0)
    (enough : blocks.length < fuel) :
    kmalloc fuel size heap =
      match blocks.find? (fits (size + sizeofMemBlock)) with
      | none => placeBlock size 0 (initHeap heap)
      | some hole => .ok (takeHole size 0 hole.addr (initHeap heap)) := by
  simp only [kmalloc, kmallocP, kmallocAp, if_neg nonzero,
    tiling.search_within (size + sizeofMemBlock) enough]
  cases blocks.find? (fits (size + sizeofMemBlock)) with
  | none => rfl
  | some hole => rfl

theorem kmalloc_usable (tiling : Tiling (initHeap heap) blocks) (nonzero : size ≠ 0)
    (enough : blocks.length < fuel) (usable : Usable blocks (size + sizeofMemBlock)) :
    ∃ hole ∈ blocks, hole.free = true ∧ size + sizeofMemBlock ≤ hole.size ∧
      kmalloc fuel size heap = .ok (takeHole size 0 hole.addr (initHeap heap)) := by
  obtain ⟨hole, first⟩ := (usable_iff _).mp usable
  obtain ⟨before, after, split, free, room⟩ := find_split first
  refine ⟨hole, split ▸ by simp, free, room, ?_⟩
  rw [kmalloc_eq tiling nonzero enough, first]

theorem kmalloc_unusable (tiling : Tiling (initHeap heap) blocks) (nonzero : size ≠ 0)
    (enough : blocks.length < fuel) (unusable : ¬Usable blocks (size + sizeofMemBlock)) :
    kmalloc fuel size heap = placeBlock size 0 (initHeap heap) := by
  have missed : blocks.find? (fits (size + sizeofMemBlock)) = none := by
    apply Option.eq_none_iff_forall_ne_some.mpr
    intro hole first
    exact unusable ((usable_iff _).mpr ⟨hole, first⟩)
  rw [kmalloc_eq tiling nonzero enough, missed]

/-! Where a returned block ends. -/

structure Placed (heap : Heap) : Prop where
  low : KERNEL_HEAP_START.toNat ≤ heap.heapPlacement.toNat
  high : heap.heapPlacement.toNat ≤ KERNEL_HEAP_START.toNat + KERNEL_HEAP_SIZE.toNat

/-- Null, a panic, or a block inside the heap; the bounds are in exact integers. -/
def Bounded (size : Word) : Except Stop (Word × Heap) → Prop
  | .error (.panic _) => True
  | .error .running => False
  | .ok (ptr, next) =>
      Placed next ∧ (ptr = 0 ∨ KERNEL_HEAP_START.toNat ≤ ptr.toNat ∧
        ptr.toNat + size.toNat ≤ KERNEL_HEAP_START.toNat + KERNEL_HEAP_SIZE.toNat)

theorem placed_initHeap : Placed (initHeap heap) ↔ Placed heap := by
  constructor
  · intro placed
    exact ⟨initHeap_placement heap ▸ placed.low, initHeap_placement heap ▸ placed.high⟩
  · intro placed
    exact ⟨(initHeap_placement heap).symm ▸ placed.low, (initHeap_placement heap).symm ▸ placed.high⟩

/-- A hole holds the request when size and header do not wrap, and never when they do. -/
theorem takeHole_bounded_iff (layout : Layout heap.mem blocks) (placed : Placed heap)
    (member : hole ∈ blocks) (room : size + sizeofMemBlock ≤ hole.size) :
    Bounded size (.ok (takeHole size 0 hole.addr heap)) ↔ size.toNat + 16 < 2 ^ 32 := by
  have bound := layout.bounds member
  have start : (hole.addr + sizeofMemBlock).toNat = hole.addr.toNat + 16 := by
    change (hole.addr + 16).toNat = _
    bv_omega
  have high := heap_high
  have low := heap_low
  have request : (size + sizeofMemBlock).toNat ≤ hole.size.toNat := room
  have total : (size + sizeofMemBlock).toNat = (size.toNat + 16) % 2 ^ 32 :=
    BitVec.toNat_add size 16
  change Placed _ ∧ (hole.addr + sizeofMemBlock = 0 ∨ _) ↔ _
  constructor
  · rintro ⟨_, null | inside⟩
    · rw [null] at start
      exact absurd start (by simp)
    · omega
  · intro fitting
    exact ⟨⟨placed.low, placed.high⟩, Or.inr (by omega)⟩

/-- The fallback checks its end in 32 bits. -/
theorem placeBlock_bounded_iff (placed : Placed heap) (nonzero : size ≠ 0) :
    Bounded size (placeBlock size 0 heap) ↔
      heap.heapPlacement.toNat + size.toNat + 16 < 2 ^ 32 ∨
        2 ^ 32 + 0xD1000000 < heap.heapPlacement.toNat + size.toNat + 16 := by
  obtain ⟨low, high⟩ := placed
  rw [heap_high] at high
  rw [heap_low] at low
  have positive : 0 < size.toNat := by bv_omega
  have top := size.isLt
  have total : (heap.heapPlacement + (size + sizeofMemBlock)).toNat =
      (heap.heapPlacement.toNat + size.toNat + 16) % 2 ^ 32 := by
    change (heap.heapPlacement + (size + 16)).toNat = _
    bv_omega
  have start : (heap.heapPlacement + sizeofMemBlock).toNat = heap.heapPlacement.toNat + 16 := by
    change (heap.heapPlacement + 16).toNat = _
    bv_omega
  have limit : (KERNEL_HEAP_START + KERNEL_HEAP_SIZE).toNat = 0xD1000000 := rfl
  have full : KERNEL_HEAP_START + KERNEL_HEAP_SIZE < heap.heapPlacement + (size + sizeofMemBlock) ↔
      0xD1000000 < (heap.heapPlacement.toNat + size.toNat + 16) % 2 ^ 32 := by
    rw [BitVec.lt_def, limit, total]
  unfold placeBlock
  by_cases panics :
      KERNEL_HEAP_START + KERNEL_HEAP_SIZE < heap.heapPlacement + (size + sizeofMemBlock)
  · rw [if_pos panics]
    rw [full] at panics
    change True ↔ _
    rw [true_iff]
    omega
  · rw [if_neg panics]
    rw [full] at panics
    change Placed _ ∧ (heap.heapPlacement + sizeofMemBlock = 0 ∨ _) ↔ _
    have present : heap.heapPlacement + sizeofMemBlock ≠ 0 := by
      intro null
      rw [null] at start
      exact absurd start (by simp)
    rw [or_iff_right present, start, heap_high, heap_low]
    constructor
    · rintro ⟨_, inside⟩
      omega
    · intro fitting
      refine ⟨⟨?_, ?_⟩, by omega, by omega⟩
      · change _ ≤ (heap.heapPlacement + (size + sizeofMemBlock)).toNat
        rw [total, heap_low]
        omega
      · change (heap.heapPlacement + (size + sizeofMemBlock)).toNat ≤ _
        rw [total, heap_high]
        omega

/-- No sum on the way of this request wraps, or the wrapped one is still seen to be too large. -/
def Unwrapped (heap : Heap) (blocks : List Block) (size : Word) : Prop :=
  size = 0 ∨
    (Usable blocks (size + sizeofMemBlock) ∧ size.toNat + 16 < 2 ^ 32) ∨
    (¬Usable blocks (size + sizeofMemBlock) ∧
      (heap.heapPlacement.toNat + size.toNat + 16 < 2 ^ 32 ∨
        2 ^ 32 + 0xD1000000 < heap.heapPlacement.toNat + size.toNat + 16))

/-- kmalloc returns null, panics or returns a block inside the heap, with heap_placement still
in it, exactly when no sum wraps. -/
theorem kmalloc_bounded_iff (heap : Heap) (blocks : List Block)
    (tiling : Tiling (initHeap heap) blocks) (placed : Placed heap) (size : Word) (fuel : Nat)
    (enough : blocks.length < fuel) :
    Bounded size (kmalloc fuel size heap) ↔ Unwrapped heap blocks size := by
  have started := placed_initHeap.mpr placed
  by_cases nonzero : size = 0
  · subst nonzero
    have null : kmalloc fuel 0 heap = .ok (0, initHeap heap) := rfl
    rw [null, Unwrapped]
    exact iff_of_true ⟨started, Or.inl rfl⟩ (Or.inl rfl)
  · rw [Unwrapped, or_iff_right nonzero]
    by_cases usable : Usable blocks (size + sizeofMemBlock)
    · obtain ⟨hole, member, _, room, served⟩ := kmalloc_usable tiling nonzero enough usable
      rw [served, takeHole_bounded_iff tiling.layout started member room]
      simp only [usable, true_and, not_true_eq_false, false_and, or_false]
    · rw [kmalloc_unusable tiling nonzero enough usable, placeBlock_bounded_iff started nonzero,
        initHeap_placement]
      simp only [usable, false_and, not_false_eq_true, true_and, false_or]

/-- The heap after the first call, a single hole. -/
def oneHole : Heap := initHeap (uninitialised fun _ => 0)

def wholeHeap : Block :=
  { addr := KERNEL_HEAP_START, size := KERNEL_HEAP_SIZE - sizeofMemBlock, free := true }

theorem oneHole_tiling : Tiling oneHole [wholeHeap] := initHeap_tiling rfl

theorem oneHole_placed : Placed oneHole := placed_initHeap.mpr ⟨Nat.le_refl _, by decide⟩

theorem initHeap_oneHole : initHeap oneHole = oneHole := initHeap_tiled oneHole_tiling

/-- A request for 64 bytes. -/
theorem kmalloc_bounded_iff_small :
    Bounded 64 (kmalloc 2 64 oneHole) ↔ Unwrapped oneHole [wholeHeap] 64 :=
  kmalloc_bounded_iff oneHole [wholeHeap] (initHeap_oneHole.symm ▸ oneHole_tiling) oneHole_placed 64
    2 (by decide)

/-- With its header a request for 0xFFFFFFF4 bytes is one for 4 bytes, and the hole serves it. -/
theorem kmalloc_unbounded :
    ¬∀ (heap : Heap) (blocks : List Block), Tiling heap blocks → Placed heap →
      ∀ (size : Word) (fuel : Nat), blocks.length < fuel → Bounded size (kmalloc fuel size heap) := by
  intro claim
  have bounded := claim oneHole [wholeHeap] oneHole_tiling oneHole_placed 0xFFFFFFF4 2 (by decide)
  have tiling : Tiling (initHeap oneHole) [wholeHeap] := initHeap_oneHole.symm ▸ oneHole_tiling
  have usable : Usable [wholeHeap] (0xFFFFFFF4 + sizeofMemBlock) := by decide
  obtain ⟨hole, member, _, room, served⟩ :=
    kmalloc_usable tiling (by decide) (Nat.lt_succ_self 1) usable
  rw [served, takeHole_bounded_iff tiling.layout (placed_initHeap.mpr oneHole_placed) member room]
    at bounded
  exact absurd bounded (by decide)

/-! Which requests the search refuses. -/

/-- The request is served from a free block of the list; heap_placement stays. -/
def Served (heap : Heap) (blocks : List Block) (size : Word) (outcome : Except Stop (Word × Heap)) :
    Prop :=
  ∃ hole ∈ blocks, hole.free = true ∧ size ≤ hole.size ∧
    outcome = .ok (takeHole size 0 hole.addr (initHeap heap))

/-- The fallback moves heap_placement, so that it serves no request from the list. -/
theorem placeBlock_not_served (small : size ≤ KERNEL_HEAP_SIZE) :
    ¬Served heap blocks size (placeBlock size 0 (initHeap heap)) := by
  rintro ⟨hole, _, _, _, same⟩
  obtain ⟨_, placement, _⟩ := placeBlock_ok same
  have moved : (initHeap heap).heapPlacement =
      (initHeap heap).heapPlacement + (size + sizeofMemBlock) := placement
  have zero : size + 16 = 0 := BitVec.self_eq_add_right.mp moved
  bv_omega

/-- A request for which some free block is large enough is served from the list exactly when
some free block has 16 bytes more than that. -/
theorem kmalloc_complete_iff (heap : Heap) (blocks : List Block)
    (tiling : Tiling (initHeap heap) blocks) (size : Word) (nonzero : size ≠ 0)
    (small : size ≤ KERNEL_HEAP_SIZE) (fuel : Nat) (enough : blocks.length < fuel) :
    (Usable blocks size → Served heap blocks size (kmalloc fuel size heap)) ↔
      ¬Usable blocks size ∨ Usable blocks (size + sizeofMemBlock) := by
  have larger : size ≤ size + sizeofMemBlock := by
    change size ≤ size + 16
    bv_omega
  constructor
  · intro complete
    by_contra neither
    obtain ⟨usable, refused⟩ := not_or.mp neither
    have served := complete (not_not.mp usable)
    rw [kmalloc_unusable tiling nonzero enough refused] at served
    exact placeBlock_not_served small served
  · rintro (none | usable) fitting
    · exact absurd fitting none
    · obtain ⟨hole, member, free, room, served⟩ := kmalloc_usable tiling nonzero enough usable
      exact ⟨hole, member, free, BitVec.le_trans larger room, served⟩

/-- A request for 64 bytes. -/
theorem kmalloc_complete_iff_small :
    (Usable [wholeHeap] 64 → Served oneHole [wholeHeap] 64 (kmalloc 2 64 oneHole)) ↔
      ¬Usable [wholeHeap] 64 ∨ Usable [wholeHeap] (64 + sizeofMemBlock) :=
  kmalloc_complete_iff oneHole [wholeHeap] (initHeap_oneHole.symm ▸ oneHole_tiling) 64 (by decide)
    (by decide) 2 (by decide)

/-- A request for exactly the size of the hole goes to heap_placement. -/
theorem kmalloc_incomplete :
    ¬∀ (heap : Heap) (blocks : List Block), Tiling heap blocks → ∀ size : Word, size ≠ 0 →
      size ≤ KERNEL_HEAP_SIZE → ∀ fuel, blocks.length < fuel → Usable blocks size →
        Served heap blocks size (kmalloc fuel size heap) := by
  intro claim
  have served := claim oneHole [wholeHeap] oneHole_tiling 0xFFFFF0 (by decide) (by decide) 2
    (by decide) (by decide)
  rw [kmalloc_unusable (initHeap_oneHole.symm ▸ oneHole_tiling) (by decide) (Nat.lt_succ_self 1)
    (by decide)] at served
  exact placeBlock_not_served (by decide) served

end Vaelen.Kernel.KmallocRequests
