import Vaelen.Kernel.KmallocFit
import Vaelen.Kernel.KmallocStores

/-!
calloc and realloc of lib/stdlib.c over the kernel heap, on any heap at all: the product that
calloc forms twice in 32 bits, and the pointer that realloc hands back as it came.
-/

namespace Vaelen.Kernel.Stdlib
open Vaelen.Base Platform Kmalloc KmallocStores KmallocFit

def calloc (fuel : Nat) (num size : Word) (heap : Heap) : Except Stop (Word × Heap) := do
  let (ptr, heap) ← kmalloc fuel (num * size) heap
  if ptr ≠ 0 then
    return (ptr, { heap with mem := memset heap.mem ptr 0 (num * size).toNat })
  else return (ptr, heap)

def realloc (fuel : Nat) (ptr size : Word) (heap : Heap) : Except Stop (Word × Heap) :=
  if ptr = 0 then kmalloc fuel size heap
  else if size = 0 then .ok (0, kfree ptr heap)
  else .ok (ptr, heap)

/-! realloc. -/

/-- A pointer to the payload of a used block of the list. -/
def Live (heap : Heap) (ptr : Word) : Prop :=
  ptr ≠ 0 ∧ ∃ list, BlockList heap.mem heap.heapStart list ∧ ptr - sizeofMemBlock ∈ list ∧
    (memBlock heap.mem (ptr - sizeofMemBlock)).free = 0

/-- What a caller of realloc relies on when it returns `q`. -/
structure Resized (heap : Heap) (ptr n q : Word) (next : Heap) : Prop where
  room : n ≤ recordedSize next q
  kept : ∀ i : Word, i < recordedSize heap ptr → i < n → next.mem (q + i) = heap.mem (ptr + i)
  others : ∀ other, Live heap other → other ≠ ptr →
    memBlock next.mem (other - sizeofMemBlock) = memBlock heap.mem (other - sizeofMemBlock) ∧
      ∀ i : Word, i < recordedSize heap other → next.mem (other + i) = heap.mem (other + i)

/-- realloc of a live pointer keeps its contract exactly when the block is large enough already. -/
theorem realloc_resized_iff (heap : Heap) (ptr n : Word) (live : Live heap ptr) (positive : n ≠ 0) :
    (∀ fuel q next, realloc fuel ptr n heap = .ok (q, next) → Resized heap ptr n q next) ↔
      n ≤ recordedSize heap ptr := by
  have same : ∀ fuel, realloc fuel ptr n heap = .ok (ptr, heap) := fun fuel => by
    rw [realloc, if_neg live.1, if_neg positive]
  constructor
  · intro contract
    exact (contract 0 ptr heap (same 0)).room
  · intro room fuel q next returned
    obtain ⟨rfl, rfl⟩ := Prod.mk.inj (Except.ok.inj ((same fuel).symm.trans returned))
    exact ⟨room, fun _ _ _ => rfl, fun _ _ _ => ⟨rfl, fun _ _ => rfl⟩⟩

/-- Sixteen bytes from a fresh heap. -/
theorem live_sixteen :
    ∃ heap, kmalloc 2 16 (uninitialised fun _ => 0) = .ok (0xD0000010, heap) ∧
      Live heap 0xD0000010 ∧ recordedSize heap 0xD0000010 = 16 := by
  have facts : (kmalloc 2 16 (uninitialised fun _ => 0)).toOption.map (fun result =>
      (result.1, result.2.heapStart, memBlock result.2.mem 0xD0000000,
        memBlock result.2.mem 0xD0000020)) =
      some (0xD0000010, 0xD0000000, ⟨16, 0xD0000020, 0, 0⟩, ⟨0xFFFFD0, 0, 0xD0000000, 1⟩) := by
    decide +kernel
  cases served : kmalloc 2 16 (uninitialised fun _ => 0) with
  | error stop =>
    rw [served] at facts
    exact absurd facts (by simp [Except.toOption])
  | ok result =>
    obtain ⟨ptr, heap⟩ := result
    rw [served] at facts
    simp only [Except.toOption, Option.map_some, Option.some.injEq, Prod.mk.injEq] at facts
    obtain ⟨rfl, head, first, second⟩ := facts
    have links : BlockList heap.mem heap.heapStart [0xD0000000, 0xD0000020] :=
      ⟨head.symm, ⟨congrArg MemBlock.next first, congrArg MemBlock.next second, trivial⟩, by decide⟩
    exact ⟨heap, rfl, ⟨by decide, _, links, by decide, congrArg MemBlock.free first⟩,
      congrArg MemBlock.size first⟩

/-- Shrinking to eight bytes. -/
theorem realloc_resized_eight :
    ∃ heap, kmalloc 2 16 (uninitialised fun _ => 0) = .ok (0xD0000010, heap) ∧
      ∀ fuel q next, realloc fuel 0xD0000010 8 heap = .ok (q, next) →
        Resized heap 0xD0000010 8 q next := by
  obtain ⟨heap, served, live, recorded⟩ := live_sixteen
  refine ⟨heap, served, (realloc_resized_iff heap 0xD0000010 8 live (by decide)).mpr ?_⟩
  rw [recorded]
  decide

/-- Growing to thirty-two bytes. -/
theorem realloc_grown :
    ∃ heap, kmalloc 2 16 (uninitialised fun _ => 0) = .ok (0xD0000010, heap) ∧
      Live heap 0xD0000010 ∧
      ¬∀ fuel q next, realloc fuel 0xD0000010 32 heap = .ok (q, next) →
        Resized heap 0xD0000010 32 q next := by
  obtain ⟨heap, served, live, recorded⟩ := live_sixteen
  refine ⟨heap, served, live, fun contract => ?_⟩
  have room := (contract 0 _ heap (if_neg (by decide))).room
  rw [recorded] at room
  exact absurd room (by decide)

/-! calloc. -/

/-- What a caller of calloc relies on when it returns `p`; the product is that of the integers. -/
def Zeroed (num size p : Word) (next : Heap) : Prop :=
  num.toNat * size.toNat ≤ (recordedSize next p).toNat ∧
    ∀ i < num.toNat * size.toNat, next.mem (p + BitVec.ofNat 32 i) = 0

/-- The size field of a new block at `block` behind the store `heap_end->next = block`. -/
def linkedSize (last block size : Word) : Word :=
  if last = 0 then size else load32 (store32 (store32 (fun _ => 0) block size) (last + 4) block) block

/-- When the block that serves calloc is large enough and its header is not cleared with it: the
exact product leaves room for a header in 32 bits, or just does not. -/
structure Exact (num size : Word) (heap : Heap) : Prop where
  hole : ∀ fuel hole,
    mmFindSmallestHole (initHeap heap).mem (num * size + sizeofMemBlock) fuel
      (initHeap heap).heapStart = some (some hole) →
    hole + sizeofMemBlock ≠ 0 →
    num.toNat * size.toNat < 2 ^ 32 - 16 ∨
      num.toNat * size.toNat = 2 ^ 32 - 16 ∧ 8 ≤ (memBlock (initHeap heap).mem hole).size
  placement : ∀ fuel,
    mmFindSmallestHole (initHeap heap).mem (num * size + sizeofMemBlock) fuel
      (initHeap heap).heapStart = some none →
    heap.heapPlacement + (num * size + sizeofMemBlock) ≤ KERNEL_HEAP_START + KERNEL_HEAP_SIZE →
    heap.heapPlacement + sizeofMemBlock ≠ 0 →
    num.toNat * size.toNat ≤ 2 ^ 32 - 16 ∧
      num * size ≤ linkedSize (initHeap heap).heapEnd heap.heapPlacement (num * size)

/-- The block that kmalloc found a hole for records the request, or the whole hole. -/
theorem takeHole_recorded {size hole p : Word} {heap next : Heap}
    (taken : takeHole size 0 hole heap = (p, next)) :
    p = hole + sizeofMemBlock ∧
      recordedSize next p =
        if size + sizeofMemBlock + 8 ≤ (memBlock heap.mem hole).size then size
        else (memBlock heap.mem hole).size := by
  obtain ⟨rfl, rfl⟩ := Prod.mk.inj taken
  have back : hole + sizeofMemBlock - sizeofMemBlock = hole := BitVec.add_sub_cancel _ _
  rw [recordedSize, back]
  refine ⟨rfl, ?_⟩
  by_cases split : size + sizeofMemBlock + 8 ≤ (memBlock heap.mem hole).size
  · simp only [storePhys, if_pos split, splitHole, ne_eq, not_true_eq_false, if_false,
      memBlock_setFree, memBlock_setSize]
  · simp only [storePhys, if_neg split, ne_eq, not_true_eq_false, if_false, memBlock_setFree]

/-- The block that kmalloc lays at heap_placement records the request, unless the last block is so
near that linking it writes into the new size field. -/
theorem placeBlock_recorded {size p : Word} {heap next : Heap}
    (placed : placeBlock size 0 heap = .ok (p, next)) :
    recordedSize next p = linkedSize heap.heapEnd heap.heapPlacement size := by
  obtain ⟨start, _, fits⟩ := placeBlock_ok placed
  have back : p - sizeofMemBlock = heap.heapPlacement := by
    rw [start]
    exact BitVec.add_sub_cancel _ _
  rw [placeBlock, if_neg (BitVec.not_lt.mpr fits)] at placed
  rw [recordedSize, back, ← (Prod.mk.inj (Except.ok.inj placed)).2, linkedSize]
  simp only [storePhys, ne_eq, not_true_eq_false, if_false]
  by_cases none : heap.heapEnd = 0
  · simp only [none, not_true_eq_false, if_false, if_true, memBlock_setPrev, memBlock_setNext,
      memBlock_setFree, memBlock_setSize]
  · simp only [none, not_false_eq_true, if_true, if_false]
    apply load32_congr
    intro x inside
    by_cases linked : Within (heap.heapEnd + 4) 4 x
    · exact store32_inside linked
    · have near : ∀ offset : Word, 4 ≤ offset.toNat → offset.toNat ≤ 12 →
          ¬Within (heap.heapPlacement + offset) 4 x := fun offset low high => by
        unfold Within at *
        bv_omega
      rw [setNext, store32_outside linked, store32_outside linked, setPrev,
        store32_outside (near 8 (by decide) (by decide)), setNext,
        store32_outside (near 4 (by decide) (by decide)), setFree,
        store32_outside (near 12 (by decide) (by decide)), setSize]
      exact store32_inside inside

/-- kmalloc once its search has returned. -/
theorem kmalloc_found {fuel : Nat} {size : Word} {heap : Heap} {found : Option Word}
    (nonzero : size ≠ 0)
    (search : mmFindSmallestHole (initHeap heap).mem (size + sizeofMemBlock) fuel
      (initHeap heap).heapStart = some found) :
    kmalloc fuel size heap =
      found.elim (placeBlock size 0 (initHeap heap)) fun hole =>
        .ok (takeHole size 0 hole (initHeap heap)) := by
  simp only [kmalloc, kmallocP, kmallocAp, if_neg nonzero, search]
  cases found <;> rfl

/-- Clearing the bytes of a block: they must not reach around to its own header. -/
theorem zeroed_iff (num size p : Word) (heap : Heap) :
    Zeroed num size p { heap with mem := memset heap.mem p 0 (num * size).toNat } ↔
      num.toNat * size.toNat ≤ 2 ^ 32 - 16 ∧ num * size ≤ recordedSize heap p := by
  have top := (num * size).isLt
  have product : (num * size).toNat = num.toNat * size.toNat % 2 ^ 32 := BitVec.toNat_mul num size
  have cleared := memset_spec heap.mem p 0 (num * size).toNat (Nat.le_of_lt top)
  by_cases header : num.toNat * size.toNat ≤ 2 ^ 32 - 16
  · have exact : (num * size).toNat = num.toNat * size.toNat := by omega
    have kept : recordedSize { heap with mem := memset heap.mem p 0 (num * size).toNat } p =
        recordedSize heap p := by
      apply congrArg MemBlock.size
      apply memBlock_congr
      intro x inside
      have outside : ¬Within p (num * size).toNat x := by
        unfold Within at *
        bv_omega
      exact (cleared x).trans (if_neg outside)
    rw [and_iff_right header, Zeroed, kept, ← exact]
    refine and_iff_left fun i bound => (cleared _).trans (if_pos ?_)
    unfold Within
    bv_omega
  · rw [iff_false_right fun both => header both.1]
    rintro ⟨room, _⟩
    have bound :=
      (recordedSize { heap with mem := memset heap.mem p 0 (num * size).toNat } p).isLt
    -- The clearing wraps around to the low byte of the size field.
    have wrapped : Within p (num * size).toNat (p - sizeofMemBlock) := by
      unfold Within
      change (p - 16 - p).toNat < _
      have distance : (p - 16 - p).toNat = 2 ^ 32 - 16 := by bv_omega
      omega
    have low : (recordedSize { heap with mem := memset heap.mem p 0 (num * size).toNat } p).toNat %
        2 ^ 8 = 0 := by
      have byte := byte_load32 (memset heap.mem p 0 (num * size).toNat) (p - sizeofMemBlock) 0
        (by decide)
      have origin : p - sizeofMemBlock + BitVec.ofNat 32 0 = p - sizeofMemBlock := BitVec.add_zero _
      rw [origin, cleared, if_pos wrapped] at byte
      have value := congrArg BitVec.toNat byte
      rwa [BitVec.extractLsb'_toNat, Nat.mul_zero, Nat.shiftRight_zero] at value
    omega

/-- A search that returns 1 has found a block that is large enough. -/
theorem sufficient_of_found {memory : Mem} {size current hole : Word} {fuel : Nat}
    (found : mmFindSmallestHole memory size fuel current = some (some hole)) :
    Sufficient memory size hole := by
  induction fuel generalizing current with
  | zero => exact absurd found (by simp [mmFindSmallestHole])
  | succ fuel ih =>
    rw [mmFindSmallestHole] at found
    by_cases stop : current = 0
    · rw [if_pos stop] at found
      exact absurd found (by simp)
    · rw [if_neg stop] at found
      by_cases hit : (memBlock memory current).free ≠ 0 ∧ size ≤ (memBlock memory current).size
      · rw [if_pos hit] at found
        rw [← Option.some.inj (Option.some.inj found)]
        exact hit
      · rw [if_neg hit] at found
        exact ih found

/-- Whether what is recorded of a hole covers the exact product. -/
theorem hole_covers_iff (num size recorded : Word) (enough : num * size + 16 ≤ recorded) :
    (num.toNat * size.toNat ≤ 2 ^ 32 - 16 ∧
        num * size ≤ if num * size + 16 + 8 ≤ recorded then num * size else recorded) ↔
      num.toNat * size.toNat < 2 ^ 32 - 16 ∨
        num.toNat * size.toNat = 2 ^ 32 - 16 ∧ 8 ≤ recorded := by
  have product : (num * size).toNat = num.toNat * size.toNat % 2 ^ 32 := BitVec.toNat_mul num size
  generalize num.toNat * size.toNat = exact at *
  generalize num * size = wrapped at *
  by_cases fits : exact ≤ 2 ^ 32 - 16
  · have same : wrapped.toNat = exact := by omega
    rw [and_iff_right fits]
    by_cases split : wrapped + 16 + 8 ≤ recorded
    · rw [if_pos split]
      have whole : wrapped ≤ wrapped := BitVec.le_refl wrapped
      rw [iff_true_left whole]
      bv_omega
    · rw [if_neg split]
      bv_omega
  · rw [iff_false_left fun both => fits both.1]
    omega

/-- What kmalloc has done when it returns a pointer other than null. -/
theorem kmalloc_block {fuel : Nat} {size p : Word} {heap next : Heap}
    (returned : kmalloc fuel size heap = .ok (p, next)) (present : p ≠ 0) :
    size ≠ 0 ∧
      ((∃ hole, mmFindSmallestHole (initHeap heap).mem (size + sizeofMemBlock) fuel
          (initHeap heap).heapStart = some (some hole) ∧
          takeHole size 0 hole (initHeap heap) = (p, next)) ∨
        mmFindSmallestHole (initHeap heap).mem (size + sizeofMemBlock) fuel
          (initHeap heap).heapStart = some none ∧
          placeBlock size 0 (initHeap heap) = .ok (p, next)) := by
  have nonzero : size ≠ 0 := by
    rintro rfl
    have null : Except.ok (0, initHeap heap) = Except.ok (p, next) := returned
    exact present (congrArg Prod.fst (Except.ok.inj null)).symm
  refine ⟨nonzero, ?_⟩
  cases search : mmFindSmallestHole (initHeap heap).mem (size + sizeofMemBlock) fuel
      (initHeap heap).heapStart with
  | none =>
    simp only [kmalloc, kmallocP, kmallocAp, if_neg nonzero, search] at returned
    exact absurd returned (by simp)
  | some found =>
    rw [kmalloc_found nonzero search] at returned
    cases found with
    | none => exact Or.inr ⟨rfl, returned⟩
    | some hole => exact Or.inl ⟨hole, rfl, Except.ok.inj returned⟩

theorem calloc_of_kmalloc {fuel : Nat} {num size p : Word} {heap middle : Heap} (present : p ≠ 0)
    (served : kmalloc fuel (num * size) heap = .ok (p, middle)) :
    calloc fuel num size heap =
      .ok (p, { middle with mem := memset middle.mem p 0 (num * size).toNat }) := by
  rw [calloc, served, ok_bind]
  exact if_pos present

theorem calloc_block {fuel : Nat} {num size p : Word} {heap next : Heap}
    (returned : calloc fuel num size heap = .ok (p, next)) (present : p ≠ 0) :
    ∃ middle, kmalloc fuel (num * size) heap = .ok (p, middle) ∧
      next = { middle with mem := memset middle.mem p 0 (num * size).toNat } := by
  obtain ⟨⟨ptr, middle⟩, served, rest⟩ := bind_eq_ok returned
  dsimp only at rest
  by_cases null : ptr = 0
  · rw [if_neg (not_not.mpr null)] at rest
    exact absurd ((congrArg Prod.fst (Except.ok.inj rest)).symm.trans null) present
  · rw [if_pos null] at rest
    obtain ⟨rfl, rfl⟩ := Prod.mk.inj (Except.ok.inj rest)
    exact ⟨middle, served, rfl⟩

/-- calloc returns enough zeroed memory exactly when the wrapped product is 0, or the exact product
leaves room for the header and the new block is not linked over. -/
theorem calloc_zeroed_iff (num size : Word) (heap : Heap) :
    (∀ fuel p next, calloc fuel num size heap = .ok (p, next) → p ≠ 0 → Zeroed num size p next) ↔
      num * size = 0 ∨ Exact num size heap := by
  constructor
  · intro sound
    by_cases nothing : num * size = 0
    · exact Or.inl nothing
    · refine Or.inr ⟨fun fuel hole found present => ?_, fun fuel missed fits present => ?_⟩
      · have served := kmalloc_found nothing found
        obtain ⟨start, recorded⟩ := takeHole_recorded
          (show takeHole (num * size) 0 hole (initHeap heap) = (hole + sizeofMemBlock, _) from rfl)
        have covers := sound fuel _ _ (calloc_of_kmalloc present served) present
        rw [zeroed_iff, recorded] at covers
        exact (hole_covers_iff num size _ (sufficient_of_found found).2).mp covers
      · rw [← initHeap_placement heap] at fits present ⊢
        obtain ⟨next, placed⟩ : ∃ next, placeBlock (num * size) 0 (initHeap heap) =
            .ok ((initHeap heap).heapPlacement + sizeofMemBlock, next) :=
          ⟨_, if_neg (BitVec.not_lt.mpr fits)⟩
        have served := (kmalloc_found nothing missed).trans placed
        have covers := sound fuel _ _ (calloc_of_kmalloc present served) present
        rwa [zeroed_iff, placeBlock_recorded placed] at covers
  · intro exact fuel p next returned present
    obtain ⟨middle, served, rfl⟩ := calloc_block returned present
    obtain ⟨nonzero, block⟩ := kmalloc_block served present
    have covers := exact.resolve_left nonzero
    rw [zeroed_iff]
    rcases block with ⟨hole, found, taken⟩ | ⟨missed, placed⟩
    · obtain ⟨rfl, recorded⟩ := takeHole_recorded taken
      rw [recorded]
      exact (hole_covers_iff num size _ (sufficient_of_found found).2).mpr
        (covers.hole fuel hole found present)
    · obtain ⟨rfl, _, fits⟩ := placeBlock_ok placed
      rw [placeBlock_recorded placed]
      rw [initHeap_placement] at fits present ⊢
      exact covers.placement fuel missed fits present

/-- The product 2^32 + 2 wraps to 2. -/
theorem calloc_wrapped :
    ∃ next, calloc 2 0x80000001 2 (uninitialised fun _ => 0) = .ok (0xD0000010, next) ∧
      ¬Zeroed 0x80000001 2 0xD0000010 next := by
  have found := KmallocTiling.search_fresh
    (show (uninitialised fun _ => 0).heapStart = 0 from rfl)
    (show (0x80000001 * 2 + sizeofMemBlock : Word) ≤ KERNEL_HEAP_SIZE - sizeofMemBlock by decide)
  have served := kmalloc_found (by decide) found
  refine ⟨_, calloc_of_kmalloc (by decide) served, fun zeroed => ?_⟩
  have bound := Nat.lt_of_le_of_lt zeroed.1 (recordedSize _ _).isLt
  exact absurd bound (by decide)

end Vaelen.Kernel.Stdlib
