import Mathlib
import Vaelen.Kernel.KmallocRuns

/-!
When live allocations stay disjoint. The holes of the block list never overlap a
live allocation. heap_placement starts at the first block of the same list, so the
first request that no hole serves is placed over that block.
-/

namespace Vaelen.Kernel.KmallocSafety
open Vaelen.Base Platform Kmalloc KmallocBlocks KmallocTiling KmallocRuns

/-- The regions of any two simultaneously live allocations share no address. -/
def RegionsDisjoint (live : List Alloc) : Prop :=
  live.Pairwise fun first second => Disjoint first.region second.region

/-- The first block of the list is free and holds the request without a header to spare. -/
def FitsFirst (heap : Heap) (size : Word) : Prop :=
  (memBlock (initHeap heap).mem KERNEL_HEAP_START).free ≠ 0 ∧
    size ≤ (memBlock (initHeap heap).mem KERNEL_HEAP_START).size

/-- Nothing has been placed at heap_placement yet, and the request finds a hole or fits
the free block that heap_placement points at. -/
def Admitted (heap : Heap) (size : Word) : Prop :=
  heap.heapPlacement = KERNEL_HEAP_START ∧ (FindsHole heap size ∨ FitsFirst heap size)

/-- Requests of every size from 1 to the size of the heap. -/
def Requested (op : Call) : Prop :=
  ∀ size, op = .kmalloc size → size ≠ 0 ∧ size ≤ KERNEL_HEAP_SIZE

def AdmittedStep (s : State) (op : Call) (t : State) : Prop :=
  Step s op t ∧ Requested op ∧ ∀ size, op = .kmalloc size → Admitted s.heap size

theorem region_disjoint {first second : Alloc}
    (apart : first.ptr.toNat + first.size.toNat ≤ second.ptr.toNat - sizeofMemBlock.toNat ∨
      second.ptr.toNat + second.size.toNat ≤ first.ptr.toNat - sizeofMemBlock.toNat) :
    Disjoint first.region second.region := by
  unfold Alloc.region
  rw [Set.Ico_disjoint_Ico]
  omega

theorem regions_erased {live : List Alloc} (ptr : Word) (disjoint : RegionsDisjoint live) :
    RegionsDisjoint (live.eraseP fun alloc => alloc.ptr = ptr) :=
  disjoint.sublist List.eraseP_sublist

theorem Backed.region {blocks : List Block} {live : List Alloc} {memory : Mem}
    (layout : Layout memory blocks) (backed : Backed blocks live) {alloc : Alloc}
    (member : alloc ∈ live) :
    ∃ block ∈ blocks, block.free = false ∧
      alloc.ptr = block.addr + sizeofMemBlock ∧
      alloc.ptr.toNat - sizeofMemBlock.toNat = block.addr.toNat ∧
      alloc.ptr.toNat + alloc.size.toNat ≤ block.addr.toNat + 16 + block.size.toNat := by
  obtain ⟨block, inside, used, ptr, size⟩ := backed.block alloc member
  have bound := layout.bounds inside
  refine ⟨block, inside, used, ptr, ?_, ?_⟩
  · rw [ptr]
    bv_omega
  · rw [ptr]
    bv_omega

/-- The live allocations of a tiled heap are disjoint. -/
theorem backed_disjoint {blocks : List Block} {live : List Alloc} {memory : Mem}
    (layout : Layout memory blocks) (backed : Backed blocks live) : RegionsDisjoint live := by
  have distinct : live.Pairwise fun first second => first.ptr ≠ second.ptr :=
    List.pairwise_map.mp backed.distinct
  refine distinct.imp_of_mem fun {first second} firstLive secondLive different => ?_
  obtain ⟨block, inside, _, ptr, low, high⟩ := Backed.region layout backed firstLive
  obtain ⟨other, also, _, otherPtr, otherLow, otherHigh⟩ := Backed.region layout backed secondLive
  have elsewhere : other.addr ≠ block.addr := by
    intro same
    rw [ptr, otherPtr, same] at different
    exact different rfl
  apply region_disjoint
  rcases layout.separate inside also elsewhere with order | order
  · left
    omega
  · right
    omega

theorem represented_disjoint {s : State} (represented : Represented s) :
    RegionsDisjoint s.live := by
  rcases represented with ⟨_, empty⟩ | ⟨blocks, tiling, backed⟩
  · rw [empty]
    exact List.Pairwise.nil
  · exact backed_disjoint tiling.layout backed

/-! The fallback. -/

/-- A request that no hole serves and that returns is placed at heap_placement. -/
theorem kmalloc_placed {fuel : Nat} {heap next : Heap} {size ptr : Word} (nonzero : size ≠ 0)
    (missed : ¬FindsHole heap size) (returned : kmalloc fuel size heap = .ok (ptr, next)) :
    ptr = heap.heapPlacement + sizeofMemBlock ∧
      next.heapPlacement = heap.heapPlacement + (size + sizeofMemBlock) ∧
      heap.heapPlacement + (size + sizeofMemBlock) ≤ KERNEL_HEAP_START + KERNEL_HEAP_SIZE := by
  simp only [kmalloc, kmallocP, kmallocAp, if_neg nonzero] at returned
  split at returned
  · exact absurd returned (by simp)
  · rw [← initHeap_placement heap]
    exact placeBlock_ok returned
  · next addr hit => exact absurd ⟨fuel, addr, hit⟩ missed

/-- The header at the start of the heap is the first block of the list. -/
theorem fitsFirst_iff {heap : Heap} {first : Block} {rest : List Block}
    (tiling : Tiling (initHeap heap) (first :: rest)) (size : Word) :
    FitsFirst heap size ↔ first.free = true ∧ size ≤ first.size := by
  obtain ⟨_, _, same, addr⟩ := tiling.head
  obtain ⟨rfl, rfl⟩ := List.cons.inj same
  have header := tiling.layout.chained.1
  rw [addr] at header
  rw [FitsFirst, header]
  exact and_congr (flag_ne_zero first.free) Iff.rfl

/-- Placed over a free first block that holds it, a request meets no live allocation. -/
theorem placed_disjoint {memory : Mem} {first : Block} {rest : List Block} {live : List Alloc}
    {size : Word} (layout : Layout memory (first :: rest)) (backed : Backed (first :: rest) live)
    (addr : first.addr = KERNEL_HEAP_START) (free : first.free = true) (room : size ≤ first.size) :
    RegionsDisjoint (⟨KERNEL_HEAP_START + sizeofMemBlock, size⟩ :: live) := by
  refine List.Pairwise.cons (fun alloc member => ?_) (backed_disjoint layout backed)
  obtain ⟨block, inside, used, _, low, _⟩ := Backed.region layout backed member
  have later : block ∈ rest := by
    rcases List.mem_cons.mp inside with same | later
    · rw [same, free] at used
      exact absurd used Bool.noConfusion
    · exact later
  have front : Layout memory ([] ++ first :: rest) := layout
  have order := front.after_start later
  have bound := front.inside
  apply region_disjoint
  left
  rw [low]
  rw [addr] at order
  bv_omega

/-- Placed over a first block it does not fit, a request overlaps a live allocation. -/
theorem placed_overlaps {memory : Mem} {first : Block} {rest : List Block} {live : List Alloc}
    {size : Word} (layout : Layout memory (first :: rest)) (coalesced : Coalesced (first :: rest))
    (backed : Backed (first :: rest) live) (addr : first.addr = KERNEL_HEAP_START)
    (small : size ≤ KERNEL_HEAP_SIZE)
    (fitting : KERNEL_HEAP_START + (size + sizeofMemBlock) ≤ KERNEL_HEAP_START + KERNEL_HEAP_SIZE)
    (misfit : ¬(first.free = true ∧ size ≤ first.size)) :
    ¬RegionsDisjoint (⟨KERNEL_HEAP_START + sizeofMemBlock, size⟩ :: live) := by
  intro disjoint
  have front : Layout memory ([] ++ first :: rest) := layout
  -- It is enough to find a used block that starts inside the placed region.
  have clash : ∀ block ∈ first :: rest, block.free = false →
      block.addr.toNat < KERNEL_HEAP_START.toNat + 16 + size.toNat → False := by
    intro block member used inside
    obtain ⟨alloc, held, ptr⟩ := backed.alloc block member used
    have apart := (List.pairwise_cons.mp disjoint).1 alloc held
    have bound := layout.bounds member
    have low := heap_low
    refine Set.disjoint_left.mp apart ?_ (?_ : block.addr.toNat ∈ alloc.region)
    · constructor
      · bv_omega
      · bv_omega
    · constructor
      · rw [ptr]
        bv_omega
      · rw [ptr]
        bv_omega
  cases used : first.free with
  | false =>
    refine clash first List.mem_cons_self used ?_
    rw [addr]
    omega
  | true =>
    have short : ¬size ≤ first.size := fun room => misfit ⟨used, room⟩
    cases rest with
    | nil =>
      have whole : first.start + first.extent = KERNEL_HEAP_START.toNat + KERNEL_HEAP_SIZE.toNat :=
        layout.tiled.1 ▸ layout.tiled.2
      simp only [Block.start, Block.extent, addr] at whole
      bv_omega
    | cons second rest =>
      have usedSecond : second.free = false := by
        have apart := (List.isChain_cons_cons.mp coalesced).1
        cases taken : second.free with
        | false => rfl
        | true => exact absurd ⟨used, taken⟩ apart
      refine clash second (by simp) usedSecond ?_
      have here : second.start = first.start + first.extent := by
        rw [layout.tiled.2.1, ← layout.tiled.1]
      simp only [Block.start, Block.extent, addr] at here
      bv_omega

/-! Runs. -/

/-- Before the first placement the heap is represented; after it no request is admitted. -/
def Safe (s : State) : Prop :=
  (Represented s ∧ s.heap.heapPlacement = KERNEL_HEAP_START) ∨
    (RegionsDisjoint s.live ∧ s.heap.heapPlacement ≠ KERNEL_HEAP_START)

theorem Safe.disjoint {s : State} (safe : Safe s) : RegionsDisjoint s.live := by
  rcases safe with ⟨represented, _⟩ | ⟨disjoint, _⟩
  · exact represented_disjoint represented
  · exact disjoint

@[simp] theorem kfree_placement (ptr : Word) (heap : Heap) :
    (kfree ptr heap).heapPlacement = heap.heapPlacement := by
  unfold kfree
  split <;> rfl

theorem kmalloc_served_placement {fuel : Nat} {s t : State} {size : Word}
    (step : call fuel s (.kmalloc size) = some t) (nonzero : size ≠ 0)
    (found : FindsHole s.heap size) (represented : Represented s)
    (small : size.toNat < 2 ^ 32 - 16) : t.heap.heapPlacement = s.heap.heapPlacement := by
  obtain ⟨blocks, tiling, _⟩ := represented.initHeap
  obtain ⟨ptr, heap, returned, sameHeap, _⟩ := call_kmalloc step
  obtain ⟨_, hole, _, _, _, _, first⟩ := found.split tiling small
  obtain ⟨_, same⟩ := kmalloc_served tiling nonzero first returned
  rw [sameHeap, same, ← initHeap_placement s.heap]
  rfl

/-- A request that no hole serves, from a represented state: the region it is given
lies over the first block, and meets a live allocation exactly when it does not fit. -/
theorem kmalloc_missed {fuel : Nat} {s t : State} {size : Word}
    (represented : Represented s) (unplaced : s.heap.heapPlacement = KERNEL_HEAP_START)
    (nonzero : size ≠ 0) (small : size ≤ KERNEL_HEAP_SIZE) (missed : ¬FindsHole s.heap size)
    (step : call fuel s (.kmalloc size) = some t) :
    t.heap.heapPlacement ≠ KERNEL_HEAP_START ∧
      (RegionsDisjoint t.live ↔ FitsFirst s.heap size) := by
  obtain ⟨blocks, tiling, backed⟩ := represented.initHeap
  obtain ⟨ptr, heap, returned, sameHeap, sameLive⟩ := call_kmalloc step
  obtain ⟨samePtr, placement, fitting⟩ := kmalloc_placed nonzero missed returned
  rw [unplaced] at samePtr placement fitting
  have present : ptr ≠ 0 := by
    rw [samePtr]
    decide
  rw [if_neg present, samePtr] at sameLive
  obtain ⟨first, rest, split, addr⟩ := tiling.head
  subst split
  rw [fitsFirst_iff tiling size, sameLive, sameHeap, placement]
  refine ⟨by bv_omega, fun disjoint => ?_, fun fits => ?_⟩
  · by_contra misfit
    exact placed_overlaps tiling.layout tiling.coalesced backed addr small fitting misfit disjoint
  · exact placed_disjoint tiling.layout backed addr fits.1 fits.2

theorem admittedStep_safe {s t : State} {op : Call} (safe : Safe s)
    (step : AdmittedStep s op t) : Safe t := by
  obtain ⟨⟨fuel, step⟩, requested, admitted⟩ := step
  cases op with
  | kmalloc size =>
    obtain ⟨nonzero, small⟩ := requested size rfl
    obtain ⟨unplaced, admission⟩ := admitted size rfl
    have represented : Represented s := by
      rcases safe with ⟨represented, _⟩ | ⟨_, placed⟩
      · exact represented
      · exact absurd unplaced placed
    by_cases found : FindsHole s.heap size
    · have bound : size.toNat < 2 ^ 32 - 16 := by bv_omega
      refine Or.inl ⟨Or.inr (kmalloc_represented represented step fun _ => ⟨bound, found⟩), ?_⟩
      rw [kmalloc_served_placement step nonzero found represented bound, unplaced]
    · obtain ⟨placed, disjoint⟩ := kmalloc_missed represented unplaced nonzero small found step
      exact Or.inr ⟨disjoint.mpr (admission.resolve_left found), placed⟩
  | kfree ptr =>
    obtain ⟨⟨alloc, member, _⟩, sameHeap, sameLive⟩ := call_kfree step
    rcases safe with ⟨represented, unplaced⟩ | ⟨disjoint, placed⟩
    · rcases represented with ⟨_, empty⟩ | ⟨blocks, tiling, backed⟩
      · rw [empty] at member
        exact absurd member List.not_mem_nil
      · refine Or.inl ⟨Or.inr (kfree_represented tiling backed step), ?_⟩
        rw [sameHeap, kfree_placement, unplaced]
    · refine Or.inr ⟨sameLive ▸ regions_erased ptr disjoint, ?_⟩
      rw [sameHeap, kfree_placement]
      exact placed

theorem admittedRun_safe {memory : Mem} {ops : List Call} {s : State}
    (run : Runs AdmittedStep (start memory) ops s) : Safe s :=
  run.invariant (Or.inl ⟨represented_start memory, rfl⟩) fun _ _ _ safe step =>
    admittedStep_safe safe step

/-- In every run whose requests are all admitted the live regions are disjoint, and up to
the first placement a further request that returns keeps them so exactly when it is
admitted itself. -/
theorem admittedRun_disjoint (memory : Mem) (ops : List Call) (s : State)
    (run : Runs AdmittedStep (start memory) ops s) :
    RegionsDisjoint s.live ∧
      ∀ size t, size ≠ 0 → size ≤ KERNEL_HEAP_SIZE →
        s.heap.heapPlacement = KERNEL_HEAP_START → Step s (.kmalloc size) t →
        (RegionsDisjoint t.live ↔ Admitted s.heap size) := by
  have safe := admittedRun_safe run
  refine ⟨safe.disjoint, fun size t nonzero small unplaced step => ⟨fun disjoint => ?_, ?_⟩⟩
  · have represented : Represented s := by
      rcases safe with ⟨represented, _⟩ | ⟨_, placed⟩
      · exact represented
      · exact absurd unplaced placed
    obtain ⟨fuel, step⟩ := step
    refine ⟨unplaced, ?_⟩
    by_cases found : FindsHole s.heap size
    · exact Or.inl found
    · exact Or.inr ((kmalloc_missed represented unplaced nonzero small found step).2.mp disjoint)
  · intro admitted
    have next : AdmittedStep s (.kmalloc size) t :=
      ⟨step, fun other same => by cases same; exact ⟨nonzero, small⟩,
        fun other same => by cases same; exact admitted⟩
    exact (admittedStep_safe safe next).disjoint

/-- After a request for 8 MB one for 9 MB is not admitted. -/
theorem admittedRun_disjoint_large :
    ∃ s, Runs AdmittedStep (start fun _ => 0) [.kmalloc 0x800000] s ∧ RegionsDisjoint s.live ∧
      ∀ t, Step s (.kmalloc 0x900000) t →
        (RegionsDisjoint t.live ↔ Admitted s.heap 0x900000) := by
  have once : ((call 2 (start fun _ => 0) (.kmalloc 0x800000)).map
      fun s => s.heap.heapPlacement) = some KERNEL_HEAP_START := by decide +kernel
  obtain ⟨s, step, unplaced⟩ := Option.map_eq_some_iff.mp once
  have served : FindsHole (uninitialised fun _ => 0) 0x800000 := findsHole_fresh rfl (by decide)
  have run : Runs AdmittedStep (start fun _ => 0) [.kmalloc 0x800000] s := by
    refine Runs.next ⟨⟨2, step⟩, ?_, ?_⟩ (Runs.done s)
    · intro size same
      cases same
      decide
    · intro size same
      cases same
      exact ⟨rfl, Or.inl served⟩
  have result := admittedRun_disjoint (fun _ => 0) _ s run
  exact ⟨s, run, result.1, fun t => result.2 0x900000 t (by decide) (by decide) unplaced⟩

/-- Two requests that both return the payload of the first block. -/
theorem liveRegions_overlap :
    ¬∀ (memory : Mem) (ops : List Call) (s : State),
      Runs (fun s op t => Step s op t ∧ Requested op) (start memory) ops s →
        RegionsDisjoint s.live := by
  intro claim
  have twice : ((call 3 (start fun _ => 0) (.kmalloc 0x800000)).bind fun s =>
      call 3 s (.kmalloc 0x900000)).map State.live =
      some [⟨0xD0000010, 0x900000⟩, ⟨0xD0000010, 0x800000⟩] := by decide +kernel
  obtain ⟨t, run, live⟩ := Option.map_eq_some_iff.mp twice
  obtain ⟨s, first, second⟩ := Option.bind_eq_some_iff.mp run
  have steps : Runs (fun s op t => Step s op t ∧ Requested op) (start fun _ => 0)
      [.kmalloc 0x800000, .kmalloc 0x900000] t := by
    refine Runs.next ⟨⟨3, first⟩, ?_⟩ (Runs.next ⟨⟨3, second⟩, ?_⟩ (Runs.done t))
    · intro size same
      cases same
      decide
    · intro size same
      cases same
      decide
  have disjoint := claim (fun _ => 0) _ t steps
  rw [live] at disjoint
  have apart := (List.pairwise_cons.mp disjoint).1 _ List.mem_cons_self
  have inside : ∀ size : Word, 0 < size.toNat → 0xD0000010 ∈ Alloc.region ⟨0xD0000010, size⟩ := by
    intro size positive
    constructor
    · change (0xD0000010 : Nat) - 16 ≤ 0xD0000010
      omega
    · change (0xD0000010 : Nat) < 0xD0000010 + size.toNat
      omega
  exact Set.disjoint_left.mp apart (inside _ (by decide)) (inside _ (by decide))

end Vaelen.Kernel.KmallocSafety
