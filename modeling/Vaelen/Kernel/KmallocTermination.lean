import Vaelen.Kernel.KmallocSafety

/-!
Whether the list from heap_start ends. Serving a request from a hole and freeing a block keep
it finite. The first block placed at heap_placement is heap_end itself, which is then linked
to itself.
-/

namespace Vaelen.Kernel.KmallocTermination
open Vaelen.Base Platform Kmalloc KmallocBlocks KmallocTiling KmallocRuns KmallocSafety

/-- The blocks from `current` on, along the next fields up to null. -/
def Ends (memory : Mem) : Word → List Word → Prop
  | current, [] => current = 0
  | current, block :: rest =>
      current ≠ 0 ∧ block = current ∧ Ends memory (memBlock memory current).next rest

/-- The list is finite and acyclic, and no search and no request runs on. -/
structure Terminates (heap : Heap) : Prop where
  acyclic : ∃ list, Ends heap.mem heap.heapStart list ∧ list.Nodup
  search : ∀ size, ∃ fuel result,
    mmFindSmallestHole heap.mem size fuel heap.heapStart = some result
  requests : ∀ size, size ≤ KERNEL_HEAP_SIZE → ∃ fuel, kmalloc fuel size heap ≠ .error .running

/-- Requests are at most as large as the heap. -/
def BoundedStep (s : State) (op : Call) (t : State) : Prop :=
  Step s op t ∧ ∀ size, op = .kmalloc size → size ≤ KERNEL_HEAP_SIZE

variable {memory : Mem} {current : Word} {list rest : List Word}

theorem Ends.unique (first : Ends memory current list) (second : Ends memory current rest) :
    list = rest := by
  induction list generalizing current rest with
  | nil =>
    cases rest with
    | nil => rfl
    | cons block rest => exact absurd first second.1
  | cons block list ih =>
    cases rest with
    | nil => exact absurd second first.1
    | cons other rest => rw [first.2.1, second.2.1, ih first.2.2 second.2.2]

theorem Ends.suffix {before after : List Word} {block : Word}
    (ends : Ends memory current (before ++ block :: after)) : Ends memory block (block :: after) := by
  induction before generalizing current with
  | nil =>
    obtain ⟨present, same, tail⟩ := ends
    exact same ▸ ⟨present, rfl, tail⟩
  | cons first before ih => exact ih ends.2.2

/-- A list that ends meets no block twice. -/
theorem Ends.nodup (ends : Ends memory current list) : list.Nodup := by
  induction list generalizing current with
  | nil => exact List.nodup_nil
  | cons block list ih =>
    obtain ⟨present, same, tail⟩ := ends
    apply List.nodup_cons.mpr
    refine ⟨fun again => ?_, ih tail⟩
    obtain ⟨before, after, split⟩ := List.append_of_mem again
    have whole : Ends memory block (block :: list) := same ▸ ⟨present, rfl, tail⟩
    have later : Ends memory block (block :: after) := (split ▸ tail).suffix
    have lengths := congrArg List.length (whole.unique later)
    rw [split] at lengths
    simp only [List.length_cons, List.length_append] at lengths
    omega

theorem Ends.search (ends : Ends memory current list) (size : Word) :
    ∃ result, mmFindSmallestHole memory size (list.length + 1) current = some result := by
  induction list generalizing current with
  | nil =>
    have null : current = 0 := ends
    refine ⟨none, ?_⟩
    rw [mmFindSmallestHole, if_pos null]
  | cons block list ih =>
    obtain ⟨present, _, tail⟩ := ends
    rw [mmFindSmallestHole, if_neg present]
    by_cases hit : (memBlock memory current).free ≠ 0 ∧ size ≤ (memBlock memory current).size
    · rw [if_pos hit]
      exact ⟨some current, rfl⟩
    · rw [if_neg hit]
      exact ih tail

theorem not_ends (present : current ≠ 0) (loops : (memBlock memory current).next = current) :
    ¬Ends memory current list := by
  induction list with
  | nil => exact present
  | cons block list ih =>
    intro ends
    have tail := ends.2.2
    rw [loops] at tail
    exact ih tail

/-! The tiled heaps. -/

theorem ends_segment {prev : Word} {blocks : List Block}
    (chained : Segment (memBlock memory) Block.addr Block.header prev blocks 0)
    (present : ∀ block ∈ blocks, block.addr ≠ 0) :
    Ends memory (headKey Block.addr blocks 0) (blocks.map Block.addr) := by
  induction blocks generalizing prev with
  | nil => rfl
  | cons block rest ih =>
    obtain ⟨header, tail⟩ := chained
    refine ⟨present block List.mem_cons_self, rfl, ?_⟩
    change Ends memory (memBlock memory block.addr).next _
    rw [header]
    exact ih tail fun other member => present other (List.mem_cons_of_mem block member)

theorem tiling_ends {heap : Heap} {blocks : List Block} (tiling : Tiling heap blocks) :
    Ends heap.mem heap.heapStart (blocks.map Block.addr) := by
  have chain := ends_segment tiling.layout.chained fun _ => tiling.layout.addr_ne_zero
  obtain ⟨first, rest, split, addr⟩ := tiling.head
  rw [split] at chain ⊢
  have entry : headKey Block.addr (first :: rest) 0 = heap.heapStart := addr.trans tiling.start.symm
  rwa [entry] at chain

theorem placeBlock_ends (size phys : Word) (heap : Heap) :
    placeBlock size phys heap ≠ .error .running := by
  intro running
  unfold placeBlock at running
  by_cases full :
      KERNEL_HEAP_START + KERNEL_HEAP_SIZE < heap.heapPlacement + (size + sizeofMemBlock)
  · simp only [if_pos full, kernelPanic, Except.error.injEq, reduceCtorEq] at running
  · simp only [if_neg full, reduceCtorEq] at running

theorem kmalloc_ends {fuel : Nat} {size : Word} {heap : Heap} {result : Option Word}
    (found : mmFindSmallestHole (initHeap heap).mem (size + sizeofMemBlock) fuel
      (initHeap heap).heapStart = some result) : kmalloc fuel size heap ≠ .error .running := by
  simp only [kmalloc, kmallocP, kmallocAp, found]
  by_cases zero : size = 0
  · rw [if_pos zero]
    simp
  · rw [if_neg zero]
    cases result with
    | none => exact placeBlock_ends size 0 (initHeap heap)
    | some hole => simp

theorem represented_terminates {s : State} (represented : Represented s) : Terminates s.heap := by
  have ends : ∃ list, Ends s.heap.mem s.heap.heapStart list := by
    rcases represented with ⟨fresh, _⟩ | ⟨blocks, tiling, _⟩
    · exact ⟨[], fresh⟩
    · exact ⟨_, tiling_ends tiling⟩
  obtain ⟨list, ends⟩ := ends
  obtain ⟨blocks, tiling, _⟩ := represented.initHeap
  refine ⟨⟨list, ends, ends.nodup⟩, fun size => ⟨_, ends.search size⟩, fun size _ => ?_⟩
  obtain ⟨result, found⟩ := (tiling_ends tiling).search (size + sizeofMemBlock)
  exact ⟨_, kmalloc_ends found⟩

/-! The static variables up to the first placement. -/

structure Unplaced (heap : Heap) : Prop where
  placement : heap.heapPlacement = KERNEL_HEAP_START
  last : heap.heapStart ≠ 0 → heap.heapEnd = KERNEL_HEAP_START

theorem Unplaced.initHeap {heap : Heap} (unplaced : Unplaced heap) :
    Unplaced (initHeap heap) ∧ (initHeap heap).heapEnd = KERNEL_HEAP_START := by
  have kept := (initHeap_placement heap).trans unplaced.placement
  have last : (Kmalloc.initHeap heap).heapEnd = KERNEL_HEAP_START := by
    unfold Kmalloc.initHeap
    by_cases fresh : heap.heapStart = 0
    · rw [if_pos fresh]
    · rw [if_neg fresh]
      exact unplaced.last fresh
  exact ⟨⟨kept, fun _ => last⟩, last⟩

theorem Unplaced.kfree {heap : Heap} (unplaced : Unplaced heap) (ptr : Word) :
    Unplaced (kfree ptr heap) := by
  unfold Kmalloc.kfree
  split
  · exact unplaced
  · exact ⟨unplaced.placement, unplaced.last⟩

/-- A step of the hole path places nothing. -/
theorem holeStep_unplaced {s t : State} {op : Call} (represented : Represented s)
    (unplaced : Unplaced s.heap) (step : HoleStep s op t) : Unplaced t.heap := by
  obtain ⟨⟨fuel, returned⟩, path⟩ := step
  cases op with
  | kmalloc size =>
    obtain ⟨blocks, tiling, _⟩ := represented.initHeap
    obtain ⟨ptr, heap, served, sameHeap, _⟩ := call_kmalloc returned
    obtain ⟨started, _⟩ := unplaced.initHeap
    rw [sameHeap]
    by_cases zero : size = 0
    · subst zero
      rw [(kmalloc_zero served).2]
      exact started
    · obtain ⟨hole, first⟩ := (findsHole_iff tiling size).mp (path size rfl zero).2
      rw [(kmalloc_served tiling zero first served).2]
      exact ⟨started.placement, started.last⟩
  | kfree ptr =>
    rw [(call_kfree returned).2.1]
    exact unplaced.kfree ptr

/-- The block that is placed first is linked to itself. -/
theorem placeBlock_loops {size ptr : Word} {heap next : Heap}
    (unplaced : heap.heapPlacement = KERNEL_HEAP_START) (last : heap.heapEnd = KERNEL_HEAP_START)
    (returned : placeBlock size 0 heap = .ok (ptr, next)) :
    (memBlock next.mem KERNEL_HEAP_START).next = KERNEL_HEAP_START ∧
      next.heapStart = heap.heapStart := by
  have linked : heap.heapEnd ≠ 0 := by
    rw [last]
    decide
  unfold placeBlock at returned
  by_cases full :
      KERNEL_HEAP_START + KERNEL_HEAP_SIZE < heap.heapPlacement + (size + sizeofMemBlock)
  · simp only [if_pos full, kernelPanic] at returned
    exact absurd returned (by simp)
  · simp only [if_neg full, if_pos linked, Except.ok.injEq, Prod.mk.injEq] at returned
    rw [← returned.2]
    refine ⟨?_, rfl⟩
    simp only [storePhys, ne_eq, not_true_eq_false, if_false, last, unplaced, memBlock_setNext]

/-- A request that no hole serves leaves a list that does not end. -/
theorem missed_loops {fuel : Nat} {s t : State} {size : Word} (represented : Represented s)
    (unplaced : Unplaced s.heap) (nonzero : size ≠ 0) (missed : ¬FindsHole s.heap size)
    (step : call fuel s (.kmalloc size) = some t) : ¬Terminates t.heap := by
  obtain ⟨ptr, heap, returned, sameHeap, _⟩ := call_kmalloc step
  obtain ⟨blocks, tiling, _⟩ := represented.initHeap
  obtain ⟨started, last⟩ := unplaced.initHeap
  have placed : placeBlock size 0 (initHeap s.heap) = .ok (ptr, heap) := by
    simp only [kmalloc, kmallocP, kmallocAp, if_neg nonzero] at returned
    split at returned
    · exact absurd returned (by simp)
    · exact returned
    · next addr hit => exact absurd ⟨fuel, addr, hit⟩ missed
  obtain ⟨loops, same⟩ := placeBlock_loops started.placement last placed
  intro terminates
  obtain ⟨list, ends, _⟩ := terminates.acyclic
  rw [sameHeap, same, tiling.start] at ends
  exact not_ends (by decide) loops ends

/-! Runs. -/

/-- Every nonzero request of the run finds a hole. -/
def FindsHoles (memory : Mem) (ops : List Call) : Prop :=
  ∀ before size after s t, ops = before ++ .kmalloc size :: after →
    Runs BoundedStep (start memory) before s → BoundedStep s (.kmalloc size) t → size ≠ 0 →
      FindsHole s.heap size

theorem boundedStep_unplaced {s t : State} {op : Call} (represented : Represented s)
    (unplaced : Unplaced s.heap) (step : BoundedStep s op t)
    (found : ∀ size, op = .kmalloc size → size ≠ 0 → FindsHole s.heap size) :
    Represented t ∧ Unplaced t.heap := by
  have hole : HoleStep s op t := by
    refine ⟨step.1, fun size same nonzero => ⟨?_, found size same nonzero⟩⟩
    have bound := step.2 size same
    bv_omega
  exact ⟨Or.inr (holeStep_represented represented hole), holeStep_unplaced represented unplaced hole⟩

theorem start_unplaced (memory : Mem) : Unplaced (start memory).heap :=
  ⟨rfl, fun started => absurd rfl started⟩

/-- As long as no request misses, nothing is placed. -/
theorem run_unplaced {memory : Mem} {ops : List Call}
    (found : ∀ before size after s t, ops = before ++ .kmalloc size :: after → Represented s →
      Unplaced s.heap → Runs BoundedStep (start memory) before s →
      BoundedStep s (.kmalloc size) t → size ≠ 0 → FindsHole s.heap size)
    (before after : List Call) (s : State) (split : ops = before ++ after)
    (run : Runs BoundedStep (start memory) before s) : Represented s ∧ Unplaced s.heap := by
  refine Runs.along ⟨represented_start memory, start_unplaced memory⟩ ?_ before after s split run
  rintro before op after middle next whole first step ⟨represented, unplaced⟩
  apply boundedStep_unplaced represented unplaced step
  intro size same nonzero
  subst same
  exact found before size after middle next whole represented unplaced first step nonzero

/-- In every state of a run the list ends and so does every request, exactly when every nonzero
request of the run finds a hole. -/
theorem run_terminates_iff (memory : Mem) (ops : List Call) :
    (∀ before after s, ops = before ++ after → Runs BoundedStep (start memory) before s →
        Terminates s.heap) ↔ FindsHoles memory ops := by
  constructor
  · intro terminates
    have found : ∀ before size after s t, ops = before ++ .kmalloc size :: after →
        Represented s → Unplaced s.heap → Runs BoundedStep (start memory) before s →
        BoundedStep s (.kmalloc size) t → size ≠ 0 → FindsHole s.heap size := by
      intro before size after s t split represented unplaced run step nonzero
      by_contra missed
      have ends := terminates (before ++ [.kmalloc size]) after t (by simp [split]) (run.snoc step)
      obtain ⟨⟨fuel, returned⟩, _⟩ := step
      exact missed_loops represented unplaced nonzero missed returned ends
    intro before size after s t split run step nonzero
    obtain ⟨represented, unplaced⟩ := run_unplaced found before _ s split run
    exact found before size after s t split represented unplaced run step nonzero
  · intro found before after s split run
    have placed : Represented s ∧ Unplaced s.heap := by
      apply run_unplaced ?_ before after s split run
      intro before size after s t split _ _
      exact found before size after s t split
    exact represented_terminates placed.1

/-- A request for 8 MB and one for 9 MB leave a list that does not end. -/
theorem run_not_terminating :
    ¬∀ (memory : Mem) (ops : List Call) (s : State), Runs BoundedStep (start memory) ops s →
      Terminates s.heap := by
  intro claim
  have twice : ((call 3 (start fun _ => 0) (.kmalloc 0x800000)).bind fun s =>
      (call 3 s (.kmalloc 0x900000)).map fun t =>
        (t.heap.heapStart, (memBlock t.heap.mem KERNEL_HEAP_START).next)) =
      some (KERNEL_HEAP_START, KERNEL_HEAP_START) := by decide +kernel
  obtain ⟨s, first, rest⟩ := Option.bind_eq_some_iff.mp twice
  obtain ⟨t, second, same⟩ := Option.map_eq_some_iff.mp rest
  obtain ⟨started, loops⟩ := Prod.mk.inj same
  have run : Runs BoundedStep (start fun _ => 0) [.kmalloc 0x800000, .kmalloc 0x900000] t := by
    refine Runs.next ⟨⟨3, first⟩, ?_⟩ (Runs.next ⟨⟨3, second⟩, ?_⟩ (Runs.done t))
    · intro size same
      cases same
      decide
    · intro size same
      cases same
      decide
  obtain ⟨list, ends, _⟩ := (claim (fun _ => 0) _ t run).acyclic
  rw [started] at ends
  exact not_ends (by decide) loops ends

end Vaelen.Kernel.KmallocTermination
