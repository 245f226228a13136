import Vaelen.Base.Selection
import Vaelen.Kernel.KmallocRuns

/-!
mm_find_smallest_hole on any finite block list, tiled or not. It returns the first block that is
large enough, and so the smallest one only when no later block is smaller.
-/

namespace Vaelen.Kernel.KmallocFit
open Vaelen.Base Platform Kmalloc KmallocBlocks KmallocTiling KmallocRuns

/-- The addresses of the blocks from `head` on, in the order of the next fields. -/
structure BlockList (memory : Mem) (head : Word) (list : List Word) : Prop where
  entry : headKey id list 0 = head
  chained : Segment (fun addr => (memBlock memory addr).next) id (fun _ _ after => after) 0 list 0
  present : 0 ∉ list

/-- A free block that is large enough. -/
def Sufficient (memory : Mem) (size block : Word) : Prop :=
  (memBlock memory block).free ≠ 0 ∧ size ≤ (memBlock memory block).size

instance (memory : Mem) (size block : Word) : Decidable (Sufficient memory size block) :=
  inferInstanceAs (Decidable (_ ∧ _))

/-- The blocks of a tiled heap are such a list. -/
theorem blockList_of_tiling {heap : Heap} {blocks : List Block} (tiling : Tiling heap blocks) :
    BlockList heap.mem heap.heapStart (blocks.map Block.addr) := by
  obtain ⟨first, rest, split, same⟩ := tiling.head
  refine ⟨?_, tiling.layout.chained.keys fun _ _ _ => rfl, fun member => ?_⟩
  · rw [tiling.start, split]
    exact same
  · obtain ⟨block, listed, zero⟩ := List.mem_map.mp member
    exact tiling.layout.addr_ne_zero listed zero

theorem BlockList.search {memory : Mem} {head : Word} {list : List Word}
    (links : BlockList memory head list) (size : Word) {fuel : Nat} (enough : list.length < fuel) :
    mmFindSmallestHole memory size fuel head =
      some (list.find? fun block => decide (Sufficient memory size block)) := by
  rw [← links.entry]
  exact search_segment size links.chained links.present enough

/-- What the name of mm_find_smallest_hole says of its result. -/
structure BestFit (memory : Mem) (size : Word) (list : List Word) (found : Option Word) : Prop where
  least : ∀ hole, found = some hole → hole ∈ list ∧ Sufficient memory size hole ∧
    ∀ other ∈ list, Sufficient memory size other →
      (memBlock memory hole).size ≤ (memBlock memory other).size
  missing : found = none ↔ ∀ block ∈ list, ¬Sufficient memory size block

/-- No sufficient block is smaller than the first one. -/
def FirstLeast (memory : Mem) (size : Word) (list : List Word) : Prop :=
  ∀ before hole after, list = before ++ hole :: after → Sufficient memory size hole →
    (∀ other ∈ before, ¬Sufficient memory size other) →
    ∀ other ∈ after, Sufficient memory size other →
      (memBlock memory hole).size ≤ (memBlock memory other).size

theorem bestFit_find_iff (memory : Mem) (size : Word) (list : List Word) :
    BestFit memory size list (list.find? fun block => decide (Sufficient memory size block)) ↔
      FirstLeast memory size list := by
  have least : (∀ hole, list.find? (fun block => decide (Sufficient memory size block)) = some hole →
      ∀ other ∈ list, Sufficient memory size other →
        (memBlock memory hole).size ≤ (memBlock memory other).size) ↔
      FirstLeast memory size list := by
    have general := find_least_iff (fun block => decide (Sufficient memory size block))
      (fun block => (memBlock memory block).size.toNat) list
    simp only [decide_eq_true_eq] at general
    exact general
  constructor
  · intro best
    exact least.mp fun hole found => (best.least hole found).2.2
  · intro first
    refine ⟨fun hole found => ⟨List.mem_of_find?_eq_some found, ?_, least.mpr first hole found⟩, ?_⟩
    · simpa using List.find?_some found
    · simp only [List.find?_eq_none, decide_eq_true_eq]

/-- The search returns on every finite list, and it returns the best fit exactly when no sufficient
block behind the first one is smaller. -/
theorem search_best_iff (memory : Mem) (size head : Word) (list : List Word)
    (links : BlockList memory head list) :
    (∃ found, (∀ fuel, list.length < fuel →
        mmFindSmallestHole memory size fuel head = some found) ∧ BestFit memory size list found) ↔
      FirstLeast memory size list := by
  rw [← bestFit_find_iff]
  constructor
  · rintro ⟨found, returns, best⟩
    have same := (returns _ (Nat.lt_succ_self _)).symm.trans (links.search size (Nat.lt_succ_self _))
    rw [← Option.some.inj same]
    exact best
  · exact fun best => ⟨_, fun _ enough => links.search size enough, best⟩

/-- Four blocks of 256, 16, 64 and 16 bytes, the larger two freed again. -/
structure Scattered (s : State) : Prop where
  reached : Runs Step (start fun _ => 0)
    [.kmalloc 256, .kmalloc 16, .kmalloc 64, .kmalloc 16, .kfree 0xD0000010, .kfree 0xD0000140] s
  links : BlockList s.heap.mem s.heap.heapStart [0xD0000000, 0xD0000110, 0xD0000130, 0xD0000180, 0xD00001A0]
  first : memBlock s.heap.mem 0xD0000000 = ⟨256, 0xD0000110, 0, 1⟩
  second : memBlock s.heap.mem 0xD0000110 = ⟨16, 0xD0000130, 0xD0000000, 0⟩
  third : memBlock s.heap.mem 0xD0000130 = ⟨64, 0xD0000180, 0xD0000110, 1⟩
  fourth : memBlock s.heap.mem 0xD0000180 = ⟨16, 0xD00001A0, 0xD0000130, 0⟩
  fifth : memBlock s.heap.mem 0xD00001A0 = ⟨0xFFFE50, 0, 0xD0000180, 1⟩

theorem scattered : ∃ s, Scattered s := by
  let ops : List KmallocRuns.Call := [.kmalloc 256, .kmalloc 16, .kmalloc 64, .kmalloc 16,
    .kfree 0xD0000010, .kfree 0xD0000140]
  have facts : (ops.foldlM (call 6) (start fun _ => 0)).map (fun s =>
      (s.heap.heapStart, memBlock s.heap.mem 0xD0000000, memBlock s.heap.mem 0xD0000110,
        memBlock s.heap.mem 0xD0000130, memBlock s.heap.mem 0xD0000180,
        memBlock s.heap.mem 0xD00001A0)) =
      some (0xD0000000, ⟨256, 0xD0000110, 0, 1⟩, ⟨16, 0xD0000130, 0xD0000000, 0⟩,
        ⟨64, 0xD0000180, 0xD0000110, 1⟩, ⟨16, 0xD00001A0, 0xD0000130, 0⟩,
        ⟨0xFFFE50, 0, 0xD0000180, 1⟩) := by decide +kernel
  obtain ⟨s, returned, same⟩ := Option.map_eq_some_iff.mp facts
  simp only [Prod.mk.injEq] at same
  obtain ⟨head, first, second, third, fourth, fifth⟩ := same
  have run : Runs Step (start fun _ => 0) ops s := (Runs.of_foldlM returned).mono fun _ _ _ step =>
    ⟨6, step⟩
  refine ⟨s, run, ⟨head.symm, ⟨?_, ?_, ?_, ?_, ?_, trivial⟩, by decide⟩, first, second, third, fourth, fifth⟩
  · exact congrArg MemBlock.next first
  · exact congrArg MemBlock.next second
  · exact congrArg MemBlock.next third
  · exact congrArg MemBlock.next fourth
  · exact congrArg MemBlock.next fifth

/-- A request for 200 bytes takes the first hole, and the only other one that would do is larger. -/
theorem search_best_scattered :
    ∃ s list, Scattered s ∧ BlockList s.heap.mem s.heap.heapStart list ∧
      ∃ found, (∀ fuel, list.length < fuel →
        mmFindSmallestHole s.heap.mem (200 + sizeofMemBlock) fuel s.heap.heapStart = some found) ∧
        BestFit s.heap.mem (200 + sizeofMemBlock) list found := by
  obtain ⟨s, blocks⟩ := scattered
  refine ⟨s, _, blocks, blocks.links, (search_best_iff _ _ _ _ blocks.links).mpr ?_⟩
  have large : Sufficient s.heap.mem (200 + sizeofMemBlock) 0xD0000000 := by
    rw [Sufficient, blocks.first]
    decide
  intro before hole after split _ none other member sufficient
  cases before with
  | cons block rest => exact absurd large ((List.cons.inj split).1 ▸ none block List.mem_cons_self)
  | nil =>
    obtain ⟨rfl, rfl⟩ := List.cons.inj split
    simp only [List.mem_cons, List.not_mem_nil, or_false] at member
    rw [blocks.first]
    rcases member with rfl | rfl | rfl | rfl
    · exact absurd (congrArg MemBlock.free blocks.second) sufficient.1
    · rw [Sufficient, blocks.third] at sufficient
      exact absurd sufficient (by decide)
    · exact absurd (congrArg MemBlock.free blocks.fourth) sufficient.1
    · rw [blocks.fifth]
      decide

/-- A request for 16 bytes takes the first hole, and the third block would do. -/
theorem search_larger :
    ∃ s list,
      Runs Step (start fun _ => 0)
        [.kmalloc 256, .kmalloc 16, .kmalloc 64, .kmalloc 16, .kfree 0xD0000010,
          .kfree 0xD0000140] s ∧
      BlockList s.heap.mem s.heap.heapStart list ∧
      ¬∃ found, (∀ fuel, list.length < fuel →
          mmFindSmallestHole s.heap.mem (16 + sizeofMemBlock) fuel s.heap.heapStart = some found) ∧
        BestFit s.heap.mem (16 + sizeofMemBlock) list found := by
  obtain ⟨s, blocks⟩ := scattered
  refine ⟨s, _, blocks.reached, blocks.links, fun ⟨found, returns, best⟩ => ?_⟩
  have search := (returns 6 (by decide)).symm.trans (blocks.links.search _ (by decide))
  rw [Option.some.inj search, bestFit_find_iff] at best
  have large : Sufficient s.heap.mem (16 + sizeofMemBlock) 0xD0000000 := by
    rw [Sufficient, blocks.first]
    decide
  have small : Sufficient s.heap.mem (16 + sizeofMemBlock) 0xD0000130 := by
    rw [Sufficient, blocks.third]
    decide
  have least := best [] _ _ rfl large (fun _ member => absurd member List.not_mem_nil) 0xD0000130
    (by decide) small
  rw [blocks.first, blocks.third] at least
  exact absurd least (by decide)

end Vaelen.Kernel.KmallocFit
