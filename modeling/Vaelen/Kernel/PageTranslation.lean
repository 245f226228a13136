import Vaelen.Base.PageWalk
import Vaelen.Kernel.PageLookup

/-!
The directories of mm_get_page as the processor reads them. It follows tables_physical where the
code follows tables, and drops the low bits of what it finds there.
-/

namespace Vaelen.Kernel.PageTranslation
open Vaelen.Base Platform PageWalk Kmalloc KmallocBlocks KmallocTiling KmallocKept Paging PageTables PageLookup
open KmallocRuns (State findsHole_fresh findsHole_iff)
open CloneDirectory (within_tablesAt within_tablesPhysicalAt)

/-- Both arrays of the directory hold the same tables. -/
def Mirrored (dir : Word) (memory : Mem) : Prop :=
  ∀ i < 1024, load32 memory (tablesPhysicalAt dir i) =
    if load32 memory (tablesAt dir i) = 0 then 0 else load32 memory (tablesAt dir i) ||| 0x7

variable {dir : Word} {memory other : Mem} {s t : State}

/-! The two arrays. -/

theorem Mirrored.congr (mirrored : Mirrored dir memory)
    (same : ∀ x, Within dir 8196 x → other x = memory x) : Mirrored dir other := by
  intro i bound
  have table : load32 other (tablesAt dir i) = load32 memory (tablesAt dir i) :=
    load32_congr fun x inside => same x (within_tablesAt bound inside)
  have physical : load32 other (tablesPhysicalAt dir i) = load32 memory (tablesPhysicalAt dir i) :=
    load32_congr fun x inside => same x (within_tablesPhysicalAt bound inside)
  rw [table, physical]
  exact mirrored i bound

theorem Mirrored.made {table : Word} {i : Nat} (mirrored : Mirrored dir memory) (bound : i < 1024)
    (stored : load32 other (tablesAt dir i) = table)
    (physical : load32 other (tablesPhysicalAt dir i) = table ||| 0x7) (nonzero : table ≠ 0)
    (same : ∀ x, Within dir 8196 x → ¬CloneDirectory.SlotWords dir i x → other x = memory x) :
    Mirrored dir other := by
  intro k small
  by_cases here : k = i
  · rw [here, stored, physical, if_neg nonzero]
  · have table : load32 other (tablesAt dir k) = load32 memory (tablesAt dir k) :=
      load32_congr fun x inside => same x (within_tablesAt small inside)
        (slotWords_other small bound here (Or.inl inside))
    have entry : load32 other (tablesPhysicalAt dir k) = load32 memory (tablesPhysicalAt dir k) :=
      load32_congr fun x inside => same x (within_tablesPhysicalAt small inside)
        (slotWords_other small bound here (Or.inr inside))
    rw [table, entry]
    exact mirrored k small

theorem step_mirrored {op : Call} (invariant : Invariant dir s) (mirrored : Mirrored dir s.heap.mem)
    (step : PathStep dir s op t) : Mirrored dir t.heap.mem := by
  cases op with
  | kmalloc size => exact mirrored.congr (kmalloc_directory invariant step).2
  | kfree ptr => exact mirrored.congr (kfree_directory invariant step).2
  | mmGetPage addr tmp =>
    by_cases absent : tableOf s.heap.mem dir addr = 0
    · obtain ⟨_, hole, _, nonzero, stored, physical, same⟩ := mmGetPage_directory invariant absent step
      exact mirrored.made (tableIdx_lt addr) stored physical nonzero same
    · obtain ⟨⟨⟨fuel, returned⟩, _⟩, _⟩ := step
      rw [mmGetPage_present absent returned]
      exact mirrored

theorem prepared_mirrored (start : Prepared) : Mirrored start.dir start.zeroed.heap.mem := by
  intro i bound
  have physical : load32 start.zeroed.heap.mem (tablesPhysicalAt start.dir i) = 0 := by
    rw [← load32_zero (tablesPhysicalAt start.dir i)]
    apply load32_congr
    intro x inside
    change memset start.state.heap.mem start.dir 0 8196 x = 0
    rw [memset_spec _ _ _ _ (by decide), if_pos (within_tablesPhysicalAt bound inside)]
  rw [physical, start.cleared bound, if_pos rfl]

theorem run_mirrored {start : Prepared} {ops : List Call} (run : Runs (PathStep start.dir) start.zeroed ops t) :
    Mirrored start.dir t.heap.mem := by
  have both : Invariant start.dir t ∧ Mirrored start.dir t.heap.mem := by
    apply Runs.invariant run ⟨start.invariant, prepared_mirrored start⟩
    exact fun _ _ _ good step => ⟨(step_usable good.1 step).1, step_mirrored good.1 good.2 step⟩
  exact both.2

/-! The walk. -/

/-- A directory on a page is found through cr3, and its table at the start of the page it is in. -/
theorem entryAddress_eq (mirrored : Mirrored dir memory) (onPage : dir.toNat % 4096 = 0) (addr : Word) :
    entryAddress memory (tablesPhysicalAt dir 0) addr =
      if tableOf memory dir addr = 0 then none
      else some (pageAt (pointer (tableOf memory dir addr)) (pageIdx addr)) := by
  have root : pointer (tablesPhysicalAt dir 0) = tablesPhysicalAt dir 0 := by
    rw [pointer_eq_iff]
    unfold tablesPhysicalAt
    bv_omega
  have slot : tablesPhysicalAt dir 0 + (4 : Word) * (addr >>> 22) = tablesPhysicalAt dir (tableIdx addr) := by
    rw [directory_index, tableIdx_eq, tablesPhysicalAt, tablesPhysicalAt, BitVec.add_assoc, ← BitVec.ofNat_add]
  have flags : pointer 0x7 = 0 := by decide
  have held : ∀ table : Word, present (table ||| 0x7) = true := by
    intro table
    rw [present, BitVec.getLsbD_or]
    exact Bool.or_true _
  rw [entryAddress, root, slot, mirrored _ (tableIdx_lt addr), ← tableOf]
  by_cases absent : tableOf memory dir addr = 0
  · rw [if_pos absent, if_pos absent]
    rfl
  · rw [if_neg absent, if_neg absent, held, if_pos rfl, pointer_or_flags _ _ flags, table_index, ← pageIdx_eq]
    rfl

theorem entryAddress_entryOf_iff (mirrored : Mirrored dir memory) (onPage : dir.toNat % 4096 = 0) {addr : Word}
    (made : tableOf memory dir addr ≠ 0) :
    entryAddress memory (tablesPhysicalAt dir 0) addr = some (entryOf memory dir addr) ↔
      (tableOf memory dir addr).toNat % 4096 = 0 := by
  rw [entryAddress_eq mirrored onPage, if_neg made, entryOf, if_pos made, Option.some.injEq, ← pointer_eq_iff]
  unfold pageAt
  exact BitVec.add_left_inj _

/-- What the fields of the entry say. -/
theorem physicalAddress_eq {address linear cr3 : Word} (found : entryAddress memory cr3 linear = some address) :
    physicalAddress memory cr3 linear =
      if (page memory address).present = 1 then some ((page memory address).frame ++ linear.setWidth 12)
      else none := by
  have bit : (page memory address).present = 1 ↔ PageWalk.present (load32 memory address) = true := by
    change (load32 memory address).extractLsb' 0 1 = 1 ↔ (load32 memory address).getLsbD 0 = true
    constructor
    · intro one
      have first := congrArg (BitVec.getLsbD · 0) one
      simpa using first
    · intro set
      apply BitVec.eq_of_getLsbD_eq
      intro i bound
      have zero : i = 0 := by omega
      simp [zero, set]
  rw [physicalAddress, found, Option.bind_some]
  simp only [bit, pointer_append]
  rfl

/-- In every run of mm_get_page and the allocator on a directory that lies on a page, the processor
finds no entry exactly where mm_get_page finds none, and the same one exactly where the table lies on
a page; there it translates by the fields of that entry. -/
theorem run_translates (start : Prepared) {ops : List Call} (run : Runs (PathStep start.dir) start.zeroed ops t)
    (onPage : start.dir.toNat % 4096 = 0) (fuel : Nat) (addr tmp : Word) :
    let cr3 := tablesPhysicalAt start.dir 0
    let table := tableOf t.heap.mem start.dir addr
    ∃ entry, mmGetPage fuel addr 0 start.dir tmp t.heap = .ok (entry, t.heap) ∧
      (entryAddress t.heap.mem cr3 addr = none ↔ table = 0) ∧ (table = 0 → entry = 0) ∧
      (table ≠ 0 → (entryAddress t.heap.mem cr3 addr = some entry ↔ table.toNat % 4096 = 0)) ∧
      (table ≠ 0 → table.toNat % 4096 = 0 → physicalAddress t.heap.mem cr3 addr =
        if (page t.heap.mem entry).present = 1 then some ((page t.heap.mem entry).frame ++ addr.setWidth 12)
        else none) := by
  intro cr3 table
  have mirrored := run_mirrored run
  have same : table ≠ 0 → (entryAddress t.heap.mem cr3 addr = some (entryOf t.heap.mem start.dir addr) ↔
      table.toNat % 4096 = 0) := entryAddress_entryOf_iff mirrored onPage
  refine ⟨_, mmGetPage_entryOf fuel addr start.dir tmp t.heap, ?_, fun absent => if_neg (not_not.mpr absent), same,
    fun made aligned => physicalAddress_eq ((same made).mpr aligned)⟩
  have walked : entryAddress t.heap.mem cr3 addr = _ := entryAddress_eq mirrored onPage addr
  rw [walked]
  by_cases absent : tableOf t.heap.mem start.dir addr = 0
  · exact iff_of_true (if_pos absent) absent
  · rw [if_neg absent]
    exact iff_of_false (Option.some_ne_none _) absent

/-- A request of 0xFE0 bytes puts the table behind it on a page. -/
theorem aligned_made : ∃ t, Runs (PathStep outsideHeap.dir) outsideHeap.zeroed
      [.kmalloc 0xFE0, .mmGetPage 0x400123 0x300000] t ∧
    tableOf t.heap.mem outsideHeap.dir 0x400123 = 0xD0001000 := by
  have fresh : outsideHeap.zeroed.heap.heapStart = 0 := rfl
  let whole : Block := ⟨KERNEL_HEAP_START, KERNEL_HEAP_SIZE - sizeofMemBlock, true⟩
  let used : Block := ⟨KERNEL_HEAP_START, 0xFE0, false⟩
  let rest : Block := ⟨0xD0000FF0, 0xFFF000, true⟩
  have carved : carve 0xFE0 whole = [used, rest] := by decide
  obtain ⟨first, allocated, served⟩ := kmallocAp_carve [] [] whole 0xFE0 (initHeap_tiling fresh) (by decide)
    (by decide) (by decide) (fun null => absurd rfl null) (Nat.lt_succ_self 1) carved
  rw [kmallocAp_initHeap] at allocated
  let s : State := ⟨first, [⟨whole.addr + sizeofMemBlock, 0xFE0⟩]⟩
  have returned : PageTables.call 2 outsideHeap.dir outsideHeap.zeroed (.kmalloc 0xFE0) = some s := by
    simp only [PageTables.call, KmallocRuns.call, kmalloc, kmallocP, allocated]
    rfl
  have opened : PathStep outsideHeap.dir outsideHeap.zeroed (.kmalloc 0xFE0) s :=
    ⟨⟨⟨2, returned⟩, trivial⟩, fun _ => ⟨by decide, findsHole_fresh fresh (by decide)⟩⟩
  obtain ⟨invariant, kept⟩ := kmalloc_directory outsideHeap.invariant opened
  have absent : tableOf s.heap.mem outsideHeap.dir 0x400123 = 0 := by
    have before := outsideHeap.cleared (tableIdx_lt 0x400123)
    rw [← before]
    exact load32_congr fun x inside => kept x (within_tablesAt (tableIdx_lt _) inside)
  have outside : ∀ x, Within (0x300000 : Word) 4 x →
      ¬Within KERNEL_HEAP_START KERNEL_HEAP_SIZE.toNat x := fun _ inside => below_heap (by decide) inside
  obtain ⟨next, table, _⟩ := kmallocAp_carve [used] [] rest sizeofPageTable served.tiling (by decide) (by decide)
    (by decide) (fun _ x inside => outside_kept served.tiling.layout (outside x inside)) (Nat.lt_succ_self 2) rfl
  obtain ⟨t, made⟩ := mmGetPage_returns absent table
  have respects : Respects outsideHeap.dir s (.mmGetPage 0x400123 0x300000) := by
    refine ⟨by decide, Or.inr outside, fun x inside also => ?_⟩
    have directory : (x - 0x200000).toNat < 8196 := also
    unfold Within at inside
    bv_omega
  have started := initHeap_tiled served.tiling
  have tiling : Tiling (initHeap s.heap) [used, rest] := started.symm ▸ served.tiling
  have found := (findsHole_iff tiling sizeofPageTable).mpr ⟨rest, by decide⟩
  have step : PathStep outsideHeap.dir s (.mmGetPage 0x400123 0x300000) t :=
    ⟨⟨⟨3, made⟩, respects⟩, fun _ => found⟩
  obtain ⟨_, hole, ⟨fuel, hit⟩, _, stored, _⟩ := mmGetPage_directory invariant absent step
  rw [started] at hit
  have place := served.tiling.search hit
  have first : ([used, rest].find? (fits (sizeofPageTable + sizeofMemBlock))).map Block.addr = some 0xD0000FF0 := by
    decide
  obtain rfl : hole = 0xD0000FF0 := Option.some.inj (place.trans first)
  exact ⟨t, Runs.next opened (Runs.next step (Runs.done t)), stored⟩

/-- A table on a page, its entries not present. -/
theorem run_translates_made : ∃ t, Runs (PathStep outsideHeap.dir) outsideHeap.zeroed
      [.kmalloc 0xFE0, .mmGetPage 0x400123 0x300000] t ∧ ∃ entry,
    mmGetPage 0 0x400123 0 0x200000 0 t.heap = .ok (entry, t.heap) ∧
      entryAddress t.heap.mem (tablesPhysicalAt 0x200000 0) 0x400123 = some entry ∧
      physicalAddress t.heap.mem (tablesPhysicalAt 0x200000 0) 0x400123 =
        if (page t.heap.mem entry).present = 1 then some ((page t.heap.mem entry).frame ++ (0x123 : BitVec 12))
        else none := by
  obtain ⟨t, run, table⟩ := aligned_made
  have made : tableOf t.heap.mem outsideHeap.dir 0x400123 ≠ 0 := by
    rw [table]
    decide
  have aligned : (tableOf t.heap.mem outsideHeap.dir 0x400123).toNat % 4096 = 0 := by
    rw [table]
    decide
  obtain ⟨entry, found, _, _, walked, translated⟩ := run_translates outsideHeap run (by decide) 0 0x400123 0
  exact ⟨t, run, entry, found, (walked made).mpr aligned, translated made aligned⟩

end Vaelen.Kernel.PageTranslation
