import Vaelen.Kernel.CloneDirectory

/-!
mm_get_page and the page directories it fills. The table goes to the payload of whatever
hole kmalloc_ap finds first; nothing on that way rounds an address to a page.
-/

namespace Vaelen.Kernel.PageTables
open Vaelen.Base Platform Kmalloc KmallocBlocks KmallocTiling KmallocRuns KmallocKept Paging
open CloneDirectory (within_tablesAt within_tablesPhysicalAt SlotWords slotWords_apart)

/-- The index of the table that maps an address. -/
def tableIdx (addr : Word) : Nat := (addr / PAGE_SIZE / 1024).toNat

def tableOf (memory : Mem) (dir addr : Word) : Word := load32 memory (tablesAt dir (tableIdx addr))

/-- The stores of mm_get_page once the table has been allocated; `tmp` is the address of its local
variable. -/
def installTable (memory : Mem) (dir tmp table : Word) (i : Nat) : Mem :=
  let memory := store32 memory (tablesAt dir i) table
  let memory := memset memory (load32 memory (tablesAt dir i)) 0 PAGE_SIZE.toNat
  store32 memory (tablesPhysicalAt dir i) (load32 memory tmp ||| 0x7)

def mmGetPage (fuel : Nat) (addr make dir tmp : Word) (heap : Heap) : Except Stop (Word × Heap) :=
  let j := (addr / PAGE_SIZE % 1024).toNat
  if tableOf heap.mem dir addr ≠ 0 then .ok (pageAt (tableOf heap.mem dir addr) j, heap)
  else if make ≠ 0 then do
    let (table, heap) ← kmallocAp fuel sizeofPageTable tmp heap
    let memory := installTable heap.mem dir tmp table (tableIdx addr)
    return (pageAt (tableOf memory dir addr) j, { heap with mem := memory })
  else .ok (0, heap)

theorem tableIdx_lt (addr : Word) : tableIdx addr < 1024 := by
  have bound := addr.isLt
  rw [tableIdx, BitVec.toNat_udiv, BitVec.toNat_udiv]
  change addr.toNat / 4096 / 1024 < 1024
  omega

/-- mm_get_page on an address whose table is missing. -/
theorem mmGetPage_absent {fuel : Nat} {addr make dir tmp ptr : Word} {heap next : Heap}
    (absent : tableOf heap.mem dir addr = 0) (wanted : make ≠ 0)
    (returned : mmGetPage fuel addr make dir tmp heap = .ok (ptr, next)) :
    ∃ table middle, kmallocAp fuel sizeofPageTable tmp heap = .ok (table, middle) ∧
      next = { middle with mem := installTable middle.mem dir tmp table (tableIdx addr) } := by
  simp only [mmGetPage, if_neg (not_not.mpr absent), if_pos wanted] at returned
  obtain ⟨⟨table, middle⟩, allocated, rest⟩ := bind_eq_ok returned
  have same := congrArg Prod.snd (Except.ok.inj rest)
  exact ⟨table, middle, allocated, same.symm⟩

/-- What mm_get_page leaves behind when it has made table `i`. -/
structure Made (heap next : Heap) (blocks rest : List Block) (dir tmp table : Word) (i : Nat) :
    Prop where
  tiling : Tiling next rest
  stored : load32 next.mem (tablesAt dir i) = table
  physical : load32 next.mem (tablesPhysicalAt dir i) = table ||| 0x7
  cleared : ∀ x, Within table 4096 x → next.mem x = 0
  same : ∀ x, Kept blocks x → ¬SlotWords dir i x → ¬Within tmp 4 x → next.mem x = heap.mem x

section made
variable {heap next : Heap} {blocks rest : List Block} {dir tmp table : Word} {i : Nat}

theorem made_of_served (served : Served heap blocks sizeofPageTable tmp table next rest)
    (bound : i < 1024) (directory : ∀ x, Within dir 8196 x → Kept blocks x) (nonzero : tmp ≠ 0)
    (slot : ∀ x, Within tmp 4 x → Kept blocks x) (apart : Apart tmp 4 dir 8196) :
    Made heap { next with mem := installTable next.mem dir tmp table i } blocks rest dir tmp table i := by
  have payload : ∀ x, Within table 4096 x → Kept rest x ∧ ¬Kept blocks x := served.payload
  have tableWord : ∀ x, Within (tablesAt dir i) 4 x → Kept blocks x :=
    fun x inside => directory x (within_tablesAt bound inside)
  have physicalWord : ∀ x, Within (tablesPhysicalAt dir i) 4 x → Kept blocks x :=
    fun x inside => directory x (within_tablesPhysicalAt bound inside)
  -- The three stores one after another.
  let first := store32 next.mem (tablesAt dir i) table
  let second := memset first table 0 4096
  let third := store32 second (tablesPhysicalAt dir i) (table ||| 0x7)
  have slotSame : SameOutside (Within (tablesAt dir i) 4) next.mem first :=
    SameOutside.store32 next.mem _ table
  have tableSame : SameOutside (Within table 4096) first second :=
    memset_outside first table 0 4096 (by decide)
  have physicalSame : SameOutside (Within (tablesPhysicalAt dir i) 4) second third :=
    SameOutside.store32 second _ _
  have whole : installTable next.mem dir tmp table i = third := by
    have value : load32 second tmp = table := by
      rw [tableSame.load32 fun x inside fresh => (payload x fresh).2 (slot x inside),
        slotSame.load32 fun x inside also => apart x inside (within_tablesAt bound also)]
      exact served.stored nonzero
    simp only [installTable, load32_store32]
    exact congrArg (fun value => store32 second (tablesPhysicalAt dir i) (value ||| 0x7)) value
  rw [whole]
  apply Made.mk
  · apply tiling_congr served.tiling
    apply (slotSame.mono fun x inside => served.kept x (tableWord x inside)).trans
    apply (tableSame.mono fun x inside => (payload x inside).1).trans
    exact physicalSame.mono fun x inside => served.kept x (physicalWord x inside)
  · change load32 third (tablesAt dir i) = table
    rw [physicalSame.load32 fun x inside also => ?_,
      tableSame.load32 fun x inside fresh => (payload x fresh).2 (tableWord x inside)]
    · exact load32_store32 next.mem _ table
    · unfold Within tablesAt tablesPhysicalAt at *
      bv_omega
  · exact load32_store32 second _ _
  · intro x inside
    change third x = 0
    rw [physicalSame x fun also => (payload x inside).2 (physicalWord x also)]
    change memset first table 0 4096 x = 0
    rw [memset_spec first table 0 4096 (by decide), if_pos inside]
  · intro x kept outside elsewhere
    change third x = heap.mem x
    rw [physicalSame x fun inside => outside (Or.inr inside),
      tableSame x fun inside => (payload x inside).2 kept,
      slotSame x fun inside => outside (Or.inl inside)]
    exact served.same x kept fun _ => elsewhere

end made

/-! mm_get_page among other calls of the allocator. -/

inductive Call where
  | kmalloc (size : Word)
  | kfree (ptr : Word)
  | mmGetPage (addr tmp : Word)

/-- One call that returns. A table that mm_get_page makes joins the live allocations. -/
def call (fuel : Nat) (dir : Word) (s : State) : Call → Option State
  | .kmalloc size => KmallocRuns.call fuel s (.kmalloc size)
  | .kfree ptr => KmallocRuns.call fuel s (.kfree ptr)
  | .mmGetPage addr tmp =>
      match mmGetPage fuel addr 1 dir tmp s.heap with
      | .ok (_, heap) =>
          some
            { heap := heap
              live :=
                if tableOf s.heap.mem dir addr = 0 then
                  ⟨tableOf heap.mem dir addr, sizeofPageTable⟩ :: s.live
                else s.live }
      | .error _ => none

/-- Memory that is not the allocator's: part of a live allocation, or outside the heap. -/
def Held (live : List Alloc) (base : Word) (count : Nat) : Prop :=
  (∃ alloc ∈ live, ∀ x, Within base count x → Within alloc.ptr alloc.size.toNat x) ∨
    ∀ x, Within base count x → ¬Within KERNEL_HEAP_START KERNEL_HEAP_SIZE.toNat x

/-- The directory is not freed, and the local variable of mm_get_page lies apart from it. -/
def Respects (dir : Word) (s : State) : Call → Prop
  | .kmalloc _ => True
  | .kfree ptr => ∀ alloc ∈ s.live, alloc.ptr = ptr → Apart dir 8196 alloc.ptr alloc.size.toNat
  | .mmGetPage _ tmp => tmp ≠ 0 ∧ Held s.live tmp 4 ∧ Apart tmp 4 dir 8196

def Step (dir : Word) (s : State) (op : Call) (t : State) : Prop :=
  (∃ fuel, call fuel dir s op = some t) ∧ Respects dir s op

/-- No request wraps or falls back to heap_placement. -/
def HolePath (dir : Word) (s : State) : Call → Prop
  | .kmalloc size => size ≠ 0 → size.toNat < 2 ^ 32 - 16 ∧ FindsHole s.heap size
  | .kfree _ => True
  | .mmGetPage addr _ => tableOf s.heap.mem dir addr = 0 → FindsHole s.heap sizeofPageTable

def PathStep (dir : Word) (s : State) (op : Call) (t : State) : Prop :=
  Step dir s op t ∧ HolePath dir s op

/-- The hole that mm_find_smallest_hole returns for a new table has its payload on a page. -/
def Aligned (dir : Word) (s : State) : Call → Prop
  | .mmGetPage addr _ => tableOf s.heap.mem dir addr = 0 → ∀ fuel hole,
      mmFindSmallestHole (initHeap s.heap).mem (sizeofPageTable + sizeofMemBlock) fuel
        (initHeap s.heap).heapStart = some (some hole) → (hole + sizeofMemBlock).toNat % 4096 = 0
  | _ => True

/-- What the MMU needs of a directory. -/
def Usable (dir : Word) (memory : Mem) : Prop :=
  ∀ i < 1024, load32 memory (tablesAt dir i) ≠ 0 →
    (load32 memory (tablesAt dir i)).toNat % 4096 = 0 ∧
      load32 memory (tablesPhysicalAt dir i) &&& ~~~0xFFF = load32 memory (tablesAt dir i) ∧
      load32 memory (tablesPhysicalAt dir i) &&& 0xFFF = 0x7

/-- A directory that has been cleared after any calls of the allocator on the hole path. -/
structure Prepared where
  memory : Mem
  calls : List KmallocRuns.Call
  state : State
  dir : Word
  run : Runs HoleStep (KmallocRuns.start memory) calls state
  held : Held state.live dir 8196

def Prepared.zeroed (start : Prepared) : State :=
  { start.state with
    heap := { start.state.heap with mem := memset start.state.heap.mem start.dir 0 8196 } }

structure Invariant (dir : Word) (s : State) : Prop where
  represented : Represented s
  held : Held s.live dir 8196

variable {dir : Word} {s t : State}

theorem held_kept {heap : Heap} {blocks : List Block} {live : List Alloc} {base x : Word} {count : Nat}
    (tiling : Tiling heap blocks) (backed : Backed blocks live) (held : Held live base count)
    (inside : Within base count x) : Kept blocks x := by
  rcases held with ⟨alloc, member, covers⟩ | outside
  · obtain ⟨block, listed, used, ptr, large⟩ := backed.block alloc member
    apply used_kept tiling.layout listed used
    rw [← ptr]
    exact Nat.lt_of_lt_of_le (covers x inside) large
  · exact outside_kept tiling.layout (outside x inside)

theorem Held.mono {live more : List Alloc} {base : Word} {count : Nat} (held : Held live base count)
    (kept : ∀ alloc ∈ live, alloc ∈ more) : Held more base count := by
  rcases held with ⟨alloc, member, covers⟩ | outside
  · exact Or.inl ⟨alloc, kept alloc member, covers⟩
  · exact Or.inr outside

/-- Freeing another block keeps the memory held. -/
theorem Held.erase {live : List Alloc} {base ptr : Word} {count : Nat} (held : Held live base count)
    (positive : 0 < count)
    (other : ∀ alloc ∈ live, alloc.ptr = ptr → Apart base count alloc.ptr alloc.size.toNat)
    (distinct : (live.map Alloc.ptr).Nodup) :
    Held (live.eraseP fun alloc => alloc.ptr = ptr) base count := by
  rcases held with ⟨alloc, member, covers⟩ | outside
  · refine Or.inl ⟨alloc, (mem_eraseP_ptr distinct ptr alloc).mpr ⟨member, fun same => ?_⟩, covers⟩
    have first : Within base count base := by
      unfold Within
      simpa using positive
    exact other alloc member same base first (covers base first)
  · exact Or.inr outside

/-- The directory words decide whether it is usable. -/
theorem usable_congr {memory other : Mem}
    (same : ∀ x, Within dir 8196 x → other x = memory x) : Usable dir other ↔ Usable dir memory := by
  have table : ∀ i < 1024, load32 other (tablesAt dir i) = load32 memory (tablesAt dir i) :=
    fun i bound => load32_congr fun x inside => same x (within_tablesAt bound inside)
  have physical : ∀ i < 1024,
      load32 other (tablesPhysicalAt dir i) = load32 memory (tablesPhysicalAt dir i) :=
    fun i bound => load32_congr fun x inside => same x (within_tablesPhysicalAt bound inside)
  apply forall₂_congr
  intro i bound
  rw [table i bound, physical i bound]

theorem slotWords_other {i k : Nat} {x : Word} (first : i < 1024) (second : k < 1024)
    (different : i ≠ k) (inside : SlotWords dir i x) : ¬SlotWords dir k x := by
  intro also
  unfold SlotWords Within tablesAt tablesPhysicalAt at *
  rcases inside with table | physical
  · rcases also with other | other <;> bv_omega
  · rcases also with other | other <;> bv_omega

/-- The flags can be told apart from the address of a table that lies on a page. -/
theorem flags_aligned {table : Word} (aligned : table.toNat % 4096 = 0) :
    (table ||| 0x7) &&& ~~~0xFFF = table ∧ (table ||| 0x7) &&& 0xFFF = 0x7 := by
  have clear : ∀ i < 12, table.getLsbD i = false := by
    intro i low
    have bit := Nat.testBit_mod_two_pow table.toNat 12 i
    rw [show table.toNat % 2 ^ 12 = 0 from aligned, Nat.zero_testBit, decide_eq_true low,
      Bool.true_and] at bit
    exact bit.symm
  have mask : ∀ i < 32, (0xFFF : Word).getLsbD i = decide (i < 12) := by decide
  have flags : ∀ i < 32, 12 ≤ i → (0x7 : Word).getLsbD i = false := by decide
  constructor
  · apply BitVec.eq_of_getLsbD_eq
    intro i bound
    rw [BitVec.getLsbD_and, BitVec.getLsbD_or, BitVec.getLsbD_not, mask i bound]
    by_cases low : i < 12
    · simp [low, clear i low]
    · rw [flags i bound (Nat.le_of_not_lt low)]
      simp [low, bound]
  · apply BitVec.eq_of_getLsbD_eq
    intro i bound
    rw [BitVec.getLsbD_and, BitVec.getLsbD_or, mask i bound]
    by_cases low : i < 12
    · simp [low, clear i low]
    · rw [flags i bound (Nat.le_of_not_lt low)]
      simp [low]

/-- A new table keeps the directory usable exactly when it lies on a page. -/
theorem usable_made {memory other : Mem} {table : Word} {i : Nat} (usable : Usable dir memory)
    (bound : i < 1024) (stored : load32 other (tablesAt dir i) = table)
    (physical : load32 other (tablesPhysicalAt dir i) = table ||| 0x7) (nonzero : table ≠ 0)
    (same : ∀ x, Within dir 8196 x → ¬SlotWords dir i x → other x = memory x) :
    Usable dir other ↔ table.toNat % 4096 = 0 := by
  constructor
  · intro later
    have here := (later i bound (by rwa [stored])).1
    rwa [stored] at here
  · intro aligned k small present
    by_cases here : k = i
    · rw [here, stored, physical]
      exact ⟨aligned, flags_aligned aligned⟩
    · have table : load32 other (tablesAt dir k) = load32 memory (tablesAt dir k) :=
        load32_congr fun x inside => same x (within_tablesAt small inside)
          (slotWords_other small bound here (Or.inl inside))
      have entry : load32 other (tablesPhysicalAt dir k) = load32 memory (tablesPhysicalAt dir k) :=
        load32_congr fun x inside => same x (within_tablesPhysicalAt small inside)
          (slotWords_other small bound here (Or.inr inside))
      rw [table] at present
      rw [table, entry]
      exact usable k small present

/-! The steps. -/

theorem directory_kept {blocks : List Block} (invariant : Invariant dir s)
    (tiling : Tiling (initHeap s.heap) blocks) (backed : Backed blocks s.live) :
    ∀ x, Within dir 8196 x → Kept blocks x ∧ (initHeap s.heap).mem x = s.heap.mem x := by
  intro x inside
  have kept := held_kept tiling backed invariant.held inside
  exact ⟨kept, initHeap_same tiling kept⟩

theorem kmalloc_directory {size : Word} (invariant : Invariant dir s)
    (step : PathStep dir s (.kmalloc size) t) :
    Invariant dir t ∧ ∀ x, Within dir 8196 x → t.heap.mem x = s.heap.mem x := by
  obtain ⟨⟨⟨fuel, returned⟩, _⟩, path⟩ := step
  obtain ⟨blocks, tiling, backed⟩ := invariant.represented.initHeap
  obtain ⟨ptr, heap, result, sameHeap, sameLive⟩ := call_kmalloc returned
  have directory := directory_kept invariant tiling backed
  have represented : Represented t := Or.inr (kmalloc_represented invariant.represented returned path)
  have held : Held t.live dir 8196 := by
    apply invariant.held.mono
    intro alloc member
    rw [sameLive]
    split
    · exact member
    · exact List.mem_cons_of_mem _ member
  refine ⟨⟨represented, held⟩, fun x inside => ?_⟩
  obtain ⟨kept, unchanged⟩ := directory x inside
  rw [sameHeap]
  by_cases nonzero : size = 0
  · subst nonzero
    rw [(kmalloc_zero result).2]
    exact unchanged
  · obtain ⟨small, found⟩ := path nonzero
    obtain ⟨before, hole, after, split, free, room, first⟩ := found.split tiling small
    obtain ⟨_, same⟩ := kmalloc_served tiling nonzero first result
    subst split
    rw [same, takeHole_same tiling.layout free room kept]
    exact unchanged

theorem kfree_directory {ptr : Word} (invariant : Invariant dir s)
    (step : PathStep dir s (.kfree ptr) t) :
    Invariant dir t ∧ ∀ x, Within dir 8196 x → t.heap.mem x = s.heap.mem x := by
  obtain ⟨⟨⟨fuel, returned⟩, apart⟩, _⟩ := step
  have freed : KmallocRuns.call fuel s (.kfree ptr) = some t := returned
  obtain ⟨⟨alloc, member, samePtr⟩, sameHeap, sameLive⟩ := call_kfree freed
  rcases invariant.represented with ⟨_, empty⟩ | ⟨blocks, tiling, backed⟩
  · rw [empty] at member
    exact absurd member List.not_mem_nil
  · have represented : Represented t := Or.inr (kfree_represented tiling backed freed)
    have held : Held t.live dir 8196 := by
      rw [sameLive]
      exact invariant.held.erase (by decide) apart backed.distinct
    refine ⟨⟨represented, held⟩, fun x inside => ?_⟩
    have kept := held_kept tiling backed invariant.held inside
    obtain ⟨block, listed, _, addr, _⟩ := backed.block alloc member
    obtain ⟨before, after, split⟩ := List.append_of_mem listed
    subst split
    rw [sameHeap, ← samePtr, addr]
    exact kfree_same tiling.layout kept.outsideHeaders

/-- mm_get_page returns the entry of a table that exists and changes nothing. -/
theorem mmGetPage_present {fuel : Nat} {addr tmp : Word}
    (present : tableOf s.heap.mem dir addr ≠ 0)
    (returned : call fuel dir s (.mmGetPage addr tmp) = some t) : t = s := by
  simp only [call, mmGetPage, if_pos present, if_neg present, Option.some.injEq] at returned
  exact returned.symm

theorem mmGetPage_returns {fuel : Nat} {addr tmp table : Word} {middle : Heap}
    (absent : tableOf s.heap.mem dir addr = 0)
    (allocated : kmallocAp fuel sizeofPageTable tmp s.heap = .ok (table, middle)) :
    ∃ t, call fuel dir s (.mmGetPage addr tmp) = some t := by
  simp only [call, mmGetPage, if_neg (not_not.mpr absent), allocated]
  exact ⟨_, rfl⟩

/-- Otherwise it makes one in the hole that the search returns. -/
theorem mmGetPage_directory {addr tmp : Word} (invariant : Invariant dir s)
    (absent : tableOf s.heap.mem dir addr = 0) (step : PathStep dir s (.mmGetPage addr tmp) t) :
    Invariant dir t ∧ ∃ hole, (∃ fuel, mmFindSmallestHole (initHeap s.heap).mem
        (sizeofPageTable + sizeofMemBlock) fuel (initHeap s.heap).heapStart = some (some hole)) ∧
      hole + sizeofMemBlock ≠ 0 ∧
      load32 t.heap.mem (tablesAt dir (tableIdx addr)) = hole + sizeofMemBlock ∧
      load32 t.heap.mem (tablesPhysicalAt dir (tableIdx addr)) = (hole + sizeofMemBlock) ||| 0x7 ∧
      ∀ x, Within dir 8196 x → ¬SlotWords dir (tableIdx addr) x →
        t.heap.mem x = s.heap.mem x := by
  obtain ⟨⟨⟨fuel, returned⟩, nonzero, slot, apart⟩, path⟩ := step
  obtain ⟨blocks, tiling, backed⟩ := invariant.represented.initHeap
  have directory := directory_kept invariant tiling backed
  have small : (sizeofPageTable : Word).toNat < 2 ^ 32 - 16 := by decide
  obtain ⟨before, hole, after, split, free, room, first⟩ := (path absent).split tiling small
  simp only [call] at returned
  split at returned
  · next ptr heap result =>
    obtain ⟨table, middle, allocated, same⟩ := mmGetPage_absent absent (by decide) result
    obtain ⟨rfl, sameMiddle⟩ := kmallocAp_returned tiling (by decide) first allocated
    subst split
    have slotKept : ∀ x, Within tmp 4 x → Kept (before ++ hole :: after) x :=
      fun x inside => held_kept tiling backed slot inside
    have served := takeHole_served tiling free room fun _ => slotKept
    rw [← sameMiddle] at served
    have made := made_of_served served (tableIdx_lt addr) (fun x inside => (directory x inside).1)
      nonzero slotKept apart
    rw [← same] at made
    have table : tableOf heap.mem dir addr = hole.addr + sizeofMemBlock := made.stored
    rw [if_pos absent, table] at returned
    cases returned
    have bound := tiling.layout.inside
    have found := tiling.search_within (sizeofPageTable + sizeofMemBlock) (Nat.lt_succ_self _)
    rw [first, Option.map_some] at found
    refine ⟨⟨Or.inr ⟨_, made.tiling, backed_carve tiling.layout backed free room⟩, ?_⟩, hole.addr,
      ⟨_, found⟩, by bv_omega, made.stored, made.physical, fun x inside outside => ?_⟩
    · exact invariant.held.mono fun alloc member => List.mem_cons_of_mem _ member
    · obtain ⟨kept, unchanged⟩ := directory x inside
      exact (made.same x kept outside fun also => apart x also inside).trans unchanged
  · exact absurd returned (by simp)

/-- One step keeps a usable directory usable exactly when it is aligned. -/
theorem step_usable {op : Call} (invariant : Invariant dir s) (step : PathStep dir s op t) :
    Invariant dir t ∧
      (Usable dir s.heap.mem → (Usable dir t.heap.mem ↔ Aligned dir s op)) := by
  cases op with
  | kmalloc size =>
    obtain ⟨next, same⟩ := kmalloc_directory invariant step
    exact ⟨next, fun usable => iff_of_true ((usable_congr same).mpr usable) trivial⟩
  | kfree ptr =>
    obtain ⟨next, same⟩ := kfree_directory invariant step
    exact ⟨next, fun usable => iff_of_true ((usable_congr same).mpr usable) trivial⟩
  | mmGetPage addr tmp =>
    by_cases absent : tableOf s.heap.mem dir addr = 0
    · obtain ⟨next, hole, ⟨fuel, found⟩, nonzero, stored, physical, same⟩ :=
        mmGetPage_directory invariant absent step
      refine ⟨next, fun usable => ?_⟩
      rw [usable_made usable (tableIdx_lt addr) stored physical nonzero same]
      constructor
      · intro aligned _ more other also
        have first := mmFindSmallestHole_mono found (Nat.le_max_left fuel more)
        have second := mmFindSmallestHole_mono also (Nat.le_max_right fuel more)
        have equal := Option.some.inj (Option.some.inj (second.symm.trans first))
        rwa [equal]
      · intro aligned
        exact aligned absent fuel hole found
    · obtain ⟨⟨⟨fuel, returned⟩, _⟩, _⟩ := step
      rw [mmGetPage_present absent returned]
      exact ⟨invariant, fun usable => iff_of_true usable fun missing => absurd missing absent⟩

theorem Prepared.invariant (start : Prepared) : Invariant start.dir start.zeroed := by
  refine ⟨?_, start.held⟩
  rcases holeRun_represented start.run with fresh | ⟨blocks, tiling, backed⟩
  · exact Or.inl fresh
  · refine Or.inr ⟨blocks, tiling_congr tiling ?_, backed⟩
    apply (memset_outside start.state.heap.mem start.dir 0 8196 (by decide)).mono
    exact fun x inside => held_kept tiling backed start.held inside

theorem Prepared.cleared (start : Prepared) {i : Nat} (bound : i < 1024) :
    load32 start.zeroed.heap.mem (tablesAt start.dir i) = 0 := by
  rw [← load32_zero (tablesAt start.dir i)]
  apply load32_congr
  intro x inside
  change memset start.state.heap.mem start.dir 0 8196 x = 0
  rw [memset_spec _ _ _ _ (by decide), if_pos (within_tablesAt bound inside)]

theorem Prepared.usable (start : Prepared) : Usable start.dir start.zeroed.heap.mem :=
  fun _ bound present => absurd (start.cleared bound) present

theorem run_invariant {start : Prepared} {ops : List Call}
    (run : Runs (PathStep start.dir) start.zeroed ops t) : Invariant start.dir t :=
  run.invariant start.invariant fun _ _ _ invariant step => (step_usable invariant step).1

/-- While every request is served by a hole, all directories of a run are usable exactly when
every table is made in a hole whose payload lies on a page. -/
theorem run_usable_iff (start : Prepared) (ops : List Call) :
    (∀ first rest t, ops = first ++ rest → Runs (PathStep start.dir) start.zeroed first t →
        Usable start.dir t.heap.mem) ↔
      ∀ first op rest t u, ops = first ++ op :: rest →
        Runs (PathStep start.dir) start.zeroed first t → PathStep start.dir t op u →
        Aligned start.dir t op := by
  constructor
  · intro usable first op rest t u split run step
    have before := usable first (op :: rest) t split run
    have after := usable (first ++ [op]) rest u (by simp [split]) (run.snoc step)
    exact ((step_usable (run_invariant run) step).2 before).mp after
  · intro aligned
    refine Runs.along start.usable fun first op rest middle next whole here step usable => ?_
    apply ((step_usable (run_invariant here) step).2 usable).mpr
    exact aligned first op rest middle next whole here step

/-- A directory outside the heap, before the first call of the allocator. -/
def outsideHeap : Prepared where
  memory := fun _ => 0
  calls := []
  state := KmallocRuns.start fun _ => 0
  dir := 0x200000
  run := Runs.done _
  held := Or.inr fun _ inside => below_heap (by decide) inside

/-- The first table goes to 0xD0000010. -/
theorem run_unusable :
    ¬∀ (start : Prepared) (ops : List Call) (t : State),
      Runs (Step start.dir) start.zeroed ops t → Usable start.dir t.heap.mem := by
  intro claim
  have absent : tableOf outsideHeap.zeroed.heap.mem outsideHeap.dir 0 = 0 :=
    outsideHeap.cleared (tableIdx_lt 0)
  have fresh : outsideHeap.zeroed.heap.heapStart = 0 := rfl
  have outside : ∀ x, Within (0x300000 : Word) 4 x →
      ¬Within KERNEL_HEAP_START KERNEL_HEAP_SIZE.toNat x :=
    fun _ inside => below_heap (by decide) inside
  have tiling := initHeap_tiling fresh
  have room : Room [Block.mk KERNEL_HEAP_START (KERNEL_HEAP_SIZE - sizeofMemBlock) true]
      (8 + ((sizeofPageTable : Word).toNat + 16)) := ⟨_, List.mem_singleton_self _, rfl, by decide⟩
  obtain ⟨table, next, rest, allocated, _⟩ := kmallocAp_served tiling (by decide) room
    (Nat.le_refl 8) (fun _ x inside => outside_kept tiling.layout (outside x inside))
    (Nat.lt_succ_self 1)
  rw [kmallocAp_initHeap] at allocated
  have found := search_fresh fresh (by decide : sizeofPageTable + sizeofMemBlock ≤ KERNEL_HEAP_SIZE - sizeofMemBlock)
  obtain ⟨t, returned⟩ := mmGetPage_returns absent allocated
  have respects : Respects outsideHeap.dir outsideHeap.zeroed (.mmGetPage 0 0x300000) := by
    refine ⟨by decide, Or.inr outside, fun x inside also => ?_⟩
    have directory : (x - 0x200000).toNat < 8196 := also
    unfold Within at inside
    bv_omega
  have step : PathStep outsideHeap.dir outsideHeap.zeroed (.mmGetPage 0 0x300000) t :=
    ⟨⟨⟨2, returned⟩, respects⟩, fun _ => ⟨2, KERNEL_HEAP_START, found⟩⟩
  have usable := claim outsideHeap _ t (Runs.next step.1 (Runs.done t))
  have aligned := ((step_usable outsideHeap.invariant step).2 outsideHeap.usable).mp usable
  exact absurd (aligned absent 2 KERNEL_HEAP_START found) (by decide)

end Vaelen.Kernel.PageTables
