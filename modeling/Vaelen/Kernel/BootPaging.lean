import Vaelen.Kernel.FrameAccounting
import Vaelen.Kernel.Interrupts
import Vaelen.Kernel.PageTables

/-!
mm_init_paging after mm_init. Its first loop runs while i < used_blocks, and every page it
maps takes a frame and counts used_blocks up, so the loop only ends when no frame is left.
-/

namespace Vaelen.Kernel.BootPaging
open Vaelen.Base Platform Kmalloc KmallocBlocks KmallocTiling KmallocKept Frames FrameOwnership
open FrameAccounting Paging PageTables Interrupts
open CloneDirectory (within_tablesAt within_tablesPhysicalAt within_pageAt SlotWords slotWords_apart)

/-- The control registers that mm_switch_page_directory writes. -/
structure Control where
  cr0 : Word
  cr3 : Word

def kmallocA (fuel : Nat) (size : Word) (heap : Heap) : Except Stop (Word × Heap) :=
  kmallocAp fuel size 0 heap

/-- The loop that clears both arrays of the directory. -/
def clearTables (dir : Word) (memory : Mem) : Mem :=
  (List.range 1024).foldl (fun memory i =>
    store32 (store32 memory (tablesAt dir i) 0) (tablesPhysicalAt dir i) 0) memory

/-- The body of both mapping loops; `tmp` is the address of mm_get_page's local variable. -/
def mapPage (fuel : Nat) (tmp addr : Word) (s : Mm) : Except Stop Mm := do
  let (page, heap) ← mmGetPage fuel addr 1 s.kernelDirectory tmp s.heap
  mmAllocFrame { s with heap := heap } page 1 1

/-- The first mapping loop, whose bound is read again in every turn. -/
def mapKernel (fuel : Nat) (tmp : Word) : Nat → Word → Word → Mm → Except Stop Mm
  | 0, _, _, _ => .error .running
  | turns + 1, i, addr, s =>
      if i < s.frames.usedBlocks then do
        let s ← mapPage fuel tmp addr s
        mapKernel fuel tmp turns (i + 1) (addr + PAGE_SIZE) s
      else .ok s

/-- The second mapping loop. -/
def mapHeap (fuel : Nat) (tmp : Word) (s : Mm) : Except Stop Mm :=
  (List.range (KERNEL_HEAP_SIZE / PAGE_SIZE).toNat).foldlM
    (fun s k => mapPage fuel tmp (KERNEL_HEAP_START + BitVec.ofNat 32 k * PAGE_SIZE) s) s

def mmSwitchPageDirectory (dir : Word) (control : Control) (s : Mm) : Mm × Control :=
  ({ s with currentDirectory := dir },
    { cr3 := load32 s.mem (physicalAddrAt dir), cr0 := control.cr0 ||| 0x80000000 })

def mmInitPaging (fuel : Nat) (symbols : Symbols) (tmp : Word) (control : Control) (s : Mm) :
    Except Stop (Mm × Control) := do
  let (dir, heap) ← kmallocA fuel sizeofPageDirectory s.heap
  let s := { s with heap := heap, kernelDirectory := dir }
  let s := s.write (memset s.mem dir 0 sizeofPageDirectory.toNat)
  let s := s.write (store32 s.mem (physicalAddrAt dir) (tablesPhysicalAt dir 0))
  let s := s.write (clearTables dir s.mem)
  let s ← mapKernel fuel tmp fuel 0 0 s
  let s ← mapHeap fuel tmp s
  let s := s.write (isrRegisterHandler symbols 14 0 s.mem)
  return mmSwitchPageDirectory dir control s

/-- The state after mm_init, before the allocator has been called. -/
def booting (memSize : Word) (bitmap : Nat → Word) (memory : Mem) : Mm :=
  { heap := uninitialised memory
    frames := mmInit memSize bitmap
    kernelDirectory := 0
    currentDirectory := 0 }

/-- The entry of a page in the kernel's directory. -/
def entryOf (s : Mm) (addr : Word) : Page :=
  page s.mem (pageAt (tableOf s.mem s.kernelDirectory addr) (addr / PAGE_SIZE % 1024).toNat)

/-- The pages below KERNEL_HEAP_START - KERNEL_BASE and those of the kernel heap. -/
def Mapped (addr : Word) : Prop :=
  addr.toNat % PAGE_SIZE.toNat = 0 ∧ (addr < KERNEL_HEAP_START - KERNEL_BASE ∨
    KERNEL_HEAP_START ≤ addr ∧ addr < KERNEL_HEAP_START + KERNEL_HEAP_SIZE)

/-- mm_init_paging reaches the switch with every such page present in a frame of its own. -/
def Completes (symbols : Symbols) (tmp : Word) (control : Control) (s : Mm) : Prop :=
  ∃ fuel t after, mmInitPaging fuel symbols tmp control s = .ok (t, after) ∧
    (∀ addr, Mapped addr → (entryOf t addr).present = 1) ∧
    ∀ addr other, Mapped addr → Mapped other →
      (entryOf t addr).frame = (entryOf t other).frame → addr = other

/-! The directory. -/

theorem clearTables_outside (dir : Word) (memory : Mem) :
    SameOutside (Within dir 8196) memory (clearTables dir memory) := by
  unfold clearTables
  apply List.foldlRecOn (motive := SameOutside (Within dir 8196) memory)
  · exact SameOutside.refl memory
  · intro middle same i member
    have bound := List.mem_range.mp member
    have first : SameOutside (Within dir 8196) middle (store32 middle (tablesAt dir i) 0) :=
      (SameOutside.store32 middle _ 0).mono fun x inside => within_tablesAt bound inside
    have second : SameOutside (Within dir 8196) (store32 middle (tablesAt dir i) 0)
        (store32 (store32 middle (tablesAt dir i) 0) (tablesPhysicalAt dir i) 0) :=
      (SameOutside.store32 _ _ 0).mono fun x inside => within_tablesPhysicalAt bound inside
    exact same.trans (first.trans second)

theorem load32_clearTables {dir : Word} {memory : Mem} {k : Nat} (bound : k < 1024)
    (clear : load32 memory (tablesAt dir k) = 0) :
    load32 (clearTables dir memory) (tablesAt dir k) = 0 := by
  unfold clearTables
  apply List.foldlRecOn (motive := fun middle => load32 middle (tablesAt dir k) = 0)
  · exact clear
  · intro middle before i member
    have here := List.mem_range.mp member
    by_cases same : k = i
    · rw [same, load32_store32_apart, load32_store32]
      intro x first second
      unfold Within tablesAt tablesPhysicalAt at *
      bv_omega
    · have apart : ∀ x, Within (tablesAt dir k) 4 x → ¬SlotWords dir i x :=
        fun x inside => slotWords_apart bound here same inside
      rw [load32_store32_apart fun x inside also => apart x inside (Or.inr also),
        load32_store32_apart fun x inside also => apart x inside (Or.inl also)]
      exact before

/-- The address of mm_get_page's local variable on the boot stack. -/
structure BootStack where
  tmp : Word
  nonzero : tmp ≠ 0
  outside : ∀ x, Within tmp 4 x → ¬Within KERNEL_HEAP_START KERNEL_HEAP_SIZE.toNat x

theorem BootStack.apart {dir : Word} (stack : BootStack) (low : 0xD0000000 ≤ dir.toNat)
    (high : dir.toNat + 8196 ≤ 0xD1000000) : Apart stack.tmp 4 dir 8196 := by
  intro x inside also
  apply stack.outside x inside
  have size : (KERNEL_HEAP_SIZE : Word).toNat = 0x1000000 := rfl
  unfold Within at also ⊢
  bv_omega

/-! One turn of the loop. -/

/-- The frames that mm_first_free can still return. -/
def freeFrames (state : FrameState) : Nat := state.totalBlocks.toNat - (usedFrames state).card

/-- mm_get_page has returned the entry of page `i`, in table `i / 1024`: it and those behind it
in the table are still empty, and so are the slots behind the table. -/
structure Current (s : Mm) (blocks : List Block) (i : Nat) (table : Word) : Prop where
  tiling : Tiling s.heap blocks
  room : Room blocks (8 + 4112 * (65 - (i / 1024 + 1)))
  length : blocks.length ≤ 3 + i / 1024
  directory : ∀ x, Within s.kernelDirectory 8196 x → Kept blocks x
  absent : ∀ k < 1024, i / 1024 < k → load32 s.mem (tablesAt s.kernelDirectory k) = 0
  stored : load32 s.mem (tablesAt s.kernelDirectory (i / 1024)) = table
  nonzero : table ≠ 0
  payload : ∀ x, Within table 4096 x → Kept blocks x ∧ ¬Within s.kernelDirectory 8196 x
  empty : ∀ j < 1024, i % 1024 ≤ j → load32 s.mem (pageAt table j) = 0

/-- Before the turn of page `i`: at the start of a table nothing of it is there. -/
inductive Before (s : Mm) (blocks : List Block) (i : Nat) : Prop
  | first (start : i % 1024 = 0) (tiling : Tiling s.heap blocks)
      (room : Room blocks (8 + 4112 * (65 - i / 1024))) (length : blocks.length ≤ 2 + i / 1024)
      (directory : ∀ x, Within s.kernelDirectory 8196 x → Kept blocks x)
      (absent : ∀ k < 1024, i / 1024 ≤ k → load32 s.mem (tablesAt s.kernelDirectory k) = 0)
  | within (table : Word) (inside : i % 1024 ≠ 0) (current : Current s blocks i table)

/-- The address of page `i`. -/
def addrOf (i : Nat) : Word := BitVec.ofNat 32 (4096 * i)

section turn
variable {s : Mm} {blocks : List Block} {i : Nat} {table tmp : Word}

theorem tableIdx_addrOf (bound : i < 2 ^ 20) : tableIdx (addrOf i) = i / 1024 := by
  rw [tableIdx, BitVec.toNat_udiv, BitVec.toNat_udiv]
  change (4096 * i) % 2 ^ 32 / 4096 / 1024 = i / 1024
  omega

theorem pageIdx_addrOf (i : Nat) : (addrOf i / PAGE_SIZE % 1024).toNat = i % 1024 := by
  rw [BitVec.toNat_umod, BitVec.toNat_udiv]
  change (4096 * i) % 2 ^ 32 / 4096 % 1024 = i % 1024
  omega

/-- mm_get_page makes the table of page `i` in the hole it is served from. -/
theorem current_of_served {next after : Heap} {rest : List Block} (bound : i < 66560)
    (served : Served s.heap blocks sizeofPageTable tmp table next rest)
    (room : Room rest (8 + 4112 * (65 - (i / 1024 + 1)))) (length : blocks.length ≤ 2 + i / 1024)
    (start : i % 1024 = 0) (directory : ∀ x, Within s.kernelDirectory 8196 x → Kept blocks x)
    (absent : ∀ k < 1024, i / 1024 ≤ k → load32 s.mem (tablesAt s.kernelDirectory k) = 0)
    (made : Made s.heap after blocks rest s.kernelDirectory tmp table (i / 1024))
    (apart : Apart tmp 4 s.kernelDirectory 8196) : Current { s with heap := after } rest i table := by
  have more := served.length
  have low := served.low
  apply Current.mk made.tiling room
  · omega
  · exact fun x inside => served.kept x (directory x inside)
  · intro k small later
    rw [← absent k small (Nat.le_of_lt later)]
    apply load32_congr
    intro x inside
    have kernel := within_tablesAt small inside
    apply made.same x (directory x kernel) _ fun also => apart x also kernel
    exact slotWords_apart small (by omega) (by omega) inside
  · exact made.stored
  · rintro rfl
    exact absurd low (by decide)
  · intro x inside
    obtain ⟨fresh, old⟩ := served.payload x inside
    exact ⟨fresh, fun kernel => old (directory x kernel)⟩
  · intro j small _
    rw [← load32_zero (pageAt table j)]
    exact load32_congr fun x inside => made.cleared x (within_pageAt small inside)

theorem Current.found (current : Current s blocks i table) (fuel : Nat) (tmp : Word)
    (bound : i < 66560) :
    mmGetPage fuel (addrOf i) 1 s.kernelDirectory tmp s.heap =
      .ok (pageAt table (i % 1024), s.heap) := by
  have stored : tableOf s.heap.mem s.kernelDirectory (addrOf i) = table := by
    rw [tableOf, tableIdx_addrOf (by omega)]
    exact current.stored
  have present : tableOf s.heap.mem s.kernelDirectory (addrOf i) ≠ 0 := by
    rw [stored]
    exact current.nonzero
  unfold mmGetPage
  dsimp only
  rw [if_pos present, stored, pageIdx_addrOf]

/-- mm_get_page finds the table of page `i` or makes it. -/
theorem mmGetPage_current (fuel : Nat) (stack : BootStack) (before : Before s blocks i)
    (bound : i < 66560) (apart : Apart stack.tmp 4 s.kernelDirectory 8196) :
    (mmGetPage fuel (addrOf i) 1 s.kernelDirectory stack.tmp s.heap = .error .running ∧ fuel ≤ 66) ∨
      ∃ table heap rest, mmGetPage fuel (addrOf i) 1 s.kernelDirectory stack.tmp s.heap =
          .ok (pageAt table (i % 1024), heap) ∧ Current { s with heap := heap } rest i table := by
  have index := tableIdx_addrOf (i := i) (by omega)
  have entry := pageIdx_addrOf i
  cases before with
  | first start tiling room length directory absent =>
    have missing : tableOf s.heap.mem s.kernelDirectory (addrOf i) = 0 := by
      rw [tableOf, index]
      exact absent (i / 1024) (by omega) (Nat.le_refl _)
    have harmless : ∀ x, Within stack.tmp 4 x → Kept blocks x :=
      fun x inside => outside_kept tiling.layout (stack.outside x inside)
    have enough : 8 + 4112 * (65 - i / 1024) =
        8 + 4112 * (65 - (i / 1024 + 1)) + ((sizeofPageTable : Word).toNat + 16) := by
      change _ = _ + (4096 + 16)
      omega
    rw [enough] at room
    simp only [mmGetPage, if_neg (not_not.mpr missing), index, entry]
    rcases kmallocAp_cases fuel tiling (by decide) room (Nat.le_add_right 8 _) fun _ => harmless with
      ⟨running, short⟩ | ⟨table, next, rest, returned, served, left⟩
    · left
      rw [running]
      exact ⟨rfl, by omega⟩
    · right
      have made := made_of_served (i := i / 1024) served (by omega) directory stack.nonzero harmless
        apart
      have here : tableOf (installTable next.mem s.kernelDirectory stack.tmp table (i / 1024))
          s.kernelDirectory (addrOf i) = table := by
        rw [tableOf, index]
        exact made.stored
      rw [returned]
      refine ⟨table, _, rest, ?_,
        current_of_served bound served left length start directory absent made apart⟩
      rw [if_pos (by decide), ok_bind, here]
      rfl
  | within table inside current =>
    exact Or.inr ⟨table, s.heap, blocks, current.found fuel stack.tmp bound, current⟩

/-- Filling the entry of page `i` leaves the entries behind it. -/
theorem Current.next (current : Current s blocks i table) (bound : i < 66560) (frames : FrameState)
    (entry : Page) :
    Before ({ s with frames := frames }.write (setPage s.mem (pageAt table (i % 1024)) entry)) blocks
      (i + 1) := by
  have below : i % 1024 < 1024 := Nat.mod_lt i (by decide)
  have written : SameOutside (Within table 4096) s.mem
      (setPage s.mem (pageAt table (i % 1024)) entry) :=
    (SameOutside.store32 s.mem _ _).mono fun x inside => within_pageAt below inside
  have tiling := tiling_congr current.tiling (written.mono fun x inside => (current.payload x inside).1)
  have same : ∀ k < 1024, load32 (setPage s.mem (pageAt table (i % 1024)) entry)
      (tablesAt s.kernelDirectory k) = load32 s.mem (tablesAt s.kernelDirectory k) :=
    fun k small => written.load32 fun x inside fresh =>
      (current.payload x fresh).2 (within_tablesAt small inside)
  have length := current.length
  by_cases start : (i + 1) % 1024 = 0
  · have index : (i + 1) / 1024 = i / 1024 + 1 := by omega
    apply Before.first start tiling
    · rw [index]
      exact current.room
    · omega
    · exact current.directory
    · intro k small later
      exact (same k small).trans (current.absent k small (by omega))
  · have index : (i + 1) / 1024 = i / 1024 := by omega
    apply Before.within table start
    apply Current.mk tiling
    · rw [index]
      exact current.room
    · rw [index]
      exact length
    · exact current.directory
    · rw [index]
      exact fun k small later => (same k small).trans (current.absent k small later)
    · rw [index]
      exact (same (i / 1024) (by omega)).trans current.stored
    · exact current.nonzero
    · exact current.payload
    · intro j small later
      have apart : Apart (pageAt table j) 4 (pageAt table (i % 1024)) 4 := by
        apply apart_words
        · unfold pageAt
          bv_omega
        · unfold pageAt
          bv_omega
      exact (load32_store32_apart apart).trans (current.empty j small (by omega))

/-- mm_alloc_frame on an entry without a frame. -/
theorem mmAllocFrame_unused (frames : FrameState) {entry : Page} (isKernel isWriteable : Word)
    (unused : entry.frame = 0) :
    (frames.mmAllocFrame entry isKernel isWriteable = .error (.panic "Out of memory")) ∨
      ∃ next after, frames.mmAllocFrame entry isKernel isWriteable = .ok (next, after) ∧
        next.usedBlocks = frames.usedBlocks + 1 ∧ freeFrames frames = freeFrames next + 1 := by
  unfold FrameState.mmAllocFrame
  rw [if_neg (not_not.mpr unused)]
  cases found : frames.mmFirstFree with
  | none => exact Or.inl rfl
  | some idx =>
    obtain ⟨bound, free⟩ := mmFirstFree_spec found
    have more : (usedFrames (frames.mmSetBit idx)).card = (usedFrames frames).card + 1 := by
      rw [usedFrames_mmSetBit frames idx bound, Finset.card_insert_of_notMem free]
    have whole : (usedFrames (frames.mmSetBit idx)).card ≤ frames.totalBlocks.toNat :=
      card_usedFrames_le (frames.mmSetBit idx)
    refine Or.inr ⟨_, _, rfl, rfl, ?_⟩
    change _ = frames.totalBlocks.toNat - (usedFrames (frames.mmSetBit idx)).card + 1
    rw [freeFrames, more]
    omega

/-- One turn: it counts used_blocks up by one and takes a frame, or there is none. -/
theorem mapPage_cases (fuel : Nat) (stack : BootStack) (before : Before s blocks i) (bound : i < 66560)
    (apart : Apart stack.tmp 4 s.kernelDirectory 8196) :
    (mapPage fuel stack.tmp (addrOf i) s = .error .running ∧ fuel ≤ 66) ∨
      mapPage fuel stack.tmp (addrOf i) s = .error (.panic "Out of memory") ∨
      ∃ t rest, mapPage fuel stack.tmp (addrOf i) s = .ok t ∧ Before t rest (i + 1) ∧
        t.kernelDirectory = s.kernelDirectory ∧
        t.frames.usedBlocks = s.frames.usedBlocks + 1 ∧
        freeFrames s.frames = freeFrames t.frames + 1 := by
  unfold mapPage
  rcases mmGetPage_current fuel stack before bound apart with
    ⟨running, short⟩ | ⟨table, heap, rest, returned, current⟩
  · rw [running]
    exact Or.inl ⟨rfl, short⟩
  · have empty : load32 heap.mem (pageAt table (i % 1024)) = 0 :=
      current.empty (i % 1024) (Nat.mod_lt i (by decide)) (Nat.le_refl _)
    have unused : (page heap.mem (pageAt table (i % 1024))).frame = 0 := by
      rw [page, empty]
      rfl
    right
    rw [returned, ok_bind]
    change mmAllocFrame { s with heap := heap } _ 1 1 = _ ∨ _
    unfold mmAllocFrame
    rcases mmAllocFrame_unused s.frames 1 1 unused with
      panicked | ⟨frames, entry, taken, counted, fewer⟩
    · left
      change s.frames.mmAllocFrame (page heap.mem _) 1 1 >>= _ = _
      rw [panicked]
      rfl
    · right
      refine ⟨_, rest, ?_, current.next bound frames entry, rfl, counted, fewer⟩
      change s.frames.mmAllocFrame (page heap.mem _) 1 1 >>= _ = _
      rw [taken]
      rfl

theorem addrOf_succ (i : Nat) : addrOf i + PAGE_SIZE = addrOf (i + 1) := by
  unfold addrOf
  bv_omega

/-- The bound stays ahead of the counter, so that the loop ends in the panic. -/
theorem mapKernel_cases (fuel turns : Nat) (stack : BootStack) (before : Before s blocks i)
    (counted : s.frames.usedBlocks.toNat = 65536 + i) (limit : i + freeFrames s.frames < 66560)
    (apart : Apart stack.tmp 4 s.kernelDirectory 8196) :
    mapKernel fuel stack.tmp turns (BitVec.ofNat 32 i) (addrOf i) s = .error (.panic "Out of memory") ∨
      (mapKernel fuel stack.tmp turns (BitVec.ofNat 32 i) (addrOf i) s = .error .running ∧
        (fuel ≤ 66 ∨ turns ≤ freeFrames s.frames)) := by
  induction turns generalizing s blocks i with
  | zero => exact Or.inr ⟨rfl, Or.inr (Nat.zero_le _)⟩
  | succ turns ih =>
    have ahead : BitVec.ofNat 32 i < s.frames.usedBlocks := by
      rw [BitVec.lt_def, counted, BitVec.toNat_ofNat]
      omega
    unfold mapKernel
    rw [if_pos ahead]
    rcases mapPage_cases fuel stack before (by omega) apart with
      ⟨running, short⟩ | panicked | ⟨t, rest, mapped, later, same, more, fewer⟩
    · rw [running]
      exact Or.inr ⟨rfl, Or.inl short⟩
    · rw [panicked]
      exact Or.inl rfl
    · have next : BitVec.ofNat 32 i + 1 = BitVec.ofNat 32 (i + 1) := by bv_omega
      have count : t.frames.usedBlocks.toNat = 65536 + (i + 1) := by
        rw [more, BitVec.toNat_add, counted]
        change (65536 + i + 1) % 2 ^ 32 = _
        omega
      rw [mapped, ok_bind, next, addrOf_succ]
      rcases ih later count (by omega) (same ▸ apart) with panicked | ⟨running, short⟩
      · exact Or.inl panicked
      · refine Or.inr ⟨running, short.imp_right fun few => ?_⟩
        omega

end turn

/-! The whole call. -/

/-- mm_init leaves free the kernel's blocks and what is behind the last whole byte. -/
theorem freeFrames_mmInit (memSize : Word) (bitmap : Nat → Word) :
    freeFrames (mmInit memSize bitmap) ≤ 65543 := by
  have byte : (memSize / PAGE_SIZE / 8).toNat = (memSize / PAGE_SIZE).toNat / 8 :=
    BitVec.toNat_udiv
  have marked : (Finset.Ico 65536 (8 * (memSize / PAGE_SIZE / 8).toNat)).card ≤
      (usedFrames (mmInit memSize bitmap)).card := by
    rw [usedFrames_mmInit]
    exact Finset.card_le_card Finset.subset_union_left
  rw [Nat.card_Ico] at marked
  rw [freeFrames, mmInit_totalBlocks]
  omega

/-- What mm_init_paging stores before its loops. -/
def clearDirectory (dir : Word) (memory : Mem) : Mem :=
  clearTables dir (store32 (memset memory dir 0 sizeofPageDirectory.toNat) (physicalAddrAt dir)
    (tablesPhysicalAt dir 0))

theorem clearDirectory_outside (dir : Word) (memory : Mem) :
    SameOutside (Within dir 8196) memory (clearDirectory dir memory) := by
  unfold clearDirectory
  have zeroed := memset_outside memory dir 0 sizeofPageDirectory.toNat (by decide)
  generalize memset memory dir 0 sizeofPageDirectory.toNat = middle at zeroed ⊢
  have physical : SameOutside (Within dir 8196) middle
      (store32 middle (physicalAddrAt dir) (tablesPhysicalAt dir 0)) :=
    (SameOutside.store32 _ _ _).mono fun x inside => within_sub 8192 (by decide) inside
  have first : SameOutside (Within dir 8196) memory middle := zeroed
  exact (first.trans physical).trans (clearTables_outside dir _)

theorem load32_clearDirectory (dir : Word) (memory : Mem) {k : Nat} (bound : k < 1024) :
    load32 (clearDirectory dir memory) (tablesAt dir k) = 0 := by
  apply load32_clearTables bound
  have apart : Apart (tablesAt dir k) 4 (physicalAddrAt dir) 4 := by
    apply apart_words
    · unfold tablesAt physicalAddrAt
      bv_omega
    · unfold tablesAt physicalAddrAt
      bv_omega
  rw [load32_store32_apart apart, ← load32_zero (tablesAt dir k)]
  apply load32_congr
  intro x inside
  rw [memset_spec memory dir 0 _ (by decide)]
  exact if_pos (within_tablesAt bound inside)

/-- The head of the first loop. -/
theorem before_first {s : Mm} {memory : Mem} {heap : Heap} {blocks rest : List Block}
    (served : Served heap blocks sizeofPageDirectory 0 s.kernelDirectory s.heap rest)
    (room : Room rest (8 + 4112 * 65)) (short : blocks.length ≤ 1)
    (outside : SameOutside (Within s.kernelDirectory 8196) s.mem memory)
    (clear : ∀ k < 1024, load32 memory (tablesAt s.kernelDirectory k) = 0) :
    Before (s.write memory) rest 0 := by
  have more := served.length
  have directory : ∀ x, Within s.kernelDirectory 8196 x → Kept rest x :=
    fun x inside => (served.payload x inside).1
  apply Before.first rfl _ room
  · omega
  · exact directory
  · exact fun k small _ => clear k small
  · exact tiling_congr served.tiling (outside.mono directory)

/-- The first loop on a cleared directory. -/
theorem mapKernel_cleared (fuel : Nat) (stack : BootStack) {s : Mm} {memory : Mem} {heap : Heap}
    {blocks rest : List Block}
    (served : Served heap blocks sizeofPageDirectory 0 s.kernelDirectory s.heap rest)
    (room : Room rest (8 + 4112 * 65)) (short : blocks.length ≤ 1)
    (outside : SameOutside (Within s.kernelDirectory 8196) s.mem memory)
    (clear : ∀ k < 1024, load32 memory (tablesAt s.kernelDirectory k) = 0)
    (counted : s.frames.usedBlocks = kernelBlocks) (few : freeFrames s.frames ≤ 65543) :
    mapKernel fuel stack.tmp fuel 0 0 (s.write memory) = .error (.panic "Out of memory") ∨
      (mapKernel fuel stack.tmp fuel 0 0 (s.write memory) = .error .running ∧ fuel ≤ 65543) := by
  have before := before_first served room short outside clear
  have used : (s.write memory).frames.usedBlocks.toNat = 65536 + 0 := by
    rw [Mm.write_frames, counted]
    rfl
  have limit : 0 + freeFrames (s.write memory).frames < 66560 := by
    rw [Mm.write_frames]
    omega
  rcases mapKernel_cases fuel fuel stack before used limit
    (stack.apart served.low served.high) with panicked | ⟨running, late⟩
  · exact Or.inl panicked
  · rw [Mm.write_frames] at late
    exact Or.inr ⟨running, by omega⟩

/-- On a fresh heap mm_init_paging ends in the panic of its first loop. -/
theorem mmInitPaging_cases (fuel : Nat) (symbols : Symbols) (stack : BootStack) (control : Control)
    {s : Mm} (fresh : s.heap.heapStart = 0) (counted : s.frames.usedBlocks = kernelBlocks)
    (few : freeFrames s.frames ≤ 65543) :
    mmInitPaging fuel symbols stack.tmp control s = .error (.panic "Out of memory") ∨
      (mmInitPaging fuel symbols stack.tmp control s = .error .running ∧ fuel ≤ 65543) := by
  have room : Room [Block.mk KERNEL_HEAP_START (KERNEL_HEAP_SIZE - sizeofMemBlock) true]
      (8 + 4112 * 65 + ((sizeofPageDirectory : Word).toNat + 16)) :=
    ⟨_, List.mem_singleton_self _, rfl, by decide⟩
  have first := kmallocAp_cases fuel (initHeap_tiling fresh) (by decide) room
    (Nat.le_add_right 8 _) fun present : (0 : Word) ≠ 0 => absurd rfl present
  rw [kmallocAp_initHeap] at first
  unfold mmInitPaging kmallocA
  rcases first with ⟨running, short⟩ | ⟨dir, heap, rest, returned, served, left⟩
  · rw [running]
    exact Or.inr ⟨rfl, Nat.le_trans short (by decide)⟩
  · let t : Mm := { s with heap := heap, kernelDirectory := dir }
    have loop := mapKernel_cleared (s := t) fuel stack served left (Nat.le_refl 1)
      (clearDirectory_outside dir t.mem) (fun k small => load32_clearDirectory dir t.mem small)
      counted few
    rw [returned, ok_bind]
    simp only [Mm.write_mem, Mm.write_write]
    rw [← clearDirectory]
    rcases loop with panicked | ⟨running, short⟩
    · left
      rw [panicked]
      rfl
    · right
      rw [running]
      exact ⟨rfl, short⟩

theorem not_completes (symbols : Symbols) (stack : BootStack) (control : Control) {s : Mm}
    (fresh : s.heap.heapStart = 0) (counted : s.frames.usedBlocks = kernelBlocks)
    (few : freeFrames s.frames ≤ 65543) : ¬Completes symbols stack.tmp control s := by
  rintro ⟨fuel, t, after, finished, _⟩
  rcases mmInitPaging_cases fuel symbols stack control fresh counted few with
    panicked | ⟨running, _⟩
  · rw [panicked] at finished
    exact absurd finished (by simp)
  · rw [running] at finished
    exact absurd finished (by simp)

/-- mm_init_paging never reaches the switch: it runs out of frames, whatever the memory. -/
theorem mmInitPaging_panics (symbols : Symbols) (stack : BootStack) (control : Control)
    (memSize : Word) (bitmap : Nat → Word) (memory : Mem) :
    (∀ fuel, 65543 < fuel → mmInitPaging fuel symbols stack.tmp control
        (booting memSize bitmap memory) = .error (.panic "Out of memory")) ∧
      ¬Completes symbols stack.tmp control (booting memSize bitmap memory) := by
  have counted := mmInit_usedBlocks memSize bitmap
  have few := freeFrames_mmInit memSize bitmap
  constructor
  · intro fuel enough
    rcases mmInitPaging_cases fuel symbols stack control (s := booting memSize bitmap memory) rfl
      counted few with panicked | ⟨_, short⟩
    · exact panicked
    · omega
  · exact not_completes symbols stack control rfl counted few

/-- A boot stack in the kernel's image. -/
def imageStack : BootStack where
  tmp := 0x200000
  nonzero := by decide
  outside := fun _ inside => below_heap (by decide) inside

/-- With just the frames that both loops need. -/
theorem mmInitPaging_incomplete :
    ¬∀ (symbols : Symbols) (stack : BootStack) (control : Control) (memSize : Word)
      (bitmap : Nat → Word) (memory : Mem),
      kernelBlocks.toNat + (KERNEL_HEAP_SIZE / PAGE_SIZE).toNat ≤ (memSize / PAGE_SIZE).toNat →
        Completes symbols stack.tmp control (booting memSize bitmap memory) := by
  intro claim
  have completes := claim linked imageStack ⟨0, 0⟩ 0x11000000 (fun _ => 0) (fun _ => 0) (by decide)
  apply not_completes linked imageStack ⟨0, 0⟩ _ _ _ completes
  · rfl
  · exact mmInit_usedBlocks _ _
  · exact freeFrames_mmInit _ _

end Vaelen.Kernel.BootPaging
