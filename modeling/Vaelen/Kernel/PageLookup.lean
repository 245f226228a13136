import Vaelen.Kernel.PageTables

/-!
mm_get_page as a map from pages to entries. The two-level split of an address loses nothing, so
entries of different pages differ as long as the tables of the directory do not overlap.
-/

namespace Vaelen.Kernel.PageLookup
open Vaelen.Base Platform Kmalloc KmallocBlocks KmallocTiling KmallocKept Paging PageTables
open CloneDirectory (within_tablesAt within_tablesPhysicalAt within_pageAt within_slotWords SlotWords
  slotWords_apart)

def pageIdx (addr : Word) : Nat := (addr / PAGE_SIZE % 1024).toNat

/-- What mm_get_page returns without making a table. -/
def entryOf (memory : Mem) (dir addr : Word) : Word :=
  if tableOf memory dir addr ≠ 0 then pageAt (tableOf memory dir addr) (pageIdx addr) else 0

theorem mmGetPage_entryOf (fuel : Nat) (addr dir tmp : Word) (heap : Heap) :
    mmGetPage fuel addr 0 dir tmp heap = .ok (entryOf heap.mem dir addr, heap) := by
  rw [mmGetPage, entryOf]
  by_cases present : tableOf heap.mem dir addr ≠ 0
  · rw [if_pos present, if_pos present]
    rfl
  · rw [if_neg present, if_neg present, if_neg (not_not.mpr rfl)]

/-- A byte of the directory or of one of its tables. -/
def Owned (memory : Mem) (dir x : Word) : Prop :=
  Within dir 8196 x ∨
    ∃ i < 1024, load32 memory (tablesAt dir i) ≠ 0 ∧ Within (load32 memory (tablesAt dir i)) 4096 x

/-- The tables share no byte with each other or the directory, and none of them holds address 0. -/
structure Separate (memory : Mem) (dir : Word) : Prop where
  nonnull : ∀ i < 1024, load32 memory (tablesAt dir i) ≠ 0 →
    ¬Within (load32 memory (tablesAt dir i)) 4096 0
  apart : ∀ i < 1024, ∀ k < 1024, i ≠ k → load32 memory (tablesAt dir i) ≠ 0 →
    load32 memory (tablesAt dir k) ≠ 0 →
    Apart (load32 memory (tablesAt dir i)) 4096 (load32 memory (tablesAt dir k)) 4096
  directory : ∀ i < 1024, load32 memory (tablesAt dir i) ≠ 0 →
    Apart (load32 memory (tablesAt dir i)) 4096 dir 8196

/-- kmalloc_ap has returned a page of fresh memory and left the directory and its tables alone. -/
structure FreshTable (memory : Mem) (dir table : Word) (later : Mem) : Prop where
  nonnull : ¬Within table 4096 0
  apart : ∀ x, Within table 4096 x → ¬Owned memory dir x
  same : ∀ x, Owned memory dir x → later x = memory x

variable {memory later : Mem} {dir table : Word}

theorem tableIdx_eq (addr : Word) : tableIdx addr = addr.toNat / 4096 / 1024 := by
  rw [tableIdx, BitVec.toNat_udiv, BitVec.toNat_udiv]
  rfl

theorem pageIdx_eq (addr : Word) : pageIdx addr = addr.toNat / 4096 % 1024 := by
  rw [pageIdx, BitVec.toNat_umod, BitVec.toNat_udiv]
  rfl

theorem pageIdx_lt (addr : Word) : pageIdx addr < 1024 := by
  rw [pageIdx_eq]
  exact Nat.mod_lt _ (by decide)

/-- The two indices together are the page number. -/
theorem same_page_iff (a b : Word) :
    a / PAGE_SIZE = b / PAGE_SIZE ↔ tableIdx a = tableIdx b ∧ pageIdx a = pageIdx b := by
  have number : ∀ addr : Word, (addr / PAGE_SIZE).toNat = addr.toNat / 4096 := fun _ => BitVec.toNat_udiv
  rw [← BitVec.toNat_inj, number, number, tableIdx_eq, tableIdx_eq, pageIdx_eq, pageIdx_eq]
  omega

theorem pageAt_inj {j k : Nat} (first : j < 1024) (second : k < 1024)
    (same : pageAt table j = pageAt table k) : j = k := by
  unfold pageAt at same
  bv_omega

theorem within_first (table : Word) {j : Nat} (bound : j < 1024) :
    Within table 4096 (pageAt table j) := by
  unfold Within pageAt
  bv_omega

/-- Entries of different pages differ. -/
theorem entryOf_eq_iff (separate : Separate memory dir) {a b : Word}
    (present : tableOf memory dir a ≠ 0) :
    entryOf memory dir b = entryOf memory dir a ↔ a / PAGE_SIZE = b / PAGE_SIZE := by
  have inA := within_first (tableOf memory dir a) (pageIdx_lt a)
  have inB := within_first (tableOf memory dir b) (pageIdx_lt b)
  rw [same_page_iff, entryOf, entryOf, if_pos present]
  constructor
  · intro same
    by_cases slot : tableIdx a = tableIdx b
    · have table : tableOf memory dir b = tableOf memory dir a := by rw [tableOf, tableOf, slot]
      rw [table, if_pos present] at same
      exact ⟨slot, (pageAt_inj (pageIdx_lt b) (pageIdx_lt a) same).symm⟩
    · by_cases other : tableOf memory dir b ≠ 0
      · rw [if_pos other] at same
        rw [same] at inB
        exact absurd inB (separate.apart _ (tableIdx_lt a) _ (tableIdx_lt b) slot present other _ inA)
      · rw [if_neg other] at same
        rw [← same] at inA
        exact absurd inA (separate.nonnull _ (tableIdx_lt a) present)
  · rintro ⟨slot, page⟩
    have table : tableOf memory dir b = tableOf memory dir a := by rw [tableOf, tableOf, slot]
    rw [table, if_pos present, page]

/-! A new table. -/

/-- What the stores of mm_get_page leave: one slot filled, its table zero, the rest as it was. -/
structure Installed (memory : Mem) (dir table : Word) (i : Nat) (later : Mem) : Prop where
  slot : ∀ k < 1024, load32 later (tablesAt dir k) =
    if k = i then table else load32 memory (tablesAt dir k)
  cleared : ∀ x, Within table 4096 x → later x = 0
  same : ∀ x, Owned memory dir x → ¬SlotWords dir i x → later x = memory x

theorem FreshTable.installed {middle : Mem} {tmp : Word} {i : Nat} (bound : i < 1024)
    (fresh : FreshTable memory dir table middle) :
    Installed memory dir table i (installTable middle dir tmp table i) := by
  let first := store32 middle (tablesAt dir i) table
  let second := memset first table 0 4096
  have slotSame : SameOutside (Within (tablesAt dir i) 4) middle first :=
    SameOutside.store32 middle _ table
  have tableSame : SameOutside (Within table 4096) first second :=
    memset_outside first table 0 4096 (by decide)
  have elsewhere : ∀ x, Within dir 8196 x → ¬Within table 4096 x := fun x inside also =>
    fresh.apart x also (Or.inl inside)
  obtain ⟨value, whole⟩ : ∃ value, installTable middle dir tmp table i =
      store32 second (tablesPhysicalAt dir i) value := by
    simp only [installTable, load32_store32]
    exact ⟨_, rfl⟩
  have physicalSame : SameOutside (Within (tablesPhysicalAt dir i) 4) second
      (store32 second (tablesPhysicalAt dir i) value) := SameOutside.store32 second _ value
  rw [whole]
  constructor
  · intro k small
    have word : ∀ x, Within (tablesAt dir k) 4 x → ¬Within (tablesPhysicalAt dir i) 4 x :=
      fun x inside also => by
        unfold Within tablesAt tablesPhysicalAt at *
        bv_omega
    rw [physicalSame.load32 word,
      tableSame.load32 fun x inside => elsewhere x (within_tablesAt small inside)]
    by_cases here : k = i
    · rw [if_pos here, here]
      exact load32_store32 middle _ table
    · rw [if_neg here, slotSame.load32 fun x inside also =>
        slotWords_apart small bound here inside (Or.inl also)]
      exact load32_congr fun x inside => fresh.same x (Or.inl (within_tablesAt small inside))
  · intro x inside
    rw [physicalSame x fun also => elsewhere x (within_tablesPhysicalAt bound also) inside]
    change memset first table 0 4096 x = 0
    rw [memset_spec first table 0 4096 (by decide), if_pos inside]
  · intro x owned outside
    rw [physicalSame x fun also => outside (Or.inr also),
      tableSame x fun also => fresh.apart x also owned,
      slotSame x fun also => outside (Or.inl also)]
    exact fresh.same x owned

/-- The tables of the directory before are those of the directory after, and the new one. -/
theorem Installed.separate {middle : Mem} {i : Nat} (installed : Installed memory dir table i later)
    (fresh : FreshTable memory dir table middle) (separate : Separate memory dir) :
    Separate later dir := by
  have owned : ∀ k < 1024, load32 memory (tablesAt dir k) ≠ 0 → ∀ x,
      Within (load32 memory (tablesAt dir k)) 4096 x → Owned memory dir x :=
    fun k small present x inside => Or.inr ⟨k, small, present, inside⟩
  constructor
  · intro k small present
    rw [installed.slot k small] at present ⊢
    by_cases here : k = i
    · rw [if_pos here]
      exact fresh.nonnull
    · rw [if_neg here] at present ⊢
      exact separate.nonnull k small present
  · intro k small l low different present also x
    rw [installed.slot k small] at present ⊢
    rw [installed.slot l low] at also ⊢
    by_cases here : k = i
    · have there : l ≠ i := fun same => different (here.trans same.symm)
      rw [if_pos here]
      rw [if_neg there] at also ⊢
      exact fun inside other => fresh.apart x inside (owned l low also x other)
    · rw [if_neg here] at present ⊢
      by_cases there : l = i
      · rw [if_pos there]
        exact fun inside other => fresh.apart x other (owned k small present x inside)
      · rw [if_neg there] at also ⊢
        exact separate.apart k small l low different present also x
  · intro k small present x
    rw [installed.slot k small] at present ⊢
    by_cases here : k = i
    · rw [if_pos here]
      exact fun inside other => fresh.apart x inside (Or.inl other)
    · rw [if_neg here] at present ⊢
      exact separate.directory k small present x

/-- mm_get_page with `make` returns the entry of the page in the directory it leaves. -/
theorem mmGetPage_pageAt {fuel : Nat} {addr tmp p : Word} {heap next : Heap}
    (returned : mmGetPage fuel addr 1 dir tmp heap = .ok (p, next)) :
    p = pageAt (tableOf next.mem dir addr) (pageIdx addr) := by
  unfold mmGetPage at returned
  by_cases present : tableOf heap.mem dir addr ≠ 0
  · rw [if_pos present] at returned
    obtain ⟨rfl, rfl⟩ := Prod.mk.inj (Except.ok.inj returned)
    rfl
  · rw [if_neg present, if_pos (by decide)] at returned
    obtain ⟨⟨table, middle⟩, _, rest⟩ := bind_eq_ok returned
    obtain ⟨rfl, rfl⟩ := Prod.mk.inj (Except.ok.inj rest)
    rfl

theorem tableOf_installed {i : Nat} (installed : Installed memory dir table i later) (addr : Word) :
    tableOf later dir addr = if tableIdx addr = i then table else tableOf memory dir addr :=
  installed.slot (tableIdx addr) (tableIdx_lt addr)

theorem FreshTable.table_ne_zero {middle : Mem} (fresh : FreshTable memory dir table middle) :
    table ≠ 0 := by
  rintro rfl
  exact fresh.nonnull (by decide)

/-- The entries that there were are where they were, and hold what they held. -/
theorem Installed.entry {i : Nat} (installed : Installed memory dir table i later)
    (separate : Separate memory dir) (bound : i < 1024)
    (absent : load32 memory (tablesAt dir i) = 0) {addr : Word}
    (present : tableOf memory dir addr ≠ 0) :
    entryOf later dir addr = entryOf memory dir addr ∧
      load32 later (entryOf memory dir addr) = load32 memory (entryOf memory dir addr) := by
  have other : tableIdx addr ≠ i := by
    rintro rfl
    exact present absent
  have kept : tableOf later dir addr = tableOf memory dir addr := by
    rw [tableOf_installed installed, if_neg other]
  refine ⟨by rw [entryOf, entryOf, kept], ?_⟩
  rw [entryOf, if_pos present]
  apply load32_congr
  intro x inside
  have entry := within_pageAt (pageIdx_lt addr) inside
  apply installed.same x (Or.inr ⟨tableIdx addr, tableIdx_lt addr, present, entry⟩)
  exact fun slot => separate.directory _ (tableIdx_lt addr) present x entry (within_slotWords bound slot)

/-- A missing table is made from a fresh page. -/
theorem mmGetPage_installed {fuel : Nat} {a tmp p : Word} {heap next : Heap}
    (absent : tableOf heap.mem dir a = 0)
    (fresh : ∀ table middle, kmallocAp fuel sizeofPageTable tmp heap = .ok (table, middle) →
      FreshTable heap.mem dir table middle.mem)
    (returned : mmGetPage fuel a 1 dir tmp heap = .ok (p, next)) :
    ∃ table middle, FreshTable heap.mem dir table middle ∧
      Installed heap.mem dir table (tableIdx a) next.mem := by
  obtain ⟨table, middle, allocated, rfl⟩ := mmGetPage_absent absent (by decide) returned
  have new := fresh table middle allocated
  exact ⟨table, middle.mem, new, new.installed (tableIdx_lt a)⟩

/-- The page of the returned entry, when the tables do not overlap. -/
theorem mmGetPage_finds {fuel : Nat} {a tmp p : Word} {heap next : Heap}
    (returned : mmGetPage fuel a 1 dir tmp heap = .ok (p, next)) (separate : Separate next.mem dir)
    (present : tableOf next.mem dir a ≠ 0) (b : Word) (more : Nat) (slot : Word) :
    ∃ q, mmGetPage more b 0 dir slot next = .ok (q, next) ∧
      (q = p ↔ a / PAGE_SIZE = b / PAGE_SIZE) := by
  have mine : p = entryOf next.mem dir a := (mmGetPage_pageAt returned).trans (if_pos present).symm
  refine ⟨_, mmGetPage_entryOf more b dir slot next, ?_⟩
  rw [mine]
  exact entryOf_eq_iff separate present

/-- After p = mm_get_page(a, 1) the entry p is found for the addresses of its page only, every entry
that there was stands unchanged, a new table is zero, and the tables still do not overlap. -/
theorem mmGetPage_lookup (fuel : Nat) (a dir tmp p : Word) (heap next : Heap)
    (separate : Separate heap.mem dir)
    (fresh : tableOf heap.mem dir a = 0 → ∀ table middle,
      kmallocAp fuel sizeofPageTable tmp heap = .ok (table, middle) →
      FreshTable heap.mem dir table middle.mem)
    (returned : mmGetPage fuel a 1 dir tmp heap = .ok (p, next)) :
    (∀ b more slot, ∃ q, mmGetPage more b 0 dir slot next = .ok (q, next) ∧
        (q = p ↔ a / PAGE_SIZE = b / PAGE_SIZE)) ∧
      (∀ b more slot, tableOf heap.mem dir b ≠ 0 →
        ∃ q, mmGetPage more b 0 dir slot heap = .ok (q, heap) ∧
          mmGetPage more b 0 dir slot next = .ok (q, next) ∧
          load32 next.mem q = load32 heap.mem q) ∧
      (tableOf heap.mem dir a = 0 → ∀ j < 1024,
        load32 next.mem (pageAt (tableOf next.mem dir a) j) = 0) ∧
      Separate next.mem dir := by
  by_cases absent : tableOf heap.mem dir a = 0
  · obtain ⟨table, middle, new, installed⟩ := mmGetPage_installed absent (fresh absent) returned
    have later := installed.separate new separate
    have here : tableOf next.mem dir a = table := by rw [tableOf_installed installed, if_pos rfl]
    have present : tableOf next.mem dir a ≠ 0 := by
      rw [here]
      exact new.table_ne_zero
    refine ⟨mmGetPage_finds returned later present, fun b more slot old => ?_, fun _ j bound => ?_, later⟩
    · obtain ⟨same, content⟩ := installed.entry separate (tableIdx_lt a) absent old
      refine ⟨_, mmGetPage_entryOf more b dir slot heap, ?_, content⟩
      rw [← same]
      exact mmGetPage_entryOf more b dir slot next
    · rw [here, ← load32_zero (pageAt table j)]
      exact load32_congr fun x inside => installed.cleared x (within_pageAt bound inside)
  · have same : next = heap := by
      rw [mmGetPage, if_pos absent] at returned
      exact (congrArg Prod.snd (Except.ok.inj returned)).symm
    subst same
    exact ⟨mmGetPage_finds returned separate absent, fun b more slot _ =>
      ⟨_, mmGetPage_entryOf more b dir slot _, mmGetPage_entryOf more b dir slot _, rfl⟩,
      fun missing => absurd missing absent, separate⟩

/-- The pages of the heap are fresh, for a directory in bytes that the allocator leaves alone. -/
theorem freshTable_of_served {heap next : Heap} {blocks rest : List Block} {tmp : Word}
    (served : Served heap blocks sizeofPageTable tmp table next rest)
    (aside : ∀ x, Owned memory dir x → Kept blocks x ∧ ¬Within tmp 4 x ∧ heap.mem x = memory x) :
    FreshTable memory dir table next.mem := by
  have low := served.low
  have high : table.toNat + 4096 ≤ 0xD1000000 := served.high
  constructor
  · unfold Within
    bv_omega
  · exact fun x inside owned => (served.payload x inside).2 (aside x owned).1
  · intro x owned
    obtain ⟨kept, outside, same⟩ := aside x owned
    exact (served.same x kept fun _ => outside).trans same

/-- The first table of an empty directory at 0x200000. -/
theorem mmGetPage_lookup_first :
    ∃ p next, mmGetPage 2 0x400000 1 0x200000 0x300000 (uninitialised fun _ => 0) = .ok (p, next) ∧
      ∀ b more slot, ∃ q, mmGetPage more b 0 0x200000 slot next = .ok (q, next) ∧
        (q = p ↔ (0x400000 : Word) / PAGE_SIZE = b / PAGE_SIZE) := by
  have slots : ∀ i, load32 (uninitialised fun _ => 0).mem (tablesAt 0x200000 i) = 0 := fun i =>
    load32_zero _
  have separate : Separate (uninitialised fun _ => 0).mem 0x200000 :=
    ⟨fun i _ present => absurd (slots i) present, fun i _ _ _ _ present => absurd (slots i) present,
      fun i _ present => absurd (slots i) present⟩
  have owned : ∀ x, Owned (uninitialised fun _ => 0).mem 0x200000 x → Within 0x200000 8196 x := by
    rintro x (directory | ⟨i, _, present, _⟩)
    · exact directory
    · exact absurd (slots i) present
  have tiling := initHeap_tiling (show (uninitialised fun _ => 0).heapStart = 0 from rfl)
  have room : Room [Block.mk KERNEL_HEAP_START (KERNEL_HEAP_SIZE - sizeofMemBlock) true]
      (8 + ((sizeofPageTable : Word).toNat + 16)) := ⟨_, List.mem_singleton_self _, rfl, by decide⟩
  have outside : ∀ x, Within (0x300000 : Word) 4 x →
      ¬Within KERNEL_HEAP_START KERNEL_HEAP_SIZE.toNat x :=
    fun _ inside => below_heap (by decide) inside
  obtain ⟨table, middle, rest, allocated, served, _⟩ := kmallocAp_served tiling (by decide) room
    (Nat.le_refl 8) (fun _ x inside => outside_kept tiling.layout (outside x inside))
    (Nat.lt_succ_self 1)
  rw [kmallocAp_initHeap] at allocated
  have fresh : FreshTable (uninitialised fun _ => 0).mem 0x200000 table middle.mem := by
    apply freshTable_of_served served
    intro x also
    have directory := owned x also
    have kept := outside_kept tiling.layout (below_heap (by decide) directory)
    refine ⟨kept, fun slot => ?_, initHeap_same tiling kept⟩
    unfold Within at slot directory
    bv_omega
  have absent : tableOf (uninitialised fun _ => 0).mem 0x200000 0x400000 = 0 := slots _
  obtain ⟨p, next, returned⟩ : ∃ p next,
      mmGetPage 2 0x400000 1 0x200000 0x300000 (uninitialised fun _ => 0) = .ok (p, next) := by
    rw [mmGetPage, if_neg (not_not.mpr absent), if_pos (by decide), allocated]
    exact ⟨_, _, rfl⟩
  refine ⟨p, next, returned, (mmGetPage_lookup 2 0x400000 0x200000 0x300000 p _ next separate
    (fun _ other heap also => ?_) returned).1⟩
  obtain ⟨rfl, rfl⟩ := Prod.mk.inj (Except.ok.inj (allocated.symm.trans also))
  exact fresh

/-- A directory with one table in its first two slots. -/
theorem entryOf_shared :
    ¬∀ (fuel : Nat) (a b dir tmp p : Word) (heap next : Heap),
      (tableOf heap.mem dir a = 0 → ∀ table middle,
        kmallocAp fuel sizeofPageTable tmp heap = .ok (table, middle) →
        FreshTable heap.mem dir table middle.mem) →
      mmGetPage fuel a 1 dir tmp heap = .ok (p, next) →
      ∃ q, mmGetPage fuel b 0 dir tmp next = .ok (q, next) ∧
        (q = p ↔ a / PAGE_SIZE = b / PAGE_SIZE) := by
  intro claim
  let memory := store32 (store32 (fun _ => 0) 0x1000 0x8000) 0x1004 0x8000
  have second : load32 memory 0x1004 = 0x8000 := load32_store32 _ _ _
  have first : load32 memory 0x1000 = 0x8000 :=
    (load32_store32_apart (apart_words (by decide) (by decide))).trans (load32_store32 _ _ _)
  have here : tableOf memory 0x1000 0 = 0x8000 := first
  have there : tableOf memory 0x1000 0x400000 = 0x8000 := second
  have found : mmGetPage 0 0 1 0x1000 0 (uninitialised memory) = .ok (0x8000, uninitialised memory) := by
    rw [mmGetPage, show tableOf (uninitialised memory).mem 0x1000 0 = 0x8000 from here]
    rfl
  obtain ⟨q, also, same⟩ := claim 0 0 0x400000 0x1000 0 0x8000 (uninitialised memory) _
    (fun missing => absurd (here.symm.trans missing) (by decide)) found
  rw [mmGetPage_entryOf, entryOf,
    show tableOf (uninitialised memory).mem 0x1000 0x400000 = 0x8000 from there] at also
  have equal : (0x8000 : Word) = q := (Prod.mk.inj (Except.ok.inj also)).1
  exact absurd (same.mp equal.symm) (by decide)

end Vaelen.Kernel.PageLookup
