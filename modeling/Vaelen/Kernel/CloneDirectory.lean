import Vaelen.Base.Runs
import Vaelen.Kernel.KmallocKept
import Vaelen.Kernel.Paging

/-!
What mm_clone_directory leaves behind on a heap with room for the clone. Each new table
is copied as a whole before its entries are visited, so no entry is without a frame when
mm_alloc_frame sees it, and the clone shares every frame with the directory it copies.
-/

namespace Vaelen.Kernel.CloneDirectory
open Vaelen.Base Platform Kmalloc KmallocBlocks KmallocTiling KmallocKept Frames Paging

/-- `t` continues `s`: among the bytes that the heap of `s` keeps, only those of `written` can
have changed, and no frame was allocated or freed. -/
structure Extends (written : Word → Prop) (s : Mm) (blocks : List Block) (t : Mm)
    (more : List Block) : Prop where
  tiling : Tiling t.heap more
  kept : ∀ x, Kept blocks x → Kept more x
  same : ∀ x, Kept blocks x → ¬written x → t.mem x = s.mem x
  frames : t.frames = s.frames
  kernelDirectory : t.kernelDirectory = s.kernelDirectory
  currentDirectory : t.currentDirectory = s.currentDirectory

namespace Extends
variable {written later : Word → Prop} {s t u : Mm} {blocks more rest : List Block}

theorem refl (tiling : Tiling s.heap blocks) : Extends written s blocks s blocks where
  tiling := tiling
  kept := fun _ kept => kept
  same := fun _ _ _ => rfl
  frames := rfl
  kernelDirectory := rfl
  currentDirectory := rfl

theorem trans (first : Extends written s blocks t more) (second : Extends later t more u rest)
    (covered : ∀ x, Kept blocks x → later x → written x) : Extends written s blocks u rest where
  tiling := second.tiling
  kept := fun x kept => second.kept x (first.kept x kept)
  same := fun x kept outside =>
    (second.same x (first.kept x kept) fun inside => outside (covered x kept inside)).trans
      (first.same x kept outside)
  frames := second.frames.trans first.frames
  kernelDirectory := second.kernelDirectory.trans first.kernelDirectory
  currentDirectory := second.currentDirectory.trans first.currentDirectory

theorem mono (extended : Extends written s blocks t more) (covers : ∀ x, written x → later x) :
    Extends later s blocks t more :=
  { extended with
    same := fun x kept outside => extended.same x kept fun inside => outside (covers x inside) }

/-- A write to kept bytes. -/
theorem write {memory : Mem} (tiling : Tiling s.heap blocks)
    (same : SameOutside written s.mem memory) (inside : ∀ x, written x → Kept blocks x) :
    Extends written s blocks (s.write memory) blocks where
  tiling := tiling_congr tiling (same.mono inside)
  kept := fun _ kept => kept
  same := fun x _ outside => same x outside
  frames := rfl
  kernelDirectory := rfl
  currentDirectory := rfl

theorem load32 (extended : Extends written s blocks t more) {address : Word}
    (kept : ∀ x, Within address 4 x → Kept blocks x ∧ ¬written x) :
    load32 t.mem address = load32 s.mem address :=
  load32_congr fun x inside => extended.same x (kept x inside).1 (kept x inside).2

/-- A request served by a hole. -/
theorem served {size phys ptr : Word} {next : Heap}
    (served : Served s.heap blocks size phys ptr next more) :
    Extends (fun x => phys ≠ 0 ∧ Within phys 4 x) s blocks { s with heap := next } more where
  tiling := served.tiling
  kept := served.kept
  same := fun x kept outside => served.same x kept fun present inside => outside ⟨present, inside⟩
  frames := rfl
  kernelDirectory := rfl
  currentDirectory := rfl

end Extends

/-! The addresses of a directory. -/

theorem within_tablesAt {dir x : Word} {i : Nat} (bound : i < 1024)
    (inside : Within (tablesAt dir i) 4 x) : Within dir 8196 x :=
  within_sub (BitVec.ofNat 32 (4 * i)) (by bv_omega) inside

theorem within_tablesPhysicalAt {dir x : Word} {i : Nat} (bound : i < 1024)
    (inside : Within (tablesPhysicalAt dir i) 4 x) : Within dir 8196 x :=
  within_sub (BitVec.ofNat 32 (4096 + 4 * i)) (by bv_omega) inside

theorem within_pageAt {table x : Word} {j : Nat} (bound : j < 1024)
    (inside : Within (pageAt table j) 4 x) : Within table 4096 x :=
  within_sub (BitVec.ofNat 32 (4 * j)) (by bv_omega) inside

/-- Both directories and every table of the current one lie in kept bytes outside `written`. -/
structure Intact (written : Word → Prop) (s : Mm) (blocks : List Block) : Prop where
  tiling : Tiling s.heap blocks
  kernel : ∀ x, Within s.kernelDirectory 8196 x → Kept blocks x ∧ ¬written x
  current : ∀ x, Within s.currentDirectory 8196 x → Kept blocks x ∧ ¬written x
  tables : ∀ i < 1024, currentTable s i ≠ 0 →
    ∀ x, Within (currentTable s i) 4096 x → Kept blocks x ∧ ¬written x

namespace Intact
variable {written later : Word → Prop} {s t : Mm} {blocks more : List Block}

theorem kernelTable (intact : Intact written s blocks) (extended : Extends written s blocks t more)
    {i : Nat} (bound : i < 1024) : kernelTable t i = kernelTable s i := by
  rw [Paging.kernelTable, extended.kernelDirectory]
  exact extended.load32 fun x inside => intact.kernel x (within_tablesAt bound inside)

theorem currentTable (intact : Intact written s blocks) (extended : Extends written s blocks t more)
    {i : Nat} (bound : i < 1024) : currentTable t i = currentTable s i := by
  rw [Paging.currentTable, extended.currentDirectory]
  exact extended.load32 fun x inside => intact.current x (within_tablesAt bound inside)

/-- A continuation leaves the directories and tables where they are. -/
theorem extend (intact : Intact written s blocks) (extended : Extends written s blocks t more)
    (disjoint : ∀ x, Kept blocks x → ¬written x → ¬later x) : Intact later t more := by
  have carried : ∀ x, Kept blocks x ∧ ¬written x → Kept more x ∧ ¬later x := fun x inside =>
    ⟨extended.kept x inside.1, disjoint x inside.1 inside.2⟩
  apply Intact.mk extended.tiling
  · intro x inside
    rw [extended.kernelDirectory] at inside
    exact carried x (intact.kernel x inside)
  · intro x inside
    rw [extended.currentDirectory] at inside
    exact carried x (intact.current x inside)
  · intro i bound present x inside
    rw [intact.currentTable extended bound] at present inside
    exact carried x (intact.tables i bound present x inside)

end Intact

/-! The loop over the entries. -/

/-- The new table holds the entries of the old one. -/
structure Copied (memory : Mem) (table oldTable : Word) : Prop where
  apart : Apart table 4096 oldTable 4096
  entry : ∀ j < 1024, load32 memory (pageAt table j) = load32 memory (pageAt oldTable j)

theorem memcpy_oldPage {memory : Mem} {table oldTable : Word} (apart : Apart table 4096 oldTable 4096)
    {j : Nat} (bound : j < 1024) :
    load32 (memcpy memory table oldTable 4096) (pageAt oldTable j) =
      load32 memory (pageAt oldTable j) := by
  apply SameOutside.load32 (memcpy_outside memory table oldTable 4096 (by decide))
  intro x inside fresh
  exact apart x fresh (within_pageAt bound inside)

theorem copied_memcpy {memory : Mem} {table oldTable : Word}
    (apart : Apart table 4096 oldTable 4096) :
    Copied (memcpy memory table oldTable 4096) table oldTable := by
  apply Copied.mk apart
  intro j bound
  rw [memcpy_oldPage apart bound]
  exact load32_memcpy (by decide) apart _ (by bv_omega)

theorem clonePages_copied {table oldTable : Word} {s : Mm} (copied : Copied s.mem table oldTable)
    (pages : List Nat) (bound : ∀ j ∈ pages, j < 1024) :
    pages.foldlM (clonePage table oldTable) s = .ok s := by
  induction pages with
  | nil => rfl
  | cons j rest ih =>
    have here : j < 1024 := bound j List.mem_cons_self
    have words : Apart (pageAt table j) 4 (pageAt oldTable j) 4 := fun x first second =>
      copied.apart x (within_pageAt here first) (within_pageAt here second)
    rw [List.foldlM_cons, clonePage_copied words (congrArg pageOfWord (copied.entry j here))]
    exact ih fun k member => bound k (List.mem_cons_of_mem _ member)

/-! The loop over the tables. -/

/-- The two words of the new directory that belong to one table. -/
def SlotWords (dir : Word) (i : Nat) (x : Word) : Prop :=
  Within (tablesAt dir i) 4 x ∨ Within (tablesPhysicalAt dir i) 4 x

theorem within_slotWords {dir x : Word} {i : Nat} (bound : i < 1024)
    (inside : SlotWords dir i x) : Within dir 8196 x :=
  inside.elim (within_tablesAt bound) (within_tablesPhysicalAt bound)

theorem slotWords_apart {dir x : Word} {i k : Nat} (boundI : i < 1024) (boundK : k < 1024)
    (different : i ≠ k) (inside : Within (tablesAt dir i) 4 x) : ¬SlotWords dir k x := by
  intro other
  unfold SlotWords Within tablesAt tablesPhysicalAt at *
  rcases other with table | physical
  · bv_omega
  · bv_omega

/-- Slot `i` of the new directory: a table of its own with the entries that the current one had. -/
structure Shares (s t : Mm) (more : List Block) (dir : Word) (i : Nat) : Prop where
  table : ∀ x, Within (load32 t.mem (tablesAt dir i)) 4096 x → Kept more x ∧ ¬Within dir 8196 x
  entry : ∀ j < 1024, load32 t.mem (pageAt (load32 t.mem (tablesAt dir i)) j) =
    load32 s.mem (pageAt (currentTable s i) j)

/-- The heap bytes that the clone needs for one of its tables. -/
def tableBytes (s : Mm) (i : Nat) : Nat :=
  if kernelTable s i ≠ 0 ∧ kernelTable s i ≠ currentTable s i then sizeofPageTable.toNat + 16 else 0

/-- The slots whose tables the clone has to make its own. -/
def Private (s : Mm) (i : Nat) : Prop :=
  kernelTable s i ≠ 0 ∧ currentTable s i ≠ 0 ∧ kernelTable s i ≠ currentTable s i

variable {dir : Word} {s t u : Mm} {blocks more rest : List Block} {fuel : Nat}

/-- A new table shares no byte with the one it is to be a copy of, a null table included. -/
theorem table_apart {i : Nat} {phys table : Word} {next : Heap} {written : Word → Prop}
    (served : Served s.heap blocks sizeofPageTable phys table next more)
    (intact : Intact written s blocks) (bound : i < 1024) :
    Apart table 4096 (currentTable s i) 4096 := by
  intro x fresh inside
  by_cases null : currentTable s i = 0
  · have low := served.low
    have high := served.high
    rw [null] at inside
    unfold Within at fresh inside
    bv_omega
  · exact (served.payload x fresh).2 (intact.tables i bound null x inside).1

/-- A table filled with the entries of the current one, once its address is stored. -/
theorem shares_stored {i : Nat} {table : Word} (intact : Intact (Within dir 8196) s blocks)
    (filled : Extends (Within dir 8196) s blocks t more) (bound : i < 1024)
    (present : currentTable s i ≠ 0) (copied : Copied t.mem table (currentTable s i))
    (fresh : ∀ x, Within table 4096 x → Kept more x ∧ ¬Within dir 8196 x) :
    Shares s (t.write (store32 t.mem (tablesAt dir i) table)) more dir i := by
  have slot : load32 (store32 t.mem (tablesAt dir i) table) (tablesAt dir i) = table :=
    load32_store32 t.mem _ table
  apply Shares.mk
  · rw [Mm.write_mem, slot]
    exact fresh
  · intro j below
    rw [Mm.write_mem, slot]
    calc load32 (store32 t.mem (tablesAt dir i) table) (pageAt table j)
      _ = load32 t.mem (pageAt table j) := by
        apply load32_store32_apart
        intro x inside stored
        exact (fresh x (within_pageAt below inside)).2 (within_tablesAt bound stored)
      _ = load32 t.mem (pageAt (currentTable s i) j) := copied.entry j below
      _ = load32 s.mem (pageAt (currentTable s i) j) := by
        apply filled.load32
        intro x inside
        exact intact.tables i bound present x (within_pageAt below inside)

/-- A table of its own: what was copied into it stays as it is. -/
theorem cloneTable_copy {i bytes : Nat} (intact : Intact (Within dir 8196) s blocks)
    (own : ∀ x, Within dir 8196 x → Kept blocks x) (bound : i < 1024)
    (present : kernelTable s i ≠ 0) (different : kernelTable s i ≠ currentTable s i)
    (room : Room blocks (bytes + (sizeofPageTable.toNat + 16))) (spare : 8 ≤ bytes)
    (enough : blocks.length < fuel) :
    ∃ t more, cloneTable fuel dir s i = .ok t ∧ Extends (SlotWords dir i) s blocks t more ∧
      Room more bytes ∧ more.length ≤ blocks.length + 1 ∧
      (currentTable s i ≠ 0 → Shares s t more dir i) := by
  obtain ⟨table, next, more, returned, served, left⟩ :=
    kmallocAp_served intact.tiling (by decide) room spare
      (fun _ x inside => own x (within_tablesPhysicalAt bound inside)) enough
  let s₁ : Mm := { s with heap := next }
  let s₂ : Mm := s₁.write (memcpy s₁.mem table (currentTable s₁ i) sizeofPageTable.toNat)
  let s₃ : Mm := s₂.write (store32 s₂.mem (tablesAt dir i) table)
  have inDirectory : ∀ x, SlotWords dir i x → Within dir 8196 x := fun x => within_slotWords bound
  have allocated : Extends (SlotWords dir i) s blocks s₁ more :=
    (Extends.served served).mono fun x inside => Or.inr inside.2
  have filled : Extends (SlotWords dir i) s blocks s₂ more :=
    allocated.trans (Extends.write served.tiling (memcpy_outside _ table _ _ (by decide))
      fun x inside => (served.payload x inside).1)
      fun x kept inside => absurd kept (served.payload x inside).2
  have stored : Extends (SlotWords dir i) s blocks s₃ more :=
    filled.trans (Extends.write filled.tiling (SameOutside.store32 _ (tablesAt dir i) table)
      fun x inside => allocated.kept x (own x (within_tablesAt bound inside)))
      fun x _ inside => Or.inl inside
  have old₁ : currentTable s₁ i = currentTable s i :=
    intact.currentTable (allocated.mono inDirectory) bound
  have old₂ : currentTable s₂ i = currentTable s i :=
    intact.currentTable (filled.mono inDirectory) bound
  have filling : s₂.mem = memcpy s₁.mem table (currentTable s i) 4096 := by
    rw [← old₁]
    rfl
  have copied : Copied s₂.mem table (currentTable s i) :=
    filling ▸ copied_memcpy (table_apart served intact bound)
  have loop : (List.range 1024).foldlM (clonePage table (currentTable s₂ i)) s₂ = .ok s₂ :=
    clonePages_copied (old₂.symm ▸ copied) _ fun j member => List.mem_range.mp member
  have finished : ((List.range 1024).foldlM (clonePage table (currentTable s₂ i)) s₂ >>=
      fun s => Except.ok (s.write (store32 s.mem (tablesAt dir i) table))) = .ok s₃ := by
    rw [loop]
    rfl
  refine ⟨s₃, more, ?_, stored, left, served.length, fun nonnull => ?_⟩
  · rw [cloneTable, if_neg present, if_neg different, returned, ok_bind]
    exact finished
  · apply shares_stored intact (filled.mono inDirectory) bound nonnull copied
    intro x fresh
    have payload := served.payload x fresh
    exact ⟨payload.1, fun inside => payload.2 (own x inside)⟩

/-- A table that both directories share: two words of the new directory. -/
theorem cloneTable_share {i : Nat} (tiling : Tiling s.heap blocks)
    (own : ∀ x, Within dir 8196 x → Kept blocks x) (bound : i < 1024)
    (present : kernelTable s i ≠ 0) (same : kernelTable s i = currentTable s i) :
    ∃ t, cloneTable fuel dir s i = .ok t ∧ Extends (SlotWords dir i) s blocks t blocks := by
  have inside : ∀ x, SlotWords dir i x → Kept blocks x := fun x covered =>
    own x (within_slotWords bound covered)
  let s₁ : Mm := s.write (store32 s.mem (tablesAt dir i) (kernelTable s i))
  let physical : Word := load32 s₁.mem (tablesPhysicalAt s₁.kernelDirectory i)
  let s₂ : Mm := s₁.write (store32 s₁.mem (tablesPhysicalAt dir i) physical)
  have first : Extends (SlotWords dir i) s blocks s₁ blocks :=
    (Extends.write tiling (SameOutside.store32 _ _ _) fun x covered =>
      inside x (Or.inl covered)).mono fun x covered => Or.inl covered
  have second : Extends (SlotWords dir i) s blocks s₂ blocks :=
    first.trans (Extends.write first.tiling (SameOutside.store32 _ _ _) fun x covered =>
      inside x (Or.inr covered)) fun x _ covered => Or.inr covered
  refine ⟨s₂, ?_, second⟩
  rw [cloneTable, if_neg present, if_pos same]

/-- One turn of the loop. -/
theorem cloneTable_extends {i bytes : Nat} (intact : Intact (Within dir 8196) s blocks)
    (own : ∀ x, Within dir 8196 x → Kept blocks x) (bound : i < 1024)
    (room : Room blocks (bytes + tableBytes s i)) (spare : 8 ≤ bytes)
    (enough : blocks.length < fuel) :
    ∃ t more, cloneTable fuel dir s i = .ok t ∧ Extends (SlotWords dir i) s blocks t more ∧
      Room more bytes ∧ more.length ≤ blocks.length + 1 ∧
      (Private s i → Shares s t more dir i) := by
  by_cases absent : kernelTable s i = 0
  · have none : tableBytes s i = 0 := if_neg fun both => both.1 absent
    rw [none] at room
    exact ⟨s, blocks, if_pos absent, Extends.refl intact.tiling, room, Nat.le_succ _,
      fun differs => absurd absent differs.1⟩
  · by_cases same : kernelTable s i = currentTable s i
    · have none : tableBytes s i = 0 := if_neg fun both => both.2 same
      rw [none] at room
      obtain ⟨t, returned, extended⟩ := cloneTable_share intact.tiling own bound absent same
      exact ⟨t, blocks, returned, extended, room, Nat.le_succ _,
        fun differs => absurd same differs.2.2⟩
    · have some : tableBytes s i = sizeofPageTable.toNat + 16 := if_pos ⟨absent, same⟩
      rw [some] at room
      obtain ⟨t, more, returned, extended, left, length, shares⟩ :=
        cloneTable_copy intact own bound absent same room spare enough
      exact ⟨t, more, returned, extended, left, length, fun differs => shares differs.2.1⟩

theorem Intact.tableBytes {written : Word → Prop} {i : Nat} (intact : Intact written s blocks)
    (extended : Extends written s blocks t more) (bound : i < 1024) :
    tableBytes t i = tableBytes s i := by
  unfold CloneDirectory.tableBytes
  rw [intact.kernelTable extended bound, intact.currentTable extended bound]

theorem Intact.private_iff {written : Word → Prop} {i : Nat} (intact : Intact written s blocks)
    (extended : Extends written s blocks t more) (bound : i < 1024) :
    Private t i ↔ Private s i := by
  unfold Private
  rw [intact.kernelTable extended bound, intact.currentTable extended bound]

def TablesWords (dir : Word) (tables : List Nat) (x : Word) : Prop :=
  ∃ i ∈ tables, SlotWords dir i x

/-- The turns for other tables leave a slot and its table alone. -/
theorem Shares.extend {i : Nat} {tables : List Nat} (shares : Shares s t more dir i)
    (extended : Extends (TablesWords dir tables) t more u rest)
    (own : ∀ x, Within dir 8196 x → Kept more x) (bound : i < 1024)
    (bounds : ∀ k ∈ tables, k < 1024) (absent : i ∉ tables) : Shares s u rest dir i := by
  have slot : load32 u.mem (tablesAt dir i) = load32 t.mem (tablesAt dir i) := by
    apply extended.load32
    intro x inside
    refine ⟨own x (within_tablesAt bound inside), ?_⟩
    intro ⟨k, member, words⟩
    have different : i ≠ k := fun same => absent (same ▸ member)
    exact slotWords_apart bound (bounds k member) different inside words
  apply Shares.mk
  · rw [slot]
    exact fun x inside => ⟨extended.kept x (shares.table x inside).1, (shares.table x inside).2⟩
  · intro j below
    rw [slot, ← shares.entry j below]
    apply extended.load32
    intro x inside
    have table := shares.table x (within_pageAt below inside)
    refine ⟨table.1, ?_⟩
    intro ⟨k, member, words⟩
    exact table.2 (within_slotWords (bounds k member) words)

/-- The entries of the current directory are those before the loop. -/
theorem Shares.since {written : Word → Prop} {i : Nat} (shares : Shares t u rest dir i)
    (intact : Intact written s blocks) (extended : Extends written s blocks t more)
    (bound : i < 1024) (present : currentTable s i ≠ 0) : Shares s u rest dir i := by
  apply Shares.mk shares.table
  intro j below
  rw [shares.entry j below, intact.currentTable extended bound]
  apply extended.load32
  intro x inside
  exact intact.tables i bound present x (within_pageAt below inside)

/-- The heap bytes for the rest of the tables, and as many as split one more block. -/
def neededBytes (s : Mm) (tables : List Nat) : Nat := 8 + (tables.map (tableBytes s)).sum

theorem Intact.tablesBytes {written : Word → Prop} {tables : List Nat}
    (intact : Intact written s blocks) (extended : Extends written s blocks t more)
    (bounds : ∀ i ∈ tables, i < 1024) : tables.map (CloneDirectory.tableBytes t) = tables.map (CloneDirectory.tableBytes s) :=
  List.map_congr_left fun i member => intact.tableBytes extended (bounds i member)

/-- The turns for some tables, on a heap with more room than they need. -/
theorem cloneTables_extends (tables : List Nat) (bounds : ∀ i ∈ tables, i < 1024)
    (once : tables.Nodup) (intact : Intact (Within dir 8196) s blocks)
    (own : ∀ x, Within dir 8196 x → Kept blocks x) {bytes : Nat} (spare : 8 ≤ bytes)
    (room : Room blocks (bytes + (tables.map (tableBytes s)).sum))
    (enough : blocks.length + tables.length ≤ fuel) :
    ∃ t more, tables.foldlM (cloneTable fuel dir) s = .ok t ∧
      Extends (TablesWords dir tables) s blocks t more ∧ Room more bytes ∧
      more.length ≤ blocks.length + tables.length ∧
      ∀ i ∈ tables, Private s i → Shares s t more dir i := by
  induction tables generalizing s blocks with
  | nil =>
    have left : Room blocks bytes := room
    exact ⟨s, blocks, rfl, Extends.refl intact.tiling, left, le_rfl, by simp⟩
  | cons i tail ih =>
    obtain ⟨absent, distinct⟩ := List.nodup_cons.mp once
    have here : i < 1024 := bounds i List.mem_cons_self
    have later : ∀ k ∈ tail, k < 1024 := fun k member => bounds k (List.mem_cons_of_mem _ member)
    rw [List.length_cons] at enough
    rw [List.map_cons, List.sum_cons, Nat.add_comm (tableBytes s i), ← Nat.add_assoc] at room
    have fuelled : blocks.length < fuel := by omega
    obtain ⟨t, middle, returned, extended, left, length, shares⟩ :=
      cloneTable_extends intact own here room (Nat.le_add_right_of_le spare) fuelled
    have wider : Extends (Within dir 8196) s blocks t middle :=
      extended.mono fun x => within_slotWords here
    have owned : ∀ x, Within dir 8196 x → Kept middle x := fun x inside =>
      extended.kept x (own x inside)
    obtain ⟨u, last, final, whole, rest, grown, others⟩ := ih later distinct
      (intact.extend wider fun _ _ outside => outside) owned
      ((intact.tablesBytes wider later).symm ▸ left) (by omega)
    refine ⟨u, last, ?_, ?_, rest, ?_, ?_⟩
    · rw [List.foldlM_cons, returned]
      exact final
    · apply (extended.mono fun x words => ⟨i, List.mem_cons_self, words⟩).trans whole
      intro x _ ⟨k, member, words⟩
      exact ⟨k, List.mem_cons_of_mem _ member, words⟩
    · rw [List.length_cons]
      omega
    · intro k member differs
      rcases List.mem_cons.mp member with same | after
      · subst same
        exact (shares differs).extend whole owned here later absent
      · have bound := later k after
        have shared := others k after ((intact.private_iff wider bound).mpr differs)
        exact shared.since intact wider bound differs.2.1

/-! The whole call. -/

/-- The word that the call writes through the pointer it has not assigned yet. -/
def Stray (pointer x : Word) : Prop :=
  physicalAddrAt pointer ≠ 0 ∧ Within (physicalAddrAt pointer) 4 x

/-- The state before the call: the heap has room for the clone, the directories lie where the
allocator does not write, and the stray word is none of theirs. -/
structure Ready (pointer : Word) (s : Mm) (blocks : List Block) : Prop where
  intact : Intact (Stray pointer) s blocks
  room : Room blocks (neededBytes s (List.range 1024) + (sizeofPageDirectory.toNat + 16))
  stray : ∀ x, Stray pointer x → Kept blocks x

/-- The new directory, filled with zeros. -/
def cloneStart (fuel : Nat) (pointer : Word) (s : Mm) : Except Stop (Word × Mm) := do
  let (dir, heap) ← kmallocAp fuel sizeofPageDirectory (physicalAddrAt pointer) s.heap
  let s := { s with heap := heap }
  return (dir, s.write (memset s.mem dir 0 sizeofPageDirectory.toNat))

theorem mmCloneDirectory_start {pointer : Word} {opened : Mm}
    (started : cloneStart fuel pointer s = .ok (dir, opened)) :
    mmCloneDirectory fuel pointer s =
      (List.range 1024).foldlM (cloneTable fuel dir) opened >>= fun t => .ok (dir, t) := by
  obtain ⟨⟨ptr, heap⟩, returned, rest⟩ := bind_eq_ok started
  have both := Except.ok.inj rest
  rw [Prod.mk.injEq] at both
  rw [mmCloneDirectory, returned, ok_bind, ← both.1, ← both.2]
  rfl

/-- The loop starts with a directory of zeros that nothing else uses. -/
structure Opened (fuel : Nat) (pointer : Word) (s : Mm) (blocks : List Block) (dir : Word)
    (opened : Mm) (middle : List Block) : Prop where
  started : cloneStart fuel pointer s = .ok (dir, opened)
  cleared : Extends (Stray pointer) s blocks opened middle
  zero : ∀ x, Within dir 8196 x → opened.mem x = 0
  intact : Intact (Within dir 8196) opened middle
  own : ∀ x, Within dir 8196 x → Kept middle x
  fresh : ∀ x, Kept blocks x → ¬Within dir 8196 x
  room : Room middle (neededBytes opened (List.range 1024))
  length : middle.length + 1024 ≤ fuel
  low : 0xD0000000 ≤ dir.toNat
  high : dir.toNat + 8196 ≤ 0xD1000000

theorem range_bounds {count : Nat} (inside : count ≤ 1024) : ∀ i ∈ List.range count, i < 1024 :=
  fun _ member => Nat.lt_of_lt_of_le (List.mem_range.mp member) inside

theorem cloneStart_opened {pointer : Word} (ready : Ready pointer s blocks)
    (enough : blocks.length + 1025 ≤ fuel) :
    ∃ dir opened middle, Opened fuel pointer s blocks dir opened middle := by
  have fuelled : blocks.length < fuel := by omega
  obtain ⟨dir, next, middle, returned, served, left⟩ :=
    kmallocAp_served ready.intact.tiling (by decide) ready.room (Nat.le_add_right 8 _)
      (fun present x inside => ready.stray x ⟨present, inside⟩) fuelled
  let s₁ : Mm := { s with heap := next }
  let s₂ : Mm := s₁.write (memset s₁.mem dir 0 sizeofPageDirectory.toNat)
  have own : ∀ x, Within dir 8196 x → Kept middle x := fun x inside => (served.payload x inside).1
  have fresh : ∀ x, Kept blocks x → ¬Within dir 8196 x := fun x kept inside =>
    (served.payload x inside).2 kept
  have cleared : Extends (Stray pointer) s blocks s₂ middle :=
    (Extends.served served).trans
      (Extends.write served.tiling (memset_outside _ dir 0 _ (by decide)) own)
      fun x kept inside => absurd inside (fresh x kept)
  have needed : neededBytes s₂ (List.range 1024) = neededBytes s (List.range 1024) := by
    rw [neededBytes, ready.intact.tablesBytes cleared (range_bounds le_rfl), ← neededBytes]
  refine ⟨dir, s₂, middle, ?_, cleared, ?_, ?_, own, fresh, needed.symm ▸ left, ?_, served.low,
    served.high⟩
  · rw [cloneStart, returned, ok_bind]
    rfl
  · intro x inside
    exact (memset_spec s₁.mem dir 0 8196 (by decide) x).trans (if_pos inside)
  · exact ready.intact.extend cleared fun x kept _ => fresh x kept
  · have grown := served.length
    omega

theorem mmCloneDirectory_extends {pointer : Word} (ready : Ready pointer s blocks)
    (enough : blocks.length + 1025 ≤ fuel) :
    ∃ dir t more, mmCloneDirectory fuel pointer s = .ok (dir, t) ∧
      Extends (Stray pointer) s blocks t more ∧
      ∀ i < 1024, Private s i → Shares s t more dir i := by
  obtain ⟨dir, opened, middle, begun⟩ := cloneStart_opened ready enough
  have bounds := range_bounds (le_refl 1024)
  have length : middle.length + (List.range 1024).length ≤ fuel := by
    rw [List.length_range]
    exact begun.length
  obtain ⟨t, more, loop, extended, _, _, shares⟩ := cloneTables_extends (List.range 1024) bounds
    List.nodup_range begun.intact begun.own le_rfl begun.room length
  refine ⟨dir, t, more, ?_, ?_, ?_⟩
  · rw [mmCloneDirectory_start begun.started, loop, ok_bind]
  · apply begun.cleared.trans extended
    intro x kept ⟨_, member, words⟩
    exact absurd (within_slotWords (bounds _ member) words) (begun.fresh x kept)
  · intro i bound differs
    have shared := shares i (List.mem_range.mpr bound)
      ((ready.intact.private_iff begun.cleared bound).mpr differs)
    exact shared.since ready.intact begun.cleared bound differs.2.1

def oldPage (s : Mm) (i j : Nat) : Page := page s.mem (pageAt (currentTable s i) j)
def newPage (t : Mm) (dir : Word) (i j : Nat) : Page :=
  page t.mem (pageAt (load32 t.mem (tablesAt dir i)) j)

/-- The entries that must be given a frame of their own. -/
def Owned (s : Mm) (i j : Nat) : Prop :=
  i < 1024 ∧ j < 1024 ∧ Private s i ∧ (oldPage s i j).frame ≠ 0

def frameAddr (page : Page) : Word := page.frame.setWidth 32 * PAGE_SIZE

/-- What the clone `dir` in `t` is to be to the directory that was current in `s`. -/
structure Isolated (s t : Mm) (dir : Word) : Prop where
  free : ∀ i j, Owned s i j → bitSet s.frames.memBitmap (newPage t dir i j).frame.toNat = false
  used : ∀ i j, Owned s i j → bitSet t.frames.memBitmap (newPage t dir i j).frame.toNat = true
  different : ∀ i j, Owned s i j → (newPage t dir i j).frame ≠ (oldPage s i j).frame
  distinct : ∀ i j k l, Owned s i j → Owned s k l → (i, j) ≠ (k, l) →
    (newPage t dir i j).frame ≠ (newPage t dir k l).frame
  copied : ∀ i j, Owned s i j → ∀ offset : Word, offset.toNat < 4096 →
    t.mem (frameAddr (newPage t dir i j) + offset) = s.mem (frameAddr (oldPage s i j) + offset)
  directory : t.currentDirectory = s.currentDirectory
  tables : ∀ i < 1024, currentTable t i = currentTable s i
  entries : ∀ i < 1024, currentTable s i ≠ 0 → ∀ j < 1024, oldPage t i j = oldPage s i j

/-- The clone shares every frame: its entries are those of the table it copies. -/
theorem Shares.newPage {i j : Nat} (shares : Shares s t more dir i) (below : j < 1024) :
    newPage t dir i j = oldPage s i j :=
  congrArg pageOfWord (shares.entry j below)

/-- The call returns, and isolates the clone exactly when there is no frame to give it. -/
theorem mmCloneDirectory_isolated_iff {pointer : Word} {s : Mm} {blocks : List Block} {fuel : Nat}
    (ready : Ready pointer s blocks) (enough : blocks.length + 1025 ≤ fuel) :
    ∃ dir t, mmCloneDirectory fuel pointer s = .ok (dir, t) ∧
      (Isolated s t dir ↔
        ∀ i < 1024, ∀ j < 1024, Private s i → (oldPage s i j).frame = 0) := by
  obtain ⟨dir, t, more, returned, extended, shares⟩ := mmCloneDirectory_extends ready enough
  refine ⟨dir, t, returned, ?_⟩
  constructor
  · intro isolated i boundI j boundJ differs
    by_contra taken
    have owned : Owned s i j := ⟨boundI, boundJ, differs, taken⟩
    apply isolated.different i j owned
    rw [(shares i boundI differs).newPage boundJ]
  · intro empty
    have none : ∀ i j, ¬Owned s i j := fun i j owned =>
      owned.2.2.2 (empty i owned.1 j owned.2.1 owned.2.2.1)
    have tables : ∀ i < 1024, currentTable t i = currentTable s i := fun i bound =>
      ready.intact.currentTable extended bound
    have entries : ∀ i < 1024, currentTable s i ≠ 0 → ∀ j < 1024,
        oldPage t i j = oldPage s i j := by
      intro i boundI present j boundJ
      have word := extended.load32 fun x inside =>
        ready.intact.tables i boundI present x (within_pageAt boundJ inside)
      rw [oldPage, oldPage, page, page, tables i boundI, word]
    exact
      { free := fun i j owned => absurd owned (none i j)
        used := fun i j owned => absurd owned (none i j)
        different := fun i j owned => absurd owned (none i j)
        distinct := fun i j _ _ owned => absurd owned (none i j)
        copied := fun i j owned => absurd owned (none i j)
        directory := extended.currentDirectory
        tables := tables
        entries := entries }

/-! Two directories with different tables in slot 0, on a fresh heap. -/

def clonableMemory (entry : Word) : Mem :=
  store32 (store32 (store32 (fun _ => 0) 0x10000 0x30000) 0x20000 0x40000) 0x40000 entry

def clonable (entry : Word) : Mm where
  heap := initHeap (uninitialised (clonableMemory entry))
  frames :=
    { memBitmap := Function.update (fun _ => 0) 0 0x21
      totalMemory := 0x40000
      totalBlocks := 64
      usedBlocks := 2 }
  kernelDirectory := 0x10000
  currentDirectory := 0x20000

/-- Setting up the heap changes no word below it. -/
theorem initHeap_word (memory : Mem) {address : Word} (low : address.toNat + 4 ≤ 0xD0000000) :
    load32 (initHeap (uninitialised memory)).mem address = load32 memory address := by
  apply load32_congr
  intro x inside
  have outside : ¬Within KERNEL_HEAP_START 16 x := by
    unfold Within at *
    bv_omega
  rw [initHeap_outside outside]
  rfl

theorem clonable_word (entry address : Word) (aligned : address.toNat % 4 = 0)
    (low : address.toNat < 0x50000) :
    load32 (clonable entry).mem address =
      if address = 0x40000 then entry
      else if address = 0x20000 then 0x40000
      else if address = 0x10000 then 0x30000 else 0 := by
  have heap : load32 (clonable entry).mem address = load32 (clonableMemory entry) address :=
    initHeap_word _ (by omega)
  rw [heap, clonableMemory, load32_store32_aligned _ _ (by decide) aligned,
    load32_store32_aligned _ _ (by decide) aligned, load32_store32_aligned _ _ (by decide) aligned,
    load32_zero]

/-- Past their first words the two directories and the current table are empty. -/
theorem clonable_rest (entry : Word) {base : Word} {i : Nat} (bound : i < 1024) (later : i ≠ 0)
    (start : base = 0x10000 ∨ base = 0x20000 ∨ base = 0x40000) :
    load32 (clonable entry).mem (base + BitVec.ofNat 32 (4 * i)) = 0 := by
  rcases start with kernel | current | table
  · subst kernel
    rw [clonable_word entry _ (by bv_omega) (by bv_omega), if_neg (by bv_omega),
      if_neg (by bv_omega), if_neg (by bv_omega)]
  · subst current
    rw [clonable_word entry _ (by bv_omega) (by bv_omega), if_neg (by bv_omega),
      if_neg (by bv_omega), if_neg (by bv_omega)]
  · subst table
    rw [clonable_word entry _ (by bv_omega) (by bv_omega), if_neg (by bv_omega),
      if_neg (by bv_omega), if_neg (by bv_omega)]

theorem kernelTable_clonable (entry : Word) {i : Nat} (bound : i < 1024) :
    kernelTable (clonable entry) i = if i = 0 then 0x30000 else 0 := by
  by_cases first : i = 0
  · subst first
    exact clonable_word entry 0x10000 (by decide) (by decide)
  · rw [if_neg first]
    exact clonable_rest entry bound first (Or.inl rfl)

theorem currentTable_clonable (entry : Word) {i : Nat} (bound : i < 1024) :
    currentTable (clonable entry) i = if i = 0 then 0x40000 else 0 := by
  by_cases first : i = 0
  · subst first
    exact clonable_word entry 0x20000 (by decide) (by decide)
  · rw [if_neg first]
    exact clonable_rest entry bound first (Or.inr (Or.inl rfl))

theorem oldPage_clonable (entry : Word) {j : Nat} (bound : j < 1024) :
    oldPage (clonable entry) 0 j = pageOfWord (if j = 0 then entry else 0) := by
  rw [oldPage, currentTable_clonable entry (by decide), if_pos rfl, page]
  apply congrArg pageOfWord
  by_cases first : j = 0
  · subst first
    exact clonable_word entry 0x40000 (by decide) (by decide)
  · rw [if_neg first]
    exact clonable_rest entry bound first (Or.inr (Or.inr rfl))

def clonableBlocks : List Block :=
  [{ addr := KERNEL_HEAP_START, size := KERNEL_HEAP_SIZE - sizeofMemBlock, free := true }]

theorem kept_clonable {base x : Word} {count : Nat} (low : 0x10000 ≤ base.toNat)
    (high : base.toNat + count ≤ 0x50000) (inside : Within base count x) :
    Kept clonableBlocks x ∧ ¬Stray 0 x := by
  have position : 0x10000 ≤ x.toNat ∧ x.toNat < 0x50000 := by
    unfold Within at inside
    bv_omega
  constructor
  · intro block member
    rw [List.mem_singleton.mp member]
    apply not_within (by decide)
    left
    exact Nat.lt_trans position.2 (by decide)
  · intro stray
    have word : Within 0x2000 4 x := stray.2
    unfold Within at word
    bv_omega

theorem neededBytes_le (s : Mm) (tables : List Nat) :
    neededBytes s tables ≤ 8 + tables.length * 4112 := by
  unfold neededBytes
  induction tables with
  | nil => simp
  | cons i rest ih =>
    have most : tableBytes s i ≤ 4112 := by
      unfold tableBytes
      split <;> decide
    rw [List.map_cons, List.sum_cons, List.length_cons]
    omega

/-- A fresh heap with the directories and tables in low memory. -/
theorem fresh_ready {s : Mm} {memory : Mem} (heap : s.heap = initHeap (uninitialised memory))
    (kernel : 0x10000 ≤ s.kernelDirectory.toNat ∧ s.kernelDirectory.toNat + 8196 ≤ 0x50000)
    (current : 0x10000 ≤ s.currentDirectory.toNat ∧ s.currentDirectory.toNat + 8196 ≤ 0x50000)
    (tables : ∀ i < 1024, currentTable s i ≠ 0 →
      0x10000 ≤ (currentTable s i).toNat ∧ (currentTable s i).toNat + 4096 ≤ 0x50000) :
    Ready 0 s clonableBlocks := by
  have fresh : (uninitialised memory).heapStart = 0 := rfl
  have tiling : Tiling s.heap clonableBlocks := heap ▸ initHeap_tiling fresh
  apply Ready.mk
  · apply Intact.mk tiling
    · exact fun x inside => kept_clonable kernel.1 kernel.2 inside
    · exact fun x inside => kept_clonable current.1 current.2 inside
    · intro i bound present x inside
      have place := tables i bound present
      exact kept_clonable place.1 place.2 inside
  · refine ⟨_, List.mem_cons_self, rfl, ?_⟩
    have most := neededBytes_le s (List.range 1024)
    rw [List.length_range] at most
    exact Nat.le_trans (Nat.add_le_add_right most _) (by decide)
  · intro x stray
    have word : Within 0x2000 4 x := stray.2
    intro block member
    rw [List.mem_singleton.mp member]
    apply not_within (by decide)
    left
    unfold Within at word
    change _ < 0xD0000000
    bv_omega

theorem clonable_ready (entry : Word) : Ready 0 (clonable entry) clonableBlocks := by
  have kernel : 0x10000 ≤ (0x10000 : Word).toNat ∧ (0x10000 : Word).toNat + 8196 ≤ 0x50000 := by decide
  have current : 0x10000 ≤ (0x20000 : Word).toNat ∧ (0x20000 : Word).toNat + 8196 ≤ 0x50000 := by decide
  apply fresh_ready rfl kernel current
  intro i bound present
  rw [currentTable_clonable entry bound] at present ⊢
  by_cases first : i = 0
  · rw [if_pos first]
    decide
  · exact absurd (if_neg first) present

/-- A private table whose first entry is present and has no frame. -/
theorem mmCloneDirectory_isolated_iff_frameless :
    (oldPage (clonable 7) 0 0).present = 1 ∧
      ∃ dir t, mmCloneDirectory 1026 0 (clonable 7) = .ok (dir, t) ∧ Isolated (clonable 7) t dir := by
  obtain ⟨dir, t, returned, isolated⟩ :=
    mmCloneDirectory_isolated_iff (clonable_ready 7) (Nat.le_refl 1026)
  refine ⟨?_, dir, t, returned, isolated.mpr ?_⟩
  · rw [oldPage_clonable 7 (by decide)]
    decide
  · intro i boundI j boundJ differs
    have first : i = 0 := by
      by_contra other
      apply differs.1
      rw [kernelTable_clonable 7 boundI, if_neg other]
    rw [first, oldPage_clonable 7 boundJ]
    by_cases entry : j = 0
    · rw [if_pos entry]
      decide
    · rw [if_neg entry]
      decide

/-- The free frames are no fewer than the entries to clone. -/
def EnoughFrames (s : Mm) : Prop :=
  Set.ncard {entry : Nat × Nat | Owned s entry.1 entry.2} ≤
    ((Finset.range s.frames.totalBlocks.toNat) \ usedFrames s.frames).card

/-- An entry with frame 5: the clone's entry has frame 5 too. -/
theorem mmCloneDirectory_not_isolated :
    ¬∀ (pointer : Word) (s : Mm) (blocks : List Block) (fuel : Nat) (dir : Word) (t : Mm),
      Ready pointer s blocks → EnoughFrames s → mmCloneDirectory fuel pointer s = .ok (dir, t) →
        Isolated s t dir := by
  intro claim
  have first : ∀ i j, Owned (clonable 0x5001) i j → (i, j) = (0, 0) := by
    intro i j ⟨boundI, boundJ, differs, taken⟩
    by_cases table : i = 0
    · subst table
      by_cases entry : j = 0
      · rw [entry]
      · rw [oldPage_clonable _ boundJ, if_neg entry] at taken
        exact absurd taken (by decide)
    · exact absurd (by rw [kernelTable_clonable _ boundI, if_neg table]) differs.1
  have enough : EnoughFrames (clonable 0x5001) := by
    calc Set.ncard {entry : Nat × Nat | Owned (clonable 0x5001) entry.1 entry.2}
      _ ≤ Set.ncard {((0, 0) : Nat × Nat)} :=
        Set.ncard_le_ncard (fun entry owned => first entry.1 entry.2 owned) (Set.finite_singleton _)
      _ = 1 := Set.ncard_singleton _
      _ ≤ _ := by decide +kernel
  have ready := clonable_ready 0x5001
  obtain ⟨dir, t, more, returned, _, shares⟩ := mmCloneDirectory_extends ready (Nat.le_refl 1026)
  have isolated := claim _ _ _ _ dir t ready enough returned
  have differs : Private (clonable 0x5001) 0 := by
    rw [Private, kernelTable_clonable _ (by decide), currentTable_clonable _ (by decide)]
    decide
  have taken : (oldPage (clonable 0x5001) 0 0).frame ≠ 0 := by
    rw [oldPage_clonable _ (by decide)]
    decide
  apply isolated.different 0 0 ⟨by decide, by decide, differs, taken⟩
  rw [(shares 0 (by decide) differs).newPage (by decide)]

end Vaelen.Kernel.CloneDirectory
