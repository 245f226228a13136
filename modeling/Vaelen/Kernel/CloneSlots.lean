import Vaelen.Kernel.CloneDirectory
import Vaelen.Kernel.Tasks

/-!
Which tables a cloned directory has, and which physical addresses it is given. Each turn of
the loop is taken out of the whole loop and writes the two words of its own slot only.
-/

namespace Vaelen.Kernel.CloneSlots
open Vaelen.Base Platform Kmalloc KmallocBlocks KmallocTiling KmallocKept Frames Paging
open CloneDirectory Tasks

/-! One turn of the loop. -/

/-- The turn for table `i` goes from `u` to `v`, between the turns for `front` and `back`. -/
structure Turn (fuel : Nat) (dir : Word) (front : List Nat) (i : Nat) (back : List Nat)
    (s : Mm) (blocks : List Block) (u : Mm) (between : List Block) (v : Mm) (after : List Block)
    (t : Mm) (more : List Block) : Prop where
  before : front.foldlM (cloneTable fuel dir) s = .ok u
  upTo : Extends (TablesWords dir front) s blocks u between
  intact : Intact (Within dir 8196) u between
  own : ∀ x, Within dir 8196 x → Kept between x
  room : ∃ bytes, 8 ≤ bytes ∧ Room between (bytes + tableBytes u i)
  fuelled : between.length < fuel
  turn : cloneTable fuel dir u i = .ok v
  step : Extends (SlotWords dir i) u between v after
  rest : Extends (TablesWords dir back) v after t more

section turn
variable {fuel i : Nat} {dir : Word} {front back : List Nat} {s t u v : Mm}
variable {blocks between after more : List Block}

theorem tablesWords_inside {tables : List Nat} (bounds : ∀ k ∈ tables, k < 1024) {x : Word}
    (words : TablesWords dir tables x) : Within dir 8196 x := by
  rcases words with ⟨k, member, slot⟩
  exact within_slotWords (bounds k member) slot

/-- A heap with room for all the turns has room for each. -/
theorem cloneTables_turn (bounds : ∀ k ∈ front ++ i :: back, k < 1024)
    (once : (front ++ i :: back).Nodup) (intact : Intact (Within dir 8196) s blocks)
    (own : ∀ x, Within dir 8196 x → Kept blocks x)
    (room : Room blocks (neededBytes s (front ++ i :: back)))
    (enough : blocks.length + (front ++ i :: back).length ≤ fuel)
    (finished : (front ++ i :: back).foldlM (cloneTable fuel dir) s = .ok t) :
    ∃ u between v after more, Turn fuel dir front i back s blocks u between v after t more := by
  have boundsFront : ∀ k ∈ front, k < 1024 := fun k member => bounds k (List.mem_append_left _ member)
  have boundsBack : ∀ k ∈ back, k < 1024 := fun k member =>
    bounds k (List.mem_append_right _ (List.mem_cons_of_mem _ member))
  have here : i < 1024 := bounds i (List.mem_append_right _ List.mem_cons_self)
  have parts := List.nodup_append.mp once
  have whole : neededBytes s (front ++ i :: back) =
      (8 + (back.map (tableBytes s)).sum + tableBytes s i) + (front.map (tableBytes s)).sum := by
    rw [neededBytes, List.map_append, List.sum_append, List.map_cons, List.sum_cons]
    omega
  rw [List.length_append, List.length_cons] at enough
  rw [whole] at room
  obtain ⟨u, between, before, upTo, left, grown, _⟩ :=
    cloneTables_extends front boundsFront parts.1 intact own (by omega) room
      (show blocks.length + front.length ≤ fuel by omega)
  have covered : Extends (Within dir 8196) s blocks u between :=
    upTo.mono fun _ words => tablesWords_inside boundsFront words
  have intactU : Intact (Within dir 8196) u between :=
    intact.extend covered fun _ _ outside => outside
  have ownU : ∀ x, Within dir 8196 x → Kept between x := fun x inside => upTo.kept x (own x inside)
  rw [← intact.tableBytes covered here] at left
  have fuelled : between.length < fuel := by omega
  obtain ⟨v, after, turn, step, room, longer, _⟩ :=
    cloneTable_extends intactU ownU here left (by omega) fuelled
  have coveredV : Extends (Within dir 8196) u between v after :=
    step.mono fun _ => within_slotWords here
  have intactV : Intact (Within dir 8196) v after :=
    intactU.extend coveredV fun _ _ outside => outside
  have bytes : back.map (tableBytes v) = back.map (tableBytes s) :=
    (intactU.tablesBytes coveredV boundsBack).trans (intact.tablesBytes covered boundsBack)
  rw [← bytes] at room
  obtain ⟨last, more, later, rest, _⟩ :=
    cloneTables_extends back boundsBack (List.nodup_cons.mp parts.2.1).2 intactV
      (fun x inside => step.kept x (ownU x inside)) le_rfl room
      (show after.length + back.length ≤ fuel by omega)
  rw [List.foldlM_append, before, ok_bind, List.foldlM_cons, turn, ok_bind, later] at finished
  rw [← Except.ok.inj finished]
  exact ⟨u, between, v, after, more,
    { before := before
      upTo := upTo
      intact := intactU
      own := ownU
      room := ⟨_, by omega, left⟩
      fuelled := fuelled
      turn := turn
      step := step
      rest := rest }⟩

namespace Turn

/-- The other turns leave a slot alone. -/
theorem slot (taken : Turn fuel dir front i back s blocks u between v after t more)
    (bounds : ∀ k ∈ front ++ i :: back, k < 1024) (once : (front ++ i :: back).Nodup) :
    load32 t.mem (tablesAt dir i) = load32 v.mem (tablesAt dir i) := by
  have here : i < 1024 := bounds i (List.mem_append_right _ List.mem_cons_self)
  apply taken.rest.load32
  intro x inside
  refine ⟨taken.step.kept x (taken.own x (within_tablesAt here inside)), ?_⟩
  intro ⟨k, member, words⟩
  have listed : k ∈ front ++ i :: back := List.mem_append_right _ (List.mem_cons_of_mem _ member)
  have different : i ≠ k := by
    intro same
    rw [same] at once
    exact (List.nodup_cons.mp (List.nodup_append.mp once).2.1).1 member
  exact slotWords_apart here (bounds k listed) different inside words

theorem slot_before (taken : Turn fuel dir front i back s blocks u between v after t more)
    (bounds : ∀ k ∈ front ++ i :: back, k < 1024) (once : (front ++ i :: back).Nodup)
    (own : ∀ x, Within dir 8196 x → Kept blocks x) :
    load32 u.mem (tablesAt dir i) = load32 s.mem (tablesAt dir i) := by
  have here : i < 1024 := bounds i (List.mem_append_right _ List.mem_cons_self)
  apply taken.upTo.load32
  intro x inside
  refine ⟨own x (within_tablesAt here inside), ?_⟩
  intro ⟨k, member, words⟩
  have different : i ≠ k := fun same =>
    (List.nodup_append.mp once).2.2 k member i List.mem_cons_self same.symm
  exact slotWords_apart here (bounds k (List.mem_append_left _ member)) different inside words

end Turn

/-- The turns before it have left the two tables it compares. -/
theorem Turn.tables (taken : Turn fuel dir front i back s blocks u between v after t more)
    (bounds : ∀ k ∈ front ++ i :: back, k < 1024) (intact : Intact (Within dir 8196) s blocks) :
    kernelTable u i = kernelTable s i ∧ currentTable u i = currentTable s i := by
  have here : i < 1024 := bounds i (List.mem_append_right _ List.mem_cons_self)
  have covered : Extends (Within dir 8196) s blocks u between :=
    taken.upTo.mono fun _ words =>
      tablesWords_inside (fun k member => bounds k (List.mem_append_left _ member)) words
  exact ⟨intact.kernelTable covered here, intact.currentTable covered here⟩

/-! What a turn stores in its slot. -/

theorem cloneTable_skip (absent : kernelTable u i = 0) (turn : cloneTable fuel dir u i = .ok v) :
    v = u := by
  rw [cloneTable, if_pos absent] at turn
  exact (Except.ok.inj turn).symm

theorem cloneTable_shared (present : kernelTable u i ≠ 0)
    (same : kernelTable u i = currentTable u i) (turn : cloneTable fuel dir u i = .ok v) :
    load32 v.mem (tablesAt dir i) = kernelTable u i := by
  rw [cloneTable, if_neg present, if_pos same] at turn
  rw [← Except.ok.inj turn]
  have apart : Apart (tablesAt dir i) 4 (tablesPhysicalAt dir i) 4 := by
    intro x table physical
    unfold Within tablesAt tablesPhysicalAt at *
    bv_omega
  change load32 (store32 (store32 u.mem (tablesAt dir i) (kernelTable u i)) _ _) _ = _
  rw [load32_store32_apart apart, load32_store32]

theorem cloneTable_own {bytes : Nat} (intact : Intact (Within dir 8196) u between)
    (own : ∀ x, Within dir 8196 x → Kept between x) (here : i < 1024)
    (present : kernelTable u i ≠ 0) (different : kernelTable u i ≠ currentTable u i)
    (room : Room between (bytes + tableBytes u i)) (spare : 8 ≤ bytes) (fuelled : between.length < fuel)
    (turn : cloneTable fuel dir u i = .ok v) : load32 v.mem (tablesAt dir i) ≠ 0 := by
  have needs : tableBytes u i = sizeofPageTable.toNat + 16 := if_pos ⟨present, different⟩
  rw [needs] at room
  obtain ⟨table, next, rest, returned, served, _⟩ :=
    kmallocAp_served intact.tiling (by decide) room spare
      (fun _ x inside => own x (within_tablesPhysicalAt here inside)) fuelled
  rw [cloneTable, if_neg present, if_neg different, returned, ok_bind] at turn
  obtain ⟨w, _, stored⟩ := bind_eq_ok turn
  rw [← Except.ok.inj stored]
  change load32 (store32 w.mem (tablesAt dir i) table) _ ≠ 0
  rw [load32_store32]
  have low := served.low
  bv_omega

end turn

/-! The whole call. -/

/-- The states in which the loop comes to table `i`. -/
def Reaches (fuel : Nat) (pointer : Word) (s : Mm) (i : Nat) (u : Mm) : Prop :=
  ∃ dir opened, cloneStart fuel pointer s = .ok (dir, opened) ∧
    (List.range i).foldlM (cloneTable fuel dir) opened = .ok u

/-- What the call leaves in its directory. -/
structure Cloned (fuel : Nat) (pointer : Word) (s : Mm) (blocks : List Block) (dir : Word) (t : Mm)
    (more : List Block) : Prop where
  returned : mmCloneDirectory fuel pointer s = .ok (dir, t)
  extended : Extends (Stray pointer) s blocks t more
  shares : ∀ i < 1024, Private s i → Shares s t more dir i
  skipped : ∀ i < 1024, kernelTable s i = 0 → load32 t.mem (tablesAt dir i) = 0
  shared : ∀ i < 1024, kernelTable s i ≠ 0 → kernelTable s i = currentTable s i →
    load32 t.mem (tablesAt dir i) = kernelTable s i
  copied : ∀ i < 1024, kernelTable s i ≠ 0 → kernelTable s i ≠ currentTable s i →
    load32 t.mem (tablesAt dir i) ≠ 0
  reached : ∀ i < 1024, ∃ u, Reaches fuel pointer s i u
  before : ∀ i < 1024, ∀ u, Reaches fuel pointer s i u →
    kernelTable u i = kernelTable s i ∧ currentTable u i = currentTable s i
  physicalAddr : load32 t.mem (physicalAddrAt dir) = 0
  low : 0xD0000000 ≤ dir.toNat
  high : dir.toNat + 8196 ≤ 0xD1000000

theorem range_split {i n : Nat} (inside : i < n) :
    List.range n = List.range i ++ i :: List.range' (i + 1) (n - (i + 1)) := by
  rw [← List.range'_succ, List.range_eq_range', List.range_eq_range']
  have start : List.range' i (n - (i + 1) + 1) = List.range' (0 + i) (n - (i + 1) + 1) := by
    rw [Nat.zero_add]
  rw [start, List.range'_append_1]
  congr 1
  omega

theorem load32_zeros {memory : Mem} {address : Word} (zero : ∀ x, Within address 4 x → memory x = 0) :
    load32 memory address = 0 := by
  calc load32 memory address
    _ = load32 (fun _ => 0) address := load32_congr zero
    _ = 0 := load32_zero address

/-- The physical_addr field is no slot of the loop. -/
theorem physicalAddr_apart {dir x : Word} {i : Nat} (here : i < 1024)
    (inside : Within (physicalAddrAt dir) 4 x) : ¬SlotWords dir i x := by
  rintro (table | physical)
  · unfold Within physicalAddrAt tablesAt at *
    bv_omega
  · unfold Within physicalAddrAt tablesPhysicalAt at *
    bv_omega

theorem within_physicalAddrAt {dir x : Word} (inside : Within (physicalAddrAt dir) 4 x) :
    Within dir 8196 x :=
  within_sub 8192 (by decide) inside

section whole
variable {fuel : Nat} {pointer dir : Word} {s opened t : Mm} {blocks middle : List Block} {i : Nat}

theorem split_bounds (here : i < 1024) :
    ∀ k ∈ List.range i ++ i :: List.range' (i + 1) (1024 - (i + 1)), k < 1024 := by
  rw [← range_split here]
  exact range_bounds le_rfl

theorem split_nodup (here : i < 1024) :
    (List.range i ++ i :: List.range' (i + 1) (1024 - (i + 1))).Nodup := by
  rw [← range_split here]
  exact List.nodup_range

theorem opened_turn (begun : Opened fuel pointer s blocks dir opened middle)
    (loop : (List.range 1024).foldlM (cloneTable fuel dir) opened = .ok t) (here : i < 1024) :
    ∃ u between v after more,
      Turn fuel dir (List.range i) i (List.range' (i + 1) (1024 - (i + 1))) opened middle
        u between v after t more := by
  have room := begun.room
  rw [range_split here] at room loop
  apply cloneTables_turn (split_bounds here) (split_nodup here) begun.intact begun.own room _ loop
  rw [← range_split here, List.length_range]
  exact begun.length

/-- The tables before the turn are those before the call. -/
theorem opened_tables (begun : Opened fuel pointer s blocks dir opened middle)
    (intact : Intact (Stray pointer) s blocks) (here : i < 1024) {front back : List Nat}
    {u v : Mm} {between after more : List Block} (bounds : ∀ k ∈ front ++ i :: back, k < 1024)
    (taken : Turn fuel dir front i back opened middle u between v after t more) :
    kernelTable u i = kernelTable s i ∧ currentTable u i = currentTable s i := by
  have same := taken.tables bounds begun.intact
  exact ⟨same.1.trans (intact.kernelTable begun.cleared here),
    same.2.trans (intact.currentTable begun.cleared here)⟩

/-- The loop leaves the physical_addr field as it was cleared. -/
theorem opened_physicalAddr (begun : Opened fuel pointer s blocks dir opened middle)
    (loop : (List.range 1024).foldlM (cloneTable fuel dir) opened = .ok t) :
    load32 t.mem (physicalAddrAt dir) = 0 := by
  have length : middle.length + (List.range 1024).length ≤ fuel := by
    rw [List.length_range]
    exact begun.length
  obtain ⟨last, more, ended, extended, _⟩ := cloneTables_extends (List.range 1024)
    (range_bounds le_rfl) List.nodup_range begun.intact begun.own le_rfl begun.room length
  rw [Except.ok.inj (loop.symm.trans ended)]
  calc load32 last.mem (physicalAddrAt dir)
    _ = load32 opened.mem (physicalAddrAt dir) := by
      apply extended.load32
      intro x inside
      refine ⟨begun.own x (within_physicalAddrAt inside), ?_⟩
      intro ⟨k, member, words⟩
      exact physicalAddr_apart (List.mem_range.mp member) inside words
    _ = 0 := load32_zeros fun x inside => begun.zero x (within_physicalAddrAt inside)

end whole

theorem mmCloneDirectory_cloned {pointer : Word} {s : Mm} {blocks : List Block} {fuel : Nat}
    (ready : Ready pointer s blocks) (enough : blocks.length + 1025 ≤ fuel) :
    ∃ dir t more, Cloned fuel pointer s blocks dir t more := by
  obtain ⟨dir, t, more, returned, extended, shares⟩ := mmCloneDirectory_extends ready enough
  obtain ⟨start, opened, middle, begun⟩ := cloneStart_opened ready enough
  have result := returned
  rw [mmCloneDirectory_start begun.started] at result
  obtain ⟨last, loop, same⟩ := bind_eq_ok result
  rw [Except.ok.injEq, Prod.mk.injEq] at same
  rw [same.1] at begun loop
  rw [same.2] at loop
  refine ⟨dir, t, more, ?_⟩
  apply Cloned.mk returned extended shares
  · intro i here absent
    obtain ⟨u, between, v, after, rest, taken⟩ := opened_turn begun loop here
    have tables := opened_tables begun ready.intact here (split_bounds here) taken
    have none : v = u := cloneTable_skip (tables.1.trans absent) taken.turn
    rw [taken.slot (split_bounds here) (split_nodup here), none,
      taken.slot_before (split_bounds here) (split_nodup here) begun.own]
    exact load32_zeros fun x inside => begun.zero x (within_tablesAt here inside)
  · intro i here present equal
    obtain ⟨u, between, v, after, rest, taken⟩ := opened_turn begun loop here
    have tables := opened_tables begun ready.intact here (split_bounds here) taken
    rw [taken.slot (split_bounds here) (split_nodup here), ← tables.1]
    rw [← tables.1] at present equal
    rw [← tables.2] at equal
    exact cloneTable_shared present equal taken.turn
  · intro i here present different
    obtain ⟨u, between, v, after, rest, taken⟩ := opened_turn begun loop here
    have tables := opened_tables begun ready.intact here (split_bounds here) taken
    rw [taken.slot (split_bounds here) (split_nodup here)]
    rw [← tables.1] at present different
    rw [← tables.2] at different
    obtain ⟨bytes, spare, room⟩ := taken.room
    exact cloneTable_own taken.intact taken.own here present different room spare taken.fuelled
      taken.turn
  · intro i here
    obtain ⟨u, between, v, after, rest, taken⟩ := opened_turn begun loop here
    exact ⟨u, dir, opened, begun.started, taken.before⟩
  · intro i here u reached
    obtain ⟨base, first, started, before⟩ := reached
    obtain ⟨w, between, v, after, rest, taken⟩ := opened_turn begun loop here
    have one := Except.ok.inj (started.symm.trans begun.started)
    rw [Prod.mk.injEq] at one
    rw [one.1, one.2] at before
    have state : u = w := Except.ok.inj (before.symm.trans taken.before)
    rw [state]
    exact opened_tables begun ready.intact here (split_bounds here) taken
  · exact opened_physicalAddr begun loop
  · exact begun.low
  · exact begun.high

/-! The address space that a clone has. -/

/-- The table pointer that the turn for table `i` reads through, if it comes to that. -/
def readTable (u : Mm) (i : Nat) : Option Word :=
  if kernelTable u i = 0 ∨ kernelTable u i = currentTable u i then none else some (currentTable u i)

/-- Whether a directory has an entry for a virtual page number. -/
def HasEntry (s : Mm) (dir : Word) (number : BitVec 20) : Prop :=
  load32 s.mem (tablesAt dir (number.toNat / 1024)) ≠ 0

def entryOf (s : Mm) (dir : Word) (number : BitVec 20) : Page :=
  page s.mem (pageAt (load32 s.mem (tablesAt dir (number.toNat / 1024))) (number.toNat % 1024))

/-- The clone `dir` in `t` covers the address space of `s`. -/
structure Covers (fuel : Nat) (pointer : Word) (s : Mm) (dir : Word) (t : Mm) : Prop where
  noNull : ∀ i < 1024, ∀ u, Reaches fuel pointer s i u → readTable u i ≠ some 0
  entry : ∀ number, HasEntry t dir number ↔
    HasEntry s s.currentDirectory number ∨ HasEntry s s.kernelDirectory number
  presentBit : ∀ number, HasEntry s s.currentDirectory number →
    (entryOf t dir number).present = (entryOf s s.currentDirectory number).present
  rwBit : ∀ number, HasEntry s s.currentDirectory number →
    (entryOf t dir number).rw = (entryOf s s.currentDirectory number).rw
  userBit : ∀ number, HasEntry s s.currentDirectory number →
    (entryOf t dir number).user = (entryOf s s.currentDirectory number).user

theorem number_table (number : BitVec 20) : number.toNat / 1024 < 1024 := by
  have bound := number.isLt
  omega

section cloned
variable {fuel : Nat} {pointer dir : Word} {s t : Mm} {blocks more : List Block}

/-- A slot is empty exactly where the kernel directory has no table. -/
theorem Cloned.slot_zero (cloned : Cloned fuel pointer s blocks dir t more) {i : Nat} (here : i < 1024) :
    load32 t.mem (tablesAt dir i) = 0 ↔ kernelTable s i = 0 := by
  constructor
  · intro empty
    by_contra present
    by_cases same : kernelTable s i = currentTable s i
    · rw [cloned.shared i here present same] at empty
      exact present empty
    · exact cloned.copied i here present same empty
  · exact cloned.skipped i here

/-- Where both directories have a table the clone has the entries of the current one. -/
theorem Cloned.entry_eq (cloned : Cloned fuel pointer s blocks dir t more)
    (intact : Intact (Stray pointer) s blocks) (number : BitVec 20)
    (kernel : kernelTable s (number.toNat / 1024) ≠ 0)
    (current : currentTable s (number.toNat / 1024) ≠ 0) :
    entryOf t dir number = entryOf s s.currentDirectory number := by
  have here := number_table number
  have below : number.toNat % 1024 < 1024 := Nat.mod_lt _ (by decide)
  by_cases same : kernelTable s (number.toNat / 1024) = currentTable s (number.toNat / 1024)
  · have word : load32 t.mem (pageAt (currentTable s (number.toNat / 1024)) (number.toNat % 1024)) =
        load32 s.mem (pageAt (currentTable s (number.toNat / 1024)) (number.toNat % 1024)) :=
      cloned.extended.load32 fun x inside => intact.tables _ here current x (within_pageAt below inside)
    rw [entryOf, cloned.shared _ here kernel same, same, page, word]
    rfl
  · have shares := cloned.shares _ here ⟨kernel, current, same⟩
    exact congrArg pageOfWord (shares.entry _ below)

/-- A table of the current directory alone is dropped. -/
theorem Cloned.dropped (cloned : Cloned fuel pointer s blocks dir t more) {i : Nat} (here : i < 1024)
    (absent : kernelTable s i = 0) (present : currentTable s i ≠ 0) :
    ¬Covers fuel pointer s dir t := by
  intro covers
  have number : (BitVec.ofNat 20 (1024 * i)).toNat / 1024 = i := by
    rw [BitVec.toNat_ofNat]
    omega
  have has : HasEntry t dir (BitVec.ofNat 20 (1024 * i)) := by
    apply (covers.entry _).mpr
    left
    rw [HasEntry, number]
    exact present
  rw [HasEntry, number] at has
  exact has (cloned.skipped i here absent)

/-- A table of the kernel directory alone is copied from the null pointer. -/
theorem Cloned.null_read (cloned : Cloned fuel pointer s blocks dir t more) {i : Nat} (here : i < 1024)
    (present : kernelTable s i ≠ 0) (absent : currentTable s i = 0) :
    ¬Covers fuel pointer s dir t := by
  intro covers
  obtain ⟨u, reached⟩ := cloned.reached i here
  have tables := cloned.before i here u reached
  apply covers.noNull i here u reached
  have apart : ¬(kernelTable u i = 0 ∨ kernelTable u i = currentTable u i) := by
    rw [tables.1, tables.2, absent, or_self]
    exact present
  rw [readTable, if_neg apart, tables.2, absent]

/-- The call returns, and its clone covers the address space exactly when the two directories
have tables in the same slots. -/
theorem mmCloneDirectory_covers_iff {fuel : Nat} {pointer : Word} {s : Mm} {blocks : List Block}
    (ready : Ready pointer s blocks) (enough : blocks.length + 1025 ≤ fuel) :
    ∃ dir t, mmCloneDirectory fuel pointer s = .ok (dir, t) ∧
      (Covers fuel pointer s dir t ↔
        ∀ i < 1024, kernelTable s i = 0 ↔ currentTable s i = 0) := by
  obtain ⟨dir, t, more, cloned⟩ := mmCloneDirectory_cloned ready enough
  refine ⟨dir, t, cloned.returned, ?_⟩
  constructor
  · intro covers i here
    constructor
    · intro absent
      by_contra present
      exact cloned.dropped here absent present covers
    · intro absent
      by_contra present
      exact cloned.null_read here present absent covers
  · intro same
    have whole : ∀ number, HasEntry s s.currentDirectory number →
        entryOf t dir number = entryOf s s.currentDirectory number := fun number current =>
      cloned.entry_eq ready.intact number
        (fun absent => current ((same _ (number_table number)).mp absent)) current
    apply Covers.mk
    · intro i here u reached null
      have tables := cloned.before i here u reached
      rw [readTable] at null
      split_ifs at null with skipped
      rw [Option.some.injEq, tables.2] at null
      apply skipped
      left
      rw [tables.1]
      exact (same i here).mpr null
    · intro number
      have here := number_table number
      have slot := not_congr (cloned.slot_zero here)
      have tables := not_congr (same _ here)
      constructor
      · intro has
        right
        exact slot.mp has
      · rintro (current | kernel)
        · exact slot.mpr (tables.mpr current)
        · exact slot.mpr kernel
    · exact fun number current => congrArg Page.present (whole number current)
    · exact fun number current => congrArg Page.rw (whole number current)
    · exact fun number current => congrArg Page.user (whole number current)

end cloned

/-- Both directories have a table in slot 0 alone. -/
theorem mmCloneDirectory_covers_iff_both :
    ∃ dir t, mmCloneDirectory 1026 0 (clonable 0) = .ok (dir, t) ∧
      Covers 1026 0 (clonable 0) dir t := by
  obtain ⟨dir, t, returned, covers⟩ :=
    mmCloneDirectory_covers_iff (clonable_ready 0) (Nat.le_refl 1026)
  refine ⟨dir, t, returned, covers.mpr ?_⟩
  intro i here
  rw [kernelTable_clonable 0 here, currentTable_clonable 0 here]
  by_cases first : i = 0
  · rw [if_pos first, if_pos first]
    decide
  · rw [if_neg first, if_neg first]

/-- The kernel directory has a table and the current directory has none. -/
def bare : Mm := { clonable 0 with currentDirectory := 0x14000 }

theorem currentTable_bare {i : Nat} (here : i < 1024) : currentTable bare i = 0 := by
  change load32 (clonable 0).mem (0x14000 + BitVec.ofNat 32 (4 * i)) = 0
  rw [clonable_word 0 _ (by bv_omega) (by bv_omega), if_neg (by bv_omega), if_neg (by bv_omega),
    if_neg (by bv_omega)]

theorem bare_ready : Ready 0 bare clonableBlocks := by
  have kernel : 0x10000 ≤ (0x10000 : Word).toNat ∧ (0x10000 : Word).toNat + 8196 ≤ 0x50000 := by decide
  have current : 0x10000 ≤ (0x14000 : Word).toNat ∧ (0x14000 : Word).toNat + 8196 ≤ 0x50000 := by decide
  apply fresh_ready rfl kernel current
  intro i here present
  exact absurd (currentTable_bare here) present

/-- The table of slot 0 is copied from address 0. -/
theorem mmCloneDirectory_not_covers :
    ¬∀ (pointer : Word) (s : Mm) (blocks : List Block) (fuel : Nat) (dir : Word) (t : Mm),
      Ready pointer s blocks → mmCloneDirectory fuel pointer s = .ok (dir, t) →
        Covers fuel pointer s dir t := by
  intro claim
  obtain ⟨dir, t, more, cloned⟩ := mmCloneDirectory_cloned bare_ready (Nat.le_refl 1026)
  have present : kernelTable bare 0 ≠ 0 := by
    have table : kernelTable bare 0 = 0x30000 := kernelTable_clonable 0 (by decide)
    rw [table]
    decide
  exact cloned.null_read (by decide) present (currentTable_bare (by decide))
    (claim _ _ _ _ dir t bare_ready cloned.returned)

/-! The physical side of a clone. -/

/-- What mm_clone_directory hands to task_create and task_fork. -/
structure Handed (t : Mm) (dir : Word) (allocated : Allocated) : Prop where
  pageDirectory : allocated.pageDirectory = dir
  physicalAddr : allocated.physicalAddr = load32 t.mem (physicalAddrAt dir)

/-- The physical addresses of the directory `dir`, and of a task that is given it. A table's
physical address is its address, as kmalloc_ap has it. -/
structure Physical (t : Mm) (dir : Word) : Prop where
  own : load32 t.mem (physicalAddrAt dir) = tablesPhysicalAt dir 0
  tables : ∀ i < 1024, load32 t.mem (tablesAt dir i) ≠ 0 →
    load32 t.mem (tablesPhysicalAt dir i) = load32 t.mem (tablesAt dir i) ||| 0x7
  created : ∀ name entry priority allocated scheduler, Handed t dir allocated →
    ((taskCreate name entry priority allocated scheduler).tasks allocated.task).context.cr3 =
      tablesPhysicalAt dir 0
  forked : ∀ allocated scheduler, Handed t dir allocated → scheduler.currentTask ≠ 0 →
    ((taskFork allocated scheduler).tasks allocated.task).context.cr3 = tablesPhysicalAt dir 0

/-- The kernel directory that mm_init_paging and mm_get_page build. -/
structure Built (s : Mm) : Prop where
  own : load32 s.mem (physicalAddrAt s.kernelDirectory) = tablesPhysicalAt s.kernelDirectory 0
  tables : ∀ i < 1024, kernelTable s i ≠ 0 →
    load32 s.mem (tablesPhysicalAt s.kernelDirectory i) = kernelTable s i ||| 0x7

theorem taskCreate_cr3 (name : List Byte) (entry priority : Word) (allocated : Allocated)
    (scheduler : Scheduler) :
    ((taskCreate name entry priority allocated scheduler).tasks allocated.task).context.cr3 =
      allocated.physicalAddr := by
  simp [taskCreate]

theorem taskFork_cr3 (allocated : Allocated) (scheduler : Scheduler)
    (running : scheduler.currentTask ≠ 0) :
    ((taskFork allocated scheduler).tasks allocated.task).context.cr3 = allocated.physicalAddr := by
  rw [taskFork, if_neg running]
  simp

section physical
variable {fuel : Nat} {pointer dir : Word} {s t : Mm} {blocks more : List Block}

theorem Cloned.not_physical (cloned : Cloned fuel pointer s blocks dir t more) : ¬Physical t dir := by
  intro physical
  have own := physical.own
  have low := cloned.low
  have high := cloned.high
  rw [cloned.physicalAddr] at own
  unfold tablesPhysicalAt at own
  bv_omega

end physical

/-- The call returns with a physical_addr of 0, which every new task gets for its cr3. -/
theorem mmCloneDirectory_not_physical {fuel : Nat} {pointer : Word} {s : Mm} {blocks : List Block}
    (ready : Ready pointer s blocks) (enough : blocks.length + 1025 ≤ fuel) :
    ∃ dir t, mmCloneDirectory fuel pointer s = .ok (dir, t) ∧ ¬Physical t dir ∧
      load32 t.mem (physicalAddrAt dir) = 0 ∧
      (∀ name entry priority allocated scheduler, Handed t dir allocated →
        ((taskCreate name entry priority allocated scheduler).tasks allocated.task).context.cr3 = 0) ∧
      ∀ allocated scheduler, Handed t dir allocated → scheduler.currentTask ≠ 0 →
        ((taskFork allocated scheduler).tasks allocated.task).context.cr3 = 0 := by
  obtain ⟨dir, t, more, cloned⟩ := mmCloneDirectory_cloned ready enough
  refine ⟨dir, t, cloned.returned, cloned.not_physical, cloned.physicalAddr, ?_, ?_⟩
  · intro name entry priority allocated scheduler handed
    rw [taskCreate_cr3, handed.physicalAddr, cloned.physicalAddr]
  · intro allocated scheduler handed running
    rw [taskFork_cr3 _ _ running, handed.physicalAddr, cloned.physicalAddr]

/-- The memory once mm_init_paging has made the table of slot 0. -/
def bootedMemory : Mem :=
  store32 (store32 (store32 (fun _ => 0) 0x10000 0x30000) 0x11000 0x30007) 0x12000 0x11000

def booted : Mm :=
  { clonable 0 with
    heap := initHeap (uninitialised bootedMemory)
    currentDirectory := 0x10000 }

theorem booted_word (address : Word) (aligned : address.toNat % 4 = 0) (low : address.toNat < 0x50000) :
    load32 booted.mem address =
      if address = 0x12000 then 0x11000
      else if address = 0x11000 then 0x30007
      else if address = 0x10000 then 0x30000 else 0 := by
  have heap : load32 booted.mem address = load32 bootedMemory address :=
    initHeap_word _ (by omega)
  rw [heap, bootedMemory, load32_store32_aligned _ _ (by decide) aligned,
    load32_store32_aligned _ _ (by decide) aligned, load32_store32_aligned _ _ (by decide) aligned,
    load32_zero]

theorem booted_table {i : Nat} (here : i < 1024) :
    load32 booted.mem (0x10000 + BitVec.ofNat 32 (4 * i)) = if i = 0 then 0x30000 else 0 := by
  by_cases first : i = 0
  · subst first
    exact booted_word 0x10000 (by decide) (by decide)
  · rw [if_neg first, booted_word _ (by bv_omega) (by bv_omega), if_neg (by bv_omega),
      if_neg (by bv_omega), if_neg (by bv_omega)]

theorem booted_built : Built booted := by
  apply Built.mk
  · exact booted_word 0x12000 (by decide) (by decide)
  · intro i here present
    have table : kernelTable booted i = if i = 0 then 0x30000 else 0 := booted_table here
    by_cases first : i = 0
    · subst first
      rw [table]
      exact booted_word 0x11000 (by decide) (by decide)
    · rw [table, if_neg first] at present
      exact absurd rfl present

theorem booted_ready : Ready 0 booted clonableBlocks := by
  have directory : 0x10000 ≤ (0x10000 : Word).toNat ∧ (0x10000 : Word).toNat + 8196 ≤ 0x50000 := by decide
  apply fresh_ready rfl directory directory
  intro i here present
  have table : currentTable booted i = if i = 0 then 0x30000 else 0 := booted_table here
  rw [table] at present ⊢
  by_cases first : i = 0
  · rw [if_pos first]
    decide
  · exact absurd (if_neg first) present

/-- One shared table. -/
theorem mmCloneDirectory_not_physical_booted :
    ∃ dir t, mmCloneDirectory 1026 0 booted = .ok (dir, t) ∧ ¬Physical t dir := by
  obtain ⟨dir, t, returned, broken, _⟩ :=
    mmCloneDirectory_not_physical booted_ready (Nat.le_refl 1026)
  exact ⟨dir, t, returned, broken⟩

/-- The clone of the directory that the kernel boots with. -/
theorem mmCloneDirectory_physical_fails :
    ¬∀ (pointer : Word) (s : Mm) (blocks : List Block) (fuel : Nat) (dir : Word) (t : Mm),
      Ready pointer s blocks → Built s → mmCloneDirectory fuel pointer s = .ok (dir, t) →
        Physical t dir := by
  intro claim
  obtain ⟨dir, t, more, cloned⟩ := mmCloneDirectory_cloned booted_ready (Nat.le_refl 1026)
  exact cloned.not_physical (claim _ _ _ _ dir t booted_ready booted_built cloned.returned)

end Vaelen.Kernel.CloneSlots
