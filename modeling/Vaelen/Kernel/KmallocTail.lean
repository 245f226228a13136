import Vaelen.Kernel.KmallocTermination

/-!
Whether heap_end is the last block of the list. Only the first call and a placement write it, so
on the hole path it stays at the first block, and every block that a split puts behind that one
is cut off when a further block is linked.
-/

namespace Vaelen.Kernel.KmallocTail
open Vaelen.Base Platform Kmalloc KmallocBlocks KmallocTiling KmallocRuns KmallocTermination

/-- The lines of kmalloc_ap that link a placed block behind heap_end. -/
def linkBlock (heap : Heap) (block : Word) : Heap :=
  let memory := setNext heap.mem block 0
  let memory := setPrev memory block heap.heapEnd
  let memory := if heap.heapEnd ≠ 0 then setNext memory heap.heapEnd block else memory
  { heap with mem := memory, heapEnd := block }

/-- heap_end is the last block of the list, and a further block linked behind it joins the list. -/
structure Tail (heap : Heap) (list : List Word) : Prop where
  ends : Ends heap.mem heap.heapStart list
  last : list.getLast? = some heap.heapEnd
  null : (memBlock heap.mem heap.heapEnd).next = 0
  kept : ∀ block ≠ 0, (∀ other ∈ list, Spaced block other) →
    Ends (linkBlock heap block).mem heap.heapStart (list ++ [block])

/-- A placement writes the size and the flag of its block and links it. -/
theorem placeBlock_eq (size : Word) (heap : Heap) :
    placeBlock size 0 heap =
      if KERNEL_HEAP_START + KERNEL_HEAP_SIZE < heap.heapPlacement + (size + sizeofMemBlock) then
        kernelPanic "Kernel heap exhausted"
      else
        .ok (heap.heapPlacement + sizeofMemBlock,
          { linkBlock { heap with
              mem := setFree (setSize heap.mem heap.heapPlacement size) heap.heapPlacement 0 }
              heap.heapPlacement with
            heapPlacement := heap.heapPlacement + (size + sizeofMemBlock) }) := rfl

/-! Linking a block behind any block of the list. -/

section linking
variable {heap : Heap} {block : Word}

theorem memBlock_linkBlock (present : heap.heapEnd ≠ 0) (spaced : Spaced block heap.heapEnd) :
    (memBlock (linkBlock heap block).mem heap.heapEnd).next = block ∧
      (memBlock (linkBlock heap block).mem block).next = 0 ∧
      ∀ other, Spaced block other → Spaced heap.heapEnd other →
        memBlock (linkBlock heap block).mem other = memBlock heap.mem other := by
  simp only [linkBlock, if_pos present]
  refine ⟨?_, ?_, fun other first second => ?_⟩
  · rw [memBlock_setNext]
  · rw [memBlock_setNext_spaced spaced.symm, memBlock_setPrev, memBlock_setNext]
  · rw [memBlock_setNext_spaced second, memBlock_setPrev_spaced first,
      memBlock_setNext_spaced first]

/-- The new block comes after heap_end, and what stood behind heap_end is lost. -/
theorem linkBlock_ends {front rest : List Word} {current : Word}
    (ends : Ends heap.mem current (front ++ heap.heapEnd :: rest)) (present : block ≠ 0)
    (last : heap.heapEnd ≠ 0) (spaced : ∀ other ∈ front ++ [heap.heapEnd], Spaced block other)
    (apart : ∀ other ∈ front, Spaced heap.heapEnd other) :
    Ends (linkBlock heap block).mem current (front ++ [heap.heapEnd, block]) := by
  obtain ⟨linked, stop, elsewhere⟩ := memBlock_linkBlock last (spaced heap.heapEnd (by simp))
  induction front generalizing current with
  | nil =>
    obtain ⟨entered, here, _⟩ := ends
    refine ⟨entered, here, ?_⟩
    rw [← here, linked]
    exact ⟨present, rfl, stop⟩
  | cons first front ih =>
    obtain ⟨entered, here, tail⟩ := ends
    have same := elsewhere first (spaced first (by simp)) (apart first (by simp))
    refine ⟨entered, here, ?_⟩
    rw [← here, same, here]
    apply ih tail
    · intro other member
      exact spaced other (List.mem_cons_of_mem first member)
    · intro other member
      exact apart other (List.mem_cons_of_mem first member)

end linking

/-! The tail of a tiled heap. -/

section tiled
variable {heap : Heap} {before after : List Block} {block : Block}

theorem linkBlock_tiling {further : Word} (tiling : Tiling heap (before ++ block :: after))
    (here : heap.heapEnd = block.addr) (present : further ≠ 0)
    (spaced : ∀ other ∈ (before ++ [block]).map Block.addr, Spaced further other) :
    Ends (linkBlock heap further).mem heap.heapStart
      ((before ++ [block]).map Block.addr ++ [further]) := by
  have ends := tiling_ends tiling
  simp only [List.map_append, List.map_cons, List.map_nil, List.append_assoc, List.cons_append,
    List.nil_append, ← here] at ends spaced ⊢
  apply linkBlock_ends ends present
  · rw [here]
    exact tiling.layout.addr_ne_zero (by simp)
  · exact spaced
  · intro other member
    obtain ⟨earlier, inside, same⟩ := List.mem_map.mp member
    rw [here, ← same]
    exact tiling.layout.spaced_before inside

/-- heap_end is the tail exactly when no block stands behind the block it points to. -/
theorem tail_iff (tiling : Tiling heap (before ++ block :: after))
    (here : heap.heapEnd = block.addr) : (∃ list, Tail heap list) ↔ after = [] := by
  have next := tiling.layout.next_eq
  rw [← here] at next
  constructor
  · rintro ⟨list, tail⟩
    cases after with
    | nil => rfl
    | cons later rest =>
      have null : later.addr = 0 := next.symm.trans tail.null
      exact absurd null (tiling.layout.addr_ne_zero (by simp))
  · intro none
    subst none
    refine ⟨_, tiling_ends tiling, ?_, next, fun further present spaced => ?_⟩
    · simp [here]
    · exact linkBlock_tiling tiling here present spaced

end tiled

/-! Requests that take the whole heap. -/

/-- The hole of a fresh heap has no room for the request, a second header and 8 more bytes. -/
def TakesHeap (size : Word) : Prop := KERNEL_HEAP_SIZE.toNat < size.toNat + 40

instance (size : Word) : Decidable (TakesHeap size) := inferInstanceAs (Decidable (_ < _))

section blocks
variable {memory : Mem} {blocks before after : List Block} {block hole : Block} {size : Word}

/-- A block so large that the heap has no room for another header is the only one. -/
theorem only_block (layout : Layout memory (before ++ block :: after))
    (large : KERNEL_HEAP_SIZE.toNat < block.size.toNat + 32) : before = [] ∧ after = [] := by
  have bound := layout.inside
  change 0x1000000 < _ at large
  constructor
  · apply List.eq_nil_iff_forall_not_mem.mpr
    intro other member
    have order := layout.before_end member
    have start := (layout.bounds (List.mem_append_left _ member)).1
    omega
  · apply List.eq_nil_iff_forall_not_mem.mpr
    intro other member
    have order := layout.after_start member
    have stop := (layout.inside_after member).2
    omega

theorem only_block_size (layout : Layout memory [block]) :
    block.size.toNat + 16 = KERNEL_HEAP_SIZE.toNat := by
  have tiled : block.addr.toNat = KERNEL_HEAP_START.toNat ∧
      KERNEL_HEAP_START.toNat + (16 + block.size.toNat) =
        KERNEL_HEAP_START.toNat + KERNEL_HEAP_SIZE.toNat := layout.tiled
  omega

/-- Two different blocks. -/
theorem not_alone {other : Block} (member : block ∈ blocks) (also : other ∈ blocks)
    (different : block ≠ other) : blocks.length ≠ 1 := by
  intro alone
  obtain ⟨single, same⟩ := List.length_eq_one_iff.mp alone
  rw [same, List.mem_singleton] at member also
  exact different (member.trans also.symm)

theorem carve_length (layout : Layout memory (before ++ hole :: after))
    (room : size.toNat + 16 ≤ hole.size.toNat) :
    (carve size hole).length = if size.toNat + 24 ≤ hole.size.toNat then 2 else 1 := by
  have split := layout.splits_iff room
  unfold carve
  by_cases rest : size + sizeofMemBlock + 8 ≤ hole.size
  · rw [if_pos rest, if_pos (split.mp rest)]
    rfl
  · rw [if_neg rest, if_neg fun larger => rest (split.mpr larger)]
    rfl

/-- A hole that serves a request becomes the only block exactly when the request takes the heap. -/
theorem carve_alone_iff (layout : Layout memory (before ++ hole :: after))
    (room : size.toNat + 16 ≤ hole.size.toNat) :
    (before ++ (carve size hole ++ after)).length = 1 ↔ TakesHeap size := by
  have whole : KERNEL_HEAP_SIZE.toNat = 0x1000000 := rfl
  rw [TakesHeap, List.length_append, List.length_append, carve_length layout room]
  constructor
  · intro alone
    by_cases rest : size.toNat + 24 ≤ hole.size.toNat
    · rw [if_pos rest] at alone
      omega
    · rw [if_neg rest] at alone
      have first : before = [] := List.eq_nil_of_length_eq_zero (by omega)
      have last : after = [] := List.eq_nil_of_length_eq_zero (by omega)
      rw [first, last] at layout
      have total := only_block_size layout
      omega
  · intro large
    obtain ⟨first, last⟩ := only_block layout (by omega)
    rw [first, last] at layout
    have total := only_block_size layout
    rw [first, last, if_neg (by omega)]
    rfl

/-- Free blocks only, and no two of them adjacent. -/
theorem coalesced_alone (coalesced : Coalesced blocks) (free : ∀ block ∈ blocks, block.free = true)
    (some : blocks ≠ []) : blocks.length = 1 := by
  cases blocks with
  | nil => exact absurd rfl some
  | cons first rest =>
    cases rest with
    | nil => rfl
    | cons second rest =>
      have apart := (List.isChain_cons_cons.mp coalesced).1
      exact absurd ⟨free first (by simp), free second (by simp)⟩ apart

end blocks

/-! The runs of the hole path. -/

/-- A live allocation takes the heap exactly when its block is the only one. -/
structure Sized (blocks : List Block) (live : List Alloc) : Prop where
  backed : Backed blocks live
  alone : ∀ alloc ∈ live, (blocks.length = 1 ↔ TakesHeap alloc.size)

/-- The tiled states, and the state before the first call. -/
def Known (s : State) : Prop :=
  (s.heap.heapStart = 0 ∧ s.live = []) ∨ ∃ blocks, Tiling s.heap blocks ∧ Sized blocks s.live

section sizes
variable {s t : State} {blocks before after : List Block} {block hole : Block} {live : List Alloc}
  {size : Word} {fuel : Nat}

theorem Known.initHeap (known : Known s) :
    ∃ blocks, Tiling (initHeap s.heap) blocks ∧ Sized blocks s.live := by
  rcases known with ⟨fresh, empty⟩ | ⟨blocks, tiling, sized⟩
  · refine ⟨_, initHeap_tiling fresh, ?_⟩
    rw [empty]
    exact ⟨backed_initial _ _, by simp⟩
  · exact ⟨blocks, (initHeap_tiled tiling).symm ▸ tiling, sized⟩

/-- Two live allocations have two blocks. -/
theorem two_live (backed : Backed blocks live) {first second : Alloc} (member : first ∈ live)
    (also : second ∈ live) (different : first.ptr ≠ second.ptr) : blocks.length ≠ 1 := by
  obtain ⟨block, inside, _, place, _⟩ := backed.block first member
  obtain ⟨other, within, _, located, _⟩ := backed.block second also
  apply not_alone inside within
  intro same
  rw [place, located, same] at different
  exact different rfl

/-- A request served by a hole is the only block or stands beside blocks of the same kind. -/
theorem sized_carve {memory : Mem} (layout : Layout memory (before ++ hole :: after))
    (sized : Sized (before ++ hole :: after) live) (free : hole.free = true)
    (room : size.toNat + 16 ≤ hole.size.toNat) :
    Sized (before ++ (carve size hole ++ after)) (⟨hole.addr + sizeofMemBlock, size⟩ :: live) := by
  have backed := backed_carve layout sized.backed free room
  refine ⟨backed, fun alloc member => ?_⟩
  rcases List.mem_cons.mp member with same | older
  · rw [same]
    exact carve_alone_iff layout room
  · obtain ⟨block, inside, used, _⟩ := sized.backed.block alloc older
    have shared : (before ++ hole :: after).length ≠ 1 := by
      apply not_alone inside (List.mem_append_right before List.mem_cons_self)
      intro same
      rw [same, free] at used
      exact Bool.noConfusion used
    have fresh : hole.addr + sizeofMemBlock ≠ alloc.ptr := by
      intro same
      apply (List.nodup_cons.mp backed.distinct).1
      exact List.mem_map.mpr ⟨alloc, older, same.symm⟩
    have divided := two_live backed List.mem_cons_self member fresh
    exact iff_of_false divided fun large => shared ((sized.alone alloc older).mpr large)

/-- What stays live after a release had the released block beside it, and so takes no heap. -/
theorem sized_release {memory changed : Mem} (layout : Layout memory (before ++ block :: after))
    (released : Layout changed (release before block after))
    (sized : Sized (before ++ block :: after) live) (used : block.free = false) :
    Sized (release before block after)
      (live.eraseP fun alloc => alloc.ptr = block.addr + sizeofMemBlock) := by
  have backed := backed_release layout sized.backed
  refine ⟨backed, fun alloc member => ?_⟩
  have older := (mem_eraseP_ptr sized.backed.distinct _ alloc).mp member
  obtain ⟨freed, listed, place⟩ := sized.backed.alloc block (by simp) used
  have shared : (before ++ block :: after).length ≠ 1 :=
    two_live sized.backed older.1 listed fun same => older.2 (same.trans place)
  apply iff_of_false
  · intro alone
    obtain ⟨home, inside, taken, _⟩ := backed.block alloc member
    obtain ⟨single, same⟩ := List.length_eq_one_iff.mp alone
    rw [same] at released
    rw [same, List.mem_singleton] at inside
    have total := only_block_size (inside ▸ released)
    have kept := ((used_release layout taken).mp (by rw [same, inside]; simp)).1
    obtain ⟨front, rest, split⟩ := List.append_of_mem kept
    rw [split] at layout shared
    obtain ⟨first, last⟩ := only_block layout (by omega)
    rw [first, last] at shared
    exact shared rfl
  · intro large
    exact shared ((sized.alone alloc older.1).mpr large)

theorem holeStep_known {op : Call} (known : Known s) (step : HoleStep s op t) :
    ∃ blocks, Tiling t.heap blocks ∧ Sized blocks t.live := by
  obtain ⟨⟨fuel, step⟩, path⟩ := step
  cases op with
  | kmalloc size =>
    obtain ⟨blocks, tiling, sized⟩ := known.initHeap
    rcases kmalloc_blocks tiling step (path size rfl) with
      ⟨_, same, live⟩ | ⟨before, hole, after, split, free, _, room, carved, live⟩
    · exact ⟨blocks, same, live ▸ sized⟩
    · subst split
      exact ⟨_, carved, live ▸ sized_carve tiling.layout sized free room⟩
  | kfree ptr =>
    rcases known with ⟨_, empty⟩ | ⟨blocks, tiling, sized⟩
    · obtain ⟨⟨alloc, member, _⟩, _⟩ := call_kfree step
      rw [empty] at member
      exact absurd member List.not_mem_nil
    · obtain ⟨before, block, after, split, used, freed, live⟩ :=
        kfree_blocks tiling sized.backed step
      subst split
      exact ⟨_, freed, live ▸ sized_release tiling.layout freed.layout sized used⟩

end sizes

theorem holeRun_known {memory : Mem} {ops : List Call} {s : State}
    (run : Runs HoleStep (start memory) ops s) : Known s ∧ Unplaced s.heap := by
  apply run.invariant ⟨Or.inl ⟨rfl, rfl⟩, start_unplaced memory⟩
  intro s op t known step
  have represented : Represented s :=
    known.1.imp_right fun ⟨blocks, tiling, sized⟩ => ⟨blocks, tiling, sized.backed⟩
  exact ⟨Or.inr (holeStep_known known.1 step), holeStep_unplaced represented known.2 step⟩

/-- A started state of the hole path: its blocks, with heap_end at the first of them. -/
theorem holeRun_blocks {memory : Mem} {ops : List Call} {s : State}
    (run : Runs HoleStep (start memory) ops s) (started : s.heap.heapStart ≠ 0) :
    ∃ first rest, Tiling s.heap (first :: rest) ∧ Sized (first :: rest) s.live ∧
      first.addr = KERNEL_HEAP_START ∧ s.heap.heapEnd = first.addr := by
  obtain ⟨known, unplaced⟩ := holeRun_known run
  obtain ⟨blocks, tiling, sized⟩ := known.resolve_left fun fresh => started fresh.1
  obtain ⟨first, rest, split, addr⟩ := tiling.head
  subst split
  exact ⟨first, rest, tiling, sized, addr, (unplaced.last started).trans addr.symm⟩

/-- However long the list is, linking a further block leaves the first block and that one. -/
theorem holeRun_link {memory : Mem} {ops : List Call} {s : State}
    (run : Runs HoleStep (start memory) ops s) (started : s.heap.heapStart ≠ 0) {further : Word}
    (present : further ≠ 0) (spaced : Spaced further KERNEL_HEAP_START) :
    Ends (linkBlock s.heap further).mem s.heap.heapStart [KERNEL_HEAP_START, further] := by
  obtain ⟨first, rest, tiling, _, addr, last⟩ := holeRun_blocks run started
  have whole : Tiling s.heap ([] ++ first :: rest) := tiling
  rw [← addr] at spaced ⊢
  exact linkBlock_tiling whole last present (by simpa using spaced)

/-- In a state of the hole path heap_end is the tail exactly when every live allocation takes the
heap. -/
theorem holeRun_tail_live_iff {memory : Mem} {ops : List Call} {s : State}
    (run : Runs HoleStep (start memory) ops s) (started : s.heap.heapStart ≠ 0) :
    (∃ list, Tail s.heap list) ↔ ∀ alloc ∈ s.live, TakesHeap alloc.size := by
  obtain ⟨first, rest, tiling, sized, _, last⟩ := holeRun_blocks run started
  have whole : Tiling s.heap ([] ++ first :: rest) := tiling
  rw [tail_iff whole last]
  constructor
  · intro none alloc member
    rw [← sized.alone alloc member, none]
    rfl
  · intro large
    have alone : (first :: rest).length = 1 := by
      by_cases empty : s.live = []
      · apply coalesced_alone tiling.coalesced ?_ (List.cons_ne_nil first rest)
        intro block member
        by_contra used
        obtain ⟨alloc, inside, _⟩ := sized.backed.alloc block member (Bool.eq_false_iff.mpr used)
        rw [empty] at inside
        exact List.not_mem_nil inside
      · obtain ⟨alloc, member⟩ := List.exists_mem_of_ne_nil _ empty
        exact (sized.alone alloc member).mpr (large alloc member)
    exact List.eq_nil_of_length_eq_zero (Nat.succ.inj alone)

/-- What is live on the way was requested, and not with size 0. -/
theorem live_requested {memory : Mem} {ops : List Call} (before after : List Call) (s : State)
    (split : ops = before ++ after) (run : Runs HoleStep (start memory) before s) :
    ∀ alloc ∈ s.live, .kmalloc alloc.size ∈ ops ∧ alloc.size ≠ 0 := by
  refine Runs.along ?_ ?_ before after s split run
  · intro alloc member
    exact absurd member List.not_mem_nil
  · intro before op after s t whole _ step requested alloc member
    obtain ⟨⟨fuel, step⟩, _⟩ := step
    cases op with
    | kmalloc size =>
      obtain ⟨ptr, heap, returned, _, live⟩ := call_kmalloc step
      rw [live] at member
      by_cases null : ptr = 0
      · rw [if_pos null] at member
        exact requested alloc member
      · rw [if_neg null] at member
        rcases List.mem_cons.mp member with same | older
        · rw [same, whole]
          refine ⟨by simp, fun zero => null ?_⟩
          have size : size = 0 := zero
          subst size
          exact (kmalloc_zero returned).1
        · exact requested alloc older
    | kfree ptr =>
      rw [(call_kfree step).2.2] at member
      exact requested alloc (List.mem_of_mem_eraseP member)

/-- Right after a non-zero request its allocation is live. -/
theorem request_live {s t : State} {size : Word} (known : Known s) (nonzero : size ≠ 0)
    (step : HoleStep s (.kmalloc size) t) : ∃ alloc ∈ t.live, alloc.size = size := by
  obtain ⟨⟨fuel, step⟩, path⟩ := step
  obtain ⟨blocks, tiling, _⟩ := known.initHeap
  rcases kmalloc_blocks tiling step (path size rfl) with
    ⟨zero, _⟩ | ⟨before, hole, after, _, _, _, _, _, live⟩
  · exact absurd zero nonzero
  · exact ⟨_, live ▸ List.mem_cons_self, rfl⟩

/-- heap_end is the tail in every state of a run of the hole path exactly when every non-zero
request of the run takes the heap. -/
theorem holeRun_tail_iff (memory : Mem) (ops : List Call) (s : State)
    (run : Runs HoleStep (start memory) ops s) :
    (∀ before after t, ops = before ++ after → Runs HoleStep (start memory) before t →
        t.heap.heapStart ≠ 0 → ∃ list, Tail t.heap list) ↔
      ∀ size, .kmalloc size ∈ ops → size ≠ 0 → TakesHeap size := by
  constructor
  · intro tails size member nonzero
    obtain ⟨before, after, split⟩ := List.append_of_mem member
    rw [split] at run
    obtain ⟨middle, first, rest⟩ := run.split
    cases rest with
    | next step _ =>
      obtain ⟨alloc, live, same⟩ := request_live (holeRun_known first).1 nonzero step
      obtain ⟨blocks, tiling, _⟩ := holeStep_known (holeRun_known first).1 step
      have here := first.snoc step
      have tail := tails (before ++ [.kmalloc size]) after _ (by simp [split]) here tiling.started
      rw [← same]
      exact (holeRun_tail_live_iff here tiling.started).mp tail alloc live
  · intro large before after t split here started
    rw [holeRun_tail_live_iff here started]
    intro alloc member
    obtain ⟨requested, nonzero⟩ := live_requested before after t split here alloc member
    exact large alloc.size requested nonzero

/-- One request that leaves no rest. -/
theorem holeRun_tail_iff_whole :
    ∃ s, Runs HoleStep (start fun _ => 0) [.kmalloc 0xFFFFE0] s ∧
      ∀ before after t, [.kmalloc 0xFFFFE0] = before ++ after →
        Runs HoleStep (start fun _ => 0) before t → t.heap.heapStart ≠ 0 →
          ∃ list, Tail t.heap list := by
  have once : (call 2 (start fun _ => 0) (.kmalloc 0xFFFFE0)).isSome = true := by decide +kernel
  obtain ⟨s, first⟩ := Option.isSome_iff_exists.mp once
  have run : Runs HoleStep (start fun _ => 0) [.kmalloc 0xFFFFE0] s :=
    Runs.next (holeStep_fresh first (by decide) (by decide)) (Runs.done s)
  refine ⟨s, run, (holeRun_tail_iff (fun _ => 0) _ s run).mpr ?_⟩
  intro size member _
  cases List.mem_singleton.mp member
  decide

/-- A request for 64 bytes splits the only block, and heap_end stays at its first part. -/
theorem holeRun_no_tail :
    ¬∀ (memory : Mem) (ops : List Call) (s : State), Runs HoleStep (start memory) ops s →
      s.heap.heapStart ≠ 0 → ∃ list, Tail s.heap list := by
  intro claim
  have once : (call 2 (start fun _ => 0) (.kmalloc 64)).map (fun s => (s.heap.heapStart, s.live)) =
      some (KERNEL_HEAP_START, [⟨KERNEL_HEAP_START + sizeofMemBlock, 64⟩]) := by decide +kernel
  obtain ⟨s, first, same⟩ := Option.map_eq_some_iff.mp once
  obtain ⟨begins, live⟩ := Prod.mk.inj same
  have run : Runs HoleStep (start fun _ => 0) [.kmalloc 64] s :=
    Runs.next (holeStep_fresh first (by decide) (by decide)) (Runs.done s)
  have started : s.heap.heapStart ≠ 0 := by
    rw [begins]
    decide
  have large := (holeRun_tail_live_iff run started).mp (claim _ _ s run started)
  rw [live] at large
  exact absurd (large _ List.mem_cons_self) (by decide)

end Vaelen.Kernel.KmallocTail
