import Vaelen.Kernel.KmallocKept

/-!
The words kmalloc and kfree store, in the order in which they store them. On the hole path
every one lies in a header of the block list or in the payload of a free block.
-/

namespace Vaelen.Kernel.KmallocStores
open Vaelen.Base Platform Kmalloc KmallocBlocks KmallocTiling KmallocRuns KmallocKept

/-- The memory and the addresses of the words stored so far, the latest first. -/
structure Trace where
  mem : Mem
  stores : List Word

namespace Trace

def store (trace : Trace) (address value : Word) : Trace :=
  { mem := store32 trace.mem address value, stores := address :: trace.stores }

def setSize (trace : Trace) (block value : Word) : Trace := trace.store block value
def setNext (trace : Trace) (block value : Word) : Trace := trace.store (block + 4) value
def setPrev (trace : Trace) (block value : Word) : Trace := trace.store (block + 8) value
def setFree (trace : Trace) (block value : Word) : Trace := trace.store (block + 12) value

/-- A store through a pointer that may be null. -/
def relink (trace : Trace) (block value : Word) : Trace :=
  if block ≠ 0 then trace.setPrev block value else trace

def storePhys (trace : Trace) (phys value : Word) : Trace :=
  if phys ≠ 0 then trace.store phys value else trace

abbrev header (trace : Trace) (block : Word) : MemBlock := memBlock trace.mem block

def initBlock (trace : Trace) : Trace :=
  let trace := trace.setSize KERNEL_HEAP_START (KERNEL_HEAP_SIZE - sizeofMemBlock)
  let trace := trace.setFree KERNEL_HEAP_START 1
  let trace := trace.setNext KERNEL_HEAP_START 0
  trace.setPrev KERNEL_HEAP_START 0

def placedBlock (trace : Trace) (size phys oldPlacement heapEnd : Word) : Trace :=
  let trace := trace.setSize oldPlacement size
  let trace := trace.setFree oldPlacement 0
  let trace := trace.setNext oldPlacement 0
  let trace := trace.setPrev oldPlacement heapEnd
  let trace := if heapEnd ≠ 0 then trace.setNext heapEnd oldPlacement else trace
  trace.storePhys phys (oldPlacement + sizeofMemBlock)

def splitHole (trace : Trace) (hole size : Word) : Trace :=
  let remaining := (trace.header hole).size - size - sizeofMemBlock
  let newBlock := hole + sizeofMemBlock + size
  let trace := trace.setSize newBlock remaining
  let trace := trace.setFree newBlock 1
  let trace := trace.setNext newBlock (trace.header hole).next
  let trace := trace.setPrev newBlock hole
  let trace := trace.relink (trace.header hole).next newBlock
  let trace := trace.setNext hole newBlock
  trace.setSize hole size

def usedHole (trace : Trace) (size phys hole : Word) : Trace :=
  let trace := if size + sizeofMemBlock + 8 ≤ (trace.header hole).size then
    trace.splitHole hole size else trace
  let trace := trace.setFree hole 0
  trace.storePhys phys (hole + sizeofMemBlock)

def mergeBackward (trace : Trace) (block : Word) : Trace × Word :=
  let prev := (trace.header block).prev
  if prev ≠ 0 ∧ (trace.header prev).free ≠ 0 then
    let trace := trace.setSize prev
      ((trace.header prev).size + ((trace.header block).size + sizeofMemBlock))
    let trace := trace.setNext (trace.header block).prev (trace.header block).next
    let trace := trace.relink (trace.header block).next (trace.header block).prev
    (trace, (trace.header block).prev)
  else (trace, block)

def mergeForward (trace : Trace) (block : Word) : Trace :=
  let next := (trace.header block).next
  if next ≠ 0 ∧ (trace.header next).free ≠ 0 then
    let trace := trace.setSize block
      ((trace.header block).size + ((trace.header next).size + sizeofMemBlock))
    let trace := trace.setNext block (trace.header (trace.header block).next).next
    trace.relink (trace.header block).next block
  else trace

def freedBlock (trace : Trace) (block : Word) : Trace :=
  let trace := trace.setFree block 1
  let (trace, block) := trace.mergeBackward block
  trace.mergeForward block

/-! Without their stores the traces are the memories of the functions themselves. -/

section mem
variable (trace : Trace) (block value : Word)

@[simp] theorem setSize_mem :
    (trace.setSize block value).mem = Kmalloc.setSize trace.mem block value := rfl
@[simp] theorem setNext_mem :
    (trace.setNext block value).mem = Kmalloc.setNext trace.mem block value := rfl
@[simp] theorem setPrev_mem :
    (trace.setPrev block value).mem = Kmalloc.setPrev trace.mem block value := rfl
@[simp] theorem setFree_mem :
    (trace.setFree block value).mem = Kmalloc.setFree trace.mem block value := rfl

@[simp] theorem relink_mem : (trace.relink block value).mem =
    if block ≠ 0 then Kmalloc.setPrev trace.mem block value else trace.mem :=
  apply_ite Trace.mem _ _ _

@[simp] theorem storePhys_mem (phys : Word) :
    (trace.storePhys phys value).mem = Kmalloc.storePhys trace.mem phys value :=
  apply_ite Trace.mem _ _ _

@[simp] theorem splitHole_mem (hole size : Word) :
    (trace.splitHole hole size).mem = Kmalloc.splitHole trace.mem hole size := by
  simp only [splitHole, setSize_mem, setFree_mem, setNext_mem, setPrev_mem, relink_mem]
  rfl

theorem usedHole_mem (size phys hole : Word) (heap : Heap) (same : heap.mem = trace.mem) :
    (trace.usedHole size phys hole).mem = (takeHole size phys hole heap).2.mem := by
  unfold usedHole takeHole
  rw [same]
  by_cases split : size + sizeofMemBlock + 8 ≤ (memBlock trace.mem hole).size
  · simp only [if_pos split, storePhys_mem, setFree_mem, splitHole_mem]
  · simp only [if_neg split, storePhys_mem, setFree_mem]

theorem mergeBackward_mem :
    (trace.mergeBackward block).1.mem = (Kmalloc.mergeBackward trace.mem block).1 ∧
      (trace.mergeBackward block).2 = (Kmalloc.mergeBackward trace.mem block).2 := by
  unfold mergeBackward Kmalloc.mergeBackward
  by_cases joins : (memBlock trace.mem block).prev ≠ 0 ∧
      (memBlock trace.mem (memBlock trace.mem block).prev).free ≠ 0
  · simp only [if_pos joins, header, relink_mem, setSize_mem, setNext_mem, and_self]
  · simp only [if_neg joins, and_self]

theorem mergeForward_mem :
    (trace.mergeForward block).mem = Kmalloc.mergeForward trace.mem block := by
  unfold mergeForward Kmalloc.mergeForward
  by_cases joins : (memBlock trace.mem block).next ≠ 0 ∧
      (memBlock trace.mem (memBlock trace.mem block).next).free ≠ 0
  · simp only [if_pos joins, header, relink_mem, setSize_mem, setNext_mem]
  · simp only [if_neg joins]

theorem freedBlock_mem (ptr : Word) (heap : Heap) (same : heap.mem = trace.mem)
    (present : ptr ≠ 0) : (trace.freedBlock (ptr - sizeofMemBlock)).mem = (kfree ptr heap).mem := by
  obtain ⟨merged, block⟩ := mergeBackward_mem (trace.setFree (ptr - sizeofMemBlock) 1)
    (ptr - sizeofMemBlock)
  simp only [freedBlock, kfree, if_neg present, same]
  rw [mergeForward_mem, merged, block, setFree_mem]

end mem

/-! Where a trace has stored. -/

/-- Every byte stored so far is an allowed one. -/
def Inside (allowed : Word → Prop) (trace : Trace) : Prop :=
  ∀ address ∈ trace.stores, ∀ x, Within address 4 x → allowed x

section inside
variable {allowed : Word → Prop} {trace : Trace} {block value : Word}

theorem Inside.store (inside : Inside allowed trace) {address : Word}
    (covered : ∀ x, Within address 4 x → allowed x) : Inside allowed (trace.store address value) := by
  intro other member
  rcases List.mem_cons.mp member with rfl | earlier
  · exact covered
  · exact inside other earlier

/-- A store to a field of an allowed header. -/
theorem Inside.field (inside : Inside allowed trace) (header : ∀ x, Within block 16 x → allowed x)
    (offset : Word) (field : offset.toNat + 4 ≤ 16) :
    Inside allowed (trace.store (block + offset) value) :=
  inside.store fun x covered => header x (within_sub offset field covered)

theorem Inside.setSize (inside : Inside allowed trace)
    (header : ∀ x, Within block 16 x → allowed x) : Inside allowed (trace.setSize block value) :=
  inside.store fun x covered => header x (Nat.lt_of_lt_of_le covered (by decide))

theorem Inside.setNext (inside : Inside allowed trace)
    (header : ∀ x, Within block 16 x → allowed x) : Inside allowed (trace.setNext block value) :=
  inside.field header 4 (by decide)

theorem Inside.setPrev (inside : Inside allowed trace)
    (header : ∀ x, Within block 16 x → allowed x) : Inside allowed (trace.setPrev block value) :=
  inside.field header 8 (by decide)

theorem Inside.setFree (inside : Inside allowed trace)
    (header : ∀ x, Within block 16 x → allowed x) : Inside allowed (trace.setFree block value) :=
  inside.field header 12 (by decide)

theorem Inside.relink (inside : Inside allowed trace)
    (header : block ≠ 0 → ∀ x, Within block 16 x → allowed x) :
    Inside allowed (trace.relink block value) := by
  unfold Trace.relink
  by_cases present : block ≠ 0
  · rw [if_pos present]
    exact inside.setPrev (header present)
  · rw [if_neg present]
    exact inside

theorem Inside.initBlock (inside : Inside allowed trace)
    (header : ∀ x, Within KERNEL_HEAP_START 16 x → allowed x) : Inside allowed trace.initBlock :=
  (((inside.setSize header).setFree header).setNext header).setPrev header

theorem Inside.splitHole {hole size : Word} (inside : Inside allowed trace)
    (inner : Spaced (hole + sizeofMemBlock + size) hole)
    (atHole : ∀ x, Within hole 16 x → allowed x)
    (atRest : ∀ x, Within (hole + sizeofMemBlock + size) 16 x → allowed x)
    (atNext : (memBlock trace.mem hole).next ≠ 0 →
      ∀ x, Within (memBlock trace.mem hole).next 16 x → allowed x) :
    Inside allowed (trace.splitHole hole size) := by
  unfold Trace.splitHole
  simp only [header, setSize_mem, setFree_mem, setNext_mem, setPrev_mem,
    memBlock_setSize_spaced inner, memBlock_setFree_spaced inner, memBlock_setNext_spaced inner,
    memBlock_setPrev_spaced inner]
  apply Inside.setSize _ atHole
  apply Inside.setNext _ atHole
  apply Inside.relink _ atNext
  exact (((inside.setSize atRest).setFree atRest).setNext atRest).setPrev atRest

theorem Inside.mergeBackward (inside : Inside allowed trace)
    (before : (memBlock trace.mem block).prev ≠ 0 → Spaced (memBlock trace.mem block).prev block)
    (atPrev : (memBlock trace.mem block).prev ≠ 0 →
      ∀ x, Within (memBlock trace.mem block).prev 16 x → allowed x)
    (atNext : (memBlock trace.mem block).next ≠ 0 →
      ∀ x, Within (memBlock trace.mem block).next 16 x → allowed x) :
    Inside allowed (trace.mergeBackward block).1 := by
  unfold Trace.mergeBackward
  by_cases joins : (memBlock trace.mem block).prev ≠ 0 ∧
      (memBlock trace.mem (memBlock trace.mem block).prev).free ≠ 0
  · simp only [if_pos joins, header, setSize_mem, setNext_mem,
      memBlock_setSize_spaced (before joins.1), memBlock_setNext_spaced (before joins.1)]
    exact ((inside.setSize (atPrev joins.1)).setNext (atPrev joins.1)).relink atNext
  · simp only [if_neg joins]
    exact inside

theorem Inside.mergeForward (inside : Inside allowed trace)
    (after : (memBlock trace.mem block).next ≠ 0 → Spaced block (memBlock trace.mem block).next)
    (atBlock : ∀ x, Within block 16 x → allowed x)
    (atSecond : (memBlock trace.mem block).next ≠ 0 →
      (memBlock trace.mem (memBlock trace.mem block).next).next ≠ 0 →
        ∀ x, Within (memBlock trace.mem (memBlock trace.mem block).next).next 16 x → allowed x) :
    Inside allowed (trace.mergeForward block) := by
  unfold Trace.mergeForward
  by_cases joins : (memBlock trace.mem block).next ≠ 0 ∧
      (memBlock trace.mem (memBlock trace.mem block).next).free ≠ 0
  · simp only [if_pos joins, header, setSize_mem, setNext_mem, memBlock_setSize, memBlock_setNext,
      memBlock_setSize_spaced (after joins.1)]
    exact ((inside.setSize atBlock).setNext atBlock).relink (atSecond joins.1)
  · simp only [if_neg joins]
    exact inside

end inside

end Trace

/-! kmalloc and kfree with the words they store. -/

def initHeapTrace (heap : Heap) : Trace :=
  let trace : Trace := { mem := heap.mem, stores := [] }
  if heap.heapStart = 0 then trace.initBlock else trace

def placeBlockTrace (size phys : Word) (heap : Heap) (trace : Trace) :
    Except Stop (Word × Heap × List Word) :=
  let oldPlacement := heap.heapPlacement
  let placement := oldPlacement + (size + sizeofMemBlock)
  if KERNEL_HEAP_START + KERNEL_HEAP_SIZE < placement then
    kernelPanic "Kernel heap exhausted"
  else
    let trace := trace.placedBlock size phys oldPlacement heap.heapEnd
    .ok (oldPlacement + sizeofMemBlock,
      { heap with mem := trace.mem, heapEnd := oldPlacement, heapPlacement := placement },
      trace.stores)

/-- initHeap sets the static variables; its stores are those of the trace. -/
def kmallocApTrace (fuel : Nat) (size phys : Word) (heap : Heap) :
    Except Stop (Word × Heap × List Word) :=
  let trace := initHeapTrace heap
  let heap := { initHeap heap with mem := trace.mem }
  if size = 0 then .ok (0, heap, trace.stores)
  else
    match mmFindSmallestHole heap.mem (size + sizeofMemBlock) fuel heap.heapStart with
    | none => .error .running
    | some none => placeBlockTrace size phys heap trace
    | some (some hole) =>
        let trace := trace.usedHole size phys hole
        .ok (hole + sizeofMemBlock, { heap with mem := trace.mem }, trace.stores)

def kfreeTrace (ptr : Word) (heap : Heap) : Heap × List Word :=
  if ptr = 0 then (heap, [])
  else
    let trace := Trace.freedBlock { mem := heap.mem, stores := [] } (ptr - sizeofMemBlock)
    ({ heap with mem := trace.mem }, trace.stores)

def callTrace (fuel : Nat) (s : State) : Call → Option (State × List Word)
  | .kmalloc size =>
      match kmallocApTrace fuel size 0 s.heap with
      | .ok (ptr, heap, stores) =>
          some ({ heap := heap, live := if ptr = 0 then s.live else ⟨ptr, size⟩ :: s.live }, stores)
      | .error _ => none
  | .kfree ptr =>
      if ∃ alloc ∈ s.live, alloc.ptr = ptr then
        let (heap, stores) := kfreeTrace ptr s.heap
        some ({ heap := heap, live := s.live.eraseP fun alloc => alloc.ptr = ptr }, stores)
      else none

/-- An outcome without its stores. -/
def forget : Except Stop (Word × Heap × List Word) → Except Stop (Word × Heap)
  | .ok (ptr, heap, _) => .ok (ptr, heap)
  | .error stop => .error stop

theorem initHeapTrace_mem (heap : Heap) : (initHeapTrace heap).mem = (initHeap heap).mem := by
  unfold initHeapTrace initHeap
  by_cases fresh : heap.heapStart = 0
  · rw [if_pos fresh, if_pos fresh]
    rfl
  · rw [if_neg fresh, if_neg fresh]

theorem forget_placeBlockTrace (size phys : Word) (heap : Heap) (trace : Trace)
    (same : trace.mem = heap.mem) :
    forget (placeBlockTrace size phys heap trace) = placeBlock size phys heap := by
  unfold placeBlockTrace placeBlock
  by_cases full :
      KERNEL_HEAP_START + KERNEL_HEAP_SIZE < heap.heapPlacement + (size + sizeofMemBlock)
  · simp only [if_pos full]
    rfl
  · simp only [if_neg full, forget, Trace.placedBlock, Trace.storePhys_mem, apply_ite Trace.mem,
      Trace.setNext_mem, Trace.setPrev_mem, Trace.setFree_mem, Trace.setSize_mem, same]

theorem forget_kmallocApTrace (fuel : Nat) (size phys : Word) (heap : Heap) :
    forget (kmallocApTrace fuel size phys heap) = kmallocAp fuel size phys heap := by
  have mem := initHeapTrace_mem heap
  unfold kmallocApTrace kmallocAp
  simp only [mem]
  by_cases zero : size = 0
  · simp only [if_pos zero, forget]
  · simp only [if_neg zero]
    cases mmFindSmallestHole (initHeap heap).mem (size + sizeofMemBlock) fuel
        (initHeap heap).heapStart with
    | none => rfl
    | some found =>
      cases found with
      | none => exact forget_placeBlockTrace size phys (initHeap heap) _ mem
      | some hole =>
        simp only [forget, (initHeapTrace heap).usedHole_mem size phys hole (initHeap heap) mem.symm]
        rfl

theorem kfreeTrace_heap (ptr : Word) (heap : Heap) : (kfreeTrace ptr heap).1 = kfree ptr heap := by
  unfold kfreeTrace
  by_cases null : ptr = 0
  · rw [if_pos null, kfree, if_pos null]
  · have mem := Trace.freedBlock_mem { mem := heap.mem, stores := [] } ptr heap rfl null
    rw [if_neg null]
    simp only [mem]
    rw [kfree, if_neg null]

/-- The traced calls are the calls. -/
theorem callTrace_call (fuel : Nat) (s : State) (op : Call) :
    (callTrace fuel s op).map Prod.fst = call fuel s op := by
  cases op with
  | kmalloc size =>
    have same := forget_kmallocApTrace fuel size 0 s.heap
    simp only [callTrace, call, kmalloc, kmallocP, ← same]
    cases kmallocApTrace fuel size 0 s.heap with
    | error stop => rfl
    | ok result => rfl
  | kfree ptr =>
    simp only [callTrace, call]
    by_cases held : ∃ alloc ∈ s.live, alloc.ptr = ptr
    · rw [if_pos held, if_pos held]
      simp only [Option.map_some, kfreeTrace_heap]
    · rw [if_neg held, if_neg held]
      rfl

/-! The stores of one call. -/

variable {blocks before after : List Block} {block hole : Block} {size : Word}

/-- A byte of a header, or of the payload of a free block. -/
def Writable (blocks : List Block) (x : Word) : Prop :=
  (∃ block ∈ blocks, Within block.addr 16 x) ∨
    ∃ block ∈ blocks, block.free = true ∧ Within (block.addr + sizeofMemBlock) block.size.toNat x

theorem writable_header (member : block ∈ blocks) :
    ∀ x, Within block.addr 16 x → Writable blocks x :=
  fun _ inside => Or.inl ⟨block, member, inside⟩

theorem writable_free {memory : Mem} (layout : Layout memory blocks) (member : block ∈ blocks)
    (free : block.free = true) :
    ∀ x, Within block.addr (16 + block.size.toNat) x → Writable blocks x := by
  intro x inside
  have bound := layout.bounds member
  by_cases header : Within block.addr 16 x
  · exact Or.inl ⟨block, member, header⟩
  · right
    refine ⟨block, member, free, ?_⟩
    unfold Within at *
    bv_omega

theorem writable_not_kept (x : Word) (writable : Writable blocks x) : ¬Kept blocks x := by
  intro kept
  rcases writable with ⟨block, member, inside⟩ | ⟨block, member, free, inside⟩
  · exact kept.header member inside
  · apply kept block member
    rw [reserved_free free]
    unfold Within at *
    bv_omega

theorem writable_outside {x : Word} (outside : ¬OutsideHeaders blocks x) : Writable blocks x := by
  by_contra unwritable
  apply outside
  intro block member inside
  exact unwritable (writable_header member x inside)

theorem prev_listed {memory : Mem} (layout : Layout memory (before ++ block :: after))
    (present : (memBlock memory block.addr).prev ≠ 0) :
    ∃ prev ∈ before, (memBlock memory block.addr).prev = prev.addr := by
  rw [layout.prev_eq] at present ⊢
  rcases List.eq_nil_or_concat before with empty | ⟨kept, prev, split⟩
  · subst empty
    exact absurd rfl present
  · rw [List.concat_eq_append] at split
    subst split
    refine ⟨prev, by simp, ?_⟩
    rw [lastKey_append]
    rfl

/-- The stores of a served request. -/
theorem usedHole_inside {memory : Mem} {stores : List Word}
    (layout : Layout memory (before ++ hole :: after)) (free : hole.free = true)
    (room : size.toNat + 16 ≤ hole.size.toNat)
    (earlier : Trace.Inside (Writable (before ++ hole :: after)) ⟨memory, stores⟩) :
    Trace.Inside (Writable (before ++ hole :: after))
      (Trace.usedHole ⟨memory, stores⟩ size 0 hole.addr) := by
  have bound := layout.inside
  have member : hole ∈ before ++ hole :: after := List.mem_append_right _ List.mem_cons_self
  simp only [Trace.usedHole, Trace.storePhys, Trace.header, ne_eq, not_true_eq_false, if_false,
    layout.size_eq]
  apply Trace.Inside.setFree _ (writable_header member)
  by_cases split : size + sizeofMemBlock + 8 ≤ hole.size
  · rw [if_pos split]
    have larger := (layout.splits_iff room).mp split
    have restStart := layout.rest_start room
    apply earlier.splitHole
    · exact (spaced_of_le (by omega) (by omega)).symm
    · exact writable_header member
    · intro x inside
      apply writable_free layout member free
      exact within_rest (by omega) (by omega) inside
    · intro present
      obtain ⟨next, later, same⟩ := layout.next_listed present
      rw [same]
      exact writable_header (List.mem_append_right _ (List.mem_cons_of_mem _ later))
  · rw [if_neg split]
    exact earlier

theorem second_listed {memory : Mem} (layout : Layout memory (before ++ block :: after))
    (present : (memBlock memory block.addr).next ≠ 0)
    (more : (memBlock memory (memBlock memory block.addr).next).next ≠ 0) :
    ∃ other ∈ after, (memBlock memory (memBlock memory block.addr).next).next = other.addr := by
  have nextEq := layout.next_eq
  cases after with
  | nil => exact absurd nextEq present
  | cons next rest =>
    have here : (memBlock memory block.addr).next = next.addr := nextEq
    have around : Layout memory ((before ++ [block]) ++ next :: rest) := by simpa using layout
    rw [here] at more ⊢
    obtain ⟨other, later, same⟩ := around.next_listed more
    exact ⟨other, List.mem_cons_of_mem next later, same⟩

section merges
variable {allowed : Word → Prop} {trace : Trace}

theorem mergeBackward_inside (layout : Layout trace.mem (before ++ block :: after))
    (headers : ∀ other ∈ before ++ block :: after, ∀ x, Within other.addr 16 x → allowed x)
    (inside : Trace.Inside allowed trace) :
    Trace.Inside allowed (trace.mergeBackward block.addr).1 := by
  apply inside.mergeBackward
  · intro present
    obtain ⟨prev, earlier, link⟩ := prev_listed layout present
    rw [link]
    exact (layout.spaced_before earlier).symm
  · intro present
    obtain ⟨prev, earlier, link⟩ := prev_listed layout present
    rw [link]
    exact headers prev (List.mem_append_left _ earlier)
  · intro present
    obtain ⟨next, later, link⟩ := layout.next_listed present
    rw [link]
    exact headers next (List.mem_append_right _ (List.mem_cons_of_mem _ later))

theorem mergeForward_inside (layout : Layout trace.mem (before ++ block :: after))
    (headers : ∀ other ∈ before ++ block :: after, ∀ x, Within other.addr 16 x → allowed x)
    (inside : Trace.Inside allowed trace) :
    Trace.Inside allowed (trace.mergeForward block.addr) := by
  apply inside.mergeForward layout.next_spaced
  · exact headers block (List.mem_append_right _ List.mem_cons_self)
  · intro present more
    obtain ⟨other, later, link⟩ := second_listed layout present more
    rw [link]
    exact headers other (List.mem_append_right _ (List.mem_cons_of_mem _ later))

end merges

/-- The stores of a release. -/
theorem freedBlock_inside {memory : Mem} (layout : Layout memory (before ++ block :: after)) :
    Trace.Inside (Writable (before ++ block :: after))
      (Trace.freedBlock ⟨memory, []⟩ block.addr) := by
  let freed : Block := { block with free := true }
  let flagged : Trace := Trace.setFree ⟨memory, []⟩ block.addr 1
  have start : Layout flagged.mem (before ++ freed :: after) := layout.setFree true
  have same : ∀ x, OutsideHeaders (before ++ block :: after) x →
      OutsideHeaders (before ++ freed :: after) x := by
    intro x outside
    apply outside.subset
    rw [List.map_append, List.map_append]
    exact List.Subset.refl _
  have headers : ∀ other ∈ before ++ freed :: after, ∀ x, Within other.addr 16 x →
      Writable (before ++ block :: after) x := fun other member x inside =>
    writable_outside fun outside => same x outside other member inside
  -- Merging leaves no header that was not one before.
  have merged : ∀ other ∈ (absorbBefore before freed).1 ++ (absorbBefore before freed).2 :: after,
      ∀ x, Within other.addr 16 x → Writable (before ++ block :: after) x :=
    fun other member x inside =>
      writable_outside fun outside => (same x outside).absorbBefore other member inside
  have first : Trace.Inside (Writable (before ++ block :: after)) flagged := by
    apply Trace.Inside.setFree _ (headers freed (List.mem_append_right _ List.mem_cons_self))
    intro address none
    exact absurd none List.not_mem_nil
  obtain ⟨mem, target⟩ := flagged.mergeBackward_mem block.addr
  obtain ⟨addr, joined⟩ := start.mergeBackward
  have second := mergeBackward_inside start headers first
  have next : Layout (flagged.mergeBackward block.addr).1.mem
      ((absorbBefore before freed).1 ++ (absorbBefore before freed).2 :: after) := by
    rw [mem]
    exact joined
  have third := mergeForward_inside next merged second
  rw [← addr] at third
  unfold Trace.freedBlock
  dsimp only
  rw [target]
  exact third

theorem initHeapTrace_inside {heap : Heap} (tiling : Tiling (initHeap heap) blocks) :
    Trace.Inside (Writable blocks) (initHeapTrace heap) := by
  obtain ⟨first, rest, split, addr⟩ := tiling.head
  have start : Trace.Inside (Writable blocks) ⟨heap.mem, []⟩ := by
    intro address none
    exact absurd none List.not_mem_nil
  unfold initHeapTrace
  by_cases fresh : heap.heapStart = 0
  · rw [if_pos fresh]
    apply start.initBlock
    rw [← addr]
    exact writable_header (split ▸ List.mem_cons_self)
  · rw [if_neg fresh]
    exact start

/-- A request of the hole path. -/
theorem kmallocApTrace_inside {fuel : Nat} {heap next : Heap} {ptr : Word} {stores : List Word}
    (tiling : Tiling (initHeap heap) blocks)
    (path : size ≠ 0 → size.toNat < 2 ^ 32 - 16 ∧ FindsHole heap size)
    (returned : kmallocApTrace fuel size 0 heap = .ok (ptr, next, stores)) :
    ∀ address ∈ stores, ∀ x, Within address 4 x → Writable blocks x := by
  have started := initHeapTrace_inside tiling
  have mem := initHeapTrace_mem heap
  simp only [kmallocApTrace, mem] at returned
  by_cases zero : size = 0
  · simp only [if_pos zero, Except.ok.injEq, Prod.mk.injEq] at returned
    exact returned.2.2 ▸ started
  · simp only [if_neg zero] at returned
    obtain ⟨small, found⟩ := path zero
    obtain ⟨hole, first⟩ := (findsHole_iff tiling size).mp found
    obtain ⟨before, after, split, free, large⟩ := find_split first
    have room : size.toNat + 16 ≤ hole.size.toNat := by bv_omega
    cases hit : mmFindSmallestHole (initHeap heap).mem (size + sizeofMemBlock) fuel
        (initHeap heap).heapStart with
    | none =>
      rw [hit] at returned
      exact absurd returned (by simp)
    | some result =>
      have same := tiling.search hit
      rw [first, Option.map_some] at same
      subst same
      subst split
      simp only [hit, Except.ok.injEq, Prod.mk.injEq] at returned
      have layout : Layout (initHeapTrace heap).mem (before ++ hole :: after) := by
        rw [mem]
        exact tiling.layout
      rw [← returned.2.2]
      exact usedHole_inside layout free room started

theorem kmallocApTrace_same {fuel : Nat} {heap next : Heap} {ptr x : Word} {stores : List Word}
    (tiling : Tiling (initHeap heap) blocks)
    (path : size ≠ 0 → size.toNat < 2 ^ 32 - 16 ∧ FindsHole heap size)
    (returned : kmallocApTrace fuel size 0 heap = .ok (ptr, next, stores))
    (kept : Kept blocks x) : next.mem x = heap.mem x := by
  have untraced : kmalloc fuel size heap = .ok (ptr, next) := by
    have same := forget_kmallocApTrace fuel size 0 heap
    rw [returned] at same
    exact same.symm
  by_cases zero : size = 0
  · subst zero
    rw [(kmalloc_zero untraced).2]
    exact initHeap_same tiling kept
  · obtain ⟨small, found⟩ := path zero
    obtain ⟨hole, first⟩ := (findsHole_iff tiling size).mp found
    obtain ⟨before, after, split, free, large⟩ := find_split first
    subst split
    rw [(kmalloc_served tiling zero first untraced).2,
      takeHole_same tiling.layout free (by bv_omega) kept]
    exact initHeap_same tiling kept

/-- What one call of the hole path stores, in terms of the blocks before it. -/
theorem callTrace_kept {fuel : Nat} {s t : State} {op : Call} {stores : List Word}
    (represented : Represented s) (returned : callTrace fuel s op = some (t, stores))
    (path : ∀ size, op = .kmalloc size → size ≠ 0 →
      size.toNat < 2 ^ 32 - 16 ∧ FindsHole s.heap size) :
    ∃ blocks, Tiling (initHeap s.heap) blocks ∧ Backed blocks s.live ∧
      (∀ address ∈ stores, ∀ x, Within address 4 x → Writable blocks x) ∧
      ∀ x, Kept blocks x → t.heap.mem x = s.heap.mem x := by
  cases op with
  | kmalloc size =>
    obtain ⟨blocks, tiling, backed⟩ := represented.initHeap
    simp only [callTrace] at returned
    cases outcome : kmallocApTrace fuel size 0 s.heap with
    | error stop =>
      rw [outcome] at returned
      exact absurd returned (by simp)
    | ok result =>
      obtain ⟨ptr, heap, log⟩ := result
      simp only [outcome, Option.some.injEq, Prod.mk.injEq] at returned
      obtain ⟨rfl, rfl⟩ := returned
      have found := path size rfl
      exact ⟨blocks, tiling, backed, kmallocApTrace_inside tiling found outcome,
        fun x => kmallocApTrace_same tiling found outcome⟩
  | kfree ptr =>
    simp only [callTrace] at returned
    by_cases held : ∃ alloc ∈ s.live, alloc.ptr = ptr
    · simp only [if_pos held, Option.some.injEq, Prod.mk.injEq] at returned
      obtain ⟨alloc, member, rfl⟩ := held
      rcases represented with ⟨_, empty⟩ | ⟨blocks, tiling, backed⟩
      · rw [empty] at member
        exact absurd member List.not_mem_nil
      · obtain ⟨block, inside, used, addr, _⟩ := backed.block alloc member
        obtain ⟨before, after, split⟩ := List.append_of_mem inside
        subst split
        have bound := tiling.layout.inside
        have present : alloc.ptr ≠ 0 := by
          rw [addr]
          bv_omega
        have back : alloc.ptr - sizeofMemBlock = block.addr := by
          rw [addr]
          exact BitVec.add_sub_cancel _ _
        refine ⟨_, (initHeap_tiled tiling).symm ▸ tiling, backed, ?_, ?_⟩
        · rw [← returned.2, kfreeTrace, if_neg present, back]
          exact freedBlock_inside tiling.layout
        · intro x kept
          rw [← returned.1]
          change (kfreeTrace alloc.ptr s.heap).1.mem x = _
          rw [kfreeTrace_heap, addr]
          exact kfree_same tiling.layout kept.outsideHeaders
    · rw [if_neg held] at returned
      exact absurd returned (by simp)

/-- The size in the header of an allocation. -/
def recordedSize (heap : Heap) (ptr : Word) : Word := (memBlock heap.mem (ptr - sizeofMemBlock)).size

theorem recordedSize_eq {s : State} {alloc : Alloc} (tiling : Tiling (initHeap s.heap) blocks)
    (backed : Backed blocks s.live) (represented : Represented s) (member : alloc ∈ s.live) :
    ∃ block ∈ blocks, block.free = false ∧ alloc.ptr = block.addr + sizeofMemBlock ∧
      recordedSize s.heap alloc.ptr = block.size := by
  have started : initHeap s.heap = s.heap := by
    rcases represented with ⟨_, empty⟩ | ⟨_, tiled, _⟩
    · rw [empty] at member
      exact absurd member List.not_mem_nil
    · exact initHeap_tiled tiled
  rw [started] at tiling
  obtain ⟨block, inside, used, addr, _⟩ := backed.block alloc member
  obtain ⟨before, after, split⟩ := List.append_of_mem inside
  subst split
  have back : alloc.ptr - sizeofMemBlock = block.addr := by
    rw [addr]
    exact BitVec.add_sub_cancel _ _
  refine ⟨block, inside, used, addr, ?_⟩
  rw [recordedSize, back, tiling.layout.size_eq]

/-- After any run of the hole path a further call of it stores to headers of the list and to
payloads of its free blocks only, and writes no byte of a live allocation. -/
theorem run_stores (memory : Mem) (ops : List Call) (s : State)
    (run : Runs HoleStep (start memory) ops s) (fuel : Nat) (op : Call) (t : State)
    (stores : List Word) (returned : callTrace fuel s op = some (t, stores))
    (path : ∀ size, op = .kmalloc size → size ≠ 0 →
      size.toNat < 2 ^ 32 - 16 ∧ FindsHole s.heap size) :
    ∃ blocks, Tiling (initHeap s.heap) blocks ∧ Backed blocks s.live ∧
      (∀ address ∈ stores, ∀ x, Within address 4 x → Writable blocks x) ∧
      ∀ alloc ∈ s.live, ∀ x, Within alloc.ptr (recordedSize s.heap alloc.ptr).toNat x →
        (∀ address ∈ stores, ¬Within address 4 x) ∧ t.heap.mem x = s.heap.mem x := by
  have represented := holeRun_represented run
  obtain ⟨blocks, tiling, backed, inside, same⟩ := callTrace_kept represented returned path
  refine ⟨blocks, tiling, backed, inside, fun alloc member x payload => ?_⟩
  obtain ⟨block, listed, used, addr, recorded⟩ :=
    recordedSize_eq tiling backed represented member
  rw [recorded, addr] at payload
  have kept := used_kept tiling.layout listed used payload
  refine ⟨fun address stored covered => ?_, same x kept⟩
  exact writable_not_kept x (inside address stored x covered) kept

/-- A request for 32 bytes after one for 64: the split writes the headers of the hole and of its
rest. -/
theorem run_stores_two :
    ∃ s t, Runs HoleStep (start fun _ => 0) [.kmalloc 64] s ∧
      callTrace 3 s (.kmalloc 32) = some (t, [0xD000005C, 0xD0000050, 0xD0000054, 0xD0000088,
        0xD0000084, 0xD000008C, 0xD0000080]) ∧
      ⟨0xD0000010, 64⟩ ∈ s.live ∧
      ∀ x, Within 0xD0000010 (recordedSize s.heap 0xD0000010).toNat x →
        t.heap.mem x = s.heap.mem x := by
  have facts : ((call 2 (start fun _ => 0) (.kmalloc 64)).bind fun s =>
      (callTrace 3 s (.kmalloc 32)).map fun result => (s.live, result.2,
        mmFindSmallestHole (initHeap s.heap).mem (32 + sizeofMemBlock) 3
          (initHeap s.heap).heapStart)) =
      some ([⟨0xD0000010, 64⟩], [0xD000005C, 0xD0000050, 0xD0000054, 0xD0000088, 0xD0000084,
        0xD000008C, 0xD0000080], some (some 0xD0000050)) := by decide +kernel
  obtain ⟨s, first, rest⟩ := Option.bind_eq_some_iff.mp facts
  obtain ⟨⟨t, stores⟩, second, same⟩ := Option.map_eq_some_iff.mp rest
  simp only [Prod.mk.injEq] at same
  obtain ⟨live, log, hole⟩ := same
  have run : Runs HoleStep (start fun _ => 0) [.kmalloc 64] s :=
    Runs.next (holeStep_fresh first (by decide) (by decide)) (Runs.done s)
  have member : ⟨0xD0000010, 64⟩ ∈ s.live := by
    rw [live]
    exact List.mem_singleton.mpr rfl
  have kept := run_stores (fun _ => 0) _ s run 3 (.kmalloc 32) t stores second (by
    intro size same _
    cases same
    exact ⟨by decide, 3, _, hole⟩)
  obtain ⟨blocks, _, _, _, payload⟩ := kept
  exact ⟨s, t, run, log ▸ second, member, fun x inside => (payload _ member x inside).2⟩

end Vaelen.Kernel.KmallocStores
