import Vaelen.Kernel.KmallocKept
import Vaelen.Kernel.KmallocRequests
import Vaelen.Kernel.KmallocTermination
import Vaelen.Kernel.SchedulerRuns

/-!
task_create on a heap whose blocks are known: with room for its three blocks it spares every record
that the heap keeps, and without room for the last one it clears its own.
-/

namespace Vaelen.Kernel.SchedulerOverlap
open Vaelen.Base Platform Kmalloc KmallocBlocks KmallocTiling KmallocKept KmallocTermination Paging
open KmallocRequests (wholeHeap oneHole oneHole_tiling)
open SchedulerPasses TaskRecords SchedulerRecords TaskCreation SchedulerRuns
open Tasks (TASK_STACK_SIZE TaskState Task)

/-- The tables of a directory are all absent. -/
def Blank (memory : Mem) (dir : Word) : Prop := ∀ x, Within dir 4096 x → memory x = 0

theorem Blank.table {memory : Mem} {dir : Word} (blank : Blank memory dir) {i : Nat} (here : i < 1024) :
    load32 memory (tablesAt dir i) = 0 := by
  rw [← load32_zero (tablesAt dir i)]
  apply load32_congr
  intro x inside
  exact blank x (within_sub (BitVec.ofNat 32 (4 * i)) (by rw [BitVec.toNat_ofNat]; omega) inside)

theorem cloneTables_blank (fuel : Nat) (dir : Word) (s : Mm) (blank : Blank s.mem s.kernelDirectory)
    (tables : List Nat) (bounds : ∀ i ∈ tables, i < 1024) : tables.foldlM (cloneTable fuel dir) s = .ok s := by
  induction tables with
  | nil => rfl
  | cons i rest ih =>
    have absent : cloneTable fuel dir s i = .ok s := if_pos (blank.table (bounds i List.mem_cons_self))
    rw [List.foldlM_cons, absent]
    exact ih fun k member => bounds k (List.mem_cons_of_mem i member)

/-- Nothing is cloned from a directory without tables. -/
theorem mmCloneDirectory_blank (s : Mm) (fuel : Nat) (dir : Word) {found : Word} {next : Heap}
    (returned : kmallocAp fuel sizeofPageDirectory (physicalAddrAt dir) s.heap = .ok (found, next))
    (blank : Blank (memset next.mem found 0 8196) s.kernelDirectory) :
    mmCloneDirectory fuel dir s = .ok (found, { s with heap := { next with mem := memset next.mem found 0 8196 } }) := by
  have loop := cloneTables_blank fuel found { s with heap := { next with mem := memset next.mem found 0 8196 } }
    blank (List.range 1024) fun i member => List.mem_range.mp member
  rw [mmCloneDirectory, returned, ok_bind]
  change ((List.range 1024).foldlM (cloneTable fuel found) _ >>= fun s => .ok (found, s)) = _
  exact congrArg (fun result => result >>= fun t => Except.ok (found, t)) loop

/-! A heap where nothing has been placed at heap_placement yet. -/

structure Early (heap : Heap) (blocks : List Block) : Prop where
  tiling : Tiling heap blocks
  unplaced : Unplaced heap

section early
variable {heap : Heap} {blocks before after parts : List Block} {hole : Block} {size : Word} {fuel : Nat}

theorem Early.write {memory : Mem} (early : Early heap blocks) (same : SameOutside (Kept blocks) heap.mem memory) :
    Early { heap with mem := memory } blocks :=
  ⟨tiling_congr early.tiling same, early.unplaced.placement, early.unplaced.last⟩

theorem Early.take (fuel : Nat) (before after : List Block) (hole : Block) (size : Word) (nonzero : size ≠ 0)
    (wide : size.toNat + 16 < 2 ^ 32) (early : Early heap (before ++ hole :: after))
    (first : (before ++ hole :: after).find? (fits (size + sizeofMemBlock)) = some hole)
    (enough : (before ++ hole :: after).length < fuel) (carved : carve size hole = parts) :
    ∃ next, kmalloc fuel size heap = .ok (hole.addr + sizeofMemBlock, next) ∧
      Early next (before ++ (parts ++ after)) ∧
      ∀ x, Kept (before ++ hole :: after) x → next.mem x = heap.mem x := by
  have harmless : (0 : Word) ≠ 0 → ∀ x, Within 0 4 x → Kept (before ++ hole :: after) x :=
    fun absent => absurd rfl absent
  obtain ⟨next, returned, served⟩ :=
    kmallocAp_carve before after hole size early.tiling nonzero first wide harmless enough carved
  have opened : Tiling (initHeap heap) (before ++ hole :: after) := (initHeap_tiled early.tiling).symm ▸ early.tiling
  have taken := (KmallocRuns.kmallocAp_returned opened nonzero first returned).2
  rw [initHeap_tiled early.tiling] at taken
  have unplaced : Unplaced next := by
    rw [taken]
    exact ⟨early.unplaced.placement, early.unplaced.last⟩
  exact ⟨next, returned, ⟨served.tiling, unplaced⟩, fun x kept => served.same x kept fun absent => absurd rfl absent⟩

theorem Early.kfree (early : Early heap (before ++ hole :: after)) :
    Early (kfree (hole.addr + sizeofMemBlock) heap) (release before hole after) :=
  ⟨early.tiling.kfree, early.unplaced.kfree _⟩

/-- A request that no hole serves gets the first block of the heap. -/
theorem Early.place (early : Early heap blocks) (nonzero : size ≠ 0) (small : size ≤ 0x10000)
    (missed : blocks.find? (fits (size + sizeofMemBlock)) = none) (enough : blocks.length < fuel) :
    ∃ next, kmallocAp fuel size 0 heap = .ok (KERNEL_HEAP_START + sizeofMemBlock, next) ∧
      SameOutside (Within KERNEL_HEAP_START 16) heap.mem next.mem := by
  have found := early.tiling.search_within (size + sizeofMemBlock) enough
  rw [missed] at found
  have fitting : ¬KERNEL_HEAP_START + KERNEL_HEAP_SIZE < KERNEL_HEAP_START + (size + sizeofMemBlock) := by
    change ¬(0xD1000000 : Word) < 0xD0000000 + (size + 16)
    bv_omega
  have linked : (KERNEL_HEAP_START : Word) ≠ 0 := by decide
  have placed : kmallocAp fuel size 0 heap = placeBlock size 0 heap := by
    simp only [kmallocAp, initHeap_tiled early.tiling, if_neg nonzero, found, Option.map_none]
  rw [placed]
  unfold placeBlock
  simp only [early.unplaced.placement, early.unplaced.last early.tiling.started, if_neg fitting, if_pos linked, storePhys, ne_eq, not_true_eq_false,
    if_false, Except.ok.injEq, Prod.mk.injEq, true_and]
  refine ⟨_, rfl, fun x outside => ?_⟩
  dsimp only
  rw [setNext_outside outside, setPrev_outside outside, setNext_outside outside, setFree_outside outside,
    setSize_outside outside]

end early

/-! A heap that has room for a record and a stack, but not for a directory. -/

def gapBlocks : List Block :=
  [{ addr := KERNEL_HEAP_START, size := 172, free := true }, { addr := 0xD00000BC, size := 16768788, free := false },
    { addr := 0xD0FFDFE0, size := 8208, free := true }]

/-- Outside the heap there are zeros. -/
def Cleared (memory : Mem) : Prop := ∀ x, ¬Within KERNEL_HEAP_START KERNEL_HEAP_SIZE.toNat x → memory x = 0

theorem Cleared.blank {memory : Mem} (cleared : Cleared memory) : Blank memory 0x200000 :=
  fun x inside => cleared x (below_heap (by decide) inside)

theorem oneHole_cleared : Cleared oneHole.mem :=
  fun _ outside => initHeap_outside fun inside => outside (Nat.lt_of_lt_of_le inside (by decide))

theorem Cleared.kept {memory other : Mem} {blocks : List Block} (cleared : Cleared memory)
    (layout : Layout memory blocks) (same : ∀ x, Kept blocks x → other x = memory x) : Cleared other :=
  fun x outside => (same x (outside_kept layout outside)).trans (cleared x outside)

/-- Two requests and a release lead there. -/
theorem gap_reached : ∃ booted, Runs KmallocRuns.Step (KmallocRuns.start fun _ => 0)
      [.kmalloc 172, .kmalloc 16768788, .kfree 0xD0000010] booted ∧
    Early booted.heap gapBlocks ∧ Cleared booted.heap.mem := by
  have early : Early oneHole [wholeHeap] := ⟨oneHole_tiling, rfl, fun _ => rfl⟩
  obtain ⟨first, served, taken, same⟩ := Early.take 4 [] [] wholeHeap 172 (by decide) (by decide) early
    (by decide) (by decide) (by decide : _ = [
      ({ addr := KERNEL_HEAP_START, size := 172, free := false } : Block),
      { addr := 0xD00000BC, size := 16777012, free := true }])
  obtain ⟨second, also, left, kept⟩ := Early.take 4 [{ addr := KERNEL_HEAP_START, size := 172, free := false }] []
    { addr := 0xD00000BC, size := 16777012, free := true } 16768788 (by decide) (by decide) taken
    (by decide) (by decide) (by decide : _ = [
      ({ addr := 0xD00000BC, size := 16768788, free := false } : Block),
      { addr := 0xD0FFDFE0, size := 8208, free := true }])
  have fresh : kmalloc 4 172 (uninitialised fun _ => 0) = .ok (0xD0000010, first) :=
    (kmallocAp_initHeap 4 172 0 _).symm.trans served
  have around : Early second ([] ++ { addr := KERNEL_HEAP_START, size := 172, free := false } ::
      gapBlocks.tail) := left
  have freed : Early (kfree 0xD0000010 second) gapBlocks := around.kfree
  let one : KmallocRuns.State := ⟨first, [⟨0xD0000010, 172⟩]⟩
  let two : KmallocRuns.State := ⟨second, [⟨0xD00000CC, 16768788⟩, ⟨0xD0000010, 172⟩]⟩
  let three : KmallocRuns.State := ⟨kfree 0xD0000010 second, [⟨0xD00000CC, 16768788⟩]⟩
  have stepOne : KmallocRuns.Step (KmallocRuns.start fun _ => 0) (.kmalloc 172) one := by
    refine ⟨4, ?_⟩
    simp only [KmallocRuns.call, KmallocRuns.start, fresh]
    rfl
  have stepTwo : KmallocRuns.Step one (.kmalloc 16768788) two := by
    refine ⟨4, ?_⟩
    simp only [KmallocRuns.call, one, also]
    rfl
  have stepThree : KmallocRuns.Step two (.kfree 0xD0000010) three := by
    refine ⟨0, ?_⟩
    simp only [KmallocRuns.call, two]
    rw [if_pos ⟨⟨0xD0000010, 172⟩, by simp, rfl⟩]
    rfl
  have low := oneHole_cleared.kept early.tiling.layout same
  have lower := low.kept taken.tiling.layout kept
  refine ⟨three, Runs.next stepOne (Runs.next stepTwo (Runs.next stepThree (Runs.done three))), freed, ?_⟩
  exact lower.kept around.tiling.layout fun x inside => kfree_same around.tiling.layout inside.outsideHeaders

theorem Cleared.outside {memory other : Mem} {base : Word} {count : Nat} (cleared : Cleared memory)
    (same : SameOutside (Within base count) memory other) (low : 0xD0000000 ≤ base.toNat)
    (high : base.toNat + count ≤ 0xD1000000) : Cleared other := by
  intro x outside
  rw [same x, cleared x outside]
  intro inside
  apply outside
  unfold Within at *
  change (x - 0xD0000000).toNat < 16777216
  bv_omega

theorem ok_bind_of {α β : Type} {first : Except Stop α} {value : α} {rest : α → Except Stop β}
    (returned : first = .ok value) : first >>= rest = rest value := by
  rw [returned, ok_bind]

/-- The directory gets the block of the record, and the record is cleared with it. -/
theorem taskCreate_clears (s : System) (name entry priority : Word) (early : Early s.mm.heap gapBlocks)
    (cleared : Cleared s.mem) (placed : s.mm.kernelDirectory = 0x200000) :
    ∃ after, taskCreate 4 name entry priority 0xFFFFE000 s = .ok (0xD0000010, after) ∧
      after.taskListHead = 0xD0000010 ∧ after.currentTask = s.currentTask ∧ after.halted = s.halted ∧
      view after.mem 0xD0000010 = { Task.zero with next := s.taskListHead } := by
  let record : Block := { addr := KERNEL_HEAP_START, size := 172, free := false }
  let large : Block := { addr := 0xD00000BC, size := 16768788, free := false }
  have owned {memory : Mem} {blocks : List Block} (layout : Layout memory blocks) (member : record ∈ blocks) :
      ∀ x, Within 0xD0000010 156 x → Kept blocks x := fun x inside =>
    used_kept layout member rfl (Nat.lt_of_lt_of_le inside (by decide))
  obtain ⟨heap, first, taken, same⟩ := Early.take 4 [] _ _ sizeofTask (by decide) (by decide) early
    (by decide) (by decide) (by decide : _ = [record])
  let initialised := initRecord heap.mem 0xD0000010 s.nextPid name priority
  have inRecord : SameOutside (Within 0xD0000010 156) heap.mem initialised := initRecord_outside _ _ _ _ _
  have written : Early { heap with mem := initialised } [record, large, _] :=
    taken.write (inRecord.mono (owned taken.tiling.layout (by decide)))
  obtain ⟨heap', second, full, also⟩ := Early.take 4 [record, large] [] _ TASK_STACK_SIZE (by decide) (by decide)
    written (by decide) (by decide) (by decide : _ = [({ addr := 0xD0FFDFE0, size := 8208, free := false } : Block)])
  let stacked := setStack heap'.mem 0xD0000010 0xD0FFDFF0
  have inStack : SameOutside (Within 0xD0000010 156) heap'.mem stacked := setStack_outside _ _ _
  have prepared : Early { heap' with mem := stacked } [record, large, _] :=
    full.write (inStack.mono (owned full.tiling.layout (by decide)))
  obtain ⟨next, third, header⟩ := prepared.place (by decide : sizeofPageDirectory ≠ 0) (by decide) (by decide)
    (by decide : _ < 4)
  have low : Cleared next.mem :=
    (((((cleared.kept early.tiling.layout same).outside inRecord (by decide) (by decide)).kept
      written.tiling.layout also).outside inStack (by decide) (by decide))).outside header (by decide) (by decide)
  let wiped := memset next.mem 0xD0000010 0 8196
  have blank : Blank wiped s.mm.kernelDirectory :=
    placed ▸ (low.outside (memset_outside next.mem 0xD0000010 0 8196 (by decide)) (by decide) (by decide)).blank
  have cloned := mmCloneDirectory_blank { s.mm with heap := { heap' with mem := stacked } } 4 0xFFFFE000 third blank
  have zero : field wiped 0xD0000010 .kernelStackTop = 0 :=
    field_cleared next.mem 0xD0000010 (by decide) (by decide) .kernelStackTop
  have context : Clear [0xD0000010] (0 - 68) 68 := by
    intro task member x own inside
    rw [List.mem_singleton.mp member] at own
    unfold Within at own inside
    bv_omega
  have empty : view wiped 0xD0000010 = Task.zero := view_cleared next.mem 0xD0000010 (by decide) (by decide)
  let finished := finishRecord wiped 0xD0000010 0xD0000010 entry s.taskListHead
  have stored : view finished 0xD0000010 = { Task.zero with next := s.taskListHead } := by
    rw [view_finishRecord 0xD0000010 entry zero context, empty]
  refine ⟨_, (ok_bind_of first).trans ((ok_bind_of second).trans ((ok_bind_of cloned).trans rfl)), rfl, rfl, rfl, ?_⟩
  exact stored

/-- Both directories at 2 MiB. -/
def pagesAt (heap : Heap) : Mm :=
  { heap := heap, frames := ⟨fun _ => 0, 0, 0, 0⟩, kernelDirectory := 0x200000, currentDirectory := 0x200000 }

/-! A heap that has room for all three. -/

/-- What the three requests of task_create take. -/
def createBytes : Nat :=
  8 + (sizeofPageDirectory.toNat + 16) + (TASK_STACK_SIZE.toNat + 16) + (sizeofTask.toNat + 16)

theorem kept_clear {blocks : List Block} {list : List Word} {block : Word} {size : Nat}
    (kept : ∀ item ∈ list, ∀ x, Within item 156 x → Kept blocks x)
    (payload : ∀ x, Within block size x → ¬Kept blocks x) : Clear list block size :=
  fun item member x own inside => payload x inside (kept item member x own)

/-- Records in used blocks are spared as long as the heap has room. -/
theorem taskCreate_spares (s : System) (name entry priority : Word) (fuel : Nat) (blocks : List Block)
    (list : List Word) (tiling : Tiling s.mm.heap blocks) (room : Room blocks createBytes)
    (kept : ∀ item ∈ list, ∀ x, Within item 156 x → Kept blocks x) (cleared : Cleared s.mem)
    (placed : s.mm.kernelDirectory = 0x200000) (enough : blocks.length + 2 < fuel) :
    CreateSpares fuel name priority 0xFFFFE000 s list ∧
      ∃ task after, taskCreate fuel name entry priority 0xFFFFE000 s = .ok (task, after) := by
  have harmless {more : List Block} : (0 : Word) ≠ 0 → ∀ x, Within 0 4 x → Kept more x :=
    fun absent => absurd rfl absent
  have quiet {x : Word} : (0 : Word) ≠ 0 → ¬Within 0 4 x := fun absent => absurd rfl absent
  have fuelled : blocks.length < fuel := by omega
  obtain ⟨task, heap, rest, first, served, left⟩ :=
    kmallocAp_served tiling (by decide : sizeofTask ≠ 0) room (by decide) harmless fuelled
  have present : task ≠ 0 := by
    have low := served.low
    bv_omega
  let initialised := initRecord heap.mem task s.nextPid name priority
  have inRecord : SameOutside (Within task 156) heap.mem initialised := initRecord_outside _ _ _ _ _
  have own : ∀ x, Within task 156 x → Kept rest x := fun x inside => (served.payload x inside).1
  have written : Tiling { heap with mem := initialised } rest := tiling_congr served.tiling (inRecord.mono own)
  have kept' : ∀ item ∈ task :: list, ∀ x, Within item 156 x → Kept rest x := by
    intro item member x inside
    rcases List.mem_cons.mp member with rfl | listed
    · exact own x inside
    · exact served.kept x (kept item listed x inside)
  have length := served.length
  have fuelled' : rest.length < fuel := by omega
  obtain ⟨stack, heap', rest', second, served', left'⟩ :=
    kmallocAp_served written (by decide : TASK_STACK_SIZE ≠ 0) left (by decide) harmless fuelled'
  let stacked := setStack heap'.mem task stack
  have inStack : SameOutside (Within task 156) heap'.mem stacked := setStack_outside _ _ _
  have kept'' : ∀ item ∈ task :: list, ∀ x, Within item 156 x → Kept rest' x :=
    fun item member x inside => served'.kept x (kept' item member x inside)
  have prepared : Tiling { heap' with mem := stacked } rest' :=
    tiling_congr served'.tiling (inStack.mono (kept'' task List.mem_cons_self))
  have length' := served'.length
  have fuelled'' : rest'.length < fuel := by omega
  obtain ⟨found, next, more, third, served'', _⟩ :=
    kmallocAp_served prepared (by decide : sizeofPageDirectory ≠ 0) left' (by decide) harmless fuelled''
  let wiped := memset next.mem found 0 8196
  have inDirectory : SameOutside (Within found 8196) next.mem wiped := memset_outside _ _ _ _ (by decide)
  have low : Cleared wiped := by
    have initial := (cleared.kept tiling.layout fun x inside => served.same x inside quiet).outside inRecord
      served.low served.high
    have middle := (initial.kept written.layout fun x inside => served'.same x inside quiet).outside inStack
      served.low served.high
    exact (middle.kept prepared.layout fun x inside => served''.same x inside quiet).outside inDirectory
      served''.low served''.high
  have cloned := mmCloneDirectory_blank { s.mm with heap := { heap' with mem := stacked } } fuel 0xFFFFE000 third
    (placed ▸ low.blank)
  refine ⟨?_, task, _, (ok_bind_of first).trans ((ok_bind_of second).trans ((ok_bind_of cloned).trans rfl))⟩
  intro record taken returned
  obtain ⟨rfl, rfl⟩ := Prod.mk.inj (Except.ok.inj (first.symm.trans returned))
  refine ⟨⟨present, kept_clear kept fun x inside => (served.payload x inside).2,
    fun item member x inside => served.same x (kept item member x inside) quiet⟩, ?_⟩
  intro opened block taken returned
  obtain ⟨rfl, rfl⟩ := Prod.mk.inj (Except.ok.inj (second.symm.trans returned))
  refine ⟨⟨kept_clear kept' fun x inside => (served'.payload x inside).2,
    fun item member x inside => served'.same x (kept' item member x inside) quiet⟩, ?_⟩
  intro laid dir mm returned
  obtain ⟨rfl, rfl⟩ := Prod.mk.inj (Except.ok.inj (cloned.symm.trans returned))
  intro item member x inside
  have recorded := kept'' item member x inside
  exact (inDirectory x fun here => (served''.payload x here).2 recorded).trans (served''.same x recorded quiet)

/-- A ready task alone on the list is switched to. -/
theorem taskSchedule_single {s : System} {task : Word} (regs : Tasks.Switched) (head : s.taskListHead = task)
    (present : task ≠ 0) (ready : field s.mem task .state = code .ready) (last : field s.mem task .next = 0)
    (idle : s.currentTask = 0) :
    ∃ t, taskSchedule 2 regs s = .ok t ∧ t.currentTask = task ∧ t.halted = s.halted := by
  have awake : countDown s.mem task = s.mem := if_neg fun both => absurd (ready.symm.trans both.1) (by decide)
  have chosen : preferred s.mem 0 task := ⟨Or.inl ready, Or.inl rfl⟩
  have walked : scheduleLoop 2 s.mem s.taskListHead 0 = some (s.mem, task) := by
    simp only [scheduleLoop, head, if_neg present, if_pos chosen, awake, last, if_true]
  have other : task ≠ s.currentTask := fun same => present (same.trans idle)
  have switched : taskSchedule 2 regs s = .ok (switchTo task regs (s.write s.mem)) := by
    simp only [taskSchedule, walked, if_neg present]
    exact if_neg other
  have stays (t : System) : (preempt t).currentTask = t.currentTask ∧ (preempt t).halted = t.halted := by
    unfold preempt
    split <;> exact ⟨rfl, rfl⟩
  refine ⟨_, switched, ?_, ?_⟩
  · unfold switchTo
    dsimp only
    split <;> rfl
  · unfold switchTo
    dsimp only
    split <;> exact (stays _).2

/-- One task is made on an empty heap and switched to. -/
theorem sparingRun_orderly_created :
    ∃ s, Runs SparingStep (start (pagesAt oneHole) 0)
        [.taskCreate 0 0x1000 5 0xFFFFE000, .taskYield ⟨0, 0, 0, 0, 0, 0⟩] s ∧
      s.currentTask ≠ 0 ∧ ∃ list, Orderly SparingStep s list := by
  have room : Room [wholeHeap] createBytes := ⟨wholeHeap, List.mem_cons_self, rfl, by decide⟩
  obtain ⟨spares, task, after, created⟩ := taskCreate_spares
    (start (pagesAt oneHole) 0) 0 0x1000 5 4 [wholeHeap] [] oneHole_tiling room
    (fun item member => absurd member List.not_mem_nil) oneHole_cleared rfl (by decide)
  have follows := start_follows (pagesAt oneHole) 0
  obtain ⟨present, _, agrees⟩ := taskCreate_agrees follows.agrees spares created
  have stored := agrees.tasks task List.mem_cons_self
  rw [Tasks.taskCreate, Tasks.store_tasks, Function.update_self] at stored
  obtain ⟨t, yielded, current, live⟩ := taskSchedule_single ⟨0, 0, 0, 0, 0, 0⟩ agrees.head.symm present
    ((state_iff (by decide)).mpr (congrArg Task.state stored)) (congrArg Task.next stored) agrees.current.symm
  have first : SparingStep (start (pagesAt oneHole) 0)
      (.taskCreate 0 0x1000 5 0xFFFFE000) after := by
    refine ⟨⟨nofun, nofun⟩, 4, ?_, fun list listing => ?_⟩
    · rw [call, created]
      rfl
    · rw [← follows.listing.unique listing]
      exact spares
  have second : SparingStep after (.taskYield ⟨0, 0, 0, 0, 0, 0⟩) t := by
    refine ⟨⟨fun halted => ?_, nofun⟩, 2, yielded, fun _ _ => trivial⟩
    have never : false = true := agrees.halted.trans halted
    exact absurd never (by decide)
  have run := Runs.next first (Runs.next second (Runs.done t))
  refine ⟨t, run, current ▸ present, sparingRun_orderly _ 0 _ t run ?_⟩
  exact live.trans agrees.halted.symm

/-- The first task is in state 0, TASK_RUNNING, while there is no current task. -/
theorem run_orderly_overlapped :
    ¬∀ (memory : Mem) (requests : List KmallocRuns.Call) (booted : KmallocRuns.State) (mm : Mm) (timerTicks : Word)
      (ops : List Call) (s : System), Runs KmallocRuns.Step (KmallocRuns.start memory) requests booted →
      mm.heap = booted.heap → Runs Step (start mm timerTicks) ops s → s.halted = false →
      ∃ list, Orderly Step s list := by
  intro claim
  obtain ⟨booted, requested, early, cleared⟩ := gap_reached
  let mm := pagesAt booted.heap
  obtain ⟨after, created, head, current, live, stored⟩ := taskCreate_clears (start mm 0) 0 0 5 early cleared rfl
  have step : Step (start mm 0) (.taskCreate 0 0 5 0xFFFFE000) after := by
    refine ⟨⟨nofun, nofun⟩, 4, ?_⟩
    rw [call, created]
    rfl
  obtain ⟨list, orderly⟩ := claim _ _ booted mm 0 _ after requested rfl (Runs.next step (Runs.done after)) live
  have member : 0xD0000010 ∈ list := by
    rcases head_listed orderly.links with none | listed
    · exact absurd (head.symm.trans none) (by decide)
    · exact head ▸ listed
  have running : field after.mem 0xD0000010 .state = code .running :=
    (state_iff (by decide)).mpr (congrArg Task.state stored)
  have same := orderly.current _ member running
  have zero : (0xD0000010 : Word) = 0 := same.trans current
  exact absurd zero (by decide)

end Vaelen.Kernel.SchedulerOverlap
