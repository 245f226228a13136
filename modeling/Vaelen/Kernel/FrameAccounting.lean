import Vaelen.Kernel.FrameOwnership

/-!
used_blocks against the bitmap from mm_init on. mm_init sets the counter to
kernel_blocks and marks whole bytes of the bitmap, whatever the size of the memory.
-/

namespace Vaelen.Kernel.FrameAccounting
open Vaelen.Base Platform Frames FrameOwnership

/-- used_blocks counts the set bits, is no more than total_blocks, and the two amounts of
memory add up. -/
def Accounted (state : FrameState) : Prop :=
  state.usedBlocks.toNat = (usedFrames state).card ∧
    state.usedBlocks ≤ state.totalBlocks ∧
    state.mmGetUsedMemory.toNat + state.mmGetFreeMemory.toNat =
      state.totalBlocks.toNat * PAGE_SIZE.toNat

/-- The memory holds exactly twice the kernel's blocks, up to a last byte of the bitmap
that mm_init leaves as it was and that was clear. -/
def Exact (memSize : Word) (bitmap : Nat → Word) : Prop :=
  (memSize / PAGE_SIZE / 8).toNat = 16384 ∧
    ∀ bit, 131072 ≤ bit → bit < (memSize / PAGE_SIZE).toNat → bitSet bitmap bit = false

theorem card_usedFrames_le (state : FrameState) :
    (usedFrames state).card ≤ state.totalBlocks.toNat := by
  have bound := Finset.card_filter_le (Finset.range state.totalBlocks.toNat)
    fun bit => bitSet state.memBitmap bit = true
  rwa [Finset.card_range] at bound

theorem accounted_iff_balance {state : FrameState}
    (small : state.totalBlocks.toNat < 2 ^ 20) : Accounted state ↔ balance state = 0 := by
  have bound := card_usedFrames_le state
  have counted : balance state = 0 ↔ state.usedBlocks.toNat = (usedFrames state).card := by
    rw [balance, BitVec.sub_eq_iff_eq_add, ← BitVec.toNat_inj, BitVec.toNat_add,
      BitVec.toNat_ofNat]
    change _ = (0 + _) % _ ↔ _
    omega
  rw [counted]
  refine ⟨fun accounted => accounted.1, fun exact => ⟨exact, ?_, ?_⟩⟩
  · rw [BitVec.le_def]
    omega
  · have page : PAGE_SIZE.toNat = 4096 := rfl
    have used : state.mmGetUsedMemory.toNat = state.usedBlocks.toNat * 4096 := by
      rw [FrameState.mmGetUsedMemory, BitVec.toNat_mul, page]
      exact Nat.mod_eq_of_lt (by omega)
    have free : state.mmGetFreeMemory.toNat =
        (state.totalBlocks.toNat - state.usedBlocks.toNat) * 4096 := by
      rw [FrameState.mmGetFreeMemory, BitVec.toNat_mul, page,
        BitVec.toNat_sub_of_le (BitVec.le_def.mpr (by omega))]
      exact Nat.mod_eq_of_lt (by omega)
    rw [used, free, page]
    omega

/-! mm_init. -/

theorem totalBlocks_unsetBelow (n : Nat) (state : FrameState) :
    ((List.range n).foldl FrameState.mmUnsetBit state).totalBlocks = state.totalBlocks := by
  induction n with
  | zero => rfl
  | succ n ih =>
    rw [List.range_succ, List.foldl_append]
    exact ih

theorem bitSet_unsetBelow (n : Nat) (state : FrameState) (bit : Nat) :
    bitSet ((List.range n).foldl FrameState.mmUnsetBit state).memBitmap bit =
      (!decide (bit < n) && bitSet state.memBitmap bit) := by
  induction n with
  | zero => simp
  | succ n ih =>
    rw [List.range_succ, List.foldl_append, List.foldl_cons, List.foldl_nil, bitSet_mmUnsetBit, ih,
      ← Bool.and_assoc, ← Bool.not_or, ← Bool.decide_or]
    congr 2
    rw [decide_eq_decide]
    omega

@[simp] theorem mmInit_totalBlocks (memSize : Word) (bitmap : Nat → Word) :
    (mmInit memSize bitmap).totalBlocks = memSize / PAGE_SIZE := by
  simp only [mmInit, totalBlocks_unsetBelow]

@[simp] theorem mmInit_usedBlocks (memSize : Word) (bitmap : Nat → Word) :
    (mmInit memSize bitmap).usedBlocks = kernelBlocks := by
  simp only [mmInit]

theorem mmInit_bitSet (memSize : Word) (bitmap : Nat → Word) (bit : Nat) :
    bitSet (mmInit memSize bitmap).memBitmap bit =
      (!decide (bit < 65536) &&
        (decide (bit / 8 < (memSize / PAGE_SIZE / 8).toNat) || bitSet bitmap bit)) := by
  have blocks : kernelBlocks.toNat = 65536 := by decide
  -- for a variable bound, so that nothing unfolds the loop of 65536 passes
  have cleared : ∀ (n : Nat) (state : FrameState),
      bitSet { (List.range n).foldl FrameState.mmUnsetBit state with
        usedBlocks := kernelBlocks }.memBitmap bit =
          (!decide (bit < n) && bitSet state.memBitmap bit) :=
    fun n state => bitSet_unsetBelow n state bit
  unfold mmInit
  rw [cleared, blocks, bitSet_memsetWords]

theorem totalBlocks_small (memSize : Word) : (memSize / PAGE_SIZE).toNat < 2 ^ 20 := by
  have size := memSize.isLt
  rw [BitVec.toNat_udiv, show PAGE_SIZE.toNat = 4096 from rfl]
  omega

/-- The former bits of the last, incomplete byte. -/
def leftover (memSize : Word) (bitmap : Nat → Word) : Finset Nat :=
  (Finset.Ico (max 65536 (8 * (memSize / PAGE_SIZE / 8).toNat)) (memSize / PAGE_SIZE).toNat).filter
    fun bit => bitSet bitmap bit = true

theorem usedFrames_mmInit (memSize : Word) (bitmap : Nat → Word) :
    usedFrames (mmInit memSize bitmap) =
      Finset.Ico 65536 (8 * (memSize / PAGE_SIZE / 8).toNat) ∪ leftover memSize bitmap := by
  have whole : 8 * (memSize / PAGE_SIZE / 8).toNat ≤ (memSize / PAGE_SIZE).toNat := by
    rw [BitVec.toNat_udiv (x := memSize / PAGE_SIZE)]
    exact Nat.mul_div_le _ _
  ext bit
  simp only [mem_usedFrames, mmInit_totalBlocks, mmInit_bitSet, leftover, Finset.mem_union,
    Finset.mem_filter, Finset.mem_Ico, Bool.and_eq_true, Bool.or_eq_true, Bool.not_eq_true',
    decide_eq_true_eq, decide_eq_false_iff_not, max_le_iff]
  constructor
  · intro ⟨low, kernel, marked⟩
    by_cases byte : bit / 8 < (memSize / PAGE_SIZE / 8).toNat
    · left
      omega
    · exact Or.inr ⟨⟨⟨by omega, by omega⟩, low⟩, marked.resolve_left byte⟩
  · intro marked
    rcases marked with inside | ⟨inside, former⟩
    · exact ⟨by omega, by omega, Or.inl (by omega)⟩
    · exact ⟨inside.2, by omega, Or.inr former⟩

/-- kernel_blocks is the number of set bits only by coincidence. -/
theorem mmInit_accounted (memSize : Word) (bitmap : Nat → Word) :
    Accounted (mmInit memSize bitmap) ↔ Exact memSize bitmap := by
  have small := totalBlocks_small memSize
  have byte : (memSize / PAGE_SIZE / 8).toNat = (memSize / PAGE_SIZE).toNat / 8 :=
    BitVec.toNat_udiv
  have apart : Disjoint (Finset.Ico 65536 (8 * (memSize / PAGE_SIZE / 8).toNat))
      (leftover memSize bitmap) := by
    rw [Finset.disjoint_left]
    intro bit inside former
    have later := (Finset.mem_Ico.mp (Finset.mem_filter.mp former).1).1
    have earlier := (Finset.mem_Ico.mp inside).2
    omega
  have tail : (leftover memSize bitmap).card ≤
      (memSize / PAGE_SIZE).toNat - max 65536 (8 * (memSize / PAGE_SIZE / 8).toNat) := by
    rw [← Nat.card_Ico]
    exact Finset.card_filter_le _ _
  have counted : Accounted (mmInit memSize bitmap) ↔
      8 * (memSize / PAGE_SIZE / 8).toNat - 65536 + (leftover memSize bitmap).card = 65536 := by
    rw [accounted_iff_balance (by rw [mmInit_totalBlocks]; exact small), balance,
      usedFrames_mmInit, Finset.card_union_of_disjoint apart, Nat.card_Ico, mmInit_usedBlocks,
      BitVec.sub_eq_iff_eq_add, ← BitVec.toNat_inj, BitVec.toNat_add, BitVec.toNat_ofNat]
    change 65536 = (0 + _) % _ ↔ _
    omega
  have empty : (leftover memSize bitmap).card = 0 ↔
      ∀ bit, max 65536 (8 * (memSize / PAGE_SIZE / 8).toNat) ≤ bit →
        bit < (memSize / PAGE_SIZE).toNat → bitSet bitmap bit = false := by
    rw [leftover, Finset.card_eq_zero, Finset.filter_eq_empty_iff]
    simp only [Finset.mem_Ico, Bool.not_eq_true, and_imp]
  rw [counted, Exact]
  constructor
  · intro sum
    have bytes : (memSize / PAGE_SIZE / 8).toNat = 16384 := by omega
    rw [bytes] at empty sum
    exact ⟨bytes, empty.mp (by omega)⟩
  · intro ⟨bytes, clear⟩
    rw [bytes] at empty ⊢
    have none := empty.mpr clear
    omega

/-! Runs. -/

variable {ι : Type} [DecidableEq ι]

/-- A frame that is given back is one marked used. -/
def FreesUsed (s : State ι) : Call ι → Prop
  | .mmAllocFrame _ _ _ => True
  | .mmFreeFrame entry =>
      (s.page entry).frame = 0 ∨ (s.page entry).frame.toNat ∈ usedFrames s.frames

theorem step_totalBlocks {s t : State ι} {op : Call ι} (step : Step s op t) :
    t.frames.totalBlocks = s.frames.totalBlocks := by
  cases step_effect step with
  | held _ => rfl
  | given _ _ _ => rfl
  | empty _ => rfl
  | freed _ => rfl

/-- Only freeing a frame that is not marked used changes the balance. -/
theorem step_balance {s t : State ι} {op : Call ι} (step : Step s op t) :
    balance t.frames = balance s.frames ↔ FreesUsed s op := by
  cases step_effect step with
  | held _ => exact iff_of_true rfl trivial
  | given bound free _ => exact iff_of_true (balance_insert bound free) trivial
  | empty unused => exact iff_of_true rfl (Or.inl unused)
  | @freed entry taken =>
    by_cases used : (s.page entry).frame.toNat ∈ usedFrames s.frames
    · exact iff_of_true (balance_erase used) (Or.inr used)
    · refine iff_of_false ?_ (not_or.mpr ⟨taken, used⟩)
      unfold balance
      rw [usedFrames_usedBlocks, usedFrames_mmUnsetBit, Finset.erase_eq_of_notMem used]
      change s.frames.usedBlocks - 1 - _ ≠ s.frames.usedBlocks - _
      bv_omega

theorem step_unique (s : State ι) (op : Call ι) (t u : State ι) (first : Step s op t)
    (second : Step s op u) : t = u :=
  Option.some.inj (first.symm.trans second)

theorem run_totalBlocks {s t : State ι} {ops : List (Call ι)} (run : Runs Step s ops t) :
    t.frames.totalBlocks = s.frames.totalBlocks := by
  induction run with
  | done s => rfl
  | next step _ ih => exact ih.trans (step_totalBlocks step)

/-- Entries that start without a frame only ever give back used frames. -/
theorem empty_freesUsed {frames : FrameState} (small : frames.totalBlocks.toNat < 2 ^ 20)
    {page : ι → Page} (empty : ∀ entry, (page entry).frame = 0) {ops : List (Call ι)}
    {s : State ι} (run : Runs Step ⟨frames, page⟩ ops s) (op : Call ι) : FreesUsed s op := by
  have owned : Owned frames s := run.invariant (owned_start frames page empty)
    fun _ _ _ owned step => step_owned small owned step
  cases op with
  | mmAllocFrame entry isKernel isWriteable => trivial
  | mmFreeFrame entry =>
    by_cases held : (s.page entry).frame = 0
    · exact Or.inl held
    · exact Or.inr (owned.used held)

/-- From a counter that agrees with the bitmap it agrees in every state of a run exactly when
every frame given back is marked used. -/
theorem accounted_run_iff (frames : FrameState) (small : frames.totalBlocks.toNat < 2 ^ 20)
    (page : ι → Page) (ops : List (Call ι)) (s : State ι)
    (run : Runs Step ⟨frames, page⟩ ops s) :
    (∀ before after t, ops = before ++ after →
        Runs Step ⟨frames, page⟩ before t → Accounted t.frames) ↔
      Accounted frames ∧ ∀ before op after t, ops = before ++ op :: after →
        Runs Step ⟨frames, page⟩ before t → FreesUsed t op := by
  have accounted_iff : ∀ {before t}, Runs Step ⟨frames, page⟩ before t →
      (Accounted t.frames ↔ balance t.frames = 0) := by
    intro before t run
    apply accounted_iff_balance
    rw [run_totalBlocks run]
    exact small
  constructor
  · intro accounted
    refine ⟨accounted [] ops _ rfl (Runs.done _), fun before op after t split here => ?_⟩
    rw [split] at run
    obtain ⟨middle, first, rest⟩ := run.split
    rw [first.deterministic step_unique here] at rest
    cases rest with
    | next step rest =>
      have now := accounted before (op :: after) t split here
      have later := accounted (before ++ [op]) after _ (by simp [split]) (here.snoc step)
      rw [← step_balance step, (accounted_iff (here.snoc step)).mp later,
        (accounted_iff here).mp now]
  · intro ⟨exact, frees⟩
    refine Runs.along exact fun before op after middle next whole first step earlier => ?_
    have balanced := (step_balance step).mpr (frees before op after middle whole first)
    rw [accounted_iff (first.snoc step), balanced, ← accounted_iff first]
    exact earlier

/-- From mm_init on the accounting is exact in every state of a run exactly when mm_init
starts it exact and every frame given back is marked used. -/
theorem run_accounted_iff (memSize : Word) (bitmap : Nat → Word) (page : ι → Page)
    (ops : List (Call ι)) (s : State ι)
    (run : Runs Step ⟨mmInit memSize bitmap, page⟩ ops s) :
    (∀ before after t, ops = before ++ after →
        Runs Step ⟨mmInit memSize bitmap, page⟩ before t → Accounted t.frames) ↔
      Exact memSize bitmap ∧ ∀ before op after t, ops = before ++ op :: after →
        Runs Step ⟨mmInit memSize bitmap, page⟩ before t → FreesUsed t op := by
  have small : (mmInit memSize bitmap).totalBlocks.toNat < 2 ^ 20 := by
    rw [mmInit_totalBlocks]
    exact totalBlocks_small memSize
  rw [← mmInit_accounted memSize bitmap]
  exact accounted_run_iff (mmInit memSize bitmap) small page ops s run

/-- 512 MiB are twice the kernel's blocks. -/
theorem run_accounted_iff_exact :
    ∃ s, Runs Step ⟨mmInit 0x20000000 fun _ => 0, fun _ : Unit => ⟨0, 0, 0, 0, 0, 0, 0⟩⟩
        [.mmAllocFrame () 1 1] s ∧ Accounted s.frames := by
  have free : (mmInit 0x20000000 fun _ => 0).mmFirstFree ≠ none := by
    apply mmFirstFree_ne_none 0
    · rw [mmInit_totalBlocks]
      decide
    · simp [mmInit_bitSet]
  obtain ⟨s, step⟩ := mmAllocFrame_returns free (fun _ : Unit => ⟨0, 0, 0, 0, 0, 0, 0⟩) () 1 1
  have run := Runs.next step (Runs.done s)
  refine ⟨s, run, (run_accounted_iff _ _ _ _ s run).mpr ⟨⟨by decide, ?_⟩, ?_⟩ _ [] s rfl run⟩
  · intro bit low high
    exact absurd (show bit < 131072 from high) (by omega)
  · intro before op after t split _
    cases before with
    | nil =>
      cases split
      trivial
    | cons first rest => exact absurd (List.cons.inj split).2 (by simp)

/-- No memory at all: 65536 blocks are counted as used. -/
theorem run_not_accounted :
    ¬∀ (memSize : Word) (bitmap : Nat → Word) (page : Unit → Page) (ops : List (Call Unit))
      (s : State Unit), (∀ entry, (page entry).frame = 0) →
        Runs Step ⟨mmInit memSize bitmap, page⟩ ops s → Accounted s.frames := by
  intro claim
  have accounted := claim 0 (fun _ => 0) (fun _ => ⟨0, 0, 0, 0, 0, 0, 0⟩) [] _ (fun _ => rfl)
    (Runs.done _)
  exact absurd ((mmInit_accounted 0 fun _ => 0).mp accounted).1 (by decide)

end Vaelen.Kernel.FrameAccounting
