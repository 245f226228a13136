import Vaelen.Base.Runs
import Vaelen.Kernel.Frames

/-!
Which page entry owns which frame, over any interleaving of mm_alloc_frame and
mm_free_frame on any family of page entries.
-/

namespace Vaelen.Kernel.FrameOwnership
open Vaelen.Base Platform Frames

structure State (ι : Type) where
  frames : FrameState
  page : ι → Page

inductive Call (ι : Type) where
  | mmAllocFrame (entry : ι) (isKernel isWriteable : Word)
  | mmFreeFrame (entry : ι)

variable {ι : Type}

/-- `none` once the kernel has panicked. -/
def call [DecidableEq ι] (s : State ι) : Call ι → Option (State ι)
  | .mmAllocFrame entry isKernel isWriteable =>
      match s.frames.mmAllocFrame (s.page entry) isKernel isWriteable with
      | .error _ => none
      | .ok (frames, page) => some ⟨frames, Function.update s.page entry page⟩
  | .mmFreeFrame entry =>
      let (frames, page) := s.frames.mmFreeFrame (s.page entry)
      some ⟨frames, Function.update s.page entry page⟩

/-- A call that returns. -/
def Step [DecidableEq ι] (s : State ι) (op : Call ι) (t : State ι) : Prop := call s op = some t

/-! The allocator's bit operations on the set of used frames. -/

theorem mem_usedFrames (state : FrameState) (bit : Nat) :
    bit ∈ usedFrames state ↔
      bit < state.totalBlocks.toNat ∧ bitSet state.memBitmap bit = true := by
  rw [usedFrames, Finset.mem_filter, Finset.mem_range]

theorem usedFrames_mmSetBit (state : FrameState) (bit : Nat)
    (bound : bit < state.totalBlocks.toNat) :
    usedFrames (state.mmSetBit bit) = insert bit (usedFrames state) := by
  ext other
  rw [Finset.mem_insert, mem_usedFrames, mem_usedFrames, bitSet_mmSetBit, Bool.or_eq_true,
    decide_eq_true_eq]
  change other < state.totalBlocks.toNat ∧ _ ↔ _
  constructor
  · intro ⟨low, marked⟩
    exact marked.imp_right fun marked => ⟨low, marked⟩
  · intro marked
    rcases marked with rfl | ⟨low, marked⟩
    · exact ⟨bound, Or.inl rfl⟩
    · exact ⟨low, Or.inr marked⟩

theorem usedFrames_mmUnsetBit (state : FrameState) (bit : Nat) :
    usedFrames (state.mmUnsetBit bit) = (usedFrames state).erase bit := by
  ext other
  rw [Finset.mem_erase, mem_usedFrames, mem_usedFrames, bitSet_mmUnsetBit, Bool.and_eq_true,
    Bool.not_eq_true', decide_eq_false_iff_not]
  change other < state.totalBlocks.toNat ∧ _ ↔ _
  exact and_left_comm

theorem usedFrames_usedBlocks (state : FrameState) (count : Word) :
    usedFrames { state with usedBlocks := count } = usedFrames state := rfl

/-- mm_first_free returns a frame below total_blocks that is not marked used. -/
theorem mmFirstFree_spec {state : FrameState} {idx : Nat} (found : state.mmFirstFree = some idx) :
    idx < state.totalBlocks.toNat ∧ idx ∉ usedFrames state := by
  have free := List.find?_some found
  have bound := List.mem_range.mp (List.mem_of_find?_eq_some found)
  refine ⟨bound, fun used => ?_⟩
  rw [beq_iff_eq, mmTestBit_eq_zero, ((mem_usedFrames state idx).mp used).2] at free
  exact Bool.noConfusion free

theorem mmFirstFree_ne_none {state : FrameState} (bit : Nat)
    (bound : bit < state.totalBlocks.toNat) (clear : bitSet state.memBitmap bit = false) :
    state.mmFirstFree ≠ none := by
  intro full
  have taken := List.find?_eq_none.mp full bit (List.mem_range.mpr bound)
  rw [beq_iff_eq, mmTestBit_eq_zero] at taken
  exact taken clear

/-- The set bits below total_blocks and used_blocks move together. -/
def balance (state : FrameState) : Word :=
  state.usedBlocks - BitVec.ofNat 32 (usedFrames state).card

/-- What mm_alloc_frame can do: nothing on an entry that has a frame, else take a free one. -/
theorem mmAllocFrame_cases {state next : FrameState} {page after : Page}
    {isKernel isWriteable : Word}
    (returned : state.mmAllocFrame page isKernel isWriteable = .ok (next, after)) :
    (page.frame ≠ 0 ∧ next = state ∧ after = page) ∨
      ∃ idx, page.frame = 0 ∧ idx < state.totalBlocks.toNat ∧ idx ∉ usedFrames state ∧
        next = { state.mmSetBit idx with usedBlocks := state.usedBlocks + 1 } ∧
        after.frame = BitVec.ofNat 20 idx := by
  unfold FrameState.mmAllocFrame at returned
  by_cases held : page.frame ≠ 0
  · rw [if_pos held] at returned
    cases returned
    exact Or.inl ⟨held, rfl, rfl⟩
  · rw [if_neg held] at returned
    cases found : state.mmFirstFree with
    | none =>
      rw [found] at returned
      exact absurd returned (by simp [kernelPanic])
    | some idx =>
      rw [found] at returned
      cases returned
      obtain ⟨bound, free⟩ := mmFirstFree_spec found
      exact Or.inr ⟨idx, not_not.mp held, bound, free, rfl, rfl⟩

/-- With a free frame the call returns. -/
theorem mmAllocFrame_returns [DecidableEq ι] {frames : FrameState}
    (free : frames.mmFirstFree ≠ none) (page : ι → Page) (entry : ι) (isKernel isWriteable : Word) :
    ∃ t, Step ⟨frames, page⟩ (.mmAllocFrame entry isKernel isWriteable) t := by
  simp only [Step, call, FrameState.mmAllocFrame]
  by_cases held : (page entry).frame ≠ 0
  · rw [if_pos held]
    exact ⟨_, rfl⟩
  · rw [if_neg held]
    cases found : frames.mmFirstFree with
    | none => exact absurd found free
    | some idx => exact ⟨_, rfl⟩

theorem balance_insert {state : FrameState} {idx : Nat} (bound : idx < state.totalBlocks.toNat)
    (free : idx ∉ usedFrames state) :
    balance { state.mmSetBit idx with usedBlocks := state.usedBlocks + 1 } = balance state := by
  unfold balance
  rw [usedFrames_usedBlocks, usedFrames_mmSetBit state idx bound, Finset.card_insert_of_notMem free,
    BitVec.ofNat_add]
  change state.usedBlocks + 1 - (_ + 1) = _
  bv_omega

theorem balance_erase {state : FrameState} {frame : Nat} (used : frame ∈ usedFrames state) :
    balance { state.mmUnsetBit frame with usedBlocks := state.usedBlocks - 1 } =
      balance state := by
  have card := Finset.card_erase_add_one used
  unfold balance
  rw [usedFrames_usedBlocks, usedFrames_mmUnsetBit, ← card, BitVec.ofNat_add]
  change state.usedBlocks - 1 - _ = state.usedBlocks - (_ + 1)
  bv_omega

/-! Ownership. -/

/-- Every entry with a frame owns a used frame of its own, and the counter is still as far
from the bitmap as it was in `initial`. -/
structure Owned (initial : FrameState) (s : State ι) : Prop where
  total : s.frames.totalBlocks = initial.totalBlocks
  below : ∀ entry, (s.page entry).frame ≠ 0 →
    (s.page entry).frame.toNat < s.frames.totalBlocks.toNat
  marked : ∀ entry, (s.page entry).frame ≠ 0 →
    bitSet s.frames.memBitmap (s.page entry).frame.toNat = true
  distinct : ∀ entry other, entry ≠ other → (s.page entry).frame ≠ 0 →
    (s.page entry).frame ≠ (s.page other).frame
  balanced : balance s.frames = balance initial

theorem Owned.used {initial : FrameState} {s : State ι} (owned : Owned initial s) {entry : ι}
    (held : (s.page entry).frame ≠ 0) : (s.page entry).frame.toNat ∈ usedFrames s.frames :=
  (mem_usedFrames s.frames _).mpr ⟨owned.below entry held, owned.marked entry held⟩

theorem owned_start (frames : FrameState) (page : ι → Page)
    (empty : ∀ entry, (page entry).frame = 0) : Owned frames ⟨frames, page⟩ where
  total := rfl
  below entry held := absurd (empty entry) held
  marked entry held := absurd (empty entry) held
  distinct entry _ _ held := absurd (empty entry) held
  balanced := rfl

variable [DecidableEq ι]

/-- A free frame given to an entry without one. -/
theorem Owned.insert {initial : FrameState} {s : State ι} {entry : ι} {page : Page} {idx : Nat}
    (owned : Owned initial s) (small : s.frames.totalBlocks.toNat < 2 ^ 20)
    (bound : idx < s.frames.totalBlocks.toNat) (free : idx ∉ usedFrames s.frames)
    (given : page.frame = BitVec.ofNat 20 idx) :
    Owned initial ⟨{ s.frames.mmSetBit idx with usedBlocks := s.frames.usedBlocks + 1 },
      Function.update s.page entry page⟩ := by
  have fits : page.frame.toNat = idx := by
    rw [given, BitVec.toNat_ofNat]
    exact Nat.mod_eq_of_lt (bound.trans small)
  -- idx is not the frame of any entry, for those are all used
  have fresh : ∀ other, (s.page other).frame ≠ 0 → (s.page other).frame ≠ page.frame := by
    intro other held same
    apply free
    rw [← fits, ← same]
    exact owned.used held
  refine ⟨owned.total, fun other held => ?_, fun other held => ?_, ?_,
    (balance_insert bound free).trans owned.balanced⟩
  · change _ < s.frames.totalBlocks.toNat
    by_cases here : other = entry
    · simpa only [here, Function.update_self, fits] using bound
    · simp only [Function.update_of_ne here] at held ⊢
      exact owned.below other held
  · change bitSet (s.frames.mmSetBit idx).memBitmap _ = true
    rw [bitSet_mmSetBit, Bool.or_eq_true, decide_eq_true_eq]
    by_cases here : other = entry
    · simp only [here, Function.update_self, fits, true_or]
    · simp only [Function.update_of_ne here] at held ⊢
      exact Or.inr (owned.marked other held)
  · intro first second different held
    by_cases here : first = entry
    · have elsewhere : second ≠ entry := fun same => different (here.trans same.symm)
      simp only [here, Function.update_self, Function.update_of_ne elsewhere] at held ⊢
      intro same
      exact fresh second (same ▸ held) same.symm
    · simp only [Function.update_of_ne here] at held ⊢
      by_cases there : second = entry
      · simpa only [there, Function.update_self] using fresh first held
      · simpa only [Function.update_of_ne there] using owned.distinct first second different held

/-- The frame of an entry given back. -/
theorem Owned.erase {initial : FrameState} {s : State ι} {entry : ι} (owned : Owned initial s)
    (held : (s.page entry).frame ≠ 0) :
    Owned initial
      ⟨{ s.frames.mmUnsetBit (s.page entry).frame.toNat with
          usedBlocks := s.frames.usedBlocks - 1 },
        Function.update s.page entry { s.page entry with frame := 0 }⟩ := by
  have others : ∀ other, (Function.update s.page entry { s.page entry with frame := 0 }
      other).frame ≠ 0 → other ≠ entry := by
    intro other held here
    rw [here, Function.update_self] at held
    exact held rfl
  refine ⟨owned.total, fun other holds => ?_, fun other holds => ?_, ?_,
    (balance_erase (owned.used held)).trans owned.balanced⟩
  · have elsewhere := others other holds
    simp only [Function.update_of_ne elsewhere] at holds ⊢
    exact owned.below other holds
  · have elsewhere := others other holds
    simp only [Function.update_of_ne elsewhere] at holds ⊢
    have apart := owned.distinct other entry elsewhere holds
    rw [bitSet_mmUnsetBit, owned.marked other holds, Bool.and_true, Bool.not_eq_true',
      decide_eq_false_iff_not]
    exact fun same => apart (BitVec.eq_of_toNat_eq same)
  · intro first second different holds
    have elsewhere := others first holds
    simp only [Function.update_of_ne elsewhere] at holds ⊢
    by_cases there : second = entry
    · simpa only [there, Function.update_self] using holds
    · simpa only [Function.update_of_ne there] using owned.distinct first second different holds

/-- What a call that returns has done: an entry with a frame keeps it, one without gets a free
frame, and a frame given back leaves its entry empty. -/
inductive Effect (s : State ι) : Call ι → State ι → Prop where
  | held {entry : ι} {isKernel isWriteable : Word} (taken : (s.page entry).frame ≠ 0) :
      Effect s (.mmAllocFrame entry isKernel isWriteable) s
  | given {entry : ι} {isKernel isWriteable : Word} {idx : Nat} {page : Page}
      (bound : idx < s.frames.totalBlocks.toNat) (free : idx ∉ usedFrames s.frames)
      (frame : page.frame = BitVec.ofNat 20 idx) :
      Effect s (.mmAllocFrame entry isKernel isWriteable)
        ⟨{ s.frames.mmSetBit idx with usedBlocks := s.frames.usedBlocks + 1 },
          Function.update s.page entry page⟩
  | empty {entry : ι} (unused : (s.page entry).frame = 0) : Effect s (.mmFreeFrame entry) s
  | freed {entry : ι} (taken : (s.page entry).frame ≠ 0) :
      Effect s (.mmFreeFrame entry)
        ⟨{ s.frames.mmUnsetBit (s.page entry).frame.toNat with
            usedBlocks := s.frames.usedBlocks - 1 },
          Function.update s.page entry { s.page entry with frame := 0 }⟩

theorem step_effect {s t : State ι} {op : Call ι} (step : Step s op t) : Effect s op t := by
  cases op with
  | mmAllocFrame entry isKernel isWriteable =>
    simp only [Step, call] at step
    split at step
    · exact absurd step (by simp)
    · next frames page returned =>
      cases step
      rcases mmAllocFrame_cases returned with ⟨taken, rfl, rfl⟩ | ⟨idx, _, bound, free, rfl, frame⟩
      · rw [Function.update_eq_self]
        exact .held taken
      · exact .given bound free frame
  | mmFreeFrame entry =>
    simp only [Step, call, FrameState.mmFreeFrame] at step
    by_cases unused : (s.page entry).frame = 0
    · simp only [if_pos unused, Function.update_eq_self] at step
      cases step
      exact .empty unused
    · simp only [if_neg unused] at step
      cases step
      exact .freed unused

theorem step_owned {initial : FrameState} {s t : State ι} {op : Call ι}
    (small : initial.totalBlocks.toNat < 2 ^ 20) (owned : Owned initial s) (step : Step s op t) :
    Owned initial t := by
  cases step_effect step with
  | held _ => exact owned
  | given bound free frame => exact owned.insert (owned.total ▸ small) bound free frame
  | empty _ => exact owned
  | freed taken => exact owned.erase taken

theorem run_owned (frames : FrameState) (small : frames.totalBlocks.toNat < 2 ^ 20)
    (page : ι → Page) (empty : ∀ entry, (page entry).frame = 0) (ops : List (Call ι))
    (s : State ι) (run : Runs Step ⟨frames, page⟩ ops s) : Owned frames s :=
  run.invariant (owned_start frames page empty) fun _ _ _ owned step =>
    step_owned small owned step

/-- Frame 0 taken, two entries allocated and the first of them given back. -/
theorem run_owned_two :
    let frames : FrameState := ⟨fun _ => 1, 0x20000, 32, 1⟩
    let page : Bool → Page := fun _ => ⟨0, 0, 0, 0, 0, 0, 0⟩
    ∃ s, Runs Step ⟨frames, page⟩
        [.mmAllocFrame false 1 1, .mmAllocFrame true 0 1, .mmFreeFrame false] s ∧
      Owned frames s ∧ (s.page true).frame = 2 := by
  intro frames page
  have frame : ([.mmAllocFrame false 1 1, .mmAllocFrame true 0 1, .mmFreeFrame false].foldlM call
      ⟨frames, page⟩).map (fun s => (s.page true).frame) = some 2 := by decide
  obtain ⟨s, returned, second⟩ := Option.map_eq_some_iff.mp frame
  have run := Runs.of_foldlM returned
  exact ⟨s, run, run_owned frames (by decide) page (fun _ => rfl) _ s run, second⟩

end Vaelen.Kernel.FrameOwnership
