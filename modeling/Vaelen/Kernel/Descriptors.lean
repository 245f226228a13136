import Vaelen.Kernel.Vfs

/-!
The descriptor table over any run of fs_open and fs_close. A descriptor is live when its
entry has a node; fs_open hands out the lowest one that is not.
-/

namespace Vaelen.Kernel.Descriptors
open Vaelen.Base Platform Kmalloc KmallocBlocks KmallocTiling KmallocKept Vfs

inductive Call where
  | fsOpen (memory : Mem) (path flags : Word)
  | fsClose (fd : Int)

def call (s : Fs) : Call → Fs
  | .fsOpen memory path flags => (fsOpen memory path flags s).2
  | .fsClose fd => (fsClose fd s).2

def run (calls : List Call) (s : Fs) : Fs := calls.foldl call s

def Live (s : Fs) (i : Fin FS_MAX_FDS) : Prop := (s.fdTable i).node ≠ 0

instance (s : Fs) (i : Fin FS_MAX_FDS) : Decidable (Live s i) :=
  inferInstanceAs (Decidable (_ ≠ _))

def opened (memory : Mem) (path flags : Word) (i : Fin FS_MAX_FDS) (s : Fs) : Fs :=
  { s with
    fdTable := Function.update s.fdTable i
      { node := fsTraverse memory path s, offset := 0, flags := flags } }

variable {s : Fs} {memory : Mem} {path flags : Word}

/-- fs_open takes the lowest descriptor that is not live, or there is none. -/
theorem fsOpen_cases (s : Fs) (memory : Mem) (path flags : Word) :
    (∃ i, ¬Live s i ∧ (∀ j < i, Live s j) ∧
      fsOpen memory path flags s = (((i : Nat) : Int), opened memory path flags i s)) ∨
    ((∀ i, Live s i) ∧ fsOpen memory path flags s = (-1, s)) := by
  unfold fsOpen
  cases found : (List.finRange FS_MAX_FDS).find? fun i => (s.fdTable i).node == 0 with
  | none =>
    right
    have live := List.find?_eq_none.mp found
    exact ⟨fun i => by simpa [Live] using live i (List.mem_finRange i), rfl⟩
  | some i =>
    left
    obtain ⟨free, earlier, later, split, taken⟩ := List.find?_eq_some_iff_append.mp found
    refine ⟨i, by simpa [Live] using free, fun j before => ?_, rfl⟩
    have ordered := List.pairwise_lt_finRange FS_MAX_FDS
    have member := List.mem_finRange j
    rw [split] at ordered member
    have behind := (List.pairwise_cons.mp (List.pairwise_append.mp ordered).2.1).1
    rcases List.mem_append.mp member with front | back
    · simpa [Live] using taken j front
    · rcases List.mem_cons.mp back with here | after
      · exact absurd before (by rw [here]; exact Nat.lt_irrefl _)
      · exact absurd before (Nat.lt_asymm (behind j after))

theorem fsOpen_fsRootNode (s : Fs) (memory : Mem) (path flags : Word) :
    (fsOpen memory path flags s).2.fsRootNode = s.fsRootNode := by
  rcases fsOpen_cases s memory path flags with ⟨i, _, _, same⟩ | ⟨_, same⟩
  · rw [same]
    rfl
  · rw [same]

theorem fsClose_cases (s : Fs) (fd : Int) :
    (∃ i : Fin FS_MAX_FDS, fd = (i : Nat) ∧ Live s i ∧ fsClose fd s = (0,
      { s with fdTable := Function.update s.fdTable i { s.fdTable i with node := 0 } })) ∨
    ((∀ i : Fin FS_MAX_FDS, fd = (i : Nat) → ¬Live s i) ∧ fsClose fd s = (-1, s)) := by
  unfold fsClose
  by_cases range : fd < 0 ∨ (FS_MAX_FDS : Int) ≤ fd
  · right
    rw [dif_pos range]
    refine ⟨fun i same => ?_, rfl⟩
    have bound := i.isLt
    omega
  · rw [dif_neg range]
    have place : fd = ((fd.toNat : Nat) : Int) := by omega
    by_cases free : (s.fdTable ⟨fd.toNat, by omega⟩).node = 0
    · right
      rw [if_pos free]
      refine ⟨fun i same => ?_, rfl⟩
      have here : i = ⟨fd.toNat, by omega⟩ := Fin.ext (by
        change (i : Nat) = fd.toNat
        omega)
      rw [here, Live, free]
      exact fun absurd => absurd rfl
    · left
      rw [if_neg free]
      exact ⟨⟨fd.toNat, by omega⟩, place, free, rfl⟩

/-- An entry that is live stays as it is until its descriptor is closed. -/
theorem run_live {i : Fin FS_MAX_FDS} (calls : List Call) (live : Live s i)
    (unclosed : Call.fsClose (i : Nat) ∉ calls) : (run calls s).fdTable i = s.fdTable i := by
  induction calls generalizing s with
  | nil => rfl
  | cons first rest ih =>
    have others : Call.fsClose (i : Nat) ∉ rest := fun member => unclosed (List.mem_cons_of_mem _ member)
    have same : (call s first).fdTable i = s.fdTable i := by
      cases first with
      | fsOpen memory path flags =>
        rcases fsOpen_cases s memory path flags with ⟨j, free, _, same⟩ | ⟨_, same⟩
        · rw [call, same]
          exact Function.update_of_ne (fun here : i = j => free (here ▸ live)) _ _
        · rw [call, same]
      | fsClose fd =>
        rcases fsClose_cases s fd with ⟨j, place, _, same⟩ | ⟨_, same⟩
        · rw [call, same]
          refine Function.update_of_ne (fun here => unclosed ?_) _ _
          rw [here, ← place]
          exact List.mem_cons_self
        · rw [call, same]
    have still : Live (call s first) i := by
      rw [Live, same]
      exact live
    exact (ih still others).trans same

/-- What fs_open and fs_close do to a table. -/
structure Disciplined (s : Fs) : Prop where
  lowest : ∀ memory path flags,
    (∃ i : Fin FS_MAX_FDS, (fsOpen memory path flags s).1 = (i : Nat) ∧ ¬Live s i ∧
      ∀ j < i, Live s j) ∨ fsOpen memory path flags s = (-1, s)
  full : ∀ memory path flags, (fsOpen memory path flags s).1 = -1 ↔ ∀ i, Live s i
  kept : ∀ memory path flags i, Live s i → (fsOpen memory path flags s).2.fdTable i = s.fdTable i
  lasting : ∀ i : Fin FS_MAX_FDS, Live s i → ∀ calls, Call.fsClose (i : Nat) ∉ calls →
    (run calls s).fdTable i = s.fdTable i
  closes : ∀ fd, (fsClose fd s).1 = 0 ↔ ∃ i : Fin FS_MAX_FDS, fd = (i : Nat) ∧ Live s i
  closed : ∀ i : Fin FS_MAX_FDS, Live s i → ¬Live (fsClose (i : Nat) s).2 i ∧
    ∀ j ≠ i, (fsClose (i : Nat) s).2.fdTable j = s.fdTable j
  refused : ∀ fd, (fsClose fd s).1 ≠ 0 → fsClose fd s = (-1, s)

theorem disciplined (s : Fs) : Disciplined s where
  lowest memory path flags := by
    rcases fsOpen_cases s memory path flags with ⟨i, free, lower, same⟩ | ⟨_, same⟩
    · exact Or.inl ⟨i, by rw [same], free, lower⟩
    · exact Or.inr same
  full memory path flags := by
    rcases fsOpen_cases s memory path flags with ⟨i, free, lower, same⟩ | ⟨live, same⟩
    · rw [same]
      constructor
      · intro negative
        exact absurd negative (by omega)
      · intro live
        exact absurd (live i) free
    · rw [same]
      exact ⟨fun _ => live, fun _ => rfl⟩
  kept memory path flags i live := run_live [.fsOpen memory path flags] live (by simp)
  lasting i live calls unclosed := run_live calls live unclosed
  closes fd := by
    rcases fsClose_cases s fd with ⟨i, place, live, same⟩ | ⟨dead, same⟩
    · rw [same]
      exact ⟨fun _ => ⟨i, place, live⟩, fun _ => rfl⟩
    · rw [same]
      constructor
      · intro zero
        exact absurd (show (-1 : Int) = 0 from zero) (by decide)
      · rintro ⟨i, place, live⟩
        exact absurd live (dead i place)
  closed i live := by
    rcases fsClose_cases s (i : Nat) with ⟨j, place, _, same⟩ | ⟨dead, _⟩
    · have here : j = i := Fin.ext (by omega)
      subst here
      rw [same]
      refine ⟨?_, fun k other => Function.update_of_ne other _ _⟩
      simp [Live]
    · exact absurd live (dead i rfl)
  refused fd failed := by
    rcases fsClose_cases s fd with ⟨_, _, _, same⟩ | ⟨_, same⟩
    · rw [same] at failed
      exact absurd rfl failed
    · exact same

theorem fsInit_dead {fuel : Nat} {literal : String → Word} {heap next : Heap} {before start : Fs}
    (initialised : fsInit fuel literal heap before = .ok (start, next)) (i : Fin FS_MAX_FDS) :
    ¬Live start i := by
  obtain ⟨⟨root, middle⟩, _, rest⟩ := bind_eq_ok initialised
  obtain ⟨last, _, finished⟩ := bind_eq_ok rest
  have same : (Fs.mk root (fun _ => ⟨0, 0, 0⟩) 0, last) = (start, next) := Except.ok.inj finished
  have table : Fs.mk root (fun _ => ⟨0, 0, 0⟩) 0 = start := congrArg Prod.fst same
  subst table
  exact fun live => live rfl

/-- fs_init leaves no descriptor live, and its two operations keep every later table in order. -/
theorem run_disciplined (fuel : Nat) (literal : String → Word) (heap next : Heap)
    (before start : Fs) (initialised : fsInit fuel literal heap before = .ok (start, next)) :
    (∀ i, ¬Live start i) ∧ ∀ calls, Disciplined (run calls start) :=
  ⟨fsInit_dead initialised, fun calls => disciplined (run calls start)⟩

/-- A heap that has not been used yet, and what fs_init makes of it. -/
theorem fsInit_fresh (literal : String → Word) (memory : Mem) (before : Fs) :
    ∃ start next, fsInit 32 literal (uninitialised memory) before = .ok (start, next) ∧
      start.fsRootNode ≠ 0 := by
  have tiling : Tiling (initHeap (uninitialised memory)) _ := initHeap_tiling rfl
  have room : Room [Block.mk KERNEL_HEAP_START (KERNEL_HEAP_SIZE - sizeofMemBlock) true]
      (8 + 328 * 16) := ⟨_, List.mem_singleton_self _, rfl, by decide⟩
  exact fsInit_returns literal before tiling room (Nat.le_refl 8) (by decide)

theorem run_disciplined_fresh :
    ∃ start next, fsInit 32 (fun _ => 0x1000) (uninitialised fun _ => 0) ⟨0, fun _ => ⟨0, 0, 0⟩, 0⟩ =
        .ok (start, next) ∧
      (∀ i, ¬Live start i) ∧ ∀ calls, Disciplined (run calls start) := by
  obtain ⟨start, next, initialised, _⟩ :=
    fsInit_fresh (fun _ => 0x1000) (fun _ => 0) ⟨0, fun _ => ⟨0, 0, 0⟩, 0⟩
  exact ⟨start, next, initialised, run_disciplined _ _ _ _ _ _ initialised⟩

/-! A descriptor that fs_open returns. -/

/-- It is open afterwards, and a lookup that finds nothing opens none. -/
structure Opens (s : Fs) (memory : Mem) (path flags : Word) : Prop where
  live : ∀ i : Fin FS_MAX_FDS, (fsOpen memory path flags s).1 = (i : Nat) →
    Live (fsOpen memory path flags s).2 i
  closes : ∀ fd ≥ 0, (fsOpen memory path flags s).1 = fd →
    (fsClose fd (fsOpen memory path flags s).2).1 = 0
  different : ∀ fd ≥ 0, (fsOpen memory path flags s).1 = fd → ∀ memory' path' flags',
    (fsOpen memory' path' flags' (fsOpen memory path flags s).2).1 ≠ fd
  missing : fsTraverse memory path s = 0 → fsOpen memory path flags s = (-1, s)

theorem opened_live_iff (i : Fin FS_MAX_FDS) :
    Live (opened memory path flags i s) i ↔ fsTraverse memory path s ≠ 0 := by
  unfold Live opened
  simp only [Function.update_self]

/-- fs_open keeps its word exactly when the lookup finds a node or no descriptor is left. -/
theorem opens_iff (s : Fs) (memory : Mem) (path flags : Word) :
    Opens s memory path flags ↔ fsTraverse memory path s ≠ 0 ∨ ∀ i, Live s i := by
  rcases fsOpen_cases s memory path flags with ⟨i, free, _, same⟩ | ⟨live, same⟩
  · constructor
    · intro opens
      left
      intro none
      have failed := congrArg Prod.fst (same.symm.trans (opens.missing none))
      exact absurd (show ((i : Nat) : Int) = -1 from failed) (by omega)
    · rintro (found | full)
      · have lasts : Live (opened memory path flags i s) i := (opened_live_iff i).mpr found
        apply Opens.mk
        · intro j returned
          rw [same] at returned ⊢
          have number : ((i : Nat) : Int) = (j : Nat) := returned
          have here : i = j := Fin.ext (by exact_mod_cast number)
          exact here ▸ lasts
        · intro fd _ returned
          rw [same] at returned ⊢
          exact ((disciplined _).closes fd).mpr ⟨i, returned.symm, lasts⟩
        · intro fd _ returned memory' path' flags' again
          rw [same] at returned again
          rcases fsOpen_cases (opened memory path flags i s) memory' path' flags' with
            ⟨j, unused, _, second⟩ | ⟨_, second⟩
          · rw [second] at again
            have number : ((i : Nat) : Int) = (j : Nat) := returned.trans again.symm
            have here : i = j := Fin.ext (by exact_mod_cast number)
            exact unused (here ▸ lasts)
          · rw [second] at again
            have negative : (-1 : Int) = fd := again
            omega
        · exact fun none => absurd none found
      · exact absurd (full i) free
  · constructor
    · exact fun _ => Or.inr live
    · intro _
      have negative : ∀ fd ≥ 0, (fsOpen memory path flags s).1 = fd → False := by
        intro fd positive returned
        rw [same] at returned
        have failed : (-1 : Int) = fd := returned
        omega
      exact ⟨fun i returned => (negative _ (by omega) returned).elim,
        fun fd positive returned => (negative fd positive returned).elim,
        fun fd positive returned => (negative fd positive returned).elim, fun _ => same⟩

/-- fs_open("/x") after fs_init. -/
theorem opens_nothing :
    ¬∀ (fuel : Nat) (literal : String → Word) (heap next : Heap) (before start : Fs)
      (calls : List Call) (memory : Mem) (path flags : Word),
      fsInit fuel literal heap before = .ok (start, next) →
      Opens (run calls start) memory path flags := by
  intro claim
  obtain ⟨start, next, initialised, _⟩ :=
    fsInit_fresh (fun _ => 0x1000) (fun _ => 0) ⟨0, fun _ => ⟨0, 0, 0⟩, 0⟩
  let memory : Mem := store8 (store8 (fun _ => 0) 0x2000 0x2F) 0x2001 0x78
  have opens := claim _ _ _ _ _ _ [] memory 0x2000 0 initialised
  have nothing : fsTraverse memory 0x2000 start = 0 := by
    rw [fsTraverse, if_neg (by decide), if_neg (by decide)]
  have failed := congrArg Prod.fst (opens.missing nothing)
  have full := ((disciplined start).full memory 0x2000 0).mp failed
  exact fsInit_dead initialised 0 (full 0)

end Vaelen.Kernel.Descriptors
