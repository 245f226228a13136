import Vaelen.Kernel.KmallocRequests
import Vaelen.Kernel.Vfs

/-!
The mount list of vfs.c. fs_mount copies the path into a block that kmalloc does not clear, and leaves the last
byte of the mount point as it was.
-/

namespace Vaelen.Kernel.VfsMount
open Vaelen.Base Platform Strings Kmalloc KmallocBlocks KmallocTiling KmallocKept Vfs

/-- The records from mount_points on. -/
def MountList (memory : Mem) (mountPoints : Word) (nodes : List Word) : Prop :=
  headKey id nodes 0 = mountPoints ∧ 0 ∉ nodes ∧
    Segment (fun node => (fsMountAt memory node).next) id (fun _ _ after => after) 0 nodes 0

/-- The bytes of a path with its zero, and those of the records. -/
def Live (path : Word) (characters : List Byte) (nodes : List Word) (x : Word) : Prop :=
  Within path (characters.length + 1) x ∨ ∃ node ∈ nodes, Within node sizeofFsMount.toNat x

/-- kmalloc has kept what is live and returned a block of its own. -/
structure Fresh (live : Word → Prop) (heap : Heap) (mount : Word) (middle : Heap) : Prop where
  present : mount ≠ 0
  apart : ∀ x, live x → ¬Within mount sizeofFsMount.toNat x
  kept : ∀ x, live x → middle.mem x = heap.mem x

/-- The list after fs_mount, when `nodes` were mounted before. -/
structure Mounted (characters : List Byte) (root : Word) (nodes : List Word) (heap : Heap) (t : Fs) (next : Heap) :
    Prop where
  listed : MountList next.mem t.mountPoints (t.mountPoints :: nodes)
  root : (fsMountAt next.mem t.mountPoints).root = root
  mountpoint : StringAt next.mem t.mountPoints (characters.take (FS_PATH_MAX - 1))
  rest : ∀ node ∈ nodes, fsMountAt next.mem node = fsMountAt heap.mem node

/-- A heap with room for the record gives such a block. -/
theorem fresh_of_room {fuel bytes : Nat} {heap : Heap} {blocks : List Block} {live : Word → Prop}
    (tiling : Tiling heap blocks) (room : Room blocks (bytes + 1048)) (spare : 8 ≤ bytes)
    (enough : blocks.length < fuel) (kept : ∀ x, live x → Kept blocks x) :
    ∃ mount middle, kmalloc fuel sizeofFsMount heap = .ok (mount, middle) ∧ Fresh live heap mount middle := by
  obtain ⟨mount, middle, rest, allocated, served, -⟩ :
      ∃ mount middle rest, kmalloc fuel sizeofFsMount heap = .ok (mount, middle) ∧
        Served heap blocks sizeofFsMount 0 mount middle rest ∧ Room rest bytes :=
    kmallocAp_served tiling (show sizeofFsMount ≠ 0 by decide) room spare
      (fun present : (0 : Word) ≠ 0 => present.elim rfl) enough
  refine ⟨mount, middle, allocated, ?_, ?_, ?_⟩
  · have low := served.low
    rintro rfl
    exact absurd low (by decide)
  · intro x alive inside
    exact (served.payload x inside).2 (kept x alive)
  · intro x alive
    exact served.same x (kept x alive) (fun present => (present rfl).elim)

theorem fsMountAt_congr {first second : Mem} {node : Word} (same : ∀ x, Within node 1032 x → second x = first x) :
    fsMountAt second node = fsMountAt first node := by
  have field : ∀ offset : Word, offset.toNat + 4 ≤ 1032 →
      load32 second (node + offset) = load32 first (node + offset) := fun offset room =>
    load32_congr fun x inside => same x (within_sub offset room inside)
  have path : ∀ i : Fin FS_PATH_MAX, second (node + BitVec.ofNat 32 i) = first (node + BitVec.ofNat 32 i) := by
    intro i
    apply same
    have bound : i.val < 1024 := i.isLt
    unfold Within
    bv_omega
  simp only [fsMountAt, path, field 1024 (by decide), field 1028 (by decide)]

/-! The stores of fs_mount. -/

section stores
variable {memory : Mem} {mount path root mountPoints : Word}

theorem fillMount_outside : SameOutside (Within mount 1032) memory (fillMount memory mount path root mountPoints) := by
  have copied : SameOutside (Within mount 1032) memory (strncpy memory mount path 1023) :=
    (strncpy_outside memory mount path 1023 (by decide)).mono fun x inside => Nat.lt_of_lt_of_le inside (by decide)
  exact (copied.trans (store_field_outside 1024 root (by decide))).trans
    (store_field_outside 1028 mountPoints (by decide))

theorem fillMount_root : (fsMountAt (fillMount memory mount path root mountPoints) mount).root = root := by
  change load32 (store32 (store32 _ (mount + 1024) root) (mount + 1028) mountPoints) (mount + 1024) = root
  rw [load32_store32_apart (apart_words (by bv_omega) (by bv_omega)), load32_store32]

theorem fillMount_next : (fsMountAt (fillMount memory mount path root mountPoints) mount).next = mountPoints :=
  load32_store32 _ _ _

/-- The first 1024 bytes are those that strncpy leaves. -/
theorem fillMount_mountpoint {k : Nat} (bound : k < 1024) :
    fillMount memory mount path root mountPoints (mount + BitVec.ofNat 32 k) =
      strncpy memory mount path 1023 (mount + BitVec.ofNat 32 k) := by
  change store32 (store32 (strncpy memory mount path 1023) (mount + 1024) root) (mount + 1028) mountPoints _ = _
  rw [store32_outside (by unfold Within; bv_omega), store32_outside (by unfold Within; bv_omega)]

/-- The last of them is not written. -/
theorem fillMount_last : fillMount memory mount path root mountPoints (mount + 1023) = memory (mount + 1023) := by
  have copied : fillMount memory mount path root mountPoints (mount + BitVec.ofNat 32 1023) =
      strncpy memory mount path 1023 (mount + BitVec.ofNat 32 1023) := fillMount_mountpoint (by decide)
  refine copied.trans (strncpy_outside memory mount path 1023 (by decide) _ ?_)
  unfold Within
  bv_omega

/-- The mount point ends where the path does, and a long one at the byte that is not written. -/
theorem fillMount_string {characters : List Byte} (string : StringAt memory path characters)
    (apart : ∀ k ≤ characters.length, ¬Within mount 1023 (path + BitVec.ofNat 32 k)) :
    StringAt (fillMount memory mount path root mountPoints) mount (characters.take (FS_PATH_MAX - 1)) ↔
      characters.length < FS_PATH_MAX - 1 ∨ memory (mount + 1023) = 0 := by
  have copied : ∀ k < 1023, fillMount memory mount path root mountPoints (mount + BitVec.ofNat 32 k) =
      characters.getD k 0 := fun k bound =>
    (fillMount_mountpoint (by omega)).trans (strncpy_spec string (by decide) apart k bound)
  constructor
  · intro stored
    by_cases short : characters.length < FS_PATH_MAX - 1
    · exact Or.inl short
    · have ends := CString.ends stored
      rw [List.length_take, Nat.min_eq_left (Nat.le_of_not_lt short)] at ends
      exact Or.inr (fillMount_last.symm.trans ends)
  · intro fits
    have ends : fillMount memory mount path root mountPoints
        (mount + BitVec.ofNat 32 (0 + (characters.take 1023).length)) = 0 := by
      rw [Nat.zero_add, List.length_take]
      by_cases short : characters.length < 1023
      · rw [Nat.min_eq_right (Nat.le_of_lt short), copied _ short, List.getD_eq_default _ _ (Nat.le_refl _)]
      · rw [Nat.min_eq_left (Nat.le_of_not_lt short)]
        exact fillMount_last.trans (fits.resolve_left short)
    refine CString.of_get (fun zero => CString.nonzero string 0 (List.mem_of_mem_take zero) rfl) ?_ ends
    intro k c found
    rw [List.getElem?_take] at found
    obtain ⟨bound, found⟩ := Option.ite_none_right_eq_some.mp found
    rw [Nat.zero_add, copied k bound, List.getD_eq_getElem?_getD, found]
    rfl

/-- Records elsewhere are as before. -/
theorem fillMount_other {node : Word} (apart : ∀ x, Within node 1032 x → ¬Within mount 1032 x) :
    fsMountAt (fillMount memory mount path root mountPoints) node = fsMountAt memory node := by
  have same : ∀ x, Within node 1032 x → fillMount memory mount path root mountPoints x = memory x :=
    fun x inside => fillMount_outside x (apart x inside)
  exact fsMountAt_congr same

end stores

/-! One call. -/

section call
variable {path mount : Word} {characters : List Byte} {nodes : List Word} {heap middle : Heap} {s : Fs}

/-- The record is at the head of the list in any case. -/
theorem fillMount_listed (root : Word) (fresh : Fresh (Live path characters nodes) heap mount middle)
    (listed : MountList heap.mem s.mountPoints nodes) :
    MountList (fillMount middle.mem mount path root s.mountPoints) mount (mount :: nodes) ∧
      ∀ node ∈ nodes, fsMountAt (fillMount middle.mem mount path root s.mountPoints) node = fsMountAt heap.mem node := by
  have rest : ∀ node ∈ nodes,
      fsMountAt (fillMount middle.mem mount path root s.mountPoints) node = fsMountAt heap.mem node := by
    intro node member
    have alive : ∀ x, Within node 1032 x → Live path characters nodes x :=
      fun x inside => Or.inr ⟨node, member, inside⟩
    rw [fillMount_other fun x inside => fresh.apart x (alive x inside)]
    exact fsMountAt_congr fun x inside => fresh.kept x (alive x inside)
  have next : ∀ node ∈ nodes, (fsMountAt (fillMount middle.mem mount path root s.mountPoints) node).next =
      (fsMountAt heap.mem node).next := fun node member => congrArg FsMount.next (rest node member)
  obtain ⟨head, nonzero, linked⟩ := listed
  have moved : Segment (fun node => (fsMountAt (fillMount middle.mem mount path root s.mountPoints) node).next) id
      (fun _ _ after => after) mount nodes 0 := by
    apply linked.reenter
    · rintro node after rfl
      exact (next node List.mem_cons_self).trans linked.1
    · exact fun node member => next node (List.mem_of_mem_tail member)
  refine ⟨⟨rfl, ?_, ?_, moved⟩, rest⟩
  · rw [List.mem_cons, not_or]
    exact ⟨Ne.symm fresh.present, nonzero⟩
  · rw [head]
    exact fillMount_next

/-- All that the stores leave is right, but for the end of a long path. -/
theorem fillMount_mounted (root : Word) (fresh : Fresh (Live path characters nodes) heap mount middle)
    (string : StringAt heap.mem path characters) (listed : MountList heap.mem s.mountPoints nodes) :
    Mounted characters root nodes heap { s with mountPoints := mount }
        { middle with mem := fillMount middle.mem mount path root s.mountPoints } ↔
      characters.length < FS_PATH_MAX - 1 ∨ middle.mem (mount + 1023) = 0 := by
  have alive : ∀ k ≤ characters.length, Live path characters nodes (path + BitVec.ofNat 32 k) := by
    intro k bound
    have top := string.length_lt
    left
    unfold Within
    bv_omega
  have kept : StringAt middle.mem path characters :=
    string.frame fun k _ bound => fresh.kept _ (alive k (by omega))
  have apart : ∀ k ≤ characters.length, ¬Within mount 1023 (path + BitVec.ofNat 32 k) :=
    fun k bound inside => fresh.apart _ (alive k bound) (Nat.lt_of_lt_of_le inside (by decide))
  obtain ⟨whole, rest⟩ := fillMount_listed root fresh listed
  constructor
  · intro mounted
    exact (fillMount_string kept apart).mp mounted.mountpoint
  · intro fits
    exact ⟨whole, fillMount_root, (fillMount_string kept apart).mpr fits, rest⟩

theorem fsMount_eq {fuel : Nat} (root : Word) (s : Fs) (allocated : kmalloc fuel sizeofFsMount heap = .ok (mount, middle)) :
    fsMount fuel path root heap s = .ok (0, { s with mountPoints := mount },
      { middle with mem := fillMount middle.mem mount path root s.mountPoints }) := by
  rw [fsMount, allocated]
  rfl

/-- fs_mount puts the record in front of the list, with its mount point a string exactly when the path is short or the
block had a zero at its end. -/
theorem fsMount_mounted_iff {fuel : Nat} (root : Word) (s : Fs)
    (allocated : kmalloc fuel sizeofFsMount heap = .ok (mount, middle))
    (fresh : Fresh (Live path characters nodes) heap mount middle) (string : StringAt heap.mem path characters)
    (listed : MountList heap.mem s.mountPoints nodes) :
    ∃ t next, fsMount fuel path root heap s = .ok (0, t, next) ∧
      (Mounted characters root nodes heap t next ↔
        characters.length < FS_PATH_MAX - 1 ∨ middle.mem (mount + 1023) = 0) :=
  ⟨_, _, fsMount_eq root s allocated, fillMount_mounted root fresh string listed⟩

end call

/-! Used memory, with one zero behind the paths. -/

def used : Mem := fun x => if x = 0x13FF then 0 else 0x41
def usedHeap : Heap := initHeap (uninitialised used)
def noMounts : Fs := { fsRootNode := 0, fdTable := fun _ => ⟨0, 0, 0⟩, mountPoints := 0 }

theorem used_path {path : Word} {n : Nat} (ends : path.toNat + n = 0x13FF) :
    StringAt usedHeap.mem path (List.replicate n 0x41) := by
  have same : ∀ k ≤ n, usedHeap.mem (path + BitVec.ofNat 32 k) = used (path + BitVec.ofNat 32 k) := by
    intro k bound
    exact initHeap_outside (not_within (by decide) (Or.inl (by bv_omega)))
  refine CString.of_get (by simp) ?_ ?_
  · intro k c found
    obtain ⟨bound, rfl⟩ : k < n ∧ 0x41 = c := by simpa [List.getElem?_replicate] using found
    rw [Nat.zero_add, same k (Nat.le_of_lt bound)]
    exact if_neg (by bv_omega)
  · rw [List.length_replicate, Nat.zero_add, same n (Nat.le_refl n)]
    exact if_pos (by bv_omega)

theorem used_fresh {path : Word} {n : Nat} (ends : path.toNat + n = 0x13FF) :
    ∃ mount middle, kmalloc 2 sizeofFsMount usedHeap = .ok (mount, middle) ∧
      Fresh (Live path (List.replicate n 0x41) []) usedHeap mount middle := by
  have tiling : Tiling usedHeap [KmallocRequests.wholeHeap] := initHeap_tiling rfl
  have room : Room [KmallocRequests.wholeHeap] (8 + 1048) :=
    ⟨_, List.mem_singleton_self _, rfl, by decide⟩
  refine fresh_of_room tiling room (Nat.le_refl 8) (Nat.lt_succ_self 1) ?_
  rintro x (inside | ⟨node, member, -⟩)
  · intro block member
    rw [List.mem_singleton.mp member]
    have below : x.toNat < 0xD0000000 := by
      rw [List.length_replicate] at inside
      unfold Within at inside
      bv_omega
    exact not_within (by decide) (Or.inl below)
  · exact absurd member List.not_mem_nil

theorem no_mounts : MountList usedHeap.mem noMounts.mountPoints [] := ⟨rfl, List.not_mem_nil, trivial⟩

/-- A path of one character. -/
theorem fsMount_mounted_short : ∃ mount middle t next, kmalloc 2 sizeofFsMount usedHeap = .ok (mount, middle) ∧
    fsMount 2 0x13FE 0x2000 usedHeap noMounts = .ok (0, t, next) ∧
      Mounted (List.replicate 1 0x41) 0x2000 [] usedHeap t next := by
  obtain ⟨mount, middle, allocated, fresh⟩ := used_fresh (show (0x13FE : Word).toNat + 1 = 0x13FF by decide)
  obtain ⟨t, next, returned, mounted⟩ :=
    fsMount_mounted_iff 0x2000 noMounts allocated fresh (used_path (by decide)) no_mounts
  exact ⟨mount, middle, t, next, allocated, returned, mounted.mpr (Or.inl (by decide))⟩

/-- One of 1023 characters. -/
theorem fsMount_unmounted :
    ¬∀ (fuel : Nat) (path root mount : Word) (heap middle : Heap) (s : Fs) (characters : List Byte) (nodes : List Word),
      kmalloc fuel sizeofFsMount heap = .ok (mount, middle) →
      Fresh (Live path characters nodes) heap mount middle → StringAt heap.mem path characters →
      MountList heap.mem s.mountPoints nodes → ∀ t next, fsMount fuel path root heap s = .ok (0, t, next) →
      Mounted characters root nodes heap t next := by
  intro claim
  have ends : (0x1000 : Word).toNat + 1023 = 0x13FF := by decide
  obtain ⟨mount, middle, allocated, fresh⟩ := used_fresh ends
  have string := used_path ends
  have mounted := claim _ _ 0 _ _ _ _ _ _ allocated fresh string no_mounts _ _ (fsMount_eq 0 noMounts allocated)
  have former : (kmalloc 2 sizeofFsMount usedHeap).toOption.map (fun result => result.2.mem (result.1 + 1023)) =
      some 0x41 := by
    decide +kernel
  rw [allocated] at former
  have byte : middle.mem (mount + 1023) = 0x41 := Option.some.inj former
  rcases (fillMount_mounted 0 fresh string no_mounts).mp mounted with short | zero
  · rw [List.length_replicate] at short
    exact absurd short (by decide)
  · exact absurd (byte.symm.trans zero) (by decide)

end Vaelen.Kernel.VfsMount
