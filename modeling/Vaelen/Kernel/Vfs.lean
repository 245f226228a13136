import Vaelen.Kernel.KmallocKept
import Vaelen.Kernel.Strings

/-!
The file layer of vfs.c: the nodes that fs_init allocates, path lookup as far as it is
implemented, and the table of file descriptors.
-/

namespace Vaelen.Kernel.Vfs
open Vaelen.Base Platform Strings Kmalloc KmallocBlocks KmallocTiling KmallocKept

abbrev FS_DIRECTORY : Word := 0x02
abbrev FS_NAME_MAX : Nat := 256
abbrev FS_PATH_MAX : Nat := 1024
abbrev FS_MAX_FDS : Nat := 256

structure FdEntry where
  node : Word
  offset : Word
  flags : Word
  deriving DecidableEq, Repr

/-- The static variables of vfs.c. -/
structure Fs where
  fsRootNode : Word
  fdTable : Fin FS_MAX_FDS → FdEntry
  mountPoints : Word

/-- fs_node_t: the name, seven words, six function pointers and ptr. -/
abbrev sizeofFsNode : Word := 312

/-- The stores of fs_create_node into the new node. -/
def fillNode (memory : Mem) (node name type mask uid gid parent : Word) : Mem :=
  let memory := memset memory node 0 sizeofFsNode.toNat
  let memory := strncpy memory node name (FS_NAME_MAX - 1)
  let memory := store32 memory (node + 256) mask
  let memory := store32 memory (node + 260) uid
  let memory := store32 memory (node + 264) gid
  let memory := store32 memory (node + 268) type
  let memory := store32 memory (node + 272) node
  if parent ≠ 0 then store32 memory (node + 308) parent else memory

def fsCreateNode (fuel : Nat) (name type mask uid gid parent : Word) (heap : Heap) :
    Except Stop (Word × Heap) := do
  let (node, heap) ← kmalloc fuel sizeofFsNode heap
  return (node, { heap with mem := fillNode heap.mem node name type mask uid gid parent })

/-- The directories that fs_init creates below the root, in order. -/
def directories : List (String × Word) :=
  [("bin", 0o755), ("etc", 0o755), ("home", 0o755), ("tmp", 0o777), ("usr", 0o755),
    ("var", 0o755), ("dev", 0o755), ("proc", 0o555), ("lib", 0o755), ("opt", 0o755),
    ("sbin", 0o755), ("sys", 0o755), ("mnt", 0o755), ("root", 0o700), ("boot", 0o755)]

/-- `literal` gives the addresses of the string literals. -/
def createDirectory (fuel : Nat) (literal : String → Word) (root : Word) (heap : Heap)
    (entry : String × Word) : Except Stop Heap := do
  let (_, heap) ← fsCreateNode fuel (literal entry.1) FS_DIRECTORY entry.2 0 0 root heap
  return heap

def fsInit (fuel : Nat) (literal : String → Word) (heap : Heap) (s : Fs) :
    Except Stop (Fs × Heap) := do
  let s := { s with fdTable := fun _ => { node := 0, offset := 0, flags := 0 } }
  let (root, heap) ← fsCreateNode fuel (literal "") FS_DIRECTORY 0o755 0 0 0 heap
  let s := { s with fsRootNode := root, mountPoints := 0 }
  let heap ← directories.foldlM (createDirectory fuel literal root) heap
  return (s, heap)

/-- `path` points into `memory`; 0x2F is the slash. -/
def fsTraverse (memory : Mem) (path : Word) (s : Fs) : Word :=
  if path = 0 ∨ memory path = 0 then s.fsRootNode
  else if memory path = 0x2F ∧ memory (path + 1) = 0 then s.fsRootNode
  else 0

def fsOpen (memory : Mem) (path flags : Word) (s : Fs) : Int × Fs :=
  match (List.finRange FS_MAX_FDS).find? fun i => (s.fdTable i).node == 0 with
  | some i =>
      let entry := { node := fsTraverse memory path s, offset := 0, flags := flags }
      ((i : Nat), { s with fdTable := Function.update s.fdTable i entry })
  | none => (-1, s)

def fsClose (fd : Int) (s : Fs) : Int × Fs :=
  if range : fd < 0 ∨ (FS_MAX_FDS : Int) ≤ fd then (-1, s)
  else
    let i : Fin FS_MAX_FDS := ⟨fd.toNat, by omega⟩
    if (s.fdTable i).node = 0 then (-1, s)
    else (0, { s with fdTable := Function.update s.fdTable i { s.fdTable i with node := 0 } })

/-- fs_read and fs_write return 0 on each of their paths. -/
def fsTransfer (fd : Int) (s : Fs) : Word :=
  if range : fd < 0 ∨ (FS_MAX_FDS : Int) ≤ fd then 0
  else if (s.fdTable ⟨fd.toNat, by omega⟩).node = 0 then 0
  else 0

def fsRead (fd : Int) (_offset _size _buffer : Word) (s : Fs) : Word := fsTransfer fd s
def fsWrite (fd : Int) (_offset _size _buffer : Word) (s : Fs) : Word := fsTransfer fd s

/-- fs_mount_t. -/
structure FsMount where
  mountpoint : Fin FS_PATH_MAX → Byte
  root : Word
  next : Word

abbrev sizeofFsMount : Word := 1032

def fsMountAt (memory : Mem) (mount : Word) : FsMount :=
  { mountpoint := fun i => memory (mount + BitVec.ofNat 32 i)
    root := load32 memory (mount + 1024)
    next := load32 memory (mount + 1028) }

/-- The stores of fs_mount into the new record. -/
def fillMount (memory : Mem) (mount path root mountPoints : Word) : Mem :=
  let memory := strncpy memory mount path (FS_PATH_MAX - 1)
  let memory := store32 memory (mount + 1024) root
  store32 memory (mount + 1028) mountPoints

def fsMount (fuel : Nat) (path root : Word) (heap : Heap) (s : Fs) : Except Stop (Int × Fs × Heap) := do
  let (mount, heap) ← kmalloc fuel sizeofFsMount heap
  return (0, { s with mountPoints := mount }, { heap with mem := fillMount heap.mem mount path root s.mountPoints })

/-! fs_init returns from every heap with room for the nodes. -/

/-- A word inside a record of `size` bytes. -/
theorem store_field_outside {memory : Mem} {record : Word} {size : Nat} (offset value : Word)
    (field : offset.toNat + 4 ≤ size) :
    SameOutside (Within record size) memory (store32 memory (record + offset) value) :=
  (SameOutside.store32 memory (record + offset) value).mono fun _ inside => within_sub offset field inside

/-- fs_create_node writes nowhere but into its node. -/
theorem fillNode_outside (memory : Mem) (node name type mask uid gid parent : Word) :
    SameOutside (Within node 312) memory (fillNode memory node name type mask uid gid parent) := by
  have cleared := memset_outside memory node 0 312 (by decide)
  have named : SameOutside (Within node 312) _ _ :=
    (strncpy_outside (memset memory node 0 312) node name 255 (by decide)).mono
      fun x inside => Nat.lt_of_lt_of_le inside (by decide)
  have filled := ((((cleared.trans named).trans (store_field_outside 256 mask (by decide))).trans
    (store_field_outside 260 uid (by decide))).trans
    (store_field_outside 264 gid (by decide))).trans
    ((store_field_outside 268 type (by decide)).trans (store_field_outside 272 node (by decide)))
  unfold fillNode
  by_cases root : parent = 0
  · simp only [root, ne_eq, not_true_eq_false, if_false]
    exact filled
  · simp only [ne_eq, root, not_false_eq_true, if_true]
    exact filled.trans (store_field_outside 308 parent (by decide))

theorem fsCreateNode_returns {fuel bytes : Nat} {heap : Heap} {blocks : List Block}
    (name type mask uid gid parent : Word) (tiling : Tiling heap blocks)
    (room : Room blocks (bytes + 328)) (spare : 8 ≤ bytes) (enough : blocks.length < fuel) :
    ∃ node next rest, fsCreateNode fuel name type mask uid gid parent heap = .ok (node, next) ∧
      Tiling next rest ∧ Room rest bytes ∧ rest.length ≤ blocks.length + 1 ∧ node ≠ 0 := by
  obtain ⟨node, middle, rest, allocated, served, left⟩ :
      ∃ node middle rest, kmalloc fuel sizeofFsNode heap = .ok (node, middle) ∧
        Served heap blocks sizeofFsNode 0 node middle rest ∧ Room rest bytes :=
    kmallocAp_served tiling (show sizeofFsNode ≠ 0 by decide) room spare
      (fun present : (0 : Word) ≠ 0 => present.elim rfl) enough
  have present : node ≠ 0 := by
    have low := served.low
    rintro rfl
    exact absurd low (by decide)
  have tiled : Tiling
      { middle with mem := fillNode middle.mem node name type mask uid gid parent } rest := by
    apply tiling_congr served.tiling
    apply (fillNode_outside middle.mem node name type mask uid gid parent).mono
    intro x inside
    exact (served.payload x inside).1
  refine ⟨node, _, rest, ?_, tiled, left, served.length, present⟩
  rw [fsCreateNode, allocated]
  rfl

theorem directories_return {fuel bytes : Nat} {heap : Heap} {blocks : List Block}
    (literal : String → Word) (root : Word) (entries : List (String × Word))
    (tiling : Tiling heap blocks) (room : Room blocks (bytes + 328 * entries.length))
    (spare : 8 ≤ bytes) (enough : blocks.length + entries.length < fuel) :
    ∃ next, entries.foldlM (createDirectory fuel literal root) heap = .ok next := by
  induction entries generalizing heap blocks with
  | nil => exact ⟨heap, rfl⟩
  | cons entry entries ih =>
    rw [List.length_cons] at room enough
    rw [Nat.mul_succ, ← Nat.add_assoc] at room
    obtain ⟨node, next, rest, created, tiled, left, length, _⟩ := fsCreateNode_returns
      (literal entry.1) FS_DIRECTORY entry.2 0 0 root tiling room (by omega)
      (show blocks.length < fuel by omega)
    obtain ⟨last, finished⟩ := ih tiled left (by omega)
    refine ⟨last, ?_⟩
    rw [List.foldlM_cons, createDirectory, created]
    exact finished

/-- The first call of kmalloc starts the heap. -/
theorem fsCreateNode_initHeap (fuel : Nat) (name type mask uid gid parent : Word) (heap : Heap) :
    fsCreateNode fuel name type mask uid gid parent (initHeap heap) =
      fsCreateNode fuel name type mask uid gid parent heap := by
  simp only [fsCreateNode, kmalloc, kmallocP, kmallocAp, initHeap_initHeap]

/-- fs_init returns with a root node and with no descriptor open. -/
theorem fsInit_returns {fuel bytes : Nat} {heap : Heap} {blocks : List Block}
    (literal : String → Word) (s : Fs) (tiling : Tiling (initHeap heap) blocks)
    (room : Room blocks (bytes + 328 * 16)) (spare : 8 ≤ bytes) (enough : blocks.length + 16 < fuel) :
    ∃ t next, fsInit fuel literal heap s = .ok (t, next) ∧ t.fsRootNode ≠ 0 := by
  have whole : Room blocks (bytes + 328 * 15 + 328) := room
  obtain ⟨root, middle, rest, created, tiled, left, length, present⟩ :=
    fsCreateNode_returns (literal "") FS_DIRECTORY 0o755 0 0 0 tiling whole (by omega)
      (show blocks.length < fuel by omega)
  obtain ⟨next, finished⟩ := directories_return literal root directories tiled left spare
    (show rest.length + 15 < fuel by omega)
  rw [fsCreateNode_initHeap] at created
  refine ⟨⟨root, fun _ => ⟨0, 0, 0⟩, 0⟩, next, ?_, present⟩
  rw [fsInit, created, ok_bind]
  change directories.foldlM (createDirectory fuel literal root) middle >>= _ = _
  rw [finished]
  rfl

end Vaelen.Kernel.Vfs
