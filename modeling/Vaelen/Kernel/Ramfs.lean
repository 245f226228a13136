import Vaelen.Base.Runs
import Vaelen.Kernel.Shell
import Vaelen.Kernel.StringCompare
import Vaelen.Kernel.Vfs

/-!
The file tree of ramfs.c. The records lie in a store keyed by the address that kmalloc gave them. Names are cut
when a file is created and not when it is looked for, and nothing keeps a name from being used twice.
-/

namespace Vaelen.Kernel.Ramfs
open Vaelen.Base Platform Shell StringCompare
open Vfs (FS_NAME_MAX FS_DIRECTORY)

abbrev RAMFS_MAX_FILES : Nat := 64

/-- ramfs_file_t, without what lies behind its arrays. -/
structure RamfsFile where
  name : Nat → Byte
  data : Word
  size : Word
  capacity : Word
  type : Word
  parent : Word
  children : Nat → Word
  childCount : Nat

/-- What memset leaves. -/
def RamfsFile.zero : RamfsFile :=
  { name := fun _ => 0, data := 0, size := 0, capacity := 0, type := 0, parent := 0, children := fun _ => 0
    childCount := 0 }

structure Tree where
  files : Word → RamfsFile
  ramfsRoot : Word

/-- What kmalloc returns to ramfs_create. -/
structure Allocated where
  file : Word
  data : Word

def Tree.store (s : Tree) (file : Word) (record : RamfsFile) : Tree :=
  { s with files := Function.update s.files file record }

/-- The loop of ramfs_find from `i` on, with `left` children to go. A name in the tree ends within its array. -/
def findLoop (s : Tree) (dir : Word) (name : Nat → Byte) : Nat → Nat → Option Word
  | 0, _ => some 0
  | left + 1, i =>
      let child := (s.files dir).children i
      (strcmp FS_NAME_MAX 0 0 (pair (s.files child).name name)).bind fun compared =>
        if compared.1 = 0 then some child else findLoop s dir name left (i + 1)

def ramfsFind (s : Tree) (dir : Word) (name : Nat → Byte) : Option Word :=
  findLoop s dir name (s.files dir).childCount 0

def ramfsCreate (s : Tree) (parent : Word) (name : Nat → Byte) (type : Word) (allocated : Allocated) : Word × Tree :=
  if RAMFS_MAX_FILES ≤ (s.files parent).childCount then (0, s)
  else
    let file := { RamfsFile.zero with
      name := Shell.strncpy RamfsFile.zero.name name (FS_NAME_MAX - 1)
      type := type
      parent := parent }
    let file := if type ≠ FS_DIRECTORY then { file with data := allocated.data, capacity := PAGE_SIZE } else file
    let s := s.store allocated.file file
    let dir := s.files parent
    (allocated.file, s.store parent { dir with
      children := Function.update dir.children dir.childCount allocated.file
      childCount := dir.childCount + 1 })

/-- ramfs_init up to its first ramfs_create; the empty name is what memset has left. -/
def plant (s : Tree) (root : Word) : Tree :=
  { files := Function.update s.files root { RamfsFile.zero with type := FS_DIRECTORY }, ramfsRoot := root }

def literal (name : String) : Nat → Byte := fun k => (chars name).getD k 0

def directories : List String := ["bin", "etc", "home", "tmp", "usr", "var", "dev", "proc", "lib"]

/-- `allocated` is what kmalloc returns to the calls of ramfs_create. -/
def ramfsInit (s : Tree) (root : Word) (allocated : List Allocated) : Tree :=
  (directories.zip allocated).foldl
    (fun s call => (ramfsCreate s root (literal call.1) FS_DIRECTORY call.2).2) (plant s root)

/-! The tree after calls of ramfs_create. -/

structure Call where
  parent : Word
  name : Nat → Byte
  type : Word
  allocated : Allocated

def Call.create (call : Call) (s : Tree) : Word × Tree := ramfsCreate s call.parent call.name call.type call.allocated

/-- The tree with the addresses of its records. -/
structure System where
  tree : Tree
  nodes : List Word

def step (s : System) (call : Call) : System :=
  { tree := (call.create s.tree).2
    nodes := if (call.create s.tree).1 = 0 then s.nodes else (call.create s.tree).1 :: s.nodes }

/-- The parent is in the tree, the name is a string and kmalloc returns a block that is not in use. -/
structure Valid (s : System) (call : Call) (characters : List Byte) : Prop where
  parent : call.parent ∈ s.nodes
  string : CString call.name 0 characters
  present : call.allocated.file ≠ 0
  fresh : call.allocated.file ∉ s.nodes

/-- The trees that the calls build on a new root. -/
def Builds (former : Tree) (root : Word) (calls : List Call) (s : System) : Prop :=
  Runs (fun s call t => (∃ characters, Valid s call characters) ∧ t = step s call) ⟨plant former root, [root]⟩ calls s

/-- ramfs_create and ramfs_find agree on one call. -/
structure Agrees (s : System) (call : Call) (characters : List Byte) : Prop where
  found : (call.create s.tree).1 ≠ 0 →
    ramfsFind (call.create s.tree).2 call.parent call.name = some (call.create s.tree).1
  others : (call.create s.tree).1 ≠ 0 → ∀ other text, CString other 0 text → text ≠ characters →
    ramfsFind (call.create s.tree).2 call.parent other = ramfsFind s.tree call.parent other
  full : RAMFS_MAX_FILES ≤ (s.tree.files call.parent).childCount → call.create s.tree = (0, s.tree)
  bounded : ∀ node ∈ (step s call).nodes, ((step s call).tree.files node).childCount ≤ RAMFS_MAX_FILES

/-! The names of a directory. -/

def title (file : RamfsFile) : List Byte := cstring FS_NAME_MAX file.name 0

def kids (s : Tree) (dir : Word) : List Word := (List.range' 0 (s.files dir).childCount).map (s.files dir).children

def titles (s : Tree) (dir : Word) : List (List Byte) := (kids s dir).map fun child => title (s.files child)

structure Sound (s : System) : Prop where
  count : ∀ node ∈ s.nodes, (s.tree.files node).childCount ≤ RAMFS_MAX_FILES
  kids : ∀ node ∈ s.nodes, ∀ child ∈ kids s.tree node, child ∈ s.nodes ∧ child ≠ 0
  named : ∀ node ∈ s.nodes, (title (s.tree.files node)).length < FS_NAME_MAX ∧
    CString (s.tree.files node).name 0 (title (s.tree.files node))

variable {s : System} {call : Call} {characters : List Byte} {dir : Word} {name : Nat → Byte}

theorem compare_eq {file : RamfsFile} (string : CString file.name 0 (title file))
    (short : (title file).length < FS_NAME_MAX) (looked : CString name 0 characters) :
    ∃ value reads, strcmp FS_NAME_MAX 0 0 (pair file.name name) = some (value, reads) ∧
      (value = 0 ↔ title file = characters) := by
  obtain ⟨reads, ended, -⟩ := strcmp_returns string looked short
  exact ⟨_, reads, ended, (firstDifference_signed string.nonzero looked.nonzero).equal⟩

/-- ramfs_find returns the first child with that name. -/
theorem ramfsFind_eq (sound : Sound s) (member : dir ∈ s.nodes) (string : CString name 0 characters) :
    ramfsFind s.tree dir name =
      some (((kids s.tree dir).find? fun child => title (s.tree.files child) = characters).getD 0) := by
  have loop : ∀ left i, i + left ≤ (s.tree.files dir).childCount → findLoop s.tree dir name left i =
      some ((((List.range' i left).map (s.tree.files dir).children).find? fun child =>
        title (s.tree.files child) = characters).getD 0) := by
    intro left
    induction left with
    | zero => exact fun i _ => rfl
    | succ left ih =>
      intro i bound
      have child : (s.tree.files dir).children i ∈ s.nodes := by
        refine (sound.kids dir member _ (List.mem_map_of_mem ?_)).1
        rw [List.mem_range'_1]
        omega
      obtain ⟨short, named⟩ := sound.named _ child
      obtain ⟨value, reads, compared, same⟩ := compare_eq named short string
      rw [List.range'_succ, List.map_cons, List.find?_cons, findLoop]
      simp only [compared, Option.bind_some, same]
      by_cases hit : title (s.tree.files ((s.tree.files dir).children i)) = characters
      · rw [if_pos hit, decide_eq_true hit]
        rfl
      · rw [if_neg hit, decide_eq_false hit]
        exact ih (i + 1) (by omega)
  exact loop _ 0 (by omega)

/-! One call. -/

/-- The record of the new file. -/
def Call.record (call : Call) : RamfsFile :=
  let file := { RamfsFile.zero with
    name := Shell.strncpy RamfsFile.zero.name call.name (FS_NAME_MAX - 1)
    type := call.type
    parent := call.parent }
  if call.type ≠ FS_DIRECTORY then { file with data := call.allocated.data, capacity := PAGE_SIZE } else file

theorem record_name (call : Call) :
    call.record.name = Shell.strncpy RamfsFile.zero.name call.name (FS_NAME_MAX - 1) := by
  unfold Call.record
  by_cases plain : call.type ≠ FS_DIRECTORY
  · rw [if_pos plain]
  · rw [if_neg plain]

theorem record_childCount (call : Call) : call.record.childCount = 0 := by
  unfold Call.record
  by_cases plain : call.type ≠ FS_DIRECTORY
  · rw [if_pos plain]
    rfl
  · rw [if_neg plain]
    rfl

/-- The array of the record is zero behind the last character that is copied. -/
theorem record_string (string : CString call.name 0 characters) :
    CString call.record.name 0 (characters.take 255) ∧ title call.record = characters.take 255 := by
  have stored : CString call.record.name 0 (characters.take 255) := by
    rw [record_name]
    exact strncpy_string string (Or.inr rfl)
  have short : (characters.take 255).length < FS_NAME_MAX :=
    Nat.lt_of_le_of_lt (List.length_take_le _ _) (by decide)
  exact ⟨stored, cstring_eq stored short⟩

theorem create_full (full : RAMFS_MAX_FILES ≤ (s.tree.files call.parent).childCount) :
    call.create s.tree = (0, s.tree) := if_pos full

section room
variable (room : (s.tree.files call.parent).childCount < RAMFS_MAX_FILES)
include room

theorem create_room : call.create s.tree = (call.allocated.file,
    (s.tree.store call.allocated.file call.record).store call.parent
      { (s.tree.store call.allocated.file call.record).files call.parent with
        children := Function.update ((s.tree.store call.allocated.file call.record).files call.parent).children
          ((s.tree.store call.allocated.file call.record).files call.parent).childCount call.allocated.file
        childCount := ((s.tree.store call.allocated.file call.record).files call.parent).childCount + 1 }) :=
  if_neg (Nat.not_le_of_lt room)

variable (valid : Valid s call characters)
include valid

theorem create_parent : (call.create s.tree).2.files call.parent = { s.tree.files call.parent with
    children := Function.update (s.tree.files call.parent).children (s.tree.files call.parent).childCount
      call.allocated.file
    childCount := (s.tree.files call.parent).childCount + 1 } := by
  have apart : call.parent ≠ call.allocated.file := fun same => valid.fresh (same ▸ valid.parent)
  simp only [create_room room, Tree.store, Function.update_self, Function.update_of_ne apart]

theorem create_new : (call.create s.tree).2.files call.allocated.file = call.record := by
  have apart : call.allocated.file ≠ call.parent := fun same => valid.fresh (same ▸ valid.parent)
  simp only [create_room room, Tree.store, Function.update_self, Function.update_of_ne apart]

theorem create_other (member : dir ∈ s.nodes) (other : dir ≠ call.parent) :
    (call.create s.tree).2.files dir = s.tree.files dir := by
  have apart : dir ≠ call.allocated.file := fun same => valid.fresh (same ▸ member)
  simp only [create_room room, Tree.store, Function.update_of_ne apart, Function.update_of_ne other]

theorem create_name (member : dir ∈ s.nodes) :
    ((call.create s.tree).2.files dir).name = (s.tree.files dir).name := by
  by_cases here : dir = call.parent
  · rw [here, create_parent room valid]
  · rw [create_other room valid member here]

/-- The new file is the last child. -/
theorem create_kids : kids (call.create s.tree).2 call.parent = kids s.tree call.parent ++ [call.allocated.file] := by
  rw [kids, create_parent room valid, List.range'_concat, List.map_append]
  congr 1
  · apply List.map_congr_left
    intro i inside
    rw [List.mem_range'_1] at inside
    exact Function.update_of_ne (by omega) _ _
  · simp

theorem create_nodes : (step s call).nodes = call.allocated.file :: s.nodes := by
  have file : (call.create s.tree).1 = call.allocated.file := by rw [create_room room]
  rw [step, file, if_neg valid.present]

/-- The records after the call: the new one, that of the directory, and the others as they were. -/
theorem record_cases {node : Word} (member : node ∈ (step s call).nodes) :
    node = call.allocated.file ∧ (step s call).tree.files node = call.record ∨
      node ∈ s.nodes ∧ (node = call.parent ∨ (step s call).tree.files node = s.tree.files node) := by
  rw [create_nodes room valid] at member
  rcases List.mem_cons.mp member with rfl | old
  · exact Or.inl ⟨rfl, create_new room valid⟩
  · refine Or.inr ⟨old, ?_⟩
    by_cases here : node = call.parent
    · exact Or.inl here
    · exact Or.inr (create_other room valid old here)

theorem step_count (sound : Sound s) : ∀ node ∈ (step s call).nodes,
    ((step s call).tree.files node).childCount ≤ RAMFS_MAX_FILES := by
  intro node member
  rcases record_cases room valid member with ⟨-, new⟩ | ⟨old, rfl | same⟩
  · rw [new, record_childCount]
    exact Nat.zero_le _
  · change ((call.create s.tree).2.files call.parent).childCount ≤ _
    rw [create_parent room valid]
    exact room
  · rw [same]
    exact sound.count node old

theorem step_kids (sound : Sound s) : ∀ node ∈ (step s call).nodes, ∀ child ∈ kids (step s call).tree node,
    child ∈ (step s call).nodes ∧ child ≠ 0 := by
  intro node member child listed
  have known : ∀ other ∈ s.nodes, child ∈ kids s.tree other → child ∈ (step s call).nodes ∧ child ≠ 0 := by
    intro other old earlier
    obtain ⟨inside, nonzero⟩ := sound.kids other old child earlier
    rw [create_nodes room valid]
    exact ⟨List.mem_cons_of_mem _ inside, nonzero⟩
  rcases record_cases room valid member with ⟨-, new⟩ | ⟨old, rfl | same⟩
  · rw [kids, new, record_childCount] at listed
    exact absurd listed List.not_mem_nil
  · have more : kids (step s call).tree call.parent = kids s.tree call.parent ++ [call.allocated.file] :=
      create_kids room valid
    rw [more] at listed
    rcases List.mem_append.mp listed with earlier | last
    · exact known _ old earlier
    · rw [List.mem_singleton.mp last, create_nodes room valid]
      exact ⟨List.mem_cons_self, valid.present⟩
  · rw [kids, same, ← kids] at listed
    exact known node old listed

theorem step_named (sound : Sound s) : ∀ node ∈ (step s call).nodes,
    (title ((step s call).tree.files node)).length < FS_NAME_MAX ∧
      CString ((step s call).tree.files node).name 0 (title ((step s call).tree.files node)) := by
  intro node member
  rcases record_cases room valid member with ⟨-, new⟩ | ⟨old, -⟩
  · obtain ⟨stored, titled⟩ := record_string valid.string
    rw [new, titled]
    exact ⟨Nat.lt_of_le_of_lt (List.length_take_le _ _) (by decide), stored⟩
  · have name : ((step s call).tree.files node).name = (s.tree.files node).name := create_name room valid old
    rw [title, name, ← title]
    exact sound.named node old

theorem step_sound (sound : Sound s) : Sound (step s call) :=
  ⟨step_count room valid sound, step_kids room valid sound, step_named room valid sound⟩

/-- The old children come first, under the names they had. -/
theorem ramfsFind_created (sound : Sound s) {other : Nat → Byte} {text : List Byte} (string : CString other 0 text) :
    ramfsFind (call.create s.tree).2 call.parent other =
      some ((((kids s.tree call.parent).find? fun child => title (s.tree.files child) = text).or
        (if characters.take 255 = text then some call.allocated.file else none)).getD 0) := by
  have parent : call.parent ∈ (step s call).nodes := by
    rw [create_nodes room valid]
    exact List.mem_cons_of_mem _ valid.parent
  have found : ramfsFind (call.create s.tree).2 call.parent other = _ :=
    ramfsFind_eq (step_sound room valid sound) parent string
  have old : (kids s.tree call.parent).find? (fun child => title ((call.create s.tree).2.files child) = text) =
      (kids s.tree call.parent).find? fun child => title (s.tree.files child) = text := by
    apply List.find?_congr
    intro child listed
    have name := create_name room valid (sound.kids _ valid.parent child listed).1
    rw [title, name, title]
  have new : title ((call.create s.tree).2.files call.allocated.file) = characters.take 255 := by
    rw [create_new room valid, (record_string valid.string).2]
  rw [found]
  change some (((kids (call.create s.tree).2 call.parent).find?
    fun child => title ((call.create s.tree).2.files child) = text).getD 0) = _
  rw [create_kids room valid, List.find?_append, old, List.find?_singleton, new]
  simp only [decide_eq_true_eq]

/-- The new file is found when its name is kept whole and is the first of that name. -/
theorem found_iff (sound : Sound s) :
    ramfsFind (call.create s.tree).2 call.parent call.name = some call.allocated.file ↔
      characters.length < FS_NAME_MAX ∧ characters ∉ titles s.tree call.parent := by
  have whole : characters.take 255 = characters ↔ characters.length < FS_NAME_MAX := by
    rw [List.take_eq_self_iff]
    exact Nat.lt_succ_iff.symm
  rw [ramfsFind_created room valid sound valid.string, Option.some.injEq]
  cases first : (kids s.tree call.parent).find? fun child => title (s.tree.files child) = characters with
  | some child =>
    have listed := List.mem_of_find?_eq_some first
    have named : title (s.tree.files child) = characters := by simpa using List.find?_some first
    apply iff_of_false
    · intro same
      have here : child = call.allocated.file := same
      exact valid.fresh (here ▸ (sound.kids _ valid.parent child listed).1)
    · exact fun new => new.2 (List.mem_map.mpr ⟨child, listed, named⟩)
  | none =>
    have new : characters ∉ titles s.tree call.parent := by
      intro member
      obtain ⟨child, listed, named⟩ := List.mem_map.mp member
      have other := List.find?_eq_none.mp first child listed
      exact other (decide_eq_true named)
    rw [Option.none_or]
    by_cases short : characters.length < FS_NAME_MAX
    · rw [if_pos (whole.mpr short)]
      exact iff_of_true rfl ⟨short, new⟩
    · rw [if_neg fun same => short (whole.mp same)]
      exact iff_of_false (fun null => valid.present null.symm) (fun fits => short fits.1)

/-- Then other names are found as before. -/
theorem others_same (sound : Sound s) (short : characters.length < FS_NAME_MAX) {other : Nat → Byte}
    {text : List Byte} (string : CString other 0 text) (differs : text ≠ characters) :
    ramfsFind (call.create s.tree).2 call.parent other = ramfsFind s.tree call.parent other := by
  rw [ramfsFind_created room valid sound string, ramfsFind_eq sound valid.parent string,
    List.take_of_length_le (Nat.le_of_lt_succ short), if_neg (Ne.symm differs), Option.or_none]

end room

/-! Every tree. -/

theorem plant_sound (former : Tree) (root : Word) : Sound ⟨plant former root, [root]⟩ := by
  have record : (plant former root).files root = { RamfsFile.zero with type := FS_DIRECTORY } :=
    Function.update_self _ _ _
  constructor
  · intro node member
    rw [List.mem_singleton.mp member, record]
    exact Nat.zero_le _
  · intro node member child listed
    rw [List.mem_singleton.mp member, kids, record] at listed
    exact absurd listed List.not_mem_nil
  · intro node member
    rw [List.mem_singleton.mp member, record]
    exact ⟨by decide, rfl⟩

theorem step_full (full : RAMFS_MAX_FILES ≤ (s.tree.files call.parent).childCount) : step s call = s := by
  rw [step, create_full full]
  rfl

theorem Sound.step (sound : Sound s) (valid : Valid s call characters) : Sound (step s call) := by
  by_cases full : RAMFS_MAX_FILES ≤ (s.tree.files call.parent).childCount
  · rw [step_full full]
    exact sound
  · exact step_sound (Nat.lt_of_not_le full) valid sound

theorem builds_sound {former : Tree} {root : Word} {calls : List Call} (built : Builds former root calls s) :
    Sound s := by
  apply Runs.invariant built (plant_sound former root)
  rintro s call t sound ⟨⟨characters, valid⟩, rfl⟩
  exact sound.step valid

/-- In every tree that calls of ramfs_create have built, the next call agrees with ramfs_find exactly when the
directory is full or the name is short and new in it. -/
theorem ramfsCreate_agrees_iff {former : Tree} {root : Word} {calls : List Call} (built : Builds former root calls s)
    (valid : Valid s call characters) : Agrees s call characters ↔
      RAMFS_MAX_FILES ≤ (s.tree.files call.parent).childCount ∨
        characters.length < FS_NAME_MAX ∧ characters ∉ titles s.tree call.parent := by
  have sound := builds_sound built
  by_cases full : RAMFS_MAX_FILES ≤ (s.tree.files call.parent).childCount
  · refine iff_of_true ⟨?_, ?_, ?_, (sound.step valid).count⟩ (Or.inl full)
    · rw [create_full full]
      exact fun present => absurd rfl present
    · rw [create_full full]
      exact fun present => absurd rfl present
    · exact create_full
  · have room := Nat.lt_of_not_le full
    have file : (call.create s.tree).1 = call.allocated.file := by rw [create_room room]
    have found := found_iff room valid sound
    rw [or_iff_right full, ← found]
    constructor
    · intro agrees
      exact file ▸ agrees.found (file ▸ valid.present)
    · intro first
      refine ⟨fun _ => file.symm ▸ first, fun _ other text string differs => ?_, fun filled => absurd filled full,
        (sound.step valid).count⟩
      exact others_same room valid sound (found.mp first).1 string differs

/-- A directory "a" in a new root. -/
def makeA (file : Word) : Call :=
  { parent := 0x1000, name := literal "a", type := FS_DIRECTORY, allocated := { file := file, data := 0 } }

def bare : System := ⟨plant ⟨fun _ => RamfsFile.zero, 0⟩ 0x1000, [0x1000]⟩

theorem makeA_valid {s : System} {file : Word} (root : 0x1000 ∈ s.nodes) (present : file ≠ 0) (fresh : file ∉ s.nodes) :
    Valid s (makeA file) [0x61] :=
  { parent := root, string := ⟨rfl, by decide, rfl⟩, present := present, fresh := fresh }

theorem makeA_bare : Valid bare (makeA 0x2000) [0x61] := makeA_valid (by decide) (by decide) (by decide)

theorem makeA_room : (bare.tree.files (makeA 0x2000).parent).childCount < RAMFS_MAX_FILES := by decide

theorem makeA_built : Builds ⟨fun _ => RamfsFile.zero, 0⟩ 0x1000 [makeA 0x2000] (step bare (makeA 0x2000)) :=
  Runs.next ⟨⟨_, makeA_bare⟩, rfl⟩ (Runs.done _)

theorem makeA_nodes : (step bare (makeA 0x2000)).nodes = [0x2000, 0x1000] := create_nodes makeA_room makeA_bare

/-- The root with "a" in it. -/
theorem makeA_titles : titles (step bare (makeA 0x2000)).tree 0x1000 = [[0x61]] := by
  have kids : Ramfs.kids (step bare (makeA 0x2000)).tree 0x1000 = [0x2000] := create_kids makeA_room makeA_bare
  have new : (step bare (makeA 0x2000)).tree.files 0x2000 = (makeA 0x2000).record := create_new makeA_room makeA_bare
  have named : title (makeA 0x2000).record = [0x61] := (record_string makeA_bare.string).2
  rw [titles, kids, List.map_singleton, new, named]

/-- A directory "b" beside it. -/
def makeB (file : Word) : Call :=
  { parent := 0x1000, name := literal "b", type := FS_DIRECTORY, allocated := { file := file, data := 0 } }

theorem ramfsCreate_agrees_second : Agrees (step bare (makeA 0x2000)) (makeB 0x3000) [0x62] := by
  have valid : Valid (step bare (makeA 0x2000)) (makeB 0x3000) [0x62] :=
    { parent := by
        rw [makeA_nodes]
        decide
      string := ⟨rfl, by decide, rfl⟩
      present := by decide
      fresh := by
        rw [makeA_nodes]
        decide }
  have new : [0x62] ∉ titles (step bare (makeA 0x2000)).tree (makeB 0x3000).parent := by
    change [0x62] ∉ titles _ 0x1000
    rw [makeA_titles]
    decide
  exact (ramfsCreate_agrees_iff makeA_built valid).mpr (Or.inr ⟨by decide, new⟩)

/-- The second "a" is not found behind the first. -/
theorem ramfsCreate_disagrees :
    ¬∀ (former : Tree) (root : Word) (calls : List Call) (s : System) (call : Call) (characters : List Byte),
      Builds former root calls s → Valid s call characters → Agrees s call characters := by
  intro claim
  have first := makeA_bare
  have room := makeA_room
  have built := makeA_built
  have nodes := makeA_nodes
  have second : Valid (step bare (makeA 0x2000)) (makeA 0x3000) [0x61] := by
    apply makeA_valid
    · rw [nodes]
      decide
    · decide
    · rw [nodes]
      decide
  have more : ((step bare (makeA 0x2000)).tree.files (makeA 0x3000).parent).childCount < RAMFS_MAX_FILES := by
    have record := create_parent room first
    change ((Call.create (makeA 0x2000) bare.tree).2.files (makeA 0x2000).parent).childCount < _
    rw [record]
    decide
  have agrees := claim _ _ _ _ _ _ built second
  have file : ((makeA 0x3000).create (step bare (makeA 0x2000)).tree).1 = 0x3000 := by
    rw [create_room more]
    rfl
  have found := agrees.found (file ▸ by decide)
  rw [file] at found
  refine ((found_iff more second (builds_sound built)).mp found).2 ?_
  change [0x61] ∈ titles (step bare (makeA 0x2000)).tree 0x1000
  rw [makeA_titles]
  exact List.mem_singleton_self _

/-! ramfs_init. -/

theorem literal_string {name : String} (nonzero : 0 ∉ chars name) : CString (literal name) 0 (chars name) := by
  refine CString.of_get nonzero ?_ ?_
  · intro i c found
    rw [Nat.zero_add, literal, List.getD_eq_getElem?_getD, found]
    rfl
  · rw [Nat.zero_add, literal, List.getD_eq_default _ _ (Nat.le_refl _)]

/-- The directories are new nodes one after the other. -/
theorem directories_build {former : Tree} {root : Word} (entries : List (String × Allocated)) {calls : List Call}
    (built : Builds former root calls s) (planted : root ∈ s.nodes)
    (strings : ∀ entry ∈ entries, 0 ∉ chars entry.1) (apart : (entries.map fun entry => entry.2.file).Nodup)
    (fresh : ∀ entry ∈ entries, entry.2.file ≠ 0 ∧ entry.2.file ∉ s.nodes) :
    ∃ calls nodes, Builds former root calls ⟨entries.foldl
      (fun s call => (ramfsCreate s root (literal call.1) FS_DIRECTORY call.2).2) s.tree, nodes⟩ := by
  induction entries generalizing s calls with
  | nil => exact ⟨calls, s.nodes, built⟩
  | cons entry entries ih =>
    let call : Call := { parent := root, name := literal entry.1, type := FS_DIRECTORY, allocated := entry.2 }
    obtain ⟨nonzero, unused⟩ := fresh entry List.mem_cons_self
    have valid : Valid s call (chars entry.1) :=
      { parent := planted
        string := literal_string (strings entry List.mem_cons_self)
        present := nonzero
        fresh := unused }
    obtain ⟨alone, rest⟩ := List.nodup_cons.mp apart
    have nodes : (step s call).nodes = s.nodes ∨ (step s call).nodes = entry.2.file :: s.nodes := by
      by_cases full : RAMFS_MAX_FILES ≤ (s.tree.files call.parent).childCount
      · exact Or.inl (congrArg System.nodes (step_full full))
      · exact Or.inr (create_nodes (Nat.lt_of_not_le full) valid)
    have one : Builds former root (calls ++ [call]) (step s call) := Runs.snoc built ⟨⟨_, valid⟩, rfl⟩
    refine ih one ?_ (fun later member => strings later (List.mem_cons_of_mem _ member)) rest ?_
    · rcases nodes with same | grown
      · exact same ▸ planted
      · exact grown ▸ List.mem_cons_of_mem _ planted
    · intro later member
      obtain ⟨nonzero, unused⟩ := fresh later (List.mem_cons_of_mem _ member)
      refine ⟨nonzero, ?_⟩
      rcases nodes with same | grown
      · exact same ▸ unused
      · rw [grown, List.mem_cons, not_or]
        refine ⟨fun same => alone ?_, unused⟩
        exact List.mem_map.mpr ⟨later, member, same⟩

/-- The tree of ramfs_init is one of those above. -/
theorem ramfsInit_builds (former : Tree) (root : Word) (allocated : List Allocated)
    (length : allocated.length = directories.length)
    (distinct : (root :: allocated.map Allocated.file).Nodup) (present : 0 ∉ allocated.map Allocated.file) :
    ∃ calls nodes, Builds former root calls ⟨ramfsInit former root allocated, nodes⟩ := by
  obtain ⟨new, apart⟩ := List.nodup_cons.mp distinct
  have second : (directories.zip allocated).map Prod.snd = allocated := List.map_snd_zip (Nat.le_of_eq length)
  have files : (directories.zip allocated).map (fun entry => entry.2.file) = allocated.map Allocated.file := by
    conv_rhs => rw [← second]
    rw [List.map_map]
    rfl
  have bare : Builds former root [] ⟨plant former root, [root]⟩ := Runs.done _
  apply directories_build (directories.zip allocated) bare (List.mem_singleton_self root)
  · have nonzero : ∀ name ∈ directories, 0 ∉ chars name := by decide
    exact fun entry member => nonzero _ (List.of_mem_zip member).1
  · exact files ▸ apart
  · intro entry member
    have listed : entry.2.file ∈ allocated.map Allocated.file := files ▸ List.mem_map_of_mem member
    refine ⟨fun null => present (null ▸ listed), fun inside => new ?_⟩
    rw [← List.mem_singleton.mp inside]
    exact listed

end Vaelen.Kernel.Ramfs
