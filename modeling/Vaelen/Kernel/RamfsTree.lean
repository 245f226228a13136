import Vaelen.Base.Ancestry
import Vaelen.Kernel.Ramfs

/-!
The shape of the tree that runs of ramfs_create build, and what they leave of it: parent pointers
and child arrays say the same, and a name that is found stays bound to its file.
-/

namespace Vaelen.Kernel.RamfsTree
open Vaelen.Base Platform StringCompare Ramfs
open Vfs (FS_NAME_MAX FS_DIRECTORY)

abbrev Created (s : System) (call : Call) (t : System) : Prop :=
  (∃ characters, Valid s call characters) ∧ t = step s call

def parentOf (s : System) (node : Word) : Word := (s.tree.files node).parent

/-- What a file keeps from its creation on: everything but its children. -/
def identity (file : RamfsFile) : (Nat → Byte) × Word × Word × Word × Word × Word :=
  (file.name, file.data, file.size, file.capacity, file.type, file.parent)

/-- Each node but the root is a child of its parent alone, and once. -/
structure Shaped (root : Word) (s : System) : Prop where
  planted : root ∈ s.nodes
  nonzero : 0 ∉ s.nodes
  rooted : Rooted (parentOf s) 0 s.nodes
  top : ∀ node ∈ s.nodes, parentOf s node = 0 ↔ node = root
  linked : ∀ dir ∈ s.nodes, ∀ node ∈ s.nodes, node ∈ kids s.tree dir ↔ parentOf s node = dir
  once : ∀ dir ∈ s.nodes, (kids s.tree dir).Nodup

/-- The tree has grown at the ends of its child arrays. -/
structure Grown (s t : System) : Prop where
  nodes : s.nodes <:+ t.nodes
  kids : ∀ dir ∈ s.nodes, kids s.tree dir <+: kids t.tree dir
  kept : ∀ node ∈ s.nodes, identity (t.tree.files node) = identity (s.tree.files node)

variable {s t : System} {call : Call} {calls : List Call} {characters : List Byte} {root dir node : Word}
  {former : Tree}

/-! One call. -/

theorem record_parent (call : Call) : call.record.parent = call.parent := by
  unfold Call.record
  by_cases plain : call.type ≠ FS_DIRECTORY
  · rw [if_pos plain]
  · rw [if_neg plain]

section room
variable (room : (s.tree.files call.parent).childCount < RAMFS_MAX_FILES) (valid : Valid s call characters)
include room valid

theorem step_identity (member : node ∈ s.nodes) :
    identity ((step s call).tree.files node) = identity (s.tree.files node) := by
  change identity ((call.create s.tree).2.files node) = _
  by_cases here : node = call.parent
  · rw [here, create_parent room valid]
    rfl
  · rw [create_other room valid member here]

theorem step_parentOf (member : node ∈ s.nodes) : parentOf (step s call) node = parentOf s node :=
  congrArg (fun kept => kept.2.2.2.2.2) (step_identity room valid member)

theorem step_parentOf_new : parentOf (step s call) call.allocated.file = call.parent := by
  have record : (step s call).tree.files call.allocated.file = call.record := create_new room valid
  rw [parentOf, record, record_parent]

theorem step_kids_old (member : dir ∈ s.nodes) : kids (step s call).tree dir =
    kids s.tree dir ++ if dir = call.parent then [call.allocated.file] else [] := by
  by_cases here : dir = call.parent
  · rw [if_pos here, here]
    exact create_kids room valid
  · have same : (step s call).tree.files dir = s.tree.files dir := create_other room valid member here
    rw [if_neg here, List.append_nil, kids, same, ← kids]

theorem step_kids_new : kids (step s call).tree call.allocated.file = [] := by
  have record : (step s call).tree.files call.allocated.file = call.record := create_new room valid
  rw [kids, record, record_childCount]
  rfl

/-- The two records of a link, old or new, agree after the call. -/
theorem step_linked (sound : Sound s) (shaped : Shaped root s) :
    ∀ dir ∈ (step s call).nodes, ∀ node ∈ (step s call).nodes,
      node ∈ kids (step s call).tree dir ↔ parentOf (step s call) node = dir := by
  intro dir directory node member
  rw [create_nodes room valid] at directory member
  rcases List.mem_cons.mp directory with rfl | old
  · rw [step_kids_new room valid]
    refine iff_of_false List.not_mem_nil fun same => ?_
    rcases List.mem_cons.mp member with rfl | elder
    · rw [step_parentOf_new room valid] at same
      exact valid.fresh (same ▸ valid.parent)
    · rw [step_parentOf room valid elder] at same
      rcases shaped.rooted.parent_mem elder with none | listed
      · exact valid.present (same.symm.trans none)
      · exact valid.fresh (same ▸ listed)
  · rw [step_kids_old room valid old, List.mem_append]
    rcases List.mem_cons.mp member with rfl | elder
    · have unlisted : call.allocated.file ∉ kids s.tree dir := fun listed =>
        valid.fresh (sound.kids dir old _ listed).1
      rw [step_parentOf_new room valid, or_iff_right unlisted]
      by_cases here : dir = call.parent
      · simp [here]
      · simp [here, Ne.symm here]
    · have different : node ≠ call.allocated.file := fun same => valid.fresh (same ▸ elder)
      have last : node ∉ if dir = call.parent then [call.allocated.file] else [] := by
        by_cases here : dir = call.parent
        · simp [here, different]
        · simp [here]
      rw [step_parentOf room valid elder, or_iff_left last]
      exact shaped.linked dir old node elder

theorem step_once (sound : Sound s) (shaped : Shaped root s) :
    ∀ dir ∈ (step s call).nodes, (kids (step s call).tree dir).Nodup := by
  intro dir directory
  rw [create_nodes room valid] at directory
  rcases List.mem_cons.mp directory with rfl | old
  · rw [step_kids_new room valid]
    exact List.nodup_nil
  · rw [step_kids_old room valid old]
    by_cases here : dir = call.parent
    · rw [if_pos here]
      refine List.Nodup.append (shaped.once dir old) (List.nodup_singleton _) ?_
      rw [List.disjoint_singleton]
      exact fun listed => valid.fresh (sound.kids dir old _ listed).1
    · rw [if_neg here, List.append_nil]
      exact shaped.once dir old

theorem step_shaped (sound : Sound s) (shaped : Shaped root s) : Shaped root (step s call) := by
  have nodes := create_nodes room valid
  constructor
  · rw [nodes]
    exact List.mem_cons_of_mem _ shaped.planted
  · rw [nodes, List.mem_cons, not_or]
    exact ⟨Ne.symm valid.present, shaped.nonzero⟩
  · rw [nodes]
    constructor
    · rw [step_parentOf_new room valid]
      exact Or.inr valid.parent
    · exact shaped.rooted.congr fun node member => step_parentOf room valid member
  · intro node member
    rw [nodes] at member
    rcases List.mem_cons.mp member with rfl | old
    · rw [step_parentOf_new room valid]
      apply iff_of_false
      · exact fun null => shaped.nonzero (null ▸ valid.parent)
      · exact fun same => valid.fresh (same ▸ shaped.planted)
    · rw [step_parentOf room valid old]
      exact shaped.top node old
  · exact step_linked room valid sound shaped
  · exact step_once room valid sound shaped

theorem step_grown : Grown s (step s call) := by
  constructor
  · rw [create_nodes room valid]
    exact List.suffix_cons _ _
  · intro dir member
    rw [step_kids_old room valid member]
    exact List.prefix_append _ _
  · exact fun node member => step_identity room valid member

end room

theorem Grown.refl (s : System) : Grown s s :=
  ⟨List.suffix_rfl, fun _ _ => List.prefix_rfl, fun _ _ => rfl⟩

theorem Grown.trans {u : System} (first : Grown s t) (second : Grown t u) : Grown s u := by
  refine ⟨first.nodes.trans second.nodes, fun dir member => ?_, fun node member => ?_⟩
  · exact (first.kids dir member).trans (second.kids dir (first.nodes.subset member))
  · exact (second.kept node (first.nodes.subset member)).trans (first.kept node member)

/-! Runs of calls. -/

theorem plant_shaped (former : Tree) (nonzero : root ≠ 0) : Shaped root ⟨plant former root, [root]⟩ := by
  have record : (plant former root).files root = { RamfsFile.zero with type := FS_DIRECTORY } :=
    Function.update_self _ _ _
  have empty : kids (plant former root) root = [] := by
    rw [kids, record]
    rfl
  have orphan : parentOf ⟨plant former root, [root]⟩ root = 0 := by
    rw [parentOf, record]
    rfl
  constructor
  · exact List.mem_singleton_self root
  · rw [List.mem_singleton]
    exact Ne.symm nonzero
  · exact ⟨Or.inl orphan, trivial⟩
  · intro node member
    rw [List.mem_singleton.mp member]
    exact iff_of_true orphan rfl
  · intro dir directory node member
    rw [List.mem_singleton.mp directory, List.mem_singleton.mp member, empty, orphan]
    exact iff_of_false List.not_mem_nil (Ne.symm nonzero)
  · intro dir directory
    rw [List.mem_singleton.mp directory, empty]
    exact List.nodup_nil

theorem created_full (full : RAMFS_MAX_FILES ≤ (s.tree.files call.parent).childCount) (created : Created s call t) :
    t = s := created.2.trans (step_full full)

theorem builds_shaped (built : Builds former root calls s) (nonzero : root ≠ 0) : Sound s ∧ Shaped root s := by
  apply Runs.invariant built ⟨plant_sound former root, plant_shaped former nonzero⟩
  intro s call t good created
  by_cases full : RAMFS_MAX_FILES ≤ (s.tree.files call.parent).childCount
  · rw [created_full full created]
    exact good
  · obtain ⟨⟨characters, valid⟩, rfl⟩ := created
    have room := Nat.lt_of_not_le full
    exact ⟨good.1.step valid, step_shaped room valid good.1 good.2⟩

theorem run_grown (run : Runs Created s calls t) : Grown s t := by
  apply Runs.invariant run (Grown.refl s)
  intro middle call after grown created
  by_cases full : RAMFS_MAX_FILES ≤ (middle.tree.files call.parent).childCount
  · rw [created_full full created]
    exact grown
  · obtain ⟨⟨characters, valid⟩, rfl⟩ := created
    exact grown.trans (step_grown (Nat.lt_of_not_le full) valid)

/-- The directory "a" alone in its root. -/
theorem first_built : ∃ s, Builds ⟨fun _ => RamfsFile.zero, 0⟩ 0x1000 [makeA 0x2000] s ∧
    s.nodes = [0x2000, 0x1000] ∧ ramfsFind s.tree 0x1000 (literal "a") = some 0x2000 := by
  have valid : Valid bare (makeA 0x2000) [0x61] := makeA_valid (by decide) (by decide) (by decide)
  have room : (bare.tree.files (makeA 0x2000).parent).childCount < RAMFS_MAX_FILES := by decide
  have sound : Sound bare := plant_sound _ _
  exact ⟨step bare (makeA 0x2000), Runs.next ⟨⟨_, valid⟩, rfl⟩ (Runs.done _), create_nodes room valid,
    (found_iff room valid sound).mpr ⟨by decide, List.not_mem_nil⟩⟩

/-- In every tree that calls of ramfs_create have built a directory's array lists exactly the nodes
whose parent it is, each once, and from every node the parent pointers lead through the tree to the root. -/
theorem builds_tree (built : Builds former root calls s) (nonzero : root ≠ 0) :
    (∀ dir ∈ s.nodes, (kids s.tree dir).Nodup ∧
      ∀ node, node ∈ kids s.tree dir ↔ node ∈ s.nodes ∧ (s.tree.files node).parent = dir) ∧
    ∀ node ∈ s.nodes, ∃ depth < s.nodes.length, (fun file => (s.tree.files file).parent)^[depth] node = root ∧
      ∀ k ≤ depth, (fun file => (s.tree.files file).parent)^[k] node ∈ s.nodes := by
  obtain ⟨sound, shaped⟩ := builds_shaped built nonzero
  constructor
  · refine fun dir directory => ⟨shaped.once dir directory, fun node => ?_⟩
    constructor
    · intro listed
      have member := (sound.kids dir directory node listed).1
      exact ⟨member, (shaped.linked dir directory node member).mp listed⟩
    · exact fun ⟨member, parent⟩ => (shaped.linked dir directory node member).mpr parent
  · intro node member
    obtain ⟨depth, short, ends, line⟩ := shaped.rooted.reaches member
    refine ⟨depth, short, ?_, line⟩
    rw [Function.iterate_succ_apply'] at ends
    exact (shaped.top _ (line depth (Nat.le_refl depth))).mp ends

theorem builds_tree_first : ∃ s : System, s.nodes = [0x2000, 0x1000] ∧
    (∀ dir ∈ s.nodes, (kids s.tree dir).Nodup ∧
      ∀ node, node ∈ kids s.tree dir ↔ node ∈ s.nodes ∧ (s.tree.files node).parent = dir) ∧
    ∀ node ∈ s.nodes, ∃ depth < s.nodes.length, (fun file => (s.tree.files file).parent)^[depth] node = 0x1000 ∧
      ∀ k ≤ depth, (fun file => (s.tree.files file).parent)^[k] node ∈ s.nodes := by
  obtain ⟨s, built, nodes, _⟩ := first_built
  exact ⟨s, nodes, builds_tree built (by decide)⟩

/-- Once ramfs_find has found a file in a directory, the name stays bound to it there, whatever is
created later, and the file keeps all but its children. -/
theorem run_find {later : List Call} {name : Nat → Byte} {file : Word} (built : Builds former root calls s)
    (rest : Runs Created s later t) (member : dir ∈ s.nodes) (string : CString name 0 characters)
    (found : ramfsFind s.tree dir name = some file) (present : file ≠ 0) :
    ramfsFind t.tree dir name = some file ∧ identity (t.tree.files file) = identity (s.tree.files file) := by
  have sound := builds_sound built
  have soundAfter := builds_sound (Runs.append built rest)
  have grown := run_grown rest
  rw [ramfsFind_eq sound member string, Option.some.injEq] at found
  obtain ⟨child, first⟩ : ∃ child,
      ((kids s.tree dir).find? fun child => title (s.tree.files child) = characters) = some child := by
    rw [← Option.isSome_iff_exists]
    by_contra none
    rw [Option.not_isSome_iff_eq_none.mp none] at found
    exact present found.symm
  obtain rfl : child = file := by rwa [first] at found
  have inside := (sound.kids dir member child (List.mem_of_find?_eq_some first)).1
  obtain ⟨more, split⟩ := grown.kids dir member
  have same : (kids s.tree dir).find? (fun child => title (t.tree.files child) = characters) =
      (kids s.tree dir).find? fun child => title (s.tree.files child) = characters := by
    apply List.find?_congr
    intro other listed
    have name : (t.tree.files other).name = (s.tree.files other).name :=
      congrArg Prod.fst (grown.kept other (sound.kids dir member other listed).1)
    rw [title, name, title]
  refine ⟨?_, grown.kept child inside⟩
  rw [ramfsFind_eq soundAfter (grown.nodes.subset member) string, ← split, List.find?_append, same, first]
  rfl

/-- The second "a" is put behind the first. -/
theorem run_find_second : ∃ s t : System, t.nodes = [0x3000, 0x2000, 0x1000] ∧
    ramfsFind t.tree 0x1000 (literal "a") = some 0x2000 ∧
    identity (t.tree.files 0x2000) = identity (s.tree.files 0x2000) := by
  obtain ⟨s, built, nodes, found⟩ := first_built
  have root : 0x1000 ∈ s.nodes := by
    rw [nodes]
    decide
  have valid : Valid s (makeA 0x3000) [0x61] := by
    refine makeA_valid root (by decide) ?_
    rw [nodes]
    decide
  have few : (kids s.tree 0x1000).length ≤ s.nodes.length := by
    obtain ⟨sound, shaped⟩ := builds_shaped built (by decide)
    exact (shaped.once 0x1000 root).subperm (fun child listed => (sound.kids _ root child listed).1) |>.length_le
  have room : (s.tree.files (makeA 0x3000).parent).childCount < RAMFS_MAX_FILES := by
    rw [kids, List.length_map, List.length_range', nodes] at few
    exact Nat.lt_of_le_of_lt few (by decide)
  have after : (step s (makeA 0x3000)).nodes = [0x3000, 0x2000, 0x1000] := by
    rw [create_nodes room valid, nodes]
    rfl
  exact ⟨s, step s (makeA 0x3000), after,
    run_find built (Runs.next ⟨⟨_, valid⟩, rfl⟩ (Runs.done _)) root valid.string found (by decide)⟩

end Vaelen.Kernel.RamfsTree
