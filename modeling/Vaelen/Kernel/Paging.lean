import Vaelen.Kernel.Kmalloc
import Vaelen.Kernel.Frames

/-!
Page directories and page tables of mm.c in flat memory, and mm_clone_directory on
them. Entries are words whose bit fields are those of page_t; mem_bitmap is apart from
the memory that the pages and directories lie in.
-/

namespace Vaelen.Kernel.Paging
open Vaelen.Base Platform Kmalloc Frames

/-- The memory, the heap and the statics of mm.c. -/
structure Mm where
  heap : Heap
  frames : FrameState
  kernelDirectory : Word
  currentDirectory : Word

namespace Mm

def mem (s : Mm) : Mem := s.heap.mem
def write (s : Mm) (memory : Mem) : Mm := { s with heap := { s.heap with mem := memory } }

@[simp] theorem write_mem (s : Mm) (memory : Mem) : (s.write memory).mem = memory := rfl
@[simp] theorem write_frames (s : Mm) (memory : Mem) : (s.write memory).frames = s.frames := rfl
@[simp] theorem write_write (s : Mm) (first second : Mem) :
    (s.write first).write second = s.write second := rfl
@[simp] theorem write_self (s : Mm) : s.write s.mem = s := rfl

end Mm

/-! The layout of page_t, page_table_t and page_directory_t. -/

def pageOfWord (word : Word) : Page where
  present := word.extractLsb' 0 1
  rw := word.extractLsb' 1 1
  user := word.extractLsb' 2 1
  accessed := word.extractLsb' 3 1
  dirty := word.extractLsb' 4 1
  unused := word.extractLsb' 5 7
  frame := word.extractLsb' 12 20

def wordOfPage (page : Page) : Word :=
  page.frame ++ page.unused ++ page.dirty ++ page.accessed ++ page.user ++ page.rw ++ page.present

abbrev sizeofPageTable : Word := 4096
abbrev sizeofPageDirectory : Word := 8196

def pageAt (table : Word) (j : Nat) : Word := table + BitVec.ofNat 32 (4 * j)
def tablesAt (dir : Word) (i : Nat) : Word := dir + BitVec.ofNat 32 (4 * i)
def tablesPhysicalAt (dir : Word) (i : Nat) : Word := dir + BitVec.ofNat 32 (4096 + 4 * i)
def physicalAddrAt (dir : Word) : Word := dir + 8192

def page (memory : Mem) (address : Word) : Page := pageOfWord (load32 memory address)
def setPage (memory : Mem) (address : Word) (page : Page) : Mem :=
  store32 memory address (wordOfPage page)
def setFrame (memory : Mem) (address : Word) (frame : BitVec 20) : Mem :=
  setPage memory address { page memory address with frame := frame }

def kernelTable (s : Mm) (i : Nat) : Word := load32 s.mem (tablesAt s.kernelDirectory i)
def currentTable (s : Mm) (i : Nat) : Word := load32 s.mem (tablesAt s.currentDirectory i)

/-! The code. -/

def mmAllocFrame (s : Mm) (address isKernel isWriteable : Word) : Except Stop Mm := do
  let (frames, page) ← s.frames.mmAllocFrame (page s.mem address) isKernel isWriteable
  return { s with frames := frames }.write (setPage s.mem address page)

/-- The body of the loop over the entries of one table. -/
def clonePage (table oldTable : Word) (s : Mm) (j : Nat) : Except Stop Mm :=
  let newPage := pageAt table j
  let oldPage := pageAt oldTable j
  if (page s.mem oldPage).frame = 0 then .ok s
  else do
    let tmpFrame := (page s.mem oldPage).frame
    let s := s.write (setFrame s.mem oldPage 0)
    let s ← mmAllocFrame s newPage 0 ((page s.mem oldPage).rw.setWidth 32)
    let physAddr := tmpFrame.setWidth 32 * PAGE_SIZE
    let s := s.write (memcpy s.mem ((page s.mem newPage).frame.setWidth 32 * PAGE_SIZE) physAddr
      PAGE_SIZE.toNat)
    return s.write (setFrame s.mem oldPage tmpFrame)

/-- The body of the loop over the tables. -/
def cloneTable (fuel : Nat) (dir : Word) (s : Mm) (i : Nat) : Except Stop Mm :=
  if kernelTable s i = 0 then .ok s
  else if kernelTable s i = currentTable s i then
    let s := s.write (store32 s.mem (tablesAt dir i) (kernelTable s i))
    .ok (s.write (store32 s.mem (tablesPhysicalAt dir i)
      (load32 s.mem (tablesPhysicalAt s.kernelDirectory i))))
  else do
    let (table, heap) ← kmallocAp fuel sizeofPageTable (tablesPhysicalAt dir i) s.heap
    let s := { s with heap := heap }
    let s := s.write (memcpy s.mem table (currentTable s i) sizeofPageTable.toNat)
    let s ← (List.range 1024).foldlM (clonePage table (currentTable s i)) s
    return s.write (store32 s.mem (tablesAt dir i) table)

/-- `dir` is what the pointer holds before it is assigned: its physical_addr is passed on. -/
def mmCloneDirectory (fuel : Nat) (dir : Word) (s : Mm) : Except Stop (Word × Mm) := do
  let (dir, heap) ← kmallocAp fuel sizeofPageDirectory (physicalAddrAt dir) s.heap
  let s := { s with heap := heap }
  let s := s.write (memset s.mem dir 0 sizeofPageDirectory.toNat)
  let s ← (List.range 1024).foldlM (cloneTable fuel dir) s
  return (dir, s)

/-! Entries. -/

theorem pageOfWord_wordOfPage (page : Page) : pageOfWord (wordOfPage page) = page := by
  obtain ⟨present, rw, user, accessed, dirty, unused, frame⟩ := page
  simp only [pageOfWord, wordOfPage, Page.mk.injEq]
  refine ⟨?_, ?_, ?_, ?_, ?_, ?_, ?_⟩
  all_goals
    ext k bound
    simp only [BitVec.getElem_extractLsb', BitVec.getLsbD_append]
    grind

theorem wordOfPage_pageOfWord (word : Word) : wordOfPage (pageOfWord word) = word := by
  ext k bound
  simp only [wordOfPage, pageOfWord]
  grind

theorem page_setPage (memory : Mem) (address : Word) (entry : Page) :
    page (setPage memory address entry) address = entry := by
  rw [page, setPage, load32_store32, pageOfWord_wordOfPage]

theorem page_setPage_apart {memory : Mem} {address other : Word} {entry : Page}
    (apart : Apart other 4 address 4) :
    page (setPage memory address entry) other = page memory other := by
  rw [page, setPage, load32_store32_apart apart, page]

/-- Writing an entry back as it is. -/
theorem setPage_page (memory : Mem) (address : Word) :
    setPage memory address (page memory address) = memory := by
  rw [setPage, page, wordOfPage_pageOfWord, store32_load32]

/-- The frame that clonePage takes out of an entry is put back by its last statement. -/
theorem setFrame_setFrame (memory : Mem) (address : Word) (frame : BitVec 20) :
    setFrame (setFrame memory address frame) address (page memory address).frame = memory := by
  calc setFrame (setFrame memory address frame) address (page memory address).frame
    _ = setPage (setFrame memory address frame) address (page memory address) := by
      rw [setFrame, setFrame, page_setPage]
    _ = setPage memory address (page memory address) := store32_store32 memory address _ _
    _ = memory := setPage_page memory address

/-- An entry that has a frame is left alone. -/
theorem mmAllocFrame_taken (s : Mm) {address : Word} (isKernel isWriteable : Word)
    (taken : (page s.mem address).frame ≠ 0) :
    mmAllocFrame s address isKernel isWriteable = .ok s := by
  rw [mmAllocFrame, FrameState.mmAllocFrame, if_pos taken]
  change Except.ok (s.write (setPage s.mem address (page s.mem address))) = _
  rw [setPage_page, Mm.write_self]

/-- An entry of the new table that is a copy of the old one makes the loop body do nothing. -/
theorem clonePage_copied {table oldTable : Word} {s : Mm} {j : Nat}
    (apart : Apart (pageAt table j) 4 (pageAt oldTable j) 4)
    (copied : page s.mem (pageAt table j) = page s.mem (pageAt oldTable j)) :
    clonePage table oldTable s j = .ok s := by
  unfold clonePage
  by_cases unused : (page s.mem (pageAt oldTable j)).frame = 0
  · simp only [if_pos unused]
  · let cleared := s.write (setFrame s.mem (pageAt oldTable j) 0)
    have same : page cleared.mem (pageAt table j) = page s.mem (pageAt oldTable j) :=
      (page_setPage_apart apart).trans copied
    have taken : (page cleared.mem (pageAt table j)).frame ≠ 0 := by
      rw [same]
      exact unused
    simp only [if_neg unused]
    rw [mmAllocFrame_taken cleared _ _ taken]
    change Except.ok (s.write (setFrame (memcpy cleared.mem
      ((page cleared.mem (pageAt table j)).frame.setWidth 32 * PAGE_SIZE) _ _) _ _)) = _
    rw [same, memcpy_self]
    change Except.ok (s.write (setFrame (setFrame s.mem _ 0) _ _)) = _
    rw [setFrame_setFrame, Mm.write_self]

end Vaelen.Kernel.Paging
