import Vaelen.Kernel.Descriptors
import Vaelen.Kernel.Tasks
import Vaelen.Kernel.Vga

/-!
The system calls of syscall.c. sys_write sends descriptors 1 and 2 to the console, while
fs_open hands out whatever descriptor is lowest.
-/

namespace Vaelen.Kernel.Syscalls
open Vaelen.Base Platform Kmalloc Vfs Descriptors Vga Tasks

/-- What the system calls work on. -/
structure Services where
  files : Fs
  console : Console
  tasks : Scheduler

/-- The loop of sys_write runs while `i < len`, as signed numbers. -/
def buffer (memory : Mem) (buf len : Word) : List Byte :=
  (List.range len.toInt.toNat).map fun i => memory (buf + BitVec.ofNat 32 i)

def sysWrite (memory : Mem) (fd : Int) (buf len : Word) (files : Fs) (console : Console) :
    Word × Console :=
  if fd = 1 ∨ fd = 2 then (len, vgaWrite (buffer memory buf len) console)
  else (fsWrite fd 0 len buf files, console)

def sysRead (fd : Int) (buf len : Word) (files : Fs) : Word := fsRead fd 0 len buf files
def sysOpen (memory : Mem) (path flags : Word) (files : Fs) : Int × Fs := fsOpen memory path flags files
def sysClose (fd : Int) (files : Fs) : Int × Fs := fsClose fd files

def sysGetpid (tasks : Scheduler) : Word :=
  if tasks.currentTask ≠ 0 then (tasks.tasks tasks.currentTask).pid else 0

def sysBrk (addr : Word) (tasks : Scheduler) : Word × Scheduler :=
  if tasks.currentTask = 0 then (0, tasks)
  else
    let tasks :=
      if addr ≠ 0 then
        tasks.store tasks.currentTask { tasks.tasks tasks.currentTask with brk := addr }
      else tasks
    ((tasks.tasks tasks.currentTask).brk, tasks)

/-- task_fork returns the child, which has the pid that was next, or null. -/
def sysFork (allocated : Allocated) (tasks : Scheduler) : Word × Scheduler :=
  (if tasks.currentTask = 0 then 0 else tasks.nextPid, taskFork allocated tasks)

abbrev SYS_EXIT : Word := 1
abbrev SYS_FORK : Word := 2
abbrev SYS_READ : Word := 3
abbrev SYS_WRITE : Word := 4
abbrev SYS_OPEN : Word := 5
abbrev SYS_CLOSE : Word := 6
abbrev SYS_UNLINK : Word := 10
abbrev SYS_TIME : Word := 13
abbrev SYS_GETPID : Word := 20
abbrev SYS_KILL : Word := 37
abbrev SYS_MKDIR : Word := 39
abbrev SYS_BRK : Word := 45

/-- `none` when task_exit has not come back within the fuel. The calls that are not
implemented return constants: sys_mkdir, sys_unlink and sys_time 0, sys_kill -1. -/
def syscallHandler (fuel : Nat) (allocated : Allocated) (regs : Switched) (memory : Mem)
    (eax ebx ecx edx _esi _edi : Word) (s : Services) :
    Option (Word × Services) :=
  if eax = SYS_WRITE then
    let (result, console) := sysWrite memory ebx.toInt ecx edx s.files s.console
    some (result, { s with console := console })
  else if eax = SYS_READ then some (sysRead ebx.toInt ecx edx s.files, s)
  else if eax = SYS_OPEN then
    let (result, files) := sysOpen memory ebx ecx s.files
    some (BitVec.ofInt 32 result, { s with files := files })
  else if eax = SYS_CLOSE then
    let (result, files) := sysClose ebx.toInt s.files
    some (BitVec.ofInt 32 result, { s with files := files })
  else if eax = SYS_MKDIR then some (0, s)
  else if eax = SYS_UNLINK then some (0, s)
  else if eax = SYS_GETPID then some (sysGetpid s.tasks, s)
  else if eax = SYS_BRK then
    let (result, tasks) := sysBrk ebx s.tasks
    some (result, { s with tasks := tasks })
  else if eax = SYS_FORK then
    let (result, tasks) := sysFork allocated s.tasks
    some (result, { s with tasks := tasks })
  else if eax = SYS_EXIT then
    (taskExit fuel ebx regs s.tasks).map fun tasks => (0, { s with tasks := tasks })
  else if eax = SYS_TIME then some (0, s)
  else if eax = SYS_KILL then some (-1, s)
  else some (-1, s)

/-! Runs of the file calls. -/

/-- The files and the console, with the descriptors that sys_open has returned so far. -/
structure Session where
  files : Fs
  console : Console
  returned : List Int

inductive FileCall where
  | sysOpen (memory : Mem) (path flags : Word)
  | sysClose (fd : Int)
  | sysWrite (memory : Mem) (fd : Int) (buf len : Word)

def fileCall (s : Session) : FileCall → Session
  | .sysOpen memory path flags =>
      let (fd, files) := Syscalls.sysOpen memory path flags s.files
      { s with files := files, returned := fd :: s.returned }
  | .sysClose fd => { s with files := (Syscalls.sysClose fd s.files).2 }
  | .sysWrite memory fd buf len =>
      { s with console := (Syscalls.sysWrite memory fd buf len s.files s.console).2 }

def session (calls : List FileCall) (s : Session) : Session := calls.foldl fileCall s

def opening (files : Fs) (console : Console) : Session :=
  { files := files, console := console, returned := [] }

/-- A sys_write on a live descriptor that sys_open returned is an fs_write on it. -/
def Separate (s : Session) : Prop :=
  ∀ i : Fin FS_MAX_FDS, ((i : Nat) : Int) ∈ s.returned → Live s.files i → ∀ memory buf len,
    sysWrite memory (i : Nat) buf len s.files s.console =
      (fsWrite (i : Nat) 0 len buf s.files, s.console)

theorem fsWrite_zero (fd : Int) (offset size buf : Word) (s : Fs) :
    fsWrite fd offset size buf s = 0 := by
  unfold fsWrite fsTransfer
  split_ifs <;> rfl

variable {s : Session}

/-- Every live descriptor has been returned by sys_open. -/
def Accounted (s : Session) : Prop :=
  ∀ i : Fin FS_MAX_FDS, Live s.files i → ((i : Nat) : Int) ∈ s.returned

theorem separate_iff (accounted : Accounted s) :
    Separate s ↔ ¬Live s.files 1 ∧ ¬Live s.files 2 := by
  have console : ∀ i : Fin FS_MAX_FDS, ((i : Nat) : Int) = 1 ∨ ((i : Nat) : Int) = 2 →
      Separate s → ¬Live s.files i := by
    intro i standard separate live
    have sent := separate i (accounted i live) live (fun _ => 0) 0 1
    rw [sysWrite, if_pos standard, fsWrite_zero] at sent
    have result : (1 : Word) = 0 := congrArg Prod.fst sent
    exact absurd result (by decide)
  constructor
  · intro separate
    exact ⟨console 1 (Or.inl rfl) separate, console 2 (Or.inr rfl) separate⟩
  · rintro ⟨first, second⟩ i _ live memory buf len
    have other : ¬(((i : Nat) : Int) = 1 ∨ ((i : Nat) : Int) = 2) := by
      rintro (one | two)
      · have here : i = 1 := Fin.ext (by exact_mod_cast one)
        exact first (here ▸ live)
      · have here : i = 2 := Fin.ext (by exact_mod_cast two)
        exact second (here ▸ live)
    rw [sysWrite, if_neg other]

/-- No descriptor is live unless it was before, but for the one a successful sys_open takes. -/
theorem fileCall_live {op : FileCall} {i : Fin FS_MAX_FDS} (live : Live (fileCall s op).files i) :
    Live s.files i ∨ ∃ memory path flags, op = .sysOpen memory path flags ∧
      fsTraverse memory path s.files ≠ 0 ∧ ((i : Nat) : Int) = (fsOpen memory path flags s.files).1 ∧
      ∀ j < i, Live s.files j := by
  cases op with
  | sysWrite memory fd buf len => exact Or.inl live
  | sysClose fd =>
    left
    rcases fsClose_cases s.files fd with ⟨j, _, _, same⟩ | ⟨_, same⟩
    · simp only [fileCall, Syscalls.sysClose, same] at live
      by_cases here : i = j
      · subst here
        exact absurd live (by simp [Live])
      · unfold Live at live ⊢
        simpa only [Function.update_of_ne here] using live
    · simpa only [fileCall, Syscalls.sysClose, same] using live
  | sysOpen memory path flags =>
    rcases fsOpen_cases s.files memory path flags with ⟨j, free, lower, same⟩ | ⟨_, same⟩
    · simp only [fileCall, Syscalls.sysOpen, same] at live
      by_cases here : i = j
      · subst here
        exact Or.inr ⟨memory, path, flags, rfl, (opened_live_iff i).mp live, by rw [same], lower⟩
      · left
        unfold Live opened at live
        unfold Live
        simpa only [Function.update_of_ne here] using live
    · left
      simpa only [fileCall, Syscalls.sysOpen, same] using live

theorem accounted_fileCall (accounted : Accounted s) (op : FileCall) : Accounted (fileCall s op) := by
  intro i live
  have kept : ∀ fd ∈ s.returned, fd ∈ (fileCall s op).returned := by
    intro fd member
    cases op with
    | sysOpen memory path flags => exact List.mem_cons_of_mem _ member
    | sysClose fd => exact member
    | sysWrite memory fd buf len => exact member
  rcases fileCall_live live with before | ⟨memory, path, flags, same, _, number, _⟩
  · exact kept _ (accounted i before)
  · subst same
    rw [number]
    exact List.mem_cons_self

theorem accounted_session (accounted : Accounted s) (calls : List FileCall) :
    Accounted (session calls s) := by
  induction calls generalizing s with
  | nil => exact accounted
  | cons op rest ih => exact ih (accounted_fileCall accounted op)

theorem session_append (before after : List FileCall) (s : Session) :
    session (before ++ after) s = session after (session before s) := List.foldl_append

/-- A file opened while descriptor 0 is live and the console's are not takes descriptor 1. -/
theorem sysOpen_collides {memory : Mem} {path flags : Word}
    (found : fsTraverse memory path s.files ≠ 0) (zero : Live s.files 0) (one : ¬Live s.files 1) :
    Live (fileCall s (.sysOpen memory path flags)).files 1 := by
  rcases fsOpen_cases s.files memory path flags with ⟨i, free, lower, same⟩ | ⟨live, _⟩
  · have taken : i = 1 := by
      apply Fin.ext
      change (i : Nat) = 1
      have some : (i : Nat) ≠ 0 := fun none => free (by
        have here : i = 0 := Fin.ext none
        rwa [here])
      have least : ¬1 < (i : Nat) := fun more => one (lower 1 more)
      omega
    subst taken
    simp only [fileCall, sysOpen, same]
    exact (opened_live_iff 1).mpr found
  · exact absurd (live 1) one

/-- A file opened while descriptor 0 is free takes it. -/
theorem sysOpen_first {memory : Mem} {path flags : Word}
    (found : fsTraverse memory path s.files ≠ 0) (zero : ¬Live s.files 0) :
    Live (fileCall s (.sysOpen memory path flags)).files 0 := by
  rcases fsOpen_cases s.files memory path flags with ⟨i, _, lower, same⟩ | ⟨live, _⟩
  · have taken : i = 0 := by
      by_contra other
      exact zero (lower 0 (Fin.pos_of_ne_zero other))
    subst taken
    simp only [fileCall, sysOpen, same]
    exact (opened_live_iff 0).mpr found
  · exact absurd (live 0) zero

/-- Files and console stay apart in a run exactly when no file is opened in it while
descriptor 0 is live. -/
theorem run_separate_iff (fuel : Nat) (literal : String → Word) (heap next : Heap)
    (before start : Fs) (console : Console) (calls : List FileCall)
    (initialised : fsInit fuel literal heap before = .ok (start, next)) :
    (∀ first rest, calls = first ++ rest → Separate (session first (opening start console))) ↔
      ∀ first memory path flags rest, calls = first ++ .sysOpen memory path flags :: rest →
        fsTraverse memory path (session first (opening start console)).files ≠ 0 →
        ¬Live (session first (opening start console)).files 0 := by
  have none : Accounted (opening start console) := fun i live =>
    absurd live (fsInit_dead initialised i)
  constructor
  · intro separate first memory path flags rest split found zero
    have here := (separate_iff (accounted_session none first)).mp (separate first _ split)
    have whole : calls = (first ++ [.sysOpen memory path flags]) ++ rest := by simp [split]
    have later := (separate_iff (accounted_session none _)).mp (separate _ rest whole)
    rw [session_append] at later
    exact later.1 (sysOpen_collides found zero here.1)
  · intro apart first rest split
    rw [separate_iff (accounted_session none first)]
    induction first using List.reverseRecOn generalizing rest with
    | nil => exact ⟨fsInit_dead initialised 1, fsInit_dead initialised 2⟩
    | append_singleton first op ih =>
      have whole : calls = first ++ op :: rest := by simp [split]
      obtain ⟨one, two⟩ := ih (op :: rest) whole
      -- A descriptor above 0 is only handed out while 0 is live.
      have unopened : ∀ i : Fin FS_MAX_FDS, 0 < i →
          ¬Live (session first (opening start console)).files i →
          ¬Live (session (first ++ [op]) (opening start console)).files i := by
        intro i positive dead live
        rw [session_append] at live
        rcases fileCall_live live with prior | ⟨memory, path, flags, same, found, _, lower⟩
        · exact dead prior
        · subst same
          exact apart first memory path flags rest whole found (lower 0 positive)
      exact ⟨unopened 1 (by decide) one, unopened 2 (by decide) two⟩

/-- A memory with the path "/" at 0x2000, and a console before vga_init. -/
def slash : Mem := store8 (fun _ => 0) 0x2000 0x2F

def unset : Console :=
  { vgaColor := 0, vgaBuffer := fun _ => 0, cursorX := 0, cursorY := 0, outputs := [] }

theorem fsTraverse_slash (s : Fs) : fsTraverse slash 0x2000 s = s.fsRootNode := by
  rw [fsTraverse, if_neg (by decide), if_pos (by decide)]

/-- A file opened, written and closed, and then another one: both take descriptor 0. -/
theorem run_separate_iff_reopened :
    ∃ start next, fsInit 32 (fun _ => 0x1000) (uninitialised fun _ => 0) ⟨0, fun _ => ⟨0, 0, 0⟩, 0⟩ =
        .ok (start, next) ∧
      ∀ first rest, [FileCall.sysOpen slash 0x2000 1, .sysWrite slash 0 0x2000 1, .sysClose 0,
          .sysOpen slash 0x2000 1] = first ++ rest →
        Separate (session first (opening start unset)) := by
  obtain ⟨start, next, initialised, _⟩ :=
    fsInit_fresh (fun _ => 0x1000) (fun _ => 0) ⟨0, fun _ => ⟨0, 0, 0⟩, 0⟩
  refine ⟨start, next, initialised,
    (run_separate_iff 32 _ _ next _ start unset _ initialised).mpr ?_⟩
  have closed (s : Session) : ¬Live (fileCall s (.sysClose 0)).files 0 := by
    simp only [fileCall, Syscalls.sysClose, fsClose, Live]
    split
    · next range => exact absurd range (by decide)
    · split
      · next none => exact fun live => live none
      · simp
  intro first memory path flags rest split _
  rcases first with _ | ⟨_, _ | ⟨_, _ | ⟨_, _ | ⟨_, more⟩⟩⟩⟩
  · exact fsInit_dead initialised 0
  · simp at split
  · simp at split
  · simp only [List.cons_append, List.nil_append, List.cons.injEq] at split
    obtain ⟨rfl, rfl, rfl, _⟩ := split
    exact closed _
  · exact absurd (congrArg List.length split) (by simp)

/-- The second one takes descriptor 1. -/
theorem run_collides :
    ¬∀ (fuel : Nat) (literal : String → Word) (heap next : Heap) (before start : Fs)
      (console : Console) (calls : List FileCall),
      fsInit fuel literal heap before = .ok (start, next) →
      Separate (session calls (opening start console)) := by
  intro claim
  obtain ⟨start, next, initialised, present⟩ :=
    fsInit_fresh (fun _ => 0x1000) (fun _ => 0) ⟨0, fun _ => ⟨0, 0, 0⟩, 0⟩
  have none : Accounted (opening start unset) := fun i live =>
    absurd live (fsInit_dead initialised i)
  let file : FileCall := .sysOpen slash 0x2000 1
  have separate : ∀ calls, ¬Live (session calls (opening start unset)).files 1 := fun calls =>
    ((separate_iff (accounted_session none calls)).mp
      (claim _ _ _ _ _ start unset calls initialised)).1
  have zero : Live (session [file] (opening start unset)).files 0 :=
    sysOpen_first (by rwa [fsTraverse_slash]) (fsInit_dead initialised 0)
  have found : fsTraverse slash 0x2000 (session [file] (opening start unset)).files ≠ 0 := by
    rw [fsTraverse_slash]
    change (fsOpen slash 0x2000 1 start).2.fsRootNode ≠ 0
    rwa [fsOpen_fsRootNode]
  exact separate [file, file] (sysOpen_collides found zero (separate [file]))

end Vaelen.Kernel.Syscalls
