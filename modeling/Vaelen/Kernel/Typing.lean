import Vaelen.Kernel.KeyboardShift
import Vaelen.Kernel.ShellRuns

/-!
From the keys to the commands. The keyboard driver turns scan codes into characters while the shell
reads them, and the shell dispatches what a script of lines typed on the keyboard says.
-/

namespace Vaelen.Kernel.Typing
open Vaelen.Base Keyboard KeyboardShift Shell ShellRuns

/-! What the keys say, whatever is done about it. -/

structure Modifiers where
  shift : Bool
  caps : Bool
  deriving DecidableEq

def Modifiers.press (held : Modifiers) (code : Byte) : Modifiers where
  shift := KeyboardShift.press held.shift code
  caps := if code = 0x3A then !held.caps else held.caps

def glyph (shifted : Bool) (code : Byte) : Byte :=
  (if shifted then kbUsShift else kbUs).getD code.toNat 0

/-- The character of a code that is neither of a modifier nor of a key that comes up. -/
def character (held : Modifiers) (code : Byte) : Option Byte :=
  if code = 0x2A ∨ code = 0x36 ∨ code = 0x3A ∨ code &&& 0x80 ≠ 0 ∨
      glyph (held.shift ^^ held.caps) code = 0 then none
  else some (glyph (held.shift ^^ held.caps) code)

def released : Modifiers := ⟨false, false⟩

def characters : List Byte → Modifiers → List Byte
  | [], _ => []
  | code :: codes, held => (character held code).toList ++ characters codes (held.press code)

theorem characters_append (first second : List Byte) (held : Modifiers) :
    characters (first ++ second) held =
      characters first held ++ characters second (first.foldl Modifiers.press held) := by
  induction first generalizing held with
  | nil => rfl
  | cons code codes ih => simp [characters, ih]

/-! The driver against it. -/

def modifiers (k : Driver) : Modifiers := ⟨k.shiftPressed, k.capsLock⟩

theorem translate_glyph (k : Driver) (code : Byte) :
    Keyboard.translate k code = glyph (k.shiftPressed ^^ k.capsLock) code := by
  unfold Keyboard.translate glyph
  cases k.shiftPressed ^^ k.capsLock
  · simp only [Bool.false_eq_true, if_false]
    split
    · next inside => rw [List.getD_eq_getElem _ _ inside, List.get_eq_getElem]
    · next outside => rw [List.getD_eq_default _ _ (Nat.le_of_not_lt outside)]
  · simp only [if_true]
    split
    · next inside => rw [List.getD_eq_getElem _ _ inside, List.get_eq_getElem]
    · next outside => rw [List.getD_eq_default _ _ (Nat.le_of_not_lt outside)]

theorem arrival_character (k : Driver) (code : Byte) :
    arrival code k = character (modifiers k) code := by
  have up : ∀ code : Byte, code = 0xAA ∨ code = 0xB6 → code &&& 0x80 ≠ 0 := by
    rintro code (rfl | rfl) <;> decide
  have also := up code
  unfold arrival character
  rw [translate_glyph]
  exact if_congr (by unfold modifiers; tauto) rfl rfl

theorem keyboardHandler_capsLock (code : Byte) (k : Driver) :
    (keyboardHandler code k).capsLock = if code = 0x3A then !k.capsLock else k.capsLock := by
  unfold keyboardHandler
  split
  · next left => rcases left with rfl | rfl <;> rfl
  · split
    · next left => rcases left with rfl | rfl <;> rfl
    · split
      · rfl
      · split
        · rfl
        · dsimp only
          split <;> rfl

theorem modifiers_interrupt (code : Byte) (s : System) :
    modifiers (interrupt code s).keyboard = (modifiers s.keyboard).press code := by
  unfold modifiers Modifiers.press
  rw [← keyboardHandler_shiftPressed, ← keyboardHandler_capsLock]
  rfl

theorem modifiers_statement (s : System) :
    modifiers (statement s).keyboard = modifiers s.keyboard := by
  obtain ⟨keyboard, reader, stored, returned⟩ := s
  cases reader <;> rfl

theorem interrupt_stored (code : Byte) (s : System) : (interrupt code s).stored =
    s.stored ++ if s.keyboard.kbBufCount < 256 then (character (modifiers s.keyboard) code).toList else [] := by
  rcases interrupt_cases code s with ⟨c, arrived, room, same⟩ | ⟨none, shift, caps, same⟩
  · rw [arrival_character] at arrived
    rw [same, if_pos room, arrived]
    rfl
  · rw [arrival_character] at none
    rw [same]
    rcases none with none | full
    · simp [none]
    · simp [full]

theorem statement_stored (s : System) : (statement s).stored = s.stored := rfl

/-! Runs. -/

/-- Every character found the queue less than full. -/
def Room (events : List Event) : Prop :=
  ∀ before code after, events = before ++ .interrupt code :: after →
    (arrival code (before.foldl step start).keyboard).isSome →
      (before.foldl step start).keyboard.kbBufCount < 256

@[simp] theorem scancodes_interrupt (events : List Event) (code : Byte) :
    scancodes (events ++ [.interrupt code]) = scancodes events ++ [code] :=
  List.filterMap_append

@[simp] theorem scancodes_statement (events : List Event) :
    scancodes (events ++ [.statement]) = scancodes events :=
  List.filterMap_append.trans (List.append_nil _)

theorem foldl_snoc (events : List Event) (event : Event) :
    (events ++ [event]).foldl step start = step (events.foldl step start) event :=
  List.foldl_append

theorem run_modifiers (events : List Event) : modifiers (events.foldl step start).keyboard =
    (scancodes events).foldl Modifiers.press released := by
  induction events using List.reverseRecOn with
  | nil => rfl
  | append_singleton before event ih =>
    rw [foldl_snoc]
    cases event with
    | interrupt code =>
      rw [scancodes_interrupt, List.foldl_append, ← ih]
      exact modifiers_interrupt code _
    | statement =>
      rw [scancodes_statement, ← ih]
      exact modifiers_statement _

theorem room_snoc {events : List Event} {event : Event} : Room (events ++ [event]) ↔
    Room events ∧ ∀ code, event = .interrupt code →
      (arrival code (events.foldl step start).keyboard).isSome →
        (events.foldl step start).keyboard.kbBufCount < 256 := by
  constructor
  · intro room
    refine ⟨fun before code after split => ?_, fun code same => ?_⟩
    · exact room before code (after ++ [event]) (by simp [split])
    · exact room events code [] (by simp [same])
  · rintro ⟨earlier, last⟩ before code after split
    rcases List.eq_nil_or_concat' after with rfl | ⟨rest, final, rfl⟩
    · obtain ⟨front, same⟩ := List.append_inj' split rfl
      rw [← front]
      exact last code (List.singleton_inj.mp same)
    · rw [← List.cons_append, ← List.append_assoc] at split
      exact earlier before code rest (List.append_inj' split rfl).1

/-- The queue takes every character exactly when each found room; a lost one is never made up for. -/
theorem run_stored (events : List Event) :
    (events.foldl step start).stored.length ≤ (characters (scancodes events) released).length ∧
      ((events.foldl step start).stored = characters (scancodes events) released ↔ Room events) := by
  induction events using List.reverseRecOn with
  | nil =>
    refine ⟨Nat.le_refl _, iff_of_true rfl ?_⟩
    intro before code after split
    exact absurd split (by simp)
  | append_singleton before event ih =>
    obtain ⟨short, taken⟩ := ih
    rw [room_snoc, ← taken, foldl_snoc]
    cases event with
    | statement =>
      rw [scancodes_statement]
      exact ⟨short, by simp [step, statement_stored]⟩
    | interrupt code =>
      rw [scancodes_interrupt, characters_append, ← run_modifiers, step, interrupt_stored]
      simp only [characters, List.append_nil, arrival_character, Event.interrupt.injEq,
        forall_eq']
      cases character (modifiers (before.foldl step start).keyboard) code with
      | none => simp [short]
      | some c =>
        by_cases room : (before.foldl step start).keyboard.kbBufCount < 256
        · simp [room, short]
        · rw [if_neg room, List.append_nil]
          simp only [room, Option.toList_some, Option.isSome_some, forall_const, and_false, iff_false]
          refine ⟨short.trans (by simp), fun same => ?_⟩
          rw [same, List.length_append, List.length_singleton] at short
          omega

theorem characters_length (codes : List Byte) (held : Modifiers) :
    (characters codes held).length ≤ codes.length := by
  induction codes generalizing held with
  | nil => exact Nat.le_refl 0
  | cons code codes ih =>
    have one : (character held code).toList.length ≤ 1 := by
      cases character held code <;> simp
    have later := ih (held.press code)
    simp only [characters, List.length_append, List.length_cons]
    omega

/-- 256 keys always have room. -/
theorem room_few {events : List Event} (few : (scancodes events).length ≤ 256) : Room events := by
  intro before code after split _
  have queued : Queued (before.foldl step start) := run_queued before queued_start
  have count := queued.count
  have stored := (run_stored before).1
  have length := characters_length (scancodes before) released
  have codes : scancodes events = scancodes before ++ code :: scancodes after := by
    rw [split, scancodes, List.filterMap_append]
    rfl
  rw [codes, List.length_append, List.length_cons] at few
  omega

/-! The shell on what is typed. -/

theorem edit_append {keys rest s : List Byte} (typed more : List Byte)
    (edited : edit keys typed = some (s, rest)) : edit (keys ++ more) typed = some (s, rest ++ more) := by
  induction keys generalizing typed with
  | nil =>
    rw [edit] at edited
    split at edited
    · exact absurd edited (by simp)
    · next full =>
      simp only [Option.some.injEq, Prod.mk.injEq] at edited
      rw [List.nil_append, edit.eq_def, if_neg full, ← edited.1, ← edited.2, List.nil_append]
  | cons c keys ih =>
    rw [edit] at edited
    rw [List.cons_append, edit]
    split_ifs at edited ⊢ with room newline back shown
    · simp only [Option.some.injEq, Prod.mk.injEq] at edited ⊢
      exact ⟨edited.1, by rw [edited.2]⟩
    · exact ih _ edited
    · exact ih _ edited
    · exact ih _ edited
    · simp only [Option.some.injEq, Prod.mk.injEq] at edited ⊢
      exact ⟨edited.1, by rw [← edited.2, List.cons_append]⟩

/-- The lines read so far stay as they are when more keys come. -/
theorem lines_append (keys more : List Byte) :
    (lines keys).map (·.line) <+: (lines (keys ++ more)).map (·.line) := by
  induction keys using lines.induct with
  | case1 keys waits =>
    rw [lines, waits]
    exact List.nil_prefix
  | case2 keys rest edited ih =>
    rw [lines, edited, lines, edit_append [] more edited]
    exact ih
  | case3 keys s rest edited nonempty ih =>
    rw [lines, edited, lines, edit_append [] more edited]
    simp only [if_neg nonempty, List.map_cons]
    exact (List.prefix_cons_inj s).mpr ih

/-- What the shell does with its lines, up to the first that exits. -/
def dispatches : List (List Byte) → List Dispatch
  | [] => []
  | line :: later =>
      let dispatch : Dispatch := ⟨line, lookup (firstToken line)⟩
      if firstToken line = chars "exit" then [dispatch] else dispatch :: dispatches later

theorem dispatches_initial {first second : List (List Byte)} (part : first <+: second) :
    dispatches first <+: dispatches second := by
  induction first generalizing second with
  | nil => exact List.nil_prefix
  | cons line later ih =>
    obtain ⟨rest, rfl⟩ := part
    rw [List.cons_append, dispatches, dispatches]
    split
    · exact List.prefix_rfl
    · exact (List.prefix_cons_inj _).mpr (ih (List.prefix_append later rest))

theorem log_dispatches (keys : List Byte) (line : Line) (h : History) :
    (shellRun keys line h).log = dispatches ((lines keys).map (·.line)) := by
  rw [shellRun_eq]
  induction lines keys with
  | nil => rfl
  | cons typed later ih =>
    rw [served, List.map_cons, dispatches]
    by_cases last : firstToken typed.line = chars "exit"
    · have ends : typed.exits = true := decide_eq_true last
      rw [if_pos last, if_pos ends]
      rfl
    · have goesOn : ¬typed.exits = true := mt of_decide_eq_true last
      rw [if_neg last, if_neg goesOn, ← ih]
      rfl

/-- The commands run so far begin those of the text of the keys, and once it is read they are all. -/
theorem run_text {events : List Event} (room : Room events) (line : Line) (h : History) :
    let s := events.foldl step start
    let text := (lines (characters (scancodes events) released)).map (·.line)
    (shellRun s.returned line h).log <+: dispatches text ∧
      (s.keyboard.kbBufCount = 0 → s.reader.held = [] →
        (shellRun s.returned line h).log = dispatches text) := by
  intro s text
  have stored : s.stored = characters (scancodes events) released := (run_stored events).2.mpr room
  have queued : Queued s := run_queued events queued_start
  have order := queued.fifo.inOrder
  simp only [log_dispatches, text, ← stored]
  constructor
  · obtain ⟨rest, whole⟩ := order
    rw [← whole]
    exact dispatches_initial (lines_append s.returned rest)
  · intro empty idle
    have count := queued.count
    have short := discounted_le s.reader
    rw [idle, List.length_nil] at short
    rw [order.eq_of_length (by omega)]

/-- While every character finds room, the commands run so far begin those of the whole text, and
when nothing is left in the queue they are all of them. -/
theorem run_dispatches (events : List Event) (room : Room events) (line other : Line)
    (h before : History) :
    let s := events.foldl step start
    (shellRun s.returned line h).log <+:
        (shellRun (characters (scancodes events) released) other before).log ∧
      (s.keyboard.kbBufCount = 0 → s.reader.held = [] → (shellRun s.returned line h).log =
        (shellRun (characters (scancodes events) released) other before).log) := by
  intro s
  rw [log_dispatches (characters (scancodes events) released)]
  exact run_text room line h

/-- The line ls, typed and read up to its second character. -/
def halfRead : List Event :=
  ([0x26, 0xA6, 0x1F, 0x9F, 0x1C, 0x9C].map .interrupt) ++ List.replicate 12 .statement

theorem run_dispatches_halfRead :
    (shellRun (halfRead.foldl step start).returned (fun _ => 0) ⟨fun _ _ => 0, 0, 0⟩).log <+:
        (shellRun (characters (scancodes halfRead) released) (fun _ => 0) ⟨fun _ _ => 0, 0, 0⟩).log ∧
      ((halfRead.foldl step start).keyboard.kbBufCount = 0 →
        (halfRead.foldl step start).reader.held = [] →
        (shellRun (halfRead.foldl step start).returned (fun _ => 0) ⟨fun _ _ => 0, 0, 0⟩).log =
        (shellRun (characters (scancodes halfRead) released) (fun _ => 0) ⟨fun _ _ => 0, 0, 0⟩).log) :=
  run_dispatches halfRead (room_few (by decide)) _ _ _ _

/-! Every line can be typed. -/

/-- The key of a character goes down and up, with the left shift key held around it if need be. -/
def keystroke (c : Byte) : List Byte :=
  if c ∈ kbUs then
    let code := BitVec.ofNat 8 (kbUs.idxOf c)
    [code, code ||| 0x80]
  else
    let code := BitVec.ofNat 8 (kbUsShift.idxOf c)
    [0x2A, code, code ||| 0x80, 0xAA]

theorem keystroke_printable : ∀ c : Byte, printable c → characters (keystroke c) released = [c] ∧
    (keystroke c).foldl Modifiers.press released = released := by decide +kernel

/-- A line of keys, ended by the Enter key. -/
def keystrokes (line : List Byte) : List Byte := line.flatMap keystroke ++ [0x1C, 0x9C]

section script
variable {line : List Byte} (plain : ∀ c ∈ line, printable c)
include plain

theorem characters_keystrokes :
    characters (keystrokes line) released = line ++ [0x0A] ∧
      (keystrokes line).foldl Modifiers.press released = released := by
  induction line with
  | nil => decide
  | cons c line ih =>
    obtain ⟨shown, kept⟩ := keystroke_printable c (plain c List.mem_cons_self)
    obtain ⟨later, after⟩ := ih fun d member => plain d (List.mem_cons_of_mem c member)
    have split : keystrokes (c :: line) = keystroke c ++ keystrokes line := by simp [keystrokes]
    rw [split, characters_append, List.foldl_append, shown, kept]
    exact ⟨congrArg (c :: ·) later, after⟩

theorem edit_line (typed rest : List Byte) (short : (typed ++ line).length < MAX_LINE - 1) :
    edit (line ++ 0x0A :: rest) typed = some (typed ++ line, rest) := by
  induction line generalizing typed with
  | nil =>
    rw [List.append_nil] at short ⊢
    rw [List.nil_append, edit.eq_def, if_pos short]
    rfl
  | cons c line ih =>
    have shown := plain c List.mem_cons_self
    have newline : c ≠ 0x0A := by
      rintro rfl
      exact absurd shown (by decide)
    have back : c ≠ 0x08 := by
      rintro rfl
      exact absurd shown (by decide)
    have moved : typed ++ c :: line = typed ++ [c] ++ line := List.append_cons typed c line
    rw [moved] at short ⊢
    have room : typed.length < MAX_LINE - 1 := by
      simp only [List.length_append] at short
      omega
    rw [List.cons_append, edit, if_pos room, if_neg newline, if_neg back, if_pos shown]
    exact ih (fun d member => plain d (List.mem_cons_of_mem c member)) _ short

end script

def Printable (script : List (List Byte)) : Prop := ∀ line ∈ script, ∀ c ∈ line, printable c

theorem characters_script {script : List (List Byte)} (plain : Printable script) :
    characters (script.flatMap keystrokes) released = script.flatMap (· ++ [0x0A]) := by
  induction script with
  | nil => rfl
  | cons line script ih =>
    obtain ⟨shown, kept⟩ := characters_keystrokes (plain line List.mem_cons_self)
    rw [List.flatMap_cons, List.flatMap_cons, characters_append, shown, kept,
      ih fun later member => plain later (List.mem_cons_of_mem line member)]

/-- The shell takes a line of up to 510 characters for one. -/
theorem lines_script {script : List (List Byte)} (plain : Printable script)
    (short : ∀ line ∈ script, line.length < MAX_LINE - 1) :
    (lines (script.flatMap (· ++ [0x0A]))).map (·.line) = script.filter (· ≠ []) := by
  induction script with
  | nil =>
    have waits : edit [] [] = none := rfl
    rw [List.flatMap_nil, lines, waits]
    rfl
  | cons line script ih =>
    have later := ih (fun other member => plain other (List.mem_cons_of_mem line member))
      fun other member => short other (List.mem_cons_of_mem line member)
    have edited := edit_line (plain line List.mem_cons_self) [] (script.flatMap (· ++ [0x0A]))
      (short line List.mem_cons_self)
    rw [List.nil_append] at edited
    rw [List.flatMap_cons, List.append_assoc, List.singleton_append, lines, edited]
    by_cases empty : line = []
    · simp only [empty, if_true, later]
      simp
    · simp only [empty, if_false, List.map_cons, later]
      simp [empty]

/-- A script of lines shorter than 511 characters, typed on the keyboard while the shell reads it,
comes to its lines' commands: none is lost, changed or made up, and nothing runs after an exit. -/
theorem typed_dispatches {script : List (List Byte)} (plain : Printable script)
    (short : ∀ line ∈ script, line.length < MAX_LINE - 1)
    {events : List Event} (typed : scancodes events = script.flatMap keystrokes) (room : Room events)
    (read : (events.foldl step start).keyboard.kbBufCount = 0)
    (idle : (events.foldl step start).reader.held = []) (line : Line) (h : History) :
    (shellRun (events.foldl step start).returned line h).log =
      dispatches (script.filter (· ≠ [])) := by
  rw [(run_text room line h).2 read idle, typed, characters_script plain, lines_script plain short]

/-- exit is typed, and read after the last key. -/
def typedExit : List Event :=
  ((keystrokes (chars "exit")).map .interrupt) ++ List.replicate 30 .statement

theorem typed_dispatches_exit :
    (shellRun (typedExit.foldl step start).returned (fun _ => 0) ⟨fun _ _ => 0, 0, 0⟩).log =
      dispatches ([chars "exit"].filter (· ≠ [])) := by
  have plain : Printable [chars "exit"] := by
    unfold Printable
    decide
  exact @typed_dispatches [chars "exit"] plain (by decide) typedExit (by decide) (room_few (by decide))
    (by decide +kernel) (by decide +kernel) _ _

end Vaelen.Kernel.Typing
