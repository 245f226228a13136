import Vaelen.Kernel.PrintfFields
import Vaelen.Kernel.ShellTokens

/-!
What cmd_echo prints, with the characters that printf gives the screen for each argument: the words of
the line with one space between two of them.
-/

namespace Vaelen.Kernel.ShellPrint
open Vaelen.Base Reading Shell Printf
open ShellTokens (Tokens words split tokenizeTrace tokenizeTrace_turn tokenizeTrace_filled)

/-- The string literals of cmd_echo. -/
structure Literals where
  arguments : Word
  space : Word
  empty : Word
  newline : Word

/-- They stand in the memory, and none at the null pointer. -/
structure Literals.Linked (memory : Mem) (r : Literals) : Prop where
  arguments : CString (view memory r.arguments) 0 (chars "%s%s")
  space : r.space ≠ 0 ∧ CString (view memory r.space) 0 (chars " ")
  empty : r.empty ≠ 0 ∧ CString (view memory r.empty) 0 []
  newline : CString (view memory r.newline) 0 (chars "\n")

/-- What a call of printf prints. -/
def print (turns : Nat) (memory : Mem) (buf : Nat → Byte) (fmt : Word) (args : Nat → Word) : Option (List Byte) :=
  (printf memory buf fmt args turns).map Prod.fst

/-- `args[i], args[i+1] ? " " : ""` -/
def operands (r : Literals) (args : Nat → Word) (i : Nat) : Nat → Word :=
  fun k => if k = 0 then args i else if args (i + 1) ≠ 0 then r.space else r.empty

/-- The loop of cmd_echo, with the places left before the end of args. -/
def echoLoop (turns : Nat) (memory : Mem) (buf : Nat → Byte) (r : Literals) (args : Nat → Word) :
    Nat → Nat → Option (List Byte)
  | 0, _ => none
  | left + 1, i =>
      if args i = 0 then some []
      else do
        let shown ← print turns memory buf r.arguments (operands r args i)
        let rest ← echoLoop turns memory buf r args left (i + 1)
        return shown ++ rest

def cmdEcho (turns : Nat) (memory : Mem) (buf : Nat → Byte) (r : Literals) (args : Nat → Word) :
    Option (List Byte) := do
  let shown ← echoLoop turns memory buf r args (MAX_ARGS - 1) 1
  let newline ← print turns memory buf r.newline fun _ => 0
  return shown ++ newline

variable {memory : Mem} {buf : Nat → Byte} {fmt p : Word} {args : Nat → Word} {r : Literals} {turns left i : Nat}
  {a b s : List Byte} {taken : Nat} {f : Nat → Byte}

/-! The calls of printf. -/

theorem convert_string (string : CString (view memory (args taken)) 0 a) (nonnull : args taken ≠ 0)
    (short : a.length < 2 ^ 31) :
    convert memory buf args (ch 's') 0 false taken = some (a, taken + 1) := by
  have count : (BitVec.ofNat 32 a.length).toNat = a.length := Nat.mod_eq_of_lt (by omega)
  have length : (BitVec.ofNat 32 a.length).toInt = a.length := by
    rw [BitVec.toInt_eq_toNat_of_lt (by omega), count]
  have none : pad (BitVec.ofNat 32 a.length) 0 (ch ' ') = [] := by simp [pad, length]
  calc convert memory buf args (ch 's') 0 false taken
    _ = (printfString memory (args taken) 0).map fun text => (text, taken + 1) := rfl
    _ = some (a, taken + 1) := by
      rw [printfString_eq (s := a) (by rwa [if_neg nonnull]) (by omega), none]
      rfl

theorem printfLoop_string (format : CString f i (ch '%' :: ch 's' :: s)) (room : s.length + 1 < left)
    (string : CString (view memory (args taken)) 0 a) (nonnull : args taken ≠ 0) (short : a.length < 2 ^ 31)
    {out : List Byte}
    (rest : Returns (printfLoop memory buf args left (i + 2) (taken + 1)) f (fun _ => True) out) :
    Returns (printfLoop memory buf args (left + 1) i taken) f (fun _ => True) (a ++ out) := by
  have none : (ch 's' :: s).takeWhile isDigit = [] := rfl
  have letter : f (i + 1) = ch 's' := format.2.2.1
  have converted : convert memory buf args (f (i + 1 + ((ch 's' :: s).takeWhile isDigit).length))
      (widthFrom 0 ((ch 's' :: s).takeWhile isDigit)) ((ch 's' :: s).head? = some (ch '0')) taken =
      some (a, taken + 1) := by
    rw [none]
    change convert memory buf args (f (i + 1)) 0 false taken = _
    rw [letter]
    exact convert_string string nonnull short
  refine printfLoop_directive format room (fun _ _ => trivial) converted ?_
  rw [none]
  exact rest

theorem printfLoop_ends (format : CString f i []) :
    Returns (printfLoop memory buf args (left + 1) i taken) f (fun _ => True) [] := by
  have zero : f i = 0 := format
  refine Returns.then_read (k := i) trivial ?_
  rw [zero]
  exact returns_pure _

theorem print_of_returns (shown : Returns (printfLoop memory buf args turns 0 0) (view memory fmt) (fun _ => True) s) :
    print turns memory buf fmt args = some s := by
  obtain ⟨reads, ended, _⟩ := shown
  rw [print, printf, ended]
  rfl

/-- The format "%s%s" shows its two strings and nothing else. -/
theorem print_arguments (format : CString (view memory fmt) 0 (chars "%s%s"))
    (first : CString (view memory (args 0)) 0 a) (second : CString (view memory (args 1)) 0 b)
    (nonnull : args 0 ≠ 0) (also : args 1 ≠ 0) (short : a.length < 2 ^ 31) (small : b.length < 2 ^ 31)
    (enough : 5 ≤ turns) : print turns memory buf fmt args = some (a ++ b) := by
  obtain ⟨left, rfl⟩ := Nat.exists_eq_add_of_le' enough
  have tail : CString (view memory fmt) 2 (chars "%s") := format.2.2.2.2
  have last : CString (view memory fmt) 4 [] := tail.2.2.2.2
  have ends : Returns (printfLoop memory buf args (left + 3) 4 2) (view memory fmt) (fun _ => True) [] :=
    printfLoop_ends last
  have later := printfLoop_string tail (by simp) second also small ends
  have whole := printfLoop_string format (by simp) first nonnull short later
  rw [List.append_nil] at whole
  exact print_of_returns whole

theorem print_newline (format : CString (view memory fmt) 0 (chars "\n")) (enough : 2 ≤ turns) :
    print turns memory buf fmt args = some (chars "\n") := by
  obtain ⟨left, rfl⟩ := Nat.exists_eq_add_of_le' enough
  exact print_of_returns (printfLoop_plain format (by decide) trivial (printfLoop_ends format.2.2))

/-! The loop over the arguments. -/

/-- The arguments from place `i` on. -/
def Pointed (memory : Mem) (args : Nat → Word) : Nat → List (List Byte) → Prop
  | i, [] => args i = 0
  | i, word :: rest =>
      (args i ≠ 0 ∧ CString (view memory (args i)) 0 word ∧ word.length < 2 ^ 31) ∧ Pointed memory args (i + 1) rest

theorem echoLoop_words (linked : r.Linked memory) (enough : 5 ≤ turns) {rest : List (List Byte)}
    (pointed : Pointed memory args i rest) (room : rest.length < left) :
    echoLoop turns memory buf r args left i = some (List.intercalate [0x20] rest) := by
  induction rest generalizing i left with
  | nil =>
    cases left with
    | zero => exact absurd room (Nat.lt_irrefl 0)
    | succ left =>
      have ends : args i = 0 := pointed
      rw [echoLoop, if_pos ends]
      rfl
  | cons word rest ih =>
    cases left with
    | zero => exact absurd room (Nat.not_lt_zero _)
    | succ left =>
      obtain ⟨⟨nonnull, string, short⟩, later⟩ := pointed
      have behind := ih later (Nat.lt_of_succ_lt_succ room)
      rw [echoLoop, if_neg nonnull, behind]
      cases rest with
      | nil =>
        have ends : args (i + 1) = 0 := later
        have empty : operands r args i 1 = r.empty := if_neg (not_not.mpr ends)
        have shown : print turns memory buf r.arguments (operands r args i) = some (word ++ []) :=
          print_arguments linked.arguments string (by rw [empty]; exact linked.empty.2) nonnull
            (by rw [empty]; exact linked.empty.1) short (by simp) enough
        rw [shown]
        simp
      | cons next rest =>
        have space : operands r args i 1 = r.space := if_pos later.1.1
        have shown : print turns memory buf r.arguments (operands r args i) = some (word ++ chars " ") :=
          print_arguments linked.arguments string (by rw [space]; exact linked.space.2) nonnull
            (by rw [space]; exact linked.space.1) short (by decide) enough
        rw [shown]
        simp [List.intercalate_cons_cons, chars]

theorem pointed_drop {found : List (List Byte)}
    (each : ∀ i (inside : i < found.length), args i ≠ 0 ∧
      CString (view memory (args i)) 0 (found.get ⟨i, inside⟩) ∧ (found.get ⟨i, inside⟩).length < 2 ^ 31)
    (ends : args found.length = 0) (left : Nat) (within : left ≤ found.length) :
    Pointed memory args (found.length - left) (found.drop (found.length - left)) := by
  induction left with
  | zero =>
    rw [Nat.sub_zero, List.drop_length]
    exact ends
  | succ left ih =>
    have inside : found.length - (left + 1) < found.length := by omega
    have next : found.length - (left + 1) + 1 = found.length - left := by omega
    rw [List.drop_eq_getElem_cons inside]
    refine ⟨each _ inside, ?_⟩
    rw [next]
    exact ih (Nat.le_of_succ_le within)

/-! A line that the shell has split. -/

/-- The array args as it stands in memory, with the line at `base`. -/
def pointers (base : Word) (args : Nat → Option Nat) : Nat → Word :=
  fun k => match args k with
    | none => 0
    | some p => base + BitVec.ofNat 32 p

/-- The words are stored where they stand in the line. -/
theorem tokenizeTrace_places {size room p : Nat} {t u : Tokens} (string : CString t.line p s)
    (fits : p + s.length < size) (finished : tokenizeTrace size room p t = some u) {k q : Nat}
    (new : t.argc ≤ k) (inside : k < u.argc) (held : u.args k = some q) : q ≤ p + s.length := by
  induction room generalizing t p s with
  | zero =>
    obtain rfl : t = u := Option.some.inj finished
    omega
  | succ room ih =>
    rcases tokenizeTrace_turn room string fits with ⟨_, ends⟩ | ⟨cut, start, word, next, more, _, turn, goesOn⟩
    · obtain rfl : t = u := Option.some.inj (ends.symm.trans finished)
      omega
    · have fitting := turn.fits
      have behind := turn.behind
      rw [goesOn] at finished
      by_cases first : k = t.argc
      · obtain ⟨other, same, filled⟩ := tokenizeTrace_filled room turn.rest (Nat.lt_of_le_of_lt turn.fits fits)
        obtain rfl : other = u := Option.some.inj (same.symm.trans finished)
        rw [first, filled.before _ (by rw [turn.argc]; omega), turn.args, Function.update_self] at held
        obtain rfl : start = q := Option.some.inj held
        omega
      · have later := ih turn.rest (Nat.lt_of_le_of_lt turn.fits fits) finished (by rw [turn.argc]; omega)
        omega

section line
variable {base : Word} {line : Line} {before : Nat → Option Nat} {t : Tokens}

/-- A word of the line where its pointer points to. -/
theorem view_word {n q : Nat} {word : List Byte} (inside : n < MAX_LINE)
    (held : ∀ k < MAX_LINE, memory (base + BitVec.ofNat 32 k) = line k) (ending : line n = 0) (place : q ≤ n)
    (string : CString line q word) :
    CString (view memory (base + BitVec.ofNat 32 q)) 0 word ∧ word.length < 2 ^ 31 := by
  have size : MAX_LINE = 512 := rfl
  have within := string.before_zero place ending
  refine ⟨((CString.offset q).mpr string).frame fun k _ near => ?_, by omega⟩
  have sum : base + BitVec.ofNat 32 q + BitVec.ofNat 32 k = base + BitVec.ofNat 32 (q + k) := by
    rw [BitVec.ofNat_add, BitVec.add_assoc]
  rw [view, sum]
  exact held (q + k) (by omega)

/-- The array args after shell_execute has split the line. -/
theorem split_pointed (string : CString line 0 s) (fits : s.length < MAX_LINE) (nonempty : words s ≠ [])
    (tokens : split MAX_LINE line before = some t) (nonnull : base ≠ 0)
    (room : base.toNat + MAX_LINE ≤ 2 ^ 32)
    (held : ∀ k < MAX_LINE, memory (base + BitVec.ofNat 32 k) = t.line k) :
    Pointed memory (pointers base t.args) 1 (((words s).take (MAX_ARGS - 1)).tail) := by
  have size : MAX_LINE = 512 := rfl
  have initial : CString (Tokens.mk line before 0 []).line 0 s := string
  have bound : 0 + s.length < MAX_LINE := by omega
  obtain ⟨u, finished, filled⟩ := tokenizeTrace_filled (MAX_ARGS - 1) initial bound
  obtain rfl : u.terminate = t := by
    rw [split, finished] at tokens
    exact Option.some.inj tokens
  have some : 1 ≤ ((words s).take (MAX_ARGS - 1)).length := by
    rw [List.length_take]
    exact Nat.le_min.mpr ⟨by decide, List.length_pos_iff.mpr nonempty⟩
  generalize (words s).take (MAX_ARGS - 1) = found at *
  have count : u.argc = found.length := filled.argc.trans (Nat.zero_add _)
  have ending : u.line s.length = 0 := by
    have zero : line (0 + s.length) = 0 := string.ends
    rw [Nat.zero_add] at zero
    exact (filled.kept s.length (Or.inr zero)).trans zero
  have each : ∀ i (inside : i < found.length), pointers base u.terminate.args i ≠ 0 ∧
      CString (view memory (pointers base u.terminate.args i)) 0 (found.get ⟨i, inside⟩) ∧
        (found.get ⟨i, inside⟩).length < 2 ^ 31 := by
    intro i inside
    obtain ⟨q, stored, word⟩ := filled.tokens i inside
    have taken : 0 + i < u.argc := by omega
    have place : q ≤ 0 + s.length := tokenizeTrace_places initial bound finished (Nat.zero_le _) taken stored
    rw [Nat.zero_add] at place stored
    have pointer : pointers base u.terminate.args i = base + BitVec.ofNat 32 q := by
      have kept : u.terminate.args i = Option.some q := (Function.update_of_ne (by omega) _ _).trans stored
      rw [pointers, kept]
    rw [pointer]
    exact ⟨by bv_omega, view_word fits held ending place word⟩
  have ends : pointers base u.terminate.args found.length = 0 := by
    have null : u.terminate.args found.length = none := by
      rw [← count]
      exact Function.update_self _ _ _
    rw [pointers, null]
  have pointed := pointed_drop each ends (found.length - 1) (Nat.sub_le _ _)
  rwa [Nat.sub_sub_self some, List.drop_one] at pointed

/-- cmd_echo on a line that shell_execute has split prints its words behind the first, with one space
between two of them and a newline at the end; those after the thirtieth are lost. -/
theorem echo_prints (linked : r.Linked memory) (enough : 5 ≤ turns) (string : CString line 0 s)
    (fits : s.length < MAX_LINE) (nonempty : words s ≠ []) (tokens : split MAX_LINE line before = some t)
    (nonnull : base ≠ 0) (room : base.toNat + MAX_LINE ≤ 2 ^ 32)
    (held : ∀ k < MAX_LINE, memory (base + BitVec.ofNat 32 k) = t.line k) :
    cmdEcho turns memory buf r (pointers base t.args) =
      some (List.intercalate [0x20] (((words s).take (MAX_ARGS - 1)).tail) ++ chars "\n") := by
  have pointed := split_pointed string fits nonempty tokens nonnull room held
  have few : ((words s).take (MAX_ARGS - 1)).tail.length < MAX_ARGS - 1 := by
    rw [List.length_tail, List.length_take]
    exact Nat.lt_of_le_of_lt (Nat.sub_le_sub_right (Nat.min_le_left _ _) 1) (by decide)
  rw [cmdEcho, echoLoop_words linked enough pointed few]
  change (print turns memory buf r.newline _ >>= _) = _
  rw [print_newline linked.newline (by omega)]
  rfl

end line

/-- The literals one after the other, and behind them nothing. -/
def rodata : Mem := fun a => (chars "%s%s" ++ [0] ++ chars " " ++ [0, 0] ++ chars "\n").getD (a - 0x2000).toNat 0

def literals : Literals := ⟨0x2000, 0x2005, 0x2007, 0x2008⟩

/-- Three words with two gaps. -/
def gaps : Line := fun k => (chars "echo  a  b").getD k 0

def image (line : Line) : Mem := fun a => if Within 0x1000 MAX_LINE a then line (a - 0x1000).toNat else rodata a

theorem image_linked (line : Line) : literals.Linked (image line) where
  arguments := ⟨rfl, by decide, rfl, by decide, rfl, by decide, rfl, by decide, rfl⟩
  space := ⟨by decide, rfl, by decide, rfl⟩
  empty := ⟨by decide, rfl⟩
  newline := ⟨rfl, by decide, rfl⟩

theorem image_line (line : Line) {k : Nat} (inside : k < MAX_LINE) :
    image line (0x1000 + BitVec.ofNat 32 k) = line k := by
  have size : MAX_LINE = 512 := rfl
  have small : (BitVec.ofNat 32 k).toNat = k := Nat.mod_eq_of_lt (by omega)
  have offset : (0x1000 : Word) + BitVec.ofNat 32 k - 0x1000 = BitVec.ofNat 32 k := by bv_omega
  have within : Within 0x1000 MAX_LINE ((0x1000 : Word) + BitVec.ofNat 32 k) := by
    rwa [Within, offset, small]
  rw [image, if_pos within, offset, small]

theorem echo_prints_gaps : ∃ t, split MAX_LINE gaps (fun _ => none) = some t ∧
    cmdEcho 5 (image t.line) (fun _ => 0) literals (pointers 0x1000 t.args) =
      some (List.intercalate [0x20] (((words (chars "echo  a  b")).take (MAX_ARGS - 1)).tail) ++ chars "\n") := by
  have string : CString gaps 0 (chars "echo  a  b") := by
    simp [CString, gaps, chars]
  have initial : CString (Tokens.mk gaps (fun _ => none) 0 []).line 0 (chars "echo  a  b") := string
  obtain ⟨u, finished, _⟩ := tokenizeTrace_filled (MAX_ARGS - 1) initial (by decide : 0 + 10 < MAX_LINE)
  have tokens : split MAX_LINE gaps (fun _ => none) = some u.terminate := by
    rw [split, finished]
    rfl
  refine ⟨u.terminate, tokens, ?_⟩
  exact echo_prints (image_linked u.terminate.line) (by decide) string (by decide) (by decide) tokens (by decide)
    (by decide) fun k inside => image_line u.terminate.line inside

end Vaelen.Kernel.ShellPrint
