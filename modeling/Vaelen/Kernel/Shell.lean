import Mathlib.Data.List.GetD
import Vaelen.Base.CString
import Vaelen.Kernel.Platform

/-!
The shell of shell.c: reading a line from the keyboard, splitting it in place, and the
commands. What the commands print is left out, and timer_sleep returns.
-/

namespace Vaelen.Kernel.Shell
open Vaelen.Base

abbrev MAX_LINE : Nat := 512
abbrev MAX_ARGS : Nat := 32
abbrev MAX_HISTORY : Int := 50

/-- A `char line[MAX_LINE]`. -/
abbrev Line := Nat → Byte

/-- The static variables of shell.c. -/
structure History where
  history : Int → Line
  /-- An int, which C gives no meaning once 2^31 lines make it overflow; here it counts on. -/
  histCount : Int
  histIdx : Int

def chars (s : String) : List Byte := s.toList.map fun c => BitVec.ofNat 8 c.toNat

/-! The string functions it calls. -/

def strncpyCopy (src : Line) : Nat → Nat → Line → Line × Nat
  | 0, i, dest => (dest, i)
  | left + 1, i, dest =>
      if src i = 0 then (dest, i) else strncpyCopy src left (i + 1) (Function.update dest i (src i))

def strncpy (dest src : Line) (n : Nat) : Line :=
  let (dest, i) := strncpyCopy src n 0 dest
  fun k => if i ≤ k ∧ k < n then 0 else dest k

/-- The string at `p` of the line against a constant. -/
def strcmp (line : Line) (p : Nat) : List Byte → Int
  | [] => (line p).toNat
  | c :: s2 =>
      if line p ≠ 0 ∧ line p = c then strcmp line (p + 1) s2
      else (line p).toNat - c.toNat

/-! Reading a line. -/

/-- `c >= ' ' && c <= '~'` on a signed char. -/
def printable (c : Byte) : Bool := 0x20 ≤ c.toInt ∧ c.toInt ≤ 0x7E

def remember (buf : Line) (h : History) : History :=
  let row := h.histCount.tmod MAX_HISTORY
  { history := Function.update h.history row (strncpy (h.history row) buf (MAX_LINE - 1))
    histCount := h.histCount + 1
    histIdx := h.histCount + 1 }

/-- The loop of shell_getline on the characters still to come; none when they run out and
keyboard_getchar waits. -/
def getlineLoop (maxlen : Nat) (keys : List Byte) (i : Nat) (buf : Line) (h : History) :
    Option (List Byte × Line × History) :=
  if i < maxlen - 1 then
    match keys with
    | [] => none
    | c :: keys =>
        if c = 0x0A then
          let buf := Function.update buf i 0
          some (keys, buf, if 0 < i then remember buf h else h)
        else if c = 0x08 then getlineLoop maxlen keys (if 0 < i then i - 1 else i) buf h
        else if printable c then getlineLoop maxlen keys (i + 1) (Function.update buf i c) h
        else getlineLoop maxlen keys i buf h
  else some (keys, Function.update buf i 0, h)
termination_by structural keys

def shellGetline (keys : List Byte) (buf : Line) (maxlen : Nat) (h : History) :
    Option (List Byte × Line × History) :=
  getlineLoop maxlen keys 0 (Function.update buf 0 0) h

/-! The commands. -/

/-- The functions of the table. -/
inductive Func where
  | cmdHelp | cmdClear | cmdEcho | cmdLs | cmdCd | cmdMkdir | cmdRm | cmdCat | cmdTouch | cmdCp
  | cmdMv | cmdPwd | cmdWhoami | cmdUname | cmdDate | cmdPs | cmdKill | cmdFree | cmdDf
  | cmdMount | cmdUmount | cmdReboot | cmdShutdown | cmdAptget | cmdDpkg | cmdSystemctl | cmdMan
  | cmdHistoryCmd | cmdHostname | cmdIfconfig | cmdPing | cmdWget | cmdCurl | cmdSsh | cmdUseradd
  | cmdPasswd | cmdSu | cmdChmod | cmdChown | cmdTar | cmdGzip | cmdFind | cmdGrep | cmdWc
  | cmdHead | cmdTail | cmdSort | cmdUniq | cmdDiff | cmdLn | cmdWhich | cmdWhereis | cmdEnv
  | cmdExport | cmdSource | cmdAlias | cmdUnalias | cmdTypeCmd | cmdExit | cmdSleepCmd
  | cmdTrueCmd | cmdFalseCmd
  deriving DecidableEq, Repr

structure Entry where
  name : String
  func : Func
  deriving DecidableEq, Repr

def commands : List Entry :=
  [⟨"help", .cmdHelp⟩, ⟨"clear", .cmdClear⟩, ⟨"echo", .cmdEcho⟩, ⟨"ls", .cmdLs⟩, ⟨"cd", .cmdCd⟩,
   ⟨"mkdir", .cmdMkdir⟩, ⟨"rm", .cmdRm⟩, ⟨"cat", .cmdCat⟩, ⟨"touch", .cmdTouch⟩, ⟨"cp", .cmdCp⟩,
   ⟨"mv", .cmdMv⟩, ⟨"pwd", .cmdPwd⟩, ⟨"whoami", .cmdWhoami⟩, ⟨"uname", .cmdUname⟩,
   ⟨"date", .cmdDate⟩, ⟨"ps", .cmdPs⟩, ⟨"kill", .cmdKill⟩, ⟨"free", .cmdFree⟩, ⟨"df", .cmdDf⟩,
   ⟨"mount", .cmdMount⟩, ⟨"umount", .cmdUmount⟩, ⟨"reboot", .cmdReboot⟩,
   ⟨"shutdown", .cmdShutdown⟩, ⟨"apt-get", .cmdAptget⟩, ⟨"dpkg", .cmdDpkg⟩,
   ⟨"systemctl", .cmdSystemctl⟩, ⟨"man", .cmdMan⟩, ⟨"history", .cmdHistoryCmd⟩,
   ⟨"hostname", .cmdHostname⟩, ⟨"ifconfig", .cmdIfconfig⟩, ⟨"ping", .cmdPing⟩,
   ⟨"wget", .cmdWget⟩, ⟨"curl", .cmdCurl⟩, ⟨"ssh", .cmdSsh⟩, ⟨"useradd", .cmdUseradd⟩,
   ⟨"passwd", .cmdPasswd⟩, ⟨"su", .cmdSu⟩, ⟨"chmod", .cmdChmod⟩, ⟨"chown", .cmdChown⟩,
   ⟨"tar", .cmdTar⟩, ⟨"gzip", .cmdGzip⟩, ⟨"find", .cmdFind⟩, ⟨"grep", .cmdGrep⟩, ⟨"wc", .cmdWc⟩,
   ⟨"head", .cmdHead⟩, ⟨"tail", .cmdTail⟩, ⟨"sort", .cmdSort⟩, ⟨"uniq", .cmdUniq⟩,
   ⟨"diff", .cmdDiff⟩, ⟨"ln", .cmdLn⟩, ⟨"which", .cmdWhich⟩, ⟨"whereis", .cmdWhereis⟩,
   ⟨"env", .cmdEnv⟩, ⟨"export", .cmdExport⟩, ⟨"source", .cmdSource⟩, ⟨"alias", .cmdAlias⟩,
   ⟨"unalias", .cmdUnalias⟩, ⟨"type", .cmdTypeCmd⟩, ⟨"exit", .cmdExit⟩, ⟨"sleep", .cmdSleepCmd⟩,
   ⟨"true", .cmdTrueCmd⟩, ⟨"false", .cmdFalseCmd⟩]

/-- The line as the tokens left it, and where each argument starts. -/
structure Args where
  line : Line
  argv : List Nat

/-- `args[k]`, none for the null pointer. -/
def Args.get (args : Args) (k : Nat) : Option Nat := args.argv[k]?

def Args.equals (args : Args) (k : Nat) (s : String) : Bool :=
  match args.get k with
  | none => false
  | some p => strcmp args.line p (chars s) = 0

def missingOperand (args : Args) : Int := if args.get 1 = none then 1 else 0

def missingOperands (args : Args) : Int := if args.get 1 = none ∨ args.get 2 = none then 1 else 0

/-- What each function returns. -/
def Func.call (args : Args) : Func → Int
  | .cmdMkdir | .cmdRm | .cmdTouch | .cmdKill | .cmdMan | .cmdSleepCmd => missingOperand args
  | .cmdCp | .cmdMv => missingOperands args
  | .cmdAptget =>
      if args.get 1 = none then 1
      else if args.equals 1 "update" then 0
      else if args.equals 1 "install" then (if args.get 2 = none then 1 else 0)
      else 0
  | .cmdWhich =>
      if args.get 1 = none then 0
      else if commands.any fun command => args.equals 1 command.name then 0
      else 1
  | .cmdExit => -1
  | .cmdCat | .cmdFalseCmd => 1
  | .cmdHelp | .cmdClear | .cmdEcho | .cmdLs | .cmdCd | .cmdPwd | .cmdWhoami | .cmdUname
  | .cmdDate | .cmdPs | .cmdFree | .cmdDf | .cmdMount | .cmdUmount | .cmdReboot | .cmdShutdown
  | .cmdDpkg | .cmdSystemctl | .cmdHistoryCmd | .cmdHostname | .cmdIfconfig | .cmdPing | .cmdWget
  | .cmdCurl | .cmdSsh | .cmdUseradd | .cmdPasswd | .cmdSu | .cmdChmod | .cmdChown | .cmdTar
  | .cmdGzip | .cmdFind | .cmdGrep | .cmdWc | .cmdHead | .cmdTail | .cmdSort | .cmdUniq
  | .cmdDiff | .cmdLn | .cmdWhereis | .cmdEnv | .cmdExport | .cmdSource | .cmdAlias | .cmdUnalias
  | .cmdTypeCmd | .cmdTrueCmd => 0

/-! Running a line. -/

/-- `*p == ' ' || *p == '\t'` -/
def blank (c : Byte) : Bool := c = 0x20 ∨ c = 0x09

/-- The two scanning loops, with the bytes left before the end of the array; none past it. -/
def skipBlanks : Nat → Line → Nat → Option Nat
  | 0, _, _ => none
  | left + 1, line, p => if blank (line p) then skipBlanks left line (p + 1) else some p

def skipToken : Nat → Line → Nat → Option Nat
  | 0, _, _ => none
  | left + 1, line, p =>
      if line p ≠ 0 ∧ ¬blank (line p) then skipToken left line (p + 1) else some p

/-- The loop over the tokens, with the arguments there is still room for. -/
def tokenize : Nat → Line → Nat → List Nat → Option Args
  | 0, line, _, argv => some ⟨line, argv⟩
  | room + 1, line, p, argv =>
      if line p = 0 then some ⟨line, argv⟩
      else do
        let start ← skipBlanks (MAX_LINE - p) line p
        if line start = 0 then some ⟨line, argv⟩
        else
          let p ← skipToken (MAX_LINE - start) line start
          if line p ≠ 0 then tokenize room (Function.update line p 0) (p + 1) (argv ++ [start])
          else tokenize room line p (argv ++ [start])

/-- The search of the table for the first argument: the value returned, the command called and
the line. -/
def dispatch (args : Args) : Int × Option Entry × Line :=
  match args.argv with
  | [] => (0, none, args.line)
  | first :: _ =>
      match commands.find? fun command => strcmp args.line first (chars command.name) = 0 with
      | some command => (command.func.call args, some command, args.line)
      | none => (1, none, args.line)

def shellExecute (line : Line) : Option (Int × Option Entry × Line) :=
  (tokenize (MAX_ARGS - 1) line 0 []).map dispatch

/-- The string at `p`, looked for in the next `left` bytes. -/
def cstring : Nat → Line → Nat → List Byte
  | 0, _, _ => []
  | left + 1, line, p => if line p = 0 then [] else line p :: cstring left line (p + 1)

def text (line : Line) : List Byte := cstring MAX_LINE line 0

/-! Running the shell. -/

/-- A key ends the line or goes on with the rest of the keys. -/
theorem getlineLoop_cons {maxlen : Nat} {c : Byte} {keys rest : List Byte} {i : Nat} {buf line : Line}
    {h after : History} (room : i < maxlen - 1)
    (taken : getlineLoop maxlen (c :: keys) i buf h = some (rest, line, after)) :
    rest = keys ∨ ∃ i buf, getlineLoop maxlen keys i buf h = some (rest, line, after) := by
  rw [getlineLoop, if_pos room] at taken
  by_cases newline : c = 0x0A
  · simp only [newline, if_true, Option.some.injEq, Prod.mk.injEq] at taken
    exact Or.inl taken.1.symm
  · rw [if_neg newline] at taken
    split_ifs at taken
    all_goals exact Or.inr ⟨_, _, taken⟩

theorem getlineLoop_le {maxlen : Nat} {keys rest : List Byte} {i : Nat} {buf line : Line}
    {h after : History} (taken : getlineLoop maxlen keys i buf h = some (rest, line, after)) :
    rest.length ≤ keys.length := by
  induction keys generalizing i buf with
  | nil =>
    by_cases room : i < maxlen - 1
    · simp [getlineLoop, room] at taken
    · simp only [getlineLoop, room, if_false, Option.some.injEq, Prod.mk.injEq] at taken
      rw [← taken.1]
  | cons c keys ih =>
    by_cases room : i < maxlen - 1
    · rcases getlineLoop_cons room taken with rfl | ⟨_, _, later⟩
      · exact Nat.le_succ _
      · exact Nat.le_succ_of_le (ih later)
    · simp only [getlineLoop, room, if_false, Option.some.injEq, Prod.mk.injEq] at taken
      rw [← taken.1]

/-- A line takes at least one key. -/
theorem getlineLoop_shorter {maxlen : Nat} {keys rest : List Byte} {i : Nat} {buf line : Line}
    {h after : History} (room : i < maxlen - 1)
    (taken : getlineLoop maxlen keys i buf h = some (rest, line, after)) :
    rest.length < keys.length := by
  cases keys with
  | nil => simp [getlineLoop, room] at taken
  | cons c keys =>
    rcases getlineLoop_cons room taken with rfl | ⟨_, _, later⟩
    · exact Nat.lt_succ_self _
    · exact Nat.lt_succ_of_le (getlineLoop_le later)

/-- One non-empty line and the command it was given to. -/
structure Dispatch where
  line : List Byte
  command : Option Entry

/-- The shell waits for a key, has returned with these keys unread, or has left its line. -/
inductive Ending where
  | waiting
  | returned (keys : List Byte)
  | overrun
  deriving DecidableEq, Repr

structure Run where
  log : List Dispatch
  ending : Ending

/-- The loop of shell_run on the keys still to come. -/
def shellRun (keys : List Byte) (line : Line) (h : History) : Run :=
  match _taken : shellGetline keys line MAX_LINE h with
  | none => ⟨[], .waiting⟩
  | some (rest, line, h) =>
      if line 0 = 0 then shellRun rest line h
      else match shellExecute line with
        | none => ⟨[], .overrun⟩
        | some (value, command, after) =>
            let logged := ⟨text line, command⟩
            if value < 0 then ⟨[logged], .returned rest⟩
            else
              let run := shellRun rest after h
              ⟨logged :: run.log, run.ending⟩
termination_by keys.length
decreasing_by
  · exact getlineLoop_shorter (by decide) _taken
  · exact getlineLoop_shorter (by decide) _taken

/-! The string functions on strings. -/

theorem cstring_eq {left p : Nat} {line : Line} {s : List Byte} (string : CString line p s)
    (room : s.length < left) : cstring left line p = s := by
  induction s generalizing p left with
  | nil =>
    cases left with
    | zero => omega
    | succ left =>
      have ends : line p = 0 := string
      rw [cstring, if_pos ends]
  | cons c s ih =>
    cases left with
    | zero => omega
    | succ left =>
      rw [List.length_cons] at room
      rw [cstring, string.1, if_neg string.2.1, ih string.2.2 (by omega)]

theorem strncpyCopy_spec {src : Line} {s : List Byte} (dest : Line) (left : Nat) {i : Nat} (string : CString src i s) :
    (strncpyCopy src left i dest).2 = i + min s.length left ∧
      ∀ k, (strncpyCopy src left i dest).1 k = if i ≤ k ∧ k < i + min s.length left then src k else dest k := by
  induction left generalizing s i dest with
  | zero =>
    refine ⟨by simp [strncpyCopy], fun k => ?_⟩
    rw [if_neg (by omega)]
    rfl
  | succ left ih =>
    cases s with
    | nil =>
      have ends : src i = 0 := string
      rw [strncpyCopy, if_pos ends]
      refine ⟨by simp, fun k => ?_⟩
      rw [if_neg (by simp)]
    | cons c s =>
      rw [List.length_cons, strncpyCopy, if_neg string.head_nonzero]
      obtain ⟨stops, cells⟩ := ih (Function.update dest i (src i)) string.2.2
      refine ⟨by omega, fun k => ?_⟩
      rw [cells k]
      by_cases here : k = i
      · subst here
        rw [Function.update_self, if_neg (by omega), if_pos (by omega)]
      · rw [Function.update_of_ne here]
        congr 1
        apply propext
        omega

/-- Behind the string come zeros up to the limit, and none when the string fills it. -/
theorem strncpy_spec {src : Line} {s : List Byte} (dest : Line) (n : Nat) (string : CString src 0 s) (k : Nat) :
    strncpy dest src n k = if k < n then s.getD k 0 else dest k := by
  obtain ⟨stops, cells⟩ := strncpyCopy_spec dest n string
  rw [Nat.zero_add] at stops
  simp only [strncpy, stops, cells, Nat.zero_add]
  by_cases inside : k < n
  · rw [if_pos inside]
    by_cases here : k < s.length
    · have byte : src (0 + k) = s.getD k 0 := by
        apply CString.get string
        rw [List.getD_eq_getElem s 0 here, List.getElem?_eq_getElem here]
      rw [Nat.zero_add] at byte
      rw [if_neg (by omega), if_pos (by omega), byte]
    · rw [if_pos (by omega), List.getD_eq_default s 0 (Nat.le_of_not_lt here)]
  · rw [if_neg (by omega), if_neg (by omega), if_neg inside]

/-- What is left of the string ends when it is shorter than the limit or a zero stands there already. -/
theorem strncpy_string {src dest : Line} {s : List Byte} {n : Nat} (string : CString src 0 s)
    (fits : s.length < n ∨ dest n = 0) : CString (strncpy dest src n) 0 (s.take n) := by
  apply CString.of_get
  · exact fun zero => CString.nonzero string 0 (List.mem_of_mem_take zero) rfl
  · intro k c found
    rw [List.getElem?_take] at found
    obtain ⟨bound, found⟩ := Option.ite_none_right_eq_some.mp found
    rw [Nat.zero_add, strncpy_spec dest n string, if_pos bound, List.getD_eq_getElem?_getD, found]
    rfl
  · rw [Nat.zero_add, strncpy_spec dest n string, List.length_take]
    by_cases short : s.length < n
    · rw [Nat.min_eq_right (Nat.le_of_lt short), if_pos short, List.getD_eq_default s 0 (Nat.le_refl _)]
    · rw [Nat.min_eq_left (Nat.le_of_not_lt short), if_neg (Nat.lt_irrefl n)]
      exact fits.resolve_left short

end Vaelen.Kernel.Shell
