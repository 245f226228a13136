import Vaelen.Base.Reading
import Vaelen.Kernel.ShellRuns

/-!
The splitting of a line of any length with its stores, and the commands with the places of args that
they read. The arguments are the runs of characters between blanks, and no command reads behind the
null pointer after them.
-/

namespace Vaelen.Kernel.ShellTokens
open Vaelen.Base Shell ShellRuns Reading

/-! The commands and the arguments that they read. -/

/-- A function of the array args. -/
abbrev Command (α : Type) : Type := Reading Nat (Option Nat) α

def arg (k : Nat) : Command (Option Nat) := read k

/-- strcmp on an argument that is not null. -/
def equals (line : Line) (token : Option Nat) (s : String) : Bool :=
  match token with
  | none => false
  | some p => strcmp line p (chars s) = 0

/-- The loops over the table, which compare each name with args[k]. -/
def search (line : Line) (k : Nat) : List Entry → Command (Option Entry)
  | [] => return none
  | command :: rest => do
      let token ← arg k
      if equals line token command.name then return some command else search line k rest

def cmdHelp (line : Line) : Command Int := do
  match ← arg 1 with
  | none => return 0
  | some _ =>
      match ← search line 1 commands with
      | some _ => return 0
      | none => do
          let _ ← arg 1
          return 0

/-- The loop of cmd_echo, with the places left before the end of args. -/
def echoLoop : Nat → Nat → Command Int
  | 0, _ => stuck
  | left + 1, i => do
      match ← arg i with
      | none => return 0
      | some _ =>
          let _ ← arg i
          let _ ← arg (i + 1)
          echoLoop left (i + 1)

def cmdEcho : Command Int := echoLoop (MAX_ARGS - 1) 1

/-- A command that ends with 1 when it has no operand. -/
def operand (rest : Command Int) : Command Int := do
  match ← arg 1 with
  | none => return 1
  | some _ => rest

/-- A message that shows the operand. -/
def shown (value : Int) : Command Int := do
  let _ ← arg 1
  return value

def cmdMkdir : Command Int := operand (shown 0)
def cmdRm : Command Int := operand (shown 0)
def cmdCat : Command Int := operand (shown 1)
def cmdTouch : Command Int := operand (return 0)
def cmdKill : Command Int := operand (return 0)
def cmdMan : Command Int := operand (shown 0)
def cmdSleepCmd : Command Int := operand (shown 0)

def secondOperand : Command Int := do
  match ← arg 2 with
  | none => return 1
  | some _ => return 0

def cmdCp : Command Int := operand secondOperand
def cmdMv : Command Int := operand secondOperand

/-- `args[1] && strcmp(args[1], s) == 0` -/
def option (line : Line) (s : String) : Command Bool := do
  match ← arg 1 with
  | none => return false
  | some _ => return equals line (← arg 1) s

/-- The branches differ in what they print. -/
def cmdUname (line : Line) : Command Int := do
  if ← option line "-a" then return 0
  else if ← option line "-r" then return 0
  else return 0

def cmdAptget (line : Line) : Command Int := operand do
  if equals line (← arg 1) "update" then return 0
  else if equals line (← arg 1) "install" then
    match ← arg 2 with
    | none => return 1
    | some _ => do
        let _ ← arg 2
        let _ ← arg 2
        return 0
  else if equals line (← arg 1) "remove" then return 0
  else if equals line (← arg 1) "upgrade" then return 0
  else if equals line (← arg 1) "search" then
    match ← arg 2 with
    | none => return 0
    | some _ => do
        let _ ← arg 2
        return 0
  else return 0

def cmdWhich (line : Line) : Command Int := do
  match ← arg 1 with
  | none => return 0
  | some _ =>
      match ← search line 1 commands with
      | some _ => shown 0
      | none => return 1

/-- The functions of the table; most of them do not look at args. -/
def run (line : Line) : Func → Command Int
  | .cmdHelp => cmdHelp line
  | .cmdEcho => cmdEcho
  | .cmdMkdir => cmdMkdir
  | .cmdRm => cmdRm
  | .cmdCat => cmdCat
  | .cmdTouch => cmdTouch
  | .cmdCp => cmdCp
  | .cmdMv => cmdMv
  | .cmdUname => cmdUname line
  | .cmdKill => cmdKill
  | .cmdAptget => cmdAptget line
  | .cmdMan => cmdMan
  | .cmdWhich => cmdWhich line
  | .cmdSleepCmd => cmdSleepCmd
  | .cmdExit => return -1
  | .cmdFalseCmd => return 1
  | .cmdClear | .cmdLs | .cmdCd | .cmdPwd | .cmdWhoami | .cmdDate | .cmdPs | .cmdFree | .cmdDf
  | .cmdMount | .cmdUmount | .cmdReboot | .cmdShutdown | .cmdDpkg | .cmdSystemctl | .cmdHistoryCmd
  | .cmdHostname | .cmdIfconfig | .cmdPing | .cmdWget | .cmdCurl | .cmdSsh | .cmdUseradd | .cmdPasswd
  | .cmdSu | .cmdChmod | .cmdChown | .cmdTar | .cmdGzip | .cmdFind | .cmdGrep | .cmdWc | .cmdHead
  | .cmdTail | .cmdSort | .cmdUniq | .cmdDiff | .cmdLn | .cmdWhereis | .cmdEnv | .cmdExport
  | .cmdSource | .cmdAlias | .cmdUnalias | .cmdTypeCmd | .cmdTrueCmd => return 0

/-! No command reads behind the arguments. -/

/-- The array holds the arguments and a null pointer behind them. -/
def Holds (slots : Nat → Option Nat) (args : Args) : Prop := ∀ k ≤ args.argv.length, slots k = args.get k

/-- The command returns this value without reading behind the null pointer. -/
def Stays (args : Args) (slots : Nat → Option Nat) (value : α) (command : Command α) : Prop :=
  Returns command slots (· ≤ args.argv.length) value

variable {α γ : Type} {args : Args} {slots : Nat → Option Nat} {k : Nat} {value : Int}

theorem inside_of_some (some : args.get k ≠ none) : k + 1 ≤ args.argv.length := by
  by_contra outside
  exact some (List.getElem?_eq_none (Nat.le_of_lt_succ (Nat.not_le.mp outside)))

/-- A read of an argument, and what is done with it. -/
theorem Stays.arg (holds : Holds slots args) (inside : k ≤ args.argv.length) {next : Option Nat → Command γ}
    {result : γ} (rest : Stays args slots result (next (args.get k))) :
    Stays args slots result (arg k >>= next) := by
  rw [← holds k inside] at rest
  exact Returns.then_read inside rest

theorem stays_return (value : α) : Stays args slots value (return value) := returns_pure value

/-- The search finds the first command that the argument names. -/
theorem search_stays (holds : Holds slots args) (inside : k ≤ args.argv.length) (table : List Entry) :
    Stays args slots (table.find? fun command => args.equals k command.name) (search args.line k table) := by
  induction table with
  | nil => exact stays_return none
  | cons command rest ih =>
    apply Stays.arg holds inside
    rw [List.find?_cons]
    change Stays args slots _ (if args.equals k command.name then return some command else search args.line k rest)
    cases found : args.equals k command.name with
    | true => exact stays_return (some command)
    | false => exact ih

/-- echo reads the arguments from the second to the null pointer. -/
theorem echoLoop_stays (holds : Holds slots args) (left i : Nat) (inside : i ≤ args.argv.length)
    (room : args.argv.length < i + left) : Stays args slots 0 (echoLoop left i) := by
  induction left generalizing i with
  | zero => omega
  | succ left ih =>
    apply Stays.arg holds inside
    cases found : args.get i with
    | none => exact stays_return 0
    | some p =>
      have next : i + 1 ≤ args.argv.length := inside_of_some (by rw [found]; exact Option.some_ne_none p)
      apply Stays.arg holds inside
      apply Stays.arg holds next
      exact ih (i + 1) next (by omega)

theorem operand_stays (holds : Holds slots args) (some : 1 ≤ args.argv.length) {rest : Command Int}
    (present : args.get 1 ≠ none → Stays args slots value rest) :
    Stays args slots (if args.get 1 = none then 1 else value) (operand rest) := by
  apply Stays.arg holds some
  cases found : args.get 1 with
  | none => exact stays_return 1
  | some p => exact present (by rw [found]; exact Option.some_ne_none p)

theorem shown_stays (holds : Holds slots args) (some : 1 ≤ args.argv.length) (value : Int) :
    Stays args slots value (shown value) :=
  Stays.arg holds some (stays_return value)

theorem secondOperand_stays (holds : Holds slots args) (inside : 2 ≤ args.argv.length) :
    Stays args slots (if args.get 2 = none then 1 else 0) secondOperand := by
  apply Stays.arg holds inside
  cases args.get 2 with
  | none => exact stays_return 1
  | some p => exact stays_return 0

theorem option_stays (holds : Holds slots args) (some : 1 ≤ args.argv.length) (s : String) :
    Stays args slots (args.equals 1 s) (option args.line s) := by
  apply Stays.arg holds some
  unfold Args.equals
  cases found : args.get 1 with
  | none => exact stays_return false
  | some p =>
    apply Stays.arg holds some
    rw [found]
    exact stays_return _

theorem cmdHelp_stays (holds : Holds slots args) (some : 1 ≤ args.argv.length) :
    Stays args slots 0 (cmdHelp args.line) := by
  apply Stays.arg holds some
  cases args.get 1 with
  | none => exact stays_return 0
  | some p =>
    apply Returns.bind (search_stays holds some commands)
    cases commands.find? fun command => args.equals 1 command.name with
    | some command => exact stays_return 0
    | none => exact shown_stays holds some 0

theorem cmdUname_stays (holds : Holds slots args) (some : 1 ≤ args.argv.length) :
    Stays args slots 0 (cmdUname args.line) := by
  apply Returns.bind (option_stays holds some "-a")
  cases args.equals 1 "-a" with
  | true => exact stays_return 0
  | false =>
    apply Returns.bind (option_stays holds some "-r")
    cases args.equals 1 "-r" with
    | true => exact stays_return 0
    | false => exact stays_return 0

theorem cmdWhich_stays (holds : Holds slots args) (some : 1 ≤ args.argv.length) :
    Stays args slots (Func.cmdWhich.call args) (cmdWhich args.line) := by
  have found : (commands.any fun command => args.equals 1 command.name) =
      (commands.find? fun command => args.equals 1 command.name).isSome := List.isSome_find?.symm
  rw [Func.call, found]
  apply Stays.arg holds some
  cases args.get 1 with
  | none => exact stays_return 0
  | some p =>
    apply Returns.bind (search_stays holds some commands)
    cases commands.find? fun command => args.equals 1 command.name with
    | some command => exact shown_stays holds some 0
    | none => exact stays_return 1

/-- One test of apt-get on its first operand. -/
theorem branch_stays (holds : Holds slots args) (some : 1 ≤ args.argv.length) (s : String) {yes no : Command Int}
    {first second : Int} (taken : Stays args slots first yes) (other : Stays args slots second no) :
    Stays args slots (if args.equals 1 s then first else second)
      (arg 1 >>= fun token => if equals args.line token s then yes else no) := by
  apply Stays.arg holds some
  change Stays args slots _ (if args.equals 1 s then yes else no)
  cases args.equals 1 s with
  | true => exact taken
  | false => exact other

theorem cmdAptget_stays (holds : Holds slots args) (some : 1 ≤ args.argv.length) :
    Stays args slots (Func.cmdAptget.call args) (cmdAptget args.line) := by
  have value : Func.cmdAptget.call args = if args.get 1 = none then 1
      else if args.equals 1 "update" then 0
      else if args.equals 1 "install" then (if args.get 2 = none then 1 else 0)
      else if args.equals 1 "remove" then 0
      else if args.equals 1 "upgrade" then 0
      else if args.equals 1 "search" then 0 else 0 := by
    simp only [Func.call, ite_self]
  rw [value]
  apply operand_stays holds some
  intro present
  have second : 2 ≤ args.argv.length := inside_of_some present
  apply branch_stays holds some "update" (stays_return 0)
  apply branch_stays holds some "install"
  · apply Stays.arg holds second
    cases args.get 2 with
    | none => exact stays_return 1
    | some p =>
      apply Stays.arg holds second
      exact Stays.arg holds second (stays_return 0)
  · apply branch_stays holds some "remove" (stays_return 0)
    apply branch_stays holds some "upgrade" (stays_return 0)
    refine branch_stays holds some "search" ?_ (stays_return 0)
    apply Stays.arg holds second
    cases args.get 2 with
    | none => exact stays_return 0
    | some p => exact Stays.arg holds second (stays_return 0)

/-- Each command returns what the shell takes it to return, and stays inside the arguments. -/
theorem run_stays (holds : Holds slots args) (some : 1 ≤ args.argv.length) (room : args.argv.length < MAX_ARGS)
    (func : Func) : Stays args slots (func.call args) (run args.line func) := by
  have twice : Stays args slots (missingOperands args) (operand secondOperand) := by
    have value : missingOperands args =
        if args.get 1 = none then 1 else if args.get 2 = none then 1 else 0 := by
      unfold missingOperands
      split_ifs <;> simp_all
    rw [value]
    exact operand_stays holds some fun present => secondOperand_stays holds (inside_of_some present)
  have once : Stays args slots (missingOperand args) (operand (shown 0)) :=
    operand_stays holds some fun _ => shown_stays holds some 0
  have silent : Stays args slots (missingOperand args) (operand (return 0)) :=
    operand_stays holds some fun _ => stays_return 0
  cases func
  case cmdHelp => exact cmdHelp_stays holds some
  case cmdEcho => exact echoLoop_stays holds (MAX_ARGS - 1) 1 some (by omega)
  case cmdMkdir | cmdRm | cmdMan | cmdSleepCmd => exact once
  case cmdTouch | cmdKill => exact silent
  case cmdCp | cmdMv => exact twice
  case cmdCat =>
    have fails := operand_stays holds some fun _ => shown_stays holds some 1
    rwa [ite_self] at fails
  case cmdUname => exact cmdUname_stays holds some
  case cmdAptget => exact cmdAptget_stays holds some
  case cmdWhich => exact cmdWhich_stays holds some
  all_goals exact stays_return _

/-! Splitting the line. -/

/-- The line, the array args and argc; `stores` are the places of the line that were written, the last
one first. -/
structure Tokens where
  line : Line
  args : Nat → Option Nat
  argc : Nat
  stores : List Nat

namespace Tokens

/-- `args[argc++] = p` -/
def push (t : Tokens) (p : Nat) : Tokens :=
  { t with args := Function.update t.args t.argc (some p), argc := t.argc + 1 }

/-- `*p = 0` -/
def cut (t : Tokens) (p : Nat) : Tokens :=
  { t with line := Function.update t.line p 0, stores := p :: t.stores }

/-- `args[argc] = 0` -/
def terminate (t : Tokens) : Tokens := { t with args := Function.update t.args t.argc none }

def argv (t : Tokens) : List Nat := (List.range t.argc).filterMap t.args

end Tokens

/-- The loop over the tokens of a line of `size` bytes, with the arguments there is still room for;
none past the end of the line. -/
def tokenizeTrace (size : Nat) : Nat → Nat → Tokens → Option Tokens
  | 0, _, t => some t
  | room + 1, p, t =>
      if t.line p = 0 then some t
      else do
        let start ← skipBlanks (size - p) t.line p
        if t.line start = 0 then some t
        else
          let t := t.push start
          let p ← skipToken (size - start) t.line start
          if t.line p ≠ 0 then tokenizeTrace size room (p + 1) (t.cut p)
          else tokenizeTrace size room p t

/-- The part of shell_execute before the search of the table; the array is not initialised. -/
def split (size : Nat) (line : Line) (args : Nat → Option Nat) : Option Tokens :=
  (tokenizeTrace size (MAX_ARGS - 1) 0 { line := line, args := args, argc := 0, stores := [] }).map Tokens.terminate

/-- The rest of it. -/
def dispatch (t : Tokens) : Command Int := do
  if t.argc = 0 then return 0
  else
    match ← search t.line 0 commands with
    | some command => run t.line command.func
    | none => do
        let _ ← arg 0
        return 1

/-- The runs of characters other than space and tab. -/
def words (s : List Byte) : List (List Byte) := (s.splitOnP blank).filter (· ≠ [])

/-! The stores and the array can be forgotten. -/

theorem argv_push (t : Tokens) (p : Nat) : (t.push p).argv = t.argv ++ [p] := by
  have kept : (List.range t.argc).filterMap (Function.update t.args t.argc (some p)) = t.argv := by
    apply List.filterMap_congr
    intro k inside
    exact Function.update_of_ne (List.mem_range.mp inside).ne _ _
  change (List.range (t.argc + 1)).filterMap (Function.update t.args t.argc (some p)) = _
  rw [List.range_succ, List.filterMap_append, kept]
  simp

theorem tokenizeTrace_tokenize (room p : Nat) (t : Tokens) :
    (tokenizeTrace MAX_LINE room p t).map (fun t => Args.mk t.line t.argv) = tokenize room t.line p t.argv := by
  induction room generalizing p t with
  | zero => rfl
  | succ room ih =>
    rw [tokenizeTrace, tokenize]
    by_cases stop : t.line p = 0
    · rw [if_pos stop, if_pos stop]
      rfl
    · rw [if_neg stop, if_neg stop]
      cases skipBlanks (MAX_LINE - p) t.line p with
      | none => rfl
      | some start =>
        rw [Option.bind_eq_bind, Option.bind_eq_bind, Option.bind_some, Option.bind_some]
        by_cases ended : t.line start = 0
        · rw [if_pos ended, if_pos ended]
          rfl
        · rw [if_neg ended, if_neg ended, ← argv_push]
          change Option.map _ ((skipToken (MAX_LINE - start) t.line start).bind _) = _
          cases skipToken (MAX_LINE - start) t.line start with
          | none => rfl
          | some next =>
            rw [Option.bind_some, Option.bind_some]
            by_cases more : t.line next ≠ 0
            · rw [if_pos more]
              exact (congrArg _ (if_pos more)).trans (ih (next + 1) ((t.push start).cut next))
            · rw [if_neg more]
              exact (congrArg _ (if_neg more)).trans (ih next (t.push start))

/-- The null pointer behind the arguments is none of them. -/
theorem argv_terminate (t : Tokens) : t.terminate.argv = t.argv := by
  apply List.filterMap_congr
  intro k inside
  exact Function.update_of_ne (List.mem_range.mp inside).ne _ _

theorem split_shellExecute (line : Line) (args : Nat → Option Nat) :
    (split MAX_LINE line args).map (fun t => Shell.dispatch ⟨t.line, t.argv⟩) = shellExecute line := by
  have forgot := tokenizeTrace_tokenize (MAX_ARGS - 1) 0 { line := line, args := args, argc := 0, stores := [] }
  change _ = tokenize (MAX_ARGS - 1) line 0 [] at forgot
  rw [shellExecute, ← forgot, split, Option.map_map, Option.map_map]
  congr 1
  funext t
  exact congrArg (fun argv => Shell.dispatch ⟨t.line, argv⟩) (argv_terminate t)

/-! The words of a line. -/

variable {s token rest : List Byte} {b : Byte}

theorem words_cons_blank (gap : blank b) (s : List Byte) : words (b :: s) = words s := by
  have first := List.splitOnP_append_cons [] s gap
  rw [List.nil_append] at first
  rw [words, first, List.filter_append]
  rfl

theorem words_dropWhile (s : List Byte) : words (s.dropWhile blank) = words s := by
  induction s with
  | nil => rfl
  | cons c s ih =>
    rw [List.dropWhile_cons]
    by_cases gap : blank c
    · rw [if_pos gap, ih, words_cons_blank gap]
    · rw [if_neg gap]

theorem words_token (some : token ≠ []) (plain : ∀ c ∈ token, blank c = false) : words token = [token] := by
  rw [words, List.splitOnP_eq_singleton plain]
  simp [some]

theorem words_token_blank (some : token ≠ []) (plain : ∀ c ∈ token, blank c = false) (gap : blank b)
    (rest : List Byte) : words (token ++ b :: rest) = token :: words rest := by
  rw [words, List.splitOnP_append_cons token rest gap, List.filter_append]
  exact congrArg (· ++ words rest) (words_token some plain)

/-! One turn of the loop. -/

variable {size p start next : Nat} {t u : Tokens}

/-- A word has been cut off and its place stored. -/
structure Turn (t u : Tokens) (p : Nat) (s : List Byte) (start : Nat) (word : List Byte) (next : Nat)
    (more : List Byte) : Prop where
  args : u.args = Function.update t.args t.argc (some start)
  argc : u.argc = t.argc + 1
  after : p ≤ start
  token : CString u.line start word
  behind : start + word.length ≤ next
  rest : CString u.line next more
  fits : next + more.length ≤ p + s.length
  kept : ∀ k, k < start ∨ t.line k = 0 → u.line k = t.line k
  stores : ∃ places, u.stores = places ++ t.stores ∧ ∀ k ∈ places, k < p + s.length

/-- The last word ends with the line. -/
theorem Turn.last (string : CString t.line start token) (after : p ≤ start)
    (place : start + token.length = p + s.length) :
    Turn t (t.push start) p s start token (start + token.length) [] where
  args := rfl
  argc := rfl
  after := after
  token := string
  behind := le_rfl
  rest := string.ends
  fits := place.le
  kept := fun _ _ => rfl
  stores := ⟨[], rfl, fun _ member => absurd member List.not_mem_nil⟩

theorem Turn.middle (string : CString t.line start (token ++ b :: rest)) (after : p ≤ start)
    (place : start + (token ++ b :: rest).length = p + s.length) :
    Turn t ((t.push start).cut (start + token.length)) p s start token (start + token.length + 1) rest := by
  rw [List.length_append, List.length_cons] at place
  have gap := string.suffix
  have nonzero : t.line (start + token.length) ≠ 0 := gap.head_nonzero
  have cells : ∀ k, k ≠ start + token.length →
      ((t.push start).cut (start + token.length)).line k = t.line k :=
    fun k other => Function.update_of_ne other _ _
  apply Turn.mk rfl rfl after string.cut (Nat.le_succ _)
  · apply gap.2.2.frame
    intro k later _
    exact cells k (by omega)
  · omega
  · intro k untouched
    apply cells
    rintro rfl
    exact untouched.elim (fun before => by omega) nonzero
  · refine ⟨[start + token.length], rfl, fun k member => ?_⟩
    rw [List.mem_singleton.mp member]
    omega

theorem firstToken_plain (s : List Byte) : ∀ c ∈ firstToken s, blank c = false := fun c member => by
  simpa using List.all_eq_true.mp List.all_takeWhile c member

theorem firstToken_some (some : s.dropWhile blank ≠ []) : firstToken s ≠ [] := by
  obtain ⟨c, rest, remaining⟩ := List.exists_cons_of_ne_nil some
  have plain := List.head_dropWhile_not blank some
  simp only [remaining, List.head_cons] at plain
  rw [firstToken, remaining, List.takeWhile_cons, plain]
  exact List.cons_ne_nil c _

/-- A turn of the loop cuts off the first word, or ends it. -/
theorem tokenizeTrace_turn (room : Nat) (string : CString t.line p s) (fits : p + s.length < size) :
    words s = [] ∧ tokenizeTrace size (room + 1) p t = some t ∨
      ∃ u start word next more, words s = word :: words more ∧ Turn t u p s start word next more ∧
        tokenizeTrace size (room + 1) p t = tokenizeTrace size room next u := by
  by_cases stop : t.line p = 0
  · left
    rw [tokenizeTrace, if_pos stop, string.first_zero.mp stop]
    exact ⟨rfl, rfl⟩
  · obtain ⟨start, blanks, after, place, tokens⟩ :=
      skipBlanks_spec string (show s.length < size - p by omega)
    rw [tokenizeTrace, if_neg stop, blanks, Option.bind_eq_bind, Option.bind_some, ← words_dropWhile s]
    by_cases ended : t.line start = 0
    · left
      rw [if_pos ended, tokens.first_zero.mp ended]
      exact ⟨rfl, rfl⟩
    · right
      have some : firstToken s ≠ [] := firstToken_some (mt tokens.first_zero.mpr ended)
      have plain := firstToken_plain s
      have skipped : skipToken (size - start) t.line start = Option.some (start + (firstToken s).length) :=
        skipToken_spec tokens (show (s.dropWhile blank).length < size - start by omega)
      have parts : firstToken s ++ (s.dropWhile blank).dropWhile (!blank ·) = s.dropWhile blank :=
        List.takeWhile_append_dropWhile
      rw [if_neg ended]
      change ∃ u begins word next more, _ ∧ Turn t u p s begins word next more ∧
        (skipToken (size - start) t.line start).bind _ = _
      rw [skipped, Option.bind_some, ← parts]
      rw [← parts] at tokens place
      cases remaining : (s.dropWhile blank).dropWhile (!blank ·) with
      | nil =>
        rw [remaining, List.append_nil] at tokens place
        refine ⟨_, start, firstToken s, _, [], ?_, Turn.last tokens after place, ?_⟩
        · rw [List.append_nil]
          exact words_token some plain
        · exact if_neg (not_not.mpr tokens.ends)
      | cons b rest =>
        rw [remaining] at tokens place
        have gap : blank b := by
          have first := List.head_dropWhile_not (!blank ·) (by rw [remaining]; exact List.cons_ne_nil b rest)
          simpa [remaining] using first
        have goesOn : t.line (start + (firstToken s).length) ≠ 0 := tokens.suffix.head_nonzero
        exact ⟨_, start, firstToken s, _, rest, words_token_blank some plain gap rest,
          Turn.middle tokens after place, if_pos goesOn⟩

/-! All the turns. -/

/-- The array has been filled with these words from argc on. -/
structure Filled (t u : Tokens) (p : Nat) (s : List Byte) (found : List (List Byte)) : Prop where
  argc : u.argc = t.argc + found.length
  before : ∀ k < t.argc, u.args k = t.args k
  tokens : ∀ i (inside : i < found.length),
    ∃ q, u.args (t.argc + i) = some q ∧ CString u.line q (found.get ⟨i, inside⟩)
  kept : ∀ k, k < p ∨ t.line k = 0 → u.line k = t.line k
  stores : ∃ places, u.stores = places ++ t.stores ∧ ∀ k ∈ places, k < p + s.length

theorem Filled.nothing (t : Tokens) (p : Nat) (s : List Byte) : Filled t t p s [] where
  argc := rfl
  before := fun _ _ => rfl
  tokens := fun _ inside => absurd inside (Nat.not_lt_zero _)
  kept := fun _ _ => rfl
  stores := ⟨[], rfl, fun _ member => absurd member List.not_mem_nil⟩

/-- The later turns leave a word that has been cut off alone. -/
theorem Turn.token_kept {cut : Tokens} (turn : Turn t cut p s start token next rest) {found : List (List Byte)}
    (filled : Filled cut u next rest found) : CString u.line start token := by
  apply turn.token.frame
  intro k _ inside
  apply filled.kept
  by_cases last : k = start + token.length
  · right
    rw [last]
    exact turn.token.ends
  · left
    have behind := turn.behind
    omega

theorem Filled.turn {cut : Tokens} (turn : Turn t cut p s start token next rest) {found : List (List Byte)}
    (filled : Filled cut u next rest found) : Filled t u p s (token :: found) := by
  have after := turn.after
  have behind := turn.behind
  constructor
  · rw [filled.argc, turn.argc, List.length_cons]
    omega
  · intro k inside
    rw [filled.before k (by rw [turn.argc]; omega), turn.args, Function.update_of_ne inside.ne]
  · intro i inside
    cases i with
    | zero =>
      refine ⟨start, ?_, turn.token_kept filled⟩
      rw [Nat.add_zero, filled.before _ (by rw [turn.argc]; omega), turn.args, Function.update_self]
    | succ i =>
      obtain ⟨q, held, string⟩ := filled.tokens i (Nat.lt_of_succ_lt_succ inside)
      rw [turn.argc] at held
      exact ⟨q, by rw [← held]; congr 1; omega, string⟩
  · intro k untouched
    have same : cut.line k = t.line k := turn.kept k (untouched.imp_left (Nat.lt_of_lt_of_le · after))
    rw [← same]
    apply filled.kept
    rcases untouched with earlier | zero
    · left
      omega
    · right
      rw [same, zero]
  · obtain ⟨places, stored, inside⟩ := turn.stores
    obtain ⟨later, also, within⟩ := filled.stores
    refine ⟨later ++ places, ?_, fun k member => ?_⟩
    · rw [also, stored, List.append_assoc]
    · rcases List.mem_append.mp member with late | early
      · exact Nat.lt_of_lt_of_le (within k late) turn.fits
      · exact inside k early

/-- The loop finds the words, as many as there is room for. -/
theorem tokenizeTrace_filled (room : Nat) (string : CString t.line p s) (fits : p + s.length < size) :
    ∃ u, tokenizeTrace size room p t = some u ∧ Filled t u p s ((words s).take room) := by
  induction room generalizing t p s with
  | zero => exact ⟨t, rfl, Filled.nothing t p s⟩
  | succ room ih =>
    rcases tokenizeTrace_turn room string fits with ⟨none, ends⟩ | ⟨cut, start, word, next, more, found, turn, goesOn⟩
    · refine ⟨t, ends, ?_⟩
      rw [none]
      exact Filled.nothing t p s
    · obtain ⟨u, finished, filled⟩ := ih turn.rest (Nat.lt_of_le_of_lt turn.fits fits)
      refine ⟨u, goesOn.trans finished, ?_⟩
      rw [found, List.take_succ_cons]
      exact Filled.turn turn filled

/-! The array that the commands see. -/

theorem range_filterMap {f : Nat → Option Nat} {n : Nat} (some : ∀ k < n, f k ≠ none) :
    ((List.range n).filterMap f).map Option.some = (List.range n).map f := by
  induction n with
  | zero => rfl
  | succ n ih =>
    obtain ⟨p, last⟩ := Option.ne_none_iff_exists'.mp (some n (Nat.lt_succ_self n))
    rw [List.range_succ, List.filterMap_append, List.map_append, List.map_append,
      ih fun k inside => some k (Nat.lt_succ_of_lt inside)]
    simp [last]

/-- No argument before argc is null, and the one behind them is. -/
structure Terminated (t : Tokens) : Prop where
  some : ∀ k < t.argc, t.args k ≠ none
  ends : t.args t.argc = none

theorem Terminated.length (terminated : Terminated t) : t.argv.length = t.argc := by
  have lengths := congrArg List.length (range_filterMap terminated.some)
  rwa [List.length_map, List.length_map, List.length_range] at lengths

theorem Terminated.holds (terminated : Terminated t) : Holds t.args ⟨t.line, t.argv⟩ := by
  intro k inside
  change k ≤ t.argv.length at inside
  rw [terminated.length] at inside
  change _ = t.argv[k]?
  by_cases last : k = t.argc
  · rw [last, terminated.ends, List.getElem?_eq_none terminated.length.le]
  · have before : k < t.argc := by omega
    have same := congrArg (fun args => args[k]?) (range_filterMap terminated.some)
    simp only [List.getElem?_map, List.getElem?_range before, Option.map_some] at same
    have present : k < t.argv.length := by rwa [terminated.length]
    change (t.argv[k]?).map Option.some = _ at same
    rw [List.getElem?_eq_getElem present, Option.map_some, Option.some.injEq] at same
    rw [List.getElem?_eq_getElem present, same]

/-- The commands stay inside an array that is ended by a null pointer. -/
theorem Terminated.stays (terminated : Terminated t) (room : t.argc < MAX_ARGS) (some : 0 < t.argc) (func : Func) :
    Returns (run t.line func) t.args (· ≤ t.argc) (func.call ⟨t.line, t.argv⟩) := by
  have length := terminated.length
  have stays := run_stays terminated.holds (some.trans_eq length.symm) (length.trans_lt room) func
  change Returns _ _ (· ≤ t.argv.length) _ at stays
  rwa [length] at stays

/-- The rest of shell_execute stays inside the arguments too. -/
theorem dispatch_stays (terminated : Terminated t) (room : t.argc < MAX_ARGS) :
    Returns (dispatch t) t.args (· ≤ t.argc) (Shell.dispatch ⟨t.line, t.argv⟩).1 := by
  have length := terminated.length
  have holds := terminated.holds
  cases arguments : t.argv with
  | nil =>
    rw [arguments] at length
    have none : t.argc = 0 := length.symm
    rw [dispatch, if_pos none]
    exact returns_pure 0
  | cons first more =>
    have some : t.argc ≠ 0 := by
      rw [← length, arguments]
      exact Nat.succ_ne_zero _
    rw [dispatch, if_neg some, ← arguments]
    have named : (fun command => (Args.mk t.line t.argv).equals 0 command.name) =
        fun command : Entry => decide (strcmp t.line first (chars command.name) = 0) := by
      funext command
      simp only [Args.equals, Args.get, arguments, List.getElem?_cons_zero]
    have searched := search_stays holds (Nat.zero_le _) commands
    rw [named] at searched
    change Returns _ _ (· ≤ t.argv.length) _ at searched
    rw [length] at searched
    apply searched.bind
    rw [arguments]
    cases found : commands.find? fun command => decide (strcmp t.line first (chars command.name) = 0) with
    | some command =>
      have dispatched : (Shell.dispatch ⟨t.line, first :: more⟩).1 = command.func.call ⟨t.line, first :: more⟩ := by
        rw [Shell.dispatch]
        simp only [found]
      have stays := terminated.stays room (Nat.pos_of_ne_zero some) command.func
      rw [arguments] at stays
      rw [dispatched]
      exact stays
    | none =>
      have unknown : (Shell.dispatch ⟨t.line, first :: more⟩).1 = 1 := by
        rw [Shell.dispatch]
        simp only [found]
      rw [unknown]
      exact Returns.then_read (Nat.zero_le _) (returns_pure 1)

/-- Each argument is a word of the line. -/
def Named (t : Tokens) (s : List Byte) : Prop :=
  ∀ i < t.argc, ∃ p word, t.args i = some p ∧ (words s)[i]? = some word ∧ CString t.line p word

theorem Filled.argc_words {room : Nat} (filled : Filled t u p s ((words s).take room)) (empty : t.argc = 0) :
    u.argc = min room (words s).length := by
  rw [filled.argc, empty, List.length_take, Nat.zero_add]

theorem Filled.named {room : Nat} (filled : Filled t u p s ((words s).take room)) (empty : t.argc = 0) :
    Named u s := by
  intro i inside
  rw [filled.argc_words empty, ← List.length_take] at inside
  obtain ⟨q, held, string⟩ := filled.tokens i inside
  rw [empty, Nat.zero_add] at held
  refine ⟨q, _, held, ?_, string⟩
  rw [List.length_take] at inside
  rw [List.get_eq_getElem, List.getElem_take, List.getElem?_eq_getElem]

theorem Named.terminate (named : Named u s) : Named u.terminate s ∧ Terminated u.terminate := by
  have kept : ∀ k < u.argc, u.terminate.args k = u.args k := fun k inside => Function.update_of_ne inside.ne _ _
  constructor
  · intro i inside
    obtain ⟨q, word, held, found, string⟩ := named i inside
    exact ⟨q, word, (kept i inside).trans held, found, string⟩
  · constructor
    · intro k inside
      obtain ⟨q, _, held, _⟩ := named k inside
      rw [kept k inside, held]
      exact Option.some_ne_none q
    · exact Function.update_self _ _ _

/-- The arguments are the words of the line, ended by a null pointer; only bytes of the line are written,
and neither shell_execute nor any command reads behind the null pointer. -/
theorem split_tokens (size : Nat) (line : Line) (s : List Byte) (string : CString line 0 s)
    (fits : s.length < size) (args : Nat → Option Nat) :
    ∃ t, split size line args = some t ∧
      t.argc = min (MAX_ARGS - 1) (words s).length ∧
      (∀ i < t.argc, ∃ p word, t.args i = some p ∧ (words s)[i]? = some word ∧ CString t.line p word) ∧
      t.args t.argc = none ∧
      (∀ k ∈ t.stores, k < s.length) ∧
      Returns (dispatch t) t.args (· ≤ t.argc) (Shell.dispatch ⟨t.line, t.argv⟩).1 ∧
      (0 < t.argc → ∀ func, Returns (run t.line func) t.args (· ≤ t.argc) (func.call ⟨t.line, t.argv⟩)) := by
  obtain ⟨u, finished, filled⟩ := tokenizeTrace_filled (MAX_ARGS - 1)
    (show CString (Tokens.mk line args 0 []).line 0 s from string) (show 0 + s.length < size by omega)
  have argc := filled.argc_words rfl
  obtain ⟨named, terminated⟩ := (filled.named rfl).terminate
  have room : u.terminate.argc < MAX_ARGS := by
    change u.argc < MAX_ARGS
    rw [argc]
    exact Nat.lt_of_le_of_lt (Nat.min_le_left _ _) (by decide)
  have stores : ∀ k ∈ u.stores, k < s.length := by
    obtain ⟨places, stored, inside⟩ := filled.stores
    intro k member
    rw [stored, List.append_nil] at member
    exact (inside k member).trans_eq (Nat.zero_add _)
  have whole : split size line args = some u.terminate := by
    rw [split, finished]
    rfl
  exact ⟨u.terminate, whole, argc, named, terminated.ends, stores, dispatch_stays terminated room,
    terminated.stays room⟩

/-- Two words. -/
theorem split_tokens_two :
    ∃ t, split 4 (fun k => [0x61, 0x20, 0x62].getD k 0) (fun _ => none) = some t ∧
      t.argc = min (MAX_ARGS - 1) (words [0x61, 0x20, 0x62]).length ∧
      (∀ i < t.argc, ∃ p word, t.args i = some p ∧ (words [0x61, 0x20, 0x62])[i]? = some word ∧
        CString t.line p word) ∧
      t.args t.argc = none ∧
      (∀ k ∈ t.stores, k < 3) ∧
      Returns (dispatch t) t.args (· ≤ t.argc) (Shell.dispatch ⟨t.line, t.argv⟩).1 ∧
      (0 < t.argc → ∀ func, Returns (run t.line func) t.args (· ≤ t.argc) (func.call ⟨t.line, t.argv⟩)) :=
  split_tokens 4 (fun k => [0x61, 0x20, 0x62].getD k 0) [0x61, 0x20, 0x62]
    ⟨rfl, by decide, rfl, by decide, rfl, by decide, rfl⟩ (by decide) (fun _ => none)

end Vaelen.Kernel.ShellTokens
