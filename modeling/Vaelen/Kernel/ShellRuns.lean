import Vaelen.Base.CString
import Vaelen.Kernel.Shell

/-!
What the shell does with a stream of keys. Line editing, splitting and the table are first
stated over lists of characters, and every run is shown to follow them.
-/

namespace Vaelen.Kernel.ShellRuns
open Vaelen.Base Shell

/-! The line in lists. -/

def firstToken (line : List Byte) : List Byte := (line.dropWhile blank).takeWhile (!blank ·)

def lookup (token : List Byte) : Option Entry := commands.find? fun command => chars command.name = token

/-- The keys up to the end of a line, after the ones that are `typed`. -/
def edit (keys typed : List Byte) : Option (List Byte × List Byte) :=
  if typed.length < MAX_LINE - 1 then
    match keys with
    | [] => none
    | c :: keys =>
        if c = 0x0A then some (typed, keys)
        else if c = 0x08 then edit keys typed.dropLast
        else if printable c then edit keys (typed ++ [c])
        else edit keys typed
  else some (typed, keys)
termination_by structural keys

/-! Reading a line is editing it. -/

theorem blank_zero : blank 0 = false := rfl

theorem typed_append (buf : Line) (i : Nat) (c : Byte) :
    (List.range (i + 1)).map (Function.update buf i c) = (List.range i).map buf ++ [c] := by
  rw [List.range_succ, List.map_append, List.map_singleton, Function.update_self]
  congr 1
  apply List.map_congr_left
  intro k inside
  exact Function.update_of_ne (List.mem_range.mp inside).ne _ _

theorem typed_dropLast (buf : Line) (i : Nat) :
    ((List.range i).map buf).dropLast = (List.range (if 0 < i then i - 1 else i)).map buf := by
  cases i with
  | zero => rfl
  | succ i => simp [List.range_succ]

/-- What getline leaves in the buffer when it has stopped with `i` characters. -/
theorem typed_ends (buf : Line) (i : Nat) (nonzero : ∀ k < i, buf k ≠ 0) :
    CString (Function.update buf i 0) 0 ((List.range i).map buf) := by
  have kept : ∀ k < i, Function.update buf i 0 k = buf k :=
    fun k inside => Function.update_of_ne inside.ne _ _
  have string : CString (Function.update buf i 0) 0
      ((List.range i).map fun k => Function.update buf i 0 (0 + k)) := by
    apply CString.of_range
    · intro k inside
      rw [Nat.zero_add, kept k inside]
      exact nonzero k inside
    · rw [Nat.zero_add, Function.update_self]
  have same : (List.range i).map (fun k => Function.update buf i 0 (0 + k)) = (List.range i).map buf := by
    apply List.map_congr_left
    intro k inside
    rw [Nat.zero_add, kept k (List.mem_range.mp inside)]
  rwa [same] at string

/-- The line that was read is the one that was edited. -/
def Edited (taken : Option (List Byte × Line × History)) (edited : Option (List Byte × List Byte)) :
    Prop :=
  match taken with
  | none => edited = none
  | some (rest, line, _) => ∃ s, edited = some (s, rest) ∧ CString line 0 s ∧ s.length < MAX_LINE

theorem edited_ends (rest : List Byte) (i : Nat) (buf : Line) (after : History)
    (nonzero : ∀ k < i, buf k ≠ 0) (inside : i ≤ MAX_LINE - 1) :
    Edited (some (rest, Function.update buf i 0, after)) (some ((List.range i).map buf, rest)) := by
  refine ⟨_, rfl, typed_ends buf i nonzero, ?_⟩
  rw [List.length_map, List.length_range]
  exact Nat.lt_of_le_of_lt inside (by decide)

theorem getlineLoop_edit (keys : List Byte) (i : Nat) (buf : Line) (h : History)
    (nonzero : ∀ k < i, buf k ≠ 0) (inside : i ≤ MAX_LINE - 1) :
    Edited (getlineLoop MAX_LINE keys i buf h) (edit keys ((List.range i).map buf)) := by
  induction keys generalizing i buf with
  | nil =>
    rw [getlineLoop, edit, List.length_map, List.length_range]
    by_cases room : i < MAX_LINE - 1
    · rw [if_pos room, if_pos room]
      rfl
    · rw [if_neg room, if_neg room]
      exact edited_ends _ i buf h nonzero inside
  | cons c keys ih =>
    rw [getlineLoop, edit, List.length_map, List.length_range]
    by_cases room : i < MAX_LINE - 1
    · rw [if_pos room, if_pos room]
      by_cases newline : c = 0x0A
      · rw [if_pos newline, if_pos newline]
        exact edited_ends _ i buf _ nonzero inside
      · rw [if_neg newline, if_neg newline]
        by_cases backspace : c = 0x08
        · rw [if_pos backspace, if_pos backspace, typed_dropLast]
          apply ih
          · intro k before
            exact nonzero k (by split_ifs at before <;> omega)
          · split_ifs <;> omega
        · rw [if_neg backspace, if_neg backspace]
          by_cases shown : printable c
          · rw [if_pos shown, if_pos shown, ← typed_append]
            apply ih
            · intro k before
              by_cases last : k = i
              · rw [last, Function.update_self]
                rintro rfl
                exact absurd shown (by decide)
              · rw [Function.update_of_ne last]
                exact nonzero k (by omega)
            · exact room
          · rw [if_neg shown, if_neg shown]
            exact ih i buf nonzero inside
    · rw [if_neg room, if_neg room]
      exact edited_ends _ i buf h nonzero inside

theorem shellGetline_edit (keys : List Byte) (line : Line) (h : History) :
    Edited (shellGetline keys line MAX_LINE h) (edit keys []) :=
  getlineLoop_edit keys 0 _ h (by simp) (Nat.zero_le _)

theorem shellGetline_none {keys : List Byte} (line : Line) (h : History) (waits : edit keys [] = none) :
    shellGetline keys line MAX_LINE h = none := by
  have taken := shellGetline_edit keys line h
  rw [waits] at taken
  cases found : shellGetline keys line MAX_LINE h with
  | none => rfl
  | some result =>
    rw [found] at taken
    exact absurd taken (by simp [Edited])

theorem shellGetline_some {keys rest s : List Byte} (line : Line) (h : History)
    (edited : edit keys [] = some (s, rest)) :
    ∃ after later, shellGetline keys line MAX_LINE h = some (rest, after, later) ∧
      CString after 0 s ∧ s.length < MAX_LINE := by
  have taken := shellGetline_edit keys line h
  rw [edited] at taken
  cases found : shellGetline keys line MAX_LINE h with
  | none =>
    rw [found] at taken
    exact absurd taken (by simp [Edited])
  | some result =>
    rw [found] at taken
    obtain ⟨typed, split, string, fits⟩ := taken
    rw [Option.some.injEq, Prod.mk.injEq] at split
    rw [← split.1] at string fits
    exact ⟨result.2.1, result.2.2, by rw [split.2], string, fits⟩

/-! Splitting the line finds its first token. -/

theorem skipBlanks_scan (left : Nat) (line : Line) (p : Nat) : skipBlanks left line p = scan blank left line p := by
  induction left generalizing p with
  | zero => rfl
  | succ left ih => rw [skipBlanks, scan, ih]

theorem skipBlanks_spec {line : Line} {p left : Nat} {s : List Byte} (string : CString line p s)
    (room : s.length < left) :
    ∃ q, skipBlanks left line p = some q ∧ p ≤ q ∧ q + (s.dropWhile blank).length = p + s.length ∧
      CString line q (s.dropWhile blank) := by
  have parts : (s.takeWhile blank).length + (s.dropWhile blank).length = s.length := by
    rw [← List.length_append, List.takeWhile_append_dropWhile]
  refine ⟨p + (s.takeWhile blank).length, ?_, Nat.le_add_right _ _, by omega, string.dropWhile blank⟩
  rw [skipBlanks_scan]
  exact string.scan room blank_zero

theorem skipToken_spec {line : Line} {p left : Nat} {s : List Byte} (string : CString line p s)
    (room : s.length < left) :
    skipToken left line p = some (p + (s.takeWhile (!blank ·)).length) := by
  induction s generalizing p left with
  | nil =>
    cases left with
    | zero => omega
    | succ left =>
      have ends : line p = 0 := string
      rw [skipToken, ends, if_neg (by simp)]
      rfl
  | cons c s ih =>
    cases left with
    | zero => omega
    | succ left =>
      rw [List.length_cons] at room
      rw [skipToken, string.1, List.takeWhile_cons]
      by_cases ended : blank c
      · simp [ended]
      · rw [if_pos ⟨string.2.1, ended⟩, ih string.2.2 (by omega)]
        simp only [ended, Bool.not_false, if_true, List.length_cons]
        congr 1
        omega

/-- The line once the token at `start` has been cut off: the rest begins at `next`, and no zero
of the line has been overwritten. -/
structure Cut (line cut : Line) (start : Nat) (first : List Byte) (next : Nat) (more : List Byte) :
    Prop where
  kept : ∀ k, k < start ∨ line k = 0 → cut k = line k
  token : CString cut start first
  behind : start + first.length ≤ next
  rest : CString cut next more
  fits : next + more.length < MAX_LINE

/-- The last token needs no zero of its own. -/
theorem Cut.last {line : Line} {start : Nat} {token : List Byte} (string : CString line start token)
    (fits : start + token.length < MAX_LINE) :
    Cut line line start token (start + token.length) [] where
  kept := fun _ _ => rfl
  token := string
  behind := le_rfl
  rest := string.ends
  fits := fits

theorem Cut.middle {line : Line} {start : Nat} {token rest : List Byte} {b : Byte}
    (string : CString line start (token ++ b :: rest))
    (fits : start + (token ++ b :: rest).length < MAX_LINE) :
    Cut line (Function.update line (start + token.length) 0) start token (start + token.length + 1) rest := by
  have after := string.suffix
  have nonzero : line (start + token.length) ≠ 0 := after.head_nonzero
  rw [List.length_append, List.length_cons] at fits
  apply Cut.mk _ string.cut (Nat.le_succ _)
  · apply after.2.2.frame
    intro k later _
    exact Function.update_of_ne (by omega) _ _
  · omega
  · intro k untouched
    by_cases same : k = start + token.length
    · rcases untouched with before | zero
      · omega
      · rw [same] at zero
        exact absurd zero nonzero
    · exact Function.update_of_ne same _ _

/-- One turn ends the loop at the end of the line, or cuts a token off. -/
theorem tokenize_turn {p : Nat} {line : Line} {s : List Byte} (room : Nat) (argv : List Nat)
    (string : CString line p s) (fits : p + s.length < MAX_LINE) :
    tokenize (room + 1) line p argv = some ⟨line, argv⟩ ∧ firstToken s = [] ∨
      ∃ cut start next rest, tokenize (room + 1) line p argv = tokenize room cut next (argv ++ [start]) ∧
        p ≤ start ∧ Cut line cut start (firstToken s) next rest := by
  by_cases stop : line p = 0
  · left
    rw [tokenize, if_pos stop, string.first_zero.mp stop]
    exact ⟨rfl, rfl⟩
  · obtain ⟨start, blanks, after, place, tokens⟩ :=
      skipBlanks_spec string (show s.length < MAX_LINE - p by omega)
    rw [tokenize, if_neg stop, blanks, Option.bind_eq_bind, Option.bind_some]
    by_cases ended : line start = 0
    · left
      rw [if_pos ended, firstToken, tokens.first_zero.mp ended]
      exact ⟨rfl, rfl⟩
    · right
      have token : skipToken (MAX_LINE - start) line start = some (start + (firstToken s).length) :=
        skipToken_spec tokens (show (s.dropWhile blank).length < MAX_LINE - start by omega)
      have parts : firstToken s ++ (s.dropWhile blank).dropWhile (!blank ·) = s.dropWhile blank :=
        List.takeWhile_append_dropWhile
      rw [← parts] at tokens place
      rw [if_neg ended, token, Option.bind_some]
      cases remaining : (s.dropWhile blank).dropWhile (!blank ·) with
      | nil =>
        rw [remaining, List.append_nil] at tokens place
        exact ⟨line, start, _, [], if_neg (not_not.mpr tokens.ends), after, Cut.last tokens (by omega)⟩
      | cons b rest =>
        rw [remaining] at tokens place
        have goesOn : line (start + (firstToken s).length) ≠ 0 := tokens.suffix.head_nonzero
        exact ⟨_, start, _, rest, if_pos goesOn, after, Cut.middle tokens (by omega)⟩

/-- Splitting goes on behind `p`, stays inside the array and keeps its zeros. -/
theorem tokenize_frame {room p : Nat} {line : Line} {argv : List Nat} {s : List Byte}
    (string : CString line p s) (fits : p + s.length < MAX_LINE) :
    ∃ args more, tokenize room line p argv = some args ∧ args.argv = argv ++ more ∧
      ∀ k, k < p ∨ line k = 0 → args.line k = line k := by
  induction room generalizing line p argv s with
  | zero => exact ⟨⟨line, argv⟩, [], rfl, (List.append_nil _).symm, fun _ _ => rfl⟩
  | succ room ih =>
    rcases tokenize_turn room argv string fits with
      ⟨stopped, _⟩ | ⟨cut, start, next, rest, turned, after, turn⟩
    · exact ⟨⟨line, argv⟩, [], stopped, (List.append_nil _).symm, fun _ _ => rfl⟩
    · obtain ⟨args, more, finished, arguments, same⟩ := ih turn.rest turn.fits
      refine ⟨args, start :: more, turned.trans finished, ?_, ?_⟩
      · rw [arguments, List.append_assoc]
        rfl
      · intro k untouched
        have before : cut k = line k := turn.kept k (untouched.imp_left (Nat.lt_of_lt_of_le · after))
        rw [← before]
        apply same
        rcases untouched with earlier | zero
        · left
          have behind := turn.behind
          omega
        · right
          rw [before, zero]

/-- The first argument is the first token, and there is none on a blank line. -/
theorem tokenize_first {line : Line} {s : List Byte} (room : Nat)
    (string : CString line 0 s) (fits : s.length < MAX_LINE) :
    ∃ args, tokenize (room + 1) line 0 [] = some args ∧
      (args.argv = [] ∧ firstToken s = [] ∨
        ∃ first more, args.argv = first :: more ∧ CString args.line first (firstToken s)) := by
  rcases tokenize_turn room [] string (by omega) with
    ⟨stopped, empty⟩ | ⟨cut, start, next, rest, turned, _, turn⟩
  · exact ⟨⟨line, []⟩, stopped, Or.inl ⟨rfl, empty⟩⟩
  · obtain ⟨args, more, finished, arguments, same⟩ := tokenize_frame turn.rest turn.fits
    refine ⟨args, turned.trans finished, Or.inr ⟨start, more, arguments, ?_⟩⟩
    apply turn.token.frame
    intro k _ before
    apply same
    by_cases last : k = start + (firstToken s).length
    · right
      rw [last]
      exact turn.token.ends
    · left
      have behind := turn.behind
      omega

/-! The table. -/

theorem strcmp_eq_zero {line : Line} {p : Nat} {s : List Byte} (string : CString line p s)
    (name : List Byte) (nonzero : 0 ∉ name) : strcmp line p name = 0 ↔ s = name := by
  induction name generalizing p s with
  | nil =>
    rw [← string.first_zero, strcmp]
    constructor
    · intro zero
      apply BitVec.eq_of_toNat_eq
      simpa using zero
    · intro zero
      rw [zero]
      rfl
  | cons c name ih =>
    rw [List.mem_cons, not_or] at nonzero
    cases s with
    | nil =>
      have ends : line p = 0 := string
      have longer : c.toNat ≠ 0 := fun zero => nonzero.1 (BitVec.eq_of_toNat_eq zero.symm)
      simp [strcmp, ends, longer]
    | cons first s =>
      rw [strcmp, string.1, List.cons.injEq]
      by_cases same : first = c
      · rw [if_pos ⟨string.2.1, same⟩, ih string.2.2 nonzero.2]
        simp [same]
      · have differ : first.toNat ≠ c.toNat := fun equal => same (BitVec.eq_of_toNat_eq equal)
        rw [if_neg (by simp [same])]
        simp only [same, false_and, iff_false]
        omega

theorem names_nonzero :
    ∀ name ∈ commands.map fun command => chars command.name, (0 : Byte) ∉ name := by
  simp only [commands, List.map_cons, List.map_nil, chars, String.reduceToList]
  decide +kernel

theorem commands_distinct : (commands.map fun command => chars command.name).Nodup := by
  simp only [commands, List.map_cons, List.map_nil, chars, String.reduceToList]
  decide +kernel

theorem lookup_nil : lookup [] = none := by
  decide +kernel

theorem lookup_some {token : List Byte} {command : Entry} (found : lookup token = some command) :
    command ∈ commands ∧ chars command.name = token := by
  unfold lookup at found
  exact ⟨List.mem_of_find?_eq_some found, by simpa using List.find?_some found⟩

/-- At most one command has the token for its name. -/
theorem lookup_iff (token : List Byte) (command : Entry) :
    lookup token = some command ↔ command ∈ commands ∧ chars command.name = token := by
  constructor
  · exact lookup_some
  · rintro ⟨listed, rfl⟩
    cases found : lookup (chars command.name) with
    | none =>
      have missing := List.find?_eq_none.mp found command listed
      simp at missing
    | some other =>
      have first := lookup_some found
      rw [List.inj_on_of_nodup_map commands_distinct first.1 listed first.2]

def exitEntry : Entry := ⟨"exit", .cmdExit⟩

theorem lookup_exit : lookup (chars "exit") = some exitEntry :=
  (lookup_iff _ _).mpr ⟨by simp [commands, exitEntry], rfl⟩

theorem only_exit : commands.filter (·.func = .cmdExit) = [exitEntry] := rfl

theorem exit_iff {token : List Byte} {command : Entry} (found : lookup token = some command) :
    command.func = .cmdExit ↔ token = chars "exit" := by
  have listed := lookup_some found
  constructor
  · intro exits
    have among : command ∈ commands.filter (·.func = .cmdExit) :=
      List.mem_filter.mpr ⟨listed.1, decide_eq_true exits⟩
    rw [only_exit, List.mem_singleton] at among
    rw [← listed.2, among]
    rfl
  · rintro rfl
    rw [lookup_exit, Option.some.injEq] at found
    rw [← found]
    rfl

/-- cmd_exit alone returns a negative value. -/
theorem call_negative (args : Args) (func : Func) : func.call args < 0 ↔ func = .cmdExit := by
  have zero : ¬(0 : Int) < 0 := lt_irrefl 0
  have one : ¬(1 : Int) < 0 := by decide
  cases func
  case cmdExit => simp [Func.call]
  all_goals
    simp only [Func.call, missingOperand, missingOperands, reduceCtorEq, iff_false]
    try split_ifs
    all_goals assumption

/-! Running a line. -/

theorem find_command {line : Line} {p : Nat} {token : List Byte} (string : CString line p token) :
    (commands.find? fun command => strcmp line p (chars command.name) = 0) = lookup token := by
  have agree : ∀ command ∈ commands,
      decide (strcmp line p (chars command.name) = 0) = decide (chars command.name = token) := by
    intro command listed
    have nonzero := names_nonzero _ (List.mem_map_of_mem listed)
    rw [decide_eq_decide, strcmp_eq_zero string _ nonzero]
    exact eq_comm
  exact List.find?_congr agree

/-- A line goes to the command its first token names, and only exit returns a negative value. -/
theorem shellExecute_spec {line : Line} {s : List Byte} (string : CString line 0 s)
    (fits : s.length < MAX_LINE) :
    ∃ value after, shellExecute line = some (value, lookup (firstToken s), after) ∧
      (value < 0 ↔ firstToken s = chars "exit") := by
  obtain ⟨args, split, first⟩ := tokenize_first (MAX_ARGS - 2) string fits
  have executed : shellExecute line = some (dispatch args) := by
    rw [shellExecute, show MAX_ARGS - 1 = MAX_ARGS - 2 + 1 from rfl, split, Option.map_some]
  rw [executed, dispatch]
  rcases first with ⟨empty, blank⟩ | ⟨first, more, arguments, token⟩
  · rw [empty, blank, lookup_nil]
    exact ⟨0, args.line, rfl, by decide⟩
  · rw [arguments]
    simp only [find_command token]
    cases found : lookup (firstToken s) with
    | none =>
      refine ⟨1, args.line, rfl, ?_⟩
      have other : firstToken s ≠ chars "exit" := by
        intro exits
        rw [exits, lookup_exit] at found
        exact absurd found (by simp)
      simp [other]
    | some command =>
      refine ⟨command.func.call args, args.line, rfl, ?_⟩
      rw [call_negative, exit_iff found]

/-! Running the shell. -/

theorem edit_shorter {keys rest s : List Byte} (edited : edit keys [] = some (s, rest)) :
    rest.length < keys.length := by
  obtain ⟨_, _, taken, _⟩ := shellGetline_some (fun _ => 0) ⟨fun _ _ => 0, 0, 0⟩ edited
  exact getlineLoop_shorter (by decide) taken

/-- A line that is not empty and the keys after it. -/
structure Typed where
  line : List Byte
  rest : List Byte

def lines (keys : List Byte) : List Typed :=
  match _edited : edit keys [] with
  | none => []
  | some (s, rest) => if s = [] then lines rest else ⟨s, rest⟩ :: lines rest
termination_by keys.length
decreasing_by
  · exact edit_shorter _edited
  · exact edit_shorter _edited

def Typed.exits (typed : Typed) : Bool := firstToken typed.line = chars "exit"

/-- The lines up to the first that exits. -/
def served : List Typed → List Typed
  | [] => []
  | typed :: later => if typed.exits then [typed] else typed :: served later

def ending (typed : List Typed) : Ending :=
  match typed.find? Typed.exits with
  | none => .waiting
  | some typed => .returned typed.rest

def dispatched (typed : Typed) : Dispatch := ⟨typed.line, lookup (firstToken typed.line)⟩

theorem shellRun_eq (keys : List Byte) (line : Line) (h : History) :
    shellRun keys line h = ⟨(served (lines keys)).map dispatched, ending (lines keys)⟩ := by
  induction keys using lines.induct generalizing line h with
  | case1 keys waits =>
    rw [shellRun, lines, waits, shellGetline_none line h waits]
    rfl
  | case2 keys rest edited ih =>
    obtain ⟨after, later, taken, string, _⟩ := shellGetline_some line h edited
    have empty : after 0 = 0 := string
    rw [shellRun, lines, edited, taken]
    simp only [empty, if_true]
    exact ih after later
  | case3 keys s rest edited typed ih =>
    obtain ⟨after, later, taken, string, fits⟩ := shellGetline_some line h edited
    have nonempty : after 0 ≠ 0 := fun zero => typed (string.first_zero.mp zero)
    obtain ⟨value, left, executed, exits⟩ := shellExecute_spec string fits
    have logged : text after = s := cstring_eq string fits
    rw [shellRun, lines, edited, taken]
    simp only [nonempty, typed, if_false, executed, logged]
    by_cases last : firstToken s = chars "exit"
    · have ends : (Typed.mk s rest).exits = true := decide_eq_true last
      rw [if_pos (exits.mpr last), served, if_pos ends, ending, List.find?_cons_of_pos ends]
      rfl
    · have goesOn : ¬(Typed.mk s rest).exits = true := mt of_decide_eq_true last
      rw [if_neg (mt exits.mp last), served, if_neg goesOn, ending, List.find?_cons_of_neg goesOn, ih]
      rfl

/-- Every line up to the first exit goes to the one command its first token names, and the
shell returns after that line or waits for more keys. -/
theorem shellRun_dispatches (keys : List Byte) (line : Line) (h : History) :
    (shellRun keys line h).log.map (·.line) = (served (lines keys)).map (·.line) ∧
      (∀ logged ∈ (shellRun keys line h).log, ∀ command,
        logged.command = some command ↔
          command ∈ commands ∧ chars command.name = firstToken logged.line) ∧
      (shellRun keys line h).ending = ending (lines keys) := by
  rw [shellRun_eq]
  refine ⟨?_, ?_, rfl⟩
  · rw [List.map_map]
    rfl
  · intro logged member command
    rw [List.mem_map] at member
    obtain ⟨typed, _, rfl⟩ := member
    exact lookup_iff _ _

end Vaelen.Kernel.ShellRuns
