import Vaelen.Base.Ring
import Vaelen.Base.Runs
import Vaelen.Kernel.ShellEditing
import Vaelen.Kernel.Strings

/-!
The history of the shell after a stream of lines. shell_getline writes it as a ring, while
cmd_history_cmd walks it from its first row, so that the list comes out turned once the ring has
wrapped; and a line that fills the buffer is never put into it.
-/

namespace Vaelen.Kernel.ShellHistory
open Vaelen.Base Shell ShellRuns ShellEditing
open Platform (memset memset_spec)

/-! The list that is printed. -/

/-- The loop of cmd_history_cmd from `i` on: the number and the text of each row. -/
def historyLoop (h : History) (i : Int) : List (Int × List Byte) :=
  if i < h.histCount ∧ i < MAX_HISTORY then
    (i + 1, text (h.history (i.tmod MAX_HISTORY))) :: historyLoop h (i + 1)
  else []
termination_by (MAX_HISTORY - i).toNat
decreasing_by omega

def cmdHistoryCmd (h : History) : List (Int × List Byte) := historyLoop h 0

/-! The lines of a stream. -/

/-- The history before the first line. -/
def boot : History := { history := fun _ _ => 0, histCount := 0, histIdx := 0 }

/-- One call of shell_getline with whatever the buffer holds, on the keys still to come. -/
def Reads (s : List Byte × History) (buf : Line) (t : List Byte × History) : Prop :=
  ∃ line, shellGetline s.1 buf MAX_LINE s.2 = some (t.1, line, t.2)

/-- The keys of these lines. -/
def stream (lines : List (List Byte)) : List Byte := lines.flatMap fun line => line ++ [0x0A]

/-- The last MAX_HISTORY of the lines. -/
def recent (lines : List (List Byte)) : List (List Byte) := lines.drop (lines.length - MAX_HISTORY.toNat)

/-- What is left of a line once all the full buffers have been taken off it. -/
def remainder (line : List Byte) : List Byte := line.drop ((MAX_LINE - 1) * (line.length / (MAX_LINE - 1)))

/-- The lines that reach the history. -/
def remembered (lines : List (List Byte)) : List (List Byte) := (lines.map remainder).filter (· ≠ [])

/-- The rows hold the last of these lines. -/
structure Remembers (h : History) (lines : List (List Byte)) : Prop where
  count : h.histCount = lines.length
  rows : Window 50 (fun k => text (h.history k)) lines (lines.length - 50)

variable {h after : History} {buf line : Line} {s more rest : List Byte} {lines : List (List Byte)}

/-! One call. -/

theorem boot_remembers : Remembers boot [] := ⟨rfl, Window.empty 50 _⟩

theorem Remembers.remember (holds : Remembers h lines) (string : CString line 0 s)
    (short : s.length < MAX_LINE - 1) : Remembers (remember line h) (lines ++ [s]) := by
  have row : h.histCount.tmod MAX_HISTORY = ((lines.length % 50 : Nat) : Int) := by
    rw [holds.count]
    rfl
  have copied : text (strncpy (h.history (h.histCount.tmod MAX_HISTORY)) line (MAX_LINE - 1)) = s :=
    cstring_eq (List.take_of_length_le (Nat.le_of_lt short) ▸ strncpy_string string (Or.inl short))
      (Nat.lt_of_lt_of_le short (by decide))
  have slots : (fun k : Nat => text ((Shell.remember line h).history k)) =
      Function.update (fun k : Nat => text (h.history k)) (lines.length % 50) s := by
    funext k
    change text (Function.update h.history (h.histCount.tmod MAX_HISTORY) _ k) = _
    by_cases same : k = lines.length % 50
    · rw [same, Function.update_self, row, Function.update_self, ← row, copied]
    · rw [Function.update_of_ne same, Function.update_of_ne (by rw [row]; exact_mod_cast same)]
  constructor
  · change h.histCount + 1 = _
    rw [holds.count, List.length_append]
    rfl
  · rw [slots]
    exact holds.rows.push (by decide) s

def dark : Vga.Console := ⟨0, fun _ => 0, 0, 0, []⟩

theorem printable_plain (shown : ∀ c ∈ s, printable c) : (0x0A : Byte) ∉ s := fun member =>
  absurd (shown 0x0A member) (by decide)

/-- What a call makes of these keys. -/
def Takes (keys : List Byte) (buf : Line) (h : History) (line : Line) (left : List Byte) (after : History) :
    Prop :=
  shellGetline keys buf MAX_LINE h = some (left, line, after)

theorem takes_of_trace {keys left : List Byte} {g : Getline}
    (taken : getlineTrace MAX_LINE keys (begin buf dark) h = some (left, g, after)) :
    Takes keys buf h g.buf left after := by
  have forgot := getline_shellGetline MAX_LINE keys buf dark h
  rw [getline, taken] at forgot
  exact forgot.symm

/-- A line with room in the buffer is taken up to its newline and remembered unless it is empty. -/
theorem takes_line (shown : ∀ c ∈ s, printable c) (short : s.length < MAX_LINE - 1) (buf : Line) (h : History)
    (more : List Byte) :
    ∃ line, Takes (s ++ 0x0A :: more) buf h line more (if s = [] then h else remember line h) ∧
      CString line 0 s := by
  have begun : Typed MAX_LINE (begin buf dark) [] := typed_begin (by decide) buf dark
  have plain := printable_plain shown
  rcases getlineTrace_spec (h := h) begun (Nat.zero_le _) (s ++ 0x0A :: more) with
    ⟨_, none, _⟩ | ⟨consumed, left, taken, ⟨rest, rfl, _, ends⟩ | ⟨whole, _⟩⟩
  · exact absurd (List.mem_append_right s List.mem_cons_self) none
  · have same : consumed = s := by
      have first : s <+: consumed ++ 0x0A :: rest := ⟨_, taken.split⟩
      have second : consumed <+: s ++ 0x0A :: more := ⟨_, taken.split.symm⟩
      exact (prefix_line second taken.plain).eq_of_length_le (prefix_line first plain).length_le
    subst same
    have tail : more = rest := by
      have split := List.append_cancel_left taken.split
      exact (List.cons.inj split).2
    subst tail
    have text : consumed.foldl typeKey [] = consumed := typed_printable shown
    have string := taken.typed.ends
    rw [text, ite_not] at ends
    rw [text] at string
    exact ⟨_, takes_of_trace ends, string⟩
  · have part : consumed <+: s := prefix_line ⟨left, taken.split.symm⟩ taken.plain
    have text : consumed.foldl typeKey [] = consumed :=
      typed_printable fun c member => shown c (part.subset member)
    rw [text] at whole
    have bound := part.length_le
    omega

/-- A line that fills the buffer is cut off there and not remembered. -/
theorem takes_full (shown : ∀ c ∈ s, printable c) (whole : s.length = MAX_LINE - 1) (buf : Line) (h : History)
    (more : List Byte) : ∃ line, Takes (s ++ more) buf h line more h := by
  have begun : Typed MAX_LINE (begin buf dark) [] := typed_begin (by decide) buf dark
  have text : ∀ part, part <+: s → part.foldl typeKey [] = part := fun part inside =>
    typed_printable fun c member => shown c (inside.subset member)
  have full : (s.foldl typeKey []).length = MAX_LINE - 1 := by
    rw [text s List.prefix_rfl]
    exact whole
  rcases getlineTrace_spec (h := h) begun (Nat.zero_le _) (s ++ more) with
    ⟨_, _, room⟩ | ⟨consumed, left, taken, ended⟩
  · exact absurd full (Nat.ne_of_lt (room s (List.prefix_append s more)))
  · have parts : s <+: consumed ∨ consumed <+: s :=
      List.prefix_or_prefix_of_prefix ⟨more, taken.split⟩ ⟨left, rfl⟩
    -- Before the end of the line there is room, and the line itself has filled the buffer.
    have same : s = consumed := by
      by_contra other
      rcases parts with longer | shorter
      · exact absurd full (Nat.ne_of_lt (taken.room s longer other))
      · have fewer : consumed.length < s.length :=
          lt_of_le_of_ne shorter.length_le fun equal => other (shorter.eq_of_length equal).symm
        rcases ended with ⟨rest, rfl, _, _⟩ | ⟨reached, _⟩
        · have first : consumed ++ [0x0A] <+: s := by
            apply List.prefix_of_prefix_length_le ⟨rest, ?_⟩ ⟨more, taken.split⟩
            · rw [List.length_append]
              exact fewer
            · rw [List.append_assoc]
              rfl
          exact printable_plain shown (first.subset (List.mem_append_right consumed List.mem_cons_self))
        · rw [text consumed shorter] at reached
          omega
    subst same
    rcases ended with ⟨_, _, short, _⟩ | ⟨_, ends⟩
    · exact absurd full (Nat.ne_of_lt short)
    · have tail : more = left := List.append_cancel_left taken.split
      rw [← tail] at ends
      exact ⟨_, takes_of_trace ends⟩

/-! All the calls on a stream. -/

theorem stream_cons (s : List Byte) (lines : List (List Byte)) :
    stream (s :: lines) = s ++ 0x0A :: stream lines := by
  rw [stream, List.flatMap_cons, List.append_assoc]
  rfl

theorem remainder_length (s : List Byte) : (remainder s).length = s.length % (MAX_LINE - 1) := by
  rw [remainder, List.length_drop, Nat.mod_eq_sub]

theorem remainder_short (short : s.length < MAX_LINE - 1) : remainder s = s := by
  rw [remainder, Nat.div_eq_of_lt short]
  rfl

theorem remainder_full (full : MAX_LINE - 1 ≤ s.length) : remainder (s.drop (MAX_LINE - 1)) = remainder s := by
  have parts : s.length / (MAX_LINE - 1) = (s.length - (MAX_LINE - 1)) / (MAX_LINE - 1) + 1 :=
    Nat.div_eq_sub_div (by decide) full
  rw [remainder, remainder, parts, List.length_drop, List.drop_drop]
  congr 1
  ring

theorem remembered_cons (s : List Byte) (lines : List (List Byte)) :
    remembered (s :: lines) = if remainder s = [] then remembered lines else remainder s :: remembered lines := by
  rw [remembered, List.map_cons, List.filter_cons]
  simp only [decide_eq_true_eq, ite_not]
  rfl

/-- A call cuts the next line off the stream, or as much of it as fills the buffer. -/
theorem reads_stream (shown : ∀ c ∈ s, printable c) (buf : Line) (h : History) (lines : List (List Byte)) :
    (s.length < MAX_LINE - 1 ∧ ∃ line, CString line 0 s ∧
        Takes (stream (s :: lines)) buf h line (stream lines) (if s = [] then h else remember line h)) ∨
      (MAX_LINE - 1 ≤ s.length ∧ ∃ line,
        Takes (stream (s :: lines)) buf h line (stream (s.drop (MAX_LINE - 1) :: lines)) h) := by
  rw [stream_cons]
  by_cases short : s.length < MAX_LINE - 1
  · obtain ⟨line, taken, string⟩ := takes_line shown short buf h (stream lines)
    exact Or.inl ⟨short, line, string, taken⟩
  · right
    have full : MAX_LINE - 1 ≤ s.length := Nat.not_lt.mp short
    have first : ∀ c ∈ s.take (MAX_LINE - 1), printable c := fun c member =>
      shown c (List.mem_of_mem_take member)
    have whole : (s.take (MAX_LINE - 1)).length = MAX_LINE - 1 := List.length_take_of_le full
    obtain ⟨line, taken⟩ := takes_full first whole buf h (s.drop (MAX_LINE - 1) ++ 0x0A :: stream lines)
    rw [← List.append_assoc, List.take_append_drop] at taken
    rw [stream_cons]
    exact ⟨full, line, taken⟩

theorem shown_drop (shown : ∀ line ∈ s :: lines, ∀ c ∈ line, printable c) (n : Nat) :
    ∀ line ∈ s.drop n :: lines, ∀ c ∈ line, printable c := by
  intro line member
  rcases List.mem_cons.mp member with rfl | later
  · exact fun c inside => shown s List.mem_cons_self c (List.mem_of_mem_drop inside)
  · exact shown line (List.mem_cons_of_mem s later)

/-- The history after a stream of lines. -/
theorem run_remembers {start stop : List Byte × History} {bufs : List Line} {before : List (List Byte)}
    (run : Runs Reads start bufs stop) (starts : start.1 = stream lines) (ends : stop.1 = [])
    (shown : ∀ line ∈ lines, ∀ c ∈ line, printable c) (holds : Remembers start.2 before) :
    Remembers stop.2 (before ++ remembered lines) := by
  induction run generalizing lines before with
  | done start =>
    cases lines with
    | nil => exact (List.append_nil before).symm ▸ holds
    | cons s lines =>
      rw [ends, stream_cons] at starts
      exact absurd starts (by simp)
  | @next start next stop buf bufs first rest ih =>
    obtain ⟨left, read⟩ := first
    rw [starts] at read
    cases lines with
    | nil =>
      rw [shellGetline_none buf start.2 rfl] at read
      exact absurd read (by simp)
    | cons s lines =>
      have later : ∀ line ∈ lines, ∀ c ∈ line, printable c := fun line member =>
        shown line (List.mem_cons_of_mem s member)
      rcases reads_stream (shown s List.mem_cons_self) buf start.2 lines with
        ⟨short, line, string, taken⟩ | ⟨full, line, taken⟩
      · obtain ⟨keys, _, same⟩ : next.1 = stream lines ∧ left = line ∧ next.2 = _ := by
          simpa using Option.some.inj (read.symm.trans taken)
        rw [remembered_cons, remainder_short short]
        by_cases empty : s = []
        · rw [if_pos empty] at same ⊢
          exact ih keys ends later (same ▸ holds)
        · rw [if_neg empty] at same ⊢
          have more := ih keys ends later (same ▸ holds.remember string short)
          rwa [List.append_assoc] at more
      · obtain ⟨keys, _, same⟩ : next.1 = stream (s.drop (MAX_LINE - 1) :: lines) ∧ left = line ∧ next.2 = _ := by
          simpa using Option.some.inj (read.symm.trans taken)
        have more := ih keys ends (shown_drop shown (MAX_LINE - 1)) (same ▸ holds)
        rwa [remembered_cons, remainder_full full, ← remembered_cons] at more

/-- The calls get through every stream of lines. -/
theorem run_exists (lines : List (List Byte)) (shown : ∀ line ∈ lines, ∀ c ∈ line, printable c) (h : History) :
    ∃ bufs after, Runs Reads (stream lines, h) bufs ([], after) := by
  induction size : (stream lines).length using Nat.strong_induction_on generalizing lines h with
  | h n ih =>
    cases lines with
    | nil => exact ⟨[], h, Runs.done _⟩
    | cons s lines =>
      have later : ∀ line ∈ lines, ∀ c ∈ line, printable c := fun line member =>
        shown line (List.mem_cons_of_mem s member)
      have longer : (stream (s :: lines)).length = s.length + ((stream lines).length + 1) := by
        rw [stream_cons, List.length_append, List.length_cons]
      rcases reads_stream (shown s List.mem_cons_self) (fun _ => 0) h lines with
        ⟨_, line, _, taken⟩ | ⟨full, line, taken⟩
      · obtain ⟨bufs, after, run⟩ := ih _ (by omega) lines later _ rfl
        have first : Reads (stream (s :: lines), h) (fun _ => 0) (stream lines, _) := ⟨line, taken⟩
        exact ⟨_, after, Runs.next first run⟩
      · have fewer : (stream (s.drop (MAX_LINE - 1) :: lines)).length < n := by
          have room : 511 ≤ s.length := full
          rw [stream_cons, List.length_append, List.length_cons, List.length_drop]
          change s.length - 511 + _ < n
          omega
        obtain ⟨bufs, after, run⟩ := ih _ fewer _ (shown_drop shown (MAX_LINE - 1)) h rfl
        have first : Reads (stream (s :: lines), h) (fun _ => 0) (_, h) := ⟨line, taken⟩
        exact ⟨_, after, Runs.next first run⟩

/-! What is printed. -/

def printed (h : History) : List (List Byte) := (cmdHistoryCmd h).map Prod.snd

theorem historyLoop_rows {n : Nat} (count : h.histCount = n) (k : Nat) :
    (historyLoop h k).map Prod.snd =
      (List.range' k (min n 50 - k)).map fun row : Nat => text (h.history row) := by
  induction left : min n 50 - k generalizing k with
  | zero =>
    have stops : ¬((k : Int) < h.histCount ∧ (k : Int) < MAX_HISTORY) := by
      rw [count]
      change ¬((k : Int) < n ∧ (k : Int) < 50)
      omega
    rw [historyLoop, if_neg stops]
    rfl
  | succ left ih =>
    have goesOn : (k : Int) < h.histCount ∧ (k : Int) < MAX_HISTORY := by
      rw [count]
      change (k : Int) < n ∧ (k : Int) < 50
      omega
    have row : (k : Int).tmod MAX_HISTORY = k := Int.tmod_eq_of_lt (Int.natCast_nonneg k) goesOn.2
    have rest := ih (k + 1) (by omega)
    rw [historyLoop, if_pos goesOn, List.range'_succ, List.map_cons, List.map_cons, row, ← rest]
    rfl

theorem Remembers.printed (holds : Remembers h lines) :
    printed h = (List.range (min lines.length 50)).map fun row : Nat => text (h.history row) := by
  have rows := historyLoop_rows holds.count 0
  rw [Nat.sub_zero, ← List.range_eq_range'] at rows
  exact rows

/-- As long as the ring has not wrapped, the list is in order. -/
theorem Remembers.printed_few (holds : Remembers h lines) (few : lines.length ≤ 50) :
    ShellHistory.printed h = lines := by
  rw [holds.printed, Nat.min_eq_left few]
  exact holds.rows.slots_eq (Nat.sub_eq_zero_of_le few) few

theorem Remembers.printed_rotate (holds : Remembers h lines) (full : 50 ≤ lines.length) :
    (ShellHistory.printed h).rotate lines.length = lines.drop (lines.length - 50) := by
  rw [holds.printed, Nat.min_eq_right full]
  exact holds.rows.slots_rotate full

theorem Remembers.printed_subset (holds : Remembers h lines) (member : s ∈ ShellHistory.printed h) :
    s ∈ lines := by
  rcases Nat.le_total lines.length 50 with few | full
  · rwa [holds.printed_few few] at member
  · have turned : s ∈ (ShellHistory.printed h).rotate lines.length := List.mem_rotate.mpr member
    rw [holds.printed_rotate full] at turned
    exact List.mem_of_mem_drop turned

theorem remembered_append (first second : List (List Byte)) :
    remembered (first ++ second) = remembered first ++ remembered second := by
  rw [remembered, List.map_append, List.filter_append]
  rfl

theorem remembered_short (some : ∀ line ∈ lines, line ≠ [])
    (short : ∀ line ∈ lines, line.length < MAX_LINE - 1) : remembered lines = lines := by
  have whole : lines.map remainder = lines :=
    List.map_congr_left (fun line member => remainder_short (short line member)) |>.trans (List.map_id lines)
  rw [remembered, whole]
  exact List.filter_eq_self.mpr fun line member => decide_eq_true (some line member)

theorem remembered_fits (member : s ∈ remembered lines) : s.length < MAX_LINE - 1 := by
  obtain ⟨line, _, rfl⟩ := List.mem_map.mp (List.mem_filter.mp member).1
  rw [remainder_length]
  exact Nat.mod_lt _ (by decide)

/-- The number of lines that are not cut into full buffers without a remainder. -/
def rememberedCount (lines : List (List Byte)) : Nat :=
  lines.countP fun line => line.length % (MAX_LINE - 1) ≠ 0

theorem remembered_length (lines : List (List Byte)) : (remembered lines).length = rememberedCount lines := by
  rw [remembered, ← List.countP_eq_length_filter, List.countP_map]
  apply List.countP_congr
  intro line _
  rw [← remainder_length]
  simp

theorem recent_length (many : 50 ≤ lines.length) : (recent lines).length = 50 := by
  rw [recent, List.length_drop]
  change lines.length - (lines.length - 50) = 50
  omega

theorem recent_split (lines : List (List Byte)) :
    lines.take (lines.length - 50) ++ recent lines = lines :=
  List.take_append_drop _ lines

/-- Where the latest lines are all remembered, they are the last in the ring. -/
theorem remembered_recent (many : 50 ≤ lines.length) (some : ∀ line ∈ lines, line ≠ [])
    (short : ∀ line ∈ recent lines, line.length < MAX_LINE - 1) :
    50 ≤ (remembered lines).length ∧ (remembered lines).drop ((remembered lines).length - 50) = recent lines := by
  have kept : remembered (recent lines) = recent lines :=
    remembered_short (fun line member => some line (List.mem_of_mem_drop member)) short
  have split : remembered lines = remembered (lines.take (lines.length - 50)) ++ recent lines := by
    rw [← kept, ← remembered_append, recent_split]
  have length := recent_length many
  rw [split, List.length_append, length, Nat.add_sub_cancel, List.drop_left]
  exact ⟨Nat.le_add_left _ _, rfl⟩

/-- The history lists the latest lines in order exactly when all of them are shorter than the buffer and the
ring has not wrapped, or has come round to where it began. -/
theorem history_latest_iff (lines : List (List Byte))
    (typed : ∀ line ∈ lines, line ≠ [] ∧ ∀ c ∈ line, printable c) :
    (∃ bufs h, Runs Reads (stream lines, boot) bufs ([], h)) ∧
      ∀ bufs h, Runs Reads (stream lines, boot) bufs ([], h) →
        (printed h = (recent lines).map (List.take (MAX_LINE - 1)) ↔
          (∀ line ∈ recent lines, line.length < MAX_LINE - 1) ∧
            (lines.length ≤ 50 ∨ (recent lines).rotate (rememberedCount lines) = recent lines)) := by
  have shown : ∀ line ∈ lines, ∀ c ∈ line, printable c := fun line member => (typed line member).2
  have some : ∀ line ∈ lines, line ≠ [] := fun line member => (typed line member).1
  refine ⟨run_exists lines shown boot, fun bufs h run => ?_⟩
  have holds : Remembers h (remembered lines) := run_remembers run rfl rfl shown boot_remembers
  have whole : (∀ line ∈ recent lines, line.length < MAX_LINE - 1) →
      (recent lines).map (List.take (MAX_LINE - 1)) = recent lines := fun short =>
    (List.map_congr_left fun line member => List.take_of_length_le (Nat.le_of_lt (short line member))).trans
      (List.map_id _)
  constructor
  · intro latest
    have short : ∀ line ∈ recent lines, line.length < MAX_LINE - 1 := by
      intro line member
      have cut : line.take (MAX_LINE - 1) ∈ printed h := by
        rw [latest]
        exact List.mem_map_of_mem member
      have fits := remembered_fits (holds.printed_subset cut)
      rw [List.length_take] at fits
      omega
    refine ⟨short, ?_⟩
    by_cases few : lines.length ≤ 50
    · exact Or.inl few
    · right
      obtain ⟨full, last⟩ := remembered_recent (by omega) some short
      have turned := holds.printed_rotate full
      rwa [last, latest, whole short, remembered_length] at turned
  · rintro ⟨short, order⟩
    rw [whole short]
    by_cases few : lines.length ≤ 50
    · have all : recent lines = lines := congrArg (List.drop · lines) (Nat.sub_eq_zero_of_le few)
      have kept : remembered lines = lines := remembered_short some (by rwa [← all])
      rw [all, holds.printed_few (by rwa [kept]), kept]
    · obtain ⟨full, last⟩ := remembered_recent (by omega) some short
      have turned := holds.printed_rotate full
      have order := order.resolve_left few
      rw [last, remembered_length] at turned
      exact List.rotate_injective _ (turned.trans order.symm)

/-- One line of one letter. -/
theorem history_latest_letter :
    ∃ bufs h, Runs Reads (stream [[0x61]], boot) bufs ([], h) ∧
      (printed h = (recent [[0x61]]).map (List.take (MAX_LINE - 1)) ↔
        (∀ line ∈ recent [[0x61]], line.length < MAX_LINE - 1) ∧
          ([[(0x61 : Byte)]].length ≤ 50 ∨ (recent [[0x61]]).rotate (rememberedCount [[0x61]]) = recent [[0x61]])) :=
  have spec := history_latest_iff [[0x61]] (by decide)
  have ⟨bufs, h, run⟩ := spec.1
  ⟨bufs, h, run, spec.2 bufs h run⟩

/-- One line more than the ring has rows, the last one different. -/
def letters : List (List Byte) := List.replicate 50 [0x61] ++ [[0x62]]

/-- The last line stands first in the list. -/
theorem history_not_latest :
    ¬∀ lines : List (List Byte), (∀ line ∈ lines, line ≠ [] ∧ ∀ c ∈ line, printable c) →
      ∀ bufs h, Runs Reads (stream lines, boot) bufs ([], h) →
        printed h = (recent lines).map (List.take (MAX_LINE - 1)) := by
  intro claim
  have typed : ∀ line ∈ letters, line ≠ [] ∧ ∀ c ∈ line, printable c := by decide +kernel
  obtain ⟨bufs, h, run⟩ := run_exists letters (fun line member => (typed line member).2) boot
  have whole : remembered letters = letters := by decide +kernel
  have holds : Remembers h (remembered letters) :=
    run_remembers run rfl rfl (fun line member => (typed line member).2) boot_remembers
  rw [whole] at holds
  have turned := holds.printed_rotate (by decide)
  rw [claim letters typed bufs h run] at turned
  exact absurd turned (by decide +kernel)

/-! The copy of a line by strncpy of string.c. -/

section memory
variable {dest src : Word} {n : Nat}

/-- The bytes of a line at an address. -/
def Holds (memory : Mem) (address : Word) (n : Nat) (line : Line) : Prop :=
  ∀ k < n, memory (address + BitVec.ofNat 32 k) = line k

theorem strncpyCopy_holds (fits : n ≤ 2 ^ 32) (apart : Apart dest n src n) {left i : Nat} {memory : Mem}
    {line copy : Line} (room : i + left ≤ n) (read : Holds memory src n line) (former : Holds memory dest n copy) :
    (Strings.strncpyCopy dest src i memory left).2 = (strncpyCopy line left i copy).2 ∧
      Holds (Strings.strncpyCopy dest src i memory left).1 dest n (strncpyCopy line left i copy).1 := by
  induction left generalizing i memory copy with
  | zero => exact ⟨rfl, former⟩
  | succ left ih =>
    have here : memory (src + BitVec.ofNat 32 i) = line i := read i (by omega)
    rw [Strings.strncpyCopy, strncpyCopy, here]
    by_cases stop : line i = 0
    · rw [if_pos stop, if_pos stop]
      exact ⟨rfl, former⟩
    · rw [if_neg stop, if_neg stop]
      apply ih (by omega)
      · intro k inside
        rw [← read k inside]
        apply store8_other
        intro same
        refine apart (dest + BitVec.ofNat 32 i) ?_ ?_
        · unfold Within
          bv_omega
        · rw [← same]
          unfold Within
          bv_omega
      · intro k inside
        by_cases same : k = i
        · rw [same, store8_same, Function.update_self]
        · rw [Function.update_of_ne same, ← former k inside]
          apply store8_other
          intro equal
          apply same
          bv_omega

/-- On memory strncpy leaves the line that the shell's own copy leaves. -/
theorem strncpy_holds (fits : n ≤ 2 ^ 32) (apart : Apart dest n src n) {memory : Mem} {line copy : Line}
    (read : Holds memory src n line) (former : Holds memory dest n copy) :
    Holds (Strings.strncpy memory dest src n) dest n (strncpy copy line n) := by
  obtain ⟨place, copied⟩ := strncpyCopy_holds fits apart (Nat.le_of_eq (Nat.zero_add n)) read former
  intro k inside
  have stored : strncpy copy line n k = if (strncpyCopy line n 0 copy).2 ≤ k ∧ k < n then 0
      else (strncpyCopy line n 0 copy).1 k := rfl
  have written : Strings.strncpy memory dest src n = memset (Strings.strncpyCopy dest src 0 memory n).1
      (dest + BitVec.ofNat 32 (strncpyCopy line n 0 copy).2) 0 (n - (strncpyCopy line n 0 copy).2) := by
    rw [← place]
    rfl
  rw [stored, written, memset_spec _ _ _ _ (by omega)]
  have last : (strncpyCopy line n 0 copy).2 ≤ n := by
    rw [← place]
    exact (Strings.strncpyCopy_outside memory (Nat.le_of_eq (Nat.zero_add n))).2
  have same : Within (dest + BitVec.ofNat 32 (strncpyCopy line n 0 copy).2) (n - (strncpyCopy line n 0 copy).2)
      (dest + BitVec.ofNat 32 k) ↔ (strncpyCopy line n 0 copy).2 ≤ k ∧ k < n := by
    generalize (strncpyCopy line n 0 copy).2 = i at last
    unfold Within
    bv_omega
  by_cases padded : (strncpyCopy line n 0 copy).2 ≤ k ∧ k < n
  · rw [if_pos (same.mpr padded), if_pos padded]
  · rw [if_neg (mt same.mp padded), if_neg padded]
    exact copied k inside

end memory

end Vaelen.Kernel.ShellHistory
