import Vaelen.Kernel.ShellRuns
import Vaelen.Kernel.VgaTrace

/-!
shell_getline with its stores to the buffer and its echo on the console. The line is the left fold of
the keys, and the call ends at a newline or as soon as the buffer is full.
-/

namespace Vaelen.Kernel.ShellEditing
open Vaelen.Base Shell Vga ShellRuns

/-- The fill level, the buffer and the console; `stores` are the indices of buf that were written, the
last one first. -/
structure Getline where
  i : Nat
  buf : Line
  console : Console
  stores : List Nat

namespace Getline

def store (g : Getline) (k : Nat) (c : Byte) : Getline :=
  { g with buf := Function.update g.buf k c, stores := k :: g.stores }

def echo (g : Getline) (c : Byte) : Getline := { g with console := vgaPutchar c g.console }

/-- The loop body on a key that does not end the line. -/
def key (g : Getline) (c : Byte) : Getline :=
  if c = 0x08 then
    if 0 < g.i then { g with i := g.i - 1 }.echo 0x08 else g
  else if printable c then { g.store g.i c with i := g.i + 1 }.echo c
  else g

/-- The loop body on a newline. -/
def enter (g : Getline) : Getline := (g.store g.i 0).echo 0x0A

/-- The statement behind the loop. -/
def full (g : Getline) : Getline := g.store g.i 0

end Getline

/-- The loop of shell_getline; none when the keys run out and keyboard_getchar waits. -/
def getlineTrace (maxlen : Nat) (keys : List Byte) (g : Getline) (h : History) :
    Option (List Byte × Getline × History) :=
  if g.i < maxlen - 1 then
    match keys with
    | [] => none
    | c :: keys =>
        if c = 0x0A then
          some (keys, g.enter, if 0 < g.i then remember (g.store g.i 0).buf h else h)
        else getlineTrace maxlen keys (g.key c) h
  else some (keys, g.full, h)
termination_by structural keys

def begin (buf : Line) (console : Console) : Getline :=
  Getline.store { i := 0, buf := buf, console := console, stores := [] } 0 0

def getline (maxlen : Nat) (keys : List Byte) (buf : Line) (console : Console) (h : History) :
    Option (List Byte × Getline × History) :=
  getlineTrace maxlen keys (begin buf console) h

/-- Without the stores and the echo it is the call of the shell. -/
theorem getlineTrace_getlineLoop (maxlen : Nat) (keys : List Byte) (g : Getline) (h : History) :
    (getlineTrace maxlen keys g h).map (fun taken => (taken.1, taken.2.1.buf, taken.2.2)) =
      getlineLoop maxlen keys g.i g.buf h := by
  induction keys generalizing g with
  | nil =>
    rw [getlineTrace, getlineLoop]
    split_ifs <;> rfl
  | cons c keys ih =>
    rw [getlineTrace, getlineLoop]
    by_cases room : g.i < maxlen - 1
    · rw [if_pos room, if_pos room]
      by_cases newline : c = 0x0A
      · rw [if_pos newline, if_pos newline]
        rfl
      · rw [if_neg newline, if_neg newline, ih]
        unfold Getline.key
        split_ifs <;> rfl
    · rw [if_neg room, if_neg room]
      rfl

theorem getline_shellGetline (maxlen : Nat) (keys : List Byte) (buf : Line) (console : Console)
    (h : History) :
    (getline maxlen keys buf console h).map (fun taken => (taken.1, taken.2.1.buf, taken.2.2)) =
      shellGetline keys buf maxlen h :=
  getlineTrace_getlineLoop maxlen keys (begin buf console) h

/-! The line is the fold of the keys. -/

/-- What one key makes of the line. -/
def typeKey (s : List Byte) (c : Byte) : List Byte :=
  if c = 0x08 then s.dropLast else if printable c then s ++ [c] else s

def typed (keys : List Byte) : List Byte := keys.foldl typeKey []

/-- The buffer holds the line, and nothing was stored from maxlen on. -/
structure Typed (maxlen : Nat) (g : Getline) (s : List Byte) : Prop where
  line : (List.range g.i).map g.buf = s
  nonzero : ∀ k < g.i, g.buf k ≠ 0
  stores : ∀ k ∈ g.stores, k < maxlen

variable {maxlen : Nat} {g : Getline} {s : List Byte} {h : History}

theorem Typed.length (holds : Typed maxlen g s) : s.length = g.i := by
  rw [← holds.line, List.length_map, List.length_range]

theorem stores_cons {stores : List Nat} {k : Nat} (inside : k < maxlen)
    (before : ∀ other ∈ stores, other < maxlen) : ∀ other ∈ k :: stores, other < maxlen := by
  intro other member
  rcases List.mem_cons.mp member with rfl | old
  · exact inside
  · exact before other old

theorem Typed.key (holds : Typed maxlen g s) (room : g.i < maxlen - 1) (c : Byte) :
    Typed maxlen (g.key c) (typeKey s c) := by
  unfold Getline.key typeKey
  by_cases back : c = 0x08
  · rw [if_pos back, if_pos back]
    by_cases some : 0 < g.i
    · rw [if_pos some]
      refine ⟨?_, fun k inside => holds.nonzero k (Nat.lt_of_lt_of_le inside (Nat.sub_le _ 1)),
        holds.stores⟩
      rw [← holds.line, typed_dropLast, if_pos some]
      rfl
    · rw [if_neg some]
      refine ⟨?_, holds.nonzero, holds.stores⟩
      rw [← holds.line, typed_dropLast, if_neg some]
  · rw [if_neg back, if_neg back]
    by_cases shown : printable c
    · rw [if_pos shown, if_pos shown]
      refine ⟨?_, ?_, stores_cons (show g.i < maxlen by omega) holds.stores⟩
      · rw [← holds.line]
        exact typed_append g.buf g.i c
      · intro k inside
        change Function.update g.buf g.i c k ≠ 0
        by_cases last : k = g.i
        · rw [last, Function.update_self]
          rintro rfl
          exact absurd shown (by decide)
        · rw [Function.update_of_ne last]
          have before : k < g.i + 1 := inside
          exact holds.nonzero k (by omega)
    · rw [if_neg shown, if_neg shown]
      exact holds

theorem typeKey_length (s : List Byte) (c : Byte) : (typeKey s c).length ≤ s.length + 1 := by
  unfold typeKey
  split_ifs
  · rw [List.length_dropLast]
    omega
  · rw [List.length_append, List.length_singleton]
  · exact Nat.le_succ _

theorem typed_length_le (keys : List Byte) : (typed keys).length ≤ keys.length := by
  induction keys using List.reverseRecOn with
  | nil => exact le_refl 0
  | append_singleton keys c ih =>
    have grows := typeKey_length (typed keys) c
    rw [typed, List.foldl_append, List.length_append, List.length_singleton]
    exact grows.trans (Nat.succ_le_succ ih)

/-- The terminated buffer is the line. -/
theorem Typed.ends (holds : Typed maxlen g s) : CString g.full.buf 0 s := by
  rw [← holds.line]
  exact typed_ends g.buf g.i holds.nonzero

/-- The keys that a call takes before it ends: no newline, and the buffer is not full before the last
of them. -/
structure Consumed (maxlen : Nat) (g : Getline) (s keys consumed more : List Byte) : Prop where
  split : keys = consumed ++ more
  plain : 0x0A ∉ consumed
  room : ∀ before, before <+: consumed → before ≠ consumed →
    (before.foldl typeKey s).length < maxlen - 1
  typed : Typed maxlen (consumed.foldl Getline.key g) (consumed.foldl typeKey s)

theorem Consumed.start (holds : Typed maxlen g s) (keys : List Byte) :
    Consumed maxlen g s keys [] keys :=
  ⟨rfl, List.not_mem_nil, fun _ part other => absurd (List.prefix_nil.mp part) other, holds⟩

theorem Consumed.cons {keys consumed more : List Byte} {c : Byte}
    (later : Consumed maxlen (g.key c) (typeKey s c) keys consumed more) (other : c ≠ 0x0A)
    (room : s.length < maxlen - 1) : Consumed maxlen g s (c :: keys) (c :: consumed) more := by
  refine ⟨congrArg (c :: ·) later.split, ?_, ?_, later.typed⟩
  · rw [List.mem_cons, not_or]
    exact ⟨other.symm, later.plain⟩
  · intro before part different
    rcases List.prefix_cons_iff.mp part with rfl | ⟨first, rfl, rest⟩
    · exact room
    · exact later.room first rest fun same => different (congrArg (c :: ·) same)

/-- The call waits behind all the keys, ends with the first newline, or ends with the key that fills
the buffer. -/
theorem getlineTrace_spec (holds : Typed maxlen g s) (short : s.length ≤ maxlen - 1) (keys : List Byte) :
    (getlineTrace maxlen keys g h = none ∧ 0x0A ∉ keys ∧
        ∀ before, before <+: keys → (before.foldl typeKey s).length < maxlen - 1) ∨
      ∃ consumed more, Consumed maxlen g s keys consumed more ∧
        ((∃ rest, more = 0x0A :: rest ∧ (consumed.foldl typeKey s).length < maxlen - 1 ∧
            getlineTrace maxlen keys g h =
              some (rest, (consumed.foldl Getline.key g).enter,
                if consumed.foldl typeKey s ≠ [] then
                  remember (consumed.foldl Getline.key g).full.buf h
                else h)) ∨
          (consumed.foldl typeKey s).length = maxlen - 1 ∧
            getlineTrace maxlen keys g h = some (more, (consumed.foldl Getline.key g).full, h)) := by
  induction keys generalizing g s with
  | nil =>
    rw [getlineTrace, ← holds.length]
    by_cases room : s.length < maxlen - 1
    · left
      rw [if_pos room]
      refine ⟨rfl, List.not_mem_nil, fun before part => ?_⟩
      rw [List.prefix_nil.mp part]
      exact room
    · right
      rw [if_neg room]
      exact ⟨[], [], Consumed.start holds [], Or.inr ⟨by rw [List.foldl_nil]; omega, rfl⟩⟩
  | cons c keys ih =>
    rw [getlineTrace, ← holds.length]
    by_cases room : s.length < maxlen - 1
    · rw [if_pos room]
      by_cases newline : c = 0x0A
      · right
        subst newline
        refine ⟨[], _, Consumed.start holds _, Or.inl ⟨keys, rfl, room, ?_⟩⟩
        have some : s ≠ [] ↔ 0 < s.length := List.length_pos_iff.symm
        rw [if_pos rfl, List.foldl_nil, List.foldl_nil]
        simp only [some]
        rw [holds.length]
        rfl
      · rw [if_neg newline]
        have inside : g.i < maxlen - 1 := by
          rw [← holds.length]
          exact room
        have small : (typeKey s c).length ≤ maxlen - 1 := by
          have grows := typeKey_length s c
          omega
        rcases ih (holds.key inside c) small with ⟨waits, plain, fits⟩ | ⟨consumed, more, taken, ended⟩
        · left
          refine ⟨waits, ?_, ?_⟩
          · rw [List.mem_cons, not_or]
            exact ⟨Ne.symm newline, plain⟩
          · intro before part
            rcases List.prefix_cons_iff.mp part with rfl | ⟨first, rfl, rest⟩
            · exact room
            · exact fits first rest
        · right
          exact ⟨c :: consumed, more, taken.cons newline room, ended⟩
    · right
      rw [if_neg room]
      exact ⟨[], c :: keys, Consumed.start holds _, Or.inr ⟨by rw [List.foldl_nil]; omega, rfl⟩⟩

theorem typed_begin (positive : 1 ≤ maxlen) (buf : Line) (console : Console) :
    Typed maxlen (begin buf console) [] :=
  ⟨rfl, fun _ inside => absurd inside (Nat.not_lt_zero _),
    stores_cons positive fun _ member => absurd member List.not_mem_nil⟩

/-- The line that shell_getline returns is the fold of the keys it took, cut off where the buffer is
full, and no store leaves the buffer. -/
theorem getline_edits (maxlen : Nat) (positive : 1 ≤ maxlen) (keys : List Byte) (buf : Line)
    (console : Console) (h after : History) (rest : List Byte) (g : Getline)
    (returned : getline maxlen keys buf console h = some (rest, g, after)) :
    (∀ k ∈ g.stores, k < maxlen) ∧
      ∃ consumed, 0x0A ∉ consumed ∧
        (keys = consumed ++ 0x0A :: rest ∨
          keys = consumed ++ rest ∧ (typed consumed).length = maxlen - 1) ∧
        CString g.buf 0 (typed consumed) ∧ (typed consumed).length ≤ maxlen - 1 := by
  rcases getlineTrace_spec (h := h) (typed_begin positive buf console) (Nat.zero_le _) keys with
    ⟨waits, _⟩ | ⟨consumed, more, taken, ended⟩
  · exact absurd (returned.symm.trans waits) (by simp)
  · have holds := taken.typed
    have inside : (consumed.foldl Getline.key (begin buf console)).i < maxlen := by
      rw [← holds.length]
      rcases ended with ⟨_, _, short, _⟩ | ⟨whole, _⟩
      · exact Nat.lt_of_lt_of_le short (Nat.sub_le _ 1)
      · rw [whole]
        omega
    have stores := stores_cons inside holds.stores
    rcases ended with ⟨more, rfl, short, ends⟩ | ⟨whole, ends⟩
    · obtain ⟨rfl, rfl, _⟩ : more = rest ∧ _ = g ∧ _ = after := by
        simpa using Option.some.inj (ends.symm.trans returned)
      exact ⟨stores, consumed, taken.plain, Or.inl taken.split, holds.ends, Nat.le_of_lt short⟩
    · obtain ⟨rfl, rfl, _⟩ : more = rest ∧ _ = g ∧ _ = after := by
        simpa using Option.some.inj (ends.symm.trans returned)
      exact ⟨stores, consumed, taken.plain, Or.inr ⟨taken.split, whole⟩, holds.ends, Nat.le_of_eq whole⟩

/-- A letter and a newline. -/
theorem getline_edits_letter :
    ∃ rest g after, getline 3 [0x41, 0x0A] (fun _ => 0) ⟨0, fun _ => 0, 0, 0, []⟩
        ⟨fun _ _ => 0, 0, 0⟩ = some (rest, g, after) ∧
      (∀ k ∈ g.stores, k < 3) ∧
      ∃ consumed, 0x0A ∉ consumed ∧
        ([0x41, 0x0A] = consumed ++ 0x0A :: rest ∨
          [0x41, 0x0A] = consumed ++ rest ∧ (typed consumed).length = 3 - 1) ∧
        CString g.buf 0 (typed consumed) ∧ (typed consumed).length ≤ 3 - 1 :=
  ⟨_, _, _, rfl, getline_edits 3 (by decide) [0x41, 0x0A] (fun _ => 0) ⟨0, fun _ => 0, 0, 0, []⟩
    ⟨fun _ _ => 0, 0, 0⟩ _ _ _ rfl⟩

/-! One line for each newline. -/

/-- A call ends behind the next newline and not before, and a line that is not empty is remembered. -/
def OneLine (taken : Option (List Byte × Getline × History)) (keys : List Byte) (h : History) : Prop :=
  match taken with
  | none => 0x0A ∉ keys
  | some (rest, g, after) =>
      ∃ line, 0x0A ∉ line ∧ keys = line ++ 0x0A :: rest ∧ (g.buf 0 ≠ 0 → after = remember g.buf h)

variable {keys : List Byte} {buf : Line} {console : Console}

/-- A prefix without a newline does not reach behind one. -/
theorem prefix_line {before line rest : List Byte} (part : before <+: line ++ 0x0A :: rest)
    (plain : 0x0A ∉ before) : before <+: line := by
  have whole : line ++ [0x0A] <+: line ++ 0x0A :: rest := ⟨rest, by simp⟩
  rcases List.prefix_or_prefix_of_prefix part whole with shorter | longer
  · rcases List.prefix_concat_iff.mp shorter with same | part
    · rw [same] at plain
      exact absurd (List.mem_append_right line List.mem_cons_self) plain
    · exact part
  · exact absurd (longer.subset (List.mem_append_right line List.mem_cons_self)) plain

theorem oneLine_of_room
    (room : ∀ before, before <+: keys → 0x0A ∉ before → (typed before).length < MAX_LINE - 1) :
    OneLine (getline MAX_LINE keys buf console h) keys h := by
  have begun : Typed MAX_LINE (begin buf console) [] := typed_begin (by decide) buf console
  rcases getlineTrace_spec (h := h) begun (Nat.zero_le _) keys with
    ⟨waits, plain, _⟩ | ⟨consumed, more, taken, ⟨rest, rfl, short, ends⟩ | ⟨whole, _⟩⟩
  · rw [getline, waits]
    exact plain
  · rw [getline, ends]
    refine ⟨consumed, taken.plain, taken.split, fun some => ?_⟩
    have line : consumed.foldl typeKey [] ≠ [] := mt taken.typed.ends.first_zero.mpr some
    exact if_pos line
  · have fits := room consumed ⟨more, taken.split.symm⟩ taken.plain
    exact absurd whole (Nat.ne_of_lt fits)

theorem OneLine.room (one : OneLine (getline MAX_LINE keys buf console h) keys h) (before : List Byte)
    (part : before <+: keys) (plain : 0x0A ∉ before) : (typed before).length < MAX_LINE - 1 := by
  have begun : Typed MAX_LINE (begin buf console) [] := typed_begin (by decide) buf console
  rcases getlineTrace_spec (h := h) begun (Nat.zero_le _) keys with
    ⟨_, _, fits⟩ | ⟨consumed, more, taken, ⟨rest, rfl, short, _⟩ | ⟨_, ends⟩⟩
  · exact fits before part
  · rw [taken.split] at part
    by_cases last : before = consumed
    · rw [last]
      exact short
    · exact taken.room before (prefix_line part plain) last
  · -- The keys taken have no newline, so that the line would have to end among them.
    rw [getline, ends] at one
    obtain ⟨line, _, split, _⟩ := one
    have same : consumed ++ more = (line ++ [0x0A]) ++ more := by
      rw [← taken.split, split, List.append_assoc]
      rfl
    have inside : 0x0A ∈ consumed := by
      rw [List.append_cancel_right same]
      exact List.mem_append_right line List.mem_cons_self
    exact absurd inside taken.plain

/-- A call takes one typed line exactly when the line never fills the buffer before its newline. -/
theorem getline_oneLine_iff (keys : List Byte) (buf : Line) (console : Console) (h : History) :
    OneLine (getline MAX_LINE keys buf console h) keys h ↔
      ∀ before, before <+: keys → 0x0A ∉ before → (typed before).length < MAX_LINE - 1 :=
  ⟨OneLine.room, oneLine_of_room⟩

theorem typed_foldl (first second : List Byte) : typed (first ++ second) = second.foldl typeKey (typed first) :=
  List.foldl_append

/-- Without a backspace the printable keys are the line. -/
theorem typed_printable (shown : ∀ c ∈ keys, printable c) : typed keys = keys := by
  induction keys using List.reverseRecOn with
  | nil => rfl
  | append_singleton keys c ih =>
    have last : printable c := shown c (List.mem_append_right keys List.mem_cons_self)
    have other : c ≠ 0x08 := by
      rintro rfl
      exact absurd last (by decide)
    rw [typed_foldl, ih fun d member => shown d (List.mem_append_left _ member)]
    change typeKey keys c = _
    rw [typeKey, if_neg other, if_pos last]

/-- A line of 511 letters. -/
theorem getline_not_oneLine :
    ¬∀ (keys : List Byte) (buf : Line) (console : Console) (h : History),
      OneLine (getline MAX_LINE keys buf console h) keys h := by
  intro claim
  have letters : ∀ c ∈ List.replicate 511 (0x61 : Byte), printable c := by
    intro c member
    rw [List.eq_of_mem_replicate member]
    decide
  have plain : (0x0A : Byte) ∉ List.replicate 511 (0x61 : Byte) := fun member =>
    absurd (List.eq_of_mem_replicate member) (by decide)
  have short := (claim (List.replicate 511 0x61 ++ [0x0A]) (fun _ => 0) ⟨0, fun _ => 0, 0, 0, []⟩
    ⟨fun _ _ => 0, 0, 0⟩).room _ (List.prefix_append _ _) plain
  rw [typed_printable letters, List.length_replicate] at short
  exact absurd short (by decide)

end Vaelen.Kernel.ShellEditing
