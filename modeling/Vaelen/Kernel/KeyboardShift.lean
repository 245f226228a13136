import Vaelen.Kernel.Keyboard

/-!
The shift keys. Both set and clear the one flag of keyboard_handler, which forgets a key that is still held
when the other one is released.
-/

namespace Vaelen.Kernel.KeyboardShift
open Vaelen.Base Keyboard

/-- The codes that the handler has read in a run. -/
def scancodes (events : List Event) : List Byte :=
  events.filterMap fun event =>
    match event with
    | .interrupt scancode => some scancode
    | .statement => none

/-- Whether the key with this make code is down; its break code has bit 7 set. -/
def held (key : Byte) (codes : List Byte) : Bool :=
  codes.foldl (fun down code => if code = key then true else if code = key ||| 0x80 then false else down) false

/-- A key is released only while it is held. -/
def Released (codes : List Byte) : Prop :=
  ∀ i code, codes[i]? = some code → code &&& 0x80 ≠ 0 → held (code &&& 0x7F) (codes.take i) = true

/-- shift_pressed tells whether one of the two keys is held. -/
def Follows (events : List Event) : Prop :=
  (events.foldl step start).keyboard.shiftPressed =
    (held 0x2A (scancodes events) || held 0x36 (scancodes events))

/-- A make or break code of one of them. -/
def shift (code : Byte) : Prop := code = 0x2A ∨ code = 0x36 ∨ code = 0xAA ∨ code = 0xB6

/-- The last of these codes releases one key while the other is held. -/
def Forgets (codes : List Byte) : Prop :=
  ∃ before code after, codes = before ++ code :: after ∧
    (code = 0xAA ∧ held 0x36 before = true ∨ code = 0xB6 ∧ held 0x2A before = true) ∧
    ∀ other ∈ after, ¬shift other

/-! The flag after a run depends on the codes alone. -/

def press (flag : Bool) (code : Byte) : Bool :=
  if code = 0x2A ∨ code = 0x36 then true else if code = 0xAA ∨ code = 0xB6 then false else flag

theorem keyboardHandler_shiftPressed (scancode : Byte) (k : Driver) :
    (keyboardHandler scancode k).shiftPressed = press k.shiftPressed scancode := by
  unfold keyboardHandler press
  split
  · rfl
  · split
    · rfl
    · split
      · rfl
      · split
        · rfl
        · dsimp only
          split <;> rfl

theorem statement_shiftPressed (s : System) : (statement s).keyboard.shiftPressed = s.keyboard.shiftPressed := by
  obtain ⟨keyboard, reader, stored, returned⟩ := s
  cases reader <;> rfl

theorem foldl_shiftPressed (events : List Event) (s : System) :
    (events.foldl step s).keyboard.shiftPressed = (scancodes events).foldl press s.keyboard.shiftPressed := by
  induction events generalizing s with
  | nil => rfl
  | cons event events ih =>
    rw [List.foldl_cons, ih]
    cases event with
    | interrupt scancode => exact congrArg ((scancodes events).foldl press) (keyboardHandler_shiftPressed scancode s.keyboard)
    | statement => exact congrArg ((scancodes events).foldl press) (statement_shiftPressed s)

/-! One more code. -/

theorem held_snoc (key code : Byte) (codes : List Byte) :
    held key (codes ++ [code]) =
      if code = key then true else if code = key ||| 0x80 then false else held key codes :=
  List.foldl_append

theorem press_snoc (code : Byte) (codes : List Byte) :
    (codes ++ [code]).foldl press false = press (codes.foldl press false) code :=
  List.foldl_append

/-- Where one code of a longer list stands. -/
theorem snoc_split {codes before after : List Byte} {code last : Byte}
    (whole : codes ++ [code] = before ++ last :: after) :
    (codes = before ∧ code = last ∧ after = []) ∨
      ∃ rest, after = rest ++ [code] ∧ codes = before ++ last :: rest := by
  rcases List.eq_nil_or_concat' after with rfl | ⟨rest, final, rfl⟩
  · obtain ⟨front, final⟩ := List.append_inj' whole rfl
    exact Or.inl ⟨front, List.singleton_inj.mp final, rfl⟩
  · rw [← List.cons_append, ← List.append_assoc] at whole
    obtain ⟨front, final⟩ := List.append_inj' whole rfl
    exact Or.inr ⟨rest, by rw [List.singleton_inj.mp final], front⟩

/-- A code of a shift key decides alone. -/
theorem forgets_shift {code : Byte} (codes : List Byte) (decides : shift code) :
    Forgets (codes ++ [code]) ↔
      code = 0xAA ∧ held 0x36 codes = true ∨ code = 0xB6 ∧ held 0x2A codes = true := by
  constructor
  · rintro ⟨before, last, after, whole, releases, quiet⟩
    rcases snoc_split whole with ⟨rfl, rfl, -⟩ | ⟨rest, rfl, -⟩
    · exact releases
    · exact absurd decides (quiet code (List.mem_append_right rest (List.mem_singleton_self code)))
  · intro releases
    exact ⟨codes, code, [], rfl, releases, fun _ member => absurd member List.not_mem_nil⟩

/-- Another code changes nothing. -/
theorem forgets_other {code : Byte} (codes : List Byte) (other : ¬shift code) :
    Forgets (codes ++ [code]) ↔ Forgets codes := by
  constructor
  · rintro ⟨before, last, after, whole, releases, quiet⟩
    rcases snoc_split whole with ⟨rfl, rfl, -⟩ | ⟨rest, rfl, rfl⟩
    · have decides : shift code := by
        rcases releases with ⟨rfl, -⟩ | ⟨rfl, -⟩
        · exact Or.inr (Or.inr (Or.inl rfl))
        · exact Or.inr (Or.inr (Or.inr rfl))
      exact absurd decides other
    · exact ⟨before, last, rest, rfl, releases, fun later member =>
        quiet later (List.mem_append_left [code] member)⟩
  · rintro ⟨before, last, after, rfl, releases, quiet⟩
    refine ⟨before, last, after ++ [code], by rw [List.append_assoc, List.cons_append], releases, ?_⟩
    intro later member
    rcases List.mem_append.mp member with member | member
    · exact quiet later member
    · exact List.mem_singleton.mp member ▸ other

/-- The flag follows the keys unless the last code of a shift key has released one of two. -/
theorem press_follows_iff (codes : List Byte) :
    codes.foldl press false = (held 0x2A codes || held 0x36 codes) ↔ ¬Forgets codes := by
  induction codes using List.reverseRecOn with
  | nil =>
    refine iff_of_true rfl ?_
    rintro ⟨before, code, after, whole, -⟩
    cases before <;> cases whole
  | append_singleton codes code ih =>
    rw [press_snoc, held_snoc, held_snoc]
    by_cases decides : shift code
    · rw [forgets_shift codes decides]
      rcases decides with rfl | rfl | rfl | rfl
      all_goals simp [press]
    · rw [forgets_other codes decides, ← ih]
      simp only [shift, not_or] at decides
      obtain ⟨left, right, leftUp, rightUp⟩ := decides
      have flag : press (codes.foldl press false) code = codes.foldl press false := by
        rw [press, if_neg (by tauto), if_neg (by tauto)]
      rw [flag, if_neg left, if_neg (by exact leftUp), if_neg right, if_neg (by exact rightUp)]

/-- After every run shift_pressed follows the two keys, unless one was released last with the other still held. -/
theorem run_follows_iff (events : List Event) : Follows events ↔ ¬Forgets (scancodes events) := by
  have flag : (events.foldl step start).keyboard.shiftPressed = (scancodes events).foldl press false :=
    foldl_shiftPressed events start
  rw [Follows, flag]
  exact press_follows_iff (scancodes events)

/-- Both keys go down and the left one comes up again. -/
theorem run_not_follows :
    ¬∀ events, Released (scancodes events) → Follows events := by
  intro follows
  have released : Released (scancodes [.interrupt 0x2A, .interrupt 0x36, .interrupt 0xAA]) := by
    intro i code here up
    match i with
    | 0 | 1 => cases here; exact absurd rfl up
    | 2 => cases here; rfl
    | i + 3 => cases here
  exact absurd (follows _ released) (by unfold Follows; decide)

end Vaelen.Kernel.KeyboardShift
