import Mathlib.Data.List.GetD
import Vaelen.Kernel.Vga

/-!
What the console is for: a terminal with an unbounded list of rows that never scrolls. The
screen of vga.c shows its last 25 rows, and the cursor is shifted by the rows above them.
-/

namespace Vaelen.Kernel.Terminal
open Vaelen.Base Vga

abbrev Row := Fin 80 → Byte

def Row.blank : Row := fun _ => space

/-- The rows above the cursor's row, that row, and the column in it. -/
structure Reference where
  above : List Row
  current : Row
  column : Fin 80

def initial : Reference := { above := [], current := Row.blank, column := 0 }

def rows (t : Reference) : List Row := t.above ++ [t.current]

/-- The rows that no longer fit on a screen. -/
def scrolledOff (t : Reference) : Nat := (rows t).length - 25

def line (t : Reference) (k : Nat) : Row := (rows t).getD k Row.blank

/-- The row a screen shows at `y`: one of the last 25, or a blank one below them. -/
def visible (t : Reference) (y : Nat) : Row := line t (scrolledOff t + y)

def newline (t : Reference) : Reference :=
  { above := rows t, current := Row.blank, column := 0 }

/-- The cursor moves right; at column 80 it wraps at once. -/
def moveTo (column : Nat) (t : Reference) : Reference :=
  if inside : column < 80 then { t with column := ⟨column, inside⟩ } else newline t

def write (c : Byte) (t : Reference) : Reference :=
  { t with current := Function.update t.current t.column c }

def left (t : Reference) : Reference :=
  { t with column := ⟨(t.column : Nat) - 1, Nat.lt_of_le_of_lt (Nat.sub_le _ 1) t.column.isLt⟩ }

def put (c : Byte) (t : Reference) : Reference :=
  if c = 0x0A then newline t
  else if c = 0x0D then { t with column := 0 }
  else if c = 0x09 then moveTo (8 * ((t.column : Nat) / 8 + 1)) t
  else if c = 0x08 then
    if (t.column : Nat) = 0 then t else write space (left t)
  else moveTo ((t.column : Nat) + 1) (write c t)

def putAll (chars : List Byte) (t : Reference) : Reference := chars.foldl (fun t c => put c t) t

/-- The console shows the terminal; `drawn` says which words a character may be drawn as. -/
structure Shows (drawn : Byte → BitVec 16 → Prop) (s : Console) (t : Reference) : Prop where
  screen : ∀ y < 25, ∀ x : Fin 80, drawn (visible t y x) (s.vgaBuffer (y * 80 + x))
  cursorX : s.cursorX.toNat = t.column
  cursorY : s.cursorY.toNat + scrolledOff t = t.above.length

variable {drawn : Byte → BitVec 16 → Prop} {s : Console} {t : Reference}

/-! The terminal. -/

theorem scrolledOff_eq (t : Reference) : scrolledOff t = t.above.length - 24 := by
  simp [scrolledOff, rows]

/-- The row that a line feed adds was blank before. -/
theorem line_newline (t : Reference) (k : Nat) : line (newline t) k = line t k := by
  change (rows t ++ [Row.blank]).getD k Row.blank = (rows t).getD k Row.blank
  by_cases inside : k < (rows t).length
  · rw [List.getD_append _ _ _ _ inside]
  · have beyond : (rows t).getD k Row.blank = Row.blank := List.getD_eq_default _ _ (by omega)
    rw [List.getD_append_right _ _ _ _ (by omega), beyond]
    cases k - (rows t).length <;> rfl

theorem line_current (t : Reference) : line t t.above.length = t.current := by
  unfold line rows
  rw [List.getD_append_right _ _ _ _ (Nat.le_refl _), Nat.sub_self]
  rfl

theorem line_write (c : Byte) (t : Reference) (k : Nat) :
    line (write c t) k =
      if k = t.above.length then Function.update t.current t.column c else line t k := by
  by_cases here : k = t.above.length
  · rw [if_pos here, here]
    exact line_current (write c t)
  · rw [if_neg here]
    change (t.above ++ [_]).getD k Row.blank = (t.above ++ [t.current]).getD k Row.blank
    rcases Nat.lt_or_gt_of_ne here with early | late
    · rw [List.getD_append _ _ _ _ early, List.getD_append _ _ _ _ early]
    · rw [List.getD_eq_default, List.getD_eq_default]
      · rw [List.length_append, List.length_singleton]
        omega
      · rw [List.length_append, List.length_singleton]
        omega

/-! One move of the cursor or store at it. -/

theorem Shows.low (shows : Shows drawn s t) : s.cursorY.toNat < 25 := by
  have place := shows.cursorY
  rw [scrolledOff_eq] at place
  omega

/-- A cursor on the screen neither wraps nor scrolls. -/
theorem Shows.settled (shows : Shows drawn s t) : Shows drawn (keepInside (wrapLine s)) t := by
  have low := shows.low
  have narrow := t.column.isLt
  have place := shows.cursorX
  rw [wrapLine, if_neg (show ¬80 ≤ s.cursorX.toNat by omega), keepInside,
    if_neg (show ¬25 ≤ s.cursorY.toNat by omega)]
  exact shows

theorem Shows.column (shows : Shows drawn s t) {x : Byte} {column : Fin 80}
    (same : x.toNat = column) : Shows drawn { s with cursorX := x } { t with column := column } :=
  ⟨shows.screen, same, shows.cursorY⟩

theorem Shows.stored (shows : Shows drawn s t) {c : Byte} {word : BitVec 16} (draws : drawn c word) :
    Shows drawn (draw word s) (write c t) := by
  have place := shows.cursorY
  have index : cursorIndex s = s.cursorY.toNat * 80 + t.column := by
    rw [cursorIndex, shows.cursorX]
  have off : scrolledOff (write c t) = scrolledOff t := by simp [scrolledOff_eq, write]
  refine ⟨fun y inside x => ?_, shows.cursorX, off ▸ place⟩
  change drawn (line (write c t) (scrolledOff (write c t) + y) x)
    (Function.update s.vgaBuffer (cursorIndex s) word (y * 80 + x))
  rw [off, line_write, index]
  by_cases row : y = s.cursorY.toNat
  · rw [if_pos (by omega)]
    by_cases here : x = t.column
    · rw [here, row, Function.update_self, Function.update_self]
      exact draws
    · have apart : y * 80 + (x : Nat) ≠ s.cursorY.toNat * 80 + t.column := fun same =>
        here (Fin.ext (by omega))
      rw [Function.update_of_ne here, Function.update_of_ne apart, ← line_current, ← place,
        Nat.add_comm, ← row]
      exact shows.screen y inside x
  · have apart : y * 80 + (x : Nat) ≠ s.cursorY.toNat * 80 + t.column := by
      have first := x.isLt
      have second := t.column.isLt
      omega
    rw [if_neg (by omega), Function.update_of_ne apart]
    exact shows.screen y inside x

/-- A line feed, with the scroll when it leaves the screen. -/
theorem Shows.lineFeed (shows : Shows drawn s t) (blank : drawn space (cell space s.vgaColor)) :
    Shows drawn (keepInside { s with cursorX := 0, cursorY := s.cursorY + 1 }) (newline t) := by
  have place := shows.cursorY
  have low := shows.low
  have next : (s.cursorY + 1).toNat = s.cursorY.toNat + 1 := by bv_omega
  have length : (newline t).above.length = t.above.length + 1 := by simp [newline, rows]
  have off := scrolledOff_eq t
  have offNext := scrolledOff_eq (newline t)
  rw [length] at offNext
  by_cases bottom : s.cursorY.toNat = 24
  · rw [keepInside, if_pos (show 25 ≤ (s.cursorY + 1).toNat by omega)]
    refine ⟨fun y inside x => ?_, rfl, ?_⟩
    · have column := x.isLt
      change drawn (line (newline t) (scrolledOff (newline t) + y) x)
        ((vgaScroll { s with cursorX := 0, cursorY := s.cursorY + 1 }).vgaBuffer (y * 80 + x))
      rw [vgaScroll_spec _ _ (by omega)]
      by_cases last : y = 24
      · have bare : line (newline t) (scrolledOff (newline t) + y) =
            Row.blank := by
          rw [show scrolledOff (newline t) + y = (newline t).above.length by
            omega, line_current]
          rfl
        rw [bare, if_neg (by omega)]
        exact blank
      · rw [line_newline, if_pos (by omega)]
        have above := shows.screen (y + 1) (by omega) x
        rw [show (y + 1) * 80 + (x : Nat) = y * 80 + x + 80 by omega] at above
        rw [show scrolledOff (newline t) + y = scrolledOff t + (y + 1) by omega]
        exact above
    · change 24 + scrolledOff (newline t) = (newline t).above.length
      omega
  · rw [keepInside, if_neg (show ¬25 ≤ (s.cursorY + 1).toNat by omega)]
    refine ⟨fun y inside x => ?_, rfl, ?_⟩
    · change drawn (line (newline t) (scrolledOff (newline t) + y) x) _
      rw [line_newline, show scrolledOff (newline t) = scrolledOff t by omega]
      exact shows.screen y inside x
    · change (s.cursorY + 1).toNat + scrolledOff (newline t) = _
      omega

theorem Shows.moved (shows : Shows drawn s t) (blank : drawn space (cell space s.vgaColor))
    (x : Byte) :
    Shows drawn (keepInside (wrapLine { s with cursorX := x })) (moveTo x.toNat t) := by
  by_cases inside : x.toNat < 80
  · rw [moveTo, dif_pos inside]
    exact Shows.settled (shows.column rfl)
  · rw [wrapLine, if_pos (show 80 ≤ x.toNat by omega), moveTo, dif_neg inside]
    exact shows.lineFeed blank

theorem Shows.moveCursor (shows : Shows drawn s t) (x y : Byte) :
    Shows drawn (vgaMoveCursor x y s) t := ⟨shows.screen, shows.cursorX, shows.cursorY⟩

/-! One character. -/

theorem tab_stop (x : Byte) (inside : x.toNat < 80) :
    ((x + 8) &&& ~~~7).toNat = 8 * (x.toNat / 8 + 1) := by
  have stops : ∀ n : Fin 80, ((BitVec.ofNat 8 n + 8) &&& ~~~7 : Byte).toNat = 8 * (n / 8 + 1) := by
    decide
  have same : BitVec.ofNat 8 x.toNat = x := by rw [BitVec.ofNat_toNat, BitVec.setWidth_eq]
  have stop := stops ⟨x.toNat, inside⟩
  rwa [same] at stop

/-- One vga_putchar is one character typed at the terminal. -/
theorem Shows.putchar (shows : Shows drawn s t) {c : Byte}
    (blank : drawn space (cell space s.vgaColor)) (draws : drawn c (cell c s.vgaColor)) :
    Shows drawn (vgaPutchar c s) (put c t) := by
  have column := t.column.isLt
  have place := shows.cursorX
  apply Shows.moveCursor
  unfold typeChar put
  by_cases feed : c = 0x0A
  · have fits : wrapLine { s with cursorX := 0, cursorY := s.cursorY + 1 } =
        { s with cursorX := 0, cursorY := s.cursorY + 1 } :=
      if_neg (show ¬80 ≤ (0 : Byte).toNat by decide)
    rw [if_pos feed, if_pos feed, fits]
    exact shows.lineFeed blank
  · rw [if_neg feed, if_neg feed]
    by_cases start : c = 0x0D
    · rw [if_pos start, if_pos start]
      exact shows.moved blank 0
    · rw [if_neg start, if_neg start]
      by_cases tab : c = 0x09
      · rw [if_pos tab, if_pos tab, ← place, ← tab_stop _ (by omega)]
        exact shows.moved blank _
      · rw [if_neg tab, if_neg tab]
        by_cases back : c = 0x08
        · rw [if_pos back, if_pos back]
          by_cases margin : (t.column : Nat) = 0
          · have stays : ¬0 < s.cursorX := by bv_omega
            rw [if_neg stays, if_pos margin]
            exact shows.settled
          · have moves : 0 < s.cursorX := by bv_omega
            have previous : (s.cursorX - 1).toNat = ((left t).column : Nat) := by
              change _ = (t.column : Nat) - 1
              bv_omega
            rw [if_pos moves, if_neg margin]
            exact ((shows.column previous).stored blank).settled
        · rw [if_neg back, if_neg back]
          have after : (s.cursorX + 1).toNat = (t.column : Nat) + 1 := by bv_omega
          have typed := (shows.stored draws).moved blank (s.cursorX + 1)
          rwa [after] at typed

theorem Shows.write (shows : Shows drawn s t) {chars : List Byte}
    (blank : drawn space (cell space s.vgaColor))
    (draws : ∀ c ∈ chars, drawn c (cell c s.vgaColor)) :
    Shows drawn (vgaWrite chars s) (putAll chars t) := by
  induction chars generalizing s t with
  | nil => exact shows
  | cons c rest ih =>
    have colour := vgaPutchar_vgaColor s c
    apply ih (shows.putchar blank (draws c (by simp)))
    · rw [colour]
      exact blank
    · intro d member
      rw [colour]
      exact draws d (by simp [member])

/-! The run from vga_init. -/

/-- A cleared screen shows the empty terminal. -/
theorem shows_initial (s : Console) (color : Byte) (blank : drawn space (cell space 0x07)) :
    Shows drawn (vgaSetcolor color (vgaInit s)) initial := by
  refine ⟨fun y inside x => ?_, rfl, rfl⟩
  have column := x.isLt
  have empty : visible initial y = Row.blank := by
    change [Row.blank].getD (0 + y) Row.blank = Row.blank
    cases y <;> rfl
  have cleared : (vgaInit s).vgaBuffer (y * 80 + x) = cell space 0x07 :=
    vgaClear_spec _ _ (by omega)
  change drawn (visible initial y x) ((vgaInit s).vgaBuffer (y * 80 + x))
  rw [empty, cleared]
  exact blank

/-- A 7-bit character fills the low byte of its word and the colour the high one. -/
theorem cell_plain (c color : Byte) (plain : c.toNat < 128) : cell c color = color ++ c := by
  have positive : c.msb = false := by
    rw [BitVec.msb_eq_decide]
    exact decide_eq_false (by omega)
  rw [cell, BitVec.signExtend_eq_setWidth_of_msb_false positive]
  have low : c.toNat % 2 ^ 16 = c.toNat := Nat.mod_eq_of_lt (by omega)
  have high : (color.toNat % 2 ^ 16) <<< 8 % 2 ^ 16 = color.toNat <<< 8 := by
    have bound := color.isLt
    have small : color.toNat % 2 ^ 16 = color.toNat := Nat.mod_eq_of_lt (by omega)
    rw [small, Nat.shiftLeft_eq]
    exact Nat.mod_eq_of_lt (by omega)
  apply BitVec.eq_of_toNat_eq
  rw [BitVec.toNat_append, BitVec.toNat_or, BitVec.toNat_shiftLeft, BitVec.toNat_setWidth,
    BitVec.toNat_setWidth, low, high, Nat.or_comm]

/-- The words that vga.c draws characters as after vga_init, in a colour set once behind it. -/
def drawnIn (color : Byte) (c : Byte) (word : BitVec 16) : Prop :=
  word = color ++ c ∨ c = space ∧ word = (0x07 : Byte) ++ c

/-- The console refines the terminal: with the colour of vga_init every word of the screen is
the terminal's character, and with another one a blank may keep the colour of vga_init. -/
theorem run_shows (s : Console) (chars : List Byte) (plain : ∀ c ∈ chars, c.toNat < 128) :
    Shows (fun c word => word = (0x07 : Byte) ++ c) (vgaWrite chars (vgaInit s))
        (putAll chars initial) ∧
      ∀ color, Shows (drawnIn color) (vgaWrite chars (vgaSetcolor color (vgaInit s)))
        (putAll chars initial) := by
  have blank : ∀ color : Byte, cell space color = color ++ space := fun color =>
    cell_plain space color (by decide)
  constructor
  · apply (shows_initial s 0x07 (blank 0x07)).write (blank 0x07)
    exact fun c member => cell_plain c 0x07 (plain c member)
  · intro color
    apply (shows_initial s color (Or.inr ⟨rfl, blank 0x07⟩)).write (Or.inl (blank color))
    exact fun c member => Or.inl (cell_plain c color (plain c member))

/-- A letter and a line feed. -/
theorem run_shows_letter :
    Shows (fun c word => word = (0x07 : Byte) ++ c)
      (vgaWrite [0x41, 0x0A] (vgaInit ⟨0, fun _ => 0, 0, 0, []⟩)) (putAll [0x41, 0x0A] initial) :=
  (run_shows ⟨0, fun _ => 0, 0, 0, []⟩ [0x41, 0x0A] (by decide)).1

end Vaelen.Kernel.Terminal
