import Vaelen.Kernel.VgaTrace

/-!
Which character every cell of the screen was written for, and in which colour. A byte from 0x80 on
is sign-extended before the attribute is put above it, and its cell has 0xFF for a colour.
-/

namespace Vaelen.Kernel.VgaColours
open Vaelen.Base Vga VgaTrace

/-- The character a cell was last written for, and vga_color at that time. -/
structure Mark where
  glyph : Byte
  color : Byte

/-- The console, with a mark for every cell that moves with the content of the cell. -/
structure Painted where
  console : Console
  marks : Nat → Mark

/-- The cell that the cases of vga_putchar write. -/
def typeMarks (c : Byte) (s : Console) (marks : Nat → Mark) : Nat → Mark :=
  if c = 0x0A ∨ c = 0x0D ∨ c = 0x09 then marks
  else if c = 0x08 then
    if 0 < s.cursorX then
      Function.update marks (cursorIndex { s with cursorX := s.cursorX - 1 }) ⟨space, s.vgaColor⟩
    else marks
  else Function.update marks (cursorIndex s) ⟨c, s.vgaColor⟩

/-- vga_scroll moves the marks up with their cells and blanks the last row. -/
def scrollMarks (color : Byte) (marks : Nat → Mark) (i : Nat) : Mark :=
  if i < (VGA_HEIGHT - 1) * VGA_WIDTH then marks (i + VGA_WIDTH) else ⟨space, color⟩

namespace Painted

def putchar (c : Byte) (p : Painted) : Painted :=
  let marks := typeMarks c p.console p.marks
  { console := vgaPutchar c p.console
    marks :=
      if VGA_HEIGHT ≤ (Vga.wrapLine (Vga.typeChar c p.console)).cursorY.toNat then
        scrollMarks p.console.vgaColor marks
      else marks }

def setcolor (color : Byte) (p : Painted) : Painted :=
  { p with console := vgaSetcolor color p.console }

/-- vga_init writes a blank into every cell. -/
def init (s : Console) : Painted := { console := vgaInit s, marks := fun _ => ⟨space, 0x07⟩ }

end Painted

inductive Call where
  | vgaPutchar (c : Byte)
  | vgaSetcolor (color : Byte)

def Painted.call (p : Painted) : Call → Painted
  | .vgaPutchar c => p.putchar c
  | .vgaSetcolor color => p.setcolor color

/-- The calls after vga_init on any former console. -/
def run (s : Console) (calls : List Call) : Painted := calls.foldl Painted.call (Painted.init s)

/-- Every cell shows the colour and the character it was written with. -/
def Coloured (p : Painted) : Prop :=
  ∀ i < VGA_WIDTH * VGA_HEIGHT, (p.console.vgaBuffer i).extractLsb' 8 8 = (p.marks i).color ∧
    (p.console.vgaBuffer i).extractLsb' 0 8 = (p.marks i).glyph

/-- vga_write, vga_puts and sys_write are such calls. -/
theorem run_write (s : Console) (calls : List Call) (data : List Byte) :
    (run s (calls ++ data.map .vgaPutchar)).console = vgaWrite data (run s calls).console := by
  rw [run, List.foldl_append]
  change (List.foldl Painted.call (run s calls) _).console = _
  generalize run s calls = p
  induction data generalizing p with
  | nil => rfl
  | cons c rest ih => exact ih (p.putchar c)

/-! The two bytes of a cell. -/

theorem cell_bit (c color : Byte) {k : Nat} (inside : k < 16) :
    (cell c color).getLsbD k =
      ((if k < 8 then c.getLsbD k else c.msb) || (decide (8 ≤ k) && color.getLsbD (k - 8))) := by
  rw [cell, BitVec.getLsbD_or, BitVec.getLsbD_signExtend, BitVec.getLsbD_shiftLeft,
    BitVec.getLsbD_setWidth]
  by_cases low : k < 8
  · simp [inside, low]
  · have high : 8 ≤ k := Nat.not_lt.mp low
    have within : k - 8 < 16 := by omega
    simp [inside, low, high, within]

theorem cell_low (c color : Byte) : (cell c color).extractLsb' 0 8 = c := by
  apply BitVec.eq_of_getLsbD_eq
  intro i inside
  have small : i < 8 := inside
  have above : ¬8 ≤ i := Nat.not_le.mpr small
  rw [BitVec.getLsbD_extractLsb', Nat.zero_add, cell_bit c color (by omega)]
  simp [small, above]

/-- The sign bits of a byte from 0x80 on cover the attribute. -/
theorem cell_high (c color : Byte) :
    (cell c color).extractLsb' 8 8 = if c.toNat < 128 then color else 0xFF := by
  have sign : c.msb = decide (128 ≤ c.toNat) := BitVec.msb_eq_decide c
  apply BitVec.eq_of_getLsbD_eq
  intro i inside
  have small : i < 8 := inside
  have ones : (0xFF : Byte).getLsbD i = true := by
    have all : ∀ k : Fin 8, (0xFF : Byte).getLsbD k = true := by decide
    exact all ⟨i, small⟩
  have beyond : ¬8 + i < 8 := by omega
  rw [BitVec.getLsbD_extractLsb', cell_bit c color (by omega), if_neg beyond, Nat.add_sub_cancel_left,
    sign]
  by_cases ascii : c.toNat < 128
  · rw [if_pos ascii, decide_eq_false (Nat.not_le.mpr ascii)]
    simp [small]
  · rw [if_neg ascii, decide_eq_true (Nat.not_lt.mp ascii), ones]
    simp [small]

/-! The marks are right. -/

/-- The words are those that the marks say. -/
def Shown (marks : Nat → Mark) (buffer : Nat → BitVec 16) : Prop :=
  ∀ i < VGA_WIDTH * VGA_HEIGHT, buffer i = cell (marks i).glyph (marks i).color

structure Agrees (p : Painted) : Prop where
  screen : OnScreen p.console
  shown : Shown p.marks p.console.vgaBuffer

variable {p : Painted} {s : Console} {marks : Nat → Mark}

theorem Shown.update {buffer : Nat → BitVec 16} (shown : Shown marks buffer) (index : Nat)
    (c color : Byte) :
    Shown (Function.update marks index ⟨c, color⟩) (Function.update buffer index (cell c color)) := by
  intro i inside
  by_cases here : i = index
  · rw [here, Function.update_self, Function.update_self]
  · rw [Function.update_of_ne here, Function.update_of_ne here]
    exact shown i inside

theorem Shown.typeChar (shown : Shown marks s.vgaBuffer) (c : Byte) :
    Shown (typeMarks c s marks) (typeChar c s).vgaBuffer := by
  unfold typeMarks Vga.typeChar
  by_cases feed : c = 0x0A
  · rw [if_pos feed, if_pos (Or.inl feed)]
    exact shown
  · rw [if_neg feed]
    by_cases start : c = 0x0D
    · rw [if_pos start, if_pos (Or.inr (Or.inl start))]
      exact shown
    · rw [if_neg start]
      by_cases tab : c = 0x09
      · rw [if_pos tab, if_pos (Or.inr (Or.inr tab))]
        exact shown
      · rw [if_neg tab, if_neg (not_or.mpr ⟨feed, not_or.mpr ⟨start, tab⟩⟩)]
        by_cases back : c = 0x08
        · rw [if_pos back, if_pos back]
          by_cases moves : 0 < s.cursorX
          · rw [if_pos moves, if_pos moves]
            exact shown.update _ space s.vgaColor
          · rw [if_neg moves, if_neg moves]
            exact shown
        · rw [if_neg back, if_neg back]
          exact shown.update _ c s.vgaColor

theorem Shown.scroll (shown : Shown marks s.vgaBuffer) :
    Shown (scrollMarks s.vgaColor marks) (vgaScroll s).vgaBuffer := by
  intro i inside
  have rows : i < 25 * 80 := inside
  have moved : scrollMarks s.vgaColor marks i =
      if i < 24 * 80 then marks (i + 80) else ⟨space, s.vgaColor⟩ := rfl
  rw [vgaScroll_spec s i rows, moved]
  by_cases above : i < 24 * 80
  · have below : i + 80 < 80 * 25 := by omega
    rw [if_pos above, if_pos above]
    exact shown (i + 80) below
  · rw [if_neg above, if_neg above]

theorem Agrees.putchar (agrees : Agrees p) (c : Byte) : Agrees (p.putchar c) := by
  have typed : Shown (typeMarks c p.console p.marks) (wrapLine (typeChar c p.console)).vgaBuffer := by
    rw [wrapLine_vgaBuffer]
    exact agrees.shown.typeChar c
  refine ⟨agrees.screen.putchar c, ?_⟩
  change Shown (if VGA_HEIGHT ≤ _ then _ else _) (vgaPutchar c p.console).vgaBuffer
  rw [vgaPutchar, vgaMoveCursor_vgaBuffer, keepInside]
  by_cases low : VGA_HEIGHT ≤ (wrapLine (typeChar c p.console)).cursorY.toNat
  · have color : (wrapLine (typeChar c p.console)).vgaColor = p.console.vgaColor :=
      (wrapLine_vgaColor _).trans (typeChar_vgaColor _ c)
    rw [if_pos low, if_pos low, ← color]
    exact typed.scroll
  · rw [if_neg low, if_neg low]
    exact typed

theorem Agrees.call (agrees : Agrees p) (op : Call) : Agrees (p.call op) := by
  cases op with
  | vgaPutchar c => exact agrees.putchar c
  | vgaSetcolor color => exact ⟨⟨agrees.screen.column, agrees.screen.row⟩, agrees.shown⟩

theorem agrees_init (s : Console) : Agrees (Painted.init s) :=
  ⟨onScreen_init s, fun i inside => vgaClear_spec _ i inside⟩

theorem run_agrees (s : Console) (calls : List Call) : Agrees (run s calls) := by
  have kept : ∀ (rest : List Call) (p : Painted), Agrees p → Agrees (rest.foldl Painted.call p) := by
    intro rest
    induction rest with
    | nil => exact fun _ agrees => agrees
    | cons op rest ih => exact fun p agrees => ih (p.call op) (agrees.call op)
  exact kept calls _ (agrees_init s)

/-! The colour survives exactly below 0x80. -/

/-- The mark of a cell that shows its colour. -/
def Plain (mark : Mark) : Prop := mark.glyph.toNat < 128 ∨ mark.color = 0xFF

instance (mark : Mark) : Decidable (Plain mark) := inferInstanceAs (Decidable (_ ∨ _))

theorem Agrees.coloured_iff (agrees : Agrees p) :
    Coloured p ↔ ∀ i < VGA_WIDTH * VGA_HEIGHT, Plain (p.marks i) := by
  apply forall₂_congr
  intro i inside
  rw [agrees.shown i inside, cell_low, cell_high, and_iff_left rfl, Plain]
  by_cases ascii : (p.marks i).glyph.toNat < 128
  · rw [if_pos ascii]
    exact iff_of_true rfl (Or.inl ascii)
  · rw [if_neg ascii, or_iff_right ascii]
    exact eq_comm

/-- A mark after a step is one from before, a blank or the one of the character. -/
theorem plain_putchar (plain : ∀ i, Plain (p.marks i)) {c : Byte}
    (typed : Plain ⟨c, p.console.vgaColor⟩) (i : Nat) : Plain ((p.putchar c).marks i) := by
  have blank : Plain ⟨space, p.console.vgaColor⟩ := Or.inl (show space.toNat < 128 by decide)
  have updated : ∀ (index : Nat) (mark : Mark), Plain mark →
      ∀ k, Plain (Function.update p.marks index mark k) := by
    intro index mark fine k
    by_cases here : k = index
    · rw [here, Function.update_self]
      exact fine
    · rw [Function.update_of_ne here]
      exact plain k
  have marked : ∀ k, Plain (typeMarks c p.console p.marks k) := by
    intro k
    unfold typeMarks
    split_ifs
    · exact plain k
    · exact updated _ _ blank k
    · exact plain k
    · exact updated _ _ typed k
  change Plain ((if VGA_HEIGHT ≤ _ then _ else _ : Nat → Mark) i)
  split_ifs
  · unfold scrollMarks
    split_ifs
    · exact marked _
    · exact blank
  · exact marked i

/-- A glyph is on the screen once it has been typed, even when its row has been scrolled. -/
theorem typed_mark (screen : OnScreen p.console) {c : Byte} (high : 128 ≤ c.toNat) :
    ∃ i < VGA_WIDTH * VGA_HEIGHT, (p.putchar c).marks i = ⟨c, p.console.vgaColor⟩ := by
  have column : p.console.cursorX.toNat < 80 := screen.column
  have row : p.console.cursorY.toNat < 25 := screen.row
  have other : ∀ d : Byte, d.toNat < 128 → c ≠ d := by
    rintro d small rfl
    omega
  have feed := other 0x0A (by decide)
  have start := other 0x0D (by decide)
  have tab := other 0x09 (by decide)
  have back := other 0x08 (by decide)
  have marks : typeMarks c p.console p.marks =
      Function.update p.marks (cursorIndex p.console) ⟨c, p.console.vgaColor⟩ := by
    rw [typeMarks, if_neg (not_or.mpr ⟨feed, not_or.mpr ⟨start, tab⟩⟩), if_neg back]
  have place : cursorIndex p.console = p.console.cursorY.toNat * 80 + p.console.cursorX.toNat := rfl
  have after : (p.putchar c).marks =
      if VGA_HEIGHT ≤ (wrapLine (typeChar c p.console)).cursorY.toNat then
        scrollMarks p.console.vgaColor (typeMarks c p.console p.marks)
      else typeMarks c p.console p.marks := rfl
  have inside : cursorIndex p.console < VGA_WIDTH * VGA_HEIGHT := by
    change _ < 80 * 25
    omega
  rw [after, marks]
  by_cases low : VGA_HEIGHT ≤ (wrapLine (typeChar c p.console)).cursorY.toNat
  · have bottom : p.console.cursorY.toNat = 24 := by
      rw [typeChar, if_neg feed, if_neg start, if_neg tab, if_neg back, wrapLine] at low
      have next : (p.console.cursorY + 1).toNat = p.console.cursorY.toNat + 1 := by bv_omega
      have reached : 25 ≤ p.console.cursorY.toNat + 1 := by
        split_ifs at low
        · rw [← next]
          exact low
        · exact Nat.le_succ_of_le low
      omega
    refine ⟨cursorIndex p.console - 80, by omega, ?_⟩
    have moved : cursorIndex p.console - 80 + VGA_WIDTH = cursorIndex p.console := by
      change cursorIndex p.console - 80 + 80 = _
      omega
    have above : cursorIndex p.console - 80 < (VGA_HEIGHT - 1) * VGA_WIDTH := by
      change _ < 24 * 80
      omega
    rw [if_pos low, scrollMarks, if_pos above, moved, Function.update_self]
  · refine ⟨cursorIndex p.console, inside, ?_⟩
    rw [if_neg low, Function.update_self]

theorem run_snoc (s : Console) (calls : List Call) (op : Call) :
    run s (calls ++ [op]) = (run s calls).call op := by
  rw [run, List.foldl_append]
  rfl

/-- After vga_init and any calls every cell shows the colour and the character it was last written
with, exactly when every byte from 0x80 on was typed in the colour 0xFF. -/
theorem run_coloured_iff (s : Console) (calls : List Call) :
    (∀ before, before <+: calls → Coloured (run s before)) ↔
      ∀ before c, before ++ [.vgaPutchar c] <+: calls →
        c.toNat < 128 ∨ (run s before).console.vgaColor = 0xFF := by
  constructor
  · intro coloured before c part
    have agrees := run_agrees s before
    have shown := ((run_agrees s _).coloured_iff).mp (coloured _ part)
    rw [run_snoc] at shown
    by_contra neither
    obtain ⟨high, other⟩ := not_or.mp neither
    obtain ⟨i, inside, mark⟩ := typed_mark agrees.screen (Nat.not_lt.mp high)
    have plain : Plain ((run s before).putchar c |>.marks i) := shown i inside
    rw [mark] at plain
    exact plain.elim high other
  · intro typed before part
    have plain : ∀ i, Plain ((run s before).marks i) := by
      induction before using List.reverseRecOn with
      | nil => exact fun _ => Or.inl (show space.toNat < 128 by decide)
      | append_singleton before op ih =>
        have earlier := ih ((List.prefix_append before [op]).trans part)
        rw [run_snoc]
        cases op with
        | vgaPutchar c => exact plain_putchar earlier (typed before c part)
        | vgaSetcolor color => exact earlier
    exact (run_agrees s before).coloured_iff.mpr fun i _ => plain i

/-- 0xC4 in the colour of vga_init comes out in 0xFF. -/
theorem run_not_coloured :
    ¬∀ (s : Console) (calls : List Call), Coloured (run s calls) := by
  intro claim
  let s : Console := ⟨0, fun _ => 0, 0, 0, []⟩
  have shown := (run_agrees s [.vgaPutchar 0xC4]).coloured_iff.mp (claim s _)
  obtain ⟨i, inside, mark⟩ := typed_mark (agrees_init s).screen (show 128 ≤ (0xC4 : Byte).toNat by decide)
  have plain : Plain (((Painted.init s).putchar 0xC4).marks i) := shown i inside
  rw [mark] at plain
  exact absurd plain (by decide)

end Vaelen.Kernel.VgaColours
