import Vaelen.Base.Memory

/-!
The text console of vga.c: the words of video memory from VGA_MEMORY on, the cursor, and
the bytes sent to the ports of the cursor registers.
-/

namespace Vaelen.Kernel.Vga
open Vaelen.Base

abbrev VGA_WIDTH : Nat := 80
abbrev VGA_HEIGHT : Nat := 25

/-- The static variables of vga.c; `outputs` are the port writes so far, the last one first. -/
structure Console where
  vgaColor : Byte
  vgaBuffer : Nat → BitVec 16
  cursorX : Byte
  cursorY : Byte
  outputs : List (BitVec 16 × Byte)

/-- `(uint16_t)c | (uint16_t)color << 8`; char is signed. -/
def cell (c color : Byte) : BitVec 16 := c.signExtend 16 ||| color.setWidth 16 <<< 8

def space : Byte := 0x20

def outb (port : BitVec 16) (value : Byte) (s : Console) : Console :=
  { s with outputs := (port, value) :: s.outputs }

def vgaMoveCursor (x y : Byte) (s : Console) : Console :=
  let pos : BitVec 16 := y.setWidth 16 * BitVec.ofNat 16 VGA_WIDTH + x.setWidth 16
  let s := outb 0x3D4 14 s
  let s := outb 0x3D5 ((pos >>> 8) &&& 0xFF |>.setWidth 8) s
  let s := outb 0x3D4 15 s
  outb 0x3D5 (pos &&& 0xFF |>.setWidth 8) s

/-- The inner loop of vga_clear, and the last loop of vga_scroll: blanks from `base` on. -/
def blankRow (color : Byte) (buffer : Nat → BitVec 16) (base : Nat) : Nat → BitVec 16 :=
  (List.range VGA_WIDTH).foldl
    (fun buffer x => Function.update buffer (base + x) (cell space color)) buffer

def vgaClear (s : Console) : Console :=
  let buffer := (List.range VGA_HEIGHT).foldl
    (fun buffer y => blankRow s.vgaColor buffer (y * VGA_WIDTH)) s.vgaBuffer
  vgaMoveCursor 0 0 { s with vgaBuffer := buffer, cursorX := 0, cursorY := 0 }

def vgaInit (s : Console) : Console :=
  vgaClear { s with cursorX := 0, cursorY := 0, vgaColor := 0x07 }

def vgaSetcolor (color : Byte) (s : Console) : Console := { s with vgaColor := color }

/-- The inner loop of vga_scroll: row `y` moves up by one. -/
def copyRow (buffer : Nat → BitVec 16) (y : Nat) : Nat → BitVec 16 :=
  (List.range VGA_WIDTH).foldl
    (fun buffer x => Function.update buffer ((y - 1) * VGA_WIDTH + x) (buffer (y * VGA_WIDTH + x)))
    buffer

def vgaScroll (s : Console) : Console :=
  let buffer := (List.range' 1 (VGA_HEIGHT - 1)).foldl copyRow s.vgaBuffer
  { s with vgaBuffer := blankRow s.vgaColor buffer ((VGA_HEIGHT - 1) * VGA_WIDTH) }

def cursorIndex (s : Console) : Nat := s.cursorY.toNat * VGA_WIDTH + s.cursorX.toNat

/-- A store at the cursor. -/
def draw (word : BitVec 16) (s : Console) : Console :=
  { s with vgaBuffer := Function.update s.vgaBuffer (cursorIndex s) word }

/-- The cases of vga_putchar by the character. -/
def typeChar (c : Byte) (s : Console) : Console :=
  if c = 0x0A then { s with cursorX := 0, cursorY := s.cursorY + 1 }
  else if c = 0x0D then { s with cursorX := 0 }
  else if c = 0x09 then { s with cursorX := (s.cursorX + 8) &&& ~~~7 }
  else if c = 0x08 then
    if 0 < s.cursorX then
      let s := { s with cursorX := s.cursorX - 1 }
      draw (cell space s.vgaColor) s
    else s
  else
    let s := draw (cell c s.vgaColor) s
    { s with cursorX := s.cursorX + 1 }

def wrapLine (s : Console) : Console :=
  if VGA_WIDTH ≤ s.cursorX.toNat then { s with cursorX := 0, cursorY := s.cursorY + 1 } else s

def keepInside (s : Console) : Console :=
  if VGA_HEIGHT ≤ s.cursorY.toNat then
    { vgaScroll s with cursorY := BitVec.ofNat 8 (VGA_HEIGHT - 1) }
  else s

def vgaPutchar (c : Byte) (s : Console) : Console :=
  let s := keepInside (wrapLine (typeChar c s))
  vgaMoveCursor s.cursorX s.cursorY s

/-- vga_write, and vga_puts up to the terminating zero. -/
def vgaWrite (data : List Byte) (s : Console) : Console :=
  data.foldl (fun s c => vgaPutchar c s) s

/-! The port writes touch neither the screen nor the cursor. -/

variable (s : Console) (x y : Byte)

@[simp] theorem vgaMoveCursor_vgaColor : (vgaMoveCursor x y s).vgaColor = s.vgaColor := rfl
@[simp] theorem vgaMoveCursor_vgaBuffer : (vgaMoveCursor x y s).vgaBuffer = s.vgaBuffer := rfl
@[simp] theorem vgaMoveCursor_cursorX : (vgaMoveCursor x y s).cursorX = s.cursorX := rfl
@[simp] theorem vgaMoveCursor_cursorY : (vgaMoveCursor x y s).cursorY = s.cursorY := rfl

/-! The cases of vga_putchar leave the colour alone, and the wrap the screen. -/

theorem typeChar_vgaColor (c : Byte) : (typeChar c s).vgaColor = s.vgaColor := by
  unfold typeChar
  split_ifs <;> rfl

theorem wrapLine_vgaColor : (wrapLine s).vgaColor = s.vgaColor := by
  unfold wrapLine
  split <;> rfl

theorem wrapLine_vgaBuffer : (wrapLine s).vgaBuffer = s.vgaBuffer := by
  unfold wrapLine
  split <;> rfl

theorem keepInside_vgaColor : (keepInside s).vgaColor = s.vgaColor := by
  unfold keepInside
  split <;> rfl

theorem vgaPutchar_vgaColor (c : Byte) : (vgaPutchar c s).vgaColor = s.vgaColor := by
  calc (vgaPutchar c s).vgaColor
    _ = (keepInside (wrapLine (typeChar c s))).vgaColor := vgaMoveCursor_vgaColor _ _ _
    _ = (wrapLine (typeChar c s)).vgaColor := keepInside_vgaColor _
    _ = (typeChar c s).vgaColor := wrapLine_vgaColor _
    _ = s.vgaColor := typeChar_vgaColor s c

/-! The loops, slot by slot. -/

variable (color : Byte) (buffer : Nat → BitVec 16)

theorem blanks_spec (base count i : Nat) :
    (List.range count).foldl
      (fun buffer x => Function.update buffer (base + x) (cell space color)) buffer i =
      if base ≤ i ∧ i < base + count then cell space color else buffer i := by
  induction count with
  | zero =>
    have outside : ¬(base ≤ i ∧ i < base + 0) := by omega
    rw [if_neg outside]
    rfl
  | succ count ih =>
    rw [List.range_succ, List.foldl_append, List.foldl_cons, List.foldl_nil]
    by_cases last : i = base + count
    · rw [last, Function.update_self, if_pos (by omega)]
    · rw [Function.update_of_ne last, ih]
      have same : base ≤ i ∧ i < base + count ↔ base ≤ i ∧ i < base + (count + 1) := by omega
      simp only [same]

theorem blankRow_spec (base i : Nat) :
    blankRow color buffer base i =
      if base ≤ i ∧ i < base + 80 then cell space color else buffer i :=
  blanks_spec color buffer base 80 i

theorem clear_spec (rows i : Nat) :
    (List.range rows).foldl (fun buffer y => blankRow color buffer (y * 80)) buffer i =
      if i < rows * 80 then cell space color else buffer i := by
  induction rows with
  | zero => simp
  | succ rows ih =>
    rw [List.range_succ, List.foldl_append, List.foldl_cons, List.foldl_nil, blankRow_spec, ih]
    by_cases inside : i < (rows + 1) * 80
    · rw [if_pos inside]
      by_cases early : i < rows * 80
      · rw [if_pos early, ite_self]
      · rw [if_pos (by omega)]
    · rw [if_neg inside, if_neg (by omega), if_neg (by omega)]

theorem copies_spec (y count i : Nat) (small : count ≤ 80) :
    (List.range count).foldl
      (fun buffer x => Function.update buffer (y * 80 + x) (buffer ((y + 1) * 80 + x))) buffer i =
      if y * 80 ≤ i ∧ i < y * 80 + count then buffer (i + 80) else buffer i := by
  induction count generalizing i with
  | zero =>
    have outside : ¬(y * 80 ≤ i ∧ i < y * 80 + 0) := by omega
    rw [if_neg outside]
    rfl
  | succ count ih =>
    rw [List.range_succ, List.foldl_append, List.foldl_cons, List.foldl_nil]
    by_cases last : i = y * 80 + count
    · -- The row below has not been written by this loop.
      have source : i + 80 = (y + 1) * 80 + count := by omega
      rw [if_pos (by omega), source, last, Function.update_self, ih _ (by omega),
        if_neg (by omega)]
    · rw [Function.update_of_ne last, ih _ (by omega)]
      have same : y * 80 ≤ i ∧ i < y * 80 + count ↔ y * 80 ≤ i ∧ i < y * 80 + (count + 1) := by omega
      simp only [same]

theorem copyRow_spec (y i : Nat) :
    copyRow buffer (y + 1) i =
      if y * 80 ≤ i ∧ i < (y + 1) * 80 then buffer (i + 80) else buffer i := by
  have copied := copies_spec buffer y 80 i (Nat.le_refl _)
  rw [← Nat.succ_mul] at copied
  exact copied

theorem scroll_spec (rows i : Nat) :
    (List.range' 1 rows).foldl copyRow buffer i =
      if i < rows * 80 then buffer (i + 80) else buffer i := by
  induction rows generalizing i with
  | zero => simp
  | succ rows ih =>
    have next : 1 + 1 * rows = rows + 1 := by omega
    rw [List.range'_concat, List.foldl_append, List.foldl_cons, List.foldl_nil, next, copyRow_spec]
    by_cases here : rows * 80 ≤ i ∧ i < (rows + 1) * 80
    · rw [if_pos here, if_pos here.2, ih, if_neg (by omega)]
    · rw [if_neg here, ih]
      by_cases early : i < rows * 80
      · rw [if_pos early, if_pos (by omega)]
      · rw [if_neg early, if_neg (by omega)]

/-- vga_scroll moves every row up by one and blanks the last one. -/
theorem vgaScroll_spec (i : Nat) (inside : i < 25 * 80) :
    (vgaScroll s).vgaBuffer i =
      if i < 24 * 80 then s.vgaBuffer (i + 80) else cell space s.vgaColor := by
  have rows := scroll_spec s.vgaBuffer 24 i
  change blankRow s.vgaColor ((List.range' 1 24).foldl copyRow s.vgaBuffer) (24 * 80) i = _
  rw [blankRow_spec, rows]
  by_cases early : i < 24 * 80
  · rw [if_neg (by omega), if_pos early, if_pos early]
  · rw [if_pos (by omega), if_neg early]

theorem vgaClear_spec (i : Nat) (inside : i < 25 * 80) :
    (vgaClear s).vgaBuffer i = cell space s.vgaColor := by
  have cleared := clear_spec s.vgaColor s.vgaBuffer 25 i
  rw [if_pos inside] at cleared
  exact cleared

end Vaelen.Kernel.Vga
