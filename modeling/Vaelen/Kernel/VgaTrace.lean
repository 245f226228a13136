import Vaelen.Kernel.Vga

/-!
The console with every access to vga_buffer and every value that is narrowed to one of the two
cursor bytes. No sequence of calls after vga_init leaves the screen or wraps a cursor.
-/

namespace Vaelen.Kernel.VgaTrace
open Vaelen.Base Vga

/-- An index of vga_buffer that is read or written, or the exact value stored in a cursor byte. -/
inductive Event where
  | read (index : Nat)
  | write (index : Nat)
  | cursor (value : Int)

def Event.InRange : Event → Prop
  | .read index => index < VGA_WIDTH * VGA_HEIGHT
  | .write index => index < VGA_WIDTH * VGA_HEIGHT
  | .cursor value => 0 ≤ value ∧ value < 2 ^ 8

/-- The console and the events so far, the last one first. -/
structure Trace where
  console : Console
  events : List Event

namespace Trace

def load (index : Nat) (trace : Trace) : BitVec 16 × Trace :=
  (trace.console.vgaBuffer index, { trace with events := .read index :: trace.events })

def store (index : Nat) (word : BitVec 16) (trace : Trace) : Trace :=
  { console :=
      { trace.console with vgaBuffer := Function.update trace.console.vgaBuffer index word }
    events := .write index :: trace.events }

def setCursorX (value : Int) (trace : Trace) : Trace :=
  { console := { trace.console with cursorX := BitVec.ofInt 8 value }
    events := .cursor value :: trace.events }

def setCursorY (value : Int) (trace : Trace) : Trace :=
  { console := { trace.console with cursorY := BitVec.ofInt 8 value }
    events := .cursor value :: trace.events }

def moveCursor (x y : Byte) (trace : Trace) : Trace :=
  { trace with console := vgaMoveCursor x y trace.console }

def blankRow (base : Nat) (trace : Trace) : Trace :=
  (List.range VGA_WIDTH).foldl
    (fun trace x => trace.store (base + x) (cell space trace.console.vgaColor)) trace

def clear (trace : Trace) : Trace :=
  let trace := (List.range VGA_HEIGHT).foldl (fun trace y => trace.blankRow (y * VGA_WIDTH)) trace
  ((trace.setCursorX 0).setCursorY 0).moveCursor 0 0

def setcolor (color : Byte) (trace : Trace) : Trace :=
  { trace with console := vgaSetcolor color trace.console }

def init (trace : Trace) : Trace :=
  (((trace.setCursorX 0).setCursorY 0).setcolor 0x07).clear

def copyCell (dest src : Nat) (trace : Trace) : Trace :=
  let (word, trace) := trace.load src
  trace.store dest word

def copyRow (trace : Trace) (y : Nat) : Trace :=
  (List.range VGA_WIDTH).foldl
    (fun trace x => trace.copyCell ((y - 1) * VGA_WIDTH + x) (y * VGA_WIDTH + x)) trace

def scroll (trace : Trace) : Trace :=
  ((List.range' 1 (VGA_HEIGHT - 1)).foldl copyRow trace).blankRow ((VGA_HEIGHT - 1) * VGA_WIDTH)

def draw (word : BitVec 16) (trace : Trace) : Trace := trace.store (cursorIndex trace.console) word

/-- The sums are those of int; `& ~7` acts on all 32 bits of it. -/
def typeChar (c : Byte) (trace : Trace) : Trace :=
  let s := trace.console
  if c = 0x0A then (trace.setCursorX 0).setCursorY (s.cursorY.toNat + 1)
  else if c = 0x0D then trace.setCursorX 0
  else if c = 0x09 then
    trace.setCursorX ((s.cursorX.setWidth 32 + 8) &&& ~~~7 : BitVec 32).toInt
  else if c = 0x08 then
    if 0 < s.cursorX then
      let trace := trace.setCursorX (s.cursorX.toNat - 1)
      trace.draw (cell space s.vgaColor)
    else trace
  else
    let trace := trace.draw (cell c s.vgaColor)
    trace.setCursorX (s.cursorX.toNat + 1)

def wrapLine (trace : Trace) : Trace :=
  if VGA_WIDTH ≤ trace.console.cursorX.toNat then
    (trace.setCursorX 0).setCursorY (trace.console.cursorY.toNat + 1)
  else trace

def keepInside (trace : Trace) : Trace :=
  if VGA_HEIGHT ≤ trace.console.cursorY.toNat then trace.scroll.setCursorY (VGA_HEIGHT - 1)
  else trace

def putchar (c : Byte) (trace : Trace) : Trace :=
  let trace := ((trace.typeChar c).wrapLine).keepInside
  trace.moveCursor trace.console.cursorX trace.console.cursorY

def write (data : List Byte) (trace : Trace) : Trace :=
  data.foldl (fun trace c => trace.putchar c) trace

end Trace

inductive Call where
  | vgaPutchar (c : Byte)
  | vgaWrite (data : List Byte)
  | vgaPuts (str : List Byte)
  | vgaSetcolor (color : Byte)
  | vgaClear

/-- A string ends before its first zero. -/
def call (s : Console) : Call → Console
  | .vgaPutchar c => vgaPutchar c s
  | .vgaWrite data => vgaWrite data s
  | .vgaPuts str => vgaWrite (str.takeWhile (· ≠ 0)) s
  | .vgaSetcolor color => vgaSetcolor color s
  | .vgaClear => vgaClear s

def Trace.call (trace : Trace) : Call → Trace
  | .vgaPutchar c => trace.putchar c
  | .vgaWrite data => trace.write data
  | .vgaPuts str => trace.write (str.takeWhile (· ≠ 0))
  | .vgaSetcolor color => trace.setcolor color
  | .vgaClear => trace.clear

/-- vga_init on any former console, and the calls after it. -/
def run (s : Console) (calls : List Call) : Trace :=
  calls.foldl Trace.call (Trace.init { console := s, events := [] })

/-! Without its events a trace is the console itself. -/

variable (trace : Trace)

theorem foldl_console {α : Type} {step : Trace → α → Trace} (plain : Console → α → Console)
    (same : ∀ trace item, (step trace item).console = plain trace.console item) (items : List α) :
    (items.foldl step trace).console = items.foldl plain trace.console := by
  induction items generalizing trace with
  | nil => rfl
  | cons item rest ih => rw [List.foldl_cons, ih, same, List.foldl_cons]

/-- A loop that only stores to vga_buffer changes nothing else. -/
theorem foldl_vgaBuffer {α : Type} (step : Byte → (Nat → BitVec 16) → α → Nat → BitVec 16)
    (items : List α) (s : Console) :
    items.foldl (fun s item => { s with vgaBuffer := step s.vgaColor s.vgaBuffer item }) s =
      { s with vgaBuffer := items.foldl (step s.vgaColor) s.vgaBuffer } := by
  induction items generalizing s with
  | nil => rfl
  | cons item rest ih => rw [List.foldl_cons, ih, List.foldl_cons]

theorem blankRow_console (base : Nat) :
    (trace.blankRow base).console =
      { trace.console with
        vgaBuffer := Vga.blankRow trace.console.vgaColor trace.console.vgaBuffer base } := by
  unfold Trace.blankRow
  rw [foldl_console trace (fun s x => { s with
    vgaBuffer := Function.update s.vgaBuffer (base + x) (cell space s.vgaColor) }) fun _ _ => rfl]
  exact foldl_vgaBuffer (fun color buffer x => Function.update buffer (base + x) (cell space color)) _ _

theorem copyRow_console (y : Nat) :
    (trace.copyRow y).console =
      { trace.console with vgaBuffer := Vga.copyRow trace.console.vgaBuffer y } := by
  unfold Trace.copyRow
  rw [foldl_console trace (fun s x => { s with
    vgaBuffer :=
      Function.update s.vgaBuffer ((y - 1) * VGA_WIDTH + x) (s.vgaBuffer (y * VGA_WIDTH + x)) })
    fun _ _ => rfl]
  exact foldl_vgaBuffer (fun _ buffer x =>
    Function.update buffer ((y - 1) * VGA_WIDTH + x) (buffer (y * VGA_WIDTH + x))) _ _

theorem clearRows_console (rows : Nat) :
    ((List.range rows).foldl (fun trace y => trace.blankRow (y * VGA_WIDTH)) trace).console =
      { trace.console with
        vgaBuffer := (List.range rows).foldl
          (fun buffer y => Vga.blankRow trace.console.vgaColor buffer (y * VGA_WIDTH))
          trace.console.vgaBuffer } := by
  rw [foldl_console trace (fun s y => { s with
    vgaBuffer := Vga.blankRow s.vgaColor s.vgaBuffer (y * VGA_WIDTH) })
    fun trace y => blankRow_console trace (y * VGA_WIDTH)]
  exact foldl_vgaBuffer (fun color buffer y => Vga.blankRow color buffer (y * VGA_WIDTH)) _ _

theorem clear_console : trace.clear.console = vgaClear trace.console := by
  have rows := clearRows_console trace VGA_HEIGHT
  unfold Trace.clear vgaClear
  simp only [Trace.moveCursor, Trace.setCursorX, Trace.setCursorY, rows]
  rfl

theorem copyRows_console (ys : List Nat) :
    (ys.foldl Trace.copyRow trace).console =
      { trace.console with vgaBuffer := ys.foldl Vga.copyRow trace.console.vgaBuffer } := by
  rw [foldl_console trace (fun s y => { s with vgaBuffer := Vga.copyRow s.vgaBuffer y })
    copyRow_console]
  exact foldl_vgaBuffer (fun _ buffer y => Vga.copyRow buffer y) _ _

theorem scroll_console : trace.scroll.console = vgaScroll trace.console := by
  rw [Trace.scroll, blankRow_console, copyRows_console]
  rfl

theorem ofInt_succ (x : Byte) : BitVec.ofInt 8 ((x.toNat : Int) + 1) = x + 1 := by
  apply BitVec.eq_of_toNat_eq
  rw [BitVec.toNat_ofInt, BitVec.toNat_add]
  have bound := x.isLt
  change _ = (x.toNat + 1) % 256
  omega

theorem ofInt_pred (x : Byte) : BitVec.ofInt 8 ((x.toNat : Int) - 1) = x - 1 := by
  apply BitVec.eq_of_toNat_eq
  rw [BitVec.toNat_ofInt, BitVec.toNat_sub]
  have bound := x.isLt
  change _ = (256 - 1 + x.toNat) % 256
  omega

/-- The tab stop in int, narrowed to the byte. -/
theorem ofInt_tab (x : Byte) :
    BitVec.ofInt 8 ((x.setWidth 32 + 8) &&& ~~~7 : BitVec 32).toInt = (x + 8) &&& ~~~7 := by
  have stops : ∀ n : Fin 256,
      BitVec.ofInt 8 (((BitVec.ofNat 8 n).setWidth 32 + 8) &&& ~~~7 : BitVec 32).toInt =
        ((BitVec.ofNat 8 n + 8) &&& ~~~7 : Byte) := by decide +kernel
  have same : BitVec.ofNat 8 x.toNat = x := by rw [BitVec.ofNat_toNat, BitVec.setWidth_eq]
  have stop := stops ⟨x.toNat, x.isLt⟩
  rwa [same] at stop

theorem tab_inside (x : Byte) (inside : x.toNat < 80) :
    0 ≤ ((x.setWidth 32 + 8) &&& ~~~7 : BitVec 32).toInt ∧
      ((x.setWidth 32 + 8) &&& ~~~7 : BitVec 32).toInt ≤ 80 := by
  have stops : ∀ n : Fin 80,
      0 ≤ (((BitVec.ofNat 8 n).setWidth 32 + 8) &&& ~~~7 : BitVec 32).toInt ∧
        (((BitVec.ofNat 8 n).setWidth 32 + 8) &&& ~~~7 : BitVec 32).toInt ≤ 80 := by decide +kernel
  have same : BitVec.ofNat 8 x.toNat = x := by rw [BitVec.ofNat_toNat, BitVec.setWidth_eq]
  have stop := stops ⟨x.toNat, inside⟩
  rwa [same] at stop

theorem typeChar_console (c : Byte) : (trace.typeChar c).console = typeChar c trace.console := by
  unfold Trace.typeChar typeChar
  by_cases feed : c = 0x0A
  · rw [if_pos feed, if_pos feed, ← ofInt_succ]
    rfl
  · rw [if_neg feed, if_neg feed]
    by_cases start : c = 0x0D
    · rw [if_pos start, if_pos start]
      rfl
    · rw [if_neg start, if_neg start]
      by_cases tab : c = 0x09
      · rw [if_pos tab, if_pos tab, ← ofInt_tab]
        rfl
      · rw [if_neg tab, if_neg tab]
        by_cases back : c = 0x08
        · rw [if_pos back, if_pos back]
          by_cases moves : 0 < trace.console.cursorX
          · rw [if_pos moves, if_pos moves, ← ofInt_pred]
            rfl
          · rw [if_neg moves, if_neg moves]
        · rw [if_neg back, if_neg back]
          change _ = { draw (cell c trace.console.vgaColor) trace.console with
            cursorX := trace.console.cursorX + 1 }
          rw [← ofInt_succ]
          rfl

theorem wrapLine_console : trace.wrapLine.console = wrapLine trace.console := by
  unfold Trace.wrapLine wrapLine
  by_cases wide : VGA_WIDTH ≤ trace.console.cursorX.toNat
  · rw [if_pos wide, if_pos wide, ← ofInt_succ]
    rfl
  · rw [if_neg wide, if_neg wide]

theorem keepInside_console : trace.keepInside.console = keepInside trace.console := by
  unfold Trace.keepInside keepInside
  by_cases low : VGA_HEIGHT ≤ trace.console.cursorY.toNat
  · rw [if_pos low, if_pos low, ← scroll_console]
    rfl
  · rw [if_neg low, if_neg low]

theorem putchar_console (c : Byte) : (trace.putchar c).console = vgaPutchar c trace.console := by
  unfold Trace.putchar vgaPutchar
  rw [← typeChar_console, ← wrapLine_console, ← keepInside_console]
  rfl

theorem call_console (op : Call) : (trace.call op).console = call trace.console op := by
  have written : ∀ data : List Byte, (trace.write data).console = vgaWrite data trace.console :=
    fun data => foldl_console trace (fun s c => vgaPutchar c s) (fun trace c => putchar_console trace c)
      data
  cases op with
  | vgaPutchar c => exact putchar_console trace c
  | vgaWrite data => exact written data
  | vgaPuts str => exact written _
  | vgaSetcolor color => rfl
  | vgaClear => exact clear_console trace

theorem run_console (s : Console) (calls : List Call) :
    (run s calls).console = calls.foldl call (vgaInit s) := by
  have started : (Trace.init { console := s, events := [] }).console = vgaInit s :=
    (clear_console _).trans rfl
  rw [run, foldl_console _ call call_console, started]

/-! Nothing leaves the screen. -/

/-- A cursor within these bounds, after events that are all in range. -/
structure Inside (width height : Nat) (trace : Trace) : Prop where
  cursorX : trace.console.cursorX.toNat < width
  cursorY : trace.console.cursorY.toNat < height
  events : ∀ event ∈ trace.events, event.InRange

variable {trace} {width height : Nat}

theorem events_cons {event : Event} {events : List Event} (inRange : event.InRange)
    (before : ∀ event ∈ events, event.InRange) : ∀ other ∈ event :: events, other.InRange := by
  intro other member
  rcases List.mem_cons.mp member with rfl | old
  · exact inRange
  · exact before other old

theorem Inside.store (inside : Inside width height trace) {index : Nat} (bound : index < 2000)
    (word : BitVec 16) : Inside width height (trace.store index word) :=
  ⟨inside.cursorX, inside.cursorY, events_cons bound inside.events⟩

theorem Inside.copyCell (inside : Inside width height trace) {dest src : Nat} (into : dest < 2000)
    (source : src < 2000) : Inside width height (trace.copyCell dest src) :=
  ⟨inside.cursorX, inside.cursorY, events_cons into (events_cons source inside.events)⟩

theorem Inside.foldl {α : Type} {step : Trace → α → Trace} {items : List α}
    (inside : Inside width height trace)
    (kept : ∀ trace, ∀ item ∈ items, Inside width height trace → Inside width height (step trace item)) :
    Inside width height (items.foldl step trace) := by
  induction items generalizing trace with
  | nil => exact inside
  | cons item rest ih =>
    apply ih (kept trace item List.mem_cons_self inside)
    exact fun trace other member => kept trace other (List.mem_cons_of_mem item member)

theorem Inside.blankRow (inside : Inside width height trace) {base : Nat} (fits : base + 80 ≤ 2000) :
    Inside width height (trace.blankRow base) := by
  apply inside.foldl
  intro trace x member before
  have column : x < 80 := List.mem_range.mp member
  exact before.store (by omega) _

theorem Inside.copyRow (inside : Inside width height trace) {y : Nat} (fits : y < 25) :
    Inside width height (trace.copyRow y) := by
  apply inside.foldl
  intro trace x member before
  have column : x < 80 := List.mem_range.mp member
  have into : (y - 1) * 80 + x < 2000 := by omega
  have source : y * 80 + x < 2000 := by omega
  exact before.copyCell into source

theorem Inside.scroll (inside : Inside width height trace) : Inside width height trace.scroll := by
  have rows : Inside width height ((List.range' 1 24).foldl Trace.copyRow trace) := by
    apply inside.foldl
    intro trace y member before
    have row := (List.mem_range'_1.mp member).2
    exact before.copyRow (by omega)
  exact rows.blankRow (by decide)

/-- Narrowing to a byte keeps a value that is in range. -/
theorem toNat_ofInt {value : Int} (low : 0 ≤ value) (high : value < 2 ^ 8) :
    ((BitVec.ofInt 8 value).toNat : Int) = value := by
  rw [BitVec.toNat_ofInt]
  change ((value % 256).toNat : Int) = value
  omega

theorem Inside.setCursorX {wide : Nat} (inside : Inside wide height trace) {value : Int}
    (low : 0 ≤ value) (high : value < width) (byte : width ≤ 256) :
    Inside width height (trace.setCursorX value) := by
  have small : value < 2 ^ 8 := by omega
  have same := toNat_ofInt low small
  refine ⟨?_, inside.cursorY, events_cons ⟨low, small⟩ inside.events⟩
  change (BitVec.ofInt 8 value).toNat < width
  omega

theorem Inside.setCursorY {tall : Nat} (inside : Inside width tall trace) {value : Int}
    (low : 0 ≤ value) (high : value < height) (byte : height ≤ 256) :
    Inside width height (trace.setCursorY value) := by
  have small : value < 2 ^ 8 := by omega
  have same := toNat_ofInt low small
  refine ⟨inside.cursorX, ?_, events_cons ⟨low, small⟩ inside.events⟩
  change (BitVec.ofInt 8 value).toNat < height
  omega

theorem Inside.draw (inside : Inside 80 25 trace) (word : BitVec 16) : Inside 80 25 (trace.draw word) := by
  have column := inside.cursorX
  have row := inside.cursorY
  exact inside.store (show trace.console.cursorY.toNat * 80 + trace.console.cursorX.toNat < 2000 by omega) word

theorem Inside.mono {wide tall : Nat} (inside : Inside width height trace) (right : width ≤ wide)
    (down : height ≤ tall) : Inside wide tall trace :=
  ⟨Nat.lt_of_lt_of_le inside.cursorX right, Nat.lt_of_lt_of_le inside.cursorY down, inside.events⟩

/-- Only a glyph or a tab can reach column 80, and only a line feed row 25. -/
theorem Inside.typeChar (inside : Inside 80 25 trace) (c : Byte) :
    Inside 81 25 (trace.typeChar c) ∨ Inside 80 26 (trace.typeChar c) := by
  have column := inside.cursorX
  have row := inside.cursorY
  unfold Trace.typeChar
  by_cases feed : c = 0x0A
  · rw [if_pos feed]
    have start : Inside 80 25 (trace.setCursorX 0) := inside.setCursorX (by decide) (by decide) (by decide)
    exact Or.inr (start.setCursorY (by omega) (by omega) (by decide))
  · rw [if_neg feed]
    by_cases start : c = 0x0D
    · rw [if_pos start]
      exact Or.inl (inside.setCursorX (by decide) (by decide) (by decide))
    · rw [if_neg start]
      by_cases tab : c = 0x09
      · rw [if_pos tab]
        obtain ⟨low, high⟩ := tab_inside trace.console.cursorX column
        exact Or.inl (inside.setCursorX low (by omega) (by decide))
      · rw [if_neg tab]
        by_cases back : c = 0x08
        · rw [if_pos back]
          by_cases moves : 0 < trace.console.cursorX
          · rw [if_pos moves]
            have positive : 0 < trace.console.cursorX.toNat := moves
            have left : Inside 80 25 (trace.setCursorX (trace.console.cursorX.toNat - 1)) :=
              inside.setCursorX (by omega) (by omega) (by decide)
            exact Or.inl ((left.draw _).mono (by decide) (by decide))
          · rw [if_neg moves]
            exact Or.inl (inside.mono (by decide) (by decide))
        · rw [if_neg back]
          exact Or.inl ((inside.draw _).setCursorX (by omega) (by omega) (by decide))

theorem Inside.wrapLine (typed : Inside 81 25 trace ∨ Inside 80 26 trace) :
    Inside 80 26 trace.wrapLine := by
  unfold Trace.wrapLine
  by_cases wide : VGA_WIDTH ≤ trace.console.cursorX.toNat
  · rw [if_pos wide]
    have inside : Inside 81 25 trace := typed.resolve_right fun other =>
      absurd other.cursorX (Nat.not_lt.mpr wide)
    have row := inside.cursorY
    have start : Inside 80 25 (trace.setCursorX 0) :=
      inside.setCursorX (by decide) (by decide) (by decide)
    exact start.setCursorY (by omega) (by omega) (by decide)
  · rw [if_neg wide]
    rcases typed with inside | inside
    · exact ⟨Nat.not_le.mp wide, Nat.lt_succ_of_lt inside.cursorY, inside.events⟩
    · exact inside

theorem Inside.keepInside (inside : Inside 80 26 trace) : Inside 80 25 trace.keepInside := by
  unfold Trace.keepInside
  by_cases low : VGA_HEIGHT ≤ trace.console.cursorY.toNat
  · rw [if_pos low]
    exact inside.scroll.setCursorY (by decide) (by decide) (by decide)
  · rw [if_neg low]
    exact ⟨inside.cursorX, Nat.not_le.mp low, inside.events⟩

theorem Inside.moveCursor (inside : Inside width height trace) (x y : Byte) :
    Inside width height (trace.moveCursor x y) := ⟨inside.cursorX, inside.cursorY, inside.events⟩

theorem Inside.putchar (inside : Inside 80 25 trace) (c : Byte) : Inside 80 25 (trace.putchar c) :=
  (Inside.wrapLine (inside.typeChar c)).keepInside.moveCursor _ _

theorem Inside.write (inside : Inside 80 25 trace) (data : List Byte) :
    Inside 80 25 (trace.write data) :=
  inside.foldl fun _ c _ before => before.putchar c

/-- The cursor is reset, so it may have been anywhere. -/
theorem Inside.clear (inside : Inside width height trace) : Inside 80 25 trace.clear := by
  have rows : Inside width height
      ((List.range VGA_HEIGHT).foldl (fun trace y => trace.blankRow (y * VGA_WIDTH)) trace) := by
    apply inside.foldl
    intro trace y member before
    have row : y < 25 := List.mem_range.mp member
    have fits : y * 80 + 80 ≤ 2000 := by omega
    exact before.blankRow fits
  have start : Inside 80 height _ := rows.setCursorX (le_refl 0) (by decide) (by decide)
  exact (start.setCursorY (le_refl 0) (by decide) (by decide)).moveCursor 0 0

theorem Inside.call (inside : Inside 80 25 trace) (op : Call) : Inside 80 25 (trace.call op) := by
  cases op with
  | vgaPutchar c => exact inside.putchar c
  | vgaWrite data => exact inside.write data
  | vgaPuts str => exact inside.write _
  | vgaSetcolor color => exact ⟨inside.cursorX, inside.cursorY, inside.events⟩
  | vgaClear => exact inside.clear

theorem inside_init (s : Console) : Inside 80 25 (Trace.init { console := s, events := [] }) := by
  have anywhere : Inside 256 256 { console := s, events := [] } :=
    ⟨s.cursorX.isLt, s.cursorY.isLt, fun _ member => absurd member List.not_mem_nil⟩
  have start : Inside 80 256 _ := anywhere.setCursorX (le_refl 0) (by decide) (by decide)
  have top : Inside 80 25 _ := start.setCursorY (le_refl 0) (by decide) (by decide)
  have coloured : Inside 80 25 _ := Inside.call top (.vgaSetcolor 0x07)
  exact coloured.clear

theorem run_inside (s : Console) (calls : List Call) : Inside 80 25 (run s calls) :=
  (inside_init s).foldl fun _ op _ before => before.call op

/-- The cursor is on the screen. -/
structure OnScreen (s : Console) : Prop where
  column : s.cursorX.toNat < VGA_WIDTH
  row : s.cursorY.toNat < VGA_HEIGHT

theorem OnScreen.putchar {s : Console} (inside : OnScreen s) (c : Byte) : OnScreen (vgaPutchar c s) := by
  let trace : Trace := { console := s, events := [] }
  have start : Inside 80 25 trace :=
    ⟨inside.column, inside.row, fun _ member => absurd member List.not_mem_nil⟩
  have same : (trace.putchar c).console = vgaPutchar c s := putchar_console trace c
  rw [← same]
  exact ⟨(start.putchar c).cursorX, (start.putchar c).cursorY⟩

theorem onScreen_init (s : Console) : OnScreen (vgaInit s) :=
  ⟨show (0 : Byte).toNat < 80 by decide, show (0 : Byte).toNat < 25 by decide⟩

/-- After vga_init and any calls the cursor is on the screen, no value stored in a cursor byte has
wrapped, and every access to vga_buffer was to one of its cells. -/
theorem run_inRange (s : Console) (calls : List Call) :
    (run s calls).console = calls.foldl call (vgaInit s) ∧
      (calls.foldl call (vgaInit s)).cursorX.toNat < VGA_WIDTH ∧
      (calls.foldl call (vgaInit s)).cursorY.toNat < VGA_HEIGHT ∧
      ∀ event ∈ (run s calls).events, event.InRange := by
  have same := run_console s calls
  have inside := run_inside s calls
  refine ⟨same, ?_, ?_, inside.events⟩
  · rw [← same]
    exact inside.cursorX
  · rw [← same]
    exact inside.cursorY

end Vaelen.Kernel.VgaTrace
