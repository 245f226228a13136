import Vaelen.Kernel.VgaTrace

/-!
The cursor that the display shows. vga_move_cursor sends its place to the display controller in two
bytes, each behind the number of its register; after any calls the controller has the place where the
next character goes.
-/

namespace Vaelen.Kernel.VgaCursor
open Vaelen.Base Vga VgaTrace

/-- The display controller: port 0x3D4 picks a register and port 0x3D5 writes it. -/
structure Crtc where
  index : Byte
  registers : Byte → Byte

def Crtc.receive (d : Crtc) (output : BitVec 16 × Byte) : Crtc :=
  if output.1 = 0x3D4 then { d with index := output.2 }
  else if output.1 = 0x3D5 then { d with registers := Function.update d.registers d.index output.2 }
  else d

/-- The controller after all port writes, the last of which is the first of the list. -/
def crtc (d : Crtc) (outputs : List (BitVec 16 × Byte)) : Crtc :=
  outputs.foldr (fun output d => d.receive output) d

/-- Registers 14 and 15. -/
def Crtc.location (d : Crtc) : BitVec 16 := d.registers 14 ++ d.registers 15

/-- The address that vga_move_cursor computes. -/
def position (x y : Byte) : BitVec 16 := y.setWidth 16 * BitVec.ofNat 16 VGA_WIDTH + x.setWidth 16

theorem position_toNat {x y : Byte} (column : x.toNat < VGA_WIDTH) (row : y.toNat < VGA_HEIGHT) :
    (position x y).toNat = y.toNat * VGA_WIDTH + x.toNat := by
  unfold position VGA_WIDTH VGA_HEIGHT at *
  bv_omega

theorem halves (pos : BitVec 16) :
    ((pos >>> 8) &&& 0xFF).setWidth 8 ++ (pos &&& 0xFF).setWidth 8 = pos := by
  have mask : ∀ i < 8, (0xFF : BitVec 16).getLsbD i = true := by decide
  ext i hi
  simp only [BitVec.getElem_append, BitVec.getElem_setWidth, BitVec.getLsbD_and,
    BitVec.getLsbD_ushiftRight]
  grind

variable (start : Crtc) (s : Console)

theorem vgaMoveCursor_crtc (x y : Byte) : crtc start (vgaMoveCursor x y s).outputs =
    { index := 15
      registers := Function.update
        (Function.update (crtc start s.outputs).registers 14 ((position x y >>> 8 &&& 0xFF).setWidth 8))
        15 ((position x y &&& 0xFF).setWidth 8) } := rfl

/-- The controller shows the cursor of the console; its other registers are those of `before`. -/
structure Follows (start : Crtc) (before s : Console) : Prop where
  screen : OnScreen s
  location : ((crtc start s.outputs).location).toNat = cursorIndex s
  others : ∀ register, register ≠ 14 → register ≠ 15 →
    (crtc start s.outputs).registers register = (crtc start before.outputs).registers register
  ports : ∀ output ∈ s.outputs, output ∈ before.outputs ∨ output.1 = 0x3D4 ∨ output.1 = 0x3D5

variable {start s} {before t : Console}

/-- vga_move_cursor to the console's own cursor. -/
theorem follows_moveCursor (screen : OnScreen t)
    (others : ∀ register, register ≠ 14 → register ≠ 15 →
      (crtc start t.outputs).registers register = (crtc start before.outputs).registers register)
    (ports : ∀ output ∈ t.outputs, output ∈ before.outputs ∨ output.1 = 0x3D4 ∨ output.1 = 0x3D5) :
    Follows start before (vgaMoveCursor t.cursorX t.cursorY t) := by
  apply Follows.mk
  · exact ⟨screen.column, screen.row⟩
  · have location : (crtc start (vgaMoveCursor t.cursorX t.cursorY t).outputs).location =
        position t.cursorX t.cursorY := by
      rw [vgaMoveCursor_crtc]
      exact halves _
    rw [location]
    exact position_toNat screen.column screen.row
  · intro register first second
    rw [vgaMoveCursor_crtc, ← others register first second]
    dsimp only
    rw [Function.update_of_ne second, Function.update_of_ne first]
  · intro output member
    simp only [vgaMoveCursor, outb, List.mem_cons] at member
    rcases member with rfl | rfl | rfl | rfl | old
    · simp
    · simp
    · simp
    · simp
    · exact ports output old

/-! The calls. -/

theorem typeChar_outputs (c : Byte) (s : Console) : (typeChar c s).outputs = s.outputs := by
  unfold typeChar
  split_ifs <;> rfl

theorem wrapLine_outputs (s : Console) : (wrapLine s).outputs = s.outputs := by
  unfold wrapLine
  split <;> rfl

theorem keepInside_outputs (s : Console) : (keepInside s).outputs = s.outputs := by
  unfold keepInside
  split <;> rfl

theorem Follows.putchar (follows : Follows start before s) (c : Byte) :
    Follows start before (vgaPutchar c s) := by
  have screen := follows.screen.putchar c
  have outputs : (keepInside (wrapLine (typeChar c s))).outputs = s.outputs := by
    rw [keepInside_outputs, wrapLine_outputs, typeChar_outputs]
  unfold vgaPutchar at screen ⊢
  generalize keepInside (wrapLine (typeChar c s)) = t at screen outputs ⊢
  refine follows_moveCursor ⟨screen.column, screen.row⟩ ?_ ?_
  · rw [outputs]
    exact follows.others
  · rw [outputs]
    exact follows.ports

theorem Follows.write (follows : Follows start before s) (data : List Byte) :
    Follows start before (vgaWrite data s) := by
  induction data generalizing s with
  | nil => exact follows
  | cons c rest ih => exact ih (follows.putchar c)

/-- vga_clear shows the cursor in the corner, wherever it was. -/
theorem follows_clear
    (others : ∀ register, register ≠ 14 → register ≠ 15 →
      (crtc start s.outputs).registers register = (crtc start before.outputs).registers register)
    (ports : ∀ output ∈ s.outputs, output ∈ before.outputs ∨ output.1 = 0x3D4 ∨ output.1 = 0x3D5) :
    Follows start before (vgaClear s) := by
  unfold vgaClear
  generalize (List.range VGA_HEIGHT).foldl
    (fun buffer y => Vga.blankRow s.vgaColor buffer (y * VGA_WIDTH)) s.vgaBuffer = buffer
  let t : Console := { s with vgaBuffer := buffer, cursorX := 0, cursorY := 0 }
  have screen : OnScreen t :=
    ⟨show (0 : Byte).toNat < 80 by decide, show (0 : Byte).toNat < 25 by decide⟩
  exact @follows_moveCursor start before t screen others ports

theorem Follows.call (follows : Follows start before s) (op : Call) :
    Follows start before (call s op) := by
  cases op with
  | vgaPutchar c => exact follows.putchar c
  | vgaWrite data => exact follows.write data
  | vgaPuts str => exact follows.write _
  | vgaSetcolor color => exact ⟨⟨follows.screen.column, follows.screen.row⟩, follows.location, follows.others,
    follows.ports⟩
  | vgaClear => exact follows_clear follows.others follows.ports

/-- After vga_init and any calls the display controller, whatever state it was in, shows the cursor at
the cell of the next character, and only its cursor registers have been written. -/
theorem run_cursor (start : Crtc) (s : Console) (calls : List Call) :
    let final := calls.foldl call (vgaInit s)
    ((crtc start final.outputs).location).toNat = final.cursorY.toNat * VGA_WIDTH + final.cursorX.toNat ∧
      ((crtc start final.outputs).location).toNat < VGA_WIDTH * VGA_HEIGHT ∧
      (∀ register, register ≠ 14 → register ≠ 15 →
        (crtc start final.outputs).registers register = (crtc start s.outputs).registers register) ∧
      ∀ output ∈ final.outputs, output ∈ s.outputs ∨ output.1 = 0x3D4 ∨ output.1 = 0x3D5 := by
  intro final
  have follows : Follows start s final := by
    have initial : Follows start s (vgaInit s) :=
      follows_clear (fun _ _ _ => rfl) fun _ member => Or.inl member
    have kept : ∀ (calls : List Call) (t : Console), Follows start s t →
        Follows start s (calls.foldl call t) := by
      intro calls
      induction calls with
      | nil => exact fun _ follows => follows
      | cons op rest ih => exact fun t follows => ih _ (follows.call op)
    exact kept calls _ initial
  obtain ⟨⟨column, row⟩, location, others, ports⟩ := follows
  refine ⟨location, ?_, others, ports⟩
  rw [location, cursorIndex]
  unfold VGA_WIDTH VGA_HEIGHT at *
  omega

end Vaelen.Kernel.VgaCursor
