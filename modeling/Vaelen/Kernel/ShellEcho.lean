import Vaelen.Kernel.ShellEditing
import Vaelen.Kernel.VgaColours

/-!
What the console shows of a line while it is edited. A backspace always shortens the line, but the
cursor does not move back over the left margin, so that a line which has wrapped comes apart from
what is shown of it.
-/

namespace Vaelen.Kernel.ShellEcho
open Vaelen.Base Shell Vga VgaTrace ShellRuns ShellEditing

/-- The rows that vga_putchar scrolls up. -/
def scrolls (c : Byte) (s : Console) : Nat :=
  if VGA_HEIGHT ≤ (Vga.wrapLine (Vga.typeChar c s)).cursorY.toNat then 1 else 0

/-- The state of shell_getline, and the rows scrolled up since it began. -/
structure Echo where
  getline : Getline
  scrolled : Nat

/-- Whether the loop passes the key on to vga_putchar. -/
def echoed (g : Getline) (c : Byte) : Bool := if c = 0x08 then 0 < g.i else printable c

def Echo.key (e : Echo) (c : Byte) : Echo :=
  { getline := e.getline.key c
    scrolled := e.scrolled + if echoed e.getline c then scrolls c e.getline.console else 0 }

/-- The state after these keys, none of them a newline. -/
def run (buf : Line) (s : Console) (keys : List Byte) : Echo :=
  keys.foldl Echo.key { getline := begin buf s, scrolled := 0 }

/-- The cells from the start up to the cursor are those of the line, wherever they have been scrolled
to, and all of them that are still on the screen show its characters. -/
structure Shown (start : Console) (e : Echo) : Prop where
  cursor : cursorIndex e.getline.console + VGA_WIDTH * e.scrolled = cursorIndex start + e.getline.i
  cells : ∀ j < e.getline.i, ∀ k, k + VGA_WIDTH * e.scrolled = cursorIndex start + j →
    (e.getline.console.vgaBuffer k).extractLsb' 0 8 = e.getline.buf j

/-- The cursor is farther from the start than the line is long. -/
def Ahead (start : Console) (e : Echo) : Prop :=
  cursorIndex start + e.getline.i < cursorIndex e.getline.console + VGA_WIDTH * e.scrolled

/-! One character on the console. -/

variable {s start : Console} {e : Echo} {c : Byte}

theorem printable_small (shown : printable c) : 0x20 ≤ c.toNat ∧ c.toNat < 0x7F := by
  have bounds : 0x20 ≤ c.toInt ∧ c.toInt ≤ 0x7E := of_decide_eq_true shown
  rw [BitVec.toInt_eq_toNat_cond] at bounds
  have small := c.isLt
  omega

theorem cursorIndex_vgaPutchar (c : Byte) (s : Console) :
    cursorIndex (vgaPutchar c s) = cursorIndex (keepInside (wrapLine (typeChar c s))) := by
  unfold vgaPutchar cursorIndex
  rw [vgaMoveCursor_cursorX, vgaMoveCursor_cursorY]

theorem vgaBuffer_vgaPutchar (c : Byte) (s : Console) :
    (vgaPutchar c s).vgaBuffer = (keepInside (wrapLine (typeChar c s))).vgaBuffer :=
  vgaMoveCursor_vgaBuffer _ _ _

/-- Wrapping and scrolling keep the place of the cursor in reading order, and that of every cell. -/
theorem settled_place {t : Console} (column : t.cursorX.toNat ≤ 80) (row : t.cursorY.toNat < 25) {rows : Nat}
    (scrolled : rows = if VGA_HEIGHT ≤ (wrapLine t).cursorY.toNat then 1 else 0) :
    cursorIndex (keepInside (wrapLine t)) + 80 * rows = cursorIndex t ∧
      ∀ j k, k + 80 * rows = j → j < 2000 → (keepInside (wrapLine t)).vgaBuffer k = t.vgaBuffer j := by
  have place : cursorIndex t = t.cursorY.toNat * 80 + t.cursorX.toNat := rfl
  by_cases wraps : VGA_WIDTH ≤ t.cursorX.toNat
  · have wrapped : wrapLine t = { t with cursorX := 0, cursorY := t.cursorY + 1 } := if_pos wraps
    have down : (t.cursorY + 1).toNat = t.cursorY.toNat + 1 := by bv_omega
    have edge : t.cursorX.toNat = 80 := Nat.le_antisymm column wraps
    rw [wrapped] at scrolled ⊢
    by_cases bottom : VGA_HEIGHT ≤ (t.cursorY + 1).toNat
    · have last : t.cursorY.toNat = 24 := by
        have reached : 25 ≤ (t.cursorY + 1).toNat := bottom
        omega
      have kept : keepInside { t with cursorX := 0, cursorY := t.cursorY + 1 } =
          { vgaScroll { t with cursorX := 0, cursorY := t.cursorY + 1 } with
            cursorY := BitVec.ofNat 8 (VGA_HEIGHT - 1) } := if_pos bottom
      rw [scrolled, if_pos bottom, kept]
      refine ⟨?_, fun j k same inside => ?_⟩
      · have bottomRow : (BitVec.ofNat 8 (VGA_HEIGHT - 1)).toNat = 24 := by decide
        change (BitVec.ofNat 8 (VGA_HEIGHT - 1)).toNat * VGA_WIDTH + (0 : Byte).toNat + 80 * 1 = _
        rw [bottomRow, place, last, edge]
        rfl
      · have above : k < 24 * 80 := by omega
        have spec := vgaScroll_spec { t with cursorX := 0, cursorY := t.cursorY + 1 } k (by omega)
        rw [if_pos above] at spec
        rw [← same]
        exact spec
    · have kept : keepInside { t with cursorX := 0, cursorY := t.cursorY + 1 } =
          { t with cursorX := 0, cursorY := t.cursorY + 1 } := if_neg bottom
      rw [scrolled, if_neg bottom, kept]
      refine ⟨?_, fun j k same _ => congrArg t.vgaBuffer same⟩
      change (t.cursorY + 1).toNat * 80 + 0 + 80 * 0 = _
      omega
  · have wrapped : wrapLine t = t := if_neg wraps
    have inside : ¬VGA_HEIGHT ≤ t.cursorY.toNat := Nat.not_le.mpr row
    have kept : keepInside t = t := if_neg inside
    rw [wrapped] at scrolled ⊢
    rw [scrolled, if_neg inside, kept]
    exact ⟨rfl, fun j k same _ => congrArg t.vgaBuffer same⟩

/-- A glyph is drawn at the cursor, which moves on by one cell. -/
theorem putchar_glyph (screen : OnScreen s) (shown : printable c) :
    cursorIndex (vgaPutchar c s) + 80 * scrolls c s = cursorIndex s + 1 ∧
      ∀ j k, k + 80 * scrolls c s = j → j ≤ cursorIndex s →
        (vgaPutchar c s).vgaBuffer k = if j = cursorIndex s then cell c s.vgaColor else s.vgaBuffer j := by
  obtain ⟨low, high⟩ := printable_small shown
  have column : s.cursorX.toNat < 80 := screen.column
  have row : s.cursorY.toNat < 25 := screen.row
  have place : cursorIndex s = s.cursorY.toNat * 80 + s.cursorX.toNat := rfl
  have other : ∀ d : Byte, d.toNat < 0x20 → c ≠ d := by
    rintro d small rfl
    omega
  have typed : typeChar c s = { draw (cell c s.vgaColor) s with cursorX := s.cursorX + 1 } := by
    rw [typeChar, if_neg (other 0x0A (by decide)), if_neg (other 0x0D (by decide)),
      if_neg (other 0x09 (by decide)), if_neg (other 0x08 (by decide))]
    rfl
  have next : (s.cursorX + 1).toNat = s.cursorX.toNat + 1 := by bv_omega
  have scrolled : scrolls c s = if VGA_HEIGHT ≤ (wrapLine (typeChar c s)).cursorY.toNat then 1 else 0 := rfl
  have inside : (typeChar c s).cursorX.toNat ≤ 80 := by
    rw [typed]
    change (s.cursorX + 1).toNat ≤ 80
    omega
  have above : (typeChar c s).cursorY.toNat < 25 := by
    rw [typed]
    exact row
  obtain ⟨cursor, cells⟩ := settled_place inside above scrolled
  rw [cursorIndex_vgaPutchar, vgaBuffer_vgaPutchar]
  constructor
  · rw [cursor, typed]
    change s.cursorY.toNat * 80 + (s.cursorX + 1).toNat = _
    omega
  · intro j k same bound
    rw [cells j k same (by omega), typed]
    exact Function.update_apply _ _ _ _

/-- A backspace goes back by one cell and clears it, but it stays at the left margin. -/
theorem putchar_backspace (screen : OnScreen s) :
    scrolls 0x08 s = 0 ∧
      (s.cursorX.toNat = 0 → cursorIndex (vgaPutchar 0x08 s) = cursorIndex s ∧
        (vgaPutchar 0x08 s).vgaBuffer = s.vgaBuffer) ∧
      (0 < s.cursorX.toNat → cursorIndex (vgaPutchar 0x08 s) + 1 = cursorIndex s ∧
        ∀ k, k + 1 < cursorIndex s → (vgaPutchar 0x08 s).vgaBuffer k = s.vgaBuffer k) := by
  have column : s.cursorX.toNat < 80 := screen.column
  have place : cursorIndex s = s.cursorY.toNat * 80 + s.cursorX.toNat := rfl
  have settled : ∀ t : Console, t.cursorX.toNat < 80 → t.cursorY = s.cursorY → wrapLine t = t ∧
      keepInside t = t := fun t narrow same => by
    have low : t.cursorY.toNat < 25 := by
      rw [same]
      exact screen.row
    exact ⟨if_neg (Nat.not_le.mpr narrow), if_neg (Nat.not_le.mpr low)⟩
  have typed : typeChar 0x08 s =
      if 0 < s.cursorX then
        draw (cell space s.vgaColor) { s with cursorX := s.cursorX - 1 }
      else s := rfl
  by_cases margin : s.cursorX.toNat = 0
  · have stays : ¬0 < s.cursorX := by bv_omega
    rw [if_neg stays] at typed
    obtain ⟨wrapped, kept⟩ := settled s column rfl
    have none : scrolls 0x08 s = 0 := by
      rw [scrolls, typed, wrapped]
      exact if_neg (Nat.not_le.mpr screen.row)
    rw [none, cursorIndex_vgaPutchar, vgaBuffer_vgaPutchar, typed, wrapped, kept]
    exact ⟨rfl, fun _ => ⟨rfl, rfl⟩, fun some => absurd margin some.ne'⟩
  · have moves : 0 < s.cursorX := by bv_omega
    have back : (s.cursorX - 1).toNat = s.cursorX.toNat - 1 := by bv_omega
    rw [if_pos moves] at typed
    obtain ⟨wrapped, kept⟩ := settled (typeChar 0x08 s)
      (by rw [typed]; show (s.cursorX - 1).toNat < 80; omega) (by rw [typed]; rfl)
    have none : scrolls 0x08 s = 0 := by
      rw [scrolls, wrapped, typed]
      exact if_neg (Nat.not_le.mpr screen.row)
    have index : cursorIndex { s with cursorX := s.cursorX - 1 } + 1 = cursorIndex s := by
      change s.cursorY.toNat * 80 + (s.cursorX - 1).toNat + 1 = _
      omega
    rw [none, cursorIndex_vgaPutchar, vgaBuffer_vgaPutchar, wrapped, kept, typed]
    refine ⟨rfl, fun zero => absurd zero margin, fun _ => ⟨index, fun k before => ?_⟩⟩
    exact Function.update_of_ne (by omega) _ _

/-! One key. -/

theorem key_backspace (some : 0 < e.getline.i) (none : scrolls 0x08 e.getline.console = 0) :
    e.key 0x08 =
      { getline := { e.getline with i := e.getline.i - 1 }.echo 0x08, scrolled := e.scrolled } := by
  have typed : e.getline.key 0x08 = { e.getline with i := e.getline.i - 1 }.echo 0x08 := by
    rw [Getline.key, if_pos rfl, if_pos some]
  rw [Echo.key, typed, none, ite_self]
  rfl

theorem key_empty (none : ¬0 < e.getline.i) : e.key 0x08 = e := by
  have typed : e.getline.key 0x08 = e.getline := by rw [Getline.key, if_pos rfl, if_neg none]
  have silent : echoed e.getline 0x08 = false := decide_eq_false none
  rw [Echo.key, typed, silent]
  rfl

theorem key_glyph (shown : printable c) :
    e.key c =
      { getline := { e.getline.store e.getline.i c with i := e.getline.i + 1 }.echo c
        scrolled := e.scrolled + scrolls c e.getline.console } := by
  have other : c ≠ 0x08 := by
    rintro rfl
    exact absurd shown (by decide)
  have loud : echoed e.getline c = true := by rw [echoed, if_neg other, shown]
  have typed : e.getline.key c = { e.getline.store e.getline.i c with i := e.getline.i + 1 }.echo c := by
    rw [Getline.key, if_neg other, if_pos shown]
  rw [Echo.key, typed, loud]
  rfl

theorem OnScreen.key (screen : OnScreen e.getline.console) (c : Byte) :
    OnScreen (e.key c).getline.console := by
  change OnScreen (e.getline.key c).console
  unfold Getline.key
  split_ifs
  · exact screen.putchar 0x08
  · exact screen
  · exact screen.putchar c
  · exact screen

theorem Shown.glyph (shown : Shown start e) (screen : OnScreen e.getline.console)
    (typed : printable c) : Shown start (e.key c) := by
  obtain ⟨cursor, cells⟩ := putchar_glyph screen typed
  have place : cursorIndex e.getline.console + 80 * e.scrolled = cursorIndex start + e.getline.i :=
    shown.cursor
  rw [key_glyph typed]
  constructor
  · change cursorIndex (vgaPutchar c e.getline.console) + 80 * (e.scrolled + scrolls c e.getline.console) =
      cursorIndex start + (e.getline.i + 1)
    omega
  · intro j inside k same
    have before : j < e.getline.i + 1 := inside
    have index : k + 80 * (e.scrolled + scrolls c e.getline.console) = cursorIndex start + j := same
    change ((vgaPutchar c e.getline.console).vgaBuffer k).extractLsb' 0 8 =
      Function.update e.getline.buf e.getline.i c j
    rw [cells _ k rfl (by omega)]
    by_cases last : j = e.getline.i
    · rw [if_pos (by omega), last, Function.update_self]
      exact VgaColours.cell_low c _
    · rw [if_neg (by omega), Function.update_of_ne last]
      apply shown.cells j (by omega)
      change k + 80 * scrolls c e.getline.console + 80 * e.scrolled = _
      omega

theorem Shown.backspace (shown : Shown start e) (screen : OnScreen e.getline.console)
    (some : 0 < e.getline.i) (inside : 0 < e.getline.console.cursorX.toNat) :
    Shown start (e.key 0x08) := by
  obtain ⟨none, _, moves⟩ := putchar_backspace screen
  obtain ⟨cursor, cells⟩ := moves inside
  have place : cursorIndex e.getline.console + 80 * e.scrolled = cursorIndex start + e.getline.i :=
    shown.cursor
  rw [key_backspace some none]
  constructor
  · change cursorIndex (vgaPutchar 0x08 e.getline.console) + 80 * e.scrolled =
      cursorIndex start + (e.getline.i - 1)
    omega
  · intro j before k same
    have shorter : j < e.getline.i - 1 := before
    have index : k + 80 * e.scrolled = cursorIndex start + j := same
    change ((vgaPutchar 0x08 e.getline.console).vgaBuffer k).extractLsb' 0 8 = _
    rw [cells k (by omega)]
    exact shown.cells j (by omega) k same

/-- At the left margin the line gets shorter, and the cursor stays. -/
theorem Shown.margin (shown : Shown start e) (screen : OnScreen e.getline.console)
    (some : 0 < e.getline.i) (margin : e.getline.console.cursorX.toNat = 0) :
    Ahead start (e.key 0x08) := by
  obtain ⟨none, stays, _⟩ := putchar_backspace screen
  have cursor := (stays margin).1
  have place : cursorIndex e.getline.console + 80 * e.scrolled = cursorIndex start + e.getline.i :=
    shown.cursor
  rw [key_backspace some none]
  change cursorIndex start + (e.getline.i - 1) <
    cursorIndex (vgaPutchar 0x08 e.getline.console) + 80 * e.scrolled
  omega

/-- The cursor never comes back. -/
theorem Ahead.key (ahead : Ahead start e) (screen : OnScreen e.getline.console)
    (plain : c = 0x08 ∨ printable c) : Ahead start (e.key c) := by
  have before : cursorIndex start + e.getline.i <
      cursorIndex e.getline.console + 80 * e.scrolled := ahead
  rcases plain with rfl | typed
  · by_cases some : 0 < e.getline.i
    · obtain ⟨none, stays, moves⟩ := putchar_backspace screen
      rw [key_backspace some none]
      change cursorIndex start + (e.getline.i - 1) <
        cursorIndex (vgaPutchar 0x08 e.getline.console) + 80 * e.scrolled
      rcases Nat.eq_zero_or_pos e.getline.console.cursorX.toNat with margin | inside
      · have cursor := (stays margin).1
        omega
      · have cursor := (moves inside).1
        omega
    · rw [key_empty some]
      exact ahead
  · obtain ⟨cursor, _⟩ := putchar_glyph screen typed
    rw [key_glyph typed]
    change cursorIndex start + (e.getline.i + 1) < cursorIndex (vgaPutchar c e.getline.console) +
      80 * (e.scrolled + scrolls c e.getline.console)
    omega

theorem Ahead.not_shown (ahead : Ahead start e) : ¬Shown start e := fun shown =>
  absurd shown.cursor (Nat.ne_of_gt ahead)

/-- The column is that of the start and the length of the line. -/
theorem Shown.column (shown : Shown start e) (screen : OnScreen e.getline.console) :
    e.getline.console.cursorX.toNat = (start.cursorX.toNat + e.getline.i) % 80 := by
  have column : e.getline.console.cursorX.toNat < 80 := screen.column
  have place : e.getline.console.cursorY.toNat * 80 + e.getline.console.cursorX.toNat +
      80 * e.scrolled = start.cursorY.toNat * 80 + start.cursorX.toNat + e.getline.i := shown.cursor
  omega

/-! Any keys. -/

/-- No backspace takes a character off the line while the cursor is at the left margin. -/
def OffMargin (start : Console) (keys : List Byte) : Prop :=
  ∀ before, before ++ [0x08] <+: keys → typed before ≠ [] →
    (start.cursorX.toNat + (typed before).length) % VGA_WIDTH ≠ 0

theorem offMargin_snoc (start : Console) (keys : List Byte) (c : Byte) :
    OffMargin start (keys ++ [c]) ↔ OffMargin start keys ∧
      (c = 0x08 → typed keys ≠ [] → (start.cursorX.toNat + (typed keys).length) % VGA_WIDTH ≠ 0) := by
  constructor
  · intro off
    refine ⟨fun before part => off before (part.trans (List.prefix_append keys [c])), ?_⟩
    rintro rfl
    exact off keys List.prefix_rfl
  · rintro ⟨earlier, last⟩ before part
    rcases List.prefix_concat_iff.mp part with same | part
    · obtain ⟨rfl, back⟩ := List.append_inj' same rfl
      exact last (List.singleton_inj.mp back).symm
    · exact earlier before part

theorem run_snoc (buf : Line) (s : Console) (keys : List Byte) (c : Byte) :
    run buf s (keys ++ [c]) = (run buf s keys).key c := by
  rw [run, List.foldl_append]
  rfl

theorem typed_snoc (keys : List Byte) (c : Byte) : typed (keys ++ [c]) = typeKey (typed keys) c :=
  typed_foldl keys [c]

/-- The state after any keys: as long as the cursor moves with the line the line is shown, and after
that the cursor is ahead of it. -/
structure Follows (maxlen : Nat) (start : Console) (keys : List Byte) (e : Echo) : Prop where
  typed : Typed maxlen e.getline (typed keys)
  screen : OnScreen e.getline.console
  shown : OffMargin start keys → Shown start e
  ahead : ¬OffMargin start keys → Ahead start e

theorem Follows.key {maxlen : Nat} {keys : List Byte} (follows : Follows maxlen start keys e)
    (room : (ShellEditing.typed keys).length < maxlen - 1) (plain : c = 0x08 ∨ printable c) :
    Follows maxlen start (keys ++ [c]) (e.key c) := by
  have level := follows.typed.length
  have next : Typed maxlen (e.key c).getline (ShellEditing.typed (keys ++ [c])) := by
    rw [typed_snoc]
    exact follows.typed.key (by omega) c
  have lost : ¬OffMargin start keys → Ahead start (e.key c) := fun margin =>
    (follows.ahead margin).key follows.screen plain
  refine ⟨next, OnScreen.key follows.screen c, ?_, ?_⟩
  · intro off
    obtain ⟨earlier, last⟩ := (offMargin_snoc start keys c).mp off
    have shown := follows.shown earlier
    rcases plain with rfl | printed
    · by_cases some : 0 < e.getline.i
      · have line : ShellEditing.typed keys ≠ [] := List.length_pos_iff.mp (level ▸ some)
        have column := shown.column follows.screen
        have away : (start.cursorX.toNat + (ShellEditing.typed keys).length) % 80 ≠ 0 := last rfl line
        rw [level] at away
        exact shown.backspace follows.screen some (by omega)
      · rw [key_empty some]
        exact shown
    · exact shown.glyph follows.screen printed
  · intro margin
    by_cases earlier : OffMargin start keys
    · have shown := follows.shown earlier
      rw [offMargin_snoc, and_iff_right earlier] at margin
      push Not at margin
      obtain ⟨rfl, line, column⟩ := margin
      have some : 0 < e.getline.i := level ▸ List.length_pos_iff.mpr line
      rw [level] at column
      exact shown.margin follows.screen some ((shown.column follows.screen).trans column)
    · exact lost earlier

theorem run_follows {maxlen : Nat} (buf : Line) {s : Console} (screen : OnScreen s) {keys : List Byte}
    (plain : ∀ c ∈ keys, c = 0x08 ∨ printable c)
    (short : ∀ before, before <+: keys → (typed before).length < maxlen - 1) :
    Follows maxlen s keys (run buf s keys) := by
  induction keys using List.reverseRecOn with
  | nil =>
    have room := short [] List.prefix_rfl
    have shown : Shown s (run buf s []) := ⟨rfl, fun _ inside => absurd inside (Nat.not_lt_zero _)⟩
    refine ⟨typed_begin (by omega) buf s, screen, fun _ => shown, fun margin => ?_⟩
    refine absurd (fun before part => ?_) margin
    exact absurd (List.prefix_nil.mp part) (by simp)
  | append_singleton keys c ih =>
    have part : keys <+: keys ++ [c] := List.prefix_append keys [c]
    have follows := ih (fun d member => plain d (List.mem_append_left _ member))
      fun before inside => short before (inside.trans part)
    rw [run_snoc]
    exact follows.key (short keys part) (plain c (List.mem_append_right _ List.mem_cons_self))

/-- The call has come to this state once it has taken the keys. -/
theorem getlineTrace_run {maxlen : Nat} (buf : Line) (s : Console) (h : History) {keys : List Byte}
    (plain : ∀ c ∈ keys, c = 0x08 ∨ printable c)
    (follows : ∀ before, before <+: keys → Typed maxlen (run buf s before).getline (typed before))
    (short : ∀ before, before <+: keys → (typed before).length < maxlen - 1) (rest : List Byte) :
    getline maxlen (keys ++ rest) buf s h = getlineTrace maxlen rest (run buf s keys).getline h := by
  induction keys using List.reverseRecOn generalizing rest with
  | nil => rfl
  | append_singleton keys c ih =>
    have part : keys <+: keys ++ [c] := List.prefix_append keys [c]
    have newline : c ≠ 0x0A := by
      rintro rfl
      exact absurd (plain 0x0A (List.mem_append_right keys List.mem_cons_self)) (by decide)
    have room : (run buf s keys).getline.i < maxlen - 1 := by
      rw [← (follows keys part).length]
      exact short keys part
    rw [List.append_assoc, ih (fun d member => plain d (List.mem_append_left _ member))
      (fun before inside => follows before (inside.trans part))
      (fun before inside => short before (inside.trans part)), run_snoc]
    change getlineTrace maxlen (c :: rest) _ h = _
    rw [getlineTrace, if_pos room]
    exact if_neg newline

/-- While a line is edited the screen shows it, from wherever the cursor stood, exactly as long as no
backspace comes at the left margin. -/
theorem run_shown_iff (maxlen : Nat) (s : Console) (screen : OnScreen s) (buf : Line) (keys : List Byte)
    (plain : ∀ c ∈ keys, c = 0x08 ∨ printable c)
    (short : ∀ before, before <+: keys → (typed before).length < maxlen - 1) :
    (∀ rest h, getline maxlen (keys ++ rest) buf s h =
        getlineTrace maxlen rest (run buf s keys).getline h) ∧
      (Shown s (run buf s keys) ↔ OffMargin s keys) := by
  have every : ∀ before, before <+: keys → Follows maxlen s before (run buf s before) :=
    fun before part => run_follows buf screen (fun c member => plain c (part.subset member))
      fun first inside => short first (inside.trans part)
  have follows := every keys List.prefix_rfl
  refine ⟨fun rest h => getlineTrace_run buf s h plain (fun before part => (every before part).typed)
    short rest, ?_, follows.shown⟩
  intro shown
  by_contra margin
  exact (follows.ahead margin).not_shown shown

/-- Two keys fit a line of the shell. -/
theorem short_two (before : List Byte) (part : before <+: [0x61, 0x08]) :
    (typed before).length < MAX_LINE - 1 :=
  Nat.lt_of_le_of_lt ((typed_length_le before).trans part.length_le) (by decide)

/-- A letter and a backspace behind the prompt. -/
theorem run_shown_iff_prompt :
    Shown ⟨0x07, fun _ => 0, 15, 0, []⟩ (run (fun _ => 0) ⟨0x07, fun _ => 0, 15, 0, []⟩ [0x61, 0x08]) ↔
      OffMargin ⟨0x07, fun _ => 0, 15, 0, []⟩ [0x61, 0x08] :=
  (run_shown_iff MAX_LINE ⟨0x07, fun _ => 0, 15, 0, []⟩ ⟨by decide, by decide⟩ (fun _ => 0) [0x61, 0x08]
    (by decide) short_two).2

/-- The same keys in the last column. -/
theorem run_not_shown :
    ¬∀ (maxlen : Nat) (s : Console) (buf : Line) (keys : List Byte), OnScreen s →
      (∀ c ∈ keys, c = 0x08 ∨ printable c) →
      (∀ before, before <+: keys → (typed before).length < maxlen - 1) →
      Shown s (run buf s keys) := by
  intro claim
  let s : Console := ⟨0x07, fun _ => 0, 79, 0, []⟩
  have screen : OnScreen s := ⟨by decide, by decide⟩
  have plain : ∀ c ∈ [(0x61 : Byte), 0x08], c = 0x08 ∨ printable c := by decide
  have shown := claim MAX_LINE s (fun _ => 0) [0x61, 0x08] screen plain short_two
  have margin : ¬OffMargin s [0x61, 0x08] := fun off =>
    off [0x61] List.prefix_rfl (by decide) (by decide)
  exact ((run_follows (fun _ => 0) screen plain short_two).ahead margin).not_shown shown

end Vaelen.Kernel.ShellEcho
