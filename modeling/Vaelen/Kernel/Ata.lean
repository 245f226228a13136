import Vaelen.Kernel.Platform

/-!
The disk driver of ata.c over an LBA28 device. The device keeps 256 words for each 28-bit
address, takes any number of status reads to finish an operation, and reports no error.
-/

namespace Vaelen.Kernel.Ata
open Vaelen.Base

abbrev Port := BitVec 16
abbrev Buffer := Nat → Byte

abbrev ATA_PRIMARY_DATA : Port := 0x1F0
abbrev ATA_PRIMARY_SECTORS : Port := 0x1F2
abbrev ATA_PRIMARY_LBA_LO : Port := 0x1F3
abbrev ATA_PRIMARY_LBA_MID : Port := 0x1F4
abbrev ATA_PRIMARY_LBA_HI : Port := 0x1F5
abbrev ATA_PRIMARY_DRIVE : Port := 0x1F6
abbrev ATA_PRIMARY_COMMAND : Port := 0x1F7
abbrev ATA_PRIMARY_STATUS : Port := 0x1F7

abbrev ATA_CMD_READ : Byte := 0x20
abbrev ATA_CMD_WRITE : Byte := 0x30

/-! The device. -/

/-- A transfer of `total` words from `address` on, `index` of them done. -/
inductive Transfer where
  | idle
  | reading (address : BitVec 28) (total index : Nat)
  | writing (address : BitVec 28) (total index : Nat)

/-- `busy` counts the status reads that still see the busy bit, and `delay` says how many
the n-th operation takes. The bits of `other` show beside it. -/
structure Device where
  drive : Byte
  sectorCount : Byte
  lbaLo : Byte
  lbaMid : Byte
  lbaHi : Byte
  sector : BitVec 28 → Nat → BitVec 16
  transfer : Transfer
  busy : Nat
  delay : Nat → Nat
  operations : Nat
  other : Byte

/-- Bits 0 to 3 of the drive register over the three LBA registers. -/
def address (d : Device) : BitVec 28 :=
  (d.drive.setWidth 28 <<< 24) ||| (d.lbaHi.setWidth 28 <<< 16) |||
    (d.lbaMid.setWidth 28 <<< 8) ||| d.lbaLo.setWidth 28

/-- A count of 0 stands for 256 sectors. -/
def words (d : Device) : Nat :=
  if d.sectorCount = 0 then 65536 else 256 * d.sectorCount.toNat

/-- Bit 7 is busy, and bit 0, the error bit, stays clear. -/
def status (d : Device) : Byte := (if 0 < d.busy then 0x80 else 0) ||| (d.other &&& 0x7E)

def occupy (d : Device) : Device :=
  { d with busy := d.delay d.operations, operations := d.operations + 1 }

def command (value : Byte) (d : Device) : Device :=
  if value = ATA_CMD_READ then occupy { d with transfer := .reading (address d) (words d) 0 }
  else if value = ATA_CMD_WRITE then { d with transfer := .writing (address d) (words d) 0 }
  else d

/-- A busy device ignores its registers. -/
def outb (port : Port) (value : Byte) (d : Device) : Device :=
  if 0 < d.busy then d
  else if port = ATA_PRIMARY_SECTORS then { d with sectorCount := value }
  else if port = ATA_PRIMARY_LBA_LO then { d with lbaLo := value }
  else if port = ATA_PRIMARY_LBA_MID then { d with lbaMid := value }
  else if port = ATA_PRIMARY_LBA_HI then { d with lbaHi := value }
  else if port = ATA_PRIMARY_DRIVE then { d with drive := value }
  else if port = ATA_PRIMARY_COMMAND then command value d
  else d

def inb (port : Port) (d : Device) : Byte × Device :=
  if port = ATA_PRIMARY_STATUS then (status d, { d with busy := d.busy - 1 })
  else (0xFF, d)

/-- The sector and the word in it that a transfer has reached. -/
def target (start : BitVec 28) (index : Nat) : BitVec 28 × Nat :=
  (start + BitVec.ofNat 28 (index / 256), index % 256)

def inw (port : Port) (d : Device) : BitVec 16 × Device :=
  match d.transfer with
  | .reading start total index =>
      if port = ATA_PRIMARY_DATA ∧ d.busy = 0 then
        let place := target start index
        (d.sector place.1 place.2,
          { d with transfer := if index + 1 = total then .idle else .reading start total (index + 1) })
      else (0xFFFF, d)
  | _ => (0xFFFF, d)

def outw (port : Port) (data : BitVec 16) (d : Device) : Device :=
  match d.transfer with
  | .writing start total index =>
      if port = ATA_PRIMARY_DATA ∧ d.busy = 0 then
        let place := target start index
        let stored := { d with
          sector := Function.update d.sector place.1 (Function.update (d.sector place.1) place.2 data) }
        if index + 1 = total then occupy { stored with transfer := .idle }
        else { stored with transfer := .writing start total (index + 1) }
      else d
  | _ => d

/-! The driver. Its loops on the status register run on fuel. -/

/-- `while (inb(ATA_PRIMARY_STATUS) & 0x80) {}` -/
def waitIdle : Nat → Device → Option Device
  | 0, _ => none
  | fuel + 1, d =>
      let (status, d) := inb ATA_PRIMARY_STATUS d
      if status &&& 0x80 ≠ 0 then waitIdle fuel d else some d

def selectSector (lba : Word) (cmd : Byte) (d : Device) : Device :=
  let d := outb ATA_PRIMARY_DRIVE (((0xE0 : Word) ||| ((lba >>> 24) &&& 0x0F)).setWidth 8) d
  let d := outb ATA_PRIMARY_SECTORS 1 d
  let d := outb ATA_PRIMARY_LBA_LO ((lba &&& 0xFF).setWidth 8) d
  let d := outb ATA_PRIMARY_LBA_MID (((lba >>> 8) &&& 0xFF).setWidth 8) d
  let d := outb ATA_PRIMARY_LBA_HI (((lba >>> 16) &&& 0xFF).setWidth 8) d
  outb ATA_PRIMARY_COMMAND cmd d

/-- The loop on `status` after a command, false when it returns -1. -/
def pollStatus : Nat → Byte → Device → Option (Bool × Device)
  | fuel, status, d =>
      if status &&& 0x80 ≠ 0 then
        if status &&& 0x01 ≠ 0 then some (false, d)
        else match fuel with
          | 0 => none
          | fuel + 1 =>
              let (status, d) := inb ATA_PRIMARY_STATUS d
              pollStatus fuel status d
      else some (true, d)

/-- The first `n` rounds of the loop over the data register. -/
def readWords : Nat → Buffer → Device → Buffer × Device
  | 0, buffer, d => (buffer, d)
  | i + 1, buffer, d =>
      let (buffer, d) := readWords i buffer d
      let (data, d) := inw ATA_PRIMARY_DATA d
      let buffer := Function.update buffer (i * 2) ((data &&& 0xFF).setWidth 8)
      let buffer := Function.update buffer (i * 2 + 1) (((data >>> 8) &&& 0xFF).setWidth 8)
      (buffer, d)

def packed (buffer : Buffer) (i : Nat) : BitVec 16 :=
  (buffer (i * 2)).setWidth 16 ||| ((buffer (i * 2 + 1)).setWidth 16 <<< 8)

def writeWords : Nat → Buffer → Device → Device
  | 0, _, d => d
  | i + 1, buffer, d => outw ATA_PRIMARY_DATA (packed buffer i) (writeWords i buffer d)

/-- The value returned, the buffer and the device; none when a loop outlasts the fuel. -/
def ataReadSector (fuel : Nat) (ataDrivePresent : Bool) (lba : Word) (buffer : Buffer) (d : Device) :
    Option (Int × Buffer × Device) :=
  if !ataDrivePresent then some (-1, buffer, d)
  else do
    let d ← waitIdle fuel d
    let d := selectSector lba ATA_CMD_READ d
    let (status, d) := inb ATA_PRIMARY_STATUS d
    let (ready, d) ← pollStatus fuel status d
    if !ready then some (-1, buffer, d)
    else
      let (buffer, d) := readWords 256 buffer d
      some (0, buffer, d)

def ataWriteSector (fuel : Nat) (ataDrivePresent : Bool) (lba : Word) (buffer : Buffer) (d : Device) :
    Option (Int × Device) :=
  if !ataDrivePresent then some (-1, d)
  else do
    let d ← waitIdle fuel d
    let d := selectSector lba ATA_CMD_WRITE d
    let d := writeWords 256 buffer d
    let (status, d) := inb ATA_PRIMARY_STATUS d
    let (ready, d) ← pollStatus fuel status d
    if !ready then some (-1, d) else some (0, d)

/-! What the loops on the status register do. -/

theorem status_error (d : Device) : status d &&& 0x01 = 0 := by
  ext i inside
  by_cases busy : 0 < d.busy
  · interval_cases i <;> simp [status, busy]
  · interval_cases i <;> simp [status, busy]

theorem status_busy {d : Device} (busy : 0 < d.busy) : status d &&& 0x80 ≠ 0 := by
  intro clear
  have bit := congrArg (fun value : Byte => value.getLsbD 7) clear
  simp [status, busy] at bit

theorem status_idle {d : Device} (idle : ¬0 < d.busy) : status d &&& 0x80 = 0 := by
  ext i inside
  interval_cases i <;> simp [status, idle]

theorem waitIdle_spec (fuel : Nat) (d : Device) (enough : d.busy < fuel) :
    waitIdle fuel d = some { d with busy := 0 } := by
  induction fuel generalizing d with
  | zero => omega
  | succ fuel ih =>
    rw [waitIdle, inb, if_pos rfl]
    by_cases busy : 0 < d.busy
    · have later := ih { d with busy := d.busy - 1 } (by simp only; omega)
      exact (if_pos (status_busy busy)).trans later
    · have idle : d.busy = 0 := by omega
      simp only [status_idle busy, idle, ne_eq, not_true, if_false]

theorem pollStatus_spec (fuel : Nat) (d : Device) (enough : d.busy ≤ fuel) :
    pollStatus fuel (status d) { d with busy := d.busy - 1 } = some (true, { d with busy := 0 }) := by
  induction fuel generalizing d with
  | zero =>
    have idle : d.busy = 0 := by omega
    rw [pollStatus, if_neg (not_not.mpr (status_idle (by omega))), idle]
  | succ fuel ih =>
    rw [pollStatus]
    by_cases busy : 0 < d.busy
    · have later := ih { d with busy := d.busy - 1 } (by simp only; omega)
      rw [if_pos (status_busy busy), if_neg (not_not.mpr (status_error d))]
      simpa only [inb, if_pos] using later
    · have idle : d.busy = 0 := by omega
      rw [if_neg (not_not.mpr (status_idle busy)), idle]

/-! The registers hold the low 28 bits of the sector number. -/

def aim (lba : Word) (d : Device) : Device :=
  { d with
    drive := ((0xE0 : Word) ||| ((lba >>> 24) &&& 0x0F)).setWidth 8
    sectorCount := 1
    lbaLo := (lba &&& 0xFF).setWidth 8
    lbaMid := ((lba >>> 8) &&& 0xFF).setWidth 8
    lbaHi := ((lba >>> 16) &&& 0xFF).setWidth 8 }

theorem selectSector_eq (lba : Word) (cmd : Byte) (d : Device) (idle : d.busy = 0) :
    selectSector lba cmd d = command cmd (aim lba d) := by
  simp [selectSector, outb, idle, aim]

theorem low_byte (x : Word) : (x &&& 0xFF).setWidth 8 = x.setWidth 8 := by
  ext i inside
  interval_cases i <;> simp

theorem drive_bit (x : Word) {j : Nat} (inside : j < 4) :
    (((0xE0 : Word) ||| (x &&& 0x0F)).setWidth 8 : Byte).getLsbD j = x.getLsbD j := by
  interval_cases j <;> simp

theorem aim_drive (lba : Word) (d : Device) :
    (aim lba d).drive.setWidth 28 <<< 24 = (lba >>> 24).setWidth 28 <<< 24 := by
  ext i inside
  have low : i - 24 < 4 := by omega
  rw [BitVec.getElem_shiftLeft, BitVec.getElem_shiftLeft, BitVec.getElem_setWidth,
    BitVec.getElem_setWidth, aim, drive_bit _ low]

theorem four_parts (lba : Word) :
    ((lba >>> 24).setWidth 28 <<< 24) ||| (((lba >>> 16).setWidth 8).setWidth 28 <<< 16) |||
      (((lba >>> 8).setWidth 8).setWidth 28 <<< 8) ||| (lba.setWidth 8).setWidth 28 = lba.setWidth 28 := by
  ext i inside
  by_cases drive : i < 24
  · by_cases high : i < 16
    · by_cases middle : i < 8
      · simp [drive, high, middle]
      · have place : 8 + (i - 8) = i := by omega
        have within : i - 8 < 8 := by omega
        simp [drive, high, middle, place, within]
    · have place : 16 + (i - 16) = i := by omega
      have within : i - 16 < 8 := by omega
      have middle : ¬i < 8 := by omega
      have past : ¬i - 8 < 8 := by omega
      simp [drive, high, middle, place, within, past]
  · have place : 24 + (i - 24) = i := by omega
    have high : ¬i < 16 := by omega
    have middle : ¬i < 8 := by omega
    have past : ¬i - 8 < 8 := by omega
    have beyond : ¬i - 16 < 8 := by omega
    simp [drive, high, middle, place, past, beyond]

theorem address_aim (lba : Word) (d : Device) : address (aim lba d) = lba.setWidth 28 := by
  rw [address, aim_drive]
  simp only [aim, low_byte]
  exact four_parts lba

theorem words_aim (lba : Word) (d : Device) : words (aim lba d) = 256 := by
  simp [words, aim]

/-! The loops on the data register move one sector. -/

theorem target_eq (start : BitVec 28) {i : Nat} (inside : i < 256) : target start i = (start, i) := by
  have whole : i / 256 = 0 := by omega
  simp [target, whole, Nat.mod_eq_of_lt inside]

/-- Where a transfer of one sector is after `i` words. -/
def progress (moving : Nat → Transfer) (i : Nat) : Transfer :=
  if i = 256 then .idle else moving i

def sectorByte (sector : Nat → BitVec 16) (i : Nat) : Byte :=
  if i % 2 = 0 then ((sector (i / 2)) &&& 0xFF).setWidth 8
  else ((sector (i / 2) >>> 8) &&& 0xFF).setWidth 8

theorem sectorByte_packed (buffer : Buffer) (i : Nat) : sectorByte (packed buffer) i = buffer i := by
  by_cases even : i % 2 = 0
  · have first : i / 2 * 2 = i := by omega
    rw [sectorByte, if_pos even, packed, first]
    ext j inside
    interval_cases j <;> simp
  · have second : i / 2 * 2 + 1 = i := by omega
    rw [sectorByte, if_neg even, packed, second]
    ext j inside
    interval_cases j <;> simp

theorem readWords_spec (n : Nat) (inside : n ≤ 256) (buffer : Buffer) (d : Device)
    (start : BitVec 28) (reading : d.transfer = .reading start 256 0) (idle : d.busy = 0) :
    readWords n buffer d =
      (fun i => if i < n * 2 then sectorByte (d.sector start) i else buffer i,
        { d with transfer := progress (.reading start 256) n }) := by
  induction n with
  | zero =>
    rw [readWords, progress, if_neg (by omega), ← reading]
    simp
  | succ n ih =>
    rw [readWords, ih (by omega)]
    have during : progress (.reading start 256) n = .reading start 256 n := if_neg (by omega)
    simp only [inw, during, idle, and_self, if_true, target_eq start (show n < 256 by omega)]
    apply Prod.ext
    · funext i
      by_cases low : i = n * 2
      · have even : n * 2 % 2 = 0 := by omega
        have half : n * 2 / 2 = n := by omega
        simp [low, sectorByte, even, half]
      · by_cases high : i = n * 2 + 1
        · have odd : (n * 2 + 1) % 2 ≠ 0 := by omega
          have half : (n * 2 + 1) / 2 = n := by omega
          have last : n * 2 + 1 < (n + 1) * 2 := by omega
          simp [high, sectorByte, half, last]
        · have same : i < (n + 1) * 2 ↔ i < n * 2 := by omega
          simp [low, high, same]
    · rfl

/-- Sector `start` of `sectors` with its first `n` words from the buffer. -/
def fill (sectors : BitVec 28 → Nat → BitVec 16) (start : BitVec 28) (buffer : Buffer) (n : Nat) :
    BitVec 28 → Nat → BitVec 16 :=
  Function.update sectors start (fun i => if i < n then packed buffer i else sectors start i)

theorem fill_zero (sectors : BitVec 28 → Nat → BitVec 16) (start : BitVec 28) (buffer : Buffer) :
    fill sectors start buffer 0 = sectors := by
  simp [fill]

theorem fill_succ (sectors : BitVec 28 → Nat → BitVec 16) (start : BitVec 28) (buffer : Buffer)
    (n : Nat) :
    Function.update (fill sectors start buffer n) start
        (Function.update (fill sectors start buffer n start) n (packed buffer n)) =
      fill sectors start buffer (n + 1) := by
  rw [fill, fill, Function.update_idem, Function.update_self]
  congr 1
  funext i
  by_cases last : i = n
  · simp [last]
  · have same : i < n + 1 ↔ i < n := by omega
    simp [last, same]

theorem writeWords_spec (n : Nat) (inside : n < 256) (buffer : Buffer) (d : Device)
    (start : BitVec 28) (writing : d.transfer = .writing start 256 0) (idle : d.busy = 0) :
    writeWords n buffer d =
      { d with
        sector := fill d.sector start buffer n
        transfer := .writing start 256 n } := by
  induction n with
  | zero => rw [writeWords, fill_zero, ← writing]
  | succ n ih =>
    rw [writeWords, ih (by omega)]
    simp only [outw, idle, and_self, if_true, target_eq start (show n < 256 by omega)]
    rw [if_neg (by omega), fill_succ]

/-- The last word of a sector makes the device busy. -/
theorem writeWords_sector (buffer : Buffer) (d : Device) (start : BitVec 28)
    (writing : d.transfer = .writing start 256 0) (idle : d.busy = 0) :
    writeWords 256 buffer d =
      occupy { d with sector := fill d.sector start buffer 256, transfer := .idle } := by
  rw [writeWords, writeWords_spec 255 (by omega) buffer d start writing idle]
  simp only [outw, idle, and_self, if_true, target_eq start (show 255 < 256 by omega)]
  rw [fill_succ]

/-! What the two calls do to a device in any state, and the round trip. -/

/-- The device after one command that was aimed at `lba` and is over. -/
def settled (lba : Word) (d : Device) : Device :=
  { aim lba d with transfer := .idle, busy := 0, operations := d.operations + 1 }

/-- The device after `buffer` was written to `lba`. -/
def written (lba : Word) (buffer : Buffer) (d : Device) : Device :=
  { settled lba d with sector := fill d.sector (lba.setWidth 28) buffer 256 }

def contents (d : Device) (lba : Word) : Buffer := sectorByte (d.sector (lba.setWidth 28))

/-- The caller's buffer after reading `lba`. -/
def received (d : Device) (lba : Word) (out : Buffer) : Buffer :=
  fun i => if i < 512 then contents d lba i else out i

theorem received_inside (d : Device) (lba : Word) (out : Buffer) {i : Nat} (inside : i < 512) :
    received d lba out i = contents d lba i := if_pos inside

theorem select_read (lba : Word) (d : Device) :
    selectSector lba ATA_CMD_READ { d with busy := 0 } =
      { aim lba d with
        transfer := .reading (lba.setWidth 28) 256 0
        busy := d.delay d.operations
        operations := d.operations + 1 } := by
  rw [selectSector_eq _ _ _ rfl, command, if_pos rfl, address_aim, words_aim]
  rfl

theorem select_write (lba : Word) (d : Device) :
    selectSector lba ATA_CMD_WRITE { d with busy := 0 } =
      { aim lba d with transfer := .writing (lba.setWidth 28) 256 0, busy := 0 } := by
  rw [selectSector_eq _ _ _ rfl, command, if_neg (by decide), if_pos rfl, address_aim, words_aim]
  rfl

theorem ataReadSector_spec (fuel : Nat) (lba : Word) (out : Buffer) (d : Device)
    (enough : d.busy < fuel) (later : d.delay d.operations ≤ fuel) :
    ataReadSector fuel true lba out d = some (0, received d lba out, settled lba d) := by
  have polled := pollStatus_spec fuel (selectSector lba ATA_CMD_READ { d with busy := 0 })
    (by rw [select_read]; exact later)
  have moved := readWords_spec 256 le_rfl out
    { selectSector lba ATA_CMD_READ { d with busy := 0 } with busy := 0 } (lba.setWidth 28)
    (by rw [select_read]) rfl
  rw [ataReadSector, if_neg (by decide), waitIdle_spec fuel d enough]
  simp only [Option.bind_eq_bind, Option.bind_some, inb, if_true, polled, moved, Bool.not_true,
    Bool.false_eq_true, if_false]
  rw [select_read]
  rfl

theorem ataWriteSector_spec (fuel : Nat) (lba : Word) (buffer : Buffer) (d : Device)
    (enough : d.busy < fuel) (later : d.delay d.operations ≤ fuel) :
    ataWriteSector fuel true lba buffer d = some (0, written lba buffer d) := by
  have moved := writeWords_sector buffer (selectSector lba ATA_CMD_WRITE { d with busy := 0 })
    (lba.setWidth 28) (by rw [select_write]) (by rw [select_write])
  have polled := pollStatus_spec fuel
    (writeWords 256 buffer (selectSector lba ATA_CMD_WRITE { d with busy := 0 }))
    (by rw [moved, select_write]; exact later)
  rw [ataWriteSector, if_neg (by decide), waitIdle_spec fuel d enough]
  simp only [Option.bind_eq_bind, Option.bind_some, inb, if_true, polled, Bool.not_true,
    Bool.false_eq_true, if_false]
  rw [moved, select_write]
  rfl

/-- The call ends with `value`, however long its loops have to wait. -/
def Returns {α : Type} (call : Nat → Option α) (value : α) : Prop :=
  ∃ least, ∀ fuel, least ≤ fuel → call fuel = some value

theorem Returns.unique {α : Type} {call : Nat → Option α} {value other : α}
    (first : Returns call value) (second : Returns call other) : value = other := by
  rcases first with ⟨least, ends⟩
  rcases second with ⟨bound, finishes⟩
  have same := (ends (max least bound) (le_max_left _ _)).symm.trans
    (finishes (max least bound) (le_max_right _ _))
  exact Option.some.inj same

theorem read_returns (lba : Word) (out : Buffer) (d : Device) :
    Returns (ataReadSector · true lba out d) (0, received d lba out, settled lba d) :=
  ⟨d.busy + d.delay d.operations + 1, fun fuel enough =>
    ataReadSector_spec fuel lba out d (by omega) (by omega)⟩

theorem write_returns (lba : Word) (buffer : Buffer) (d : Device) :
    Returns (ataWriteSector · true lba buffer d) (0, written lba buffer d) :=
  ⟨d.busy + d.delay d.operations + 1, fun fuel enough =>
    ataWriteSector_spec fuel lba buffer d (by omega) (by omega)⟩

def SameSector (first second : Buffer) : Prop := ∀ i < 512, first i = second i

/-- `buffer` is written to `lba1` and then `lba2` is read into `out`. -/
def Stored (d : Device) (lba1 lba2 : Word) (buffer out : Buffer) : Prop :=
  ∃ former earlier wrote after read result final,
    Returns (ataReadSector · true lba2 out d) (0, former, earlier) ∧
    Returns (ataWriteSector · true lba1 buffer d) (wrote, after) ∧
    Returns (ataReadSector · true lba2 out after) (read, result, final) ∧
    if lba1 = lba2 then wrote = 0 ∧ read = 0 ∧ SameSector result buffer
    else wrote ≠ 0 ∨ read ≠ 0 ∨ SameSector result former

/-- What the second sector holds once `buffer` is stored at the first. -/
def left (d : Device) (lba1 lba2 : Word) (buffer : Buffer) : Buffer :=
  if lba1.setWidth 28 = lba2.setWidth 28 then buffer else contents d lba2

theorem contents_written (d : Device) (lba1 lba2 : Word) (buffer : Buffer) {i : Nat} (inside : i < 512) :
    contents (written lba1 buffer d) lba2 i = left d lba1 lba2 buffer i := by
  by_cases aliased : lba1.setWidth 28 = lba2.setWidth 28
  · have half : i / 2 < 256 := by omega
    rw [left, if_pos aliased, contents, ← aliased, ← sectorByte_packed buffer i]
    simp [sectorByte, written, fill, half]
  · have kept : (written lba1 buffer d).sector (lba2.setWidth 28) = d.sector (lba2.setWidth 28) :=
      Function.update_of_ne (Ne.symm aliased) _ _
    rw [left, if_neg aliased, contents, contents, kept]

/-- Both calls return 0, so only the bytes decide. -/
theorem stored_eq (d : Device) (lba1 lba2 : Word) (buffer out : Buffer) :
    Stored d lba1 lba2 buffer out ↔
      SameSector (left d lba1 lba2 buffer) (if lba1 = lba2 then buffer else contents d lba2) := by
  have before := read_returns lba2 out d
  have writes := write_returns lba1 buffer d
  have reads := read_returns lba2 out (written lba1 buffer d)
  constructor
  · rintro ⟨former, earlier, wrote, after, read, result, final, first, second, third, holds⟩ i inside
    have read_before := first.unique before
    have write_value := second.unique writes
    simp only [Prod.mk.injEq] at read_before write_value
    rw [write_value.2] at third
    have read_after := third.unique reads
    simp only [Prod.mk.injEq] at read_after
    have seen : result i = left d lba1 lba2 buffer i := by
      rw [read_after.2.1, received_inside _ _ _ inside, contents_written d lba1 lba2 buffer inside]
    by_cases same : lba1 = lba2
    · rw [if_pos same] at holds ⊢
      rw [← seen]
      exact holds.2.2 i inside
    · rw [if_neg same] at holds ⊢
      have kept : SameSector result former := by
        rcases holds with failed | failed | kept
        · exact absurd write_value.1 failed
        · exact absurd read_after.1 failed
        · exact kept
      rw [← seen, kept i inside, read_before.2.1, received_inside _ _ _ inside]
  · intro same
    refine ⟨_, _, _, _, _, _, _, before, writes, reads, ?_⟩
    by_cases number : lba1 = lba2
    · rw [if_pos number] at same ⊢
      refine ⟨rfl, rfl, fun i inside => ?_⟩
      rw [received_inside _ _ _ inside, contents_written d lba1 lba2 buffer inside, same i inside]
    · rw [if_neg number] at same ⊢
      right
      right
      intro i inside
      rw [received_inside _ _ _ inside, received_inside _ _ _ inside,
        contents_written d lba1 lba2 buffer inside, same i inside]

/-- A write is invisible through another number exactly when the low 28 bits differ or it
changes nothing. -/
theorem stored_iff (d : Device) (lba1 lba2 : Word) (buffer out : Buffer) :
    Stored d lba1 lba2 buffer out ↔
      lba1 = lba2 ∨ lba1.setWidth 28 ≠ lba2.setWidth 28 ∨ SameSector buffer (contents d lba2) := by
  rw [stored_eq]
  by_cases same : lba1 = lba2
  · simp [same, left, SameSector]
  · by_cases aliased : lba1.setWidth 28 = lba2.setWidth 28
    · simp [same, aliased, left]
    · simp [same, aliased, left, SameSector]

/-- An idle disk full of zeros. -/
def blank : Device where
  drive := 0
  sectorCount := 0
  lbaLo := 0
  lbaMid := 0
  lbaHi := 0
  sector := fun _ _ => 0
  transfer := .idle
  busy := 0
  delay := fun _ => 0
  operations := 0
  other := 0x50

/-- What is written to sector 0 shows in sector 0x10000000. -/
theorem sectors_alias :
    ¬∀ (d : Device) (lba1 lba2 : Word) (buffer out : Buffer), Stored d lba1 lba2 buffer out := by
  intro claim
  have stored := claim blank 0 0x10000000 (fun _ => 1) (fun _ => 0)
  rw [stored_eq] at stored
  exact absurd (stored 0 (by decide)) (by decide)

end Vaelen.Kernel.Ata
