import Vaelen.Base.Polling
import Vaelen.Kernel.Ata

/-!
The disk driver of ata.c over any device behind the ports, and what its three calls make of the status
bytes that a device answers with.
-/

namespace Vaelen.Kernel.AtaStatus
open Vaelen.Base Ata

abbrev ATA_CMD_IDENTIFY : Byte := 0xEC

/-- The port instructions on the state of a device. -/
structure Bus (σ : Type) where
  outb : Port → Byte → σ → σ
  inb : Port → σ → Byte × σ
  inw : Port → σ → BitVec 16 × σ
  outw : Port → BitVec 16 → σ → σ

/-! The bits of the status register. -/

def busy (status : Byte) : Bool := status &&& 0x80 ≠ 0
def failed (status : Byte) : Bool := status &&& 0x01 ≠ 0
def requested (status : Byte) : Bool := status &&& 0x08 ≠ 0

section driver
variable {σ : Type} (bus : Bus σ)

/-- `while (!stop(status)) status = inb(ATA_PRIMARY_STATUS);` with the last status. -/
def poll (stop : Byte → Bool) : Nat → Byte → σ → Option (Byte × σ)
  | fuel, status, d =>
      if stop status then some (status, d)
      else match fuel with
        | 0 => none
        | fuel + 1 =>
            let (status, d) := bus.inb ATA_PRIMARY_STATUS d
            poll stop fuel status d

/-- `while (inb(ATA_PRIMARY_STATUS) & 0x80) {}` -/
def waitIdle : Nat → σ → Option σ
  | 0, _ => none
  | fuel + 1, d =>
      let (status, d) := bus.inb ATA_PRIMARY_STATUS d
      (poll bus (fun status => !busy status) fuel status d).map Prod.snd

/-- The loop that tests the error bit while the busy bit is set, false when the call returns -1 from it. -/
def pollStatus (fuel : Nat) (status : Byte) (d : σ) : Option (Bool × Byte × σ) :=
  (poll bus (fun status => !busy status || failed status) fuel status d).map fun last => (!busy last.1, last)

/-- `while ((status & 0x08) == 0) status = inb(ATA_PRIMARY_STATUS);` -/
def waitRequest (fuel : Nat) (status : Byte) (d : σ) : Option (Byte × σ) := poll bus requested fuel status d

def selectSector (lba : Word) (cmd : Byte) (d : σ) : σ :=
  let d := bus.outb ATA_PRIMARY_DRIVE (((0xE0 : Word) ||| ((lba >>> 24) &&& 0x0F)).setWidth 8) d
  let d := bus.outb ATA_PRIMARY_SECTORS 1 d
  let d := bus.outb ATA_PRIMARY_LBA_LO ((lba &&& 0xFF).setWidth 8) d
  let d := bus.outb ATA_PRIMARY_LBA_MID (((lba >>> 8) &&& 0xFF).setWidth 8) d
  let d := bus.outb ATA_PRIMARY_LBA_HI (((lba >>> 16) &&& 0xFF).setWidth 8) d
  bus.outb ATA_PRIMARY_COMMAND cmd d

def readWords : Nat → Buffer → σ → Buffer × σ
  | 0, buffer, d => (buffer, d)
  | i + 1, buffer, d =>
      let (buffer, d) := readWords i buffer d
      let (data, d) := bus.inw ATA_PRIMARY_DATA d
      let buffer := Function.update buffer (i * 2) ((data &&& 0xFF).setWidth 8)
      let buffer := Function.update buffer (i * 2 + 1) (((data >>> 8) &&& 0xFF).setWidth 8)
      (buffer, d)

def writeWords : Nat → Buffer → σ → σ
  | 0, _, d => d
  | i + 1, buffer, d => bus.outw ATA_PRIMARY_DATA (packed buffer i) (writeWords i buffer d)

/-- What a read and a write have in common: the wait for an idle device, what is sent to it, and the wait
for its answer. -/
def request (fuel : Nat) (send : σ → σ) (d : σ) : Option (Bool × σ) := do
  let d ← waitIdle bus fuel d
  let d := send d
  let (status, d) := bus.inb ATA_PRIMARY_STATUS d
  let (ready, _, d) ← pollStatus bus fuel status d
  return (ready, d)

def ataReadSector (fuel : Nat) (ataDrivePresent : Bool) (lba : Word) (buffer : Buffer) (d : σ) :
    Option (Int × Buffer × σ) :=
  if !ataDrivePresent then some (-1, buffer, d)
  else do
    let (ready, d) ← request bus fuel (selectSector bus lba ATA_CMD_READ) d
    if !ready then some (-1, buffer, d)
    else
      let (buffer, d) := readWords bus 256 buffer d
      some (0, buffer, d)

def ataWriteSector (fuel : Nat) (ataDrivePresent : Bool) (lba : Word) (buffer : Buffer) (d : σ) :
    Option (Int × σ) :=
  if !ataDrivePresent then some (-1, d)
  else do
    let (ready, d) ← request bus fuel (fun d => writeWords bus 256 buffer (selectSector bus lba ATA_CMD_WRITE d)) d
    if !ready then some (-1, d) else some (0, d)

/-- The value returned, ata_drive_present and the device. -/
def ataInit (fuel : Nat) (d : σ) : Option (Int × Bool × σ) :=
  let d := bus.outb ATA_PRIMARY_DRIVE 0xA0 d
  let d := bus.outb ATA_PRIMARY_SECTORS 0 d
  let d := bus.outb ATA_PRIMARY_LBA_LO 0 d
  let d := bus.outb ATA_PRIMARY_LBA_MID 0 d
  let d := bus.outb ATA_PRIMARY_LBA_HI 0 d
  let d := bus.outb ATA_PRIMARY_COMMAND ATA_CMD_IDENTIFY d
  let (status, d) := bus.inb ATA_PRIMARY_STATUS d
  if status = 0 then some (-1, false, d)
  else do
    let (ready, status, d) ← pollStatus bus fuel status d
    if !ready then some (-1, false, d)
    else
      let (_, d) ← waitRequest bus fuel status d
      some (0, true, d)

variable {bus} {stop : Byte → Bool} {fuel : Nat} {status : Byte} {d : σ}

theorem poll_stop (stops : stop status = true) : poll bus stop fuel status d = some (status, d) := by
  unfold poll
  rw [if_pos stops]

theorem poll_more (more : stop status = false) :
    poll bus stop (fuel + 1) status d =
      poll bus stop fuel (bus.inb ATA_PRIMARY_STATUS d).1 (bus.inb ATA_PRIMARY_STATUS d).2 := by
  rw [poll, more]
  rfl

theorem poll_out (more : stop status = false) : poll bus stop 0 status d = none := by
  rw [poll, more]
  rfl

end driver

theorem busy_iff (status : Byte) : busy status = true ↔ status &&& 0x80 ≠ 0 := decide_eq_true_iff

theorem failed_iff (status : Byte) : failed status = true ↔ status &&& 0x01 ≠ 0 := decide_eq_true_iff

/-! The disk that reports no error is one such device. -/

def disk : Bus Device where
  outb := Ata.outb
  inb := Ata.inb
  inw := Ata.inw
  outw := Ata.outw

theorem waitIdle_disk (fuel : Nat) (d : Device) : waitIdle disk fuel d = Ata.waitIdle fuel d := by
  induction fuel generalizing d with
  | zero => rfl
  | succ fuel ih =>
    rw [Ata.waitIdle]
    simp only [← busy_iff]
    cases wait : busy (inb ATA_PRIMARY_STATUS d).1 with
    | false => exact congrArg (Option.map Prod.snd) (poll_stop (congrArg not wait))
    | true =>
      rw [if_pos rfl, ← ih]
      cases fuel with
      | zero => exact congrArg (Option.map Prod.snd) (poll_out (congrArg not wait))
      | succ fuel => exact congrArg (Option.map Prod.snd) (poll_more (congrArg not wait))

theorem pollStatus_disk (fuel : Nat) (status : Byte) (d : Device) :
    (pollStatus disk fuel status d).map (fun last => (last.1, last.2.2)) = Ata.pollStatus fuel status d := by
  induction fuel generalizing status d with
  | zero =>
    rw [Ata.pollStatus]
    simp only [← busy_iff, ← failed_iff, pollStatus]
    cases wait : busy status with
    | false =>
      rw [poll_stop (by rw [wait]; rfl), Option.map_some, Option.map_some, wait]
      rfl
    | true =>
      cases error : failed status with
      | false =>
        rw [poll_out (by rw [wait, error]; rfl)]
        rfl
      | true =>
        rw [poll_stop (by rw [wait, error]; rfl), Option.map_some, Option.map_some, wait]
        rfl
  | succ fuel ih =>
    rw [Ata.pollStatus]
    simp only [← busy_iff, ← failed_iff]
    cases wait : busy status with
    | false =>
      rw [pollStatus, poll_stop (by rw [wait]; rfl), Option.map_some, Option.map_some, wait]
      rfl
    | true =>
      cases error : failed status with
      | false =>
        rw [pollStatus, poll_more (by rw [wait, error]; rfl)]
        exact ih _ _
      | true =>
        rw [pollStatus, poll_stop (by rw [wait, error]; rfl), Option.map_some, Option.map_some, wait]
        rfl

@[simp] theorem disk_outb : disk.outb = Ata.outb := rfl

theorem selectSector_disk (lba : Word) (cmd : Byte) (d : Device) :
    selectSector disk lba cmd d = Ata.selectSector lba cmd d := by
  simp only [selectSector, Ata.selectSector, disk_outb]

theorem readWords_disk (n : Nat) (buffer : Buffer) (d : Device) : readWords disk n buffer d = Ata.readWords n buffer d := by
  induction n with
  | zero => rfl
  | succ n ih =>
    rw [readWords, Ata.readWords, ih]
    rfl

theorem writeWords_disk (n : Nat) (buffer : Buffer) (d : Device) :
    writeWords disk n buffer d = Ata.writeWords n buffer d := by
  induction n with
  | zero => rfl
  | succ n ih =>
    rw [writeWords, Ata.writeWords, ih]
    rfl

theorem request_disk (fuel : Nat) (send : Device → Device) (d : Device) :
    request disk fuel send d =
      (Ata.waitIdle fuel d).bind fun d =>
        Ata.pollStatus fuel (inb ATA_PRIMARY_STATUS (send d)).1 (inb ATA_PRIMARY_STATUS (send d)).2 := by
  rw [request, waitIdle_disk]
  cases Ata.waitIdle fuel d with
  | none => rfl
  | some d =>
    rw [Option.bind_some, ← pollStatus_disk]
    change (pollStatus disk fuel _ _).bind _ = _
    rw [Option.map_eq_bind]
    rfl

theorem ataReadSector_disk (fuel : Nat) (ataDrivePresent : Bool) (lba : Word) (buffer : Buffer) (d : Device) :
    ataReadSector disk fuel ataDrivePresent lba buffer d = Ata.ataReadSector fuel ataDrivePresent lba buffer d := by
  cases ataDrivePresent with
  | false => rfl
  | true =>
    simp only [ataReadSector, request_disk, Ata.ataReadSector, readWords_disk, selectSector_disk]
    cases Ata.waitIdle fuel d with
    | none => rfl
    | some d => rfl

theorem ataWriteSector_disk (fuel : Nat) (ataDrivePresent : Bool) (lba : Word) (buffer : Buffer) (d : Device) :
    ataWriteSector disk fuel ataDrivePresent lba buffer d = Ata.ataWriteSector fuel ataDrivePresent lba buffer d := by
  cases ataDrivePresent with
  | false => rfl
  | true =>
    simp only [ataWriteSector, request_disk, Ata.ataWriteSector, writeWords_disk, selectSector_disk]
    cases Ata.waitIdle fuel d with
    | none => rfl
    | some d => rfl

/-! A device that answers from a script. -/

/-- The status bytes and the data words in the order in which they are read, how many of each have been,
and how many status bytes had been when the command or the last word was sent. -/
structure Script where
  status : Nat → Byte
  data : Nat → BitVec 16
  reads : Nat
  words : Nat
  sent : Nat

def script : Bus Script where
  outb port _ d := if port = ATA_PRIMARY_COMMAND then { d with sent := d.reads } else d
  inb port d := if port = ATA_PRIMARY_STATUS then (d.status d.reads, { d with reads := d.reads + 1 }) else (0xFF, d)
  inw port d := if port = ATA_PRIMARY_DATA then (d.data d.words, { d with words := d.words + 1 }) else (0xFFFF, d)
  outw port _ d := if port = ATA_PRIMARY_DATA then { d with sent := d.reads } else d

variable {stop : Byte → Bool} {d t : Script} {fuel i m w : Nat}

/-- A loop that begins with status `i` ends with the first status that stops it. -/
theorem poll_first (first : FirstFrom (fun k => stop (d.status k) = true) i m) (enough : m ≤ i + fuel) :
    poll script stop fuel (d.status i) { d with reads := i + 1 } = some (d.status m, { d with reads := m + 1 }) := by
  induction fuel generalizing i with
  | zero =>
    have same : i = m := Nat.le_antisymm first.1 enough
    rw [same]
    exact poll_stop first.2.1
  | succ fuel ih =>
    cases stops : stop (d.status i) with
    | true =>
      rw [FirstFrom.unique first (FirstFrom.here stops)]
      exact poll_stop stops
    | false =>
      rw [poll_more stops]
      exact ih (i := i + 1) ((FirstFrom.later (by rw [stops]; exact Bool.false_ne_true)).mp first) (by omega)

theorem poll_some {last : Byte × Script}
    (ended : poll script stop fuel (d.status i) { d with reads := i + 1 } = some last) :
    ∃ m, FirstFrom (fun k => stop (d.status k) = true) i m ∧ last = (d.status m, { d with reads := m + 1 }) := by
  induction fuel generalizing i with
  | zero =>
    cases stops : stop (d.status i) with
    | true =>
      rw [poll_stop stops] at ended
      exact ⟨i, FirstFrom.here stops, (Option.some.inj ended).symm⟩
    | false =>
      rw [poll_out stops] at ended
      exact absurd ended (Option.some_ne_none _).symm
  | succ fuel ih =>
    cases stops : stop (d.status i) with
    | true =>
      rw [poll_stop stops] at ended
      exact ⟨i, FirstFrom.here stops, (Option.some.inj ended).symm⟩
    | false =>
      rw [poll_more stops] at ended
      obtain ⟨m, first, last⟩ := ih ended
      exact ⟨m, (FirstFrom.later (by rw [stops]; exact Bool.false_ne_true)).mpr first, last⟩

/-- The status with this number has the busy bit clear. -/
def Idle (d : Script) (k : Nat) : Prop := busy (d.status k) = false

/-- Or it shows an error. -/
def Answers (d : Script) (k : Nat) : Prop := Idle d k ∨ failed (d.status k) = true

theorem idle_eq (d : Script) : (fun k => (!busy (d.status k)) = true) = Idle d := by
  funext k
  exact Bool.not_eq_true' _

theorem answers_eq (d : Script) : (fun k => (!busy (d.status k) || failed (d.status k)) = true) = Answers d := by
  funext k
  rw [Bool.or_eq_true, Bool.not_eq_true', Answers, Idle]

theorem waitIdle_first (first : FirstFrom (Idle d) d.reads w) (enough : w < d.reads + fuel) :
    waitIdle script fuel d = some { d with reads := w + 1 } := by
  cases fuel with
  | zero =>
    have after := first.1
    omega
  | succ fuel =>
    rw [← idle_eq] at first
    exact congrArg (Option.map Prod.snd) (poll_first first (by omega))

theorem waitIdle_some (ended : waitIdle script fuel d = some t) :
    ∃ w, FirstFrom (Idle d) d.reads w ∧ t = { d with reads := w + 1 } := by
  cases fuel with
  | zero => exact absurd ended (Option.some_ne_none t).symm
  | succ fuel =>
    obtain ⟨last, polled, same⟩ := Option.map_eq_some_iff.mp ended
    obtain ⟨w, first, rfl⟩ := poll_some polled
    rw [idle_eq] at first
    exact ⟨w, first, same.symm⟩

theorem pollStatus_first (first : FirstFrom (Answers d) i m) (enough : m ≤ i + fuel) :
    pollStatus script fuel (d.status i) { d with reads := i + 1 } =
      some (!busy (d.status m), d.status m, { d with reads := m + 1 }) := by
  rw [← answers_eq] at first
  rw [pollStatus, poll_first first enough]
  rfl

theorem pollStatus_some {last : Bool × Byte × Script}
    (ended : pollStatus script fuel (d.status i) { d with reads := i + 1 } = some last) :
    ∃ m, FirstFrom (Answers d) i m ∧ last = (!busy (d.status m), d.status m, { d with reads := m + 1 }) := by
  obtain ⟨polled, found, same⟩ := Option.map_eq_some_iff.mp ended
  obtain ⟨m, first, rfl⟩ := poll_some found
  rw [answers_eq] at first
  exact ⟨m, first, same.symm⟩

/-! The outcome of a read or a write. -/

/-- What a caller relies on: 0 is returned only if the first idle status after what was sent shows no error,
and, for a read, a request for data. -/
structure Reported (reading : Bool) (value : Int) (d : Script) : Prop where
  binary : value = 0 ∨ value = -1
  ready : value = 0 →
    ∃ m, FirstFrom (Idle d) d.sent m ∧ failed (d.status m) = false ∧ (reading → requested (d.status m) = true)

/-- The status bytes of which that holds: before the first idle status after what was sent an error shows, or it
shows none itself. -/
def Trusted (reading : Bool) (d : Script) : Prop :=
  ∀ w m, FirstFrom (Idle d) d.reads w → FirstFrom (Idle d) (w + 1) m →
    (∃ k, w < k ∧ k < m ∧ failed (d.status k) = true) ∨
      failed (d.status m) = false ∧ (reading → requested (d.status m) = true)

/-- Sending marks the place in the sequence of the status bytes. -/
def Marks (send : Script → Script) (d : Script) : Prop :=
  ∀ n, send { d with reads := n } = { d with reads := n, sent := n }

variable {send : Script → Script} {reading : Bool}

theorem request_first (marks : Marks send d) (wait : FirstFrom (Idle d) d.reads w)
    (answer : FirstFrom (Answers d) (w + 1) m) :
    request script (m + 1) send d = some (!busy (d.status m), { d with reads := m + 1, sent := w + 1 }) := by
  have before := wait.1
  have after := answer.1
  have polled : pollStatus script (m + 1) (d.status (w + 1)) { d with reads := w + 1 + 1, sent := w + 1 } =
      some (!busy (d.status m), d.status m, { d with reads := m + 1, sent := w + 1 }) :=
    pollStatus_first (d := { d with sent := w + 1 }) answer (by omega)
  rw [request, waitIdle_first wait (by omega)]
  change (pollStatus script (m + 1) (script.inb _ (send _)).1 (script.inb _ (send _)).2).bind _ = _
  rw [marks]
  change (pollStatus script (m + 1) (d.status (w + 1)) { d with reads := w + 1 + 1, sent := w + 1 }).bind _ = _
  rw [polled]
  rfl

theorem request_some (marks : Marks send d) {ready : Bool} (ended : request script fuel send d = some (ready, t)) :
    ∃ w m, FirstFrom (Idle d) d.reads w ∧ FirstFrom (Answers d) (w + 1) m ∧ ready = !busy (d.status m) ∧
      t = { d with reads := m + 1, sent := w + 1 } := by
  obtain ⟨s, waited, rest⟩ := Option.bind_eq_some_iff.mp ended
  obtain ⟨w, wait, rfl⟩ := waitIdle_some waited
  obtain ⟨last, polled, same⟩ := Option.bind_eq_some_iff.mp rest
  rw [marks] at polled
  obtain ⟨m, answer, rfl⟩ := pollStatus_some (d := { d with sent := w + 1 }) polled
  obtain ⟨rfl, rfl⟩ := Prod.mk.inj (Option.some.inj same)
  exact ⟨w, m, wait, answer, rfl, rfl⟩

theorem request_reported_iff (marks : Marks send d) (reading : Bool) :
    (∀ fuel ready t, request script fuel send d = some (ready, t) → Reported reading (if ready then 0 else -1) t) ↔
      Trusted reading d := by
  constructor
  · intro reported w m wait idle
    by_cases early : ∃ k, w < k ∧ k < m ∧ failed (d.status k) = true
    · exact Or.inl early
    · right
      have answer : FirstFrom (Answers d) (w + 1) m :=
        idle.either fun k after before error => early ⟨k, after, before, error⟩
      have ready : busy (d.status m) = false := idle.2.1
      have outcome := reported _ _ _ (request_first marks wait answer)
      rw [ready] at outcome
      obtain ⟨n, first, right⟩ := outcome.ready rfl
      rw [FirstFrom.unique idle first]
      exact right
  · intro trusted fuel ready t ended
    obtain ⟨w, m, wait, answer, rfl, rfl⟩ := request_some marks ended
    cases still : busy (d.status m) with
    | true => exact ⟨Or.inr rfl, fun zero => absurd zero (by decide)⟩
    | false =>
      have idle : FirstFrom (Idle d) (w + 1) m :=
        ⟨answer.1, still, fun k after before none => answer.2.2 k after before (Or.inl none)⟩
      refine ⟨Or.inl rfl, fun _ => ⟨m, idle, ?_⟩⟩
      rcases trusted w m wait idle with ⟨k, after, before, error⟩ | right
      · exact absurd (Or.inr error) (answer.2.2 k after before)
      · exact right

theorem marks_selectSector (lba : Word) (cmd : Byte) (d : Script) : Marks (selectSector script lba cmd) d := fun _ => rfl

theorem writeWords_sent (n : Nat) (buffer : Buffer) (d : Script) (sent : d.sent = d.reads) :
    writeWords script n buffer d = d := by
  induction n with
  | zero => rfl
  | succ n ih =>
    rw [writeWords, ih]
    exact congrArg (fun n => { d with sent := n }) sent.symm

theorem marks_writeWords (n : Nat) (buffer : Buffer) (lba : Word) (d : Script) :
    Marks (fun d => writeWords script n buffer (selectSector script lba ATA_CMD_WRITE d)) d := fun m =>
  writeWords_sent n buffer { d with reads := m, sent := m } rfl

theorem readWords_words (n : Nat) (buffer : Buffer) (d : Script) :
    (readWords script n buffer d).2 = { d with words := d.words + n } := by
  induction n with
  | zero => rfl
  | succ n ih =>
    change (script.inw ATA_PRIMARY_DATA (readWords script n buffer d).2).2 = _
    rw [ih]
    rfl

theorem Reported.words {value : Int} (n : Nat) :
    Reported reading value { d with words := n } ↔ Reported reading value d :=
  ⟨fun reported => ⟨reported.binary, reported.ready⟩, fun reported => ⟨reported.binary, reported.ready⟩⟩

theorem reported_absent : Reported reading (-1) d :=
  ⟨Or.inr rfl, fun zero => absurd zero (by decide)⟩

theorem ataReadSector_request (fuel : Nat) (lba : Word) (buffer : Buffer) (d : Script) :
    ataReadSector script fuel true lba buffer d =
      (request script fuel (selectSector script lba ATA_CMD_READ) d).map fun last =>
        if last.1 then (0, readWords script 256 buffer last.2) else (-1, buffer, last.2) := by
  rw [ataReadSector, if_neg (by decide)]
  cases request script fuel (selectSector script lba ATA_CMD_READ) d with
  | none => rfl
  | some last =>
    obtain ⟨ready, t⟩ := last
    cases ready with
    | false => rfl
    | true =>
      simp only [Option.bind_eq_bind, Option.bind_some, Option.map_some]
      generalize readWords script 256 buffer t = moved
      rfl

theorem ataWriteSector_request (fuel : Nat) (lba : Word) (buffer : Buffer) (d : Script) :
    ataWriteSector script fuel true lba buffer d =
      (request script fuel (fun d => writeWords script 256 buffer (selectSector script lba ATA_CMD_WRITE d)) d).map
        fun last => (if last.1 then 0 else -1, last.2) := by
  rw [ataWriteSector, if_neg (by decide)]
  cases request script fuel _ d with
  | none => rfl
  | some last =>
    obtain ⟨ready, t⟩ := last
    cases ready <;> rfl

/-- Every result of ata_read_sector is one that its caller may rely on. -/
def ReadReported (ataDrivePresent : Bool) (lba : Word) (buffer : Buffer) (d : Script) : Prop :=
  ∀ fuel value out t, ataReadSector script fuel ataDrivePresent lba buffer d = some (value, out, t) →
    Reported true value t

def WriteReported (ataDrivePresent : Bool) (lba : Word) (buffer : Buffer) (d : Script) : Prop :=
  ∀ fuel value t, ataWriteSector script fuel ataDrivePresent lba buffer d = some (value, t) → Reported false value t

theorem ataReadSector_reported_iff (ataDrivePresent : Bool) (lba : Word) (buffer : Buffer) (d : Script) :
    ReadReported ataDrivePresent lba buffer d ↔ (ataDrivePresent = true → Trusted true d) := by
  cases ataDrivePresent with
  | false =>
    refine ⟨fun _ present => absurd present (by decide), fun _ fuel value out t ended => ?_⟩
    obtain ⟨rfl, _⟩ := Prod.mk.inj (Option.some.inj ended)
    exact reported_absent
  | true =>
    rw [← request_reported_iff (marks_selectSector lba ATA_CMD_READ d) true]
    constructor
    · intro reported _ fuel ready t ended
      have outcome := reported fuel
      rw [ataReadSector_request, ended] at outcome
      cases ready with
      | false => exact reported_absent
      | true =>
        have words := readWords_words 256 buffer t
        simp only [Option.map_some, if_true] at outcome
        generalize readWords script 256 buffer t = moved at outcome words
        have read := outcome 0 moved.1 moved.2 rfl
        rw [words] at read
        exact (Reported.words _).mp read
    · intro reported fuel value out t ended
      rw [ataReadSector_request] at ended
      obtain ⟨⟨ready, s⟩, requested, same⟩ := Option.map_eq_some_iff.mp ended
      have outcome := reported rfl fuel ready s requested
      cases ready with
      | false =>
        obtain ⟨rfl, _⟩ := Prod.mk.inj same
        exact reported_absent
      | true =>
        obtain ⟨rfl, rest⟩ := Prod.mk.inj same
        have words := readWords_words 256 buffer s
        rw [rest] at words
        change t = _ at words
        rw [words]
        exact (Reported.words _).mpr outcome

theorem ataWriteSector_reported_iff (ataDrivePresent : Bool) (lba : Word) (buffer : Buffer) (d : Script) :
    WriteReported ataDrivePresent lba buffer d ↔ (ataDrivePresent = true → Trusted false d) := by
  cases ataDrivePresent with
  | false =>
    refine ⟨fun _ present => absurd present (by decide), fun _ fuel value t ended => ?_⟩
    obtain ⟨rfl, _⟩ := Prod.mk.inj (Option.some.inj ended)
    exact reported_absent
  | true =>
    rw [← request_reported_iff (marks_writeWords 256 buffer lba d) false]
    constructor
    · intro reported _ fuel ready t ended
      have outcome := reported fuel (if ready then 0 else -1) t
      rw [ataWriteSector_request, ended] at outcome
      exact outcome rfl
    · intro reported fuel value t ended
      rw [ataWriteSector_request] at ended
      obtain ⟨⟨ready, s⟩, requested, same⟩ := Option.map_eq_some_iff.mp ended
      obtain ⟨rfl, rfl⟩ := Prod.mk.inj same
      exact reported rfl fuel ready s requested

/-- Both calls report what they should exactly when no drive is present or the status bytes can be trusted. -/
theorem ata_reported_iff (ataDrivePresent : Bool) (lba : Word) (buffer : Buffer) (d : Script) :
    (ReadReported ataDrivePresent lba buffer d ↔ (ataDrivePresent = true → Trusted true d)) ∧
      (WriteReported ataDrivePresent lba buffer d ↔ (ataDrivePresent = true → Trusted false d)) :=
  ⟨ataReadSector_reported_iff ataDrivePresent lba buffer d, ataWriteSector_reported_iff ataDrivePresent lba buffer d⟩

/-- Idle at first, then an error and no longer busy. -/
def refusing : Script where
  status := fun k => if k = 0 then 0x50 else 0x51
  data := fun _ => 0
  reads := 0
  words := 0
  sent := 0

theorem ata_not_reported :
    ¬∀ (ataDrivePresent : Bool) (lba : Word) (buffer : Buffer) (d : Script),
      ReadReported ataDrivePresent lba buffer d ∧ WriteReported ataDrivePresent lba buffer d := by
  intro claim
  have trusted := (ataReadSector_reported_iff true 0 (fun _ => 0) refusing).mp (claim _ _ _ _).1 rfl
  have idle : ∀ k, Idle refusing k := fun k => by
    by_cases first : k = 0
    · simp [Idle, refusing, busy, first]
    · simp [Idle, refusing, busy, first]
  rcases trusted 0 1 (FirstFrom.here (idle 0)) (FirstFrom.here (idle 1)) with ⟨k, after, before, _⟩ | ⟨none, _⟩
  · omega
  · exact absurd none (by decide)

/-! ata_init. -/

/-- From some point on the device is idle and has an error or a request to show. -/
def Settles (d : Script) : Prop :=
  ∃ n, ∀ k, n ≤ k → Idle d k ∧ (failed (d.status k) = true ∨ requested (d.status k) = true)

/-- ata_init returns, and finds a drive only if the last status it read requests data. -/
def Probes (d : Script) : Prop :=
  ∃ value present t, Returns (ataInit script · d) (value, present, t) ∧
    (value = 0 ∧ present = true ∧ requested (t.status (t.reads - 1)) = true ∨ value = -1 ∧ present = false)

/-- The first status byte is zero, an error shows while the device is busy, or data is requested once it
has been idle. -/
def Detects (d : Script) : Prop :=
  d.status d.reads = 0 ∨
    (∃ n, d.reads ≤ n ∧ failed (d.status n) = true ∧ ∀ k, d.reads ≤ k → k ≤ n → ¬Idle d k) ∨
    ∃ m n, d.reads ≤ m ∧ m ≤ n ∧ Idle d m ∧ requested (d.status n) = true

/-- The first status byte is read after the command. -/
theorem ataInit_eq (fuel : Nat) (d : Script) :
    ataInit script fuel d =
      if d.status d.reads = 0 then some (-1, false, { d with sent := d.reads, reads := d.reads + 1 })
      else
        (pollStatus script fuel (d.status d.reads) { d with sent := d.reads, reads := d.reads + 1 }).bind fun last =>
          if last.1 then (waitRequest script fuel last.2.1 last.2.2).map fun found => (0, true, found.2)
          else some (-1, false, last.2.2) := by
  change (if d.status d.reads = 0 then _ else _) = _
  congr 1
  change (pollStatus script fuel _ _).bind _ = (pollStatus script fuel _ _).bind _
  congr 1
  funext last
  obtain ⟨ready, status, s⟩ := last
  cases ready with
  | false => rfl
  | true =>
    change (waitRequest script fuel status s).bind _ = (waitRequest script fuel status s).map _
    rw [Option.map_eq_bind]
    rfl

theorem probes_zero (zero : d.status d.reads = 0) : Probes d := by
  refine ⟨-1, false, { d with sent := d.reads, reads := d.reads + 1 }, ⟨0, fun fuel _ => ?_⟩, Or.inr ⟨rfl, rfl⟩⟩
  exact (ataInit_eq fuel d).trans (if_pos zero)

/-- Where the first loop stops on an error, there is no drive. -/
theorem probes_error (answer : FirstFrom (Answers d) d.reads m) (error : ¬Idle d m) : Probes d := by
  have wait : busy (d.status m) = true := Bool.not_eq_false _ ▸ error
  refine ⟨-1, false, { d with sent := d.reads, reads := m + 1 }, ⟨m, fun fuel enough => ?_⟩, Or.inr ⟨rfl, rfl⟩⟩
  have nonzero : d.status d.reads ≠ 0 := by
    intro zero
    have first : FirstFrom (Answers d) d.reads d.reads := FirstFrom.here (Or.inl (by rw [Idle, zero]; rfl))
    rw [FirstFrom.unique answer first, Idle, zero] at error
    exact error rfl
  have polled : pollStatus script fuel (d.status d.reads) { d with sent := d.reads, reads := d.reads + 1 } =
      some (!busy (d.status m), d.status m, { d with sent := d.reads, reads := m + 1 }) :=
    pollStatus_first (d := { d with sent := d.reads }) answer (by omega)
  refine (ataInit_eq fuel d).trans ?_
  rw [if_neg nonzero, polled, wait]
  rfl

/-- Where it stops on an idle status, the next request for data ends the wait. -/
theorem probes_request {n : Nat} (nonzero : d.status d.reads ≠ 0) (answer : FirstFrom (Answers d) d.reads m) (idle : Idle d m)
    (asked : FirstFrom (fun k => requested (d.status k) = true) m n) : Probes d := by
  refine ⟨0, true, { d with sent := d.reads, reads := n + 1 }, ⟨n, fun fuel enough => ?_⟩, Or.inl ⟨rfl, rfl, ?_⟩⟩
  · have after := asked.1
    have polled : pollStatus script fuel (d.status d.reads) { d with sent := d.reads, reads := d.reads + 1 } =
        some (!busy (d.status m), d.status m, { d with sent := d.reads, reads := m + 1 }) :=
      pollStatus_first (d := { d with sent := d.reads }) answer (by omega)
    have found : waitRequest script fuel (d.status m) { d with sent := d.reads, reads := m + 1 } =
        some (d.status n, { d with sent := d.reads, reads := n + 1 }) :=
      poll_first (d := { d with sent := d.reads }) asked (by omega)
    have ready : busy (d.status m) = false := idle
    refine (ataInit_eq fuel d).trans ?_
    rw [if_neg nonzero, polled, ready]
    exact congrArg (Option.map _) found
  · exact asked.2.1

/-- Where ata_init ends, both loops have. -/
theorem Probes.detects {d : Script} (probes : Probes d) : Detects d := by
  obtain ⟨value, present, t, ⟨fuel, ends⟩, _⟩ := probes
  have ended := (ataInit_eq fuel d).symm.trans (ends fuel le_rfl)
  by_cases zero : d.status d.reads = 0
  · exact Or.inl zero
  · rw [if_neg zero] at ended
    obtain ⟨last, polled, rest⟩ := Option.bind_eq_some_iff.mp ended
    obtain ⟨m, answer, rfl⟩ := pollStatus_some (d := { d with sent := d.reads }) polled
    right
    cases wait : busy (d.status m) with
    | true =>
      left
      have error : ¬Idle d m := by
        rw [Idle, wait]
        decide
      refine ⟨m, answer.1, answer.2.1.resolve_left error, fun k after before idle => ?_⟩
      rcases Nat.eq_or_lt_of_le before with rfl | before
      · exact error idle
      · exact answer.2.2 k after before (Or.inl idle)
    | false =>
      right
      change (if (!busy (d.status m)) = true then _ else _) = _ at rest
      rw [wait, Bool.not_false, if_pos rfl] at rest
      obtain ⟨found, waited, _⟩ := Option.map_eq_some_iff.mp rest
      obtain ⟨n, asked, _⟩ := poll_some (d := { d with sent := d.reads }) waited
      exact ⟨m, n, answer.1, asked.1, wait, asked.2.1⟩

/-- ata_init ends with a drive found or not found exactly when the device can be detected. -/
theorem ataInit_probes_iff (d : Script) : Probes d ↔ Detects d := by
  constructor
  · exact Probes.detects
  · rintro (zero | ⟨n, after, error, waits⟩ | ⟨m, n, after, later, idle, asked⟩)
    · exact probes_zero zero
    · obtain ⟨m, before, answer⟩ := FirstFrom.exists_le (p := Answers d) after (Or.inr error)
      exact probes_error answer (waits m answer.1 before)
    · obtain ⟨first, before, answer⟩ := FirstFrom.exists_le (p := Answers d) after (Or.inl idle)
      by_cases stops : Idle d first
      · by_cases zero : d.status d.reads = 0
        · exact probes_zero zero
        · obtain ⟨last, _, found⟩ :=
            FirstFrom.exists_le (p := fun k => requested (d.status k) = true) (before.trans later) asked
          exact probes_request zero answer stops found
      · exact probes_error answer stops

/-- Idle with an error, and no request, for ever: the second loop does not end. -/
def aborting : Script where
  status := fun _ => 0x51
  data := fun _ => 0
  reads := 0
  words := 0
  sent := 0

theorem ataInit_not_probes : ¬∀ d : Script, Settles d → Probes d := by
  intro claim
  have idle : ∀ k, Idle aborting k := fun _ => (by decide : busy 0x51 = false)
  have error : ∀ k, failed (aborting.status k) = true := fun _ => (by decide : failed 0x51 = true)
  have settled : Settles aborting := ⟨0, fun k _ => ⟨idle k, Or.inl (error k)⟩⟩
  rcases (claim aborting settled).detects with zero | ⟨n, _, _, waits⟩ | ⟨_, n, _, _, _, asked⟩
  · exact absurd zero (by decide)
  · exact waits n (Nat.zero_le n) le_rfl (idle n)
  · exact absurd asked (by decide : ¬requested 0x51 = true)

end Vaelen.Kernel.AtaStatus
