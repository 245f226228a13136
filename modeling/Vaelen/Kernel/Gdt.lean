import Vaelen.Base.Segmentation
import Vaelen.Kernel.Interrupts

/-!
The descriptors of gdt.c. An entry gives back what it was set to, and with the table of gdt_init
every selector that the kernel loads, there and in its interrupt path, is flat: addresses are what
the rest of the kernel takes them for.
-/

namespace Vaelen.Kernel.Gdt
open Vaelen.Base X86 Segmentation TrapFrame Interrupts

def store16 (memory : Mem) (address : Word) (value : BitVec 16) : Mem :=
  store8 (store8 memory address (value.extractLsb' 0 8)) (address + 1) (value.extractLsb' 8 8)

/-- The fields of the packed struct gdt_entry lie 0, 2, 4, 5, 6 and 7 bytes from its start. -/
def gdtSetGate (gdt num base limit : Word) (access gran : Byte) (memory : Mem) : Mem :=
  let entry := gdt + 8 * num
  let memory := store16 memory (entry + 2) ((base &&& 0xFFFF).setWidth 16)
  let memory := store8 memory (entry + 4) (((base >>> 16) &&& 0xFF).setWidth 8)
  let memory := store8 memory (entry + 7) (((base >>> 24) &&& 0xFF).setWidth 8)
  let memory := store16 memory entry ((limit &&& 0xFFFF).setWidth 16)
  let memory := store8 memory (entry + 6)
    ((((limit >>> 16) &&& 0x0F) ||| (gran.setWidth 32 &&& 0xF0)).setWidth 8)
  store8 memory (entry + 5) access

/-- The table and the packed struct gdt_ptr. -/
def fillTable (gdt gp : Word) (memory : Mem) : Mem :=
  let memory := store16 memory gp 39
  let memory := store32 memory (gp + 2) gdt
  let memory := gdtSetGate gdt 0 0 0 0 0 memory
  let memory := gdtSetGate gdt 1 0 0xFFFFFFFF 0x9A 0xCF memory
  let memory := gdtSetGate gdt 2 0 0xFFFFFFFF 0x92 0xCF memory
  let memory := gdtSetGate gdt 3 0 0xFFFFFFFF 0xFA 0xCF memory
  gdtSetGate gdt 4 0 0xFFFFFFFF 0xF2 0xCF memory

def lgdt (memory : Mem) (address : Word) : TableRegister where
  limit := memory (address + 1) ++ memory address
  base := load32 memory (address + 2)

/-- The code of gdt_flush.s, with the register that lgdt loads. -/
def gdtFlush (zeroExtend : Bool) (m : Machine) : TableRegister × Machine :=
  let m := exec zeroExtend [.load .eax ⟨.esp, 4⟩] m
  let table := lgdt m.mem (m.reg .eax)
  let m := exec zeroExtend
    [.movAx 0x10, .movSeg .ds, .movSeg .es, .movSeg .fs, .movSeg .gs, .movSeg .ss] m
  let m := { m with seg := Function.update m.seg .cs 0x08 }
  (table, exec zeroExtend [.ret] m)

def gdtInit (zeroExtend : Bool) (gdt gp returnAddress : Word) (m : Machine) :
    TableRegister × Machine :=
  let m := { m with mem := fillTable gdt gp m.mem }
  gdtFlush zeroExtend ((m.push gp).push returnAddress)

/-! One entry. -/

/-- The four bytes of the base, put together again. -/
theorem base_bytes (base : Word) :
    (base >>> 24).setWidth 8 ++ (base >>> 16).setWidth 8 ++ (base.setWidth 16).extractLsb' 8 8 ++
      (base.setWidth 16).extractLsb' 0 8 = base := by
  ext i hi
  simp only [BitVec.getElem_append, BitVec.getElem_setWidth, BitVec.getElem_extractLsb',
    BitVec.getLsbD_setWidth, BitVec.getLsbD_ushiftRight]
  grind

/-- The two bytes of the limit and the lower half of the byte it shares with the flags. -/
theorem limit_bytes (limit : Word) (gran : Byte) :
    ((limit >>> 16).setWidth 8 &&& 0x0F ||| gran &&& 0xF0).extractLsb' 0 4 ++
      (limit.setWidth 16).extractLsb' 8 8 ++ (limit.setWidth 16).extractLsb' 0 8 =
      limit.setWidth 20 := by
  have low : ∀ i < 4, (0x0F : Byte).getLsbD i = true ∧ (0xF0 : Byte).getLsbD i = false := by decide
  ext i hi
  simp only [BitVec.getElem_append, BitVec.getElem_setWidth, BitVec.getElem_extractLsb',
    BitVec.getLsbD_setWidth, BitVec.getLsbD_ushiftRight, BitVec.getLsbD_and, BitVec.getLsbD_or]
  grind

theorem flag_bits (limit : Word) (gran : Byte) :
    ((limit >>> 16).setWidth 8 &&& 0x0F ||| gran &&& 0xF0).extractLsb' 4 4 = gran.extractLsb' 4 4 := by
  have high : ∀ i < 4, (0x0F : Byte).getLsbD (4 + i) = false ∧ (0xF0 : Byte).getLsbD (4 + i) = true := by
    decide
  ext i hi
  simp only [BitVec.getElem_extractLsb', BitVec.getLsbD_and, BitVec.getLsbD_or, high i hi]
  simp

section gate
variable (gdt num base limit : Word) (access gran : Byte) (memory : Mem)

theorem gdtSetGate_outside : SameOutside (Within (gdt + 8 * num) 8) memory
    (gdtSetGate gdt num base limit access gran memory) := by
  intro x outside
  unfold Within at outside
  have other : ∀ k : Word, k.toNat < 8 → x ≠ gdt + 8 * num + k := by
    rintro k small rfl
    exact outside (by bv_omega)
  have start : x ≠ gdt + 8 * num := by simpa using other 0 (by decide)
  have third : x ≠ gdt + 8 * num + 2 + 1 := by
    rw [BitVec.add_assoc]
    exact other (2 + 1) (by decide)
  simp only [gdtSetGate, store16]
  rw [store8_other (other 5 (by decide)), store8_other (other 6 (by decide)),
    store8_other (other 1 (by decide)), store8_other start, store8_other (other 7 (by decide)),
    store8_other (other 4 (by decide)), store8_other third, store8_other (other 2 (by decide))]

/-- An entry is read by the processor as it was set; the upper half of gran is its flags. -/
theorem readDescriptor_gdtSetGate :
    readDescriptor (gdtSetGate gdt num base limit access gran memory) (gdt + 8 * num) =
      { base := base
        limit := limit.setWidth 20
        access := access
        flags := gran.extractLsb' 4 4 } := by
  have byte : ∀ x : Byte, x &&& 255#8 = x := fun _ => BitVec.and_allOnes
  have half : ∀ x : BitVec 16, x &&& 65535#16 = x := fun _ => BitVec.and_allOnes
  simp only [readDescriptor, gdtSetGate, store16, store8, BitVec.add_assoc]
  simp [byte, half]
  exact ⟨base_bytes base, limit_bytes limit gran, flag_bits limit gran⟩

theorem readDescriptor_gdtSetGate_other (small : num.toNat < 2 ^ 29) {other : Word}
    (bound : other.toNat < 2 ^ 29) (different : other ≠ num) :
    readDescriptor (gdtSetGate gdt num base limit access gran memory) (gdt + 8 * other) =
      readDescriptor memory (gdt + 8 * other) := by
  apply readDescriptor_eq
  intro k inside
  apply gdtSetGate_outside
  unfold Within
  bv_omega

/-- A gate is read as it was set, and setting it leaves the others as they were. -/
theorem gdtSetGate_roundTrip (small : num.toNat < 2 ^ 29) :
    readDescriptor (gdtSetGate gdt num base limit access gran memory) (gdt + 8 * num) =
        { base := base
          limit := limit.setWidth 20
          access := access
          flags := gran.extractLsb' 4 4 } ∧
      ∀ other : Word, other.toNat < 2 ^ 29 → other ≠ num →
        readDescriptor (gdtSetGate gdt num base limit access gran memory) (gdt + 8 * other) =
          readDescriptor memory (gdt + 8 * other) :=
  ⟨readDescriptor_gdtSetGate .., fun _ => readDescriptor_gdtSetGate_other _ _ _ _ _ _ _ small⟩

end gate

/-- Entry 4 of a table at 0x100000: user data of 1 MiB from 0x200000. -/
theorem gdtSetGate_roundTrip_user :
    readDescriptor (gdtSetGate 0x100000 4 0x200000 0xFF 0xF2 0xCF fun _ => 0) (0x100000 + 8 * 4) =
        { base := 0x200000, limit := 0xFF, access := 0xF2, flags := 0xC } ∧
      ∀ other : Word, other.toNat < 2 ^ 29 → other ≠ 4 →
        readDescriptor (gdtSetGate 0x100000 4 0x200000 0xFF 0xF2 0xCF fun _ => 0) (0x100000 + 8 * other) =
          readDescriptor (fun _ => 0) (0x100000 + 8 * other) :=
  gdtSetGate_roundTrip 0x100000 4 0x200000 0xFF 0xF2 0xCF (fun _ => 0) (by decide)

/-! The table. -/

def kernelCode : Descriptor := ⟨0, 0xFFFFF, 0x9A, 0xC⟩
def kernelData : Descriptor := ⟨0, 0xFFFFF, 0x92, 0xC⟩

theorem kernelCode_flat : kernelCode.Flat ∧ kernelCode.code ∧ kernelCode.privilege = 0 :=
  ⟨⟨rfl, rfl, rfl⟩, rfl, rfl⟩

theorem kernelData_flat : kernelData.Flat ∧ kernelData.writable ∧ kernelData.privilege = 0 :=
  ⟨⟨rfl, rfl, rfl⟩, rfl, rfl⟩

section table
variable (gdt gp : Word) (memory : Mem)

theorem fillTable_code : readDescriptor (fillTable gdt gp memory) (gdt + 8 * 1) = kernelCode := by
  unfold fillTable
  rw [readDescriptor_gdtSetGate_other, readDescriptor_gdtSetGate_other,
    readDescriptor_gdtSetGate_other, readDescriptor_gdtSetGate]
  · rfl
  all_goals decide

theorem fillTable_data : readDescriptor (fillTable gdt gp memory) (gdt + 8 * 2) = kernelData := by
  unfold fillTable
  rw [readDescriptor_gdtSetGate_other, readDescriptor_gdtSetGate_other, readDescriptor_gdtSetGate]
  · rfl
  all_goals decide

/-- The five entries are all that is written behind gdt_ptr. -/
theorem fillTable_outside : SameOutside (Within gdt 40)
    (store32 (store16 memory gp 39) (gp + 2) gdt) (fillTable gdt gp memory) := by
  have entry : ∀ num : Word, num.toNat < 5 → ∀ (base limit : Word) (access gran : Byte) (before : Mem),
      SameOutside (Within gdt 40) before (gdtSetGate gdt num base limit access gran before) := by
    intro num small base limit access gran before
    refine (gdtSetGate_outside gdt num base limit access gran before).mono fun x inside => ?_
    exact within_sub _ (by bv_omega) inside
  exact ((((entry 0 (by decide) _ _ _ _ _).trans (entry 1 (by decide) _ _ _ _ _)).trans
    (entry 2 (by decide) _ _ _ _ _)).trans (entry 3 (by decide) _ _ _ _ _)).trans
    (entry 4 (by decide) _ _ _ _ _)

theorem lgdt_congr {gp : Word} {first second : Mem}
    (same : ∀ x, Within gp 6 x → first x = second x) : lgdt first gp = lgdt second gp := by
  have low : Within gp 6 gp := by simp [Within]
  have high : Within gp 6 (gp + 1) := by unfold Within; bv_omega
  have base : load32 first (gp + 2) = load32 second (gp + 2) :=
    load32_congr fun x inside => same x (within_sub 2 (by decide) inside)
  rw [lgdt, lgdt, same _ low, same _ high, base]

theorem fillTable_gp (apart : Apart gdt 40 gp 6) : lgdt (fillTable gdt gp memory) gp = ⟨39, gdt⟩ := by
  have same : lgdt (fillTable gdt gp memory) gp =
      lgdt (store32 (store16 memory gp 39) (gp + 2) gdt) gp :=
    lgdt_congr fun x inside => fillTable_outside gdt gp memory x fun also => apart x also inside
  have low : ¬Within (gp + 2) 4 gp := by unfold Within; bv_omega
  have high : ¬Within (gp + 2) 4 (gp + 1) := by unfold Within; bv_omega
  rw [same, lgdt, load32_store32, store32_outside low, store32_outside high]
  simp [store16, store8]

end table

/-! The selectors. -/

section selectors
variable {memory : Mem} {gdt : Word}

/-- The table that gdt_init has filled, whatever else is in memory. -/
def Filled (gdt : Word) (memory : Mem) : Prop :=
  readDescriptor memory (gdt + 8 * 1) = kernelCode ∧ readDescriptor memory (gdt + 8 * 2) = kernelData

theorem Filled.resolve (filled : Filled gdt memory) :
    resolve memory ⟨39, gdt⟩ 0x08 = some kernelCode ∧ resolve memory ⟨39, gdt⟩ 0x10 = some kernelData := by
  constructor
  · rw [← filled.1]
    rfl
  · rw [← filled.2]
    rfl

/-- Every gate that is present leads to selector 8. -/
def CodeGates (idt : Idt) : Prop :=
  ∀ vector, (idt vector).flags.getLsbD 7 = true → (idt vector).sel = 0x08

theorem CodeGates.set {idt : Idt} (gates : CodeGates idt) (num : Byte) (base : Word) (flags : Byte) :
    CodeGates (idtSetGate num base 0x08 flags idt) := by
  intro vector
  unfold idtSetGate
  by_cases here : vector = num
  · rw [here, Function.update_self]
    exact fun _ => rfl
  · rw [Function.update_of_ne here]
    exact gates vector

theorem CodeGates.foldl {n : Nat} (num : Fin n → Byte) (base : Fin n → Word) (list : List (Fin n))
    {idt : Idt} (gates : CodeGates idt) :
    CodeGates (list.foldl (fun idt i => idtSetGate (num i) (base i) 0x08 0x8E idt) idt) := by
  induction list generalizing idt with
  | nil => exact gates
  | cons first rest ih => exact ih (gates.set (num first) (base first) 0x8E)

theorem idtInit_codeGates (symbols : Symbols) : CodeGates (idtInit symbols) := by
  have cleared : CodeGates fun _ => ⟨0, 0, 0, 0, 0⟩ := fun vector absent => by simp at absent
  exact ((cleared.foldl _ _ _).foldl _ _ _).set 0x80 _ 0xEE

theorem appended_low (high : BitVec 16) : (high ++ (0x10 : BitVec 16)).setWidth 16 = 0x10 := by
  ext i hi
  rw [BitVec.getElem_setWidth, BitVec.getLsbD_append, if_pos hi, BitVec.getLsbD_eq_getElem hi]

/-- Whatever was in eax. -/
theorem loadSegments_seg (zeroExtend : Bool) (m : Machine) {segment : Seg} (code : segment ≠ .cs)
    (stack : segment ≠ .ss) :
    (exec zeroExtend [.movAx 0x10, .movSeg .ds, .movSeg .es, .movSeg .fs, .movSeg .gs] m).seg segment =
      0x10 := by
  cases segment with
  | cs => exact absurd rfl code
  | ss => exact absurd rfl stack
  | ds => exact appended_low _
  | es => exact appended_low _
  | fs => exact appended_low _
  | gs => exact appended_low _

theorem handled_kernelData (zeroExtend : Bool) (stub : Stub) (error returnAddress : Word) (m : Machine)
    {segment : Seg} (code : segment ≠ .cs) (stack : segment ≠ .ss) :
    (handled zeroExtend stub error returnAddress m).seg segment = 0x10 := by
  rw [handled, Stub.code, exec_append, commonStub, exec_append, exec_append]
  exact loadSegments_seg zeroExtend _ code stack

/-- gdt_flush reads the pointer that was pushed for it. -/
theorem gdtFlush_pushed (zeroExtend : Bool) (m : Machine) (gp returnAddress : Word) :
    (gdtFlush zeroExtend ((m.push gp).push returnAddress)).1 =
        lgdt ((m.push gp).push returnAddress).mem gp ∧
      (gdtFlush zeroExtend ((m.push gp).push returnAddress)).2.mem =
        ((m.push gp).push returnAddress).mem ∧
      ∀ segment, (gdtFlush zeroExtend ((m.push gp).push returnAddress)).2.seg segment =
        if segment = .cs then 0x08 else 0x10 := by
  have argument := (load32_push_push m gp returnAddress).2
  generalize (m.push gp).push returnAddress = called at argument
  refine ⟨?_, rfl, fun segment => ?_⟩
  · have eax : (exec zeroExtend [.load .eax ⟨.esp, 4⟩] called).reg .eax = gp := by
      rw [← argument]
      exact set_reg_self called .eax _
    exact congrArg (lgdt called.mem) eax
  · cases segment with
    | cs => rfl
    | _ => exact appended_low _

end selectors

/-- After gdt_init, and for as long as its table is left alone, every selector that the kernel
loads is of the ring 0 segment of its kind: those of gdt_flush, of the gates and of the stubs. -/
theorem gdtInit_flat (zeroExtend : Bool) (gdt gp returnAddress : Word) (m : Machine)
    (apart : Apart gdt 40 gp 6)
    (stack : ∀ x, Within (m.reg .esp - 8) 8 x → ¬Within gdt 40 x ∧ ¬Within gp 6 x) :
    let table := (gdtInit zeroExtend gdt gp returnAddress m).1
    let after := (gdtInit zeroExtend gdt gp returnAddress m).2
    ∀ later, (∀ x, Within gdt 40 x → later x = after.mem x) →
      (∀ segment, resolve later table (after.seg segment) =
        some (if segment = .cs then kernelCode else kernelData)) ∧
      (∀ symbols vector, (idtInit symbols vector).flags.getLsbD 7 = true →
        resolve later table (idtInit symbols vector).sel = some kernelCode) ∧
      (∀ stub error back interrupted segment, segment ≠ .cs → segment ≠ .ss →
        resolve later table ((handled zeroExtend stub error back interrupted).seg segment) =
          some kernelData) ∧
      ∀ offset size, offset.toNat + size ≤ 2 ^ 32 →
        kernelCode.linear offset size = some offset ∧ kernelData.linear offset size = some offset := by
  intro table after later kept
  obtain ⟨loaded, mem, segments⟩ :=
    gdtFlush_pushed zeroExtend { m with mem := fillTable gdt gp m.mem } gp returnAddress
  have pushed : SameOutside (Within (m.reg .esp - 8) 8) (fillTable gdt gp m.mem) after.mem := by
    rw [show after.mem = _ from mem]
    exact pushAll_outside { m with mem := fillTable gdt gp m.mem } [gp, returnAddress]
      (Nat.le_of_ble_eq_true rfl)
  have register : table = ⟨39, gdt⟩ := by
    rw [← fillTable_gp gdt gp m.mem apart]
    refine loaded.trans (lgdt_congr fun x inside => ?_)
    rw [← mem]
    exact pushed x fun below => (stack x below).2 inside
  have same : ∀ x, Within gdt 40 x → later x = fillTable gdt gp m.mem x := fun x inside =>
    (kept x inside).trans (pushed x fun below => (stack x below).1 inside)
  have filled : Filled gdt later := by
    constructor
    · rw [← fillTable_code gdt gp m.mem]
      refine readDescriptor_eq fun k small => same _ ?_
      unfold Within
      bv_omega
    · rw [← fillTable_data gdt gp m.mem]
      refine readDescriptor_eq fun k small => same _ ?_
      unfold Within
      bv_omega
  obtain ⟨code, data⟩ := filled.resolve
  rw [register]
  refine ⟨fun segment => ?_, fun symbols vector present => ?_, ?_, fun offset size fits => ?_⟩
  · rw [show after.seg segment = _ from segments segment]
    split
    · exact code
    · exact data
  · rw [idtInit_codeGates symbols vector present]
    exact code
  · intro stub error back interrupted segment notCode notStack
    rw [handled_kernelData zeroExtend stub error back interrupted notCode notStack]
    exact data
  · exact ⟨kernelCode_flat.1.linear fits, kernelData_flat.1.linear fits⟩

/-- The tables at 0x110000 and 0x110040, the stack below 0x90000. -/
theorem gdtInit_flat_linked :
    let m : Machine := ⟨fun source => if source = .esp then 0x90000 else 0, fun _ => 0x18, 0, 0, fun _ => 0⟩
    ∀ later, (∀ x, Within 0x110000 40 x → later x = (gdtInit true 0x110000 0x110040 0x100100 m).2.mem x) →
      resolve later (gdtInit true 0x110000 0x110040 0x100100 m).1
        ((gdtInit true 0x110000 0x110040 0x100100 m).2.seg .ss) = some kernelData := by
  intro m later kept
  refine (gdtInit_flat true 0x110000 0x110040 0x100100 m ?_ ?_ later kept).1 .ss
  · intro x table pointer
    unfold Within at table pointer
    bv_omega
  · intro x stack
    have below : (x - (0x90000 - 8)).toNat < 8 := stack
    unfold Within
    bv_omega

end Vaelen.Kernel.Gdt
