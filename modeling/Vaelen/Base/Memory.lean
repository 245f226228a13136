import Mathlib.Tactic

/-!
Byte-addressed memory of a 32-bit little-endian machine. Addresses wrap, so a
range is described by the distance from its base. Words are four bytes, and a
store changes exactly the four bytes it covers.
-/

namespace Vaelen.Base

abbrev Word := BitVec 32
abbrev Byte := BitVec 8
abbrev Mem := Word → Byte

def store8 (memory : Mem) (address : Word) (value : Byte) : Mem :=
  fun x => if x = address then value else memory x

def load32 (memory : Mem) (address : Word) : Word :=
  memory (address + 3) ++ memory (address + 2) ++ memory (address + 1) ++ memory address

def store32 (memory : Mem) (address value : Word) : Mem :=
  store8 (store8 (store8 (store8 memory address (value.extractLsb' 0 8))
    (address + 1) (value.extractLsb' 8 8)) (address + 2) (value.extractLsb' 16 8))
    (address + 3) (value.extractLsb' 24 8)

/-- The `count` bytes from `base` on, modulo the address space. -/
def Within (base : Word) (count : Nat) (x : Word) : Prop := (x - base).toNat < count

instance (base : Word) (count : Nat) (x : Word) : Decidable (Within base count x) :=
  inferInstanceAs (Decidable (_ < _))

/-- No byte of the first range is a byte of the second. -/
def Apart (base : Word) (count : Nat) (other : Word) (length : Nat) : Prop :=
  ∀ x, Within base count x → ¬Within other length x

theorem within_sub {base x : Word} {outer : Nat} (offset : Word) {inner : Nat}
    (room : offset.toNat + inner ≤ outer)
    (inside : Within (base + offset) inner x) : Within base outer x := by
  unfold Within at *
  bv_omega

theorem not_within {base x : Word} {count : Nat} (fits : base.toNat + count ≤ 2 ^ 32)
    (outside : x.toNat < base.toNat ∨ base.toNat + count ≤ x.toNat) : ¬Within base count x := by
  unfold Within
  bv_omega

@[simp] theorem store8_same (memory : Mem) (address : Word) (value : Byte) :
    store8 memory address value address = value := by
  simp [store8]

theorem store8_other {memory : Mem} {address x : Word} {value : Byte} (other : x ≠ address) :
    store8 memory address value x = memory x :=
  if_neg other

theorem bytes_append (value : Word) :
    (value.extractLsb' 24 8 ++ value.extractLsb' 16 8 ++ value.extractLsb' 8 8 ++
      value.extractLsb' 0 8 : BitVec 32) = value := by
  ext i hi
  simp only [BitVec.getElem_append, BitVec.getElem_extractLsb']
  grind

theorem store32_outside {memory : Mem} {address value x : Word} (outside : ¬Within address 4 x) :
    store32 memory address value x = memory x := by
  unfold Within at outside
  have first : x ≠ address := by rintro rfl; simp at outside
  have second : x ≠ address + 1 := by rintro rfl; bv_omega
  have third : x ≠ address + 2 := by rintro rfl; bv_omega
  have fourth : x ≠ address + 3 := by rintro rfl; bv_omega
  rw [store32, store8_other fourth, store8_other third, store8_other second, store8_other first]

/-- A store covers its four bytes whatever was there before. -/
theorem store32_inside {first second : Mem} {address value x : Word} (inside : Within address 4 x) :
    store32 first address value x = store32 second address value x := by
  have cases : x = address ∨ x = address + 1 ∨ x = address + 2 ∨ x = address + 3 := by
    unfold Within at inside
    bv_omega
  unfold store32 store8
  grind

@[simp] theorem load32_store32 (memory : Mem) (address value : Word) :
    load32 (store32 memory address value) address = value := by
  have h1 : address + 1 ≠ address + 2 := by bv_omega
  have h2 : address + 1 ≠ address + 3 := by bv_omega
  have h3 : address + 2 ≠ address + 3 := by bv_omega
  have h4 : address ≠ address + 1 := by bv_omega
  have h5 : address ≠ address + 2 := by bv_omega
  have h6 : address ≠ address + 3 := by bv_omega
  simp only [load32, store32, store8, h1, h2, h3, h4, h5, h6, if_true, if_false]
  exact bytes_append value

theorem load32_eq {first second : Mem} {address other : Word}
    (same : ∀ k : Word, k.toNat < 4 → first (address + k) = second (other + k)) :
    load32 first address = load32 second other := by
  have h0 : first address = second other := by simpa using same 0 (by decide)
  have h1 := same 1 (by decide)
  have h2 := same 2 (by decide)
  have h3 := same 3 (by decide)
  simp only [load32, h0, h1, h2, h3]

theorem load32_congr {first second : Mem} {address : Word}
    (same : ∀ x, Within address 4 x → first x = second x) :
    load32 first address = load32 second address := by
  apply load32_eq
  intro k small
  apply same
  unfold Within
  bv_omega

theorem load32_store32_apart {memory : Mem} {address other value : Word}
    (apart : Apart other 4 address 4) :
    load32 (store32 memory address value) other = load32 memory other :=
  load32_congr fun x inside => store32_outside (apart x inside)

theorem load32_zero (address : Word) : load32 (fun _ => 0) address = 0 := by
  change ((0 : Byte) ++ (0 : Byte) ++ (0 : Byte) ++ (0 : Byte) : Word) = 0
  decide

/-- Two words at a distance of at least four in both directions share no byte. -/
theorem apart_words {address other : Word} (after : 4 ≤ (other - address).toNat)
    (before : 4 ≤ (address - other).toNat) : Apart other 4 address 4 := by
  intro x first second
  unfold Within at *
  bv_omega

/-- Words at multiples of four are the same word or apart. -/
theorem load32_store32_aligned {address other : Word} (memory : Mem) (value : Word)
    (aligned : address.toNat % 4 = 0) (multiple : other.toNat % 4 = 0) :
    load32 (store32 memory address value) other = if other = address then value else load32 memory other := by
  by_cases same : other = address
  · rw [if_pos same, same, load32_store32]
  · rw [if_neg same, load32_store32_apart (apart_words (by bv_omega) (by bv_omega))]

theorem byte_load32 (memory : Mem) (address : Word) (i : Nat) (bound : i < 4) :
    (load32 memory address).extractLsb' (8 * i) 8 = memory (address + BitVec.ofNat 32 i) := by
  unfold load32
  ext k hk
  simp only [BitVec.getElem_extractLsb']
  interval_cases i
  · simp
    grind
  · grind
  · grind
  · grind

/-- A word stored where it already stands. -/
theorem store32_load32 (memory : Mem) (address : Word) :
    store32 memory address (load32 memory address) = memory := by
  funext x
  have first : (load32 memory address).extractLsb' 0 8 = memory address := by
    rw [byte_load32 memory address 0 (by decide)]
    simp
  have second : (load32 memory address).extractLsb' 8 8 = memory (address + 1) :=
    byte_load32 memory address 1 (by decide)
  have third : (load32 memory address).extractLsb' 16 8 = memory (address + 2) :=
    byte_load32 memory address 2 (by decide)
  have fourth : (load32 memory address).extractLsb' 24 8 = memory (address + 3) :=
    byte_load32 memory address 3 (by decide)
  simp only [store32, first, second, third, fourth, store8]
  grind

@[simp] theorem store32_store32 (memory : Mem) (address first second : Word) :
    store32 (store32 memory address first) address second = store32 memory address second := by
  funext x
  simp only [store32, store8]
  grind

/-! Memories that differ in a set of addresses only. -/

def SameOutside (written : Word → Prop) (first second : Mem) : Prop :=
  ∀ x, ¬written x → second x = first x

namespace SameOutside
variable {written more : Word → Prop} {first second third : Mem}

theorem refl (memory : Mem) : SameOutside written memory memory := fun _ _ => rfl

theorem trans (left : SameOutside written first second) (right : SameOutside written second third) :
    SameOutside written first third := fun x outside =>
  (right x outside).trans (left x outside)

theorem mono (same : SameOutside written first second) (covers : ∀ x, written x → more x) :
    SameOutside more first second := fun x outside => same x fun inside => outside (covers x inside)

theorem load32 (same : SameOutside written first second) {address : Word}
    (outside : ∀ x, Within address 4 x → ¬written x) :
    load32 second address = load32 first address :=
  load32_congr fun x inside => same x (outside x inside)

theorem store32 (memory : Mem) (address value : Word) :
    SameOutside (Within address 4) memory (store32 memory address value) := fun _ outside =>
  store32_outside outside

end SameOutside

attribute [irreducible] load32 store32

end Vaelen.Base
