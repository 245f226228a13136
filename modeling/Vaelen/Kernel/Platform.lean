import Vaelen.Base.Memory

/-!
What every kernel module rests on: the constants of kernel.h, the ways a call
can fail to return, and the byte loops of lib/string.c over flat memory.
-/

namespace Vaelen.Kernel.Platform
open Vaelen.Base

abbrev PAGE_SIZE : Word := 4096
abbrev KERNEL_BASE : Word := 0xC0000000
abbrev KERNEL_HEAP_START : Word := 0xD0000000
abbrev KERNEL_HEAP_SIZE : Word := 0x1000000

/-- A call ends in the halt loop of kernel_panic, or its loop has not ended within the fuel. -/
inductive Stop where
  | panic (message : String)
  | running
  deriving DecidableEq, Repr

def kernelPanic {α : Type} (message : String) : Except Stop α := .error (.panic message)

theorem ok_bind {α β : Type} (value : α) (rest : α → Except Stop β) :
    Except.ok value >>= rest = rest value := rfl

theorem bind_eq_ok {α β : Type} {first : Except Stop α} {rest : α → Except Stop β} {result : β}
    (finished : first >>= rest = .ok result) : ∃ value, first = .ok value ∧ rest value = .ok result := by
  cases first with
  | error stop =>
    have stopped : Except.error stop = Except.ok result := finished
    exact absurd stopped (by simp)
  | ok value => exact ⟨value, rfl, finished⟩

def memset (memory : Mem) (s : Word) (c : Byte) : Nat → Mem
  | 0 => memory
  | n + 1 => store8 (memset memory s c n) (s + BitVec.ofNat 32 n) c

def memcpy (memory : Mem) (dest src : Word) : Nat → Mem
  | 0 => memory
  | n + 1 =>
      let copied := memcpy memory dest src n
      store8 copied (dest + BitVec.ofNat 32 n) (copied (src + BitVec.ofNat 32 n))

theorem within_succ {base x : Word} {n : Nat} (fits : n < 2 ^ 32) :
    Within base (n + 1) x ↔ Within base n x ∨ x = base + BitVec.ofNat 32 n := by
  unfold Within
  constructor
  · intro inside
    by_cases last : (x - base).toNat = n
    · right
      rw [← last, BitVec.ofNat_toNat, BitVec.setWidth_eq]
      bv_omega
    · left
      omega
  · rintro (inside | rfl)
    · omega
    · have cancel : base + BitVec.ofNat 32 n - base = BitVec.ofNat 32 n := by bv_omega
      rw [cancel, BitVec.toNat_ofNat, Nat.mod_eq_of_lt fits]
      omega

theorem memset_spec (memory : Mem) (s : Word) (c : Byte) (n : Nat) (fits : n ≤ 2 ^ 32) (x : Word) :
    memset memory s c n x = if Within s n x then c else memory x := by
  induction n with
  | zero => simp [memset, Within]
  | succ n ih =>
    have split : Within s (n + 1) x ↔ Within s n x ∨ x = s + BitVec.ofNat 32 n :=
      within_succ (by omega)
    by_cases last : x = s + BitVec.ofNat 32 n
    · rw [if_pos (split.mpr (Or.inr last)), memset, last, store8_same]
    · rw [memset, store8_other last, ih (by omega)]
      simp only [split, last, or_false]

/-- Copying between ranges that share no byte moves the source bytes and nothing else. -/
theorem memcpy_spec (memory : Mem) (dest src : Word) (n : Nat) (fits : n ≤ 2 ^ 32)
    (apart : Apart dest n src n) (x : Word) :
    memcpy memory dest src n x = if Within dest n x then memory (src + (x - dest)) else memory x := by
  induction n generalizing x with
  | zero => simp [memcpy, Within]
  | succ n ih =>
    have small : n < 2 ^ 32 := by omega
    have inner : Apart dest n src n := fun y first second =>
      apart y ((within_succ small).mpr (Or.inl first)) ((within_succ small).mpr (Or.inl second))
    have copied := ih (by omega) inner
    by_cases last : x = dest + BitVec.ofNat 32 n
    · have source : ¬Within dest n (src + BitVec.ofNat 32 n) := fun inside =>
        apart _ ((within_succ small).mpr (Or.inl inside)) ((within_succ small).mpr (Or.inr rfl))
      rw [if_pos ((within_succ small).mpr (Or.inr last)), memcpy, last, store8_same, copied,
        if_neg source]
      congr 1
      bv_omega
    · rw [memcpy, store8_other last, copied]
      simp only [within_succ small, last, or_false]

theorem memset_outside (memory : Mem) (s : Word) (c : Byte) (n : Nat) (fits : n ≤ 2 ^ 32) :
    SameOutside (Within s n) memory (memset memory s c n) := by
  intro x outside
  rw [memset_spec memory s c n fits, if_neg outside]

theorem memcpy_outside (memory : Mem) (dest src : Word) (n : Nat) (fits : n ≤ 2 ^ 32) :
    SameOutside (Within dest n) memory (memcpy memory dest src n) := by
  induction n with
  | zero => exact SameOutside.refl memory
  | succ n ih =>
    intro x outside
    rw [within_succ (by omega), not_or] at outside
    exact (store8_other outside.2).trans (ih (by omega) x outside.1)

/-- Every word of the copy is the word it was copied from. -/
theorem load32_memcpy {memory : Mem} {dest src : Word} {n : Nat} (fits : n ≤ 2 ^ 32)
    (apart : Apart dest n src n) (offset : Word) (inside : offset.toNat + 4 ≤ n) :
    load32 (memcpy memory dest src n) (dest + offset) = load32 memory (src + offset) := by
  apply load32_eq
  intro k small
  have within : Within dest n (dest + offset + k) := by
    unfold Within
    bv_omega
  rw [memcpy_spec memory dest src n fits apart, if_pos within]
  congr 1
  bv_omega

/-- Copying a range onto itself changes nothing. -/
theorem memcpy_self (memory : Mem) (address : Word) (n : Nat) :
    memcpy memory address address n = memory := by
  induction n with
  | zero => rfl
  | succ n ih =>
    funext x
    simp only [memcpy, ih, store8]
    split
    · next same => rw [same]
    · rfl

end Vaelen.Kernel.Platform
