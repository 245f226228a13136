import Mathlib.Data.List.GetD
import Vaelen.Base.CString
import Vaelen.Kernel.Platform

/-!
The string functions of lib/string.c over flat memory.
-/

namespace Vaelen.Kernel.Strings
open Vaelen.Base Platform

/-- The first loop of strncpy from index `i` on, with the index it stops at. -/
def strncpyCopy (dest src : Word) (i : Nat) (memory : Mem) : Nat → Mem × Nat
  | 0 => (memory, i)
  | left + 1 =>
      let c := memory (src + BitVec.ofNat 32 i)
      if c = 0 then (memory, i)
      else strncpyCopy dest src (i + 1) (store8 memory (dest + BitVec.ofNat 32 i) c) left

def strncpy (memory : Mem) (dest src : Word) (n : Nat) : Mem :=
  let (memory, i) := strncpyCopy dest src 0 memory n
  memset memory (dest + BitVec.ofNat 32 i) 0 (n - i)

/-- `for (size_t i = n; i > 0; i--) d[i-1] = s[i-1]` -/
def memmoveDown (memory : Mem) (dest src : Word) : Nat → Mem
  | 0 => memory
  | n + 1 =>
      memmoveDown (store8 memory (dest + BitVec.ofNat 32 n) (memory (src + BitVec.ofNat 32 n))) dest src n

/-- The loop upwards is that of memcpy. -/
def memmove (memory : Mem) (dest src n : Word) : Word × Mem :=
  (dest, if dest < src then memcpy memory dest src n.toNat else memmoveDown memory dest src n.toNat)

theorem strncpyCopy_outside {dest src : Word} {n i left : Nat} (memory : Mem)
    (inside : i + left ≤ n) :
    SameOutside (Within dest n) memory (strncpyCopy dest src i memory left).1 ∧
      (strncpyCopy dest src i memory left).2 ≤ n := by
  induction left generalizing i memory with
  | zero => exact ⟨SameOutside.refl memory, inside⟩
  | succ left ih =>
    by_cases stop : memory (src + BitVec.ofNat 32 i) = 0
    · simp only [strncpyCopy, if_pos stop]
      exact ⟨SameOutside.refl memory, by omega⟩
    · simp only [strncpyCopy, if_neg stop]
      obtain ⟨rest, last⟩ := ih (i := i + 1)
        (store8 memory (dest + BitVec.ofNat 32 i) (memory (src + BitVec.ofNat 32 i))) (by omega)
      refine ⟨SameOutside.trans ?_ rest, last⟩
      intro x outside
      apply store8_other
      rintro rfl
      apply outside
      unfold Within
      bv_omega

/-- strncpy writes nowhere but into the `n` bytes of its destination. -/
theorem strncpy_outside (memory : Mem) (dest src : Word) (n : Nat) (fits : n ≤ 2 ^ 32) :
    SameOutside (Within dest n) memory (strncpy memory dest src n) := by
  obtain ⟨copied, stopped⟩ : SameOutside (Within dest n) memory
      (strncpyCopy dest src 0 memory n).1 ∧ (strncpyCopy dest src 0 memory n).2 ≤ n :=
    strncpyCopy_outside (i := 0) memory (Nat.le_of_eq (Nat.zero_add n))
  refine copied.trans (SameOutside.mono (memset_outside _ _ 0 _ (by omega)) ?_)
  intro x padded
  unfold Within at *
  bv_omega

/-! What strncpy writes when the string lies elsewhere. -/

/-- The loop copies up to the zero or to the limit, whichever comes first. -/
theorem strncpyCopy_spec {dest src : Word} {s : List Byte} (memory : Mem) {i left : Nat}
    (string : CString (fun k => memory (src + BitVec.ofNat 32 k)) i s) (fits : i + left ≤ 2 ^ 32)
    (apart : ∀ k ≤ i + s.length, ¬Within dest (i + left) (src + BitVec.ofNat 32 k)) :
    (strncpyCopy dest src i memory left).2 = i + min s.length left ∧
      ∀ x, (strncpyCopy dest src i memory left).1 x =
        if i ≤ (x - dest).toNat ∧ (x - dest).toNat < i + min s.length left then memory (src + (x - dest))
        else memory x := by
  induction left generalizing i memory s with
  | zero =>
    refine ⟨by simp [strncpyCopy], fun x => ?_⟩
    rw [if_neg (by omega)]
    rfl
  | succ left ih =>
    cases s with
    | nil =>
      have stop : memory (src + BitVec.ofNat 32 i) = 0 := string
      simp only [strncpyCopy, if_pos stop]
      refine ⟨by simp, fun x => ?_⟩
      rw [if_neg (by simp)]
    | cons c s =>
      rw [List.length_cons] at apart ⊢
      have go : memory (src + BitVec.ofNat 32 i) ≠ 0 := string.head_nonzero
      have source : ∀ k ≤ i + (s.length + 1), src + BitVec.ofNat 32 k ≠ dest + BitVec.ofNat 32 i := by
        intro k bound same
        apply apart k bound
        rw [same]
        unfold Within
        bv_omega
      have rest : CString (fun k => store8 memory (dest + BitVec.ofNat 32 i)
          (memory (src + BitVec.ofNat 32 i)) (src + BitVec.ofNat 32 k)) (i + 1) s :=
        string.2.2.frame fun k _ bound => store8_other (source k (by omega))
      obtain ⟨stopped, copied⟩ := ih _ rest (by omega) fun k bound => by
        rw [Nat.add_right_comm]
        exact apart k (by omega)
      simp only [strncpyCopy, if_neg go]
      refine ⟨by omega, fun x => ?_⟩
      rw [copied]
      by_cases here : (x - dest).toNat = i
      · have place : x = dest + BitVec.ofNat 32 i := by bv_omega
        have offset : x - dest = BitVec.ofNat 32 i := by bv_omega
        rw [if_neg (by omega), if_pos (by omega), place, store8_same, ← place, offset]
      · by_cases later : i + 1 ≤ (x - dest).toNat ∧ (x - dest).toNat < i + 1 + min s.length left
        · have offset : x - dest = BitVec.ofNat 32 (x - dest).toNat := by bv_omega
          rw [if_pos later, if_pos (by omega), offset, store8_other (source _ (by omega))]
        · have place : x ≠ dest + BitVec.ofNat 32 i := by bv_omega
          rw [if_neg later, if_neg (by omega), store8_other place]

/-- Behind the string come zeros up to the limit, and none when the string fills it. -/
theorem strncpy_spec {memory : Mem} {dest src : Word} {s : List Byte} {n : Nat}
    (string : StringAt memory src s) (fits : n ≤ 2 ^ 32)
    (apart : ∀ k ≤ s.length, ¬Within dest n (src + BitVec.ofNat 32 k)) (k : Nat) (bound : k < n) :
    strncpy memory dest src n (dest + BitVec.ofNat 32 k) = s.getD k 0 := by
  have whole : 0 + n ≤ 2 ^ 32 := by omega
  obtain ⟨stopped, copied⟩ := strncpyCopy_spec memory string whole (by simpa using apart)
  have offset : dest + BitVec.ofNat 32 k - dest = BitVec.ofNat 32 k := by bv_omega
  have small : (BitVec.ofNat 32 k).toNat = k := Nat.mod_eq_of_lt (by omega)
  unfold strncpy
  simp only [stopped, Nat.zero_add]
  rw [memset_spec _ _ _ _ (by omega), copied, offset, small]
  by_cases inside : k < s.length
  · have byte : memory (src + BitVec.ofNat 32 (0 + k)) = s.getD k 0 := by
      apply CString.get string
      rw [List.getD_eq_getElem s 0 inside, List.getElem?_eq_getElem inside]
    have before : ¬Within (dest + BitVec.ofNat 32 (min s.length n)) (n - min s.length n) (dest + BitVec.ofNat 32 k) := by
      unfold Within
      bv_omega
    rw [Nat.zero_add] at byte
    rw [if_neg before, if_pos (by omega), byte]
  · have behind : Within (dest + BitVec.ofNat 32 (min s.length n)) (n - min s.length n) (dest + BitVec.ofNat 32 k) := by
      unfold Within
      bv_omega
    rw [if_pos behind, List.getD_eq_default s 0 (Nat.le_of_not_lt inside)]

/-! memmove, whose source bytes are read before they are overwritten. -/

/-- Going up, the byte read next lies above all bytes written. -/
theorem memcpy_up (memory : Mem) {dest src : Word} (below : dest < src) (n : Nat) (fits : src.toNat + n ≤ 2 ^ 32)
    (x : Word) : memcpy memory dest src n x = if Within dest n x then memory (src + (x - dest)) else memory x := by
  induction n generalizing x with
  | zero => simp [memcpy, Within]
  | succ n ih =>
    have copied := ih (by omega)
    have small : n < 2 ^ 32 := by omega
    by_cases last : x = dest + BitVec.ofNat 32 n
    · have source : ¬Within dest n (src + BitVec.ofNat 32 n) := by
        unfold Within
        bv_omega
      rw [if_pos ((within_succ small).mpr (Or.inr last)), memcpy, last, store8_same, copied, if_neg source]
      congr 1
      bv_omega
    · rw [memcpy, store8_other last, copied]
      simp only [within_succ small, last, or_false]

/-- Going down, the bytes read later lie below the one written. -/
theorem memmoveDown_spec (memory : Mem) {dest src : Word} (above : src ≤ dest) (n : Nat)
    (fits : dest.toNat + n ≤ 2 ^ 32) (x : Word) :
    memmoveDown memory dest src n x = if Within dest n x then memory (src + (x - dest)) else memory x := by
  induction n generalizing memory with
  | zero => simp [memmoveDown, Within]
  | succ n ih =>
    have small : n < 2 ^ 32 := by omega
    rw [memmoveDown, ih _ (by omega)]
    by_cases inside : Within dest n x
    · have source : src + (x - dest) ≠ dest + BitVec.ofNat 32 n := by
        unfold Within at inside
        bv_omega
      rw [if_pos inside, if_pos ((within_succ small).mpr (Or.inl inside)), store8_other source]
    · rw [if_neg inside]
      by_cases last : x = dest + BitVec.ofNat 32 n
      · rw [if_pos ((within_succ small).mpr (Or.inr last)), last, store8_same]
        congr 1
        bv_omega
      · have outside : ¬Within dest (n + 1) x := fun here => ((within_succ small).mp here).elim inside last
        rw [if_neg outside, store8_other last]

/-- memmove moves the bytes as they were before the call, however the ranges overlap. -/
theorem memmove_moves (memory : Mem) (dest src n : Word) (room : dest.toNat + n.toNat ≤ 2 ^ 32)
    (source : src.toNat + n.toNat ≤ 2 ^ 32) :
    (memmove memory dest src n).1 = dest ∧
      (∀ i < n.toNat, (memmove memory dest src n).2 (dest + BitVec.ofNat 32 i) = memory (src + BitVec.ofNat 32 i)) ∧
      ∀ x, ¬Within dest n.toNat x → (memmove memory dest src n).2 x = memory x := by
  have moved : ∀ x, (memmove memory dest src n).2 x =
      if Within dest n.toNat x then memory (src + (x - dest)) else memory x := by
    intro x
    unfold memmove
    by_cases below : dest < src
    · rw [if_pos below]
      exact memcpy_up memory below n.toNat source x
    · rw [if_neg below]
      exact memmoveDown_spec memory (BitVec.not_lt.mp below) n.toNat room x
  refine ⟨rfl, fun i bound => ?_, fun x outside => ?_⟩
  · have offset : dest + BitVec.ofNat 32 i - dest = BitVec.ofNat 32 i := by bv_omega
    have inside : Within dest n.toNat (dest + BitVec.ofNat 32 i) := by
      unfold Within
      bv_omega
    rw [moved, if_pos inside, offset]
  · rw [moved, if_neg outside]

/-- Three bytes moved up by one. -/
theorem memmove_moves_one :
    (memmove (fun x => x.setWidth 8) 1 0 3).1 = 1 ∧
      (∀ i < 3, (memmove (fun x => x.setWidth 8) 1 0 3).2 (1 + BitVec.ofNat 32 i) = (0 + BitVec.ofNat 32 i).setWidth 8) ∧
      ∀ x, ¬Within 1 3 x → (memmove (fun x => x.setWidth 8) 1 0 3).2 x = x.setWidth 8 :=
  memmove_moves (fun x => x.setWidth 8) 1 0 3 (by decide) (by decide)

/-! strcpy and strcat, which find the zero they stop at in the memory they write to. -/

/-- `while ((*d++ = *src++));`, with the turns it may take. -/
def copyLoop : Nat → Mem → Word → Word → Option Mem
  | 0, _, _, _ => none
  | turns + 1, memory, d, src =>
      let c := memory src
      let memory := store8 memory d c
      if c = 0 then some memory else copyLoop turns memory (d + 1) (src + 1)

def strcpy (turns : Nat) (memory : Mem) (dest src : Word) : Option (Word × Mem) := do
  let memory ← copyLoop turns memory dest src
  return (dest, memory)

/-- `while (*d) d++;` -/
def endLoop : Nat → Mem → Word → Option Word
  | 0, _, _ => none
  | turns + 1, memory, d => if memory d = 0 then some d else endLoop turns memory (d + 1)

def strcat (turns : Nat) (memory : Mem) (dest src : Word) : Option (Word × Mem) := do
  let d ← endLoop turns memory dest
  let memory ← copyLoop turns memory d src
  return (dest, memory)

section copying
variable {memory : Mem} {d dest src : Word} {a b s : List Byte}

/-- The byte read next is not one already written when the pointers are equal or far apart. -/
theorem copyLoop_copies (string : StringAt memory src s)
    (ahead : d = src ∨ s.length < (d - src).toNat) :
    ∃ after, (∀ turns, s.length < turns → copyLoop turns memory d src = some after) ∧
      StringAt after d s ∧ SameOutside (Within d (s.length + 1)) memory after := by
  induction s generalizing memory d src with
  | nil =>
    have ends : memory src = 0 := by simpa using (string.zero_iff (Nat.le_refl 0)).mpr rfl
    refine ⟨store8 memory d 0, fun turns enough => ?_, ?_, fun x outside => ?_⟩
    · cases turns with
      | zero => exact absurd enough (Nat.lt_irrefl 0)
      | succ turns => rw [copyLoop, ends, if_pos rfl]
    · simp [StringAt, CString]
    · apply store8_other
      rintro rfl
      exact outside (by simp [Within])
  | cons c s ih =>
    have short := string.length_lt
    obtain ⟨head, nonzero, rest⟩ := StringAt.cons_iff.mp string
    rw [List.length_cons] at ahead short ⊢
    have kept : StringAt (store8 memory d c) (src + 1) s := by
      apply rest.within
      intro x inside
      apply store8_other
      rintro rfl
      unfold Within at inside
      bv_omega
    obtain ⟨after, copied, written, outside⟩ := ih kept (d := d + 1) (by bv_omega)
    have first : after d = c := by
      rw [outside d (by unfold Within; bv_omega), store8_same]
    refine ⟨after, fun turns enough => ?_, StringAt.cons_iff.mpr ⟨first, nonzero, written⟩, ?_⟩
    · cases turns with
      | zero => exact absurd enough (Nat.not_lt_zero _)
      | succ turns =>
        rw [copyLoop, head, if_neg nonzero]
        exact copied turns (Nat.lt_of_succ_lt_succ enough)
    · intro x beyond
      have later : ¬Within (d + 1) (s.length + 1) x := by
        unfold Within at *
        bv_omega
      rw [outside x later]
      apply store8_other
      rintro rfl
      exact beyond (by simp [Within])

/-- A pointer that runs ahead of the one it follows writes the bytes that are read next, none of them
a zero. -/
theorem copyLoop_overruns (turns : Nat) (ahead : d ≠ src)
    (nonzero : ∀ x, Within src (d - src).toNat x → memory x ≠ 0) :
    copyLoop turns memory d src = none := by
  induction turns generalizing memory d src with
  | zero => rfl
  | succ turns ih =>
    have head : memory src ≠ 0 := by
      apply nonzero
      unfold Within
      bv_omega
    rw [copyLoop, if_neg head]
    apply ih
    · bv_omega
    · intro x inside
      by_cases new : x = d
      · rw [new, store8_same]
        exact head
      · rw [store8_other new]
        apply nonzero
        unfold Within at *
        bv_omega

/-- A place inside the string or that of its zero, other than its first. -/
def Overlaps (src : Word) (s : List Byte) (d : Word) : Prop := d ≠ src ∧ Within src (s.length + 1) d

theorem ahead_of_not_overlaps (apart : ¬Overlaps src s d) : d = src ∨ s.length < (d - src).toNat := by
  by_cases same : d = src
  · exact Or.inl same
  · right
    by_contra near
    exact apart ⟨same, Nat.lt_succ_of_le (Nat.le_of_not_lt near)⟩

theorem copyLoop_overlaps (string : StringAt memory src s) (overlaps : Overlaps src s d) (turns : Nat) :
    copyLoop turns memory d src = none := by
  obtain ⟨ahead, inside⟩ := overlaps
  unfold Within at inside
  apply copyLoop_overruns turns ahead
  intro x between zero
  unfold Within at between
  have place : src + BitVec.ofNat 32 (x - src).toNat = x := by bv_omega
  rw [← place] at zero
  have ends := (string.zero_iff (by omega)).mp zero
  omega

/-- strcpy copies the string and writes nothing else, unless it is to begin at a later byte of the
source: then it never ends. -/
theorem strcpy_copies (string : StringAt memory src s) (dest : Word) :
    (¬Overlaps src s dest → ∃ after,
      (∀ turns, s.length < turns → strcpy turns memory dest src = some (dest, after)) ∧
        StringAt after dest s ∧ SameOutside (Within dest (s.length + 1)) memory after) ∧
      (Overlaps src s dest → ∀ turns, strcpy turns memory dest src = none) := by
  constructor
  · intro apart
    obtain ⟨after, copied, written, outside⟩ := copyLoop_copies string (ahead_of_not_overlaps apart)
    refine ⟨after, fun turns enough => ?_, written, outside⟩
    rw [strcpy, copied turns enough]
    rfl
  · intro overlaps turns
    rw [strcpy, copyLoop_overlaps string overlaps]
    rfl

/-- The string "ab" at the null pointer. -/
def letters : Mem := fun x => if x = 0 then 0x61 else if x = 1 then 0x62 else 0

theorem strcpy_copies_letters :
    (¬Overlaps 0 [0x61, 0x62] 1 → ∃ after,
      (∀ turns, 2 < turns → strcpy turns letters 1 0 = some (1, after)) ∧
        StringAt after 1 [0x61, 0x62] ∧ SameOutside (Within 1 3) letters after) ∧
      (Overlaps 0 [0x61, 0x62] 1 → ∀ turns, strcpy turns letters 1 0 = none) :=
  @strcpy_copies letters 0 [0x61, 0x62] ⟨rfl, by decide, rfl, by decide, rfl⟩ 1

theorem endLoop_spec (string : StringAt memory d s) (turns : Nat) :
    endLoop turns memory d = if s.length < turns then some (d + BitVec.ofNat 32 s.length) else none := by
  induction turns generalizing d s with
  | zero => rfl
  | succ turns ih =>
    cases s with
    | nil =>
      have ends : memory d = 0 := by simpa using (string.zero_iff (Nat.le_refl 0)).mpr rfl
      simp [endLoop, ends]
    | cons c s =>
      obtain ⟨head, nonzero, rest⟩ := StringAt.cons_iff.mp string
      have place : d + 1 + BitVec.ofNat 32 s.length = d + BitVec.ofNat 32 (s.length + 1) := by bv_omega
      rw [endLoop, head, if_neg nonzero, ih rest, place, List.length_cons]
      simp only [Nat.succ_lt_succ_iff]

/-- The zero of the first string is in the second one only as its end. -/
theorem overlaps_end_iff (first : StringAt memory dest a) (second : StringAt memory src b) :
    Overlaps src b (dest + BitVec.ofNat 32 a.length) ↔
      b ≠ [] ∧ dest + BitVec.ofNat 32 a.length = src + BitVec.ofNat 32 b.length := by
  have short := second.length_lt
  have zero := (first.zero_iff (Nat.le_refl _)).mpr rfl
  constructor
  · rintro ⟨ahead, inside⟩
    unfold Within at inside
    have place : dest + BitVec.ofNat 32 a.length =
        src + BitVec.ofNat 32 (dest + BitVec.ofNat 32 a.length - src).toNat := by bv_omega
    rw [place] at zero
    have ends := (second.zero_iff (by omega)).mp zero
    rw [ends] at place
    refine ⟨?_, place⟩
    rintro rfl
    exact ahead (by simpa using place)
  · rintro ⟨some, ends⟩
    have positive := List.length_pos_iff.mpr some
    unfold Overlaps Within
    rw [ends]
    constructor
    · bv_omega
    · bv_omega

/-- strcat appends its second string to the first, unless they end in the same place and there is
something to append: then it never ends. -/
theorem strcat_appends (first : StringAt memory dest a) (second : StringAt memory src b) :
    (b = [] ∨ dest + BitVec.ofNat 32 a.length ≠ src + BitVec.ofNat 32 b.length → ∃ after,
      (∀ turns, a.length < turns → b.length < turns → strcat turns memory dest src = some (dest, after)) ∧
        StringAt after dest (a ++ b) ∧
        SameOutside (Within (dest + BitVec.ofNat 32 a.length) (b.length + 1)) memory after) ∧
      (b ≠ [] → dest + BitVec.ofNat 32 a.length = src + BitVec.ofNat 32 b.length →
        ∀ turns, strcat turns memory dest src = none) := by
  constructor
  · intro condition
    have apart : ¬Overlaps src b (dest + BitVec.ofNat 32 a.length) := by
      rw [overlaps_end_iff first second]
      tauto
    have room : a.length + b.length < 2 ^ 32 := by
      rcases condition with rfl | ends
      · exact first.length_lt
      · have before := first.apart second ends
        have after := second.apart first (Ne.symm ends)
        bv_omega
    obtain ⟨after, copied, written, outside⟩ := copyLoop_copies second (ahead_of_not_overlaps apart)
    refine ⟨after, fun turns enough also => ?_, ?_, outside⟩
    · rw [strcat, endLoop_spec first, if_pos enough]
      change (copyLoop turns memory _ src >>= _) = _
      rw [copied turns also]
      rfl
    · apply first.append _ written
      intro k bound
      apply outside
      unfold Within
      bv_omega
  · intro some ends turns
    have overlaps := (overlaps_end_iff first second).mpr ⟨some, ends⟩
    rw [strcat, endLoop_spec first]
    by_cases enough : a.length < turns
    · rw [if_pos enough]
      change (copyLoop turns memory _ src >>= _) = _
      rw [copyLoop_overlaps second overlaps]
      rfl
    · rw [if_neg enough]
      rfl

theorem strcat_appends_letters :
    (([0x62] : List Byte) = [] ∨ (0 : Word) + BitVec.ofNat 32 2 ≠ 1 + BitVec.ofNat 32 1 → ∃ after,
      (∀ turns, 2 < turns → 1 < turns → strcat turns letters 0 1 = some (0, after)) ∧
        StringAt after 0 ([0x61, 0x62] ++ [0x62]) ∧ SameOutside (Within (0 + BitVec.ofNat 32 2) 2) letters after) ∧
      (([0x62] : List Byte) ≠ [] → (0 : Word) + BitVec.ofNat 32 2 = 1 + BitVec.ofNat 32 1 →
        ∀ turns, strcat turns letters 0 1 = none) :=
  @strcat_appends letters 0 1 [0x61, 0x62] [0x62] ⟨rfl, by decide, rfl, by decide, rfl⟩
    ⟨rfl, by decide, rfl⟩

end copying

end Vaelen.Kernel.Strings
