import Vaelen.Base.Memory

/-!
Strings that end at their first zero byte, in an array of bytes.
-/

namespace Vaelen.Base

/-- The bytes from `p` on are `s` and then a zero. -/
def CString (bytes : Nat → Byte) : Nat → List Byte → Prop
  | p, [] => bytes p = 0
  | p, c :: s => bytes p = c ∧ c ≠ 0 ∧ CString bytes (p + 1) s

namespace CString

variable {bytes other : Nat → Byte} {p : Nat} {s t : List Byte}

theorem first_zero (string : CString bytes p s) : bytes p = 0 ↔ s = [] := by
  cases s with
  | nil => exact ⟨fun _ => rfl, fun _ => string⟩
  | cons c s =>
    rw [string.1]
    simpa using string.2.1

theorem head_nonzero {c : Byte} (string : CString bytes p (c :: s)) : bytes p ≠ 0 := by
  rw [string.1]
  exact string.2.1

/-- Only the bytes of the string and its zero count. -/
theorem frame (string : CString bytes p s) (same : ∀ k, p ≤ k → k ≤ p + s.length → other k = bytes k) :
    CString other p s := by
  induction s generalizing p with
  | nil =>
    have ends : bytes p = 0 := string
    exact (same p le_rfl (Nat.le_add_right _ _)).trans ends
  | cons c s ih =>
    have rest : CString other (p + 1) s := by
      apply ih string.2.2
      intro k after before
      apply same k (by omega)
      rw [List.length_cons]
      omega
    exact ⟨(same p le_rfl (Nat.le_add_right _ _)).trans string.1, string.2.1, rest⟩

theorem offset (n : Nat) : CString (fun k => bytes (n + k)) p s ↔ CString bytes (n + p) s := by
  induction s generalizing p with
  | nil => exact Iff.rfl
  | cons c s ih => exact and_congr_right fun _ => and_congr_right fun _ => ih

theorem suffix (string : CString bytes p (s ++ t)) : CString bytes (p + s.length) t := by
  induction s generalizing p with
  | nil => exact string
  | cons c s ih =>
    have rest := ih string.2.2
    rw [List.length_cons, Nat.add_comm s.length, ← Nat.add_assoc]
    exact rest

theorem ends (string : CString bytes p s) : bytes (p + s.length) = 0 := by
  rw [← List.append_nil s] at string
  exact string.suffix

/-- A zero stored after the first part ends the string there. -/
theorem cut (string : CString bytes p (s ++ t)) :
    CString (Function.update bytes (p + s.length) 0) p s := by
  induction s generalizing p with
  | nil => exact Function.update_self _ _ _
  | cons c s ih =>
    have rest := ih string.2.2
    have place : p + 1 + s.length = p + (c :: s).length := by
      rw [List.length_cons]
      omega
    rw [place] at rest
    have before : p ≠ p + (c :: s).length := by
      rw [List.length_cons]
      omega
    exact ⟨(Function.update_of_ne before _ _).trans string.1, string.2.1, rest⟩

/-- The bytes before the first zero are a string. -/
theorem of_range (n : Nat) (nonzero : ∀ k < n, bytes (p + k) ≠ 0) (ends : bytes (p + n) = 0) :
    CString bytes p ((List.range n).map fun k => bytes (p + k)) := by
  induction n generalizing p with
  | zero => exact ends
  | succ n ih =>
    have shift : ∀ k, p + (k + 1) = p + 1 + k := by omega
    have rest : CString bytes (p + 1) ((List.range n).map fun k => bytes (p + 1 + k)) := by
      apply ih
      · intro k inside
        rw [← shift]
        exact nonzero (k + 1) (by omega)
      · rw [← shift]
        exact ends
    have shifted : (fun k => bytes (p + k)) ∘ Nat.succ = fun k => bytes (p + 1 + k) := by
      funext k
      exact congrArg bytes (shift k)
    rw [List.range_succ_eq_map, List.map_cons, List.map_map, shifted]
    exact ⟨rfl, nonzero 0 (by omega), rest⟩

theorem nonzero (string : CString bytes p s) : ∀ c ∈ s, c ≠ 0 := by
  induction s generalizing p with
  | nil => exact fun _ member => absurd member List.not_mem_nil
  | cons c s ih =>
    intro d member
    rcases List.mem_cons.mp member with rfl | later
    · exact string.2.1
    · exact ih string.2.2 d later

/-- Nonzero bytes with a zero behind them. -/
theorem of_get (nonzero : 0 ∉ s) (held : ∀ i c, s[i]? = some c → bytes (p + i) = c)
    (ends : bytes (p + s.length) = 0) : CString bytes p s := by
  induction s generalizing p with
  | nil => exact ends
  | cons c s ih =>
    rw [List.mem_cons, not_or] at nonzero
    refine ⟨held 0 c rfl, Ne.symm nonzero.1, ih nonzero.2 ?_ ?_⟩
    · intro i d found
      rw [Nat.add_assoc, Nat.add_comm 1 i]
      exact held (i + 1) d found
    · rw [Nat.add_assoc, Nat.add_comm 1]
      exact ends

theorem get (string : CString bytes p s) {i : Nat} {c : Byte} (found : s[i]? = some c) : bytes (p + i) = c := by
  induction s generalizing p i with
  | nil => exact absurd found (by simp)
  | cons d s ih =>
    cases i with
    | zero => exact string.1.trans (Option.some.inj found)
    | succ i =>
      rw [Nat.add_comm i, ← Nat.add_assoc]
      exact ih string.2.2 found

/-- No string goes on behind a zero. -/
theorem before_zero (string : CString bytes p s) {n : Nat} (after : p ≤ n) (zero : bytes n = 0) :
    p + s.length ≤ n := by
  by_contra beyond
  have inside : n - p < s.length := by omega
  have held : bytes (p + (n - p)) = s.get ⟨n - p, inside⟩ := string.get (List.getElem?_eq_getElem inside)
  rw [Nat.add_sub_cancel' after, zero] at held
  exact string.nonzero _ (List.get_mem s _) held.symm

end CString

/-- The string at a pointer. -/
def StringAt (memory : Mem) (p : Word) (s : List Byte) : Prop :=
  CString (fun k => memory (p + BitVec.ofNat 32 k)) 0 s

/-- A string of the whole address space would have no end. -/
theorem StringAt.length_lt {memory : Mem} {p : Word} {s : List Byte} (string : StringAt memory p s) :
    s.length < 2 ^ 32 := by
  by_contra long
  have ends : memory (p + BitVec.ofNat 32 (0 + s.length)) = 0 := CString.ends string
  have around : BitVec.ofNat 32 (s.length % 2 ^ 32) = BitVec.ofNat 32 (0 + s.length) := by
    rw [Nat.zero_add]
    exact BitVec.eq_of_toNat_eq (by simp)
  have before : s.length % 2 ^ 32 < s.length := Nat.lt_of_lt_of_le (Nat.mod_lt _ (by decide)) (Nat.le_of_not_lt long)
  have byte : memory (p + BitVec.ofNat 32 (0 + s.length % 2 ^ 32)) = s.get ⟨s.length % 2 ^ 32, before⟩ :=
    CString.get string (List.getElem?_eq_getElem before)
  rw [Nat.zero_add, around, ends] at byte
  exact CString.nonzero string _ (List.get_mem s _) byte.symm

namespace StringAt
variable {memory other : Mem} {p q : Word} {s t : List Byte}

theorem cons_iff {c : Byte} :
    StringAt memory p (c :: s) ↔ memory p = c ∧ c ≠ 0 ∧ StringAt memory (p + 1) s := by
  have later : (fun k => memory (p + BitVec.ofNat 32 (1 + k))) =
      fun k => memory (p + 1 + BitVec.ofNat 32 k) := by
    funext k
    congr 1
    bv_omega
  have shifted := @CString.offset (fun k => memory (p + BitVec.ofNat 32 k)) 0 s 1
  rw [later] at shifted
  unfold StringAt
  rw [shifted, CString]
  simp

/-- The first zero is the terminator. -/
theorem zero_iff (string : StringAt memory p s) {k : Nat} (bound : k ≤ s.length) :
    memory (p + BitVec.ofNat 32 k) = 0 ↔ k = s.length := by
  constructor
  · intro zero
    by_contra different
    have inside : k < s.length := Nat.lt_of_le_of_ne bound different
    have held : memory (p + BitVec.ofNat 32 (0 + k)) = s.get ⟨k, inside⟩ :=
      CString.get string (List.getElem?_eq_getElem inside)
    rw [Nat.zero_add, zero] at held
    exact CString.nonzero string _ (List.get_mem s _) held.symm
  · rintro rfl
    have ends : memory (p + BitVec.ofNat 32 (0 + s.length)) = 0 := CString.ends string
    rwa [Nat.zero_add] at ends

theorem within (string : StringAt memory p s)
    (same : ∀ x, Within p (s.length + 1) x → other x = memory x) : StringAt other p s := by
  have short := string.length_lt
  apply CString.frame string
  intro k _ bound
  apply same
  unfold Within
  bv_omega

/-- A string put where another one ended. -/
theorem append (first : StringAt memory p s)
    (held : ∀ k < s.length, other (p + BitVec.ofNat 32 k) = memory (p + BitVec.ofNat 32 k))
    (second : StringAt other (p + BitVec.ofNat 32 s.length) t) : StringAt other p (s ++ t) := by
  induction s generalizing p with
  | nil => simpa using second
  | cons c s ih =>
    obtain ⟨head, nonzero, rest⟩ := cons_iff.mp first
    have place : ∀ k, p + 1 + BitVec.ofNat 32 k = p + BitVec.ofNat 32 (k + 1) := by
      intro k
      bv_omega
    have same : other p = memory p := by simpa using held 0 (Nat.succ_pos _)
    refine cons_iff.mpr ⟨same.trans head, nonzero, ih rest (fun k bound => ?_) ?_⟩
    · rw [place]
      exact held (k + 1) (Nat.succ_lt_succ bound)
    · rw [place]
      exact second

/-- The places from `q` on, counted from `p`. -/
theorem place_add (p q : Word) (k : Nat) :
    p + BitVec.ofNat 32 ((q - p).toNat + k) = q + BitVec.ofNat 32 k := by
  have there : p + (q - p) = q := by bv_omega
  rw [BitVec.ofNat_add, BitVec.ofNat_toNat, BitVec.setWidth_eq, ← BitVec.add_assoc, there]

/-- Two strings with different ends have no byte in common: one lies before the other. -/
theorem apart (first : StringAt memory p s) (second : StringAt memory q t)
    (ends : p + BitVec.ofNat 32 s.length ≠ q + BitVec.ofNat 32 t.length) : s.length < (q - p).toNat := by
  by_contra inside
  obtain ⟨rest, length⟩ := Nat.exists_eq_add_of_le (Nat.le_of_not_lt inside)
  -- The end of the first string bounds the second, whose end is then the first zero from p on.
  have stops : t.length ≤ rest := by
    by_contra long
    have zero := (first.zero_iff (Nat.le_refl _)).mpr rfl
    rw [length, place_add] at zero
    exact absurd ((second.zero_iff (by omega)).mp zero) (by omega)
  have zero := (second.zero_iff (Nat.le_refl _)).mpr rfl
  rw [← place_add p] at zero
  apply ends
  rw [← (first.zero_iff (by omega)).mp zero, place_add]

end StringAt

/-- `while (test(*p)) p++`, with the bytes left before the end of the array; none past it. -/
def scan (test : Byte → Bool) : Nat → (Nat → Byte) → Nat → Option Nat
  | 0, _, _ => none
  | left + 1, bytes, p => if test (bytes p) then scan test left bytes (p + 1) else some p

/-- A scan that stops at the zero stops inside the string. -/
theorem CString.scan {bytes : Nat → Byte} {p left : Nat} {s : List Byte} {test : Byte → Bool}
    (string : CString bytes p s) (room : s.length < left) (stops : test 0 = false) :
    scan test left bytes p = some (p + (s.takeWhile test).length) := by
  induction s generalizing p left with
  | nil =>
    cases left with
    | zero => omega
    | succ left =>
      have ends : bytes p = 0 := string
      rw [Base.scan, ends, stops]
      rfl
  | cons c s ih =>
    cases left with
    | zero => omega
    | succ left =>
      rw [Base.scan, string.1, List.takeWhile_cons]
      cases passed : test c with
      | false => rfl
      | true =>
        have rest := ih string.2.2 (Nat.lt_of_succ_lt_succ room)
        rw [if_pos rfl, rest, if_pos rfl, List.length_cons]
        congr 1
        omega

theorem CString.dropWhile {bytes : Nat → Byte} {p : Nat} {s : List Byte} (string : CString bytes p s)
    (test : Byte → Bool) : CString bytes (p + (s.takeWhile test).length) (s.dropWhile test) := by
  rw [← List.takeWhile_append_dropWhile (p := test) (l := s)] at string
  exact string.suffix

end Vaelen.Base
