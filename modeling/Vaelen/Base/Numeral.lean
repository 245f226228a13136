import Mathlib.Data.Nat.Digits.Lemmas
import Mathlib.Tactic

/-!
Positional numerals, the highest digit first.
-/

namespace Vaelen.Base

/-- The digits of a number; a zero has one. -/
def numeral (b n : Nat) : List Nat := if n = 0 then [0] else (Nat.digits b n).reverse

/-- The value of a list of digits. -/
def positional (b : Nat) (digits : List Nat) : Nat := digits.foldl (fun value d => value * b + d) 0

variable {b n d : Nat}

theorem positional_snoc (b : Nat) (digits : List Nat) (d : Nat) :
    positional b (digits ++ [d]) = positional b digits * b + d :=
  List.foldl_append

theorem positional_reverse (b : Nat) (digits : List Nat) :
    positional b digits.reverse = Nat.ofDigits b digits := by
  induction digits with
  | nil => rfl
  | cons d digits ih =>
    rw [List.reverse_cons, positional_snoc, ih, Nat.ofDigits_cons]
    ring

theorem positional_numeral (b n : Nat) : positional b (numeral b n) = n := by
  unfold numeral
  split_ifs with zero
  · simp [positional, zero]
  · rw [positional_reverse, Nat.ofDigits_digits]

theorem numeral_lt (two : 2 ≤ b) (member : d ∈ numeral b n) : d < b := by
  unfold numeral at member
  split_ifs at member
  · rw [List.mem_singleton.mp member]
    omega
  · exact Nat.digits_lt_base two (List.mem_reverse.mp member)

theorem numeral_ne_nil (b n : Nat) : numeral b n ≠ [] := by
  unfold numeral
  split_ifs with zero
  · exact List.cons_ne_nil 0 []
  · rw [Ne, List.reverse_eq_nil_iff]
    exact Nat.digits_ne_nil_iff_ne_zero.mpr zero

/-- Only zero begins with a zero. -/
theorem numeral_head (leading : (numeral b n).head? = some 0) : n = 0 := by
  by_contra zero
  rw [numeral, if_neg zero, List.head?_reverse] at leading
  have last := List.getLast_of_mem_getLast? leading
  exact Nat.getLast_digit_ne_zero b zero last

theorem numeral_small (small : n < b) : numeral b n = [n] := by
  unfold numeral
  split_ifs with zero
  · rw [zero]
  · rw [Nat.digits_of_lt b n zero small]
    rfl

/-- The last digit of a numeral and those before it. -/
theorem numeral_div (two : 2 ≤ b) (more : n / b ≠ 0) : numeral b n = numeral b (n / b) ++ [n % b] := by
  have zero : n ≠ 0 := by
    rintro rfl
    exact more (Nat.zero_div b)
  rw [numeral, if_neg zero, numeral, if_neg more, Nat.digits_def' two (Nat.pos_of_ne_zero zero)]
  exact List.reverse_cons

/-- The value in the arithmetic of `w` bits. -/
theorem ofNat_positional (w b : Nat) (digits : List Nat) :
    BitVec.ofNat w (positional b digits) =
      digits.foldl (fun value d => value * BitVec.ofNat w b + BitVec.ofNat w d) 0 := by
  induction digits using List.reverseRecOn with
  | nil => rfl
  | append_singleton digits d ih =>
    rw [positional_snoc, List.foldl_append, ← ih, BitVec.ofNat_add, BitVec.ofNat_mul]
    rfl

end Vaelen.Base
