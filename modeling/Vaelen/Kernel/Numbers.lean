import Mathlib.Data.BitVec
import Mathlib.Data.List.TakeWhile
import Vaelen.Base.CString
import Vaelen.Base.Numeral
import Vaelen.Kernel.Shell

/-!
The conversions between numbers and strings: itoa and atoi of string.c and strtol of stdlib.c. An int
and a long are 32 bits wide and wrap. Strings are arrays of bytes that are read from place 0 on.
-/

namespace Vaelen.Kernel.Numbers
open Vaelen.Base

/-! itoa. -/

/-- `(rem < 10) ? rem + '0' : rem + 'a' - 10` -/
def digitChar (rem : Nat) : Byte :=
  if rem < 10 then BitVec.ofNat 8 (rem + 0x30) else BitVec.ofNat 8 (rem + 0x61 - 10)

/-- The do loop: the string and `p` after the last digit, which is the highest. -/
def divideLoop (base : Nat) (two : 2 ≤ base) (v p : Nat) (str : Nat → Byte) : (Nat → Byte) × Nat :=
  let str := Function.update str p (digitChar (v % base))
  if v / base = 0 then (str, p + 1) else divideLoop base two (v / base) (p + 1) str
termination_by v
decreasing_by
  have positive : 0 < v := by
    by_contra zero
    simp_all
  exact Nat.div_lt_self positive two

/-- The for loop, which turns the digits round. -/
def reverseLoop (p1 p2 : Nat) (str : Nat → Byte) : Nat → Byte :=
  if p1 < p2 then
    let tmp := str p1
    reverseLoop (p1 + 1) (p2 - 1) (Function.update (Function.update str p1 (str p2)) p2 tmp)
  else str
termination_by p2 - p1

def itoa (value : Word) (str : Nat → Byte) (base : Int) : Nat → Byte :=
  if outside : base < 2 ∨ 36 < base then Function.update str 0 0
  else
    let negative := value.toInt < 0 ∧ base = 10
    let str := if negative then Function.update str 0 0x2D else str
    let p1 := if negative then 1 else 0
    let v := if negative then -value else value
    let (str, p) := divideLoop base.toNat (by omega) v.toNat p1 str
    reverseLoop p1 (p - 1) (Function.update str p 0)

/-! atoi and strtol. -/

/-- The spaces and the sign, in an array of `size` bytes; none past its end. -/
def skipSign (size : Nat) (s : Nat → Byte) : Option (Word × Nat) := do
  let p ← scan (· = 0x20) size s 0
  if s p = 0x2D then return (-1, p + 1)
  else if s p = 0x2B then return (1, p + 1)
  else return (1, p)

def atoiLoop (s : Nat → Byte) : Nat → Nat → Word → Option Word
  | 0, _, _ => none
  | left + 1, p, result =>
      if 0x30 ≤ (s p).toInt ∧ (s p).toInt ≤ 0x39 then
        atoiLoop s left (p + 1) (result * 10 + BitVec.ofInt 32 ((s p).toInt - 0x30))
      else some result

def atoi (size : Nat) (s : Nat → Byte) : Option Word := do
  let (sign, p) ← skipSign size s
  let result ← atoiLoop s (size - p) p 0
  return result * sign

/-- What strtol takes a character for; none where it breaks off. -/
def digitOf (c : Byte) : Option Int :=
  if 0x30 ≤ c.toInt ∧ c.toInt ≤ 0x39 then some (c.toInt - 0x30)
  else if 0x61 ≤ c.toInt ∧ c.toInt ≤ 0x7A then some (c.toInt - 0x61 + 10)
  else if 0x41 ≤ c.toInt ∧ c.toInt ≤ 0x5A then some (c.toInt - 0x41 + 10)
  else none

def strtolLoop (s : Nat → Byte) (base : Int) : Nat → Nat → Word → Option (Word × Nat)
  | 0, _, _ => none
  | left + 1, p, result =>
      if s p = 0 then some (result, p)
      else match digitOf (s p) with
        | none => some (result, p)
        | some digit =>
            if base ≤ digit then some (result, p)
            else strtolLoop s base left (p + 1) (result * BitVec.ofInt 32 base + BitVec.ofInt 32 digit)

/-- The value, and where endptr is put. -/
def strtol (size : Nat) (s : Nat → Byte) (base : Int) : Option (Word × Nat) := do
  let (sign, p) ← skipSign size s
  let (result, p) ← strtolLoop s base (size - p) p 0
  return (result * sign, p)

/-! Digits and numerals. -/

/-- The digits in order, letters in either case. -/
def alphabet : List Byte := Shell.chars "0123456789abcdefghijklmnopqrstuvwxyz"

def lower (c : Byte) : Byte := if 0x41 ≤ c ∧ c ≤ 0x5A then c + 0x20 else c

def digitValue (c : Byte) : Option Nat := alphabet.idxOf? (lower c)

def digitBelow (base : Nat) (c : Byte) : Bool :=
  match digitValue c with
  | none => false
  | some d => d < base

/-- The number in characters. -/
def unsignedNumeral (base n : Nat) : List Byte := (numeral base n).map digitChar

def signedNumeral (value : Word) : List Byte :=
  if value.toInt < 0 then 0x2D :: unsignedNumeral 10 value.toInt.natAbs else unsignedNumeral 10 value.toNat

/-- What a string says: its spaces and its sign skipped, and the digits that follow. -/
def body (s : List Byte) : List Byte := s.dropWhile (· = 0x20)

def signOf (s : List Byte) : Int := if (body s).head? = some 0x2D then -1 else 1

def afterSign (s : List Byte) : List Byte :=
  if (body s).head? = some 0x2D ∨ (body s).head? = some 0x2B then (body s).tail else body s

def digits (base : Nat) (s : List Byte) : List Byte := (afterSign s).takeWhile (digitBelow base)

def behindDigits (base : Nat) (s : List Byte) : List Byte := (afterSign s).dropWhile (digitBelow base)

def valueOf (base : Nat) (s : List Byte) : Int :=
  signOf s * positional base ((digits base s).filterMap digitValue)

theorem digitOf_eq : ∀ c, digitOf c = (digitValue c).map Int.ofNat := by decide +kernel

theorem digitValue_digitChar : ∀ d < 36, digitValue (digitChar d) = some d := by decide +kernel

/-! itoa writes the numeral. -/

variable {base : Nat} {two : 2 ≤ base} {v p p1 p2 : Nat} {str : Nat → Byte}

/-- The digits are stored from the lowest on. -/
theorem divideLoop_spec (base : Nat) (two : 2 ≤ base) (v p : Nat) (str : Nat → Byte) :
    (divideLoop base two v p str).2 = p + (numeral base v).length ∧
      (∀ k < p, (divideLoop base two v p str).1 k = str k) ∧
      ∀ i d, (numeral base v).reverse[i]? = some d → (divideLoop base two v p str).1 (p + i) = digitChar d := by
  induction v, p, str using divideLoop.induct base two with
  | case1 v p str small =>
    have one : numeral base v = [v] := by
      apply numeral_small
      by_contra large
      have quotient : 0 < v / base := Nat.div_pos (Nat.not_lt.mp large) (by omega)
      omega
    have digit : v % base = v := by
      have parts := Nat.div_add_mod v base
      rw [small, Nat.mul_zero, Nat.zero_add] at parts
      exact parts
    rw [divideLoop, if_pos small, one, digit]
    refine ⟨rfl, fun k before => Function.update_of_ne before.ne _ _, fun i d found => ?_⟩
    cases i with
    | zero =>
      obtain rfl : v = d := Option.some.inj found
      exact Function.update_self _ _ _
    | succ i => exact absurd found (by simp)
  | case2 v p str written more ih =>
    obtain ⟨ends, before, held⟩ := ih
    rw [divideLoop, if_neg more, numeral_div two more, List.reverse_append]
    refine ⟨?_, fun k early => ?_, fun i d found => ?_⟩
    · rw [List.length_append, List.length_singleton, ← Nat.add_assoc]
      exact ends.trans (Nat.add_right_comm p 1 _)
    · exact (before k (Nat.lt_succ_of_lt early)).trans (Function.update_of_ne early.ne _ _)
    · cases i with
      | zero =>
        obtain rfl : v % base = d := Option.some.inj found
        exact (before p (Nat.lt_succ_self p)).trans (Function.update_self _ _ _)
      | succ i =>
        rw [Nat.add_comm i 1, ← Nat.add_assoc]
        exact held i d found

/-- The for loop turns the places from p1 to p2 round and leaves the others alone. -/
theorem reverseLoop_spec (p1 p2 : Nat) (str : Nat → Byte) (k : Nat) :
    reverseLoop p1 p2 str k = if p1 ≤ k ∧ k ≤ p2 then str (p1 + p2 - k) else str k := by
  induction p1, p2, str using reverseLoop.induct with
  | case1 p1 p2 str order tmp ih =>
    rw [reverseLoop, if_pos order, ih]
    by_cases first : k = p1
    · subst first
      rw [if_neg (by omega), if_pos (by omega), Nat.add_sub_cancel_left,
        Function.update_of_ne order.ne, Function.update_self]
    · by_cases last : k = p2
      · subst last
        rw [if_neg (by omega), if_pos (by omega), Nat.add_sub_cancel, Function.update_self]
      · by_cases inside : p1 ≤ k ∧ k ≤ p2
        · rw [if_pos (by omega), if_pos inside, Function.update_of_ne (by omega), Function.update_of_ne (by omega)]
          congr 1
          omega
        · rw [if_neg (by omega), if_neg inside, Function.update_of_ne last, Function.update_of_ne first]
  | case2 p1 p2 str order =>
    rw [reverseLoop, if_neg order]
    split_ifs with inside
    · congr 1
      omega
    · rfl

theorem digitChar_nonzero : ∀ d < 36, digitChar d ≠ 0 := by decide

theorem unsignedNumeral_nonzero (two : 2 ≤ base) (small : base ≤ 36) (n : Nat) : 0 ∉ unsignedNumeral base n := by
  intro member
  obtain ⟨d, digit, zero⟩ := List.mem_map.mp member
  exact digitChar_nonzero d (Nat.lt_of_lt_of_le (numeral_lt two digit) small) zero

/-- Both loops and the zero between them. -/
theorem writes_numeral (two : 2 ≤ base) (small : base ≤ 36) (v p1 : Nat) (str : Nat → Byte) {p : Nat}
    {out : Nat → Byte} (divided : divideLoop base two v p1 str = (out, p)) :
    CString (reverseLoop p1 (p - 1) (Function.update out p 0)) p1 (unsignedNumeral base v) ∧
      ∀ k < p1, reverseLoop p1 (p - 1) (Function.update out p 0) k = str k := by
  obtain ⟨ends, before, held⟩ := divideLoop_spec base two v p1 str
  rw [divided] at ends before held
  change p = _ at ends
  have some : 0 < (numeral base v).length := List.length_pos_of_ne_nil (numeral_ne_nil base v)
  constructor
  · apply CString.of_get (unsignedNumeral_nonzero two small v)
    · intro i c found
      rw [unsignedNumeral, List.getElem?_map, Option.map_eq_some_iff] at found
      obtain ⟨d, digit, rfl⟩ := found
      have inside : i < (numeral base v).length := (List.getElem?_eq_some_iff.mp digit).1
      rw [reverseLoop_spec, if_pos (by omega), Function.update_of_ne (by omega)]
      have place : p1 + (p - 1) - (p1 + i) = p1 + ((numeral base v).length - 1 - i) := by omega
      rw [place]
      apply held
      rw [List.getElem?_reverse (by omega), ← digit]
      congr 1
      omega
    · rw [unsignedNumeral, List.length_map, ← ends, reverseLoop_spec, if_neg (by omega), Function.update_self]
  · intro k early
    rw [reverseLoop_spec, if_neg (by omega), Function.update_of_ne (by omega)]
    exact before k early

/-- The numeral with a sign in base 10 alone. -/
def numeralText (base : Int) (value : Word) : List Byte :=
  if base = 10 then signedNumeral value else unsignedNumeral base.toNat value.toNat

theorem natAbs_negative {value : Word} (negative : value.toInt < 0) : value.toInt.natAbs = (-value).toNat := by
  rw [BitVec.toInt_eq_toNat_cond] at negative ⊢
  split_ifs at negative ⊢ with half
  · omega
  · bv_omega

/-- itoa writes the numeral with its end. -/
theorem itoa_string (value : Word) (str : Nat → Byte) (base : Int) (two : 2 ≤ base) (small : base ≤ 36) :
    CString (itoa value str base) 0 (numeralText base value) := by
  have valid : ¬(base < 2 ∨ 36 < base) := by omega
  have atLeast : 2 ≤ base.toNat := by omega
  have atMost : base.toNat ≤ 36 := by omega
  rw [itoa, dif_neg valid]
  by_cases negative : value.toInt < 0 ∧ base = 10
  · simp only [if_pos negative]
    have written := writes_numeral atLeast atMost (-value).toNat 1 (Function.update str 0 0x2D) rfl
    have text : numeralText base value = 0x2D :: unsignedNumeral base.toNat (-value).toNat := by
      rw [numeralText, if_pos negative.2, signedNumeral, if_pos negative.1, natAbs_negative negative.1, negative.2]
      rfl
    rw [text]
    refine ⟨(written.2 0 (by decide)).trans (Function.update_self _ _ _), by decide, written.1⟩
  · simp only [if_neg negative]
    have written := writes_numeral atLeast atMost value.toNat 0 str rfl
    have text : numeralText base value = unsignedNumeral base.toNat value.toNat := by
      unfold numeralText
      split_ifs with ten
      · rw [signedNumeral, if_neg fun below => negative ⟨below, ten⟩, ten]
        rfl
      · rfl
    rw [text]
    exact written.1

/-! What the parsers read. -/

variable {s : Nat → Byte} {text : List Byte} {size left : Nat}

/-- The loop of atoi is that of strtol in base 10. -/
theorem atoiLoop_strtolLoop (s : Nat → Byte) (left p : Nat) (result : Word) :
    atoiLoop s left p result = (strtolLoop s 10 left p result).map Prod.fst := by
  induction left generalizing p result with
  | zero => rfl
  | succ left ih =>
    rw [atoiLoop, strtolLoop]
    by_cases ended : s p = 0
    · rw [if_pos ended, ended, if_neg (by decide)]
      rfl
    · rw [if_neg ended]
      by_cases digit : 0x30 ≤ (s p).toInt ∧ (s p).toInt ≤ 0x39
      · rw [if_pos digit, ih, digitOf, if_pos digit]
        change _ = Option.map Prod.fst (if (10 : Int) ≤ (s p).toInt - 0x30 then _ else _)
        rw [if_neg (by omega)]
        rfl
      · rw [if_neg digit, digitOf, if_neg digit]
        split_ifs with letter capital
        · change _ = Option.map Prod.fst (if (10 : Int) ≤ (s p).toInt - 0x61 + 10 then _ else _)
          rw [if_pos (by omega)]
          rfl
        · change _ = Option.map Prod.fst (if (10 : Int) ≤ (s p).toInt - 0x41 + 10 then _ else _)
          rw [if_pos (by omega)]
          rfl
        · rfl

theorem atoi_strtol (size : Nat) (s : Nat → Byte) : atoi size s = (strtol size s 10).map Prod.fst := by
  rw [atoi, strtol]
  cases skipSign size s with
  | none => rfl
  | some skipped =>
    obtain ⟨sign, p⟩ := skipped
    change (atoiLoop s (size - p) p 0).bind _ = ((strtolLoop s 10 (size - p) p 0).bind _).map Prod.fst
    rw [atoiLoop_strtolLoop]
    cases strtolLoop s 10 (size - p) p 0 <;> rfl

theorem strtolLoop_spec {base : Int} (two : 2 ≤ base) {p : Nat} (string : CString s p text)
    (room : text.length < left) (result : Word) :
    strtolLoop s base left p result =
      some (((text.takeWhile (digitBelow base.toNat)).filterMap digitValue).foldl
          (fun value d => value * BitVec.ofNat 32 base.toNat + BitVec.ofNat 32 d) result,
        p + (text.takeWhile (digitBelow base.toNat)).length) := by
  induction text generalizing p left result with
  | nil =>
    cases left with
    | zero => omega
    | succ left =>
      have ends : s p = 0 := string
      rw [strtolLoop, if_pos ends]
      rfl
  | cons c text ih =>
    cases left with
    | zero => omega
    | succ left =>
      rw [strtolLoop, if_neg string.head_nonzero, string.1, digitOf_eq, List.takeWhile_cons]
      cases digit : digitValue c with
      | none =>
        have stops : digitBelow base.toNat c = false := by
          rw [digitBelow, digit]
        rw [stops]
        rfl
      | some d =>
        have below : digitBelow base.toNat c = decide (d < base.toNat) := by
          rw [digitBelow, digit]
        rw [below]
        change (if base ≤ (d : Int) then _ else _) = _
        by_cases large : base ≤ (d : Int)
        · rw [if_pos large, if_neg (by simp; omega)]
          rfl
        · have least : BitVec.ofInt 32 base = BitVec.ofNat 32 base.toNat := by
            rw [← BitVec.ofInt_natCast, Int.toNat_of_nonneg (by omega)]
          rw [if_neg large, if_pos (by simp; omega), ih string.2.2 (Nat.lt_of_succ_lt_succ room),
            List.filterMap_cons_some digit, List.foldl_cons, List.length_cons, least]
          change some (_, p + 1 + _) = some (_, p + (_ + 1))
          rw [Nat.add_right_comm, Nat.add_assoc]
          rfl

/-- What stands behind the spaces and the sign is what the loops read. -/
theorem skipSign_spec (string : CString s 0 text) (room : text.length < size) :
    ∃ p, skipSign size s = some (BitVec.ofInt 32 (signOf text), p) ∧ CString s p (afterSign text) ∧
      p + (afterSign text).length = text.length := by
  have skipped : scan (· = 0x20) size s 0 = some (0 + (text.takeWhile (· = 0x20)).length) :=
    string.scan room (by decide)
  have parts : (text.takeWhile (· = 0x20)).length + (body text).length = text.length := by
    rw [body, ← List.length_append, List.takeWhile_append_dropWhile]
  have rest : CString s (text.takeWhile (· = 0x20)).length (body text) := by
    have behind := string.dropWhile (· = 0x20)
    rwa [Nat.zero_add] at behind
  rw [Nat.zero_add] at skipped
  rw [skipSign, skipped, signOf, afterSign]
  change ∃ p, (if s _ = 0x2D then some (-1, _) else if s _ = 0x2B then some (1, _) else some (1, _)) = _ ∧ _
  cases found : body text with
  | nil =>
    rw [found] at rest parts
    have ends : s (text.takeWhile (· = 0x20)).length = 0 := rest
    rw [ends]
    exact ⟨_, rfl, rest, parts⟩
  | cons c more =>
    rw [found] at rest parts
    rw [rest.1]
    simp only [List.head?_cons, Option.some.injEq, List.tail_cons]
    by_cases minus : c = 0x2D
    · rw [if_pos minus, if_pos minus, if_pos (Or.inl minus)]
      rw [List.length_cons] at parts
      exact ⟨_, rfl, rest.2.2, by omega⟩
    · rw [if_neg minus, if_neg minus]
      by_cases plus : c = 0x2B
      · rw [if_pos plus, if_pos (Or.inr plus)]
        rw [List.length_cons] at parts
        exact ⟨_, rfl, rest.2.2, by omega⟩
      · rw [if_neg plus, if_neg (not_or.mpr ⟨minus, plus⟩)]
        exact ⟨_, rfl, rest, parts⟩

/-- strtol is the signed value of the digits, and stops behind them. -/
theorem strtol_spec (string : CString s 0 text) (room : text.length < size) {base : Int} (two : 2 ≤ base) :
    strtol size s base = some (BitVec.ofInt 32 (valueOf base.toNat text),
      text.length - (behindDigits base.toNat text).length) := by
  obtain ⟨p, skipped, rest, place⟩ := skipSign_spec string room
  have looped := strtolLoop_spec two rest (show (afterSign text).length < size - p by omega) 0
  rw [← ofNat_positional] at looped
  have parts : (digits base.toNat text).length + (behindDigits base.toNat text).length = (afterSign text).length := by
    rw [digits, behindDigits, ← List.length_append, List.takeWhile_append_dropWhile]
  rw [strtol, skipped]
  change (strtolLoop s base (size - p) p 0).bind _ = _
  rw [looped]
  change some (_ * _, p + (digits base.toNat text).length) = _
  congr 2
  · rw [valueOf, BitVec.ofInt_mul, BitVec.mul_comm, BitVec.ofInt_natCast]
    rfl
  · omega

/-- atoi is strtol in base 10, and strtol in every base the signed value of the longest run of digits. -/
theorem parsers_agree (s : Nat → Byte) (text : List Byte) (string : CString s 0 text) (size : Nat)
    (room : text.length < size) :
    (∃ v p, strtol size s 10 = some (v, p) ∧ atoi size s = some v) ∧
      ∀ base : Int, 2 ≤ base → base ≤ 36 →
        strtol size s base = some (BitVec.ofInt 32 (valueOf base.toNat text),
          text.length - (behindDigits base.toNat text).length) := by
  have decimal := strtol_spec string room (show (2 : Int) ≤ 10 by decide)
  refine ⟨⟨_, _, decimal, ?_⟩, fun base two _ => strtol_spec string room two⟩
  rw [atoi_strtol, decimal]
  rfl

/-- A sign and a digit. -/
theorem parsers_agree_sign :
    (∃ v p, strtol 3 (fun k => [0x2D, 0x37].getD k 0) 10 = some (v, p) ∧
        atoi 3 (fun k => [0x2D, 0x37].getD k 0) = some v) ∧
      ∀ base : Int, 2 ≤ base → base ≤ 36 →
        strtol 3 (fun k => [0x2D, 0x37].getD k 0) base =
          some (BitVec.ofInt 32 (valueOf base.toNat [0x2D, 0x37]),
            2 - (behindDigits base.toNat [0x2D, 0x37]).length) :=
  parsers_agree (fun k => [0x2D, 0x37].getD k 0) [0x2D, 0x37] ⟨rfl, by decide, rfl, by decide, rfl⟩ 3 (by decide)

/-! The parsers read what itoa writes. -/

theorem digitChar_plain : ∀ d < 36, digitChar d ≠ 0x20 ∧ digitChar d ≠ 0x2D ∧ digitChar d ≠ 0x2B := by decide

theorem digitChar_zero : ∀ d < 36, digitChar d = 0x30 → d = 0 := by decide

/-- Digits of a base, without a zero in front of others. -/
structure Canonical (base n : Nat) (digits : List Byte) : Prop where
  below : ∀ c ∈ digits, digitBelow base c
  some : digits ≠ []
  head : digits.head? = Option.some 0x30 → n = 0 ∧ digits = [0x30]
  value : positional base (digits.filterMap digitValue) = n

theorem canonical_unsigned (two : 2 ≤ base) (small : base ≤ 36) (n : Nat) :
    Canonical base n (unsignedNumeral base n) := by
  have limit : ∀ d ∈ numeral base n, d < 36 := fun d member => Nat.lt_of_lt_of_le (numeral_lt two member) small
  constructor
  · intro c member
    obtain ⟨d, digit, rfl⟩ := List.mem_map.mp member
    rw [digitBelow, digitValue_digitChar d (limit d digit)]
    exact decide_eq_true (numeral_lt two digit)
  · exact mt List.map_eq_nil_iff.mp (numeral_ne_nil base n)
  · intro zero
    rw [unsignedNumeral, List.head?_map, Option.map_eq_some_iff] at zero
    obtain ⟨d, first, char⟩ := zero
    rw [digitChar_zero d (limit d (List.mem_of_mem_head? first)) char] at first
    have none := numeral_head first
    rw [none]
    exact ⟨rfl, rfl⟩
  · have values : (unsignedNumeral base n).filterMap digitValue = numeral base n := by
      rw [unsignedNumeral, List.filterMap_map]
      calc
        _ = (numeral base n).filterMap Option.some :=
          List.filterMap_congr fun d member => digitValue_digitChar d (limit d member)
        _ = _ := List.filterMap_some
    rw [values, positional_numeral]

/-- The first character of a numeral is neither a space nor a sign. -/
theorem unsignedNumeral_head (two : 2 ≤ base) (small : base ≤ 36) (n : Nat) :
    ∃ c rest, unsignedNumeral base n = c :: rest ∧ c ≠ 0x20 ∧ c ≠ 0x2D ∧ c ≠ 0x2B := by
  obtain ⟨d, rest, whole⟩ := List.exists_cons_of_ne_nil (numeral_ne_nil base n)
  have digit : d < base := numeral_lt two (whole ▸ List.mem_cons_self)
  exact ⟨digitChar d, rest.map digitChar, congrArg (List.map digitChar) whole,
    digitChar_plain d (Nat.lt_of_lt_of_le digit small)⟩

theorem afterSign_unsigned (two : 2 ≤ base) (small : base ≤ 36) (n : Nat) :
    signOf (unsignedNumeral base n) = 1 ∧ afterSign (unsignedNumeral base n) = unsignedNumeral base n := by
  obtain ⟨c, rest, whole, space, minus, plus⟩ := unsignedNumeral_head two small n
  have bodied : body (c :: rest) = c :: rest := List.dropWhile_cons_of_neg (mt of_decide_eq_true space)
  have first : (body (c :: rest)).head? = some c := congrArg List.head? bodied
  rw [whole, signOf, afterSign, first, if_neg (mt Option.some.inj minus),
    if_neg (not_or.mpr ⟨mt Option.some.inj minus, mt Option.some.inj plus⟩)]
  exact ⟨rfl, bodied⟩

theorem afterSign_minus (s : List Byte) : signOf (0x2D :: s) = -1 ∧ afterSign (0x2D :: s) = s := by
  have bodied : body (0x2D :: s) = 0x2D :: s := List.dropWhile_cons_of_neg (by decide)
  rw [signOf, afterSign, bodied]
  exact ⟨rfl, rfl⟩

theorem digits_all {n : Nat} {s : List Byte} (numeral : Canonical base n (afterSign s)) :
    valueOf base s = signOf s * n ∧ behindDigits base s = [] := by
  have whole : digits base s = afterSign s := List.takeWhile_eq_self_iff.mpr numeral.below
  rw [valueOf, whole, numeral.value]
  exact ⟨rfl, List.dropWhile_eq_nil_iff.mpr numeral.below⟩

/-- Every numeral is read back as the value. -/
theorem valueOf_numeralText (value : Word) {base : Int} (two : 2 ≤ base) (small : base ≤ 36) :
    BitVec.ofInt 32 (valueOf base.toNat (numeralText base value)) = value ∧
      behindDigits base.toNat (numeralText base value) = [] := by
  have atLeast : 2 ≤ base.toNat := by omega
  have atMost : base.toNat ≤ 36 := by omega
  have plain : BitVec.ofInt 32 (valueOf base.toNat (unsignedNumeral base.toNat value.toNat)) = value ∧
      behindDigits base.toNat (unsignedNumeral base.toNat value.toNat) = [] := by
    obtain ⟨sign, same⟩ := afterSign_unsigned atLeast atMost value.toNat
    obtain ⟨read, behind⟩ := digits_all (same.symm ▸ canonical_unsigned atLeast atMost value.toNat)
    rw [read, sign, one_mul, BitVec.ofInt_natCast, BitVec.ofNat_toNat, BitVec.setWidth_eq]
    exact ⟨rfl, behind⟩
  unfold numeralText
  by_cases ten : base = 10
  · rw [if_pos ten, signedNumeral]
    by_cases negative : value.toInt < 0
    · rw [if_pos negative, natAbs_negative negative]
      obtain ⟨sign, same⟩ := afterSign_minus (unsignedNumeral 10 (-value).toNat)
      have numeral : Canonical base.toNat (-value).toNat (afterSign (0x2D :: unsignedNumeral 10 (-value).toNat)) := by
        rw [same, ten]
        exact canonical_unsigned (by decide) (by decide) _
      obtain ⟨read, behind⟩ := digits_all numeral
      rw [read, sign, BitVec.ofInt_mul, BitVec.ofInt_natCast, BitVec.ofNat_toNat, BitVec.setWidth_eq]
      refine ⟨?_, behind⟩
      calc
        BitVec.ofInt 32 (-1) * -value = -1 * -value := rfl
        _ = value := by ring
    · rw [if_neg negative]
      rw [ten] at plain ⊢
      exact plain
  · rw [if_neg ten]
    exact plain

/-- itoa writes a numeral of the value, with a minus sign only in base 10, and the parsers read the value
back and stop at its end. -/
theorem itoa_roundTrip (v : Word) (str : Nat → Byte) (base : Int) (two : 2 ≤ base) (small : base ≤ 36) :
    ∃ sign digits, CString (itoa v str base) 0 (sign ++ digits) ∧
      sign = (if v.toInt < 0 ∧ base = 10 then [0x2D] else []) ∧
      Canonical base.toNat (if v.toInt < 0 ∧ base = 10 then v.toInt.natAbs else v.toNat) digits ∧
      ∀ size, (sign ++ digits).length < size →
        strtol size (itoa v str base) base = some (v, (sign ++ digits).length) ∧
          (base = 10 → atoi size (itoa v str base) = some v) := by
  have atLeast : 2 ≤ base.toNat := by omega
  have atMost : base.toNat ≤ 36 := by omega
  have string := itoa_string v str base two small
  obtain ⟨read, behind⟩ := valueOf_numeralText v two small
  have parts : numeralText base v = (if v.toInt < 0 ∧ base = 10 then [0x2D] else []) ++
      unsignedNumeral base.toNat (if v.toInt < 0 ∧ base = 10 then v.toInt.natAbs else v.toNat) := by
    unfold numeralText signedNumeral
    by_cases ten : base = 10
    · by_cases negative : v.toInt < 0
      · rw [if_pos ten, if_pos negative, if_pos ⟨negative, ten⟩, if_pos ⟨negative, ten⟩, ten]
        rfl
      · rw [if_pos ten, if_neg negative, if_neg (mt And.left negative), if_neg (mt And.left negative), ten]
        rfl
    · rw [if_neg ten, if_neg (mt And.right ten), if_neg (mt And.right ten)]
      rfl
  refine ⟨_, _, parts ▸ string, rfl, canonical_unsigned atLeast atMost _, ?_⟩
  rw [← parts]
  intro size room
  have parsed := strtol_spec string room two
  rw [read, behind] at parsed
  refine ⟨parsed, fun ten => ?_⟩
  subst ten
  rw [atoi_strtol, parsed]
  rfl

/-- The most negative value. -/
theorem itoa_roundTrip_least :
    ∃ sign digits, CString (itoa 0x80000000 (fun _ => 0) 10) 0 (sign ++ digits) ∧
      sign = (if (0x80000000 : Word).toInt < 0 ∧ (10 : Int) = 10 then [0x2D] else []) ∧
      Canonical (10 : Int).toNat (if (0x80000000 : Word).toInt < 0 ∧ (10 : Int) = 10 then
        (0x80000000 : Word).toInt.natAbs else (0x80000000 : Word).toNat) digits ∧
      ∀ size, (sign ++ digits).length < size →
        strtol size (itoa 0x80000000 (fun _ => 0) 10) 10 = some (0x80000000, (sign ++ digits).length) ∧
          ((10 : Int) = 10 → atoi size (itoa 0x80000000 (fun _ => 0) 10) = some 0x80000000) :=
  itoa_roundTrip 0x80000000 (fun _ => 0) 10 (by decide) (by decide)

end Vaelen.Kernel.Numbers
