import Vaelen.Base.CString
import Vaelen.Base.Reading

/-!
The comparisons of lib/string.c, strcmp, strncmp and memcmp, with the places of the two strings that they read.
A place is counted from the pointer that was passed.
-/

namespace Vaelen.Kernel.StringCompare
open Vaelen.Base Reading

/-- The two parameters of a comparison. -/
inductive Operand where
  | s1 | s2
  deriving DecidableEq, Repr

abbrev Place := Operand × Nat

/-- The bytes that the two pointers reach. -/
def pair (s1 s2 : Nat → Byte) : Place → Byte
  | (.s1, k) => s1 k
  | (.s2, k) => s2 k

/-- `*(unsigned char *)s1 - *(unsigned char *)s2` -/
def difference (p q : Nat) : Reading Place Byte Int := do
  let c ← read (.s1, p)
  let d ← read (.s2, q)
  return (c.toNat : Int) - d.toNat

/-- strcmp on the strings at two places, with the turns of its loop that are left. -/
def strcmp : Nat → Nat → Nat → Reading Place Byte Int
  | 0, _, _ => stuck
  | turns + 1, p, q => do
      let c ← read (.s1, p)
      if c = 0 then difference p q
      else
        let d ← read (.s2, q)
        if c = d then strcmp turns (p + 1) (q + 1) else difference p q

/-- The loop of strncmp with `left` turns to go. -/
def strncmpLoop : Nat → Nat → Nat → Reading Place Byte Int
  | 0, _, _ => return 0
  | left + 1, p, q => do
      let c ← read (.s1, p)
      let d ← read (.s2, q)
      if c ≠ d then return (c.toNat : Int) - d.toNat
      else if c = 0 then return 0
      else strncmpLoop left (p + 1) (q + 1)

def strncmp (p q : Nat) (n : Word) : Reading Place Byte Int := strncmpLoop n.toNat p q

/-! The order of strings. -/

/-- The first difference of two strings, the end of the shorter one counting as a zero. -/
def firstDifference : List Byte → List Byte → Int
  | [], [] => 0
  | [], d :: _ => -(d.toNat : Int)
  | c :: _, [] => c.toNat
  | c :: a, d :: b => if c = d then firstDifference a b else (c.toNat : Int) - d.toNat

/-- A value with the sign of the lexicographic order of unsigned bytes. -/
structure Signed (value : Int) (a b : List Byte) : Prop where
  equal : value = 0 ↔ a = b
  less : value < 0 ↔ a < b
  greater : 0 < value ↔ b < a

theorem firstDifference_signed {a b : List Byte} (left : ∀ c ∈ a, c ≠ 0) (right : ∀ c ∈ b, c ≠ 0) :
    Signed (firstDifference a b) a b := by
  induction a generalizing b with
  | nil =>
    cases b with
    | nil => exact ⟨by simp [firstDifference], by simp [firstDifference], by simp [firstDifference]⟩
    | cons d b =>
      have positive : 0 < d.toNat := by
        have nonzero := right d List.mem_cons_self
        bv_omega
      constructor
      · simp [firstDifference]
        omega
      · simp [firstDifference, positive]
      · simp [firstDifference]
  | cons c a ih =>
    have nonzero := left c List.mem_cons_self
    cases b with
    | nil =>
      constructor
      · simp [firstDifference]
        bv_omega
      · simp [firstDifference]
      · simp [firstDifference]
        bv_omega
    | cons d b =>
      by_cases same : c = d
      · subst same
        obtain ⟨equal, less, greater⟩ := ih (fun e member => left e (List.mem_cons_of_mem c member))
          (fun e member => right e (List.mem_cons_of_mem c member))
        have rest : firstDifference (c :: a) (c :: b) = firstDifference a b := if_pos rfl
        rw [rest]
        constructor
        · simp [equal]
        · simp [less]
        · simp [greater]
      · have differs : firstDifference (c :: a) (d :: b) = (c.toNat : Int) - d.toNat := if_neg same
        have apart : c.toNat ≠ d.toNat := fun equal => same (BitVec.eq_of_toNat_eq equal)
        rw [differs]
        constructor
        · simp [same]
          omega
        · simp [List.cons_lt_cons_iff, same, BitVec.lt_def]
        · simp [List.cons_lt_cons_iff, Ne.symm same, BitVec.lt_def]

/-! The comparisons return the first difference. -/

/-- The places up to `m` of the first string and up to `n` of the second. -/
def Inside (m n : Nat) : Place → Prop
  | (.s1, k) => k ≤ m
  | (.s2, k) => k ≤ n

variable {s1 s2 : Nat → Byte} {a b : List Byte} {p q m n turns left : Nat}

theorem read_s1 {α : Type} {next : Byte → Reading Place Byte α} {value : α} (inside : p ≤ m)
    (rest : Returns (next (s1 p)) (pair s1 s2) (Inside m n) value) :
    Returns (read (Operand.s1, p) >>= next) (pair s1 s2) (Inside m n) value :=
  Returns.then_read (k := (Operand.s1, p)) inside rest

theorem read_s2 {α : Type} {next : Byte → Reading Place Byte α} {value : α} (inside : q ≤ n)
    (rest : Returns (next (s2 q)) (pair s1 s2) (Inside m n) value) :
    Returns (read (Operand.s2, q) >>= next) (pair s1 s2) (Inside m n) value :=
  Returns.then_read (k := (Operand.s2, q)) inside rest

theorem difference_returns (first : p ≤ m) (second : q ≤ n) :
    Returns (difference p q) (pair s1 s2) (Inside m n) ((s1 p).toNat - (s2 q).toNat) :=
  read_s1 first (read_s2 second (returns_pure _))

theorem strcmp_returns (first : CString s1 p a) (second : CString s2 q b) (enough : a.length < turns) :
    Returns (strcmp turns p q) (pair s1 s2) (Inside (p + a.length) (q + b.length)) (firstDifference a b) := by
  induction a generalizing p q b turns with
  | nil =>
    cases turns with
    | zero => omega
    | succ turns =>
      have ends : s1 p = 0 := first
      refine read_s1 (Nat.le_refl p) ?_
      rw [if_pos ends]
      have value : ((s1 p).toNat : Int) - (s2 q).toNat = firstDifference [] b := by
        rw [ends]
        cases b with
        | nil =>
          have stops : s2 q = 0 := second
          rw [stops]
          rfl
        | cons d b =>
          rw [second.1]
          exact Int.zero_sub _
      rw [← value]
      exact difference_returns (Nat.le_refl p) (Nat.le_add_right q _)
  | cons c a ih =>
    cases turns with
    | zero => omega
    | succ turns =>
      refine read_s1 (Nat.le_add_right p _) ?_
      rw [if_neg first.head_nonzero]
      refine read_s2 (Nat.le_add_right q _) ?_
      cases b with
      | nil =>
        have stops : s2 q = 0 := second
        rw [if_neg (stops ▸ first.head_nonzero)]
        have value : ((s1 p).toNat : Int) - (s2 q).toNat = firstDifference (c :: a) [] := by
          rw [stops, first.1]
          exact Int.sub_zero _
        rw [← value]
        exact difference_returns (Nat.le_add_right p _) (Nat.le_add_right q _)
      | cons d b =>
        rw [List.length_cons, List.length_cons, Nat.add_comm a.length, ← Nat.add_assoc, Nat.add_comm b.length,
          ← Nat.add_assoc]
        by_cases same : c = d
        · have rest : firstDifference (c :: a) (d :: b) = firstDifference a b := if_pos same
          rw [first.1, second.1, if_pos same, rest]
          exact ih first.2.2 second.2.2 (Nat.lt_of_succ_lt_succ enough)
        · have differs : firstDifference (c :: a) (d :: b) = (c.toNat : Int) - d.toNat := if_neg same
          rw [first.1, second.1, if_neg same, differs, ← first.1, ← second.1]
          exact difference_returns (by omega) (by omega)

/-- strncmp compares the strings cut behind `left` characters. -/
theorem strncmpLoop_returns (first : CString s1 p a) (second : CString s2 q b) (left : Nat) :
    Returns (strncmpLoop left p q) (pair s1 s2) (Inside (p + a.length) (q + b.length))
      (firstDifference (a.take left) (b.take left)) := by
  induction left generalizing p q a b with
  | zero => exact returns_pure 0
  | succ left ih =>
    refine read_s1 (Nat.le_add_right p _) ?_
    refine read_s2 (Nat.le_add_right q _) ?_
    cases a with
    | nil =>
      have ends : s1 p = 0 := first
      cases b with
      | nil =>
        have stops : s2 q = 0 := second
        rw [ends, stops, if_neg (not_not.mpr rfl), if_pos rfl]
        exact returns_pure 0
      | cons d b =>
        rw [ends, second.1, if_pos (Ne.symm second.2.1)]
        have value : ((0 : Byte).toNat : Int) - d.toNat = firstDifference ([].take (left + 1)) ((d :: b).take (left + 1)) :=
          Int.zero_sub _
        rw [← value]
        exact returns_pure _
    | cons c a =>
      cases b with
      | nil =>
        have stops : s2 q = 0 := second
        rw [stops, first.1, if_pos first.2.1]
        have value : (c.toNat : Int) - (0 : Byte).toNat = firstDifference ((c :: a).take (left + 1)) ([].take (left + 1)) :=
          Int.sub_zero _
        rw [← value]
        exact returns_pure _
      | cons d b =>
        rw [first.1, second.1, List.take_succ_cons, List.take_succ_cons]
        by_cases same : c = d
        · have rest : firstDifference (c :: a.take left) (d :: b.take left) =
              firstDifference (a.take left) (b.take left) := if_pos same
          rw [if_neg (not_not.mpr same), if_neg first.2.1, rest, List.length_cons, List.length_cons,
            Nat.add_comm a.length, ← Nat.add_assoc, Nat.add_comm b.length, ← Nat.add_assoc]
          exact ih first.2.2 second.2.2
        · have differs : firstDifference (c :: a.take left) (d :: b.take left) = (c.toNat : Int) - d.toNat :=
            if_neg same
          rw [if_pos same, differs]
          exact returns_pure _

/-! The sign of a comparison. -/

/-- strcmp returns this value for two strings, and reads neither of them behind its end. -/
def Strcmp (s1 s2 : Nat → Byte) (a b : List Byte) (value : Int) : Prop :=
  ∀ turns, a.length < turns → Returns (strcmp turns 0 0) (pair s1 s2) (Inside a.length b.length) value

theorem Returns.unique {α : Type} {m : Reading Place Byte α} {array : Place → Byte} {within : Place → Prop}
    {value other : α} (first : Returns m array within value) (second : Returns m array within other) :
    value = other := by
  obtain ⟨reads, ended, _⟩ := first
  obtain ⟨more, finished, _⟩ := second
  exact congrArg Prod.fst (Option.some.inj (ended.symm.trans finished))

theorem strcmp_value (first : CString s1 0 a) (second : CString s2 0 b) {value : Int} :
    Strcmp s1 s2 a b value ↔ value = firstDifference a b := by
  have returns : Strcmp s1 s2 a b (firstDifference a b) := by
    intro turns enough
    have ended := strcmp_returns first second enough
    rwa [Nat.zero_add, Nat.zero_add] at ended
  constructor
  · intro compared
    exact Returns.unique (compared _ (Nat.lt_succ_self _)) (returns _ (Nat.lt_succ_self _))
  · rintro rfl
    exact returns

namespace Signed

theorem le_zero {value : Int} (sign : Signed value a b) : value ≤ 0 ↔ a < b ∨ a = b := by
  rw [← sign.less, ← sign.equal]
  omega

theorem antisymmetric {value other : Int} (there : Signed value a b) (back : Signed other b a) :
    other.sign = -value.sign := by
  rcases lt_trichotomy value 0 with negative | zero | positive
  · rw [Int.sign_eq_neg_one_of_neg negative, Int.sign_eq_one_of_pos (back.greater.mpr (there.less.mp negative))]
    rfl
  · rw [zero, back.equal.mpr (there.equal.mp zero).symm]
    rfl
  · rw [Int.sign_eq_one_of_pos positive, Int.sign_eq_neg_one_of_neg (back.less.mpr (there.greater.mp positive))]

theorem transitive {ab bc ac : Int} {c : List Byte} (first : Signed ab a b) (second : Signed bc b c)
    (both : Signed ac a c) (left : ab ≤ 0) (right : bc ≤ 0) : ac ≤ 0 ∧ (ac = 0 → ab = 0 ∧ bc = 0) := by
  rw [both.le_zero, both.equal, first.equal, second.equal]
  rcases first.le_zero.mp left with less | rfl
  · rcases second.le_zero.mp right with later | rfl
    · have through : a < c := List.lt_trans less later
      exact ⟨Or.inl through, fun same => absurd (same ▸ through) (List.lt_irrefl c)⟩
    · exact ⟨Or.inl less, fun same => ⟨same, rfl⟩⟩
  · exact ⟨second.le_zero.mp right, fun same => ⟨rfl, same⟩⟩

end Signed

/-- The sign of strcmp is that of the lexicographic order, and strncmp has the sign of strcmp on the strings
cut behind n characters; neither reads behind the end of a string. -/
theorem comparisons_ordered {s3 : Nat → Byte} {c : List Byte} (first : CString s1 0 a) (second : CString s2 0 b)
    (third : CString s3 0 c) :
    (∃ ab ba bc ac, Strcmp s1 s2 a b ab ∧ Strcmp s2 s1 b a ba ∧ Strcmp s2 s3 b c bc ∧ Strcmp s1 s3 a c ac ∧
      Signed ab a b ∧ ba.sign = -ab.sign ∧ (ab ≤ 0 → bc ≤ 0 → ac ≤ 0 ∧ (ac = 0 → ab = 0 ∧ bc = 0))) ∧
    ∀ n : Word, ∃ value, Returns (strncmp 0 0 n) (pair s1 s2) (Inside a.length b.length) value ∧
      ∀ (t1 t2 : Nat → Byte), CString t1 0 (a.take n.toNat) → CString t2 0 (b.take n.toNat) →
        ∃ cut, Strcmp t1 t2 (a.take n.toNat) (b.take n.toNat) cut ∧ value.sign = cut.sign := by
  have ab := firstDifference_signed first.nonzero second.nonzero
  have ba := firstDifference_signed second.nonzero first.nonzero
  have bc := firstDifference_signed second.nonzero third.nonzero
  have ac := firstDifference_signed first.nonzero third.nonzero
  constructor
  · refine ⟨_, _, _, _, (strcmp_value first second).mpr rfl, (strcmp_value second first).mpr rfl,
      (strcmp_value second third).mpr rfl, (strcmp_value first third).mpr rfl, ab, ?_, ?_⟩
    · exact ab.antisymmetric ba
    · exact fun left right => ab.transitive bc ac left right
  · intro n
    refine ⟨firstDifference (a.take n.toNat) (b.take n.toNat), ?_, fun t1 t2 left right => ?_⟩
    · have ended := strncmpLoop_returns first second n.toNat
      rwa [Nat.zero_add, Nat.zero_add] at ended
    · exact ⟨_, (strcmp_value left right).mpr rfl, rfl⟩

/-- "a", "b" and the empty string. -/
theorem comparisons_ordered_letters :
    (∃ ab ba bc ac, Strcmp (fun k => if k = 0 then 0x61 else 0) (fun k => if k = 0 then 0x62 else 0) [0x61] [0x62] ab ∧
      Strcmp (fun k => if k = 0 then 0x62 else 0) (fun k => if k = 0 then 0x61 else 0) [0x62] [0x61] ba ∧
      Strcmp (fun k => if k = 0 then 0x62 else 0) (fun _ => 0) [0x62] [] bc ∧
      Strcmp (fun k => if k = 0 then 0x61 else 0) (fun _ => 0) [0x61] [] ac ∧
      Signed ab [0x61] [0x62] ∧ ba.sign = -ab.sign ∧ (ab ≤ 0 → bc ≤ 0 → ac ≤ 0 ∧ (ac = 0 → ab = 0 ∧ bc = 0))) ∧
    ∀ n : Word, ∃ value, Returns (strncmp 0 0 n)
        (pair (fun k => if k = 0 then 0x61 else 0) (fun k => if k = 0 then 0x62 else 0)) (Inside 1 1) value ∧
      ∀ (t1 t2 : Nat → Byte), CString t1 0 (List.take n.toNat [0x61]) → CString t2 0 (List.take n.toNat [0x62]) →
        ∃ cut, Strcmp t1 t2 (List.take n.toNat [0x61]) (List.take n.toNat [0x62]) cut ∧ value.sign = cut.sign :=
  comparisons_ordered ⟨rfl, by decide, rfl⟩ ⟨rfl, by decide, rfl⟩ rfl

/-! memcmp, which no zero stops. -/

/-- The loop of memcmp from `i` on, with `left` turns to go. -/
def memcmpLoop : Nat → Nat → Reading Place Byte Int
  | 0, _ => return 0
  | left + 1, i => do
      let c ← read (.s1, i)
      let d ← read (.s2, i)
      if c ≠ d then difference i i else memcmpLoop left (i + 1)

def memcmp (n : Word) : Reading Place Byte Int := memcmpLoop n.toNat 0

/-- The bytes from `i` on. -/
def bytesFrom (s : Nat → Byte) (i count : Nat) : List Byte := (List.range' i count).map s

theorem bytesFrom_succ (s : Nat → Byte) (i count : Nat) : bytesFrom s i (count + 1) = s i :: bytesFrom s (i + 1) count := rfl

theorem bytesFrom_length (s : Nat → Byte) (i count : Nat) : (bytesFrom s i count).length = count := by
  simp [bytesFrom]

/-- Two arrays of one length are ordered by their first difference, zeros or not. -/
theorem firstDifference_arrays (same : a.length = b.length) : Signed (firstDifference a b) a b := by
  induction a generalizing b with
  | nil =>
    obtain rfl : b = [] := List.length_eq_zero_iff.mp same.symm
    exact ⟨by simp [firstDifference], by simp [firstDifference], by simp [firstDifference]⟩
  | cons c a ih =>
    cases b with
    | nil => exact absurd same (Nat.succ_ne_zero _)
    | cons d b =>
      by_cases equal : c = d
      · subst equal
        obtain ⟨zero, less, greater⟩ := ih (Nat.succ.inj same)
        have rest : firstDifference (c :: a) (c :: b) = firstDifference a b := if_pos rfl
        rw [rest]
        constructor
        · simp [zero]
        · simp [less]
        · simp [greater]
      · have differs : firstDifference (c :: a) (d :: b) = (c.toNat : Int) - d.toNat := if_neg equal
        have apart : c.toNat ≠ d.toNat := fun value => equal (BitVec.eq_of_toNat_eq value)
        rw [differs]
        constructor
        · simp [equal]
          omega
        · simp [List.cons_lt_cons_iff, equal, BitVec.lt_def]
        · simp [List.cons_lt_cons_iff, Ne.symm equal, BitVec.lt_def]

/-- Places of the arrays up to their first difference. -/
def Reached (s1 s2 : Nat → Byte) (n : Nat) (place : Place) : Prop :=
  place.2 < n ∧ ∀ k < place.2, s1 k = s2 k

theorem memcmpLoop_returns {i : Nat} (bound : i + left ≤ n) (same : ∀ k < i, s1 k = s2 k) :
    Returns (memcmpLoop left i) (pair s1 s2) (Reached s1 s2 n)
      (firstDifference (bytesFrom s1 i left) (bytesFrom s2 i left)) := by
  induction left generalizing i with
  | zero => exact returns_pure 0
  | succ left ih =>
    have here : ∀ operand : Operand, Reached s1 s2 n (operand, i) := fun _ => ⟨by omega, same⟩
    refine Returns.then_read (k := (Operand.s1, i)) (here .s1) ?_
    refine Returns.then_read (k := (Operand.s2, i)) (here .s2) ?_
    change Returns (if s1 i ≠ s2 i then _ else _) _ _ _
    rw [bytesFrom_succ, bytesFrom_succ, firstDifference]
    by_cases equal : s1 i = s2 i
    · rw [if_neg (not_not.mpr equal), if_pos equal]
      apply ih (by omega)
      intro k below
      rcases Nat.lt_succ_iff_lt_or_eq.mp below with before | rfl
      · exact same k before
      · exact equal
    · rw [if_pos equal, if_neg equal]
      refine Returns.then_read (k := (Operand.s1, i)) (here .s1) ?_
      refine Returns.then_read (k := (Operand.s2, i)) (here .s2) ?_
      exact returns_pure _

/-- The zero of a string counts like any byte, as long as nothing behind two equal strings is compared. -/
theorem firstDifference_bytes (first : CString s1 p a) (second : CString s2 p b)
    (past : min a.length b.length < n) (within : a ≠ b ∨ n ≤ a.length + 1) :
    firstDifference (bytesFrom s1 p n) (bytesFrom s2 p n) = firstDifference a b := by
  obtain ⟨n, rfl⟩ := Nat.exists_eq_add_of_lt (Nat.zero_lt_of_lt past)
  rw [Nat.zero_add] at past within ⊢
  rw [bytesFrom_succ, bytesFrom_succ, firstDifference]
  induction a generalizing p b n with
  | nil =>
    have ends : s1 p = 0 := first
    cases b with
    | nil =>
      have stops : s2 p = 0 := second
      obtain rfl : n = 0 := by simpa using within
      rw [ends, stops, if_pos rfl]
      rfl
    | cons d b =>
      rw [ends, second.1, if_neg (Ne.symm second.2.1)]
      exact Int.zero_sub _
  | cons c a ih =>
    cases b with
    | nil =>
      have stops : s2 p = 0 := second
      rw [stops, first.1, if_neg first.2.1]
      exact Int.sub_zero _
    | cons d b =>
      rw [first.1, second.1]
      by_cases equal : c = d
      · subst equal
        simp only [List.length_cons] at past within
        cases n with
        | zero => omega
        | succ n =>
          rw [if_pos rfl, bytesFrom_succ, bytesFrom_succ, firstDifference]
          have rest : firstDifference (c :: a) (c :: b) = firstDifference a b := if_pos rfl
          rw [rest]
          apply ih first.2.2 second.2.2 n
          · omega
          · rcases within with differ | short
            · exact Or.inl fun same => differ (congrArg (c :: ·) same)
            · exact Or.inr (Nat.le_of_succ_le_succ short)
      · have differs : firstDifference (c :: a) (d :: b) = (c.toNat : Int) - d.toNat := if_neg equal
        rw [if_neg equal, differs]

/-- memcmp has the sign of the lexicographic order of the arrays and reads neither behind their first
difference; on strings it is strcmp when it goes as far as a zero and not behind both. -/
theorem memcmp_ordered (s1 s2 : Nat → Byte) (n : Word) :
    ∃ value, Returns (memcmp n) (pair s1 s2) (Reached s1 s2 n.toNat) value ∧
      Signed value (bytesFrom s1 0 n.toNat) (bytesFrom s2 0 n.toNat) ∧
      ∀ a b, CString s1 0 a → CString s2 0 b → min a.length b.length < n.toNat →
        a ≠ b ∨ n.toNat ≤ a.length + 1 → Strcmp s1 s2 a b value := by
  refine ⟨firstDifference (bytesFrom s1 0 n.toNat) (bytesFrom s2 0 n.toNat), ?_, ?_, ?_⟩
  · exact memcmpLoop_returns (Nat.le_of_eq (Nat.zero_add _)) fun k before => absurd before (Nat.not_lt_zero k)
  · apply firstDifference_arrays
    rw [bytesFrom_length, bytesFrom_length]
  · intro a b first second past within
    exact (strcmp_value first second).mpr (firstDifference_bytes first second past within)

end Vaelen.Kernel.StringCompare
