import Vaelen.Kernel.StringCompare

/-!
strstr of lib/string.c: the haystack is the first string and the needle the second. The pointer returned
is the place in the haystack, none the null pointer. Behind it the searches for one character.
-/

namespace Vaelen.Kernel.StringSearch
open Vaelen.Base Reading StringCompare

/-- The loop of strlen on the needle from `len` on. -/
def strlenLoop : Nat → Nat → Reading Place Byte Word
  | 0, _ => stuck
  | turns + 1, len => do
      let c ← read (.s2, len)
      if c = 0 then return BitVec.ofNat 32 len else strlenLoop turns (len + 1)

def strlen (turns : Nat) : Reading Place Byte Word := strlenLoop turns 0

/-- The loop over the haystack. -/
def strstrLoop (needleLen : Word) : Nat → Nat → Reading Place Byte (Option Nat)
  | 0, _ => stuck
  | turns + 1, i => do
      let c ← read (.s1, i)
      if c = 0 then return none
      else
        let order ← strncmp i 0 needleLen
        if order = 0 then return some i else strstrLoop needleLen turns (i + 1)

/-- Each loop may take so many turns. -/
def strstr (turns : Nat) : Reading Place Byte (Option Nat) := do
  let needleLen ← strlen turns
  if needleLen = 0 then return some 0
  else strstrLoop needleLen turns 0

variable {s1 s2 : Nat → Byte} {h n : List Byte} {i m turns : Nat}

theorem strlenLoop_returns (string : CString s2 i n) (enough : n.length < turns) :
    Returns (strlenLoop turns i) (pair s1 s2) (Inside m (i + n.length)) (BitVec.ofNat 32 (i + n.length)) := by
  induction n generalizing i turns with
  | nil =>
    cases turns with
    | zero => omega
    | succ turns =>
      have ends : s2 i = 0 := string
      refine read_s2 (Nat.le_add_right i _) ?_
      rw [if_pos ends]
      exact returns_pure _
  | cons c n ih =>
    cases turns with
    | zero => omega
    | succ turns =>
      refine read_s2 (Nat.le_add_right i _) ?_
      rw [if_neg string.head_nonzero, List.length_cons, Nat.add_comm n.length, ← Nat.add_assoc]
      exact ih string.2.2 (Nat.lt_of_succ_lt_succ enough)

/-- strncmp with the whole needle finds it in front. -/
theorem strncmp_zero_iff (haystack : CString s1 i h) (needle : CString s2 0 n) :
    firstDifference (h.take n.length) n = 0 ↔ n <+: h := by
  have cut : ∀ c ∈ h.take n.length, c ≠ 0 := fun c member => haystack.nonzero c (List.mem_of_mem_take member)
  rw [(firstDifference_signed cut needle.nonzero).equal, eq_comm, List.prefix_iff_eq_take]

theorem strstrLoop_returns (haystack : CString s1 i h) (needle : CString s2 0 n) (short : n.length < 2 ^ 32)
    (some : n ≠ []) (enough : h.length < turns) :
    Returns (strstrLoop (BitVec.ofNat 32 n.length) turns i) (pair s1 s2) (Inside (i + h.length) n.length)
      ((h.tails.findIdx? fun t => n <+: t).map (i + ·)) := by
  induction h generalizing i turns with
  | nil =>
    cases turns with
    | zero => omega
    | succ turns =>
      have ends : s1 i = 0 := haystack
      refine read_s1 (Nat.le_add_right i _) ?_
      rw [if_pos ends]
      have none : (List.tails ([] : List Byte)).findIdx? (fun t => n <+: t) = none := by
        simp [some]
      rw [none]
      exact returns_pure _
  | cons c h ih =>
    cases turns with
    | zero => omega
    | succ turns =>
      refine read_s1 (Nat.le_add_right i _) ?_
      rw [if_neg haystack.head_nonzero]
      have compared := strncmpLoop_returns haystack needle n.length
      rw [List.take_length, Nat.zero_add] at compared
      have count : (BitVec.ofNat 32 n.length).toNat = n.length := by
        rw [BitVec.toNat_ofNat, Nat.mod_eq_of_lt short]
      refine Returns.bind (a := firstDifference ((c :: h).take n.length) n) ?_ ?_
      · rw [strncmp, count]
        exact compared
      · rw [List.tails_cons, List.findIdx?_cons]
        by_cases here : n <+: c :: h
        · rw [if_pos ((strncmp_zero_iff haystack needle).mpr here)]
          simp only [here, decide_true, if_true, Option.map_some, Nat.add_zero]
          exact returns_pure _
        · rw [if_neg fun zero => here ((strncmp_zero_iff haystack needle).mp zero)]
          have later := ih haystack.2.2 (Nat.lt_of_succ_lt_succ enough)
          have places : ((h.tails.findIdx? fun t => n <+: t).map (· + 1)).map (i + ·) =
              (h.tails.findIdx? fun t => n <+: t).map (i + 1 + ·) := by
            rw [Option.map_map]
            congr 1
            funext j
            exact (Nat.add_right_comm i 1 j).symm
          rw [decide_eq_false here, if_neg Bool.false_ne_true, places, List.length_cons, Nat.add_comm h.length,
            ← Nat.add_assoc]
          exact later

/-- The needle stands in the haystack from `i` on. -/
def Occurs (h n : List Byte) (i : Nat) : Prop := n <+: h.drop i

theorem Occurs.inside (occurs : Occurs h n i) : Occurs h n (min i h.length) := by
  rcases Nat.le_total i h.length with within | past
  · rwa [Nat.min_eq_left within]
  · rw [Nat.min_eq_right past, Occurs, List.drop_length]
    rwa [Occurs, List.drop_of_length_le past] at occurs

theorem findIdx_least : (h.tails.findIdx? fun t => n <+: t) = some i ↔ IsLeast { i | Occurs h n i } i := by
  rw [List.findIdx?_eq_some_iff_getElem]
  simp only [List.getElem_tails, List.length_tails, decide_eq_true_eq]
  constructor
  · rintro ⟨bound, stands, first⟩
    refine ⟨stands, fun j found => ?_⟩
    by_contra before
    exact first j (Nat.lt_of_not_le before) found
  · rintro ⟨stands, least⟩
    have bound := least (Occurs.inside stands)
    refine ⟨by omega, stands, fun j before found => ?_⟩
    have lower := least found
    omega

theorem findIdx_none : (h.tails.findIdx? fun t => n <+: t) = none ↔ ∀ i, ¬Occurs h n i := by
  constructor
  · intro none i occurs
    have exists_least : ∃ i, Occurs h n i := ⟨i, occurs⟩
    classical
    have first := findIdx_least.mpr ⟨Nat.find_spec exists_least, fun j found => Nat.find_min' exists_least found⟩
    exact absurd (first.symm.trans none) (Option.some_ne_none _)
  · intro never
    apply Option.eq_none_iff_forall_ne_some.mpr
    intro i found
    exact never i (findIdx_least.mp found).1

/-- strstr returns the first place where the needle stands, and reads neither string behind its end. -/
theorem strstr_returns (haystack : CString s1 0 h) (needle : CString s2 0 n) (short : n.length < 2 ^ 32)
    (enough : h.length < turns) (also : n.length < turns) :
    Returns (strstr turns) (pair s1 s2) (Inside h.length n.length) (h.tails.findIdx? fun t => n <+: t) := by
  have length : Returns (strlen turns) (pair s1 s2) (Inside h.length (0 + n.length)) (BitVec.ofNat 32 (0 + n.length)) :=
    strlenLoop_returns needle also
  rw [Nat.zero_add] at length
  apply Returns.bind length
  cases n with
  | nil =>
    have first : (h.tails.findIdx? fun t => [] <+: t) = some 0 :=
      findIdx_least.mpr ⟨List.nil_prefix, fun j _ => Nat.zero_le j⟩
    have zero : BitVec.ofNat 32 ([] : List Byte).length = 0 := rfl
    rw [if_pos zero, first]
    exact returns_pure _
  | cons c n =>
    have some : BitVec.ofNat 32 (c :: n).length ≠ 0 := by
      intro zero
      have count := congrArg BitVec.toNat zero
      rw [BitVec.toNat_ofNat, Nat.mod_eq_of_lt short] at count
      exact absurd count (Nat.succ_ne_zero _)
    rw [if_neg some]
    have found := strstrLoop_returns haystack needle short (List.cons_ne_nil c n) enough
    simp only [Nat.zero_add] at found
    rwa [Option.map_id'] at found

/-- strstr on two strings of memory: the least position of the needle, null exactly when there is none, and
no byte behind a terminator is read. -/
theorem strstr_least (memory : Mem) (haystack needle : Word) (h n : List Byte) (first : StringAt memory haystack h)
    (second : StringAt memory needle n) :
    ∃ result, (∀ turns, h.length < turns → n.length < turns →
        Returns (strstr turns)
          (pair (fun k => memory (haystack + BitVec.ofNat 32 k)) fun k => memory (needle + BitVec.ofNat 32 k))
          (Inside h.length n.length) result) ∧
      (∀ i, result = some i ↔ IsLeast { i | Occurs h n i } i) ∧
      (result = none ↔ ∀ i, ¬Occurs h n i) :=
  ⟨_, fun _ enough also => strstr_returns first second second.length_lt enough also, fun _ => findIdx_least, findIdx_none⟩

/-- The haystack "aab" and the needle "ab". -/
def repeated : Mem := fun a => if a = 0 then 0x61 else if a = 1 then 0x61 else if a = 2 then 0x62 else 0

theorem strstr_least_repeated :
    ∃ result, (∀ turns, 3 < turns → 2 < turns →
        Returns (strstr turns)
          (pair (fun k => repeated (0 + BitVec.ofNat 32 k)) fun k => repeated (1 + BitVec.ofNat 32 k)) (Inside 3 2) result) ∧
      (∀ i, result = some i ↔ IsLeast { i | Occurs [0x61, 0x61, 0x62] [0x61, 0x62] i } i) ∧
      (result = none ↔ ∀ i, ¬Occurs [0x61, 0x61, 0x62] [0x61, 0x62] i) :=
  strstr_least repeated 0 1 [0x61, 0x61, 0x62] [0x61, 0x62]
    ⟨rfl, by decide, rfl, by decide, rfl, by decide, rfl⟩ ⟨rfl, by decide, rfl, by decide, rfl⟩

/-! strchr and strrchr, which look for one character. -/

/-- The loop of strchr from `i` on. -/
def strchrLoop (c : Byte) : Nat → Nat → Reading Nat Byte (Option Nat)
  | 0, _ => stuck
  | turns + 1, i => do
      let d ← read i
      if d = 0 then return none
      else if d = c then return some i
      else strchrLoop c turns (i + 1)

/-- The int is compared as a char. -/
def strchr (turns : Nat) (c : Word) : Reading Nat Byte (Option Nat) := strchrLoop (c.setWidth 8) turns 0

def strrchrLoop (c : Byte) : Nat → Nat → Option Nat → Reading Nat Byte (Option Nat)
  | 0, _, _ => stuck
  | turns + 1, i, last => do
      let d ← read i
      if d = 0 then return last
      else strrchrLoop c turns (i + 1) (if d = c then some i else last)

def strrchr (turns : Nat) (c : Word) : Reading Nat Byte (Option Nat) :=
  strrchrLoop (c.setWidth 8) turns 0 none

section character
variable {bytes : Nat → Byte} {s : List Byte} {c : Byte} {k : Nat}

theorem strchrLoop_returns (string : CString bytes i s) (enough : s.length < turns) :
    Returns (strchrLoop c turns i) bytes (· ≤ i + s.length) ((s.idxOf? c).map (i + ·)) := by
  induction s generalizing i turns with
  | nil =>
    cases turns with
    | zero => exact absurd enough (Nat.lt_irrefl 0)
    | succ turns =>
      have ends : bytes i = 0 := string
      refine Returns.then_read (k := i) (Nat.le_add_right i _) ?_
      rw [if_pos ends]
      exact returns_pure _
  | cons d s ih =>
    cases turns with
    | zero => exact absurd enough (Nat.not_lt_zero _)
    | succ turns =>
      refine Returns.then_read (k := i) (Nat.le_add_right i _) ?_
      rw [if_neg string.head_nonzero, string.1, List.idxOf?_cons]
      by_cases same : d = c
      · rw [if_pos same, if_pos (by simpa using same)]
        exact returns_pure _
      · rw [if_neg same, if_neg (by simpa using same), Option.map_map]
        have later := ih string.2.2 (Nat.lt_of_succ_lt_succ enough)
        have places : (i + ·) ∘ (· + 1) = (i + 1 + ·) := by
          funext j
          exact (Nat.add_right_comm i 1 j).symm
        rw [places, List.length_cons, Nat.add_comm s.length, ← Nat.add_assoc]
        exact later

/-- The last place of a character. -/
def lastIndex (c : Byte) : List Byte → Option Nat
  | [] => none
  | d :: s => ((lastIndex c s).map (· + 1)).or (if d = c then some 0 else none)

theorem strrchrLoop_returns (string : CString bytes i s) (enough : s.length < turns) (last : Option Nat) :
    Returns (strrchrLoop c turns i last) bytes (· ≤ i + s.length) (((lastIndex c s).map (i + ·)).or last) := by
  induction s generalizing i turns last with
  | nil =>
    cases turns with
    | zero => exact absurd enough (Nat.lt_irrefl 0)
    | succ turns =>
      have ends : bytes i = 0 := string
      refine Returns.then_read (k := i) (Nat.le_add_right i _) ?_
      rw [if_pos ends]
      exact returns_pure _
  | cons d s ih =>
    cases turns with
    | zero => exact absurd enough (Nat.not_lt_zero _)
    | succ turns =>
      refine Returns.then_read (k := i) (Nat.le_add_right i _) ?_
      rw [if_neg string.head_nonzero, string.1]
      have later := ih string.2.2 (Nat.lt_of_succ_lt_succ enough) (if d = c then some i else last)
      have found : (((lastIndex c s).map (i + 1 + ·)).or (if d = c then some i else last)) =
          ((lastIndex c (d :: s)).map (i + ·)).or last := by
        rw [lastIndex]
        cases lastIndex c s with
        | none => split_ifs <;> simp
        | some j => simp [Nat.add_right_comm, Nat.add_assoc]
      rw [← found, List.length_cons, Nat.add_comm s.length, ← Nat.add_assoc]
      exact later

theorem idxOf_least : s.idxOf? c = some k ↔ IsLeast { k | s[k]? = some c } k := by
  rw [List.idxOf?_eq_some_iff]
  constructor
  · rintro ⟨bound, stands, first⟩
    refine ⟨?_, fun j found => ?_⟩
    · change s[k]? = some c
      rw [List.getElem?_eq_getElem bound, stands]
    · by_contra before
      obtain ⟨inside, same⟩ := List.getElem?_eq_some_iff.mp found
      exact first j (Nat.lt_of_not_le before) same
  · rintro ⟨stands, least⟩
    obtain ⟨bound, same⟩ := List.getElem?_eq_some_iff.mp stands
    refine ⟨bound, same, fun j before found => ?_⟩
    have place : s[j]? = some c := by
      rw [List.getElem?_eq_getElem (by omega), found]
    exact absurd (least place) (Nat.not_le_of_lt before)

theorem lastIndex_none : lastIndex c s = none ↔ c ∉ s := by
  induction s with
  | nil => simp [lastIndex]
  | cons d s ih =>
    have other : d = c ↔ c = d := eq_comm
    simp [lastIndex, ih, other]
    tauto

theorem greatest_of_lastIndex (found : lastIndex c s = some k) : IsGreatest { k | s[k]? = some c } k := by
  induction s generalizing k with
  | nil => exact absurd found (by simp [lastIndex])
  | cons d s ih =>
    rw [lastIndex] at found
    cases later : lastIndex c s with
    | some j =>
      rw [later] at found
      obtain rfl : j + 1 = k := Option.some.inj found
      obtain ⟨stands, greatest⟩ := ih later
      refine ⟨stands, fun m here => ?_⟩
      cases m with
      | zero => exact Nat.zero_le _
      | succ m => exact Nat.succ_le_succ (greatest here)
    | none =>
      have absent := lastIndex_none.mp later
      rw [later] at found
      by_cases same : d = c
      · rw [if_pos same] at found
        obtain rfl : 0 = k := Option.some.inj found
        refine ⟨congrArg some same, fun m here => ?_⟩
        cases m with
        | zero => exact Nat.le_refl 0
        | succ m =>
          have later : s[m]? = some c := here
          exact absurd (List.mem_of_getElem? later) absent
      · rw [if_neg same] at found
        exact absurd found (by simp)

theorem lastIndex_greatest : lastIndex c s = some k ↔ IsGreatest { k | s[k]? = some c } k := by
  refine ⟨greatest_of_lastIndex, fun greatest => ?_⟩
  cases found : lastIndex c s with
  | none => exact absurd (List.mem_of_getElem? greatest.1) (lastIndex_none.mp found)
  | some j => exact congrArg some ((greatest_of_lastIndex found).unique greatest)

/-- strchr returns the first place of the character in the string and strrchr the last, null when it does
not stand there; the terminating zero is no place of the string for them. -/
theorem strchr_first_last {memory : Mem} {p : Word} (string : StringAt memory p s) (c : Word) :
    ∃ first last, (∀ turns, s.length < turns →
        Returns (strchr turns c) (fun k => memory (p + BitVec.ofNat 32 k)) (· ≤ s.length) first ∧
        Returns (strrchr turns c) (fun k => memory (p + BitVec.ofNat 32 k)) (· ≤ s.length) last) ∧
      (∀ k, first = some k ↔ IsLeast { k | s[k]? = some (c.setWidth 8) } k) ∧
      (∀ k, last = some k ↔ IsGreatest { k | s[k]? = some (c.setWidth 8) } k) ∧
      (first = none ↔ c.setWidth 8 ∉ s) ∧ (last = none ↔ c.setWidth 8 ∉ s) ∧
      (c.setWidth 8 = 0 → first = none ∧ last = none) := by
  have absent : c.setWidth 8 = 0 → c.setWidth 8 ∉ s := fun zero member =>
    CString.nonzero string _ member zero
  refine ⟨s.idxOf? (c.setWidth 8), lastIndex (c.setWidth 8) s, fun turns enough => ⟨?_, ?_⟩,
    fun k => idxOf_least, fun k => lastIndex_greatest, List.idxOf?_eq_none_iff, lastIndex_none,
    fun zero => ⟨List.idxOf?_eq_none_iff.mpr (absent zero), lastIndex_none.mpr (absent zero)⟩⟩
  · have found := strchrLoop_returns (c := c.setWidth 8) string enough
    simp only [Nat.zero_add, Option.map_id'] at found
    exact found
  · have found := strrchrLoop_returns (c := c.setWidth 8) string enough none
    simp only [Nat.zero_add, Option.map_id', Option.or_none] at found
    exact found

/-- The last of the two "a" of "aab". -/
theorem strchr_first_last_repeated :
    ∃ first last, (∀ turns, 3 < turns →
        Returns (strchr turns 0x61) (fun k => repeated (0 + BitVec.ofNat 32 k)) (· ≤ 3) first ∧
        Returns (strrchr turns 0x61) (fun k => repeated (0 + BitVec.ofNat 32 k)) (· ≤ 3) last) ∧
      (∀ k, first = some k ↔ IsLeast { k | [0x61, 0x61, 0x62][k]? = some ((0x61 : Word).setWidth 8) } k) ∧
      (∀ k, last = some k ↔ IsGreatest { k | [0x61, 0x61, 0x62][k]? = some ((0x61 : Word).setWidth 8) } k) ∧
      (first = none ↔ (0x61 : Word).setWidth 8 ∉ [0x61, 0x61, 0x62]) ∧
      (last = none ↔ (0x61 : Word).setWidth 8 ∉ [0x61, 0x61, 0x62]) ∧
      ((0x61 : Word).setWidth 8 = (0 : Byte) → first = none ∧ last = none) :=
  @strchr_first_last [0x61, 0x61, 0x62] repeated 0 ⟨rfl, by decide, rfl, by decide, rfl, by decide, rfl⟩ 0x61

end character

end Vaelen.Kernel.StringSearch
